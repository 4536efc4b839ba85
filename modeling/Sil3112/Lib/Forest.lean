import Mathlib.Logic.Function.Basic
import Mathlib.Data.List.Defs

/-!
# Ordered Forests

Nodes with a parent and an ordered list of children each, as a tree of devices
or of windows has them. A node can be taken away with what it has below it, and
a new node goes behind the children that are there.

The next sibling of a node is found in its parent's list. So it depends on the
parent of the node and not on its own children, which is what separates a walk
over the children of `d` from a walk over the siblings of `d`.

## Main definitions

* `Forest`: Parents and children.
* `Forest.Ok`: Parents and children agree, and there is no cycle.
* `Forest.nextSibling`: The node behind another in its parent's list.
* `Forest.remove`, `Forest.adopt`: A node goes, and a new one comes.

## Theorems

* `Forest.Ok.remove`, `Forest.Ok.adopt`: Both keep the forest well formed.
* `Forest.Ok.parent_nextSibling`: A sibling has the same parent.
-/

/-- Parents and children. -/
structure Forest (N : Type) where
  parent : N → Option N
  child : N → List N

namespace Forest

variable {N : Type}

/-- Parents and children agree, no node is a child twice, and parents are
    nearer to the root. -/
structure Ok (t : Forest N) : Prop where
  mem_child : ∀ p c, c ∈ t.child p ↔ t.parent c = some p
  nodup : ∀ p, (t.child p).Nodup
  ranked : ∃ rank : N → Nat, ∀ p c, t.parent c = some p → rank p < rank c

variable [DecidableEq N]

/-- What stands behind `d` in a list. -/
def nextOf (d : N) : List N → Option N
  | [] => none
  | x :: xs => if x = d then xs.head? else nextOf d xs

/-- The node behind `d` in its parent's list. -/
def nextSibling (t : Forest N) (d : N) : Option N :=
  match t.parent d with
  | none => none
  | some p => nextOf d (t.child p)

/-- `c` goes, and its children have no parent any more. -/
def remove (t : Forest N) (c : N) : Forest N where
  parent := fun x => if x = c ∨ t.parent x = some c then none else t.parent x
  child := fun p => if p = c then [] else (t.child p).erase c

/-- `n` becomes the last child of `p`. -/
def adopt (t : Forest N) (p n : N) : Forest N where
  parent := Function.update t.parent n (some p)
  child := Function.update t.child p (t.child p ++ [n])

/-- A node that is not in the forest yet. -/
structure Fresh (t : Forest N) (n : N) : Prop where
  parent : t.parent n = none
  child : t.child n = []

/-! ## Siblings -/

omit [DecidableEq N] in
theorem Ok.parent_ne_self {t : Forest N} (h : t.Ok) (d : N) : t.parent d ≠ some d := by
  intro hd
  rcases h.ranked with ⟨rank, hr⟩
  exact absurd (hr d d hd) (Nat.lt_irrefl _)

omit [DecidableEq N] in
/-- Two nodes are not below each other. -/
theorem Ok.parent_asymm {t : Forest N} (h : t.Ok) {c d : N} (hc : t.parent c = some d) :
    t.parent d ≠ some c := by
  intro hd
  rcases h.ranked with ⟨rank, hr⟩
  have h1 := hr d c hc
  have h2 := hr c d hd
  omega

theorem mem_of_nextOf {d s : N} {l : List N} (h : nextOf d l = some s) : s ∈ l := by
  induction l with
  | nil => cases h
  | cons x xs ih =>
      by_cases hx : x = d
      · rw [nextOf, if_pos hx] at h
        exact List.mem_cons_of_mem x (List.mem_of_mem_head? h)
      · rw [nextOf, if_neg hx] at h
        exact List.mem_cons_of_mem x (ih h)

theorem nextOf_ne {d s : N} {l : List N} (hl : l.Nodup) (h : nextOf d l = some s) : s ≠ d := by
  induction l with
  | nil => cases h
  | cons x xs ih =>
      have hn := List.nodup_cons.1 hl
      by_cases hx : x = d
      · rw [nextOf, if_pos hx] at h
        have hs := List.mem_of_mem_head? h
        intro hsd
        exact hn.1 (by rw [hx, ← hsd]; exact hs)
      · rw [nextOf, if_neg hx] at h
        exact ih hn.2 h

theorem Ok.parent_nextSibling {t : Forest N} (h : t.Ok) {d s : N}
    (hs : t.nextSibling d = some s) : t.parent s = t.parent d ∧ t.parent d ≠ none ∧ s ≠ d := by
  rw [nextSibling] at hs
  cases hd : t.parent d with
  | none =>
      rw [hd] at hs
      cases hs
  | some p =>
      rw [hd] at hs
      exact ⟨(h.mem_child p s).1 (mem_of_nextOf hs), by simp, nextOf_ne (h.nodup p) hs⟩

/-! ## Removing -/

theorem parent_of_remove {t : Forest N} {c x p : N} (h : (t.remove c).parent x = some p) :
    x ≠ c ∧ p ≠ c ∧ t.parent x = some p := by
  simp only [remove] at h
  split at h
  · cases h
  · rename_i hx
    rw [not_or] at hx
    refine ⟨hx.1, ?_, h⟩
    intro hp
    exact hx.2 (by rw [h, hp])

theorem parent_remove_of_ne {t : Forest N} {c x : N} (hx : x ≠ c) (hp : t.parent x ≠ some c) :
    (t.remove c).parent x = t.parent x := by
  simp only [remove]
  rw [if_neg (by rintro (h | h); exacts [hx h, hp h])]

theorem Ok.remove {t : Forest N} (h : t.Ok) (c : N) : (t.remove c).Ok where
  mem_child := by
    intro p x
    by_cases hp : p = c
    · constructor
      · intro hx
        simp [Forest.remove, hp] at hx
      · intro hx
        exact absurd hp (parent_of_remove hx).2.1
    · simp only [Forest.remove, if_neg hp, (h.nodup p).mem_erase_iff, h.mem_child]
      constructor
      · intro hx
        rw [if_neg]
        · exact hx.2
        · rintro (hc | hc)
          · exact hx.1 hc
          · exact hp (Option.some.inj (hx.2.symm.trans hc))
      · intro hx
        have := parent_of_remove (t := t) (c := c) hx
        exact ⟨this.1, this.2.2⟩
  nodup := by
    intro p
    by_cases hp : p = c
    · simp [Forest.remove, hp]
    · simp only [Forest.remove, if_neg hp]
      exact (h.nodup p).erase c
  ranked := by
    rcases h.ranked with ⟨rank, hr⟩
    exact ⟨rank, fun p x hx => hr p x (parent_of_remove hx).2.2⟩

/-! ## Adopting -/

omit [DecidableEq N] in
theorem Ok.not_child_of_fresh {t : Forest N} (h : t.Ok) {n : N} (hn : t.Fresh n) (p : N) :
    n ∉ t.child p := by
  intro hp
  have := (h.mem_child p n).1 hp
  rw [hn.parent] at this
  cases this

theorem Ok.adopt {t : Forest N} (h : t.Ok) {p n : N} (hn : t.Fresh n) (hne : n ≠ p) :
    (t.adopt p n).Ok where
  mem_child := by
    intro q x
    have hnq := h.not_child_of_fresh hn q
    by_cases hx : x = n
    · subst hx
      by_cases hq : q = p
      · simp [Forest.adopt, hq]
      · simp [Forest.adopt, hq, hnq, Ne.symm hq]
    · by_cases hq : q = p
      · subst hq
        simp [Forest.adopt, hx, h.mem_child]
      · simp [Forest.adopt, hx, hq, h.mem_child]
  nodup := by
    intro q
    by_cases hq : q = p
    · subst hq
      simp only [Forest.adopt, Function.update_self]
      refine List.nodup_append.2 ⟨h.nodup q, List.pairwise_singleton _ n, ?_⟩
      intro a ha b hb hab
      rw [List.mem_singleton.1 hb] at hab
      exact h.not_child_of_fresh hn q (by rw [← hab]; exact ha)
    · simp only [Forest.adopt, Function.update_of_ne hq]
      exact h.nodup q
  ranked := by
    rcases h.ranked with ⟨rank, hr⟩
    -- a new node has no children, so only its own rank is new
    refine ⟨Function.update rank n (rank p + 1), ?_⟩
    intro q x hx
    have hq : q ≠ n := by
      intro hq
      subst hq
      by_cases hxn : x = q
      · subst hxn
        simp [Forest.adopt] at hx
        exact hne hx.symm
      · simp [Forest.adopt, hxn, ← h.mem_child, hn.child] at hx
    rw [Function.update_of_ne hq]
    by_cases hxn : x = n
    · subst hxn
      simp [Forest.adopt] at hx
      rw [Function.update_self, hx]
      omega
    · rw [Function.update_of_ne hxn]
      refine hr q x ?_
      simpa [Forest.adopt, hxn] using hx

theorem Fresh.adopt {t : Forest N} {p n m : N} (h : t.Fresh m) (hn : m ≠ n) (hp : m ≠ p) :
    (t.adopt p n).Fresh m where
  parent := by
    simp only [Forest.adopt, Function.update_of_ne hn]
    exact h.parent
  child := by
    simp only [Forest.adopt, Function.update_of_ne hp]
    exact h.child

theorem Fresh.remove {t : Forest N} {n : N} (h : t.Fresh n) (c : N) : (t.remove c).Fresh n where
  parent := by simp [Forest.remove, h.parent]
  child := by simp [Forest.remove, h.child]

end Forest
