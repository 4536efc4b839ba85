import Mathlib.Data.List.Sort
import Mathlib.Order.Lattice

/-!
# One-Way Sweeps

A queue that serves its elements in ascending order of a key, as a lift serves
the floors on its way up. What comes for a floor already passed waits for the
next sweep. There are two lists: the current sweep and the next one. The next
becomes the current when that is done.

Elements of one key are served in the order they came. The reason is that an
element goes behind its equals, and that the next sweep holds nothing that the
current one can still reach (`Sweep.behind`). So two elements of one key are in
the order of arrival also when one is in each list, or when the second came
after the lists were switched.

## Main definitions

* `Sweep`: Two sorted lists, the second entirely before the first.
* `Sweep.add`, `Sweep.pop`: An element comes, and the first one is served.
* `Sweep.held`: What waits, in the order in which it will be served.

## Theorems

* `Sweep.add_perm`, `Sweep.held_pop`: Nothing is lost.
* `Sweep.add_filter`: A new element goes behind those of its key.
-/

namespace Sweep

variable {α κ : Type} [LinearOrder κ] {key : α → κ}

/-- The element goes before the first with a greater key. -/
def insert (key : α → κ) (a : α) (l : List α) : List α :=
  l.orderedInsert (fun x y => key x < key y) a

/-- The order of both lists. -/
def Sorted (key : α → κ) (l : List α) : Prop :=
  l.Pairwise (fun x y => key x ≤ key y)

theorem insert_of_lt {a b : α} (l : List α) (h : key a < key b) :
    insert key a (b :: l) = a :: b :: l :=
  List.orderedInsert_cons_of_le _ l h

theorem insert_of_not_lt {a b : α} (l : List α) (h : ¬key a < key b) :
    insert key a (b :: l) = b :: insert key a l :=
  List.orderedInsert_of_not_le _ l h

theorem insert_perm (a : α) (l : List α) : (insert key a l).Perm (a :: l) :=
  List.perm_orderedInsert _ a l

theorem mem_insert {a b : α} {l : List α} : b ∈ insert key a l ↔ b = a ∨ b ∈ l :=
  List.mem_orderedInsert _

theorem Sorted.insert {a : α} {l : List α} (h : Sorted key l) : Sorted key (insert key a l) := by
  induction l with
  | nil => exact List.pairwise_singleton _ a
  | cons b l ih =>
      have hl := List.pairwise_cons.1 h
      by_cases hab : key a < key b
      · rw [insert_of_lt l hab]
        refine List.pairwise_cons.2 ⟨fun c hc => ?_, h⟩
        rcases List.mem_cons.1 hc with rfl | hc
        · exact hab.le
        · exact hab.le.trans (hl.1 c hc)
      · rw [insert_of_not_lt l hab]
        refine List.pairwise_cons.2 ⟨fun c hc => ?_, ih hl.2⟩
        rcases mem_insert.1 hc with rfl | hc
        · exact not_lt.1 hab
        · exact hl.1 c hc

/-- A new element goes behind those of its key and leaves the others as they
    are. -/
theorem insert_filter {a : α} {l : List α} (h : Sorted key l) (k : κ) :
    (insert key a l).filter (fun x => key x = k) =
      l.filter (fun x => key x = k) ++ [a].filter (fun x => key x = k) := by
  induction l with
  | nil => rfl
  | cons b l ih =>
      have hl := List.pairwise_cons.1 h
      by_cases hab : key a < key b
      · rw [insert_of_lt l hab]
        by_cases hk : key a = k
        · -- Nothing from `b` on has the key.
          have hnone : (b :: l).filter (fun x => key x = k) = [] := by
            rw [List.filter_eq_nil_iff]
            intro c hc hck
            rw [decide_eq_true_eq] at hck
            rcases List.mem_cons.1 hc with rfl | hc
            · exact absurd (hk.trans hck.symm) hab.ne
            · exact absurd (hk.trans hck.symm) (hab.trans_le (hl.1 c hc)).ne
          rw [hnone, List.filter_cons_of_pos (by simpa using hk), hnone,
            List.filter_cons_of_pos (by simpa using hk)]
          rfl
        · rw [List.filter_cons_of_neg (by simpa using hk),
            List.filter_cons_of_neg (a := a) (by simpa using hk), List.filter_nil,
            List.append_nil]
      · rw [insert_of_not_lt l hab, List.filter_cons, List.filter_cons, ih hl.2]
        split
        · rfl
        · rfl

end Sweep

/-- The current sweep and the next one. Everything in the next has a smaller key
    than what is left of the current, and there is no next without a current. -/
structure Sweep {α κ : Type} [LinearOrder κ] (key : α → κ) where
  now : List α
  next : List α
  now_sorted : Sweep.Sorted key now
  next_sorted : Sweep.Sorted key next
  behind : ∀ a ∈ next, ∀ b ∈ now, key a < key b
  idle : now = [] → next = []

namespace Sweep

variable {α κ : Type} [LinearOrder κ] {key : α → κ}

/-- Nothing waits. -/
def empty (key : α → κ) : Sweep key where
  now := []
  next := []
  now_sorted := List.Pairwise.nil
  next_sorted := List.Pairwise.nil
  behind := by simp
  idle := fun _ => rfl

/-- What waits, in the order in which it is served if nothing else comes. -/
def held (s : Sweep key) : List α :=
  s.now ++ s.next

/-- The current sweep has passed the key. -/
def Passed (s : Sweep key) (a : α) : Prop :=
  ∃ b ∈ s.now.head?, key a < key b

theorem Passed.lt {s : Sweep key} {a : α} (h : s.Passed a) : ∀ b ∈ s.now, key a < key b := by
  rcases h with ⟨c, hc, hlt⟩
  intro b hb
  rcases List.head?_eq_some_iff.1 hc with ⟨l, hl⟩
  have hs := s.now_sorted
  rw [hl] at hs hb
  rcases List.mem_cons.1 hb with rfl | hb
  · exact hlt
  · exact hlt.trans_le ((List.pairwise_cons.1 hs).1 b hb)

/-- An element goes into the next sweep if the current one has passed it. -/
def addNext (s : Sweep key) (a : α) (h : s.Passed a) : Sweep key where
  now := s.now
  next := insert key a s.next
  now_sorted := s.now_sorted
  next_sorted := s.next_sorted.insert
  behind := by
    intro x hx
    rcases mem_insert.1 hx with rfl | hx
    · exact h.lt
    · exact s.behind x hx
  idle := by
    intro hn
    rcases h with ⟨c, hc, _⟩
    rw [hn] at hc
    exact absurd hc (by simp)

/-- And into the current one if not. -/
def addNow (s : Sweep key) (a : α) (h : ¬s.Passed a) : Sweep key where
  now := insert key a s.now
  next := s.next
  now_sorted := s.now_sorted.insert
  next_sorted := s.next_sorted
  behind := by
    intro x hx b hb
    rcases mem_insert.1 hb with rfl | hb
    · -- The first of the current sweep lies between the two.
      cases hn : s.now with
      | nil =>
          rw [s.idle hn] at hx
          exact absurd hx List.not_mem_nil
      | cons c l =>
          have hc : c ∈ s.now := by
            rw [hn]
            exact List.mem_cons_self
          have hle : ¬key b < key c := fun hlt => h ⟨c, by rw [hn, List.head?_cons]; rfl, hlt⟩
          exact (s.behind x hx c hc).trans_le (not_lt.1 hle)
    · exact s.behind x hx b hb
  idle := by
    intro hn
    have hmem : a ∈ insert key a s.now := mem_insert.2 (Or.inl rfl)
    rw [hn] at hmem
    exact absurd hmem List.not_mem_nil

open Classical in
/-- An element comes. -/
noncomputable def add (s : Sweep key) (a : α) : Sweep key :=
  if h : s.Passed a then s.addNext a h else s.addNow a h

theorem add_of_passed {s : Sweep key} {a : α} (h : s.Passed a) : s.add a = s.addNext a h := by
  unfold add
  rw [dif_pos h]

theorem add_of_not_passed {s : Sweep key} {a : α} (h : ¬s.Passed a) :
    s.add a = s.addNow a h := by
  unfold add
  rw [dif_neg h]

/-- Whether the current sweep has passed a key is seen from its first element. -/
theorem passed_cons {s : Sweep key} {a b : α} {l : List α} (h : s.now = b :: l) :
    s.Passed a ↔ key a < key b := by
  unfold Passed
  rw [h, List.head?_cons]
  simp

theorem not_passed_of_nil {s : Sweep key} (a : α) (h : s.now = []) : ¬s.Passed a := by
  unfold Passed
  rw [h]
  simp

/-- The first element is served, and the sweeps are switched if it was the last
    of its own. -/
def pop (s : Sweep key) : Sweep key where
  now := if s.now.tail = [] then s.next else s.now.tail
  next := if s.now.tail = [] then [] else s.next
  now_sorted := by
    split
    · exact s.next_sorted
    · exact s.now_sorted.tail
  next_sorted := by
    split
    · exact List.Pairwise.nil
    · exact s.next_sorted
  behind := by
    split
    · simp
    · exact fun x hx b hb => s.behind x hx b (List.mem_of_mem_tail hb)
  idle := by
    by_cases ht : s.now.tail = []
    · intro _
      rw [if_pos ht]
    · rw [if_neg ht]
      exact fun hn => absurd hn ht

theorem add_perm (s : Sweep key) (a : α) : (s.add a).held.Perm (a :: s.held) := by
  unfold held
  by_cases h : s.Passed a
  · rw [add_of_passed h]
    exact ((insert_perm a s.next).append_left s.now).trans List.perm_middle
  · rw [add_of_not_passed h]
    exact (insert_perm a s.now).append_right s.next

/-- The next sweep has nothing of the key of an element that goes into the
    current one. -/
theorem filter_next {s : Sweep key} {a : α} (h : ¬s.Passed a) :
    s.next.filter (fun x => key x = key a) = [] := by
  rw [List.filter_eq_nil_iff]
  intro b hb hk
  rw [decide_eq_true_eq] at hk
  have hlt := (s.addNow a h).behind b hb a (mem_insert.2 (Or.inl rfl))
  exact hlt.ne hk

/-- What waits with one key, in the order of service, is what waited with a new
    element behind it. -/
theorem add_filter (s : Sweep key) (a : α) (k : κ) :
    (s.add a).held.filter (fun x => key x = k) =
      s.held.filter (fun x => key x = k) ++ [a].filter (fun x => key x = k) := by
  unfold held
  by_cases h : s.Passed a
  · rw [add_of_passed h]
    unfold addNext
    dsimp only
    rw [List.filter_append, List.filter_append, insert_filter s.next_sorted, List.append_assoc]
  · rw [add_of_not_passed h]
    unfold addNow
    dsimp only
    rw [List.filter_append, List.filter_append, insert_filter s.now_sorted]
    by_cases hk : key a = k
    · rw [← hk, filter_next h, List.append_nil, List.append_nil]
    · have hnil : [a].filter (fun x => key x = k) = [] := by
        rw [List.filter_cons_of_neg (by simpa using hk), List.filter_nil]
      rw [hnil, List.append_nil, List.append_nil]

/-- The first element of the current sweep is the first served. -/
theorem held_pop {s : Sweep key} {a : α} (h : s.now.head? = some a) :
    s.held = a :: s.pop.held := by
  rcases List.head?_eq_some_iff.1 h with ⟨l, hl⟩
  unfold held pop
  dsimp only
  rw [hl, List.tail_cons]
  by_cases ht : l = []
  · rw [if_pos ht, if_pos ht, ht, List.append_nil]
    rfl
  · rw [if_neg ht, if_neg ht]
    rfl

theorem held_eq_nil {s : Sweep key} : s.held = [] ↔ s.now = [] := by
  unfold held
  rw [List.append_eq_nil_iff]
  exact ⟨fun h => h.1, fun h => ⟨h, s.idle h⟩⟩

end Sweep
