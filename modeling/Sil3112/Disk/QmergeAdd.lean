import Sil3112.Disk.Qmerge
import Sil3112.Lib.Descents

/-!
# The Rings of the Merging Queue

What `qmerge_add` does to the two rings. Each is a list, read along `av_forw` from its
head, and the list of one gets the new buf somewhere.

Sorted means that the blocks descend at most once on the way around, and the loops of
`que_insert` look for the place that keeps this. They go on while the blocks change,
and so they stop at the first two bufs for one block. If the place for the new buf is
farther on it is put between the two, and the ring has one descent more than before.

## Main definitions

* `RingsOk`: The two rings as lists.
* `FlagsOk`: What the `QNEAR` flags say about the two heads.
* `StopsShort`: The walk does not get to the place for the buf.

## Theorems

* `insertWalk_spec`: Where the walk ends.
* `queInsert_spec`: The buf is in its ring, and the descents are as many as before
  unless the walk stops short.
-/

namespace Sil3112

namespace Disk

open Rings Descents

variable {β ρ : Type}

/-! ## Two rings -/

/-- The rings with the heads `hd` are the lists `l`. -/
structure RingsOk (av : Links β) (hd : Pri → Option β) (l : Pri → List β) : Prop where
  ring : ∀ p, IsRing av (l p)
  head : ∀ p, (l p).head? = hd p
  nodup : ∀ p, (l p).Nodup
  apart : ∀ p q x, x ∈ l p → x ∈ l q → p = q

/-- The bufs of both rings. -/
def held (l : Pri → List β) : List β :=
  l .sync ++ l .async

/-- What the flags say about the rings: `QNEAR_ASYNCONLY` is for no sync ring,
    `QNEAR_ASYNCALSO` for two of them, and without either the sync ring is empty only
    if both are. -/
structure FlagsOk (f : QNear) (hd : Pri → Option β) : Prop where
  only : f.asyncOnly = true → hd .sync = none ∧ hd .async ≠ none
  also : f.asyncAlso = true → hd .sync ≠ none ∧ hd .async ≠ none
  neither : f.asyncOnly = false → f.asyncAlso = false → hd .sync = none → hd .async = none

variable {av av' : Links β} {hd hd' : Pri → Option β} {l l' : Pri → List β}

theorem mem_held {x : β} : x ∈ held l ↔ ∃ p, x ∈ l p := by
  constructor
  · intro h
    rcases List.mem_append.mp h with h | h
    · exact ⟨.sync, h⟩
    · exact ⟨.async, h⟩
  · rintro ⟨p, h⟩
    cases p with
    | sync => exact List.mem_append_left _ h
    | async => exact List.mem_append_right _ h

theorem RingsOk.nodup_held (h : RingsOk av hd l) : (held l).Nodup := by
  refine List.nodup_append.mpr ⟨h.nodup .sync, h.nodup .async, fun x hx y hy hxy => ?_⟩
  cases h.apart _ _ x hx (hxy ▸ hy)

theorem RingsOk.nil_iff (h : RingsOk av hd l) (p : Pri) : hd p = none ↔ l p = [] := by
  rw [← h.head p, List.head?_eq_none_iff]

theorem FlagsOk.congr {f : QNear} (h : FlagsOk f hd) (hn : ∀ p, hd' p = none ↔ hd p = none) :
    FlagsOk f hd' where
  only hf := by
    rw [Ne, hn, hn]
    exact h.only hf
  also hf := by
    rw [Ne, Ne, hn, hn]
    exact h.also hf
  neither ho ha := by
    rw [hn, hn]
    exact h.neither ho ha

/-- The heads are others, of the same rings. -/
theorem RingsOk.of_isRotated (h : RingsOk av hd l) (hr : ∀ p, (l p).IsRotated (l' p))
    (hhead : ∀ p, (l' p).head? = hd' p) : RingsOk av hd' l' where
  ring p := (h.ring p).of_isRotated (hr p)
  head := hhead
  nodup p := (hr p).nodup_iff.mp (h.nodup p)
  apart p q x hp hq := h.apart p q x ((hr p).mem_iff.mpr hp) ((hr q).mem_iff.mpr hq)

/-- One ring is another list, of its own bufs and of bufs that were in none. -/
theorem RingsOk.update (h : RingsOk av hd l) {p : Pri} {c : List β} (hring : IsRing av' c)
    (hnd : c.Nodup) (hmem : ∀ x ∈ c, x ∈ l p ∨ x ∉ held l)
    (hother : ∀ q, q ≠ p → IsRing av' (l q)) :
    RingsOk av' (Function.update hd p c.head?) (Function.update l p c) where
  ring q := by
    by_cases hq : q = p
    · subst hq
      rwa [Function.update_self]
    · rw [Function.update_of_ne hq]
      exact hother q hq
  head q := by
    by_cases hq : q = p
    · subst hq
      rw [Function.update_self, Function.update_self]
    · rw [Function.update_of_ne hq, Function.update_of_ne hq, h.head]
  nodup q := by
    by_cases hq : q = p
    · subst hq
      rwa [Function.update_self]
    · rw [Function.update_of_ne hq]
      exact h.nodup q
  apart q r x hxq hxr := by
    have hold (q : Pri) (hq : q ≠ p) (hxp : x ∈ c) (hx : x ∈ l q) : False := by
      rcases hmem x hxp with hl | hl
      · exact hq (h.apart q p x hx hl)
      · exact hl (mem_held.mpr ⟨q, hx⟩)
    by_cases hq : q = p
    · by_cases hr : r = p
      · rw [hq, hr]
      · rw [hq, Function.update_self] at hxq
        rw [Function.update_of_ne hr] at hxr
        exact (hold r hr hxq hxr).elim
    · rw [Function.update_of_ne hq] at hxq
      by_cases hr : r = p
      · rw [hr, Function.update_self] at hxr
        exact (hold q hq hxr hxq).elim
      · rw [Function.update_of_ne hr] at hxr
        exact h.apart q r x hxq hxr

/-! ## The walk -/

theorem ahead_irrefl (back : Bool) (u : Nat) : ahead back u u = false := by
  cases back <;> simp [ahead]

theorem ahead_trans {back : Bool} {u v w : Nat} (h : ahead back u v = true)
    (h' : ahead back v w = true) : ahead back u w = true := by
  cases back <;> simp [ahead] at h h' ⊢ <;> omega

/-- A ring in the order of the walk. -/
def walkOrder (back : Bool) : List β → List β
  | [] => []
  | h :: c => if back then h :: c.reverse else h :: c

/-- The blocks change all the way to the first of two bufs for one block, and the place
    for `blk` is not reached there. -/
def StopsShort (blk : β → Nat) (back : Bool) (w : List β) (b : Nat) : Prop :=
  ∃ pre u v post, w ++ w.head?.toList = pre ++ u :: v :: post ∧
    (pre ++ [u]).IsChain (fun x y => ahead back (blk y) (blk x) = true) ∧
    blk v = blk u ∧ ahead back b (blk u) = true

/-- The walk of `que_insert` stops short for `bp` in a ring with the list `c`. -/
def Strands (blk : β → Nat) (c : List β) (bp : β) : Prop :=
  ∃ h ∈ c.head?, StopsShort blk (decide (blk bp < blk h))
    (walkOrder (decide (blk bp < blk h)) c) (blk bp)

/-- Where the walk ends: the buf is put between `u` and the next buf `v`, because `v`
    comes later than the buf, or because `v` does not come later than `u`. -/
inductive WalkEnd (blk : β → Nat) (back : Bool) (b : Nat) (u v : β) : β ⊕ β → Prop
  | found (h : ahead back (blk v) (blk u) = true) (hb : ahead back (blk v) b = true) :
      WalkEnd blk back b u v (.inl v)
  | last (h : ahead back (blk v) (blk u) = false) : WalkEnd blk back b u v (.inr u)

/-- The pointers that the walk follows around a ring. -/
theorem walkOrder_chain (back : Bool) {c : List β} {x : β} (h : IsRing av (x :: c)) :
    (walkOrder back (x :: c) ++ [x]).IsChain fun x y =>
      (if back then av.prev x else av.next x) = some y := by
  cases back with
  | false => exact List.IsChain.imp (fun _ _ hlink => hlink.1) h
  | true =>
      have hrev : (walkOrder true (x :: c) ++ [x]) = (x :: c ++ [x]).reverse := by
        simp [walkOrder]
      rw [hrev, List.isChain_reverse]
      exact List.IsChain.imp (fun _ _ hlink => hlink.2) h

theorem walkOrder_cons (back : Bool) (x : β) (c : List β) :
    ∃ r, walkOrder back (x :: c) = x :: r ∧ r.Perm c := by
  cases back with
  | false => exact ⟨c, rfl, List.Perm.refl c⟩
  | true => exact ⟨c.reverse, rfl, c.reverse_perm⟩

/-- The two neighbours that the walk ends at, along `av_forw`. -/
theorem walkOrder_between {back : Bool} {c pre post : List β} {start u v : β}
    (h : walkOrder back (start :: c) ++ [start] = pre ++ u :: v :: post) :
    ∃ m, (start :: c).IsRotated m ∧ m.getLast? = some (if back then v else u) ∧
      m.head? = some (if back then u else v) := by
  cases back with
  | false => exact exists_isRotated_between h
  | true =>
      have hrev := congrArg List.reverse h
      refine exists_isRotated_between (a := post.reverse) (b := pre.reverse) ?_
      simpa [walkOrder] using hrev

/-- What comes later than the end of a walk comes later than all that it passed. -/
theorem ahead_of_chain {blk : β → Nat} {back : Bool} {b : Nat} {u x : β} {pre : List β}
    (h : (pre ++ [u]).IsChain fun x y => ahead back (blk y) (blk x) = true)
    (hb : ahead back b (blk u) = true) (hx : x ∈ pre ++ [u]) : ahead back b (blk x) = true := by
  induction pre generalizing x with
  | nil => rwa [List.mem_singleton.mp hx]
  | cons y pre ih =>
      rcases List.mem_cons.mp hx with rfl | hx
      · cases hpre : pre ++ [u] with
        | nil => exact absurd hpre (by simp)
        | cons z r =>
            rw [List.cons_append, hpre] at h
            rw [hpre] at ih
            exact ahead_trans (ih (List.isChain_cons_cons.mp h).2 List.mem_cons_self)
              (List.isChain_cons_cons.mp h).1
      · exact ih h.tail hx

theorem exists_head_of_split {u v : β} {pre post q : List β} (h : v :: post = pre ++ u :: q) :
    ∃ r, pre ++ [u] = v :: r := by
  cases pre with
  | nil => exact ⟨[], by rw [(List.cons.inj h).1]; rfl⟩
  | cons z pre => exact ⟨pre ++ [u], by rw [(List.cons.inj h).1]; rfl⟩

/-- The walk passes no place where it could stop short. -/
theorem WalkEnd.stopsShort {blk : β → Nat} {back : Bool} {b : Nat} {u v u' v' : β} {x : β ⊕ β}
    {pre post pre' post' : List β} (hend : WalkEnd blk back b u v x)
    (hsplit : pre ++ u :: v :: post = pre' ++ u' :: v' :: post')
    (hpre : (pre ++ [u]).IsChain fun x y => ahead back (blk y) (blk x) = true)
    (hpre' : (pre' ++ [u']).IsChain fun x y => ahead back (blk y) (blk x) = true)
    (hv' : blk v' = blk u') (hb : ahead back b (blk u') = true) :
    blk v = blk u ∧ ahead back b (blk u) = true := by
  induction pre generalizing pre' with
  | nil =>
      cases pre' with
      | nil =>
          cases hsplit
          exact ⟨hv', hb⟩
      | cons y pre' =>
          -- `v` is on the way to `u'`, and so it comes later than `u` but not than `b`
          rcases List.cons.inj hsplit with ⟨huy, htail⟩
          rcases exists_head_of_split htail with ⟨r, hr⟩
          rw [List.cons_append, hr, ← huy] at hpre'
          have hvu := (List.isChain_cons_cons.mp hpre').1
          have hbv : ahead back b (blk v) = true :=
            ahead_of_chain (hr ▸ (List.isChain_cons_cons.mp hpre').2) hb
              (hr ▸ List.mem_cons_self)
          cases hend with
          | found h hvb =>
              have hirr := ahead_trans hvb hbv
              rw [ahead_irrefl] at hirr
              cases hirr
          | last h =>
              rw [h] at hvu
              cases hvu
  | cons y pre ih =>
      cases pre' with
      | nil =>
          -- `v'` is on the way to `u`, and so its block is another one
          rcases List.cons.inj hsplit with ⟨hyu, htail⟩
          rcases exists_head_of_split htail.symm with ⟨r, hr⟩
          rw [List.cons_append, hr] at hpre
          have hvu := (List.isChain_cons_cons.mp hpre).1
          rw [hv', hyu, ahead_irrefl] at hvu
          cases hvu
      | cons y' pre' =>
          exact ih (List.cons.inj hsplit).2 hpre.tail hpre'.tail

/-- What the new buf changes at the place where the walk ends. -/
theorem WalkEnd.drops {blk : β → Nat} {back : Bool} {bp u v : β} {x : β ⊕ β}
    (h : WalkEnd blk back (blk bp) u v x) (hu : ahead back (blk u) (blk bp) = false) :
    let y := if back then v else u
    let z := if back then u else v
    drop blk y bp + drop blk bp z =
      drop blk y z + if blk v = blk u ∧ ahead back (blk bp) (blk u) = true then 1 else 0 := by
  cases h with
  | found h hb =>
      cases back <;> simp only [ahead, drop, Bool.false_eq_true, if_false, if_true,
        decide_eq_true_eq, decide_eq_false_iff_not] at * <;> split_ifs <;> omega
  | last h =>
      cases back <;> simp only [ahead, drop, Bool.false_eq_true, if_false, if_true,
        decide_eq_true_eq, decide_eq_false_iff_not] at * <;> split_ifs <;> omega

/-- As long as the walk goes on, the best buf so far is the one it is at. -/
theorem bestOf_eq {blk : β → Nat} {back : Bool} {u best : β}
    (h : best = u ∨ ahead back (blk u) (blk best) = true) :
    (if ahead back (blk u) (blk best) then u else best) = u := by
  rcases h with rfl | h
  · exact ite_self _
  · exact if_pos h

variable [DecidableEq β]

/-- The walk from `u` on, with the bufs `r` still ahead of it. -/
theorem insertWalk_from {s : Qmerge β ρ} {back : Bool} {bp start u best : β} {r : List β}
    {n : Nat}
    (hchain : (u :: (r ++ [start])).IsChain fun x y =>
      (if back then s.av.prev x else s.av.next x) = some y)
    (hstart : start ∉ r) (hn : r.length < n)
    (hu : ahead back (s.dblk u) (s.dblk bp) = false)
    (hs : ahead back (s.dblk start) (s.dblk u) = false)
    (hbest : best = u ∨ ahead back (s.dblk u) (s.dblk best) = true) :
    ∃ x, insertWalk s back bp start n u best = some x ∧
      ∃ pre u' v' post, u :: (r ++ [start]) = pre ++ u' :: v' :: post ∧
        (pre ++ [u']).IsChain (fun x y => ahead back (s.dblk y) (s.dblk x) = true) ∧
        ahead back (s.dblk u') (s.dblk bp) = false ∧
        WalkEnd s.dblk back (s.dblk bp) u' v' x := by
  -- by induction on the bufs ahead: `best` is always the buf that the walk is at, and
  -- `start` never comes later than that
  induction r generalizing u best n with
  | nil =>
      rcases n with _ | n
      · cases hn
      have hlink := (List.isChain_cons_cons.mp hchain).1
      have hb := bestOf_eq hbest
      refine ⟨.inr u, ?_, [], u, start, [], rfl, List.isChain_singleton u, hu, .last hs⟩
      simp [insertWalk, hu, hlink, hb]
  | cons y r ih =>
      rcases n with _ | n
      · cases hn
      have hlink := (List.isChain_cons_cons.mp hchain).1
      have hb := bestOf_eq hbest
      have hne : y ≠ start := fun h => hstart (h ▸ List.mem_cons_self)
      rw [List.length_cons] at hn
      cases hyu : ahead back (s.dblk y) (s.dblk u) with
      | false =>
          refine ⟨.inr u, ?_, [], u, y, r ++ [start], rfl, List.isChain_singleton u, hu,
            .last hyu⟩
          simp [insertWalk, hu, hlink, hb, hyu]
      | true =>
          have hstep : insertWalk s back bp start (n + 1) u best =
              insertWalk s back bp start n y u := by
            simp [insertWalk, hu, hlink, hb, hyu, hne]
          rw [hstep]
          cases hyb : ahead back (s.dblk y) (s.dblk bp) with
          | true =>
              -- the next round stops at `y`
              rcases n with _ | n
              · omega
              refine ⟨.inl y, ?_, [], u, y, r ++ [start], rfl, List.isChain_singleton u, hu,
                .found hyu hyb⟩
              simp [insertWalk, hyb]
          | false =>
              have hsy : ahead back (s.dblk start) (s.dblk y) = false := by
                rw [← Bool.not_eq_true] at hs ⊢
                exact fun h => hs (ahead_trans h hyu)
              rcases ih (n := n) (List.isChain_cons_cons.mp hchain).2
                (fun h => hstart (List.mem_cons_of_mem y h)) (by omega) hyb hsy (Or.inr hyu)
                with ⟨x, hx, pre, u', v', post, hsplit, hpre, hend⟩
              refine ⟨x, hx, u :: pre, u', v', post, ?_, ?_, hend⟩
              · rw [List.cons_append, List.cons_append, hsplit]
              · cases pre with
                | nil =>
                    rw [← (List.cons.inj hsplit).1]
                    exact List.isChain_pair.mpr hyu
                | cons z pre =>
                    rw [← (List.cons.inj hsplit).1] at hpre ⊢
                    exact List.isChain_cons_cons.mpr ⟨hyu, hpre⟩

/-- The walk ends, and where. -/
theorem insertWalk_spec {s : Qmerge β ρ} {back : Bool} {bp start : β} {c : List β}
    (hring : IsRing s.av (start :: c)) (hnd : (start :: c).Nodup)
    (hcnt : (start :: c).length ≤ s.cnt)
    (hfirst : ahead back (s.dblk start) (s.dblk bp) = false) :
    ∃ x, insertWalk s back bp start (s.cnt + 1) start start = some x ∧
      ∃ pre u v post, walkOrder back (start :: c) ++ [start] = pre ++ u :: v :: post ∧
        (pre ++ [u]).IsChain (fun x y => ahead back (s.dblk y) (s.dblk x) = true) ∧
        ahead back (s.dblk u) (s.dblk bp) = false ∧
        WalkEnd s.dblk back (s.dblk bp) u v x := by
  rcases walkOrder_cons back start c with ⟨r, hr, hperm⟩
  have hchain := walkOrder_chain back hring
  rw [hr] at hchain ⊢
  have hlen : r.length < s.cnt + 1 := by
    rw [hperm.length_eq]
    rw [List.length_cons] at hcnt
    omega
  exact insertWalk_from hchain (fun h => (List.nodup_cons.mp hnd).1 (hperm.mem_iff.mp h)) hlen
    hfirst (ahead_irrefl back _) (Or.inl rfl)

/-! ## Insertion -/

/-- Two neighbours of a ring between which a buf comes, and what this does to the
    descents. -/
structure Place (blk : β → Nat) (c m : List β) (bp y z : β) : Prop where
  rotated : c.IsRotated m
  last : m.getLast? = some y
  first : m.head? = some z
  strands : Strands blk c bp → cyc blk (m ++ [bp]) = cyc blk c + 1
  keeps : ¬Strands blk c bp → cyc blk (m ++ [bp]) = cyc blk c

/-- The walk ends at one of two neighbours, and the place is between them. -/
theorem insertWalk_place {s : Qmerge β ρ} {bp start : β} {c : List β}
    (hring : IsRing s.av (start :: c)) (hnd : (start :: c).Nodup)
    (hcnt : (start :: c).length ≤ s.cnt) {back : Bool}
    (hback : decide (s.dblk bp < s.dblk start) = back) :
    ∃ m y z x, insertWalk s back bp start (s.cnt + 1) start start = some x ∧
      Place s.dblk (start :: c) m bp y z ∧
      (x = .inl (if back then y else z) ∨ x = .inr (if back then z else y)) := by
  have hfirst : ahead back (s.dblk start) (s.dblk bp) = false := by
    cases back with
    | false => simpa [ahead] using hback
    | true =>
        have hlt := of_decide_eq_true hback
        simp only [ahead, if_true, decide_eq_false_iff_not]
        omega
  rcases insertWalk_spec hring hnd hcnt hfirst with
    ⟨x, hwalk, pre, u, v, post, hsplit, hpre, hu, hend⟩
  rcases walkOrder_between hsplit with ⟨m, hrot, hlast, hhead⟩
  have hconcat := cyc_concat (f := s.dblk) hlast hhead bp
  rw [← cyc_of_isRotated hrot, hend.drops hu] at hconcat
  have hshort : Strands s.dblk (start :: c) bp ↔
      s.dblk v = s.dblk u ∧ ahead back (s.dblk bp) (s.dblk u) = true := by
    rcases walkOrder_cons back start c with ⟨r, hr, -⟩
    constructor
    · rintro ⟨h, hh, pre', u', v', post', hsplit', hpre', hv', hb'⟩
      cases hh
      rw [hback] at hsplit' hpre' hb'
      rw [hr, List.head?_cons, Option.toList_some, ← hr, hsplit] at hsplit'
      exact hend.stopsShort hsplit' hpre hpre' hv' hb'
    · rintro ⟨hv, hb⟩
      refine ⟨start, rfl, ?_⟩
      rw [hback]
      refine ⟨pre, u, v, post, ?_, hpre, hv, hb⟩
      rw [hr, List.head?_cons, Option.toList_some, ← hr, hsplit]
  refine ⟨m, _, _, x, hwalk, ⟨hrot, hlast, hhead, fun h => ?_, fun h => ?_⟩, ?_⟩
  · rw [if_pos (hshort.mp h)] at hconcat
    omega
  · rw [if_neg fun h' => h (hshort.mpr h')] at hconcat
    omega
  · cases hend with
    | found => exact Or.inl (by cases back <;> rfl)
    | last => exact Or.inr (by cases back <;> rfl)

theorem linkBehind_eq {s : Qmerge β ρ} {x y : β} (h : s.av.Linked x y) (bp : β) :
    linkBehind s x bp = some (s.link x bp y) := by
  simp [linkBehind, h.1]

theorem linkBefore_eq {s : Qmerge β ρ} {x y : β} (h : s.av.Linked x y) (bp : β) :
    linkBefore s bp y = some (s.link x bp y) := by
  simp [linkBefore, h.2]

/-- Both parts of `que_insert` put the buf between two neighbours of its ring. -/
theorem insert_place {s : Qmerge β ρ} (p : Pri) (bp : β) {start : β} {c : List β}
    (hring : IsRing s.av (start :: c)) (hnd : (start :: c).Nodup)
    (hcnt : (start :: c).length ≤ s.cnt) :
    ∃ m y z hit, Place s.dblk (start :: c) m bp y z ∧
      (if s.dblk bp < s.dblk start then insertDown s p bp start else insertUp s p bp start) =
        some (headIf (s.link y bp z) p bp hit) := by
  by_cases hlt : s.dblk bp < s.dblk start
  · rw [if_pos hlt]
    rcases insertWalk_place hring hnd hcnt (decide_eq_true hlt) with
      ⟨m, y, z, x, hwalk, hplace, hx⟩
    have hlink := (hring.of_isRotated hplace.rotated).closed hplace.last hplace.first
    unfold insertDown
    rcases hx with rfl | rfl
    · exact ⟨m, y, z, _, hplace, by simp only [hwalk, if_true, linkBehind_eq hlink]; rfl⟩
    · exact ⟨m, y, z, _, hplace, by simp only [hwalk, if_true, linkBefore_eq hlink]; rfl⟩
  · rw [if_neg hlt]
    rcases insertWalk_place hring hnd hcnt (decide_eq_false hlt) with
      ⟨m, y, z, x, hwalk, hplace, hx⟩
    have hlink := (hring.of_isRotated hplace.rotated).closed hplace.last hplace.first
    unfold insertUp
    rcases hx with rfl | rfl
    · exact ⟨m, y, z, _, hplace, by
        simp only [hwalk, Bool.false_eq_true, if_false, linkBefore_eq hlink]; rfl⟩
    · exact ⟨m, y, z, _, hplace, by
        simp only [hwalk, Bool.false_eq_true, if_false, linkBehind_eq hlink]; rfl⟩

omit [DecidableEq β] in
@[simp] theorem headIf_av (s : Qmerge β ρ) (p : Pri) (bp : β) (hit : Bool) :
    (headIf s p bp hit).av = s.av := by
  cases hit <;> rfl

/-- The buf between the two neighbours, and the ring read from its head, old or new. -/
theorem RingsOk.link {s : Qmerge β ρ} (h : RingsOk s.av s.hd l) {p : Pri} {m : List β}
    {bp y z : β} (hb : bp ∉ held l) (hrot : (l p).IsRotated m) (hlast : m.getLast? = some y)
    (hfirst : m.head? = some z) (hit : Bool) :
    ∃ c, (m ++ [bp]).IsRotated c ∧
      RingsOk (headIf (s.link y bp z) p bp hit).av (headIf (s.link y bp z) p bp hit).hd
        (Function.update l p c) := by
  have hnd : m.Nodup := hrot.nodup_iff.mp (h.nodup p)
  have hbp (q : Pri) : bp ∉ l q := fun hm => hb (mem_held.mpr ⟨q, hm⟩)
  have hbm : bp ∉ m := fun hm => hbp p (hrot.mem_iff.mpr hm)
  have hring : IsRing ((s.av.set y bp).set bp z) (m ++ [bp]) := by
    rcases List.head?_eq_some_iff.mp hfirst with ⟨m', rfl⟩
    exact ((h.ring p).of_isRotated hrot).insert_last hnd hbm hlast
  have hnd' : (m ++ [bp]).Nodup :=
    List.nodup_append.mpr ⟨hnd, List.nodup_singleton bp, fun x hx e he => by
      rw [List.mem_singleton.mp he]
      exact ne_of_mem_of_not_mem hx hbm⟩
  have hother : ∀ q, q ≠ p → IsRing ((s.av.set y bp).set bp z) (l q) := by
    intro q hq
    have hout (x : β) (hx : x ∈ m) : x ∉ l q := fun hm =>
      hq (h.apart q p x hm (hrot.mem_iff.mpr hx))
    exact ((h.ring q).set_of_notMem (hout y (List.mem_of_getLast? hlast)) (hbp q)).set_of_notMem
      (hbp q) (hout z (List.mem_of_head? hfirst))
  -- the head is a buf of the new ring in both cases
  have hhead : ∃ e ∈ m ++ [bp], (headIf (s.link y bp z) p bp hit).hd =
      Function.update s.hd p (some e) := by
    cases hit with
    | true => exact ⟨bp, List.mem_append_right m (List.mem_singleton_self bp), rfl⟩
    | false =>
        have hz : z ∈ l p := hrot.mem_iff.mpr (List.mem_of_head? hfirst)
        have hl := List.head?_eq_some_head (List.ne_nil_of_mem hz)
        refine ⟨_, List.mem_append_left _ (hrot.mem_iff.mp (List.mem_of_head? hl)), ?_⟩
        rw [← hl, h.head p, Function.update_eq_self]
        rfl
  rcases hhead with ⟨e, he, hhd⟩
  rcases exists_isRotated_cons he with ⟨c, hc⟩
  refine ⟨e :: c, hc, ?_⟩
  rw [hhd, headIf_av]
  refine h.update (hring.of_isRotated hc) (hc.nodup_iff.mp hnd') (fun x hx => ?_) hother
  rcases List.mem_append.mp (hc.mem_iff.mpr hx) with hx | hx
  · exact Or.inl (hrot.mem_iff.mpr hx)
  · rw [List.mem_singleton.mp hx]
    exact Or.inr hb

/-- The first buf of its ring. -/
theorem RingsOk.insertFirst {s : Qmerge β ρ} (h : RingsOk s.av s.hd l) {p : Pri} {bp : β}
    (hb : bp ∉ held l) :
    RingsOk (insertFirst s p bp).av (insertFirst s p bp).hd (Function.update l p [bp]) := by
  have hbp (q : Pri) : bp ∉ l q := fun hm => hb (mem_held.mpr ⟨q, hm⟩)
  have hav : (Disk.insertFirst s p bp).av = s.av.set bp bp := by
    cases p with
    | sync => rfl
    | async =>
        unfold Disk.insertFirst
        dsimp only
        split <;> rfl
  have hhd : (Disk.insertFirst s p bp).hd = Function.update s.hd p (some bp) := by
    cases p with
    | sync => rfl
    | async =>
        unfold Disk.insertFirst
        dsimp only
        split <;> rfl
  rw [hav, hhd]
  refine h.update (c := [bp]) ?_ (List.nodup_singleton bp) (fun x hx => ?_) fun q _ => ?_
  · exact (isSeg_singleton bp).close (List.nodup_singleton bp) rfl rfl
  · rw [List.mem_singleton.mp hx]
    exact Or.inr hb
  · exact (h.ring q).set_of_notMem (hbp q) (hbp q)

/-- The flags once an empty ring has its first buf. -/
theorem FlagsOk.insertFirst {s : Qmerge β ρ} {p : Pri} (bp : β) (h : FlagsOk s.flags s.hd)
    (hp : s.hd p = none) : FlagsOk (insertFirst s p bp).flags (insertFirst s p bp).hd := by
  have hsync : Function.update s.hd .sync (some bp) .async = s.hd .async :=
    Function.update_of_ne (by decide) ..
  have hasync : Function.update s.hd .async (some bp) .sync = s.hd .sync :=
    Function.update_of_ne (by decide) ..
  cases p with
  | sync =>
      have ho : s.flags.asyncAlso ≠ true := fun h' => (h.also h').1 hp
      constructor <;> simp only [Disk.insertFirst, Qmerge.setHd, hsync, Function.update_self] <;>
        split <;> simp_all
  | async =>
      have ho : s.flags.asyncAlso ≠ true := fun h' => (h.also h').2 hp
      have ho' : s.flags.asyncOnly ≠ true := fun h' => (h.only h').2 hp
      constructor <;> simp only [Disk.insertFirst, Qmerge.setHd, hasync] <;>
        split <;> simp_all

/-! ## What a call changes -/

/-- Nothing but `b_error` of any buf is written, and no page. -/
structure SameBufs (s s' : Qmerge β ρ) : Prop where
  buf : ∀ x, ∃ e, s'.buf x = { s.buf x with error := e }
  page : s'.page = s.page
  exits : s'.exits = s.exits

omit [DecidableEq β] in
theorem SameBufs.of_eq {s s' : Qmerge β ρ} (hbuf : s'.buf = s.buf) (hpage : s'.page = s.page)
    (hexits : s'.exits = s.exits) : SameBufs s s' where
  buf x := ⟨(s.buf x).error, by rw [hbuf]⟩
  page := hpage
  exits := hexits

omit [DecidableEq β] in
theorem SameBufs.trans {s s' s'' : Qmerge β ρ} (h : SameBufs s s') (h' : SameBufs s' s'') :
    SameBufs s s'' where
  buf x := by
    rcases h.buf x with ⟨e, he⟩
    rcases h'.buf x with ⟨e', he'⟩
    exact ⟨e', by rw [he', he]⟩
  page := h'.page.trans h.page
  exits := h'.exits.trans h.exits

omit [DecidableEq β] in
theorem SameBufs.dblk {s s' : Qmerge β ρ} (h : SameBufs s s') : s'.dblk = s.dblk := by
  funext x
  rcases h.buf x with ⟨e, he⟩
  rw [Qmerge.dblk, Qmerge.dblk, he]

theorem saveBack_same (c : Casts β) (s : Qmerge β ρ) (bp : β) : SameBufs s (saveBack c s bp) := by
  unfold saveBack
  split
  · exact .of_eq rfl rfl rfl
  · refine ⟨fun x => ?_, rfl, rfl⟩
    by_cases hx : x = bp
    · subst hx
      exact ⟨_, Function.update_self ..⟩
    · exact ⟨(s.buf x).error, Function.update_of_ne hx ..⟩

/-- What `que_insert` uses of the queue stays when `av_back` is kept. -/
theorem saveBack_eq (c : Casts β) (s : Qmerge β ρ) (bp : β) :
    ∃ b, saveBack c s bp = { s with buf := b } := by
  unfold saveBack
  split
  · exact ⟨s.buf, rfl⟩
  · exact ⟨_, rfl⟩

omit [DecidableEq β] in
theorem priOf_same {s s' : Qmerge β ρ} (t : Tunables) (h : SameBufs s s') (bp : β) :
    priOf t (s'.buf bp) = priOf t (s.buf bp) := by
  rcases h.buf bp with ⟨e, he⟩
  rw [he]
  rfl

theorem insertFirst_same (s : Qmerge β ρ) (p : Pri) (bp : β) :
    SameBufs s (insertFirst s p bp) := by
  cases p with
  | sync => exact .of_eq rfl rfl rfl
  | async =>
      unfold insertFirst
      dsimp only
      split <;> exact .of_eq rfl rfl rfl

theorem insertFirst_cnt (s : Qmerge β ρ) (p : Pri) (bp : β) : (insertFirst s p bp).cnt = s.cnt := by
  cases p with
  | sync => rfl
  | async =>
      unfold insertFirst
      dsimp only
      split <;> rfl

theorem headIf_same (s : Qmerge β ρ) (p : Pri) (x bp y : β) (hit : Bool) :
    SameBufs s (headIf (s.link x bp y) p bp hit) := by
  cases hit <;> exact .of_eq rfl rfl rfl

theorem headIf_cnt (s : Qmerge β ρ) (p : Pri) (x bp y : β) (hit : Bool) :
    (headIf (s.link x bp y) p bp hit).cnt = s.cnt := by
  cases hit <;> rfl

theorem headIf_flags (s : Qmerge β ρ) (p : Pri) (x bp y : β) (hit : Bool) :
    (headIf (s.link x bp y) p bp hit).flags = s.flags := by
  cases hit <;> rfl

/-- The ring has a head as before. -/
theorem headIf_none {s : Qmerge β ρ} {p : Pri} {x bp y bp1 : β} {hit : Bool}
    (h : s.hd p = some bp1) (q : Pri) :
    (headIf (s.link x bp y) p bp hit).hd q = none ↔ s.hd q = none := by
  cases hit with
  | false => exact Iff.rfl
  | true =>
      by_cases hq : q = p
      · subst hq
        simp [headIf, Qmerge.setHd, h]
      · simp [headIf, Qmerge.setHd, Qmerge.link, hq]

/-- `que_insert` puts the buf in its ring, and leaves the descents as many as they were
    unless its walk stops short. -/
theorem queInsert_spec (t : Tunables) (k : Casts β) {s : Qmerge β ρ} {bp : β}
    (h : RingsOk s.av s.hd l) (hf : FlagsOk s.flags s.hd) (hcnt : ∀ p, (l p).length ≤ s.cnt)
    (hb : bp ∉ held l) :
    ∃ s' c, queInsert t k s bp = some s' ∧
      RingsOk s'.av s'.hd (Function.update l (priOf t (s.buf bp)) c) ∧
      FlagsOk s'.flags s'.hd ∧ c.Perm (bp :: l (priOf t (s.buf bp))) ∧
      (Strands s.dblk (l (priOf t (s.buf bp))) bp →
        cyc s.dblk c = cyc s.dblk (l (priOf t (s.buf bp))) + 1) ∧
      (¬Strands s.dblk (l (priOf t (s.buf bp))) bp →
        cyc s.dblk c = cyc s.dblk (l (priOf t (s.buf bp)))) ∧
      SameBufs s s' ∧ s'.cnt = s.cnt := by
  have hsame := saveBack_same k s bp
  rw [← priOf_same t hsame bp, ← hsame.dblk]
  unfold queInsert
  rcases saveBack_eq k s bp with ⟨b, hs⟩
  generalize saveBack k s bp = s1 at hsame hs
  have h1 : RingsOk s1.av s1.hd l := by rw [hs]; exact h
  have hf1 : FlagsOk s1.flags s1.hd := by rw [hs]; exact hf
  have hcnt1 : s1.cnt = s.cnt := by rw [hs]
  generalize hp : priOf t (s1.buf bp) = p
  dsimp only
  rw [hp]
  cases hhd : s1.hd p with
  | none =>
      -- an empty ring: the buf becomes its head, and there is no walk
      have hnil := (h1.nil_iff p).mp hhd
      refine ⟨insertFirst s1 p bp, [bp], rfl, h1.insertFirst hb, hf1.insertFirst bp hhd, ?_,
        fun hst => ?_, fun _ => ?_, hsame.trans (insertFirst_same s1 p bp), ?_⟩
      · rw [hnil]
      · rw [hnil] at hst
        rcases hst with ⟨x, hx, -⟩
        cases hx
      · rw [hnil]
        simp [cyc, descents, drop]
      · rw [insertFirst_cnt, hcnt1]
  | some bp1 =>
      -- the walk ends at two neighbours, and the buf comes between them
      have hl := h1.head p
      rw [hhd, List.head?_eq_some_iff] at hl
      rcases hl with ⟨c, hl⟩
      have hlen := hcnt p
      have hring := h1.ring p
      have hnd := h1.nodup p
      rw [hl, ← hcnt1] at hlen
      rw [hl] at hring hnd
      rcases insert_place p bp hring hnd hlen with ⟨m, y, z, hit, hplace, heq⟩
      have hrot := hplace.rotated
      rw [← hl] at hrot hplace
      rcases h1.link hb hrot hplace.last hplace.first hit with ⟨c', hc', hok⟩
      refine ⟨_, c', heq, hok, ?_, ?_, fun hst => ?_, fun hst => ?_,
        hsame.trans (headIf_same ..), ?_⟩
      · rw [headIf_flags]
        exact hf1.congr (headIf_none hhd)
      · exact (hc'.perm.symm.trans (List.perm_append_singleton bp m)).trans
          (hrot.perm.symm.cons bp)
      · rw [← cyc_of_isRotated hc', hplace.strands hst]
      · rw [← cyc_of_isRotated hc', hplace.keeps hst]
      · rw [headIf_cnt, ← hcnt1]

end Disk

end Sil3112
