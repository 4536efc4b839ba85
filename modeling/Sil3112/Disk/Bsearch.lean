import Sil3112.Disk.BbhBounds
import Sil3112.Lib.Loop

/-!
# The Search as a Lower Bound

What `cmdk_bbh_bsearch` is for, on any sorted table: the first entry that does not end
below the key. It works for every number of entries that is less than `2 ^ 30`. From there
on, which a number of type `int` may be, the first loop shifts its `int` into the sign, and
where that wraps the loop does not end.

## Main definitions

* `LowerBound`: The search ends, stays in the table, and finds the entry.
* `topBody`: The first loop on 32 bits.

## Theorems

* `topBody_run`: From `2 ^ 30` entries on the first loop does not end.
* `bsearchTopC_none`: It leaves the `int` range.
* `bsearch_lowerBound_iff`: When the search is a lower bound.
-/

namespace Sil3112

namespace Disk

/-- The largest `int`. -/
def intMax : Nat := 2147483647

/-- The search ends, with every entry it looks at in the table and no `int` too large, and
    what it finds is the first entry that does not end below the key. -/
def LowerBound (t : Alts) (key : Int) : Prop :=
  ∃ fuel r, bsearchC t.cnt intMax fuel t.ent t.cnt key = some r ∧ IsFirst t key r

/-- A round of the first loop, for a shift that wraps. -/
def topBody (cnt : BitVec 32) (s : BitVec 32 × BitVec 32) : BitVec 32 × BitVec 32 ⊕ BitVec 32 :=
  if s.1.sle cnt then .inl (s.1 <<< 1, s.1) else .inr s.2

theorem topBody_next {cnt i : BitVec 32} (ind : BitVec 32) (h : i.sle cnt = true) :
    topBody cnt (i, ind) = .inl (i <<< 1, i) :=
  if_pos h

/-- A one that is shifted stays below, also when it is in the sign or gone. -/
theorem shifted_le (m : Nat) : (1#32 <<< m).toInt ≤ 1073741824 := by
  by_cases hm : m < 32
  · have hall : ∀ m < 32, (1#32 <<< m).toInt ≤ 1073741824 := by decide
    exact hall m hm
  · rw [BitVec.shiftLeft_eq_zero (by omega)]
    decide

/-- From `2 ^ 30` entries on the first loop does not end. -/
theorem topBody_run {cnt : BitVec 32} (hcnt : 1073741824 ≤ cnt.toInt) (n m : Nat)
    (ind : BitVec 32) : Loop.run (topBody cnt) n (1#32 <<< m, ind) = none := by
  induction n generalizing m ind with
  | zero => rfl
  | succ n ih =>
      have hle : (1#32 <<< m).sle cnt = true := by
        rw [BitVec.sle_iff_toInt_le]
        exact Int.le_trans (shifted_le m) hcnt
      have hnext := topBody_next ind hle
      rw [← BitVec.shiftLeft_add] at hnext
      rw [Loop.run_next hnext]
      exact ih (m + 1) _

/-- The first loop leaves the range of an `int`. -/
theorem bsearchTopC_none {cnt : Nat} (hcnt : 2 ^ 30 ≤ cnt) (fuel m ind : Nat) (hm : m ≤ 30) :
    bsearchTopC intMax cnt fuel (2 ^ m) ind = none := by
  induction fuel generalizing m ind with
  | zero => rfl
  | succ fuel ih =>
      have hle : 2 ^ m ≤ cnt := Nat.le_trans (Nat.pow_le_pow_right (by omega) hm) hcnt
      have hshift : 2 ^ m <<< 1 = 2 ^ (m + 1) := by
        rw [Nat.shiftLeft_eq, pow_one, ← pow_succ]
      rw [bsearchTopC, if_pos hle, hshift]
      by_cases hlast : m = 30
      · subst hlast
        rfl
      · have hfit : 2 ^ (m + 1) ≤ intMax :=
          Nat.le_trans (Nat.pow_le_pow_right (by omega) (by omega : m + 1 ≤ 30)) (by decide)
        rw [fit_of_le hfit]
        exact ih (m + 1) _ (by omega)

theorem not_lowerBound {t : Alts} (hcnt : 2 ^ 30 ≤ t.cnt) (key : Int) : ¬ LowerBound t key := by
  rintro ⟨fuel, r, hr, -⟩
  have htop : bsearchTopC intMax t.cnt fuel 1 1 = none :=
    bsearchTopC_none hcnt fuel 0 1 (Nat.zero_le 30)
  unfold bsearchC at hr
  rw [if_neg (by omega), htop] at hr
  cases hr

/-- The search on a sorted table finds the first entry that does not end below the key, for
    every number of entries and every key, exactly if there are less than `2 ^ 30`. -/
theorem bsearch_lowerBound_iff (t : Alts) (ht : t.Sorted) (key : Int) :
    LowerBound t key ↔ t.cnt < 2 ^ 30 := by
  constructor
  · intro h
    by_contra hcnt
    exact not_lowerBound (Nat.le_of_not_lt hcnt) key h
  · intro hcnt
    refine ⟨t.cnt + 1, _, bsearchC_eq t.ent key (Nat.le_refl _) ?_ (Nat.lt_succ_self _),
      bsearch_isFirst ht key⟩
    unfold intMax
    omega

/-- Two clusters and a key between them. -/
theorem bsearch_lowerBound_iff_between : LowerBound (twoClusters.alts 0) 13 :=
  (bsearch_lowerBound_iff (twoClusters.alts 0) twoClusters_ok.isSorted 13).mpr (by decide)

/-- A table with `2 ^ 30` clusters of a sector each. -/
def manyClusters : Alts := ⟨1073741824, fun i => ⟨i, i, 0⟩⟩

theorem not_lowerBound_many : manyClusters.Sorted ∧ ¬ LowerBound manyClusters 0 := by
  refine ⟨⟨fun i _ => Int.le_refl _, fun i j hij _ => Int.ofNat_lt.mpr hij⟩, ?_⟩
  exact not_lowerBound (by decide) 0

end Disk

end Sil3112
