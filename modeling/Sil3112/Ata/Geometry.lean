import Sil3112.Lib.Loop
import Sil3112.Ata.Capacity

/-!
# The Geometry of a Large Disk

`ata_fix_large_disk_geometry`. The number of cylinders of a large disk does not
fit the 16 bits that the label code has for it. So the driver halves the
cylinders and doubles the heads until it does, or until the heads do not fit
either, and then cuts the cylinders off.

Halving drops what is left over, so the disk never grows. The loop ends for any
number of heads, as every round halves the cylinders, even if the `int` for the
doubled heads is negative.

## Main definitions

* `DrvGeom`: `ad_drvrcyl`, `ad_drvrhd` and `ad_drvrsec`.
* `fixLargeDiskGeometry`: `ata_fix_large_disk_geometry`
* `GeomFixed`: What the fix is to bring about.

## Theorems

* `fixBody_cases`: What one round does.
* `fix_large_disk_geometry`: The fix, for every drive.
* `GeomFixed.largest`: The fix loses as little as can be.
-/

namespace Sil3112

namespace Ata

open Ghd Disk

/-! ## The source -/

/-- The geometry that the driver uses: `ad_drvrcyl`, `ad_drvrhd` and
    `ad_drvrsec`. -/
structure DrvGeom where
  drvrcyl : BitVec 32
  drvrhd : BitVec 32
  drvrsec : BitVec 32
  deriving DecidableEq

/-- `USHRT_MAX` -/
def ushrtMax : Nat := 65535

/-- The loop of `ata_fix_large_disk_geometry`. The heads are doubled in an `int`
    first. -/
def fixBody (g : DrvGeom) : DrvGeom ⊕ DrvGeom :=
  if g.drvrcyl.toNat > ushrtMax then
    let tempheads := (2 * g.drvrhd).toInt
    if tempheads > ushrtMax then .inr { g with drvrcyl := BitVec.ofNat 32 ushrtMax }
    else .inl { g with drvrcyl := g.drvrcyl / 2, drvrhd := g.drvrhd * 2 }
  else .inr g

/-- Every round halves the cylinders. -/
theorem fixBody_lt (g g' : DrvGeom) (h : fixBody g = .inl g') :
    g'.drvrcyl.toNat < g.drvrcyl.toNat := by
  unfold fixBody at h
  by_cases hcyl : g.drvrcyl.toNat > ushrtMax
  · rw [if_pos hcyl] at h
    dsimp only at h
    by_cases hheads : (2 * g.drvrhd).toInt > ushrtMax
    · rw [if_pos hheads] at h
      cases h
    · rw [if_neg hheads] at h
      cases h
      rw [BitVec.toNat_udiv]
      exact Nat.div_lt_self (by omega) (by decide)
  · rw [if_neg hcyl] at h
    cases h

/-- `ata_fix_large_disk_geometry` -/
def fixLargeDiskGeometry (driveBits : BitVec 8) (g : DrvGeom) : DrvGeom :=
  if driveBits &&& atdhLba = 0 then g
  else Loop.exec fixBody (fun g => g.drvrcyl.toNat) fixBody_lt g

/-! ## The fix -/

/-- What the fix does to a geometry: it halves the cylinders and doubles the
    heads as often as the cylinders need it, or as the heads allow it. -/
structure GeomFixed (g g' : DrvGeom) : Prop where
  cyl_le : g'.drvrcyl.toNat ≤ 65535
  hd_le : g'.drvrhd.toNat ≤ 65535
  sec_eq : g'.drvrsec = g.drvrsec
  le : g'.drvrcyl.toNat * g'.drvrhd.toNat ≤ g.drvrcyl.toNat * g.drvrhd.toNat
  shift : ∃ k, g'.drvrhd.toNat = g.drvrhd.toNat * 2 ^ k ∧
    (∀ j, j < k → 65535 < g.drvrcyl.toNat / 2 ^ j) ∧
    (g'.drvrcyl.toNat = g.drvrcyl.toNat / 2 ^ k ∨
      65535 < g.drvrcyl.toNat / 2 ^ k ∧ g'.drvrcyl.toNat = 65535 ∧
        65535 < g.drvrhd.toNat * 2 ^ (k + 1))

/-- 16 bits doubled are not negative in an `int`. -/
theorem doubled {h : BitVec 32} (hle : h.toNat ≤ 65535) :
    (h * 2).toNat = h.toNat * 2 ∧ (h * 2).toInt = (h.toNat * 2 : Nat) := by
  have hnat : (h * 2).toNat = h.toNat * 2 := by
    rw [BitVec.toNat_mul, show (2 : BitVec 32).toNat = 2 from rfl]
    omega
  refine ⟨hnat, ?_⟩
  rw [BitVec.toInt_eq_toNat_of_lt (by omega), hnat]

/-- What one round does: nothing is to be done, there is no room for the heads,
    or the cylinders are halved. -/
theorem fixBody_cases {g : DrvGeom} (hhd : g.drvrhd.toNat ≤ 65535) :
    (g.drvrcyl.toNat ≤ 65535 ∧ fixBody g = .inr g) ∨
    (65535 < g.drvrcyl.toNat ∧ 65535 < g.drvrhd.toNat * 2 ∧
      fixBody g = .inr { g with drvrcyl := BitVec.ofNat 32 ushrtMax }) ∨
    (65535 < g.drvrcyl.toNat ∧ g.drvrhd.toNat * 2 ≤ 65535 ∧
      fixBody g = .inl { g with drvrcyl := g.drvrcyl / 2, drvrhd := g.drvrhd * 2 }) := by
  unfold fixBody ushrtMax
  rw [BitVec.mul_comm 2, (doubled hhd).2]
  by_cases hcyl : g.drvrcyl.toNat > 65535
  · rw [if_pos hcyl]
    dsimp only
    by_cases hheads : ((g.drvrhd.toNat * 2 : Nat) : Int) > (65535 : Nat)
    · rw [if_pos hheads]
      exact Or.inr (Or.inl ⟨hcyl, by omega, rfl⟩)
    · rw [if_neg hheads]
      exact Or.inr (Or.inr ⟨hcyl, by omega, rfl⟩)
  · rw [if_neg hcyl]
    exact Or.inl ⟨by omega, rfl⟩

/-- The geometry after so many rounds. -/
structure Halved (g : DrvGeom) (k : Nat) (t : DrvGeom) : Prop where
  hd_le : t.drvrhd.toNat ≤ 65535
  hd : t.drvrhd.toNat = g.drvrhd.toNat * 2 ^ k
  cyl : t.drvrcyl.toNat = g.drvrcyl.toNat / 2 ^ k
  sec : t.drvrsec = g.drvrsec
  all : ∀ j, j < k → 65535 < g.drvrcyl.toNat / 2 ^ j

theorem Halved.refl {g : DrvGeom} (h : g.drvrhd.toNat ≤ 65535) : Halved g 0 g where
  hd_le := h
  hd := by rw [Nat.pow_zero, Nat.mul_one]
  cyl := by rw [Nat.pow_zero, Nat.div_one]
  sec := rfl
  all := fun j hj => absurd hj (Nat.not_lt_zero j)

/-- One round more. -/
theorem Halved.next {g t : DrvGeom} {k : Nat} (h : Halved g k t)
    (hcyl : 65535 < t.drvrcyl.toNat) (hhd : t.drvrhd.toNat * 2 ≤ 65535) :
    Halved g (k + 1) { t with drvrcyl := t.drvrcyl / 2, drvrhd := t.drvrhd * 2 } := by
  have hdbl := (doubled h.hd_le).1
  refine ⟨by rw [hdbl]; exact hhd, ?_, ?_, h.sec, fun j hj => ?_⟩
  · rw [hdbl, h.hd, Nat.pow_succ, Nat.mul_assoc]
  · rw [BitVec.toNat_udiv, h.cyl, Nat.pow_succ, ← Nat.div_div_eq_div_mul]
    rfl
  · by_cases hjk : j = k
    · rw [hjk, ← h.cyl]
      exact hcyl
    · exact h.all j (by omega)

/-- What was halved and doubled equally often has not grown. -/
theorem div_mul_le (c m h : Nat) : c / m * (h * m) ≤ c * h := by
  calc c / m * (h * m) = c / m * m * h := by ring
    _ ≤ c * h := Nat.mul_le_mul_right h (Nat.div_mul_le_self c m)

theorem Halved.fixed {g t : DrvGeom} {k : Nat} (h : Halved g k t)
    (hcyl : t.drvrcyl.toNat ≤ 65535) : GeomFixed g t where
  cyl_le := hcyl
  hd_le := h.hd_le
  sec_eq := h.sec
  le := by
    rw [h.cyl, h.hd]
    exact div_mul_le _ _ _
  shift := ⟨k, h.hd, h.all, Or.inl h.cyl⟩

theorem Halved.cut {g t : DrvGeom} {k : Nat} (h : Halved g k t)
    (hcyl : 65535 < t.drvrcyl.toNat) (hhd : 65535 < t.drvrhd.toNat * 2) :
    GeomFixed g { t with drvrcyl := BitVec.ofNat 32 ushrtMax } where
  cyl_le := le_refl _
  hd_le := h.hd_le
  sec_eq := h.sec
  le := by
    calc 65535 * t.drvrhd.toNat ≤ t.drvrcyl.toNat * t.drvrhd.toNat :=
          Nat.mul_le_mul_right _ (by omega)
      _ ≤ g.drvrcyl.toNat * g.drvrhd.toNat := by
          rw [h.cyl, h.hd]
          exact div_mul_le _ _ _
  shift := by
    refine ⟨k, h.hd, h.all, Or.inr ⟨?_, rfl, ?_⟩⟩
    · rw [← h.cyl]
      exact hcyl
    · rw [Nat.pow_succ, ← Nat.mul_assoc, ← h.hd]
      exact hhd

/-- The loop fixes the geometry. -/
theorem fixBody_fixed {g g' : DrvGeom} (hhd : g.drvrhd.toNat ≤ 65535)
    (h : Loop.Ends fixBody g g') : GeomFixed g g' := by
  refine Loop.Ends.invariant (I := fun t => ∃ k, Halved g k t) (fun t t' ht hb => ?_)
    (fun t r ht hb => ?_) ⟨0, Halved.refl hhd⟩ h
  · rcases ht with ⟨k, hk⟩
    rcases fixBody_cases hk.hd_le with ⟨-, heq⟩ | ⟨-, -, heq⟩ | ⟨hcyl, hdbl, heq⟩
    · rw [heq] at hb
      cases hb
    · rw [heq] at hb
      cases hb
    · rw [heq] at hb
      cases hb
      exact ⟨k + 1, hk.next hcyl hdbl⟩
  · rcases ht with ⟨k, hk⟩
    rcases fixBody_cases hk.hd_le with ⟨hcyl, heq⟩ | ⟨hcyl, hdbl, heq⟩ | ⟨-, -, heq⟩
    · rw [heq] at hb
      cases hb
      exact hk.fixed hcyl
    · rw [heq] at hb
      cases hb
      exact hk.cut hcyl hdbl
    · rw [heq] at hb
      cases hb

/-- The fix comes to an end, and leaves a drive without LBA alone. The geometry of
    any other drive then fits 16 bits and is no larger than it was: the cylinders
    have been halved and the heads doubled as often as the cylinders need it, or as
    the heads allow it, and then the cylinders are cut off. -/
theorem fix_large_disk_geometry (driveBits : BitVec 8) (g : DrvGeom)
    (hhd : g.drvrhd.toNat ≤ 65535) :
    (driveBits &&& atdhLba = 0 → fixLargeDiskGeometry driveBits g = g) ∧
    (driveBits &&& atdhLba ≠ 0 →
      Loop.Ends fixBody g (fixLargeDiskGeometry driveBits g) ∧
        GeomFixed g (fixLargeDiskGeometry driveBits g)) := by
  refine ⟨fun hlba => if_pos hlba, fun hlba => ?_⟩
  have heq : fixLargeDiskGeometry driveBits g =
      Loop.exec fixBody (fun g => g.drvrcyl.toNat) fixBody_lt g := if_neg hlba
  have hends := Loop.exec_ends fixBody_lt g
  rw [heq]
  exact ⟨hends, fixBody_fixed hhd hends⟩

/-- 2^32 sectors with 16 heads and 63 sectors in a track. -/
def twoTerabytes : DrvGeom := ⟨4260880, 16, 63⟩

theorem fix_large_disk_geometry_twoTerabytes :
    Loop.Ends fixBody twoTerabytes (fixLargeDiskGeometry 0xe0 twoTerabytes) ∧
      GeomFixed twoTerabytes (fixLargeDiskGeometry 0xe0 twoTerabytes) :=
  (fix_large_disk_geometry 0xe0 twoTerabytes (by decide)).2 (by decide)

example : fixLargeDiskGeometry 0xe0 twoTerabytes = ⟨33288, 2048, 63⟩ := by decide

/-! ## The largest geometry -/

/-- The fix loses as little as can be. Of the geometries with 16 bits for the
    cylinders and for the heads, doubled any number of times, none that fits in the
    given one is larger than what the fix leaves. -/
theorem GeomFixed.largest {g g' : DrvGeom} (h : GeomFixed g g') {m k : Nat} (hm : m ≤ 65535)
    (hhd : g.drvrhd.toNat * 2 ^ k ≤ 65535) (hfit : m * 2 ^ k ≤ g.drvrcyl.toNat) :
    m * (g.drvrhd.toNat * 2 ^ k) ≤ g'.drvrcyl.toNat * g'.drvrhd.toNat := by
  rcases h.shift with ⟨n, hn, hall, hcyl⟩
  generalize g.drvrcyl.toNat = c at hfit hall hcyl
  generalize g.drvrhd.toNat = d at hn hhd hcyl ⊢
  have hle : m * 2 ^ k ≤ g'.drvrcyl.toNat * 2 ^ n := by
    rcases hcyl with hcyl | ⟨-, hcyl, hroom⟩
    · rw [hcyl]
      by_cases hnk : n ≤ k
      · -- a multiple of the larger power is one of the smaller power
        obtain ⟨j, rfl⟩ := Nat.exists_eq_add_of_le hnk
        rw [Nat.pow_add, Nat.mul_comm (2 ^ n), ← Nat.mul_assoc] at hfit ⊢
        exact Nat.mul_le_mul_right _ ((Nat.le_div_iff_mul_le (Nat.two_pow_pos n)).2 hfit)
      · -- the round before the last had more than 16 bits
        obtain ⟨j, rfl⟩ : ∃ j, n = j + 1 := ⟨n - 1, by omega⟩
        have hlast := hall j (Nat.lt_succ_self j)
        have hhalf : 32768 ≤ c / 2 ^ (j + 1) := by
          rw [Nat.pow_succ, ← Nat.div_div_eq_div_mul]
          omega
        calc m * 2 ^ k ≤ 65536 * 2 ^ j :=
              Nat.mul_le_mul (by omega) (Nat.pow_le_pow_right (by decide) (by omega))
          _ = 32768 * 2 ^ (j + 1) := by ring
          _ ≤ c / 2 ^ (j + 1) * 2 ^ (j + 1) := Nat.mul_le_mul_right _ hhalf
    · -- no room for more heads, so no more doubling
      have hkn : k ≤ n := by
        by_contra hkn
        have := Nat.mul_le_mul_left d (Nat.pow_le_pow_right (n := 2) (by decide)
          (show n + 1 ≤ k by omega))
        omega
      rw [hcyl]
      exact Nat.mul_le_mul hm (Nat.pow_le_pow_right (by decide) hkn)
  calc m * (d * 2 ^ k) = m * 2 ^ k * d := by ring
    _ ≤ g'.drvrcyl.toNat * 2 ^ n * d := Nat.mul_le_mul_right d hle
    _ = g'.drvrcyl.toNat * g'.drvrhd.toNat := by
      rw [hn]
      ring

/-- What the fix leaves is such a geometry. -/
theorem GeomFixed.fits {g g' : DrvGeom} (h : GeomFixed g g') :
    ∃ k, g'.drvrhd.toNat = g.drvrhd.toNat * 2 ^ k ∧
      g'.drvrcyl.toNat * 2 ^ k ≤ g.drvrcyl.toNat := by
  rcases h.shift with ⟨k, hk, -, hcyl⟩
  refine ⟨k, hk, ?_⟩
  rcases hcyl with hcyl | ⟨hbig, hcyl, -⟩
  · rw [hcyl]
    exact Nat.div_mul_le_self _ _
  · rw [hcyl]
    exact le_trans (Nat.mul_le_mul_right _ (by omega)) (Nat.div_mul_le_self _ (2 ^ k))

end Ata

end Sil3112
