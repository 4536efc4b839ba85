import Mathlib.Data.Nat.Digits.Lemmas
import Sil3112.Disk.Bbh
import Sil3112.Ata.InitPkt
import Sil3112.Ata.TaskFile

/-!
# The Capacity of a Drive

`ata_get_capacity`, which takes the number of sectors out of the words of
IDENTIFY DEVICE. The words are `ushort_t`. C promotes them to `int` before they
are multiplied and added, and only the result is made an `uint64_t`. So a
capacity of 2^31 sectors or more in the words for 28 bits wraps, and a negative
`int` becomes a number close to 2^64.

The words for 48 bits are added up in an `uint64_t` from the start. The current
values of a drive without LBA are kept small by the checks on the number of
heads and of sectors in a track.

## Main definitions

* `AtaId`: The words of IDENTIFY DEVICE that are read.
* `calculate28bitsCapacity`, `calculate48bitsCapacity`: `ata_calculate_*_capacity`
* `getCapacity`: `ata_get_capacity`
* `AtaId.cap28`, `AtaId.cap48`: The same over the natural numbers.
* `CapacityExact`: What is to be returned for a drive.

## Theorems

* `calculate48bits_eq`: The loop over the four words is exact.
* `get_capacity_exact_iff`: Where the whole routine is exact.
-/

namespace Sil3112

namespace Ata

open Ghd Disk

/-! ## The source -/

/-- `struct ata_id`, the words that tell the capacity. -/
structure AtaId where
  fixcyls : BitVec 16
  heads : BitVec 16
  sectors : BitVec 16
  validinfo : BitVec 16
  curcyls : BitVec 16
  curheads : BitVec 16
  cursectrk : BitVec 16
  cursccp : BitVec 16 × BitVec 16
  addrsec : BitVec 16 × BitVec 16
  majorversion : BitVec 16
  cmdset83 : BitVec 16
  features86 : BitVec 16
  addrsecxt : Vector (BitVec 16) 4

/-- `ad_drive_bits` and `ad_id` -/
structure CapDrv where
  driveBits : BitVec 8
  id : AtaId

/-- `ATACS_EXT48` -/
def atacsExt48 : BitVec 16 := 0x0400

/-- `MAX_28BIT_CAPACITY` -/
def max28bitCapacity : Nat := 0xfffffff

/-- `AD_EXT48` -/
def adExt48 : Nat := 0x200

/-- `IS_ATA_VERSION_SUPPORTED` -/
def isAtaVersionSupported (id : AtaId) (n : Nat) : Bool :=
  id.majorversion != 0xffff && id.majorversion &&& BitVec.ofNat 16 (1 <<< n) != 0

/-- `ata_fixup_ata6_geometry` -/
def fixupAta6Geometry (id : AtaId) : AtaId :=
  if id.heads ≠ 0 ∧ id.heads ≠ 0xffff ∧ id.sectors ≠ 0 ∧ id.sectors ≠ 0xffff ∧
      id.fixcyls ≠ 0 then
    id
  else
    { id with heads := 0x10, sectors := 0x3f, fixcyls := 1 }

/-- The value of a word in an expression of type `int`. -/
def promote (w : BitVec 16) : Int := w.toNat

/-- `w[0] + w[1] * 0x10000` -/
def twoWords (w : BitVec 16 × BitVec 16) : Int :=
  int32 (promote w.1 + int32 (promote w.2 * 0x10000))

/-- `a * b * c` -/
def threeWords (a b c : BitVec 16) : Int :=
  int32 (int32 (promote a * promote b) * promote c)

/-- `ata_calculate_28bits_capacity` -/
def calculate28bitsCapacity (d : CapDrv) : Nat :=
  if d.driveBits &&& atdhLba ≠ 0 then
    ulong (twoWords d.id.addrsec)
  else if d.id.validinfo &&& 1 = 1 ∧
      1 ≤ promote d.id.curheads ∧ promote d.id.curheads ≤ 16 ∧
      1 ≤ promote d.id.cursectrk ∧ promote d.id.cursectrk ≤ 63 ∧
      uint (twoWords d.id.cursccp) =
        uint (threeWords d.id.curcyls d.id.curheads d.id.cursectrk) then
    uint (twoWords d.id.cursccp)
  else
    ulong (threeWords d.id.fixcyls d.id.heads d.id.sectors)

/-- `ata_calculate_48bits_capacity`. The loop runs from the last word to the
    first. -/
def calculate48bitsCapacity (id : AtaId) : Nat :=
  id.addrsecxt.toList.foldr (fun w cap => ((cap <<< 16) + w.toNat) % 2 ^ 64) 0

/-- `ata_get_capacity`: what it returns, the capacity, and the drive with the
    geometry that the routine may have set. -/
def getCapacity (d : CapDrv) : Nat × Nat × CapDrv :=
  let cap28 := calculate28bitsCapacity d
  if !isAtaVersionSupported d.id 6 then
    (0, cap28, d)
  else if d.id.cmdset83 &&& atacsExt48 = 0 then
    (0, cap28, d)
  else if d.id.features86 &&& atacsExt48 = 0 then
    (0, cap28, d)
  else
    let d := { d with id := fixupAta6Geometry d.id }
    let cap48 := calculate48bitsCapacity d.id
    if cap48 ≤ max28bitCapacity then
      (0, cap28, d)
    else if cap28 ≠ max28bitCapacity then
      (0, cap28, d)
    else
      (adExt48, cap48, d)

/-! ## The capacity as a natural number -/

/-- The drive is addressed by sector numbers. -/
def CapDrv.Lba (d : CapDrv) : Prop := d.driveBits &&& atdhLba ≠ 0

/-- Words 53 to 58 describe the geometry in use. -/
def AtaId.CurrentValid (id : AtaId) : Prop :=
  id.validinfo.getLsbD 0 = true ∧
  1 ≤ id.curheads.toNat ∧ id.curheads.toNat ≤ 16 ∧
  1 ≤ id.cursectrk.toNat ∧ id.cursectrk.toNat ≤ 63 ∧
  id.cursccp.1.toNat + 65536 * id.cursccp.2.toNat =
    id.curcyls.toNat * id.curheads.toNat * id.cursectrk.toNat

instance (d : CapDrv) : Decidable d.Lba :=
  inferInstanceAs (Decidable (_ ≠ _))

instance (id : AtaId) : Decidable id.CurrentValid :=
  inferInstanceAs (Decidable (_ ∧ _))

/-- The 28-bit capacity. -/
def CapDrv.cap28 (d : CapDrv) : Nat :=
  if d.Lba then
    d.id.addrsec.1.toNat + 65536 * d.id.addrsec.2.toNat
  else if d.id.CurrentValid then
    d.id.cursccp.1.toNat + 65536 * d.id.cursccp.2.toNat
  else
    d.id.fixcyls.toNat * d.id.heads.toNat * d.id.sectors.toNat

/-- The number that words 100 to 103 are the digits of, the lowest one first. -/
def AtaId.cap48 (id : AtaId) : Nat :=
  Nat.ofDigits 65536 (id.addrsecxt.toList.map BitVec.toNat)

/-- ATA-6 is among the versions that are supported, and word 80 says something. -/
def AtaId.Ata6 (id : AtaId) : Prop :=
  id.majorversion ≠ 0xffff ∧ id.majorversion.getLsbD 6 = true

instance (id : AtaId) : Decidable id.Ata6 :=
  inferInstanceAs (Decidable (_ ∧ _))

/-- What makes the drive one with 48-bit addresses. -/
def CapDrv.Ext48 (d : CapDrv) : Prop :=
  d.id.Ata6 ∧ d.id.cmdset83.getLsbD 10 = true ∧ d.id.features86.getLsbD 10 = true ∧
  max28bitCapacity < d.id.cap48 ∧ d.cap28 = max28bitCapacity

/-- A return value and a capacity are those that belong to the drive. -/
def CapacityExact (d : CapDrv) (mode cap : Nat) : Prop :=
  (d.Ext48 → mode = adExt48 ∧ cap = d.id.cap48) ∧
  (¬ d.Ext48 → mode = 0 ∧ cap = d.cap28)

/-! ## Arithmetic in `int` -/

/-- A number below 2^31 comes out of an `int` as it went in. -/
theorem ulong_int32_of_lt {n : Nat} (h : n < 2 ^ 31) : ulong (int32 n) = n := by
  rw [int32_of_bounds (by omega) (by omega)]
  unfold ulong
  omega

/-- A larger one does not, unless it is far larger than three words can make it. -/
theorem ulong_int32_ne {n : Nat} (h : 2 ^ 31 ≤ n) (h' : n < 2 ^ 48) :
    ulong (int32 n) ≠ n := by
  have hlo := Int.le_bmod (x := (n : Int)) (m := 2 ^ 32) (by decide)
  have hhi := Int.bmod_lt (x := (n : Int)) (m := 2 ^ 32) (by decide)
  unfold ulong int32
  -- The `int` is below 2^31, and what becomes of a negative one is above 2^48.
  omega

theorem uint_int32_of_lt {n : Nat} (h : n < 2 ^ 32) : uint (int32 n) = n := by
  have hmod : (int32 (n : Int)) % 2 ^ 32 = (n : Int) % 2 ^ 32 := by
    unfold int32
    exact Int.bmod_emod
  unfold uint
  rw [hmod]
  omega

/-- The product of two words wraps before the sum does, to the same effect. -/
theorem twoWords_eq (w : BitVec 16 × BitVec 16) :
    twoWords w = int32 ((w.1.toNat + 65536 * w.2.toNat : Nat) : Int) := by
  unfold twoWords int32 promote
  rw [Int.add_bmod_bmod]
  push_cast
  ring_nf

theorem threeWords_eq (a b c : BitVec 16) :
    threeWords a b c = int32 ((a.toNat * b.toNat * c.toNat : Nat) : Int) := by
  unfold threeWords int32 promote
  rw [Int.bmod_mul_bmod]
  push_cast
  rfl

theorem twoWords_lt (w : BitVec 16 × BitVec 16) :
    w.1.toNat + 65536 * w.2.toNat < 2 ^ 32 := by
  have h1 := w.1.isLt
  have h2 := w.2.isLt
  omega

theorem threeWords_lt (a b c : BitVec 16) : a.toNat * b.toNat * c.toNat < 2 ^ 48 := by
  have hab : a.toNat * b.toNat < 2 ^ 16 * 2 ^ 16 :=
    Nat.mul_lt_mul'' a.isLt b.isLt
  calc a.toNat * b.toNat * c.toNat < 2 ^ 16 * 2 ^ 16 * 2 ^ 16 :=
        Nat.mul_lt_mul'' hab c.isLt
    _ = 2 ^ 48 := by norm_num

/-! ## The 48-bit capacity -/

/-- Shifting the words in one by one gives the number they are the digits of, as
    long as they fit. -/
theorem foldr_words (l : List (BitVec 16)) (h : l.length ≤ 4) :
    l.foldr (fun w cap => ((cap <<< 16) + w.toNat) % 2 ^ 64) 0 =
      Nat.ofDigits 65536 (l.map BitVec.toNat) := by
  induction l with
  | nil => rfl
  | cons w l ih =>
    have hlen : l.length ≤ 3 := by
      simp only [List.length_cons] at h
      omega
    -- The words before this one leave 16 bits free.
    have hlt : Nat.ofDigits 65536 (l.map BitVec.toNat) < 65536 ^ 3 := by
      have hdig : ∀ x ∈ l.map BitVec.toNat, x < 65536 := by
        intro x hx
        rcases List.mem_map.mp hx with ⟨v, -, rfl⟩
        exact v.isLt
      refine lt_of_lt_of_le (Nat.ofDigits_lt_base_pow_length (by norm_num) hdig) ?_
      rw [List.length_map]
      exact Nat.pow_le_pow_right (by norm_num) hlen
    have hw := w.isLt
    rw [List.foldr_cons, ih (by omega), List.map_cons, Nat.ofDigits_cons, Nat.shiftLeft_eq]
    rw [Nat.mod_eq_of_lt (by omega)]
    push_cast
    omega

/-- The loop over the four words is exact. -/
theorem calculate48bits_eq (id : AtaId) : calculate48bitsCapacity id = id.cap48 :=
  foldr_words id.addrsecxt.toList (by simp)

/-! ## The 28-bit capacity -/

/-- The values in which the routine is right: where a drive gives its capacity in
    two words or as a product of three, it is below 2^31. -/
def CapDrv.Fits (d : CapDrv) : Prop :=
  if d.Lba then
    d.id.addrsec.2.toNat < 0x8000
  else
    d.id.CurrentValid ∨ d.id.fixcyls.toNat * d.id.heads.toNat * d.id.sectors.toNat < 2 ^ 31

theorem twoPow_ne_zero {i : Nat} (hi : i < 16) : BitVec.twoPow 16 i ≠ 0 := by
  intro h
  have := congrArg (fun v => v.getLsbD i) h
  simp [hi] at this

/-- A word has none of a bit if and only if the bit is clear. -/
theorem and_twoPow_eq_zero (w : BitVec 16) {i : Nat} (hi : i < 16) :
    w &&& BitVec.twoPow 16 i = 0 ↔ w.getLsbD i = false := by
  rw [BitVec.and_twoPow]
  by_cases h : w.getLsbD i = true
  · rw [if_pos h, h]
    simpa using twoPow_ne_zero hi
  · rw [if_neg h]
    simpa using h

theorem validinfo_iff (w : BitVec 16) : w &&& 1 = 1 ↔ w.getLsbD 0 = true := by
  have hbit : (1 : BitVec 16) = BitVec.twoPow 16 0 := by decide
  rw [hbit, BitVec.and_twoPow]
  by_cases h : w.getLsbD 0 = true
  · rw [if_pos h]
    exact ⟨fun _ => h, fun _ => rfl⟩
  · rw [if_neg h]
    exact ⟨fun heq => absurd heq.symm (twoPow_ne_zero (by decide)), fun hbit => absurd hbit h⟩

/-- The check of the current values does not wrap where it succeeds: with that few
    heads and sectors the product is small. -/
theorem current_iff (id : AtaId) :
    (id.validinfo &&& 1 = 1 ∧
      1 ≤ promote id.curheads ∧ promote id.curheads ≤ 16 ∧
      1 ≤ promote id.cursectrk ∧ promote id.cursectrk ≤ 63 ∧
      uint (twoWords id.cursccp) =
        uint (threeWords id.curcyls id.curheads id.cursectrk)) ↔ id.CurrentValid := by
  have hsum : uint (twoWords id.cursccp) =
      id.cursccp.1.toNat + 65536 * id.cursccp.2.toNat := by
    rw [twoWords_eq]
    exact uint_int32_of_lt (twoWords_lt _)
  -- 16 heads and 63 sectors keep the product below 2^32.
  have hprod : id.curheads.toNat ≤ 16 → id.cursectrk.toNat ≤ 63 →
      uint (threeWords id.curcyls id.curheads id.cursectrk) =
        id.curcyls.toNat * id.curheads.toNat * id.cursectrk.toNat := by
    intro hh hs
    rw [threeWords_eq]
    refine uint_int32_of_lt ?_
    have hc := id.curcyls.isLt
    calc id.curcyls.toNat * id.curheads.toNat * id.cursectrk.toNat ≤ 2 ^ 16 * 16 * 63 :=
          Nat.mul_le_mul (Nat.mul_le_mul (by omega) hh) hs
      _ < 2 ^ 32 := by norm_num
  unfold AtaId.CurrentValid promote
  rw [validinfo_iff, hsum]
  constructor
  · rintro ⟨hv, h1, h2, h3, h4, heq⟩
    rw [hprod (by omega) (by omega)] at heq
    exact ⟨hv, by omega, by omega, by omega, by omega, heq⟩
  · rintro ⟨hv, h1, h2, h3, h4, heq⟩
    rw [hprod h2 h4]
    exact ⟨hv, by omega, by omega, by omega, by omega, heq⟩

/-- The routine takes the same branches as the definition over the natural numbers,
    and what it computes there is an `int` in two of the three. -/
theorem calculate28bits_eq (d : CapDrv) :
    calculate28bitsCapacity d =
      if d.Lba then
        ulong (int32 ((d.id.addrsec.1.toNat + 65536 * d.id.addrsec.2.toNat : Nat) : Int))
      else if d.id.CurrentValid then
        d.id.cursccp.1.toNat + 65536 * d.id.cursccp.2.toNat
      else
        ulong (int32
          ((d.id.fixcyls.toNat * d.id.heads.toNat * d.id.sectors.toNat : Nat) : Int)) := by
  unfold calculate28bitsCapacity
  by_cases hl : d.Lba
  · rw [if_pos (show d.driveBits &&& atdhLba ≠ 0 from hl), if_pos hl, twoWords_eq]
  · rw [if_neg (show ¬ d.driveBits &&& atdhLba ≠ 0 from hl), if_neg hl]
    by_cases hc : d.id.CurrentValid
    · rw [if_pos ((current_iff d.id).mpr hc), if_pos hc, twoWords_eq]
      exact uint_int32_of_lt (twoWords_lt _)
    · rw [if_neg (fun hn => hc ((current_iff d.id).mp hn)), if_neg hc, threeWords_eq]

theorem calculate28bits_of_fits {d : CapDrv} (h : d.Fits) :
    calculate28bitsCapacity d = d.cap28 := by
  rw [calculate28bits_eq]
  unfold CapDrv.Fits at h
  unfold CapDrv.cap28
  by_cases hl : d.Lba
  · rw [if_pos hl] at h
    have hw := d.id.addrsec.1.isLt
    rw [if_pos hl, if_pos hl]
    exact ulong_int32_of_lt (by omega)
  · rw [if_neg hl] at h
    rw [if_neg hl, if_neg hl]
    by_cases hc : d.id.CurrentValid
    · rw [if_pos hc, if_pos hc]
    · rw [if_neg hc, if_neg hc]
      exact ulong_int32_of_lt (h.resolve_left hc)

/-- Outside of these values the capacity is 2^31 or more, and the routine returns
    something else. -/
theorem calculate28bits_of_not_fits {d : CapDrv} (h : ¬ d.Fits) :
    2 ^ 31 ≤ d.cap28 ∧ calculate28bitsCapacity d ≠ d.cap28 := by
  rw [calculate28bits_eq]
  unfold CapDrv.Fits at h
  unfold CapDrv.cap28
  by_cases hl : d.Lba
  · rw [if_pos hl] at h
    have hlt := twoWords_lt d.id.addrsec
    rw [if_pos hl, if_pos hl]
    exact ⟨by omega, ulong_int32_ne (by omega) (by omega)⟩
  · rw [if_neg hl] at h
    rcases not_or.mp h with ⟨hc, hbig⟩
    rw [if_neg hl, if_neg hl, if_neg hc, if_neg hc]
    exact ⟨by omega, ulong_int32_ne (by omega) (threeWords_lt _ _ _)⟩

/-! ## The whole routine -/

theorem version_iff (id : AtaId) : isAtaVersionSupported id 6 = true ↔ id.Ata6 := by
  have hbit : BitVec.ofNat 16 (1 <<< 6) = BitVec.twoPow 16 6 := by decide
  unfold isAtaVersionSupported AtaId.Ata6
  rw [Bool.and_eq_true, bne_iff_ne, bne_iff_ne, hbit, ne_eq, ne_eq,
    and_twoPow_eq_zero _ (by decide), Bool.not_eq_false]

theorem ext48_bit_iff (w : BitVec 16) : w &&& atacsExt48 = 0 ↔ w.getLsbD 10 = false := by
  have hbit : atacsExt48 = BitVec.twoPow 16 10 := by decide
  rw [hbit, and_twoPow_eq_zero _ (by decide)]

theorem fixup_addrsecxt (id : AtaId) : (fixupAta6Geometry id).cap48 = id.cap48 := by
  unfold fixupAta6Geometry
  by_cases h : id.heads ≠ 0 ∧ id.heads ≠ 0xffff ∧ id.sectors ≠ 0 ∧ id.sectors ≠ 0xffff ∧
      id.fixcyls ≠ 0
  · rw [if_pos h]
  · rw [if_neg h]
    rfl

/-- The tests of the routine in one condition. It is the one for 48-bit addresses,
    with the computed capacity for the 28-bit one. -/
theorem getCapacity_eq (d : CapDrv) :
    ((getCapacity d).1, (getCapacity d).2.1) =
      if (d.id.Ata6 ∧ d.id.cmdset83.getLsbD 10 = true ∧ d.id.features86.getLsbD 10 = true ∧
          max28bitCapacity < d.id.cap48) ∧
          calculate28bitsCapacity d = max28bitCapacity then
        (adExt48, d.id.cap48)
      else
        (0, calculate28bitsCapacity d) := by
  unfold getCapacity
  simp only [calculate48bits_eq, fixup_addrsecxt, Bool.not_eq_true']
  -- One test of the routine after the other, each of which ends it with the 28-bit capacity.
  by_cases hv : isAtaVersionSupported d.id 6 = false
  · have hv' : ¬ d.id.Ata6 := fun h => by simp [(version_iff d.id).mpr h] at hv
    rw [if_pos hv, if_neg (fun h => hv' h.1.1)]
  have hv' := (version_iff d.id).mp (Bool.not_eq_false _ ▸ hv)
  rw [if_neg hv]
  by_cases h83 : d.id.cmdset83 &&& atacsExt48 = 0
  · have h := (ext48_bit_iff _).mp h83
    rw [if_pos h83, if_neg (fun hn => absurd (hn.1.2.1.symm.trans h) (by decide))]
  have h83' := Bool.not_eq_false _ ▸ mt (ext48_bit_iff _).mpr h83
  rw [if_neg h83]
  by_cases h86 : d.id.features86 &&& atacsExt48 = 0
  · have h := (ext48_bit_iff _).mp h86
    rw [if_pos h86, if_neg (fun hn => absurd (hn.1.2.2.1.symm.trans h) (by decide))]
  have h86' := Bool.not_eq_false _ ▸ mt (ext48_bit_iff _).mpr h86
  rw [if_neg h86]
  by_cases hcap : d.id.cap48 ≤ max28bitCapacity
  · rw [if_pos hcap, if_neg (fun hn => Nat.not_lt.mpr hcap hn.1.2.2.2)]
  rw [if_neg hcap]
  by_cases hmax : calculate28bitsCapacity d = max28bitCapacity
  · rw [if_neg (not_not.mpr hmax), if_pos ⟨⟨hv', h83', h86', Nat.not_le.mp hcap⟩, hmax⟩]
  · rw [if_pos hmax, if_neg (fun hn => hmax hn.2)]

/-- `ata_get_capacity` is exact for a drive if and only if the capacity in its
    words for 28 bits is below 2^31. A larger one gets out of the routine as
    another number. -/
theorem get_capacity_exact_iff (d : CapDrv) :
    CapacityExact d (getCapacity d).1 (getCapacity d).2.1 ↔ d.Fits := by
  have heq := getCapacity_eq d
  constructor
  · intro hexact
    by_contra hfits
    rcases calculate28bits_of_not_fits hfits with ⟨hbig, hne⟩
    have hmax : d.cap28 ≠ max28bitCapacity := by
      unfold max28bitCapacity
      omega
    -- So 0 and this capacity are due, and one of the two is not what is returned.
    rcases hexact.2 (fun hext => hmax hext.2.2.2.2) with ⟨hmode, hcap⟩
    rw [hmode, hcap] at heq
    split at heq
    · exact absurd (congrArg Prod.fst heq) (show 0 ≠ adExt48 by decide)
    · exact hne (congrArg Prod.snd heq).symm
  · intro hfits
    rw [calculate28bits_of_fits hfits] at heq
    refine ⟨fun hext => ?_, fun hext => ?_⟩
    · rcases hext with ⟨hv, h83, h86, hcap, hmax⟩
      rw [if_pos ⟨⟨hv, h83, h86, hcap⟩, hmax⟩] at heq
      exact ⟨congrArg Prod.fst heq, congrArg Prod.snd heq⟩
    · rw [if_neg (fun ⟨⟨hv, h83, h86, hcap⟩, hmax⟩ => hext ⟨hv, h83, h86, hcap, hmax⟩)] at heq
      exact ⟨congrArg Prod.fst heq, congrArg Prod.snd heq⟩

/-- An old drive of 2^31 sectors, which says so in words 60 and 61. -/
def bigDrive : CapDrv :=
  { driveBits := 0xe0
    id :=
      { fixcyls := 16383, heads := 16, sectors := 63, validinfo := 7
        curcyls := 16383, curheads := 16, cursectrk := 63, cursccp := (0xfc10, 0xfb)
        addrsec := (0, 0x8000), majorversion := 0x1e
        cmdset83 := 0, features86 := 0, addrsecxt := Vector.replicate 4 0 } }

/-- Its capacity comes out with all the upper bits set. -/
theorem get_capacity_bigDrive :
    ¬ (∀ d : CapDrv, CapacityExact d (getCapacity d).1 (getCapacity d).2.1) ∧
    bigDrive.cap28 = 2 ^ 31 ∧
    (getCapacity bigDrive).1 = 0 ∧ (getCapacity bigDrive).2.1 = 2 ^ 64 - 2 ^ 31 := by
  have hcap : bigDrive.cap28 = 2 ^ 31 := by decide
  have hmode : (getCapacity bigDrive).1 = 0 := by decide
  have hret : (getCapacity bigDrive).2.1 = 2 ^ 64 - 2 ^ 31 := by decide
  refine ⟨fun hall => ?_, hcap, hmode, hret⟩
  have hext : ¬ bigDrive.Ext48 := by
    intro h
    have := h.2.2.2.2
    rw [hcap] at this
    exact absurd this (by decide)
  have := ((hall bigDrive).2 hext).2
  rw [hret, hcap] at this
  omega

end Ata

end Sil3112
