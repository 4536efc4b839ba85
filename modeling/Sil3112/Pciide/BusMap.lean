import Mathlib.Algebra.Order.Ring.Int
import Mathlib.Data.Fin.Basic
import Mathlib.Data.Fin.VecNotation

/-!
# The Registers of the Two Channels

`pciide_bus_map` of `pci-ide.c`, and the size that `pciide_ddi_ctlops` gives for a
register set. The bus-master registers of both channels are one set of 16 bytes, and
each of the two children has a half of it as its set 2.

The bound of a request is checked once, as `offset + len > 8` in an `off_t`. That is
before a length of 0 is replaced, and it says nothing of a negative number. So a
child can reach into the other half with a negative offset, and past its own with a
length of 0 at its end, which is still 0 when the parent gets it and means the rest
of the set there.

## Main definitions

* `mapRnumber`: `pciide_map_rnumber`
* `busMap`: `pciide_bus_map`, with what is passed to the parent.
* `regsize`: The size of a set.
* `OwnHalf`: A range in the half of a channel.
* `InSet`: The requests that are as they should be.

## Theorems

* `mapRnumber_injective`: The sets of the nexus stay apart.
* `regsize_eq`: The size of the half, cut to what there is.
* `bus_map_isolated_iff`: When a mapping stays in its half.
-/

namespace Sil3112

namespace Pciide

/-! ## The register sets -/

/-- `pciide_transform` -/
def pciideTransform : Bool → Bool → Fin 5 → Int
  | false, false => ![1, 1, 1, 1, -4]
  | false, true => ![3, 3, -2, -2, -2]
  | true, false => ![0, 0, 1, 1, -2]
  | true, true => ![0, 0, 0, 0, 0]

/-- `pciide_map_rnumber` -/
def mapRnumber (rnumber : Fin 5) (priNative secNative : Bool) : Int :=
  rnumber.val + pciideTransform priNative secNative rnumber

/-- `PCI_IDE_IF_NATIVE_PRI` -/
def nativePri : BitVec 32 := 0x1

/-- `PCI_IDE_IF_NATIVE_SEC` -/
def nativeSec : BitVec 32 := 0x4

/-- `pciide_pre26_rnumber_map` -/
def pre26RnumberMap (classCode : BitVec 32) (rnumber : Fin 5) : Int :=
  mapRnumber rnumber (classCode &&& nativePri != 0) (classCode &&& nativeSec != 0)

/-- The nexus: its `class-code`, and whether `PCIIDE_PRE26` is true of it. -/
structure Nexus where
  classCode : BitVec 32
  pre26 : Bool

/-- The set of the parent for a set of the nexus. The first one is that of the
    configuration space. -/
def Nexus.rnumber (dip : Nexus) (r : Fin 5) : Int :=
  (if dip.pre26 then pre26RnumberMap dip.classCode r else r.val) + 1

/-- The channel of a child, by the address in its name. -/
def controller (nameAddr : String) : Fin 2 :=
  if nameAddr = "0" then ⟨0, Nat.zero_lt_two⟩ else ⟨1, Nat.one_lt_two⟩

/-- The set of the nexus for the set 0 or 1 of a child. -/
def channelSet (c : Fin 2) (r : Fin 2) : Fin 5 :=
  ⟨r.val + 2 * c.val, by omega⟩

/-- A mapping, as the parent gets it. `off_t` has 64 bits. -/
structure Mapping where
  rnumber : Int
  offset : BitVec 64
  len : BitVec 64
  deriving DecidableEq

/-- `pciide_bus_map`, up to the call of the parent. -/
def busMap (dip : Nexus) (nameAddr : String) (rnumber : Int) (offset len : BitVec 64) :
    Option Mapping :=
  let c := controller nameAddr
  if rnumber = 0 then some ⟨dip.rnumber (channelSet c ⟨0, Nat.zero_lt_two⟩), offset, len⟩
  else if rnumber = 1 then some ⟨dip.rnumber (channelSet c ⟨1, Nat.one_lt_two⟩), offset, len⟩
  else if rnumber = 2 then
    if (offset + len).toInt > 8 then none
    else
      let len := if len = 0 then 8 - offset else len
      some ⟨dip.rnumber 4, offset + 8 * BitVec.ofNat 64 c.val, len⟩
  else none

/-- `DDI_CTLOPS_REGSIZE`. `parent` is what the parent answers for a set. -/
def regsize (dip : Nexus) (nameAddr : String) (parent : Int → Option Int) (rnumber : Int) :
    Option Int :=
  let c := controller nameAddr
  if rnumber = 0 then parent (dip.rnumber (channelSet c ⟨0, Nat.zero_lt_two⟩))
  else if rnumber = 1 then parent (dip.rnumber (channelSet c ⟨1, Nat.one_lt_two⟩))
  else if rnumber = 2 then
    (parent (dip.rnumber 4)).map fun tmp =>
      let tmp := if c.val = 1 then if tmp < 8 then 0 else tmp - 8 else tmp
      if tmp > 8 then 8 else tmp
  else none

/-! ## What is to be true -/

/-- The range is in the half of its channel, and is not empty. -/
structure OwnHalf (c : Fin 2) (m : Mapping) : Prop where
  lower : 8 * (c.val : Int) ≤ m.offset.toInt
  upper : m.offset.toInt + m.len.toInt ≤ 8 * (c.val : Int) + 8
  pos : 0 < m.len.toInt
  le : m.len.toInt ≤ 8

/-- The request is refused for its sum, or it has no negative number in it, its sum is
    as large as it seems, and it is not the rest behind the last byte. -/
def InSet (offset len : BitVec 64) : Prop :=
  8 < (offset + len).toInt ∨
    (0 ≤ offset.toInt ∧ 0 ≤ len.toInt ∧ offset.toInt + len.toInt < 2 ^ 63 ∧
      ¬(offset = 8 ∧ len = 0))

instance (offset len : BitVec 64) : Decidable (InSet offset len) :=
  inferInstanceAs (Decidable (_ ∨ _))

/-- No two sets of the nexus become one. -/
theorem mapRnumber_injective (pri sec : Bool) :
    Function.Injective fun r : Fin 5 => mapRnumber r pri sec := by
  have h : ∀ p s : Bool, ∀ r r' : Fin 5, mapRnumber r p s = mapRnumber r' p s → r = r' := by
    decide
  exact fun r r' => h pri sec r r'

theorem Nexus.rnumber_injective (dip : Nexus) : Function.Injective dip.rnumber := by
  intro r r' h
  unfold Nexus.rnumber at h
  split at h
  · exact mapRnumber_injective _ _ (by simpa [pre26RnumberMap] using h)
  · exact Fin.ext (by omega)

theorem fin_two (c : Fin 2) : c = 0 ∨ c = 1 := by
  revert c
  decide

/-- The size of a child's set 2 is that of its half, cut to what there is. -/
theorem regsize_eq (dip : Nexus) (nameAddr : String) (parent : Int → Option Int) {size : Int}
    (hsize : parent (dip.rnumber 4) = some size) (h0 : 0 ≤ size) :
    regsize dip nameAddr parent 2 =
      some (min 8 (max 0 (size - 8 * ((controller nameAddr).val : Int)))) := by
  unfold regsize
  rw [if_neg (by decide), if_neg (by decide), if_pos rfl, hsize, Option.map_some,
    Option.some.injEq]
  generalize controller nameAddr = c
  rcases fin_two c with rfl | rfl
  · rw [if_neg (show ¬(0 : Fin 2).val = 1 by decide)]
    dsimp only [Fin.val_zero]
    omega
  · rw [if_pos (show (1 : Fin 2).val = 1 by decide)]
    dsimp only [Fin.val_one]
    omega

/-! ## The range -/

/-- What is accepted for the set 2. -/
theorem busMap_two (dip : Nexus) (nameAddr : String) (offset len : BitVec 64) (m : Mapping) :
    busMap dip nameAddr 2 offset len = some m ↔
      (offset + len).toInt ≤ 8 ∧
        m = ⟨dip.rnumber 4, offset + 8 * BitVec.ofNat 64 (controller nameAddr).val,
          if len = 0 then 8 - offset else len⟩ := by
  unfold busMap
  rw [if_neg (by decide), if_neg (by decide), if_pos rfl]
  by_cases h : (offset + len).toInt > 8
  · rw [if_pos h]
    exact iff_of_false nofun fun hm => absurd hm.1 (by omega)
  · rw [if_neg h, Option.some.injEq, eq_comm]
    exact ⟨fun hm => ⟨by omega, hm⟩, fun hm => hm.2⟩

theorem toInt_bounds (v : BitVec 64) : -2 ^ 63 ≤ v.toInt ∧ v.toInt < 2 ^ 63 :=
  ⟨v.le_toInt, v.toInt_lt⟩

/-- An `off_t` that goes around once at most. -/
theorem bmod_cases {x : Int} (h : -2 ^ 64 ≤ x) (h' : x < 2 ^ 64) :
    (x.bmod (2 ^ 64) = x ∧ -2 ^ 63 ≤ x ∧ x < 2 ^ 63) ∨
      (x.bmod (2 ^ 64) = x - 2 ^ 64 ∧ 2 ^ 63 ≤ x) ∨
      (x.bmod (2 ^ 64) = x + 2 ^ 64 ∧ x < -2 ^ 63) := by
  rw [Int.bmod_def]
  omega

/-- The range in numbers. `k` is where the half begins. -/
theorem range_iff {o l k len : Int} (ho : -2 ^ 63 ≤ o ∧ o < 2 ^ 63)
    (hl : -2 ^ 63 ≤ l ∧ l < 2 ^ 63) (hk : k = 0 ∨ k = 8) (hacc : (o + l).bmod (2 ^ 64) ≤ 8)
    (hlen : len = if l = 0 then (8 - o).bmod (2 ^ 64) else l) :
    (k ≤ (o + k).bmod (2 ^ 64) ∧ (o + k).bmod (2 ^ 64) + len ≤ k + 8 ∧ 0 < len ∧ len ≤ 8) ↔
      (0 ≤ o ∧ 0 ≤ l ∧ o + l < 2 ^ 63 ∧ ¬(o = 8 ∧ l = 0)) := by
  have hsum := @bmod_cases (o + l) (by omega) (by omega)
  have hoff := @bmod_cases (o + k) (by omega) (by omega)
  have hrest := @bmod_cases (8 - o) (by omega) (by omega)
  by_cases h0 : l = 0
  · rw [if_pos h0] at hlen
    omega
  · rw [if_neg h0] at hlen
    omega

theorem toInt_half (offset : BitVec 64) (c : Fin 2) :
    (offset + 8 * BitVec.ofNat 64 c.val).toInt =
      (offset.toInt + 8 * (c.val : Int)).bmod (2 ^ 64) := by
  rw [BitVec.toInt_add]
  rcases fin_two c with rfl | rfl
  · rfl
  · rfl

/-- A range that is accepted is in the half of its channel if and only if the request
    was as it should be. -/
theorem ownHalf_iff {offset len : BitVec 64} (hacc : (offset + len).toInt ≤ 8) (r : Int)
    (c : Fin 2) :
    OwnHalf c ⟨r, offset + 8 * BitVec.ofNat 64 c.val, if len = 0 then 8 - offset else len⟩ ↔
      InSet offset len := by
  have hzero : len = 0 ↔ len.toInt = 0 := by
    rw [← BitVec.toInt_inj]
    rfl
  have height : offset = 8 ↔ offset.toInt = 8 := by
    rw [← BitVec.toInt_inj]
    rfl
  have hlen : (if len = 0 then 8 - offset else len).toInt =
      if len.toInt = 0 then (8 - offset.toInt).bmod (2 ^ 64) else len.toInt := by
    by_cases h : len = 0
    · rw [if_pos h, if_pos (hzero.mp h)]
      exact BitVec.toInt_sub ..
    · rw [if_neg h, if_neg fun h0 => h (hzero.mpr h0)]
  have hk : 8 * (c.val : Int) = 0 ∨ 8 * (c.val : Int) = 8 := by
    have hc := c.isLt
    omega
  have hno : ¬8 < (offset + len).toInt := by omega
  rw [BitVec.toInt_add] at hacc
  have hrange := range_iff (toInt_bounds offset) (toInt_bounds len) hk hacc hlen
  rw [← toInt_half] at hrange
  have hset : InSet offset len ↔ (0 ≤ offset.toInt ∧ 0 ≤ len.toInt ∧
      offset.toInt + len.toInt < 2 ^ 63 ∧ ¬(offset.toInt = 8 ∧ len.toInt = 0)) := by
    unfold InSet
    rw [or_iff_right hno, height, hzero]
  rw [hset, ← hrange]
  exact ⟨fun h => ⟨h.lower, h.upper, h.pos, h.le⟩, fun h => ⟨h.1, h.2.1, h.2.2.1, h.2.2.2⟩⟩

/-- Ranges in the halves of two channels have no byte in common. -/
theorem OwnHalf.disjoint {c c' : Fin 2} {m m' : Mapping} (h : OwnHalf c m) (h' : OwnHalf c' m')
    (hne : c ≠ c') : m.offset.toInt + m.len.toInt ≤ m'.offset.toInt ∨
      m'.offset.toInt + m'.len.toInt ≤ m.offset.toInt := by
  have hlo := h.lower
  have hup := h.upper
  have hlo' := h'.lower
  have hup' := h'.upper
  have hc := Fin.val_ne_of_ne hne
  have hlt := c.isLt
  have hlt' := c'.isLt
  omega

/-- A request for the set 2 gets a range in the half of its channel, if it gets one,
    if and only if it is as it should be. Two such requests of the two channels get no
    byte in common. -/
theorem bus_map_isolated_iff (dip : Nexus) (nameAddr : String) (offset len : BitVec 64) :
    ((∀ m, busMap dip nameAddr 2 offset len = some m → OwnHalf (controller nameAddr) m) ↔
      InSet offset len) ∧
    (InSet offset len → ∀ (nameAddr' : String) (offset' len' : BitVec 64) (m m' : Mapping),
      InSet offset' len' → controller nameAddr ≠ controller nameAddr' →
      busMap dip nameAddr 2 offset len = some m →
      busMap dip nameAddr' 2 offset' len' = some m' →
      m.offset.toInt + m.len.toInt ≤ m'.offset.toInt ∨
        m'.offset.toInt + m'.len.toInt ≤ m.offset.toInt) := by
  have hown : ∀ (s : String) (o l : BitVec 64), InSet o l → ∀ m, busMap dip s 2 o l = some m →
      OwnHalf (controller s) m := by
    intro s o l hset m hm
    rcases (busMap_two dip s o l m).mp hm with ⟨hacc, rfl⟩
    exact (ownHalf_iff hacc _ _).mpr hset
  refine ⟨⟨fun h => ?_, hown nameAddr offset len⟩, ?_⟩
  · by_cases hacc : (offset + len).toInt ≤ 8
    · exact (ownHalf_iff hacc _ _).mp (h _ ((busMap_two dip nameAddr offset len _).mpr ⟨hacc, rfl⟩))
    · exact Or.inl (by omega)
  · intro hset s o l m m' hset' hne hm hm'
    exact (hown _ _ _ hset m hm).disjoint (hown _ _ _ hset' m' hm') hne

/-- A nexus in compatibility mode. -/
def plainNexus : Nexus := ⟨0x8a, false⟩

/-- The second channel gets the last four bytes of the first one with a negative offset,
    and the first one gets what is behind its half with no length at its end. -/
theorem bus_map_not_isolated :
    (¬∀ (s : String) (offset len : BitVec 64) (m : Mapping),
      busMap plainNexus s 2 offset len = some m → OwnHalf (controller s) m) ∧
    busMap plainNexus "0" 2 8 0 = some ⟨5, 8, 0⟩ := by
  refine ⟨fun h => ?_, by decide⟩
  have hlow := (h "1" (-4) 4 ⟨5, 4, 4⟩ (by decide)).lower
  exact absurd hlow (by decide)

end Pciide

end Sil3112
