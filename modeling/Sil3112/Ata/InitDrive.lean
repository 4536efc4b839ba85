import Sil3112.Ata.Geometry
import Sil3112.Ata.PioBlock
import Sil3112.Ata.Resid

/-!
# Initialising a Disk

`sol11ata_disk_id`, which accepts or rejects what a drive has answered to IDENTIFY
DEVICE, and `sol11ata_disk_init_drive`, which takes the geometry, the capacity and
the way of addressing from it. The three come apart in several places:

* The heads and sectors are taken from the words before `ata_get_capacity` calls
  `ata_fixup_ata6_geometry`, which replaces words that mean nothing. The driver
  goes on with those.
* Heads and sectors are checked as words of 16 bits, and divided by as bytes.
* `ata_disk_ioctl` multiplies the geometry in an `int`, where only 2^31 sectors
  have room.

48-bit addresses, on the other hand, always go with LBA: a drive that has them
reports a version from 3 on.

## Main definitions

* `DiskId`, `diskId`: The words of a drive, and `sol11ata_disk_id`.
* `initDrive`: `sol11ata_disk_init_drive`
* `getGeom`: `DIOCTL_GETGEOM`
* `GeomWithin`, `NoHuge`: What the ioctl should return, and when it does.
* `Standard`: The geometry of a drive that gives none.
* `ModesOk`: The ways of addressing go together.

## Theorems

* `reported_geometry_iff`: When the reported geometry is right.
* `ata6_geometry_iff`: When the standard geometry is used.
* `modes_ok_iff`: When the addressing is right.
-/

namespace Sil3112

namespace Ata

open Ghd Disk

/-! ## The source -/

/-- `struct ata_id`, with the words that say what the drive is: `ai_config`,
    `ai_mult1` and `ai_cap`. -/
structure DiskId extends AtaId where
  config : BitVec 16
  mult1 : BitVec 16
  cap : BitVec 16

/-- `ATA_ID_COMPACT_FLASH` -/
def ataIdCompactFlash : BitVec 16 := 0x848a

/-- `ATA_ID_CF_TO_ATA` -/
def ataIdCfToAta : BitVec 16 := 0x040a

/-- `ATAC_ATA_TYPE_MASK` -/
def atacAtaTypeMask : BitVec 16 := 0x8001

/-- `ATAC_ATA_TYPE` -/
def atacAtaType : BitVec 16 := 0

/-- `ATAC_LBA_SUPPORT` -/
def atacLbaSupport : BitVec 16 := 0x0200

/-- `sol11ata_disk_id`, from where `ata_id_common` has read the words. -/
def diskId (id : DiskId) : Option DiskId :=
  let id := if id.config = ataIdCompactFlash then { id with config := ataIdCfToAta } else id
  if id.config &&& atacAtaTypeMask ≠ atacAtaType then none
  else if id.heads = 0 ∨ id.sectors = 0 then none
  else some id

/-- `ata_test_lba_support` -/
def testLbaSupport (id : DiskId) : Bool :=
  if id.majorversion ≠ 0xffff ∧ id.majorversion.toNat ≥ 1 <<< 3 then true
  else if id.cap &&& atacLbaSupport ≠ 0 then true
  else false

/-- An `ata_drv_t` as `ata_init_drive` has set it up: its target and its LUN, and
    the words of the drive. -/
structure FoundDrv where
  targ1 : Bool
  lun : BitVec 8
  id : DiskId

/-- `ad_drive_bits` -/
def FoundDrv.driveBits (d : FoundDrv) : BitVec 8 :=
  (if d.targ1 then atdhDrive1 else atdhDrive0) ||| d.lun

/-- The property with the geometry of the BIOS, three `short`s. -/
structure Chs where
  c0 : BitVec 16
  c1 : BitVec 16
  c2 : BitVec 16

/-- What `sol11ata_disk_init_drive` sets in an `ata_drv_t`. -/
structure InitDrv where
  driveBits : BitVec 8
  id : DiskId
  phhd : BitVec 16
  phsec : BitVec 16
  acyl : BitVec 16
  geom : DrvGeom
  ext48 : Bool
  int13lba : Bool
  capacity : Nat

/-- Where `sol11ata_disk_init_drive` straightens out the geometry: with the
    property of the BIOS, or from the capacity. `fixcyls` is `ai_fixcyls` after
    `ata_get_capacity`. -/
def straighten (bios : Option Chs) (fixcyls : BitVec 16) (capacity : Nat) (g : DrvGeom) :
    DrvGeom :=
  match bios with
  | some chs =>
    let c0 := if chs.c1.signExtend 32 = g.drvrhd - 1 ∧ chs.c2.signExtend 32 = g.drvrsec then
        fixcyls - 1
      else chs.c0
    ⟨c0.signExtend 32 + 1, chs.c1.signExtend 32 + 1, chs.c2.signExtend 32⟩
  | none =>
    if capacity ≠ 0 then
      { g with drvrcyl := BitVec.ofNat 32 (capacity / (g.drvrhd * g.drvrsec).toNat) }
    else ⟨1025, 1, 1⟩

/-- `sol11ata_disk_init_drive`, before `ata_fix_large_disk_geometry` is called. -/
def initGeometry (bios : Option Chs) (d : FoundDrv) : InitDrv :=
  let g : DrvGeom := ⟨d.id.fixcyls.setWidth 32, d.id.heads.setWidth 32, d.id.sectors.setWidth 32⟩
  let driveBits := if testLbaSupport d.id then d.driveBits ||| atdhLba else d.driveBits
  let r := getCapacity ⟨driveBits, d.id.toAtaId⟩
  { driveBits := driveBits
    id := { d.id with toAtaId := r.2.2.id }
    phhd := d.id.heads
    phsec := d.id.sectors
    acyl := 0
    geom := straighten bios r.2.2.id.fixcyls r.2.1 g
    ext48 := r.1 == adExt48
    int13lba := bios.isNone
    capacity := r.2.1 }

/-- What `sol11ata_disk_init_drive` meets: the properties with the geometry of the
    BIOS and with a block factor, the block factor in the drive, and the outcome
    of the commands of `ata_disk_setup_parms`. -/
structure InitEnv where
  bios : Option Chs
  factor : Option Int
  mult : Nat
  parmsOk : Bool
  multOk : Bool

/-- `sol11ata_disk_init_drive`. What it sets up for the target disk, and the fake
    inquiry, are left out. -/
def initDrive (env : InitEnv) (d : FoundDrv) : Option (InitDrv × DrvBlock) :=
  if d.lun ≠ 0 then none
  else
    let r := initGeometry env.bios d
    let r := { r with geom := fixLargeDiskGeometry r.driveBits r.geom }
    let b := setupParms (foundDrive r.id.mult1.toNat env.factor env.mult) env.parmsOk env.multOk
    if b.2 then some (r, b.1) else none

/-- `ata_disk_initialize_device_parameters`: the count and the head in its
    command. -/
def InitDrv.devParms (r : InitDrv) : BitVec 8 × BitVec 8 :=
  (r.phsec.setWidth 8, (r.phhd - 1).setWidth 8)

/-- `struct tgdk_geom` -/
structure TgdkGeom where
  cyl : Int
  acyl : Int
  head : Int
  sec : Int
  secsiz : Int
  cap : Int

/-- `ata_disk_ioctl` for `DIOCTL_GETGEOM` and `DIOCTL_GETPHYGEOM` -/
def getGeom (r : InitDrv) : TgdkGeom :=
  let cyl := r.geom.drvrcyl.toInt
  let head := r.geom.drvrhd.toInt
  let sec := r.geom.drvrsec.toInt
  { cyl := cyl, acyl := r.acyl.toNat, head := head, sec := sec, secsiz := 512
    cap := int32 (int32 (cyl * head) * sec) }

/-! ## Accepted drives -/

/-- An accepted drive has heads and sectors. Of the words, the configuration at
    most is another one. -/
theorem diskId_eq_some {w id : DiskId} (h : diskId w = some id) :
    id.toAtaId = w.toAtaId ∧ id.cap = w.cap ∧ w.heads ≠ 0 ∧ w.sectors ≠ 0 := by
  unfold diskId at h
  by_cases hcf : w.config = ataIdCompactFlash
  · rw [if_pos hcf] at h
    dsimp only at h
    split at h
    · cases h
    split at h
    · cases h
    rename_i hne
    cases h
    exact ⟨rfl, rfl, fun h0 => hne (Or.inl h0), fun h0 => hne (Or.inr h0)⟩
  · rw [if_neg hcf] at h
    dsimp only at h
    split at h
    · cases h
    split at h
    · cases h
    rename_i hne
    cases h
    exact ⟨rfl, rfl, fun h0 => hne (Or.inl h0), fun h0 => hne (Or.inr h0)⟩

/-- What a drive that has been initialised is like. -/
theorem initDrive_eq_some {env : InitEnv} {d : FoundDrv} {r : InitDrv} {b : DrvBlock}
    (h : initDrive env d = some (r, b)) :
    d.lun = 0 ∧ r = { initGeometry env.bios d with
      geom := fixLargeDiskGeometry (initGeometry env.bios d).driveBits
        (initGeometry env.bios d).geom } := by
  unfold initDrive at h
  by_cases hlun : d.lun ≠ 0
  · rw [if_pos hlun] at h
    cases h
  rw [if_neg hlun] at h
  dsimp only at h
  split at h
  · cases h
    exact ⟨not_not.mp hlun, rfl⟩
  · cases h

/-- The bit for LBA says that the drive supports it. -/
theorem initGeometry_lba {d : FoundDrv} (hlun : d.lun = 0) (bios : Option Chs) :
    (initGeometry bios d).driveBits &&& atdhLba ≠ 0 ↔ testLbaSupport d.id = true := by
  have hbits : (initGeometry bios d).driveBits =
      if testLbaSupport d.id then d.driveBits ||| atdhLba else d.driveBits := rfl
  rw [hbits, FoundDrv.driveBits, hlun]
  cases d.targ1 <;> cases testLbaSupport d.id <;> decide

/-! ## The reported geometry -/

/-- What the ioctl should say about a drive of this capacity. -/
structure GeomWithin (t : TgdkGeom) (capacity : Nat) : Prop where
  nonneg : 0 ≤ t.cap
  exact : t.cap = t.cyl * t.head * t.sec
  le : t.cap ≤ capacity

/-- A geometry of the kind that the driver reports has fewer than 2^31 sectors if it
    fits in the drive: one of at most 65535 cylinders and heads, the heads being
    those of the drive doubled any number of times. The cylinders of the drive are
    counted in 32 bits. -/
def NoHuge (capacity heads sectors : Nat) : Prop :=
  ∀ m k, m ≤ 65535 → heads * 2 ^ k ≤ 65535 →
    m * 2 ^ k ≤ capacity / (heads * sectors) % 2 ^ 32 →
    m * (heads * 2 ^ k) * sectors < 2 ^ 31

/-- That is so if the drive itself has fewer. -/
theorem noHuge_of_lt {capacity heads sectors : Nat} (h : capacity < 2 ^ 31) :
    NoHuge capacity heads sectors := by
  intro m k _ _ hfit
  have hdiv : m * 2 ^ k ≤ capacity / (heads * sectors) := le_trans hfit (Nat.mod_le _ _)
  calc m * (heads * 2 ^ k) * sectors = m * 2 ^ k * (heads * sectors) := by ring
    _ ≤ capacity / (heads * sectors) * (heads * sectors) := Nat.mul_le_mul_right _ hdiv
    _ ≤ capacity := Nat.div_mul_le_self _ _
    _ < 2 ^ 31 := h

/-- Words multiplied as `uint32_t` do not wrap. -/
theorem toNat_mul_words (a b : BitVec 16) :
    (a.setWidth 32 * b.setWidth 32).toNat = a.toNat * b.toNat := by
  have ha := a.isLt
  have hb := b.isLt
  have hlt : a.toNat * b.toNat < 2 ^ 32 := by
    calc a.toNat * b.toNat < 2 ^ 16 * 2 ^ 16 := Nat.mul_lt_mul'' ha hb
      _ = 2 ^ 32 := by norm_num
  rw [BitVec.toNat_mul, BitVec.toNat_setWidth, BitVec.toNat_setWidth,
    Nat.mod_eq_of_lt (show a.toNat < 2 ^ 32 by omega),
    Nat.mod_eq_of_lt (show b.toNat < 2 ^ 32 by omega), Nat.mod_eq_of_lt hlt]

/-- The geometry that is fixed: the words of the drive, and as many cylinders as the
    capacity has room for. -/
theorem initGeometry_geom (d : FoundDrv) (hcap : (initGeometry none d).capacity ≠ 0) :
    (initGeometry none d).geom.drvrcyl.toNat =
        (initGeometry none d).capacity / (d.id.heads.toNat * d.id.sectors.toNat) % 2 ^ 32 ∧
      (initGeometry none d).geom.drvrhd.toNat = d.id.heads.toNat ∧
      (initGeometry none d).geom.drvrsec.toNat = d.id.sectors.toNat := by
  have hheads := d.id.heads.isLt
  have hsectors := d.id.sectors.isLt
  have hgeom : (initGeometry none d).geom =
      ⟨BitVec.ofNat 32 ((initGeometry none d).capacity /
        (d.id.heads.setWidth 32 * d.id.sectors.setWidth 32).toNat),
        d.id.heads.setWidth 32, d.id.sectors.setWidth 32⟩ := if_pos hcap
  rw [hgeom, toNat_mul_words, BitVec.toNat_ofNat, BitVec.toNat_setWidth, BitVec.toNat_setWidth]
  exact ⟨rfl, by omega, by omega⟩

/-- The product of three words in an `int` is the product if and only if that has
    room in it. -/
theorem int32_product_iff {a b c : Nat} (ha : a ≤ 65535) (hb : b ≤ 65535) (hc : c ≤ 65535) :
    (0 ≤ int32 (int32 ((a : Int) * b) * c) ∧
      int32 (int32 ((a : Int) * b) * c) = a * b * c) ↔ a * b * c < 2 ^ 31 := by
  have hlt : a * b * c < 2 ^ 48 := by
    calc a * b * c ≤ 65535 * 65535 * 65535 := Nat.mul_le_mul (Nat.mul_le_mul ha hb) hc
      _ < 2 ^ 48 := by norm_num
  have hint : int32 (int32 ((a : Int) * b) * c) = int32 ((a * b * c : Nat) : Int) := by
    unfold int32
    rw [Int.bmod_mul_bmod]
    push_cast
    rfl
  have hcast : (a : Int) * b * c = ((a * b * c : Nat) : Int) := by
    push_cast
    rfl
  rw [hint, hcast]
  generalize a * b * c = n at hlt
  constructor
  · rintro ⟨-, heq⟩
    have hhi := Int.bmod_lt (x := (n : Int)) (m := 2 ^ 32) (by decide)
    unfold int32 at heq
    omega
  · intro hn
    rw [int32_of_bounds (by omega) (by omega)]
    exact ⟨by omega, rfl⟩

/-- 16 bits are the same in an `int`. -/
theorem toInt_of_le {x : BitVec 32} (h : x.toNat ≤ 65535) : x.toInt = x.toNat :=
  BitVec.toInt_eq_toNat_of_lt (by omega)

/-- The ioctl over a geometry of 16 bits in each field. -/
theorem getGeom_within_iff {r : InitDrv} (hcyl : r.geom.drvrcyl.toNat ≤ 65535)
    (hhd : r.geom.drvrhd.toNat ≤ 65535) (hsec : r.geom.drvrsec.toNat ≤ 65535)
    (hle : r.geom.drvrcyl.toNat * r.geom.drvrhd.toNat * r.geom.drvrsec.toNat ≤ r.capacity) :
    GeomWithin (getGeom r) r.capacity ↔
      r.geom.drvrcyl.toNat * r.geom.drvrhd.toNat * r.geom.drvrsec.toNat < 2 ^ 31 := by
  have hiff := int32_product_iff hcyl hhd hsec
  rw [← hiff, ← toInt_of_le hcyl, ← toInt_of_le hhd, ← toInt_of_le hsec]
  constructor
  · intro h
    exact ⟨h.nonneg, h.exact⟩
  · rintro ⟨hnonneg, hexact⟩
    refine ⟨hnonneg, hexact, ?_⟩
    have hcap : (getGeom r).cap = (r.geom.drvrcyl.toNat * r.geom.drvrhd.toNat *
        r.geom.drvrsec.toNat : Nat) := by
      push_cast
      rw [← toInt_of_le hcyl, ← toInt_of_le hhd, ← toInt_of_le hsec]
      exact hexact
    omega

/-- What is reported of a drive with LBA, without a property of the BIOS, is a
    geometry within the drive if and only if there is none of 2^31 sectors or more
    to report. -/
theorem reported_geometry_iff (w : DiskId) (env : InitEnv) (d : FoundDrv) (r : InitDrv)
    (b : DrvBlock) (hid : diskId w = some d.id) (hbios : env.bios = none)
    (hinit : initDrive env d = some (r, b)) (hlba : r.driveBits &&& atdhLba ≠ 0)
    (hcap : r.capacity ≠ 0) :
    GeomWithin (getGeom r) r.capacity ↔
      NoHuge r.capacity w.heads.toNat w.sectors.toNat := by
  rcases diskId_eq_some hid with ⟨hwords, -, -, -⟩
  rcases initDrive_eq_some hinit with ⟨-, hr⟩
  rw [hbios] at hr
  have hheads : w.heads = d.id.heads := by rw [hwords]
  have hsectors : w.sectors = d.id.sectors := by rw [hwords]
  rw [hheads, hsectors]
  have hcapacity : r.capacity = (initGeometry none d).capacity := by rw [hr]
  have hgeom : r.geom = fixLargeDiskGeometry r.driveBits (initGeometry none d).geom := by rw [hr]
  have hsmall := d.id.heads.isLt
  have hsmall' := d.id.sectors.isLt
  rcases initGeometry_geom d (hcapacity ▸ hcap) with ⟨hcyl, hhd, hsec⟩
  rw [← hcapacity] at hcyl
  have hfix := ((fix_large_disk_geometry r.driveBits (initGeometry none d).geom
    (by omega)).2 hlba).2
  rw [← hgeom] at hfix
  have hsec' : r.geom.drvrsec.toNat = d.id.sectors.toNat := by rw [hfix.sec_eq, hsec]
  have hprod := hfix.le
  rw [hcyl, hhd] at hprod
  -- the cylinders that the capacity has room for, before they were fixed
  have hle : r.geom.drvrcyl.toNat * r.geom.drvrhd.toNat * r.geom.drvrsec.toNat ≤ r.capacity := by
    rw [hsec']
    calc r.geom.drvrcyl.toNat * r.geom.drvrhd.toNat * d.id.sectors.toNat
        _ ≤ r.capacity / (d.id.heads.toNat * d.id.sectors.toNat) % 2 ^ 32 *
            d.id.heads.toNat * d.id.sectors.toNat := Nat.mul_le_mul_right _ hprod
        _ ≤ r.capacity / (d.id.heads.toNat * d.id.sectors.toNat) *
            (d.id.heads.toNat * d.id.sectors.toNat) := by
          rw [Nat.mul_assoc]
          exact Nat.mul_le_mul_right _ (Nat.mod_le _ _)
        _ ≤ r.capacity := Nat.div_mul_le_self _ _
  rw [getGeom_within_iff hfix.cyl_le hfix.hd_le (by omega) hle, hsec']
  constructor
  · -- what fits in the drive is not larger than what is reported
    intro hlt m k hm hk hfit
    rw [← hhd] at hk ⊢
    rw [← hcyl] at hfit
    exact lt_of_le_of_lt (Nat.mul_le_mul_right _ (hfix.largest hm hk hfit)) hlt
  · intro hno
    rcases hfix.fits with ⟨k, hk, hfit⟩
    rw [hhd] at hk
    rw [hcyl] at hfit
    rw [hk]
    exact hno _ k hfix.cyl_le (hk ▸ hfix.hd_le) hfit

/-- A drive of 2^32 sectors. -/
def twoTerabyteWords : DiskId :=
  { fixcyls := 16383, heads := 16, sectors := 63, validinfo := 7
    curcyls := 16383, curheads := 16, cursectrk := 63, cursccp := (0xfc10, 0xfb)
    addrsec := (0xffff, 0x0fff), majorversion := 0x7e
    cmdset83 := 0x0400, features86 := 0x0400, addrsecxt := #v[0, 0, 1, 0]
    config := 0x0040, mult1 := 0x8010, cap := 0x0b00 }

/-- One of 2^20 sectors. -/
def halfGigabyteWords : DiskId :=
  { twoTerabyteWords with addrsec := (0, 0x10), majorversion := 0x1e }

/-- There are no properties, and the drive takes its commands. -/
def plainEnv : InitEnv := ⟨none, none, 16, true, true⟩

/-- The `int` of the larger drive is negative. -/
theorem reported_geometry_wraps :
    ¬ (∀ (w : DiskId) (env : InitEnv) (d : FoundDrv) (r : InitDrv) (b : DrvBlock),
      diskId w = some d.id → env.bios = none → initDrive env d = some (r, b) →
      r.driveBits &&& atdhLba ≠ 0 → r.capacity ≠ 0 → r.capacity < 2 ^ 48 →
      GeomWithin (getGeom r) r.capacity) ∧
    (initDrive plainEnv ⟨false, 0, twoTerabyteWords⟩).map
      (fun p => (p.1.capacity, (getGeom p.1).cap)) = some (2 ^ 32, -16384) := by
  have hrun : (initDrive plainEnv ⟨false, 0, twoTerabyteWords⟩).map
      (fun p => (p.1.capacity, (getGeom p.1).cap)) = some (2 ^ 32, -16384) := by decide
  refine ⟨fun hall => ?_, hrun⟩
  rcases Option.map_eq_some_iff.mp hrun with ⟨⟨r, b⟩, hinit, hval⟩
  have hcap : r.capacity = 2 ^ 32 := congrArg Prod.fst hval
  have hneg : (getGeom r).cap = -16384 := congrArg Prod.snd hval
  have hlba : r.driveBits &&& atdhLba ≠ 0 := by
    rw [(initDrive_eq_some hinit).2]
    decide
  have := (hall twoTerabyteWords plainEnv ⟨false, 0, twoTerabyteWords⟩ r b rfl rfl hinit hlba
    (by omega) (by omega)).nonneg
  omega

theorem reported_geometry_iff_halfGigabyte :
    ∃ r b, initDrive plainEnv ⟨true, 0, halfGigabyteWords⟩ = some (r, b) ∧
      (GeomWithin (getGeom r) r.capacity ↔ NoHuge r.capacity 16 63) :=
  ⟨_, _, rfl, reported_geometry_iff halfGigabyteWords plainEnv ⟨true, 0, halfGigabyteWords⟩ _ _
    rfl rfl rfl (by decide) (by decide)⟩

/-! ## The geometry of ATA-6 -/

/-- The drive has 48-bit addresses, and uses them. -/
def AtaId.Enabled48 (id : AtaId) : Prop :=
  id.Ata6 ∧ id.cmdset83.getLsbD 10 = true ∧ id.features86.getLsbD 10 = true

/-- The words for the geometry mean nothing. -/
def AtaId.NoGeometry (id : AtaId) : Prop :=
  id.heads = 0xffff ∨ id.sectors = 0xffff ∨ id.fixcyls = 0

/-- The driver uses the geometry of `ata_fixup_ata6_geometry`, and tells it to the
    drive. -/
structure Standard (r : InitDrv) : Prop where
  phhd : r.phhd = 16
  phsec : r.phsec = 63
  drvrhd : r.geom.drvrhd = 16
  drvrsec : r.geom.drvrsec = 63
  parms : r.devParms = (63, 15)

/-- A drive of version 6 knows LBA. -/
theorem AtaId.Ata6.lba {id : DiskId} (h : id.Ata6) : testLbaSupport id = true := by
  have hge : 2 ^ 6 ≤ id.majorversion.toNat := Nat.ge_two_pow_of_testBit h.2
  unfold testLbaSupport
  exact if_pos ⟨h.1, by omega⟩

theorem ulong_int32_eq_zero {n : Nat} (h : n < 2 ^ 32) : ulong (int32 n) = 0 ↔ n = 0 := by
  unfold ulong int32
  rw [Int.bmod_def]
  omega

/-- The capacity of a drive with LBA is 0 if words 60 and 61 are. -/
theorem capacity_ne_zero_iff {d : CapDrv} (hlba : d.Lba) :
    (getCapacity d).2.1 ≠ 0 ↔ d.id.addrsec ≠ (0, 0) := by
  have heq := congrArg Prod.snd (getCapacity_eq d)
  have h28 := calculate28bits_eq d
  rw [if_pos hlba] at h28
  have hzero : calculate28bitsCapacity d = 0 ↔ d.id.addrsec = (0, 0) := by
    rw [h28, ulong_int32_eq_zero (twoWords_lt _), Prod.ext_iff]
    have h1 := BitVec.toNat_inj (x := d.id.addrsec.1) (y := 0)
    have h2 := BitVec.toNat_inj (x := d.id.addrsec.2) (y := 0)
    rw [← h1, ← h2]
    change _ ↔ d.id.addrsec.1.toNat = 0 ∧ d.id.addrsec.2.toNat = 0
    omega
  dsimp only at heq
  rw [heq]
  split
  · -- only the largest capacity of 28 bits is given up for one of 48
    rename_i hcond
    have hmax : calculate28bitsCapacity d ≠ 0 := by
      rw [hcond.2]
      decide
    have hbig := hcond.1.2.2.2
    exact ⟨fun _ h0 => hmax (hzero.mpr h0), fun _ h0 => by omega⟩
  · exact not_congr hzero

theorem initGeometry_capacity {d : FoundDrv} (hlba : testLbaSupport d.id = true)
    (bios : Option Chs) :
    (initGeometry bios d).capacity ≠ 0 ↔ d.id.addrsec ≠ (0, 0) := by
  have hcap : (initGeometry bios d).capacity =
      (getCapacity ⟨d.driveBits ||| atdhLba, d.id.toAtaId⟩).2.1 := by
    simp only [initGeometry, hlba, if_true]
  rw [hcap]
  refine capacity_ne_zero_iff (d := ⟨d.driveBits ||| atdhLba, d.id.toAtaId⟩) ?_
  -- the bit is set whatever the others are
  intro h0
  have hbit := congrArg (fun v => v.getLsbD 6) h0
  simp [atdhLba] at hbit

/-- For a drive with 48-bit addresses, and without a property of the BIOS, the driver
    uses the standard geometry if and only if the words of the drive say so, and it
    has a capacity. Whether the words mean something makes no difference. -/
theorem ata6_geometry_iff (w : DiskId) (d : FoundDrv) (hid : diskId w = some d.id)
    (h48 : w.Enabled48) :
    Standard (initGeometry none d) ↔
      w.heads = 16 ∧ w.sectors = 63 ∧ w.addrsec ≠ (0, 0) := by
  rcases diskId_eq_some hid with ⟨hwords, -, -, -⟩
  have hlba : testLbaSupport d.id = true := by
    refine AtaId.Ata6.lba ?_
    rw [hwords]
    exact h48.1
  rw [← hwords]
  have hcap := initGeometry_capacity hlba none
  have hgeom : (initGeometry none d).geom =
      if (initGeometry none d).capacity ≠ 0 then
        ⟨BitVec.ofNat 32 ((initGeometry none d).capacity /
          (d.id.heads.setWidth 32 * d.id.sectors.setWidth 32).toNat),
          d.id.heads.setWidth 32, d.id.sectors.setWidth 32⟩
      else ⟨1025, 1, 1⟩ := rfl
  constructor
  · intro h
    refine ⟨h.phhd, h.phsec, hcap.mp fun h0 => ?_⟩
    -- without a capacity there is one head
    have hhd := h.drvrhd
    rw [hgeom, if_neg (not_not.mpr h0)] at hhd
    exact absurd hhd (by decide)
  · rintro ⟨hheads, hsectors, hsec⟩
    rw [if_pos (hcap.mpr hsec), hheads, hsectors] at hgeom
    refine ⟨hheads, hsectors, by rw [hgeom]; rfl, by rw [hgeom]; rfl, ?_⟩
    have hparms : (initGeometry none d).devParms =
        (d.id.sectors.setWidth 8, (d.id.heads - 1).setWidth 8) := rfl
    rw [hparms, hheads, hsectors]
    rfl

/-- A drive that says nothing of its geometry. -/
def noGeometryWords : DiskId :=
  { twoTerabyteWords with heads := 0xffff, sectors := 0xffff, fixcyls := 0xffff }

/-- The driver takes it by its word, although the words have been replaced when it
    is done. -/
theorem ata6_geometry_ignored :
    ¬ (∀ (w : DiskId) (d : FoundDrv), diskId w = some d.id → w.Enabled48 → w.NoGeometry →
      Standard (initGeometry none d)) ∧
    (initGeometry none ⟨false, 0, noGeometryWords⟩).phhd = 0xffff ∧
    (initGeometry none ⟨false, 0, noGeometryWords⟩).phsec = 0xffff ∧
    (initGeometry none ⟨false, 0, noGeometryWords⟩).id.heads = 16 ∧
    (initGeometry none ⟨false, 0, noGeometryWords⟩).id.sectors = 63 := by
  refine ⟨fun hall => ?_, by decide, by decide, by decide, by decide⟩
  have := (hall noGeometryWords ⟨false, 0, noGeometryWords⟩ rfl (by unfold AtaId.Enabled48; decide)
    (by unfold AtaId.NoGeometry; decide)).phhd
  exact absurd this (by decide)

/-- The words of the geometry say what is in their place, but for the cylinders. -/
def noCylindersWords : DiskId :=
  { twoTerabyteWords with fixcyls := 0 }

theorem ata6_geometry_iff_noCylinders :
    Standard (initGeometry none ⟨false, 0, noCylindersWords⟩) ↔
      noCylindersWords.heads = 16 ∧ noCylindersWords.sectors = 63 ∧
        noCylindersWords.addrsec ≠ (0, 0) :=
  ata6_geometry_iff noCylindersWords ⟨false, 0, noCylindersWords⟩ rfl
    (by unfold AtaId.Enabled48; decide)

/-! ## The way of addressing -/

/-- The ways to put the number of a sector in the task file. -/
inductive AddrMode where
  | chs
  | lba28
  | lba48
  deriving DecidableEq

/-- The way that `ata_disk_start_common` chooses. -/
def InitDrv.startMode (r : InitDrv) : AddrMode :=
  if r.driveBits &&& atdhLba = 0 then .chs
  else if r.ext48 then .lba48
  else .lba28

/-- The way that `ata_disk_get_resid` chooses. -/
def InitDrv.residMode (r : InitDrv) : AddrMode :=
  if r.ext48 then .lba48
  else if r.driveBits &&& atdhLba ≠ 0 then .lba28
  else .chs

/-- The ways of addressing go together: 48-bit addresses with LBA, and reading with
    writing. A drive without LBA has heads and sectors to divide by, which
    `ata_disk_load_regs_chs` keeps in a `uchar_t`. -/
structure ModesOk (r : InitDrv) : Prop where
  ext48_lba : r.ext48 = true → r.driveBits &&& atdhLba ≠ 0
  same : r.residMode = r.startMode
  heads : r.startMode = .chs → (r.phhd.setWidth 8 : BitVec 8) ≠ 0
  sectors : r.startMode = .chs → (r.phsec.setWidth 8 : BitVec 8) ≠ 0

theorem getCapacity_ext48 {d : CapDrv} (h : (getCapacity d).1 = adExt48) : d.id.Ata6 := by
  have heq := congrArg Prod.fst (getCapacity_eq d)
  dsimp only at heq
  rw [h] at heq
  split at heq
  · rename_i hcond
    exact hcond.1.1
  · exact absurd (show adExt48 = 0 from heq) (by decide)

/-- A drive with 48-bit addresses has LBA. -/
theorem initGeometry_ext48 {d : FoundDrv} (hlun : d.lun = 0) {bios : Option Chs}
    (h : (initGeometry bios d).ext48 = true) :
    (initGeometry bios d).driveBits &&& atdhLba ≠ 0 := by
  rw [initGeometry_lba hlun]
  exact (getCapacity_ext48 (beq_iff_eq.mp h)).lba

/-- As the drives are that `DrvAddr` is about. -/
def InitDrv.addr (r : InitDrv) (targ1 : Bool) (h : ModesOk r) : DrvAddr where
  targ1 := targ1
  lba := r.driveBits &&& atdhLba ≠ 0
  ext48 := r.ext48
  phhd := r.phhd
  phsec := r.phsec
  ext48_lba := fun hext => decide_eq_true (h.ext48_lba hext)

/-- The sector that failed is read in the way that was chosen for it. -/
theorem InitDrv.lastBlock_addr (r : InitDrv) (targ1 : Bool) (h : ModesOk r) (tf : TaskFile) :
    (r.addr targ1 h).lastBlock tf =
      match r.startMode with
      | .chs => lastBlockChs (r.addr targ1 h) tf
      | .lba28 => lastBlockLba28 tf
      | .lba48 => lastBlockLba48 tf := by
  rw [← h.same]
  unfold DrvAddr.lastBlock InitDrv.residMode InitDrv.addr
  dsimp only
  by_cases hext : r.ext48 = true
  · rw [if_pos hext, if_pos hext]
  rw [if_neg hext, if_neg hext]
  by_cases hlba : r.driveBits &&& atdhLba ≠ 0
  · rw [if_pos hlba, if_pos (decide_eq_true hlba)]
  · rw [if_neg hlba, if_neg (by rw [decide_eq_true_eq]; exact hlba)]

/-- The two choices are one if 48-bit addresses come with LBA. -/
theorem InitDrv.residMode_eq {r : InitDrv} (h48 : r.ext48 = true → r.driveBits &&& atdhLba ≠ 0) :
    r.residMode = r.startMode := by
  unfold InitDrv.residMode InitDrv.startMode
  by_cases h : r.ext48 = true
  · rw [if_pos h, if_neg (h48 h), if_pos h]
  · rw [if_neg h, if_neg h, ite_not]

theorem InitDrv.startMode_chs_iff (r : InitDrv) :
    r.startMode = .chs ↔ r.driveBits &&& atdhLba = 0 := by
  unfold InitDrv.startMode
  by_cases h : r.driveBits &&& atdhLba = 0
  · rw [if_pos h]
    exact iff_of_true rfl h
  · rw [if_neg h]
    refine iff_of_false (fun hmode => ?_) h
    split at hmode
    · cases hmode
    · cases hmode

/-- A word that is kept in a `uchar_t`. -/
theorem setWidth_byte_ne_zero (v : BitVec 16) :
    (v.setWidth 8 : BitVec 8) ≠ 0 ↔ v.toNat % 256 ≠ 0 := by
  rw [ne_eq, ← BitVec.toNat_inj, BitVec.toNat_setWidth]
  rfl

/-- The addressing of a drive that was accepted and initialised is right if and only
    if it supports LBA, or neither its heads nor its sectors are a multiple of
    256. -/
theorem modes_ok_iff (w : DiskId) (env : InitEnv) (d : FoundDrv) (r : InitDrv) (b : DrvBlock)
    (hid : diskId w = some d.id) (hinit : initDrive env d = some (r, b)) :
    ModesOk r ↔ testLbaSupport w = true ∨
      (w.heads.toNat % 256 ≠ 0 ∧ w.sectors.toNat % 256 ≠ 0) := by
  rcases diskId_eq_some hid with ⟨hwords, hcap, -, -⟩
  rcases initDrive_eq_some hinit with ⟨hlun, hr⟩
  have hsupport : testLbaSupport w = testLbaSupport d.id := by
    unfold testLbaSupport
    rw [hwords, hcap]
  have hlba := initGeometry_lba hlun env.bios
  have hbits : r.driveBits = (initGeometry env.bios d).driveBits := by rw [hr]
  have hext : r.ext48 = (initGeometry env.bios d).ext48 := by rw [hr]
  have hphhd : r.phhd = w.heads := by
    rw [hr, ← hwords]
    rfl
  have hphsec : r.phsec = w.sectors := by
    rw [hr, ← hwords]
    rfl
  have h48 : r.ext48 = true → r.driveBits &&& atdhLba ≠ 0 := by
    intro h
    rw [hbits]
    exact initGeometry_ext48 hlun (hext ▸ h)
  have hchs : r.startMode = .chs ↔ testLbaSupport w ≠ true := by
    rw [hsupport, ne_eq, ← hlba, ← hbits, not_not]
    exact r.startMode_chs_iff
  constructor
  · intro h
    by_cases hl : testLbaSupport w = true
    · exact Or.inl hl
    · have hheads := h.heads (hchs.mpr hl)
      have hsectors := h.sectors (hchs.mpr hl)
      rw [hphhd, setWidth_byte_ne_zero] at hheads
      rw [hphsec, setWidth_byte_ne_zero] at hsectors
      exact Or.inr ⟨hheads, hsectors⟩
  · intro h
    refine ⟨h48, InitDrv.residMode_eq h48, fun hmode => ?_, fun hmode => ?_⟩
    · rw [hphhd, setWidth_byte_ne_zero]
      exact (h.resolve_left (hchs.mp hmode)).1
    · rw [hphsec, setWidth_byte_ne_zero]
      exact (h.resolve_left (hchs.mp hmode)).2

/-- An old drive without LBA, with 256 heads. -/
def manyHeadsWords : DiskId :=
  { fixcyls := 100, heads := 256, sectors := 63, validinfo := 0
    curcyls := 0, curheads := 0, cursectrk := 0, cursccp := (0, 0)
    addrsec := (0, 0), majorversion := 0
    cmdset83 := 0, features86 := 0, addrsecxt := Vector.replicate 4 0
    config := 0x0040, mult1 := 0, cap := 0 }

/-- The same with 16 heads. -/
def oldWords : DiskId :=
  { manyHeadsWords with heads := 16 }

/-- The driver divides by 0 for it. -/
theorem modes_divide_by_zero :
    ¬ (∀ (w : DiskId) (env : InitEnv) (d : FoundDrv) (r : InitDrv) (b : DrvBlock),
      diskId w = some d.id → initDrive env d = some (r, b) → ModesOk r) ∧
    (initDrive plainEnv ⟨false, 0, manyHeadsWords⟩).map
      (fun p => (p.1.startMode, (p.1.phhd.setWidth 8 : BitVec 8))) = some (.chs, 0) := by
  have hrun : (initDrive plainEnv ⟨false, 0, manyHeadsWords⟩).map
      (fun p => (p.1.startMode, (p.1.phhd.setWidth 8 : BitVec 8))) = some (.chs, 0) := by decide
  refine ⟨fun hall => ?_, hrun⟩
  rcases Option.map_eq_some_iff.mp hrun with ⟨⟨r, b⟩, hinit, hval⟩
  exact (hall manyHeadsWords plainEnv ⟨false, 0, manyHeadsWords⟩ r b rfl hinit).heads
    (congrArg Prod.fst hval) (congrArg Prod.snd hval)

theorem modes_ok_iff_old :
    ∃ r b, initDrive plainEnv ⟨false, 0, oldWords⟩ = some (r, b) ∧
      (ModesOk r ↔ testLbaSupport oldWords = true ∨ (16 % 256 ≠ 0 ∧ 63 % 256 ≠ 0)) :=
  ⟨_, _, rfl, modes_ok_iff oldWords plainEnv ⟨false, 0, oldWords⟩ _ _ rfl rfl⟩

end Ata

end Sil3112
