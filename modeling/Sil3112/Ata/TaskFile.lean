import Mathlib.Data.Nat.Bitwise
import Sil3112.Ghd.Dma

/-!
# The Task File

How `ata_disk.c` puts the first sector of a command into the registers of a
drive, and how it reads the sector that failed out of them. There are three
formats. With 28 bits the top four share a register with the bits that select
the drive. With 48 bits each register is written twice. The drive keeps the two
values, and `ATDC_HOB` says which one is read. The third format is a cylinder, a
head and a sector, which counts from 1.

Sectors are a `daddr_t` of 64 bits, and the routines put them into a `uint_t`
first. With 48 bits the sector is shifted before that, and the upper half is not
lost.

## Main definitions

* `TaskFile`: The registers, each with its last two values.
* `DrvAddr`: How a drive is addressed.
* `loadRegsLba28`, `loadRegsLba48`, `loadRegsChs`: `ata_disk_load_regs_*`
* `lastBlockLba28`, `lastBlockLba48`, `lastBlockChs`: `ata_last_block_xferred_*`

## Theorems

* `lastBlock_lba28`, `lastBlock_lba48`, `lastBlock_chs`: One format each.
* `task_file_roundtrip`: All of them, with the bits that select the drive.
-/

namespace Sil3112

namespace Ata

open Ghd

/-! ## The registers -/

/-- A register of 8 bits with its value before the last write. -/
structure TwoDeep where
  cur : BitVec 8
  prev : BitVec 8

/-- What `ddi_put8` writes, of which only 8 bits count. -/
def TwoDeep.put (r : TwoDeep) (v : Nat) : TwoDeep :=
  ⟨BitVec.ofNat 8 v, r.cur⟩

/-- The registers that hold an address, and whether `ATDC_HOB` is set. -/
structure TaskFile where
  count : TwoDeep
  sect : TwoDeep
  lcyl : TwoDeep
  hcyl : TwoDeep
  drvhd : BitVec 8
  hob : Bool

namespace TaskFile

/-- What `ddi_get8` reads of a register. -/
def get (tf : TaskFile) (r : TwoDeep) : Nat :=
  if tf.hob then r.prev.toNat else r.cur.toNat

-- A write to any register of the command block clears `ATDC_HOB`.
def putCount (tf : TaskFile) (v : Nat) : TaskFile :=
  { tf with count := tf.count.put v, hob := false }

def putSect (tf : TaskFile) (v : Nat) : TaskFile :=
  { tf with sect := tf.sect.put v, hob := false }

def putLcyl (tf : TaskFile) (v : Nat) : TaskFile :=
  { tf with lcyl := tf.lcyl.put v, hob := false }

def putHcyl (tf : TaskFile) (v : Nat) : TaskFile :=
  { tf with hcyl := tf.hcyl.put v, hob := false }

def putDrvhd (tf : TaskFile) (v : Nat) : TaskFile :=
  { tf with drvhd := BitVec.ofNat 8 v, hob := false }

/-- A write to `ac_devctl`, with or without `ATDC_HOB`. -/
def putDevctl (tf : TaskFile) (hob : Bool) : TaskFile :=
  { tf with hob := hob }

end TaskFile

/-- `ATDH_DRIVE0` -/
def atdhDrive0 : BitVec 8 := 0xa0

/-- `ATDH_DRIVE1` -/
def atdhDrive1 : BitVec 8 := 0xb0

/-- `ATDH_LBA` -/
def atdhLba : BitVec 8 := 0x40

/-- How a drive is addressed: its target, whether it knows sectors with 28 and
    with 48 bits, `ad_phhd` and `ad_phsec`. A drive with 48 bits is one of
    version 6, and these all know 28. -/
structure DrvAddr where
  targ1 : Bool
  lba : Bool
  ext48 : Bool
  phhd : BitVec 16
  phsec : BitVec 16
  ext48_lba : ext48 = true → lba = true

/-- `ad_drive_bits` -/
def DrvAddr.driveBits (drv : DrvAddr) : BitVec 8 :=
  (if drv.targ1 then atdhDrive1 else atdhDrive0) ||| (if drv.lba then atdhLba else 0)

/-! ## Loading -/

/-- `ata_disk_load_regs_lba28` -/
def loadRegsLba28 (drv : DrvAddr) (startsec : Int) (count : Nat) (tf : TaskFile) : TaskFile :=
  let lba := uint startsec
  let tf := tf.putCount count
  let tf := tf.putSect lba
  let lba := lba >>> 8
  let tf := tf.putLcyl lba
  let lba := lba >>> 8
  let tf := tf.putHcyl lba
  let lba := lba >>> 8
  tf.putDrvhd ((lba &&& 0xf) ||| drv.driveBits.toNat)

/-- `ata_disk_load_regs_lba48` -/
def loadRegsLba48 (drv : DrvAddr) (startsec : Int) (count : Nat) (tf : TaskFile) : TaskFile :=
  let lbalow := uint startsec
  let lbahi := uint (startsec >>> (24 : Nat))
  let tf := tf.putCount (count >>> 8)
  let tf := tf.putCount count
  -- the high-order half first
  let tf := tf.putSect lbahi
  let lbahi := lbahi >>> 8
  let tf := tf.putLcyl lbahi
  let lbahi := lbahi >>> 8
  let tf := tf.putHcyl lbahi
  let tf := tf.putSect lbalow
  let lbalow := lbalow >>> 8
  let tf := tf.putLcyl lbalow
  let lbalow := lbalow >>> 8
  let tf := tf.putHcyl lbalow
  tf.putDrvhd drv.driveBits.toNat

/-- `ata_disk_load_regs_chs`. `drvheads` and `drvsectors` are a `uchar_t`. -/
def loadRegsChs (drv : DrvAddr) (startsec : Int) (count : Nat) (tf : TaskFile) : TaskFile :=
  let drvheads : Nat := drv.phhd.toNat % 2 ^ 8
  let drvsectors : Nat := drv.phsec.toNat % 2 ^ 8
  let resid := uint (startsec.tdiv drvsectors)
  let head := resid % drvheads &&& 0xf
  let cyl := resid / drvheads
  let tf := tf.putSect (uint (startsec.tmod drvsectors + 1))
  let tf := tf.putCount count
  let tf := tf.putHcyl (cyl >>> 8)
  let tf := tf.putLcyl cyl
  tf.putDrvhd (drv.driveBits.toNat ||| head)

/-! ## Reading -/

/-- `ata_last_block_xferred_lba28` -/
def lastBlockLba28 (tf : TaskFile) : Nat :=
  let lbastop := tf.drvhd.toNat &&& 0xf
  let lbastop := (lbastop <<< 8) + tf.get tf.hcyl
  let lbastop := (lbastop <<< 8) + tf.get tf.lcyl
  (lbastop <<< 8) + tf.get tf.sect

/-- `ata_last_block_xferred_lba48` -/
def lastBlockLba48 (tf : TaskFile) : Nat :=
  let tf := tf.putDevctl true
  let lbastop := tf.get tf.hcyl
  let lbastop := (lbastop <<< 8) + tf.get tf.lcyl
  let lbastop := (lbastop <<< 8) + tf.get tf.sect
  let lbastop := lbastop <<< 8
  let tf := tf.putDevctl false
  let lbastop := lbastop + tf.get tf.hcyl
  let lbastop := (lbastop <<< 8) + tf.get tf.lcyl
  (lbastop <<< 8) + tf.get tf.sect

/-- `ata_last_block_xferred_chs` -/
def lastBlockChs (drv : DrvAddr) (tf : TaskFile) : Nat :=
  let drvheads : Nat := drv.phhd.toNat % 2 ^ 8
  let drvsectors : Nat := drv.phsec.toNat % 2 ^ 8
  let sector := tf.get tf.sect
  let head := tf.drvhd.toNat &&& 0xf
  let lbastop := tf.get tf.lcyl ||| tf.get tf.hcyl <<< 8
  (lbastop * drvheads + head) * drvsectors + uint (sector - 1)

/-! ## Round trips -/

theorem toNat_ofNat_eight (v : Nat) : (BitVec.ofNat 8 v).toNat = v % 256 :=
  BitVec.toNat_ofNat v 8

theorem and_fifteen (x : Nat) : x &&& 0xf = x % 16 :=
  Nat.and_two_pow_sub_one_eq_mod x 4

theorem shiftLeft_eight (x : Nat) : x <<< 8 = x * 256 :=
  Nat.shiftLeft_eq x 8

theorem shiftRight_eight (x : Nat) : x >>> 8 = x / 256 :=
  Nat.shiftRight_eq_div_pow x 8

/-- The lower half of the device/head register is what was put there, and the
    upper half is that of `ad_drive_bits`. -/
theorem DrvAddr.drvhd_split (drv : DrvAddr) (h : Fin 16) :
    (BitVec.ofNat 8 (h.val ||| drv.driveBits.toNat)).toNat % 16 = h ∧
      BitVec.ofNat 8 (h.val ||| drv.driveBits.toNat) &&& 0xf0 = drv.driveBits := by
  unfold DrvAddr.driveBits
  generalize drv.targ1 = targ1
  generalize drv.lba = lba
  revert h
  cases targ1 <;> cases lba <;> decide

theorem DrvAddr.drvhd_lower (drv : DrvAddr) {h : Nat} (hh : h < 16) :
    (BitVec.ofNat 8 (h ||| drv.driveBits.toNat)).toNat % 16 = h :=
  (drv.drvhd_split ⟨h, hh⟩).1

theorem DrvAddr.drvhd_upper (drv : DrvAddr) {h : Nat} (hh : h < 16) :
    BitVec.ofNat 8 (h ||| drv.driveBits.toNat) &&& 0xf0 = drv.driveBits :=
  (drv.drvhd_split ⟨h, hh⟩).2

/-- 28 bits in four bytes, of which the last has only four bits. -/
theorem lastBlock_lba28 (drv : DrvAddr) {s : Int} (h0 : 0 ≤ s) (h : s < 2 ^ 28) (count : Nat)
    (tf : TaskFile) : (lastBlockLba28 (loadRegsLba28 drv s count tf) : Int) = s := by
  obtain ⟨n, rfl⟩ := Int.eq_ofNat_of_zero_le h0
  have hn : n < 2 ^ 28 := by omega
  have hu : uint (n : Int) = n := uint_of_lt (by omega)
  simp only [loadRegsLba28, lastBlockLba28, TaskFile.putDrvhd, TaskFile.putHcyl,
    TaskFile.putLcyl, TaskFile.putSect, TaskFile.putCount, TwoDeep.put, TaskFile.get, hu,
    Bool.false_eq_true, if_false, and_fifteen, shiftLeft_eight, shiftRight_eight,
    toNat_ofNat_eight]
  -- the bits of the drive are off the lower half
  rw [← toNat_ofNat_eight, drv.drvhd_lower (Nat.mod_lt _ (by decide))]
  omega

/-- 48 bits in six bytes, two in each register. -/
theorem lastBlock_lba48 (drv : DrvAddr) {s : Int} (h0 : 0 ≤ s) (h : s < 2 ^ 48) (count : Nat)
    (tf : TaskFile) : (lastBlockLba48 (loadRegsLba48 drv s count tf) : Int) = s := by
  obtain ⟨n, rfl⟩ := Int.eq_ofNat_of_zero_le h0
  have hn : n < 2 ^ 48 := by omega
  have hlow : uint (n : Int) = n % 2 ^ 32 := by
    unfold uint
    omega
  -- the high half is taken from the sector before it is reduced to 32 bits
  have hhi : uint ((n : Int) >>> (24 : Nat)) = n / 2 ^ 24 := by
    rw [Int.shiftRight_eq_div_pow]
    unfold uint
    omega
  simp only [loadRegsLba48, lastBlockLba48, TaskFile.putDrvhd, TaskFile.putHcyl,
    TaskFile.putLcyl, TaskFile.putSect, TaskFile.putCount, TaskFile.putDevctl, TwoDeep.put,
    TaskFile.get, hlow, hhi, Bool.false_eq_true, if_false, if_true, shiftLeft_eight,
    shiftRight_eight, toNat_ofNat_eight]
  omega

/-- The two halves of a cylinder. -/
theorem cyl_halves {cyl : Nat} (h : cyl < 65536) : cyl % 256 ||| (cyl / 256 % 256) <<< 8 = cyl := by
  rw [Nat.lor_comm, ← Nat.shiftLeft_add_eq_or_of_lt (Nat.mod_lt _ (by decide)), shiftLeft_eight]
  omega

/-- Head and sector of a block make up the block again. -/
theorem chs_join (n heads secs : Nat) :
    (n / secs / heads * heads + n / secs % heads) * secs + n % secs = n := by
  rw [Nat.div_add_mod', Nat.div_add_mod']

/-- A cylinder, a head and a sector. -/
theorem lastBlock_chs (drv : DrvAddr) (hh : 1 ≤ drv.phhd.toNat ∧ drv.phhd.toNat ≤ 16)
    (hs : 1 ≤ drv.phsec.toNat ∧ drv.phsec.toNat ≤ 255) {s : Int} (h0 : 0 ≤ s)
    (h : s < drv.phhd.toNat * drv.phsec.toNat * 65536) (count : Nat) (tf : TaskFile) :
    (lastBlockChs drv (loadRegsChs drv s count tf) : Int) = s := by
  obtain ⟨n, rfl⟩ := Int.eq_ofNat_of_zero_le h0
  -- heads and sectors fit the `uchar_t` that they are copied to
  have hheads : drv.phhd.toNat % 2 ^ 8 = drv.phhd.toNat := Nat.mod_eq_of_lt (by omega)
  have hsecs : drv.phsec.toNat % 2 ^ 8 = drv.phsec.toNat := Nat.mod_eq_of_lt (by omega)
  simp only [loadRegsChs, lastBlockChs, TaskFile.putDrvhd, TaskFile.putHcyl, TaskFile.putLcyl,
    TaskFile.putSect, TaskFile.putCount, TwoDeep.put, TaskFile.get, hheads, hsecs,
    Bool.false_eq_true, if_false]
  generalize drv.phhd.toNat = heads at hh h ⊢
  generalize drv.phsec.toNat = secs at hs h ⊢
  -- the sector is in range, so the cylinder fits its two registers
  have htrack : n / secs < heads * 65536 := by
    rw [Nat.div_lt_iff_lt_mul (by omega)]
    have : (n : Int) < ((heads * 65536 * secs : Nat) : Int) := by
      push_cast
      rw [mul_right_comm]
      exact h
    omega
  have hcyl : n / secs / heads < 65536 := by
    rw [Nat.div_lt_iff_lt_mul (by omega), mul_comm]
    exact htrack
  have hhead : n / secs % heads < heads := Nat.mod_lt _ (by omega)
  have hsect : n % secs < secs := Nat.mod_lt _ (by omega)
  -- on a non-negative sector the divisions of C are those of `Nat`
  have hdiv : uint ((n : Int).tdiv secs) = n / secs := by
    rw [← Int.ofNat_tdiv]
    exact uint_of_lt (by omega)
  have hmod : uint ((n : Int).tmod secs + 1) = n % secs + 1 := by
    have hcast : (n : Int).tmod secs + 1 = (n % secs + 1 : Nat) := by
      rw [← Int.ofNat_tmod]
      omega
    rw [hcast]
    exact uint_of_lt (by omega)
  have hone : uint (((n % secs + 1 : Nat) : Int) - 1) = n % secs := by
    rw [show ((n % secs + 1 : Nat) : Int) - 1 = (n % secs : Nat) by omega]
    exact uint_of_lt (by omega)
  rw [hdiv, hmod, and_fifteen, and_fifteen, Nat.mod_eq_of_lt (by omega : n / secs % heads < 16),
    Nat.lor_comm drv.driveBits.toNat, drv.drvhd_lower (by omega), toNat_ofNat_eight,
    toNat_ofNat_eight, toNat_ofNat_eight, shiftRight_eight, cyl_halves hcyl,
    Nat.mod_eq_of_lt (by omega : n % secs + 1 < 256), hone, chs_join]

/-- What a routine loads, the matching routine reads, and the device/head
    register has the bits of `ad_drive_bits` in its upper half. -/
theorem task_file_roundtrip (drv : DrvAddr) (s : Int) (h0 : 0 ≤ s) (count : Nat) (tf : TaskFile) :
    (s < 2 ^ 28 → (lastBlockLba28 (loadRegsLba28 drv s count tf) : Int) = s) ∧
    (s < 2 ^ 48 → (lastBlockLba48 (loadRegsLba48 drv s count tf) : Int) = s) ∧
    (1 ≤ drv.phhd.toNat → drv.phhd.toNat ≤ 16 → 1 ≤ drv.phsec.toNat → drv.phsec.toNat ≤ 255 →
      s < drv.phhd.toNat * drv.phsec.toNat * 65536 →
      (lastBlockChs drv (loadRegsChs drv s count tf) : Int) = s) ∧
    (loadRegsLba28 drv s count tf).drvhd &&& 0xf0 = drv.driveBits ∧
    (loadRegsLba48 drv s count tf).drvhd &&& 0xf0 = drv.driveBits ∧
    (loadRegsChs drv s count tf).drvhd &&& 0xf0 = drv.driveBits := by
  refine ⟨fun h => lastBlock_lba28 drv h0 h count tf, fun h => lastBlock_lba48 drv h0 h count tf,
    fun h1 h2 h3 h4 h => lastBlock_chs drv ⟨h1, h2⟩ ⟨h3, h4⟩ h0 h count tf, ?_, ?_, ?_⟩
  · simp only [loadRegsLba28, TaskFile.putDrvhd, and_fifteen]
    exact drv.drvhd_upper (Nat.mod_lt _ (by decide))
  · have := drv.drvhd_upper (h := 0) (by decide)
    rwa [Nat.zero_or] at this
  · simp only [loadRegsChs, TaskFile.putDrvhd, and_fifteen]
    rw [Nat.lor_comm]
    exact drv.drvhd_upper (Nat.mod_lt _ (by decide))

/-- A drive with 16 heads of 63 sectors. -/
def chsDrive : DrvAddr where
  targ1 := true
  lba := false
  ext48 := false
  phhd := 16
  phsec := 63
  ext48_lba := fun h => absurd h (by decide)

/-- Registers before the first command. -/
def resetRegs : TaskFile where
  count := ⟨1, 0⟩
  sect := ⟨1, 0⟩
  lcyl := ⟨0, 0⟩
  hcyl := ⟨0, 0⟩
  drvhd := 0
  hob := true

theorem task_file_roundtrip_chs :
    (lastBlockChs chsDrive (loadRegsChs chsDrive 1000000 8 resetRegs) : Int) = 1000000 ∧
      (lastBlockLba28 (loadRegsLba28 chsDrive 1000000 8 resetRegs) : Int) = 1000000 ∧
      (lastBlockLba48 (loadRegsLba48 chsDrive 1000000 8 resetRegs) : Int) = 1000000 := by
  have h := task_file_roundtrip chsDrive 1000000 (by decide) 8 resetRegs
  exact ⟨h.2.2.1 (by decide) (by decide) (by decide) (by decide) (by decide),
    h.1 (by decide), h.2.1 (by decide)⟩

end Ata

end Sil3112
