import Sil3112.Ata.Complete
import Sil3112.Ata.Hardware
import Sil3112.Ata.TaskFile

/-!
# The Residual of a DMA Error

`ata_disk_get_resid`, which `ata_disk_intr_dma` calls when the drive has
reported an error. It reads the sector that failed out of the task file and
makes a number of bytes of it, from that sector to the end of the command.
`ata_disk_complete` passes it to dadk, which adds what is not transferred of the
buf to its `b_resid`.

The sectors are reduced to 32 bits before they are subtracted, and so is the
difference, which is small. So that is right. But the number of sectors of the
command is taken from `ap_count`. For a drive without 48-bit addresses
`ata_disk_iosetup` has left 8 bits of it, and a command of 256 sectors has the
count 0. The residual is then 256 sectors short, and negative if the first
sector was not the one that failed. As a `uint_t` it is almost 2^32.

## Main definitions

* `DiskAddrDrv`: A drive with the way it is addressed.
* `getResid`: `ata_disk_get_resid`
* `ResidRight`: What `ap_resid` and `b_resid` should be.

## Theorems

* `getResid_eq`: The residual, if the count is the number of sectors.
* `diskIosetup_count`: The count that a command is set up with.
* `ioretry_adds`: What `dadk_ioretry` adds to `b_resid`.
* `dma_resid_iff`: When the residual is right.
-/

namespace Sil3112

namespace Ata

open Ghd Disk

/-- A drive, with what `ata_disk_iosetup` reads of it and with the way it is
    addressed. -/
structure DiskAddrDrv extends DiskDrv, DrvAddr

/-- The sector that the task file says, in the format of the drive. -/
def DrvAddr.lastBlock (drv : DrvAddr) (tf : TaskFile) : Nat :=
  if drv.ext48 then lastBlockLba48 tf
  else if drv.lba then lastBlockLba28 tf
  else lastBlockChs drv tf

/-- `ata_disk_get_resid` -/
def getResid (drv : DrvAddr) (tf : TaskFile) (startsec : Int) (count : Nat) : Nat :=
  let lbaStart := uint startsec
  let lbaStop := uint (drv.lastBlock tf)
  let residSectors := uint (lbaStart + count - lbaStop)
  uint (residSectors <<< 9 : Nat)

/-! ## The residual in bytes -/

/-- The subtraction wraps, but comes out right. -/
theorem getResid_eq (drv : DrvAddr) (tf : TaskFile) {a : Int} {n : Nat} (hn : n ≤ 256)
    (hge : a ≤ drv.lastBlock tf) (hlt : (drv.lastBlock tf : Int) < a + n) :
    (getResid drv tf a n : Int) = 512 * (a + n - drv.lastBlock tf) := by
  simp only [getResid, shiftLeft_nine_nat]
  -- all that matters of the task file is the sector in it; the three reductions to
  -- 32 bits cancel, as the difference is small
  generalize drv.lastBlock tf = x at hge hlt ⊢
  unfold uint
  omega

/-- With the count 0 for 256 sectors it does not. -/
theorem getResid_zero_ne (drv : DrvAddr) (tf : TaskFile) {a : Int}
    (hge : a ≤ drv.lastBlock tf) (hlt : (drv.lastBlock tf : Int) < a + 256) :
    (getResid drv tf a 0 : Int) ≠ 512 * (a + 256 - drv.lastBlock tf) := by
  simp only [getResid, shiftLeft_nine_nat]
  generalize drv.lastBlock tf = x at hge hlt ⊢
  unfold uint
  omega

/-! ## The count of a command -/

theorem DiskPkt.setExt_count (drv : DiskDrv) (q : DiskPkt) : (q.setExt drv).count = q.count := by
  unfold DiskPkt.setExt
  split <;> rfl

theorem DiskPkt.setRead_count (cmd : AtaCmd) (q : DiskPkt) : (q.setRead cmd).count = q.count := by
  unfold DiskPkt.setRead
  dsimp only
  split <;> rfl

theorem DiskPkt.setWrite_count (cmd : AtaCmd) (q : DiskPkt) :
    (q.setWrite cmd).count = q.count := by
  unfold DiskPkt.setWrite
  dsimp only
  split <;> rfl

theorem setupCmd_count (drv : DiskDrv) (s : AtaDisk) (p : Cmpkt) (m : Nat) :
    (setupCmd drv s p m).1.pkt.count = apCount drv m := by
  unfold setupCmd
  cases p.passthru with
  | some rw =>
      dsimp only
      rw [DiskPkt.setExt_count]
      dsimp only
      split
      · rw [DiskPkt.setWrite_count]
      · rw [DiskPkt.setRead_count]
  | none =>
      dsimp only
      cases p.cdb with
      | read => exact (DiskPkt.setRead_counts drv _ _).count
      | write => exact (DiskPkt.setWrite_counts drv _ _).count
      | _ => rfl

/-- A DMA command is set up with the count of some number of sectors. -/
theorem diskIosetup_count {drv : DiskDrv} {s s' : AtaDisk} {p p' : Cmpkt}
    (hset : diskIosetup drv s p = (s', p', true)) (hdma : s'.pkt.pciideDma = true) :
    ∃ m, s'.pkt.count = apCount drv m := by
  have h1 : s' = (diskIosetup drv s p).1 := by rw [hset]
  have h2 : (diskIosetup drv s p).2.2 = true := by rw [hset]
  rw [h1] at hdma ⊢
  unfold diskIosetup at hdma h2 ⊢
  dsimp only at hdma h2 ⊢
  -- a flush uses no DMA, and a retry or a list that cannot be had are refused
  split
  · rename_i hflush
    rw [if_pos hflush] at hdma
    cases hdma
  · rename_i hflush
    rw [if_neg hflush] at hdma h2
    split
    · rename_i hretry
      rw [if_pos hretry] at h2
      cases h2
    · rename_i hretry
      rw [if_neg hretry] at h2
      split
      · rename_i hnone
        rw [hnone] at h2
        cases h2
      · exact ⟨_, setupCmd_count drv _ p _⟩

/-- If the drive makes `n` sectors of the count, the count is `n`, unless it is
    0 for 256. -/
theorem count_cases {drv : DiskDrv} {m n : Nat} (hn : n ≤ 256)
    (h : sectorsTold drv (apCount drv m) = n) :
    ((drv.ext48 = true ∨ n < 256) ∧ apCount drv m = n) ∨
      (drv.ext48 = false ∧ n = 256 ∧ apCount drv m = 0) := by
  unfold sectorsTold at h
  cases hext : drv.ext48 with
  | true =>
      rw [hext] at h
      left
      refine ⟨Or.inl rfl, ?_⟩
      split at h
      · simp only [if_true] at h
        omega
      · exact h
  | false =>
      rw [hext] at h
      -- 8 bits of a count: 0 stands for 256, and nothing else is that long
      have hlt : apCount drv m < 256 := by
        rw [apCount, hext]
        simp only [Bool.false_eq_true, if_false]
        omega
      split at h
      · rename_i h0
        simp only [Bool.false_eq_true, if_false] at h
        exact Or.inr ⟨rfl, h.symm, h0⟩
      · left
        rw [h] at hlt ⊢
        exact ⟨Or.inr hlt, rfl⟩

/-! ## The residual of a command -/

/-- If the command ends with an error, `ap_resid` is what `ata_disk_get_resid`
    makes of the task file. -/
theorem diskIntrDma_resid {r : Regs} {d : DrvSys} (hfini : (diskIntrDma r d).2 = .fini)
    (herr : (diskIntrDma r d).1.pkt.flags.error = true) :
    (diskIntrDma r d).1.xfer.resid = r.stopResid := by
  unfold diskIntrDma at hfini herr ⊢
  dsimp only at hfini herr ⊢
  split
  · rename_i hdrq
    rw [if_pos hdrq] at hfini
    cases hfini
  · rename_i hdrq
    rw [if_neg hdrq] at herr
    exact if_pos herr

/-- `CTL_IOSETUP` refuses to set up a DMA command again, and leaves the packet
    as it is. -/
theorem diskIosetup_retry (drv : DiskDrv) {k : AtaDisk} (herr : k.pkt.flags.error = true)
    (hdma : k.dma.handle.isSome = true) (p : Cmpkt) : (diskIosetup drv k p).2.1 = p := by
  unfold diskIosetup
  split
  · rfl
  · rw [if_pos ⟨herr, hdma⟩]

theorem doneError_adds {σ : Type} (io : Io σ) :
    (doneError io).bp.resid =
      io.bp.resid + (io.pkt.byteleft - io.pkt.bytexfer + io.pkt.resid) := by
  unfold doneError
  dsimp only
  split
  · rfl
  · rfl

/-- If `dadk_ioretry` does not send the command again, it adds what is left of
    the buf, less the command, plus the residual of the command. -/
theorem ioretry_adds (drv : DiskDrv) (send : AtaDisk → Cmpkt → AtaDisk × Bool) {io : Io AtaDisk}
    (herr : io.ctl.pkt.flags.error = true) (hdma : io.ctl.dma.handle.isSome = true)
    {action : Action} (hact : action = .queCommand ∨ action = .commandDoneError)
    (hr : (ioretry (diskCtl drv send) io action).2 = false) :
    (ioretry (diskCtl drv send) io action).1.bp.resid =
      io.bp.resid + (io.pkt.byteleft - io.pkt.bytexfer + io.pkt.resid) := by
  rcases hact with rfl | rfl
  · unfold ioretry at hr ⊢
    dsimp only at hr ⊢
    split
    · rename_i hagain
      rw [if_pos hagain] at hr
      split
      · rename_i hsent
        rw [if_pos hsent] at hr
        cases hr
      -- the second setup is refused, so the packet is as the interrupt has left it
      · rw [doneError_adds]
        simp only [bioerror, ctlTransport, ctlIosetup, diskCtl, diskIosetup_retry drv herr hdma]
    · rw [doneError_adds]
      rfl
  · exact doneError_adds io

/-- What `ap_resid` should be after a command of `n` sectors from `a` on that
    has failed at the sector `x`, and what `dadk_ioretry` should then add to
    `b_resid`: all that is left of the buf, but for the sectors before `x`. -/
structure ResidRight (drv : DiskDrv) (p : Cmpkt) (a x : Int) (n apResid : Nat) : Prop where
  eq : (apResid : Int) = 512 * (a + n - x)
  pos : 0 < apResid
  le : apResid ≤ 512 * n
  adds : p.bytexfer = 512 * n → ∀ (send : AtaDisk → Cmpkt → AtaDisk × Bool) (io : Io AtaDisk)
    (r : DiskRegs) (action : Action), r.apError = true → r.resid = apResid →
    io.pkt = p.report (diskComplete r) → io.ctl.pkt.flags.error = true →
    io.ctl.dma.handle.isSome = true → (action = .queCommand ∨ action = .commandDoneError) →
    (ioretry (diskCtl drv send) io action).2 = false →
    (ioretry (diskCtl drv send) io action).1.bp.resid =
      io.bp.resid + (p.byteleft - 512 * (x - a))

theorem diskComplete_resid (r : DiskRegs) : (diskComplete r).resid = r.resid := by
  unfold diskComplete
  split
  · rfl
  · split <;> rfl

theorem ResidRight.of_eq (drv : DiskDrv) (p : Cmpkt) {a x : Int} {n apResid : Nat} (hge : a ≤ x)
    (hlt : x < a + n) (h : (apResid : Int) = 512 * (a + n - x)) :
    ResidRight drv p a x n apResid where
  eq := h
  pos := by omega
  le := by omega
  adds := by
    intro hbytes send io r action _ hres hpkt herr hdma hact hr
    rw [ioretry_adds drv send herr hdma hact hr, hpkt]
    simp only [Cmpkt.report, diskComplete_resid, hres, hbytes]
    omega

/-- When the residual is right. For every DMA command of up to 256 sectors that
    `ata_disk_iosetup` has set up, every sector of the command in the task file,
    and every way in which `ata_disk_intr_dma` ends the command with an error:
    it is right exactly if the drive has 48-bit addresses or the command has
    less than 256 sectors. -/
theorem dma_resid_iff (drv : DiskAddrDrv) {s s' : AtaDisk} {p p' : Cmpkt}
    (hset : diskIosetup drv.toDiskDrv s p = (s', p', true)) (hdma : s'.pkt.pciideDma = true)
    {n : Nat} (hn : n ≤ 256) (htold : sectorsTold drv.toDiskDrv s'.pkt.count = n)
    (tf : TaskFile) (hge : s'.pkt.startsec ≤ drv.lastBlock tf)
    (hlt : (drv.lastBlock tf : Int) < s'.pkt.startsec + n) {r : Regs}
    (hr : r.stopResid = getResid drv.toDrvAddr tf s'.pkt.startsec s'.pkt.count) {d : DrvSys}
    (hfini : (diskIntrDma r d).2 = .fini)
    (herr : (diskIntrDma r d).1.pkt.flags.error = true) :
    ResidRight drv.toDiskDrv p' s'.pkt.startsec (drv.lastBlock tf) n
        (diskIntrDma r d).1.xfer.resid ↔
      drv.ext48 = true ∨ n < 256 := by
  rw [diskIntrDma_resid hfini herr, hr]
  rcases diskIosetup_count hset hdma with ⟨m, hm⟩
  rw [hm] at htold ⊢
  -- the count is the number of sectors, or it is 0 for 256
  rcases count_cases hn htold with ⟨hcond, hcount⟩ | ⟨hext, rfl, hcount⟩
  · rw [hcount]
    exact iff_of_true (.of_eq _ p' hge hlt (getResid_eq drv.toDrvAddr tf hn hge hlt)) hcond
  · rw [hcount]
    refine iff_of_false (fun h => ?_) ?_
    · exact getResid_zero_ne drv.toDrvAddr tf hge hlt h.eq
    · rw [hext]
      rintro (h | h)
      · cases h
      · exact absurd h (lt_irrefl 256)

/-! ## A drive without 48-bit addresses -/

/-- It has 28-bit addresses, and the default limit of 256 sectors. -/
def lba28Addr : DiskAddrDrv where
  toDiskDrv := lba28Disk
  targ1 := false
  lba := true
  phhd := 16
  phsec := 63
  ext48_lba := fun _ => rfl

/-- A packet for 128K bytes in two cookies. -/
def twoCookies : AtaDisk where
  pkt := freshPkt
  dma := {
    handle := some ⟨0, [[⟨0, 65536⟩, ⟨65536, 65536⟩]], [⟨65536, 65536⟩]⟩
    wcount := 1
    ccount := 2
    firstCookie := ⟨0, 65536⟩
    useFirst := true }

/-- Sector 3 failed. -/
def failedThree : TaskFile :=
  loadRegsLba28 lba28Addr.toDrvAddr 3 0 resetRegs

/-- What the controller finds after a command of the packet has failed. -/
def failedRegs (s : AtaDisk) : Regs where
  status := { err := true }
  stopResid := getResid lba28Addr.toDrvAddr failedThree s.pkt.startsec s.pkt.count

/-- A command has been sent by DMA. -/
def dmaSent : DrvSys where
  drv := {}
  bmicx := 0
  pkt := ⟨{}, false, true⟩
  xfer := {}

/-- A read of 8 sectors from sector 0 on. -/
def eightSectors : AtaDisk × Cmpkt × Bool :=
  diskIosetup lba28Disk pageBound { bytexfer := 4096 }

/-- A read of 256 sectors from sector 0 on. -/
def allSectors : AtaDisk × Cmpkt × Bool :=
  diskIosetup lba28Disk twoCookies { bytexfer := 131072 }

/-- With 8 sectors the residual is right. -/
theorem dma_resid_iff_page :
    ResidRight lba28Disk eightSectors.2.1 0 3 8
      (diskIntrDma (failedRegs eightSectors.1) dmaSent).1.xfer.resid := by
  have hset : eightSectors = (eightSectors.1, eightSectors.2.1, true) :=
    Prod.ext rfl (Prod.ext rfl (by decide +kernel))
  have hstart : eightSectors.1.pkt.startsec = 0 := by decide +kernel
  have hlast : lba28Addr.lastBlock failedThree = 3 := by decide +kernel
  have h := (dma_resid_iff lba28Addr hset (by decide +kernel) (by decide) (by decide +kernel)
    failedThree (by decide +kernel) (by decide +kernel) (r := failedRegs eightSectors.1) (by rfl)
    (d := dmaSent) (by rfl) (by rfl)).2 (Or.inr (by decide : 8 < 256))
  rwa [hstart, hlast] at h

/-- With 256 sectors the count is 0, and the residual is almost 2^32. -/
theorem full_read_resid :
    allSectors.2.2 = true ∧ allSectors.1.pkt.pciideDma = true ∧ allSectors.1.pkt.startsec = 0 ∧
      allSectors.2.1.bytexfer = 512 * 256 ∧ sectorsTold lba28Disk allSectors.1.pkt.count = 256 ∧
      lba28Addr.lastBlock failedThree = 3 ∧
      (diskIntrDma (failedRegs allSectors.1) dmaSent).2 = .fini ∧
      (diskIntrDma (failedRegs allSectors.1) dmaSent).1.pkt.flags.error = true ∧
      (diskIntrDma (failedRegs allSectors.1) dmaSent).1.xfer.resid = 2 ^ 32 - 512 * 3 ∧
      ¬ResidRight lba28Disk allSectors.2.1 0 3 256
        (diskIntrDma (failedRegs allSectors.1) dmaSent).1.xfer.resid := by
  have hresid : (diskIntrDma (failedRegs allSectors.1) dmaSent).1.xfer.resid =
      2 ^ 32 - 512 * 3 := by
    decide +kernel
  refine ⟨by decide +kernel, by decide +kernel, by decide +kernel, by decide +kernel,
    by decide +kernel, by decide +kernel, by decide +kernel, by decide +kernel, hresid, ?_⟩
  intro h
  have hle := h.le
  rw [hresid] at hle
  omega

end Ata

end Sil3112
