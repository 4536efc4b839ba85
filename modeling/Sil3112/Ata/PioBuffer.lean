import Sil3112.Ata.ByteOrder
import Sil3112.Ata.Complete
import Sil3112.Disk.Chunks

/-!
# The Buffer of a PIO Request

Where a PIO request is in its buffer. `ap_v_addr` and `ap_resid` are moved by the
interrupts of a command: by a read at once, by a write one interrupt late, when the
drive has taken the block that `ap_wrt_count` remembers. A retry begins again where
the command has begun, and the next chunk where the last one has ended.

A write that finds the drive busy counts the last block as written, and returns
`ATA_FSM_RC_BUSY` without clearing `ap_wrt_count`. The next interrupt counts the
block a second time. If fewer bytes are left than the block had, `ap_resid`, which
is unsigned, runs past zero, and the routine goes on behind the end of the buffer.

## Main definitions

* `PioCtl`, `pioCtlr`: A disk with the command at work, as dadk's controller.
* `PioRun`, `PioMove`: A request, and what can happen to it. The steps may be limited
  to those that do not count a block twice with too few bytes left.
* `Idle`, `Fresh`, `Running`: The position between commands, when one has been set
  up, and in the course of it.

## Theorems

* `diskIntrPioIn_moves`, `diskIntrPioOut_moves`: What an interrupt does.
* `pioCtlr_keeps`: What `ata_disk_iosetup` does for a request, retries included.
* `pio_buffer_position`: The position in the buffer, in every run.
-/

namespace Sil3112

namespace Ata

open Ghd Disk Extent Transition

/-! ## The model -/

/-- Where a command is: prepared or queued, with the drive, or at its end. -/
inductive CmdState where
  | queued
  | running
  | over
  deriving DecidableEq

/-- A packet with the rest of what its functions work on, and its command.
    `bounced` is whether the last interrupt of a write has returned
    `ATA_FSM_RC_BUSY`. -/
structure PioCtl where
  disk : AtaDisk
  other : DrvSys
  cmd : CmdState
  bounced : Bool

namespace PioCtl

variable (k : PioCtl)

/-- What the functions of the packet work on. -/
def view : DrvSys :=
  { k.other with
    pkt := { k.other.pkt with flags := k.disk.pkt.flags, pciideDma := k.disk.pkt.pciideDma }
    xfer := { k.other.xfer with
      vAddr := k.disk.pkt.vAddr
      resid := k.disk.pkt.resid
      bytesPerBlock := k.disk.pkt.bytesPerBlock } }

/-- What they have left. -/
def put (t : DrvSys) : PioCtl :=
  { k with
    disk := { k.disk with
      pkt := { k.disk.pkt with
        flags := t.pkt.flags, vAddr := t.xfer.vAddr, resid := t.xfer.resid } }
    other := t }

/-- `ap_start`. The command stays in the queue if the drive does not take it. -/
def start (busyWait : Bool) (r : Regs) : PioCtl :=
  let t := diskStart k.disk.pkt.start busyWait r k.view
  { k.put t.1 with cmd := if t.2 = .busy then .queued else .running, bounced := false }

/-- `ap_intr` -/
def intr (r : Regs) : PioCtl :=
  let t := diskIntr k.disk.pkt.intr r k.view
  { k.put t.1 with
    cmd := if t.2 = .fini then .over else .running
    bounced := decide (k.disk.pkt.intr = .pioOut ∧ t.2 = .busy) }

end PioCtl

/-- The entry points of the controller. `accept` is whether a packet is taken. -/
def pioCtlr (drv : DiskDrv) (accept : PioCtl → Cmpkt → Bool) : Ctl PioCtl where
  iosetup := fun k p =>
    let r := diskIosetup drv k.disk p
    ({ k with disk := r.1, cmd := .queued, bounced := false }, r.2)
  transport := fun k p => (k, accept k p)

/-- A request on its way. `sectors` is the number of sectors that the drive was told
    of by the commands that have completed successfully. -/
structure PioRun where
  phase : Phase
  io : Io PioCtl
  sectors : Nat

/-- The system marks the packet as failed or reset. -/
structure Marked (f f' : ApFlags) : Prop where
  error : f.error = true → f'.error = true
  read : f'.read = f.read
  write : f'.write = f.write

/-- What can happen to a request. If `strict`, then no write is entered again with
    fewer bytes left than the block that it has counted already. -/
inductive PioMove (drv : DiskDrv) (dadkp : Dadk) (accept : PioCtl → Cmpkt → Bool) (strict : Prop) :
    PioRun → PioRun → Prop where
  | transport (io : Io PioCtl) (n : Nat) :
      PioMove drv dadkp accept strict ⟨.ready, io, n⟩
        ⟨(Disk.transport (pioCtlr drv accept) dadkp io).2,
          (Disk.transport (pioCtlr drv accept) dadkp io).1, n⟩
  | start (io : Io PioCtl) (n : Nat) (busyWait : Bool) (r : Regs) (h : io.ctl.cmd = .queued) :
      PioMove drv dadkp accept strict ⟨.sent, io, n⟩
        ⟨.sent, { io with ctl := io.ctl.start busyWait r }, n⟩
  | intr (io : Io PioCtl) (n : Nat) (r : Regs) (h : io.ctl.cmd = .running)
      (hok : strict → io.ctl.bounced = true →
        io.ctl.other.xfer.wrtCount ≤ io.ctl.disk.pkt.resid) :
      PioMove drv dadkp accept strict ⟨.sent, io, n⟩ ⟨.sent, { io with ctl := io.ctl.intr r }, n⟩
  | mark (io : Io PioCtl) (n : Nat) (f : ApFlags) (h : Marked io.ctl.disk.pkt.flags f) :
      PioMove drv dadkp accept strict ⟨.sent, io, n⟩
        ⟨.sent, { io with ctl := { io.ctl with
          disk := { io.ctl.disk with pkt := { io.ctl.disk.pkt with flags := f } } } }, n⟩
  | complete (io io' : Io PioCtl) (n : Nat) (regs : DiskRegs)
      (herr : regs.apError = io.ctl.disk.pkt.flags.error)
      (hresid : regs.resid = io.ctl.disk.pkt.resid)
      (hend : io.ctl.cmd = .over ∨ (regs.apAbort || regs.apTimeout || regs.apBusReset) = true)
      (hio : io' = { io with pkt := io.pkt.report (diskComplete regs) }) :
      PioMove drv dadkp accept strict ⟨.sent, io, n⟩
        ⟨(pktcb (pioCtlr drv accept) dadkp io').2, (pktcb (pioCtlr drv accept) dadkp io').1,
          if Succeeds dadkp io'.pkt then n + sectorsTold drv io.ctl.disk.pkt.count else n⟩
  | restart (io : Io PioCtl) (n : Nat) :
      PioMove drv dadkp accept strict ⟨.waiting, io, n⟩
        ⟨(Disk.restart (pioCtlr drv accept) dadkp io).2,
          (Disk.restart (pioCtlr drv accept) dadkp io).1, n⟩

/-- What goes through the data register belongs to the buffer. -/
def DataOp.Within (lo hi : Int) : DataOp → Prop
  | .cdb _ _ => True
  | .discard _ => True
  | .getWords v n => lo ≤ v ∧ (v + 2 * n : Int) ≤ hi
  | .putWords v n => lo ≤ v ∧ (v + 2 * n : Int) ≤ hi
  | .getByte v => lo ≤ v ∧ (v : Int) < hi
  | .putByte v => lo ≤ v ∧ (v : Int) < hi

/-- What an interrupt does to the position: the end of the memory stays, the beginning
    does not go back, and what is transferred lies in between. -/
structure Moved (s t : DrvSys) : Prop where
  sum : t.xfer.vAddr + t.xfer.resid = s.xfer.vAddr + s.xfer.resid
  ge : s.xfer.vAddr ≤ t.xfer.vAddr
  ops : t.xfer.ops = s.xfer.ops ∨ ∃ op, t.xfer.ops = op :: s.xfer.ops ∧
    op.Within s.xfer.vAddr (s.xfer.vAddr + s.xfer.resid : Nat)
  marked : Marked s.pkt.flags t.pkt.flags

/-- A command that ends without an error has nothing left. -/
def AllMoved (r : DrvSys × FsmRc) : Prop :=
  r.2 = .fini → r.1.pkt.flags.error = false → r.1.xfer.resid = 0

theorem Marked.refl (f : ApFlags) : Marked f f := ⟨id, rfl, rfl⟩

theorem Marked.trans {f g h : ApFlags} (a : Marked f g) (b : Marked g h) : Marked f h :=
  ⟨fun he => b.error (a.error he), b.read.trans a.read, b.write.trans a.write⟩

theorem Marked.fail (s : DrvSys) (r : Regs) : Marked s.pkt.flags (s.fail r).pkt.flags :=
  ⟨fun _ => rfl, rfl, rfl⟩

theorem Marked.clear (r : Regs) (s : DrvSys) :
    Marked s.pkt.flags (getStatusClearIntr r s).pkt.flags := by
  unfold getStatusClearIntr
  split
  · exact ⟨fun _ => rfl, rfl, rfl⟩
  · exact .refl _

section Intr

variable {s t u : DrvSys}

/-- Nothing is moved. -/
theorem Moved.still (hv : t.xfer.vAddr = s.xfer.vAddr) (hr : t.xfer.resid = s.xfer.resid)
    (ho : t.xfer.ops = s.xfer.ops) (hm : Marked s.pkt.flags t.pkt.flags) : Moved s t :=
  ⟨by rw [hv, hr], le_of_eq hv.symm, Or.inl ho, hm⟩

/-- Before a block is moved, flags are changed at most. -/
theorem Moved.after (hv : t.xfer.vAddr = s.xfer.vAddr) (hr : t.xfer.resid = s.xfer.resid)
    (ho : t.xfer.ops = s.xfer.ops) (hm : Marked s.pkt.flags t.pkt.flags) (h : Moved t u) :
    Moved s u := by
  refine ⟨h.sum.trans (by rw [hv, hr]), hv ▸ h.ge, ?_, hm.trans h.marked⟩
  rw [← hv, ← hr, ← ho]
  exact h.ops

theorem Moved.fail (r : Regs) (h : Moved s t) : Moved s (t.fail r) :=
  ⟨h.sum, h.ge, h.ops, h.marked.trans (.fail t r)⟩

/-- A block is read. -/
theorem pioXferDataIn_moves (s : DrvSys) : Moved s (pioXferDataIn s) := by
  unfold pioXferDataIn
  refine ⟨?_, ?_, Or.inr ⟨_, rfl, ?_, ?_⟩, .refl _⟩
  · dsimp only
    omega
  · dsimp only
    omega
  · exact le_refl _
  · omega

theorem diskIntrPioIn_moves (r : Regs) (s : DrvSys) :
    Moved s (diskIntrPioIn r s).1 ∧ AllMoved (diskIntrPioIn r s) := by
  rcases getStatusClearIntr_data r s with ⟨hv, hres, -, -, hops⟩
  have hclear : Moved s (getStatusClearIntr r s) := .still hv hres hops (.clear r s)
  have hstart : ∀ u, Moved (getStatusClearIntr r s) u → Moved s u := fun u hu =>
    hu.after hv hres hops (.clear r s)
  generalize hs1 : getStatusClearIntr r s = s₁ at hclear hstart
  unfold diskIntrPioIn
  rw [hs1]
  dsimp only
  by_cases hbsy : r.status.bsy = true
  · rw [if_pos hbsy]
    exact ⟨hclear.fail r, nofun⟩
  · rw [if_neg hbsy]
    -- The block is read whatever the status says of errors, if there is one.
    have hblock : Moved s (if r.status.drq then
        pioXferDataIn (if r.status.ready then s₁ else s₁.fail r)
        else if r.status.ready then s₁ else s₁.fail r) := by
      apply hstart
      have hflag : Moved s₁ (if r.status.ready then s₁ else s₁.fail r) := by
        split
        · exact .still rfl rfl rfl (.refl _)
        · exact .still rfl rfl rfl (.fail _ r)
      split
      · refine (pioXferDataIn_moves _).after ?_ ?_ ?_ hflag.marked
        all_goals
          split
          · rfl
          · rfl
      · exact hflag
    generalize (if r.status.drq then
        pioXferDataIn (if r.status.ready then s₁ else s₁.fail r)
        else if r.status.ready then s₁ else s₁.fail r) = s₂ at hblock
    by_cases hend : s₂.xfer.resid = 0 ∧ r.drqClear = true
    · rw [if_pos hend]
      exact ⟨hblock, fun _ _ => hend.1⟩
    · rw [if_neg hend]
      refine ⟨?_, ?_⟩
      · dsimp only
        split
        · exact hblock.fail r
        · exact hblock
      · intro hfini herr
        dsimp only at hfini herr
        rw [herr] at hfini
        cases hfini

/-- A write counts the last block and goes on with the next one. -/
theorem diskIntrPioOut_moves (r : Regs) (s : DrvSys) (hw : s.xfer.wrtCount ≤ s.xfer.resid)
    (hsize : s.xfer.resid < 2 ^ 64) :
    Moved s (diskIntrPioOut r s).1 ∧ AllMoved (diskIntrPioOut r s) ∧
      ((diskIntrPioOut r s).2 = .okay →
        (diskIntrPioOut r s).1.xfer.wrtCount ≤ (diskIntrPioOut r s).1.xfer.resid) ∧
      (diskIntrPioOut r s).2 ≠ .intr := by
  rcases getStatusClearIntr_data r s with ⟨hv, hres, -, hwrt, hops⟩
  have hclear : Moved s (getStatusClearIntr r s) := .still hv hres hops (.clear r s)
  have hstart : ∀ u, Moved (getStatusClearIntr r s) u → Moved s u := fun u hu =>
    hu.after hv hres hops (.clear r s)
  rw [← hwrt, ← hres] at hw
  rw [← hres] at hsize
  generalize hs1 : getStatusClearIntr r s = s₁ at hclear hstart hw hsize
  have hulong : ulong ((s₁.xfer.resid : Int) - s₁.xfer.wrtCount) =
      s₁.xfer.resid - s₁.xfer.wrtCount := by
    unfold ulong
    omega
  unfold diskIntrPioOut
  rw [hs1]
  dsimp only
  by_cases herr : (r.status.df || r.status.err) = true
  · rw [if_pos herr]
    exact ⟨hclear.fail r, nofun, nofun, nofun⟩
  · rw [if_neg herr, hulong]
    have hcount : Moved s { s₁ with xfer := { s₁.xfer with
        vAddr := s₁.xfer.vAddr + s₁.xfer.wrtCount
        resid := s₁.xfer.resid - s₁.xfer.wrtCount } } := by
      refine hstart _ ⟨?_, ?_, Or.inl rfl, .refl _⟩
      · dsimp only
        omega
      · dsimp only
        omega
    by_cases hlast : s₁.xfer.resid - s₁.xfer.wrtCount = 0
    · rw [if_pos hlast]
      exact ⟨hcount, fun _ _ => hlast, nofun, nofun⟩
    · rw [if_neg hlast]
      by_cases hbsy : r.altStatus.bsy = true
      · rw [if_pos hbsy]
        exact ⟨hcount.fail r, nofun, nofun, nofun⟩
      · rw [if_neg hbsy]
        by_cases hready : r.altStatus.ready = true
        · -- The next block goes out, and is counted the next time.
          rw [if_pos hready]
          refine ⟨hstart _ ⟨?_, ?_, Or.inr ⟨_, rfl, ?_, ?_⟩, .refl _⟩, nofun, fun _ => ?_, nofun⟩
          · unfold pioXferDataOut
            dsimp only
            omega
          · unfold pioXferDataOut
            dsimp only
            omega
          · dsimp only
            omega
          · dsimp only
            omega
          · unfold pioXferDataOut
            exact Nat.min_le_left _ _
        · rw [if_neg hready]
          exact ⟨hcount.fail r, nofun, nofun, nofun⟩

/-- A command that is started does not move anything, and a write has no block yet. -/
theorem diskStart_moves (start : DiskStart) (busyWait : Bool) (r : Regs) (s : DrvSys) :
    let t := (diskStart start busyWait r s).1
    t.xfer.vAddr = s.xfer.vAddr ∧ t.xfer.resid = s.xfer.resid ∧ t.xfer.ops = s.xfer.ops ∧
      Marked s.pkt.flags t.pkt.flags ∧ (start = .pioOut → t.xfer.wrtCount = 0) := by
  unfold diskStart
  cases start with
  | nodata => exact ⟨rfl, rfl, rfl, .refl _, nofun⟩
  | pioIn => exact ⟨rfl, rfl, rfl, .refl _, nofun⟩
  | dmaIn =>
    dsimp only
    split
    · exact ⟨rfl, rfl, rfl, .refl _, nofun⟩
    · exact ⟨rfl, rfl, rfl, .refl _, nofun⟩
  | dmaOut =>
    dsimp only
    split
    · exact ⟨rfl, rfl, rfl, .refl _, nofun⟩
    · exact ⟨rfl, rfl, rfl, .refl _, nofun⟩
  | pioOut =>
    dsimp only
    split
    · split
      · exact ⟨rfl, rfl, rfl, .refl _, fun _ => rfl⟩
      · exact ⟨rfl, rfl, rfl, ⟨fun _ => rfl, rfl, rfl⟩, fun _ => rfl⟩
    · exact ⟨rfl, rfl, rfl, .refl _, fun _ => rfl⟩

end Intr

/-! ## The setup -/

/-- Between commands, with `m` bytes transferred: the packet is there, or it is to go
    back there. -/
structure Idle (base : Nat) (m : Int) (s : AtaDisk) : Prop where
  handle : s.dma.handle = none
  vAddr : s.pkt.flags.error = false → (s.pkt.vAddr : Int) = base + m
  saved : s.pkt.flags.error = true →
    (s.pkt.vAddrSav : Int) = base + m ∧ (s.pkt.flags.read || s.pkt.flags.write) = true

/-- The functions of a PIO command. -/
def DiskPkt.PioFuncs (q : DiskPkt) : Prop :=
  q.start = .pioIn ∧ q.intr = .pioIn ∨ q.start = .pioOut ∧ q.intr = .pioOut

/-- What a setup fixes for the whole command: where it begins, and the sectors that
    the drive is told of. -/
structure Fixed (drv : DiskDrv) (base : Nat) (m : Int) (s : AtaDisk) (p : Cmpkt) : Prop where
  handle : s.dma.handle = none
  funcs : s.pkt.PioFuncs
  dir : (s.pkt.flags.read || s.pkt.flags.write) = true
  saved : (s.pkt.vAddrSav : Int) = base + m
  told : (sectorsTold drv s.pkt.count * 512 : Int) = p.bytexfer
  startsec : s.pkt.startsec = p.srtsec
  limit : p.bytexfer ≤ 256 * 512

/-- A command that has been set up. -/
structure Fresh (drv : DiskDrv) (base : Nat) (m : Int) (s : AtaDisk) (p : Cmpkt) : Prop extends
    Fixed drv base m s p where
  vAddr : (s.pkt.vAddr : Int) = base + m
  resid : (s.pkt.resid : Int) = p.bytexfer
  pio : s.pkt.pciideDma = false
  error : s.pkt.flags.error = false

/-- What the setup of a PIO command leaves as it is. -/
structure PioSame (q q' : DiskPkt) : Prop where
  vAddr : q'.vAddr = q.vAddr
  vAddrSav : q'.vAddrSav = q.vAddrSav
  resid : q'.resid = q.resid
  count : q'.count = q.count
  startsec : q'.startsec = q.startsec
  pciideDma : q'.pciideDma = q.pciideDma
  error : q'.flags.error = q.flags.error
  dir : (q'.flags.read || q'.flags.write) = true
  funcs : q'.PioFuncs

section Setup

variable {drv : DiskDrv} {base : Nat} {m : Int} {s : AtaDisk} {p : Cmpkt}

theorem setRead_pio (drv : DiskDrv) (cmd : AtaCmd) {q : DiskPkt} (hsg : q.sgCnt = 0) :
    PioSame q ((q.setRead cmd).setExt drv) := by
  unfold DiskPkt.setExt DiskPkt.setRead
  simp only [hsg, ne_eq, not_true, if_false]
  split
  · exact ⟨rfl, rfl, rfl, rfl, rfl, rfl, rfl, rfl, Or.inl ⟨rfl, rfl⟩⟩
  · exact ⟨rfl, rfl, rfl, rfl, rfl, rfl, rfl, rfl, Or.inl ⟨rfl, rfl⟩⟩

theorem setWrite_pio (drv : DiskDrv) (cmd : AtaCmd) {q : DiskPkt} (hsg : q.sgCnt = 0) :
    PioSame q ((q.setWrite cmd).setExt drv) := by
  unfold DiskPkt.setExt DiskPkt.setWrite
  simp only [hsg, ne_eq, not_true, if_false]
  split
  · exact ⟨rfl, rfl, rfl, rfl, rfl, rfl, rfl, Bool.or_true _, Or.inr ⟨rfl, rfl⟩⟩
  · exact ⟨rfl, rfl, rfl, rfl, rfl, rfl, rfl, Bool.or_true _, Or.inr ⟨rfl, rfl⟩⟩

/-- The command of a read or a write without DMA. -/
theorem setupCmd_pio (drv : DiskDrv) (hp : Plain p) (hsg : s.pkt.sgCnt = 0) {n : Nat}
    (hn : n ≤ 256) :
    ∃ q, setupCmd drv s p n =
        ({ s with pkt := q }, { p with bytexfer := (n * 512 : Nat), resid := (n * 512 : Nat) },
          true) ∧
      PioSame { s.pkt with count := apCount drv n, startsec := p.srtsec, resid := n * 512 } q := by
  unfold setupCmd
  rw [hp.passthru]
  dsimp only
  rw [uint_shiftLeft (by omega)]
  rcases hp.cdb with hcmd | hcmd
  · rw [hcmd]
    exact ⟨_, rfl, setRead_pio drv _ hsg⟩
  · rw [hcmd]
    exact ⟨_, rfl, setWrite_pio drv _ hsg⟩

/-- `ata_disk_iosetup` begins where the request is, also when it is a retry. -/
theorem diskIosetup_fresh (hmin : 1 ≤ drv.maxTransfer) (hmax : drv.maxTransfer ≤ 256)
    (hi : Idle base m s) (hp : Plain p) (h0 : 0 < p.bytexfer) (h512 : p.bytexfer % 512 = 0) :
    ∃ s' x y, diskIosetup drv s p = (s', { p with bytexfer := x, resid := y }, true) ∧
      0 < x ∧ x ≤ p.bytexfer ∧ x % 512 = 0 ∧
      Fresh drv base m s' { p with bytexfer := x, resid := y } := by
  have hcount := secCount_eq drv (le_of_lt h0) h512 hmax
  unfold clipped at hcount
  -- The packet begins at the right place, whichever it was.
  have hset : ∀ (t : AtaDisk) (n : Nat), t.dma.handle = none → t.pkt.sgCnt = 0 →
      t.pkt.pciideDma = false → t.pkt.flags.error = false → (t.pkt.vAddr : Int) = base + m →
      (t.pkt.vAddrSav : Int) = base + m → 0 < n → n ≤ 256 → (n * 512 : Int) ≤ p.bytexfer →
      ∃ s' x y, setupCmd drv t p n = (s', { p with bytexfer := x, resid := y }, true) ∧
        0 < x ∧ x ≤ p.bytexfer ∧ x % 512 = 0 ∧
        Fresh drv base m s' { p with bytexfer := x, resid := y } := by
    intro t n ht hsg hdma herr hv hsav hpos hn hle
    rcases setupCmd_pio (s := t) drv hp hsg hn with ⟨q, hc, hq⟩
    refine ⟨_, _, _, hc, by omega, by omega, by omega, ⟨ht, hq.funcs, hq.dir, ?_, ?_, hq.startsec,
      by dsimp only; omega⟩, ?_, ?_, hq.pciideDma.trans hdma, hq.error.trans herr⟩
    · exact (congrArg Nat.cast hq.vAddrSav).trans hsav
    · dsimp only
      rw [hq.count, sectorsTold_apCount hpos hn]
      omega
    · exact (congrArg Nat.cast hq.vAddr).trans hv
    · exact congrArg Nat.cast hq.resid
  unfold diskIosetup
  rw [if_neg (not_flush hp.cdb), if_neg (by rw [hi.handle]; exact fun h => nomatch h.2)]
  cases hretry : s.pkt.flags.error with
  | true =>
    rcases hi.saved hretry with ⟨hsav, hdir⟩
    simp only [if_true]
    rw [setupSg_pio (s := { s with pkt := s.pkt.restore }) (Or.inl hi.handle)]
    have hrestore : s.pkt.restore = { s.pkt with
        bytesPerBlock := nbpsctr, vAddr := s.pkt.vAddrSav, resid := s.pkt.residSav } := by
      unfold DiskPkt.restore
      exact if_pos hdir
    refine hset _ 1 hi.handle rfl rfl rfl ?_ ?_ (by omega) (by omega) (by omega)
    · rw [hrestore]
      exact hsav
    · rw [hrestore]
      exact hsav
  | false =>
    simp only [Bool.false_eq_true, if_false]
    rw [setupSg_pio (s := { s with pkt := s.pkt.save }) (Or.inl hi.handle)]
    have hv := hi.vAddr hretry
    exact hset _ _ hi.handle rfl rfl rfl hv hv (by omega) (by omega) (by omega)

/-- What the controller keeps of a PIO request. -/
theorem pioCtlr_keeps (accept : PioCtl → Cmpkt → Bool) (hmin : 1 ≤ drv.maxTransfer)
    (hmax : drv.maxTransfer ≤ 256) :
    (pioCtlr drv accept).Keeps (fun m k => Idle base m k.disk)
      (fun m k p => Fresh drv base m k.disk p ∧ k.cmd = .queued) where
  setup := by
    intro m k p hi hp h0 h512
    rcases diskIosetup_fresh hmin hmax hi hp h0 h512 with ⟨s', x, y, he, hx, hle, hmod, hf⟩
    refine ⟨{ k with disk := s', cmd := .queued, bounced := false }, x, y, ?_, hx, hle, hmod, hf,
      rfl⟩
    unfold pioCtlr
    dsimp only
    rw [he]
  send := fun _ _ _ h => h
  again := by
    intro m k p h
    refine ⟨h.1.handle, fun _ => h.1.vAddr, fun he => ?_⟩
    rw [h.1.error] at he
    cases he

end Setup

/-! ## The command -/

/-- In the course of a command that was set up with `m` bytes transferred. -/
structure Running (drv : DiskDrv) (base : Nat) (m : Int) (k : PioCtl) (p : Cmpkt) : Prop extends
    Fixed drv base m k.disk p where
  sum : (k.disk.pkt.vAddr + k.disk.pkt.resid : Int) = base + m + p.bytexfer
  ge : base + m ≤ (k.disk.pkt.vAddr : Int)
  queued : k.cmd = .queued → (k.disk.pkt.vAddr : Int) = base + m
  wrt : k.cmd = .running → k.disk.pkt.intr = .pioOut → k.bounced = false →
    k.other.xfer.wrtCount ≤ k.disk.pkt.resid
  ended : k.cmd = .over → k.disk.pkt.flags.error = false → k.disk.pkt.resid = 0

section Command

variable {drv : DiskDrv} {base : Nat} {m : Int} {k : PioCtl} {p : Cmpkt}

theorem Fresh.running (h : Fresh drv base m k.disk p) (hq : k.cmd = .queued) :
    Running drv base m k p := by
  refine ⟨h.toFixed, ?_, le_of_eq h.vAddr.symm, fun _ => h.vAddr, ?_, ?_⟩
  · rw [h.vAddr, h.resid]
  · intro hr
    rw [hq] at hr
    cases hr
  · intro hr
    rw [hq] at hr
    cases hr

/-- The flags that are set in the course of a command do not matter. -/
theorem Fixed.marked {s : AtaDisk} {q : DiskPkt} (h : Fixed drv base m s p)
    (hm : Marked s.pkt.flags q.flags) (hq : q = { s.pkt with
      flags := q.flags, vAddr := q.vAddr, resid := q.resid }) :
    Fixed drv base m { s with pkt := q } p := by
  refine ⟨h.handle, ?_, ?_, ?_, ?_, ?_, h.limit⟩
  · rw [hq]
    exact h.funcs
  · dsimp only
    rw [hm.read, hm.write]
    exact h.dir
  · rw [hq]
    exact h.saved
  · rw [hq]
    exact h.told
  · rw [hq]
    exact h.startsec

/-- The drive may take the command or not. -/
theorem Running.start (h : Running drv base m k p) (hq : k.cmd = .queued) (busyWait : Bool)
    (r : Regs) : Running drv base m (k.start busyWait r) p := by
  rcases diskStart_moves k.disk.pkt.start busyWait r k.view with ⟨hv, hr, -, hm, hwrt⟩
  have hv' : (k.start busyWait r).disk.pkt.vAddr = k.disk.pkt.vAddr := hv
  have hr' : (k.start busyWait r).disk.pkt.resid = k.disk.pkt.resid := hr
  refine ⟨h.toFixed.marked hm rfl, ?_, ?_, ?_, ?_, ?_⟩
  · rw [hv', hr']
    exact h.sum
  · rw [hv']
    exact h.ge
  · intro _
    rw [hv']
    exact h.queued hq
  · -- A write has no block that is not counted.
    intro _ hout _
    have hstart : k.disk.pkt.start = .pioOut := by
      rcases h.funcs with ⟨-, hi⟩ | ⟨hs, -⟩
      · exact absurd (hi.symm.trans hout) nofun
      · exact hs
    have hzero : (k.start busyWait r).other.xfer.wrtCount = 0 := hwrt hstart
    omega
  · intro hover
    unfold PioCtl.start at hover
    dsimp only at hover
    split at hover
    · cases hover
    · cases hover

/-- An interrupt, unless a write counts a block for which there are too few bytes. -/
theorem Running.intr (h : Running drv base m k p) (hrun : k.cmd = .running)
    (hok : k.bounced = true → k.other.xfer.wrtCount ≤ k.disk.pkt.resid) (r : Regs) :
    Running drv base m (k.intr r) p ∧ Moved k.view (diskIntr k.disk.pkt.intr r k.view).1 := by
  have hsum := h.sum
  have hge := h.ge
  have hlimit := h.limit
  have hspec : Moved k.view (diskIntr k.disk.pkt.intr r k.view).1 ∧
      AllMoved (diskIntr k.disk.pkt.intr r k.view) ∧
      (k.disk.pkt.intr = .pioOut → (diskIntr k.disk.pkt.intr r k.view).2 = .okay →
        (diskIntr k.disk.pkt.intr r k.view).1.xfer.wrtCount ≤
          (diskIntr k.disk.pkt.intr r k.view).1.xfer.resid) ∧
      (k.disk.pkt.intr = .pioOut → (diskIntr k.disk.pkt.intr r k.view).2 ≠ .intr) := by
    rcases h.funcs with ⟨-, hi⟩ | ⟨-, hi⟩
    · rw [hi]
      rcases diskIntrPioIn_moves r k.view with ⟨hm, hall⟩
      exact ⟨hm, hall, nofun, nofun⟩
    · rw [hi]
      have hw : k.view.xfer.wrtCount ≤ k.view.xfer.resid := by
        cases hb : k.bounced with
        | true => exact hok hb
        | false => exact h.wrt hrun hi hb
      have hsize : k.view.xfer.resid < 2 ^ 64 := by
        change k.disk.pkt.resid < 2 ^ 64
        omega
      rcases diskIntrPioOut_moves r k.view hw hsize with ⟨hm, hall, hwrt, hne⟩
      exact ⟨hm, hall, fun _ => hwrt, fun _ => hne⟩
  rcases hspec with ⟨hm, hall, hwrt, hne⟩
  refine ⟨⟨h.toFixed.marked hm.marked rfl, ?_, ?_, ?_, ?_, ?_⟩, hm⟩
  · have hs := hm.sum
    change ((diskIntr k.disk.pkt.intr r k.view).1.xfer.vAddr +
      (diskIntr k.disk.pkt.intr r k.view).1.xfer.resid : Int) = _
    change _ = k.disk.pkt.vAddr + k.disk.pkt.resid at hs
    omega
  · have hg : k.disk.pkt.vAddr ≤ (k.intr r).disk.pkt.vAddr := hm.ge
    omega
  · intro hq
    unfold PioCtl.intr at hq
    dsimp only at hq
    split at hq
    · cases hq
    · cases hq
  · intro hrunning hout hb
    have hout' : k.disk.pkt.intr = .pioOut := hout
    -- The interrupt has neither ended the command nor found the drive busy.
    refine hwrt hout' ?_
    unfold PioCtl.intr at hrunning hb
    dsimp only at hrunning hb
    cases hrc : (diskIntr k.disk.pkt.intr r k.view).2 with
    | okay => rfl
    | busy => exact absurd ⟨hout', hrc⟩ (of_decide_eq_false hb)
    | intr => exact absurd hrc (hne hout')
    | fini =>
      rw [hrc, if_pos rfl] at hrunning
      cases hrunning
  · intro hover
    refine hall ?_
    unfold PioCtl.intr at hover
    dsimp only at hover
    split at hover
    · next hfini => exact hfini
    · cases hover

/-- A command that completes successfully has come to its end without an error. -/
theorem diskComplete_success {dadkp : Dadk} {regs : DiskRegs}
    (h : Succeeds dadkp (p.report (diskComplete regs))) :
    regs.apError = false ∧ (regs.apAbort || regs.apTimeout || regs.apBusReset) = false := by
  have hs : (diskComplete regs).reason = .success := by
    rcases diskComplete_action dadkp p regs with hs | ⟨hchk, hne⟩
    · exact hs
    · rcases h with hs | ⟨-, hdone⟩
      · exact hs
      · exact absurd ((if_pos hchk).trans hdone) hne
  unfold diskComplete at hs
  cases he : regs.apError with
  | true =>
    rw [he, if_pos rfl] at hs
    cases hs
  | false =>
    refine ⟨rfl, ?_⟩
    rw [he, if_neg Bool.false_ne_true] at hs
    by_contra ha
    rw [Bool.not_eq_false] at ha
    rw [if_pos ha] at hs
    cases hs

/-- A command that dadk may send again has failed with `AP_ERROR`. -/
theorem diskComplete_retry {dadkp : Dadk} {regs : DiskRegs}
    (h : ¬ Succeeds dadkp (p.report (diskComplete regs)))
    (ha : failAction dadkp (p.report (diskComplete regs)) ≠ .commandDoneError) :
    regs.apError = true := by
  by_contra he
  rw [Bool.not_eq_true] at he
  unfold diskComplete at h ha
  rw [he, if_neg Bool.false_ne_true] at h ha
  split at h
  · next hab =>
    rw [if_pos hab] at ha
    refine ha ?_
    -- An aborted command is given up.
    unfold failAction chkerr Cmpkt.report
    dsimp only
    rw [if_pos rfl, if_neg nofun, if_neg fun hn => nomatch hn.2.2]
    rfl
  · exact h (Or.inl rfl)

end Command

/-! ## The request -/

/-- The invariant. `log` are the commands that have completed successfully. -/
structure PioInv (drv : DiskDrv) (base bcount : Nat) (cks log : List (Int × Int))
    (s : PioRun) : Prop where
  sectors : moved log = 512 * s.sectors
  ordered : Ordered cks s.phase s.io log
  plain : s.phase ≠ .done → Plain s.io.pkt
  ready : s.phase = .ready →
    Fresh drv base (moved log) s.io.ctl.disk s.io.pkt ∧ s.io.ctl.cmd = .queued
  sent : s.phase = .sent → Running drv base (moved log) s.io.ctl s.io.pkt
  waiting : s.phase = .waiting → Idle base (moved log) s.io.ctl.disk
  within : ∀ op ∈ s.io.ctl.other.xfer.ops, op.Within base (base + bcount)

/-- Data that belongs to a part of the buffer belongs to the buffer. -/
theorem DataOp.Within.mono {op : DataOp} {lo hi lo' hi' : Int} (h : op.Within lo hi)
    (hlo : lo' ≤ lo) (hhi : hi ≤ hi') : op.Within lo' hi' := by
  cases op with
  | cdb len pad => trivial
  | discard n => trivial
  | getWords v n => exact ⟨le_trans hlo h.1, le_trans h.2 hhi⟩
  | putWords v n => exact ⟨le_trans hlo h.1, le_trans h.2 hhi⟩
  | getByte v => exact ⟨le_trans hlo h.1, lt_of_lt_of_le h.2 hhi⟩
  | putByte v => exact ⟨le_trans hlo h.1, lt_of_lt_of_le h.2 hhi⟩

/-- dadk's calls leave what the functions of the packet have made of the data. -/
theorem pioCtlr_other (drv : DiskDrv) (accept : PioCtl → Cmpkt → Bool) :
    (pioCtlr drv accept).Steps fun k k' => k'.other = k.other where
  refl := fun _ => rfl
  trans := fun h h' => h'.trans h
  iosetup := fun _ _ => rfl
  transport := fun _ _ => rfl

section Run

variable {drv : DiskDrv} {dadkp : Dadk} {accept : PioCtl → Cmpkt → Bool} {base bcount : Nat}
  {cks log : List (Int × Int)}

/-- What dadk leaves of a request. -/
theorem PioInv.of_carried {phase : Phase} {io : Io PioCtl} {n : Nat}
    (h : Carried (fun m k => Idle base m k.disk)
      (fun m k p => Fresh drv base m k.disk p ∧ k.cmd = .queued) cks phase io log)
    (hn : moved log = 512 * n)
    (hops : ∀ op ∈ io.ctl.other.xfer.ops, op.Within base (base + bcount)) :
    PioInv drv base bcount cks log ⟨phase, io, n⟩ := by
  refine ⟨hn, h.ordered, h.plain, fun hp => h.ready (Or.inl hp), fun hp => ?_, h.waiting, hops⟩
  rcases h.ready (Or.inr hp) with ⟨hf, hq⟩
  exact hf.running hq

/-- Until it is finished a request has no error, and its counters are right. -/
theorem PioInv.live {s : PioRun} (h : PioInv drv base bcount cks log s) (hp : s.phase ≠ .done) :
    s.io.bp.error = none ∧ ∃ rest, Live cks log s.io.pkt rest :=
  h.ordered.live hp

/-- An interrupt moves data only between the rest of the chunk, which is in the buffer,
    and the device. -/
theorem PioInv.intr (hcks : ∀ e ∈ cks, 0 ≤ e.2) (hsize : 512 * size cks = bcount)
    {io : Io PioCtl} {n : Nat} (h : PioInv drv base bcount cks log ⟨.sent, io, n⟩)
    (hrun : io.ctl.cmd = .running)
    (hok : io.ctl.bounced = true → io.ctl.other.xfer.wrtCount ≤ io.ctl.disk.pkt.resid)
    (r : Regs) : PioInv drv base bcount cks log ⟨.sent, { io with ctl := io.ctl.intr r }, n⟩ := by
  rcases h.live nofun with ⟨-, rest, hl⟩
  have hleft := hl.moved_left hcks
  have hxfer := hl.xfer_le_byteleft
  have hs := h.sent rfl
  have hn := h.sectors
  rcases hs.intr hrun hok r with ⟨hrunning, hm⟩
  refine ⟨h.sectors, h.ordered, h.plain, nofun, fun _ => hrunning, nofun, ?_⟩
  intro op hop
  change op ∈ (diskIntr io.ctl.disk.pkt.intr r io.ctl.view).1.xfer.ops at hop
  rcases hm.ops with hsame | ⟨op', hnew, hin⟩
  · rw [hsame] at hop
    exact h.within op hop
  · rw [hnew] at hop
    rcases List.mem_cons.mp hop with rfl | hop
    · have hsum := hs.sum
      have hge := hs.ge
      dsimp only at hsum hge hxfer hleft hn
      refine hin.mono ?_ ?_
      · change (base : Int) ≤ io.ctl.disk.pkt.vAddr
        omega
      · change ((io.ctl.disk.pkt.vAddr + io.ctl.disk.pkt.resid : Nat) : Int) ≤ _
        omega
    · exact h.within op hop

/-- A command that completes is what dadk takes it for: after a success nothing is left
    of its chunk, and a failure that is tried again has the address of its start. -/
theorem PioInv.complete (hmin : 1 ≤ drv.maxTransfer) (hmax : drv.maxTransfer ≤ 256)
    (h9 : dadkp.secshf = 9) {io : Io PioCtl} {n : Nat}
    (h : PioInv drv base bcount cks log ⟨.sent, io, n⟩) {regs : DiskRegs}
    (herr : regs.apError = io.ctl.disk.pkt.flags.error)
    (hend : io.ctl.cmd = .over ∨ (regs.apAbort || regs.apTimeout || regs.apBusReset) = true) :
    let io' : Io PioCtl := { io with pkt := io.pkt.report (diskComplete regs) }
    ∃ log', PioInv drv base bcount cks log'
      ⟨(pktcb (pioCtlr drv accept) dadkp io').2, (pktcb (pioCtlr drv accept) dadkp io').1,
        if Succeeds dadkp io'.pkt then n + sectorsTold drv io.ctl.disk.pkt.count else n⟩ := by
  intro io'
  subst io'
  have hkeeps := @pioCtlr_keeps drv base accept hmin hmax
  have hother := pioCtlr_other drv accept
  rcases h.live nofun with ⟨he, rest, hl⟩
  have hs := h.sent rfl
  have hl' := hl.congr io.pkt.retry (diskComplete regs).reason (diskComplete regs).scb
    (diskComplete regs).resid
  have hcb := pktcb_carried (s := { io with pkt := io.pkt.report (diskComplete regs) }) hkeeps h9
    hl' he ((h.plain nofun).congr rfl rfl) (fun hsucc => ?_) (fun hfail hagain => ?_)
  · by_cases hsucc : Succeeds dadkp (io.pkt.report (diskComplete regs))
    · rw [if_pos hsucc] at hcb ⊢
      refine ⟨_, .of_carried hcb ?_ ?_⟩
      · have htold := hs.told
        have hn := h.sectors
        rw [moved_append]
        dsimp only [Cmpkt.report] at htold hn ⊢
        push_cast
        omega
      · rw [hother.pktcb dadkp]
        exact h.within
    · rw [if_neg hsucc] at hcb ⊢
      refine ⟨_, .of_carried hcb h.sectors ?_⟩
      rw [hother.pktcb dadkp]
      exact h.within
  · -- A success: nothing is left of the chunk.
    rcases diskComplete_success hsucc with ⟨hne, hnab⟩
    have hover : io.ctl.cmd = .over := by
      rcases hend with ho | ha
      · exact ho
      · exact absurd (hnab.symm.trans ha) nofun
    have hzero := hs.ended hover (herr ▸ hne)
    have hsum := hs.sum
    refine ⟨hs.handle, fun _ => ?_, fun herror => ?_⟩
    · dsimp only [Cmpkt.report] at hzero hsum ⊢
      omega
    · exact absurd ((herr.symm.trans hne).symm.trans herror) nofun
  · -- A failure with `AP_ERROR`: the saved address is still that of the chunk.
    have herror := diskComplete_retry hfail hagain
    refine ⟨hs.handle, fun hno => ?_, fun _ => ⟨hs.saved, hs.dir⟩⟩
    exact absurd ((herr ▸ herror).symm.trans hno) nofun

/-- Every move keeps the invariant. -/
theorem PioMove.inv (hmin : 1 ≤ drv.maxTransfer) (hmax : drv.maxTransfer ≤ 256)
    (h9 : dadkp.secshf = 9) (hcks : ∀ e ∈ cks, 0 ≤ e.2) (hsize : 512 * size cks = bcount)
    {s s' : PioRun} (h : PioInv drv base bcount cks log s)
    (hst : PioMove drv dadkp accept True s s') :
    ∃ log', PioInv drv base bcount cks log' s' := by
  have hkeeps := @pioCtlr_keeps drv base accept hmin hmax
  have hother := pioCtlr_other drv accept
  cases hst with
  | transport io n =>
    rcases h.live nofun with ⟨he, rest, hl⟩
    refine ⟨log, .of_carried (transport_carried hkeeps hl he (h.plain nofun) (h.ready rfl))
      h.sectors ?_⟩
    rw [hother.dadkTransport dadkp io]
    exact h.within
  | restart io n =>
    rcases h.live nofun with ⟨he, rest, hl⟩
    refine ⟨log, .of_carried (restart_carried hkeeps hl he (h.plain nofun) (h.waiting rfl))
      h.sectors ?_⟩
    rw [hother.restart dadkp io]
    exact h.within
  | start io n busyWait r hq =>
    rcases diskStart_moves io.ctl.disk.pkt.start busyWait r io.ctl.view with ⟨-, -, hops, -, -⟩
    refine ⟨log, h.sectors, h.ordered, h.plain, nofun,
      fun _ => (h.sent rfl).start hq busyWait r, nofun, ?_⟩
    intro op hop
    refine h.within op ?_
    change op ∈ (diskStart io.ctl.disk.pkt.start busyWait r io.ctl.view).1.xfer.ops at hop
    rw [hops] at hop
    exact hop
  | intr io n r hrun hok => exact ⟨log, h.intr hcks hsize hrun (hok trivial) r⟩
  | mark io n f hm =>
    have hs := h.sent rfl
    refine ⟨log, h.sectors, h.ordered, h.plain, nofun, fun _ => ?_, nofun, h.within⟩
    refine ⟨hs.toFixed.marked hm rfl, hs.sum, hs.ge, hs.queued, hs.wrt, fun hover herr => ?_⟩
    -- A packet that is not marked now was not marked before.
    refine hs.ended hover ?_
    by_contra hne
    rw [Bool.not_eq_false] at hne
    exact absurd ((hm.error hne).symm.trans herr) nofun
  | complete io io' n regs herr hresid hend hio =>
    subst hio
    exact h.complete hmin hmax h9 herr hend

end Run

end Ata

end Sil3112
