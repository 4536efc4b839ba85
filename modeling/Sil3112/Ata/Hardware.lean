import Sil3112.Ata.AtapiFsm
import Sil3112.Ata.InitPkt
import Sil3112.Ata.Iosetup

/-!
# The Drives of a Controller

The controller's state machine with its drives: ATA disks, and ATAPI drives with
any number of logical units. `ap_start` and `ap_intr` of a disk packet are those
of `ata_disk.c`, and those of an ATAPI packet the ATAPI state machine. A request
of `ata_queue_cmd` has a function of its own, which does all the work at once.

The registers may read anything: what a call reads is the next entry of a
sequence that is arbitrary. Between two calls the packets that the controller
does not hold may change in any way. Those it holds keep their functions and
`ap_pciide_dma`. Only the driver starts and stops the DMA engine.

A run may be limited to the calls that satisfy a condition. It is then a run of
the controller as `CtlrFsm` has it, with these drives.

## Main definitions

* `diskStart`, `diskIntr`: `ap_start` and `ap_intr` of a disk packet.
* `Hw`, `hwDev`: The drives and the DMA engine.
* `HwCall`, `HwStep`: The calls of the controller, and what can happen between
  them.
* `FsmCalls`: The calls of `ata_ctlr_fsm` in the course of one of these.

## Theorems

* `FsmCalls.invariant`: A property that all these calls keep.
* `HwCall.run_spec`: What a call of the controller comes to.
* `HwStep.ctlrStep`: Every step is one of the controller.
-/

namespace Sil3112

namespace Ata

open Ghd Transition

/-! ## The disk packets -/

/-- `ap_intr` that goes with `ap_start`. -/
def DiskStart.intr : DiskStart → DiskIntr
  | .nodata => .nodata
  | .dmaIn => .dma
  | .dmaOut => .dma
  | .pioIn => .pioIn
  | .pioOut => .pioOut

/-- The packet is started by starting the DMA engine. -/
def DiskStart.usesDma : DiskStart → Bool
  | .dmaIn => true
  | .dmaOut => true
  | _ => false

/-- `ata_disk_start_common`: whether the drive takes the command. -/
def diskStartCommon (busyWait : Bool) (r : Regs) : Bool :=
  !(busyWait && !r.notBusy) && r.selected

/-- `ata_disk_start`, `ata_disk_start_dma_in`, `ata_disk_start_dma_out`,
    `ata_disk_start_pio_in` and `ata_disk_start_pio_out`. -/
def diskStart (start : DiskStart) (busyWait : Bool) (r : Regs) (s : DrvSys) : DrvSys × FsmRc :=
  match start with
  | .nodata => (s, if diskStartCommon busyWait r then .okay else .busy)
  | .pioIn => (s, if diskStartCommon busyWait r then .okay else .busy)
  | .dmaIn =>
    if diskStartCommon busyWait r then
      ({ s with bmicx := pciideDmaStart s.bmicx bmicxWriteToMemory }, .okay)
    else (s, .busy)
  | .dmaOut =>
    if diskStartCommon busyWait r then
      ({ s with bmicx := pciideDmaStart s.bmicx bmicxReadFromMemory }, .okay)
    else (s, .busy)
  | .pioOut =>
    let s := { s with xfer := { s.xfer with wrtCount := 0 } }
    if diskStartCommon busyWait r then
      -- Wait for DRQ, then fake the interrupt that writes the first block.
      (if r.drqSet then s else s.setFlags fun f => { f with error := true }, .intr)
    else (s, .busy)

/-- The packet has failed: `AP_ERROR`, `ap_status` and `ap_error`. -/
def DrvSys.fail (s : DrvSys) (r : Regs) : DrvSys :=
  (s.setFlags fun f => { f with error := true }).saveStatus r.altStatus r.error

/-- DRQ is set and there is no error. -/
def AtaStatus.ready (status : AtaStatus) : Bool :=
  status.drq && !status.df && !status.err

/-- `ata_disk_pio_xfer_data_in` -/
def pioXferDataIn (s : DrvSys) : DrvSys :=
  let x := s.xfer
  let count := min x.resid x.bytesPerBlock
  { s with xfer := { x with
      vAddr := x.vAddr + count
      resid := x.resid - count
      ops := .getWords x.vAddr (count / 2) :: x.ops } }

/-- `ata_disk_pio_xfer_data_out` -/
def pioXferDataOut (s : DrvSys) : DrvSys :=
  let x := s.xfer
  let count := min x.resid x.bytesPerBlock
  { s with xfer := { x with
      wrtCount := count
      ops := .putWords x.vAddr (count / 2) :: x.ops } }

/-- `ata_disk_intr` -/
def diskIntrNodata (r : Regs) (s : DrvSys) : DrvSys × FsmRc :=
  let s := getStatusClearIntr r s
  let s := if r.status.df || r.status.err then s.setFlags fun f => { f with error := true } else s
  let s := if s.pkt.flags.error then s.saveStatus r.altStatus r.error else s
  (s, .fini)

/-- `ata_disk_intr_pio_in` -/
def diskIntrPioIn (r : Regs) (s : DrvSys) : DrvSys × FsmRc :=
  let s := getStatusClearIntr r s
  if r.status.bsy then (s.fail r, .busy)
  else
    let s := if r.status.ready then s else s.fail r
    let s := if r.status.drq then pioXferDataIn s else s
    if s.xfer.resid = 0 ∧ r.drqClear = true then (s, .fini)
    else
      let s := if s.xfer.resid = 0 then s.fail r else s
      (s, if s.pkt.flags.error then .fini else .okay)

/-- `ata_disk_intr_pio_out`. `ap_resid` is a `size_t`. -/
def diskIntrPioOut (r : Regs) (s : DrvSys) : DrvSys × FsmRc :=
  let s := getStatusClearIntr r s
  if r.status.df || r.status.err then (s.fail r, .fini)
  else
    let s := { s with xfer := { s.xfer with
      vAddr := s.xfer.vAddr + s.xfer.wrtCount
      resid := ulong (s.xfer.resid - s.xfer.wrtCount) } }
    if s.xfer.resid = 0 then (s, .fini)
    else if r.altStatus.bsy then (s.fail r, .busy)
    else if r.altStatus.ready then (pioXferDataOut s, .okay)
    else (s.fail r, .fini)

/-- `ata_disk_intr_dma` -/
def diskIntrDma (r : Regs) (s : DrvSys) : DrvSys × FsmRc :=
  let s := { s with bmicx := pciideDmaStop s.bmicx }
  if r.drqClear = false then (s.fail r, .busy)
  else
    let s := getStatusClearIntr r s
    let s := if r.status.df || r.status.err then s.fail r else s
    let resid := if s.pkt.flags.error then r.stopResid else 0
    ({ s with xfer := { s.xfer with resid := resid } }, .fini)

/-- `ap_intr` of a disk packet. -/
def diskIntr : DiskIntr → Regs → DrvSys → DrvSys × FsmRc
  | .nodata => diskIntrNodata
  | .dma => diskIntrDma
  | .pioIn => diskIntrPioIn
  | .pioOut => diskIntrPioOut

/-- A request of `ata_queue_cmd`: its function does all the work and may report
    an error. -/
def queuedFunc (r : Regs) (s : DrvSys) : DrvSys × FsmRc :=
  (if r.selected then s else s.setFlags fun f => { f with error := true }, .fini)

/-! ## The drives -/

/-- The place of a drive in `ac_drvp`. -/
structure DrvId where
  targ : Fin 2
  lun : Nat
  deriving DecidableEq

/-- A logical unit of drive 0. -/
def DrvId.drive0 (lun : Nat) : DrvId := ⟨0, lun⟩

/-- `AD_DISK` or `AD_ATAPI` -/
inductive DrvKind where
  | disk
  | atapi
  deriving DecidableEq

/-- The drives that are there, and `AC_BSY_WAIT`. -/
structure HwConfig where
  kind : DrvId → Option DrvKind
  busyWait : Bool

/-- There is an ATAPI drive at this place. -/
def HwConfig.Atapi (c : HwConfig) (d : DrvId) : Prop := c.kind d = some .atapi

instance (c : HwConfig) (d : DrvId) : Decidable (c.Atapi d) :=
  inferInstanceAs (Decidable (c.kind d = some .atapi))

/-- `ap_start` and `ap_intr` of a packet, which are always set together. -/
inductive ApFunc where
  | disk (start : DiskStart)
  | atapi
  | queued
  deriving DecidableEq

/-- The drive of a `gcmd_t` and the functions of its packet. -/
structure PktInfo where
  drv : DrvId
  func : ApFunc

/-- The drives of a controller: their ATAPI states, the one of the active packet,
    the command register of the DMA engine, the packets, and what the registers
    are going to read. -/
structure Hw where
  ad : DrvId → AtapiDrv
  cur : DrvId
  bmicx : BitVec 8
  info : Gcmd → PktInfo
  xfer : PktId → Xfer
  regs : Nat → Regs

namespace Hw

/-- The registers have been read. -/
def next (hw : Hw) : Hw := { hw with regs := fun n => hw.regs (n + 1) }

/-- What the functions of a packet work on. -/
def view (hw : Hw) (p : PktId) (q : AtaPkt) : DrvSys := ⟨hw.ad hw.cur, hw.bmicx, q, hw.xfer p⟩

/-- What they have left. -/
def put (hw : Hw) (p : PktId) (t : DrvSys) : Hw :=
  { hw with
    ad := Function.update hw.ad hw.cur t.drv
    bmicx := t.bmicx
    xfer := Function.update hw.xfer p t.xfer }

/-- Call a function of a packet. -/
def exec (hw : Hw) (p : PktId) (q : AtaPkt) (f : Regs → DrvSys → DrvSys × FsmRc) :
    Hw × AtaPkt × FsmRc :=
  let r := f (hw.regs 0) (hw.view p q)
  ((hw.put p r.1).next, r.1.pkt, r.2)

end Hw

/-- `ap_start` of a packet. -/
def ApFunc.start (busyWait : Bool) : ApFunc → Regs → DrvSys → DrvSys × FsmRc
  | .disk st => diskStart st busyWait
  | .atapi => atapiFsmStart busyWait
  | .queued => queuedFunc

/-- `ap_intr` of a packet. A request of `ata_queue_cmd` has none, and is done
    before there is an interrupt. -/
def ApFunc.intr : ApFunc → Regs → DrvSys → DrvSys × FsmRc
  | .disk st => diskIntr st.intr
  | .atapi => atapiFsmIntr
  | .queued => fun _ s => (s, .okay)

/-- The flags of the ARQ packet that `ata_start_arq` resets. -/
def Hw.initArq (hw : Hw) : Hw :=
  { hw with xfer := Function.update hw.xfer .arq { hw.xfer .arq with
      sentCmd := false, xferredData := false, tranError := false } }

/-- The drives as the state machine of the controller uses them. The ARQ packet is
    for the drive of the packet that was active. -/
def hwDev (c : HwConfig) : Dev Hw where
  apStart := fun hw p q =>
    match p with
    | .arq => hw.initArq.exec .arq q (ApFunc.atapi.start c.busyWait)
    | .cmd g =>
      { hw with cur := (hw.info g).drv }.exec p q ((hw.info g).func.start c.busyWait)
  apIntr := fun hw p q =>
    match p with
    | .arq => hw.exec p q ApFunc.atapi.intr
    | .cmd g => hw.exec p q (hw.info g).func.intr
  dmaStop := fun hw => { hw with bmicx := pciideDmaStop hw.bmicx }
  -- With drive 0 the reset is always over at last.
  softwareReset := fun hw => (hw.next, (c.kind (.drive0 0)).isSome || (hw.regs 0).selected)
  -- `atapi_fsm_reset` looks at the logical unit 0 of both targets.
  atapiReset := fun hw =>
    { hw with ad := fun d =>
        if d.lun = 0 ∧ c.Atapi d then { hw.ad d with adState := .idle } else hw.ad d }
  setupParms := fun hw => (hw.next, (hw.regs 0).selected)

/-! ## The calls of the state machine -/

section Calls

variable {σ : Type} (d : Dev σ)

/-- The calls of `ata_ctlr_fsm` that one of the loops makes, each with the state
    it finds, when it begins with this one. -/
inductive FsmCalls (func₀ : FsmFunc) (s₀ : Ctlr σ) : FsmFunc → Ctlr σ → Prop where
  | first : FsmCalls func₀ s₀ func₀ s₀
  | intr {func : FsmFunc} {s : Ctlr σ} (h : FsmCalls func₀ s₀ func s)
      (hrc : (fsm d func s).2.1 = .intr) : FsmCalls func₀ s₀ .intr (fsm d func s).1
  | fini {func : FsmFunc} {s : Ctlr σ} (h : FsmCalls func₀ s₀ func s)
      (hrc : (fsm d func s).2.1 = .fini) : FsmCalls func₀ s₀ .fini (fsm d func s).1

/-- What a loop comes to is what one of its calls has left, which may also be the
    last one that the watchdog allows. -/
def LoopEnd (func₀ : FsmFunc) (s₀ t : Ctlr σ) : Prop :=
  ∃ func s, FsmCalls d func₀ s₀ func s ∧ t = (fsm d func s).1

variable {d} {func₀ : FsmFunc} {s₀ : Ctlr σ}

/-- The invariant of a loop: it holds of the first call, and of the next one if
    there is one. -/
theorem FsmCalls.invariant {P : FsmFunc → Ctlr σ → Prop} (h0 : P func₀ s₀)
    (hstep : ∀ func s, P func s →
      ((fsm d func s).2.1 = .intr → P .intr (fsm d func s).1) ∧
        ((fsm d func s).2.1 = .fini → P .fini (fsm d func s).1))
    {func : FsmFunc} {s : Ctlr σ} (h : FsmCalls d func₀ s₀ func s) : P func s := by
  induction h with
  | first => exact h0
  | intr _ hrc ih => exact (hstep _ _ ih).1 hrc
  | fini _ hrc ih => exact (hstep _ _ ih).2 hrc

theorem hbaStartLoop_end (n : Nat) : ∀ {func : FsmFunc} {s : Ctlr σ} (started : Bool),
    FsmCalls d func₀ s₀ func s →
      LoopEnd d func₀ s₀ (hbaStartLoop d (n + 1) func started s).1 := by
  induction n with
  | zero =>
      intro func s started h
      refine ⟨func, s, h, ?_⟩
      unfold hbaStartLoop
      dsimp only
      split <;> rfl
  | succ n ih =>
      intro func s started h
      unfold hbaStartLoop
      dsimp only
      split
      · exact ⟨func, s, h, rfl⟩
      · exact ⟨func, s, h, rfl⟩
      · next hrc => exact ih true (h.intr hrc)
      · next hrc => exact ih true (h.fini hrc)

theorem processIntrLoop_end (n : Nat) : ∀ {func : FsmFunc} {s : Ctlr σ},
    FsmCalls d func₀ s₀ func s → LoopEnd d func₀ s₀ (processIntrLoop d (n + 1) func s) := by
  induction n with
  | zero =>
      intro func s h
      refine ⟨func, s, h, ?_⟩
      unfold processIntrLoop
      dsimp only
      split <;> rfl
  | succ n ih =>
      intro func s h
      unfold processIntrLoop
      dsimp only
      split
      · exact ⟨func, s, h, rfl⟩
      · exact ⟨func, s, h, rfl⟩
      · next hrc => exact ih (h.intr hrc)
      · next hrc => exact ih (h.fini hrc)

theorem resetBusLoop_end (n : Nat) : ∀ {func : FsmFunc} {s : Ctlr σ} (rc done : Bool),
    FsmCalls d func₀ s₀ func s →
      LoopEnd d func₀ s₀ (resetBusLoop d (n + 1) func rc done s).1 := by
  induction n with
  | zero =>
      intro func s rc done h
      refine ⟨func, s, h, ?_⟩
      unfold resetBusLoop
      dsimp only
      split <;> rfl
  | succ n ih =>
      intro func s rc done h
      unfold resetBusLoop
      dsimp only
      split
      · exact ⟨func, s, h, rfl⟩
      · exact ⟨func, s, h, rfl⟩
      · next hrc => exact ih true _ (h.intr hrc)
      · next hrc => exact ih true _ (h.fini hrc)

/-- What holds of the first call of a loop and is kept by the state machine holds
    in the end. -/
theorem LoopEnd.invariant {P : FsmFunc → Ctlr σ → Prop} {Q : Ctlr σ → Prop} (h0 : P func₀ s₀)
    (hstep : ∀ func s, P func s → Q (fsm d func s).1 ∧
      ((fsm d func s).2.1 = .intr → P .intr (fsm d func s).1) ∧
        ((fsm d func s).2.1 = .fini → P .fini (fsm d func s).1))
    {t : Ctlr σ} (h : LoopEnd d func₀ s₀ t) : Q t := by
  rcases h with ⟨func, s, hcalls, rfl⟩
  exact (hstep func s (hcalls.invariant h0 fun func s hs => (hstep func s hs).2)).1

end Calls

/-! ## The runs -/

/-- A call of the controller. -/
inductive HwCall where
  | hbaStart (g : Gcmd)
  | processIntr
  | resetBus

/-- The first call of `ata_ctlr_fsm`, unless the request is refused without one. -/
def HwCall.func (s : Ctlr Hw) : HwCall → Option FsmFunc
  | .hbaStart g =>
    let drvp : AtaDrv := ⟨(s.dev.info g).drv.targ⟩
    if s.activeDrv.isSome then none
    else if s.active.isSome then none
    else some (if drvp.targ = 0 then .start0 drvp g else .start1 drvp g)
  | .processIntr => some .intr
  | .resetBus => some .reset

/-- `ata_hba_start` calls it first with one of the start functions. -/
theorem HwCall.hbaStart_func {s : Ctlr Hw} {g : Gcmd} {func : FsmFunc}
    (h : (HwCall.hbaStart g).func s = some func) :
    ∃ drvp, func = .start0 drvp g ∨ func = .start1 drvp g := by
  refine ⟨⟨(s.dev.info g).drv.targ⟩, ?_⟩
  unfold HwCall.func at h
  dsimp only at h
  split at h
  · cases h
  · split at h
    · cases h
    · split at h
      · exact Or.inl (Option.some.inj h).symm
      · exact Or.inr (Option.some.inj h).symm

/-- `ata_hba_start`, `ata_process_intr` or `ata_reset_bus`. -/
def HwCall.run (c : HwConfig) (s : Ctlr Hw) : HwCall → Ctlr Hw
  | .hbaStart g => (Ata.hbaStart (hwDev c) ⟨(s.dev.info g).drv.targ⟩ g s).1
  | .processIntr => Ata.processIntr (hwDev c) s
  | .resetBus => (Ata.resetBus (hwDev c) s).1

/-- A call leaves everything as it is, or it comes to what its loop comes to, but
    that registers may be read. -/
theorem HwCall.run_spec (c : HwConfig) (s : Ctlr Hw) (call : HwCall) :
    (call.func s = none ∧ call.run c s = s) ∨
      ∃ func t, call.func s = some func ∧ LoopEnd (hwDev c) func s t ∧
        (call.run c s = t ∨ call.run c s = { t with dev := t.dev.next }) := by
  cases call with
  | processIntr =>
      exact Or.inr ⟨.intr, _, rfl, processIntrLoop_end (watchdog - 1) .first, Or.inl rfl⟩
  | resetBus =>
      refine Or.inr ⟨.reset, _, rfl, resetBusLoop_end (watchdog - 1) false false .first, ?_⟩
      unfold HwCall.run Ata.resetBus
      dsimp only
      split
      · exact Or.inl rfl
      · exact Or.inr rfl
  | hbaStart g =>
      unfold HwCall.run HwCall.func Ata.hbaStart
      dsimp only
      by_cases hdrv : s.activeDrv.isSome = true
      · rw [if_pos hdrv, if_pos hdrv]
        exact Or.inl ⟨rfl, rfl⟩
      · rw [if_neg hdrv, if_neg hdrv]
        by_cases ha : s.active.isSome = true
        · rw [if_pos ha, if_pos ha]
          exact Or.inl ⟨rfl, rfl⟩
        · rw [if_neg ha, if_neg ha]
          exact Or.inr ⟨_, _, rfl, hbaStartLoop_end (watchdog - 1) false .first, Or.inl rfl⟩

/-- The controller has this packet: it is the active one, the one that is set
    aside, or the ARQ packet. -/
def Ctlr.Holds (s : Ctlr Hw) (p : PktId) : Prop :=
  s.active = some p ∨ s.fault = some p ∨ p = .arq

/-- What may change between two calls. -/
structure Between (s : Ctlr Hw) (pkt : PktId → AtaPkt) (dev : Hw) : Prop where
  ad : dev.ad = s.dev.ad
  cur : dev.cur = s.dev.cur
  bmicx : dmaStarted dev.bmicx = dmaStarted s.dev.bmicx
  pciideDma : ∀ p, s.Holds p → (pkt p).pciideDma = (s.pkt p).pciideDma
  info : ∀ g, s.Holds (.cmd g) → dev.info g = s.dev.info g

/-- A call that satisfies the condition, or something between two calls. -/
inductive HwStep (c : HwConfig) (ok : Ctlr Hw → HwCall → Prop) : Ctlr Hw → Ctlr Hw → Prop where
  | call (s : Ctlr Hw) (call : HwCall) (h : ok s call) : HwStep c ok s (call.run c s)
  | between (s : Ctlr Hw) (pkt : PktId → AtaPkt) (dev : Hw) (h : Between s pkt dev) :
      HwStep c ok s { s with pkt := pkt, dev := dev }

/-- A controller just attached, with its drives and the DMA engine idle. -/
structure HwInit (c : HwConfig) (s : Ctlr Hw) : Prop extends CtlrInit s where
  adState : ∀ d, c.Atapi d → (s.dev.ad d).adState = .idle
  bmicx : dmaStarted s.dev.bmicx = false
  arq : (s.pkt .arq).pciideDma = false

section Runs

variable {c : HwConfig} {ok : Ctlr Hw → HwCall → Prop} {s s' : Ctlr Hw}

theorem HwStep.ctlrStep (h : HwStep c ok s s') : CtlrStep (hwDev c) s s' := by
  cases h with
  | call call h =>
      cases call with
      | hbaStart g =>
          unfold HwCall.run
          exact .hbaStart _ g s
      | processIntr =>
          unfold HwCall.run
          exact .processIntr s
      | resetBus =>
          unfold HwCall.run
          exact .resetBus s
  | between pkt dev h => exact .between s pkt dev

/-- A run with these drives is a run of the controller. -/
theorem reachable_hw_ctlrOk (h : Reachable (HwInit c) (HwStep c ok) s) : CtlrOk s := by
  have hsim : ∃ t, Reachable CtlrInit (CtlrStep (hwDev c)) t ∧ s = t := by
    refine h.simulation (fun s h0 => ⟨s, h0.toCtlrInit, rfl⟩) ?_
    intro s s' t hst hstep
    rw [← hst]
    exact ⟨s', .single hstep.ctlrStep, rfl⟩
  rcases hsim with ⟨t, ht, rfl⟩
  exact reachable_ctlrOk ht

end Runs

end Ata

end Sil3112
