import Sil3112.Ata.CtlrFsm

/-!
# The ATAPI State Machine

`atapi_fsm.c`: `ap_start` and `ap_intr` of the ATAPI packets. Each drive has a
state of its own, `ad_state`. At an interrupt the bits DRQ, IO and CoD that the
drive shows make up an event. One table gives the action for a state and an
event, and another one the next state.

What the registers read in the course of a call is a parameter of the call. A
wait stands for its outcome. The registers the driver writes are left out, but
for the command register of the PCI-IDE controller, which has the bit that
starts the DMA engine. What goes through the data register is kept in `ops`,
newest first.

The tables should agree that a drive that has been given a command waits for
the CDB. In the state `S_CMD` the action for any other event is to do nothing,
and the comment marks these events as invalid. But the next state is `S_CDB`
for most of them. Then the CDB is never sent.

## Main definitions

* `AtaStatus`, `IntrReason`, `Regs`: What the registers read.
* `DrvSys`: What `ap_start` and `ap_intr` work on.
* `pioAction`, `pioNextState`: The tables.
* `atapiFsmStart`, `atapiFsmIntr`: The state machine.
* `atapiRun`: A sequence of interrupts.
* `CdbOk`: The CDB is sent once, and before the drive goes on.

## Theorems

* `atapiFsmIntr_state`, `atapiFsmIntr_cdbs`: What an interrupt does to the state
  and how often it sends the CDB.
* `atapiRun_cdbs`: Whether a run has sent the CDB.
* `atapi_cdb_iff`: When the CDB is sent before the drive goes on.
-/

namespace Sil3112

namespace Ata

/-- The bits `ATS_BSY`, `ATS_DF`, `ATS_DRQ` and `ATS_ERR` of a status register. -/
structure AtaStatus where
  bsy : Bool := false
  df : Bool := false
  drq : Bool := false
  err : Bool := false

/-- The bits `ATI_IO` and `ATI_COD` of the interrupt reason register. -/
structure IntrReason where
  io : Bool := false
  cod : Bool := false

/-- What the registers read in the course of a call, and the outcomes of its
    waits: for the controller not to be busy, for the drive to be selected, for
    DRQ to be set, and for it to be cleared. `byteCount` is in the cylinder
    registers. `dmaErr` is `PCIIDE_BMISX_IDERR`. `stopResid` is what
    `ata_disk_get_resid` makes of the task file. -/
structure Regs where
  notBusy : Bool := true
  selected : Bool := true
  drqSet : Bool := true
  drqClear : Bool := true
  status : AtaStatus := {}
  altStatus : AtaStatus := {}
  error : Nat := 0
  reason : IntrReason := {}
  byteCount : Nat := 0
  dmaErr : Bool := false
  stopResid : Nat := 0

/-- `ad_state`. `S_X` is `S_IDLE`. -/
inductive AtapiState where
  | idle
  | cmd
  | cdb
  | dataIn
  | dataOut
  | dma
  deriving DecidableEq

/-- The events of the state machine. -/
inductive AtapiEvent where
  | invalid0
  | dataOut
  | idle
  | cdb
  | invalid4
  | dataIn
  | status
  | future
  deriving DecidableEq

/-- The actions of the state machine. -/
inductive AtapiAction where
  | unk
  | nada
  | cdb
  | dataIn
  | dataOut
  | idle
  | re
  | rex
  deriving DecidableEq

/-- `ATAPI_EVENT` -/
def atapiEvent (status : AtaStatus) (reason : IntrReason) : AtapiEvent :=
  match reason.io, reason.cod, status.drq with
  | false, false, false => .invalid0
  | false, false, true => .dataOut
  | false, true, false => .idle
  | false, true, true => .cdb
  | true, false, false => .invalid4
  | true, false, true => .dataIn
  | true, true, false => .status
  | true, true, true => .future

/-- `atapi_PioAction` -/
def pioAction : AtapiState → AtapiEvent → AtapiAction
  | .idle, _ => .nada
  | .cmd, .cdb => .cdb
  | .cmd, .status => .re
  | .cmd, _ => .nada
  | .cdb, .invalid0 => .rex
  | .cdb, .dataOut => .dataOut
  | .cdb, .idle => .nada
  | .cdb, .cdb => .nada
  | .cdb, .invalid4 => .idle
  | .cdb, .dataIn => .dataIn
  | .cdb, .status => .re
  | .cdb, .future => .unk
  | .dataIn, .invalid0 => .rex
  | .dataIn, .dataOut => .unk
  | .dataIn, .idle => .idle
  | .dataIn, .cdb => .unk
  | .dataIn, .invalid4 => .idle
  | .dataIn, .dataIn => .dataIn
  | .dataIn, .status => .re
  | .dataIn, .future => .unk
  | .dataOut, .invalid0 => .rex
  | .dataOut, .dataOut => .dataOut
  | .dataOut, .idle => .idle
  | .dataOut, .cdb => .unk
  | .dataOut, .invalid4 => .idle
  | .dataOut, .dataIn => .unk
  | .dataOut, .status => .re
  | .dataOut, .future => .unk
  | .dma, .invalid0 => .rex
  | .dma, .status => .re
  | .dma, _ => .unk

/-- `atapi_PioNextState` -/
def pioNextState : AtapiState → AtapiEvent → AtapiState
  | .idle, _ => .idle
  | .cmd, .status => .idle
  | .cmd, .future => .idle
  | .cmd, _ => .cdb
  | .cdb, .invalid0 => .idle
  | .cdb, .dataOut => .dataOut
  | .cdb, .idle => .cdb
  | .cdb, .cdb => .cdb
  | .cdb, .invalid4 => .cdb
  | .cdb, .dataIn => .dataIn
  | .cdb, .status => .idle
  | .cdb, .future => .idle
  | .dataIn, .invalid0 => .idle
  | .dataIn, .dataOut => .idle
  | .dataIn, .idle => .dataIn
  | .dataIn, .cdb => .idle
  | .dataIn, .invalid4 => .dataIn
  | .dataIn, .dataIn => .dataIn
  | .dataIn, .status => .idle
  | .dataIn, .future => .idle
  | .dataOut, .invalid0 => .idle
  | .dataOut, .dataOut => .dataOut
  | .dataOut, .idle => .dataOut
  | .dataOut, .cdb => .idle
  | .dataOut, .invalid4 => .dataOut
  | .dataOut, .dataIn => .idle
  | .dataOut, .status => .idle
  | .dataOut, .future => .idle
  | .dma, .invalid0 => .idle
  | .dma, .status => .idle
  | .dma, _ => .dma

/-- The fields of an `ata_drv_t` for ATAPI: `ad_state`, `ad_bogus_drq`,
    `ad_nec_bad_status`, and `AD_NO_CDB_INTR`. -/
structure AtapiDrv where
  adState : AtapiState := .idle
  bogusDrq : Bool := false
  necBadStatus : Bool := false
  noCdbIntr : Bool := false

/-- What goes through the data register: a CDB with its padding, words and single
    bytes to or from the buffer, and words that are thrown away. -/
inductive DataOp where
  | cdb (len pad : Nat)
  | getWords (vAddr n : Nat)
  | getByte (vAddr : Nat)
  | discard (n : Nat)
  | putWords (vAddr n : Nat)
  | putByte (vAddr : Nat)
  deriving DecidableEq

/-- The fields of an `ata_pkt_t` that the controller does not look at: the rest
    of `ap_flags`, `ap_status` and `ap_error`, the CDB, and how far the transfer
    has come. -/
structure Xfer where
  sentCmd : Bool := false
  xferredData : Bool := false
  tranError : Bool := false
  status : AtaStatus := {}
  error : Nat := 0
  cdbLen : Nat := 0
  cdbPad : Nat := 0
  vAddr : Nat := 0
  resid : Nat := 0
  bytesPerBlock : Nat := 512
  wrtCount : Nat := 0
  ops : List DataOp := []

/-- What `ap_start` and `ap_intr` work on: the drive, the packet, and the command
    register of the PCI-IDE controller. -/
structure DrvSys where
  drv : AtapiDrv
  bmicx : BitVec 8
  pkt : AtaPkt
  xfer : Xfer

namespace DrvSys

/-- Change `ad_state`. -/
def setState (s : DrvSys) (x : AtapiState) : DrvSys :=
  { s with drv := { s.drv with adState := x } }

@[simp] theorem setState_state (s : DrvSys) (x : AtapiState) : (s.setState x).drv.adState = x :=
  rfl

/-- Change the flags of the packet. -/
def setFlags (s : DrvSys) (f : ApFlags → ApFlags) : DrvSys :=
  { s with pkt := { s.pkt with flags := f s.pkt.flags } }

/-- Save the status and the error register in the packet. -/
def saveStatus (s : DrvSys) (status : AtaStatus) (error : Nat) : DrvSys :=
  { s with
    pkt := { s.pkt with statusErr := status.err }
    xfer := { s.xfer with status := status, error := error } }

end DrvSys

/-! ## The DMA engine -/

/-- `PCIIDE_BMICX_SSBM`, and also `PCIIDE_BMICX_SSBM_E`. -/
def bmicxSsbm : BitVec 8 := 0x01

/-- `PCIIDE_BMICX_RWCON_WRITE_TO_MEMORY` -/
def bmicxWriteToMemory : BitVec 8 := 0x08

/-- `PCIIDE_BMICX_RWCON_READ_FROM_MEMORY` -/
def bmicxReadFromMemory : BitVec 8 := 0x00

/-- `PCIIDE_BMICX_MASK` -/
def bmicxMask : BitVec 8 := ~~~(bmicxSsbm ||| 0x08)

/-- The engine runs: bit 0 of the command register. -/
def dmaStarted (bmicx : BitVec 8) : Bool := bmicx.getLsbD 0

/-- `ata_pciide_dma_start`: what is in the command register at the end. -/
def pciideDmaStart (bmicx direction : BitVec 8) : BitVec 8 :=
  bmicx &&& bmicxMask ||| bmicxSsbm ||| direction

/-- `ata_pciide_dma_stop` -/
def pciideDmaStop (bmicx : BitVec 8) : BitVec 8 :=
  bmicx &&& (bmicxMask &&& ~~~bmicxSsbm)

@[simp] theorem dmaStarted_start (bmicx direction : BitVec 8) :
    dmaStarted (pciideDmaStart bmicx direction) = true := by
  simp [dmaStarted, pciideDmaStart, bmicxSsbm]

@[simp] theorem dmaStarted_stop (bmicx : BitVec 8) :
    dmaStarted (pciideDmaStop bmicx) = false := by
  simp [dmaStarted, pciideDmaStop, bmicxSsbm]

/-! ## The actions -/

/-- `ata_get_status_clear_intr`, but for the status it returns. The interrupt
    latches are left out. -/
def getStatusClearIntr (r : Regs) (s : DrvSys) : DrvSys :=
  if s.pkt.pciideDma && r.dmaErr then
    { s.setFlags (fun f => { f with error := true }) with
      xfer := { s.xfer with tranError := true } }
  else s

/-- `atapi_start_cmd`. `busyWait` is `AC_BSY_WAIT`. -/
def atapiStartCmd (busyWait : Bool) (r : Regs) (s : DrvSys) : DrvSys × FsmRc :=
  if busyWait && !r.notBusy then (s.setFlags fun f => { f with error := true }, .busy)
  else if r.selected = false then (s, .busy)
  -- Without an interrupt for the CDB, it waits for DRQ and fakes the interrupt.
  else if s.drv.noCdbIntr then (s, .intr)
  else (s, .okay)

/-- `atapi_send_cdb` -/
def atapiSendCdb (s : DrvSys) : DrvSys :=
  { s with xfer := { s.xfer with
      ops := .cdb s.xfer.cdbLen s.xfer.cdbPad :: s.xfer.ops
      sentCmd := true } }

/-- `atapi_start_dma` -/
def atapiStartDma (s : DrvSys) : DrvSys :=
  let direction := if s.pkt.flags.read then bmicxWriteToMemory else bmicxReadFromMemory
  { s with bmicx := pciideDmaStart s.bmicx direction }

/-- `atapi_pio_data_in`: as much as the buffer has room for, with an odd byte at
    the end. What is left of the drive's data is thrown away. -/
def atapiPioDataIn (r : Regs) (s : DrvSys) : DrvSys :=
  let x := s.xfer
  let bytes := min x.resid r.byteCount
  let words := bytes / 2
  let left : Int := r.byteCount - words * 2 - (if bytes % 2 = 1 then 2 else 0)
  let ops := x.ops
  let ops := if words ≠ 0 then .getWords x.vAddr words :: ops else ops
  let ops := if bytes % 2 = 1 then .getByte (x.vAddr + words * 2) :: ops else ops
  let ops := if 0 < left then .discard ((left.toNat + 1) / 2) :: ops else ops
  { s with xfer := { x with
      xferredData := true
      vAddr := x.vAddr + bytes
      resid := x.resid - bytes
      ops := ops } }

/-- `atapi_pio_data_out` -/
def atapiPioDataOut (r : Regs) (s : DrvSys) : DrvSys :=
  let x := s.xfer
  let bytes := min x.resid r.byteCount
  let words := bytes / 2
  let ops := x.ops
  let ops := if words ≠ 0 then .putWords x.vAddr words :: ops else ops
  let ops := if bytes % 2 = 1 then .putByte (x.vAddr + words * 2) :: ops else ops
  { s with xfer := { x with
      xferredData := true
      vAddr := x.vAddr + bytes
      resid := x.resid - bytes
      ops := ops } }

/-- `atapi_status` -/
def atapiStatus (r : Regs) (dmaComplete : Bool) (s : DrvSys) : DrvSys :=
  let s := s.setFlags fun f => { f with gotStatus := true }
  let s := if r.status.df || r.status.err then s.setFlags fun f => { f with error := true } else s
  let s := if s.pkt.flags.error then s.saveStatus r.status r.error else s
  if dmaComplete && !s.xfer.tranError then
    { s with xfer := { s.xfer with xferredData := true, resid := 0 } }
  else s

/-! ## The state machine -/

/-- `atapi_fsm_start` -/
def atapiFsmStart (busyWait : Bool) (r : Regs) (s : DrvSys) : DrvSys × FsmRc :=
  if s.drv.adState ≠ .idle then (s, .busy)
  else
    let t := atapiStartCmd busyWait r (s.setState .cmd)
    if t.2 = .busy then (t.1.setState .idle, .busy) else t

/-- What `atapi_fsm_intr` does for an action. `state` is the state before it. -/
def atapiAct (state : AtapiState) (action : AtapiAction) (r : Regs) (s : DrvSys) :
    DrvSys × FsmRc :=
  match action with
  | .unk => (s, .okay)
  | .nada => (s, .okay)
  | .cdb =>
    let s := atapiSendCdb s
    -- With DMA the state shows that this is not PIO.
    if s.pkt.pciideDma then ((atapiStartDma s).setState .dma, .okay) else (s, .okay)
  | .dataIn =>
    if s.pkt.flags.read && !s.pkt.pciideDma then (atapiPioDataIn r s, .okay) else (s, .okay)
  | .dataOut =>
    if s.pkt.flags.write && !s.pkt.pciideDma then (atapiPioDataOut r s, .okay) else (s, .okay)
  | .idle => ({ s with drv := { s.drv with bogusDrq := true } }, .okay)
  | .re => (atapiStatus r (state = .dma) s, .fini)
  | .rex =>
    let s := { s with drv := { s.drv with necBadStatus := true } }
    (atapiStatus r (state = .dma) s, .fini)

/-- In the state `S_DMA` the interrupt stops the engine. -/
def DrvSys.halt (s : DrvSys) : DrvSys :=
  if s.drv.adState = .dma then { s with bmicx := pciideDmaStop s.bmicx } else s

/-- `atapi_fsm_intr` -/
def atapiFsmIntr (r : Regs) (s : DrvSys) : DrvSys × FsmRc :=
  let state := s.drv.adState
  let s := getStatusClearIntr r s.halt
  if r.status.bsy then (s, .busy)
  else
    let event := atapiEvent r.status r.reason
    atapiAct state (pioAction state event) r (s.setState (pioNextState state event))

/-- A sequence of interrupts. -/
def atapiRun (s : DrvSys) (rs : List Regs) : DrvSys :=
  rs.foldl (fun s r => (atapiFsmIntr r s).1) s

/-! ## What an interrupt does -/

/-- A CDB. -/
def DataOp.isCdb : DataOp → Bool
  | .cdb _ _ => true
  | _ => false

/-- How often `atapi_send_cdb` has been called for the packet. -/
def DrvSys.cdbs (s : DrvSys) : Nat := s.xfer.ops.countP DataOp.isCdb

/-- Nothing has changed that the state machine is about: the state of the drive,
    the engine, whether the packet uses it, and the CDB. -/
structure Keeps (s t : DrvSys) : Prop where
  state : t.drv.adState = s.drv.adState
  bmicx : t.bmicx = s.bmicx
  pciideDma : t.pkt.pciideDma = s.pkt.pciideDma
  sentCmd : t.xfer.sentCmd = s.xfer.sentCmd
  cdbs : t.cdbs = s.cdbs

namespace Keeps

theorem refl (s : DrvSys) : Keeps s s := ⟨rfl, rfl, rfl, rfl, rfl⟩

theorem trans {s t u : DrvSys} (h : Keeps s t) (h' : Keeps t u) : Keeps s u where
  state := h'.state.trans h.state
  bmicx := h'.bmicx.trans h.bmicx
  pciideDma := h'.pciideDma.trans h.pciideDma
  sentCmd := h'.sentCmd.trans h.sentCmd
  cdbs := h'.cdbs.trans h.cdbs

theorem setFlags (s : DrvSys) (f : ApFlags → ApFlags) : Keeps s (s.setFlags f) :=
  ⟨rfl, rfl, rfl, rfl, rfl⟩

theorem saveStatus (s : DrvSys) (status : AtaStatus) (error : Nat) :
    Keeps s (s.saveStatus status error) :=
  ⟨rfl, rfl, rfl, rfl, rfl⟩

theorem setState {s t : DrvSys} (h : Keeps s t) (x : AtapiState) :
    Keeps (s.setState x) (t.setState x) where
  state := rfl
  bmicx := h.bmicx
  pciideDma := h.pciideDma
  sentCmd := h.sentCmd
  cdbs := h.cdbs

/-- Of two ways that keep everything, the code takes one. -/
theorem ite {s t u : DrvSys} (c : Prop) [Decidable c] (h : Keeps s t) (h' : Keeps s u) :
    Keeps s (if c then t else u) := by
  by_cases hc : c
  · rwa [if_pos hc]
  · rwa [if_neg hc]

theorem getStatusClearIntr (r : Regs) (s : DrvSys) : Keeps s (getStatusClearIntr r s) :=
  ite _ ⟨rfl, rfl, rfl, rfl, rfl⟩ (refl s)

theorem atapiStatus (r : Regs) (dmaComplete : Bool) (s : DrvSys) :
    Keeps s (atapiStatus r dmaComplete s) := by
  unfold Ata.atapiStatus
  dsimp only
  split <;> split <;> split <;> exact ⟨rfl, rfl, rfl, rfl, rfl⟩

/-- What is not a CDB does not count. -/
theorem countP_cons {op : DataOp} (hop : op.isCdb = false) (c : Prop) [Decidable c]
    (ops : List DataOp) :
    (if c then op :: ops else ops).countP DataOp.isCdb = ops.countP DataOp.isCdb := by
  split
  · rw [List.countP_cons_of_neg]
    rw [hop]
    exact Bool.false_ne_true
  · rfl

theorem atapiPioDataIn (r : Regs) (s : DrvSys) : Keeps s (atapiPioDataIn r s) where
  state := rfl
  bmicx := rfl
  pciideDma := rfl
  sentCmd := rfl
  cdbs := ((countP_cons rfl _ _).trans (countP_cons rfl _ _)).trans (countP_cons rfl _ _)

theorem atapiPioDataOut (r : Regs) (s : DrvSys) : Keeps s (atapiPioDataOut r s) where
  state := rfl
  bmicx := rfl
  pciideDma := rfl
  sentCmd := rfl
  cdbs := (countP_cons rfl _ _).trans (countP_cons rfl _ _)

/-- Every action but that of sending the CDB keeps all this. -/
theorem atapiAct {action : AtapiAction} (ha : action ≠ .cdb) (state : AtapiState) (r : Regs)
    (s : DrvSys) : Keeps s (atapiAct state action r s).1 := by
  unfold Ata.atapiAct
  cases action with
  | cdb => exact absurd rfl ha
  | unk | nada => exact refl s
  | idle => exact ⟨rfl, rfl, rfl, rfl, rfl⟩
  | re => exact atapiStatus r _ s
  | rex =>
      refine trans ?_ (atapiStatus r _ _)
      exact ⟨rfl, rfl, rfl, rfl, rfl⟩
  | dataIn =>
      dsimp only
      split
      · exact atapiPioDataIn r s
      · exact refl s
  | dataOut =>
      dsimp only
      split
      · exact atapiPioDataOut r s
      · exact refl s

end Keeps

/-- The return code for an action: the packet is done when its status has been
    read. -/
theorem atapiAct_fini (state : AtapiState) (action : AtapiAction) (r : Regs) (s : DrvSys) :
    (atapiAct state action r s).2 = if action = .re ∨ action = .rex then .fini else .okay := by
  unfold atapiAct
  cases action with
  | unk | nada | idle | re | rex => rfl
  | cdb | dataIn | dataOut =>
      dsimp only
      split <;> rfl

/-- What an interrupt does, and what it returns. The engine is stopped first if
    the drive is in `S_DMA`. Then either the drive is busy, or the CDB is sent, or
    the drive goes on to the next state. -/
inductive Interrupt (r : Regs) (s : DrvSys) : DrvSys → FsmRc → Prop where
  | busy {t : DrvSys} (hb : r.status.bsy = true) (h : Keeps s.halt t) : Interrupt r s t .busy
  | cdb {t : DrvSys} (hb : r.status.bsy = false) (hs : s.drv.adState = .cmd)
      (he : atapiEvent r.status r.reason = .cdb)
      (hstate : t.drv.adState = if s.pkt.pciideDma then .dma else .cdb)
      (hbmicx : dmaStarted t.bmicx = (s.pkt.pciideDma || dmaStarted s.bmicx))
      (hdma : t.pkt.pciideDma = s.pkt.pciideDma) (hsent : t.xfer.sentCmd = true)
      (hcdbs : t.cdbs = s.cdbs + 1) : Interrupt r s t .okay
  | other {t : DrvSys} {rc : FsmRc} (hb : r.status.bsy = false)
      (he : ¬(s.drv.adState = .cmd ∧ atapiEvent r.status r.reason = .cdb))
      (h : Keeps (s.halt.setState (pioNextState s.drv.adState (atapiEvent r.status r.reason))) t)
      (hrc : rc = .okay ∨ rc = .fini ∧
        pioNextState s.drv.adState (atapiEvent r.status r.reason) = .idle) : Interrupt r s t rc

/-- The CDB is sent for one entry of the table. -/
theorem pioAction_cdb (state : AtapiState) (event : AtapiEvent) :
    pioAction state event = .cdb ↔ state = .cmd ∧ event = .cdb := by
  cases state <;> cases event <;> decide

/-- The status is read when the drive goes to the idle state. -/
theorem pioAction_fini {state : AtapiState} {event : AtapiEvent}
    (h : pioAction state event = .re ∨ pioAction state event = .rex) :
    pioNextState state event = .idle := by
  revert h
  cases state <;> cases event <;> decide

/-- Outside the state `S_DMA` an interrupt does not stop the engine. -/
theorem halt_of_ne {s : DrvSys} (h : s.drv.adState ≠ .dma) : s.halt = s := if_neg h

/-- The CDB is sent, and the engine started if the packet uses it. -/
theorem atapiAct_cdb {r : Regs} {s t : DrvSys} (h : Keeps s t) (hb : r.status.bsy = false)
    (hs : s.drv.adState = .cmd) (he : atapiEvent r.status r.reason = .cdb) :
    Interrupt r s (atapiAct .cmd .cdb r (t.setState .cdb)).1 .okay := by
  have hcdbs : (atapiSendCdb (t.setState .cdb)).cdbs = s.cdbs + 1 := by
    rw [← h.cdbs]
    exact List.countP_cons_of_pos rfl
  have hdma : (atapiSendCdb (t.setState .cdb)).pkt.pciideDma = s.pkt.pciideDma := h.pciideDma
  unfold atapiAct
  dsimp only
  cases hd : s.pkt.pciideDma with
  | true =>
      rw [hd] at hdma
      rw [if_pos hdma]
      refine .cdb hb hs he ?_ ?_ (hdma.trans hd.symm) rfl hcdbs
      · rw [hd]
        rfl
      · rw [hd]
        exact dmaStarted_start _ _
  | false =>
      rw [hd] at hdma
      rw [hdma, if_neg Bool.false_ne_true]
      refine .cdb hb hs he ?_ ?_ (hdma.trans hd.symm) rfl hcdbs
      · rw [hd]
        rfl
      · rw [hd, Bool.false_or, ← h.bmicx]
        rfl

theorem atapiFsmIntr_spec (r : Regs) (s : DrvSys) :
    Interrupt r s (atapiFsmIntr r s).1 (atapiFsmIntr r s).2 := by
  have hclear := Keeps.getStatusClearIntr r s.halt
  unfold atapiFsmIntr
  dsimp only
  cases hb : r.status.bsy with
  | true => exact .busy hb hclear
  | false =>
      rw [if_neg Bool.false_ne_true]
      by_cases he : s.drv.adState = .cmd ∧ atapiEvent r.status r.reason = .cdb
      · rcases he with ⟨hs, he⟩
        rw [halt_of_ne (by rw [hs]; nofun)] at hclear ⊢
        rw [atapiAct_fini, hs, he]
        exact atapiAct_cdb hclear hb hs he
      · have ha : pioAction s.drv.adState (atapiEvent r.status r.reason) ≠ .cdb :=
          fun ha => he ((pioAction_cdb _ _).1 ha)
        refine .other hb he ((hclear.setState _).trans (Keeps.atapiAct ha _ r _)) ?_
        rw [atapiAct_fini]
        split
        · next hfini => exact Or.inr ⟨rfl, pioAction_fini hfini⟩
        · exact Or.inl rfl

@[simp] theorem halt_state (s : DrvSys) : s.halt.drv.adState = s.drv.adState := by
  unfold DrvSys.halt
  split <;> rfl

@[simp] theorem halt_pciideDma (s : DrvSys) : s.halt.pkt.pciideDma = s.pkt.pciideDma := by
  unfold DrvSys.halt
  split <;> rfl

@[simp] theorem halt_sentCmd (s : DrvSys) : s.halt.xfer.sentCmd = s.xfer.sentCmd := by
  unfold DrvSys.halt
  split <;> rfl

@[simp] theorem halt_cdbs (s : DrvSys) : s.halt.cdbs = s.cdbs := by
  unfold DrvSys.halt
  split <;> rfl

/-! ## Starting a command -/

/-- What `atapi_fsm_start` does: the drive is not idle, or the command is refused,
    or the drive waits for the CDB. The engine and the CDB are left alone. -/
theorem atapiFsmStart_spec (busyWait : Bool) (r : Regs) (s : DrvSys) :
    ((atapiFsmStart busyWait r s).2 = .busy ∧ Keeps s (atapiFsmStart busyWait r s).1) ∨
      ((atapiFsmStart busyWait r s).2 ≠ .busy ∧ (atapiFsmStart busyWait r s).2 ≠ .fini ∧
        s.drv.adState = .idle ∧ Keeps (s.setState .cmd) (atapiFsmStart busyWait r s).1) := by
  unfold atapiFsmStart
  by_cases hs : s.drv.adState = .idle
  · rw [if_neg (fun h => h hs)]
    have hk : Keeps (s.setState .cmd) (atapiStartCmd busyWait r (s.setState .cmd)).1 ∧
        (atapiStartCmd busyWait r (s.setState .cmd)).2 ≠ .fini := by
      unfold atapiStartCmd
      split
      · exact ⟨(Keeps.setFlags (s.setState .cmd) fun f => { f with error := true }), nofun⟩
      · split
        · exact ⟨Keeps.refl _, nofun⟩
        · split
          · exact ⟨Keeps.refl _, nofun⟩
          · exact ⟨Keeps.refl _, nofun⟩
    dsimp only
    split
    · exact Or.inl ⟨rfl, hs.symm, hk.1.bmicx, hk.1.pciideDma, hk.1.sentCmd, hk.1.cdbs⟩
    · next hrc => exact Or.inr ⟨hrc, hk.2, hs, hk.1⟩
  · rw [if_pos hs]
    exact Or.inl ⟨rfl, Keeps.refl s⟩

/-! ## The CDB -/

/-- The states in which the CDB should have been sent. -/
def AtapiState.past : AtapiState → Bool
  | .idle => false
  | .cmd => false
  | .cdb => true
  | .dataIn => true
  | .dataOut => true
  | .dma => true

/-- Since the state `s` the CDB has been sent at most once, and it has been sent
    if the drive has gone on. -/
structure CdbOk (s t : DrvSys) : Prop where
  past : t.drv.adState.past = true → t.cdbs = s.cdbs + 1 ∧ t.xfer.sentCmd = true
  once : t.cdbs ≤ s.cdbs + 1

/-- The events that do not make a drive in the state `S_CMD` go on without the
    CDB. -/
def AtapiEvent.orderly : AtapiEvent → Bool
  | .cdb => true
  | .status => true
  | .future => true
  | _ => false

/-- The events of the interrupts that find the drive not busy begin with one of
    these, if there are any. -/
def FirstOrderly (rs : List Regs) : Prop :=
  ∀ r, rs.find? (fun r => !r.status.bsy) = some r → (atapiEvent r.status r.reason).orderly = true

/-- A drive that has been given a command never returns to the state `S_CMD`, and
    an idle one stays idle. -/
theorem pioNextState_spec (state : AtapiState) (event : AtapiEvent) :
    pioNextState state event ≠ .cmd ∧ (state = .idle → pioNextState state event = .idle) ∧
      (state = .cmd → event ≠ .cdb →
        (pioNextState state event).past = !event.orderly) := by
  cases state <;> cases event <;> decide

section Run

variable {s t : DrvSys}

theorem CdbOk.idle (h : t.drv.adState.past = false) (hc : t.cdbs = s.cdbs) : CdbOk s t where
  past := fun hp => by
    rw [h] at hp
    cases hp
  once := by omega

/-- The first interrupt that is not busy decides. -/
theorem firstOrderly_cons {r : Regs} (rs : List Regs) (hb : r.status.bsy = false) :
    FirstOrderly (r :: rs) ↔ (atapiEvent r.status r.reason).orderly = true := by
  unfold FirstOrderly
  rw [List.find?_cons_of_pos (by rw [hb]; rfl)]
  constructor
  · intro h
    exact h r rfl
  · intro h r' hr'
    rwa [← Option.some.inj hr']

theorem firstOrderly_cons_busy {r : Regs} (rs : List Regs) (hb : r.status.bsy = true) :
    FirstOrderly (r :: rs) ↔ FirstOrderly rs := by
  unfold FirstOrderly
  rw [List.find?_cons_of_neg (by rw [hb]; exact Bool.false_ne_true)]

/-- Once the drive does not wait for the CDB any more, nothing can go wrong. -/
theorem CdbOk.step (h : CdbOk s t) (hs : t.drv.adState ≠ .cmd) (r : Regs) :
    CdbOk s (atapiFsmIntr r t).1 ∧ (atapiFsmIntr r t).1.drv.adState ≠ .cmd := by
  have hspec := atapiFsmIntr_spec r t
  generalize (atapiFsmIntr r t).1 = t' at hspec ⊢
  generalize (atapiFsmIntr r t).2 = rc at hspec
  cases hspec with
  | cdb _ hcmd => exact absurd hcmd hs
  | busy _ hk =>
      refine ⟨⟨fun hp => ?_, ?_⟩, ?_⟩
      · rw [hk.state, halt_state] at hp
        rw [hk.cdbs, hk.sentCmd, halt_cdbs, halt_sentCmd]
        exact h.past hp
      · rw [hk.cdbs, halt_cdbs]
        exact h.once
      · rw [hk.state, halt_state]
        exact hs
  | other _ _ hk _ =>
      rcases pioNextState_spec t.drv.adState (atapiEvent r.status r.reason) with ⟨hne, hidle, -⟩
      have hcdbs : t'.cdbs = t.cdbs := hk.cdbs.trans (halt_cdbs t)
      have hsent : t'.xfer.sentCmd = t.xfer.sentCmd := hk.sentCmd.trans (halt_sentCmd t)
      refine ⟨⟨fun hp => ?_, ?_⟩, ?_⟩
      · rw [hk.state] at hp
        rw [hcdbs, hsent]
        -- A drive that goes on was not idle before.
        refine h.past ?_
        cases hst : t.drv.adState with
        | idle =>
            rw [DrvSys.setState_state, hidle hst] at hp
            exact hp
        | cmd => exact absurd hst hs
        | cdb | dataIn | dataOut | dma => rfl
      · rw [hcdbs]
        exact h.once
      · rw [hk.state]
        exact hne

/-- A run of a drive that does not wait for the CDB. -/
theorem CdbOk.run (rs : List Regs) : ∀ {t : DrvSys}, CdbOk s t → t.drv.adState ≠ .cmd →
    CdbOk s (atapiRun t rs) := by
  induction rs with
  | nil =>
      intro t h _
      exact h
  | cons r rs ih =>
      intro t h hs
      have h' := h.step hs r
      exact ih h'.1 h'.2

/-- A run of a drive that waits for the CDB: all is well if the first event it
    reports is as it should be. Else the CDB is never sent. -/
theorem atapiRun_cdbs (rs : List Regs) : ∀ {t : DrvSys}, t.drv.adState = .cmd →
    t.cdbs = s.cdbs → ((∀ n, CdbOk s (atapiRun t (rs.take n))) ↔ FirstOrderly rs) := by
  induction rs with
  | nil =>
      intro t hs hc
      refine ⟨fun _ r hr => (by cases hr), fun _ n => ?_⟩
      rw [List.take_nil]
      exact CdbOk.idle (by rw [show (atapiRun t []).drv.adState = _ from hs]; rfl) hc
  | cons r rs ih =>
      intro t hs hc
      have ht : CdbOk s t := CdbOk.idle (by rw [hs]; rfl) hc
      -- One interrupt taken off the run.
      have hsplit : (∀ n, CdbOk s (atapiRun t ((r :: rs).take n))) ↔
          ∀ n, CdbOk s (atapiRun (atapiFsmIntr r t).1 (rs.take n)) := by
        constructor
        · intro h n
          exact h (n + 1)
        · intro h n
          cases n with
          | zero => exact ht
          | succ n => exact h n
      rw [hsplit]
      have hspec := atapiFsmIntr_spec r t
      generalize (atapiFsmIntr r t).1 = t' at hspec ⊢
      generalize (atapiFsmIntr r t).2 = rc at hspec
      cases hspec with
      -- The interrupt is not for us, and the next one decides.
      | busy hb hk =>
          rw [firstOrderly_cons_busy rs hb]
          exact ih (hk.state.trans ((halt_state t).trans hs))
            (hk.cdbs.trans ((halt_cdbs t).trans hc))
      | cdb hb _ he hstate _ _ hsent hcdbs =>
          -- The drive asks for the CDB, and gets it. Nothing can go wrong any more.
          have hok : CdbOk s t' := ⟨fun _ => ⟨by omega, hsent⟩, by omega⟩
          have hne : t'.drv.adState ≠ .cmd := by
            rw [hstate]
            split <;> nofun
          rw [firstOrderly_cons rs hb, he]
          exact ⟨fun _ => rfl, fun _ n => hok.run _ hne⟩
      | other hb he hk _ =>
          rcases pioNextState_spec t.drv.adState (atapiEvent r.status r.reason) with ⟨hne, -, hpast⟩
          -- Any other event takes the drive on without the CDB.
          have hpast' := hpast hs fun h => he ⟨hs, h⟩
          have hcdbs : t'.cdbs = s.cdbs := hk.cdbs.trans ((halt_cdbs t).trans hc)
          have hstate : t'.drv.adState = pioNextState t.drv.adState _ := hk.state
          rw [← hstate] at hne hpast'
          rw [firstOrderly_cons rs hb]
          cases ho : (atapiEvent r.status r.reason).orderly with
          | true =>
              rw [ho] at hpast'
              exact ⟨fun _ => rfl, fun _ n => (CdbOk.idle hpast' hcdbs).run _ hne⟩
          | false =>
              rw [ho] at hpast'
              -- It is past the command phase, and the CDB has not been sent.
              refine ⟨fun h => ?_, fun hf => (by cases hf)⟩
              have hsent := ((h 0).past hpast').1
              rw [show (atapiRun t' (rs.take 0)).cdbs = t'.cdbs from rfl] at hsent
              omega

/-- A command has been started, and any interrupts follow. In every state the
    CDB has been sent at most once, and exactly once if the drive is past the
    command phase, if and only if the first interrupt that finds the drive not busy
    has one of the events for the CDB, for the status, and for future use. -/
theorem atapi_cdb_iff (busyWait : Bool) (r : Regs) (s : DrvSys) (rs : List Regs)
    (hstart : (atapiFsmStart busyWait r s).2 ≠ .busy) :
    (∀ n, CdbOk s (atapiRun (atapiFsmStart busyWait r s).1 (rs.take n))) ↔ FirstOrderly rs := by
  rcases atapiFsmStart_spec busyWait r s with ⟨hb, -⟩ | ⟨-, -, -, hk⟩
  · exact absurd hb hstart
  · exact atapiRun_cdbs rs hk.state hk.cdbs

end Run

/-- A drive with a packet to read by PIO. -/
def idleDrive : DrvSys where
  drv := {}
  bmicx := 0
  pkt := ⟨{ atapi := true, read := true }, false, false⟩
  xfer := { cdbLen := 12, resid := 2048 }

/-- Registers that show an event. -/
def Regs.at (io cod drq : Bool) : Regs :=
  { status := { drq := drq }, reason := { io := io, cod := cod } }

/-- The drive asks for the CDB, has data, and then the status. -/
theorem atapi_cdb_iff_read :
    CdbOk idleDrive (atapiRun (atapiFsmStart false {} idleDrive).1
      [.at false true true, .at true false true, .at true true false]) :=
  (atapi_cdb_iff false {} idleDrive
    [.at false true true, .at true false true, .at true true false] (by decide)).2
    (fun r hr => by cases hr; rfl) 3

/-- An interrupt with DRQ and IO clear, while the drive waits for the CDB, and the
    drive goes on without it. -/
theorem atapi_cdb_skipped :
    ¬ ∀ (busyWait : Bool) (r : Regs) (s : DrvSys) (rs : List Regs),
      (atapiFsmStart busyWait r s).2 ≠ .busy →
        ∀ n, CdbOk s (atapiRun (atapiFsmStart busyWait r s).1 (rs.take n)) := by
  intro h
  have hok := h false {} idleDrive [.at false true false] (by decide) 1
  exact absurd (hok.past rfl).1 (by decide)

end Ata

end Sil3112
