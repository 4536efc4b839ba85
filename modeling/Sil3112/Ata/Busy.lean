import Sil3112.Ata.Hardware

/-!
# What Busy Leaves Behind

Two functions return `ATA_FSM_RC_BUSY` to say that nothing has happened.
`atapi_fsm_intr` does so for a drive that bounces the busy bit, and the driver
waits for the next interrupt. `ap_start` does so for a drive that does not take
the command, and GHD requeues the packet.

But both do something before they find out. In the state `S_DMA` the interrupt
has halted the DMA engine, and no later interrupt starts it again. The latch of a
DMA error has been cleared, and the packet keeps the error. `atapi_start_cmd`
sets `AP_ERROR` when the controller stays busy, and no later attempt clears it.

## Main definitions

* `BounceFree`: A bounced interrupt has not changed anything.
* `BounceHarmless`: What makes it so.
* `attempt`, `AllRejected`: The attempts to start a packet, and that none of them
  succeeds.
* `Untouched`: The rejected attempts have left nothing behind.

## Theorems

* `bounce_free_iff`: Which bounced interrupts change nothing.
* `atapiRun_halted`: A halted engine stays halted until the packet is done.
* `start_busy`: All that a rejected start does.
* `rejected_start_iff`: Which rejected starts are transparent.
-/

namespace Sil3112

namespace Ata

/-! ## A bounced busy bit -/

/-- An interrupt has left the state of the drive, the flags and the residual of the
    packet, and the engine as they were. -/
structure BounceFree (s t : DrvSys) : Prop where
  state : t.drv.adState = s.drv.adState
  flags : t.pkt.flags = s.pkt.flags
  sentCmd : t.xfer.sentCmd = s.xfer.sentCmd
  xferredData : t.xfer.xferredData = s.xfer.xferredData
  tranError : t.xfer.tranError = s.xfer.tranError
  resid : t.xfer.resid = s.xfer.resid
  engine : dmaStarted t.bmicx = dmaStarted s.bmicx

/-- The engine is not running in the state `S_DMA`, and a DMA error that the packet
    would be given is one that it has already. -/
structure BounceHarmless (r : Regs) (s : DrvSys) : Prop where
  engine : s.drv.adState = .dma → dmaStarted s.bmicx = false
  latch : s.pkt.pciideDma = true → r.dmaErr = true →
    s.pkt.flags.error = true ∧ s.xfer.tranError = true

/-- Halting the engine changes nothing else. -/
theorem halt_eq (s : DrvSys) : s.halt = { s with bmicx := s.halt.bmicx } := by
  unfold DrvSys.halt
  split <;> rfl

theorem dmaStarted_halt (s : DrvSys) :
    dmaStarted s.halt.bmicx = (!decide (s.drv.adState = .dma) && dmaStarted s.bmicx) := by
  unfold DrvSys.halt
  by_cases h : s.drv.adState = .dma
  · rw [if_pos h, dmaStarted_stop]
    simp [h]
  · rw [if_neg h]
    simp [h]

/-- When the drive is busy, the engine has been halted and the latches have been
    cleared, and that is all. -/
theorem atapiFsmIntr_busy {r : Regs} {s : DrvSys} (h : r.status.bsy = true) :
    atapiFsmIntr r s = (getStatusClearIntr r s.halt, .busy) := by
  unfold atapiFsmIntr
  dsimp only
  rw [if_pos h]

/-- A bounced interrupt returns `ATA_FSM_RC_BUSY`. It changes nothing if and only if
    there was no engine to halt and no new DMA error. -/
theorem bounce_free_iff (r : Regs) (s : DrvSys) (h : r.status.bsy = true) :
    (atapiFsmIntr r s).2 = .busy ∧
      (BounceFree s (atapiFsmIntr r s).1 ↔ BounceHarmless r s) := by
  rw [atapiFsmIntr_busy h]
  refine ⟨rfl, ?_⟩
  have hengine : dmaStarted s.halt.bmicx = dmaStarted s.bmicx ↔
      (s.drv.adState = .dma → dmaStarted s.bmicx = false) := by
    rw [dmaStarted_halt]
    cases dmaStarted s.bmicx <;> simp
  unfold getStatusClearIntr
  by_cases hlatch : (s.halt.pkt.pciideDma && r.dmaErr) = true
  · rw [if_pos hlatch]
    rw [halt_pciideDma, Bool.and_eq_true] at hlatch
    constructor
    · intro hfree
      refine ⟨hengine.mp hfree.engine, fun _ _ => ⟨?_, ?_⟩⟩
      · rw [← hfree.flags]
        rfl
      · exact hfree.tranError.symm
    · intro hok
      rcases hok.latch hlatch.1 hlatch.2 with ⟨herr, htran⟩
      refine ⟨halt_state s, ?_, ?_, ?_, htran.symm, ?_, hengine.mpr hok.engine⟩
      · -- The flag that is set is one that was set.
        rw [halt_eq]
        show { s.pkt.flags with error := true } = s.pkt.flags
        rw [← herr]
      · rw [halt_eq]
      · rw [halt_eq]
      · rw [halt_eq]
  · rw [if_neg hlatch]
    rw [halt_pciideDma, Bool.and_eq_true] at hlatch
    constructor
    · intro hfree
      exact ⟨hengine.mp hfree.engine, fun hd he => absurd ⟨hd, he⟩ hlatch⟩
    · intro hok
      rw [halt_eq]
      exact ⟨rfl, rfl, rfl, rfl, rfl, rfl, hengine.mpr hok.engine⟩

/-- An ATAPI drive in the course of a read by DMA. -/
def dmaReading : DrvSys where
  drv := { adState := .dma }
  bmicx := bmicxSsbm ||| bmicxWriteToMemory
  pkt := ⟨{ atapi := true, read := true }, false, true⟩
  xfer := { sentCmd := true, resid := 2048 }

/-- A drive in the course of a read by PIO, which shows that it is busy. -/
theorem bounce_free_pio :
    BounceFree { dmaReading with drv := { adState := .dataIn }, bmicx := 0 }
      (atapiFsmIntr { status := { bsy := true } }
        { dmaReading with drv := { adState := .dataIn }, bmicx := 0 }).1 :=
  (bounce_free_iff { status := { bsy := true } }
    { dmaReading with drv := { adState := .dataIn }, bmicx := 0 } rfl).2.mpr
    ⟨fun _ => by decide, fun _ h => absurd h (by decide)⟩

/-- The read by DMA loses its engine. -/
theorem bounce_stops_engine :
    ¬ (∀ (r : Regs) (s : DrvSys), r.status.bsy = true → BounceFree s (atapiFsmIntr r s).1) ∧
    dmaStarted dmaReading.bmicx = true ∧
    dmaStarted (atapiFsmIntr { status := { bsy := true } } dmaReading).1.bmicx = false := by
  have hbefore : dmaStarted dmaReading.bmicx = true := by decide
  have hafter : dmaStarted
      (atapiFsmIntr { status := { bsy := true } } dmaReading).1.bmicx = false := by decide
  refine ⟨fun hall => ?_, hbefore, hafter⟩
  have hfree := (hall { status := { bsy := true } } dmaReading rfl).engine
  rw [hbefore, hafter] at hfree
  cases hfree

/-- The engine is halted, and the drive is past the point where the CDB starts it. -/
structure Halted (s : DrvSys) : Prop where
  engine : dmaStarted s.bmicx = false
  state : s.drv.adState = .dma ∨ s.drv.adState = .idle

/-- From these two states there is no way back to the one that sends the CDB. -/
theorem pioNextState_halted {state : AtapiState} (h : state = .dma ∨ state = .idle)
    (event : AtapiEvent) :
    pioNextState state event = .dma ∨ pioNextState state event = .idle := by
  rcases h with rfl | rfl
  · cases event <;> decide
  · exact Or.inr rfl

theorem Interrupt.halted {r : Regs} {s t : DrvSys} {rc : FsmRc} (h : Interrupt r s t rc)
    (hstate : s.drv.adState = .dma ∨ s.drv.adState = .idle)
    (hhalt : dmaStarted s.halt.bmicx = false) : Halted t := by
  cases h with
  | busy hb hk =>
      refine ⟨by rw [hk.bmicx, hhalt], ?_⟩
      rw [hk.state, halt_state]
      exact hstate
  | cdb hb hs =>
      -- The CDB is sent in a state of its own.
      rw [hs] at hstate
      simp at hstate
  | other hb he hk hrc =>
      refine ⟨by rw [hk.bmicx]; exact hhalt, ?_⟩
      rw [hk.state]
      exact pioNextState_halted hstate _

/-- An interrupt in the state `S_DMA` has halted the engine when it returns, also
    when it has found the drive busy. -/
theorem halted_of_dma (r : Regs) {s : DrvSys} (h : s.drv.adState = .dma) :
    Halted (atapiFsmIntr r s).1 := by
  refine (atapiFsmIntr_spec r s).halted (Or.inl h) ?_
  rw [dmaStarted_halt, h]
  rfl

theorem halted_intr (r : Regs) {s : DrvSys} (h : Halted s) : Halted (atapiFsmIntr r s).1 := by
  refine (atapiFsmIntr_spec r s).halted h.state ?_
  rw [dmaStarted_halt, h.engine, Bool.and_false]

/-- Whatever interrupts follow a bounced one, the engine is not started again for
    this packet. -/
theorem atapiRun_halted (rs : List Regs) : ∀ {s : DrvSys}, Halted s → Halted (atapiRun s rs) := by
  induction rs with
  | nil => exact fun h => h
  | cons r rs ih => exact fun h => ih (halted_intr r h)

/-! ## A rejected start -/

/-- `atapi_start_cmd` waits for the controller in vain, and sets `AP_ERROR`. -/
def startSlips (busyWait : Bool) (func : ApFunc) (r : Regs) (s : DrvSys) : Bool :=
  decide (func = .atapi) && decide (s.drv.adState = .idle) && busyWait && !r.notBusy

/-- `ap_wrt_count`, which `ata_disk_start_pio_out` sets first of all. -/
def startXfer (func : ApFunc) (x : Xfer) : Xfer :=
  if func = .disk .pioOut then { x with wrtCount := 0 } else x

/-- The state machine puts the drive back into the idle state. What remains is the
    flag. -/
theorem atapiFsmStart_busy {busyWait : Bool} {r : Regs} {s : DrvSys}
    (h : (atapiFsmStart busyWait r s).2 = .busy) :
    (atapiFsmStart busyWait r s).1 =
      s.setFlags fun f => { f with error := f.error || startSlips busyWait .atapi r s } := by
  unfold atapiFsmStart atapiStartCmd at *
  by_cases hs : s.drv.adState = .idle
  · have hdrv : { s.drv with adState := AtapiState.idle } = s.drv := by
      rw [← hs]
    rw [if_neg (fun hn => hn hs)] at h ⊢
    cases hslip : busyWait && !r.notBusy with
    | true => simp [startSlips, hslip, hs, DrvSys.setFlags, DrvSys.setState, hdrv]
    | false =>
        by_cases hsel : r.selected = false
        · simp [startSlips, hslip, hs, hsel, DrvSys.setFlags, DrvSys.setState, hdrv]
        · -- With the drive selected there is nothing that could go wrong.
          exfalso
          rw [hslip] at h
          cases hcdb : s.drv.noCdbIntr <;> simp [hsel, hcdb, DrvSys.setState] at h
  · simp [startSlips, hs, DrvSys.setFlags]

theorem diskStart_busy {start : DiskStart} {busyWait : Bool} {r : Regs} {s : DrvSys}
    (h : (diskStart start busyWait r s).2 = .busy) :
    (diskStart start busyWait r s).1 = { s with xfer := startXfer (.disk start) s.xfer } := by
  unfold diskStart startXfer at *
  cases hcommon : diskStartCommon busyWait r with
  | true =>
      -- The drive has taken the command.
      cases start <;> simp [hcommon] at h
  | false => cases start <;> simp

/-- All that a start does that returns `ATA_FSM_RC_BUSY`. -/
theorem start_busy {busyWait : Bool} {func : ApFunc} {r : Regs} {s : DrvSys}
    (h : (func.start busyWait r s).2 = .busy) :
    (func.start busyWait r s).1 =
      { s.setFlags (fun f => { f with error := f.error || startSlips busyWait func r s }) with
        xfer := startXfer func s.xfer } := by
  cases func with
  | queued => cases h
  | disk start =>
      refine (diskStart_busy h).trans ?_
      simp [startSlips, DrvSys.setFlags]
  | atapi => exact atapiFsmStart_busy h

/-! ## The controller -/

/-- The controller has nothing to do, as `ata_ctlr_fsm` asserts for a start. -/
structure Ctlr.Idle (s : Ctlr Hw) : Prop where
  state : s.state = .idle
  active : s.active = none
  activeDrv : s.activeDrv = none

/-- What the registers are going to read. -/
def Ctlr.withRegs (s : Ctlr Hw) (ρ : Nat → Regs) : Ctlr Hw :=
  { s with dev := { s.dev with regs := ρ } }

theorem Ctlr.Idle.withRegs {s : Ctlr Hw} (h : s.Idle) (ρ : Nat → Regs) : (s.withRegs ρ).Idle :=
  ⟨h.state, h.active, h.activeDrv⟩

/-- GHD has `ata_hba_start` try to start a packet. -/
def attempt (c : HwConfig) (g : Gcmd) (s : Ctlr Hw) (ρ : Nat → Regs) : Ctlr Hw × Bool :=
  hbaStart (hwDev c) ⟨(s.dev.info g).drv.targ⟩ g (s.withRegs ρ)

/-- What `ap_start` returns in such an attempt. -/
def attemptRc (c : HwConfig) (g : Gcmd) (s : Ctlr Hw) (ρ : Nat → Regs) : FsmRc :=
  ((hwDev c).apStart (s.withRegs ρ).dev (.cmd g) (s.pkt (.cmd g))).2.2

/-- One attempt after the other. -/
def attempts (c : HwConfig) (g : Gcmd) (s : Ctlr Hw) (ρs : List (Nat → Regs)) : Ctlr Hw :=
  ρs.foldl (fun s ρ => (attempt c g s ρ).1) s

/-- In each of them `ap_start` returns `ATA_FSM_RC_BUSY`. -/
def AllRejected (c : HwConfig) (g : Gcmd) : Ctlr Hw → List (Nat → Regs) → Prop
  | _, [] => True
  | s, ρ :: ρs => attemptRc c g s ρ = .busy ∧ AllRejected c g (attempt c g s ρ).1 ρs

/-- The packet is one for ATAPI, its drive is idle, and `AC_BSY_WAIT` makes the
    start wait for a controller that stays busy. -/
def slips (c : HwConfig) (g : Gcmd) (s : Ctlr Hw) (ρ : Nat → Regs) : Bool :=
  startSlips c.busyWait (s.dev.info g).func (ρ 0)
    ⟨s.dev.ad (s.dev.info g).drv, s.dev.bmicx, s.pkt (.cmd g), s.dev.xfer (.cmd g)⟩

/-- After some attempts everything is as before, and the next one comes to what it
    would have come to without them. Of a packet that writes by PIO the count of
    what it has written last may be zero, which a start sets it to. -/
structure Untouched (c : HwConfig) (g : Gcmd) (s t : Ctlr Hw) : Prop where
  state : t.state = s.state
  active : t.active = s.active
  activeDrv : t.activeDrv = s.activeDrv
  fault : t.fault = s.fault
  log : t.log = s.log
  pkt : t.pkt = s.pkt
  ad : t.dev.ad = s.dev.ad
  bmicx : t.dev.bmicx = s.dev.bmicx
  info : t.dev.info = s.dev.info
  xfer : t.dev.xfer = Function.update s.dev.xfer (.cmd g)
    { s.dev.xfer (.cmd g) with wrtCount := (t.dev.xfer (.cmd g)).wrtCount }
  later : ∀ ρ, attempt c g t ρ = attempt c g s ρ

/-- A packet as the attempts have left it: with the flag, if `e`. -/
def Ctlr.residue (s : Ctlr Hw) (g : Gcmd) (e : Bool) (cur : DrvId) (ρ : Nat → Regs) (x : Xfer) :
    Ctlr Hw :=
  { s.setFlags (.cmd g) (fun f => { f with error := f.error || e }) with
    dev := { s.dev with cur := cur, regs := ρ, xfer := Function.update s.dev.xfer (.cmd g) x } }

/-- Nothing has changed but for that, and for which registers are read next. -/
def Residue (g : Gcmd) (e : Bool) (s t : Ctlr Hw) : Prop :=
  ∃ cur ρ x, t = s.residue g e cur ρ x ∧
    (x = s.dev.xfer (.cmd g) ∨ x = startXfer (s.dev.info g).func (s.dev.xfer (.cmd g)))

section Attempts

variable {c : HwConfig} {g : Gcmd} {s t u : Ctlr Hw} {e e' : Bool}

/-- The function that `ata_hba_start` calls the state machine with. -/
def startFunc (drvp : AtaDrv) (g : Gcmd) : FsmFunc :=
  if drvp.targ = 0 then .start0 drvp g else .start1 drvp g

/-- What an idle controller does for such a call. -/
theorem fsm_start {σ : Type} (d : Dev σ) {s : Ctlr σ} (h : s.state = .idle) (drvp : AtaDrv)
    (g : Gcmd) :
    fsm d (startFunc drvp g) s =
      let r := Ctlr.call
        { s with
          state := nextState .idle (startFunc drvp g)
          active := some (.cmd g)
          activeDrv := some drvp } d.apStart (.cmd g)
      if r.2 = .busy then ({ r.1.release with state := .idle }, .busy, false)
      else ({ r.1 with log := .started g :: r.1.log }, r.2, false) := by
  unfold fsm startFunc
  rw [h]
  by_cases ht : drvp.targ = 0
  · rw [if_pos ht]
    rfl
  · rw [if_neg ht]
    rfl

/-- An idle controller lets the state machine start the packet. -/
theorem attempt_eq (hidle : s.Idle) (ρ : Nat → Regs) :
    attempt c g s ρ =
      hbaStartLoop (hwDev c) watchdog (startFunc ⟨(s.dev.info g).drv.targ⟩ g) false
        (s.withRegs ρ) := by
  have hdrv : (s.withRegs ρ).activeDrv.isSome = false := by
    show s.activeDrv.isSome = false
    rw [hidle.activeDrv]
    rfl
  have hact : (s.withRegs ρ).active.isSome = false := by
    show s.active.isSome = false
    rw [hidle.active]
    rfl
  unfold attempt hbaStart
  rw [hdrv, hact, if_neg Bool.false_ne_true, if_neg Bool.false_ne_true]
  rfl

/-- The count that a start sets to zero does not matter to it. -/
theorem start_startXfer (busyWait : Bool) (func : ApFunc) (r : Regs) (s : DrvSys) :
    func.start busyWait r { s with xfer := startXfer func s.xfer } = func.start busyWait r s := by
  cases func with
  | queued => rfl
  | atapi => rfl
  | disk start => cases start <;> rfl

/-- A start reads the state of the drive, the engine and the packet. It is the same
    with what earlier attempts have left. -/
theorem apStart_residue (s : Ctlr Hw) (e : Bool) (cur : DrvId) (ρ₀ ρ : Nat → Regs) (x : Xfer)
    (q : AtaPkt)
    (hx : x = s.dev.xfer (.cmd g) ∨ x = startXfer (s.dev.info g).func (s.dev.xfer (.cmd g))) :
    (hwDev c).apStart ((s.residue g e cur ρ₀ x).withRegs ρ).dev (.cmd g) q =
      (hwDev c).apStart (s.withRegs ρ).dev (.cmd g) q := by
  have hstart : ∀ y : DrvSys, y.xfer = s.dev.xfer (.cmd g) →
      (s.dev.info g).func.start c.busyWait (ρ 0) { y with xfer := x } =
        (s.dev.info g).func.start c.busyWait (ρ 0) y := by
    intro y hy
    rcases hx with rfl | rfl
    · rw [← hy]
    · rw [← hy]
      exact start_startXfer _ _ _ _
  have h := hstart ⟨s.dev.ad (s.dev.info g).drv, s.dev.bmicx, q, s.dev.xfer (.cmd g)⟩ rfl
  simp only [hwDev, Ctlr.withRegs, Ctlr.residue, Hw.exec, Hw.view, Hw.put, Hw.next,
    Function.update_self, Function.update_idem]
  rw [h]

/-- The flags of the packet, where the attempts have not changed them. -/
theorem residue_pkt (h : ((s.pkt (.cmd g)).flags.error || e) = (s.pkt (.cmd g)).flags.error)
    (cur : DrvId) (ρ : Nat → Regs) (x : Xfer) : (s.residue g e cur ρ x).pkt = s.pkt := by
  unfold Ctlr.residue Ctlr.setFlags
  dsimp only
  rw [h]
  exact Function.update_eq_self _ _

/-- Where the flags are as before, the next attempt comes to the same. -/
theorem Residue.later (h : Residue g e s t) (hidle : s.Idle)
    (herr : ((s.pkt (.cmd g)).flags.error || e) = (s.pkt (.cmd g)).flags.error)
    (ρ : Nat → Regs) : attempt c g t ρ = attempt c g s ρ := by
  rcases h with ⟨cur, ρ₀, x, rfl, hx⟩
  have hidle' : (s.residue g e cur ρ₀ x).Idle := ⟨hidle.state, hidle.active, hidle.activeDrv⟩
  -- The first call of the state machine overwrites all that differs.
  have hfsm : fsm (hwDev c) (startFunc ⟨(s.dev.info g).drv.targ⟩ g)
        ((s.residue g e cur ρ₀ x).withRegs ρ) =
      fsm (hwDev c) (startFunc ⟨(s.dev.info g).drv.targ⟩ g) (s.withRegs ρ) := by
    have hcall := apStart_residue (c := c) s e cur ρ₀ ρ x (s.pkt (.cmd g)) hx
    have hpkt : ((s.residue g e cur ρ₀ x).withRegs ρ).pkt = s.pkt := residue_pkt herr cur ρ₀ x
    rw [fsm_start _ (hidle'.withRegs ρ).state, fsm_start _ (hidle.withRegs ρ).state]
    unfold Ctlr.call
    dsimp only
    rw [hpkt, hcall]
    rfl
  rw [attempt_eq hidle, attempt_eq hidle']
  show hbaStartLoop (hwDev c) (999 + 1) _ _ _ = hbaStartLoop (hwDev c) (999 + 1) _ _ _
  unfold hbaStartLoop
  rw [show ((s.residue g e cur ρ₀ x).dev.info g) = s.dev.info g from rfl, hfsm]

/-- What a rejected start returns to the state machine. -/
theorem apStart_rejected {ρ : Nat → Regs} (hrej : attemptRc c g s ρ = .busy) :
    (hwDev c).apStart (s.withRegs ρ).dev (.cmd g) ((s.withRegs ρ).pkt (.cmd g)) =
      ({ s.dev with
          cur := (s.dev.info g).drv
          regs := fun n => ρ (n + 1)
          xfer := Function.update s.dev.xfer (.cmd g)
            (startXfer (s.dev.info g).func (s.dev.xfer (.cmd g))) },
        { s.pkt (.cmd g) with
          flags := { (s.pkt (.cmd g)).flags with
            error := (s.pkt (.cmd g)).flags.error || slips c g s ρ } }, .busy) := by
  have hstart : ((s.dev.info g).func.start c.busyWait (ρ 0)
      ⟨s.dev.ad (s.dev.info g).drv, s.dev.bmicx, s.pkt (.cmd g), s.dev.xfer (.cmd g)⟩).1 = _ :=
    start_busy hrej
  refine Prod.ext ?_ (Prod.ext ?_ hrej)
  · show Hw.next (Hw.put _ _ ((s.dev.info g).func.start c.busyWait (ρ 0)
      ⟨s.dev.ad (s.dev.info g).drv, s.dev.bmicx, s.pkt (.cmd g), s.dev.xfer (.cmd g)⟩).1) = _
    rw [hstart]
    simp [Hw.next, Hw.put, DrvSys.setFlags, Ctlr.withRegs]
  · show ((s.dev.info g).func.start c.busyWait (ρ 0)
      ⟨s.dev.ad (s.dev.info g).drv, s.dev.bmicx, s.pkt (.cmd g), s.dev.xfer (.cmd g)⟩).1.pkt = _
    rw [hstart]
    rfl

/-- A rejected attempt leaves no more than the flag behind. -/
theorem attempt_residue (hidle : s.Idle) {ρ : Nat → Regs} (hrej : attemptRc c g s ρ = .busy) :
    Residue g (slips c g s ρ) s (attempt c g s ρ).1 := by
  have hfsm : fsm (hwDev c) (startFunc ⟨(s.dev.info g).drv.targ⟩ g) (s.withRegs ρ) =
      (s.residue g (slips c g s ρ) (s.dev.info g).drv (fun n => ρ (n + 1))
        (startXfer (s.dev.info g).func (s.dev.xfer (.cmd g))), .busy, false) := by
    rw [fsm_start _ (hidle.withRegs ρ).state]
    unfold Ctlr.call
    dsimp only
    rw [apStart_rejected hrej, if_pos rfl]
    unfold Ctlr.release Ctlr.residue Ctlr.setFlags
    rw [hidle.state, hidle.active, hidle.activeDrv]
    rfl
  refine ⟨(s.dev.info g).drv, fun n => ρ (n + 1), _, ?_, Or.inr rfl⟩
  rw [attempt_eq hidle]
  show (hbaStartLoop (hwDev c) (999 + 1) _ _ _).1 = _
  unfold hbaStartLoop
  rw [hfsm]

theorem startXfer_idem (func : ApFunc) (x : Xfer) :
    startXfer func (startXfer func x) = startXfer func x := by
  unfold startXfer
  by_cases h : func = .disk .pioOut
  · simp only [if_pos h]
  · simp only [if_neg h]

theorem Residue.refl (g : Gcmd) (s : Ctlr Hw) : Residue g false s s := by
  refine ⟨s.dev.cur, s.dev.regs, s.dev.xfer (.cmd g), ?_, Or.inl rfl⟩
  simp [Ctlr.residue, Ctlr.setFlags]

theorem Residue.trans (h : Residue g e s t) (h' : Residue g e' t u) :
    Residue g (e || e') s u := by
  rcases h with ⟨cur, ρ, x, rfl, hx⟩
  rcases h' with ⟨cur', ρ', x', rfl, hx'⟩
  refine ⟨cur', ρ', x', ?_, ?_⟩
  · simp [Ctlr.residue, Ctlr.setFlags, Bool.or_assoc]
  · have hxfer : (s.residue g e cur ρ x).dev.xfer (.cmd g) = x := Function.update_self _ _ _
    rw [hxfer] at hx'
    rcases hx' with rfl | rfl
    · exact hx
    · refine Or.inr ?_
      rcases hx with rfl | rfl
      · rfl
      · exact startXfer_idem _ _

theorem Residue.idle (h : Residue g e s t) (hidle : s.Idle) : t.Idle := by
  rcases h with ⟨cur, ρ, x, rfl, hx⟩
  exact ⟨hidle.state, hidle.active, hidle.activeDrv⟩

/-- Whether an attempt slips does not depend on the earlier ones. -/
theorem Residue.slips (h : Residue g e s t) (ρ : Nat → Regs) : slips c g t ρ = slips c g s ρ := by
  rcases h with ⟨cur, ρ₀, x, rfl, hx⟩
  rfl

/-- Any number of rejected attempts leave the flag, if one of them has set it. -/
theorem attempts_residue (ρs : List (Nat → Regs)) : ∀ {s : Ctlr Hw}, s.Idle →
    AllRejected c g s ρs → Residue g (ρs.any (Ata.slips c g s)) s (attempts c g s ρs) := by
  induction ρs with
  | nil => exact fun _ _ => Residue.refl g _
  | cons ρ ρs ih =>
    intro s hidle hrej
    have hone := attempt_residue hidle hrej.1
    have hrest := ih (hone.idle hidle) hrej.2
    have hslips : ρs.any (Ata.slips c g (attempt c g s ρ).1) = ρs.any (Ata.slips c g s) :=
      congrArg ρs.any (funext fun ρ' => hone.slips ρ')
    rw [hslips] at hrest
    exact hone.trans hrest

/-- Where the flag has not been set, or was set before, nothing has changed. -/
theorem Residue.untouched (h : Residue g e s t) (hidle : s.Idle)
    (herr : ((s.pkt (.cmd g)).flags.error || e) = (s.pkt (.cmd g)).flags.error) :
    Untouched c g s t := by
  have hlater := h.later (c := c) hidle herr
  rcases h with ⟨cur, ρ, x, rfl, hx⟩
  have hxfer : (s.residue g e cur ρ x).dev.xfer (.cmd g) = x := Function.update_self _ _ _
  refine ⟨rfl, rfl, rfl, rfl, rfl, residue_pkt herr cur ρ x, rfl, rfl, rfl, ?_, hlater⟩
  rw [hxfer]
  show Function.update s.dev.xfer (.cmd g) x = _
  congr 1
  rcases hx with rfl | rfl
  · rfl
  · unfold startXfer
    split <;> rfl

/-- The packet has the flag afterwards if it had it before or is given it. -/
theorem Residue.error (h : Residue g e s t) :
    (t.pkt (.cmd g)).flags.error = ((s.pkt (.cmd g)).flags.error || e) := by
  rcases h with ⟨cur, ρ, x, rfl, hx⟩
  simp [Ctlr.residue, Ctlr.setFlags]

end Attempts

/-- Any number of rejected starts are transparent if and only if `AP_ERROR` was set
    before them, or none of them was a wait of `atapi_start_cmd` for a controller
    that stays busy. -/
theorem rejected_start_iff (c : HwConfig) (g : Gcmd) (s : Ctlr Hw) (ρs : List (Nat → Regs))
    (hidle : s.Idle) (hrej : AllRejected c g s ρs) :
    Untouched c g s (attempts c g s ρs) ↔
      (s.pkt (.cmd g)).flags.error = true ∨ ∀ ρ ∈ ρs, slips c g s ρ = false := by
  have hres := attempts_residue ρs hidle hrej
  constructor
  · intro hun
    have herr := hres.error
    rw [hun.pkt] at herr
    cases hset : (s.pkt (.cmd g)).flags.error with
    | true => exact Or.inl rfl
    | false =>
        rw [hset, Bool.false_or] at herr
        exact Or.inr fun ρ hρ => by
          have := List.any_eq_false.mp herr.symm ρ hρ
          simpa using this
  · intro hok
    refine hres.untouched hidle ?_
    rcases hok with hset | hnone
    · rw [hset, Bool.true_or]
    · have hany : ρs.any (slips c g s) = false :=
        List.any_eq_false.mpr fun ρ hρ => by simp [hnone ρ hρ]
      rw [hany, Bool.or_false]

/-! ## A packet that is requeued -/

/-- An ATAPI drive on a controller with `AC_BSY_WAIT`. -/
def waitConfig : HwConfig := ⟨fun _ => some .atapi, true⟩

/-- A packet without data for this drive. -/
def waitCtlr : Ctlr Hw where
  state := .idle
  active := none
  activeDrv := none
  fault := none
  pkt := fun _ => ⟨{ atapi := true }, false, false⟩
  dev :=
    { ad := fun _ => {}
      cur := .drive0 0
      bmicx := 0
      info := fun _ => ⟨.drive0 0, .atapi⟩
      xfer := fun _ => { cdbLen := 12 }
      regs := fun _ => {} }
  log := []

/-- The controller stays busy. -/
def waitInVain : Nat → Regs := fun _ => { notBusy := false }

/-- The drive takes the packet, then the CDB, and then reports success. -/
def runToStatus (s : Ctlr Hw) : Ctlr Hw :=
  let s := (attempt waitConfig 0 s fun _ => {}).1
  let s := processIntr (hwDev waitConfig)
    (s.withRegs fun _ => { status := { drq := true }, reason := { cod := true } })
  processIntr (hwDev waitConfig) (s.withRegs fun _ => { reason := { io := true, cod := true } })

/-- A disk packet may be rejected any number of times. -/
theorem rejected_start_disk :
    Untouched waitConfig 0
      { waitCtlr with dev := { waitCtlr.dev with info := fun _ => ⟨.drive0 0, .disk .pioOut⟩ } }
      (attempts waitConfig 0
        { waitCtlr with dev := { waitCtlr.dev with info := fun _ => ⟨.drive0 0, .disk .pioOut⟩ } }
        [waitInVain, waitInVain]) :=
  (rejected_start_iff waitConfig 0
    { waitCtlr with dev := { waitCtlr.dev with info := fun _ => ⟨.drive0 0, .disk .pioOut⟩ } }
    [waitInVain, waitInVain] ⟨rfl, rfl, rfl⟩ ⟨by decide, by decide, trivial⟩).mpr
    (Or.inr (by simp [slips, startSlips]))

/-- A packet that has been rejected once is completed with `AP_ERROR`, although
    nothing goes wrong. Without the rejected start it is completed without. -/
theorem rejected_start_error :
    ¬ (∀ (c : HwConfig) (g : Gcmd) (s : Ctlr Hw) (ρs : List (Nat → Regs)),
        s.Idle → AllRejected c g s ρs → Untouched c g s (attempts c g s ρs)) ∧
    (runToStatus (attempt waitConfig 0 waitCtlr waitInVain).1).log = [.completed 0, .started 0] ∧
    ((runToStatus (attempt waitConfig 0 waitCtlr waitInVain).1).pkt (.cmd 0)).flags.error = true ∧
    (runToStatus waitCtlr).log = [.completed 0, .started 0] ∧
    ((runToStatus waitCtlr).pkt (.cmd 0)).flags.error = false := by
  refine ⟨fun hall => ?_, by decide, by decide, by decide, by decide⟩
  have hun := hall waitConfig 0 waitCtlr [waitInVain] ⟨rfl, rfl, rfl⟩ ⟨by decide, trivial⟩
  have hset : ((attempts waitConfig 0 waitCtlr [waitInVain]).pkt (.cmd 0)).flags.error = true := by
    decide
  rw [hun.pkt] at hset
  cases hset

end Ata

end Sil3112
