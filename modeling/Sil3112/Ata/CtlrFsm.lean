import Mathlib.Logic.Function.Basic
import Sil3112.Lib.Transition

/-!
# The Controller State Machine

`ata_ctlr_fsm` of `ata_common.c` and the three loops that drive it. The
controller runs one packet at a time. When an ATAPI packet fails and asks for
it, the packet is set aside and a REQUEST SENSE packet, the ARQ packet, is run
in its place; the packet set aside is completed when that one is done.

The state machine writes the next state from its table before it acts, and
corrects it where a start is refused or the ARQ packet takes over. A loop
re-enters it with the function that its return code asks for, until a watchdog
runs out.

The drive is a parameter. Each of its operations returns what it likes, and
may leave anything in the packet it works on. Between two calls the packets
and the drive may change in any way.

A packet is the ARQ packet or that of a `gcmd_t`. The task file and the buffer
of the ARQ packet are left out, as the state machine does not look at them.
`log` is the history of the packets started and of the calls of
`sol11ghd_complete`, newest first.

## Main definitions

* `nextAction`, `nextState`: The tables.
* `fsm`: `ata_ctlr_fsm`
* `hbaStart`, `processIntr`, `resetBus`: The three loops.
* `CtlrStep`: The calls of the controller.
* `Held`, `Alternates`: What the history says.
* `CtlrOk`: The invariant.

## Theorems

* `fsm_ok`: The state machine keeps the invariant.
* `ctlr_fsm_consistent`: The controller's fields agree, and every packet that
  was started is completed exactly once.
-/

namespace Sil3112

namespace Ata

open Transition

/-- A `gcmd_t`, by its address. -/
abbrev Gcmd := Nat

/-- The packet of a command, or the one for auto request sense. -/
inductive PktId where
  | arq
  | cmd (g : Gcmd)
  deriving DecidableEq

/-- The `ap_flags` the state machine reads or writes. -/
structure ApFlags where
  error : Bool := false
  busReset : Bool := false
  devReset : Bool := false
  gotStatus : Bool := false
  arqOnError : Bool := false
  arqOkay : Bool := false
  arqError : Bool := false
  atapi : Bool := false
  read : Bool := false
  write : Bool := false

/-- `ata_pkt_t`: its flags, `ATS_ERR` of `ap_status`, and `ap_pciide_dma`. -/
structure AtaPkt where
  flags : ApFlags
  statusErr : Bool
  pciideDma : Bool

/-- `ata_drv_t`: the target number. -/
structure AtaDrv where
  targ : Nat

/-- `ac_state` -/
inductive CtlrState where
  | idle
  | active0
  | active1
  deriving DecidableEq

/-- The functions of the state machine. The start functions come with the
    drive and the command they are called with. -/
inductive FsmFunc where
  | start0 (drvp : AtaDrv) (g : Gcmd)
  | start1 (drvp : AtaDrv) (g : Gcmd)
  | intr
  | fini
  | reset

/-- What the state machine does. -/
inductive FsmAction where
  | nada
  | start (drvp : AtaDrv) (g : Gcmd)
  | intr
  | fini
  | busy
  | resetI
  | resetA

/-- The return codes of the state machine. -/
inductive FsmRc where
  | okay
  | busy
  | intr
  | fini
  deriving DecidableEq

/-- `ata_ctlr_fsm_NextAction` -/
def nextAction : CtlrState → FsmFunc → FsmAction
  | .idle, .start0 drvp g => .start drvp g
  | .idle, .start1 drvp g => .start drvp g
  | .idle, .intr => .nada
  | .idle, .fini => .nada
  | .idle, .reset => .resetI
  | .active0, .start0 _ _ => .busy
  | .active0, .start1 _ _ => .busy
  | .active0, .intr => .intr
  | .active0, .fini => .fini
  | .active0, .reset => .resetA
  | .active1, .start0 _ _ => .busy
  | .active1, .start1 _ _ => .busy
  | .active1, .intr => .intr
  | .active1, .fini => .fini
  | .active1, .reset => .resetA

/-- `ata_ctlr_fsm_NextState` -/
def nextState : CtlrState → FsmFunc → CtlrState
  | .idle, .start0 _ _ => .active0
  | .idle, .start1 _ _ => .active1
  | .idle, .intr => .idle
  | .idle, .fini => .idle
  | .idle, .reset => .idle
  | .active0, .start0 _ _ => .active0
  | .active0, .start1 _ _ => .active0
  | .active0, .intr => .active0
  | .active0, .fini => .idle
  | .active0, .reset => .active0
  | .active1, .start0 _ _ => .active1
  | .active1, .start1 _ _ => .active1
  | .active1, .intr => .active1
  | .active1, .fini => .idle
  | .active1, .reset => .active1

/-- The drive, as the state machine uses it: `ap_start` and `ap_intr` of a
    packet, stopping the DMA engine, the software reset, the DEVICE RESET of
    the ATAPI drives, and setting up the disks again after a reset. -/
structure Dev (σ : Type) where
  apStart : σ → PktId → AtaPkt → σ × AtaPkt × FsmRc
  apIntr : σ → PktId → AtaPkt → σ × AtaPkt × FsmRc
  dmaStop : σ → σ
  softwareReset : σ → σ × Bool
  atapiReset : σ → σ
  setupParms : σ → σ × Bool

/-- A packet was started, or handed to `sol11ghd_complete`. -/
inductive CtlrEvent where
  | started (g : Gcmd)
  | completed (g : Gcmd)
  deriving DecidableEq

/-- `ata_ctl_t`, with the packets and the drive. -/
structure Ctlr (σ : Type) where
  state : CtlrState
  active : Option PktId
  activeDrv : Option AtaDrv
  fault : Option PktId
  pkt : PktId → AtaPkt
  dev : σ
  log : List CtlrEvent

section Fsm

variable {σ : Type} (d : Dev σ)

/-- Change the flags of a packet. -/
def Ctlr.setFlags (s : Ctlr σ) (p : PktId) (f : ApFlags → ApFlags) : Ctlr σ :=
  { s with pkt := Function.update s.pkt p { s.pkt p with flags := f (s.pkt p).flags } }

/-- Call a packet's `ap_start` or `ap_intr`. -/
def Ctlr.call (s : Ctlr σ) (f : σ → PktId → AtaPkt → σ × AtaPkt × FsmRc) (p : PktId) :
    Ctlr σ × FsmRc :=
  let r := f s.dev p (s.pkt p)
  ({ s with dev := r.1, pkt := Function.update s.pkt p r.2.1 }, r.2.2)

/-- The controller has no packet any more. -/
def Ctlr.release (s : Ctlr σ) : Ctlr σ :=
  { s with active := none, activeDrv := none }

/-- `all_done` of `ata_ctlr_fsm`: the packet leaves the controller, and is
    handed to `sol11ghd_complete` if it belongs to a `gcmd_t`. The second
    component is what goes to `DoneFlgp`. -/
def allDone (s : Ctlr σ) (p : PktId) : Ctlr σ × Bool :=
  match p with
  | .arq => (s.release, false)
  | .cmd g => ({ s.release with log := .completed g :: s.log }, true)

/-- `ata_start_arq` -/
def startArq (s : Ctlr σ) (p : PktId) : Ctlr σ × FsmRc :=
  let s := { s with fault := some p, active := some .arq }
  let s := s.setFlags .arq fun _ => { atapi := true, read := true }
  s.call d.apStart .arq

/-- `AP_ARQ_NEEDED`, and the drive has reported an error. -/
def arqNeeded (p : AtaPkt) : Bool :=
  p.flags.arqOnError && p.flags.gotStatus && p.flags.error && p.statusErr

/-- `AC_FINI` of `ata_ctlr_fsm`, for a packet that is not the ARQ packet.
    `current` is the state before the call. -/
def finiCmd (current : CtlrState) (s : Ctlr σ) (p : PktId) : Ctlr σ × FsmRc × Bool :=
  if arqNeeded (s.pkt p) then
    let r := startArq d { s with state := current } p
    if r.2 = .busy then
      -- The target driver has to deal with the error.
      let r' := allDone { r.1.release with state := .idle, fault := none } p
      (r'.1, .okay, r'.2)
    else (r.1, r.2, false)
  else
    let r := allDone s p
    (r.1, .okay, r.2)

/-- `AC_FINI` of `ata_ctlr_fsm`, for the ARQ packet: the packet that was set
    aside is completed. -/
def finiArq (s : Ctlr σ) (p : PktId) : Ctlr σ × FsmRc × Bool :=
  let failed := (s.pkt .arq).flags.error || (s.pkt .arq).flags.busReset
  let s := { s with fault := none }
  let s := s.setFlags p fun f =>
    if failed then { f with arqError := true } else { f with arqOkay := true }
  let r := allDone s p
  (r.1, .okay, r.2)

/-- `ata_ctlr_fsm`: the return code, and what goes to `DoneFlgp`. The source
    asserts that there is a packet where this looks for one. -/
def fsm (func : FsmFunc) (s : Ctlr σ) : Ctlr σ × FsmRc × Bool :=
  let current := s.state
  let action := nextAction current func
  let s := { s with state := nextState current func }
  match action with
  | .busy => (s, .busy, false)
  | .nada => (s, .okay, false)
  | .start drvp g =>
    let s := { s with active := some (.cmd g), activeDrv := some drvp }
    let r := s.call d.apStart (.cmd g)
    if r.2 = .busy then
      -- The request did not start, GHD will requeue it.
      ({ r.1.release with state := .idle }, .busy, false)
    else ({ r.1 with log := .started g :: r.1.log }, r.2, false)
  | .intr =>
    match s.active with
    | none => (s, .okay, false)
    | some p =>
      let r := s.call d.apIntr p
      (r.1, r.2, false)
  | .resetA =>
    match s.active with
    | none => (s, .okay, false)
    | some p =>
      let s := s.setFlags p fun f => { f with devReset := true, busReset := true }
      let s := if (s.pkt p).pciideDma then { s with dev := d.dmaStop s.dev } else s
      let r := d.softwareReset s.dev
      if r.2 then ({ s with dev := d.atapiReset r.1 }, .fini, false)
      else ({ s with dev := r.1 }, .busy, false)
  | .resetI =>
    let r := d.softwareReset s.dev
    if r.2 then ({ s with dev := d.atapiReset r.1 }, .okay, false)
    else ({ s with dev := r.1 }, .busy, false)
  | .fini =>
    match s.active, s.fault with
    | none, _ => (s, .okay, false)
    | some .arq, none => (s, .okay, false)
    | some .arq, some p => finiArq s p
    | some (.cmd g), _ => finiCmd d current s (.cmd g)

/-! ## The loops -/

/-- `ata_hba_start_watchdog`, `ata_process_intr_watchdog` and
    `ata_reset_bus_watchdog`. -/
def watchdog : Nat := 1000

/-- The loop of `ata_hba_start`: whether the request was started. -/
def hbaStartLoop : Nat → FsmFunc → Bool → Ctlr σ → Ctlr σ × Bool
  | 0, _, started, s => (s, started)
  | n + 1, func, started, s =>
    let r := fsm d func s
    match r.2.1 with
    | .okay => (r.1, true)
    | .busy => (r.1, started)
    -- The start function polled for the next phase, fake an interrupt.
    | .intr => hbaStartLoop n .intr true r.1
    | .fini => hbaStartLoop n .fini true r.1

/-- `ata_hba_start` -/
def hbaStart (drvp : AtaDrv) (g : Gcmd) (s : Ctlr σ) : Ctlr σ × Bool :=
  if s.activeDrv.isSome then (s, false)
  else if s.active.isSome then (s, false)
  else
    let func := if drvp.targ = 0 then .start0 drvp g else .start1 drvp g
    hbaStartLoop d watchdog func false s

/-- The loop of `ata_process_intr`. -/
def processIntrLoop : Nat → FsmFunc → Ctlr σ → Ctlr σ
  | 0, _, s => s
  | n + 1, func, s =>
    let r := fsm d func s
    match r.2.1 with
    | .okay => r.1
    | .busy => r.1
    | .intr => processIntrLoop n .intr r.1
    | .fini => processIntrLoop n .fini r.1

/-- `ata_process_intr` -/
def processIntr (s : Ctlr σ) : Ctlr σ :=
  processIntrLoop d watchdog .intr s

/-- The loop of `ata_reset_bus`: `rc` and `DoneFlg`, `none` where it returns
    at once because the reset has failed. -/
def resetBusLoop : Nat → FsmFunc → Bool → Bool → Ctlr σ → Ctlr σ × Option (Bool × Bool)
  | 0, _, rc, done, s => (s, some (rc, done))
  | n + 1, func, _, done, s =>
    let r := fsm d func s
    let done := done || r.2.2
    match r.2.1 with
    | .okay => (r.1, some (true, done))
    | .busy => (r.1, none)
    | .intr => resetBusLoop n .intr true done r.1
    | .fini => resetBusLoop n .fini true done r.1

/-- `ata_reset_bus`. Setting up the disks again may fail, which does not matter
    if a request has been completed. -/
def resetBus (s : Ctlr σ) : Ctlr σ × Bool :=
  let r := resetBusLoop d watchdog .reset false false s
  match r.2 with
  | none => (r.1, false)
  | some (rc, done) =>
    let p := d.setupParms r.1.dev
    ({ r.1 with dev := p.1 }, if done then true else rc && p.2)

/-- The calls of the controller, and what happens between them. -/
inductive CtlrStep : Ctlr σ → Ctlr σ → Prop where
  | hbaStart (drvp : AtaDrv) (g : Gcmd) (s : Ctlr σ) : CtlrStep s (hbaStart d drvp g s).1
  | processIntr (s : Ctlr σ) : CtlrStep s (processIntr d s)
  | resetBus (s : Ctlr σ) : CtlrStep s (resetBus d s).1
  | between (s : Ctlr σ) (pkt : PktId → AtaPkt) (dev : σ) :
      CtlrStep s { s with pkt := pkt, dev := dev }

/-- A controller just attached. -/
structure CtlrInit (s : Ctlr σ) : Prop where
  state : s.state = .idle
  active : s.active = none
  activeDrv : s.activeDrv = none
  fault : s.fault = none
  log : s.log = []

end Fsm

/-! ## The invariant -/

/-- The command that was started last, unless it has been completed. -/
def Held : List CtlrEvent → Option Gcmd
  | [] => none
  | .started g :: _ => some g
  | .completed _ :: _ => none

/-- A command is started only when none is held, and completed only while it
    is held. -/
def Alternates : List CtlrEvent → Prop
  | [] => True
  | .started _ :: log => Held log = none ∧ Alternates log
  | .completed g :: log => Held log = some g ∧ Alternates log

/-- The command the controller is working on: the one of the active packet, or
    the one set aside while the ARQ packet runs. -/
def Ctlr.holder {σ : Type} (s : Ctlr σ) : Option Gcmd :=
  match s.active, s.fault with
  | some (.cmd g), _ => some g
  | some .arq, some (.cmd g) => some g
  | _, _ => none

/-- The fields of the controller agree with each other and with the history. -/
structure CtlrOk {σ : Type} (s : Ctlr σ) : Prop where
  idle : s.state = .idle ↔ s.active = none
  drv : s.active = none ↔ s.activeDrv = none
  faultArq : s.active = some .arq → ∃ g, s.fault = some (.cmd g)
  faultNone : s.active ≠ some .arq → s.fault = none
  held : Held s.log = s.holder
  alternates : Alternates s.log

section Invariant

variable {σ : Type} {d : Dev σ} {s : Ctlr σ} {g : Gcmd}

/-- The packets and the drive do not matter, and of the state only whether it
    is idle. -/
theorem CtlrOk.congr (h : CtlrOk s) {x : CtlrState} (hx : x = .idle ↔ s.state = .idle)
    (pkt : PktId → AtaPkt) (dev : σ) : CtlrOk { s with state := x, pkt := pkt, dev := dev } where
  idle := hx.trans h.idle
  drv := h.drv
  faultArq := h.faultArq
  faultNone := h.faultNone
  held := h.held
  alternates := h.alternates

/-- A command is completed and the controller idle. -/
theorem CtlrOk.allDone (h : CtlrOk s) (hg : s.holder = some g) {t : Ctlr σ}
    (hstate : t.state = .idle) (hfault : t.fault = none) (hlog : t.log = s.log) :
    CtlrOk (allDone t (.cmd g)).1 where
  idle := iff_of_true hstate rfl
  drv := iff_of_true rfl rfl
  faultArq := nofun
  faultNone := fun _ => hfault
  held := rfl
  alternates := by
    refine ⟨?_, ?_⟩
    · rw [hlog, h.held, hg]
    · rw [hlog]
      exact h.alternates

/-- A command is started. -/
theorem CtlrOk.started (h : CtlrOk s) (hs : s.state = .idle) {t : Ctlr σ} {drvp : AtaDrv}
    (hstate : t.state ≠ .idle) (hactive : t.active = some (.cmd g))
    (hdrv : t.activeDrv = some drvp) (hfault : t.fault = s.fault)
    (hlog : t.log = .started g :: s.log) : CtlrOk t := by
  have hnone := h.idle.1 hs
  have hfn : s.fault = none := h.faultNone (by rw [hnone]; nofun)
  have hhold : Held s.log = none := by
    rw [h.held]
    unfold Ctlr.holder
    rw [hnone]
  constructor
  · rw [hactive]
    exact iff_of_false hstate nofun
  · rw [hactive, hdrv]
    exact iff_of_false nofun nofun
  · rw [hactive]
    nofun
  · intro _
    rw [hfault, hfn]
  · rw [hlog]
    unfold Ctlr.holder
    rw [hactive]
    rfl
  · rw [hlog]
    exact ⟨hhold, h.alternates⟩

/-- The ARQ packet takes the place of a command's packet, which is set aside. -/
theorem CtlrOk.startArq (h : CtlrOk s) (hg : s.active = some (.cmd g)) (hs : s.state ≠ .idle)
    (pkt : PktId → AtaPkt) (dev : σ) :
    CtlrOk { s with fault := some (.cmd g), active := some .arq, pkt := pkt, dev := dev } where
  idle := iff_of_false hs nofun
  drv := iff_of_false nofun fun hn => by
    rw [h.drv.2 hn] at hg
    cases hg
  faultArq := fun _ => ⟨g, rfl⟩
  faultNone := fun hn => absurd rfl hn
  held := by
    rw [h.held]
    unfold Ctlr.holder
    rw [hg]
  alternates := h.alternates

theorem holder_cmd (hg : s.active = some (.cmd g)) : s.holder = some g := by
  unfold Ctlr.holder
  rw [hg]

theorem holder_arq (ha : s.active = some .arq) (hf : s.fault = some (.cmd g)) :
    s.holder = some g := by
  unfold Ctlr.holder
  rw [ha, hf]

section Tables

variable {x : CtlrState} {func : FsmFunc}

/-- A packet is started when the controller is idle, and it is the one asked for. -/
theorem nextAction_start {drvp : AtaDrv} {g : Gcmd} (h : nextAction x func = .start drvp g) :
    x = .idle ∧ (func = .start0 drvp g ∨ func = .start1 drvp g) := by
  cases x <;> cases func <;> simp_all [nextAction]

theorem nextAction_fini (h : nextAction x func = .fini) : func = .fini := by
  cases x <;> cases func <;> simp_all [nextAction]

theorem nextAction_resetI (h : nextAction x func = .resetI) : x = .idle := by
  cases x <;> cases func <;> simp_all [nextAction]

theorem nextAction_resetA (h : nextAction x func = .resetA) : func = .reset := by
  cases x <;> cases func <;> simp_all [nextAction]

end Tables

/-- What the two tables have in common: only a start leaves the idle state, only
    the end of a packet enters it. -/
theorem next_spec (x : CtlrState) (func : FsmFunc) :
    (∃ drvp g, nextAction x func = .start drvp g ∧ x = .idle ∧ nextState x func ≠ .idle) ∨
      (nextAction x func = .fini ∧ func = .fini ∧ x ≠ .idle ∧ nextState x func = .idle) ∨
      (nextAction x func ≠ .fini ∧ (∀ drvp g, nextAction x func ≠ .start drvp g) ∧
        (nextState x func = .idle ↔ x = .idle)) := by
  cases x <;> cases func <;> simp [nextAction, nextState]

/-- The end of a packet, which may be that of the ARQ packet, or its start. -/
theorem fsm_fini_ok (h : CtlrOk s) {func : FsmFunc} (hs : s.state ≠ .idle)
    (hact : nextAction s.state func = .fini) (hnext : nextState s.state func = .idle) :
    CtlrOk (fsm d func s).1 := by
  unfold fsm
  simp only [hact, hnext]
  cases ha : s.active with
  | none => exact absurd (h.idle.2 ha) hs
  | some p =>
      cases p with
      | arq =>
          -- The ARQ packet has ended, so the command that was set aside is done.
          rcases h.faultArq ha with ⟨g, hf⟩
          simp only [hf]
          exact h.allDone (holder_arq ha hf) rfl rfl rfl
      | cmd g =>
          -- No command is set aside while a command is active.
          have hfn : s.fault = none := h.faultNone (by rw [ha]; nofun)
          dsimp only
          unfold finiCmd
          split
          · dsimp only
            split
            · exact h.allDone (holder_cmd ha) rfl rfl rfl
            · exact h.startArq ha hs _ _
          · exact h.allDone (holder_cmd ha) rfl hfn rfl

/-- A start from the idle state. If it is refused the controller is idle
    again. -/
theorem fsm_start_ok (h : CtlrOk s) {func : FsmFunc} {drvp : AtaDrv} (hs : s.state = .idle)
    (hact : nextAction s.state func = .start drvp g) (hnext : nextState s.state func ≠ .idle) :
    CtlrOk (fsm d func s).1 := by
  have hnone := h.idle.1 hs
  have hfn : s.fault = none := h.faultNone (by rw [hnone]; nofun)
  have hhold : s.holder = none := by
    unfold Ctlr.holder
    rw [hnone]
  unfold fsm
  simp only [hact]
  -- If the drive is busy the controller is idle again, else the packet is active.
  split
  · constructor
    · exact iff_of_true rfl rfl
    · exact iff_of_true rfl rfl
    · nofun
    · exact fun _ => hfn
    · exact h.held.trans hhold
    · exact h.alternates
  · exact h.started hs hnext rfl rfl rfl rfl

/-- The other actions leave the controller's own fields alone. -/
theorem fsm_other_ok (h : CtlrOk s) {func : FsmFunc} (hfini : nextAction s.state func ≠ .fini)
    (hstart : ∀ drvp g, nextAction s.state func ≠ .start drvp g)
    (hnext : nextState s.state func = .idle ↔ s.state = .idle) : CtlrOk (fsm d func s).1 := by
  unfold fsm
  dsimp only
  cases hact : nextAction s.state func with
  | start drvp g => exact absurd hact (hstart drvp g)
  | fini => exact absurd hact hfini
  | nada => exact h.congr hnext _ _
  | busy => exact h.congr hnext _ _
  | intr =>
      dsimp only
      split
      · exact h.congr hnext _ _
      · exact h.congr hnext _ _
  | resetI =>
      dsimp only
      split
      · exact h.congr hnext _ _
      · exact h.congr hnext _ _
  | resetA =>
      dsimp only
      split
      · exact h.congr hnext _ _
      · split <;> split <;> exact h.congr hnext _ _

/-- The state machine keeps the invariant. -/
theorem fsm_ok (h : CtlrOk s) (func : FsmFunc) : CtlrOk (fsm d func s).1 := by
  rcases next_spec s.state func with ⟨drvp, g, hact, hs, hnext⟩ | ⟨hact, -, hs, hnext⟩
    | ⟨hfini, hstart, hnext⟩
  · exact fsm_start_ok h hs hact hnext
  · exact fsm_fini_ok h hs hact hnext
  · exact fsm_other_ok h hfini hstart hnext

/-! ## The history -/

/-- The calls of a loop only add to the history. -/
def Extends (log log' : List CtlrEvent) : Prop := ∃ es, log' = es ++ log

theorem Extends.refl (log : List CtlrEvent) : Extends log log := ⟨[], rfl⟩

theorem Extends.cons {log log' : List CtlrEvent} (h : Extends log log') (e : CtlrEvent) :
    Extends log (e :: log') := by
  rcases h with ⟨es, rfl⟩
  exact ⟨e :: es, rfl⟩

theorem Extends.trans {log log' log'' : List CtlrEvent} (h : Extends log log')
    (h' : Extends log' log'') : Extends log log'' := by
  rcases h with ⟨es, rfl⟩
  rcases h' with ⟨es', rfl⟩
  exact ⟨es' ++ es, (List.append_assoc es' es log).symm⟩

theorem allDone_log (t : Ctlr σ) (p : PktId) : Extends t.log (allDone t p).1.log := by
  cases p with
  | arq => exact Extends.refl _
  | cmd g => exact (Extends.refl _).cons _

theorem fsm_log (func : FsmFunc) (s : Ctlr σ) : Extends s.log (fsm d func s).1.log := by
  unfold fsm
  dsimp only
  cases nextAction s.state func with
  | nada | busy => exact Extends.refl _
  | start drvp g =>
      dsimp only
      split
      · exact Extends.refl _
      · exact (Extends.refl _).cons _
  | intr | resetI =>
      dsimp only
      split <;> exact Extends.refl _
  | resetA =>
      dsimp only
      split
      · exact Extends.refl _
      · split <;> split <;> exact Extends.refl _
  | fini =>
      dsimp only
      split
      · exact Extends.refl _
      · exact Extends.refl _
      · exact allDone_log _ _
      · unfold finiCmd
        split
        · dsimp only
          split
          · exact allDone_log _ _
          · exact Extends.refl _
        · exact allDone_log _ _

/-- How often a command was started and completed. -/
theorem Alternates.count : ∀ {log : List CtlrEvent}, Alternates log → ∀ g,
    log.count (.started g) = log.count (.completed g) + if Held log = some g then 1 else 0 := by
  intro log
  induction log with
  | nil =>
      intro _ g
      rfl
  | cons e log ih =>
      intro h g
      cases e with
      | started g' =>
          have hg := ih h.2 g
          rw [h.1] at hg
          simp only [List.count_cons, Held, beq_iff_eq, reduceCtorEq, CtlrEvent.started.injEq,
            Option.some.injEq, if_false] at hg ⊢
          omega
      | completed g' =>
          have hg := ih h.2 g
          rw [h.1] at hg
          simp only [List.count_cons, Held, beq_iff_eq, reduceCtorEq, CtlrEvent.completed.injEq,
            Option.some.injEq, if_false] at hg ⊢
          omega

/-! ## The calls -/

theorem hbaStartLoop_ok : ∀ (n : Nat) (func : FsmFunc) (started : Bool) (s : Ctlr σ), CtlrOk s →
    CtlrOk (hbaStartLoop d n func started s).1 ∧
      Extends s.log (hbaStartLoop d n func started s).1.log := by
  intro n
  induction n with
  | zero =>
      intro func started s h
      exact ⟨h, Extends.refl _⟩
  | succ n ih =>
      intro func started s h
      have h' := fsm_ok (d := d) h func
      have hlog := fsm_log (d := d) func s
      unfold hbaStartLoop
      dsimp only
      split
      · exact ⟨h', hlog⟩
      · exact ⟨h', hlog⟩
      · exact ⟨(ih .intr true _ h').1, hlog.trans (ih .intr true _ h').2⟩
      · exact ⟨(ih .fini true _ h').1, hlog.trans (ih .fini true _ h').2⟩

theorem processIntrLoop_ok : ∀ (n : Nat) (func : FsmFunc) (s : Ctlr σ), CtlrOk s →
    CtlrOk (processIntrLoop d n func s) := by
  intro n
  induction n with
  | zero =>
      intro func s h
      exact h
  | succ n ih =>
      intro func s h
      have h' := fsm_ok (d := d) h func
      unfold processIntrLoop
      dsimp only
      split
      · exact h'
      · exact h'
      · exact ih .intr _ h'
      · exact ih .fini _ h'

theorem resetBusLoop_ok : ∀ (n : Nat) (func : FsmFunc) (rc done : Bool) (s : Ctlr σ), CtlrOk s →
    CtlrOk (resetBusLoop d n func rc done s).1 := by
  intro n
  induction n with
  | zero =>
      intro func rc done s h
      exact h
  | succ n ih =>
      intro func rc done s h
      have h' := fsm_ok (d := d) h func
      unfold resetBusLoop
      dsimp only
      split
      · exact h'
      · exact h'
      · exact ih .intr true _ _ h'
      · exact ih .fini true _ _ h'

/-- Once the request has been started, the loop says so. -/
theorem hbaStartLoop_started : ∀ (n : Nat) (func : FsmFunc) (s : Ctlr σ),
    (hbaStartLoop d n func true s).2 = true := by
  intro n
  induction n with
  | zero =>
      intro func s
      rfl
  | succ n ih =>
      intro func s
      unfold hbaStartLoop
      dsimp only
      split
      · rfl
      · rfl
      · exact ih .intr _
      · exact ih .fini _

/-- What a start does to an idle controller: it is refused and nothing has
    changed, or the packet is in the history. -/
theorem fsm_start_spec {func : FsmFunc} {drvp : AtaDrv} (hs : s.state = .idle)
    (hact : nextAction .idle func = .start drvp g) :
    ((fsm d func s).2.1 = .busy ∧ (fsm d func s).1.active = none ∧
        (fsm d func s).1.log = s.log) ∨
      ((fsm d func s).2.1 ≠ .busy ∧ (fsm d func s).1.log = .started g :: s.log) := by
  unfold fsm
  simp only [hs, hact]
  split
  · exact Or.inl ⟨rfl, rfl, rfl⟩
  · next hrc => exact Or.inr ⟨hrc, rfl⟩

/-- `ata_hba_start` refuses a request or starts it. A request it refuses is not
    active, and leaves no trace. -/
theorem hbaStart_spec (h : CtlrOk s) (drvp : AtaDrv) (g : Gcmd) :
    ((hbaStart d drvp g s).2 = false ∧ s.active ≠ none ∧ (hbaStart d drvp g s).1 = s) ∨
      ((hbaStart d drvp g s).2 = false ∧ (hbaStart d drvp g s).1.active = none ∧
        (hbaStart d drvp g s).1.log = s.log) ∨
      ((hbaStart d drvp g s).2 = true ∧ s.active = none ∧
        Extends (.started g :: s.log) (hbaStart d drvp g s).1.log) := by
  cases ha : s.active with
  | some p =>
      -- A controller that has a packet refuses another at once.
      refine Or.inl ⟨?_, nofun, ?_⟩ <;>
      · unfold hbaStart
        rw [ha]
        split <;> rfl
  | none =>
      have hdrv : s.activeDrv = none := h.drv.1 ha
      have hs : s.state = .idle := h.idle.2 ha
      refine Or.inr ?_
      unfold hbaStart
      rw [hdrv, ha]
      simp only [Option.isSome_none, Bool.false_eq_true, if_false]
      generalize hfunc : (if drvp.targ = 0 then FsmFunc.start0 drvp g else .start1 drvp g) = func
      -- The call that starts the packet comes first, and decides.
      have hact : nextAction .idle func = .start drvp g := by
        rw [← hfunc]
        split <;> rfl
      have h' := fsm_ok (d := d) h func
      unfold watchdog hbaStartLoop
      rcases fsm_start_spec (d := d) hs hact with ⟨hrc, hactive, hlog⟩ | ⟨hrc, hlog⟩
      · refine Or.inl ?_
        simp only [hrc]
        exact ⟨trivial, hactive, hlog⟩
      · refine Or.inr ?_
        dsimp only
        rw [← hlog]
        split
        · exact ⟨rfl, trivial, Extends.refl _⟩
        · next hbusy => exact absurd hbusy hrc
        · exact ⟨hbaStartLoop_started _ _ _, trivial, (hbaStartLoop_ok _ _ _ _ h').2⟩
        · exact ⟨hbaStartLoop_started _ _ _, trivial, (hbaStartLoop_ok _ _ _ _ h').2⟩

theorem ctlrStep_ok {s' : Ctlr σ} (h : CtlrOk s) (hstep : CtlrStep d s s') : CtlrOk s' := by
  cases hstep with
  | hbaStart drvp g =>
      unfold hbaStart
      split
      · exact h
      · split
        · exact h
        · exact (hbaStartLoop_ok _ _ _ _ h).1
  | processIntr => exact processIntrLoop_ok _ _ _ h
  | resetBus =>
      have h' := resetBusLoop_ok (d := d) watchdog .reset false false s h
      unfold resetBus
      dsimp only
      split
      · exact h'
      · exact h'.congr Iff.rfl _ _
  | between pkt dev => exact h.congr Iff.rfl _ _

theorem CtlrInit.ok (h : CtlrInit s) : CtlrOk s where
  idle := iff_of_true h.state h.active
  drv := iff_of_true h.active h.activeDrv
  faultArq := fun hn => by
    rw [h.active] at hn
    cases hn
  faultNone := fun _ => h.fault
  held := by
    unfold Ctlr.holder
    rw [h.log, h.active]
    rfl
  alternates := by
    rw [h.log]
    trivial

theorem reachable_ctlrOk (h : Reachable CtlrInit (CtlrStep d) s) : CtlrOk s :=
  h.invariant (fun _ h0 => h0.ok) fun _ _ _ hok hstep => ctlrStep_ok hok hstep

/-- In every state that calls of the controller can reach, it is idle exactly
    if it has no packet and no drive, a packet is set aside only while the ARQ
    packet runs, starts and completions alternate, and a command has been
    completed as often as it was started, once less while the controller holds
    it. A request that is started enters the history; one that is refused does
    not, and is not made the active one. -/
theorem ctlr_fsm_consistent (h : Reachable CtlrInit (CtlrStep d) s) :
    (s.state = .idle ↔ s.active = none) ∧ (s.active = none ↔ s.activeDrv = none) ∧
      (s.fault ≠ none → s.active = some .arq) ∧ Alternates s.log ∧
      (∀ g, s.log.count (.completed g) ≤ s.log.count (.started g)) ∧
      (∀ g, s.log.count (.started g) =
        s.log.count (.completed g) + if s.holder = some g then 1 else 0) ∧
      (s.state = .idle → ∀ g, s.log.count (.completed g) = s.log.count (.started g)) ∧
      (∀ drvp g, (hbaStart d drvp g s).2 = true →
        Extends (.started g :: s.log) (hbaStart d drvp g s).1.log) ∧
      ∀ drvp g, (hbaStart d drvp g s).2 = false →
        (hbaStart d drvp g s).1.log = s.log ∧
        ((hbaStart d drvp g s).1.active = none ∨
          (hbaStart d drvp g s).1 = s ∧ s.active ≠ none) := by
  have hok := reachable_ctlrOk h
  have hcount : ∀ g, s.log.count (.started g) =
      s.log.count (.completed g) + if s.holder = some g then 1 else 0 := by
    intro g
    rw [← hok.held]
    exact hok.alternates.count g
  refine ⟨hok.idle, hok.drv, ?_, hok.alternates, ?_, hcount, ?_, ?_, ?_⟩
  · intro hf
    by_contra hn
    exact hf (hok.faultNone hn)
  · intro g
    rw [hcount g]
    exact Nat.le_add_right _ _
  · intro hs g
    have hholder : s.holder = none := by
      unfold Ctlr.holder
      rw [hok.idle.1 hs]
    rw [hcount g, hholder, if_neg nofun]
    rfl
  · intro drvp g hr
    rcases hbaStart_spec (d := d) hok drvp g with ⟨hf, -, -⟩ | ⟨hf, -, -⟩ | ⟨-, -, hlog⟩
    · rw [hr] at hf
      cases hf
    · rw [hr] at hf
      cases hf
    · exact hlog
  · intro drvp g hr
    rcases hbaStart_spec (d := d) hok drvp g with
      ⟨-, hactive, heq⟩ | ⟨-, hactive, hlog⟩ | ⟨ht, -, -⟩
    · exact ⟨by rw [heq], Or.inr ⟨heq, hactive⟩⟩
    · exact ⟨hlog, Or.inl hactive⟩
    · rw [hr] at ht
      cases ht

end Invariant

/-- A drive on which a command fails and asks for the ARQ packet, which then
    does not end. -/
def stuckDev : Dev Unit where
  apStart := fun _ _ p => ((), p, .okay)
  apIntr := fun _ _ _ => ((), {
    flags := { error := true, gotStatus := true, arqOnError := true }
    statusErr := true
    pciideDma := false }, .fini)
  dmaStop := id
  softwareReset := fun _ => ((), true)
  atapiReset := id
  setupParms := fun _ => ((), true)

/-- A controller after attach, with empty packets. -/
def attached : Ctlr Unit where
  state := .idle
  active := none
  activeDrv := none
  fault := none
  pkt := fun _ => ⟨{}, false, false⟩
  dev := ()
  log := []

/-- The command 5 fails, and the bus is reset while the ARQ packet runs. -/
def resetDuringArq : Ctlr Unit :=
  (resetBus stuckDev (processIntr stuckDev (hbaStart stuckDev ⟨0⟩ 5 attached).1)).1

theorem resetDuringArq_reachable : Reachable CtlrInit (CtlrStep stuckDev) resetDuringArq :=
  (((Reachable.initial ⟨rfl, rfl, rfl, rfl, rfl⟩).tail (.hbaStart ⟨0⟩ 5 attached)).tail
    (.processIntr _)).tail (.resetBus _)

/-- The command set aside is completed by the reset. -/
theorem ctlr_fsm_consistent_resetDuringArq :
    (processIntr stuckDev (hbaStart stuckDev ⟨0⟩ 5 attached).1).fault = some (.cmd 5) ∧
      resetDuringArq.log = [.completed 5, .started 5] ∧ resetDuringArq.active = none ∧
      resetDuringArq.log.count (.completed 5) = resetDuringArq.log.count (.started 5) :=
  have h := ctlr_fsm_consistent resetDuringArq_reachable
  ⟨rfl, rfl, h.1.1 rfl, h.2.2.2.2.2.2.1 rfl 5⟩

end Ata

end Sil3112
