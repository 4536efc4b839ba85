import Sil3112.Ata.Engine

/-!
# The State Machines in Step

The controller has a state, and every ATAPI drive has one. While a packet is
active its drive may be anywhere, and all the other drives are idle. When none is
active they are all idle. So `atapi_fsm_start` finds its drive idle.

A bus reset takes the active packet away at any time, and `atapi_fsm_reset` then
makes the drives idle. It looks at the logical unit 0 of the two targets. A drive
with another logical unit is left as it is, and when it was in the middle of a
command no command can be started on it from then on.

## Main definitions

* `AllIdle`, `OthersIdle`: The drives that are idle.
* `InStep`: The invariant.
* `ResetCovers`: A bus reset finds every drive idle that it does not make idle.

## Theorems

* `fsm_inStep`: The state machine of the controller keeps the invariant.
* `fsms_in_step`: The state machines are in step in every run.
-/

namespace Sil3112

namespace Ata

open Transition

/-- Every ATAPI drive is idle. -/
def AllIdle (c : HwConfig) (hw : Hw) : Prop :=
  ∀ d, c.Atapi d → (hw.ad d).adState = .idle

/-- Every ATAPI drive is idle but the one at hand. -/
def OthersIdle (c : HwConfig) (hw : Hw) : Prop :=
  ∀ d, c.Atapi d → d ≠ hw.cur → (hw.ad d).adState = .idle

/-- The drive at hand is idle, if it is an ATAPI drive. -/
def CurIdle (c : HwConfig) (hw : Hw) : Prop :=
  c.Atapi hw.cur → (hw.ad hw.cur).adState = .idle

/-- The controller and the drives are in step. The drive at hand is that of the
    command, and idle if the packet is not an ATAPI packet. -/
structure InStep (c : HwConfig) (s : Ctlr Hw) : Prop where
  idle : s.active = none → AllIdle c s.dev
  others : OthersIdle c s.dev
  cur : ∀ g, s.holder = some g → s.dev.cur = (s.dev.info g).drv
  quiet : ∀ g, s.active = some (.cmd g) → (s.dev.info g).func ≠ .atapi → CurIdle c s.dev

/-- A bus reset that is successful does not find a packet active for an ATAPI
    drive with a logical unit other than 0, unless that drive is idle. -/
def ResetCovers (c : HwConfig) (s : Ctlr Hw) : HwCall → Prop
  | .resetBus => ((hwDev c).softwareReset s.dev).2 = true → s.active ≠ none →
      s.dev.cur.lun ≠ 0 → CurIdle c s.dev
  | _ => True

section Drives

variable {c : HwConfig} {hw : Hw}

theorem AllIdle.others (h : AllIdle c hw) : OthersIdle c hw := fun d hd _ => h d hd

theorem AllIdle.cur (h : AllIdle c hw) : CurIdle c hw := fun hd => h hw.cur hd

theorem OthersIdle.all (h : OthersIdle c hw) (hcur : CurIdle c hw) : AllIdle c hw := by
  intro d hd
  by_cases hne : d = hw.cur
  · rw [hne] at hd ⊢
    exact hcur hd
  · exact h d hd hne

/-- A function of a packet works on the drive at hand. -/
theorem OthersIdle.exec (h : OthersIdle c hw) (p : PktId) (q : AtaPkt)
    (f : Regs → DrvSys → DrvSys × FsmRc) : OthersIdle c (hw.exec p q f).1 := by
  intro d hd hne
  have hne' : d ≠ hw.cur := hne
  unfold Hw.exec Hw.put Hw.next
  dsimp only
  rw [Function.update_of_ne hne']
  exact h d hd hne'

theorem curIdle_exec (p : PktId) (q : AtaPkt) (f : Regs → DrvSys → DrvSys × FsmRc)
    (h : c.Atapi hw.cur → (f (hw.regs 0) (hw.view p q)).1.drv.adState = .idle) :
    CurIdle c (hw.exec p q f).1 := by
  intro hd
  unfold Hw.exec Hw.put Hw.next
  dsimp only
  rw [Function.update_self]
  exact h hd

/-- `atapi_fsm_reset` makes no drive busy. -/
theorem atapiReset_idle {d : DrvId} (h : (hw.ad d).adState = .idle) :
    (((hwDev c).atapiReset hw).ad d).adState = .idle := by
  unfold hwDev
  dsimp only
  split
  · rfl
  · exact h

end Drives

/-- `ap_start` of a disk packet leaves the drive alone. A refused ATAPI packet
    leaves it idle. -/
theorem ApFunc.start_state (f : ApFunc) (busyWait : Bool) (r : Regs) (s : DrvSys) :
    (f ≠ .atapi → (f.start busyWait r s).1.drv = s.drv) ∧
      (f = .atapi → (f.start busyWait r s).2 ≠ .fini) ∧
      ((f.start busyWait r s).2 = .busy →
        (f.start busyWait r s).1.drv.adState = s.drv.adState) := by
  cases f with
  | queued =>
      unfold ApFunc.start queuedFunc
      dsimp only
      refine ⟨fun _ => ?_, (fun h => nomatch h), fun h => nomatch h⟩
      split <;> rfl
  | disk st =>
      -- The functions of a disk do not know `ad_state`.
      have hdrv : (diskStart st busyWait r s).1.drv = s.drv := by
        unfold diskStart
        cases st with
        | nodata | pioIn => rfl
        | dmaIn | dmaOut =>
            dsimp only
            split <;> rfl
        | pioOut =>
            dsimp only
            split
            · split <;> rfl
            · rfl
      exact ⟨fun _ => hdrv, (fun h => nomatch h), fun _ => congrArg AtapiDrv.adState hdrv⟩
  | atapi =>
      unfold ApFunc.start
      refine ⟨fun h => absurd rfl h, fun _ => ?_, fun hrc => ?_⟩
      · rcases atapiFsmStart_spec busyWait r s with ⟨hb, -⟩ | ⟨-, hf, -⟩
        · rw [hb]
          nofun
        · exact hf
      · rcases atapiFsmStart_spec busyWait r s with ⟨-, hk⟩ | ⟨hb, -⟩
        · exact hk.state
        · exact absurd hrc hb

/-- `ap_intr` of a disk packet leaves the drive alone. An ATAPI packet that is done
    leaves it idle. -/
theorem ApFunc.intr_state (f : ApFunc) (r : Regs) (s : DrvSys) :
    (f ≠ .atapi → (f.intr r s).1.drv = s.drv) ∧
      (f = .atapi → (f.intr r s).2 = .fini → (f.intr r s).1.drv.adState = .idle) := by
  cases f with
  | queued => exact ⟨fun _ => rfl, fun h => nomatch h⟩
  | disk st =>
      refine ⟨fun _ => ?_, fun h => nomatch h⟩
      cases st with
      | nodata => exact (Steady.nodata r s).drv
      | pioIn => exact (Steady.pioIn r s).drv
      | pioOut => exact (Steady.pioOut r s).drv
      | dmaIn | dmaOut => exact (Steady.dma r s).drv
  | atapi =>
      refine ⟨fun h => absurd rfl h, fun _ hrc => ?_⟩
      unfold ApFunc.intr at hrc ⊢
      have hspec := atapiFsmIntr_spec r s
      rw [hrc] at hspec
      generalize (atapiFsmIntr r s).1 = t at hspec ⊢
      cases hspec with
      -- The other two outcomes do not return `ATA_FSM_RC_FINI`.
      | other _ _ hk hidle =>
          rcases hidle with hidle | ⟨-, hidle⟩
          · cases hidle
          · rw [hk.state, DrvSys.setState_state]
            exact hidle

/-! ## The controller -/

section Controller

variable {c : HwConfig} {s : Ctlr Hw}

/-- With every drive idle it does not matter what the controller does. -/
theorem InStep.of_all (h : AllIdle c s.dev)
    (hcur : ∀ g, s.holder = some g → s.dev.cur = (s.dev.info g).drv) : InStep c s where
  idle := fun _ => h
  others := h.others
  cur := hcur
  quiet := fun _ _ _ => h.cur

theorem holder_none (h : s.active = none) (g : Gcmd) : s.holder ≠ some g := by
  unfold Ctlr.holder
  rw [h]
  nofun

/-- What the invariant looks at is the same. -/
structure SameDrives (s t : Ctlr Hw) : Prop where
  active : t.active = s.active
  fault : t.fault = s.fault
  ad : t.dev.ad = s.dev.ad
  cur : t.dev.cur = s.dev.cur
  info : ∀ g, s.holder = some g → t.dev.info g = s.dev.info g

theorem SameDrives.holder {t : Ctlr Hw} (h : SameDrives s t) : t.holder = s.holder := by
  unfold Ctlr.holder
  rw [h.active, h.fault]

theorem InStep.congr (h : InStep c s) {t : Ctlr Hw} (hsame : SameDrives s t) : InStep c t := by
  constructor
  · intro hn d hd
    rw [hsame.active] at hn
    rw [hsame.ad]
    exact h.idle hn d hd
  · intro d hd hne
    rw [hsame.cur] at hne
    rw [hsame.ad]
    exact h.others d hd hne
  · intro g hg
    rw [hsame.holder] at hg
    rw [hsame.cur, hsame.info g hg]
    exact h.cur g hg
  · intro g hg hf hd
    rw [hsame.active] at hg
    rw [hsame.info g (holder_cmd hg)] at hf
    rw [hsame.cur] at hd
    rw [hsame.ad, hsame.cur]
    exact h.quiet g hg hf hd

/-- `atapi_fsm_reset` makes the drives idle, if the one at hand is idle or has the
    logical unit 0. -/
theorem InStep.atapiReset (h : InStep c s)
    (hcov : s.active ≠ none → s.dev.cur.lun ≠ 0 → CurIdle c s.dev) :
    AllIdle c ((hwDev c).atapiReset s.dev) := by
  by_cases hn : s.active = none
  · exact fun d hd => atapiReset_idle (h.idle hn d hd)
  · intro d hd
    by_cases hne : d = s.dev.cur
    · by_cases hlun : d.lun = 0
      · unfold hwDev
        dsimp only
        rw [if_pos ⟨hlun, hd⟩]
      · rw [hne] at hlun hd ⊢
        exact atapiReset_idle (hcov hn hlun hd)
    · exact atapiReset_idle (h.others d hd hne)

/-- A command is started, with all the drives idle. -/
theorem call_start_inStep (g : Gcmd) (h : AllIdle c s.dev) (ha : s.active = some (.cmd g)) :
    InStep c (s.call (hwDev c).apStart (.cmd g)).1 ∧
      ((s.call (hwDev c).apStart (.cmd g)).2 = .busy ∨
          (s.call (hwDev c).apStart (.cmd g)).2 = .fini →
        AllIdle c (s.call (hwDev c).apStart (.cmd g)).1.dev) := by
  -- Only the drive of the packet can change.
  have hothers : OthersIdle c { s.dev with cur := (s.dev.info g).drv } := fun d hd _ => h d hd
  have hstart := (s.dev.info g).func.start_state c.busyWait (s.dev.regs 0)
    ({ s.dev with cur := (s.dev.info g).drv }.view (.cmd g) (s.pkt (.cmd g)))
  have hcur : (s.dev.info g).func ≠ .atapi ∨ (s.call (hwDev c).apStart (.cmd g)).2 = .busy →
      CurIdle c (s.call (hwDev c).apStart (.cmd g)).1.dev := by
    intro hf
    refine curIdle_exec _ _ _ fun hd => ?_
    rcases hf with hf | hf
    · exact (congrArg AtapiDrv.adState (hstart.1 hf)).trans (h _ hd)
    · exact (hstart.2.2 hf).trans (h _ hd)
  have hall := hothers.exec (.cmd g) (s.pkt (.cmd g)) ((s.dev.info g).func.start c.busyWait)
  refine ⟨⟨fun hn => ?_, hall, fun g' hg => ?_, fun g' hg hf => ?_⟩, fun hrc => hall.all ?_⟩
  · rw [show (s.call (hwDev c).apStart (.cmd g)).1.active = s.active from rfl, ha] at hn
    cases hn
  · have hholder : s.holder = some g' := hg
    rw [holder_cmd ha] at hholder
    rw [← Option.some.inj hholder]
    rfl
  · have hactive : s.active = some (.cmd g') := hg
    rw [ha] at hactive
    cases hactive
    exact hcur (Or.inl hf)
  · rcases hrc with hrc | hrc
    · exact hcur (Or.inr hrc)
    · exact hcur (Or.inl fun hf => hstart.2.1 hf hrc)

/-- An interrupt for the active packet. -/
theorem call_intr_inStep (h : InStep c s) {p : PktId} (hp : s.active = some p) :
    InStep c (s.call (hwDev c).apIntr p).1 ∧
      ((s.call (hwDev c).apIntr p).2 = .fini →
        AllIdle c (s.call (hwDev c).apIntr p).1.dev) := by
  have hactive : (s.call (hwDev c).apIntr p).1.active = some p := hp
  cases p with
  | arq =>
      have hothers := h.others.exec .arq (s.pkt .arq) ApFunc.atapi.intr
      refine ⟨⟨fun hn => ?_, hothers, h.cur, fun g hg => ?_⟩, fun hrc => hothers.all ?_⟩
      · rw [hactive] at hn
        cases hn
      · rw [hactive] at hg
        cases hg
      · exact curIdle_exec _ _ _ fun _ =>
          (ApFunc.atapi.intr_state (s.dev.regs 0) (s.dev.view .arq (s.pkt .arq))).2 rfl hrc
  | cmd g =>
      have hintr := (s.dev.info g).func.intr_state (s.dev.regs 0)
        (s.dev.view (.cmd g) (s.pkt (.cmd g)))
      have hothers := h.others.exec (.cmd g) (s.pkt (.cmd g)) (s.dev.info g).func.intr
      -- A disk packet leaves its drive as it was, and that was idle.
      have hquiet : (s.dev.info g).func ≠ .atapi →
          CurIdle c (s.call (hwDev c).apIntr (.cmd g)).1.dev := by
        intro hf
        refine curIdle_exec _ _ _ fun hd => ?_
        exact (congrArg AtapiDrv.adState (hintr.1 hf)).trans (h.quiet g hp hf hd)
      refine ⟨⟨fun hn => ?_, hothers, h.cur, fun g' hg hf => ?_⟩, fun hrc => hothers.all ?_⟩
      · rw [hactive] at hn
        cases hn
      · rw [hactive] at hg
        cases hg
        exact hquiet hf
      · by_cases hf : (s.dev.info g).func = .atapi
        · exact curIdle_exec _ _ _ fun _ => hintr.2 hf hrc
        · exact hquiet hf

/-- The ARQ packet is started, with all the drives idle. If it is refused they
    still are. -/
theorem startArq_inStep (g : Gcmd) (h : AllIdle c s.dev)
    (hcur : s.dev.cur = (s.dev.info g).drv) :
    InStep c (startArq (hwDev c) s (.cmd g)).1 ∧
      (startArq (hwDev c) s (.cmd g)).2 ≠ .fini ∧
      ((startArq (hwDev c) s (.cmd g)).2 = .busy →
        AllIdle c (startArq (hwDev c) s (.cmd g)).1.dev) := by
  unfold startArq
  dsimp only
  generalize hq : (Ctlr.setFlags { s with fault := some (.cmd g), active := some PktId.arq }
    PktId.arq fun _ => { atapi := true, read := true }) = t
  have hactive : t.active = some .arq := by
    rw [← hq]
    rfl
  have hfault : t.fault = some (.cmd g) := by
    rw [← hq]
    rfl
  have hdev : t.dev = s.dev := by
    rw [← hq]
    rfl
  -- Setting the ARQ packet up does not touch the drives.
  have hall : AllIdle c t.dev.initArq := by
    rw [hdev]
    exact h
  have hstart := ApFunc.atapi.start_state c.busyWait (t.dev.initArq.regs 0)
    (t.dev.initArq.view .arq (t.pkt .arq))
  have hothers := hall.others.exec .arq (t.pkt .arq) (ApFunc.atapi.start c.busyWait)
  refine ⟨⟨fun hn => ?_, hothers, fun g' hg => ?_, fun g' hg => ?_⟩, hstart.2.1 rfl, fun hrc => ?_⟩
  · rw [show (t.call (hwDev c).apStart .arq).1.active = t.active from rfl, hactive] at hn
    cases hn
  · have hholder : t.holder = some g' := hg
    rw [holder_arq hactive hfault] at hholder
    rw [← Option.some.inj hholder]
    rw [← hdev] at hcur
    exact hcur
  · have hcmd : t.active = some (.cmd g') := hg
    rw [hactive] at hcmd
    cases hcmd
  · exact hothers.all (curIdle_exec _ _ _ fun hd => (hstart.2.2 hrc).trans (hall _ hd))

/-- A packet that is done leaves the controller. -/
theorem allDone_inStep (p : PktId) (h : AllIdle c s.dev) : InStep c (allDone s p).1 := by
  have hnone : (allDone s p).1.active = none := by
    cases p <;> rfl
  refine InStep.of_all ?_ fun g hg => absurd hg (holder_none hnone g)
  rw [(allDone_dev s p).1]
  exact h

/-- A packet is done, with all the drives idle. -/
theorem fini_inStep {func : FsmFunc} (h : InStep c s) (hact : nextAction s.state func = .fini)
    (hall : AllIdle c s.dev) :
    InStep c (fsm (hwDev c) func s).1 ∧ (fsm (hwDev c) func s).2.1 ≠ .fini := by
  unfold fsm
  simp only [hact]
  cases ha : s.active with
  | none =>
      refine ⟨InStep.of_all hall fun g hg => absurd hg (holder_none ?_ g), nofun⟩
      rfl
  | some p =>
      cases p with
      | arq =>
          cases hf : s.fault with
          | none =>
              refine ⟨InStep.of_all hall fun g hg => ?_, nofun⟩
              cases hg
          | some q => exact ⟨allDone_inStep q hall, nofun⟩
      | cmd g =>
          -- Where the ARQ packet takes over, it is for the same drive.
          have hcur := h.cur g (holder_cmd ha)
          dsimp only
          unfold finiCmd
          split
          · have harq := startArq_inStep (c := c)
              (s := { s with state := s.state, active := some (.cmd g) }) g hall hcur
            dsimp only at harq ⊢
            split
            · next hrc => exact ⟨allDone_inStep _ (harq.2.2 hrc), nofun⟩
            · exact ⟨harq.1, harq.2.1⟩
          · exact ⟨allDone_inStep _ hall, nofun⟩

/-- A bus reset while a packet is active stops the DMA engine at most before it
    resets the drives. -/
theorem fsm_resetA {func : FsmFunc} {p : PktId} (hact : nextAction s.state func = .resetA)
    (hp : s.active = some p) :
    ∃ t, SameDrives s t ∧ t.dev.regs = s.dev.regs ∧ fsm (hwDev c) func s =
      if ((hwDev c).softwareReset t.dev).2 then
        ({ t with dev := (hwDev c).atapiReset ((hwDev c).softwareReset t.dev).1 }, .fini, false)
      else ({ t with dev := ((hwDev c).softwareReset t.dev).1 }, .busy, false) := by
  unfold fsm
  simp only [hact, hp]
  refine ⟨_, ?_, ?_, rfl⟩
  · split
    · exact ⟨hp.symm, rfl, rfl, rfl, fun _ _ => rfl⟩
    · exact ⟨hp.symm, rfl, rfl, rfl, fun _ _ => rfl⟩
  · split
    · rfl
    · rfl

/-- A bus reset while a packet is active. If it fails nothing changes. -/
theorem resetA_inStep {func : FsmFunc} (h : InStep c s) (hact : nextAction s.state func = .resetA)
    (hcov : ResetCovers c s .resetBus) :
    InStep c (fsm (hwDev c) func s).1 ∧
      ((fsm (hwDev c) func s).2.1 = .fini → AllIdle c (fsm (hwDev c) func s).1.dev) := by
  cases ha : s.active with
  | none =>
      have hall := h.idle ha
      unfold fsm
      simp only [hact, ha]
      exact ⟨InStep.of_all hall fun g hg => (nomatch hg), fun hn => nomatch hn⟩
  | some p =>
      rcases fsm_resetA (c := c) hact ha with ⟨t, ht, hregs, hrun⟩
      rw [hrun]
      split
      · next hok =>
          -- The result of the software reset does not depend on the engine.
          have hok' : ((hwDev c).softwareReset s.dev).2 = true := by
            rw [← hok]
            unfold hwDev
            dsimp only
            rw [hregs]
          have hnext : InStep c { t with dev := ((hwDev c).softwareReset t.dev).1 } :=
            h.congr ⟨ht.active, ht.fault, ht.ad, ht.cur, ht.info⟩
          -- Now `atapi_fsm_reset` makes the drives idle, the one at hand by assumption.
          have hall := hnext.atapiReset fun hn hlun => by
            have hcur := hcov hok' (by rw [ha]; nofun) (by rw [← ht.cur]; exact hlun)
            unfold CurIdle at hcur ⊢
            rw [← ht.cur, ← ht.ad] at hcur
            exact hcur
          exact ⟨InStep.of_all hall hnext.cur, fun _ => hall⟩
      · exact ⟨h.congr ⟨ht.active, ht.fault, ht.ad, ht.cur, ht.info⟩, fun hn => nomatch hn⟩

/-- The state machine keeps the invariant, and all the drives are idle when it says
    that the packet is done. -/
theorem fsm_inStep {func : FsmFunc} (hok : CtlrOk s) (h : InStep c s)
    (hfini : func = .fini → AllIdle c s.dev)
    (hreset : func = .reset → ResetCovers c s .resetBus) :
    InStep c (fsm (hwDev c) func s).1 ∧
      ((fsm (hwDev c) func s).2.1 = .fini → AllIdle c (fsm (hwDev c) func s).1.dev) := by
  cases hact : nextAction s.state func with
  | fini =>
      have hs := fini_inStep (c := c) h hact (hfini (nextAction_fini hact))
      exact ⟨hs.1, fun hrc => absurd hrc hs.2⟩
  | resetA => exact resetA_inStep h hact (hreset (nextAction_resetA hact))
  | resetI =>
      have hactive := hok.idle.1 (nextAction_resetI hact)
      have hall := h.idle hactive
      unfold fsm
      simp only [hact]
      split
      · exact ⟨InStep.of_all (fun d hd => atapiReset_idle (hall d hd)) h.cur,
          fun hn => nomatch hn⟩
      · exact ⟨InStep.of_all hall h.cur, fun hn => nomatch hn⟩
  | nada | busy =>
      unfold fsm
      simp only [hact]
      exact ⟨h.congr ⟨rfl, rfl, rfl, rfl, fun _ _ => rfl⟩, fun hn => nomatch hn⟩
  | intr =>
      unfold fsm
      simp only [hact]
      cases ha : s.active with
      | none =>
          refine ⟨InStep.of_all (h.idle ha) fun g hg => ?_, fun hn => nomatch hn⟩
          cases hg
      | some p =>
          -- `ata_ctlr_fsm` sets the next state before it acts.
          have hcall := call_intr_inStep (c := c)
            (s := { s with state := nextState s.state func })
            (h.congr ⟨rfl, rfl, rfl, rfl, fun _ _ => rfl⟩) ha
          rw [ha] at hcall
          exact hcall
  | start drvp g =>
      -- A command is started on an idle controller, where all the drives are.
      have hall := h.idle (hok.idle.1 (nextAction_start hact).1)
      have hcall := call_start_inStep (c := c) (s := { s with
        state := nextState s.state func, active := some (.cmd g), activeDrv := some drvp }) g
        hall rfl
      unfold fsm
      simp only [hact]
      split
      · next hrc =>
          refine ⟨InStep.of_all (hcall.2 (Or.inl hrc)) fun g' hg => ?_, fun hn => nomatch hn⟩
          cases hg
      · refine ⟨hcall.1.congr ⟨rfl, rfl, rfl, rfl, fun _ _ => rfl⟩, fun hrc => ?_⟩
        exact hcall.2 (Or.inr hrc)

/-! ## The runs -/

/-- What holds when `ata_ctlr_fsm` is called. -/
structure InStepAt (c : HwConfig) (func : FsmFunc) (s : Ctlr Hw) : Prop where
  ok : CtlrOk s
  inStep : InStep c s
  fini : func = .fini → AllIdle c s.dev
  reset : func = .reset → ResetCovers c s .resetBus

theorem InStepAt.step {func : FsmFunc} (h : InStepAt c func s) :
    InStep c (fsm (hwDev c) func s).1 ∧
      ((fsm (hwDev c) func s).2.1 = .intr → InStepAt c .intr (fsm (hwDev c) func s).1) ∧
        ((fsm (hwDev c) func s).2.1 = .fini → InStepAt c .fini (fsm (hwDev c) func s).1) := by
  have hs := fsm_inStep h.ok h.inStep h.fini h.reset
  have hok := fsm_ok (d := hwDev c) h.ok func
  refine ⟨hs.1, fun _ => ⟨hok, hs.1, ?_, ?_⟩, fun hrc => ⟨hok, hs.1, fun _ => hs.2 hrc, ?_⟩⟩
  · exact fun hn => nomatch hn
  · exact fun hn => nomatch hn
  · exact fun hn => nomatch hn

/-- The first call of `ata_ctlr_fsm`. -/
theorem HwCall.inStepAt {call : HwCall} {func : FsmFunc} (hok : CtlrOk s) (h : InStep c s)
    (hcov : ResetCovers c s call) (hf : call.func s = some func) : InStepAt c func s := by
  cases call with
  | processIntr =>
      cases hf
      exact ⟨hok, h, (fun hn => nomatch hn), fun hn => nomatch hn⟩
  | resetBus =>
      cases hf
      exact ⟨hok, h, (fun hn => nomatch hn), fun _ => hcov⟩
  | hbaStart g =>
      rcases HwCall.hbaStart_func hf with ⟨drvp, rfl | rfl⟩
      · exact ⟨hok, h, (fun hn => nomatch hn), fun hn => nomatch hn⟩
      · exact ⟨hok, h, (fun hn => nomatch hn), fun hn => nomatch hn⟩

/-- The packet of the command that the controller works on is held. -/
theorem holds_holder {g : Gcmd} (h : s.holder = some g) : s.Holds (.cmd g) := by
  unfold Ctlr.holder at h
  split at h
  · next ha =>
      cases h
      exact Or.inl ha
  · next ha hf =>
      cases h
      exact Or.inr (Or.inl hf)
  · cases h

theorem hwStep_inStep {s' : Ctlr Hw} (hok : CtlrOk s) (h : InStep c s)
    (hstep : HwStep c (ResetCovers c) s s') : InStep c s' := by
  cases hstep with
  | call call hcov =>
      rcases call.run_spec c s with ⟨-, hrun⟩ | ⟨func, t, hf, hend, hrun⟩
      · rw [hrun]
        exact h
      -- The invariant of the calls of `ata_ctlr_fsm` carries it through the loop.
      · have ht : InStep c t :=
          hend.invariant (HwCall.inStepAt hok h hcov hf) fun func s hs => hs.step
        rcases hrun with hrun | hrun
        · rw [hrun]
          exact ht
        · rw [hrun]
          exact ht.congr ⟨rfl, rfl, rfl, rfl, fun _ _ => rfl⟩
  | between pkt dev hb =>
      exact h.congr ⟨rfl, rfl, hb.ad, hb.cur, fun g hg => hb.info g (holds_holder hg)⟩

theorem reachable_inStep (h : Reachable (HwInit c) (HwStep c (ResetCovers c)) s) : InStep c s := by
  refine h.invariant (fun s h0 => ?_) fun _ _ hr hI hstep =>
    hwStep_inStep (reachable_hw_ctlrOk hr) hI hstep
  exact InStep.of_all h0.adState fun g hg => absurd hg (holder_none h0.active g)

/-- An active controller works on a command. -/
theorem CtlrOk.busy_holder (h : CtlrOk s) (hs : s.state ≠ .idle) : ∃ g, s.holder = some g := by
  cases ha : s.active with
  | none => exact absurd (h.idle.2 ha) hs
  | some p =>
      cases p with
      | cmd g => exact ⟨g, holder_cmd ha⟩
      | arq =>
          rcases h.faultArq ha with ⟨g, hg⟩
          exact ⟨g, holder_arq ha hg⟩

/-- In every run in which the bus resets cover the drives, an idle controller has
    all the ATAPI drives idle, and an active one all the others. In the course of
    each of the calls, the drive is idle when a packet is about to be started, and
    when the ARQ packet is. -/
theorem fsms_in_step (h : Reachable (HwInit c) (HwStep c (ResetCovers c)) s) :
    (s.state = .idle → ∀ d, c.Atapi d → (s.dev.ad d).adState = .idle) ∧
      (s.state ≠ .idle → ∃ g, s.holder = some g ∧
        ∀ d, c.Atapi d → d ≠ (s.dev.info g).drv → (s.dev.ad d).adState = .idle) ∧
      ∀ call func₀, ResetCovers c s call → call.func s = some func₀ →
        ∀ func t, FsmCalls (hwDev c) func₀ s func t →
          (∀ drvp g, nextAction t.state func = .start drvp g → c.Atapi (t.dev.info g).drv →
            (t.dev.ad (t.dev.info g).drv).adState = .idle) ∧
          ∀ g, nextAction t.state func = .fini → t.active = some (.cmd g) →
            c.Atapi t.dev.cur → (t.dev.ad t.dev.cur).adState = .idle := by
  have hok := reachable_hw_ctlrOk h
  have hin := reachable_inStep h
  refine ⟨fun hs => hin.idle (hok.idle.1 hs), fun hs => ?_, ?_⟩
  · rcases hok.busy_holder hs with ⟨g, hg⟩
    refine ⟨g, hg, fun d hd hne => hin.others d hd ?_⟩
    rw [hin.cur g hg]
    exact hne
  · intro call func₀ hcov hf func t hcalls
    have hat : InStepAt c func t :=
      hcalls.invariant (HwCall.inStepAt hok hin hcov hf) fun func s hs => hs.step.2
    constructor
    · intro drvp g hact hd
      exact hat.inStep.idle (hat.ok.idle.1 (nextAction_start hact).1) _ hd
    · intro g hact _ hd
      exact hat.fini (nextAction_fini hact) _ hd

end Controller

/-! ## Two logical units -/

/-- An ATAPI drive with two logical units. -/
def twoUnits : HwConfig where
  kind := fun d => if d = .drive0 0 ∨ d = .drive0 1 then some .atapi else none
  busyWait := false

/-- A controller with this drive. The command is for the logical unit `lun`. -/
def twoUnitsCtlr (lun : Nat) : Ctlr Hw where
  state := .idle
  active := none
  activeDrv := none
  fault := none
  pkt := fun _ => ⟨{ atapi := true, read := true }, false, false⟩
  dev := {
    ad := fun _ => {}
    cur := .drive0 0
    bmicx := 0
    info := fun _ => ⟨.drive0 lun, .atapi⟩
    xfer := fun _ => {}
    regs := fun _ => {} }
  log := []

theorem twoUnitsCtlr_init (lun : Nat) : HwInit twoUnits (twoUnitsCtlr lun) where
  state := rfl
  active := rfl
  activeDrv := rfl
  fault := rfl
  log := rfl
  adState := fun _ _ => rfl
  bmicx := by
    show dmaStarted 0 = false
    decide
  arq := rfl

/-- The command has been started. -/
def twoUnitsStarted (lun : Nat) : Ctlr Hw := HwCall.run twoUnits (twoUnitsCtlr lun) (.hbaStart 0)

/-- Before there is an interrupt, the bus is reset. -/
def twoUnitsReset (lun : Nat) : Ctlr Hw := HwCall.run twoUnits (twoUnitsStarted lun) .resetBus

theorem twoUnitsReset_reachable (lun : Nat) {ok : Ctlr Hw → HwCall → Prop}
    (hstart : ok (twoUnitsCtlr lun) (.hbaStart 0)) (hreset : ok (twoUnitsStarted lun) .resetBus) :
    Reachable (HwInit twoUnits) (HwStep twoUnits ok) (twoUnitsReset lun) :=
  ((Reachable.initial (twoUnitsCtlr_init lun)).tail (.call _ _ hstart)).tail (.call _ _ hreset)

/-- A command for the logical unit 0. -/
theorem fsms_in_step_lun_zero : ((twoUnitsStarted 0).dev.ad ⟨0, 0⟩).adState = .cmd ∧
    ((twoUnitsReset 0).dev.ad ⟨0, 0⟩).adState = .idle := by
  have hlun : (twoUnitsStarted 0).dev.cur.lun = 0 := by decide +kernel
  have h := fsms_in_step
    (twoUnitsReset_reachable 0 trivial fun _ _ hne => absurd hlun hne)
  exact ⟨by decide +kernel, h.1 (by decide +kernel) _ (by decide)⟩

/-- A command for the logical unit 1. The controller is idle after the reset, but
    this drive is not, and no command can be started on it. -/
theorem fsms_out_of_step :
    (Ata.hbaStart (hwDev twoUnits) ⟨0⟩ 0 (twoUnitsReset 1)).2 = false ∧
      ¬ ∀ (c : HwConfig) (s : Ctlr Hw), Reachable (HwInit c) (HwStep c fun _ _ => True) s →
        s.state = .idle → ∀ d, c.Atapi d → (s.dev.ad d).adState = .idle := by
  refine ⟨by decide +kernel, fun h => ?_⟩
  have hstate : (twoUnitsReset 1).state = .idle := by decide +kernel
  have hcmd : ((twoUnitsReset 1).dev.ad ⟨0, 1⟩).adState = .cmd := by decide +kernel
  have hidle := h twoUnits _ (twoUnitsReset_reachable 1 trivial trivial) hstate ⟨0, 1⟩ (by decide)
  rw [hcmd] at hidle
  cases hidle

end Ata

end Sil3112
