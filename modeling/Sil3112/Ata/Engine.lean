import Sil3112.Ata.Complete
import Sil3112.Ata.Hardware

/-!
# The DMA Engine

The engine is started by `ata_disk_start_dma_in` and `ata_disk_start_dma_out`, and
by the ATAPI state machine after the CDB. It is stopped by `ata_disk_intr_dma`, by
the ATAPI state machine at an interrupt in the state `S_DMA`, and by a bus reset
if the active packet has `ap_pciide_dma`.

The first two go by the functions of the packet, and the bus reset by
`ap_pciide_dma`. `ata_disk_iosetup` sets both, but it clears `ap_pciide_dma` some
way before it sets the functions. If it finds no cookies in between, it returns,
and the packet still has the functions of its last chunk. dadk sends the packet
all the same. Then the engine is started for a packet that does not have
`ap_pciide_dma`, and a bus reset does not stop it.

## Main definitions

* `ApFunc.Armed`: The state in which the functions of a packet have the engine
  running.
* `EngineOk`: The invariant.
* `Paired`: A packet is started with functions that agree with `ap_pciide_dma`.

## Theorems

* `ApFunc.start_engine`, `ApFunc.intr_engine`: What the functions of a packet do
  to the engine.
* `fsm_engine`: The state machine of the controller keeps the invariant.
* `bus_master_attended`: The engine runs only for the active packet.
-/

namespace Sil3112

namespace Ata

open Ghd Disk Transition

/-! ## The functions of a packet -/

/-- The functions of a packet have the engine running, when they do. -/
def ApFunc.Armed : ApFunc → DrvSys → Prop
  | .disk st, _ => st.usesDma = true
  | .atapi, s => s.drv.adState = .dma
  | .queued, _ => False

/-- The disk functions look at the drive no more than the engine does. -/
structure Steady (s t : DrvSys) : Prop where
  drv : t.drv = s.drv
  bmicx : t.bmicx = s.bmicx
  pciideDma : t.pkt.pciideDma = s.pkt.pciideDma

namespace Steady

variable {s t u : DrvSys}

theorem refl (s : DrvSys) : Steady s s := ⟨rfl, rfl, rfl⟩

theorem trans (h : Steady s t) (h' : Steady t u) : Steady s u :=
  ⟨h'.drv.trans h.drv, h'.bmicx.trans h.bmicx, h'.pciideDma.trans h.pciideDma⟩

theorem ite (c : Prop) [Decidable c] (h : Steady s t) (h' : Steady s u) :
    Steady s (if c then t else u) := by
  by_cases hc : c
  · rwa [if_pos hc]
  · rwa [if_neg hc]

theorem clear (r : Regs) (s : DrvSys) : Steady s (getStatusClearIntr r s) :=
  ite _ ⟨rfl, rfl, rfl⟩ (refl s)

theorem fail (r : Regs) (s : DrvSys) : Steady s (s.fail r) := ⟨rfl, rfl, rfl⟩

theorem xferIn (s : DrvSys) : Steady s (pioXferDataIn s) := ⟨rfl, rfl, rfl⟩

theorem nodata (r : Regs) (s : DrvSys) : Steady s (diskIntrNodata r s).1 := by
  unfold diskIntrNodata
  refine trans (clear r s) ?_
  dsimp only
  split <;> split <;> exact ⟨rfl, rfl, rfl⟩

theorem pioIn (r : Regs) (s : DrvSys) : Steady s (diskIntrPioIn r s).1 := by
  unfold diskIntrPioIn
  refine trans (clear r s) ?_
  generalize getStatusClearIntr r s = s
  dsimp only
  by_cases hb : r.status.bsy = true
  · rw [if_pos hb]
    exact fail r s
  · rw [if_neg hb]
    have hready : Steady s (if r.status.ready then s else s.fail r) := ite _ (refl s) (fail r s)
    generalize (if r.status.ready then s else s.fail r) = u at hready ⊢
    have hmove := hready.trans (ite (r.status.drq = true) (xferIn u) (refl u))
    generalize (if r.status.drq = true then pioXferDataIn u else u) = v at hmove ⊢
    split
    · exact hmove
    · exact hmove.trans (ite _ (fail r v) (refl v))

theorem pioOut (r : Regs) (s : DrvSys) : Steady s (diskIntrPioOut r s).1 := by
  unfold diskIntrPioOut
  refine trans (clear r s) ?_
  dsimp only
  split
  · exact fail r _
  · split
    · exact ⟨rfl, rfl, rfl⟩
    · split
      · exact ⟨rfl, rfl, rfl⟩
      · split
        · exact ⟨rfl, rfl, rfl⟩
        · exact ⟨rfl, rfl, rfl⟩

/-- The DMA interrupt does the same, once it has stopped the engine. -/
theorem dma (r : Regs) (s : DrvSys) :
    Steady { s with bmicx := pciideDmaStop s.bmicx } (diskIntrDma r s).1 := by
  unfold diskIntrDma
  generalize { s with bmicx := pciideDmaStop s.bmicx } = s
  dsimp only
  split
  · exact fail r s
  · refine trans (clear r s) ?_
    split
    · exact ⟨rfl, rfl, rfl⟩
    · exact ⟨rfl, rfl, rfl⟩

end Steady

/-- `ap_start` starts the engine only for a disk packet with DMA, and only if the
    packet is started. -/
theorem ApFunc.start_engine (f : ApFunc) (busyWait : Bool) (r : Regs) {s : DrvSys}
    (hclear : dmaStarted s.bmicx = false) :
    (f.start busyWait r s).1.pkt.pciideDma = s.pkt.pciideDma ∧
      (dmaStarted (f.start busyWait r s).1.bmicx = true →
        f.Armed s ∧ (∃ st, f = .disk st) ∧ (f.start busyWait r s).2 = .okay) := by
  cases f with
  | queued =>
      unfold ApFunc.start queuedFunc
      dsimp only
      split <;> exact ⟨rfl, fun h => absurd (hclear.symm.trans h) Bool.false_ne_true⟩
  | atapi =>
      -- The CDB is sent by the interrupt, and the engine started with it.
      have hk : (atapiFsmStart busyWait r s).1.bmicx = s.bmicx ∧
          (atapiFsmStart busyWait r s).1.pkt.pciideDma = s.pkt.pciideDma := by
        rcases atapiFsmStart_spec busyWait r s with ⟨-, hk⟩ | ⟨-, -, -, hk⟩
        · exact ⟨hk.bmicx, hk.pciideDma⟩
        · exact ⟨hk.bmicx, hk.pciideDma⟩
      refine ⟨hk.2, fun h => ?_⟩
      unfold ApFunc.start at h
      rw [hk.1, hclear] at h
      cases h
  | disk st =>
      unfold ApFunc.start diskStart
      cases st with
      | nodata | pioIn => exact ⟨rfl, fun h => absurd (hclear.symm.trans h) Bool.false_ne_true⟩
      -- These start the engine themselves, if the drive takes the command.
      | dmaIn | dmaOut =>
          dsimp only
          split
          · exact ⟨rfl, fun _ => ⟨rfl, ⟨_, rfl⟩, rfl⟩⟩
          · exact ⟨rfl, fun h => absurd (hclear.symm.trans h) Bool.false_ne_true⟩
      | pioOut =>
          dsimp only
          split
          · split <;> exact ⟨rfl, fun h => absurd (hclear.symm.trans h) Bool.false_ne_true⟩
          · exact ⟨rfl, fun h => absurd (hclear.symm.trans h) Bool.false_ne_true⟩

/-- After `ap_intr` the engine runs only if it has just been started after the
    CDB. -/
theorem ApFunc.intr_engine (f : ApFunc) (r : Regs) {s : DrvSys}
    (harmed : dmaStarted s.bmicx = true → f.Armed s) :
    (f.intr r s).1.pkt.pciideDma = s.pkt.pciideDma ∧
      (dmaStarted (f.intr r s).1.bmicx = true →
        s.pkt.pciideDma = true ∧ f.Armed (f.intr r s).1 ∧ (f.intr r s).2 = .okay) := by
  have hno : ∀ b, dmaStarted b = false → dmaStarted b = true →
      s.pkt.pciideDma = true ∧ f.Armed (f.intr r s).1 ∧ (f.intr r s).2 = .okay :=
    fun b hb h => absurd (hb.symm.trans h) Bool.false_ne_true
  cases f with
  | queued => exact ⟨rfl, fun h => (harmed h).elim⟩
  | disk st =>
      -- Only the DMA functions find the engine running.
      have hclear : st.usesDma = false → dmaStarted s.bmicx = false := by
        intro hst
        by_contra hn
        have hu : st.usesDma = true := harmed (Bool.eq_true_of_not_eq_false hn)
        exact Bool.false_ne_true (hst.symm.trans hu)
      cases st with
      | nodata =>
          have hk := Steady.nodata r s
          exact ⟨hk.pciideDma, hno _ ((congrArg dmaStarted hk.bmicx).trans (hclear rfl))⟩
      | pioIn =>
          have hk := Steady.pioIn r s
          exact ⟨hk.pciideDma, hno _ ((congrArg dmaStarted hk.bmicx).trans (hclear rfl))⟩
      | pioOut =>
          have hk := Steady.pioOut r s
          exact ⟨hk.pciideDma, hno _ ((congrArg dmaStarted hk.bmicx).trans (hclear rfl))⟩
      | dmaIn | dmaOut =>
          have hk := Steady.dma r s
          exact ⟨hk.pciideDma,
            hno _ ((congrArg dmaStarted hk.bmicx).trans (dmaStarted_stop s.bmicx))⟩
  | atapi =>
      -- `atapi_fsm_intr` stops the engine first, in the state in which it may run.
      have hhalt : dmaStarted s.halt.bmicx = false := by
        unfold DrvSys.halt
        by_cases hs : s.drv.adState = .dma
        · rw [if_pos hs]
          exact dmaStarted_stop s.bmicx
        · rw [if_neg hs]
          by_contra hn
          exact hs (harmed (Bool.eq_true_of_not_eq_false hn))
      have hspec := atapiFsmIntr_spec r s
      unfold ApFunc.intr at hno ⊢
      generalize (atapiFsmIntr r s).1 = t at hspec hno ⊢
      generalize (atapiFsmIntr r s).2 = rc at hspec hno ⊢
      cases hspec with
      | busy _ hk =>
          exact ⟨hk.pciideDma.trans (halt_pciideDma s),
            hno _ ((congrArg dmaStarted hk.bmicx).trans hhalt)⟩
      | other _ _ hk _ =>
          exact ⟨hk.pciideDma.trans (halt_pciideDma s),
            hno _ ((congrArg dmaStarted hk.bmicx).trans hhalt)⟩
      -- Then it may only be started again where the CDB is sent.
      | cdb _ hs _ hstate hbmicx hdma _ _ =>
          refine ⟨hdma, fun h => ?_⟩
          have hclear : dmaStarted s.bmicx = false := by
            rw [halt_of_ne (by rw [hs]; nofun)] at hhalt
            exact hhalt
          have huses : s.pkt.pciideDma = true := by
            rw [hbmicx, hclear, Bool.or_false] at h
            exact h
          refine ⟨huses, ?_, rfl⟩
          rw [huses] at hstate
          exact hstate

/-! ## The controller -/

/-- The engine runs only for a command that is active and has `ap_pciide_dma`, and
    in the state in which its functions have it running. The ARQ packet does not
    use it. -/
structure EngineOk (s : Ctlr Hw) : Prop where
  arq : (s.pkt .arq).pciideDma = false
  attended : dmaStarted s.dev.bmicx = true → ∃ g, s.active = some (.cmd g) ∧
    (s.pkt (.cmd g)).pciideDma = true ∧
      (s.dev.info g).func.Armed (s.dev.view (.cmd g) (s.pkt (.cmd g)))

/-- A packet whose functions start the engine has `ap_pciide_dma` when it is
    started. -/
def Paired (s : Ctlr Hw) : HwCall → Prop
  | .hbaStart g => ∀ st, (s.dev.info g).func = .disk st → st.usesDma = true →
      (s.pkt (.cmd g)).pciideDma = true
  | _ => True

section Engine

variable {c : HwConfig} {s : Ctlr Hw}

theorem EngineOk.of_clear (harq : (s.pkt .arq).pciideDma = false)
    (h : dmaStarted s.dev.bmicx = false) : EngineOk s where
  arq := harq
  attended := fun hn => absurd (h.symm.trans hn) Bool.false_ne_true

/-- The engine is idle unless a command is active. -/
theorem EngineOk.clear (h : EngineOk s) (hn : ∀ g, s.active ≠ some (.cmd g)) :
    dmaStarted s.dev.bmicx = false := by
  by_contra hs
  rcases h.attended (Bool.eq_true_of_not_eq_false hs) with ⟨g, hg, -⟩
  exact hn g hg

/-- The engine is idle unless the command has `ap_pciide_dma`. -/
theorem EngineOk.clear_of_pio (h : EngineOk s) {p : PktId} (hp : s.active = some p)
    (hn : (s.pkt p).pciideDma = false) : dmaStarted s.dev.bmicx = false := by
  by_contra hs
  rcases h.attended (Bool.eq_true_of_not_eq_false hs) with ⟨g, hg, hdma, -⟩
  rw [hp] at hg
  rw [← Option.some.inj hg, hn] at hdma
  cases hdma

/-- The functions of a packet find again what they have left. -/
theorem Hw.exec_view (hw : Hw) (p : PktId) (q : AtaPkt) (f : Regs → DrvSys → DrvSys × FsmRc) :
    (hw.exec p q f).1.view p (hw.exec p q f).2.1 = (f (hw.regs 0) (hw.view p q)).1 := by
  unfold Hw.exec Hw.view Hw.put Hw.next
  simp only [Function.update_self]

@[simp] theorem Hw.exec_info (hw : Hw) (p : PktId) (q : AtaPkt)
    (f : Regs → DrvSys → DrvSys × FsmRc) : (hw.exec p q f).1.info = hw.info := rfl

theorem arq_ne_cmd (g : Gcmd) : PktId.arq ≠ .cmd g := fun h => nomatch h

/-- A command is started, with the engine idle. -/
theorem call_start_engine (g : Gcmd) (hclear : dmaStarted s.dev.bmicx = false)
    (hpair : Paired s (.hbaStart g)) :
    ((s.call (hwDev c).apStart (.cmd g)).1.pkt .arq).pciideDma = (s.pkt .arq).pciideDma ∧
      (dmaStarted (s.call (hwDev c).apStart (.cmd g)).1.dev.bmicx = true →
        (s.call (hwDev c).apStart (.cmd g)).2 = .okay ∧
        ((s.call (hwDev c).apStart (.cmd g)).1.pkt (.cmd g)).pciideDma = true ∧
        ((s.call (hwDev c).apStart (.cmd g)).1.dev.info g).func.Armed
          ((s.call (hwDev c).apStart (.cmd g)).1.dev.view (.cmd g)
            ((s.call (hwDev c).apStart (.cmd g)).1.pkt (.cmd g)))) := by
  unfold Ctlr.call hwDev
  dsimp only
  refine ⟨?_, fun h => ?_⟩
  · rw [Function.update_of_ne (arq_ne_cmd g)]
  · rw [Function.update_self, Hw.exec_view]
    have hstart := (s.dev.info g).func.start_engine c.busyWait (s.dev.regs 0)
      (s := { s.dev with cur := (s.dev.info g).drv }.view (.cmd g) (s.pkt (.cmd g))) hclear
    rcases hstart.2 h with ⟨harmed, ⟨st, hst⟩, hrc⟩
    refine ⟨hrc, ?_, ?_⟩
    · unfold Hw.exec
      dsimp only
      rw [hstart.1]
      refine hpair st hst ?_
      rw [hst] at harmed
      exact harmed
    · rw [Hw.exec_info, hst]
      rw [hst] at harmed
      exact harmed

/-- An interrupt for the active packet. -/
theorem call_intr_engine (h : EngineOk s) {p : PktId} (hp : s.active = some p) :
    EngineOk (s.call (hwDev c).apIntr p).1 ∧
      ((s.call (hwDev c).apIntr p).2 = .fini →
        dmaStarted (s.call (hwDev c).apIntr p).1.dev.bmicx = false) := by
  cases p with
  | arq =>
      have hclear := h.clear_of_pio hp h.arq
      have hintr := ApFunc.atapi.intr_engine (s.dev.regs 0) (s := s.dev.view .arq (s.pkt .arq))
        fun hn => absurd (hclear.symm.trans hn) Bool.false_ne_true
      -- The ARQ packet never starts it.
      have hidle : dmaStarted (s.call (hwDev c).apIntr .arq).1.dev.bmicx = false := by
        by_contra hs
        have huses := (hintr.2 (Bool.eq_true_of_not_eq_false hs)).1
        exact Bool.false_ne_true (h.arq.symm.trans huses)
      refine ⟨EngineOk.of_clear ?_ hidle, fun _ => hidle⟩
      unfold Ctlr.call hwDev
      dsimp only
      rw [Function.update_self]
      exact hintr.1.trans h.arq
  | cmd g =>
      have hintr := (s.dev.info g).func.intr_engine (s.dev.regs 0)
        (s := s.dev.view (.cmd g) (s.pkt (.cmd g))) fun hn => by
          rcases h.attended hn with ⟨g', hg', -, harmed⟩
          rw [hp] at hg'
          cases hg'
          exact harmed
      constructor
      · constructor
        · unfold Ctlr.call
          dsimp only
          rw [Function.update_of_ne (arq_ne_cmd g)]
          exact h.arq
        · intro hs
          rcases hintr.2 hs with ⟨huses, harmed, -⟩
          refine ⟨g, hp, ?_, ?_⟩
          · unfold Ctlr.call hwDev
            dsimp only
            rw [Function.update_self]
            exact hintr.1.trans huses
          · unfold Ctlr.call hwDev
            dsimp only
            rw [Function.update_self, Hw.exec_view]
            exact harmed
      · intro hrc
        by_contra hs
        have hokay := (hintr.2 (Bool.eq_true_of_not_eq_false hs)).2.2
        exact absurd (hokay.symm.trans hrc) nofun

/-- Changing the flags of a packet does not change `ap_pciide_dma`. -/
theorem setFlags_pciideDma {σ : Type} (s : Ctlr σ) (p q : PktId) (f : ApFlags → ApFlags) :
    ((s.setFlags p f).pkt q).pciideDma = (s.pkt q).pciideDma := by
  unfold Ctlr.setFlags
  by_cases hq : q = p
  · rw [hq]
    dsimp only
    rw [Function.update_self]
  · dsimp only
    rw [Function.update_of_ne hq]

/-- Starting the ARQ packet leaves the engine alone. -/
theorem startArq_engine (p : PktId) (harq : (s.pkt .arq).pciideDma = false)
    (hclear : dmaStarted s.dev.bmicx = false) :
    dmaStarted (startArq (hwDev c) s p).1.dev.bmicx = false ∧
      ((startArq (hwDev c) s p).1.pkt .arq).pciideDma = false := by
  unfold startArq Ctlr.call hwDev
  dsimp only
  generalize hq : (Ctlr.setFlags { s with fault := some p, active := some PktId.arq } PktId.arq
    fun _ => { atapi := true, read := true }) = t
  have ht : (t.pkt .arq).pciideDma = false := by
    rw [← hq, setFlags_pciideDma]
    exact harq
  have hb : dmaStarted t.dev.bmicx = false := by
    rw [← hq]
    exact hclear
  have hstart := ApFunc.atapi.start_engine c.busyWait (t.dev.initArq.regs 0)
    (s := t.dev.initArq.view .arq (t.pkt .arq)) hb
  constructor
  · by_contra hs
    rcases (hstart.2 (Bool.eq_true_of_not_eq_false hs)).2.1 with ⟨st, hst⟩
    cases hst
  · rw [Function.update_self]
    exact hstart.1.trans ht

theorem allDone_dev {σ : Type} (t : Ctlr σ) (p : PktId) :
    (allDone t p).1.dev = t.dev ∧ (allDone t p).1.pkt = t.pkt := by
  cases p with
  | arq => exact ⟨rfl, rfl⟩
  | cmd g => exact ⟨rfl, rfl⟩

/-- When a packet is done the engine is idle, and stays so. -/
theorem fini_engine {func : FsmFunc} (h : EngineOk s) (hact : nextAction s.state func = .fini)
    (hclear : dmaStarted s.dev.bmicx = false) :
    EngineOk (fsm (hwDev c) func s).1 ∧
      dmaStarted (fsm (hwDev c) func s).1.dev.bmicx = false := by
  -- It is enough that neither the engine nor the flag of the ARQ packet is touched.
  suffices hs : dmaStarted (fsm (hwDev c) func s).1.dev.bmicx = false ∧
      ((fsm (hwDev c) func s).1.pkt .arq).pciideDma = false from
    ⟨EngineOk.of_clear hs.2 hs.1, hs.1⟩
  unfold fsm
  simp only [hact]
  cases ha : s.active with
  | none => exact ⟨hclear, h.arq⟩
  | some p =>
      cases p with
      | arq =>
          cases hf : s.fault with
          | none => exact ⟨hclear, h.arq⟩
          | some q =>
              dsimp only
              unfold finiArq
              dsimp only
              rw [(allDone_dev _ _).1, (allDone_dev _ _).2, setFlags_pciideDma]
              exact ⟨hclear, h.arq⟩
      | cmd g =>
          dsimp only
          unfold finiCmd
          split
          -- The drive has reported an error, and the ARQ packet is started.
          · have harq := startArq_engine (c := c)
              (s := { s with state := s.state }) (.cmd g) h.arq hclear
            dsimp only at harq ⊢
            split
            · rw [(allDone_dev _ _).1, (allDone_dev _ _).2]
              exact harq
            · exact harq
          · rw [(allDone_dev _ _).1, (allDone_dev _ _).2]
            exact ⟨hclear, h.arq⟩

/-- A bus reset, successful or not, leaves the engine idle. -/
theorem reset_engine {func : FsmFunc} (hok : CtlrOk s) (h : EngineOk s)
    (hact : nextAction s.state func = .resetA ∨ nextAction s.state func = .resetI) :
    EngineOk (fsm (hwDev c) func s).1 ∧
      dmaStarted (fsm (hwDev c) func s).1.dev.bmicx = false := by
  suffices hs : dmaStarted (fsm (hwDev c) func s).1.dev.bmicx = false ∧
      ((fsm (hwDev c) func s).1.pkt .arq).pciideDma = false from
    ⟨EngineOk.of_clear hs.2 hs.1, hs.1⟩
  rcases hact with hact | hact
  · unfold fsm
    simp only [hact]
    cases ha : s.active with
    | none => exact ⟨h.clear (fun g hg => by rw [ha] at hg; cases hg), h.arq⟩
    | some p =>
        dsimp only
        generalize hq : Ctlr.setFlags _ p _ = t
        have ht : ∀ q, (t.pkt q).pciideDma = (s.pkt q).pciideDma := by
          intro q
          rw [← hq, setFlags_pciideDma]
        have hdev : t.dev = s.dev := by
          rw [← hq]
          rfl
        rw [ht, hdev]
        have harq : (t.pkt .arq).pciideDma = false := (ht .arq).trans h.arq
        -- With DMA the engine is stopped, and without it is not running.
        by_cases hd : (s.pkt p).pciideDma = true
        · simp only [hd, if_true]
          split
          · exact ⟨dmaStarted_stop _, harq⟩
          · exact ⟨dmaStarted_stop _, harq⟩
        · have hclear := h.clear_of_pio ha (Bool.eq_false_of_not_eq_true hd)
          rw [← hdev] at hclear
          simp only [hd, Bool.false_eq_true, if_false]
          split
          · exact ⟨hclear, harq⟩
          · exact ⟨hclear, harq⟩
  · have hclear := h.clear fun g hg => by
      rw [hok.idle.1 (nextAction_resetI hact)] at hg
      cases hg
    unfold fsm
    simp only [hact]
    split
    · exact ⟨hclear, h.arq⟩
    · exact ⟨hclear, h.arq⟩

/-- The state machine keeps the invariant, and the engine is idle when it says
    that the packet is done. -/
theorem fsm_engine {func : FsmFunc} (hok : CtlrOk s) (h : EngineOk s)
    (hfini : func = .fini → dmaStarted s.dev.bmicx = false)
    (hpair : ∀ drvp g, nextAction s.state func = .start drvp g → Paired s (.hbaStart g)) :
    EngineOk (fsm (hwDev c) func s).1 ∧
      ((fsm (hwDev c) func s).2.1 = .fini →
        dmaStarted (fsm (hwDev c) func s).1.dev.bmicx = false) := by
  cases hact : nextAction s.state func with
  | fini =>
      have hs := fini_engine (c := c) h hact (hfini (nextAction_fini hact))
      exact ⟨hs.1, fun _ => hs.2⟩
  | resetA =>
      have hs := reset_engine (c := c) hok h (Or.inl hact)
      exact ⟨hs.1, fun _ => hs.2⟩
  | resetI =>
      have hs := reset_engine (c := c) hok h (Or.inr hact)
      exact ⟨hs.1, fun _ => hs.2⟩
  | nada =>
      unfold fsm
      simp only [hact]
      exact ⟨⟨h.arq, h.attended⟩, fun hn => nomatch hn⟩
  | busy =>
      unfold fsm
      simp only [hact]
      exact ⟨⟨h.arq, h.attended⟩, fun hn => nomatch hn⟩
  | intr =>
      unfold fsm
      simp only [hact]
      cases ha : s.active with
      | none =>
          have hclear := h.clear fun g hg => by
            rw [ha] at hg
            cases hg
          exact ⟨EngineOk.of_clear h.arq hclear, fun hn => nomatch hn⟩
      | some p =>
          have hcall := call_intr_engine (c := c)
            (s := { s with state := nextState s.state func }) ⟨h.arq, h.attended⟩ ha
          rw [ha] at hcall
          exact hcall
  | start drvp g =>
      have hclear := h.clear fun g hg => by
        rw [hok.idle.1 (nextAction_start hact).1] at hg
        cases hg
      have hcall := call_start_engine (c := c) (s := { s with
        state := nextState s.state func, active := some (.cmd g), activeDrv := some drvp }) g
        hclear (hpair drvp g hact)
      unfold fsm
      simp only [hact]
      split
      · next hrc =>
          refine ⟨EngineOk.of_clear (hcall.1.trans h.arq) ?_, fun hn => nomatch hn⟩
          -- A packet that has been refused has not started the engine.
          by_contra hn
          have hokay := (hcall.2 (Bool.eq_true_of_not_eq_false hn)).1
          exact absurd (hokay.symm.trans hrc) nofun
      · refine ⟨⟨hcall.1.trans h.arq, fun hn => ⟨g, rfl, (hcall.2 hn).2⟩⟩, fun hrc => ?_⟩
        by_contra hn
        have hokay := (hcall.2 (Bool.eq_true_of_not_eq_false hn)).1
        exact absurd (hokay.symm.trans hrc) nofun

/-! ## The runs -/

/-- What holds when `ata_ctlr_fsm` is called. -/
structure EngineAt (func : FsmFunc) (s : Ctlr Hw) : Prop where
  ok : CtlrOk s
  engine : EngineOk s
  fini : func = .fini → dmaStarted s.dev.bmicx = false
  paired : ∀ drvp g, nextAction s.state func = .start drvp g → Paired s (.hbaStart g)

theorem EngineAt.step {func : FsmFunc} (h : EngineAt func s) :
    EngineOk (fsm (hwDev c) func s).1 ∧
      ((fsm (hwDev c) func s).2.1 = .intr → EngineAt .intr (fsm (hwDev c) func s).1) ∧
        ((fsm (hwDev c) func s).2.1 = .fini → EngineAt .fini (fsm (hwDev c) func s).1) := by
  have hs := fsm_engine (c := c) h.ok h.engine h.fini h.paired
  have hok := fsm_ok (d := hwDev c) h.ok func
  refine ⟨hs.1, fun _ => ⟨hok, hs.1, (fun hn => nomatch hn), ?_⟩, fun hrc => ⟨hok, hs.1, ?_, ?_⟩⟩
  · intro drvp g hact
    rcases (nextAction_start hact).2 with hf | hf <;> cases hf
  · intro _
    exact hs.2 hrc
  · intro drvp g hact
    rcases (nextAction_start hact).2 with hf | hf <;> cases hf

/-- The first call of `ata_ctlr_fsm`. -/
theorem HwCall.engineAt {call : HwCall} {func : FsmFunc} (hok : CtlrOk s) (h : EngineOk s)
    (hp : Paired s call) (hf : call.func s = some func) : EngineAt func s := by
  cases call with
  | processIntr | resetBus =>
      cases hf
      refine ⟨hok, h, (fun hn => nomatch hn), fun drvp g hact => ?_⟩
      rcases (nextAction_start hact).2 with hf | hf <;> cases hf
  | hbaStart g =>
      rcases HwCall.hbaStart_func hf with ⟨drvp, hfunc⟩
      refine ⟨hok, h, fun hn => ?_, fun drvp' g' hact => ?_⟩
      · rw [hn] at hfunc
        rcases hfunc with hfunc | hfunc <;> cases hfunc
      · rcases (nextAction_start hact).2 with rfl | rfl <;> rcases hfunc with hfunc | hfunc <;>
          cases hfunc <;> exact hp

theorem hwStep_engine {s' : Ctlr Hw} (hok : CtlrOk s) (h : EngineOk s)
    (hstep : HwStep c Paired s s') : EngineOk s' := by
  cases hstep with
  | call call hp =>
      rcases call.run_spec c s with ⟨-, hrun⟩ | ⟨func, t, hf, hend, hrun⟩
      · rw [hrun]
        exact h
      -- The invariant of the calls of `ata_ctlr_fsm` carries it through the loop.
      · have ht : EngineOk t :=
          hend.invariant (HwCall.engineAt hok h hp hf) fun func s hs => hs.step
        rcases hrun with hrun | hrun
        · rw [hrun]
          exact ht
        · rw [hrun]
          exact ⟨ht.arq, ht.attended⟩
  | between pkt dev hb =>
      refine ⟨(hb.pciideDma .arq (Or.inr (Or.inr rfl))).trans h.arq, fun hs => ?_⟩
      rcases h.attended (hb.bmicx.symm.trans hs) with ⟨g, hg, hdma, harmed⟩
      refine ⟨g, hg, (hb.pciideDma _ (Or.inl hg)).trans hdma, ?_⟩
      dsimp only
      rw [hb.info g (Or.inl hg)]
      cases hf : (s.dev.info g).func with
      | queued =>
          rw [hf] at harmed
          exact harmed
      | disk st =>
          rw [hf] at harmed
          exact harmed
      | atapi =>
          rw [hf] at harmed
          unfold ApFunc.Armed Hw.view at harmed ⊢
          dsimp only at harmed ⊢
          -- The state of the drive is not changed between the calls.
          rw [hb.ad, hb.cur]
          exact harmed

theorem reachable_engineOk (h : Reachable (HwInit c) (HwStep c Paired) s) : EngineOk s :=
  h.invariant (fun _ h0 => EngineOk.of_clear h0.arq h0.bmicx) fun _ _ hr hI hstep =>
    hwStep_engine (reachable_hw_ctlrOk hr) hI hstep

/-- The calls that an interrupt or a reset leads to do not change the active packet,
    and a reset does not ask for an interrupt. -/
theorem fsm_reset_rc {σ : Type} (d : Dev σ) (s : Ctlr σ) : (fsm d .reset s).2.1 ≠ .intr := by
  unfold fsm
  cases s.state with
  | idle =>
      simp only [nextAction]
      split <;> simp
  | active0 | active1 =>
      simp only [nextAction]
      split
      · simp
      · split <;> split <;> simp

theorem fsm_intr_active {σ : Type} (d : Dev σ) (s : Ctlr σ) :
    (fsm d .intr s).1.active = s.active := by
  unfold fsm
  cases s.state with
  | idle => rfl
  | active0 | active1 =>
      simp only [nextAction]
      split <;> rfl

/-- If a packet that is done leads to an interrupt, that is for the ARQ packet. -/
theorem fsm_fini_active {σ : Type} {d : Dev σ} {s : Ctlr σ} (h : (fsm d .fini s).2.1 = .intr) :
    (fsm d .fini s).1.active = some .arq := by
  revert h
  unfold fsm
  cases s.state with
  | idle => simp [nextAction]
  | active0 | active1 =>
      simp only [nextAction]
      split
      · simp
      · simp
      · simp [finiArq]
      · unfold finiCmd
        split
        · dsimp only
          split
          · simp
          · exact fun _ => rfl
        · simp

/-- What holds in the course of a bus reset. Once the engine has been stopped, the
    only packet that may be started is the ARQ packet. -/
structure ResetAt (func : FsmFunc) (s : Ctlr Hw) : Prop extends EngineAt func s where
  after : func = .reset ∨ dmaStarted s.dev.bmicx = false ∧
    (func = .fini ∨ func = .intr ∧ s.active = some .arq)

theorem ResetAt.step {func : FsmFunc} (h : ResetAt func s) :
    dmaStarted (fsm (hwDev c) func s).1.dev.bmicx = false ∧
      ((fsm (hwDev c) func s).2.1 = .intr → ResetAt .intr (fsm (hwDev c) func s).1) ∧
        ((fsm (hwDev c) func s).2.1 = .fini → ResetAt .fini (fsm (hwDev c) func s).1) := by
  rcases h.toEngineAt.step (c := c) with ⟨heng, hintr, hfini⟩
  have hclear : dmaStarted (fsm (hwDev c) func s).1.dev.bmicx = false ∧
      ((fsm (hwDev c) func s).2.1 = .intr → (fsm (hwDev c) func s).1.active = some .arq) := by
    rcases h.after with rfl | ⟨hc, rfl | ⟨rfl, ha⟩⟩
    -- The first call is the reset, the ones after it finish the packet.
    · refine ⟨(reset_engine h.ok h.engine ?_).2, fun hrc => absurd hrc (fsm_reset_rc _ _)⟩
      cases s.state with
      | idle => exact Or.inr rfl
      | active0 | active1 => exact Or.inl rfl
    · refine ⟨?_, fsm_fini_active⟩
      by_cases hact : nextAction s.state .fini = .fini
      · exact (fini_engine h.engine hact hc).2
      · have hs : nextAction s.state .fini = .nada := by
          revert hact
          cases s.state <;> simp [nextAction]
        unfold fsm
        simp only [hs]
        exact hc
    -- The ARQ packet is active, which does not use the engine.
    · have ha' := (fsm_intr_active (hwDev c) s).trans ha
      refine ⟨heng.clear fun g hg => ?_, fun _ => ha'⟩
      rw [ha'] at hg
      cases hg
  refine ⟨hclear.1, fun hrc => ⟨hintr hrc, ?_⟩, fun hrc => ⟨hfini hrc, ?_⟩⟩
  · exact Or.inr ⟨hclear.1, Or.inr ⟨rfl, hclear.2 hrc⟩⟩
  · exact Or.inr ⟨hclear.1, Or.inl rfl⟩

/-- After a bus reset the engine is idle, whether the reset was successful or
    not. -/
theorem resetBus_engine (hok : CtlrOk s) (h : EngineOk s) :
    dmaStarted (HwCall.resetBus.run c s).dev.bmicx = false := by
  rcases HwCall.resetBus.run_spec c s with ⟨hn, -⟩ | ⟨func, t, hf, hend, hrun⟩
  · cases hn
  · have ht : dmaStarted t.dev.bmicx = false := by
      refine hend.invariant (P := ResetAt)
        (Q := fun t => dmaStarted t.dev.bmicx = false) ⟨HwCall.engineAt hok h ?_ hf, ?_⟩
        fun func s hs => hs.step
      · trivial
      · cases hf
        exact Or.inl rfl
    rcases hrun with hrun | hrun
    · rw [hrun]
      exact ht
    · rw [hrun]
      exact ht

/-- A packet is completed by the state machine only when it is done. -/
theorem fsm_completed {σ : Type} {d : Dev σ} {s : Ctlr σ} {func : FsmFunc} {g : Gcmd}
    (h : (fsm d func s).1.log = .completed g :: s.log) : nextAction s.state func = .fini := by
  -- Every other action leaves the log as it is, or notes a start.
  have hself : s.log ≠ .completed g :: s.log := (List.cons_ne_self _ _).symm
  unfold fsm at h
  dsimp only at h
  cases hact : nextAction s.state func with
  | fini => rfl
  | nada | busy =>
      rw [hact] at h
      exact absurd h hself
  | start drvp g' =>
      rw [hact] at h
      dsimp only at h
      split at h
      · exact absurd h hself
      · cases h
  | intr | resetI =>
      rw [hact] at h
      dsimp only at h
      split at h
      · exact absurd h hself
      · exact absurd h hself
  | resetA =>
      rw [hact] at h
      dsimp only at h
      split at h
      · exact absurd h hself
      · split at h <;> split at h <;> exact absurd h hself

/-- In every run in which the packets that are started with DMA have
    `ap_pciide_dma`, the engine runs only if the active packet has it. In the course
    of each of the calls, the engine is idle when a packet has been handed to
    `sol11ghd_complete`, and when the ARQ packet is about to be started. It is idle
    after every bus reset. -/
theorem bus_master_attended (h : Reachable (HwInit c) (HwStep c Paired) s) :
    (dmaStarted s.dev.bmicx = true →
        ∃ p, s.active = some p ∧ (s.pkt p).pciideDma = true) ∧
      (∀ call func₀, Paired s call → call.func s = some func₀ →
        ∀ func t, FsmCalls (hwDev c) func₀ s func t →
          (∀ g, (fsm (hwDev c) func t).1.log = .completed g :: t.log →
            dmaStarted (fsm (hwDev c) func t).1.dev.bmicx = false) ∧
          ∀ g, nextAction t.state func = .fini → t.active = some (.cmd g) →
            arqNeeded (t.pkt (.cmd g)) = true → dmaStarted t.dev.bmicx = false) ∧
      dmaStarted (HwCall.resetBus.run c s).dev.bmicx = false := by
  have hok := reachable_hw_ctlrOk h
  have heng := reachable_engineOk h
  refine ⟨fun hs => ?_, fun call func₀ hp hf func t hcalls => ?_, resetBus_engine hok heng⟩
  · rcases heng.attended hs with ⟨g, hg, hdma, -⟩
    exact ⟨.cmd g, hg, hdma⟩
  · have hat : EngineAt func t :=
      hcalls.invariant (HwCall.engineAt hok heng hp hf) fun func s hs => hs.step.2
    refine ⟨fun g hlog => ?_, fun g hact _ _ => hat.fini (nextAction_fini hact)⟩
    have hact := fsm_completed hlog
    exact (fini_engine hat.engine hact (hat.fini (nextAction_fini hact))).2

end Engine

/-! ## A packet without a list -/

/-- `ap_intr` goes with `ap_start`. -/
def DiskPkt.FuncsOk (q : DiskPkt) : Prop := q.intr = q.start.intr

theorem setupSg_funcs (k : AtaDisk) (n : Nat) (h : k.pkt.FuncsOk) :
    (setupSg k n).1.pkt.FuncsOk := by
  unfold setupSg
  dsimp only
  split
  · split
    · exact h
    · split <;> exact h
  · exact h

theorem setRead_funcs (cmd : AtaCmd) (q : DiskPkt) : (q.setRead cmd).FuncsOk := by
  unfold DiskPkt.setRead
  dsimp only
  split <;> rfl

theorem setWrite_funcs (cmd : AtaCmd) (q : DiskPkt) : (q.setWrite cmd).FuncsOk := by
  unfold DiskPkt.setWrite
  dsimp only
  split <;> rfl

theorem setExt_funcs (drv : DiskDrv) {q : DiskPkt} (h : q.FuncsOk) : (q.setExt drv).FuncsOk := by
  unfold DiskPkt.setExt
  split
  · exact h
  · exact h

/-- `ata_disk_iosetup` sets the two functions of a packet together, if it does. -/
theorem diskIosetup_funcs (drv : DiskDrv) {k : AtaDisk} (p : Cmpkt) (h : k.pkt.FuncsOk) :
    (diskIosetup drv k p).1.pkt.FuncsOk := by
  have hcmd : ∀ {k : AtaDisk} (n : Nat), k.pkt.FuncsOk → (setupCmd drv k p n).1.pkt.FuncsOk := by
    intro k n hk
    unfold setupCmd
    dsimp only
    split
    · refine setExt_funcs drv ?_
      split
      · exact setWrite_funcs _ _
      · exact setRead_funcs _ _
    · split
      · exact setExt_funcs drv (setRead_funcs _ _)
      · exact setExt_funcs drv (setWrite_funcs _ _)
      · exact hk
  have hrestore : k.pkt.restore.FuncsOk := by
    unfold DiskPkt.restore
    dsimp only
    split <;> exact h
  unfold diskIosetup
  split
  · exact h
  · split
    · exact h
    · have hsg : (setupSg { k with pkt := (if k.pkt.flags.error then (k.pkt.restore, 1)
          else (k.pkt.save, secCount drv p)).1 } (if k.pkt.flags.error then (k.pkt.restore, 1)
          else (k.pkt.save, secCount drv p)).2).1.pkt.FuncsOk := by
        refine setupSg_funcs _ _ ?_
        split
        · exact hrestore
        · exact h
      dsimp only
      split
      · exact hsg
      · exact hcmd _ hsg

/-- The first 512 KB of a pass-through read of 516 KB, bound for DMA: physio does
    not pass on more at once. -/
def longRead : Io AtaDisk where
  ctl := {
    pkt := freshPkt
    dma := {
      handle := some ⟨0, [[⟨0, 0x10000⟩, ⟨0x10000, 0x10000⟩],
        [⟨0x20000, 0x10000⟩, ⟨0x30000, 0x10000⟩], [⟨0x40000, 0x10000⟩, ⟨0x50000, 0x10000⟩],
        [⟨0x60000, 0x10000⟩, ⟨0x70000, 0x10000⟩]], [⟨0x10000, 0x10000⟩]⟩
      wcount := 4
      ccount := 2
      firstCookie := ⟨0, 0x10000⟩
      useFirst := true } }
  pkt := { passthru := some { write := false, blkaddr := 0, buflen := 0x81000 } }
  bp := { twoBuf with bcount := 0x80000 }

/-- A controller that takes every packet. -/
def lba28Ctl : Ctl AtaDisk := diskCtl lba28Disk fun k _ => (k, true)

/-- The request after some commands, all of which succeed, and where it is. -/
def longReadAfter : Nat → Io AtaDisk × Phase
  | 0 => ((ioprep lba28Ctl plainDisk longRead).1, .ready)
  | n + 1 => Disk.iodone lba28Ctl plainDisk (longReadAfter n).1

/-- The four windows have been read. The packet that dadk sends next has no list,
    and the functions of the command before. -/
theorem longReadAfter_four : (longReadAfter 4).2 = .sent ∧
    (longReadAfter 4).1.ctl.pkt.start = .dmaIn ∧ (longReadAfter 4).1.ctl.pkt.pciideDma = false :=
  ⟨by decide +kernel, by decide +kernel, by decide +kernel⟩

/-- A single disk. -/
def oneDisk : HwConfig where
  kind := fun d => if d = .drive0 0 then some .disk else none
  busyWait := false

/-- A controller with a single disk, and a packet of this disk. -/
def oneDiskCtlr (q : DiskPkt) : Ctlr Hw where
  state := .idle
  active := none
  activeDrv := none
  fault := none
  pkt := fun p => if p = .cmd 0 then ⟨q.flags, false, q.pciideDma⟩ else ⟨{}, false, false⟩
  dev := {
    ad := fun _ => {}
    cur := .drive0 0
    bmicx := 0
    info := fun _ => ⟨.drive0 0, .disk q.start⟩
    xfer := fun _ => {}
    regs := fun _ => {} }
  log := []

theorem oneDiskCtlr_init (q : DiskPkt) : HwInit oneDisk (oneDiskCtlr q) where
  state := rfl
  active := rfl
  activeDrv := rfl
  fault := rfl
  log := rfl
  adState := fun _ _ => rfl
  bmicx := by
    show dmaStarted 0 = false
    decide
  arq := rfl

/-- What is left when this packet has been started. -/
def oneDiskRun (q : DiskPkt) : Ctlr Hw := HwCall.run oneDisk (oneDiskCtlr q) (.hbaStart 0)

theorem oneDiskRun_reachable (q : DiskPkt) {ok : Ctlr Hw → HwCall → Prop}
    (h : ok (oneDiskCtlr q) (.hbaStart 0)) :
    Reachable (HwInit oneDisk) (HwStep oneDisk ok) (oneDiskRun q) :=
  (Reachable.initial (oneDiskCtlr_init q)).tail (.call _ _ h)

/-- The first command of the read, and a bus reset while it is active. -/
theorem bus_master_attended_read :
    dmaStarted (oneDiskRun (longReadAfter 0).1.ctl.pkt).dev.bmicx = true ∧
      (∃ p, (oneDiskRun (longReadAfter 0).1.ctl.pkt).active = some p) ∧
      dmaStarted (HwCall.resetBus.run oneDisk
        (oneDiskRun (longReadAfter 0).1.ctl.pkt)).dev.bmicx = false := by
  have h := bus_master_attended (c := oneDisk)
    (oneDiskRun_reachable (longReadAfter 0).1.ctl.pkt fun _ _ _ => by decide +kernel)
  have hs : dmaStarted (oneDiskRun (longReadAfter 0).1.ctl.pkt).dev.bmicx = true := by
    decide +kernel
  rcases h.1 hs with ⟨p, hp, -⟩
  exact ⟨hs, ⟨p, hp⟩, h.2.2⟩

/-- dadk sends the packet without a list. When it is started the engine runs for a
    packet without `ap_pciide_dma`. -/
theorem bus_master_unattended : (longReadAfter 4).2 = .sent ∧
    ¬ ∀ (c : HwConfig) (s : Ctlr Hw), Reachable (HwInit c) (HwStep c fun _ _ => True) s →
      dmaStarted s.dev.bmicx = true →
        ∃ p, s.active = some p ∧ (s.pkt p).pciideDma = true := by
  refine ⟨longReadAfter_four.1, fun h => ?_⟩
  have hs : dmaStarted (oneDiskRun (longReadAfter 4).1.ctl.pkt).dev.bmicx = true := by
    decide +kernel
  have hactive : (oneDiskRun (longReadAfter 4).1.ctl.pkt).active = some (.cmd 0) := by
    decide +kernel
  have hpio : ((oneDiskRun (longReadAfter 4).1.ctl.pkt).pkt (.cmd 0)).pciideDma = false := by
    decide +kernel
  rcases h oneDisk _ (oneDiskRun_reachable (longReadAfter 4).1.ctl.pkt trivial) hs with ⟨p, hp, hd⟩
  rw [hactive] at hp
  rw [← Option.some.inj hp, hpio] at hd
  cases hd

end Ata

end Sil3112
