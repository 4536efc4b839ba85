import Sil3112.Ata.Hardware
import Sil3112.Ghd.NoStrand
import Sil3112.Ghd.Timer

/-!
# The Controller as an HBA Driver

An HBA instance whose HBA driver is the controller. The functions of an HBA driver
are left open in `Ghd`: there one completes any active request it likes, may hold
or freeze the wait queue, and may refuse a request it has not completed. Here they
are `ata_hba_start`, `ata_get_status` with `ata_process_intr`, and
`ata_timeout_func`.

A call of one of them works on the controller at once, for the HBA mutex keeps
every other call away. Its calls of `sol11ghd_complete` follow one by one, and the
steps of these interleave with those of the other threads. A call may complete
whatever it likes, and the thread goes into `sol11ghd_complete` with it: that the
request is one that the HBA has been handed is not a condition of the step.

## Main definitions

* `AtaSys`, `AtaCtl`: An HBA instance with its controller, and its threads.
* `hbaCall`, `Returns`: What a call of the HBA driver does, and how it returns.
* `AtaLocal`: What a thread can do.
* `pending`, `CallOk`: What a call has come to.

## Theorems

* `loopEnd_quits`, `loopEnd_started`: What a loop of the controller adds to its
  history.
* `hbaCall_spec`: What a call does to the requests of the controller.
* `hbaCall_ok`: What a call answers.
-/

namespace Sil3112

namespace Ata

open Ghd Transition

/-! ## The system -/

instance (x : GAction) : Decidable x.Early := by
  unfold GAction.Early
  infer_instance

/-- The command that a call of `sol11ghd_complete` is for. -/
def CtlrEvent.completion : CtlrEvent → Option Gcmd
  | .started _ => none
  | .completed g => some g

/-- The commands that have been completed since the history was `old`, in order. -/
def completions (old new : List CtlrEvent) : List Gcmd :=
  (new.take (new.length - old.length)).reverse.filterMap CtlrEvent.completion

section System

variable {σ : Type} (d : Dev σ)

/-- `ata_reset_bus` as `ata_timeout_func` uses it. -/
def resetAnswer (s : Ctlr σ) : Ctlr σ × HbaAnswer :=
  let r := resetBus d s
  (r.1, ⟨completions s.log r.1.log, 0, false, r.2⟩)

/-- A call of `ata_hba_start`, `ata_process_intr` or `ata_timeout_func`: what it does to
    the controller, and what it answers. -/
def hbaCall (drvOf : Gcmd → AtaDrv) (s : Ctlr σ) : HbaCall → Ctlr σ × HbaAnswer
  | .start _ _ g _ =>
    let r := hbaStart d (drvOf g) g s
    (r.1, ⟨completions s.log r.1.log, 0, false, r.2⟩)
  | .status _ =>
    let s' := processIntr d s
    (s', ⟨completions s.log s'.log, 0, false, true⟩)
  | .timeout _ g dev x _ => ataTimeoutFunc (resetAnswer d) s g dev x

/-- The call has completed a request. Whether it is the one the call is for matters to
    a start, and to the early actions, which complete no other. -/
def sees : HbaCall → Gcmd → HbaCall
  | .timeout k g' dev x done, _ => .timeout k g' dev x (done || decide x.Early)
  | c, g => c.completed g

/-- How a call of the HBA driver returns to its caller. -/
inductive Returns : HbaCall → Bool → Act → Ctl → Prop where
  | started (k : Caller) (rc : Bool) (g : Gcmd) (done : Bool) :
      Returns (.start k rc g done) true .accept (.hold k true)
  | refused (k : Caller) (rc : Bool) (g : Gcmd) (done : Bool) :
      Returns (.start k rc g done) false (.reject g) (.holdRet k rc)
  | intr (more rc : Bool) : Returns (.status (.intr more)) rc .skip (.intr true)
  | poll (p : Poll) (rc : Bool) : Returns (.status (.poll p)) rc .skip (.pollWaitq p)
  | taken (k : Caller) (g : Option Gcmd) (dev : GdevId) (x : GAction) (done : Bool) :
      Returns (.timeout k g dev x done) true .skip (.scan k g dev x)
  | failed (k : Caller) (g : Option Gcmd) (dev : GdevId) (x : GAction) (done : Bool)
      (hx : x ≠ .incomplete) :
      Returns (.timeout k g dev x done) false (.retract g x) (.newstate k g dev x.nextAction)
  | gaveUp (k : Caller) (g : Option Gcmd) (dev : GdevId) (done : Bool) :
      Returns (.timeout k g dev .incomplete done) false .skip (.newstateRet k)

/-- An HBA instance with its controller. -/
structure AtaCcc (σ : Type) where
  ccc : Ccc
  ctlr : Ctlr σ

/-- Where a thread is, and what is left of its call of the HBA driver. -/
structure AtaCtl where
  ctl : Ctl
  left : Option HbaAnswer

/-- What a thread can do. -/
inductive AtaLocal (gdevOf : Gcmd → GdevId) (drvOf : Gcmd → AtaDrv) (t : Tid) :
    AtaCcc σ → AtaCtl → AtaCcc σ → AtaCtl → Prop where
  -- Outside the HBA driver, and in `sol11ghd_complete`. `ata_get_status` has nothing to
  -- report while the controller is idle.
  | ghd {a a' : Ccc} {s : Ctlr σ} {c c' : Ctl} {x : Act} {l : Option HbaAnswer}
      (hout : ∀ k, c ≠ .hba k)
      (hstatus : ∀ k, l = none → c' = .hba (.status k) → s.state ≠ .idle)
      (hx : Local gdevOf a c x c') (hr : x.run gdevOf t a = some a') :
      AtaLocal gdevOf drvOf t ⟨a, s⟩ ⟨c, l⟩ ⟨a', s⟩ ⟨c', l⟩
  -- The call itself.
  | call (a : Ccc) (s : Ctlr σ) (k : HbaCall) :
      AtaLocal gdevOf drvOf t ⟨a, s⟩ ⟨.hba k, none⟩
        ⟨a, (hbaCall d drvOf s k).1⟩ ⟨.hba k, some (hbaCall d drvOf s k).2⟩
  -- Its next call of `sol11ghd_complete`.
  | complete (a : Ccc) (s : Ctlr σ) (k : HbaCall) (g : Gcmd) (l : List Gcmd) (n : Nat)
      (f rc : Bool) :
      AtaLocal gdevOf drvOf t ⟨a, s⟩ ⟨.hba k, some ⟨g :: l, n, f, rc⟩⟩
        ⟨a, s⟩ ⟨.del (sees k g) g, some ⟨l, n, f, rc⟩⟩
  | ret {a a' : Ccc} {s : Ctlr σ} {k : HbaCall} {n : Nat} {f rc : Bool} {x : Act} {c' : Ctl}
      (hx : Returns k rc x c') (hr : x.run gdevOf t a = some a') :
      AtaLocal gdevOf drvOf t ⟨a, s⟩ ⟨.hba k, some ⟨[], n, f, rc⟩⟩ ⟨a', s⟩ ⟨c', none⟩
  -- The packets and the drives change in between.
  | between (a : Ccc) (s : Ctlr σ) (c : AtaCtl) (pkt : PktId → AtaPkt) (dev : σ) :
      AtaLocal gdevOf drvOf t ⟨a, s⟩ c ⟨a, { s with pkt := pkt, dev := dev }⟩ c

/-- The instance, its controller, and the threads in it. -/
abbrev AtaSys (σ : Type) := Sys Tid (AtaCcc σ) AtaCtl

/-- One step of one thread. -/
abbrev AtaStep (gdevOf : Gcmd → GdevId) (drvOf : Gcmd → AtaDrv) : AtaSys σ → AtaSys σ → Prop :=
  Sys.Step (AtaLocal d gdevOf drvOf)

/-- The system as GHD sees it. -/
def ghdOf (s : AtaSys σ) : GhdSys :=
  ⟨s.shared.ccc, fun t => (s.thr t).ctl⟩

/-- The HBA and each device may have one request at a time, and the wait queue is neither
    held nor frozen. -/
structure OneAtATime (w : Waitq) : Prop where
  hba : w.hba.maxactive = 1
  dev : ∀ i, (w.dev i).waitq.maxactive = 1
  held : w.held = false
  frozen : w.frozen = false

/-- An instance just set up by `ata_init_controller`. The throttles are those that this
    function and `sol11ghd_target_init` set. -/
structure AtaInit (s : AtaSys σ) : Prop where
  ghd : GhdInit (ghdOf s)
  left : ∀ t, (s.thr t).left = none
  waitq : OneAtATime s.shared.ccc.waitq
  ctlr : CtlrInit s.shared.ctlr

end System

/-! ## What a call does to the controller -/

/-- The history has grown by completions only. -/
def Quits (log log' : List CtlrEvent) : Prop :=
  ∃ gs : List Gcmd, log' = gs.map .completed ++ log

section Calls

variable {σ : Type} {d : Dev σ} {s t : Ctlr σ} {log log' log'' : List CtlrEvent} {g : Gcmd}

theorem Quits.refl (log : List CtlrEvent) : Quits log log := ⟨[], rfl⟩

theorem Quits.trans (h : Quits log log') (h' : Quits log' log'') : Quits log log'' := by
  rcases h with ⟨gs, rfl⟩
  rcases h' with ⟨gs', rfl⟩
  refine ⟨gs' ++ gs, ?_⟩
  rw [List.map_append, List.append_assoc]

/-- There is at most one, that of the command that was held. -/
theorem Quits.spec (h : Quits log log') (ha : Alternates log') :
    log' = log ∨ ∃ g, Held log = some g ∧ log' = .completed g :: log := by
  rcases h with ⟨gs, rfl⟩
  match gs with
  | [] => exact Or.inl rfl
  | [g] => exact Or.inr ⟨g, ha.1, rfl⟩
  | g :: g' :: gs =>
    -- After a completion no command is held, so none is completed again.
    have hheld : (none : Option Gcmd) = some g := ha.1
    cases hheld

theorem completions_append (log es : List CtlrEvent) :
    completions log (es ++ log) = es.reverse.filterMap CtlrEvent.completion := by
  unfold completions
  rw [List.length_append, Nat.add_sub_cancel, List.take_left]

theorem completions_self (log : List CtlrEvent) : completions log log = [] :=
  completions_append log []

theorem completions_completed (log : List CtlrEvent) (g : Gcmd) :
    completions log (.completed g :: log) = [g] :=
  completions_append log [.completed g]

/-- A function of the state machine that starts no packet. -/
def FsmFunc.NoStart : FsmFunc → Prop
  | .start0 _ _ => False
  | .start1 _ _ => False
  | _ => True

theorem allDone_quits (t : Ctlr σ) (p : PktId) : Quits t.log (allDone t p).1.log := by
  cases p with
  | arq => exact Quits.refl _
  | cmd g => exact ⟨[g], rfl⟩

/-- Such a function adds completions only. -/
theorem fsm_quits {func : FsmFunc} (hf : func.NoStart) (s : Ctlr σ) :
    Quits s.log (fsm d func s).1.log := by
  unfold fsm
  dsimp only
  cases hact : nextAction s.state func with
  | nada | busy => exact Quits.refl _
  | start drvp g =>
      rcases (nextAction_start hact).2 with h | h <;>
      · rw [h] at hf
        exact hf.elim
  | intr | resetI =>
      dsimp only
      split <;> exact Quits.refl _
  | resetA =>
      dsimp only
      split
      · exact Quits.refl _
      · split <;> split <;> exact Quits.refl _
  | fini =>
      dsimp only
      split
      · exact Quits.refl _
      · exact Quits.refl _
      · exact allDone_quits _ _
      · unfold finiCmd
        split
        · dsimp only
          split
          · exact allDone_quits _ _
          · exact Quits.refl _
        · exact allDone_quits _ _

/-- So does a loop that begins with one. -/
theorem loopEnd_quits {func : FsmFunc} (h : LoopEnd d func s t) (hf : func.NoStart) :
    Quits s.log t.log := by
  refine h.invariant (P := fun func u => func.NoStart ∧ Quits s.log u.log)
    (Q := fun u => Quits s.log u.log) ⟨hf, Quits.refl _⟩ ?_
  rintro func u ⟨hn, hq⟩
  have hq' := hq.trans (fsm_quits (d := d) hn u)
  exact ⟨hq', fun _ => ⟨trivial, hq'⟩, fun _ => ⟨trivial, hq'⟩⟩

theorem processIntr_quits (s : Ctlr σ) : Quits s.log (processIntr d s).log :=
  loopEnd_quits (processIntrLoop_end (watchdog - 1) .first) trivial

theorem resetBus_quits (s : Ctlr σ) : Quits s.log (resetBus d s).1.log := by
  have h : Quits s.log (resetBusLoop d watchdog .reset false false s).1.log :=
    loopEnd_quits (resetBusLoop_end (watchdog - 1) false false .first) trivial
  unfold resetBus
  dsimp only
  split
  · exact h
  · exact h

/-- A loop that starts a packet on an idle controller is refused, or adds the start and
    then completions only. -/
theorem loopEnd_started {func : FsmFunc} {drvp : AtaDrv} (hs : s.state = .idle)
    (hact : nextAction .idle func = .start drvp g) (h : LoopEnd d func s t) :
    t.log = s.log ∨ Quits (.started g :: s.log) t.log := by
  refine h.invariant (P := fun func' u => (func' = func ∧ u = s) ∨
    (func'.NoStart ∧ Quits (.started g :: s.log) u.log))
    (Q := fun u => u.log = s.log ∨ Quits (.started g :: s.log) u.log) (Or.inl ⟨rfl, rfl⟩) ?_
  rintro func' u (⟨rfl, rfl⟩ | ⟨hn, hq⟩)
  · rcases fsm_start_spec (d := d) hs hact with ⟨hrc, _, hlog⟩ | ⟨_, hlog⟩
    · refine ⟨Or.inl hlog, fun hi => ?_, fun hi => ?_⟩
      · exact nomatch hrc.symm.trans hi
      · exact nomatch hrc.symm.trans hi
    · have hq : Quits (.started g :: u.log) (fsm d func' u).1.log := by
        rw [hlog]
        exact Quits.refl _
      exact ⟨Or.inr hq, fun _ => Or.inr ⟨trivial, hq⟩, fun _ => Or.inr ⟨trivial, hq⟩⟩
  · have hq' := hq.trans (fsm_quits (d := d) hn u)
    exact ⟨Or.inr hq', fun _ => Or.inr ⟨trivial, hq'⟩, fun _ => Or.inr ⟨trivial, hq'⟩⟩

/-- What the controller had is completed, or it still has it. -/
theorem Quits.held (h : Quits log log') (ha : Alternates log') :
    completions log log' ++ (Held log').toList = (Held log).toList := by
  rcases h.spec ha with rfl | ⟨g, hg, rfl⟩
  · rw [completions_self]
    rfl
  · rw [completions_completed, hg]
    rfl

/-- So it is with what has been started. -/
theorem Quits.held_started (h : Quits (.started g :: log) log') (ha : Alternates log') :
    completions log log' ++ (Held log').toList = [g] := by
  rcases h.spec ha with rfl | ⟨g', hg, rfl⟩
  · rw [show completions log (.started g :: log) = [] from completions_append log [.started g]]
    rfl
  · have heq : g = g' := Option.some.inj hg
    rw [← heq, show completions log (.completed g :: .started g :: log) = [g] from
      completions_append log [.completed g, .started g]]
    rfl

end Calls

/-! ## The requests of a call -/

/-- The call is for one of the actions on a request that has not been started. -/
def early : HbaCall → Bool
  | .timeout _ _ _ x _ => decide x.Early
  | _ => false

/-- The request that the HBA driver is handed with the call. -/
def handed : HbaCall → List Gcmd
  | .start _ _ g _ => [g]
  | _ => []

/-- The active requests that the controller does not have any more, or not yet: those the
    call is about to complete, and the one it refuses. An early action completes a
    request that is not active. -/
def pending (k : HbaCall) (l : HbaAnswer) : List Gcmd :=
  if early k then [] else l.completes ++ if l.taken then [] else handed k

/-- What a call has come to: a request is refused before any is completed, and an early
    action completes its request, once. -/
def CallOk : HbaCall → Option HbaAnswer → Prop
  | .start _ _ _ done, none => done = false
  | .start _ _ _ done, some l => l.taken = false → done = false ∧ l.completes = []
  | .status _, _ => True
  | .timeout _ _ _ x done, none => x.Early → done = false
  | .timeout _ g _ x done, some l => x.Early →
    (done = false ∧ ∃ y, g = some y ∧ l.completes = [y]) ∨ (done = true ∧ l.completes = [])

section Spec

variable {σ : Type} (d : Dev σ) (drvOf : Gcmd → AtaDrv) {s : Ctlr σ} {c : Caller}
  {g : Option Gcmd} {dev : GdevId} {x : GAction} {done : Bool}

theorem hbaCall_early (hx : x.Early) :
    hbaCall d drvOf s (.timeout c g dev x done) = (s, ⟨g.toList, 0, false, true⟩) := by
  rcases hx with rfl | rfl <;> rfl

/-- The other actions do nothing, but for a reset. -/
theorem hbaCall_other (hx : ¬ x.Early) :
    hbaCall d drvOf s (.timeout c g dev x done) = (s, ⟨[], 0, false, false⟩) ∨
      hbaCall d drvOf s (.timeout c g dev x done) = resetAnswer d s := by
  cases x with
  | earlyTimeout => exact absurd (Or.inl rfl) hx
  | earlyAbort => exact absurd (Or.inr rfl) hx
  | resetBus =>
      cases g with
      | none => exact Or.inl rfl
      | some g => exact Or.inr rfl
  | _ => exact Or.inl rfl

/-- What the call does to the controller is a step of the controller, or nothing. -/
theorem hbaCall_step (k : HbaCall) :
    (hbaCall d drvOf s k).1 = s ∨ CtlrStep d s (hbaCall d drvOf s k).1 := by
  cases k with
  | start k rc g done => exact Or.inr (.hbaStart _ _ _)
  | status k => exact Or.inr (.processIntr _)
  | timeout k g dev x done =>
      by_cases hx : x.Early
      · rw [hbaCall_early d drvOf hx]
        exact Or.inl rfl
      · rcases hbaCall_other d drvOf hx with h | h
        · rw [h]
          exact Or.inl rfl
        · rw [h]
          exact Or.inr (.resetBus _)

theorem hbaCall_ctlrOk (h : CtlrOk s) (k : HbaCall) : CtlrOk (hbaCall d drvOf s k).1 := by
  rcases hbaCall_step d drvOf (s := s) k with heq | hst
  · rw [heq]
    exact h
  · exact ctlrStep_ok h hst

/-- A start is refused, and the controller has what it had, or it takes the request and
    had none before. -/
theorem hbaStart_answer (h : CtlrOk s) (drvp : AtaDrv) (g : Gcmd) :
    ((hbaStart d drvp g s).2 = false ∧ (hbaStart d drvp g s).1.log = s.log) ∨
      ((hbaStart d drvp g s).2 = true ∧ s.active = none ∧
        Quits (.started g :: s.log) (hbaStart d drvp g s).1.log) := by
  rcases hbaStart_spec (d := d) h drvp g with ⟨hrc, _, heq⟩ | ⟨hrc, _, hlog⟩ | ⟨hrc, hnone, hext⟩
  · exact Or.inl ⟨hrc, by rw [heq]⟩
  · exact Or.inl ⟨hrc, hlog⟩
  · refine Or.inr ⟨hrc, hnone, ?_⟩
    have hidle : s.state = .idle := h.idle.2 hnone
    have hend : (hbaStart d drvp g s).1.log = s.log ∨
        Quits (.started g :: s.log) (hbaStart d drvp g s).1.log := by
      unfold hbaStart
      rw [h.drv.1 hnone, hnone]
      simp only [Option.isSome_none, Bool.false_eq_true, if_false]
      have hact : nextAction .idle
          (if drvp.targ = 0 then FsmFunc.start0 drvp g else .start1 drvp g) = .start drvp g := by
        split <;> rfl
      exact loopEnd_started hidle hact (hbaStartLoop_end (watchdog - 1) false .first)
    refine hend.resolve_left fun hsame => ?_
    -- The start is in the history.
    rcases hext with ⟨es, hes⟩
    have hlen := congrArg List.length (hes.symm.trans hsame)
    rw [List.length_append, List.length_cons] at hlen
    omega

/-- A call takes no request away and makes none up: what it is handed and what the
    controller had are what is pending after it and what the controller has. -/
theorem hbaCall_spec (h : CtlrOk s) (k : HbaCall) :
    pending k (hbaCall d drvOf s k).2 ++ (hbaCall d drvOf s k).1.holder.toList =
      handed k ++ s.holder.toList := by
  have h' := hbaCall_ctlrOk d drvOf h k
  rw [← h.held, ← h'.held]
  cases k with
  | start k rc g done =>
      unfold hbaCall at h' ⊢
      dsimp only at h' ⊢
      unfold pending
      rw [if_neg (by exact Bool.false_ne_true)]
      rcases hbaStart_answer d h (drvOf g) g with ⟨hrc, hlog⟩ | ⟨hrc, hnone, hq⟩
      · rw [hrc, hlog, completions_self]
        rfl
      · have hheld : Held s.log = none := by
          rw [h.held]
          unfold Ctlr.holder
          rw [hnone]
        rw [hrc, if_pos rfl, List.append_nil, hq.held_started h'.alternates, hheld]
        rfl
  | status k =>
      unfold hbaCall at h' ⊢
      dsimp only at h' ⊢
      unfold pending
      rw [if_neg (by exact Bool.false_ne_true), if_pos rfl, List.append_nil]
      exact (processIntr_quits s).held h'.alternates
  | timeout k g dev x done =>
      unfold pending
      by_cases hx : x.Early
      · rw [if_pos (show early (.timeout k g dev x done) = true from decide_eq_true hx),
          hbaCall_early d drvOf hx]
        rfl
      · have hlate : early (.timeout k g dev x done) = false := decide_eq_false hx
        rw [hlate, if_neg Bool.false_ne_true]
        rcases hbaCall_other d drvOf (s := s) hx with heq | heq
        · rw [heq]
          rfl
        · rw [heq] at h' ⊢
          have hheld := (resetBus_quits s).held h'.alternates
          unfold resetAnswer handed
          rw [ite_self, List.append_nil]
          exact hheld

/-- What the call comes to. GHD passes a request to the early actions. -/
theorem hbaCall_ok (h : CtlrOk s) {k : HbaCall} (hk : CallOk k none)
    (hg : ∀ c dev x done, k = .timeout c none dev x done → ¬ x.Early) :
    CallOk k (some (hbaCall d drvOf s k).2) := by
  cases k with
  | start k rc g done =>
      intro hrc
      refine ⟨hk, ?_⟩
      unfold hbaCall at hrc ⊢
      rcases hbaStart_answer d h (drvOf g) g with ⟨_, hlog⟩ | ⟨htrue, _, _⟩
      · dsimp only
        rw [hlog, completions_self]
      · exact nomatch htrue.symm.trans hrc
  | status k => trivial
  | timeout k g dev x done =>
      intro hx
      refine Or.inl ⟨hk hx, ?_⟩
      cases g with
      | none => exact absurd hx (hg k dev x done rfl)
      | some y =>
          refine ⟨y, rfl, ?_⟩
          rw [hbaCall_early d drvOf hx]
          rfl

end Spec

end Ata

end Sil3112
