import Sil3112.Ata.Instance

/-!
# The Controller under GHD

What `Ghd` assumes of an HBA driver holds of the controller, so that every run of
an instance with its controller is a run of GHD. The active requests of the
instance are the one that the controller has, and those in the hands of the thread
that is in the HBA driver: the one it has not shown to the controller yet, the one
that the controller has refused, and those it is about to complete.

The throttle of the HBA is one. So a start always finds the controller without a
packet, and what keeps two requests apart is GHD, not the checks that
`ata_hba_start` begins with.

## Main definitions

* `AtaCtl.outside`: The active requests that the controller does not have.
* `AtaInv`: The invariant.
* `UnderGhd`: What GHD and the controller have in common.

## Theorems

* `ataStep_ghd`: A step of the system is one of GHD, or does not concern it.
* `AtaInv.step`: Every step keeps the invariant.
* `ata_under_ghd`: GHD and the controller agree about the requests in every state.
-/

namespace Sil3112

namespace Ata

open Ghd Transition

/-! ## The steps of GHD -/

/-- The active requests after a step. -/
def activeAfter : Act → List Gcmd → List Gcmd
  | .take g, l => g :: l
  | .reject g, l => l.erase g
  | .delete g, l => l.erase g
  | _, l => l

/-- A step that neither holds nor freezes the wait queue. -/
def KeepsFlags : Act → Prop
  | .queueHold _ => False
  | .freeze => False
  | _ => True

/-- The call of the HBA driver that a control point is in. -/
def callOf : Ctl → Option HbaCall
  | .hba k => some k
  | .del k _ => some k
  | .delShuffle k _ => some k
  | .stop k _ => some k
  | .put k _ => some k
  | _ => none

section GhdSteps

variable {gdevOf : Gcmd → GdevId} {a a' : Ccc} {t : Tid} {c c' : Ctl} {x : Act}

theorem run_active (hr : x.run gdevOf t a = some a') : a'.active = activeAfter x a.active := by
  cases x with
  | skip | unlockHba | unlockWaitq | stop | doneqPut | pollmodeEnter | pollmodeClear | trigger
  | process | callback | timerStop | mark =>
      cases hr
      rfl
  | newstate g y | retract g y =>
      cases hr
      cases g <;> rfl
  | call g =>
      rcases Act.run_call.1 hr with ⟨_, rfl⟩
      rfl
  | lockHba =>
      rcases Ccc.lockHba_eq_some.1 hr with ⟨_, rfl⟩
      rfl
  | lockHbaSoft =>
      rcases Act.run_lockHbaSoft.1 hr with ⟨_, rfl⟩
      rfl
  | lockWaitq =>
      rcases Ccc.lockWaitq_eq_some.1 hr with ⟨_, rfl⟩
      rfl
  | link g polled =>
      rcases Act.run_link.1 hr with ⟨_, rfl⟩
      rfl
  | promote d =>
      rcases Act.run_promote.1 hr with ⟨w, _, rfl⟩
      rfl
  | take g =>
      rcases Act.run_take.1 hr with ⟨w, _, rfl⟩
      rfl
  | accept =>
      rcases Act.run_accept.1 hr with ⟨_, rfl⟩
      rfl
  | reject g =>
      rcases Act.run_reject.1 hr with ⟨_, rfl⟩
      rfl
  | delete g =>
      rcases Act.run_delete.1 hr with ⟨_, rfl⟩
      rfl
  | doneqGet g own k =>
      rcases Act.run_doneqGet.1 hr with ⟨q, _, rfl⟩
      rfl
  | pop g =>
      rcases Act.run_pop.1 hr with ⟨q, _, rfl⟩
      rfl
  | timeout =>
      rcases Act.run_timeout.1 hr with ⟨_, rfl⟩
      rfl
  | timerGet g =>
      rcases Act.run_timerGet.1 hr with ⟨_, rfl⟩
      rfl
  | queueHold b =>
      rcases Act.run_queueHold.1 hr with ⟨_, rfl⟩
      rfl
  | freeze =>
      rcases Act.run_freeze.1 hr with ⟨_, rfl⟩
      rfl

/-- No step changes a throttle, and few hold or freeze the queue. -/
theorem OneAtATime.step (h : OneAtATime a.waitq) (hr : x.run gdevOf t a = some a')
    (hx : KeepsFlags x) : OneAtATime a'.waitq := by
  have hw := Act.run_waitq hr
  refine ⟨?_, fun i => (hw.maxactive i).trans (h.dev i), ?_, ?_⟩
  all_goals
    generalize a'.waitq = w' at hw ⊢
    generalize a.waitq = w at hw h
    cases hw with
    | same | link | reject => first | exact h.hba | exact h.held | exact h.frozen
    | promote d _ _ hs =>
        rcases Waitq.shuffleUp_eq_some hs with ⟨g, rest, _, _, _, rfl⟩
        first | exact h.hba | exact h.held | exact h.frozen
    | take g _ _ hs =>
        rcases Waitq.take_eq_some hs with ⟨rest, _, _, rfl⟩
        first | exact h.hba | exact h.held | rfl
    | delete g =>
        unfold Waitq.delete
        split <;> first | exact h.hba | exact h.held | exact h.frozen
    | queueHold | freeze => exact hx.elim

/-- Outside the HBA driver the wait queue is neither held nor frozen. -/
theorem local_keepsFlags (hx : Local gdevOf a c x c') (hout : ∀ k, c ≠ .hba k) :
    KeepsFlags x := by
  cases hx with
  | queueHold c b => exact absurd rfl (hout c)
  | freeze c => exact absurd rfl (hout c)
  | _ => trivial

/-- A step outside the HBA driver has nothing to do with its requests, or calls one of its
    functions, or is one of `sol11ghd_complete`. -/
theorem local_call (hx : Local gdevOf a c x c') (hout : ∀ k, c ≠ .hba k)
    (hr : x.run gdevOf t a = some a') :
    (callOf c = none ∧ callOf c' = none ∧ a'.active = a.active) ∨
      (∃ k, callOf c = none ∧ c' = .hba k ∧ CallOk k none ∧
        a'.active = handed k ++ a.active) ∨
      (∃ k g, c = .del k g ∧ c' = .delShuffle k g ∧ a'.active = a.active.erase g) ∨
      ∃ k, callOf c = some k ∧ callOf c' = some k ∧ (∀ g, c ≠ .del k g) ∧ (∀ g, c' ≠ .del k g) ∧
        a'.active = a.active := by
  have hactive := run_active hr
  cases hx with
  | startAccept k rc g done => exact absurd rfl (hout _)
  | startReject k rc g => exact absurd rfl (hout _)
  | complete k g hg => exact absurd rfl (hout _)
  | completeEarly k g d y hy => exact absurd rfl (hout _)
  | queueHold k b => exact absurd rfl (hout _)
  | freeze k => exact absurd rfl (hout _)
  | intrProcessed more => exact absurd rfl (hout _)
  | pollProcessed p => exact absurd rfl (hout _)
  | actionTaken k g d y done hy => exact absurd rfl (hout _)
  | actionFailed k g d y done hy hne => exact absurd rfl (hout _)
  | incomplete k g d done => exact absurd rfl (hout _)
  -- The calls of the HBA driver.
  | holdTake k rc g => exact Or.inr (Or.inl ⟨_, rfl, rfl, rfl, hactive⟩)
  | intrStatus more => exact Or.inr (Or.inl ⟨_, rfl, rfl, trivial, hactive⟩)
  | pollStatus p hp => exact Or.inr (Or.inl ⟨_, rfl, rfl, trivial, hactive⟩)
  | newstate k g d y hy => exact Or.inr (Or.inl ⟨_, rfl, rfl, fun _ => rfl, hactive⟩)
  -- `sol11ghd_complete`
  | del k g => exact Or.inr (Or.inr (Or.inl ⟨k, g, rfl, rfl, hactive⟩))
  | delShuffle k g => exact Or.inr (Or.inr (Or.inr ⟨k, rfl, rfl, nofun, nofun, hactive⟩))
  | delShuffled k g hs => exact Or.inr (Or.inr (Or.inr ⟨k, rfl, rfl, nofun, nofun, hactive⟩))
  | stop k g => exact Or.inr (Or.inr (Or.inr ⟨k, rfl, rfl, nofun, nofun, hactive⟩))
  | put k g => exact Or.inr (Or.inr (Or.inr ⟨k, rfl, rfl, nofun, nofun, hactive⟩))
  | _ => exact Or.inl ⟨rfl, rfl, hactive⟩

end GhdSteps

/-! ## The invariant -/

/-- The active request that a thread is about to take off, in `sol11ghd_complete`. -/
def deleting : Ctl → List Gcmd
  | .del k g => if early k then [] else [g]
  | _ => []

/-- The active requests that are in the hands of the HBA driver, but not with the
    controller: those of the thread's call. -/
def AtaCtl.outside (c : AtaCtl) : List Gcmd :=
  match callOf c.ctl, c.left with
  | none, _ => []
  | some k, none => handed k
  | some k, some l => deleting c.ctl ++ pending k l

/-- What is left of a call goes with the control point. -/
structure AtaCtl.Ok (a : Ccc) (c : AtaCtl) : Prop where
  call : ∀ k, callOf c.ctl = some k → CallOk k c.left
  outside : callOf c.ctl = none → c.left = none
  inside : callOf c.ctl ≠ none → (∀ k, c.ctl ≠ .hba k) → c.left ≠ none
  early : ∀ k g, c.ctl = .del k g → early k = true → g ∉ a.active

/-- The active requests are that of the controller, and those in the hands of the thread
    that is in the HBA driver. -/
structure AtaOk {σ : Type} (e : List Gcmd) (a : AtaCcc σ) : Prop where
  ctlr : CtlrOk a.ctlr
  active : a.ccc.active.Perm (e ++ a.ctlr.holder.toList)
  free : a.ccc.hbaMutex = none → e = []
  waitq : OneAtATime a.ccc.waitq

/-- The invariant of the whole system. -/
structure AtaInv {σ : Type} (e : List Gcmd) (s : AtaSys σ) : Prop where
  shared : AtaOk e s.shared
  thr : ∀ t, (s.thr t).Ok s.shared.ccc
  hba : ∀ t, (s.thr t).ctl.view.hba = true → e = (s.thr t).outside

section Invariant

variable {σ : Type} {d : Dev σ} {gdevOf : Gcmd → GdevId} {drvOf : Gcmd → AtaDrv} {G : Ghost}
  {s s' : AtaSys σ} {e : List Gcmd} {t : Tid} {k : HbaCall} {g : Gcmd} {l : HbaAnswer}

theorem not_hba {c : Ctl} (h : callOf c = none) (k : HbaCall) : c ≠ .hba k := by
  rintro rfl
  cases h

theorem callOf_view {c : Ctl} (h : callOf c = some k) : c.view.hba = true := by
  cases c with
  | hba | del | delShuffle | stop | put => rfl
  | _ => cases h

theorem early_sees (k : HbaCall) (g : Gcmd) : early (sees k g) = early k := by
  cases k <;> rfl

theorem handed_sees (k : HbaCall) (g : Gcmd) : handed (sees k g) = handed k := by
  cases k <;> rfl

theorem pending_sees (k : HbaCall) (g : Gcmd) (l : HbaAnswer) :
    pending (sees k g) l = pending k l := by
  unfold pending
  rw [early_sees, handed_sees]

theorem sees_early {c : Caller} {g' : Option Gcmd} {dev : GdevId} {x : GAction} {done : Bool}
    (hx : x.Early) : sees (.timeout c g' dev x done) g = .timeout c g' dev x true := by
  have hdone : (done || decide x.Early) = true := by
    rw [decide_eq_true hx, Bool.or_true]
  exact congrArg (HbaCall.timeout c g' dev x) hdone

theorem sees_late (h : early k = false) : sees k g = k.completed g := by
  cases k with
  | timeout c g' dev x done =>
      have hdone : (done || decide x.Early) = done := by
        rw [show decide x.Early = false from h, Bool.or_false]
      exact congrArg (HbaCall.timeout c g' dev x) hdone
  | _ => rfl

/-- What a call is about to complete is active, or it is an early action, which completes
    the request it is for. -/
theorem AtaInv.completing (h : AtaInv e s) {gs : List Gcmd} {n : Nat} {f rc : Bool}
    (hc : s.thr t = ⟨.hba k, some ⟨g :: gs, n, f, rc⟩⟩) :
    (early k = false ∧ g ∈ s.shared.ccc.active) ∨
      ∃ c dev x, k = .timeout c (some g) dev x false ∧ x.Early ∧ gs = [] := by
  have hcall := (h.thr t).call k (by rw [hc]; rfl)
  rw [hc] at hcall
  cases hk : early k with
  | false =>
      refine Or.inl ⟨rfl, ?_⟩
      have he := h.hba t (by rw [hc]; rfl)
      rw [hc] at he
      -- It is the first of the pending ones.
      have hmem : g ∈ e := by
        rw [he]
        unfold AtaCtl.outside pending
        dsimp only [callOf, deleting]
        rw [hk, if_neg Bool.false_ne_true]
        exact List.mem_cons_self
      exact h.shared.active.mem_iff.2 (List.mem_append_left _ hmem)
  | true =>
      refine Or.inr ?_
      cases k with
      | start c rc g done => cases hk
      | status c => cases hk
      | timeout c g' dev x done =>
          have hx : x.Early := of_decide_eq_true hk
          rcases hcall hx with ⟨rfl, y, rfl, hgs⟩ | ⟨_, hnil⟩
          · cases hgs
            exact ⟨c, dev, x, rfl, hx, rfl⟩
          · cases hnil

theorem ghdOf_thr {c : AtaCtl} (hthr : s'.thr = Function.update s.thr t c) :
    (ghdOf s').thr = Function.update (ghdOf s).thr t c.ctl := by
  funext u
  unfold ghdOf
  dsimp only
  rw [hthr]
  by_cases hu : u = t
  · rw [hu, Function.update_self, Function.update_self]
  · rw [Function.update_of_ne hu, Function.update_of_ne hu]

/-- A thread whose control point stays does not move in GHD. -/
theorem ghdOf_same {c : AtaCtl} (hthr : s'.thr = Function.update s.thr t c)
    (hctl : c.ctl = (s.thr t).ctl) (hccc : s'.shared.ccc = s.shared.ccc) : ghdOf s' = ghdOf s := by
  have h := ghdOf_thr hthr
  rw [hctl, show (s.thr t).ctl = (ghdOf s).thr t from rfl, Function.update_eq_self] at h
  unfold ghdOf at h ⊢
  dsimp only at h
  rw [h, hccc]

/-- Every step of the system is one of GHD, or does not concern it: the controller keeps
    to what GHD leaves open. -/
theorem ataStep_ghd (h : AtaInv e s) (hst : AtaStep d gdevOf drvOf s s') :
    ghdOf s' = ghdOf s ∨ GhdStep gdevOf (ghdOf s) (ghdOf s') := by
  rcases hst with ⟨t, c', hl, hthr⟩
  rcases s with ⟨⟨a, m⟩, thr⟩
  rcases s' with ⟨⟨a', m'⟩, thr'⟩
  dsimp only at hl hthr
  generalize hc : thr t = c at hl
  have hctl : (ghdOf ⟨⟨a, m⟩, thr⟩ : GhdSys).thr t = c.ctl := congrArg AtaCtl.ctl hc
  cases hl with
  | ghd hout hstatus hx hr =>
      refine Or.inr ⟨t, _, ⟨_, ?_, hr⟩, ghdOf_thr hthr⟩
      rw [hctl]
      exact hx
  | call _ _ k => exact Or.inl (ghdOf_same hthr (congrArg AtaCtl.ctl hc).symm rfl)
  | between => exact Or.inl (ghdOf_same hthr (congrArg AtaCtl.ctl hc).symm rfl)
  | complete _ _ k g gs n f rc =>
      refine Or.inr ⟨t, _, ⟨.skip, ?_, rfl⟩, ghdOf_thr hthr⟩
      rw [hctl]
      rcases h.completing hc with ⟨hlate, hg⟩ | ⟨c, dev, x, rfl, hx, _⟩
      · rw [sees_late hlate]
        exact .complete k g hg
      · rw [sees_early hx]
        exact .completeEarly c g dev x hx
  | @ret a a' m k n f rc x c' hx hr =>
      refine Or.inr ⟨t, _, ⟨x, ?_, hr⟩, ghdOf_thr hthr⟩
      rw [hctl]
      have hcall := (h.thr t).call k (by dsimp only; rw [hc]; rfl)
      dsimp only at hcall
      rw [hc] at hcall
      -- A call of an early action has completed its request.
      have hearly : ∀ {c g dev y done}, k = .timeout c g dev y done → y.Early → done = true := by
        rintro c g dev y done rfl hy
        rcases hcall hy with ⟨_, z, _, hnil⟩ | ⟨hdone, _⟩
        · cases hnil
        · exact hdone
      cases hx with
      | started k rc g done => exact .startAccept k rc g done
      | refused k rc g done =>
          rw [(hcall rfl).1]
          exact .startReject k rc g
      | intr more rc => exact .intrProcessed more
      | poll p rc => exact .pollProcessed p
      | taken k g dev x done => exact .actionTaken k g dev x done (hearly rfl)
      | failed k g dev x done hne => exact .actionFailed k g dev x done (hearly rfl) hne
      | gaveUp k g dev done => exact .incomplete k g dev done

theorem AtaCtl.Ok.mono {a a' : Ccc} {c : AtaCtl} (h : c.Ok a)
    (ha : c.ctl.view.hba = true → a'.active = a.active) : c.Ok a' where
  call := h.call
  outside := h.outside
  inside := h.inside
  early := fun k g hc hk => by
    rw [ha (by rw [hc]; rfl)]
    exact h.early k g hc hk

/-- A thread outside the HBA driver. -/
theorem AtaCtl.ok_outside {a : Ccc} {c : Ctl} (h : callOf c = none) :
    (⟨c, none⟩ : AtaCtl).Ok a where
  call := fun k hk => nomatch h.symm.trans hk
  outside := fun _ => rfl
  inside := fun hn => absurd h hn
  early := fun k g hc => by
    dsimp only at hc
    rw [hc] at h
    cases h

theorem outside_nil {c : Ctl} (h : callOf c = none) (l : Option HbaAnswer) :
    (⟨c, l⟩ : AtaCtl).outside = [] := by
  unfold AtaCtl.outside
  rw [h]

theorem outside_some {c : Ctl} (h : callOf c = some k) (l : HbaAnswer) :
    (⟨c, some l⟩ : AtaCtl).outside = deleting c ++ pending k l := by
  unfold AtaCtl.outside
  rw [h]

theorem deleting_nil {c : Ctl} (h : callOf c = some k) (hd : ∀ g, c ≠ .del k g) :
    deleting c = [] := by
  cases c with
  | del k' g =>
      cases h
      exact absurd rfl (hd g)
  | _ => rfl

/-- What a step of a thread does to the requests, and what it leaves to the others. -/
structure Progressed (e e' : List Gcmd) (a a' : AtaCcc σ) (c c' : AtaCtl) : Prop where
  shared : AtaOk e' a'
  ok : c'.Ok a'.ccc
  hba : c'.ctl.view.hba = true → e' = c'.outside
  frame : c.ctl.view.hba = true ∨ c'.ctl.view.hba = true ∨
    (e' = e ∧ a'.ccc.active = a.ccc.active)

/-- Every other thread goes on as before, for it is not in the HBA driver if this one is. -/
theorem AtaInv.moved (h : AtaInv e s) {G' : Ghost} (hG : GhdInv gdevOf G (ghdOf s))
    (hG' : GhdInv gdevOf G' (ghdOf s')) {e' : List Gcmd} {c' : AtaCtl}
    (hthr : s'.thr = Function.update s.thr t c')
    (hm : Progressed e e' s.shared s'.shared (s.thr t) c') : AtaInv e' s' := by
  have hself : s'.thr t = c' := by rw [hthr, Function.update_self]
  have hother : ∀ u, u ≠ t → s'.thr u = s.thr u := by
    intro u hu
    rw [hthr, Function.update_of_ne hu]
  -- A thread that has the HBA mutex before and after excludes this one.
  have hframe : ∀ u, u ≠ t → (s.thr u).ctl.view.hba = true →
      e' = e ∧ s'.shared.ccc.active = s.shared.ccc.active := by
    intro u hu hview
    have hview' : ((ghdOf s').thr u).view.hba = true := by
      change (s'.thr u).ctl.view.hba = true
      rw [hother u hu]
      exact hview
    rcases hm.frame with hc | hc | hsame
    · exact absurd (hG.hba_unique (t := u) (u := t) hview hc) hu
    · refine absurd (hG'.hba_unique (t := u) (u := t) hview' ?_) hu
      change (s'.thr t).ctl.view.hba = true
      rw [hself]
      exact hc
    · exact hsame
  refine ⟨hm.shared, fun u => ?_, fun u hu => ?_⟩
  · by_cases hut : u = t
    · rw [hut, hself]
      exact hm.ok
    · rw [hother u hut]
      exact (h.thr u).mono fun hview => (hframe u hut hview).2
  · by_cases hut : u = t
    · rw [hut, hself] at hu ⊢
      exact hm.hba hu
    · rw [hother u hut] at hu ⊢
      rw [(hframe u hut hu).1]
      exact h.hba u hu

/-- A step outside the HBA driver, or in `sol11ghd_complete`. -/
theorem moved_ghd {a a' : Ccc} {m : Ctlr σ} {c c' : Ctl} {x : Act} {l : Option HbaAnswer}
    (hI : AtaOk e ⟨a, m⟩) (hok : (⟨c, l⟩ : AtaCtl).Ok a)
    (he : c.view.hba = true → e = (⟨c, l⟩ : AtaCtl).outside) (hout : ∀ k, c ≠ .hba k)
    (hx : Local gdevOf a c x c') (hr : x.run gdevOf t a = some a')
    (hacq : c.view.hba = false → c'.view.hba = true → a.hbaMutex = none)
    (hown : c'.view.hba = true → a'.hbaMutex = some t)
    (hfree : a'.hbaMutex = none → c.view.hba = true ∨ a.hbaMutex = none) :
    ∃ e', Progressed e e' ⟨a, m⟩ ⟨a', m⟩ ⟨c, l⟩ ⟨c', l⟩ := by
  -- Only the list of requests and the mutex are left to be looked at.
  have hshared : ∀ e', a'.active.Perm (e' ++ m.holder.toList) →
      (a'.hbaMutex = none → e' = []) → AtaOk e' (⟨a', m⟩ : AtaCcc σ) := fun e' hp hf =>
    ⟨hI.ctlr, hp, hf, hI.waitq.step hr (local_keepsFlags hx hout)⟩
  -- Outside the HBA driver a thread with the HBA mutex has nothing.
  have hnil : callOf c = none → c.view.hba = true ∨ a.hbaMutex = none → e = [] := by
    rintro hc (hview | hmutex)
    · rw [he hview, outside_nil hc]
    · exact hI.free hmutex
  have hin : ∀ k, callOf c' = some k → a'.hbaMutex ≠ none := fun k hk hm =>
    nomatch (hown (callOf_view hk)).symm.trans hm
  rcases local_call hx hout hr with ⟨hc, hc', hact⟩ | ⟨k, hc, rfl, hcall, hact⟩ |
    ⟨k, g, rfl, rfl, hact⟩ | ⟨k, hc, hc', hd, hd', hact⟩
  · refine ⟨e, hshared e (hact ▸ hI.active) fun hm => hnil hc (hfree hm), ?_, fun hview => ?_, ?_⟩
    · have hl : l = none := hok.outside hc
      rw [hl]
      exact AtaCtl.ok_outside hc'
    · rw [outside_nil hc']
      cases hv : c.view.hba with
      | true => exact hnil hc (Or.inl hv)
      | false => exact hnil hc (Or.inr (hacq hv hview))
    · exact Or.inr (Or.inr ⟨rfl, hact⟩)
  · -- A function of the HBA driver is called.
    have hl : l = none := hok.outside hc
    have hnone : e = [] := by
      cases hv : c.view.hba with
      | true => exact hnil hc (Or.inl hv)
      | false => exact hnil hc (Or.inr (hacq hv rfl))
    subst hl
    refine ⟨handed k, hshared _ ?_ fun hm => ?_, ?_, fun _ => rfl, Or.inr (Or.inl rfl)⟩
    · have hp := hI.active
      rw [hnone] at hp
      rw [hact]
      exact hp.append_left (handed k)
    · exact nomatch (hown rfl).symm.trans hm
    · refine ⟨fun k' hk' => ?_, nofun, fun _ hn => absurd rfl (hn k),
        fun _ _ hdel => Ctl.noConfusion hdel⟩
      cases hk'
      exact hcall
  · -- The request is taken off.
    rcases Option.ne_none_iff_exists'.1
      (hok.inside nofun fun _ hk => Ctl.noConfusion hk) with ⟨r, hl⟩
    subst hl
    have hout' : (⟨.delShuffle k g, some r⟩ : AtaCtl).outside = pending k r :=
      outside_some rfl r
    refine ⟨pending k r, hshared _ ?_ fun hm => absurd hm (hin k rfl), ?_, fun _ => hout'.symm,
      Or.inl rfl⟩
    · have hp := hI.active
      rw [he rfl, outside_some (k := k) rfl r] at hp
      rw [hact]
      unfold deleting at hp
      dsimp only at hp
      cases hk : early k with
      | true =>
          rw [hk, if_pos rfl, List.nil_append] at hp
          rw [List.erase_of_not_mem (hok.early k g rfl hk)]
          exact hp
      | false =>
          rw [hk, if_neg Bool.false_ne_true] at hp
          have he := hp.erase g
          rwa [List.singleton_append, List.cons_append, List.erase_cons_head] at he
    · refine ⟨fun k' hk' => ?_, nofun, fun _ _ => nofun,
        fun _ _ hdel => Ctl.noConfusion hdel⟩
      cases hk'
      exact hok.call k rfl
  · rcases Option.ne_none_iff_exists'.1
      (hok.inside (by rw [hc]; exact nofun) hout) with ⟨r, hl⟩
    subst hl
    have hsame : (⟨c', some r⟩ : AtaCtl).outside = (⟨c, some r⟩ : AtaCtl).outside := by
      rw [outside_some hc, outside_some hc', deleting_nil hc hd, deleting_nil hc' hd']
    refine ⟨e, hshared e (hact ▸ hI.active) fun hm => absurd hm (hin k hc'), ?_, fun _ => ?_,
      Or.inl (callOf_view hc)⟩
    · refine ⟨fun k' hk' => ?_, fun hn => ?_, fun _ _ => nofun, fun k' g hdel _ => ?_⟩
      · rw [Option.some.inj (hc'.symm.trans hk')] at hc
        exact hok.call k' hc
      · exact nomatch hc'.symm.trans hn
      · dsimp only at hdel
        rw [hdel] at hc' hd'
        cases hc'
        exact absurd rfl (hd' g)
    · rw [hsame]
      exact he (callOf_view hc)

/-- The call itself: the requests change hands between the controller and the call. -/
theorem moved_call {a : Ccc} {m : Ctlr σ} (hI : AtaOk e ⟨a, m⟩)
    (hok : (⟨.hba k, none⟩ : AtaCtl).Ok a) (he : e = handed k) (hown : a.hbaMutex = some t)
    (hg : ∀ c dev x done, k = .timeout c none dev x done → ¬ x.Early) :
    ∃ e', Progressed e e' ⟨a, m⟩ ⟨a, (hbaCall d drvOf m k).1⟩ ⟨.hba k, none⟩
      ⟨.hba k, some (hbaCall d drvOf m k).2⟩ := by
  have hspec := hbaCall_spec d drvOf hI.ctlr k
  refine ⟨pending k (hbaCall d drvOf m k).2, ?_, ?_, fun _ => ?_, Or.inl rfl⟩
  · refine ⟨hbaCall_ctlrOk d drvOf hI.ctlr k, ?_, fun hm => ?_, hI.waitq⟩
    · rw [hspec, ← he]
      exact hI.active
    · exact nomatch hown.symm.trans hm
  · refine ⟨fun k' hk' => ?_, nofun, fun _ hn => absurd rfl (hn k),
        fun _ _ hdel => Ctl.noConfusion hdel⟩
    cases hk'
    exact hbaCall_ok d drvOf hI.ctlr (hok.call k rfl) hg
  · exact (outside_some (c := .hba k) rfl _).symm

/-- The thread goes into `sol11ghd_complete`. -/
theorem moved_complete {a : Ccc} {m : Ctlr σ} {gs : List Gcmd} {n : Nat} {f rc : Bool}
    (hI : AtaOk e ⟨a, m⟩) (hok : (⟨.hba k, some ⟨g :: gs, n, f, rc⟩⟩ : AtaCtl).Ok a)
    (he : e = (⟨.hba k, some ⟨g :: gs, n, f, rc⟩⟩ : AtaCtl).outside)
    (hearly : ∀ c dev x, k = .timeout c (some g) dev x false → x.Early → g ∉ a.active) :
    ∃ e', Progressed e e' ⟨a, m⟩ ⟨a, m⟩ ⟨.hba k, some ⟨g :: gs, n, f, rc⟩⟩
      ⟨.del (sees k g) g, some ⟨gs, n, f, rc⟩⟩ := by
  have hcall := hok.call k rfl
  refine ⟨e, ⟨hI, ⟨fun k' hk' => ?_, nofun, fun _ _ => nofun, fun k' g' hdel hk' => ?_⟩,
    fun _ => ?_, Or.inl rfl⟩⟩
  · cases hk'
    cases k with
    | start c rc' y done =>
        intro hrc
        exact nomatch (hcall hrc).2
    | status c => trivial
    | timeout c g' dev x done =>
        intro hx
        rcases hcall hx with ⟨_, y, _, hgs⟩ | ⟨_, hnil⟩
        · refine Or.inr ⟨?_, (List.cons.inj hgs).2⟩
          rw [decide_eq_true hx, Bool.or_true]
        · cases hnil
  · cases hdel
    rw [early_sees] at hk'
    -- Only an early action completes a request that is not active.
    cases k with
    | start c rc' y done => cases hk'
    | status c => cases hk'
    | timeout c g' dev x done =>
        have hx : x.Early := of_decide_eq_true hk'
        rcases hcall hx with ⟨rfl, y, rfl, hgs⟩ | ⟨_, hnil⟩
        · cases hgs
          exact hearly c dev x rfl hx
        · cases hnil
  · rw [he, outside_some (k := k) rfl, outside_some (k := sees k g) rfl, pending_sees]
    unfold deleting pending
    dsimp only
    rw [early_sees]
    split <;> rfl

/-- The call returns. -/
theorem moved_ret {a a' : Ccc} {m : Ctlr σ} {n : Nat} {f rc : Bool} {x : Act} {c' : Ctl}
    (hI : AtaOk e ⟨a, m⟩) (he : e = (⟨.hba k, some ⟨[], n, f, rc⟩⟩ : AtaCtl).outside)
    (hx : Returns k rc x c') (hr : x.run gdevOf t a = some a') :
    ∃ e', Progressed e e' ⟨a, m⟩ ⟨a', m⟩ ⟨.hba k, some ⟨[], n, f, rc⟩⟩ ⟨c', none⟩ := by
  have hout : callOf c' = none := by
    cases hx <;> rfl
  have hkeep : KeepsFlags x := by
    cases hx <;> trivial
  -- What is pending is the request that is refused, which goes back to the wait queue.
  have hactive : a'.active.Perm m.holder.toList := by
    have hp := hI.active
    rw [he, outside_some rfl] at hp
    rw [run_active hr]
    cases hx with
    | refused c rc g done =>
        have he := hp.erase g
        rwa [show deleting (.hba (.start c rc g done)) ++ pending (.start c rc g done)
          ⟨[], n, f, false⟩ ++ m.holder.toList = g :: m.holder.toList from rfl,
          List.erase_cons_head] at he
    | started | gaveUp => exact hp
    | intr more rc =>
        cases rc <;> exact hp
    | poll p rc =>
        cases rc <;> exact hp
    | taken c g dev y done =>
        unfold pending at hp
        split at hp <;> exact hp
    | failed c g dev y done hne =>
        unfold pending at hp
        split at hp <;> exact hp
  exact ⟨[], ⟨hI.ctlr, hactive, fun _ => rfl, hI.waitq.step hr hkeep⟩, AtaCtl.ok_outside hout,
    fun _ => (outside_nil hout none).symm, Or.inl rfl⟩

/-- Every step of the system keeps the invariant. -/
theorem AtaInv.step {G' : Ghost} (h : AtaInv e s) (hG : GhdInv gdevOf G (ghdOf s))
    (hG' : GhdInv gdevOf G' (ghdOf s')) (hst : AtaStep d gdevOf drvOf s s') :
    ∃ e', AtaInv e' s' := by
  rcases hst with ⟨t, c', hl, hthr⟩
  suffices hm : ∃ e', Progressed e e' s.shared s'.shared (s.thr t) c' by
    rcases hm with ⟨e', hm⟩
    exact ⟨e', h.moved hG hG' hthr hm⟩
  have hok := h.thr t
  have he := h.hba t
  have hown := (hG.2 t).1.hba
  have hknows := (hG.2 t).2
  have hctl' : (ghdOf s').thr t = c'.ctl := by rw [ghdOf_thr hthr, Function.update_self]
  rcases s with ⟨⟨a, m⟩, thr⟩
  rcases s' with ⟨⟨a', m'⟩, thr'⟩
  dsimp only at hl hok he ⊢
  generalize hc : thr t = c at hl hok he ⊢
  have hctl : (ghdOf ⟨⟨a, m⟩, thr⟩ : GhdSys).thr t = c.ctl := congrArg AtaCtl.ctl hc
  rw [hctl] at hown hknows
  cases hl with
  | @ghd a a' m c c' x l hout hstatus hx hr =>
      have hx' : Local gdevOf a ((ghdOf ⟨⟨a, m⟩, thr⟩ : GhdSys).thr t) x c' := by
        rw [hctl]
        exact hx
      refine moved_ghd (t := t) h.shared hok he hout hx hr (fun hv hv' => ?_) (fun hv' => ?_)
        fun hm => ?_
      · exact hG.acquires hx' hr (by rw [hctl]; exact hv) hv'
      · exact (hG'.2 t).1.hba (by rw [hctl']; exact hv')
      · have hf := (Act.frame hr).hbaMutex
        rw [hm] at hf
        refine (Act.hbaMutexAfter_eq_none hf.symm).imp_left fun hunlock => ?_
        have hal := (hG.viewStep hx' hr).allowed
        rw [hunlock, hctl] at hal
        exact hal.1
  | call a m k =>
      refine moved_call (t := t) h.shared hok (he rfl) (hown rfl) ?_
      rintro c dev x done rfl
      exact hknows
  | complete a m k g gs n f rc =>
      refine moved_complete h.shared hok (he rfl) ?_
      rintro c dev x rfl hx hg
      have hwait := (hknows rfl hx).1
      exact nomatch hwait.symm.trans ((hG.1.hba g).2 hg)
  | ret hx hr => exact moved_ret h.shared (he rfl) hx hr
  | between a m c pkt dev =>
      have hI := h.shared
      exact ⟨e, ⟨hI.ctlr.congr Iff.rfl pkt dev, hI.active, hI.free, hI.waitq⟩, hok, he,
        Or.inr (Or.inr ⟨rfl, rfl⟩)⟩

/-- A step of the system does to the controller what a step of the controller does. -/
theorem ataStep_ctlr (hst : AtaStep d gdevOf drvOf s s') :
    s'.shared.ctlr = s.shared.ctlr ∨ CtlrStep d s.shared.ctlr s'.shared.ctlr := by
  rcases hst with ⟨t, c', hl, hthr⟩
  generalize s.thr t = c at hl
  generalize s.shared = p at hl ⊢
  generalize s'.shared = p' at hl ⊢
  cases hl with
  | ghd | complete | ret => exact Or.inl rfl
  | call a m k => exact hbaCall_step d drvOf k
  | between a m c pkt dev => exact Or.inr (.between m pkt dev)

theorem AtaInit.inv (h : AtaInit s) : AtaInv [] s := by
  have hidle : ∀ t, (s.thr t).ctl = .idle := h.ghd.thr
  refine ⟨⟨h.ctlr.ok, ?_, fun _ => rfl, h.waitq⟩, fun t => ?_, fun t ht => ?_⟩
  · have hnone : s.shared.ctlr.holder = none := by
      unfold Ctlr.holder
      rw [h.ctlr.active]
    rw [show s.shared.ccc.active = [] from h.ghd.active, hnone]
    exact List.Perm.refl _
  · have hc : callOf (s.thr t).ctl = none := by
      rw [hidle t]
      rfl
    refine ⟨fun k hk => ?_, fun _ => h.left t, fun hn => absurd hc hn, fun k g hdel => ?_⟩
    · exact nomatch hc.symm.trans hk
    · rw [hidle t] at hdel
      cases hdel
  · rw [hidle t] at ht
    cases ht

/-- The invariant holds in every state that a run of the system reaches, and the run is
    one of GHD and one of the controller. -/
theorem reachable_ataInv (h : Reachable AtaInit (AtaStep d gdevOf drvOf) s) :
    GhdReachable gdevOf (ghdOf s) ∧ Reachable CtlrInit (CtlrStep d) s.shared.ctlr ∧
      ∃ e, AtaInv e s := by
  refine h.invariant (I := fun s => GhdReachable gdevOf (ghdOf s) ∧
    Reachable CtlrInit (CtlrStep d) s.shared.ctlr ∧ ∃ e, AtaInv e s) (fun s h0 => ?_) ?_
  · exact ⟨Reachable.initial h0.ghd, Reachable.initial h0.ctlr, [], h0.inv⟩
  · rintro s s' _ ⟨hghd, hctlr, e, hinv⟩ hst
    have hghd' : GhdReachable gdevOf (ghdOf s') := by
      rcases ataStep_ghd hinv hst with heq | hstep
      · rw [heq]
        exact hghd
      · exact hghd.tail hstep
    have hctlr' : Reachable CtlrInit (CtlrStep d) s'.shared.ctlr := by
      rcases ataStep_ctlr hst with heq | hstep
      · rw [heq]
        exact hctlr
      · exact hctlr.tail hstep
    rcases ghd_reachable_inv hghd with ⟨G, hG⟩
    rcases ghd_reachable_inv hghd' with ⟨G', hG'⟩
    exact ⟨hghd', hctlr', hinv.step hG hG' hst⟩

end Invariant

/-! ## What GHD and the controller have in common -/

/-- GHD and the controller agree about the requests: the HBA has one at most, which is the
    one the controller has unless a call is about to complete or refuse it; a start finds
    the controller without a packet; a call completes one request at most, which is
    outstanding; and no request waits while the controller is idle, if the last start has
    not been refused. -/
structure UnderGhd {σ : Type} (d : Dev σ) (gdevOf : Gcmd → GdevId) (s : AtaSys σ) : Prop where
  ghd : GhdReachable gdevOf (ghdOf s)
  ctlr : Reachable CtlrInit (CtlrStep d) s.shared.ctlr
  one : s.shared.ccc.active.length ≤ 1
  held : ∀ g, s.shared.ctlr.holder = some g → s.shared.ccc.active = [g]
  free : s.shared.ccc.hbaMutex = none → s.shared.ccc.active = s.shared.ctlr.holder.toList
  start : ∀ t c rc g done, s.thr t = ⟨.hba (.start c rc g done), none⟩ →
    s.shared.ctlr.activeDrv = none ∧ s.shared.ctlr.active = none
  complete : ∀ t k g gs n f rc, s.thr t = ⟨.hba k, some ⟨g :: gs, n, f, rc⟩⟩ →
    gs = [] ∧ Outstanding s.shared.ccc.log g ∧ (early k = false → s.shared.ctlr.holder = none)
  idle : s.shared.ccc.hbaMutex = none → s.shared.ccc.waitqMutex = none →
    s.shared.ctlr.state = .idle → s.shared.ccc.startRejected = false →
      ∀ g, ¬ s.shared.ccc.waitq.Waiting gdevOf g

section Agreement

variable {σ : Type} {d : Dev σ} {gdevOf : Gcmd → GdevId} {drvOf : Gcmd → AtaDrv} {G : Ghost}
  {s : AtaSys σ} {e : List Gcmd}

theorem CtlrOk.active_none {m : Ctlr σ} (h : CtlrOk m) (hn : m.holder = none) :
    m.active = none := by
  unfold Ctlr.holder at hn
  cases ha : m.active with
  | none => rfl
  | some p =>
      rw [ha] at hn
      cases p with
      | cmd g => cases hn
      | arq =>
          rcases h.faultArq ha with ⟨g, hf⟩
          rw [hf] at hn
          cases hn

/-- The throttle of the HBA. -/
theorem AtaInv.length_active (h : AtaInv e s) (hG : GhdInv gdevOf G (ghdOf s)) :
    s.shared.ccc.active.length ≤ 1 := by
  have hcount := hG.1.waitq.hba_nactive
  have hmax := hG.1.waitq.hba_max
  have hone := h.shared.waitq.hba
  change s.shared.ccc.waitq.hba.nactive = (s.shared.ccc.active.length : Int) at hcount
  change s.shared.ccc.waitq.hba.nactive ≤ s.shared.ccc.waitq.hba.maxactive at hmax
  omega

/-- What is in the hands of the HBA driver and what the controller has is one at most. -/
theorem AtaInv.length_le (h : AtaInv e s) (hG : GhdInv gdevOf G (ghdOf s)) :
    e.length + s.shared.ctlr.holder.toList.length ≤ 1 := by
  rw [← List.length_append, ← h.shared.active.length_eq]
  exact h.length_active hG

theorem AtaInv.holder_none (h : AtaInv e s) (hG : GhdInv gdevOf G (ghdOf s)) (he : 1 ≤ e.length) :
    s.shared.ctlr.holder = none := by
  have hle := h.length_le hG
  cases hh : s.shared.ctlr.holder with
  | none => rfl
  | some g =>
      rw [hh] at hle
      change e.length + 1 ≤ 1 at hle
      omega

/-- While the controller is idle and both mutexes are free, no request waits. -/
theorem AtaInv.nothing_waits (h : AtaInv e s) (hu : Unstranded s.shared.ccc)
    (hG : GhdInv gdevOf G (ghdOf s)) (hhba : s.shared.ccc.hbaMutex = none)
    (hwaitq : s.shared.ccc.waitqMutex = none) (hidle : s.shared.ctlr.state = .idle)
    (hrej : s.shared.ccc.startRejected = false) (g : Gcmd) :
    ¬ s.shared.ccc.waitq.Waiting gdevOf g := by
  have hw := h.shared.waitq
  have hempty : s.shared.ccc.active = [] := by
    have hp := h.shared.active
    have hnone : s.shared.ctlr.holder = none := by
      unfold Ctlr.holder
      rw [h.shared.ctlr.idle.1 hidle]
    rw [h.shared.free hhba, hnone] at hp
    exact hp.eq_nil
  have hcount := hG.1.waitq.hba_nactive
  change s.shared.ccc.waitq.hba.nactive = (s.shared.ccc.active.length : Int) at hcount
  rw [hempty] at hcount
  -- The HBA's queue is empty, for nothing else would keep a request on it.
  have hhbaq : s.shared.ccc.waitq.hba.qhead = [] := by
    rcases hu.hba hhba hwaitq with (hq | hmax | hheld | hfrozen) | hr
    · exact hq
    · rw [hcount, hw.hba] at hmax
      exact absurd hmax (by decide)
    · exact nomatch hw.held.symm.trans hheld
    · exact nomatch hw.frozen.symm.trans hfrozen
    · exact nomatch hrej.symm.trans hr
  rintro (hdev | hq)
  · have hnactive := hG.1.waitq.dev_nactive (gdevOf g)
    change (s.shared.ccc.waitq.dev (gdevOf g)).waitq.nactive =
      Waitq.onDev gdevOf (gdevOf g) s.shared.ccc.waitq.hba.qhead +
        Waitq.onDev gdevOf (gdevOf g) s.shared.ccc.active at hnactive
    rw [hhbaq, hempty] at hnactive
    have hmax := hw.dev (gdevOf g)
    rcases hu.dev hwaitq (gdevOf g) with hnil | hact | hzero
    · rw [hnil] at hdev
      cases hdev
    · rw [hnactive, show Waitq.onDev gdevOf (gdevOf g) [] = 0 from rfl] at hact
      omega
    · rw [hmax] at hzero
      exact absurd hzero (by decide)
  · rw [hhbaq] at hq
    cases hq

/-- A request that a call is about to complete is the only one in the hands of the HBA, or
    it waits and is given up. -/
theorem AtaInv.completes (h : AtaInv e s) (hG : GhdInv gdevOf G (ghdOf s)) {t : Tid}
    {k : HbaCall} {g : Gcmd} {gs : List Gcmd} {n : Nat} {f rc : Bool}
    (hc : s.thr t = ⟨.hba k, some ⟨g :: gs, n, f, rc⟩⟩) :
    gs = [] ∧ Outstanding s.shared.ccc.log g ∧
      (early k = false → s.shared.ctlr.holder = none) := by
  rcases h.completing hc with ⟨hlate, hg⟩ | ⟨c, dev, x, rfl, hx, rfl⟩
  · have he := h.hba t (by rw [hc]; rfl)
    rw [hc, outside_some (c := .hba k) rfl] at he
    unfold pending at he
    rw [hlate, if_neg Bool.false_ne_true] at he
    have hlen : gs.length + 1 ≤ e.length := by
      rw [he, List.length_append, List.length_append, List.length_cons]
      omega
    have hle := h.length_le hG
    refine ⟨List.eq_nil_of_length_eq_zero (by omega), ?_, fun _ => h.holder_none hG (by omega)⟩
    exact (hG.1.outstanding g).2 (Or.inr ((hG.1.hba g).2 hg))
  · refine ⟨rfl, ?_, fun hlate => ?_⟩
    · have hknows := (hG.2 t).2
      rw [show (ghdOf s).thr t = (s.thr t).ctl from rfl, hc] at hknows
      exact (hG.1.outstanding g).2 (Or.inl (hknows rfl hx).1)
    · exact absurd hx (of_decide_eq_false hlate)

/-- The composition of GHD with the controller. -/
theorem ata_under_ghd (h : Reachable AtaInit (AtaStep d gdevOf drvOf) s) : UnderGhd d gdevOf s := by
  rcases reachable_ataInv h with ⟨hghd, hctlr, e, hinv⟩
  rcases ghd_reachable_inv hghd with ⟨G, hG⟩
  have hlen := hinv.length_le hG
  have hactive := hinv.shared.active
  refine ⟨hghd, hctlr, hinv.length_active hG, fun g hg => ?_, fun hfree => ?_,
    fun t c rc g done hc => ?_, fun t k g gs n f rc hc => ?_, fun hhba hwaitq hidle hrej => ?_⟩
  · have he : e = [] := by
      rw [hg] at hlen
      change e.length + 1 ≤ 1 at hlen
      exact List.eq_nil_of_length_eq_zero (by omega)
    rw [he, hg] at hactive
    exact List.perm_singleton.1 hactive
  · rw [hinv.shared.free hfree] at hactive
    cases hh : s.shared.ctlr.holder with
    | none =>
        rw [hh] at hactive
        exact hactive.eq_nil
    | some g =>
        rw [hh] at hactive
        exact List.perm_singleton.1 hactive
  · have he := hinv.hba t (by rw [hc]; rfl)
    rw [hc] at he
    have hlen : 1 ≤ e.length := by
      rw [he]
      exact Nat.le_refl 1
    have hnone := hinv.shared.ctlr.active_none (hinv.holder_none hG hlen)
    exact ⟨hinv.shared.ctlr.drv.1 hnone, hnone⟩
  · exact hinv.completes hG hc
  · exact hinv.nothing_waits (ghd_reachable_unstranded hghd) hG hhba hwaitq hidle hrej

end Agreement

/-- GHD with an idle controller. -/
def ataLift (s : GhdSys) : AtaSys Unit :=
  ⟨⟨s.shared, attached⟩, fun t => ⟨s.thr t, none⟩⟩

/-- The controller stays idle while nothing is started. -/
theorem ataLift_next {s : GhdSys} {gdevOf : Gcmd → GdevId} {drvOf : Gcmd → AtaDrv}
    (h : Reachable AtaInit (AtaStep stuckDev gdevOf drvOf) (ataLift s)) (t : Tid) {x : Act}
    {c : Ctl} (hl : Local gdevOf s.shared (s.thr t) x c)
    (hr : (x.run gdevOf t s.shared).isSome = true) (hout : callOf (s.thr t) = none)
    (hstatus : ∀ k, callOf c ≠ some (.status k)) :
    Reachable AtaInit (AtaStep stuckDev gdevOf drvOf) (ataLift (s.next gdevOf t x c)) := by
  have hnot : ∀ k, c ≠ .hba (.status k) := fun k hk => hstatus k (congrArg callOf hk)
  refine h.tail ⟨t, ⟨c, none⟩, .ghd (not_hba hout) (fun k _ hk => absurd hk (hnot k)) hl
    (GhdSys.run_next hr), ?_⟩
  funext u
  unfold ataLift GhdSys.next
  dsimp only
  by_cases hu : u = t
  · rw [hu, Function.update_self, Function.update_self]
  · rw [Function.update_of_ne hu, Function.update_of_ne hu]

/-- A request has been taken off the wait queue. -/
def ghdTaken : GhdSys :=
  ghdStart.after id
    [(0, .call 5, .xportLink 5 false), (0, .link 5 false, .xportShuffle 5 false),
      (0, .promote 5, .xportShuffle 5 false), (0, .skip, .xportShuffled 5 false),
      (0, .lockHba, .hold (.exit none) false),
      (0, .take 5, .hba (.start (.exit none) false 5 false))]

theorem ataLift_taken :
    Reachable AtaInit (AtaStep stuckDev id fun _ => ⟨0⟩) (ataLift ghdTaken) := by
  have h0 : Reachable AtaInit (AtaStep stuckDev id fun _ => ⟨0⟩) (ataLift ghdStart) :=
    Reachable.initial ⟨ghdStart_init, fun _ => rfl, ⟨rfl, fun _ => rfl, rfl, rfl⟩,
      ⟨rfl, rfl, rfl, rfl, rfl⟩⟩
  have h1 := ataLift_next h0 0 (.call 5) rfl rfl nofun
  have h2 := ataLift_next h1 0 (.xportLink 5 false) rfl rfl nofun
  have h3 := ataLift_next h2 0 (.xportShuffle 5 false) rfl rfl nofun
  have h4 := ataLift_next h3 0 (.xportShuffled 5 false rfl) rfl rfl nofun
  have h5 := ataLift_next h4 0 (.tryenter 5) rfl rfl nofun
  exact ataLift_next h5 0 (.holdTake (.exit none) false 5) rfl rfl nofun

/-- The controller has started it. -/
def ataStarted : AtaSys Unit :=
  let k := HbaCall.start (.exit none) false 5 false
  let r := hbaCall stuckDev (fun _ => ⟨0⟩) attached k
  ⟨⟨ghdTaken.shared, r.1⟩, Function.update (ataLift ghdTaken).thr 0 ⟨.hba k, some r.2⟩⟩

theorem ata_under_ghd_started :
    ataStarted.shared.ctlr.holder = some 5 ∧ UnderGhd stuckDev id ataStarted :=
  ⟨rfl, ata_under_ghd (ataLift_taken.tail ⟨0, _, .call _ _ _, rfl⟩)⟩

end Ata

end Sil3112
