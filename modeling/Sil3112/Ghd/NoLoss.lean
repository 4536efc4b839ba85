import Sil3112.Ghd.Places

/-!
# No Request Is Lost or Duplicated

The control flow meets the bookkeeping: every edge of `Local` changes the view
of its thread as its step demands, and keeps what the control point knows of
the request it is about. The rule for threads then gives the invariant in
every reachable state, for any order of steps.

## Main definitions

* `Ctl.view`: The view of a control point.
* `Ctl.Knows`: What a control point knows of the request it is about.
* `GhdInv`: The invariant of the whole system.
* `Spot`, `Occupies`: The places a request can be at, read off a state.

## Theorems

* `Local.view`: Every edge changes the view as its step demands.
* `Local.knows`: Every edge keeps what its control point knows.
* `ghd_reachable_inv`: The invariant holds in every reachable state.
* `ghd_no_loss`: Every accepted request is at exactly one place, and every
  transport is called back at most once, as its kind demands.
-/

namespace Sil3112

namespace Ghd

open Transition

namespace Poll

/-- What has become of the awaited request. -/
def ownHands (p : Poll) : List (Gcmd × Hand) :=
  match p.gotIt, p.req with
  | true, .transport g => [(g, .taken)]
  | true, .tran (.abort g) => [(g, .holding)]
  | _, _ => []

/-- The awaited request, once found, and the hold queue. -/
def hands (p : Poll) : List (Gcmd × Hand) :=
  p.ownHands ++ p.holdq.map (fun g => (g, Hand.holding))

/-- The polled request that is still awaited. -/
def serving (p : Poll) : Option Gcmd :=
  match p.gotIt, p.req with
  | false, .transport g => some g
  | _, _ => none

end Poll

/-- The polled request a thread has on its way out of the driver. -/
def afterHands : Option Gcmd → List (Gcmd × Hand)
  | none => []
  | some g => [(g, .taken)]

namespace Caller

/-- The polled request a function called by `k` serves. -/
def serving : Caller → Option Gcmd
  | poll p => p.serving
  | _ => none

/-- Whether a function called by `k` runs in poll mode. -/
def pollmode : Caller → Bool
  | poll _ => true
  | tran _ => true
  | _ => false

/-- What is in the hands of a thread inside a function called by `k`. -/
def hands : Caller → List (Gcmd × Hand)
  | exit after => afterHands after
  | poll p => p.hands
  | _ => []

/-- The view of a thread inside a function called by `k`, which has the HBA
    mutex; `w` says whether it has the wait queue mutex too. -/
def view (w : Bool) (k : Caller) : View :=
  ⟨true, w, k.serving, k.pollmode, k.hands⟩

end Caller

/-- Who called the function that called the HBA driver. -/
def HbaCall.caller : HbaCall → Caller
  | .start k _ _ _ => k
  | .status k => k
  | .timeout k _ _ _ _ => k

/-- One more request in a thread's hands. -/
def View.add (v : View) (g : Gcmd) (k : Hand) : View :=
  { v with hands := (g, k) :: v.hands }

/-- The view of a control point. -/
def Ctl.view : Ctl → View
  | .idle => ⟨false, false, none, false, []⟩
  | .xportHba g => ⟨false, false, none, false, [(g, .calling)]⟩
  | .xportPollmode g => ⟨true, false, none, false, [(g, .calling)]⟩
  | .xportLink g polled => ⟨polled, false, none, polled, [(g, .calling)]⟩
  | .xportShuffle g polled => ⟨polled, true, if polled then some g else none, polled, []⟩
  | .xportShuffled g polled => ⟨polled, true, if polled then some g else none, polled, []⟩
  | .xportDrop => ⟨false, true, none, false, []⟩
  | .xportDone g => ⟨false, false, none, false, [(g, .taken)]⟩
  | .hold k _ => k.view true
  | .holdRet k _ => k.view true
  | .exitEnter after => ⟨true, false, none, false, afterHands after⟩
  | .exitWaitq after => ⟨false, true, none, false, afterHands after⟩
  | .hba c => c.caller.view false
  | .del c _ => c.caller.view false
  | .delShuffle c g => (c.caller.view true).add g .completing
  | .stop c g => (c.caller.view false).add g .completing
  | .put c g => (c.caller.view false).add g .completing
  | .intr _ => ⟨true, false, none, false, []⟩
  | .softTimer => ⟨false, false, none, false, []⟩
  | .softThaw => ⟨false, false, none, false, []⟩
  | .timer k => k.view false
  | .timerRet k => k.view false
  | .newstate k _ _ _ => k.view false
  | .scan k _ _ _ => k.view false
  | .newstateRet k => k.view false
  | .tranPollmode _ => ⟨true, false, none, false, []⟩
  | .tran _ => ⟨true, false, none, true, []⟩
  | .poll p => (Caller.poll p).view false
  | .pollWaitq p => (Caller.poll p).view false
  | .pollDrain p => (Caller.poll p).view false
  | .pollCheck p => (Caller.poll p).view false
  | .pollReturn p => (Caller.poll p).view false
  | .abortPut g => ⟨true, false, none, true, [(g, .holding)]⟩
  | .pollmodeExit after => ⟨true, false, none, true, afterHands after⟩
  | .pollmodeTest after => ⟨true, false, none, false, afterHands after⟩
  | .pollmodeTrigger after => ⟨true, false, none, false, afterHands after⟩
  | .process => ⟨false, false, none, false, []⟩
  | .callback g => ⟨false, false, none, false, [(g, .popped)]⟩

/-- The request a call of an HBA driver function is for, while it has not been
    completed, and where it is. An early action has already changed the state
    of its request. -/
def HbaCall.Knows (G : Ghost) (a : Ccc) : HbaCall → Prop
  | .start _ _ g done => done = false → G.place g = .hba
  | .status _ => True
  | .timeout _ (some g) _ x done =>
    done = false → x.Early → G.place g = .wait ∧ a.cmdState g ≠ .waitq
  | .timeout _ none _ x _ => ¬ x.Early

/-- The call is for this request, and has not seen it completed. -/
def HbaCall.Pending (g : Gcmd) : HbaCall → Prop
  | .start _ _ g' done => g' = g ∧ done = false
  | .status _ => False
  | .timeout _ g' _ x done => g' = some g ∧ x.Early ∧ done = false

/-- What a control point knows of the request it is about. -/
def Ctl.Knows (G : Ghost) (a : Ccc) : Ctl → Prop
  | .hba c => c.Knows G a
  | .del c g => c.Knows G a ∧ ¬ c.Pending g ∧
      (G.place g = .wait ∧ a.cmdState g ≠ .waitq ∨ G.place g = .hba)
  | .delShuffle c _ => c.Knows G a
  | .stop c _ => c.Knows G a
  | .put c _ => c.Knows G a
  | .newstate _ (some g) _ x => x.Early → G.place g = .wait
  | .newstate _ none _ x => ¬ x.Early
  | .pollReturn p => p.gotIt = true ∨ p.Timed
  | _ => True

@[simp] theorem HbaCall.caller_completed (c : HbaCall) (g : Gcmd) :
    (c.completed g).caller = c.caller := by
  cases c <;> rfl

namespace Poll

/-- A thread that waits for no request in particular has none of its own. -/
theorem view_tran {r : TranReq} (hr : ∀ g, r ≠ .abort g) (got : Bool) (q : List Gcmd) :
    (⟨.tran r, got, q⟩ : Poll).serving = none ∧
      (⟨.tran r, got, q⟩ : Poll).hands = q.map (fun g => (g, Hand.holding)) := by
  cases r with
  | abort g => exact absurd rfl (hr g)
  | abortLun d | resetTarget d | resetBus d => cases got <;> exact ⟨rfl, rfl⟩

theorem check_eq (p : Poll) (a : Ccc) : ∃ b, p.check a = { p with gotIt := b } ∧
    (b = p.gotIt ∨ ∃ r, p.req = .tran r ∧ ∀ g, r ≠ .abort g) := by
  rcases p with ⟨r, got, q⟩
  cases r with
  | transport g => exact ⟨got, rfl, Or.inl rfl⟩
  | tran r =>
      cases r with
      | abort g => exact ⟨got, rfl, Or.inl rfl⟩
      | abortLun d | resetTarget d | resetBus d =>
          exact ⟨_, rfl, Or.inr ⟨_, rfl, fun _ => nofun⟩⟩

/-- Looking at a counter changes nothing for a thread that waits for a request
    of its own. -/
theorem view_check (p : Poll) (a : Ccc) :
    (p.check a).serving = p.serving ∧ (p.check a).hands = p.hands := by
  rcases p.check_eq a with ⟨b, he, hb | ⟨r, hreq, hr⟩⟩
  · rw [he, hb]
    exact ⟨rfl, rfl⟩
  · rw [he]
    rcases p with ⟨r', got, q⟩
    simp only at hreq
    rw [hreq]
    rcases view_tran hr b q with ⟨h1, h2⟩
    rcases view_tran hr got q with ⟨h3, h4⟩
    exact ⟨h1.trans h3.symm, h2.trans h4.symm⟩

theorem serving_ne {p : Poll} {g : Gcmd} (h : p.target ≠ some g) : p.serving ≠ some g := by
  rcases p with ⟨r, got, q⟩
  intro hs
  unfold serving at hs
  split at hs
  · next g' hgot hreq =>
    cases hs
    simp only at hreq
    exact h (by rw [target, hreq])
  · cases hs

end Poll

/-- Every edge of the control flow changes the view of its thread as its step
    demands. A polling thread that is handed its own request needs to know
    that it does not have it already. -/
theorem Local.view {gdevOf : Gcmd → GdevId} {G : Ghost} {a : Ccc} {c c' : Ctl} {x : Act}
    (h : Local gdevOf a c x c') (hk : c.Knows G a)
    (hget : ∀ g own k, x = .doneqGet g own k → ∀ k', (g, k') ∉ c.view.hands) :
    ViewStep x c.view c'.view := by
  cases h with
  | call g | callPolled g => exact ⟨rfl, rfl, rfl, rfl, List.Perm.refl _, trivial⟩
  | xportHba | softThaw | intr | tryenter | softTimer | tranEnter =>
      exact ⟨rfl, rfl, rfl, rfl, rfl, rfl, rfl⟩
  | xportPollmode | tranPollmode => exact ⟨rfl, rfl, rfl, rfl, rfl, rfl⟩
  | xportLink g polled =>
      refine ⟨rfl, rfl, rfl, rfl, List.Perm.refl _, fun hp => ?_⟩
      exact ⟨hp, hp, rfl⟩
  | xportShuffle | xportDrop | delShuffle | delShuffled | xportPoll | exitWaitq
  | exitWaitqPolled | intrAgain | pollHeld =>
      exact ⟨rfl, rfl, rfl, rfl, rfl, rfl⟩
  | xportDone | callback => exact ⟨rfl, rfl, rfl, rfl, List.Perm.refl _, trivial⟩
  | xportShuffled | tryenterFail | holdStop | completeEarly | intrStatus | intrProcessed | soft
  | softFrozen | timerNone | timerSoft | timerPoll | actionTaken | incomplete | newstateSoft
  | newstatePoll | newstateTran | abortOther | abortLun | resetTarget | resetBus | pollStop
  | pollStatus | pollQuiet | pollProcessed | drainEmpty | pollmodeEmpty | pollmodeNonempty
  | processQuit | startAccept | exitEnter | queueHold | freeze | stop | intrWaitq | pollWaitq
  | timeout | timerGet | timerBad | newstate | newstateAvoid | actionFailed | scan | abortEarly
  | abortActive | returnAbort | pollmodeTrigger | process =>
      exact ⟨rfl, rfl, rfl, rfl, rfl, trivial⟩
  | complete c g h =>
      simp only [Ctl.view, HbaCall.caller_completed]
      exact ⟨rfl, rfl, rfl, rfl, rfl, trivial⟩
  | holdTake | exitHba | intrExit | pollmodeExit => exact ⟨rfl, rfl, rfl, rfl, rfl, rfl, rfl⟩
  | startReject => exact ⟨rfl, rfl, rfl, rfl, rfl, rfl⟩
  | del | processPop => exact ⟨rfl, rfl, rfl, rfl, List.Perm.refl _, by first | rfl | trivial⟩
  | put => exact ⟨rfl, rfl, rfl, rfl, List.Perm.refl _, Or.inl rfl⟩
  | abortPut => exact ⟨rfl, rfl, rfl, rfl, List.Perm.refl _, Or.inr rfl⟩
  | pollCheck p =>
      rcases p.view_check a with ⟨hs, hh⟩
      exact ⟨rfl, rfl, hs, rfl, hh, trivial⟩
  | returnPut r got g rest =>
      refine ⟨rfl, rfl, rfl, rfl, ?_, Or.inr rfl⟩
      exact List.perm_middle
  | returnTransport g got =>
      -- It returns when it has been handed the request.
      have hgot : got = true := hk.resolve_right id
      rw [hgot]
      exact ⟨rfl, rfl, rfl, rfl, rfl, trivial⟩
  | returnTran r got hr =>
      cases r with
      | abort g =>
          rw [hr g rfl]
          exact ⟨rfl, rfl, rfl, rfl, rfl, trivial⟩
      | abortLun d | resetTarget d | resetBus d =>
          cases got <;> exact ⟨rfl, rfl, rfl, rfl, rfl, trivial⟩
  | drainOther p g hg =>
      -- A request of somebody else is held back, behind those held already.
      refine ⟨rfl, rfl, rfl, rfl, ?_, rfl, Or.inr ⟨rfl, Poll.serving_ne hg⟩⟩
      simp only [Act.HandStep, Ctl.view, Caller.view, Caller.hands, Poll.hands, l2Add,
        List.map_append, List.map_cons, List.map_nil, ← List.append_assoc]
      exact List.perm_append_singleton _ _
  | drainOwn p g hg =>
      rcases p with ⟨r, got, q⟩
      have hown := hget g _ _ rfl
      -- A thread that has been handed its request cannot find it on the done queue again.
      cases got with
      | false =>
          cases r with
          | transport g' =>
              cases hg
              exact ⟨rfl, rfl, rfl, rfl, List.Perm.refl _, rfl, Or.inl ⟨rfl, rfl⟩⟩
          | tran r =>
              cases r with
              | abort g' =>
                  cases hg
                  refine ⟨rfl, rfl, rfl, rfl, List.Perm.refl _, rfl, Or.inr ⟨rfl, fun hs => ?_⟩⟩
                  cases hs
              | abortLun d | resetTarget d | resetBus d => cases hg
      | true =>
          cases r with
          | transport g' =>
              cases hg
              exact absurd List.mem_cons_self (hown .taken)
          | tran r =>
              cases r with
              | abort g' =>
                  cases hg
                  exact absurd List.mem_cons_self (hown .holding)
              | abortLun d | resetTarget d | resetBus d => cases hg

section Knowledge

variable {gdevOf : Gcmd → GdevId} {G G' : Ghost} {a a' : Ccc} {t : Tid} {c c' : Ctl} {x : Act}

theorem HbaCall.Knows.mono {c : HbaCall} (hu : Undisturbed G a G' a') (h : c.Knows G a) :
    c.Knows G' a' := by
  cases c with
  | start k rc g done => exact fun hd => (hu g).1 (h hd)
  | status k => trivial
  | timeout k g d x done =>
      cases g with
      | none => exact h
      | some g =>
          intro hd hx
          -- An early action is for a request that waits, and only the HBA mutex moves those.
          rcases h hd hx with ⟨hw, hs⟩
          exact ⟨((hu g).2 hw).1, ((hu g).2 hw).2 hs⟩

theorem Ctl.Knows.mono (hu : Undisturbed G a G' a') (h : c.Knows G a) : c.Knows G' a' := by
  cases c with
  | hba c | delShuffle c | stop c | put c => exact HbaCall.Knows.mono hu h
  | del c g =>
      refine ⟨HbaCall.Knows.mono hu h.1, h.2.1, ?_⟩
      rcases h.2.2 with hw | hb
      · exact Or.inl ⟨((hu g).2 hw.1).1, ((hu g).2 hw.1).2 hw.2⟩
      · exact Or.inr ((hu g).1 hb)
  | newstate k g d x =>
      cases g with
      | none => exact h
      | some g => exact fun hx => ((hu g).2 (h hx)).1
  | pollReturn p => exact h
  | _ => trivial

/-- A control point that knows something has the HBA mutex. -/
theorem Ctl.knows_of_view (h : c.view.hba = false) : c.Knows G a := by
  cases c with
  | hba | del | delShuffle | stop | put | newstate | pollReturn => cases h
  | _ => trivial

theorem Local.placeOk (h : Local gdevOf a c x c') (hk : c.Knows G a) : x.PlaceOk G a := by
  cases h with
  | startReject k rc g => exact hk rfl
  | del c g => exact hk.2.2
  | _ => trivial

theorem HbaCall.knows_completed {c : HbaCall} {g : Gcmd} (hk : c.Knows G a)
    (hg : G.place g = .hba) : (c.completed g).Knows G a ∧ ¬ (c.completed g).Pending g := by
  cases c with
  | start k rc g' done =>
      simp only [completed, Knows, Pending, Bool.or_eq_false_iff, decide_eq_false_iff_not]
      exact ⟨fun hd => hk hd.1, fun hp => hp.2.2 hp.1⟩
  | status k => exact ⟨trivial, id⟩
  | timeout k g' d x done =>
      refine ⟨hk, ?_⟩
      rintro ⟨rfl, hx, hd⟩
      rw [(hk hd hx).1] at hg
      cases hg

/-- Completing a request does not change what is known of another. -/
theorem HbaCall.knows_delete {c : HbaCall} {g : Gcmd} (hk : c.Knows G a) (hp : ¬ c.Pending g)
    (hr : (Act.delete g).run gdevOf t a = some a') :
    c.Knows (G.after t (.delete g)) a' := by
  have hpl : ∀ y, y ≠ g → (G.after t (.delete g)).place y = G.place y := by
    intro y hy
    rw [Ghost.after_place_of_moves rfl, if_neg hy]
  cases c with
  | start k rc g' done =>
      intro hd
      rw [hpl g' (fun he => hp ⟨he, hd⟩)]
      exact hk hd
  | status k => trivial
  | timeout k g' d x done =>
      cases g' with
      | none => exact hk
      | some g' =>
          intro hd hx
          rcases Act.run_delete.1 hr with ⟨-, rfl⟩
          rw [hpl g' (fun he => hp ⟨congrArg some he, hx, hd⟩)]
          exact hk hd hx

theorem GAction.not_early_next (x : GAction) : ¬ x.nextAction.Early := by
  intro h
  cases x <;> rcases h with h | h <;> cases h

theorem timerAction_early {s : CmdState} {x : GAction} (h : timerAction s = some x)
    (hx : x.Early) : s = .waitq := by
  cases s <;> cases h <;> first | rfl | (rcases hx with hx | hx <;> cases hx)

/-- Every edge keeps what its control point knows. -/
theorem Local.knows (h : Local gdevOf a c x c') (hI : Inv gdevOf G a) (hk : c.Knows G a)
    (ho : Own G t a c.view) (hr : x.run gdevOf t a = some a') :
    c'.Knows (G.after t x) a' := by
  -- A step that moves no request leaves what is known as it is.
  have hstay : x.moves t = none → Undisturbed G a (G.after t x) a' := by
    intro hm
    refine Undisturbed.step hr (fun g p he => ?_)
    rw [hm] at he
    cases he
  cases h with
  | complete c g hg =>
      cases hr
      have hpl := (hI.hba g).2 hg
      exact ⟨(HbaCall.knows_completed hk hpl).1, (HbaCall.knows_completed hk hpl).2, Or.inr hpl⟩
  | completeEarly k g d x hx =>
      cases hr
      exact ⟨(fun hd => nomatch hd), (fun hp => nomatch hp.2.2), Or.inl (hk rfl hx)⟩
  | del c g => exact HbaCall.knows_delete hk.1 hk.2.1 hr
  | queueHold | freeze | delShuffle | delShuffled | stop =>
      exact HbaCall.Knows.mono (hstay rfl) hk
  | put c g =>
      refine HbaCall.Knows.mono (Undisturbed.step hr (fun g' p he => ?_)) hk
      cases he
      -- The request that is put on the done queue was in hand, and nothing is known of it.
      have hpl := (ho.hands g .completing).2 List.mem_cons_self
      rw [hpl]
      exact ⟨nofun, nofun⟩
  | holdTake k rc g =>
      intro _
      rw [Ghost.after_place_of_moves rfl, if_pos rfl]
  | newstate k g d x hx =>
      cases g with
      | none => exact hk
      | some g =>
          cases hr
          intro _ he
          refine ⟨hk he, ?_⟩
          simp only [Ccc.newstate, Ccc.setState, Function.update_self]
          rcases he with rfl | rfl <;> simp [GAction.nextState]
  | actionFailed k g d x done hd hx =>
      cases g with
      | none => exact x.not_early_next
      | some g => exact fun he => absurd he x.not_early_next
  | timerGet k g x hx =>
      rcases Act.run_timerGet.1 hr with ⟨-, rfl⟩
      -- Only a request that waits is timed out early.
      exact fun he => hI.state g (timerAction_early hx he)
  | abortEarly g hs =>
      cases hr
      exact fun _ => hI.state g hs
  | abortActive g hs =>
      intro he
      rcases he with he | he <;> cases he
  | abortLun d | resetTarget d | resetBus d =>
      intro he
      rcases he with he | he <;> cases he
  | pollStop p hp => exact hp
  | returnPut r got g rest => exact hk
  | _ => trivial

end Knowledge

/-- The invariant of the whole system: the shared state agrees with the
    places, and every thread's view and knowledge are right. -/
def GhdInv (gdevOf : Gcmd → GdevId) : Ghost → GhdSys → Prop :=
  Sys.Holds (Inv gdevOf) (fun G t a c => Own G t a c.view ∧ c.Knows G a)

/-- An idle thread has no mutex and no request. -/
theorem Own.idle {t : Tid} {a : Ccc} :
    Own { place := fun _ => .idle, server := none } t a Ctl.idle.view :=
  ⟨nofun, nofun, fun _ _ => iff_of_false nofun List.not_mem_nil, List.nodup_nil, nofun⟩

theorem ghd_init_inv {gdevOf : Gcmd → GdevId} {s : GhdSys} (h : GhdInit s) :
    GhdInv gdevOf { place := fun _ => .idle, server := none } s := by
  refine ⟨⟨⟨?_, ?_, ?_, ?_, ?_, ?_, ?_, ?_, ?_⟩, ?_, ?_, ?_, ?_, ?_, ?_, ?_, nofun, ?_, ?_⟩,
    fun t => ?_⟩
  · intro d g hg
    rw [(h.dev d).1] at hg
    cases hg
  · intro d
    rw [(h.dev d).1]
    exact List.nodup_nil
  · intro g hg
    rw [h.hba.1] at hg
    cases hg
  · rw [h.hba.1]
    exact List.nodup_nil
  · intro g hg
    rw [h.active] at hg
    cases hg
  · rw [h.active]
    exact List.nodup_nil
  · intro d
    rw [(h.dev d).2, h.hba.1, h.active]
    rfl
  · rw [h.hba.2, h.active]
    rfl
  · rw [h.hba.2]
    exact h.hbaMax
  · intro g
    refine iff_of_false (by simp) ?_
    rw [Waitq.Waiting, (h.dev _).1, h.hba.1]
    simp only [List.not_mem_nil, or_self, not_false_eq_true]
  · intro g
    rw [h.active]
    exact iff_of_false (by simp) List.not_mem_nil
  · intro g
    rw [h.doneq]
    exact iff_of_false (by simp) List.not_mem_nil
  · rw [h.doneq]
    exact List.nodup_nil
  · exact fun g => iff_of_true rfl (h.lent g)
  · intro g hg
    rw [h.cmdState g] at hg
    cases hg
  · intro g
    simp only [Ghost.LogOk, h.log, openTransport]
  · rw [h.log]
    trivial
  · intro g
    rw [h.log]
    exact iff_of_false id (fun hp => by rcases hp with hp | hp <;> cases hp)
  · rw [h.thr t]
    exact ⟨Own.idle, trivial⟩

/-- A step a thread takes changes its view as the step demands. A request just
    taken off the done queue was in no thread's hands. -/
theorem GhdInv.viewStep {gdevOf : Gcmd → GdevId} {G : Ghost} {s : GhdSys}
    (h : GhdInv gdevOf G s) {t : Tid} {x : Act} {a' : Ccc} {c' : Ctl}
    (hx : Local gdevOf s.shared (s.thr t) x c') (hr : x.run gdevOf t s.shared = some a') :
    ViewStep x (s.thr t).view c'.view := by
  refine hx.view (h.2 t).2 ?_
  rintro g own k rfl k' hmem
  -- A request on the done queue is at one place only, so in nobody's hands.
  rcases Act.run_doneqGet.1 hr with ⟨q, hq, -⟩
  rcases Doneq.get_eq_some hq with ⟨rest, hrest, -⟩
  exact nomatch (h.1.popped hrest).1.symm.trans (((h.2 t).1.hands g k').2 hmem)

/-- Two threads never have the HBA mutex at once. -/
theorem GhdInv.hba_unique {gdevOf : Gcmd → GdevId} {G : Ghost} {s : GhdSys}
    (h : GhdInv gdevOf G s) {t u : Tid} (ht : (s.thr t).view.hba = true)
    (hu : (s.thr u).view.hba = true) : t = u :=
  Option.some.inj (((h.2 t).1.hba ht).symm.trans ((h.2 u).1.hba hu))

/-- A thread that takes the HBA mutex finds it free. -/
theorem GhdInv.acquires {gdevOf : Gcmd → GdevId} {G : Ghost} {s : GhdSys}
    (h : GhdInv gdevOf G s) {t : Tid} {x : Act} {a' : Ccc} {c' : Ctl}
    (hx : Local gdevOf s.shared (s.thr t) x c') (hr : x.run gdevOf t s.shared = some a')
    (hc : (s.thr t).view.hba = false) (hc' : c'.view.hba = true) : s.shared.hbaMutex = none := by
  have hafter := (h.viewStep hx hr).hba
  rw [hc, hc'] at hafter
  exact (Act.frame hr).hbaFree (Act.locksHba_of_after hafter.symm)

theorem ghd_reachable_inv {gdevOf : Gcmd → GdevId} {s : GhdSys} (h : GhdReachable gdevOf s) :
    ∃ G, GhdInv gdevOf G s := by
  refine Sys.Holds.reachable (P := fun _ => True) (fun _ _ => trivial)
    (fun s₀ h0 => ⟨_, ghd_init_inv h0⟩) (fun G t s a' c' _ hl hG => ?_) h
  rcases hl with ⟨x, hx, hr⟩
  have hv := GhdInv.viewStep hG hx hr
  rcases hG with ⟨hI, hJ⟩
  rcases hJ t with ⟨ho, hk⟩
  have hp := hx.placeOk hk
  refine ⟨G.after t x, hI.step ho hv hp hr, ⟨ho.step hI hv hp hr, hx.knows hI hk ho hr⟩,
    fun u hu => ?_⟩
  -- For the other threads it is enough that the step is quiet.
  have hq := Quiet.step hI ho hv hp hr
  refine ⟨(hJ u).1.quiet hu hq, ?_⟩
  -- A thread that knows something has the HBA mutex.
  cases hb : (s.thr u).view.hba with
  | false => exact Ctl.knows_of_view hb
  | true => exact (hJ u).2.mono (hq.place u hu ((hJ u).1.hba hb))

/-- The places of a request as the driver's data structures show them. A
    request counts as with the HBA until it is on the done queue, and as
    finished once nothing is left to do but its completion callback. -/
inductive Spot where
  | devWaitq
  | hbaWaitq
  | hba
  | doneq
  | hold
  | finished

/-- Some thread has the request in its local variables. -/
def InHands (s : GhdSys) (g : Gcmd) (k : Hand) : Prop :=
  ∃ t, (g, k) ∈ (s.thr t).view.hands

/-- The request is at a place. -/
def Occupies (gdevOf : Gcmd → GdevId) (s : GhdSys) (g : Gcmd) : Spot → Prop
  | .devWaitq => g ∈ (s.shared.waitq.dev (gdevOf g)).waitq.qhead
  | .hbaWaitq => g ∈ s.shared.waitq.hba.qhead
  | .hba => g ∈ s.shared.active ∨ InHands s g .completing
  | .doneq => g ∈ s.shared.doneq.queue
  | .hold => InHands s g .holding
  | .finished => InHands s g .popped ∨ InHands s g .taken ∨ openTransport s.shared.log g = none

/-- No place has a request twice: no queue does, a device's queue has only that
    device's requests, and no two threads have the same request in hand. -/
structure Once (gdevOf : Gcmd → GdevId) (s : GhdSys) : Prop where
  dev : ∀ d, (s.shared.waitq.dev d).waitq.qhead.Nodup ∧
    ∀ g, g ∈ (s.shared.waitq.dev d).waitq.qhead → gdevOf g = d
  hba : s.shared.waitq.hba.qhead.Nodup
  active : s.shared.active.Nodup
  doneq : s.shared.doneq.queue.Nodup
  hands : ∀ t, (s.thr t).view.hands.Nodup
  apart : ∀ t u g k k', (g, k) ∈ (s.thr t).view.hands → (g, k') ∈ (s.thr u).view.hands →
    t = u ∧ k = k'

section Spots

variable {gdevOf : Gcmd → GdevId} {G : Ghost} {s : GhdSys}

/-- The place of a request as the data structures show it. The level tells the
    two wait queues apart. -/
def Ghost.spot (G : Ghost) (w : Waitq) (g : Gcmd) : Spot :=
  match G.place g with
  | .idle => .finished
  | .wait => if w.level g = 1 then .devWaitq else .hbaWaitq
  | .hba => .hba
  | .doneq => .doneq
  | .hand _ .calling => .finished
  | .hand _ .completing => .hba
  | .hand _ .holding => .hold
  | .hand _ .taken => .finished
  | .hand _ .popped => .finished

theorem GhdInv.dev_iff (h : GhdInv gdevOf G s) (g : Gcmd) :
    g ∈ (s.shared.waitq.dev (gdevOf g)).waitq.qhead ↔
      G.place g = .wait ∧ s.shared.waitq.level g = 1 := by
  rw [h.1.wait g]
  constructor
  · intro hg
    exact ⟨Or.inl hg, (h.1.waitq.dev_mem _ g hg).2⟩
  · rintro ⟨hg | hg, hl⟩
    · exact hg
    · have h2 := h.1.waitq.hba_mem g hg
      omega

theorem GhdInv.hba_iff (h : GhdInv gdevOf G s) (g : Gcmd) :
    g ∈ s.shared.waitq.hba.qhead ↔ G.place g = .wait ∧ s.shared.waitq.level g ≠ 1 := by
  rw [h.1.wait g]
  constructor
  · intro hg
    have h2 := h.1.waitq.hba_mem g hg
    exact ⟨Or.inr hg, by omega⟩
  · rintro ⟨hg | hg, hl⟩
    · exact absurd (h.1.waitq.dev_mem _ g hg).2 hl
    · exact hg

theorem GhdInv.inHands_iff (h : GhdInv gdevOf G s) (g : Gcmd) (k : Hand) :
    InHands s g k ↔ ∃ t, G.place g = .hand t k :=
  exists_congr fun t => ((h.2 t).1.hands g k).symm

theorem GhdInv.open_iff (h : GhdInv gdevOf G s) (g : Gcmd) :
    openTransport s.shared.log g = none ↔
      G.place g = .idle ∨ ∃ t, G.place g = .hand t .calling := by
  have hl := h.1.log g
  unfold Ghost.LogOk at hl
  split at hl
  · next hp => exact iff_of_true hl (Or.inl hp)
  · next t hp => exact iff_of_true hl (Or.inr ⟨t, hp⟩)
  · next t hp =>
    simp only [hl, hp, reduceCtorEq, Place.hand.injEq, and_false, exists_false, or_self]
  · next t hp =>
    simp only [hl, hp, reduceCtorEq, Place.hand.injEq, and_false, exists_false, or_self]
  · next t hp =>
    simp only [hl.1, hp, reduceCtorEq, Place.hand.injEq, and_false, exists_false, or_self]
  all_goals
    next hp =>
    rcases hl with ⟨b, hb, -⟩
    simp only [hb, hp, reduceCtorEq, Place.hand.injEq, and_false, exists_false, or_self]

/-- The data structures show a request at its place and nowhere else. -/
theorem GhdInv.occupies_iff (h : GhdInv gdevOf G s) (g : Gcmd) (p : Spot) :
    Occupies gdevOf s g p ↔ p = G.spot s.shared.waitq g := by
  have hact : g ∈ s.shared.active ↔ G.place g = .hba := (h.1.hba g).symm
  have hdone : g ∈ s.shared.doneq.queue ↔ G.place g = .doneq := (h.1.doneq g).symm
  cases hpl : G.place g with
  | wait =>
      by_cases hl : s.shared.waitq.level g = 1
      · cases p <;> simp only [Occupies, Ghost.spot, h.dev_iff, h.hba_iff, h.inHands_iff,
          h.open_iff, hact, hdone, hpl, hl, if_true, reduceCtorEq, not_true, and_false, and_self,
          exists_false, or_self, ne_eq]
      · cases p <;> simp only [Occupies, Ghost.spot, h.dev_iff, h.hba_iff, h.inHands_iff,
          h.open_iff, hact, hdone, hpl, hl, if_false, reduceCtorEq, not_false_eq_true, and_false,
          and_self, exists_false, or_self, ne_eq]
  | idle | hba | doneq =>
      cases p <;> simp only [Occupies, Ghost.spot, h.dev_iff, h.hba_iff, h.inHands_iff,
        h.open_iff, hact, hdone, hpl, reduceCtorEq, false_and, exists_false, or_self, true_or,
        or_true]
  | hand t k =>
      cases k <;> cases p <;> simp only [Occupies, Ghost.spot, h.dev_iff, h.hba_iff,
        h.inHands_iff, h.open_iff, hact, hdone, hpl, reduceCtorEq, Place.hand.injEq, false_and,
        and_false, and_true, exists_false, exists_eq', or_self, true_or, or_true]

theorem GhdInv.once (h : GhdInv gdevOf G s) : Once gdevOf s where
  dev := fun d => ⟨h.1.waitq.dev_nodup d, fun g hg => (h.1.waitq.dev_mem d g hg).1⟩
  hba := h.1.waitq.hba_nodup
  active := h.1.waitq.act_nodup
  doneq := h.1.nodup
  hands := fun t => (h.2 t).1.nodup
  apart := fun t u g k k' ht hu => by
    have hpt := ((h.2 t).1.hands g k).2 ht
    have hpu := ((h.2 u).1.hands g k').2 hu
    rw [hpt, Place.hand.injEq] at hpu
    exact hpu

end Spots

/-- GHD neither loses nor duplicates a request. In every reachable state, for
    any order of steps, every request is at exactly one place and is there
    once; a request that was never accepted counts as finished. The history is
    matched: every callback answers a transport that had not been answered,
    and has `do_callback` false exactly if that transport was polled. -/
theorem ghd_no_loss (gdevOf : Gcmd → GdevId) (s : GhdSys) (h : GhdReachable gdevOf s) :
    (∀ g, ∃! p, Occupies gdevOf s g p) ∧ Once gdevOf s ∧ Matched s.shared.log := by
  rcases ghd_reachable_inv h with ⟨G, hG⟩
  refine ⟨fun g => ⟨G.spot s.shared.waitq g, (hG.occupies_iff g _).2 rfl, fun p hp => ?_⟩,
    hG.once, hG.1.matched⟩
  exact (hG.occupies_iff g p).1 hp

/-- A request just linked on its device's queue. -/
def ghdLinked : GhdSys :=
  ghdStart.after id
    [(0, .call 5, .xportLink 5 false), (0, .link 5 false, .xportShuffle 5 false)]

theorem ghdLinked_reachable : GhdReachable id ghdLinked :=
  (ghdStart_reachable id).after _ ⟨.call 5, rfl, .xportLink 5 false, rfl, trivial⟩

theorem ghd_no_loss_linked :
    (∀ g, ∃! p, Occupies id ghdLinked g p) ∧ Once id ghdLinked ∧ Matched ghdLinked.shared.log :=
  ghd_no_loss id ghdLinked ghdLinked_reachable

end Ghd

end Sil3112
