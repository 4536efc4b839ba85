import Sil3112.Ghd.Doneq
import Sil3112.Ghd.Waitq

/-!
# The HBA Instance

The state of one HBA instance (`ccc_t`) and what one step of a thread does to
it. A step is the code from one mutex operation to the next; what a thread
reads and writes without a mutex between two of them belongs to the step
before.

Three components are not fields of the source's structure. `active` is what
the HBA driver has been handed and not yet completed. `lent` says whether a
target driver has given a request to `sol11ghd_transport` and not got it back
through its completion callback; a target driver transports a request again
only then. `log` is the history of the calls that cross the interface, newest
first.

Time is left open: any request on the timer list may be found expired, and a
frozen queue may be found thawed.

## Main definitions

* `CmdState`, `GAction`: The request states and the recovery actions.
* `Event`: A call across the interface.
* `Ccc`: The state of the instance.
* `Act`: The steps.
* `Act.run`: What a step does, `none` where it cannot be taken now.

## Theorems

* `lockHba_eq_some`, `lockWaitq_eq_some`: A mutex is entered when free.
-/

namespace Sil3112

namespace Ghd

/-- A thread, interrupt handlers and timer callouts included. -/
abbrev Tid := Nat

/-- `cmdstate_t` -/
inductive CmdState where
  | idle
  | waitq
  | active
  | doneq
  | abortingCmd
  | abortingDev
  | resettingDev
  | resettingBus
  | hung
  deriving DecidableEq

namespace CmdState

/-- The enumeration value. -/
def num : CmdState → Nat
  | idle => 0
  | waitq => 1
  | active => 2
  | doneq => 3
  | abortingCmd => 4
  | abortingDev => 5
  | resettingDev => 6
  | resettingBus => 7
  | hung => 8

/-- `ghd_timeout_table`, as `sol11ghd_timer_init` fills it in. -/
def timeout : CmdState → Nat
  | abortingCmd => 3
  | abortingDev => 3
  | resettingDev => 5
  | resettingBus => 10
  | hung => 60
  | _ => 0

/-- `GCMD_UPDATE_STATE`: states only go up. -/
def update (s new : CmdState) : CmdState :=
  if s.num < new.num then new else s

end CmdState

/-- `gact_t` -/
inductive GAction where
  | earlyTimeout
  | earlyAbort
  | abortCmd
  | abortDev
  | resetTarget
  | resetBus
  | incomplete
  deriving DecidableEq

namespace GAction

/-- `next_state` of `sol11ghd_timer_newstate`. -/
def nextState : GAction → CmdState
  | earlyTimeout => .doneq
  | earlyAbort => .doneq
  | abortCmd => .abortingCmd
  | abortDev => .abortingDev
  | resetTarget => .resettingDev
  | resetBus => .resettingBus
  | incomplete => .hung

/-- `next_action` of `sol11ghd_timer_newstate`. -/
def nextAction : GAction → GAction
  | earlyTimeout => abortCmd
  | earlyAbort => abortCmd
  | abortCmd => abortDev
  | abortDev => resetTarget
  | resetTarget => resetBus
  | resetBus => incomplete
  | incomplete => incomplete

/-- The actions taken on a request that has not been started. -/
def Early (x : GAction) : Prop :=
  x = earlyTimeout ∨ x = earlyAbort

end GAction

/-- The switch of `sol11ghd_timer_poll`: the action an expired request is due
    for, `none` in the states that are not supposed to happen. -/
def timerAction : CmdState → Option GAction
  | .idle => none
  | .doneq => none
  | .waitq => some .earlyTimeout
  | .active => some .abortCmd
  | .abortingCmd => some .abortDev
  | .abortingDev => some .resetTarget
  | .resettingDev => some .resetBus
  | .resettingBus => some .incomplete
  | .hung => some .incomplete

/-- A call across the interface: `sol11ghd_transport` accepting a request,
    `sol11ghd_complete`, and `ccc_hba_complete` with its `do_callback`. -/
inductive Event where
  | transport (g : Gcmd) (polled : Bool)
  | complete (g : Gcmd)
  | callback (g : Gcmd) (doCallback : Bool)
  deriving DecidableEq

/-- `ccc_t`, with the `cmd_state` of every request. -/
structure Ccc where
  waitq : Waitq
  doneq : Doneq Gcmd
  cmdState : Gcmd → CmdState
  activel : List Gcmd
  hbaMutex : Option Tid
  waitqMutex : Option Tid
  timeoutPending : Bool
  active : List Gcmd
  lent : Gcmd → Bool
  startRejected : Bool
  log : List Event

/-- Why a thread has a request in its hands, off every queue. -/
inductive Hand where
  | calling
  | completing
  | holding
  | taken
  | popped
  deriving DecidableEq

/-- The steps. -/
inductive Act where
  | skip
  | call (g : Gcmd)
  | lockHba
  | lockHbaSoft
  | unlockHba
  | lockWaitq
  | unlockWaitq
  | link (g : Gcmd) (polled : Bool)
  | promote (d : GdevId)
  | take (g : Gcmd)
  | accept
  | reject (g : Gcmd)
  | delete (g : Gcmd)
  | stop (g : Gcmd)
  | doneqPut (g : Gcmd) (k : Hand)
  | doneqGet (g : Gcmd) (own : Bool) (k : Hand)
  | pollmodeEnter
  | pollmodeClear
  | trigger
  | process
  | pop (g : Gcmd)
  | callback (g : Gcmd) (doCallback : Bool)
  | timeout
  | timerGet (g : Gcmd)
  | timerStop (g : Gcmd)
  | newstate (g : Option Gcmd) (x : GAction)
  | retract (g : Option Gcmd) (x : GAction)
  | mark (g : Option Gcmd) (d : GdevId) (x : GAction)
  | queueHold (b : Bool)
  | freeze

namespace Ccc

/-- `mutex_enter(&cccp->ccc_hba_mutex)` -/
def lockHba (a : Ccc) (t : Tid) : Option Ccc :=
  if a.hbaMutex = none then some { a with hbaMutex := some t } else none

/-- `mutex_enter(&cccp->ccc_waitq_mutex)` -/
def lockWaitq (a : Ccc) (t : Tid) : Option Ccc :=
  if a.waitqMutex = none then some { a with waitqMutex := some t } else none

/-- Set one request's `cmd_state`. -/
def setState (a : Ccc) (g : Gcmd) (s : CmdState) : Ccc :=
  { a with cmdState := Function.update a.cmdState g s }

theorem lockHba_eq_some {a a' : Ccc} {t : Tid} :
    a.lockHba t = some a' ↔ a.hbaMutex = none ∧ a' = { a with hbaMutex := some t } := by
  unfold lockHba
  by_cases h : a.hbaMutex = none
  · simp only [h, if_true, Option.some.injEq, true_and, eq_comm]
  · simp only [h, if_false, reduceCtorEq, false_and]

theorem lockWaitq_eq_some {a a' : Ccc} {t : Tid} :
    a.lockWaitq t = some a' ↔ a.waitqMutex = none ∧ a' = { a with waitqMutex := some t } := by
  unfold lockWaitq
  by_cases h : a.waitqMutex = none
  · simp only [h, if_true, Option.some.injEq, true_and, eq_comm]
  · simp only [h, if_false, reduceCtorEq, false_and]

theorem map_lockHba_eq_some {a a' : Ccc} {t : Tid} {f : Ccc → Ccc} :
    (a.lockHba t).map f = some a' ↔
      a.hbaMutex = none ∧ a' = f { a with hbaMutex := some t } := by
  unfold lockHba
  by_cases h : a.hbaMutex = none
  · simp only [h, if_true, Option.map_some, Option.some.injEq, true_and, eq_comm]
  · simp only [h, if_false, Option.map_none, reduceCtorEq, false_and]

theorem map_lockWaitq_eq_some {a a' : Ccc} {t : Tid} {f : Ccc → Ccc} :
    (a.lockWaitq t).map f = some a' ↔
      a.waitqMutex = none ∧ a' = f { a with waitqMutex := some t } := by
  unfold lockWaitq
  by_cases h : a.waitqMutex = none
  · simp only [h, if_true, Option.map_some, Option.some.injEq, true_and, eq_comm]
  · simp only [h, if_false, Option.map_none, reduceCtorEq, false_and]

end Ccc

namespace Ccc

variable (gdevOf : Gcmd → GdevId)

/-- The part of `sol11ghd_timer_newstate` before the HBA's action function is
    called: the request, if there is one, changes state, and its timer is
    restarted where the table has a time for the new state. -/
def newstate (a : Ccc) (g : Option Gcmd) (x : GAction) : Ccc :=
  match g with
  | none => a
  | some g => { a.setState g x.nextState with
      activel := if x.nextState.timeout ≠ 0 then l2Add a.activel g else a.activel }

/-- The part of `sol11ghd_timer_newstate` after a failed action: the timer
    that was restarted for it is stopped. -/
def retract (a : Ccc) (g : Option Gcmd) (x : GAction) : Ccc :=
  match g with
  | none => a
  | some g => { a with
      activel := if x.nextState.timeout ≠ 0 then l2Delete a.activel g else a.activel }

/-- The scan at the end of `sol11ghd_timer_newstate`, for one other request on
    the timer list: a request beyond the wait queues that the action affected
    as well takes on its state. -/
def markState (g : Option Gcmd) (d : GdevId) (x : GAction) (y : Gcmd) (s : CmdState) :
    CmdState :=
  let sameDev := g.any (fun g' => decide (gdevOf g' = gdevOf y)) || decide (gdevOf y = d)
  if s.num ≤ CmdState.waitq.num then s
  else match x with
    | .abortDev => if sameDev then s.update .abortingDev else s
    | .resetTarget => if sameDev then s.update .resettingDev else s
    | .resetBus => s.update .resettingBus
    | _ => s

/-- The whole scan. -/
def mark (a : Ccc) (g : Option Gcmd) (d : GdevId) (x : GAction) : Ccc :=
  { a with cmdState := fun y =>
      if y ∈ a.activel then markState gdevOf g d x y (a.cmdState y) else a.cmdState y }

/-- `GHD_TIMER_STOP_INLINE` -/
def timerStop (a : Ccc) (g : Gcmd) : Ccc :=
  { a with activel := l2Delete a.activel g }

/-- Marking never makes a request look as if it were waiting. -/
theorem markState_waitq {g : Option Gcmd} {d : GdevId} {x : GAction} {y : Gcmd} {s : CmdState}
    (h : markState gdevOf g d x y s = .waitq) : s = .waitq := by
  have hup : ∀ new : CmdState, new ≠ .waitq → s.update new = .waitq → s = .waitq := by
    intro new hnew hu
    unfold CmdState.update at hu
    split at hu
    · exact absurd hu hnew
    · exact hu
  unfold markState at h
  simp only at h
  split at h
  · exact h
  · split at h
    · split at h
      · exact hup _ (by decide) h
      · exact h
    · split at h
      · exact hup _ (by decide) h
      · exact h
    · exact hup _ (by decide) h
    · exact h

end Ccc

/-- One step of thread `t`. A step that enters a mutex is only possible while
    the mutex is free, and one that takes a request off a queue only when that
    request is the one the code would take. -/
def Act.run (gdevOf : Gcmd → GdevId) (t : Tid) : Act → Ccc → Option Ccc
  | .skip, a => some a
  -- The target driver calls `sol11ghd_transport`.
  | .call g, a =>
    if a.lent g then none else some { a with lent := Function.update a.lent g true }
  | .lockHba, a => a.lockHba t
  -- `ghd_timeout_softintr` enters the HBA mutex and clears the pending flag.
  | .lockHbaSoft, a => (a.lockHba t).map fun a => { a with timeoutPending := false }
  | .unlockHba, a => some { a with hbaMutex := none }
  | .lockWaitq, a => a.lockWaitq t
  | .unlockWaitq, a => some { a with waitqMutex := none }
  -- `sol11ghd_transport` enters the wait queue mutex and links the request.
  | .link g polled, a => (a.lockWaitq t).map fun a =>
    { a.setState g .waitq with
      waitq := a.waitq.link gdevOf g
      activel := l2Add a.activel g
      log := .transport g polled :: a.log }
  | .promote d, a => (a.waitq.shuffleUp d).map fun w => { a with waitq := w }
  -- The request is taken, the wait queue mutex dropped, and `ccc_hba_start` called.
  | .take g, a => a.waitq.take.bind fun r =>
    if r.1 = g then
      some { a.setState g .active with
        waitq := r.2, waitqMutex := none, active := g :: a.active }
    else none
  -- `ccc_hba_start` returned and the wait queue mutex is taken again. The
  -- state goes back to waiting before the mutex is entered, but it is only
  -- ever read under the HBA mutex, which is held throughout.
  | .accept, a => (a.lockWaitq t).map fun a => { a with startRejected := false }
  | .reject g, a => (a.lockWaitq t).map fun a =>
    { a.setState g .waitq with
      waitq := a.waitq.requeue g
      active := a.active.erase g
      startRejected := true }
  -- `sol11ghd_complete`: into `sol11ghd_waitq_delete`, then the rest.
  | .delete g, a => (a.lockWaitq t).map fun a =>
    { a with
      waitq := a.waitq.delete gdevOf g
      active := a.active.erase g
      log := .complete g :: a.log }
  | .stop g, a => some ((a.setState g .doneq).timerStop g)
  | .doneqPut g _, a => some { a.setState g .doneq with doneq := a.doneq.putTail g }
  -- A polling thread marks its own request idle when it finds it.
  | .doneqGet g own _, a => a.doneq.get.bind fun r =>
    if r.1 = g then
      some { a with
        doneq := r.2
        cmdState := if own then Function.update a.cmdState g .idle else a.cmdState }
    else none
  | .pollmodeEnter, a => some { a with doneq := a.doneq.pollmodeEnter }
  | .pollmodeClear, a => some { a with doneq := a.doneq.pollmodeClear }
  | .trigger, a => some { a with doneq := a.doneq.trigger }
  | .process, a => some { a with doneq := a.doneq.accept }
  | .pop g, a => a.doneq.processNext.bind fun r =>
    if r.1 = g then some { a with doneq := r.2 } else none
  -- `ghd_doneq_process` marks the request idle before it calls back.
  | .callback g b, a =>
    some { a with
      cmdState := if b then Function.update a.cmdState g .idle else a.cmdState
      lent := Function.update a.lent g false
      log := .callback g b :: a.log }
  -- `ghd_timeout` found an expired request.
  | .timeout, a => if a.activel = [] then none else some { a with timeoutPending := true }
  | .timerGet g, a => if g ∈ a.activel then some (a.timerStop g) else none
  | .timerStop g, a => some (a.timerStop g)
  | .newstate g x, a => some (a.newstate g x)
  | .retract g x, a => some (a.retract g x)
  | .mark g d x, a => some (a.mark gdevOf g d x)
  -- `ghd_queue_hold`, `ghd_queue_unhold` and `ghd_freeze_waitq` are critical
  -- sections of the wait queue mutex.
  | .queueHold b, a =>
    if a.waitqMutex = none then some { a with waitq := { a.waitq with held := b } } else none
  | .freeze, a =>
    if a.waitqMutex = none then some { a with waitq := { a.waitq with frozen := true } } else none

namespace Act

variable {gdevOf : Gcmd → GdevId} {t : Tid} {a a' : Ccc} {g : Gcmd}

/-! What each step does, for the steps that are not always possible. -/

theorem run_call : (call g).run gdevOf t a = some a' ↔
    a.lent g = false ∧ a' = { a with lent := Function.update a.lent g true } := by
  unfold run
  by_cases h : a.lent g = true
  · simp only [h, if_true, reduceCtorEq, Bool.true_eq_false, false_and]
  · simp only [h, Bool.false_eq_true, if_false, Option.some.injEq, true_and, eq_comm]

theorem run_lockHbaSoft : lockHbaSoft.run gdevOf t a = some a' ↔
    a.hbaMutex = none ∧ a' = { a with hbaMutex := some t, timeoutPending := false } :=
  Ccc.map_lockHba_eq_some

theorem run_link {polled : Bool} : (link g polled).run gdevOf t a = some a' ↔
    a.waitqMutex = none ∧ a' = { a.setState g .waitq with
      waitqMutex := some t
      waitq := a.waitq.link gdevOf g
      activel := l2Add a.activel g
      log := .transport g polled :: a.log } :=
  Ccc.map_lockWaitq_eq_some

theorem run_promote {d : GdevId} : (promote d).run gdevOf t a = some a' ↔
    ∃ w, a.waitq.shuffleUp d = some w ∧ a' = { a with waitq := w } := by
  simp only [run, Option.map_eq_some_iff]
  exact exists_congr fun w => and_congr_right fun _ => eq_comm

theorem run_take : (take g).run gdevOf t a = some a' ↔
    ∃ w, a.waitq.take = some (g, w) ∧ a' = { a.setState g .active with
      waitq := w, waitqMutex := none, active := g :: a.active } := by
  simp only [run, Option.bind_eq_some_iff, Prod.exists]
  constructor
  · rintro ⟨g', w, hw, h⟩
    split at h
    · next hg =>
      cases h
      cases hg
      exact ⟨w, hw, rfl⟩
    · cases h
  · rintro ⟨w, hw, rfl⟩
    exact ⟨g, w, hw, if_pos rfl⟩

theorem run_accept : accept.run gdevOf t a = some a' ↔
    a.waitqMutex = none ∧ a' = { a with waitqMutex := some t, startRejected := false } :=
  Ccc.map_lockWaitq_eq_some

theorem run_reject : (reject g).run gdevOf t a = some a' ↔
    a.waitqMutex = none ∧ a' = { a.setState g .waitq with
      waitqMutex := some t
      waitq := a.waitq.requeue g
      active := a.active.erase g
      startRejected := true } :=
  Ccc.map_lockWaitq_eq_some

theorem run_delete : (delete g).run gdevOf t a = some a' ↔
    a.waitqMutex = none ∧ a' = { a with
      waitqMutex := some t
      waitq := a.waitq.delete gdevOf g
      active := a.active.erase g
      log := .complete g :: a.log } :=
  Ccc.map_lockWaitq_eq_some

theorem run_doneqGet {own : Bool} {k : Hand} : (doneqGet g own k).run gdevOf t a = some a' ↔
    ∃ q, a.doneq.get = some (g, q) ∧ a' = { a with
      doneq := q
      cmdState := if own then Function.update a.cmdState g .idle else a.cmdState } := by
  simp only [run, Option.bind_eq_some_iff, Prod.exists]
  constructor
  · rintro ⟨g', q, hq, h⟩
    split at h
    · next hg =>
      cases h
      cases hg
      exact ⟨q, hq, rfl⟩
    · cases h
  · rintro ⟨q, hq, rfl⟩
    exact ⟨g, q, hq, if_pos rfl⟩

theorem run_pop : (pop g).run gdevOf t a = some a' ↔
    ∃ q, a.doneq.processNext = some (g, q) ∧ a' = { a with doneq := q } := by
  simp only [run, Option.bind_eq_some_iff, Prod.exists]
  constructor
  · rintro ⟨g', q, hq, h⟩
    split at h
    · next hg =>
      cases h
      cases hg
      exact ⟨q, hq, rfl⟩
    · cases h
  · rintro ⟨q, hq, rfl⟩
    exact ⟨g, q, hq, if_pos rfl⟩

theorem run_timeout : timeout.run gdevOf t a = some a' ↔
    a.activel ≠ [] ∧ a' = { a with timeoutPending := true } := by
  unfold run
  by_cases h : a.activel = []
  · simp only [h, if_true, reduceCtorEq, ne_eq, not_true, false_and]
  · simp only [h, if_false, Option.some.injEq, ne_eq, not_false_eq_true, true_and, eq_comm]

theorem run_timerGet : (timerGet g).run gdevOf t a = some a' ↔
    g ∈ a.activel ∧ a' = a.timerStop g := by
  unfold run
  by_cases h : g ∈ a.activel
  · simp only [h, if_true, Option.some.injEq, true_and, eq_comm]
  · simp only [h, if_false, reduceCtorEq, false_and]

theorem run_queueHold {b : Bool} : (queueHold b).run gdevOf t a = some a' ↔
    a.waitqMutex = none ∧ a' = { a with waitq := { a.waitq with held := b } } := by
  unfold run
  by_cases h : a.waitqMutex = none
  · simp only [h, if_true, Option.some.injEq, true_and, eq_comm]
  · simp only [h, if_false, reduceCtorEq, false_and]

theorem run_freeze : freeze.run gdevOf t a = some a' ↔
    a.waitqMutex = none ∧ a' = { a with waitq := { a.waitq with frozen := true } } := by
  unfold run
  by_cases h : a.waitqMutex = none
  · simp only [h, if_true, Option.some.injEq, true_and, eq_comm]
  · simp only [h, if_false, reduceCtorEq, false_and]

/-- The holder of the HBA mutex after a step of thread `t`. -/
def hbaMutexAfter (t : Tid) : Act → Option Tid → Option Tid
  | lockHba, _ => some t
  | lockHbaSoft, _ => some t
  | unlockHba, _ => none
  | _, m => m

/-- The holder of the wait queue mutex after a step of thread `t`. -/
def waitqMutexAfter (t : Tid) : Act → Option Tid → Option Tid
  | lockWaitq, _ => some t
  | link _ _, _ => some t
  | accept, _ => some t
  | reject _, _ => some t
  | delete _, _ => some t
  | unlockWaitq, _ => none
  | take _, _ => none
  | _, m => m

/-- Whether the done queue is in poll mode after a step. -/
def pollmodeAfter : Act → Bool → Bool
  | pollmodeEnter, _ => true
  | pollmodeClear, _ => false
  | _, b => b

/-- The steps that enter the HBA mutex. -/
def LocksHba : Act → Prop
  | lockHba => True
  | lockHbaSoft => True
  | _ => False

/-- The steps that enter the wait queue mutex and stay in it. -/
def LocksWaitq : Act → Prop
  | lockWaitq => True
  | link _ _ => True
  | accept => True
  | reject _ => True
  | delete _ => True
  | _ => False

/-- What a step does to the mutexes and the poll mode. -/
structure Frame (t : Tid) (x : Act) (a a' : Ccc) : Prop where
  hbaMutex : a'.hbaMutex = x.hbaMutexAfter t a.hbaMutex
  hbaFree : x.LocksHba → a.hbaMutex = none
  waitqMutex : a'.waitqMutex = x.waitqMutexAfter t a.waitqMutex
  waitqFree : x.LocksWaitq → a.waitqMutex = none
  pollmode : a'.doneq.pollmode = x.pollmodeAfter a.doneq.pollmode

theorem frame {x : Act} (hr : x.run gdevOf t a = some a') : Frame t x a a' := by
  cases x with
  | skip | unlockHba | unlockWaitq | stop | doneqPut | pollmodeEnter | pollmodeClear | trigger
  | process | callback | timerStop | mark =>
      cases hr
      exact ⟨rfl, nofun, rfl, nofun, rfl⟩
  | newstate g y | retract g y =>
      cases hr
      cases g <;> exact ⟨rfl, nofun, rfl, nofun, rfl⟩
  | call g =>
      rcases run_call.1 hr with ⟨-, rfl⟩
      exact ⟨rfl, nofun, rfl, nofun, rfl⟩
  | lockHba =>
      rcases Ccc.lockHba_eq_some.1 hr with ⟨hm, rfl⟩
      exact ⟨rfl, fun _ => hm, rfl, nofun, rfl⟩
  | lockHbaSoft =>
      rcases run_lockHbaSoft.1 hr with ⟨hm, rfl⟩
      exact ⟨rfl, fun _ => hm, rfl, nofun, rfl⟩
  | lockWaitq =>
      rcases Ccc.lockWaitq_eq_some.1 hr with ⟨hm, rfl⟩
      exact ⟨rfl, nofun, rfl, fun _ => hm, rfl⟩
  | link g polled =>
      rcases run_link.1 hr with ⟨hm, rfl⟩
      exact ⟨rfl, nofun, rfl, fun _ => hm, rfl⟩
  | promote d =>
      rcases run_promote.1 hr with ⟨w, -, rfl⟩
      exact ⟨rfl, nofun, rfl, nofun, rfl⟩
  | take g =>
      rcases run_take.1 hr with ⟨w, -, rfl⟩
      exact ⟨rfl, nofun, rfl, nofun, rfl⟩
  | accept =>
      rcases run_accept.1 hr with ⟨hm, rfl⟩
      exact ⟨rfl, nofun, rfl, fun _ => hm, rfl⟩
  | reject g =>
      rcases run_reject.1 hr with ⟨hm, rfl⟩
      exact ⟨rfl, nofun, rfl, fun _ => hm, rfl⟩
  | delete g =>
      rcases run_delete.1 hr with ⟨hm, rfl⟩
      exact ⟨rfl, nofun, rfl, fun _ => hm, rfl⟩
  | doneqGet g own k =>
      rcases run_doneqGet.1 hr with ⟨q, hq, rfl⟩
      rcases Doneq.get_eq_some hq with ⟨rest, -, rfl⟩
      exact ⟨rfl, nofun, rfl, nofun, rfl⟩
  | pop g =>
      rcases run_pop.1 hr with ⟨q, hq, rfl⟩
      rcases Doneq.processNext_eq_some hq with ⟨-, rest, -, rfl⟩
      exact ⟨rfl, nofun, rfl, nofun, rfl⟩
  | timeout =>
      rcases run_timeout.1 hr with ⟨-, rfl⟩
      exact ⟨rfl, nofun, rfl, nofun, rfl⟩
  | timerGet g =>
      rcases run_timerGet.1 hr with ⟨-, rfl⟩
      exact ⟨rfl, nofun, rfl, nofun, rfl⟩
  | queueHold b =>
      rcases run_queueHold.1 hr with ⟨-, rfl⟩
      exact ⟨rfl, nofun, rfl, nofun, rfl⟩
  | freeze =>
      rcases run_freeze.1 hr with ⟨-, rfl⟩
      exact ⟨rfl, nofun, rfl, nofun, rfl⟩

/-- Only linking and requeueing make a request look as if it were waiting. -/
theorem run_state {x : Act} {y : Gcmd} (hr : x.run gdevOf t a = some a')
    (h : a'.cmdState y = .waitq) :
    a.cmdState y = .waitq ∨ (∃ polled, x = link y polled) ∨ x = reject y := by
  have hset : ∀ (f : Gcmd → CmdState) (g : Gcmd) (s : CmdState), s ≠ .waitq →
      Function.update f g s y = .waitq → f y = .waitq := by
    intro f g s hs hy
    by_cases hyg : y = g
    · rw [hyg, Function.update_self] at hy
      exact absurd hy hs
    · rwa [Function.update_of_ne hyg] at hy
  cases x with
  | skip | unlockHba | unlockWaitq | pollmodeEnter | pollmodeClear | trigger | process
  | timerStop =>
      cases hr
      exact Or.inl h
  | stop | doneqPut =>
      cases hr
      exact Or.inl (hset _ _ .doneq nofun h)
  | call g =>
      rcases run_call.1 hr with ⟨-, rfl⟩
      exact Or.inl h
  | lockHba =>
      rcases Ccc.lockHba_eq_some.1 hr with ⟨-, rfl⟩
      exact Or.inl h
  | lockHbaSoft =>
      rcases run_lockHbaSoft.1 hr with ⟨-, rfl⟩
      exact Or.inl h
  | lockWaitq =>
      rcases Ccc.lockWaitq_eq_some.1 hr with ⟨-, rfl⟩
      exact Or.inl h
  | promote d =>
      rcases run_promote.1 hr with ⟨w, -, rfl⟩
      exact Or.inl h
  | accept =>
      rcases run_accept.1 hr with ⟨-, rfl⟩
      exact Or.inl h
  | delete g =>
      rcases run_delete.1 hr with ⟨-, rfl⟩
      exact Or.inl h
  | pop g =>
      rcases run_pop.1 hr with ⟨q, -, rfl⟩
      exact Or.inl h
  | timeout =>
      rcases run_timeout.1 hr with ⟨-, rfl⟩
      exact Or.inl h
  | timerGet g =>
      rcases run_timerGet.1 hr with ⟨-, rfl⟩
      exact Or.inl h
  | queueHold b =>
      rcases run_queueHold.1 hr with ⟨-, rfl⟩
      exact Or.inl h
  | freeze =>
      rcases run_freeze.1 hr with ⟨-, rfl⟩
      exact Or.inl h
  | take g =>
      rcases run_take.1 hr with ⟨w, -, rfl⟩
      exact Or.inl (hset _ _ .active nofun h)
  | doneqGet g own k =>
      rcases run_doneqGet.1 hr with ⟨q, -, rfl⟩
      cases own with
      | false => exact Or.inl h
      | true => exact Or.inl (hset _ _ .idle nofun h)
  | callback g b =>
      cases hr
      cases b with
      | false => exact Or.inl h
      | true => exact Or.inl (hset _ _ .idle nofun h)
  | newstate g x =>
      cases hr
      cases g with
      | none => exact Or.inl h
      | some g => exact Or.inl (hset _ _ x.nextState (by cases x <;> nofun) h)
  | retract g x =>
      cases hr
      cases g <;> exact Or.inl h
  | mark g d x =>
      cases hr
      simp only [Ccc.mark] at h
      split at h
      · exact Or.inl (Ccc.markState_waitq gdevOf h)
      · exact Or.inl h
  | link g polled =>
      rcases run_link.1 hr with ⟨-, rfl⟩
      by_cases hyg : y = g
      · exact Or.inr (Or.inl ⟨polled, by rw [hyg]⟩)
      · exact Or.inl (by simpa only [Ccc.setState, Function.update_of_ne hyg] using h)
  | reject g =>
      rcases run_reject.1 hr with ⟨-, rfl⟩
      by_cases hyg : y = g
      · exact Or.inr (Or.inr (by rw [hyg]))
      · exact Or.inl (by simpa only [Ccc.setState, Function.update_of_ne hyg] using h)

/-- What a step does to the wait queues. -/
inductive WaitqStep (gdevOf : Gcmd → GdevId) : Act → Waitq → Waitq → Prop where
  | same (x : Act) (w : Waitq) : WaitqStep gdevOf x w w
  | link (g : Gcmd) (polled : Bool) (w : Waitq) :
      WaitqStep gdevOf (.link g polled) w (w.link gdevOf g)
  | promote (d : GdevId) (w w' : Waitq) (h : w.shuffleUp d = some w') :
      WaitqStep gdevOf (.promote d) w w'
  | take (g : Gcmd) (w w' : Waitq) (h : w.take = some (g, w')) : WaitqStep gdevOf (.take g) w w'
  | reject (g : Gcmd) (w : Waitq) : WaitqStep gdevOf (.reject g) w (w.requeue g)
  | delete (g : Gcmd) (w : Waitq) : WaitqStep gdevOf (.delete g) w (w.delete gdevOf g)
  | queueHold (b : Bool) (w : Waitq) : WaitqStep gdevOf (.queueHold b) w { w with held := b }
  | freeze (w : Waitq) : WaitqStep gdevOf .freeze w { w with frozen := true }

theorem run_waitq {x : Act} (hr : x.run gdevOf t a = some a') :
    WaitqStep gdevOf x a.waitq a'.waitq := by
  cases x with
  | skip | unlockHba | unlockWaitq | pollmodeEnter | pollmodeClear | trigger | process
  | timerStop | stop | doneqPut | mark | callback =>
      cases hr
      exact .same _ _
  | newstate g y | retract g y =>
      cases hr
      cases g <;> exact .same _ _
  | call g =>
      rcases run_call.1 hr with ⟨-, rfl⟩
      exact .same _ _
  | lockHba =>
      rcases Ccc.lockHba_eq_some.1 hr with ⟨-, rfl⟩
      exact .same _ _
  | lockHbaSoft =>
      rcases run_lockHbaSoft.1 hr with ⟨-, rfl⟩
      exact .same _ _
  | lockWaitq =>
      rcases Ccc.lockWaitq_eq_some.1 hr with ⟨-, rfl⟩
      exact .same _ _
  | accept =>
      rcases run_accept.1 hr with ⟨-, rfl⟩
      exact .same _ _
  | pop g =>
      rcases run_pop.1 hr with ⟨q, -, rfl⟩
      exact .same _ _
  | doneqGet g own k =>
      rcases run_doneqGet.1 hr with ⟨q, -, rfl⟩
      exact .same _ _
  | timeout =>
      rcases run_timeout.1 hr with ⟨-, rfl⟩
      exact .same _ _
  | timerGet g =>
      rcases run_timerGet.1 hr with ⟨-, rfl⟩
      exact .same _ _
  | link g polled =>
      rcases run_link.1 hr with ⟨-, rfl⟩
      exact .link g polled _
  | promote d =>
      rcases run_promote.1 hr with ⟨w, hw, rfl⟩
      exact .promote d _ w hw
  | take g =>
      rcases run_take.1 hr with ⟨w, hw, rfl⟩
      exact .take g _ w hw
  | reject g =>
      rcases run_reject.1 hr with ⟨-, rfl⟩
      exact .reject g _
  | delete g =>
      rcases run_delete.1 hr with ⟨-, rfl⟩
      exact .delete g _
  | queueHold b =>
      rcases run_queueHold.1 hr with ⟨-, rfl⟩
      exact .queueHold b _
  | freeze =>
      rcases run_freeze.1 hr with ⟨-, rfl⟩
      exact .freeze _

end Act

end Ghd

end Sil3112
