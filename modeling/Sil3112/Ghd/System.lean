import Sil3112.Ghd.Ccc

/-!
# The Threads of an HBA Instance

The control flow of `ghd.c`, `ghd_waitq.c` and `ghd_timer.c`: between which
points of the code a thread moves with which step. Any number of threads run
at once, and an idle one may enter the driver anywhere: a target driver calls
`sol11ghd_transport` or one of the abort and reset entry points, the hardware
interrupt runs `sol11ghd_intr`, and the two soft interrupts and the timer
callout run `ghd_timeout_softintr`, `ghd_doneq_process` and `ghd_timeout`.

Functions that are called from several places carry their caller along. The
HBA driver's own functions are open: while one runs, it may complete any
active request, hold, release or freeze the wait queue, and it returns what it
likes. `ccc_hba_start` may not reject a request it has completed, and an early
abort or early timeout returns only after it has completed its request, once.

## Main definitions

* `Caller`, `HbaCall`: Who called the wait queue, the timer or the HBA driver.
* `Poll`: The local variables of `ghd_poll`.
* `Ctl`: The control points.
* `Local`: The control flow.
* `GhdStep`, `GhdInit`: The system.
-/

namespace Sil3112

namespace Ghd

open Transition

/-- The abort and reset entry points. -/
inductive TranReq where
  | abort (g : Gcmd)
  | abortLun (d : GdevId)
  | resetTarget (d : GdevId)
  | resetBus (d : GdevId)

/-- Who called `ghd_poll`: a polled transport or one of the abort and reset
    entry points. This fixes `polltype`, `poll_gcmdp` and whether `polltime`
    is zero. -/
inductive PollReq where
  | transport (g : Gcmd)
  | tran (r : TranReq)

/-- The local variables of `ghd_poll`. -/
structure Poll where
  req : PollReq
  gotIt : Bool
  holdq : List Gcmd

namespace Poll

/-- The state `ghd_poll` starts in. -/
def start (r : PollReq) : Poll :=
  { req := r, gotIt := false, holdq := [] }

/-- `poll_gcmdp` -/
def target (p : Poll) : Option Gcmd :=
  match p.req with
  | .transport g => some g
  | .tran (.abort g) => some g
  | .tran _ => none

/-- `polltime` is not zero. -/
def Timed (p : Poll) : Prop :=
  match p.req with
  | .transport _ => False
  | .tran _ => True

/-- What becomes of the awaited request: the polled transport completes it
    itself, an abort puts it back on the done queue. -/
def ownHand (p : Poll) : Hand :=
  match p.req with
  | .transport _ => .taken
  | .tran _ => .holding

/-- The check at the end of the loop body: `GHD_POLL_DEVICE` and
    `GHD_POLL_ALL` wait for a counter to reach zero. -/
def check (p : Poll) (a : Ccc) : Poll :=
  match p.req with
  | .tran (.abortLun d) =>
    { p with gotIt := p.gotIt || decide ((a.waitq.dev d).waitq.nactive = 0) }
  | .tran (.resetTarget d) =>
    { p with gotIt := p.gotIt || decide ((a.waitq.dev d).waitq.nactive = 0) }
  | .tran (.resetBus _) =>
    { p with gotIt := p.gotIt || decide (a.waitq.hba.nactive = 0) }
  | _ => p

end Poll

/-- Who called `sol11ghd_waitq_process_and_mutex_hold`, `sol11ghd_timer_poll`
    or `sol11ghd_timer_newstate`. `exit` is
    `sol11ghd_waitq_process_and_mutex_exit`, with the polled request whose
    completion function is still to be called, if any; `intr` is
    `sol11ghd_intr` with its `more`; `soft` is `ghd_timeout_softintr`. -/
inductive Caller where
  | exit (after : Option Gcmd)
  | intr (more : Bool)
  | soft
  | poll (p : Poll)
  | tran (r : TranReq)

/-- A call of one of the HBA driver's functions: `ccc_hba_start` for a request,
    `ccc_process_intr`, or `ccc_timeout_func`. `done` says whether the request
    the call is for has been completed during it. -/
inductive HbaCall where
  | start (k : Caller) (rc : Bool) (g : Gcmd) (done : Bool)
  | status (k : Caller)
  | timeout (k : Caller) (g : Option Gcmd) (d : GdevId) (x : GAction) (done : Bool)

/-- The call knows that a request has been completed. -/
def HbaCall.completed (c : HbaCall) (g : Gcmd) : HbaCall :=
  match c with
  | .start k rc g' done => .start k rc g' (done || decide (g' = g))
  | c => c

/-- Where a thread is. -/
inductive Ctl where
  | idle
  -- `sol11ghd_transport`
  | xportHba (g : Gcmd)
  | xportPollmode (g : Gcmd)
  | xportLink (g : Gcmd) (polled : Bool)
  | xportShuffle (g : Gcmd) (polled : Bool)
  | xportShuffled (g : Gcmd) (polled : Bool)
  | xportDrop
  | xportDone (g : Gcmd)
  -- `sol11ghd_waitq_process_and_mutex_hold` and `_exit`
  | hold (k : Caller) (rc : Bool)
  | holdRet (k : Caller) (rc : Bool)
  | exitEnter (after : Option Gcmd)
  | exitWaitq (after : Option Gcmd)
  -- the HBA driver, and `sol11ghd_complete` called from it
  | hba (c : HbaCall)
  | del (c : HbaCall) (g : Gcmd)
  | delShuffle (c : HbaCall) (g : Gcmd)
  | stop (c : HbaCall) (g : Gcmd)
  | put (c : HbaCall) (g : Gcmd)
  -- `sol11ghd_intr`
  | intr (more : Bool)
  -- `ghd_timeout_softintr`
  | softTimer
  | softThaw
  -- `sol11ghd_timer_poll` and `sol11ghd_timer_newstate`
  | timer (k : Caller)
  | timerRet (k : Caller)
  | newstate (k : Caller) (g : Option Gcmd) (d : GdevId) (x : GAction)
  | scan (k : Caller) (g : Option Gcmd) (d : GdevId) (x : GAction)
  | newstateRet (k : Caller)
  -- the abort and reset entry points
  | tranPollmode (r : TranReq)
  | tran (r : TranReq)
  -- `ghd_poll`
  | poll (p : Poll)
  | pollWaitq (p : Poll)
  | pollDrain (p : Poll)
  | pollCheck (p : Poll)
  | pollReturn (p : Poll)
  | abortPut (g : Gcmd)
  -- `ghd_doneq_pollmode_exit`
  | pollmodeExit (after : Option Gcmd)
  | pollmodeTest (after : Option Gcmd)
  | pollmodeTrigger (after : Option Gcmd)
  -- `ghd_doneq_process`
  | process
  | callback (g : Gcmd)

/-- The control flow: the step a thread at one point may take, and the point
    it takes the thread to. -/
inductive Local (gdevOf : Gcmd → GdevId) (a : Ccc) : Ctl → Act → Ctl → Prop where
  -- `sol11ghd_transport`
  | call (g : Gcmd) : Local gdevOf a .idle (.call g) (.xportLink g false)
  | callPolled (g : Gcmd) : Local gdevOf a .idle (.call g) (.xportHba g)
  | xportHba (g : Gcmd) : Local gdevOf a (.xportHba g) .lockHba (.xportPollmode g)
  | xportPollmode (g : Gcmd) :
      Local gdevOf a (.xportPollmode g) .pollmodeEnter (.xportLink g true)
  | xportLink (g : Gcmd) (polled : Bool) :
      Local gdevOf a (.xportLink g polled) (.link g polled) (.xportShuffle g polled)
  | xportShuffle (g : Gcmd) (polled : Bool) :
      Local gdevOf a (.xportShuffle g polled) (.promote (gdevOf g)) (.xportShuffle g polled)
  | xportShuffled (g : Gcmd) (polled : Bool) (h : a.waitq.shuffleUp (gdevOf g) = none) :
      Local gdevOf a (.xportShuffle g polled) .skip (.xportShuffled g polled)
  | tryenter (g : Gcmd) :
      Local gdevOf a (.xportShuffled g false) .lockHba (.hold (.exit none) false)
  | tryenterFail (g : Gcmd) (h : a.hbaMutex ≠ none) :
      Local gdevOf a (.xportShuffled g false) .skip .xportDrop
  | xportDrop : Local gdevOf a .xportDrop .unlockWaitq .idle
  | xportPoll (g : Gcmd) :
      Local gdevOf a (.xportShuffled g true) .unlockWaitq (.poll (.start (.transport g)))
  | xportDone (g : Gcmd) : Local gdevOf a (.xportDone g) (.callback g false) .idle
  -- `sol11ghd_waitq_process_and_mutex_hold`
  | holdStop (k : Caller) (rc : Bool) (h : a.waitq.Blocked) :
      Local gdevOf a (.hold k rc) .skip (.holdRet k rc)
  | holdTake (k : Caller) (rc : Bool) (g : Gcmd) :
      Local gdevOf a (.hold k rc) (.take g) (.hba (.start k rc g false))
  | startAccept (k : Caller) (rc : Bool) (g : Gcmd) (done : Bool) :
      Local gdevOf a (.hba (.start k rc g done)) .accept (.hold k true)
  | startReject (k : Caller) (rc : Bool) (g : Gcmd) :
      Local gdevOf a (.hba (.start k rc g false)) (.reject g) (.holdRet k rc)
  -- `sol11ghd_waitq_process_and_mutex_exit`: HBA mutex first, wait queue second
  | exitEnter (after : Option Gcmd) :
      Local gdevOf a (.exitEnter after) .lockWaitq (.hold (.exit after) false)
  | exitHba (after : Option Gcmd) (rc : Bool) :
      Local gdevOf a (.holdRet (.exit after) rc) .unlockHba (.exitWaitq after)
  | exitWaitq : Local gdevOf a (.exitWaitq none) .unlockWaitq .idle
  | exitWaitqPolled (g : Gcmd) :
      Local gdevOf a (.exitWaitq (some g)) .unlockWaitq (.xportDone g)
  -- what an HBA driver function may do
  | complete (c : HbaCall) (g : Gcmd) (h : g ∈ a.active) :
      Local gdevOf a (.hba c) .skip (.del (c.completed g) g)
  | completeEarly (k : Caller) (g : Gcmd) (d : GdevId) (x : GAction) (h : x.Early) :
      Local gdevOf a (.hba (.timeout k (some g) d x false)) .skip
        (.del (.timeout k (some g) d x true) g)
  | queueHold (c : HbaCall) (b : Bool) : Local gdevOf a (.hba c) (.queueHold b) (.hba c)
  | freeze (c : HbaCall) : Local gdevOf a (.hba c) .freeze (.hba c)
  -- `sol11ghd_complete`
  | del (c : HbaCall) (g : Gcmd) : Local gdevOf a (.del c g) (.delete g) (.delShuffle c g)
  | delShuffle (c : HbaCall) (g : Gcmd) :
      Local gdevOf a (.delShuffle c g) (.promote (gdevOf g)) (.delShuffle c g)
  | delShuffled (c : HbaCall) (g : Gcmd) (h : a.waitq.shuffleUp (gdevOf g) = none) :
      Local gdevOf a (.delShuffle c g) .unlockWaitq (.stop c g)
  | stop (c : HbaCall) (g : Gcmd) : Local gdevOf a (.stop c g) (.stop g) (.put c g)
  | put (c : HbaCall) (g : Gcmd) :
      Local gdevOf a (.put c g) (.doneqPut g .completing) (.hba c)
  -- `sol11ghd_intr`
  | intr : Local gdevOf a .idle .lockHba (.intr false)
  | intrStatus (more : Bool) : Local gdevOf a (.intr more) .skip (.hba (.status (.intr more)))
  | intrProcessed (more : Bool) :
      Local gdevOf a (.hba (.status (.intr more))) .skip (.intr true)
  | intrWaitq (more : Bool) :
      Local gdevOf a (.intr more) .lockWaitq (.hold (.intr more) false)
  | intrAgain (more rc : Bool) (h : rc = true ∨ more = true) :
      Local gdevOf a (.holdRet (.intr more) rc) .unlockWaitq (.intr false)
  | intrExit : Local gdevOf a (.holdRet (.intr false) false) .unlockHba (.exitWaitq none)
  -- `ghd_timeout` and `ghd_timeout_softintr`
  | timeout : Local gdevOf a .idle .timeout .idle
  | soft (h : a.timeoutPending = true) : Local gdevOf a .idle .skip .softTimer
  | softTimer : Local gdevOf a .softTimer .lockHbaSoft (.timer .soft)
  | softFrozen (h : a.timeoutPending = false) (hf : a.waitq.frozen = true) :
      Local gdevOf a .idle .skip .softThaw
  | softThaw : Local gdevOf a .softThaw .lockHba (.exitEnter none)
  -- `sol11ghd_timer_poll`
  | timerNone (k : Caller) : Local gdevOf a (.timer k) .skip (.timerRet k)
  | timerGet (k : Caller) (g : Gcmd) (x : GAction) (h : timerAction (a.cmdState g) = some x) :
      Local gdevOf a (.timer k) (.timerGet g) (.newstate k (some g) (gdevOf g) x)
  | timerBad (k : Caller) (g : Gcmd) (h : timerAction (a.cmdState g) = none) :
      Local gdevOf a (.timer k) (.timerGet g) (.timerRet k)
  | timerSoft : Local gdevOf a (.timerRet .soft) .skip (.exitEnter none)
  | timerPoll (p : Poll) : Local gdevOf a (.timerRet (.poll p)) .skip (.pollDrain p)
  -- `sol11ghd_timer_newstate`
  | newstate (k : Caller) (g : Option Gcmd) (d : GdevId) (x : GAction)
      (h : ¬ (x = .resetBus ∧ a.waitq.frozen = true)) :
      Local gdevOf a (.newstate k g d x) (.newstate g x) (.hba (.timeout k g d x false))
  | newstateAvoid (k : Caller) (g : Option Gcmd) (d : GdevId)
      (h : a.waitq.frozen = true) :
      Local gdevOf a (.newstate k g d .resetBus) (.newstate g .resetBus) (.scan k g d .resetBus)
  | actionTaken (k : Caller) (g : Option Gcmd) (d : GdevId) (x : GAction) (done : Bool)
      (h : x.Early → done = true) :
      Local gdevOf a (.hba (.timeout k g d x done)) .skip (.scan k g d x)
  | actionFailed (k : Caller) (g : Option Gcmd) (d : GdevId) (x : GAction) (done : Bool)
      (h : x.Early → done = true) (hx : x ≠ .incomplete) :
      Local gdevOf a (.hba (.timeout k g d x done)) (.retract g x) (.newstate k g d x.nextAction)
  | incomplete (k : Caller) (g : Option Gcmd) (d : GdevId) (done : Bool) :
      Local gdevOf a (.hba (.timeout k g d .incomplete done)) .skip (.newstateRet k)
  | scan (k : Caller) (g : Option Gcmd) (d : GdevId) (x : GAction) :
      Local gdevOf a (.scan k g d x) (.mark g d x) (.newstateRet k)
  | newstateSoft : Local gdevOf a (.newstateRet .soft) .skip (.timer .soft)
  | newstatePoll (p : Poll) : Local gdevOf a (.newstateRet (.poll p)) .skip (.pollDrain p)
  | newstateTran (r : TranReq) :
      Local gdevOf a (.newstateRet (.tran r)) .skip (.poll (.start (.tran r)))
  -- `sol11ghd_tran_abort`, `_abort_lun`, `_reset_target` and `_reset_bus`
  | tranEnter (r : TranReq) : Local gdevOf a .idle .lockHba (.tranPollmode r)
  | tranPollmode (r : TranReq) : Local gdevOf a (.tranPollmode r) .pollmodeEnter (.tran r)
  | abortEarly (g : Gcmd) (h : a.cmdState g = .waitq) :
      Local gdevOf a (.tran (.abort g)) (.timerStop g)
        (.newstate (.tran (.abort g)) (some g) (gdevOf g) .earlyAbort)
  | abortActive (g : Gcmd) (h : a.cmdState g = .active) :
      Local gdevOf a (.tran (.abort g)) (.timerStop g)
        (.newstate (.tran (.abort g)) (some g) (gdevOf g) .abortCmd)
  | abortOther (g : Gcmd) (hw : a.cmdState g ≠ .waitq) (ha : a.cmdState g ≠ .active) :
      Local gdevOf a (.tran (.abort g)) .skip (.pollmodeExit none)
  | abortLun (d : GdevId) :
      Local gdevOf a (.tran (.abortLun d)) .skip (.newstate (.tran (.abortLun d)) none d .abortDev)
  | resetTarget (d : GdevId) :
      Local gdevOf a (.tran (.resetTarget d)) .skip
        (.newstate (.tran (.resetTarget d)) none d .resetTarget)
  | resetBus (d : GdevId) :
      Local gdevOf a (.tran (.resetBus d)) .skip
        (.newstate (.tran (.resetBus d)) none d .resetBus)
  -- `ghd_poll`
  | pollStop (p : Poll) (h : p.gotIt = true ∨ p.Timed) :
      Local gdevOf a (.poll p) .skip (.pollReturn p)
  | pollStatus (p : Poll) (h : p.gotIt = false) :
      Local gdevOf a (.poll p) .skip (.hba (.status (.poll p)))
  | pollQuiet (p : Poll) (h : p.gotIt = false) : Local gdevOf a (.poll p) .skip (.pollWaitq p)
  | pollProcessed (p : Poll) :
      Local gdevOf a (.hba (.status (.poll p))) .skip (.pollWaitq p)
  | pollWaitq (p : Poll) : Local gdevOf a (.pollWaitq p) .lockWaitq (.hold (.poll p) false)
  | pollHeld (p : Poll) (rc : Bool) :
      Local gdevOf a (.holdRet (.poll p) rc) .unlockWaitq (.timer (.poll p))
  | drainOwn (p : Poll) (g : Gcmd) (h : p.target = some g) :
      Local gdevOf a (.pollDrain p) (.doneqGet g true p.ownHand)
        (.pollDrain { p with gotIt := true })
  | drainOther (p : Poll) (g : Gcmd) (h : p.target ≠ some g) :
      Local gdevOf a (.pollDrain p) (.doneqGet g false .holding)
        (.pollDrain { p with holdq := l2Add p.holdq g })
  | drainEmpty (p : Poll) (h : a.doneq.get = none) :
      Local gdevOf a (.pollDrain p) .skip (.pollCheck p)
  | pollCheck (p : Poll) : Local gdevOf a (.pollCheck p) .skip (.poll (p.check a))
  | returnPut (r : PollReq) (got : Bool) (g : Gcmd) (rest : List Gcmd) :
      Local gdevOf a (.pollReturn ⟨r, got, g :: rest⟩) (.doneqPut g .holding)
        (.pollReturn ⟨r, got, rest⟩)
  | returnTransport (g : Gcmd) (got : Bool) :
      Local gdevOf a (.pollReturn ⟨.transport g, got, []⟩) .skip (.pollmodeExit (some g))
  | returnAbort (g : Gcmd) :
      Local gdevOf a (.pollReturn ⟨.tran (.abort g), true, []⟩) .skip (.abortPut g)
  | returnTran (r : TranReq) (got : Bool) (h : ∀ g, r = .abort g → got = false) :
      Local gdevOf a (.pollReturn ⟨.tran r, got, []⟩) .skip (.pollmodeExit none)
  | abortPut (g : Gcmd) :
      Local gdevOf a (.abortPut g) (.doneqPut g .holding) (.pollmodeExit none)
  -- `ghd_doneq_pollmode_exit`
  | pollmodeExit (after : Option Gcmd) :
      Local gdevOf a (.pollmodeExit after) .pollmodeClear (.pollmodeTest after)
  | pollmodeEmpty (after : Option Gcmd) (h : a.doneq.queue = []) :
      Local gdevOf a (.pollmodeTest after) .skip (.exitEnter after)
  | pollmodeNonempty (after : Option Gcmd) (h : a.doneq.queue ≠ []) :
      Local gdevOf a (.pollmodeTest after) .skip (.pollmodeTrigger after)
  | pollmodeTrigger (after : Option Gcmd) :
      Local gdevOf a (.pollmodeTrigger after) .trigger (.exitEnter after)
  -- `ghd_doneq_process`
  | process : Local gdevOf a .idle .process .process
  | processQuit (h : a.doneq.processNext = none) : Local gdevOf a .process .skip .idle
  | processPop (g : Gcmd) : Local gdevOf a .process (.pop g) (.callback g)
  | callback (g : Gcmd) : Local gdevOf a (.callback g) (.callback g true) .process

/-- What thread `t` can do: a step the control flow allows and the shared
    state permits. -/
def GhdLocal (gdevOf : Gcmd → GdevId) (t : Tid) (a : Ccc) (c : Ctl) (a' : Ccc) (c' : Ctl) :
    Prop :=
  ∃ x, Local gdevOf a c x c' ∧ x.run gdevOf t a = some a'

/-- An HBA instance and the threads that run in it. -/
abbrev GhdSys :=
  Sys Tid Ccc Ctl

/-- One step of one thread. -/
abbrev GhdStep (gdevOf : Gcmd → GdevId) : GhdSys → GhdSys → Prop :=
  Sys.Step (GhdLocal gdevOf)

/-- An instance just registered: nothing queued, nothing outstanding, every
    mutex free. The throttles are whatever the instance was configured with,
    as long as the HBA's is not negative. -/
structure GhdInit (s : GhdSys) : Prop where
  thr : ∀ t, s.thr t = .idle
  dev : ∀ d, (s.shared.waitq.dev d).waitq.qhead = [] ∧ (s.shared.waitq.dev d).waitq.nactive = 0
  hba : s.shared.waitq.hba.qhead = [] ∧ s.shared.waitq.hba.nactive = 0
  hbaMax : 0 ≤ s.shared.waitq.hba.maxactive
  doneq : s.shared.doneq.queue = []
  cmdState : ∀ g, s.shared.cmdState g = .idle
  active : s.shared.active = []
  lent : ∀ g, s.shared.lent g = false
  mutexes : s.shared.hbaMutex = none ∧ s.shared.waitqMutex = none
  log : s.shared.log = []

/-- The states a run of the instance reaches. -/
abbrev GhdReachable (gdevOf : Gcmd → GdevId) : GhdSys → Prop :=
  Reachable GhdInit (GhdStep gdevOf)

/-- The state after a step, where the step is possible. -/
def GhdSys.next (gdevOf : Gcmd → GdevId) (s : GhdSys) (t : Tid) (x : Act) (c : Ctl) : GhdSys :=
  { shared := (x.run gdevOf t s.shared).getD s.shared
    thr := Function.update s.thr t c }

/-- The state after a list of steps. -/
def GhdSys.after (gdevOf : Gcmd → GdevId) (s : GhdSys) : List (Tid × Act × Ctl) → GhdSys
  | [] => s
  | (t, x, c) :: l => (s.next gdevOf t x c).after gdevOf l

/-- Every step of the list is possible when its turn comes. -/
def GhdSys.RunOk (gdevOf : Gcmd → GdevId) (s : GhdSys) : List (Tid × Act × Ctl) → Prop
  | [] => True
  | (t, x, c) :: l =>
    Local gdevOf s.shared (s.thr t) x c ∧ (x.run gdevOf t s.shared).isSome = true ∧
      (s.next gdevOf t x c).RunOk gdevOf l

/-- The step that `GhdSys.next` takes. -/
theorem GhdSys.run_next {gdevOf : Gcmd → GdevId} {s : GhdSys} {t : Tid} {x : Act} {c : Ctl}
    (hr : (x.run gdevOf t s.shared).isSome = true) :
    x.run gdevOf t s.shared = some (s.next gdevOf t x c).shared := by
  rcases Option.isSome_iff_exists.1 hr with ⟨a', ha'⟩
  simp only [GhdSys.next, ha', Option.getD_some]

theorem GhdReachable.next {gdevOf : Gcmd → GdevId} {s : GhdSys} (h : GhdReachable gdevOf s)
    (t : Tid) {x : Act} {c : Ctl} (hl : Local gdevOf s.shared (s.thr t) x c)
    (hr : (x.run gdevOf t s.shared).isSome = true) :
    GhdReachable gdevOf (s.next gdevOf t x c) :=
  Reachable.tail h ⟨t, c, ⟨x, hl, GhdSys.run_next hr⟩, rfl⟩

theorem GhdReachable.after {gdevOf : Gcmd → GdevId} {s : GhdSys} (h : GhdReachable gdevOf s)
    (l : List (Tid × Act × Ctl)) (hl : s.RunOk gdevOf l) :
    GhdReachable gdevOf (s.after gdevOf l) := by
  induction l generalizing s with
  | nil => exact h
  | cons e l ih => exact ih (h.next e.1 hl.1 hl.2.1) hl.2.2

/-- A thread that takes no step of the list stays where it is. -/
theorem GhdSys.after_thr (gdevOf : Gcmd → GdevId) (s : GhdSys) (l : List (Tid × Act × Ctl))
    {u : Tid} (h : ∀ e ∈ l, e.1 ≠ u) : (s.after gdevOf l).thr u = s.thr u := by
  induction l generalizing s with
  | nil => rfl
  | cons e l ih =>
      have hl := ih (s.next gdevOf e.1 e.2.1 e.2.2) fun e' he' => h e' (List.mem_cons_of_mem e he')
      refine Eq.trans hl ?_
      exact Function.update_of_ne (Ne.symm (h e List.mem_cons_self)) _ _

/-- An instance with every throttle at one, as the driver sets them up. -/
def ghdStart : GhdSys :=
  { shared :=
      { waitq :=
          { dev := fun _ => { waitq := { qhead := [], nactive := 0, maxactive := 1 }
                              ninstances := 1 }
            hba := { qhead := [], nactive := 0, maxactive := 1 }
            frozen := false, held := false, level := fun _ => 0 }
        doneq := { queue := [], pollmode := false, pending := false }
        cmdState := fun _ => .idle, activel := [], hbaMutex := none, waitqMutex := none
        timeoutPending := false, active := [], lent := fun _ => false, startRejected := false
        log := [] }
    thr := fun _ => .idle }

theorem ghdStart_init : GhdInit ghdStart :=
  ⟨fun _ => rfl, fun _ => ⟨rfl, rfl⟩, ⟨rfl, rfl⟩, by decide, rfl, fun _ => rfl, rfl, fun _ => rfl,
    ⟨rfl, rfl⟩, rfl⟩

theorem ghdStart_reachable (gdevOf : Gcmd → GdevId) : GhdReachable gdevOf ghdStart :=
  Reachable.initial ghdStart_init

end Ghd

end Sil3112
