import Sil3112.Ghd.NoLoss

/-!
# The Order of the Completions

The requests that have been completed and not called back are one line. Most of
them are on the done queue. Behind it is one for which `sol11ghd_complete` is still
running, and in front of it one that the soft interrupt has taken off.

`ghd_poll` empties the done queue into its hold queue over and over, and takes out
the request it waits for. What it holds is in front of the done queue then. It puts
the hold queue back at the end, one by one at the tail, and this keeps the line only
because the done queue is empty at that point: it has the HBA mutex, so nobody else
can complete a request, and it leaves the loop either at once or after it has found
the done queue empty.

The requests are called back by the soft interrupt in the order of the line. This is
so if it does not run twice at a time, and if no single request is aborted: an abort
puts its request back after the others.

## Main definitions

* `completions`, `callbacks`: What the history says.
* `Serial`: The runs that are considered.
* `LineStep`: The line as one queue.
* `InFlight`: The requests of the line that are not on the done queue.

## Theorems

* `Local.line`: Every edge is a step of the line.
* `DoneOk.step`: Every step keeps the order.
* `callbacks_in_order`: The requests are called back in the order in which they were
  completed.
-/

namespace Sil3112

namespace Ghd

open Transition

/-! ## The history -/

/-- The requests for which `sol11ghd_complete` was called while a transport of them
    that is not polled was open, newest first. -/
def completions : List Event → List Gcmd
  | [] => []
  | .transport _ _ :: log => completions log
  | .complete g :: log =>
    if openTransport log g = some false then g :: completions log else completions log
  | .callback _ _ :: log => completions log

/-- The requests that have been called back by `ghd_doneq_process`, newest first. -/
def callbacks : List Event → List Gcmd
  | [] => []
  | .transport _ _ :: log => callbacks log
  | .complete _ :: log => callbacks log
  | .callback g b :: log => if b then g :: callbacks log else callbacks log

/-- The requests of a list with an open transport that is not polled. -/
def plain (log : List Event) (l : List Gcmd) : List Gcmd :=
  l.filter (fun g => openTransport log g = some false)

@[simp] theorem plain_nil (log : List Event) : plain log [] = [] := rfl

theorem plain_append (log : List Event) (l l' : List Gcmd) :
    plain log (l ++ l') = plain log l ++ plain log l' :=
  List.filter_append l l'

theorem plain_cons (log : List Event) (g : Gcmd) (l : List Gcmd) : plain log (g :: l) =
    if openTransport log g = some false then g :: plain log l else plain log l := by
  unfold plain
  simp only [List.filter_cons, decide_eq_true_eq]

theorem plain_congr {log log' : List Event} {l : List Gcmd}
    (h : ∀ x ∈ l, openTransport log' x = openTransport log x) : plain log' l = plain log l := by
  refine List.filter_congr fun x hx => decide_eq_decide.2 ?_
  rw [h x hx]

namespace Act

/-- The history after a step. -/
def logAfter : Act → List Event → List Event
  | link g polled, log => .transport g polled :: log
  | delete g, log => .complete g :: log
  | callback g b, log => .callback g b :: log
  | _, log => log

/-- What a step does to the done queue. -/
def QueueStep : Act → Doneq Gcmd → List Gcmd → Prop
  | doneqPut g _, q, l => l = q.queue ++ [g]
  | doneqGet g _ _, q, l => q.queue = g :: l
  | pop g, q, l => q.pollmode = false ∧ q.queue = g :: l
  | _, q, l => l = q.queue

variable {gdevOf : Gcmd → GdevId} {t : Tid} {a a' : Ccc} {x : Act}

theorem run_done (hr : x.run gdevOf t a = some a') :
    a'.log = x.logAfter a.log ∧ x.QueueStep a.doneq a'.doneq.queue := by
  cases x with
  | skip | unlockHba | unlockWaitq | stop | doneqPut | pollmodeEnter | pollmodeClear | trigger
  | process | callback | timerStop | mark =>
      cases hr
      exact ⟨rfl, rfl⟩
  | newstate g y | retract g y =>
      cases hr
      cases g <;> exact ⟨rfl, rfl⟩
  | call g =>
      rcases run_call.1 hr with ⟨-, rfl⟩
      exact ⟨rfl, rfl⟩
  | lockHba =>
      rcases Ccc.lockHba_eq_some.1 hr with ⟨-, rfl⟩
      exact ⟨rfl, rfl⟩
  | lockHbaSoft =>
      rcases run_lockHbaSoft.1 hr with ⟨-, rfl⟩
      exact ⟨rfl, rfl⟩
  | lockWaitq =>
      rcases Ccc.lockWaitq_eq_some.1 hr with ⟨-, rfl⟩
      exact ⟨rfl, rfl⟩
  | link g polled =>
      rcases run_link.1 hr with ⟨-, rfl⟩
      exact ⟨rfl, rfl⟩
  | promote d =>
      rcases run_promote.1 hr with ⟨w, -, rfl⟩
      exact ⟨rfl, rfl⟩
  | take g =>
      rcases run_take.1 hr with ⟨w, -, rfl⟩
      exact ⟨rfl, rfl⟩
  | accept =>
      rcases run_accept.1 hr with ⟨-, rfl⟩
      exact ⟨rfl, rfl⟩
  | reject g =>
      rcases run_reject.1 hr with ⟨-, rfl⟩
      exact ⟨rfl, rfl⟩
  | delete g =>
      rcases run_delete.1 hr with ⟨-, rfl⟩
      exact ⟨rfl, rfl⟩
  | doneqGet g own k =>
      rcases run_doneqGet.1 hr with ⟨q, hq, rfl⟩
      rcases Doneq.get_eq_some hq with ⟨rest, hrest, rfl⟩
      exact ⟨rfl, hrest⟩
  | pop g =>
      rcases run_pop.1 hr with ⟨q, hq, rfl⟩
      rcases Doneq.processNext_eq_some hq with ⟨hp, rest, hrest, rfl⟩
      exact ⟨rfl, hp, hrest⟩
  | timeout =>
      rcases run_timeout.1 hr with ⟨-, rfl⟩
      exact ⟨rfl, rfl⟩
  | timerGet g =>
      rcases run_timerGet.1 hr with ⟨-, rfl⟩
      exact ⟨rfl, rfl⟩
  | queueHold b =>
      rcases run_queueHold.1 hr with ⟨-, rfl⟩
      exact ⟨rfl, rfl⟩
  | freeze =>
      rcases run_freeze.1 hr with ⟨-, rfl⟩
      exact ⟨rfl, rfl⟩

end Act

/-! ## The runs -/

/-- The thread runs `ghd_doneq_process`. -/
def Ctl.processing : Ctl → Bool
  | .process => true
  | .callback _ => true
  | _ => false

/-- The steps that are considered: `sol11ghd_tran_abort` is not called, and the soft
    interrupt is not taken while it runs. -/
structure Serial (s : GhdSys) (c c' : Ctl) : Prop where
  noAbort : ∀ g, c' ≠ .tranPollmode (.abort g)
  process : c.processing = false → c'.processing = true → ∀ u, (s.thr u).processing = false

/-- A step of one thread in these runs. -/
def SerialStep (gdevOf : Gcmd → GdevId) (s s' : GhdSys) : Prop :=
  Sys.Step (fun t a c a' c' => GhdLocal gdevOf t a c a' c' ∧ Serial s c c') s s'

/-- The states that these runs reach. -/
abbrev SerialReachable (gdevOf : Gcmd → GdevId) : GhdSys → Prop :=
  Reachable GhdInit (SerialStep gdevOf)

theorem SerialStep.ghdStep {gdevOf : Gcmd → GdevId} {s s' : GhdSys} (h : SerialStep gdevOf s s') :
    GhdStep gdevOf s s' := by
  rcases h with ⟨t, c', ⟨hl, -⟩, hthr⟩
  exact ⟨t, c', hl, hthr⟩

theorem SerialReachable.reachable {gdevOf : Gcmd → GdevId} {s : GhdSys}
    (h : SerialReachable gdevOf s) : GhdReachable gdevOf s := by
  refine Reachable.invariant (I := GhdReachable gdevOf) (fun s h0 => Reachable.initial h0) ?_ h
  exact fun s s' _ hI hst => Reachable.tail hI (SerialStep.ghdStep hst)

/-- Not an abort of a single request. -/
def TranReq.NoAbort (r : TranReq) : Prop := ∀ g, r ≠ .abort g

/-- No poll for such an abort. -/
def Poll.NoAbort (p : Poll) : Prop := ∀ r, p.req = .tran r → r.NoAbort

/-- No call for such an abort. -/
def Caller.NoAbort : Caller → Prop
  | poll p => p.NoAbort
  | tran r => r.NoAbort
  | _ => True

/-- Who called the function that a thread is in, if it can be told: the polling thread
    itself, or the entry point. -/
def Ctl.caller : Ctl → Option Caller
  | .hold k _ => some k
  | .holdRet k _ => some k
  | .hba c => some c.caller
  | .del c _ => some c.caller
  | .delShuffle c _ => some c.caller
  | .stop c _ => some c.caller
  | .put c _ => some c.caller
  | .timer k => some k
  | .timerRet k => some k
  | .newstate k _ _ _ => some k
  | .scan k _ _ _ => some k
  | .newstateRet k => some k
  | .tranPollmode r => some (.tran r)
  | .tran r => some (.tran r)
  | .poll p => some (.poll p)
  | .pollWaitq p => some (.poll p)
  | .pollDrain p => some (.poll p)
  | .pollCheck p => some (.poll p)
  | .pollReturn p => some (.poll p)
  | _ => none

/-- No thread is in the course of such an abort. -/
def Ctl.NoAbort (c : Ctl) : Prop :=
  (∀ g, c ≠ .abortPut g) ∧ ∀ k, c.caller = some k → k.NoAbort

theorem Poll.NoAbort.check {p : Poll} (h : p.NoAbort) (a : Ccc) : (p.check a).NoAbort := by
  rcases p.check_eq a with ⟨b, he, -⟩
  rw [he]
  exact h

theorem Poll.noAbort_transport (g : Gcmd) (got : Bool) (q : List Gcmd) :
    (⟨.transport g, got, q⟩ : Poll).NoAbort := fun _ h => nomatch h

/-- A poll that waits for a request is then for a polled transport. -/
theorem Poll.NoAbort.req_of_target {p : Poll} (h : p.NoAbort) {g : Gcmd}
    (hg : p.target = some g) : p.req = .transport g := by
  rcases p with ⟨r, got, q⟩
  cases r with
  | transport g' =>
      cases hg
      rfl
  | tran r =>
      cases r with
      | abort g' => exact absurd rfl (h _ rfl g')
      | abortLun d | resetTarget d | resetBus d => cases hg

section Line

variable {gdevOf : Gcmd → GdevId} {G : Ghost} {a a' : Ccc} {t : Tid} {c c' : Ctl} {x : Act}

theorem Ctl.NoAbort.of_caller {k : Caller} (hc : c.caller = some k) (hk : k.NoAbort)
    (hput : ∀ g, c ≠ .abortPut g) : c.NoAbort := by
  refine ⟨hput, fun k' hk' => ?_⟩
  rw [hc] at hk'
  rw [← Option.some.inj hk']
  exact hk

theorem Ctl.NoAbort.of_none (hc : c.caller = none) (hput : ∀ g, c ≠ .abortPut g) : c.NoAbort := by
  refine ⟨hput, fun k hk => ?_⟩
  rw [hc] at hk
  cases hk

theorem Local.noAbort (h : Local gdevOf a c x c') (hc : c.NoAbort)
    (hentry : ∀ g, c' ≠ .tranPollmode (.abort g)) : c'.NoAbort := by
  cases h with
  | xportPoll g => exact .of_caller rfl (Poll.noAbort_transport g false []) nofun
  | complete k g hg =>
      exact .of_caller (congrArg some (HbaCall.caller_completed k g)) (hc.2 _ rfl) nofun
  | tranEnter r => exact .of_caller rfl (fun g he => hentry g (congrArg _ he)) nofun
  | newstateTran r =>
      refine .of_caller rfl (fun r' he => ?_) nofun
      cases he
      exact hc.2 _ rfl
  | pollCheck p => exact .of_caller rfl (Poll.NoAbort.check (hc.2 _ rfl) a) nofun
  | drainOwn | drainOther | returnPut =>
      exact .of_caller rfl (fun r he => hc.2 _ rfl r he) nofun
  | returnAbort g => exact absurd rfl (hc.2 _ rfl _ rfl g)
  | abortPut g => exact absurd rfl (hc.1 g)
  | tryenter | exitEnter | intrStatus | intrWaitq | softTimer =>
      exact .of_caller rfl trivial nofun
  | _ => first | exact .of_caller rfl (hc.2 _ rfl) nofun | exact .of_none rfl nofun

/-! ## The line -/

/-- The hold queue of the poll that a function was called by. -/
def Caller.holdq : Caller → List Gcmd
  | poll p => p.holdq
  | _ => []

/-- The requests a thread holds that are in front of those on the done queue: the
    hold queue of a poll that has not left its loop. -/
def Ctl.ahead : Ctl → List Gcmd
  | .pollReturn _ => []
  | c => match c.caller with
    | some k => k.holdq
    | none => []

/-- The requests a thread holds that are behind them: the one it is completing, or
    the hold queue that it is putting back. -/
def Ctl.behind : Ctl → List Gcmd
  | .delShuffle _ g => [g]
  | .stop _ g => [g]
  | .put _ g => [g]
  | .pollReturn p => p.holdq
  | _ => []

/-- The done queue is empty when the polling thread has drained it, and when it is
    about to leave the loop with a hold queue. -/
def Ctl.Drained (a : Ccc) : Ctl → Prop
  | .pollCheck _ => a.doneq.queue = []
  | .poll p => p.holdq ≠ [] → a.doneq.queue = []
  | _ => True

/-- The line as one queue: a completed request is added at the end, the soft
    interrupt takes the first, and a polling thread takes out its own. -/
def LineStep : Act → List Gcmd → List Gcmd → Prop
  | .delete g, l, l' => l' = l ++ [g]
  | .pop g, l, l' => l = g :: l'
  | .doneqGet g _ .taken, l, l' => ∃ l₁ l₂, l = l₁ ++ g :: l₂ ∧ l' = l₁ ++ l₂
  | _, l, l' => l' = l

/-- Every edge of a thread that has the HBA mutex is a step of the line. -/
theorem Local.line (h : Local gdevOf a c x c') (hr : x.run gdevOf t a = some a')
    (hc : c.NoAbort) (hd : c.Drained a) (hhba : c.view.hba = true ∨ c'.view.hba = true) :
    LineStep x (c.ahead ++ a.doneq.queue ++ c.behind)
      (c'.ahead ++ a'.doneq.queue ++ c'.behind) := by
  have hq := (Act.run_done hr).2
  cases h with
  | complete k g hg =>
      show (k.completed g).caller.holdq ++ a'.doneq.queue ++ [] = _
      rw [HbaCall.caller_completed]
      exact congrArg (fun q => k.caller.holdq ++ q ++ []) hq
  | del k g =>
      have hq : a'.doneq.queue = a.doneq.queue := hq
      -- A completed request enters the line at its end, behind the done queue.
      show k.caller.holdq ++ a'.doneq.queue ++ [g] = k.caller.holdq ++ a.doneq.queue ++ [] ++ [g]
      rw [hq, List.append_nil]
  | put k g =>
      have hq : a'.doneq.queue = a.doneq.queue ++ [g] := hq
      show k.caller.holdq ++ a'.doneq.queue ++ [] = k.caller.holdq ++ a.doneq.queue ++ [g]
      rw [hq, List.append_nil, List.append_assoc]
  | pollStop p hp =>
      have hq : a'.doneq.queue = a.doneq.queue := hq
      show [] ++ a'.doneq.queue ++ p.holdq = p.holdq ++ a.doneq.queue ++ []
      rw [hq, List.nil_append, List.append_nil]
      -- What was held back goes behind the done queue, which is empty if there is any.
      by_cases hn : p.holdq = []
      · rw [hn, List.append_nil, List.nil_append]
      · rw [hd hn, List.append_nil, List.nil_append]
  | pollCheck p =>
      have hq : a'.doneq.queue = a.doneq.queue := hq
      show (p.check a).holdq ++ a'.doneq.queue ++ [] = p.holdq ++ a.doneq.queue ++ []
      rcases p.check_eq a with ⟨b, he, -⟩
      rw [hq, he]
  | drainOwn p g hg =>
      have hq : a.doneq.queue = g :: a'.doneq.queue := hq
      have hreq := (show p.NoAbort from hc.2 _ rfl).req_of_target hg
      rcases p with ⟨r, got, l⟩
      dsimp only at hreq
      rw [hreq]
      -- The polled request leaves the line, wherever it is.
      refine ⟨l, a'.doneq.queue, ?_, ?_⟩
      · show l ++ a.doneq.queue ++ [] = _
        rw [hq, List.append_nil]
      · show l ++ a'.doneq.queue ++ [] = _
        rw [List.append_nil]
  | drainOther p g hg =>
      have hq : a.doneq.queue = g :: a'.doneq.queue := hq
      show p.holdq ++ [g] ++ a'.doneq.queue ++ [] = p.holdq ++ a.doneq.queue ++ []
      rw [hq, List.append_assoc p.holdq, List.singleton_append]
  | returnPut r got g rest =>
      have hq : a'.doneq.queue = a.doneq.queue ++ [g] := hq
      -- It goes from the front of what is held to the end of the done queue.
      show [] ++ a'.doneq.queue ++ rest = [] ++ a.doneq.queue ++ (g :: rest)
      rw [hq, List.append_assoc, List.append_assoc, List.append_assoc, List.singleton_append]
  | returnAbort g => exact absurd rfl (hc.2 _ rfl _ rfl g)
  | abortPut g => exact absurd rfl (hc.1 g)
  | processPop g => exact absurd hhba (by simp [Ctl.view])
  | _ => exact congrArg (fun q => _ ++ q ++ _) hq

/-- The done queue stays drained while its thread has the HBA mutex. -/
theorem Local.drained (h : Local gdevOf a c x c') (hr : x.run gdevOf t a = some a')
    (hd : c.Drained a) : c'.Drained a' := by
  have hq := (Act.run_done hr).2
  cases h with
  | xportPoll g => exact fun hn => absurd rfl hn
  | newstateTran r => exact fun hn => absurd rfl hn
  | drainEmpty p he =>
      have hq : a'.doneq.queue = a.doneq.queue := hq
      exact hq.trans (Doneq.get_eq_none he)
  | pollCheck p =>
      have hq : a'.doneq.queue = a.doneq.queue := hq
      exact fun _ => hq.trans hd
  | _ => trivial

/-- The other threads do not add to it. -/
theorem Local.queue_of_view (h : Local gdevOf a c x c') (hr : x.run gdevOf t a = some a')
    (hc : c.view.hba = false) : x.QueueStep a.doneq a'.doneq.queue ∧
      (a'.doneq.queue = a.doneq.queue ∨ ∃ g, x = .pop g) := by
  have hq := (Act.run_done hr).2
  refine ⟨hq, ?_⟩
  cases h with
  | processPop g => exact Or.inr ⟨g, rfl⟩
  | put | abortPut | returnPut | drainOwn | drainOther => cases hc
  | _ => exact Or.inl hq

theorem Ctl.Drained.mono (h : c.Drained a)
    (hq : a.doneq.queue = [] → a'.doneq.queue = []) : c.Drained a' := by
  cases c with
  | pollCheck p => exact hq h
  | poll p => exact fun hn => hq (h hn)
  | _ => trivial

theorem Ctl.drained_of_view (h : c.view.hba = false) : c.Drained a := by
  cases c with
  | poll | pollCheck => cases h
  | _ => trivial

/-- A thread without the HBA mutex holds nothing of the line but what the soft
    interrupt has taken off. -/
theorem Ctl.line_of_view (h : c.view.hba = false) : c.ahead = [] ∧ c.behind = [] := by
  cases c with
  | hold | holdRet | hba | del | delShuffle | stop | put | timer | timerRet | newstate | scan
  | newstateRet | tranPollmode | tran | poll | pollWaitq | pollDrain | pollCheck | pollReturn =>
      cases h
  | _ => exact ⟨rfl, rfl⟩

/-- What is in front of the done queue is there in poll mode. -/
theorem Ctl.pollmode_of_ahead (h : c.ahead ≠ []) : c.view.pollmode = true := by
  have hcaller : ∀ k : Caller, k.holdq ≠ [] → k.pollmode = true := by
    intro k hk
    cases k with
    | poll p => rfl
    | _ => exact absurd rfl hk
  cases c with
  | hold k | holdRet k | timer k | timerRet k | newstate k | scan k | newstateRet k =>
      exact hcaller k h
  | hba k | del k | delShuffle k | stop k | put k => exact hcaller k.caller h
  | poll | pollWaitq | pollDrain | pollCheck => rfl
  | _ => exact absurd rfl h

end Line

/-! ## The order -/

/-- The request that the soft interrupt has taken off and not called back yet, when
    there is one. -/
def PoppedStep : Act → List Gcmd → List Gcmd → Prop
  | .pop g, l, l' => l = [] ∧ l' = [g]
  | .callback g true, l, l' => l = [g] ∧ l' = []
  | _, l, l' => l' = l

/-- What the steps that change the history find: a request that is linked is not in
    the line, and neither is one that a polled transport is done with. -/
def LineFits (log : List Event) (popped l : List Gcmd) : Act → Prop
  | .link g _ => g ∉ popped ++ l
  | .callback g true => g ∉ l ∧ openTransport log g = some false
  | .callback g false => g ∉ popped ++ l
  | .doneqGet g _ .taken => openTransport log g ≠ some false
  | _ => True

theorem openTransport_callback_of_ne {log : List Event} {g x : Gcmd} (b : Bool) (h : x ≠ g) :
    openTransport (.callback g b :: log) x = openTransport log x := if_neg h

theorem openTransport_link_of_ne {log : List Event} {g x : Gcmd} (b : Bool) (h : x ≠ g) :
    openTransport (.transport g b :: log) x = openTransport log x := if_neg h

/-- A step of the line keeps the callbacks in the order of the completions. -/
theorem order_step {log : List Event} {popped popped' l l' : List Gcmd} {x : Act}
    (h : completions log = (plain log (popped ++ l)).reverse ++ callbacks log)
    (hline : LineStep x l l') (hpopped : PoppedStep x popped popped')
    (hfits : LineFits log popped l x) :
    completions (x.logAfter log) =
      (plain (x.logAfter log) (popped' ++ l')).reverse ++ callbacks (x.logAfter log) := by
  -- An event about a request outside the line does not change what is plain in the line.
  have hkeep : ∀ {log' : List Event} {g : Gcmd}, g ∉ popped ++ l →
      (∀ y, y ≠ g → openTransport log' y = openTransport log y) →
        plain log' (popped ++ l) = plain log (popped ++ l) := by
    intro log' g hg hne
    refine plain_congr fun y hy => hne y ?_
    rintro rfl
    exact hg hy
  cases x with
  | delete g =>
      have hplain : plain (.complete g :: log) (popped ++ (l ++ [g])) =
          plain log (popped ++ l) ++ plain log [g] := by
        rw [← List.append_assoc, ← plain_append]
        exact plain_congr fun _ _ => rfl
      rw [show popped' = popped from hpopped, show l' = l ++ [g] from hline]
      show completions (.complete g :: log) =
        (plain (.complete g :: log) (popped ++ (l ++ [g]))).reverse ++ callbacks log
      rw [hplain, plain_cons, completions, h]
      -- Only what was not transported polled is to be called back.
      by_cases hg : openTransport log g = some false
      · rw [if_pos hg, if_pos hg, List.reverse_append]
        rfl
      · rw [if_neg hg, if_neg hg, plain_nil, List.append_nil]
  | pop g =>
      rw [hpopped.1, show l = g :: l' from hline] at h
      rw [hpopped.2]
      exact h
  | doneqGet g own k =>
      rw [show popped' = popped from hpopped]
      cases k with
      | taken =>
          rcases hline with ⟨l₁, l₂, hl, hl'⟩
          -- It was transported polled, so it is not plain.
          show completions log = (plain log (popped ++ l')).reverse ++ callbacks log
          rw [h, hl, hl', plain_append, plain_append, plain_append, plain_append, plain_cons,
            if_neg hfits]
      | _ =>
          rw [show l' = l from hline]
          exact h
  | link g polled =>
      rw [show popped' = popped from hpopped, show l' = l from hline]
      show completions log = (plain (.transport g polled :: log) _).reverse ++ callbacks log
      rw [hkeep hfits fun y hy => openTransport_link_of_ne polled hy]
      exact h
  | callback g b =>
      rw [show l' = l from hline]
      cases b with
      | false =>
          rw [show popped' = popped from hpopped]
          show completions log = (plain (.callback g false :: log) _).reverse ++ callbacks log
          rw [hkeep hfits fun y hy => openTransport_callback_of_ne false hy]
          exact h
      | true =>
          -- The first of the line is called back, and it is not in the line twice.
          have hplain : plain (.callback g true :: log) l = plain log l := by
            refine plain_congr fun y hy => openTransport_callback_of_ne true ?_
            rintro rfl
            exact hfits.1 hy
          rw [hpopped.1, List.singleton_append, plain_cons, if_pos hfits.2, List.reverse_cons,
            List.append_assoc] at h
          rw [hpopped.2, List.nil_append]
          show completions log = (plain (.callback g true :: log) l).reverse ++ g :: callbacks log
          rw [hplain]
          exact h
  | _ =>
      rw [show popped' = popped from hpopped, show l' = l from hline]
      exact h

/-! ## The threads -/

/-- The requests of the line that are not on the done queue, and the thread that runs
    `ghd_doneq_process`. -/
structure InFlight where
  process : Option Tid
  popped : List Gcmd
  ahead : List Gcmd
  behind : List Gcmd

/-- The line behind what the soft interrupt has taken off. -/
def InFlight.line (K : InFlight) (q : List Gcmd) : List Gcmd := K.ahead ++ q ++ K.behind

/-- The request that a thread of the soft interrupt has taken off. -/
def Ctl.popped : Ctl → List Gcmd
  | .callback g => [g]
  | _ => []

/-- What the shared state asserts. -/
structure DoneOk (K : InFlight) (a : Ccc) : Prop where
  free : a.hbaMutex = none → K.ahead = [] ∧ K.behind = []
  popped : K.process = none → K.popped = []
  order : completions a.log =
    (plain a.log (K.popped ++ K.line a.doneq.queue)).reverse ++ callbacks a.log

/-- What a control point asserts. -/
structure CtlDone (K : InFlight) (t : Tid) (a : Ccc) (c : Ctl) : Prop where
  line : c.view.hba = true → K.ahead = c.ahead ∧ K.behind = c.behind
  owner : a.hbaMutex = some t → c.view.hba = true
  drained : c.Drained a
  noAbort : c.NoAbort
  process : c.processing = true ↔ K.process = some t
  popped : c.processing = true → K.popped = c.popped

/-- The order in a state of the whole system. -/
abbrev DoneInv : InFlight → GhdSys → Prop := Sys.Holds DoneOk CtlDone

/-- What is in flight after a step of thread `t` from `c` to `c'`. -/
def InFlight.next (K : InFlight) (t : Tid) (c c' : Ctl) : InFlight where
  process := if c'.processing then some t else if c.processing then none else K.process
  popped := if c.processing || c'.processing then c'.popped else K.popped
  ahead := if c.view.hba || c'.view.hba then c'.ahead else K.ahead
  behind := if c.view.hba || c'.view.hba then c'.behind else K.behind

section Threads

variable {gdevOf : Gcmd → GdevId} {G : Ghost} {K : InFlight} {s : GhdSys} {a' : Ccc} {t : Tid}
  {c c' : Ctl} {x : Act}

theorem Ctl.hands_of_ahead {g : Gcmd} (h : g ∈ c.ahead) : (g, .holding) ∈ c.view.hands := by
  have hcaller : ∀ k : Caller, g ∈ k.holdq → (g, .holding) ∈ k.hands := by
    intro k hk
    cases k with
    | poll p => exact List.mem_append_right _ (List.mem_map_of_mem hk)
    | _ => cases hk
  cases c with
  | hold k | holdRet k | timer k | timerRet k | newstate k | scan k | newstateRet k =>
      exact hcaller k h
  | hba k | del k => exact hcaller k.caller h
  | delShuffle k | stop k | put k => exact List.mem_cons_of_mem _ (hcaller k.caller h)
  | poll p | pollWaitq p | pollDrain p | pollCheck p => exact hcaller (.poll p) h
  | _ => cases h

theorem Ctl.hands_of_behind {g : Gcmd} (h : g ∈ c.behind) :
    ∃ k, (g, k) ∈ c.view.hands ∧ (k = .holding ∨ k = .completing) := by
  cases c with
  | delShuffle k g' | stop k g' | put k g' =>
      rw [List.mem_singleton.1 h]
      exact ⟨.completing, List.mem_cons_self, Or.inr rfl⟩
  | pollReturn p =>
      exact ⟨.holding, List.mem_append_right _ (List.mem_map_of_mem h), Or.inl rfl⟩
  | _ => cases h

/-- What is in flight but not on the done queue is held by the thread that has the HBA
    mutex. -/
theorem DoneInv.holder (hK : DoneInv K s) (h : K.ahead ≠ [] ∨ K.behind ≠ []) :
    ∃ u, (s.thr u).view.hba = true ∧ K.ahead = (s.thr u).ahead ∧
      K.behind = (s.thr u).behind := by
  cases hm : s.shared.hbaMutex with
  | none =>
      rcases hK.1.free hm with ⟨ha, hb⟩
      exact (h.elim (fun hn => hn ha) fun hn => hn hb).elim
  | some u =>
      have hu := (hK.2 u).owner hm
      exact ⟨u, hu, (hK.2 u).line hu⟩

/-- Where the requests of the line are. -/
theorem DoneInv.mem_line (hG : GhdInv gdevOf G s) (hK : DoneInv K s) {g : Gcmd}
    (hg : g ∈ K.line s.shared.doneq.queue) :
    G.place g = .doneq ∨ ∃ u k, G.place g = .hand u k ∧ (k = .holding ∨ k = .completing) := by
  -- In front of the done queue, on it, or behind it.
  rcases List.mem_append.1 hg with hg | hg
  · rcases List.mem_append.1 hg with hg | hg
    · rcases hK.holder (Or.inl (List.ne_nil_of_mem hg)) with ⟨u, -, ha, -⟩
      rw [ha] at hg
      have hp := ((hG.2 u).1.hands g .holding).2 (Ctl.hands_of_ahead hg)
      exact Or.inr ⟨u, .holding, hp, Or.inl rfl⟩
    · exact Or.inl ((hG.1.doneq g).2 hg)
  · rcases hK.holder (Or.inr (List.ne_nil_of_mem hg)) with ⟨u, -, -, hb⟩
    rw [hb] at hg
    rcases Ctl.hands_of_behind hg with ⟨k, hk, hkind⟩
    exact Or.inr ⟨u, k, ((hG.2 u).1.hands g k).2 hk, hkind⟩

theorem DoneInv.mem_popped (hG : GhdInv gdevOf G s) (hK : DoneInv K s) {g : Gcmd}
    (hg : g ∈ K.popped) : ∃ u, G.place g = .hand u .popped := by
  cases hp : K.process with
  | none =>
      rw [hK.1.popped hp] at hg
      cases hg
  | some u =>
      have hu := (hK.2 u).process.2 hp
      rw [(hK.2 u).popped hu] at hg
      refine ⟨u, ((hG.2 u).1.hands g .popped).2 ?_⟩
      generalize s.thr u = c at hg hu ⊢
      cases c with
      | callback g' =>
          rw [List.mem_singleton.1 hg]
          exact List.mem_cons_self
      | _ => cases hg

/-- A request in the hands of a thread for another reason is not in the line. -/
theorem DoneInv.not_mem (hG : GhdInv gdevOf G s) (hK : DoneInv K s) {g : Gcmd} {k : Hand}
    (hp : G.place g = .hand t k) (hk : k = .calling ∨ k = .taken) :
    g ∉ K.popped ++ K.line s.shared.doneq.queue := by
  intro hg
  rcases List.mem_append.1 hg with hg | hg
  · rcases hK.mem_popped hG hg with ⟨u, hu⟩
    rw [hp] at hu
    cases hu
    rcases hk with hk | hk <;> cases hk
  · rcases hK.mem_line hG hg with hd | ⟨u, k', hu, hk'⟩
    · rw [hp] at hd
      cases hd
    · rw [hp] at hu
      cases hu
      rcases hk with rfl | rfl <;> rcases hk' with hk' | hk' <;> cases hk'

theorem Local.lineFits (hx : Local gdevOf s.shared (s.thr t) x c')
    (hr : x.run gdevOf t s.shared = some a') (hG : GhdInv gdevOf G s) (hK : DoneInv K s) :
    LineFits s.shared.log K.popped (K.line s.shared.doneq.queue) x := by
  have hv := hG.viewStep hx hr
  have ho := (hG.2 t).1
  generalize hc : s.thr t = c at hx hv ho
  cases hx with
  | xportLink g polled =>
      exact hK.not_mem hG ((ho.hands g .calling).2 List.mem_cons_self) (Or.inl rfl)
  | xportDone g =>
      exact hK.not_mem hG ((ho.hands g .taken).2 List.mem_cons_self) (Or.inr rfl)
  | callback g =>
      have hp := (ho.hands g .popped).2 List.mem_cons_self
      have hlog := hG.1.log g
      simp only [Ghost.LogOk, hp] at hlog
      refine ⟨fun hg => ?_, hlog⟩
      rcases hK.mem_line hG hg with hd | ⟨u, k', hu, hk'⟩
      · rw [hp] at hd
        cases hd
      · rw [hp] at hu
        cases hu
        rcases hk' with hk' | hk' <;> cases hk'
  | drainOwn p g hg =>
      rcases hv.allowed.2 with ⟨hk, hs⟩ | ⟨hk, -⟩
      · rw [hk]
        have hserver := (ho.owner rfl).1.trans hs
        show openTransport s.shared.log g ≠ some false
        rw [(hG.1.server g hserver).2.2]
        simp
      · rw [hk]
        trivial
  | _ => trivial

/-- The popped request, by the thread of the soft interrupt. -/
theorem Local.poppedStep (hx : Local gdevOf s.shared (s.thr t) x c') (hK : DoneInv K s)
    (hser : Serial s (s.thr t) c') :
    PoppedStep x K.popped (K.next t (s.thr t) c').popped := by
  -- It has popped nothing yet when it enters, and no other thread is in it.
  have hstart : (s.thr t).processing = false → c'.processing = true → K.popped = [] := by
    intro hc hc'
    refine hK.1.popped (Option.eq_none_iff_forall_not_mem.2 fun u hu => ?_)
    have hidle := hser.process hc hc' u
    rw [(hK.2 u).process.2 hu] at hidle
    cases hidle
  have hpop := (hK.2 t).popped
  generalize s.thr t = c at hx hstart hpop
  cases hx with
  | processPop g => exact ⟨hpop rfl, rfl⟩
  | callback g => exact ⟨hpop rfl, rfl⟩
  | process => exact (hstart rfl rfl).symm
  | processQuit h => exact (hpop rfl).symm
  | _ => rfl

/-- A thread without the HBA mutex leaves the line alone, but that the soft interrupt
    takes the first of the done queue. -/
theorem Local.line_of_view (hx : Local gdevOf s.shared (s.thr t) x c')
    (hr : x.run gdevOf t s.shared = some a') (hG : GhdInv gdevOf G s) (hK : DoneInv K s)
    (hc : (s.thr t).view.hba = false) :
    LineStep x (K.line s.shared.doneq.queue) (K.line a'.doneq.queue) := by
  have hq := (Act.run_done hr).2
  -- Outside poll mode nothing is held back, so the done queue begins the line.
  have hahead : s.shared.doneq.pollmode = false → K.ahead = [] := by
    intro hp
    by_contra hn
    rcases hK.holder (Or.inl hn) with ⟨u, hu, ha, -⟩
    rw [ha] at hn
    have hpoll := ((hG.2 u).1.owner hu).2 (Ctl.pollmode_of_ahead hn)
    rw [hp] at hpoll
    cases hpoll
  unfold InFlight.line
  generalize s.thr t = c at hx hc
  cases hx with
  | processPop g =>
      rcases (show _ ∧ _ from hq) with ⟨hp, hq⟩
      rw [hahead hp, hq]
      rfl
  | put | abortPut | returnPut | drainOwn | drainOther | del => cases hc
  | _ => exact congrArg (fun q => K.ahead ++ q ++ K.behind) hq

theorem InFlight.next_holder (h : c.view.hba = true ∨ c'.view.hba = true) :
    (K.next t c c').ahead = c'.ahead ∧ (K.next t c c').behind = c'.behind := by
  have hb : (c.view.hba || c'.view.hba) = true := Bool.or_eq_true_iff.2 h
  exact ⟨if_pos hb, if_pos hb⟩

theorem InFlight.next_other (hc : c.view.hba = false) (hc' : c'.view.hba = false) :
    (K.next t c c').ahead = K.ahead ∧ (K.next t c c').behind = K.behind := by
  have hb : ¬ (c.view.hba || c'.view.hba) = true := by
    rw [hc, hc']
    exact Bool.false_ne_true
  exact ⟨if_neg hb, if_neg hb⟩

/-- Every step is a step of the line. -/
theorem Local.lineStep (hx : Local gdevOf s.shared (s.thr t) x c')
    (hr : x.run gdevOf t s.shared = some a') (hG : GhdInv gdevOf G s) (hK : DoneInv K s) :
    LineStep x (K.line s.shared.doneq.queue)
      ((K.next t (s.thr t) c').line a'.doneq.queue) := by
  -- Either this thread has the HBA mutex before or after the step, or it has it at neither.
  have hown : (s.thr t).view.hba = true ∨ c'.view.hba = true →
      K.ahead = (s.thr t).ahead ∧ K.behind = (s.thr t).behind →
        LineStep x (K.line s.shared.doneq.queue)
          ((K.next t (s.thr t) c').line a'.doneq.queue) := by
    intro hh hparts
    rcases InFlight.next_holder (K := K) (t := t) hh with ⟨ha, hb⟩
    unfold InFlight.line
    rw [hparts.1, hparts.2, ha, hb]
    exact hx.line hr (hK.2 t).noAbort (hK.2 t).drained hh
  cases hc : (s.thr t).view.hba with
  | true => exact hown (Or.inl hc) ((hK.2 t).line hc)
  | false =>
      cases hc' : c'.view.hba with
      | true =>
          rcases hK.1.free (hG.acquires hx hr hc hc') with ⟨ha, hb⟩
          rcases Ctl.line_of_view hc with ⟨ha', hb'⟩
          exact hown (Or.inr hc') ⟨ha.trans ha'.symm, hb.trans hb'.symm⟩
      | false =>
          rcases InFlight.next_other (K := K) (t := t) hc hc' with ⟨ha, hb⟩
          have hline := hx.line_of_view hr hG hK hc
          unfold InFlight.line at hline ⊢
          rw [ha, hb]
          exact hline

theorem Ctl.popped_of_processing (h : c.processing = false) : c.popped = [] := by
  cases c with
  | callback g => cases h
  | _ => rfl

theorem InFlight.next_enter (hc' : c'.processing = true) :
    (K.next t c c').process = some t ∧ (K.next t c c').popped = c'.popped :=
  ⟨if_pos hc', if_pos (Bool.or_eq_true_iff.2 (Or.inr hc'))⟩

theorem InFlight.next_leave (hc : c.processing = true) (hc' : c'.processing = false) :
    (K.next t c c').process = none ∧ (K.next t c c').popped = [] := by
  refine ⟨?_, ?_⟩
  · unfold next
    rw [hc, hc']
    rfl
  · rw [← Ctl.popped_of_processing hc']
    exact if_pos (Bool.or_eq_true_iff.2 (Or.inl hc))

theorem InFlight.next_outside (hc : c.processing = false) (hc' : c'.processing = false) :
    (K.next t c c').process = K.process ∧ (K.next t c c').popped = K.popped := by
  unfold next
  rw [hc, hc']
  exact ⟨rfl, rfl⟩

/-- Every step keeps the order. -/
theorem DoneOk.step (hx : Local gdevOf s.shared (s.thr t) x c')
    (hr : x.run gdevOf t s.shared = some a') (hG : GhdInv gdevOf G s) (hK : DoneInv K s)
    (hser : Serial s (s.thr t) c') : DoneOk (K.next t (s.thr t) c') a' := by
  refine ⟨fun hfree => ?_, fun hp => ?_, ?_⟩
  · -- The HBA mutex is free after the step: nothing is held by anybody.
    have hfree' := Act.hbaMutexAfter_eq_none ((Act.frame hr).hbaMutex.symm.trans hfree)
    have hv := hG.viewStep hx hr
    have hc' : c'.view.hba = false := by
      by_contra hn
      have howner := ((hG.2 t).1.step hG.1 hv (hx.placeOk (hG.2 t).2) hr).hba
        (eq_true_of_ne_false hn)
      rw [hfree] at howner
      cases howner
    cases hc : (s.thr t).view.hba with
    | true =>
        rw [(InFlight.next_holder (Or.inl hc)).1, (InFlight.next_holder (Or.inl hc)).2]
        exact Ctl.line_of_view hc'
    | false =>
        rw [(InFlight.next_other hc hc').1, (InFlight.next_other hc hc').2]
        refine hK.1.free (hfree'.resolve_left ?_)
        rintro rfl
        exact Bool.false_ne_true (hc.symm.trans hv.allowed.1)
  · cases hc' : c'.processing with
    | true =>
        rw [(InFlight.next_enter hc').1] at hp
        cases hp
    | false =>
        cases hc : (s.thr t).processing with
        | true => exact (InFlight.next_leave hc hc').2
        | false =>
            rw [(InFlight.next_outside hc hc').1] at hp
            rw [(InFlight.next_outside hc hc').2]
            exact hK.1.popped hp
  · rw [(Act.run_done hr).1]
    exact order_step hK.1.order (hx.lineStep hr hG hK) (hx.poppedStep hK hser)
      (hx.lineFits hr hG hK)

theorem Act.hbaAfter_of_mutex {m : Option Tid} {b : Bool} (h : x.hbaMutexAfter t m = some t)
    (hb : m = some t → b = true) : x.hbaAfter b = true := by
  cases x with
  | lockHba | lockHbaSoft => rfl
  | unlockHba => cases h
  | _ => exact hb h

/-- A thread's own step keeps what its control point asserts. -/
theorem CtlDone.step (hx : Local gdevOf s.shared (s.thr t) x c')
    (hr : x.run gdevOf t s.shared = some a') (hG : GhdInv gdevOf G s) (hK : DoneInv K s)
    (hser : Serial s (s.thr t) c') : CtlDone (K.next t (s.thr t) c') t a' c' where
  line := fun hc' => InFlight.next_holder (Or.inr hc')
  owner := fun ho => by
    rw [(hG.viewStep hx hr).hba]
    exact Act.hbaAfter_of_mutex ((Act.frame hr).hbaMutex.symm.trans ho) (hK.2 t).owner
  drained := hx.drained hr (hK.2 t).drained
  noAbort := hx.noAbort (hK.2 t).noAbort hser.noAbort
  process := by
    cases hc' : c'.processing with
    | true => exact iff_of_true rfl (InFlight.next_enter hc').1
    | false =>
        refine iff_of_false Bool.false_ne_true fun hp => ?_
        cases hc : (s.thr t).processing with
        | true =>
            rw [(InFlight.next_leave hc hc').1] at hp
            cases hp
        | false =>
            rw [(InFlight.next_outside hc hc').1] at hp
            exact Bool.false_ne_true (hc.symm.trans ((hK.2 t).process.2 hp))
  popped := fun hc' => (InFlight.next_enter hc').2

/-- The soft interrupt does not run in another thread when one is in it, or gets
    into it. -/
theorem DoneInv.not_processing (hK : DoneInv K s) (hser : Serial s (s.thr t) c') {u : Tid}
    (hu : u ≠ t) (hc : (s.thr t).processing = true ∨ c'.processing = true) :
    (s.thr u).processing = false := by
  cases ht : (s.thr t).processing with
  | true =>
      by_contra hn
      have hpt := (hK.2 t).process.1 ht
      have hpu := (hK.2 u).process.1 (eq_true_of_ne_false hn)
      rw [hpt] at hpu
      exact hu (Option.some.inj hpu).symm
  | false =>
      refine hser.process ht (hc.resolve_left fun hn => ?_) u
      exact Bool.false_ne_true (ht.symm.trans hn)

/-- The other threads do not notice. -/
theorem CtlDone.quiet (hx : Local gdevOf s.shared (s.thr t) x c')
    (hr : x.run gdevOf t s.shared = some a') (hG : GhdInv gdevOf G s) (hK : DoneInv K s)
    (hser : Serial s (s.thr t) c') {u : Tid} (hu : u ≠ t) :
    CtlDone (K.next t (s.thr t) c') u a' (s.thr u) := by
  -- While another thread has the HBA mutex, this one neither has nor takes it.
  have hother : (s.thr u).view.hba = true → (s.thr t).view.hba = false ∧ c'.view.hba = false := by
    intro hb
    have hm := (hG.2 u).1.hba hb
    have hc : (s.thr t).view.hba = false := by
      by_contra hn
      exact hu (hG.hba_unique hb (eq_true_of_ne_false hn))
    refine ⟨hc, ?_⟩
    by_contra hn
    have hfree := hG.acquires hx hr hc (eq_true_of_ne_false hn)
    rw [hm] at hfree
    cases hfree
  have hold := hK.2 u
  constructor
  · intro hb
    rcases hother hb with ⟨hc, hc'⟩
    rw [(InFlight.next_other hc hc').1, (InFlight.next_other hc hc').2]
    exact hold.line hb
  · intro ho
    exact hold.owner (Act.hbaMutexAfter_eq_some hu ((Act.frame hr).hbaMutex.symm.trans ho))
  · cases hb : (s.thr u).view.hba with
    | false => exact Ctl.drained_of_view hb
    | true =>
        refine hold.drained.mono fun hempty => ?_
        rcases hx.queue_of_view hr (hother hb).1 with ⟨hq, hsame | ⟨g, rfl⟩⟩
        · exact hsame.trans hempty
        · exact nomatch hempty.symm.trans hq.2
  · exact hold.noAbort
  · cases hc' : c'.processing with
    | true =>
        rw [hK.not_processing hser hu (Or.inr hc'), (InFlight.next_enter hc').1]
        exact iff_of_false Bool.false_ne_true fun he => hu (Option.some.inj he).symm
    | false =>
        cases hc : (s.thr t).processing with
        | true =>
            rw [hK.not_processing hser hu (Or.inl hc), (InFlight.next_leave hc hc').1]
            exact iff_of_false Bool.false_ne_true nofun
        | false =>
            rw [(InFlight.next_outside hc hc').1]
            exact hold.process
  · intro hp
    have houtside : ¬ ((s.thr t).processing = true ∨ c'.processing = true) := fun hc =>
      Bool.false_ne_true ((hK.not_processing hser hu hc).symm.trans hp)
    have hc := eq_false_of_ne_true fun hn => houtside (Or.inl hn)
    have hc' := eq_false_of_ne_true fun hn => houtside (Or.inr hn)
    rw [(InFlight.next_outside hc hc').2]
    exact hold.popped hp

/-! ## The result -/

theorem doneInv_init (h : GhdInit s) : ∃ K, DoneInv K s := by
  refine ⟨⟨none, [], [], []⟩, ⟨fun _ => ⟨rfl, rfl⟩, fun _ => rfl, ?_⟩, fun t => ?_⟩
  · rw [h.log, h.doneq]
    rfl
  · rw [h.thr t]
    refine ⟨nofun, fun ho => ?_, trivial, .of_none rfl nofun, ?_, nofun⟩
    · rw [h.mutexes.1] at ho
      cases ho
    · exact iff_of_false Bool.false_ne_true nofun

theorem SerialReachable.doneInv (h : SerialReachable gdevOf s) : ∃ K, DoneInv K s := by
  refine Reachable.invariant (I := fun s => ∃ K, DoneInv K s) (fun _ h0 => doneInv_init h0) ?_ h
  intro s s' hreach hK hst
  rcases ghd_reachable_inv (SerialReachable.reachable hreach) with ⟨G, hG⟩
  rcases hK with ⟨K, hK⟩
  refine Sys.Holds.step hst fun t c' hl => ?_
  rcases hl with ⟨⟨x, hx, hr⟩, hser⟩
  exact ⟨K.next t (s.thr t) c', .step hx hr hG hK hser, .step hx hr hG hK hser,
    fun u hu => .quiet hx hr hG hK hser hu⟩

/-- The thread has taken a request off the done queue that was transported polled,
    and has been completed and not been called back. -/
structure Taken (s : GhdSys) (t : Tid) (g : Gcmd) : Prop where
  hands : (g, .taken) ∈ (s.thr t).view.hands
  doneq : g ∉ s.shared.doneq.queue
  polled : openTransport s.shared.log g = some true
  completed : ¬ Outstanding s.shared.log g

theorem GhdInv.taken (hG : GhdInv gdevOf G s) {g : Gcmd}
    (h : (g, .taken) ∈ (s.thr t).view.hands) : Taken s t g := by
  have hp := ((hG.2 t).1.hands g .taken).2 h
  have hlog := hG.1.log g
  simp only [Ghost.LogOk, hp] at hlog
  refine ⟨h, hG.1.not_doneq ?_, hlog.1, hG.1.not_outstanding ?_ ?_⟩
  · simp [hp]
  · simp [hp]
  · simp [hp]

/-- In every run without aborts of single requests in which the soft interrupt does
    not run twice at a time, the requests that have been called back are the first of
    those that have been completed, in the same order. When `ghd_poll` has left its
    loop for a polled request, it has taken that one off the done queue, and when it
    has returned it has no other. -/
theorem callbacks_in_order (h : SerialReachable gdevOf s) :
    callbacks s.shared.log <:+ completions s.shared.log ∧
      (∀ t p g, s.thr t = .pollReturn p → p.req = .transport g → Taken s t g) ∧
        ∀ t g, s.thr t = .pollmodeExit (some g) →
          Taken s t g ∧ ∀ x k, (x, k) ∈ (s.thr t).view.hands → x = g := by
  rcases h.doneInv with ⟨K, hK⟩
  rcases ghd_reachable_inv (SerialReachable.reachable h) with ⟨G, hG⟩
  refine ⟨?_, fun t p g ht hreq => hG.taken ?_, fun t g ht => ⟨hG.taken ?_, fun x k hx => ?_⟩⟩
  · exact ⟨_, hK.1.order.symm⟩
  · have hk := (hG.2 t).2
    rw [ht] at hk ⊢
    rcases p with ⟨r, got, l⟩
    dsimp only at hreq
    rw [hreq] at hk ⊢
    rw [show got = true from hk.resolve_right id]
    exact List.mem_cons_self
  · rw [ht]
    exact List.mem_cons_self
  · rw [ht] at hx
    exact congrArg Prod.fst (List.mem_singleton.1 hx)

end Threads

theorem SerialReachable.next {gdevOf : Gcmd → GdevId} {s : GhdSys} (h : SerialReachable gdevOf s)
    (t : Tid) {x : Act} {c : Ctl} (hl : Local gdevOf s.shared (s.thr t) x c)
    (hr : (x.run gdevOf t s.shared).isSome = true) (hserial : Serial s (s.thr t) c) :
    SerialReachable gdevOf (s.next gdevOf t x c) :=
  Reachable.tail h ⟨t, c, ⟨⟨x, hl, GhdSys.run_next hr⟩, hserial⟩, rfl⟩

/-- Not a point of the soft interrupt, or of the abort of a single request. -/
def Ctl.harmless : Ctl → Bool
  | .process => false
  | .callback _ => false
  | .tranPollmode (.abort _) => false
  | _ => true

theorem Serial.of_harmless {s : GhdSys} {c c' : Ctl} (h : c'.harmless = true) : Serial s c c' := by
  refine ⟨?_, fun _ hc' => ?_⟩
  · rintro g rfl
    cases h
  · cases c' with
    | process | callback => cases h
    | _ => cases hc'

theorem SerialReachable.after {gdevOf : Gcmd → GdevId} {s : GhdSys} (h : SerialReachable gdevOf s)
    (l : List (Tid × Act × Ctl)) (hl : s.RunOk gdevOf l)
    (hserial : l.all (fun e => e.2.2.harmless) = true) :
    SerialReachable gdevOf (s.after gdevOf l) := by
  induction l generalizing s with
  | nil => exact h
  | cons e l ih =>
      simp only [List.all_cons, Bool.and_eq_true] at hserial
      exact ih (h.next e.1 hl.1 hl.2.1 (.of_harmless hserial.1)) hl.2.2 hserial.2

/-- The poll of a transport of request 3. -/
abbrev pollThree (got : Bool) (l : List Gcmd) : Poll := ⟨.transport 3, got, l⟩

/-- Request 5 is active while request 3 is transported polled. It is completed in the
    first round of the poll, which holds it back, and request 3 in the second. -/
def polledAround : List (Tid × Act × Ctl) :=
  [(0, .call 5, .xportLink 5 false), (0, .link 5 false, .xportShuffle 5 false),
    (0, .promote 5, .xportShuffle 5 false), (0, .skip, .xportShuffled 5 false),
    (0, .lockHba, .hold (.exit none) false),
    (0, .take 5, .hba (.start (.exit none) false 5 false)), (0, .accept, .hold (.exit none) true),
    (0, .skip, .holdRet (.exit none) true), (0, .unlockHba, .exitWaitq none),
    (0, .unlockWaitq, .idle),
    (1, .call 3, .xportHba 3), (1, .lockHba, .xportPollmode 3),
    (1, .pollmodeEnter, .xportLink 3 true), (1, .link 3 true, .xportShuffle 3 true),
    (1, .promote 3, .xportShuffle 3 true), (1, .skip, .xportShuffled 3 true),
    (1, .unlockWaitq, .poll (pollThree false [])),
    (1, .skip, .hba (.status (.poll (pollThree false [])))),
    (1, .skip, .del (.status (.poll (pollThree false []))) 5),
    (1, .delete 5, .delShuffle (.status (.poll (pollThree false []))) 5),
    (1, .unlockWaitq, .stop (.status (.poll (pollThree false []))) 5),
    (1, .stop 5, .put (.status (.poll (pollThree false []))) 5),
    (1, .doneqPut 5 .completing, .hba (.status (.poll (pollThree false [])))),
    (1, .skip, .pollWaitq (pollThree false [])),
    (1, .lockWaitq, .hold (.poll (pollThree false [])) false),
    (1, .take 3, .hba (.start (.poll (pollThree false [])) false 3 false)),
    (1, .accept, .hold (.poll (pollThree false [])) true),
    (1, .skip, .holdRet (.poll (pollThree false [])) true),
    (1, .unlockWaitq, .timer (.poll (pollThree false []))),
    (1, .skip, .timerRet (.poll (pollThree false []))),
    (1, .skip, .pollDrain (pollThree false [])),
    (1, .doneqGet 5 false .holding, .pollDrain (pollThree false [5])),
    (1, .skip, .pollCheck (pollThree false [5])), (1, .skip, .poll (pollThree false [5])),
    (1, .skip, .hba (.status (.poll (pollThree false [5])))),
    (1, .skip, .del (.status (.poll (pollThree false [5]))) 3),
    (1, .delete 3, .delShuffle (.status (.poll (pollThree false [5]))) 3),
    (1, .unlockWaitq, .stop (.status (.poll (pollThree false [5]))) 3),
    (1, .stop 3, .put (.status (.poll (pollThree false [5]))) 3),
    (1, .doneqPut 3 .completing, .hba (.status (.poll (pollThree false [5])))),
    (1, .skip, .pollWaitq (pollThree false [5])),
    (1, .lockWaitq, .hold (.poll (pollThree false [5])) false),
    (1, .skip, .holdRet (.poll (pollThree false [5])) false),
    (1, .unlockWaitq, .timer (.poll (pollThree false [5]))),
    (1, .skip, .timerRet (.poll (pollThree false [5]))),
    (1, .skip, .pollDrain (pollThree false [5])),
    (1, .doneqGet 3 true .taken, .pollDrain (pollThree true [5])),
    (1, .skip, .pollCheck (pollThree true [5])), (1, .skip, .poll (pollThree true [5])),
    (1, .skip, .pollReturn (pollThree true [5])),
    (1, .doneqPut 5 .holding, .pollReturn (pollThree true [])),
    (1, .skip, .pollmodeExit (some 3))]

theorem polledAround_ok : ghdStart.RunOk id polledAround :=
  ⟨.call 5, rfl, .xportLink 5 false, rfl, .xportShuffle 5 false, rfl,
    .xportShuffled 5 false rfl, rfl, .tryenter 5, rfl, .holdTake _ _ 5, rfl,
    .startAccept _ _ 5 false, rfl, .holdStop _ _ (Or.inl rfl), rfl, .exitHba _ _, rfl,
    .exitWaitq, rfl, .callPolled 3, rfl, .xportHba 3, rfl, .xportPollmode 3, rfl,
    .xportLink 3 true, rfl, .xportShuffle 3 true, rfl, .xportShuffled 3 true rfl, rfl,
    .xportPoll 3, rfl, .pollStatus _ rfl, rfl, .complete _ 5 (by decide), rfl, .del _ _, rfl,
    .delShuffled _ _ rfl, rfl, .stop _ _, rfl, .put _ _, rfl, .pollProcessed _, rfl,
    .pollWaitq _, rfl, .holdTake _ _ 3, rfl, .startAccept _ _ 3 false, rfl,
    .holdStop _ _ (Or.inl rfl), rfl, .pollHeld _ _, rfl, .timerNone _, rfl, .timerPoll _, rfl,
    .drainOther _ 5 (by decide), rfl, .drainEmpty _ rfl, rfl, .pollCheck _, rfl,
    .pollStatus _ rfl, rfl, .complete _ 3 (by decide), rfl, .del _ _, rfl,
    .delShuffled _ _ rfl, rfl, .stop _ _, rfl, .put _ _, rfl, .pollProcessed _, rfl,
    .pollWaitq _, rfl, .holdStop _ _ (Or.inl rfl), rfl, .pollHeld _ _, rfl, .timerNone _, rfl,
    .timerPoll _, rfl, .drainOwn _ 3 rfl, rfl, .drainEmpty _ rfl, rfl, .pollCheck _, rfl,
    .pollStop _ (Or.inl rfl), rfl, .returnPut _ _ 5 [], rfl, .returnTransport 3 true, rfl,
    trivial⟩

/-- The state in which `ghd_poll` has returned. -/
def polledReturned : GhdSys :=
  ghdStart.after id polledAround

theorem polledReturned_reachable : SerialReachable id polledReturned :=
  SerialReachable.after (Reachable.initial ghdStart_init) polledAround polledAround_ok rfl

/-- The soft interrupt then calls the request back that was held. -/
def polledCalledBack : GhdSys :=
  (((polledReturned.next id 1 .pollmodeClear (.pollmodeTest (some 3))).next id 2 .process
    .process).next id 2 (.pop 5) (.callback 5)).next id 2 (.callback 5 true) .process

/-- No thread has run the soft interrupt before. -/
theorem polledReturned_thr (u : Tid) : (polledReturned.thr u).processing = false := by
  by_cases h0 : u = 0
  · rw [h0]
    rfl
  · by_cases h1 : u = 1
    · rw [h1]
      rfl
    · refine congrArg Ctl.processing (GhdSys.after_thr id ghdStart polledAround fun e he => ?_)
      have hmem : ∀ e ∈ polledAround, e.1 = 0 ∨ e.1 = 1 := by decide
      rcases hmem e he with h | h
      · rw [h]
        exact Ne.symm h0
      · rw [h]
        exact Ne.symm h1

theorem polledCalledBack_reachable : SerialReachable id polledCalledBack := by
  have h1 := polledReturned_reachable.next 1 (.pollmodeExit (some 3)) rfl (.of_harmless rfl)
  have h2 := h1.next 2 .process rfl ⟨nofun, fun _ _ u => ?_⟩
  · exact (h2.next 2 (.processPop 5) rfl ⟨nofun, nofun⟩).next 2 (.callback 5) rfl ⟨nofun, nofun⟩
  · by_cases hu : u = 1
    · rw [hu]
      rfl
    · refine Eq.trans (congrArg Ctl.processing ?_) (polledReturned_thr u)
      exact Function.update_of_ne hu _ _

theorem callbacks_in_order_polled :
    callbacks polledCalledBack.shared.log = [5] ∧
      callbacks polledCalledBack.shared.log <:+ completions polledCalledBack.shared.log ∧
        Taken polledReturned 1 3 :=
  ⟨rfl, (callbacks_in_order polledCalledBack_reachable).1,
    ((callbacks_in_order polledReturned_reachable).2.2 1 3 rfl).1⟩

end Ghd

end Sil3112
