import Sil3112.Ghd.Queue
import Sil3112.Lib.Threads

/-!
# The Done Queue

Completed requests wait on the done queue for the soft interrupt that runs
their completion callbacks. The queue has a mutex of its own and a poll mode,
in which a thread that waits for a request of its own takes completions off
the queue itself: while the flag is set producers do not trigger the soft
interrupt, and `ghd_doneq_process` leaves at once.

Three windows could lose a completion. A producer skips the trigger in poll
mode. The consumer quits in poll mode with requests still queued. And
`ghd_doneq_pollmode_exit` looks at the queue only after it has dropped the
mutex. `doneq_no_lost_wakeup` covers all of them.

The threads are unconstrained: any of them may at any time put, get, enter or
leave poll mode, or run the soft interrupt handler. The callers of
`ghd_doneq_pollmode_enter` and `ghd_doneq_pollmode_exit` hold the HBA mutex
and so are serialised; the result does not need it, and every run with that
restriction is a run here. What a completion callback does by re-entering the
driver is done here by other threads.

## Main definitions

* `Doneq`: The queue, the poll mode flag, and whether the soft interrupt is
  pending.
* `DoneqCtl`: Where a thread is between two critical sections.
* `DoneqLocal`: What one thread does in one step.
* `Awake`: Somebody is bound to look at the queue.

## Theorems

* `doneq_no_lost_wakeup`: A queued completion never waits unattended.
-/

namespace Sil3112

namespace Ghd

universe u

/-- The done queue part of a `ccc_t`. `pending` is the soft interrupt
    `ccc_doneq_softid`: triggered, and its handler not yet started. -/
structure Doneq (α : Type u) where
  queue : List α
  pollmode : Bool
  pending : Bool

namespace Doneq

variable {α : Type u}

/-- `ghd_doneq_init` up to the registration of the soft interrupt. -/
def init : Doneq α :=
  { queue := [], pollmode := true, pending := false }

/-- `GHD_DONEQ_PUT_TAIL_INLINE` -/
def putTail (q : Doneq α) (e : α) : Doneq α :=
  { q with queue := l2Add q.queue e, pending := if q.pollmode then q.pending else true }

/-- `GHD_DONEQ_PUT_HEAD_INLINE` -/
def putHead (q : Doneq α) (e : α) : Doneq α :=
  { q with queue := l2AddHead q.queue e, pending := if q.pollmode then q.pending else true }

/-- `ghd_doneq_get` -/
def get (q : Doneq α) : Option (α × Doneq α) :=
  match l2RemoveHead q.queue with
  | none => none
  | some (e, rest) => some (e, { q with queue := rest })

/-- `ghd_doneq_pollmode_enter` -/
def pollmodeEnter (q : Doneq α) : Doneq α :=
  { q with pollmode := true }

/-- `ghd_doneq_pollmode_exit` up to the release of the mutex. -/
def pollmodeClear (q : Doneq α) : Doneq α :=
  { q with pollmode := false }

/-- `ddi_trigger_softintr` of the done queue's soft interrupt. -/
def trigger (q : Doneq α) : Doneq α :=
  { q with pending := true }

/-- The soft interrupt is taken: its handler `ghd_doneq_process` starts. -/
def accept (q : Doneq α) : Doneq α :=
  { q with pending := false }

/-- One pass of `ghd_doneq_process` under the mutex: `none` where it leaves
    the loop, otherwise the request it has popped. -/
def processNext (q : Doneq α) : Option (α × Doneq α) :=
  if q.pollmode then none else q.get

theorem get_eq_some {q q' : Doneq α} {e : α} (h : q.get = some (e, q')) :
    ∃ rest, q.queue = e :: rest ∧ q' = { q with queue := rest } := by
  unfold get at h
  split at h
  · cases h
  · next e' rest hq =>
    rw [Option.some.injEq, Prod.mk.injEq] at h
    rcases h with ⟨rfl, rfl⟩
    exact ⟨rest, l2RemoveHead_eq_some.1 hq, rfl⟩

theorem get_eq_none {q : Doneq α} (h : q.get = none) : q.queue = [] := by
  unfold get at h
  split at h
  · next hq => exact l2RemoveHead_eq_none.1 hq
  · cases h

theorem processNext_eq_some {q q' : Doneq α} {e : α} (h : q.processNext = some (e, q')) :
    q.pollmode = false ∧ ∃ rest, q.queue = e :: rest ∧ q' = { q with queue := rest } := by
  unfold processNext at h
  split at h
  · cases h
  · next hp => exact ⟨by simpa only [Bool.not_eq_true] using hp, get_eq_some h⟩

theorem processNext_eq_none {q : Doneq α} (h : q.processNext = none) :
    q.pollmode = true ∨ q.queue = [] := by
  unfold processNext at h
  split at h
  · next hp => exact Or.inl hp
  · exact Or.inr (get_eq_none h)

end Doneq

/-- Where a thread is between two critical sections of the done queue mutex.
    `idle` stands for all code that does not hold a place in one of these
    functions. -/
inductive DoneqCtl where
  | idle
  | exitTest
  | exitTrigger
  | process
  | callback
  deriving DecidableEq

namespace DoneqCtl

/-- The thread runs `ghd_doneq_process` and has yet to make its final check of
    the queue. -/
def Processing (c : DoneqCtl) : Prop :=
  c = process ∨ c = callback

/-- The thread is inside `ghd_doneq_pollmode_exit`, past the clearing of the
    flag and not past the trigger. -/
def Leaving (c : DoneqCtl) : Prop :=
  c = exitTest ∨ c = exitTrigger

end DoneqCtl

section DoneqSystem

open Transition

variable {α : Type u}

/-- What one thread does in one step. `notify` is the test of
    `GCMDFLG_RESET_NOTIFY`; such an entry is dealt with under the mutex and
    discarded. -/
inductive DoneqLocal (notify : α → Bool) :
    Nat → Doneq α → DoneqCtl → Doneq α → DoneqCtl → Prop where
  | putTail (t : Nat) (q : Doneq α) (e : α) :
      DoneqLocal notify t q .idle (q.putTail e) .idle
  | putHead (t : Nat) (q : Doneq α) (e : α) :
      DoneqLocal notify t q .idle (q.putHead e) .idle
  | get (t : Nat) (q q' : Doneq α) (e : α) (h : q.get = some (e, q')) :
      DoneqLocal notify t q .idle q' .idle
  | pollmodeEnter (t : Nat) (q : Doneq α) :
      DoneqLocal notify t q .idle q.pollmodeEnter .idle
  | pollmodeClear (t : Nat) (q : Doneq α) :
      DoneqLocal notify t q .idle q.pollmodeClear .exitTest
  | exitEmpty (t : Nat) (q : Doneq α) (h : q.queue = []) :
      DoneqLocal notify t q .exitTest q .idle
  | exitNonempty (t : Nat) (q : Doneq α) (h : q.queue ≠ []) :
      DoneqLocal notify t q .exitTest q .exitTrigger
  | trigger (t : Nat) (q : Doneq α) :
      DoneqLocal notify t q .exitTrigger q.trigger .idle
  | accept (t : Nat) (q : Doneq α) :
      DoneqLocal notify t q .idle q.accept .process
  | quit (t : Nat) (q : Doneq α) (h : q.processNext = none) :
      DoneqLocal notify t q .process q .idle
  | popNotify (t : Nat) (q q' : Doneq α) (e : α) (h : q.processNext = some (e, q'))
      (hn : notify e = true) :
      DoneqLocal notify t q .process q' .process
  | pop (t : Nat) (q q' : Doneq α) (e : α) (h : q.processNext = some (e, q'))
      (hn : notify e = false) :
      DoneqLocal notify t q .process q' .callback
  | callback (t : Nat) (q : Doneq α) :
      DoneqLocal notify t q .callback q .process

/-- The done queue and the threads that use it. -/
abbrev DoneqSys (α : Type u) :=
  Sys Nat (Doneq α) DoneqCtl

/-- The state `ghd_doneq_init` sets up. -/
def DoneqInit (s : DoneqSys α) : Prop :=
  s.shared = Doneq.init ∧ ∀ t, s.thr t = .idle

/-- Somebody is bound to look at the queue. -/
def Awake (s : DoneqSys α) : Prop :=
  s.shared.pending = true ∨ (∃ t, (s.thr t).Processing) ∨ ∃ t, (s.thr t).Leaving

/-- A queued completion outside poll mode is attended to. -/
def Attended (s : DoneqSys α) : Prop :=
  s.shared.queue ≠ [] → s.shared.pollmode = false → Awake s

theorem putTail_awake (q : Doneq α) (e : α) (h : (q.putTail e).pollmode = false) :
    (q.putTail e).pending = true := by
  simp only [Doneq.putTail] at h ⊢
  simp only [h, Bool.false_eq_true, if_false]

theorem putHead_awake (q : Doneq α) (e : α) (h : (q.putHead e).pollmode = false) :
    (q.putHead e).pending = true := by
  simp only [Doneq.putHead] at h ⊢
  simp only [h, Bool.false_eq_true, if_false]

/-- A step that leaves the interrupt pending, and does not take its thread out
    of the attending functions, keeps the queue attended. -/
theorem Awake.update {s s' : DoneqSys α} {t : Nat} {c' : DoneqCtl}
    (hthr : s'.thr = Function.update s.thr t c')
    (hpend : s.shared.pending = true → s'.shared.pending = true)
    (hproc : (s.thr t).Processing → c'.Processing)
    (hleave : (s.thr t).Leaving → c'.Leaving) (h : Awake s) : Awake s' := by
  have hat : ∀ {P : DoneqCtl → Prop}, (P (s.thr t) → P c') → ∀ u, P (s.thr u) →
      ∃ u, P (s'.thr u) := by
    intro P hP u hu
    refine ⟨u, ?_⟩
    rw [hthr]
    by_cases hut : u = t
    · rw [hut, Function.update_self]
      exact hP (hut ▸ hu)
    · rw [Function.update_of_ne hut]
      exact hu
  rcases h with h | ⟨u, hu⟩ | ⟨u, hu⟩
  · exact Or.inl (hpend h)
  · exact Or.inr (Or.inl (hat hproc u hu))
  · exact Or.inr (Or.inr (hat hleave u hu))

theorem Attended.step {notify : α → Bool} {s s' : DoneqSys α} (h : Attended s)
    (hst : Sys.Step (DoneqLocal notify) s s') : Attended s' := by
  rcases hst with ⟨t, c', hl, hthr⟩
  intro hne hpm
  have hself : s'.thr t = c' := by
    rw [hthr, Function.update_self]
  -- A thread leaving `idle` was not attending to the queue before.
  have hidle : s.thr t = .idle → (s.shared.pending = true → s'.shared.pending = true) →
      Awake s → Awake s' := by
    intro hi hp
    refine Awake.update hthr hp (fun hc => ?_) (fun hc => ?_)
    · rw [hi] at hc
      rcases hc with hc | hc <;> cases hc
    · rw [hi] at hc
      rcases hc with hc | hc <;> cases hc
  generalize hq : s.shared = q at hl
  generalize hq' : s'.shared = q' at hl
  generalize hc : s.thr t = c at hl
  rw [hq'] at hne hpm
  cases hl with
  | putTail e => exact Or.inl (hq' ▸ putTail_awake q e hpm)
  | putHead e => exact Or.inl (hq' ▸ putHead_awake q e hpm)
  | get _ e hget =>
      rcases Doneq.get_eq_some hget with ⟨rest, hrest, rfl⟩
      refine hidle hc (fun hp => ?_) (h ?_ ?_)
      · rw [hq']
        rw [hq] at hp
        exact hp
      · rw [hq, hrest]
        exact List.cons_ne_nil e rest
      · rw [hq]
        exact hpm
  | pollmodeEnter => cases hpm
  | pollmodeClear => exact Or.inr (Or.inr ⟨t, Or.inl hself⟩)
  | exitEmpty he => exact absurd he hne
  | exitNonempty _ => exact Or.inr (Or.inr ⟨t, Or.inr hself⟩)
  | trigger => exact Or.inl (hq' ▸ rfl)
  | accept => exact Or.inr (Or.inl ⟨t, Or.inl hself⟩)
  | quit hnone =>
      rcases Doneq.processNext_eq_none hnone with hp | he
      · rw [hp] at hpm
        cases hpm
      · exact absurd he hne
  | popNotify _ e _ _ => exact Or.inr (Or.inl ⟨t, Or.inl hself⟩)
  | pop _ e _ _ => exact Or.inr (Or.inl ⟨t, Or.inr hself⟩)
  | callback => exact Or.inr (Or.inl ⟨t, Or.inl hself⟩)

/-- In every reachable state, a completion that sits on the done queue outside
    poll mode has a soft interrupt pending for it, or a running
    `ghd_doneq_process` that will still check the queue, or a thread about to
    make the check of `ghd_doneq_pollmode_exit`. -/
theorem doneq_no_lost_wakeup (notify : α → Bool) (s : DoneqSys α)
    (h : Reachable DoneqInit (Sys.Step (DoneqLocal notify)) s)
    (hne : s.shared.queue ≠ []) (hpm : s.shared.pollmode = false) :
    s.shared.pending = true ∨ (∃ t, (s.thr t).Processing) ∨ ∃ t, (s.thr t).Leaving := by
  refine Reachable.invariant (I := Attended) (fun s₀ h0 hne0 _ => ?_)
    (fun s₁ s₂ _ hI hst => Attended.step hI hst) h hne hpm
  rw [h0.1] at hne0
  exact absurd rfl hne0

/-- The last window: a completion put on the queue in poll mode, where no
    interrupt was triggered for it, and a thread that has just cleared the
    flag. -/
def doneqWindow : DoneqSys Nat :=
  { shared := (Doneq.init.putTail 7).pollmodeClear
    thr := Function.update (Function.update (fun _ => .idle) 0 .idle) 0 .exitTest }

theorem doneq_no_lost_wakeup_window :
    doneqWindow.shared.pending = true ∨ (∃ t, (doneqWindow.thr t).Processing) ∨
      ∃ t, (doneqWindow.thr t).Leaving := by
  have h0 : Reachable DoneqInit (Sys.Step (DoneqLocal fun _ => false))
      ({ shared := Doneq.init, thr := fun _ => .idle } : DoneqSys Nat) :=
    Reachable.initial ⟨rfl, fun _ => rfl⟩
  have h1 : Reachable DoneqInit (Sys.Step (DoneqLocal fun _ => false))
      ({ shared := Doneq.init.putTail 7, thr := _ } : DoneqSys Nat) :=
    h0.tail ⟨0, .idle, DoneqLocal.putTail 0 _ 7, rfl⟩
  have h2 : Reachable DoneqInit (Sys.Step (DoneqLocal fun _ => false)) doneqWindow :=
    h1.tail ⟨0, .exitTest, DoneqLocal.pollmodeClear 0 _, rfl⟩
  exact doneq_no_lost_wakeup (fun _ => false) doneqWindow h2
    (by simp only [doneqWindow, Doneq.pollmodeClear, Doneq.putTail, Doneq.init]; decide) rfl

end DoneqSystem

end Ghd

end Sil3112
