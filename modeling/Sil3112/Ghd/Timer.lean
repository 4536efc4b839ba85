import Sil3112.Ghd.Ccc

/-!
# Timeout Recovery

Every request that GHD has accepted and not completed is on the timer list of its HBA
instance. `sol11ghd_timer_newstate` takes a request that has just come off the list one
step further: it gives it the state and the time of the step, puts it back on the list,
and calls the HBA's action function. If that fails, the request comes off the list
again, and the next action is tried, up to giving up. In the end the other requests
that the last action has affected take on its state as well.

The action function may complete any request, that one included, which takes it off the
list. So the list is described by a set of requests, and holds those of the set that have
not been completed: a start adds to the set, a stop takes away from it, and a completion
leaves it as it is.

## Main definitions

* `Timers`, `TimerEnv`: What the timers work on.
* `HbaAnswer`, `TimeoutFunc`: The action function of the HBA.
* `newstateLoop`, `timerPoll`: `sol11ghd_timer_newstate` and `sol11ghd_timer_poll`.
* `ataTimeoutFunc`: `ata_timeout_func`
* `Timers.Sound`: What is on the list.
* `TimerCall`: Who calls `sol11ghd_timer_newstate`.

## Theorems

* `Timers.Sound.start`, `Timers.Sound.stop`, `Timers.Sound.complete`: What is on the list
  after each of them.
* `newstateLoop_spec`: What the loop comes to before its scan.
* `timer_newstate_sound`: A call keeps the list, and what it does to other requests.
* `timerPoll_sound`: So does a run of `sol11ghd_timer_poll`.
* `restart_on`, `retract_on`, `scan_on`: These are the steps of the HBA instance.
-/

namespace Sil3112

namespace Ghd

/-! ## The model -/

/-- The timer part of a `ccc_t`, with `cmd_state`, `cmd_start_time` and `cmd_timeout` of
    every request. `lbolt` is the clock, and `done` are the requests that have been
    completed, newest first. -/
structure Timers where
  activel : List Gcmd
  cmdState : Gcmd → CmdState
  startTime : Gcmd → Nat
  cmdTimeout : Gcmd → Nat
  frozen : Bool
  lbolt : Nat
  done : List Gcmd

/-- What does not change: `ghd_HZ`, the device and the HBA instance of every request
    (`GCMDP2GDEVP` and `GCMDP2CCCP`), and the instance at hand. -/
structure TimerEnv where
  hz : Nat
  gdevOf : Gcmd → GdevId
  cccOf : Gcmd → Nat
  cccp : Nat

/-- What a call of the HBA's action function comes to: the requests that it completes,
    in order, the time it takes, whether it freezes the wait queue, and what it
    returns. -/
structure HbaAnswer where
  completes : List Gcmd
  ticks : Nat
  freezes : Bool
  taken : Bool

/-- `ccc_timeout_func`, which works on the HBA's own state, whatever that is: its answers
    may come in any order. It gets the request, if there is one, the device of `gtgtp`,
    and the action. -/
abbrev TimeoutFunc (χ : Type) := χ → Option Gcmd → GdevId → GAction → χ × HbaAnswer

namespace Timers

/-- Set one request's `cmd_state`. -/
def setState (s : Timers) (g : Gcmd) (c : CmdState) : Timers :=
  { s with cmdState := Function.update s.cmdState g c }

/-- `sol11ghd_timer_start` -/
def start (e : TimerEnv) (s : Timers) (g : Gcmd) (t : Nat) : Timers :=
  { s with
    startTime := Function.update s.startTime g s.lbolt
    cmdTimeout := Function.update s.cmdTimeout g (t * e.hz)
    activel := l2Add s.activel g }

/-- `GHD_TIMER_STOP_INLINE` -/
def stop (s : Timers) (g : Gcmd) : Timers :=
  { s with activel := l2Delete s.activel g }

/-- `sol11ghd_complete`, as far as the timers are concerned. -/
def complete (s : Timers) (g : Gcmd) : Timers :=
  { (s.setState g .doneq).stop g with done := g :: s.done }

/-- What the action function does. -/
def answer (s : Timers) (r : HbaAnswer) : Timers :=
  let s := r.completes.foldl complete s
  { s with lbolt := s.lbolt + r.ticks, frozen := s.frozen || r.freezes }

/-- The request gets the state of the action, and its timer is started if the table has
    a time for it. -/
def restart (e : TimerEnv) (s : Timers) (g : Option Gcmd) (x : GAction) : Timers :=
  match g with
  | none => s
  | some g =>
    let s := s.setState g x.nextState
    if x.nextState.timeout ≠ 0 then s.start e g x.nextState.timeout else s

/-- The action has failed: a timer that was started for it is stopped. -/
def retract (s : Timers) (g : Option Gcmd) (x : GAction) : Timers :=
  match g with
  | none => s
  | some g => if x.nextState.timeout ≠ 0 then s.stop g else s

end Timers

/-- `GCMD_SAME_DEV` with the saved copy of the request, or the device of `gtgtp`. -/
def TimerEnv.sameDev (e : TimerEnv) (g : Option Gcmd) (d : GdevId) (y : Gcmd) : Bool :=
  g.any (fun g' => decide (e.gdevOf g' = e.gdevOf y)) || decide (e.gdevOf y = d)

/-- `GCMD_SAME_BUS` with the saved copy of the request, or the instance at hand. -/
def TimerEnv.sameBus (e : TimerEnv) (g : Option Gcmd) (y : Gcmd) : Bool :=
  g.any (fun g' => decide (e.cccOf g' = e.cccOf y)) || decide (e.cccOf y = e.cccp)

/-- The scan at the end of `sol11ghd_timer_newstate`, for one request on the list. -/
def scanState (e : TimerEnv) (g : Option Gcmd) (d : GdevId) (x : GAction) (y : Gcmd)
    (c : CmdState) : CmdState :=
  if c.num ≤ CmdState.waitq.num then c
  else match x with
    | .abortDev => if e.sameDev g d y then c.update .abortingDev else c
    | .resetTarget => if e.sameDev g d y then c.update .resettingDev else c
    | .resetBus => if e.sameBus g y then c.update .resettingBus else c
    | _ => c

/-- The whole scan. -/
def Timers.scan (e : TimerEnv) (s : Timers) (g : Option Gcmd) (d : GdevId) (x : GAction) :
    Timers :=
  { s with cmdState := fun y =>
      if y ∈ s.activel then scanState e g d x y (s.cmdState y) else s.cmdState y }

/-- What `sol11ghd_timer_newstate` leaves, with the last action. -/
structure NewstateOut (χ : Type) where
  last : GAction
  hba : χ
  sys : Timers

section Functions

variable {χ : Type} (e : TimerEnv) (f : TimeoutFunc χ)

/-- The loop of `sol11ghd_timer_newstate`, and the scan after it. It is `none` if there is
    not enough fuel. -/
def newstateLoop (g : Option Gcmd) (d : GdevId) : Nat → GAction → χ → Timers →
    Option (NewstateOut χ)
  | 0, _, _, _ => none
  | n + 1, x, k, s =>
    let s := s.restart e g x
    -- The bus is not reset while the wait queue is frozen.
    if x = .resetBus ∧ s.frozen = true then some ⟨x, k, s.scan e g d x⟩
    else
      let r := f k g d x
      let s := s.answer r.2
      if r.2.taken = true then some ⟨x, r.1, s.scan e g d x⟩
      else if x = .incomplete then some ⟨x, r.1, s⟩
      else newstateLoop g d n x.nextAction r.1 (s.retract g x)

/-- `sol11ghd_timer_newstate`. There are at most six actions. -/
def timerNewstate (g : Option Gcmd) (d : GdevId) (x : GAction) (k : χ) (s : Timers) :
    Option (NewstateOut χ) :=
  newstateLoop e f g d 6 x k s

/-- The time of a request is over. -/
def Timers.expired (s : Timers) (g : Gcmd) : Bool :=
  decide (0 < s.cmdTimeout g) && decide (s.cmdTimeout g ≤ s.lbolt - s.startTime g)

/-- `ghd_timeout_get` -/
def Timers.timeoutGet (s : Timers) : Option (Gcmd × Timers) :=
  (s.activel.find? s.expired).map fun g => (g, s.stop g)

/-- `sol11ghd_timer_poll`, for one request if `one`, and else for all that have
    expired. It is `none` if there is not enough fuel. -/
def timerPoll (one : Bool) : Nat → χ → Timers → Option (χ × Timers)
  | 0, _, _ => none
  | n + 1, k, s =>
    match s.timeoutGet with
    | none => some (k, s)
    | some (g, s) =>
      match timerAction (s.cmdState g) with
      -- This is not supposed to happen.
      | none => some (k, s)
      | some x =>
        match timerNewstate e f (some g) (e.gdevOf g) x k s with
        | none => none
        | some out => if one then some (out.hba, out.sys) else timerPoll one n out.hba out.sys

end Functions

/-- The action that `sol11ghd_tran_abort` begins with, `none` if the request is being
    aborted already. -/
def abortAction : CmdState → Option GAction
  | .waitq => some .earlyAbort
  | .active => some .abortCmd
  | _ => none

/-- `ata_timeout_func`. `reset` is `ata_reset_bus`. -/
def ataTimeoutFunc {χ : Type} (reset : χ → χ × HbaAnswer) : TimeoutFunc χ
  | k, g, _, .earlyAbort => (k, ⟨g.toList, 0, false, true⟩)
  | k, g, _, .earlyTimeout => (k, ⟨g.toList, 0, false, true⟩)
  | k, g, _, .resetBus => if g = none then (k, ⟨[], 0, false, false⟩) else reset k
  | k, _, _, _ => (k, ⟨[], 0, false, false⟩)

/-! ## What is on the list -/

/-- The list holds the requests of a set that have not been completed, each once. -/
structure Timers.Sound (p : Gcmd → Prop) (s : Timers) : Prop where
  nodup : s.activel.Nodup
  mem : ∀ y, y ∈ s.activel ↔ p y ∧ y ∉ s.done

namespace Timers

variable {e : TimerEnv} {p q : Gcmd → Prop} {s t u : Timers} {g : Option Gcmd} {x : GAction}

namespace Sound

theorem congr (h : s.Sound p) (hpq : ∀ y, y ∉ s.done → (p y ↔ q y)) : s.Sound q := by
  refine ⟨h.nodup, fun y => (h.mem y).trans ?_⟩
  constructor
  · rintro ⟨hp, hd⟩
    exact ⟨(hpq y hd).mp hp, hd⟩
  · rintro ⟨hq, hd⟩
    exact ⟨(hpq y hd).mpr hq, hd⟩

/-- A start adds to the set. -/
theorem start (h : s.Sound p) {g : Gcmd} (hp : ¬p g) (hd : g ∉ s.done) (n : Nat) :
    (s.start e g n).Sound fun y => p y ∨ y = g := by
  have hoff : g ∉ s.activel := fun hg => hp ((h.mem g).mp hg).1
  refine ⟨nodup_l2Add h.nodup hoff, fun y => ?_⟩
  unfold Timers.start
  dsimp only
  rw [mem_l2Add, h.mem]
  constructor
  · rintro (⟨hy, hyd⟩ | rfl)
    · exact ⟨Or.inl hy, hyd⟩
    · exact ⟨Or.inr rfl, hd⟩
  · rintro ⟨hy | hy, hyd⟩
    · exact Or.inl ⟨hy, hyd⟩
    · exact Or.inr hy

/-- A stop takes away from it. -/
theorem stop (h : s.Sound p) (g : Gcmd) : (s.stop g).Sound fun y => p y ∧ y ≠ g := by
  refine ⟨nodup_l2Delete h.nodup, fun y => ?_⟩
  unfold Timers.stop
  dsimp only
  rw [mem_l2Delete h.nodup, h.mem]
  constructor
  · rintro ⟨hne, hy, hyd⟩
    exact ⟨⟨hy, hne⟩, hyd⟩
  · rintro ⟨⟨hy, hne⟩, hyd⟩
    exact ⟨hne, hy, hyd⟩

/-- A completion leaves it as it is. -/
theorem complete (h : s.Sound p) (g : Gcmd) : (s.complete g).Sound p := by
  refine ⟨nodup_l2Delete h.nodup, fun y => ?_⟩
  unfold Timers.complete Timers.stop Timers.setState
  dsimp only
  rw [mem_l2Delete h.nodup, h.mem, List.mem_cons, not_or]
  constructor
  · rintro ⟨hne, hy, hyd⟩
    exact ⟨hy, hne, hyd⟩
  · rintro ⟨hy, hne, hyd⟩
    exact ⟨hne, hy, hyd⟩

theorem answer (h : s.Sound p) (r : HbaAnswer) : (s.answer r).Sound p := by
  have hall : ∀ (l : List Gcmd) (s : Timers), s.Sound p →
      (l.foldl Timers.complete s).Sound p := by
    intro l
    induction l with
    | nil => exact fun _ h => h
    | cons g l ih => exact fun s h => ih _ (h.complete g)
  have hs := hall r.completes s h
  exact ⟨hs.nodup, hs.mem⟩

theorem scan (h : s.Sound p) (g : Option Gcmd) (d : GdevId) (x : GAction) :
    (s.scan e g d x).Sound p :=
  ⟨h.nodup, h.mem⟩

end Sound

/-! ## What happens to the other requests -/

theorem some_ne_some_iff {g y : Gcmd} : some g ≠ some y ↔ y ≠ g := by
  rw [Ne, Option.some_inj]
  exact ne_comm

/-- Nothing happens to requests other than `g` that have not been completed. -/
structure Keeps (g : Option Gcmd) (s t : Timers) : Prop where
  done : ∀ y ∈ s.done, y ∈ t.done
  state : ∀ y, g ≠ some y → y ∉ t.done → t.cmdState y = s.cmdState y
  timeout : ∀ y, g ≠ some y → t.cmdTimeout y = s.cmdTimeout y
  startTime : ∀ y, g ≠ some y → t.startTime y = s.startTime y

theorem Keeps.refl (g : Option Gcmd) (s : Timers) : Keeps g s s :=
  ⟨fun _ h => h, fun _ _ _ => rfl, fun _ _ => rfl, fun _ _ => rfl⟩

theorem Keeps.trans (h : Keeps g s t) (h' : Keeps g t u) : Keeps g s u where
  done := fun y hy => h'.done y (h.done y hy)
  state := fun y hy hd => (h'.state y hy hd).trans (h.state y hy fun hy' => hd (h'.done y hy'))
  timeout := fun y hy => (h'.timeout y hy).trans (h.timeout y hy)
  startTime := fun y hy => (h'.startTime y hy).trans (h.startTime y hy)

/-- A completion keeps every request but the one completed, which is `done`. -/
theorem keeps_complete (g : Option Gcmd) (s : Timers) (g' : Gcmd) : Keeps g s (s.complete g') where
  done := fun _ hy => List.mem_cons_of_mem g' hy
  state := by
    intro y _ hd
    have hne : y ≠ g' := fun h => hd (h ▸ List.mem_cons_self)
    exact Function.update_of_ne hne _ _
  timeout := fun _ _ => rfl
  startTime := fun _ _ => rfl

theorem keeps_answer (g : Option Gcmd) (s : Timers) (r : HbaAnswer) : Keeps g s (s.answer r) := by
  have hall : ∀ (l : List Gcmd) (s : Timers), Keeps g s (l.foldl Timers.complete s) := by
    intro l
    induction l with
    | nil => exact fun s => Keeps.refl g s
    | cons g' l ih => exact fun s => (keeps_complete g s g').trans (ih _)
  have hs := hall r.completes s
  exact ⟨hs.done, hs.state, hs.timeout, hs.startTime⟩

/-- Exactly the requests of the answer are completed. -/
theorem mem_done_answer (s : Timers) (r : HbaAnswer) (y : Gcmd) :
    y ∈ (s.answer r).done ↔ y ∈ r.completes ∨ y ∈ s.done := by
  have hall : ∀ (l : List Gcmd) (s : Timers),
      y ∈ (l.foldl Timers.complete s).done ↔ y ∈ l ∨ y ∈ s.done := by
    intro l
    induction l with
    | nil => simp
    | cons g l ih =>
      intro s
      rw [List.foldl_cons, ih, List.mem_cons]
      change y ∈ l ∨ y ∈ g :: s.done ↔ _
      rw [List.mem_cons]
      tauto
  exact hall r.completes s

theorem keeps_restart (e : TimerEnv) (s : Timers) (g : Option Gcmd) (x : GAction) :
    Keeps g s (s.restart e g x) := by
  cases g with
  | none => exact Keeps.refl none s
  | some g =>
    have hne : ∀ y, some g ≠ some y → y ≠ g := fun y => some_ne_some_iff.mp
    unfold restart setState start
    dsimp only
    split
    · exact ⟨fun _ h => h, fun y hy _ => Function.update_of_ne (hne y hy) _ _,
        fun y hy => Function.update_of_ne (hne y hy) _ _,
        fun y hy => Function.update_of_ne (hne y hy) _ _⟩
    · exact ⟨fun _ h => h, fun y hy _ => Function.update_of_ne (hne y hy) _ _, fun _ _ => rfl,
        fun _ _ => rfl⟩

theorem keeps_retract (s : Timers) (g : Option Gcmd) (x : GAction) :
    Keeps g s (s.retract g x) := by
  cases g with
  | none => exact Keeps.refl none s
  | some g =>
    unfold retract
    dsimp only
    split
    · exact ⟨fun _ h => h, fun _ _ _ => rfl, fun _ _ => rfl, fun _ _ => rfl⟩
    · exact Keeps.refl (some g) s

end Timers

/-! ## One action -/

/-- What is known of the action function: it completes a request that has not been
    started if it takes the action, and does not complete the request if it fails. -/
structure TimeoutFunc.Ok {χ : Type} (f : TimeoutFunc χ) : Prop where
  early : ∀ k g d x, x.Early → (f k (some g) d x).2.taken = true →
    g ∈ (f k (some g) d x).2.completes
  kept : ∀ k g d x, (f k (some g) d x).2.taken = false → g ∉ (f k (some g) d x).2.completes

/-- The table has a time for every state that an action leads to, unless the request has
    not been started. -/
theorem nextState_timeout (x : GAction) : x.nextState.timeout = 0 ↔ x.Early := by
  unfold GAction.Early
  cases x <;> simp [GAction.nextState, CmdState.timeout]

section Action

variable {e : TimerEnv} {acc : Gcmd → Prop} {s t : Timers} {g : Option Gcmd} {x : GAction}

/-- The request is not on the list, and has not been completed. -/
structure Off (acc : Gcmd → Prop) (g : Option Gcmd) (s : Timers) : Prop where
  sound : s.Sound fun y => acc y ∧ g ≠ some y
  pending : ∀ g', g = some g' → acc g' ∧ g' ∉ s.done

/-- The request has the state of the action, and its time, unless it has been
    completed. -/
def HasState (e : TimerEnv) (g : Option Gcmd) (x : GAction) (t : Timers) : Prop :=
  ∀ g', g = some g' → g' ∉ t.done →
    t.cmdState g' = x.nextState ∧
      (x.nextState.timeout ≠ 0 → t.cmdTimeout g' = x.nextState.timeout * e.hz)

theorem restart_done (e : TimerEnv) (s : Timers) (g : Option Gcmd) (x : GAction) :
    (s.restart e g x).done = s.done := by
  cases g with
  | none => rfl
  | some g =>
    unfold Timers.restart
    dsimp only
    split
    · rfl
    · rfl

/-- The request is on the list if the table has a time for it. -/
theorem restart_sound (h : Off acc g s) : (s.restart e g x).Sound fun y =>
    acc y ∧ (g ≠ some y ∨ x.nextState.timeout ≠ 0) := by
  cases g with
  | none =>
    exact h.sound.congr fun y _ =>
      ⟨fun hy => ⟨hy.1, Or.inl nofun⟩, fun hy => ⟨hy.1, nofun⟩⟩
  | some g =>
    rcases h.pending g rfl with ⟨hacc, hd⟩
    have hset : (s.setState g x.nextState).Sound fun y => acc y ∧ some g ≠ some y :=
      ⟨h.sound.nodup, h.sound.mem⟩
    unfold Timers.restart
    dsimp only
    -- The timer is started only if the table has a time.
    by_cases ht : x.nextState.timeout ≠ 0
    · rw [if_pos ht]
      refine (hset.start (fun hg => hg.2 rfl) hd x.nextState.timeout).congr fun y _ => ?_
      by_cases hy : y = g
      · rw [hy]
        exact ⟨fun _ => ⟨hacc, Or.inr ht⟩, fun _ => Or.inr rfl⟩
      · have hne : some g ≠ some y := Timers.some_ne_some_iff.mpr hy
        exact ⟨fun h => ⟨(h.resolve_right hy).1, Or.inl hne⟩, fun h => Or.inl ⟨h.1, hne⟩⟩
    · rw [if_neg ht]
      exact hset.congr fun y _ =>
        ⟨fun h => ⟨h.1, Or.inl h.2⟩, fun h => ⟨h.1, h.2.resolve_right ht⟩⟩

theorem restart_state (e : TimerEnv) (s : Timers) (g : Option Gcmd) (x : GAction) :
    HasState e g x (s.restart e g x) := by
  rintro g' rfl -
  unfold Timers.restart
  dsimp only
  by_cases ht : x.nextState.timeout ≠ 0
  · rw [if_pos ht]
    exact ⟨Function.update_self _ _ _, fun _ => Function.update_self _ _ _⟩
  · rw [if_neg ht]
    exact ⟨Function.update_self _ _ _, fun h => absurd h ht⟩

theorem HasState.answer (h : HasState e g x s) (r : HbaAnswer) : HasState e g x (s.answer r) := by
  intro g' hg hd
  have hk := Timers.keeps_answer none s r
  rcases h g' hg fun hd' => hd (hk.done g' hd') with ⟨hstate, htime⟩
  exact ⟨(hk.state g' nofun hd).trans hstate, fun ht => (hk.timeout g' nofun).trans (htime ht)⟩

/-- If the action is taken, the list has every request that has not been completed. -/
theorem taken_sound {χ : Type} {f : TimeoutFunc χ} (hf : f.Ok) {k : χ} {d : GdevId}
    (h : Off acc g s) (htaken : (f k g d x).2.taken = true) :
    ((s.restart e g x).answer (f k g d x).2).Sound acc := by
  refine ((restart_sound h).answer _).congr fun y hy => ⟨fun h => h.1, fun hacc => ⟨hacc, ?_⟩⟩
  by_cases hg : g = some y
  · -- A request that has not been started has been completed.
    refine Or.inr fun ht => hy ((Timers.mem_done_answer _ _ y).mpr (Or.inl ?_))
    rw [hg] at htaken ⊢
    exact hf.early k y d x ((nextState_timeout x).mp ht) htaken
  · exact Or.inl hg

/-- If the action fails, the request comes off the list again. -/
theorem failed_off {χ : Type} {f : TimeoutFunc χ} (hf : f.Ok) {k : χ} {d : GdevId}
    (h : Off acc g s) (htaken : (f k g d x).2.taken = false) :
    Off acc g (((s.restart e g x).answer (f k g d x).2).retract g x) := by
  have hs := (restart_sound (e := e) (x := x) h).answer (f k g d x).2
  have hd := Timers.mem_done_answer (s.restart e g x) (f k g d x).2
  generalize (s.restart e g x).answer (f k g d x).2 = t at hs hd ⊢
  cases g with
  | none =>
    exact ⟨hs.congr fun y _ => ⟨fun hy => ⟨hy.1, nofun⟩, fun hy => ⟨hy.1, Or.inl nofun⟩⟩, nofun⟩
  | some g =>
    rcases h.pending g rfl with ⟨hacc, hdone⟩
    -- It was not completed before the action, and not by it either.
    have hpend : g ∉ t.done := by
      rw [hd, restart_done]
      rintro (hc | hc)
      · exact hf.kept k g d x htaken hc
      · exact hdone hc
    unfold Timers.retract
    dsimp only
    by_cases ht : x.nextState.timeout ≠ 0
    · rw [if_pos ht]
      refine ⟨(hs.stop g).congr fun y _ => ?_, ?_⟩
      · rw [Timers.some_ne_some_iff]
        exact ⟨fun h => ⟨h.1.1, h.2⟩, fun h => ⟨⟨h.1, Or.inr ht⟩, h.2⟩⟩
      · rintro g' hg'
        cases hg'
        exact ⟨hacc, hpend⟩
    · rw [if_neg ht]
      -- The timer was not started.
      refine ⟨hs.congr fun y _ => ?_, ?_⟩
      · exact ⟨fun h => ⟨h.1, h.2.resolve_right ht⟩, fun h => ⟨h.1, Or.inl h.2⟩⟩
      rintro g' hg'
      cases hg'
      exact ⟨hacc, hpend⟩

end Action

/-! ## The loop -/

/-- The number of actions up to giving up. -/
def GAction.steps : GAction → Nat
  | earlyTimeout => 6
  | earlyAbort => 6
  | abortCmd => 5
  | abortDev => 4
  | resetTarget => 3
  | resetBus => 2
  | incomplete => 1

theorem GAction.steps_next {x : GAction} (h : x ≠ .incomplete) :
    x.nextAction.steps + 1 = x.steps := by
  cases x with
  | incomplete => exact absurd rfl h
  | _ => rfl

/-- Giving up affects no other request. -/
theorem Timers.scan_incomplete (e : TimerEnv) (s : Timers) (g : Option Gcmd) (d : GdevId) :
    s.scan e g d .incomplete = s := by
  have hstate : ∀ y, (s.scan e g d .incomplete).cmdState y = s.cmdState y := by
    intro y
    unfold Timers.scan scanState
    dsimp only
    split
    · split
      · rfl
      · rfl
    · rfl
  exact congrArg (fun c => { s with cmdState := c }) (funext hstate)

section Loop

variable {χ : Type} {e : TimerEnv} {f : TimeoutFunc χ} {acc : Gcmd → Prop} {g : Option Gcmd}
  {d : GdevId}

/-- What the loop leaves is the scan of a state in which every request that has not been
    completed is on the list, the request has the state of the last action, and nothing
    has happened to the others. -/
structure Settled (e : TimerEnv) (acc : Gcmd → Prop) (g : Option Gcmd) (d : GdevId) (s : Timers)
    (out : NewstateOut χ) (t : Timers) : Prop where
  sound : t.Sound acc
  keeps : Timers.Keeps g s t
  state : HasState e g out.last t
  late : ∀ g', g = some g' → g' ∉ t.done → ¬out.last.Early
  scan : out.sys = t.scan e g d out.last

/-- The loop returns after at most as many actions as there are. -/
theorem newstateLoop_spec (hf : f.Ok) (n : Nat) : ∀ {x : GAction} {k : χ} {s : Timers},
    x.steps ≤ n → Off acc g s →
    ∃ out t, newstateLoop e f g d n x k s = some out ∧ Settled e acc g d s out t := by
  induction n with
  | zero =>
    intro x k s hn
    cases x <;> exact absurd hn (by decide)
  | succ n ih =>
    intro x k s hn h
    have hkeep := Timers.keeps_restart e s g x
    have hstate := restart_state e s g x
    unfold newstateLoop
    dsimp only
    by_cases hfrozen : x = .resetBus ∧ (s.restart e g x).frozen = true
    · -- The bus is left alone, and the timer of the request runs.
      rw [if_pos hfrozen]
      refine ⟨_, _, rfl, (restart_sound h).congr fun y _ => ?_, hkeep, hstate, fun _ _ _ => ?_, rfl⟩
      · rw [hfrozen.1]
        exact ⟨fun h => h.1, fun h => ⟨h, Or.inr nofun⟩⟩
      · rw [hfrozen.1]
        rintro (he | he) <;> cases he
    rw [if_neg hfrozen]
    have hkeep' := hkeep.trans (Timers.keeps_answer g _ (f k g d x).2)
    have hstate' := hstate.answer (f k g d x).2
    cases htaken : (f k g d x).2.taken with
    | true =>
      -- The action is taken.
      rw [if_pos rfl]
      refine ⟨_, _, rfl, taken_sound hf h htaken, hkeep', hstate', fun g' hg hd he => hd ?_, rfl⟩
      rw [hg] at htaken ⊢
      exact (Timers.mem_done_answer _ _ g').mpr (Or.inl (hf.early k g' d x he htaken))
    | false =>
      rw [if_neg Bool.false_ne_true]
      by_cases hx : x = .incomplete
      · -- The timer stays, and there is no scan.
        rw [if_pos hx]
        refine ⟨_, _, rfl, ((restart_sound h).answer _).congr fun y _ => ?_, hkeep', hstate',
          fun _ _ _ => ?_, ?_⟩
        · rw [hx]
          exact ⟨fun h => h.1, fun h => ⟨h, Or.inr nofun⟩⟩
        · rw [hx]
          rintro (he | he) <;> cases he
        · rw [hx]
          exact (Timers.scan_incomplete e _ g d).symm
      · rw [if_neg hx]
        -- The timer is stopped again, and the next action is tried.
        have hsteps := GAction.steps_next hx
        have hle : x.nextAction.steps ≤ n := by omega
        rcases ih (k := (f k g d x).1) hle (failed_off hf h htaken) with ⟨out, t, hout, hset⟩
        refine ⟨out, t, hout, hset.sound, ?_, hset.state, hset.late, hset.scan⟩
        exact (hkeep'.trans (Timers.keeps_retract _ g x)).trans hset.keeps

/-! ## The scan -/

/-- The last action names the device or the HBA instance of a request. -/
def Named (e : TimerEnv) (g : Option Gcmd) (d : GdevId) (x : GAction) (y : Gcmd) : Prop :=
  (x = .abortDev ∨ x = .resetTarget) ∧ e.sameDev g d y = true ∨
    x = .resetBus ∧ e.sameBus g y = true

/-- States only go up. -/
theorem update_cases (c new : CmdState) :
    c.update new = c ∨ c.num < new.num ∧ c.update new = new := by
  unfold CmdState.update
  by_cases h : c.num < new.num
  · rw [if_pos h]
    exact Or.inr ⟨h, rfl⟩
  · rw [if_neg h]
    exact Or.inl rfl

/-- What the scan does to one request: nothing, or it takes on the state of the action. -/
theorem scanState_cases (e : TimerEnv) (g : Option Gcmd) (d : GdevId) (x : GAction) (y : Gcmd)
    (c : CmdState) : scanState e g d x y c = c ∨
      scanState e g d x y c = x.nextState ∧ c.num < x.nextState.num ∧
        CmdState.waitq.num < c.num ∧ Named e g d x y := by
  unfold scanState Named
  by_cases hw : c.num ≤ CmdState.waitq.num
  · rw [if_pos hw]
    exact Or.inl rfl
  rw [if_neg hw]
  -- Each of the three actions updates the state of those that it names.
  have hup : ∀ (b : Bool) (new : CmdState), (if b then c.update new else c) = c ∨
      (if b then c.update new else c) = new ∧ c.num < new.num ∧ b = true := by
    intro b new
    cases b with
    | false => exact Or.inl rfl
    | true =>
      rcases update_cases c new with h | ⟨hlt, h⟩
      · exact Or.inl h
      · exact Or.inr ⟨h, hlt, rfl⟩
  cases x with
  | abortDev =>
    refine (hup (e.sameDev g d y) .abortingDev).imp_right fun h => ?_
    exact ⟨h.1, h.2.1, by omega, Or.inl ⟨Or.inl rfl, h.2.2⟩⟩
  | resetTarget =>
    refine (hup (e.sameDev g d y) .resettingDev).imp_right fun h => ?_
    exact ⟨h.1, h.2.1, by omega, Or.inl ⟨Or.inr rfl, h.2.2⟩⟩
  | resetBus =>
    refine (hup (e.sameBus g y) .resettingBus).imp_right fun h => ?_
    exact ⟨h.1, h.2.1, by omega, Or.inr ⟨rfl, h.2.2⟩⟩
  | _ => exact Or.inl rfl

/-- The request itself has the state of the action already. -/
theorem scanState_self (e : TimerEnv) (g : Option Gcmd) (d : GdevId) (x : GAction) (y : Gcmd) :
    scanState e g d x y x.nextState = x.nextState := by
  unfold scanState
  cases x with
  | abortDev => exact ite_self _
  | resetTarget => exact ite_self _
  | resetBus => exact ite_self _
  | _ => rfl

/-! ## The callers -/

/-- The callers of `sol11ghd_timer_newstate`, and what they do to the list before. -/
inductive TimerCall (e : TimerEnv) (s : Timers) : Option Gcmd → GdevId → GAction → Timers → Prop
  /-- `sol11ghd_timer_poll` -/
  | poll (g : Gcmd) (s' : Timers) (x : GAction) (hget : s.timeoutGet = some (g, s'))
      (hx : timerAction (s'.cmdState g) = some x) : TimerCall e s (some g) (e.gdevOf g) x s'
  /-- `sol11ghd_tran_abort` -/
  | abort (g : Gcmd) (d : GdevId) (x : GAction) (hg : g ∈ s.activel)
      (hx : abortAction (s.cmdState g) = some x) : TimerCall e s (some g) d x (s.stop g)
  /-- A call without a request, by `sol11ghd_tran_reset_bus` for instance. -/
  | noGcmd (d : GdevId) (x : GAction) : TimerCall e s none d x s

theorem timeoutGet_eq {s s' : Timers} {g : Gcmd} (h : s.timeoutGet = some (g, s')) :
    g ∈ s.activel ∧ s' = s.stop g := by
  unfold Timers.timeoutGet at h
  rcases Option.map_eq_some_iff.mp h with ⟨g', hfind, heq⟩
  cases heq
  exact ⟨List.mem_of_find?_eq_some hfind, rfl⟩

/-- The request is taken off the list. -/
theorem off_stop {s : Timers} (h : s.Sound acc) {g : Gcmd} (hg : g ∈ s.activel) :
    Off acc (some g) (s.stop g) := by
  have hmem := (h.mem g).mp hg
  refine ⟨(h.stop g).congr fun y _ => ?_, ?_⟩
  · rw [Timers.some_ne_some_iff]
  · rintro g' hg'
    cases hg'
    exact hmem

/-- Every caller has taken the request off the list. -/
theorem TimerCall.off {s s' : Timers} {x : GAction} (hc : TimerCall e s g d x s')
    (h : s.Sound acc) : Off acc g s' ∧ s'.cmdState = s.cmdState ∧ s'.done = s.done := by
  cases hc with
  | poll g s' x hget hx =>
    rcases timeoutGet_eq hget with ⟨hg, hs⟩
    rw [hs]
    exact ⟨off_stop h hg, rfl, rfl⟩
  | abort g d x hg hx => exact ⟨off_stop h hg, rfl, rfl⟩
  | noGcmd d x =>
    exact ⟨⟨h.congr fun y _ => ⟨fun hy => ⟨hy, nofun⟩, fun hy => hy.1⟩, nofun⟩, rfl, rfl⟩

/-- What a call has done when it returns. -/
structure NewstateOk (e : TimerEnv) (acc : Gcmd → Prop) (g : Option Gcmd) (d : GdevId) (s : Timers)
    (out : NewstateOut χ) : Prop where
  completed : ∀ y ∈ out.sys.done, y ∉ out.sys.activel
  once : ∀ y, acc y → y ∉ out.sys.done → out.sys.activel.count y = 1
  own : ∀ y, g = some y → y ∉ out.sys.done →
    ¬out.last.Early ∧ out.sys.cmdState y = out.last.nextState ∧
      out.sys.cmdTimeout y = (out.sys.cmdState y).timeout * e.hz
  others : ∀ y, acc y → g ≠ some y → y ∉ out.sys.done →
    out.sys.cmdState y = s.cmdState y ∨
      out.sys.cmdState y = out.last.nextState ∧ (s.cmdState y).num < (out.sys.cmdState y).num ∧
        CmdState.waitq.num < (s.cmdState y).num ∧ Named e g d out.last y

/-- What the scan leaves. -/
theorem Settled.ok {s t : Timers} {out : NewstateOut χ} (h : Settled e acc g d s out t)
    (hpend : ∀ g', g = some g' → acc g') : NewstateOk e acc g d s out := by
  have hdone : out.sys.done = t.done := by rw [h.scan]; rfl
  have hlist : out.sys.activel = t.activel := by rw [h.scan]; rfl
  have hstate : ∀ y, acc y → y ∉ t.done →
      out.sys.cmdState y = scanState e g d out.last y (t.cmdState y) := by
    intro y hy hd
    rw [h.scan]
    exact if_pos ((h.sound.mem y).mpr ⟨hy, hd⟩)
  refine ⟨fun y hy => ?_, fun y hy hd => ?_, fun y hy hd => ?_, fun y hy hne hd => ?_⟩
  · rw [hdone] at hy
    rw [hlist, h.sound.mem]
    exact fun hn => hn.2 hy
  · rw [hdone] at hd
    rw [hlist]
    exact List.count_eq_one_of_mem h.sound.nodup ((h.sound.mem y).mpr ⟨hy, hd⟩)
  · rw [hdone] at hd
    rcases h.state y hy hd with ⟨hs, ht⟩
    have hearly := h.late y hy hd
    have hlate := hearly
    rw [← nextState_timeout] at hlate
    -- The scan leaves the state of the request as it is.
    have heq : out.sys.cmdState y = out.last.nextState := by
      rw [hstate y (hpend y hy) hd, hs, scanState_self]
    refine ⟨hearly, heq, ?_⟩
    rw [heq, h.scan]
    exact ht hlate
  · rw [hdone] at hd
    rw [hstate y hy hd, h.keeps.state y hne hd]
    refine (scanState_cases e g d out.last y (s.cmdState y)).imp_right fun hc => ?_
    exact ⟨hc.1, hc.1.symm ▸ hc.2.1, hc.2.2⟩

end Loop

/-- What a call does, whoever calls. -/
theorem TimerCall.newstate {χ : Type} {e : TimerEnv} {f : TimeoutFunc χ} (hf : f.Ok)
    {acc : Gcmd → Prop} {s s' : Timers} (hs : s.Sound acc) {g : Option Gcmd} {d : GdevId}
    {x : GAction} (hc : TimerCall e s g d x s') (k : χ) :
    ∃ out, timerNewstate e f g d x k s' = some out ∧ NewstateOk e acc g d s out ∧
      out.sys.Sound acc ∧ ∀ y ∈ s.done, y ∈ out.sys.done := by
  rcases hc.off hs with ⟨hoff, hstate, hdone⟩
  have hsteps : x.steps ≤ 6 := by cases x <;> decide
  rcases newstateLoop_spec (e := e) (d := d) (k := k) hf 6 hsteps hoff with ⟨out, t, hout, hset⟩
  have hok := hset.ok fun g' hg => (hoff.pending g' hg).1
  refine ⟨out, hout, ⟨hok.completed, hok.once, hok.own, ?_⟩, ?_, fun y hy => ?_⟩
  · rw [← hstate]
    exact hok.others
  · rw [hset.scan]
    exact hset.sound.scan g d out.last
  · rw [hset.scan]
    exact hset.keeps.done y (hdone.symm ▸ hy)

/-! ## Polling the timers -/

/-- Every request that has not been completed has a state from which it can be taken
    further. -/
def Timers.Valid (acc : Gcmd → Prop) (s : Timers) : Prop :=
  ∀ y, acc y → y ∉ s.done → timerAction (s.cmdState y) ≠ none

theorem nextState_valid {x : GAction} (h : ¬x.Early) : timerAction x.nextState ≠ none := by
  cases x with
  | earlyTimeout => exact absurd (Or.inl rfl) h
  | earlyAbort => exact absurd (Or.inr rfl) h
  | _ => nofun

theorem Named.late {e : TimerEnv} {g : Option Gcmd} {d : GdevId} {x : GAction} {y : Gcmd}
    (h : Named e g d x y) : ¬x.Early := by
  rcases h with ⟨rfl | rfl, -⟩ | ⟨rfl, -⟩ <;> rintro (he | he) <;> cases he

/-- A call leaves such states. -/
theorem NewstateOk.valid {χ : Type} {e : TimerEnv} {acc : Gcmd → Prop} {s : Timers}
    {g : Option Gcmd} {d : GdevId} {out : NewstateOut χ} (h : NewstateOk e acc g d s out)
    (hdone : ∀ y ∈ s.done, y ∈ out.sys.done) (hv : s.Valid acc) : out.sys.Valid acc := by
  intro y hy hd
  by_cases hg : g = some y
  · rcases h.own y hg hd with ⟨hlate, hstate, -⟩
    rw [hstate]
    exact nextState_valid hlate
  · rcases h.others y hy hg hd with hsame | ⟨hstate, -, -, hnamed⟩
    · rw [hsame]
      exact hv y hy fun hd' => hd (hdone y hd')
    · rw [hstate]
      exact nextState_valid hnamed.late

/-- A run of `sol11ghd_timer_poll` keeps the list, and completed requests stay so. -/
theorem timerPoll_sound {χ : Type} {e : TimerEnv} {f : TimeoutFunc χ} (hf : f.Ok)
    {acc : Gcmd → Prop} (one : Bool) (n : Nat) : ∀ {k k' : χ} {s s' : Timers}, s.Sound acc →
      s.Valid acc → timerPoll e f one n k s = some (k', s') →
      s'.Sound acc ∧ s'.Valid acc ∧ ∀ y ∈ s.done, y ∈ s'.done := by
  induction n with
  | zero => exact fun _ _ h => nomatch h
  | succ n ih =>
    intro k k' s s' hs hv hr
    unfold timerPoll at hr
    cases hget : s.timeoutGet with
    | none =>
      rw [hget] at hr
      cases hr
      exact ⟨hs, hv, fun _ hy => hy⟩
    | some q =>
      rcases q with ⟨g, s₁⟩
      rw [hget] at hr
      dsimp only at hr
      rcases timeoutGet_eq hget with ⟨hg, hstop⟩
      have hmem := (hs.mem g).mp hg
      have hstate : s₁.cmdState g = s.cmdState g := by rw [hstop]; rfl
      cases hx : timerAction (s₁.cmdState g) with
      | none => exact absurd (hstate ▸ hx) (hv g hmem.1 hmem.2)
      | some x =>
        rw [hx] at hr
        dsimp only at hr
        -- The request was on the list, so its state has an action.
        rcases (TimerCall.poll (e := e) g s₁ x hget hx).newstate hf hs k with
          ⟨out, hout, hok, hsound, hdone⟩
        rw [hout] at hr
        dsimp only at hr
        have hvalid := hok.valid hdone hv
        cases one with
        | true =>
          cases hr
          exact ⟨hsound, hvalid, hdone⟩
        | false =>
          rcases ih hsound hvalid hr with ⟨hs', hv', hd'⟩
          exact ⟨hs', hv', fun y hy => hd' y (hdone y hy)⟩

/-! ## The action function of ATA -/

/-- `ata_timeout_func` does what is known of it if `ata_reset_bus` does not fail when it
    has completed the request. -/
theorem ataTimeoutFunc_ok {χ : Type} (reset : χ → χ × HbaAnswer)
    (h : ∀ k, (reset k).2.taken = false → (reset k).2.completes = []) :
    (ataTimeoutFunc reset).Ok where
  early := by
    rintro k g d x (rfl | rfl) -
    · exact List.mem_singleton_self g
    · exact List.mem_singleton_self g
  kept := by
    intro k g d x
    cases x with
    | earlyTimeout => exact fun ht => nomatch ht
    | earlyAbort => exact fun ht => nomatch ht
    | resetBus =>
      intro ht
      have hreset : ataTimeoutFunc reset k (some g) d .resetBus = reset k := by
        rw [ataTimeoutFunc, if_neg (Option.some_ne_none g)]
      rw [hreset] at ht ⊢
      rw [h k ht]
      exact List.not_mem_nil
    | _ => exact fun _ => List.not_mem_nil

/-! ## The steps of the HBA instance -/

section On

variable (e : TimerEnv) (a : Ccc) (s : Timers) (g : Option Gcmd) (d : GdevId) (x : GAction)

/-- The HBA instance with these timers. -/
def Ccc.withTimers (a : Ccc) (s : Timers) : Ccc :=
  { a with cmdState := s.cmdState, activel := s.activel }

theorem restart_on : a.withTimers (s.restart e g x) = (a.withTimers s).newstate g x := by
  cases g with
  | none => rfl
  | some g =>
    unfold Timers.restart Ccc.newstate Ccc.withTimers
    dsimp only
    split
    · rfl
    · rfl

theorem retract_on : a.withTimers (s.retract g x) = (a.withTimers s).retract g x := by
  cases g with
  | none => rfl
  | some g =>
    unfold Timers.retract Ccc.retract Ccc.withTimers
    dsimp only
    split
    · rfl
    · rfl

theorem stop_on (g : Gcmd) : a.withTimers (s.stop g) = (a.withTimers s).timerStop g := rfl

/-- All requests on the list of an instance are its own. -/
theorem scan_on (h : ∀ y ∈ s.activel, e.cccOf y = e.cccp) :
    a.withTimers (s.scan e g d x) = (a.withTimers s).mark e.gdevOf g d x := by
  have hstate : ∀ y, (s.scan e g d x).cmdState y =
      ((a.withTimers s).mark e.gdevOf g d x).cmdState y := by
    intro y
    unfold Timers.scan Ccc.mark Ccc.withTimers
    dsimp only
    by_cases hy : y ∈ s.activel
    · have hbus : e.sameBus g y = true := by
        unfold TimerEnv.sameBus
        rw [h y hy, decide_eq_true rfl, Bool.or_true]
      rw [if_pos hy, if_pos hy]
      unfold scanState Ccc.markState
      cases x with
      | resetBus => rw [hbus, if_pos rfl]
      | _ => rfl
    · rw [if_neg hy, if_neg hy]
  exact congrArg (fun c => { a with cmdState := c, activel := s.activel }) (funext hstate)

end On

/-! ## A call -/

/-- A call of `sol11ghd_timer_newstate` keeps the timer list. For every set of requests,
    of which those not completed are on the list, every caller, and every behaviour of the
    HBA's action function that completes a request that has not been started if it takes
    the action, and does not complete the request if it fails: the call returns. A request
    that has been completed is not on the list, and every other one is, once, and the
    request of the call with the time of its last state. The state of another request has
    changed only upwards, and only if it was beyond the wait queues and the last action
    names its device or its HBA instance. -/
theorem timer_newstate_sound {χ : Type} (e : TimerEnv) (f : TimeoutFunc χ) (hf : f.Ok)
    (acc : Gcmd → Prop) (s s' : Timers) (hs : s.Sound acc) (g : Option Gcmd) (d : GdevId)
    (x : GAction) (hc : TimerCall e s g d x s') (k : χ) :
    ∃ out, timerNewstate e f g d x k s' = some out ∧ NewstateOk e acc g d s out ∧
      out.sys.Sound acc ∧ ∀ y ∈ s.done, y ∈ out.sys.done :=
  hc.newstate hf hs k

/-- Three requests are on the list, and a device reset for the first has timed out. -/
def resetTimers : Timers where
  activel := [0, 1, 2]
  cmdState := fun y => if y = 0 then .resettingDev else .active
  startTime := fun _ => 0
  cmdTimeout := fun y => if y = 0 then 500 else 0
  frozen := false
  lbolt := 600
  done := []

/-- The bus reset that follows completes the second request. -/
def resetFunc : TimeoutFunc Unit :=
  ataTimeoutFunc fun k => (k, ⟨[1], 3, true, true⟩)

theorem resetTimers_sound : resetTimers.Sound fun y => y ∈ resetTimers.activel :=
  ⟨by decide, fun _ => ⟨fun h => ⟨h, List.not_mem_nil⟩, fun h => h.1⟩⟩

theorem timer_newstate_reset :
    ∃ out, timerNewstate ⟨100, fun y => y, fun _ => 0, 0⟩ resetFunc (some 0) 0 .resetBus ()
        (resetTimers.stop 0) = some out ∧
      NewstateOk ⟨100, fun y => y, fun _ => 0, 0⟩ (fun y => y ∈ resetTimers.activel) (some 0) 0
        resetTimers out ∧
      out.sys.Sound (fun y => y ∈ resetTimers.activel) ∧ ∀ y ∈ resetTimers.done, y ∈ out.sys.done :=
  timer_newstate_sound _ resetFunc (ataTimeoutFunc_ok _ fun _ h => nomatch h) _ resetTimers _
    resetTimers_sound _ _ _ (TimerCall.poll 0 _ .resetBus rfl rfl) ()

end Ghd

end Sil3112
