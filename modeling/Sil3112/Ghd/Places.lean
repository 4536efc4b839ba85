import Sil3112.Ghd.System

/-!
# Where a Request Is

The bookkeeping behind the claim that no request is lost or duplicated. Every
request is at exactly one place, recorded by an auxiliary map that no step of
the driver reads; `Inv` says that the queues of the instance are the places
the map says they are, and `Own` that a thread holds in its local variables
exactly the requests that the map says are in its hands.

The steps are separated from the control flow. What a thread's control point
contributes to the argument is its `View`: which mutexes the thread holds,
which polled request it serves, whether it has the done queue in poll mode,
and what it has in its hands. `ViewStep` says how each step changes a view,
and `Inv.step` and `Own.step` are about steps and views only.

A polled request is taken off the done queue by the thread that transported
it, never by the soft interrupt. What makes this so is that its thread keeps
the HBA mutex, and with it the poll mode, from before the request is linked
until it has it back. `server` is that request.

## Main definitions

* `Place`, `Ghost`: Where each request is, and which polled one is served.
* `Inv`: The shared state agrees with the places.
* `View`, `Own`: What a control point says about its thread, and that it is so.
* `ViewStep`: How a step changes a view.
* `Quiet`: What a step leaves alone for the other threads.

## Theorems

* `Inv.step`: Every step keeps the shared state and the places in agreement.
* `Own.step`: A thread's own step keeps its view right.
* `Quiet.step`: A step is quiet for the other threads.
-/

namespace Sil3112

namespace Ghd

/-- Where a request is: with its target driver, on one of the wait queues,
    handed to the HBA, on the done queue, or in a thread's hands. -/
inductive Place where
  | idle
  | wait
  | hba
  | doneq
  | hand (t : Tid) (k : Hand)
  deriving DecidableEq

/-- The places of all requests, and the polled request being served. -/
structure Ghost where
  place : Gcmd → Place
  server : Option Gcmd

/-- One request changes place. -/
def Ghost.move (G : Ghost) (g : Gcmd) (p : Place) : Ghost :=
  { G with place := Function.update G.place g p }

/-- The transport of a request that has not been answered by its completion
    callback: whether it was polled, `none` if there is none. -/
def openTransport : List Event → Gcmd → Option Bool
  | [], _ => none
  | .transport g polled :: log, x => if x = g then some polled else openTransport log x
  | .complete _ :: log, x => openTransport log x
  | .callback g _ :: log, x => if x = g then none else openTransport log x

/-- A request has been accepted and `sol11ghd_complete` has not been called for
    it since. -/
def Outstanding : List Event → Gcmd → Prop
  | [], _ => False
  | .transport g _ :: log, x => x = g ∨ Outstanding log x
  | .complete g :: log, x => x ≠ g ∧ Outstanding log x
  | .callback _ _ :: log, x => Outstanding log x

/-- A well-formed history. A request is transported only when its last
    transport is answered, completed only while it is outstanding, and called
    back only for an unanswered transport, with `do_callback` the opposite of
    that transport's `polled`. -/
def Matched : List Event → Prop
  | [] => True
  | .transport g _ :: log => openTransport log g = none ∧ Matched log
  | .complete g :: log => Outstanding log g ∧ Matched log
  | .callback g b :: log => openTransport log g = some (!b) ∧ Matched log

/-- What the history says about a request at a given place. -/
def Ghost.LogOk (G : Ghost) (log : List Event) (g : Gcmd) : Prop :=
  match G.place g with
  | .idle => openTransport log g = none
  | .hand _ .calling => openTransport log g = none
  | .hand _ .holding => openTransport log g = some false
  | .hand _ .popped => openTransport log g = some false
  | .hand _ .taken => openTransport log g = some true ∧ ¬ G.server = some g
  | .wait => ∃ b, openTransport log g = some b ∧ (b = true ↔ G.server = some g)
  | .hba => ∃ b, openTransport log g = some b ∧ (b = true ↔ G.server = some g)
  | .doneq => ∃ b, openTransport log g = some b ∧ (b = true ↔ G.server = some g)
  | .hand _ .completing => ∃ b, openTransport log g = some b ∧ (b = true ↔ G.server = some g)

/-- The shared state agrees with the places. -/
structure Inv (gdevOf : Gcmd → GdevId) (G : Ghost) (a : Ccc) : Prop where
  waitq : Waitq.WaitqOk gdevOf a.active a.waitq
  wait : ∀ g, G.place g = .wait ↔ a.waitq.Waiting gdevOf g
  hba : ∀ g, G.place g = .hba ↔ g ∈ a.active
  doneq : ∀ g, G.place g = .doneq ↔ g ∈ a.doneq.queue
  nodup : a.doneq.queue.Nodup
  idle : ∀ g, G.place g = .idle ↔ a.lent g = false
  state : ∀ g, a.cmdState g = .waitq → G.place g = .wait
  log : ∀ g, G.LogOk a.log g
  server : ∀ g, G.server = some g →
    a.doneq.pollmode = true ∧ a.hbaMutex ≠ none ∧ openTransport a.log g = some true
  matched : Matched a.log
  outstanding : ∀ g, Outstanding a.log g ↔ G.place g = .wait ∨ G.place g = .hba

/-- What a control point says about its thread. -/
structure View where
  hba : Bool
  waitq : Bool
  serving : Option Gcmd
  pollmode : Bool
  hands : List (Gcmd × Hand)

/-- What a thread's view says is so. The clauses about the polled request and
    the poll mode are only claimed while the thread has the HBA mutex. -/
structure Own (G : Ghost) (t : Tid) (a : Ccc) (v : View) : Prop where
  hba : v.hba = true → a.hbaMutex = some t
  waitq : v.waitq = true → a.waitqMutex = some t
  hands : ∀ g k, G.place g = .hand t k ↔ (g, k) ∈ v.hands
  nodup : v.hands.Nodup
  owner : v.hba = true → G.server = v.serving ∧ (v.pollmode = true → a.doneq.pollmode = true)

namespace Act

/-- Whether the thread has the HBA mutex after the step. -/
def hbaAfter : Act → Bool → Bool
  | lockHba, _ => true
  | lockHbaSoft, _ => true
  | unlockHba, _ => false
  | _, b => b

/-- Whether the thread has the wait queue mutex after the step. -/
def waitqAfter : Act → Bool → Bool
  | lockWaitq, _ => true
  | unlockWaitq, _ => false
  | link _ _, _ => true
  | take _, _ => false
  | accept, _ => true
  | reject _, _ => true
  | delete _, _ => true
  | _, b => b

/-- The polled request the thread serves after the step. -/
def servingAfter : Act → Option Gcmd → Option Gcmd
  | link g polled, r => if polled then some g else r
  | doneqGet _ _ k, r => if k = .taken then none else r
  | _, r => r

/-- How the step changes what is in the thread's hands. -/
def HandStep : Act → List (Gcmd × Hand) → List (Gcmd × Hand) → Prop
  | call g, h, h' => h'.Perm ((g, .calling) :: h)
  | link g _, h, h' => h.Perm ((g, .calling) :: h')
  | delete g, h, h' => h'.Perm ((g, .completing) :: h)
  | doneqPut g k, h, h' => h.Perm ((g, k) :: h')
  | doneqGet g _ k, h, h' => h'.Perm ((g, k) :: h)
  | pop g, h, h' => h'.Perm ((g, .popped) :: h)
  | callback g b, h, h' => h.Perm ((g, if b then .popped else .taken) :: h')
  | _, h, h' => h' = h

/-- What a thread must have for the step to be its to take. -/
def Allowed : Act → View → Prop
  | lockHba, v => v.serving = none ∧ v.pollmode = false
  | lockHbaSoft, v => v.serving = none ∧ v.pollmode = false
  | unlockHba, v => v.hba = true ∧ v.serving = none
  | unlockWaitq, v => v.waitq = true
  | link _ polled, v => polled = true → v.hba = true ∧ v.pollmode = true ∧ v.serving = none
  | promote _, v => v.waitq = true
  | take _, v => v.hba = true ∧ v.waitq = true
  | reject _, v => v.hba = true
  | delete _, v => v.hba = true
  | doneqPut _ k, _ => k = .completing ∨ k = .holding
  | doneqGet g _ k, v =>
    v.hba = true ∧ (k = .taken ∧ v.serving = some g ∨ k = .holding ∧ v.serving ≠ some g)
  | pollmodeEnter, v => v.hba = true
  | pollmodeClear, v => v.hba = true ∧ v.serving = none
  | _, _ => True

/-- Where the request of a step must be, where the shared state alone does not
    say so. An early abort or timeout has already given its request another
    state when it completes it. -/
def PlaceOk : Act → Ghost → Ccc → Prop
  | reject g, G, _ => G.place g = .hba
  | delete g, G, a => G.place g = .wait ∧ a.cmdState g ≠ .waitq ∨ G.place g = .hba
  | _, _, _ => True

theorem hbaMutexAfter_eq_none {t : Tid} {x : Act} {m : Option Tid}
    (h : x.hbaMutexAfter t m = none) : x = .unlockHba ∨ m = none := by
  cases x with
  | lockHba | lockHbaSoft => cases h
  | unlockHba => exact Or.inl rfl
  | _ => exact Or.inr h

theorem hbaMutexAfter_eq_some {t u : Tid} {x : Act} {m : Option Tid} (hu : u ≠ t)
    (h : x.hbaMutexAfter t m = some u) : m = some u := by
  cases x with
  | lockHba | lockHbaSoft => exact absurd (Option.some.inj h).symm hu
  | unlockHba => cases h
  | _ => exact h

theorem locksHba_of_after {x : Act} (h : x.hbaAfter false = true) : x.LocksHba := by
  cases x with
  | lockHba | lockHbaSoft => trivial
  | _ => cases h

end Act

/-- How a step changes the view of the thread that takes it. -/
structure ViewStep (x : Act) (v v' : View) : Prop where
  hba : v'.hba = x.hbaAfter v.hba
  waitq : v'.waitq = x.waitqAfter v.waitq
  serving : v'.serving = x.servingAfter v.serving
  pollmode : v'.pollmode = x.pollmodeAfter v.pollmode
  hands : x.HandStep v.hands v'.hands
  allowed : x.Allowed v

/-- The request a step of thread `t` moves, and its new place. -/
def Act.moves (t : Tid) : Act → Option (Gcmd × Place)
  | .call g => some (g, .hand t .calling)
  | .link g _ => some (g, .wait)
  | .take g => some (g, .hba)
  | .reject g => some (g, .wait)
  | .delete g => some (g, .hand t .completing)
  | .doneqPut g _ => some (g, .doneq)
  | .doneqGet g _ k => some (g, .hand t k)
  | .pop g => some (g, .hand t .popped)
  | .callback g _ => some (g, .idle)
  | _ => none

/-- The places and the polled request being served after a step. -/
def Ghost.after (G : Ghost) (t : Tid) (x : Act) : Ghost :=
  { place := match x.moves t with
      | some (g, p) => Function.update G.place g p
      | none => G.place
    server := x.servingAfter G.server }

/-- Waiting and active requests stay where they are, and no waiting one is made
    to look as if it had not been given up. -/
def Undisturbed (G : Ghost) (a : Ccc) (G' : Ghost) (a' : Ccc) : Prop :=
  ∀ g, (G.place g = .hba → G'.place g = .hba) ∧
    (G.place g = .wait → G'.place g = .wait ∧ (a.cmdState g ≠ .waitq → a'.cmdState g ≠ .waitq))

/-- What a step of thread `t` leaves alone for the other threads: the mutexes
    they have, what is in their hands, and, for the one that has the HBA
    mutex, everything that only its holder may change. -/
structure Quiet (t : Tid) (G : Ghost) (a : Ccc) (G' : Ghost) (a' : Ccc) : Prop where
  hba : ∀ u, u ≠ t → a.hbaMutex = some u → a'.hbaMutex = some u
  waitq : ∀ u, u ≠ t → a.waitqMutex = some u → a'.waitqMutex = some u
  hands : ∀ u, u ≠ t → ∀ g k, G'.place g = .hand u k ↔ G.place g = .hand u k
  server : ∀ u, u ≠ t → a.hbaMutex = some u →
    G'.server = G.server ∧ a'.doneq.pollmode = a.doneq.pollmode
  place : ∀ u, u ≠ t → a.hbaMutex = some u → Undisturbed G a G' a'

theorem Own.quiet {t u : Tid} {G G' : Ghost} {a a' : Ccc} {v : View} (hu : u ≠ t)
    (h : Own G u a v) (hq : Quiet t G a G' a') : Own G' u a' v where
  hba := fun hv => hq.hba u hu (h.hba hv)
  waitq := fun hv => hq.waitq u hu (h.waitq hv)
  hands := fun g k => (hq.hands u hu g k).trans (h.hands g k)
  nodup := h.nodup
  owner := fun hv => by
    rcases hq.server u hu (h.hba hv) with ⟨hs, hp⟩
    rw [hs, hp]
    exact h.owner hv

/-- A step that moves one request leaves every other one alone. -/
structure Elsewhere (gdevOf : Gcmd → GdevId) (g : Gcmd) (a a' : Ccc) : Prop where
  wait : ∀ x, x ≠ g → (a'.waitq.Waiting gdevOf x ↔ a.waitq.Waiting gdevOf x)
  hba : ∀ x, x ≠ g → (x ∈ a'.active ↔ x ∈ a.active)
  doneq : ∀ x, x ≠ g → (x ∈ a'.doneq.queue ↔ x ∈ a.doneq.queue)
  lent : ∀ x, x ≠ g → a'.lent x = a.lent x
  state : ∀ x, x ≠ g → a'.cmdState x = a.cmdState x
  log : ∀ x, x ≠ g → openTransport a'.log x = openTransport a.log x
  outstanding : ∀ x, x ≠ g → (Outstanding a'.log x ↔ Outstanding a.log x)

/-- The request it moves is at its new place and at no other. -/
structure Arrived (gdevOf : Gcmd → GdevId) (g : Gcmd) (p : Place) (a : Ccc) : Prop where
  wait : a.waitq.Waiting gdevOf g ↔ p = .wait
  hba : g ∈ a.active ↔ p = .hba
  doneq : g ∈ a.doneq.queue ↔ p = .doneq
  idle : a.lent g = false ↔ p = .idle
  state : a.cmdState g = .waitq → p = .wait
  outstanding : Outstanding a.log g ↔ p = .wait ∨ p = .hba

namespace Ghost

@[simp] theorem move_place_self (G : Ghost) (g : Gcmd) (p : Place) :
    (G.move g p).place g = p := by
  simp only [move, Function.update_self]

theorem move_place_of_ne (G : Ghost) {g x : Gcmd} (p : Place) (h : x ≠ g) :
    (G.move g p).place x = G.place x := by
  simp only [move, Function.update_of_ne h]

@[simp] theorem move_server (G : Ghost) (g : Gcmd) (p : Place) :
    (G.move g p).server = G.server :=
  rfl

theorem LogOk.congr {G G' : Ghost} {log log' : List Event} {x : Gcmd}
    (hp : G'.place x = G.place x) (hl : openTransport log' x = openTransport log x)
    (hs : G'.server = some x ↔ G.server = some x) (h : G.LogOk log x) : G'.LogOk log' x := by
  unfold LogOk at h ⊢
  rw [hp, hl, hs]
  exact h

end Ghost

/-- A state that is set under a condition, at another request. -/
theorem ite_update_of_ne {f : Gcmd → CmdState} {g x : Gcmd} {s : CmdState} {b : Bool}
    (hx : x ≠ g) : (if b then Function.update f g s else f) x = f x := by
  cases b with
  | false => rfl
  | true => exact Function.update_of_ne hx ..

theorem ite_update_ne {f : Gcmd → CmdState} {g : Gcmd} {s r : CmdState} {b : Bool}
    (hs : s ≠ r) (hf : f g ≠ r) : (if b then Function.update f g s else f) g ≠ r := by
  cases b with
  | false => exact hf
  | true =>
      rw [if_pos rfl, Function.update_self]
      exact hs

namespace Inv

variable {gdevOf : Gcmd → GdevId} {G : Ghost} {a a' : Ccc}

/-- One request moves and every queue changes accordingly. -/
theorem move (h : Inv gdevOf G a) {g : Gcmd} {p : Place} {r : Option Gcmd}
    (hwaitq : Waitq.WaitqOk gdevOf a'.active a'.waitq) (hnodup : a'.doneq.queue.Nodup)
    (hel : Elsewhere gdevOf g a a') (har : Arrived gdevOf g p a')
    (hother : ∀ x, x ≠ g → (r = some x ↔ G.server = some x))
    (hself : ({ G.move g p with server := r } : Ghost).LogOk a'.log g)
    (hserver : ∀ x, r = some x →
      a'.doneq.pollmode = true ∧ a'.hbaMutex ≠ none ∧ openTransport a'.log x = some true)
    (hmatched : Matched a'.log) : Inv gdevOf { G.move g p with server := r } a' where
  waitq := hwaitq
  -- `g` is where it has gone to, and each other command is where it was
  wait := fun x => by
    by_cases hx : x = g
    · rw [hx, har.wait, Ghost.move_place_self]
    · rw [hel.wait x hx, Ghost.move_place_of_ne G p hx, h.wait]
  hba := fun x => by
    by_cases hx : x = g
    · rw [hx, har.hba, Ghost.move_place_self]
    · rw [hel.hba x hx, Ghost.move_place_of_ne G p hx, h.hba]
  doneq := fun x => by
    by_cases hx : x = g
    · rw [hx, har.doneq, Ghost.move_place_self]
    · rw [hel.doneq x hx, Ghost.move_place_of_ne G p hx, h.doneq]
  nodup := hnodup
  idle := fun x => by
    by_cases hx : x = g
    · rw [hx, har.idle, Ghost.move_place_self]
    · rw [hel.lent x hx, Ghost.move_place_of_ne G p hx, h.idle]
  state := fun x hs => by
    by_cases hx : x = g
    · rw [hx] at hs ⊢
      rw [Ghost.move_place_self]
      exact har.state hs
    · rw [hel.state x hx] at hs
      rw [Ghost.move_place_of_ne G p hx]
      exact h.state x hs
  log := fun x => by
    by_cases hx : x = g
    · rw [hx]
      exact hself
    · exact (h.log x).congr (G.move_place_of_ne p hx) (hel.log x hx) (hother x hx)
  server := hserver
  matched := hmatched
  outstanding := fun x => by
    by_cases hx : x = g
    · rw [hx, har.outstanding, Ghost.move_place_self]
    · rw [hel.outstanding x hx, Ghost.move_place_of_ne G p hx, h.outstanding]

theorem not_server (h : Inv gdevOf G a) {g : Gcmd}
    (ho : openTransport a.log g ≠ some true) : G.server ≠ some g :=
  fun hs => ho (h.server g hs).2.2

theorem not_waiting (h : Inv gdevOf G a) {g : Gcmd} (hg : G.place g ≠ .wait) :
    ¬ a.waitq.Waiting gdevOf g :=
  fun hw => hg ((h.wait g).2 hw)

theorem not_active (h : Inv gdevOf G a) {g : Gcmd} (hg : G.place g ≠ .hba) : g ∉ a.active :=
  fun hw => hg ((h.hba g).2 hw)

theorem not_doneq (h : Inv gdevOf G a) {g : Gcmd} (hg : G.place g ≠ .doneq) :
    g ∉ a.doneq.queue :=
  fun hw => hg ((h.doneq g).2 hw)

theorem lent_of_ne (h : Inv gdevOf G a) {g : Gcmd} (hg : G.place g ≠ .idle) :
    a.lent g ≠ false :=
  mt (h.idle g).2 hg

theorem state_ne (h : Inv gdevOf G a) {g : Gcmd} (hg : G.place g ≠ .wait) :
    a.cmdState g ≠ .waitq :=
  fun hw => hg (h.state g hw)

theorem not_outstanding (h : Inv gdevOf G a) {g : Gcmd} (hw : G.place g ≠ .wait)
    (hb : G.place g ≠ .hba) : ¬ Outstanding a.log g :=
  fun ho => ((h.outstanding g).1 ho).elim hw hb

theorem call (h : Inv gdevOf G a) {t : Tid} {g : Gcmd} (hl : a.lent g = false) :
    Inv gdevOf (G.move g (.hand t .calling))
      { a with lent := Function.update a.lent g true } := by
  have hp : G.place g = .idle := (h.idle g).2 hl
  have hlog := h.log g
  simp only [Ghost.LogOk, hp] at hlog
  refine h.move h.waitq h.nodup ?_ ?_ (fun x _ => Iff.rfl) ?_ h.server h.matched
  · exact ⟨fun _ _ => Iff.rfl, fun _ _ => Iff.rfl, fun _ _ => Iff.rfl,
      fun x hx => Function.update_of_ne hx .., fun _ _ => rfl, fun _ _ => rfl,
      fun _ _ => Iff.rfl⟩
  · refine ⟨iff_of_false (h.not_waiting ?_) ?_, iff_of_false (h.not_active ?_) ?_,
      iff_of_false (h.not_doneq ?_) ?_, iff_of_false ?_ ?_, fun hs => absurd hs (h.state_ne ?_),
      iff_of_false (h.not_outstanding ?_ ?_) ?_⟩
    all_goals simp only [hp, Function.update_self, ne_eq, reduceCtorEq, not_false_eq_true,
      Bool.true_eq_false, or_self]
  · simp only [Ghost.LogOk, Ghost.move_place_self]
    exact hlog

theorem link (h : Inv gdevOf G a) {t : Tid} {g : Gcmd} {polled : Bool}
    (hp : G.place g = .hand t .calling)
    (hpolled : polled = true → a.hbaMutex = some t ∧ G.server = none ∧ a.doneq.pollmode = true) :
    Inv gdevOf { G.move g .wait with server := if polled then some g else G.server }
      { (a.setState g .waitq) with
        waitqMutex := some t
        waitq := a.waitq.link gdevOf g
        activel := l2Add a.activel g
        log := .transport g polled :: a.log } := by
  have hlog := h.log g
  simp only [Ghost.LogOk, hp] at hlog
  have hne : ∀ p, p ≠ Place.hand t .calling → G.place g ≠ p := fun p hpp he => hpp (he ▸ hp)
  have hns : G.server ≠ some g := h.not_server (by simp only [hlog, ne_eq, reduceCtorEq,
    not_false_eq_true])
  -- The other requests stay where they are, the linked one waits, and the log has its
  -- transport. A polled one becomes the request that is being served.
  refine h.move (h.waitq.link (h.not_waiting (hne _ nofun)) (h.not_active (hne _ nofun)))
    h.nodup ?_ ?_ (fun x hx => ?_) ?_ (fun x hx => ?_) ⟨hlog, h.matched⟩
  · refine ⟨fun x hx => ?_, fun _ _ => Iff.rfl, fun _ _ => Iff.rfl, fun _ _ => rfl,
      fun x hx => Function.update_of_ne hx .., fun x hx => ?_, fun x hx => ?_⟩
    · rw [Waitq.WaitqOk.waiting_link, or_iff_right hx]
    · simp only [openTransport, hx, if_false]
    · simp only [Outstanding, hx, false_or]
  · refine ⟨iff_of_true (Waitq.WaitqOk.waiting_link.2 (Or.inl rfl)) rfl,
      iff_of_false (h.not_active (hne _ nofun)) (by decide),
      iff_of_false (h.not_doneq (hne _ nofun)) (by decide),
      iff_of_false (h.lent_of_ne (hne _ nofun)) (by decide), fun _ => rfl,
      iff_of_true (Or.inl rfl) (Or.inl rfl)⟩
  · cases polled with
    | false => exact Iff.rfl
    | true =>
        rw [(hpolled rfl).2.1]
        simp only [if_true, Option.some.injEq, reduceCtorEq, iff_false]
        exact fun hg => hx hg.symm
  · simp only [Ghost.LogOk, Ghost.move_place_self, openTransport, if_true]
    refine ⟨polled, rfl, ?_⟩
    cases polled with
    | false => simp only [Bool.false_eq_true, if_false, hns]
    | true => simp only [if_true]
  · cases polled with
    | false =>
        rcases h.server x hx with ⟨h1, h2, h3⟩
        refine ⟨h1, h2, ?_⟩
        have hxg : x ≠ g := fun he => hns (he ▸ hx)
        simp only [openTransport, hxg, if_false]
        exact h3
    | true =>
        simp only [if_true, Option.some.injEq] at hx
        rcases hpolled rfl with ⟨h1, -, h3⟩
        refine ⟨h3, ?_, ?_⟩
        · simp only [Ccc.setState, h1, ne_eq, reduceCtorEq, not_false_eq_true]
        · simp only [openTransport, hx, if_true]

theorem take (h : Inv gdevOf G a) {g : Gcmd} {w : Waitq} (hs : a.waitq.take = some (g, w)) :
    Inv gdevOf (G.move g .hba)
      { (a.setState g .active) with
        waitq := w, waitqMutex := none, active := g :: a.active } := by
  -- Only the queue of the HBA is taken from, and what is on it waits.
  have hp : G.place g = .wait := (h.wait g).2 (Or.inr (Waitq.WaitqOk.mem_of_take hs))
  have hlog := h.log g
  simp only [Ghost.LogOk, hp] at hlog
  have hne : ∀ p, p ≠ Place.wait → G.place g ≠ p := fun p hpp he => hpp (he ▸ hp)
  refine h.move (h.waitq.take hs) h.nodup ?_ ?_ (fun x _ => Iff.rfl) ?_ h.server h.matched
  · refine ⟨fun x hx => ?_, fun x hx => ?_, fun _ _ => Iff.rfl, fun _ _ => rfl,
      fun x hx => Function.update_of_ne hx .., fun _ _ => rfl, fun _ _ => Iff.rfl⟩
    · rw [h.waitq.waiting_take hs, and_iff_right hx]
    · rw [List.mem_cons, or_iff_right hx]
  · refine ⟨iff_of_false (fun hw => ((h.waitq.waiting_take hs).1 hw).1 rfl) nofun,
      iff_of_true List.mem_cons_self rfl,
      iff_of_false (h.not_doneq (hne _ nofun)) nofun,
      iff_of_false (h.lent_of_ne (hne _ nofun)) nofun, fun hst => ?_,
      iff_of_true ((h.outstanding g).2 (Or.inl hp)) (Or.inr rfl)⟩
    simp only [Ccc.setState, Function.update_self, reduceCtorEq] at hst
  · simp only [Ghost.LogOk, Ghost.move_place_self]
    exact hlog

theorem reject (h : Inv gdevOf G a) {t : Tid} {g : Gcmd} (hp : G.place g = .hba) :
    Inv gdevOf (G.move g .wait)
      { (a.setState g .waitq) with
        waitqMutex := some t
        waitq := a.waitq.requeue g
        active := a.active.erase g
        startRejected := true } := by
  -- A rejected start undoes `take`: the transport in the log is still unanswered.
  have hg : g ∈ a.active := (h.hba g).1 hp
  have hlog := h.log g
  simp only [Ghost.LogOk, hp] at hlog
  have hne : ∀ p, p ≠ Place.hba → G.place g ≠ p := fun p hpp he => hpp (he ▸ hp)
  refine h.move (h.waitq.requeue hg) h.nodup ?_ ?_ (fun x _ => Iff.rfl) ?_ h.server h.matched
  · refine ⟨fun x hx => ?_, fun x hx => ?_, fun _ _ => Iff.rfl, fun _ _ => rfl,
      fun x hx => Function.update_of_ne hx .., fun _ _ => rfl, fun _ _ => Iff.rfl⟩
    · rw [Waitq.WaitqOk.waiting_requeue, or_iff_right hx]
    · rw [h.waitq.act_nodup.mem_erase_iff, and_iff_right hx]
  · refine ⟨iff_of_true (Waitq.WaitqOk.waiting_requeue.2 (Or.inl rfl)) rfl,
      iff_of_false (h.waitq.act_nodup.not_mem_erase) nofun,
      iff_of_false (h.not_doneq (hne _ nofun)) nofun,
      iff_of_false (h.lent_of_ne (hne _ nofun)) nofun, fun _ => rfl,
      iff_of_true ((h.outstanding g).2 (Or.inr hp)) (Or.inl rfl)⟩
  · simp only [Ghost.LogOk, Ghost.move_place_self]
    exact hlog

theorem delete (h : Inv gdevOf G a) {t : Tid} {g : Gcmd}
    (hp : G.place g = .wait ∧ a.cmdState g ≠ .waitq ∨ G.place g = .hba) :
    Inv gdevOf (G.move g (.hand t .completing))
      { a with
        waitqMutex := some t
        waitq := a.waitq.delete gdevOf g
        active := a.active.erase g
        log := .complete g :: a.log } := by
  have hg : a.waitq.Waiting gdevOf g ∨ g ∈ a.active := by
    rw [← h.wait, ← h.hba]
    exact hp.imp And.left id
  -- A request that is completed while it waits has been given another state before.
  have hst : a.cmdState g ≠ .waitq := by
    rcases hp with hp | hp
    · exact hp.2
    · exact h.state_ne (by rw [hp]; exact nofun)
  have hout : Outstanding a.log g := (h.outstanding g).2 (hp.imp And.left id)
  have hne : ∀ p, p ≠ Place.wait → p ≠ Place.hba → G.place g ≠ p := by
    rintro p hpw hph rfl
    rcases hp with hp | hp
    · exact hpw hp.1
    · exact hph hp
  have hlog := h.log g
  refine h.move (h.waitq.delete hg) h.nodup ?_ ?_ (fun x _ => Iff.rfl) ?_ h.server
    ⟨hout, h.matched⟩
  · refine ⟨fun x hx => ?_, fun x hx => ?_, fun _ _ => Iff.rfl, fun _ _ => rfl,
      fun _ _ => rfl, fun _ _ => rfl, fun x hx => ?_⟩
    · rw [h.waitq.waiting_delete hg, and_iff_right hx]
    · rw [h.waitq.act_nodup.mem_erase_iff, and_iff_right hx]
    · simp only [Outstanding, hx, ne_eq, not_false_eq_true, true_and]
  · refine ⟨iff_of_false (fun hw => ((h.waitq.waiting_delete hg).1 hw).1 rfl) nofun,
      iff_of_false (h.waitq.act_nodup.not_mem_erase) nofun,
      iff_of_false (h.not_doneq (hne _ nofun nofun)) nofun,
      iff_of_false (h.lent_of_ne (hne _ nofun nofun)) nofun, fun hs => absurd hs hst,
      iff_of_false (fun ho => ho.1 rfl) (fun ho => by rcases ho with ho | ho <;> cases ho)⟩
  · simp only [Ghost.LogOk, Ghost.move_place_self, openTransport]
    simp only [Ghost.LogOk] at hlog
    rcases hp with hp | hp
    · rw [hp.1] at hlog
      exact hlog
    · rw [hp] at hlog
      exact hlog

theorem doneqPut (h : Inv gdevOf G a) {t : Tid} {g : Gcmd} {k : Hand}
    (hk : k = .completing ∨ k = .holding) (hp : G.place g = .hand t k) :
    Inv gdevOf (G.move g .doneq)
      { (a.setState g .doneq) with doneq := a.doneq.putTail g } := by
  have hlog := h.log g
  have hne : ∀ p, p ≠ Place.hand t k → G.place g ≠ p := fun p hpp he => hpp (he ▸ hp)
  refine h.move h.waitq (nodup_l2Add h.nodup (h.not_doneq (hne _ nofun))) ?_ ?_
    (fun x _ => Iff.rfl) ?_ h.server h.matched
  · refine ⟨fun _ _ => Iff.rfl, fun _ _ => Iff.rfl, fun x hx => ?_, fun _ _ => rfl,
      fun x hx => Function.update_of_ne hx .., fun _ _ => rfl, fun _ _ => Iff.rfl⟩
    simp only [Doneq.putTail, mem_l2Add, or_iff_left hx]
  · refine ⟨iff_of_false (h.not_waiting (hne _ nofun)) nofun,
      iff_of_false (h.not_active (hne _ nofun)) nofun, iff_of_true ?_ rfl,
      iff_of_false (h.lent_of_ne (hne _ nofun)) nofun, fun hst => ?_,
      iff_of_false (h.not_outstanding (hne _ nofun) (hne _ nofun))
        (fun ho => by rcases ho with ho | ho <;> cases ho)⟩
    · simp only [Doneq.putTail, mem_l2Add, or_true]
    · simp only [Ccc.setState, Function.update_self, reduceCtorEq] at hst
  · simp only [Ghost.LogOk, Ghost.move_place_self]
    rcases hk with rfl | rfl
    · simp only [Ghost.LogOk, hp] at hlog
      exact hlog
    · simp only [Ghost.LogOk, hp] at hlog
      refine ⟨false, hlog, iff_of_false Bool.false_ne_true (h.not_server ?_)⟩
      rw [hlog]
      simp

/-- What popping the head of the done queue does to the queue. -/
theorem popped (h : Inv gdevOf G a) {g : Gcmd} {rest : List Gcmd}
    (hq : a.doneq.queue = g :: rest) :
    G.place g = .doneq ∧ rest.Nodup ∧ g ∉ rest ∧
      ∀ x, x ≠ g → (x ∈ rest ↔ x ∈ a.doneq.queue) := by
  have hnd : (g :: rest).Nodup := hq ▸ h.nodup
  refine ⟨(h.doneq g).2 (hq ▸ List.mem_cons_self), (List.nodup_cons.1 hnd).2,
    (List.nodup_cons.1 hnd).1, fun x hx => ?_⟩
  rw [hq, List.mem_cons, or_iff_right hx]

theorem doneqGet (h : Inv gdevOf G a) {t : Tid} {g : Gcmd} {own : Bool} {k : Hand}
    {q : Doneq Gcmd} (hs : a.doneq.get = some (g, q))
    (hk : k = .taken ∧ G.server = some g ∨ k = .holding ∧ G.server ≠ some g) :
    Inv gdevOf { G.move g (.hand t k) with server := if k = .taken then none else G.server }
      { a with
        doneq := q
        cmdState := if own then Function.update a.cmdState g .idle else a.cmdState } := by
  rcases Doneq.get_eq_some hs with ⟨rest, hq, rfl⟩
  rcases h.popped hq with ⟨hp, hnd, hrest, hother⟩
  have hlog := h.log g
  simp only [Ghost.LogOk, hp] at hlog
  rcases hlog with ⟨b, hb, hbs⟩
  have hne : ∀ p, p ≠ Place.doneq → G.place g ≠ p := fun p hpp he => hpp (he ▸ hp)
  refine h.move h.waitq hnd ?_ ?_ (fun x hx => ?_) ?_ (fun x hx => ?_) h.matched
  · exact ⟨fun _ _ => Iff.rfl, fun _ _ => Iff.rfl, hother, fun _ _ => rfl,
      fun x hx => ite_update_of_ne hx, fun _ _ => rfl, fun _ _ => Iff.rfl⟩
  · refine ⟨iff_of_false (h.not_waiting (hne _ nofun)) nofun,
      iff_of_false (h.not_active (hne _ nofun)) nofun, iff_of_false hrest nofun,
      iff_of_false (h.lent_of_ne (hne _ nofun)) nofun,
      fun hst => absurd hst (ite_update_ne nofun (h.state_ne (hne _ nofun))),
      iff_of_false (h.not_outstanding (hne _ nofun) (hne _ nofun))
        (fun ho => by rcases ho with ho | ho <;> cases ho)⟩
  · rcases hk with ⟨rfl, hg⟩ | ⟨rfl, -⟩
    · rw [hg, if_pos rfl]
      exact iff_of_false nofun (fun he => hx (Option.some.inj he).symm)
    · exact Iff.rfl
  · simp only [Ghost.LogOk, Ghost.move_place_self]
    rcases hk with ⟨rfl, hg⟩ | ⟨rfl, hg⟩
    · rw [if_pos rfl, hb, hbs.2 hg]
      exact ⟨rfl, nofun⟩
    · simp only
      rw [hb]
      cases b with
      | false => rfl
      | true => exact absurd (hbs.1 rfl) hg
  · rcases hk with ⟨rfl, -⟩ | ⟨rfl, -⟩
    · exact absurd hx nofun
    · exact h.server x hx

theorem pop (h : Inv gdevOf G a) {t : Tid} {g : Gcmd} {q : Doneq Gcmd}
    (hs : a.doneq.processNext = some (g, q)) :
    Inv gdevOf (G.move g (.hand t .popped)) { a with doneq := q } := by
  rcases Doneq.processNext_eq_some hs with ⟨hpm, rest, hq, rfl⟩
  rcases h.popped hq with ⟨hp, hnd, hrest, hother⟩
  have hlog := h.log g
  simp only [Ghost.LogOk, hp] at hlog
  rcases hlog with ⟨b, hb, hbs⟩
  have hne : ∀ p, p ≠ Place.doneq → G.place g ≠ p := fun p hpp he => hpp (he ▸ hp)
  refine h.move h.waitq hnd ?_ ?_ (fun _ _ => Iff.rfl) ?_ h.server h.matched
  · exact ⟨fun _ _ => Iff.rfl, fun _ _ => Iff.rfl, hother, fun _ _ => rfl, fun _ _ => rfl,
      fun _ _ => rfl, fun _ _ => Iff.rfl⟩
  · exact ⟨iff_of_false (h.not_waiting (hne _ nofun)) nofun,
      iff_of_false (h.not_active (hne _ nofun)) nofun, iff_of_false hrest nofun,
      iff_of_false (h.lent_of_ne (hne _ nofun)) nofun,
      fun hst => absurd hst (h.state_ne (hne _ nofun)),
      iff_of_false (h.not_outstanding (hne _ nofun) (hne _ nofun))
        (fun ho => by rcases ho with ho | ho <;> cases ho)⟩
  · -- A polled request on the done queue means poll mode, where nothing is popped.
    simp only [Ghost.LogOk, Ghost.move_place_self]
    rw [hb]
    cases b with
    | false => rfl
    | true =>
        have hpm' := (h.server g (hbs.1 rfl)).1
        rw [hpm] at hpm'
        cases hpm'

theorem callback (h : Inv gdevOf G a) {t : Tid} {g : Gcmd} {b : Bool}
    (hp : G.place g = .hand t (if b then .popped else .taken)) :
    Inv gdevOf (G.move g .idle)
      { a with
        cmdState := if b then Function.update a.cmdState g .idle else a.cmdState
        lent := Function.update a.lent g false
        log := .callback g b :: a.log } := by
  have hlog : openTransport a.log g = some (!b) ∧ G.server ≠ some g := by
    have hl := h.log g
    cases b with
    | false =>
        simp only [Ghost.LogOk, hp, Bool.false_eq_true, if_false] at hl
        exact hl
    | true =>
        simp only [Ghost.LogOk, hp, if_true] at hl
        exact ⟨hl, h.not_server (by rw [hl]; exact nofun)⟩
  have hne : ∀ p, p ≠ Place.hand t (if b then .popped else .taken) → G.place g ≠ p :=
    fun p hpp he => hpp (he ▸ hp)
  refine h.move h.waitq h.nodup ?_ ?_ (fun _ _ => Iff.rfl) ?_ (fun x hx => ?_)
    ⟨hlog.1, h.matched⟩
  · refine ⟨fun _ _ => Iff.rfl, fun _ _ => Iff.rfl, fun _ _ => Iff.rfl,
      fun x hx => Function.update_of_ne hx .., fun x hx => ite_update_of_ne hx, fun x hx => ?_,
      fun _ _ => Iff.rfl⟩
    simp only [openTransport, hx, if_false]
  · refine ⟨iff_of_false (h.not_waiting (hne _ nofun)) nofun,
      iff_of_false (h.not_active (hne _ nofun)) nofun,
      iff_of_false (h.not_doneq (hne _ nofun)) nofun,
      iff_of_true (Function.update_self ..) rfl,
      fun hst => absurd hst (ite_update_ne nofun (h.state_ne (hne _ nofun))),
      iff_of_false (h.not_outstanding (hne _ nofun) (hne _ nofun))
        (fun ho => by rcases ho with ho | ho <;> cases ho)⟩
  · simp only [Ghost.LogOk, Ghost.move_place_self, openTransport, if_true]
  · rcases h.server x hx with ⟨h1, h2, h3⟩
    refine ⟨h1, h2, ?_⟩
    have hxg : x ≠ g := fun he => hlog.2 (he ▸ hx)
    simp only [openTransport, hxg, if_false]
    exact h3

/-- No request moves. -/
theorem stay (h : Inv gdevOf G a) (hwaitq : Waitq.WaitqOk gdevOf a'.active a'.waitq)
    (hwait : ∀ x, a'.waitq.Waiting gdevOf x ↔ a.waitq.Waiting gdevOf x)
    (hactive : a'.active = a.active) (hdoneq : a'.doneq.queue = a.doneq.queue)
    (hlent : a'.lent = a.lent) (hlog : a'.log = a.log)
    (hstate : ∀ x, a'.cmdState x = .waitq → a.cmdState x = .waitq)
    (hserver : ∀ x, G.server = some x → a'.doneq.pollmode = true ∧ a'.hbaMutex ≠ none) :
    Inv gdevOf G a' where
  waitq := hwaitq
  wait := fun x => (h.wait x).trans (hwait x).symm
  hba := fun x => hactive ▸ h.hba x
  doneq := fun x => hdoneq ▸ h.doneq x
  nodup := hdoneq ▸ h.nodup
  idle := fun x => hlent ▸ h.idle x
  state := fun x hx => h.state x (hstate x hx)
  log := fun x => hlog ▸ h.log x
  server := fun x hx => ⟨(hserver x hx).1, (hserver x hx).2, hlog ▸ (h.server x hx).2.2⟩
  matched := hlog ▸ h.matched
  outstanding := fun x => hlog ▸ h.outstanding x

/-- The polled request stays served while poll mode and the HBA mutex do not
    change. -/
theorem serving (h : Inv gdevOf G a) (x : Gcmd) (hx : G.server = some x) :
    a.doneq.pollmode = true ∧ a.hbaMutex ≠ none :=
  ⟨(h.server x hx).1, (h.server x hx).2.1⟩

theorem newstate (h : Inv gdevOf G a) (g : Option Gcmd) (x : GAction) :
    Inv gdevOf G (a.newstate g x) := by
  cases g with
  | none => exact h
  | some g =>
      refine h.stay h.waitq (fun _ => Iff.rfl) rfl rfl rfl rfl (fun y hy => ?_) h.serving
      by_cases hyg : y = g
      · -- No action leads back to the wait queues.
        rw [hyg] at hy
        simp only [Ccc.newstate, Ccc.setState, Function.update_self] at hy
        cases x <;> cases hy
      · simpa only [Ccc.newstate, Ccc.setState, Function.update_of_ne hyg] using hy

theorem retract (h : Inv gdevOf G a) (g : Option Gcmd) (x : GAction) :
    Inv gdevOf G (a.retract g x) := by
  cases g with
  | none => exact h
  | some g =>
      exact h.stay h.waitq (fun _ => Iff.rfl) rfl rfl rfl rfl (fun _ hy => hy) h.serving

theorem mark (h : Inv gdevOf G a) (g : Option Gcmd) (d : GdevId) (x : GAction) :
    Inv gdevOf G (a.mark gdevOf g d x) := by
  refine h.stay h.waitq (fun _ => Iff.rfl) rfl rfl rfl rfl (fun y hy => ?_) h.serving
  simp only [Ccc.mark] at hy
  split at hy
  · exact Ccc.markState_waitq gdevOf hy
  · exact hy

theorem step (h : Inv gdevOf G a) {t : Tid} {v v' : View} {x : Act} (ho : Own G t a v)
    (hv : ViewStep x v v') (hp : x.PlaceOk G a) (hr : x.run gdevOf t a = some a') :
    Inv gdevOf (G.after t x) a' := by
  have hal := hv.allowed
  have hh := hv.hands
  cases x with
  | skip =>
      cases hr
      exact h
  | call g =>
      rcases Act.run_call.1 hr with ⟨hl, rfl⟩
      exact h.call hl
  | lockHba =>
      rcases Ccc.lockHba_eq_some.1 hr with ⟨hm, rfl⟩
      exact h.stay h.waitq (fun _ => Iff.rfl) rfl rfl rfl rfl (fun _ hy => hy)
        (fun y hy => ⟨(h.serving y hy).1, nofun⟩)
  | lockHbaSoft =>
      rcases Act.run_lockHbaSoft.1 hr with ⟨hm, rfl⟩
      exact h.stay h.waitq (fun _ => Iff.rfl) rfl rfl rfl rfl (fun _ hy => hy)
        (fun y hy => ⟨(h.serving y hy).1, nofun⟩)
  | unlockHba =>
      cases hr
      -- Nobody releases the HBA mutex while a polled request is being served.
      have hs : G.server = none := ((ho.owner hal.1).1).trans hal.2
      refine h.stay h.waitq (fun _ => Iff.rfl) rfl rfl rfl rfl (fun _ hy => hy) (fun y hy => ?_)
      rw [hs] at hy
      cases hy
  | lockWaitq =>
      rcases Ccc.lockWaitq_eq_some.1 hr with ⟨hm, rfl⟩
      exact h.stay h.waitq (fun _ => Iff.rfl) rfl rfl rfl rfl (fun _ hy => hy) h.serving
  | unlockWaitq =>
      cases hr
      exact h.stay h.waitq (fun _ => Iff.rfl) rfl rfl rfl rfl (fun _ hy => hy) h.serving
  | link g polled =>
      rcases Act.run_link.1 hr with ⟨hm, rfl⟩
      refine h.link ((ho.hands g .calling).2 (hh.mem_iff.2 List.mem_cons_self)) (fun hpol => ?_)
      rcases hal hpol with ⟨h1, h2, h3⟩
      exact ⟨ho.hba h1, ((ho.owner h1).1).trans h3, (ho.owner h1).2 h2⟩
  | promote d =>
      rcases Act.run_promote.1 hr with ⟨w, hw, rfl⟩
      exact h.stay (h.waitq.shuffleUp hw) (fun y => h.waitq.waiting_shuffleUp hw) rfl rfl rfl rfl
        (fun _ hy => hy) h.serving
  | take g =>
      rcases Act.run_take.1 hr with ⟨w, hw, rfl⟩
      exact h.take hw
  | accept =>
      rcases Act.run_accept.1 hr with ⟨hm, rfl⟩
      exact h.stay h.waitq (fun _ => Iff.rfl) rfl rfl rfl rfl (fun _ hy => hy) h.serving
  | reject g =>
      rcases Act.run_reject.1 hr with ⟨hm, rfl⟩
      exact h.reject hp
  | delete g =>
      rcases Act.run_delete.1 hr with ⟨hm, rfl⟩
      exact h.delete hp
  | stop g =>
      cases hr
      refine h.stay h.waitq (fun _ => Iff.rfl) rfl rfl rfl rfl (fun y hy => ?_) h.serving
      -- The new state is not that of the wait queues.
      by_cases hyg : y = g
      · rw [hyg] at hy
        simp only [Ccc.timerStop, Ccc.setState, Function.update_self, reduceCtorEq] at hy
      · simpa only [Ccc.timerStop, Ccc.setState, Function.update_of_ne hyg] using hy
  | doneqPut g k =>
      cases hr
      exact h.doneqPut hal ((ho.hands g k).2 (hh.mem_iff.2 List.mem_cons_self))
  | doneqGet g own k =>
      rcases Act.run_doneqGet.1 hr with ⟨q, hq, rfl⟩
      refine h.doneqGet hq ?_
      rw [(ho.owner hal.1).1]
      exact hal.2
  | pollmodeEnter =>
      cases hr
      exact h.stay h.waitq (fun _ => Iff.rfl) rfl rfl rfl rfl (fun _ hy => hy)
        (fun y hy => ⟨rfl, (h.serving y hy).2⟩)
  | pollmodeClear =>
      cases hr
      -- Poll mode ends when the polled request has been handed over.
      have hs : G.server = none := ((ho.owner hal.1).1).trans hal.2
      refine h.stay h.waitq (fun _ => Iff.rfl) rfl rfl rfl rfl (fun _ hy => hy) (fun y hy => ?_)
      rw [hs] at hy
      cases hy
  | trigger =>
      cases hr
      exact h.stay h.waitq (fun _ => Iff.rfl) rfl rfl rfl rfl (fun _ hy => hy) h.serving
  | process =>
      cases hr
      exact h.stay h.waitq (fun _ => Iff.rfl) rfl rfl rfl rfl (fun _ hy => hy) h.serving
  | pop g =>
      rcases Act.run_pop.1 hr with ⟨q, hq, rfl⟩
      exact h.pop hq
  | callback g b =>
      cases hr
      exact h.callback ((ho.hands g _).2 (hh.mem_iff.2 List.mem_cons_self))
  | timeout =>
      rcases Act.run_timeout.1 hr with ⟨-, rfl⟩
      exact h.stay h.waitq (fun _ => Iff.rfl) rfl rfl rfl rfl (fun _ hy => hy) h.serving
  | timerGet g =>
      rcases Act.run_timerGet.1 hr with ⟨-, rfl⟩
      exact h.stay h.waitq (fun _ => Iff.rfl) rfl rfl rfl rfl (fun _ hy => hy) h.serving
  | timerStop g =>
      cases hr
      exact h.stay h.waitq (fun _ => Iff.rfl) rfl rfl rfl rfl (fun _ hy => hy) h.serving
  | newstate g x =>
      cases hr
      exact h.newstate g x
  | retract g x =>
      cases hr
      exact h.retract g x
  | mark g d x =>
      cases hr
      exact h.mark g d x
  | queueHold b =>
      rcases Act.run_queueHold.1 hr with ⟨-, rfl⟩
      exact h.stay (h.waitq.flags b _) (fun _ => Iff.rfl) rfl rfl rfl rfl (fun _ hy => hy)
        h.serving
  | freeze =>
      rcases Act.run_freeze.1 hr with ⟨-, rfl⟩
      exact h.stay (h.waitq.flags _ true) (fun _ => Iff.rfl) rfl rfl rfl rfl (fun _ hy => hy)
        h.serving

/-- A step only moves a request that is in nobody else's hands, and takes one
    from the wait queues or the HBA only under the HBA mutex. -/
theorem source (h : Inv gdevOf G a) {t : Tid} {v v' : View} {x : Act} (ho : Own G t a v)
    (hv : ViewStep x v v') (hp : x.PlaceOk G a) (hr : x.run gdevOf t a = some a')
    {g : Gcmd} {p : Place} (hm : x.moves t = some (g, p)) :
    (∀ u k, G.place g = .hand u k → u = t) ∧
      (G.place g = .wait ∨ G.place g = .hba → v.hba = true) ∧
      (∀ u k, p = .hand u k → u = t) := by
  have hal := hv.allowed
  have hh := hv.hands
  have hidle : ∀ {q : Place}, G.place g = q → (∀ u k, q ≠ .hand u k) →
      ∀ u k, G.place g = .hand u k → u = t :=
    fun hq hn u k he => absurd (hq.symm.trans he) (hn u k)
  have hhand : ∀ {k : Hand}, G.place g = .hand t k →
      (∀ u k, G.place g = .hand u k → u = t) ∧ ¬ (G.place g = .wait ∨ G.place g = .hba) := by
    intro k hk
    refine ⟨fun u k' he => ?_, fun hw => ?_⟩
    · rw [hk] at he
      cases he
      rfl
    · rw [hk] at hw
      rcases hw with hw | hw <;> cases hw
  -- Every action that moves a request either has it in hand, or takes it from a queue.
  cases x with
  | call g' =>
      cases hm
      have hpl := (h.idle g).2 (Act.run_call.1 hr).1
      refine ⟨hidle hpl nofun, fun hw => ?_, fun u k he => by cases he; rfl⟩
      rw [hpl] at hw
      rcases hw with hw | hw <;> cases hw
  | link g' polled =>
      cases hm
      have hpl := (ho.hands g .calling).2 (hh.mem_iff.2 List.mem_cons_self)
      exact ⟨(hhand hpl).1, fun hw => absurd hw (hhand hpl).2, nofun⟩
  | take g' =>
      cases hm
      rcases Act.run_take.1 hr with ⟨w, hw, -⟩
      have hpl : G.place g = .wait := (h.wait g).2 (Or.inr (Waitq.WaitqOk.mem_of_take hw))
      exact ⟨hidle hpl nofun, fun _ => hal.1, nofun⟩
  | reject g' =>
      cases hm
      exact ⟨hidle hp nofun, fun _ => hal, nofun⟩
  | delete g' =>
      cases hm
      refine ⟨?_, fun _ => hal, fun u k he => by cases he; rfl⟩
      rcases hp with hp | hp
      · exact hidle hp.1 nofun
      · exact hidle hp nofun
  | doneqPut g' k =>
      cases hm
      have hpl := (ho.hands g k).2 (hh.mem_iff.2 List.mem_cons_self)
      exact ⟨(hhand hpl).1, fun hw => absurd hw (hhand hpl).2, nofun⟩
  | doneqGet g' own k =>
      cases hm
      rcases Act.run_doneqGet.1 hr with ⟨q, hq, -⟩
      rcases Doneq.get_eq_some hq with ⟨rest, hrest, -⟩
      exact ⟨hidle (h.popped hrest).1 nofun, fun _ => hal.1, fun u k he => by cases he; rfl⟩
  | pop g' =>
      cases hm
      rcases Act.run_pop.1 hr with ⟨q, hq, -⟩
      rcases Doneq.processNext_eq_some hq with ⟨-, rest, hrest, -⟩
      have hpl := (h.popped hrest).1
      refine ⟨hidle hpl nofun, fun hw => ?_, fun u k he => by cases he; rfl⟩
      rw [hpl] at hw
      rcases hw with hw | hw <;> cases hw
  | callback g' b =>
      cases hm
      have hpl := (ho.hands g _).2 (hh.mem_iff.2 List.mem_cons_self)
      exact ⟨(hhand hpl).1, fun hw => absurd hw (hhand hpl).2, nofun⟩
  | skip | lockHba | lockHbaSoft | unlockHba | lockWaitq | unlockWaitq | promote | accept | stop
  | pollmodeEnter | pollmodeClear | trigger | process | timeout | timerGet | timerStop
  | newstate | retract | mark | queueHold | freeze => cases hm

end Inv

theorem Ghost.after_place_of_moves {G : Ghost} {t : Tid} {x : Act} {g : Gcmd} {p : Place}
    (h : x.moves t = some (g, p)) (y : Gcmd) :
    (G.after t x).place y = if y = g then p else G.place y := by
  simp only [Ghost.after, h, Function.update_apply]

theorem Ghost.after_place_of_none {G : Ghost} {t : Tid} {x : Act} (h : x.moves t = none) :
    (G.after t x).place = G.place := by
  simp only [Ghost.after, h]

section Steps

variable {gdevOf : Gcmd → GdevId} {G : Ghost} {a a' : Ccc} {t : Tid} {v v' : View} {x : Act}

theorem Act.servingAfter_eq (hal : x.Allowed v) (hv : v.hba = false) (r : Option Gcmd) :
    x.servingAfter r = r := by
  cases x with
  | link g polled =>
      cases polled with
      | false => rfl
      | true =>
          rw [(hal rfl).1] at hv
          cases hv
  | doneqGet g own k =>
      rw [hal.1] at hv
      cases hv
  | _ => rfl

theorem Act.pollmodeAfter_eq (hal : x.Allowed v) (hv : v.hba = false) (b : Bool) :
    x.pollmodeAfter b = b := by
  cases x with
  | pollmodeEnter =>
      rw [show v.hba = true from hal] at hv
      cases hv
  | pollmodeClear =>
      rw [hal.1] at hv
      cases hv
  | _ => rfl

/-- A step that takes no request from the wait queues or the HBA disturbs
    none there. -/
theorem Undisturbed.step (hr : x.run gdevOf t a = some a')
    (hm : ∀ g p, x.moves t = some (g, p) → G.place g ≠ .wait ∧ G.place g ≠ .hba) :
    Undisturbed G a (G.after t x) a' := by
  intro y
  have hkeep : G.place y = .wait ∨ G.place y = .hba → (G.after t x).place y = G.place y := by
    intro hw
    cases hmv : x.moves t with
    | none => rw [Ghost.after_place_of_none hmv]
    | some gp =>
        rcases gp with ⟨g, p⟩
        rw [Ghost.after_place_of_moves hmv]
        by_cases hy : y = g
        · rw [hy] at hw
          exact absurd hw (not_or.2 (hm g p hmv))
        · rw [if_neg hy]
  refine ⟨fun hy => (hkeep (Or.inr hy)).trans hy,
    fun hy => ⟨(hkeep (Or.inl hy)).trans hy, fun hst hst' => ?_⟩⟩
  rcases Act.run_state hr hst' with hs | ⟨polled, rfl⟩ | rfl
  · exact hst hs
  · exact (hm y .wait rfl).1 hy
  · exact (hm y .wait rfl).1 hy

/-- A step is quiet for the other threads. -/
theorem Quiet.step (h : Inv gdevOf G a) (ho : Own G t a v) (hv : ViewStep x v v')
    (hp : x.PlaceOk G a) (hr : x.run gdevOf t a = some a') :
    Quiet t G a (G.after t x) a' := by
  have hal := hv.allowed
  have hf := Act.frame hr
  have hnot : ∀ u, u ≠ t → a.hbaMutex = some u → v.hba = false := by
    intro u hu hm
    by_contra hb
    rw [Bool.not_eq_false] at hb
    rw [ho.hba hb] at hm
    exact hu (Option.some.inj hm).symm
  -- Another thread that has the HBA mutex excludes every action that needs it.
  constructor
  · intro u hu hm
    cases x with
    | lockHba | lockHbaSoft =>
        rw [hf.hbaFree trivial] at hm
        cases hm
    | unlockHba =>
        have hb := hnot u hu hm
        rw [hal.1] at hb
        cases hb
    | _ => exact hf.hbaMutex.trans hm
  · intro u hu hm
    have hw : v.waitq = true → False := by
      intro hb
      rw [ho.waitq hb] at hm
      exact hu (Option.some.inj hm).symm
    cases x with
    | lockWaitq | link | accept | reject | delete =>
        rw [hf.waitqFree trivial] at hm
        cases hm
    | unlockWaitq => exact absurd hal hw
    | take g => exact absurd hal.2 hw
    | _ => exact hf.waitqMutex.trans hm
  · intro u hu y k
    cases hm : x.moves t with
    | none => rw [Ghost.after_place_of_none hm]
    | some gp =>
        rcases gp with ⟨g, p⟩
        rcases h.source ho hv hp hr hm with ⟨hsrc, -, hdst⟩
        rw [Ghost.after_place_of_moves hm]
        by_cases hy : y = g
        · rw [if_pos hy, hy]
          exact iff_of_false (fun he => hu (hdst u k he)) (fun he => hu (hsrc u k he))
        · rw [if_neg hy]
  · intro u hu hm
    have hb := hnot u hu hm
    exact ⟨Act.servingAfter_eq hal hb _, hf.pollmode.trans (Act.pollmodeAfter_eq hal hb _)⟩
  · intro u hu hm
    have hb := hnot u hu hm
    refine Undisturbed.step hr (fun g p hmv => ?_)
    have hsrc := (h.source ho hv hp hr hmv).2.1
    refine ⟨fun hw => ?_, fun hw => ?_⟩
    · rw [hsrc (Or.inl hw)] at hb
      cases hb
    · rw [hsrc (Or.inr hw)] at hb
      cases hb

theorem Own.hands_add {g : Gcmd} {k : Hand} (hm : x.moves t = some (g, .hand t k))
    (hnot : ∀ k', G.place g ≠ .hand t k') (hh : v'.hands.Perm ((g, k) :: v.hands))
    (ho : Own G t a v) :
    (∀ y k', (G.after t x).place y = .hand t k' ↔ (y, k') ∈ v'.hands) ∧ v'.hands.Nodup := by
  have hout : ∀ k', (g, k') ∉ v.hands := fun k' hmem => hnot k' ((ho.hands g k').2 hmem)
  refine ⟨fun y k' => ?_, hh.nodup_iff.2 (List.nodup_cons.2 ⟨hout k, ho.nodup⟩)⟩
  rw [Ghost.after_place_of_moves hm, hh.mem_iff, List.mem_cons, Prod.mk.injEq]
  by_cases hy : y = g
  · subst hy
    rw [if_pos rfl, Place.hand.injEq]
    constructor
    · rintro ⟨-, rfl⟩
      exact Or.inl ⟨rfl, rfl⟩
    · rintro (⟨-, rfl⟩ | hmem)
      · exact ⟨rfl, rfl⟩
      · exact absurd hmem (hout k')
  · rw [if_neg hy, ho.hands y k']
    simp only [hy, false_and, false_or]

theorem Own.hands_drop {g : Gcmd} {k : Hand} {p : Place} (hm : x.moves t = some (g, p))
    (hp : ∀ k', p ≠ .hand t k') (hh : v.hands.Perm ((g, k) :: v'.hands)) (ho : Own G t a v) :
    (∀ y k', (G.after t x).place y = .hand t k' ↔ (y, k') ∈ v'.hands) ∧ v'.hands.Nodup := by
  have hnd := hh.nodup_iff.1 ho.nodup
  have hg : G.place g = .hand t k := (ho.hands g k).2 (hh.mem_iff.2 List.mem_cons_self)
  refine ⟨fun y k' => ?_, (List.nodup_cons.1 hnd).2⟩
  rw [Ghost.after_place_of_moves hm]
  by_cases hy : y = g
  · subst hy
    rw [if_pos rfl]
    refine iff_of_false (hp k') (fun hmem => ?_)
    have hk := (ho.hands y k').2 (hh.mem_iff.2 (List.mem_cons_of_mem _ hmem))
    rw [hg, Place.hand.injEq] at hk
    rw [← hk.2] at hmem
    exact (List.nodup_cons.1 hnd).1 hmem
  · rw [if_neg hy, ho.hands y k', hh.mem_iff, List.mem_cons, Prod.mk.injEq]
    simp only [hy, false_and, false_or]

theorem Own.hands_keep {g : Gcmd} {p : Place} (hm : x.moves t = some (g, p))
    (hp : ∀ k, p ≠ .hand t k) (hnot : ∀ k, G.place g ≠ .hand t k) (hh : v'.hands = v.hands)
    (ho : Own G t a v) :
    (∀ y k, (G.after t x).place y = .hand t k ↔ (y, k) ∈ v'.hands) ∧ v'.hands.Nodup := by
  rw [hh]
  refine ⟨fun y k => ?_, ho.nodup⟩
  rw [Ghost.after_place_of_moves hm]
  by_cases hy : y = g
  · rw [if_pos hy, hy]
    exact iff_of_false (hp k) (fun hmem => hnot k ((ho.hands g k).2 hmem))
  · rw [if_neg hy]
    exact ho.hands y k

theorem Own.hands_step (h : Inv gdevOf G a) (ho : Own G t a v) (hv : ViewStep x v v')
    (hp : x.PlaceOk G a) (hr : x.run gdevOf t a = some a') :
    (∀ y k, (G.after t x).place y = .hand t k ↔ (y, k) ∈ v'.hands) ∧ v'.hands.Nodup := by
  have hh := hv.hands
  cases x with
  | call g =>
      have hpl := (h.idle g).2 (Act.run_call.1 hr).1
      exact ho.hands_add rfl (fun k he => nomatch hpl.symm.trans he) hh
  | link g polled => exact ho.hands_drop rfl nofun hh
  | take g =>
      rcases Act.run_take.1 hr with ⟨w, hw, -⟩
      have hpl := (h.wait g).2 (Or.inr (Waitq.WaitqOk.mem_of_take hw))
      exact ho.hands_keep rfl nofun (fun k he => nomatch hpl.symm.trans he) hh
  | reject g => exact ho.hands_keep rfl nofun (fun k he => nomatch hp.symm.trans he) hh
  | delete g =>
      refine ho.hands_add rfl (fun k he => ?_) hh
      rcases hp with hp | hp
      · exact nomatch hp.1.symm.trans he
      · exact nomatch hp.symm.trans he
  | doneqPut g k => exact ho.hands_drop rfl nofun hh
  | doneqGet g own k =>
      rcases Act.run_doneqGet.1 hr with ⟨q, hq, -⟩
      rcases Doneq.get_eq_some hq with ⟨rest, hrest, -⟩
      exact ho.hands_add rfl (fun k' he => nomatch (h.popped hrest).1.symm.trans he) hh
  | pop g =>
      rcases Act.run_pop.1 hr with ⟨q, hq, -⟩
      rcases Doneq.processNext_eq_some hq with ⟨-, rest, hrest, -⟩
      exact ho.hands_add rfl (fun k' he => nomatch (h.popped hrest).1.symm.trans he) hh
  | callback g b => exact ho.hands_drop rfl nofun hh
  | skip | lockHba | lockHbaSoft | unlockHba | lockWaitq | unlockWaitq | promote | accept | stop
  | pollmodeEnter | pollmodeClear | trigger | process | timeout | timerGet | timerStop
  | newstate | retract | mark | queueHold | freeze =>
      rw [show v'.hands = v.hands from hh]
      exact ⟨ho.hands, ho.nodup⟩

/-- While nobody has the HBA mutex no polled request is being served. -/
theorem Inv.no_server (h : Inv gdevOf G a) (hm : a.hbaMutex = none) : G.server = none := by
  cases hs : G.server with
  | none => rfl
  | some g => exact absurd hm (h.server g hs).2.1

/-- A thread's own step keeps its view right. -/
theorem Own.step (h : Inv gdevOf G a) (ho : Own G t a v) (hv : ViewStep x v v')
    (hp : x.PlaceOk G a) (hr : x.run gdevOf t a = some a') : Own (G.after t x) t a' v' := by
  have hal := hv.allowed
  have hf := Act.frame hr
  rcases ho.hands_step h hv hp hr with ⟨hhands, hnodup⟩
  refine ⟨fun hb => ?_, fun hb => ?_, hhands, hnodup, fun hb => ?_⟩
  · rw [hv.hba] at hb
    rw [hf.hbaMutex]
    cases x with
    | lockHba | lockHbaSoft => rfl
    | unlockHba => cases hb
    | _ => exact ho.hba hb
  · rw [hv.waitq] at hb
    rw [hf.waitqMutex]
    cases x with
    | lockWaitq | link | accept | reject | delete => rfl
    | unlockWaitq | take => cases hb
    | _ => exact ho.waitq hb
  · rw [hv.hba] at hb
    have hkeep : v.hba = true →
        (G.after t x).server = v'.serving ∧ (v'.pollmode = true → a'.doneq.pollmode = true) := by
      intro hvb
      rcases ho.owner hvb with ⟨hs, hpm⟩
      refine ⟨by rw [hv.serving, ← hs, Ghost.after], fun hvp => ?_⟩
      rw [hv.pollmode] at hvp
      rw [hf.pollmode]
      -- Poll mode is entered and left under the HBA mutex only.
      cases x with
      | pollmodeEnter => rfl
      | pollmodeClear => cases hvp
      | _ => exact hpm hvp
    cases x with
    | lockHba | lockHbaSoft =>
        rw [hv.serving, hv.pollmode]
        refine ⟨(h.no_server (hf.hbaFree trivial)).trans hal.1.symm, fun hvp => ?_⟩
        exact nomatch hal.2.symm.trans hvp
    | unlockHba => cases hb
    | _ => exact hkeep hb

end Steps

end Ghd

end Sil3112
