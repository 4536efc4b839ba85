import Mathlib.Logic.Function.Basic
import Sil3112.Lib.Transition

/-!
# Threads over a Shared State

Concurrent systems in which each thread has a control point and all threads
act on one shared state. A step is a step of one thread: it reads and writes
the shared state, moves that thread's control point, and leaves every other
thread where it was.

`Holds.reachable` is the proof rule. An invariant is split into an assertion
about the shared state and one assertion per thread that speaks about the
shared state at that thread's control point. A step of thread `t` then has to
re-establish the shared assertion and its own, and must not disturb the
assertion of any other thread. Both kinds of assertion may mention an
auxiliary value, which each step updates as it sees fit.

The rule also takes a property `P` already known of every reachable state.
Mutual exclusion, say, is proved once and then used in the interference
obligations of every later invariant.

A property of the past needs a record of it. `Recorded` adds one to a system
whose steps are labelled: a component of the shared state that every step updates
by its label and none reads. A recorded run is a run, and every run can be
recorded.

## Main definitions

* `Sys`: A shared state and the control point of every thread.
* `Step`: One step of one thread.
* `Holds`: The shared assertion and every thread's assertion.
* `Labelled`, `Recorded`: Steps with labels, and with a record of them.

## Theorems

* `Holds.step`: A locally correct, interference-free step keeps the
  assertions.
* `Holds.reachable`: They hold in every reachable state.
* `Reachable.forget`, `Reachable.recorded`: A recorded run is a run, and every run
  can be recorded.
-/

namespace Transition

universe u v w x

variable {τ : Type u} {σ : Type v} {κ : Type w} {γ : Type x}

/-- A shared state together with the control point of every thread. -/
structure Sys (τ : Type u) (σ : Type v) (κ : Type w) where
  shared : σ
  thr : τ → κ

namespace Sys

variable [DecidableEq τ]

/-- One step of one thread, given what a single thread can do. -/
def Step (loc : τ → σ → κ → σ → κ → Prop) (s s' : Sys τ σ κ) : Prop :=
  ∃ t c', loc t s.shared (s.thr t) s'.shared c' ∧ s'.thr = Function.update s.thr t c'

/-- The assertion about the shared state holds, and so does every thread's
    assertion at its own control point. -/
def Holds (I : γ → σ → Prop) (J : γ → τ → σ → κ → Prop) (g : γ) (s : Sys τ σ κ) : Prop :=
  I g s.shared ∧ ∀ t, J g t s.shared (s.thr t)

variable {loc : τ → σ → κ → σ → κ → Prop} {I : γ → σ → Prop} {J : γ → τ → σ → κ → Prop}

theorem Holds.step {s s' : Sys τ σ κ} (hst : Step loc s s')
    (hloc : ∀ t c', loc t s.shared (s.thr t) s'.shared c' →
      ∃ g', I g' s'.shared ∧ J g' t s'.shared c' ∧
        ∀ u, u ≠ t → J g' u s'.shared (s.thr u)) :
    ∃ g', Holds I J g' s' := by
  rcases hst with ⟨t, c', hl, hthr⟩
  rcases hloc t c' hl with ⟨g', hI, hJ, hother⟩
  refine ⟨g', hI, fun u => ?_⟩
  rw [hthr]
  by_cases hu : u = t
  · rw [hu, Function.update_self]
    exact hJ
  · rw [Function.update_of_ne hu]
    exact hother u hu

/-- The proof rule for threads: `P` is what is already known of every
    reachable state, and each step of a thread exhibits the new auxiliary
    value. -/
theorem Holds.reachable {init P : Sys τ σ κ → Prop}
    (hP : ∀ s, Reachable init (Step loc) s → P s)
    (h0 : ∀ s, init s → ∃ g, Holds I J g s)
    (hloc : ∀ g t (s : Sys τ σ κ) a' c', P s → loc t s.shared (s.thr t) a' c' →
      Holds I J g s →
      ∃ g', I g' a' ∧ J g' t a' c' ∧ ∀ u, u ≠ t → J g' u a' (s.thr u))
    {s : Sys τ σ κ} (h : Reachable init (Step loc) s) : ∃ g, Holds I J g s := by
  refine Reachable.invariant (I := fun s => ∃ g, Holds I J g s) h0 (fun s s' hr hI hst => ?_) h
  rcases hI with ⟨g, hg⟩
  exact Holds.step hst (fun t c' hl => hloc g t s _ c' (hP s hr) hl hg)

/-! ## Recorded runs -/

section Record

universe y z

variable {ℓ : Type y} {η : Type z}

/-- What a thread can do in a step with some label. -/
def Labelled (loc : τ → ℓ → σ → κ → σ → κ → Prop) (t : τ) (a : σ) (c : κ) (a' : σ) (c' : κ) :
    Prop :=
  ∃ l, loc t l a c a' c'

/-- The same with a record, which the label updates. -/
def Recorded (loc : τ → ℓ → σ → κ → σ → κ → Prop) (rec : η → ℓ → η) (t : τ) (p : σ × η) (c : κ)
    (p' : σ × η) (c' : κ) : Prop :=
  ∃ l, loc t l p.1 c p'.1 c' ∧ p'.2 = rec p.2 l

/-- The system without its record. -/
def forget (s : Sys τ (σ × η) κ) : Sys τ σ κ :=
  ⟨s.shared.1, s.thr⟩

/-- The system with a record. -/
def withRecord (s : Sys τ σ κ) (r : η) : Sys τ (σ × η) κ :=
  ⟨(s.shared, r), s.thr⟩

/-- A system that starts with the empty record. -/
def RecordInit (init : Sys τ σ κ → Prop) (r₀ : η) (s : Sys τ (σ × η) κ) : Prop :=
  init s.forget ∧ s.shared.2 = r₀

variable {lloc : τ → ℓ → σ → κ → σ → κ → Prop} {rec : η → ℓ → η} {r₀ : η}
  {init : Sys τ σ κ → Prop}

theorem Step.recorded {s s' : Sys τ σ κ} (h : Step (Labelled lloc) s s') (r : η) :
    ∃ r', Step (Recorded lloc rec) (s.withRecord r) (s'.withRecord r') := by
  rcases h with ⟨t, c', ⟨l, hl⟩, hthr⟩
  exact ⟨rec r l, t, c', ⟨l, hl, rfl⟩, hthr⟩

theorem Step.forget {s s' : Sys τ (σ × η) κ} (h : Step (Recorded lloc rec) s s') :
    Step (Labelled lloc) s.forget s'.forget := by
  rcases h with ⟨t, c', ⟨l, hl, -⟩, hthr⟩
  exact ⟨t, c', ⟨l, hl⟩, hthr⟩

theorem Reachable.forget {s : Sys τ (σ × η) κ}
    (h : Reachable (RecordInit init r₀) (Step (Recorded lloc rec)) s) :
    Reachable init (Step (Labelled lloc)) s.forget := by
  refine Reachable.invariant (I := fun s => Reachable init (Step (Labelled lloc)) s.forget)
    (fun s h0 => Reachable.initial h0.1) (fun s s' _ hI hst => hI.tail hst.forget) h

theorem Reachable.recorded {s : Sys τ σ κ} (h : Reachable init (Step (Labelled lloc)) s) :
    ∃ r, Reachable (RecordInit init r₀) (Step (Recorded lloc rec)) (s.withRecord r) := by
  refine Reachable.ghost (I := fun r s =>
    Reachable (RecordInit init r₀) (Step (Recorded lloc rec)) (s.withRecord r)) ?_ ?_ h
  · exact fun s h0 => ⟨r₀, Reachable.initial ⟨h0, rfl⟩⟩
  · intro r s s' hr hst
    rcases Step.recorded hst r with ⟨r', hst'⟩
    exact ⟨r', hr.tail hst'⟩

end Record

end Sys

end Transition
