import Mathlib.Logic.Relation

/-!
# Transition Systems

Reachability of a step relation from a set of initial states, and the one
induction every safety result of this development is an instance of.

`Reachable.invariant` is that induction: a property that holds initially and
survives every step holds in every state a run can reach. `Reachable.ghost`
is the same rule for a property that mentions an auxiliary value no step of
the program reads. The auxiliary value is not a component of the state; each
step only has to exhibit what it becomes, so the model stays the program and
the bookkeeping stays in the proof.

`Reachable.simulation` carries reachability along a relation between two
systems, which is how a detailed model is shown to be an instance of an
abstract one.

## Main definitions

* `Reachable`: The states some run from an initial state ends in.

## Theorems

* `Reachable.initial`: Initial states are reachable.
* `Reachable.tail`: A step out of a reachable state is reachable.
* `Reachable.trans`: A run out of a reachable state stays reachable.
* `Reachable.invariant`: An inductive property holds in every reachable
  state.
* `Reachable.ghost`: The same with an auxiliary value.
* `Reachable.simulation`: A simulated run ends in a reachable state.
-/

namespace Transition

universe u v w

variable {σ : Type u} {α : Type v} {γ : Type w}

/-- The states a run from an initial state can end in. -/
def Reachable (init : σ → Prop) (step : σ → σ → Prop) (s : σ) : Prop :=
  ∃ s₀, init s₀ ∧ Relation.ReflTransGen step s₀ s

namespace Reachable

variable {init : σ → Prop} {step : σ → σ → Prop}

theorem initial {s : σ} (h : init s) : Reachable init step s :=
  ⟨s, h, Relation.ReflTransGen.refl⟩

theorem tail {s s' : σ} (h : Reachable init step s) (hstep : step s s') :
    Reachable init step s' := by
  rcases h with ⟨s₀, h0, hrun⟩
  exact ⟨s₀, h0, hrun.tail hstep⟩

theorem trans {s s' : σ} (h : Reachable init step s)
    (hrun : Relation.ReflTransGen step s s') : Reachable init step s' := by
  rcases h with ⟨s₀, h0, hr⟩
  exact ⟨s₀, h0, hr.trans hrun⟩

/-- A property that holds of every initial state and survives every step
    holds in every reachable state. The step is allowed to know that the
    state it leaves is reachable. -/
theorem invariant {I : σ → Prop} (h0 : ∀ s, init s → I s)
    (hstep : ∀ s s', Reachable init step s → I s → step s s' → I s') {s : σ}
    (h : Reachable init step s) : I s := by
  rcases h with ⟨s₀, hs₀, hrun⟩
  induction hrun with
  | refl => exact h0 s₀ hs₀
  | tail hr hst ih => exact hstep _ _ ⟨s₀, hs₀, hr⟩ ih hst

/-- The same rule for a property of the state and an auxiliary value. Each
    step names the auxiliary value that goes with the state it leads to. -/
theorem ghost {I : γ → σ → Prop} (h0 : ∀ s, init s → ∃ g, I g s)
    (hstep : ∀ g s s', I g s → step s s' → ∃ g', I g' s') {s : σ}
    (h : Reachable init step s) : ∃ g, I g s := by
  refine invariant (I := fun s => ∃ g, I g s) h0 (fun s s' _ hI hst => ?_) h
  rcases hI with ⟨g, hg⟩
  exact hstep g s s' hg hst

/-- Reachability along a simulation: every step of the detailed system is a
    run of the abstract one between related states. -/
theorem simulation {ainit : α → Prop} {astep : α → α → Prop} {R : σ → α → Prop}
    (h0 : ∀ s, init s → ∃ a, ainit a ∧ R s a)
    (hstep : ∀ s s' a, R s a → step s s' → ∃ a', Relation.ReflTransGen astep a a' ∧ R s' a')
    {s : σ} (h : Reachable init step s) : ∃ a, Reachable ainit astep a ∧ R s a := by
  refine invariant (I := fun s => ∃ a, Reachable ainit astep a ∧ R s a)
    (fun s hs => ?_) (fun s s' _ hI hst => ?_) h
  · rcases h0 s hs with ⟨a, ha, hR⟩
    exact ⟨a, Reachable.initial ha, hR⟩
  · rcases hI with ⟨a, ha, hR⟩
    rcases hstep s s' a hR hst with ⟨a', hrun, hR'⟩
    exact ⟨a', ha.trans hrun, hR'⟩

end Reachable

end Transition
