import Mathlib.Logic.Basic

/-!
# Loops

A loop whose body, in a state, either goes on in another state or leaves with a
result. Nothing is said about its termination: the loop is run for a number of
rounds, and has a result if it leaves within them. More rounds give the same
result, so that the result of a loop is that of any sufficient number of rounds
(`Ends`).

A loop with a measure that every round lowers ends (`run_of_measure`), and is then a
function (`exec`). What the result is follows from an invariant (`Ends.invariant`).

## Main definitions

* `Loop.run`: The result within a number of rounds.
* `Loop.Ends`: The loop leaves with this result.
* `Loop.exec`: The result of a loop with a measure.

## Theorems

* `Loop.Ends.unique`: A loop has one result.
* `Loop.Ends.invariant`: The rule for partial correctness.
* `Loop.run_of_measure`, `Loop.exec_ends`: The rule for termination.
* `Loop.ends_after`: A known sequence of rounds may be skipped.
-/

namespace Loop

variable {σ ρ : Type} {body : σ → σ ⊕ ρ}

/-- The result of the loop, if it leaves within so many rounds. -/
def run (body : σ → σ ⊕ ρ) : Nat → σ → Option ρ
  | 0, _ => none
  | n + 1, s =>
    match body s with
    | .inl s' => run body n s'
    | .inr r => some r

/-- The loop leaves with this result. -/
def Ends (body : σ → σ ⊕ ρ) (s : σ) (r : ρ) : Prop :=
  ∃ n, run body n s = some r

/-! ## One round -/

theorem run_next {s s' : σ} (h : body s = .inl s') (n : Nat) :
    run body (n + 1) s = run body n s' := by
  rw [run, h]

theorem run_leave {s : σ} {r : ρ} (h : body s = .inr r) (n : Nat) :
    run body (n + 1) s = some r := by
  rw [run, h]

theorem ends_leave {s : σ} {r : ρ} (h : body s = .inr r) : Ends body s r :=
  ⟨1, run_leave h 0⟩

theorem ends_next {s s' : σ} (h : body s = .inl s') {r : ρ} :
    Ends body s r ↔ Ends body s' r := by
  constructor
  · rintro ⟨n, hn⟩
    cases n with
    | zero => cases hn
    | succ n => exact ⟨n, (run_next h n).symm.trans hn⟩
  · rintro ⟨n, hn⟩
    exact ⟨n + 1, (run_next h n).trans hn⟩

/-- More rounds do not change the result. -/
theorem run_mono {n m : Nat} {s : σ} {r : ρ} (h : run body n s = some r) (hnm : n ≤ m) :
    run body m s = some r := by
  induction n generalizing m s with
  | zero => cases h
  | succ n ih =>
      obtain ⟨m, rfl⟩ : ∃ m', m = m' + 1 := ⟨m - 1, by omega⟩
      cases hb : body s with
      | inl s' =>
          rw [run_next hb] at h ⊢
          exact ih h (by omega)
      | inr r' =>
          rw [run_leave hb] at h ⊢
          exact h

theorem Ends.unique {s : σ} {r r' : ρ} (h : Ends body s r) (h' : Ends body s r') : r = r' := by
  rcases h with ⟨n, hn⟩
  rcases h' with ⟨m, hm⟩
  have hmax := run_mono hn (Nat.le_max_left n m)
  rw [run_mono hm (Nat.le_max_right n m)] at hmax
  exact (Option.some.inj hmax).symm

/-! ## Many rounds -/

/-- What every round keeps, and what holds of the result if the last round leaves
    from a state with it. -/
theorem Ends.invariant {I : σ → Prop} {Q : ρ → Prop}
    (hstep : ∀ s s', I s → body s = .inl s' → I s')
    (hend : ∀ s r, I s → body s = .inr r → Q r) {s : σ} (hs : I s) {r : ρ}
    (h : Ends body s r) : Q r := by
  rcases h with ⟨n, hn⟩
  induction n generalizing s with
  | zero => cases hn
  | succ n ih =>
      cases hb : body s with
      | inl s' =>
          rw [run_next hb] at hn
          exact ih (hstep s s' hs hb) hn
      | inr r' =>
          rw [run_leave hb] at hn
          exact Option.some.inj hn ▸ hend s r' hs hb

/-- A loop ends if every round lowers a measure. -/
theorem run_of_measure {μ : σ → Nat} (h : ∀ s s', body s = .inl s' → μ s' < μ s) (s : σ) :
    ∃ r, run body (μ s + 1) s = some r := by
  generalize hn : μ s = n
  induction n using Nat.strongRecOn generalizing s with
  | ind n ih =>
      cases hb : body s with
      | inl s' =>
          have hlt := h s s' hb
          rcases ih (μ s') (by omega) s' rfl with ⟨r, hr⟩
          refine ⟨r, ?_⟩
          rw [run_next hb]
          exact run_mono hr (by omega)
      | inr r => exact ⟨r, run_leave hb n⟩

/-- The first rounds are known. -/
theorem ends_after (st : Nat → σ) {k : Nat} (h : ∀ i, i < k → body (st i) = .inl (st (i + 1)))
    {r : ρ} : Ends body (st 0) r ↔ Ends body (st k) r := by
  induction k with
  | zero => exact Iff.rfl
  | succ k ih =>
      rw [ih fun i hi => h i (by omega)]
      exact ends_next (h k (by omega))

/-! ## Loops with a measure -/

/-- The result of a loop that every round brings nearer to its end. -/
def exec (body : σ → σ ⊕ ρ) (μ : σ → Nat) (h : ∀ s s', body s = .inl s' → μ s' < μ s) (s : σ) :
    ρ :=
  (run body (μ s + 1) s).get (by
    rcases run_of_measure h s with ⟨r, hr⟩
    rw [hr]
    rfl)

theorem exec_ends {μ : σ → Nat} (h : ∀ s s', body s = .inl s' → μ s' < μ s) (s : σ) :
    Ends body s (exec body μ h s) :=
  ⟨μ s + 1, (Option.some_get _).symm⟩

end Loop
