import Mathlib.Data.List.Perm.Basic
import Mathlib.Data.List.Nodup
import Mathlib.Data.List.Range

/-!
# Ledgers

A machine whose steps put events in a log, some of which acquire a resource and
some of which release one. What was acquired is, at every moment, what was
released together with what is held, each as often. This is a conservation law:
it holds of a run if it holds of each step (`Balanced.run`).

If every acquisition is of a new resource, the law says of a single one that it
was released once, or is held and was not released (`Balanced.once`).

## Main definitions

* `Ledger.run`: The state and the log after a list of calls.
* `Ledger.Balanced`: The law.

## Theorems

* `Ledger.Balanced.run`: The law for a run.
* `Ledger.run_range`: Resources numbered in the order of their acquisition.
* `Ledger.Balanced.once`: What the law says of one resource.
-/

namespace Ledger

open scoped List

variable {σ γ ε ρ : Type}

/-- The state and the log after a list of calls. -/
def run (step : σ → γ → σ × List ε) (s : σ) : List γ → σ × List ε
  | [] => (s, [])
  | c :: cs => ((run step (step s c).1 cs).1, (step s c).2 ++ (run step (step s c).1 cs).2)

variable {step : σ → γ → σ × List ε}

/-- What was acquired or held is what was released or is held. -/
def Balanced (acq rel : ε → Option ρ) (held : σ → List ρ) (s : σ) (r : σ × List ε) : Prop :=
  (r.2.filterMap acq ++ held s).Perm (r.2.filterMap rel ++ held r.1)

variable {acq rel : ε → Option ρ} {held : σ → List ρ}

/-- Two balanced steps make a balanced one. -/
theorem Balanced.trans {s : σ} {a : σ × List ε} {b : σ × List ε}
    (ha : Balanced acq rel held s a) (hb : Balanced acq rel held a.1 b) :
    Balanced acq rel held s (b.1, a.2 ++ b.2) := by
  unfold Balanced at *
  rw [List.filterMap_append, List.filterMap_append]
  -- the second step's acquisitions wait in front until the first step is settled
  calc a.2.filterMap acq ++ b.2.filterMap acq ++ held s
      _ ~ b.2.filterMap acq ++ (a.2.filterMap acq ++ held s) :=
        (List.perm_append_comm.append_right _).trans (List.Perm.of_eq (List.append_assoc _ _ _))
      _ ~ b.2.filterMap acq ++ (a.2.filterMap rel ++ held a.1) := ha.append_left _
      _ ~ a.2.filterMap rel ++ (b.2.filterMap acq ++ held a.1) :=
        (List.perm_append_comm_assoc _ _ _)
      _ ~ a.2.filterMap rel ++ (b.2.filterMap rel ++ held b.1) := hb.append_left _
      _ ~ a.2.filterMap rel ++ b.2.filterMap rel ++ held b.1 :=
        List.Perm.of_eq (List.append_assoc _ _ _).symm

theorem Balanced.run {I : σ → Prop} (hI : ∀ s c, I s → I (step s c).1)
    (h : ∀ s c, I s → Balanced acq rel held s (step s c)) {s : σ} (hs : I s) (cs : List γ) :
    Balanced acq rel held s (Ledger.run step s cs) := by
  induction cs generalizing s with
  | nil => exact List.Perm.refl _
  | cons c cs ih => exact (h s c hs).trans (ih (hI s c hs))

/-- If every step numbers what it acquires from where the last one stopped, so
    does the run. -/
theorem run_range {I : σ → Prop} (hI : ∀ s c, I s → I (step s c).1) {acq : ε → Option Nat}
    {next : σ → Nat}
    (h : ∀ s c, I s → ∃ n, next (step s c).1 = next s + n ∧
      (step s c).2.filterMap acq = List.range' (next s) n) {s : σ} (hs : I s) (cs : List γ) :
    ∃ n, next (run step s cs).1 = next s + n ∧
      (run step s cs).2.filterMap acq = List.range' (next s) n := by
  induction cs generalizing s with
  | nil => exact ⟨0, rfl, rfl⟩
  | cons c cs ih =>
      rcases h s c hs with ⟨n, hn, hacq⟩
      rcases ih (hI s c hs) with ⟨m, hm, hrest⟩
      refine ⟨n + m, by rw [run]; dsimp only; omega, ?_⟩
      rw [run, List.filterMap_append, hacq, hrest, hn]
      exact List.range'_append_1

/-- A resource is acquired once. Either it is held and was not released, or it
    was released once and is not held. -/
theorem Balanced.once [DecidableEq ρ] {s : σ} {r : σ × List ε} (h : Balanced acq rel held s r)
    (h0 : held s = []) (hnodup : (r.2.filterMap acq).Nodup) {a : ρ}
    (ha : a ∈ r.2.filterMap acq) :
    (a ∈ held r.1 ∧ (r.2.filterMap rel).count a = 0) ∨
      (a ∉ held r.1 ∧ (r.2.filterMap rel).count a = 1) := by
  have hcount := h.count_eq a
  rw [h0, List.append_nil, List.count_append, List.count_eq_one_of_mem hnodup ha] at hcount
  by_cases hheld : a ∈ held r.1
  · have := List.count_pos_iff.2 hheld
    exact Or.inl ⟨hheld, by omega⟩
  · have := List.count_eq_zero_of_not_mem hheld
    exact Or.inr ⟨hheld, by omega⟩

/-- Only what was acquired is released. -/
theorem Balanced.mem_acq {s : σ} {r : σ × List ε} (h : Balanced acq rel held s r)
    (h0 : held s = []) {a : ρ} (ha : a ∈ r.2.filterMap rel) : a ∈ r.2.filterMap acq := by
  have := h.symm.subset (List.mem_append_left _ ha)
  rwa [h0, List.append_nil] at this

end Ledger
