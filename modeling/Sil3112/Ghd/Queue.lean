import Mathlib.Data.List.Nodup

/-!
# GHD Queues

The doubly linked `L2` queues of `ghd_queue.c`, as the lists their rings
represent. Every GHD queue is one of these: the device and HBA wait queues,
the done queue and the hold queue of a polling thread.

An element removed from a queue is linked to itself, so a second `L2_delete`
of it is harmless. Deleting an element that is not on the list leaves the
list alone here for the same reason.

## Main definitions

* `l2Add`: Append at the tail.
* `l2AddHead`: Prepend at the head.
* `l2Delete`: Unlink an element.
* `l2RemoveHead`: Pop the head.

## Theorems

* `mem_l2Add`, `mem_l2AddHead`, `mem_l2Delete`: What each operation leaves on
  the queue.
* `l2RemoveHead_eq_some`: A pop succeeds exactly on a non-empty queue.
-/

namespace Sil3112

namespace Ghd

universe u

variable {α : Type u}

/-- `L2_add`: link an element at the tail. -/
def l2Add (q : List α) (e : α) : List α :=
  q ++ [e]

/-- `L2_add_head`: link an element at the head. -/
def l2AddHead (q : List α) (e : α) : List α :=
  e :: q

/-- `L2_delete`: unlink an element. -/
def l2Delete [DecidableEq α] (q : List α) (e : α) : List α :=
  q.erase e

/-- `L2_remove_head`: unlink the head, if there is one. -/
def l2RemoveHead : List α → Option (α × List α)
  | [] => none
  | e :: q => some (e, q)

@[simp] theorem mem_l2Add {q : List α} {e x : α} : x ∈ l2Add q e ↔ x ∈ q ∨ x = e := by
  simp only [l2Add, List.mem_append, List.mem_singleton]

@[simp] theorem mem_l2AddHead {q : List α} {e x : α} : x ∈ l2AddHead q e ↔ x = e ∨ x ∈ q := by
  simp only [l2AddHead, List.mem_cons]

theorem mem_l2Delete [DecidableEq α] {q : List α} (h : q.Nodup) {e x : α} :
    x ∈ l2Delete q e ↔ x ≠ e ∧ x ∈ q := by
  simp only [l2Delete, h.mem_erase_iff]

theorem l2Delete_of_notMem [DecidableEq α] {q : List α} {e : α} (h : e ∉ q) :
    l2Delete q e = q :=
  List.erase_of_not_mem h

theorem nodup_l2Add {q : List α} {e : α} (h : q.Nodup) (he : e ∉ q) : (l2Add q e).Nodup := by
  rw [l2Add, ← List.concat_eq_append]
  exact (List.nodup_concat q e).2 ⟨he, h⟩

theorem nodup_l2AddHead {q : List α} {e : α} (h : q.Nodup) (he : e ∉ q) :
    (l2AddHead q e).Nodup :=
  List.nodup_cons.2 ⟨he, h⟩

theorem nodup_l2Delete [DecidableEq α] {q : List α} {e : α} (h : q.Nodup) :
    (l2Delete q e).Nodup :=
  h.erase e

theorem l2RemoveHead_eq_some {q r : List α} {e : α} :
    l2RemoveHead q = some (e, r) ↔ q = e :: r := by
  cases q with
  | nil => simp only [l2RemoveHead, reduceCtorEq]
  | cons a l => simp only [l2RemoveHead, Option.some.injEq, Prod.mk.injEq, List.cons.injEq]

theorem l2RemoveHead_eq_none {q : List α} : l2RemoveHead q = none ↔ q = [] := by
  cases q with
  | nil => simp only [l2RemoveHead]
  | cons a l => simp only [l2RemoveHead, reduceCtorEq]

end Ghd

end Sil3112
