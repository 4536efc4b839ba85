import Sil3112.Disk.Duplx
import Sil3112.Disk.Qsort

/-!
# The Elevator under Flow Control

A disk whose `queue` property is `qsort` has the one-way-scan queue under its flow
control. The queue sorts, so bufs are not claimed in the order in which they were
enqueued. But bufs for one block are, also through `ds_bp` and with several
outstanding: what the queue does to a list leaves the bufs of each block in order
(`SameBlock`), and flow control does no more than its queue does.

So a read that is enqueued after a write of the same block is claimed after it. The
queues of `duplx` promise this within a direction only.

## Main definitions

* `qsortQue`: `qsort_ops` as a queue object.
* `QsortRep`: The list that a queue holds.
* `SameBlock`: The order of the bufs of each block.

## Theorems

* `qsort_total`: `qsort_add` and `qsort_del` follow no NULL.
* `qsort_keeps`: The queue loses nothing, and keeps the order of each block.
* `elevator_in_order`: Nor does flow control.
-/

namespace Sil3112

namespace Disk

open Transition

variable {β : Type} [DecidableEq β] {blk : β → Nat}

/-! ## The queue object -/

/-- `qsort_ops`, for bufs whose block is known before they are enqueued. -/
def qsortQue (blk : β → Nat) : Que β (Qsort β) where
  add := fun q bp => (qsortAdd (q.setBlk bp (blk bp)) bp).getD q
  del := fun q => (qsortDel q).getD (q, none)

/-- A queue holds the bufs of a sweep, each with its block. -/
def QsortRep (blk : β → Nat) (q : Qsort β) (l : List β) : Prop :=
  ∃ s : Sweep (Prod.snd : β × Nat → Nat), q.Holds s ∧ s.held = l.map fun b => (b, blk b)

/-- The lists have the same bufs, and those of each block in the same order. -/
def SameBlock (blk : β → Nat) (a b : List β) : Prop :=
  a.Perm b ∧ ∀ k, a.filter (fun x => blk x = k) = b.filter fun x => blk x = k

omit [DecidableEq β] in
theorem orders_sameBlock (blk : β → Nat) : Orders (SameBlock blk) where
  refl := fun a => ⟨List.Perm.refl a, fun _ => rfl⟩
  trans := fun h h' => ⟨h.1.trans h'.1, fun k => (h.2 k).trans (h'.2 k)⟩
  left := fun c _ _ h => ⟨h.1.append_left c, fun k => by
    rw [List.filter_append, List.filter_append, h.2 k]⟩
  right := fun c _ _ h => ⟨h.1.append_right c, fun k => by
    rw [List.filter_append, List.filter_append, h.2 k]⟩
  perm := fun h => h.1

omit [DecidableEq β] in
theorem map_fst_pair (l : List β) : (l.map fun b => (b, blk b)).map Prod.fst = l := by
  rw [List.map_map]
  exact List.map_id l

omit [DecidableEq β] in
/-- The bufs of one block in a list with blocks. -/
theorem filter_pair (l : List β) (k : Nat) :
    (l.map fun b => (b, blk b)).filter (fun x => x.2 = k) =
      (l.filter fun b => blk b = k).map fun b => (b, blk b) :=
  List.filter_map

omit [DecidableEq β] in
/-- A list of bufs that all have their own block. -/
theorem eq_map_pair {h : List (β × Nat)} (hb : ∀ x ∈ h, x.2 = blk x.1) :
    h = (h.map Prod.fst).map fun b => (b, blk b) := by
  rw [List.map_map]
  refine (List.map_id h).symm.trans (List.map_congr_left fun x hx => ?_)
  exact Prod.ext rfl (hb x hx)

omit [DecidableEq β] in
theorem pair_injective : Function.Injective fun b : β => (b, blk b) :=
  fun _ _ h => congrArg Prod.fst h

/-- A new buf goes behind those of its block. -/
theorem qsortRep_add {q : Qsort β} {l : List β} (h : QsortRep blk q l) {b : β} (hb : b ∉ l) :
    ∃ q', qsortAdd (q.setBlk b (blk b)) b = some q' ∧
      ∃ l', QsortRep blk q' l' ∧ SameBlock blk (l ++ [b]) l' := by
  rcases h with ⟨s, hs, hheld⟩
  have hnew : b ∉ s.held.map Prod.fst := by
    rw [hheld, map_fst_pair]
    exact hb
  rcases qsortAdd_holds (blk b) hs hnew with ⟨q', hq', hs'⟩
  have hperm := s.add_perm (b, blk b)
  have hown : ∀ x ∈ (s.add (b, blk b)).held, x.2 = blk x.1 := by
    intro x hx
    rcases List.mem_cons.1 (hperm.mem_iff.1 hx) with rfl | hx
    · rfl
    · rw [hheld] at hx
      rcases List.mem_map.1 hx with ⟨y, _, rfl⟩
      rfl
  have hmap := eq_map_pair hown
  refine ⟨q', hq', (s.add (b, blk b)).held.map Prod.fst, ⟨_, hs', hmap⟩, ?_, fun k => ?_⟩
  · have hp := (hperm.map Prod.fst).symm
    rw [List.map_cons, hheld, map_fst_pair] at hp
    exact (List.perm_append_singleton b l).trans hp
  · -- The order of each block, read through the list with blocks.
    have hf := s.add_filter (b, blk b) k
    rw [hheld] at hf
    have hsnoc : (l ++ [b]).map (fun x => (x, blk x)) =
        (l.map fun x => (x, blk x)) ++ [(b, blk b)] := by
      rw [List.map_append, List.map_singleton]
    rw [← List.filter_append, ← hsnoc, filter_pair] at hf
    rw [hmap, filter_pair] at hf
    exact (List.map_injective_iff.2 pair_injective hf).symm

/-- The first buf is taken, or there is none. -/
theorem qsortRep_del {q : Qsort β} {l : List β} (h : QsortRep blk q l) :
    (l = [] ∧ qsortDel q = some (q, none)) ∨
      ∃ q' b l', l = b :: l' ∧ qsortDel q = some (q', some b) ∧ QsortRep blk q' l' := by
  rcases h with ⟨s, hs, hheld⟩
  cases hn : s.now with
  | nil =>
      refine Or.inl ⟨?_, qsortDel_empty hs hn⟩
      rw [Sweep.held_eq_nil.2 hn] at hheld
      exact List.map_eq_nil_iff.1 hheld.symm
  | cons a t =>
      have ha : s.now.head? = some a := by rw [hn, List.head?_cons]
      rcases qsortDel_holds hs ha with ⟨q', hq', _, hs'⟩
      rw [Sweep.held_pop ha] at hheld
      cases l with
      | nil => cases hheld
      | cons b l' =>
          rw [List.map_cons, List.cons.injEq] at hheld
          rcases hheld with ⟨rfl, hrest⟩
          exact Or.inr ⟨q', b, l', rfl, hq', s.pop, hs', hrest⟩

/-- The functions follow no NULL, and the walk of `oneway_scan_binary` ends. -/
theorem qsort_total {q : Qsort β} {l : List β} (h : QsortRep blk q l) :
    (qsortDel q).isSome ∧ ∀ b, b ∉ l → (qsortAdd (q.setBlk b (blk b)) b).isSome := by
  constructor
  · rcases qsortRep_del h with ⟨_, hd⟩ | ⟨_, _, _, _, hd, _⟩
    · rw [hd]
      rfl
    · rw [hd]
      rfl
  · intro b hb
    rcases qsortRep_add h hb with ⟨q', hq', _⟩
    rw [hq']
    rfl

/-- The queue loses nothing, and keeps the bufs of each block in order. -/
theorem qsort_keeps (blk : β → Nat) :
    (qsortQue blk).Keeps (QsortRep blk) (SameBlock blk) where
  add := by
    intro q l b h hb
    rcases qsortRep_add h hb with ⟨q', hq', hl⟩
    unfold qsortQue
    dsimp only
    rw [hq']
    exact hl
  del_none := by
    intro q l h hd
    unfold qsortQue at hd ⊢
    dsimp only at hd ⊢
    rcases qsortRep_del h with ⟨rfl, hq⟩ | ⟨_, _, _, _, hq, _⟩
    · rw [hq]
      exact ⟨rfl, h⟩
    · rw [hq] at hd
      cases hd
  del_some := by
    intro q l b h hd
    unfold qsortQue at hd ⊢
    dsimp only at hd ⊢
    rcases qsortRep_del h with ⟨_, hq⟩ | ⟨q', b', l', rfl, hq, hl⟩
    · rw [hq] at hd
      cases hd
    · rw [hq] at hd ⊢
      cases hd
      exact ⟨l', hl, (orders_sameBlock blk).refl _⟩

omit [DecidableEq β] in
/-- A queue that keeps the order of each block loses nothing. -/
theorem Que.Keeps.of_sameBlock {Q : Type} {que : Que β Q} {Rep : Q → List β → Prop}
    (h : que.Keeps Rep (SameBlock blk)) : que.Keeps Rep List.Perm where
  add := fun q l b hr hb =>
    let ⟨l', hr', he⟩ := h.add q l b hr hb
    ⟨l', hr', he.1⟩
  del_none := h.del_none
  del_some := fun q l b hr hd =>
    let ⟨l', hr', he⟩ := h.del_some q l b hr hd
    ⟨l', hr', he.1⟩

omit [DecidableEq β] in
/-- The bufs of a block that come first are those of the first part of a list. -/
theorem SameBlock.first {a b c : List β} (h : SameBlock blk a (b ++ c)) (k : Nat) :
    b.filter (fun x => blk x = k) <+: a.filter fun x => blk x = k := by
  rw [h.2 k, List.filter_append]
  exact List.prefix_append _ _

/-! ## Under flow control -/

/-- The queues of `duplx`, if it was given the elevator. -/
def dxQ (β : Type) : Dir → Type
  | .read => Qsort β
  | .write => QueTab β

def dxQue (blk : β → Nat) : (d : Dir) → Que β (dxQ β d)
  | .read => qsortQue blk
  | .write => qfifo

def dxRep (blk : β → Nat) : (d : Dir) → dxQ β d → List β → Prop
  | .read => QsortRep blk
  | .write => QueTab.Holds

theorem dxQue_keeps (blk : β → Nat) (d : Dir) :
    (dxQue blk d).Keeps (dxRep blk d) List.Perm := by
  cases d with
  | read => exact (qsort_keeps blk).of_sameBlock
  | write => exact qfifo_keeps.perm

/-- Bufs for one block are not reordered. With the elevator under `dsngl` or
    `dmult`, in any interleaving of the calls and whatever `TGCOM_PKT` does, no buf
    is lost, the queue follows no NULL, and those of any one block are claimed in
    the order in which they were enqueued. Under `duplx` the same holds of the
    reads, and the writes are all claimed in that order. -/
theorem elevator_in_order {π : Type} (blk : β → Nat) :
    (∀ (f : Flc) (s : FcSys π β (Qsort β)),
      Reachable (FcInit (QsortRep blk)) (FcStep (qsortQue blk) f fun _ _ _ => True) s →
        FcSafe (QsortRep blk) f s ∧ (qsortDel s.fc.que).isSome ∧
        (∀ b, b ∉ s.enqueued → (qsortAdd (s.fc.que.setBlk b (blk b)) b).isSome) ∧
        ∀ k, s.claimed.filter (fun b => blk b = k) <+:
          s.enqueued.filter fun b => blk b = k) ∧
    (∀ (dir : β → Dir) (s : DxSys π β (dxQ β)),
      Reachable (DxInit (dxRep blk)) (DxStep (dxQue blk) dir) s →
        DxSafe dir (dxRep blk) s ∧
        (∀ k, (along dir .read s.claimed).filter (fun b => blk b = k) <+:
          (along dir .read s.enqueued).filter fun b => blk b = k) ∧
        along dir .write s.claimed <+: along dir .write s.enqueued) := by
  refine ⟨fun f s hs => ?_, fun dir s hs => ⟨?_, fun k => ?_, ?_⟩⟩
  · rcases reachable_fcOk (orders_sameBlock blk) (qsort_keeps blk) hs with ⟨l, out, hok⟩
    have htotal := qsort_total hok.rep
    have hsafe := reachable_fcOk orders_perm (qsort_keeps blk).of_sameBlock hs
    rcases hsafe with ⟨l', out', hperm⟩
    refine ⟨hperm.safe, htotal.1, fun b hb => htotal.2 b fun hl => hb ?_, hok.parts.first⟩
    exact hok.parts.1.mem_iff.2 (List.mem_append_right _ (List.mem_append_right _ hl))
  · rcases reachable_dxOk (fun _ => orders_perm) (dxQue_keeps blk) hs with ⟨l, out, hok, hsv⟩
    exact hok.safe hsv
  · rcases reachable_order (d := .read) (dxQue_keeps blk) hs (orders_sameBlock blk)
      (qsort_keeps blk) with ⟨l, hl⟩
    exact hl.first k
  · rcases reachable_order (d := .write) (dxQue_keeps blk) hs orders_eq qfifo_keeps with ⟨l, hl⟩
    rw [hl]
    exact List.prefix_append _ _

/-- Nothing is enqueued. -/
def idleElevator : FcSys Unit Nat (Qsort Nat) where
  fc := ⟨none, 0, Qsort.init (fun _ => none) fun _ => 0, ()⟩
  calls := []
  enqueued := []
  claimed := []
  transported := []
  dequeued := []

theorem qsortRep_init : QsortRep (· / 10) (Qsort.init (fun _ => none) fun _ : Nat => 0) [] :=
  ⟨Sweep.empty _, ⟨rfl, rfl, rfl, List.nodup_nil, fun _ hx => absurd hx List.not_mem_nil⟩, rfl⟩

/-- A queue of the elevator and a FIFO, both empty. -/
def idleDxElevator : DxSys Unit Nat (dxQ Nat) where
  dx :=
    { q := fun
        | .read => ⟨none, 0, Qsort.init (fun _ => none) fun _ => 0⟩
        | .write => ⟨none, 0, ⟨none, none, fun _ => none⟩⟩
      com := ()
      kstat := none }
  held := none
  calls := []
  enqueued := []
  claimed := []
  transported := []
  dequeued := []
  refused := fun _ => false
  waited := 0
  ran := 0
  done := []

/-- Bufs for the blocks 5, 3, 5 and 3 under `dsngl`: the fourth overtakes the third,
    and neither overtakes its own block. -/
theorem elevator_in_order_overtaken :
    (∃ s : FcSys Unit Nat (Qsort Nat), s.enqueued = [50, 30, 51, 31] ∧ s.claimed = [50, 30] ∧
      s.fc.bp = some 31 ∧ FcSafe (QsortRep (· / 10)) dsngl s) ∧
    ∃ s : DxSys Unit Nat (dxQ Nat), s.claimed = [2] ∧ DxSafe parity (dxRep (· / 10)) s := by
  have hinit : FcInit (QsortRep (· / 10)) idleElevator :=
    ⟨rfl, rfl, qsortRep_init, rfl, rfl, rfl, rfl, rfl⟩
  have hone : Reachable _ (FcStep (qsortQue (· / 10)) dsngl fun _ _ _ => True) _ :=
    (Reachable.initial hinit).tail
      (.enque _ 50 (by decide) (fun u _ => (u, true)) fun _ _ => trivial)
  have htwo := hone.tail (.enque _ 30 (by decide) (fun u _ => (u, true)) fun _ _ => trivial)
  have hthree := htwo.tail (.enque _ 51 (by decide) (fun u _ => (u, true)) fun _ _ => trivial)
  have hfour := hthree.tail (.enque _ 31 (by decide) (fun u _ => (u, true)) fun _ _ => trivial)
  have hsent := hfour.tail (.transport _ 50 false [] [] rfl)
  have hdone := hsent.tail (.deque _ 50 (by decide) (by decide) (fun u _ => (u, true))
    fun _ _ => trivial)
  have hdx : DxInit (dxRep (· / 10)) idleDxElevator := by
    refine ⟨fun d => ?_, ⟨rfl, rfl⟩, ⟨rfl, rfl, rfl, rfl⟩, rfl⟩
    cases d with
    | read => exact ⟨rfl, rfl, qsortRep_init⟩
    | write => exact ⟨rfl, rfl, ⟨rfl, rfl, List.nodup_nil⟩⟩
  have hread : Reachable _ (DxStep (dxQue (· / 10)) parity) _ :=
    ((Reachable.initial hdx).tail (.enque _ 2 rfl (by decide))).tail
      (.round _ .read rfl fun u _ => (u, true))
  exact ⟨⟨_, rfl, rfl, rfl, ((elevator_in_order (· / 10)).1 dsngl _ hdone).1⟩,
    ⟨_, rfl, ((elevator_in_order (· / 10)).2 parity _ hread).1⟩⟩

end Disk

end Sil3112
