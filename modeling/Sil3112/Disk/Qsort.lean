import Sil3112.Lib.Sweep
import Sil3112.Disk.Strategy

/-!
# The One-Way-Scan Queue

`qsort_add` and `qsort_del` of `strategy.c`. The bufs of the current pass are
linked from `b_actf` and those of the next from `b_pasf`, each through
`av_forw`, sorted by `DBLK`. `oneway_scan_binary` compares a buf with the first
of the current pass only, and walks the list that this chooses.

The lists are a `Sweep` of bufs and blocks (`Qsort.Holds`), and the walk is its
insertion. The block of a buf is written before the buf is queued and stays
while it waits. A buf that has been returned may be queued again, for another
block.

A NULL that is followed, or a walk longer than the queue, is a result of its
own (`none`), and none occurs.

## Main definitions

* `Qsort`: `q_tab` and `q_cnt`, with the fields of the bufs that the queue uses.
* `scan`, `onewayScanBinary`, `qsortAdd`, `qsortDel`: The functions.
* `QsortEv`, `QsortRun`: A sequence of calls on an empty queue, with what they
  were given and returned.
* `Qsort.Holds`: The two lists of a queue.

## Theorems

* `scan_linked`: The walk ends, and links the buf where `Sweep.insert` puts it.
* `qsortAdd_holds`, `qsortDel_holds`: The functions are those of `Sweep`.
* `qsort_elevator`: Nothing is lost, and bufs for one block stay in order.
-/

namespace Sil3112

namespace Disk

variable {β : Type} [DecidableEq β]

/-! ## The functions -/

/-- `struct que_data`, and of every buf `av_forw` and `DBLK`. `b_pasf` is the
    `b_forw` of `q_tab` and `q_cnt` its `b_bcount`. -/
structure Qsort (β : Type) where
  cnt : Nat
  actf : Option β
  pasf : Option β
  avForw : β → Option β
  dblk : β → Nat

/-- A queue after `que_init`. -/
def Qsort.init (avForw : β → Option β) (dblk : β → Nat) : Qsort β where
  cnt := 0
  actf := none
  pasf := none
  avForw := avForw
  dblk := dblk

/-- The caller sets `b_private` of a buf. -/
def Qsort.setBlk (q : Qsort β) (bp : β) (blk : Nat) : Qsort β :=
  { q with dblk := Function.update q.dblk bp blk }

/-- The loop of `oneway_scan_binary`: the last buf that is not behind `bp`, from
    `ap` on. -/
def scan (q : Qsort β) (bp : β) : Nat → β → Option β
  | 0, _ => none
  | n + 1, ap =>
    match q.avForw ap with
    | none => some ap
    | some next => if q.dblk bp < q.dblk next then some ap else scan q bp n next

/-- The end of `oneway_scan_binary`: the loop, and `bp` linked behind the buf that
    it stops at. -/
def scanInsert (q : Qsort β) (bp ap : β) : Option (Qsort β) :=
  (scan q bp q.cnt ap).map fun ap =>
    { q with avForw := Function.update (Function.update q.avForw bp (q.avForw ap)) ap (some bp) }

/-- `oneway_scan_binary` -/
def onewayScanBinary (q : Qsort β) (bp : β) : Option (Qsort β) :=
  match q.actf with
  | none => some { q with actf := some bp, avForw := Function.update q.avForw bp none }
  | some ap =>
    if q.dblk bp < q.dblk ap then
      match q.pasf with
      | none => some { q with pasf := some bp, avForw := Function.update q.avForw bp none }
      | some ap =>
        if q.dblk bp < q.dblk ap then
          some { q with pasf := some bp, avForw := Function.update q.avForw bp (some ap) }
        else scanInsert q bp ap
    else scanInsert q bp ap

/-- `qsort_add` -/
def qsortAdd (q : Qsort β) (bp : β) : Option (Qsort β) :=
  onewayScanBinary { q with cnt := q.cnt + 1 } bp

/-- `qsort_del`, with the buf it returns. -/
def qsortDel (q : Qsort β) : Option (Qsort β × Option β) :=
  if q.cnt = 0 then some (q, none)
  else
    match q.actf with
    | none => none
    | some bp =>
      let q := { q with
        cnt := q.cnt - 1
        actf := q.avForw bp
        avForw := Function.update q.avForw bp none }
      if q.actf = none ∧ q.pasf ≠ none then
        some ({ q with actf := q.pasf, pasf := none }, some bp)
      else some (q, some bp)

/-- Deletions alone, with what they return. -/
def qsortDels : Nat → Qsort β → Option (Qsort β × List (Option β))
  | 0, q => some (q, [])
  | n + 1, q => do
    let (q, r) ← qsortDel q
    let (q, rs) ← qsortDels n q
    pure (q, r :: rs)

/-! ## Runs -/

/-- A call: a buf added for a block, or a deletion, with the buf that it returned
    and its `DBLK`. -/
inductive QsortEv (β : Type)
  | add (bp : β) (blk : Nat)
  | del (r : Option (β × Nat))

/-- The bufs added, with their blocks, in order. -/
def qadded (tr : List (QsortEv β)) : List (β × Nat) :=
  tr.filterMap fun
    | .add bp blk => some (bp, blk)
    | .del _ => none

/-- The bufs returned, in order. -/
def qreturned (tr : List (QsortEv β)) : List (β × Nat) :=
  tr.filterMap fun
    | .add _ _ => none
    | .del r => r

/-- The buf has been added more often than it was returned. -/
def QWaiting (tr : List (QsortEv β)) (bp : β) : Prop :=
  ((qreturned tr).map Prod.fst).count bp < ((qadded tr).map Prod.fst).count bp

instance (tr : List (QsortEv β)) (bp : β) : Decidable (QWaiting tr bp) :=
  inferInstanceAs (Decidable (_ < _))

/-- Calls in any order on a queue that was empty. A buf that waits is not added
    a second time. -/
inductive QsortRun : Qsort β → List (QsortEv β) → Prop
  | init (avForw : β → Option β) (dblk : β → Nat) : QsortRun (Qsort.init avForw dblk) []
  | add {q q' : Qsort β} {tr : List (QsortEv β)} (bp : β) (blk : Nat) :
      QsortRun q tr → ¬QWaiting tr bp → qsortAdd (q.setBlk bp blk) bp = some q' →
      QsortRun q' (tr ++ [.add bp blk])
  | del {q q' : Qsort β} {tr : List (QsortEv β)} {r : Option β} :
      QsortRun q tr → qsortDel q = some (q', r) →
      QsortRun q' (tr ++ [.del (r.map fun bp => (bp, q.dblk bp))])

/-! ## The two lists -/

omit [DecidableEq β] in
theorem linked_none {avForw : β → Option β} {l : List β} : Linked avForw none l ↔ l = [] := by
  unfold Linked
  rfl

/-- The lists of a queue, as a sweep of bufs with their blocks. -/
structure Qsort.Holds (q : Qsort β) (s : Sweep (Prod.snd : β × Nat → Nat)) : Prop where
  cnt : q.cnt = s.held.length
  act : Linked q.avForw q.actf (s.now.map Prod.fst)
  pas : Linked q.avForw q.pasf (s.next.map Prod.fst)
  nodup : (s.held.map Prod.fst).Nodup
  blk : ∀ x ∈ s.held, q.dblk x.1 = x.2

/-- The walk ends, and links the buf where `Sweep.insert` puts it. -/
theorem scan_linked {q : Qsort β} {bp : β} : ∀ {l : List (β × Nat)} {n : Nat} {a : β × Nat},
    Linked q.avForw (q.avForw a.1) (l.map Prod.fst) → (∀ x ∈ l, q.dblk x.1 = x.2) →
    ((a :: l).map Prod.fst).Nodup → bp ∉ (a :: l).map Prod.fst → l.length < n →
    ∃ x, scan q bp n a.1 = some x ∧ x ∈ (a :: l).map Prod.fst ∧
      Linked (Function.update (Function.update q.avForw bp (q.avForw x)) x (some bp)) (some a.1)
        ((a :: Sweep.insert Prod.snd (bp, q.dblk bp) l).map Prod.fst) := by
  intro l
  induction l with
  | nil =>
      intro n a hlink hblk hnd hbp hn
      rcases n with _ | n
      · omega
      · have hnone := linked_nil.1 hlink
        refine ⟨a.1, by simp [scan, hnone], List.mem_map_of_mem List.mem_cons_self, ?_⟩
        have hne : bp ≠ a.1 := fun h => hbp (by rw [h]; exact List.mem_cons_self)
        refine linked_cons.2 ⟨rfl, ?_⟩
        rw [Function.update_self]
        refine linked_cons.2 ⟨rfl, ?_⟩
        rw [Function.update_of_ne hne, Function.update_self, hnone]
        rfl
  | cons b l ih =>
      intro n a hlink hblk hnd hbp hn
      rcases n with _ | n
      · simp at hn
      · rcases linked_cons.1 hlink with ⟨hab, hlink'⟩
        have hb : q.dblk b.1 = b.2 := hblk b List.mem_cons_self
        have hne : bp ≠ a.1 := fun h => hbp (by rw [h]; exact List.mem_cons_self)
        rw [List.map_cons, List.nodup_cons] at hnd
        rw [List.map_cons, List.mem_cons, not_or] at hbp
        by_cases hlt : q.dblk bp < q.dblk b.1
        · -- The walk stops in front of `b`.
          have hscan : scan q bp (n + 1) a.1 = some a.1 := by
            simp only [scan, hab, hlt, if_true]
          refine ⟨a.1, hscan, List.mem_map_of_mem List.mem_cons_self, ?_⟩
          have hlt' : q.dblk bp < b.2 := hb ▸ hlt
          rw [Sweep.insert_of_lt (b := b) l hlt']
          refine linked_cons.2 ⟨rfl, ?_⟩
          rw [Function.update_self]
          refine linked_cons.2 ⟨rfl, ?_⟩
          rw [Function.update_of_ne hne, Function.update_self]
          exact (hlink.update hbp.2).update hnd.1
        · have hscan : scan q bp (n + 1) a.1 = scan q bp n b.1 := by
            simp only [scan, hab, hlt, if_false]
          rcases ih hlink' (fun x hx => hblk x (List.mem_cons_of_mem b hx)) hnd.2 hbp.2
            (by simpa using hn) with ⟨x, hx, hmem, hlinked⟩
          refine ⟨x, hscan.trans hx, List.mem_cons_of_mem _ hmem, ?_⟩
          have hlt' : ¬q.dblk bp < b.2 := hb ▸ hlt
          rw [Sweep.insert_of_not_lt (b := b) l hlt']
          refine linked_cons.2 ⟨rfl, ?_⟩
          -- The links up to `b` are as they were.
          have hax : a.1 ≠ x := by
            rintro rfl
            exact hnd.1 hmem
          rw [Function.update_of_ne hax, Function.update_of_ne (Ne.symm hne), hab]
          exact hlinked

/-- A buf that does not go before the first of a list is linked into it, and the
    other list stays as it is. -/
theorem scanInsert_linked {q : Qsort β} {bp : β} {a : β × Nat} {l m : List (β × Nat)}
    {o : Option β} (hl : Linked q.avForw (some a.1) ((a :: l).map Prod.fst))
    (hm : Linked q.avForw o (m.map Prod.fst)) (hnd : ((a :: l).map Prod.fst).Nodup)
    (hdisj : ∀ x ∈ (a :: l).map Prod.fst, x ∉ m.map Prod.fst)
    (hbl : bp ∉ (a :: l).map Prod.fst) (hbm : bp ∉ m.map Prod.fst)
    (hblk : ∀ x ∈ a :: l, q.dblk x.1 = x.2) (ha : ¬q.dblk bp < q.dblk a.1)
    (hn : (a :: l).length < q.cnt) :
    ∃ f, scanInsert q bp a.1 = some { q with avForw := f } ∧
      Linked f (some a.1) ((Sweep.insert Prod.snd (bp, q.dblk bp) (a :: l)).map Prod.fst) ∧
      Linked f o (m.map Prod.fst) := by
  rw [List.length_cons] at hn
  rcases scan_linked (n := q.cnt) (linked_cons.1 hl).2
    (fun x hx => hblk x (List.mem_cons_of_mem a hx)) hnd hbl (by omega) with ⟨x, hx, hmem, hlinked⟩
  refine ⟨_, by unfold scanInsert; rw [hx]; rfl, ?_, ?_⟩
  · rw [hblk a List.mem_cons_self] at ha
    rw [Sweep.insert_of_not_lt (b := a) l ha]
    exact hlinked
  · exact (hm.update hbm).update (hdisj x hmem)

/-- A queue that holds a sweep, and a buf that is counted but not linked yet. -/
structure Qsort.Adding (q : Qsort β) (s : Sweep (Prod.snd : β × Nat → Nat)) (bp : β) : Prop where
  cnt : q.cnt = s.held.length + 1
  act : Linked q.avForw q.actf (s.now.map Prod.fst)
  pas : Linked q.avForw q.pasf (s.next.map Prod.fst)
  nodup : (s.held.map Prod.fst).Nodup
  blk : ∀ x ∈ s.held, q.dblk x.1 = x.2
  new : bp ∉ s.held.map Prod.fst

namespace Qsort.Adding

variable {q : Qsort β} {s : Sweep (Prod.snd : β × Nat → Nat)} {bp : β}

omit [DecidableEq β] in
theorem not_mem (h : q.Adding s bp) : bp ∉ s.now.map Prod.fst ∧ bp ∉ s.next.map Prod.fst := by
  have hnew := h.new
  unfold Sweep.held at hnew
  rw [List.map_append, List.mem_append, not_or] at hnew
  exact hnew

omit [DecidableEq β] in
/-- The two lists have no buf twice, and none in common. -/
theorem parts (h : q.Adding s bp) : (s.now.map Prod.fst).Nodup ∧ (s.next.map Prod.fst).Nodup ∧
    ∀ x ∈ s.now.map Prod.fst, x ∉ s.next.map Prod.fst := by
  have hnd := h.nodup
  unfold Sweep.held at hnd
  rw [List.map_append, List.nodup_append] at hnd
  exact ⟨hnd.1, hnd.2.1, fun x hx hx' => hnd.2.2 x hx x hx' rfl⟩

omit [DecidableEq β] in
/-- A queue with the links of the new lists holds them. -/
theorem holds (h : q.Adding s bp) {q' : Qsort β} (hcnt : q'.cnt = q.cnt) (hdblk : q'.dblk = q.dblk)
    (hact : Linked q'.avForw q'.actf ((s.add (bp, q.dblk bp)).now.map Prod.fst))
    (hpas : Linked q'.avForw q'.pasf ((s.add (bp, q.dblk bp)).next.map Prod.fst)) :
    q'.Holds (s.add (bp, q.dblk bp)) := by
  have hperm := s.add_perm (bp, q.dblk bp)
  refine ⟨?_, hact, hpas, ?_, ?_⟩
  · rw [hperm.length_eq, hcnt, h.cnt, List.length_cons]
  · rw [(hperm.map Prod.fst).nodup_iff, List.map_cons, List.nodup_cons]
    exact ⟨h.new, h.nodup⟩
  · intro x hx
    rw [hdblk]
    rcases List.mem_cons.1 (hperm.subset hx) with rfl | hx
    · rfl
    · exact h.blk x hx

/-- An idle queue starts a pass. -/
theorem idle (h : q.Adding s bp) (hn : s.now = []) :
    ∃ q', onewayScanBinary q bp = some q' ∧ q'.Holds (s.add (bp, q.dblk bp)) := by
  have hact := h.act
  rw [hn] at hact
  have hnone : q.actf = none := linked_nil.1 hact
  have hrun : onewayScanBinary q bp = some { q with
      actf := some bp, avForw := Function.update q.avForw bp none } := by
    simp only [onewayScanBinary, hnone]
  refine ⟨_, hrun, h.holds rfl rfl ?_ ?_⟩
  · rw [Sweep.add_of_not_passed (Sweep.not_passed_of_nil _ hn)]
    unfold Sweep.addNow
    dsimp only
    rw [hn]
    refine linked_cons.2 ⟨rfl, ?_⟩
    rw [Function.update_self]
    rfl
  · rw [Sweep.add_of_not_passed (Sweep.not_passed_of_nil _ hn)]
    exact h.pas.update h.not_mem.2

/-- A buf in front of the current pass goes into the next one: as its only buf,
    as the first, or where the walk puts it. -/
theorem passed (h : q.Adding s bp) {ap : β} (ha : q.actf = some ap)
    (hlt : q.dblk bp < q.dblk ap) (hp : s.Passed (bp, q.dblk bp)) :
    ∃ q', onewayScanBinary q bp = some q' ∧ q'.Holds (s.add (bp, q.dblk bp)) := by
  have hnow : ∀ v, Linked (Function.update q.avForw bp v) q.actf
      ((s.add (bp, q.dblk bp)).now.map Prod.fst) := by
    intro v
    rw [Sweep.add_of_passed hp]
    exact h.act.update h.not_mem.1
  have hpas := h.pas
  cases hx : s.next with
  | nil =>
      -- the buf is the next pass
      rw [hx] at hpas
      have hnone : q.pasf = none := linked_nil.1 hpas
      have hrun : onewayScanBinary q bp = some { q with
          pasf := some bp, avForw := Function.update q.avForw bp none } := by
        simp only [onewayScanBinary, ha, hlt, if_true, hnone]
      refine ⟨_, hrun, h.holds rfl rfl (hnow none) ?_⟩
      rw [Sweep.add_of_passed hp]
      unfold Sweep.addNext
      dsimp only
      rw [hx]
      refine linked_cons.2 ⟨rfl, ?_⟩
      rw [Function.update_self]
      rfl
  | cons c m =>
      rw [hx] at hpas
      have hc : q.pasf = some c.1 := (linked_cons.1 hpas).1
      have hblk : ∀ x ∈ c :: m, q.dblk x.1 = x.2 := fun x hxm =>
        h.blk x (List.mem_append_right _ (hx ▸ hxm))
      have hcb : q.dblk c.1 = c.2 := hblk c List.mem_cons_self
      have hnew : bp ∉ (c :: m).map Prod.fst := hx ▸ h.not_mem.2
      by_cases hlt' : q.dblk bp < q.dblk c.1
      · -- the buf goes in front of the next pass
        have hrun : onewayScanBinary q bp = some { q with
            pasf := some bp, avForw := Function.update q.avForw bp (some c.1) } := by
          simp only [onewayScanBinary, ha, hlt, if_true, hc, hlt']
        refine ⟨_, hrun, h.holds rfl rfl (hnow (some c.1)) ?_⟩
        rw [Sweep.add_of_passed hp]
        unfold Sweep.addNext
        dsimp only
        rw [hx, Sweep.insert_of_lt (b := c) m (hcb ▸ hlt')]
        refine linked_cons.2 ⟨rfl, ?_⟩
        rw [Function.update_self, ← hc]
        exact hpas.update hnew
      · -- the buf is walked into the next pass
        have hdisj : ∀ x ∈ (c :: m).map Prod.fst, x ∉ s.now.map Prod.fst :=
          fun x hxm hxn => h.parts.2.2 x hxn (hx ▸ hxm)
        have hlen : (c :: m).length < q.cnt := by
          rw [h.cnt, Sweep.held, List.length_append, hx]
          omega
        rcases scanInsert_linked (hc ▸ hpas) h.act (hx ▸ h.parts.2.1) hdisj hnew h.not_mem.1
          hblk hlt' hlen with ⟨f, hf, hnext, hnow⟩
        have hrun : onewayScanBinary q bp = some { q with avForw := f } := by
          simp only [onewayScanBinary, ha, hlt, if_true, hc, hlt', if_false, hf]
        refine ⟨_, hrun, h.holds rfl rfl ?_ ?_⟩
        · rw [Sweep.add_of_passed hp]
          exact hnow
        · rw [Sweep.add_of_passed hp]
          unfold Sweep.addNext
          dsimp only
          rw [hx, hc]
          exact hnext

/-- Any other buf is walked into the current pass. -/
theorem not_passed (h : q.Adding s bp) {a : β × Nat} {l : List (β × Nat)} (hn : s.now = a :: l)
    (hlt : ¬q.dblk bp < q.dblk a.1) (hp : ¬s.Passed (bp, q.dblk bp)) :
    ∃ q', onewayScanBinary q bp = some q' ∧ q'.Holds (s.add (bp, q.dblk bp)) := by
  have hact := h.act
  rw [hn] at hact
  have ha : q.actf = some a.1 := (linked_cons.1 hact).1
  have hblk : ∀ x ∈ a :: l, q.dblk x.1 = x.2 := fun x hxn =>
    h.blk x (List.mem_append_left _ (hn ▸ hxn))
  have hdisj : ∀ x ∈ (a :: l).map Prod.fst, x ∉ s.next.map Prod.fst :=
    fun x hxn => h.parts.2.2 x (hn ▸ hxn)
  have hlen : (a :: l).length < q.cnt := by
    rw [h.cnt, Sweep.held, List.length_append, hn]
    omega
  rcases scanInsert_linked (ha ▸ hact) h.pas (hn ▸ h.parts.1) hdisj (hn ▸ h.not_mem.1)
    h.not_mem.2 hblk hlt hlen with ⟨f, hf, hnow, hnext⟩
  have hrun : onewayScanBinary q bp = some { q with avForw := f } := by
    simp only [onewayScanBinary, ha, hlt, if_false, hf]
  refine ⟨_, hrun, h.holds rfl rfl ?_ ?_⟩
  · rw [Sweep.add_of_not_passed hp]
    unfold Sweep.addNow
    dsimp only
    rw [hn, ha]
    exact hnow
  · rw [Sweep.add_of_not_passed hp]
    exact hnext

end Qsort.Adding

/-- `oneway_scan_binary` puts a buf where `Sweep.add` does. -/
theorem onewayScanBinary_holds {q : Qsort β} {s : Sweep (Prod.snd : β × Nat → Nat)} {bp : β}
    (h : q.Adding s bp) :
    ∃ q', onewayScanBinary q bp = some q' ∧ q'.Holds (s.add (bp, q.dblk bp)) := by
  cases hn : s.now with
  | nil => exact h.idle hn
  | cons a l =>
      have ha : q.actf = some a.1 := (linked_cons.1 (hn ▸ h.act)).1
      have hab : q.dblk a.1 = a.2 :=
        h.blk a (List.mem_append_left _ (hn ▸ List.mem_cons_self))
      by_cases hlt : q.dblk bp < q.dblk a.1
      · exact h.passed ha hlt ((Sweep.passed_cons hn).2 (hab ▸ hlt))
      · exact h.not_passed hn hlt fun hp => hlt (hab.symm ▸ (Sweep.passed_cons hn).1 hp)

/-- `qsort_add` is `Sweep.add`. -/
theorem qsortAdd_holds {q : Qsort β} {s : Sweep (Prod.snd : β × Nat → Nat)} {bp : β} (blk : Nat)
    (h : q.Holds s) (hbp : bp ∉ s.held.map Prod.fst) :
    ∃ q', qsortAdd (q.setBlk bp blk) bp = some q' ∧ q'.Holds (s.add (bp, blk)) := by
  have hb : (q.setBlk bp blk).dblk bp = blk := Function.update_self ..
  have hblk : ∀ x ∈ s.held, (q.setBlk bp blk).dblk x.1 = x.2 := by
    intro x hx
    have hne : x.1 ≠ bp := fun he => hbp (he ▸ List.mem_map_of_mem hx)
    unfold Qsort.setBlk
    dsimp only
    rw [Function.update_of_ne hne]
    exact h.blk x hx
  have hadd := onewayScanBinary_holds (q := { q.setBlk bp blk with cnt := q.cnt + 1 })
    ⟨congrArg Nat.succ h.cnt, h.act, h.pas, h.nodup, hblk, hbp⟩
  dsimp only at hadd
  rw [hb] at hadd
  exact hadd

theorem qsortDel_empty {q : Qsort β} {s : Sweep (Prod.snd : β × Nat → Nat)} (h : q.Holds s)
    (hn : s.now = []) : qsortDel q = some (q, none) := by
  have hcnt := h.cnt
  rw [Sweep.held_eq_nil.2 hn, List.length_nil] at hcnt
  unfold qsortDel
  rw [if_pos hcnt]

/-- `qsort_del` returns the first buf of the current pass, and is `Sweep.pop`. -/
theorem qsortDel_holds {q : Qsort β} {s : Sweep (Prod.snd : β × Nat → Nat)} {a : β × Nat}
    (h : q.Holds s) (ha : s.now.head? = some a) :
    ∃ q', qsortDel q = some (q', some a.1) ∧ q'.dblk = q.dblk ∧ q'.Holds s.pop := by
  have hheld := Sweep.held_pop ha
  have hcnt := h.cnt
  have hnd := h.nodup
  have hblk := h.blk
  rw [hheld] at hcnt hnd hblk
  rw [List.length_cons] at hcnt
  rw [List.map_cons, List.nodup_cons] at hnd
  rcases List.head?_eq_some_iff.1 ha with ⟨l, hl⟩
  have hact := h.act
  rw [hl] at hact
  rcases linked_cons.1 hact with ⟨hf, hlink⟩
  -- The buf returned is linked nowhere else, so clearing its link changes no list.
  have hout : a.1 ∉ l.map Prod.fst ∧ a.1 ∉ s.next.map Prod.fst := by
    have hnd' := h.nodup
    unfold Sweep.held at hnd'
    rw [hl, List.cons_append, List.map_cons, List.nodup_cons, List.map_append, List.mem_append,
      not_or] at hnd'
    exact hnd'.1
  have hlink' := hlink.update (v := none) hout.1
  have hpas' := h.pas.update (v := none) hout.2
  have htail : ∀ x ∈ s.pop.held, q.dblk x.1 = x.2 := fun x hx =>
    hblk x (List.mem_cons_of_mem a hx)
  by_cases ht : l = []
  · have hnone : q.avForw a.1 = none := linked_nil.1 (by rw [ht] at hlink; exact hlink)
    -- Without a next pass the switch changes nothing.
    have hrun : qsortDel q = some ({ q with
        cnt := q.cnt - 1
        actf := q.pasf
        pasf := none
        avForw := Function.update q.avForw a.1 none }, some a.1) := by
      unfold qsortDel
      rw [if_neg (by omega), hf]
      dsimp only
      by_cases hp : q.pasf = none
      · rw [if_neg (fun hc => hc.2 hp), hnone, hp]
      · rw [if_pos ⟨hnone, hp⟩]
    refine ⟨_, hrun, rfl, ⟨?_, ?_, ?_, hnd.2, htail⟩⟩
    · dsimp only
      omega
    · unfold Sweep.pop
      dsimp only
      rw [hl, List.tail_cons, if_pos ht]
      exact hpas'
    · unfold Sweep.pop
      dsimp only
      rw [hl, List.tail_cons, if_pos ht]
      rfl
  · have hsome : q.avForw a.1 ≠ none := by
      intro hnone
      rw [hnone] at hlink
      exact ht (List.map_eq_nil_iff.1 (linked_none.1 hlink))
    have hrun : qsortDel q = some ({ q with
        cnt := q.cnt - 1
        actf := q.avForw a.1
        avForw := Function.update q.avForw a.1 none }, some a.1) := by
      unfold qsortDel
      rw [if_neg (by omega), hf]
      dsimp only
      rw [if_neg (fun hc => hsome hc.1)]
    refine ⟨_, hrun, rfl, ⟨?_, ?_, ?_, hnd.2, htail⟩⟩
    · dsimp only
      omega
    · unfold Sweep.pop
      dsimp only
      rw [hl, List.tail_cons, if_neg ht]
      exact hlink'
    · unfold Sweep.pop
      dsimp only
      rw [hl, List.tail_cons, if_neg ht]
      exact hpas'

/-! ## Runs of calls -/

/-- What a history says of the lists: every buf that was added has been returned
    or is in one of them, and those for one block are in the order added. -/
structure QHist (tr : List (QsortEv β)) (held : List (β × Nat)) : Prop where
  perm : (qadded tr).Perm (qreturned tr ++ held)
  order : ∀ k, (qadded tr).filter (fun x => x.2 = k) =
    (qreturned tr).filter (fun x => x.2 = k) ++ held.filter (fun x => x.2 = k)

theorem QHist.waiting {tr : List (QsortEv β)} {held : List (β × Nat)} (h : QHist tr held)
    (bp : β) : QWaiting tr bp ↔ bp ∈ held.map Prod.fst := by
  unfold QWaiting
  rw [(h.perm.map Prod.fst).count_eq, List.map_append, List.count_append,
    Nat.lt_add_right_iff_pos, List.count_pos_iff]

omit [DecidableEq β] in
theorem qadded_append (tr tr' : List (QsortEv β)) :
    qadded (tr ++ tr') = qadded tr ++ qadded tr' :=
  List.filterMap_append

omit [DecidableEq β] in
theorem qreturned_append (tr tr' : List (QsortEv β)) :
    qreturned (tr ++ tr') = qreturned tr ++ qreturned tr' :=
  List.filterMap_append

omit [DecidableEq β] in
theorem QHist.add {tr : List (QsortEv β)} {s : Sweep (Prod.snd : β × Nat → Nat)}
    (h : QHist tr s.held) (bp : β) (blk : Nat) :
    QHist (tr ++ [.add bp blk]) (s.add (bp, blk)).held := by
  have hadd : qadded (tr ++ [QsortEv.add bp blk]) = qadded tr ++ [(bp, blk)] := qadded_append ..
  have hret : qreturned (tr ++ [QsortEv.add bp blk]) = qreturned tr := by
    rw [qreturned_append]
    exact List.append_nil _
  constructor
  · rw [hadd, hret]
    have hheld : (s.held ++ [(bp, blk)]).Perm (s.add (bp, blk)).held :=
      (List.perm_append_singleton _ _).trans (s.add_perm (bp, blk)).symm
    have hperm := h.perm.append_right [(bp, blk)]
    rw [List.append_assoc] at hperm
    exact hperm.trans (hheld.append_left _)
  · intro k
    rw [hadd, hret, List.filter_append, h.order k, s.add_filter (bp, blk) k, List.append_assoc]

omit [DecidableEq β] in
theorem QHist.del {tr : List (QsortEv β)} {a : β × Nat} {held : List (β × Nat)}
    (h : QHist tr (a :: held)) : QHist (tr ++ [.del (some a)]) held := by
  have hadd : qadded (tr ++ [QsortEv.del (some a)]) = qadded tr := by
    rw [qadded_append]
    exact List.append_nil _
  have hret : qreturned (tr ++ [QsortEv.del (some a)]) = qreturned tr ++ [a] :=
    qreturned_append ..
  constructor
  · rw [hadd, hret, List.append_assoc]
    exact h.perm
  · intro k
    rw [hadd, hret, h.order k, List.filter_append, List.append_assoc,
      ← List.filter_append [a] held, List.singleton_append]

omit [DecidableEq β] in
theorem QHist.del_none {tr : List (QsortEv β)} {held : List (β × Nat)} (h : QHist tr held) :
    QHist (tr ++ [.del none]) held := by
  have hadd : qadded (tr ++ [QsortEv.del none]) = qadded tr := by
    rw [qadded_append]
    exact List.append_nil _
  have hret : qreturned (tr ++ [QsortEv.del none]) = qreturned tr := by
    rw [qreturned_append]
    exact List.append_nil _
  exact ⟨by rw [hadd, hret]; exact h.perm, by intro k; rw [hadd, hret]; exact h.order k⟩

/-- In every run the queue holds the two lists that its history leaves. -/
theorem QsortRun.holds {q : Qsort β} {tr : List (QsortEv β)} (h : QsortRun q tr) :
    ∃ s : Sweep (Prod.snd : β × Nat → Nat), q.Holds s ∧ QHist tr s.held := by
  induction h with
  | init avForw dblk =>
      refine ⟨Sweep.empty _, ⟨rfl, rfl, rfl, List.nodup_nil, ?_⟩, ⟨List.Perm.nil, fun _ => rfl⟩⟩
      exact fun x hx => absurd hx List.not_mem_nil
  | add bp blk _ hnew hadd ih =>
      rcases ih with ⟨s, hs, htr⟩
      rcases qsortAdd_holds blk hs (fun hbp => hnew ((htr.waiting bp).2 hbp)) with ⟨q', hq', hs'⟩
      rw [hadd, Option.some.injEq] at hq'
      exact ⟨_, hq' ▸ hs', htr.add bp blk⟩
  | del _ hdel ih =>
      rcases ih with ⟨s, hs, htr⟩
      -- with nothing in this pass there is nothing in the next one
      cases hn : s.now with
      | nil =>
          rw [qsortDel_empty hs hn, Option.some.injEq, Prod.mk.injEq] at hdel
          rcases hdel with ⟨rfl, rfl⟩
          exact ⟨s, hs, htr.del_none⟩
      | cons a l =>
          have ha : s.now.head? = some a := by rw [hn, List.head?_cons]
          rcases qsortDel_holds hs ha with ⟨q', hq', _, hs'⟩
          rw [hdel, Option.some.injEq, Prod.mk.injEq] at hq'
          rcases hq' with ⟨rfl, rfl⟩
          have hheld := Sweep.held_pop ha
          have hblk := hs.blk a (by rw [hheld]; exact List.mem_cons_self)
          rw [Option.map_some, hblk]
          exact ⟨_, hs', (hheld ▸ htr).del⟩

/-- Deletions alone return what is held, in order, and then NULL. -/
theorem qsortDels_holds : ∀ (n : Nat) {q : Qsort β} {s : Sweep (Prod.snd : β × Nat → Nat)},
    q.Holds s → ∃ q', qsortDels n q = some (q', (s.held.take n).map (fun x => some x.1) ++
      List.replicate (n - s.held.length) none) := by
  intro n
  induction n with
  | zero =>
      intro q s _
      refine ⟨q, ?_⟩
      rw [List.take_zero, Nat.zero_sub]
      rfl
  | succ n ih =>
      intro q s hs
      cases hn : s.now with
      | nil =>
          have hheld := Sweep.held_eq_nil.2 hn
          rcases ih hs with ⟨q', hq'⟩
          refine ⟨q', ?_⟩
          rw [hheld] at hq' ⊢
          simp only [qsortDels, qsortDel_empty hs hn, hq', Option.bind_eq_bind, Option.bind_some,
            Option.pure_def, List.take_nil, List.map_nil, List.nil_append, List.length_nil,
            Nat.sub_zero, List.replicate_succ]
      | cons a l =>
          have ha : s.now.head? = some a := by rw [hn, List.head?_cons]
          rcases qsortDel_holds hs ha with ⟨q₁, hq₁, _, hs₁⟩
          rcases ih hs₁ with ⟨q', hq'⟩
          refine ⟨q', ?_⟩
          rw [Sweep.held_pop ha]
          simp only [qsortDels, hq₁, hq', Option.bind_eq_bind, Option.bind_some, Option.pure_def,
            List.take_succ_cons, List.map_cons, List.cons_append, List.length_cons,
            Nat.add_sub_add_right]

/-- What is promised of a queue with a history, with the lists of the current
    pass and of the next. -/
structure QsortSound (q : Qsort β) (tr : List (QsortEv β)) (act pas : List (β × Nat)) :
    Prop where
  /-- The lists are those linked from `b_actf` and `b_pasf`, with `DBLK`. -/
  act_linked : Linked q.avForw q.actf (act.map Prod.fst)
  pas_linked : Linked q.avForw q.pasf (pas.map Prod.fst)
  blk : ∀ x ∈ act ++ pas, q.dblk x.1 = x.2
  act_sorted : act.Pairwise fun x y => x.2 ≤ y.2
  pas_sorted : pas.Pairwise fun x y => x.2 ≤ y.2
  idle : q.actf = none → q.pasf = none
  cnt : q.cnt = (act ++ pas).length
  /-- Every buf added has been returned, or is in one of the lists once. -/
  perm : (qadded tr).Perm (qreturned tr ++ (act ++ pas))
  nodup : ((act ++ pas).map Prod.fst).Nodup
  /-- Those for one block are returned in the order added. -/
  order : ∀ k, (qadded tr).filter (fun x => x.2 = k) =
    (qreturned tr).filter (fun x => x.2 = k) ++ (act ++ pas).filter (fun x => x.2 = k)
  /-- A buf that does not wait can be added. -/
  add : ∀ bp blk, ¬QWaiting tr bp → ∃ q', qsortAdd (q.setBlk bp blk) bp = some q'
  /-- A deletion returns, and returns NULL from an empty queue only. -/
  del : ∃ q' r, qsortDel q = some (q', r) ∧ (r = none ↔ q.cnt = 0)
  /-- Deletions alone return the current pass and then the next. -/
  dels : ∀ n, ∃ q', qsortDels n q = some (q', ((act ++ pas).take n).map (fun x => some x.1) ++
    List.replicate (n - q.cnt) none)
  /-- After enough of them every buf has been returned as often as it was added. -/
  drain : ∀ n, q.cnt ≤ n → ∃ q' rs, qsortDels n q = some (q', rs) ∧
    ((qadded tr).map Prod.fst).Perm ((qreturned tr).map Prod.fst ++ rs.filterMap id)

/-- The queue loses nothing, keeps the bufs for one block in order, and serves
    each pass ascending, in every run. -/
theorem qsort_elevator {q : Qsort β} {tr : List (QsortEv β)} (h : QsortRun q tr) :
    ∃ act pas, QsortSound q tr act pas := by
  rcases h.holds with ⟨s, hs, htr⟩
  refine ⟨s.now, s.next, ?_⟩
  exact {
    act_linked := hs.act
    pas_linked := hs.pas
    blk := hs.blk
    act_sorted := s.now_sorted
    pas_sorted := s.next_sorted
    idle := by
      intro hf
      have hact := hs.act
      rw [hf] at hact
      have hnext := s.idle (List.map_eq_nil_iff.1 (linked_none.1 hact))
      have hpas := hs.pas
      rw [hnext] at hpas
      exact linked_nil.1 hpas
    cnt := hs.cnt
    perm := htr.perm
    nodup := hs.nodup
    order := htr.order
    add := by
      intro bp blk hnew
      rcases qsortAdd_holds blk hs (fun hbp => hnew ((htr.waiting bp).2 hbp)) with ⟨q', hq', _⟩
      exact ⟨q', hq'⟩
    del := by
      have hcnt := hs.cnt
      cases hn : s.now with
      | nil =>
          rw [Sweep.held_eq_nil.2 hn, List.length_nil] at hcnt
          exact ⟨q, none, qsortDel_empty hs hn, by simp [hcnt]⟩
      | cons a l =>
          have ha : s.now.head? = some a := by rw [hn, List.head?_cons]
          rcases qsortDel_holds hs ha with ⟨q', hq', _⟩
          rw [Sweep.held_pop ha, List.length_cons] at hcnt
          exact ⟨q', some a.1, hq', by simp [hcnt]⟩
    dels := by
      intro n
      rw [hs.cnt]
      exact qsortDels_holds n hs
    drain := by
      intro n hle
      rw [hs.cnt] at hle
      rcases qsortDels_holds n hs with ⟨q', hq'⟩
      refine ⟨q', _, hq', ?_⟩
      have hrs : ((s.held.take n).map (fun x : β × Nat => some x.1) ++
          List.replicate (n - s.held.length) none).filterMap id = s.held.map Prod.fst := by
        rw [List.take_of_length_le hle, List.filterMap_append, List.filterMap_map,
          List.filterMap_replicate_of_none rfl, List.append_nil]
        exact congrFun (List.filterMap_eq_map (f := Prod.fst)) s.held
      rw [hrs, ← List.map_append]
      exact htr.perm.map Prod.fst }

/-- A buf that is behind the current pass, one for the same block after it, and one
    ahead. -/
theorem qsort_elevator_passed : ∃ (q : Qsort Nat) (act pas : List (Nat × Nat)),
    QsortSound q [.add 0 5, .add 1 3, .add 2 3, .add 3 8, .del (some (0, 5))] act pas :=
  ⟨_, qsort_elevator (.del (.add 3 8 (.add 2 3 (.add 1 3 (.add 0 5 (.init (fun _ => none)
    (fun _ => 0)) (by decide) rfl) (by decide) rfl) (by decide) rfl) (by decide) rfl) rfl)⟩

end Disk

end Sil3112
