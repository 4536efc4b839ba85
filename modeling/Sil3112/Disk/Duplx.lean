import Mathlib.Data.List.Nodup
import Mathlib.Logic.Function.Basic
import Mathlib.Tactic.Ring
import Sil3112.Disk.FcKstat

/-!
# Duplexed Flow Control

`duplx` of `strategy.c` has a queue for reads and a queue for writes, with a limit
for each. `enque` and `deque` begin with the direction of their buf and take the
other one if it has nothing to claim. After a transport they go on with the other
direction if they get the mutex at once. A claimed buf leaves `fc_bp` empty; the
next one is fetched when somebody comes to claim it.

`duplx_create` makes the queue of the writes, a FIFO, and `duplx_init` is given that
of the reads.

So the mutex is free at times when bufs wait and could be claimed, and whoever
fails to get it goes away. Nothing is forgotten all the same: the mutex was held by
a call that had yet to look, or had just looked in vain. This needs the holder of
the mutex in the state, and a critical section is a step to get it, one for the
round, and one to drop it.

## Main definitions

* `FcQue`, `Duplx`: The object.
* `attempt`, `duplxRound`, `duplxEnque`, `duplxDeque`: The critical sections.
* `DxSys`, `DxStep`: The holder of the mutex and the other calls.
* `DxOk`: Where the bufs are.
* `Served`: Who will claim a buf that could be claimed.

## Theorems

* `duplxRound_spec`: What a round does.
* `DxStep.keeps`, `DxStep.served`: Every step keeps the invariants.
* `duplx_sound`: No buf is lost, and none is left waiting without a reason.
-/

namespace Sil3112

namespace Disk

open Transition

/-! ## The object -/

/-- `ds_readq` and `ds_writeq`. -/
inductive Dir where
  | read
  | write
deriving DecidableEq

/-- `next` of the queues, which point to each other. -/
def Dir.next : Dir → Dir
  | .read => .write
  | .write => .read

theorem Dir.next_ne (d : Dir) : d.next ≠ d := by
  cases d with
  | read => exact Dir.noConfusion
  | write => exact Dir.noConfusion

theorem Dir.eq_next {d e : Dir} (h : e ≠ d) : e = d.next := by
  cases d with
  | read =>
      cases e with
      | read => exact absurd rfl h
      | write => rfl
  | write =>
      cases e with
      | read => rfl
      | write => exact absurd rfl h

/-- `DUPLX_MAXCNT` -/
def duplxMaxcnt : Nat := 2

/-- `struct fc_que`. Its `fc_maxcnt` is `DUPLX_MAXCNT`. -/
structure FcQue (β Q : Type) where
  bp : Option β
  outcnt : Int
  que : Q

/-- `struct duplx_data`: the queues of the two directions, the state of the object
    that `TGCOM_PKT` calls, and `ds_kstat`. -/
structure Duplx (π β : Type) (Q : Dir → Type) where
  q : (d : Dir) → FcQue β (Q d)
  com : π
  kstat : Option KstatIo

/-- `fc_bp` is fetched if there is none. -/
def FcQue.fetch {β Q : Type} (que : Que β Q) (q : FcQue β Q) : FcQue β Q :=
  match q.bp with
  | some _ => q
  | none => { q with que := (que.del q.que).1, bp := (que.del q.que).2 }

section Critical

variable {π β : Type} {Q : Dir → Type} (que : (d : Dir) → Que β (Q d)) (dir : β → Dir)
  (pkt : π → β → π × Bool)

/-- A queue of the object is replaced. -/
def Duplx.set (s : Duplx π β Q) (d : Dir) (q : FcQue β (Q d)) : Duplx π β Q :=
  { s with q := Function.update s.q d q }

/-- The condition on `activeq`: the buf that may be claimed. -/
def attempt (d : Dir) (s : Duplx π β Q) : Duplx π β Q × Option β :=
  let q := (s.q d).fetch (que d)
  let s := s.set d q
  match q.bp with
  | none => (s, none)
  | some bp =>
    let r := pkt s.com bp
    let s := { s with com := r.1 }
    if r.2 = false then (s, none)
    else if (duplxMaxcnt : Int) ≤ q.outcnt then (s, none)
    else (s, some bp)

/-- The buf of `activeq` is claimed. -/
def claimBp (d : Dir) (s : Duplx π β Q) : Duplx π β Q :=
  { s.set d { s.q d with outcnt := (s.q d).outcnt + 1, bp := none } with
    kstat := s.kstat.map KstatIo.waitqToRunq }

/-- One round of the loops of `duplx_enque` and `duplx_deque`, which are the same:
    the buf it has claimed, and from where. -/
def duplxRound (activeq : Dir) (s : Duplx π β Q) : Duplx π β Q × Option (β × Dir) :=
  let r := attempt que pkt activeq s
  match r.2 with
  | some bp => (claimBp activeq r.1, some (bp, activeq))
  | none =>
    let r := attempt que pkt activeq.next r.1
    match r.2 with
    | some bp => (claimBp activeq.next r.1, some (bp, activeq.next))
    | none => (r.1, none)

/-- `duplx_enque` in front of its loop, with the queue it begins with. -/
def duplxEnque (s : Duplx π β Q) (inBp : Option β) : Duplx π β Q × Dir :=
  match inBp with
  | none => (s, .read)
  | some bp =>
    ({ s.set (dir bp) { s.q (dir bp) with que := (que (dir bp)).add (s.q (dir bp)).que bp } with
       kstat := s.kstat.map KstatIo.waitqEnter }, dir bp)

/-- `duplx_deque` in front of its loop. -/
def duplxDeque (s : Duplx π β Q) (inBp : β) (x : Xfer) : Duplx π β Q × Dir :=
  ({ s.set (dir inBp) { s.q (dir inBp) with outcnt := (s.q (dir inBp)).outcnt - 1 } with
     kstat := s.kstat.map (KstatIo.finish · x) }, dir inBp)

/-- `TGCOM_PKT` fails for the buf of a direction. -/
def pktFails (d : Dir) (s : Duplx π β Q) : Bool :=
  match ((s.q d).fetch (que d)).bp with
  | none => false
  | some bp => !(pkt s.com bp).2

/-- For which directions `TGCOM_PKT` failed when it was last called. -/
def pktFailures (activeq : Dir) (s : Duplx π β Q) (refused : Dir → Bool) : Dir → Bool :=
  let r := attempt que pkt activeq s
  let refused := Function.update refused activeq (pktFails que pkt activeq s)
  match r.2 with
  | some _ => refused
  | none => Function.update refused activeq.next (pktFails que pkt activeq.next r.1)

end Critical

/-! ## The calls in progress -/

/-- A call that holds the mutex: it is to do a round, or to drop the mutex with a
    buf it has claimed or without. -/
inductive DxHold (β : Type) where
  | round (activeq : Dir)
  | claimed (bp : β) (activeq : Dir)
  | done

/-- A call that does not hold the mutex. -/
inductive DxCall (β : Type) where
  | transport (bp : β) (activeq : Dir)
  | tryenter (activeq : Dir)

/-- The object with the holder of the mutex and the other calls; the bufs that have
    been enqueued, claimed, passed to `TGCOM_TRANSPORT` and to `duplx_deque`, in
    order; the directions for which `TGCOM_PKT` failed last; and the history of the
    counters. -/
structure DxSys (π β : Type) (Q : Dir → Type) where
  dx : Duplx π β Q
  held : Option (DxHold β)
  calls : List (DxCall β)
  enqueued : List β
  claimed : List β
  transported : List β
  dequeued : List β
  refused : Dir → Bool
  waited : Int
  ran : Int
  done : List Xfer

/-- The number of bufs that wait for a transport. -/
def DxSys.waiting {π β : Type} {Q : Dir → Type} (s : DxSys π β Q) : Int :=
  s.enqueued.length - s.claimed.length

/-- The number of bufs outstanding. -/
def Duplx.running {π β : Type} {Q : Dir → Type} (s : Duplx π β Q) : Int :=
  (s.q .read).outcnt + (s.q .write).outcnt

section Steps

variable {π β : Type} {Q : Dir → Type}

/-- A round is done. -/
def DxSys.round (que : (d : Dir) → Que β (Q d)) (pkt : π → β → π × Bool) (s : DxSys π β Q)
    (activeq : Dir) : DxSys π β Q :=
  let r := duplxRound que pkt activeq s.dx
  let s := { s with dx := r.1, refused := pktFailures que pkt activeq s.dx s.refused }
  match r.2 with
  | none => { s with held := some .done }
  | some (bp, d) => { s with held := some (.claimed bp d), claimed := s.claimed ++ [bp] }

/-- The steps of all the calls. `restart` calls `duplx_enque` without a buf. -/
inductive DxStep (que : (d : Dir) → Que β (Q d)) (dir : β → Dir) :
    DxSys π β Q → DxSys π β Q → Prop where
  | enque (s : DxSys π β Q) (bp : β) (hfree : s.held = none) (hnew : bp ∉ s.enqueued) :
      DxStep que dir s { s with
        dx := (duplxEnque que dir s.dx (some bp)).1
        held := some (.round (duplxEnque que dir s.dx (some bp)).2)
        enqueued := s.enqueued ++ [bp] }
  | restart (s : DxSys π β Q) (hfree : s.held = none) :
      DxStep que dir s { s with
        dx := (duplxEnque que dir s.dx none).1
        held := some (.round (duplxEnque que dir s.dx none).2) }
  | deque (s : DxSys π β Q) (bp : β) (x : Xfer) (hfree : s.held = none)
      (hsent : bp ∈ s.transported) (hnew : bp ∉ s.dequeued) :
      DxStep que dir s { s with
        dx := (duplxDeque dir s.dx bp x).1
        held := some (.round (duplxDeque dir s.dx bp x).2)
        dequeued := s.dequeued ++ [bp], done := s.done ++ [x] }
  | round (s : DxSys π β Q) (activeq : Dir) (hheld : s.held = some (.round activeq))
      (pkt : π → β → π × Bool) : DxStep que dir s (s.round que pkt activeq)
  | leave (s : DxSys π β Q) (hheld : s.held = some .done) :
      DxStep que dir s { s with held := none }
  | leaveClaimed (s : DxSys π β Q) (bp : β) (activeq : Dir)
      (hheld : s.held = some (.claimed bp activeq)) :
      DxStep que dir s { s with held := none, calls := .transport bp activeq :: s.calls }
  | transport (s : DxSys π β Q) (bp : β) (activeq : Dir) (l l' : List (DxCall β))
      (hcall : s.calls = l ++ .transport bp activeq :: l') :
      DxStep que dir s { s with
        calls := l ++ .tryenter activeq :: l', transported := s.transported ++ [bp] }
  | busy (s : DxSys π β Q) (activeq : Dir) (l l' : List (DxCall β))
      (hcall : s.calls = l ++ .tryenter activeq :: l') (hheld : s.held ≠ none) :
      DxStep que dir s { s with calls := l ++ l' }
  | again (s : DxSys π β Q) (activeq : Dir) (l l' : List (DxCall β))
      (hcall : s.calls = l ++ .tryenter activeq :: l') (hfree : s.held = none) :
      DxStep que dir s { s with calls := l ++ l', held := some (.round activeq.next) }
  | start (s : DxSys π β Q) (created : Bool) (hnone : s.dx.kstat = none) :
      DxStep que dir s { s with
        dx := { s.dx with kstat := if created then some KstatIo.zero else none }
        waited := s.waiting, ran := s.dx.running, done := [] }
  | stop (s : DxSys π β Q) : DxStep que dir s { s with dx := { s.dx with kstat := none } }

/-- Nothing has been enqueued, and the counters have not been started. -/
structure DxInit (Rep : (d : Dir) → Q d → List β → Prop) (s : DxSys π β Q) : Prop where
  queues : ∀ d, (s.dx.q d).bp = none ∧ (s.dx.q d).outcnt = 0 ∧ Rep d (s.dx.q d).que []
  calls : s.held = none ∧ s.calls = []
  history : s.enqueued = [] ∧ s.claimed = [] ∧ s.transported = [] ∧ s.dequeued = []
  kstat : s.dx.kstat = none

end Steps

/-! ## A round -/

/-- The bufs of one direction. -/
def along {β : Type} (dir : β → Dir) (d : Dir) (l : List β) : List β :=
  l.filter fun b => decide (dir b = d)

section Along

variable {β : Type} (dir : β → Dir) (d : Dir)

theorem along_append (l l' : List β) : along dir d (l ++ l') = along dir d l ++ along dir d l' :=
  List.filter_append l l'

@[simp] theorem along_nil : along dir d [] = [] := rfl

variable {dir d}

theorem along_self {b : β} (h : dir b = d) : along dir d [b] = [b] :=
  List.filter_cons_of_pos (by rw [decide_eq_true_eq]; exact h)

theorem along_other {b : β} (h : dir b ≠ d) : along dir d [b] = [] :=
  List.filter_cons_of_neg (by rw [decide_eq_true_eq]; exact h)

theorem mem_along {b : β} {l : List β} : b ∈ along dir d l ↔ b ∈ l ∧ dir b = d := by
  unfold along
  rw [List.mem_filter, decide_eq_true_eq]

theorem along_perm {l l' : List β} (h : l.Perm l') : (along dir d l).Perm (along dir d l') :=
  h.filter _

/-- Every buf is of one direction. -/
theorem along_length (l : List β) :
    (along dir .read l).length + (along dir .write l).length = l.length := by
  induction l with
  | nil => rfl
  | cons b l ih =>
      have hb := along_append dir
      rw [← List.singleton_append, hb, hb, List.length_append, List.length_append,
        List.length_append, List.length_singleton]
      cases hd : dir b with
      | read =>
          rw [along_self hd, along_other (by rw [hd]; exact Dir.noConfusion),
            List.length_singleton, List.length_nil]
          omega
      | write =>
          rw [along_self hd, along_other (by rw [hd]; exact Dir.noConfusion),
            List.length_singleton, List.length_nil]
          omega

end Along

/-- Why a direction is not to be claimed from: it is empty, `TGCOM_PKT` failed, or
    its limit is reached. -/
def Vain {β Q : Type} (q : FcQue β Q) (l : List β) (refused : Bool) : Prop :=
  (q.bp = none ∧ l = []) ∨ refused = true ∨ (duplxMaxcnt : Int) ≤ q.outcnt

/-- The bufs of a direction that have been enqueued are those claimed, the one in
    `fc_bp` and those of the queue. -/
structure QParts {β Q : Type} (Rep : Q → List β → Prop) (R : List β → List β → Prop)
    (enq cl : List β) (q : FcQue β Q) (l : List β) : Prop where
  rep : Rep q.que l
  parts : R enq (cl ++ (q.bp.toList ++ l))

section Round

variable {π β : Type} {Q : Dir → Type} {que : (d : Dir) → Que β (Q d)}
  {Rep : (d : Dir) → Q d → List β → Prop} {R : Dir → List β → List β → Prop}
  (pkt : π → β → π × Bool)

@[simp] theorem Duplx.set_same (s : Duplx π β Q) (d : Dir) (q : FcQue β (Q d)) :
    (s.set d q).q d = q := by
  unfold Duplx.set
  dsimp only
  rw [Function.update_self]

theorem Duplx.set_other (s : Duplx π β Q) {d e : Dir} (q : FcQue β (Q d)) (h : e ≠ d) :
    (s.set d q).q e = s.q e := by
  unfold Duplx.set
  dsimp only
  rw [Function.update_of_ne h]

@[simp] theorem Duplx.set_kstat (s : Duplx π β Q) (d : Dir) (q : FcQue β (Q d)) :
    (s.set d q).kstat = s.kstat := rfl

/-- After `fc_bp` has been fetched it is empty only if the queue is. -/
theorem FcQue.fetch_parts {β Q : Type} {que : Que β Q} {Rep : Q → List β → Prop}
    {R : List β → List β → Prop} (hR : Orders R) (hq : que.Keeps Rep R) {enq cl l : List β}
    {q : FcQue β Q} (h : QParts Rep R enq cl q l) :
    ∃ l', QParts Rep R enq cl (q.fetch que) l' ∧ ((q.fetch que).bp = none → l' = []) ∧
      (q.fetch que).outcnt = q.outcnt := by
  unfold FcQue.fetch
  cases hbp : q.bp with
  | some b => exact ⟨l, h, fun hn => absurd (hbp.symm.trans hn) nofun, rfl⟩
  | none =>
      have hparts := h.parts
      rw [hbp, Option.toList_none, List.nil_append] at hparts
      dsimp only
      cases hd : (que.del q.que).2 with
      | none =>
          rcases hq.del_none _ _ h.rep hd with ⟨rfl, hrep⟩
          exact ⟨[], ⟨hrep, hparts⟩, fun _ => rfl, rfl⟩
      | some b =>
          rcases hq.del_some _ _ _ h.rep hd with ⟨l', hrep, hl⟩
          exact ⟨l', ⟨hrep, hR.trans hparts (hR.left cl hl)⟩, nofun, rfl⟩

/-- Looking at a direction leaves the other one alone. -/
theorem attempt_frame (que : (d : Dir) → Que β (Q d)) (pkt : π → β → π × Bool) (d : Dir)
    (s : Duplx π β Q) :
    (attempt que pkt d s).1.kstat = s.kstat ∧
      (attempt que pkt d s).1.q = (s.set d ((s.q d).fetch (que d))).q := by
  unfold attempt
  dsimp only
  cases ((s.q d).fetch (que d)).bp with
  | none => exact ⟨rfl, rfl⟩
  | some bp =>
      dsimp only
      split
      · exact ⟨rfl, rfl⟩
      · split
        · exact ⟨rfl, rfl⟩
        · exact ⟨rfl, rfl⟩

theorem attempt_same (que : (d : Dir) → Que β (Q d)) (pkt : π → β → π × Bool) (d : Dir)
    (s : Duplx π β Q) :
    (attempt que pkt d s).1.q d = (s.q d).fetch (que d) := by
  rw [(attempt_frame que pkt d s).2, Duplx.set_same]

theorem attempt_other (que : (d : Dir) → Que β (Q d)) (pkt : π → β → π × Bool) {d e : Dir}
    (s : Duplx π β Q) (h : e ≠ d) : (attempt que pkt d s).1.q e = s.q e := by
  rw [(attempt_frame que pkt d s).2, Duplx.set_other s _ h]

/-- A buf may be claimed if it is in `fc_bp` and there is room; otherwise there is a
    reason. -/
theorem attempt_spec {d : Dir} (hR : Orders (R d)) (hq : (que d).Keeps (Rep d) (R d))
    {s : Duplx π β Q} {enq cl l : List β} (h : QParts (Rep d) (R d) enq cl (s.q d) l) :
    ∃ l', QParts (Rep d) (R d) enq cl ((attempt que pkt d s).1.q d) l' ∧
      ((attempt que pkt d s).1.q d).outcnt = (s.q d).outcnt ∧
      match (attempt que pkt d s).2 with
      | some bp => ((attempt que pkt d s).1.q d).bp = some bp ∧
          (s.q d).outcnt < (duplxMaxcnt : Int)
      | none => Vain ((attempt que pkt d s).1.q d) l' (pktFails que pkt d s) := by
  rcases FcQue.fetch_parts hR hq h with ⟨l', hparts, hnil, hout⟩
  refine ⟨l', ?_, ?_, ?_⟩
  · rw [attempt_same]
    exact hparts
  · rw [attempt_same]
    exact hout
  · rw [attempt_same]
    unfold attempt pktFails
    dsimp only
    cases hbp : ((s.q d).fetch (que d)).bp with
    | none => exact Or.inl ⟨hbp, hnil hbp⟩
    | some bp =>
        dsimp only
        by_cases hp : (pkt (s.set d ((s.q d).fetch (que d))).com bp).2 = false
        · rw [if_pos hp]
          refine Or.inr (Or.inl ?_)
          rw [show (pkt s.com bp).2 = false from hp]
          rfl
        · rw [if_neg hp]
          by_cases hfull : (duplxMaxcnt : Int) ≤ ((s.q d).fetch (que d)).outcnt
          · rw [if_pos hfull]
            exact Or.inr (Or.inr hfull)
          · rw [if_neg hfull]
            refine ⟨rfl, ?_⟩
            rw [← hout]
            exact Int.not_le.1 hfull

/-- The buf in `fc_bp` is claimed. -/
theorem QParts.claim {β Q : Type} {Rep : Q → List β → Prop} {R : List β → List β → Prop}
    {enq cl l : List β} {q : FcQue β Q} {bp : β} (h : QParts Rep R enq cl q l)
    (hbp : q.bp = some bp) (n : Int) :
    QParts Rep R enq (cl ++ [bp]) { q with outcnt := n, bp := none } l := by
  refine ⟨h.rep, ?_⟩
  have hparts := h.parts
  rw [hbp] at hparts
  rw [Option.toList_none, List.nil_append, List.append_assoc]
  exact hparts

/-- What a round leaves behind in each direction. -/
structure Rounded (Rep : (d : Dir) → Q d → List β → Prop) (R : Dir → List β → List β → Prop)
    (enq cl : Dir → List β) (s s' : Duplx π β Q) (l' : Dir → List β) (bp : β) (d : Dir) : Prop where
  parts : ∀ e, QParts (Rep e) (R e) (enq e) (if e = d then cl e ++ [bp] else cl e) (s'.q e) (l' e)
  outcnt : ∀ e, (s'.q e).outcnt = (s.q e).outcnt + if e = d then 1 else 0
  room : (s.q d).outcnt < (duplxMaxcnt : Int)
  kstat : s'.kstat = s.kstat.map KstatIo.waitqToRunq

/-- The claim at the end of a round. -/
theorem claim_rounded {enq cl : Dir → List β} {s s₁ : Duplx π β Q} {l' : Dir → List β} {bp : β}
    {d : Dir} (hparts : ∀ e, QParts (Rep e) (R e) (enq e) (cl e) (s₁.q e) (l' e))
    (hout : ∀ e, (s₁.q e).outcnt = (s.q e).outcnt) (hbp : (s₁.q d).bp = some bp)
    (hroom : (s.q d).outcnt < (duplxMaxcnt : Int)) (hk : s₁.kstat = s.kstat) :
    Rounded Rep R enq cl s (claimBp d s₁) l' bp d where
  parts := by
    intro e
    unfold claimBp
    by_cases he : e = d
    · subst he
      rw [if_pos rfl]
      dsimp only
      rw [Duplx.set_same]
      exact (hparts e).claim hbp _
    · rw [if_neg he]
      dsimp only
      rw [Duplx.set_other s₁ _ he]
      exact hparts e
  outcnt := by
    intro e
    unfold claimBp
    by_cases he : e = d
    · subst he
      rw [if_pos rfl]
      dsimp only
      rw [Duplx.set_same, hout]
    · rw [if_neg he, Int.add_zero]
      dsimp only
      rw [Duplx.set_other s₁ _ he]
      exact hout e
  room := hroom
  kstat := by
    unfold claimBp
    dsimp only
    rw [hk]

/-- A round claims a buf for which there is room, or both directions have a reason
    not to be claimed from. -/
theorem duplxRound_spec (hR : ∀ d, Orders (R d))
    (hq : ∀ d, (que d).Keeps (Rep d) (R d)) {enq cl l : Dir → List β}
    {s : Duplx π β Q} (h : ∀ d, QParts (Rep d) (R d) (enq d) (cl d) (s.q d) (l d)) (d : Dir)
    (refused : Dir → Bool) :
    ∃ l' : Dir → List β, match (duplxRound que pkt d s).2 with
      | some (bp, d') => Rounded Rep R enq cl s (duplxRound que pkt d s).1 l' bp d'
      | none => (∀ e, QParts (Rep e) (R e) (enq e) (cl e) ((duplxRound que pkt d s).1.q e) (l' e)) ∧
          (∀ e, ((duplxRound que pkt d s).1.q e).outcnt = (s.q e).outcnt) ∧
          (duplxRound que pkt d s).1.kstat = s.kstat ∧
          ∀ e, Vain ((duplxRound que pkt d s).1.q e) (l' e)
            (pktFailures que pkt d s refused e) := by
  -- The first attempt, with the other direction as it was.
  rcases attempt_spec pkt (hR d) (hq d) (h d) with ⟨l₁, hp₁, ho₁, hr₁⟩
  have hk₁ := (attempt_frame que pkt d s).1
  have hx₁ := attempt_other que pkt s (Dir.next_ne d)
  unfold duplxRound pktFailures
  dsimp only
  generalize attempt que pkt d s = r₁ at hp₁ ho₁ hr₁ hk₁ hx₁ ⊢
  have hparts₁ : ∀ e, QParts (Rep e) (R e) (enq e) (cl e) (r₁.1.q e)
      (Function.update l d l₁ e) := by
    intro e
    by_cases he : e = d
    · subst he
      rw [Function.update_self]
      exact hp₁
    · rw [Function.update_of_ne he, Dir.eq_next he, hx₁]
      exact h d.next
  have hout₁ : ∀ e, (r₁.1.q e).outcnt = (s.q e).outcnt := by
    intro e
    by_cases he : e = d
    · subst he
      exact ho₁
    · rw [Dir.eq_next he, hx₁]
  cases hb₁ : r₁.2 with
  | some bp =>
      rw [hb₁] at hr₁
      exact ⟨_, claim_rounded hparts₁ hout₁ hr₁.1 hr₁.2 hk₁⟩
  | none =>
      rw [hb₁] at hr₁
      dsimp only at hr₁ ⊢
      -- The second attempt, with the other direction.
      rcases attempt_spec pkt (hR d.next) (hq d.next) (hparts₁ d.next) with ⟨l₂, hp₂, ho₂, hr₂⟩
      have hk₂ := (attempt_frame que pkt d.next r₁.1).1
      have hx₂ := attempt_other que pkt r₁.1 (Ne.symm (Dir.next_ne d))
      generalize attempt que pkt d.next r₁.1 = r₂ at hp₂ ho₂ hr₂ hk₂ hx₂ ⊢
      have hparts₂ : ∀ e, QParts (Rep e) (R e) (enq e) (cl e) (r₂.1.q e)
          (Function.update (Function.update l d l₁) d.next l₂ e) := by
        intro e
        by_cases he : e = d
        · subst he
          rw [Function.update_of_ne (Ne.symm (Dir.next_ne e)), hx₂]
          exact hparts₁ e
        · rw [Dir.eq_next he, Function.update_self]
          exact hp₂
      have hout₂ : ∀ e, (r₂.1.q e).outcnt = (s.q e).outcnt := by
        intro e
        by_cases he : e = d
        · subst he
          rw [hx₂, hout₁]
        · rw [Dir.eq_next he, ho₂, hout₁]
      cases hb₂ : r₂.2 with
      | some bp =>
          rw [hb₂] at hr₂
          rw [hout₁] at hr₂
          exact ⟨_, claim_rounded hparts₂ hout₂ hr₂.1 hr₂.2 (hk₂.trans hk₁)⟩
      | none =>
          rw [hb₂] at hr₂
          refine ⟨_, hparts₂, hout₂, hk₂.trans hk₁, fun e => ?_⟩
          by_cases he : e = d
          · subst he
            rw [Function.update_of_ne (Ne.symm (Dir.next_ne e)), Function.update_self, hx₂,
              Function.update_of_ne (Ne.symm (Dir.next_ne e)), Function.update_self]
            exact hr₁
          · rw [Dir.eq_next he, Function.update_self, Function.update_self]
            exact hr₂

end Round

/-! ## The invariant -/

/-- The buf of the holder of the mutex that is to be transported. -/
def heldBps {β : Type} : Option (DxHold β) → List β
  | some (.claimed bp _) => [bp]
  | _ => []

/-- The bufs that calls are to transport. -/
def dxPending {β : Type} (calls : List (DxCall β)) : List β :=
  calls.filterMap fun
    | .transport bp _ => some bp
    | .tryenter _ => none

@[simp] theorem dxPending_transport {β : Type} (bp : β) (d : Dir) (calls : List (DxCall β)) :
    dxPending (.transport bp d :: calls) = bp :: dxPending calls := rfl

@[simp] theorem dxPending_tryenter {β : Type} (d : Dir) (calls : List (DxCall β)) :
    dxPending (.tryenter d :: calls) = dxPending calls := rfl

theorem dxPending_append {β : Type} (calls calls' : List (DxCall β)) :
    dxPending (calls ++ calls') = dxPending calls ++ dxPending calls' :=
  List.filterMap_append

/-- The invariant. `l` are the contents of the queues, and `out` the bufs that have
    been claimed and not yet passed to `duplx_deque`. -/
structure DxOk {π β : Type} {Q : Dir → Type} (dir : β → Dir)
    (Rep : (d : Dir) → Q d → List β → Prop) (R : Dir → List β → List β → Prop)
    (s : DxSys π β Q) (l : Dir → List β) (out : List β) : Prop where
  parts : ∀ d, QParts (Rep d) (R d) (along dir d s.enqueued) (along dir d s.claimed)
    (s.dx.q d) (l d)
  nodup : s.enqueued.Nodup
  claims : s.claimed.Perm (s.dequeued ++ out)
  outcnt : ∀ d, (s.dx.q d).outcnt = (along dir d out).length
  limit : ∀ d, (along dir d out).length ≤ duplxMaxcnt
  sent : s.claimed.Perm (s.transported ++ (heldBps s.held ++ dxPending s.calls))
  past : s.dequeued ⊆ s.transported
  counts : ∀ k, s.dx.kstat = some k →
    KsCounts (s.waiting - s.waited) (s.dx.running - s.ran) s.done k

/-- When nobody holds the mutex or is on the way to it, or somebody has just looked,
    there is a reason for everything that waits. -/
structure Served {π β : Type} {Q : Dir → Type} (s : DxSys π β Q) (l : Dir → List β) : Prop where
  leaving : s.held = some .done → ∀ d, Vain (s.dx.q d) (l d) (s.refused d)
  idle : s.held = none → s.calls = [] → ∀ d, Vain (s.dx.q d) (l d) (s.refused d)

section Invariant

variable {π β : Type} {Q : Dir → Type} {que : (d : Dir) → Que β (Q d)} {dir : β → Dir}
  {Rep : (d : Dir) → Q d → List β → Prop} {R : Dir → List β → List β → Prop}
  {s s' : DxSys π β Q} {l : Dir → List β} {out : List β}

/-- A call that still has to look serves everything. -/
theorem served_round {d : Dir} (h : s.held = some (.round d)) : Served s l where
  leaving := by
    intro hd
    rw [h] at hd
    cases hd
  idle := by
    intro hn
    rw [h] at hn
    cases hn

/-- So does a call that is on the way to the mutex. -/
theorem served_calls (h : s.held ≠ some .done) (hc : s.calls ≠ []) : Served s l :=
  ⟨fun hd => absurd hd h, fun _ hn => absurd hn hc⟩

/-- A buf of the queue of a direction is of that direction. -/
theorem QParts.dir_eq {β Q : Type} {dir : β → Dir} {Rep : Q → List β → Prop}
    {R : List β → List β → Prop} (hR : Orders R) {d : Dir} {enq cl : List β} {q : FcQue β Q}
    {l' : List β} {bp : β} (h : QParts Rep R (along dir d enq) (cl ++ [bp]) q l') : dir bp = d := by
  have hmem : bp ∈ along dir d enq := (hR.perm h.parts).mem_iff.2
    (List.mem_append_left _ (List.mem_append_right _ (List.mem_singleton_self bp)))
  exact (mem_along.1 hmem).2

/-- A buf that has been transported and not yet passed to `deque` is
    outstanding. -/
theorem DxOk.outstanding (h : DxOk dir Rep R s l out) {bp : β} (hsent : bp ∈ s.transported)
    (hnew : bp ∉ s.dequeued) : bp ∈ out := by
  have hcl : bp ∈ s.claimed := h.sent.mem_iff.2 (List.mem_append_left _ hsent)
  exact (List.mem_append.1 (h.claims.mem_iff.1 hcl)).resolve_left hnew

/-- A round keeps the invariant. -/
theorem DxOk.round (hR : ∀ d, Orders (R d)) (hq : ∀ d, (que d).Keeps (Rep d) (R d)) {d : Dir}
    (h : DxOk dir Rep R s l out) (hheld : s.held = some (.round d)) (pkt : π → β → π × Bool) :
    ∃ l' out', DxOk dir Rep R (s.round que pkt d) l' out' ∧
      Served (s.round que pkt d) l' := by
  rcases duplxRound_spec pkt hR hq h.parts d s.refused with ⟨l', hround⟩
  have hsent := h.sent
  rw [hheld] at hsent
  unfold DxSys.round
  dsimp only
  generalize duplxRound que pkt d s.dx = r at hround ⊢
  generalize pktFailures que pkt d s.dx s.refused = refused at hround ⊢
  rcases r with ⟨dx, _ | ⟨bp, d'⟩⟩
  · -- Nothing is claimed, and both directions have a reason.
    rcases hround with ⟨hparts, hout, hk, hvain⟩
    refine ⟨l', out, ⟨hparts, h.nodup, h.claims, fun e => (hout e).trans (h.outcnt e), h.limit,
      hsent, h.past, fun k hks => ?_⟩, fun _ => hvain, nofun⟩
    have hrun : dx.running = s.dx.running := congrArg₂ (· + ·) (hout .read) (hout .write)
    dsimp only at hks ⊢
    rw [hrun]
    exact h.counts k (hk ▸ hks)
  · -- The buf moves from the queue to those outstanding.
    have hdir : dir bp = d' := by
      have hp := hround.parts d'
      rw [if_pos rfl] at hp
      exact hp.dir_eq (hR d')
    have hpart : ∀ (e : Dir) (a : List β),
        along dir e (a ++ [bp]) = if e = d' then along dir e a ++ [bp] else along dir e a := by
      intro e a
      rw [along_append]
      by_cases he : e = d'
      · rw [if_pos he, along_self (hdir.trans he.symm)]
      · rw [if_neg he, along_other (fun hb => he (hb.symm.trans hdir)), List.append_nil]
    refine ⟨l', out ++ [bp], ⟨fun e => ?_, h.nodup, ?_, fun e => ?_, fun e => ?_, ?_, h.past,
      fun k hks => ?_⟩, nofun, nofun⟩
    · have hp := hround.parts e
      dsimp only
      rw [hpart]
      exact hp
    · rw [← List.append_assoc]
      exact h.claims.append_right [bp]
    · have ho := hround.outcnt e
      dsimp only at ho ⊢
      rw [ho, h.outcnt, hpart]
      by_cases he : e = d'
      · rw [if_pos he, if_pos he, List.length_append, List.length_singleton]
        push_cast
        rfl
      · rw [if_neg he, if_neg he, Int.add_zero]
    · have hroom := hround.room
      have hlim := h.limit e
      rw [hpart]
      by_cases he : e = d'
      · subst he
        rw [if_pos rfl, List.length_append, List.length_singleton]
        rw [h.outcnt] at hroom
        omega
      · rw [if_neg he]
        exact hlim
    · refine (hsent.append_right [bp]).trans ?_
      unfold heldBps
      rw [List.append_assoc]
      exact List.perm_append_comm.append_left s.transported
    · have hks' := hround.kstat.symm.trans hks
      rcases Option.map_eq_some_iff.1 hks' with ⟨k₀, hk₀, rfl⟩
      have hc := (h.counts k₀ hk₀).move
      have hrun : dx.running = s.dx.running + 1 := by
        have h₁ := hround.outcnt .read
        have h₂ := hround.outcnt .write
        unfold Duplx.running
        dsimp only at h₁ h₂ ⊢
        rw [h₁, h₂]
        cases d' with
        | read =>
            rw [if_pos rfl, if_neg Dir.noConfusion]
            ring
        | write =>
            rw [if_neg Dir.noConfusion, if_pos rfl]
            ring
      unfold DxSys.waiting at hc ⊢
      dsimp only at hc ⊢
      rw [hrun, List.length_append, List.length_singleton]
      convert hc using 1 <;> push_cast <;> ring

/-- Every step keeps the invariants. -/
theorem DxStep.keeps (hR : ∀ d, Orders (R d)) (hq : ∀ d, (que d).Keeps (Rep d) (R d))
    (hst : DxStep que dir s s')
    (h : DxOk dir Rep R s l out) (hs : Served s l) :
    ∃ l' out', DxOk dir Rep R s' l' out' ∧ Served s' l' := by
  have hsent := h.sent
  cases hst with
  | enque bp hfree hnew =>
      rw [hfree] at hsent
      -- A new buf is not in its queue yet.
      have hmem : bp ∉ l (dir bp) := fun hb => hnew (mem_along.1
        (((hR (dir bp)).perm (h.parts (dir bp)).parts).mem_iff.2
          (List.mem_append_right _ (List.mem_append_right _ hb)))).1
      rcases (hq (dir bp)).add _ _ bp (h.parts (dir bp)).rep hmem with ⟨l₁, hrep, hl⟩
      have hset : ∀ e, ((duplxEnque que dir s.dx (some bp)).1.q e).outcnt =
          (s.dx.q e).outcnt := by
        intro e
        unfold duplxEnque
        dsimp only
        by_cases he : e = dir bp
        · subst he
          rw [Duplx.set_same]
        · rw [Duplx.set_other _ _ he]
      refine ⟨Function.update l (dir bp) l₁, out, ⟨fun e => ?_, ?_, h.claims,
        fun e => (hset e).trans (h.outcnt e), h.limit, hsent, h.past, fun k hk => ?_⟩,
        served_round rfl⟩
      · unfold duplxEnque
        dsimp only
        rw [along_append]
        by_cases he : e = dir bp
        · subst he
          rw [Duplx.set_same, Function.update_self, along_self rfl]
          refine ⟨hrep, ?_⟩
          have hp := (hR (dir bp)).right [bp] (h.parts (dir bp)).parts
          rw [List.append_assoc, List.append_assoc] at hp
          exact (hR (dir bp)).trans hp
            ((hR (dir bp)).left _ ((hR (dir bp)).left (s.dx.q (dir bp)).bp.toList hl))
        · rw [Duplx.set_other _ _ he, Function.update_of_ne he, along_other (Ne.symm he),
            List.append_nil]
          exact h.parts e
      · rw [List.nodup_append_comm, List.singleton_append, List.nodup_cons]
        exact ⟨hnew, h.nodup⟩
      · rcases Option.map_eq_some_iff.1 hk with ⟨k₀, hk₀, rfl⟩
        have hc := (h.counts k₀ hk₀).enter
        have hrun : (duplxEnque que dir s.dx (some bp)).1.running = s.dx.running :=
          congrArg₂ (· + ·) (hset .read) (hset .write)
        unfold DxSys.waiting at hc ⊢
        dsimp only at hc ⊢
        rw [hrun, List.length_append, List.length_singleton]
        convert hc using 1
        push_cast
        ring
  | restart hfree =>
      rw [hfree] at hsent
      exact ⟨l, out, ⟨h.parts, h.nodup, h.claims, h.outcnt, h.limit, hsent, h.past, h.counts⟩,
        served_round rfl⟩
  | deque bp x hfree hbp hnew =>
      rw [hfree] at hsent
      rcases List.append_of_mem (h.outstanding hbp hnew) with ⟨a, a', rfl⟩
      -- The buf is no longer outstanding.
      have hcnt : ∀ e, ((along dir e (a ++ bp :: a')).length : Int) =
          (along dir e (a ++ a')).length + if e = dir bp then 1 else 0 := by
        intro e
        rw [← List.singleton_append, along_append, along_append, along_append]
        by_cases he : e = dir bp
        · rw [if_pos he, along_self he.symm, List.length_append, List.length_append,
            List.length_append, List.length_singleton]
          push_cast
          ring
        · rw [if_neg he, along_other (Ne.symm he), List.nil_append, Int.add_zero]
      have hset : ∀ e, ((duplxDeque dir s.dx bp x).1.q e).outcnt =
          (s.dx.q e).outcnt - if e = dir bp then 1 else 0 := by
        intro e
        unfold duplxDeque
        dsimp only
        by_cases he : e = dir bp
        · subst he
          rw [Duplx.set_same, if_pos rfl]
        · rw [Duplx.set_other _ _ he, if_neg he, Int.sub_zero]
      refine ⟨l, a ++ a', ⟨fun e => ?_, h.nodup, ?_, fun e => ?_, fun e => ?_, hsent, ?_,
        fun k hk => ?_⟩, served_round rfl⟩
      · unfold duplxDeque
        dsimp only
        by_cases he : e = dir bp
        · subst he
          rw [Duplx.set_same]
          exact ⟨(h.parts (dir bp)).rep, (h.parts (dir bp)).parts⟩
        · rw [Duplx.set_other _ _ he]
          exact h.parts e
      · rw [List.append_assoc, List.singleton_append]
        exact h.claims.trans (List.perm_middle.append_left s.dequeued)
      · have ho := h.outcnt e
        rw [hcnt] at ho
        dsimp only
        rw [hset, ho]
        ring
      · have hl := h.limit e
        have hc := hcnt e
        split at hc <;> omega
      · intro y hy
        rcases List.mem_append.1 hy with hy | hy
        · exact h.past hy
        · rw [List.mem_singleton.1 hy]
          exact hbp
      · rcases Option.map_eq_some_iff.1 hk with ⟨k₀, hk₀, rfl⟩
        have hc := (h.counts k₀ hk₀).finish x
        have hrun : (duplxDeque dir s.dx bp x).1.running = s.dx.running - 1 := by
          unfold Duplx.running
          rw [hset, hset]
          cases dir bp with
          | read =>
              rw [if_pos rfl, if_neg Dir.noConfusion]
              ring
          | write =>
              rw [if_neg Dir.noConfusion, if_pos rfl]
              ring
        unfold DxSys.waiting at hc ⊢
        dsimp only at hc ⊢
        rw [hrun]
        convert hc using 1
        ring
  | round d hheld pkt => exact h.round hR hq hheld pkt
  | leave hheld =>
      rw [hheld] at hsent
      exact ⟨l, out, ⟨h.parts, h.nodup, h.claims, h.outcnt, h.limit, hsent, h.past, h.counts⟩,
        nofun, fun _ _ => hs.leaving hheld⟩
  | leaveClaimed bp d hheld =>
      rw [hheld] at hsent
      exact ⟨l, out, ⟨h.parts, h.nodup, h.claims, h.outcnt, h.limit, hsent, h.past, h.counts⟩,
        served_calls nofun (List.cons_ne_nil _ _)⟩
  | transport bp d a a' hcall =>
      refine ⟨l, out, ⟨h.parts, h.nodup, h.claims, h.outcnt, h.limit, ?_, ?_, h.counts⟩,
        fun hd => hs.leaving hd, fun _ hn => absurd hn (by simp)⟩
      · -- The call goes on, and its buf counts as transported.
        rw [hcall, dxPending_append, dxPending_transport] at hsent
        dsimp only
        rw [dxPending_append, dxPending_tryenter, List.append_assoc, List.singleton_append]
        refine hsent.trans (List.Perm.append_left s.transported ?_)
        exact (List.perm_middle.append_left (heldBps s.held)).trans List.perm_middle
      · exact fun y hy => List.mem_append_left _ (h.past hy)
  | busy d a a' hcall hheld =>
      rw [hcall, dxPending_append, dxPending_tryenter, ← dxPending_append] at hsent
      -- The holder of the mutex has yet to look, or has found a reason.
      exact ⟨l, out, ⟨h.parts, h.nodup, h.claims, h.outcnt, h.limit, hsent, h.past, h.counts⟩,
        fun hd => hs.leaving hd, fun hn => absurd hn hheld⟩
  | again d a a' hcall hfree =>
      rw [hcall, dxPending_append, dxPending_tryenter, ← dxPending_append, hfree] at hsent
      exact ⟨l, out, ⟨h.parts, h.nodup, h.claims, h.outcnt, h.limit, hsent, h.past, h.counts⟩,
        served_round rfl⟩
  | start created hnone =>
      refine ⟨l, out, ⟨h.parts, h.nodup, h.claims, h.outcnt, h.limit, hsent, h.past,
        fun k hk => ?_⟩, hs.leaving, hs.idle⟩
      cases created with
      | false => cases hk
      | true =>
          cases hk
          unfold DxSys.waiting Duplx.running
          dsimp only
          rw [Int.sub_self, Int.sub_self]
          exact ksCounts_zero
  | stop =>
      exact ⟨l, out, ⟨h.parts, h.nodup, h.claims, h.outcnt, h.limit, hsent, h.past, nofun⟩,
        hs.leaving, hs.idle⟩

/-- The invariants hold in every reachable state. -/
theorem reachable_dxOk (hR : ∀ d, Orders (R d)) (hq : ∀ d, (que d).Keeps (Rep d) (R d))
    (h : Reachable (DxInit Rep) (DxStep que dir) s) :
    ∃ l out, DxOk dir Rep R s l out ∧ Served s l := by
  refine Reachable.invariant (I := fun s => ∃ l out, DxOk dir Rep R s l out ∧ Served s l) ?_ ?_ h
  · intro s₀ h₀
    rcases h₀.history with ⟨henq, hcl, htr, hdq⟩
    refine ⟨fun _ => [], [], ⟨fun d => ⟨(h₀.queues d).2.2, ?_⟩, ?_, ?_, fun d => (h₀.queues d).2.1,
      fun _ => Nat.zero_le _, ?_, ?_, fun k hk => ?_⟩,
      fun _ d => Or.inl ⟨(h₀.queues d).1, rfl⟩, fun _ _ d => Or.inl ⟨(h₀.queues d).1, rfl⟩⟩
    · rw [henq, hcl, (h₀.queues d).1]
      exact (hR d).refl []
    · rw [henq]
      exact List.nodup_nil
    · rw [hcl, hdq]
      exact List.Perm.refl []
    · rw [hcl, htr, h₀.calls.1, h₀.calls.2]
      exact List.Perm.refl []
    · rw [hdq]
      exact List.nil_subset _
    · rw [h₀.kstat] at hk
      cases hk
  · rintro s₁ s₂ _ ⟨l, out, hok, hsv⟩ hst
    exact hst.keeps hR hq hok hsv

end Invariant

/-- What is claimed and not dequeued is what is outstanding. -/
theorem filter_not_dequeued {β : Type} [DecidableEq β] {cl dq out : List β}
    (h : cl.Perm (dq ++ out)) (hnd : cl.Nodup) :
    (cl.filter fun b => decide (b ∉ dq)).Perm out := by
  have hdis := List.nodup_append.1 (h.nodup_iff.1 hnd)
  have hin : dq.filter (fun b => decide (b ∉ dq)) = [] := by
    rw [List.filter_eq_nil_iff]
    intro b hb
    simpa using hb
  have hnot : out.filter (fun b => decide (b ∉ dq)) = out := by
    rw [List.filter_eq_self]
    intro b hb
    simpa using fun hd => hdis.2.2 b hd b hb rfl
  have hfil := h.filter fun b => decide (b ∉ dq)
  rwa [List.filter_append, hin, hnot, List.nil_append] at hfil

/-- A list has no duplicates if the bufs of each direction have none. -/
theorem nodup_of_along {β : Type} [DecidableEq β] (dir : β → Dir) {l : List β}
    (h : ∀ d, (along dir d l).Nodup) : l.Nodup := by
  rw [List.nodup_iff_count_le_one]
  intro b
  have hb := List.nodup_iff_count_le_one.1 (h (dir b)) b
  unfold along at hb
  rwa [List.count_filter (by rw [decide_eq_true_eq])] at hb

/-- No buf is lost, no more are outstanding in a direction than allowed, and nothing
    is left waiting without a reason. -/
structure DxSafe {π β : Type} {Q : Dir → Type} [DecidableEq β] (dir : β → Dir)
    (Rep : (d : Dir) → Q d → List β → Prop) (s : DxSys π β Q) : Prop where
  outcnt : ∀ d, (s.dx.q d).outcnt =
    (along dir d (s.claimed.filter fun b => decide (b ∉ s.dequeued))).length
  bounds : ∀ d, 0 ≤ (s.dx.q d).outcnt ∧ (s.dx.q d).outcnt ≤ duplxMaxcnt
  once : s.enqueued.Nodup ∧ s.transported.Nodup ∧ s.transported ⊆ s.claimed
  place : ∃ l : Dir → List β,
    (∀ d, Rep d (s.dx.q d).que (l d) ∧ (along dir d s.enqueued).Perm
      (along dir d s.claimed ++ ((s.dx.q d).bp.toList ++ l d))) ∧
    (s.held = none → s.calls = [] → ∀ d, Vain (s.dx.q d) (l d) (s.refused d))
  counts : ∀ k, s.dx.kstat = some k →
    KsCounts (s.waiting - s.waited) (s.dx.running - s.ran) s.done k

theorem DxOk.safe {π β : Type} {Q : Dir → Type} [DecidableEq β] {dir : β → Dir}
    {Rep : (d : Dir) → Q d → List β → Prop} {s : DxSys π β Q} {l : Dir → List β}
    {out : List β} (h : DxOk dir Rep (fun _ => List.Perm) s l out) (hs : Served s l) :
    DxSafe dir Rep s := by
  have hnd : s.claimed.Nodup := by
    refine nodup_of_along dir fun d => ?_
    have hd : (along dir d s.enqueued).Nodup := h.nodup.filter _
    exact (List.nodup_append.1 ((h.parts d).parts.nodup_iff.1 hd)).1
  refine ⟨fun d => ?_, fun d => ?_, ⟨h.nodup, ?_, fun b hb => ?_⟩,
    ⟨l, fun d => ⟨(h.parts d).rep, (h.parts d).parts⟩, hs.idle⟩, h.counts⟩
  · rw [h.outcnt, (along_perm (filter_not_dequeued h.claims hnd)).length_eq]
  · have hlim := h.limit d
    rw [h.outcnt]
    omega
  · exact (List.nodup_append.1 (h.sent.nodup_iff.1 hnd)).1
  · exact h.sent.mem_iff.2 (List.mem_append_left _ hb)

/-- A relation for one direction, and no order for the other. -/
def orderOf {β : Type} (d : Dir) (R : List β → List β → Prop) : Dir → List β → List β → Prop :=
  fun e => if e = d then R else List.Perm

/-- What the queue of a direction does to the order of its bufs is all that is done
    to it. -/
theorem reachable_order {π β : Type} {Q : Dir → Type} {dir : β → Dir}
    {que : (d : Dir) → Que β (Q d)} {Rep : (d : Dir) → Q d → List β → Prop}
    (hq : ∀ d, (que d).Keeps (Rep d) List.Perm) {s : DxSys π β Q}
    (hs : Reachable (DxInit Rep) (DxStep que dir) s) {d : Dir} {R : List β → List β → Prop}
    (hR : Orders R) (hd : (que d).Keeps (Rep d) R) :
    ∃ l, R (along dir d s.enqueued) (along dir d s.claimed ++ l) := by
  have hords : ∀ e, Orders (orderOf d R e) := by
    intro e
    unfold orderOf
    split
    · exact hR
    · exact orders_perm
  have hkeeps : ∀ e, (que e).Keeps (Rep e) (orderOf d R e) := by
    intro e
    unfold orderOf
    split
    · next he =>
      subst he
      exact hd
    · exact hq e
  rcases reachable_dxOk hords hkeeps hs with ⟨l, out, hok, _⟩
  have hparts := (hok.parts d).parts
  unfold orderOf at hparts
  rw [if_pos rfl] at hparts
  exact ⟨_, hparts⟩

/-- Duplexed flow control neither overruns nor loses a buf, and leaves none behind.
    For queues that lose nothing, any interleaving of the calls, with a
    `mutex_tryenter` that fails only while another call holds the mutex, and
    anything `TGCOM_PKT` does: `fc_outcnt` of each direction is the number of its
    bufs claimed and not yet passed to `duplx_deque`, and at most `DUPLX_MAXCNT`;
    every buf enqueued is in one place, and is transported once; the counters are
    right; and when no call is in progress, each direction is empty, or `TGCOM_PKT`
    has failed for it, or its limit is reached. The bufs of a direction whose queue
    is in order are claimed in the order in which they were enqueued. -/
theorem duplx_sound {π β : Type} {Q : Dir → Type} [DecidableEq β] (dir : β → Dir)
    (que : (d : Dir) → Que β (Q d)) (Rep : (d : Dir) → Q d → List β → Prop)
    (hq : ∀ d, (que d).Keeps (Rep d) List.Perm) (s : DxSys π β Q)
    (hs : Reachable (DxInit Rep) (DxStep que dir) s) :
    DxSafe dir Rep s ∧ ∀ d, (que d).Keeps (Rep d) Eq →
      along dir d s.claimed <+: along dir d s.enqueued := by
  constructor
  · rcases reachable_dxOk (fun _ => orders_perm) hq hs with ⟨l, out, hok, hsv⟩
    exact hok.safe hsv
  · intro d hd
    rcases reachable_order hq hs orders_eq hd with ⟨l, hl⟩
    rw [hl]
    exact List.prefix_append _ _

/-- Even bufs are reads. -/
def parity (n : Nat) : Dir := if n % 2 = 0 then .read else .write

/-- Nothing is enqueued. -/
def idleDx : DxSys Unit Nat fun _ => QueTab Nat where
  dx := ⟨fun _ => ⟨none, 0, ⟨none, none, fun _ => none⟩⟩, (), none⟩
  held := none
  calls := []
  enqueued := []
  claimed := []
  transported := []
  dequeued := []
  refused := fun _ => false
  waited := 0
  ran := 0
  done := []

/-- A read is on its way when a write comes, which holds the mutex when the call of
    the read comes back. -/
theorem duplx_sound_both : ∃ s : DxSys Unit Nat fun _ => QueTab Nat,
    s.claimed = [2, 1] ∧ s.held = some (.claimed 1 .write) ∧
      DxSafe parity (fun _ => QueTab.Holds) s ∧
      along parity .write s.claimed <+: along parity .write s.enqueued := by
  have hinit : DxInit (fun _ => QueTab.Holds) idleDx :=
    ⟨fun _ => ⟨rfl, rfl, ⟨rfl, rfl, List.nodup_nil⟩⟩, ⟨rfl, rfl⟩, ⟨rfl, rfl, rfl, rfl⟩, rfl⟩
  have hread : Reachable (DxInit fun _ => QueTab.Holds) (DxStep (fun _ => qfifo) parity) _ :=
    ((Reachable.initial hinit).tail (.enque _ 2 rfl (by decide))).tail
      (.round _ .read rfl fun u _ => (u, true))
  have hsent := (hread.tail (.leaveClaimed _ 2 .read rfl)).tail (.transport _ 2 .read [] [] rfl)
  have hwrite := (hsent.tail (.enque _ 1 rfl (by decide))).tail (.busy _ .read [] [] rfl nofun)
  have hboth := hwrite.tail (.round _ .write rfl fun u _ => (u, true))
  have hsafe := duplx_sound parity (fun _ => qfifo) (fun _ => QueTab.Holds)
    (fun _ => qfifo_keeps.perm) _ hboth
  exact ⟨_, rfl, rfl, hsafe.1, hsafe.2 .write qfifo_keeps⟩

end Disk

end Sil3112
