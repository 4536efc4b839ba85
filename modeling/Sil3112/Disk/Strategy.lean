import Mathlib.Data.List.Nodup
import Mathlib.Logic.Function.Basic
import Sil3112.Lib.Transition

/-!
# Flow Control

The objects of `strategy.c` between dadk and its controller: `dsngl`, which has
one command outstanding, and `dmult`, which has several. A buf is queued, is
fetched into `ds_bp`, and is claimed when it has a packet and there is room for
it. The mutex is held for that and dropped for the transport. Afterwards
`deque` goes on if it gets the mutex at once, and gives up otherwise.

A step is one critical section, or the transport or `mutex_tryenter` between
two of them. What `TGCOM_PKT` does is given with each step. Nested calls, as
when a transport fails and finishes its buf, are calls of their own.

The queue is any that loses nothing. `qfifo` is the one of `qfifo_add` and
`que_del`, a list linked through `av_forw`. Every buf is enqueued once: one
that comes again counts as another.

## Main definitions

* `QueTab`, `qfifoAdd`, `queDel`: The FIFO queue.
* `Fc`, `enque`, `dequeRound`: The critical sections, and the objects `dsngl`
  and `dmult` made of them.
* `FcSys`, `FcStep`: The calls in progress, with the history of every buf.
* `FcOk`: The invariant.
* `Fed`: Nothing waits in `ds_bp` of an idle device.

## Theorems

* `qfifo_keeps`: The linked list is a queue in order.
* `FcStep.keeps`: Every step keeps the invariant.
* `FcStep.fed`: Every step keeps `Fed` if `TGCOM_PKT` does not fail on an idle
  device.
* `flow_control_sound`: No buf is lost or overruns the limit.
-/

namespace Sil3112

namespace Disk

open Transition

/-! ## Queues -/

/-- A queue object: `QUE_ADD` and `QUE_DEL`. -/
structure Que (β Q : Type) where
  add : Q → β → Q
  del : Q → Q × Option β

/-- What a queue does to its contents, up to a relation of lists: a buf is added
    at the end and taken from the front, and there is none if it is empty. -/
structure Que.Keeps {β Q : Type} (que : Que β Q) (Rep : Q → List β → Prop)
    (R : List β → List β → Prop) : Prop where
  add : ∀ q l b, Rep q l → b ∉ l → ∃ l', Rep (que.add q b) l' ∧ R (l ++ [b]) l'
  del_none : ∀ q l, Rep q l → (que.del q).2 = none → l = [] ∧ Rep (que.del q).1 []
  del_some : ∀ q l b, Rep q l → (que.del q).2 = some b →
    ∃ l', Rep (que.del q).1 l' ∧ R l (b :: l')

/-- `q_tab` of a `struct que_data`, with the `av_forw` of the bufs. -/
structure QueTab (β : Type) where
  actf : Option β
  actl : Option β
  avForw : β → Option β

section Qfifo

variable {β : Type} [DecidableEq β]

/-- `qfifo_add`. A queue with a first buf has a last one. -/
def qfifoAdd (q : QueTab β) (bp : β) : QueTab β :=
  let q := match q.actf, q.actl with
    | none, _ => { q with actf := some bp }
    | some _, some last => { q with avForw := Function.update q.avForw last (some bp) }
    | some _, none => q
  { q with actl := some bp, avForw := Function.update q.avForw bp none }

/-- `que_del` -/
def queDel (q : QueTab β) : QueTab β × Option β :=
  match q.actf with
  | none => (q, none)
  | some bp =>
    ({ actf := q.avForw bp
       actl := if q.avForw bp = none then none else q.actl
       avForw := Function.update q.avForw bp none }, some bp)

/-- `qfifo_ops` -/
def qfifo : Que β (QueTab β) where
  add := qfifoAdd
  del := queDel

/-- The bufs linked from one on. -/
def Linked (avForw : β → Option β) : Option β → List β → Prop
  | none, l => l = []
  | some _, [] => False
  | some bp, b :: l => bp = b ∧ Linked avForw (avForw b) l

/-- The list of a queue. -/
structure QueTab.Holds (q : QueTab β) (l : List β) : Prop where
  linked : Linked q.avForw q.actf l
  last : q.actl = l.getLast?
  nodup : l.Nodup

omit [DecidableEq β] in
theorem linked_nil {avForw : β → Option β} {o : Option β} : Linked avForw o [] ↔ o = none := by
  cases o with
  | none => exact ⟨fun _ => rfl, fun _ => rfl⟩
  | some b => exact ⟨fun h => h.elim, nofun⟩

omit [DecidableEq β] in
theorem linked_cons {avForw : β → Option β} {o : Option β} {b : β} {l : List β} :
    Linked avForw o (b :: l) ↔ o = some b ∧ Linked avForw (avForw b) l := by
  cases o with
  | none => exact ⟨nofun, nofun⟩
  | some bp =>
      constructor
      · rintro ⟨rfl, h⟩
        exact ⟨rfl, h⟩
      · rintro ⟨h, h'⟩
        cases h
        exact ⟨rfl, h'⟩

/-- A link that is not followed may be changed. -/
theorem Linked.update {avForw : β → Option β} {x : β} {v : Option β} : ∀ {l : List β}
    {o : Option β}, Linked avForw o l → x ∉ l → Linked (Function.update avForw x v) o l := by
  intro l
  induction l with
  | nil =>
      intro o h _
      exact linked_nil.2 (linked_nil.1 h)
  | cons b l ih =>
      intro o h hx
      rcases linked_cons.1 h with ⟨rfl, hlink⟩
      rw [List.mem_cons, not_or] at hx
      refine linked_cons.2 ⟨rfl, ?_⟩
      rw [Function.update_of_ne (Ne.symm hx.1)]
      exact ih hlink hx.2

/-- A buf linked behind the last one. -/
theorem Linked.append {avForw : β → Option β} {b last : β} : ∀ {l : List β} {o : Option β},
    Linked avForw o l → l.getLast? = some last → l.Nodup → b ∉ l →
    Linked (Function.update (Function.update avForw last (some b)) b none) o (l ++ [b]) := by
  intro l
  induction l with
  | nil => nofun
  | cons x l ih =>
      intro o h hlast hnd hb
      rcases linked_cons.1 h with ⟨rfl, hlink⟩
      rw [List.nodup_cons] at hnd
      rw [List.mem_cons, not_or] at hb
      refine linked_cons.2 ⟨rfl, ?_⟩
      rw [Function.update_of_ne (Ne.symm hb.1)]
      -- `x` is the last buf, or it keeps its link
      by_cases hl : l = []
      · subst hl
        rw [List.getLast?_singleton, Option.some.injEq] at hlast
        rw [hlast, Function.update_self]
        refine linked_cons.2 ⟨rfl, ?_⟩
        rw [Function.update_self]
        rfl
      · rw [List.getLast?_cons_of_ne_nil hl] at hlast
        have hne : x ≠ last := by
          rintro rfl
          exact hnd.1 (List.mem_of_getLast? hlast)
        rw [Function.update_of_ne hne]
        exact ih hlink hlast hnd.2 hb.2

theorem QueTab.Holds.add {q : QueTab β} {l : List β} {b : β} (h : q.Holds l) (hb : b ∉ l) :
    (qfifoAdd q b).Holds (l ++ [b]) := by
  have hnd : (l ++ [b]).Nodup := by
    rw [List.nodup_append_comm, List.singleton_append, List.nodup_cons]
    exact ⟨hb, h.nodup⟩
  cases l with
  | nil =>
      -- The first element is also the last.
      have hf := linked_nil.1 h.linked
      refine ⟨?_, rfl, hnd⟩
      unfold qfifoAdd
      rw [hf]
      refine linked_cons.2 ⟨rfl, ?_⟩
      dsimp only
      rw [Function.update_self]
      rfl
  | cons x l =>
      have hlast := h.last
      have hsome : ∃ last, (x :: l).getLast? = some last :=
        Option.isSome_iff_exists.1 (by rw [List.getLast?_isSome]; exact List.cons_ne_nil x l)
      rcases hsome with ⟨last, hl⟩
      have hf := (linked_cons.1 h.linked).1
      rw [hl] at hlast
      -- The old last element now points to the new one.
      have happ := h.linked.append hl h.nodup hb
      refine ⟨?_, ?_, hnd⟩
      · unfold qfifoAdd
        rw [hf, hlast]
        dsimp only
        rw [hf] at happ
        exact happ
      · rw [List.getLast?_append_cons]
        rfl

theorem queDel_nil {q : QueTab β} (h : q.Holds []) : queDel q = (q, none) := by
  unfold queDel
  rw [linked_nil.1 h.linked]

theorem queDel_cons {q : QueTab β} {b : β} {l : List β} (h : q.Holds (b :: l)) :
    (queDel q).2 = some b ∧ (queDel q).1.Holds l := by
  rcases linked_cons.1 h.linked with ⟨hf, hlink⟩
  have hnd := List.nodup_cons.1 h.nodup
  have hlast := h.last
  unfold queDel
  rw [hf]
  refine ⟨rfl, ⟨hlink.update hnd.1, ?_, hnd.2⟩⟩
  -- `b_actl` is cleared with the last element only.
  dsimp only
  cases l with
  | nil => rw [if_pos (linked_nil.1 hlink), List.getLast?_nil]
  | cons y l =>
      rw [(linked_cons.1 hlink).1, if_neg (by simp), hlast,
        List.getLast?_cons_of_ne_nil (List.cons_ne_nil y l)]

/-- The linked list is a queue in order. -/
theorem qfifo_keeps : (qfifo (β := β)).Keeps QueTab.Holds Eq where
  add := fun q l b h hb => ⟨l ++ [b], h.add hb, rfl⟩
  del_none := by
    intro q l h hd
    change (queDel q).2 = none at hd
    cases l with
    | nil =>
        refine ⟨rfl, ?_⟩
        change (queDel q).1.Holds []
        rw [queDel_nil h]
        exact h
    | cons x l =>
        rw [(queDel_cons h).1] at hd
        cases hd
  del_some := by
    intro q l b h hd
    change (queDel q).2 = some b at hd
    cases l with
    | nil =>
        rw [queDel_nil h] at hd
        cases hd
    | cons x l =>
        rcases queDel_cons h with ⟨hx, hl⟩
        rw [hx] at hd
        cases hd
        exact ⟨l, hl, rfl⟩

end Qfifo

/-! ## The critical sections -/

/-- `DMULT_MAXCNT` -/
def dmultMaxcnt : Nat := 2

/-- `struct fc_data`: `ds_bp`, `ds_outcnt`, the queue, and the state of the
    object that `TGCOM_PKT` calls. `ds_outcnt` is a `short`, which the limit
    keeps small. -/
structure Fc (π β Q : Type) where
  bp : Option β
  outcnt : Int
  que : Q
  com : π

section Critical

variable {π β Q : Type} (que : Que β Q) (full : Int → Bool) (pkt : π → β → π × Bool)

/-- `enque` up to the transport: the buf it has claimed. -/
def enque (s : Fc π β Q) (inBp : β) : Fc π β Q × Option β :=
  if s.bp.isSome ∨ full s.outcnt then ({ s with que := que.add s.que inBp }, none)
  else
    let r := pkt s.com inBp
    let s := { s with com := r.1 }
    if r.2 then ({ s with outcnt := s.outcnt + 1 }, some inBp)
    else ({ s with bp := some inBp }, none)

/-- `ds_bp` is fetched if there is none. -/
def fetch (s : Fc π β Q) : Fc π β Q :=
  match s.bp with
  | some _ => s
  | none =>
    let r := que.del s.que
    { s with que := r.1, bp := r.2 }

/-- One round of the loop of `deque`, up to the transport: the buf it has
    claimed. -/
def dequeRound (s : Fc π β Q) : Fc π β Q × Option β :=
  let s := fetch que s
  match s.bp with
  | none => (s, none)
  | some bp =>
    let r := pkt s.com bp
    let s := { s with com := r.1 }
    if r.2 = false then (s, none)
    else if full s.outcnt then (s, none)
    else
      let d := que.del s.que
      ({ s with outcnt := s.outcnt + 1, que := d.1, bp := d.2 }, some bp)

/-- The beginning of `deque` for a buf that is done. -/
def release (s : Fc π β Q) : Fc π β Q :=
  { s with outcnt := s.outcnt - 1 }

end Critical

/-- A flow control object, by its condition that no more commands may be
    outstanding. -/
structure Flc where
  full : Int → Bool
  limit : Nat
  spec : ∀ n : Int, 0 ≤ n → (full n = true ↔ (limit : Int) ≤ n)
  pos : 0 < limit

/-- `dsngl_ops`, where `ds_outcnt` has to be 0. -/
def dsngl : Flc where
  full := fun outcnt => decide (outcnt ≠ 0)
  limit := 1
  spec := by
    intro n hn
    rw [decide_eq_true_eq]
    omega
  pos := Nat.one_pos

/-- `dmult_ops`, where `ds_outcnt` has to be less than `ds_waitcnt`, as
    unsigned numbers. -/
def dmult : Flc where
  full := fun outcnt => decide (outcnt < 0 ∨ (dmultMaxcnt : Int) ≤ outcnt)
  limit := dmultMaxcnt
  spec := by
    intro n hn
    rw [decide_eq_true_eq]
    omega
  pos := Nat.two_pos

/-! ## The calls in progress -/

/-- A call of `enque` or `deque` that has dropped the mutex: it is to transport
    the buf it has claimed, in `deque` with the loop to go on with, or it is to
    try for the mutex. -/
inductive FcCall (β : Type) where
  | transport (bp : β) (loop : Bool)
  | tryenter

/-- A flow control object and the calls in progress, with the bufs that have
    been enqueued, claimed, passed to `TGCOM_TRANSPORT` and to `deque`, in
    order. -/
structure FcSys (π β Q : Type) where
  fc : Fc π β Q
  calls : List (FcCall β)
  enqueued : List β
  claimed : List β
  transported : List β
  dequeued : List β

/-- The end of a critical section. -/
def FcSys.leave {π β Q : Type} (s : FcSys π β Q) (loop : Bool) (r : Fc π β Q × Option β) :
    FcSys π β Q :=
  match r.2 with
  | none => { s with fc := r.1 }
  | some bp =>
    { s with fc := r.1, calls := .transport bp loop :: s.calls, claimed := s.claimed ++ [bp] }

/-- The steps of all the calls. `ok` says what `TGCOM_PKT` may do where it is
    called for a buf. -/
inductive FcStep {π β Q : Type} (que : Que β Q) (f : Flc)
    (ok : Fc π β Q → β → (π → β → π × Bool) → Prop) : FcSys π β Q → FcSys π β Q → Prop where
  | enque (s : FcSys π β Q) (bp : β) (hnew : bp ∉ s.enqueued) (pkt : π → β → π × Bool)
      (hpkt : s.fc.bp = none → f.full s.fc.outcnt = false → ok s.fc bp pkt) :
      FcStep que f ok s
        (FcSys.leave { s with enqueued := s.enqueued ++ [bp] } false (enque que f.full pkt s.fc bp))
  | transport (s : FcSys π β Q) (bp : β) (loop : Bool) (l l' : List (FcCall β))
      (hcall : s.calls = l ++ .transport bp loop :: l') :
      FcStep que f ok s { s with
        calls := l ++ (if loop then .tryenter :: l' else l')
        transported := s.transported ++ [bp] }
  | busy (s : FcSys π β Q) (l l' : List (FcCall β)) (hcall : s.calls = l ++ .tryenter :: l') :
      FcStep que f ok s { s with calls := l ++ l' }
  | again (s : FcSys π β Q) (l l' : List (FcCall β)) (hcall : s.calls = l ++ .tryenter :: l')
      (pkt : π → β → π × Bool)
      (hpkt : ∀ bp, (fetch que s.fc).bp = some bp → ok (fetch que s.fc) bp pkt) :
      FcStep que f ok s
        (FcSys.leave { s with calls := l ++ l' } true (dequeRound que f.full pkt s.fc))
  | deque (s : FcSys π β Q) (bp : β) (hsent : bp ∈ s.transported) (hnew : bp ∉ s.dequeued)
      (pkt : π → β → π × Bool)
      (hpkt : ∀ b, (fetch que (release s.fc)).bp = some b → ok (fetch que (release s.fc)) b pkt) :
      FcStep que f ok s
        (FcSys.leave { s with dequeued := s.dequeued ++ [bp] } true
          (dequeRound que f.full pkt (release s.fc)))
  | restart (s : FcSys π β Q) (pkt : π → β → π × Bool)
      (hpkt : ∀ bp, (fetch que s.fc).bp = some bp → ok (fetch que s.fc) bp pkt) :
      FcStep que f ok s (FcSys.leave s true (dequeRound que f.full pkt s.fc))

/-- Nothing has been enqueued. -/
def FcInit {π β Q : Type} (Rep : Q → List β → Prop) (s : FcSys π β Q) : Prop :=
  s.fc.bp = none ∧ s.fc.outcnt = 0 ∧ Rep s.fc.que [] ∧ s.calls = [] ∧ s.enqueued = [] ∧
    s.claimed = [] ∧ s.transported = [] ∧ s.dequeued = []

/-! ## The invariant -/

/-- A relation of lists that is either equality or ignores the order. -/
structure Orders {β : Type} (R : List β → List β → Prop) : Prop where
  refl : ∀ a, R a a
  trans : ∀ {a b c}, R a b → R b c → R a c
  left : ∀ c {a b}, R a b → R (c ++ a) (c ++ b)
  right : ∀ c {a b}, R a b → R (a ++ c) (b ++ c)
  perm : ∀ {a b}, R a b → a.Perm b

theorem orders_perm {β : Type} : Orders (β := β) List.Perm where
  refl := List.Perm.refl
  trans := List.Perm.trans
  left := fun c _ _ h => h.append_left c
  right := fun c _ _ h => h.append_right c
  perm := fun h => h

theorem orders_eq {β : Type} : Orders (β := β) Eq where
  refl := fun _ => rfl
  trans := Eq.trans
  left := fun c _ _ h => congrArg (c ++ ·) h
  right := fun c _ _ h => congrArg (· ++ c) h
  perm := fun h => h ▸ List.Perm.refl _

/-- A queue in order loses nothing. -/
theorem Que.Keeps.perm {β Q : Type} {que : Que β Q} {Rep : Q → List β → Prop}
    (h : que.Keeps Rep Eq) : que.Keeps Rep List.Perm where
  add := fun q l b hr hb =>
    let ⟨l', hr', he⟩ := h.add q l b hr hb
    ⟨l', hr', he ▸ List.Perm.refl _⟩
  del_none := h.del_none
  del_some := fun q l b hr hd =>
    let ⟨l', hr', he⟩ := h.del_some q l b hr hd
    ⟨l', hr', he ▸ List.Perm.refl _⟩

section Sections

variable {π β Q : Type} {que : Que β Q} {Rep : Q → List β → Prop} {R : List β → List β → Prop}
  {f : Flc} {fc : Fc π β Q} {enq cl l : List β}

/-- The bufs enqueued are those claimed, the one in `ds_bp` and those of the
    queue. -/
structure Parts (Rep : Q → List β → Prop) (R : List β → List β → Prop) (enq cl : List β)
    (fc : Fc π β Q) (l : List β) : Prop where
  rep : Rep fc.que l
  parts : R enq (cl ++ (fc.bp.toList ++ l))

/-- After `ds_bp` has been fetched it is empty only if the queue is. -/
theorem fetch_parts (hR : Orders R) (hq : que.Keeps Rep R) (h : Parts Rep R enq cl fc l) :
    ∃ l', Parts Rep R enq cl (fetch que fc) l' ∧ ((fetch que fc).bp = none → l' = []) ∧
      (fetch que fc).outcnt = fc.outcnt := by
  unfold fetch
  cases hbp : fc.bp with
  | some b => exact ⟨l, h, fun hn => absurd (hbp.symm.trans hn) nofun, rfl⟩
  | none =>
      have hparts := h.parts
      rw [hbp, Option.toList_none, List.nil_append] at hparts
      dsimp only
      cases hd : (que.del fc.que).2 with
      | none =>
          rcases hq.del_none _ _ h.rep hd with ⟨rfl, hrep⟩
          exact ⟨[], ⟨hrep, hparts⟩, fun _ => rfl, rfl⟩
      | some b =>
          rcases hq.del_some _ _ _ h.rep hd with ⟨l', hrep, hl⟩
          exact ⟨l', ⟨hrep, hR.trans hparts (hR.left cl hl)⟩, nofun, rfl⟩

/-- A round of `deque` claims the buf in `ds_bp` and fetches the next one, or
    leaves it there. -/
theorem dequeRound_parts (f : Flc) (pkt : π → β → π × Bool) (hR : Orders R)
    (hq : que.Keeps Rep R) (h : Parts Rep R enq cl fc l) :
    ∃ l', ((dequeRound que f.full pkt fc).1.bp = none → l' = []) ∧
      match (dequeRound que f.full pkt fc).2 with
      | none => Parts Rep R enq cl (dequeRound que f.full pkt fc).1 l' ∧
          (dequeRound que f.full pkt fc).1.outcnt = fc.outcnt
      | some b => Parts Rep R enq (cl ++ [b]) (dequeRound que f.full pkt fc).1 l' ∧
          (dequeRound que f.full pkt fc).1.outcnt = fc.outcnt + 1 ∧ f.full fc.outcnt = false := by
  rcases fetch_parts hR hq h with ⟨l₁, h₁, hnil, hout⟩
  unfold dequeRound
  generalize fetch que fc = fc₁ at h₁ hnil hout ⊢
  dsimp only
  cases hbp : fc₁.bp with
  | none => exact ⟨l₁, hnil, h₁, hout⟩
  | some b =>
      have hparts := h₁.parts
      rw [hbp] at hparts
      -- Without a packet, or without room, the buf stays in `ds_bp`.
      dsimp only
      by_cases hp : (pkt fc₁.com b).2 = false
      · rw [if_pos hp]
        exact ⟨l₁, nofun, ⟨h₁.rep, hparts⟩, hout⟩
      · rw [if_neg hp]
        by_cases hfull : f.full fc₁.outcnt = true
        · rw [if_pos hfull]
          exact ⟨l₁, nofun, ⟨h₁.rep, hparts⟩, hout⟩
        · rw [if_neg hfull]
          have hroom : f.full fc.outcnt = false := by
            rw [← hout]
            simpa using hfull
          dsimp only
          cases hd : (que.del fc₁.que).2 with
          | none =>
              -- The buf is claimed, and there is no other to take its place.
              rcases hq.del_none _ _ h₁.rep hd with ⟨rfl, hrep⟩
              refine ⟨[], fun _ => rfl, ⟨hrep, ?_⟩, by rw [hout], hroom⟩
              simpa using hparts
          | some b' =>
              -- The next one moves up to `ds_bp`.
              rcases hq.del_some _ _ _ h₁.rep hd with ⟨l', hrep, hl⟩
              refine ⟨l', nofun, ⟨hrep, ?_⟩, by rw [hout], hroom⟩
              rw [List.append_assoc]
              exact hR.trans hparts (hR.left cl (hR.left [b] hl))

/-- `enque` puts the buf at the end of the queue, or claims it or leaves it in
    `ds_bp` if there is no other. -/
theorem enque_parts (pkt : π → β → π × Bool) (hR : Orders R) (hq : que.Keeps Rep R)
    (h : Parts Rep R enq cl fc l) {b : β} (hb : b ∉ l)
    (hroom : fc.bp = none → l ≠ [] → f.full fc.outcnt = true) :
    ∃ l', ((enque que f.full pkt fc b).1.bp = none → l' ≠ [] → f.full fc.outcnt = true) ∧
      match (enque que f.full pkt fc b).2 with
      | none => Parts Rep R (enq ++ [b]) cl (enque que f.full pkt fc b).1 l' ∧
          (enque que f.full pkt fc b).1.outcnt = fc.outcnt
      | some b' => b' = b ∧ Parts Rep R (enq ++ [b]) (cl ++ [b]) (enque que f.full pkt fc b).1 l' ∧
          (enque que f.full pkt fc b).1.outcnt = fc.outcnt + 1 ∧ f.full fc.outcnt = false := by
  have hparts := hR.right [b] h.parts
  unfold enque
  by_cases hfull : fc.bp.isSome ∨ f.full fc.outcnt = true
  · rw [if_pos hfull]
    rcases hq.add _ _ b h.rep hb with ⟨l', hrep, hl⟩
    refine ⟨l', fun hn _ => ?_, ⟨hrep, ?_⟩, rfl⟩
    · rcases hfull with hs | hf
      · rw [show fc.bp = none from hn] at hs
        cases hs
      · exact hf
    · rw [List.append_assoc, List.append_assoc] at hparts
      exact hR.trans hparts (hR.left cl (hR.left fc.bp.toList hl))
  · rw [if_neg hfull]
    rw [not_or] at hfull
    have hbp : fc.bp = none := by simpa using hfull.1
    have hf : f.full fc.outcnt = false := by simpa using hfull.2
    -- There is room, so the queue is empty.
    have hnil : l = [] := by
      by_contra hne
      rw [hroom hbp hne] at hf
      cases hf
    subst hnil
    rw [hbp, Option.toList_none, List.nil_append, List.append_nil] at hparts
    dsimp only
    by_cases hp : (pkt fc.com b).2 = true
    · rw [if_pos hp]
      refine ⟨[], fun _ hne => absurd rfl hne, rfl, ⟨h.rep, ?_⟩, rfl, hf⟩
      dsimp only
      rw [hbp, Option.toList_none, List.nil_append, List.append_nil]
      exact hparts
    · rw [if_neg hp]
      exact ⟨[], nofun, ⟨h.rep, hparts⟩, rfl⟩

end Sections

/-- The bufs that calls are to transport. -/
def pending {β : Type} (calls : List (FcCall β)) : List β :=
  calls.filterMap fun
    | .transport bp _ => some bp
    | .tryenter => none

@[simp] theorem pending_transport {β : Type} (bp : β) (loop : Bool) (calls : List (FcCall β)) :
    pending (.transport bp loop :: calls) = bp :: pending calls := rfl

@[simp] theorem pending_tryenter {β : Type} (calls : List (FcCall β)) :
    pending (.tryenter :: calls) = pending calls := rfl

theorem pending_append {β : Type} (calls calls' : List (FcCall β)) :
    pending (calls ++ calls') = pending calls ++ pending calls' :=
  List.filterMap_append

/-- What holds in a critical section of a flow control object. `out` are the bufs
    that have been claimed and not yet passed to `deque`. -/
structure FcMid {π β Q : Type} (Rep : Q → List β → Prop) (R : List β → List β → Prop) (f : Flc)
    (s : FcSys π β Q) (l out : List β) : Prop extends Parts Rep R s.enqueued s.claimed s.fc l where
  nodup : s.enqueued.Nodup
  claims : s.claimed.Perm (s.dequeued ++ out)
  outcnt : s.fc.outcnt = out.length
  limit : out.length ≤ f.limit
  sent : s.claimed.Perm (s.transported ++ pending s.calls)
  done : s.dequeued ⊆ s.transported

/-- The invariant: when the mutex is free, the next buf is in `ds_bp` or there is
    no room for it. -/
structure FcOk {π β Q : Type} (Rep : Q → List β → Prop) (R : List β → List β → Prop) (f : Flc)
    (s : FcSys π β Q) (l out : List β) : Prop extends FcMid Rep R f s l out where
  room : s.fc.bp = none → l ≠ [] → f.full s.fc.outcnt = true

section Invariant

variable {π β Q : Type} {que : Que β Q} {Rep : Q → List β → Prop} {R : List β → List β → Prop}
  {f : Flc} {ok : Fc π β Q → β → (π → β → π × Bool) → Prop} {s s' : FcSys π β Q} {l out : List β}

/-- There is room for one more. -/
theorem FcMid.lt_limit (h : FcMid Rep R f s l out) (hf : f.full s.fc.outcnt = false) :
    out.length < f.limit := by
  by_contra hn
  have hle : (f.limit : Int) ≤ s.fc.outcnt := by
    rw [h.outcnt]
    omega
  rw [(f.spec s.fc.outcnt (by rw [h.outcnt]; omega)).2 hle] at hf
  cases hf

/-- A buf is claimed. -/
theorem FcMid.claim (h : FcMid Rep R f s l out) (hf : f.full s.fc.outcnt = false) {b : β}
    {enq l' : List β} {fc : Fc π β Q} {loop : Bool} (hnd : enq.Nodup)
    (hparts : Parts Rep R enq (s.claimed ++ [b]) fc l') (hout : fc.outcnt = s.fc.outcnt + 1) :
    FcMid Rep R f { s with
      fc := fc, enqueued := enq, calls := .transport b loop :: s.calls
      claimed := s.claimed ++ [b] } l' (out ++ [b]) where
  rep := hparts.rep
  parts := hparts.parts
  nodup := hnd
  claims := by
    rw [← List.append_assoc]
    exact h.claims.append_right [b]
  outcnt := by
    dsimp only
    rw [hout, h.outcnt, List.length_append, List.length_singleton]
    omega
  limit := by
    have hlt := h.lt_limit hf
    rw [List.length_append, List.length_singleton]
    omega
  sent := by
    rw [pending_transport]
    refine (h.sent.append_right [b]).trans ?_
    rw [List.append_assoc]
    exact (@List.perm_append_comm _ (pending s.calls) [b]).append_left s.transported
  done := h.done

/-- A round of `deque` ends with the invariant. -/
theorem FcMid.round (hR : Orders R) (hq : que.Keeps Rep R) (h : FcMid Rep R f s l out)
    (pkt : π → β → π × Bool) :
    ∃ l' out', FcOk Rep R f (s.leave true (dequeRound que f.full pkt s.fc)) l' out' := by
  rcases dequeRound_parts f pkt hR hq h.toParts with ⟨l', hnil, hround⟩
  unfold FcSys.leave
  cases hb : (dequeRound que f.full pkt s.fc).2 with
  | none =>
      rw [hb] at hround
      rcases hround with ⟨hparts, hout⟩
      refine ⟨l', out, ⟨⟨hparts, h.nodup, h.claims, ?_, h.limit, h.sent, h.done⟩, ?_⟩⟩
      · exact hout.trans h.outcnt
      · exact fun hn hne => absurd (hnil hn) hne
  | some b =>
      rw [hb] at hround
      rcases hround with ⟨hparts, hout, hf⟩
      exact ⟨l', out ++ [b], ⟨h.claim hf h.nodup hparts hout, fun hn hne => absurd (hnil hn) hne⟩⟩

/-- A buf that has been transported and not yet passed to `deque` is
    outstanding. -/
theorem FcMid.outstanding (h : FcMid Rep R f s l out) {bp : β} (hsent : bp ∈ s.transported)
    (hnew : bp ∉ s.dequeued) : bp ∈ out := by
  have hcl : bp ∈ s.claimed := h.sent.mem_iff.2 (List.mem_append_left _ hsent)
  exact (List.mem_append.1 (h.claims.mem_iff.1 hcl)).resolve_left hnew

/-- The state of the object before the round does not matter otherwise. -/
theorem leave_fc (s : FcSys π β Q) (fc : Fc π β Q) (loop : Bool) (r : Fc π β Q × Option β) :
    FcSys.leave { s with fc := fc } loop r = s.leave loop r := by
  unfold FcSys.leave
  cases r.2 with
  | none => rfl
  | some b => rfl

/-- Every step keeps the invariant. -/
theorem FcStep.keeps (hR : Orders R) (hq : que.Keeps Rep R) (hst : FcStep que f ok s s')
    (h : FcOk Rep R f s l out) : ∃ l' out', FcOk Rep R f s' l' out' := by
  cases hst with
  | enque bp hnew pkt _ =>
      -- A new buf is not in the queue yet.
      have hmem : bp ∉ l := fun hb => hnew ((hR.perm h.parts).mem_iff.2
        (List.mem_append_right _ (List.mem_append_right _ hb)))
      have hnd : (s.enqueued ++ [bp]).Nodup := by
        rw [List.nodup_append_comm, List.singleton_append, List.nodup_cons]
        exact ⟨hnew, h.nodup⟩
      rcases enque_parts pkt hR hq h.toParts hmem h.room with ⟨l', hroom, henq⟩
      unfold FcSys.leave
      cases hb : (Disk.enque que f.full pkt s.fc bp).2 with
      | none =>
          rw [hb] at henq
          rcases henq with ⟨hparts, hout⟩
          refine ⟨l', out, ⟨⟨hparts, hnd, h.claims, hout.trans h.outcnt, h.limit, h.sent, h.done⟩,
            fun hn hne => ?_⟩⟩
          rw [show f.full _ = f.full s.fc.outcnt from congrArg f.full hout]
          exact hroom hn hne
      | some b =>
          rw [hb] at henq
          rcases henq with ⟨rfl, hparts, hout, hf⟩
          refine ⟨l', out ++ [b], ⟨h.claim hf hnd hparts hout, fun hn hne => ?_⟩⟩
          rw [hroom hn hne] at hf
          cases hf
  | transport bp loop a a' hcall =>
      refine ⟨l, out, ⟨⟨h.toParts, h.nodup, h.claims, h.outcnt, h.limit, ?_, ?_⟩, h.room⟩⟩
      -- The call is over, and its buf counts as transported.
      · have hsent := h.sent
        have hpend : pending (a ++ if loop then .tryenter :: a' else a') =
            pending a ++ pending a' := by
          rw [pending_append]
          cases loop
          · rfl
          · rfl
        dsimp only
        rw [hcall, pending_append, pending_transport] at hsent
        rw [hpend, List.append_assoc, List.singleton_append]
        exact hsent.trans (List.perm_middle.append_left s.transported)
      · exact fun x hx => List.mem_append_left _ (h.done hx)
  | busy a a' hcall =>
      refine ⟨l, out, ⟨⟨h.toParts, h.nodup, h.claims, h.outcnt, h.limit, ?_, h.done⟩, h.room⟩⟩
      have hsent := h.sent
      rw [hcall, pending_append, pending_tryenter, ← pending_append] at hsent
      exact hsent
  | again a a' hcall pkt _ =>
      have hsent := h.sent
      rw [hcall, pending_append, pending_tryenter, ← pending_append] at hsent
      have hmid : FcMid Rep R f { s with calls := a ++ a' } l out :=
        ⟨h.toParts, h.nodup, h.claims, h.outcnt, h.limit, hsent, h.done⟩
      exact hmid.round hR hq pkt
  | deque bp hbp hnew pkt _ =>
      rcases List.append_of_mem (h.outstanding hbp hnew) with ⟨a, a', rfl⟩
      have hlen := h.outcnt
      have hlim := h.limit
      rw [List.length_append, List.length_cons] at hlen hlim
      -- The buf is no longer outstanding; the rest of the step is a round of `deque`.
      have hmid : FcMid Rep R f
          { s with fc := release s.fc, dequeued := s.dequeued ++ [bp] } l (a ++ a') := by
        refine ⟨⟨h.rep, h.parts⟩, h.nodup, ?_, ?_, ?_, h.sent, ?_⟩
        · rw [List.append_assoc, List.singleton_append]
          exact h.claims.trans (List.perm_middle.append_left s.dequeued)
        · unfold release
          dsimp only
          rw [hlen, List.length_append]
          omega
        · rw [List.length_append]
          omega
        · intro x hx
          rcases List.mem_append.1 hx with hx | hx
          · exact h.done hx
          · rw [List.mem_singleton.1 hx]
            exact hbp
      have hround := hmid.round hR hq pkt
      rwa [leave_fc { s with dequeued := s.dequeued ++ [bp] }] at hround
  | restart pkt _ => exact h.toFcMid.round hR hq pkt

/-- The invariant holds in every reachable state. -/
theorem reachable_fcOk (hR : Orders R) (hq : que.Keeps Rep R)
    (h : Reachable (FcInit Rep) (FcStep que f ok) s) : ∃ l out, FcOk Rep R f s l out := by
  refine Reachable.invariant (I := fun s => ∃ l out, FcOk Rep R f s l out) ?_ ?_ h
  · rintro s₀ ⟨hbp, hcnt, hrep, hcalls, henq, hcl, htr, hdq⟩
    refine ⟨[], [], ⟨⟨⟨hrep, ?_⟩, ?_, ?_, hcnt, Nat.zero_le _, ?_, ?_⟩, fun _ hn => absurd rfl hn⟩⟩
    · rw [henq, hcl, hbp]
      exact hR.refl []
    · rw [henq]
      exact List.nodup_nil
    · rw [hcl, hdq]
      exact List.Perm.refl []
    · rw [hcl, htr, hcalls]
      exact List.Perm.refl []
    · rw [hdq]
      exact List.nil_subset _
  · rintro s₁ s₂ _ ⟨l, out, hok⟩ hst
    exact hst.keeps hR hq hok

/-- Nothing waits in `ds_bp` of an idle device. -/
def Fed (fc : Fc π β Q) : Prop :=
  fc.bp ≠ none → 0 < fc.outcnt

/-- The limit is not reached by an idle device. -/
theorem outcnt_pos_of_full (f : Flc) {n : Int} (h0 : 0 ≤ n) (hf : f.full n = true) : 0 < n := by
  have hle := (f.spec n h0).1 hf
  have hpos := f.pos
  omega

theorem fetch_outcnt (que : Que β Q) (fc : Fc π β Q) : (fetch que fc).outcnt = fc.outcnt := by
  unfold fetch
  cases fc.bp with
  | none => rfl
  | some b => rfl

/-- A round of `deque` leaves a buf in `ds_bp` only if a command is outstanding,
    as `TGCOM_PKT` does not fail otherwise. -/
theorem dequeRound_fed (hok : ∀ fc bp pkt, ok fc bp pkt → fc.outcnt = 0 → (pkt fc.com bp).2 = true)
    {fc : Fc π β Q} (h0 : 0 ≤ fc.outcnt) {pkt : π → β → π × Bool}
    (hpkt : ∀ bp, (fetch que fc).bp = some bp → ok (fetch que fc) bp pkt) :
    Fed (dequeRound que f.full pkt fc).1 := by
  -- Fetching a buf does not count, so the count is that before the round.
  have hout := fetch_outcnt que fc
  unfold dequeRound
  generalize fetch que fc = fc₁ at hpkt hout ⊢
  dsimp only
  rw [← hout] at h0
  cases hb : fc₁.bp with
  | none => exact fun hn => absurd hb hn
  | some bp =>
      dsimp only
      split
      · next hfail =>
        intro _
        by_contra hn
        -- An idle device gets its packet.
        have hzero : fc₁.outcnt = 0 := by
          dsimp only at hn
          omega
        rw [hok _ _ _ (hpkt bp hb) hzero] at hfail
        cases hfail
      split
      · next hfull => exact fun _ => outcnt_pos_of_full f h0 hfull
      · intro _
        dsimp only
        omega

theorem leave_bp (s : FcSys π β Q) (loop : Bool) (r : Fc π β Q × Option β) :
    (s.leave loop r).fc = r.1 := by
  unfold FcSys.leave
  cases r.2 with
  | none => rfl
  | some b => rfl

/-- No step leaves a buf waiting in `ds_bp` of an idle device. -/
theorem FcStep.fed (hok : ∀ fc bp pkt, ok fc bp pkt → fc.outcnt = 0 → (pkt fc.com bp).2 = true)
    (hst : FcStep que f ok s s') (h : FcOk Rep R f s l out) (hf : Fed s.fc) : Fed s'.fc := by
  have h0 : 0 ≤ s.fc.outcnt := by
    rw [h.outcnt]
    exact Int.natCast_nonneg _
  cases hst with
  | enque bp hnew pkt hpkt =>
      rw [leave_bp]
      unfold Disk.enque
      split
      · exact hf
      · next hroom =>
        rw [not_or, Bool.not_eq_true, Bool.not_eq_true, Option.isSome_eq_false_iff,
          Option.isNone_iff_eq_none] at hroom
        dsimp only
        split
        · exact fun hn => absurd hroom.1 hn
        · next hfail =>
          intro _
          by_contra hn
          have hzero : s.fc.outcnt = 0 := by
            dsimp only at hn
            omega
          exact hfail (hok _ _ _ (hpkt hroom.1 hroom.2) hzero)
  | transport bp loop a a' hcall => exact hf
  | busy a a' hcall => exact hf
  | again a a' hcall pkt hpkt =>
      rw [leave_bp]
      exact dequeRound_fed hok h0 hpkt
  | deque bp hsent hnew pkt hpkt =>
      rw [leave_bp]
      refine dequeRound_fed hok ?_ hpkt
      -- The buf is one of those outstanding, so the count does not become negative.
      have hpos := List.length_pos_of_mem (h.outstanding hsent hnew)
      have hcnt := h.outcnt
      unfold release
      dsimp only
      omega
  | restart pkt hpkt =>
      rw [leave_bp]
      exact dequeRound_fed hok h0 hpkt

end Invariant

/-- No buf is lost, and no more are outstanding than allowed. -/
structure FcSafe {π β Q : Type} [DecidableEq β] (Rep : Q → List β → Prop) (f : Flc)
    (s : FcSys π β Q) : Prop where
  outcnt : s.fc.outcnt = (s.claimed.filter fun b => decide (b ∉ s.dequeued)).length
  bounds : 0 ≤ s.fc.outcnt ∧ s.fc.outcnt ≤ f.limit
  place : s.enqueued.Nodup ∧ ∃ l, Rep s.fc.que l ∧
    s.enqueued.Perm (s.claimed ++ (s.fc.bp.toList ++ l)) ∧
    (s.fc.bp = none → l ≠ [] → s.fc.outcnt = f.limit)
  once : s.transported.Nodup ∧ s.transported ⊆ s.claimed

theorem FcOk.safe {π β Q : Type} [DecidableEq β] {Rep : Q → List β → Prop} {f : Flc}
    {s : FcSys π β Q} {l out : List β} (h : FcOk Rep List.Perm f s l out) : FcSafe Rep f s := by
  have hcl : s.claimed.Nodup := (List.nodup_append.1 (h.parts.nodup_iff.1 h.nodup)).1
  have hdis := List.nodup_append.1 (h.claims.nodup_iff.1 hcl)
  have hsent := List.nodup_append.1 (h.sent.nodup_iff.1 hcl)
  refine ⟨?_, ?_, ⟨h.nodup, l, h.rep, h.parts, fun hn hne => ?_⟩, hsent.1, fun b hb => ?_⟩
  · have hin : s.dequeued.filter (fun b => decide (b ∉ s.dequeued)) = [] := by
      rw [List.filter_eq_nil_iff]
      intro b hb
      simpa using hb
    have hnot : out.filter (fun b => decide (b ∉ s.dequeued)) = out := by
      rw [List.filter_eq_self]
      intro b hb
      simpa using fun hd => hdis.2.2 b hd b hb rfl
    have hfil := h.claims.filter fun b => decide (b ∉ s.dequeued)
    rw [List.filter_append, hin, hnot, List.nil_append] at hfil
    rw [h.outcnt, hfil.length_eq]
  · have hlim := h.limit
    rw [h.outcnt]
    omega
  · have hlim := h.limit
    have hle := (f.spec s.fc.outcnt (by rw [h.outcnt]; omega)).1 (h.room hn hne)
    rw [h.outcnt] at hle ⊢
    omega
  · exact h.sent.mem_iff.2 (List.mem_append_left _ hb)

/-- Flow control neither overruns nor loses a buf. For `dsngl`, `dmult` or any
    other limit, a queue that loses nothing, any interleaving of the calls and
    anything `TGCOM_PKT` does: `ds_outcnt` is the number of bufs claimed and not
    yet passed to `deque`, and at most the limit; every buf enqueued is in one
    place, and is transported once; when the mutex is free and `ds_bp` is empty,
    the queue is empty or the limit is reached. With `qfifo` the bufs are claimed
    in the order in which they were enqueued. -/
theorem flow_control_sound (f : Flc) :
    (∀ {π β Q : Type} [DecidableEq β] (que : Que β Q) (Rep : Q → List β → Prop),
      que.Keeps Rep List.Perm → ∀ s : FcSys π β Q,
        Reachable (FcInit Rep) (FcStep que f fun _ _ _ => True) s → FcSafe Rep f s) ∧
    (∀ {π β : Type} [DecidableEq β] (s : FcSys π β (QueTab β)),
      Reachable (FcInit QueTab.Holds) (FcStep qfifo f fun _ _ _ => True) s →
        s.claimed <+: s.enqueued) := by
  refine ⟨fun que Rep hq s hs => ?_, fun s hs => ?_⟩
  · rcases reachable_fcOk orders_perm hq hs with ⟨l, out, hok⟩
    exact hok.safe
  · rcases reachable_fcOk orders_eq qfifo_keeps hs with ⟨l, out, hok⟩
    rw [hok.parts]
    exact List.prefix_append _ _

/-- Nothing is enqueued. -/
def idleFc : FcSys Unit Nat (QueTab Nat) where
  fc := ⟨none, 0, ⟨none, none, fun _ => none⟩, ()⟩
  calls := []
  enqueued := []
  claimed := []
  transported := []
  dequeued := []

/-- Two bufs with `dsngl`: the second one has to wait. -/
theorem flow_control_sound_waiting : ∃ s : FcSys Unit Nat (QueTab Nat),
    s.enqueued = [1, 2] ∧ s.claimed = [1] ∧ FcSafe QueTab.Holds dsngl s ∧
      s.claimed <+: s.enqueued := by
  have hinit : FcInit QueTab.Holds idleFc :=
    ⟨rfl, rfl, ⟨rfl, rfl, List.nodup_nil⟩, rfl, rfl, rfl, rfl, rfl⟩
  have hone : Reachable (FcInit QueTab.Holds) (FcStep qfifo dsngl fun _ _ _ => True) _ :=
    (Reachable.initial hinit).tail
      (.enque idleFc 1 (by decide) (fun u _ => (u, true)) fun _ _ => trivial)
  have htwo := hone.tail (.enque _ 2 (by decide) (fun u _ => (u, true)) fun _ _ => trivial)
  exact ⟨_, rfl, rfl, (flow_control_sound dsngl).1 qfifo QueTab.Holds qfifo_keeps.perm _ htwo,
    (flow_control_sound dsngl).2 _ htwo⟩

end Disk

end Sil3112
