import Mathlib.Data.List.Count
import Mathlib.Tactic.Ring
import Sil3112.Disk.Strategy

/-!
# The Statistics of Flow Control

The critical sections of `dsngl` and `dmult` also count for `kstat`: a buf enters
the wait queue when it is enqueued, moves to the run queue when it is claimed, and
leaves the run queue in `deque`, where its bytes are added up. The counters exist
from `fc_start_kstat` to `fc_stop_kstat`. The first open of a disk starts them,
and nothing makes it wait for bufs that are under way.

So the counters say how far the queues have moved since they were started, and
they wrap around if bufs from before are finished. They are the lengths of the
queues if there were none.

The sections with their counters are those of `Disk.Strategy` when the counters
are ignored, and everything shown there holds here.

## Main definitions

* `KstatIo`: The counters, with the operations of `kstat`.
* `KFc`, `kenque`, `kdequeRound`, `krelease`: The critical sections.
* `KsSys`, `KsStep`: The calls in progress, and the steps that start and stop the
  counters.
* `KsCounts`: What the counters say.

## Theorems

* `KsStep.erase`: Without the counters a step is one of `FcStep`, or none.
* `KsStep.keeps`: Every step keeps the counters right.
* `kstat_accounting`: The counters are those of the queues.
-/

namespace Sil3112

namespace Disk

open Transition

/-! ## The counters -/

/-- The counts of a `kstat_io_t`, `u_longlong_t` and `uint_t`. -/
@[ext] structure KstatIo where
  nread : BitVec 64
  nwritten : BitVec 64
  reads : BitVec 32
  writes : BitVec 32
  wcnt : BitVec 32
  rcnt : BitVec 32
deriving DecidableEq

/-- What `kstat_create` returns. -/
def KstatIo.zero : KstatIo := ⟨0, 0, 0, 0, 0, 0⟩

/-- `kstat_waitq_enter` -/
def KstatIo.waitqEnter (k : KstatIo) : KstatIo := { k with wcnt := k.wcnt + 1 }

/-- `kstat_waitq_to_runq` -/
def KstatIo.waitqToRunq (k : KstatIo) : KstatIo :=
  { k with wcnt := k.wcnt - 1, rcnt := k.rcnt + 1 }

/-- `kstat_runq_exit` -/
def KstatIo.runqExit (k : KstatIo) : KstatIo := { k with rcnt := k.rcnt - 1 }

/-- What `deque` reads of a buf: `b_flags & B_READ`, `b_bcount` and `b_resid`. -/
structure Xfer where
  read : Bool
  bcount : BitVec 64
  resid : BitVec 64

/-- The bytes that were transferred. -/
def Xfer.bytes (x : Xfer) : BitVec 64 := x.bcount - x.resid

/-- The bytes of several bufs. -/
def Xfer.total (done : List Xfer) : BitVec 64 := done.foldl (fun n x => n + x.bytes) 0

/-- The statistics in `deque` for a buf that is done. -/
def KstatIo.finish (k : KstatIo) (x : Xfer) : KstatIo :=
  KstatIo.runqExit (if x.read then { k with reads := k.reads + 1, nread := k.nread + x.bytes }
    else { k with writes := k.writes + 1, nwritten := k.nwritten + x.bytes })

/-! ## The critical sections -/

/-- `struct fc_data` with `ds_kstat`. -/
structure KFc (π β Q : Type) where
  fc : Fc π β Q
  kstat : Option KstatIo

section Critical

variable {π β Q : Type} (que : Que β Q) (full : Int → Bool) (pkt : π → β → π × Bool)

/-- `enque` up to the transport. -/
def kenque (s : KFc π β Q) (inBp : β) : KFc π β Q × Option β :=
  if s.fc.bp.isSome ∨ full s.fc.outcnt then
    (⟨{ s.fc with que := que.add s.fc.que inBp }, s.kstat.map KstatIo.waitqEnter⟩, none)
  else
    let kstat := s.kstat.map KstatIo.waitqEnter
    let r := pkt s.fc.com inBp
    let fc := { s.fc with com := r.1 }
    if r.2 = false then (⟨{ fc with bp := some inBp }, kstat⟩, none)
    else (⟨{ fc with outcnt := fc.outcnt + 1 }, kstat.map KstatIo.waitqToRunq⟩, some inBp)

/-- One round of the loop of `deque`, up to the transport. -/
def kdequeRound (s : KFc π β Q) : KFc π β Q × Option β :=
  let fc := fetch que s.fc
  match fc.bp with
  | none => (⟨fc, s.kstat⟩, none)
  | some bp =>
    let r := pkt fc.com bp
    let fc := { fc with com := r.1 }
    if r.2 = false then (⟨fc, s.kstat⟩, none)
    else if full fc.outcnt then (⟨fc, s.kstat⟩, none)
    else
      let d := que.del fc.que
      (⟨{ fc with outcnt := fc.outcnt + 1, que := d.1, bp := d.2 },
        s.kstat.map KstatIo.waitqToRunq⟩, some bp)

/-- The beginning of `deque` for a buf that is done. -/
def krelease (s : KFc π β Q) (x : Xfer) : KFc π β Q :=
  ⟨release s.fc, s.kstat.map (KstatIo.finish · x)⟩

/-- `fc_start_kstat`, if `kstat_create` succeeds or not. -/
def fcStartKstat (s : KFc π β Q) (created : Bool) : KFc π β Q :=
  match s.kstat with
  | some _ => s
  | none => { s with kstat := if created then some KstatIo.zero else none }

/-- `fc_stop_kstat` -/
def fcStopKstat (s : KFc π β Q) : KFc π β Q := { s with kstat := none }

/-- `enque` is that of the model without counters, and its buf enters the wait
    queue, and moves on if it is claimed. -/
theorem kenque_spec (s : KFc π β Q) (bp : β) :
    ((kenque que full pkt s bp).1.fc, (kenque que full pkt s bp).2) = enque que full pkt s.fc bp ∧
      (kenque que full pkt s bp).1.kstat = match (enque que full pkt s.fc bp).2 with
        | none => s.kstat.map KstatIo.waitqEnter
        | some _ => (s.kstat.map KstatIo.waitqEnter).map KstatIo.waitqToRunq := by
  unfold kenque enque
  by_cases hfull : s.fc.bp.isSome ∨ full s.fc.outcnt = true
  · rw [if_pos hfull, if_pos hfull]
    exact ⟨rfl, rfl⟩
  · rw [if_neg hfull, if_neg hfull]
    dsimp only
    -- The source tests for failure, the other model for success.
    cases hp : (pkt s.fc.com bp).2 with
    | false =>
        rw [if_pos rfl, if_neg Bool.false_ne_true]
        exact ⟨rfl, rfl⟩
    | true =>
        rw [if_neg (Bool.noConfusion), if_pos rfl]
        exact ⟨rfl, rfl⟩

/-- The same of a round of `deque`, which moves the buf it claims. -/
theorem kdequeRound_spec (s : KFc π β Q) :
    ((kdequeRound que full pkt s).1.fc, (kdequeRound que full pkt s).2) =
        dequeRound que full pkt s.fc ∧
      (kdequeRound que full pkt s).1.kstat = match (dequeRound que full pkt s.fc).2 with
        | none => s.kstat
        | some _ => s.kstat.map KstatIo.waitqToRunq := by
  unfold kdequeRound dequeRound
  generalize fetch que s.fc = fc
  dsimp only
  cases fc.bp with
  | none => exact ⟨rfl, rfl⟩
  | some bp =>
      dsimp only
      split
      · exact ⟨rfl, rfl⟩
      · split
        · exact ⟨rfl, rfl⟩
        · exact ⟨rfl, rfl⟩

end Critical

/-! ## What the counters say -/

/-- The counters for queues that have become `w` and `r` longer, when the bufs
    `done` have been finished. -/
structure KsCounts (w r : Int) (done : List Xfer) (k : KstatIo) : Prop where
  wcnt : k.wcnt = BitVec.ofInt 32 w
  rcnt : k.rcnt = BitVec.ofInt 32 r
  reads : k.reads = BitVec.ofNat 32 (done.filter (·.read)).length
  writes : k.writes = BitVec.ofNat 32 (done.filter (!·.read)).length
  nread : k.nread = Xfer.total (done.filter (·.read))
  nwritten : k.nwritten = Xfer.total (done.filter (!·.read))

section Counts

variable {w r : Int} {done : List Xfer} {k : KstatIo}

theorem ofInt_succ (i : Int) : BitVec.ofInt 32 (i + 1) = BitVec.ofInt 32 i + 1 :=
  BitVec.ofInt_add i 1

theorem ofInt_pred (i : Int) : BitVec.ofInt 32 (i - 1) = BitVec.ofInt 32 i - 1 := by
  have h := ofInt_succ (i - 1)
  rw [Int.sub_add_cancel] at h
  rw [h, BitVec.add_sub_cancel]

/-- New counters are zero, whatever the queues are. -/
theorem ksCounts_zero : KsCounts 0 0 [] KstatIo.zero :=
  ⟨rfl, rfl, rfl, rfl, rfl, rfl⟩

theorem KsCounts.enter (h : KsCounts w r done k) : KsCounts (w + 1) r done k.waitqEnter :=
  { h with wcnt := by rw [ofInt_succ, ← h.wcnt]; rfl }

theorem KsCounts.move (h : KsCounts w r done k) :
    KsCounts (w - 1) (r + 1) done k.waitqToRunq :=
  { h with
    wcnt := by rw [ofInt_pred, ← h.wcnt]; rfl
    rcnt := by rw [ofInt_succ, ← h.rcnt]; rfl }

/-- The numbers of a list with one more element that is counted. -/
theorem count_snoc (p : Xfer → Bool) (done : List Xfer) {x : Xfer} (hx : p x = true) :
    BitVec.ofNat 32 ((done ++ [x]).filter p).length =
        BitVec.ofNat 32 (done.filter p).length + 1 ∧
      Xfer.total ((done ++ [x]).filter p) = Xfer.total (done.filter p) + x.bytes := by
  rw [List.filter_append, List.filter_cons_of_pos hx, List.filter_nil]
  constructor
  · rw [List.length_append, List.length_singleton, BitVec.ofNat_add]
    rfl
  · unfold Xfer.total
    rw [List.foldl_append, List.foldl_cons, List.foldl_nil]

/-- An element that is not counted changes nothing. -/
theorem filter_snoc (p : Xfer → Bool) (done : List Xfer) {x : Xfer} (hx : p x = false) :
    (done ++ [x]).filter p = done.filter p := by
  rw [List.filter_append, List.filter_cons_of_neg (by rw [hx]; exact Bool.false_ne_true),
    List.filter_nil, List.append_nil]

theorem KsCounts.finish (h : KsCounts w r done k) (x : Xfer) :
    KsCounts w (r - 1) (done ++ [x]) (k.finish x) := by
  unfold KstatIo.finish
  cases hx : x.read with
  | true =>
      -- A read: the counts of the writes stay.
      have hsn := count_snoc (·.read) done hx
      have hws := filter_snoc (!·.read) done (x := x) (by rw [hx]; rfl)
      refine ⟨h.wcnt, by rw [ofInt_pred, ← h.rcnt]; rfl, ?_, ?_, ?_, ?_⟩
      · rw [hsn.1, ← h.reads]
        rfl
      · rw [hws, ← h.writes]
        rfl
      · rw [hsn.2, ← h.nread]
        rfl
      · rw [hws, ← h.nwritten]
        rfl
  | false =>
      have hsn := count_snoc (!·.read) done (x := x) (by rw [hx]; rfl)
      have hrs := filter_snoc (·.read) done hx
      refine ⟨h.wcnt, by rw [ofInt_pred, ← h.rcnt]; rfl, ?_, ?_, ?_, ?_⟩
      · rw [hrs, ← h.reads]
        rfl
      · rw [hsn.1, ← h.writes]
        rfl
      · rw [hrs, ← h.nread]
        rfl
      · rw [hsn.2, ← h.nwritten]
        rfl

end Counts

/-! ## The calls in progress -/

/-- A flow control object with its calls and its counters. `waited` and `ran` are
    the lengths of the two queues when the counters were started, and `done` are
    the bufs that `deque` has finished since. -/
structure KsSys (π β Q : Type) where
  sys : FcSys π β Q
  kstat : Option KstatIo
  waited : Int
  ran : Int
  done : List Xfer

section Runs

variable {π β Q : Type}

/-- The number of bufs in `ds_bp` and in the queue. -/
def waiting (s : FcSys π β Q) : Int := s.enqueued.length - s.claimed.length

def KsSys.kfc (s : KsSys π β Q) : KFc π β Q := ⟨s.sys.fc, s.kstat⟩

/-- The end of a critical section. -/
def KsSys.leave (s : KsSys π β Q) (loop : Bool) (r : KFc π β Q × Option β) : KsSys π β Q :=
  { s with sys := s.sys.leave loop (r.1.fc, r.2), kstat := r.1.kstat }

/-- The history begins with new counters. -/
def KsSys.mark (s : KsSys π β Q) : KsSys π β Q :=
  match s.kstat with
  | some _ => s
  | none => { s with waited := waiting s.sys, ran := s.sys.fc.outcnt, done := [] }

/-- The steps of all the calls, those to the counters among them. -/
inductive KsStep (que : Que β Q) (f : Flc) : KsSys π β Q → KsSys π β Q → Prop where
  | enque (s : KsSys π β Q) (bp : β) (hnew : bp ∉ s.sys.enqueued) (pkt : π → β → π × Bool) :
      KsStep que f s
        (KsSys.leave { s with sys := { s.sys with enqueued := s.sys.enqueued ++ [bp] } } false
          (kenque que f.full pkt s.kfc bp))
  | transport (s : KsSys π β Q) (bp : β) (loop : Bool) (l l' : List (FcCall β))
      (hcall : s.sys.calls = l ++ .transport bp loop :: l') :
      KsStep que f s { s with sys := { s.sys with
        calls := l ++ (if loop then .tryenter :: l' else l')
        transported := s.sys.transported ++ [bp] } }
  | busy (s : KsSys π β Q) (l l' : List (FcCall β))
      (hcall : s.sys.calls = l ++ .tryenter :: l') :
      KsStep que f s { s with sys := { s.sys with calls := l ++ l' } }
  | again (s : KsSys π β Q) (l l' : List (FcCall β))
      (hcall : s.sys.calls = l ++ .tryenter :: l') (pkt : π → β → π × Bool) :
      KsStep que f s
        (KsSys.leave { s with sys := { s.sys with calls := l ++ l' } } true
          (kdequeRound que f.full pkt s.kfc))
  | deque (s : KsSys π β Q) (bp : β) (hsent : bp ∈ s.sys.transported)
      (hnew : bp ∉ s.sys.dequeued) (x : Xfer) (pkt : π → β → π × Bool) :
      KsStep que f s
        (KsSys.leave
          { s with
            sys := { s.sys with dequeued := s.sys.dequeued ++ [bp] }
            done := s.done ++ [x] } true
          (kdequeRound que f.full pkt (krelease s.kfc x)))
  | restart (s : KsSys π β Q) (pkt : π → β → π × Bool) :
      KsStep que f s (KsSys.leave s true (kdequeRound que f.full pkt s.kfc))
  | start (s : KsSys π β Q) (created : Bool) :
      KsStep que f s { s.mark with kstat := (fcStartKstat s.kfc created).kstat }
  | stop (s : KsSys π β Q) :
      KsStep que f s { s with kstat := (fcStopKstat s.kfc).kstat }

/-- Nothing has been enqueued, and the counters have not been started. -/
def KsInit (Rep : Q → List β → Prop) (s : KsSys π β Q) : Prop :=
  FcInit Rep s.sys ∧ s.kstat = none

variable {que : Que β Q} {Rep : Q → List β → Prop} {f : Flc} {s s' : KsSys π β Q}

theorem mark_sys (s : KsSys π β Q) : s.mark.sys = s.sys := by
  unfold KsSys.mark
  cases s.kstat with
  | none => rfl
  | some k => rfl

/-- Without the counters a step is one of the flow control object, and starting
    and stopping the counters is none. -/
theorem KsStep.erase (hst : KsStep que f s s') :
    FcStep que f (fun _ _ _ => True) s.sys s'.sys ∨ s'.sys = s.sys := by
  cases hst with
  | enque bp hnew pkt =>
      refine Or.inl ?_
      unfold KsSys.leave
      rw [(kenque_spec que f.full pkt s.kfc bp).1]
      exact FcStep.enque s.sys bp hnew pkt fun _ _ => trivial
  | transport bp loop l l' hcall => exact Or.inl (FcStep.transport s.sys bp loop l l' hcall)
  | busy l l' hcall => exact Or.inl (FcStep.busy s.sys l l' hcall)
  | again l l' hcall pkt =>
      refine Or.inl ?_
      unfold KsSys.leave
      rw [(kdequeRound_spec que f.full pkt s.kfc).1]
      exact FcStep.again s.sys l l' hcall pkt fun _ _ => trivial
  | deque bp hsent hnew x pkt =>
      refine Or.inl ?_
      unfold KsSys.leave
      rw [(kdequeRound_spec que f.full pkt (krelease s.kfc x)).1]
      exact FcStep.deque s.sys bp hsent hnew pkt fun _ _ => trivial
  | restart pkt =>
      refine Or.inl ?_
      unfold KsSys.leave
      rw [(kdequeRound_spec que f.full pkt s.kfc).1]
      exact FcStep.restart s.sys pkt fun _ _ => trivial
  | start created => exact Or.inr (mark_sys s)
  | stop => exact Or.inr rfl

/-- A run with counters is a run without. -/
theorem reachable_erase (h : Reachable (KsInit Rep) (KsStep que f) s) :
    Reachable (FcInit Rep) (FcStep que f fun _ _ _ => True) s.sys := by
  refine Reachable.invariant (I := fun s => Reachable (FcInit Rep) _ s.sys)
    (fun s₀ h₀ => Reachable.initial h₀.1) (fun s₁ s₂ _ hI hst => ?_) h
  rcases hst.erase with hfc | heq
  · exact hI.tail hfc
  · rw [heq]
    exact hI

/-! ## The invariant -/

/-- The counters are those of the time since they were started. -/
def KsOk (s : KsSys π β Q) : Prop :=
  ∀ k, s.kstat = some k →
    KsCounts (waiting s.sys - s.waited) (s.sys.fc.outcnt - s.ran) s.done k

/-- A claimed buf is one more outstanding. -/
theorem enque_outcnt (que : Que β Q) (full : Int → Bool) (pkt : π → β → π × Bool)
    (fc : Fc π β Q) (bp : β) :
    (enque que full pkt fc bp).1.outcnt =
      fc.outcnt + ((enque que full pkt fc bp).2.toList.length : Int) := by
  unfold enque
  split
  · exact (Int.add_zero _).symm
  · dsimp only
    split
    · rfl
    · exact (Int.add_zero _).symm

theorem dequeRound_outcnt (que : Que β Q) (full : Int → Bool) (pkt : π → β → π × Bool)
    (fc : Fc π β Q) :
    (dequeRound que full pkt fc).1.outcnt =
      fc.outcnt + ((dequeRound que full pkt fc).2.toList.length : Int) := by
  have hout := fetch_outcnt que fc
  unfold dequeRound
  generalize fetch que fc = fc₁ at hout ⊢
  dsimp only
  cases fc₁.bp with
  | none => exact hout.trans (Int.add_zero _).symm
  | some bp =>
      dsimp only
      split
      · exact hout.trans (Int.add_zero _).symm
      · split
        · exact hout.trans (Int.add_zero _).symm
        · exact congrArg (· + 1) hout

/-- The number of bufs that wait after a critical section. -/
theorem waiting_leave (s : FcSys π β Q) (loop : Bool) (r : Fc π β Q × Option β) :
    waiting (s.leave loop r) = waiting s - (r.2.toList.length : Int) := by
  unfold FcSys.leave waiting
  cases r.2 with
  | none => exact (Int.sub_zero _).symm
  | some b =>
      dsimp only
      rw [List.length_append, Option.toList_some, List.length_singleton]
      omega

/-- The end of a critical section. If the counters `ks` are right for the state it
    began with, except that `w` more bufs wait and `r` more are outstanding, the
    move of the buf it claims makes them right for the state it leaves. -/
theorem KsOk.leave {loop : Bool} {kr : KFc π β Q × Option β} {r : Fc π β Q × Option β}
    {out : Int} (ks : Option KstatIo)
    (hk : ∀ k, ks = some k → KsCounts (waiting s.sys - s.waited) (out - s.ran) s.done k)
    (hr : (kr.1.fc, kr.2) = r)
    (hkstat : kr.1.kstat = match (r.2 : Option β) with
      | none => ks
      | some _ => ks.map KstatIo.waitqToRunq)
    (hout : r.1.outcnt = out + (r.2.toList.length : Int)) : KsOk (s.leave loop kr) := by
  intro k hsome
  have hfc := leave_bp s.sys loop r
  have hw := waiting_leave s.sys loop r
  subst hr
  unfold KsSys.leave at hsome ⊢
  dsimp only at hsome hkstat hfc hw hout ⊢
  rw [hfc, hw, hout]
  rw [hsome] at hkstat
  cases hb : kr.2 with
  | none =>
      rw [hb] at hkstat
      have hc := hk k hkstat.symm
      simpa using hc
  | some b =>
      rw [hb] at hkstat
      cases hks : ks with
      | none =>
          rw [hks] at hkstat
          cases hkstat
      | some k₀ =>
          rw [hks] at hkstat
          cases hkstat
          have hc := (hk k₀ hks).move
          rw [Option.toList_some, List.length_singleton]
          convert hc using 1 <;> push_cast <;> ring

/-- Every step keeps the counters right. -/
theorem KsStep.keeps (hst : KsStep que f s s') (h : KsOk s) : KsOk s' := by
  cases hst with
  | enque bp hnew pkt =>
      -- The buf has entered the wait queue before it can be claimed.
      have hspec := kenque_spec que f.full pkt s.kfc bp
      refine KsOk.leave (s.kstat.map KstatIo.waitqEnter) ?_ hspec.1 hspec.2
        (enque_outcnt que f.full pkt s.sys.fc bp)
      intro k hk
      rcases Option.map_eq_some_iff.1 hk with ⟨k₀, hk₀, rfl⟩
      have hc := (h k₀ hk₀).enter
      have hw : waiting { s.sys with enqueued := s.sys.enqueued ++ [bp] } - s.waited =
          waiting s.sys - s.waited + 1 := by
        unfold waiting
        dsimp only
        rw [List.length_append, List.length_singleton]
        omega
      dsimp only
      rw [hw]
      exact hc
  | transport bp loop l l' hcall => exact h
  | busy l l' hcall => exact h
  | again l l' hcall pkt =>
      have hspec := kdequeRound_spec que f.full pkt s.kfc
      exact KsOk.leave (s := { s with sys := { s.sys with calls := l ++ l' } }) s.kstat h hspec.1
        hspec.2 (dequeRound_outcnt que f.full pkt s.sys.fc)
  | deque bp hsent hnew x pkt =>
      -- The buf leaves the run queue, and the round goes on from there.
      have hspec := kdequeRound_spec que f.full pkt (krelease s.kfc x)
      refine KsOk.leave (s.kstat.map (KstatIo.finish · x)) ?_ hspec.1 hspec.2
        (dequeRound_outcnt que f.full pkt (release s.sys.fc))
      intro k hk
      rcases Option.map_eq_some_iff.1 hk with ⟨k₀, hk₀, rfl⟩
      have hc := (h k₀ hk₀).finish x
      have hr : (release s.sys.fc).outcnt - s.ran = s.sys.fc.outcnt - s.ran - 1 := by
        unfold release
        dsimp only
        omega
      dsimp only
      rw [hr]
      exact hc
  | restart pkt =>
      have hspec := kdequeRound_spec que f.full pkt s.kfc
      exact KsOk.leave s.kstat h hspec.1 hspec.2 (dequeRound_outcnt que f.full pkt s.sys.fc)
  | start created =>
      intro k hk
      unfold KsSys.mark fcStartKstat KsSys.kfc at *
      cases hs : s.kstat with
      | some k₀ =>
          rw [hs] at hk
          cases hk
          exact h k hs
      | none =>
          rw [hs] at hk
          cases created with
          | false => cases hk
          | true =>
              cases hk
              dsimp only
              rw [Int.sub_self, Int.sub_self]
              exact ksCounts_zero
  | stop => exact nofun

/-- The counters are right in every reachable state. -/
theorem reachable_ksOk (h : Reachable (KsInit Rep) (KsStep que f) s) : KsOk s := by
  refine Reachable.invariant (I := KsOk) ?_ (fun _ _ _ hI hst => hst.keeps hI) h
  rintro s₀ ⟨_, hnone⟩ k hk
  rw [hnone] at hk
  cases hk

/-- The number of bufs that wait is that of `ds_bp` and the queue. -/
theorem Parts.waiting {R : List β → List β → Prop} {l : List β} (hR : Orders R)
    (h : Parts Rep R s.sys.enqueued s.sys.claimed s.sys.fc l) :
    waiting s.sys = ((s.sys.fc.bp.toList ++ l).length : Int) := by
  have hlen := (hR.perm h.parts).length_eq
  unfold Disk.waiting
  rw [List.length_append] at hlen
  omega

/-- A counter that is the length of a queue, as a number. -/
theorem toNat_ofInt_natCast (n : Nat) : (BitVec.ofInt 32 (n : Int)).toNat = n % 2 ^ 32 := by
  rw [BitVec.ofInt_natCast, BitVec.toNat_ofNat]

/-- The statistics of flow control are right, and they do not interfere. For
    `dsngl`, `dmult` or any other limit, a queue that loses nothing, any
    interleaving of the calls, with the counters started and stopped at any time:
    what holds without the counters holds with them, and the counters are what the
    queues have become longer since they were started, modulo 2^32, with the
    number and the bytes of the reads and writes finished since. If no buf was
    waiting or outstanding then, the run count is `ds_outcnt`, and the wait count
    is the number of bufs in `ds_bp` and in the queue. -/
theorem kstat_accounting [DecidableEq β] (hq : que.Keeps Rep List.Perm)
    (hs : Reachable (KsInit Rep) (KsStep que f) s) :
    FcSafe Rep f s.sys ∧ ∀ k, s.kstat = some k →
      KsCounts (waiting s.sys - s.waited) (s.sys.fc.outcnt - s.ran) s.done k ∧
      (s.waited = 0 → s.ran = 0 → f.limit < 2 ^ 32 →
        (k.rcnt.toNat : Int) = s.sys.fc.outcnt ∧
        ∃ l, Rep s.sys.fc.que l ∧
          k.wcnt.toNat = (s.sys.fc.bp.toList ++ l).length % 2 ^ 32) := by
  rcases reachable_fcOk orders_perm hq (reachable_erase hs) with ⟨l, out, hok⟩
  refine ⟨hok.safe, fun k hk => ?_⟩
  have hc := reachable_ksOk hs k hk
  refine ⟨hc, fun hw hr hlim => ⟨?_, l, hok.rep, ?_⟩⟩
  · -- The limit keeps the run count from wrapping around.
    have hle := hok.limit
    rw [hc.rcnt, hr, Int.sub_zero, hok.outcnt, toNat_ofInt_natCast, Nat.mod_eq_of_lt]
    omega
  · rw [hc.wcnt, hw, Int.sub_zero, hok.toParts.waiting orders_perm, toNat_ofInt_natCast]

end Runs

/-- Counters started on an idle device: one buf runs, and another waits. -/
theorem kstat_accounting_waiting : ∃ (s : KsSys Unit Nat (QueTab Nat)) (k : KstatIo),
    s.kstat = some k ∧ k.wcnt = 1 ∧ FcSafe QueTab.Holds dsngl s.sys ∧
      (k.rcnt.toNat : Int) = s.sys.fc.outcnt ∧ s.sys.fc.outcnt = 1 := by
  have hinit : KsInit QueTab.Holds (⟨idleFc, none, 0, 0, []⟩ : KsSys Unit Nat (QueTab Nat)) :=
    ⟨⟨rfl, rfl, ⟨rfl, rfl, List.nodup_nil⟩, rfl, rfl, rfl, rfl, rfl⟩, rfl⟩
  have hone : Reachable (KsInit QueTab.Holds) (KsStep qfifo dsngl) _ :=
    ((Reachable.initial hinit).tail (.start _ true)).tail
      (.enque _ 1 (by decide) fun u _ => (u, true))
  have htwo := hone.tail (.enque _ 2 (by decide) fun u _ => (u, true))
  have hsafe := kstat_accounting qfifo_keeps.perm htwo
  exact ⟨_, _, rfl, rfl, hsafe.1, ((hsafe.2 _ rfl).2 rfl rfl (by decide)).1, rfl⟩

end Disk

end Sil3112
