import Sil3112.Disk.QmergeMerge
import Sil3112.Lib.Transition

/-!
# Runs of the Merging Queue

`qmerge_add` and `qmerge_del` in any order. Between the calls the owners of the bufs that
are not on the queue do what they like with them and with their pages: they complete
them, fill them in again, and add them again. A buf is added only while it is not on the
queue, and one with `B_PAGEIO` has a ring of pages that no buf of the queue has.

Two things go wrong. `que_insert` stops at two bufs for one block, and a buf for a block
farther on is put between the two. And `qmerge_del` has taken the second buf from the
queue when it finds that there is no memory to merge it: it returns the first one, forgets
the second, and leaves a mutex that nobody has entered. A step of the run is `Met` if
neither happens in it, and a run of such steps keeps everything.

## Main definitions

* `QmergeSys`, `QmergeCall`, `QmergeStep`: The calls, with what was added and returned.
* `Met`: The step does not go wrong.
* `QmergeKept`: The rings, the counter and the flags are right, no buf is lost, and the
  calls return.
* `Books`: The invariant.

## Theorems

* `add_step`, `del_step`, `other_step`: What a step does to the rings and the pages.
* `Books.step`, `Books.reachable`: A run of steps that are `Met`.
* `qmerge_kept`: The queue along such a run.
-/

namespace Sil3112

namespace Disk

open Rings Descents Transition

variable {β ρ : Type} [DecidableEq β] [DecidableEq ρ]

/-! ## Calls -/

/-- The queue, with the bufs that were added and the bufs that were returned, alone or in
    a merged buf, in order. -/
structure QmergeSys (β ρ : Type) where
  q : Qmerge β ρ
  added : List β
  returned : List β

/-- The buf is in one of the rings. -/
def OnQueue (q : Qmerge β ρ) (b : β) : Prop :=
  ∃ p c, IsRing q.av c ∧ c.Nodup ∧ c.head? = q.hd p ∧ b ∈ c

/-- The pages of a buf. -/
structure PageRing (q : Qmerge β ρ) (b : β) (c : List ρ) : Prop where
  ne : c ≠ []
  ring : IsRing q.page c
  nodup : c.Nodup
  head : c.head? = (q.buf b).pages

/-- What the caller of `qmerge_add` sees to: the buf is not on the queue, and its pages
    are those of no buf that is. -/
structure Addable (q : Qmerge β ρ) (b : β) : Prop where
  off : ¬OnQueue q b
  pages : (q.buf b).flags.pageio = true → ∃ c, PageRing q b c ∧
    ∀ x, OnQueue q x → (q.buf x).flags.pageio = true → ∀ c', PageRing q x c' → c.Disjoint c'

/-- What the owners of other bufs do: neither the queue is written nor a buf on it nor
    the pages of one. -/
structure Elsewhere (q q' : Qmerge β ρ) : Prop where
  queue : ∃ buf av page, q' = { q with buf := buf, av := av, page := page }
  buf : ∀ b, OnQueue q b → q'.buf b = q.buf b
  next : ∀ b, OnQueue q b → q'.av.next b = q.av.next b
  prev : ∀ b, OnQueue q b → q'.av.prev b = q.av.prev b
  pages : ∀ b, OnQueue q b → (q.buf b).flags.pageio = true → ∀ c, PageRing q b c → ∀ p ∈ c,
    q'.page.next p = q.page.next p ∧ q'.page.prev p = q.page.prev p

/-- A call, and whether `kmem_alloc` has memory in it, or what others do. -/
inductive QmergeCall (β : Type)
  | add (bp : β)
  | del (alloc : Bool)
  | other

/-- A step of a run. -/
inductive QmergeStep (t : Tunables) (k : Casts β) :
    QmergeSys β ρ → QmergeCall β → QmergeSys β ρ → Prop
  | add {s : QmergeSys β ρ} {bp : β} {q' : Qmerge β ρ} {n : Nat} (h : Addable s.q bp)
      (heq : qmergeAdd t k s.q bp = some (q', n)) :
      QmergeStep t k s (.add bp) { s with q := q', added := s.added ++ [bp] }
  | del {s : QmergeSys β ρ} {alloc : Bool} {q' : Qmerge β ρ} {r : Ret β ρ} {cs : List β}
      (heq : qmergeDel t k alloc s.q = some (q', r)) (hc : Carries q' r cs) :
      QmergeStep t k s (.del alloc) { s with q := q', returned := s.returned ++ cs }
  | other {s : QmergeSys β ρ} {q' : Qmerge β ρ} (h : Elsewhere s.q q') :
      QmergeStep t k s .other { s with q := q' }

/-- A run begins with a queue that was just created. -/
def QmergeInit (t : Tunables) (s : QmergeSys β ρ) : Prop :=
  ∃ buf av page, s = { q := Qmerge.init t buf av page, added := [], returned := [] }

/-- The step does not go wrong: the walk of `que_insert` does not stop short, unless all
    blocks of the ring are the same, and `kmem_alloc` has memory if it is called. -/
def Met (t : Tunables) (k : Casts β) (s : QmergeSys β ρ) : QmergeCall β → Prop
  | .add bp => ∀ c, IsRing s.q.av c → c.Nodup → c.head? = s.q.hd (priOf t (s.q.buf bp)) →
      Strands s.q.dblk c bp → ∀ x ∈ c, ∀ y ∈ c, s.q.dblk x = s.q.dblk y
  | .del alloc => alloc = true ∨ allocates t k s.q = false
  | .other => True

/-- Any step. -/
def AnyStep (t : Tunables) (k : Casts β) (s s' : QmergeSys β ρ) : Prop :=
  ∃ c, QmergeStep t k s c s'

/-- A step that does not go wrong. -/
def MetStep (t : Tunables) (k : Casts β) (s s' : QmergeSys β ρ) : Prop :=
  ∃ c, QmergeStep t k s c s' ∧ Met t k s c

/-- A call of `qmerge_del` with memory. -/
def DelStep (t : Tunables) (k : Casts β) (s s' : QmergeSys β ρ) : Prop :=
  QmergeStep t k s (.del true) s'

/-- What is expected of the queue in every state: each ring is linked both ways and
    descends at most once, the counter and the flags are right, every buf that was added
    is on the queue or was returned, as often as it was added, and nobody has left a
    mutex that he had not entered. All calls return, and calls of `qmerge_del` alone
    bring everything back. -/
structure QmergeKept (t : Tunables) (k : Casts β) (s : QmergeSys β ρ) : Prop where
  rings : ∃ l, RingsOk s.q.av s.q.hd l ∧ (∀ p, cyc s.q.dblk (l p) ≤ 1) ∧
    s.q.cnt = (held l).length ∧ s.added.Perm (s.returned ++ held l)
  flags : FlagsOk s.q.flags s.q.hd
  mutex : s.q.exits = 0
  add : ∀ bp, Addable s.q bp → ∃ q', qmergeAdd t k s.q bp = some (q', s.q.cnt + 1)
  del : ∀ alloc, ∃ q' r cs, qmergeDel t k alloc s.q = some (q', r) ∧ Carries q' r cs ∧
    (s.q.cnt ≠ 0 → cs ≠ [])
  drained : ∃ s', Relation.ReflTransGen (DelStep t k) s s' ∧ s'.q.cnt = 0 ∧
    s'.added = s.added ∧ s'.returned.Perm s.added

/-! ## Steps -/

/-- The queue has the rings `l`, and its bufs the pages `pg`. -/
structure QueueHeld (q : Qmerge β ρ) (l : Pri → List β) (pg : β → List ρ) : Prop where
  ok : QueueOk q.buf pg q l
  paged : Paged q.buf pg (held l)

variable {t : Tunables} {k : Casts β} {q q' : Qmerge β ρ} {l l' : Pri → List β}
  {pg : β → List ρ} {bp : β}

omit [DecidableEq β] [DecidableEq ρ] in
theorem onQueue_of_mem (h : RingsOk q.av q.hd l) {b : β} (hb : b ∈ held l) : OnQueue q b := by
  rcases mem_held.mp hb with ⟨p, hp⟩
  exact ⟨p, l p, h.ring p, h.nodup p, h.head p, hp⟩

omit [DecidableEq β] [DecidableEq ρ] in
theorem QueueHeld.pageRing (h : QueueHeld q l pg) {b : β} (hb : b ∈ held l)
    (hio : (q.buf b).flags.pageio = true) : PageRing q b (pg b) := by
  rcases h.paged.head b hb hio with ⟨p, hp, hpages⟩
  exact ⟨List.ne_nil_of_mem (List.mem_of_head? hp), h.ok.pages b hb hio, h.paged.nodup b hb hio,
    hp.trans hpages.symm⟩

omit [DecidableEq β] [DecidableEq ρ] in
/-- What the queue has is the same by the bufs as they are now. -/
theorem QueueHeld.rebase {d : β → MBuf β ρ} (hq : QueueOk d pg q l) (hpg : Paged d pg (held l)) :
    QueueHeld q l pg := by
  have hio (b : β) : (q.buf b).flags = (d b).flags ∧ (q.buf b).pages = (d b).pages := by
    rcases hq.same b with ⟨e, he⟩
    rw [he]
    exact ⟨rfl, rfl⟩
  refine ⟨⟨hq.rings, hq.flags, hq.cnt, fun x => ⟨_, rfl⟩, fun b hb h => ?_⟩,
    ⟨fun b hb h => ?_, fun b hb h => ?_, fun b hb c hc h h' => ?_⟩⟩
  · rw [(hio b).1] at h
    exact hq.pages b hb h
  · rw [(hio b).1] at h
    rw [(hio b).2]
    exact hpg.head b hb h
  · rw [(hio b).1] at h
    exact hpg.nodup b hb h
  · rw [(hio b).1] at h
    rw [(hio c).1] at h'
    exact hpg.apart b hb c hc h h'

omit [DecidableEq β] [DecidableEq ρ] in
theorem held_update (p : Pri) {c : List β} (h : c.Perm (bp :: l p)) :
    (held (Function.update l p c)).Perm (bp :: held l) := by
  cases p with
  | sync => exact h.append_right _
  | async => exact (h.append_left _).trans List.perm_middle

omit [DecidableEq ρ] in
/-- The pages of a buf that is added. -/
theorem QueueHeld.add (h : QueueHeld q l pg) (ha : Addable q bp) :
    ∃ pg', Paged q.buf pg' (bp :: held l) ∧
      ∀ b ∈ bp :: held l, (q.buf b).flags.pageio = true → IsRing q.page (pg' b) := by
  have hbp : bp ∉ held l := fun hm => ha.off (onQueue_of_mem h.ok.rings hm)
  have hold {c : List ρ} {b : β} (hb : b ∈ held l) : Function.update pg bp c b = pg b :=
    Function.update_of_ne (ne_of_mem_of_not_mem hb hbp) ..
  cases hio : (q.buf bp).flags.pageio with
  | false =>
      -- without B_PAGEIO the pages of the buf are of no interest
      have hne {b : β} (hb : b ∈ bp :: held l) (hbio : (q.buf b).flags.pageio = true) :
          b ∈ held l := by
        rcases List.mem_cons.mp hb with rfl | hb
        · rw [hio] at hbio
          cases hbio
        · exact hb
      exact ⟨pg, ⟨fun b hb hbio => h.paged.head b (hne hb hbio) hbio,
        fun b hb hbio => h.paged.nodup b (hne hb hbio) hbio,
        fun b hb c hc hbio hcio => h.paged.apart b (hne hb hbio) c (hne hc hcio) hbio hcio⟩,
        fun b hb hbio => h.ok.pages b (hne hb hbio) hbio⟩
  | true =>
      -- its pages are a ring with no page of another buf in it
      rcases ha.pages hio with ⟨c, hc, hdis⟩
      have hother {b : β} (hb : b ∈ held l) (hbio : (q.buf b).flags.pageio = true) :
          c.Disjoint (pg b) :=
        hdis b (onQueue_of_mem h.ok.rings hb) hbio (pg b) (h.pageRing hb hbio)
      refine ⟨Function.update pg bp c, ⟨fun b hb hbio => ?_, fun b hb hbio => ?_,
        fun b hb b' hb' hbio hbio' hne => ?_⟩, fun b hb hbio => ?_⟩
      · rcases List.mem_cons.mp hb with rfl | hb
        · rw [Function.update_self]
          have hhead := List.head?_eq_some_head hc.ne
          exact ⟨_, hhead, hc.head.symm.trans hhead⟩
        · rw [hold hb]
          exact h.paged.head b hb hbio
      · rcases List.mem_cons.mp hb with rfl | hb
        · rw [Function.update_self]
          exact hc.nodup
        · rw [hold hb]
          exact h.paged.nodup b hb hbio
      · rcases List.mem_cons.mp hb with hbb | hbh
        · rcases List.mem_cons.mp hb' with hbb' | hbh'
          · exact absurd (hbb.trans hbb'.symm) hne
          · rw [hbb, Function.update_self, hold hbh']
            exact hother hbh' hbio'
        · rcases List.mem_cons.mp hb' with hbb' | hbh'
          · rw [hbb', Function.update_self, hold hbh]
            exact fun p hp hpc => hother hbh hbio hpc hp
          · rw [hold hbh, hold hbh']
            exact h.paged.apart b hbh b' hbh' hbio hbio' hne
      · rcases List.mem_cons.mp hb with rfl | hb
        · rw [Function.update_self]
          exact hc.ring
        · rw [hold hb]
          exact h.ok.pages b hb hbio

omit [DecidableEq ρ] in
/-- `qmerge_add` returns, and the buf is in its ring. -/
theorem add_step (t : Tunables) (k : Casts β) (h : QueueHeld q l pg) (ha : Addable q bp) :
    ∃ q' c pg', qmergeAdd t k q bp = some (q', q.cnt + 1) ∧
      QueueHeld q' (Function.update l (priOf t (q.buf bp)) c) pg' ∧
      c.Perm (bp :: l (priOf t (q.buf bp))) ∧
      (Strands q.dblk (l (priOf t (q.buf bp))) bp →
        cyc q.dblk c = cyc q.dblk (l (priOf t (q.buf bp))) + 1) ∧
      (¬Strands q.dblk (l (priOf t (q.buf bp))) bp →
        cyc q.dblk c = cyc q.dblk (l (priOf t (q.buf bp)))) ∧
      SameBufs q q' := by
  have hcnt (p : Pri) : (l p).length ≤ q.cnt := by
    rw [h.ok.cnt, held, List.length_append]
    cases p <;> omega
  rcases queInsert_spec t k h.ok.rings h.ok.flags hcnt
      (fun hm => ha.off (onQueue_of_mem h.ok.rings hm)) with
    ⟨s1, c, heq, hrings, hflags, hperm, hst, hnst, hsame, hcnt1⟩
  rcases h.add ha with ⟨pg', hpaged, hpages⟩
  have hheld := held_update (priOf t (q.buf bp)) hperm
  refine ⟨{ s1 with cnt := s1.cnt + 1 }, c, pg', ?_, QueueHeld.rebase (d := q.buf) ?_ ?_, hperm,
    hst, hnst, ⟨hsame.buf, hsame.page, hsame.exits⟩⟩
  · rw [qmergeAdd, heq, Option.map_some, hcnt1]
  · refine ⟨hrings, hflags, ?_, hsame.buf, fun b hb hio => ?_⟩
    · rw [hheld.length_eq, List.length_cons, ← h.ok.cnt, ← hcnt1]
    · have hring := hpages b (hheld.mem_iff.mp hb) hio
      rwa [← hsame.page] at hring
  · exact hpaged.subset fun b hb => hheld.mem_iff.mp hb

omit [DecidableEq β] [DecidableEq ρ] in
/-- Whatever ring a merged buf has, it has the one. -/
theorem Carries.unique {r : Ret β ρ} {cs cs' : List β} (h : Carries q r cs)
    (h' : Carries q r cs') : cs = cs' := by
  cases r with
  | null => exact h.trans h'.symm
  | buf bp => exact h.trans h'.symm
  | merged m => exact h.1.unique h'.1 h.2.1 h'.2.1 (h.2.2.trans h'.2.2.symm)

/-- `qmerge_del` returns, with what `Delivered` says. -/
theorem del_step (t : Tunables) (k : Casts β) (alloc : Bool) (h : QueueHeld q l pg) :
    ∃ q' r cs lost l', qmergeDel t k alloc q = some (q', r) ∧
      Delivered t k alloc q.buf pg q l q' r cs lost l' ∧ QueueHeld q' l' pg := by
  rcases qmergeDel_spec k alloc h.ok h.paged with ⟨q', r, cs, lost, l', heq, hdel⟩
  refine ⟨q', r, cs, lost, l', heq, hdel, QueueHeld.rebase hdel.ok (h.paged.subset fun b hb => ?_)⟩
  exact hdel.perm.mem_iff.mpr (List.mem_append_right _ hb)

omit [DecidableEq β] [DecidableEq ρ] in
/-- What others do is nothing to the queue. -/
theorem other_step (h : QueueHeld q l pg) (ho : Elsewhere q q') :
    QueueHeld q' l pg ∧ (∀ b ∈ held l, q'.dblk b = q.dblk b) ∧ q'.cnt = q.cnt ∧
      q'.exits = q.exits := by
  have hon {b : β} (hb : b ∈ held l) : OnQueue q b := onQueue_of_mem h.ok.rings hb
  have hmem {p : Pri} {b : β} (hb : b ∈ l p) : b ∈ held l := mem_held.mpr ⟨p, hb⟩
  rcases ho.queue with ⟨buf, av, page, hq'⟩
  have hbuf {b : β} (hb : b ∈ held l) : q'.buf b = q.buf b := ho.buf b (hon hb)
  have hcnt : q'.cnt = q.cnt := by rw [hq']
  refine ⟨⟨⟨⟨fun p => ?_, fun p => ?_, h.ok.rings.nodup, h.ok.rings.apart⟩, ?_, ?_,
    fun x => ⟨_, rfl⟩, fun b hb hio => ?_⟩, ⟨fun b hb hio => ?_, fun b hb hio => ?_,
    fun b hb c hc hio hio' => ?_⟩⟩, fun b hb => ?_, hcnt, by rw [hq']⟩
  · exact (h.ok.rings.ring p).congr (fun x hx => ho.next x (hon (hmem hx)))
      fun x hx => ho.prev x (hon (hmem hx))
  · rw [h.ok.rings.head p, hq']
  · rw [hq']
    exact h.ok.flags
  · rw [hcnt, h.ok.cnt]
  · rw [hbuf hb] at hio
    have hpages := ho.pages b (hon hb) hio (pg b) (h.pageRing hb hio)
    exact (h.ok.pages b hb hio).congr (fun p hp => (hpages p hp).1) fun p hp => (hpages p hp).2
  · rw [hbuf hb] at hio ⊢
    exact h.paged.head b hb hio
  · rw [hbuf hb] at hio
    exact h.paged.nodup b hb hio
  · rw [hbuf hb] at hio
    rw [hbuf hc] at hio'
    exact h.paged.apart b hb c hc hio hio'
  · rw [Qmerge.dblk, Qmerge.dblk, hbuf hb]

/-! ## Runs -/

omit [DecidableEq β] [DecidableEq ρ] in
theorem queueHeld_init (t : Tunables) (buf : β → MBuf β ρ) (av : Links β) (page : Links ρ) :
    QueueHeld (Qmerge.init t buf av page) (fun _ => []) (fun _ => []) where
  ok :=
    { rings :=
        { ring := fun _ => isRing_nil
          head := fun _ => rfl
          nodup := fun _ => List.nodup_nil
          apart := fun _ _ _ hx => absurd hx List.not_mem_nil }
      flags :=
        { only := fun hf => absurd hf Bool.false_ne_true
          also := fun hf => absurd hf Bool.false_ne_true
          neither := fun _ _ _ => rfl }
      cnt := rfl
      same := fun _ => ⟨_, rfl⟩
      pages := fun _ hb => absurd hb List.not_mem_nil }
  paged :=
    { head := fun _ hb => absurd hb List.not_mem_nil
      nodup := fun _ hb => absurd hb List.not_mem_nil
      apart := fun _ hb => absurd hb List.not_mem_nil }

/-- Along every run the queue has its rings and pages, also when bufs are lost. -/
theorem queueHeld_reachable {s : QmergeSys β ρ} (h : Reachable (QmergeInit t) (AnyStep t k) s) :
    ∃ l pg, QueueHeld s.q l pg := by
  refine Reachable.invariant (I := fun s : QmergeSys β ρ => ∃ l pg, QueueHeld s.q l pg) ?_ ?_ h
  · rintro s ⟨buf, av, page, rfl⟩
    exact ⟨fun _ => [], fun _ => [], queueHeld_init t buf av page⟩
  · rintro s s' - ⟨l, pg, hl⟩ ⟨c, hst⟩
    cases hst with
    | add ha heq =>
        rcases add_step t k hl ha with ⟨q1, c, pg', heq', hl', -⟩
        rw [heq] at heq'
        cases heq'
        exact ⟨_, pg', hl'⟩
    | del heq hc =>
        rcases del_step t k _ hl with ⟨q1, r, cs, lost, l', heq', -, hl'⟩
        rw [heq] at heq'
        cases heq'
        exact ⟨l', pg, hl'⟩
    | other ho => exact ⟨l, pg, (other_step hl ho).1⟩

/-- What a run of steps that do not go wrong keeps besides. -/
structure Books (s : QmergeSys β ρ) (l : Pri → List β) : Prop where
  swept : ∀ p, cyc s.q.dblk (l p) ≤ 1
  whole : s.added.Perm (s.returned ++ held l)
  mutex : s.q.exits = 0

omit [DecidableEq ρ] in
/-- A buf that is added makes a descent only in a ring that had none. -/
theorem Books.add {s : QmergeSys β ρ} {bp : β} {q' : Qmerge β ρ} {n : Nat}
    (h : QueueHeld s.q l pg) (hb : Books s l) (ha : Addable s.q bp)
    (heq : qmergeAdd t k s.q bp = some (q', n)) (hm : Met t k s (.add bp)) :
    ∃ l' pg', QueueHeld q' l' pg' ∧ Books { s with q := q', added := s.added ++ [bp] } l' := by
  rcases add_step t k h ha with ⟨q1, c, pg', heq', hl', hperm, hshort, hkeeps, hsame⟩
  rw [heq] at heq'
  cases heq'
  refine ⟨_, pg', hl', fun p => ?_, ?_, hsame.exits.trans hb.mutex⟩
  · dsimp only
    rw [hsame.dblk]
    by_cases hp : p = priOf t (s.q.buf bp)
    · rw [hp, Function.update_self]
      by_cases hs : Strands s.q.dblk (l (priOf t (s.q.buf bp))) bp
      · have hall := hm _ (h.ok.rings.ring _) (h.ok.rings.nodup _) (h.ok.rings.head _) hs
        rw [hshort hs, cyc_eq_zero_iff.mpr hall]
      · rw [hkeeps hs]
        exact hb.swept _
    · rw [Function.update_of_ne hp]
      exact hb.swept p
  · have hheld := held_update (priOf t (s.q.buf bp)) hperm
    refine (hb.whole.append_right [bp]).trans ?_
    rw [List.append_assoc]
    exact ((List.perm_append_singleton bp _).trans hheld.symm).append_left _

/-- What is taken from the queue is returned, if there is memory where it is needed. -/
theorem Books.del {s : QmergeSys β ρ} {alloc : Bool} {q' : Qmerge β ρ} {r : Ret β ρ}
    {cs : List β} (h : QueueHeld s.q l pg) (hb : Books s l)
    (heq : qmergeDel t k alloc s.q = some (q', r)) (hc : Carries q' r cs)
    (hm : Met t k s (.del alloc)) :
    ∃ l', QueueHeld q' l' pg ∧ Books { s with q := q', returned := s.returned ++ cs } l' := by
  rcases del_step t k alloc h with ⟨q1, r', cs', lost, l', heq', hdel, hl'⟩
  rw [heq] at heq'
  cases heq'
  have hcs : cs = cs' := hc.unique hdel.carries
  have hlost : lost = [] := by
    by_contra hne
    rcases hdel.lost hne with ⟨halloc, hall⟩
    rcases hm with hm | hm
    · rw [halloc] at hm
      cases hm
    · rw [hall] at hm
      cases hm
  subst hcs hlost
  refine ⟨l', hl', fun p => ?_, ?_, hdel.exits.trans hb.mutex⟩
  · dsimp only
    have hdblk : q'.dblk = s.q.dblk := by
      funext x
      rcases hdel.ok.same x with ⟨e, he⟩
      rw [Qmerge.dblk, Qmerge.dblk, he]
    rw [hdblk]
    exact (hdel.cyc_le _ p).trans (hb.swept p)
  · refine hb.whole.trans ?_
    rw [List.append_assoc]
    have hperm := hdel.perm
    rw [List.append_nil] at hperm
    exact hperm.append_left _

theorem Books.step {s s' : QmergeSys β ρ} {c : QmergeCall β} (h : QueueHeld s.q l pg)
    (hb : Books s l) (hst : QmergeStep t k s c s') (hm : Met t k s c) :
    ∃ l' pg', QueueHeld s'.q l' pg' ∧ Books s' l' := by
  cases hst with
  | add ha heq => exact hb.add h ha heq hm
  | del heq hc =>
      rcases hb.del h heq hc hm with ⟨l', hl', hb'⟩
      exact ⟨l', pg, hl', hb'⟩
  | other ho =>
      rcases other_step h ho with ⟨hl', hdblk, -, hexits⟩
      refine ⟨l, pg, hl', fun p => ?_, hb.whole, hexits.trans hb.mutex⟩
      rw [cyc_congr fun x hx => hdblk x (mem_held.mpr ⟨p, hx⟩)]
      exact hb.swept p

/-- Calls of `qmerge_del` bring everything back. -/
theorem drains {s : QmergeSys β ρ} (h : QueueHeld s.q l pg) (hb : Books s l) :
    ∃ s', Relation.ReflTransGen (DelStep t k) s s' ∧ s'.q.cnt = 0 ∧ s'.added = s.added ∧
      s'.returned.Perm s.added := by
  -- every call takes one buf at least from the queue
  generalize hn : (held l).length = n
  induction n using Nat.strongRecOn generalizing s l pg with
  | ind n ih =>
      by_cases hne : held l = []
      · refine ⟨s, .refl, by rw [h.ok.cnt, hne]; rfl, rfl, ?_⟩
        have hwhole := hb.whole
        rw [hne, List.append_nil] at hwhole
        exact hwhole.symm
      · rcases del_step t k true h with ⟨q1, r, cs, lost, l1, heq, hdel, -⟩
        have hst : QmergeStep t k s (.del true)
            { s with q := q1, returned := s.returned ++ cs } := .del heq hdel.carries
        rcases hb.step h hst (Or.inl rfl) with ⟨l2, pg2, h2, hb2⟩
        have hlen : (held l2).length < n := by
          have hperm := hdel.perm.length_eq
          rw [List.length_append, List.length_append] at hperm
          have hcs := List.length_pos_of_ne_nil (hdel.ne hne)
          rw [← h2.ok.cnt, hdel.ok.cnt]
          omega
        rcases ih _ hlen h2 hb2 rfl with ⟨s', hrun, hcnt, hadded, hreturned⟩
        exact ⟨s', .head hst hrun, hcnt, hadded, hreturned⟩

/-- Along a run of steps that are `Met` the books are right. -/
theorem books_reachable {s : QmergeSys β ρ} (h : Reachable (QmergeInit t) (MetStep t k) s) :
    ∃ l pg, QueueHeld s.q l pg ∧ Books s l := by
  have hinv : ∃ g : (Pri → List β) × (β → List ρ), QueueHeld s.q g.1 g.2 ∧ Books s g.1 := by
    refine Reachable.ghost (I := fun (g : (Pri → List β) × (β → List ρ)) (s : QmergeSys β ρ) =>
      QueueHeld s.q g.1 g.2 ∧ Books s g.1) ?_ ?_ h
    · rintro s ⟨buf, av, page, rfl⟩
      exact ⟨⟨fun _ => [], fun _ => []⟩, queueHeld_init t buf av page,
        ⟨fun _ => Nat.zero_le _, List.Perm.refl _, rfl⟩⟩
    · rintro ⟨l, pg⟩ s s' ⟨hq, hb⟩ ⟨c, hst, hm⟩
      rcases hb.step hq hst hm with ⟨l', pg', hq', hb'⟩
      exact ⟨⟨l', pg'⟩, hq', hb'⟩
  rcases hinv with ⟨⟨l, pg⟩, hq, hb⟩
  exact ⟨l, pg, hq, hb⟩

theorem Books.kept {s : QmergeSys β ρ} (hq : QueueHeld s.q l pg) (hb : Books s l) :
    QmergeKept t k s := by
  refine ⟨⟨l, hq.ok.rings, hb.swept, hq.ok.cnt, hb.whole⟩, hq.ok.flags, hb.mutex,
    fun bp ha => ?_, fun alloc => ?_, drains hq hb⟩
  · rcases add_step t k hq ha with ⟨q', c, pg', heq, -⟩
    exact ⟨q', heq⟩
  · rcases del_step t k alloc hq with ⟨q', r, cs, lost, l', heq, hdel, -⟩
    refine ⟨q', r, cs, heq, hdel.carries, fun hcnt => hdel.ne fun hne => hcnt ?_⟩
    rw [hq.ok.cnt, hne]
    rfl

/-! ## Steps that go wrong -/

/-- Without memory the second buf is lost, and the mutex left. -/
theorem qmergeDel_fails {r : Ret β ρ} (h : allocates t k q = true)
    (heq : qmergeDel t k false q = some (q', r)) : q'.exits ≠ 0 := by
  unfold allocates at h
  split at h
  · next s1 bp h1 =>
      split at h
      · next s2 x h2 =>
          rcases x with ⟨next, merge⟩
          unfold qmergeDel at heq
          cases hn : q.cnt with
          | zero =>
              rw [nextbp, if_pos hn] at h1
              cases h1
          | succ n =>
              rw [if_neg (by rw [hn]; exact Nat.succ_ne_zero n), h1, hn] at heq
              simp only [delLoop, Option.getD_none, h2] at heq
              cases heq
              exact Nat.succ_ne_zero _
      · cases h
  · cases h

/-- A step keeps everything exactly if it is `Met`. -/
theorem qmergeKept_step_iff {s s' : QmergeSys β ρ} {c : QmergeCall β}
    (hr : Reachable (QmergeInit t) (MetStep t k) s) (hst : QmergeStep t k s c s') :
    QmergeKept t k s' ↔ Met t k s c := by
  rcases books_reachable hr with ⟨l, pg, hq, hb⟩
  constructor
  · intro hk
    cases hst with
    | @add bp q' n ha heq =>
        intro c0 hring hnd hhead hs
        by_contra hne
        rcases add_step t k hq ha with ⟨q1, c, pg', heq', hl', -, hshort, -, hsame⟩
        rw [heq] at heq'
        cases heq'
        -- the ring had a descent before, and has one more
        have hc0 : c0 = l (priOf t (s.q.buf bp)) :=
          hring.unique (hq.ok.rings.ring _) hnd (hq.ok.rings.nodup _)
            (hhead.trans (hq.ok.rings.head _).symm)
        subst hc0
        rcases hk.rings with ⟨l2, h2, hswept, -⟩
        have hl2 : l2 (priOf t (s.q.buf bp)) = c := by
          have hc := hl'.ok.rings.ring (priOf t (s.q.buf bp))
          have hcnd := hl'.ok.rings.nodup (priOf t (s.q.buf bp))
          have hchead := hl'.ok.rings.head (priOf t (s.q.buf bp))
          rw [Function.update_self] at hc hcnd hchead
          exact (h2.ring _).unique hc (h2.nodup _) hcnd ((h2.head _).trans hchead.symm)
        have hle := hswept (priOf t (s.q.buf bp))
        dsimp only at hle
        rw [hl2, hsame.dblk, hshort hs] at hle
        exact hne (cyc_eq_zero_iff.mp (by omega))
    | @del alloc q' r cs heq hc =>
        by_contra hne
        simp only [Met, not_or, Bool.not_eq_true, Bool.not_eq_false] at hne
        rw [hne.1] at heq
        exact qmergeDel_fails hne.2 heq hk.mutex
    | other ho => trivial
  · intro hm
    rcases hb.step hq hst hm with ⟨l', pg', hq', hb'⟩
    exact hb'.kept hq'

/-! ## Runs on fixed bufs -/

omit [DecidableEq β] [DecidableEq ρ] in
theorem mem_held_of_onQueue (h : RingsOk q.av q.hd l) {b : β} (hb : OnQueue q b) : b ∈ held l := by
  rcases hb with ⟨p, c, hring, hnd, hhead, hmem⟩
  rw [hring.unique (h.ring p) hnd (h.nodup p) (hhead.trans (h.head p).symm)] at hmem
  exact mem_held.mpr ⟨p, hmem⟩

/-- Only a buf that was added is on the queue. -/
theorem mem_added_of_onQueue {s : QmergeSys β ρ} {b : β}
    (h : Reachable (QmergeInit t) (MetStep t k) s) (hb : OnQueue s.q b) : b ∈ s.added := by
  rcases books_reachable h with ⟨l, pg, hq, hbooks⟩
  exact hbooks.whole.mem_iff.mpr (List.mem_append_right _ (mem_held_of_onQueue hq.ok.rings hb))

theorem anyStep_of_metStep {s : QmergeSys β ρ} (h : Reachable (QmergeInit t) (MetStep t k) s) :
    Reachable (QmergeInit t) (AnyStep t k) s := by
  rcases h with ⟨s0, h0, hrun⟩
  have hle : MetStep (ρ := ρ) t k ≤ AnyStep t k := fun _ _ ⟨c, hst, _⟩ => ⟨c, hst⟩
  exact ⟨s0, h0, Relation.ReflTransGen.mono hle _ _ hrun⟩

/-- A buf of one page, which may be merged if `io`. -/
def exBuf (io : Bool) (blk page : Nat) : MBuf Nat Nat where
  flags :=
    { pageio := io, async := io, write := io, read := false, free := false, remapped := false
      error := false }
  addr := 0
  bcount := 4096
  dblk := blk
  error := 0
  pages := some page
  forw := none

def exCasts : Casts Nat where
  toError n := n
  toBuf i := some i.toNat

/-- An empty queue, with bufs and pages of their own. -/
def exStart (buf : Nat → MBuf Nat Nat) : QmergeSys Nat Nat where
  q := Qmerge.init .default buf ⟨fun _ => none, fun _ => none⟩ ⟨some, some⟩
  added := []
  returned := []

/-- A buf is added. -/
def exAdd (s : QmergeSys Nat Nat) (bp : Nat) : QmergeSys Nat Nat :=
  match qmergeAdd .default exCasts s.q bp with
  | some (q, _) => { s with q := q, added := s.added ++ [bp] }
  | none => s

abbrev ExReach (s : QmergeSys Nat Nat) : Prop :=
  Reachable (QmergeInit .default) (MetStep .default exCasts) s

theorem exStart_reach (buf : Nat → MBuf Nat Nat) : ExReach (exStart buf) :=
  .initial ⟨buf, _, _, rfl⟩

theorem exAdd_step {s : QmergeSys Nat Nat} {bp : Nat} (h : ExReach s) (ha : Addable s.q bp) :
    QmergeStep .default exCasts s (.add bp) (exAdd s bp) := by
  rcases books_reachable h with ⟨l, pg, hq, -⟩
  rcases add_step .default exCasts hq ha with ⟨q', c, pg', heq, -⟩
  have hstep := QmergeStep.add ha heq
  unfold exAdd
  rw [heq]
  exact hstep

/-- A buf with other blocks than those on the queue need not be looked for there. -/
theorem exAdd_reach {s : QmergeSys Nat Nat} {bp : Nat} (h : ExReach s) (ha : Addable s.q bp)
    (hall : ∀ x ∈ s.added, ∀ y ∈ s.added, s.q.dblk x = s.q.dblk y) : ExReach (exAdd s bp) := by
  refine h.tail ⟨.add bp, exAdd_step h ha, fun c hring hnd hhead _ x hx y hy => ?_⟩
  exact hall x (mem_added_of_onQueue h ⟨_, c, hring, hnd, hhead, hx⟩)
    y (mem_added_of_onQueue h ⟨_, c, hring, hnd, hhead, hy⟩)

theorem exAddable {s : QmergeSys Nat Nat} (bp : Nat) (h : ExReach s) (hb : bp ∉ s.added)
    (hio : (s.q.buf bp).flags.pageio = false) : Addable s.q bp where
  off hon := hb (mem_added_of_onQueue h hon)
  pages hio' := by
    rw [hio] at hio'
    cases hio'

/-- Bufs for the blocks 20, 20, 10 and 30. -/
def exBlocks : Nat → MBuf Nat Nat
  | 0 => exBuf false 20 0
  | 1 => exBuf false 20 1
  | 2 => exBuf false 10 2
  | n => exBuf false 30 n

def exThree : QmergeSys Nat Nat :=
  exAdd (exAdd (exAdd (exStart exBlocks) 0) 1) 2

theorem exThree_reach : ExReach exThree := by
  have h0 := exStart_reach exBlocks
  have h1 := exAdd_reach h0 (exAddable 0 h0 (by decide) rfl) (by decide)
  have h2 := exAdd_reach h1 (exAddable 1 h1 (by decide) rfl) (by decide)
  exact exAdd_reach h2 (exAddable 2 h2 (by decide) rfl) (by decide)

/-- The ring is 10, 20, 30, 20: the last buf was put between the two for one block. -/
theorem exThree_ring : IsRing (exAdd exThree 3).q.av [2, 0, 3, 1] := by
  refine isRing_iff.mpr ⟨?_, ?_⟩
  · refine isSeg_cons_cons.mpr ⟨⟨rfl, rfl⟩, isSeg_cons_cons.mpr ⟨⟨rfl, rfl⟩,
      isSeg_cons_cons.mpr ⟨⟨rfl, rfl⟩, isSeg_singleton 1⟩⟩⟩
  · rintro x hx y hy
    cases hx
    cases hy
    exact ⟨rfl, rfl⟩

theorem exThree_breaks : ¬QmergeKept .default exCasts (exAdd exThree 3) := by
  intro hk
  rcases hk.rings with ⟨l, hl, hswept, -⟩
  have hring : l .sync = [2, 0, 3, 1] :=
    (hl.ring .sync).unique exThree_ring (hl.nodup .sync) (by decide) (hl.head .sync)
  have hle := hswept .sync
  rw [hring] at hle
  exact absurd hle (by decide)

/-- The pages of a buf that has one page, its own. -/
theorem exAddablePages {s : QmergeSys Nat Nat} (bp : Nat) (h : ExReach s) (hb : bp ∉ s.added)
    (hpage : s.q.page = ⟨some, some⟩) (hp : ∀ x, (s.q.buf x).pages = some x) :
    Addable s.q bp where
  off hon := hb (mem_added_of_onQueue h hon)
  pages hio := by
    have hone (x : Nat) : IsRing s.q.page [x] := by
      rw [hpage]
      exact isRing_iff.mpr ⟨isSeg_singleton x, fun u hu v hv => by
        cases hu
        cases hv
        exact ⟨rfl, rfl⟩⟩
    refine ⟨[bp], ⟨by simp, hone bp, List.nodup_singleton bp, (hp bp).symm⟩, fun x hx _ c hc => ?_⟩
    rw [hc.ring.unique (hone x) hc.nodup (List.nodup_singleton x) (hc.head.trans (hp x))]
    intro p hpb hpx
    rw [List.mem_singleton.mp hpb] at hpx
    exact hb (List.mem_singleton.mp hpx ▸ mem_added_of_onQueue h hx)

/-- Two bufs that may be merged. -/
def exTwo : QmergeSys Nat Nat :=
  exAdd (exAdd (exStart fun n => exBuf true (8 * n) n) 0) 1

theorem exTwo_reach : ExReach exTwo := by
  have h0 := exStart_reach fun n => exBuf true (8 * n) n
  have h1 := exAdd_reach h0 (exAddablePages 0 h0 (by decide) rfl fun _ => rfl) (by decide)
  exact exAdd_reach h1 (exAddablePages 1 h1 (by decide) rfl fun _ => rfl) (by decide)

theorem exTwo_fails : ∃ q, qmergeDel .default exCasts false exTwo.q = some (q, .buf 0) ∧
    q.cnt = 0 ∧ q.exits = 1 :=
  ⟨_, rfl, rfl, rfl⟩

theorem exTwo_merges : ∃ q m, qmergeDel .default exCasts true exTwo.q = some (q, .merged m) ∧
    m.flags.error = false ∧ m.forw = some 0 ∧ q.av.Linked 0 1 ∧ q.av.Linked 1 0 :=
  ⟨_, _, rfl, rfl, rfl, ⟨rfl, rfl⟩, ⟨rfl, rfl⟩⟩

/-- The two ways to go wrong are all there are. In a run of steps that are `Met`, the
    queue is as it should be in every state. -/
theorem qmerge_kept {s : QmergeSys β ρ} (h : Reachable (QmergeInit t) (MetStep t k) s) :
    QmergeKept t k s := by
  rcases books_reachable h with ⟨l, pg, hq, hb⟩
  exact hb.kept hq

/-- A run with memory, in which the two bufs are merged. -/
theorem qmerge_kept_merged : ∃ s : QmergeSys Nat Nat, s.added = [0, 1] ∧ s.returned = [0, 1] ∧
    QmergeKept .default exCasts s := by
  rcases exTwo_merges with ⟨q, m, heq, -, hforw, h01, h10⟩
  have hring : IsRing q.av [0, 1] := by
    refine isRing_iff.mpr ⟨isSeg_cons_cons.mpr ⟨h01, isSeg_singleton 1⟩, fun x hx y hy => ?_⟩
    cases hx
    cases hy
    exact h10
  have hdel : QmergeStep .default exCasts exTwo (.del true)
      { exTwo with q := q, returned := exTwo.returned ++ [0, 1] } :=
    .del heq ⟨hring, by decide, hforw.symm⟩
  exact ⟨_, rfl, rfl, qmerge_kept (exTwo_reach.tail ⟨_, hdel, Or.inl rfl⟩)⟩

/-- Both ways to go wrong: the fourth buf breaks the ring, and a call without memory
    returns one of two bufs, loses the other and leaves the mutex. -/
theorem qmerge_not_kept :
    (∃ s : QmergeSys Nat Nat, Reachable (QmergeInit .default) (AnyStep .default exCasts) s ∧
      s.added.map s.q.dblk = [20, 20, 10, 30] ∧ ¬QmergeKept .default exCasts s) ∧
    ∃ s : QmergeSys Nat Nat, Reachable (QmergeInit .default) (AnyStep .default exCasts) s ∧
      s.added = [0, 1] ∧ s.returned = [0] ∧ s.q.cnt = 0 ∧ s.q.exits = 1 ∧
      ¬QmergeKept .default exCasts s := by
  constructor
  · have hadd := exAdd_step exThree_reach (exAddable 3 exThree_reach (by decide) rfl)
    exact ⟨_, (anyStep_of_metStep exThree_reach).tail ⟨_, hadd⟩, rfl, exThree_breaks⟩
  · rcases exTwo_fails with ⟨q, heq, hcnt, hexits⟩
    have hdel : QmergeStep .default exCasts exTwo (.del false)
        { exTwo with q := q, returned := exTwo.returned ++ [0] } := .del heq rfl
    refine ⟨_, (anyStep_of_metStep exTwo_reach).tail ⟨_, hdel⟩, rfl, rfl, hcnt, hexits,
      fun hk => ?_⟩
    have hmutex := hk.mutex
    rw [hexits] at hmutex
    cases hmutex

end Disk

end Sil3112
