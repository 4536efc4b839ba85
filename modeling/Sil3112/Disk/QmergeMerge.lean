import Mathlib.Data.Nat.ModEq
import Mathlib.Order.CompletePartialOrder
import Mathlib.Order.Interval.Set.Disjoint
import Sil3112.Disk.QmergeDel

/-!
# Merging

What `qmerge_del` makes of the bufs that it takes from the queue. A buf that is taken
along goes to the end of the merged buf or in front of it, in the ring of the bufs and in
the ring of the pages alike, and so the two rings stay in step. `qmerge_can_merge` has
seen that it ends where the merged buf begins, or begins where that ends. What is merged
is a stretch of the disk without gaps.

## Main definitions

* `PartsCover`: The blocks of the parts, in a stretch of the disk.
* `Paged`: The pages of the bufs.
* `QueueOk`: The queue, with the pages of its bufs.
* `MergeParts`: A merged buf and its parts.

## Theorems

* `mergesetup_spec`: One more part.
* `delLoop_merged`: The loop of `qmerge_del`.
* `qmergeDel_spec`: The call returns, and what it has taken from the queue.
-/

namespace Sil3112

namespace Disk

open Rings Descents

variable {β ρ : Type}

/-! ## Blocks -/

/-- The number of whole blocks in so many bytes. -/
def blocksOf (n : Nat) : Nat :=
  n / devBsize

theorem blocksOf_add {n : Nat} (h : devBsize ∣ n) (m : Nat) :
    blocksOf (n + m) = blocksOf n + blocksOf m :=
  Nat.add_div_of_dvd_right h

/-- The number of blocks of a buf. -/
def MBuf.blocks (d : MBuf β ρ) : Nat :=
  blocksOf d.bcount

/-- The blocks of a buf. -/
def MBuf.extent (d : MBuf β ρ) : Set Nat :=
  Set.Ico d.dblk (d.dblk + d.blocks)

/-- The parts `cs` have `n` bytes together. They lie in the stretch of that length from
    block `a` on, in ascending order, and no two have a block in common. -/
structure PartsCover (d : β → MBuf β ρ) (a n : Nat) (cs : List β) : Prop where
  start : ∀ c ∈ cs.head?, (d c).dblk = a
  total : n = (cs.map fun c => (d c).bcount).sum
  sorted : cs.Pairwise fun b c => (d b).dblk ≤ (d c).dblk
  inside : ∀ c ∈ cs, a ≤ (d c).dblk ∧ (d c).dblk + (d c).blocks ≤ a + blocksOf n
  apart : cs.Pairwise fun b c => Disjoint (d b).extent (d c).extent

variable {d : β → MBuf β ρ} {a n : Nat} {cs : List β} {b : β}

theorem partsCover_singleton (d : β → MBuf β ρ) (b : β) :
    PartsCover d (d b).dblk (d b).bcount [b] where
  start c hc := by
    cases hc
    rfl
  total := by simp
  sorted := List.pairwise_singleton _ b
  inside c hc := by
    rw [List.mem_singleton.mp hc]
    exact ⟨le_refl _, le_refl _⟩
  apart := List.pairwise_singleton _ b

theorem extent_disjoint {c e : MBuf β ρ} (h : c.dblk + c.blocks ≤ e.dblk) :
    Disjoint c.extent e.extent := by
  rw [Set.disjoint_left]
  rintro x ⟨-, hx⟩ ⟨hx', -⟩
  omega

/-- One more part, where the others end. -/
theorem PartsCover.append (h : PartsCover d a n cs) (hne : cs ≠ []) (hn : devBsize ∣ n)
    (hb : a + blocksOf n = (d b).dblk) : PartsCover d a (n + (d b).bcount) (cs ++ [b]) where
  start c hc := by
    rw [List.head?_append_of_ne_nil cs hne] at hc
    exact h.start c hc
  total := by rw [h.total, List.map_append, List.sum_append]; simp
  sorted := List.pairwise_append.mpr ⟨h.sorted, List.pairwise_singleton _ b, fun c hc e he => by
    rw [List.mem_singleton.mp he]
    have hc := h.inside c hc
    omega⟩
  inside c hc := by
    rw [blocksOf_add hn]
    rcases List.mem_append.mp hc with hc | hc
    · have hc := h.inside c hc
      exact ⟨hc.1, by omega⟩
    · rw [List.mem_singleton.mp hc, MBuf.blocks]
      exact ⟨by omega, by omega⟩
  apart := List.pairwise_append.mpr ⟨h.apart, List.pairwise_singleton _ b, fun c hc e he => by
    rw [List.mem_singleton.mp he]
    have hc := h.inside c hc
    exact extent_disjoint (by omega)⟩

/-- One more part, in front of the others. Parts without a block may be anywhere, and
    then the new one may be where they end as well. -/
theorem PartsCover.prepend (h : PartsCover d a n cs) (hn : devBsize ∣ n) (hle : (d b).dblk ≤ a)
    (hb : (d b).dblk + (d b).blocks = a ∨ a + blocksOf n = (d b).dblk) :
    PartsCover d (d b).dblk (n + (d b).bcount) (b :: cs) where
  start c hc := by
    cases hc
    rfl
  total := by rw [h.total, List.map_cons, List.sum_cons, Nat.add_comm]
  sorted := List.pairwise_cons.mpr ⟨fun c hc => hle.trans (h.inside c hc).1, h.sorted⟩
  inside c hc := by
    rw [blocksOf_add hn]
    rcases List.mem_cons.mp hc with rfl | hc
    · rw [MBuf.blocks]
      exact ⟨le_refl _, by omega⟩
    · have hc := h.inside c hc
      rw [MBuf.blocks] at hb
      exact ⟨by omega, by omega⟩
  apart := by
    refine List.pairwise_cons.mpr ⟨fun c hc => ?_, h.apart⟩
    have hc := h.inside c hc
    rcases hb with hb | hb
    · exact extent_disjoint (by omega)
    · -- the others have no block at all
      rw [Set.disjoint_left]
      rintro x - ⟨hx, hx'⟩
      omega

/-! ## Pages -/

/-- The pages of the bufs: each has a list of its own, which begins with `b_pages`. -/
structure Paged (d : β → MBuf β ρ) (pg : β → List ρ) (bs : List β) : Prop where
  head : ∀ b ∈ bs, (d b).flags.pageio = true → ∃ p, (pg b).head? = some p ∧ (d b).pages = some p
  nodup : ∀ b ∈ bs, (d b).flags.pageio = true → (pg b).Nodup
  apart : ∀ b ∈ bs, ∀ c ∈ bs, (d b).flags.pageio = true → (d c).flags.pageio = true → b ≠ c →
    (pg b).Disjoint (pg c)

variable {pg : β → List ρ} {bs : List β}

theorem Paged.subset (h : Paged d pg bs) (hsub : ∀ c ∈ cs, c ∈ bs) : Paged d pg cs where
  head c hc := h.head c (hsub c hc)
  nodup c hc := h.nodup c (hsub c hc)
  apart c hc e he := h.apart c (hsub c hc) e (hsub e he)

/-- The pages of several bufs are all different. -/
theorem Paged.nodup_flatMap (h : Paged d pg cs) (hnd : cs.Nodup)
    (hio : ∀ c ∈ cs, (d c).flags.pageio = true) : (cs.flatMap pg).Nodup := by
  refine List.nodup_flatMap.mpr ⟨fun c hc => h.nodup c hc (hio c hc), ?_⟩
  exact hnd.imp_of_mem fun hc he hne => h.apart _ hc _ he (hio _ hc) (hio _ he) hne

/-- The first page of several bufs is the first of the first buf. -/
theorem Paged.head?_flatMap {c : β} (h : Paged d pg (c :: cs))
    (hio : (d c).flags.pageio = true) : ((c :: cs).flatMap pg).head? = (d c).pages := by
  rcases h.head c List.mem_cons_self hio with ⟨p, hp, hpages⟩
  rw [List.flatMap_cons, List.head?_append_of_ne_nil _ (List.ne_nil_of_mem (List.mem_of_head? hp)),
    hp, hpages]

/-! ## What is merged -/

theorem mergeable_pageio {t : Tunables} {x : MBuf β ρ} (h : mergeable t x = true) :
    x.flags.pageio = true := by
  simp only [mergeable, Bool.and_eq_true] at h
  exact h.1.1.1.1.2

theorem mergeable_dvd {t : Tunables} {x : MBuf β ρ} (h : mergeable t x = true) :
    devBsize ∣ x.bcount := by
  simp only [mergeable, Bool.and_eq_true, decide_eq_true_eq] at h
  exact t.blocks.trans (Nat.dvd_of_mod_eq_zero h.2)

/-- What `qmerge_can_merge` has seen. -/
theorem canMerge_iff {t : Tunables} {x m : MBuf β ρ} : canMerge t x m = true ↔
    (mergeable t x = true ∧ mergeable t m = true) ∧ x.bcount + m.bcount ≤ t.maxMerge ∧
      (m.dblk + blocksOf m.bcount = x.dblk ∨ x.dblk + x.blocks = m.dblk) := by
  simp only [canMerge, Bool.and_eq_true, Bool.or_eq_true, decide_eq_true_eq, and_assoc]
  exact Iff.rfl

/-- The fields of the bufs are those of `d` but for `b_error`. -/
def Same (d : β → MBuf β ρ) (s : Qmerge β ρ) : Prop :=
  ∀ x, ∃ e, s.buf x = { d x with error := e }

/-- The merged buf `m` with its parts `cs`: the two rings and what `m` says about
    them. -/
structure MergeParts (t : Tunables) (d : β → MBuf β ρ) (pg : β → List ρ) (s : Qmerge β ρ)
    (m : MBuf β ρ) (cs : List β) : Prop where
  ne : cs ≠ []
  ring : IsRing s.av cs
  nodup : cs.Nodup
  forw : m.forw = cs.head?
  pageRing : IsRing s.page (cs.flatMap pg)
  pages : m.pages = (cs.flatMap pg).head?
  able : ∀ c ∈ cs, mergeable t (d c) = true
  mergeable : mergeable t m = true
  covers : PartsCover d m.dblk m.bcount cs

variable {t : Tunables} {s : Qmerge β ρ} {m : MBuf β ρ}

/-- The bytes of two bufs that may be merged are those of a buf that may be. -/
theorem mergeable_add {x y : MBuf β ρ} (hx : mergeable t x = true) (hy : mergeable t y = true)
    (forw : Option β) (pages : Option ρ) (blk : Nat) : mergeable t
      { x with bcount := x.bcount + y.bcount, forw := forw, pages := pages, dblk := blk } =
        true := by
  simp only [mergeable, Bool.and_eq_true, decide_eq_true_eq] at hx hy ⊢
  refine ⟨hx.1, ?_⟩
  rw [Nat.add_mod, hx.2, hy.2, Nat.zero_add, Nat.zero_mod]

variable [DecidableEq β] [DecidableEq ρ]

/-- What `qmerge_mergesetup` writes. `back` and `ppMergePrev` are the last ones of the two
    rings of the merged buf. -/
theorem mergesetup_eq {next bp1 back : β} {pp ppPrev ppMerge ppMergePrev : ρ}
    (hp : MergeParts t d pg s m cs) (hs : Same d s) (hbp1 : cs.head? = some bp1)
    (hback : cs.getLast? = some back) (hpages : (d next).pages = some pp)
    (hring : IsRing s.page (pg next)) (hpp : (pg next).head? = some pp)
    (hppPrev : (pg next).getLast? = some ppPrev)
    (hppMerge : (cs.flatMap pg).head? = some ppMerge)
    (hppMergePrev : (cs.flatMap pg).getLast? = some ppMergePrev) :
    mergesetup s m next = some ({ s with
      page := (s.page.set ppMergePrev pp).set ppPrev ppMerge
      av := (s.av.set back next).set next bp1 },
      if m.dblk < (d next).dblk then { m with bcount := m.bcount + (d next).bcount }
      else { m with
        bcount := m.bcount + (d next).bcount, forw := some next, pages := some pp
        dblk := (d next).dblk }) := by
  rcases hs next with ⟨e, he⟩
  have hnpages : (s.buf next).pages = some pp := by rw [he]; exact hpages
  have hnblk : s.dblk next = (d next).dblk := by rw [Qmerge.dblk, he]
  have hncount : (s.buf next).bcount = (d next).bcount := by rw [he]
  have hmpages : m.pages = some ppMerge := hp.pages.trans hppMerge
  have hmforw : m.forw = some bp1 := hp.forw.trans hbp1
  unfold mergesetup
  rw [hnpages, hmpages, hmforw, hnblk, hncount]
  simp only [Option.bind_some, (hp.pageRing.closed hppMergePrev hppMerge).2,
    (hring.closed hppPrev hpp).2, (hp.ring.closed hback hbp1).2, Option.map_some]

/-- One more part: it goes to the end of both rings, or in front of them. -/
theorem mergesetup_spec {next : β} (hp : MergeParts t d pg s m cs) (hs : Same d s)
    (hpg : Paged d pg (cs ++ [next])) (hring : IsRing s.page (pg next)) (hnext : next ∉ cs)
    (hcan : canMerge t (d next) m = true) :
    ∃ s' m' cs', mergesetup s m next = some (s', m') ∧ MergeParts t d pg s' m' cs' ∧
      (cs ++ [next]).Perm cs' ∧
      (∃ av page, s' = { s with av := av, page := page }) ∧
      (∀ c, IsRing s.av c → (∀ x ∈ cs ++ [next], x ∉ c) → IsRing s'.av c) ∧
      ∀ c, IsRing s.page c → (∀ p ∈ (cs ++ [next]).flatMap pg, p ∉ c) → IsRing s'.page c := by
  rcases canMerge_iff.mp hcan with ⟨⟨hable, -⟩, -, hadj⟩
  have hio : ∀ c ∈ cs ++ [next], (d c).flags.pageio = true := fun c hc => by
    rcases List.mem_append.mp hc with hc | hc
    · exact mergeable_pageio (hp.able c hc)
    · rw [List.mem_singleton.mp hc]
      exact mergeable_pageio hable
  have hnd : (cs ++ [next]).Nodup :=
    List.nodup_append.mpr ⟨hp.nodup, List.nodup_singleton next, fun x hx y hy => by
      rw [List.mem_singleton.mp hy]
      exact ne_of_mem_of_not_mem hx hnext⟩
  have hndp := hpg.nodup_flatMap hnd hio
  rw [List.flatMap_append, List.flatMap_singleton] at hndp
  -- the first and the last cell of each of the four lists
  rcases List.exists_cons_of_ne_nil hp.ne with ⟨bp1, cs', rfl⟩
  rcases hpg.head next (by simp) (hio next (by simp)) with ⟨pp, hpp, hpages⟩
  rcases hpg.head bp1 (by simp) (hio bp1 (by simp)) with ⟨ppMerge, hppMerge, hpagesMerge⟩
  have hfirst : ((bp1 :: cs').flatMap pg).head? = some ppMerge := by
    have hsub : Paged d pg (bp1 :: cs') := hpg.subset fun c hc => List.mem_append_left _ hc
    rw [hsub.head?_flatMap (hio bp1 (by simp)), hpagesMerge]
  have hlast := List.getLast?_eq_some_getLast (List.cons_ne_nil bp1 cs')
  generalize (bp1 :: cs').getLast (List.cons_ne_nil bp1 cs') = back at hlast
  have hlastp := List.getLast?_eq_some_getLast (List.ne_nil_of_mem (List.mem_of_head? hfirst))
  generalize ((bp1 :: cs').flatMap pg).getLast _ = ppMergePrev at hlastp
  have hlastn := List.getLast?_eq_some_getLast (List.ne_nil_of_mem (List.mem_of_head? hpp))
  generalize (pg next).getLast _ = ppPrev at hlastn
  have hav := hp.ring.insert_last hp.nodup hnext hlast
  have hpage := hp.pageRing.seg.splice hring.seg hndp hfirst hlastp hpp hlastn
  have heq := mergesetup_eq hp hs rfl hlast hpages hring hpp hlastn hfirst hlastp
  have hmforw : m.forw = some bp1 := hp.forw
  have hmpages : m.pages = some ppMerge := hp.pages.trans hfirst
  have hable' : ∀ c ∈ bp1 :: cs' ++ [next], mergeable t (d c) = true := fun c hc => by
    rcases List.mem_append.mp hc with hc | hc
    · exact hp.able c hc
    · rwa [List.mem_singleton.mp hc]
  have hflat : (bp1 :: cs' ++ [next]).flatMap pg = (bp1 :: cs').flatMap pg ++ pg next := by
    rw [List.flatMap_append, List.flatMap_singleton]
  have hmem {x : β} {c : List β} (h : ∀ x ∈ bp1 :: cs' ++ [next], x ∉ c)
      (hx : x ∈ bp1 :: cs' ∨ x = next) : x ∉ c := h x (by simpa [or_assoc] using hx)
  have hkeep : ∀ c, IsRing s.av c → (∀ x ∈ bp1 :: cs' ++ [next], x ∉ c) →
      IsRing ((s.av.set back next).set next bp1) c := fun c hc hout =>
    (hc.set_of_notMem (hmem hout (Or.inl (List.mem_of_getLast? hlast)))
      (hmem hout (Or.inr rfl))).set_of_notMem (hmem hout (Or.inr rfl))
        (hmem hout (Or.inl List.mem_cons_self))
  have hkeepp : ∀ c, IsRing s.page c → (∀ p ∈ (bp1 :: cs' ++ [next]).flatMap pg, p ∉ c) →
      IsRing ((s.page.set ppMergePrev pp).set ppPrev ppMerge) c := fun c hc hout => by
    rw [hflat] at hout
    exact (hc.set_of_notMem (hout _ (List.mem_append_left _ (List.mem_of_getLast? hlastp)))
      (hout _ (List.mem_append_right _ (List.mem_of_head? hpp)))).set_of_notMem
        (hout _ (List.mem_append_right _ (List.mem_of_getLast? hlastn)))
        (hout _ (List.mem_append_left _ (List.mem_of_head? hfirst)))
  by_cases hlt : m.dblk < (d next).dblk
  · -- upwards: `next` goes to the end
    rw [if_pos hlt] at heq
    refine ⟨_, _, _, heq, ⟨by simp, hav, hnd, hmforw, ?_, ?_, hable',
      mergeable_add hp.mergeable hable _ _ _,
      hp.covers.append hp.ne (mergeable_dvd hp.mergeable) (by omega)⟩, List.Perm.refl _,
      ⟨_, _, rfl⟩, hkeep, hkeepp⟩
    · rw [hflat]
      exact hpage
    · rw [hflat, List.head?_append_of_ne_nil _ (List.ne_nil_of_mem (List.mem_of_head? hfirst)),
        hfirst]
      exact hmpages
  · -- downwards: it goes in front
    rw [if_neg hlt] at heq
    have hcomm : (bp1 :: cs' ++ [next]).Perm (next :: bp1 :: cs') :=
      List.perm_append_singleton next _
    refine ⟨_, _, next :: bp1 :: cs', heq, ⟨by simp, IsRing.rotate hav, hcomm.nodup_iff.mp hnd,
      rfl, ?_, ?_, fun c hc => hable' c (hcomm.mem_iff.mpr hc),
      mergeable_add hp.mergeable hable _ _ _,
      hp.covers.prepend (mergeable_dvd hp.mergeable) (by omega) hadj.symm⟩, hcomm,
      ⟨_, _, rfl⟩, hkeep, hkeepp⟩
    · exact hpage.rotate
    · rw [List.flatMap_cons,
        List.head?_append_of_ne_nil _ (List.ne_nil_of_mem (List.mem_of_head? hpp)), hpp]

/-! ## The loop -/

/-- The queue with the rings `l`, whose bufs have the pages `pg`. -/
structure QueueOk (d : β → MBuf β ρ) (pg : β → List ρ) (s : Qmerge β ρ) (l : Pri → List β) :
    Prop where
  rings : RingsOk s.av s.hd l
  flags : FlagsOk s.flags s.hd
  cnt : s.cnt = (held l).length
  same : Same d s
  pages : ∀ b ∈ held l, (d b).flags.pageio = true → IsRing s.page (pg b)

variable {s' : Qmerge β ρ} {l l' : Pri → List β} {next : β}

omit [DecidableEq β] [DecidableEq ρ] in
theorem Same.step (h : Same d s) (h' : SameBufs s s') : Same d s' := by
  intro x
  rcases h x with ⟨e, he⟩
  rcases h'.buf x with ⟨e', he'⟩
  exact ⟨e', by rw [he', he]⟩

omit [DecidableEq β] [DecidableEq ρ] in
theorem Taken.queueOk (h : Taken s s' l l' next) (hq : QueueOk d pg s l) : QueueOk d pg s' l' where
  rings := h.rings
  flags := h.flags
  cnt := by
    rw [h.cnt, hq.cnt, h.perm.length_eq]
    rfl
  same := hq.same.step h.same
  pages b hb hio := by
    rw [h.same.page]
    exact hq.pages b (h.perm.mem_iff.mpr (List.mem_cons_of_mem next hb)) hio

omit [DecidableEq β] [DecidableEq ρ] in
theorem Stays.queueOk (h : Stays s s' l l') (hq : QueueOk d pg s l) : QueueOk d pg s' l' where
  rings := h.rings
  flags := h.flags
  cnt := by rw [h.cnt, hq.cnt, h.perm.length_eq]
  same := hq.same.step h.same
  pages b hb hio := by
    rw [h.same.page]
    exact hq.pages b (h.perm.mem_iff.mpr hb) hio

omit [DecidableEq β] [DecidableEq ρ] in
/-- The merged buf is nothing to `qmerge_nextbp`. -/
theorem MergeParts.frame (hp : MergeParts t d pg s m cs)
    (hnext : ∀ c ∈ cs, s'.av.next c = s.av.next c) (hprev : ∀ c ∈ cs, s'.av.prev c = s.av.prev c)
    (hpage : s'.page = s.page) : MergeParts t d pg s' m cs :=
  { hp with
    ring := hp.ring.congr hnext hprev
    pageRing := by
      rw [hpage]
      exact hp.pageRing }

omit [DecidableEq β] [DecidableEq ρ] in
/-- Nor are the rings and pages of other bufs to the bufs of the queue. -/
theorem QueueOk.frame (hq : QueueOk d pg s l) (cs : List β) {av : Links β} {page : Links ρ}
    (hs : s' = { s with av := av, page := page }) (hout : ∀ c ∈ cs, c ∉ held l)
    (hpg : Paged d pg (cs ++ held l)) (hio : ∀ c ∈ cs, (d c).flags.pageio = true)
    (hav : ∀ c, IsRing s.av c → (∀ x ∈ cs, x ∉ c) → IsRing s'.av c)
    (hpage : ∀ c, IsRing s.page c → (∀ p ∈ cs.flatMap pg, p ∉ c) → IsRing s'.page c) :
    QueueOk d pg s' l where
  rings :=
    { hq.rings with
      ring := fun p => hav _ (hq.rings.ring p) fun x hx hm => hout x hx (mem_held.mpr ⟨p, hm⟩)
      head := fun p => by rw [hq.rings.head, hs] }
  flags := by
    rw [hs]
    exact hq.flags
  cnt := by
    rw [hs]
    exact hq.cnt
  same x := by
    rw [hs]
    exact hq.same x
  pages b hb hiob := by
    refine hpage _ (hq.pages b hb hiob) fun p hp hpb => ?_
    rcases List.mem_flatMap.mp hp with ⟨c, hc, hpc⟩
    exact hpg.apart c (List.mem_append_left _ hc) b (List.mem_append_right _ hb) (hio c hc) hiob
      (fun hcb => hout c hc (hcb ▸ hb)) hpc hpb

omit [DecidableEq β] [DecidableEq ρ] in
/-- What `qmerge_nextbp` has asked, of the bufs as they were queued. -/
theorem canMerge_of_not_refuses (hs : Same d s) (h : refuses t s next (some m) = false) :
    canMerge t (d next) m = true := by
  rcases hs next with ⟨e, he⟩
  rw [refuses, Option.any_some, Bool.not_eq_false', he] at h
  exact h

/-- A buf that has been taken from the queue becomes a part. -/
theorem mergesetup_step (hq : QueueOk d pg s l) (hp : MergeParts t d pg s m cs)
    (hpg : Paged d pg (cs ++ next :: held l)) (hout : ∀ c ∈ cs, c ∉ next :: held l)
    (hnext : next ∉ held l) (hring : IsRing s.page (pg next))
    (hcan : canMerge t (d next) m = true) :
    ∃ s' m' cs', mergesetup s m next = some (s', m') ∧ QueueOk d pg s' l ∧
      MergeParts t d pg s' m' cs' ∧ (cs ++ [next]).Perm cs' ∧ s'.exits = s.exits := by
  have hsub : ∀ c ∈ cs ++ [next], c ∈ cs ++ next :: held l := fun c hc => by
    rcases List.mem_append.mp hc with hc | hc
    · exact List.mem_append_left _ hc
    · rw [List.mem_singleton.mp hc]
      exact List.mem_append_right _ List.mem_cons_self
  rcases mergesetup_spec hp hq.same (hpg.subset hsub) hring
      (fun hm => hout next hm List.mem_cons_self) hcan with
    ⟨s', m', cs', heq, hparts, hcs, ⟨av, page, hs'⟩, hav, hpage⟩
  refine ⟨s', m', cs', heq, ?_, hparts, hcs, by rw [hs']⟩
  refine hq.frame (cs ++ [next]) hs' (fun c hc hm => ?_) (hpg.subset fun c hc => ?_)
    (fun c hc => mergeable_pageio (hparts.able c (hcs.mem_iff.mp hc))) hav hpage
  · rcases List.mem_append.mp hc with hc | hc
    · exact hout c hc (List.mem_cons_of_mem next hm)
    · rw [List.mem_singleton.mp hc] at hm
      exact hnext hm
  · rcases List.mem_append.mp hc with hc | hc
    · exact hsub c hc
    · exact List.mem_append_right _ (List.mem_cons_of_mem next hc)

/-- Once there is a merged buf, the loop returns it, with what it has taken along. -/
theorem delLoop_merged (k : Casts β) (alloc : Bool) (bp : β) {n : Nat} (merge : Bool)
    (hq : QueueOk d pg s l) (hp : MergeParts t d pg s m cs) (hpg : Paged d pg (cs ++ held l))
    (hout : ∀ c ∈ cs, c ∉ held l) (hn : (held l).length < n) :
    ∃ s' m' cs' l', delLoop t k alloc bp n s (some m) merge = some (s', .merged m') ∧
      QueueOk d pg s' l' ∧ MergeParts t d pg s' m' cs' ∧
      (cs ++ held l).Perm (cs' ++ held l') ∧ cs.length ≤ cs'.length ∧
      (∀ blk : β → Nat, ∀ p, cyc blk (l' p) ≤ cyc blk (l p)) ∧ s'.exits = s.exits := by
  -- by induction on the rounds, each of which takes a buf from the queue
  induction n generalizing s m cs l merge with
  | zero => cases hn
  | succ n ih =>
      unfold delLoop
      cases merge with
      | false =>
          exact ⟨s, m, cs, l, rfl, hq, hp, List.Perm.refl _, le_refl _, fun _ _ => le_refl _, rfl⟩
      | true =>
          rw [if_neg (by decide), Option.getD_some]
          rcases nextbp_spec t k (some m) hq.rings hq.flags hq.cnt with
            ⟨s1, l1, heq, -, hstay⟩ | ⟨s1, l1, next, merge, heq, href, htaken⟩
          · -- nothing fits, and at most the heads have moved
            rw [heq]
            refine ⟨s1, m, cs, l1, rfl, hstay.queueOk hq, hp.frame (fun c _ => ?_) (fun c _ => ?_)
              hstay.same.page, hstay.perm.append_left cs, le_refl _, fun blk p => ?_,
              hstay.same.exits⟩
            · rw [hstay.av]
            · rw [hstay.av]
            · rw [cyc_of_isRotated (hstay.rotated p)]
          · -- `next` becomes a part, and the other bufs of the queue see nothing of it
            rw [heq]
            have hcan := canMerge_of_not_refuses hq.same href
            have hmem {c : β} (hc : c ∈ next :: held l1) : c ∈ held l :=
              htaken.perm.mem_iff.mpr hc
            have hring : IsRing s1.page (pg next) := by
              rw [htaken.same.page]
              exact hq.pages next (hmem List.mem_cons_self)
                (mergeable_pageio (canMerge_iff.mp hcan).1.1)
            rcases mergesetup_step (htaken.queueOk hq)
                (hp.frame (fun c hc => htaken.next c (hout c hc))
                  (fun c hc => htaken.prev c (hout c hc)) htaken.same.page)
                (hpg.subset fun c hc => (htaken.perm.append_left cs).mem_iff.mpr hc)
                (fun c hc hm => hout c hc (hmem hm))
                (List.nodup_cons.mp (htaken.perm.nodup_iff.mp hq.rings.nodup_held)).1 hring
                hcan with
              ⟨s2, m2, cs2, heq2, hq2, hp2, hcs, hexits⟩
            have hperm : (cs ++ held l).Perm (cs2 ++ held l1) := by
              refine (htaken.perm.append_left cs).trans ?_
              rw [← List.singleton_append, ← List.append_assoc]
              exact hcs.append_right _
            have hlen := htaken.perm.length_eq
            rw [List.length_cons] at hlen
            have hnd : (cs2 ++ held l1).Nodup := hperm.nodup_iff.mp
              (List.nodup_append.mpr ⟨hp.nodup, hq.rings.nodup_held, fun c hc x hx hcx =>
                hout c hc (hcx ▸ hx)⟩)
            rcases ih merge hq2 hp2 (hpg.subset fun c hc => hperm.mem_iff.mpr hc)
                (fun c hc hm => (List.nodup_append.mp hnd).2.2 c hc c hm rfl) (by omega) with
              ⟨s3, m3, cs3, l3, heq3, hq3, hp3, hperm3, hlen3, hcyc3, hexits3⟩
            refine ⟨s3, m3, cs3, l3, ?_, hq3, hp3, hperm.trans hperm3, ?_, fun blk p => ?_,
              hexits3.trans (hexits.trans htaken.same.exits)⟩
            · simp only [heq2, Option.bind_some]
              exact heq3
            · have hcslen := hcs.length_eq
              rw [List.length_append] at hcslen
              omega
            · exact (hcyc3 blk p).trans (htaken.cyc_le blk p)

/-! ## The call -/

/-- The bufs that a call has returned: one, or the parts of a merged buf as its ring has
    them. -/
def Carries (s : Qmerge β ρ) : Ret β ρ → List β → Prop
  | .null, cs => cs = []
  | .buf bp, cs => cs = [bp]
  | .merged m, cs => IsRing s.av cs ∧ cs.Nodup ∧ cs.head? = m.forw

/-- `kmem_alloc` is called: the first buf may be merged, and there is one to merge it
    with. -/
def allocates (t : Tunables) (k : Casts β) (s : Qmerge β ρ) : Bool :=
  match nextbp t k s none with
  | some (s1, some (bp, true)) =>
    match nextbp t k s1 (some (s1.buf bp)) with
    | some (_, some _) => true
    | _ => false
  | _ => false

/-- What `qmerge_del` has taken from the queue: the bufs `cs` that it returns, and the
    bufs `lost` that it does not. -/
structure Delivered (t : Tunables) (k : Casts β) (alloc : Bool) (d : β → MBuf β ρ)
    (pg : β → List ρ) (s : Qmerge β ρ) (l : Pri → List β) (s' : Qmerge β ρ) (r : Ret β ρ)
    (cs lost : List β) (l' : Pri → List β) : Prop where
  ok : QueueOk d pg s' l'
  carries : Carries s' r cs
  perm : (held l).Perm (cs ++ lost ++ held l')
  ne : held l ≠ [] → cs ≠ []
  cyc_le : ∀ blk : β → Nat, ∀ p, cyc blk (l' p) ≤ cyc blk (l p)
  exits : s'.exits = s.exits + lost.length
  lost : lost ≠ [] → alloc = false ∧ allocates t k s = true
  merged : ∀ m, r = .merged m → MergeParts t d pg s' m cs ∧ 2 ≤ cs.length

omit [DecidableEq ρ] in
/-- The first part. -/
theorem startMerge_parts {bp : β} (hq : QueueOk d pg s l) (hbp : bp ∉ held l)
    (hpg : Paged d pg (bp :: held l)) (hring : IsRing s.page (pg bp))
    (hable : mergeable t (d bp) = true) :
    QueueOk d pg (startMerge s bp).1 l ∧
      MergeParts t d pg (startMerge s bp).1 (startMerge s bp).2 [bp] := by
  have hio := mergeable_pageio hable
  rcases hq.same bp with ⟨e, he⟩
  constructor
  · refine hq.frame [bp] rfl (fun c hc => ?_) hpg (fun c hc => ?_)
      (fun c hc hout => ?_) fun c hc _ => hc
    · rwa [List.mem_singleton.mp hc]
    · rwa [List.mem_singleton.mp hc]
    · have hbc := hout bp List.mem_cons_self
      exact hc.set_of_notMem hbc hbc
  · have hone : Paged d pg [bp] := hpg.subset (by simp)
    have hpages := hone.head?_flatMap hio
    refine ⟨by simp, (isSeg_singleton bp).close (List.nodup_singleton bp) rfl rfl,
      List.nodup_singleton bp, rfl, ?_, ?_, fun c hc => ?_, ?_, ?_⟩
    · rwa [List.flatMap_singleton]
    · rw [hpages]
      simp [startMerge, he]
    · rwa [List.mem_singleton.mp hc]
    · simp only [startMerge, he]
      exact hable
    · simp only [startMerge, he]
      exact partsCover_singleton d bp

/-- The first two parts. -/
theorem first_merge {bp : β} {x : MBuf β ρ} (hq : QueueOk d pg s l)
    (hpg : Paged d pg (bp :: next :: held l)) (hnd : (bp :: next :: held l).Nodup)
    (hring : ∀ c ∈ bp :: next :: held l, (d c).flags.pageio = true → IsRing s.page (pg c))
    (hx : ∃ e, x = { d bp with error := e })
    (hmay : canMerge t (d next) x = true) :
    ∃ s' m' cs', mergesetup (startMerge s bp).1 (startMerge s bp).2 next = some (s', m') ∧
      QueueOk d pg s' l ∧ MergeParts t d pg s' m' cs' ∧ [bp, next].Perm cs' ∧
      s'.exits = s.exits := by
  rcases hx with ⟨e, rfl⟩
  rcases hq.same bp with ⟨e', he'⟩
  have hcan : canMerge t (d next) (d bp) = true := hmay
  have hboth := (canMerge_iff.mp hcan).1
  have hbp := (List.nodup_cons.mp hnd).1
  rcases startMerge_parts hq (fun hm => hbp (List.mem_cons_of_mem next hm))
      (hpg.subset fun c hc => by
        rcases List.mem_cons.mp hc with rfl | hc
        · exact List.mem_cons_self
        · exact List.mem_cons_of_mem _ (List.mem_cons_of_mem next hc))
      (hring bp List.mem_cons_self (mergeable_pageio hboth.2)) hboth.2 with ⟨hq1, hp1⟩
  have hcan1 : canMerge t (d next) (startMerge s bp).2 = true := by
    simp only [startMerge, he']
    exact hcan
  exact mergesetup_step hq1 hp1 hpg (fun c hc hm => hbp (List.mem_singleton.mp hc ▸ hm))
    (List.nodup_cons.mp (List.nodup_cons.mp hnd).2).1
    (hring next (by simp) (mergeable_pageio hboth.1)) hcan1

/-- The merged buf from its first two parts on. -/
theorem delLoop_first {bp : β} {x : MBuf β ρ} (k : Casts β) {n : Nat} (merge : Bool)
    (hq : QueueOk d pg s l) (hpg : Paged d pg (bp :: next :: held l))
    (hnd : (bp :: next :: held l).Nodup)
    (hring : ∀ c ∈ bp :: next :: held l, (d c).flags.pageio = true → IsRing s.page (pg c))
    (hx : ∃ e, x = { d bp with error := e }) (hmay : canMerge t (d next) x = true)
    (hn : (held l).length < n) :
    ∃ s' m' cs' l',
      ((mergesetup (startMerge s bp).1 (startMerge s bp).2 next).bind fun r =>
        delLoop t k true bp n r.1 (some r.2) merge) = some (s', .merged m') ∧
      QueueOk d pg s' l' ∧ MergeParts t d pg s' m' cs' ∧
      (bp :: next :: held l).Perm (cs' ++ held l') ∧ 2 ≤ cs'.length ∧
      (∀ blk : β → Nat, ∀ p, cyc blk (l' p) ≤ cyc blk (l p)) ∧ s'.exits = s.exits := by
  rcases first_merge hq hpg hnd hring hx hmay with ⟨s1, m1, cs1, heq1, hq1, hp1, hcs1, hexits1⟩
  have hperm : (bp :: next :: held l).Perm (cs1 ++ held l) := hcs1.append_right _
  have hnd1 := hperm.nodup_iff.mp hnd
  rcases delLoop_merged k true bp merge hq1 hp1 (hpg.subset fun c hc => hperm.mem_iff.mpr hc)
      (fun c hc hm => (List.nodup_append.mp hnd1).2.2 c hc c hm rfl) hn with
    ⟨s2, m2, cs2, l2, heq2, hq2, hp2, hperm2, hlen2, hcyc2, hexits2⟩
  refine ⟨s2, m2, cs2, l2, ?_, hq2, hp2, hperm.trans hperm2, ?_, hcyc2, hexits2.trans hexits1⟩
  · rw [heq1, Option.bind_some, heq2]
  · have hlen1 : 2 = cs1.length := hcs1.length_eq
    rwa [← hlen1] at hlen2

omit [DecidableEq ρ] in
/-- A single buf is returned, and `lost` is forgotten. -/
theorem Delivered.of_buf {k : Casts β} {alloc : Bool} {bp : β} {lost : List β}
    (hok : QueueOk d pg s' l') (hperm : (held l).Perm (bp :: (lost ++ held l')))
    (hcyc : ∀ blk : β → Nat, ∀ p, cyc blk (l' p) ≤ cyc blk (l p))
    (hexits : s'.exits = s.exits + lost.length)
    (hlost : lost ≠ [] → alloc = false ∧ allocates t k s = true) :
    Delivered t k alloc d pg s l s' (.buf bp) [bp] lost l' where
  ok := hok
  carries := rfl
  perm := hperm
  ne _ := List.cons_ne_nil bp []
  cyc_le := hcyc
  exits := hexits
  lost := hlost
  merged m hm := by cases hm

/-- `qmerge_del` returns. A buf is lost only if `kmem_alloc` is called and has no
    memory. -/
theorem qmergeDel_spec (k : Casts β) (alloc : Bool) (hq : QueueOk d pg s l)
    (hpg : Paged d pg (held l)) :
    ∃ s' r cs lost l', qmergeDel t k alloc s = some (s', r) ∧
      Delivered t k alloc d pg s l s' r cs lost l' := by
  by_cases hne : held l = []
  · refine ⟨s, .null, [], [], l, ?_, hq, rfl, List.Perm.refl _, fun h => absurd hne h,
      fun _ _ => le_refl _, rfl, fun h => absurd rfl h, fun m hm => by cases hm⟩
    rw [qmergeDel, if_pos (by rw [hq.cnt, hne]; rfl)]
  rcases nextbp_spec t k none hq.rings hq.flags hq.cnt with
    ⟨s1, l1, heq, hnull, -⟩ | ⟨s1, l1, bp, merge, heq, -, htaken⟩
  · rcases hnull with hnull | hnull
    · exact absurd hnull hne
    · exact absurd rfl hnull
  have hq1 := htaken.queueOk hq
  have hlen := htaken.perm.length_eq
  have hdel : qmergeDel t k alloc s =
      delLoop t k alloc bp ((held l1).length + 1) s1 none merge := by
    have hcnt : s.cnt = (held l1).length + 1 := by rw [hq.cnt, hlen, List.length_cons]
    rw [qmergeDel, if_neg (by rw [hcnt]; exact Nat.succ_ne_zero _), heq, hcnt]
  rw [hdel]
  unfold delLoop
  cases merge with
  | false =>
      exact ⟨s1, .buf bp, [bp], [], l1, rfl, .of_buf hq1 htaken.perm htaken.cyc_le
        htaken.same.exits fun h => absurd rfl h⟩
  | true =>
      rw [if_neg (by decide), Option.getD_none]
      rcases nextbp_spec t k (some (s1.buf bp)) hq1.rings hq1.flags hq1.cnt with
        ⟨s2, l2, heq2, -, hstay⟩ | ⟨s2, l2, next, merge, heq2, href, htaken2⟩
      · rw [heq2]
        refine ⟨s2, .buf bp, [bp], [], l2, rfl, .of_buf (hstay.queueOk hq1)
          (htaken.perm.trans (hstay.perm.cons bp)) (fun blk p => ?_)
          (hstay.same.exits.trans htaken.same.exits) fun h => absurd rfl h⟩
        rw [← cyc_of_isRotated (hstay.rotated p)]
        exact htaken.cyc_le blk p
      · rw [heq2]
        have hq2 := htaken2.queueOk hq1
        have hperm : (held l).Perm (bp :: next :: held l2) :=
          htaken.perm.trans (htaken2.perm.cons bp)
        have hcyc (blk : β → Nat) (p : Pri) : cyc blk (l2 p) ≤ cyc blk (l p) :=
          (htaken2.cyc_le blk p).trans (htaken.cyc_le blk p)
        have hexits : s2.exits = s.exits := htaken2.same.exits.trans htaken.same.exits
        cases alloc with
        | false =>
            -- no memory: `next` is on no ring, and is not returned
            refine ⟨_, .buf bp, [bp], [next], l2, rfl, .of_buf ⟨hq2.rings, hq2.flags, hq2.cnt,
              hq2.same, hq2.pages⟩ hperm hcyc ?_ fun _ => ⟨rfl, ?_⟩⟩
            · rw [List.length_singleton, ← hexits]
            · simp only [allocates, heq, heq2]
        | true =>
            have hrings : ∀ c ∈ bp :: next :: held l2, (d c).flags.pageio = true →
                IsRing s2.page (pg c) := fun c hc hio => by
              rw [htaken2.same.page.trans htaken.same.page]
              exact hq.pages c (hperm.mem_iff.mpr hc) hio
            have hlen2 := htaken2.perm.length_eq
            rw [List.length_cons] at hlen2
            have hn : (held l2).length < (held l1).length := by omega
            rcases delLoop_first k merge hq2 (hpg.subset fun c hc => hperm.mem_iff.mpr hc)
                (hperm.nodup_iff.mp hq.rings.nodup_held) hrings (hq1.same bp)
                (canMerge_of_not_refuses hq1.same href) hn with
              ⟨s3, m3, cs3, l3, heq3, hq3, hp3, hperm3, hlen3, hcyc3, hexits3⟩
            refine ⟨s3, .merged m3, cs3, [], l3, heq3, hq3,
              ⟨hp3.ring, hp3.nodup, hp3.forw.symm⟩, ?_, fun _ => hp3.ne,
              fun blk p => (hcyc3 blk p).trans (hcyc blk p), hexits3.trans hexits,
              fun h => absurd rfl h, fun m hm => ?_⟩
            · rw [List.append_nil]
              exact hperm.trans hperm3
            · cases hm
              exact ⟨hp3, hlen3⟩

end Disk

end Sil3112
