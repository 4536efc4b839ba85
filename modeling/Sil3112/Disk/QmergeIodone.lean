import Sil3112.Disk.QmergeRun

/-!
# Completing a Merged Buf

`qmerge_iodone` takes a merged buf apart again. Round by round it cuts the first part off
both rings, marks it if the merged buf has failed, and calls `biodone`. The loop ends when
one part is left, and for this one `biodone` is called behind the loop, where nobody marks
it: of a transfer that fails, the last part is completed as if it had not.

Apart from that merging and taking apart are inverse. What happens in between is that the
merged buf is filled in with the outcome, while the rings of its parts and pages stay as
they are.

## Main definitions

* `MergedOf`: A merged buf is made of its parts.
* `Undone`: The parts are completed, each on its own.
* `MergeInverse`: Both.
* `Completes`: The merged buf with its outcome.

## Theorems

* `iodoneLoop_spec`: The loop, from any part on.
* `merge_inverse_iff`: Merging and taking apart are inverse unless the last part misses
  the error.
-/

namespace Sil3112

namespace Disk

open Rings Transition

variable {β ρ : Type} [DecidableEq β] [DecidableEq ρ] {q q' : Qmerge β ρ} {m : MBuf β ρ}
  {pg : β → List ρ}

/-! ## The loop -/

/-- A part of a merged buf that has failed. -/
def MBuf.fail (m d : MBuf β ρ) : MBuf β ρ :=
  { d with error := m.error, flags := { d.flags with error := true } }

/-- The bufs that the loop has passed are marked if the merged buf has failed. -/
def marked (m : MBuf β ρ) (buf : β → MBuf β ρ) (cs : List β) (x : β) : MBuf β ρ :=
  if m.flags.error = true ∧ x ∈ cs then m.fail (buf x) else buf x

omit [DecidableEq ρ] in
theorem marked_pages (m : MBuf β ρ) (buf : β → MBuf β ρ) (cs : List β) (x : β) :
    (marked m buf cs x).pages = (buf x).pages := by
  unfold marked
  split <;> rfl

/-- What the loop needs of the parts that are left. -/
structure Chained (q : Qmerge β ρ) (pg : β → List ρ) (cs : List β) : Prop where
  ring : IsRing q.av cs
  nodup : cs.Nodup
  pageRing : IsRing q.page (cs.flatMap pg)
  pageNodup : (cs.flatMap pg).Nodup
  pages : ∀ c ∈ cs, ∃ p, (pg c).head? = some p ∧ (q.buf c).pages = some p

/-- The state behind the first round: the first part is cut off. -/
def cutFirst (q : Qmerge β ρ) (m : MBuf β ρ) (c back d : β) (pp last tmp pp1 : ρ) : Qmerge β ρ :=
  { q with
    av := q.av.set back d
    page := (q.page.set last pp).set tmp pp1
    buf := if m.flags.error then Function.update q.buf c (m.fail (q.buf c)) else q.buf }

/-- One round: the first part is cut off both rings. -/
theorem iodoneLoop_round {c d : β} {cs : List β} (h : Chained q pg (c :: d :: cs)) :
    ∃ q1, (∀ n, iodoneLoop m (n + 1) q c = (q1.av.next d).bind fun next =>
        if d ≠ next then (iodoneLoop m n q1 d).map fun r => (r.1, c :: r.2)
        else some (q1, [c, d])) ∧
      Chained q1 pg (d :: cs) ∧ IsRing q1.page (pg c) ∧
      (∀ a, IsRing q.page a → (∀ p ∈ (c :: d :: cs).flatMap pg, p ∉ a) → IsRing q1.page a) ∧
      q1.buf = marked m q.buf [c] := by
  -- the first pages of `c` and of `d`, and the pages before them: `tmp` ends the ring
  -- of the merged buf, and `last` ends the pages of `c`
  rcases h.pages c (by simp) with ⟨pp, hpp, hpages⟩
  rcases h.pages d (by simp) with ⟨pp1, hpp1, hpages1⟩
  have hpp1' : ((d :: cs).flatMap pg).head? = some pp1 := by
    rw [List.flatMap_cons,
      List.head?_append_of_ne_nil _ (List.ne_nil_of_mem (List.mem_of_head? hpp1)), hpp1]
  have hback := List.getLast?_eq_some_getLast (List.cons_ne_nil d cs)
  generalize (d :: cs).getLast (List.cons_ne_nil d cs) = back at hback
  have hlast := List.getLast?_eq_some_getLast (List.ne_nil_of_mem (List.mem_of_head? hpp))
  generalize (pg c).getLast _ = last at hlast
  have htmp := List.getLast?_eq_some_getLast (List.ne_nil_of_mem (List.mem_of_head? hpp1'))
  generalize ((d :: cs).flatMap pg).getLast _ = tmp at htmp
  have hflat : (c :: d :: cs).flatMap pg = pg c ++ (d :: cs).flatMap pg := List.flatMap_cons
  have hpring := h.pageRing
  have hpnd := h.pageNodup
  rw [hflat] at hpring hpnd
  have hnext : q.av.next c = some d := (isSeg_cons_cons.mp h.ring.seg).1.1
  have hprev : q.av.prev c = some back := (h.ring.closed (by simpa using hback) rfl).2
  have hpprev : q.page.prev pp = some tmp := by
    refine (hpring.closed ?_ ?_).2
    · rw [getLast?_append_of_ne _ (List.ne_nil_of_mem (List.mem_of_head? hpp1')), htmp]
    · rw [List.head?_append_of_ne_nil _ (List.ne_nil_of_mem (List.mem_of_head? hpp)), hpp]
  have hpprev1 : q.page.prev pp1 = some last :=
    ((isSeg_append.mp hpring.seg).2.2 last hlast pp1 hpp1').2
  -- the pages of `c` are closed to a ring, and so are those that are left
  have hcut := hpring.seg.cut hpnd hpp hlast hpp1' htmp
  have hbuf : (cutFirst q m c back d pp last tmp pp1).buf = marked m q.buf [c] := by
    funext x
    by_cases he : m.flags.error = true
    · by_cases hx : x = c
      · subst hx
        simp [cutFirst, marked, he]
      · simp [cutFirst, marked, he, hx]
    · simp [cutFirst, marked, he]
  refine ⟨cutFirst q m c back d pp last tmp pp1, fun n => ?_,
    ⟨(isSeg_cons_cons.mp h.ring.seg).2.close (List.nodup_cons.mp h.nodup).2 hback rfl,
      (List.nodup_cons.mp h.nodup).2, hcut.2, (List.nodup_append.mp hpnd).2.1, fun b hb => ?_⟩,
    hcut.1, fun a ha hout => ?_, hbuf⟩
  · rw [iodoneLoop, hnext, Option.bind_some, hprev, Option.bind_some, hpages, Option.bind_some,
      hpages1, Option.bind_some, hpprev, Option.bind_some, hpprev1, Option.bind_some]
    rfl
  · rw [hbuf, marked_pages]
    exact h.pages b (List.mem_cons_of_mem c hb)
  · rw [hflat] at hout
    exact (ha.set_of_notMem (hout _ (List.mem_append_left _ (List.mem_of_getLast? hlast)))
      (hout _ (List.mem_append_left _ (List.mem_of_head? hpp)))).set_of_notMem
        (hout _ (List.mem_append_right _ (List.mem_of_getLast? htmp)))
        (hout _ (List.mem_append_right _ (List.mem_of_head? hpp1')))

omit [DecidableEq ρ] in
theorem marked_append (m : MBuf β ρ) (buf : β → MBuf β ρ) {c : β} {cs : List β} (hc : c ∉ cs) :
    marked m (marked m buf [c]) cs = marked m buf (c :: cs) := by
  funext x
  by_cases he : m.flags.error = true
  · by_cases hx : x = c
    · subst hx
      simp [marked, he, hc]
    · simp [marked, he, hx]
  · simp [marked, he]

/-- The loop ends. It calls `biodone` once for every part, leaves each with its own ring
    of pages, and marks all parts but the last one. -/
theorem iodoneLoop_spec {c d : β} {cs : List β} (h : Chained q pg (c :: d :: cs)) :
    ∃ q1, (∀ n, cs.length < n → iodoneLoop m n q c = some (q1, c :: d :: cs)) ∧
      (∀ b ∈ c :: d :: cs, IsRing q1.page (pg b)) ∧
      (∀ a, IsRing q.page a → (∀ p ∈ (c :: d :: cs).flatMap pg, p ∉ a) → IsRing q1.page a) ∧
      q1.buf = marked m q.buf (c :: d :: cs).dropLast := by
  induction cs generalizing q c d with
  | nil =>
      -- two parts: the loop ends, and the last one is left in a ring of its own
      rcases iodoneLoop_round (m := m) h with ⟨q1, heq, h1, hring, hkeep, hbuf⟩
      have hnext : q1.av.next d = some d := (h1.ring.closed rfl rfl).1
      refine ⟨q1, fun n hn => ?_, fun b hb => ?_, hkeep, hbuf⟩
      · rcases n with _ | n
        · cases hn
        rw [heq, hnext, Option.bind_some, if_neg (by simp)]
      · rcases List.mem_cons.mp hb with rfl | hb
        · exact hring
        · have hpage := h1.pageRing
          rwa [List.flatMap_singleton, ← List.mem_singleton.mp hb] at hpage
  | cons e cs ih =>
      -- one round takes the first part off both rings, and the others are merged still
      rcases iodoneLoop_round (m := m) h with ⟨q1, heq, h1, hring, hkeep, hbuf⟩
      have hnext : q1.av.next d = some e := (isSeg_cons_cons.mp h1.ring.seg).1.1
      have hde : d ≠ e := fun hde =>
        (List.nodup_cons.mp h1.nodup).1 (hde ▸ List.mem_cons_self)
      rcases ih h1 with ⟨q2, heq2, hrings2, hkeep2, hbuf2⟩
      have hdis := h.pageNodup
      rw [List.flatMap_cons] at hdis
      refine ⟨q2, fun n hn => ?_, fun b hb => ?_, fun a ha hout => ?_, ?_⟩
      · rcases n with _ | n
        · cases hn
        rw [heq, hnext, Option.bind_some, if_pos hde, heq2 n (Nat.lt_of_succ_lt_succ hn)]
        rfl
      · rcases List.mem_cons.mp hb with rfl | hb
        · exact hkeep2 _ hring fun p hp hpb =>
            (List.nodup_append.mp hdis).2.2 p hpb p hp rfl
        · exact hrings2 b hb
      · refine hkeep2 a (hkeep a ha hout) fun p hp => hout p ?_
        rw [List.flatMap_cons]
        exact List.mem_append_right _ hp
      · rw [hbuf2, hbuf, List.dropLast_cons_of_ne_nil (by simp)]
        exact marked_append m q.buf fun hm =>
          (List.nodup_cons.mp h.nodup).1 (List.dropLast_subset _ hm)

/-! ## Merging and taking apart -/

/-- `qmerge_del` has made `m` of the bufs `cs`, which had the pages `pg` before: they are
    a stretch of the disk, in order and without an overlap, `m` begins where they begin
    and is as long as they are together, and its pages are theirs in the same order. -/
structure MergedOf (q q' : Qmerge β ρ) (m : MBuf β ρ) (cs : List β) (pg : β → List ρ) : Prop where
  two : 2 ≤ cs.length
  parts : Carries q' (.merged m) cs
  own : ∀ c ∈ cs, PageRing q c (pg c)
  pages : IsRing q'.page (cs.flatMap pg)
  first : (cs.flatMap pg).head? = m.pages
  cover : PartsCover q.buf m.dblk m.bcount cs

/-- `qmerge_iodone` has completed the bufs `cs`, each once, with the pages `pg`, and with
    the error of the merged buf if it has one. -/
structure Undone (q : Qmerge β ρ) (m : MBuf β ρ) (cs : List β) (pg : β → List ρ)
    (q' : Qmerge β ρ) : Prop where
  once : ∀ n, cs.length ≤ n → qmergeIodone n q m = some (q', cs)
  own : ∀ c ∈ cs, PageRing q' c (pg c)
  errors : m.flags.error = true → ∀ c ∈ cs,
    (q'.buf c).flags.error = true ∧ (q'.buf c).error = m.error

/-- Merging on the way from `q` to `q'` is undone when `qmerge_iodone` is called for the
    merged buf, which is then `m2`, in `q2`. -/
def MergeInverse (q q' : Qmerge β ρ) (m : MBuf β ρ) (q2 : Qmerge β ρ) (m2 : MBuf β ρ) : Prop :=
  ∃ cs pg q3, MergedOf q q' m cs pg ∧ Undone q2 m2 cs pg q3

/-- The I/O for the merged buf `m` of `q'` ends, with any outcome in `m2`. Nobody has
    touched the rings of its parts and pages. -/
structure Completes (q' : Qmerge β ρ) (m : MBuf β ρ) (q2 : Qmerge β ρ) (m2 : MBuf β ρ) :
    Prop where
  forw : m2.forw = m.forw
  next : ∀ cs, Carries q' (.merged m) cs → ∀ c ∈ cs, q2.av.next c = q'.av.next c
  prev : ∀ cs, Carries q' (.merged m) cs → ∀ c ∈ cs, q2.av.prev c = q'.av.prev c
  pages : ∀ cs, Carries q' (.merged m) cs → ∀ c ∈ cs, (q2.buf c).pages = (q'.buf c).pages
  pageNext : ∀ c, IsRing q'.page c → c.Nodup → c.head? = m.pages → ∀ p ∈ c,
    q2.page.next p = q'.page.next p
  pagePrev : ∀ c, IsRing q'.page c → c.Nodup → c.head? = m.pages → ∀ p ∈ c,
    q2.page.prev p = q'.page.prev p

/-- The last part has the error of the merged buf already. -/
def LastFailed (q' : Qmerge β ρ) (m : MBuf β ρ) (q2 : Qmerge β ρ) (m2 : MBuf β ρ) : Prop :=
  ∀ cs, Carries q' (.merged m) cs → ∀ c ∈ cs.getLast?,
    (q2.buf c).flags.error = true ∧ (q2.buf c).error = m2.error

variable {t : Tunables} {k : Casts β}

/-- What `qmerge_del` does to the bufs that it merges, in any run. -/
theorem mergedOf_reachable {s : QmergeSys β ρ}
    (hr : Reachable (QmergeInit t) (AnyStep t k) s) {alloc : Bool}
    (hdel : qmergeDel t k alloc s.q = some (q', .merged m)) :
    ∃ cs pg, MergedOf s.q q' m cs pg ∧ (cs.flatMap pg).Nodup ∧
      ∀ c ∈ cs, (q'.buf c).pages = (s.q.buf c).pages := by
  rcases queueHeld_reachable hr with ⟨l, pg, hq⟩
  rcases del_step t k alloc hq with ⟨q1, r, cs, lost, l', heq, hd, -⟩
  rw [hdel] at heq
  cases heq
  rcases hd.merged m rfl with ⟨hp, htwo⟩
  have hmem {c : β} (hc : c ∈ cs) : c ∈ held l :=
    hd.perm.mem_iff.mpr (List.mem_append_left _ (List.mem_append_left _ hc))
  refine ⟨cs, pg, ⟨htwo, hd.carries, fun c hc => ?_, hp.pageRing, hp.pages.symm, hp.covers⟩,
    ?_, fun c _ => ?_⟩
  · exact hq.pageRing (hmem hc) (mergeable_pageio (hp.able c hc))
  · exact (hq.paged.subset fun c hc => hmem hc).nodup_flatMap hp.nodup fun c hc =>
      mergeable_pageio (hp.able c hc)
  · rcases hd.ok.same c with ⟨e, he⟩
    rw [he]

/-- Taking apart what was merged. -/
theorem qmergeIodone_spec {cs : List β} {q2 : Qmerge β ρ} {m2 : MBuf β ρ}
    (hm : MergedOf q q' m cs pg) (hnd : (cs.flatMap pg).Nodup)
    (hpages : ∀ c ∈ cs, (q'.buf c).pages = (q.buf c).pages) (hc : Completes q' m q2 m2) :
    ∃ q3, (∀ n, cs.length ≤ n → qmergeIodone n q2 m2 = some (q3, cs)) ∧
      (∀ c ∈ cs, PageRing q3 c (pg c)) ∧ q3.buf = marked m2 q2.buf cs.dropLast := by
  have hhead : ∀ b ∈ cs, ∃ p, (pg b).head? = some p ∧ (q2.buf b).pages = some p := fun b hb => by
    have hown := hm.own b hb
    have hp := List.head?_eq_some_head hown.ne
    exact ⟨_, hp, by rw [hc.pages cs hm.parts b hb, hpages b hb, ← hown.head, hp]⟩
  have hchained : Chained q2 pg cs :=
    ⟨hm.parts.1.congr (hc.next cs hm.parts) (hc.prev cs hm.parts), hm.parts.2.1,
      hm.pages.congr (hc.pageNext _ hm.pages hnd hm.first) (hc.pagePrev _ hm.pages hnd hm.first),
      hnd, hhead⟩
  match cs, hm, hchained, hhead with
  | c :: d :: cs, hm, hchained, hhead =>
      have hforw : m2.forw = some c := hc.forw.trans hm.parts.2.2.symm
      rcases iodoneLoop_spec (m := m2) hchained with ⟨q3, heq, hrings, -, hbuf⟩
      refine ⟨q3, fun n hn => ?_, fun b hb => ?_, hbuf⟩
      · rw [qmergeIodone, hforw, Option.bind_some]
        rw [List.length_cons, List.length_cons] at hn
        exact heq n (by omega)
      · have hown := hm.own b hb
        refine ⟨hown.ne, hrings b hb, hown.nodup, ?_⟩
        rcases hhead b hb with ⟨p, hp, hp2⟩
        rw [hbuf, marked_pages, hp2, hp]
  | [], hm, _, _ => exact absurd hm.two (by simp)
  | [c], hm, _, _ => exact absurd hm.two (by simp)

/-- Merging and taking apart are inverse, in every run and for every outcome, exactly if
    the merged buf has not failed or its last part has the same error already. -/
theorem merge_inverse_iff {s : QmergeSys β ρ}
    (hr : Reachable (QmergeInit t) (AnyStep t k) s) {alloc : Bool}
    (hdel : qmergeDel t k alloc s.q = some (q', .merged m)) {q2 : Qmerge β ρ} {m2 : MBuf β ρ}
    (hc : Completes q' m q2 m2) :
    MergeInverse s.q q' m q2 m2 ↔ (m2.flags.error = true → LastFailed q' m q2 m2) := by
  rcases mergedOf_reachable hr hdel with ⟨cs, pg, hm, hnd, hpages⟩
  rcases qmergeIodone_spec hm hnd hpages hc with ⟨q3, honce, hown, hbuf⟩
  constructor
  · rintro ⟨cs', pg', q3', hm', hun⟩ herr cs0 hcs0 c hlast
    -- there is one ring of parts, and one result
    have hcs' : cs' = cs := hm'.parts.unique hm.parts
    have hcs : cs0 = cs := hcs0.unique hm.parts
    subst hcs' hcs
    have hsame := (hun.once _ (le_refl _)).symm.trans (honce _ (le_refl _))
    cases hsame
    have hnot : c ∉ cs0.dropLast := fun hmem => by
      have hsplit := List.dropLast_append_getLast? c hlast
      have hnodup := hm.parts.2.1
      rw [← hsplit] at hnodup
      exact (List.nodup_append.mp hnodup).2.2 c hmem c (List.mem_singleton_self c) rfl
    have hc := hun.errors herr c (List.mem_of_getLast? hlast)
    rwa [hbuf, marked, if_neg fun h => hnot h.2] at hc
  · intro hlast
    refine ⟨cs, pg, q3, hm, honce, hown, fun herr c hmem => ?_⟩
    rw [hbuf]
    by_cases hdrop : c ∈ cs.dropLast
    · rw [marked, if_pos ⟨herr, hdrop⟩]
      exact ⟨rfl, rfl⟩
    · rw [marked, if_neg fun h => hdrop h.2]
      refine hlast herr cs hm.parts c ?_
      have hne : cs ≠ [] := List.ne_nil_of_mem hmem
      rw [← List.dropLast_append_getLast hne, List.mem_append, List.mem_singleton] at hmem
      rw [List.getLast?_eq_some_getLast hne]
      exact congrArg some (hmem.resolve_left hdrop).symm

/-- Two bufs merged, and a transfer that succeeds. -/
theorem merge_inverse_two : ∃ q m, qmergeDel .default exCasts true exTwo.q = some (q, .merged m) ∧
    MergeInverse exTwo.q q m q m := by
  rcases exTwo_merges with ⟨q, m, heq, hok, -⟩
  refine ⟨q, m, heq, (merge_inverse_iff (anyStep_of_metStep exTwo_reach) heq ?_).mpr ?_⟩
  · exact ⟨rfl, fun _ _ _ _ => rfl, fun _ _ _ _ => rfl, fun _ _ _ _ => rfl,
      fun _ _ _ _ _ _ => rfl, fun _ _ _ _ _ _ => rfl⟩
  · rw [hok]
    exact fun h => absurd h Bool.false_ne_true

/-- The merged buf after a transfer that fails. -/
def exFail (m : MBuf Nat Nat) : MBuf Nat Nat :=
  { m with error := 5, flags := { m.flags with error := true } }

theorem exTwo_completed : ∃ q m q3,
    qmergeDel .default exCasts true exTwo.q = some (q, .merged m) ∧
    (∀ n, qmergeIodone (n + 1) q (exFail m) = some (q3, [0, 1])) ∧
    (q3.buf 1).flags.error = false :=
  ⟨_, _, _, rfl, fun _ => rfl, rfl⟩

/-- The same two bufs and a transfer that fails: the second one is completed without an
    error. -/
theorem merge_not_inverse : ∃ q m,
    qmergeDel .default exCasts true exTwo.q = some (q, .merged m) ∧ Completes q m q (exFail m) ∧
    ¬MergeInverse exTwo.q q m q (exFail m) := by
  rcases exTwo_completed with ⟨q, m, q3, heq, hdone, hok⟩
  refine ⟨q, m, heq, ⟨rfl, fun _ _ _ _ => rfl, fun _ _ _ _ => rfl, fun _ _ _ _ => rfl,
    fun _ _ _ _ _ _ => rfl, fun _ _ _ _ _ _ => rfl⟩, ?_⟩
  rintro ⟨cs, pg, q3', -, hun⟩
  have hsame := (hun.once (cs.length + 1) (Nat.le_succ _)).symm.trans (hdone cs.length)
  cases hsame
  have herr := (hun.errors rfl 1 (by simp)).1
  rw [hok] at herr
  cases herr

end Disk

end Sil3112
