import Sil3112.Disk.QmergeAdd

/-!
# Taking a Buf from the Merging Queue

What `qmerge_nextbp` does to the two rings. It takes the buf at the head of one of them,
or returns NULL because the queue is empty or the buf cannot be merged. It comes back to
`begin_nextbp` when the head turns around, with flags that leave fewer ways to come back
once more, and no branch follows a NULL, since the flags say which rings there are.

## Main definitions

* `PickOk`: What a branch leaves for the last part.
* `Stays`, `Taken`: What a call changes if it returns NULL, and if it returns a buf.

## Theorems

* `nextbpRound_lt`, `nextbpRound_ok`: One round.
* `unlinkPick_ok`: The last part.
* `nextbp_spec`: The call returns, and what it changes.
-/

namespace Sil3112

namespace Disk

open Rings Descents

variable {β ρ : Type} [DecidableEq β] {t : Tunables} {m : Option (MBuf β ρ)}
  {s : Qmerge β ρ} {f : QNear} {l : Pri → List β}

/-! ## The branches -/

/-- The heads of the rings once a buf has been taken: its ring has none if it was
    alone. -/
def hdWithout (s : Qmerge β ρ) (p : Pri) (bp : β) : Pri → Option β :=
  if s.av.next bp = some bp then Function.update s.hd p none else s.hd

/-- What a branch of `qmerge_nextbp` leaves for the last part: NULL only when there is
    something to merge with, or the head of a ring, cut off if it was alone, with flags
    for the rings without it. -/
inductive PickOk (t : Tunables) (m : Option (MBuf β ρ)) (s : Qmerge β ρ) : Pick β ρ → Prop
  | null (hm : m ≠ none) : PickOk t m s (.null s)
  | take {p : Pri} {bp : β} (priv : Nat) {f : QNear} (n : Int) (hhd : s.hd p = some bp)
      (hm : refuses t s bp m = false) (hf : FlagsOk f (hdWithout s p bp)) :
      PickOk t m s (.take
        { (if s.av.next bp = some bp then s.clearAv bp else s) with sync2async := n } p bp priv f)

omit [DecidableEq β] in
theorem refuses_ne {bp : β} (h : refuses t s bp m = true) : m ≠ none := by
  rintro rfl
  cases h

omit [DecidableEq β] in
/-- The direction of the head is nothing to the rings. -/
theorem FlagsOk.turn {hd : Pri → Option β} (h : FlagsOk f hd) (b : Bool) :
    FlagsOk { f with backward := b } hd :=
  ⟨h.only, h.also, h.neither⟩

theorem PickOk.alone {p : Pri} {bp : β} (priv : Nat) (n : Int) (hhd : s.hd p = some bp)
    (hm : refuses t s bp m = false) (hnext : s.av.next bp = some bp)
    (hf : FlagsOk f (Function.update s.hd p none)) :
    PickOk t m s (.take { s.clearAv bp with sync2async := n } p bp priv f) := by
  have h := PickOk.take (f := f) priv n hhd hm (by rwa [hdWithout, if_pos hnext])
  rwa [if_pos hnext] at h

theorem PickOk.more {p : Pri} {bp y : β} (priv : Nat) (n : Int) (hhd : s.hd p = some bp)
    (hm : refuses t s bp m = false) (hnext : s.av.next bp = some y) (hne : y ≠ bp)
    (hf : FlagsOk f s.hd) : PickOk t m s (.take { s with sync2async := n } p bp priv f) := by
  have hno : s.av.next bp ≠ some bp := by
    rw [hnext]
    exact fun h => hne (Option.some.inj h)
  have h := PickOk.take (f := f) priv n hhd hm (by rwa [hdWithout, if_neg hno])
  rwa [if_neg hno] at h

theorem roundAsync_ok (h : RingsOk s.av s.hd l) (hf : FlagsOk f s.hd)
    (ho : f.asyncOnly = true) : ∃ x, roundAsync t m s f = some x ∧ PickOk t m s x := by
  have hboth : f.asyncAlso ≠ true := fun ha => (hf.also ha).1 (hf.only ho).1
  rcases Option.ne_none_iff_exists'.mp (hf.only ho).2 with ⟨bp, hbp⟩
  have hmem : bp ∈ l .async := List.mem_of_head? ((h.head .async).trans hbp)
  rcases (h.ring .async).exists_next hmem with ⟨forw, -, hforw⟩
  rcases (h.ring .async).exists_prev hmem with ⟨back, -, hback⟩
  unfold roundAsync
  simp only [hbp, Option.bind_some, hforw.1, hback.2]
  cases hm : refuses t s bp m with
  | true => exact ⟨_, rfl, .null (refuses_ne hm)⟩
  | false =>
      by_cases hne : forw = bp
      · subst hne
        refine ⟨_, (if_neg Bool.false_ne_true).trans (if_pos rfl),
          PickOk.alone 0 s.sync2async hbp hm hforw.1 ⟨?_, ?_, ?_⟩⟩
        · simp
        · exact fun ha => absurd ha hboth
        · simp
      · have hmore (priv : Nat) {f' : QNear} (hf' : FlagsOk f' s.hd) :
            PickOk t m s (.take s .async bp priv f') :=
          PickOk.more priv s.sync2async hbp hm hforw.1 hne hf'
        simp only [Bool.false_eq_true, if_false, hne]
        split
        · split
          · exact ⟨_, rfl, hmore 0 (hf.turn false)⟩
          · exact ⟨_, rfl, hmore _ hf⟩
        · split
          · split
            · exact ⟨_, rfl, hmore _ (hf.turn true)⟩
            · exact ⟨_, rfl, hmore 0 hf⟩
          · split
            · exact ⟨_, rfl, hmore _ hf⟩
            · exact ⟨_, rfl, hmore _ hf⟩

omit [DecidableEq β] in
/-- The next scan may be one of both rings, if there are two. -/
theorem nextScan_ok (hf : FlagsOk f s.hd) (ho : f.asyncOnly = false)
    (hs : s.hd .sync ≠ none) :
    ∃ n, (nextScan t s f).1 = { s with sync2async := n } ∧ FlagsOk (nextScan t s f).2 s.hd := by
  unfold nextScan
  split
  · exact ⟨_, rfl, hf⟩
  · refine ⟨_, rfl, ?_⟩
    dsimp only
    split
    · next ha => exact ⟨fun h => absurd h (by simp [ho]), fun _ => ⟨hs, ha⟩, fun _ h => Bool.noConfusion h⟩
    · exact hf

theorem roundSync_ok (h : RingsOk s.av s.hd l) (hf : FlagsOk f s.hd)
    (hne : s.hd .sync ≠ none) (ho : f.asyncOnly = false) (ha : f.asyncAlso = false) :
    ∃ x, roundSync t m s f = some x ∧ PickOk t m s x := by
  rcases Option.ne_none_iff_exists'.mp hne with ⟨bp, hbp⟩
  have hmem : bp ∈ l .sync := List.mem_of_head? ((h.head .sync).trans hbp)
  rcases (h.ring .sync).exists_next hmem with ⟨forw, -, hforw⟩
  rcases (h.ring .sync).exists_prev hmem with ⟨back, -, hback⟩
  unfold roundSync
  simp only [hbp, Option.bind_some, hforw.1, hback.2]
  cases hm : refuses t s bp m with
  | true => exact ⟨_, rfl, .null (refuses_ne hm)⟩
  | false =>
      by_cases hne' : forw = bp
      · subst hne'
        refine ⟨_, (if_neg Bool.false_ne_true).trans (if_pos rfl),
          PickOk.alone 0 t.sync2async hbp hm hforw.1 ?_⟩
        have hasync : Function.update s.hd .sync none .async = s.hd .async :=
          Function.update_of_ne (by decide) ..
        constructor <;> split <;> simp_all
      · have hmore (priv : Nat) (n : Int) {f' : QNear} (hf' : FlagsOk f' s.hd) :
            PickOk t m s (.take { s with sync2async := n } .sync bp priv f') :=
          PickOk.more priv n hbp hm hforw.1 hne' hf'
        have hscan (b : Bool) : PickOk t m s (.take (nextScan t s { f with backward := b }).1 .sync
            bp 0 (nextScan t s { f with backward := b }).2) := by
          rcases nextScan_ok (t := t) (hf.turn b) ho hne with ⟨n, hn, hf'⟩
          rw [hn]
          exact hmore 0 n hf'
        simp only [Bool.false_eq_true, if_false, hne']
        split
        · split
          · exact ⟨_, rfl, hscan false⟩
          · exact ⟨_, rfl, hmore _ s.sync2async hf⟩
        · split
          · split
            · exact ⟨_, rfl, hmore _ s.sync2async (hf.turn true)⟩
            · exact ⟨_, rfl, hscan f.backward⟩
          · split
            · exact ⟨_, rfl, hmore _ s.sync2async hf⟩
            · exact ⟨_, rfl, hmore _ s.sync2async hf⟩

theorem takeNearer_ok (h : RingsOk s.av s.hd l) (hf : FlagsOk f s.hd) (ha : f.asyncAlso = true)
    {p : Pri} {bp : β} (hbp : s.hd p = some bp) :
    ∃ x, takeNearer t m s f p bp = some x ∧ PickOk t m s x := by
  have ho : f.asyncOnly ≠ true := fun ho => (hf.also ha).1 (hf.only ho).1
  have hmem : bp ∈ l p := List.mem_of_head? ((h.head p).trans hbp)
  rcases (h.ring p).exists_next hmem with ⟨forw, -, hforw⟩
  unfold takeNearer
  simp only [Option.bind_some, hforw.1]
  cases hm : refuses t s bp m with
  | true => exact ⟨_, rfl, .null (refuses_ne hm)⟩
  | false =>
      simp only [Bool.false_eq_true, if_false]
      by_cases hne : forw = bp
      · subst hne
        have hboth := hf.also ha
        cases p with
        | async =>
            refine ⟨_, if_pos rfl, PickOk.alone _ t.sync2async hbp hm hforw.1 ⟨?_, ?_, ?_⟩⟩
            · exact fun h => absurd h ho
            · exact fun h => Bool.noConfusion h
            · intro _ _ hn
              rw [Function.update_of_ne (by decide)] at hn
              exact absurd hn hboth.1
        | sync =>
            refine ⟨_, if_pos rfl, PickOk.alone _ s.sync2async hbp hm hforw.1 ⟨?_, ?_, ?_⟩⟩
            · intro _
              rw [Function.update_self, Function.update_of_ne (by decide)]
              exact ⟨rfl, hboth.2⟩
            · exact fun h => Bool.noConfusion h
            · exact fun h => Bool.noConfusion h
      · exact ⟨_, if_neg hne, PickOk.more _ s.sync2async hbp hm hforw.1 hne hf⟩

/-! ## Coming back to the begin -/

/-- How often `begin_nextbp` may be reached once more. -/
def turnsLeft (x : Qmerge β ρ × QNear) : Nat :=
  if x.2.asyncAlso then if x.2.backward then 1 else 2 else 0

/-- The state when `begin_nextbp` is reached: the heads may have moved in their rings,
    and the flags are right for them. -/
structure Begins (s : Qmerge β ρ) (l : Pri → List β) (x : Qmerge β ρ × QNear)
    (l' : Pri → List β) : Prop where
  rings : RingsOk x.1.av x.1.hd l'
  flags : FlagsOk x.2 x.1.hd
  rotated : ∀ p, (l p).IsRotated (l' p)
  frame : ∃ hd priv n, x.1 = { s with hd := hd, priv := priv, sync2async := n }

omit [DecidableEq β] in
/-- Every way back to `begin_nextbp` leaves fewer of them. -/
theorem turnBoth_lt {x y : β} {r : Qmerge β ρ × QNear} (h : turnBoth t s f x y = some r)
    (ha : f.asyncAlso = true) : turnsLeft r < turnsLeft (s, f) := by
  unfold turnBoth at h
  split at h
  · next hb =>
      rcases Option.bind_eq_some_iff.mp h with ⟨_, _, h⟩
      rcases Option.bind_eq_some_iff.mp h with ⟨_, _, h⟩
      cases h
      simp [turnsLeft, ha, hb]
  · next hb =>
      split at h
      · rcases Option.bind_eq_some_iff.mp h with ⟨_, _, h⟩
        rcases Option.bind_eq_some_iff.mp h with ⟨_, _, h⟩
        cases h
        simp [turnsLeft, ha, hb]
      · cases h
        simp [turnsLeft, ha, hb]

theorem nextbpRound_lt {x x' : Qmerge β ρ × QNear} (h : nextbpRound t m x = .inl x') :
    turnsLeft x' < turnsLeft x := by
  unfold nextbpRound at h
  split at h
  · cases h
  split at h
  · next ha =>
      unfold roundBoth at h
      split at h
      · split at h
        · split at h
          · next hturn =>
              cases h
              exact turnBoth_lt hturn ha
          · cases h
        · cases h
      · cases h
  · cases h

omit [DecidableEq β] in
/-- The heads of both rings move. -/
theorem RingsOk.moveHeads {av : Links β} {hd : Pri → Option β} (h : RingsOk av hd l) {x y : β}
    (hx : x ∈ l .sync) (hy : y ∈ l .async) :
    ∃ l', (∀ p, (l p).IsRotated (l' p)) ∧
      RingsOk av (Function.update (Function.update hd .sync (some x)) .async (some y)) l' := by
  rcases exists_isRotated_cons hx with ⟨a, ha⟩
  rcases exists_isRotated_cons hy with ⟨b, hb⟩
  refine ⟨fun p => match p with | .sync => x :: a | .async => y :: b, fun p => ?_,
    h.of_isRotated (fun p => ?_) fun p => ?_⟩
  · cases p with
    | sync => exact ha
    | async => exact hb
  · cases p with
    | sync => exact ha
    | async => exact hb
  · cases p <;> rfl

omit [DecidableEq β] in
theorem turnBoth_ok (h : RingsOk s.av s.hd l) (hf : FlagsOk f s.hd) (ha : f.asyncAlso = true)
    {x y : β} (hx : s.hd .sync = some x) (hy : s.hd .async = some y) :
    ∃ r l', turnBoth t s f x y = some r ∧ Begins s l r l' := by
  have ho : f.asyncOnly ≠ true := fun ho => (hf.also ha).1 (hf.only ho).1
  have hmx : x ∈ l .sync := List.mem_of_head? ((h.head .sync).trans hx)
  have hmy : y ∈ l .async := List.mem_of_head? ((h.head .async).trans hy)
  rcases (h.ring .sync).exists_next hmx with ⟨xn, hxn, hlx⟩
  rcases (h.ring .async).exists_next hmy with ⟨yn, hyn, hly⟩
  rcases (h.ring .sync).exists_prev hmx with ⟨xp, hxp, hlx'⟩
  rcases (h.ring .async).exists_prev hmy with ⟨yp, hyp, hly'⟩
  unfold turnBoth
  split
  · -- at the lower end: up again, and the sync ring alone
    rcases h.moveHeads hxn hyn with ⟨l', hrot, hok⟩
    refine ⟨_, l', by simp only [hlx.1, hly.1, Option.bind_some]; rfl, hok, ⟨?_, ?_, ?_⟩, hrot,
      _, _, _, rfl⟩
    · exact fun h => absurd h ho
    · exact fun h => Bool.noConfusion h
    · intro _ _ hn
      simp [Qmerge.setHd] at hn
  · split
    · -- at the upper end: down, in both rings
      rcases h.moveHeads hxp hyp with ⟨l', hrot, hok⟩
      refine ⟨_, l', by simp only [hlx'.2, hly'.2, Option.bind_some]; rfl, hok, ⟨?_, ?_, ?_⟩, hrot,
        _, _, _, rfl⟩
      · exact fun h => absurd h ho
      · exact fun _ => ⟨by simp [Qmerge.setHd], by simp [Qmerge.setHd]⟩
      · exact fun _ h => absurd ha (by rw [h]; exact Bool.false_ne_true)
    · refine ⟨_, l, rfl, h, ⟨?_, ?_, ?_⟩, fun p => List.IsRotated.refl _, _, _, _, rfl⟩
      · exact fun h => absurd h ho
      · exact fun h => Bool.noConfusion h
      · intro _ _ hn
        rw [hx] at hn
        cases hn

omit [DecidableEq β] in
theorem Begins.trans {x : Qmerge β ρ × QNear} {r : Qmerge β ρ × QNear} {l' l'' : Pri → List β}
    (h : Begins s l x l') (h' : Begins x.1 l' r l'') : Begins s l r l'' where
  rings := h'.rings
  flags := h'.flags
  rotated p := (h.rotated p).trans (h'.rotated p)
  frame := by
    rcases h.frame with ⟨hd, priv, n, hx⟩
    rcases h'.frame with ⟨hd', priv', n', hr⟩
    exact ⟨hd', priv', n', by rw [hr, hx]⟩

/-- A round of a queue with a buf in it comes back to `begin_nextbp`, or leaves with
    what `PickOk` says. -/
theorem nextbpRound_ok {x : Qmerge β ρ × QNear} {l' : Pri → List β} (h : Begins s l x l')
    (hne : ¬∀ p, x.1.hd p = none) :
    (∃ x' l'', nextbpRound t m x = .inl x' ∧ Begins s l x' l'') ∨
      ∃ r, nextbpRound t m x = .inr (some r) ∧ PickOk t m x.1 r := by
  unfold nextbpRound
  cases ho : x.2.asyncOnly with
  | true =>
      rcases roundAsync_ok (t := t) (m := m) h.rings h.flags ho with ⟨r, hr, hok⟩
      exact Or.inr ⟨r, congrArg Sum.inr hr, hok⟩
  | false =>
      cases ha : x.2.asyncAlso with
      | false =>
          have hsync : x.1.hd .sync ≠ none := fun hs => hne fun p => by
            cases p with
            | sync => exact hs
            | async => exact h.flags.neither ho ha hs
          rcases roundSync_ok (t := t) (m := m) h.rings h.flags hsync ho ha with ⟨r, hr, hok⟩
          exact Or.inr ⟨r, congrArg Sum.inr hr, hok⟩
      | true =>
          rcases Option.ne_none_iff_exists'.mp (h.flags.also ha).1 with ⟨sy, hsy⟩
          rcases Option.ne_none_iff_exists'.mp (h.flags.also ha).2 with ⟨as, has⟩
          simp only [Bool.false_eq_true, if_false, if_true, roundBoth, hsy, has]
          split
          · rcases turnBoth_ok (t := t) h.rings h.flags ha hsy has with ⟨r, l'', hr, hok⟩
            exact Or.inl ⟨r, l'', by rw [hr], h.trans hok⟩
          · have hbp : x.1.hd (nearer x.1 x.2 sy as) =
                some (if nearer x.1 x.2 sy as = .async then as else sy) := by
              cases nearer x.1 x.2 sy as with
              | sync => exact hsy
              | async => exact has
            rcases takeNearer_ok (t := t) (m := m) h.rings h.flags ha hbp with ⟨r, hr, hok⟩
            exact Or.inr ⟨r, congrArg Sum.inr hr, hok⟩

/-- The rounds end, with a buf or NULL. -/
theorem rounds_ok (t : Tunables) (m : Option (MBuf β ρ)) (h : RingsOk s.av s.hd l)
    (hf : FlagsOk s.flags s.hd) (hne : held l ≠ []) :
    ∃ r x l', Loop.run (nextbpRound t m) 3 (s, s.flags) = some (some r) ∧ Begins s l x l' ∧
      PickOk t m x.1 r := by
  have hsome {x : Qmerge β ρ × QNear} {l' : Pri → List β} (hx : Begins s l x l') :
      ¬∀ p, x.1.hd p = none := by
    intro hno
    have hnil (p : Pri) : l p = [] := by
      have hp := (hx.rings.nil_iff p).mp (hno p)
      exact List.isRotated_nil_iff.mp (hp ▸ hx.rotated p)
    exact hne (by rw [held, hnil, hnil]; rfl)
  rcases Loop.run_of_measure (fun x x' h => nextbpRound_lt (t := t) (m := m) h) (s, s.flags) with
    ⟨r, hr⟩
  have hturns : turnsLeft (s, s.flags) + 1 ≤ 3 := by
    unfold turnsLeft
    split
    · split <;> decide
    · decide
  have hQ : ∃ y x l', r = some y ∧ Begins s l x l' ∧ PickOk t m x.1 y := by
    refine Loop.Ends.invariant (I := fun x => ∃ l', Begins s l x l')
      (Q := fun r => ∃ y x l', r = some y ∧ Begins s l x l' ∧ PickOk t m x.1 y)
      ?_ ?_ ⟨l, h, hf, fun p => List.IsRotated.refl _, _, _, _, rfl⟩ ⟨_, hr⟩
    · rintro x x' ⟨l', hx⟩ hbody
      rcases nextbpRound_ok (t := t) (m := m) hx (hsome hx) with ⟨y, l'', hy, hok⟩ | ⟨r, hr, -⟩
      · rw [hbody] at hy
        cases hy
        exact ⟨l'', hok⟩
      · rw [hbody] at hr
        cases hr
    · rintro x r ⟨l', hx⟩ hbody
      rcases nextbpRound_ok (t := t) (m := m) hx (hsome hx) with ⟨y, l'', hy, -⟩ | ⟨y, hr, hok⟩
      · rw [hbody] at hy
        cases hy
      · rw [hbody] at hr
        exact ⟨y, x, l', Sum.inr.inj hr, hx, hok⟩
  rcases hQ with ⟨y, x, l', rfl, hx, hok⟩
  exact ⟨y, x, l', Loop.run_mono hr hturns, hx, hok⟩

/-! ## The last part -/

omit [DecidableEq β] in
/-- The only buf of a ring is its own neighbour. -/
theorem next_self_iff {bp : β} {c : List β} (h : IsRing s.av (bp :: c))
    (hnd : (bp :: c).Nodup) : s.av.next bp = some bp ↔ c = [] := by
  cases c with
  | nil => exact iff_of_true (h.closed rfl rfl).1 rfl
  | cons y c =>
      refine iff_of_false (fun hn => ?_) (by simp)
      rw [(isSeg_cons_cons.mp h.seg).1.1] at hn
      cases hn
      exact (List.nodup_cons.mp hnd).1 List.mem_cons_self

/-- What the last part does with the head `bp` of a ring, which has the bufs `c` besides:
    they are the ring `c'`, read from the new head. -/
structure Unlinked (s : Qmerge β ρ) (l : Pri → List β) (p : Pri) (bp : β) (c : List β) (n : Int)
    (s' : Qmerge β ρ) (c' : List β) : Prop where
  rotated : c.IsRotated c'
  rings : RingsOk s'.av s'.hd (Function.update l p c')
  heads : ∀ q, s'.hd q = none ↔ hdWithout s p bp q = none
  next : ∀ x ∉ l p, s'.av.next x = s.av.next x
  prev : ∀ x ∉ l p, s'.av.prev x = s.av.prev x
  frame : ∃ av hd, s' = { s with av := av, hd := hd, sync2async := n }

/-- A ring with no cell that is cleared. -/
theorem isRing_clear {av : Links β} {c : List β} {bp : β} (h : IsRing av c) (hb : bp ∉ c) :
    IsRing ((av.setNext bp none).setPrev bp none) c :=
  h.congr (fun _ hx => Function.update_of_ne (ne_of_mem_of_not_mem hx hb) ..)
    fun _ hx => Function.update_of_ne (ne_of_mem_of_not_mem hx hb) ..

/-- The buf was alone. -/
theorem unlinkPick_alone {p : Pri} {bp : β} (f : QNear) (n : Int) (h : RingsOk s.av s.hd l)
    (hl : l p = [bp]) :
    ∃ s' b, unlinkPick { s.clearAv bp with sync2async := n } p bp f = some (s', b) ∧
      Unlinked s l p bp [] n s' [] := by
  have hring := h.ring p
  rw [hl] at hring
  have hself : s.av.next bp = some bp := (hring.closed rfl rfl).1
  have hmem : bp ∈ l p := by rw [hl]; exact List.mem_cons_self
  have hnone : (s.clearAv bp).av.next bp = none := Function.update_self ..
  refine ⟨({ s.clearAv bp with sync2async := n } : Qmerge β ρ).setHd p none, false, ?_,
    List.IsRotated.refl [], ?_, fun q => ?_, fun x hx => ?_, fun x hx => ?_, _, _, rfl⟩
  · unfold unlinkPick
    dsimp only
    rw [hnone]
  · exact h.update isRing_nil List.nodup_nil (fun x hx => by cases hx) fun q hq =>
      isRing_clear (h.ring q) fun hm => hq (h.apart q p bp hm hmem)
  · rw [hdWithout, if_pos hself]
    rfl
  · have hxb : x ≠ bp := fun hxb => hx (hxb ▸ hmem)
    exact Function.update_of_ne hxb ..
  · have hxb : x ≠ bp := fun hxb => hx (hxb ▸ hmem)
    exact Function.update_of_ne hxb ..

/-- The buf had neighbours, and one of them is the new head. -/
theorem unlinkPick_more {p : Pri} {bp y : β} {c : List β} (f : QNear) (n : Int)
    (h : RingsOk s.av s.hd l) (hl : l p = bp :: y :: c) :
    ∃ s' b c', unlinkPick { s with sync2async := n } p bp f = some (s', b) ∧
      Unlinked s l p bp (y :: c) n s' c' := by
  have hring := h.ring p
  have hnd := h.nodup p
  rw [hl] at hring hnd
  have hlast := List.getLast?_eq_some_getLast (List.cons_ne_nil y c)
  generalize (y :: c).getLast (List.cons_ne_nil y c) = z at hlast
  have hnext : s.av.next bp = some y := (isSeg_cons_cons.mp hring.seg).1.1
  have hprev : s.av.prev bp = some z := (hring.closed (by simpa using hlast) rfl).2
  have hself : s.av.next bp ≠ some bp := fun hn => by
    rw [next_self_iff hring hnd] at hn
    cases hn
  have hmem (x : β) (hx : x ∈ bp :: y :: c) : x ∈ l p := by rwa [hl]
  have hz : z ∈ y :: c := List.mem_of_getLast? hlast
  have he : (if f.backward then z else y) ∈ y :: c := by
    split
    · exact hz
    · exact List.mem_cons_self
  rcases exists_isRotated_cons he with ⟨c', hc'⟩
  have hclose : IsRing (s.av.set z y) (y :: c) :=
    IsSeg.close (isSeg_cons_cons.mp hring.seg).2 (List.nodup_cons.mp hnd).2 hlast rfl
  have hout (q : Pri) (hq : q ≠ p) (x : β) (hx : x ∈ bp :: y :: c) : x ∉ l q := fun hm =>
    hq (h.apart q p x hm (hmem x hx))
  refine ⟨_, _, _, by simp only [unlinkPick, hnext, hprev, Option.map_some]; rfl, hc', ?_,
    fun q => ?_, fun x hx => ?_, fun x hx => ?_, _, _, rfl⟩
  · refine h.update ((isRing_clear hclose (List.nodup_cons.mp hnd).1).of_isRotated hc')
      (hc'.nodup_iff.mp (List.nodup_cons.mp hnd).2)
      (fun x hx => Or.inl (hmem x (List.mem_cons_of_mem bp (hc'.mem_iff.mpr hx)))) fun q hq => ?_
    exact isRing_clear ((h.ring q).set_of_notMem (hout q hq z (List.mem_cons_of_mem bp hz))
      (hout q hq y (by simp))) (hout q hq bp List.mem_cons_self)
  · rw [hdWithout, if_neg hself]
    by_cases hq : q = p
    · subst hq
      have hhd : s.hd q = some bp := by rw [← h.head q, hl]; rfl
      simp [Qmerge.setHd, hhd]
    · simp [Qmerge.setHd, hq]
  · have hxb : x ≠ bp := fun hxb => hx (hmem x (hxb ▸ List.mem_cons_self))
    have hxz : x ≠ z := fun hxz => hx (hmem x (hxz ▸ List.mem_cons_of_mem bp hz))
    exact (Function.update_of_ne hxb ..).trans (Function.update_of_ne hxz ..)
  · have hxb : x ≠ bp := fun hxb => hx (hmem x (hxb ▸ List.mem_cons_self))
    have hxy : x ≠ y := fun hxy => hx (hmem x (by rw [hxy]; simp))
    exact (Function.update_of_ne hxb ..).trans (Function.update_of_ne hxy ..)

/-- The buf leaves its ring. -/
theorem unlinkPick_ok {p : Pri} {bp : β} {c : List β} (f : QNear) (n : Int)
    (h : RingsOk s.av s.hd l) (hl : l p = bp :: c) :
    ∃ s' b c', unlinkPick
        { (if s.av.next bp = some bp then s.clearAv bp else s) with sync2async := n } p bp f =
          some (s', b) ∧ Unlinked s l p bp c n s' c' := by
  have hring := h.ring p
  have hnd := h.nodup p
  rw [hl] at hring hnd
  have hself := next_self_iff hring hnd
  cases c with
  | nil =>
      rw [if_pos (hself.mpr rfl)]
      rcases unlinkPick_alone f n h hl with ⟨s', b, heq, hok⟩
      exact ⟨s', b, [], heq, hok⟩
  | cons y c =>
      rw [if_neg fun hn => by cases hself.mp hn]
      exact unlinkPick_more f n h hl

/-! ## The call -/

/-- What a call that returns NULL changes: the heads may have moved. -/
structure Stays (s s' : Qmerge β ρ) (l l' : Pri → List β) : Prop where
  rings : RingsOk s'.av s'.hd l'
  flags : FlagsOk s'.flags s'.hd
  rotated : ∀ p, (l p).IsRotated (l' p)
  cnt : s'.cnt = s.cnt
  av : s'.av = s.av
  same : SameBufs s s'

/-- What a call that returns a buf changes: the buf is no longer in its ring. -/
structure Taken (s s' : Qmerge β ρ) (l l' : Pri → List β) (bp : β) : Prop where
  rings : RingsOk s'.av s'.hd l'
  flags : FlagsOk s'.flags s'.hd
  taken : ∃ p c, (l p).IsRotated (bp :: c) ∧ c.IsRotated (l' p) ∧
    ∀ q, q ≠ p → (l q).IsRotated (l' q)
  cnt : s'.cnt = s.cnt - 1
  next : ∀ x ∉ held l, s'.av.next x = s.av.next x
  prev : ∀ x ∉ held l, s'.av.prev x = s.av.prev x
  same : SameBufs s s'

/-- What the end of `qmerge_nextbp` does to the pointers of other bufs than the one it
    returns, which is nothing. -/
theorem restoreBack_ok (k : Casts β) (s : Qmerge β ρ) (bp : β) :
    (∀ x, (restoreBack k s bp).av.next x = s.av.next x) ∧
      (∀ x, x ≠ bp → (restoreBack k s bp).av.prev x = s.av.prev x) ∧
      SameBufs s (restoreBack k s bp) ∧
      ∃ av b, restoreBack k s bp = { s with av := av, buf := b } := by
  unfold restoreBack
  split
  · refine ⟨fun x => rfl, fun x hx => Function.update_of_ne hx .., ⟨fun x => ?_, rfl, rfl⟩,
      _, _, rfl⟩
    by_cases hx : x = bp
    · subst hx
      exact ⟨_, Function.update_self ..⟩
    · exact ⟨(s.buf x).error, Function.update_of_ne hx ..⟩
  · exact ⟨fun x => rfl, fun x _ => rfl, .of_eq rfl rfl rfl, _, _, rfl⟩

omit [DecidableEq β] in
/-- A buf that is on the queue is taken from it, once. -/
theorem Taken.perm {s s' : Qmerge β ρ} {l l' : Pri → List β} {bp : β}
    (h : Taken s s' l l' bp) : (held l).Perm (bp :: held l') := by
  rcases h.taken with ⟨p, c, hrot, hrot', hother⟩
  have hp : (l p).Perm (bp :: l' p) := hrot.perm.trans (hrot'.perm.cons bp)
  cases p with
  | sync => exact hp.append (hother .async (by decide)).perm
  | async =>
      exact ((hother .sync (by decide)).perm.append hp).trans List.perm_middle

omit [DecidableEq β] in
theorem Taken.cyc_le {s s' : Qmerge β ρ} {l l' : Pri → List β} {bp : β}
    (h : Taken s s' l l' bp) (blk : β → Nat) (q : Pri) : cyc blk (l' q) ≤ cyc blk (l q) := by
  rcases h.taken with ⟨p, c, hrot, hrot', hother⟩
  by_cases hq : q = p
  · subst hq
    rw [cyc_of_isRotated hrot, ← cyc_of_isRotated hrot']
    exact cyc_le_cons bp c
  · rw [cyc_of_isRotated (hother q hq)]

omit [DecidableEq β] in
theorem Stays.perm {s s' : Qmerge β ρ} {l l' : Pri → List β} (h : Stays s s' l l') :
    (held l).Perm (held l') :=
  (h.rotated .sync).perm.append (h.rotated .async).perm

/-- The buf that leaves is in no ring any more. -/
theorem Unlinked.notMem {p q : Pri} {bp : β} {c c' : List β} {n : Int} {s' : Qmerge β ρ}
    (h : Unlinked s l p bp c n s' c') (hl : l p = bp :: c) (hr : RingsOk s.av s.hd l) :
    bp ∉ Function.update l p c' q := by
  have hnd := hr.nodup p
  rw [hl] at hnd
  by_cases hq : q = p
  · subst hq
    rw [Function.update_self]
    exact fun hm => (List.nodup_cons.mp hnd).1 (h.rotated.mem_iff.mpr hm)
  · rw [Function.update_of_ne hq]
    exact fun hm => hq (hr.apart q p bp hm (by rw [hl]; exact List.mem_cons_self))

/-- The end of `qmerge_nextbp`, from the last part on. -/
theorem taken_of_unlinked (k : Casts β) {x : Qmerge β ρ × QNear} {l' : Pri → List β} {p : Pri}
    {bp : β} {c c' : List β} {n : Int} {s' : Qmerge β ρ} {priv : Nat}
    (hx : Begins s l x l') (hl : l' p = bp :: c) (hf : FlagsOk f (hdWithout x.1 p bp))
    (hu : Unlinked x.1 l' p bp c n s' c') :
    Taken s (restoreBack k { s' with priv := priv, cnt := s'.cnt - 1, flags := f } bp) l
      (Function.update l' p c') bp := by
  rcases hx.frame with ⟨hd1, priv1, n1, hx1⟩
  rcases hu.frame with ⟨av2, hd2, hs'⟩
  rcases restoreBack_ok k { s' with priv := priv, cnt := s'.cnt - 1, flags := f } bp with
    ⟨hnext, hprev, hsame, av3, b3, hs''⟩
  generalize restoreBack k { s' with priv := priv, cnt := s'.cnt - 1, flags := f } bp = s3 at *
  have hhd : s3.hd = s'.hd := by rw [hs'']
  have hbp : bp ∈ l' p := by rw [hl]; exact List.mem_cons_self
  have hmem (y : β) (hy : y ∈ l' p) : y ∈ held l :=
    mem_held.mpr ⟨p, (hx.rotated p).mem_iff.mpr hy⟩
  have hav : x.1.av = s.av := by rw [hx1]
  refine ⟨⟨fun q => ?_, fun q => ?_, hu.rings.nodup, hu.rings.apart⟩, ?_, ⟨p, c, ?_, ?_, ?_⟩, ?_,
    fun y hy => ?_, fun y hy => ?_, ?_⟩
  · refine (hu.rings.ring q).congr (fun y _ => hnext y) fun y hy => hprev y fun hyb => ?_
    exact hu.notMem hl hx.rings (hyb ▸ hy)
  · rw [hhd]
    exact hu.rings.head q
  · rw [show s3.flags = f by rw [hs''], hhd]
    exact hf.congr hu.heads
  · rw [← hl]
    exact hx.rotated p
  · rw [Function.update_self]
    exact hu.rotated
  · intro q hq
    rw [Function.update_of_ne hq]
    exact hx.rotated q
  · rw [show s3.cnt = s'.cnt - 1 by rw [hs''], hs', hx1]
  · rw [hnext y]
    exact (hu.next y fun hm => hy (hmem y hm)).trans (by rw [hav])
  · rw [hprev y fun hyb => hy (hyb ▸ hmem bp hbp)]
    exact (hu.prev y fun hm => hy (hmem y hm)).trans (by rw [hav])
  · exact SameBufs.trans (.of_eq (by rw [hs', hx1]) (by rw [hs', hx1]) (by rw [hs', hx1])) hsame

/-- `qmerge_nextbp` returns. It returns NULL only when the queue is empty or the next buf
    is not to be merged, and otherwise a buf that may be merged. -/
theorem nextbp_spec (t : Tunables) (k : Casts β) (m : Option (MBuf β ρ))
    (h : RingsOk s.av s.hd l) (hf : FlagsOk s.flags s.hd) (hcnt : s.cnt = (held l).length) :
    (∃ s' l', nextbp t k s m = some (s', none) ∧ (held l = [] ∨ m ≠ none) ∧ Stays s s' l l') ∨
      ∃ s' l' bp b, nextbp t k s m = some (s', some (bp, b)) ∧ refuses t s bp m = false ∧
        Taken s s' l l' bp := by
  unfold nextbp
  by_cases hne : held l = []
  · rw [if_pos (by rw [hcnt, hne]; rfl)]
    exact Or.inl ⟨s, l, rfl, Or.inl hne, h, hf, fun p => List.IsRotated.refl _, rfl, rfl,
      .of_eq rfl rfl rfl⟩
  rw [if_neg (by rw [hcnt]; exact fun hz => hne (List.length_eq_zero_iff.mp hz))]
  rcases rounds_ok t m h hf hne with ⟨r, x, l1, hrun, hx, hok⟩
  rw [hrun]
  rcases hx.frame with ⟨hd1, priv1, n1, hx1⟩
  cases hok with
  | null hm =>
      refine Or.inl ⟨x.1, l1, rfl, Or.inr hm, hx.rings, ?_, hx.rotated, ?_, ?_, ?_⟩
      · rw [show x.1.flags = s.flags by rw [hx1]]
        refine hf.congr fun p => ?_
        rw [hx.rings.nil_iff, h.nil_iff]
        constructor
        · intro hnil
          exact List.isRotated_nil_iff.mp (hnil ▸ hx.rotated p)
        · intro hnil
          exact (List.isRotated_nil_iff'.mp (hnil ▸ hx.rotated p)).symm
      · rw [hx1]
      · rw [hx1]
      · exact .of_eq (by rw [hx1]) (by rw [hx1]) (by rw [hx1])
  | @take p bp priv f n hhd hm hflags =>
      have hl := hx.rings.head p
      rw [hhd, List.head?_eq_some_iff] at hl
      rcases hl with ⟨c, hl⟩
      rcases unlinkPick_ok f n hx.rings hl with ⟨s2, b, c', hun, hu⟩
      refine Or.inr ⟨restoreBack k { s2 with priv := priv, cnt := s2.cnt - 1, flags := f } bp,
        Function.update l1 p c', bp, b, ?_, ?_, ?_⟩
      · simp only [hun, Option.map_some]
      · rwa [hx1] at hm
      · exact taken_of_unlinked k hx hl hflags hu

end Disk

end Sil3112
