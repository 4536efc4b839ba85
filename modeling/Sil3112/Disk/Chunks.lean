import Mathlib.Algebra.BigOperators.Group.List.Basic
import Sil3112.Disk.Dadk

/-!
# What a Controller Keeps Between Chunks

The invariant of a request is about dadk's counters, and asks of a controller only
that it sets up what it is asked for, or less. A controller keeps data of its own
for the request, the position in the buffer for instance, and can do so only for the
packets that dadk gives it. Here the controller has two conditions on its state: one
for a request of which so many bytes have been transferred, and one for a chunk that
has been set up. If its entry points keep them, so do the functions of `dadk.c`.

## Main definitions

* `Plain`: The packet of a read or a write.
* `moved`: The bytes that the commands of a log have transferred.
* `Ctl.Keeps`: The two conditions, and what the entry points do about them.
* `Carried`: The invariant of a request, with the conditions of its controller.

## Theorems

* `ioretry_carried`, `iodone_carried`, `pktcb_carried`, `transport_carried`,
  `restart_carried`: What the functions of `dadk.c` keep.
* `ioprep_carried`: The first chunk.
-/

namespace Sil3112

namespace Disk

open Extent

/-- The packet of a read or a write that is not a pass-through ioctl. -/
structure Plain (p : Cmpkt) : Prop where
  passthru : p.passthru = none
  cdb : p.cdb = .read ∨ p.cdb = .write

/-- The bytes of the commands on the log. -/
def moved (log : List (Int × Int)) : Int := (log.map Prod.snd).sum

@[simp] theorem moved_nil : moved [] = 0 := rfl

theorem moved_append (log : List (Int × Int)) (e : Int × Int) :
    moved (log ++ [e]) = moved log + e.2 := by
  unfold moved
  rw [List.map_append, List.sum_append, List.map_singleton, List.sum_singleton]

/-- Commands of whole sectors have moved as many bytes as their sectors have. -/
theorem moved_eq {log : List (Int × Int)} (h : ∀ e ∈ log, 0 < e.2 ∧ e.2 % 512 = 0) :
    moved log = 512 * size (chunks log) := by
  induction log with
  | nil => rfl
  | cons e log ih =>
    have he := h e List.mem_cons_self
    have hrest := ih fun e' he' => h e' (List.mem_cons_of_mem e he')
    unfold moved chunks at hrest ⊢
    rw [List.map_cons, List.map_cons, List.sum_cons, size_cons, hrest]
    dsimp only
    omega

theorem IsRequest.size_eq {dadkp : Dadk} {bp : IoBuf} {cks : List (Int × Int)}
    (h : IsRequest dadkp bp cks) :
    size cks = ((bp.bcount / 512 : Nat) : Int) ∧ ∀ e ∈ cks, 0 ≤ e.2 := by
  unfold IsRequest at h
  cases hh : dadkp.bbh bp.toBuf with
  | none =>
    rw [hh] at h
    rw [h]
    refine ⟨by rw [size_cons, size_nil, Int.add_zero], fun e he => ?_⟩
    rw [List.mem_singleton.mp he]
    exact Int.natCast_nonneg _
  | some hp =>
    rw [hh] at h
    exact ⟨h.2.2, fun e he => le_of_lt (h.2.1 e he)⟩

/-- What has been transferred and what is left make up the request. -/
theorem Live.moved_left {cks log rest : List (Int × Int)} {p : Cmpkt}
    (h : Live cks log p rest) (hcks : ∀ e ∈ cks, 0 ≤ e.2) :
    moved log + p.byteleft = 512 * size cks := by
  have hlog : ∀ e ∈ chunks log, 0 ≤ e.2 := by
    intro e he
    rcases List.mem_map.mp he with ⟨e', he', rfl⟩
    have := h.whole e' he'
    dsimp only
    omega
  have hrest : ∀ e ∈ rest, 0 ≤ e.2 := fun e he => le_of_lt (h.pos e he)
  have hpos := h.secleft
  -- Both sides of the equation count the sectors of the request.
  have hlen := congrArg (fun l => (l.length : Int)) h.parts
  simp only [List.length_append, Nat.cast_add, length_cells] at hlen
  rw [length_cover hcks, length_cover hlog, length_cover hrest] at hlen
  rw [moved_eq h.whole, h.byteleft, hlen]
  omega

/-- With the last chunk all bytes of the request have been transferred. -/
theorem Live.last_moved {cks log rest : List (Int × Int)} {p : Cmpkt}
    (h : Live cks log p rest) (hcks : ∀ e ∈ cks, 0 ≤ e.2) (hlast : p.byteleft - p.bytexfer = 0) :
    moved (log ++ [(p.srtsec, p.bytexfer)]) = 512 * size cks := by
  have hleft := h.moved_left hcks
  rw [moved_append]
  dsimp only
  omega

/-- The conditions of a controller. `idle m` is for a request of which `m` bytes have
    been transferred, and which has no chunk at work. `fresh m` is for a chunk that
    has been set up after these. -/
structure Ctl.Keeps {σ : Type} (c : Ctl σ) (idle : Int → σ → Prop)
    (fresh : Int → σ → Cmpkt → Prop) : Prop where
  setup : ∀ m k p, idle m k → Plain p → 0 < p.bytexfer → p.bytexfer % 512 = 0 →
    ∃ k' x y, c.iosetup k p = (k', { p with bytexfer := x, resid := y }, true) ∧
      0 < x ∧ x ≤ p.bytexfer ∧ x % 512 = 0 ∧ fresh m k' { p with bytexfer := x, resid := y }
  send : ∀ m k p, fresh m k p → fresh m (c.transport k p).1 p
  again : ∀ m k p, fresh m k p → idle m k

/-- The invariant of a request, with the conditions of the controller: a chunk has
    been set up, or the drive was busy and it is to be set up again. -/
structure Carried {σ : Type} (idle : Int → σ → Prop) (fresh : Int → σ → Cmpkt → Prop)
    (cks : List (Int × Int)) (phase : Phase) (io : Io σ) (log : List (Int × Int)) : Prop where
  ordered : Ordered cks phase io log
  plain : phase ≠ .done → Plain io.pkt
  ready : phase = .ready ∨ phase = .sent → fresh (moved log) io.ctl io.pkt
  waiting : phase = .waiting → idle (moved log) io.ctl

section Keeps

variable {σ : Type} {c : Ctl σ} {idle : Int → σ → Prop} {fresh : Int → σ → Cmpkt → Prop}
  {dadkp : Dadk} {cks log rest : List (Int × Int)} {s : Io σ}

/-- A request that is finished has no condition. -/
theorem Carried.of_done {phase : Phase} (h : Ordered cks phase s log) (hd : phase = .done) :
    Carried idle fresh cks phase s log := by
  refine ⟨h, fun hn => absurd hd hn, ?_, ?_⟩
  · rintro (hp | hp)
    · cases hd.symm.trans hp
    · cases hd.symm.trans hp
  · intro hp
    cases hd.symm.trans hp

/-- A chunk that is with the controller. -/
theorem Carried.of_sent (he : s.bp.error = none) (hl : Live cks log s.pkt rest)
    (hp : Plain s.pkt) (hf : fresh (moved log) s.ctl s.pkt) :
    Carried idle fresh cks .sent s log := by
  exact ⟨hl.ordered he nofun, fun _ => hp, fun _ => hf, nofun⟩

theorem Plain.congr {p q : Cmpkt} (h : Plain p) (hpass : q.passthru = p.passthru)
    (hcdb : q.cdb = p.cdb) : Plain q :=
  ⟨hpass.trans h.passthru, hcdb.symm ▸ h.cdb⟩

theorem nextChunk_plain (dadkp : Dadk) {p : Cmpkt} (bp : IoBuf) (h : Plain p) :
    Plain (nextChunk dadkp bp p) := by
  refine h.congr ?_ ?_
  all_goals
    unfold nextChunk wholeCookie nextCookie
    dsimp only
    split
    · rfl
    · split
      · rfl
      · rfl

/-- A chunk is set up. -/
theorem ctlIosetup_kept (hc : c.Keeps idle fresh) (hl : Live cks log s.pkt rest)
    (hp : Plain s.pkt) (hi : idle (moved log) s.ctl) :
    (ctlIosetup c s).1.bp = s.bp ∧ Live cks log (ctlIosetup c s).1.pkt rest ∧
      Plain (ctlIosetup c s).1.pkt ∧
      fresh (moved log) (ctlIosetup c s).1.ctl (ctlIosetup c s).1.pkt := by
  rcases hc.setup _ s.ctl s.pkt hi hp hl.xfer_pos hl.xfer_mod with
    ⟨k, x, y, he, hx, hle, hmod, hf⟩
  unfold ctlIosetup
  rw [he]
  exact ⟨rfl, hl.setup hx hle hmod, hp.congr rfl rfl, hf⟩

/-- A retry that succeeds sends the chunk again, one that fails records an error. -/
theorem ioretry_carried (hc : c.Keeps idle fresh) (hl : Live cks log s.pkt rest)
    (he : s.bp.error = none) (hp : Plain s.pkt) {action : Action}
    (hact : action = .queCommand ∧ idle (moved log) s.ctl ∨ action = .commandDoneError) :
    ((ioretry c s action).2 = true → Carried idle fresh cks .sent (ioretry c s action).1 log) ∧
      ((ioretry c s action).2 = false → Live cks log (ioretry c s action).1.pkt rest ∧
        (ioretry c s action).1.bp.error ≠ none) := by
  rcases hact with ⟨rfl, hi⟩ | rfl
  · have hcount := hl.congr (s.pkt.retry + 1) s.pkt.reason s.pkt.scb s.pkt.resid
    unfold ioretry
    dsimp only
    -- The chunk is set up and sent again until the retries are used up.
    by_cases hagain : s.pkt.retry < dadkRetryCount
    · rw [if_pos hagain]
      rcases ctlIosetup_kept (s := { s with pkt := { s.pkt with retry := s.pkt.retry + 1 } }) hc
        hcount (hp.congr rfl rfl) hi with ⟨hbp, hset, hplain, hfresh⟩
      split
      · exact ⟨fun _ => .of_sent (hbp.symm ▸ he) hset hplain (hc.send _ _ _ hfresh), nofun⟩
      · refine ⟨nofun, fun _ => ⟨?_, doneError_error _⟩⟩
        rw [doneError_pkt]
        exact hset
    · rw [if_neg hagain]
      refine ⟨nofun, fun _ => ⟨?_, doneError_error _⟩⟩
      rw [doneError_pkt]
      exact hcount
  · unfold ioretry
    refine ⟨nofun, fun _ => ⟨?_, doneError_error _⟩⟩
    rw [doneError_pkt]
    exact hl

/-- What becomes of a retry: the chunk is sent again, or the request is finished. -/
theorem retry_carried (hc : c.Keeps idle fresh) (hl : Live cks log s.pkt rest)
    (he : s.bp.error = none) (hp : Plain s.pkt) {action : Action}
    (hact : action = .queCommand ∧ idle (moved log) s.ctl ∨ action = .commandDoneError)
    {r : Io σ × Phase}
    (hr : r = if (ioretry c s action).2 then ((ioretry c s action).1, Phase.sent)
      else iodone c dadkp (ioretry c s action).1) :
    Carried idle fresh cks r.2 r.1 log := by
  rcases ioretry_carried hc hl he hp hact with ⟨hsent, hfail⟩
  cases hb : (ioretry c s action).2 with
  | true =>
    rw [hb, if_pos rfl] at hr
    rw [hr]
    exact hsent hb
  | false =>
    rw [hb, if_neg Bool.false_ne_true] at hr
    rcases hfail hb with ⟨hlive, herr⟩
    -- The retry has recorded an error, so no other chunk is begun.
    have hdone : (iodone c dadkp (ioretry c s action).1).2 = .done := by
      unfold iodone
      dsimp only
      rw [if_neg fun hn => herr hn.1]
    rw [hr]
    exact .of_done (iodone_failed hlive herr) hdone

theorem restart_carried (hc : c.Keeps idle fresh) (hl : Live cks log s.pkt rest)
    (he : s.bp.error = none) (hp : Plain s.pkt) (hi : idle (moved log) s.ctl) :
    Carried idle fresh cks (restart c dadkp s).2 (restart c dadkp s).1 log :=
  retry_carried hc hl he hp (Or.inl ⟨rfl, hi⟩) rfl

theorem transport_carried (hc : c.Keeps idle fresh) (hl : Live cks log s.pkt rest)
    (he : s.bp.error = none) (hp : Plain s.pkt) (hf : fresh (moved log) s.ctl s.pkt) :
    Carried idle fresh cks (transport c dadkp s).2 (transport c dadkp s).1 log := by
  have hf' := hc.send _ _ _ hf
  unfold transport
  dsimp only
  split
  · exact .of_sent he hl hp hf'
  · -- The drive was busy, so the chunk is set up again from where it was.
    exact restart_carried (s := (ctlTransport c s).1) hc hl he hp (hc.again _ _ _ hf')

/-- A chunk has been transferred: the next one is set up and sent, if there is one. -/
theorem iodone_carried (hc : c.Keeps idle fresh) (h9 : dadkp.secshf = 9)
    (hl : Live cks log s.pkt rest) (he : s.bp.error = none) (hp : Plain s.pkt)
    (hi : idle (moved log + s.pkt.bytexfer) s.ctl) :
    Carried idle fresh cks (iodone c dadkp s).2 (iodone c dadkp s).1
      (log ++ [(s.pkt.srtsec, s.pkt.bytexfer)]) := by
  by_cases hmore : s.pkt.byteleft - s.pkt.bytexfer = 0
  · -- That was all of it.
    have hdone : iodone c dadkp s =
        ({ s with pkt := { s.pkt with byteleft := s.pkt.byteleft - s.pkt.bytexfer } }, .done) :=
      if_neg fun hn => hn.2 hmore
    rw [hdone]
    exact .of_done (hl.finished hmore) rfl
  · rcases hl.next h9 s.bp hmore with ⟨rest', hnext⟩
    have hplain := nextChunk_plain dadkp s.bp
      (hp.congr (q := { s.pkt with byteleft := s.pkt.byteleft - s.pkt.bytexfer, retry := 0 })
        rfl rfl)
    generalize hq : nextChunk dadkp s.bp
      { s.pkt with byteleft := s.pkt.byteleft - s.pkt.bytexfer, retry := 0 } = q at hnext hplain
    rw [← moved_append log (s.pkt.srtsec, s.pkt.bytexfer)] at hi
    rcases ctlIosetup_kept (s := { s with pkt := q }) hc hnext hplain hi with
      ⟨hbp, hset, hplain', hfresh⟩
    have herr := hbp.symm ▸ he
    have hsent := hc.send _ _ _ hfresh
    unfold iodone iosetup
    dsimp only
    rw [if_pos ⟨he, hmore⟩, hq]
    split
    · exact .of_sent herr hset hplain' hsent
    · -- It is tried once more if it cannot be sent.
      rcases ioretry_carried (s := (ctlTransport c (ctlIosetup c { s with pkt := q }).1).1) hc hset
        herr hplain' (Or.inl ⟨rfl, hc.again _ _ _ hsent⟩) with ⟨hagain, hfail⟩
      split
      · next hr => exact hagain hr
      · next hr =>
        rcases hfail (by simpa only [Bool.not_eq_true] using hr) with ⟨hlive, hne⟩
        exact .of_done (hlive.failed hne) rfl

/-- A command completes. The controller must have moved the chunk if this is a
    success, and be able to set it up again if dadk may do so. -/
theorem pktcb_carried (hc : c.Keeps idle fresh) (h9 : dadkp.secshf = 9)
    (hl : Live cks log s.pkt rest) (he : s.bp.error = none) (hp : Plain s.pkt)
    (hdone : Succeeds dadkp s.pkt → idle (moved log + s.pkt.bytexfer) s.ctl)
    (hagain : ¬ Succeeds dadkp s.pkt → failAction dadkp s.pkt ≠ .commandDoneError →
      idle (moved log) s.ctl) :
    Carried idle fresh cks (pktcb c dadkp s).2 (pktcb c dadkp s).1
      (if Succeeds dadkp s.pkt then log ++ [(s.pkt.srtsec, s.pkt.bytexfer)] else log) := by
  have hpass : s.pkt.passthru.isSome = false := by rw [hp.passthru]; rfl
  unfold pktcb
  by_cases hr : s.pkt.reason = .success
  · have hs : Succeeds dadkp s.pkt := Or.inl hr
    rw [if_pos hr, if_pos hs]
    exact iodone_carried hc h9 hl he hp (hdone hs)
  · rw [if_neg hr, if_neg (by rw [hpass]; exact Bool.false_ne_true)]
    rw [succeeds_iff hr] at hdone hagain
    simp only [succeeds_iff hr]
    cases hact : failAction dadkp s.pkt with
    | commandDone => exact iodone_carried hc h9 hl he hp (hdone hact)
    -- The packet waits for its restart.
    | justReturn =>
      rw [if_neg nofun]
      refine ⟨hl.ordered he nofun, fun _ => hp, fun h => ?_, fun _ => ?_⟩
      · rcases h with h | h
        · cases h
        · cases h
      · exact hagain (by rw [hact]; nofun) (by rw [hact]; nofun)
    | queCommand =>
      rw [if_neg nofun]
      refine retry_carried hc hl he hp (Or.inl ⟨rfl, ?_⟩) rfl
      exact hagain (by rw [hact]; nofun) (by rw [hact]; nofun)
    | commandDoneError =>
      rw [if_neg nofun]
      exact retry_carried hc hl he hp (Or.inr rfl) rfl

/-- The first chunk. -/
theorem ioprep_carried (hc : c.Keeps idle fresh) (h9 : dadkp.secshf = 9) {bp : IoBuf} {k : σ}
    (hpos : 0 < bp.bcount) (hmod : bp.bcount % 512 = 0) (hint : bp.internal = none)
    (he : bp.error = none) (hcks : IsRequest dadkp bp cks) (hi : idle 0 k) :
    Carried idle fresh cks .ready (ioprep c dadkp ⟨k, {}, bp⟩).1 [] := by
  unfold ioprep iosetup
  rw [hint]
  dsimp only
  have hcdb : (if bp.read then Dcmd.read else Dcmd.write) = .read ∨
      (if bp.read then Dcmd.read else Dcmd.write) = .write := by
    split
    · exact Or.inl rfl
    · exact Or.inr rfl
  generalize (if bp.read then Dcmd.read else Dcmd.write) = cdb at hcdb
  rcases Live.start h9 cdb hpos hmod hcks with ⟨rest, hlive⟩
  have hplain := nextChunk_plain dadkp bp
    (p := { cdb := cdb, byteleft := bp.bcount, priv := dadkp.bbh bp.toBuf }) ⟨rfl, hcdb⟩
  rcases ctlIosetup_kept (s := ⟨k, nextChunk dadkp bp
    { cdb := cdb, byteleft := bp.bcount, priv := dadkp.bbh bp.toBuf }, bp⟩) hc hlive hplain hi with
    ⟨hbp, hset, hplain', hfresh⟩
  exact ⟨hset.ordered (hbp.symm ▸ he) nofun, fun _ => hplain', fun _ => hfresh, nofun⟩

end Keeps

end Disk

end Sil3112
