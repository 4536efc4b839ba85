import Sil3112.Disk.Chunks
import Sil3112.Lib.Store
import Sil3112.Lib.Threads

/-!
# The Disk as a Store

What the layers below a `buf` are for: sectors are read and written. Many requests are
on their way at once. Each is cut at its bad sectors, moved to the alternates, cut again
into what the controller takes, and sent command by command, some of them more than
once; and the commands of all requests come to the medium in any order.

A command that succeeds has moved its sectors between the medium and its part of the
buffer. One that is at work or has failed may have done anything to the part it was to
change, and nothing to the rest. This is all that is assumed of a drive; that a command
that counts as a success has come to its end without an error is proved with the
functions that complete it.

Two requests conflict if they have a sector in common and one of them is a write. Who
issues requests is to keep apart those that conflict, and this is the only order there
is. The disk is then the store that its users see: the requests, in the order in which
they end, are reads and writes of whole sectors, each at once. The alternates are out of
sight, if no two sectors that are used have been given the same place.

## Main definitions

* `Loc`, `Cmdk.place`: The sectors as they are numbered above, and where they are.
* `MovesChunk`, `SpoilsChunk`: What a command does to the medium and the buffer.
* `MediaLocal`: What can happen to one request among others.
* `Working`: The invariant of a request, with the data that has been moved.

## Theorems

* `DadkStep.same`: No step of a request changes what is asked for.
* `Working.step`: A step of a request moves its data and no other.
* `MediaOk.step`: What a step keeps.
* `disk_refines_store`: The disk is a store.
-/

namespace Sil3112

namespace Disk

open Extent Transition Store

/-! ## The model -/

/-- A sector as a `buf` names it: the slice, whose alternates count, and the number. -/
abbrev Loc := Nat × Int

/-- Where a sector is. -/
def Cmdk.place (dkp : Cmdk) (l : Loc) : Int :=
  (dkp.alts l.1).remap l.2

/-- The number of sectors of a request. -/
def IoBuf.count (bp : IoBuf) : Nat :=
  bp.bcount >>> 9

/-- The sectors of a request. -/
def IoBuf.locs (bp : IoBuf) : List Loc :=
  (cells bp.sec bp.count).map fun x => (bp.part, x)

section Chunk

variable {σ β : Type}

/-- The sectors that the chunk at hand is to move. -/
def Io.sectors (s : Io σ) : List Int :=
  cells s.pkt.srtsec (s.pkt.bytexfer / 512)

/-- Its part of the buffer, counted in sectors. -/
def Io.window (s : Io σ) : List Int :=
  cells ((s.bp.bcount - s.pkt.byteleft) / 512) (s.pkt.bytexfer / 512)

/-- The command has moved its sectors. -/
def MovesChunk (s : Io σ) (m b m' b' : Int → β) : Prop :=
  if s.pkt.cdb = .read then m' = m ∧ (Op.write s.window (s.sectors.map m)).Does b b'
  else b' = b ∧ (Op.write s.sectors (s.window.map b)).Does m m'

/-- The command is at work or has failed. -/
def SpoilsChunk (s : Io σ) (m b m' b' : Int → β) : Prop :=
  if s.pkt.cdb = .read then m' = m ∧ (Op.spoil s.window).Does b b'
  else b' = b ∧ (Op.spoil s.sectors).Does m m'

/-- What becomes of the data in a step: there is a command at work only while the
    packet is with the controller, and it has succeeded if it is put on the log. -/
def Transfers (d d' : DadkRun σ) (m b m' b' : Int → β) : Prop :=
  if d.phase = .sent then
    if d'.log = d.log then SpoilsChunk d.io m b m' b' else MovesChunk d.io m b m' b'
  else m' = m ∧ b' = b

end Chunk

/-- The medium, and the requests that have been begun and not ended. -/
structure Medium (ι β : Type) where
  media : Int → β
  busy : Set ι

/-- Where one request is: not yet begun, at work with its buffer, or ended. -/
inductive MediaReq (σ β : Type) where
  | fresh
  | work (d : DadkRun σ) (b : Int → β)
  | ended

/-- The outcome of a request, as an operation on the sectors. `data` is the buffer that
    was given, and `b` what has become of it. -/
def outcome {σ β : Type} (bp : IoBuf) (data : Int → β) (d : DadkRun σ) (b : Int → β) :
    List (Op Loc β) :=
  if d.io.bp.error = none then
    if bp.read then [.read bp.locs ((cells 0 bp.count).map b)]
    else [.write bp.locs ((cells 0 bp.count).map data)]
  else if bp.read then []
  else [.spoil bp.locs]

/-- Two requests that must not be on their way together. -/
def Conflict (bp bp' : IoBuf) : Prop :=
  (bp.read = false ∨ bp'.read = false) ∧ ∃ l ∈ bp.locs, l ∈ bp'.locs

/-- What can happen to one request. It is begun by `dadk_strategy`, with a fresh packet,
    and ends with `biodone`. -/
inductive MediaLocal {ι σ β : Type} (c : Ctl σ) (dadkp : Dadk) (bp : ι → IoBuf)
    (data : ι → Int → β) (i : ι) :
    List (Op Loc β) → Medium ι β → MediaReq σ β → Medium ι β → MediaReq σ β → Prop where
  | begin (a : Medium ι β) (k : σ) (bp' : IoBuf) (hacc : strategy dadkp (bp i) = .ok bp')
      (hfree : ∀ j ∈ a.busy, ¬ Conflict (bp i) (bp j)) :
      MediaLocal c dadkp bp data i [] a .fresh { a with busy := insert i a.busy }
        (.work ⟨.ready, (ioprep c dadkp ⟨k, {}, bp'⟩).1, []⟩ (data i))
  | dadk (a : Medium ι β) (d d' : DadkRun σ) (b m' b' : Int → β)
      (hst : DadkStep c dadkp d d') (hm : Transfers d d' a.media b m' b') :
      MediaLocal c dadkp bp data i [] a (.work d b) { a with media := m' } (.work d' b')
  | finish (a : Medium ι β) (d : DadkRun σ) (b : Int → β) (hd : d.phase = .done) :
      MediaLocal c dadkp bp data i (outcome (bp i) (data i) d b) a (.work d b)
        { a with busy := a.busy \ {i} } .ended

/-- No request has been begun. -/
def MediaInit {ι σ β : Type} (m₀ : Int → β) (s : Sys ι (Medium ι β) (MediaReq σ β)) : Prop :=
  s.shared = ⟨m₀, ∅⟩ ∧ ∀ i, s.thr i = .fresh

/-- The outcomes of a run, in order. -/
def keepOutcome {β : Type} (h l : List (Op Loc β)) : List (Op Loc β) :=
  h ++ l

/-! ## What is asked for does not change -/

/-- The buf is the one that was accepted, apart from its error and `b_resid`, and the
    command is the one that was prepared for it. -/
structure Unaltered {σ : Type} (bp : IoBuf) (cdb : Dcmd) (s : Io σ) : Prop where
  buf : s.bp.toBuf = bp.toBuf
  cdb : s.pkt.cdb = cdb

section Unaltered

variable {σ : Type} {c : Ctl σ} {dadkp : Dadk} {cks log rest : List (Int × Int)} {s : Io σ}
  {bp : IoBuf} {cdb : Dcmd}

theorem nextChunk_cdb (dadkp : Dadk) (bp : IoBuf) (p : Cmpkt) :
    (nextChunk dadkp bp p).cdb = p.cdb := by
  unfold nextChunk wholeCookie nextCookie
  dsimp only
  split
  · rfl
  · split
    · rfl
    · rfl

theorem ctlIosetup_same (hc : c.Ok) (hl : Live cks log s.pkt rest) (h : Unaltered bp cdb s) :
    Unaltered bp cdb (ctlIosetup c s).1 := by
  rcases hc s.ctl s.pkt hl.xfer_pos hl.xfer_mod with ⟨k, x, y, he, -⟩
  unfold ctlIosetup
  rw [he]
  exact ⟨h.buf, h.cdb⟩

theorem bioerror_same (h : Unaltered bp cdb s) (e : Errno) : Unaltered bp cdb (bioerror s e) :=
  ⟨h.buf, h.cdb⟩

theorem doneError_same (h : Unaltered bp cdb s) : Unaltered bp cdb (doneError s) := by
  refine ⟨?_, (congrArg Cmpkt.cdb (doneError_pkt s)).trans h.cdb⟩
  unfold doneError bioerror
  dsimp only
  split
  · exact h.buf
  · exact h.buf

theorem ioretry_same (hc : c.Ok) (hl : Live cks log s.pkt rest) (h : Unaltered bp cdb s)
    (action : Action) : Unaltered bp cdb (ioretry c s action).1 := by
  cases action with
  | commandDone => exact h
  | justReturn => exact h
  | commandDoneError => exact doneError_same h
  | queCommand =>
    have hcount := hl.congr (s.pkt.retry + 1) s.pkt.reason s.pkt.scb s.pkt.resid
    have hset := ctlIosetup_same (s := { s with pkt := { s.pkt with retry := s.pkt.retry + 1 } })
      hc hcount ⟨h.buf, h.cdb⟩
    have hsent : Unaltered bp cdb (ctlTransport c
        (ctlIosetup c { s with pkt := { s.pkt with retry := s.pkt.retry + 1 } }).1).1 :=
      ⟨hset.buf, hset.cdb⟩
    unfold ioretry
    dsimp only
    split
    · split
      · exact hsent
      · exact doneError_same (bioerror_same hsent .enxio)
    · refine doneError_same (bioerror_same ?_ .enxio)
      exact ⟨h.buf, h.cdb⟩

theorem iodone_same (hc : c.Ok) (h9 : dadkp.secshf = 9)
    (hl : s.bp.error = none → ∃ rest, Live cks log s.pkt rest) (h : Unaltered bp cdb s) :
    Unaltered bp cdb (iodone c dadkp s).1 := by
  by_cases hmore : s.bp.error = none ∧ s.pkt.byteleft - s.pkt.bytexfer ≠ 0
  · rcases hl hmore.1 with ⟨rest, hlive⟩
    rcases hlive.next h9 s.bp hmore.2 with ⟨rest', hnext⟩
    have hcdb := (nextChunk_cdb dadkp s.bp
      { s.pkt with byteleft := s.pkt.byteleft - s.pkt.bytexfer, retry := 0 }).trans h.cdb
    generalize hq : nextChunk dadkp s.bp
      { s.pkt with byteleft := s.pkt.byteleft - s.pkt.bytexfer, retry := 0 } = q at hnext hcdb
    have hset := ctlIosetup_same (s := { s with pkt := q }) hc hnext ⟨h.buf, hcdb⟩
    rcases ctlIosetup_live (s := { s with pkt := q }) hc hnext with ⟨-, hlive'⟩
    have hsent : Unaltered bp cdb (ctlTransport c (ctlIosetup c { s with pkt := q }).1).1 :=
      ⟨hset.buf, hset.cdb⟩
    have hretry := ioretry_same (s := (ctlTransport c (ctlIosetup c { s with pkt := q }).1).1) hc
      hlive' hsent .queCommand
    unfold iodone iosetup
    dsimp only
    rw [if_pos hmore, hq]
    split
    · exact hsent
    · split
      · exact hretry
      · exact hretry
  · unfold iodone
    dsimp only
    rw [if_neg hmore]
    exact ⟨h.buf, h.cdb⟩

/-- A retry, and the end of the request if there is none. -/
theorem retry_same (hc : c.Ok) (h9 : dadkp.secshf = 9) (hl : Live cks log s.pkt rest)
    (he : s.bp.error = none) (h : Unaltered bp cdb s) {action : Action}
    (hact : action = .queCommand ∨ action = .commandDoneError) :
    Unaltered bp cdb (if (ioretry c s action).2 then ((ioretry c s action).1, Phase.sent)
      else iodone c dadkp (ioretry c s action).1).1 := by
  have hsame := ioretry_same hc hl h action
  split
  · exact hsame
  · exact iodone_same hc h9 (fun _ => ⟨rest, (ioretry_live hc hl he hact).1⟩) hsame

theorem pktcb_same (hc : c.Ok) (h9 : dadkp.secshf = 9) (hl : Live cks log s.pkt rest)
    (he : s.bp.error = none) (h : Unaltered bp cdb s) : Unaltered bp cdb (pktcb c dadkp s).1 := by
  have hdone : Unaltered bp cdb (iodone c dadkp s).1 := iodone_same hc h9 (fun _ => ⟨rest, hl⟩) h
  unfold pktcb
  split
  · exact hdone
  · split
    · exact hdone
    · cases failAction dadkp s.pkt with
      | commandDone => exact hdone
      | justReturn => exact h
      | queCommand => exact retry_same hc h9 hl he h (Or.inl rfl)
      | commandDoneError => exact retry_same hc h9 hl he h (Or.inr rfl)

/-- No step of a request changes what is asked for. -/
theorem DadkStep.same (hc : c.Ok) (h9 : dadkp.secshf = 9) {d d' : DadkRun σ}
    (hst : DadkStep c dadkp d d') (ho : Ordered cks d.phase d.io d.log)
    (h : Unaltered bp cdb d.io) : Unaltered bp cdb d'.io := by
  cases hst with
  | transport io log =>
    rcases ho.live nofun with ⟨he, rest, hl⟩
    unfold Disk.transport
    dsimp only
    split
    · exact ⟨h.buf, h.cdb⟩
    · exact retry_same (s := (ctlTransport c io).1) hc h9 hl he ⟨h.buf, h.cdb⟩ (Or.inl rfl)
  | complete io io' log r hio =>
    rcases ho.live nofun with ⟨he, rest, hl⟩
    rw [hio]
    exact pktcb_same (s := { io with pkt := io.pkt.report r }) hc h9
      (hl.congr io.pkt.retry r.reason r.scb r.resid) he ⟨h.buf, h.cdb⟩
  | restart io log =>
    rcases ho.live nofun with ⟨he, rest, hl⟩
    exact retry_same hc h9 hl he h (Or.inl rfl)
  | ctl phase io log k => exact ⟨h.buf, h.cdb⟩

/-- The log grows only when a command of the packet has succeeded. -/
theorem DadkStep.log_cases {d d' : DadkRun σ} (hst : DadkStep c dadkp d d') :
    d'.log = d.log ∨
      d.phase = .sent ∧ d'.log = d.log ++ [(d.io.pkt.srtsec, d.io.pkt.bytexfer)] := by
  cases hst with
  | transport io log => exact Or.inl rfl
  | complete io io' log r hio =>
    dsimp only
    split
    · exact Or.inr ⟨rfl, rfl⟩
    · exact Or.inl rfl
  | restart io log => exact Or.inl rfl
  | ctl phase io log k => exact Or.inl rfl

end Unaltered

/-! ## One request -/

/-- The command of a read or a write. -/
def IoBuf.cmd (bp : IoBuf) : Dcmd :=
  if bp.read then .read else .write

/-- What a request has moved: a read has what the store `t` holds in its buffer, and a
    write has left the buffer it was given on the medium `m`. -/
structure HasMoved {β : Type} (bp : IoBuf) (data : Int → β) (log : List (Int × Int))
    (t m b : Int → β) : Prop where
  read : bp.read = true → (cells 0 (size (chunks log))).map b = (cover (chunks log)).map t
  write : bp.read = false →
    (cover (chunks log)).map m = (cells 0 (size (chunks log))).map data ∧ b = data
  within : ∀ x, x ∉ cells 0 bp.count → b x = data x

/-- The invariant of a request. -/
structure Working {σ β : Type} (bp : IoBuf) (data : Int → β) (cks : List (Int × Int))
    (t m : Int → β) (d : DadkRun σ) (b : Int → β) : Prop where
  ordered : Ordered cks d.phase d.io d.log
  same : Unaltered bp bp.cmd d.io
  moved : HasMoved bp data d.log t m b

section Chunk

variable {σ β : Type} {c : Ctl σ} {dadkp : Dadk} {cks log rest : List (Int × Int)} {s : Io σ}
  {bp : IoBuf} {data t m b m' b' : Int → β}

theorem Ordered.whole {phase : Phase} (h : Ordered cks phase s log) :
    ∀ e ∈ log, 0 < e.2 ∧ e.2 % 512 = 0 := by
  unfold Ordered at h
  split at h
  · exact h.2.2.1
  · rcases h with ⟨-, rest, hl⟩
    exact hl.whole

theorem chunks_nonneg (h : ∀ e ∈ log, 0 < e.2 ∧ e.2 % 512 = 0) : ∀ e ∈ chunks log, 0 ≤ e.2 := by
  intro e he
  rcases List.mem_map.mp he with ⟨e', he', rfl⟩
  have := h e' he'
  dsimp only
  omega

/-- The window of a chunk begins where the last one has ended. -/
theorem Live.window_eq (hl : Live cks log s.pkt rest) (hcks : ∀ e ∈ cks, 0 ≤ e.2)
    (hsize : 512 * size cks = s.bp.bcount) :
    s.window = cells (size (chunks log)) (s.pkt.bytexfer / 512) := by
  have hleft := hl.moved_left hcks
  rw [moved_eq hl.whole] at hleft
  unfold Io.window
  rw [show (s.bp.bcount - s.pkt.byteleft) / 512 = size (chunks log) by omega]

/-- The chunk fits into what is left of the buffer. -/
theorem Live.window_le (hl : Live cks log s.pkt rest) (hcks : ∀ e ∈ cks, 0 ≤ e.2) :
    0 ≤ size (chunks log) ∧ 0 < s.pkt.bytexfer / 512 ∧
      size (chunks log) + s.pkt.bytexfer / 512 ≤ size cks := by
  have hleft := hl.moved_left hcks
  have hpos := hl.xfer_pos
  have hmod := hl.xfer_mod
  have hle := hl.xfer_le_byteleft
  have hnn := size_nonneg (chunks_nonneg hl.whole)
  rw [moved_eq hl.whole] at hleft
  omega

/-- With its sectors the chunk is on the log. -/
theorem cover_chunks_snoc (s : Io σ) (log : List (Int × Int)) :
    cover (chunks (log ++ [(s.pkt.srtsec, s.pkt.bytexfer)])) = cover (chunks log) ++ s.sectors ∧
      size (chunks (log ++ [(s.pkt.srtsec, s.pkt.bytexfer)])) =
        size (chunks log) + s.pkt.bytexfer / 512 := by
  rw [chunks_append, cover_append, size_append]
  simp only [chunks, List.map_cons, List.map_nil, cover_cons, cover_nil, List.append_nil,
    Io.sectors, size_cons, size_nil, Int.add_zero, and_self]

/-- The sectors of the chunk follow those that have been transferred. -/
theorem Live.sectors_prefix (hl : Live cks log s.pkt rest) :
    cover (chunks log) ++ s.sectors <+: cover cks := by
  rw [← (cover_chunks_snoc s log).1]
  exact ⟨_, hl.split.symm⟩

theorem cmd_read (hr : bp.read = true) : bp.cmd = .read :=
  if_pos hr

theorem cmd_write (hr : bp.read = false) : bp.cmd ≠ .read := by
  unfold IoBuf.cmd
  rw [hr]
  nofun

/-- A command that fails has done nothing to what has been moved, and nothing outside
    of the request. -/
theorem HasMoved.spoil (hl : Live cks log s.pkt rest) (hcks : ∀ e ∈ cks, 0 ≤ e.2)
    (hsize : 512 * size cks = s.bp.bcount) (hcount : size cks = bp.count)
    (hnd : (cover cks).Nodup) (hcmd : s.pkt.cdb = bp.cmd) (h : HasMoved bp data log t m b)
    (hs : SpoilsChunk s m b m' b') :
    HasMoved bp data log t m' b' ∧ (bp.read = true → m' = m) ∧
      ∀ x, x ∉ cover cks → m' x = m x := by
  have hpre := hl.sectors_prefix
  have hle := hl.window_le hcks
  have hwin := hl.window_eq hcks hsize
  unfold SpoilsChunk at hs
  cases hr : bp.read with
  | true =>
    rw [hcmd, if_pos (cmd_read hr)] at hs
    rcases hs with ⟨rfl, hb⟩
    rw [hwin] at hb
    refine ⟨⟨fun _ => ?_, fun hn => absurd (hn.symm.trans hr) Bool.false_ne_true,
      fun x hx => ?_⟩, fun _ => rfl, fun _ _ => rfl⟩
    -- The window lies behind what has been moved, and within the buffer.
    · rw [← h.read hr]
      refine List.map_congr_left fun x hx => hb x fun hn => ?_
      rw [mem_cells] at hx hn
      omega
    · rw [← h.within x hx]
      refine hb x fun hn => hx ?_
      rw [mem_cells] at hn ⊢
      omega
  | false =>
    rw [hcmd, if_neg (cmd_write hr)] at hs
    rcases hs with ⟨rfl, hm⟩
    have hdis := List.disjoint_of_nodup_append (hnd.sublist hpre.sublist)
    refine ⟨⟨fun hn => absurd (hr.symm.trans hn) Bool.false_ne_true,
      fun _ => ⟨?_, (h.write hr).2⟩, h.within⟩, nofun,
      fun x hx => hm x fun hn => hx (hpre.subset (List.mem_append_right _ hn))⟩
    rw [← (h.write hr).1]
    exact List.map_congr_left fun x hx => hm x (hdis hx)

/-- A command that succeeds has moved its sectors. -/
theorem HasMoved.move (hl : Live cks log s.pkt rest) (hcks : ∀ e ∈ cks, 0 ≤ e.2)
    (hsize : 512 * size cks = s.bp.bcount) (hcount : size cks = bp.count)
    (hnd : (cover cks).Nodup) (hcmd : s.pkt.cdb = bp.cmd) (h : HasMoved bp data log t m b)
    (ht : bp.read = true → ∀ x ∈ cover cks, m x = t x) (hs : MovesChunk s m b m' b') :
    HasMoved bp data (log ++ [(s.pkt.srtsec, s.pkt.bytexfer)]) t m' b' ∧
      (bp.read = true → m' = m) ∧ ∀ x, x ∉ cover cks → m' x = m x := by
  have hpre := hl.sectors_prefix
  have hle := hl.window_le hcks
  have hwin := hl.window_eq hcks hsize
  have hcells := cells_split 0 hle.1 hle.2.1.le
  rw [Int.zero_add] at hcells
  rcases cover_chunks_snoc s log with ⟨hcov, hsz⟩
  unfold MovesChunk at hs
  cases hr : bp.read with
  | true =>
    rw [hcmd, if_pos (cmd_read hr)] at hs
    rcases hs with ⟨rfl, hb⟩
    rw [hwin] at hb
    refine ⟨⟨fun _ => ?_, fun hn => absurd (hn.symm.trans hr) Bool.false_ne_true,
      fun x hx => ?_⟩, fun _ => rfl, fun _ _ => rfl⟩
    · rw [hcov, hsz, hcells, List.map_append, List.map_append, hb.1, ← h.read hr]
      refine congrArg₂ _ (List.map_congr_left fun x hx => hb.2 x fun hn => ?_)
        (List.map_congr_left fun x hx => ?_)
      · rw [mem_cells] at hx hn
        omega
      · exact ht hr x (hpre.subset (List.mem_append_right _ hx))
    · rw [← h.within x hx]
      refine hb.2 x fun hn => hx ?_
      rw [mem_cells] at hn ⊢
      omega
  | false =>
    rw [hcmd, if_neg (cmd_write hr)] at hs
    rcases hs with ⟨rfl, hm⟩
    have hdis := List.disjoint_of_nodup_append (hnd.sublist hpre.sublist)
    refine ⟨⟨fun hn => absurd (hr.symm.trans hn) Bool.false_ne_true,
      fun _ => ⟨?_, (h.write hr).2⟩, h.within⟩, nofun,
      fun x hx => hm.2 x fun hn => hx (hpre.subset (List.mem_append_right _ hn))⟩
    rw [hcov, hsz, hcells, List.map_append, List.map_append, hm.1, hwin, ← (h.write hr).1,
      (h.write hr).2]
    exact congrArg (· ++ _) (List.map_congr_left fun x hx => hm.2 x (hdis hx))

/-- A step of a request moves its data and no other. -/
theorem Working.step (hc : c.Ok) (h9 : dadkp.secshf = 9) (hcks : ∀ e ∈ cks, 0 ≤ e.2)
    (hsize : 512 * size cks = bp.bcount) (hcount : size cks = bp.count)
    (hnd : (cover cks).Nodup) {d d' : DadkRun σ} (hst : DadkStep c dadkp d d')
    (hs : Transfers d d' m b m' b') (h : Working bp data cks t m d b)
    (ht : bp.read = true → ∀ x ∈ cover cks, m x = t x) :
    Working bp data cks t m' d' b' ∧ (bp.read = true → m' = m) ∧
      ∀ x, x ∉ cover cks → m' x = m x := by
  have ho := hst.ordered hc h9 h.ordered
  have hsame := hst.same hc h9 h.ordered h.same
  unfold Transfers at hs
  by_cases hsent : d.phase = .sent
  · rw [if_pos hsent] at hs
    rcases h.ordered.live (by rw [hsent]; nofun) with ⟨-, rest, hl⟩
    have hsz : 512 * size cks = d.io.bp.bcount := by
      rw [hsize, show d.io.bp.bcount = bp.bcount from congrArg Buf.bcount h.same.buf]
    rcases hst.log_cases with hlog | ⟨-, hlog⟩
    · rw [if_pos hlog] at hs
      rcases h.moved.spoil hl hcks hsz hcount hnd h.same.cdb hs with ⟨hmoved, hread, hframe⟩
      exact ⟨⟨ho, hsame, hlog.symm ▸ hmoved⟩, hread, hframe⟩
    · rw [if_neg (by rw [hlog, List.append_right_eq_self]; exact List.cons_ne_nil _ _)] at hs
      rcases h.moved.move hl hcks hsz hcount hnd h.same.cdb ht hs with ⟨hmoved, hread, hframe⟩
      exact ⟨⟨ho, hsame, hlog.symm ▸ hmoved⟩, hread, hframe⟩
  · -- No command is at work.
    rw [if_neg hsent] at hs
    rcases hs with ⟨rfl, rfl⟩
    rcases hst.log_cases with hlog | ⟨hp, -⟩
    · exact ⟨⟨ho, hsame, hlog.symm ▸ h.moved⟩, fun _ => rfl, fun _ _ => rfl⟩
    · exact absurd hp hsent

end Chunk

/-! ## Many requests -/

/-- A request for whole sectors within the range of a sector number, on a slice whose
    alternates can be used. -/
structure IoBuf.Fine (dkp : Cmdk) (bp : IoBuf) : Prop where
  alts : (dkp.alts bp.part).Ok
  first : 0 ≤ bp.sec
  last : bp.sec + bp.count ≤ 2 ^ 31
  pos : 0 < bp.bcount
  internal : bp.internal = none
  error : bp.error = none

/-- What is given: a controller, a disk of 512-byte sectors with the alternates of
    `cmdk.c`, and requests for sectors of `D`, no two of which are in the same place. -/
structure Usable {ι σ : Type} (c : Ctl σ) (dadkp : Dadk) (dkp : Cmdk) (bp : ι → IoBuf)
    (D : Set Loc) : Prop where
  ctl : c.Ok
  secshf : dadkp.secshf = 9
  blkshf : dadkp.blkshf = 0
  bbh : dadkp.bbh = gethandle dkp
  fine : ∀ i, (bp i).Fine dkp
  inj : Set.InjOn dkp.place D
  locs : ∀ i, ∀ l ∈ (bp i).locs, l ∈ D

/-- The cookies of a request. -/
structure Cut (dkp : Cmdk) (bp : IoBuf) (cks : List (Int × Int)) : Prop where
  nonneg : ∀ e ∈ cks, 0 ≤ e.2
  bytes : 512 * size cks = bp.bcount
  count : size cks = bp.count
  cover : cover cks = bp.locs.map dkp.place

/-- The medium is the store `t` where no write is at work, `t` is what the requests that
    have ended make of `m₀`, and no two requests at work conflict. -/
structure SharedOk {ι β : Type} (dkp : Cmdk) (bp : ι → IoBuf) (D : Set Loc) (m₀ : Int → β)
    (t : Int → β) (p : Medium ι β × List (Op Loc β)) : Prop where
  runs : Runs (p.2.map (Op.map dkp.place)) m₀ t
  known : ∀ op ∈ p.2, ∀ l ∈ op.cells, l ∈ D
  media : ∀ x, (∀ i ∈ p.1.busy, (bp i).read = false → x ∉ (bp i).locs.map dkp.place) →
    p.1.media x = t x
  apart : ∀ i ∈ p.1.busy, ∀ j ∈ p.1.busy, i ≠ j → ¬ Conflict (bp i) (bp j)

/-- The assertion of one request. -/
def ReqOk {ι σ β : Type} (dkp : Cmdk) (bp : ι → IoBuf) (data : ι → Int → β) (t : Int → β) (i : ι)
    (p : Medium ι β × List (Op Loc β)) : MediaReq σ β → Prop
  | .fresh => i ∉ p.1.busy
  | .ended => i ∉ p.1.busy
  | .work d b => i ∈ p.1.busy ∧
    ∃ cks, Cut dkp (bp i) cks ∧ Working (bp i) (data i) cks t p.1.media d b

section Requests

variable {ι σ β : Type} {c : Ctl σ} {dadkp : Dadk} {dkp : Cmdk} {bp : ι → IoBuf} {D : Set Loc}
  {data : ι → Int → β} {m₀ t : Int → β}

theorem IoBuf.nodup_locs (bp : IoBuf) : bp.locs.Nodup :=
  (nodup_cells _ _).map fun _ _ h => congrArg Prod.snd h

theorem IoBuf.map_place (dkp : Cmdk) (bp : IoBuf) :
    bp.locs.map dkp.place = (cells bp.sec bp.count).map (dkp.alts bp.part).remap := by
  unfold IoBuf.locs
  rw [List.map_map]
  rfl

theorem Conflict.symm {bp bp' : IoBuf} (h : Conflict bp bp') : Conflict bp' bp := by
  rcases h with ⟨hw, l, hl, hl'⟩
  exact ⟨hw.symm, l, hl', hl⟩

/-- Requests that do not conflict have no sector in common, if one of them is a write. -/
theorem Usable.disjoint (h : Usable c dadkp dkp bp D) {i j : ι}
    (hn : ¬ Conflict (bp i) (bp j)) (hw : (bp i).read = false ∨ (bp j).read = false) :
    ∀ x ∈ (bp i).locs.map dkp.place, x ∉ (bp j).locs.map dkp.place := by
  intro x hx hx'
  rcases List.mem_map.mp hx with ⟨l, hl, rfl⟩
  rcases List.mem_map.mp hx' with ⟨l', hl', he⟩
  rw [h.inj (h.locs j l' hl') (h.locs i l hl) he] at hl'
  exact hn ⟨hw, l, hl, hl'⟩

/-- No two sectors of a request are in the same place. -/
theorem Usable.nodup (h : Usable c dadkp dkp bp D) (i : ι) :
    ((bp i).locs.map dkp.place).Nodup :=
  (bp i).nodup_locs.map_on fun l hl l' hl' he => h.inj (h.locs i l hl) (h.locs i l' hl') he

/-- A request that is accepted can be cut. -/
theorem Usable.cut (h : Usable c dadkp dkp bp D) {i : ι} {bp' : IoBuf}
    (hacc : strategy dadkp (bp i) = .ok bp') :
    bp' = bp i ∧ (bp i).bcount % 512 = 0 ∧
      ∃ cks, IsRequest dadkp (bp i) cks ∧ Cut dkp (bp i) cks := by
  rcases strategy_accepted hacc with ⟨hmod, rfl⟩
  have hf := h.fine i
  have hpos := hf.pos
  have hshift : (bp i).bcount >>> 9 = (bp i).bcount / 512 := Nat.shiftRight_eq_div_pow _ 9
  rw [Dadk.secsiz_nine h.secshf] at hmod
  rcases isRequest_of_gethandle dkp dadkp h.bbh (bp i) hf.alts hf.first (by rw [hshift]; omega)
    hf.last with ⟨cks, hreq, hcover⟩
  rcases hreq.size_eq with ⟨hsize, hnn⟩
  refine ⟨?_, hmod, cks, hreq, hnn, ?_, ?_, ?_⟩
  · rw [h.blkshf, Int.shiftRight_zero]
  · rw [hsize]
    omega
  · rw [hsize, IoBuf.count, hshift]
  · rw [hcover, IoBuf.map_place]
    rfl

/-- A request that has just been prepared. -/
theorem Working.begin (hc : c.Ok) (h9 : dadkp.secshf = 9) {bp : IoBuf} {cks : List (Int × Int)}
    (hf : bp.Fine dkp) (hmod : bp.bcount % 512 = 0) (hreq : IsRequest dadkp bp cks) (k : σ)
    (data t m : Int → β) :
    Working bp data cks t m ⟨.ready, (ioprep c dadkp ⟨k, {}, bp⟩).1, []⟩ data := by
  refine ⟨ioprep_ordered hc h9 hf.pos hmod hf.error hreq, ?_, fun _ => rfl,
    fun _ => ⟨rfl, rfl⟩, fun _ _ => rfl⟩
  unfold ioprep iosetup
  rw [hf.internal]
  dsimp only
  rcases Live.start h9 bp.cmd hf.pos hmod hreq with ⟨rest, hlive⟩
  exact ctlIosetup_same hc (s := ⟨k, nextChunk dadkp bp
    { cdb := bp.cmd, byteleft := bp.bcount, priv := dadkp.bbh bp.toBuf }, bp⟩) hlive
    ⟨rfl, nextChunk_cdb _ _ _⟩

/-- A request that has ended without an error has moved all its sectors. -/
theorem Working.complete {bp : IoBuf} {data m b : Int → β} {cks : List (Int × Int)}
    {d : DadkRun σ} (hcut : Cut dkp bp cks) (h : Working bp data cks t m d b)
    (hd : d.phase = .done) (he : d.io.bp.error = none) :
    (bp.read = true → (bp.locs.map dkp.place).map t = (cells 0 bp.count).map b) ∧
      (bp.read = false → (bp.locs.map dkp.place).map m = (cells 0 bp.count).map data) := by
  have ho := h.ordered
  rw [Ordered, if_pos hd] at ho
  rcases ho with ⟨-, -, hwhole, -, hall⟩
  have hcov := (hall he).2
  have hsize : size (chunks d.log) = bp.count := by
    rw [← hcut.count, ← length_cover (chunks_nonneg hwhole), hcov, length_cover hcut.nonneg]
  rw [← hcut.cover, ← hcov, ← hsize]
  exact ⟨fun hr => (h.moved.read hr).symm, fun hr => (h.moved.write hr).1⟩

theorem Ordered.isPrefix {cks log : List (Int × Int)} {phase : Phase} {s : Io σ}
    (h : Ordered cks phase s log) : cover (chunks log) <+: cover cks := by
  unfold Ordered at h
  split at h
  · exact h.2.2.2.1
  · rcases h with ⟨-, rest, hl⟩
    exact hl.isPrefix

/-- What happens elsewhere does not matter to a request. -/
theorem Working.frame {bp : IoBuf} {data m m' t' b : Int → β} {cks : List (Int × Int)}
    {d : DadkRun σ} (h : Working bp data cks t m d b)
    (hread : bp.read = true → ∀ x ∈ cover cks, t' x = t x)
    (hwrite : bp.read = false → ∀ x ∈ cover cks, m' x = m x) :
    Working bp data cks t' m' d b := by
  have hsub := h.ordered.isPrefix.subset
  refine ⟨h.ordered, h.same, fun hr => ?_, fun hr => ⟨?_, (h.moved.write hr).2⟩, h.moved.within⟩
  · rw [h.moved.read hr]
    exact List.map_congr_left fun x hx => (hread hr x (hsub hx)).symm
  · rw [← (h.moved.write hr).1]
    exact List.map_congr_left fun x hx => hwrite hr x (hsub hx)

/-- The assertion of a request that takes no part in a step. -/
theorem ReqOk.frame {i : ι} {p p' : Medium ι β × List (Op Loc β)} {t' : Int → β}
    {r : MediaReq σ β} (h : ReqOk dkp bp data t i p r) (hbusy : i ∈ p'.1.busy ↔ i ∈ p.1.busy)
    (hread : i ∈ p.1.busy → (bp i).read = true →
      ∀ x ∈ (bp i).locs.map dkp.place, t' x = t x)
    (hwrite : i ∈ p.1.busy → (bp i).read = false →
      ∀ x ∈ (bp i).locs.map dkp.place, p'.1.media x = p.1.media x) :
    ReqOk dkp bp data t' i p' r := by
  cases r with
  | fresh => exact fun hn => h (hbusy.mp hn)
  | ended => exact fun hn => h (hbusy.mp hn)
  | work d b =>
    rcases h with ⟨hi, cks, hcut, hw⟩
    refine ⟨hbusy.mpr hi, cks, hcut, hw.frame ?_ ?_⟩
    · rw [hcut.cover]
      exact hread hi
    · rw [hcut.cover]
      exact hwrite hi

/-- A request begins. -/
theorem SharedOk.begin {i : ι} {a : Medium ι β} {ops : List (Op Loc β)}
    (h : SharedOk dkp bp D m₀ t (a, ops)) (hfree : ∀ j ∈ a.busy, ¬ Conflict (bp i) (bp j)) :
    SharedOk dkp bp D m₀ t ({ a with busy := insert i a.busy }, ops) where
  runs := h.runs
  known := h.known
  media := fun x hx => h.media x fun j hj => hx j (Set.mem_insert_of_mem i hj)
  apart := by
    intro j hj k hk hjk hcon
    rcases Set.mem_insert_iff.mp hj with rfl | hj'
    · rcases Set.mem_insert_iff.mp hk with rfl | hk'
      · exact hjk rfl
      · exact hfree k hk' hcon
    · rcases Set.mem_insert_iff.mp hk with rfl | hk'
      · exact hfree j hj' hcon.symm
      · exact h.apart j hj' k hk' hjk hcon

/-- A step of dadk: the medium changes at most where this request writes. -/
theorem SharedOk.dadk {i : ι} {a : Medium ι β} {ops : List (Op Loc β)} {m' : Int → β}
    (h : SharedOk dkp bp D m₀ t (a, ops)) (hi : i ∈ a.busy)
    (hread : (bp i).read = true → m' = a.media)
    (hframe : ∀ x, x ∉ (bp i).locs.map dkp.place → m' x = a.media x) :
    SharedOk dkp bp D m₀ t ({ a with media := m' }, ops) where
  runs := h.runs
  known := h.known
  media := by
    intro x hx
    rw [← h.media x hx]
    cases hr : (bp i).read with
    | true => rw [hread hr]
    | false => exact hframe x (hx i hi hr)
  apart := h.apart

/-- A request ends. `op` is its outcome, and `t'` the store after it. -/
theorem SharedOk.finish {i : ι} {a : Medium ι β} {ops l : List (Op Loc β)} {t' : Int → β}
    (h : SharedOk dkp bp D m₀ t (a, ops)) (hl : Runs (l.map (Op.map dkp.place)) t t')
    (hknown : ∀ op ∈ l, ∀ l ∈ op.cells, l ∈ D)
    (hmedia : ∀ x, x ∉ (bp i).locs.map dkp.place → t' x = t x)
    (hdone : ∀ x ∈ (bp i).locs.map dkp.place, (∀ j ∈ a.busy \ {i}, (bp j).read = false →
      x ∉ (bp j).locs.map dkp.place) → a.media x = t' x) :
    SharedOk dkp bp D m₀ t' ({ a with busy := a.busy \ {i} }, keepOutcome ops l) where
  runs := by
    unfold keepOutcome
    rw [List.map_append]
    exact h.runs.append hl
  known := by
    intro op hop
    rcases List.mem_append.mp hop with hop | hop
    · exact h.known op hop
    · exact hknown op hop
  media := by
    intro x hx
    by_cases hxi : x ∈ (bp i).locs.map dkp.place
    · exact hdone x hxi hx
    · rw [hmedia x hxi]
      refine h.media x fun j hj hr => ?_
      by_cases hji : j = i
      · rw [hji]
        exact hxi
      · exact hx j ⟨hj, hji⟩ hr
  apart := fun j hj k hk => h.apart j hj.1 k hk.1

/-- What the outcome of a request does to the store: nothing if it is a read, and
    otherwise the sectors of the request get what is on the medium. -/
theorem Working.outcome {bp : IoBuf} {data m b : Int → β} {cks : List (Int × Int)}
    {d : DadkRun σ} (hcut : Cut dkp bp cks) (h : Working bp data cks t m d b)
    (hd : d.phase = .done) :
    ∃ t', Runs ((outcome bp data d b).map (Op.map dkp.place)) t t' ∧
      (bp.read = true → t' = t) ∧ (∀ x, x ∉ bp.locs.map dkp.place → t' x = t x) ∧
      (bp.read = false → ∀ x ∈ bp.locs.map dkp.place, t' x = m x) := by
  have hno : bp.read = true → bp.read ≠ false := fun hr hn =>
    absurd (hn.symm.trans hr) Bool.false_ne_true
  -- The sectors of a write get what has arrived on the medium.
  have hin : ∀ x ∈ bp.locs.map dkp.place,
      (if x ∈ bp.locs.map dkp.place then m x else t x) = m x := fun x hx => if_pos hx
  have hout : ∀ x, x ∉ bp.locs.map dkp.place →
      (if x ∈ bp.locs.map dkp.place then m x else t x) = t x := fun x hx => if_neg hx
  unfold Disk.outcome
  by_cases he : d.io.bp.error = none
  · rcases h.complete hcut hd he with ⟨hread, hwrite⟩
    rw [if_pos he]
    cases hr : bp.read with
    | true =>
      exact ⟨t, ⟨t, ⟨rfl, hread hr⟩, rfl⟩, fun _ => rfl, fun _ _ => rfl,
        fun hn => absurd hn.symm Bool.false_ne_true⟩
    | false =>
      refine ⟨_, ⟨_, ⟨?_, hout⟩, rfl⟩, fun hn => absurd hn Bool.false_ne_true, hout, fun _ => hin⟩
      rw [← hwrite hr]
      exact List.map_congr_left hin
  · rw [if_neg he]
    cases hr : bp.read with
    | true =>
      exact ⟨t, rfl, fun _ => rfl, fun _ _ => rfl, fun hn => absurd hn.symm Bool.false_ne_true⟩
    | false =>
      exact ⟨_, ⟨_, hout, rfl⟩, fun hn => absurd hn Bool.false_ne_true, hout, fun _ => hin⟩

theorem outcome_cells (bp : IoBuf) (data : Int → β) (d : DadkRun σ) (b : Int → β) :
    ∀ op ∈ outcome bp data d b, op.cells = bp.locs := by
  intro op hop
  unfold outcome at hop
  split at hop
  · split at hop
    · rw [List.mem_singleton.mp hop]
      rfl
    · rw [List.mem_singleton.mp hop]
      rfl
  · split at hop
    · exact absurd hop List.not_mem_nil
    · rw [List.mem_singleton.mp hop]
      rfl

/-- What a step keeps. -/
theorem Usable.step (h : Usable c dadkp dkp bp D) {i : ι} {thr : ι → MediaReq σ β}
    {p p' : Medium ι β × List (Op Loc β)} {r' : MediaReq σ β}
    (hst : Sys.Recorded (MediaLocal c dadkp bp data) keepOutcome i p (thr i) p' r')
    (hI : SharedOk dkp bp D m₀ t p) (hJ : ∀ j, ReqOk dkp bp data t j p (thr j)) :
    ∃ t', SharedOk dkp bp D m₀ t' p' ∧ ReqOk dkp bp data t' i p' r' ∧
      ∀ j, j ≠ i → ReqOk dkp bp data t' j p' (thr j) := by
  rcases p with ⟨a, ops⟩
  rcases p' with ⟨a', ops'⟩
  rcases hst with ⟨l, hl, hops⟩
  dsimp only at hl hops
  have hown := hJ i
  generalize hr : thr i = r at hl hown
  cases hl with
  | begin _ k bp' hacc hfree =>
    rcases h.cut hacc with ⟨rfl, hmod, cks, hreq, hcut⟩
    rw [keepOutcome, List.append_nil] at hops
    rw [hops]
    refine ⟨t, hI.begin hfree, ⟨Set.mem_insert i _, cks, hcut,
      .begin h.ctl h.secshf (h.fine i) hmod hreq k _ t _⟩, fun j hj => ?_⟩
    refine (hJ j).frame ?_ (fun _ _ _ _ => rfl) (fun _ _ _ _ => rfl)
    exact ⟨fun hm => (Set.mem_insert_iff.mp hm).resolve_left hj, Set.mem_insert_of_mem i⟩
  | dadk _ d d' b m' b' hst hm =>
    rcases hown with ⟨hi, cks, hcut, hw⟩
    rw [keepOutcome, List.append_nil] at hops
    rw [hops]
    have hnd : (cover cks).Nodup := hcut.cover.symm ▸ h.nodup i
    -- The sectors of a read are on the medium as they are in the store.
    have hknown : (bp i).read = true → ∀ x ∈ cover cks, a.media x = t x := by
      intro hri x hx
      rw [hcut.cover] at hx
      refine hI.media x fun j hj hrj => ?_
      have hne : i ≠ j := fun hij => absurd (hrj.symm.trans (hij ▸ hri)) Bool.false_ne_true
      exact h.disjoint (hI.apart i hi j hj hne) (Or.inr hrj) x hx
    rcases hw.step h.ctl h.secshf hcut.nonneg hcut.bytes hcut.count hnd hst hm hknown with
      ⟨hw', hread, hframe⟩
    rw [hcut.cover] at hframe
    refine ⟨t, hI.dadk hi hread hframe, ⟨hi, cks, hcut, hw'⟩, fun j hj => ?_⟩
    refine (hJ j).frame Iff.rfl (fun _ _ _ _ => rfl) fun hjb hrj x hx => hframe x ?_
    exact h.disjoint (hI.apart j hjb i hi hj) (Or.inl hrj) x hx
  | finish _ d b hd =>
    rcases hown with ⟨hi, cks, hcut, hw⟩
    rw [hops]
    rcases hw.outcome hcut hd with ⟨t', hruns, hread, hframe, hwrite⟩
    refine ⟨t', hI.finish hruns ?_ hframe ?_, fun hn => hn.2 rfl, fun j hj => ?_⟩
    · intro op hop l hlc
      rw [outcome_cells _ _ _ _ op hop] at hlc
      exact h.locs i l hlc
    · intro x hx hfree
      cases hri : (bp i).read with
      | true =>
        rw [hread hri]
        refine hI.media x fun j hj hrj => hfree j ⟨hj, fun hij => ?_⟩ hrj
        exact absurd (hrj.symm.trans (hij ▸ hri)) Bool.false_ne_true
      | false => exact (hwrite hri x hx).symm
    · refine (hJ j).frame ⟨fun hm => hm.1, fun hm => ⟨hm, hj⟩⟩ (fun hjb hrj x hx => ?_)
        fun _ _ _ _ => rfl
      -- A read that is on its way has no sector in common with a write that ends.
      cases hri : (bp i).read with
      | true => rw [hread hri]
      | false => exact hframe x (h.disjoint (hI.apart j hjb i hi hj) (Or.inr hri) x hx)

/-- The invariant holds in every run. -/
theorem Usable.reachable [DecidableEq ι] (h : Usable c dadkp dkp bp D)
    {s : Sys ι (Medium ι β × List (Op Loc β)) (MediaReq σ β)}
    (hs : Reachable (Sys.RecordInit (MediaInit m₀) [])
      (Sys.Step (Sys.Recorded (MediaLocal c dadkp bp data) keepOutcome)) s) :
    ∃ t, Sys.Holds (SharedOk dkp bp D m₀) (ReqOk dkp bp data) t s := by
  refine Sys.Holds.reachable (P := fun _ => True) (fun _ _ => trivial) ?_ ?_ hs
  · intro s h0
    rcases h0 with ⟨⟨hshared, hfresh⟩, hops⟩
    have hbusy : s.shared.1.busy = ∅ := congrArg Medium.busy hshared
    refine ⟨m₀, ⟨?_, ?_, fun x _ => congrFun (congrArg Medium.media hshared) x, ?_⟩,
      fun i => ?_⟩
    · rw [hops]
      rfl
    · rw [hops]
      exact fun op hop => absurd hop List.not_mem_nil
    · rw [hbusy]
      exact fun i hi => absurd hi (Set.notMem_empty i)
    · rw [show s.thr i = .fresh from hfresh i]
      intro hn
      rw [hbusy] at hn
      exact absurd hn (Set.notMem_empty i)
  · exact fun t i s a' c' _ hst hst' => h.step hst hst'.1 hst'.2

end Requests

end Disk

end Sil3112
