import Sil3112.Ata.Passthru
import Sil3112.Ata.PioBuffer
import Sil3112.Ghd.Bind

/-!
# Falling Back to PIO

`ata_disk_memsetup` binds the buf for DMA if it can, and prepares the packet for PIO
if not. The request is then to go on as if DMA had never been tried.

The packet does. But `ghd_dma_buf_bind_attr` also reports its failure on the buf. A
buf that the system could not bind for want of resources has its `b_error` cleared,
and one that is too big, or cannot be mapped, gets `B_ERROR`. `dadk_iodone` takes
this for an error of the command that has just succeeded, and finishes the request
after its first chunk, and with an error in any case.

## Main definitions

* `MemArgs`, `memsetupAttr`: `ata_disk_memsetup`, with the error of the buf and the
  handles of the system.
* `Completes`: The request transfers all its bytes and completes without an error,
  if every command succeeds.
* `Invisible`: Nobody can tell that DMA has been tried.
* `LeavesError`: The failures that leave the error of the buf as it is.

## Theorems

* `memsetupAttr_eq`: This is `ata_disk_memsetup` as it was, with the handles.
* `pio_completes`: The commands of a PIO request, if all of them succeed.
* `fallback_invisible_iff`: When falling back to PIO is invisible.
-/

namespace Sil3112

namespace Ata

open Ghd Disk Extent

/-! ## The setup of the memory -/

/-- What `ata_disk_memsetup` looks at: `ad_pciide_dma` and `ata_dma_disabled`, and the
    buf. -/
structure MemArgs where
  dmaOn : Bool
  dmaDisabled : Bool
  buf : Ghd.Buf

/-- `ata_disk_memsetup` tries to bind the buf. -/
def MemArgs.TriesDma (m : MemArgs) : Prop :=
  m.buf.bcount ≠ 0 ∧ m.dmaOn = true ∧ m.dmaDisabled = false ∧
    ¬(m.buf.pageio = false ∧ m.buf.addr % prdeAlign ≠ 0) ∧ m.buf.bcount % 2 ≠ 1

/-- The packet, its `gcmd_t`, the error of the buf, and the handles. -/
structure MemOut where
  pkt : DiskPkt
  g : HandleGcmd
  err : BufError
  ddi : Ddi

/-- `ata_disk_memsetup` -/
def memsetupAttr (m : MemArgs) (a : DdiAnswers) (err : BufError) (q : DiskPkt) (g : HandleGcmd)
    (s : Ddi) : MemOut :=
  let q := { q with sgCnt := 0 }
  let pio : MemOut := ⟨{ q with vAddr := m.buf.mapped }, g, err, s⟩
  if m.buf.bcount = 0 then ⟨{ q with vAddr := 0 }, g, err, s⟩
  else if m.dmaOn = false then pio
  else if m.dmaDisabled = true then pio
  else if m.buf.pageio = false ∧ m.buf.addr % prdeAlign ≠ 0 then pio
  else if m.buf.bcount % 2 = 1 then pio
  else
    let r := dmaBufBind a m.buf.bp ⟨m.buf.read, false, true⟩ err g s
    if r.ok then ⟨{ q with vAddr := 0 }, r.g, r.err, r.ddi⟩
    else ⟨{ q with vAddr := m.buf.mapped }, r.g, r.err, r.ddi⟩

/-- `ata_disk_memsetup` as it was, for a buf that is known by its address. -/
theorem memsetupAttr_eq (m : MemArgs) (a : DdiAnswers) (err : BufError) (q : DiskPkt)
    {g : HandleGcmd} {s : Ddi} (hs : s.Ok) (hbp : m.buf.bp = m.buf.addr)
    (hmap : m.buf.mapped = m.buf.addr) :
    let r := memsetupAttr m a err q g s
    let t := diskMemsetup m.dmaOn m.dmaDisabled m.buf.pageio m.buf.addr m.buf.bcount a.windows
      ⟨q, g.dma⟩
    t.pkt = r.pkt ∧ (r.g.handle ≠ none → g.handle = none → t.dma = r.g.dma) := by
  intro r t
  subst r t
  have hdma := dmaBufBind_dma hs a m.buf.addr ⟨m.buf.read, false, true⟩ err g
  have hspec := dmaBufBind_spec hs a m.buf.addr ⟨m.buf.read, false, true⟩ err g
  unfold memsetupAttr diskMemsetup
  rw [hmap, hbp]
  dsimp only
  -- The checks before the bind are the same, in the same order.
  by_cases h0 : m.buf.bcount = 0
  · rw [if_pos h0, if_pos h0]
    exact ⟨rfl, fun _ _ => rfl⟩
  rw [if_neg h0, if_neg h0]
  by_cases hon : m.dmaOn = false
  · rw [if_pos hon, if_pos hon]
    exact ⟨rfl, fun _ _ => rfl⟩
  rw [if_neg hon, if_neg hon]
  by_cases hdis : m.dmaDisabled = true
  · rw [if_pos hdis, if_pos hdis]
    exact ⟨rfl, fun _ _ => rfl⟩
  rw [if_neg hdis, if_neg hdis]
  by_cases hpage : m.buf.pageio = false ∧ m.buf.addr % prdeAlign ≠ 0
  · rw [if_pos hpage, if_pos hpage]
    exact ⟨rfl, fun _ _ => rfl⟩
  rw [if_neg hpage, if_neg hpage]
  by_cases hodd : m.buf.bcount % 2 = 1
  · rw [if_pos hodd, if_pos hodd]
    exact ⟨rfl, fun _ _ => rfl⟩
  rw [if_neg hodd, if_neg hodd, hdma]
  cases hok : (dmaBufBind a m.buf.addr ⟨m.buf.read, false, true⟩ err g s).ok with
  | true => exact ⟨rfl, fun _ _ => rfl⟩
  | false =>
    refine ⟨rfl, fun hne hnone => ?_⟩
    exact absurd ((hspec.failed hok).1.trans hnone) hne

/-- What dadk sees of the error of a buf: `geterror` is not 0 if `B_ERROR` is set.
    Which error it is does not matter to it. -/
def geterror (e : BufError) : Option Errno := if e.error then some .eio else none

/-- The buf as dadk has it when its packet has been prepared. -/
def MemOut.buf (r : MemOut) (bp : IoBuf) : IoBuf := { bp with error := geterror r.err }

/-- The request when flow control has sent its packet. -/
def MemOut.sent (r : MemOut) (drv : DiskDrv) (dadkp : Dadk) (bp : IoBuf) : Io AtaDisk :=
  (Disk.transport (ataDisk drv) dadkp
    (ioprep (ataDisk drv) dadkp ⟨⟨r.pkt, r.g.dma⟩, {}, r.buf bp⟩).1).1

/-- The bytes of a sector. -/
def sectorBytes (sec : Int) : List Int := cells (512 * sec) 512

/-- If every command succeeds, the request comes to an end, without an error, and its
    commands have moved every byte of its sectors once and in order, to or from the
    byte of the buffer at the same offset. -/
def Completes (drv : DiskDrv) (dadkp : Dadk) (cks : List (Int × Int)) (base : Nat) (r : MemOut)
    (bp : IoBuf) : Prop :=
  ∃ fuel io cmds, runCmds drv dadkp fuel (r.sent drv dadkp bp) [] = some (io, cmds) ∧
    io.bp.error = none ∧ io.pkt.byteleft = 0 ∧
    cmds.flatMap DiskCmd.moves = ((cover cks).flatMap sectorBytes).zip (cells base bp.bcount)

/-- Nobody can tell that DMA has been tried: the packet is for PIO, and has no handle,
    the error of the buf is what it was, and without one the request completes. -/
structure Invisible (drv : DiskDrv) (dadkp : Dadk) (cks : List (Int × Int)) (m : MemArgs)
    (bp : IoBuf) (err : BufError) (r : MemOut) : Prop where
  sg : r.pkt.sgCnt = 0
  vAddr : r.pkt.vAddr = m.buf.mapped
  handle : r.g.handle = none
  dma : r.g.dma.handle = none
  error : r.err = err
  request : err.error = false → Completes drv dadkp cks m.buf.mapped r bp

/-- The failures of a bind that leave the error of the buf as it is. Those for want of
    resources clear `b_error`, the others set `B_ERROR` and `b_error`. -/
def LeavesError (a : DdiAnswers) (err : BufError) : Prop :=
  if a.allocOk = false then err.errno = 0
  else match a.status with
    | .noResources => err.errno = 0
    | .partialMap => err.errno = 0
    | .tooBig => err = ⟨true, einval⟩
    | _ => err = ⟨true, efault⟩

/-! ## A PIO request -/

section Pio

variable {drv : DiskDrv} {dadkp : Dadk} {base : Nat} {m : Int} {s : AtaDisk} {p : Cmpkt}

/-- The bytes of some sectors. -/
theorem cells_sectorBytes (n : Nat) : ∀ x : Int,
    cells (512 * x) (512 * n) = (cells x n).flatMap sectorBytes := by
  induction n with
  | zero => exact fun _ => rfl
  | succ n ih =>
    intro x
    have hsec : cells x ((n + 1 : Nat) : Int) = cells x 1 ++ cells (x + 1) n := by
      rw [← cells_split x (by omega) (by omega)]
      congr 1
      omega
    have hbytes : cells (512 * x) (512 * ((n + 1 : Nat) : Int)) =
        cells (512 * x) 512 ++ cells (512 * (x + 1)) (512 * n) := by
      have hsplit := cells_split (512 * x) (m := 512) (n := 512 * n) (by omega) (by omega)
      rw [show (512 * ((n + 1 : Nat) : Int)) = 512 + 512 * n by omega, hsplit]
      congr 2
      omega
    have hone : cells x 1 = [x] := by simp [cells]
    rw [hsec, hbytes, List.flatMap_append, ih, hone, List.flatMap_singleton]
    rfl

/-- What a PIO command that has been set up moves. -/
theorem Fresh.moves (h : Fresh drv base m s p) :
    s.pkt.moves drv = ((cells p.srtsec (p.bytexfer / 512)).flatMap sectorBytes).zip
      (cells (base + m) p.bytexfer) := by
  have htold := h.told
  unfold DiskPkt.moves DiskPkt.memory
  rw [h.pio, if_neg Bool.false_ne_true, h.startsec, h.vAddr, h.resid]
  congr 1
  rw [← htold, Int.mul_ediv_cancel _ (by decide), cells_sectorBytes]

/-- It moves the chunk. -/
theorem Fresh.length_moves (h : Fresh drv base m s p) :
    ((s.pkt.moves drv).length : Int) = p.bytexfer := by
  have htold := h.told
  unfold DiskPkt.moves DiskPkt.memory
  rw [h.pio, if_neg Bool.false_ne_true, List.length_zip, length_cells, length_cells, h.resid]
  omega

/-- A command that has been carried out. -/
theorem Fresh.finish (h : Fresh drv base m s p) :
    Idle base (m + p.bytexfer) { s with pkt := s.pkt.finish drv } := by
  have hlen := h.length_moves
  unfold DiskPkt.finish
  rw [h.pio, if_neg Bool.false_ne_true]
  refine ⟨h.handle, fun _ => ?_, fun he => absurd (h.error.symm.trans he) nofun⟩
  have hv := h.vAddr
  dsimp only
  push_cast
  omega

/-- The controller of a disk keeps the position in the buffer. -/
theorem ataDisk_keeps (hmin : 1 ≤ drv.maxTransfer) (hmax : drv.maxTransfer ≤ 256) :
    (ataDisk drv).Keeps (Idle base) (Fresh drv base) where
  setup := fun _ _ _ hi hp h0 h512 => diskIosetup_fresh hmin hmax hi hp h0 h512
  send := fun _ _ _ h => h
  again := by
    intro m k p h
    refine ⟨h.handle, fun _ => h.vAddr, fun he => ?_⟩
    rw [h.error] at he
    cases he

/-- Every sector has as many bytes as it should. -/
theorem length_sectorBytes (l : List Int) : (l.flatMap sectorBytes).length = 512 * l.length := by
  induction l with
  | nil => rfl
  | cons x l ih =>
    have hx : (sectorBytes x).length = 512 := length_cells _ _
    rw [List.flatMap_cons, List.length_append, ih, hx, List.length_cons]
    omega

/-- The bytes that the commands of a log have moved, with the bytes of the buffer. -/
def pairs (base : Nat) (log : List (Int × Int)) : List (Int × Int) :=
  ((cover (chunks log)).flatMap sectorBytes).zip (cells base (moved log))

/-- One more command. -/
theorem pairs_append {log : List (Int × Int)} (h : ∀ e ∈ log, 0 < e.2 ∧ e.2 % 512 = 0) {sec x : Int}
    (hx : 0 ≤ x) : pairs base (log ++ [(sec, x)]) = pairs base log ++
      ((cells sec (x / 512)).flatMap sectorBytes).zip (cells (base + moved log) x) := by
  have hmoved := moved_eq h
  have hlog : ∀ e ∈ chunks log, 0 ≤ e.2 := by
    intro e he
    rcases List.mem_map.mp he with ⟨e', he', rfl⟩
    have := h e' he'
    dsimp only
    omega
  have hsize := size_nonneg hlog
  -- The sectors before the new command have as many bytes as have been moved.
  have hlen : ((cover (chunks log)).flatMap sectorBytes).length =
      (cells base (moved log)).length := by
    have hcover := length_cover hlog
    rw [length_sectorBytes, length_cells]
    omega
  unfold pairs
  rw [chunks_append, cover_append, List.flatMap_append, moved_append,
    cells_split base (by omega) hx, List.zip_append hlen]
  simp [chunks]

/-- A request whose commands all succeed. `n` commands are enough, as each transfers at
    least a sector. -/
theorem pio_completes {cks : List (Int × Int)} (hmin : 1 ≤ drv.maxTransfer)
    (hmax : drv.maxTransfer ≤ 256) (h9 : dadkp.secshf = 9) (hcks : ∀ e ∈ cks, 0 ≤ e.2) (n : Nat) :
    ∀ {s : Io AtaDisk} {log rest : List (Int × Int)} {cmds : List DiskCmd},
      s.pkt.byteleft ≤ 512 * n → Live cks log s.pkt rest → Plain s.pkt →
      Fresh drv base (moved log) s.ctl s.pkt → s.bp.error = none →
      cmds.flatMap DiskCmd.moves = pairs base log →
      ∃ io cmds', runCmds drv dadkp n s cmds = some (io, cmds') ∧ io.bp.error = none ∧
        io.pkt.byteleft = 0 ∧
        cmds'.flatMap DiskCmd.moves =
          ((cover cks).flatMap sectorBytes).zip (cells base (512 * size cks)) := by
  induction n with
  | zero =>
    intro s log rest cmds hn hl hp hf he hc
    have hpos := hl.xfer_pos
    have hle := hl.xfer_le_byteleft
    omega
  | succ n ih =>
    intro s log rest cmds hn hl hp hf he hc
    have hpos := hl.xfer_pos
    have hle := hl.xfer_le_byteleft
    have hmod := hl.xfer_mod
    have hc' : (cmds ++ [cmdOf drv s]).flatMap DiskCmd.moves =
        pairs base (log ++ [(s.pkt.srtsec, s.pkt.bytexfer)]) := by
      rw [pairs_append hl.whole (le_of_lt hpos), List.flatMap_append, hc, List.flatMap_singleton,
        ← hf.moves]
      rfl
    by_cases hlast : s.pkt.byteleft = s.pkt.bytexfer
    · -- The log is the whole request.
      have hzero := Int.sub_eq_zero.mpr hlast
      refine ⟨_, _, runCmds_last n hlast, he, hzero, ?_⟩
      rw [hc']
      unfold pairs
      rw [hl.last hzero, hl.last_moved hcks hzero]
    · -- The next chunk is set up where this one ends, in the sectors and in the buffer.
      rw [runCmds_more n he hlast]
      have hcong := hl.congr s.pkt.retry .success .success ((s.ctl.pkt.finish drv).resid)
      rcases hcong.next h9 s.bp (fun hz => hlast (by dsimp only at hz; omega)) with ⟨rest', hnext⟩
      have hplain : Plain (nextPkt drv dadkp s) := nextChunk_plain dadkp s.bp (hp.congr rfl rfl)
      have hidle := hf.finish
      rw [← moved_append log (s.pkt.srtsec, s.pkt.bytexfer)] at hidle
      have hbl : (nextPkt drv dadkp s).byteleft = s.pkt.byteleft - s.pkt.bytexfer :=
        (nextChunk_fields dadkp s.bp _).1
      rcases diskIosetup_fresh hmin hmax hidle hplain hnext.xfer_pos hnext.xfer_mod with
        ⟨k, x, y, hset, hx, hxle, hxmod, hfresh⟩
      have hio : nextIo drv dadkp s =
          ⟨k, { nextPkt drv dadkp s with bytexfer := x, resid := y }, s.bp⟩ := by
        unfold nextIo
        exact congrArg (fun t => (⟨t.1, t.2.1, s.bp⟩ : Io AtaDisk)) hset
      rw [hio]
      refine ih ?_ (hnext.setup hx hxle hxmod) (hplain.congr rfl rfl) hfresh he hc'
      dsimp only
      omega

/-- A request that has an error ends with its first command, and keeps the error. -/
theorem runCmds_failed {s : Io AtaDisk} (he : s.bp.error ≠ none) {n : Nat}
    {cmds cmds' : List DiskCmd} {io : Io AtaDisk}
    (h : runCmds drv dadkp n s cmds = some (io, cmds')) : io.bp.error ≠ none := by
  cases n with
  | zero => cases h
  | succ n =>
    unfold runCmds pktcb iodone at h
    dsimp only [Cmpkt.report] at h
    rw [if_pos rfl, if_neg fun hn => he hn.1] at h
    rw [← (Prod.mk.inj (Option.some.inj h)).1]
    exact he

end Pio

/-! ## The fallback -/

section Fallback

variable {drv : DiskDrv} {dadkp : Dadk} {cks : List (Int × Int)} {m : MemArgs} {a : DdiAnswers}
  {err : BufError} {q : DiskPkt} {g : HandleGcmd} {s : Ddi} {bp : IoBuf}

/-- The packet when the buf could not be bound. -/
theorem memsetupAttr_fails (hs : s.Ok) (htry : m.TriesDma) (hfail : a.windows = none)
    (hg : g.handle = none) (hdma : g.dma.handle = none) :
    let r := memsetupAttr m a err q g s
    r.pkt = { q with sgCnt := 0, vAddr := m.buf.mapped } ∧ r.g.handle = none ∧
      r.g.dma.handle = none ∧
      r.err = (dmaBufBind a m.buf.bp ⟨m.buf.read, false, true⟩ err g s).err := by
  rcases htry with ⟨h0, hon, hdis, hpage, hodd⟩
  have hok : (dmaBufBind a m.buf.bp ⟨m.buf.read, false, true⟩ err g s).ok = false := by
    cases dmaBufBind_spec hs a m.buf.bp ⟨m.buf.read, false, true⟩ err g with
    | bound ws d hws => exact absurd (hfail.symm.trans hws) nofun
    | unbound hws hslip hok => exact hok
    | slip hws hslip hok => exact hok
  rcases (dmaBufBind_spec hs a m.buf.bp ⟨m.buf.read, false, true⟩ err g).failed hok with
    ⟨hh, hd, -⟩
  unfold memsetupAttr
  dsimp only
  rw [if_neg h0, hon, if_neg nofun, hdis, if_neg nofun, if_neg hpage, if_neg hodd, hok,
    if_neg nofun]
  exact ⟨rfl, hh.trans hg, hd.trans hdma, rfl⟩

/-- Which failures leave the error of the buf as it is. -/
theorem bind_leaves_iff (hfail : a.windows = none) (buf : Nat) (flags : DmaFlags) :
    (dmaBufBind a buf flags err g s).err = err ↔ LeavesError a err := by
  have hclear : ({ err with errno := 0 } : BufError) = err ↔ err.errno = 0 :=
    ⟨fun h => (congrArg BufError.errno h).symm, fun h => by rw [← h]⟩
  unfold dmaBufBind LeavesError
  cases halloc : a.allocOk with
  | false => simpa using hclear
  | true =>
    rw [if_neg nofun, if_neg nofun]
    unfold DdiAnswers.windows at hfail
    rw [halloc, if_pos rfl] at hfail
    -- The handle has been allocated, so it is the status of the bind that counts.
    cases hst : a.status with
    | mapped =>
      rw [hst] at hfail
      cases hfail
    | partialMap =>
      rw [hst] at hfail
      cases hnum : a.numwinOk with
      | true =>
        rw [hnum] at hfail
        cases hfail
      | false => exact hclear
    | noResources => exact hclear
    | tooBig => exact eq_comm
    | noMapping => exact eq_comm
    | inUse => exact eq_comm
    | other => exact eq_comm

/-- A PIO request completes if and only if its buf had no error to begin with. -/
theorem completes_iff {base : Nat} {r : MemOut} (hmin : 1 ≤ drv.maxTransfer)
    (hmax : drv.maxTransfer ≤ 256) (h9 : dadkp.secshf = 9) (hpos : 0 < bp.bcount)
    (hmod : bp.bcount % 512 = 0) (hint : bp.internal = none) (hcks : IsRequest dadkp bp cks)
    (hv : r.pkt.vAddr = base) (herr : r.pkt.flags.error = false) (hdma : r.g.dma.handle = none) :
    Completes drv dadkp cks base r bp ↔ r.err.error = false := by
  rcases hcks.size_eq with ⟨hsize, hnonneg⟩
  -- Everything but the error of the buf is as in a request without one.
  have hbp : ∀ e : Option Errno, IsRequest dadkp { bp with error := e } cks := fun _ => hcks
  have hsent : ∀ e : Option Errno,
      (Disk.transport (ataDisk drv) dadkp (ioprep (ataDisk drv) dadkp
        ⟨⟨r.pkt, r.g.dma⟩, {}, { bp with error := e }⟩).1).1.bp.error = e := fun _ => rfl
  constructor
  · rintro ⟨fuel, io, cmds, hrun, hnone, -, -⟩
    by_contra hb
    rw [Bool.not_eq_false] at hb
    -- An error from before is there when the first command completes.
    refine runCmds_failed ?_ hrun hnone
    unfold MemOut.sent MemOut.buf
    rw [hsent]
    unfold geterror
    rw [hb, if_pos rfl]
    nofun
  · intro hb
    have hseen : geterror r.err = none := by
      unfold geterror
      rw [hb, if_neg Bool.false_ne_true]
    have hidle : Idle base 0 ⟨r.pkt, r.g.dma⟩ := by
      refine ⟨hdma, fun _ => ?_, fun he => absurd (herr.symm.trans he) nofun⟩
      dsimp only
      rw [hv, Int.add_zero]
    have hkeeps := @ataDisk_keeps drv base hmin hmax
    have hfull : 0 < (r.buf bp).bcount := hpos
    have hprep := ioprep_carried hkeeps h9 hfull hmod hint hseen (hbp (geterror r.err)) hidle
    rcases hprep.ordered.live nofun with ⟨he, rest, hl⟩
    have hp := hprep.plain nofun
    have hf := hprep.ready (Or.inl rfl)
    have hleft := hl.moved_left hnonneg
    rw [moved_nil, Int.zero_add, hsize] at hleft
    have hrun : ∃ io cmds, runCmds drv dadkp (bp.bcount / 512) (r.sent drv dadkp bp) [] =
        some (io, cmds) ∧ io.bp.error = none ∧ io.pkt.byteleft = 0 ∧
        cmds.flatMap DiskCmd.moves =
          ((cover cks).flatMap sectorBytes).zip (cells base (512 * size cks)) :=
      pio_completes hmin hmax h9 hnonneg (bp.bcount / 512) (le_of_eq hleft) hl hp hf he rfl
    rcases hrun with ⟨io, cmds, hrun, hnone, hzero, hmoves⟩
    refine ⟨_, io, cmds, hrun, hnone, hzero, ?_⟩
    rw [hmoves]
    congr 2
    omega

/-- Falling back to PIO is invisible if and only if the failure of the bind leaves the
    error of the buf as it is. For every disk, every accepted read or write of whole
    sectors, with a bad-block handle or without, every buf that `ata_disk_memsetup`
    tries to bind, and every way the bind can fail. -/
theorem fallback_invisible_iff (hmin : 1 ≤ drv.maxTransfer) (hmax : drv.maxTransfer ≤ 256)
    (h9 : dadkp.secshf = 9) (hmod : bp.bcount % 512 = 0) (hint : bp.internal = none)
    (hcks : IsRequest dadkp bp cks) (hbuf : m.buf.bcount = bp.bcount) (herr : q.flags.error = false)
    (hg : g.Ok s) (hnone : g.handle = none) (htry : m.TriesDma) (hfail : a.windows = none) :
    Invisible drv dadkp cks m bp err (memsetupAttr m a err q g s) ↔ LeavesError a err := by
  have hdma : g.dma.handle = none := hg.none_iff.mp hnone
  have hpos : 0 < bp.bcount := by
    have h0 := htry.1
    omega
  rcases @memsetupAttr_fails m a err q g s hg.ddi htry hfail hnone hdma with
    ⟨hpkt, hh, hd, he⟩
  have hcomp : Completes drv dadkp cks m.buf.mapped (memsetupAttr m a err q g s) bp ↔
      (memsetupAttr m a err q g s).err.error = false :=
    completes_iff hmin hmax h9 hpos hmod hint hcks (by rw [hpkt]) (by rw [hpkt]; exact herr) hd
  -- All but the error and the request is the same for every failure.
  rw [← bind_leaves_iff (g := g) (s := s) hfail m.buf.bp ⟨m.buf.read, false, true⟩, ← he]
  refine ⟨fun h => h.error, fun h => ⟨by rw [hpkt], by rw [hpkt], hh, hd, h, fun hb => ?_⟩⟩
  rw [hcomp, h]
  exact hb

end Fallback

/-- A read of 257 sectors, one more than a command transfers. -/
def longBuf : IoBuf :=
  { part := 0, sec := 0, bcount := 131584, read := true, internal := none, resid := 0
    error := none }

/-- Its buf, with DMA on. -/
def longMem : MemArgs := ⟨true, false, ⟨65536, 65536, 65536, 131584, true, false⟩⟩

theorem longMem_tries : longMem.TriesDma :=
  ⟨by decide, rfl, rfl, fun h => absurd rfl h.2, by decide⟩

/-- There are no DMA resources. The read goes on by PIO, with two commands. -/
theorem fallback_noResources :
    Invisible lba28Disk plainDisk [(0, 257)] longMem longBuf {}
      (memsetupAttr longMem { status := .noResources } {} freshPkt {} {}) := by
  have hcks : IsRequest plainDisk longBuf [(0, 257)] := rfl
  have hok : ({} : HandleGcmd).Ok {} := ⟨⟨nofun, nofun⟩, rfl, nofun⟩
  exact (fallback_invisible_iff (by decide) (by decide) rfl rfl rfl hcks rfl rfl hok rfl
    longMem_tries rfl).mpr rfl

/-- The buf is too big for DMA. The read goes on by PIO with `B_ERROR`, and ends after
    the first of its two commands, which has succeeded, with an error. -/
theorem fallback_tooBig :
    ¬ (∀ a : DdiAnswers, a.windows = none →
        Invisible lba28Disk plainDisk [(0, 257)] longMem longBuf {}
          (memsetupAttr longMem a {} freshPkt {} {})) ∧
    (memsetupAttr longMem { status := .tooBig } {} freshPkt {} {}).err = ⟨true, einval⟩ ∧
    (runCmds lba28Disk plainDisk 1
      ((memsetupAttr longMem { status := .tooBig } {} freshPkt {} {}).sent lba28Disk plainDisk
        longBuf) []).map (fun r => (r.1.bp.error, r.1.pkt.byteleft)) = some (some .eio, 512) := by
  refine ⟨fun hall => ?_, rfl, rfl⟩
  have herr := (hall { status := .tooBig } rfl).error
  exact absurd herr (by decide)

end Ata

end Sil3112
