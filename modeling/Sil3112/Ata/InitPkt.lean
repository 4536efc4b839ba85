import Sil3112.Ata.Dma
import Sil3112.Ata.CtlrFsm

/-!
# ATAPI Packets and their DMA

`atapi_tran_init_pkt`, with which a target driver gets a packet or prepares one
for its next transfer, and `atapi_tran_dmafree`. GHD frees and binds the DMA
handle and has the scatter/gather list built. Then `atapi_tran_init_pkt` looks
at `ap_sg_cnt` to find out whether the packet uses DMA.

`ap_sg_cnt` is in the packet and is only ever set, by `ata_pciide_dma_sg_func`.
So it tells whether some call for this packet has built a list. A call that
gets no DMA, for a packet that had some, leaves the old list in use.

Which cookies a call asks the handle for is what the same call does with a
controller that only notes them down.

## Main definitions

* `ghdInitPkt`: `ghd_tran_init_pkt_attr`
* `tranInitPkt`: `atapi_tran_init_pkt`
* `InitRun`: A sequence of calls, with the calls that have succeeded.
* `InitDone.Fresh`: The list is the one that the call has built.
* `InitDone.Clean`: There is no old list, and no handle of another buf.

## Theorems

* `init_pkt_fresh_iff`: When a call of a sequence leaves no old list in use.
-/

namespace Sil3112

namespace Ghd

/-- Conversion to `ulong_t`. -/
def ulong (x : Int) : Nat := (x % 2 ^ 64).toNat

/-- Conversion to `ssize_t`. -/
def ssize (x : Int) : Int := Int.bmod x (2 ^ 64)

/-- `struct buf`: `b_un.b_addr`, what `bp_mapin` makes of it, `b_bcount`, and the
    flags `B_READ` and `B_PAGEIO`. `bp` is the buf itself, a buf with other
    contents being another one. -/
structure Buf where
  bp : Nat
  addr : Nat
  mapped : Nat
  bcount : Nat
  read : Bool
  pageio : Bool

/-- `ghd_tran_init_pkt_attr` for a packet that is there. `sgAttr` is whether
    `sg_attrp` is given, `windows` the outcome of binding the buf. It returns
    `pkt_resid`, or `none` where it fails. -/
def ghdInitPkt {α : Type} (sgFunc : α → DmaCookie → Bool → Nat → α) (pkt : α) (d : GcmdDma)
    (bp : Option Buf) (cmdlen : Nat) (sgAttr : Bool) (sgSize : Nat)
    (windows : Option (List (List DmaCookie))) : α × GcmdDma × Option Int :=
  let d := if cmdlen ≠ 0 then dmafree d else d
  match bp with
  | none => (pkt, d, some 0)
  | some b =>
    if b.bcount ≠ 0 ∧ sgAttr = true then
      match (if d.handle = none then bufBind d b.bp windows else some d) with
      | none => (pkt, d, none)
      | some d =>
        let r := dmaget sgFunc pkt d (ulong (b.bcount - d.totxfer)) sgSize
        (r.1, r.2.1, r.2.2.map fun _ => ssize (b.bcount - r.2.1.totxfer))
    else (pkt, d, some 0)

end Ghd

namespace Ata

open Ghd

/-- `ATAPI_MAX_BYTES_PER_DRQ` -/
def atapiMaxBytesPerDrq : Nat := 0xf800

/-- `ATC_PACKET` -/
def atcPacket : Nat := 0xa0

/-- The fields of an `ata_pkt_t` that `atapi_ccballoc` and
    `atapi_tran_init_pkt` set or look at. -/
structure AtapiPkt extends AtaSg where
  flags : ApFlags
  baddr : Nat
  boffset : Nat
  sec : Nat
  count : Nat
  lwcyl : Nat
  hicyl : Nat
  hd : Nat
  cmd : Nat
  cdbp : Nat
  cdbLen : Nat
  cdbPad : Nat
  scbp : Nat
  statuslen : Nat

/-- A `struct scsi_pkt` of `atapi.c`: the packet, the DMA part of its `gcmd_t`,
    `pkt_cdbp`, `pkt_scbp` and `pkt_resid`. -/
structure ScsiPkt where
  pkt : AtapiPkt
  dma : GcmdDma
  pktCdbp : Nat
  pktScbp : Nat
  pktResid : Int

/-- What a call of `atapi_tran_init_pkt` is given and finds: the buf, `cmdlen`
    and `statuslen`, `ad_cdb_len` and `ad_drive_bits`, whether `ad_pciide_dma` is
    on, `ata_dma_disabled`, `AD_1SECTOR`, whether `atapi_arq_enable` and
    `at_arq` are both set, and the size of `struct scsi_arq_status`. Then the
    outcome of `scsi_hba_pkt_alloc` (`pkt_cdbp` and `pkt_scbp`), and that of
    binding the buf. Every window has a cookie. -/
structure InitCall where
  bp : Option Buf
  cmdlen : Nat
  statuslen : Nat
  adCdbLen : Nat
  driveBits : Nat
  dmaOn : Bool
  dmaDisabled : Bool
  oneSector : Bool
  arq : Bool
  arqSize : Nat
  alloc : Option (Nat × Nat)
  windows : Option (List (List DmaCookie))
  cookies : ∀ ws, windows = some ws → ∀ w ∈ ws, w ≠ []

namespace InitCall

variable (c : InitCall)

/-- Whether `atapi_tran_init_pkt` passes its DMA attributes on. -/
def sgAttr : Bool :=
  match c.bp with
  | none => false
  | some b =>
    if b.bcount = 0 then false
    else if c.dmaOn = false then false
    else if c.dmaDisabled = true then false
    else if b.pageio = false ∧ b.addr % prdeAlign ≠ 0 then false
    else if b.bcount % 2 = 1 then false
    else true

/-- `ghd_pktalloc` with `atapi_ccballoc`, which finds the packet zeroed. -/
def pktAlloc : Option ScsiPkt :=
  match c.alloc with
  | none => none
  | some (cdbp, scbp) =>
    if c.adCdbLen < c.cmdlen then none
    else some {
      pkt := {
        bcount := 0, pciideDma := false, sgList := fun _ => ⟨0, 0⟩, sgCnt := 0
        flags := { atapi := true }
        baddr := 0, boffset := 0, sec := 0, count := 0, lwcyl := 0, hicyl := 0
        hd := c.driveBits, cmd := atcPacket
        cdbp := 0, cdbLen := c.cmdlen % 2 ^ 8, cdbPad := (c.adCdbLen - c.cmdlen) / 2 % 2 ^ 8
        scbp := 0, statuslen := 0 }
      dma := {}, pktCdbp := cdbp, pktScbp := scbp, pktResid := 0 }

/-- `ghd_tran_init_pkt_attr` for the packet, with a controller's S/G function. -/
def ghdInit {α : Type} (f : α → DmaCookie → Bool → Nat → α) (pkt : α) (d : GcmdDma) :
    α × GcmdDma × Option Int :=
  ghdInitPkt f pkt d c.bp c.cmdlen c.sgAttr ataDmaNsegs c.windows

/-- `atapi_tran_init_pkt` up to the look at `ap_sg_cnt`. The direction of the
    last transfer is reset, and a packet for ARQ is marked. -/
def setArq (p : AtapiPkt) (s : ScsiPkt) (reused : Bool) : AtapiPkt :=
  let statuslen := c.statuslen % 2 ^ 8
  let flags := if reused then { p.flags with read := false, write := false } else p.flags
  let arq := c.arq && decide (c.arqSize ≤ statuslen)
  { p with
    cdbp := s.pktCdbp
    statuslen := statuslen
    flags := if arq then { flags with arqOnError := true } else flags
    scbp := if arq then s.pktScbp else p.scbp
    sec := 0
    count := 0 }

/-- The direction of the transfer. -/
def setDir (p : AtapiPkt) (b : Buf) : AtapiPkt :=
  { p with
    flags := if b.read then { p.flags with read := true } else { p.flags with write := true } }

/-- The buffer of a transfer without DMA, and `pkt_resid`. A new command begins
    at the start of the buf. -/
def setPio (p : AtapiPkt) (resid : Int) : AtapiPkt × Int :=
  let none := { p with pciideDma := false, baddr := 0, bcount := 0, boffset := 0 }
  match c.bp with
  | .none => (none, resid)
  | some b =>
    if b.bcount = 0 then (none, resid)
    else
      let p := { setDir p b with
        pciideDma := false
        baddr := if c.cmdlen ≠ 0 then b.mapped else p.baddr }
      let bcount : Nat := if c.cmdlen ≠ 0 then 0 else p.bcount
      let boffset : Nat := if c.cmdlen ≠ 0 then 0 else p.boffset
      if c.oneSector then
        let boffset : Nat := (boffset + bcount) % 2 ^ 64
        let left := ulong ((b.bcount : Int) - boffset)
        ({ p with boffset := boffset, bcount := min 2048 left },
          ssize ((left : Int) - (min 2048 left : Nat)))
      else ({ p with boffset := boffset, bcount := b.bcount }, 0)

/-- The cylinder registers have the size of a partial transfer. -/
def setBytes (p : AtapiPkt) : AtapiPkt :=
  let bytes := min p.bcount atapiMaxBytesPerDrq
  { p with hicyl := bytes / 2 ^ 8 % 2 ^ 8, lwcyl := bytes % 2 ^ 8 }

/-- `atapi_tran_init_pkt` when GHD has prepared the packet. Without a buf it
    follows a null pointer where `ap_sg_cnt` is not zero. -/
def finish (s : ScsiPkt) (reused : Bool) : Option ScsiPkt :=
  let p := c.setArq s.pkt s reused
  if p.sgCnt ≠ 0 then
    match c.bp with
    | none => none
    | some b => some { s with
        pkt := { setDir p b with pciideDma := true, hicyl := 0, lwcyl := 0 } }
  else
    let r := c.setPio p s.pktResid
    some { s with pkt := setBytes r.1, pktResid := r.2 }

end InitCall

/-- The outcome of a call: the packet, `NULL` with what has become of the
    packet, or a panic. -/
inductive InitRc where
  | pkt (s : ScsiPkt)
  | null (s : Option ScsiPkt)
  | panic

/-- `atapi_tran_init_pkt` for a new packet, or for one to be used again. -/
def tranInitPkt (c : InitCall) (spkt : Option ScsiPkt) : InitRc :=
  match spkt.or c.pktAlloc with
  | none => .null none
  | some s =>
    let r := c.ghdInit sgFunc s.pkt.toAtaSg s.dma
    let s := { s with pkt := { s.pkt with toAtaSg := r.1 }, dma := r.2.1 }
    match r.2.2 with
    -- A new packet is freed.
    | none => .null (spkt.map fun _ => s)
    | some resid =>
      match c.finish { s with pktResid := resid } spkt.isSome with
      | none => .panic
      | some s => .pkt s

/-- `atapi_tran_dmafree` -/
def tranDmafree (s : ScsiPkt) : ScsiPkt :=
  if s.dma.handle.isSome then { s with dma := dmafree s.dma } else s

/-! ## Sequences of calls -/

/-- A call of `atapi_tran_init_pkt` that has returned its packet. -/
structure InitDone where
  pre : Option ScsiPkt
  call : InitCall
  post : ScsiPkt

/-- Sequences of calls for one packet, with what has become of it and the calls
    that have succeeded, last one first. -/
inductive InitRun : Option ScsiPkt → List InitDone → Prop where
  | nil : InitRun none []
  | init {spkt : Option ScsiPkt} {l : List InitDone} {c : InitCall} {s : ScsiPkt}
      (h : InitRun spkt l) (hc : tranInitPkt c spkt = .pkt s) :
      InitRun (some s) (⟨spkt, c, s⟩ :: l)
  | fail {spkt spkt' : Option ScsiPkt} {l : List InitDone} {c : InitCall}
      (h : InitRun spkt l) (hc : tranInitPkt c spkt = .null spkt') : InitRun spkt' l
  | dmafree {s : ScsiPkt} {l : List InitDone} (h : InitRun (some s) l) :
      InitRun (some (tranDmafree s)) l

namespace InitDone

variable (e : InitDone)

/-- The DMA part of the packet before the call. -/
def dma : GcmdDma :=
  match e.pre with
  | none => {}
  | some s => s.dma

/-- `ap_sg_cnt` before the call. -/
def sgCnt : Nat :=
  match e.pre with
  | none => 0
  | some s => s.pkt.sgCnt

/-- The cookies the call puts into the list: those that it has GHD pass on. -/
def passed : List DmaCookie :=
  (e.call.ghdInit (fun cs c _ _ => cs ++ [c]) [] e.dma).1

/-- If the packet uses DMA, its list has been built in this call, from the
    handle it now has, which is bound to the buf of this call. -/
def Fresh : Prop :=
  e.post.pkt.pciideDma = true → ∃ b h, e.call.bp = some b ∧ e.post.dma.handle = some h ∧
    h.buf = b.bp ∧ e.passed ≠ [] ∧ (∃ w ∈ h.windows, e.passed <:+: w) ∧
    e.post.pkt.entries = e.passed.map prde

/-- The call passes its DMA attributes on, or the packet has no list. If it does
    pass them on, then either it begins a new command, or there is no handle or
    that of its buf. -/
def Clean : Prop :=
  (e.call.sgAttr = false → e.sgCnt = 0) ∧
    (e.call.sgAttr = true → e.call.cmdlen = 0 → ∀ h, e.dma.handle = some h →
      ∀ b, e.call.bp = some b → h.buf = b.bp)

end InitDone

/-! ## What GHD does to the packet -/

/-- The counters agree with the handle, if there is one. -/
def DmaOk (d : GcmdDma) : Prop := ∀ h, d.handle = some h → d.Ok h

theorem dmaOk_of_ok {d : GcmdDma} {h : DmaHandle} (hok : d.Ok h) : DmaOk d := by
  intro h' hh
  rw [hok.handle] at hh
  cases hh
  exact hok

theorem dmafree_handle (d : GcmdDma) : (dmafree d).handle = none := by
  unfold dmafree
  split
  · rfl
  · next h => simpa using h

theorem dmafree_dmaOk (d : GcmdDma) : DmaOk (dmafree d) := by
  intro h hh
  rw [dmafree_handle] at hh
  cases hh

/-- The entries that a controller notes down are the cookies it is passed. -/
theorem foldSg_log (single : Bool) : ∀ (cs : List DmaCookie) (n : Nat) (l : List DmaCookie),
    foldSg (fun l c _ _ => l ++ [c]) single n l cs = l ++ cs := by
  intro cs
  induction cs with
  | nil =>
      intro n l
      exact (List.append_nil l).symm
  | cons c cs ih =>
      intro n l
      unfold foldSg
      rw [ih, List.append_assoc, List.singleton_append]

section Init

variable {c : InitCall} {d : GcmdDma} {α : Type} {f : α → DmaCookie → Bool → Nat → α} {pkt : α}

/-- DMA attributes are passed on only with a buf that is not empty. -/
theorem InitCall.sgAttr_buf (hs : c.sgAttr = true) : ∃ b, c.bp = some b ∧ b.bcount ≠ 0 := by
  unfold InitCall.sgAttr at hs
  split at hs
  · cases hs
  · next b hb =>
    refine ⟨b, hb, fun h0 => ?_⟩
    rw [if_pos h0] at hs
    cases hs

/-- The DMA part once the old resources are freed. -/
theorem freed_dmaOk (hd : DmaOk d) (c : InitCall) :
    DmaOk (if c.cmdlen ≠ 0 then dmafree d else d) := by
  split
  · exact dmafree_dmaOk d
  · exact hd

/-- Without DMA attributes the packet is left alone. -/
theorem ghdInit_off (hs : c.sgAttr = false) :
    c.ghdInit f pkt d = (pkt, if c.cmdlen ≠ 0 then dmafree d else d, some 0) := by
  unfold InitCall.ghdInit ghdInitPkt
  rw [hs]
  cases c.bp with
  | none => rfl
  | some b => simp only [Bool.false_eq_true, and_false, if_false]

/-- With them, the handle is that of the buf, unless the packet goes on with a
    handle of another buf. -/
theorem bound_spec (hd : DmaOk d) {b : Buf} {d₁ d₂ : GcmdDma}
    (h1 : d₁ = if c.cmdlen ≠ 0 then dmafree d else d)
    (h2 : (if d₁.handle = none then bufBind d₁ b.bp c.windows else some d₁) = some d₂) :
    ∃ h, d₂.Ok h ∧ (h.buf = b.bp ↔
      (c.cmdlen = 0 → ∀ h₀, d.handle = some h₀ → h₀.buf = b.bp)) := by
  cases hh : d₁.handle with
  | none =>
      rw [if_pos hh] at h2
      rcases bufBind_ok c.cookies h2 with ⟨h, hok, hbuf, -⟩
      refine ⟨h, hok, fun _ hc h₀ hh₀ => ?_, fun _ => hbuf⟩
      rw [h1, if_neg (by simpa using hc), hh₀] at hh
      cases hh
  | some h =>
      rw [if_neg (by rw [hh]; nofun)] at h2
      cases h2
      by_cases hc : c.cmdlen = 0
      · rw [if_neg (by simpa using hc)] at h1
        subst h1
        refine ⟨h, hd h hh, fun hbuf _ h₀ hh₀ => ?_, fun hall => hall hc h hh⟩
        rw [hh] at hh₀
        cases hh₀
        exact hbuf
      · rw [h1, if_pos hc, dmafree_handle] at hh
        cases hh

/-- With DMA attributes GHD either fails and leaves the packet alone, or passes
    on some cookies of a window of the handle. -/
theorem ghdInit_on (hd : DmaOk d) (hs : c.sgAttr = true) :
    (∀ {α : Type} (f : α → DmaCookie → Bool → Nat → α) (pkt : α), ∃ d', DmaOk d' ∧
        c.ghdInit f pkt d = (pkt, d', none)) ∨
      ∃ b h g, c.bp = some b ∧ (h.buf = b.bp ↔
          (c.cmdlen = 0 → ∀ h₀, d.handle = some h₀ → h₀.buf = b.bp)) ∧
        g ≠ [] ∧ (∃ w ∈ DmaHandle.windows h, g <:+: w) ∧
        ∀ {α : Type} (f : α → DmaCookie → Bool → Nat → α) (pkt : α), ∃ single d' h' resid,
          c.ghdInit f pkt d = (foldSg f single 0 pkt g, d', some resid) ∧
          d'.Ok h' ∧ h'.buf = h.buf ∧ h'.windows = h.windows := by
  rcases InitCall.sgAttr_buf hs with ⟨b, hb, hb0⟩
  generalize h1 : (if c.cmdlen ≠ 0 then dmafree d else d) = d₁
  -- With attributes the call binds the buf if there is no handle, and asks for cookies.
  have heq : ∀ {α : Type} (f : α → DmaCookie → Bool → Nat → α) (pkt : α), c.ghdInit f pkt d =
      match (if d₁.handle = none then bufBind d₁ b.bp c.windows else some d₁) with
      | none => (pkt, d₁, none)
      | some d₂ =>
        ((dmaget f pkt d₂ (ulong (b.bcount - d₂.totxfer)) ataDmaNsegs).1,
          (dmaget f pkt d₂ (ulong (b.bcount - d₂.totxfer)) ataDmaNsegs).2.1,
          (dmaget f pkt d₂ (ulong (b.bcount - d₂.totxfer)) ataDmaNsegs).2.2.map fun _ =>
            ssize (b.bcount -
              (dmaget f pkt d₂ (ulong (b.bcount - d₂.totxfer)) ataDmaNsegs).2.1.totxfer)) := by
    intro α f pkt
    unfold InitCall.ghdInit ghdInitPkt
    simp only [hb, hs, hb0, ne_eq, not_false_eq_true, and_self, if_true, ← h1]
  cases h2 : (if d₁.handle = none then bufBind d₁ b.bp c.windows else some d₁) with
  | none =>
      refine Or.inl fun f pkt => ⟨d₁, h1 ▸ freed_dmaOk hd c, ?_⟩
      rw [heq, h2]
  | some d₂ =>
      rcases bound_spec hd h1.symm h2 with ⟨h, hok, hbuf⟩
      cases htodo : d₂.todo with
      | nil =>
          -- The windows are used up, and `sol11ghd_dmaget` fails.
          refine Or.inl fun f pkt => ⟨d₂, dmaOk_of_ok hok, ?_⟩
          rw [heq, h2]
          dsimp only
          rw [dmaget_none hok htodo]
          rfl
      | cons w ws =>
          have hw := hok.todo_window w (htodo ▸ List.mem_cons_self)
          rcases hw with ⟨hne, w₀, hw₀, hsuf⟩
          cases hcs : w with
          | nil => exact absurd hcs hne
          | cons k ks =>
              -- It takes some cookies of the window at hand, whatever is done with them.
              have hst := gathered_stops (ulong (b.bcount - d₂.totxfer)) ks (ataDmaNsegs - 1) 0 k
              refine Or.inr ⟨b, h,
                gathered (ulong (b.bcount - d₂.totxfer)) (ataDmaNsegs - 1) 0 k ks, hb, hbuf,
                hst.pos, ⟨w₀, hw₀, ?_⟩, fun f pkt => ?_⟩
              · exact hst.isPrefix.isInfix.trans (hcs ▸ hsuf.isInfix)
              · rcases dmaget_spec (f := f) hok htodo pkt (ulong (b.bcount - d₂.totxfer))
                  ataDmaNsegs with
                  ⟨k', ks', g, single, d', h', hk, hg, hget, hok', hbuf', hwin', -, -⟩
                rw [hcs] at hk
                cases hk
                refine ⟨single, d', h', ssize (b.bcount - d'.totxfer), ?_, hok', hbuf', hwin'⟩
                rw [heq, h2]
                dsimp only
                rw [hget, hg]
                rfl

/-- The DMA part stays in order. -/
theorem ghdInit_dmaOk (hd : DmaOk d) : DmaOk (c.ghdInit f pkt d).2.1 := by
  cases hs : c.sgAttr with
  | false =>
      rw [ghdInit_off hs]
      exact freed_dmaOk hd c
  | true =>
      rcases ghdInit_on hd hs with h | ⟨b, h, g, -, -, -, -, h⟩
      · rcases h f pkt with ⟨d', hd', he⟩
        rw [he]
        exact hd'
      · rcases h f pkt with ⟨single, d', h', resid, he, hok, -⟩
        rw [he]
        exact dmaOk_of_ok hok

/-! ## What is left of the packet -/

/-- Without DMA the list is left alone. -/
theorem setPio_sg (c : InitCall) (p : AtapiPkt) (resid : Int) :
    (c.setPio p resid).1.pciideDma = false ∧ (c.setPio p resid).1.sgCnt = p.sgCnt := by
  unfold InitCall.setPio
  split
  · exact ⟨rfl, rfl⟩
  · split
    · exact ⟨rfl, rfl⟩
    · cases c.oneSector
      · exact ⟨rfl, rfl⟩
      · exact ⟨rfl, rfl⟩

/-- `ap_sg_cnt` alone decides. -/
theorem finish_spec {s s' : ScsiPkt} {reused : Bool} (h : c.finish s reused = some s') :
    s'.dma = s.dma ∧ s'.pkt.sgCnt = s.pkt.sgCnt ∧
      (s'.pkt.pciideDma = true ↔ s.pkt.sgCnt ≠ 0) ∧
      (s.pkt.sgCnt ≠ 0 → s'.pkt.entries = s.pkt.entries) := by
  have hsg : (c.setArq s.pkt s reused).toAtaSg = s.pkt.toAtaSg := rfl
  unfold InitCall.finish at h
  dsimp only at h
  rw [hsg] at h
  by_cases h0 : s.pkt.sgCnt = 0
  · rw [if_neg (by simpa using h0)] at h
    cases h
    have hp := setPio_sg c (c.setArq s.pkt s reused) s.pktResid
    refine ⟨rfl, hp.2, ⟨fun ht => ?_, fun hn => absurd h0 hn⟩, fun hn => absurd h0 hn⟩
    exact absurd (hp.1.symm.trans ht) nofun
  · rw [if_pos h0] at h
    split at h
    · cases h
    · cases h
      exact ⟨rfl, rfl, ⟨fun _ => h0, fun _ => rfl⟩, fun _ => rfl⟩

/-- A call that returns its packet: GHD has prepared it, and `ap_sg_cnt` has
    been looked at. -/
theorem tranInitPkt_pkt {spkt : Option ScsiPkt} {s : ScsiPkt}
    (h : tranInitPkt c spkt = .pkt s) :
    ∃ (s₀ : ScsiPkt) (resid : Int),
      s₀.dma = InitDone.dma ⟨spkt, c, s⟩ ∧ s₀.pkt.sgCnt = InitDone.sgCnt ⟨spkt, c, s⟩ ∧
      (c.ghdInit sgFunc s₀.pkt.toAtaSg s₀.dma).2.2 = some resid ∧
      c.finish { s₀ with
        pkt := { s₀.pkt with toAtaSg := (c.ghdInit sgFunc s₀.pkt.toAtaSg s₀.dma).1 }
        dma := (c.ghdInit sgFunc s₀.pkt.toAtaSg s₀.dma).2.1
        pktResid := resid } spkt.isSome = some s := by
  unfold tranInitPkt at h
  cases hs₀ : spkt.or c.pktAlloc with
  | none =>
      rw [hs₀] at h
      cases h
  | some s₀ =>
      simp only [hs₀] at h
      refine ⟨s₀, ?_⟩
      -- A packet just allocated has neither a handle nor a list.
      have hpre : s₀.dma = InitDone.dma ⟨spkt, c, s⟩ ∧
          s₀.pkt.sgCnt = InitDone.sgCnt ⟨spkt, c, s⟩ := by
        cases spkt with
        | some s₁ =>
            cases hs₀
            exact ⟨rfl, rfl⟩
        | none =>
            rw [Option.none_or] at hs₀
            unfold InitCall.pktAlloc at hs₀
            split at hs₀
            · cases hs₀
            · split at hs₀
              · cases hs₀
              · cases hs₀
                exact ⟨rfl, rfl⟩
      cases hr : (c.ghdInit sgFunc s₀.pkt.toAtaSg s₀.dma).2.2 with
      | none =>
          rw [hr] at h
          cases h
      | some resid =>
          simp only [hr] at h
          refine ⟨resid, hpre.1, hpre.2, rfl, ?_⟩
          split at h
          · cases h
          · next hf =>
            cases h
            exact hf

end Init

/-! ## The calls of a run -/

/-- The DMA part stays in order, whether a call succeeds or not. -/
theorem InitRun.dmaOk {spkt : Option ScsiPkt} {l : List InitDone} (h : InitRun spkt l) :
    (∀ s, spkt = some s → DmaOk s.dma) ∧ ∀ e ∈ l, DmaOk e.dma := by
  have hinit : DmaOk {} := fun _ hh => nomatch hh
  induction h with
  | nil =>
      refine ⟨fun s hs => ?_, fun e he => absurd he List.not_mem_nil⟩
      cases hs
  | @init spkt l c s _ hc ih =>
      -- The call begins with the DMA part that the one before it has left.
      have hpre : DmaOk (InitDone.dma ⟨spkt, c, s⟩) := by
        cases spkt with
        | none => exact hinit
        | some s₁ => exact ih.1 s₁ rfl
      rcases tranInitPkt_pkt hc with ⟨s₀, resid, hdma, -, -, hf⟩
      refine ⟨?_, ?_⟩
      · rintro _ ⟨⟩
        rw [(finish_spec hf).1, hdma]
        exact ghdInit_dmaOk hpre
      · intro e he
        rcases List.mem_cons.1 he with rfl | he
        · exact hpre
        · exact ih.2 e he
  | @fail spkt spkt' l c _ hc ih =>
      refine ⟨?_, ih.2⟩
      rintro s rfl
      unfold tranInitPkt at hc
      cases spkt with
      | none =>
          rw [Option.none_or] at hc
          cases hs₀ : c.pktAlloc with
          | none =>
              rw [hs₀] at hc
              cases hc
          | some s₀ =>
              simp only [hs₀] at hc
              split at hc
              · cases hc
              · split at hc <;> cases hc
      | some s₁ =>
          simp only [Option.some_or] at hc
          split at hc
          · cases hc
            exact ghdInit_dmaOk (ih.1 s₁ rfl)
          · split at hc <;> cases hc
  | @dmafree s l _ ih =>
      refine ⟨?_, ih.2⟩
      rintro _ ⟨⟩
      unfold tranDmafree
      split
      · exact dmafree_dmaOk s.dma
      · exact ih.1 s rfl

/-- The calls of the list are the ones that have succeeded. -/
theorem InitRun.done {spkt : Option ScsiPkt} {l : List InitDone} (h : InitRun spkt l) :
    ∀ e ∈ l, tranInitPkt e.call e.pre = .pkt e.post := by
  induction h with
  | nil => exact fun e he => absurd he List.not_mem_nil
  | init _ hc ih =>
      intro e he
      rcases List.mem_cons.1 he with rfl | he
      · exact hc
      · exact ih e he
  | fail _ _ ih => exact ih
  | dmafree _ ih => exact ih

section Done

variable {e : InitDone}

/-- A call that gets no DMA has built no list: it uses an old one if there is
    one. -/
theorem InitDone.fresh_off (hc : tranInitPkt e.call e.pre = .pkt e.post)
    (hs : e.call.sgAttr = false) : e.Fresh ↔ e.sgCnt = 0 := by
  rcases tranInitPkt_pkt hc with ⟨s₀, resid, -, hcnt, -, hf⟩
  rw [ghdInit_off hs] at hf
  have hdma := (finish_spec hf).2.2.1
  rw [show (⟨e.pre, e.call, e.post⟩ : InitDone) = e from rfl] at hcnt
  rw [show ScsiPkt.pkt { s₀ with pktResid := resid } = s₀.pkt from rfl, hcnt] at hdma
  -- GHD has not passed on any cookies, so a list can only be an old one.
  have hpassed : e.passed = [] := by
    unfold InitDone.passed
    rw [ghdInit_off hs]
  constructor
  · intro h
    by_contra hn
    rcases h (hdma.2 hn) with ⟨b, k, -, -, -, hne, -⟩
    exact hne hpassed
  · intro h0 hd
    exact absurd h0 (hdma.1 hd)

/-- A call that gets DMA has built the list from the handle it has. -/
theorem InitDone.fresh_on (hd : DmaOk e.dma) (hc : tranInitPkt e.call e.pre = .pkt e.post)
    (hs : e.call.sgAttr = true) :
    e.Fresh ↔ (e.call.cmdlen = 0 → ∀ h, e.dma.handle = some h →
      ∀ b, e.call.bp = some b → h.buf = b.bp) := by
  rcases tranInitPkt_pkt hc with ⟨s₀, resid, hdma, -, hr, hf⟩
  rw [show (⟨e.pre, e.call, e.post⟩ : InitDone) = e from rfl] at hdma
  rw [hdma] at hr hf
  rcases ghdInit_on hd hs with hnone | ⟨b, h, g, hb, hbuf, hne, ⟨w, hw, hin⟩, hsome⟩
  · rcases hnone sgFunc s₀.pkt.toAtaSg with ⟨d', -, he⟩
    rw [he] at hr
    cases hr
  -- The cookies passed on do not depend on what is done with them.
  · have hpassed : e.passed = g := by
      rcases hsome (fun cs c _ _ => cs ++ [c]) [] with ⟨single, d', h', r, he, -⟩
      unfold InitDone.passed
      rw [he, foldSg_log, List.nil_append]
    rcases hsome sgFunc s₀.pkt.toAtaSg with ⟨single, d', h', r, he, hok, hbuf', hwin⟩
    rw [he] at hf
    rcases finish_spec hf with ⟨hpd, -, hpt, hpe⟩
    rcases sgFunc_entries (b := single) (p := s₀.pkt.toAtaSg) hne with ⟨hent, hcnt, -⟩
    have hcnt0 : (foldSg sgFunc single 0 s₀.pkt.toAtaSg g).sgCnt ≠ 0 := by
      rw [hcnt]
      exact Nat.ne_of_gt (List.length_pos_of_ne_nil hne)
    have hh' : e.post.dma.handle = some h' := by
      rw [hpd]
      exact hok.handle
    -- The list is new, so that only the buffer it is for can be wrong.
    have hiff : e.Fresh ↔ h.buf = b.bp := by
      constructor
      · intro hfr
        rcases hfr (hpt.2 hcnt0) with ⟨b', k, hb', hk, hkb, -⟩
        rw [hb] at hb'
        rw [hh'] at hk
        cases hb'
        cases hk
        rw [← hbuf', hkb]
      · intro hbb _
        refine ⟨b, h', hb, hh', hbuf'.trans hbb, hpassed ▸ hne, ⟨w, hwin ▸ hw, hpassed ▸ hin⟩, ?_⟩
        rw [hpassed, ← hent]
        exact hpe hcnt0
    rw [hiff, hbuf]
    constructor
    · intro hall hc0 k hk b' hb'
      rw [hb] at hb'
      cases hb'
      exact hall hc0 k hk
    · intro hall hc0 k hk
      exact hall hc0 k hk b hb

end Done

/-- In every sequence of calls, a call that succeeds leaves no old list in use
    if and only if its packet had none that the call does not replace, and no
    handle of another buf to go on with. -/
theorem init_pkt_fresh_iff {spkt : Option ScsiPkt} {l : List InitDone} (hrun : InitRun spkt l)
    {e : InitDone} (he : e ∈ l) : e.Fresh ↔ e.Clean := by
  have hc := hrun.done e he
  unfold InitDone.Clean
  cases hs : e.call.sgAttr with
  | false => simp only [InitDone.fresh_off hc hs, forall_const, Bool.false_eq_true,
      IsEmpty.forall_iff, and_true]
  | true => simp only [InitDone.fresh_on (hrun.dmaOk.2 e he) hc hs, Bool.true_eq_false,
      IsEmpty.forall_iff, true_and, forall_const]

/-- A new command that reads a page by DMA. -/
def pageRead : InitCall where
  bp := some ⟨0, 0x1000, 0x1000, 0x1000, true, false⟩
  cmdlen := 12
  statuslen := 0
  adCdbLen := 12
  driveBits := 0xa0
  dmaOn := true
  dmaDisabled := false
  oneSector := false
  arq := false
  arqSize := 32
  alloc := some (0, 0)
  windows := some [[⟨0x5000, 0x1000⟩]]
  cookies := by
    intro ws hws w hw
    cases hws
    rw [List.mem_singleton.1 hw]
    exact List.cons_ne_nil _ _

/-- A new command that reads seven bytes, which cannot be done by DMA. -/
def oddRead : InitCall :=
  { pageRead with bp := some ⟨1, 0x2001, 0x2001, 7, true, false⟩ }

/-- A packet that is used again, its handle freed in between. -/
def reusePkt (c c' : InitCall) : InitRc :=
  match tranInitPkt c none with
  | .pkt s => tranInitPkt c' (some (tranDmafree s))
  | r => r

/-- Both calls succeed. -/
theorem reusePkt_run {c c' : InitCall} {P : ScsiPkt → Bool}
    (h : (match reusePkt c c' with | .pkt s => P s | _ => false) = true)
    (hc : (match tranInitPkt c none with | .pkt _ => true | _ => false) = true) :
    ∃ s s' : ScsiPkt, InitRun (some s') [⟨some (tranDmafree s), c', s'⟩, ⟨none, c, s⟩] ∧
      P s' = true := by
  unfold reusePkt at h
  cases h1 : tranInitPkt c none with
  | null r =>
      rw [h1] at hc
      cases hc
  | panic =>
      rw [h1] at hc
      cases hc
  | pkt s =>
      simp only [h1] at h
      cases h2 : tranInitPkt c' (some (tranDmafree s)) with
      | null r =>
          rw [h2] at h
          cases h
      | panic =>
          rw [h2] at h
          cases h
      | pkt s' =>
          rw [h2] at h
          exact ⟨s, s', .init (.dmafree (.init .nil h1)) h2, h⟩

/-- The seven bytes are read into the page. -/
theorem init_pkt_stale_list : ¬ ∀ (spkt : Option ScsiPkt) (l : List InitDone), InitRun spkt l →
    ∀ e ∈ l, e.Fresh := by
  intro h
  rcases @reusePkt_run pageRead oddRead (fun s => s.pkt.pciideDma && s.dma.handle.isNone)
    (by decide +kernel) (by decide +kernel) with ⟨s, s', hrun, hp⟩
  rw [Bool.and_eq_true, Option.isNone_iff_eq_none] at hp
  rcases h _ _ hrun _ List.mem_cons_self hp.1 with ⟨b, k, -, hk, -⟩
  exact absurd (hp.2.symm.trans hk) nofun

/-- Two reads of a page with one packet. -/
theorem init_pkt_fresh_iff_twice : ∃ s s' : ScsiPkt,
    InitRun (some s') [⟨some (tranDmafree s), pageRead, s'⟩, ⟨none, pageRead, s⟩] ∧
    (⟨some (tranDmafree s), pageRead, s'⟩ : InitDone).Fresh := by
  rcases @reusePkt_run pageRead pageRead (fun _ => true) (by decide +kernel)
    (by decide +kernel) with ⟨s, s', hrun, -⟩
  exact ⟨s, s', hrun, (init_pkt_fresh_iff hrun List.mem_cons_self).2 ⟨nofun, nofun⟩⟩

end Ata

end Sil3112
