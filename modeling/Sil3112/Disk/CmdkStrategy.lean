import Sil3112.Disk.Dadk

/-!
# The Strategy Routine

`cmdkstrategy`, which takes a `buf` for a partition to dadk. It refuses a request
that does not consist of whole sectors or begins behind the partition, cuts off
what goes beyond its end, and adds the partition's first sector. A request that
begins at the end is complete, without an error, and nothing of it has been
transferred.

Sizes and blocks are 64-bit words here, as they are in the source. The start block
is signed, and the partition's are not.

## Main definitions

* `CmdkBuf`, `Partinfo`, `SoftState`: The buf, what `cmlb_partinfo` finds, and the
  instance.
* `cmdkstrategy`: The routine, in terms of `cmdkCheck`, `cmdkTruncate` and
  `cmdkSubmit`.
* `Accounted`: What it should make of a buf.

## Theorems

* `cmdkTruncate_spec`: What is left of a request ends with the partition.
* `cmdkstrategy_accounted`: Every byte is transferred or left over, and only the
  partition is touched.
-/

namespace Sil3112

namespace Disk

/-! ## The source -/

/-- What `cmdkstrategy` uses of a `struct buf`. `sec` is where `SET_BP_SEC` stores
    the sector. -/
structure CmdkBuf where
  part : Nat
  lblkno : BitVec 64
  bcount : BitVec 64
  resid : BitVec 64
  sec : BitVec 64
  read : Bool
  error : Option Errno

/-- What `cmlb_partinfo` returns, and what the variables hold then. If it fails that
    can be anything. -/
structure Partinfo where
  failed : Bool
  lblkcnt : BitVec 64
  lblksrt : BitVec 64

/-- The soft state of an instance: its dadk, and its partitions. -/
structure SoftState where
  tgobjp : Dadk
  partinfo : Nat → Partinfo

/-- What becomes of a buf: `biodone`, or dadk has it. -/
inductive Issue where
  | done (bp : CmdkBuf)
  | queued (bp : CmdkBuf) (out : IoBuf)

/-- The buf as dadk sees it. -/
def CmdkBuf.ioBuf (bp : CmdkBuf) : IoBuf where
  part := bp.part
  sec := bp.sec.toInt
  bcount := bp.bcount.toNat
  read := bp.read
  internal := none
  resid := bp.resid.toNat
  error := bp.error

/-- The start of `cmdkstrategy`: an error for a partition that is not found, and
    for a request that it does not take. -/
def cmdkCheck (info : Partinfo) (bp : CmdkBuf) : CmdkBuf :=
  let bp := { bp with error := none, resid := 0 }
  let bp := if info.failed = true then { bp with error := some .enxio } else bp
  if bp.bcount &&& 511 ≠ 0 ∨ bp.lblkno > info.lblkcnt then { bp with error := some .enxio }
  else bp

/-- What goes beyond the end of the partition is left over. -/
def cmdkTruncate (info : Partinfo) (bp : CmdkBuf) : CmdkBuf :=
  let dCnt := bp.bcount >>> 9
  if bp.lblkno + dCnt > info.lblkcnt then
    let resid := (bp.lblkno + dCnt - info.lblkcnt) <<< 9
    { bp with resid := resid, bcount := bp.bcount - resid }
  else bp

/-- The end of `cmdkstrategy`. -/
def cmdkSubmit (dadkp : Dadk) (bp : CmdkBuf) : Issue :=
  match strategy dadkp bp.ioBuf with
  | .error e => .done { bp with error := some e, resid := bp.resid + bp.bcount }
  | .ok out => .queued bp out

/-- `cmdkstrategy` -/
def cmdkstrategy (cmdkIndump : Bool) (dkp : Option SoftState) (bp : CmdkBuf) : Issue :=
  let refused : Issue := .done { bp with resid := bp.bcount, error := some .enxio }
  if cmdkIndump = true then refused
  else
    match dkp with
    | none => refused
    | some dkp =>
      if bp.lblkno.toInt < 0 then refused
      else
        let info := dkp.partinfo bp.part
        let bp := cmdkCheck info bp
        if bp.error ≠ none ∨ bp.lblkno = info.lblkcnt then .done { bp with resid := bp.bcount }
        else
          let bp := cmdkTruncate info bp
          cmdkSubmit dkp.tgobjp { bp with sec := info.lblksrt + bp.lblkno }

/-! ## What is to be true -/

/-- A request that begins exactly at the end of a partition, with nothing wrong
    with it. -/
def AtEnd (cmdkIndump : Bool) (dkp : Option SoftState) (bp : CmdkBuf) : Prop :=
  cmdkIndump = false ∧ 0 ≤ bp.lblkno.toInt ∧ ∃ d, dkp = some d ∧
    (d.partinfo bp.part).failed = false ∧ 512 ∣ bp.bcount.toNat ∧
    bp.lblkno = (d.partinfo bp.part).lblkcnt

/-- Every sector of a request is one of the partition's. -/
def InPartition (info : Partinfo) (bp : CmdkBuf) : Prop :=
  ∀ i, i < bp.bcount.toNat / 512 → ∃ k, k < info.lblkcnt.toNat ∧
    bp.sec + BitVec.ofNat 64 i = info.lblksrt + BitVec.ofNat 64 k

/-- The sectors of a request as an interval of blocks. -/
def InBlocks (info : Partinfo) (bp : CmdkBuf) : Prop :=
  info.lblksrt.toNat ≤ bp.sec.toNat ∧
    bp.sec.toNat + bp.bcount.toNat / 512 ≤ info.lblksrt.toNat + info.lblkcnt.toNat

/-- What dadk has queued, in blocks, for a drive with sectors of `2 ^ blkshf` blocks.
    The disks have `blkshf` 0. For larger sectors what is queued begins in the partition
    if that begins with a sector of the drive. -/
def QueuedInBlocks (info : Partinfo) (dadkp : Dadk) (out : IoBuf) : Prop :=
  (2 ^ dadkp.blkshf ∣ info.lblksrt.toNat → info.lblksrt.toNat ≤ out.sec * 2 ^ dadkp.blkshf) ∧
    out.sec * 2 ^ dadkp.blkshf + (out.bcount / 512 : Nat) ≤
      info.lblksrt.toNat + info.lblkcnt.toNat

/-- What `cmdkstrategy` should make of a buf. The blocks of a partition are counted
    without a wrap if there are so many. -/
def Accounted (cmdkIndump : Bool) (dkp : Option SoftState) (bp : CmdkBuf) : Issue → Prop
  | .done bp' => bp'.resid = bp.bcount ∧ (bp'.error = none ↔ AtEnd cmdkIndump dkp bp)
  | .queued bp' out =>
    bp'.resid.toNat + bp'.bcount.toNat = bp.bcount.toNat ∧ 512 ∣ bp'.bcount.toNat ∧
      out.bcount = bp'.bcount.toNat ∧ out.resid = bp'.resid.toNat ∧
      ∃ d, dkp = some d ∧ InPartition (d.partinfo bp.part) bp' ∧
        ((d.partinfo bp.part).lblksrt.toNat + (d.partinfo bp.part).lblkcnt.toNat ≤ 2 ^ 64 →
          InBlocks (d.partinfo bp.part) bp') ∧
        ((d.partinfo bp.part).lblksrt.toNat + (d.partinfo bp.part).lblkcnt.toNat ≤ 2 ^ 63 →
          QueuedInBlocks (d.partinfo bp.part) d.tgobjp out)

/-! ## The steps -/

theorem bcount_whole_iff (b : BitVec 64) : b &&& 511 = 0 ↔ 512 ∣ b.toNat := by
  have hmask : (b &&& 511).toNat = b.toNat % 512 := by
    rw [BitVec.toNat_and]
    exact Nat.and_two_pow_sub_one_eq_mod b.toNat 9
  rw [← BitVec.toNat_inj, hmask, Nat.dvd_iff_mod_eq_zero]
  exact Iff.rfl

/-- What is wrong with a request. -/
def Unfit (info : Partinfo) (bp : CmdkBuf) : Prop :=
  info.failed = true ∨ bp.bcount &&& 511 ≠ 0 ∨ bp.lblkno > info.lblkcnt

instance (info : Partinfo) (bp : CmdkBuf) : Decidable (Unfit info bp) :=
  inferInstanceAs (Decidable (_ ∨ _))

theorem cmdkCheck_eq (info : Partinfo) (bp : CmdkBuf) : cmdkCheck info bp =
    { bp with resid := 0, error := if Unfit info bp then some .enxio else none } := by
  rcases info with ⟨failed, cnt, srt⟩
  cases failed with
  | true => simp [cmdkCheck, Unfit]
  | false =>
      by_cases h : bp.bcount &&& 511 ≠ 0 ∨ bp.lblkno > cnt
      · rw [if_pos (show Unfit ⟨false, cnt, srt⟩ bp from Or.inr h)]
        exact if_pos h
      · have hno : ¬Unfit ⟨false, cnt, srt⟩ bp := not_or.mpr ⟨Bool.false_ne_true, h⟩
        rw [if_neg hno]
        exact if_neg h

theorem not_unfit_iff (info : Partinfo) (bp : CmdkBuf) : ¬Unfit info bp ↔
    info.failed = false ∧ 512 ∣ bp.bcount.toNat ∧ bp.lblkno.toNat ≤ info.lblkcnt.toNat := by
  unfold Unfit
  rw [not_or, not_or, not_not, bcount_whole_iff, Bool.not_eq_true, gt_iff_lt, BitVec.lt_def,
    Nat.not_lt]

theorem cmdkCheck_error_iff (info : Partinfo) (bp : CmdkBuf) :
    (cmdkCheck info bp).error = none ↔
      info.failed = false ∧ 512 ∣ bp.bcount.toNat ∧ bp.lblkno.toNat ≤ info.lblkcnt.toNat := by
  rw [← not_unfit_iff, cmdkCheck_eq]
  by_cases h : Unfit info bp
  · exact iff_of_false (by simp [h]) (not_not.mpr h)
  · exact iff_of_true (by simp [h]) h

/-- Whole sectors that begin in the partition: what is left of them is whole sectors
    and ends with the partition, and the rest is accounted for. -/
theorem cmdkTruncate_spec {info : Partinfo} {bp : CmdkBuf} (hneg : bp.lblkno.toNat < 2 ^ 63)
    (hwhole : 512 ∣ bp.bcount.toNat) (hlt : bp.lblkno.toNat < info.lblkcnt.toNat)
    (hres : bp.resid = 0) :
    (cmdkTruncate info bp).lblkno = bp.lblkno ∧
      (cmdkTruncate info bp).resid.toNat + (cmdkTruncate info bp).bcount.toNat =
        bp.bcount.toNat ∧
      512 ∣ (cmdkTruncate info bp).bcount.toNat ∧
      bp.lblkno.toNat + (cmdkTruncate info bp).bcount.toNat / 512 ≤ info.lblkcnt.toNat := by
  obtain ⟨n, hn⟩ := hwhole
  have hb := bp.bcount.isLt
  have hcnt : (bp.bcount >>> 9).toNat = n := by
    rw [BitVec.toNat_ushiftRight, Nat.shiftRight_eq_div_pow]
    omega
  have hsum : (bp.lblkno + bp.bcount >>> 9).toNat = bp.lblkno.toNat + n := by
    rw [BitVec.toNat_add, hcnt, Nat.mod_eq_of_lt (by omega)]
  unfold cmdkTruncate
  by_cases hover : bp.lblkno + bp.bcount >>> 9 > info.lblkcnt
  · rw [if_pos hover]
    dsimp only
    rw [gt_iff_lt, BitVec.lt_def, hsum] at hover
    -- fewer sectors than were asked for
    have hsub : (bp.lblkno + bp.bcount >>> 9 - info.lblkcnt).toNat =
        bp.lblkno.toNat + n - info.lblkcnt.toNat := by
      rw [BitVec.toNat_sub_of_le (BitVec.le_def.mpr (by omega)), hsum]
    have hshift : ((bp.lblkno + bp.bcount >>> 9 - info.lblkcnt) <<< 9).toNat =
        (bp.lblkno.toNat + n - info.lblkcnt.toNat) * 512 := by
      rw [BitVec.toNat_shiftLeft, hsub, Nat.shiftLeft_eq, Nat.mod_eq_of_lt (by omega)]
    have hleft : (bp.bcount - (bp.lblkno + bp.bcount >>> 9 - info.lblkcnt) <<< 9).toNat =
        bp.bcount.toNat - (bp.lblkno.toNat + n - info.lblkcnt.toNat) * 512 := by
      rw [BitVec.toNat_sub_of_le (BitVec.le_def.mpr (by omega)), hshift]
    rw [hshift, hleft]
    exact ⟨rfl, by omega, by omega, by omega⟩
  · rw [if_neg hover, hres]
    rw [gt_iff_lt, BitVec.lt_def, hsum] at hover
    exact ⟨rfl, Nat.zero_add _, ⟨n, hn⟩, by omega⟩

/-- Sectors that follow one another from a block of the partition on. -/
theorem inPartition_of_le {info : Partinfo} {bp : CmdkBuf} {blk : BitVec 64}
    (hsec : bp.sec = info.lblksrt + blk)
    (hle : blk.toNat + bp.bcount.toNat / 512 ≤ info.lblkcnt.toNat) : InPartition info bp := by
  intro i hi
  refine ⟨blk.toNat + i, by omega, ?_⟩
  rw [hsec, BitVec.ofNat_add, BitVec.ofNat_toNat, BitVec.setWidth_eq, BitVec.add_assoc]

theorem inBlocks_of_le {info : Partinfo} {bp : CmdkBuf} {blk : BitVec 64}
    (hsec : bp.sec = info.lblksrt + blk) (hlt : blk.toNat < info.lblkcnt.toNat)
    (hle : blk.toNat + bp.bcount.toNat / 512 ≤ info.lblkcnt.toNat)
    (hfits : info.lblksrt.toNat + info.lblkcnt.toNat ≤ 2 ^ 64) : InBlocks info bp := by
  have hnat : bp.sec.toNat = info.lblksrt.toNat + blk.toNat := by
    rw [hsec, BitVec.toNat_add, Nat.mod_eq_of_lt (by omega)]
  exact ⟨by omega, by omega⟩

/-- dadk rounds down to a sector of the drive. -/
theorem queuedInBlocks_of_inBlocks {info : Partinfo} {dadkp : Dadk} {bp : CmdkBuf}
    {out : IoBuf} (h : InBlocks info bp) (hsmall : bp.sec.toNat < 2 ^ 63)
    (hsec : out.sec = bp.sec.toInt >>> dadkp.blkshf) (hcnt : out.bcount = bp.bcount.toNat) :
    QueuedInBlocks info dadkp out := by
  have hint : bp.sec.toInt = bp.sec.toNat := BitVec.toInt_eq_toNat_of_lt (by omega)
  have hdiv : out.sec = (bp.sec.toNat / 2 ^ dadkp.blkshf : Nat) := by
    rw [hsec, hint, Int.shiftRight_eq_div_pow]
    rfl
  have hround : bp.sec.toNat / 2 ^ dadkp.blkshf * 2 ^ dadkp.blkshf ≤ bp.sec.toNat :=
    Nat.div_mul_le_self _ _
  unfold QueuedInBlocks
  rw [hdiv, hcnt]
  refine ⟨?_, ?_⟩
  · rintro ⟨m, hm⟩
    have hq : m ≤ bp.sec.toNat / 2 ^ dadkp.blkshf := by
      rw [Nat.le_div_iff_mul_le (Nat.two_pow_pos _), Nat.mul_comm, ← hm]
      exact h.1
    have hmul := Nat.mul_le_mul_left (2 ^ dadkp.blkshf) hq
    rw [Nat.mul_comm _ (bp.sec.toNat / 2 ^ dadkp.blkshf)] at hmul
    rw [hm]
    exact_mod_cast hmul
  · have hend := h.2
    exact_mod_cast (show bp.sec.toNat / 2 ^ dadkp.blkshf * 2 ^ dadkp.blkshf +
      bp.bcount.toNat / 512 ≤ info.lblksrt.toNat + info.lblkcnt.toNat by omega)

/-! ## The routine -/

/-- A request that was checked and cut off: dadk takes it, or it is complete with
    everything left over. -/
theorem cmdkSubmit_accounted {cmdkIndump : Bool} {d : SoftState} {bp cut : CmdkBuf}
    (hlt : bp.lblkno.toNat < (d.partinfo bp.part).lblkcnt.toNat)
    (hsec : cut.sec = (d.partinfo bp.part).lblksrt + bp.lblkno)
    (hsum : cut.resid.toNat + cut.bcount.toNat = bp.bcount.toNat)
    (hwhole : 512 ∣ cut.bcount.toNat)
    (hle : bp.lblkno.toNat + cut.bcount.toNat / 512 ≤ (d.partinfo bp.part).lblkcnt.toNat) :
    Accounted cmdkIndump (some d) bp (cmdkSubmit d.tgobjp cut) := by
  unfold cmdkSubmit
  cases hst : strategy d.tgobjp cut.ioBuf with
  | error e =>
      refine ⟨?_, iff_of_false nofun ?_⟩
      · apply BitVec.eq_of_toNat_eq
        dsimp only
        rw [BitVec.toNat_add, hsum, Nat.mod_eq_of_lt bp.bcount.isLt]
      · rintro ⟨-, -, d', hd, -, -, hend⟩
        cases hd
        rw [hend] at hlt
        exact Nat.lt_irrefl _ hlt
  | ok out =>
      have hout := (strategy_accepted hst).2
      have hcnt : out.bcount = cut.bcount.toNat := by rw [hout]; rfl
      have hshift : out.sec = cut.sec.toInt >>> d.tgobjp.blkshf := by rw [hout]; rfl
      refine ⟨hsum, hwhole, hcnt, by rw [hout]; rfl, d, rfl, inPartition_of_le hsec hle,
        inBlocks_of_le hsec hlt hle, fun hfits => ?_⟩
      have hin := inBlocks_of_le hsec hlt hle (by omega)
      refine queuedInBlocks_of_inBlocks hin ?_ hshift hcnt
      rw [hsec, BitVec.toNat_add, Nat.mod_eq_of_lt (by omega)]
      omega

theorem toNat_lt_of_not_neg {v : BitVec 64} (h : ¬v.toInt < 0) : v.toNat < 2 ^ 63 := by
  have hint := BitVec.toInt_eq_toNat_cond v
  split at hint
  · omega
  · omega

/-- A request that is stopped: its block is the end of the partition, or it was marked
    with an error. -/
theorem cmdkCheck_accounted {cmdkIndump : Bool} {d : SoftState} {bp : CmdkBuf}
    (hdump : ¬cmdkIndump = true) (hneg : ¬bp.lblkno.toInt < 0)
    (hstop : (cmdkCheck (d.partinfo bp.part) bp).error ≠ none ∨
      (cmdkCheck (d.partinfo bp.part) bp).lblkno = (d.partinfo bp.part).lblkcnt) :
    Accounted cmdkIndump (some d) bp (.done
      { cmdkCheck (d.partinfo bp.part) bp with
        resid := (cmdkCheck (d.partinfo bp.part) bp).bcount }) := by
  have herr := cmdkCheck_error_iff (d.partinfo bp.part) bp
  have hchk := cmdkCheck_eq (d.partinfo bp.part) bp
  refine ⟨by rw [hchk], ?_⟩
  dsimp only
  rw [herr]
  constructor
  · intro hok
    have hend := hstop.resolve_left (not_not.mpr (herr.mpr hok))
    rw [hchk] at hend
    exact ⟨Bool.eq_false_of_not_eq_true hdump, by omega, d, rfl, hok.1, hok.2.1, hend⟩
  · rintro ⟨-, -, d', hd, hfound, hwhole, hend⟩
    cases hd
    exact ⟨hfound, hwhole, by rw [hend]⟩

/-- Whatever the buf, the partition and the failures are, a buf is complete with
    everything left over, and has an error unless it began at the end of the
    partition. Or dadk has it, with whole sectors of the partition, and the rest left
    over. -/
theorem cmdkstrategy_accounted (cmdkIndump : Bool) (dkp : Option SoftState) (bp : CmdkBuf) :
    Accounted cmdkIndump dkp bp (cmdkstrategy cmdkIndump dkp bp) := by
  unfold cmdkstrategy
  by_cases hdump : cmdkIndump = true
  · rw [if_pos hdump]
    refine ⟨rfl, iff_of_false nofun fun h => ?_⟩
    rw [h.1] at hdump
    cases hdump
  rw [if_neg hdump]
  cases dkp with
  | none =>
      refine ⟨rfl, iff_of_false nofun ?_⟩
      rintro ⟨-, -, d, hd, -⟩
      cases hd
  | some d =>
      dsimp only
      by_cases hneg : bp.lblkno.toInt < 0
      · rw [if_pos hneg]
        exact ⟨rfl, iff_of_false nofun fun h => absurd h.2.1 (by omega)⟩
      rw [if_neg hneg]
      have hstopped := @cmdkCheck_accounted cmdkIndump d bp hdump hneg
      generalize hinfo : d.partinfo bp.part = info at hstopped
      by_cases hstop : (cmdkCheck info bp).error ≠ none ∨ (cmdkCheck info bp).lblkno = info.lblkcnt
      · rw [if_pos hstop]
        exact hstopped hstop
      · rw [if_neg hstop]
        rw [not_or, not_not] at hstop
        rcases (cmdkCheck_error_iff info bp).mp hstop.1 with ⟨-, hwhole, hle⟩
        have hchk := cmdkCheck_eq info bp
        have hblk : (cmdkCheck info bp).lblkno = bp.lblkno := by rw [hchk]
        have hsize : (cmdkCheck info bp).bcount = bp.bcount := by rw [hchk]
        have hne : bp.lblkno ≠ info.lblkcnt := by rw [← hblk]; exact hstop.2
        have hlt : bp.lblkno.toNat < info.lblkcnt.toNat :=
          Nat.lt_of_le_of_ne hle fun h => hne (BitVec.eq_of_toNat_eq h)
        have hsmall := toNat_lt_of_not_neg hneg
        -- what is left after the end was cut off
        rcases @cmdkTruncate_spec info (cmdkCheck info bp) (by rw [hblk]; exact hsmall)
          (by rw [hsize]; exact hwhole) (by rw [hblk]; exact hlt) (by rw [hchk]) with
          ⟨hcut, hsum, hwhole', hle'⟩
        rw [hsize] at hsum
        rw [hblk] at hcut hle'
        subst hinfo
        exact cmdkSubmit_accounted hlt (by dsimp only; rw [hcut]) hsum hwhole' hle'

/-- A request for 100 bytes at the end of a partition with ten blocks. -/
def partAtEnd : CmdkBuf := ⟨0, 10, 100, 0, 0, true, none⟩

/-- A disk with one such partition. -/
def tenBlocks : SoftState := ⟨⟨9, 0, false, false, fun _ => none⟩, fun _ => ⟨false, 10, 63⟩⟩

/-- At the end of the partition, but not whole sectors: that is an error. -/
theorem cmdkstrategy_error_at_end :
    ¬∀ (d : SoftState) (bp bp' : CmdkBuf), 0 ≤ bp.lblkno.toInt →
      cmdkstrategy false (some d) bp = .done bp' →
      (bp'.error = none ↔ bp.lblkno = (d.partinfo bp.part).lblkcnt) := by
  intro h
  have hend := (h tenBlocks partAtEnd _ (by decide) rfl).mpr rfl
  exact absurd hend (by decide)

end Disk

end Sil3112
