import Sil3112.Ata.Passthru
import Sil3112.Lib.Transition

/-!
# The Block Size of PIO

How many bytes the host moves for each interrupt of a PIO command, and how many
the drive expects it to. A single-sector command interrupts for every sector. A
`MULTIPLE` command interrupts for every block, and the number of sectors of a
block has been programmed into the drive with `SET MULTIPLE`.

`ata_disk_setup_parms` chooses between the two, when the drive is found and
after every bus reset, and keeps the bytes of a block in `ad_bytes_per_block`.
A packet gets that number when it is allocated, and the command when it is set
up. There are four ways for them to come apart:

* The block factor is what the drive and a property say, and the property may
  be negative.
* `ad_bytes_per_block` is a `short`, which has no room for 64 sectors.
* A retry sets the packet to a single sector for good. The next chunk of the
  same packet is again a `MULTIPLE` command.
* After a bus reset the drive may have another block factor than a packet that
  has been set up before it.

## Main definitions

* `initBlockFactor`, `setupParms`: How the drive is programmed.
* `PioSys`, `PioStep`: The packets of a drive, and what can happen to them. The
  steps may be limited to those that keep the numbers together.
* `BlockOk`: Host and drive agree on the block size of a command.

## Theorems

* `setupParms_ok`: When the numbers of the drive agree.
* `diskIosetup_block`: When a setup leaves a packet in which they do.
* `pio_block_matches`: They agree for every command started, in every run that
  avoids the four ways.
-/

namespace Sil3112

namespace Ata

open Ghd Disk Transition

/-- Conversion to `short`. -/
def short (x : Int) : Int := x.bmod (2 ^ 16)

/-- The single-sector commands. -/
def AtaCmd.isSingle : AtaCmd → Bool
  | .rdsec => true
  | .wrsec => true
  | .rdsecExt => true
  | .wrsecExt => true
  | _ => false

/-- The `MULTIPLE` commands. -/
def AtaCmd.isMultiple : AtaCmd → Bool
  | .rdmult => true
  | .wrmult => true
  | .rdmultExt => true
  | .wrmultExt => true
  | _ => false

/-- The parts of an `ata_drv_t` that have to do with blocks. `mult` is the block
    factor programmed in the drive itself, or 0. -/
structure DrvBlock where
  blockFactor : Int
  bytesPerBlock : Int
  rdCmd : AtaCmd
  wrCmd : AtaCmd
  mult : Nat

/-- `ad_block_factor` in `sol11ata_disk_init_drive`: the low byte of `ai_mult1`, or
    the property if that is less. -/
def initBlockFactor (mult1 : Nat) (prop : Option Int) : Int :=
  let f : Int := (mult1 % 2 ^ 8 : Nat)
  let f := short (min (prop.getD f) f)
  if f = 0 then 1 else f

/-- `ata_disk_setup_parms`, with the outcome of programming the geometry and of
    `SET MULTIPLE`, which gets the block factor in a register of 8 bits. -/
def setupParms (d : DrvBlock) (parmsOk multOk : Bool) : DrvBlock × Bool :=
  if parmsOk = false then (d, false)
  else
    let d := if 1 < d.blockFactor then
        if multOk then { d with mult := d.blockFactor.toNat % 2 ^ 8 }
        else { d with blockFactor := 1 }
      else d
    let d := if 1 < d.blockFactor then { d with rdCmd := .rdmult, wrCmd := .wrmult }
      else { d with rdCmd := .rdsec, wrCmd := .wrsec }
    ({ d with bytesPerBlock := short (d.blockFactor <<< (9 : Nat)) }, true)

/-- A drive before it is set up for the first time. -/
def foundDrive (mult1 : Nat) (prop : Option Int) (mult : Nat) : DrvBlock where
  blockFactor := initBlockFactor mult1 prop
  bytesPerBlock := 0
  rdCmd := .rdsec
  wrCmd := .rdsec
  mult := mult

/-- A packet of `ata_disk_pktalloc`, for this drive. -/
def DrvBlock.newPkt (d : DrvBlock) : AtaDisk where
  pkt := { freshPkt with bytesPerBlock := uint d.bytesPerBlock }
  dma := {}

/-- What `ata_disk_iosetup` reads of the drive. -/
def DrvBlock.toDrv (d : DrvBlock) (maxTransfer : Nat) (ext48 : Bool) : DiskDrv :=
  ⟨maxTransfer, ext48, d.rdCmd, d.wrCmd⟩

/-- A packet is for PIO. -/
def DiskPkt.isPio (q : DiskPkt) : Prop :=
  q.start = .pioIn ∨ q.start = .pioOut

/-- Host and drive agree on the block size: one sector for a single-sector
    command, and what is programmed for a `MULTIPLE` command, unless it is for
    one sector. -/
def BlockOk (q : DiskPkt) (mult : Nat) : Prop :=
  q.isPio →
    (q.cmd.isSingle = true → q.bytesPerBlock = nbpsctr) ∧
    (q.cmd.isMultiple = true → 0 < mult ∧ q.bytesPerBlock = nbpsctr * mult ∨ q.count = 1)

/-- A drive with its packets, and those that have been started, each with the
    block factor programmed at the time. -/
structure PioSys where
  drv : DrvBlock
  pkts : Nat → Option AtaDisk
  started : List (DiskPkt × Nat)

/-- A packet has changed. -/
def PioSys.put (s : PioSys) (n : Nat) (k : AtaDisk) : PioSys :=
  { s with pkts := Function.update s.pkts n (some k) }

/-- The drive is set up so that the numbers agree: the block factor fits, or
    `SET MULTIPLE` is refused. -/
def FactorOk (blockFactor : Int) (multOk : Bool) : Prop :=
  if 1 < blockFactor then blockFactor < 64 ∨ multOk = false else blockFactor % 128 = 1

/-- A bus reset keeps the numbers together. -/
def ResetOk (s : PioSys) (mult : Nat) (parmsOk multOk : Bool) : Prop :=
  1 < s.drv.blockFactor →
    (parmsOk = false → (mult : Int) = s.drv.blockFactor) ∧
    (parmsOk = true → multOk = false →
      ∀ n k, s.pkts n = some k → k.dma.handle.isSome = true ∧ ¬k.pkt.isPio)

/-- A setup does not meet a packet that has been narrowed to one sector, or whose
    drive has changed, unless that makes no difference. -/
def NotNarrow (d : DrvBlock) (maxTransfer : Nat) (ext48 : Bool) (k : AtaDisk) (p : Cmpkt) : Prop :=
  k.pkt.flags.error = true ∨ p.passthru.isSome = true ∨
    k.pkt.bytesPerBlock = uint d.bytesPerBlock ∨
    (k.dma.handle.isSome = true ∧ secCount (d.toDrv maxTransfer ext48) p ≠ 0) ∨
    (1 < d.blockFactor ∧ secCount (d.toDrv maxTransfer ext48) p = 1)

/-- What can happen to a drive and its packets. If `strict`, the numbers stay
    together. -/
inductive PioStep (maxTransfer : Nat) (ext48 : Bool) (strict : Prop) : PioSys → PioSys → Prop where
  | pktalloc (s : PioSys) (n : Nat) (hfree : s.pkts n = none) :
      PioStep maxTransfer ext48 strict s (s.put n s.drv.newPkt)
  | memsetup (s : PioSys) (n : Nat) (k : AtaDisk) (hk : s.pkts n = some k)
      (dmaOn dmaDisabled pageio : Bool) (addr bcount : Nat)
      (windows : Option (List (List DmaCookie))) :
      PioStep maxTransfer ext48 strict s
        (s.put n (diskMemsetup dmaOn dmaDisabled pageio addr bcount windows k))
  | iosetup (s : PioSys) (n : Nat) (k : AtaDisk) (hk : s.pkts n = some k) (p : Cmpkt)
      -- A packet with the command of a `DKIOCGETDEF` has no other command.
      (hcmd : p.passthru = none → p.cdb = .getdef → ¬k.pkt.isPio)
      (h : strict → NotNarrow s.drv maxTransfer ext48 k p) :
      PioStep maxTransfer ext48 strict s
        (s.put n (diskIosetup (s.drv.toDrv maxTransfer ext48) k p).1)
  | start (s : PioSys) (n : Nat) (k : AtaDisk) (hk : s.pkts n = some k) :
      PioStep maxTransfer ext48 strict s
        { s with started := s.started ++ [(k.pkt, s.drv.mult)] }
  | complete (s : PioSys) (n : Nat) (k : AtaDisk) (hk : s.pkts n = some k) (flags : ApFlags)
      (vAddr resid : Nat) :
      PioStep maxTransfer ext48 strict s
        (s.put n { k with pkt := { k.pkt with flags := flags, vAddr := vAddr, resid := resid } })
  | pktfree (s : PioSys) (n : Nat) :
      PioStep maxTransfer ext48 strict s { s with pkts := Function.update s.pkts n none }
  | reset (s : PioSys) (mult : Nat) (parmsOk multOk : Bool)
      (h : strict → ResetOk s mult parmsOk multOk) :
      PioStep maxTransfer ext48 strict s
        { s with drv := (setupParms { s.drv with mult := mult } parmsOk multOk).1 }

/-- A drive that has just been found and set up. -/
def PioStart (strict : Prop) (s : PioSys) : Prop :=
  ∃ mult1 prop mult multOk, s.drv = (setupParms (foundDrive mult1 prop mult) true multOk).1 ∧
    s.pkts = (fun _ => none) ∧ s.started = [] ∧
    (strict → FactorOk (initBlockFactor mult1 prop) multOk)

/-! ## The drive -/

/-- The block factor that `MULTIPLE` commands may rely on. -/
def DrvBlock.used (d : DrvBlock) : Nat :=
  if 1 < d.blockFactor then d.mult else 0

/-- The numbers of the drive agree: it is programmed as the driver believes, or
    the driver uses single-sector commands. -/
def DrvOk (d : DrvBlock) : Prop :=
  if 1 < d.blockFactor then
    d.blockFactor < 64 ∧ d.rdCmd = .rdmult ∧ d.wrCmd = .wrmult ∧ (d.mult : Int) = d.blockFactor ∧
      uint d.bytesPerBlock = nbpsctr * d.mult
  else
    d.blockFactor % 128 = 1 ∧ d.rdCmd = .rdsec ∧ d.wrCmd = .wrsec ∧
      uint d.bytesPerBlock = nbpsctr

/-- A block factor that a `short` has room for in bytes. -/
theorem uint_short_of_lt {b : Int} (h0 : 0 ≤ b) (h : b < 64) :
    (uint (short (b <<< (9 : Nat))) : Int) = 512 * b := by
  unfold uint short
  rw [shiftLeft_nine, Int.bmod_def]
  split
  · omega
  · omega

/-- A block factor whose bytes look like those of one sector. -/
theorem uint_short_of_mod {b : Int} (h : b % 128 = 1) :
    uint (short (b <<< (9 : Nat))) = nbpsctr := by
  unfold uint short nbpsctr
  rw [shiftLeft_nine, Int.bmod_def]
  split
  · omega
  · omega

section SetupParms

variable {d : DrvBlock} {multOk : Bool}

/-- `SET MULTIPLE` is accepted. -/
theorem setupParms_mult (hb : 1 < d.blockFactor) : (setupParms d true true).1 =
    ⟨d.blockFactor, short (d.blockFactor <<< (9 : Nat)), .rdmult, .wrmult,
      d.blockFactor.toNat % 2 ^ 8⟩ := by
  simp only [setupParms, Bool.true_eq_false, if_false, hb, if_true]

/-- `SET MULTIPLE` is refused. -/
theorem setupParms_refused (hb : 1 < d.blockFactor) :
    (setupParms d true false).1 = ⟨1, 512, .rdsec, .wrsec, d.mult⟩ := by
  simp only [setupParms, Bool.true_eq_false, Bool.false_eq_true, if_false, hb, if_true]
  rfl

/-- `SET MULTIPLE` is not used. -/
theorem setupParms_single (hb : ¬1 < d.blockFactor) : (setupParms d true multOk).1 =
    ⟨d.blockFactor, short (d.blockFactor <<< (9 : Nat)), .rdsec, .wrsec, d.mult⟩ := by
  simp only [setupParms, Bool.true_eq_false, if_false, hb]

/-- When the numbers of the drive agree. -/
theorem setupParms_ok (h : FactorOk d.blockFactor multOk) : DrvOk (setupParms d true multOk).1 := by
  unfold FactorOk at h
  by_cases hb : 1 < d.blockFactor
  · rw [if_pos hb] at h
    cases multOk with
    | false =>
        rw [setupParms_refused hb]
        exact ⟨rfl, rfl, rfl, rfl⟩
    | true =>
        have hlt : d.blockFactor < 64 := h.resolve_right nofun
        have hbytes := uint_short_of_lt (by omega) hlt
        rw [setupParms_mult hb]
        unfold DrvOk nbpsctr
        rw [if_pos hb]
        dsimp only
        exact ⟨hlt, rfl, rfl, by omega, by omega⟩
  · rw [if_neg hb] at h
    rw [setupParms_single hb]
    unfold DrvOk
    rw [if_neg hb]
    exact ⟨h, rfl, rfl, uint_short_of_mod h⟩

end SetupParms

theorem BlockOk.of_zero {q : DiskPkt} (h : BlockOk q 0) (mult : Nat) : BlockOk q mult := by
  intro hp
  refine ⟨(h hp).1, fun hm => Or.inr (((h hp).2 hm).resolve_left ?_)⟩
  exact fun hn => Nat.not_lt_zero 0 hn.1

/-- What is started now relies on what is programmed. -/
theorem BlockOk.started {q : DiskPkt} {d : DrvBlock} (h : BlockOk q d.used) : BlockOk q d.mult := by
  unfold DrvBlock.used at h
  split at h
  · exact h
  · exact h.of_zero d.mult

/-- A bus reset. -/
theorem reset_ok {s : PioSys} {mult : Nat} {parmsOk multOk : Bool} (hd : DrvOk s.drv)
    (hpkts : ∀ n k, s.pkts n = some k → BlockOk k.pkt s.drv.used)
    (h : ResetOk s mult parmsOk multOk) :
    DrvOk (setupParms { s.drv with mult := mult } parmsOk multOk).1 ∧
      ∀ n k, s.pkts n = some k →
        BlockOk k.pkt (setupParms { s.drv with mult := mult } parmsOk multOk).1.used := by
  have hd' := hd
  unfold DrvOk at hd'
  by_cases hb : 1 < s.drv.blockFactor
  · rw [if_pos hb] at hd'
    rcases hd' with ⟨hlt, hrd, hwr, hmult, hbytes⟩
    have hused : s.drv.used = s.drv.mult := if_pos hb
    cases parmsOk with
    | false =>
        -- `INITIALIZE DEVICE PARAMETERS` has failed, and nothing is programmed anew.
        have hsame : mult = s.drv.mult := by
          have hm := (h hb).1 rfl
          omega
        rw [hsame]
        exact ⟨hd, hpkts⟩
    | true =>
        refine ⟨setupParms_ok ?_, fun n k hk => ?_⟩
        · unfold FactorOk
          dsimp only
          rw [if_pos hb]
          exact Or.inl hlt
        · cases multOk with
          | false => exact fun hp => absurd hp ((h hb).2 rfl rfl n k hk).2
          | true =>
              -- The drive is given the same number again.
              have hnew :
                  (setupParms { s.drv with mult := mult } true true).1.used = s.drv.mult := by
                have hset := setupParms_mult (d := { s.drv with mult := mult }) hb
                rw [hset]
                unfold DrvBlock.used
                rw [if_pos hb]
                dsimp only
                omega
              rw [hnew, ← hused]
              exact hpkts n k hk
  · rw [if_neg hb] at hd'
    -- Single sectors: it does not matter what is programmed.
    have hused : s.drv.used = 0 := if_neg hb
    rw [hused] at hpkts
    refine ⟨?_, fun n k hk => (hpkts n k hk).of_zero _⟩
    cases parmsOk with
    | false =>
        unfold setupParms
        rw [if_pos rfl]
        unfold DrvOk
        dsimp only
        rw [if_neg hb]
        exact hd'
    | true =>
        refine setupParms_ok ?_
        unfold FactorOk
        dsimp only
        rw [if_neg hb]
        exact hd'.1

/-! ## A setup -/

theorem AtaCmd.ext_isSingle (cmd : AtaCmd) : cmd.ext.isSingle = cmd.isSingle := by
  cases cmd <;> rfl

theorem AtaCmd.ext_isMultiple (cmd : AtaCmd) : cmd.ext.isMultiple = cmd.isMultiple := by
  cases cmd <;> rfl

/-- The block size of a packet is right for a command. -/
def Suits (cmd : AtaCmd) (q : DiskPkt) (mult : Nat) : Prop :=
  (cmd.isSingle = true → q.bytesPerBlock = nbpsctr) ∧
    (cmd.isMultiple = true → 0 < mult ∧ q.bytesPerBlock = nbpsctr * mult ∨ q.count = 1)

section Setup

variable {drv : DiskDrv} {q : DiskPkt} {cmd : AtaCmd} {mult : Nat}

/-- The 48-bit form of a command is as good as the command. -/
theorem BlockOk.setExt (h : q.isPio → Suits q.cmd q mult) : BlockOk (q.setExt drv) mult := by
  unfold DiskPkt.setExt
  split
  · intro hp
    have hs := h hp
    dsimp only
    rw [AtaCmd.ext_isSingle, AtaCmd.ext_isMultiple]
    exact hs
  · exact h

/-- A read with DMA, or one that suits the packet. -/
theorem setRead_block (h : q.sgCnt = 0 → Suits cmd q mult) :
    BlockOk ((q.setRead cmd).setExt drv) mult := by
  refine BlockOk.setExt ?_
  unfold DiskPkt.setRead
  by_cases hs : q.sgCnt = 0
  · rw [if_neg (fun hn => hn hs)]
    exact fun _ => h hs
  · rw [if_pos hs]
    rintro (hp | hp)
    · cases hp
    · cases hp

/-- A write with DMA, or one that suits the packet. -/
theorem setWrite_block (h : q.sgCnt = 0 → Suits cmd q mult) :
    BlockOk ((q.setWrite cmd).setExt drv) mult := by
  refine BlockOk.setExt ?_
  unfold DiskPkt.setWrite
  by_cases hs : q.sgCnt = 0
  · rw [if_neg (fun hn => hn hs)]
    exact fun _ => h hs
  · rw [if_pos hs]
    rintro (hp | hp)
    · cases hp
    · cases hp

/-- The scatter/gather list has nothing to do with the block. -/
theorem setupSg_frame (s : AtaDisk) (n : Nat) :
    (setupSg s n).1.pkt.cmd = s.pkt.cmd ∧ (setupSg s n).1.pkt.start = s.pkt.start ∧
      (setupSg s n).1.pkt.bytesPerBlock = s.pkt.bytesPerBlock ∧
      (setupSg s n).1.pkt.count = s.pkt.count := by
  unfold setupSg
  dsimp only
  split
  · split
    · exact ⟨rfl, rfl, rfl, rfl⟩
    · split
      · exact ⟨rfl, rfl, rfl, rfl⟩
      · exact ⟨rfl, rfl, rfl, rfl⟩
  · exact ⟨rfl, rfl, rfl, rfl⟩

/-- A list that has been begun has an entry. -/
theorem getLoop_sgCnt (maxXfer : Nat) (single : Bool) : ∀ (left numSegs toxfer : Nat)
    (cookie : DmaCookie) (p : AtaSg) (d : GcmdDma),
    (getLoop sgFunc maxXfer single left numSegs toxfer cookie p d).1.sgCnt ≠ 0 := by
  intro left
  induction left with
  | zero =>
      intro numSegs toxfer cookie p d
      unfold getLoop
      dsimp only
      split
      · exact Nat.succ_ne_zero _
      · split
        · exact Nat.succ_ne_zero _
        · exact Nat.succ_ne_zero _
  | succ left ih =>
      intro numSegs toxfer cookie p d
      unfold getLoop
      dsimp only
      split
      · exact Nat.succ_ne_zero _
      · split
        · exact Nat.succ_ne_zero _
        · cases d.handle with
          | none => exact Nat.succ_ne_zero _
          | some h => exact ih _ _ _ _ _

/-- With DMA the list is begun. -/
theorem setupSg_sgCnt {s : AtaDisk} {n m : Nat} (h : (setupSg s n).2 = some m) :
    if s.dma.handle.isSome ∧ n ≠ 0 then (setupSg s n).1.pkt.sgCnt ≠ 0 else m = n := by
  unfold setupSg at h ⊢
  dsimp only at h ⊢
  split
  · next hdma =>
    rw [if_pos hdma] at h
    generalize hp : ({ s.pkt.toAtaSg with sgCnt := 0, pciideDma := false } : AtaSg) = p at h ⊢
    -- Every path of `sol11ghd_dmaget` that succeeds has taken a cookie.
    have hget : ∀ r, dmaget sgFunc p s.dma (uint ((n <<< 9 : Nat) : Int)) ataDmaNsegs = r →
        r.2.2 ≠ none → r.1.sgCnt ≠ 0 := by
      intro r hr hne
      unfold dmaget dmagetNext at hr
      dsimp only at hr
      split at hr
      · rw [← hr] at hne
        exact absurd rfl hne
      · split at hr
        · rw [← hr]
          exact getLoop_sgCnt _ _ _ _ _ _ _ _
        · split at hr
          · rw [← hr] at hne
            exact absurd rfl hne
          · split at hr
            · split at hr
              · rw [← hr] at hne
                exact absurd rfl hne
              · rw [← hr]
                exact getLoop_sgCnt _ _ _ _ _ _ _ _
            · rw [← hr]
              exact getLoop_sgCnt _ _ _ _ _ _ _ _
    have hget := hget _ rfl
    split
    · next hnone =>
      rw [hnone] at h
      cases h
    · next byteCount hsome =>
      rw [hsome] at hget
      split
      · exact hget nofun
      · exact hget nofun
  · next hdma =>
    rw [if_neg hdma] at h
    exact (Option.some.inj h).symm

/-- The command leaves a packet whose block size is right: a pass-through command
    is for single sectors, and another one finds the right number or is for DMA.
    -/
theorem setupCmd_block {t : AtaDisk} {p : Cmpkt} {n : Nat}
    (hcmd : p.passthru = none → p.cdb = .read ∨ p.cdb = .write ∨ ¬t.pkt.isPio)
    (h : p.passthru = none → t.pkt.sgCnt = 0 →
      Suits drv.rdCmd { t.pkt with count := apCount drv n } mult ∧
        Suits drv.wrCmd { t.pkt with count := apCount drv n } mult) :
    BlockOk (setupCmd drv t p n).1.pkt mult := by
  unfold setupCmd
  cases hpass : p.passthru with
  | some rw =>
      -- A pass-through command is for single sectors, whatever the drive is.
      refine BlockOk.setExt ?_
      dsimp only
      cases rw.write with
      | false =>
          unfold DiskPkt.setRead
          by_cases hs : t.pkt.sgCnt = 0
          · simp only [hs, ne_eq, not_true_eq_false, if_false, Bool.false_eq_true]
            exact fun _ => ⟨fun _ => rfl, nofun⟩
          · simp only [hs, ne_eq, not_false_eq_true, if_true, if_false, Bool.false_eq_true]
            exact fun _ => ⟨fun _ => rfl, nofun⟩
      | true =>
          unfold DiskPkt.setWrite
          by_cases hs : t.pkt.sgCnt = 0
          · simp only [hs, ne_eq, not_true_eq_false, if_false, if_true]
            exact fun _ => ⟨fun _ => rfl, nofun⟩
          · simp only [hs, ne_eq, not_false_eq_true, if_true]
            exact fun _ => ⟨fun _ => rfl, nofun⟩
  | none =>
      have h := h hpass
      have hcmd := hcmd hpass
      dsimp only
      cases hcdb : p.cdb with
      | read => exact setRead_block fun hs => (h hs).1
      | write => exact setWrite_block fun hs => (h hs).2
      -- The other commands are not set up as a transfer.
      | flushCache =>
          rw [hcdb] at hcmd
          rcases hcmd with hcmd | hcmd | hcmd
          · cases hcmd
          · cases hcmd
          · exact fun hp => absurd hp hcmd
      | getdef =>
          rw [hcdb] at hcmd
          rcases hcmd with hcmd | hcmd | hcmd
          · cases hcmd
          · cases hcmd
          · exact fun hp => absurd hp hcmd

/-- The packet's block size suits the commands of the drive. -/
theorem DrvOk.suits {d : DrvBlock} (hd : DrvOk d) (maxTransfer : Nat) (ext48 : Bool)
    (hq : if 1 < d.blockFactor then q.bytesPerBlock = nbpsctr * d.mult ∨ q.count = 1
      else q.bytesPerBlock = nbpsctr) :
    Suits (d.toDrv maxTransfer ext48).rdCmd q d.used ∧
      Suits (d.toDrv maxTransfer ext48).wrCmd q d.used := by
  unfold DrvOk at hd
  unfold DrvBlock.used DrvBlock.toDrv
  split
  · next hb =>
    rw [if_pos hb] at hd hq
    rcases hd with ⟨-, hrd, hwr, hmult, -⟩
    have hpos : 0 < d.mult := by omega
    have hsuits : 0 < d.mult ∧ q.bytesPerBlock = nbpsctr * d.mult ∨ q.count = 1 :=
      hq.imp_left fun h => ⟨hpos, h⟩
    dsimp only
    rw [hrd, hwr]
    exact ⟨⟨nofun, fun _ => hsuits⟩, ⟨nofun, fun _ => hsuits⟩⟩
  · next hb =>
    rw [if_neg hb] at hd hq
    rcases hd with ⟨-, hrd, hwr, -⟩
    dsimp only
    rw [hrd, hwr]
    exact ⟨⟨fun _ => hq, nofun⟩, ⟨fun _ => hq, nofun⟩⟩

theorem apCount_one (drv : DiskDrv) : apCount drv 1 = 1 := by
  unfold apCount
  split
  · rfl
  · rfl

/-- What a packet is before the command is set up: one sector after an error, and
    otherwise as it was. -/
theorem narrowed_frame (q : DiskPkt) (n : Nat) (error : Bool) :
    let r := if error = true then (q.restore, 1) else (q.save, n)
    r.1.cmd = q.cmd ∧ r.1.start = q.start ∧ r.1.count = q.count ∧
      r.1.bytesPerBlock = (if error = true then nbpsctr else q.bytesPerBlock) ∧
      r.2 = if error = true then 1 else n := by
  cases error with
  | false => exact ⟨rfl, rfl, rfl, rfl, rfl⟩
  | true =>
      rw [if_pos rfl, if_pos rfl, if_pos rfl]
      unfold DiskPkt.restore
      dsimp only
      split
      · exact ⟨rfl, rfl, rfl, rfl, rfl⟩
      · exact ⟨rfl, rfl, rfl, rfl, rfl⟩

/-- Without DMA the block size of a packet that is not narrow suits the drive. -/
theorem NotNarrow.suits {d : DrvBlock} {maxTransfer : Nat} {ext48 : Bool} {k : AtaDisk}
    {p : Cmpkt} (h : NotNarrow d maxTransfer ext48 k p) (hd : DrvOk d) (hpass : p.passthru = none)
    (herr : k.pkt.flags.error ≠ true)
    (hdma : ¬(k.dma.handle.isSome = true ∧ secCount (d.toDrv maxTransfer ext48) p ≠ 0)) :
    if 1 < d.blockFactor then
      k.pkt.bytesPerBlock = nbpsctr * d.mult ∨
        apCount (d.toDrv maxTransfer ext48) (secCount (d.toDrv maxTransfer ext48) p) = 1
    else k.pkt.bytesPerBlock = nbpsctr := by
  unfold DrvOk at hd
  rcases h with h | h | h | h | h
  · exact absurd h herr
  · rw [hpass] at h
    cases h
  · rw [h]
    split
    · next hbf =>
      rw [if_pos hbf] at hd
      exact Or.inl hd.2.2.2.2
    · next hbf =>
      rw [if_neg hbf] at hd
      exact hd.2.2.2
  · exact absurd h hdma
  · rw [if_pos h.1, h.2, apCount_one]
    exact Or.inr rfl

/-- When a setup leaves a packet whose block size is right. -/
theorem diskIosetup_block {d : DrvBlock} {maxTransfer : Nat} {ext48 : Bool} {k : AtaDisk}
    {p : Cmpkt} (hd : DrvOk d) (hk : BlockOk k.pkt d.used)
    (hcmd : p.passthru = none → p.cdb = .getdef → ¬k.pkt.isPio)
    (hn : NotNarrow d maxTransfer ext48 k p) :
    BlockOk (diskIosetup (d.toDrv maxTransfer ext48) k p).1.pkt d.used := by
  unfold diskIosetup
  split
  · -- A flush.
    exact fun _ => ⟨nofun, nofun⟩
  · next hflush =>
    split
    · exact hk
    · next hretry =>
      dsimp only
      have hnar := narrowed_frame k.pkt (secCount (d.toDrv maxTransfer ext48) p) k.pkt.flags.error
      generalize (if k.pkt.flags.error = true then (k.pkt.restore, 1)
        else (k.pkt.save, secCount (d.toDrv maxTransfer ext48) p) : DiskPkt × Nat) = r at hnar ⊢
      rcases hnar with ⟨hrc, hrs, hrn, hrb, hr2⟩
      rcases setupSg_frame { k with pkt := r.1 } r.2 with ⟨hc, hs, hb, hcnt⟩
      split
      · next hnone =>
        -- Without a list the packet is as it was.
        have herr : k.pkt.flags.error ≠ true := by
          intro herr
          have hh : k.dma.handle = none := Option.isNone_iff_eq_none.1 (by
            simpa using fun hsome => hretry ⟨herr, hsome⟩)
          rw [setupSg_pio (s := { k with pkt := r.1 }) (Or.inl hh)] at hnone
          cases hnone
        rw [if_neg herr] at hrb
        unfold BlockOk DiskPkt.isPio
        rw [hc, hs, hb, hcnt, hrc, hrs, hrb, hrn]
        exact hk
      · next n hsome =>
        have hsg := setupSg_sgCnt hsome
        refine setupCmd_block (fun hpass => ?_) fun hpass hz => hd.suits maxTransfer ext48 ?_
        · unfold DiskPkt.isPio
          rw [hs, hrs]
          cases hcdb : p.cdb with
          | read => exact Or.inl rfl
          | write => exact Or.inr (Or.inl rfl)
          | flushCache => exact absurd ⟨by rw [hpass]; rfl, hcdb⟩ hflush
          | getdef => exact Or.inr (Or.inr (hcmd hpass hcdb))
        · dsimp only
          rw [hb, hrb]
          by_cases herr : k.pkt.flags.error = true
          · -- A retry is of one sector.
            rw [if_pos herr] at hr2 ⊢
            have hh : ¬(k.dma.handle.isSome = true ∧ r.2 ≠ 0) := fun hn => hretry ⟨herr, hn.1⟩
            rw [if_neg hh, hr2] at hsg
            rw [hsg, apCount_one]
            split
            · exact Or.inr rfl
            · rfl
          · rw [if_neg herr] at hr2 ⊢
            rw [hr2] at hsg
            -- The list is empty, so there is no DMA.
            have hdma : ¬(k.dma.handle.isSome = true ∧
                secCount (d.toDrv maxTransfer ext48) p ≠ 0) := by
              intro hn
              rw [if_pos hn] at hsg
              exact hsg (by rw [← hr2]; exact hz)
            rw [if_neg hdma] at hsg
            rw [hsg]
            exact hn.suits hd hpass herr hdma

end Setup

/-! ## Runs -/

/-- The invariant: the numbers agree in the drive, in its packets, and in those
    that have been started. -/
structure PioOk (s : PioSys) : Prop where
  drv : DrvOk s.drv
  pkts : ∀ n k, s.pkts n = some k → BlockOk k.pkt s.drv.used
  started : ∀ e ∈ s.started, BlockOk e.1 e.2

section Runs

variable {maxTransfer : Nat} {ext48 : Bool} {s s' : PioSys}

theorem PioOk.put (h : PioOk s) (n : Nat) {k : AtaDisk} (hk : BlockOk k.pkt s.drv.used) :
    PioOk (s.put n k) := by
  refine ⟨h.drv, fun m k' hm => ?_, h.started⟩
  unfold PioSys.put at hm
  dsimp only at hm
  by_cases hmn : m = n
  · rw [hmn, Function.update_self] at hm
    rw [← Option.some.inj hm]
    exact hk
  · rw [Function.update_of_ne hmn] at hm
    exact h.pkts m k' hm

/-- Binding a buf has nothing to do with the block. -/
theorem diskMemsetup_block (dmaOn dmaDisabled pageio : Bool) (addr bcount : Nat)
    (windows : Option (List (List DmaCookie))) {k : AtaDisk} {mult : Nat}
    (hk : BlockOk k.pkt mult) :
    BlockOk (diskMemsetup dmaOn dmaDisabled pageio addr bcount windows k).pkt mult := by
  unfold diskMemsetup
  dsimp only
  split
  · exact hk
  · split
    · exact hk
    · split
      · exact hk
      · split
        · exact hk
        · split
          · exact hk
          · split
            · exact hk
            · exact hk

/-- Every step keeps the invariant. -/
theorem PioStep.ok (hst : PioStep maxTransfer ext48 True s s') (h : PioOk s) : PioOk s' := by
  cases hst with
  | pktalloc n hfree =>
      refine h.put n fun hp => ?_
      rcases hp with hp | hp
      · cases hp
      · cases hp
  | memsetup n k hk dmaOn dmaDisabled pageio addr bcount windows =>
      exact h.put n (diskMemsetup_block _ _ _ _ _ _ (h.pkts n k hk))
  | iosetup n k hk p hcmd hn =>
      exact h.put n (diskIosetup_block h.drv (h.pkts n k hk) hcmd (hn trivial))
  | start n k hk =>
      refine ⟨h.drv, h.pkts, fun e he => ?_⟩
      rcases List.mem_append.1 he with he | he
      · exact h.started e he
      · rw [List.mem_singleton.1 he]
        exact (h.pkts n k hk).started
  | complete n k hk flags vAddr resid => exact h.put n (h.pkts n k hk)
  | pktfree n =>
      refine ⟨h.drv, fun m k hm => ?_, h.started⟩
      dsimp only at hm
      by_cases hmn : m = n
      · rw [hmn, Function.update_self] at hm
        cases hm
      · rw [Function.update_of_ne hmn] at hm
        exact h.pkts m k hm
  | reset mult parmsOk multOk hr =>
      rcases reset_ok h.drv h.pkts (hr trivial) with ⟨hd, hp⟩
      exact ⟨hd, hp, h.started⟩

end Runs

/-- Host and drive agree on the block size of every PIO command. For every word
    of `IDENTIFY`, every value of the property and every run of allocations,
    setups, completions and bus resets, if
    * the block factor is less than 64 or `SET MULTIPLE` is refused, and the bytes
      of a block factor below 1 look like those of one sector,
    * a packet that has been narrowed to one sector, or was allocated for another
      block factor, is set up only for a retry, for a pass-through command, for
      DMA, or for one sector of a `MULTIPLE` command, and
    * a bus reset of a drive with `MULTIPLE` commands programs it again, or finds
      no packet that is not for DMA, and if not even the geometry can be
      programmed, the drive has kept its block factor,
    then the block size of every command that is started matches. -/
theorem pio_block_matches (maxTransfer : Nat) (ext48 : Bool) (s : PioSys)
    (hs : Reachable (PioStart True) (PioStep maxTransfer ext48 True) s) :
    ∀ e ∈ s.started, BlockOk e.1 e.2 := by
  refine (Reachable.invariant (I := PioOk) ?_ (fun _ _ _ h hst => hst.ok h) hs).started
  rintro ⟨drv, pkts, started⟩ ⟨mult1, prop, mult, multOk, rfl, rfl, rfl, hf⟩
  refine ⟨setupParms_ok (hf trivial), fun n k hk => ?_, fun e he => ?_⟩
  · cases hk
  · cases he

/-- A drive with 16 sectors a block. -/
def multDrive : DrvBlock := ⟨16, 8192, .rdmult, .wrmult, 16⟩

/-- It has one packet. -/
def onePkt (k : AtaDisk) : PioSys where
  drv := multDrive
  pkts := Function.update (fun _ => none) 0 (some k)
  started := []

/-- A read of sectors that are left. -/
def readLeft (bytes : Int) : Cmpkt := { bytexfer := bytes }

/-- The packet is set up for it. -/
def readSetup (k : AtaDisk) (bytes : Int) : AtaDisk :=
  (diskIosetup (multDrive.toDrv 256 false) k (readLeft bytes)).1

/-- A command ends. -/
def readEnd (k : AtaDisk) (error : Bool) (resid : Nat) : AtaDisk :=
  { k with
    pkt := { k.pkt with flags := { error := error, read := true }, vAddr := 0, resid := resid } }

section OnePkt

variable {strict : Prop} {k : AtaDisk}

theorem onePkt_put (k k' : AtaDisk) : (onePkt k).put 0 k' = onePkt k' := by
  unfold PioSys.put onePkt
  rw [Function.update_idem]

theorem onePkt_alloc (hf : strict → FactorOk 16 true) :
    Reachable (PioStart strict) (PioStep 256 false strict) (onePkt multDrive.newPkt) :=
  (Reachable.initial ⟨16, none, 0, true, rfl, rfl, rfl, hf⟩).tail
    (.pktalloc ⟨multDrive, fun _ => none, []⟩ 0 rfl)

theorem onePkt_setup {bytes : Int}
    (h : Reachable (PioStart strict) (PioStep 256 false strict) (onePkt k))
    (hn : strict → NotNarrow multDrive 256 false k (readLeft bytes)) :
    Reachable (PioStart strict) (PioStep 256 false strict) (onePkt (readSetup k bytes)) := by
  have hst := h.tail (.iosetup _ 0 k rfl (readLeft bytes) nofun hn)
  rw [onePkt_put] at hst
  exact hst

theorem onePkt_end (h : Reachable (PioStart strict) (PioStep 256 false strict) (onePkt k))
    (error : Bool) (resid : Nat) :
    Reachable (PioStart strict) (PioStep 256 false strict) (onePkt (readEnd k error resid)) := by
  have hst := h.tail (.complete _ 0 k rfl { error := error, read := true } 0 resid)
  rw [onePkt_put] at hst
  exact hst

end OnePkt

/-- A read of eight sectors fails in the second one and is sent again. The rest
    of the request is a `MULTIPLE` command with blocks of 512 bytes. -/
theorem pio_block_differs : ¬ ∀ s : PioSys,
    Reachable (PioStart False) (PioStep 256 false False) s → ∀ e ∈ s.started, BlockOk e.1 e.2 := by
  intro h
  have hno : False → FactorOk 16 true := fun hf => hf.elim
  have hany : ∀ k bytes, False → NotNarrow multDrive 256 false k (readLeft bytes) :=
    fun _ _ hf => hf.elim
  have hfirst := onePkt_setup (onePkt_alloc hno) (hany _ 4096)
  have hretry := onePkt_setup (onePkt_end hfirst true 3584) (hany _ 4096)
  have hnext := onePkt_setup (onePkt_end hretry false 0) (hany _ 3584)
  have hblock := h _ (hnext.tail (.start _ 0 _ rfl)) _ (List.mem_singleton.2 rfl) (Or.inl rfl)
  rcases hblock.2 rfl with hn | hn
  · exact absurd hn.2 (by decide)
  · exact absurd hn (by decide)

/-- A read of eight sectors in blocks of 16. -/
theorem pio_block_matches_read : ∃ k : AtaDisk, k.pkt.cmd = .rdmult ∧
    k.pkt.bytesPerBlock = 8192 ∧ BlockOk k.pkt 16 := by
  have halloc : Reachable (PioStart True) (PioStep 256 false True) (onePkt multDrive.newPkt) :=
    onePkt_alloc fun _ => Or.inl (by decide)
  have hwide : NotNarrow multDrive 256 false multDrive.newPkt (readLeft 4096) :=
    Or.inr (Or.inr (Or.inl rfl))
  have hset := onePkt_setup halloc fun _ => hwide
  have hsent := pio_block_matches 256 false _ (hset.tail (.start _ 0 _ rfl)) _
    (List.mem_append_right [] List.mem_cons_self)
  exact ⟨readSetup multDrive.newPkt 4096, rfl, rfl, hsent⟩

end Ata

end Sil3112
