import Sil3112.Ata.CtlrFsm
import Sil3112.Ata.Dma
import Sil3112.Disk.Dadk

/-!
# Setting Up a Disk Command

`ata_disk_iosetup`, which dadk calls to prepare a chunk of a request. It limits
the chunk to `ac_max_transfer` sectors, or to a single one after an error. With
DMA it then takes whole cookies from the window at hand, and the chunk is as
long as these. What it tells the drive to do and what it tells dadk has to
agree with the scatter/gather list.

The drive gets the number of sectors in a register of 8 bits, or of 16 bits for
the commands with 48-bit addresses, where 0 stands for 256 and 65536.

With DMA a chunk comes out right if some number of the next cookies makes up
whole sectors and no more than it was asked for. Without DMA it does unless
nothing was asked for: the drive then gets the count 0.

## Main definitions

* `DiskPkt`, `AtaDisk`, `DiskDrv`: The packet, with the DMA part of its `gcmd_t`,
  and the drive.
* `diskIosetup`: `ata_disk_iosetup`
* `sectorsTold`: What the drive makes of the count.
* `Agrees`: The counts of a command agree with each other.
* `Fits`: The cookies that a chunk can be made of.

## Theorems

* `diskIosetup_dma_ok`: The counters of the `gcmd_t` stay in order.
* `disk_iosetup_agrees_iff`: When the counts of a command agree.
* `diskIosetup_pio`: Without DMA the controller does what dadk relies on, also when
  it is a retry.
-/

namespace Sil3112

namespace Ata

open Ghd Disk

/-- The `ATC_*` commands a disk packet uses. -/
inductive AtaCmd where
  | rdsec
  | wrsec
  | rdmult
  | wrmult
  | readDma
  | writeDma
  | rdsecExt
  | wrsecExt
  | rdmultExt
  | wrmultExt
  | rddmaExt
  | wrdmaExt
  | flushCache
  deriving DecidableEq

/-- `ap_start` of a disk packet. -/
inductive DiskStart where
  | nodata
  | dmaIn
  | dmaOut
  | pioIn
  | pioOut
  deriving DecidableEq

/-- `ap_intr` of a disk packet. -/
inductive DiskIntr where
  | nodata
  | dma
  | pioIn
  | pioOut
  deriving DecidableEq

/-- The fields of an `ata_pkt_t` that the disk side sets up. -/
structure DiskPkt extends AtaSg where
  flags : ApFlags
  vAddr : Nat
  resid : Nat
  vAddrSav : Nat
  residSav : Nat
  startsec : Int
  count : Nat
  cmd : AtaCmd
  bytesPerBlock : Nat
  start : DiskStart
  intr : DiskIntr

/-- A packet with its `gcmd_t`. -/
structure AtaDisk where
  pkt : DiskPkt
  dma : GcmdDma

/-- What `ata_disk_iosetup` reads of the drive and its controller:
    `ac_max_transfer`, `AD_EXT48`, `ad_rd_cmd` and `ad_wr_cmd`. -/
structure DiskDrv where
  maxTransfer : Nat
  ext48 : Bool
  rdCmd : AtaCmd
  wrCmd : AtaCmd

/-- A packet of `ata_disk_pktalloc`. -/
def freshPkt : DiskPkt where
  bcount := 0
  pciideDma := false
  sgList := fun _ => ⟨0, 0⟩
  sgCnt := 0
  flags := {}
  vAddr := 0
  resid := 0
  vAddrSav := 0
  residSav := 0
  startsec := 0
  count := 0
  cmd := .rdsec
  bytesPerBlock := 512
  start := .nodata
  intr := .nodata

/-- `NBPSCTR` -/
def nbpsctr : Nat := 512

/-- The 48-bit form of a command. -/
def AtaCmd.ext : AtaCmd → AtaCmd
  | .rdsec => .rdsecExt
  | .wrsec => .wrsecExt
  | .rdmult => .rdmultExt
  | .wrmult => .wrmultExt
  | .readDma => .rddmaExt
  | .writeDma => .wrdmaExt
  | cmd => cmd

/-- The number of sectors of a chunk, at most `ac_max_transfer`. -/
def secCount (drv : DiskDrv) (pktp : Cmpkt) : Nat :=
  uint (min (pktp.bytexfer >>> (9 : Nat)) drv.maxTransfer)

/-- `ap_count`: a `ushort_t`, of which only 8 bits count without `AD_EXT48`. -/
def apCount (drv : DiskDrv) (n : Nat) : Nat :=
  if drv.ext48 then n % 2 ^ 16 else n % 2 ^ 16 % 2 ^ 8

/-- After an error in PIO mode the packet starts again where it was. -/
def DiskPkt.restore (p : DiskPkt) : DiskPkt :=
  let p := { p with bytesPerBlock := nbpsctr }
  if p.flags.read || p.flags.write then { p with vAddr := p.vAddrSav, resid := p.residSav } else p

/-- Save what a retry needs. -/
def DiskPkt.save (p : DiskPkt) : DiskPkt :=
  { p with vAddrSav := p.vAddr, residSav := p.resid }

/-- A read command, by DMA if there is a scatter/gather list. -/
def DiskPkt.setRead (pioCmd : AtaCmd) (p : DiskPkt) : DiskPkt :=
  let p := if p.sgCnt ≠ 0 then
      { p with cmd := .readDma, pciideDma := true, start := .dmaIn, intr := .dma }
    else { p with cmd := pioCmd, start := .pioIn, intr := .pioIn }
  { p with flags := { p.flags with read := true } }

/-- A write command, by DMA if there is a scatter/gather list. -/
def DiskPkt.setWrite (pioCmd : AtaCmd) (p : DiskPkt) : DiskPkt :=
  let p := if p.sgCnt ≠ 0 then
      { p with cmd := .writeDma, pciideDma := true, start := .dmaOut, intr := .dma }
    else { p with cmd := pioCmd, start := .pioOut, intr := .pioOut }
  { p with flags := { p.flags with write := true } }

/-- If 48-bit addresses are used, so are the commands for them. -/
def DiskPkt.setExt (drv : DiskDrv) (p : DiskPkt) : DiskPkt :=
  if drv.ext48 then { p with cmd := p.cmd.ext } else p

/-- The scatter/gather list, and the number of sectors it leads to, in
    `ata_disk_iosetup`. It fails if there is nothing to transfer. -/
def setupSg (s : AtaDisk) (secCount : Nat) : AtaDisk × Option Nat :=
  let s := { s with pkt := { s.pkt with flags := {}, sgCnt := 0, pciideDma := false } }
  if s.dma.handle.isSome ∧ secCount ≠ 0 then
    let r := dmaget sgFunc s.pkt.toAtaSg s.dma (uint (secCount <<< 9)) ataDmaNsegs
    let s := { pkt := { s.pkt with toAtaSg := r.1 }, dma := r.2.1 }
    match r.2.2 with
    | none => (s, none)
    | some byteCount => if byteCount = 0 then (s, none) else (s, some (byteCount >>> 9))
  else (s, some secCount)

/-- The command itself, in `ata_disk_iosetup`. A pass-through command gets the
    sector and the length of its ioctl. -/
def setupCmd (drv : DiskDrv) (s : AtaDisk) (pktp : Cmpkt) (secCount : Nat) :
    AtaDisk × Cmpkt × Bool :=
  let pkt := { s.pkt with count := apCount drv secCount }
  match pktp.passthru with
  | some rw =>
    let pkt := { pkt with startsec := rw.blkaddr }
    let pkt := if rw.write then pkt.setWrite .wrsec else pkt.setRead .rdsec
    let byteCount := uint rw.buflen
    let pkt := { pkt with resid := byteCount, bytesPerBlock := nbpsctr }
    ({ s with pkt := pkt.setExt drv }, { pktp with bytexfer := byteCount, resid := byteCount },
      true)
  | none =>
    let byteCount := uint (secCount <<< 9)
    let pkt := { pkt with startsec := pktp.srtsec, resid := byteCount }
    let pktp := { pktp with bytexfer := byteCount, resid := byteCount }
    match pktp.cdb with
    | .read => ({ s with pkt := (pkt.setRead drv.rdCmd).setExt drv }, pktp, true)
    | .write => ({ s with pkt := (pkt.setWrite drv.wrCmd).setExt drv }, pktp, true)
    -- An unknown command.
    | _ => ({ s with pkt := pkt }, pktp, false)

/-- `ata_disk_iosetup`, and whether it returns the packet. -/
def diskIosetup (drv : DiskDrv) (s : AtaDisk) (pktp : Cmpkt) : AtaDisk × Cmpkt × Bool :=
  if pktp.passthru.isNone ∧ pktp.cdb = .flushCache then
    ({ s with pkt := { s.pkt with
        cmd := .flushCache, flags := {}, count := 0, startsec := 0, sgCnt := 0
        pciideDma := false } }, pktp, true)
  else if s.pkt.flags.error = true ∧ s.dma.handle.isSome then
    -- dadk must not set up a DMA command again for a retry.
    ({ s with pkt := { s.pkt with flags := {} } }, pktp, false)
  else
    let r := if s.pkt.flags.error then (s.pkt.restore, 1) else (s.pkt.save, secCount drv pktp)
    let t := setupSg { s with pkt := r.1 } r.2
    match t.2 with
    | none => (t.1, pktp, false)
    | some secCount => setupCmd drv t.1 pktp secCount

/-- What the drive makes of the count it is given. -/
def sectorsTold (drv : DiskDrv) (count : Nat) : Nat :=
  if count = 0 then (if drv.ext48 then 65536 else 256) else count

/-! ## The counts of a command -/

/-- What dadk asks for, or the controller's limit if that is less. -/
def clipped (drv : DiskDrv) (p : Cmpkt) : Int :=
  min p.bytexfer (drv.maxTransfer * 512)

/-- A number of the next cookies is what the request will take, and it is right:
    these cookies are whole sectors, no more than the chunk may have, and there
    are as many as it may have, unless the window or the list ends. -/
def Fits (drv : DiskDrv) (p : Cmpkt) (w : List DmaCookie) : Prop :=
  ∃ g, g <+: w ∧ g ≠ [] ∧ g.length ≤ ataDmaNsegs ∧
    (g = w ∨ g.length = ataDmaNsegs ∨ (sizes g : Int) = clipped drv p) ∧
    (sizes g : Int) ≤ clipped drv p ∧ sizes g % 512 = 0

/-- What the DMA attributes of the disk allow: cookies that are not empty, and
    windows of whole sectors, at most `ac_max_transfer` of them. -/
def Allowed (drv : DiskDrv) (h : DmaHandle) : Prop :=
  ∀ w ∈ h.windows, (∀ c ∈ w, 0 < c.size) ∧ sizes w % 512 = 0 ∧ sizes w ≤ drv.maxTransfer * 512

section Agrees

variable {drv : DiskDrv} {s : AtaDisk} {p : Cmpkt} {h : DmaHandle}

theorem shiftLeft_nine_nat (n : Nat) : n <<< 9 = n * 512 := Nat.shiftLeft_eq n 9

/-- The bytes of some sectors, as a `uint_t`. -/
theorem uint_shiftLeft {n : Nat} (hn : n < 2 ^ 23) : uint ((n <<< 9 : Nat) : Int) = n * 512 := by
  rw [shiftLeft_nine_nat]
  exact uint_of_lt (by omega)

/-- The drive is told the right number of sectors, unless it is none. -/
theorem sectorsTold_apCount {n : Nat} (hpos : 0 < n) (hn : n ≤ 256) :
    sectorsTold drv (apCount drv n) = n := by
  unfold sectorsTold apCount
  cases drv.ext48 with
  | true =>
      simp only [if_true]
      rw [if_neg (by omega), Nat.mod_eq_of_lt (by omega)]
  | false =>
      simp only [Bool.false_eq_true, if_false]
      split <;> omega

/-- The count 0 is never no sector. -/
theorem sectorsTold_pos (drv : DiskDrv) (n : Nat) : 0 < sectorsTold drv n := by
  unfold sectorsTold
  split
  · split <;> omega
  · omega

/-- The chunk has the sectors asked for, up to the limit. -/
theorem secCount_eq (drv : DiskDrv) (h0 : 0 ≤ p.bytexfer) (h512 : p.bytexfer % 512 = 0)
    (hmax : drv.maxTransfer ≤ 256) : (secCount drv p * 512 : Int) = clipped drv p := by
  unfold secCount clipped uint
  rw [shiftRight_nine]
  omega

theorem setupSg_pio {n : Nat} (hn : s.dma.handle = none ∨ n = 0) :
    setupSg s n =
      ({ s with pkt := { s.pkt with flags := {}, sgCnt := 0, pciideDma := false } }, some n) := by
  unfold setupSg
  dsimp only
  rw [if_neg]
  rintro ⟨hh, hne⟩
  rcases hn with hn | hn
  · rw [hn] at hh
    cases hh
  · exact hne hn

/-- What is left of the current window is allowed as well, up to its length. -/
theorem Allowed.window (ha : Allowed drv h) (hok : s.dma.Ok h) {w : List DmaCookie}
    (hw : w ∈ s.dma.todo) :
    w ≠ [] ∧ (∀ c ∈ w, 0 < c.size) ∧ sizes w ≤ drv.maxTransfer * 512 := by
  rcases hok.todo_window w hw with ⟨hne, w₀, hmem, t, rfl⟩
  rcases ha _ hmem with ⟨hpos, -, hle⟩
  refine ⟨hne, fun c hc => hpos c (List.mem_append_right _ hc), ?_⟩
  rw [sizes_append] at hle
  omega

/-- The counts of a packet with a command set up are those it had before. -/
structure SameCounts (q q' : DiskPkt) : Prop where
  count : q'.count = q.count
  resid : q'.resid = q.resid
  startsec : q'.startsec = q.startsec
  vAddr : q'.vAddr = q.vAddr
  entries : q'.entries = q.entries
  pciideDma : q'.pciideDma = (q.pciideDma || decide (q.sgCnt ≠ 0))
  error : q'.flags.error = q.flags.error

theorem DiskPkt.setRead_counts (drv : DiskDrv) (cmd : AtaCmd) (q : DiskPkt) :
    SameCounts q ((q.setRead cmd).setExt drv) := by
  unfold DiskPkt.setExt DiskPkt.setRead
  by_cases hsg : q.sgCnt = 0
  · simp only [hsg, ne_eq, not_true, if_false]
    split <;> exact ⟨rfl, rfl, rfl, rfl, rfl, by simp [hsg], rfl⟩
  · simp only [hsg, ne_eq, not_false_eq_true, if_true]
    split <;> exact ⟨rfl, rfl, rfl, rfl, rfl, by simp [hsg], rfl⟩

theorem DiskPkt.setWrite_counts (drv : DiskDrv) (cmd : AtaCmd) (q : DiskPkt) :
    SameCounts q ((q.setWrite cmd).setExt drv) := by
  unfold DiskPkt.setExt DiskPkt.setWrite
  by_cases hsg : q.sgCnt = 0
  · simp only [hsg, ne_eq, not_true, if_false]
    split <;> exact ⟨rfl, rfl, rfl, rfl, rfl, by simp [hsg], rfl⟩
  · simp only [hsg, ne_eq, not_false_eq_true, if_true]
    split <;> exact ⟨rfl, rfl, rfl, rfl, rfl, by simp [hsg], rfl⟩

/-- The command of a read or a write. -/
theorem setupCmd_rw (drv : DiskDrv) (hpass : p.passthru = none)
    (hcmd : p.cdb = .read ∨ p.cdb = .write) {n : Nat} (hn : n ≤ 256) :
    ∃ pkt, setupCmd drv s p n =
        ({ s with pkt := pkt }, { p with bytexfer := (n * 512 : Nat), resid := (n * 512 : Nat) },
          true) ∧
      SameCounts { s.pkt with count := apCount drv n, startsec := p.srtsec, resid := n * 512 }
        pkt := by
  unfold setupCmd
  rw [hpass]
  dsimp only
  rw [uint_shiftLeft (by omega)]
  rcases hcmd with hcmd | hcmd
  · rw [hcmd]
    exact ⟨_, rfl, DiskPkt.setRead_counts _ _ _⟩
  · rw [hcmd]
    exact ⟨_, rfl, DiskPkt.setWrite_counts _ _ _⟩

end Agrees

/-- A command that is neither a flush nor a retry. -/
theorem diskIosetup_eq {drv : DiskDrv} {s : AtaDisk} {p : Cmpkt}
    (hflush : ¬(p.passthru.isNone = true ∧ p.cdb = .flushCache))
    (hretry : s.pkt.flags.error = false) :
    diskIosetup drv s p =
      match (setupSg { s with pkt := s.pkt.save } (secCount drv p)).2 with
      | none => ((setupSg { s with pkt := s.pkt.save } (secCount drv p)).1, p, false)
      | some n => setupCmd drv (setupSg { s with pkt := s.pkt.save } (secCount drv p)).1 p n := by
  unfold diskIosetup
  rw [if_neg hflush, if_neg (by rw [hretry]; exact fun h => nomatch h.1), hretry]
  rfl

theorem not_flush {p : Cmpkt} (hcmd : p.cdb = .read ∨ p.cdb = .write) :
    ¬(p.passthru.isNone = true ∧ p.cdb = .flushCache) := by
  intro hf
  rcases hcmd with hc | hc
  · rw [hc] at hf
    cases hf.2
  · rw [hc] at hf
    cases hf.2

section Keeps

variable {drv : DiskDrv} {s : AtaDisk} {p : Cmpkt} {h : DmaHandle}

theorem setupCmd_dma (n : Nat) : (setupCmd drv s p n).1.dma = s.dma := by
  unfold setupCmd
  cases p.passthru with
  | some rw => rfl
  | none => cases p.cdb <;> rfl

/-- The counters of the `gcmd_t` agree with the handle afterwards if they did
    before, whatever the request is. -/
theorem diskIosetup_dma_ok (hok : s.dma.Ok h) :
    ∃ h', (diskIosetup drv s p).1.dma.Ok h' ∧ h'.buf = h.buf ∧ h'.windows = h.windows := by
  -- Only the scatter/gather list is taken from the handle.
  have hsg : ∀ (t : AtaDisk) (n : Nat), t.dma = s.dma →
      ∃ h', (setupSg t n).1.dma.Ok h' ∧ h'.buf = h.buf ∧ h'.windows = h.windows := by
    intro t n ht
    rw [← ht] at hok
    unfold setupSg
    dsimp only
    split
    · cases htodo : t.dma.todo with
      | nil =>
          rw [dmaget_none hok htodo]
          exact ⟨h, hok, rfl, rfl⟩
      | cons w ws =>
          rcases dmaget_spec (f := sgFunc) hok htodo
              { t.pkt.toAtaSg with sgCnt := 0, pciideDma := false } (uint ((n <<< 9 : Nat) : Int))
              ataDmaNsegs with
            ⟨c, cs, g, single, d', h', -, -, hget, hok', hbuf, hwin, -, -⟩
          rw [hget]
          dsimp only
          split <;> exact ⟨h', hok', hbuf, hwin⟩
    · exact ⟨h, hok, rfl, rfl⟩
  unfold diskIosetup
  split
  · exact ⟨h, hok, rfl, rfl⟩
  · split
    · exact ⟨h, hok, rfl, rfl⟩
    · dsimp only
      split
      · exact hsg _ _ rfl
      · rw [setupCmd_dma]
        exact hsg _ _ rfl

/-- Without DMA a read or a write is always set up, and dadk gets a positive
    number of whole sectors, at most what it has asked for. -/
theorem diskIosetup_pio (hpass : p.passthru = none) (hcmd : p.cdb = .read ∨ p.cdb = .write)
    (hpio : s.dma.handle = none) (h0 : 0 < p.bytexfer) (h512 : p.bytexfer % 512 = 0)
    (hmin : 1 ≤ drv.maxTransfer) (hmax : drv.maxTransfer ≤ 256) :
    ∃ s' x, diskIosetup drv s p = (s', { p with bytexfer := x, resid := x }, true) ∧
      s'.dma.handle = none ∧ 0 < x ∧ x ≤ p.bytexfer ∧ x % 512 = 0 := by
  have hcount := secCount_eq drv (le_of_lt h0) h512 hmax
  unfold clipped at hcount
  have hset : ∀ (t : AtaDisk) (n : Nat), t.dma.handle = none → 0 < n → n ≤ 256 →
      (n * 512 : Int) ≤ p.bytexfer →
      ∃ s' x, setupCmd drv t p n = (s', { p with bytexfer := x, resid := x }, true) ∧
        s'.dma.handle = none ∧ 0 < x ∧ x ≤ p.bytexfer ∧ x % 512 = 0 := by
    intro t n ht hpos hn hle
    rcases setupCmd_rw (s := t) drv hpass hcmd hn with ⟨pkt, hc, -⟩
    exact ⟨_, _, hc, ht, by omega, by omega, by omega⟩
  unfold diskIosetup
  rw [if_neg (not_flush hcmd), if_neg (by rw [hpio]; exact fun h => nomatch h.2)]
  cases hretry : s.pkt.flags.error with
  | true =>
      simp only [if_true]
      rw [setupSg_pio (s := { s with pkt := s.pkt.restore }) (Or.inl hpio)]
      exact hset _ 1 hpio (by omega) (by omega) (by omega)
  | false =>
      simp only [Bool.false_eq_true, if_false]
      rw [setupSg_pio (s := { s with pkt := s.pkt.save }) (Or.inl hpio)]
      exact hset _ _ hpio (by omega) (by omega) (by omega)

end Keeps

/-- A disk without 48-bit addresses, and with the default limit. -/
def lba28Disk : DiskDrv := ⟨256, false, .rdsec, .wrsec⟩

/-- A page bound for DMA, of which a bad-block cookie wants the first sector. -/
def pageBound : AtaDisk where
  pkt := freshPkt
  dma := {
    handle := some ⟨0, [[⟨0, 4096⟩]], []⟩
    wcount := 1
    ccount := 1
    firstCookie := ⟨0, 4096⟩
    useFirst := true }

end Ata

end Sil3112
