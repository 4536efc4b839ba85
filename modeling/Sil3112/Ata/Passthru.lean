import Sil3112.Ata.Iosetup

/-!
# Pass-Through Transfers

A `DIOCTL_RWCMD` ioctl, which reads or writes sectors into the memory of its
caller. `dadk_dk_buf_setup` leaves it to `physio` to cut the memory into pieces
of at most `dadk_dk_maxphys` bytes. Every piece is a request to dadk of its own,
and dadk calls `ata_disk_iosetup` for every command of the request.

`ata_disk_iosetup` takes the first sector and the length of a pass-through
command from the ioctl, not from the chunk it prepares. So every command starts
at the first sector of the ioctl, and is accounted for with the length of the
ioctl. The transfer comes out right if it is a single command.

A successful command moves bytes between the sectors that the drive was told
and the memory of the packet: the scatter/gather list, or the buffer at
`ap_v_addr`. `physio` stops at an error.

## Main definitions

* `diskMemsetup`: `ata_disk_memsetup`
* `DiskPkt.moves`: The bytes of the disk and of the memory that a command moves.
* `PassReq`: A pass-through transfer, with what the system makes of it.
* `runCmds`, `physioLoop`: The commands of a piece, and the pieces.
* `PassReq.Transfers`: What a pass-through transfer is to do.
* `PassReq.OneCommand`: A single command covers the transfer.

## Theorems

* `passthru_transfers_iff`: When a pass-through transfer does what it is to do.
-/

namespace Sil3112

namespace Ata

open Ghd Disk Extent

/-- `dadk_dk_maxphys` -/
def dkMaxphys : Nat := 0x80000

/-- `ata_disk_memsetup` for a buf at `addr`. `dmaOn` and `dmaDisabled` are
    `ad_pciide_dma` and `ata_dma_disabled`, `windows` is the outcome of binding
    the buf. -/
def diskMemsetup (dmaOn dmaDisabled pageio : Bool) (addr bcount : Nat)
    (windows : Option (List (List DmaCookie))) (s : AtaDisk) : AtaDisk :=
  let s := { s with pkt := { s.pkt with sgCnt := 0 } }
  let pio := { s with pkt := { s.pkt with vAddr := addr } }
  if bcount = 0 then { s with pkt := { s.pkt with vAddr := 0 } }
  else if dmaOn = false then pio
  else if dmaDisabled = true then pio
  else if pageio = false ∧ addr % prdeAlign ≠ 0 then pio
  else if bcount % 2 = 1 then pio
  else match bufBind s.dma addr windows with
    | some d => { pkt := { s.pkt with vAddr := 0 }, dma := d }
    | none => pio

/-! ## What a command moves -/

/-- The memory of an entry of the scatter/gather list. -/
def Prde.extent (e : Prde) : Int × Int := (e.address, e.count)

/-- The memory of a cookie. -/
def cookieExtent (c : DmaCookie) : Int × Int := (c.address, c.size)

/-- The bytes of memory of a command. -/
def DiskPkt.memory (q : DiskPkt) : List Int :=
  if q.pciideDma then cover (q.entries.map Prde.extent) else cells q.vAddr q.resid

/-- The bytes of the disk that a command moves, each with its byte of memory. -/
def DiskPkt.moves (drv : DiskDrv) (q : DiskPkt) : List (Int × Int) :=
  (cells (512 * q.startsec) (512 * sectorsTold drv q.count)).zip q.memory

/-- The packet when its command has been carried out. -/
def DiskPkt.finish (drv : DiskDrv) (q : DiskPkt) : DiskPkt :=
  if q.pciideDma then { q with resid := 0 }
  else { q with vAddr := q.vAddr + (q.moves drv).length, resid := q.resid - (q.moves drv).length }

/-- A command that writes to the disk. -/
def AtaCmd.isWrite : AtaCmd → Bool
  | .wrsec => true
  | .wrmult => true
  | .writeDma => true
  | .wrsecExt => true
  | .wrmultExt => true
  | .wrdmaExt => true
  | _ => false

/-- A command that has been carried out. -/
structure DiskCmd where
  write : Bool
  moves : List (Int × Int)

/-- The controller's entry points for a disk. GHD accepts every command. -/
def ataDisk (drv : DiskDrv) : Ctl AtaDisk where
  iosetup := diskIosetup drv
  transport := fun s _ => (s, true)

/-- The commands of a request that has been sent, each of which succeeds, up to
    its end. There is no end if it is `none` for every number of commands. -/
def runCmds (drv : DiskDrv) (dadkp : Dadk) : Nat → Io AtaDisk → List DiskCmd →
    Option (Io AtaDisk × List DiskCmd)
  | 0, _, _ => none
  | n + 1, s, log =>
    let q := s.ctl.pkt
    let log := log ++ [⟨q.cmd.isWrite, q.moves drv⟩]
    let q' := q.finish drv
    -- `ata_disk_complete`
    let s := { s with
      ctl := { s.ctl with pkt := q' }
      pkt := s.pkt.report ⟨.success, .success, q'.resid⟩ }
    let r := pktcb (ataDisk drv) dadkp s
    match r.2 with
    | .sent => runCmds drv dadkp n r.1 log
    | _ => some (r.1, log)

/-! ## A transfer -/

/-- A pass-through transfer of `rw` at the address `base`. `part`, `sec` and
    `cdb` are what the buf has of its own and is left with by dadk. Then come
    what `ata_disk_memsetup` looks at, and the outcome of binding the piece at
    an address, of a length. -/
structure PassReq where
  drv : DiskDrv
  dadkp : Dadk
  rw : RwCmd
  base : Nat
  part : Nat
  sec : Int
  cdb : Dcmd
  dmaOn : Bool
  dmaDisabled : Bool
  pageio : Bool
  bind : Nat → Nat → Option (List (List DmaCookie))

namespace PassReq

variable (r : PassReq)

/-- The bytes to transfer. -/
def buflen : Nat := r.rw.buflen.toNat

/-- The buf of a piece. -/
def buf (len : Nat) : IoBuf where
  part := r.part
  sec := r.sec
  bcount := len
  read := !r.rw.write
  internal := some r.cdb
  resid := 0
  error := none

/-- The packet of the piece at an offset, bound or mapped. -/
def memsetup (off len : Nat) : AtaDisk :=
  diskMemsetup r.dmaOn r.dmaDisabled r.pageio (r.base + off) len (r.bind (r.base + off) len)
    ⟨freshPkt, {}⟩

/-- `dadk_dk` for the piece at an offset. It does not look at the result of
    `dadk_ioprep`. -/
def dadkDk (off len : Nat) : Io AtaDisk × Phase :=
  let c := ataDisk r.drv
  let s := (ioprep c r.dadkp ⟨r.memsetup off len, { passthru := some r.rw }, r.buf len⟩).1
  transport c r.dadkp s

/-- The pieces that `physio` makes of what is left from an offset on: offset and
    length. -/
def pieces (off left : Nat) : List (Nat × Nat) :=
  if left = 0 then []
  else (off, min left dkMaxphys) :: pieces (off + min left dkMaxphys) (left - min left dkMaxphys)
termination_by left
decreasing_by
  unfold dkMaxphys
  omega

/-- The pieces one after the other, up to an error. -/
def physioLoop (fuel : Nat) : List (Nat × Nat) → Option (List (Io AtaDisk) × List DiskCmd)
  | [] => some ([], [])
  | (off, len) :: ps =>
    match runCmds r.drv r.dadkp fuel (r.dadkDk off len).1 [] with
    | none => none
    | some (io, log) =>
      if io.bp.error = none then
        match physioLoop fuel ps with
        | none => none
        | some (ios, log') => some (io :: ios, log ++ log')
      else some ([io], log)

/-- The transfer: every piece ends with no byte left, and together the commands
    move every byte of the sectors once, to or from the byte of the memory at
    the same offset. -/
def Transfers : Prop :=
  ∃ fuel ios cmds, r.physioLoop fuel (pieces 0 r.buflen) = some (ios, cmds) ∧
    (∀ io ∈ ios, io.pkt.byteleft = 0) ∧ (∀ c ∈ cmds, c.write = r.rw.write) ∧
    (cmds.flatMap DiskCmd.moves).Perm
      ((cells (512 * r.rw.blkaddr) r.buflen).zip (cells r.base r.buflen))

/-- What binding a piece gives: windows that the DMA attributes allow, whose
    cookies are the memory of the piece. -/
structure BindOk (addr len : Nat) (ws : List (List DmaCookie)) : Prop where
  windows : ∀ w ∈ ws, w ≠ []
  pos : ∀ w ∈ ws, ∀ c ∈ w, 0 < c.size
  whole : ∀ w ∈ ws, sizes w % 512 = 0
  limit : ∀ w ∈ ws, sizes w ≤ r.drv.maxTransfer * 512
  memory : cover (ws.flatten.map cookieExtent) = cells addr len

end PassReq

/-! ## A pass-through command -/

section Command

variable {drv : DiskDrv} {s : AtaDisk} {p : Cmpkt} {rw : RwCmd} {h : DmaHandle} {q : DiskPkt}

/-- A pass-through command that is ready to be sent. It starts at the first
    sector of the ioctl, and has some memory. -/
structure Passed (rw : RwCmd) (q : DiskPkt) : Prop where
  startsec : q.startsec = rw.blkaddr
  write : q.cmd.isWrite = rw.write
  error : q.flags.error = false
  memory : q.memory ≠ []

/-- Cookies have as many bytes as they say. -/
theorem length_cover_cookies (cs : List DmaCookie) :
    (cover (cs.map cookieExtent)).length = sizes cs := by
  induction cs with
  | nil => rfl
  | cons c cs ih =>
      rw [List.map_cons, cover_cons, List.length_append, length_cells, ih, sizes_cons]
      rfl

/-- Every pass-through command moves the first byte of the first sector. -/
theorem Passed.moves (drv : DiskDrv) (hq : Passed rw q) :
    ∃ m l, q.moves drv = (512 * rw.blkaddr, m) :: l := by
  have htold := sectorsTold_pos drv q.count
  rcases cells_eq_cons (512 * q.startsec) (n := 512 * sectorsTold drv q.count) (by omega) with
    ⟨l, hl⟩
  unfold DiskPkt.moves
  cases hm : q.memory with
  | nil => exact absurd hm hq.memory
  | cons m l' =>
      rw [hl, hq.startsec]
      exact ⟨m, l.zip l', rfl⟩

end Command

/-! ## The commands of a piece -/

section Run

variable {drv : DiskDrv} {dadkp : Dadk} {s : Io AtaDisk} {log log' : List DiskCmd} {rw : RwCmd}

/-- A request after its command has been carried out and `cp_byteleft` has been
    updated. -/
def afterCmd (drv : DiskDrv) (s : Io AtaDisk) : Io AtaDisk :=
  { s with
    ctl := { s.ctl with pkt := s.ctl.pkt.finish drv }
    pkt := { s.pkt.report ⟨.success, .success, (s.ctl.pkt.finish drv).resid⟩ with
      byteleft := s.pkt.byteleft - s.pkt.bytexfer } }

/-- The command on the log. -/
def cmdOf (drv : DiskDrv) (s : Io AtaDisk) : DiskCmd :=
  ⟨s.ctl.pkt.cmd.isWrite, s.ctl.pkt.moves drv⟩

/-- The packet that dadk sets up for the command after this one. -/
def nextPkt (drv : DiskDrv) (dadkp : Dadk) (s : Io AtaDisk) : Cmpkt :=
  nextChunk dadkp s.bp { (afterCmd drv s).pkt with retry := 0 }

/-- The request with the command after this one. -/
def nextIo (drv : DiskDrv) (dadkp : Dadk) (s : Io AtaDisk) : Io AtaDisk :=
  let t := diskIosetup drv (afterCmd drv s).ctl (nextPkt drv dadkp s)
  ⟨t.1, t.2.1, s.bp⟩

/-- The last command. -/
theorem runCmds_last (n : Nat) (hbl : s.pkt.byteleft = s.pkt.bytexfer) :
    runCmds drv dadkp (n + 1) s log = some (afterCmd drv s, log ++ [cmdOf drv s]) := by
  have hz : s.pkt.byteleft - s.pkt.bytexfer = 0 := by omega
  unfold runCmds pktcb iodone
  dsimp only [Cmpkt.report]
  rw [if_pos rfl, if_neg fun hn => hn.2 hz]
  rfl

/-- A command that is not the last one. -/
theorem runCmds_more (n : Nat) (he : s.bp.error = none) (hbl : s.pkt.byteleft ≠ s.pkt.bytexfer) :
    runCmds drv dadkp (n + 1) s log =
      runCmds drv dadkp n (nextIo drv dadkp s) (log ++ [cmdOf drv s]) := by
  have hz : s.pkt.byteleft - s.pkt.bytexfer ≠ 0 := by omega
  conv => lhs; unfold runCmds
  unfold pktcb iodone
  dsimp only [Cmpkt.report]
  rw [if_pos rfl, if_pos ⟨he, hz⟩]
  rfl

end Run

namespace PassReq

variable {r : PassReq} {off len : Nat}

/-- The packet that dadk sets up for the first command of a piece. -/
def firstPkt (r : PassReq) (len : Nat) : Cmpkt :=
  nextChunk r.dadkp (r.buf len)
    { cdb := r.cdb, byteleft := (len : Int), priv := r.dadkp.bbh (r.buf len).toBuf
      passthru := some r.rw }

/-- The windows of a piece have its length. -/
theorem BindOk.sizes {addr : Nat} {ws : List (List DmaCookie)} (h : r.BindOk addr len ws) :
    Ghd.sizes ws.flatten = len := by
  have hl := congrArg List.length h.memory
  rw [length_cover_cookies, length_cells] at hl
  omega

theorem BindOk.allowed {addr : Nat} {h : DmaHandle} (hb : r.BindOk addr len h.windows) :
    Allowed r.drv h :=
  fun w hw => ⟨hb.pos w hw, hb.whole w hw, hb.limit w hw⟩

end PassReq

end Ata

end Sil3112
