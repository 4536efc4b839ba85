import Sil3112.Disk.Bbh
import Sil3112.Lib.Transition

/-!
# The Direct Access Disk Driver

How `dadk.c` carries out a `buf`. The request is cut into cookies by the
bad-block code, and each cookie into chunks by the controller, which may set up
less than it is asked for. `cp_secleft` counts down the cookie at hand,
`cp_byteleft` the whole request, and `cp_bytexfer` is the chunk: what dadk asks
for before `CTL_IOSETUP`, and what the controller has set up after it.

A chunk that fails is set up and sent again, up to `DADK_RETRY_COUNT` times,
and again after a delay if the drive was busy. A failed chunk may come back
smaller, and the sectors it has lost are asked for with the next one.

The controller is a parameter: `CTL_IOSETUP` and `CTL_TRANSPORT` are functions
of a state of its own, which may also change by itself at any time. The flow
control code is reduced to its effect on one request, which is to transport a
prepared packet once.

`seccnt` is an `int` in the source. It is the number of sectors of a chunk.

## Main definitions

* `Cmpkt`, `IoBuf`, `Io`: The packet, the buf, and both with the controller.
* `iosetup`, `ioprep`, `ioretry`, `iodone`, `chkerr`, `pktcb`, `transport`,
  `restart`: The functions of `dadk.c`.
* `DadkRun`, `DadkStep`: A request on its way, and what can happen to it.
* `Live`, `Ordered`: The invariant of a request.

## Theorems

* `Ctl.Steps.pktcb`: What the entry points of a controller keep, dadk keeps.
* `ioretry_live`, `iodone_ordered`, `pktcb_ordered`: What a retry, the end of a
  chunk and a completion keep.
* `dadk_covers_in_order`: A request is carried out once and in order.
* `isRequest_of_gethandle`: With the alternates of `cmdk.c`, what is carried out
  is the remapped request.
-/

namespace Sil3112

namespace Disk

open Extent Transition

/-- The commands of a packet. -/
inductive Dcmd where
  | read
  | write
  | flushCache
  | getdef
  deriving DecidableEq

/-- The errors dadk records on a buf. -/
inductive Errno where
  | enxio
  | eio
  | enotsup
  | erofs
  deriving DecidableEq

/-- The status codes of a controller. -/
inductive Derr where
  | success
  | amnf
  | tkonf
  | abort
  | dwf
  | idnf
  | busy
  | unc
  | bbk
  | invcdb
  | hard
  | ili
  | eom
  | mcr
  | recover
  | notready
  | medium
  | hw
  | ill
  | unitAttn
  | dataProt
  | miscompare
  | icrc
  | resv
  deriving DecidableEq

/-- What dadk does about a failed command. -/
inductive Action where
  | commandDone
  | commandDoneError
  | queCommand
  | justReturn
  deriving DecidableEq

/-- `dadk_errtab` -/
def errtab : Derr → Action
  | .success => .commandDone
  | .amnf => .queCommand
  | .tkonf => .queCommand
  | .abort => .commandDoneError
  | .dwf => .queCommand
  | .idnf => .queCommand
  | .busy => .justReturn
  | .unc => .queCommand
  | .bbk => .queCommand
  | .invcdb => .commandDoneError
  | .hard => .commandDoneError
  | .ili => .commandDoneError
  | .eom => .commandDoneError
  | .mcr => .commandDone
  | .recover => .commandDone
  | .notready => .commandDoneError
  | .medium => .queCommand
  | .hw => .commandDoneError
  | .ill => .commandDone
  | .unitAttn => .commandDone
  | .dataProt => .commandDoneError
  | .miscompare => .commandDoneError
  | .icrc => .queCommand
  | .resv => .commandDoneError

/-- `DADK_RETRY_COUNT` -/
def dadkRetryCount : Nat := 5

/-- `struct dadkio_rwcmd`, the packet of a pass-through ioctl. -/
structure RwCmd where
  write : Bool
  blkaddr : Int
  buflen : Int

/-- A `struct buf`. `internal` is the command of a buf that dadk has made for
    itself, which the source recognises by its `b_forw`. -/
structure IoBuf extends Buf where
  read : Bool
  internal : Option Dcmd
  resid : Int
  error : Option Errno

/-- `cp_reason` -/
inductive Reason where
  | success
  | chkerr
  | failure
  deriving DecidableEq

/-- `struct cmpkt`, as a fresh packet has it. `scb` is what `cp_scbp` points
    to, and `priv` the bad-block handle. -/
structure Cmpkt where
  cdb : Dcmd := .read
  scb : Derr := .success
  reason : Reason := .success
  resid : Int := 0
  byteleft : Int := 0
  bytexfer : Int := 0
  srtsec : Int := 0
  secleft : Int := 0
  retry : Nat := 0
  priv : Option BbhHandle := none
  passthru : Option RwCmd := none

/-- The parts of a `struct dadk` that a transfer uses. `bbh` is the bad-block
    code it was given. -/
structure Dadk where
  secshf : Nat
  blkshf : Nat
  rdonly : Bool
  cdrom : Bool
  bbh : Buf → Option BbhHandle

/-- `DAD_SECSIZ` -/
def Dadk.secsiz (dadkp : Dadk) : Nat :=
  2 ^ dadkp.secshf

/-- The controller's entry points. `iosetup` also says whether it succeeded,
    and `transport` whether the command was sent. -/
structure Ctl (σ : Type) where
  iosetup : σ → Cmpkt → σ × Cmpkt × Bool
  transport : σ → Cmpkt → σ × Bool

/-- A request: the controller's state, the packet and the buf. -/
structure Io (σ : Type) where
  ctl : σ
  pkt : Cmpkt
  bp : IoBuf

/-- What a controller reports of a command. -/
structure Completion where
  reason : Reason
  scb : Derr
  resid : Int

/-- Where a request is: prepared, with the controller, waiting for
    `DADK_BSY_TIMEOUT` after the drive was busy, or finished. -/
inductive Phase where
  | ready
  | sent
  | waiting
  | done
  deriving DecidableEq

section Functions

variable {σ : Type} (c : Ctl σ) (dadkp : Dadk)

/-- `bioerror` -/
def bioerror (s : Io σ) (e : Errno) : Io σ :=
  { s with bp := { s.bp with error := some e } }

/-- `CTL_IOSETUP` -/
def ctlIosetup (s : Io σ) : Io σ × Bool :=
  let r := c.iosetup s.ctl s.pkt
  ({ s with ctl := r.1, pkt := r.2.1 }, r.2.2)

/-- `CTL_TRANSPORT`, true for `CTL_SEND_SUCCESS`. -/
def ctlTransport (s : Io σ) : Io σ × Bool :=
  let r := c.transport s.ctl s.pkt
  ({ s with ctl := r.1 }, r.2)

/-- The first cookie of the request or the next one, in `dadk_iosetup`. -/
def nextCookie (bp : IoBuf) (pktp : Cmpkt) : Cmpkt :=
  match pktp.priv with
  | none => { pktp with srtsec := bp.sec, secleft := (bp.bcount >>> dadkp.secshf : Nat) }
  | some hp =>
    { pktp with
      srtsec := (htoc hp).1.sector
      secleft := (htoc hp).1.seclen
      priv := some (htoc hp).2 }

/-- What `dadk_iosetup` asks the controller for: the rest of the cookie. -/
def wholeCookie (pktp : Cmpkt) : Cmpkt :=
  { pktp with bytexfer := pktp.secleft <<< dadkp.secshf }

/-- The part of `dadk_iosetup` before `CTL_IOSETUP`: the next chunk is the rest
    of the cookie at hand, or the whole of the next cookie. -/
def nextChunk (bp : IoBuf) (pktp : Cmpkt) : Cmpkt :=
  let seccnt := pktp.bytexfer >>> dadkp.secshf
  let pktp := { pktp with secleft := pktp.secleft - seccnt }
  wholeCookie dadkp
    (if pktp.secleft ≠ 0 then { pktp with srtsec := pktp.srtsec + seccnt }
      else nextCookie dadkp bp pktp)

/-- `dadk_iosetup` -/
def iosetup (s : Io σ) : Io σ × Bool :=
  ctlIosetup c { s with pkt := nextChunk dadkp s.bp s.pkt }

/-- `dadk_ioprep` -/
def ioprep (s : Io σ) : Io σ × Bool :=
  let cdb := match s.bp.internal with
    | some cmd => cmd
    | none => if s.bp.read then .read else .write
  iosetup c dadkp { s with
    pkt := { s.pkt with cdb := cdb, byteleft := s.bp.bcount, priv := dadkp.bbh s.bp.toBuf } }

/-- `dadk_ioretry` from `COMMAND_DONE_ERROR` on: what has not been transferred
    is added to `b_resid`, and an error is recorded unless there is one. -/
def doneError (s : Io σ) : Io σ :=
  let p := s.pkt
  let s := { s with bp := { s.bp with resid := s.bp.resid + (p.byteleft - p.bytexfer + p.resid) } }
  if s.bp.error = none then
    bioerror s (if p.cdb = .flushCache ∧ p.scb = .abort then .enotsup else .eio)
  else s

/-- `dadk_ioretry`, and whether it returns `JUST_RETURN`. -/
def ioretry (s : Io σ) (action : Action) : Io σ × Bool :=
  match action with
  | .queCommand =>
    let again := s.pkt.retry < dadkRetryCount
    let s := { s with pkt := { s.pkt with retry := s.pkt.retry + 1 } }
    if again then
      let r := ctlTransport c (ctlIosetup c s).1
      if r.2 then (r.1, true) else (doneError (bioerror r.1 .enxio), false)
    else (doneError (bioerror s .enxio), false)
  | .commandDoneError => (doneError s, false)
  | .commandDone => (s, false)
  | .justReturn => (s, false)

/-- `dadk_iodone`, and where it leaves the request. -/
def iodone (s : Io σ) : Io σ × Phase :=
  let s := { s with pkt := { s.pkt with byteleft := s.pkt.byteleft - s.pkt.bytexfer } }
  if s.bp.error = none ∧ s.pkt.byteleft ≠ 0 then
    let s := { s with pkt := { s.pkt with retry := 0 } }
    let r := ctlTransport c (iosetup c dadkp s).1
    if r.2 then (r.1, .sent)
    else
      let r := ioretry c r.1 .queCommand
      if r.2 then (r.1, .sent) else (r.1, .done)
  else (s, .done)

/-- `dadk_chkerr`. The message it prints is left out. -/
def chkerr (pktp : Cmpkt) : Action :=
  if pktp.scb = .success then .commandDone
  else if dadkp.cdrom = true ∧ pktp.cdb = .read ∧ pktp.scb = .ill then .commandDone
  else errtab pktp.scb

/-- `dadk_restart`. The packet's `cp_iodone` is `dadk_iodone`. -/
def restart (s : Io σ) : Io σ × Phase :=
  let r := ioretry c s .queCommand
  if r.2 then (r.1, .sent) else iodone c dadkp r.1

/-- `dadk_transport` -/
def transport (s : Io σ) : Io σ × Phase :=
  let r := ctlTransport c s
  if r.2 then (r.1, .sent) else restart c dadkp r.1

/-- What `dadk_pktcb` does about a completion that is not a success. -/
def failAction (pktp : Cmpkt) : Action :=
  if pktp.reason = .chkerr then chkerr dadkp pktp else .commandDoneError

/-- The controller fills in its part of the packet when a command completes. -/
def Cmpkt.report (pktp : Cmpkt) (r : Completion) : Cmpkt :=
  { pktp with reason := r.reason, scb := r.scb, resid := r.resid }

/-- `dadk_pktcb`. The status it leaves in the packet of an ioctl is left out,
    as nothing in dadk reads it. A busy drive returns `JUST_RETURN` with the
    timeout running. -/
def pktcb (s : Io σ) : Io σ × Phase :=
  if s.pkt.reason = .success then iodone c dadkp s
  else if s.pkt.passthru.isSome then iodone c dadkp s
  else match failAction dadkp s.pkt with
    | .justReturn => (s, .waiting)
    | .commandDone => iodone c dadkp s
    | action =>
      let r := ioretry c s action
      if r.2 then (r.1, .sent) else iodone c dadkp r.1

/-- `dadk_strategy`: the buf that goes to flow control, or the error it gets. -/
def strategy (bp : IoBuf) : Except Errno IoBuf :=
  if dadkp.rdonly = true ∧ bp.read = false then .error .erofs
  else if bp.bcount % dadkp.secsiz ≠ 0 then .error .enxio
  else .ok { bp with sec := bp.sec >>> dadkp.blkshf }

end Functions

/-- Sectors have 512 bytes. -/
theorem Dadk.secsiz_nine {dadkp : Dadk} (h9 : dadkp.secshf = 9) : dadkp.secsiz = 512 := by
  unfold Dadk.secsiz
  rw [h9]
  rfl

/-- A buf that is accepted consists of whole sectors, and only its first sector is
    changed. -/
theorem strategy_accepted {dadkp : Dadk} {bp bp' : IoBuf} (h : strategy dadkp bp = .ok bp') :
    bp.bcount % dadkp.secsiz = 0 ∧ bp' = { bp with sec := bp.sec >>> dadkp.blkshf } := by
  unfold strategy at h
  by_cases hro : dadkp.rdonly = true ∧ bp.read = false
  · rw [if_pos hro] at h
    cases h
  rw [if_neg hro] at h
  by_cases hmod : bp.bcount % dadkp.secsiz ≠ 0
  · rw [if_pos hmod] at h
    cases h
  · rw [if_neg hmod] at h
    exact ⟨not_not.mp hmod, (Except.ok.inj h).symm⟩

/-- A command completes successfully: the controller says so, or it reports
    something that the error table counts as done, a recovered error for
    instance. -/
def Succeeds (dadkp : Dadk) (pktp : Cmpkt) : Prop :=
  pktp.reason = .success ∨ pktp.reason = .chkerr ∧ chkerr dadkp pktp = .commandDone

instance (dadkp : Dadk) (pktp : Cmpkt) : Decidable (Succeeds dadkp pktp) := by
  unfold Succeeds
  infer_instance

/-- A request on its way, with the first sector and the bytes of every command
    that has completed successfully. -/
structure DadkRun (σ : Type) where
  phase : Phase
  io : Io σ
  log : List (Int × Int)

/-- What can happen to a request. The controller may complete a command with
    any outcome once it has been sent, and changes by itself as it likes. -/
inductive DadkStep {σ : Type} (c : Ctl σ) (dadkp : Dadk) : DadkRun σ → DadkRun σ → Prop where
  | transport (io : Io σ) (log : List (Int × Int)) :
      DadkStep c dadkp ⟨.ready, io, log⟩
        ⟨(transport c dadkp io).2, (transport c dadkp io).1, log⟩
  | complete (io io' : Io σ) (log : List (Int × Int)) (r : Completion)
      (hio : io' = { io with pkt := io.pkt.report r }) :
      DadkStep c dadkp ⟨.sent, io, log⟩
        ⟨(pktcb c dadkp io').2, (pktcb c dadkp io').1,
          if Succeeds dadkp io'.pkt then log ++ [(io.pkt.srtsec, io.pkt.bytexfer)] else log⟩
  | restart (io : Io σ) (log : List (Int × Int)) :
      DadkStep c dadkp ⟨.waiting, io, log⟩
        ⟨(restart c dadkp io).2, (restart c dadkp io).1, log⟩
  | ctl (phase : Phase) (io : Io σ) (log : List (Int × Int)) (k : σ) :
      DadkStep c dadkp ⟨phase, io, log⟩ ⟨phase, { io with ctl := k }, log⟩

/-- A relation of controller states that both entry points keep. -/
structure Ctl.Steps {σ : Type} (c : Ctl σ) (R : σ → σ → Prop) : Prop where
  refl : ∀ k, R k k
  trans : ∀ {k k' k''}, R k k' → R k' k'' → R k k''
  iosetup : ∀ k p, R k (c.iosetup k p).1
  transport : ∀ k p, R k (c.transport k p).1

section Steps

variable {σ : Type} {c : Ctl σ} {R : σ → σ → Prop}

theorem doneError_ctl (s : Io σ) : (doneError s).ctl = s.ctl := by
  unfold doneError
  dsimp only
  split
  · rfl
  · rfl

theorem Ctl.Steps.ioretry (h : c.Steps R) (s : Io σ) (action : Action) :
    R s.ctl (ioretry c s action).1.ctl := by
  cases action with
  | commandDone => exact h.refl s.ctl
  | justReturn => exact h.refl s.ctl
  | commandDoneError =>
      unfold Disk.ioretry
      dsimp only
      rw [doneError_ctl]
      exact h.refl s.ctl
  | queCommand =>
      have hboth : ∀ p, R s.ctl (ctlTransport c (ctlIosetup c { s with pkt := p }).1).1.ctl :=
        fun p => h.trans (h.iosetup s.ctl p) (h.transport _ _)
      unfold Disk.ioretry
      dsimp only
      split
      · split
        · exact hboth _
        · rw [doneError_ctl]
          exact hboth _
      · rw [doneError_ctl]
        exact h.refl s.ctl

theorem Ctl.Steps.iodone (h : c.Steps R) (dadkp : Dadk) (s : Io σ) :
    R s.ctl (iodone c dadkp s).1.ctl := by
  unfold Disk.iodone Disk.iosetup
  dsimp only
  split
  · have hboth : ∀ p, R s.ctl (ctlTransport c (ctlIosetup c { s with pkt := p }).1).1.ctl :=
      fun p => h.trans (h.iosetup s.ctl p) (h.transport _ _)
    split
    · exact hboth _
    · split
      · exact h.trans (hboth _) (h.ioretry _ _)
      · exact h.trans (hboth _) (h.ioretry _ _)
  · exact h.refl s.ctl

/-- A retry, and the end of the request if there is none. -/
theorem Ctl.Steps.retry (h : c.Steps R) (dadkp : Dadk) (s : Io σ) (action : Action) :
    R s.ctl (if (Disk.ioretry c s action).2 then ((Disk.ioretry c s action).1, Phase.sent)
      else Disk.iodone c dadkp (Disk.ioretry c s action).1).1.ctl := by
  split
  · exact h.ioretry s action
  · exact h.trans (h.ioretry s action) (h.iodone dadkp _)

theorem Ctl.Steps.restart (h : c.Steps R) (dadkp : Dadk) (s : Io σ) :
    R s.ctl (restart c dadkp s).1.ctl :=
  h.retry dadkp s .queCommand

theorem Ctl.Steps.dadkTransport (h : c.Steps R) (dadkp : Dadk) (s : Io σ) :
    R s.ctl (Disk.transport c dadkp s).1.ctl := by
  have hsend : R s.ctl (ctlTransport c s).1.ctl := h.transport _ _
  unfold Disk.transport
  dsimp only
  split
  · exact hsend
  · exact h.trans hsend (h.restart dadkp _)

theorem Ctl.Steps.pktcb (h : c.Steps R) (dadkp : Dadk) (s : Io σ) :
    R s.ctl (pktcb c dadkp s).1.ctl := by
  unfold Disk.pktcb
  split
  · exact h.iodone dadkp s
  · split
    · exact h.iodone dadkp s
    · cases failAction dadkp s.pkt with
      | commandDone => exact h.iodone dadkp s
      | justReturn => exact h.refl s.ctl
      | queCommand => exact h.retry dadkp s .queCommand
      | commandDoneError => exact h.retry dadkp s .commandDoneError

end Steps

/-! ## A request is carried out in order -/

/-- The sectors of the commands on the log, as extents. -/
def chunks (log : List (Int × Int)) : List (Int × Int) :=
  log.map fun e => (e.1, e.2 / 512)

/-- What dadk relies on when it calls `CTL_IOSETUP`: it succeeds, and leaves a
    positive number of whole sectors to transfer, no more than it was asked
    for. The rest of the packet is dadk's. -/
def Ctl.Ok {σ : Type} (c : Ctl σ) : Prop :=
  ∀ k p, 0 < p.bytexfer → p.bytexfer % 512 = 0 → ∃ k' x y,
    c.iosetup k p = (k', { p with bytexfer := x, resid := y }, true) ∧
      0 < x ∧ x ≤ p.bytexfer ∧ x % 512 = 0

/-- The extents a request is to transfer: the request itself, or the cookies
    of its bad-block handle, as long as they have its length. -/
def IsRequest (dadkp : Dadk) (bp : IoBuf) (cks : List (Int × Int)) : Prop :=
  match dadkp.bbh bp.toBuf with
  | none => cks = [(bp.sec, ((bp.bcount / 512 : Nat) : Int))]
  | some hp =>
    (∃ n, cks = hp.cookies n) ∧ (∀ e ∈ cks, 0 < e.2) ∧ size cks = ((bp.bcount / 512 : Nat) : Int)

/-- A chunk has been set up. `rest` are the cookies not yet begun. Together
    with the log and what is left of the cookie at hand they make up the
    request, and the counters agree with them. -/
structure Live (cks log : List (Int × Int)) (p : Cmpkt) (rest : List (Int × Int)) : Prop where
  pos : ∀ e ∈ rest, 0 < e.2
  plain : p.priv = none → rest = []
  cookies : ∀ hp, p.priv = some hp → hp.cookies rest.length = rest
  secleft : 0 < p.secleft
  xfer_pos : 0 < p.bytexfer
  xfer_mod : p.bytexfer % 512 = 0
  xfer_le : p.bytexfer ≤ 512 * p.secleft
  byteleft : p.byteleft = 512 * (p.secleft + size rest)
  whole : ∀ e ∈ log, 0 < e.2 ∧ e.2 % 512 = 0
  parts : cover cks = cover (chunks log) ++ (cells p.srtsec p.secleft ++ cover rest)
  passthru : p.passthru = none

/-- The invariant of a request. Until it is finished there is no error, and a
    chunk has been set up. When it is finished without an error, all of it has
    been transferred. -/
def Ordered {σ : Type} (cks : List (Int × Int)) (phase : Phase) (io : Io σ)
    (log : List (Int × Int)) : Prop :=
  if phase = .done then
    0 ≤ io.pkt.secleft ∧ 0 ≤ io.pkt.byteleft ∧ (∀ e ∈ log, 0 < e.2 ∧ e.2 % 512 = 0) ∧
      cover (chunks log) <+: cover cks ∧
      (io.bp.error = none → io.pkt.byteleft = 0 ∧ cover (chunks log) = cover cks)
  else io.bp.error = none ∧ ∃ rest, Live cks log io.pkt rest

section Ordered

variable {σ : Type} {c : Ctl σ} {dadkp : Dadk} {cks log rest : List (Int × Int)} {s : Io σ}
  {p : Cmpkt}

theorem shiftRight_nine (x : Int) : x >>> (9 : Nat) = x / 512 :=
  Int.shiftRight_eq_div_pow x 9

theorem shiftLeft_nine (x : Int) : x <<< (9 : Nat) = x * 512 :=
  Int.shiftLeft_eq x 9

theorem chunks_append (l l' : List (Int × Int)) : chunks (l ++ l') = chunks l ++ chunks l' :=
  List.map_append

theorem Live.isPrefix (h : Live cks log p rest) : cover (chunks log) <+: cover cks := by
  rw [h.parts]
  exact List.prefix_append _ _

theorem Live.xfer_le_byteleft (h : Live cks log p rest) : p.bytexfer ≤ p.byteleft := by
  have hle := h.xfer_le
  have hrest := size_nonneg fun e he => le_of_lt (h.pos e he)
  rw [h.byteleft]
  omega

/-- A request that goes on. -/
theorem Live.ordered {phase : Phase} (h : Live cks log s.pkt rest) (he : s.bp.error = none)
    (hp : phase ≠ .done) : Ordered cks phase s log := by
  rw [Ordered, if_neg hp]
  exact ⟨he, rest, h⟩

theorem Ordered.live {phase : Phase} (h : Ordered cks phase s log) (hp : phase ≠ .done) :
    s.bp.error = none ∧ ∃ rest, Live cks log s.pkt rest := by
  rw [Ordered, if_neg hp] at h
  exact h

/-- A request that has an error is finished. -/
theorem Live.failed (h : Live cks log s.pkt rest) (he : s.bp.error ≠ none) :
    Ordered cks .done s log := by
  have hle := h.xfer_le_byteleft
  have hpos := h.xfer_pos
  rw [Ordered, if_pos rfl]
  exact ⟨le_of_lt h.secleft, by omega, h.whole, h.isPrefix, fun hn => absurd hn he⟩

/-- A chunk that is set up again may shrink, and nothing else changes. -/
theorem Live.setup (h : Live cks log p rest) {x y : Int} (hx : 0 < x) (hle : x ≤ p.bytexfer)
    (hmod : x % 512 = 0) : Live cks log { p with bytexfer := x, resid := y } rest where
  pos := h.pos
  plain := h.plain
  cookies := h.cookies
  secleft := h.secleft
  xfer_pos := hx
  xfer_mod := hmod
  xfer_le := le_trans hle h.xfer_le
  byteleft := h.byteleft
  whole := h.whole
  parts := h.parts
  passthru := h.passthru

/-- The fields a retry or a completion changes do not matter. -/
theorem Live.congr (h : Live cks log p rest) (retry : Nat) (reason : Reason) (scb : Derr)
    (resid : Int) :
    Live cks log { p with retry := retry, reason := reason, scb := scb, resid := resid } rest :=
  ⟨h.pos, h.plain, h.cookies, h.secleft, h.xfer_pos, h.xfer_mod, h.xfer_le, h.byteleft, h.whole,
    h.parts, h.passthru⟩

theorem ctlIosetup_live (hc : c.Ok) (h : Live cks log s.pkt rest) :
    (ctlIosetup c s).1.bp = s.bp ∧ Live cks log (ctlIosetup c s).1.pkt rest := by
  rcases hc s.ctl s.pkt h.xfer_pos h.xfer_mod with ⟨k, x, y, he, hx, hle, hmod⟩
  refine ⟨rfl, ?_⟩
  simp only [ctlIosetup, he]
  exact h.setup hx hle hmod

/-- The sectors of the chunk that has just been transferred move to the log. -/
theorem Live.split (h : Live cks log p rest) :
    cover cks = cover (chunks (log ++ [(p.srtsec, p.bytexfer)])) ++
      (cells (p.srtsec + p.bytexfer / 512) (p.secleft - p.bytexfer / 512) ++ cover rest) := by
  have hpos := h.xfer_pos
  have hmod := h.xfer_mod
  have hle := h.xfer_le
  -- The chunk is the first part of what is left of the cookie at hand.
  have hsplit := cells_split p.srtsec (m := p.bytexfer / 512) (n := p.secleft - p.bytexfer / 512)
    (by omega) (by omega)
  rw [show p.bytexfer / 512 + (p.secleft - p.bytexfer / 512) = p.secleft by omega] at hsplit
  rw [h.parts, hsplit, chunks_append, cover_append]
  simp only [chunks, List.map_cons, List.map_nil, cover_cons, cover_nil, List.append_nil,
    List.append_assoc]

theorem Live.whole_append (h : Live cks log p rest) :
    ∀ e ∈ log ++ [(p.srtsec, p.bytexfer)], 0 < e.2 ∧ e.2 % 512 = 0 := by
  intro e he
  rcases List.mem_append.1 he with he | he
  · exact h.whole e he
  · rw [List.mem_singleton.1 he]
    exact ⟨h.xfer_pos, h.xfer_mod⟩

/-- The last chunk: with it the log is the whole request. -/
theorem Live.last (h : Live cks log p rest) (hlast : p.byteleft - p.bytexfer = 0) :
    cover (chunks (log ++ [(p.srtsec, p.bytexfer)])) = cover cks := by
  have hpos := h.xfer_pos
  have hmod := h.xfer_mod
  have hle := h.xfer_le
  have hbl := h.byteleft
  have hrest := size_nonneg fun e he => le_of_lt (h.pos e he)
  -- The counters leave no room for another cookie, or for a part of this one.
  have hnil : rest = [] := eq_nil_of_size h.pos (by omega)
  have hsz : p.secleft - p.bytexfer / 512 = 0 := by omega
  have hall := h.split
  rw [hsz, hnil, cells_of_nonpos (le_refl 0), cover_nil, List.append_nil, List.append_nil] at hall
  exact hall.symm

/-- A request is finished when its last chunk has been transferred. -/
theorem Live.finished (h : Live cks log s.pkt rest) (hlast : s.pkt.byteleft - s.pkt.bytexfer = 0) :
    Ordered cks .done
      { s with pkt := { s.pkt with byteleft := s.pkt.byteleft - s.pkt.bytexfer } }
      (log ++ [(s.pkt.srtsec, s.pkt.bytexfer)]) := by
  have hall := h.last hlast
  rw [Ordered, if_pos rfl]
  refine ⟨le_of_lt h.secleft, ?_, h.whole_append, ?_, fun _ => ⟨hlast, hall⟩⟩
  · dsimp only
    omega
  · exact hall ▸ List.prefix_rfl

/-- The next chunk, when there is more to do. -/
theorem Live.next (h9 : dadkp.secshf = 9) (bp : IoBuf) (h : Live cks log p rest)
    (hmore : p.byteleft - p.bytexfer ≠ 0) :
    ∃ rest', Live cks (log ++ [(p.srtsec, p.bytexfer)])
      (nextChunk dadkp bp { p with byteleft := p.byteleft - p.bytexfer, retry := 0 }) rest' := by
  have hpos := h.xfer_pos
  have hmod := h.xfer_mod
  have hle := h.xfer_le
  have hbl := h.byteleft
  have hcov := h.split
  simp only [nextChunk, h9, shiftRight_nine]
  by_cases hsec : p.secleft - p.bytexfer / 512 ≠ 0
  · rw [if_pos hsec]
    simp only [wholeCookie, h9, shiftLeft_nine]
    exact ⟨rest, h.pos, h.plain, h.cookies, by dsimp only; omega, by dsimp only; omega,
      by dsimp only; omega, by dsimp only; omega, by dsimp only; omega,
      h.whole_append, hcov, h.passthru⟩
  · -- The cookie at hand is used up, and there is another.
    rw [if_neg hsec]
    cases hpriv : p.priv with
    -- Without a bad-block handle the one cookie is the whole request.
    | none =>
        rw [h.plain hpriv, size_nil] at hbl
        omega
    | some hp =>
        have hck := h.cookies hp hpriv
        cases rest with
        | nil =>
            rw [size_nil] at hbl
            omega
        | cons e rest =>
            rw [size_cons] at hbl
            rw [show p.secleft - p.bytexfer / 512 = 0 by omega, cells_of_nonpos (le_refl 0),
              List.nil_append] at hcov
            simp only [List.length_cons, BbhHandle.cookies, List.cons.injEq] at hck
            rcases hck with ⟨rfl, hrest⟩
            have he := h.pos _ List.mem_cons_self
            simp only [nextCookie, wholeCookie, h9, shiftLeft_nine]
            exact ⟨rest, fun e' he' => h.pos e' (List.mem_cons_of_mem _ he'), by simp,
              fun hp' hhp => by cases hhp; exact hrest, he, by dsimp only at he ⊢; omega,
              by dsimp only; omega, by dsimp only; omega, by dsimp only at hbl ⊢; omega,
              h.whole_append, hcov, h.passthru⟩

theorem doneError_pkt (s : Io σ) : (doneError s).pkt = s.pkt := by
  unfold doneError
  dsimp only
  split <;> rfl

theorem doneError_error (s : Io σ) : (doneError s).bp.error ≠ none := by
  unfold doneError
  dsimp only
  split
  · nofun
  · next h => exact h

/-- A retry keeps what is set up and what is left to do. It either sends the
    chunk again, or records an error. -/
theorem ioretry_live (hc : c.Ok) (h : Live cks log s.pkt rest) (he : s.bp.error = none)
    {action : Action} (hact : action = .queCommand ∨ action = .commandDoneError) :
    Live cks log (ioretry c s action).1.pkt rest ∧
      ((ioretry c s action).2 = true → (ioretry c s action).1.bp.error = none) ∧
      ((ioretry c s action).2 = false → (ioretry c s action).1.bp.error ≠ none) := by
  have herr : ∀ t : Io σ, Live cks log t.pkt rest →
      Live cks log (doneError t).pkt rest ∧ (doneError t).bp.error ≠ none := by
    intro t ht
    rw [doneError_pkt]
    exact ⟨ht, doneError_error t⟩
  rcases hact with rfl | rfl
  · have hcount := h.congr (s.pkt.retry + 1) s.pkt.reason s.pkt.scb s.pkt.resid
    unfold ioretry
    dsimp only
    -- The chunk is set up and sent again until the retries are used up.
    by_cases hagain : s.pkt.retry < dadkRetryCount
    · rw [if_pos hagain]
      rcases ctlIosetup_live (s := { s with pkt := { s.pkt with retry := s.pkt.retry + 1 } })
        hc hcount with ⟨hbp, hset⟩
      split
      · exact ⟨hset, fun _ => hbp.symm ▸ he, nofun⟩
      · have hd := herr (bioerror (ctlTransport c
          (ctlIosetup c { s with pkt := { s.pkt with retry := s.pkt.retry + 1 } }).1).1 .enxio) hset
        exact ⟨hd.1, nofun, fun _ => hd.2⟩
    · rw [if_neg hagain]
      have hd := herr
        (bioerror { s with pkt := { s.pkt with retry := s.pkt.retry + 1 } } .enxio) hcount
      exact ⟨hd.1, nofun, fun _ => hd.2⟩
  · have hd := herr s h
    exact ⟨hd.1, nofun, fun _ => hd.2⟩

/-- A request that has failed is finished. -/
theorem iodone_failed (h : Live cks log s.pkt rest) (he : s.bp.error ≠ none) :
    Ordered cks (iodone c dadkp s).2 (iodone c dadkp s).1 log := by
  have hle := h.xfer_le_byteleft
  have hsec := h.secleft
  have hdone : iodone c dadkp s =
      ({ s with pkt := { s.pkt with byteleft := s.pkt.byteleft - s.pkt.bytexfer } }, .done) :=
    if_neg fun hn => he hn.1
  rw [hdone, Ordered, if_pos rfl]
  refine ⟨?_, ?_, h.whole, h.isPrefix, fun hn => absurd hn he⟩
  · dsimp only
    omega
  · dsimp only
    omega

/-- A request of which a chunk has been transferred is finished if that was
    all, and goes on with the next chunk otherwise. -/
theorem iodone_ordered (hc : c.Ok) (h9 : dadkp.secshf = 9) (h : Live cks log s.pkt rest)
    (he : s.bp.error = none) :
    Ordered cks (iodone c dadkp s).2 (iodone c dadkp s).1
      (log ++ [(s.pkt.srtsec, s.pkt.bytexfer)]) := by
  by_cases hmore : s.pkt.byteleft - s.pkt.bytexfer = 0
  · have hdone : iodone c dadkp s =
        ({ s with pkt := { s.pkt with byteleft := s.pkt.byteleft - s.pkt.bytexfer } }, .done) :=
      if_neg fun hn => hn.2 hmore
    rw [hdone]
    exact h.finished hmore
  · rcases h.next h9 s.bp hmore with ⟨rest', hnext⟩
    generalize hp : nextChunk dadkp s.bp
      { s.pkt with byteleft := s.pkt.byteleft - s.pkt.bytexfer, retry := 0 } = p at hnext
    rcases ctlIosetup_live (s := { s with pkt := p }) hc hnext with ⟨hbp, hset⟩
    have herr := hbp.symm ▸ he
    unfold iodone iosetup
    dsimp only
    rw [if_pos ⟨he, hmore⟩, hp]
    -- The controller takes the chunk, or dadk retries it as if it had failed.
    split
    · exact hset.ordered herr nofun
    · rcases ioretry_live hc (s := (ctlTransport c (ctlIosetup c { s with pkt := p }).1).1) hset
        herr (Or.inl rfl) with ⟨hlive, hsent, hfail⟩
      split
      · next hr => exact hlive.ordered (hsent hr) nofun
      · next hr => exact hlive.failed (hfail (by simpa only [Bool.not_eq_true] using hr))

theorem restart_ordered (hc : c.Ok) (h : Live cks log s.pkt rest) (he : s.bp.error = none) :
    Ordered cks (restart c dadkp s).2 (restart c dadkp s).1 log := by
  rcases ioretry_live hc h he (Or.inl rfl) with ⟨hlive, hsent, hfail⟩
  unfold restart
  dsimp only
  split
  · next hr => exact hlive.ordered (hsent hr) nofun
  · next hr => exact iodone_failed hlive (hfail (by simpa only [Bool.not_eq_true] using hr))

theorem transport_ordered (hc : c.Ok) (h : Live cks log s.pkt rest) (he : s.bp.error = none) :
    Ordered cks (transport c dadkp s).2 (transport c dadkp s).1 log := by
  unfold transport
  dsimp only
  split
  · exact h.ordered he nofun
  · exact restart_ordered (s := (ctlTransport c s).1) hc h he

/-- Of the commands that are not a success, those that the error table has as
    done count as such. -/
theorem succeeds_iff (hr : p.reason ≠ .success) :
    Succeeds dadkp p ↔ failAction dadkp p = .commandDone := by
  unfold Succeeds failAction
  by_cases hchk : p.reason = .chkerr
  · rw [if_pos hchk]
    exact ⟨fun h => (h.resolve_left hr).2, fun h => Or.inr ⟨hchk, h⟩⟩
  · rw [if_neg hchk]
    exact ⟨fun h => absurd (h.resolve_left hr).1 hchk, nofun⟩

theorem pktcb_ordered (hc : c.Ok) (h9 : dadkp.secshf = 9) (h : Live cks log s.pkt rest)
    (he : s.bp.error = none) :
    Ordered cks (pktcb c dadkp s).2 (pktcb c dadkp s).1
      (if Succeeds dadkp s.pkt then log ++ [(s.pkt.srtsec, s.pkt.bytexfer)] else log) := by
  have hpass : s.pkt.passthru.isSome = false := by rw [h.passthru]; rfl
  unfold pktcb
  by_cases hr : s.pkt.reason = .success
  · have hs : Succeeds dadkp s.pkt := Or.inl hr
    rw [if_pos hr, if_pos hs]
    exact iodone_ordered hc h9 h he
  · rw [if_neg hr, if_neg (by rw [hpass]; exact Bool.false_ne_true)]
    simp only [succeeds_iff hr]
    -- A retry that cannot be sent leaves an error, with which the request is finished.
    have hretry : ∀ action, action = .queCommand ∨ action = .commandDoneError →
        Ordered cks
          (if (ioretry c s action).2 then ((ioretry c s action).1, Phase.sent)
            else iodone c dadkp (ioretry c s action).1).2
          (if (ioretry c s action).2 then ((ioretry c s action).1, Phase.sent)
            else iodone c dadkp (ioretry c s action).1).1 log := by
      intro action hact
      rcases ioretry_live hc h he hact with ⟨hlive, hsent, hfail⟩
      split
      · next hb => exact hlive.ordered (hsent hb) nofun
      · next hb => exact iodone_failed hlive (hfail (by simpa only [Bool.not_eq_true] using hb))
    cases failAction dadkp s.pkt with
    | commandDone => exact iodone_ordered hc h9 h he
    | justReturn =>
        rw [if_neg nofun]
        exact h.ordered he nofun
    | queCommand =>
        rw [if_neg nofun]
        exact hretry _ (Or.inl rfl)
    | commandDoneError =>
        rw [if_neg nofun]
        exact hretry _ (Or.inr rfl)

/-- The first chunk of a request. -/
theorem Live.start (h9 : dadkp.secshf = 9) {bp : IoBuf} (cdb : Dcmd) (hpos : 0 < bp.bcount)
    (hmod : bp.bcount % 512 = 0) (hcks : IsRequest dadkp bp cks) :
    ∃ rest, Live cks []
      (nextChunk dadkp bp { cdb := cdb, byteleft := bp.bcount, priv := dadkp.bbh bp.toBuf })
      rest := by
  have hshift : bp.bcount >>> 9 = bp.bcount / 512 := Nat.shiftRight_eq_div_pow _ 9
  have hzero : (0 : Int) >>> (9 : Nat) = 0 := rfl
  unfold IsRequest at hcks
  simp only [nextChunk, h9, hzero, Int.sub_zero, ne_eq, not_true, if_false, nextCookie,
    wholeCookie, hshift]
  cases hbbh : dadkp.bbh bp.toBuf with
  | none =>
      rw [hbbh] at hcks
      simp only [shiftLeft_nine]
      refine ⟨[], ?_⟩
      constructor
      · exact fun e he => absurd he List.not_mem_nil
      · exact fun _ => rfl
      · simp
      · dsimp only
        omega
      · dsimp only
        omega
      · dsimp only
        omega
      · dsimp only
        omega
      · dsimp only
        rw [size_nil]
        omega
      · exact fun e he => absurd he List.not_mem_nil
      · rw [hcks]
        rfl
      · rfl
  | some hp =>
      rw [hbbh] at hcks
      rcases hcks with ⟨⟨n, rfl⟩, hck, hsize⟩
      cases n with
      | zero =>
          rw [BbhHandle.cookies, size_nil] at hsize
          omega
      | succ n =>
          -- The first cookie is at hand, and the others are those of the handle after it.
          have hlen : ∀ (n : Nat) (hp : BbhHandle), (hp.cookies n).length = n := by
            intro n
            induction n with
            | zero => exact fun _ => rfl
            | succ n ih => exact fun hp => congrArg (· + 1) (ih _)
          simp only [shiftLeft_nine]
          rw [BbhHandle.cookies, size_cons] at hsize
          have hfirst := hck _ List.mem_cons_self
          dsimp only at hfirst hsize
          refine ⟨(htoc hp).2.cookies n, ?_⟩
          constructor
          · exact fun e he => hck e (List.mem_cons_of_mem _ he)
          · simp
          · intro hp' hhp
            cases hhp
            rw [hlen]
          · exact hfirst
          · dsimp only
            omega
          · dsimp only
            omega
          · dsimp only
            omega
          · dsimp only
            omega
          · exact fun e he => absurd he List.not_mem_nil
          · rfl
          · rfl

theorem ioprep_ordered (hc : c.Ok) (h9 : dadkp.secshf = 9) {bp : IoBuf} {k : σ}
    (hpos : 0 < bp.bcount) (hmod : bp.bcount % 512 = 0) (he : bp.error = none)
    (hcks : IsRequest dadkp bp cks) :
    Ordered cks .ready (ioprep c dadkp ⟨k, {}, bp⟩).1 [] := by
  unfold ioprep iosetup
  dsimp only
  generalize (match bp.internal with
    | some cmd => cmd
    | none => if bp.read then Dcmd.read else Dcmd.write) = cdb
  rcases Live.start h9 cdb hpos hmod hcks with ⟨rest, hlive⟩
  rcases ctlIosetup_live (s := ⟨k, nextChunk dadkp bp
    { cdb := cdb, byteleft := bp.bcount, priv := dadkp.bbh bp.toBuf }, bp⟩) hc hlive with
    ⟨hbp, hset⟩
  exact hset.ordered (hbp.symm ▸ he) nofun

theorem DadkStep.ordered (hc : c.Ok) (h9 : dadkp.secshf = 9) {r r' : DadkRun σ}
    (hst : DadkStep c dadkp r r') (h : Ordered cks r.phase r.io r.log) :
    Ordered cks r'.phase r'.io r'.log := by
  cases hst with
  | transport io log =>
      rcases h.live nofun with ⟨he, rest, hlive⟩
      exact transport_ordered hc hlive he
  | complete io io' log r hio =>
      rcases h.live nofun with ⟨he, rest, hlive⟩
      rw [hio]
      exact pktcb_ordered (s := { io with pkt := io.pkt.report r }) hc h9
        (hlive.congr io.pkt.retry r.reason r.scb r.resid) he
  | restart io log =>
      rcases h.live nofun with ⟨he, rest, hlive⟩
      exact restart_ordered hc hlive he
  | ctl phase io log k => exact h

end Ordered

/-- With the bad-block code of `cmdk.c` and a table it can use, what a request
    is to transfer are its remapped sectors. -/
theorem isRequest_of_gethandle (dkp : Cmdk) (dadkp : Dadk) (hbbh : dadkp.bbh = gethandle dkp)
    (bp : IoBuf) (hok : (dkp.alts bp.part).Ok) (hsec : 0 ≤ bp.sec) (hpos : 1 ≤ bp.bcount >>> 9)
    (hend : bp.sec + (bp.bcount >>> 9 : Nat) ≤ 2 ^ 31) :
    ∃ cks, IsRequest dadkp bp cks ∧
      cover cks = (cells bp.sec (bp.bcount >>> 9 : Nat)).map (dkp.alts bp.part).remap := by
  rcases bbh_remap_cookies dkp bp.toBuf hok hsec hpos hend with ⟨hnone, hsome⟩
  have hshift : bp.bcount >>> 9 = bp.bcount / 512 := Nat.shiftRight_eq_div_pow _ 9
  unfold IsRequest
  rw [hbbh]
  cases hh : gethandle dkp bp.toBuf with
  | none =>
      refine ⟨_, rfl, ?_⟩
      rw [cover_cons, cover_nil, List.append_nil, hshift]
      exact (map_cells_id fun x hx =>
        Alts.remap_of_good (hnone.1 hh x (by rwa [hshift]))).symm
  | some hp =>
      rcases hsome hp hh with ⟨n, -, hcks, hsize, hcover⟩
      rw [hshift] at hsize
      exact ⟨hp.cookies n, ⟨⟨n, rfl⟩, hcks, hsize⟩, hcover⟩

end Disk

end Sil3112
