import Sil3112.Ata.Iosetup

/-!
# Finishing a Request

Whatever becomes of the commands of a request, dadk finishes its buf once. A
command may complete, its transport may fail, at first or for a later chunk,
and a busy drive is tried again after a delay. Each of these ends in
`dadk_iodone`, which takes the buf off the flow control queue and hands it back
with `biodone`.

A run keeps count of everything that may still call back for the buf: a
transport that flow control owes it, a command that the controller has, and a
timeout. Nothing but the code keeps these from being several.

`Tally` counts the calls that the controller gets. A chunk is sent once, and
again for every retry. `part` is what the last command of the chunk at hand has
moved, so that nothing is assumed about earlier ones that have failed.

## Main definitions

* `diskComplete`: `ata_disk_complete`
* `Ctl.tallied`: A controller that counts its calls.
* `FinRun`, `FinStep`: A request, with what may call back for it.
* `Open`, `Failed`, `Whole`: Its states.

## Theorems

* `ioretry_open`, `iodone_open`, `pktcb_open`: What the functions of `dadk.c`
  keep.
* `dadk_finishes_once`: A buf is finished once, and `b_resid` is right.
-/

namespace Sil3112

namespace Ata

open Disk Transition

/-! ## The completion of a disk command -/

/-- What `ata_disk_complete` looks at: the flags of the packet, the bits of the
    error and of the status register, whether the drive is of ATA version 4,
    and `ap_resid`. -/
structure DiskRegs where
  apError : Bool
  apAbort : Bool
  apTimeout : Bool
  apBusReset : Bool
  bbkIcrc : Bool
  unc : Bool
  idnf : Bool
  tkonf : Bool
  amnf : Bool
  bsy : Bool
  df : Bool
  ata4 : Bool
  resid : Nat

/-- `ata_disk_complete` -/
def diskComplete (r : DiskRegs) : Completion :=
  if r.apError then
    ⟨.chkerr,
      if r.bbkIcrc then (if r.ata4 then .icrc else .bbk)
      else if r.unc then .unc
      else if r.idnf then .idnf
      else if r.tkonf then .tkonf
      else if r.amnf then .amnf
      else if r.bsy then .busy
      else if r.df then .dwf
      else .abort, r.resid⟩
  else if r.apAbort || r.apTimeout || r.apBusReset then ⟨.chkerr, .abort, r.resid⟩
  else ⟨.success, .success, r.resid⟩

/-- None of the errors counts as a success. -/
theorem diskComplete_action (dadkp : Dadk) (p : Cmpkt) (r : DiskRegs) :
    (diskComplete r).reason = .success ∨
      (diskComplete r).reason = .chkerr ∧
        failAction dadkp (p.report (diskComplete r)) ≠ .commandDone := by
  have herr : ∀ scb, scb ≠ Derr.success → scb ≠ Derr.ill → errtab scb ≠ .commandDone →
      ∀ n, failAction dadkp (p.report ⟨.chkerr, scb, n⟩) ≠ .commandDone := by
    intro scb hs hi he n
    unfold failAction chkerr Cmpkt.report
    dsimp only
    rw [if_pos rfl, if_neg hs, if_neg (fun h => hi h.2.2)]
    exact he
  unfold diskComplete
  by_cases h1 : r.apError = true
  · rw [if_pos h1]
    refine Or.inr ⟨rfl, herr _ ?_ ?_ ?_ _⟩
    · repeat' split
      all_goals nofun
    · repeat' split
      all_goals nofun
    · repeat' split
      all_goals nofun
  · rw [if_neg h1]
    by_cases h2 : (r.apAbort || r.apTimeout || r.apBusReset) = true
    · rw [if_pos h2]
      exact Or.inr ⟨rfl, herr .abort nofun nofun nofun _⟩
    · rw [if_neg h2]
      exact Or.inl rfl

/-! ## Counting -/

/-- The calls a controller has had: of `CTL_IOSETUP`, those of them that have
    failed, and of `CTL_TRANSPORT`. -/
structure Tally where
  setups : Nat
  failed : Nat
  sends : Nat

/-- A controller that counts its calls. -/
def tallied {σ : Type} (c : Ctl σ) : Ctl (σ × Tally) where
  iosetup := fun s p =>
    let r := c.iosetup s.1 p
    ((r.1, { s.2 with
        setups := s.2.setups + 1
        failed := if r.2.2 then s.2.failed else s.2.failed + 1 }), r.2.1, r.2.2)
  transport := fun s p =>
    let r := c.transport s.1 p
    ((r.1, { s.2 with sends := s.2.sends + 1 }), r.2)

/-- A request and what may call back for it: the transports that flow control
    still owes it, the commands the controller has, and the timeouts. Then the
    calls of `FLC_DEQUE` and `biodone`. `moved` are the bytes of the chunks that
    have completed successfully, `part` those the last command has moved of the
    chunk at hand, `since` the number of transports at the last success, and
    `isOpen` whether the last chunk set up has yet to complete successfully. -/
structure FinRun (σ : Type) where
  ready : Nat
  sent : Nat
  waiting : Nat
  deques : Nat
  biodones : Nat
  io : Io (σ × Tally)
  moved : Int
  part : Int
  since : Nat
  isOpen : Bool

/-- A call of dadk has ended. In the phase `done` it has called `FLC_DEQUE` and
    `biodone`. -/
def FinRun.after {σ : Type} (r : FinRun σ) (io : Io (σ × Tally)) : Phase → FinRun σ
  | .ready => { r with io := io, ready := r.ready + 1 }
  | .sent => { r with io := io, sent := r.sent + 1 }
  | .waiting => { r with io := io, waiting := r.waiting + 1 }
  | .done => { r with io := io, deques := r.deques + 1, biodones := r.biodones + 1 }

/-- The bytes the last command has moved of the chunk at hand: none if the chunk
    has been set up again. -/
def partOf {σ : Type} (io io' : Io (σ × Tally)) (part : Int) : Int :=
  if io'.ctl.2.setups = io.ctl.2.setups then part else 0

/-- What can happen to a request. A command may complete with anything that
    `ata_disk_complete` makes of the registers. -/
inductive FinStep {σ : Type} (c : Ctl σ) (dadkp : Dadk) : FinRun σ → FinRun σ → Prop where
  | transport (r : FinRun σ) (h : 0 < r.ready) :
      FinStep c dadkp r
        ({ r with
            ready := r.ready - 1
            part := partOf r.io (transport (tallied c) dadkp r.io).1 r.part }.after
          (transport (tallied c) dadkp r.io).1 (transport (tallied c) dadkp r.io).2)
  | complete (r : FinRun σ) (h : 0 < r.sent) (regs : DiskRegs)
      (hle : (regs.resid : Int) ≤ r.io.pkt.bytexfer) (io : Io (σ × Tally))
      (hio : io = { r.io with pkt := r.io.pkt.report (diskComplete regs) })
      (hfail : (diskComplete regs).reason ≠ .success) :
      FinStep c dadkp r
        ({ r with
            sent := r.sent - 1
            part := partOf io (pktcb (tallied c) dadkp io).1 (io.pkt.bytexfer - io.pkt.resid)
            }.after
          (pktcb (tallied c) dadkp io).1 (pktcb (tallied c) dadkp io).2)
  | success (r : FinRun σ) (h : 0 < r.sent) (regs : DiskRegs)
      (hle : (regs.resid : Int) ≤ r.io.pkt.bytexfer) (io : Io (σ × Tally))
      (hio : io = { r.io with pkt := r.io.pkt.report (diskComplete regs) })
      (hdone : (diskComplete regs).reason = .success) :
      FinStep c dadkp r
        ({ r with
            sent := r.sent - 1
            moved := r.moved + r.io.pkt.bytexfer
            part := 0
            since := r.io.ctl.2.sends
            isOpen := decide ((pktcb (tallied c) dadkp io).1.ctl.2.setups ≠ r.io.ctl.2.setups)
            }.after
          (pktcb (tallied c) dadkp io).1 (pktcb (tallied c) dadkp io).2)
  | restart (r : FinRun σ) (h : 0 < r.waiting) :
      FinStep c dadkp r
        ({ r with
            waiting := r.waiting - 1
            part := partOf r.io (restart (tallied c) dadkp r.io).1 r.part }.after
          (restart (tallied c) dadkp r.io).1 (restart (tallied c) dadkp r.io).2)
  | ctl (r : FinRun σ) (k : σ) :
      FinStep c dadkp r { r with io := { r.io with ctl := (k, r.io.ctl.2) } }

/-- A buf that `dadk_strategy` has accepted, with a fresh packet. It comes from
    outside of dadk, and without an error. -/
def FinStart {σ : Type} (c : Ctl σ) (dadkp : Dadk) (bp : IoBuf) (r : FinRun σ) : Prop :=
  bp.internal = none ∧ bp.error = none ∧ ∃ k bp', strategy dadkp bp = .ok bp' ∧
    r = {
      ready := 1, sent := 0, waiting := 0, deques := 0, biodones := 0
      io := (ioprep (tallied c) dadkp ⟨(k, ⟨0, 0, 0⟩), {}, bp'⟩).1
      moved := 0, part := 0, since := 0, isOpen := true }

/-! ## The functions of dadk -/

/-- What dadk relies on when `CTL_IOSETUP` succeeds for a read or a write: the
    controller says how much it has set up, and that all of it is left to do. -/
def Sets {σ : Type} (c : Ctl σ) : Prop :=
  ∀ k p, p.passthru = none → (p.cdb = .read ∨ p.cdb = .write) → (c.iosetup k p).2.2 = true →
    ∃ x, (c.iosetup k p).2.1 = { p with bytexfer := x, resid := x }

/-- No error so far. `moved` is what the chunks before the one at hand have
    transferred. -/
structure Base {σ : Type} (bp : IoBuf) (io : Io (σ × Tally)) (moved : Int) (since : Nat) :
    Prop where
  error : io.bp.error = none
  resid : io.bp.resid = bp.resid
  passthru : io.pkt.passthru = none
  cdb : io.pkt.cdb = .read ∨ io.pkt.cdb = .write
  left : io.pkt.byteleft + moved = bp.bcount
  sends : io.ctl.2.sends ≤ since + 1 + io.pkt.retry
  retry : io.pkt.retry ≤ dadkRetryCount

/-- The last chunk set up has not completed yet. -/
structure Open {σ : Type} (bp : IoBuf) (io : Io (σ × Tally)) (moved part : Int) (since : Nat) : Prop
    extends Base bp io moved since where
  part : part + io.pkt.resid = io.pkt.bytexfer

/-- The buf has been given up. -/
structure Failed {σ : Type} (bp : IoBuf) (io : Io (σ × Tally)) (moved part : Int)
    (since : Nat) : Prop where
  error : io.bp.error ≠ none
  resid : io.bp.resid = bp.resid + (bp.bcount - moved - part)
  sends : io.ctl.2.sends ≤ since + 1 + dadkRetryCount

/-- All of the buf has been transferred. -/
structure Whole {σ : Type} (bp : IoBuf) (io : Io (σ × Tally)) (moved : Int) (since : Nat) :
    Prop where
  error : io.bp.error = none
  resid : io.bp.resid = bp.resid
  moved : moved = bp.bcount
  sends : io.ctl.2.sends ≤ since + 1 + dadkRetryCount

section Functions

variable {σ : Type} {c : Ctl σ} {dadkp : Dadk} {bp : IoBuf} {io : Io (σ × Tally)}
  {moved part : Int} {since : Nat}

/-- `CTL_IOSETUP` counts as a call, and as a failure if it fails. -/
theorem ctlIosetup_tally (c : Ctl σ) (io : Io (σ × Tally)) :
    (ctlIosetup (tallied c) io).1.ctl.2.setups = io.ctl.2.setups + 1 ∧
      (ctlIosetup (tallied c) io).1.ctl.2.sends = io.ctl.2.sends ∧
      (ctlIosetup (tallied c) io).1.bp = io.bp ∧
      ((ctlIosetup (tallied c) io).1.ctl.2.failed = 0 ↔
        io.ctl.2.failed = 0 ∧ (c.iosetup io.ctl.1 io.pkt).2.2 = true) := by
  refine ⟨rfl, rfl, rfl, ?_⟩
  unfold ctlIosetup tallied
  dsimp only
  cases (c.iosetup io.ctl.1 io.pkt).2.2 with
  | true => simp only [if_true, and_true]
  | false =>
      simp only [Bool.false_eq_true, if_false, Nat.add_eq_zero_iff, Nat.one_ne_zero, and_false]

/-- The next chunk is of the same command. -/
theorem nextChunk_fields (dadkp : Dadk) (bp : IoBuf) (p : Cmpkt) :
    (nextChunk dadkp bp p).byteleft = p.byteleft ∧ (nextChunk dadkp bp p).retry = p.retry ∧
      (nextChunk dadkp bp p).passthru = p.passthru ∧ (nextChunk dadkp bp p).cdb = p.cdb := by
  unfold nextChunk wholeCookie nextCookie
  dsimp only
  split
  · exact ⟨rfl, rfl, rfl, rfl⟩
  · split
    · exact ⟨rfl, rfl, rfl, rfl⟩
    · exact ⟨rfl, rfl, rfl, rfl⟩

theorem doneError_resid (io : Io (σ × Tally)) : (doneError io).bp.resid =
    io.bp.resid + (io.pkt.byteleft - io.pkt.bytexfer + io.pkt.resid) := by
  unfold doneError
  dsimp only
  split
  · rfl
  · rfl

/-- A chunk that is set up has moved nothing. -/
theorem Base.setup (hs : Sets c) (h : Base bp io moved since)
    (h0 : (ctlIosetup (tallied c) io).1.ctl.2.failed = 0) :
    Open bp (ctlIosetup (tallied c) io).1 moved 0 since ∧
      (ctlIosetup (tallied c) io).1.pkt.retry = io.pkt.retry := by
  rcases ctlIosetup_tally c io with ⟨-, hsends, hbp, hfail⟩
  rcases hs io.ctl.1 io.pkt h.passthru h.cdb (hfail.1 h0).2 with ⟨x, hx⟩
  have hpkt : (ctlIosetup (tallied c) io).1.pkt = { io.pkt with bytexfer := x, resid := x } := hx
  refine ⟨⟨⟨?_, ?_, ?_, ?_, ?_, ?_, ?_⟩, ?_⟩, by rw [hpkt]⟩
  · rw [hbp]
    exact h.error
  · rw [hbp]
    exact h.resid
  · rw [hpkt]
    exact h.passthru
  · rw [hpkt]
    exact h.cdb
  · rw [hpkt]
    exact h.left
  · rw [hsends, hpkt]
    exact h.sends
  · rw [hpkt]
    exact h.retry
  · rw [hpkt]
    exact Int.zero_add x

/-- A chunk may be sent once, and once more for every retry. -/
theorem Open.transport (h : Open bp io moved part since)
    (hlt : io.ctl.2.sends ≤ since + io.pkt.retry) :
    Open bp (ctlTransport (tallied c) io).1 moved part since where
  error := h.error
  resid := h.resid
  passthru := h.passthru
  cdb := h.cdb
  left := h.left
  sends := by
    have hsends : (ctlTransport (tallied c) io).1.ctl.2.sends = io.ctl.2.sends + 1 := rfl
    have hretry : (ctlTransport (tallied c) io).1.pkt.retry = io.pkt.retry := rfl
    omega
  retry := h.retry
  part := h.part

/-- What is not transferred is added to `b_resid`. -/
theorem Open.doneError (h : Open bp io moved part since) (n : Nat) (e : Option Errno) :
    Failed bp (doneError { io with
      pkt := { io.pkt with retry := n }, bp := { io.bp with error := e } }) moved part since := by
  refine ⟨doneError_error _, ?_, ?_⟩
  · have hleft := h.left
    have hpart := h.part
    have hresid := h.resid
    rw [doneError_resid]
    dsimp only
    omega
  · have hsends := h.sends
    have hretry := h.retry
    rw [doneError_ctl]
    dsimp only
    omega

theorem partOf_setup {io' : Io (σ × Tally)}
    (h : io'.ctl.2.setups = io.ctl.2.setups + 1) : partOf io io' part = 0 := by
  unfold partOf
  rw [if_neg (by omega)]

theorem partOf_same {io' : Io (σ × Tally)}
    (h : io'.ctl.2.setups = io.ctl.2.setups) : partOf io io' part = part := by
  unfold partOf
  rw [if_pos h]

/-- A retry that is counted. -/
theorem Open.again (h : Open bp io moved part since) (hr : io.pkt.retry < dadkRetryCount) :
    Open bp { io with pkt := { io.pkt with retry := io.pkt.retry + 1 } } moved part since where
  error := h.error
  resid := h.resid
  passthru := h.passthru
  cdb := h.cdb
  left := h.left
  sends := by
    have hsends := h.sends
    dsimp only
    omega
  retry := hr
  part := h.part

/-- `dadk_ioretry` sends the chunk again, or gives the buf up. -/
theorem ioretry_open (hs : Sets c) (h : Open bp io moved part since) {action : Action}
    (hact : action = .queCommand ∨ action = .commandDoneError)
    (h0 : (ioretry (tallied c) io action).1.ctl.2.failed = 0) :
    ((ioretry (tallied c) io action).2 = true → Open bp (ioretry (tallied c) io action).1 moved
        (partOf io (ioretry (tallied c) io action).1 part) since) ∧
      ((ioretry (tallied c) io action).2 = false → Failed bp (ioretry (tallied c) io action).1 moved
        (partOf io (ioretry (tallied c) io action).1 part) since) := by
  rcases hact with rfl | rfl
  · unfold ioretry at h0 ⊢
    dsimp only at h0 ⊢
    by_cases hr : io.pkt.retry < dadkRetryCount
    · rw [if_pos hr] at h0 ⊢
      -- The chunk is set up again, and sent if the controller takes it.
      have hagain := h.again hr
      generalize hio : ({ io with pkt := { io.pkt with retry := io.pkt.retry + 1 } } :
        Io (σ × Tally)) = io₁ at h0 hagain ⊢
      have hsends : io₁.ctl.2.sends ≤ since + io₁.pkt.retry := by
        have hle := h.sends
        rw [← hio]
        dsimp only
        omega
      have hsetups : (ctlIosetup (tallied c) io₁).1.ctl.2.setups = io.ctl.2.setups + 1 := by
        rw [← hio]
        rfl
      cases hsend : (ctlTransport (tallied c) (ctlIosetup (tallied c) io₁).1).2 with
      | true =>
          rw [hsend, if_pos rfl] at h0
          rw [if_pos rfl]
          dsimp only
          rw [partOf_setup (by exact hsetups)]
          rcases hagain.setup hs h0 with ⟨hset, hretry⟩
          exact ⟨fun _ => hset.transport (hretry.symm ▸ hsends), nofun⟩
      | false =>
          rw [hsend, if_neg Bool.false_ne_true] at h0
          dsimp only at h0
          rw [doneError_ctl] at h0
          rcases hagain.setup hs h0 with ⟨hset, hretry⟩
          have hsent := hset.transport (c := c) (hretry.symm ▸ hsends)
          -- The controller refused it: `dadk_ioretry` gives up.
          have hfail := hsent.doneError (ctlIosetup (tallied c) io₁).1.pkt.retry (some .enxio)
          rw [if_neg Bool.false_ne_true]
          refine ⟨nofun, fun _ => ?_⟩
          rw [partOf_setup (by rw [doneError_ctl]; exact hsetups)]
          exact hfail
    · rw [if_neg hr]
      refine ⟨nofun, fun _ => ?_⟩
      rw [partOf_same (by rw [doneError_ctl]; rfl)]
      -- The retries are used up.
      exact h.doneError (io.pkt.retry + 1) (some .enxio)
  · refine ⟨nofun, fun _ => ?_⟩
    unfold ioretry
    dsimp only
    rw [partOf_same (by rw [doneError_ctl])]
    exact h.doneError io.pkt.retry io.bp.error

/-- The tally only grows. -/
def Later (io io' : Io (σ × Tally)) : Prop :=
  io.ctl.2.failed ≤ io'.ctl.2.failed ∧ io.ctl.2.setups ≤ io'.ctl.2.setups

theorem Later.trans {io io' io'' : Io (σ × Tally)} (h : Later io io') (h' : Later io' io'') :
    Later io io'' :=
  ⟨le_trans h.1 h'.1, le_trans h.2 h'.2⟩

theorem tallied_steps (c : Ctl σ) : (tallied c).Steps fun k k' : σ × Tally =>
    k.2.failed ≤ k'.2.failed ∧ k.2.setups ≤ k'.2.setups where
  refl := fun _ => ⟨le_refl _, le_refl _⟩
  trans := fun h h' => ⟨le_trans h.1 h'.1, le_trans h.2 h'.2⟩
  iosetup := by
    intro k p
    refine ⟨?_, Nat.le_succ _⟩
    unfold tallied
    dsimp only
    split
    · exact le_refl _
    · exact Nat.le_succ _
  transport := fun _ _ => ⟨le_refl _, le_refl _⟩

theorem ioretry_later (c : Ctl σ) (io : Io (σ × Tally)) (action : Action) :
    Later io (ioretry (tallied c) io action).1 :=
  (tallied_steps c).ioretry io action

theorem iodone_later (c : Ctl σ) (dadkp : Dadk) (io : Io (σ × Tally)) :
    Later io (iodone (tallied c) dadkp io).1 :=
  (tallied_steps c).iodone dadkp io

theorem partOf_zero (io io' : Io (σ × Tally)) : partOf io io' 0 = 0 := by
  unfold partOf
  split
  · rfl
  · rfl

/-- The end of a call: the chunk at hand is open, or the buf has been given up,
    or it was the last one that has completed. -/
def Result (bp : IoBuf) (io : Io (σ × Tally)) (phase : Phase) (moved part : Int) (since : Nat)
    (isOpen : Bool) : Prop :=
  if phase = .done then
    if isOpen then Failed bp io moved part since else Whole bp io moved since
  else phase ≠ .ready ∧ isOpen = true ∧ Open bp io moved part since

/-- `dadk_iodone` finishes a buf that has been given up. -/
theorem Failed.iodone (h : Failed bp io moved part since) (dadkp : Dadk) :
    (iodone (tallied c) dadkp io).2 = .done ∧ (iodone (tallied c) dadkp io).1.ctl = io.ctl ∧
      Failed bp (iodone (tallied c) dadkp io).1 moved part since := by
  have hdone : Disk.iodone (tallied c) dadkp io =
      ({ io with pkt := { io.pkt with byteleft := io.pkt.byteleft - io.pkt.bytexfer } }, .done) :=
    if_neg fun hn => h.error hn.1
  rw [hdone]
  exact ⟨rfl, rfl, h.error, h.resid, h.sends⟩

/-- A retry, with the end of the buf if there is none left. -/
theorem retry_result (hs : Sets c) (h : Open bp io moved part since) {action : Action}
    (hact : action = .queCommand ∨ action = .commandDoneError) {t : Io (σ × Tally) × Phase}
    (ht : t = if (ioretry (tallied c) io action).2 then ((ioretry (tallied c) io action).1, .sent)
      else iodone (tallied c) dadkp (ioretry (tallied c) io action).1)
    (h0 : t.1.ctl.2.failed = 0) : Result bp t.1 t.2 moved (partOf io t.1 part) since true := by
  cases hr : (ioretry (tallied c) io action).2 with
  | true =>
      rw [hr, if_pos rfl] at ht
      subst ht
      exact ⟨nofun, rfl, (ioretry_open hs h hact h0).1 hr⟩
  | false =>
      rw [hr, if_neg Bool.false_ne_true] at ht
      have hle := (iodone_later c dadkp (ioretry (tallied c) io action).1).1
      rw [← ht, h0] at hle
      have hfail := (ioretry_open hs h hact (Nat.le_zero.1 hle)).2 hr
      rcases hfail.iodone (c := c) dadkp with ⟨hph, hctl, hf⟩
      rw [← ht] at hph hctl hf
      unfold Result
      rw [if_pos hph, if_pos rfl]
      unfold partOf at hf ⊢
      rw [hctl]
      exact hf

/-- The next chunk, which has not been sent yet. -/
theorem Base.next (h : Base bp io moved since) {p : Cmpkt}
    (hp : nextChunk dadkp io.bp
      { io.pkt with byteleft := io.pkt.byteleft - io.pkt.bytexfer, retry := 0 } = p) :
    Base bp { io with pkt := p } (moved + io.pkt.bytexfer) io.ctl.2.sends := by
  have hleft := h.left
  have hfields := nextChunk_fields dadkp io.bp
    { io.pkt with byteleft := io.pkt.byteleft - io.pkt.bytexfer, retry := 0 }
  rw [hp] at hfields
  rcases hfields with ⟨hbl, hretry, hpass, hcdb⟩
  dsimp only at hbl hretry hpass hcdb
  refine ⟨h.error, h.resid, hpass.trans h.passthru, ?_, ?_, ?_, ?_⟩
  · dsimp only
    rw [hcdb]
    exact h.cdb
  · dsimp only
    omega
  · dsimp only
    omega
  · dsimp only
    omega

/-- `dadk_iodone` when the chunk at hand has completed successfully. -/
theorem iodone_result (hs : Sets c) (h : Base bp io moved since)
    (h0 : (iodone (tallied c) dadkp io).1.ctl.2.failed = 0) :
    Result bp (iodone (tallied c) dadkp io).1 (iodone (tallied c) dadkp io).2
      (moved + io.pkt.bytexfer) 0 io.ctl.2.sends
      (decide ((iodone (tallied c) dadkp io).1.ctl.2.setups ≠ io.ctl.2.setups)) := by
  have hleft := h.left
  by_cases hmore : io.pkt.byteleft - io.pkt.bytexfer = 0
  · -- That was the last chunk.
    have hdone : iodone (tallied c) dadkp io =
        ({ io with pkt := { io.pkt with byteleft := io.pkt.byteleft - io.pkt.bytexfer } }, .done) :=
      if_neg fun hn => hn.2 hmore
    rw [hdone]
    unfold Result
    rw [if_pos rfl, if_neg (by simp)]
    refine ⟨h.error, h.resid, by omega, ?_⟩
    dsimp only
    omega
  · generalize hp : nextChunk dadkp io.bp
      { io.pkt with byteleft := io.pkt.byteleft - io.pkt.bytexfer, retry := 0 } = p
    have hbase := h.next hp
    unfold iodone iosetup at h0 ⊢
    dsimp only at h0 ⊢
    rw [if_pos ⟨h.error, hmore⟩, hp] at h0 ⊢
    generalize hset : (ctlIosetup (tallied c) { io with pkt := p }).1 = io₁ at h0 ⊢
    have hsetups : io₁.ctl.2.setups = io.ctl.2.setups + 1 := by
      rw [← hset]
      rfl
    have hopen : io₁.ctl.2.failed = 0 →
        Open bp (ctlTransport (tallied c) io₁).1 (moved + io.pkt.bytexfer) 0 io.ctl.2.sends := by
      intro hf
      rw [← hset] at hf
      rcases hbase.setup hs hf with ⟨ho, -⟩
      rw [hset] at ho
      refine ho.transport ?_
      rw [← hset]
      exact Nat.le_add_right _ _
    -- From here on there has been a setup, whatever becomes of the chunk.
    have hnew : ∀ t : Io (σ × Tally), Later io₁ t →
        decide (t.ctl.2.setups ≠ io.ctl.2.setups) = true := by
      intro t ht
      have hle := ht.2
      rw [decide_eq_true_eq]
      omega
    cases hsend : (ctlTransport (tallied c) io₁).2 with
    | true =>
        rw [hsend, if_pos rfl] at h0
        rw [if_pos rfl]
        exact ⟨nofun, hnew _ ⟨le_refl _, le_refl _⟩, hopen h0⟩
    | false =>
        rw [hsend, if_neg Bool.false_ne_true] at h0
        rw [if_neg Bool.false_ne_true]
        -- The chunk was refused at once, and `dadk_ioretry` tries again.
        have hlater := ioretry_later c (ctlTransport (tallied c) io₁).1 .queCommand
        have hf₁ : (ioretry (tallied c) (ctlTransport (tallied c) io₁).1 .queCommand).1.ctl.2.failed
            = 0 := by
          split at h0
          · exact h0
          · exact h0
        have hle := hlater.1
        rw [hf₁] at hle
        rcases ioretry_open hs (hopen (Nat.le_zero.1 hle)) (Or.inl rfl) hf₁ with ⟨hsent, hfail⟩
        rw [partOf_zero] at hsent hfail
        cases hr : (ioretry (tallied c) (ctlTransport (tallied c) io₁).1 .queCommand).2 with
        | true =>
            rw [if_pos rfl]
            exact ⟨nofun, hnew _ hlater, hsent hr⟩
        | false =>
            rw [if_neg Bool.false_ne_true, hnew _ hlater]
            exact hfail hr

/-- `dadk_restart` -/
theorem restart_result (hs : Sets c) (h : Open bp io moved part since)
    (h0 : (restart (tallied c) dadkp io).1.ctl.2.failed = 0) :
    Result bp (restart (tallied c) dadkp io).1 (restart (tallied c) dadkp io).2 moved
      (partOf io (restart (tallied c) dadkp io).1 part) since true :=
  retry_result hs h (Or.inl rfl) rfl h0

theorem restart_later (c : Ctl σ) (dadkp : Dadk) (io : Io (σ × Tally)) :
    Later io (restart (tallied c) dadkp io).1 :=
  (tallied_steps c).restart dadkp io

/-- `dadk_transport` -/
theorem transport_result (hs : Sets c) (h : Open bp io moved part since)
    (hlt : io.ctl.2.sends ≤ since + io.pkt.retry)
    (h0 : (transport (tallied c) dadkp io).1.ctl.2.failed = 0) :
    Result bp (transport (tallied c) dadkp io).1 (transport (tallied c) dadkp io).2 moved
      (partOf io (transport (tallied c) dadkp io).1 part) since true := by
  have hsent := h.transport (c := c) hlt
  unfold transport at h0 ⊢
  dsimp only at h0 ⊢
  cases hsend : (ctlTransport (tallied c) io).2 with
  | true =>
      rw [if_pos rfl]
      dsimp only
      rw [partOf_same (by rfl)]
      exact ⟨nofun, rfl, hsent⟩
  | false =>
      rw [hsend, if_neg Bool.false_ne_true] at h0
      rw [if_neg Bool.false_ne_true]
      exact restart_result hs hsent h0

theorem transport_later (c : Ctl σ) (dadkp : Dadk) (io : Io (σ × Tally)) :
    Later io (transport (tallied c) dadkp io).1 :=
  (tallied_steps c).dadkTransport dadkp io

/-- `dadk_pktcb` for an error that does not count as a success. -/
theorem pktcb_result (hs : Sets c) (h : Open bp io moved part since)
    (hr : io.pkt.reason ≠ .success) (hact : failAction dadkp io.pkt ≠ .commandDone)
    (h0 : (pktcb (tallied c) dadkp io).1.ctl.2.failed = 0) :
    Result bp (pktcb (tallied c) dadkp io).1 (pktcb (tallied c) dadkp io).2 moved
      (partOf io (pktcb (tallied c) dadkp io).1 part) since true := by
  have hpass : io.pkt.passthru.isSome = false := by rw [h.passthru]; rfl
  unfold pktcb at h0 ⊢
  rw [if_neg hr, if_neg (by rw [hpass]; exact Bool.false_ne_true)] at h0 ⊢
  cases hfa : failAction dadkp io.pkt with
  | commandDone => exact absurd hfa hact
  | justReturn =>
      dsimp only
      rw [partOf_same rfl]
      exact ⟨nofun, rfl, h⟩
  | queCommand =>
      rw [hfa] at h0
      exact retry_result hs h (Or.inl rfl) rfl h0
  | commandDoneError =>
      rw [hfa] at h0
      exact retry_result hs h (Or.inr rfl) rfl h0

theorem pktcb_later (c : Ctl σ) (dadkp : Dadk) (io : Io (σ × Tally)) :
    Later io (pktcb (tallied c) dadkp io).1 :=
  (tallied_steps c).pktcb dadkp io

end Functions

/-! ## Runs -/

/-- The invariant of a request: one thing may call back for its buf until it is
    finished, and nothing then. -/
structure FinOk {σ : Type} (bp : IoBuf) (r : FinRun σ) : Prop where
  once : r.ready + r.sent + r.waiting + r.biodones = 1
  deques : r.deques = r.biodones
  running : r.io.ctl.2.failed = 0 → r.biodones = 0 →
    r.isOpen = true ∧ Open bp r.io r.moved r.part r.since ∧
      (0 < r.ready → r.io.ctl.2.sends ≤ r.since + r.io.pkt.retry)
  finished : r.io.ctl.2.failed = 0 → r.biodones ≠ 0 →
    if r.isOpen then Failed bp r.io r.moved r.part r.since else Whole bp r.io r.moved r.since

section Runs

variable {σ : Type} {c : Ctl σ} {dadkp : Dadk} {bp : IoBuf} {r : FinRun σ} {io : Io (σ × Tally)}
  {phase : Phase}

/-- The call of the one thing that could call back for the buf. -/
theorem FinOk.after (hready : r.ready = 0) (hsent : r.sent = 0) (hwaiting : r.waiting = 0)
    (hb : r.biodones = 0) (hd : r.deques = 0)
    (h : io.ctl.2.failed = 0 → Result bp io phase r.moved r.part r.since r.isOpen) :
    FinOk bp (r.after io phase) := by
  unfold Result at h
  cases phase with
  | ready =>
      refine ⟨?_, hd.trans hb.symm, fun h0 _ => ?_, fun _ hn => absurd hb hn⟩
      · simp only [FinRun.after]
        omega
      · exact absurd rfl (h h0).1
  | sent =>
      refine ⟨?_, hd.trans hb.symm, fun h0 _ => ?_, fun _ hn => absurd hb hn⟩
      · simp only [FinRun.after]
        omega
      · exact ⟨(h h0).2.1, (h h0).2.2, fun hp => absurd hready (Nat.ne_of_gt hp)⟩
  | waiting =>
      refine ⟨?_, hd.trans hb.symm, fun h0 _ => ?_, fun _ hn => absurd hb hn⟩
      · simp only [FinRun.after]
        omega
      · exact ⟨(h h0).2.1, (h h0).2.2, fun hp => absurd hready (Nat.ne_of_gt hp)⟩
  | done =>
      refine ⟨?_, ?_, fun _ hn => absurd hn (Nat.succ_ne_zero _), fun h0 _ => h h0⟩
      · simp only [FinRun.after]
        omega
      · simp only [FinRun.after]
        omega

/-- The report of a command only changes what is left of its chunk. -/
theorem Open.report {moved part : Int} {since : Nat} (h : Open bp io moved part since)
    (rep : Completion) :
    Open bp { io with pkt := io.pkt.report rep } moved (io.pkt.bytexfer - rep.resid) since where
  error := h.error
  resid := h.resid
  passthru := h.passthru
  cdb := h.cdb
  left := h.left
  sends := h.sends
  retry := h.retry
  part := Int.sub_add_cancel _ _

/-- A call that leaves no failed setup behind found the request open. -/
theorem FinOk.isOpen_of_later {io' : Io (σ × Tally)} (h : FinOk bp r) (hb : r.biodones = 0)
    (hctl : io.ctl = r.io.ctl) (hl : Later io io') (h0 : io'.ctl.2.failed = 0) :
    r.isOpen = true ∧ Open bp r.io r.moved r.part r.since ∧
      (0 < r.ready → r.io.ctl.2.sends ≤ r.since + r.io.pkt.retry) := by
  have hle := hl.1
  rw [h0, hctl] at hle
  exact h.running (Nat.le_zero.1 hle) hb

/-- Whatever happens to a request, one thing may call back for it, or it is
    finished. -/
theorem FinStep.ok (hs : Sets c) {r' : FinRun σ} (hst : FinStep c dadkp r r') (h : FinOk bp r) :
    FinOk bp r' := by
  have honce := h.once
  have hdeques := h.deques
  cases hst with
  | transport hpos =>
      have hb : r.biodones = 0 := by omega
      refine FinOk.after (by dsimp only; omega) (by dsimp only; omega) (by dsimp only; omega)
        hb (hdeques.trans hb) fun h0 => ?_
      rcases h.isOpen_of_later hb rfl (transport_later c dadkp r.io) h0 with ⟨hopen, ho, hready⟩
      have hres := transport_result hs ho (hready hpos) h0
      rwa [← hopen] at hres
  | complete hpos regs hle io hio hfail =>
      have hb : r.biodones = 0 := by omega
      refine FinOk.after (by dsimp only; omega) (by dsimp only; omega) (by dsimp only; omega)
        hb (hdeques.trans hb) fun h0 => ?_
      have hctl : io.ctl = r.io.ctl := by rw [hio]
      rcases h.isOpen_of_later hb hctl (pktcb_later c dadkp io) h0 with ⟨hopen, ho, -⟩
      have hrep : Open bp io r.moved (io.pkt.bytexfer - io.pkt.resid) r.since := by
        rw [hio]
        exact ho.report _
      have hreason : io.pkt.reason ≠ .success := by
        rw [hio]
        exact hfail
      -- A failed command is not taken for one that is done.
      have hact : failAction dadkp io.pkt ≠ .commandDone := by
        rw [hio]
        exact ((diskComplete_action dadkp r.io.pkt regs).resolve_left hfail).2
      have hres := pktcb_result hs hrep hreason hact h0
      rwa [← hopen] at hres
  | success hpos regs hle io hio hdone =>
      have hb : r.biodones = 0 := by omega
      refine FinOk.after (by dsimp only; omega) (by dsimp only; omega) (by dsimp only; omega)
        hb (hdeques.trans hb) fun h0 => ?_
      have hctl : io.ctl = r.io.ctl := by rw [hio]
      rcases h.isOpen_of_later hb hctl (pktcb_later c dadkp io) h0 with ⟨-, ho, -⟩
      have hrep : Open bp io r.moved (io.pkt.bytexfer - io.pkt.resid) r.since := by
        rw [hio]
        exact ho.report _
      have hreason : io.pkt.reason = .success := by
        rw [hio]
        exact hdone
      -- A command that is done goes straight to `dadk_iodone`.
      have hcb : pktcb (tallied c) dadkp io = iodone (tallied c) dadkp io := by
        unfold pktcb
        rw [if_pos hreason]
      rw [hcb] at h0
      have hres := iodone_result hs hrep.toBase h0
      rw [← hcb] at hres
      have hxfer : io.pkt.bytexfer = r.io.pkt.bytexfer := by
        rw [hio]
        rfl
      rwa [hctl, hxfer] at hres
  | restart hpos =>
      have hb : r.biodones = 0 := by omega
      refine FinOk.after (by dsimp only; omega) (by dsimp only; omega) (by dsimp only; omega)
        hb (hdeques.trans hb) fun h0 => ?_
      rcases h.isOpen_of_later hb rfl (restart_later c dadkp r.io) h0 with ⟨hopen, ho, -⟩
      have hres := restart_result hs ho h0
      rwa [← hopen] at hres
  | ctl k =>
      refine ⟨honce, hdeques, fun h0 hb => ?_, fun h0 hb => ?_⟩
      -- The controller's own state does not matter to the invariant.
      · rcases h.running h0 hb with ⟨hopen, ho, hready⟩
        exact ⟨hopen, ⟨⟨ho.error, ho.resid, ho.passthru, ho.cdb, ho.left, ho.sends, ho.retry⟩,
          ho.part⟩, hready⟩
      · have hfin := h.finished h0 hb
        dsimp only
        split
        · next hopen =>
          rw [if_pos hopen] at hfin
          exact ⟨hfin.error, hfin.resid, hfin.sends⟩
        · next hopen =>
          rw [if_neg hopen] at hfin
          exact ⟨hfin.error, hfin.resid, hfin.moved, hfin.sends⟩

/-- A request begins with the transport that flow control owes it. -/
theorem FinStart.ok (hs : Sets c) (h : FinStart c dadkp bp r) : FinOk bp r := by
  rcases h with ⟨hint, herr, k, bp', hacc, rfl⟩
  -- `dadk_strategy` has accepted the buf, and changed none of this.
  have hbp : bp'.internal = none ∧ bp'.error = none ∧ bp'.resid = bp.resid ∧
      bp'.bcount = bp.bcount := by
    rcases strategy_accepted hacc with ⟨-, rfl⟩
    exact ⟨hint, herr, rfl, rfl⟩
  rcases hbp with ⟨hint', herr', hresid, hbcount⟩
  refine ⟨rfl, rfl, fun h0 _ => ?_, fun _ hn => absurd rfl hn⟩
  unfold ioprep iosetup at h0 ⊢
  dsimp only at h0 ⊢
  rw [hint'] at h0 ⊢
  dsimp only at h0 ⊢
  generalize hcdb : (if bp'.read then Dcmd.read else Dcmd.write) = cdb at h0 ⊢
  have hfields := nextChunk_fields dadkp bp'
    { cdb := cdb, byteleft := bp'.bcount, priv := dadkp.bbh bp'.toBuf }
  generalize hp : nextChunk dadkp bp'
    { cdb := cdb, byteleft := bp'.bcount, priv := dadkp.bbh bp'.toBuf } = p at h0 hfields ⊢
  rcases hfields with ⟨hbl, hretry, hpass, hc⟩
  dsimp only at hbl hretry hpass hc
  have hbase : Base bp (⟨(k, ⟨0, 0, 0⟩), p, bp'⟩ : Io (σ × Tally)) 0 0 := by
    refine ⟨herr', hresid, hpass, ?_, ?_, Nat.zero_le _, ?_⟩
    · dsimp only
      rw [hc, ← hcdb]
      split
      · exact Or.inl rfl
      · exact Or.inr rfl
    · dsimp only
      rw [hbl, hbcount]
      omega
    · dsimp only
      rw [hretry]
      exact Nat.zero_le _
  exact ⟨rfl, (hbase.setup hs h0).1, fun _ => Nat.zero_le _⟩

end Runs

/-! ## The disk controller -/

/-- The controller's entry points for a disk, with any outcome of
    `CTL_TRANSPORT`. -/
def diskCtl (drv : DiskDrv) (send : AtaDisk → Cmpkt → AtaDisk × Bool) : Ctl AtaDisk where
  iosetup := diskIosetup drv
  transport := send

/-- A disk without bad blocks. -/
def plainDisk : Dadk where
  secshf := 9
  blkshf := 0
  rdonly := false
  cdrom := false
  bbh := fun _ => none

/-- A read of two sectors. -/
def twoBuf : IoBuf :=
  { part := 0, sec := 0, bcount := 1024, read := true, internal := none, resid := 0
    error := none }

/-- A controller in PIO mode that accepts every command. -/
def pioCtl : Ctl AtaDisk := diskCtl lba28Disk fun k _ => (k, true)

end Ata

end Sil3112
