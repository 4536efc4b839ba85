import Sil3112.Ata.Complete

/-!
# Setup Before Transport

Whether dadk sends a packet only after `CTL_IOSETUP` has prepared it. A request
comes through `dadk_strategy`, and gets its packet from `dadk_pkt` when flow
control asks for it; or through `dadk_dk`, which prepares the packet of a
pass-through ioctl; or through `dadk_dump`, which sends one chunk after the
other and polls.

Of these only `dadk_pkt` looks at the result of the setup, and it leaves the
packet with the buf. Flow control asks again, and takes a buf that has a packet
for prepared. `dadk_iodone`, `dadk_ioretry`, `dadk_dump` and `dadk_dk` go on
whatever the result is.

There is one setup that is meant to fail: a disk command that has failed with
DMA is sent again as it is.

## Main definitions

* `Watch`, `watched`: What is known of the last setup, and a controller that
  keeps it.
* `pollPktcb`, `pollTransport`, `dumpNext`: dadk's functions when it polls.
* `SetupRun`, `SetupStep`: A request on any of its ways, and what can happen to
  it. The steps may be limited to those that have a setup.
* `Safely`: What a call keeps if no setup fails in it.

## Theorems

* `watched_steps`: Both entry points of a controller keep `Safely`.
* `SetupStep.prepared`: Every step keeps a packet with dadk prepared.
* `transport_after_setup`: If no setup fails where its result is ignored, no
  packet is sent without a setup.
-/

namespace Sil3112

namespace Ata

open Disk Transition

/-- The setups and transports of a packet: whether the last `CTL_IOSETUP` has
    prepared it, how many have failed, and how many `CTL_TRANSPORT` came after
    one that has failed. -/
structure Watch where
  prepared : Bool
  failed : Nat
  unprepared : Nat

/-- A controller that is watched. `again` says that the packet is a retry of a
    DMA command, for which `CTL_IOSETUP` returns `NULL` on purpose. -/
def watched {σ : Type} (c : Ctl σ) (again : σ → Bool) : Ctl (σ × Watch) where
  iosetup := fun k pktp =>
    let r := c.iosetup k.1 pktp
    let w := if r.2.2 then { k.2 with prepared := true }
      else if k.2.prepared && again k.1 then k.2
      else { k.2 with prepared := false, failed := k.2.failed + 1 }
    ((r.1, w), r.2)
  transport := fun k pktp =>
    let r := c.transport k.1 pktp
    let w := if k.2.prepared then k.2 else { k.2 with unprepared := k.2.unprepared + 1 }
    ((r.1, w), r.2)

section Poll

variable {σ : Type} (c : Ctl σ) (dadkp : Dadk)

/-- `dadk_restart` for a packet of `dadk_dump`, whose `cp_iodone` is
    `dadk_polldone`. -/
def pollRestart (s : Io σ) : Io σ × Phase :=
  let r := ioretry c s .queCommand
  (r.1, if r.2 then .sent else .done)

/-- `dadk_transport` for a packet of `dadk_dump` -/
def pollTransport (s : Io σ) : Io σ × Phase :=
  let r := ctlTransport c s
  if r.2 then (r.1, .sent) else pollRestart c r.1

/-- `dadk_pktcb` for a packet of `dadk_dump` -/
def pollPktcb (s : Io σ) : Io σ × Phase :=
  if s.pkt.reason = .success then (s, .done)
  else match failAction dadkp s.pkt with
    | .justReturn => (s, .waiting)
    | .commandDone => (s, .done)
    | action =>
      let r := ioretry c s action
      (r.1, if r.2 then .sent else .done)

/-- `dadk_dump` once the packet is there: the first chunk. -/
def dumpFirst (s : Io σ) : Io σ × Phase :=
  pollTransport c (ioprep c dadkp s).1

/-- The loop of `dadk_dump`, when a command has been polled: the next chunk, if
    there is one. -/
def dumpNext (s : Io σ) : Option (Io σ × Phase) :=
  let s := { s with pkt := { s.pkt with byteleft := s.pkt.byteleft - s.pkt.bytexfer } }
  if s.bp.error = none ∧ s.pkt.byteleft ≠ 0 then
    some (pollTransport c (Disk.iosetup c dadkp s).1)
  else none

end Poll

/-- Where a request is: on its way to `dadk_pkt`, `dadk_dk` or `dadk_dump`, with
    a packet in flow control, with dadk, or in the loop of `dadk_dump`. -/
inductive Place where
  | strategy
  | ioctl
  | dump
  | held
  | io (phase : Phase)
  | polled (phase : Phase)

/-- A request and its place. -/
structure SetupRun (σ : Type) where
  place : Place
  io : Io (σ × Watch)

/-- No setup fails from one state to the other. -/
def NoFailure {σ : Type} (io io' : Io (σ × Watch)) : Prop :=
  io'.ctl.2.failed = io.ctl.2.failed

/-- What can happen to a request. If `strict`, then `dadk_pkt` is not called for
    a buf whose packet could not be set up, and no setup fails that is followed
    by a transport. -/
inductive SetupStep {σ : Type} (c : Ctl (σ × Watch)) (dadkp : Dadk) (strict : Prop) :
    SetupRun σ → SetupRun σ → Prop where
  | pkt (io : Io (σ × Watch)) (claimed : Bool) :
      SetupStep c dadkp strict ⟨.strategy, io⟩
        ⟨if (ioprep c dadkp io).2 && claimed then .io .ready else .held, (ioprep c dadkp io).1⟩
  | pktAgain (io : Io (σ × Watch)) (h : strict → io.ctl.2.prepared = true) :
      SetupStep c dadkp strict ⟨.held, io⟩ ⟨.io .ready, io⟩
  | dk (io io' : Io (σ × Watch)) (rw : RwCmd)
      (hio : io' = { io with pkt := { io.pkt with passthru := some rw } }) :
      SetupStep c dadkp strict ⟨.ioctl, io⟩ ⟨.held, (ioprep c dadkp io').1⟩
  | transport (io : Io (σ × Watch)) (h : strict → NoFailure io (transport c dadkp io).1) :
      SetupStep c dadkp strict ⟨.io .ready, io⟩
        ⟨.io (transport c dadkp io).2, (transport c dadkp io).1⟩
  | complete (io io' : Io (σ × Watch)) (r : Completion)
      (hio : io' = { io with pkt := io.pkt.report r })
      (h : strict → NoFailure io (pktcb c dadkp io').1) :
      SetupStep c dadkp strict ⟨.io .sent, io⟩
        ⟨.io (pktcb c dadkp io').2, (pktcb c dadkp io').1⟩
  | restart (io : Io (σ × Watch)) (h : strict → NoFailure io (restart c dadkp io).1) :
      SetupStep c dadkp strict ⟨.io .waiting, io⟩
        ⟨.io (restart c dadkp io).2, (restart c dadkp io).1⟩
  | dump (io : Io (σ × Watch)) (h : strict → NoFailure io (dumpFirst c dadkp io).1) :
      SetupStep c dadkp strict ⟨.dump, io⟩
        ⟨.polled (dumpFirst c dadkp io).2, (dumpFirst c dadkp io).1⟩
  | polled (io io' : Io (σ × Watch)) (r : Completion)
      (hio : io' = { io with pkt := io.pkt.report r })
      (h : strict → NoFailure io (pollPktcb c dadkp io').1) :
      SetupStep c dadkp strict ⟨.polled .sent, io⟩
        ⟨.polled (pollPktcb c dadkp io').2, (pollPktcb c dadkp io').1⟩
  | next (io : Io (σ × Watch)) (phase : Phase) (hphase : phase ≠ .sent) (r : Io (σ × Watch) × Phase)
      (hr : dumpNext c dadkp io = some r) (h : strict → NoFailure io r.1) :
      SetupStep c dadkp strict ⟨.polled phase, io⟩ ⟨.polled r.2, r.1⟩
  | pollRestart (io : Io (σ × Watch)) (phase : Phase)
      (h : strict → NoFailure io (pollRestart c io).1) :
      SetupStep c dadkp strict ⟨.polled phase, io⟩
        ⟨.polled (pollRestart c io).2, (pollRestart c io).1⟩
  | ctl (place : Place) (io : Io (σ × Watch)) (k : σ) :
      SetupStep c dadkp strict ⟨place, io⟩ ⟨place, { io with ctl := (k, io.ctl.2) }⟩

/-- A buf without a packet. -/
def SetupStart {σ : Type} (s : SetupRun σ) : Prop :=
  (s.place = .strategy ∨ s.place = .ioctl ∨ s.place = .dump) ∧ s.io.ctl.2 = ⟨false, 0, 0⟩ ∧
    s.io.pkt = {}

/-! ## What a call keeps -/

/-- What holds between the states before and after a call: if no setup has
    failed in between, a packet that was prepared still is, and none has been
    sent without. -/
def Safely {σ : Type} (k k' : σ × Watch) : Prop :=
  k.2.failed ≤ k'.2.failed ∧ (k'.2.failed = k.2.failed → k.2.prepared = true →
    k'.2.prepared = true ∧ k'.2.unprepared = k.2.unprepared)

section Calls

variable {σ : Type} {c : Ctl σ} {again : σ → Bool} {dadkp : Dadk} {R : σ → σ → Prop}

/-- A setup prepares the packet or fails. It does not send anything. -/
theorem watched_iosetup (c : Ctl σ) (again : σ → Bool) (k : σ × Watch) (p : Cmpkt) :
    let r := (watched c again).iosetup k p
    r.1.2.unprepared = k.2.unprepared ∧ k.2.failed ≤ r.1.2.failed ∧
      (r.1.2.failed = k.2.failed → r.1.2.prepared = true) ∧
      (r.2.2 = true → r.1.2.prepared = true) := by
  unfold watched
  dsimp only
  split
  · exact ⟨rfl, le_refl _, fun _ => rfl, fun _ => rfl⟩
  · next hnull =>
    split
    · next hagain =>
      rw [Bool.and_eq_true] at hagain
      exact ⟨rfl, le_refl _, fun _ => hagain.1, fun _ => hagain.1⟩
    · refine ⟨rfl, Nat.le_succ _, fun h => ?_, fun h => absurd h hnull⟩
      exact absurd h (Nat.succ_ne_self _)

/-- Both entry points of a controller keep `Safely`. -/
theorem watched_steps (c : Ctl σ) (again : σ → Bool) : (watched c again).Steps Safely where
  refl := fun _ => ⟨le_refl _, fun _ h => ⟨h, rfl⟩⟩
  trans := by
    intro k k' k'' h h'
    refine ⟨le_trans h.1 h'.1, fun hf hp => ?_⟩
    have hle := h.1
    have hle' := h'.1
    rcases h.2 (by omega) hp with ⟨hp', hu'⟩
    rcases h'.2 (by omega) hp' with ⟨hp'', hu''⟩
    exact ⟨hp'', hu''.trans hu'⟩
  iosetup := by
    intro k p
    rcases watched_iosetup c again k p with ⟨hu, hle, hprep, -⟩
    exact ⟨hle, fun hf _ => ⟨hprep hf, hu⟩⟩
  transport := by
    intro k p
    unfold watched
    dsimp only
    split
    · exact ⟨le_refl _, fun _ h => ⟨h, rfl⟩⟩
    · next hn => exact ⟨le_refl _, fun _ h => absurd h hn⟩

/-- What a controller keeps, the functions that poll keep as well. -/
theorem pollRestart_ctl (h : c.Steps R) (s : Io σ) : R s.ctl (pollRestart c s).1.ctl :=
  h.ioretry s .queCommand

theorem pollTransport_ctl (h : c.Steps R) (s : Io σ) : R s.ctl (pollTransport c s).1.ctl := by
  have hsend : R s.ctl (ctlTransport c s).1.ctl := h.transport _ _
  unfold pollTransport
  dsimp only
  split
  · exact hsend
  · exact h.trans hsend (pollRestart_ctl h _)

theorem pollPktcb_ctl (h : c.Steps R) (dadkp : Dadk) (s : Io σ) :
    R s.ctl (pollPktcb c dadkp s).1.ctl := by
  unfold pollPktcb
  split
  · exact h.refl s.ctl
  · cases failAction dadkp s.pkt with
    | commandDone => exact h.refl s.ctl
    | justReturn => exact h.refl s.ctl
    | queCommand => exact h.ioretry s .queCommand
    | commandDoneError => exact h.ioretry s .commandDoneError

/-- The next chunk of `dadk_dump` is set up and sent. -/
theorem dumpNext_spec {s : Io σ} {r : Io σ × Phase} (hr : dumpNext c dadkp s = some r) :
    ∃ s₁ : Io σ, s₁.ctl = s.ctl ∧ r = pollTransport c (Disk.iosetup c dadkp s₁).1 := by
  unfold dumpNext at hr
  dsimp only at hr
  split at hr
  · cases hr
    exact ⟨{ s with pkt := { s.pkt with byteleft := s.pkt.byteleft - s.pkt.bytexfer } }, rfl, rfl⟩
  · cases hr

/-- A setup and what follows it. -/
theorem prepared_of_iosetup {k k' : σ × Watch} (p : Cmpkt)
    (hs : Safely ((watched c again).iosetup k p).1 k') (hf : k'.2.failed = k.2.failed) :
    k'.2.prepared = true ∧ k'.2.unprepared = k.2.unprepared := by
  rcases watched_iosetup c again k p with ⟨hu, hle, hprep, -⟩
  have hle' := hs.1
  have heq : ((watched c again).iosetup k p).1.2.failed = k.2.failed := by omega
  rcases hs.2 (by omega) (hprep heq) with ⟨hp', hu'⟩
  exact ⟨hp', hu'.trans hu⟩

/-- A chunk of `dadk_dump`: it is set up and sent. -/
theorem chunk_prepared (s : Io (σ × Watch))
    (hf : NoFailure s
      (pollTransport (watched c again) (Disk.iosetup (watched c again) dadkp s).1).1) :
    let s' := (pollTransport (watched c again) (Disk.iosetup (watched c again) dadkp s).1).1
    s'.ctl.2.prepared = true ∧ s'.ctl.2.unprepared = s.ctl.2.unprepared :=
  prepared_of_iosetup (nextChunk dadkp s.bp s.pkt)
    (pollTransport_ctl (watched_steps c again) (Disk.iosetup (watched c again) dadkp s).1) hf

/-- `dadk_ioprep` sends nothing either. -/
theorem ioprep_watched (c : Ctl σ) (again : σ → Bool) (dadkp : Dadk) (io : Io (σ × Watch)) :
    (ioprep (watched c again) dadkp io).1.ctl.2.unprepared = io.ctl.2.unprepared ∧
      ((ioprep (watched c again) dadkp io).2 = true →
        (ioprep (watched c again) dadkp io).1.ctl.2.prepared = true) :=
  ⟨(watched_iosetup c again io.ctl _).1, (watched_iosetup c again io.ctl _).2.2.2⟩

/-- The invariant: nothing has been sent without a setup, and a packet that is
    with dadk is prepared. -/
structure Prepared (s : SetupRun σ) : Prop where
  none : s.io.ctl.2.unprepared = 0
  place : match s.place with
    | .io _ => s.io.ctl.2.prepared = true
    | .polled _ => s.io.ctl.2.prepared = true
    | _ => True

/-- A call that has kept `Safely` and in which no setup has failed. -/
theorem Safely.prepared {io io' : Io (σ × Watch)} (h : Safely io.ctl io'.ctl)
    (hf : NoFailure io io') (hu : io.ctl.2.unprepared = 0) (hp : io.ctl.2.prepared = true) :
    io'.ctl.2.unprepared = 0 ∧ io'.ctl.2.prepared = true := by
  rcases h.2 hf hp with ⟨hp', hu'⟩
  exact ⟨hu'.trans hu, hp'⟩

/-- Every step keeps the invariant, if no setup fails where its result is
    ignored. -/
theorem SetupStep.prepared {s s' : SetupRun σ}
    (hst : SetupStep (watched c again) dadkp True s s') (h : Prepared s) : Prepared s' := by
  have hw := watched_steps c again
  have hnone := h.none
  have hplace := h.place
  cases hst with
  | pkt io claimed =>
      -- dadk sends the packet only if it has been set up.
      rcases ioprep_watched c again dadkp io with ⟨hu, hprep⟩
      refine ⟨hu.trans hnone, ?_⟩
      cases hr : (ioprep (watched c again) dadkp io).2 with
      | false => trivial
      | true =>
          cases claimed with
          | false => trivial
          | true => exact hprep hr
  | pktAgain io hp => exact ⟨hnone, hp trivial⟩
  | dk io io' rw hio =>
      subst hio
      exact ⟨(ioprep_watched c again dadkp { io with pkt := _ }).1.trans hnone, trivial⟩
  | transport io hf =>
      rcases (hw.dadkTransport dadkp io).prepared (hf trivial) hnone hplace with ⟨hu, hp⟩
      exact ⟨hu, hp⟩
  | complete io io' r hio hf =>
      subst hio
      -- What the controller reports does not matter.
      have hcb : Safely io.ctl _ := hw.pktcb dadkp { io with pkt := io.pkt.report r }
      rcases hcb.prepared (hf trivial) hnone hplace with ⟨hu, hp⟩
      exact ⟨hu, hp⟩
  | restart io hf =>
      rcases (hw.restart dadkp io).prepared (hf trivial) hnone hplace with ⟨hu, hp⟩
      exact ⟨hu, hp⟩
  | dump io hf =>
      rcases prepared_of_iosetup _ (pollTransport_ctl hw (ioprep (watched c again) dadkp io).1)
        (hf trivial) with ⟨hp, hu⟩
      exact ⟨hu.trans hnone, hp⟩
  | polled io io' r hio hf =>
      subst hio
      have hcb : Safely io.ctl _ := pollPktcb_ctl hw dadkp { io with pkt := io.pkt.report r }
      rcases hcb.prepared (hf trivial) hnone hplace with ⟨hu, hp⟩
      exact ⟨hu, hp⟩
  | next io phase hphase r hr hf =>
      -- The next chunk is set up before it is sent.
      rcases dumpNext_spec hr with ⟨s₁, hctl, rfl⟩
      have hf := hf trivial
      unfold NoFailure at hf
      rw [← hctl] at hf hnone
      rcases chunk_prepared s₁ hf with ⟨hp, hu⟩
      exact ⟨hu.trans hnone, hp⟩
  | pollRestart io phase hf =>
      rcases (pollRestart_ctl hw io).prepared (hf trivial) hnone hplace with ⟨hu, hp⟩
      exact ⟨hu, hp⟩
  | ctl place io k => exact ⟨hnone, hplace⟩

end Calls

/-- A packet is sent only after a setup that has not failed, if none fails where
    its result is ignored. For every controller, every buf and every run through
    `dadk_pkt`, `dadk_iodone`, `dadk_dump` and `dadk_dk`: if `dadk_pkt` is not
    called for a buf whose packet could not be set up, and `CTL_IOSETUP` does not
    fail when `dadk_iodone`, `dadk_ioretry` or `dadk_dump` calls it, then
    `CTL_TRANSPORT` is never called for a packet whose last `CTL_IOSETUP` has
    failed. -/
theorem transport_after_setup {σ : Type} (c : Ctl σ) (again : σ → Bool) (dadkp : Dadk)
    (s : SetupRun σ) (hs : Reachable SetupStart (SetupStep (watched c again) dadkp True) s) :
    s.io.ctl.2.unprepared = 0 := by
  refine (Reachable.invariant (I := Prepared) ?_ (fun _ _ _ h hst => hst.prepared h) hs).none
  rintro ⟨place, io⟩ ⟨hplace, hw, -⟩
  refine ⟨by rw [hw], ?_⟩
  rcases hplace with rfl | rfl | rfl
  · trivial
  · trivial
  · trivial

/-- The retry of a command that has failed with DMA, which `ata_disk_iosetup`
    does not set up again. -/
def dmaRetry (k : AtaDisk) : Bool :=
  k.pkt.flags.error && k.dma.handle.isSome

/-- The buf of a `DKIOCGETDEF`. -/
def getdefBuf : IoBuf :=
  { part := 0, sec := 0, bcount := 512, read := false, internal := some .getdef, resid := 0
    error := none }

/-- A buf on its way to flow control. -/
def queued (bp : IoBuf) : SetupRun AtaDisk where
  place := .strategy
  io := ⟨(⟨freshPkt, {}⟩, ⟨false, 0, 0⟩), {}, bp⟩

theorem queued_start (bp : IoBuf) : SetupStart (queued bp) :=
  ⟨Or.inl rfl, rfl, rfl⟩

/-- A disk has no command for a `DKIOCGETDEF`. Its packet is sent all the same
    when flow control asks again. -/
theorem transport_without_setup : ¬ ∀ s : SetupRun AtaDisk,
    Reachable SetupStart (SetupStep (watched pioCtl dmaRetry) plainDisk False) s →
      s.io.ctl.2.unprepared = 0 := by
  intro h
  have hheld : Reachable SetupStart (SetupStep (watched pioCtl dmaRetry) plainDisk False) _ :=
    (Reachable.initial (queued_start getdefBuf)).tail (.pkt _ true)
  have hsent := (hheld.tail (.pktAgain _ nofun)).tail (.transport _ nofun)
  exact absurd (h _ hsent) (by decide)

/-- A read is set up and sent. -/
theorem transport_after_setup_read : ∃ s : SetupRun AtaDisk,
    s.place = .io .sent ∧ s.io.pkt.bytexfer = 1024 ∧ s.io.ctl.2.unprepared = 0 := by
  have hready : Reachable SetupStart (SetupStep (watched pioCtl dmaRetry) plainDisk True) _ :=
    (Reachable.initial (queued_start twoBuf)).tail (.pkt _ true)
  have hsent := hready.tail (.transport _ fun _ => rfl)
  exact ⟨_, rfl, rfl, transport_after_setup pioCtl dmaRetry plainDisk _ hsent⟩

end Ata

end Sil3112
