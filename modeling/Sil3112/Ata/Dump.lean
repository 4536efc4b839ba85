import Sil3112.Ata.Complete
import Sil3112.Ata.Setup
import Sil3112.Disk.Chunks

/-!
# Dumping

`dadk_dump` polls: every command has ended when `CTL_TRANSPORT` returns. GHD then
lets `ata_disk_complete` fill in the packet, but has it not call back, so
`dadk_pktcb`, which would look at `cp_reason`, does not run. `dadk_dump` itself looks
only at the error of the buf, and takes the chunk off `cp_byteleft` in any case.

A command that fails therefore leaves no trace. The buf gets an error only where
`CTL_TRANSPORT` refuses a packet for good, which ends the dump.

## Main definitions

* `PollEnd`: How a polled command ends.
* `PollCtl`, `pollCtlr`: A controller that is polled, with the ends of the commands
  to come, and what it has been asked for.
* `ataComplete`, `settle`: `ata_disk_complete`, and `sol11ghd_transport` after the poll.
* `dump`: `dadk_dump`
* `Reports`, `Transfers`: What a dump is to do.

## Theorems

* `pollTransport_spec`: A chunk uses up an end, and leaves an error only if it is
  refused.
* `dumpLoop_error`, `dumpLoop_transfers`: The loop.
* `dump_reports_iff`: When a dump reports its failures, and what it transfers.
-/

namespace Sil3112

namespace Ata

open Disk Extent

/-! ## The model -/

/-- How a polled command ends: what it leaves of the controller's state, and what
    `ata_disk_complete` finds. It is `none` if `CTL_TRANSPORT` does not take the
    packet. -/
structure PollEnd (σ : Type) where
  ctl : σ
  regs : Option DiskRegs

/-- A call of `CTL_IOSETUP`: the bytes it was asked for, those it has set up, and
    whether it has returned the packet. -/
structure SetupCall where
  asked : Int
  got : Int
  ok : Bool

/-- The state of a controller that is polled. `starved` is whether it has been asked
    for more commands than there are ends. `last` is what the last command has left,
    `cmds` are the first sector and the bytes of every command that was taken. -/
structure PollCtl (σ : Type) where
  ctl : σ
  ends : List (PollEnd σ)
  starved : Bool := false
  last : Option DiskRegs := none
  setups : List SetupCall := []
  cmds : List (Int × Int) := []

/-- What dadk needs to know of a packet: the error of its buf, what the controller's
    state is, and whether there is one. -/
structure DumpPrep (σ : Type) where
  ctl : σ
  pktOk : Bool
  error : Option Errno

section Model

variable {σ : Type}

/-- A controller's `CTL_IOSETUP` gives `cp_bytexfer` and `cp_resid`. -/
def pollCtlr (setup : σ → Cmpkt → σ × (Int × Int) × Bool) : Ctl (PollCtl σ) where
  iosetup := fun k p =>
    let r := setup k.ctl p
    ({ k with ctl := r.1, setups := k.setups ++ [⟨p.bytexfer, r.2.1.1, r.2.2⟩] },
      { p with bytexfer := r.2.1.1, resid := r.2.1.2 }, r.2.2)
  transport := fun k p =>
    match k.ends with
    | [] => ({ k with starved := true }, false)
    | e :: es =>
      match e.regs with
      | none => ({ k with ctl := e.ctl, ends := es }, false)
      | some regs =>
        ({ k with
            ctl := e.ctl
            ends := es
            last := some regs
            cmds := k.cmds ++ [(p.srtsec, p.bytexfer)] }, true)

variable (setup : σ → Cmpkt → σ × (Int × Int) × Bool) (dadkp : Dadk)

/-- `ata_disk_complete`, for a packet of `dadk_dump`. -/
def ataComplete (regs : DiskRegs) (doCallback : Bool) (s : Io (PollCtl σ)) :
    Io (PollCtl σ) × Phase :=
  let s := { s with pkt := s.pkt.report (diskComplete regs) }
  if doCallback then pollPktcb (pollCtlr setup) dadkp s else (s, .done)

/-- `sol11ghd_transport` when it has polled the command: the packet is filled in, and
    there is no callback. -/
def settle (r : Io (PollCtl σ) × Phase) : Io (PollCtl σ) :=
  match r.2, r.1.ctl.last with
  | .sent, some regs => (ataComplete setup dadkp regs false r.1).1
  | _, _ => r.1

/-- The loop of `dadk_dump`. It is `none` if there is not enough fuel. -/
def dumpLoop : Nat → Io (PollCtl σ) → Option (Io (PollCtl σ))
  | 0, _ => none
  | n + 1, s =>
    match dumpNext (pollCtlr setup) dadkp s with
    | some r => dumpLoop n (settle setup dadkp r)
    | none => some { s with pkt := { s.pkt with byteleft := s.pkt.byteleft - s.pkt.bytexfer } }

/-- What `dadk_dump` starts with when it has its packet. -/
def dumpIo (a : DumpPrep σ) (ends : List (PollEnd σ)) (bp : IoBuf) : Io (PollCtl σ) :=
  ⟨{ ctl := a.ctl, ends := ends }, {},
    { bp with sec := bp.sec >>> dadkp.blkshf, error := a.error }⟩

/-- `dadk_dump`, which returns `DDI_SUCCESS` or not, with the ends of its commands. -/
def dump (a : DumpPrep σ) (ends : List (PollEnd σ)) (bp : IoBuf) (fuel : Nat) :
    Option (Bool × Io (PollCtl σ)) :=
  let s : Io (PollCtl σ) := ⟨{ ctl := a.ctl, ends := ends }, {}, bp⟩
  if dadkp.rdonly = true then some (false, bioerror s .erofs)
  else if bp.bcount % dadkp.secsiz ≠ 0 then some (false, bioerror s .enxio)
  else if a.pktOk = false then some (false, bioerror (dumpIo dadkp a ends bp) .eio)
  else
    let s := settle setup dadkp (dumpFirst (pollCtlr setup) dadkp (dumpIo dadkp a ends bp))
    (dumpLoop setup dadkp fuel s).map fun s => (true, s)

end Model

/-! ## What is to be true -/

section Spec

variable {σ : Type}

/-- A command has failed: its `cp_reason` is not `CPS_SUCCESS`. -/
def PollEnd.Fails (e : PollEnd σ) : Prop :=
  ∃ regs, e.regs = some regs ∧ (diskComplete regs).reason ≠ .success

/-- A command has succeeded. -/
def PollEnd.Succeeds (e : PollEnd σ) : Prop :=
  ∃ regs, e.regs = some regs ∧ (diskComplete regs).reason = .success

/-- The last call of `CTL_TRANSPORT` has refused the packet. -/
def RefusedLast (ends : List (PollEnd σ)) : Prop :=
  ∃ e, ends.getLast? = some e ∧ e.regs = none

/-- A setup has done what dadk relies on: it has returned the packet, with whole
    sectors, at least one and not more than was asked for. Nothing is set up if
    nothing was asked for. -/
structure SetupCall.Done (x : SetupCall) : Prop where
  ok : x.ok = true
  nonneg : 0 ≤ x.got
  le : x.got ≤ x.asked
  mod : x.got % 512 = 0
  pos : 0 < x.asked → 0 < x.got

/-- These are the ends of the commands of a dump, no more and no less. -/
def Uses (out : Bool × Io (PollCtl σ)) : Prop :=
  out.2.ctl.starved = false ∧ out.2.ctl.ends = []

/-- If a command fails, `dadk_dump` returns `DDI_FAILURE` or the buf has an error. -/
def Reports (ends : List (PollEnd σ)) (out : Bool × Io (PollCtl σ)) : Prop :=
  (∃ e ∈ ends, e.Fails) → out.1 = false ∨ out.2.bp.error ≠ none

/-- All bytes of the buf have been transferred, each sector of the request once and
    in order. -/
def Transfers (cks : List (Int × Int)) (bp : IoBuf) (out : Bool × Io (PollCtl σ)) : Prop :=
  cover (chunks out.2.ctl.cmds) = cover cks ∧ moved out.2.ctl.cmds = bp.bcount

/-- The extents of a dump. If it is empty and has a bad-block handle, then the first
    cookie is empty. -/
def IsDump (dadkp : Dadk) (bp : IoBuf) (cks : List (Int × Int)) : Prop :=
  IsRequest dadkp bp cks ∧
    (bp.bcount = 0 → ∀ hp, dadkp.bbh bp.toBuf = some hp → (htoc hp).1.seclen = 0)

end Spec

/-! ## A chunk -/

section Chunk

variable {σ : Type} {setup : σ → Cmpkt → σ × (Int × Int) × Bool} {dadkp : Dadk}
  {s : Io (PollCtl σ)}

@[simp] theorem settle_bp (r : Io (PollCtl σ) × Phase) : (settle setup dadkp r).bp = r.1.bp := by
  unfold settle
  split
  · rfl
  · rfl

@[simp] theorem settle_ctl (r : Io (PollCtl σ) × Phase) :
    (settle setup dadkp r).ctl = r.1.ctl := by
  unfold settle
  split
  · rfl
  · rfl

/-- What a polled transport does. There are no ends left, or it has used up some, of
    which the last tells whether the packet was taken in the end. -/
inductive Polled (s : Io (PollCtl σ)) : Io (PollCtl σ) → Prop
  | starved (r : Io (PollCtl σ)) (hst : r.ctl.starved = true) (he : r.bp.error ≠ none) : Polled s r
  | refused (r : Io (PollCtl σ)) (t : List (PollEnd σ)) (e : PollEnd σ)
      (hends : s.ctl.ends = t ++ e :: r.ctl.ends) (hst : r.ctl.starved = s.ctl.starved)
      (hregs : e.regs = none) (he : r.bp.error ≠ none) : Polled s r
  | taken (r : Io (PollCtl σ)) (t : List (PollEnd σ)) (e : PollEnd σ)
      (hends : s.ctl.ends = t ++ e :: r.ctl.ends) (hst : r.ctl.starved = s.ctl.starved)
      (hregs : e.regs ≠ none) (he : r.bp.error = s.bp.error) : Polled s r

/-- Only the buf and the controller's state matter. -/
theorem Polled.congr {s₁ r r₁ : Io (PollCtl σ)} (h : Polled s r)
    (hends : s₁.ctl.ends = s.ctl.ends) (hst : s₁.ctl.starved = s.ctl.starved) (hbp : s₁.bp = s.bp)
    (hrbp : r₁.bp = r.bp) (hrctl : r₁.ctl = r.ctl) : Polled s₁ r₁ := by
  cases h with
  | starved hst' he => exact .starved _ (by rw [hrctl, hst']) (by rwa [hrbp])
  | refused t e hends' hst' hregs he =>
    exact .refused _ t e (by rw [hends, hrctl, hends']) (by rw [hrctl, hst', hst]) hregs
      (by rwa [hrbp])
  | taken t e hends' hst' hregs he =>
    exact .taken _ t e (by rw [hends, hrctl, hends']) (by rw [hrctl, hst', hst]) hregs
      (by rw [hrbp, he, hbp])

/-- A packet that is taken at once. -/
theorem ctlTransport_taken {e : PollEnd σ} {es : List (PollEnd σ)} {regs : DiskRegs}
    (hends : s.ctl.ends = e :: es) (hregs : e.regs = some regs) :
    ctlTransport (pollCtlr setup) s =
      ({ s with ctl := { s.ctl with
          ctl := e.ctl
          ends := es
          last := some regs
          cmds := s.ctl.cmds ++ [(s.pkt.srtsec, s.pkt.bytexfer)] } }, true) := by
  unfold ctlTransport pollCtlr
  dsimp only
  rw [hends]
  dsimp only
  rw [hregs]

theorem ctlTransport_refused {e : PollEnd σ} {es : List (PollEnd σ)}
    (hends : s.ctl.ends = e :: es) (hregs : e.regs = none) :
    ctlTransport (pollCtlr setup) s =
      ({ s with ctl := { s.ctl with ctl := e.ctl, ends := es } }, false) := by
  unfold ctlTransport pollCtlr
  dsimp only
  rw [hends]
  dsimp only
  rw [hregs]

theorem ctlTransport_starved (hends : s.ctl.ends = []) :
    ctlTransport (pollCtlr setup) s =
      ({ s with ctl := { s.ctl with starved := true } }, false) := by
  unfold ctlTransport pollCtlr
  dsimp only
  rw [hends]

/-- A retry that cannot be sent leaves an error, and what the controller has. -/
theorem doneError_enxio (s : Io (PollCtl σ)) :
    (doneError (bioerror s .enxio)).bp.error ≠ none ∧
      (doneError (bioerror s .enxio)).ctl = s.ctl :=
  ⟨doneError_error _, doneError_ctl _⟩

/-- The retry of a packet that was refused, with the ends that are left. -/
theorem pollRestart_spec (s : Io (PollCtl σ)) :
    Polled s (pollRestart (pollCtlr setup) s).1 ∨
      (pollRestart (pollCtlr setup) s).1.bp.error ≠ none ∧
        (pollRestart (pollCtlr setup) s).1.ctl = s.ctl := by
  unfold pollRestart ioretry
  dsimp only
  by_cases hagain : s.pkt.retry < dadkRetryCount
  · rw [if_pos hagain]
    -- The setup touches neither the ends nor the buf.
    obtain ⟨s', hs', hends, hst, hbp⟩ : ∃ s', (ctlIosetup (pollCtlr setup)
        { s with pkt := { s.pkt with retry := s.pkt.retry + 1 } }).1 = s' ∧
        s'.ctl.ends = s.ctl.ends ∧ s'.ctl.starved = s.ctl.starved ∧ s'.bp = s.bp :=
      ⟨_, rfl, rfl, rfl, rfl⟩
    rw [hs']
    left
    cases h : s.ctl.ends with
    | nil =>
      rw [ctlTransport_starved (hends.trans h)]
      refine .starved _ ?_ (doneError_enxio _).1
      exact congrArg PollCtl.starved (doneError_enxio _).2
    | cons e es =>
      cases hregs : e.regs with
      | none =>
        rw [ctlTransport_refused (hends.trans h) hregs]
        have hctl := (doneError_enxio { s' with ctl := { s'.ctl with ctl := e.ctl, ends := es } }).2
        refine .refused _ [] e ?_ ?_ hregs (doneError_enxio _).1
        · rw [if_neg Bool.false_ne_true, hctl, h]
          rfl
        · rw [if_neg Bool.false_ne_true, hctl]
          exact hst
      | some regs =>
        rw [ctlTransport_taken (hends.trans h) hregs]
        refine .taken _ [] e ?_ hst (by rw [hregs]; nofun) ?_
        · exact h
        · exact congrArg IoBuf.error hbp
  · -- The retries are used up, and the packet is not sent.
    rw [if_neg hagain]
    exact Or.inr (doneError_enxio _)

theorem pollTransport_spec (s : Io (PollCtl σ)) :
    Polled s (pollTransport (pollCtlr setup) s).1 := by
  unfold pollTransport
  dsimp only
  cases h : s.ctl.ends with
  | nil =>
    rw [ctlTransport_starved h, if_neg Bool.false_ne_true]
    rcases @pollRestart_spec σ setup { s with ctl := { s.ctl with starved := true } } with
      hp | ⟨he, hctl⟩
    · cases hp with
      | starved hst he => exact .starved _ hst he
      | refused t e hends hst hregs he => exact .starved _ hst he
      | taken t e hends hst hregs he =>
        exact absurd (congrArg List.length (h.symm.trans hends)) (by simp)
    · exact .starved _ (congrArg PollCtl.starved hctl) he
  | cons e es =>
    cases hregs : e.regs with
    | none =>
      -- A refused packet is retried, with the ends after the one that has refused it.
      rw [ctlTransport_refused h hregs, if_neg Bool.false_ne_true]
      rcases @pollRestart_spec σ setup
        { s with ctl := { s.ctl with ctl := e.ctl, ends := es } } with hp | ⟨he, hctl⟩
      · cases hp with
        | starved hst he => exact .starved _ hst he
        | refused t e' hends hst hregs he =>
          exact .refused _ (e :: t) e' (h.trans (congrArg (e :: ·) hends)) hst hregs he
        | taken t e' hends hst hregs he =>
          exact .taken _ (e :: t) e' (h.trans (congrArg (e :: ·) hends)) hst hregs he
      · refine .refused _ [] e ?_ ?_ hregs he
        · rw [h, hctl]
          rfl
        · rw [hctl]
    | some regs =>
      rw [ctlTransport_taken h hregs, if_pos rfl]
      exact .taken _ [] e h rfl (by rw [hregs]; nofun) rfl

end Chunk

/-! ## The error of a dump -/

section Error

variable {σ : Type} {setup : σ → Cmpkt → σ × (Int × Int) × Bool} {dadkp : Dadk}
  {s r : Io (PollCtl σ)}

theorem refusedLast_nil : ¬RefusedLast ([] : List (PollEnd σ)) := by
  rintro ⟨e, he, -⟩
  cases he

theorem refusedLast_append (t : List (PollEnd σ)) (e : PollEnd σ) (u : List (PollEnd σ))
    (he : e.regs ≠ none) : RefusedLast (t ++ e :: u) ↔ RefusedLast u := by
  unfold RefusedLast
  -- What comes after decides, unless there is nothing.
  cases u with
  | nil =>
    constructor
    · rintro ⟨e', he', hregs⟩
      rw [List.getLast?_append_of_ne_nil _ (by simp), List.getLast?_singleton] at he'
      exact absurd ((congrArg PollEnd.regs (Option.some.inj he')).trans hregs) he
    · intro h
      exact absurd h refusedLast_nil
  | cons e' u =>
    rw [List.getLast?_append_of_ne_nil _ (by simp), List.getLast?_cons_cons]

theorem refusedLast_of_last (t : List (PollEnd σ)) {e : PollEnd σ} (he : e.regs = none) :
    RefusedLast (t ++ [e]) :=
  ⟨e, by simp, he⟩

/-- There is no next chunk after an error, or when no byte is left. -/
theorem dumpNext_none (h : s.bp.error ≠ none ∨ s.pkt.byteleft - s.pkt.bytexfer = 0) :
    dumpNext (pollCtlr setup) dadkp s = none := by
  unfold dumpNext
  dsimp only
  rcases h with he | hlast
  · rw [if_neg fun hn => he hn.1]
  · rw [if_neg fun hn => hn.2 hlast]

/-- Then the loop is over. -/
theorem dumpLoop_over (h : dumpNext (pollCtlr setup) dadkp s = none) {n : Nat}
    (hr : dumpLoop setup dadkp n s = some r) : r.bp = s.bp ∧ r.ctl = s.ctl := by
  cases n with
  | zero => cases hr
  | succ n =>
    unfold dumpLoop at hr
    rw [h] at hr
    cases hr
    exact ⟨rfl, rfl⟩

theorem dumpLoop_failed (he : s.bp.error ≠ none) {n : Nat}
    (hr : dumpLoop setup dadkp n s = some r) : r.bp = s.bp ∧ r.ctl = s.ctl :=
  dumpLoop_over (dumpNext_none (Or.inl he)) hr

/-- What comes of the ends that a loop uses up: an error if the last has refused the
    packet, and else the error of the buf is as it was. -/
structure Told (s r : Io (PollCtl σ)) (t : List (PollEnd σ)) : Prop where
  ends : s.ctl.ends = t ++ r.ctl.ends
  refused : RefusedLast t → r.bp.error ≠ none
  quiet : ¬RefusedLast t → r.bp.error = s.bp.error

theorem Told.refl (s : Io (PollCtl σ)) : Told s s [] :=
  ⟨rfl, fun h => absurd h refusedLast_nil, fun _ => rfl⟩

/-- A polled chunk, and what comes after it: nothing if it has left an error. -/
theorem Polled.told {s₁ : Io (PollCtl σ)} (h : Polled s s₁) (hst : r.ctl.starved = false)
    (hfail : s₁.bp.error ≠ none → r.bp = s₁.bp ∧ r.ctl = s₁.ctl)
    (hrest : r.ctl.starved = false → ∃ t, Told s₁ r t) : ∃ t, Told s r t := by
  cases h with
  | starved hst' he =>
    rw [(hfail he).2, hst'] at hst
    cases hst
  | refused t e hends hst' hregs he =>
    -- The error ends the loop, so the refusal is the last end that is used.
    rcases hfail he with ⟨hbp, hctl⟩
    refine ⟨t ++ [e], ?_, fun _ => hbp ▸ he, fun hn => absurd (refusedLast_of_last t hregs) hn⟩
    rw [hctl, hends, List.append_assoc]
    rfl
  | taken t e hends hst' hregs he =>
    rcases hrest hst with ⟨u, hu⟩
    refine ⟨t ++ e :: u, ?_, fun hl => ?_, fun hl => ?_⟩
    · rw [hends, hu.ends, List.append_assoc]
      rfl
    · exact hu.refused ((refusedLast_append t e u hregs).mp hl)
    · exact (hu.quiet fun hl' => hl ((refusedLast_append t e u hregs).mpr hl')).trans he

/-- The next chunk of the loop is set up first, which leaves the ends and the buf. -/
theorem dumpNext_polled {q : Io (PollCtl σ) × Phase}
    (hq : dumpNext (pollCtlr setup) dadkp s = some q) : Polled s (settle setup dadkp q) := by
  unfold dumpNext at hq
  dsimp only at hq
  split at hq
  · cases hq
    exact (pollTransport_spec (Disk.iosetup (pollCtlr setup) dadkp
      { s with pkt := { s.pkt with byteleft := s.pkt.byteleft - s.pkt.bytexfer } }).1).congr rfl rfl
      rfl (settle_bp _) (settle_ctl _)
  · cases hq

/-- The loop records an error only if the last transport is refused. -/
theorem dumpLoop_error (n : Nat) : ∀ {s : Io (PollCtl σ)}, dumpLoop setup dadkp n s = some r →
    r.ctl.starved = false → ∃ t, Told s r t := by
  induction n with
  | zero => exact fun h => nomatch h
  | succ n ih =>
    intro s hr hst
    unfold dumpLoop at hr
    cases hq : dumpNext (pollCtlr setup) dadkp s with
    | none =>
      rw [hq] at hr
      cases hr
      exact ⟨[], rfl, fun h => absurd h refusedLast_nil, fun _ => rfl⟩
    | some q =>
      rw [hq] at hr
      exact (dumpNext_polled hq).told hst (fun he => dumpLoop_failed he hr) fun hst => ih hr hst

end Error

/-! ## What a dump transfers -/

section Transfer

variable {σ : Type} {setup : σ → Cmpkt → σ × (Int × Int) × Bool} {dadkp : Dadk}
  {cks log rest : List (Int × Int)} {s r : Io (PollCtl σ)}

/-- What the controller has been asked for stays known. -/
theorem pollCtlr_steps (setup : σ → Cmpkt → σ × (Int × Int) × Bool) :
    (pollCtlr setup).Steps fun k k' => k.setups <+: k'.setups where
  refl := fun k => List.prefix_refl k.setups
  trans := fun h h' => h.trans h'
  iosetup := fun _ _ => List.prefix_append _ _
  transport := by
    intro k p
    unfold pollCtlr
    dsimp only
    split
    · exact List.prefix_refl k.setups
    · split
      · exact List.prefix_refl k.setups
      · exact List.prefix_refl k.setups

theorem dumpLoop_setups (n : Nat) : ∀ {s : Io (PollCtl σ)},
    dumpLoop setup dadkp n s = some r → s.ctl.setups <+: r.ctl.setups := by
  induction n with
  | zero => exact fun h => nomatch h
  | succ n ih =>
    intro s hr
    unfold dumpLoop at hr
    cases hq : dumpNext (pollCtlr setup) dadkp s with
    | none =>
      rw [hq] at hr
      cases hr
      exact List.prefix_refl _
    | some q =>
      rw [hq] at hr
      rcases dumpNext_spec hq with ⟨s₁, hctl, rfl⟩
      -- neither the set up of the next chunk nor its transport takes one back
      have hset : s₁.ctl.setups <+: (Disk.iosetup (pollCtlr setup) dadkp s₁).1.ctl.setups :=
        (pollCtlr_steps setup).iosetup _ _
      have hsend := pollTransport_ctl (pollCtlr_steps setup)
        (Disk.iosetup (pollCtlr setup) dadkp s₁).1
      have hloop := ih hr
      rw [settle_ctl] at hloop
      rw [← hctl]
      exact (hset.trans hsend).trans hloop

/-- A polled chunk that has succeeded. -/
structure Polling (cks log rest : List (Int × Int)) (s : Io (PollCtl σ)) : Prop where
  live : Live cks log s.pkt rest
  cmds : s.ctl.cmds = log ++ [(s.pkt.srtsec, s.pkt.bytexfer)]
  retry : s.pkt.retry = 0
  starved : s.ctl.starved = false

/-- The whole request has been transferred when no byte is left. -/
theorem Polling.all (h : Polling cks log rest s) (hcks : ∀ e ∈ cks, 0 ≤ e.2)
    (hlast : s.pkt.byteleft - s.pkt.bytexfer = 0) :
    cover (chunks s.ctl.cmds) = cover cks ∧ moved s.ctl.cmds = 512 * size cks := by
  rw [h.cmds]
  exact ⟨h.live.last hlast, h.live.last_moved hcks hlast⟩

/-- A command that is taken at once, when it has been polled. -/
theorem settle_taken {e : PollEnd σ} {es : List (PollEnd σ)} {regs : DiskRegs}
    (hends : s.ctl.ends = e :: es) (hregs : e.regs = some regs) :
    settle setup dadkp (pollTransport (pollCtlr setup) s) =
      { s with
        ctl := { s.ctl with
          ctl := e.ctl
          ends := es
          last := some regs
          cmds := s.ctl.cmds ++ [(s.pkt.srtsec, s.pkt.bytexfer)] }
        pkt := s.pkt.report (diskComplete regs) } := by
  unfold pollTransport
  rw [ctlTransport_taken hends hregs, if_pos rfl]
  rfl

/-- A chunk that is set up, and whose command is polled and succeeds. -/
theorem sent_polling (hl : Live cks log s.pkt rest) (hc : s.ctl.cmds = log)
    (hretry : s.pkt.retry = 0) (hst : s.ctl.starved = false)
    {e : PollEnd σ} {es : List (PollEnd σ)} (hends : s.ctl.ends = e :: es) (hs : e.Succeeds) :
    let s' := settle setup dadkp (pollTransport (pollCtlr setup) s)
    Polling cks log rest s' ∧ s'.ctl.ends = es ∧ s'.bp = s.bp ∧
      s'.pkt.byteleft = s.pkt.byteleft ∧ s'.pkt.bytexfer = s.pkt.bytexfer := by
  rcases hs with ⟨regs, hregs, -⟩
  dsimp only
  rw [settle_taken hends hregs]
  refine ⟨⟨hl.congr _ _ _ _, ?_, hretry, hst⟩, rfl, rfl, rfl, rfl⟩
  exact congrArg (· ++ [(s.pkt.srtsec, s.pkt.bytexfer)]) hc

/-- A packet is sent when there are no ends left. -/
theorem pollTransport_starved (hends : s.ctl.ends = []) :
    (pollTransport (pollCtlr setup) s).1.ctl.starved = true ∧
      (pollTransport (pollCtlr setup) s).1.bp.error ≠ none := by
  have hpoll := @pollTransport_spec σ setup s
  generalize (pollTransport (pollCtlr setup) s).1 = q at hpoll
  cases hpoll with
  | starved hst he => exact ⟨hst, he⟩
  | refused t e h => exact absurd (congrArg List.length (hends.symm.trans h)) (by simp)
  | taken t e h => exact absurd (congrArg List.length (hends.symm.trans h)) (by simp)

/-- A setup that has done what dadk relies on. -/
theorem ctlIosetup_done (hl : Live cks log s.pkt rest)
    (hx : ∀ x ∈ (ctlIosetup (pollCtlr setup) s).1.ctl.setups, x.Done) :
    Live cks log (ctlIosetup (pollCtlr setup) s).1.pkt rest ∧
      512 ≤ (ctlIosetup (pollCtlr setup) s).1.pkt.bytexfer := by
  have hdone := hx ⟨s.pkt.bytexfer, (setup s.ctl.ctl s.pkt).2.1.1, (setup s.ctl.ctl s.pkt).2.2⟩
    (List.mem_append_right _ List.mem_cons_self)
  have hpos := hdone.pos hl.xfer_pos
  have hmod := hdone.mod
  refine ⟨hl.setup hpos hdone.le hmod, ?_⟩
  change (512 : Int) ≤ (setup s.ctl.ctl s.pkt).2.1.1
  dsimp only at hpos hmod
  omega

variable (setup) in
/-- While bytes are left there is a next chunk, which dadk sets up as it does in
    `dadk_iodone`. -/
theorem Polling.next (h9 : dadkp.secshf = 9) (h : Polling cks log rest s)
    (he : s.bp.error = none) (hmore : s.pkt.byteleft - s.pkt.bytexfer ≠ 0) :
    ∃ p rest', dumpNext (pollCtlr setup) dadkp s =
        some (pollTransport (pollCtlr setup) (ctlIosetup (pollCtlr setup) { s with pkt := p }).1) ∧
      Live cks s.ctl.cmds p rest' ∧ p.byteleft = s.pkt.byteleft - s.pkt.bytexfer ∧
      p.retry = 0 := by
  rcases h.live.next h9 s.bp hmore with ⟨rest', hnext⟩
  have hzero : ({ s.pkt with byteleft := s.pkt.byteleft - s.pkt.bytexfer } : Cmpkt) =
      { s.pkt with byteleft := s.pkt.byteleft - s.pkt.bytexfer, retry := 0 } := by
    rw [← h.retry]
  rw [← hzero, ← h.cmds] at hnext
  rcases nextChunk_fields dadkp s.bp
    { s.pkt with byteleft := s.pkt.byteleft - s.pkt.bytexfer } with ⟨hbl, hretry, -, -⟩
  refine ⟨_, rest', ?_, hnext, hbl, hretry.trans h.retry⟩
  unfold dumpNext Disk.iosetup
  dsimp only
  rw [if_pos ⟨he, hmore⟩]

/-- The loop transfers what is left of the request if every setup and every command
    succeeds. It does not wait for more commands than there are sectors left. -/
theorem dumpLoop_transfers (h9 : dadkp.secshf = 9) (hcks : ∀ e ∈ cks, 0 ≤ e.2) (n : Nat) :
    ∀ {s : Io (PollCtl σ)} {log rest : List (Int × Int)}, Polling cks log rest s →
      s.bp.error = none → (∀ e ∈ s.ctl.ends, e.Succeeds) → dumpLoop setup dadkp n s = some r →
      (∀ x ∈ r.ctl.setups, x.Done) →
      (r.ctl.starved = false ∨
        s.pkt.byteleft ≤ 512 * (s.ctl.ends.length : Int) + s.pkt.bytexfer) →
      r.ctl.starved = false ∧ cover (chunks r.ctl.cmds) = cover cks ∧
        moved r.ctl.cmds = 512 * size cks := by
  induction n with
  | zero => exact fun _ _ _ h => nomatch h
  | succ n ih =>
    intro s log rest h he hends hr hset hor
    by_cases hlast : s.pkt.byteleft - s.pkt.bytexfer = 0
    · rw [(dumpLoop_over (dumpNext_none (Or.inr hlast)) hr).2]
      exact ⟨h.starved, h.all hcks hlast⟩
    · rcases h.next setup h9 he hlast with ⟨p, rest', hq, hnext, hbl, hretry⟩
      unfold dumpLoop at hr
      rw [hq] at hr
      dsimp only at hr
      have hpre := dumpLoop_setups n hr
      rw [settle_ctl] at hpre
      have hmine : ∀ x ∈ (ctlIosetup (pollCtlr setup) { s with pkt := p }).1.ctl.setups, x.Done :=
        fun x hx => hset x (hpre.mem ((pollTransport_ctl (pollCtlr_steps setup) _).mem hx))
      rcases ctlIosetup_done (s := { s with pkt := p }) hnext hmine with ⟨hlive, hxfer⟩
      have hleft := hnext.xfer_le_byteleft
      have hpos := hnext.xfer_pos
      cases hend : s.ctl.ends with
      | nil =>
        -- There is no command to come, though one is due.
        exfalso
        have hnone : (ctlIosetup (pollCtlr setup) { s with pkt := p }).1.ctl.ends = [] := hend
        have hst := @pollTransport_starved σ setup _ hnone
        rcases hor with hor | hor
        · have hfail := dumpLoop_failed (by rw [settle_bp]; exact hst.2) hr
          rw [hfail.2, settle_ctl, hst.1] at hor
          cases hor
        · rw [hend, List.length_nil] at hor
          omega
      | cons e es =>
        rw [hend] at hends hor
        rcases sent_polling (s := (ctlIosetup (pollCtlr setup) { s with pkt := p }).1) hlive rfl
          hretry h.starved hend (hends e List.mem_cons_self) with ⟨hpoll, hes, hbp, hbl', hx'⟩
        have herr := (congrArg IoBuf.error hbp).trans he
        refine ih hpoll herr (fun e' he' => ?_) hr hset (hor.imp_right fun hor => ?_)
        · rw [hes] at he'
          exact hends e' (List.mem_cons_of_mem e he')
        · have hbyte : (ctlIosetup (pollCtlr setup) { s with pkt := p }).1.pkt.byteleft =
              s.pkt.byteleft - s.pkt.bytexfer := hbl
          rw [hbl', hx', hes, hbyte]
          rw [List.length_cons] at hor
          push_cast at hor
          omega

/-- The loop stops if the buf has an error. -/
theorem dumpLoop_stops (he : s.bp.error ≠ none) {n : Nat} (hn : n ≠ 0) :
    ∃ r, dumpLoop setup dadkp n s = some r := by
  cases n with
  | zero => exact absurd rfl hn
  | succ n =>
    unfold dumpLoop
    rw [dumpNext_none (Or.inl he)]
    exact ⟨_, rfl⟩

/-- A chunk uses up an end, unless it leaves an error. -/
theorem Polled.length_lt {s₁ : Io (PollCtl σ)} (h : Polled s s₁) :
    s₁.bp.error ≠ none ∨ s₁.ctl.ends.length < s.ctl.ends.length := by
  cases h with
  | starved hst he => exact Or.inl he
  | refused t e hends hst hregs he => exact Or.inl he
  | taken t e hends hst hregs he =>
    right
    rw [hends, List.length_append, List.length_cons]
    omega

/-- The loop comes to an end, with fuel for every end and for one command more. -/
theorem dumpLoop_returns (n : Nat) : ∀ {s : Io (PollCtl σ)}, s.ctl.ends.length + 1 < n →
    ∃ r, dumpLoop setup dadkp n s = some r := by
  induction n with
  | zero => exact fun h => absurd h (Nat.not_lt_zero _)
  | succ n ih =>
    intro s hn
    unfold dumpLoop
    cases hq : dumpNext (pollCtlr setup) dadkp s with
    | none => exact ⟨_, rfl⟩
    | some q =>
      rcases (dumpNext_polled hq).length_lt with he | hlt
      · exact dumpLoop_stops he (by omega)
      · exact ih (by omega)

end Transfer

/-! ## A dump -/

section Dump

variable {σ : Type} {setup : σ → Cmpkt → σ × (Int × Int) × Bool} {dadkp : Dadk} {a : DumpPrep σ}
  {ends : List (PollEnd σ)} {bp : IoBuf} {cks : List (Int × Int)}

/-- The first setup is for the whole request. -/
def OneChunk (setup : σ → Cmpkt → σ × (Int × Int) × Bool) (dadkp : Dadk) (a : DumpPrep σ)
    (bp : IoBuf) : Prop :=
  (ioprep (pollCtlr setup) dadkp (dumpIo dadkp a [] bp)).1.pkt.bytexfer = bp.bcount

/-- What `dadk_dump` returns. It has not started, or it has gone through its loop. -/
theorem dump_cases {fuel : Nat} {out : Bool × Io (PollCtl σ)}
    (hr : dump setup dadkp a ends bp fuel = some out) :
    out.1 = false ∧ out.2.ctl.ends = ends ∧ out.2.ctl.starved = false ∨
      out.1 = true ∧ bp.bcount % dadkp.secsiz = 0 ∧
        dumpLoop setup dadkp fuel (settle setup dadkp
          (dumpFirst (pollCtlr setup) dadkp (dumpIo dadkp a ends bp))) = some out.2 := by
  unfold dump at hr
  dsimp only at hr
  split at hr
  · cases hr
    exact Or.inl ⟨rfl, rfl, rfl⟩
  · split at hr
    · cases hr
      exact Or.inl ⟨rfl, rfl, rfl⟩
    · next hmod =>
      split at hr
      · cases hr
        exact Or.inl ⟨rfl, rfl, rfl⟩
      · rcases Option.map_eq_some_iff.mp hr with ⟨s, hs, rfl⟩
        exact Or.inr ⟨rfl, by simpa using hmod, hs⟩

/-- The first chunk is polled like any other. -/
theorem dumpFirst_polled (s : Io (PollCtl σ)) :
    Polled s (settle setup dadkp (dumpFirst (pollCtlr setup) dadkp s)) :=
  (pollTransport_spec (ioprep (pollCtlr setup) dadkp s).1).congr rfl rfl rfl (settle_bp _)
    (settle_ctl _)

/-- The error of a dump that has gone through its loop. -/
theorem dump_error {fuel : Nat} {out : Bool × Io (PollCtl σ)}
    (hr : dump setup dadkp a ends bp fuel = some out) (hu : Uses out) (hok : out.1 = true) :
    out.2.bp.error ≠ none ↔ a.error ≠ none ∨ RefusedLast ends := by
  rcases dump_cases hr with ⟨hno, -⟩ | ⟨-, -, hloop⟩
  · rw [hok] at hno
    cases hno
  · rcases (dumpFirst_polled (dumpIo dadkp a ends bp)).told hu.1
      (fun he => dumpLoop_failed he hloop) (fun hst => dumpLoop_error fuel hloop hst) with
      ⟨t, hends, href, hquiet⟩
    have ht : ends = t := by
      rw [hu.2, List.append_nil] at hends
      exact hends
    subst ht
    by_cases hl : RefusedLast ends
    · exact ⟨fun _ => Or.inr hl, fun _ => href hl⟩
    · have herr : out.2.bp.error = a.error := hquiet hl
      rw [herr]
      exact ⟨Or.inl, fun h => h.resolve_right hl⟩

/-- A dump reports its failures only if there are none, or for another reason. -/
theorem dump_reports {fuel : Nat} {out : Bool × Io (PollCtl σ)}
    (hr : dump setup dadkp a ends bp fuel = some out) (hu : Uses out) :
    Reports ends out ↔ a.error ≠ none ∨ RefusedLast ends ∨ ∀ e ∈ ends, ¬e.Fails := by
  unfold Reports
  rcases dump_cases hr with ⟨hno, hends, -⟩ | ⟨hok, -, -⟩
  · -- No command has been sent.
    have hnil : ends = [] := hends.symm.trans hu.2
    rw [hnil]
    exact ⟨fun _ => Or.inr (Or.inr fun e he => absurd he List.not_mem_nil), fun _ _ => Or.inl hno⟩
  · have herr := dump_error hr hu hok
    constructor
    · intro h
      by_cases hfail : ∃ e ∈ ends, e.Fails
      · rcases h hfail with hno | he
        · rw [hok] at hno
          cases hno
        · rcases herr.mp he with ha | hl
          · exact Or.inl ha
          · exact Or.inr (Or.inl hl)
      · exact Or.inr (Or.inr fun e he hf => hfail ⟨e, he, hf⟩)
    · rintro (ha | hl | hall) ⟨e, he, hf⟩
      · exact Or.inr (herr.mpr (Or.inl ha))
      · exact Or.inr (herr.mpr (Or.inr hl))
      · exact absurd hf (hall e he)

/-- The packet that `dadk_ioprep` gives to the controller for its first chunk. -/
def firstPkt (dadkp : Dadk) (bp : IoBuf) (cdb : Dcmd) : Cmpkt :=
  nextChunk dadkp bp { cdb := cdb, byteleft := bp.bcount, priv := dadkp.bbh bp.toBuf }

/-- Nothing is asked for if the buf is empty. -/
theorem firstPkt_empty (h9 : dadkp.secshf = 9) {bp : IoBuf} (hcks : IsDump dadkp bp cks)
    (h0 : bp.bcount = 0) (cdb : Dcmd) : (firstPkt dadkp bp cdb).bytexfer = 0 := by
  have hzero : (0 : Int) >>> (9 : Nat) = 0 := rfl
  unfold firstPkt nextChunk wholeCookie nextCookie
  rw [h9]
  dsimp only
  rw [hzero, Int.sub_zero, if_neg fun h => h rfl]
  cases hb : dadkp.bbh bp.toBuf with
  | none =>
    dsimp only
    rw [h0]
    rfl
  | some hp =>
    dsimp only
    rw [hcks.2 h0 hp hb]
    rfl

/-- The first chunk, if its setup and its command succeed. -/
theorem dumpFirst_spec (h9 : dadkp.secshf = 9) (hmod : bp.bcount % 512 = 0)
    (hcks : IsDump dadkp (dumpIo dadkp a ends bp).bp cks) {e : PollEnd σ} {es : List (PollEnd σ)}
    (hends : ends = e :: es) (hs : e.Succeeds) :
    let s := settle setup dadkp (dumpFirst (pollCtlr setup) dadkp (dumpIo dadkp a ends bp))
    s.ctl.ends = es ∧ s.ctl.starved = false ∧ s.bp.error = a.error ∧
      s.pkt.byteleft = bp.bcount ∧ (s.pkt.bytexfer = bp.bcount ↔ OneChunk setup dadkp a bp) ∧
      ((∀ x ∈ s.ctl.setups, x.Done) →
        (0 < bp.bcount → ∃ rest, Polling cks [] rest s) ∧
          (bp.bcount = 0 → s.pkt.bytexfer = 0 ∧ ∃ x, s.ctl.cmds = [(x, 0)])) := by
  obtain ⟨cdb, hprep⟩ : ∃ cdb, (ioprep (pollCtlr setup) dadkp (dumpIo dadkp a ends bp)).1 =
      (ctlIosetup (pollCtlr setup) { dumpIo dadkp a ends bp with
        pkt := firstPkt dadkp (dumpIo dadkp a ends bp).bp cdb }).1 := ⟨_, rfl⟩
  have hone : (ioprep (pollCtlr setup) dadkp (dumpIo dadkp a ends bp)).1.pkt.bytexfer =
      (ioprep (pollCtlr setup) dadkp (dumpIo dadkp a [] bp)).1.pkt.bytexfer := rfl
  have hfields := nextChunk_fields dadkp (dumpIo dadkp a ends bp).bp
    { cdb := cdb, byteleft := bp.bcount
      priv := dadkp.bbh (dumpIo dadkp a ends bp).bp.toBuf }
  have hempty := fun h0 => firstPkt_empty h9 hcks h0 cdb
  rcases hs with ⟨regs, hregs, hsucc⟩
  unfold dumpFirst OneChunk
  dsimp only
  rw [← hone]
  have hends' : (ioprep (pollCtlr setup) dadkp (dumpIo dadkp a ends bp)).1.ctl.ends = e :: es :=
    hends
  rw [settle_taken hends' hregs]
  refine ⟨rfl, rfl, rfl, ?_, Iff.rfl, fun hset => ⟨fun hpos => ?_, fun h0 => ?_⟩⟩
  · rw [hprep]
    exact hfields.1
  · have hpos' : 0 < (dumpIo dadkp a ends bp).bp.bcount := hpos
    rcases Live.start h9 cdb hpos' hmod hcks.1 with ⟨rest, hlive⟩
    rw [hprep] at hset ⊢
    rcases ctlIosetup_done (s := { dumpIo dadkp a ends bp with
      pkt := firstPkt dadkp (dumpIo dadkp a ends bp).bp cdb }) hlive hset with ⟨hl, -⟩
    exact ⟨rest, hl.congr _ _ _ _, rfl, hfields.2.1, rfl⟩
  · rw [hprep] at hset ⊢
    have hdone := hset _ (List.mem_append_right _ List.mem_cons_self)
    have hle := hdone.le
    have hnonneg := hdone.nonneg
    dsimp only at hle hnonneg
    rw [hempty h0] at hle
    have hgot : (setup a.ctl (firstPkt dadkp (dumpIo dadkp a ends bp).bp cdb)).2.1.1 = 0 :=
      le_antisymm hle hnonneg
    exact ⟨hgot, (firstPkt dadkp (dumpIo dadkp a ends bp).bp cdb).srtsec,
      congrArg (fun n => [((firstPkt dadkp (dumpIo dadkp a ends bp).bp cdb).srtsec, n)]) hgot⟩

/-- A dump whose setups and commands all succeed. It transfers its request, unless the
    buf has an error from before, which ends it after the first chunk. It does not wait
    for more commands than there are sectors, or for more than one if there is none. -/
theorem dump_transfers (h9 : dadkp.secshf = 9)
    (hcks : IsDump dadkp (dumpIo dadkp a ends bp).bp cks) (hs : ∀ e ∈ ends, e.Succeeds)
    {fuel : Nat} {out : Bool × Io (PollCtl σ)}
    (hr : dump setup dadkp a ends bp fuel = some out) (hset : ∀ x ∈ out.2.ctl.setups, x.Done)
    (hor : out.2.ctl.starved = false ∨ bp.bcount / 512 < ends.length) :
    out.2.ctl.starved = false ∧
      (out.1 = true → (Transfers cks bp out ↔ a.error = none ∨ OneChunk setup dadkp a bp)) := by
  rcases dump_cases hr with ⟨hno, -, hst⟩ | ⟨hok, hmod, hloop⟩
  · refine ⟨hst, fun hok => ?_⟩
    rw [hno] at hok
    cases hok
  rw [Dadk.secsiz_nine h9] at hmod
  rcases hcks.1.size_eq with ⟨hsize, hnonneg⟩
  have hfull : 512 * size cks = bp.bcount := by
    rw [hsize]
    change (512 * ((bp.bcount / 512 : Nat) : Int)) = (bp.bcount : Int)
    omega
  -- The first chunk needs an end of its own.
  cases ends with
  | nil =>
    exfalso
    have hst := @pollTransport_starved σ setup (ioprep (pollCtlr setup) dadkp
      (dumpIo dadkp a [] bp)).1 rfl
    have hfail := dumpLoop_failed (by rw [settle_bp]; exact hst.2) hloop
    rcases hor with hor | hor
    · rw [hfail.2, settle_ctl] at hor
      exact absurd (hst.1.symm.trans hor) nofun
    · exact absurd hor (Nat.not_lt_zero _)
  | cons e es =>
    have hsucc := hs e List.mem_cons_self
    rcases @dumpFirst_spec σ setup dadkp a (e :: es) bp cks h9 hmod hcks e es rfl hsucc with
      ⟨hes, hst, herr, hbyte, hone, hfirst⟩
    have hpre := dumpLoop_setups fuel hloop
    generalize settle setup dadkp (dumpFirst (pollCtlr setup) dadkp
      (dumpIo dadkp a (e :: es) bp)) = s₁ at *
    rcases hfirst fun x hx => hset x (hpre.mem hx) with ⟨hsome, hnone⟩
    by_cases h0 : bp.bcount = 0
    · -- An empty dump sends one command, of no bytes.
      rcases hnone h0 with ⟨hx, sec, hcmds⟩
      have hend : out.2.ctl = s₁.ctl :=
        (dumpLoop_over (dumpNext_none (Or.inr (by omega))) hloop).2
      have hcover : cover cks = [] := by
        have hlen := length_cover hnonneg
        exact List.length_eq_zero_iff.mp (by omega)
      refine ⟨by rw [hend, hst], fun _ => ⟨fun _ => Or.inr (hone.mp ?_), fun _ => ?_⟩⟩
      · rw [hx, h0]
        rfl
      · unfold Transfers
        rw [hend, hcmds, hcover, h0]
        exact ⟨rfl, rfl⟩
    · rcases hsome (by omega) with ⟨rest, hpoll⟩
      have hpos := hpoll.live.xfer_pos
      have hxmod := hpoll.live.xfer_mod
      by_cases ha : a.error = none
      · have hall := dumpLoop_transfers h9 hnonneg fuel hpoll (herr.trans ha)
          (fun e' he' => hs e' (List.mem_cons_of_mem e (hes ▸ he'))) hloop hset
          (hor.imp_right fun hor => by
            rw [List.length_cons] at hor
            rw [hes]
            omega)
        exact ⟨hall.1, fun _ => ⟨fun _ => Or.inl ha, fun _ =>
          ⟨hall.2.1, hall.2.2.trans hfull⟩⟩⟩
      · -- The buf has an error, so the loop ends.
        have hend := (dumpLoop_failed (herr ▸ ha) hloop).2
        refine ⟨by rw [hend, hst], fun _ => ⟨fun htr => Or.inr (hone.mp ?_), fun hor => ?_⟩⟩
        · have hmoved := htr.2
          rw [hend, hpoll.cmds, moved_append] at hmoved
          rw [← hmoved]
          exact (Int.zero_add _).symm
        · have hx := hone.mpr (hor.resolve_left ha)
          have hall := hpoll.all hnonneg (Int.sub_eq_zero.mpr (hbyte.trans hx.symm))
          unfold Transfers
          rw [hend]
          exact ⟨hall.1, hall.2.trans hfull⟩

/-- A dump returns, with fuel for every end and for two commands more. -/
theorem dump_returns {fuel : Nat} (hfuel : ends.length + 2 < fuel) :
    ∃ out, dump setup dadkp a ends bp fuel = some out := by
  unfold dump
  dsimp only
  split
  · exact ⟨_, rfl⟩
  · split
    · exact ⟨_, rfl⟩
    · split
      · exact ⟨_, rfl⟩
      · have hpoll := @dumpFirst_polled σ setup dadkp (dumpIo dadkp a ends bp)
        obtain ⟨r, hr⟩ : ∃ r, dumpLoop setup dadkp fuel (settle setup dadkp
            (dumpFirst (pollCtlr setup) dadkp (dumpIo dadkp a ends bp))) = some r := by
          rcases hpoll.length_lt with he | hlt
          · exact dumpLoop_stops he (by omega)
          · have hlen : (dumpIo dadkp a ends bp).ctl.ends.length = ends.length := rfl
            exact dumpLoop_returns fuel (by omega)
        rw [hr]
        exact ⟨_, rfl⟩

end Dump

/-- When `dadk_dump` reports its failures, and what it transfers. For every controller,
    every buf, every outcome of preparing its packet, and any ends of its commands:

    If a command fails, `dadk_dump` returns `DDI_FAILURE` or the buf has an error, if
    and only if the buf had one before the first command, the last `CTL_TRANSPORT` was
    refused, or no command fails.

    If every setup and every command succeeds, the loop ends. It has transferred the
    request, each sector once, if and only if the buf had no error before the first
    command, or this is the only one. -/
theorem dump_reports_iff {σ : Type} (setup : σ → Cmpkt → σ × (Int × Int) × Bool) (dadkp : Dadk)
    (a : DumpPrep σ) (bp : IoBuf) (cks : List (Int × Int)) (h9 : dadkp.secshf = 9)
    (hcks : IsDump dadkp { bp with sec := bp.sec >>> dadkp.blkshf } cks) :
    (∀ ends fuel out, dump setup dadkp a ends bp fuel = some out → Uses out →
        (Reports ends out ↔ a.error ≠ none ∨ RefusedLast ends ∨ ∀ e ∈ ends, ¬e.Fails)) ∧
      (∀ ends fuel out, dump setup dadkp a ends bp fuel = some out → Uses out →
        (∀ e ∈ ends, e.Succeeds) → (∀ x ∈ out.2.ctl.setups, x.Done) → out.1 = true →
        (Transfers cks bp out ↔ a.error = none ∨ OneChunk setup dadkp a bp)) ∧
      ∀ ends, (∀ e ∈ ends, e.Succeeds) → bp.bcount / 512 < ends.length →
        ∃ fuel out, dump setup dadkp a ends bp fuel = some out ∧
          ((∀ x ∈ out.2.ctl.setups, x.Done) → out.2.ctl.starved = false) := by
  refine ⟨fun ends fuel out hr hu => dump_reports hr hu, ?_, ?_⟩
  · intro ends fuel out hr hu hs hset hok
    exact (dump_transfers h9 hcks hs hr hset (Or.inl hu.1)).2 hok
  · intro ends hs hlen
    rcases @dump_returns σ setup dadkp a ends bp (ends.length + 3) (by omega) with ⟨out, hr⟩
    exact ⟨_, out, hr, fun hset => (dump_transfers h9 hcks hs hr hset (Or.inr hlen)).1⟩

/-! ## An ATA disk -/

/-- `ata_disk_iosetup`, for `dadk_dump`. -/
def ataSetup (drv : DiskDrv) (k : AtaDisk) (p : Cmpkt) : AtaDisk × (Int × Int) × Bool :=
  let r := diskIosetup drv k p
  (r.1, (r.2.1.bytexfer, r.2.1.resid), r.2.2)

/-- It changes nothing else in the packet. -/
theorem diskIosetup_packet (drv : DiskDrv) (k : AtaDisk) (p : Cmpkt) :
    (diskIosetup drv k p).2.1 =
      { p with
        bytexfer := (ataSetup drv k p).2.1.1
        resid := (ataSetup drv k p).2.1.2 } := by
  have hcmd : ∀ (t : AtaDisk) (n : Nat), (setupCmd drv t p n).2.1 =
      { p with
        bytexfer := (setupCmd drv t p n).2.1.bytexfer
        resid := (setupCmd drv t p n).2.1.resid } := by
    intro t n
    unfold setupCmd
    cases p.passthru with
    | some rw => rfl
    | none => cases p.cdb <;> rfl
  unfold ataSetup diskIosetup
  dsimp only
  by_cases hflush : p.passthru.isNone = true ∧ p.cdb = .flushCache
  · rw [if_pos hflush]
  by_cases hretry : k.pkt.flags.error = true ∧ k.dma.handle.isSome = true
  · rw [if_neg hflush, if_pos hretry]
  rw [if_neg hflush, if_neg hretry]
  split
  · rfl
  · exact hcmd _ _

/-- A dump of two sectors. -/
def twoDump : IoBuf :=
  { part := 0, sec := 0, bcount := 1024, read := false, internal := none, resid := 0
    error := none }

/-- Its packet is for PIO. -/
def twoPrep : DumpPrep AtaDisk := ⟨⟨freshPkt, {}⟩, true, none⟩

/-- The sectors cannot be found. -/
def idnfRegs : DiskRegs :=
  ⟨true, false, false, false, false, false, true, false, false, false, false, true, 1024⟩

/-- They have been written. -/
def writtenRegs : DiskRegs :=
  ⟨false, false, false, false, false, false, false, false, false, false, false, true, 0⟩

/-- The only command has failed. `dadk_dump` returns `DDI_SUCCESS`, and the buf has no
    error. -/
theorem dump_silent :
    ¬ (∀ (a : DumpPrep AtaDisk) ends fuel out,
        dump (ataSetup lba28Disk) plainDisk a ends twoDump fuel = some out → Uses out →
        Reports ends out) ∧
    (dump (ataSetup lba28Disk) plainDisk twoPrep [⟨twoPrep.ctl, some idnfRegs⟩] twoDump 2).map
      (fun out => (out.1, out.2.bp.error)) = some (true, none) := by
  refine ⟨fun hall => ?_, rfl⟩
  have hrep := hall twoPrep [⟨twoPrep.ctl, some idnfRegs⟩] 2 _ rfl ⟨rfl, rfl⟩
  rcases hrep ⟨_, List.mem_cons_self, idnfRegs, rfl, nofun⟩ with hno | he
  · exact absurd hno (by decide)
  · exact absurd rfl he

/-- The command has succeeded, and the sectors are written. -/
theorem dump_reports_two : ∃ out,
    dump (ataSetup lba28Disk) plainDisk twoPrep [⟨twoPrep.ctl, some writtenRegs⟩] twoDump 2 =
        some out ∧
      Reports [⟨twoPrep.ctl, some writtenRegs⟩] out ∧ Transfers [(0, 2)] twoDump out := by
  have hcks : IsDump plainDisk { twoDump with sec := twoDump.sec >>> plainDisk.blkshf } [(0, 2)] :=
    ⟨rfl, nofun⟩
  rcases dump_reports_iff (ataSetup lba28Disk) plainDisk twoPrep twoDump [(0, 2)] rfl hcks with
    ⟨hrep, htrans, -⟩
  refine ⟨_, rfl, (hrep [⟨twoPrep.ctl, some writtenRegs⟩] 2 _ rfl ⟨rfl, rfl⟩).mpr ?_,
    (htrans [⟨twoPrep.ctl, some writtenRegs⟩] 2 _ rfl ⟨rfl, rfl⟩ ?_ ?_ rfl).mpr (Or.inl rfl)⟩
  · refine Or.inr (Or.inr ?_)
    rintro e he ⟨regs, hregs, hfail⟩
    rw [List.mem_singleton.mp he] at hregs
    cases hregs
    exact hfail rfl
  · intro e he
    rw [List.mem_singleton.mp he]
    exact ⟨writtenRegs, rfl, rfl⟩
  · intro x hx
    have hx : x = ⟨1024, 1024, true⟩ := List.mem_singleton.mp hx
    rw [hx]
    exact ⟨rfl, by decide, by decide, by decide, fun _ => by decide⟩

end Ata

end Sil3112
