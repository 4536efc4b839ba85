import Sil3112.Ata.Complete
import Sil3112.Ata.Passthru
import Sil3112.Disk.Strategy

/-!
# Running Out of Resources

How `dadk_pkt` prepares the packet of a buf for flow control, through
`gda_pktprep` and the entry points of `ata_disk.c`, and whether flow control
goes on after it fails.

A layer that fails may keep the restart callback it is given and call it when
there is room again. None of them does. `ata_disk_pktalloc` allocates without
sleeping and drops the callback. `ata_disk_memsetup` passes it on to the DDI,
but does without DMA if that fails, so that it always succeeds.
`CTL_IOSETUP` does not get it. It fails for the command of `DKIOCGETDEF`, which
a disk does not have, and the packet stays with the buf.

A buf that waits in `ds_bp` is then tried again only when another one
completes. On an idle device it waits for ever.

## Main definitions

* `Layer`, `Failure`: Who made a packet fail.
* `diskPktalloc`, `gdaPktprep`, `dadkPkt`: The functions that prepare a packet.
* `Provided`: There is what a packet needs.
* `Unstuck`: What waits will be tried again.

## Theorems

* `ioprep_accepts`: `ata_disk_iosetup` accepts every command but one.
* `flow_control_unstuck`: Flow control does not get stuck if an idle device gets
  its packets.
-/

namespace Sil3112

namespace Ata

open Ghd Disk Transition

/-- What a packet may fail in. -/
inductive Layer where
  | pktalloc
  | memsetup
  | iosetup
  deriving DecidableEq

/-- Who made a packet fail, and whether it has kept the restart callback. -/
structure Failure where
  layer : Layer
  registered : Bool

/-- A buf with its memory. `pageio` is `B_PAGEIO`. -/
structure DiskBuf extends IoBuf where
  addr : Nat
  pageio : Bool

/-- What a packet meets outside of the driver: whether there is memory for it,
    whether DMA is on, and the outcome of binding the buf. The cookies the DDI
    returns are not empty, and those of a window have a length of 32 bits. -/
structure PktEnv where
  memory : Bool
  dmaOn : Bool
  dmaDisabled : Bool
  windows : Option (List (List DmaCookie))
  bound : ∀ ws, windows = some ws → ∀ w ∈ ws, w ≠ [] ∧ (∀ c ∈ w, 0 < c.size) ∧ sizes w < 2 ^ 32

/-- `ata_disk_pktalloc`. It does not look at the callback, other than to see that
    it need not sleep. -/
def diskPktalloc (env : PktEnv) : Except Failure AtaDisk :=
  if env.memory then .ok ⟨freshPkt, {}⟩ else .error ⟨.pktalloc, false⟩

/-- `gda_pktprep` for a new packet. -/
def gdaPktprep {σ : Type} (pktalloc : Except Failure σ) (memsetup : σ → Except Failure σ)
    (bcount : Nat) : Except Failure σ :=
  match pktalloc with
  | .error e => .error e
  | .ok k => if bcount ≠ 0 then memsetup k else .ok k

/-- `dadk_pktprep` for a disk. -/
def diskPktprep (env : PktEnv) (buf : DiskBuf) : Except Failure AtaDisk :=
  gdaPktprep (diskPktalloc env)
    (fun k => .ok
      (diskMemsetup env.dmaOn env.dmaDisabled buf.pageio buf.addr buf.bcount env.windows k))
    buf.bcount

/-- What `dadk_pkt` works on: the packets of the bufs, and the last failure. -/
structure Com (β : Type) where
  pkts : β → Option (Io AtaDisk)
  failed : Option Failure

section Pkt

variable {β : Type} [DecidableEq β] (c : Ctl AtaDisk) (dadkp : Dadk) (bufs : β → DiskBuf)

/-- `dadk_pkt`. A packet whose setup fails stays with its buf. -/
def dadkPkt (env : PktEnv) (s : Com β) (bp : β) : Com β × Bool :=
  match s.pkts bp with
  | some _ => (s, true)
  | none =>
    match diskPktprep env (bufs bp) with
    | .error e => ({ s with failed := some e }, false)
    | .ok k =>
      let r := ioprep c dadkp ⟨k, {}, (bufs bp).toIoBuf⟩
      let s := { s with pkts := Function.update s.pkts bp (some r.1) }
      if r.2 then (s, true) else ({ s with failed := some ⟨.iosetup, false⟩ }, false)

/-- There is what the packet of a buf needs: memory, and a command that a disk
    has. -/
def Provided (env : PktEnv) (buf : DiskBuf) : Prop :=
  env.memory = true ∧ buf.internal ≠ some .getdef

end Pkt

/-- What waits for a packet will be tried again: a command is outstanding, or
    the last failure has kept the restart callback. -/
def Unstuck {β Q : Type} (Rep : Q → List β → Prop) (s : FcSys (Com β) β Q) : Prop :=
  ∃ l, Rep s.fc.que l ∧ (s.fc.bp ≠ none ∨ l ≠ [] → 0 < s.fc.outcnt ∨
    ∃ e, s.fc.com.failed = some e ∧ e.registered = true)

/-! ## When a packet fails -/

/-- A packet that has just been bound, or that does without DMA. -/
def NewDma (d : GcmdDma) : Prop :=
  d.handle = none ∨ ∃ h w ws, d.Ok h ∧ d.todo = w :: ws ∧ (∀ c ∈ w, 0 < c.size) ∧ sizes w < 2 ^ 32

/-- There is something to transfer. -/
theorem setupSg_some {s : AtaDisk} (h : NewDma s.dma) (n : Nat) :
    ∃ m, (setupSg s n).2 = some m := by
  by_cases hn : n = 0
  · rw [setupSg_pio (Or.inr hn)]
    exact ⟨n, rfl⟩
  · rcases h with hnone | ⟨h, w, ws, hok, htodo, hpos, hlt⟩
    · rw [setupSg_pio (Or.inl hnone)]
      exact ⟨n, rfl⟩
    · rcases dmaget_spec (f := sgFunc) hok htodo
          { s.pkt.toAtaSg with sgCnt := 0, pciideDma := false } (uint ((n <<< 9 : Nat) : Int))
          ataDmaNsegs with
        ⟨c, cs, g, single, d', h', rfl, hg, hget, -, -, -, -, -⟩
      have hst := gathered_stops (uint ((n <<< 9 : Nat) : Int)) cs (ataDmaNsegs - 1) 0 c
      rw [← hg] at hst
      have hle := sizes_le_of_prefix hst.isPrefix
      have hgpos := sizes_pos hst.pos fun c' hc' => hpos c' (hst.isPrefix.mem hc')
      unfold setupSg
      dsimp only
      rw [if_pos ⟨by rw [hok.handle]; rfl, hn⟩, hget]
      dsimp only
      rw [uint_of_lt (by omega), if_neg (by omega)]
      exact ⟨_, rfl⟩

/-- A command of a disk is accepted. -/
theorem setupCmd_accepts (drv : DiskDrv) (s : AtaDisk) {p : Cmpkt} (hpass : p.passthru = none)
    (n : Nat) : (setupCmd drv s p n).2.2 = true ↔ p.cdb = .read ∨ p.cdb = .write := by
  unfold setupCmd
  rw [hpass]
  dsimp only
  cases p.cdb with
  | read => exact iff_of_true rfl (Or.inl rfl)
  | write => exact iff_of_true rfl (Or.inr rfl)
  | flushCache => exact iff_of_false nofun (by rintro (h | h) <;> cases h)
  | getdef => exact iff_of_false nofun (by rintro (h | h) <;> cases h)

/-- A new packet is accepted unless its command is none of a disk. -/
theorem diskIosetup_accepts (drv : DiskDrv) {s : AtaDisk} (h : NewDma s.dma)
    (herr : s.pkt.flags.error = false) {p : Cmpkt} (hpass : p.passthru = none) :
    (diskIosetup drv s p).2.2 = true ↔ p.cdb ≠ .getdef := by
  by_cases hflush : p.cdb = .flushCache
  · unfold diskIosetup
    rw [if_pos ⟨by rw [hpass]; rfl, hflush⟩, hflush]
    exact iff_of_true rfl nofun
  · rw [diskIosetup_eq (fun hf => hflush hf.2) herr]
    rcases setupSg_some (s := { s with pkt := s.pkt.save }) h (secCount drv p) with ⟨m, hm⟩
    rw [hm]
    dsimp only
    rw [setupCmd_accepts drv _ hpass]
    cases hcdb : p.cdb with
    | read => exact iff_of_true (Or.inl rfl) nofun
    | write => exact iff_of_true (Or.inr rfl) nofun
    | flushCache => exact absurd hcdb hflush
    | getdef => exact iff_of_false (by rintro (h | h) <;> cases h) fun h => h rfl

/-- What `gda_pktprep` returns for a disk, and that it fails only without
    memory. -/
theorem diskPktprep_spec (env : PktEnv) (buf : DiskBuf) :
    if env.memory then
      ∃ k, diskPktprep env buf = .ok k ∧ NewDma k.dma ∧ k.pkt.flags.error = false
    else diskPktprep env buf = .error ⟨.pktalloc, false⟩ := by
  have hmem : NewDma ({} : GcmdDma) := Or.inl rfl
  unfold diskPktprep gdaPktprep diskPktalloc
  by_cases hm : env.memory = true
  · rw [if_pos hm, if_pos hm]
    dsimp only
    split
    · refine ⟨_, rfl, ?_⟩
      unfold diskMemsetup
      dsimp only
      split
      · exact ⟨hmem, rfl⟩
      split
      · exact ⟨hmem, rfl⟩
      split
      · exact ⟨hmem, rfl⟩
      split
      · exact ⟨hmem, rfl⟩
      split
      · exact ⟨hmem, rfl⟩
      split
      · next d hb =>
        -- `gda_memsetup` has bound the buf, and the whole of it is still to be done.
        rcases bufBind_ok (fun ws hws w hw => (env.bound ws hws w hw).1) hb with
          ⟨h, hok, -, hws, htodo, -, hne⟩
        rcases List.exists_cons_of_ne_nil hne with ⟨w, ws, hw⟩
        rw [hw] at hws
        rcases env.bound _ hws w List.mem_cons_self with ⟨-, hpos, hlt⟩
        exact ⟨Or.inr ⟨h, w, ws, hok, htodo.trans hw, hpos, hlt⟩, rfl⟩
      · exact ⟨hmem, rfl⟩
    · exact ⟨_, rfl, hmem, rfl⟩
  · rw [if_neg hm, if_neg hm]

/-- The first chunk of a buf is accepted unless its command is none of a disk. -/
theorem ioprep_accepts (drv : DiskDrv) (send : AtaDisk → Cmpkt → AtaDisk × Bool) (dadkp : Dadk)
    {k : AtaDisk} (h : NewDma k.dma) (herr : k.pkt.flags.error = false) (bp : IoBuf) :
    (ioprep (diskCtl drv send) dadkp ⟨k, {}, bp⟩).2 = true ↔ bp.internal ≠ some .getdef := by
  unfold ioprep Disk.iosetup ctlIosetup diskCtl
  dsimp only
  generalize hp : ({ cdb := _, byteleft := _, priv := _ } : Cmpkt) = p
  rcases nextChunk_fields dadkp bp p with ⟨-, -, hpass, hcdb⟩
  rw [diskIosetup_accepts drv h herr (hpass.trans (by rw [← hp])), hcdb, ← hp]
  dsimp only
  cases bp.internal with
  | none =>
      refine iff_of_true ?_ nofun
      cases bp.read with
      | false => exact fun h => nomatch h
      | true => exact fun h => nomatch h
  | some cmd => exact ⟨fun h hn => h (Option.some.inj hn), fun h hn => h (congrArg some hn)⟩

/-- `dadk_pkt` succeeds if the buf has a packet, or what it needs is there. -/
theorem dadkPkt_succeeds_iff {β : Type} [DecidableEq β] (drv : DiskDrv)
    (send : AtaDisk → Cmpkt → AtaDisk × Bool) (dadkp : Dadk) (bufs : β → DiskBuf) (env : PktEnv)
    (s : Com β) (bp : β) :
    (dadkPkt (diskCtl drv send) dadkp bufs env s bp).2 = true ↔
      s.pkts bp ≠ none ∨ Provided env (bufs bp) := by
  unfold dadkPkt Provided
  cases hp : s.pkts bp with
  | some io => exact iff_of_true rfl (Or.inl nofun)
  | none =>
      have hspec := diskPktprep_spec env (bufs bp)
      by_cases hm : env.memory = true
      · rw [if_pos hm] at hspec
        rcases hspec with ⟨k, hk, hnew, herr⟩
        rw [hk]
        dsimp only
        -- There is a packet now, and the first chunk decides.
        have hacc := ioprep_accepts drv send dadkp hnew herr (bufs bp).toIoBuf
        split
        · next hr => exact iff_of_true rfl (Or.inr ⟨hm, hacc.1 hr⟩)
        · next hr =>
          refine iff_of_false nofun ?_
          rintro (h | h)
          · exact h rfl
          · exact hr (hacc.2 h.2)
      · rw [if_neg hm] at hspec
        rw [hspec]
        refine iff_of_false nofun ?_
        rintro (h | h)
        · exact h rfl
        · exact hm h.1

/-! ## Runs -/

/-- `TGCOM_PKT` is `dadk_pkt`, in some environment. -/
def AnyPkt {β Q : Type} [DecidableEq β] (c : Ctl AtaDisk) (dadkp : Dadk) (bufs : β → DiskBuf)
    (_ : Fc (Com β) β Q) (_ : β) (pkt : Com β → β → Com β × Bool) : Prop :=
  ∃ env, pkt = dadkPkt c dadkp bufs env

/-- While no command is outstanding, a buf without a packet gets what its packet
    needs. -/
def IdleProvided {β Q : Type} [DecidableEq β] (c : Ctl AtaDisk) (dadkp : Dadk) (bufs : β → DiskBuf)
    (fc : Fc (Com β) β Q) (bp : β) (pkt : Com β → β → Com β × Bool) : Prop :=
  ∃ env, pkt = dadkPkt c dadkp bufs env ∧
    (fc.outcnt = 0 → fc.com.pkts bp = none → Provided env (bufs bp))

/-- Flow control does not get stuck if an idle device gets its packets. For
    `dsngl`, `dmult` or any other limit over `dadk_pkt`, a queue that loses
    nothing and any interleaving of the calls: if whenever `dadk_pkt` is called
    for a buf without a packet while `ds_outcnt` is 0 there is memory for the
    packet and the command is not `DCMD_GETDEF`, then in every state what waits
    will be tried again. -/
theorem flow_control_unstuck (drv : DiskDrv) (send : AtaDisk → Cmpkt → AtaDisk × Bool)
    (dadkp : Dadk) (f : Flc) {β Q : Type} [DecidableEq β] (bufs : β → DiskBuf) (que : Que β Q)
    (Rep : Q → List β → Prop) (hq : que.Keeps Rep List.Perm) (s : FcSys (Com β) β Q)
    (hs : Reachable (FcInit Rep)
      (FcStep que f (IdleProvided (diskCtl drv send) dadkp bufs)) s) :
    Unstuck Rep s := by
  have hok : ∀ (fc : Fc (Com β) β Q) bp pkt, IdleProvided (diskCtl drv send) dadkp bufs fc bp pkt →
      fc.outcnt = 0 → (pkt fc.com bp).2 = true := by
    rintro fc bp pkt ⟨env, rfl, hprov⟩ hidle
    rw [dadkPkt_succeeds_iff]
    by_cases hp : fc.com.pkts bp = none
    · exact Or.inr (hprov hidle hp)
    · exact Or.inl hp
  -- An idle device never leaves a buf in `ds_bp`.
  have hfed : Fed s.fc := by
    refine Reachable.invariant (I := fun s => Fed s.fc) ?_ ?_ hs
    · exact fun s₀ h₀ hn => absurd h₀.1 hn
    · intro s₁ s₂ h₁ hf hst
      rcases reachable_fcOk orders_perm hq h₁ with ⟨l, out, hinv⟩
      exact hst.fed hok hinv hf
  rcases reachable_fcOk orders_perm hq hs with ⟨l, out, hinv⟩
  refine ⟨l, hinv.rep, fun hw => Or.inl ?_⟩
  -- What waits in the queue only does so while the limit is reached.
  by_cases hbp : s.fc.bp = none
  · rcases hw with hw | hw
    · exact absurd hbp hw
    · have hout : 0 ≤ s.fc.outcnt := by
        rw [hinv.outcnt]
        exact Int.natCast_nonneg _
      exact outcnt_pos_of_full f hout (hinv.room hbp hw)
  · exact hfed hbp

/-- A read of one sector each. -/
def sectorBufs (n : Nat) : DiskBuf where
  part := 0
  sec := n
  bcount := 512
  read := true
  internal := none
  resid := 0
  error := none
  addr := 0
  pageio := false

/-- Memory for packets or none, without DMA. -/
def pioEnv (memory : Bool) : PktEnv where
  memory := memory
  dmaOn := false
  dmaDisabled := false
  windows := none
  bound := nofun

/-- An idle device. -/
def idleDisk : FcSys (Com Nat) Nat (QueTab Nat) where
  fc := ⟨none, 0, ⟨none, none, fun _ => none⟩, ⟨fun _ => none, none⟩⟩
  calls := []
  enqueued := []
  claimed := []
  transported := []
  dequeued := []

theorem idleDisk_init : FcInit QueTab.Holds idleDisk :=
  ⟨rfl, rfl, ⟨rfl, rfl, List.nodup_nil⟩, rfl, rfl, rfl, rfl, rfl⟩

/-- There is no memory for the packet of the first buf. It waits in `ds_bp`, and
    nothing will try it again. -/
theorem flow_control_stuck (f : Flc) (hf : f = dsngl ∨ f = dmult) :
    ∃ s : FcSys (Com Nat) Nat (QueTab Nat),
      Reachable (FcInit QueTab.Holds) (FcStep qfifo f (AnyPkt pioCtl plainDisk sectorBufs)) s ∧
        s.calls = [] ∧ ¬ Unstuck QueTab.Holds s := by
  have hstep : Reachable (FcInit QueTab.Holds)
      (FcStep qfifo f (AnyPkt pioCtl plainDisk sectorBufs)) _ :=
    (Reachable.initial idleDisk_init).tail
      (.enque idleDisk 1 (by decide) (dadkPkt pioCtl plainDisk sectorBufs (pioEnv false))
        fun _ _ => ⟨pioEnv false, rfl⟩)
  refine ⟨_, hstep, ?_, ?_⟩
  · rcases hf with rfl | rfl
    · rfl
    · rfl
  · rintro ⟨l, -, hw⟩
    rcases hf with rfl | rfl
    · rcases hw (Or.inl nofun) with hw | ⟨e, he, hr⟩
      · exact absurd hw (by decide)
      · cases he
        cases hr
    · rcases hw (Or.inl nofun) with hw | ⟨e, he, hr⟩
      · exact absurd hw (by decide)
      · cases he
        cases hr

/-- Neither `dsngl` nor `dmult` is sure to go on. -/
theorem flow_control_gets_stuck :
    (¬ ∀ s : FcSys (Com Nat) Nat (QueTab Nat),
      Reachable (FcInit QueTab.Holds) (FcStep qfifo dsngl (AnyPkt pioCtl plainDisk sectorBufs)) s →
        s.calls = [] → Unstuck QueTab.Holds s) ∧
    ¬ ∀ s : FcSys (Com Nat) Nat (QueTab Nat),
      Reachable (FcInit QueTab.Holds) (FcStep qfifo dmult (AnyPkt pioCtl plainDisk sectorBufs)) s →
        s.calls = [] → Unstuck QueTab.Holds s := by
  constructor
  · intro h
    rcases flow_control_stuck dsngl (Or.inl rfl) with ⟨s, hs, hc, hn⟩
    exact hn (h s hs hc)
  · intro h
    rcases flow_control_stuck dmult (Or.inr rfl) with ⟨s, hs, hc, hn⟩
    exact hn (h s hs hc)

/-- A buf gets its packet, and a second one has to wait for it. -/
theorem flow_control_unstuck_waiting : ∃ s : FcSys (Com Nat) Nat (QueTab Nat),
    s.enqueued = [1, 2] ∧ s.claimed = [1] ∧ Unstuck QueTab.Holds s := by
  have hone : Reachable (FcInit QueTab.Holds)
      (FcStep qfifo dsngl (IdleProvided pioCtl plainDisk sectorBufs)) _ :=
    (Reachable.initial idleDisk_init).tail
      (.enque idleDisk 1 (by decide) (dadkPkt pioCtl plainDisk sectorBufs (pioEnv true))
        fun _ _ => ⟨pioEnv true, rfl, fun _ _ => ⟨rfl, nofun⟩⟩)
  have htwo := hone.tail (.enque _ 2 (by decide)
    (dadkPkt pioCtl plainDisk sectorBufs (pioEnv false)) fun _ hf => nomatch hf)
  exact ⟨_, rfl, rfl, flow_control_unstuck lba28Disk _ plainDisk dsngl sectorBufs qfifo
    QueTab.Holds qfifo_keeps.perm _ htwo⟩

end Ata

end Sil3112
