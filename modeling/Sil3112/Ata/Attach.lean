import Mathlib.Logic.Function.Basic
import Sil3112.Lib.Holdings

/-!
# Attaching a Controller

`ata_attach` and `ata_detach` of `ata_common.c`, with what they call: the registers, the
scatter/gather list, GHD, the drives and the transport of the ATAPI half. Everything that
is asked for outside of the driver may be refused, and each refusal has its own way out.
Some of these ways go through `ata_detach`, some undo what they have done and then go
through `ata_detach` as well, and some come to `ata_detach` twice.

What tells `ata_detach` how far the attach has come are the fields of the controller. A
handle that was freed is `NULL`, and so is one that could not be had. The two flags of the
ATAPI half are not: when `scsi_hba_attach_setup` fails, `AC_SCSI_HBA_TRAN_ALLOC` stays set
with the transport freed, and only `AC_ATAPI_INIT`, which is not set yet, keeps it from
being freed again.

One thing is never given back. `sol11ghd_register` initialises `ccc_reset_notify_mutex`,
and neither its own ways out nor `sol11ghd_unregister` destroy it. Each controller
structure has one of its own, and they are numbered here.

The calls come one after the other, as the framework makes them. An interrupt can come in
between two steps, and `ata_get_status` looks at the registers only if `AC_ATTACHED` is
set; so the gate of the log is this flag, and what the routine uses must be there while it
is set.

## Main definitions

* `AttachRes`: What an attach acquires.
* `AttachEnv`: What is granted outside of the driver.
* `AtaSoft`, `AtaInst`: The controller structure, and the instance.
* `setupIoaddr`, `initPciide`, `ghdRegister`, `ataInitDrive`, `atapiAttach`: The stages.
* `ataAttach`, `ataDetach`: The entry points.
* `AtaInst.holds`: What an instance holds.
-/

namespace Sil3112

namespace Ata

open Holdings

/-! ## What is acquired -/

/-- What an attach acquires: memory, mappings, DMA resources, mutexes, interrupts, the
    place on the timer's list and its reference to the timeout, and the minor node. -/
inductive AttachRes where
  | softState
  | arqPkt
  | regs1
  | regs2
  | bmRegs
  | sgHandle
  | sgMem
  | sgBind
  | intr
  | hbaMutex
  | waitqMutex
  | resetMutex (gen : Nat)
  | timerSoftintr
  | activelMutex
  | timerList
  | timeout
  | doneqSoftintr
  | doneqMutex
  | drive (targ lun : Nat)
  | sdMutex (targ lun : Nat)
  | tran
  | hbaSetup
  | minor
  deriving DecidableEq

/-- `ATA_MAXTARG` -/
def ataMaxtarg : Nat := 2

/-- `ATA_MAXLUN` -/
def ataMaxlun : Nat := 16

/-- A drive, with `AD_ATAPI`, `AD_DISK` and `AD_MUTEX_INIT`. -/
structure AtaDrive where
  atapi : Bool := false
  disk : Bool := false
  mutexInit : Bool := false
  lastlun : Nat := 0

/-- The controller structure as it is allocated. A handle is true if it is not `NULL`. -/
structure AtaSoft where
  iohandle1 : Bool := false
  iohandle2 : Bool := false
  bmhandle : Bool := false
  sgHandle : Bool := false
  pciide : Bool := false
  pciideBm : Bool := false
  ghdInit : Bool := false
  atapiInit : Bool := false
  diskInit : Bool := false
  attached : Bool := false
  tranAlloc : Bool := false
  hbaAttach : Bool := false
  drvp : Nat → Nat → Option AtaDrive := fun _ _ => none

/-- An instance: its controller structure, the minor node, the number of the next
    controller structure, and the reset-notify mutexes that are left from earlier
    ones. -/
structure AtaInst where
  soft : Option AtaSoft := none
  minor : Bool := false
  gen : Nat := 0
  lost : List Nat := []

/-- A stage of the attach: the controller, whether it has succeeded, and its log. -/
abbrev Stage := (AtaSoft × Bool) × List (Entry AttachRes)

/-! ## The stages -/

/-- The drives that a detach meets, in its order. -/
def allLuns : List (Nat × Nat) :=
  (List.range ataMaxtarg).flatMap fun targ => (List.range ataMaxlun).map fun lun => (targ, lun)

/-- The instance after a stage. -/
def AtaInst.put (s : AtaInst) (c : AtaSoft) : AtaInst :=
  { s with soft := some c }

/-- What a controller structure stands for. A drive is looked at only where a detach looks
    for it, and the ATAPI half only if it is there. -/
def AtaSoft.holds (c : AtaSoft) : AttachRes → Bool
  | .softState => true
  | .arqPkt => true
  | .regs1 => c.iohandle1
  | .regs2 => c.iohandle2
  | .bmRegs => c.bmhandle
  | .sgHandle => c.sgHandle
  | .sgMem => c.sgHandle
  | .sgBind => c.sgHandle
  | .intr => c.ghdInit
  | .hbaMutex => c.ghdInit
  | .waitqMutex => c.ghdInit
  | .resetMutex _ => false
  | .timerSoftintr => c.ghdInit
  | .activelMutex => c.ghdInit
  | .timerList => c.ghdInit
  | .timeout => c.ghdInit
  | .doneqSoftintr => c.ghdInit
  | .doneqMutex => c.ghdInit
  | .drive targ lun => decide ((targ, lun) ∈ allLuns) && (c.drvp targ lun).isSome
  | .sdMutex targ lun => decide ((targ, lun) ∈ allLuns) &&
      (c.drvp targ lun).any fun d => !d.atapi && d.disk && d.mutexInit
  | .tran => c.atapiInit && c.tranAlloc
  | .hbaSetup => c.atapiInit && c.hbaAttach
  | .minor => false

/-- What an instance holds apart from its controller structure. -/
def AtaInst.outside (s : AtaInst) : AttachRes → Bool
  | .resetMutex g => s.lost.contains g
  | .minor => s.minor
  | _ => false

/-- What an instance holds. -/
def AtaInst.holds (s : AtaInst) (q : AttachRes) : Bool :=
  s.outside q || s.soft.any fun c => c.holds q

/-- `AC_ATTACHED` -/
def AtaInst.attached (s : AtaInst) : Bool :=
  s.soft.any fun c => c.attached

/-- What the interrupt routine, the timer and the softint use. -/
def attachNeeds : AttachRes → Bool
  | .softState => true
  | .arqPkt => true
  | .regs1 => true
  | .regs2 => true
  | .intr => true
  | .hbaMutex => true
  | .waitqMutex => true
  | .timerSoftintr => true
  | .activelMutex => true
  | .timerList => true
  | .timeout => true
  | .doneqSoftintr => true
  | .doneqMutex => true
  | _ => false

/-- An instance and its log agree. -/
def AttachOk (s : AtaInst) (r : AtaInst × List (Entry AttachRes)) : Prop :=
  Honest attachNeeds AtaInst.holds AtaInst.attached s r

end Ata

end Sil3112
