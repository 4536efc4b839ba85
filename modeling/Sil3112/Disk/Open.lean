import Mathlib.Logic.Function.Basic
import Sil3112.Lib.Transition

/-!
# Opening and Detaching Disks

`cmdkopen`, `cmdkclose`, `cmdkattach` and `cmdkdetach` of `cmdk.c`. An instance
has a mask of its open partitions for each open type but `OTYP_LYR`, which has
counters, a mask of the partitions that are held exclusively, and a flag
`CMDK_OPEN`. A detach looks for the flag in every instance below
`cmdk_max_instance`.

Beside the driver there is what the calls say: which partitions are open, by
which types, and which type holds one exclusively (`PartOpen`). Two things keep
the driver from it.

* `cmdkclose` does not clear `CMDK_OPEN`, and a detach does not look at the
  instance with the highest number.
* The bit of a partition is `1 << part`, an `int`. Partitions that differ by 32
  have the same bit, and partition 31 has all of the upper half.

## Main definitions

* `DkState`: The fields of a `struct cmdk` that opens and closes use.
* `cmdkopen`, `cmdkclose`: On one instance.
* `CmdkDrv`, `cmdkprobe`, `cmdkattach`, `cmdkdetach`: All instances.
* `PartOpen`: A partition as the calls say.
* `CmdkSys`, `CmdkStep`: Calls in any order, with what they say.

## Theorems

* `detach_sound`: When a detach goes by the partitions that are open.
* `partitions_independent`: When the masks are what the calls say.
-/

namespace Sil3112

namespace Disk

open Transition

/-! ## The driver -/

/-- What an entry point returns. -/
inductive CmdkRv where
  | success
  | failure
  | enxio
  | einval
  | erofs
  | ebusy
  deriving DecidableEq

/-- `OTYP_CHR` -/
def otypChr : Nat := 2

/-- `OTYP_LYR` -/
def otypLyr : Nat := 4

/-- `OTYPCNT` -/
def otypcnt : Nat := 5

/-- `CMDK_MAXPART` -/
def cmdkMaxpart : Nat := 64

/-- `CMDKUNIT`, of a minor number. -/
def cmdkunit (dev : Nat) : Nat := dev / cmdkMaxpart

/-- `CMDKPART`, of a minor number. -/
def cmdkpart (dev : Nat) : Nat := dev % cmdkMaxpart

/-- The fields of a `struct cmdk` for opens: `CMDK_OPEN` of `dk_flag`,
    `dk_open_reg`, `dk_open_lyr` and `dk_open_exl`. -/
structure DkState where
  flagOpen : Bool := false
  openReg : Nat → BitVec 64 := fun _ => 0
  openLyr : Nat → Nat := fun _ => 0
  openExl : BitVec 64 := 0

/-- `partbit = 1 << part`: an `int`, shifted modulo its width, and converted to
    `ulong_t`. -/
def partbit (part : Nat) : BitVec 64 := ((1 : BitVec 32) <<< (part % 32)).signExtend 64

/-- The flags of an open: `FNDELAY` or `FNONBLOCK`, `FWRITE`, and `FEXCL`. -/
structure OpenFlag where
  nodelay : Bool := false
  fwrite : Bool := false
  fexcl : Bool := false

/-- What an open finds: whether `cmlb_validate` succeeds, the sectors that
    `cmlb_partinfo` reports if it does, and `tg_rdonly`. -/
structure OpenEnv where
  validate : Bool := true
  partinfo : Option Nat := some 1
  rdonly : Bool := false

/-- The label is good enough for an open. One that does not block puts up with
    almost anything. -/
def labelOk (otyp : Nat) (flag : OpenFlag) (env : OpenEnv) : Bool :=
  if env.validate = false then flag.nodelay
  else
    match env.partinfo with
    | some lblkcnt => !(lblkcnt == 0 && (!flag.nodelay || otyp != otypChr))
    | none => flag.nodelay

/-- The checks of `cmdkopen` before it looks at other opens. -/
def openCheck (otyp : Nat) (flag : OpenFlag) (env : OpenEnv) : Option CmdkRv :=
  if labelOk otyp flag env = false then some .enxio
  else if env.rdonly && flag.fwrite then some .erofs
  else none

/-- `cmdkopen`, of an instance that is there. -/
def cmdkopen (k : DkState) (dev otyp : Nat) (flag : OpenFlag) (env : OpenEnv) :
    DkState × CmdkRv :=
  let part := cmdkpart dev
  if otypcnt ≤ otyp then (k, .einval)
  else
    match openCheck otyp flag env with
    | some rv => (k, rv)
    | none =>
      if k.openExl &&& partbit part ≠ 0 then (k, .ebusy)
      else if flag.fexcl = true ∧ (k.openLyr part ≠ 0 ∨
          ∃ i < otypcnt, k.openReg i &&& partbit part ≠ 0) then (k, .ebusy)
      else
        let k := { k with flagOpen := true }
        let k := if otyp = otypLyr then
            { k with openLyr := Function.update k.openLyr part (k.openLyr part + 1) }
          else
            { k with openReg := Function.update k.openReg otyp (k.openReg otyp ||| partbit part) }
        (if flag.fexcl then { k with openExl := k.openExl ||| partbit part } else k, .success)

/-- Nothing is open: `lastclose`. -/
def lastclose (k : DkState) : Bool :=
  (List.range cmdkMaxpart).all (fun i => k.openLyr i == 0) &&
    (List.range otypcnt).all fun i => k.openReg i == 0

/-- What `cmdkclose` takes out of the masks and counters. -/
def DkState.account (k : DkState) (part otyp : Nat) : DkState :=
  let k := if otyp = otypLyr then
      { k with openLyr := Function.update k.openLyr part (k.openLyr part - 1) }
    else
      { k with openReg := Function.update k.openReg otyp (k.openReg otyp &&& ~~~partbit part) }
  { k with openExl := k.openExl &&& ~~~partbit part }

/-- `cmdkclose`, of an instance that is there, and whether it calls
    `cmlb_invalidate`. -/
def cmdkclose (k : DkState) (dev otyp : Nat) : DkState × CmdkRv × Bool :=
  if otypcnt ≤ otyp then (k, .enxio, false)
  else if k.flagOpen = false then (k, .enxio, false)
  else
    let k := k.account (cmdkpart dev) otyp
    (k, .success, lastclose k)

/-- `cmdk_state` and `cmdk_max_instance`. -/
structure CmdkDrv where
  state : Nat → Option DkState
  maxInstance : Nat

/-- An instance is set to something. -/
def CmdkDrv.set (d : CmdkDrv) (inst : Nat) (k : Option DkState) : CmdkDrv :=
  { d with state := Function.update d.state inst k }

/-- `cmdkprobe`, with the outcome of `cmdk_create_obj` and `dadk_probe`. -/
def cmdkprobe (d : CmdkDrv) (inst : Nat) (ok : Bool) : CmdkDrv × CmdkRv :=
  match d.state inst with
  | some _ => (d, .failure)
  | none => if ok then (d.set inst (some {}), .success) else (d, .failure)

/-- `cmdkattach`, for `DDI_ATTACH` or another command, with the outcomes of
    `dadk_open` and `cmlb_attach`. That it keeps the target open is left out. -/
def cmdkattach (d : CmdkDrv) (inst : Nat) (ddiAttach dadkOpen cmlbAttach : Bool) :
    CmdkDrv × CmdkRv :=
  if ddiAttach = false then (d, .failure)
  else
    match d.state inst with
    | none => (d, .failure)
    | some k =>
      if dadkOpen && cmlbAttach then
        ({ d.set inst (some k) with maxInstance := max d.maxInstance inst }, .success)
      else (d.set inst none, .failure)

/-- The instance has `CMDK_OPEN`. -/
def CmdkDrv.isOpen (d : CmdkDrv) (inst : Nat) : Bool :=
  match d.state inst with
  | some k => k.flagOpen
  | none => false

/-- The loop of `cmdkdetach`: some instance is open. -/
def anyOpen (d : CmdkDrv) : Bool :=
  (List.range d.maxInstance).any d.isOpen

/-- `cmdkdetach`, for `DDI_DETACH` or another command. -/
def cmdkdetach (d : CmdkDrv) (inst : Nat) (ddiDetach : Bool) : CmdkDrv × CmdkRv :=
  if ddiDetach = false then (d, .failure)
  else if anyOpen d then (d, .failure)
  else (d.set inst none, .success)

/-! ## What the calls say -/

/-- A partition as the calls for it say: whether it is open by each type but
    `OTYP_LYR`, how often by that one, and the type that holds it exclusively. -/
structure PartOpen where
  reg : Nat → Bool := fun _ => false
  lyr : Nat := 0
  holder : Option Nat := none

namespace PartOpen

/-- The partition is open. -/
def IsOpen (p : PartOpen) : Prop :=
  0 < p.lyr ∨ ∃ t < otypcnt, p.reg t = true

instance (p : PartOpen) : Decidable p.IsOpen :=
  inferInstanceAs (Decidable (_ ∨ _))

/-- An open has succeeded. -/
def opened (p : PartOpen) (otyp : Nat) (fexcl : Bool) : PartOpen :=
  let p := if otyp = otypLyr then { p with lyr := p.lyr + 1 }
    else { p with reg := Function.update p.reg otyp true }
  if fexcl then { p with holder := some otyp } else p

/-- A close. The exclusive hold ends with the close of the type that has it. -/
def closed (p : PartOpen) (otyp : Nat) : PartOpen :=
  let p := if otyp = otypLyr then { p with lyr := p.lyr - 1 }
    else { p with reg := Function.update p.reg otyp false }
  if p.holder = some otyp then { p with holder := none } else p

theorem opened_reg (p : PartOpen) (otyp : Nat) (fexcl : Bool) : (p.opened otyp fexcl).reg =
    if otyp = otypLyr then p.reg else Function.update p.reg otyp true := by
  unfold opened
  by_cases h : otyp = otypLyr
  · cases fexcl <;> simp [h]
  · cases fexcl <;> simp [h]

theorem opened_lyr (p : PartOpen) (otyp : Nat) (fexcl : Bool) : (p.opened otyp fexcl).lyr =
    if otyp = otypLyr then p.lyr + 1 else p.lyr := by
  unfold opened
  by_cases h : otyp = otypLyr
  · cases fexcl <;> simp [h]
  · cases fexcl <;> simp [h]

theorem opened_holder (p : PartOpen) (otyp : Nat) (fexcl : Bool) :
    (p.opened otyp fexcl).holder = if fexcl then some otyp else p.holder := by
  unfold opened
  by_cases h : otyp = otypLyr
  · cases fexcl <;> simp [h]
  · cases fexcl <;> simp [h]

/-- A close, field by field. -/
theorem closed_eq (p : PartOpen) (otyp : Nat) : p.closed otyp =
    { reg := if otyp = otypLyr then p.reg else Function.update p.reg otyp false
      lyr := if otyp = otypLyr then p.lyr - 1 else p.lyr
      holder := if p.holder = some otyp then none else p.holder } := by
  unfold closed
  dsimp only
  by_cases h : otyp = otypLyr
  · simp only [if_pos h]
    split <;> rfl
  · simp only [if_neg h]
    split <;> rfl

theorem closed_reg (p : PartOpen) (otyp : Nat) : (p.closed otyp).reg =
    if otyp = otypLyr then p.reg else Function.update p.reg otyp false := by
  rw [closed_eq]

theorem closed_lyr (p : PartOpen) (otyp : Nat) : (p.closed otyp).lyr =
    if otyp = otypLyr then p.lyr - 1 else p.lyr := by
  rw [closed_eq]

theorem closed_holder (p : PartOpen) (otyp : Nat) :
    (p.closed otyp).holder = if p.holder = some otyp then none else p.holder := by
  rw [closed_eq]

theorem opened_isOpen (p : PartOpen) {otyp : Nat} (fexcl : Bool) (h : otyp < otypcnt) :
    (p.opened otyp fexcl).IsOpen := by
  unfold IsOpen
  rw [opened_lyr, opened_reg]
  by_cases ht : otyp = otypLyr
  · rw [if_pos ht]
    exact Or.inl (Nat.succ_pos _)
  · rw [if_neg ht, if_neg ht]
    exact Or.inr ⟨otyp, h, Function.update_self ..⟩

theorem not_isOpen_empty : ¬({} : PartOpen).IsOpen := by
  rintro (h | ⟨t, _, h⟩)
  · exact absurd h (Nat.lt_irrefl 0)
  · exact absurd h Bool.false_ne_true

end PartOpen

/-! ## Attaching and detaching -/

/-- A call of an entry point. -/
inductive CmdkOp where
  | probe (inst : Nat) (ok : Bool)
  | attach (inst : Nat) (ddiAttach dadkOpen cmlbAttach : Bool)
  | open (dev otyp : Nat) (flag : OpenFlag) (env : OpenEnv)
  | close (dev otyp : Nat)
  | detach (inst : Nat) (ddiDetach : Bool)

/-- The call. -/
def CmdkOp.run (d : CmdkDrv) : CmdkOp → CmdkDrv × CmdkRv
  | .probe inst ok => cmdkprobe d inst ok
  | .attach inst ddiAttach dadkOpen cmlbAttach =>
    cmdkattach d inst ddiAttach dadkOpen cmlbAttach
  | .open dev otyp flag env =>
    match d.state (cmdkunit dev) with
    | none => (d, .enxio)
    | some k =>
      let (k, rv) := cmdkopen k dev otyp flag env
      (d.set (cmdkunit dev) (some k), rv)
  | .close dev otyp =>
    match d.state (cmdkunit dev) with
    | none => (d, .enxio)
    | some k =>
      let (k, rv, _) := cmdkclose k dev otyp
      (d.set (cmdkunit dev) (some k), rv)
  | .detach inst ddiDetach => cmdkdetach d inst ddiDetach

/-- The partitions of all instances. -/
abbrev DkParts := Nat → Nat → PartOpen

/-- A partition has changed. -/
def DkParts.set (ps : DkParts) (dev : Nat) (p : PartOpen) : DkParts :=
  Function.update ps (cmdkunit dev)
    (Function.update (ps (cmdkunit dev)) (cmdkpart dev) p)

/-- The partition of a minor number. -/
def DkParts.at (ps : DkParts) (dev : Nat) : PartOpen :=
  ps (cmdkunit dev) (cmdkpart dev)

/-- What a call that has returned says. -/
def CmdkOp.note (ps : DkParts) (op : CmdkOp) (rv : CmdkRv) : DkParts :=
  if rv = .success then
    match op with
    | .open dev otyp flag _ => ps.set dev ((ps.at dev).opened otyp flag.fexcl)
    | .close dev otyp => ps.set dev ((ps.at dev).closed otyp)
    | _ => ps
  else ps

/-- The driver, and the partitions. -/
structure CmdkSys where
  drv : CmdkDrv
  parts : DkParts

/-- After a call. An instance that is gone has nothing open. -/
def CmdkSys.next (s : CmdkSys) (op : CmdkOp) : CmdkSys :=
  let (d, rv) := op.run s.drv
  ⟨d, fun inst => match d.state inst with
    | none => fun _ => {}
    | some _ => op.note s.parts rv inst⟩

/-- No instance has been probed. -/
def CmdkSys.init : CmdkSys where
  drv := ⟨fun _ => none, 0⟩
  parts := fun _ _ => {}

/-- A call that keeps `CMDK_OPEN` in line: a close after which the instance still has
    an open partition, and a detach that looks at the instance's flag, or at another
    that is set, if it is set. -/
def CmdkOp.KeepsFlag (s : CmdkSys) : CmdkOp → Prop
  | .close dev otyp => s.drv.isOpen (cmdkunit dev) = true → otyp < otypcnt →
    ∃ part, (s.parts.set dev ((s.parts.at dev).closed otyp) (cmdkunit dev) part).IsOpen
  | .detach inst _ => s.drv.isOpen inst = true →
    inst < s.drv.maxInstance ∨ ∃ i < s.drv.maxInstance, s.drv.isOpen i = true
  | _ => True

/-- A call that keeps the flag in line. -/
inductive CmdkStep : CmdkSys → CmdkSys → Prop
  | call {s : CmdkSys} (op : CmdkOp) (h : op.KeepsFlag s) : CmdkStep s (s.next op)

/-- `CMDK_OPEN` is set of the instances with an open partition. -/
def FlagOk (s : CmdkSys) : Prop :=
  ∀ inst, s.drv.isOpen inst = true ↔ ∃ part, (s.parts inst part).IsOpen

theorem CmdkDrv.isOpen_none {d : CmdkDrv} {inst : Nat} (h : d.state inst = none) :
    d.isOpen inst = false := by
  unfold CmdkDrv.isOpen
  rw [h]

theorem CmdkDrv.isOpen_some {d : CmdkDrv} {inst : Nat} {k : DkState}
    (h : d.state inst = some k) : d.isOpen inst = k.flagOpen := by
  unfold CmdkDrv.isOpen
  rw [h]

@[simp] theorem CmdkDrv.isOpen_set_none (d : CmdkDrv) (inst : Nat) :
    (d.set inst none).isOpen inst = false :=
  CmdkDrv.isOpen_none (Function.update_self ..)

@[simp] theorem CmdkDrv.isOpen_set_some (d : CmdkDrv) (inst : Nat) (k : DkState) :
    (d.set inst (some k)).isOpen inst = k.flagOpen :=
  CmdkDrv.isOpen_some (Function.update_self ..)

theorem CmdkDrv.isOpen_set_of_ne (d : CmdkDrv) {i inst : Nat} (k : Option DkState)
    (h : i ≠ inst) : (d.set inst k).isOpen i = d.isOpen i := by
  unfold CmdkDrv.isOpen CmdkDrv.set
  dsimp only
  rw [Function.update_of_ne h]

/-- An instance is in line after a call if its flag is, for what the call says, or
    if it is gone. -/
theorem CmdkSys.next_inLine {s : CmdkSys} {op : CmdkOp} {inst : Nat}
    (h : (op.run s.drv).1.state inst ≠ none →
      ((op.run s.drv).1.isOpen inst = true ↔
        ∃ part, (op.note s.parts (op.run s.drv).2 inst part).IsOpen)) :
    (s.next op).drv.isOpen inst = true ↔ ∃ part, ((s.next op).parts inst part).IsOpen := by
  unfold CmdkSys.next
  dsimp only
  cases hs : (op.run s.drv).1.state inst with
  | none =>
      rw [CmdkDrv.isOpen_none hs]
      exact ⟨fun h => absurd h Bool.false_ne_true, fun ⟨_, h⟩ => absurd h
        PartOpen.not_isOpen_empty⟩
  | some k => exact h (by rw [hs]; simp)

/-- A call that leaves the flag of an instance, and its partitions. -/
theorem FlagOk.same {s : CmdkSys} (h : FlagOk s) {op : CmdkOp} {inst : Nat}
    (hflag : (op.run s.drv).1.isOpen inst = s.drv.isOpen inst)
    (hparts : op.note s.parts (op.run s.drv).2 inst = s.parts inst) :
    (s.next op).drv.isOpen inst = true ↔ ∃ part, ((s.next op).parts inst part).IsOpen := by
  refine CmdkSys.next_inLine fun _ => ?_
  rw [hflag, hparts]
  exact h inst

theorem DkParts.set_of_ne (ps : DkParts) {dev inst : Nat} (p : PartOpen) (h : inst ≠ cmdkunit dev) :
    ps.set dev p inst = ps inst :=
  Function.update_of_ne h _ _

theorem DkParts.set_self (ps : DkParts) (dev : Nat) (p : PartOpen) :
    ps.set dev p (cmdkunit dev) (cmdkpart dev) = p := by
  unfold DkParts.set
  rw [Function.update_self, Function.update_self]

theorem openCheck_ne_success (otyp : Nat) (flag : OpenFlag) (env : OpenEnv) :
    openCheck otyp flag env ≠ some .success := by
  unfold openCheck
  split
  · simp
  · split
    · simp
    · simp

/-- An open that is turned down changes nothing, and one that succeeds sets the
    flag. -/
theorem cmdkopen_flag (k : DkState) (dev otyp : Nat) (flag : OpenFlag) (env : OpenEnv) :
    (cmdkopen k dev otyp flag env).2 ≠ .success ∧ (cmdkopen k dev otyp flag env).1 = k ∨
      (cmdkopen k dev otyp flag env).2 = .success ∧
        (cmdkopen k dev otyp flag env).1.flagOpen = true ∧ otyp < otypcnt := by
  unfold cmdkopen
  dsimp only
  by_cases htyp : otypcnt ≤ otyp
  · rw [if_pos htyp]
    exact Or.inl ⟨by simp, rfl⟩
  · rw [if_neg htyp]
    cases hcheck : openCheck otyp flag env with
    | some rv =>
        refine Or.inl ⟨?_, rfl⟩
        rintro rfl
        exact openCheck_ne_success otyp flag env hcheck
    | none =>
        dsimp only
        split
        · exact Or.inl ⟨by simp, rfl⟩
        · split
          · exact Or.inl ⟨by simp, rfl⟩
          · refine Or.inr ⟨rfl, ?_, Nat.lt_of_not_le htyp⟩
            split
            · split
              · rfl
              · rfl
            · split
              · rfl
              · rfl

theorem account_flag (k : DkState) (part otyp : Nat) :
    (k.account part otyp).flagOpen = k.flagOpen := by
  unfold DkState.account
  dsimp only
  split
  · rfl
  · rfl

theorem account_exl (k : DkState) (part otyp : Nat) :
    (k.account part otyp).openExl = k.openExl &&& ~~~partbit part := by
  unfold DkState.account
  dsimp only
  split
  · rfl
  · rfl

theorem account_lyr (k : DkState) (part otyp : Nat) : (k.account part otyp).openLyr =
    if otyp = otypLyr then Function.update k.openLyr part (k.openLyr part - 1)
    else k.openLyr := by
  unfold DkState.account
  dsimp only
  split
  · rfl
  · rfl

theorem account_reg (k : DkState) (part otyp : Nat) : (k.account part otyp).openReg =
    if otyp = otypLyr then k.openReg
    else Function.update k.openReg otyp (k.openReg otyp &&& ~~~partbit part) := by
  unfold DkState.account
  dsimp only
  split
  · rfl
  · rfl

/-- A close goes by the flag, and leaves it. -/
theorem cmdkclose_flag (k : DkState) (dev otyp : Nat) :
    (cmdkclose k dev otyp).1.flagOpen = k.flagOpen ∧
      ((cmdkclose k dev otyp).2.1 = .success ↔ k.flagOpen = true ∧ otyp < otypcnt) := by
  unfold cmdkclose
  by_cases htyp : otypcnt ≤ otyp
  · rw [if_pos htyp]
    exact ⟨rfl, by simp, fun h => absurd h.2 (Nat.not_lt.2 htyp)⟩
  · rw [if_neg htyp]
    by_cases hf : k.flagOpen = false
    · rw [if_pos hf]
      exact ⟨rfl, by simp, fun h => absurd h.1 (by rw [hf]; simp)⟩
    · rw [if_neg hf]
      exact ⟨account_flag k _ _, fun _ => ⟨by simpa using hf, Nat.lt_of_not_le htyp⟩,
        fun _ => rfl⟩

theorem note_of_ne {ps : DkParts} (op : CmdkOp) {rv : CmdkRv} (h : rv ≠ .success) :
    op.note ps rv = ps := by
  unfold CmdkOp.note
  rw [if_neg h]

theorem cmdkprobe_isOpen (d : CmdkDrv) (i inst : Nat) (ok : Bool) :
    (cmdkprobe d i ok).1.isOpen inst = d.isOpen inst := by
  unfold cmdkprobe
  cases hi : d.state i with
  | some k => rfl
  | none =>
      cases ok with
      | false => rfl
      | true =>
          by_cases h : inst = i
          · rw [h, if_pos rfl, CmdkDrv.isOpen_set_some, CmdkDrv.isOpen_none hi]
          · exact CmdkDrv.isOpen_set_of_ne d _ h

theorem cmdkattach_isOpen (d : CmdkDrv) (i inst : Nat) (ddiAttach dadkOpen cmlbAttach : Bool)
    (h : (cmdkattach d i ddiAttach dadkOpen cmlbAttach).1.state inst ≠ none) :
    (cmdkattach d i ddiAttach dadkOpen cmlbAttach).1.isOpen inst = d.isOpen inst := by
  unfold cmdkattach at h ⊢
  cases ddiAttach with
  | false => rfl
  | true =>
      cases hi : d.state i with
      | none => rfl
      | some k =>
          simp only [hi, Bool.true_eq_false, if_false] at h ⊢
          by_cases hok : (dadkOpen && cmlbAttach) = true
          · rw [if_pos hok]
            by_cases hinst : inst = i
            · rw [hinst, CmdkDrv.isOpen_some hi]
              exact CmdkDrv.isOpen_set_some d i k
            · exact CmdkDrv.isOpen_set_of_ne d _ hinst
          · rw [if_neg hok] at h ⊢
            by_cases hinst : inst = i
            · rw [hinst] at h
              exact absurd (Function.update_self ..) h
            · exact CmdkDrv.isOpen_set_of_ne d _ hinst

theorem cmdkdetach_isOpen (d : CmdkDrv) (i inst : Nat) (ddiDetach : Bool)
    (h : (cmdkdetach d i ddiDetach).1.state inst ≠ none) :
    (cmdkdetach d i ddiDetach).1.isOpen inst = d.isOpen inst := by
  unfold cmdkdetach at h ⊢
  cases ddiDetach with
  | false => rfl
  | true =>
      simp only [Bool.true_eq_false, if_false] at h ⊢
      by_cases hany : anyOpen d = true
      · rw [if_pos hany]
      · rw [if_neg hany] at h ⊢
        by_cases hinst : inst = i
        · rw [hinst] at h
          exact absurd (Function.update_self ..) h
        · exact CmdkDrv.isOpen_set_of_ne d _ hinst

theorem FlagOk.next_open {s : CmdkSys} (h : FlagOk s) (dev otyp : Nat) (flag : OpenFlag)
    (env : OpenEnv) : FlagOk (s.next (.open dev otyp flag env)) := by
  intro inst
  cases hk : s.drv.state (cmdkunit dev) with
  | none =>
      have hrun : (CmdkOp.open dev otyp flag env).run s.drv = (s.drv, .enxio) := by
        simp only [CmdkOp.run, hk]
      refine h.same (by rw [hrun]) ?_
      rw [hrun, note_of_ne _ (by simp)]
  | some k =>
      have hrun : (CmdkOp.open dev otyp flag env).run s.drv =
          (s.drv.set (cmdkunit dev) (some (cmdkopen k dev otyp flag env).1),
            (cmdkopen k dev otyp flag env).2) := by
        simp only [CmdkOp.run, hk]
      rcases cmdkopen_flag k dev otyp flag env with ⟨hrv, hsame⟩ | ⟨hrv, hflag, htyp⟩
      · refine h.same ?_ (by rw [hrun, note_of_ne _ hrv])
        rw [hrun, hsame]
        by_cases hinst : inst = cmdkunit dev
        · rw [hinst, CmdkDrv.isOpen_set_some, CmdkDrv.isOpen_some hk]
        · exact CmdkDrv.isOpen_set_of_ne _ _ hinst
      · have hnote : (CmdkOp.open dev otyp flag env).note s.parts .success =
            s.parts.set dev ((s.parts.at dev).opened otyp flag.fexcl) := rfl
        by_cases hinst : inst = cmdkunit dev
        · refine CmdkSys.next_inLine fun _ => ?_
          rw [hrun, hrv, hnote, hinst, CmdkDrv.isOpen_set_some]
          refine ⟨fun _ => ⟨cmdkpart dev, ?_⟩, fun _ => hflag⟩
          rw [DkParts.set_self]
          exact PartOpen.opened_isOpen _ _ htyp
        · refine h.same ?_ ?_
          · rw [hrun]
            exact CmdkDrv.isOpen_set_of_ne _ _ hinst
          · rw [hrun, hrv, hnote, DkParts.set_of_ne _ _ hinst]

theorem FlagOk.next_close {s : CmdkSys} (h : FlagOk s) {dev otyp : Nat}
    (hop : (CmdkOp.close dev otyp).KeepsFlag s) : FlagOk (s.next (.close dev otyp)) := by
  intro inst
  cases hk : s.drv.state (cmdkunit dev) with
  | none =>
      have hrun : (CmdkOp.close dev otyp).run s.drv = (s.drv, .enxio) := by
        simp only [CmdkOp.run, hk]
      refine h.same (by rw [hrun]) ?_
      rw [hrun, note_of_ne _ (by simp)]
  | some k =>
      have hrun : (CmdkOp.close dev otyp).run s.drv =
          (s.drv.set (cmdkunit dev) (some (cmdkclose k dev otyp).1),
            (cmdkclose k dev otyp).2.1) := by
        simp only [CmdkOp.run, hk]
      rcases cmdkclose_flag k dev otyp with ⟨hflag, hrv⟩
      have hopen : ((CmdkOp.close dev otyp).run s.drv).1.isOpen inst = s.drv.isOpen inst := by
        rw [hrun]
        by_cases hinst : inst = cmdkunit dev
        · rw [hinst, CmdkDrv.isOpen_set_some, CmdkDrv.isOpen_some hk, hflag]
        · exact CmdkDrv.isOpen_set_of_ne _ _ hinst
      by_cases hsucc : (cmdkclose k dev otyp).2.1 = .success
      · have hnote : (CmdkOp.close dev otyp).note s.parts .success =
            s.parts.set dev ((s.parts.at dev).closed otyp) := rfl
        by_cases hinst : inst = cmdkunit dev
        · -- The flag stays, and so does an open partition.
          rcases hrv.1 hsucc with ⟨hf, htyp⟩
          have hset : s.drv.isOpen (cmdkunit dev) = true := by rw [CmdkDrv.isOpen_some hk, hf]
          refine CmdkSys.next_inLine fun _ => ?_
          rw [hopen, hrun, hsucc, hnote, hinst]
          exact ⟨fun _ => hop hset htyp, fun _ => hset⟩
        · refine h.same hopen ?_
          rw [hrun, hsucc, hnote, DkParts.set_of_ne _ _ hinst]
      · exact h.same hopen (by rw [hrun, note_of_ne _ hsucc])

/-- Every call of the kind keeps the flag in line. -/
theorem FlagOk.next {s : CmdkSys} (h : FlagOk s) {op : CmdkOp} (hop : op.KeepsFlag s) :
    FlagOk (s.next op) := by
  cases op with
  | probe i ok =>
      intro inst
      refine h.same (cmdkprobe_isOpen _ _ _ _) ?_
      unfold CmdkOp.note
      split <;> rfl
  | attach i ddiAttach dadkOpen cmlbAttach =>
      intro inst
      refine CmdkSys.next_inLine fun hlive => ?_
      have hnote : ∀ rv, (CmdkOp.attach i ddiAttach dadkOpen cmlbAttach).note s.parts rv =
          s.parts := by
        intro rv
        unfold CmdkOp.note
        split <;> rfl
      rw [hnote, ← h inst, CmdkOp.run, cmdkattach_isOpen _ _ _ _ _ _ hlive]
  | «open» dev otyp flag env => exact h.next_open dev otyp flag env
  | close dev otyp => exact h.next_close hop
  | detach i ddiDetach =>
      intro inst
      refine CmdkSys.next_inLine fun hlive => ?_
      have hnote : ∀ rv, (CmdkOp.detach i ddiDetach).note s.parts rv = s.parts := by
        intro rv
        unfold CmdkOp.note
        split <;> rfl
      rw [hnote, ← h inst, CmdkOp.run, cmdkdetach_isOpen _ _ _ _ hlive]

/-- In a run of such calls `CMDK_OPEN` is set exactly of the instances with an open
    partition, a detach destroys no instance with one, and none is refused when
    nothing is open. -/
theorem detach_sound {s : CmdkSys} (h : Reachable (· = CmdkSys.init) CmdkStep s) :
    (∀ inst, s.drv.isOpen inst = true ↔ ∃ part, (s.parts inst part).IsOpen) ∧
    (∀ inst ddiDetach, (CmdkOp.detach inst ddiDetach).KeepsFlag s →
      (cmdkdetach s.drv inst ddiDetach).2 = .success → ∀ part, ¬(s.parts inst part).IsOpen) ∧
    ((∀ inst part, ¬(s.parts inst part).IsOpen) → anyOpen s.drv = false) := by
  have hok : FlagOk s := by
    refine h.invariant (I := FlagOk) ?_ ?_
    · rintro s rfl inst
      exact ⟨fun h => absurd h Bool.false_ne_true, fun ⟨_, h⟩ => absurd h
        PartOpen.not_isOpen_empty⟩
    · rintro s _ _ hs ⟨op, hop⟩
      exact hs.next hop
  refine ⟨hok, ?_, ?_⟩
  · intro inst ddiDetach hkeeps hrv part hpart
    have hset := (hok inst).2 ⟨part, hpart⟩
    -- The loop of the detach meets an open instance.
    have hany : anyOpen s.drv = true := by
      unfold anyOpen
      rw [List.any_eq_true]
      rcases hkeeps hset with hlt | ⟨i, hi, hopen⟩
      · exact ⟨inst, List.mem_range.2 hlt, hset⟩
      · exact ⟨i, List.mem_range.2 hi, hopen⟩
    unfold cmdkdetach at hrv
    rw [hany] at hrv
    cases ddiDetach with
    | false => exact absurd hrv (by simp)
    | true => exact absurd hrv (by simp)
  · intro hnone
    unfold anyOpen
    rw [List.any_eq_false]
    intro i _ hopen
    rcases (hok i).1 hopen with ⟨part, hpart⟩
    exact hnone i part hpart

/-- Instance 0 is attached, and a partition of it opened. -/
def openedDisk : CmdkSys :=
  ((CmdkSys.init.next (.probe 0 true)).next (.attach 0 true true true)).next
    (.open 0 otypChr {} {})

theorem openedDisk_reachable : Reachable (· = CmdkSys.init) CmdkStep openedDisk := by
  have h0 : Reachable (· = CmdkSys.init) CmdkStep CmdkSys.init := Reachable.initial rfl
  have h1 := h0.tail (CmdkStep.call (.probe 0 true) trivial)
  have h2 := h1.tail (CmdkStep.call (.attach 0 true true true) trivial)
  exact h2.tail (CmdkStep.call (.open 0 otypChr {} {}) trivial)

/-- Its flag is in line. -/
theorem detach_sound_opened : openedDisk.drv.isOpen 0 = true ↔
    ∃ part, (openedDisk.parts 0 part).IsOpen :=
  (detach_sound openedDisk_reachable).1 0

/-- And it is detached, as the loop stops before it. -/
theorem detach_opened : (cmdkdetach openedDisk.drv 0 true).2 = .success ∧
    (openedDisk.parts 0 0).IsOpen := by
  decide +kernel

/-! ## The bits of a partition -/

/-- Below 31 the bit of a partition is its own. -/
theorem partbit_low {part : Nat} (h : part < 31) (i : Nat) :
    (partbit part).getLsbD i = decide (i = part) := by
  have hmod : part % 32 = part := Nat.mod_eq_of_lt (by omega)
  have hmsb : ((1 : BitVec 32) <<< part).msb = false := by
    rw [BitVec.msb_eq_getLsbD_last, BitVec.getLsbD_shiftLeft]
    simp
    omega
  unfold partbit
  rw [hmod, BitVec.getLsbD_signExtend, hmsb, BitVec.getLsbD_shiftLeft, Bool.eq_iff_iff]
  simp
  omega

theorem and_partbit_eq_zero {part : Nat} (h : part < 31) (m : BitVec 64) :
    m &&& partbit part = 0 ↔ m.getLsbD part = false := by
  constructor
  · intro hz
    have hbit : (m &&& partbit part).getLsbD part = false := by
      rw [hz]
      simp
    rw [BitVec.getLsbD_and, partbit_low h] at hbit
    simpa using hbit
  · intro hm
    ext i hi
    rw [BitVec.getElem_and, ← BitVec.getLsbD_eq_getElem, ← BitVec.getLsbD_eq_getElem,
      partbit_low h]
    by_cases hip : i = part
    · subst hip
      rw [hm]
      simp
    · simp [hip]

theorem or_partbit {part : Nat} (h : part < 31) (m : BitVec 64) (i : Nat) :
    (m ||| partbit part).getLsbD i = (m.getLsbD i || decide (i = part)) := by
  rw [BitVec.getLsbD_or, partbit_low h]

theorem andNot_partbit {part : Nat} (h : part < 31) (m : BitVec 64) {i : Nat} (hi : i < 64) :
    (m &&& ~~~partbit part).getLsbD i = (m.getLsbD i && decide (i ≠ part)) := by
  rw [BitVec.getLsbD_and, BitVec.getLsbD_not, partbit_low h]
  simp [hi]

/-- Bits that are clear may be cleared. -/
theorem andNot_of_and_eq_zero {m b : BitVec 64} (h : m &&& b = 0) : m &&& ~~~b = m := by
  ext i hi
  have hbit : (m &&& b)[i] = false := by
    rw [h]
    simp
  rw [BitVec.getElem_and] at hbit
  rw [BitVec.getElem_and, BitVec.getElem_not]
  cases hm : m[i] with
  | false => rfl
  | true =>
      rw [hm, Bool.true_and] at hbit
      rw [hbit]
      rfl

theorem eq_zero_iff_bits (m : BitVec 64) : m = 0 ↔ ∀ i < 64, m.getLsbD i = false := by
  constructor
  · rintro rfl i _
    simp
  · intro h
    ext i hi
    rw [← BitVec.getLsbD_eq_getElem, h i hi]
    simp

/-! ## The partitions of an instance -/

/-- A call for a partition of one instance. -/
inductive PartCall where
  | open (dev otyp : Nat) (flag : OpenFlag) (env : OpenEnv)
  | close (dev otyp : Nat)

/-- The partition it is for. -/
def PartCall.part : PartCall → Nat
  | .open dev _ _ _ => cmdkpart dev
  | .close dev _ => cmdkpart dev

/-- The instance after a call. -/
def PartCall.run (k : DkState) : PartCall → DkState
  | .open dev otyp flag env => (cmdkopen k dev otyp flag env).1
  | .close dev otyp => (cmdkclose k dev otyp).1

/-- An open has to be refused: an exclusive one of an open partition, any of one
    that is held exclusively. -/
def PartOpen.Refused (p : PartOpen) (fexcl : Bool) : Prop :=
  if fexcl then p.IsOpen else p.holder ≠ none

instance (p : PartOpen) (fexcl : Bool) : Decidable (p.Refused fexcl) := by
  unfold PartOpen.Refused
  infer_instance

/-- A partition after a call for it. -/
def PartOpen.call (p : PartOpen) : PartCall → PartOpen
  | .open _ otyp flag env =>
    if otyp < otypcnt ∧ openCheck otyp flag env = none ∧ ¬p.Refused flag.fexcl then
      p.opened otyp flag.fexcl
    else p
  | .close _ otyp => if otyp < otypcnt then p.closed otyp else p

/-- A partition after the calls for it, of those for all. -/
def partState (cs : List PartCall) (part : Nat) : PartOpen :=
  (cs.filter fun c => c.part = part).foldl PartOpen.call {}

/-- The instance has recorded a partition like this. -/
structure RecordedAs (k : DkState) (part : Nat) (p : PartOpen) : Prop where
  reg : ∀ t < otypcnt, (k.openReg t).getLsbD part = p.reg t
  exl : k.openExl.getLsbD part = p.holder.isSome
  lyr : k.openLyr part = p.lyr

/-- The partition is open by this type, as the instance has it. -/
def DkState.OpenBy (k : DkState) (part otyp : Nat) : Prop :=
  if otyp = otypLyr then k.openLyr part ≠ 0 else k.openReg otyp &&& partbit part ≠ 0

/-- A call that keeps the partitions apart. The partition is below 31, or the call
    sets no bit and finds none set where it looks. A partition that is held
    exclusively is closed by the type that holds it. -/
def PartCall.Apart (k : DkState) : PartCall → Prop
  | .open dev otyp flag env => otypcnt ≤ otyp ∨ openCheck otyp flag env ≠ none ∨
    cmdkpart dev < 31 ∨
    flag.fexcl = true ∧ k.openLyr (cmdkpart dev) ≠ 0 ∨
    flag.fexcl = false ∧ otyp = otypLyr ∧ k.openExl &&& partbit (cmdkpart dev) = 0
  | .close dev otyp => otypcnt ≤ otyp ∨ k.flagOpen = false ∨
    cmdkpart dev < 31 ∧
      (k.openExl &&& partbit (cmdkpart dev) ≠ 0 → k.OpenBy (cmdkpart dev) otyp) ∨
    k.openExl &&& partbit (cmdkpart dev) = 0 ∧
      (otyp = otypLyr ∨ k.openReg otyp &&& partbit (cmdkpart dev) = 0)

/-- The instance after calls, all of which keep the partitions apart. -/
inductive ApartRun : List PartCall → DkState → Prop
  | init : ApartRun [] {}
  | call {cs : List PartCall} {k : DkState} (c : PartCall) (hrun : ApartRun cs k)
      (h : c.Apart k) : ApartRun (cs ++ [c]) (c.run k)

/-- `cmdkopen` turns an open down because of others. -/
def DkState.Refuses (k : DkState) (part : Nat) (fexcl : Bool) : Prop :=
  k.openExl &&& partbit part ≠ 0 ∨ fexcl = true ∧ (k.openLyr part ≠ 0 ∨
    ∃ i < otypcnt, k.openReg i &&& partbit part ≠ 0)

instance (k : DkState) (part : Nat) (fexcl : Bool) : Decidable (k.Refuses part fexcl) :=
  inferInstanceAs (Decidable (_ ∨ _))

/-- What `cmdkopen` records. -/
def DkState.record (k : DkState) (part otyp : Nat) (fexcl : Bool) : DkState where
  flagOpen := true
  openReg := if otyp = otypLyr then k.openReg
    else Function.update k.openReg otyp (k.openReg otyp ||| partbit part)
  openLyr := if otyp = otypLyr then Function.update k.openLyr part (k.openLyr part + 1)
    else k.openLyr
  openExl := if fexcl then k.openExl ||| partbit part else k.openExl

/-- An open that has passed the checks. -/
theorem cmdkopen_eq (k : DkState) (dev : Nat) {otyp : Nat} {flag : OpenFlag} {env : OpenEnv}
    (htyp : otyp < otypcnt) (hcheck : openCheck otyp flag env = none) :
    cmdkopen k dev otyp flag env =
      if k.Refuses (cmdkpart dev) flag.fexcl then (k, .ebusy)
      else (k.record (cmdkpart dev) otyp flag.fexcl, .success) := by
  unfold cmdkopen
  dsimp only
  rw [if_neg (Nat.not_le.2 htyp), hcheck]
  dsimp only
  by_cases hexl : k.openExl &&& partbit (cmdkpart dev) ≠ 0
  · have hr : k.Refuses (cmdkpart dev) flag.fexcl := Or.inl hexl
    rw [if_pos hexl, if_pos hr]
  · rw [if_neg hexl]
    by_cases hopen : flag.fexcl = true ∧ (k.openLyr (cmdkpart dev) ≠ 0 ∨
        ∃ i < otypcnt, k.openReg i &&& partbit (cmdkpart dev) ≠ 0)
    · have hr : k.Refuses (cmdkpart dev) flag.fexcl := Or.inr hopen
      rw [if_pos hopen, if_pos hr]
    · have hr : ¬k.Refuses (cmdkpart dev) flag.fexcl := fun h => Or.elim h hexl hopen
      rw [if_neg hopen, if_neg hr]
      unfold DkState.record
      by_cases hl : otyp = otypLyr
      · simp only [if_pos hl]
        split
        · rfl
        · rfl
      · simp only [if_neg hl]
        split
        · rfl
        · rfl

/-- A type holds a partition exclusively: it is open by that one only. -/
structure PartOpen.HeldBy (p : PartOpen) (t : Nat) : Prop where
  isOpen : p.IsOpen
  lyr : p.lyr ≠ 0 → t = otypLyr
  reg : ∀ t' < otypcnt, p.reg t' = true → t' = t

/-- The instance has recorded the partitions as they are. Those from 31 on are open
    by `OTYP_LYR` only. -/
structure PartsOk (k : DkState) (ps : Nat → PartOpen) : Prop where
  recorded : ∀ part < cmdkMaxpart, RecordedAs k part (ps part)
  high : ∀ part, 31 ≤ part → (∀ t < otypcnt, (ps part).reg t = false) ∧ (ps part).holder = none
  held : ∀ part t, (ps part).holder = some t → (ps part).HeldBy t
  fresh : k.flagOpen = false → ∀ part, ps part = {}

theorem cmdkpart_lt (dev : Nat) : cmdkpart dev < cmdkMaxpart :=
  Nat.mod_lt _ (by decide)

/-- The instance refuses an open if it has to. -/
theorem PartsOk.refuses {k : DkState} {ps : Nat → PartOpen} (h : PartsOk k ps) {part otyp : Nat}
    {fexcl : Bool} (hpart : part < cmdkMaxpart)
    (hapart : part < 31 ∨ fexcl = true ∧ k.openLyr part ≠ 0 ∨
      fexcl = false ∧ otyp = otypLyr ∧ k.openExl &&& partbit part = 0) :
    k.Refuses part fexcl ↔ (ps part).Refused fexcl := by
  have hrec := h.recorded part hpart
  have hheld : (ps part).holder.isSome = true → (ps part).IsOpen := by
    intro hs
    rcases Option.isSome_iff_exists.1 hs with ⟨t, ht⟩
    exact (h.held part t ht).isOpen
  unfold DkState.Refuses PartOpen.Refused
  -- below 31 the bits are the partition's own; from there on, either a layered open
  -- settles it, or no bit is set
  rcases hapart with hlow | ⟨rfl, hl⟩ | ⟨rfl, _, hexl⟩
  · have hexl : k.openExl &&& partbit part ≠ 0 ↔ (ps part).holder.isSome = true := by
      rw [ne_eq, and_partbit_eq_zero hlow, hrec.exl, Bool.not_eq_false]
    have hopen : (k.openLyr part ≠ 0 ∨ ∃ i < otypcnt, k.openReg i &&& partbit part ≠ 0) ↔
        (ps part).IsOpen := by
      unfold PartOpen.IsOpen
      rw [hrec.lyr, Nat.pos_iff_ne_zero]
      refine or_congr_right (exists_congr fun t => and_congr_right fun ht => ?_)
      rw [ne_eq, and_partbit_eq_zero hlow, hrec.reg t ht, Bool.not_eq_false]
    rw [hexl, hopen]
    cases fexcl with
    | true =>
        rw [if_pos rfl]
        exact ⟨fun h => h.elim hheld fun h => h.2, fun h => Or.inr ⟨rfl, h⟩⟩
    | false =>
        rw [if_neg Bool.false_ne_true, Option.isSome_iff_ne_none]
        exact ⟨fun h => h.elim id fun h => absurd h.1 Bool.false_ne_true, Or.inl⟩
  · -- Layered opens are counted for the partition itself.
    rw [if_pos rfl]
    have hopen : (ps part).IsOpen := Or.inl (Nat.pos_of_ne_zero (hrec.lyr ▸ hl))
    exact ⟨fun _ => hopen, fun _ => Or.inr ⟨rfl, Or.inl hl⟩⟩
  · rw [if_neg Bool.false_ne_true]
    have hnone : (ps part).holder = none := by
      by_cases hlow : part < 31
      · rw [and_partbit_eq_zero hlow, hrec.exl] at hexl
        simpa using hexl
      · exact (h.high part (Nat.le_of_not_lt hlow)).2
    exact ⟨fun hr => Or.elim hr (fun hne => absurd hexl hne)
      fun hf => absurd hf.1 Bool.false_ne_true, fun hne => absurd hnone hne⟩

/-- A call for one partition keeps the record if it records that one and leaves
    what is recorded of the others. -/
theorem PartsOk.update {k k' : DkState} {ps : Nat → PartOpen} (h : PartsOk k ps) {part : Nat}
    {p : PartOpen} (hpart : part < cmdkMaxpart → RecordedAs k' part p)
    (hothers : ∀ q < cmdkMaxpart, q ≠ part → RecordedAs k' q (ps q))
    (hhigh : 31 ≤ part → (∀ t < otypcnt, p.reg t = false) ∧ p.holder = none)
    (hheld : ∀ t, p.holder = some t → p.HeldBy t) (hflag : k'.flagOpen = true) :
    PartsOk k' (Function.update ps part p) := by
  constructor
  · intro q hq
    by_cases hqp : q = part
    · subst hqp
      rw [Function.update_self]
      exact hpart hq
    · rw [Function.update_of_ne hqp]
      exact hothers q hq hqp
  · intro q hq
    by_cases hqp : q = part
    · subst hqp
      rw [Function.update_self]
      exact hhigh hq
    · rw [Function.update_of_ne hqp]
      exact h.high q hq
  · intro q t ht
    by_cases hqp : q = part
    · subst hqp
      rw [Function.update_self] at ht ⊢
      exact hheld t ht
    · rw [Function.update_of_ne hqp] at ht ⊢
      exact h.held q t ht
  · intro hf
    rw [hflag] at hf
    exact absurd hf (by simp)

theorem RecordedAs.record_self {k : DkState} {part otyp : Nat} {p : PartOpen} {fexcl : Bool}
    (h : RecordedAs k part p) (hapart : part < 31 ∨ fexcl = false ∧ otyp = otypLyr) :
    RecordedAs (k.record part otyp fexcl) part (p.opened otyp fexcl) := by
  constructor
  · intro t ht
    rw [PartOpen.opened_reg, DkState.record]
    dsimp only
    by_cases hl : otyp = otypLyr
    · rw [if_pos hl, if_pos hl]
      exact h.reg t ht
    · rw [if_neg hl, if_neg hl]
      have hlow : part < 31 := hapart.resolve_right fun hc => hl hc.2
      by_cases hto : t = otyp
      · subst hto
        rw [Function.update_self, Function.update_self, or_partbit hlow]
        simp
      · rw [Function.update_of_ne hto, Function.update_of_ne hto]
        exact h.reg t ht
  · rw [PartOpen.opened_holder, DkState.record]
    dsimp only
    cases fexcl with
    | false => exact h.exl
    | true =>
        have hlow : part < 31 := hapart.resolve_right fun hc => absurd hc.1 (by simp)
        rw [if_pos rfl, if_pos rfl, or_partbit hlow]
        simp
  · rw [PartOpen.opened_lyr, DkState.record]
    dsimp only
    by_cases hl : otyp = otypLyr
    · rw [if_pos hl, if_pos hl, Function.update_self, h.lyr]
    · rw [if_neg hl, if_neg hl]
      exact h.lyr

/-- The bits of another partition stay. -/
theorem RecordedAs.record_of_ne {k : DkState} {part otyp q : Nat} {p : PartOpen} {fexcl : Bool}
    (h : RecordedAs k q p) (hqp : q ≠ part)
    (hapart : part < 31 ∨ fexcl = false ∧ otyp = otypLyr) :
    RecordedAs (k.record part otyp fexcl) q p := by
  constructor
  · intro t ht
    rw [DkState.record]
    dsimp only
    by_cases hl : otyp = otypLyr
    · rw [if_pos hl]
      exact h.reg t ht
    · rw [if_neg hl]
      have hlow : part < 31 := hapart.resolve_right fun hc => hl hc.2
      by_cases hto : t = otyp
      · subst hto
        rw [Function.update_self, or_partbit hlow, ← h.reg t ht]
        simp [hqp]
      · rw [Function.update_of_ne hto]
        exact h.reg t ht
  · rw [DkState.record]
    dsimp only
    cases fexcl with
    | false => exact h.exl
    | true =>
        have hlow : part < 31 := hapart.resolve_right fun hc => absurd hc.1 (by simp)
        rw [if_pos rfl, or_partbit hlow, ← h.exl]
        simp [hqp]
  · rw [DkState.record]
    dsimp only
    split
    · rw [Function.update_of_ne hqp]
      exact h.lyr
    · exact h.lyr

/-- After an open that is not refused, a partition with a holder is open by it only:
    an exclusive open finds nothing open, and another finds no holder. -/
theorem PartOpen.heldBy_opened {p : PartOpen} {otyp t : Nat} {fexcl : Bool}
    (htyp : otyp < otypcnt) (hnot : ¬p.Refused fexcl)
    (ht : (p.opened otyp fexcl).holder = some t) : (p.opened otyp fexcl).HeldBy t := by
  rw [PartOpen.opened_holder] at ht
  unfold PartOpen.Refused at hnot
  cases fexcl with
  | false =>
      rw [if_neg Bool.false_ne_true] at hnot ht
      exact absurd (by rw [ht]; simp) hnot
  | true =>
      rw [if_pos rfl, Option.some.injEq] at ht
      rw [if_pos rfl, PartOpen.IsOpen, not_or, not_exists] at hnot
      subst ht
      refine ⟨PartOpen.opened_isOpen _ _ htyp, ?_, ?_⟩
      · rw [PartOpen.opened_lyr]
        intro hne
        by_contra hl
        rw [if_neg hl] at hne
        exact hnot.1 (Nat.pos_of_ne_zero hne)
      · rw [PartOpen.opened_reg]
        intro t' ht' hreg
        by_contra hne
        have hold : p.reg t' = true := by
          split at hreg
          · exact hreg
          · rw [Function.update_of_ne hne] at hreg
            exact hreg
        exact hnot.2 t' ⟨ht', hold⟩

/-- An open that succeeds is recorded. -/
theorem PartsOk.record {k : DkState} {ps : Nat → PartOpen} (h : PartsOk k ps) {part otyp : Nat}
    {fexcl : Bool} (htyp : otyp < otypcnt) (hnot : ¬(ps part).Refused fexcl)
    (hapart : part < 31 ∨ fexcl = false ∧ otyp = otypLyr) :
    PartsOk (k.record part otyp fexcl)
      (Function.update ps part ((ps part).opened otyp fexcl)) := by
  refine h.update (fun hq => (h.recorded part hq).record_self hapart)
    (fun q hq hqp => (h.recorded q hq).record_of_ne hqp hapart) ?_
    (fun t ht => PartOpen.heldBy_opened htyp hnot ht) rfl
  intro hq
  rcases hapart.resolve_left (by omega) with ⟨rfl, hl⟩
  rw [PartOpen.opened_reg, if_pos hl, PartOpen.opened_holder]
  exact h.high part hq

/-- Clearing the bits of a partition clears its own, where they are its own or were
    clear. -/
theorem clear_partbit {part : Nat} {m : BitVec 64} {i : Nat} (hi : i < 64)
    (h : part < 31 ∨ m &&& partbit part = 0 ∧ m.getLsbD part = false) :
    (m &&& ~~~partbit part).getLsbD i = (m.getLsbD i && decide (i ≠ part)) := by
  rcases h with h | ⟨h, hbit⟩
  · exact andNot_partbit h m hi
  · rw [andNot_of_and_eq_zero h]
    by_cases hip : i = part
    · rw [hip, hbit]
      rfl
    · simp [hip]

/-- No one holds a partition after a close that keeps the partitions apart. -/
theorem PartsOk.closed_holder {k : DkState} {ps : Nat → PartOpen} (h : PartsOk k ps)
    {part otyp : Nat} (hpart : part < cmdkMaxpart) (htyp : otyp < otypcnt)
    (hapart : k.openExl &&& partbit part ≠ 0 → k.OpenBy part otyp) :
    ((ps part).closed otyp).holder = none := by
  have hrec := h.recorded part hpart
  rw [PartOpen.closed_holder]
  cases ht : (ps part).holder with
  | none => split <;> rfl
  | some t =>
      have hlow : part < 31 := by
        by_contra hhigh
        rw [(h.high part (by omega)).2] at ht
        exact absurd ht (by simp)
      have hexl : k.openExl &&& partbit part ≠ 0 := by
        rw [ne_eq, and_partbit_eq_zero hlow, hrec.exl, ht]
        simp
      have hby := hapart hexl
      have hheld := h.held part t ht
      -- The partition is open by its holder only.
      have heq : t = otyp := by
        unfold DkState.OpenBy at hby
        by_cases hl : otyp = otypLyr
        · rw [if_pos hl, hrec.lyr] at hby
          rw [hl]
          exact hheld.lyr hby
        · rw [if_neg hl, ne_eq, and_partbit_eq_zero hlow, hrec.reg otyp htyp] at hby
          exact (hheld.reg otyp htyp (by simpa using hby)).symm
      rw [heq, if_pos rfl]

/-- What a close leaves of the bits of a partition. It clears one bit, which is clear
    already where the shift is too large. -/
theorem account_reg_bit {k : DkState} {part otyp q : Nat} (hq : q < cmdkMaxpart)
    (hclear : otyp ≠ otypLyr → part < 31 ∨ k.openReg otyp &&& partbit part = 0 ∧
      (k.openReg otyp).getLsbD part = false) (t : Nat) :
    ((k.account part otyp).openReg t).getLsbD q =
      ((k.openReg t).getLsbD q && decide (t = otyp → otyp ≠ otypLyr → q ≠ part)) := by
  rw [account_reg]
  by_cases hl : otyp = otypLyr
  · simp [hl]
  · rw [if_neg hl]
    by_cases hto : t = otyp
    · subst hto
      rw [Function.update_self, clear_partbit hq (hclear hl)]
      simp [hl]
    · rw [Function.update_of_ne hto]
      simp [hto]

theorem account_exl_bit {k : DkState} {part otyp q : Nat} (hq : q < cmdkMaxpart)
    (hclear : part < 31 ∨ k.openExl &&& partbit part = 0 ∧ k.openExl.getLsbD part = false) :
    (k.account part otyp).openExl.getLsbD q = (k.openExl.getLsbD q && decide (q ≠ part)) := by
  rw [account_exl]
  exact clear_partbit hq hclear

/-- A close that goes through is recorded. -/
theorem PartsOk.account {k : DkState} {ps : Nat → PartOpen} (h : PartsOk k ps)
    {part otyp : Nat} (hpart : part < cmdkMaxpart) (htyp : otyp < otypcnt)
    (hflag : k.flagOpen = true)
    (hapart : part < 31 ∧ (k.openExl &&& partbit part ≠ 0 → k.OpenBy part otyp) ∨
      k.openExl &&& partbit part = 0 ∧
        (otyp = otypLyr ∨ k.openReg otyp &&& partbit part = 0)) :
    PartsOk (k.account part otyp) (Function.update ps part ((ps part).closed otyp)) := by
  have hrecp := h.recorded part hpart
  have hholder := h.closed_holder hpart htyp
    (hapart.elim (fun hc => hc.2) fun hc hne => absurd hc.1 hne)
  -- from 31 on the bit is clear already, and stays so
  have hexl : part < 31 ∨ k.openExl &&& partbit part = 0 ∧ k.openExl.getLsbD part = false := by
    by_cases hlow : part < 31
    · exact Or.inl hlow
    · have hz := (hapart.resolve_left fun hc => hlow hc.1).1
      refine Or.inr ⟨hz, ?_⟩
      rw [hrecp.exl, (h.high part (by omega)).2]
      rfl
  have hreg : otyp ≠ otypLyr → part < 31 ∨ k.openReg otyp &&& partbit part = 0 ∧
      (k.openReg otyp).getLsbD part = false := by
    intro hl
    by_cases hlow : part < 31
    · exact Or.inl hlow
    · have hz := (hapart.resolve_left fun hc => hlow hc.1).2.resolve_left hl
      refine Or.inr ⟨hz, ?_⟩
      rw [hrecp.reg otyp htyp, (h.high part (by omega)).1 otyp htyp]
  refine h.update (fun hq => ⟨?_, ?_, ?_⟩) (fun q hq hqp => ⟨?_, ?_, ?_⟩) ?_ ?_ ?_
  · intro t ht
    rw [account_reg_bit hq hreg, PartOpen.closed_reg, hrecp.reg t ht]
    by_cases hl : otyp = otypLyr
    · simp [hl]
    · rw [if_neg hl]
      by_cases hto : t = otyp
      · subst hto
        simp [hl]
      · rw [Function.update_of_ne hto]
        simp [hto]
  · rw [account_exl_bit hq hexl, hholder]
    simp
  · rw [account_lyr, PartOpen.closed_lyr]
    split
    · rw [Function.update_self, hrecp.lyr]
    · exact hrecp.lyr
  · intro t ht
    rw [account_reg_bit hq hreg, (h.recorded q hq).reg t ht]
    simp [hqp]
  · rw [account_exl_bit hq hexl, (h.recorded q hq).exl]
    simp [hqp]
  · rw [account_lyr]
    split
    · rw [Function.update_of_ne hqp]
      exact (h.recorded q hq).lyr
    · exact (h.recorded q hq).lyr
  · intro hq
    rw [hholder, PartOpen.closed_reg]
    refine ⟨fun t ht => ?_, rfl⟩
    split
    · exact (h.high part hq).1 t ht
    · by_cases hto : t = otyp
      · rw [hto, Function.update_self]
      · rw [Function.update_of_ne hto]
        exact (h.high part hq).1 t ht
  · intro t ht
    rw [hholder] at ht
    exact absurd ht (by simp)
  · rw [account_flag, hflag]

/-- A call is recorded. -/
theorem PartsOk.call {k : DkState} {ps : Nat → PartOpen} (h : PartsOk k ps) {c : PartCall}
    (hc : c.Apart k) : PartsOk (c.run k) (Function.update ps c.part ((ps c.part).call c)) := by
  have hsame : Function.update ps c.part (ps c.part) = ps := Function.update_eq_self _ _
  cases c with
  | «open» dev otyp flag env =>
      by_cases htyp : otyp < otypcnt
      · by_cases hcheck : openCheck otyp flag env = none
        · have hapart := (hc.resolve_left (Nat.not_le.2 htyp)).resolve_left
            (not_not_intro hcheck)
          have hiff := h.refuses (cmdkpart_lt dev) hapart
          rw [PartCall.run, cmdkopen_eq k dev htyp hcheck, PartOpen.call]
          by_cases hr : k.Refuses (cmdkpart dev) flag.fexcl
          · rw [if_pos hr, if_neg (fun hn => hn.2.2 (hiff.1 hr))]
            rw [PartCall.part] at hsame
            exact hsame.symm ▸ h
          · have hnot : ¬(ps (cmdkpart dev)).Refused flag.fexcl := fun hn => hr (hiff.2 hn)
            rw [if_neg hr, if_pos ⟨htyp, hcheck, hnot⟩]
            refine h.record htyp hnot ?_
            rcases hapart with hlow | ⟨hx, hl⟩ | ⟨hx, hl, _⟩
            · exact Or.inl hlow
            · exact absurd (Or.inr ⟨hx, Or.inl hl⟩) hr
            · exact Or.inr ⟨hx, hl⟩
        -- a call that fails changes nothing
        · have hrun : cmdkopen k dev otyp flag env =
              (k, (openCheck otyp flag env).getD .enxio) := by
            unfold cmdkopen
            rw [if_neg (Nat.not_le.2 htyp)]
            cases ho : openCheck otyp flag env with
            | none => exact absurd ho hcheck
            | some rv => rfl
          rw [PartCall.run, hrun, PartOpen.call, if_neg (fun hn => hcheck hn.2.1), hsame]
          exact h
      · have hrun : cmdkopen k dev otyp flag env = (k, .einval) := by
          unfold cmdkopen
          rw [if_pos (Nat.le_of_not_lt htyp)]
        rw [PartCall.run, hrun, PartOpen.call, if_neg (fun hn => htyp hn.1), hsame]
        exact h
  | close dev otyp =>
      by_cases htyp : otyp < otypcnt
      · rw [PartCall.run, PartOpen.call, if_pos htyp, cmdkclose, if_neg (Nat.not_le.2 htyp)]
        by_cases hf : k.flagOpen = false
        · -- The instance has never been opened.
          have hempty := h.fresh hf (PartCall.close dev otyp).part
          have hclosed : ({} : PartOpen).closed otyp = {} := by
            unfold PartOpen.closed
            by_cases hl : otyp = otypLyr
            · simp [hl]
            · simp [hl]
          rw [if_pos hf]
          rw [hempty] at hsame ⊢
          rw [hclosed, hsame]
          exact h
        · rw [if_neg hf]
          exact h.account (cmdkpart_lt dev) htyp (by simpa using hf)
            ((hc.resolve_left (Nat.not_le.2 htyp)).resolve_left hf)
      · have hrun : cmdkclose k dev otyp = (k, .enxio, false) := by
          unfold cmdkclose
          rw [if_pos (Nat.le_of_not_lt htyp)]
        rw [PartCall.run, hrun, PartOpen.call, if_neg htyp, hsame]
        exact h

theorem partState_append (cs : List PartCall) (c : PartCall) :
    partState (cs ++ [c]) =
      Function.update (partState cs) c.part ((partState cs c.part).call c) := by
  funext part
  unfold partState
  rw [List.filter_append, List.foldl_append]
  by_cases hc : part = c.part
  · subst hc
    rw [Function.update_self, List.filter_cons_of_pos (by simp)]
    rfl
  · rw [Function.update_of_ne hc, List.filter_cons_of_neg (by simpa using Ne.symm hc)]
    rfl

/-- In a run the instance has recorded the partitions. -/
theorem ApartRun.partsOk {cs : List PartCall} {k : DkState} (h : ApartRun cs k) :
    PartsOk k (partState cs) := by
  induction h with
  | init =>
      refine ⟨fun part _ => ⟨fun t _ => ?_, ?_, rfl⟩, fun part _ => ⟨fun t _ => rfl, rfl⟩,
        fun part t ht => ?_, fun _ _ => rfl⟩
      · exact BitVec.getLsbD_zero
      · exact BitVec.getLsbD_zero
      · exact absurd ht (by simp [partState])
  | call c _ hc ih =>
      rw [partState_append]
      exact ih.call hc

/-- `lastclose` says that nothing is open. -/
theorem PartsOk.lastclose {k : DkState} {ps : Nat → PartOpen} (h : PartsOk k ps) :
    lastclose k = true ↔ ∀ part < cmdkMaxpart, ¬(ps part).IsOpen := by
  unfold Disk.lastclose
  rw [Bool.and_eq_true, List.all_eq_true, List.all_eq_true]
  constructor
  · rintro ⟨hlyr, hreg⟩ part hpart (hopen | ⟨t, ht, hopen⟩)
    · have hz := hlyr part (List.mem_range.2 hpart)
      rw [beq_iff_eq, (h.recorded part hpart).lyr] at hz
      omega
    · have hz := hreg t (List.mem_range.2 ht)
      rw [beq_iff_eq] at hz
      rw [← (h.recorded part hpart).reg t ht, hz] at hopen
      exact absurd hopen (by simp)
  · intro hnone
    constructor
    · intro part hpart
      rw [List.mem_range] at hpart
      rw [beq_iff_eq, (h.recorded part hpart).lyr]
      by_contra hne
      exact hnone part hpart (Or.inl (Nat.pos_of_ne_zero hne))
    · intro t ht
      rw [List.mem_range] at ht
      rw [beq_iff_eq, eq_zero_iff_bits]
      intro part hpart
      rw [(h.recorded part hpart).reg t ht]
      by_contra hne
      exact hnone part hpart (Or.inr ⟨t, ht, by simpa using hne⟩)

/-- In a run of calls that keep the partitions apart, what is recorded of a
    partition depends on the calls for it; an open is refused for what is open of
    that partition only; and a close that goes through invalidates the label if and
    only if nothing stays open. -/
theorem partitions_independent {cs : List PartCall} {k : DkState} (h : ApartRun cs k) :
    (∀ part < cmdkMaxpart, RecordedAs k part (partState cs part)) ∧
    (∀ dev otyp flag env, otyp < otypcnt → openCheck otyp flag env = none →
      (PartCall.open dev otyp flag env).Apart k →
      ((cmdkopen k dev otyp flag env).2 = .ebusy ↔
        if flag.fexcl then (partState cs (cmdkpart dev)).IsOpen
        else (partState cs (cmdkpart dev)).holder ≠ none)) ∧
    (∀ dev otyp, (PartCall.close dev otyp).Apart k → (cmdkclose k dev otyp).2.1 = .success →
      ((cmdkclose k dev otyp).2.2 = true ↔
        ∀ part < cmdkMaxpart, ¬(partState (cs ++ [.close dev otyp]) part).IsOpen)) := by
  have hok := h.partsOk
  refine ⟨hok.recorded, ?_, ?_⟩
  · intro dev otyp flag env htyp hcheck hc
    have hapart := (hc.resolve_left (Nat.not_le.2 htyp)).resolve_left (not_not_intro hcheck)
    have hiff := hok.refuses (cmdkpart_lt dev) hapart
    unfold PartOpen.Refused at hiff
    rw [cmdkopen_eq k dev htyp hcheck, ← hiff]
    by_cases hr : k.Refuses (cmdkpart dev) flag.fexcl
    · rw [if_pos hr]
      exact ⟨fun _ => hr, fun _ => rfl⟩
    · rw [if_neg hr]
      exact ⟨fun hb => absurd hb (by simp), fun hb => absurd hb hr⟩
  · intro dev otyp hc hsucc
    have hnext := hok.call hc
    rw [← partState_append, PartCall.run] at hnext
    rw [← hnext.lastclose]
    rcases (cmdkclose_flag k dev otyp).2.1 hsucc with ⟨hf, htyp⟩
    unfold cmdkclose
    rw [if_neg (Nat.not_le.2 htyp), if_neg (by simp [hf])]

/-- Partition 0 is opened exclusively. -/
def openExcl0 : PartCall := .open 0 otypChr { fexcl := true } {}

/-- That is recorded, and nothing of partition 32. -/
theorem partitions_independent_excl :
    RecordedAs (openExcl0.run {}) 0 (partState [openExcl0] 0) ∧
      RecordedAs (openExcl0.run {}) 32 (partState [openExcl0] 32) := by
  have h := (partitions_independent
    (.call openExcl0 .init (Or.inr (Or.inr (Or.inl (by decide)))))).1
  exact ⟨h 0 (by decide), h 32 (by decide)⟩

/-- Partition 32 cannot be opened after that, though it is not open. -/
theorem partition_aliased :
    (cmdkopen (openExcl0.run {}) 32 otypChr {} {}).2 = .ebusy ∧
      (partState [openExcl0] 32).holder = none ∧ ¬(partState [openExcl0] 32).IsOpen := by
  decide +kernel

end Disk

end Sil3112
