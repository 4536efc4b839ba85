import Mathlib.Data.List.Perm.Subperm
import Sil3112.Ghd.L1
import Sil3112.Ghd.Waitq

/-!
# Targets

`sol11ghd_target_init` and `sol11ghd_target_free`: the instances that are attached to
the devices of an HBA. `ccc_devs` lists the devices, and each lists its own instances in
`gd_ilist`. A device is there from its first instance to its last. Its throttle comes from
its first instance, and from the one that is left when there is but one again.

Both mutexes are held throughout, so a call is one step. An instance is a piece of memory
that is not in use before `sol11ghd_target_init` and after `sol11ghd_target_free`, and may
come again later; a device likewise. A pointer to such memory, or NULL, that is followed is
a result of its own (`none`). What `sol11ghd_waitq_process_and_mutex_exit` does at the end
concerns neither list.

The counter `gd_ninstances` is a number: each instance takes memory, so it does not wrap.

## Main definitions

* `Hba`: The lists of an HBA with the devices and instances in use.
* `Hba.targetInit`, `Hba.targetFree`: The functions.
* `Targets`: The states any calls lead to, with the instances attached.
* `Books`, `Books.Settled`: The lists, and the throttles.

## Theorems

* `Books.search`: The search for a device finds the one there is.
* `Books.setGdev`: A device with its list changes, and no other one.
* `Books.targetInit`, `Books.targetFree`: The functions keep the books.
* `target_books`: The books after any calls.
-/

namespace Sil3112

namespace Ghd

variable {δ τ : Type} [DecidableEq δ] [DecidableEq τ]

/-! ## The functions -/

/-- `gdev_t`, but for `gd_devlist`. -/
structure GdevT (τ : Type) extends Gdev where
  target : BitVec 64
  lun : BitVec 64
  ilist : L1 τ

/-- `gtgt_t`, but for `gt_ilist`. -/
structure Gtgt (δ : Type) where
  gdevp : Option δ
  maxactive : BitVec 64
  target : BitVec 16
  lun : BitVec 8

/-- `ccc_devs`, and the memory of the devices and instances: what is in use, and their
    elements `gd_devlist` and `gt_ilist`. -/
structure Hba (δ τ : Type) where
  devs : L1 δ
  devlist : L1els δ δ
  gdev : δ → Option (GdevT τ)
  ilist : L1els τ τ
  gtgt : τ → Option (Gtgt δ)

/-- `CCCP_INIT` -/
def Hba.init (devlist : L1els δ δ) (ilist : L1els τ τ) : Hba δ τ :=
  ⟨L1.init, devlist, fun _ => none, ilist, fun _ => none⟩

/-- `CCCP2GDEVP` -/
def Hba.cccp2gdevp (s : Hba δ τ) : Option δ :=
  s.devs.headp.bind s.devlist.datap

/-- `GDEV_NEXTP` -/
def Hba.gdevNextp (s : Hba δ τ) (gdevp : δ) : Option δ :=
  (s.devlist.nextp gdevp).bind s.devlist.datap

/-- A round of the search of `sol11ghd_target_init` for the device. -/
def Hba.targetBody (s : Hba δ τ) (target : BitVec 16) (lun : BitVec 8) :
    Option δ → Option δ ⊕ Option (Option δ)
  | none => .inr (some none)
  | some gdevp =>
    match s.gdev gdevp with
    | none => .inr none
    | some dev =>
      if dev.target = target.setWidth 64 ∧ dev.lun = lun.setWidth 64 then .inr (some (some gdevp))
      else .inl (s.gdevNextp gdevp)

/-- A device is allocated, with `GDEV_QATTACH`. -/
def Hba.gdevQattach (s : Hba δ τ) (gdevp : δ) (target : BitVec 16) (lun : BitVec 8)
    (maxactive : BitVec 64) : Hba δ τ :=
  let dev : GdevT τ :=
    { waitq := ⟨[], 0, maxactive.toInt⟩
      ninstances := 0
      target := target.setWidth 64
      lun := lun.setWidth 64
      ilist := L1.init }
  let r := s.devs.add (s.devlist.init gdevp) gdevp (some gdevp)
  { s with devs := r.1, devlist := r.2, gdev := Function.update s.gdev gdevp (some dev) }

/-- An instance gets its device, with `GTGT_ATTACH`. -/
def Hba.gtgtAttach (s : Hba δ τ) (gtgtp : τ) (gdevp : δ) : Option (Hba δ τ) := do
  let t ← s.gtgt gtgtp
  let dev ← s.gdev gdevp
  let r := dev.ilist.add s.ilist gtgtp (some gtgtp)
  let dev := { dev with ninstances := dev.ninstances + 1, ilist := r.1 }
  some { s with
    gdev := Function.update s.gdev gdevp (some dev)
    ilist := r.2
    gtgt := Function.update s.gtgt gtgtp (some { t with gdevp := some gdevp }) }

/-- `sol11ghd_target_init`, where `kmem_zalloc` gives `gtgtp` and, for a new device,
    `newp`, and `ddi_getprop` gives `prop`. -/
def Hba.targetInit (n : Nat) (s : Hba δ τ) (gtgtp : τ) (newp : δ) (prop : BitVec 32)
    (target : BitVec 16) (lun : BitVec 8) : Option (Hba δ τ) := do
  let maxactive := prop.signExtend 64
  let s := { s with
    gtgt := Function.update s.gtgt gtgtp (some ⟨none, maxactive, target, lun⟩)
    ilist := s.ilist.init gtgtp }
  let gdevp ← (Loop.run (s.targetBody target lun) n s.cccp2gdevp).join
  match gdevp with
  | some gdevp => s.gtgtAttach gtgtp gdevp
  | none => (s.gdevQattach newp target lun maxactive).gtgtAttach gtgtp newp

/-- `sol11ghd_target_free` -/
def Hba.targetFree (n : Nat) (s : Hba δ τ) (gtgtp : τ) : Option (Hba δ τ) := do
  let t ← s.gtgt gtgtp
  let gdevp ← t.gdevp
  let dev ← s.gdev gdevp
  -- GTGT_DEATTACH
  let (ilist, els) ← dev.ilist.delete n s.ilist gtgtp
  let dev := { dev with ninstances := dev.ninstances - 1, ilist := ilist }
  let s := { s with
    gdev := Function.update s.gdev gdevp (some dev)
    ilist := els
    gtgt := Function.update s.gtgt gtgtp none }
  if dev.ninstances = 1 then do
    -- GDEVP2GTGTP
    let lep ← dev.ilist.headp
    let gtgtp ← s.ilist.datap lep
    let t ← s.gtgt gtgtp
    let dev := { dev with waitq := { dev.waitq with maxactive := t.maxactive.toInt } }
    some { s with gdev := Function.update s.gdev gdevp (some dev) }
  else if dev.ninstances = 0 then do
    -- GDEV_QDETACH
    let (devs, els) ← s.devs.delete n s.devlist gdevp
    some { s with
      devs := devs
      devlist := els
      gdev := Function.update s.gdev gdevp none }
  else some s

/-! ## The calls -/

/-- An attached instance. -/
structure Inst (τ : Type) where
  gtgtp : τ
  maxactive : BitVec 64
  target : BitVec 16
  lun : BitVec 8

/-- The states any calls lead to, with the instances attached. Memory that is allocated
    was not in use, and an instance is freed only while it is attached. No walk is cut off:
    it has more rounds than there are instances. -/
inductive Targets : Hba δ τ → List (Inst τ) → Prop
  | start (devlist : L1els δ δ) (ilist : L1els τ τ) : Targets (Hba.init devlist ilist) []
  | init {s s' : Hba δ τ} {att : List (Inst τ)} {n : Nat} {gtgtp : τ} {newp : δ}
      {prop : BitVec 32} {target : BitVec 16} {lun : BitVec 8} (hrun : Targets s att)
      (hn : att.length < n)
      (hgtgtp : gtgtp ∉ att.map Inst.gtgtp) (hnewp : s.gdev newp = none)
      (hs' : s.targetInit n gtgtp newp prop target lun = some s') :
      Targets s' (att ++ [⟨gtgtp, prop.signExtend 64, target, lun⟩])
  | free {s s' : Hba δ τ} {att : List (Inst τ)} {n : Nat} {i : Inst τ} (hrun : Targets s att)
      (hn : att.length < n) (hi : i ∈ att) (hs' : s.targetFree n i.gtgtp = some s') :
      Targets s' (att.filter fun j => j.gtgtp ≠ i.gtgtp)

/-- The instance is one of the device. -/
def Inst.Of (i : Inst τ) (dev : GdevT τ) : Prop :=
  dev.target = i.target.setWidth 64 ∧ dev.lun = i.lun.setWidth 64

/-- The device is the one of a target and lun. -/
def Hba.At (s : Hba δ τ) (d : δ) (target : BitVec 16) (lun : BitVec 8) : Prop :=
  ∃ dev, s.gdev d = some dev ∧ dev.target = target.setWidth 64 ∧ dev.lun = lun.setWidth 64

/-- The instances on the list of a device. -/
structure GdevT.Lists (dev : GdevT τ) (els : L1els τ τ) (att : List (Inst τ)) (gs : List τ) :
    Prop where
  holds : dev.ilist.Holds els.nextp gs
  datap : ∀ g ∈ gs, els.datap g = some g
  mem : ∀ i ∈ att, i.gtgtp ∈ gs ↔ i.Of dev
  attached : ∀ g ∈ gs, g ∈ att.map Inst.gtgtp
  count : dev.ninstances = gs.length

/-- The lists are those of the instances attached. -/
structure Books (s : Hba δ τ) (att : List (Inst τ)) (ds : List δ) : Prop where
  distinct : (att.map Inst.gtgtp).Nodup
  devs : s.devs.Holds s.devlist.nextp ds
  datap : ∀ d ∈ ds, s.devlist.datap d = some d
  live : ∀ d, d ∈ ds ↔ ∃ dev, s.gdev d = some dev
  one : ∀ d d' dev dev', s.gdev d = some dev → s.gdev d' = some dev' →
    dev.target = dev'.target → dev.lun = dev'.lun → d = d'
  inst : ∀ i ∈ att, ∃ d dev, s.gtgt i.gtgtp = some ⟨some d, i.maxactive, i.target, i.lun⟩ ∧
    s.gdev d = some dev ∧ i.Of dev
  lists : ∀ d dev, s.gdev d = some dev → ∃ gs, dev.Lists s.ilist att gs

/-- A device has an instance, and if it is the only one its throttle. -/
structure GdevT.Settled (dev : GdevT τ) (att : List (Inst τ)) : Prop where
  busy : ∃ i ∈ att, i.Of dev
  throttle : ∀ i ∈ att, i.Of dev → (∀ j ∈ att, j.Of dev → j = i) →
    dev.waitq.maxactive = i.maxactive.toInt

def Books.Settled (s : Hba δ τ) (att : List (Inst τ)) : Prop :=
  ∀ d dev, s.gdev d = some dev → dev.Settled att

/-! ## The search -/

variable {s s' : Hba δ τ} {att : List (Inst τ)} {ds c : List δ} {gs : List τ} {d newp : δ}
  {o : Option δ} {dev : GdevT τ} {els : L1els τ τ} {i : Inst τ} {n : Nat}
  {target : BitVec 16} {lun : BitVec 8}

omit [DecidableEq δ] [DecidableEq τ] in
theorem targetBody_found (hdev : s.gdev d = some dev)
    (h : dev.target = target.setWidth 64 ∧ dev.lun = lun.setWidth 64) :
    s.targetBody target lun (some d) = .inr (some (some d)) := by
  unfold Hba.targetBody
  simp only [hdev]
  exact if_pos h

omit [DecidableEq δ] [DecidableEq τ] in
theorem targetBody_next (hdev : s.gdev d = some dev)
    (h : ¬(dev.target = target.setWidth 64 ∧ dev.lun = lun.setWidth 64)) :
    s.targetBody target lun (some d) = .inl (s.gdevNextp d) := by
  unfold Hba.targetBody
  simp only [hdev]
  exact if_neg h

omit [DecidableEq δ] [DecidableEq τ] in
/-- The walk over devices in use finds the first one of the target and lun. -/
theorem targetBody_run (h : Disk.Linked s.devlist.nextp o c)
    (hdatap : ∀ d ∈ c, s.devlist.datap d = some d) (hlive : ∀ d ∈ c, ∃ dev, s.gdev d = some dev)
    (hn : c.length < n) (target : BitVec 16) (lun : BitVec 8) :
    ∃ r, Loop.run (s.targetBody target lun) n (o.bind s.devlist.datap) = some (some r) ∧
      (∀ d, r = some d → d ∈ c ∧ s.At d target lun) ∧
      (r = none → ∀ d ∈ c, ¬ s.At d target lun) := by
  induction c generalizing n o with
  | nil =>
      obtain ⟨n, rfl⟩ : ∃ m, n = m + 1 := ⟨n - 1, by omega⟩
      rw [Disk.linked_nil.mp h]
      exact ⟨none, Loop.run_leave rfl n, nofun, nofun⟩
  | cons d c ih =>
      rw [List.length_cons] at hn
      obtain ⟨n, rfl⟩ : ∃ m, n = m + 1 := ⟨n - 1, by omega⟩
      rcases Disk.linked_cons.mp h with ⟨rfl, hlink⟩
      rcases hlive d List.mem_cons_self with ⟨dev, hdev⟩
      rw [Option.bind_some, hdatap d List.mem_cons_self]
      by_cases hat : dev.target = target.setWidth 64 ∧ dev.lun = lun.setWidth 64
      · refine ⟨some d, Loop.run_leave (targetBody_found hdev hat) n, ?_, nofun⟩
        rintro _ ⟨⟩
        exact ⟨List.mem_cons_self, dev, hdev, hat⟩
      · rw [Loop.run_next (targetBody_next hdev hat)]
        rcases ih hlink (fun x hx => hdatap x (List.mem_cons_of_mem d hx))
          (fun x hx => hlive x (List.mem_cons_of_mem d hx)) (n := n) (by omega)
          with ⟨r, hr, hsome, hnone⟩
        refine ⟨r, hr, fun x hx => ?_, fun hx y hy => ?_⟩
        · exact ⟨List.mem_cons_of_mem d (hsome x hx).1, (hsome x hx).2⟩
        · rcases List.mem_cons.mp hy with rfl | hy
          · rintro ⟨dev', hdev', hat'⟩
            rw [hdev] at hdev'
            exact hat (Option.some.inj hdev' ▸ hat')
          · exact hnone hx y hy

omit [DecidableEq δ] [DecidableEq τ] in
/-- The search finds the device there is. -/
theorem Books.search (h : Books s att ds) (hn : ds.length < n) (target : BitVec 16)
    (lun : BitVec 8) : ∃ r, Loop.run (s.targetBody target lun) n s.cccp2gdevp = some (some r) ∧
      (∀ d, r = some d → s.At d target lun) ∧ (r = none → ∀ d, ¬ s.At d target lun) := by
  rcases targetBody_run h.devs.linked h.datap (fun d hd => (h.live d).mp hd) hn target lun
    with ⟨r, hr, hsome, hnone⟩
  refine ⟨r, hr, fun d hd => (hsome d hd).2, ?_⟩
  rintro hx d ⟨dev, hdev, hat⟩
  exact hnone hx d ((h.live d).mpr ⟨dev, hdev⟩) ⟨dev, hdev, hat⟩

/-! ## The list of a device -/

omit [DecidableEq δ] [DecidableEq τ] in
/-- The list of a device depends on its own instances only. -/
theorem GdevT.Lists.congr {els' : L1els τ τ} {att' : List (Inst τ)} (h : dev.Lists els att gs)
    (hnextp : ∀ g ∈ gs, els'.nextp g = els.nextp g) (hdatap : ∀ g ∈ gs, els'.datap g = els.datap g)
    (hatt : ∀ i ∈ att', i ∈ att ∨ i.gtgtp ∉ gs ∧ ¬ i.Of dev)
    (hgs : ∀ g ∈ gs, g ∈ att'.map Inst.gtgtp) : dev.Lists els' att' gs where
  holds := h.holds.congr hnextp
  datap := fun g hg => (hdatap g hg).trans (h.datap g hg)
  mem := by
    intro i hi
    rcases hatt i hi with hi | ⟨hnot, hof⟩
    · exact h.mem i hi
    · exact iff_of_false hnot hof
  attached := hgs
  count := h.count

omit [DecidableEq τ] in
theorem mem_concat_map {g : τ} : g ∈ (att ++ [i]).map Inst.gtgtp ↔
    g ∈ att.map Inst.gtgtp ∨ g = i.gtgtp := by
  rw [List.map_append, List.mem_append]
  exact or_congr_right List.mem_singleton

omit [DecidableEq δ] in
/-- An instance comes to the list of its device. -/
theorem GdevT.Lists.attach (h : dev.Lists els att gs) (hi : i.gtgtp ∉ att.map Inst.gtgtp)
    (hof : i.Of dev) :
    GdevT.Lists { dev with
        ninstances := dev.ninstances + 1
        ilist := (dev.ilist.add els i.gtgtp (some i.gtgtp)).1 }
      (dev.ilist.add els i.gtgtp (some i.gtgtp)).2 (att ++ [i]) (gs ++ [i.gtgtp]) := by
  have hgs : i.gtgtp ∉ gs := fun hmem => hi (h.attached _ hmem)
  constructor
  · exact h.holds.add hgs
  · intro g hg
    rw [L1.add_datap]
    rcases List.mem_append.mp hg with hg | hg
    · rw [Function.update_of_ne (ne_of_mem_of_not_mem hg hgs)]
      exact h.datap g hg
    · rw [List.mem_singleton.mp hg]
      exact Function.update_self ..
  · intro j hj
    rw [List.mem_append, List.mem_singleton]
    rcases List.mem_append.mp hj with hj | hj
    · have hne : j.gtgtp ≠ i.gtgtp := ne_of_mem_of_not_mem (List.mem_map_of_mem hj) hi
      exact ⟨fun hmem => (h.mem j hj).mp (hmem.resolve_right hne),
        fun hof => Or.inl ((h.mem j hj).mpr hof)⟩
    · rw [List.mem_singleton.mp hj]
      exact iff_of_true (Or.inr rfl) hof
  · intro g hg
    rw [mem_concat_map]
    exact (List.mem_append.mp hg).imp (h.attached g) List.mem_singleton.mp
  · change dev.ninstances + 1 = (gs ++ [i.gtgtp]).length
    rw [h.count, List.length_append, List.length_singleton]

/-- What is attached without an instance. -/
theorem mem_detached {j : Inst τ} :
    j ∈ att.filter (fun j => j.gtgtp ≠ i.gtgtp) ↔ j ∈ att ∧ j.gtgtp ≠ i.gtgtp := by
  rw [List.mem_filter, decide_eq_true_iff]

omit [DecidableEq δ] in
/-- An instance leaves the list of its device. -/
theorem GdevT.Lists.detach (h : dev.Lists els att gs) (hi : i ∈ att) (hof : i.Of dev)
    (hn : gs.length ≤ n) :
    ∃ ilist nextp gs', dev.ilist.delete n els i.gtgtp = some (ilist, { els with nextp := nextp }) ∧
      gs.length = gs'.length + 1 ∧ (∀ g, g ∉ gs → nextp g = els.nextp g) ∧
      GdevT.Lists { dev with ninstances := dev.ninstances - 1, ilist := ilist }
        { els with nextp := nextp } (att.filter fun j => j.gtgtp ≠ i.gtgtp) gs' := by
  rcases List.append_of_mem ((h.mem i hi).mpr hof) with ⟨a, b, rfl⟩
  have hlen : (a ++ i.gtgtp :: b).length = (a ++ b).length + 1 := by
    rw [List.length_append, List.length_append, List.length_cons]
    omega
  have hna : a.length < n := by
    rw [List.length_append, List.length_cons] at hn
    omega
  rcases h.holds.delete hna with ⟨ilist, nextp, hdel, hholds, hframe⟩
  have hnd := h.holds.nodup
  have hmid : (a ++ i.gtgtp :: b).Perm (i.gtgtp :: (a ++ b)) := List.perm_middle
  have hnot : i.gtgtp ∉ a ++ b := (List.nodup_cons.mp (hmid.nodup_iff.mp hnd)).1
  have hsub : ∀ g ∈ a ++ b, g ∈ a ++ i.gtgtp :: b := fun g hg =>
    hmid.mem_iff.mpr (List.mem_cons_of_mem _ hg)
  refine ⟨ilist, nextp, a ++ b, hdel, hlen, hframe, hholds, fun g hg => h.datap g (hsub g hg), ?_,
    ?_, ?_⟩
  · intro j hj
    rcases mem_detached.mp hj with ⟨hj, hne⟩
    refine Iff.trans ?_ (h.mem j hj)
    rw [hmid.mem_iff, List.mem_cons]
    exact ⟨Or.inr, fun hmem => hmem.resolve_left hne⟩
  · intro g hg
    rcases List.mem_map.mp (h.attached g (hsub g hg)) with ⟨j, hj, rfl⟩
    exact List.mem_map_of_mem (mem_detached.mpr ⟨hj, ne_of_mem_of_not_mem hg hnot⟩)
  · change dev.ninstances - 1 = _
    rw [h.count, hlen]
    rfl

/-! ## The books -/

omit [DecidableEq τ] in
/-- A device with its list changes, and no other one. -/
theorem Books.setGdev {dev' : GdevT τ} {els' : L1els τ τ} {gtgt' : τ → Option (Gtgt δ)}
    {att' : List (Inst τ)} (h : Books s att ds) (hd : s.gdev d = some dev)
    (htarget : dev'.target = dev.target) (hlun : dev'.lun = dev.lun)
    (hdistinct : (att'.map Inst.gtgtp).Nodup) (hlists : ∃ gs, dev'.Lists els' att' gs)
    (hother : ∀ d₁ dev₁ gs, d₁ ≠ d → s.gdev d₁ = some dev₁ → dev₁.Lists s.ilist att gs →
      dev₁.Lists els' att' gs)
    (hinst : ∀ i ∈ att', ∃ d₁ dev₁, gtgt' i.gtgtp =
      some ⟨some d₁, i.maxactive, i.target, i.lun⟩ ∧ s.gdev d₁ = some dev₁ ∧ i.Of dev₁) :
    Books { s with
      gdev := Function.update s.gdev d (some dev')
      ilist := els'
      gtgt := gtgt' } att' ds := by
  -- the devices are those there were, with their targets
  have hold : ∀ d₁ dev₁, Function.update s.gdev d (some dev') d₁ = some dev₁ →
      ∃ dev₂, s.gdev d₁ = some dev₂ ∧ dev₁.target = dev₂.target ∧ dev₁.lun = dev₂.lun := by
    intro d₁ dev₁ hd₁
    by_cases hdd : d₁ = d
    · rw [hdd, Function.update_self] at hd₁
      cases hd₁
      exact ⟨dev, hdd ▸ hd, htarget, hlun⟩
    · rw [Function.update_of_ne hdd] at hd₁
      exact ⟨dev₁, hd₁, rfl, rfl⟩
  have hnew : ∀ d₁ dev₁, s.gdev d₁ = some dev₁ → ∃ dev₂, Function.update s.gdev d (some dev') d₁ =
      some dev₂ ∧ dev₂.target = dev₁.target ∧ dev₂.lun = dev₁.lun := by
    intro d₁ dev₁ hd₁
    by_cases hdd : d₁ = d
    · rw [hdd, hd] at hd₁
      cases hd₁
      exact ⟨dev', hdd ▸ Function.update_self .., htarget, hlun⟩
    · exact ⟨dev₁, (Function.update_of_ne hdd ..).trans hd₁, rfl, rfl⟩
  constructor
  · exact hdistinct
  · exact h.devs
  · exact h.datap
  · intro d₁
    refine (h.live d₁).trans ⟨?_, ?_⟩
    · rintro ⟨dev₁, hd₁⟩
      rcases hnew d₁ dev₁ hd₁ with ⟨dev₂, hd₂, -⟩
      exact ⟨dev₂, hd₂⟩
    · rintro ⟨dev₁, hd₁⟩
      rcases hold d₁ dev₁ hd₁ with ⟨dev₂, hd₂, -⟩
      exact ⟨dev₂, hd₂⟩
  · intro d₁ d₂ dev₁ dev₂ hd₁ hd₂ ht hl
    rcases hold d₁ dev₁ hd₁ with ⟨dev₃, hd₃, ht₃, hl₃⟩
    rcases hold d₂ dev₂ hd₂ with ⟨dev₄, hd₄, ht₄, hl₄⟩
    exact h.one d₁ d₂ dev₃ dev₄ hd₃ hd₄ (ht₃ ▸ ht₄ ▸ ht) (hl₃ ▸ hl₄ ▸ hl)
  · intro i hi
    rcases hinst i hi with ⟨d₁, dev₁, hg, hd₁, hof⟩
    rcases hnew d₁ dev₁ hd₁ with ⟨dev₂, hd₂, ht, hl⟩
    exact ⟨d₁, dev₂, hg, hd₂, ht.trans hof.1, hl.trans hof.2⟩
  · intro d₁ dev₁ hd₁
    by_cases hdd : d₁ = d
    · rw [hdd] at hd₁
      rw [show dev₁ = dev' from Option.some.inj (hd₁.symm.trans (Function.update_self ..))]
      exact hlists
    · replace hd₁ : s.gdev d₁ = some dev₁ := (Function.update_of_ne hdd ..).symm.trans hd₁
      rcases h.lists d₁ dev₁ hd₁ with ⟨gs, hgs⟩
      exact ⟨gs, hother d₁ dev₁ gs hdd hd₁ hgs⟩

omit [DecidableEq δ] [DecidableEq τ] in
/-- An instance is attached once. -/
theorem Books.inst_inj (h : Books s att ds) {j : Inst τ} (hi : i ∈ att) (hj : j ∈ att)
    (heq : i.gtgtp = j.gtgtp) : i = j :=
  List.inj_on_of_nodup_map h.distinct hi hj heq

omit [DecidableEq δ] [DecidableEq τ] in
/-- An instance is of one device. -/
theorem Books.of_inj (h : Books s att ds) {d₁ : δ} {dev₁ : GdevT τ} (hd₁ : s.gdev d₁ = some dev₁)
    (hd : s.gdev d = some dev) (hof₁ : i.Of dev₁) (hof : i.Of dev) : d₁ = d :=
  h.one d₁ d dev₁ dev hd₁ hd (hof₁.1.trans hof.1.symm) (hof₁.2.trans hof.2.symm)

omit [DecidableEq δ] [DecidableEq τ] in
/-- No instance is on the lists of two devices. -/
theorem Books.apart (h : Books s att ds) {d₁ : δ} {dev₁ : GdevT τ} {gs₁ : List τ} {g : τ}
    (hd : s.gdev d = some dev) (hgs : dev.Lists s.ilist att gs) (hd₁ : s.gdev d₁ = some dev₁)
    (hgs₁ : dev₁.Lists s.ilist att gs₁) (hne : d₁ ≠ d) (hg : g ∈ gs₁) : g ∉ gs := by
  intro hmem
  rcases List.mem_map.mp (hgs.attached g hmem) with ⟨i, hi, rfl⟩
  exact hne (h.of_inj hd₁ hd ((hgs₁.mem i hi).mp hg) ((hgs.mem i hi).mp hmem))

omit [DecidableEq δ] in
/-- An instance is allocated. -/
theorem Books.alloc {g : τ} {t : Gtgt δ} (h : Books s att ds) (hg : g ∉ att.map Inst.gtgtp) :
    Books { s with
      gtgt := Function.update s.gtgt g (some t)
      ilist := s.ilist.init g } att ds := by
  constructor
  · exact h.distinct
  · exact h.devs
  · exact h.datap
  · exact h.live
  · exact h.one
  · intro i hi
    rcases h.inst i hi with ⟨d, dev, hgt, hd⟩
    have hne : i.gtgtp ≠ g := ne_of_mem_of_not_mem (List.mem_map_of_mem hi) hg
    exact ⟨d, dev, (Function.update_of_ne hne ..).trans hgt, hd⟩
  · intro d dev hd
    rcases h.lists d dev hd with ⟨gs, hgs⟩
    have hne : ∀ x ∈ gs, x ≠ g := fun x hx => ne_of_mem_of_not_mem (hgs.attached x hx) hg
    exact ⟨gs, hgs.congr (fun x hx => Function.update_of_ne (hne x hx) ..)
      (fun x hx => Function.update_of_ne (hne x hx) ..) (fun i hi => Or.inl hi) hgs.attached⟩

/-- `GTGT_ATTACH` -/
theorem Books.gtgtAttach {o : Option δ} (h : Books s att ds) (hi : i.gtgtp ∉ att.map Inst.gtgtp)
    (hgt : s.gtgt i.gtgtp = some ⟨o, i.maxactive, i.target, i.lun⟩) (hd : s.gdev d = some dev)
    (hof : i.Of dev) :
    ∃ s' dev', s.gtgtAttach i.gtgtp d = some s' ∧ Books s' (att ++ [i]) ds ∧
      s'.gdev = Function.update s.gdev d (some dev') ∧ dev'.target = dev.target ∧
      dev'.lun = dev.lun ∧ dev'.waitq = dev.waitq := by
  rcases h.lists d dev hd with ⟨gs, hgs⟩
  have hs : s.gtgtAttach i.gtgtp d = some { s with
      gdev := Function.update s.gdev d (some { dev with
        ninstances := dev.ninstances + 1
        ilist := (dev.ilist.add s.ilist i.gtgtp (some i.gtgtp)).1 })
      ilist := (dev.ilist.add s.ilist i.gtgtp (some i.gtgtp)).2
      gtgt := Function.update s.gtgt i.gtgtp
        (some ⟨some d, i.maxactive, i.target, i.lun⟩) } := by
    unfold Hba.gtgtAttach
    simp only [hgt, hd, Option.bind_eq_bind, Option.bind_some]
  refine ⟨_, _, hs, ?_, rfl, rfl, rfl, rfl⟩
  · refine h.setGdev hd rfl rfl ?_ ⟨_, hgs.attach hi hof⟩ ?_ ?_
    · rw [List.map_append]
      exact (List.perm_append_singleton i.gtgtp _).nodup_iff.mpr
        (List.nodup_cons.mpr ⟨hi, h.distinct⟩)
    · intro d₁ dev₁ gs₁ hne hd₁ hgs₁
      have hfresh : ∀ g ∈ gs₁, g ≠ i.gtgtp := fun g hg =>
        ne_of_mem_of_not_mem (hgs₁.attached g hg) hi
      refine hgs₁.congr (fun g hg => ?_) (fun g hg => ?_) (fun j hj => ?_) fun g hg => ?_
      · exact L1.add_nextp hgs.holds (h.apart hd hgs hd₁ hgs₁ hne hg) (hfresh g hg)
      · rw [L1.add_datap]
        exact Function.update_of_ne (hfresh g hg) ..
      · rcases List.mem_append.mp hj with hj | hj
        · exact Or.inl hj
        · rw [List.mem_singleton.mp hj]
          exact Or.inr ⟨fun hg => hi (hgs₁.attached _ hg),
            fun hof₁ => hne (h.of_inj hd₁ hd hof₁ hof)⟩
      · exact mem_concat_map.mpr (Or.inl (hgs₁.attached g hg))
    · intro j hj
      rcases List.mem_append.mp hj with hj | hj
      · rcases h.inst j hj with ⟨d₁, dev₁, hgt₁, hd₁⟩
        have hne : j.gtgtp ≠ i.gtgtp := ne_of_mem_of_not_mem (List.mem_map_of_mem hj) hi
        exact ⟨d₁, dev₁, (Function.update_of_ne hne ..).trans hgt₁, hd₁⟩
      · rw [List.mem_singleton.mp hj]
        exact ⟨d, dev, Function.update_self .., hd, hof⟩

omit [DecidableEq τ] in
/-- `GDEV_QATTACH` of a device that is not there. -/
theorem Books.gdevQattach (h : Books s att ds) (hnewp : s.gdev newp = none)
    (hat : ∀ d, ¬ s.At d target lun) (maxactive : BitVec 64) :
    Books (s.gdevQattach newp target lun maxactive) att (ds ++ [newp]) := by
  have hnot : newp ∉ ds := by
    rw [h.live]
    rintro ⟨dev, hdev⟩
    rw [hnewp] at hdev
    cases hdev
  have hfresh : ∀ d ∈ ds, d ≠ newp := fun d hd => ne_of_mem_of_not_mem hd hnot
  have hholds : s.devs.Holds (s.devlist.init newp).nextp ds :=
    h.devs.congr fun d hd => Function.update_of_ne (hfresh d hd) ..
  -- a device that is there is another one, of another target or lun
  have hother : ∀ d dev, s.gdev d = some dev →
      d ≠ newp ∧ ¬(dev.target = target.setWidth 64 ∧ dev.lun = lun.setWidth 64) := by
    refine fun d dev hd => ⟨?_, fun heq => hat d ⟨dev, hd, heq⟩⟩
    rintro rfl
    rw [hnewp] at hd
    cases hd
  have hcases : ∀ d dev, (s.gdevQattach newp target lun maxactive).gdev d = some dev →
      d = newp ∧ dev = ⟨⟨⟨[], 0, maxactive.toInt⟩, 0⟩, target.setWidth 64, lun.setWidth 64,
        L1.init⟩ ∨ s.gdev d = some dev := by
    intro d dev hd
    by_cases hdn : d = newp
    · rw [hdn] at hd
      exact Or.inl ⟨hdn, Option.some.inj (hd.symm.trans (Function.update_self ..))⟩
    · exact Or.inr ((Function.update_of_ne hdn ..).symm.trans hd)
  have hkeep : ∀ d dev, s.gdev d = some dev →
      (s.gdevQattach newp target lun maxactive).gdev d = some dev := fun d dev hd =>
    (Function.update_of_ne (hother d dev hd).1 ..).trans hd
  constructor
  · exact h.distinct
  · exact hholds.add hnot
  · intro d hd
    change (s.devs.add (s.devlist.init newp) newp (some newp)).2.datap d = some d
    rw [L1.add_datap]
    rcases List.mem_append.mp hd with hd | hd
    · rw [Function.update_of_ne (hfresh d hd)]
      exact (Function.update_of_ne (hfresh d hd) ..).trans (h.datap d hd)
    · rw [List.mem_singleton.mp hd]
      exact Function.update_self ..
  · intro d
    rw [List.mem_append, List.mem_singleton, h.live]
    constructor
    · rintro (⟨dev, hd⟩ | rfl)
      · exact ⟨dev, hkeep d dev hd⟩
      · exact ⟨_, Function.update_self ..⟩
    · rintro ⟨dev, hd⟩
      rcases hcases d dev hd with ⟨hdn, -⟩ | hd
      · exact Or.inr hdn
      · exact Or.inl ⟨dev, hd⟩
  · intro d₁ d₂ dev₁ dev₂ hd₁ hd₂ ht hl
    rcases hcases d₁ dev₁ hd₁ with ⟨hdn₁, rfl⟩ | hd₁ <;>
      rcases hcases d₂ dev₂ hd₂ with ⟨hdn₂, rfl⟩ | hd₂
    · exact hdn₁.trans hdn₂.symm
    · exact absurd ⟨ht.symm, hl.symm⟩ (hother d₂ dev₂ hd₂).2
    · exact absurd ⟨ht, hl⟩ (hother d₁ dev₁ hd₁).2
    · exact h.one d₁ d₂ dev₁ dev₂ hd₁ hd₂ ht hl
  · intro i hi
    rcases h.inst i hi with ⟨d, dev, hgt, hd, hof⟩
    exact ⟨d, dev, hgt, hkeep d dev hd, hof⟩
  · intro d dev hd
    rcases hcases d dev hd with ⟨-, rfl⟩ | hd
    · refine ⟨[], L1.init_holds, nofun, fun i hi => ?_, nofun, rfl⟩
      rcases h.inst i hi with ⟨d, dev, -, hd, hof⟩
      refine iff_of_false List.not_mem_nil fun hof' => (hother d dev hd).2 ?_
      exact ⟨hof.1.trans hof'.1.symm, hof.2.trans hof'.2.symm⟩
    · exact h.lists d dev hd

omit [DecidableEq δ] [DecidableEq τ] in
theorem GdevT.Lists.length_le (hgs : dev.Lists els att gs) :
    gs.length ≤ att.length := by
  have hsub := (List.subperm_of_subset hgs.holds.nodup hgs.attached).length_le
  rwa [List.length_map] at hsub

omit [DecidableEq τ] in
/-- The lists do not depend on the queues. -/
theorem Books.setWaitq (h : Books s att ds) (hd : s.gdev d = some dev) (q : Q) :
    Books { s with gdev := Function.update s.gdev d (some { dev with waitq := q }) } att ds := by
  rcases h.lists d dev hd with ⟨gs, hgs⟩
  exact h.setGdev hd rfl rfl h.distinct
    ⟨gs, hgs.holds, hgs.datap, hgs.mem, hgs.attached, hgs.count⟩
    (fun _ _ _ _ _ hgs₁ => hgs₁) h.inst

/-- `GTGT_DEATTACH` -/
theorem Books.gtgtDeattach (h : Books s att ds) (hi : i ∈ att) (hd : s.gdev d = some dev)
    (hof : i.Of dev) (hn : att.length ≤ n) :
    ∃ ilist nextp gs, dev.ilist.delete n s.ilist i.gtgtp =
        some (ilist, { s.ilist with nextp := nextp }) ∧
      GdevT.Lists { dev with ninstances := dev.ninstances - 1, ilist := ilist }
        { s.ilist with nextp := nextp } (att.filter fun j => j.gtgtp ≠ i.gtgtp) gs ∧
      Books { s with
        gdev := Function.update s.gdev d
          (some { dev with ninstances := dev.ninstances - 1, ilist := ilist })
        ilist := { s.ilist with nextp := nextp }
        gtgt := Function.update s.gtgt i.gtgtp none }
        (att.filter fun j => j.gtgtp ≠ i.gtgtp) ds := by
  rcases h.lists d dev hd with ⟨gs, hgs⟩
  rcases hgs.detach hi hof (Nat.le_trans hgs.length_le hn) with
    ⟨ilist, nextp, gs', hdel, -, hframe, hgs'⟩
  refine ⟨ilist, nextp, gs', hdel, hgs', ?_⟩
  refine h.setGdev hd rfl rfl ?_ ⟨gs', hgs'⟩ ?_ ?_
  · exact h.distinct.sublist (List.filter_sublist.map _)
  · intro d₁ dev₁ gs₁ hne hd₁ hgs₁
    have hnot : ∀ g ∈ gs₁, g ∉ gs := fun g hg => h.apart hd hgs hd₁ hgs₁ hne hg
    refine hgs₁.congr (fun g hg => hframe g (hnot g hg)) (fun g hg => rfl)
      (fun j hj => Or.inl (mem_detached.mp hj).1) fun g hg => ?_
    rcases List.mem_map.mp (hgs₁.attached g hg) with ⟨j, hj, rfl⟩
    refine List.mem_map_of_mem (mem_detached.mpr ⟨hj, fun heq => ?_⟩)
    rw [heq] at hg
    exact hnot _ hg ((hgs.mem i hi).mpr hof)
  · intro j hj
    rcases mem_detached.mp hj with ⟨hj, hne⟩
    rcases h.inst j hj with ⟨d₁, dev₁, hgt₁, hd₁⟩
    exact ⟨d₁, dev₁, (Function.update_of_ne hne ..).trans hgt₁, hd₁⟩

omit [DecidableEq τ] in
/-- `GDEV_QDETACH` of a device without instances. -/
theorem Books.gdevQdetach (h : Books s att ds) (hd : s.gdev d = some dev)
    (hnone : ∀ i ∈ att, ¬ i.Of dev) (hn : ds.length ≤ n) :
    ∃ devs nextp ds', s.devs.delete n s.devlist d = some (devs, { s.devlist with nextp := nextp }) ∧
      Books { s with
        devs := devs
        devlist := { s.devlist with nextp := nextp }
        gdev := Function.update s.gdev d none } att ds' := by
  rcases List.append_of_mem ((h.live d).mpr ⟨dev, hd⟩) with ⟨a, b, rfl⟩
  have hna : a.length < n := by
    rw [List.length_append, List.length_cons] at hn
    omega
  rcases h.devs.delete hna with ⟨devs, nextp, hdel, hholds, -⟩
  have hmid : (a ++ d :: b).Perm (d :: (a ++ b)) := List.perm_middle
  have hnot : d ∉ a ++ b := (List.nodup_cons.mp (hmid.nodup_iff.mp h.devs.nodup)).1
  have hold : ∀ d₁ dev₁, Function.update s.gdev d none d₁ = some dev₁ →
      d₁ ≠ d ∧ s.gdev d₁ = some dev₁ := by
    intro d₁ dev₁ hd₁
    have hne : d₁ ≠ d := by
      rintro rfl
      rw [Function.update_self] at hd₁
      cases hd₁
    exact ⟨hne, (Function.update_of_ne hne ..).symm.trans hd₁⟩
  refine ⟨devs, nextp, a ++ b, hdel, h.distinct, hholds, ?_, ?_, ?_, ?_, ?_⟩
  · exact fun x hx => h.datap x (hmid.mem_iff.mpr (List.mem_cons_of_mem d hx))
  · intro x
    constructor
    · intro hx
      have hxd : x ≠ d := ne_of_mem_of_not_mem hx hnot
      rcases (h.live x).mp (hmid.mem_iff.mpr (List.mem_cons_of_mem d hx)) with ⟨dev₁, hd₁⟩
      exact ⟨dev₁, (Function.update_of_ne hxd ..).trans hd₁⟩
    · rintro ⟨dev₁, hd₁⟩
      rcases hold x dev₁ hd₁ with ⟨hxd, hd₁⟩
      exact (List.mem_cons.mp (hmid.mem_iff.mp ((h.live x).mpr ⟨dev₁, hd₁⟩))).resolve_left hxd
  · exact fun d₁ d₂ dev₁ dev₂ hd₁ hd₂ =>
      h.one d₁ d₂ dev₁ dev₂ (hold d₁ dev₁ hd₁).2 (hold d₂ dev₂ hd₂).2
  · intro i hi
    rcases h.inst i hi with ⟨d₁, dev₁, hgt, hd₁, hof⟩
    have hne : d₁ ≠ d := by
      rintro rfl
      rw [hd] at hd₁
      exact hnone i hi (Option.some.inj hd₁ ▸ hof)
    exact ⟨d₁, dev₁, hgt, (Function.update_of_ne hne ..).trans hd₁, hof⟩
  · exact fun d₁ dev₁ hd₁ => h.lists d₁ dev₁ (hold d₁ dev₁ hd₁).2

omit [DecidableEq δ] [DecidableEq τ] in
/-- There are no more devices than instances. -/
theorem Books.length_devs (h : Books s att ds) (hset : Books.Settled s att) :
    ds.length ≤ att.length := by
  have hsub : ds ⊆ att.filterMap fun i => (s.gtgt i.gtgtp).bind Gtgt.gdevp := by
    intro d hd
    rcases (h.live d).mp hd with ⟨dev, hd⟩
    rcases (hset d dev hd).busy with ⟨i, hi, hof⟩
    rcases h.inst i hi with ⟨d', dev', hgt, hd', hof'⟩
    refine List.mem_filterMap.mpr ⟨i, hi, ?_⟩
    rw [hgt]
    exact congrArg some (h.of_inj hd' hd hof' hof)
  exact Nat.le_trans (List.subperm_of_subset h.devs.nodup hsub).length_le
    (List.length_filterMap_le _ att)

/-! ## The calls -/

omit [DecidableEq τ] in
/-- A device changes, and no other one. -/
theorem Books.Settled.setGdev {odev : Option (GdevT τ)}
    (hother : ∀ d₁ dev₁, d₁ ≠ d → s.gdev d₁ = some dev₁ → dev₁.Settled att)
    (hs' : s'.gdev = Function.update s.gdev d odev)
    (hself : ∀ dev, odev = some dev → dev.Settled att) : Books.Settled s' att := by
  intro d₁ dev₁ hd₁
  rw [hs'] at hd₁
  by_cases hdd : d₁ = d
  · rw [hdd, Function.update_self] at hd₁
    exact hself dev₁ hd₁
  · rw [Function.update_of_ne hdd] at hd₁
    exact hother d₁ dev₁ hdd hd₁

omit [DecidableEq δ] [DecidableEq τ] in
/-- An instance comes that is not one of the device. -/
theorem GdevT.Settled.attach (h : dev.Settled att) (hof : ¬ i.Of dev) :
    dev.Settled (att ++ [i]) := by
  rcases h with ⟨⟨j, hj, hofj⟩, hthrottle⟩
  refine ⟨⟨j, List.mem_append_left _ hj, hofj⟩, fun x hx hofx hall => ?_⟩
  rcases List.mem_append.mp hx with hx | hx
  · exact hthrottle x hx hofx fun y hy => hall y (List.mem_append_left _ hy)
  · exact absurd (List.mem_singleton.mp hx ▸ hofx) hof

omit [DecidableEq τ] in
/-- A device that an instance came to keeps its throttle, unless it has no other. -/
theorem Books.Settled.attach {dev' : GdevT τ} (h : Books s att ds)
    (hset : ∀ d₁ dev₁, d₁ ≠ d → s.gdev d₁ = some dev₁ → dev₁.Settled att)
    (hd : s.gdev d = some dev) (hof : i.Of dev) (hi : i.gtgtp ∉ att.map Inst.gtgtp)
    (hother : (∃ j ∈ att, j.Of dev) ∨ dev.waitq.maxactive = i.maxactive.toInt)
    (hs' : s'.gdev = Function.update s.gdev d (some dev')) (htarget : dev'.target = dev.target)
    (hlun : dev'.lun = dev.lun) (hwaitq : dev'.waitq = dev.waitq) :
    Books.Settled s' (att ++ [i]) := by
  have hself : ∀ j : Inst τ, j.Of dev' ↔ j.Of dev := fun j => by
    unfold Inst.Of
    rw [htarget, hlun]
  have hmem : i ∈ att ++ [i] := List.mem_append_right att List.mem_cons_self
  refine Books.Settled.setGdev (fun d₁ dev₁ hne hd₁ => ?_) hs' ?_
  · exact (hset d₁ dev₁ hne hd₁).attach fun hof₁ => hne (h.of_inj hd₁ hd hof₁ hof)
  · rintro _ ⟨⟩
    refine ⟨⟨i, hmem, (hself i).mpr hof⟩, fun j hj hofj hall => ?_⟩
    rw [← hall i hmem ((hself i).mpr hof), hwaitq]
    refine hother.resolve_left ?_
    rintro ⟨x, hx, hofx⟩
    -- an instance that was there is not the new one
    have hxj := hall x (List.mem_append_left _ hx) ((hself x).mpr hofx)
    rw [← hall i hmem ((hself i).mpr hof)] at hxj
    exact hi (hxj ▸ List.mem_map_of_mem hx)

/-- `sol11ghd_target_init` keeps the books. -/
theorem Books.targetInit {g : τ} (h : Books s att ds) (hset : Books.Settled s att)
    (hg : g ∉ att.map Inst.gtgtp) (hnewp : s.gdev newp = none) (prop : BitVec 32)
    (target : BitVec 16) (lun : BitVec 8) (hn : att.length < n) :
    ∃ s' ds', s.targetInit n g newp prop target lun = some s' ∧
      Books s' (att ++ [⟨g, prop.signExtend 64, target, lun⟩]) ds' ∧
      Books.Settled s' (att ++ [⟨g, prop.signExtend 64, target, lun⟩]) := by
  have hlen := h.length_devs hset
  have halloc := h.alloc (t := ⟨none, prop.signExtend 64, target, lun⟩) hg
  rcases halloc.search (n := n) (by omega) target lun with ⟨r, hr, hsome, hnone⟩
  unfold Hba.targetInit
  simp only [hr, Option.bind_eq_bind, Option.join_some, Option.bind_some]
  cases r with
  | some d =>
      rcases hsome d rfl with ⟨dev, hd, hof⟩
      rcases halloc.gtgtAttach (i := ⟨g, prop.signExtend 64, target, lun⟩) hg
        (Function.update_self ..) hd hof with ⟨s', dev', hs', hbooks, hgdev, ht, hl, hw⟩
      refine ⟨s', ds, hs', hbooks, ?_⟩
      exact Books.Settled.attach halloc (fun d₁ dev₁ _ hd₁ => hset d₁ dev₁ hd₁) hd hof hg
        (Or.inl (hset d dev hd).busy) hgdev ht hl hw
  | none =>
      have hattach := halloc.gdevQattach hnewp (hnone rfl) (prop.signExtend 64)
      rcases hattach.gtgtAttach (i := ⟨g, prop.signExtend 64, target, lun⟩) hg
        (Function.update_self ..) (Function.update_self ..) ⟨rfl, rfl⟩
        with ⟨s', dev', hs', hbooks, hgdev, ht, hl, hw⟩
      refine ⟨s', ds ++ [newp], hs', hbooks, ?_⟩
      refine Books.Settled.attach hattach (fun d₁ dev₁ hne hd₁ => ?_) (Function.update_self ..)
        ⟨rfl, rfl⟩ hg (Or.inr rfl) hgdev ht hl hw
      exact hset d₁ dev₁ ((Function.update_of_ne hne ..).symm.trans hd₁)

omit [DecidableEq δ] in
/-- An instance goes that is not one of the device. -/
theorem GdevT.Settled.detach (h : dev.Settled att) (hi : ∀ j ∈ att, j.Of dev → j.gtgtp ≠ i.gtgtp) :
    dev.Settled (att.filter fun j => j.gtgtp ≠ i.gtgtp) := by
  rcases h with ⟨⟨j, hj, hofj⟩, hthrottle⟩
  refine ⟨⟨j, mem_detached.mpr ⟨hj, hi j hj hofj⟩, hofj⟩, fun x hx hofx hall => ?_⟩
  exact hthrottle x (mem_detached.mp hx).1 hofx fun y hy hofy =>
    hall y (mem_detached.mpr ⟨hy, hi y hy hofy⟩) hofy

/-- `sol11ghd_target_free` keeps the books. -/
theorem Books.targetFree (h : Books s att ds) (hset : Books.Settled s att) (hi : i ∈ att)
    (hn : att.length < n) :
    ∃ s' ds', s.targetFree n i.gtgtp = some s' ∧
      Books s' (att.filter fun j => j.gtgtp ≠ i.gtgtp) ds' ∧
      Books.Settled s' (att.filter fun j => j.gtgtp ≠ i.gtgtp) := by
  have hlen := h.length_devs hset
  rcases h.inst i hi with ⟨d, dev, hgt, hd, hof⟩
  rcases h.gtgtDeattach hi hd hof (Nat.le_of_lt hn) with ⟨ilist, nextp, gs, hdel, hgs, hbooks⟩
  have hother : ∀ d₁ dev₁, d₁ ≠ d → s.gdev d₁ = some dev₁ →
      dev₁.Settled (att.filter fun j => j.gtgtp ≠ i.gtgtp) := by
    refine fun d₁ dev₁ hne hd₁ => (hset d₁ dev₁ hd₁).detach fun j hj hofj heq => hne ?_
    rw [h.inst_inj hj hi heq] at hofj
    exact h.of_inj hd₁ hd hofj hof
  have hcount := hgs.count
  unfold Hba.targetFree
  simp only [hgt, hd, hdel, Option.bind_eq_bind, Option.bind_some]
  match gs, hgs, hcount with
  | [], hgs, hcount =>
      -- the last instance goes, and the device with it
      change dev.ninstances - 1 = 0 at hcount
      rw [hcount] at hbooks ⊢
      rw [if_neg (by decide), if_pos rfl]
      have hnone : ∀ j ∈ att.filter (fun j => j.gtgtp ≠ i.gtgtp), ¬ j.Of dev := fun j hj hofj =>
        List.not_mem_nil ((hgs.mem j hj).mpr hofj)
      rcases hbooks.gdevQdetach (n := n) (Function.update_self ..) hnone (by omega) with
        ⟨devs, nextp', ds', hdel', hbooks'⟩
      simp only [hdel', Option.bind_some]
      refine ⟨_, ds', rfl, hbooks', ?_⟩
      exact Books.Settled.setGdev hother (Function.update_idem ..) nofun
  | [x], hgs, hcount =>
      -- one instance is left, and its throttle is the device's
      change dev.ninstances - 1 = 1 at hcount
      rcases List.mem_map.mp (hgs.attached x List.mem_cons_self) with ⟨j, hj, rfl⟩
      rcases hbooks.inst j hj with ⟨d₁, dev₁, hgtj, -⟩
      have hhead : ilist.headp = some j.gtgtp := linked_head hgs.holds.linked
      have hdatap : s.ilist.datap j.gtgtp = some j.gtgtp := hgs.datap j.gtgtp List.mem_cons_self
      have hbooks' := hbooks.setWaitq (Function.update_self ..)
        { dev.waitq with maxactive := j.maxactive.toInt }
      dsimp only at hgtj hbooks'
      rw [Function.update_idem] at hbooks'
      rw [if_pos hcount, hhead]
      simp only [Option.bind_some, hdatap, hgtj, Function.update_idem]
      refine ⟨_, ds, rfl, hbooks', Books.Settled.setGdev hother rfl ?_⟩
      rintro _ ⟨⟩
      refine ⟨⟨j, hj, (hgs.mem j hj).mp List.mem_cons_self⟩, fun y hy hofy hall => ?_⟩
      rw [← hall j hj ((hgs.mem j hj).mp List.mem_cons_self)]
  | x :: y :: r, hgs, hcount =>
      -- two instances at least
      change dev.ninstances - 1 = r.length + 1 + 1 at hcount
      rw [if_neg (by omega), if_neg (by omega)]
      refine ⟨_, ds, rfl, hbooks, Books.Settled.setGdev hother rfl ?_⟩
      rintro _ ⟨⟩
      have hy : y ∈ x :: y :: r := List.mem_cons_of_mem x List.mem_cons_self
      rcases List.mem_map.mp (hgs.attached x List.mem_cons_self) with ⟨j, hj, hjx⟩
      rcases List.mem_map.mp (hgs.attached y hy) with ⟨k, hk, hky⟩
      have hofj := (hgs.mem j hj).mp (hjx ▸ List.mem_cons_self)
      have hofk := (hgs.mem k hk).mp (hky ▸ hy)
      refine ⟨⟨j, hj, hofj⟩, fun z hz hofz hall => ?_⟩
      have hjk : j = k := (hall j hj hofj).trans (hall k hk hofk).symm
      rw [hjk, hky] at hjx
      exact absurd List.mem_cons_self (hjx ▸ (List.nodup_cons.mp hgs.holds.nodup).1)

omit [DecidableEq δ] [DecidableEq τ] in
theorem Books.start (devlist : L1els δ δ) (ilist : L1els τ τ) :
    Books (Hba.init devlist ilist) [] [] where
  distinct := List.nodup_nil
  devs := L1.init_holds
  datap := nofun
  live := fun _ => iff_of_false List.not_mem_nil nofun
  one _ _ _ _ h := nomatch h
  inst := nofun
  lists := nofun

/-- Any calls keep the books. -/
theorem Targets.books (h : Targets s att) : ∃ ds, Books s att ds ∧ Books.Settled s att := by
  induction h with
  | start devlist ilist => exact ⟨[], Books.start devlist ilist, nofun⟩
  | @init s s' att n gtgtp newp prop target lun hrun hn hgtgtp hnewp hs' ih =>
      rcases ih with ⟨ds, hbooks, hset⟩
      rcases hbooks.targetInit hset hgtgtp hnewp prop target lun hn with
        ⟨s'', ds', hs'', hbooks', hset'⟩
      rw [hs'] at hs''
      cases hs''
      exact ⟨ds', hbooks', hset'⟩
  | @free s s' att n i hrun hn hi hs' ih =>
      rcases ih with ⟨ds, hbooks, hset⟩
      rcases hbooks.targetFree hset hi hn with ⟨s'', ds', hs'', hbooks', hset'⟩
      rw [hs'] at hs''
      cases hs''
      exact ⟨ds', hbooks', hset'⟩

omit [DecidableEq δ] [DecidableEq τ] in
/-- The list of a device, by target and lun. -/
theorem GdevT.Lists.mem_iff (hgs : dev.Lists s.ilist att gs) (hd : s.gdev d = some dev) (g : τ) :
    g ∈ gs ↔ ∃ i ∈ att, i.gtgtp = g ∧ s.At d i.target i.lun := by
  constructor
  · intro hg
    rcases List.mem_map.mp (hgs.attached g hg) with ⟨i, hi, rfl⟩
    exact ⟨i, hi, rfl, dev, hd, (hgs.mem i hi).mp hg⟩
  · rintro ⟨i, hi, rfl, dev', hd', hof⟩
    rw [hd] at hd'
    cases hd'
    exact (hgs.mem i hi).mpr hof

omit [DecidableEq δ] [DecidableEq τ] in
/-- If it has one instance, a device has its throttle. -/
theorem GdevT.Settled.single (h : dev.Settled att) (hgs : dev.Lists els att gs)
    (hinj : ∀ j ∈ att, i.gtgtp = j.gtgtp → i = j) (hi : i ∈ att) (heq : gs = [i.gtgtp]) :
    dev.waitq.maxactive = i.maxactive.toInt := by
  subst heq
  refine h.throttle i hi ((hgs.mem i hi).mp List.mem_cons_self) fun j hj hof => ?_
  exact (hinj j hj (List.mem_singleton.mp ((hgs.mem j hj).mpr hof)).symm).symm

/-- The books of an HBA after any calls: the devices are those of the instances attached,
    each with the list of its own instances, their number, and the throttle of the only one.
    And any further call returns. -/
theorem target_books (h : Targets s att) : ∃ ds, s.devs.Holds s.devlist.nextp ds ∧
    (∀ target lun, (∃ i ∈ att, i.target = target ∧ i.lun = lun) →
      ∃! d, d ∈ ds ∧ s.At d target lun) ∧
    (∀ d ∈ ds, ∃ i ∈ att, s.At d i.target i.lun) ∧
    (∀ i ∈ att, ∃ d ∈ ds, s.At d i.target i.lun ∧
      s.gtgt i.gtgtp = some ⟨some d, i.maxactive, i.target, i.lun⟩) ∧
    (∀ d ∈ ds, ∃ dev gs, s.gdev d = some dev ∧ dev.ilist.Holds s.ilist.nextp gs ∧
      (∀ g, g ∈ gs ↔ ∃ i ∈ att, i.gtgtp = g ∧ s.At d i.target i.lun) ∧
      dev.ninstances = gs.length ∧
      ∀ i ∈ att, gs = [i.gtgtp] → dev.waitq.maxactive = i.maxactive.toInt) ∧
    ∀ n, att.length < n →
      (∀ g newp prop target lun, g ∉ att.map Inst.gtgtp → s.gdev newp = none →
        ∃ s', s.targetInit n g newp prop target lun = some s') ∧
      ∀ i ∈ att, ∃ s', s.targetFree n i.gtgtp = some s' := by
  rcases h.books with ⟨ds, hbooks, hset⟩
  have hat : ∀ i ∈ att, ∃ d ∈ ds, s.At d i.target i.lun ∧
      s.gtgt i.gtgtp = some ⟨some d, i.maxactive, i.target, i.lun⟩ := by
    intro i hi
    rcases hbooks.inst i hi with ⟨d, dev, hgt, hd, hof⟩
    exact ⟨d, (hbooks.live d).mpr ⟨dev, hd⟩, ⟨dev, hd, hof⟩, hgt⟩
  refine ⟨ds, hbooks.devs, ?_, ?_, hat, ?_, fun n hn => ⟨?_, ?_⟩⟩
  · rintro _ _ ⟨i, hi, rfl, rfl⟩
    rcases hat i hi with ⟨d, hd, hatd, -⟩
    refine ⟨d, ⟨hd, hatd⟩, ?_⟩
    rintro d' ⟨-, dev', hd', ht', hl'⟩
    rcases hatd with ⟨dev, hd, ht, hl⟩
    exact hbooks.one d' d dev' dev hd' hd (ht'.trans ht.symm) (hl'.trans hl.symm)
  · intro d hd
    rcases (hbooks.live d).mp hd with ⟨dev, hd⟩
    rcases (hset d dev hd).busy with ⟨i, hi, hof⟩
    exact ⟨i, hi, dev, hd, hof⟩
  · intro d hd
    rcases (hbooks.live d).mp hd with ⟨dev, hd⟩
    rcases hbooks.lists d dev hd with ⟨gs, hgs⟩
    refine ⟨dev, gs, hd, hgs.holds, hgs.mem_iff hd, hgs.count, fun i hi heq => ?_⟩
    exact (hset d dev hd).single hgs (fun j hj => hbooks.inst_inj hi hj) hi heq
  · intro g newp prop target lun hg hnewp
    rcases hbooks.targetInit hset hg hnewp prop target lun hn with ⟨s', -, hs', -⟩
    exact ⟨s', hs'⟩
  · intro i hi
    rcases hbooks.targetFree hset hi hn with ⟨s', -, hs', -⟩
    exact ⟨s', hs'⟩

/-- Two instances of one device, of which the first one goes. -/
def twoInstances : Option (Hba Nat Nat) := do
  let s := Hba.init ⟨fun _ => none, fun _ => none⟩ ⟨fun _ => none, fun _ => none⟩
  let s ← s.targetInit 9 10 100 4 2 0
  let s ← s.targetInit 9 11 101 3 2 0
  s.targetFree 9 10

theorem twoInstances_run : ∃ s, twoInstances = some s ∧
    Targets s [⟨11, BitVec.signExtend 64 3#32, 2, 0⟩] := by
  let s0 : Hba Nat Nat := Hba.init ⟨fun _ => none, fun _ => none⟩ ⟨fun _ => none, fun _ => none⟩
  have h0 : Targets s0 [] := Targets.start _ _
  have h1 := h0.init (by decide) (by decide) rfl
    (rfl : s0.targetInit 9 10 100 4 2 0 = some _)
  have h2 := h1.init (by decide) (by decide) rfl
    (rfl : Hba.targetInit 9 _ 11 101 3 2 0 = some _)
  have h3 := h2.free (i := ⟨10, BitVec.signExtend 64 4#32, 2, 0⟩) (by decide) (by simp)
    (rfl : Hba.targetFree 9 _ 10 = some _)
  exact ⟨_, rfl, h3⟩

theorem target_books_two : ∃ s d, twoInstances = some s ∧ s.At d 2 0 ∧
    s.gtgt 11 = some ⟨some d, BitVec.signExtend 64 3#32, 2, 0⟩ := by
  rcases twoInstances_run with ⟨s, hs, hrun⟩
  rcases target_books hrun with ⟨ds, -, -, -, hinst, -⟩
  rcases hinst _ List.mem_cons_self with ⟨d, -, hat, hgt⟩
  exact ⟨s, d, hs, hat, hgt⟩

end Ghd

end Sil3112
