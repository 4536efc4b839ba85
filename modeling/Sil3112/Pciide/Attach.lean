import Mathlib.Data.List.Perm.Basic
import Sil3112.Lib.Forest

/-!
# Attaching the Nexus

`pciide_attach` of `pci-ide.c`. Firmware can leave nodes below the nexus that
nobody wants. The attach takes the children of `dip` away, and adds two nodes
of its own. The device tree is a forest whose nodes have names and properties,
and each call to the tree is kept in a list, so that one can ask which nodes the
attach uses and when.

The loop does not go over the children. It starts with the first child and then
asks for the next sibling of `dip`, and not of `cdip`. So from the second round
on it is at the siblings of the nexus, which it removes
(`removeStrays_siblings`). Where the sibling does not go, the loop is there for
ever (`removeStrays_forever`). When a node was removed, its name is read
afterwards.

## Main definitions

* `DevTree`: The device tree.
* `DdiCall`: The calls of the attach to the tree.
* `removeStrays`: The loop.
* `pciideAttach`: The attach.
* `OnlyStrays`: What the loop is for.

## Theorems

* `removeStrays_invariant`: What a round keeps, the loop keeps.
* `removeStrays_siblings`: Which nodes the loop visits.
* `removeStrays_forever`: Where it does not end.
* `pciideAttach_ok`: The tree stays a tree.
* `only_strays_iff`: When the attach does what it is for.
-/

namespace Sil3112

namespace Pciide

variable {N : Type} [DecidableEq N]

/-! ## The device tree -/

/-- The device tree, with the name and the integer properties of each node. -/
structure DevTree (N : Type) extends Forest N where
  name : N → String
  prop : N → String → Option Int

/-- A call to the tree, with the node it goes to. -/
inductive DdiCall (N : Type) where
  | propUpdateInt (n : N)
  | getChild (n : N)
  | getNextSibling (n : N)
  | removeChild (n : N) (ok : Bool)
  | getName (n : N)
  | allocSleep (n : N)
  | bindDriver (n : N)
  deriving DecidableEq

/-- The node that a call reads. -/
def DdiCall.node : DdiCall N → N
  | propUpdateInt n => n
  | getChild n => n
  | getNextSibling n => n
  | removeChild n _ => n
  | getName n => n
  | allocSleep n => n
  | bindDriver n => n

/-- `ndi_prop_update_int` -/
def DevTree.propUpdateInt (t : DevTree N) (n : N) (key : String) (v : Int) : DevTree N :=
  { t with prop := Function.update t.prop n (Function.update (t.prop n) key (some v)) }

/-- `ddi_remove_child`, where it succeeds. -/
def DevTree.removeChild (t : DevTree N) (c : N) : DevTree N :=
  { t with toForest := t.toForest.remove c }

/-- `ndi_devi_alloc_sleep`, which makes the node `n`. -/
def DevTree.allocSleep (t : DevTree N) (n : N) (nm : String) : DevTree N :=
  { t with name := Function.update t.name n nm }

/-- `ndi_devi_bind_driver`, which puts the node behind the children of `p`. -/
def DevTree.bindDriver (t : DevTree N) (p n : N) : DevTree N :=
  { t with toForest := t.toForest.adopt p n }

/-! ## The attach -/

/-- `ddi_attach_cmd_t` -/
inductive AttachCmd where
  | attach
  | resume
  | pmResume
  deriving DecidableEq

/-- `DDI_SUCCESS` -/
def ddiSuccess : Int := 0

/-- `DDI_FAILURE` -/
def ddiFailure : Int := -1

/-- `PCI_COMM_ME` -/
def pciCommMe : BitVec 16 := 0x4

/-- The command register after the bus master bit was seen to. -/
def enableMaster (cmdreg : BitVec 16) : BitVec 16 :=
  if cmdreg &&& pciCommMe = 0 then cmdreg ||| pciCommMe else cmdreg

/-- The body of the loop. `ok` says whether `ddi_remove_child` succeeds. -/
def strayBody (dip : N) (t : DevTree N) (cdip : N) (ok : Bool) :
    DevTree N × List (DdiCall N) :=
  if ok then
    (t.removeChild cdip, [.removeChild cdip true, .getName cdip, .getName dip])
  else
    (t, [.removeChild cdip false, .getName cdip])

/-- The loop, for `fuel` rounds at most. `ok i` is the outcome of the `i`-th
    removal, and the loop has come to `k`. -/
def removeStrays (dip : N) (ok : Nat → Bool) :
    Nat → Nat → DevTree N → Option N → Option (DevTree N × List (DdiCall N))
  | _, _, t, none => some (t, [])
  | 0, _, _, some _ => none
  | fuel + 1, k, t, some cdip =>
      let b := strayBody dip t cdip (ok k)
      -- the source asks for the sibling of `dip` here
      (removeStrays dip ok fuel (k + 1) b.1 (b.1.nextSibling dip)).map fun r =>
        (r.1, b.2 ++ .getNextSibling dip :: r.2)

/-- One of the two nodes that the attach adds. -/
def addIde (dip : N) (t : DevTree N) (n : N) (reg : Int) : DevTree N :=
  ((t.allocSleep n "sol11ide").propUpdateInt n "reg" reg).bindDriver dip n

/-- The calls of `addIde`. -/
def addIdeCalls (dip n : N) : List (DdiCall N) :=
  [.allocSleep dip, .propUpdateInt n, .bindDriver n]

/-- What an attach leaves. -/
structure AttachRes (N : Type) where
  rc : Int
  tree : DevTree N
  calls : List (DdiCall N)
  /-- The command register, where it was to be had. -/
  cmdreg : Option (BitVec 16)

/-- The tree when the loop begins. -/
def cellProps (dip : N) (t : DevTree N) : DevTree N :=
  (t.propUpdateInt dip "#address-cells" 1).propUpdateInt dip "#size-cells" 0

/-- `pciide_attach`. The command register is there if `pci_config_setup`
    succeeds, and `n0` and `n1` are the nodes that it allocates. -/
def pciideAttach (fuel : Nat) (t : DevTree N) (dip : N) (cmd : AttachCmd)
    (cmdreg : Option (BitVec 16)) (ok : Nat → Bool) (n0 n1 : N) : Option (AttachRes N) :=
  if cmd = .attach then
    (removeStrays dip ok fuel 0 (cellProps dip t) ((cellProps dip t).child dip).head?).map fun r =>
      { rc := ddiSuccess
        tree := addIde dip (addIde dip r.1 n0 0) n1 1
        calls := [.propUpdateInt dip, .propUpdateInt dip, .getChild dip] ++ r.2 ++
          addIdeCalls dip n0 ++ addIdeCalls dip n1
        cmdreg := cmdreg.map enableMaster }
  else
    some { rc := ddiFailure, tree := t, calls := [], cmdreg := cmdreg }

/-! ## What the loop is for -/

/-- The nodes that a removal was tried on. -/
def visited (calls : List (DdiCall N)) : List N :=
  calls.filterMap fun
    | .removeChild n _ => some n
    | _ => none

/-- The nodes that a removal was tried on, with this outcome. -/
def removals (ok : Bool) (calls : List (DdiCall N)) : List N :=
  calls.filterMap fun
    | .removeChild n o => if o = ok then some n else none
    | _ => none

/-- A removed node is not used afterwards. -/
def NoUseAfterRemoval (calls : List (DdiCall N)) : Prop :=
  calls.Pairwise fun a b => ∀ n, a = .removeChild n true → b.node ≠ n

/-- The attach removes the children of its own node and leaves the others. -/
structure OnlyStrays (t : DevTree N) (dip n0 n1 : N) (r : AttachRes N) : Prop where
  /-- Each child of `dip` once, and nothing else. -/
  visits : (visited r.calls).Perm (t.child dip)
  own : ∀ n ∈ visited r.calls, t.parent n = some dip
  live : NoUseAfterRemoval r.calls
  /-- What is neither `dip` nor removed keeps its children. -/
  children : ∀ p, p ≠ dip → p ∉ removals true r.calls → r.tree.child p = t.child p
  /-- Nodes that are not removed, nor below one that is, keep their parent. -/
  parents : ∀ n, n ∉ removals true r.calls → n ≠ n0 → n ≠ n1 →
    (∀ p, t.parent n = some p → p ∉ removals true r.calls) → r.tree.parent n = t.parent n
  props : ∀ n, n ≠ dip → n ≠ n0 → n ≠ n1 →
    r.tree.prop n = t.prop n ∧ r.tree.name n = t.name n
  left : (r.tree.child dip).Perm (removals false r.calls ++ [n0, n1])

/-! ## Rounds of the loop -/

omit [DecidableEq N] in
@[simp] theorem visited_append (l m : List (DdiCall N)) :
    visited (l ++ m) = visited l ++ visited m :=
  List.filterMap_append

omit [DecidableEq N] in
@[simp] theorem removals_append (o : Bool) (l m : List (DdiCall N)) :
    removals o (l ++ m) = removals o l ++ removals o m :=
  List.filterMap_append

@[simp] theorem visited_strayBody (dip : N) (t : DevTree N) (cdip : N) (o : Bool) :
    visited (strayBody dip t cdip o).2 = [cdip] := by
  cases o <;> rfl

omit [DecidableEq N] in
@[simp] theorem visited_sibling_cons (dip : N) (l : List (DdiCall N)) :
    visited (.getNextSibling dip :: l) = visited l := rfl

theorem strayBody_ok {dip : N} {t : DevTree N} (h : t.Ok) (cdip : N) (o : Bool) :
    (strayBody dip t cdip o).1.Ok := by
  cases o with
  | true => exact h.remove cdip
  | false => exact h

/-- A round that ended, taken apart. -/
theorem removeStrays_some {dip : N} {ok : Nat → Bool} {fuel k : Nat} {t : DevTree N} {c : N}
    {r : DevTree N × List (DdiCall N)} (h : removeStrays dip ok fuel k t (some c) = some r) :
    ∃ fuel' r', fuel = fuel' + 1 ∧
      removeStrays dip ok fuel' (k + 1) (strayBody dip t c (ok k)).1
        ((strayBody dip t c (ok k)).1.nextSibling dip) = some r' ∧
      r = (r'.1, (strayBody dip t c (ok k)).2 ++ .getNextSibling dip :: r'.2) := by
  cases fuel with
  | zero => simp [removeStrays] at h
  | succ fuel =>
      rw [removeStrays] at h
      rcases Option.map_eq_some_iff.1 h with ⟨r', h1, h2⟩
      exact ⟨fuel, r', rfl, h1, h2.symm⟩

theorem removeStrays_none {dip : N} {ok : Nat → Bool} {fuel k : Nat} {t : DevTree N} :
    removeStrays dip ok fuel k t none = some (t, []) := by
  cases fuel <;> rfl

/-- What a round keeps, the loop keeps. -/
theorem removeStrays_invariant {I : DevTree N → Prop} {dip : N}
    (hI : ∀ t c o, I t → I (strayBody dip t c o).1) {ok : Nat → Bool} {fuel k : Nat}
    {t : DevTree N} (h : I t) {cdip : Option N} {r : DevTree N × List (DdiCall N)}
    (hr : removeStrays dip ok fuel k t cdip = some r) : I r.1 := by
  induction fuel generalizing k t cdip r with
  | zero =>
      cases cdip with
      | none =>
          rw [removeStrays_none] at hr
          cases hr
          exact h
      | some c => cases hr
  | succ fuel ih =>
      cases cdip with
      | none =>
          rw [removeStrays_none] at hr
          cases hr
          exact h
      | some c =>
          rcases removeStrays_some hr with ⟨f, r', hf, h1, rfl⟩
          cases hf
          exact ih (r := r') (hI t c (ok k) h) h1

/-! ## Where the loop goes -/

/-- A removal leaves the parent of `dip` alone, unless it removes one of them. -/
theorem strayBody_parent_dip {dip c : N} {t : DevTree N} (hne : c ≠ dip)
    (hp : t.parent dip ≠ some c) (o : Bool) :
    (strayBody dip t c o).1.parent dip = t.parent dip := by
  cases o with
  | true => exact Forest.parent_remove_of_ne (Ne.symm hne) hp
  | false => rfl

/-- What has a parent after a round had it before. -/
theorem parent_of_strayBody {dip c n p : N} {t : DevTree N} {o : Bool}
    (h : (strayBody dip t c o).1.parent n = some p) : t.parent n = some p := by
  cases o with
  | true => exact (Forest.parent_of_remove h).2.2
  | false => exact h

/-- From a sibling of `dip` on, the loop visits siblings of `dip` only. -/
theorem removeStrays_from_sibling {dip : N} {ok : Nat → Bool} {fuel k : Nat} {t : DevTree N}
    (h : t.Ok) {r : DevTree N × List (DdiCall N)}
    (hr : removeStrays dip ok fuel k t (t.nextSibling dip) = some r) :
    ∀ n ∈ visited r.2, n ≠ dip ∧ t.parent n = t.parent dip := by
  induction fuel generalizing k t r with
  | zero =>
      cases hs : t.nextSibling dip with
      | none =>
          rw [hs, removeStrays_none] at hr
          cases hr
          intro n hn
          cases hn
      | some s =>
          rw [hs] at hr
          cases hr
  | succ fuel ih =>
      cases hs : t.nextSibling dip with
      | none =>
          rw [hs, removeStrays_none] at hr
          cases hr
          intro n hn
          cases hn
      | some s =>
          rw [hs] at hr
          rcases removeStrays_some hr with ⟨f, r', hf, h1, rfl⟩
          cases hf
          rcases h.parent_nextSibling hs with ⟨hsp, hd, hne⟩
          have hdip := strayBody_parent_dip (o := ok k) hne
            (fun hp => h.parent_ne_self s (hsp.trans hp))
          intro n hn
          rw [visited_append, visited_strayBody, visited_sibling_cons] at hn
          rcases List.mem_append.1 hn with hn | hn
          · rw [List.mem_singleton.1 hn]
            exact ⟨hne, hsp⟩
          · -- a later node has the parent of `dip` in a tree with fewer nodes
            rcases ih (strayBody_ok h s (ok k)) h1 n hn with ⟨hnd, hnp⟩
            rw [hdip] at hnp
            cases hp : t.parent dip with
            | none => exact absurd hp hd
            | some p =>
                rw [hp] at hnp
                exact ⟨hnd, parent_of_strayBody hnp⟩

/-- After the first child, the loop visits siblings of `dip` only. -/
theorem removeStrays_siblings {dip : N} {ok : Nat → Bool} {fuel : Nat} {t : DevTree N}
    (h : t.Ok) {c : N} (hc : c ∈ t.child dip) {r : DevTree N × List (DdiCall N)}
    (hr : removeStrays dip ok fuel 0 t (some c) = some r) :
    ∃ rest, visited r.2 = c :: rest ∧ ∀ n ∈ rest, n ≠ dip ∧ t.parent n = t.parent dip := by
  rcases removeStrays_some hr with ⟨f, r', -, h1, rfl⟩
  have hcp := (h.mem_child dip c).1 hc
  have hne : c ≠ dip := by
    intro hcd
    rw [hcd] at hcp
    exact h.parent_ne_self dip hcp
  have hdip := strayBody_parent_dip (o := ok 0) hne (h.parent_asymm hcp)
  refine ⟨visited r'.2, by simp, ?_⟩
  intro n hn
  rcases removeStrays_from_sibling (strayBody_ok h c (ok 0)) h1 n hn with ⟨hnd, hnp⟩
  rw [hdip] at hnp
  cases hp : t.parent dip with
  | none =>
      -- a node without a parent has no sibling, so nothing is visited
      rw [Forest.nextSibling, hdip, hp, removeStrays_none] at h1
      cases h1
      cases hn
  | some p =>
      rw [hp] at hnp
      exact ⟨hnd, parent_of_strayBody hnp⟩

/-- Where no removal succeeds and `dip` has a next sibling, the loop tries the
    same sibling for ever. -/
theorem removeStrays_forever {dip s : N} {ok : Nat → Bool} (hok : ∀ i, ok i = false)
    {t : DevTree N} (hs : t.nextSibling dip = some s) (fuel k : Nat) (c : N) :
    removeStrays dip ok fuel k t (some c) = none := by
  induction fuel generalizing k c with
  | zero => rfl
  | succ fuel ih =>
      have hb : (strayBody dip t c (ok k)).1 = t := by
        rw [hok k]
        rfl
      rw [removeStrays, hb, hs, ih]
      rfl

/-! ## The two new nodes -/

theorem addIde_ok {dip n : N} {t : DevTree N} (h : t.Ok) (hn : t.Fresh n) (hne : n ≠ dip)
    (reg : Int) : (addIde dip t n reg).Ok :=
  Forest.Ok.adopt h hn hne

theorem addIde_child_dip (dip n : N) (t : DevTree N) (reg : Int) :
    (addIde dip t n reg).child dip = t.child dip ++ [n] :=
  Function.update_self dip _ _

theorem addIde_child_ne {dip p : N} (hp : p ≠ dip) (n : N) (t : DevTree N) (reg : Int) :
    (addIde dip t n reg).child p = t.child p :=
  Function.update_of_ne hp _ _

theorem addIde_parent_ne {n m : N} (hm : m ≠ n) (dip : N) (t : DevTree N) (reg : Int) :
    (addIde dip t n reg).parent m = t.parent m :=
  Function.update_of_ne hm _ _

theorem addIde_prop_ne {n m : N} (hm : m ≠ n) (dip : N) (t : DevTree N) (reg : Int) :
    (addIde dip t n reg).prop m = t.prop m :=
  Function.update_of_ne hm _ _

theorem addIde_name_ne {n m : N} (hm : m ≠ n) (dip : N) (t : DevTree N) (reg : Int) :
    (addIde dip t n reg).name m = t.name m :=
  Function.update_of_ne hm _ _

theorem cellProps_prop_ne {dip m : N} (hm : m ≠ dip) (t : DevTree N) :
    (cellProps dip t).prop m = t.prop m := by
  simp only [cellProps, DevTree.propUpdateInt]
  rw [Function.update_of_ne hm, Function.update_of_ne hm]

/-- The nodes that the attach allocates are new, and they are two. -/
structure NewNodes (t : DevTree N) (dip n0 n1 : N) : Prop where
  fresh0 : t.Fresh n0
  fresh1 : t.Fresh n1
  ne : n0 ≠ n1
  ne0 : n0 ≠ dip
  ne1 : n1 ≠ dip

theorem strayBody_fresh {dip n : N} {t : DevTree N} (h : t.Fresh n) (cdip : N) (o : Bool) :
    (strayBody dip t cdip o).1.Fresh n := by
  cases o with
  | true => exact h.remove cdip
  | false => exact h

/-- An attach that ended, taken apart. -/
theorem pciideAttach_some {fuel : Nat} {t : DevTree N} {dip : N} {cmdreg : Option (BitVec 16)}
    {ok : Nat → Bool} {n0 n1 : N} {r : AttachRes N}
    (h : pciideAttach fuel t dip .attach cmdreg ok n0 n1 = some r) :
    ∃ l, removeStrays dip ok fuel 0 (cellProps dip t) (t.child dip).head? = some l ∧
      r = { rc := ddiSuccess
            tree := addIde dip (addIde dip l.1 n0 0) n1 1
            calls := [.propUpdateInt dip, .propUpdateInt dip, .getChild dip] ++ l.2 ++
              addIdeCalls dip n0 ++ addIdeCalls dip n1
            cmdreg := cmdreg.map enableMaster } := by
  rw [pciideAttach, if_pos rfl] at h
  rcases Option.map_eq_some_iff.1 h with ⟨l, h1, h2⟩
  exact ⟨l, h1, h2.symm⟩

/-- Whatever the loop does, the tree stays a tree. -/
theorem pciideAttach_ok {fuel : Nat} {t : DevTree N} (h : t.Ok) {dip : N} {cmd : AttachCmd}
    {cmdreg : Option (BitVec 16)} {ok : Nat → Bool} {n0 n1 : N} (hn : NewNodes t dip n0 n1)
    {r : AttachRes N} (hr : pciideAttach fuel t dip cmd cmdreg ok n0 n1 = some r) :
    r.tree.Ok := by
  by_cases hc : cmd = .attach
  · subst hc
    rcases pciideAttach_some hr with ⟨l, hl, rfl⟩
    have hfresh : ∀ n, t.Fresh n → l.1.Fresh n := fun n hn =>
      removeStrays_invariant (I := fun t => t.Fresh n) (t := cellProps dip t)
        (fun _ c o ht => strayBody_fresh ht c o) hn hl
    have hok : l.1.Ok :=
      removeStrays_invariant (I := fun t => t.Ok) (t := cellProps dip t)
        (fun _ c o ht => strayBody_ok ht c o) h hl
    have h1 := hfresh n1 hn.fresh1
    exact addIde_ok (addIde_ok hok (hfresh n0 hn.fresh0) hn.ne0 0)
      (h1.adopt (Ne.symm hn.ne) hn.ne1) hn.ne1 1
  · rw [pciideAttach, if_neg hc] at hr
    cases hr
    exact h

/-! ## When the attach does what it is for -/

omit [DecidableEq N] in
theorem mem_removals {n : N} {o : Bool} {l : List (DdiCall N)} :
    n ∈ removals o l ↔ DdiCall.removeChild n o ∈ l := by
  simp only [removals, List.mem_filterMap]
  constructor
  · rintro ⟨a, ha, h⟩
    split at h
    · split at h
      · cases h
        rename_i ho
        rw [← ho]
        exact ha
      · cases h
    · cases h
  · intro h
    exact ⟨_, h, by simp⟩

omit [DecidableEq N] in
theorem noUse_of_removals_nil {l : List (DdiCall N)} (h : removals true l = []) :
    NoUseAfterRemoval l := by
  refine List.pairwise_of_forall_mem_list ?_
  intro a ha b _ n hn
  rw [hn] at ha
  have := mem_removals.2 ha
  rw [h] at this
  cases this

/-- If the loop tries all children and removes none, the attach is right. -/
theorem onlyStrays_of_quiet {t : DevTree N} (ht : t.Ok) {dip n0 n1 : N}
    {cmdreg : Option (BitVec 16)} {ok : Nat → Bool} {fuel : Nat} {l : List (DdiCall N)}
    (h : removeStrays dip ok fuel 0 (cellProps dip t) (t.child dip).head? =
      some (cellProps dip t, l))
    (hv : visited l = t.child dip) (hr : removals true l = [])
    (hk : removals false l = t.child dip) :
    ∃ r, pciideAttach fuel t dip .attach cmdreg ok n0 n1 = some r ∧
      OnlyStrays t dip n0 n1 r := by
  have hr' : removals true ([.propUpdateInt dip, .propUpdateInt dip, .getChild dip] ++ l ++
      addIdeCalls dip n0 ++ addIdeCalls dip n1) = [] := by
    simp only [removals_append, hr]
    rfl
  have hv' : visited ([.propUpdateInt dip, .propUpdateInt dip, .getChild dip] ++ l ++
      addIdeCalls dip n0 ++ addIdeCalls dip n1) = t.child dip := by
    simp only [visited_append, hv]
    simp [visited, addIdeCalls]
  refine ⟨_, by rw [pciideAttach, if_pos rfl]; exact Option.map_eq_some_iff.2 ⟨_, h, rfl⟩, ?_⟩
  refine ⟨?_, ?_, noUse_of_removals_nil hr', ?_, ?_, ?_, ?_⟩
  · exact List.Perm.of_eq hv'
  · intro n hn
    dsimp only at hn
    rw [hv'] at hn
    exact (ht.mem_child dip n).1 hn
  · intro p hp _
    exact (addIde_child_ne hp n1 _ 1).trans (addIde_child_ne hp n0 _ 0)
  · intro n _ h0 h1 _
    exact (addIde_parent_ne h1 dip _ 1).trans (addIde_parent_ne h0 dip _ 0)
  · intro n hd h0 h1
    exact ⟨(addIde_prop_ne h1 dip _ 1).trans ((addIde_prop_ne h0 dip _ 0).trans
      (cellProps_prop_ne hd t)), (addIde_name_ne h1 dip _ 1).trans (addIde_name_ne h0 dip _ 0)⟩
  · have hleft : removals false ([.propUpdateInt dip, .propUpdateInt dip, .getChild dip] ++ l ++
        addIdeCalls dip n0 ++ addIdeCalls dip n1) = t.child dip := by
      simp only [removals_append, hk]
      simp [removals, addIdeCalls]
    dsimp only
    rw [hleft, addIde_child_dip, addIde_child_dip]
    exact List.Perm.of_eq (List.append_assoc _ _ _)

/-- A round whose removal succeeds reads the name of the removed node. -/
theorem not_live_of_removed (dip c : N) (t : DevTree N) {calls : List (DdiCall N)}
    (h : (strayBody dip t c true).2.Sublist calls) : ¬NoUseAfterRemoval calls := by
  intro hn
  have h1 := hn.sublist h
  exact (List.pairwise_cons.1 h1).1 (.getName c) (by simp) c rfl rfl

theorem first_removed_used {fuel : Nat} {t : DevTree N} {dip c : N} {cs : List N}
    {cmdreg : Option (BitVec 16)} {ok : Nat → Bool} {n0 n1 : N} {r : AttachRes N}
    (hr : pciideAttach fuel t dip .attach cmdreg ok n0 n1 = some r)
    (hc : t.child dip = c :: cs) (h0 : ok 0 = true) : ¬NoUseAfterRemoval r.calls := by
  rcases pciideAttach_some hr with ⟨l, hl, rfl⟩
  rw [hc, List.head?_cons] at hl
  rcases removeStrays_some hl with ⟨f, l', -, -, rfl⟩
  refine not_live_of_removed dip c (cellProps dip t) ?_
  rw [h0]
  dsimp only
  have h1 : (strayBody dip (cellProps dip t) c true).2.Sublist
      ([.propUpdateInt dip, .propUpdateInt dip, .getChild dip] ++
        ((strayBody dip (cellProps dip t) c true).2 ++ .getNextSibling dip :: l'.2)) :=
    (List.sublist_append_left _ _).trans (List.sublist_append_right _ _)
  exact (h1.trans (List.sublist_append_left _ _)).trans (List.sublist_append_left _ _)

/-- If the attach is right, the loop ends with the first child. -/
theorem OnlyStrays.one_round {t : DevTree N} (ht : t.Ok) {dip n0 n1 c : N}
    {ok : Nat → Bool} {fuel : Nat} {l : DevTree N × List (DdiCall N)} (hc : c ∈ t.child dip)
    (hl : removeStrays dip ok fuel 0 (cellProps dip t) (some c) = some l) {r : AttachRes N}
    (hs : OnlyStrays t dip n0 n1 r) (hv : visited r.calls = visited l.2) :
    visited l.2 = [c] := by
  rcases removeStrays_siblings (t := cellProps dip t) ht hc hl with ⟨rest, hrest, hsib⟩
  -- a second round would be at a sibling of `dip`, which is not a child
  cases rest with
  | nil => exact hrest
  | cons n rest =>
      exfalso
      have hn : n ∈ visited r.calls := by
        rw [hv, hrest]
        exact List.mem_cons_of_mem c List.mem_cons_self
      have hp : t.parent n = t.parent dip := (hsib n List.mem_cons_self).2
      exact ht.parent_ne_self dip (hp.symm.trans (hs.own n hn))

/-- The attach does what its loop is for if there is nothing to remove, or if
    there is one child, which stays, and the nexus is the last child of its
    parent. Otherwise it reads a node that is gone, goes to the siblings of the
    nexus, leaves children out, or does not end. -/
theorem only_strays_iff {t : DevTree N} (ht : t.Ok) {dip n0 n1 : N}
    (cmdreg : Option (BitVec 16)) (ok : Nat → Bool) :
    (∃ fuel r, pciideAttach fuel t dip .attach cmdreg ok n0 n1 = some r ∧
      OnlyStrays t dip n0 n1 r) ↔
    (t.child dip = [] ∨
      ∃ c, t.child dip = [c] ∧ t.nextSibling dip = none ∧ ok 0 = false) := by
  constructor
  · rintro ⟨fuel, r, hr, hs⟩
    rcases pciideAttach_some hr with ⟨l, hl, hr'⟩
    cases hc : t.child dip with
    | nil => exact Or.inl rfl
    | cons c cs =>
        have hcm : c ∈ t.child dip := by
          rw [hc]
          exact List.mem_cons_self
        have hvis : visited r.calls = visited l.2 := by
          rw [hr']
          simp [visited, addIdeCalls]
        rw [hc, List.head?_cons] at hl
        have hone := hs.one_round ht hcm hl hvis
        rcases removeStrays_some hl with ⟨f, l', -, h1, hl'⟩
        -- a removed node would be read afterwards
        have h0 : ok 0 = false := by
          by_contra h0
          rw [Bool.not_eq_false] at h0
          exact first_removed_used hr hc h0 hs.live
        -- a sibling would be visited in the second round
        have hsib : t.nextSibling dip = none := by
          cases hn : t.nextSibling dip with
          | none => rfl
          | some s =>
              exfalso
              rw [h0] at h1
              change removeStrays dip ok f 1 (cellProps dip t) (t.nextSibling dip) = some l' at h1
              rw [hn] at h1
              rcases removeStrays_some h1 with ⟨_, l'', -, -, hl''⟩
              rw [hl', hl''] at hone
              simp at hone
        refine Or.inr ⟨c, ?_, hsib, h0⟩
        have hperm := hs.visits
        rw [hvis, hone, hc] at hperm
        exact (List.perm_singleton.1 hperm.symm)
  · rintro (hc | ⟨c, hc, hs, h0⟩)
    -- no round, and one round
    · exact ⟨0, onlyStrays_of_quiet ht (l := []) (by rw [hc]; rfl) hc.symm rfl hc.symm⟩
    · refine ⟨1, onlyStrays_of_quiet ht
        (l := [.removeChild c false, .getName c, .getNextSibling dip]) ?_ hc.symm rfl hc.symm⟩
      rw [hc, List.head?_cons, removeStrays, h0]
      have hs' : (cellProps dip t).nextSibling dip = none := hs
      simp only [strayBody, Bool.false_eq_true, if_false, hs', removeStrays_none]
      rfl

/-! ## A nexus with a sibling -/

/-- The root has two nexuses, and the first one has two nodes below it. -/
def straysBelow : DevTree Nat where
  parent := fun n =>
    if n = 1 ∨ n = 4 then some 0 else if n = 2 ∨ n = 3 then some 1 else none
  child := fun n => if n = 0 then [1, 4] else if n = 1 then [2, 3] else []
  name := fun _ => "pci-ide"
  prop := fun _ _ => none

theorem straysBelow_ok : straysBelow.Ok where
  mem_child := by
    intro p c
    simp only [straysBelow]
    grind
  nodup := by
    intro p
    simp only [straysBelow]
    split
    · decide
    · split <;> decide
  ranked := by
    refine ⟨fun n => if n = 0 then 0 else if n = 1 ∨ n = 4 then 1 else 2, ?_⟩
    intro p c
    simp only [straysBelow]
    grind

/-- The second nexus has nothing below it. -/
theorem only_strays_second :
    ∃ fuel r, pciideAttach fuel straysBelow 4 .attach none (fun _ => true) 5 6 = some r ∧
      OnlyStrays straysBelow 4 5 6 r :=
  (only_strays_iff straysBelow_ok none (fun _ => true)).2 (Or.inl rfl)

/-- The first nexus has two children. Node 2 is removed, its name is read, and
    the loop goes on with the second nexus. -/
theorem strays_not_only :
    straysBelow.Ok ∧ NewNodes straysBelow 1 5 6 ∧
      ¬∃ fuel r, pciideAttach fuel straysBelow 1 .attach none (fun _ => true) 5 6 = some r ∧
        OnlyStrays straysBelow 1 5 6 r := by
  refine ⟨straysBelow_ok, ⟨⟨rfl, rfl⟩, ⟨rfl, rfl⟩, by decide, by decide, by decide⟩, ?_⟩
  rintro ⟨fuel, r, hr, hs⟩
  have hc : straysBelow.child 1 = 2 :: [3] := rfl
  exact first_removed_used hr hc rfl hs.live

end Pciide

end Sil3112
