import Sil3112.Disk.Strategy
import Sil3112.Lib.Loop

/-!
# Singly Linked Lists

The `L1` lists of `ghd_queue.c` on their pointers: the devices of an HBA, and the
instances of each device. A list has a pointer to its first and one to its last element,
and either must be repaired when the element it points to goes. An element that has been
deleted keeps its link, which is not followed any more.

`L1_delete` walks the list for the element before the one it deletes. The walk is run for
a number of rounds, of which there must be more than elements.

## Main definitions

* `L1els`: The links and the data of every element.
* `L1.add`, `L1.delete`, `L1.remove`: The functions.
* `L1.Holds`: The elements of a list.
* `Fifo.call`: A call, as an operation on a list of elements with their data.

## Theorems

* `L1.Holds.add`, `L1.Holds.delete`, `L1.Holds.remove`: What the functions do to a list.
* `L1.delete_notMem`: An element that is not on the list.
* `L1.add_nextp`, `L1.delete_nextp`: Which links they write.
* `l1_refines`: Any calls do to the pointers what they do to the list.
-/

namespace Sil3112

namespace Ghd

open Disk

variable {ν π : Type} [DecidableEq ν]

/-! ## The functions -/

/-- Every `L1el_t`. -/
structure L1els (ν π : Type) where
  nextp : ν → Option ν
  datap : ν → Option π

/-- `L1_t` -/
structure L1 (ν : Type) where
  headp : Option ν
  tailp : Option ν

/-- `L1HEADER_INIT` -/
def L1.init : L1 ν := ⟨none, none⟩

/-- `L1EL_INIT` -/
def L1els.init (els : L1els ν π) (lep : ν) : L1els ν π :=
  ⟨Function.update els.nextp lep none, Function.update els.datap lep none⟩

/-- `L1_add` -/
def L1.add (lp : L1 ν) (els : L1els ν π) (lep : ν) (datap : Option π) : L1 ν × L1els ν π :=
  let els : L1els ν π :=
    ⟨Function.update els.nextp lep none, Function.update els.datap lep datap⟩
  match lp.tailp with
  | none => (⟨some lep, some lep⟩, els)
  | some tailp =>
    (⟨lp.headp, some lep⟩,
      { els with nextp := Function.update els.nextp tailp (some lep) })

/-- A round of the walk of `L1_delete`, which looks for the element before `lep`. -/
def L1.deleteBody (els : L1els ν π) (lep : ν) : Option ν → Option ν ⊕ Option ν
  | none => .inr none
  | some prevp =>
    if els.nextp prevp = some lep then .inr (some prevp) else .inl (els.nextp prevp)

/-- `L1_delete` -/
def L1.delete (n : Nat) (lp : L1 ν) (els : L1els ν π) (lep : ν) : Option (L1 ν × L1els ν π) :=
  if lp.headp = some lep then
    some (⟨els.nextp lep, if els.nextp lep = none then none else lp.tailp⟩, els)
  else
    (Loop.run (L1.deleteBody els lep) n lp.headp).map fun
      | some prevp =>
        (⟨lp.headp, if els.nextp lep = none then some prevp else lp.tailp⟩,
          { els with nextp := Function.update els.nextp prevp (els.nextp lep) })
      | none => (lp, els)

/-- `L1_remove`, with what it returns. -/
def L1.remove (lp : L1 ν) (els : L1els ν π) : (L1 ν × L1els ν π) × Option π :=
  match lp.headp with
  | none => ((lp, els), none)
  | some lep =>
    ((⟨els.nextp lep, if els.nextp lep = none then none else lp.tailp⟩,
      { els with nextp := Function.update els.nextp lep none }), els.datap lep)

/-- A call of one of the functions. -/
inductive L1Op (ν π : Type) where
  | add (lep : ν) (datap : Option π)
  | delete (lep : ν)
  | remove

/-- A call, with the data it returns. -/
def L1.call (n : Nat) (s : L1 ν × L1els ν π) :
    L1Op ν π → Option ((L1 ν × L1els ν π) × Option π)
  | .add lep datap => some (s.1.add s.2 lep datap, none)
  | .delete lep => (s.1.delete n s.2 lep).map fun s => (s, none)
  | .remove => some (s.1.remove s.2)

/-- Calls one after the other, with what they return. -/
def L1.run (n : Nat) (s : L1 ν × L1els ν π) :
    List (L1Op ν π) → Option ((L1 ν × L1els ν π) × List (Option π))
  | [] => some (s, [])
  | op :: ops => do
    let (s, r) ← L1.call n s op
    let (s, rs) ← L1.run n s ops
    some (s, r :: rs)

/-! ## The list -/

/-- A call, as an operation on a list of elements with their data. -/
def Fifo.call (q : List (ν × Option π)) : L1Op ν π → List (ν × Option π) × Option π
  | .add lep datap => (q ++ [(lep, datap)], none)
  | .delete lep => (q.filter fun x => x.1 ≠ lep, none)
  | .remove => (q.tail, q.head?.bind Prod.snd)

/-- Calls one after the other, with what they return. -/
def Fifo.run (q : List (ν × Option π)) :
    List (L1Op ν π) → List (ν × Option π) × List (Option π)
  | [] => (q, [])
  | op :: ops =>
    let r := Fifo.run (Fifo.call q op).1 ops
    (r.1, (Fifo.call q op).2 :: r.2)

/-- The call does not add an element that is on the list. -/
def Fifo.New (q : List (ν × Option π)) : L1Op ν π → Prop
  | .add lep _ => lep ∉ q.map Prod.fst
  | .delete _ => True
  | .remove => True

/-- No call adds an element that is on the list. -/
def Fifo.Fresh (q : List (ν × Option π)) : List (L1Op ν π) → Prop
  | [] => True
  | op :: ops => Fifo.New q op ∧ Fifo.Fresh (Fifo.call q op).1 ops

/-- The elements of a list. -/
structure L1.Holds (lp : L1 ν) (nextp : ν → Option ν) (l : List ν) : Prop where
  linked : Linked nextp lp.headp l
  last : lp.tailp = l.getLast?
  nodup : l.Nodup

/-- The elements of a list, with their data. -/
structure L1.Rep (s : L1 ν × L1els ν π) (q : List (ν × Option π)) : Prop where
  holds : s.1.Holds s.2.nextp (q.map Prod.fst)
  datap : ∀ x ∈ q, s.2.datap x.1 = x.2

/-! ## One call -/

variable {lp : L1 ν} {els : L1els ν π} {nextp nextp' : ν → Option ν} {l a b : List ν}
  {lep x : ν} {o : Option ν} {d : Option π} {n : Nat}

omit [DecidableEq ν] in
/-- A list depends on the links of its own elements only. -/
theorem linked_congr (h : Linked nextp o l) (heq : ∀ x ∈ l, nextp' x = nextp x) :
    Linked nextp' o l := by
  induction l generalizing o with
  | nil => exact linked_nil.mpr (linked_nil.mp h)
  | cons x l ih =>
      rcases linked_cons.mp h with ⟨rfl, hlink⟩
      refine linked_cons.mpr ⟨rfl, ?_⟩
      rw [heq x List.mem_cons_self]
      exact ih hlink fun y hy => heq y (List.mem_cons_of_mem x hy)

omit [DecidableEq ν] in
theorem L1.Holds.congr (h : lp.Holds nextp l) (heq : ∀ x ∈ l, nextp' x = nextp x) :
    lp.Holds nextp' l :=
  ⟨linked_congr h.linked heq, h.last, h.nodup⟩

omit [DecidableEq ν] in
theorem L1.init_holds : (L1.init : L1 ν).Holds nextp [] :=
  ⟨rfl, rfl, List.nodup_nil⟩

/-- `L1_add` writes the links of the element and of the last one. -/
theorem L1.add_nextp (h : lp.Holds els.nextp l) (hx : x ∉ l) (hne : x ≠ lep) :
    (lp.add els lep d).2.nextp x = els.nextp x := by
  unfold L1.add
  cases htail : lp.tailp with
  | none => exact Function.update_of_ne hne ..
  | some tailp =>
      rw [h.last] at htail
      have hxt : x ≠ tailp := fun hxt => hx (hxt ▸ List.mem_of_getLast? htail)
      exact (Function.update_of_ne hxt ..).trans (Function.update_of_ne hne ..)

theorem L1.add_datap : (lp.add els lep d).2.datap = Function.update els.datap lep d := by
  unfold L1.add
  cases lp.tailp with
  | none => rfl
  | some tailp => rfl

theorem L1.Holds.add (h : lp.Holds els.nextp l) (hl : lep ∉ l) :
    (lp.add els lep d).1.Holds (lp.add els lep d).2.nextp (l ++ [lep]) := by
  have hnd : (l ++ [lep]).Nodup :=
    (List.perm_append_singleton lep l).nodup_iff.mpr (List.nodup_cons.mpr ⟨hl, h.nodup⟩)
  have hlast := h.last
  unfold L1.add
  cases l with
  | nil =>
      rw [hlast]
      refine ⟨linked_cons.mpr ⟨rfl, ?_⟩, rfl, hnd⟩
      exact linked_nil.mpr (Function.update_self ..)
  | cons y l =>
      rw [List.getLast?_eq_some_getLast (List.cons_ne_nil y l)] at hlast
      rw [hlast]
      refine ⟨?_, List.getLast?_concat.symm, hnd⟩
      have hne : (y :: l).getLast (List.cons_ne_nil y l) ≠ lep :=
        ne_of_mem_of_not_mem (List.getLast_mem _) hl
      dsimp only
      rw [Function.update_comm (Ne.symm hne)]
      exact h.linked.append (h.last.symm.trans hlast) h.nodup hl

omit [DecidableEq ν] in
/-- The element behind another one. -/
theorem linked_behind (h : Linked nextp o (a ++ x :: lep :: b)) : nextp x = some lep := by
  induction a generalizing o with
  | nil => exact (linked_cons.mp (linked_cons.mp h).2).1
  | cons y a ih => exact ih (linked_cons.mp h).2

omit [DecidableEq ν] in
/-- The list from an element on. -/
theorem linked_from (h : Linked nextp o (a ++ lep :: b)) : Linked nextp (some lep) (lep :: b) := by
  induction a generalizing o with
  | nil => exact linked_cons.mpr ⟨rfl, (linked_cons.mp h).2⟩
  | cons y a ih => exact ih (linked_cons.mp h).2

omit [DecidableEq ν] in
theorem linked_head (h : Linked nextp o l) : o = l.head? := by
  cases l with
  | nil => exact linked_nil.mp h
  | cons x l => exact (linked_cons.mp h).1

/-- An element is passed over. -/
theorem linked_skip (h : Linked nextp o (a ++ x :: lep :: b)) (hnd : (a ++ x :: lep :: b).Nodup) :
    Linked (Function.update nextp x (nextp lep)) o (a ++ x :: b) := by
  induction a generalizing o with
  | nil =>
      rcases linked_cons.mp h with ⟨rfl, h⟩
      have hxb : x ∉ b := fun hx => (List.nodup_cons.mp hnd).1 (List.mem_cons_of_mem lep hx)
      refine linked_cons.mpr ⟨rfl, ?_⟩
      rw [Function.update_self]
      exact (linked_cons.mp (linked_cons.mp h).2).2.update hxb
  | cons y a ih =>
      rcases linked_cons.mp h with ⟨rfl, hlink⟩
      rcases List.nodup_cons.mp hnd with ⟨hy, hnd⟩
      have hyx : y ≠ x := ne_of_mem_of_not_mem (List.mem_append_right a List.mem_cons_self) hy
        |>.symm
      refine linked_cons.mpr ⟨rfl, ?_⟩
      rw [Function.update_of_ne hyx]
      exact ih hlink hnd

theorem L1.deleteBody_found (h : els.nextp x = some lep) :
    L1.deleteBody els lep (some x) = .inr (some x) :=
  if_pos h

theorem L1.deleteBody_next (h : Linked els.nextp o (x :: l)) (hne : l.head? ≠ some lep) :
    L1.deleteBody els lep o = .inl (els.nextp x) := by
  rcases linked_cons.mp h with ⟨rfl, hlink⟩
  exact if_neg fun hx => hne ((linked_head hlink).symm.trans hx)

omit [DecidableEq ν] in
/-- An element behind another one is not the first. -/
theorem head_ne (hnd : (a ++ x :: lep :: b).Nodup) : (a ++ x :: lep :: b).head? ≠ some lep := by
  intro hhead
  cases a with
  | nil =>
      cases hhead
      exact (List.nodup_cons.mp hnd).1 List.mem_cons_self
  | cons z a =>
      cases hhead
      exact (List.nodup_cons.mp hnd).1
        (List.mem_append_right a (List.mem_cons_of_mem x List.mem_cons_self))

/-- The walk finds the element before another one. -/
theorem L1.walk_found (h : Linked els.nextp o (a ++ x :: lep :: b))
    (hnd : (a ++ x :: lep :: b).Nodup) (hn : a.length < n) :
    Loop.run (L1.deleteBody els lep) n o = some (some x) := by
  induction a generalizing n o with
  | nil =>
      obtain ⟨n, rfl⟩ : ∃ m, n = m + 1 := ⟨n - 1, by omega⟩
      rw [(linked_cons.mp h).1]
      exact Loop.run_leave (L1.deleteBody_found (linked_behind h)) n
  | cons y a ih =>
      rw [List.length_cons] at hn
      obtain ⟨n, rfl⟩ : ∃ m, n = m + 1 := ⟨n - 1, by omega⟩
      have hnd := (List.nodup_cons.mp hnd).2
      rw [Loop.run_next (L1.deleteBody_next h (head_ne hnd))]
      exact ih (linked_cons.mp h).2 hnd (by omega)

/-- The walk comes to the end if the element is not on the list. -/
theorem L1.walk_none (h : Linked els.nextp o l) (hl : lep ∉ l) (hn : l.length < n) :
    Loop.run (L1.deleteBody els lep) n o = some none := by
  induction l generalizing n o with
  | nil =>
      obtain ⟨n, rfl⟩ : ∃ m, n = m + 1 := ⟨n - 1, by omega⟩
      rw [linked_nil.mp h]
      exact Loop.run_leave rfl n
  | cons y l ih =>
      rw [List.length_cons] at hn
      obtain ⟨n, rfl⟩ : ∃ m, n = m + 1 := ⟨n - 1, by omega⟩
      have hl' : lep ∉ l := fun hmem => hl (List.mem_cons_of_mem y hmem)
      rw [Loop.run_next (L1.deleteBody_next h fun hhead => hl' (List.mem_of_head? hhead))]
      exact ih (linked_cons.mp h).2 hl' (by omega)

/-- An element that is not on the list. -/
theorem L1.delete_notMem (h : lp.Holds els.nextp l) (hl : lep ∉ l) (hn : l.length < n) :
    lp.delete n els lep = some (lp, els) := by
  have hhead : lp.headp ≠ some lep := fun hhead =>
    hl (List.mem_of_head? ((linked_head h.linked).symm.trans hhead))
  unfold L1.delete
  rw [if_neg hhead, L1.walk_none h.linked hl hn]
  rfl

omit [DecidableEq ν] in
/-- The last pointer after an element has been taken out behind another list. -/
theorem last_after (h : Linked nextp (some lep) (lep :: b)) (tailp last : Option ν)
    (htail : tailp = (a ++ lep :: b).getLast?) (hlast : last = a.getLast?) :
    (if nextp lep = none then last else tailp) = (a ++ b).getLast? := by
  cases b with
  | nil =>
      rw [if_pos (linked_nil.mp (linked_cons.mp h).2), List.append_nil]
      exact hlast
  | cons y b =>
      rw [(linked_cons.mp (linked_cons.mp h).2).1, if_neg (by simp), htail,
        List.getLast?_append_cons, List.getLast?_append_cons,
        List.getLast?_cons_of_ne_nil (List.cons_ne_nil y b)]

/-- `L1_delete` takes out the element, and writes links of the list only. -/
theorem L1.Holds.delete (h : lp.Holds els.nextp (a ++ lep :: b)) (hn : a.length < n) :
    ∃ lp' nextp', lp.delete n els lep = some (lp', { els with nextp := nextp' }) ∧
      lp'.Holds nextp' (a ++ b) ∧ ∀ x, x ∉ a ++ lep :: b → nextp' x = els.nextp x := by
  have hnd : (a ++ b).Nodup :=
    h.nodup.sublist (List.Sublist.append_left (List.sublist_cons_self lep b) a)
  unfold L1.delete
  rcases List.eq_nil_or_concat a with rfl | ⟨c, x, rfl⟩
  · -- the first element
    rcases linked_cons.mp h.linked with ⟨hhead, hlink⟩
    refine ⟨_, els.nextp, if_pos hhead, ⟨hlink, ?_, hnd⟩, fun _ _ => rfl⟩
    exact last_after (a := []) (linked_cons.mpr ⟨rfl, hlink⟩) lp.tailp none h.last rfl
  · rw [List.concat_eq_append] at h hnd hn ⊢
    have hnd' := h.nodup
    have hlink := h.linked
    have hlast := last_after (a := c ++ [x]) (linked_from hlink) lp.tailp (some x) h.last
      List.getLast?_concat.symm
    rw [List.append_assoc] at hlink hnd' hnd hlast ⊢
    have hhead : lp.headp ≠ some lep := fun hhead =>
      head_ne hnd' ((linked_head hlink).symm.trans hhead)
    rw [List.length_append] at hn
    rw [if_neg hhead, L1.walk_found hlink hnd' (by omega)]
    refine ⟨_, _, rfl, ⟨linked_skip hlink hnd', hlast, hnd⟩, fun y hy => ?_⟩
    have hyx : y ≠ x := fun hyx =>
      hy (List.mem_append_left _ (List.mem_append_right c (List.mem_singleton.mpr hyx)))
    exact Function.update_of_ne hyx ..

theorem L1.Holds.remove (h : lp.Holds els.nextp (lep :: l)) :
    (lp.remove els).1.1.Holds (lp.remove els).1.2.nextp l ∧ (lp.remove els).2 = els.datap lep ∧
      (lp.remove els).1.2.datap = els.datap := by
  rcases linked_cons.mp h.linked with ⟨hhead, hlink⟩
  have hnd := List.nodup_cons.mp h.nodup
  have hlast := last_after (a := []) (linked_cons.mpr ⟨rfl, hlink⟩) lp.tailp none h.last rfl
  unfold L1.remove
  rw [hhead]
  exact ⟨⟨hlink.update hnd.1, hlast, hnd.2⟩, rfl, rfl⟩

theorem L1.remove_nil (h : lp.Holds els.nextp []) : lp.remove els = ((lp, els), none) := by
  unfold L1.remove
  rw [linked_nil.mp h.linked]

/-! ## Any calls -/

variable {s : L1 ν × L1els ν π} {q : List (ν × Option π)}

theorem L1.Rep.add (h : L1.Rep s q) (hl : lep ∉ q.map Prod.fst) :
    L1.Rep (s.1.add s.2 lep d) (q ++ [(lep, d)]) := by
  constructor
  · rw [List.map_append]
    exact h.holds.add hl
  · intro x hx
    rw [L1.add_datap]
    rcases List.mem_append.mp hx with hx | hx
    · have hne : x.1 ≠ lep := ne_of_mem_of_not_mem (List.mem_map_of_mem hx) hl
      rw [Function.update_of_ne hne]
      exact h.datap x hx
    · rw [List.mem_singleton.mp hx]
      exact Function.update_self ..

/-- What is left without an element. -/
theorem filter_ne {c e : List (ν × Option π)} {y : ν × Option π}
    (hnd : ((c ++ y :: e).map Prod.fst).Nodup) :
    (c ++ y :: e).filter (fun x => x.1 ≠ y.1) = c ++ e := by
  rw [List.map_append, List.map_cons] at hnd
  rcases List.nodup_append.mp hnd with ⟨-, hnde, hdis⟩
  have hc : ∀ x ∈ c, decide (x.1 ≠ y.1) = true := fun x hx =>
    decide_eq_true (hdis x.1 (List.mem_map_of_mem hx) y.1 List.mem_cons_self)
  have he : ∀ x ∈ e, decide (x.1 ≠ y.1) = true := fun x hx =>
    decide_eq_true (ne_of_mem_of_not_mem (List.mem_map_of_mem hx) (List.nodup_cons.mp hnde).1)
  rw [List.filter_append, List.filter_cons_of_neg (by simp), List.filter_eq_self.mpr hc,
    List.filter_eq_self.mpr he]

theorem L1.Rep.delete (h : L1.Rep s q) (lep : ν) (hn : q.length < n) :
    ∃ s', s.1.delete n s.2 lep = some s' ∧ L1.Rep s' (q.filter fun x => x.1 ≠ lep) := by
  have hholds := h.holds
  by_cases hl : lep ∈ q.map Prod.fst
  · rcases List.mem_map.mp hl with ⟨y, hmem, rfl⟩
    rcases List.append_of_mem hmem with ⟨c, e, rfl⟩
    rw [filter_ne hholds.nodup]
    rw [List.map_append, List.map_cons] at hholds
    rw [List.length_append] at hn
    have hnc : (c.map Prod.fst).length < n := by
      rw [List.length_map]
      omega
    rcases hholds.delete hnc with ⟨lp', nextp', hs, hholds', -⟩
    refine ⟨_, hs, ?_, fun x hx => h.datap x ?_⟩
    · rw [List.map_append]
      exact hholds'
    · exact (List.Sublist.append_left (List.sublist_cons_self y e) c).subset hx
  · have hall : ∀ x ∈ q, decide (x.1 ≠ lep) = true := fun x hx =>
      decide_eq_true (ne_of_mem_of_not_mem (List.mem_map_of_mem hx) hl)
    rw [List.filter_eq_self.mpr hall]
    exact ⟨s, L1.delete_notMem hholds hl (by rwa [List.length_map]), h⟩

theorem L1.Rep.remove (h : L1.Rep s q) :
    L1.Rep (s.1.remove s.2).1 q.tail ∧ (s.1.remove s.2).2 = q.head?.bind Prod.snd := by
  cases q with
  | nil =>
      rw [L1.remove_nil h.holds]
      exact ⟨h, rfl⟩
  | cons y q =>
      rcases h.holds.remove with ⟨hholds, hret, hdatap⟩
      refine ⟨⟨hholds, fun x hx => ?_⟩, hret.trans (h.datap y List.mem_cons_self)⟩
      rw [hdatap]
      exact h.datap x (List.mem_cons_of_mem y hx)

/-- A call does to the pointers what it does to the list. -/
theorem L1.Rep.call {op : L1Op ν π} (h : L1.Rep s q) (hn : q.length < n)
    (hfresh : Fifo.New q op) :
    ∃ s', L1.call n s op = some (s', (Fifo.call q op).2) ∧ L1.Rep s' (Fifo.call q op).1 := by
  cases op with
  | add lep datap => exact ⟨_, rfl, h.add hfresh⟩
  | delete lep =>
      rcases h.delete lep hn with ⟨s', hs, hrep⟩
      exact ⟨s', congrArg (Option.map fun s => (s, none)) hs, hrep⟩
  | remove =>
      rcases h.remove with ⟨hrep, hret⟩
      exact ⟨_, congrArg (fun r => some ((s.1.remove s.2).1, r)) hret, hrep⟩

theorem Fifo.length_call (q : List (ν × Option π)) (op : L1Op ν π) :
    (Fifo.call q op).1.length ≤ q.length + 1 := by
  cases op with
  | add lep datap =>
      change (q ++ [(lep, datap)]).length ≤ _
      exact Nat.le_of_eq List.length_append
  | delete lep => exact Nat.le_succ_of_le (List.length_filter_le _ q)
  | remove =>
      change q.tail.length ≤ _
      rw [List.length_tail]
      omega

theorem Fifo.length_run (q : List (ν × Option π)) (ops : List (L1Op ν π)) :
    (Fifo.run q ops).1.length ≤ q.length + ops.length := by
  induction ops generalizing q with
  | nil => exact Nat.le_refl _
  | cons op ops ih =>
      have hlen := Fifo.length_call q op
      have hrest := ih (Fifo.call q op).1
      rw [List.length_cons]
      change (Fifo.run (Fifo.call q op).1 ops).1.length ≤ _
      omega

theorem L1.Rep.run {ops : List (L1Op ν π)} (h : L1.Rep s q) (hfresh : Fifo.Fresh q ops)
    (hn : q.length + ops.length < n) :
    ∃ s', L1.run n s ops = some (s', (Fifo.run q ops).2) ∧ L1.Rep s' (Fifo.run q ops).1 := by
  induction ops generalizing s q with
  | nil => exact ⟨s, rfl, h⟩
  | cons op ops ih =>
      rw [List.length_cons] at hn
      have hlen := Fifo.length_call q op
      rcases h.call (n := n) (by omega) hfresh.1 with ⟨s', hs', hrep'⟩
      rcases ih hrep' hfresh.2 (by omega) with ⟨s'', hs'', hrep''⟩
      refine ⟨s'', ?_, hrep''⟩
      unfold L1.run
      simp only [hs', hs'', Option.bind_eq_bind, Option.bind_some]
      rfl

/-- The pointers are the list: any calls of which none adds an element that is on the list
    do to the pointers what they do to the list and return the same, and an element that is
    not on the list may be deleted. -/
theorem l1_refines {ops : List (L1Op ν π)} (h : L1.Rep s q) (hfresh : Fifo.Fresh q ops)
    (hn : q.length + ops.length < n) :
    ∃ s', L1.run n s ops = some (s', (Fifo.run q ops).2) ∧ L1.Rep s' (Fifo.run q ops).1 ∧
      ∀ lep, lep ∉ (Fifo.run q ops).1.map Prod.fst → s'.1.delete n s'.2 lep = some s' := by
  rcases h.run hfresh hn with ⟨s', hs', hrep⟩
  refine ⟨s', hs', hrep, fun lep hlep => L1.delete_notMem hrep.holds hlep ?_⟩
  have hlen := Fifo.length_run q ops
  rw [List.length_map]
  omega

/-- Elements are deleted in the middle, once more, and at the end, before others come. -/
theorem l1_refines_repaired :
    (L1.run 10 (L1.init, ⟨fun _ => none, fun _ => none⟩)
      ([.add 1 (some 10), .add 2 (some 20), .add 3 (some 30), .delete 2, .delete 2, .delete 3,
        .add 4 (some 40), .remove, .remove] : List (L1Op Nat Nat))).map Prod.snd =
      some [none, none, none, none, none, none, none, some 10, some 40] := by
  let els : L1els Nat Nat := ⟨fun _ => none, fun _ => none⟩
  have hrep : L1.Rep (L1.init, els) [] := ⟨L1.init_holds, nofun⟩
  let ops : List (L1Op Nat Nat) := [.add 1 (some 10), .add 2 (some 20), .add 3 (some 30),
    .delete 2, .delete 2, .delete 3, .add 4 (some 40), .remove, .remove]
  have hfresh : Fifo.Fresh [] ops := by simp [ops, Fifo.Fresh, Fifo.New, Fifo.call]
  rcases l1_refines (n := 10) hrep hfresh (by decide) with ⟨s', hs', -⟩
  rw [hs']
  rfl

end Ghd

end Sil3112
