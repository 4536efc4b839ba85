import Sil3112.Lib.Rings
import Sil3112.Ghd.Queue

/-!
# The Rings behind the Queues

`ghd_queue.c` on its pointers. A head and an element are both an `L2el_t`, and each
`L2el_t` that is linked is on one ring: that of a head with its queue, or its own when
it has been removed, or initialised and not used yet. What the rest of GHD sees of this
are lists (`l2Add`, `l2AddHead`, `l2Delete`, `l2RemoveHead`), and this is why it may.

A pointer that is NULL and followed is a result of its own (`none`), and none occurs.

## Main definitions

* `L2`: The pointers of every `L2el_t`.
* `L2.add`, `L2.delete`, `L2.addHead`, `L2.removeHead`, `L2.next`: The functions.
* `Queues`: The list of every cell that is the head of a ring.
* `Queues.Step`: A call, as an operation on lists.
* `L2.Rep`: The rings are those of the lists.

## Theorems

* `L2.Rep.add`, `L2.Rep.addHead`, `L2.Rep.remove`, `L2.Rep.delete`: What the functions
  do to the rings.
* `L2.Rep.next`: What comes behind a cell.
* `l2_refines`: Any calls do to the rings what they do to the lists.
-/

namespace Sil3112

namespace Ghd

open Rings

variable {ν π : Type} [DecidableEq ν]

/-! ## The functions -/

/-- The pointers of every `L2el_t`, and its `l2_private`. -/
structure L2 (ν π : Type) where
  links : Links ν
  priv : ν → Option π

/-- `L2_INIT` -/
def L2.init (s : L2 ν π) (headp : ν) : L2 ν π :=
  { s with links := (s.links.setNext headp (some headp)).setPrev headp (some headp) }

/-- `L2_add` -/
def L2.add (s : L2 ν π) (headp elementp : ν) (priv : Option π) : Option (L2 ν π) := do
  let k := s.links.setNext elementp (some headp)
  let tailp ← k.prev headp
  let k := k.setPrev elementp (some tailp)
  let k := k.setNext tailp (some elementp)
  let k := k.setPrev headp (some elementp)
  some ⟨k, Function.update s.priv elementp priv⟩

/-- `L2_delete` -/
def L2.delete (s : L2 ν π) (elementp : ν) : Option (L2 ν π) := do
  let prevp ← s.links.prev elementp
  let nextp ← s.links.next elementp
  let k := s.links.setNext prevp (some nextp)
  let k := k.setPrev nextp (some prevp)
  -- linked to itself in case someone does a double delete
  let k := k.setNext elementp (some elementp)
  let k := k.setPrev elementp (some elementp)
  some { s with links := k }

/-- `L2_add_head` -/
def L2.addHead (s : L2 ν π) (headp elementp : ν) (priv : Option π) : Option (L2 ν π) := do
  let k := s.links.setPrev elementp (some headp)
  let nextp ← k.next headp
  let k := k.setNext elementp (some nextp)
  let k := k.setPrev nextp (some elementp)
  let k := k.setNext headp (some elementp)
  some ⟨k, Function.update s.priv elementp priv⟩

/-- `L2_remove_head`, with what it returns. -/
def L2.removeHead (s : L2 ν π) (headp : ν) : Option (L2 ν π × Option π) :=
  if s.links.next headp = some headp then some (s, none)
  else do
    let elementp ← s.links.next headp
    let nextp ← s.links.next elementp
    let k := s.links.setNext headp (some nextp)
    let k := k.setPrev nextp (some headp)
    let k := k.setNext elementp (some elementp)
    let k := k.setPrev elementp (some elementp)
    some ({ s with links := k }, s.priv elementp)

/-- `L2_next` -/
def L2.next (s : L2 ν π) (elementp : ν) : Option (Option π) :=
  if s.links.next elementp = some elementp then some none
  else (s.links.next elementp).map s.priv

/-- A call of one of the functions. -/
inductive L2Op (ν π : Type) where
  | init (headp : ν)
  | add (headp elementp : ν) (priv : Option π)
  | addHead (headp elementp : ν) (priv : Option π)
  | removeHead (headp : ν)
  | delete (elementp : ν)
  | next (elementp : ν)

/-- A call, with the pointer it returns. -/
def L2.call (s : L2 ν π) : L2Op ν π → Option (L2 ν π × Option π)
  | .init h => some (s.init h, none)
  | .add h e p => (s.add h e p).map fun s => (s, none)
  | .addHead h e p => (s.addHead h e p).map fun s => (s, none)
  | .removeHead h => s.removeHead h
  | .delete e => (s.delete e).map fun s => (s, none)
  | .next e => (s.next e).map fun r => (s, r)

/-- Calls one after the other, with what they return. -/
def L2.run (s : L2 ν π) : List (L2Op ν π) → Option (L2 ν π × List (Option π))
  | [] => some (s, [])
  | op :: ops => do
    let (s, r) ← s.call op
    let (s, rs) ← s.run ops
    some (s, r :: rs)

/-! ## The lists -/

/-- The list of every cell that is the head of a ring, and the `l2_private` of each. A
    cell that is linked to itself is the head of an empty list. -/
structure Queues (ν π : Type) where
  q : ν → Option (List ν)
  priv : ν → Option π

/-- The cell is on no ring but one of its own. -/
def Queues.Free (k : Queues ν π) (e : ν) : Prop :=
  ∀ x l, k.q x = some l → e ∈ x :: l → x = e ∧ l = []

/-- The cell is on the ring of a head. -/
def Queues.On (k : Queues ν π) (c x : ν) : Prop :=
  ∃ l, k.q x = some l ∧ c ∈ x :: l

/-- No cell is on two rings, or twice on one. -/
structure Queues.Ok (k : Queues ν π) : Prop where
  nodup : ∀ x l, k.q x = some l → (x :: l).Nodup
  one : ∀ c x y, k.On c x → k.On c y → x = y

/-- The list of one head is another. -/
def Queues.put (k : Queues ν π) (x : ν) (l : List ν) : Queues ν π :=
  { k with q := Function.update k.q x (some l) }

/-- An element goes to the list of a head, with its pointer. -/
def Queues.take (k : Queues ν π) (e h : ν) (l : List ν) (p : Option π) : Queues ν π where
  q := Function.update (Function.update k.q e none) h (some l)
  priv := Function.update k.priv e p

/-- A call, as an operation on the lists, with the pointer it returns. An element is
    added only while it is on no ring. -/
inductive Queues.Step : Queues ν π → L2Op ν π → Queues ν π → Option π → Prop
  | init {k : Queues ν π} {h : ν} (hh : k.Free h) : Step k (.init h) (k.put h []) none
  | add {k : Queues ν π} {h e : ν} {l : List ν} (p : Option π) (hl : k.q h = some l)
      (he : k.Free e) (hne : e ≠ h) : Step k (.add h e p) (k.take e h (l2Add l e) p) none
  | addHead {k : Queues ν π} {h e : ν} {l : List ν} (p : Option π) (hl : k.q h = some l)
      (he : k.Free e) (hne : e ≠ h) : Step k (.addHead h e p) (k.take e h (l2AddHead l e) p) none
  | removeNone {k : Queues ν π} {h : ν} {l : List ν} (hl : k.q h = some l)
      (hr : l2RemoveHead l = none) : Step k (.removeHead h) k none
  | remove {k : Queues ν π} {h e : ν} {l r : List ν} (hl : k.q h = some l)
      (hr : l2RemoveHead l = some (e, r)) :
      Step k (.removeHead h) ((k.put h r).put e []) (k.priv e)
  | delete {k : Queues ν π} {h e : ν} {l : List ν} (hl : k.q h = some l) (he : e ∈ l) :
      Step k (.delete e) ((k.put h (l2Delete l e)).put e []) none
  | deleteAgain {k : Queues ν π} {e : ν} (he : k.q e = some []) : Step k (.delete e) k none
  | nextNone {k : Queues ν π} {x : ν} (hx : k.q x = some []) : Step k (.next x) k none
  | next {k : Queues ν π} {h x y : ν} {l a b : List ν} (hl : k.q h = some l) (hne : l ≠ [])
      (hxy : h :: l ++ [h] = a ++ x :: y :: b) : Step k (.next x) k (k.priv y)

/-- Calls one after the other, with what they return. -/
inductive Queues.Steps :
    Queues ν π → List (L2Op ν π) → Queues ν π → List (Option π) → Prop
  | nil (k : Queues ν π) : Steps k [] k []
  | cons {k k' k'' : Queues ν π} {op : L2Op ν π} {ops : List (L2Op ν π)} {r : Option π}
      {rs : List (Option π)} :
      k.Step op k' r → Steps k' ops k'' rs → Steps k (op :: ops) k'' (r :: rs)

/-- The rings are those of the lists. -/
structure L2.Rep (s : L2 ν π) (k : Queues ν π) : Prop extends k.Ok where
  priv : s.priv = k.priv
  ring : ∀ x l, k.q x = some l → IsRing s.links (x :: l)

/-! ## No cell twice -/

variable {k k' : Queues ν π} {s : L2 ν π} {h e x y : ν} {l l' m : List ν} {p : Option π}

omit [DecidableEq ν] in
/-- An element that is on no ring is not on one of another cell. -/
theorem Queues.Free.notMem (he : k.Free e) (hne : e ≠ h) (hl : k.q h = some l) : e ∉ h :: l :=
  fun hmem => hne (he h l hl hmem).1.symm

theorem Queues.take_q (k : Queues ν π) (e h : ν) (l : List ν) (p : Option π) (hx : x ≠ h)
    (hxe : x ≠ e) : (k.take e h l p).q x = k.q x :=
  (Function.update_of_ne hx ..).trans (Function.update_of_ne hxe ..)

theorem Queues.take_q_self (k : Queues ν π) (e h : ν) (l : List ν) (p : Option π) :
    (k.take e h l p).q h = some l :=
  Function.update_self ..

theorem Queues.take_q_none (k : Queues ν π) (l : List ν) (p : Option π) (hne : e ≠ h) :
    (k.take e h l p).q e = none :=
  (Function.update_of_ne hne ..).trans (Function.update_self ..)

theorem Queues.put_q_self (k : Queues ν π) (x : ν) (l : List ν) : (k.put x l).q x = some l :=
  Function.update_self ..

theorem Queues.put_q (k : Queues ν π) (l : List ν) (hx : x ≠ y) : (k.put y l).q x = k.q x :=
  Function.update_of_ne hx ..

/-- The rings after an element has gone to one. -/
theorem Queues.take_cases {m : List ν} (hne : e ≠ h) (hm : (k.take e h l' p).q x = some m) :
    x = h ∧ m = l' ∨ x ≠ h ∧ x ≠ e ∧ k.q x = some m := by
  by_cases hx : x = h
  · rw [hx, k.take_q_self] at hm
    cases hm
    exact Or.inl ⟨hx, rfl⟩
  by_cases hxe : x = e
  · rw [hxe, k.take_q_none l' p hne] at hm
    cases hm
  · rw [k.take_q e h l' p hx hxe] at hm
    exact Or.inr ⟨hx, hxe, hm⟩

/-- The rings after an element has left one. -/
theorem Queues.drop_cases {m : List ν} (hm : ((k.put h l').put e []).q x = some m) :
    x = e ∧ m = [] ∨ x = h ∧ m = l' ∨ x ≠ h ∧ x ≠ e ∧ k.q x = some m := by
  by_cases hxe : x = e
  · rw [hxe, Queues.put_q_self] at hm
    cases hm
    exact Or.inl ⟨hxe, rfl⟩
  rw [Queues.put_q _ _ hxe] at hm
  by_cases hx : x = h
  · rw [hx, Queues.put_q_self] at hm
    cases hm
    exact Or.inr (Or.inl ⟨hx, rfl⟩)
  · rw [Queues.put_q _ _ hx] at hm
    exact Or.inr (Or.inr ⟨hx, hxe, hm⟩)

omit [DecidableEq ν] in
/-- One cell is on one ring, and no other has gone to another. -/
theorem Queues.Ok.one_of_on {k' : Queues ν π} (hok : k.Ok)
    (hon : ∀ c x, k'.On c x → c = e ∧ x = h ∨ c ≠ e ∧ k.On c x) (c x y : ν) (hx : k'.On c x)
    (hy : k'.On c y) : x = y := by
  rcases hon c x hx with ⟨hc, rfl⟩ | ⟨hc, hx⟩ <;>
    rcases hon c y hy with ⟨hc', rfl⟩ | ⟨hc', hy⟩
  · rfl
  · exact absurd hc hc'
  · exact absurd hc' hc
  · exact hok.one c x y hx hy

/-- An element that was on no ring goes to one. -/
theorem Queues.Ok.take (hok : k.Ok) (hl : k.q h = some l) (he : k.Free e) (hne : e ≠ h)
    (hperm : l'.Perm (e :: l)) : (k.take e h l' p).Ok := by
  have hcells : (h :: l').Perm (e :: h :: l) := (hperm.cons h).trans (List.Perm.swap e h l)
  -- the element is on the ring it went to, each other cell on the one it was on
  have hon : ∀ c x, (k.take e h l' p).On c x → c = e ∧ x = h ∨ c ≠ e ∧ k.On c x := by
    rintro c x ⟨m, hm, hc⟩
    rcases Queues.take_cases hne hm with ⟨rfl, rfl⟩ | ⟨hx, hxe, hm⟩
    · rcases List.mem_cons.mp (hcells.mem_iff.mp hc) with rfl | hc
      · exact Or.inl ⟨rfl, rfl⟩
      · exact Or.inr ⟨ne_of_mem_of_not_mem hc (he.notMem hne hl), l, hl, hc⟩
    · exact Or.inr ⟨ne_of_mem_of_not_mem hc (he.notMem (Ne.symm hxe) hm), m, hm, hc⟩
  constructor
  · intro x m hm
    rcases Queues.take_cases hne hm with ⟨rfl, rfl⟩ | ⟨-, -, hm⟩
    · exact hcells.nodup_iff.mpr (List.nodup_cons.mpr ⟨he.notMem hne hl, hok.nodup x l hl⟩)
    · exact hok.nodup x m hm
  · exact hok.one_of_on hon

omit [DecidableEq ν] in
/-- A cell of one ring is not on another. -/
theorem Queues.Ok.apart {m : List ν} {c : ν} (hok : k.Ok) (hl : k.q h = some l)
    (hm : k.q x = some m) (hx : x ≠ h) (hc : c ∈ h :: l) : c ∉ x :: m :=
  fun hcm => hx (hok.one c x h ⟨m, hm, hcm⟩ ⟨l, hl, hc⟩)

omit [DecidableEq ν] in
/-- An element on a ring is not the head of one. -/
theorem Queues.Ok.ne_head (hok : k.Ok) (hl : k.q h = some l) (he : e ∈ l) (hx : k.q x = some m) :
    e ≠ x := by
  rintro rfl
  have hhe := hok.one e h e ⟨l, hl, List.mem_cons_of_mem h he⟩ ⟨m, hx, List.mem_cons_self⟩
  rw [hhe] at hl
  exact (List.nodup_cons.mp (hok.nodup e l hl)).1 he

/-- An element leaves its ring, for one of its own. -/
theorem Queues.Ok.drop (hok : k.Ok) (hl : k.q h = some l) (hperm : l.Perm (e :: l')) :
    ((k.put h l').put e []).Ok := by
  have he : e ∈ l := hperm.mem_iff.mpr List.mem_cons_self
  have hne := hok.ne_head hl he hl
  have hcells : (h :: l).Perm (e :: h :: l') := (hperm.cons h).trans (List.Perm.swap e h l')
  have hnd := List.nodup_cons.mp (hcells.nodup_iff.mp (hok.nodup h l hl))
  have hon : ∀ c x,
      ((k.put h l').put e []).On c x → c = e ∧ x = e ∨ c ≠ e ∧ k.On c x := by
    rintro c x ⟨m, hm, hc⟩
    rcases Queues.drop_cases hm with ⟨rfl, rfl⟩ | ⟨rfl, rfl⟩ | ⟨hx, hxe, hm'⟩
    · exact Or.inl ⟨List.mem_singleton.mp hc, rfl⟩
    · exact Or.inr ⟨ne_of_mem_of_not_mem hc hnd.1, l, hl,
        hcells.mem_iff.mpr (List.mem_cons_of_mem e hc)⟩
    · refine Or.inr ⟨?_, m, hm', hc⟩
      rintro rfl
      exact hx (hok.one c x h ⟨m, hm', hc⟩ ⟨l, hl, List.mem_cons_of_mem h he⟩)
  constructor
  · intro x m hm
    rcases Queues.drop_cases hm with ⟨rfl, rfl⟩ | ⟨rfl, rfl⟩ | ⟨-, -, hm⟩
    · exact List.nodup_singleton x
    · exact hnd.2
    · exact hok.nodup x m hm
  · exact hok.one_of_on hon

/-! ## The rings -/

omit [DecidableEq ν] in
theorem exists_head (b : List ν) (h : ν) : ∃ y, (b ++ [h]).head? = some y := by
  cases b with
  | nil => exact ⟨h, rfl⟩
  | cons y b => exact ⟨y, rfl⟩

/-- `L2_add` links the element behind the last cell. -/
theorem L2.Rep.add_eq (hrep : s.Rep k) (hl : k.q h = some l) (he : k.Free e) (hne : e ≠ h)
    {la : ν} (hla : (h :: l).getLast? = some la) :
    s.add h e p = some ⟨(s.links.set la e).set e h, Function.update s.priv e p⟩ := by
  have hprev := ((hrep.ring h l hl).closed hla rfl).2
  have hlae : la ≠ e := ne_of_mem_of_not_mem (List.mem_of_getLast? hla) (he.notMem hne hl)
  unfold L2.add
  simp only [Option.bind_eq_bind, hprev, Option.bind_some, Links.set, Links.setNext, Links.setPrev]
  rw [Function.update_comm (Ne.symm hlae)]

theorem L2.Rep.add (hrep : s.Rep k) (hl : k.q h = some l) (he : k.Free e) (hne : e ≠ h) :
    ∃ s', s.add h e p = some s' ∧ s'.Rep (k.take e h (l2Add l e) p) := by
  have hla := List.getLast?_eq_some_getLast (List.cons_ne_nil h l)
  refine ⟨_, hrep.add_eq hl he hne hla, ?_, congrArg (Function.update · e p) hrep.priv, ?_⟩
  · exact hrep.toOk.take hl he hne (List.perm_append_singleton e l)
  · intro x m hm
    rcases Queues.take_cases hne hm with ⟨rfl, rfl⟩ | ⟨hx, hxe, hm⟩
    · exact (hrep.ring x l hl).insert_last (hrep.nodup x l hl) (he.notMem hne hl) hla
    · have hnot := he.notMem (Ne.symm hxe) hm
      have hapart := fun c => hrep.apart (c := c) hl hm hx
      exact ((hrep.ring x m hm).set_of_notMem (hapart _ (List.mem_of_getLast? hla)) hnot)
        |>.set_of_notMem hnot (hapart h List.mem_cons_self)

/-- `L2_add_head` links the element behind the head. -/
theorem L2.Rep.addHead_eq (hrep : s.Rep k) (hl : k.q h = some l) (hne : e ≠ h)
    {y : ν} (hy : (l ++ [h]).head? = some y) :
    s.addHead h e p = some ⟨(s.links.set h e).set e y, Function.update s.priv e p⟩ := by
  have hnext : s.links.next h = some y := by
    have hring := hrep.ring h l hl
    unfold IsRing at hring
    rcases List.head?_eq_some_iff.mp hy with ⟨b, hb⟩
    have hseg : IsSeg s.links ([] ++ h :: y :: b) := by
      rw [← hb]
      exact hring
    exact hseg.linked.1
  unfold L2.addHead
  simp only [Option.bind_eq_bind, hnext, Option.bind_some, Links.set, Links.setNext, Links.setPrev]
  rw [Function.update_comm hne]

theorem L2.Rep.addHead (hrep : s.Rep k) (hl : k.q h = some l) (he : k.Free e) (hne : e ≠ h) :
    ∃ s', s.addHead h e p = some s' ∧ s'.Rep (k.take e h (l2AddHead l e) p) := by
  rcases exists_head l h with ⟨y, hy⟩
  refine ⟨_, hrep.addHead_eq hl hne hy, ?_, congrArg (Function.update · e p) hrep.priv, ?_⟩
  · exact hrep.toOk.take hl he hne (List.Perm.refl _)
  · intro x m hm
    rcases Queues.take_cases hne hm with ⟨rfl, rfl⟩ | ⟨hx, hxe, hm⟩
    · exact (hrep.ring x l hl).insert_first (hrep.nodup x l hl) (he.notMem hne hl) hy
    · have hnot := he.notMem (Ne.symm hxe) hm
      have hmem : y ∈ h :: l := (List.perm_append_singleton h l).mem_iff.mp (List.mem_of_head? hy)
      exact ((hrep.ring x m hm).set_of_notMem (hrep.apart hl hm hx List.mem_cons_self) hnot)
        |>.set_of_notMem hnot (hrep.apart hl hm hx hmem)

/-- The cells around an element are linked to each other, and it to itself. -/
theorem L2.Rep.unlink {a b : List ν} {z y : ν} (hrep : s.Rep k) (hl : k.q h = some (a ++ e :: b))
    (hy : (b ++ [h]).head? = some y) (hz : (h :: a).getLast? = some z) :
    L2.Rep { s with links := (s.links.set e e).set z y } ((k.put h (a ++ b)).put e []) := by
  have hnd := hrep.nodup h _ hl
  have hnd' : (e :: (b ++ h :: a)).Nodup :=
    (@List.perm_append_comm _ (h :: a) (e :: b)).nodup_iff.mp hnd
  have hhead : (b ++ h :: a).head? = some y := by
    cases b with
    | nil => exact hy
    | cons x b => exact hy
  have hlast : (b ++ h :: a).getLast? = some z :=
    (getLast?_append_of_ne b (List.cons_ne_nil h a)).trans hz
  have hcut := (IsRing.rotate (a := h :: a) (hrep.ring h _ hl)).unlink hnd' hhead hlast
  refine ⟨hrep.toOk.drop hl List.perm_middle, hrep.priv, ?_⟩
  intro x m hm
  rcases Queues.drop_cases hm with ⟨rfl, rfl⟩ | ⟨rfl, rfl⟩ | ⟨hx, -, hm⟩
  · exact hcut.1
  · exact IsRing.rotate hcut.2
  · have hapart : ∀ c ∈ e :: (b ++ h :: a), c ∉ x :: m := fun c hc =>
      hrep.apart hl hm hx ((@List.perm_append_comm _ (h :: a) (e :: b)).mem_iff.mpr hc)
    have he := hapart e List.mem_cons_self
    exact ((hrep.ring x m hm).set_of_notMem he he).set_of_notMem
      (hapart z (List.mem_cons_of_mem e (List.mem_of_getLast? hlast)))
      (hapart y (List.mem_cons_of_mem e (List.mem_of_head? hhead)))

omit [DecidableEq ν] in
/-- The cells before and behind an element, which are others. -/
theorem L2.Rep.around {a b : List ν} {z y : ν} (hrep : s.Rep k) (hl : k.q h = some (a ++ e :: b))
    (hy : (b ++ [h]).head? = some y) (hz : (h :: a).getLast? = some z) :
    (s.links.Linked z e ∧ z ≠ e) ∧ s.links.Linked e y ∧ y ≠ e := by
  have hring : IsRing s.links ((e :: b) ++ (h :: a)) :=
    IsRing.rotate (a := h :: a) (hrep.ring h _ hl)
  have hnd : (h :: a ++ e :: b).Nodup := hrep.nodup h _ hl
  rcases List.nodup_append.mp hnd with ⟨-, hndb, hdis⟩
  refine ⟨⟨?_, ?_⟩, ?_, ?_⟩
  · exact hring.closed ((getLast?_append_of_ne (e :: b) (List.cons_ne_nil h a)).trans hz) rfl
  · exact hdis z (List.mem_of_getLast? hz) e List.mem_cons_self
  · refine (IsRing.rotate (a := [e]) (b := b ++ h :: a) hring).closed List.getLast?_concat ?_
    cases b with
    | nil => exact hy
    | cons x b => exact hy
  · rcases List.mem_append.mp (List.mem_of_head? hy) with hmem | hmem
    · exact ne_of_mem_of_not_mem hmem (List.nodup_cons.mp hndb).1
    · rw [List.mem_singleton.mp hmem]
      exact hdis h List.mem_cons_self e List.mem_cons_self

theorem L2.Rep.delete (hrep : s.Rep k) (hl : k.q h = some l) (he : e ∈ l) :
    ∃ s', s.delete e = some s' ∧ s'.Rep ((k.put h (l2Delete l e)).put e []) := by
  rcases List.append_of_mem he with ⟨a, b, rfl⟩
  have hnd := (List.nodup_cons.mp (hrep.nodup h _ hl)).2
  have hea : e ∉ a := fun hmem => (List.nodup_append.mp hnd).2.2 e hmem e List.mem_cons_self rfl
  have herase : l2Delete (a ++ e :: b) e = a ++ b := by
    unfold l2Delete
    rw [List.erase_append_right _ hea, List.erase_cons_head]
  rcases exists_head b h with ⟨y, hy⟩
  have hz := List.getLast?_eq_some_getLast (List.cons_ne_nil h a)
  rcases hrep.around hl hy hz with ⟨⟨hze, hzne⟩, hey, hyne⟩
  refine ⟨_, ?_, herase ▸ hrep.unlink hl hy hz⟩
  unfold L2.delete
  simp only [hze.2, hey.1, Option.bind_eq_bind, Option.bind_some]
  exact congrArg (fun links => some { s with links := links }) (set_comm s.links hzne hyne)

omit [DecidableEq ν] in
theorem L2.Rep.alone (hrep : s.Rep k) (hx : k.q x = some []) :
    s.links.next x = some x ∧ s.links.prev x = some x :=
  (hrep.ring x [] hx).closed rfl rfl

/-- A second `L2_delete` of an element. -/
theorem L2.Rep.deleteAgain (hrep : s.Rep k) (he : k.q e = some []) :
    s.delete e = some s := by
  rcases hrep.alone he with ⟨hnext, hprev⟩
  unfold L2.delete Links.setNext Links.setPrev
  simp only [hnext, hprev, Option.bind_eq_bind, Option.bind_some, Function.update_idem]
  have hn := Function.update_eq_self e s.links.next
  have hp := Function.update_eq_self e s.links.prev
  rw [hnext] at hn
  rw [hprev] at hp
  rw [hn, hp]

theorem L2.Rep.removeNone (hrep : s.Rep k) (hh : k.q h = some []) :
    s.removeHead h = some (s, none) :=
  if_pos (hrep.alone hh).1

theorem L2.Rep.remove {b : List ν} (hrep : s.Rep k) (hl : k.q h = some (e :: b)) :
    ∃ s', s.removeHead h = some (s', k.priv e) ∧ s'.Rep ((k.put h b).put e []) := by
  rcases exists_head b h with ⟨y, hy⟩
  rcases hrep.around (a := []) (z := h) hl hy rfl with ⟨⟨hze, hzne⟩, hey, hyne⟩
  refine ⟨_, ?_, hrep.unlink (a := []) (z := h) hl hy rfl⟩
  unfold L2.removeHead
  rw [← hrep.priv, hze.1, if_neg (Ne.symm hzne ∘ Option.some.inj)]
  simp only [hey.1, Option.bind_eq_bind, Option.bind_some]
  exact congrArg (fun links => some ({ s with links := links }, s.priv e))
    (set_comm s.links hzne hyne)

/-- A cell that was on no ring gets one of its own. -/
theorem Queues.Ok.fresh (hok : k.Ok) (hh : k.Free h) : (k.put h []).Ok := by
  have hon : ∀ c x, (k.put h []).On c x → c = h ∧ x = h ∨ c ≠ h ∧ k.On c x := by
    rintro c x ⟨m, hm, hc⟩
    by_cases hx : x = h
    · rw [hx, k.put_q_self] at hm
      cases hm
      exact Or.inl ⟨(List.mem_singleton.mp hc).trans hx, hx⟩
    · rw [k.put_q [] hx] at hm
      exact Or.inr ⟨ne_of_mem_of_not_mem hc (hh.notMem (Ne.symm hx) hm), m, hm, hc⟩
  constructor
  · intro x m hm
    by_cases hx : x = h
    · rw [hx, k.put_q_self] at hm
      cases hm
      exact List.nodup_singleton x
    · rw [k.put_q [] hx] at hm
      exact hok.nodup x m hm
  · exact hok.one_of_on hon

theorem L2.Rep.init (hrep : s.Rep k) (hh : k.Free h) : (s.init h).Rep (k.put h []) := by
  refine ⟨hrep.toOk.fresh hh, hrep.priv, fun x m hm => ?_⟩
  by_cases hx : x = h
  · rw [hx, k.put_q_self] at hm
    cases hm
    rw [hx]
    exact (isSeg_singleton h).close (List.nodup_singleton h) rfl rfl
  · rw [k.put_q [] hx] at hm
    have hnot := hh.notMem (Ne.symm hx) hm
    exact (hrep.ring x m hm).set_of_notMem hnot hnot

/-- What comes behind a cell. -/
theorem L2.Rep.next {a b : List ν} (hrep : s.Rep k) (hl : k.q h = some l) (hne : l ≠ [])
    (hxy : h :: l ++ [h] = a ++ x :: y :: b) : s.next x = some (k.priv y) := by
  have hring := hrep.ring h l hl
  unfold IsRing at hring
  rw [List.head?_cons, Option.toList_some, hxy] at hring
  have hnd : (l ++ [h]).Nodup :=
    (List.perm_append_singleton h l).nodup_iff.mpr (hrep.nodup h l hl)
  have hyx : y ≠ x := by
    cases a with
    | nil =>
        rcases List.exists_cons_of_ne_nil hne with ⟨z, l, rfl⟩
        cases hxy
        rintro rfl
        exact (List.nodup_cons.mp (hrep.nodup y _ hl)).1 List.mem_cons_self
    | cons c a =>
        injection hxy with _ hxy
        rw [List.append_eq, List.append_eq] at hxy
        rw [hxy] at hnd
        rintro rfl
        have hnd := (List.nodup_append.mp hnd).2.1
        exact (List.nodup_cons.mp hnd).1 List.mem_cons_self
  unfold L2.next
  rw [hring.linked.1, if_neg (hyx ∘ Option.some.inj), hrep.priv]
  rfl

/-! ## Any calls -/

/-- A call does to the rings what it does to the lists. -/
theorem L2.Rep.step {op : L2Op ν π} {r : Option π} (hrep : s.Rep k) (hstep : k.Step op k' r) :
    ∃ s', s.call op = some (s', r) ∧ s'.Rep k' := by
  cases hstep with
  | init hh => exact ⟨_, rfl, hrep.init hh⟩
  | add p hl he hne =>
      rcases hrep.add (p := p) hl he hne with ⟨s', hs', hrep'⟩
      exact ⟨s', congrArg (Option.map fun s => (s, none)) hs', hrep'⟩
  | addHead p hl he hne =>
      rcases hrep.addHead (p := p) hl he hne with ⟨s', hs', hrep'⟩
      exact ⟨s', congrArg (Option.map fun s => (s, none)) hs', hrep'⟩
  | removeNone hl hr =>
      rw [l2RemoveHead_eq_none.mp hr] at hl
      exact ⟨s, hrep.removeNone hl, hrep⟩
  | remove hl hr =>
      rw [l2RemoveHead_eq_some.mp hr] at hl
      exact hrep.remove hl
  | delete hl he =>
      rcases hrep.delete hl he with ⟨s', hs', hrep'⟩
      exact ⟨s', congrArg (Option.map fun s => (s, none)) hs', hrep'⟩
  | deleteAgain he =>
      exact ⟨s, congrArg (Option.map fun s => (s, none)) (hrep.deleteAgain he), hrep⟩
  | nextNone hx =>
      exact ⟨s, congrArg (Option.map fun r => (s, r)) (if_pos (hrep.alone hx).1), hrep⟩
  | next hl hne hxy =>
      exact ⟨s, congrArg (Option.map fun r => (s, r)) (hrep.next hl hne hxy), hrep⟩

theorem L2.Rep.steps {ops : List (L2Op ν π)} {rs : List (Option π)} (hrep : s.Rep k)
    (hsteps : k.Steps ops k' rs) : ∃ s', s.run ops = some (s', rs) ∧ s'.Rep k' := by
  induction hsteps generalizing s with
  | nil k => exact ⟨s, rfl, hrep⟩
  | cons hstep _ ih =>
      rcases hrep.step hstep with ⟨s', hs', hrep'⟩
      rcases ih hrep' with ⟨s'', hs'', hrep''⟩
      refine ⟨s'', ?_, hrep''⟩
      unfold L2.run
      simp only [hs', hs'', Option.bind_eq_bind, Option.bind_some]

/-- `L2_next` from a cell of a ring: what is left of the list begins behind it. -/
theorem L2.Rep.next_at {a b : List ν} (hrep : s.Rep k) (hl : k.q h = some l)
    (hnone : k.priv h = none) (hx : h :: l = a ++ x :: b) :
    s.next x = some (b.head?.bind k.priv) := by
  by_cases hne : l = []
  · subst hne
    cases a with
    | nil =>
        cases hx
        exact if_pos (hrep.alone hl).1
    | cons z a => exact absurd (congrArg List.length hx) (by simp)
  cases b with
  | nil =>
      have hxy : h :: l ++ [h] = a ++ x :: h :: [] := by
        rw [hx, List.append_assoc]
        rfl
      exact (hrep.next hl hne hxy).trans (congrArg some hnone)
  | cons y b =>
      have hxy : h :: l ++ [h] = a ++ x :: y :: (b ++ [h]) := by
        rw [hx, List.append_assoc]
        rfl
      exact hrep.next hl hne hxy

/-- `L2_next` from the head on, and from there on. -/
theorem L2.Rep.walk (hrep : s.Rep k) (hl : k.q h = some l) (hnone : s.priv h = none) :
    (h :: l).map s.next = (l.map fun e => some (s.priv e)) ++ [some none] := by
  rw [hrep.priv] at hnone ⊢
  -- what is still to come, behind any first part
  have hrest : ∀ (b a : List ν) (x : ν), h :: l = a ++ x :: b →
      (x :: b).map s.next = (b.map fun e => some (k.priv e)) ++ [some none] := by
    intro b
    induction b with
    | nil => exact fun a x hx => congrArg (· :: []) (hrep.next_at hl hnone hx)
    | cons y b ih =>
        intro a x hx
        have hrest := ih (a ++ [x]) y (by rw [hx, List.append_assoc]; rfl)
        exact congrArg₂ List.cons (hrep.next_at hl hnone hx) hrest
  exact hrest l [] h rfl

/-- The rings are the lists: any calls of which none adds an element that is on a ring do
    to the rings what they do to the lists and return the same, and `L2_next` from a head
    on comes by each element of its list. -/
theorem l2_refines {ops : List (L2Op ν π)} {rs : List (Option π)} (hrep : s.Rep k)
    (hsteps : k.Steps ops k' rs) :
    ∃ s', s.run ops = some (s', rs) ∧ s'.Rep k' ∧
      ∀ h l, k'.q h = some l → s'.priv h = none →
        (h :: l).map s'.next = (l.map fun e => some (s'.priv e)) ++ [some none] := by
  rcases hrep.steps hsteps with ⟨s', hs', hrep'⟩
  exact ⟨s', hs', hrep', fun h l hl hnone => hrep'.walk hl hnone⟩

/-- A heap of which every cell is the head of an empty list. -/
def L2.alone : L2 Nat Nat := ⟨⟨some, some⟩, fun _ => none⟩

def Queues.empty : Queues Nat Nat := ⟨fun _ => some [], fun _ => none⟩

theorem L2.alone_rep : L2.alone.Rep Queues.empty where
  nodup := by
    rintro x l ⟨⟩
    exact List.nodup_singleton x
  one := by
    rintro c x y ⟨l, ⟨⟩, hc⟩ ⟨m, ⟨⟩, hc'⟩
    exact (List.mem_singleton.mp hc).symm.trans (List.mem_singleton.mp hc')
  priv := rfl
  ring := by
    rintro x l ⟨⟩
    exact isRing_iff.mpr ⟨isSeg_singleton x, by rintro y ⟨⟩ z ⟨⟩; exact ⟨rfl, rfl⟩⟩

/-- An element is added, comes behind the head, and is deleted twice. -/
theorem l2_refines_twice : ∃ s' k', L2.alone.run
    [.add 0 1 (some 7), .next 0, .delete 1, .delete 1, .removeHead 0] =
      some (s', [none, some 7, none, none, none]) ∧ s'.Rep k' := by
  have hfree : Queues.empty.Free 1 := by
    rintro x l ⟨⟩ hx
    exact ⟨(List.mem_singleton.mp hx).symm, rfl⟩
  have hsteps := Queues.Steps.cons (.add (some 7) (h := 0) rfl hfree (by decide))
    (.cons (.next (h := 0) (l := [1]) (a := []) (y := 1) (b := [0]) rfl (by decide) rfl)
      (.cons (.delete (h := 0) (l := [1]) (e := 1) rfl (by decide))
        (.cons (.deleteAgain (e := 1) rfl)
          (.cons (.removeNone (h := 0) (l := []) rfl rfl) (.nil _)))))
  rcases l2_refines L2.alone_rep hsteps with ⟨s', hs', hrep, -⟩
  exact ⟨s', _, hs', hrep⟩

end Ghd

end Sil3112
