import Mathlib.Data.List.Chain
import Mathlib.Data.List.Nodup
import Mathlib.Data.List.Rotate
import Mathlib.Logic.Function.Basic

/-!
# Doubly Linked Rings

Cells with a pointer to the next and to the previous one, and lists whose cells are
linked into a ring in this order. Every operation on rings comes down to linking one
cell to another (`Links.set`): two rings are spliced by linking the last cell of each
to the first of the other, and a ring is cut in two by linking the last cell of each
part to the first of the same part. A single cell that is put in or taken out is a
ring of its own.

A list that is linked but not closed is a segment. What a splice or a cut makes of the
ends of a segment does not matter to what is between them (`IsSeg.set`).

## Main definitions

* `Links`: The two pointers of every cell.
* `Links.set`: Two cells linked to each other.
* `IsSeg`, `IsRing`: A list that is linked, and one that is closed as well.

## Theorems

* `isRing_iff`: A ring is a segment whose ends are linked.
* `IsRing.rotate`, `IsRing.of_isRotated`: A ring may be read from any cell on.
* `IsRing.exists_next`, `IsRing.exists_prev`: No pointer leaves a ring.
* `IsRing.unique`: From a given cell on, the pointers leave no choice.
* `IsSeg.splice`, `IsSeg.cut`: Two segments become one ring, or two.
* `IsRing.insert_last`, `IsRing.insert_first`, `IsRing.unlink`: One cell put in or
  taken out.
* `IsRing.congr`: A ring depends on its own cells only.
-/

namespace Rings

universe u

variable {ν : Type u}

/-- The pointers of the cells. -/
structure Links (ν : Type u) where
  next : ν → Option ν
  prev : ν → Option ν

/-- `y` comes right behind `x`. -/
def Links.Linked (s : Links ν) (x y : ν) : Prop :=
  s.next x = some y ∧ s.prev y = some x

/-- The cells of a list are linked in its order. -/
def IsSeg (s : Links ν) (c : List ν) : Prop :=
  c.IsChain s.Linked

/-- The cells of a list are linked in its order, and the last one to the first. -/
def IsRing (s : Links ν) (c : List ν) : Prop :=
  IsSeg s (c ++ c.head?.toList)

section

variable [DecidableEq ν]

/-- The next pointer of a cell is written. -/
def Links.setNext (s : Links ν) (x : ν) (o : Option ν) : Links ν :=
  { s with next := Function.update s.next x o }

/-- The previous pointer of a cell is written. -/
def Links.setPrev (s : Links ν) (x : ν) (o : Option ν) : Links ν :=
  { s with prev := Function.update s.prev x o }

/-- `y` is linked behind `x`. -/
def Links.set (s : Links ν) (x y : ν) : Links ν :=
  (s.setNext x (some y)).setPrev y (some x)

end

variable {s s' : Links ν} {a b c : List ν} {x y z u v : ν}

/-! ## Segments and rings -/

theorem isSeg_nil : IsSeg s [] := List.isChain_nil

theorem isSeg_singleton (x : ν) : IsSeg s [x] := List.isChain_singleton x

theorem isSeg_cons_cons : IsSeg s (x :: y :: c) ↔ s.Linked x y ∧ IsSeg s (y :: c) :=
  List.isChain_cons_cons

theorem isSeg_append : IsSeg s (a ++ b) ↔
    IsSeg s a ∧ IsSeg s b ∧ ∀ x ∈ a.getLast?, ∀ y ∈ b.head?, s.Linked x y :=
  List.isChain_append

/-- A ring is a segment whose ends are linked. -/
theorem isRing_iff : IsRing s c ↔
    IsSeg s c ∧ ∀ x ∈ c.getLast?, ∀ y ∈ c.head?, s.Linked x y := by
  unfold IsRing
  rw [isSeg_append]
  cases c with
  | nil => simp [isSeg_nil]
  | cons x c => simp [isSeg_singleton]

theorem IsRing.seg (h : IsRing s c) : IsSeg s c := (isRing_iff.mp h).1

theorem isRing_nil : IsRing s [] := isSeg_nil

theorem IsRing.closed (h : IsRing s c) (hx : c.getLast? = some x) (hy : c.head? = some y) :
    s.Linked x y :=
  (isRing_iff.mp h).2 x hx y hy

/-- The cell behind another one. -/
theorem IsSeg.linked (h : IsSeg s (a ++ x :: y :: b)) : s.Linked x y := by
  rw [isSeg_append] at h
  exact (isSeg_cons_cons.mp h.2.1).1

theorem getLast?_append_of_ne (a : List ν) (h : b ≠ []) : (a ++ b).getLast? = b.getLast? := by
  rw [List.getLast?_append, List.getLast?_eq_some_getLast h, Option.some_or]

/-- A ring may be read from any cell on. -/
theorem IsRing.rotate (h : IsRing s (a ++ b)) : IsRing s (b ++ a) := by
  by_cases ha : a = []
  · rw [ha] at h ⊢
    rwa [List.append_nil]
  by_cases hb : b = []
  · rw [hb] at h ⊢
    rwa [List.append_nil] at h
  rw [isRing_iff, isSeg_append, getLast?_append_of_ne a hb, List.head?_append_of_ne_nil a ha] at h
  rw [isRing_iff, isSeg_append, getLast?_append_of_ne b ha, List.head?_append_of_ne_nil b hb]
  exact ⟨⟨h.1.2.1, h.1.1, h.2⟩, h.1.2.2⟩

theorem exists_append_of_isRotated (h : a.IsRotated b) : ∃ l r, a = l ++ r ∧ b = r ++ l := by
  rcases List.isRotated_iff_mod.mp h with ⟨n, hn, rfl⟩
  exact ⟨a.take n, a.drop n, (List.take_append_drop n a).symm, List.rotate_eq_drop_append_take hn⟩

theorem IsRing.of_isRotated (h : IsRing s a) (hr : a.IsRotated b) : IsRing s b := by
  rcases exists_append_of_isRotated hr with ⟨l, r, rfl, rfl⟩
  exact h.rotate

theorem exists_isRotated_cons (hx : x ∈ c) : ∃ c', c.IsRotated (x :: c') := by
  rcases List.append_of_mem hx with ⟨l, r, rfl⟩
  exact ⟨r ++ l, List.isRotated_append⟩

/-- Where one cell comes right behind another in a ring, the ring may be read from
    there on. -/
theorem exists_isRotated_between (h : c ++ c.head?.toList = a ++ x :: y :: b) :
    ∃ m, c.IsRotated m ∧ m.getLast? = some x ∧ m.head? = some y := by
  cases c with
  | nil => exact absurd (congrArg List.length h) (by simp)
  | cons z c =>
      rw [List.head?_cons, Option.toList_some] at h
      rcases List.eq_nil_or_concat' b with rfl | ⟨b, w, rfl⟩
      · -- `y` is the first cell again
        have hsplit : z :: c ++ [z] = (a ++ [x]) ++ [y] := by simpa using h
        rcases List.append_inj' hsplit rfl with ⟨hc, hy⟩
        refine ⟨z :: c, List.IsRotated.refl _, ?_, ?_⟩
        · rw [hc, List.getLast?_concat]
        · rw [List.head?_cons, List.singleton_inj.mp hy]
      · have hsplit : z :: c ++ [z] = (a ++ x :: y :: b) ++ [w] := by simpa using h
        rcases List.append_inj' hsplit rfl with ⟨hc, -⟩
        refine ⟨(y :: b) ++ (a ++ [x]), ?_, ?_, rfl⟩
        · rw [hc, show a ++ x :: y :: b = (a ++ [x]) ++ (y :: b) by simp]
          exact List.isRotated_append
        · rw [← List.append_assoc, List.getLast?_concat]

/-- The pointers of a cell lead to cells of the same ring. -/
theorem IsRing.exists_next (h : IsRing s c) (hx : x ∈ c) : ∃ y ∈ c, s.Linked x y := by
  rcases exists_isRotated_cons hx with ⟨c', hr⟩
  have hring := h.of_isRotated hr
  cases c' with
  | nil => exact ⟨x, hx, hring.closed rfl rfl⟩
  | cons y c' => exact ⟨y, hr.mem_iff.mpr (by simp), (isSeg_cons_cons.mp hring.seg).1⟩

theorem IsRing.exists_prev (h : IsRing s c) (hx : x ∈ c) : ∃ z ∈ c, s.Linked z x := by
  rcases exists_isRotated_cons hx with ⟨c', hr⟩
  have hlast := List.getLast?_eq_some_getLast (List.cons_ne_nil x c')
  exact ⟨_, hr.mem_iff.mpr (List.getLast_mem _), (h.of_isRotated hr).closed hlast rfl⟩

/-- Two segments that start at one cell and end where they first meet another one are
    the same. -/
theorem IsSeg.unique (ha : IsSeg s (x :: (a ++ [z]))) (hb : IsSeg s (x :: (b ++ [z])))
    (hza : z ∉ a) (hzb : z ∉ b) : a = b := by
  induction a generalizing x b with
  | nil =>
      cases b with
      | nil => rfl
      | cons y b =>
          -- the pointer of `x` leads to `z`, and so `z` is in `b`
          have h := (isSeg_cons_cons.mp ha).1.1.symm.trans (isSeg_cons_cons.mp hb).1.1
          exact absurd (Option.some.inj h) (fun h => hzb (h ▸ List.mem_cons_self))
  | cons y a ih =>
      cases b with
      | nil =>
          have h := (isSeg_cons_cons.mp ha).1.1.symm.trans (isSeg_cons_cons.mp hb).1.1
          exact absurd (Option.some.inj h) (fun h => hza (h ▸ List.mem_cons_self))
      | cons y' b =>
          have h := (isSeg_cons_cons.mp ha).1.1.symm.trans (isSeg_cons_cons.mp hb).1.1
          cases Option.some.inj h
          rw [ih (isSeg_cons_cons.mp ha).2 (isSeg_cons_cons.mp hb).2
            (fun h => hza (List.mem_cons_of_mem y h)) fun h => hzb (List.mem_cons_of_mem y h)]

/-- From a given cell on, the pointers leave no choice. -/
theorem IsRing.unique (ha : IsRing s a) (hb : IsRing s b) (hnda : a.Nodup) (hndb : b.Nodup)
    (hhead : a.head? = b.head?) : a = b := by
  cases a with
  | nil =>
      cases b with
      | nil => rfl
      | cons y b => cases hhead
  | cons x a =>
      cases b with
      | nil => cases hhead
      | cons y b =>
          cases hhead
          exact congrArg (x :: ·) (IsSeg.unique ha hb (List.nodup_cons.mp hnda).1
            (List.nodup_cons.mp hndb).1)

/-- What is linked depends on the next pointers of the cells but the last, and on the
    previous ones of the cells but the first. -/
theorem IsSeg.congr (h : IsSeg s c) (hnext : ∀ x ∈ c.dropLast, s'.next x = s.next x)
    (hprev : ∀ x ∈ c.tail, s'.prev x = s.prev x) : IsSeg s' c := by
  induction c with
  | nil => exact isSeg_nil
  | cons x c ih =>
      cases c with
      | nil => exact isSeg_singleton x
      | cons y c =>
          rw [isSeg_cons_cons] at h ⊢
          refine ⟨⟨?_, ?_⟩, ih h.2 (fun z hz => hnext z ?_) fun z hz => hprev z ?_⟩
          · rw [hnext x (by simp)]
            exact h.1.1
          · rw [hprev y (by simp)]
            exact h.1.2
          · rw [List.dropLast_cons_cons]
            exact List.mem_cons_of_mem x hz
          · exact List.mem_cons_of_mem y hz

/-- A ring depends on its own cells only. -/
theorem IsRing.congr (h : IsRing s c) (hnext : ∀ x ∈ c, s'.next x = s.next x)
    (hprev : ∀ x ∈ c, s'.prev x = s.prev x) : IsRing s' c := by
  refine isRing_iff.mpr ⟨h.seg.congr (fun x hx => hnext x (List.dropLast_subset c hx))
    fun x hx => hprev x (List.mem_of_mem_tail hx), fun x hx y hy => ?_⟩
  rcases h.closed hx hy with ⟨h1, h2⟩
  exact ⟨(hnext x (List.mem_of_getLast? hx)).trans h1, (hprev y (List.mem_of_head? hy)).trans h2⟩

section

variable [DecidableEq ν]

/-! ## Splices and cuts -/

@[simp] theorem setNext_next (s : Links ν) (x : ν) (o : Option ν) :
    (s.setNext x o).next = Function.update s.next x o := rfl

@[simp] theorem setNext_prev (s : Links ν) (x : ν) (o : Option ν) :
    (s.setNext x o).prev = s.prev := rfl

@[simp] theorem setPrev_next (s : Links ν) (x : ν) (o : Option ν) :
    (s.setPrev x o).next = s.next := rfl

@[simp] theorem setPrev_prev (s : Links ν) (x : ν) (o : Option ν) :
    (s.setPrev x o).prev = Function.update s.prev x o := rfl

@[simp] theorem set_next (s : Links ν) (x y : ν) :
    (s.set x y).next = Function.update s.next x (some y) := rfl

@[simp] theorem set_prev (s : Links ν) (x y : ν) :
    (s.set x y).prev = Function.update s.prev y (some x) := rfl

theorem linked_set (s : Links ν) (x y : ν) : (s.set x y).Linked x y :=
  ⟨Function.update_self .., Function.update_self ..⟩

/-- A segment stays one if its last cell is linked to another, or another to its
    first. -/
theorem IsSeg.set (h : IsSeg s c) (hnd : c.Nodup) (hu : u ∉ c ∨ c.getLast? = some u)
    (hv : v ∉ c ∨ c.head? = some v) : IsSeg (s.set u v) c := by
  refine h.congr (fun x hx => Function.update_of_ne (fun hxu => ?_) ..)
    fun x hx => Function.update_of_ne (fun hxv => ?_) ..
  · subst hxu
    rcases hu with hu | hu
    · exact hu (List.dropLast_subset c hx)
    · -- the last cell is not among the others
      have hne : c ≠ [] := List.ne_nil_of_mem (List.dropLast_subset c hx)
      have hlast := List.getLast?_eq_some_getLast hne
      rw [hu] at hlast
      have hsplit := List.dropLast_append_getLast hne
      rw [← Option.some.inj hlast] at hsplit
      rw [← hsplit] at hnd
      exact (List.nodup_append.mp hnd).2.2 x hx x List.mem_cons_self rfl
  · subst hxv
    rcases hv with hv | hv
    · exact hv (List.mem_of_mem_tail hx)
    · cases c with
      | nil => cases hv
      | cons y c =>
          cases hv
          exact (List.nodup_cons.mp hnd).1 hx

/-- Its ends linked, a segment is a ring. -/
theorem IsSeg.close (h : IsSeg s c) (hnd : c.Nodup) (hlast : c.getLast? = some u)
    (hhead : c.head? = some v) : IsRing (s.set u v) c := by
  refine isRing_iff.mpr ⟨h.set hnd (Or.inr hlast) (Or.inr hhead), fun x hx y hy => ?_⟩
  rw [hlast] at hx
  rw [hhead] at hy
  cases hx
  cases hy
  exact linked_set s u v

theorem IsRing.set_of_notMem (h : IsRing s c) (hu : u ∉ c) (hv : v ∉ c) : IsRing (s.set u v) c :=
  h.congr (fun _ hx => Function.update_of_ne (ne_of_mem_of_not_mem hx hu) ..)
    fun _ hx => Function.update_of_ne (ne_of_mem_of_not_mem hx hv) ..

theorem set_comm (s : Links ν) {x' y' : ν} (hx : x ≠ x') (hy : y ≠ y') :
    (s.set x y).set x' y' = (s.set x' y').set x y :=
  congrArg₂ Links.mk (Function.update_comm hx ..) (Function.update_comm hy ..)

/-- Two segments become one ring when the last cell of each is linked to the first of
    the other. -/
theorem IsSeg.splice {xa la xb lb : ν} (ha : IsSeg s a) (hb : IsSeg s b) (hnd : (a ++ b).Nodup)
    (hxa : a.head? = some xa) (hla : a.getLast? = some la) (hxb : b.head? = some xb)
    (hlb : b.getLast? = some lb) : IsRing ((s.set la xb).set lb xa) (a ++ b) := by
  rcases List.nodup_append.mp hnd with ⟨hnda, hndb, hdis⟩
  have hseg : IsSeg (s.set la xb) (a ++ b) := by
    refine isSeg_append.mpr ⟨ha.set hnda (Or.inr hla) (Or.inl fun h => ?_),
      hb.set hndb (Or.inl fun h => ?_) (Or.inr hxb), fun x hx y hy => ?_⟩
    · exact hdis xb h xb (List.mem_of_head? hxb) rfl
    · exact hdis la (List.mem_of_getLast? hla) la h rfl
    · rw [hla] at hx
      rw [hxb] at hy
      cases hx
      cases hy
      exact linked_set s la xb
  refine hseg.close hnd ?_ ?_
  · rw [getLast?_append_of_ne a (List.ne_nil_of_mem (List.mem_of_head? hxb)), hlb]
  · rw [List.head?_append_of_ne_nil a (List.ne_nil_of_mem (List.mem_of_head? hxa)), hxa]

/-- A segment becomes two rings when the last cell of each part is linked to the first
    of the same part. -/
theorem IsSeg.cut {xa la xb lb : ν} (h : IsSeg s (a ++ b)) (hnd : (a ++ b).Nodup)
    (hxa : a.head? = some xa) (hla : a.getLast? = some la) (hxb : b.head? = some xb)
    (hlb : b.getLast? = some lb) :
    IsRing ((s.set la xa).set lb xb) a ∧ IsRing ((s.set la xa).set lb xb) b := by
  rcases List.nodup_append.mp hnd with ⟨hnda, hndb, hdis⟩
  rcases isSeg_append.mp h with ⟨ha, hb, -⟩
  constructor
  · refine (ha.close hnda hla hxa).set_of_notMem (fun hm => ?_) fun hm => ?_
    · exact hdis lb hm lb (List.mem_of_getLast? hlb) rfl
    · exact hdis xb hm xb (List.mem_of_head? hxb) rfl
  · refine (hb.set hndb (Or.inl fun hm => ?_) (Or.inl fun hm => ?_)).close hndb hlb hxb
    · exact hdis la (List.mem_of_getLast? hla) la hm rfl
    · exact hdis xa (List.mem_of_head? hxa) xa hm rfl

/-! ## Single cells -/

/-- A cell is put in at the end. -/
theorem IsRing.insert_last {e la : ν} (h : IsRing s (x :: c)) (hnd : (x :: c).Nodup)
    (he : e ∉ x :: c) (hla : (x :: c).getLast? = some la) :
    IsRing ((s.set la e).set e x) (x :: c ++ [e]) :=
  h.seg.splice (isSeg_singleton e)
    (List.nodup_append.mpr ⟨hnd, List.nodup_singleton e, fun u hu v hv => by
      rw [List.mem_singleton.mp hv]
      exact ne_of_mem_of_not_mem hu he⟩) rfl hla rfl rfl

/-- A cell is put in behind the first one. -/
theorem IsRing.insert_first {e y : ν} (h : IsRing s (x :: c)) (hnd : (x :: c).Nodup)
    (he : e ∉ x :: c) (hy : (c ++ [x]).head? = some y) :
    IsRing ((s.set x e).set e y) (x :: e :: c) := by
  have hrot : IsRing s (c ++ [x]) := IsRing.rotate (a := [x]) h
  have hperm : (c ++ [x] ++ [e]).Perm (e :: x :: c) :=
    (List.perm_append_singleton e _).trans (List.Perm.cons e (List.perm_append_singleton x c))
  have hring := hrot.seg.splice (isSeg_singleton e)
    (hperm.nodup_iff.mpr (List.nodup_cons.mpr ⟨he, hnd⟩)) hy List.getLast?_concat rfl rfl
  rw [List.append_assoc] at hring
  exact IsRing.rotate hring

/-- The first cell is taken out. -/
theorem IsRing.unlink {e y z : ν} (h : IsRing s (e :: c)) (hnd : (e :: c).Nodup)
    (hy : c.head? = some y) (hz : c.getLast? = some z) :
    IsRing ((s.set e e).set z y) [e] ∧ IsRing ((s.set e e).set z y) c :=
  IsSeg.cut (a := [e]) h.seg hnd rfl rfl hy hz

end

end Rings
