import Mathlib.Data.List.Chain
import Mathlib.Data.List.Rotate
import Mathlib.Order.Lattice

/-!
# Descents of Cyclic Lists

How often the key goes down from one element of a list to the next. A list that is read
as a cycle, so that its first element follows its last one, is sorted when this happens
at most once: it ascends from some element on until that element is reached again.

An element that is put between two others changes the number only by what is at this
place, and one that is taken out never raises it.

## Main definitions

* `drop`: Whether the key goes down from one element to another.
* `descents`: How often it does along a list.
* `cyc`: How often it does around a cycle.

## Theorems

* `cyc_of_isRotated`: A cycle may be read from any element on.
* `cyc_concat`: An element put into a cycle.
* `cyc_le_cons`: An element taken out of a cycle.
* `cyc_eq_zero_iff`: No descent at all means a single key.
-/

namespace Descents

universe u v

variable {α : Type u} {κ : Type v} [LinearOrder κ] (f : α → κ)

/-- 1 if the key goes down from `x` to `y`, and 0 if not. -/
def drop (x y : α) : Nat :=
  if f y < f x then 1 else 0

/-- How often the key goes down along a list. -/
def descents : List α → Nat
  | x :: y :: l => drop f x y + descents (y :: l)
  | _ => 0

/-- How often the key goes down around a cycle. -/
def cyc (l : List α) : Nat :=
  descents f (l ++ l.head?.toList)

variable {f}

/-! ## Single steps -/

theorem drop_eq_zero {x y : α} : drop f x y = 0 ↔ f x ≤ f y := by
  simp [drop]

theorem drop_of_lt {x y : α} (h : f y < f x) : drop f x y = 1 :=
  if_pos h

theorem drop_of_le {x y : α} (h : f x ≤ f y) : drop f x y = 0 :=
  drop_eq_zero.mpr h

/-- A step down by way of a third element has a step down in it. -/
theorem drop_triangle (x y z : α) : drop f x z ≤ drop f x y + drop f y z := by
  by_cases hxy : f x ≤ f y
  · by_cases hyz : f y ≤ f z
    · rw [drop_of_le (hxy.trans hyz)]
      exact Nat.zero_le _
    · rw [drop_of_lt (not_le.mp hyz)]
      unfold drop
      split <;> omega
  · rw [drop_of_lt (not_le.mp hxy)]
    unfold drop
    split <;> omega

/-! ## Lists -/

theorem descents_append (a b : List α) (x : α) :
    descents f (a ++ x :: b) = descents f (a ++ [x]) + descents f (x :: b) := by
  induction a with
  | nil => simp [descents]
  | cons y a ih =>
      cases a with
      | nil => simp [descents]
      | cons z a =>
          simp only [List.cons_append, descents] at ih ⊢
          omega

theorem descents_concat {a : List α} {x : α} (h : a.getLast? = some x) (y : α) :
    descents f (a ++ [y]) = descents f a + drop f x y := by
  have hne : a ≠ [] := List.ne_nil_of_mem (List.mem_of_getLast? h)
  have hsplit := List.dropLast_append_getLast hne
  rw [List.getLast?_eq_some_getLast hne] at h
  rw [Option.some.inj h] at hsplit
  rw [← hsplit, List.append_assoc, List.singleton_append, descents_append]
  rfl

theorem descents_eq_zero_iff {a : List α} :
    descents f a = 0 ↔ a.IsChain (fun x y => f x ≤ f y) := by
  induction a with
  | nil => simp [descents]
  | cons x a ih =>
      cases a with
      | nil => simp [descents]
      | cons y a =>
          rw [List.isChain_cons_cons, ← ih, ← drop_eq_zero]
          exact Nat.add_eq_zero_iff

theorem descents_congr {g : α → κ} {a : List α} (h : ∀ x ∈ a, f x = g x) :
    descents f a = descents g a := by
  induction a with
  | nil => rfl
  | cons x a ih =>
      cases a with
      | nil => rfl
      | cons y a =>
          rw [descents, descents, ih fun z hz => h z (List.mem_cons_of_mem x hz), drop, drop,
            h x (by simp), h y (by simp)]

/-! ## Cycles -/

/-- Only the keys of the elements count. -/
theorem cyc_congr {g : α → κ} {a : List α} (h : ∀ x ∈ a, f x = g x) : cyc f a = cyc g a := by
  refine descents_congr fun x hx => h x ?_
  rcases List.mem_append.mp hx with hx | hx
  · exact hx
  · exact List.mem_of_head? (Option.mem_toList.mp hx)

theorem cyc_eq {a : List α} {x y : α} (hx : a.getLast? = some x) (hy : a.head? = some y) :
    cyc f a = descents f a + drop f x y := by
  unfold cyc
  rw [hy]
  exact descents_concat hx y

theorem cyc_append_comm (a b : List α) : cyc f (a ++ b) = cyc f (b ++ a) := by
  cases a with
  | nil => rw [List.nil_append, List.append_nil]
  | cons x a =>
      cases b with
      | nil => rw [List.nil_append, List.append_nil]
      | cons y b =>
          -- from `x` to `y` and from `y` to `x`, in both orders
          have h (x y : α) (a b : List α) : cyc f ((x :: a) ++ (y :: b)) =
              descents f ((x :: a) ++ [y]) + descents f ((y :: b) ++ [x]) := by
            unfold cyc
            rw [List.append_assoc]
            exact descents_append (x :: a) (b ++ [x]) y
          rw [h, h, Nat.add_comm]

/-- A cycle may be read from any element on. -/
theorem cyc_of_isRotated {a b : List α} (h : a.IsRotated b) : cyc f a = cyc f b := by
  rcases List.isRotated_iff_mod.mp h with ⟨n, hn, rfl⟩
  rw [List.rotate_eq_drop_append_take hn, cyc_append_comm, List.take_append_drop]

/-- What an element that is put between the last and the first changes. -/
theorem cyc_concat {a : List α} {x y : α} (hx : a.getLast? = some x) (hy : a.head? = some y)
    (b : α) : cyc f (a ++ [b]) + drop f x y = cyc f a + (drop f x b + drop f b y) := by
  have hne : a ≠ [] := List.ne_nil_of_mem (List.mem_of_head? hy)
  have hlast : (a ++ [b]).getLast? = some b := List.getLast?_concat
  have hhead : (a ++ [b]).head? = some y := (List.head?_append_of_ne_nil a hne).trans hy
  rw [cyc_eq hlast hhead, cyc_eq hx hy, descents_concat hx]
  omega

/-- Nothing gets worse when an element is taken out. -/
theorem cyc_le_cons (b : α) (a : List α) : cyc f a ≤ cyc f (b :: a) := by
  cases a with
  | nil => exact Nat.zero_le _
  | cons y a =>
      have hx := List.getLast?_eq_some_getLast (List.cons_ne_nil y a)
      have h := cyc_concat (f := f) hx rfl b
      have htri := drop_triangle (f := f) ((y :: a).getLast (List.cons_ne_nil y a)) b y
      rw [cyc_of_isRotated (List.isRotated_concat b (y :: a))] at h
      omega

/-- No descent at all means a single key. -/
theorem cyc_eq_zero_iff {a : List α} : cyc f a = 0 ↔ ∀ x ∈ a, ∀ y ∈ a, f x = f y := by
  constructor
  · intro h x hx y hy
    -- from `x` on the key does not go down, until `x` is reached again
    rcases List.append_of_mem hx with ⟨l, r, rfl⟩
    rw [cyc_append_comm, List.cons_append] at h
    have hmem : y = x ∨ y ∈ r ++ l := by
      rw [List.mem_append, List.mem_cons] at hy
      rw [List.mem_append]
      tauto
    rcases hmem with rfl | hmem
    · rfl
    have hpair := ((List.isChain_map f).mpr (descents_eq_zero_iff.mp h)).pairwise
    rw [List.head?_cons, Option.toList_some, List.pairwise_map, List.cons_append,
      List.pairwise_cons, List.pairwise_append] at hpair
    exact le_antisymm (hpair.1 y (List.mem_append_left _ hmem))
      (hpair.2.2.2 y hmem x (List.mem_singleton_self x))
  · intro h
    refine descents_eq_zero_iff.mpr (List.Pairwise.isChain ?_)
    have hmem : ∀ x ∈ a ++ a.head?.toList, x ∈ a := fun x hx => by
      rcases List.mem_append.mp hx with hx | hx
      · exact hx
      · exact List.mem_of_head? (Option.mem_toList.mp hx)
    exact List.pairwise_of_forall_mem_list fun x hx y hy => (h x (hmem x hx) y (hmem y hy)).le

end Descents
