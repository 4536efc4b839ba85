import Mathlib.Data.List.Nodup
import Mathlib.Algebra.BigOperators.Group.List.Basic
import Mathlib.Algebra.Order.Ring.Int

/-!
# Extents

Runs of consecutive cells, given by a start and a length, and sequences of
them. A transfer is split into extents, and an extent is remapped by moving
it, so what is needed is how the cells of an extent split, how they move, and
how many of them a sequence of extents has.

Lengths are integers, as they are in the programs that compute them, and an
extent of negative length has no cells.

## Main definitions

* `cells`: The cells of one extent.
* `cover`: The cells of a sequence of extents, left to right.
* `size`: The length of a sequence of extents.

## Theorems

* `cells_split`: An extent splits anywhere.
* `map_cells`: A map that moves every cell of an extent alike moves the extent.
* `length_cover`: Extents of non-negative length have as many cells as they
  say.
-/

namespace Extent

/-- The cells of an extent. -/
def cells (s n : Int) : List Int :=
  (List.range n.toNat).map fun k : Nat => s + k

/-- The cells of a sequence of extents, left to right. -/
def cover (l : List (Int × Int)) : List Int :=
  l.flatMap fun e => cells e.1 e.2

/-- The length of a sequence of extents. -/
def size (l : List (Int × Int)) : Int :=
  (l.map Prod.snd).sum

theorem length_cells (s n : Int) : (cells s n).length = n.toNat := by
  unfold cells
  rw [List.length_map, List.length_range]

theorem mem_cells {s n x : Int} : x ∈ cells s n ↔ s ≤ x ∧ x < s + n := by
  unfold cells
  rw [List.mem_map]
  constructor
  · intro h
    rcases h with ⟨k, hk, hx⟩
    have hlt := List.mem_range.1 hk
    omega
  · intro h
    refine ⟨(x - s).toNat, List.mem_range.2 ?_, ?_⟩ <;> omega

theorem cells_of_nonpos {s n : Int} (h : n ≤ 0) : cells s n = [] := by
  unfold cells
  rw [Int.toNat_of_nonpos h]
  rfl

theorem nodup_cells (s n : Int) : (cells s n).Nodup := by
  unfold cells
  refine List.nodup_range.map fun a b hab => ?_
  omega

/-- An extent that is not empty begins with its first cell. -/
theorem cells_eq_cons (s : Int) {n : Int} (hn : 0 < n) : ∃ l, cells s n = s :: l := by
  obtain ⟨k, hk⟩ : ∃ k, n.toNat = k + 1 := ⟨n.toNat - 1, by omega⟩
  unfold cells
  rw [hk, List.range_succ_eq_map, List.map_cons]
  exact ⟨_, congrArg (· :: _) (Int.add_zero s)⟩

/-- An extent splits anywhere. -/
theorem cells_split (s : Int) {m n : Int} (hm : 0 ≤ m) (hn : 0 ≤ n) :
    cells s (m + n) = cells s m ++ cells (s + m) n := by
  unfold cells
  rw [Int.toNat_add hm hn, List.range_add, List.map_append, List.map_map]
  refine congrArg _ (List.map_congr_left fun k _ => ?_)
  have hmm := Int.toNat_of_nonneg hm
  simp only [Function.comp_apply]
  omega

/-- A map that moves every cell of an extent alike moves the extent. -/
theorem map_cells {f : Int → Int} {s n t : Int} (h : ∀ x ∈ cells s n, f x = t + (x - s)) :
    (cells s n).map f = cells t n := by
  have hc : cells t n = (cells s n).map fun x => t + (x - s) := by
    unfold cells
    rw [List.map_map]
    refine List.map_congr_left fun k _ => ?_
    simp only [Function.comp_apply]
    omega
  rw [hc]
  exact List.map_congr_left h

/-- A map that moves no cell of an extent leaves it alone. -/
theorem map_cells_id {f : Int → Int} {s n : Int} (h : ∀ x ∈ cells s n, f x = x) :
    (cells s n).map f = cells s n := by
  refine map_cells fun x hx => ?_
  rw [h x hx]
  omega

@[simp] theorem cover_nil : cover [] = [] :=
  rfl

@[simp] theorem cover_cons (e : Int × Int) (l : List (Int × Int)) :
    cover (e :: l) = cells e.1 e.2 ++ cover l :=
  List.flatMap_cons

@[simp] theorem cover_append (l l' : List (Int × Int)) :
    cover (l ++ l') = cover l ++ cover l' :=
  List.flatMap_append

@[simp] theorem size_nil : size [] = 0 :=
  rfl

@[simp] theorem size_cons (e : Int × Int) (l : List (Int × Int)) :
    size (e :: l) = e.2 + size l := by
  unfold size
  rw [List.map_cons, List.sum_cons]

@[simp] theorem size_append (l l' : List (Int × Int)) : size (l ++ l') = size l + size l' := by
  unfold size
  rw [List.map_append, List.sum_append]

/-- Extents of non-negative length have as many cells as they say. -/
theorem length_cover {l : List (Int × Int)} (h : ∀ e ∈ l, 0 ≤ e.2) :
    ((cover l).length : Int) = size l := by
  induction l with
  | nil => rfl
  | cons e l ih =>
      have he := h e List.mem_cons_self
      have hl := ih fun e' he' => h e' (List.mem_cons_of_mem e he')
      rw [cover_cons, size_cons, List.length_append, length_cells]
      omega

theorem size_nonneg {l : List (Int × Int)} (h : ∀ e ∈ l, 0 ≤ e.2) : 0 ≤ size l := by
  rw [← length_cover h]
  exact Int.natCast_nonneg _

/-- Only the empty sequence of proper extents has length zero. -/
theorem eq_nil_of_size {l : List (Int × Int)} (h : ∀ e ∈ l, 0 < e.2) (h0 : size l = 0) :
    l = [] := by
  cases l with
  | nil => rfl
  | cons e l =>
      have he := h e List.mem_cons_self
      have hl := size_nonneg fun e' he' => le_of_lt (h e' (List.mem_cons_of_mem e he'))
      rw [size_cons] at h0
      omega

end Extent
