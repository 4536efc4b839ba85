import Mathlib.Data.Nat.Digits.Defs

/-!
# Bytes and Words

Numbers of a fixed width as bytes in memory, in one of the two orders. What is
written in one order and read in the other is the number only if its bytes are
the same backwards.

Memory is a function from addresses. A list of bytes is stored at an address and
loaded from one.

## Main definitions

* `leBytes`, `leVal`: A number as bytes, the lowest first, and back.
* `ByteOrder.bytes`, `ByteOrder.val`: The same in either order.
* `store`, `load`: Bytes in memory.

## Theorems

* `ByteOrder.val_bytes`, `ByteOrder.bytes_val`: The round trips.
* `ByteOrder.val_little_big`: When reading in the wrong order does no harm.
* `load_store`, `load_store_of_disjoint`: Reading what was stored, and what was
  not.
-/

namespace Bytes

/-- A byte. -/
abbrev Byte := BitVec 8

/-! ## Numbers -/

/-- The lowest `n` bytes of a number, the lowest first. -/
def leBytes : Nat → Nat → List Byte
  | 0, _ => []
  | n + 1, x => BitVec.ofNat 8 x :: leBytes n (x / 256)

/-- The number with these bytes, the lowest first. -/
def leVal (l : List Byte) : Nat :=
  Nat.ofDigits 256 (l.map BitVec.toNat)

@[simp] theorem leVal_nil : leVal [] = 0 := rfl

@[simp] theorem leVal_cons (b : Byte) (l : List Byte) :
    leVal (b :: l) = b.toNat + 256 * leVal l := by
  unfold leVal
  rw [List.map_cons, Nat.ofDigits_cons]

@[simp] theorem length_leBytes (n x : Nat) : (leBytes n x).length = n := by
  induction n generalizing x with
  | zero => rfl
  | succ n ih => rw [leBytes, List.length_cons, ih]

theorem leVal_leBytes (n x : Nat) : leVal (leBytes n x) = x % 256 ^ n := by
  induction n generalizing x with
  | zero => rw [leBytes, leVal_nil, Nat.pow_zero, Nat.mod_one]
  | succ n ih =>
      rw [leBytes, leVal_cons, ih, BitVec.toNat_ofNat, Nat.pow_succ' (n := n), Nat.mod_mul]

theorem leBytes_leVal (l : List Byte) : leBytes l.length (leVal l) = l := by
  induction l with
  | nil => rfl
  | cons b l ih =>
      have hb : b.toNat < 256 := b.isLt
      rw [List.length_cons, leBytes, leVal_cons, Nat.add_mul_div_left _ _ (by omega),
        Nat.div_eq_of_lt hb, Nat.zero_add, ih]
      refine congrArg (· :: l) (BitVec.eq_of_toNat_eq ?_)
      rw [BitVec.toNat_ofNat]
      omega

/-- The order of the bytes of a number in memory. -/
inductive ByteOrder where
  | little
  | big
  deriving DecidableEq

namespace ByteOrder

/-- The lowest `n` bytes of a number, as they lie in memory. -/
def bytes (o : ByteOrder) (n x : Nat) : List Byte :=
  match o with
  | little => leBytes n x
  | big => (leBytes n x).reverse

/-- The number that lies in memory. -/
def val (o : ByteOrder) (l : List Byte) : Nat :=
  match o with
  | little => leVal l
  | big => leVal l.reverse

@[simp] theorem length_bytes (o : ByteOrder) (n x : Nat) : (o.bytes n x).length = n := by
  cases o with
  | little => exact length_leBytes n x
  | big => rw [bytes, List.length_reverse, length_leBytes]

theorem val_bytes (o : ByteOrder) (n x : Nat) : o.val (o.bytes n x) = x % 256 ^ n := by
  cases o with
  | little => exact leVal_leBytes n x
  | big => rw [val, bytes, List.reverse_reverse, leVal_leBytes]

theorem bytes_val (o : ByteOrder) (l : List Byte) : o.bytes l.length (o.val l) = l := by
  cases o with
  | little => exact leBytes_leVal l
  | big =>
      have h := leBytes_leVal l.reverse
      rw [List.length_reverse] at h
      rw [bytes, val, h, List.reverse_reverse]

/-- A number written the big way and read the little way. -/
theorem val_little_big (n x : Nat) :
    little.val (big.bytes n x) = x % 256 ^ n ↔ (leBytes n x).reverse = leBytes n x := by
  constructor
  · intro h
    have hback := bytes_val little (big.bytes n x)
    rw [h, length_bytes, bytes, bytes] at hback
    have hmod : leBytes n (x % 256 ^ n) = leBytes n x := by
      have hx := leBytes_leVal (leBytes n x)
      rw [length_leBytes, leVal_leBytes] at hx
      exact hx
    rw [← hback, hmod]
  · intro h
    have hbytes : big.bytes n x = little.bytes n x := h
    rw [hbytes, val_bytes]

end ByteOrder

/-! ## Memory -/

/-- Bytes stored from an address on. -/
def store (mem : Nat → Byte) (a : Nat) (l : List Byte) : Nat → Byte :=
  fun x => if h : a ≤ x ∧ x - a < l.length then l[x - a] else mem x

/-- The `n` bytes from an address on. -/
def load (mem : Nat → Byte) (a n : Nat) : List Byte :=
  (List.range n).map fun i => mem (a + i)

@[simp] theorem length_load (mem : Nat → Byte) (a n : Nat) : (load mem a n).length = n := by
  rw [load, List.length_map, List.length_range]

@[simp] theorem load_zero (mem : Nat → Byte) (a : Nat) : load mem a 0 = [] := rfl

@[simp] theorem store_nil (mem : Nat → Byte) (a : Nat) : store mem a [] = mem := by
  funext x
  exact dif_neg (fun h => absurd h.2 (Nat.not_lt_zero _))

theorem store_at {mem : Nat → Byte} {a i : Nat} {l : List Byte} (h : i < l.length) :
    store mem a l (a + i) = l[i] := by
  have hi : a + i - a = i := Nat.add_sub_cancel_left a i
  unfold store
  rw [dif_pos ⟨Nat.le_add_right a i, by rw [hi]; exact h⟩]
  simp only [hi]

theorem store_outside {mem : Nat → Byte} {a x : Nat} {l : List Byte}
    (h : x < a ∨ a + l.length ≤ x) : store mem a l x = mem x := by
  unfold store
  exact dif_neg (by omega)

/-- Bytes stored behind one another are stored together. -/
theorem store_append (mem : Nat → Byte) (a : Nat) (l l' : List Byte) :
    store (store mem a l) (a + l.length) l' = store mem a (l ++ l') := by
  funext x
  by_cases hx : a + l.length ≤ x
  · rcases Nat.exists_eq_add_of_le hx with ⟨i, rfl⟩
    by_cases hi : i < l'.length
    · rw [store_at hi, Nat.add_assoc, store_at (by rw [List.length_append]; omega),
        List.getElem_append_right (by omega)]
      simp only [Nat.add_sub_cancel_left]
    · rw [store_outside (by omega), store_outside (by omega),
        store_outside (by rw [List.length_append]; omega)]
  · rw [store_outside (by omega)]
    by_cases ha : a ≤ x
    · rcases Nat.exists_eq_add_of_le ha with ⟨i, rfl⟩
      have hi : i < l.length := by omega
      rw [store_at hi, store_at (by rw [List.length_append]; omega), List.getElem_append_left hi]
    · rw [store_outside (by omega), store_outside (by omega)]

theorem load_add (mem : Nat → Byte) (a m n : Nat) :
    load mem a (m + n) = load mem a m ++ load mem (a + m) n := by
  unfold load
  rw [List.range_add, List.map_append, List.map_map]
  refine congrArg (_ ++ ·) (List.map_congr_left fun i _ => ?_)
  rw [Function.comp_apply, Nat.add_assoc]

theorem take_load (mem : Nat → Byte) (a : Nat) {m n : Nat} (h : m ≤ n) :
    (load mem a n).take m = load mem a m := by
  have hadd := load_add mem a m (n - m)
  rw [Nat.add_sub_cancel' h] at hadd
  rw [hadd, List.take_append_of_le_length (by rw [length_load]),
    List.take_of_length_le (by rw [length_load])]

/-- What was stored is loaded. -/
theorem load_store (mem : Nat → Byte) (a : Nat) (l : List Byte) :
    load (store mem a l) a l.length = l := by
  refine List.ext_getElem (length_load _ _ _) fun i hi hi' => ?_
  simp only [load, List.getElem_map, List.getElem_range]
  exact store_at hi'

/-- Other bytes are as they were. -/
theorem load_store_of_disjoint {mem : Nat → Byte} {a b n : Nat} {l : List Byte}
    (h : b + n ≤ a ∨ a + l.length ≤ b) : load (store mem a l) b n = load mem b n := by
  unfold load
  refine List.map_congr_left fun i hi => store_outside ?_
  rw [List.mem_range] at hi
  omega

/-- Storing what is there already changes nothing. -/
theorem store_load {mem : Nat → Byte} {a : Nat} {l : List Byte} (h : load mem a l.length = l) :
    store mem a l = mem := by
  funext x
  by_cases hx : x < a ∨ a + l.length ≤ x
  · exact store_outside hx
  · rcases Nat.exists_eq_add_of_le (show a ≤ x by omega) with ⟨i, rfl⟩
    have hi : i < l.length := by omega
    rw [store_at hi]
    have hget : (load mem a l.length)[i]? = some (mem (a + i)) := by
      simp only [load, List.getElem?_map, List.getElem?_range hi, Option.map_some]
    rw [h, List.getElem?_eq_getElem hi, Option.some.injEq] at hget
    exact hget

end Bytes
