import Mathlib.Data.Nat.Bitwise
import Sil3112.Lib.Bytes

/-!
# SCSI Integers

The conversions of `ghd_scsi.c` between the integers of the host and the big-endian ones
in SCSI commands. They go through a `ushort` and a `ulong` of the host, and are right on
the machine they come from, whose bytes are in the little order and whose `ulong` has four
of them. On a big-endian machine with eight, the two upper bytes of three come out in the
wrong order, three bytes are read from eight of which they are the wrong end, and a `ulong`
covers the four bytes behind the number as well.

The order and the size are parameters. An address is aligned as the machine requires.

## Main definitions

* `htos3byte`, `htosLong`, `stoh3byte`, `stohLong`: The functions.
* `ScsiOk`: What they are for.

## Theorems

* `swap_upper`, `swap_ends`: What the shifts and masks do to three bytes.
* `htos3byte_big_iff`: When three bytes are written in the right order.
* `not_stoh3byte_big`, `not_htosLong_big`: What is never right.
* `scsi_little`: All is right on the machine they come from.
* `scsi_big`: What is right on the other.
-/

namespace Sil3112

namespace Ghd

open Bytes

/-! ## The functions -/

/-- `htonl` and `ntohl`, which on a big-endian machine leave a number as it is. -/
def htonl (o : ByteOrder) (x : Nat) : Nat :=
  match o with
  | .big => x
  | .little => ByteOrder.little.val (ByteOrder.big.bytes 4 x)

/-- `sol11scsi_htos_3byte` -/
def htos3byte (o : ByteOrder) (mem : Nat → Byte) (ap nav : Nat) : Nat → Byte :=
  let s := ((nav &&& 0xff0000) >>> 16 ||| nav &&& 0xff00) % 2 ^ 16
  store (store mem ap (o.bytes 2 s)) (ap + 2) [BitVec.ofNat 8 nav]

/-- `sol11scsi_htos_long`, for a `ulong` of `n` bytes. -/
def htosLong (o : ByteOrder) (n : Nat) (mem : Nat → Byte) (ap niv : Nat) : Nat → Byte :=
  store mem ap (o.bytes n (htonl o niv))

/-- `sol11scsi_stoh_3byte` -/
def stoh3byte (o : ByteOrder) (n : Nat) (mem : Nat → Byte) (ap : Nat) : Nat :=
  let av := o.val (load mem ap n)
  (av &&& 0xff) <<< 16 ||| av &&& 0xff00 ||| (av &&& 0xff0000) >>> 16

/-- `sol11scsi_stoh_long` -/
def stohLong (o : ByteOrder) (ai : Nat) : Nat :=
  htonl o ai

/-- Three bytes are written, with the highest first, and nothing else. -/
def Htos3byteOk (o : ByteOrder) (v : BitVec 24) : Prop :=
  ∀ mem ap, htos3byte o mem ap v.toNat = store mem ap (ByteOrder.big.bytes 3 v.toNat)

/-- The number of three bytes is read, whatever is behind them. -/
def Stoh3byteOk (o : ByteOrder) (n : Nat) (v : BitVec 24) : Prop :=
  ∀ mem ap, load mem ap 3 = ByteOrder.big.bytes 3 v.toNat → stoh3byte o n mem ap = v.toNat

/-- Four bytes are written, with the highest first, and nothing else. -/
def HtosLongOk (o : ByteOrder) (n : Nat) (w : BitVec 32) : Prop :=
  ∀ mem ap, htosLong o n mem ap w.toNat = store mem ap (ByteOrder.big.bytes 4 w.toNat)

/-- The `ulong` that was written is converted back. -/
def StohLongOk (o : ByteOrder) (n : Nat) (w : BitVec 32) : Prop :=
  ∀ mem ap, stohLong o (o.val (load (htosLong o n mem ap w.toNat) ap n)) = w.toNat

/-- The conversions of a number of three bytes and of one of four. -/
structure ScsiOk (o : ByteOrder) (n : Nat) (v : BitVec 24) (w : BitVec 32) : Prop where
  htos3byte : Htos3byteOk o v
  stoh3byte : Stoh3byteOk o n v
  htosLong : HtosLongOk o n w
  stohLong : StohLongOk o n w

/-! ## Shifts and masks -/

/-- A byte of a number, at its place. -/
theorem and_shiftLeft_byte (x k : Nat) : x &&& 255 <<< k = x / 2 ^ k % 256 * 2 ^ k := by
  have h : x &&& 255 <<< k = (x >>> k &&& 255) <<< k := by
    refine Nat.eq_of_testBit_eq fun i => ?_
    simp only [Nat.testBit_and, Nat.testBit_shiftLeft, Nat.testBit_shiftRight]
    by_cases hi : k ≤ i
    · simp [hi, Nat.add_sub_cancel' hi]
    · simp [hi]
  rw [h, Nat.shiftLeft_eq, Nat.shiftRight_eq_div_pow, show 255 = 2 ^ 8 - 1 from rfl,
    Nat.and_two_pow_sub_one_eq_mod]

/-- Bytes at different places. -/
theorem or_bytes (a : Nat) {b c : Nat} (hb : b < 256) (hc : c < 256) :
    a * 65536 ||| b * 256 ||| c = a * 65536 + b * 256 + c := by
  have hlow := Nat.two_pow_add_eq_or_of_lt (i := 8) hc (a * 256 + b)
  have hhigh := Nat.two_pow_add_eq_or_of_lt (i := 16) (b := b * 256) (by omega) a
  rw [show 2 ^ 16 * a = a * 65536 by omega] at hhigh
  rw [show 2 ^ 8 * (a * 256 + b) = a * 65536 + b * 256 by omega] at hlow
  rw [← hhigh]
  exact hlow.symm

theorem and_ff (x : Nat) : x &&& 0xff = x % 256 :=
  Nat.and_two_pow_sub_one_eq_mod x 8

theorem and_ff00 (x : Nat) : x &&& 0xff00 = x / 256 % 256 * 256 :=
  and_shiftLeft_byte x 8

theorem and_ff0000 (x : Nat) : (x &&& 0xff0000) >>> 16 = x / 65536 % 256 := by
  rw [show (0xff0000 : Nat) = 255 <<< 16 from rfl, and_shiftLeft_byte, Nat.shiftRight_eq_div_pow]
  omega

/-- The upper two bytes of three change places. -/
theorem swap_upper (x : Nat) : ((x &&& 0xff0000) >>> 16 ||| x &&& 0xff00) % 2 ^ 16 =
    x / 256 % 256 * 256 + x / 65536 % 256 := by
  have hor := or_bytes 0 (b := x / 256 % 256) (c := x / 65536 % 256) (by omega) (by omega)
  rw [Nat.zero_mul, Nat.zero_or, Nat.zero_add] at hor
  rw [and_ff0000, and_ff00, Nat.or_comm, hor]
  omega

/-- The outer two bytes of three change places. -/
theorem swap_ends (x : Nat) :
    (x &&& 0xff) <<< 16 ||| x &&& 0xff00 ||| (x &&& 0xff0000) >>> 16 =
      x % 256 * 65536 + x / 256 % 256 * 256 + x / 65536 % 256 := by
  rw [and_ff0000, and_ff00, and_ff, Nat.shiftLeft_eq]
  exact or_bytes _ (by omega) (by omega)

/-! ## Three bytes -/

/-- What `sol11scsi_htos_3byte` writes. -/
theorem htos3byte_eq (o : ByteOrder) (mem : Nat → Byte) (ap nav : Nat) :
    htos3byte o mem ap nav = store mem ap
      (o.bytes 2 (nav / 256 % 256 * 256 + nav / 65536 % 256) ++ [BitVec.ofNat 8 nav]) := by
  unfold htos3byte
  rw [swap_upper, ← store_append, ByteOrder.length_bytes]

theorem big_bytes_three (x : Nat) : ByteOrder.big.bytes 3 x =
    [BitVec.ofNat 8 (x / 256 / 256), BitVec.ofNat 8 (x / 256), BitVec.ofNat 8 x] := rfl

theorem ofNat_byte_mod (x : Nat) : BitVec.ofNat 8 (x % 256) = BitVec.ofNat 8 x :=
  BitVec.eq_of_toNat_eq (by simp)

/-- The two bytes of a number that is made of them. -/
theorem leBytes_two (x y : Nat) : leBytes 2 (x % 256 * 256 + y % 256) =
    [BitVec.ofNat 8 y, BitVec.ofNat 8 x] := by
  have hlow : BitVec.ofNat 8 (x % 256 * 256 + y % 256) = BitVec.ofNat 8 y :=
    BitVec.eq_of_toNat_eq (by rw [BitVec.toNat_ofNat, BitVec.toNat_ofNat]; omega)
  have hhigh : (x % 256 * 256 + y % 256) / 256 = x % 256 := by omega
  rw [leBytes, leBytes, leBytes, hlow, hhigh, ofNat_byte_mod]

theorem htos3byte_little (v : BitVec 24) : Htos3byteOk .little v := by
  intro mem ap
  rw [htos3byte_eq, big_bytes_three, Nat.div_div_eq_div_mul]
  exact congrArg (fun l => store mem ap (l ++ _)) (leBytes_two _ _)

theorem extractLsb'_byte (v : BitVec 24) (k : Nat) :
    v.extractLsb' k 8 = BitVec.ofNat 8 (v.toNat / 2 ^ k) :=
  BitVec.eq_of_toNat_eq (by
    rw [BitVec.extractLsb'_toNat, BitVec.toNat_ofNat, Nat.shiftRight_eq_div_pow])

/-- On a big-endian machine three bytes are written in the right order if and only if the
    upper two are equal. -/
theorem htos3byte_big_iff (v : BitVec 24) :
    Htos3byteOk .big v ↔ v.extractLsb' 16 8 = v.extractLsb' 8 8 := by
  have hwrite : ∀ mem ap, htos3byte .big mem ap v.toNat = store mem ap
      [v.extractLsb' 8 8, v.extractLsb' 16 8, BitVec.ofNat 8 v.toNat] := by
    intro mem ap
    rw [htos3byte_eq, extractLsb'_byte, extractLsb'_byte]
    exact congrArg (fun l => store mem ap (l.reverse ++ _)) (leBytes_two _ _)
  have hright : ByteOrder.big.bytes 3 v.toNat =
      [v.extractLsb' 16 8, v.extractLsb' 8 8, BitVec.ofNat 8 v.toNat] := by
    rw [big_bytes_three, Nat.div_div_eq_div_mul, extractLsb'_byte, extractLsb'_byte]
    rfl
  constructor
  · intro h
    have hlist := h (fun _ => 0) 0
    rw [hwrite, hright] at hlist
    -- the first byte
    exact (congrFun hlist 0).symm
  · intro h mem ap
    rw [hwrite, hright, h]

/-- The lowest three bytes. -/
theorem leVal_low (a b c : Byte) (l : List Byte) : leVal (a :: b :: c :: l) % 256 = a.toNat ∧
    leVal (a :: b :: c :: l) / 256 % 256 = b.toNat ∧
    leVal (a :: b :: c :: l) / 65536 % 256 = c.toNat := by
  have ha := a.isLt
  have hb := b.isLt
  have hc := c.isLt
  simp only [leVal_cons]
  omega

/-- What `sol11scsi_stoh_3byte` reads on a big-endian machine. -/
theorem stoh3byte_big (mem : Nat → Byte) (ap : Nat) : stoh3byte .big 8 mem ap =
    (mem (ap + 7)).toNat * 65536 + (mem (ap + 6)).toNat * 256 + (mem (ap + 5)).toNat := by
  have hval : ByteOrder.big.val (load mem ap 8) = leVal [mem (ap + 7), mem (ap + 6), mem (ap + 5),
    mem (ap + 4), mem (ap + 3), mem (ap + 2), mem (ap + 1), mem ap] := rfl
  rcases leVal_low (mem (ap + 7)) (mem (ap + 6)) (mem (ap + 5))
    [mem (ap + 4), mem (ap + 3), mem (ap + 2), mem (ap + 1), mem ap] with ⟨h7, h6, h5⟩
  unfold stoh3byte
  rw [swap_ends, hval, h7, h6, h5]

/-- What `sol11scsi_stoh_3byte` reads on a little-endian machine. -/
theorem stoh3byte_little (mem : Nat → Byte) (ap : Nat) : stoh3byte .little 4 mem ap =
    (mem ap).toNat * 65536 + (mem (ap + 1)).toNat * 256 + (mem (ap + 2)).toNat := by
  have hval : ByteOrder.little.val (load mem ap 4) =
    leVal [mem ap, mem (ap + 1), mem (ap + 2), mem (ap + 3)] := rfl
  rcases leVal_low (mem ap) (mem (ap + 1)) (mem (ap + 2)) [mem (ap + 3)] with ⟨h0, h1, h2⟩
  unfold stoh3byte
  rw [swap_ends, hval, h0, h1, h2]

theorem stoh3byteOk_little (v : BitVec 24) : Stoh3byteOk .little 4 v := by
  intro mem ap h
  have hv := v.isLt
  rw [big_bytes_three] at h
  have hload : load mem ap 3 = [mem ap, mem (ap + 1), mem (ap + 2)] := rfl
  rw [hload] at h
  injection h with h0 h
  injection h with h1 h
  injection h with h2 _
  rw [stoh3byte_little, h0, h1, h2, BitVec.toNat_ofNat, BitVec.toNat_ofNat, BitVec.toNat_ofNat]
  omega

/-- On a big-endian machine three bytes are read from elsewhere. -/
theorem not_stoh3byte_big (v : BitVec 24) : ¬ Stoh3byteOk .big 8 v := by
  intro h
  have hread : ∀ c : Byte, c.toNat * 65536 + c.toNat * 256 + c.toNat = v.toNat := by
    intro c
    have hload := load_store (fun _ => c) 0 (ByteOrder.big.bytes 3 v.toNat)
    rw [← h _ 0 hload, stoh3byte_big]
    rfl
  have h0 := hread 0
  have h1 := hread 1
  rw [← h1] at h0
  exact absurd h0 (by decide)

/-! ## Four bytes -/

theorem htosLong_little (w : BitVec 32) : HtosLongOk .little 4 w := by
  intro mem ap
  unfold htosLong htonl
  have hback := ByteOrder.bytes_val .little (ByteOrder.big.bytes 4 w.toNat)
  rw [ByteOrder.length_bytes] at hback
  exact congrArg (store mem ap) hback

theorem stohLong_little (w : BitVec 32) : StohLongOk .little 4 w := by
  intro mem ap
  have hw := w.isLt
  have hload := load_store mem ap (ByteOrder.big.bytes 4 w.toNat)
  rw [ByteOrder.length_bytes] at hload
  rw [htosLong_little, hload]
  have hback := ByteOrder.bytes_val .little (ByteOrder.big.bytes 4 w.toNat)
  rw [ByteOrder.length_bytes] at hback
  -- twice in the other order is the number
  have htwice : ByteOrder.big.bytes 4 (ByteOrder.little.val (ByteOrder.big.bytes 4 w.toNat)) =
      leBytes 4 w.toNat :=
    (congrArg List.reverse hback).trans (List.reverse_reverse _)
  have hval := leVal_leBytes 4 w.toNat
  unfold stohLong htonl
  dsimp only
  rw [htwice]
  exact hval.trans (Nat.mod_eq_of_lt hw)

/-- On a big-endian machine the four bytes behind the number are written. -/
theorem not_htosLong_big (w : BitVec 32) : ¬ HtosLongOk .big 8 w := by
  intro h
  have hread : ∀ c : Byte, BitVec.ofNat 8 w.toNat = c := fun c =>
    congrFun (h (fun _ => c) 0) 7
  exact absurd ((hread 0).symm.trans (hread 1)) (by decide)

theorem stohLong_big (w : BitVec 32) : StohLongOk .big 8 w := by
  intro mem ap
  have hw := w.isLt
  have hload := load_store mem ap (ByteOrder.big.bytes 8 w.toNat)
  rw [ByteOrder.length_bytes] at hload
  unfold stohLong htosLong htonl
  dsimp only
  rw [hload, ByteOrder.val_bytes]
  omega

/-- The conversions are right on the machine they come from. -/
theorem scsi_little (v : BitVec 24) (w : BitVec 32) : ScsiOk .little 4 v w where
  htos3byte := htos3byte_little v
  stoh3byte := stoh3byteOk_little v
  htosLong := htosLong_little w
  stohLong := stohLong_little w

/-- The conversions of no numbers are right on a big-endian machine with a `ulong` of eight
    bytes: three bytes are written right exactly if the upper two are equal and never read
    right, and four bytes are never written right. -/
theorem scsi_big (v : BitVec 24) (w : BitVec 32) : ¬ ScsiOk .big 8 v w ∧
    (Htos3byteOk .big v ↔ v.extractLsb' 16 8 = v.extractLsb' 8 8) ∧
    ¬ Stoh3byteOk .big 8 v ∧ ¬ HtosLongOk .big 8 w ∧ StohLongOk .big 8 w :=
  ⟨fun h => not_htosLong_big w h.htosLong, htos3byte_big_iff v, not_stoh3byte_big v,
    not_htosLong_big w, stohLong_big w⟩

/-- The number 0x010203, and 1. -/
theorem scsi_big_swapped : ¬ ScsiOk .big 8 0x010203 1 ∧
    load (htos3byte .big (fun _ => 0) 0 0x010203) 0 3 = [2, 1, 3] ∧
    stoh3byte .big 8 (store (fun _ => 0) 0 [1, 2, 3]) 0 = 0 ∧
    load (htosLong .big 8 (fun _ => 9) 0 1) 0 8 = [0, 0, 0, 0, 0, 0, 0, 1] :=
  ⟨fun h => not_htosLong_big 1 h.htosLong, by decide, by decide, by decide⟩

end Ghd

end Sil3112
