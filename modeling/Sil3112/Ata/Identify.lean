import Sil3112.Ata.ByteOrder
import Sil3112.Ata.Wait

/-!
# IDENTIFY

What becomes of the 256 words that a drive gives for IDENTIFY DEVICE. `ata_id_common`
reads them into a `struct ata_id`, each in the order of the host, so the numbers in it
are right on any host. The text of a drive has its first letter in the high byte of its
first word. On a little-endian host the two letters of a word therefore come in the wrong
order, and `ata_init_drive` exchanges them with `swab`. On a big-endian host they are in
the right order already, and `ata_init_drive` exchanges them all the same.

A drive that gives its text the other way around is left alone. It is recognised by its
model, before anything is exchanged.

## Main definitions

* `IdField`, `ataIdFields`: The fields of a `struct ata_id`.
* `idCommon`: `ata_id_common`
* `ataStrncmp`, `swab`, `swapText`: The step of `ata_init_drive` that exchanges the bytes.
* `Decoded`: What is to be in the structure.

## Theorems

* `load_idCommon`: The words are in the structure, in the order of the host.
* `load_swapText`: A field that is no text is as it was.
* `identify_decoded_little`: Everything is right on a little-endian host.
* `identify_decoded_iff`: When it is on the target.
-/

namespace Sil3112

namespace Ata

open Bytes

/-! ## The structure -/

/-- A field of a `struct ata_id`: words, or bytes of text. -/
inductive IdField where
  | ushort (n : Nat)
  | char (n : Nat)
  deriving DecidableEq

/-- How many words it takes. -/
def IdField.words : IdField → Nat
  | ushort n => n
  | char n => n / 2

/-- `struct ata_id` -/
def ataIdFields : List IdField :=
  [ -- ai_config, ai_fixcyls, ai_resv0, ai_heads, ai_trksiz, ai_secsiz, ai_sectors, ai_resv1
    .ushort 1, .ushort 1, .ushort 1, .ushort 1, .ushort 1, .ushort 1, .ushort 1, .ushort 3,
    -- ai_drvser
    .char 20,
    -- ai_buftype, ai_bufsz, ai_ecc
    .ushort 1, .ushort 1, .ushort 1,
    -- ai_fw, ai_model
    .char 8, .char 40,
    -- ai_mult1, ai_dwcap, ai_cap, ai_resv2, ai_piomode, ai_dmamode, ai_validinfo
    .ushort 1, .ushort 1, .ushort 1, .ushort 1, .ushort 1, .ushort 1, .ushort 1,
    -- ai_curcyls, ai_curheads, ai_cursectrk, ai_cursccp, ai_mult2, ai_addrsec
    .ushort 1, .ushort 1, .ushort 1, .ushort 2, .ushort 1, .ushort 2,
    -- ai_sworddma, ai_dworddma, ai_advpiomode, ai_minmwdma, ai_recmwdma, ai_minpio, ai_minpioflow
    .ushort 1, .ushort 1, .ushort 1, .ushort 1, .ushort 1, .ushort 1, .ushort 1,
    -- ai_resv3, ai_resv4, ai_qdepth, ai_resv5, ai_majorversion, ai_minorversion
    .ushort 2, .ushort 4, .ushort 1, .ushort 4, .ushort 1, .ushort 1,
    -- ai_cmdset82, ai_cmdset83, ai_cmdset84, ai_features85, ai_features86, ai_features87
    .ushort 1, .ushort 1, .ushort 1, .ushort 1, .ushort 1, .ushort 1,
    -- ai_ultradma, ai_erasetime, ai_erasetimex, ai_padding1, ai_addrsecxt, ai_padding2
    .ushort 1, .ushort 1, .ushort 1, .ushort 9, .ushort 4, .ushort 22,
    -- ai_lastlun, ai_resv6, ai_securestatus, ai_vendor, ai_padding3
    .ushort 1, .ushort 1, .ushort 1, .ushort 31, .ushort 16,
    -- ai_curmedser, ai_padding4, ai_integrity
    .ushort 30, .ushort 49, .ushort 1]

/-- The fields with the words that they begin with. -/
def placed : Nat → List IdField → List (Nat × IdField)
  | _, [] => []
  | a, f :: fs => (a, f) :: placed (a + f.words) fs

/-- The structure is what the drive gives. -/
example : (ataIdFields.map IdField.words).sum = 256 := by decide

/-- Word 100 is where the comment in the source has it. -/
example : (100, IdField.ushort 4) ∈ placed 0 ataIdFields := by decide

/-! ## The source -/

/-- `ATS_DRQ` -/
def atsDrq : BitVec 8 := 0x08

/-- What `ata_id_common` meets: the status, whether the drive is ready for the data when
    it was not at once, the words, and whether it is ready again afterwards. -/
structure IdEnv where
  status : BitVec 8
  drq : Bool
  words : Nat → BitVec 16
  idle : Bool

/-- The `n` words from the word `a` on, as bytes in an order. -/
def wordBytes (o : ByteOrder) (w : Nat → BitVec 16) : Nat → Nat → List Byte
  | _, 0 => []
  | a, n + 1 => o.bytes 2 (w a).toNat ++ wordBytes o w (a + 1) n

/-- `ata_id_common`: what it returns, and the bytes of the structure. The low byte of a
    word comes first on the bus. -/
def idCommon (host : ByteOrder) (e : IdEnv) : Bool × (Nat → Byte) :=
  let aidp : Nat → Byte := fun _ => 0
  if e.status = 0xff ∨ e.status = 0x7f then (false, aidp)
  else if e.status &&& atsBsy ≠ 0 then (false, aidp)
  else if e.status &&& atsDrq = 0 ∧
      (e.status &&& (atsErr ||| atsDf) ≠ 0 ∨ e.drq = false) then
    (false, aidp)
  else
    let aidp := store aidp 0 (ddiRepGet16 host ioAcc (wordBytes .little e.words 0 256))
    if e.idle = false then (false, aidp)
    else if e.status &&& (atsDf ||| atsErr) ≠ 0 then (false, aidp)
    else (true, aidp)

/-- A blank. -/
def blank : Byte := 0x20

/-- `while (cnt > 0 && *p1 == *p2)` in `ata_strncmp` -/
def skipEqual : List Byte → List Byte → List Byte × List Byte
  | p1, [] => (p1, [])
  | p1, b :: p2 => if p1.headD 0 = b then skipEqual p1.tail p2 else (p1, b :: p2)

/-- The loop of `ata_strncmp`. Each round takes a byte of `p2` at least. -/
def strncmpLoop : Nat → List Byte → List Byte → Bool
  | 0, p1, _ => p1.headD 0 == 0
  | n + 1, p1, p2 =>
    let p1 := p1.dropWhile (· == blank)
    let p2 := p2.dropWhile (· == blank)
    if p2 = [] ∨ p1.headD 0 ≠ p2.headD 0 then p1.headD 0 == 0
    else strncmpLoop n (skipEqual p1 p2).1 (skipEqual p1 p2).2

/-- `ata_strncmp`, over the memory from `p1` on and the `cnt` bytes from `p2` on. -/
def ataStrncmp (p1 p2 : List Byte) : Bool :=
  strncmpLoop (p2.length + 1) p1 p2

/-- `nec_260`: "NEC CD-ROM DRIVE" -/
def nec260 : List Byte :=
  [0x4e, 0x45, 0x43, 0x20, 0x43, 0x44, 0x2d, 0x52, 0x4f, 0x4d, 0x20, 0x44, 0x52, 0x49, 0x56,
    0x45, 0]

/-- `swab`, from the address `a` back to it. -/
def swab (mem : Nat → Byte) (a n : Nat) : Nat → Byte :=
  store mem a (swapWords (load mem a n))

/-- The step of `ata_init_drive` that exchanges the bytes of the text. `behind` is what
    lies behind `nec_260` in memory. -/
def swapText (behind : List Byte) (aidp : Nat → Byte) : Nat → Byte :=
  if ataStrncmp (nec260 ++ behind) (load aidp 54 40) = false then
    swab (swab (swab aidp 20 20) 46 8) 54 40
  else aidp

/-! ## What is to be true -/

/-- The high byte of a word. -/
def hiByte (x : BitVec 16) : Byte := x.extractLsb' 8 8

/-- The low byte. -/
def loByte (x : BitVec 16) : Byte := x.extractLsb' 0 8

/-- Every number of the structure is its word, and every text has the high byte of each
    of its words in front of the low one. -/
structure Decoded (host : ByteOrder) (w : Nat → BitVec 16) (aidp : Nat → Byte) : Prop where
  number : ∀ a n, (a, .ushort n) ∈ placed 0 ataIdFields → ∀ j, j < n →
    host.val (load aidp (2 * (a + j)) 2) = (w (a + j)).toNat
  text : ∀ a n, (a, .char n) ∈ placed 0 ataIdFields → ∀ k, 2 * k + 1 < n →
    aidp (2 * a + 2 * k) = hiByte (w (a + k)) ∧ aidp (2 * a + 2 * k + 1) = loByte (w (a + k))

/-- The words of the three texts. -/
def TextWord (i : Nat) : Prop :=
  (10 ≤ i ∧ i < 20) ∨ (23 ≤ i ∧ i < 47)

/-! ## Words as bytes -/

@[simp] theorem length_wordBytes (o : ByteOrder) (w : Nat → BitVec 16) (a n : Nat) :
    (wordBytes o w a n).length = 2 * n := by
  induction n generalizing a with
  | zero => rfl
  | succ n ih =>
      rw [wordBytes, List.length_append, ByteOrder.length_bytes, ih]
      omega

theorem wordBytes_add (o : ByteOrder) (w : Nat → BitVec 16) (a m n : Nat) :
    wordBytes o w a (m + n) = wordBytes o w a m ++ wordBytes o w (a + m) n := by
  induction m generalizing a with
  | zero => rw [Nat.zero_add, wordBytes, List.nil_append, Nat.add_zero]
  | succ m ih =>
      rw [Nat.add_right_comm, wordBytes, wordBytes, ih, List.append_assoc, Nat.add_right_comm,
        Nat.add_assoc a]

theorem big_bytes (x : BitVec 16) : ByteOrder.big.bytes 2 x.toNat = [hiByte x, loByte x] := by
  have hlo : BitVec.ofNat 8 x.toNat = loByte x := by
    apply BitVec.eq_of_toNat_eq
    simp [loByte]
  have hhi : BitVec.ofNat 8 (x.toNat / 256) = hiByte x := by
    apply BitVec.eq_of_toNat_eq
    simp [hiByte, Nat.shiftRight_eq_div_pow]
  simp only [ByteOrder.bytes, leBytes, hlo, hhi]
  rfl

theorem little_bytes (x : BitVec 16) :
    ByteOrder.little.bytes 2 x.toNat = [loByte x, hiByte x] := by
  have h := congrArg List.reverse (big_bytes x)
  simpa [ByteOrder.bytes] using h

/-- The words arrive in the order of the host. -/
theorem ddiRepGet16_words (host : ByteOrder) (w : Nat → BitVec 16) (a n : Nat) :
    ddiRepGet16 host ioAcc (wordBytes .little w a n) = wordBytes host w a n := by
  induction n generalizing a with
  | zero => simp [wordBytes, ddiRepGet16]
  | succ n ih =>
      have hval : ByteOrder.little.val [loByte (w a), hiByte (w a)] = (w a).toNat := by
        rw [← little_bytes, ByteOrder.val_bytes]
        exact Nat.mod_eq_of_lt (w a).isLt
      rw [wordBytes, wordBytes, little_bytes, ← ih]
      simp only [ddiRepGet16, ioAcc, AccEndian.order, List.cons_append, List.nil_append, moveWords,
        hval]

/-- `ata_id_common` returns TRUE with all words in the structure. -/
theorem idCommon_true {host : ByteOrder} {e : IdEnv} (h : (idCommon host e).1 = true) :
    (idCommon host e).2 = store (fun _ => 0) 0 (wordBytes host e.words 0 256) := by
  unfold idCommon at h ⊢
  dsimp only at h ⊢
  split at h
  · cases h
  split at h
  · cases h
  split at h
  · cases h
  split at h
  · cases h
  split at h
  · cases h
  · next h1 h2 h3 h4 h5 =>
    rw [if_neg h1, if_neg h2, if_neg h3, if_neg h4, if_neg h5, ddiRepGet16_words]

theorem load_words (host : ByteOrder) (w : Nat → BitVec 16) (mem : Nat → Byte) {a n : Nat}
    (h : a + n ≤ 256) :
    load (store mem 0 (wordBytes host w 0 256)) (2 * a) (2 * n) = wordBytes host w a n := by
  have hsplit : wordBytes host w 0 256 =
      wordBytes host w 0 a ++
        (wordBytes host w a n ++ wordBytes host w (a + n) (256 - (a + n))) := by
    rw [← wordBytes_add, show (256 : Nat) = a + (n + (256 - (a + n))) by omega, wordBytes_add]
    simp only [Nat.zero_add]
    rw [show a + (n + (256 - (a + n))) - (a + n) = 256 - (a + n) by omega]
  rw [hsplit, ← store_append, ← store_append, length_wordBytes, length_wordBytes, Nat.zero_add,
    load_store_of_disjoint (Or.inl (Nat.le_refl _))]
  have hload := load_store (store mem 0 (wordBytes host w 0 a)) (2 * a) (wordBytes host w a n)
  rwa [length_wordBytes] at hload

/-! ## Exchanging the bytes -/

theorem load_swab (mem : Nat → Byte) (a : Nat) {n : Nat} (hn : n % 2 = 0) :
    load (swab mem a n) a n = swapWords (load mem a n) := by
  have hlen : (swapWords (load mem a n)).length = n := by
    rw [length_swapWords, length_load]
    omega
  have h := load_store mem a (swapWords (load mem a n))
  rwa [hlen] at h

theorem load_swab_of_disjoint (mem : Nat → Byte) {a b m n : Nat} (h : b + m ≤ a ∨ a + n ≤ b) :
    load (swab mem a n) b m = load mem b m := by
  refine load_store_of_disjoint ?_
  rw [length_swapWords, length_load]
  omega

/-- What is no text is as it was. -/
theorem load_swapText (behind : List Byte) (mem : Nat → Byte) {b m : Nat}
    (h : b + m ≤ 20 ∨ (40 ≤ b ∧ b + m ≤ 46) ∨ 94 ≤ b) :
    load (swapText behind mem) b m = load mem b m := by
  unfold swapText
  split
  · rw [load_swab_of_disjoint _ (by omega), load_swab_of_disjoint _ (by omega),
      load_swab_of_disjoint _ (by omega)]
  · rfl

/-- A text is exchanged. -/
theorem load_swapText_text {behind : List Byte} {mem : Nat → Byte}
    (hnec : ataStrncmp (nec260 ++ behind) (load mem 54 40) = false) {a n : Nat}
    (h : (a = 10 ∧ n = 20) ∨ (a = 23 ∧ n = 8) ∨ (a = 27 ∧ n = 40)) :
    load (swapText behind mem) (2 * a) n = swapWords (load mem (2 * a) n) := by
  unfold swapText
  rw [if_pos hnec]
  rcases h with ⟨rfl, rfl⟩ | ⟨rfl, rfl⟩ | ⟨rfl, rfl⟩
  · rw [load_swab_of_disjoint _ (by omega), load_swab_of_disjoint _ (by omega)]
    exact load_swab _ _ (by omega)
  · rw [load_swab_of_disjoint _ (by omega), load_swab _ _ (by omega),
      load_swab_of_disjoint _ (by omega)]
  · rw [load_swab _ _ (by omega), load_swab_of_disjoint _ (by omega),
      load_swab_of_disjoint _ (by omega)]

/-- The bytes of the words in one order are those of the other exchanged. -/
theorem swapWords_little (w : Nat → BitVec 16) (a n : Nat) :
    swapWords (wordBytes .little w a n) = wordBytes .big w a n := by
  induction n generalizing a with
  | zero => simp [wordBytes]
  | succ n ih =>
      rw [wordBytes, wordBytes, little_bytes, big_bytes, ← ih]
      rfl

theorem doubled_words (w : Nat → BitVec 16) (a n : Nat) :
    Doubled (wordBytes .big w a n) ↔ ∀ i, a ≤ i → i < a + n → hiByte (w i) = loByte (w i) := by
  induction n generalizing a with
  | zero => exact iff_of_true (by simp [wordBytes, Doubled]) fun i hi hi' => by omega
  | succ n ih =>
      have hcons : wordBytes .big w a (n + 1) =
          hiByte (w a) :: loByte (w a) :: wordBytes .big w (a + 1) n := by
        rw [wordBytes, big_bytes]
        rfl
      rw [hcons, doubled_cons, ih (a + 1)]
      constructor
      · rintro ⟨h0, hrest⟩ i hi hi'
        rcases Nat.eq_or_lt_of_le hi with heq | hlt
        · rw [← heq]
          exact h0
        · exact hrest i hlt (by omega)
      · exact fun h => ⟨h a (by omega) (by omega), fun i hi hi' => h i (by omega) (by omega)⟩

/-- Words in the right order stay right if and only if both bytes of each are the same. -/
theorem swapWords_big_iff (w : Nat → BitVec 16) (a n : Nat) :
    swapWords (wordBytes .big w a n) = wordBytes .big w a n ↔
      ∀ i, a ≤ i → i < a + n → hiByte (w i) = loByte (w i) := by
  have htake := swapWords_eq_take_iff (wordBytes .big w a n)
  rw [length_wordBytes, Nat.mul_div_cancel_left n (by omega),
    List.take_of_length_le (by rw [length_wordBytes])] at htake
  rw [htake, doubled_words]

/-! ## The fields -/

/-- Where the numbers of the structure are, and where the texts. -/
def InPlace (a : Nat) : IdField → Prop
  | .ushort n => a + n ≤ 10 ∨ (20 ≤ a ∧ a + n ≤ 23) ∨ (47 ≤ a ∧ a + n ≤ 256)
  | .char n => (a = 10 ∧ n = 20) ∨ (a = 23 ∧ n = 8) ∨ (a = 27 ∧ n = 40)

instance (a : Nat) (f : IdField) : Decidable (InPlace a f) :=
  match f with
  | .ushort _ => inferInstanceAs (Decidable (_ ∨ _))
  | .char _ => inferInstanceAs (Decidable (_ ∨ _))

theorem placed_ataId : ∀ p ∈ placed 0 ataIdFields, InPlace p.1 p.2 := by
  decide

/-- A text reads from left to right if its bytes are those of the words in the big
    order. -/
theorem text_iff (w : Nat → BitVec 16) (mem : Nat → Byte) (a m : Nat) :
    (∀ k, 2 * k + 1 < 2 * m → mem (2 * a + 2 * k) = hiByte (w (a + k)) ∧
      mem (2 * a + 2 * k + 1) = loByte (w (a + k))) ↔
      load mem (2 * a) (2 * m) = wordBytes .big w a m := by
  induction m generalizing a with
  | zero => exact iff_of_true (fun k hk => by omega) rfl
  | succ m ih =>
      -- the first word, and the others
      have hload : load mem (2 * a) (2 * (m + 1)) =
          [mem (2 * a), mem (2 * a + 1)] ++ load mem (2 * (a + 1)) (2 * m) := by
        rw [show 2 * (m + 1) = 2 + 2 * m by omega, load_add, show 2 * (a + 1) = 2 * a + 2 by omega]
        rfl
      rw [hload, wordBytes, big_bytes]
      simp only [List.cons_append, List.nil_append, List.cons.injEq]
      rw [← ih (a + 1)]
      constructor
      · intro h
        have h0 := h 0 (by omega)
        refine ⟨h0.1, h0.2, fun k hk => ?_⟩
        have hk' := h (k + 1) (by omega)
        rwa [show 2 * a + 2 * (k + 1) = 2 * (a + 1) + 2 * k by omega,
          show a + (k + 1) = a + 1 + k by omega] at hk'
      · rintro ⟨h0, h1, hrest⟩ k hk
        cases k with
        | zero => exact ⟨h0, h1⟩
        | succ k =>
            have hk' := hrest k (by omega)
            rwa [show 2 * (a + 1) + 2 * k = 2 * a + 2 * (k + 1) by omega,
              show a + 1 + k = a + (k + 1) by omega] at hk'

section

variable {host : ByteOrder} {e : IdEnv} {behind : List Byte}

/-- The numbers are right on any host. -/
theorem number_decoded (hid : (idCommon host e).1 = true) {a n : Nat}
    (hf : (a, .ushort n) ∈ placed 0 ataIdFields) {j : Nat} (hj : j < n) :
    host.val (load (swapText behind (idCommon host e).2) (2 * (a + j)) 2) =
      (e.words (a + j)).toNat := by
  have hplace : a + n ≤ 10 ∨ (20 ≤ a ∧ a + n ≤ 23) ∨ (47 ≤ a ∧ a + n ≤ 256) :=
    placed_ataId _ hf
  rw [load_swapText behind _ (by omega), idCommon_true hid]
  have hload := load_words host e.words (fun _ => 0) (a := a + j) (n := 1) (by omega)
  rw [Nat.mul_one] at hload
  rw [hload, wordBytes, wordBytes, List.append_nil, ByteOrder.val_bytes]
  exact Nat.mod_eq_of_lt (e.words (a + j)).isLt

/-- The texts are right if exchanging their bytes makes them so. -/
theorem decoded_iff (hid : (idCommon host e).1 = true)
    (hnec : ataStrncmp (nec260 ++ behind) (load (idCommon host e).2 54 40) = false) :
    Decoded host e.words (swapText behind (idCommon host e).2) ↔
      ∀ a n, (a, .char n) ∈ placed 0 ataIdFields →
        swapWords (wordBytes host e.words a (n / 2)) = wordBytes .big e.words a (n / 2) := by
  have htext : ∀ a n, (a, IdField.char n) ∈ placed 0 ataIdFields →
      ((∀ k, 2 * k + 1 < n →
        swapText behind (idCommon host e).2 (2 * a + 2 * k) = hiByte (e.words (a + k)) ∧
        swapText behind (idCommon host e).2 (2 * a + 2 * k + 1) = loByte (e.words (a + k))) ↔
        swapWords (wordBytes host e.words a (n / 2)) = wordBytes .big e.words a (n / 2)) := by
    intro a n hf
    have hplace : (a = 10 ∧ n = 20) ∨ (a = 23 ∧ n = 8) ∨ (a = 27 ∧ n = 40) :=
      placed_ataId _ hf
    have hn : n = 2 * (n / 2) := by omega
    have hswap := load_swapText_text hnec hplace
    rw [hn] at hswap
    rw [idCommon_true hid, load_words host e.words _ (by omega)] at hswap
    rw [idCommon_true hid, ← hswap, ← text_iff, ← hn]
  constructor
  · exact fun h a n hf => (htext a n hf).mp (h.text a n hf)
  · exact fun h => ⟨fun a n hf j hj => number_decoded hid hf hj,
      fun a n hf => (htext a n hf).mpr (h a n hf)⟩

/-- On a little-endian host everything is right. -/
theorem identify_decoded_little (hid : (idCommon .little e).1 = true)
    (hnec : ataStrncmp (nec260 ++ behind) (load (idCommon .little e).2 54 40) = false) :
    Decoded .little e.words (swapText behind (idCommon .little e).2) :=
  (decoded_iff hid hnec).mpr fun _ _ _ => swapWords_little _ _ _

/-- On the target, which is big-endian, the numbers are right, and the texts are if and
    only if the two bytes of each of their words are the same. -/
theorem identify_decoded_iff (hid : (idCommon targetOrder e).1 = true)
    (hnec : ataStrncmp (nec260 ++ behind) (load (idCommon targetOrder e).2 54 40) = false) :
    Decoded targetOrder e.words (swapText behind (idCommon targetOrder e).2) ↔
      ∀ i, TextWord i → hiByte (e.words i) = loByte (e.words i) := by
  rw [decoded_iff hid hnec]
  constructor
  · intro h i hi
    have hser := (swapWords_big_iff e.words 10 10).mp (h 10 20 (by decide))
    have hfw := (swapWords_big_iff e.words 23 4).mp (h 23 8 (by decide))
    have hmodel := (swapWords_big_iff e.words 27 20).mp (h 27 40 (by decide))
    unfold TextWord at hi
    rcases hi with ⟨h1, h2⟩ | ⟨h1, h2⟩
    · exact hser i h1 (by omega)
    · by_cases h27 : i < 27
      · exact hfw i h1 (by omega)
      · exact hmodel i (by omega) (by omega)
  · intro h a n hf
    have hplace : (a = 10 ∧ n = 20) ∨ (a = 23 ∧ n = 8) ∨ (a = 27 ∧ n = 40) :=
      placed_ataId _ hf
    refine (swapWords_big_iff e.words a (n / 2)).mpr fun i hi hi' => h i ?_
    unfold TextWord
    omega

end

/-- A drive that is ready at once, and gives the same word everywhere. -/
def sameWords (x : BitVec 16) : IdEnv :=
  ⟨0x58, true, fun _ => x, true⟩

theorem sameWords_true (host : ByteOrder) (x : BitVec 16) :
    (idCommon host (sameWords x)).1 = true := by
  simp [idCommon, sameWords, atsBsy, atsDrq, atsErr, atsDf]

/-- A model with another first letter is not exempted. -/
theorem ataStrncmp_nec260 {behind l : List Byte} {b : Byte} (hblank : b ≠ blank)
    (hn : b ≠ 0x4e) : ataStrncmp (nec260 ++ behind) (b :: l) = false := by
  have hdrop : (b :: l).dropWhile (· == blank) = b :: l := by
    rw [List.dropWhile_cons_of_neg]
    simpa using hblank
  have hstop : b :: l = [] ∨ (nec260 ++ behind).headD 0 ≠ (b :: l).headD 0 :=
    Or.inr fun h => hn h.symm
  unfold ataStrncmp
  rw [strncmpLoop, hdrop]
  exact (if_pos hstop).trans rfl

theorem sameWords_model {x : BitVec 16} (hblank : hiByte x ≠ blank) (hn : hiByte x ≠ 0x4e)
    (behind : List Byte) :
    ataStrncmp (nec260 ++ behind) (load (idCommon targetOrder (sameWords x)).2 54 40) = false := by
  have hload : load (store (fun _ => 0) 0 (wordBytes .big (fun _ => x) 0 256)) 54 40 =
      hiByte x :: loByte x :: wordBytes .big (fun _ => x) 28 19 := by
    refine (load_words .big (fun _ => x) (fun _ => 0) (show 27 + 20 ≤ 256 by omega)).trans ?_
    rw [wordBytes, big_bytes]
    rfl
  rw [idCommon_true (sameWords_true _ x), targetOrder]
  exact (congrArg _ hload).trans (ataStrncmp_nec260 hblank hn)

/-- Only the letter A. -/
theorem identify_decoded_sameLetters :
    Decoded targetOrder (fun _ => 0x4141)
      (swapText [] (idCommon targetOrder (sameWords 0x4141)).2) :=
  (identify_decoded_iff (e := sameWords 0x4141) (sameWords_true _ _)
    (sameWords_model (by decide) (by decide) [])).mpr fun _ _ =>
      show hiByte 0x4141 = loByte 0x4141 by decide

/-- The letters A and B come out as B and A. -/
theorem identify_not_decoded :
    ¬Decoded targetOrder (fun _ => 0x4142)
      (swapText [] (idCommon targetOrder (sameWords 0x4142)).2) := by
  intro h
  have hmodel := (decoded_iff (e := sameWords 0x4142) (sameWords_true _ _)
    (sameWords_model (by decide) (by decide) [])).mp h 27 40 (by decide)
  have hsame : hiByte 0x4142 = loByte 0x4142 :=
    (swapWords_big_iff (fun _ => 0x4142) 27 20).mp hmodel 27 (by omega) (by omega)
  exact absurd hsame (by decide)

end Ata

end Sil3112
