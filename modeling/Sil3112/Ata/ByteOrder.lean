import Mathlib.Data.List.Induction
import Sil3112.Lib.Bytes
import Sil3112.Ata.Hardware

/-!
# PIO and Byte Order

The bytes of a disk transfer by PIO, beside those of the same transfer by DMA.
The DMA engine moves bytes as they come. PIO goes through a 16-bit register:
`ddi_rep_get16` puts each value into memory in the order of the host, and how
the value is made of the two bytes on the bus is said by the access attributes
of the register. `ata_setup_ioaddr` asks for little-endian access, and the
target of the build is big-endian.

So the two bytes of every word change places. A buf that is read by PIO has the
bytes of one read by DMA only if those two are always the same, and likewise for
writing. The last byte of an odd transfer is not moved at all.

## Main definitions

* `AccEndian`: `devacc_attr_endian_flags`.
* `ddiRepGet16`, `ddiRepPut16`: Words between the register and memory.
* `pioRecv`, `pioSend`: What the data operations of a packet do.
* `runIntr`: The interrupts of a command, up to the one that finishes it.
* `Doubled`: The two bytes of every word are the same.

## Theorems

* `ddiRepGet16_swaps`, `ddiRepPut16_swaps`: The words move with their bytes
  exchanged.
* `pioIn_store`, `pioOut_load`: What a command moves by PIO.
* `pio_same_as_dma_iff`: When it is what DMA moves.
-/

namespace Sil3112

namespace Ata

open Ghd Transition Bytes

/-! ## Access to the registers -/

/-- `devacc_attr_endian_flags` -/
inductive AccEndian where
  | neverSwap
  | structureLe
  | structureBe

/-- The order in which an access takes the bytes of a register for a number. -/
def AccEndian.order (host : ByteOrder) : AccEndian → ByteOrder
  | neverSwap => host
  | structureLe => .little
  | structureBe => .big

/-- The build target, `sparc64`. -/
def targetOrder : ByteOrder := .big

/-- The registers, as `ata_setup_ioaddr` maps them. -/
def ioAcc : AccEndian := .structureLe

/-- Words read in one order and written in the other. -/
def moveWords (src dst : ByteOrder) : List Byte → List Byte
  | b :: b' :: l => dst.bytes 2 (src.val [b, b']) ++ moveWords src dst l
  | _ => []

/-- `ddi_rep_get16`: the bytes that come to memory, of those on the bus. -/
def ddiRepGet16 (host : ByteOrder) (acc : AccEndian) (bus : List Byte) : List Byte :=
  moveWords (acc.order host) host bus

/-- `ddi_rep_put16`: the bytes that go on the bus, of those in memory. -/
def ddiRepPut16 (host : ByteOrder) (acc : AccEndian) (buf : List Byte) : List Byte :=
  moveWords host (acc.order host) buf

/-- Words with their bytes exchanged, without an odd byte at the end. -/
def swapWords : List Byte → List Byte
  | b :: b' :: l => b' :: b :: swapWords l
  | _ => []

/-- The two bytes of every word are the same. -/
def Doubled (l : List Byte) : Prop :=
  ∀ i, 2 * i + 1 < l.length → l[2 * i]? = l[2 * i + 1]?

theorem bytes_val_pair (o : ByteOrder) (b b' : Byte) : o.bytes 2 (o.val [b, b']) = [b, b'] :=
  o.bytes_val [b, b']

@[simp] theorem moveWords_nil (src dst : ByteOrder) : moveWords src dst [] = [] := by
  simp [moveWords]

@[simp] theorem moveWords_single (src dst : ByteOrder) (b : Byte) :
    moveWords src dst [b] = [] := by
  simp [moveWords]

@[simp] theorem swapWords_nil : swapWords [] = [] := by
  simp [swapWords]

@[simp] theorem swapWords_single (b : Byte) : swapWords [b] = [] := by
  simp [swapWords]

/-- A word read in one order and written in the other has its bytes exchanged. -/
theorem moveWords_swaps {src dst : ByteOrder} (h : src ≠ dst) (l : List Byte) :
    moveWords src dst l = swapWords l := by
  induction l using List.twoStepInduction with
  | nil => simp
  | singleton b => simp
  | cons_cons b b' l ih _ =>
      -- The value of a pair in one order is that of the pair exchanged in the other.
      have hpair : dst.bytes 2 (src.val [b, b']) = [b', b] := by
        rw [← bytes_val_pair dst b' b]
        rcases src with _ | _ <;> rcases dst with _ | _
        · exact absurd rfl h
        · rfl
        · rfl
        · exact absurd rfl h
      rw [moveWords, swapWords, ih, hpair]
      rfl

theorem ddiRepGet16_swaps (bus : List Byte) :
    ddiRepGet16 targetOrder ioAcc bus = swapWords bus :=
  moveWords_swaps (by decide) bus

theorem ddiRepPut16_swaps (buf : List Byte) :
    ddiRepPut16 targetOrder ioAcc buf = swapWords buf :=
  moveWords_swaps (by decide) buf

theorem length_swapWords (l : List Byte) : (swapWords l).length = 2 * (l.length / 2) := by
  induction l using List.twoStepInduction with
  | nil => simp
  | singleton b => simp
  | cons_cons b b' l ih _ =>
      simp only [swapWords, List.length_cons, ih]
      omega

theorem swapWords_append (l' : List Byte) : ∀ {l : List Byte}, l.length % 2 = 0 →
    swapWords (l ++ l') = swapWords l ++ swapWords l' := by
  intro l
  induction l using List.twoStepInduction with
  | nil => simp
  | singleton b => simp
  | cons_cons b b' l ih _ =>
      intro h
      simp only [List.length_cons] at h
      rw [List.cons_append, List.cons_append, swapWords, swapWords, ih (by omega)]
      rfl

theorem two_mul_half_cons (b b' : Byte) (l : List Byte) :
    2 * ((b :: b' :: l).length / 2) = 2 * (l.length / 2) + 1 + 1 := by
  simp only [List.length_cons]
  omega

/-- An odd byte at the end is not moved. -/
theorem swapWords_take (l : List Byte) : swapWords (l.take (2 * (l.length / 2))) = swapWords l := by
  induction l using List.twoStepInduction with
  | nil => simp
  | singleton b => simp
  | cons_cons b b' l ih _ =>
      rw [two_mul_half_cons, List.take_succ_cons, List.take_succ_cons, swapWords, swapWords, ih]

theorem doubled_cons {b b' : Byte} {l : List Byte} :
    Doubled (b :: b' :: l) ↔ b = b' ∧ Doubled l := by
  constructor
  · intro h
    constructor
    · have h0 := h 0 (by simp)
      simpa using h0
    · intro i hi
      have hstep := h (i + 1) (by rw [List.length_cons, List.length_cons]; omega)
      rw [show 2 * (i + 1) = 2 * i + 1 + 1 by omega] at hstep
      simpa using hstep
  · rintro ⟨rfl, h⟩ i hi
    rcases i with _ | i
    · rfl
    · rw [show 2 * (i + 1) = 2 * i + 1 + 1 by omega]
      rw [List.length_cons, List.length_cons] at hi
      simpa using h i (by omega)

/-- Exchanging the bytes of the words changes nothing if and only if they are the
    same. -/
theorem swapWords_eq_take_iff (l : List Byte) :
    swapWords l = l.take (2 * (l.length / 2)) ↔ Doubled l := by
  induction l using List.twoStepInduction with
  | nil => simp [Doubled]
  | singleton b => simp [Doubled]
  | cons_cons b b' l ih _ =>
      rw [two_mul_half_cons, List.take_succ_cons, List.take_succ_cons, swapWords, doubled_cons,
        ← ih, List.cons.injEq, List.cons.injEq]
      constructor
      · rintro ⟨h, _, h'⟩
        exact ⟨h.symm, h'⟩
      · rintro ⟨rfl, h⟩
        exact ⟨rfl, rfl, h⟩

/-! ## The data of a command -/

/-- The memory and what the drive has to give, after a data operation of a read.
    The disk functions move words only. -/
def DataOp.recv (st : (Nat → Byte) × List Byte) : DataOp → (Nat → Byte) × List Byte
  | .getWords a n =>
    (store st.1 a (ddiRepGet16 targetOrder ioAcc (st.2.take (2 * n))), st.2.drop (2 * n))
  | _ => st

/-- What a data operation of a write puts on the bus. -/
def DataOp.send (mem : Nat → Byte) : DataOp → List Byte
  | .putWords a n => ddiRepPut16 targetOrder ioAcc (load mem a (2 * n))
  | _ => []

/-- The memory after the operations of a packet, the last of them first, when the
    drive gives these bytes. -/
def pioRecv (ops : List DataOp) (mem : Nat → Byte) (data : List Byte) : Nat → Byte :=
  (ops.reverse.foldl DataOp.recv (mem, data)).1

/-- What the operations of a packet put on the bus. -/
def pioSend (ops : List DataOp) (mem : Nat → Byte) : List Byte :=
  ops.reverse.flatMap (DataOp.send mem)

/-- The memory after a read by DMA. -/
def dmaRecv (a : Nat) (mem : Nat → Byte) (data : List Byte) : Nat → Byte :=
  store mem a data

/-- What a write by DMA puts on the bus. -/
def dmaSend (a n : Nat) (mem : Nat → Byte) : List Byte :=
  load mem a n

/-- The interrupts of a command, up to the one after which it is finished. -/
def runIntr (intr : Regs → DrvSys → DrvSys × FsmRc) : List Regs → DrvSys → Option DrvSys
  | [], _ => none
  | r :: rs, s => if (intr r s).2 = .fini then some (intr r s).1 else runIntr intr rs (intr r s).1

/-- The drive has a block of a read and no error. -/
def Regs.GivesBlock (r : Regs) : Prop :=
  r.status.bsy = false ∧ r.status.ready = true

/-- The drive has taken the last block of a write and asks for the next. -/
def Regs.TakesBlock (r : Regs) : Prop :=
  r.status.df = false ∧ r.status.err = false ∧ r.altStatus.bsy = false ∧ r.altStatus.ready = true

/-- A packet of which nothing has been moved, in blocks of whole sectors. -/
structure PioFresh (s : DrvSys) : Prop where
  ops : s.xfer.ops = []
  wrtCount : s.xfer.wrtCount = 0
  block : nbpsctr ∣ s.xfer.bytesPerBlock
  size : s.xfer.resid < 2 ^ 64

/-- A read of this data by PIO, in the course of which the memory has become
    `mem'`. -/
structure PioRead (s : DrvSys) (mem mem' : Nat → Byte) (data : List Byte) (rs : List Regs)
    (s' : DrvSys) : Prop where
  fresh : PioFresh s
  size : data.length = s.xfer.resid
  good : ∀ r ∈ rs, r.GivesBlock
  run : runIntr diskIntrPioIn rs s = some s'
  done : s'.xfer.resid = 0
  mem : mem' = pioRecv s'.xfer.ops mem data

/-- A write by PIO, in the course of which `out` has gone to the drive. -/
structure PioWrite (s : DrvSys) (mem : Nat → Byte) (out : List Byte) (rs : List Regs)
    (s' : DrvSys) : Prop where
  fresh : PioFresh s
  good : ∀ r ∈ rs, r.TakesBlock
  run : runIntr diskIntrPioOut rs s = some s'
  done : s'.xfer.resid = 0
  out : out = pioSend s'.xfer.ops mem

/-- Clearing the interrupt leaves the data of the packet as it is. -/
theorem getStatusClearIntr_data (r : Regs) (s : DrvSys) :
    (getStatusClearIntr r s).xfer.vAddr = s.xfer.vAddr ∧
    (getStatusClearIntr r s).xfer.resid = s.xfer.resid ∧
    (getStatusClearIntr r s).xfer.bytesPerBlock = s.xfer.bytesPerBlock ∧
    (getStatusClearIntr r s).xfer.wrtCount = s.xfer.wrtCount ∧
    (getStatusClearIntr r s).xfer.ops = s.xfer.ops := by
  unfold getStatusClearIntr
  split
  · exact ⟨rfl, rfl, rfl, rfl, rfl⟩
  · exact ⟨rfl, rfl, rfl, rfl, rfl⟩

/-- The next block of a read. -/
def Xfer.blockIn (x : Xfer) : Nat := min x.resid x.bytesPerBlock

/-- What an interrupt of a read without an error does to the data of the packet. -/
theorem diskIntrPioIn_data {r : Regs} (hr : r.GivesBlock) (s : DrvSys) :
    (diskIntrPioIn r s).1.xfer.vAddr = s.xfer.vAddr + s.xfer.blockIn ∧
    (diskIntrPioIn r s).1.xfer.resid = s.xfer.resid - s.xfer.blockIn ∧
    (diskIntrPioIn r s).1.xfer.bytesPerBlock = s.xfer.bytesPerBlock ∧
    (diskIntrPioIn r s).1.xfer.ops =
      .getWords s.xfer.vAddr (s.xfer.blockIn / 2) :: s.xfer.ops := by
  rcases hr with ⟨hbsy, hready⟩
  have hdrq : r.status.drq = true := by
    unfold AtaStatus.ready at hready
    simp only [Bool.and_eq_true] at hready
    exact hready.1.1
  rcases getStatusClearIntr_data r s with ⟨hv, hres, hbpb, _, hops⟩
  unfold Xfer.blockIn
  rw [← hv, ← hres, ← hbpb, ← hops]
  unfold diskIntrPioIn
  simp only [hbsy, hready, hdrq, Bool.false_eq_true, if_false, if_true]
  -- The flags that a stuck DRQ sets are not data.
  split
  · exact ⟨rfl, rfl, rfl, rfl⟩
  · split
    · exact ⟨rfl, rfl, rfl, rfl⟩
    · exact ⟨rfl, rfl, rfl, rfl⟩

/-- Words stored in two parts, of which only the last may be odd. -/
theorem store_swapWords {b : Nat} {l : List Byte} (mem : Nat → Byte) (a : Nat)
    (h : b % 2 = 0 ∨ b = l.length) (hle : b ≤ l.length) :
    store (store mem a (swapWords (l.take b))) (a + b) (swapWords (l.drop b)) =
      store mem a (swapWords l) := by
  have hlen : (l.take b).length = b := by rw [List.length_take, Nat.min_eq_left hle]
  rcases h with h | h
  · have hswap : (swapWords (l.take b)).length = b := by
      rw [length_swapWords, hlen]
      omega
    have hjoin := store_append mem a (swapWords (l.take b)) (swapWords (l.drop b))
    rw [hswap] at hjoin
    rw [hjoin, ← swapWords_append _ (by rw [hlen]; exact h), List.take_append_drop]
  · rw [h, List.take_length, List.drop_length, swapWords_nil, store_nil]

/-- What a read by PIO leaves in memory: the data with the bytes of every word
    exchanged. `rest` is what the drive has beyond this command. -/
theorem pioIn_store : ∀ (rs : List Regs) {s s' : DrvSys} (mem : Nat → Byte)
    (data rest : List Byte), (∀ r ∈ rs, r.GivesBlock) → 2 ∣ s.xfer.bytesPerBlock →
    data.length = s.xfer.resid → runIntr diskIntrPioIn rs s = some s' → s'.xfer.resid = 0 →
    ∃ ops, s'.xfer.ops = ops ++ s.xfer.ops ∧
      (ops.reverse.foldl DataOp.recv (mem, data ++ rest)).1 =
        store mem s.xfer.vAddr (swapWords data) := by
  intro rs
  induction rs with
  | nil =>
      intro s s' mem data rest _ _ _ hrun _
      rw [runIntr] at hrun
      exact absurd hrun (by simp)
  | cons r rs ih =>
      intro s s' mem data rest hgood hb hlen hrun hdone
      rcases diskIntrPioIn_data (hgood r List.mem_cons_self) s with ⟨hv, hres, hbpb, hops⟩
      rw [runIntr] at hrun
      generalize (diskIntrPioIn r s) = t at *
      have hle : s.xfer.blockIn ≤ data.length := by
        rw [hlen]
        exact Nat.min_le_left _ _
      -- A block that is not even is the last one.
      have hodd : s.xfer.blockIn % 2 = 0 ∨ s.xfer.blockIn = data.length := by
        unfold Xfer.blockIn
        omega
      have htake : (data ++ rest).take (2 * (s.xfer.blockIn / 2)) =
          (data.take s.xfer.blockIn).take (2 * ((data.take s.xfer.blockIn).length / 2)) := by
        rw [List.length_take, Nat.min_eq_left hle, List.take_take, List.take_append_of_le_length
          (by omega), Nat.min_eq_left (by omega)]
      have hblock : ddiRepGet16 targetOrder ioAcc ((data ++ rest).take (2 * (s.xfer.blockIn / 2)))
          = swapWords (data.take s.xfer.blockIn) := by
        rw [ddiRepGet16_swaps, htake, swapWords_take]
      by_cases hfini : t.2 = .fini
      · rw [if_pos hfini, Option.some.injEq] at hrun
        subst hrun
        have hall : s.xfer.blockIn = data.length := by omega
        refine ⟨[.getWords s.xfer.vAddr (s.xfer.blockIn / 2)], hops, ?_⟩
        rw [List.reverse_singleton, List.foldl_cons, List.foldl_nil, DataOp.recv, hblock, hall,
          List.take_length]
      · rw [if_neg hfini] at hrun
        have hrest : ∃ rest', (data ++ rest).drop (2 * (s.xfer.blockIn / 2)) =
            data.drop s.xfer.blockIn ++ rest' := by
          rcases hodd with h | h
          · exact ⟨rest, by rw [show 2 * (s.xfer.blockIn / 2) = s.xfer.blockIn by omega,
              List.drop_append_of_le_length hle]⟩
          · exact ⟨_, by rw [h, List.drop_length, List.nil_append]⟩
        rcases hrest with ⟨rest', hrest⟩
        rcases ih (store mem s.xfer.vAddr (swapWords (data.take s.xfer.blockIn)))
          (data.drop s.xfer.blockIn) rest' (fun r hr => hgood r (List.mem_cons_of_mem _ hr))
          (hbpb ▸ hb) (by rw [List.length_drop, hres, hlen]) hrun hdone with ⟨ops, hops', hmem⟩
        refine ⟨ops ++ [.getWords s.xfer.vAddr (s.xfer.blockIn / 2)], ?_, ?_⟩
        · rw [hops', hops, List.append_assoc]
          rfl
        · rw [List.reverse_append, List.reverse_singleton, List.singleton_append, List.foldl_cons,
            DataOp.recv, hblock, hrest, hmem, hv]
          exact store_swapWords mem _ hodd hle

/-- What an interrupt of a write without an error does to the data of the packet:
    the last block counts as written, and the next one goes out. -/
theorem diskIntrPioOut_data {r : Regs} (hr : r.TakesBlock) {s : DrvSys}
    (hw : s.xfer.wrtCount ≤ s.xfer.resid) (hsize : s.xfer.resid < 2 ^ 64) :
    (diskIntrPioOut r s).1.xfer.vAddr = s.xfer.vAddr + s.xfer.wrtCount ∧
    (diskIntrPioOut r s).1.xfer.resid = s.xfer.resid - s.xfer.wrtCount ∧
    (diskIntrPioOut r s).1.xfer.bytesPerBlock = s.xfer.bytesPerBlock ∧
    (s.xfer.resid = s.xfer.wrtCount ∧ (diskIntrPioOut r s).2 = .fini ∧
        (diskIntrPioOut r s).1.xfer.ops = s.xfer.ops ∨
      s.xfer.resid ≠ s.xfer.wrtCount ∧ (diskIntrPioOut r s).2 = .okay ∧
        (diskIntrPioOut r s).1.xfer.wrtCount =
          min (s.xfer.resid - s.xfer.wrtCount) s.xfer.bytesPerBlock ∧
        (diskIntrPioOut r s).1.xfer.ops = .putWords (s.xfer.vAddr + s.xfer.wrtCount)
          (min (s.xfer.resid - s.xfer.wrtCount) s.xfer.bytesPerBlock / 2) :: s.xfer.ops) := by
  rcases hr with ⟨hdf, herr, hbsy, hready⟩
  rcases getStatusClearIntr_data r s with ⟨hv, hres, hbpb, hwrt, hops⟩
  have hulong : ulong ((s.xfer.resid : Int) - s.xfer.wrtCount) =
      s.xfer.resid - s.xfer.wrtCount := by
    unfold ulong
    omega
  unfold diskIntrPioOut
  simp only [hdf, herr, hbsy, hready, Bool.or_self, Bool.false_eq_true, if_false, if_true, hv,
    hres, hwrt, hulong]
  by_cases hlast : s.xfer.resid = s.xfer.wrtCount
  · rw [if_pos (by omega)]
    exact ⟨rfl, rfl, hbpb, Or.inl ⟨hlast, rfl, hops⟩⟩
  · rw [if_neg (by omega)]
    refine ⟨rfl, rfl, hbpb, Or.inr ⟨hlast, rfl, ?_, ?_⟩⟩
    · unfold pioXferDataOut
      dsimp only
      rw [hbpb]
    · unfold pioXferDataOut
      dsimp only
      rw [hbpb, hops]

/-- Words loaded in two parts, of which only the last may be odd. -/
theorem swapWords_load {w n : Nat} (mem : Nat → Byte) (a : Nat) (h : w % 2 = 0 ∨ w = n)
    (hle : w ≤ n) :
    swapWords (load mem a (2 * (w / 2))) ++ swapWords (load mem (a + w) (n - w)) =
      swapWords (load mem a n) := by
  rcases h with h | h
  · have hload := load_add mem a w (n - w)
    rw [Nat.add_sub_cancel' hle] at hload
    rw [show 2 * (w / 2) = w by omega, hload, swapWords_append _ (by rw [length_load]; exact h)]
  · rw [h, Nat.sub_self, load_zero, swapWords_nil, List.append_nil,
      ← take_load mem a (show 2 * (n / 2) ≤ n by omega)]
    have htake := swapWords_take (load mem a n)
    rw [length_load] at htake
    exact htake

/-- What a write by PIO puts on the bus: the buffer with the bytes of every word
    exchanged. -/
theorem pioOut_load : ∀ (rs : List Regs) {s s' : DrvSys} (mem : Nat → Byte),
    (∀ r ∈ rs, r.TakesBlock) → 2 ∣ s.xfer.bytesPerBlock → s.xfer.wrtCount ≤ s.xfer.resid →
    s.xfer.resid < 2 ^ 64 → runIntr diskIntrPioOut rs s = some s' → s'.xfer.resid = 0 →
    ∃ ops, s'.xfer.ops = ops ++ s.xfer.ops ∧ ops.reverse.flatMap (DataOp.send mem) =
      swapWords (load mem (s.xfer.vAddr + s.xfer.wrtCount) (s.xfer.resid - s.xfer.wrtCount)) := by
  intro rs
  induction rs with
  | nil =>
      intro s s' mem _ _ _ _ hrun _
      rw [runIntr] at hrun
      exact absurd hrun (by simp)
  | cons r rs ih =>
      intro s s' mem hgood hb hw hsize hrun hdone
      -- the interrupt counts the block before and sends the next one, or it is the last one
      rcases diskIntrPioOut_data (hgood r List.mem_cons_self) hw hsize with
        ⟨hv, hres, hbpb, ⟨hlast, hfini, hops⟩ | ⟨hlast, hokay, hwrt, hops⟩⟩
      · rw [runIntr, if_pos hfini, Option.some.injEq] at hrun
        subst hrun
        refine ⟨[], hops, ?_⟩
        rw [hlast, Nat.sub_self, load_zero, swapWords_nil]
        rfl
      · rw [runIntr, if_neg (by rw [hokay]; decide)] at hrun
        generalize (diskIntrPioOut r s).1 = t at *
        rcases ih mem (fun r hr => hgood r (List.mem_cons_of_mem _ hr)) (hbpb ▸ hb)
          (by omega) (by omega) hrun hdone with ⟨ops, hops', hout⟩
        refine ⟨ops ++ [.putWords (s.xfer.vAddr + s.xfer.wrtCount) (t.xfer.wrtCount / 2)], ?_, ?_⟩
        · rw [hops', hops, hwrt, List.append_assoc]
          rfl
        · rw [List.reverse_append, List.reverse_singleton, List.singleton_append,
            List.flatMap_cons, hout, hv, hres, DataOp.send, ddiRepPut16_swaps]
          exact swapWords_load mem _ (by omega) (by omega)

/-- A packet that has been read has the data with the bytes of every word
    exchanged. -/
theorem PioRead.swapped {s s' : DrvSys} {mem mem' : Nat → Byte} {data : List Byte}
    {rs : List Regs} (h : PioRead s mem mem' data rs s') :
    mem' = store mem s.xfer.vAddr (swapWords data) := by
  have hb : 2 ∣ s.xfer.bytesPerBlock := Dvd.dvd.trans (by decide) h.fresh.block
  rcases pioIn_store rs mem data [] h.good hb h.size h.run h.done with ⟨ops, hops, hmem⟩
  rw [h.fresh.ops, List.append_nil] at hops
  rw [h.mem, pioRecv, hops, ← hmem, List.append_nil]

theorem PioWrite.swapped {s s' : DrvSys} {mem : Nat → Byte} {out : List Byte} {rs : List Regs}
    (h : PioWrite s mem out rs s') :
    out = swapWords (load mem s.xfer.vAddr s.xfer.resid) := by
  have hb : 2 ∣ s.xfer.bytesPerBlock := Dvd.dvd.trans (by decide) h.fresh.block
  have hw := h.fresh.wrtCount
  rcases pioOut_load rs mem h.good hb (by omega) h.fresh.size h.run h.done with ⟨ops, hops, hout⟩
  rw [h.fresh.ops, List.append_nil] at hops
  rw [h.out, pioSend, hops, hout, hw]
  rfl

/-- The bytes of the words exchanged, and the last byte left as it was, are the
    data. -/
theorem store_swapWords_iff (mem : Nat → Byte) (a : Nat) (l : List Byte) :
    store mem a (swapWords l) = store mem a l ↔
      Doubled l ∧ (l.length % 2 = 1 → l.getLast? = some (mem (a + (l.length - 1)))) := by
  have htake : (l.take (2 * (l.length / 2))).length = 2 * (l.length / 2) := by
    rw [List.length_take]
    omega
  rw [← swapWords_eq_take_iff]
  constructor
  · intro h
    constructor
    · have hload := load_store mem a (swapWords l)
      rw [h, length_swapWords, ← take_load _ _ (show 2 * (l.length / 2) ≤ l.length by omega),
        load_store] at hload
      exact hload.symm
    · intro hodd
      have hlast := congrFun h (a + (l.length - 1))
      rw [store_outside (by rw [length_swapWords]; omega), store_at (by omega)] at hlast
      rw [hlast, List.getLast?_eq_getElem?, List.getElem?_eq_getElem (by omega)]
  · rintro ⟨h, hodd⟩
    have hjoin := store_append mem a (l.take (2 * (l.length / 2))) (l.drop (2 * (l.length / 2)))
    rw [List.take_append_drop] at hjoin
    rw [h, ← hjoin]
    -- An odd byte is stored over itself.
    refine (store_load ?_).symm
    rw [load_store_of_disjoint (Or.inr le_rfl), htake]
    by_cases hl : l.length % 2 = 1
    · have hlast := hodd hl
      have hdrop : l.drop (2 * (l.length / 2)) = [mem (a + 2 * (l.length / 2))] := by
        rw [List.getLast?_eq_getElem?, show l.length - 1 = 2 * (l.length / 2) by omega,
          List.getElem?_eq_getElem (by omega), Option.some.injEq] at hlast
        rw [List.drop_eq_getElem_cons (by omega), List.drop_eq_nil_of_le (by omega)]
        exact congrArg (· :: []) hlast
      rw [hdrop]
      rfl
    · rw [List.drop_eq_nil_of_le (by omega)]
      rfl

/-- The bytes of the words exchanged are the whole data. -/
theorem swapWords_eq_iff (l : List Byte) : swapWords l = l ↔ l.length % 2 = 0 ∧ Doubled l := by
  rw [← swapWords_eq_take_iff]
  constructor
  · intro h
    have hlen := congrArg List.length h
    rw [length_swapWords] at hlen
    exact ⟨by omega, by rw [h, List.take_of_length_le (by omega)]⟩
  · rintro ⟨heven, h⟩
    rw [h, List.take_of_length_le (by omega)]

/-- When PIO moves the bytes that DMA moves. For a read of odd length the last
    byte of the buffer has to be right beforehand. -/
theorem pio_same_as_dma_iff (s : DrvSys) (mem : Nat → Byte) (rs : List Regs) (s' : DrvSys) :
    (∀ (data : List Byte) (mem' : Nat → Byte), PioRead s mem mem' data rs s' →
      (mem' = dmaRecv s.xfer.vAddr mem data ↔ Doubled data ∧
        (data.length % 2 = 1 →
          data.getLast? = some (mem (s.xfer.vAddr + (data.length - 1)))))) ∧
    (∀ out : List Byte, PioWrite s mem out rs s' →
      (out = dmaSend s.xfer.vAddr s.xfer.resid mem ↔
        s.xfer.resid % 2 = 0 ∧ Doubled (load mem s.xfer.vAddr s.xfer.resid))) := by
  constructor
  · intro data mem' h
    rw [h.swapped]
    exact store_swapWords_iff mem s.xfer.vAddr data
  · intro out h
    rw [h.swapped, dmaSend, swapWords_eq_iff, length_load]

/-- A read of one sector by PIO, to address 0. -/
def sectorRead : DrvSys where
  drv := {}
  bmicx := 0
  pkt := ⟨{ read := true }, false, false⟩
  xfer := { resid := 512 }

/-- The drive is ready with a block. -/
def blockReady : Regs := { status := { drq := true } }

/-- A packet of one sector is read with one interrupt, which leaves this in memory. -/
theorem sectorRead_read (mem : Nat → Byte) {data : List Byte} (h : data.length = 512) :
    PioRead sectorRead mem (pioRecv [.getWords 0 256] mem data) data [blockReady]
      (diskIntrPioIn blockReady sectorRead).1 where
  fresh := ⟨rfl, rfl, dvd_refl _, by decide⟩
  size := h
  good := by simp [Regs.GivesBlock, blockReady, AtaStatus.ready]
  run := rfl
  done := rfl
  mem := rfl

/-- A sector of one kind of byte comes to memory as by DMA. -/
theorem pio_same_as_dma_uniform : pioRecv [.getWords 0 256] (fun _ => 0)
    (List.replicate 512 0xE5) = dmaRecv 0 (fun _ => 0) (List.replicate 512 0xE5) := by
  refine ((pio_same_as_dma_iff sectorRead (fun _ => 0) [blockReady] _).1 _ _
    (sectorRead_read _ (List.length_replicate ..))).2 ⟨fun i hi => ?_, fun h => ?_⟩
  · rw [List.length_replicate] at hi
    rw [List.getElem?_replicate_of_lt hi, List.getElem?_replicate_of_lt (by omega)]
  · rw [List.length_replicate] at h
    omega

/-- A sector that begins with a byte 1 and is 0 otherwise begins with 0 in memory. -/
theorem pio_swaps_first_word : ∃ mem' s', PioRead sectorRead (fun _ => 0) mem'
    (1 :: List.replicate 511 0) [blockReady] s' ∧
    mem' ≠ dmaRecv sectorRead.xfer.vAddr (fun _ => 0) (1 :: List.replicate 511 0) := by
  refine ⟨_, _, sectorRead_read (fun _ => 0) (by rw [List.length_cons, List.length_replicate]),
    fun h => ?_⟩
  have h0 := congrFun h 0
  revert h0
  decide +kernel

end Ata

end Sil3112
