import Sil3112.Ata.ByteOrder
import Sil3112.Ata.Dma

/-!
# The Table of the DMA Engine

`ata_pciide_dma_setup`, which copies the scatter/gather list of a packet to the
table that the bus master reads, and marks its last entry. The engine reads
little-endian numbers. The table is memory that `ata_pciide_alloc` has asked for
with `DDI_NEVERSWAP_ACC`, so what `ddi_put32` stores there is in the order of
the host. That is the wrong one on the target.

An address is then read correctly only if its bytes are the same backwards. A
count of at most `0xffff` has its bytes in the lower half, and the mark is in
the highest byte. So the count of an entry that is not the last has to be 0, and
that of the last has to be `0x80`, which the mark mirrors.

The mark is made in the list of the packet itself. A second setup of the same
list finds it there and leaves the same table.

## Main definitions

* `PrdCtl`, `dmaSetup`: The table, and how it is filled.
* `EngineReads`: The list that the engine makes of the table.
* `SameBackwards`: The bytes of a number are the same backwards.

## Theorems

* `dmaSetup_word`: What the engine reads of an entry.
* `dmaSetup_twice`: A second setup leaves the same list.
* `engineReads_iff`: When the engine reads the list that was set up.
* `prd_roundtrip_iff`: The same of a list that has been collected from cookies.
-/

namespace Sil3112

namespace Ata

open Ghd Bytes

/-! ## The table -/

/-- The memory of the table, as `ata_pciide_alloc` asks for it. -/
def prdAcc : AccEndian := .neverSwap

/-- `ddi_put32`, into the table. -/
def ddiPut32 (tab : Nat → Byte) (off x : Nat) : Nat → Byte :=
  store tab off ((prdAcc.order targetOrder).bytes 4 x)

/-- `PCIIDE_PRDE_EOT` -/
def prdeEot : Nat := 0x80000000

/-- The fields of an `ata_ctl_t` for the table: `ac_sg_list` as the memory it points
    to, and `ac_sg_paddr`. `bmidtpx` is the register that tells the engine where
    the table is. -/
structure PrdCtl where
  sgTab : Nat → Byte
  sgPaddr : Nat
  bmidtpx : Nat

/-- An entry of the table: `dstp` is advanced past two numbers. -/
def putPrde (tab : Nat → Byte) (idx : Nat) (e : Prde) : Nat → Byte :=
  ddiPut32 (ddiPut32 tab (8 * idx) e.address) (8 * idx + 4) e.count

/-- `ata_pciide_dma_setup`: the list of the packet afterwards, and the controller. -/
def dmaSetup (c : PrdCtl) (src : Nat → Prde) (sgCnt : Nat) : (Nat → Prde) × PrdCtl :=
  let tab := (List.range (sgCnt - 1)).foldl (fun tab idx => putPrde tab idx (src idx)) c.sgTab
  let last := src (sgCnt - 1)
  let last := { last with count := last.count ||| prdeEot }
  (Function.update src (sgCnt - 1) last,
    { c with sgTab := putPrde tab (sgCnt - 1) last, bmidtpx := c.sgPaddr })

/-! ## The engine -/

/-- A number of the table, as the engine reads it. -/
def engineWord (tab : Nat → Byte) (off : Nat) : Nat :=
  ByteOrder.little.val (load tab off 4)

/-- The engine makes this list of the table, from an entry on: pairs of an address
    and a count, up to the first that has the mark. -/
def EngineReads (tab : Nat → Byte) : Nat → List Prde → Prop
  | _, [] => False
  | idx, e :: l =>
    engineWord tab (8 * idx) = e.address ∧
    engineWord tab (8 * idx + 4) % prdeEot = e.count ∧
    if prdeEot ≤ engineWord tab (8 * idx + 4) then l = [] else EngineReads tab (idx + 1) l

/-- The engine makes one list of a table. -/
theorem EngineReads.unique {tab : Nat → Byte} : ∀ {l l' : List Prde} {idx : Nat},
    EngineReads tab idx l → EngineReads tab idx l' → l = l' := by
  intro l
  induction l with
  | nil => exact fun h => h.elim
  | cons e l ih =>
      intro l' idx h h'
      cases l' with
      | nil => exact h'.elim
      | cons e' l' =>
          rcases h with ⟨ha, hc, hrest⟩
          rcases h' with ⟨ha', hc', hrest'⟩
          have he : e = e' := by
            cases e
            cases e'
            simp only at ha ha' hc hc'
            rw [← ha, ← hc, ha', hc']
          rw [he]
          refine congrArg (e' :: ·) ?_
          -- the end of the table is a bit of the entry that both have read
          by_cases hm : prdeEot ≤ engineWord tab (8 * idx + 4)
          · rw [if_pos hm] at hrest hrest'
            rw [hrest, hrest']
          · rw [if_neg hm] at hrest hrest'
            exact ih hrest hrest'

/-- The bytes of a number are the same backwards. -/
def SameBackwards (x : Nat) : Prop :=
  (leBytes 4 x).reverse = leBytes 4 x

instance (x : Nat) : Decidable (SameBackwards x) :=
  inferInstanceAs (Decidable (_ = _))

/-- A number with its four bytes exchanged. -/
def bswap (x : Nat) : Nat :=
  ByteOrder.little.val (targetOrder.bytes 4 x)

theorem bswap_eq_iff {x : Nat} (h : x < 2 ^ 32) : bswap x = x ↔ SameBackwards x := by
  have hval := ByteOrder.val_little_big 4 x
  rw [Nat.mod_eq_of_lt (by omega)] at hval
  exact hval

/-- The bytes of a number, one by one. -/
theorem bswap_eq (x : Nat) : bswap x =
    x / 16777216 % 256 + 256 * (x / 65536 % 256) + 65536 * (x / 256 % 256) +
      16777216 * (x % 256) := by
  simp only [bswap, ByteOrder.val, targetOrder, ByteOrder.bytes, leBytes, List.reverse_cons,
    List.reverse_nil, List.nil_append, List.cons_append, leVal_cons, leVal_nil,
    BitVec.toNat_ofNat, Nat.div_div_eq_div_mul, Nat.reduceMul, Nat.reducePow]
  omega

/-! ## Setting up a list -/

/-- The list of a packet with the mark on its last entry. -/
def marked (src : Nat → Prde) (sgCnt : Nat) : Nat → Prde :=
  Function.update src (sgCnt - 1)
    { src (sgCnt - 1) with count := (src (sgCnt - 1)).count ||| prdeEot }

/-- The list of the packet after a setup. -/
theorem dmaSetup_src (c : PrdCtl) (src : Nat → Prde) (sgCnt : Nat) :
    (dmaSetup c src sgCnt).1 = marked src sgCnt := rfl

/-- The mark is there already when a list is set up a second time. -/
theorem marked_marked (src : Nat → Prde) (sgCnt : Nat) :
    marked (marked src sgCnt) sgCnt = marked src sgCnt := by
  unfold marked
  rw [Function.update_self, Function.update_idem]
  dsimp only
  rw [Nat.or_assoc, Nat.or_self]

/-- The engine reads an entry with the bytes of its numbers exchanged. -/
theorem putPrde_self (tab : Nat → Byte) (i : Nat) (e : Prde) :
    engineWord (putPrde tab i e) (8 * i) = bswap e.address ∧
      engineWord (putPrde tab i e) (8 * i + 4) = bswap e.count := by
  have hlen : ∀ x, ((prdAcc.order targetOrder).bytes 4 x).length = 4 :=
    ByteOrder.length_bytes _ 4
  have hload : ∀ mem off x, load (ddiPut32 mem off x) off 4 = targetOrder.bytes 4 x := by
    intro mem off x
    have h := load_store mem off ((prdAcc.order targetOrder).bytes 4 x)
    rw [hlen] at h
    exact h
  constructor
  · unfold engineWord putPrde
    rw [ddiPut32, load_store_of_disjoint (Or.inl le_rfl), hload]
    rfl
  · unfold engineWord putPrde
    rw [hload]
    rfl

/-- Other entries stay as they are. -/
theorem putPrde_of_ne {tab : Nat → Byte} {i j : Nat} (e : Prde) (h : i ≠ j) :
    engineWord (putPrde tab i e) (8 * j) = engineWord tab (8 * j) ∧
      engineWord (putPrde tab i e) (8 * j + 4) = engineWord tab (8 * j + 4) := by
  have hlen : ∀ x, ((prdAcc.order targetOrder).bytes 4 x).length = 4 :=
    ByteOrder.length_bytes _ 4
  have hload : ∀ off, 8 * j ≤ off → off ≤ 8 * j + 4 →
      load (putPrde tab i e) off 4 = load tab off 4 := by
    intro off hlo hhi
    unfold putPrde ddiPut32
    rw [load_store_of_disjoint (by rw [hlen]; omega), load_store_of_disjoint (by rw [hlen]; omega)]
  unfold engineWord
  exact ⟨by rw [hload _ le_rfl (by omega)], by rw [hload _ (by omega) le_rfl]⟩

/-- The entries in front of the last. -/
theorem foldl_putPrde_word (src : Nat → Prde) (tab : Nat → Byte) (n : Nat) :
    ∀ j < n,
      engineWord ((List.range n).foldl (fun tab idx => putPrde tab idx (src idx)) tab) (8 * j) =
        bswap (src j).address ∧
      engineWord ((List.range n).foldl (fun tab idx => putPrde tab idx (src idx)) tab)
        (8 * j + 4) = bswap (src j).count := by
  induction n with
  | zero => exact fun j hj => absurd hj (Nat.not_lt_zero j)
  | succ n ih =>
      intro j hj
      rw [List.range_succ, List.foldl_append, List.foldl_cons, List.foldl_nil]
      by_cases hjn : j = n
      · rw [hjn]
        exact putPrde_self _ n (src n)
      · rw [(putPrde_of_ne _ (Ne.symm hjn)).1, (putPrde_of_ne _ (Ne.symm hjn)).2]
        exact ih j (by omega)

/-- What the engine reads of an entry is the entry of the packet after the setup,
    with the bytes of its numbers exchanged. -/
theorem dmaSetup_word (c : PrdCtl) (src : Nat → Prde) {sgCnt j : Nat} (hj : j < sgCnt) :
    engineWord (dmaSetup c src sgCnt).2.sgTab (8 * j) = bswap (marked src sgCnt j).address ∧
      engineWord (dmaSetup c src sgCnt).2.sgTab (8 * j + 4) =
        bswap (marked src sgCnt j).count := by
  unfold dmaSetup marked
  dsimp only
  by_cases hjn : j = sgCnt - 1
  · rw [hjn, Function.update_self]
    exact putPrde_self _ _ _
  · rw [Function.update_of_ne hjn, (putPrde_of_ne _ (Ne.symm hjn)).1,
      (putPrde_of_ne _ (Ne.symm hjn)).2]
    exact foldl_putPrde_word src c.sgTab (sgCnt - 1) j (by omega)

/-! ## The round trip -/

/-- An address of 32 bits and a count of at most `0xffff`. -/
structure Prde.InRange (e : Prde) : Prop where
  address : e.address < 2 ^ 32
  count : e.count ≤ 0xffff

/-- A count has its two bytes at the other end. -/
theorem bswap_count {c : Nat} (h : c ≤ 0xffff) :
    bswap c = 65536 * (c / 256) + 16777216 * (c % 256) := by
  rw [bswap_eq, Nat.div_eq_of_lt (show c < 16777216 by omega),
    Nat.div_eq_of_lt (show c < 65536 by omega)]
  omega

/-- And so has a marked one, with the mark in the lowest byte. -/
theorem bswap_marked {c : Nat} (h : c ≤ 0xffff) :
    bswap (c ||| prdeEot) = 128 + 65536 * (c / 256) + 16777216 * (c % 256) := by
  -- the mark is bit 31, which no count has
  have hor : c ||| prdeEot = c + 2147483648 := by
    have hadd := Nat.two_pow_add_eq_or_of_lt (show c < 2 ^ 31 by omega) 1
    rw [Nat.mul_one, Nat.or_comm] at hadd
    rw [prdeEot, ← hadd, Nat.add_comm]
  rw [hor, bswap_eq]
  omega

/-- An entry that is not the last survives: the address the same backwards, the
    count 0. -/
theorem entry_iff {e : Prde} (h : e.InRange) :
    bswap e.address = e.address ∧ bswap e.count % prdeEot = e.count ∧
        ¬prdeEot ≤ bswap e.count ↔ SameBackwards e.address ∧ e.count = 0 := by
  have hc := h.count
  rw [bswap_eq_iff h.address, bswap_count hc]
  unfold prdeEot
  refine and_congr_right fun _ => ⟨fun hw => ?_, fun hw => ?_⟩
  · have hmod := hw.1
    rw [Nat.mod_eq_of_lt (Nat.lt_of_not_le hw.2)] at hmod
    omega
  · rw [hw]
    exact ⟨by omega, by omega⟩

/-- And the last one: the count the mirror image of the mark. -/
theorem last_entry_iff {e : Prde} (h : e.InRange) :
    bswap e.address = e.address ∧ bswap (e.count ||| prdeEot) % prdeEot = e.count ∧
        prdeEot ≤ bswap (e.count ||| prdeEot) ↔ SameBackwards e.address ∧ e.count = 0x80 := by
  have hc := h.count
  rw [bswap_eq_iff h.address, bswap_marked hc]
  unfold prdeEot
  refine and_congr_right fun _ => ⟨fun hw => ?_, fun hw => ?_⟩
  · rcases hw with ⟨hmod, hge⟩
    have hlo : e.count % 256 < 256 := Nat.mod_lt _ (by omega)
    have hhi : e.count / 256 < 256 := by omega
    have hsplit : e.count = 256 * (e.count / 256) + e.count % 256 := by omega
    generalize e.count % 256 = lo at *
    generalize e.count / 256 = hi at *
    omega
  · rw [hw]
    exact ⟨by omega, by omega⟩

/-- The engine reads the entries from one on if and only if each of them
    survives. -/
theorem engineReads_from {tab : Nat → Byte} {src : Nat → Prde} {sgCnt : Nat}
    (hrange : ∀ j < sgCnt, (src j).InRange)
    (htab : ∀ j < sgCnt, engineWord tab (8 * j) = bswap (marked src sgCnt j).address ∧
      engineWord tab (8 * j + 4) = bswap (marked src sgCnt j).count) :
    ∀ (k i : Nat), i + (k + 1) = sgCnt →
      (EngineReads tab i ((List.range' i (k + 1)).map src) ↔
        ∀ j, i ≤ j → j < sgCnt → SameBackwards (src j).address ∧
          (src j).count = if j + 1 = sgCnt then 0x80 else 0) := by
  intro k
  -- on the number of entries behind the one at `i`
  induction k with
  | zero =>
      intro i hi
      have hlast : i = sgCnt - 1 := by omega
      have hword := htab i (by omega)
      rw [marked, hlast, Function.update_self, ← hlast] at hword
      rw [List.range'_succ, List.map_cons, List.range'_zero, List.map_nil, EngineReads, hword.1,
        hword.2]
      have hiff := last_entry_iff (hrange i (by omega))
      constructor
      · rintro ⟨ha, hc, hm⟩ j hij hj
        have hj : j = i := by omega
        by_cases hmark : prdeEot ≤ bswap ((src i).count ||| prdeEot)
        -- the engine has to stop here
        · rw [hj, if_pos hi]
          exact hiff.1 ⟨ha, hc, hmark⟩
        · rw [if_neg hmark] at hm
          exact hm.elim
      · intro h
        have hi' := h i le_rfl (by omega)
        rw [if_pos hi] at hi'
        rcases hiff.2 hi' with ⟨ha, hc, hmark⟩
        exact ⟨ha, hc, by rw [if_pos hmark]⟩
  | succ k ih =>
      intro i hi
      have hlast : i ≠ sgCnt - 1 := by omega
      have hlast' : ¬i + 1 = sgCnt := by omega
      have hword := htab i (by omega)
      rw [marked, Function.update_of_ne hlast] at hword
      rw [List.range'_succ, List.map_cons, EngineReads, hword.1, hword.2]
      have hiff := entry_iff (hrange i (by omega))
      have hrest := ih (i + 1) (by omega)
      constructor
      · rintro ⟨ha, hc, hm⟩ j hij hj
        by_cases hmark : prdeEot ≤ bswap (src i).count
        · -- The engine would stop here, but there is another entry.
          rw [if_pos hmark] at hm
          exact absurd hm (by simp)
        · rw [if_neg hmark] at hm
          by_cases hji : j = i
          · rw [hji, if_neg hlast']
            exact hiff.1 ⟨ha, hc, hmark⟩
          · exact hrest.1 hm j (by omega) hj
      · intro h
        have hi' := h i le_rfl (by omega)
        rw [if_neg hlast'] at hi'
        rcases hiff.2 hi' with ⟨ha, hc, hmark⟩
        refine ⟨ha, hc, ?_⟩
        rw [if_neg hmark]
        exact hrest.2 fun j hij hj => h j (by omega) hj

/-- The cookies that survive: every address the same backwards, the last size the
    mirror image of the mark, and the others 0. -/
def Survives (cs : List DmaCookie) : Prop :=
  ∀ j, ∀ h : j < cs.length, SameBackwards cs[j].address ∧
    cs[j].size = if j + 1 = cs.length then 0x80 else 0

/-- A table with the marked list of these cookies. -/
theorem engineReads_iff {tab : Nat → Byte} {src : Nat → Prde} {cs : List DmaCookie}
    (hne : cs ≠ []) (hsrc : (List.range cs.length).map src = cs.map prde)
    (hrange : ∀ c ∈ cs, c.address < 2 ^ 32 ∧ c.size ≤ 0xffff)
    (htab : ∀ j < cs.length,
      engineWord tab (8 * j) = bswap (marked src cs.length j).address ∧
      engineWord tab (8 * j + 4) = bswap (marked src cs.length j).count) :
    EngineReads tab 0 (cs.map prde) ↔ Survives cs := by
  have hget : ∀ j, ∀ h : j < cs.length, src j = ⟨cs[j].address, cs[j].size⟩ := by
    intro j h
    have hj : ((List.range cs.length).map src)[j]? = (cs.map prde)[j]? := by rw [hsrc]
    rw [List.getElem?_map, List.getElem?_range h, List.getElem?_map, List.getElem?_eq_getElem h,
      Option.map_some, Option.map_some, Option.some.injEq] at hj
    have hsize := (hrange cs[j] (List.getElem_mem h)).2
    rw [hj, prde, uint_of_lt (by omega)]
  have hin : ∀ j < cs.length, (src j).InRange := by
    intro j h
    have hj := hrange cs[j] (List.getElem_mem h)
    rw [hget j h]
    exact ⟨hj.1, hj.2⟩
  have hpos : 0 < cs.length := List.length_pos_iff.2 hne
  have hiff := engineReads_from hin htab (cs.length - 1) 0 (by omega)
  rw [Nat.sub_add_cancel hpos, ← List.range_eq_range', hsrc] at hiff
  rw [hiff]
  unfold Survives
  constructor
  · intro h j hj
    have hj' := h j (Nat.zero_le j) hj
    rw [hget j hj] at hj'
    exact hj'
  · intro h j _ hj
    rw [hget j hj]
    exact h j hj

/-- When the table says what the packet says: for a list collected from cookies,
    and also for the same list set up again. -/
theorem prd_roundtrip_iff (c c' : PrdCtl) (p : AtaSg) (single : Bool) {cs : List DmaCookie}
    (hne : cs ≠ []) (hrange : ∀ c ∈ cs, c.address < 2 ^ 32 ∧ c.size ≤ 0xffff) {q : AtaSg}
    (hq : q = foldSg sgFunc single 0 p cs) :
    (EngineReads (dmaSetup c q.sgList q.sgCnt).2.sgTab 0 (cs.map prde) ↔ Survives cs) ∧
    (EngineReads (dmaSetup c' (dmaSetup c q.sgList q.sgCnt).1 q.sgCnt).2.sgTab 0 (cs.map prde) ↔
      Survives cs) := by
  rcases sgFunc_entries (b := single) (p := p) hne with ⟨hentries, hcnt, _⟩
  rw [← hq] at hentries hcnt
  unfold AtaSg.entries at hentries
  rw [hcnt] at hentries
  rw [hcnt]
  constructor
  · exact engineReads_iff hne hentries hrange fun j hj => dmaSetup_word c q.sgList hj
  -- the second setup finds the mark, and leaves the list as it is
  · refine engineReads_iff hne hentries hrange fun j hj => ?_
    have hword := dmaSetup_word c' (dmaSetup c q.sgList cs.length).1 hj
    rw [dmaSetup_src, marked_marked] at hword
    exact hword

/-- A table that nothing has been written to. -/
def emptyPrdCtl : PrdCtl := ⟨fun _ => 0, 0x1000, 0⟩

/-- A packet without a list. -/
def emptySg : AtaSg := ⟨0, true, fun _ => ⟨0, 0⟩, 0⟩

/-- A single entry of 128 bytes, at an address that is the same backwards. -/
theorem prd_roundtrip_mirrored : EngineReads (dmaSetup emptyPrdCtl
    (foldSg sgFunc false 0 emptySg [⟨0x04000004, 0x80⟩]).sgList
    (foldSg sgFunc false 0 emptySg [⟨0x04000004, 0x80⟩]).sgCnt).2.sgTab 0
    [prde ⟨0x04000004, 0x80⟩] := by
  refine (prd_roundtrip_iff emptyPrdCtl emptyPrdCtl emptySg false (by simp) (by simp) rfl).1.2 ?_
  intro j h
  have hj : j = 0 := by simpa using h
  subst hj
  have hsame : SameBackwards 0x04000004 := by decide +kernel
  exact ⟨hsame, rfl⟩

/-- A sector at address `0x1000`: the engine is given another address, and a count
    without a mark. -/
theorem prd_not_roundtrip : ¬EngineReads (dmaSetup emptyPrdCtl
    (foldSg sgFunc false 0 emptySg [⟨0x1000, 512⟩]).sgList
    (foldSg sgFunc false 0 emptySg [⟨0x1000, 512⟩]).sgCnt).2.sgTab 0 [prde ⟨0x1000, 512⟩] := by
  rintro ⟨ha, _⟩
  revert ha
  decide +kernel

end Ata

end Sil3112
