import Mathlib.Logic.Function.Basic
import Sil3112.Ghd.Dma

/-!
# The Scatter/Gather List

The scatter/gather list of an `ata_pkt_t`, and `ata_pciide_dma_sg_func`, which
GHD calls for every cookie a request takes. The list is an array that is never
cleared: `ap_sg_cnt` says how many of its entries count.

## Main definitions

* `AtaSg`: The DMA fields of a packet.
* `sgFunc`: `ata_pciide_dma_sg_func`
* `AtaSg.entries`: The entries that count.

## Theorems

* `sgFunc_entries`: After a request the list has the cookies it has taken.
-/

namespace Sil3112

namespace Ata

open Ghd

/-- `prde_t` -/
structure Prde where
  address : Nat
  count : Nat
  deriving DecidableEq

/-- The fields of an `ata_pkt_t` for DMA: `ap_bcount`, `ap_pciide_dma`,
    `ap_sg_list` and `ap_sg_cnt`. -/
structure AtaSg where
  bcount : Nat
  pciideDma : Bool
  sgList : Nat → Prde
  sgCnt : Nat

/-- `ATA_DMA_NSEGS` -/
def ataDmaNsegs : Nat := 17

/-- `PCIIDE_PRDE_ADDR_MASK`, as a number the address has to be divisible by. -/
def prdeAlign : Nat := 4

/-- The entry for a cookie. -/
def prde (c : DmaCookie) : Prde := ⟨c.address, uint c.size⟩

/-- `ata_pciide_dma_sg_func` -/
def sgFunc (p : AtaSg) (c : DmaCookie) (_single : Bool) (i : Nat) : AtaSg :=
  { p with
    sgList := Function.update p.sgList i (prde c)
    sgCnt := i + 1
    bcount := (if i = 0 then 0 else p.bcount) + c.size }

/-- The entries of the list that count. -/
def AtaSg.entries (p : AtaSg) : List Prde := (List.range p.sgCnt).map p.sgList

/-- The bytes of the list. -/
def AtaSg.bytes (p : AtaSg) : Nat := (p.entries.map Prde.count).sum

section SgFunc

variable {p : AtaSg} {b : Bool}

theorem sgFunc_append (c : DmaCookie) :
    (sgFunc p c b p.sgCnt).entries = p.entries ++ [prde c] := by
  unfold sgFunc AtaSg.entries
  dsimp only
  rw [List.range_succ, List.map_append, List.map_cons, List.map_nil, Function.update_self]
  refine congrArg (· ++ [prde c]) (List.map_congr_left fun i hi => ?_)
  exact Function.update_of_ne (Nat.ne_of_lt (List.mem_range.1 hi)) _ _

theorem foldSg_append : ∀ (cs : List DmaCookie) (p : AtaSg),
    (foldSg sgFunc b p.sgCnt p cs).entries = p.entries ++ cs.map prde ∧
      (foldSg sgFunc b p.sgCnt p cs).sgCnt = p.sgCnt + cs.length ∧
      (foldSg sgFunc b p.sgCnt p cs).pciideDma = p.pciideDma := by
  intro cs
  induction cs with
  | nil =>
      intro p
      exact ⟨(List.append_nil _).symm, rfl, rfl⟩
  | cons c cs ih =>
      intro p
      have h := ih (sgFunc p c b p.sgCnt)
      rw [sgFunc_append] at h
      refine ⟨?_, ?_, h.2.2⟩
      · rw [List.map_cons, List.append_cons]
        exact h.1
      · rw [List.length_cons, Nat.add_comm cs.length, ← Nat.add_assoc]
        exact h.2.1

/-- The list is begun again with every request, whatever it was before. -/
theorem sgFunc_entries {cs : List DmaCookie} (hne : cs ≠ []) :
    (foldSg sgFunc b 0 p cs).entries = cs.map prde ∧
      (foldSg sgFunc b 0 p cs).sgCnt = cs.length ∧
      (foldSg sgFunc b 0 p cs).pciideDma = p.pciideDma := by
  cases cs with
  | nil => exact absurd rfl hne
  | cons c cs =>
      have h := foldSg_append (b := b) (c :: cs) { p with sgCnt := 0 }
      rwa [Nat.zero_add] at h

end SgFunc

end Ata

end Sil3112
