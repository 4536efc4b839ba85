import Mathlib.Data.List.Infix
import Sil3112.Ata.Identify

/-!
# The Drive Blacklist

`ata_strncmp` once more, with every byte that it reads. `p1` is a text with its NUL
and `p2` an array, and a byte behind either of them is not there to be read.

The two cursors skip blanks between one run of equal bytes and the next. A run goes
on as long as the bytes are the same, and does not ask for the end of `p1`. So where
`p2` has a NUL of its own in that place, the NUL of `p1` is passed like any other
byte, and what is read next is behind the text. Everywhere else the two have the
same text without its blanks so far, and the answer is whether one is a prefix of
the other.

## Main definitions

* `skipBlanksC`, `skipEqualC`, `strncmpC`: `ata_strncmp`, checked.
* `squeeze`: A text without its blanks.
* `checkDriveBlacklist`: `ata_check_drive_blacklist`

## Theorems

* `strncmpLoopC_eq`: What the loop answers, and when it leaves the text.
* `ataStrncmp_of_strncmpC`: Without checks it answers the same.
* `blank_insensitive_prefix_iff`: When it is a comparison of prefixes.
* `checkDriveBlacklist_eq`: For a model without a NUL it is the first entry that
  fits.
-/

namespace Sil3112

namespace Ata

open Bytes

/-! ## The comparison -/

/-- `while (*p1 != '\0' && *p1 == ' ')`, where `p1` is what can be read. -/
def skipBlanksC : List Byte → Option (List Byte)
  | [] => none
  | c :: p1 => if c ≠ 0 ∧ c = blank then skipBlanksC p1 else some (c :: p1)

/-- `while (cnt > 0 && *p1 == *p2)` -/
def skipEqualC : List Byte → List Byte → Option (List Byte × List Byte)
  | p1, [] => some (p1, [])
  | [], _ :: _ => none
  | c :: p1, b :: p2 => if c = b then skipEqualC p1 p2 else some (c :: p1, b :: p2)

/-- The loop. It has no result if it reads behind `p1`, or has more rounds. -/
def strncmpLoopC : Nat → List Byte → List Byte → Option Bool
  | 0, _, _ => none
  | n + 1, p1, p2 => do
    let p1 ← skipBlanksC p1
    let c ← p1.head?
    -- with `cnt == 0` nothing is read of `p2`
    match p2.dropWhile (· == blank) with
    | [] => some (c == 0)
    | b :: p2 =>
      if c ≠ b then some (c == 0)
      else do
        let (p1, p2) ← skipEqualC p1 (b :: p2)
        strncmpLoopC n p1 p2

/-- `ata_strncmp`, for a text with its NUL and an array of `cnt` bytes. -/
def strncmpC (p1 p2 : List Byte) : Option Bool :=
  strncmpLoopC (p2.length + 1) p1 p2

/-- A text without its blanks. -/
def squeeze (l : List Byte) : List Byte :=
  l.filter (· != blank)

/-- An entry of the blacklist. -/
structure Atabl where
  model : List Byte
  flags : BitVec 32

/-- `ata_check_drive_blacklist`, for the model that a drive has said. -/
def checkDriveBlacklist (aiModel : List Byte) (flags : BitVec 32) : List Atabl → Option Bool
  | [] => some false
  | blp :: l => do
    let found ← strncmpC (blp.model ++ [0]) aiModel
    if found = false then checkDriveBlacklist aiModel flags l
    else some (blp.flags &&& flags != 0)

/-! ## Blanks -/

theorem squeeze_append (l m : List Byte) : squeeze (l ++ m) = squeeze l ++ squeeze m :=
  List.filter_append ..

theorem squeeze_cons_of_ne {b : Byte} (h : b ≠ blank) (l : List Byte) :
    squeeze (b :: l) = b :: squeeze l :=
  List.filter_cons_of_pos (bne_iff_ne.mpr h)

theorem squeeze_cons_blank (l : List Byte) : squeeze (blank :: l) = squeeze l :=
  List.filter_cons_of_neg (by simp)

theorem squeeze_dropWhile (l : List Byte) : squeeze (l.dropWhile (· == blank)) = squeeze l := by
  induction l with
  | nil => rfl
  | cons b l ih =>
      by_cases h : b = blank
      · rw [h, squeeze_cons_blank, List.dropWhile_cons_of_pos (by simp)]
        exact ih
      · rw [List.dropWhile_cons_of_neg (by simpa using h)]

theorem head_dropWhile_ne {l m : List Byte} {b : Byte}
    (h : l.dropWhile (· == blank) = b :: m) : b ≠ blank := by
  have hne : l.dropWhile (· == blank) ≠ [] := by
    rw [h]
    exact List.cons_ne_nil b m
  have hhead := List.head_dropWhile_not (p := (· == blank)) hne
  simp only [h, List.head_cons] at hhead
  simpa using hhead

theorem dropWhile_twice (l : List Byte) :
    (l.dropWhile (· == blank)).dropWhile (· == blank) = l.dropWhile (· == blank) := by
  cases h : l.dropWhile (· == blank) with
  | nil => rfl
  | cons b m => exact List.dropWhile_cons_of_neg (by simpa using head_dropWhile_ne h)

/-- What is skipped at the front of a text ends before its NUL. -/
theorem skipBlanksC_text {p1 : List Byte} :
    skipBlanksC (p1 ++ [0]) = some (p1.dropWhile (· == blank) ++ [0]) := by
  induction p1 with
  | nil => rfl
  | cons c p1 ih =>
      rw [List.cons_append, skipBlanksC]
      by_cases h : c = blank
      · rw [if_pos ⟨by rw [h]; decide, h⟩, ih, List.dropWhile_cons_of_pos (by simpa using h)]
      · rw [if_neg fun hc => h hc.2, List.dropWhile_cons_of_neg (by simpa using h)]
        rfl

/-! ## The loop -/

/-- A run of equal bytes ends in front of a difference or of the end of the array, or
    it takes the NUL as well and then reads on. -/
theorem skipEqualC_text (p1 p2 : List Byte) :
    (∃ e r1 r2, p1 = e ++ r1 ∧ p2 = e ++ r2 ∧ skipEqualC (p1 ++ [0]) p2 = some (r1 ++ [0], r2)) ∨
      ∃ r, p2 = p1 ++ 0 :: r ∧
        skipEqualC (p1 ++ [0]) p2 = if r = [] then some ([], []) else none := by
  induction p1 generalizing p2 with
  | nil =>
      cases p2 with
      | nil => exact Or.inl ⟨[], [], [], rfl, rfl, rfl⟩
      | cons b p2 =>
          -- the NUL of `p1` is compared like any other byte
          by_cases h : (0 : Byte) = b
          · subst h
            refine Or.inr ⟨p2, rfl, ?_⟩
            cases p2 with
            | nil => rfl
            | cons b p2 => rfl
          · refine Or.inl ⟨[], [], b :: p2, rfl, rfl, ?_⟩
            rw [List.nil_append, skipEqualC, if_neg h]
  | cons c p1 ih =>
      cases p2 with
      | nil => exact Or.inl ⟨[], c :: p1, [], rfl, rfl, rfl⟩
      | cons b p2 =>
          rw [List.cons_append, skipEqualC]
          by_cases h : c = b
          · subst h
            rw [if_pos rfl]
            rcases ih p2 with ⟨e, r1, r2, h1, h2, heq⟩ | ⟨r, h2, heq⟩
            · exact Or.inl ⟨c :: e, r1, r2, by rw [h1]; rfl, by rw [h2]; rfl, heq⟩
            · exact Or.inr ⟨r, by rw [h2]; rfl, heq⟩
          · rw [if_neg h]
            exact Or.inl ⟨[], c :: p1, b :: p2, rfl, rfl, rfl⟩

/-- Once it stands behind the NUL, the loop reads what is not there. -/
theorem strncmpLoopC_nil (n : Nat) (p2 : List Byte) : strncmpLoopC n [] p2 = none := by
  cases n with
  | zero => rfl
  | succ n => rfl

/-- What is found of a text behind the same beginning. -/
theorem squeeze_prefix_iff (e p1 p2 : List Byte) :
    squeeze (e ++ p1) <+: squeeze (e ++ p2) ↔ squeeze p1 <+: squeeze p2 := by
  rw [squeeze_append, squeeze_append, List.prefix_append_right_inj]

theorem squeeze_nul_prefix_iff (e p1 p2 : List Byte) :
    squeeze (e ++ p1) ++ [0] <+: squeeze (e ++ p2) ↔ squeeze p1 ++ [0] <+: squeeze p2 := by
  rw [squeeze_append, squeeze_append, List.append_assoc, List.prefix_append_right_inj]

/-- Two texts that begin with different bytes that are no blanks. -/
theorem strncmpLoopC_ne {n : Nat} {c b : Byte} {p1 p2 : List Byte} (hc : c ≠ blank)
    (hb : b ≠ blank) (h : c ≠ b) : strncmpLoopC (n + 1) (c :: p1) (b :: p2) = some (c == 0) := by
  rw [strncmpLoopC, skipBlanksC, if_neg fun hblank => hc hblank.2,
    List.dropWhile_cons_of_neg (by simpa using hb)]
  exact if_pos h

/-- Two texts that begin with the same byte, which is no blank. -/
theorem strncmpLoopC_same {n : Nat} {b : Byte} {p1 p2 : List Byte} (hb : b ≠ blank) :
    strncmpLoopC (n + 1) (b :: p1) (b :: p2) =
      (skipEqualC p1 p2).bind fun p => strncmpLoopC n p.1 p.2 := by
  rw [strncmpLoopC, skipBlanksC, if_neg fun hblank => hb hblank.2,
    List.dropWhile_cons_of_neg (by simpa using hb)]
  refine (if_neg (not_not.mpr rfl)).trans ?_
  rw [skipEqualC, if_pos rfl]
  rfl

/-- Blanks in front of the texts make no difference. -/
theorem strncmpLoopC_dropWhile (n : Nat) (p1 p2 : List Byte) :
    strncmpLoopC n (p1 ++ [0]) p2 =
      strncmpLoopC n (p1.dropWhile (· == blank) ++ [0]) (p2.dropWhile (· == blank)) := by
  cases n with
  | zero => rfl
  | succ n =>
      rw [strncmpLoopC, strncmpLoopC, skipBlanksC_text, skipBlanksC_text, dropWhile_twice,
        dropWhile_twice]

/-- The loop, where the two have the same text so far. It leaves `p1` if what is left
    of it is found with a NUL behind it, and else it answers the question. -/
theorem strncmpLoopC_eq (n : Nat) (p1 p2 : List Byte) (hnul : (0 : Byte) ∉ p1)
    (hn : p2.length < n) :
    strncmpLoopC n (p1 ++ [0]) p2 =
      if squeeze p1 ++ [0] <+: squeeze p2 then none
      else some (decide (squeeze p1 <+: squeeze p2)) := by
  induction n generalizing p1 p2 with
  | zero => omega
  | succ n ih =>
      rw [strncmpLoopC_dropWhile, ← squeeze_dropWhile p1, ← squeeze_dropWhile p2]
      have hnul1 : (0 : Byte) ∉ p1.dropWhile (· == blank) := fun h =>
        hnul ((List.dropWhile_sublist _).subset h)
      have hlen : (p2.dropWhile (· == blank)).length < n + 1 :=
        Nat.lt_of_le_of_lt (List.dropWhile_sublist _).length_le hn
      have hne1 := @head_dropWhile_ne p1
      have hne2 := @head_dropWhile_ne p2
      generalize p1.dropWhile (· == blank) = q1 at hnul1 hne1 ⊢
      generalize p2.dropWhile (· == blank) = q2 at hlen hne2 ⊢
      cases q2 with
      | nil =>
          -- the array is at its end
          cases q1 with
          | nil => rfl
          | cons c q1 =>
              have hc : ¬c = 0 := fun h => hnul1 (by rw [h]; exact List.mem_cons_self)
              rw [squeeze_cons_of_ne (hne1 rfl), List.cons_append, strncmpLoopC, skipBlanksC,
                if_neg fun hblank => hne1 rfl hblank.2]
              simpa [squeeze] using hc
      | cons b q2 =>
          have hb := hne2 rfl
          rw [squeeze_cons_of_ne hb]
          cases q1 with
          | nil =>
              by_cases hzero : (0 : Byte) = b
              · -- the NUL is taken for a byte like the others
                subst hzero
                rw [List.nil_append, strncmpLoopC_same hb, if_pos (by simp [squeeze])]
                cases q2 with
                | nil => exact strncmpLoopC_nil n []
                | cons b q2 => rfl
              · rw [List.nil_append, strncmpLoopC_ne (by decide) hb hzero,
                  if_neg (by simpa [squeeze] using hzero)]
                rfl
          | cons c q1 =>
              have hc : ¬c = 0 := fun h => hnul1 (by rw [h]; exact List.mem_cons_self)
              rw [squeeze_cons_of_ne (hne1 rfl), List.cons_append]
              by_cases hcb : c = b
              · subst hcb
                have hnul2 : (0 : Byte) ∉ q1 := fun h => hnul1 (List.mem_cons_of_mem _ h)
                rw [strncmpLoopC_same hb]
                simp only [List.cons_append, List.cons_prefix_cons, true_and]
                rcases skipEqualC_text q1 q2 with ⟨e, r1, r2, rfl, rfl, heq⟩ | ⟨r, rfl, heq⟩
                · rw [heq, Option.bind_some, ih r1 r2 (fun h => hnul2 (List.mem_append_right _ h))
                    (by simp at hlen; omega)]
                  simp only [squeeze_prefix_iff, squeeze_nul_prefix_iff]
                · have hpre : squeeze q1 ++ [0] <+: squeeze (q1 ++ 0 :: r) := by
                    rw [squeeze_append, squeeze_cons_of_ne (by decide)]
                    exact ⟨squeeze r, by simp⟩
                  rw [heq, if_pos hpre]
                  split
                  · exact strncmpLoopC_nil n []
                  · rfl
              · rw [strncmpLoopC_ne (hne1 rfl) hb hcb, List.cons_append, if_neg]
                · simpa [hcb] using hc
                · simp [hcb]

/-! ## Without checks -/

theorem skipBlanksC_some (behind : List Byte) {p1 q1 : List Byte} (h : skipBlanksC p1 = some q1) :
    q1 ≠ [] ∧ (p1 ++ behind).dropWhile (· == blank) = q1 ++ behind := by
  induction p1 with
  | nil => cases h
  | cons c p1 ih =>
      rw [skipBlanksC] at h
      by_cases hc : c ≠ 0 ∧ c = blank
      · rw [if_pos hc] at h
        rw [List.cons_append, List.dropWhile_cons_of_pos (by simpa using hc.2)]
        exact ih h
      · rw [if_neg hc] at h
        cases h
        have hblank : c ≠ blank := fun heq => hc ⟨by rw [heq]; decide, heq⟩
        exact ⟨List.cons_ne_nil _ _, List.dropWhile_cons_of_neg (by simpa using hblank)⟩

theorem skipEqualC_some (behind : List Byte) {p1 p2 q1 q2 : List Byte}
    (h : skipEqualC p1 p2 = some (q1, q2)) : skipEqual (p1 ++ behind) p2 = (q1 ++ behind, q2) := by
  induction p2 generalizing p1 with
  | nil =>
      rw [skipEqualC] at h
      cases h
      rfl
  | cons b p2 ih =>
      cases p1 with
      | nil => cases h
      | cons c p1 =>
          rw [skipEqualC] at h
          rw [List.cons_append, skipEqual, List.headD_cons, List.tail_cons]
          by_cases hcb : c = b
          · rw [if_pos hcb] at h ⊢
            exact ih h
          · rw [if_neg hcb] at h ⊢
            cases h
            rfl

/-- A comparison that stays in its texts is the one that does not check, whatever is
    behind `p1` in memory. -/
theorem strncmpLoop_of_strncmpLoopC (behind : List Byte) {n : Nat} {p1 p2 : List Byte} {r : Bool}
    (h : strncmpLoopC n p1 p2 = some r) : strncmpLoop n (p1 ++ behind) p2 = r := by
  induction n generalizing p1 p2 with
  | zero => cases h
  | succ n ih =>
      rw [strncmpLoopC] at h
      rcases Option.bind_eq_some_iff.mp h with ⟨q1, hq1, hrest⟩
      -- a round that stays in `p1` reads the same with something behind it
      rcases skipBlanksC_some behind hq1 with ⟨hne, hskip⟩
      rcases q1 with _ | ⟨c, q1⟩
      · exact absurd rfl hne
      rw [strncmpLoop, hskip]
      rcases Option.bind_eq_some_iff.mp hrest with ⟨c', hc', hmatch⟩
      cases hc'
      generalize p2.dropWhile (· == blank) = q2 at hmatch ⊢
      cases q2 with
      | nil => exact Option.some.inj hmatch
      | cons b q2 =>
          by_cases hcb : c = b
          · rcases Option.bind_eq_some_iff.mp ((if_neg (not_not.mpr hcb)).symm.trans hmatch) with
              ⟨⟨r1, r2⟩, hr, hloop⟩
            refine (if_neg (by simpa using hcb)).trans ?_
            rw [skipEqualC_some behind hr]
            exact ih hloop
          · exact (if_pos (Or.inr hcb)).trans
              (Option.some.inj ((if_pos hcb).symm.trans hmatch))

theorem ataStrncmp_of_strncmpC (behind : List Byte) {p1 p2 : List Byte} {r : Bool}
    (h : strncmpC p1 p2 = some r) : ataStrncmp (p1 ++ behind) p2 = r :=
  strncmpLoop_of_strncmpLoopC behind h

/-! ## The question -/

/-- The comparison reads nothing but its two texts and answers whether one is a prefix
    of the other, if and only if the first is not found with a NUL behind it. -/
theorem blank_insensitive_prefix_iff (p1 p2 : List Byte) (hnul : (0 : Byte) ∉ p1) :
    strncmpC (p1 ++ [0]) p2 = some (decide (squeeze p1 <+: squeeze p2)) ↔
      ¬squeeze p1 ++ [0] <+: squeeze p2 := by
  rw [strncmpC, strncmpLoopC_eq _ p1 p2 hnul (Nat.lt_succ_self _)]
  constructor
  · intro h hpre
    rw [if_pos hpre] at h
    cases h
  · exact fun h => if_neg h

/-- "NEC" in a model that ends with a NUL and not with blanks. -/
def necModel : List Byte := [0x4e, 0x45, 0x43, 0]

/-- The text is there, and the comparison leaves it. -/
theorem blank_insensitive_prefix_overrun :
    ¬∀ p1 p2 : List Byte, (0 : Byte) ∉ p1 →
      strncmpC (p1 ++ [0]) p2 = some (decide (squeeze p1 <+: squeeze p2)) := by
  intro h
  have hrun := h [0x4e, 0x45, 0x43] necModel (by decide)
  rw [show strncmpC ([0x4e, 0x45, 0x43] ++ [0]) necModel = none by decide] at hrun
  cases hrun

/-- "N E" is found in "NEC ". -/
theorem blank_insensitive_prefix_blanks :
    strncmpC ([0x4e, 0x20, 0x45] ++ [0]) [0x4e, 0x45, 0x43, 0x20] = some true :=
  (blank_insensitive_prefix_iff [0x4e, 0x20, 0x45] [0x4e, 0x45, 0x43, 0x20] (by decide)).mpr
    (by decide)

/-! ## The blacklist -/

/-- The bytes of a string of the source. -/
def text (s : String) : List Byte :=
  s.toList.map fun c => BitVec.ofNat 8 c.toNat

/-- `ATA_BL_BOGUS` -/
def ataBlBogus : BitVec 32 := 0x1

/-- `ATA_BL_NODMA` -/
def ataBlNodma : BitVec 32 := 0x2

/-- `ATA_BL_1SECTOR` -/
def ataBl1sector : BitVec 32 := 0x4

/-- `ATA_BL_BMSTATREG_PIO_BROKEN` -/
def ataBlBmstatregPioBroken : BitVec 32 := 0x8

/-- `ATA_BL_NORVRT` -/
def ataBlNorvrt : BitVec 32 := 0x10

/-- `sol11ata_drive_blacklist` -/
def driveBlacklist : List Atabl :=
  [⟨text "NEC CD-ROM DRIVE:260", ataBl1sector⟩,
    ⟨text "NEC CD-ROM DRIVE:272", ataBl1sector⟩,
    ⟨text "NEC CD-ROM DRIVE:273", ataBl1sector⟩,
    ⟨text "FX001DE", ataBl1sector⟩,
    ⟨text "fubar", ataBlNodma ||| ataBl1sector ||| ataBlNorvrt ||| ataBlBogus |||
      ataBlBmstatregPioBroken⟩]

theorem driveBlacklist_text : ∀ blp ∈ driveBlacklist, (0 : Byte) ∉ blp.model := by
  decide

/-- A model without a NUL is never compared beyond a text of the list, and has the
    flags of the first entry that it begins with. -/
theorem checkDriveBlacklist_eq {aiModel : List Byte} (haim : (0 : Byte) ∉ aiModel)
    (flags : BitVec 32) {l : List Atabl} (hl : ∀ blp ∈ l, (0 : Byte) ∉ blp.model) :
    checkDriveBlacklist aiModel flags l =
      some (match l.find? fun blp => decide (squeeze blp.model <+: squeeze aiModel) with
        | none => false
        | some blp => blp.flags &&& flags != 0) := by
  induction l with
  | nil => rfl
  | cons blp l ih =>
      -- a model without a NUL is never left by the comparison
      have hnul : ¬squeeze blp.model ++ [0] <+: squeeze aiModel := by
        intro hpre
        have hmem := hpre.subset (List.mem_append_right _ List.mem_cons_self)
        exact haim (List.mem_of_mem_filter hmem)
      have hcmp : strncmpC (blp.model ++ [0]) aiModel =
          some (decide (squeeze blp.model <+: squeeze aiModel)) := by
        rw [strncmpC, strncmpLoopC_eq _ _ _ (hl blp List.mem_cons_self) (Nat.lt_succ_self _),
          if_neg hnul]
      rw [checkDriveBlacklist, hcmp, List.find?_cons]
      by_cases hfit : squeeze blp.model <+: squeeze aiModel
      · simp [hfit]
      · simpa [hfit] using ih fun b hb => hl b (List.mem_cons_of_mem _ hb)

end Ata

end Sil3112
