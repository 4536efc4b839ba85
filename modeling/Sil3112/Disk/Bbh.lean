import Mathlib.Logic.Function.Basic
import Sil3112.Lib.Extent

/-!
# Bad-Block Handling

The remapping of bad sectors in `cmdk.c`. A slice has a table of alternates,
sorted by sector: each entry says that a cluster of bad sectors is replaced by
a run of good ones. `cmdk_bbh_gethandle` cuts a request into cookies, each a
run of sectors that are all bad in one cluster or all good, and moves the bad
ones; `cmdk_bbh_htoc` hands the cookies out one by one.

Sector numbers are `daddr32_t` and wrap at 32 bits where the source computes
with them. Lengths are `long`. The indices into the table are counters.

The loop that cuts the request rewrites the cookie at hand in place. Its
invariant is that this cookie always reaches to the last sector of the request
and starts beyond every cluster already looked at.

## Main definitions

* `AltsEnt`, `Alts`: An entry of the table, and the table of a slice.
* `Alts.remap`: Where a sector really is.
* `bsearch`: `cmdk_bbh_bsearch`
* `gethandle`, `htoc`: `cmdk_bbh_gethandle` and `cmdk_bbh_htoc`.

## Theorems

* `bsearch_isFirst`: The search finds the first entry not below the key.
* `remapLoop_covers`: The loop cuts what is left of the request correctly.
* `bbh_remap_exact`: The cookies are exactly the remapped request.
-/

namespace Sil3112

namespace Disk

open Extent

/-- The value of an integer in a `daddr32_t` or an `int32_t`. -/
def int32 (x : Int) : Int :=
  Int.bmod x (2 ^ 32)

theorem int32_of_bounds {x : Int} (h : -2 ^ 31 ≤ x) (h' : x < 2 ^ 31) : int32 x = x := by
  unfold int32
  exact Int.bmod_eq_of_le (by omega) (by omega)

/-- `struct alts_ent` -/
structure AltsEnt where
  badStart : Int
  badEnd : Int
  goodStart : Int

/-- The alternates of a slice: `dk_slc_cnt` entries from `dk_slc_ent` on. -/
structure Alts where
  cnt : Nat
  ent : Nat → AltsEnt

/-- The sector lies in the entry's bad cluster. -/
def AltsEnt.Bad (e : AltsEnt) (s : Int) : Prop :=
  e.badStart ≤ s ∧ s ≤ e.badEnd

instance (e : AltsEnt) (s : Int) : Decidable (e.Bad s) := by
  unfold AltsEnt.Bad
  infer_instance

namespace Alts

/-- The sector lies in some bad cluster of the table. -/
def Bad (t : Alts) (s : Int) : Prop :=
  ∃ i, i < t.cnt ∧ (t.ent i).Bad s

/-- Where a sector really is. -/
def remap (t : Alts) (s : Int) : Int :=
  match (List.range t.cnt).find? fun i => decide ((t.ent i).Bad s) with
  | some i => (t.ent i).goodStart + (s - (t.ent i).badStart)
  | none => s

/-- A table the driver can use: the clusters are sorted and disjoint, and
    every sector number in the table, those of the good runs included, is a
    non-negative `daddr32_t`. -/
structure Ok (t : Alts) : Prop where
  badStart : ∀ i, i < t.cnt → 0 ≤ (t.ent i).badStart
  badEnd : ∀ i, i < t.cnt → (t.ent i).badStart ≤ (t.ent i).badEnd ∧ (t.ent i).badEnd < 2 ^ 31
  goodStart : ∀ i, i < t.cnt → 0 ≤ (t.ent i).goodStart
  goodEnd : ∀ i, i < t.cnt →
    (t.ent i).goodStart + ((t.ent i).badEnd - (t.ent i).badStart) < 2 ^ 31
  sorted : ∀ i j, i < j → j < t.cnt → (t.ent i).badEnd < (t.ent j).badStart

/-- The clusters are sorted and disjoint, which is all that the search needs. -/
structure Sorted (t : Alts) : Prop where
  le : ∀ i, i < t.cnt → (t.ent i).badStart ≤ (t.ent i).badEnd
  lt : ∀ i j, i < j → j < t.cnt → (t.ent i).badEnd < (t.ent j).badStart

variable {t : Alts}

theorem Ok.isSorted (h : t.Ok) : t.Sorted where
  le := fun i hi => (h.badEnd i hi).1
  lt := h.sorted

theorem remap_of_good {s : Int} (h : ¬ t.Bad s) : t.remap s = s := by
  unfold remap
  rw [List.find?_eq_none.2 ?_]
  intro i hi hb
  exact h ⟨i, List.mem_range.1 hi, of_decide_eq_true hb⟩

/-- No sector is in two clusters. -/
theorem Ok.bad_unique (h : t.Ok) {i j : Nat} {s : Int} (hi : i < t.cnt) (hj : j < t.cnt)
    (hbi : (t.ent i).Bad s) (hbj : (t.ent j).Bad s) : i = j := by
  have hi' := hbi.2
  have hj' := hbj.2
  rcases Nat.lt_trichotomy i j with hlt | heq | hgt
  · have hs := h.sorted i j hlt hj
    have := hbj.1
    omega
  · exact heq
  · have hs := h.sorted j i hgt hi
    have := hbi.1
    omega

theorem Ok.remap_of_bad (h : t.Ok) {i : Nat} {s : Int} (hi : i < t.cnt) (hb : (t.ent i).Bad s) :
    t.remap s = (t.ent i).goodStart + (s - (t.ent i).badStart) := by
  unfold remap
  cases hf : (List.range t.cnt).find? fun i => decide ((t.ent i).Bad s) with
  | none =>
      have hn := List.find?_eq_none.1 hf i (List.mem_range.2 hi)
      exact absurd (decide_eq_true hb) hn
  | some j =>
      have hj := List.mem_range.1 (List.mem_of_find?_eq_some hf)
      have hbj := List.find?_some hf
      rw [decide_eq_true_eq] at hbj
      rw [h.bad_unique hi hj hb hbj]

end Alts

/-! ## The binary search -/

/-- The first loop of `cmdk_bbh_bsearch`, which looks for the highest power of
    two not above `cnt`. -/
def bsearchTop (cnt : Nat) : Nat → Nat → Nat → Nat
  | 0, _, ind => ind
  | n + 1, i, ind => if i ≤ cnt then bsearchTop cnt n (i <<< 1) i else ind

/-- The second loop of `cmdk_bbh_bsearch`. `mystatus` is `none` for -1. The
    interval is at most the fuel, so that without fuel the loop has ended. -/
def bsearchLoop (buf : Nat → AltsEnt) (cnt : Nat) (key : Int) :
    Nat → Nat → Nat → Option Nat → Option Nat
  | 0, _, _, mystatus => mystatus
  | n + 1, ind, interval, mystatus =>
    if interval = 0 then mystatus
    else if key ≥ (buf (ind - 1)).badStart ∧ key ≤ (buf (ind - 1)).badEnd then some (ind - 1)
    else
      let interval := interval >>> 1
      if key < (buf (ind - 1)).badStart then
        let mystatus := some (ind - 1)
        if interval = 0 then mystatus
        else bsearchLoop buf cnt key n (ind - interval) interval mystatus
      else if ind = cnt ∨ interval = 0 then mystatus
      else if ind + interval ≤ cnt then
        bsearchLoop buf cnt key n (ind + interval) interval mystatus
      else bsearchLoop buf cnt key n ind interval mystatus

/-- `cmdk_bbh_bsearch` -/
def bsearch (buf : Nat → AltsEnt) (cnt : Nat) (key : Int) : Option Nat :=
  if cnt = 0 then none
  else
    let ind := bsearchTop cnt cnt 1 1
    bsearchLoop buf cnt key ind ind ind none

/-- The outcome of a search for the first entry that does not lie below the
    key. -/
def IsFirst (t : Alts) (key : Int) : Option Nat → Prop
  | none => ∀ j, j < t.cnt → (t.ent j).badEnd < key
  | some i => i < t.cnt ∧ key ≤ (t.ent i).badEnd ∧ ∀ j, j < i → (t.ent j).badEnd < key

theorem bsearchTop_eq_pow {cnt : Nat} (n m : Nat) (hle : 2 ^ m ≤ cnt)
    (hlt : cnt < 2 ^ (m + 1 + n)) :
    ∃ k, bsearchTop cnt n (2 ^ (m + 1)) (2 ^ m) = 2 ^ k ∧ 2 ^ k ≤ cnt ∧ cnt < 2 ^ (k + 1) := by
  induction n generalizing m with
  | zero => exact ⟨m, rfl, hle, hlt⟩
  | succ n ih =>
      unfold bsearchTop
      by_cases h : 2 ^ (m + 1) ≤ cnt
      · rw [if_pos h, Nat.shiftLeft_eq, pow_one, ← pow_succ]
        exact ih (m + 1) h (by rwa [show m + 1 + 1 + n = m + 1 + (n + 1) by omega])
      · rw [if_neg h]
        exact ⟨m, rfl, hle, by omega⟩

/-- The search starts at the highest power of two not above the number of
    entries. -/
theorem bsearchTop_start {cnt : Nat} (h : cnt ≠ 0) :
    ∃ k, bsearchTop cnt cnt 1 1 = 2 ^ k ∧ 2 ^ k ≤ cnt ∧ cnt < 2 ^ (k + 1) := by
  obtain ⟨n, rfl⟩ := Nat.exists_eq_succ_of_ne_zero h
  have hlt : n + 1 < 2 ^ (0 + 1 + n) := by
    rw [show 0 + 1 + n = n + 1 by omega]
    exact Nat.lt_two_pow_self
  have hstep : bsearchTop (n + 1) (n + 1) 1 1 = bsearchTop (n + 1) n (2 ^ (0 + 1)) (2 ^ 0) := by
    rw [bsearchTop, if_pos (by omega)]
    rfl
  rw [Nat.succ_eq_add_one, hstep]
  exact bsearchTop_eq_pow n 0 (by omega) hlt

/-- What the search knows of the entry it has recorded: it lies above the key,
    and with `ub` its place in the table counted from one, nothing from there
    on is still to be looked at. -/
def Recorded (t : Alts) (key : Int) (ub : Nat) : Option Nat → Prop
  | none => t.cnt + 1 ≤ ub
  | some i => i < t.cnt ∧ key < (t.ent i).badStart ∧ i + 1 ≤ ub

/-- The search ends right when everything below the recorded entry lies below
    the key. -/
theorem Recorded.isFirst {t : Alts} (hok : t.Sorted) {key : Int} {ub : Nat} {r : Option Nat}
    (h : Recorded t key ub r) (hbelow : ∀ j, j + 1 < ub → j < t.cnt → (t.ent j).badEnd < key) :
    IsFirst t key r := by
  cases r with
  | none => exact fun j hj => hbelow j (by unfold Recorded at h; omega) hj
  | some i =>
      rcases h with ⟨hi, hkey, hub⟩
      have hend := hok.le i hi
      exact ⟨hi, by omega, fun j hj => hbelow j (by omega) (by omega)⟩

/-- Behind the table the bound does not matter. -/
theorem Recorded.of_lt {t : Alts} {key : Int} {ub ub' : Nat} {r : Option Nat}
    (h : Recorded t key ub r) (hub : t.cnt < ub') : Recorded t key ub' r := by
  cases r with
  | none => exact hub
  | some i => exact ⟨h.1, h.2.1, by have := h.1; omega⟩

/-- The search loop. Of the entries counted from one, those up to
    `ind - interval` lie below the key and those from `ind + interval` on need
    not be looked at. -/
theorem bsearchLoop_isFirst {t : Alts} (hok : t.Sorted) {key : Int} (k : Nat) :
    ∀ (n ind : Nat) (r : Option Nat), 2 ^ k ≤ n → 2 ^ k ≤ ind → ind ≤ t.cnt →
      (∀ j, j + 2 ^ k < ind → (t.ent j).badEnd < key) →
      Recorded t key (ind + 2 ^ k) r →
      IsFirst t key (bsearchLoop t.ent t.cnt key n ind (2 ^ k) r) := by
  induction k with
  | zero =>
      intro n ind r hn hind hcnt hbelow hr
      rw [pow_zero] at hn hind hbelow hr
      obtain ⟨n, rfl⟩ := Nat.exists_eq_add_of_le' hn
      obtain ⟨m, rfl⟩ := Nat.exists_eq_add_of_le' hind
      simp only [bsearchLoop, pow_zero, Nat.one_ne_zero, if_false, Nat.add_sub_cancel,
        Nat.shiftRight_one, Nat.reduceDiv, if_true, or_true]
      have hend := hok.le m (by omega)
      by_cases hin : key ≥ (t.ent m).badStart ∧ key ≤ (t.ent m).badEnd
      · rw [if_pos hin]
        refine ⟨by omega, hin.2, fun j hj => ?_⟩
        have hs := hok.lt j m hj (by omega)
        omega
      · rw [if_neg hin]
        by_cases hlt : key < (t.ent m).badStart
        · rw [if_pos hlt]
          have hrec : Recorded t key (m + 1) (some m) := ⟨by omega, hlt, le_refl _⟩
          exact hrec.isFirst hok fun j hj _ => hbelow j (by omega)
        · rw [if_neg hlt]
          refine hr.isFirst hok fun j hj _ => ?_
          by_cases hjm : j = m
          · rw [hjm]
            omega
          · exact hbelow j (by omega)
  | succ k ih =>
      intro n ind r hn hind hcnt hbelow hr
      have hpos : 0 < 2 ^ k := Nat.two_pow_pos k
      have hpow : 2 ^ (k + 1) = 2 ^ k + 2 ^ k := by rw [pow_succ]; omega
      obtain ⟨n, rfl⟩ : ∃ n', n = n' + 1 := ⟨n - 1, by omega⟩
      obtain ⟨m, rfl⟩ : ∃ m, ind = m + 1 := ⟨ind - 1, by omega⟩
      have hne : (2 : Nat) ^ (k + 1) ≠ 0 := by omega
      have hhalf : (2 : Nat) ^ (k + 1) >>> 1 = 2 ^ k := by
        rw [Nat.shiftRight_one]
        omega
      simp only [bsearchLoop, hne, if_false, Nat.add_sub_cancel, hhalf, hpos.ne', or_false]
      rw [hpow] at hn hind hbelow hr
      have hend := hok.le m (by omega)
      by_cases hin : key ≥ (t.ent m).badStart ∧ key ≤ (t.ent m).badEnd
      · rw [if_pos hin]
        refine ⟨by omega, hin.2, fun j hj => ?_⟩
        have hs := hok.lt j m hj (by omega)
        omega
      · rw [if_neg hin]
        by_cases hlt : key < (t.ent m).badStart
        · rw [if_pos hlt]
          refine ih n _ _ (by omega) (by omega) (by omega) (fun j hj => hbelow j (by omega)) ?_
          exact ⟨by omega, hlt, by omega⟩
        · rw [if_neg hlt]
          -- The entry looked at, and every one before it, lies below the key.
          have hall : ∀ j, j < m + 1 → (t.ent j).badEnd < key := by
            intro j hj
            by_cases hjm : j = m
            · rw [hjm]
              omega
            · have hs := hok.lt j m (by omega) (by omega)
              omega
          by_cases hlast : m + 1 = t.cnt
          · rw [if_pos hlast]
            have hrec : Recorded t key (m + 2) r := hr.of_lt (by omega)
            exact hrec.isFirst hok fun j hj _ => hall j (by omega)
          · rw [if_neg hlast]
            by_cases hroom : m + 1 + 2 ^ k ≤ t.cnt
            · rw [if_pos hroom]
              refine ih n _ _ (by omega) (by omega) hroom (fun j hj => hall j (by omega)) ?_
              rw [Nat.add_assoc]
              exact hr
            · rw [if_neg hroom]
              refine ih n _ _ (by omega) (by omega) hcnt (fun j hj => hall j (by omega)) ?_
              exact hr.of_lt (by omega)

/-- The search finds the first entry that does not lie below the key, if there
    is one. -/
theorem bsearch_isFirst {t : Alts} (hok : t.Sorted) (key : Int) :
    IsFirst t key (bsearch t.ent t.cnt key) := by
  unfold bsearch
  by_cases h0 : t.cnt = 0
  · rw [if_pos h0]
    intro j hj
    omega
  · rw [if_neg h0]
    rcases bsearchTop_start h0 with ⟨k, htop, hle, hlt⟩
    simp only [htop]
    refine bsearchLoop_isFirst hok k _ _ _ (le_refl _) (le_refl _) hle (fun j hj => ?_) ?_
    · omega
    · unfold Recorded
      rw [pow_succ] at hlt
      omega

/-! ## Cutting a request -/

/-- `struct bbh_cookie`: the first sector of a run and its length. -/
structure BbhCookie where
  sector : Int
  seclen : Int

/-- `struct bbh_handle`: the table of cookies, and the next one to hand out. -/
structure BbhHandle where
  totck : Nat
  idx : Nat
  cktab : Nat → BbhCookie

/-- The bad-block part of a `struct cmdk`. `altsHdl` says whether a table has
    been read at all. -/
structure Cmdk where
  altsHdl : Bool
  slcCnt : Nat → Nat
  slcEnt : Nat → Nat → AltsEnt

/-- What the bad-block code reads of a `struct buf`: the slice, the first
    sector and the number of bytes. -/
structure Buf where
  part : Nat
  sec : Int
  bcount : Nat

/-- `V_NUMPAR` -/
def vNumpar : Nat := 16

/-- The alternates of a slice. There are none for a slice beyond the table of
    slices, nor before a table has been read. -/
def Cmdk.alts (dkp : Cmdk) (part : Nat) : Alts :=
  if part ≥ vNumpar ∨ dkp.altsHdl = false then ⟨0, dkp.slcEnt part⟩
  else ⟨dkp.slcCnt part, dkp.slcEnt part⟩

/-- The loop of `cmdk_bbh_gethandle` that counts the entries the request can
    reach, over the `n` entries from `idx` on. -/
def countLoop (ent : Nat → AltsEnt) (lastsec : Int) : Nat → Nat → Nat → Nat
  | 0, _, cnt => cnt
  | n + 1, idx, cnt =>
    if lastsec < (ent idx).badStart then cnt else countLoop ent lastsec n (idx + 1) (cnt + 1)

/-- The body of the loop of `cmdk_bbh_gethandle` that cuts the request: whether
    the loop goes on, the index of the cookie at hand, and the cookies. The
    case numbers are the source's. -/
def remapBody (alt : AltsEnt) (lastsec : Int) (idx : Nat) (ckp : Nat → BbhCookie) :
    Bool × Nat × (Nat → BbhCookie) :=
  let ck := ckp idx
  -- CASE 1
  if lastsec < alt.badStart then (false, idx, ckp)
  -- CASE 3
  else if ck.sector > alt.badEnd then (true, idx, ckp)
  -- CASE 2 and 7
  else if ck.sector ≥ alt.badStart ∧ lastsec ≤ alt.badEnd then
    (false, idx, Function.update ckp idx
      { ck with sector := int32 (alt.goodStart + ck.sector - alt.badStart) })
  -- CASE 5
  else if lastsec ≥ alt.badStart ∧ lastsec ≤ alt.badEnd then
    let seclen := int32 (lastsec - alt.badStart + 1)
    (false, idx, Function.update (Function.update ckp idx
      { ck with seclen := ck.seclen - seclen }) (idx + 1)
      { sector := alt.goodStart, seclen := seclen })
  -- CASE 6
  else if ck.sector ≤ alt.badEnd ∧ ck.sector ≥ alt.badStart then
    let seclen := int32 (alt.badEnd - ck.sector + 1)
    (true, idx + 1, Function.update (Function.update ckp idx
      { sector := int32 (alt.goodStart + ck.sector - alt.badStart), seclen := seclen }) (idx + 1)
      { sector := int32 (alt.badEnd + 1), seclen := ck.seclen - seclen })
  -- CASE 4
  else
    (true, idx + 2, Function.update (Function.update (Function.update ckp idx
      { ck with seclen := int32 (alt.badStart - ck.sector) }) (idx + 1)
      { sector := alt.goodStart, seclen := int32 (alt.badEnd - alt.badStart + 1) }) (idx + 2)
      { sector := int32 (alt.badEnd + 1), seclen := int32 (lastsec - alt.badEnd) })

/-- The loop itself, over the `n` entries from `i` on. -/
def remapLoop (ent : Nat → AltsEnt) (lastsec : Int) :
    Nat → Nat → Nat → (Nat → BbhCookie) → Nat → BbhCookie
  | 0, _, _, ckp => ckp
  | n + 1, i, idx, ckp =>
    match remapBody (ent i) lastsec idx ckp with
    | (true, idx, ckp) => remapLoop ent lastsec n (i + 1) idx ckp
    | (false, _, ckp) => ckp

/-- `cmdk_bbh_gethandle` -/
def gethandle (dkp : Cmdk) (bp : Buf) : Option BbhHandle :=
  if bp.part ≥ vNumpar then none
  else if dkp.altsHdl = false then none
  else if dkp.slcCnt bp.part = 0 then none
  else
    let altsUsed := dkp.slcCnt bp.part
    let altp := dkp.slcEnt bp.part
    match bsearch altp altsUsed (int32 bp.sec) with
    | none => none
    | some i =>
      let dCount := bp.bcount >>> 9
      let lastsec := int32 (bp.sec + dCount - 1)
      let cnt := countLoop altp lastsec (altsUsed - i) i 0
      if cnt = 0 then none
      else
        let ckp := Function.update (fun _ => ⟨0, 0⟩) 0 ⟨int32 bp.sec, dCount⟩
        some { totck := (cnt <<< 1) + 1, idx := 0
               cktab := remapLoop altp lastsec (altsUsed - i) i 0 ckp }

/-- `cmdk_bbh_htoc` -/
def htoc (hp : BbhHandle) : BbhCookie × BbhHandle :=
  (hp.cktab hp.idx, { hp with idx := hp.idx + 1 })

/-- The first cookies a handle hands out. -/
def BbhHandle.cookies : Nat → BbhHandle → List (Int × Int)
  | 0, _ => []
  | n + 1, hp => ((htoc hp).1.sector, (htoc hp).1.seclen) :: (htoc hp).2.cookies n

/-- The cookies of a table from an index on. -/
def cookiesFrom (ckp : Nat → BbhCookie) : Nat → Nat → List (Int × Int)
  | _, 0 => []
  | idx, n + 1 => ((ckp idx).sector, (ckp idx).seclen) :: cookiesFrom ckp (idx + 1) n

theorem BbhHandle.cookies_eq (n : Nat) (hp : BbhHandle) :
    hp.cookies n = cookiesFrom hp.cktab hp.idx n := by
  induction n generalizing hp with
  | zero => rfl
  | succ n ih =>
      rw [BbhHandle.cookies, cookiesFrom, ih]
      rfl

/-- The extents read left to right are the remapped sectors of a section, and
    none of them is empty. -/
structure Covers (t : Alts) (l : List (Int × Int)) (p n : Int) : Prop where
  pos : ∀ e ∈ l, 0 < e.2
  cover : cover l = (cells p n).map t.remap

namespace Covers

variable {t : Alts} {l : List (Int × Int)} {p q m n : Int}

theorem nil (t : Alts) (p : Int) : Covers t [] p 0 where
  pos := fun e he => absurd he List.not_mem_nil
  cover := by
    rw [cells_of_nonpos (le_refl 0)]
    rfl

/-- One more extent in front. -/
theorem cons {k : Int} (hk : k = m + n) (hm : 0 < m) (hn : 0 ≤ n)
    (hq : (cells p m).map t.remap = cells q m) (h : Covers t l (p + m) n) :
    Covers t ((q, m) :: l) p k where
  pos := fun e he => by
    rcases List.mem_cons.1 he with he | he
    · rw [he]
      exact hm
    · exact h.pos e he
  cover := by
    rw [hk, cover_cons, cells_split p (le_of_lt hm) hn, List.map_append, hq, h.cover]

/-- A run of good sectors stays where it is. -/
theorem map_good (hgood : ∀ x ∈ cells p m, ¬ t.Bad x) : (cells p m).map t.remap = cells p m :=
  map_cells_id fun x hx => Alts.remap_of_good (hgood x hx)

/-- A run of bad sectors of one cluster moves to the cluster's alternate. -/
theorem map_bad (hok : t.Ok) {i : Nat} (hi : i < t.cnt)
    (hbad : ∀ x ∈ cells p m, (t.ent i).Bad x)
    (hq : q = (t.ent i).goodStart + p - (t.ent i).badStart) :
    (cells p m).map t.remap = cells q m := by
  refine map_cells fun x hx => ?_
  rw [hok.remap_of_bad hi (hbad x hx)]
  omega

theorem single (hm : 0 < m) (hq : (cells p m).map t.remap = cells q m) :
    Covers t [(q, m)] p m :=
  (nil t (p + m)).cons (by omega) hm (le_refl 0) hq

end Covers

/-- What the loop body does to a section from `p` to the last sector, without
    the wrapping of sector numbers, which all stay in range. -/
theorem remapBody_cases {t : Alts} (hok : t.Ok) {i : Nat} (hi : i < t.cnt) {lastsec p : Int}
    (hlast : lastsec < 2 ^ 31) (hp : 0 ≤ p) (hle : p ≤ lastsec) {idx : Nat}
    {ckp : Nat → BbhCookie} (hck : ckp idx = ⟨p, lastsec - p + 1⟩) :
    (lastsec < (t.ent i).badStart ∧ remapBody (t.ent i) lastsec idx ckp = (false, idx, ckp)) ∨
    ((t.ent i).badEnd < p ∧ remapBody (t.ent i) lastsec idx ckp = (true, idx, ckp)) ∨
    ((t.ent i).badStart ≤ p ∧ lastsec ≤ (t.ent i).badEnd ∧
      remapBody (t.ent i) lastsec idx ckp = (false, idx, Function.update ckp idx
        ⟨(t.ent i).goodStart + p - (t.ent i).badStart, lastsec - p + 1⟩)) ∨
    (p < (t.ent i).badStart ∧ (t.ent i).badStart ≤ lastsec ∧ lastsec ≤ (t.ent i).badEnd ∧
      remapBody (t.ent i) lastsec idx ckp = (false, idx, Function.update (Function.update ckp idx
        ⟨p, (t.ent i).badStart - p⟩) (idx + 1)
        ⟨(t.ent i).goodStart, lastsec - (t.ent i).badStart + 1⟩)) ∨
    ((t.ent i).badStart ≤ p ∧ p ≤ (t.ent i).badEnd ∧ (t.ent i).badEnd < lastsec ∧
      remapBody (t.ent i) lastsec idx ckp = (true, idx + 1, Function.update (Function.update ckp idx
        ⟨(t.ent i).goodStart + p - (t.ent i).badStart, (t.ent i).badEnd - p + 1⟩) (idx + 1)
        ⟨(t.ent i).badEnd + 1, lastsec - ((t.ent i).badEnd + 1) + 1⟩)) ∨
    (p < (t.ent i).badStart ∧ (t.ent i).badEnd < lastsec ∧
      remapBody (t.ent i) lastsec idx ckp = (true, idx + 2, Function.update (Function.update
        (Function.update ckp idx ⟨p, (t.ent i).badStart - p⟩) (idx + 1)
        ⟨(t.ent i).goodStart, (t.ent i).badEnd - (t.ent i).badStart + 1⟩) (idx + 2)
        ⟨(t.ent i).badEnd + 1, lastsec - ((t.ent i).badEnd + 1) + 1⟩)) := by
  have hbs := hok.badStart i hi
  have hbe := hok.badEnd i hi
  have hgs := hok.goodStart i hi
  have hge := hok.goodEnd i hi
  have hw : ∀ x : Int, -2 ^ 31 ≤ x → x < 2 ^ 31 → int32 x = x := fun x => int32_of_bounds
  unfold remapBody
  simp only [hck]
  -- the cookie ends below the entry
  by_cases h1 : lastsec < (t.ent i).badStart
  · exact Or.inl ⟨h1, if_pos h1⟩
  rw [if_neg h1]
  -- it begins above it
  by_cases h3 : p > (t.ent i).badEnd
  · exact Or.inr (Or.inl ⟨h3, if_pos h3⟩)
  rw [if_neg h3]
  -- all of it is in the entry
  by_cases h2 : p ≥ (t.ent i).badStart ∧ lastsec ≤ (t.ent i).badEnd
  · refine Or.inr (Or.inr (Or.inl ⟨h2.1, h2.2, ?_⟩))
    rw [if_pos h2, hw _ (by omega) (by omega)]
  rw [if_neg h2]
  -- its end is in the entry
  by_cases h5 : lastsec ≥ (t.ent i).badStart ∧ lastsec ≤ (t.ent i).badEnd
  · refine Or.inr (Or.inr (Or.inr (Or.inl ⟨by omega, h5.1, h5.2, ?_⟩)))
    rw [if_pos h5, hw _ (by omega) (by omega)]
    rw [show lastsec - p + 1 - (lastsec - (t.ent i).badStart + 1) = (t.ent i).badStart - p by omega]
  rw [if_neg h5]
  -- its beginning is, or else the entry is in the middle of it
  by_cases h6 : p ≤ (t.ent i).badEnd ∧ p ≥ (t.ent i).badStart
  · refine Or.inr (Or.inr (Or.inr (Or.inr (Or.inl ⟨h6.2, h6.1, by omega, ?_⟩))))
    rw [if_pos h6, hw ((t.ent i).badEnd - p + 1) (by omega) (by omega),
      hw ((t.ent i).goodStart + p - (t.ent i).badStart) (by omega) (by omega),
      hw ((t.ent i).badEnd + 1) (by omega) (by omega)]
    rw [show lastsec - p + 1 - ((t.ent i).badEnd - p + 1) = lastsec - ((t.ent i).badEnd + 1) + 1
      by omega]
  · refine Or.inr (Or.inr (Or.inr (Or.inr (Or.inr ⟨by omega, by omega, ?_⟩))))
    rw [if_neg h6, hw ((t.ent i).badStart - p) (by omega) (by omega),
      hw ((t.ent i).badEnd - (t.ent i).badStart + 1) (by omega) (by omega),
      hw ((t.ent i).badEnd + 1) (by omega) (by omega),
      hw (lastsec - (t.ent i).badEnd) (by omega) (by omega)]
    rw [show lastsec - (t.ent i).badEnd = lastsec - ((t.ent i).badEnd + 1) + 1 by omega]

theorem countLoop_add (ent : Nat → AltsEnt) (lastsec : Int) (n idx cnt : Nat) :
    countLoop ent lastsec n idx cnt = countLoop ent lastsec n idx 0 + cnt := by
  induction n generalizing idx cnt with
  | zero => simp only [countLoop, Nat.zero_add]
  | succ n ih =>
      unfold countLoop
      by_cases h : lastsec < (ent idx).badStart
      · rw [if_pos h, if_pos h, Nat.zero_add]
      · rw [if_neg h, if_neg h, ih, ih (idx + 1) (0 + 1)]
        omega

/-- An entry the request reaches is counted. -/
theorem countLoop_succ {ent : Nat → AltsEnt} {lastsec : Int} {i : Nat}
    (h : ¬ lastsec < (ent i).badStart) (n : Nat) :
    countLoop ent lastsec (n + 1) i 0 = countLoop ent lastsec n (i + 1) 0 + 1 := by
  rw [countLoop, if_neg h, countLoop_add]

/-- Sectors before the next cluster, when every earlier one is behind, are
    good. -/
theorem Alts.Ok.good_between {t : Alts} (hok : t.Ok) {i : Nat} {p q : Int}
    (hbelow : ∀ j, j < i → (t.ent j).badEnd < p)
    (hnext : i < t.cnt → p + q ≤ (t.ent i).badStart) : ∀ x ∈ cells p q, ¬ t.Bad x := by
  intro x hx hbad
  rcases mem_cells.1 hx with ⟨hx1, hx2⟩
  rcases hbad with ⟨j, hj, hb1, hb2⟩
  rcases Nat.lt_trichotomy j i with hlt | heq | hgt
  · have := hbelow j hlt
    omega
  · rw [heq] at hb1 hj
    have := hnext hj
    omega
  · have hs := hok.sorted i j hgt hj
    have hi := hnext (by omega)
    have he := (hok.badEnd i (by omega)).1
    omega

/-- The loop leaves the cookies already cut alone, and cuts the section from
    the cookie at hand to the last sector. It makes at most two cookies more
    than one for every entry that was counted. -/
theorem remapLoop_covers {t : Alts} (hok : t.Ok) {lastsec : Int} (hlast : lastsec < 2 ^ 31)
    (n : Nat) : ∀ (i idx : Nat) (ckp : Nat → BbhCookie) (p : Int), i + n = t.cnt →
      (∀ j, j < i → (t.ent j).badEnd < p) → 0 ≤ p → p ≤ lastsec →
      ckp idx = ⟨p, lastsec - p + 1⟩ →
      (∀ k, k < idx → remapLoop t.ent lastsec n i idx ckp k = ckp k) ∧
      ∃ m, m ≤ 2 * countLoop t.ent lastsec n i 0 + 1 ∧
        Covers t (cookiesFrom (remapLoop t.ent lastsec n i idx ckp) idx m) p (lastsec - p + 1) := by
  induction n with
  | zero =>
      intro i idx ckp p hin hbelow hp hle hck
      refine ⟨fun k _ => rfl, 1, by omega, ?_⟩
      simp only [remapLoop, cookiesFrom, hck]
      exact Covers.single (by omega)
        (Covers.map_good (hok.good_between hbelow fun hi => by omega))
  | succ n ih =>
      intro i idx ckp p hin hbelow hp hle hck
      have hi : i < t.cnt := by omega
      have hbs := hok.badStart i hi
      have hbe := hok.badEnd i hi
      -- Once the section at hand starts beyond this cluster, so do all before it.
      have hpast : ∀ p', p ≤ p' → (t.ent i).badEnd < p' →
          ∀ j, j < i + 1 → (t.ent j).badEnd < p' := by
        intro p' hpp hip j hj
        by_cases hji : j = i
        · rw [hji]
          exact hip
        · have := hbelow j (by omega)
          omega
      have hne1 : idx ≠ idx + 1 := by omega
      have hne2 : idx ≠ idx + 2 := by omega
      have hne3 : idx + 1 ≠ idx + 2 := by omega
      rcases remapBody_cases hok hi hlast hp hle hck with ⟨h1, hr⟩ | ⟨h3, hr⟩ | ⟨h2, h7, hr⟩ |
        ⟨h5, h5', h5'', hr⟩ | ⟨h6, h6', h6'', hr⟩ | ⟨h4, h4', hr⟩
      · -- The cluster starts beyond the section, and so do all that follow.
        simp only [remapLoop, hr]
        refine ⟨fun k _ => trivial, 1, by omega, ?_⟩
        simp only [cookiesFrom, hck]
        exact Covers.single (by omega)
          (Covers.map_good (hok.good_between hbelow fun _ => by omega))
      · -- The cluster is behind the section.
        simp only [remapLoop, hr]
        rcases ih (i + 1) idx ckp p (by omega) (hpast p (le_refl p) h3) hp hle hck with
          ⟨hk, m, hm, hc⟩
        refine ⟨hk, m, ?_, hc⟩
        rw [countLoop_succ (by omega)]
        omega
      · -- The section is all bad.
        simp only [remapLoop, hr]
        refine ⟨fun k hk => Function.update_of_ne (by omega) .., 1, by omega, ?_⟩
        simp only [cookiesFrom, Function.update_self]
        refine Covers.single (by omega) (Covers.map_bad hok hi (fun x hx => ?_) rfl)
        rcases mem_cells.1 hx with ⟨hx1, hx2⟩
        exact ⟨by omega, by omega⟩
      · -- The section ends in the cluster.
        simp only [remapLoop, hr]
        refine ⟨fun k hk => ?_, 2, ?_, ?_⟩
        · rw [Function.update_of_ne (by omega), Function.update_of_ne (by omega)]
        · rw [countLoop_succ (by omega)]
          omega
        · simp only [cookiesFrom, Function.update_self, Function.update_of_ne hne1]
          refine Covers.cons (n := lastsec - (t.ent i).badStart + 1) (by omega) (by omega)
            (by omega) (Covers.map_good (hok.good_between hbelow fun _ => by omega)) ?_
          refine Covers.single (by omega) (Covers.map_bad hok hi (fun x hx => ?_) (by omega))
          rcases mem_cells.1 hx with ⟨hx1, hx2⟩
          exact ⟨by omega, by omega⟩
      · -- The section starts in the cluster.
        simp only [remapLoop, hr]
        rcases ih (i + 1) (idx + 1) _ ((t.ent i).badEnd + 1) (by omega)
          (hpast _ (by omega) (by omega)) (by omega) (by omega) (Function.update_self ..) with
          ⟨hk, m, hm, hc⟩
        refine ⟨fun k hk' => ?_, m + 1, ?_, ?_⟩
        · rw [hk k (by omega), Function.update_of_ne (by omega), Function.update_of_ne (by omega)]
        · rw [countLoop_succ (by omega)]
          omega
        · rw [cookiesFrom, hk idx (by omega), Function.update_of_ne hne1, Function.update_self]
          dsimp only
          refine Covers.cons (n := lastsec - ((t.ent i).badEnd + 1) + 1) (by omega) (by omega)
            (by omega) (Covers.map_bad hok hi (fun x hx => ?_) rfl) ?_
          · rcases mem_cells.1 hx with ⟨hx1, hx2⟩
            exact ⟨by omega, by omega⟩
          · rw [show p + ((t.ent i).badEnd - p + 1) = (t.ent i).badEnd + 1 by omega]
            exact hc
      · -- The cluster lies inside the section.
        simp only [remapLoop, hr]
        rcases ih (i + 1) (idx + 2) _ ((t.ent i).badEnd + 1) (by omega)
          (hpast _ (by omega) (by omega)) (by omega) (by omega) (Function.update_self ..) with
          ⟨hk, m, hm, hc⟩
        refine ⟨fun k hk' => ?_, m + 2, ?_, ?_⟩
        · rw [hk k (by omega), Function.update_of_ne (by omega), Function.update_of_ne (by omega),
            Function.update_of_ne (by omega)]
        · rw [countLoop_succ (by omega)]
          omega
        · rw [cookiesFrom, cookiesFrom, hk idx (by omega), hk (idx + 1) (by omega),
            Function.update_of_ne hne2, Function.update_of_ne hne1, Function.update_self,
            Function.update_of_ne hne3, Function.update_self]
          dsimp only
          refine Covers.cons (n := lastsec - (t.ent i).badStart + 1) (by omega) (by omega)
            (by omega) (Covers.map_good (hok.good_between hbelow fun _ => by omega)) ?_
          refine Covers.cons (n := lastsec - ((t.ent i).badEnd + 1) + 1) (by omega) (by omega)
            (by omega) (Covers.map_bad hok hi (fun x hx => ?_) (by omega)) ?_
          · rcases mem_cells.1 hx with ⟨hx1, hx2⟩
            exact ⟨by omega, by omega⟩
          · rw [show p + ((t.ent i).badStart - p) +
              ((t.ent i).badEnd - (t.ent i).badStart + 1) = (t.ent i).badEnd + 1 by omega]
            exact hc

/-- The handle in terms of the table of the slice: the early returns are all
    for an empty table. -/
theorem gethandle_eq (dkp : Cmdk) (bp : Buf) :
    gethandle dkp bp =
      match bsearch (dkp.alts bp.part).ent (dkp.alts bp.part).cnt (int32 bp.sec) with
      | none => none
      | some i =>
        let t := dkp.alts bp.part
        let dCount := bp.bcount >>> 9
        let lastsec := int32 (bp.sec + dCount - 1)
        let cnt := countLoop t.ent lastsec (t.cnt - i) i 0
        if cnt = 0 then none
        else
          some { totck := (cnt <<< 1) + 1, idx := 0
                 cktab := remapLoop t.ent lastsec (t.cnt - i) i 0
                   (Function.update (fun _ => ⟨0, 0⟩) 0 ⟨int32 bp.sec, dCount⟩) } := by
  have hempty : ∀ ent key, bsearch ent 0 key = none := fun _ _ => rfl
  unfold gethandle
  by_cases hpart : bp.part ≥ vNumpar
  · have ht : dkp.alts bp.part = ⟨0, dkp.slcEnt bp.part⟩ := if_pos (Or.inl hpart)
    rw [if_pos hpart, ht, hempty]
  rw [if_neg hpart]
  by_cases hhdl : dkp.altsHdl = false
  · have ht : dkp.alts bp.part = ⟨0, dkp.slcEnt bp.part⟩ := if_pos (Or.inr hhdl)
    rw [if_pos hhdl, ht, hempty]
  rw [if_neg hhdl]
  have ht : dkp.alts bp.part = ⟨dkp.slcCnt bp.part, dkp.slcEnt bp.part⟩ :=
    if_neg fun h => h.elim hpart hhdl
  rw [ht]
  by_cases hcnt : dkp.slcCnt bp.part = 0
  · rw [if_pos hcnt, hcnt, hempty]
  · rw [if_neg hcnt]

/-- There is no handle exactly when no sector of the request is bad, and
    otherwise the first cookies are the remapped request. -/
theorem bbh_remap_cookies (dkp : Cmdk) (bp : Buf) (hok : (dkp.alts bp.part).Ok)
    (hsec : 0 ≤ bp.sec) (hcount : 1 ≤ bp.bcount >>> 9)
    (hend : bp.sec + (bp.bcount >>> 9 : Nat) ≤ 2 ^ 31) :
    (gethandle dkp bp = none ↔
      ∀ s ∈ cells bp.sec (bp.bcount >>> 9 : Nat), ¬ (dkp.alts bp.part).Bad s) ∧
    ∀ hp, gethandle dkp bp = some hp → ∃ n, n ≤ hp.totck ∧
      (∀ e ∈ hp.cookies n, 0 < e.2) ∧ size (hp.cookies n) = (bp.bcount >>> 9 : Nat) ∧
      cover (hp.cookies n) =
        (cells bp.sec (bp.bcount >>> 9 : Nat)).map (dkp.alts bp.part).remap := by
  rw [gethandle_eq]
  generalize dkp.alts bp.part = t at hok ⊢
  generalize bp.bcount >>> 9 = count at hcount hend ⊢
  rw [int32_of_bounds (by omega) (by omega)]
  have hfirst := bsearch_isFirst hok.isSorted bp.sec
  cases hs : bsearch t.ent t.cnt bp.sec with
  | none =>
      rw [hs] at hfirst
      refine ⟨iff_of_true rfl ?_, nofun⟩
      refine hok.good_between (i := t.cnt) (fun j hj => hfirst j hj) fun h => ?_
      exact absurd h (Nat.lt_irrefl _)
  | some i =>
      rw [hs] at hfirst
      rcases hfirst with ⟨hi, hkey, hbelow⟩
      dsimp only
      rw [int32_of_bounds (by omega) (by omega)]
      obtain ⟨n, hn⟩ : ∃ n, t.cnt - i = n + 1 := ⟨t.cnt - i - 1, by omega⟩
      rw [hn]
      by_cases hreach : bp.sec + (count : Int) - 1 < (t.ent i).badStart
      · have h0 : countLoop t.ent (bp.sec + count - 1) (n + 1) i 0 = 0 := if_pos hreach
        rw [if_pos h0]
        refine ⟨iff_of_true rfl ?_, nofun⟩
        exact hok.good_between hbelow fun _ => by omega
      · have h0 : countLoop t.ent (bp.sec + count - 1) (n + 1) i 0 ≠ 0 := by
          rw [countLoop_succ hreach]
          omega
        rw [if_neg h0]
        have hbe := hok.badEnd i hi
        constructor
        · refine iff_of_false nofun fun hall => ?_
          -- The first sector of the request in the cluster, or the cluster's first.
          refine hall (max bp.sec (t.ent i).badStart) (mem_cells.2 ?_) ⟨i, hi, ?_⟩
          · omega
          · exact ⟨by omega, by omega⟩
        · intro hp hhp
          cases hhp
          have hlast : bp.sec + (count : Int) - 1 < 2 ^ 31 := by omega
          rcases remapLoop_covers hok hlast (n + 1) i 0
            (Function.update (fun _ => ⟨0, 0⟩) 0 ⟨bp.sec, count⟩) bp.sec (by omega) hbelow hsec
            (by omega) (by
              rw [Function.update_self]
              congr 1
              omega) with ⟨-, m, hm, hc⟩
          rw [show bp.sec + (count : Int) - 1 - bp.sec + 1 = count by omega] at hc
          refine ⟨m, ?_, ?_⟩
          · simp only [Nat.shiftLeft_eq]
            omega
          · rw [BbhHandle.cookies_eq]
            refine ⟨hc.pos, ?_, hc.cover⟩
            rw [← length_cover fun e he => le_of_lt (hc.pos e he), hc.cover, List.length_map,
              length_cells, Int.toNat_natCast]

/-- A table with two clusters, and a request that reaches into both. -/
def twoClusters : Cmdk where
  altsHdl := true
  slcCnt := fun _ => 2
  slcEnt := fun _ i => if i = 0 then ⟨10, 12, 100⟩ else ⟨15, 20, 200⟩

theorem twoClusters_ok : (twoClusters.alts 0).Ok where
  badStart := show ∀ i, i < 2 → _ by decide
  badEnd := show ∀ i, i < 2 → _ by decide
  goodStart := show ∀ i, i < 2 → _ by decide
  goodEnd := show ∀ i, i < 2 → _ by decide
  sorted := fun i j hij hj => by
    have hj2 : j < 2 := hj
    obtain rfl : i = 0 := by omega
    obtain rfl : j = 1 := by omega
    decide

example : (gethandle twoClusters ⟨0, 11, 4096⟩).map (BbhHandle.cookies 4) =
    some [(101, 2), (13, 2), (200, 4), (0, 0)] := by
  decide

end Disk

end Sil3112
