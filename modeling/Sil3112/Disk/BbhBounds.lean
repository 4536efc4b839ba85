import Sil3112.Disk.BbhIndex

/-!
# Bounds of the Bad-Block Code

`cmdk_bbh_gethandle` and the loops of `cmdk_bbh_reopen` once more, with every access
to the table and to the cookies checked. An access beyond the bounds is an error
here, and so is an `int` that is too large, and a loop that is not over after the
rounds it was given. What comes out without an error is what comes out of the
functions as they are.

`cmdk_bbh_gethandle` counts the entries that the request reaches and allocates two
cookies for each, and one more. Then it goes over the same entries, as the first case
of the second loop is the condition that ends the first, and takes at most two new
cookies for each. Nothing of this depends on what the entries are.

`cmdk_bbh_reopen` takes the number of the entries from the label, and never compares it
with the size of the table. Where the table is too small, its loops run out of it
unless an entry stops them.

## Main definitions

* `ld`, `st`, `fit`: An access that is checked, and an `int`.
* `gethandleC`, `reopenC`: `cmdk_bbh_gethandle` and `cmdk_bbh_reopen`, checked.
* `InBuffer`: A table is loaded and used within its buffer.

## Theorems

* `bsearchC_eq`: The search stays in the table, and ends.
* `remapBodyC_eq`: An entry takes no more than two new cookies.
* `gethandle_in_bounds`: A handle stays in its part of the table and in its cookies.
* `stops_iff`: Where the loops for a slice end.
* `table_in_buffer_iff`: When a table stays in its buffer.
-/

namespace Sil3112

namespace Disk

/-! ## Checked accesses -/

section

variable {α : Type}

/-- A read of the element `k` of an array with `n`. -/
def ld (n : Nat) (f : Nat → α) (k : Int) : Option α :=
  if 0 ≤ k ∧ k < n then some (f k.toNat) else none

/-- A write to it. -/
def st (n : Nat) (f : Nat → α) (k : Int) (a : α) : Option (Nat → α) :=
  if 0 ≤ k ∧ k < n then some (Function.update f k.toNat a) else none

/-- A value for an integer that goes up to `intMax`. -/
def fit (intMax x : Nat) : Option Nat :=
  if x ≤ intMax then some x else none

theorem ld_of_lt {n k : Nat} (f : Nat → α) (h : k < n) : ld n f k = some (f k) := by
  unfold ld
  rw [if_pos (by omega), Int.toNat_natCast]

theorem ld_of_ge {n k : Nat} (f : Nat → α) (h : n ≤ k) : ld n f k = none := by
  unfold ld
  rw [if_neg (by omega)]

theorem st_of_lt {n k : Nat} (f : Nat → α) (a : α) (h : k < n) :
    st n f k a = some (Function.update f k a) := by
  unfold st
  rw [if_pos (by omega), Int.toNat_natCast]

theorem fit_of_le {intMax x : Nat} (h : x ≤ intMax) : fit intMax x = some x :=
  if_pos h

end

/-! ## The checked functions -/

/-- The first loop of `cmdk_bbh_bsearch`. -/
def bsearchTopC (intMax cnt : Nat) : Nat → Nat → Nat → Option Nat
  | 0, _, _ => none
  | fuel + 1, i, ind =>
    if i ≤ cnt then do
      let next ← fit intMax (i <<< 1)
      bsearchTopC intMax cnt fuel next i
    else some ind

/-- The second loop of `cmdk_bbh_bsearch`, for a table of which `avail` entries may be
    read. -/
def bsearchLoopC (avail : Nat) (buf : Nat → AltsEnt) (cnt : Nat) (key : Int) :
    Nat → Int → Nat → Option Nat → Option (Option Nat)
  | 0, _, _, _ => none
  | fuel + 1, ind, interval, mystatus =>
    if interval = 0 then some mystatus
    else do
      let e ← ld avail buf (ind - 1)
      if key ≥ e.badStart ∧ key ≤ e.badEnd then some (some (ind - 1).toNat)
      else
        let interval := interval >>> 1
        if key < e.badStart then
          let mystatus := some (ind - 1).toNat
          if interval = 0 then some mystatus
          else bsearchLoopC avail buf cnt key fuel (ind - interval) interval mystatus
        else if ind = cnt ∨ interval = 0 then some mystatus
        else if ind + interval ≤ cnt then
          bsearchLoopC avail buf cnt key fuel (ind + interval) interval mystatus
        else bsearchLoopC avail buf cnt key fuel ind interval mystatus

/-- `cmdk_bbh_bsearch` -/
def bsearchC (avail intMax fuel : Nat) (buf : Nat → AltsEnt) (cnt : Nat) (key : Int) :
    Option (Option Nat) :=
  if cnt = 0 then some none
  else do
    let ind ← bsearchTopC intMax cnt fuel 1 1
    bsearchLoopC avail buf cnt key fuel ind ind none

/-- The loop of `cmdk_bbh_gethandle` that counts. -/
def countLoopC (avail : Nat) (ent : Nat → AltsEnt) (altsUsed : Nat) (lastsec : Int) :
    Nat → Nat → Nat → Option Nat
  | 0, _, _ => none
  | fuel + 1, idx, cnt =>
    if idx < altsUsed then do
      let alt ← ld avail ent idx
      if lastsec < alt.badStart then some cnt
      else countLoopC avail ent altsUsed lastsec fuel (idx + 1) (cnt + 1)
    else some cnt

/-- The body of the loop that cuts the request, with `totck` cookies. -/
def remapBodyC (totck : Nat) (alt : AltsEnt) (lastsec : Int) (idx : Nat)
    (ckp : Nat → BbhCookie) : Option (Bool × Nat × (Nat → BbhCookie)) :=
  -- CASE 1
  if lastsec < alt.badStart then some (false, idx, ckp)
  else do
    let ck ← ld totck ckp idx
    -- CASE 3
    if ck.sector > alt.badEnd then some (true, idx, ckp)
    -- CASE 2 and 7
    else if ck.sector ≥ alt.badStart ∧ lastsec ≤ alt.badEnd then do
      let ckp ← st totck ckp idx
        { ck with sector := int32 (alt.goodStart + ck.sector - alt.badStart) }
      some (false, idx, ckp)
    -- CASE 5
    else if lastsec ≥ alt.badStart ∧ lastsec ≤ alt.badEnd then do
      let seclen := int32 (lastsec - alt.badStart + 1)
      let ckp ← st totck ckp idx { ck with seclen := ck.seclen - seclen }
      let ckp ← st totck ckp (idx + 1 : Nat) { sector := alt.goodStart, seclen := seclen }
      some (false, idx, ckp)
    -- CASE 6
    else if ck.sector ≤ alt.badEnd ∧ ck.sector ≥ alt.badStart then do
      let seclen := int32 (alt.badEnd - ck.sector + 1)
      let ckp ← st totck ckp idx
        { sector := int32 (alt.goodStart + ck.sector - alt.badStart), seclen := seclen }
      let ckp ← st totck ckp (idx + 1 : Nat)
        { sector := int32 (alt.badEnd + 1), seclen := ck.seclen - seclen }
      some (true, idx + 1, ckp)
    -- CASE 4
    else do
      let ckp ← st totck ckp idx { ck with seclen := int32 (alt.badStart - ck.sector) }
      let ckp ← st totck ckp (idx + 1 : Nat)
        { sector := alt.goodStart, seclen := int32 (alt.badEnd - alt.badStart + 1) }
      let ckp ← st totck ckp (idx + 2 : Nat)
        { sector := int32 (alt.badEnd + 1), seclen := int32 (lastsec - alt.badEnd) }
      some (true, idx + 2, ckp)

/-- The loop itself. -/
def remapLoopC (avail totck : Nat) (ent : Nat → AltsEnt) (altsUsed : Nat) (lastsec : Int) :
    Nat → Nat → Nat → (Nat → BbhCookie) → Option (Nat → BbhCookie)
  | 0, _, _, _ => none
  | fuel + 1, i, idx, ckp =>
    if i < altsUsed then do
      let alt ← ld avail ent i
      match ← remapBodyC totck alt lastsec idx ckp with
      | (true, idx, ckp) => remapLoopC avail totck ent altsUsed lastsec fuel (i + 1) idx ckp
      | (false, _, ckp) => some ckp
    else some ckp

/-- `cmdk_bbh_gethandle` -/
def gethandleC (avail intMax fuel : Nat) (dkp : Cmdk) (bp : Buf) : Option (Option BbhHandle) :=
  if bp.part ≥ vNumpar then some none
  else if dkp.altsHdl = false then some none
  else if dkp.slcCnt bp.part = 0 then some none
  else do
    let altsUsed ← fit intMax (dkp.slcCnt bp.part)
    let altp := dkp.slcEnt bp.part
    match ← bsearchC avail intMax fuel altp altsUsed (int32 bp.sec) with
    | none => some none
    | some i =>
      let dCount := bp.bcount >>> 9
      let lastsec := int32 (bp.sec + dCount - 1)
      let cnt ← countLoopC avail altp altsUsed lastsec fuel i 0
      if cnt = 0 then some none
      else do
        let totck ← fit intMax ((cnt <<< 1) + 1)
        let ckp ← st totck (fun _ => ⟨0, 0⟩) (0 : Nat) ⟨int32 bp.sec, dCount⟩
        let ckp ← remapLoopC avail totck altp altsUsed lastsec fuel i 0 ckp
        some (some { totck := totck, idx := 0, cktab := ckp })

/-! ## The search -/

theorem bsearchTopC_eq {intMax cnt : Nat} (hmax : 2 * cnt ≤ intMax) (n fuel m : Nat)
    (hlt : cnt < 2 ^ (m + 1 + n)) (hfuel : n < fuel) :
    bsearchTopC intMax cnt fuel (2 ^ (m + 1)) (2 ^ m) =
      some (bsearchTop cnt n (2 ^ (m + 1)) (2 ^ m)) := by
  induction n generalizing fuel m with
  | zero =>
      obtain ⟨fuel, rfl⟩ := Nat.exists_eq_add_of_le' hfuel
      have hgt : ¬2 ^ (m + 1) ≤ cnt := Nat.not_le.mpr hlt
      rw [bsearchTopC, if_neg hgt]
      rfl
  | succ n ih =>
      obtain ⟨fuel, rfl⟩ : ∃ f, fuel = f + 1 := ⟨fuel - 1, by omega⟩
      rw [bsearchTopC, bsearchTop]
      by_cases h : 2 ^ (m + 1) ≤ cnt
      · have hshift : 2 ^ (m + 1) <<< 1 = 2 ^ (m + 1 + 1) := by
          rw [Nat.shiftLeft_eq, pow_one, ← pow_succ]
        rw [if_pos h, if_pos h, hshift, fit_of_le (by rw [pow_succ]; omega)]
        exact ih fuel (m + 1) (by rwa [show m + 1 + 1 + n = m + 1 + (n + 1) by omega]) (by omega)
      · rw [if_neg h, if_neg h]

/-- The search loop: the places it looks at are between the interval and the number of
    entries, and the interval is halved in each round. -/
theorem bsearchLoopC_eq {avail cnt : Nat} (buf : Nat → AltsEnt) (key : Int)
    (havail : cnt ≤ avail) (k : Nat) : ∀ (n fuel ind : Nat) (r : Option Nat), 2 ^ k ≤ n →
      2 ^ k ≤ fuel → 2 ^ k ≤ ind → ind ≤ cnt →
      bsearchLoopC avail buf cnt key fuel ind (2 ^ k) r =
        some (bsearchLoop buf cnt key n ind (2 ^ k) r) := by
  induction k with
  | zero =>
      -- the last round, with a step of one
      intro n fuel ind r hn hfuel hind hcnt
      rw [pow_zero] at hn hfuel hind
      obtain ⟨n, rfl⟩ := Nat.exists_eq_add_of_le' hn
      obtain ⟨fuel, rfl⟩ := Nat.exists_eq_add_of_le' hfuel
      obtain ⟨m, rfl⟩ := Nat.exists_eq_add_of_le' hind
      have hm : ((m + 1 : Nat) : Int) - 1 = m := by omega
      simp only [bsearchLoopC, bsearchLoop, pow_zero, Nat.one_ne_zero, if_false, hm,
        ld_of_lt buf (show m < avail by omega), Option.bind_eq_bind, Option.bind_some,
        Int.toNat_natCast, Nat.add_sub_cancel, Nat.shiftRight_one, Nat.reduceDiv, if_true, or_true]
      split
      · rfl
      · split
        · rfl
        · rfl
  | succ k ih =>
      -- the step is halved, and stays above what it is taken from
      intro n fuel ind r hn hfuel hind hcnt
      have hpos : 0 < 2 ^ k := Nat.two_pow_pos k
      have hpow : 2 ^ (k + 1) = 2 ^ k + 2 ^ k := by rw [pow_succ]; omega
      obtain ⟨n, rfl⟩ : ∃ n', n = n' + 1 := ⟨n - 1, by omega⟩
      obtain ⟨fuel, rfl⟩ : ∃ f, fuel = f + 1 := ⟨fuel - 1, by omega⟩
      obtain ⟨m, rfl⟩ : ∃ m, ind = m + 1 := ⟨ind - 1, by omega⟩
      have hm : ((m + 1 : Nat) : Int) - 1 = m := by omega
      have hhalf : (2 : Nat) ^ (k + 1) >>> 1 = 2 ^ k := by
        rw [Nat.shiftRight_one]
        omega
      have hdown : ((m + 1 : Nat) : Int) - (2 ^ k : Nat) = (m + 1 - 2 ^ k : Nat) := by omega
      have hup : ((m + 1 : Nat) : Int) + (2 ^ k : Nat) = (m + 1 + 2 ^ k : Nat) := by omega
      rw [hpow] at hn hfuel hind
      simp only [bsearchLoopC, bsearchLoop, show (2 : Nat) ^ (k + 1) ≠ 0 by omega, if_false, hm,
        ld_of_lt buf (show m < avail by omega), Option.bind_eq_bind, Option.bind_some,
        Int.toNat_natCast, Nat.add_sub_cancel, hhalf, hpos.ne', or_false, hdown, hup,
        Nat.cast_inj, Nat.cast_le]
      split
      · rfl
      · split
        · exact ih n fuel _ _ (by omega) (by omega) (by omega) (by omega)
        · split
          · rfl
          · split
            · exact ih n fuel _ _ (by omega) (by omega) (by omega) (by omega)
            · exact ih n fuel _ _ (by omega) (by omega) (by omega) hcnt

theorem bsearchC_eq {avail intMax fuel cnt : Nat} (buf : Nat → AltsEnt) (key : Int)
    (havail : cnt ≤ avail) (hmax : 2 * cnt ≤ intMax) (hfuel : cnt < fuel) :
    bsearchC avail intMax fuel buf cnt key = some (bsearch buf cnt key) := by
  unfold bsearchC bsearch
  by_cases h0 : cnt = 0
  · rw [if_pos h0, if_pos h0]
  rw [if_neg h0, if_neg h0]
  rcases bsearchTop_start h0 with ⟨k, htop, hle, -⟩
  have htopC : bsearchTopC intMax cnt fuel 1 1 = some (2 ^ k) := by
    rw [← htop]
    obtain ⟨n, rfl⟩ := Nat.exists_eq_succ_of_ne_zero h0
    obtain ⟨fuel, rfl⟩ : ∃ f, fuel = f + 1 := ⟨fuel - 1, by omega⟩
    have hlt : n + 1 < 2 ^ (0 + 1 + n) := by
      rw [show 0 + 1 + n = n + 1 by omega]
      exact Nat.lt_two_pow_self
    rw [bsearchTopC, bsearchTop, if_pos (by omega), if_pos (by omega),
      fit_of_le (by rw [Nat.shiftLeft_eq]; omega)]
    exact bsearchTopC_eq hmax n fuel 0 hlt (by omega)
  rw [htopC, htop]
  exact bsearchLoopC_eq buf key havail k _ fuel _ none (Nat.le_refl _) (by omega)
    (Nat.le_refl _) hle

/-- What the search finds is an entry that it has read. -/
theorem bsearchLoopC_lt {avail cnt : Nat} (buf : Nat → AltsEnt) (key : Int) (fuel : Nat) :
    ∀ (ind : Int) (interval : Nat) (r o : Option Nat), (∀ i ∈ r, i < avail) →
      bsearchLoopC avail buf cnt key fuel ind interval r = some o → ∀ i ∈ o, i < avail := by
  induction fuel with
  | zero =>
      intro ind interval r o _ h
      cases h
  | succ fuel ih =>
      intro ind interval r o hr h
      rw [bsearchLoopC] at h
      by_cases h0 : interval = 0
      · rw [if_pos h0] at h
        cases h
        exact hr
      rw [if_neg h0] at h
      -- only an index that was read is ever remembered
      by_cases hin : 0 ≤ ind - 1 ∧ ind - 1 < avail
      · have hread : ∀ i ∈ some (ind - 1).toNat, i < avail := by
          intro i hi
          cases hi
          omega
        unfold ld at h
        rw [if_pos hin] at h
        dsimp only [Option.bind_eq_bind, Option.bind_some] at h
        split at h
        · cases h
          exact hread
        · split at h
          · split at h
            · cases h
              exact hread
            · exact ih _ _ _ _ hread h
          · split at h
            · cases h
              exact hr
            · split at h
              · exact ih _ _ _ _ hr h
              · exact ih _ _ _ _ hr h
      · unfold ld at h
        rw [if_neg hin] at h
        cases h

theorem bsearch_lt {buf : Nat → AltsEnt} {cnt i : Nat} {key : Int}
    (h : bsearch buf cnt key = some i) : i < cnt := by
  have heq := bsearchC_eq buf key (Nat.le_refl cnt) (Nat.le_refl (2 * cnt)) (Nat.lt_succ_self cnt)
  rw [h] at heq
  unfold bsearchC at heq
  by_cases h0 : cnt = 0
  · rw [if_pos h0] at heq
    cases heq
  rw [if_neg h0] at heq
  rcases Option.bind_eq_some_iff.mp heq with ⟨ind, -, hloop⟩
  exact bsearchLoopC_lt buf key _ _ _ none _ nofun hloop i rfl

/-! ## The cookies -/

/-- The count goes as far as the request reaches. -/
theorem countLoopC_eq {avail altsUsed : Nat} (ent : Nat → AltsEnt) (lastsec : Int)
    (havail : altsUsed ≤ avail) (n fuel idx cnt : Nat) (hn : idx + n = altsUsed)
    (hfuel : n < fuel) :
    countLoopC avail ent altsUsed lastsec fuel idx cnt =
      some (countLoop ent lastsec n idx cnt) := by
  induction n generalizing fuel idx cnt with
  | zero =>
      obtain ⟨fuel, rfl⟩ : ∃ f, fuel = f + 1 := ⟨fuel - 1, by omega⟩
      rw [countLoopC, if_neg (by omega), countLoop]
  | succ n ih =>
      obtain ⟨fuel, rfl⟩ : ∃ f, fuel = f + 1 := ⟨fuel - 1, by omega⟩
      rw [countLoopC, if_pos (by omega), ld_of_lt ent (by omega), countLoop]
      dsimp only [Option.bind_eq_bind, Option.bind_some]
      by_cases h : lastsec < (ent idx).badStart
      · rw [if_pos h, if_pos h]
      · rw [if_neg h, if_neg h]
        exact ih fuel (idx + 1) (cnt + 1) (by omega) (by omega)

/-- An entry that is reached takes no more than two new cookies, and the first one of
    all is enough for an entry that is not. -/
theorem remapBodyC_eq {totck idx : Nat} {alt : AltsEnt} {lastsec : Int}
    (ckp : Nat → BbhCookie) (h : lastsec < alt.badStart ∨ idx + 2 < totck) :
    remapBodyC totck alt lastsec idx ckp = some (remapBody alt lastsec idx ckp) ∧
      (remapBody alt lastsec idx ckp).2.1 ≤ idx + 2 := by
  unfold remapBodyC remapBody
  by_cases h1 : lastsec < alt.badStart
  · rw [if_pos h1, if_pos h1]
    exact ⟨rfl, Nat.le_add_right _ _⟩
  have hroom : idx + 2 < totck := h.resolve_left h1
  rw [if_neg h1, if_neg h1]
  simp only [ld_of_lt ckp (show idx < totck by omega), Option.bind_eq_bind, Option.bind_some,
    st_of_lt _ _ (show idx < totck by omega), st_of_lt _ _ (show idx + 1 < totck by omega),
    st_of_lt _ _ hroom]
  by_cases h3 : (ckp idx).sector > alt.badEnd
  · rw [if_pos h3, if_pos h3]
    exact ⟨rfl, Nat.le_add_right _ _⟩
  rw [if_neg h3, if_neg h3]
  by_cases h2 : (ckp idx).sector ≥ alt.badStart ∧ lastsec ≤ alt.badEnd
  · rw [if_pos h2, if_pos h2]
    exact ⟨rfl, Nat.le_add_right _ _⟩
  rw [if_neg h2, if_neg h2]
  by_cases h5 : lastsec ≥ alt.badStart ∧ lastsec ≤ alt.badEnd
  · rw [if_pos h5, if_pos h5]
    exact ⟨rfl, Nat.le_add_right _ _⟩
  rw [if_neg h5, if_neg h5]
  by_cases h6 : (ckp idx).sector ≤ alt.badEnd ∧ (ckp idx).sector ≥ alt.badStart
  · rw [if_pos h6, if_pos h6]
    exact ⟨rfl, Nat.le_succ _⟩
  · rw [if_neg h6, if_neg h6]
    exact ⟨rfl, Nat.le_refl _⟩

/-- The loop: the cookies that are left are enough for the entries that are left. -/
theorem remapLoopC_eq {avail totck altsUsed : Nat} (ent : Nat → AltsEnt) (lastsec : Int)
    (havail : altsUsed ≤ avail) (n fuel i idx : Nat) (ckp : Nat → BbhCookie)
    (hn : i + n = altsUsed) (hfuel : n < fuel)
    (hroom : idx + 2 * countLoop ent lastsec n i 0 < totck) :
    remapLoopC avail totck ent altsUsed lastsec fuel i idx ckp =
      some (remapLoop ent lastsec n i idx ckp) := by
  induction n generalizing fuel i idx ckp with
  | zero =>
      obtain ⟨fuel, rfl⟩ : ∃ f, fuel = f + 1 := ⟨fuel - 1, by omega⟩
      rw [remapLoopC, if_neg (by omega), remapLoop]
  | succ n ih =>
      obtain ⟨fuel, rfl⟩ : ∃ f, fuel = f + 1 := ⟨fuel - 1, by omega⟩
      -- the entry is counted, so there is room for the two cookies that it may add
      have hbody : lastsec < (ent i).badStart ∨
          idx + 2 + 2 * countLoop ent lastsec n (i + 1) 0 < totck := by
        by_cases h : lastsec < (ent i).badStart
        · exact Or.inl h
        · rw [countLoop_succ h] at hroom
          exact Or.inr (by omega)
      rcases @remapBodyC_eq totck idx (ent i) lastsec ckp
        (hbody.imp_right fun h => Nat.lt_of_le_of_lt (Nat.le_add_right _ _) h) with ⟨heq, hidx⟩
      rw [remapLoopC, if_pos (by omega), ld_of_lt ent (by omega), remapLoop]
      dsimp only [Option.bind_eq_bind, Option.bind_some]
      rw [heq]
      dsimp only [Option.bind_some]
      by_cases h : lastsec < (ent i).badStart
      · have hstop : remapBody (ent i) lastsec idx ckp = (false, idx, ckp) := if_pos h
        rw [hstop]
      · generalize remapBody (ent i) lastsec idx ckp = b at hidx
        rcases b with ⟨go, idx', ckp'⟩
        dsimp only at hidx
        cases go with
        | false => rfl
        | true => exact ih fuel (i + 1) idx' ckp' (by omega) (by omega) (by omega)

theorem countLoop_le_fuel (ent : Nat → AltsEnt) (lastsec : Int) (n i : Nat) :
    countLoop ent lastsec n i 0 ≤ n := by
  induction n generalizing i with
  | zero => exact Nat.le_refl 0
  | succ n ih =>
      by_cases h : lastsec < (ent i).badStart
      · rw [countLoop, if_pos h]
        exact Nat.zero_le _
      · rw [countLoop_succ h]
        exact Nat.succ_le_succ (ih (i + 1))

/-- A handle is made without an error, whatever the entries are. -/
theorem gethandleC_eq {avail intMax fuel : Nat} (dkp : Cmdk) (bp : Buf)
    (havail : dkp.slcCnt bp.part ≤ avail) (hmax : 2 * dkp.slcCnt bp.part + 1 ≤ intMax)
    (hfuel : dkp.slcCnt bp.part < fuel) :
    gethandleC avail intMax fuel dkp bp = some (gethandle dkp bp) := by
  unfold gethandleC gethandle
  by_cases hpart : bp.part ≥ vNumpar
  · rw [if_pos hpart, if_pos hpart]
  rw [if_neg hpart, if_neg hpart]
  by_cases hhdl : dkp.altsHdl = false
  · rw [if_pos hhdl, if_pos hhdl]
  rw [if_neg hhdl, if_neg hhdl]
  by_cases hcnt : dkp.slcCnt bp.part = 0
  · rw [if_pos hcnt, if_pos hcnt]
  rw [if_neg hcnt, if_neg hcnt, fit_of_le (by omega)]
  dsimp only [Option.bind_eq_bind, Option.bind_some]
  rw [bsearchC_eq (dkp.slcEnt bp.part) (int32 bp.sec) havail (by omega) hfuel]
  cases hfind : bsearch (dkp.slcEnt bp.part) (dkp.slcCnt bp.part) (int32 bp.sec) with
  | none => rfl
  | some i =>
      have hi := bsearch_lt hfind
      dsimp only [Option.bind_some]
      rw [countLoopC_eq _ _ havail (dkp.slcCnt bp.part - i) fuel i 0 (by omega) (by omega)]
      have hle := countLoop_le_fuel (dkp.slcEnt bp.part)
        (int32 (bp.sec + (bp.bcount >>> 9 : Nat) - 1)) (dkp.slcCnt bp.part - i) i
      dsimp only [Option.bind_some]
      by_cases hnone : countLoop (dkp.slcEnt bp.part)
          (int32 (bp.sec + (bp.bcount >>> 9 : Nat) - 1)) (dkp.slcCnt bp.part - i) i 0 = 0
      · rw [if_pos hnone, if_pos hnone]
      · rw [if_neg hnone, if_neg hnone, fit_of_le (by rw [Nat.shiftLeft_eq]; omega)]
        dsimp only [Option.bind_some]
        rw [st_of_lt _ _ (Nat.succ_pos _)]
        dsimp only [Option.bind_some]
        rw [remapLoopC_eq _ _ havail (dkp.slcCnt bp.part - i) fuel i 0 _ (by omega) (by omega)
          (by rw [Nat.shiftLeft_eq]; omega)]
        rfl

/-- The loop that finds the first entry of a slice, checked. -/
def firstEntC (avail : Nat) (enttblp : Nat → AltsEnt) (slcb : Nat) : Nat → Nat → Option Nat
  | 0, j => some j
  | n + 1, j => do
    let e ← ld avail enttblp j
    if diskaddr (int32 (e.badStart + e.badEnd)) ≥ slcb then some j
    else firstEntC avail enttblp slcb n (j + 1)

/-- The loop that counts the entries of a slice. -/
def countEntsC (avail : Nat) (enttblp : Nat → AltsEnt) (slce : Nat) :
    Nat → Nat → Nat → Option Nat
  | 0, _, cnt => some cnt
  | n + 1, j, cnt => do
    let e ← ld avail enttblp j
    if diskaddr e.badStart ≤ slce then countEntsC avail enttblp slce n (j + 1) (cnt + 1)
    else some cnt

/-- The body of the loop over the slices. -/
def buildSliceC (avail : Nat) (enttblp : Nat → AltsEnt) (altused i : Nat) (p : PartInfo)
    (s : BbhDk) : Option BbhDk :=
  if p.slcn = 0 then some { s with slcCnt := Function.update s.slcCnt i 0 }
  else do
    let j ← firstEntC avail enttblp p.slcb altused 0
    let cnt ← countEntsC avail enttblp p.slce (altused - j) j 0
    some { s with
      slcEnt := Function.update s.slcEnt i fun k => enttblp (j + k)
      slcCnt := Function.update s.slcCnt i cnt }

/-- The loop over the slices. -/
def buildIndexC (avail : Nat) (parts : Nat → Option PartInfo) (enttblp : Nat → AltsEnt)
    (altused : Nat) : Nat → Nat → BbhDk → Option (BbhDk × List BbhEv × Bool)
  | 0, _, s => some (s, [], true)
  | n + 1, i, s =>
    match parts i with
    | none => some (s, [], false)
    | some p => do
      let s' ← buildSliceC avail enttblp altused i p s
      let r ← buildIndexC avail parts enttblp altused n (i + 1) s'
      some (r.1, .tabUse s.slcTab :: r.2.1, r.2.2)

/-- The sectors of the table that a label describes. -/
def AltsParttbl.sectors (ap : AltsParttbl) : Nat :=
  ap.entEnd.toNat - ap.entBase.toNat + 1

/-- The entries that these have room for. A `struct alts_ent` has 12 bytes. -/
def AltsParttbl.ents (ap : AltsParttbl) : Nat :=
  ap.sectors * nbpsctr / 12

/-- What `cmdk_bbh_reopen` gives to `dadk_iob_alloc` as the size of the table. -/
def AltsParttbl.xfer (ap : AltsParttbl) : Nat :=
  ((ap.entEnd - ap.entBase + 1) <<< 9).toNat

/-- The second half of `cmdk_bbh_reopen`. -/
def reopenTableC (s : BbhDk) (e : ReopenEnv) (handle : Option Nat) :
    Option (BbhDk × List BbhEv) := do
  let a := allocTabs s e
  let free := a.1.altsHdl.toList.map BbhEv.iobFree
  let s := { a.1 with altsHdl := handle, altused := e.label.entUsed }
  let b ← buildIndexC e.label.ents e.parts e.table e.label.entUsed.toNat ndkmap 0 s
  if b.2.2 then some (b.1, a.2 ++ free ++ b.2.1)
  else
    let c := reopenEmpty b.1 handle
    some (c.1, a.2 ++ free ++ b.2.1 ++ c.2)

/-- `cmdk_bbh_reopen` -/
def reopenC (s : BbhDk) (e : ReopenEnv) : Option (BbhDk × List BbhEv) :=
  let r := readTable e s.iobs
  if r.ok then do
    let b ← reopenTableC { s with iobs := r.iobs } e r.handle
    some (b.1, r.evs ++ b.2)
  else
    let b := reopenEmpty { s with iobs := r.iobs } r.handle
    some (b.1, r.evs ++ b.2)

/-- Where the entries of a slice begin in the table. -/
def ReopenEnv.slcOff (e : ReopenEnv) (part : Nat) : Nat :=
  match e.parts part with
  | none => 0
  | some p => if p.slcn = 0 then 0 else firstEnt e.table p.slcb e.label.entUsed.toNat 0

/-- The table is loaded within its buffer: the size of the buffer is that of its
    sectors, and neither `cmdk_bbh_reopen` nor any `cmdk_bbh_gethandle` after it looks
    at an entry that is not in these sectors. -/
structure InBuffer (s : BbhDk) (e : ReopenEnv) : Prop where
  size : e.label.xfer = e.label.sectors * nbpsctr
  load : reopenC s e = some (reopen s e)
  later : ∀ bp : Buf, ∃ intMax fuel,
    gethandleC (e.label.ents - e.slcOff bp.part) intMax fuel (reopen s e).1.cmdk bp =
      some (gethandle (reopen s e).1.cmdk bp)

/-- Within the first `avail` entries there is one that the first loop stops at, and
    the same one or a later one that the second loop stops at. -/
def Stops (avail : Nat) (enttblp : Nat → AltsEnt) (p : PartInfo) : Prop :=
  ∃ j k, j ≤ k ∧ k < avail ∧
    diskaddr (int32 ((enttblp j).badStart + (enttblp j).badEnd)) ≥ p.slcb ∧
    p.slce < diskaddr (enttblp k).badStart

section

variable {enttblp : Nat → AltsEnt} {avail : Nat}

theorem firstEnt_le {slcb k : Nat} (n j : Nat)
    (h : diskaddr (int32 ((enttblp k).badStart + (enttblp k).badEnd)) ≥ slcb) (hjk : j ≤ k) :
    firstEnt enttblp slcb n j ≤ k := by
  induction n generalizing j with
  | zero => exact hjk
  | succ n ih =>
      rw [firstEnt]
      split
      · exact hjk
      · next hno =>
        refine ih (j + 1) (Nat.lt_of_le_of_ne hjk fun heq => ?_)
        rw [heq] at hno
        exact hno h

theorem firstEnt_stop {slcb : Nat} (n j : Nat) (h : firstEnt enttblp slcb n j < j + n) :
    diskaddr (int32 ((enttblp (firstEnt enttblp slcb n j)).badStart +
      (enttblp (firstEnt enttblp slcb n j)).badEnd)) ≥ slcb := by
  induction n generalizing j with
  | zero =>
      rw [firstEnt] at h
      omega
  | succ n ih =>
      rw [firstEnt] at h ⊢
      split
      · assumption
      · next hno =>
        rw [if_neg hno] at h
        exact ih (j + 1) (by omega)

theorem firstEnt_bounds (slcb n j : Nat) :
    j ≤ firstEnt enttblp slcb n j ∧ firstEnt enttblp slcb n j ≤ j + n := by
  induction n generalizing j with
  | zero => exact ⟨Nat.le_refl _, Nat.le_refl _⟩
  | succ n ih =>
      rw [firstEnt]
      split
      · omega
      · have := ih (j + 1)
        omega

theorem countEnts_le {slce k : Nat} (n j : Nat) (h : slce < diskaddr (enttblp k).badStart)
    (hjk : j ≤ k) : j + countEnts enttblp slce n j 0 ≤ k := by
  induction n generalizing j with
  | zero => exact hjk
  | succ n ih =>
      rw [countEnts]
      split
      · next hyes =>
        have hne : j ≠ k := fun heq => by
          rw [heq] at hyes
          omega
        have := ih (j + 1) (by omega)
        rw [countEnts_add]
        omega
      · exact hjk

theorem countEnts_stop {slce : Nat} (n j : Nat) (h : countEnts enttblp slce n j 0 < n) :
    slce < diskaddr (enttblp (j + countEnts enttblp slce n j 0)).badStart := by
  induction n generalizing j with
  | zero => omega
  | succ n ih =>
      rw [countEnts] at h ⊢
      split
      · next hyes =>
        rw [if_pos hyes, countEnts_add] at h
        rw [countEnts_add, ← Nat.add_assoc]
        exact ih (j + 1) (by omega)
      · next hno => exact Nat.not_le.mp hno

/-- The first loop stays in the table if the table is long enough, or an entry in it
    stops the loop. -/
theorem firstEntC_eq (slcb n j : Nat) (hj : j ≤ avail) :
    firstEntC avail enttblp slcb n j =
      if j + n ≤ avail ∨ firstEnt enttblp slcb n j < avail then some (firstEnt enttblp slcb n j)
      else none := by
  induction n generalizing j with
  | zero => exact (if_pos (Or.inl hj)).symm
  | succ n ih =>
      rw [firstEntC, firstEnt]
      rcases Nat.lt_or_eq_of_le hj with hlt | heq
      · rw [ld_of_lt enttblp hlt]
        dsimp only [Option.bind_eq_bind, Option.bind_some]
        split
        · rw [if_pos (Or.inr hlt)]
        · rw [ih (j + 1) hlt, Nat.add_right_comm, Nat.add_assoc]
      · rw [ld_of_ge enttblp (Nat.le_of_eq heq.symm), if_neg]
        · rfl
        · have := @firstEnt_bounds enttblp slcb n (j + 1)
          rw [not_or]
          split
          · omega
          · omega

theorem countEntsC_eq (slce n j cnt : Nat) (hj : j ≤ avail) :
    countEntsC avail enttblp slce n j cnt =
      if j + n ≤ avail ∨ j + countEnts enttblp slce n j 0 < avail then
        some (countEnts enttblp slce n j cnt)
      else none := by
  induction n generalizing j cnt with
  | zero => exact (if_pos (Or.inl hj)).symm
  | succ n ih =>
      rw [countEntsC, countEnts, countEnts]
      rcases Nat.lt_or_eq_of_le hj with hlt | heq
      · rw [ld_of_lt enttblp hlt]
        dsimp only [Option.bind_eq_bind, Option.bind_some]
        split
        · rw [ih (j + 1) (cnt + 1) hlt, countEnts_add enttblp slce n (j + 1) (0 + 1)]
          congr 1
          rw [eq_iff_iff]
          omega
        · exact (if_pos (Or.inr hlt)).symm
      · rw [ld_of_ge enttblp (Nat.le_of_eq heq.symm), if_neg]
        · rfl
        · omega

/-- The entries of a slice that are looked at are in the table. -/
def Fits (avail : Nat) (enttblp : Nat → AltsEnt) (altused : Nat) (p : PartInfo) : Prop :=
  p.slcn = 0 ∨ altused ≤ avail ∨ Stops avail enttblp p

/-- Where the second loop ends. -/
theorem stops_iff {altused : Nat} (hlt : avail < altused) (p : PartInfo) :
    Stops avail enttblp p ↔
      firstEnt enttblp p.slcb altused 0 +
        countEnts enttblp p.slce (altused - firstEnt enttblp p.slcb altused 0)
          (firstEnt enttblp p.slcb altused 0) 0 < avail := by
  constructor
  · rintro ⟨j, k, hjk, hk, hfirst, hlast⟩
    have hle := firstEnt_le altused 0 hfirst (Nat.zero_le j)
    exact Nat.lt_of_le_of_lt (countEnts_le _ _ hlast (Nat.le_trans hle hjk)) hk
  · intro h
    refine ⟨_, _, Nat.le_add_right _ _, h, firstEnt_stop altused 0 (by omega), ?_⟩
    exact countEnts_stop _ _ (by omega)

/-- The second loop ends in the table. -/
theorem Fits.end_lt {altused : Nat} {p : PartInfo} (h : Fits avail enttblp altused p)
    (h0 : p.slcn ≠ 0) : altused ≤ avail ∨
      firstEnt enttblp p.slcb altused 0 +
        countEnts enttblp p.slce (altused - firstEnt enttblp p.slcb altused 0)
          (firstEnt enttblp p.slcb altused 0) 0 < avail := by
  rcases h.resolve_left h0 with hge | hstops
  · exact Or.inl hge
  · rcases Nat.lt_or_ge avail altused with hlt | hge
    · exact Or.inr ((stops_iff hlt p).mp hstops)
    · exact Or.inl hge

theorem buildSliceC_of_fits {altused : Nat} {p : PartInfo} (h : Fits avail enttblp altused p)
    (i : Nat) (s : BbhDk) :
    buildSliceC avail enttblp altused i p s = some (buildSlice enttblp altused i p s) := by
  unfold buildSliceC buildSlice
  by_cases h0 : p.slcn = 0
  · rw [if_pos h0, if_pos h0]
  rw [if_neg h0, if_neg h0]
  have hbounds := @firstEnt_bounds enttblp p.slcb altused 0
  have hend := h.end_lt h0
  rw [firstEntC_eq p.slcb altused 0 (Nat.zero_le avail), if_pos (by omega)]
  dsimp only [Option.bind_eq_bind, Option.bind_some]
  rw [countEntsC_eq _ _ _ _ (by omega), if_pos (by omega)]
  rfl

theorem fits_of_buildSliceC {altused i : Nat} {p : PartInfo} {s s' : BbhDk}
    (h : buildSliceC avail enttblp altused i p s = some s') : Fits avail enttblp altused p := by
  unfold buildSliceC at h
  by_cases h0 : p.slcn = 0
  · exact Or.inl h0
  rw [if_neg h0] at h
  refine Or.inr ?_
  rcases Nat.lt_or_ge avail altused with hlt | hge
  · refine Or.inr ((stops_iff hlt p).mpr ?_)
    rcases Option.bind_eq_some_iff.mp h with ⟨j, hj, hrest⟩
    rw [firstEntC_eq p.slcb altused 0 (Nat.zero_le avail)] at hj
    split at hj
    · next hin =>
      cases hj
      rcases Option.bind_eq_some_iff.mp hrest with ⟨cnt, hcnt, -⟩
      rw [countEntsC_eq _ _ _ _ (by omega)] at hcnt
      split at hcnt
      · omega
      · cases hcnt
    · cases hj
  · exact Or.inl hge

/-- So it is for every slice that is looked at, which are those in front of the first
    that is not found. -/
def SlicesFit (avail : Nat) (parts : Nat → Option PartInfo) (enttblp : Nat → AltsEnt)
    (altused i n : Nat) : Prop :=
  ∀ k p, i ≤ k → k < i + n → (∀ m, i ≤ m → m < k → parts m ≠ none) → parts k = some p →
    Fits avail enttblp altused p

theorem SlicesFit.tail {parts : Nat → Option PartInfo} {altused i n : Nat}
    (h : SlicesFit avail parts enttblp altused i (n + 1)) (hi : parts i ≠ none) :
    SlicesFit avail parts enttblp altused (i + 1) n := by
  intro k p hik hk hfound hp
  refine h k p (by omega) (by omega) (fun m him hmk => ?_) hp
  rcases Nat.eq_or_lt_of_le him with heq | hlt
  · rw [← heq]
    exact hi
  · exact hfound m hlt hmk

theorem buildIndexC_of_fits {parts : Nat → Option PartInfo} {altused : Nat} (n i : Nat)
    (s : BbhDk) (h : SlicesFit avail parts enttblp altused i n) :
    buildIndexC avail parts enttblp altused n i s =
      some (buildIndex parts enttblp altused n i s) := by
  induction n generalizing i s with
  | zero => rfl
  | succ n ih =>
      rw [buildIndexC, buildIndex]
      cases hp : parts i with
      | none => rfl
      | some p =>
          have hfit := h i p (Nat.le_refl i) (by omega) (fun m him hmi => by omega) hp
          have htail := h.tail (by rw [hp]; exact Option.some_ne_none p)
          dsimp only [Option.bind_eq_bind]
          rw [buildSliceC_of_fits hfit, Option.bind_some, ih (i + 1) _ htail]
          rfl

theorem fits_of_buildIndexC {parts : Nat → Option PartInfo} {altused : Nat} (n i : Nat)
    (s : BbhDk) {r : BbhDk × List BbhEv × Bool}
    (h : buildIndexC avail parts enttblp altused n i s = some r) :
    SlicesFit avail parts enttblp altused i n := by
  induction n generalizing i s r with
  | zero => exact fun k p hik hk _ _ => absurd hk (by omega)
  | succ n ih =>
      intro k p hik hk hfound hp
      rw [buildIndexC] at h
      cases hpi : parts i with
      | none =>
          -- nothing behind a slice that is not found is looked at
          rcases Nat.eq_or_lt_of_le hik with heq | hlt
          · rw [← heq, hpi] at hp
            cases hp
          · exact absurd hpi (hfound i (Nat.le_refl i) hlt)
      | some q =>
          rw [hpi] at h
          rcases Option.bind_eq_some_iff.mp h with ⟨s', hs', hrest⟩
          rcases Option.bind_eq_some_iff.mp hrest with ⟨r', hr', -⟩
          rcases Nat.eq_or_lt_of_le hik with heq | hlt
          · rw [← heq, hpi] at hp
            cases hp
            exact fits_of_buildSliceC hs'
          · exact ih (i + 1) s' hr' k p hlt (by omega) (fun m him hmk => hfound m (by omega) hmk) hp

end

/-! ## The buffer -/

theorem AltsParttbl.xfer_eq_iff {ap : AltsParttbl} {slcn : Nat} (h : ¬ap.Bad slcn) :
    ap.xfer = ap.sectors * nbpsctr ↔ ap.sectors * nbpsctr < 2 ^ 32 := by
  have hbase : ¬ap.entBase < 1 := fun hb => h (Or.inr (Or.inr (Or.inl hb)))
  have hend : ¬ap.entBase > ap.entEnd := fun hb => h (Or.inr (Or.inr (Or.inr (Or.inl hb))))
  rw [BitVec.lt_def] at hbase
  rw [gt_iff_lt, BitVec.lt_def, Nat.not_lt] at hend
  have hone : (1 : BitVec 32).toNat = 1 := rfl
  have hlt := ap.entEnd.isLt
  -- the number of sectors itself does not wrap, as the table does not begin at 0
  have hsec : (ap.entEnd - ap.entBase + 1).toNat = ap.sectors := by
    rw [BitVec.toNat_add, BitVec.toNat_sub_of_le (BitVec.le_def.mpr hend), hone,
      Nat.mod_eq_of_lt (show ap.entEnd.toNat - ap.entBase.toNat + 1 < 2 ^ 32 by omega)]
    rfl
  have hxfer : ap.xfer = ap.sectors * nbpsctr % 2 ^ 32 := by
    unfold AltsParttbl.xfer
    rw [BitVec.toNat_shiftLeft, hsec, Nat.shiftLeft_eq]
    rfl
  rw [hxfer]
  constructor
  · intro heq
    rw [← heq]
    exact Nat.mod_lt _ (Nat.two_pow_pos 32)
  · exact Nat.mod_eq_of_lt

theorem readTable_ok {e : ReopenEnv} {p : PartInfo} (hfind : findAlts e.tags ndkmap 0 = some p)
    (hiob : e.iobLabel = true) (hxfer : e.xferLabel = true) (hok : ¬e.label.Bad p.slcn)
    (iobs : Nat) : (readTable e iobs).ok = true ↔ e.iobTable = true ∧ e.xferTable = true := by
  unfold readTable
  rw [hfind]
  have hgood : ¬(e.xferLabel = false ∨ e.label.Bad p.slcn) := by
    rw [hxfer]
    exact fun h => h.elim nofun hok
  dsimp only
  rw [if_neg (by rw [hiob]; exact nofun), if_neg hgood]
  by_cases ht : e.iobTable = false
  · rw [if_pos ht, ht]
    exact iff_of_false nofun nofun
  · rw [if_neg ht, Bool.eq_true_of_not_eq_false ht]
    exact ⟨fun h => ⟨rfl, h⟩, fun h => h.2⟩

/-- Without a table nothing is looked at. -/
theorem gethandleC_idle {avail intMax fuel : Nat} {dkp : Cmdk} (h : dkp.altsHdl = false)
    (bp : Buf) : gethandleC avail intMax fuel dkp bp = some (gethandle dkp bp) := by
  unfold gethandleC gethandle
  by_cases hpart : bp.part ≥ vNumpar
  · rw [if_pos hpart, if_pos hpart]
  · rw [if_neg hpart, if_neg hpart, if_pos h, if_pos h]

theorem gethandleC_beyond {avail intMax fuel : Nat} {dkp : Cmdk} {bp : Buf}
    (h : bp.part ≥ vNumpar) : gethandleC avail intMax fuel dkp bp = some (gethandle dkp bp) := by
  unfold gethandleC gethandle
  rw [if_pos h, if_pos h]

theorem countEnts_le_fuel (enttblp : Nat → AltsEnt) (slce n j : Nat) :
    countEnts enttblp slce n j 0 ≤ n := by
  induction n generalizing j with
  | zero => exact Nat.le_refl 0
  | succ n ih =>
      rw [countEnts]
      split
      · have := ih (j + 1)
        rw [countEnts_add]
        omega
      · exact Nat.zero_le _

/-- The part of a slice is in the table. -/
theorem Built.le_ents {enttblp : Nat → AltsEnt} {avail altused cnt : Nat} {p : PartInfo}
    {slcEnt : Nat → AltsEnt} (hb : Built enttblp altused p cnt slcEnt)
    (hfit : Fits avail enttblp altused p) :
    cnt ≤ avail - if p.slcn = 0 then 0 else firstEnt enttblp p.slcb altused 0 := by
  by_cases h0 : p.slcn = 0
  · rw [hb.empty h0]
    exact Nat.zero_le _
  rw [if_neg h0, (hb.part (by omega)).1]
  have hbounds := @firstEnt_bounds enttblp p.slcb altused 0
  have hle := countEnts_le_fuel enttblp p.slce (altused - firstEnt enttblp p.slcb altused 0)
    (firstEnt enttblp p.slcb altused 0)
  have hend := hfit.end_lt h0
  omega

/-- The handles of a table that was loaded within its buffer stay in it as well. -/
theorem later_of_fits {s : BbhDk} {e : ReopenEnv}
    (h : (reopen s e).1.altsHdl ≠ none →
      SlicesFit e.label.ents e.parts e.table e.label.entUsed.toNat 0 ndkmap) (bp : Buf) :
    ∃ intMax fuel,
      gethandleC (e.label.ents - e.slcOff bp.part) intMax fuel (reopen s e).1.cmdk bp =
        some (gethandle (reopen s e).1.cmdk bp) := by
  by_cases hhdl : (reopen s e).1.altsHdl = none
  · refine ⟨0, 0, gethandleC_idle ?_ bp⟩
    unfold BbhDk.cmdk
    rw [hhdl]
    rfl
  by_cases hpart : bp.part ≥ vNumpar
  · exact ⟨0, 0, gethandleC_beyond hpart⟩
  have hlt : bp.part < ndkmap := Nat.not_le.mp hpart
  rcases reopen_built hhdl hlt with ⟨p, hp, hb⟩
  have hfit := h hhdl bp.part p (Nat.zero_le _) (by omega) (fun m _ hm => by
    rcases reopen_built hhdl (Nat.lt_trans hm hlt) with ⟨q, hq, -⟩
    rw [hq]
    exact nofun) hp
  refine ⟨_, _, gethandleC_eq _ bp ?_ (Nat.le_refl _) (Nat.lt_succ_self _)⟩
  unfold ReopenEnv.slcOff
  rw [hp]
  exact hb.le_ents hfit

/-- A label that passes the checks: its table is loaded within its buffer if and only
    if the size of the buffer fits 32 bits and the slices that are looked at find what
    they look for in the table. -/
theorem inBuffer_iff {s : BbhDk} {e : ReopenEnv} {p : PartInfo}
    (hfind : findAlts e.tags ndkmap 0 = some p) (hiob : e.iobLabel = true)
    (hxfer : e.xferLabel = true) (hok : ¬e.label.Bad p.slcn) :
    InBuffer s e ↔ e.label.sectors * nbpsctr < 2 ^ 32 ∧
      (e.iobTable = true → e.xferTable = true →
        SlicesFit e.label.ents e.parts e.table e.label.entUsed.toNat 0 ndkmap) := by
  have hread := readTable_ok hfind hiob hxfer hok s.iobs
  constructor
  · intro h
    refine ⟨(AltsParttbl.xfer_eq_iff hok).mp h.size, fun ht hx => ?_⟩
    have hload := h.load
    unfold reopenC at hload
    dsimp only at hload
    rw [if_pos (hread.mpr ⟨ht, hx⟩)] at hload
    rcases Option.bind_eq_some_iff.mp hload with ⟨b, hb, -⟩
    rcases Option.bind_eq_some_iff.mp hb with ⟨r, hr, -⟩
    exact fits_of_buildIndexC _ _ _ hr
  · rintro ⟨hsize, hfits⟩
    refine ⟨(AltsParttbl.xfer_eq_iff hok).mpr hsize, ?_, later_of_fits fun hhdl => ?_⟩
    · unfold reopenC reopen
      dsimp only
      by_cases hr : (readTable e s.iobs).ok = true
      · rcases hread.mp hr with ⟨ht, hx⟩
        rw [if_pos hr, if_pos hr]
        unfold reopenTableC reopenTable
        dsimp only [Option.bind_eq_bind]
        rw [buildIndexC_of_fits _ _ _ (hfits ht hx)]
        dsimp only [Option.bind_some]
        split
        · rfl
        · rfl
      · rw [if_neg hr, if_neg hr]
    · have hr : (readTable e s.iobs).ok = true := by
        by_contra hno
        unfold reopen at hhdl
        dsimp only at hhdl
        rw [if_neg hno] at hhdl
        exact hhdl rfl
      rcases hread.mp hr with ⟨ht, hx⟩
      exact hfits ht hx

/-- A label that passes the checks: its table is loaded within its buffer, and later
    used within it, if and only if the table has fewer than 2^23 sectors and, once it is
    read, has room for the entries that are said to be used, or holds entries that stop
    the two loops for each slice that is looked at. -/
theorem table_in_buffer_iff (s : BbhDk) (e : ReopenEnv) (p : PartInfo)
    (hfind : findAlts e.tags ndkmap 0 = some p) (hiob : e.iobLabel = true)
    (hxfer : e.xferLabel = true) (hok : ¬e.label.Bad p.slcn) :
    InBuffer s e ↔ e.label.sectors < 2 ^ 23 ∧
      (e.iobTable = true → e.xferTable = true → ∀ k q, k < ndkmap →
        (∀ m, m < k → e.parts m ≠ none) → e.parts k = some q →
        q.slcn = 0 ∨ e.label.entUsed.toNat ≤ e.label.ents ∨
          Stops e.label.ents e.table q) := by
  have hsize : e.label.sectors * nbpsctr < 2 ^ 32 ↔ e.label.sectors < 2 ^ 23 := by
    unfold nbpsctr
    omega
  rw [inBuffer_iff hfind hiob hxfer hok, hsize]
  constructor
  · rintro ⟨hsec, hfits⟩
    exact ⟨hsec, fun ht hx k q hk hfound hq =>
      hfits ht hx k q (Nat.zero_le k) (by omega) (fun m _ hm => hfound m hm) hq⟩
  · rintro ⟨hsec, hfits⟩
    exact ⟨hsec, fun ht hx k q _ hk hfound hq =>
      hfits ht hx k q (by omega) (fun m hm => hfound m (Nat.zero_le m) hm) hq⟩

/-- One entry in one sector. -/
theorem table_in_buffer_farSlice : InBuffer noTable farSlice := by
  refine (table_in_buffer_iff noTable farSlice (farMap 0) rfl rfl rfl (by decide)).mpr
    ⟨by decide, fun _ _ k q _ _ _ => Or.inr (Or.inl (by decide))⟩

/-- A label that says there are 100 entries in one sector. -/
def overfullTable : ReopenEnv where
  tags := fun i => some (farMap i)
  iobLabel := true
  xferLabel := true
  label := ⟨altsSanity, 1, 100, 1⟩
  iobTable := true
  xferTable := true
  table := fun _ => ⟨0, 0, 0⟩
  parts := fun i => some (farMap i)
  oldCnt := fun _ => 0
  oldEnt := fun _ _ => ⟨0, 0, 0⟩

/-- A label that says that the table has 2^23 sectors. -/
def wideTable : ReopenEnv where
  tags := fun _ => some ⟨16777216, 0, vAltsctr, by omega⟩
  iobLabel := true
  xferLabel := true
  label := ⟨altsSanity, 1, 1, 8388608⟩
  iobTable := true
  xferTable := true
  table := fun _ => ⟨0, 0, 0⟩
  parts := fun _ => none
  oldCnt := fun _ => 0
  oldEnt := fun _ _ => ⟨0, 0, 0⟩

/-- Both labels pass the checks. With the first one the loop that counts runs out of
    the table, and with the second the buffer has no bytes at all. -/
theorem table_not_in_buffer :
    (¬overfullTable.label.Bad (farMap 0).slcn ∧ ¬InBuffer noTable overfullTable) ∧
    (¬wideTable.label.Bad 16777216 ∧ ¬InBuffer noTable wideTable) := by
  refine ⟨⟨by decide, fun h => ?_⟩, ⟨by decide, fun h => ?_⟩⟩
  · have hout : (reopenC noTable overfullTable).isSome = false := by decide
    rw [h.load] at hout
    cases hout
  · exact absurd h.size (by decide)

end Disk

end Sil3112
