import Sil3112.Disk.Bbh

/-!
# The Bad-Block Index

`cmdk_bbh_reopen` of `cmdk.c`. It looks for the slice of the alternates, reads
the table of the bad sectors of the whole disk, and then gives each slice a part
of the table: the `dk_slc_cnt` entries from `dk_slc_ent` on. The part begins with
the first entry whose `bad_start + bad_end` is not below the slice, a sum that is
never below `bad_end`, and ends before the first entry beyond the slice.

`cmdk_bbh_gethandle` searches the part only. The entries behind the part never
count for a request in the slice. Those in front of it lie below the slice, so
that they do not count either, as long as the sectors of the request are still
the same in a `daddr32_t`. That is the case below 2^31. Beyond, the sectors of a
request are reduced to 32 bits before the search, and can come down on entries
in front of the part.

## Main definitions

* `Alts.part`: A contiguous part of a table.
* `Alts.handle`: `cmdk_bbh_gethandle` over a table.
* `PartInfo`, `ReopenEnv`: What the calls in `cmdk_bbh_reopen` answer.
* `BbhDk`: The bad-block fields of a `struct cmdk`.
* `reopen`: `cmdk_bbh_reopen`

## Theorems

* `handle_part_iff`: When a part of a table does for the table.
* `buildSlice_part`: The index of a slice is a part of the table.
* `index_refines_table`: When the index of a slice does for the table.
-/

namespace Sil3112

namespace Disk

open Extent

/-! ## Part of a table -/

/-- The `c` entries from `j` on. -/
def Alts.part (t : Alts) (j c : Nat) : Alts where
  cnt := c
  ent := fun k => t.ent (j + k)

/-- `cmdk_bbh_gethandle` from the entry on that the search found. -/
def Alts.handleFrom (t : Alts) (sec : Int) (bcount i : Nat) : Option BbhHandle :=
  let dCount := bcount >>> 9
  let lastsec := int32 (sec + dCount - 1)
  let cnt := countLoop t.ent lastsec (t.cnt - i) i 0
  if cnt = 0 then none
  else
    some { totck := (cnt <<< 1) + 1, idx := 0
           cktab := remapLoop t.ent lastsec (t.cnt - i) i 0
             (Function.update (fun _ => ⟨0, 0⟩) 0 ⟨int32 sec, dCount⟩) }

/-- `cmdk_bbh_gethandle` over a table. -/
def Alts.handle (t : Alts) (sec : Int) (bcount : Nat) : Option BbhHandle :=
  (bsearch t.ent t.cnt (int32 sec)).bind (t.handleFrom sec bcount)

theorem gethandle_eq_handle (dkp : Cmdk) (bp : Buf) :
    gethandle dkp bp = (dkp.alts bp.part).handle bp.sec bp.bcount := by
  rw [gethandle_eq, Alts.handle]
  cases bsearch (dkp.alts bp.part).ent (dkp.alts bp.part).cnt (int32 bp.sec) with
  | none => rfl
  | some i => rfl

theorem Alts.Sorted.part {t : Alts} (h : t.Sorted) {j c : Nat} (hjc : j + c ≤ t.cnt) :
    (t.part j c).Sorted where
  le := by
    intro i hi
    have hi' : i < c := hi
    exact h.le (j + i) (by omega)
  lt := by
    intro i k hik hk
    have hk' : k < c := hk
    exact h.lt (j + i) (j + k) (by omega) (by omega)

theorem Alts.Sorted.start_lt {t : Alts} (h : t.Sorted) {i k : Nat} (hik : i < k)
    (hk : k < t.cnt) : (t.ent i).badStart < (t.ent k).badStart :=
  lt_of_le_of_lt (h.le i (by omega)) (h.lt i k hik hk)

/-- There is only one first entry. -/
theorem IsFirst.unique {t : Alts} {key : Int} {r r' : Option Nat} (h : IsFirst t key r)
    (h' : IsFirst t key r') : r = r' := by
  cases r with
  | none =>
      cases r' with
      | none => rfl
      | some i =>
          have := h i h'.1
          have := h'.2.1
          omega
  | some i =>
      cases r' with
      | none =>
          have := h' i h.1
          have := h.2.1
          omega
      | some k =>
          have hik : ¬i < k := by
            intro hik
            have := h'.2.2 i hik
            have := h.2.1
            omega
          have hki : ¬k < i := by
            intro hki
            have := h.2.2 k hki
            have := h'.2.1
            omega
          congr 1
          omega

theorem Alts.handle_of_first {t : Alts} (h : t.Sorted) {sec : Int} {r : Option Nat}
    (hr : IsFirst t (int32 sec) r) (bcount : Nat) :
    t.handle sec bcount = r.bind (t.handleFrom sec bcount) := by
  rw [Alts.handle, (bsearch_isFirst h (int32 sec)).unique hr]

/-! ## The loops on a part -/

theorem countLoop_shift (ent : Nat → AltsEnt) (lastsec : Int) (j n i c : Nat) :
    countLoop (fun k => ent (j + k)) lastsec n i c = countLoop ent lastsec n (j + i) c := by
  induction n generalizing i c with
  | zero => rfl
  | succ n ih =>
      rw [countLoop, countLoop, ih]
      rfl

theorem remapLoop_shift (ent : Nat → AltsEnt) (lastsec : Int) (j n i idx : Nat)
    (ckp : Nat → BbhCookie) :
    remapLoop (fun k => ent (j + k)) lastsec n i idx ckp =
      remapLoop ent lastsec n (j + i) idx ckp := by
  induction n generalizing i idx ckp with
  | zero => rfl
  | succ n ih =>
      rw [remapLoop, remapLoop]
      rcases remapBody (ent (j + i)) lastsec idx ckp with ⟨b, idx', ckp'⟩
      cases b with
      | true => exact ih (i + 1) idx' ckp'
      | false => rfl

/-- Entries beyond the request do not count. -/
theorem countLoop_stop {ent : Nat → AltsEnt} {lastsec : Int} {m n i c : Nat}
    (h : ∀ k, i + n ≤ k → k < i + n + m → lastsec < (ent k).badStart) :
    countLoop ent lastsec (n + m) i c = countLoop ent lastsec n i c := by
  induction n generalizing i c with
  | zero =>
      cases m with
      | zero => rfl
      | succ m =>
          rw [Nat.zero_add]
          exact if_pos (h i (by omega) (by omega))
  | succ n ih =>
      rw [Nat.add_right_comm, countLoop, countLoop]
      by_cases hi : lastsec < (ent i).badStart
      · rw [if_pos hi, if_pos hi]
      · rw [if_neg hi, if_neg hi]
        exact ih fun k hk hk' => h k (by omega) (by omega)

theorem remapLoop_stop {ent : Nat → AltsEnt} {lastsec : Int} {m n i idx : Nat}
    {ckp : Nat → BbhCookie}
    (h : ∀ k, i + n ≤ k → k < i + n + m → lastsec < (ent k).badStart) :
    remapLoop ent lastsec (n + m) i idx ckp = remapLoop ent lastsec n i idx ckp := by
  induction n generalizing i idx ckp with
  | zero =>
      cases m with
      | zero => rfl
      | succ m =>
          have hb : remapBody (ent i) lastsec idx ckp = (false, idx, ckp) :=
            if_pos (h i (by omega) (by omega))
          rw [Nat.zero_add]
          simp only [remapLoop, hb]
  | succ n ih =>
      rw [Nat.add_right_comm, remapLoop, remapLoop]
      rcases remapBody (ent i) lastsec idx ckp with ⟨b, idx', ckp'⟩
      cases b with
      | true => exact ih fun k hk hk' => h k (by omega) (by omega)
      | false => rfl

/-- Entries that the request reaches all count. -/
theorem countLoop_reach {ent : Nat → AltsEnt} {lastsec : Int} {m n i : Nat}
    (h : ∀ k, i ≤ k → k < i + m → ¬lastsec < (ent k).badStart) :
    countLoop ent lastsec (m + n) i 0 = m + countLoop ent lastsec n (i + m) 0 := by
  induction m generalizing i with
  | zero => rw [Nat.zero_add, Nat.zero_add, Nat.add_zero]
  | succ m ih =>
      rw [Nat.add_right_comm, countLoop_succ (h i (le_refl i) (by omega)),
        ih fun k hk hk' => h k (by omega) (by omega), show i + 1 + m = i + (m + 1) by omega]
      omega

theorem countLoop_le (ent : Nat → AltsEnt) (lastsec : Int) (n m i : Nat) :
    countLoop ent lastsec n i 0 ≤ countLoop ent lastsec (n + m) i 0 := by
  induction n generalizing i with
  | zero => exact Nat.zero_le _
  | succ n ih =>
      rw [Nat.add_right_comm]
      by_cases hi : lastsec < (ent i).badStart
      · rw [countLoop, if_pos hi]
        exact Nat.zero_le _
      · rw [countLoop_succ hi, countLoop_succ hi]
        exact Nat.succ_le_succ (ih (i + 1))

/-! ## Handles from a part -/

/-- The number of cookies says how many entries the request reaches. -/
theorem Alts.handleFrom_totck (t : Alts) (sec : Int) (bcount i : Nat) :
    (t.handleFrom sec bcount i).map BbhHandle.totck =
      if countLoop t.ent (int32 (sec + (bcount >>> 9 : Nat) - 1)) (t.cnt - i) i 0 = 0 then none
      else some
        (countLoop t.ent (int32 (sec + (bcount >>> 9 : Nat) - 1)) (t.cnt - i) i 0 * 2 + 1) := by
  simp only [Alts.handleFrom]
  split
  · rfl
  · simp only [Option.map_some, Nat.shiftLeft_eq, pow_one]

theorem Alts.handleFrom_none {t : Alts} {sec : Int} {bcount i : Nat}
    (h : int32 (sec + (bcount >>> 9 : Nat) - 1) < (t.ent i).badStart) :
    t.handleFrom sec bcount i = none := by
  have h0 : countLoop t.ent (int32 (sec + (bcount >>> 9 : Nat) - 1)) (t.cnt - i) i 0 = 0 := by
    cases t.cnt - i with
    | zero => rfl
    | succ n => exact if_pos h
  exact if_pos h0

theorem Alts.handleFrom_part {t : Alts} {sec : Int} {bcount j c i : Nat} (hji : j ≤ i)
    (hic : i < j + c) (hc : j + c ≤ t.cnt)
    (hback : ∀ k, j + c ≤ k → k < t.cnt →
      int32 (sec + (bcount >>> 9 : Nat) - 1) < (t.ent k).badStart) :
    (t.part j c).handleFrom sec bcount (i - j) = t.handleFrom sec bcount i := by
  obtain ⟨d, rfl⟩ := Nat.exists_eq_add_of_le hji
  obtain ⟨m, hm⟩ := Nat.exists_eq_add_of_le hc
  have hn : t.cnt - (j + d) = c - d + m := by omega
  have hstop : ∀ k, j + d + (c - d) ≤ k → k < j + d + (c - d) + m →
      int32 (sec + (bcount >>> 9 : Nat) - 1) < (t.ent k).badStart :=
    fun k hk hk' => hback k (by omega) (by omega)
  simp only [Alts.handleFrom, Alts.part, Nat.add_sub_cancel_left, hn]
  rw [countLoop_shift, remapLoop_shift, countLoop_stop hstop, remapLoop_stop hstop]

/-- If an entry in front of the part is not below the key, no entry of the part
    is. -/
theorem IsFirst.part_zero {t : Alts} (h : t.Sorted) {key : Int} {j c k r : Nat}
    (hc : j + c ≤ t.cnt) (hk : k < j) (hend : key ≤ (t.ent k).badEnd)
    (hr : IsFirst (t.part j c) key (some r)) : r = 0 := by
  by_contra h0
  have hrc : r < c := hr.1
  have hlow : (t.ent (j + 0)).badEnd < key := hr.2.2 0 (by omega)
  have h1 := h.lt k (j + 0) (by omega) (by omega)
  have h2 := h.le (j + 0) (by omega)
  omega

/-- The table counts an entry in front of the part, which the part does not. -/
theorem Alts.Sorted.countLoop_lt {t : Alts} (h : t.Sorted) {lastsec : Int} {j c i k : Nat}
    (hc : j + c ≤ t.cnt) (hik : i ≤ k) (hk : k < j) (hstart : (t.ent k).badStart ≤ lastsec) :
    countLoop t.ent lastsec c j 0 < countLoop t.ent lastsec (t.cnt - i) i 0 := by
  have hreach : ∀ m, i ≤ m → m < i + 1 → ¬lastsec < (t.ent m).badStart := by
    intro m him hmi
    by_cases hmk : m = k
    · rw [hmk]
      omega
    · have := h.start_lt (i := m) (k := k) (by omega) (by omega)
      omega
  by_cases hj : c = 0 ∨ lastsec < (t.ent j).badStart
  · have h0 : countLoop t.ent lastsec c j 0 = 0 := by
      cases c with
      | zero => rfl
      | succ c => exact if_pos (by omega)
    rw [h0, show t.cnt - i = 1 + (t.cnt - i - 1) by omega, countLoop_reach hreach]
    omega
  · -- the request reaches the part, and so every entry between
    have hall : ∀ m, i ≤ m → m < i + (j - i) → ¬lastsec < (t.ent m).badStart := by
      intro m _ hmj
      have := h.start_lt (i := m) (k := j) (by omega) (by omega)
      omega
    have hle := countLoop_le t.ent lastsec c (t.cnt - j - c) j
    rw [show t.cnt - i = (j - i) + (c + (t.cnt - j - c)) by omega, countLoop_reach hall,
      Nat.add_sub_cancel' (by omega : i ≤ j)]
    omega

/-- An entry in front of the part that the request reaches makes a difference. -/
theorem Alts.handle_part_ne {t : Alts} (h : t.Sorted) {sec : Int} {bcount j c k : Nat}
    (hc : j + c ≤ t.cnt) (hk : k < j) (hend : int32 sec ≤ (t.ent k).badEnd)
    (hstart : (t.ent k).badStart ≤ int32 (sec + (bcount >>> 9 : Nat) - 1)) :
    (t.part j c).handle sec bcount ≠ t.handle sec bcount := by
  have hfull := bsearch_isFirst h (int32 sec)
  have hpart := bsearch_isFirst (h.part hc) (int32 sec)
  intro heq
  have hmap := congrArg (Option.map BbhHandle.totck) heq
  cases hf : bsearch t.ent t.cnt (int32 sec) with
  | none =>
      rw [hf] at hfull
      have := hfull k (by omega)
      omega
  | some i =>
      rw [hf] at hfull
      have hik : i ≤ k := by
        by_contra hik
        have := hfull.2.2 k (by omega)
        omega
      have hlt := h.countLoop_lt hc hik hk hstart
      rw [handle_of_first h hfull, Option.bind_some, handleFrom_totck, if_neg (by omega)] at hmap
      cases hp : bsearch (t.part j c).ent (t.part j c).cnt (int32 sec) with
      | none =>
          rw [hp] at hpart
          rw [handle_of_first (h.part hc) hpart] at hmap
          cases hmap
      | some r =>
          rw [hp] at hpart
          rw [hpart.part_zero h hc hk hend] at hpart
          have hcount : ∀ l, countLoop (t.part j c).ent l ((t.part j c).cnt - 0) 0 0 =
              countLoop t.ent l c j 0 := fun l => countLoop_shift t.ent l j c 0 0
          rw [handle_of_first (h.part hc) hpart, Option.bind_some, handleFrom_totck,
            hcount] at hmap
          split at hmap
          · cases hmap
          · have := Option.some.inj hmap
            omega

/-- A part of a sorted table, where nothing behind it is reached, gives the same
    handle as the table exactly when nothing in front of it is. -/
theorem Alts.handle_part_iff {t : Alts} (h : t.Sorted) {sec : Int} {bcount j c : Nat}
    (hc : j + c ≤ t.cnt)
    (hback : ∀ k, j + c ≤ k → k < t.cnt →
      int32 (sec + (bcount >>> 9 : Nat) - 1) < (t.ent k).badStart) :
    (t.part j c).handle sec bcount = t.handle sec bcount ↔
      ∀ k, k < j → (t.ent k).badEnd < int32 sec ∨
        int32 (sec + (bcount >>> 9 : Nat) - 1) < (t.ent k).badStart := by
  have hfull := bsearch_isFirst h (int32 sec)
  have hpart := bsearch_isFirst (h.part hc) (int32 sec)
  constructor
  · intro heq k hk
    -- an entry in front of the part makes the table give more cookies
    by_contra hhit
    rw [not_or, not_lt, not_lt] at hhit
    exact handle_part_ne h hc hk hhit.1 hhit.2 heq
  · intro hfront
    -- where the first entry over the table is: none, in front of the part, in it,
    -- or behind it
    cases hf : bsearch t.ent t.cnt (int32 sec) with
    | none =>
        rw [hf] at hfull
        have hnone : IsFirst (t.part j c) (int32 sec) none := fun k hk =>
          hfull (j + k) (by change k < c at hk; omega)
        rw [handle_of_first (h.part hc) hnone, handle_of_first h hfull]
        rfl
    | some i =>
        rw [hf] at hfull
        rw [handle_of_first h hfull]
        by_cases hij : i < j
        · -- the request ends in front of the entry that the table gives
          have hlast : int32 (sec + (bcount >>> 9 : Nat) - 1) < (t.ent i).badStart := by
            rcases hfront i hij with hk | hk
            · have := hfull.2.1
              omega
            · exact hk
          rw [Option.bind_some, handleFrom_none hlast, handle]
          cases hp : bsearch (t.part j c).ent (t.part j c).cnt (int32 sec) with
          | none => rfl
          | some k =>
              rw [hp] at hpart
              have hkc : k < c := hpart.1
              have := h.start_lt (i := i) (k := j + k) (by omega) (by omega)
              exact handleFrom_none (lt_trans hlast this)
        · by_cases hic : i < j + c
          · have hsome : IsFirst (t.part j c) (int32 sec) (some (i - j)) := by
              refine ⟨by change i - j < c; omega, ?_, ?_⟩
              · change _ ≤ (t.ent (j + (i - j))).badEnd
                rw [Nat.add_sub_cancel' (by omega)]
                exact hfull.2.1
              · exact fun k hk => hfull.2.2 (j + k) (by omega)
            rw [handle_of_first (h.part hc) hsome, Option.bind_some, Option.bind_some]
            exact handleFrom_part (by omega) hic hc hback
          -- behind the part, where nothing is reached
          · have hnone : IsFirst (t.part j c) (int32 sec) none := fun k hk =>
              hfull.2.2 (j + k) (by change k < c at hk; omega)
            rw [handle_of_first (h.part hc) hnone, Option.bind_some,
              handleFrom_none (hback i (by omega) hfull.1)]
            rfl

/-! ## What is read from the disk -/

/-- `NDKMAP` -/
def ndkmap : Nat := 16

/-- `V_ALTSCTR` -/
def vAltsctr : Nat := 9

/-- `ALTS_SANITY` -/
def altsSanity : BitVec 32 := 0xaabbccdd

/-- `NBPSCTR` -/
def nbpsctr : Nat := 512

/-- What `cmlb_partinfo` says of a slice: the number of its blocks, the first
    one, and the tag. The blocks are a `diskaddr_t` each. -/
structure PartInfo where
  slcn : Nat
  slcb : Nat
  vtoctag : Nat
  end_le : slcb + slcn ≤ 2 ^ 64

/-- The fields of a `struct alts_parttbl` that are used. -/
structure AltsParttbl where
  sanity : BitVec 32
  entBase : BitVec 32
  entUsed : BitVec 32
  entEnd : BitVec 32

/-- What `cmdk_bbh_reopen` meets. A lookup in the first or in the second loop
    fails or gives the slice. An allocation of an I/O buffer and a transfer
    succeed or not. The label and the table are what the transfers bring. The
    last two are what is in the memory of the slice tables if they are new. -/
structure ReopenEnv where
  tags : Nat → Option PartInfo
  iobLabel : Bool
  xferLabel : Bool
  label : AltsParttbl
  iobTable : Bool
  xferTable : Bool
  table : Nat → AltsEnt
  parts : Nat → Option PartInfo
  oldCnt : Nat → Nat
  oldEnt : Nat → Nat → AltsEnt

/-- An allocation, a use or a release of what the bad-block code owns. I/O
    buffers and slice tables are numbered in the order of their allocation. -/
inductive BbhEv where
  | iobAlloc (h blkno xfer : Nat)
  | iobXfer (h : Nat)
  | iobFree (h : Nat)
  | kmemAlloc (b size : Nat)
  | kmemFree (b : Option Nat) (size : Nat)
  | tabUse (b : Option Nat)
  deriving DecidableEq

/-- The bad-block fields of a `struct cmdk`. The pointer `dk_slc_cnt` is
    `slcTab`, and the other two are what the tables there hold. The last two
    say how many buffers and slice tables were allocated so far. -/
structure BbhDk where
  altsHdl : Option Nat
  altused : BitVec 32
  slcTab : Option Nat
  slcCnt : Nat → Nat
  slcEnt : Nat → Nat → AltsEnt
  iobs : Nat
  tabs : Nat

/-- What `cmdk_bbh_gethandle` reads. -/
def BbhDk.cmdk (s : BbhDk) : Cmdk where
  altsHdl := s.altsHdl.isSome
  slcCnt := s.slcCnt
  slcEnt := s.slcEnt

/-- The loop that looks for the slice of the alternates, over the `n` slices
    from `alts` on. -/
def findAlts (tags : Nat → Option PartInfo) : Nat → Nat → Option PartInfo
  | 0, _ => none
  | n + 1, alts =>
    match tags alts with
    | none => none
    | some p =>
      if p.vtoctag = vAltsctr ∧ p.slcn > 1 then some p else findAlts tags n (alts + 1)

/-- The label is of no use. -/
def AltsParttbl.Bad (ap : AltsParttbl) (slcn : Nat) : Prop :=
  ap.sanity ≠ altsSanity ∨ ap.entUsed = 0 ∨ ap.entBase < 1 ∨ ap.entBase > ap.entEnd ∨
    ap.entEnd.toNat ≥ slcn

instance (ap : AltsParttbl) (slcn : Nat) : Decidable (ap.Bad slcn) := by
  unfold AltsParttbl.Bad
  infer_instance

/-- Where the first half of `cmdk_bbh_reopen` ends: whether the table was read,
    the variable `handle`, and how many buffers there were. -/
structure ReadRes where
  ok : Bool
  handle : Option Nat
  iobs : Nat
  evs : List BbhEv

/-- The first half of `cmdk_bbh_reopen`, which reads the label and the table. -/
def readTable (e : ReopenEnv) (iobs : Nat) : ReadRes :=
  match findAlts e.tags ndkmap 0 with
  | none => { ok := false, handle := none, iobs := iobs, evs := [] }
  | some p =>
    if e.iobLabel = false then { ok := false, handle := none, iobs := iobs, evs := [] }
    else if e.xferLabel = false ∨ e.label.Bad p.slcn then
      { ok := false, handle := some iobs, iobs := iobs + 1
        evs := [.iobAlloc iobs p.slcb nbpsctr, .iobXfer iobs] }
    else
      let evs := [.iobAlloc iobs p.slcb nbpsctr, .iobXfer iobs, .iobFree iobs]
      if e.iobTable = false then { ok := false, handle := none, iobs := iobs + 1, evs := evs }
      else
        { ok := e.xferTable, handle := some (iobs + 1), iobs := iobs + 2
          evs := evs ++
            [.iobAlloc (iobs + 1) (p.slcb + e.label.entBase.toNat)
              ((e.label.entEnd - e.label.entBase + 1) <<< 9).toNat, .iobXfer (iobs + 1)] }

/-! ## The index -/

/-- An `int` as a `diskaddr_t`. -/
def diskaddr (x : Int) : Nat :=
  (x % 2 ^ 64).toNat

/-- The loop that finds the first entry of a slice, over the `n` entries from
    `j` on. -/
def firstEnt (enttblp : Nat → AltsEnt) (slcb : Nat) : Nat → Nat → Nat
  | 0, j => j
  | n + 1, j =>
    if diskaddr (int32 ((enttblp j).badStart + (enttblp j).badEnd)) ≥ slcb then j
    else firstEnt enttblp slcb n (j + 1)

/-- The loop that counts the entries of a slice, over the `n` entries from `j`
    on. -/
def countEnts (enttblp : Nat → AltsEnt) (slce : Nat) : Nat → Nat → Nat → Nat
  | 0, _, cnt => cnt
  | n + 1, j, cnt =>
    if diskaddr (enttblp j).badStart ≤ slce then countEnts enttblp slce n (j + 1) (cnt + 1)
    else cnt

/-- The last block of a slice. -/
def PartInfo.slce (p : PartInfo) : Nat :=
  (p.slcb + p.slcn - 1) % 2 ^ 64

/-- The body of the loop over the slices. -/
def buildSlice (enttblp : Nat → AltsEnt) (altused i : Nat) (p : PartInfo) (s : BbhDk) : BbhDk :=
  if p.slcn = 0 then { s with slcCnt := Function.update s.slcCnt i 0 }
  else
    let j := firstEnt enttblp p.slcb altused 0
    { s with
      slcEnt := Function.update s.slcEnt i fun k => enttblp (j + k)
      slcCnt := Function.update s.slcCnt i (countEnts enttblp p.slce (altused - j) j 0) }

/-- The loop over the `n` slices from `i` on, and whether it comes to its end. -/
def buildIndex (parts : Nat → Option PartInfo) (enttblp : Nat → AltsEnt) (altused : Nat) :
    Nat → Nat → BbhDk → BbhDk × List BbhEv × Bool
  | 0, _, s => (s, [], true)
  | n + 1, i, s =>
    match parts i with
    | none => (s, [], false)
    | some p =>
      let r := buildIndex parts enttblp altused n (i + 1) (buildSlice enttblp altused i p s)
      (r.1, .tabUse s.slcTab :: r.2.1, r.2.2)

/-- From the label `empty` on, or `empty1`. -/
def reopenEmpty (s : BbhDk) (handle : Option Nat) : BbhDk × List BbhEv :=
  ({ s with altsHdl := none },
    (if handle = s.altsHdl then [] else handle.toList.map .iobFree) ++
      s.altsHdl.toList.map .iobFree)

/-- The slice tables are allocated if there are none yet. `sizeof (long)` is 8. -/
def allocTabs (s : BbhDk) (e : ReopenEnv) : BbhDk × List BbhEv :=
  match s.slcTab with
  | some _ => (s, [])
  | none =>
    ({ s with slcTab := some s.tabs, tabs := s.tabs + 1, slcCnt := e.oldCnt, slcEnt := e.oldEnt },
      [.kmemAlloc s.tabs (ndkmap * (8 + 8))])

/-- The second half of `cmdk_bbh_reopen`, which puts the new table in the place
    of the old one and builds the index. -/
def reopenTable (s : BbhDk) (e : ReopenEnv) (handle : Option Nat) : BbhDk × List BbhEv :=
  let a := allocTabs s e
  let free := a.1.altsHdl.toList.map BbhEv.iobFree
  let s := { a.1 with altsHdl := handle, altused := e.label.entUsed }
  let b := buildIndex e.parts e.table e.label.entUsed.toNat ndkmap 0 s
  if b.2.2 then (b.1, a.2 ++ free ++ b.2.1)
  else
    let c := reopenEmpty b.1 handle
    (c.1, a.2 ++ free ++ b.2.1 ++ c.2)

/-- `cmdk_bbh_reopen` -/
def reopen (s : BbhDk) (e : ReopenEnv) : BbhDk × List BbhEv :=
  let r := readTable e s.iobs
  let b := if r.ok then reopenTable { s with iobs := r.iobs } e r.handle
    else reopenEmpty { s with iobs := r.iobs } r.handle
  (b.1, r.evs ++ b.2)

/-! ## The index of a slice -/

/-- The table is sorted, and its bad sectors are non-negative in 32 bits. -/
structure Alts.Sectors (t : Alts) : Prop extends t.Sorted where
  nonneg : ∀ i, i < t.cnt → 0 ≤ (t.ent i).badStart
  lt_pow : ∀ i, i < t.cnt → (t.ent i).badEnd < 2 ^ 31

/-- The cluster has a sector in the slice. -/
def AltsEnt.Meets (e : AltsEnt) (p : PartInfo) : Prop :=
  e.badStart < p.slcb + p.slcn ∧ (p.slcb : Int) ≤ e.badEnd

/-- The request lies in the slice. -/
def PartInfo.Holds (p : PartInfo) (bp : Buf) : Prop :=
  (p.slcb : Int) ≤ bp.sec ∧ bp.sec + (bp.bcount >>> 9 : Nat) ≤ p.slcb + p.slcn

theorem diskaddr_of_nonneg {x : Int} (h : 0 ≤ x) (hlt : x < 2 ^ 64) : (diskaddr x : Int) = x := by
  rw [diskaddr, Int.emod_eq_of_lt h hlt, Int.toNat_of_nonneg h]

/-- The sum that is compared with the begin of the slice is not below the end
    of the cluster. Where it does not fit an `int` it becomes an address at the
    very end. -/
theorem diskaddr_sum {a b c : Int} (ha : 0 ≤ a) (hab : a ≤ b) (hb : b < 2 ^ 31) (hc : c ≤ b) :
    c ≤ diskaddr (int32 (a + b)) := by
  by_cases h : a + b < 2 ^ 31
  · rw [int32_of_bounds (by omega) h, diskaddr_of_nonneg (by omega) (by omega)]
    omega
  -- two `int`s below 2^31 have a sum below 2^32, which wraps to a negative one
  · have hw : int32 (a + b) = a + b - 2 ^ 32 := by
      unfold int32
      rw [Int.bmod_def]
      omega
    have hd : (diskaddr (int32 (a + b)) : Int) = a + b - 2 ^ 32 + 2 ^ 64 := by
      rw [hw, diskaddr]
      omega
    omega

/-- Entries that the first loop passes lie below the slice. -/
theorem firstEnt_spec {t : Alts} (h : t.Sectors) (slcb n j : Nat) (hn : j + n = t.cnt) :
    j ≤ firstEnt t.ent slcb n j ∧ firstEnt t.ent slcb n j ≤ t.cnt ∧
      ∀ k, j ≤ k → k < firstEnt t.ent slcb n j → (t.ent k).badEnd < slcb := by
  induction n generalizing j with
  | zero =>
      refine ⟨le_refl j, by rw [firstEnt]; omega, fun k hk hk' => ?_⟩
      rw [firstEnt] at hk'
      omega
  | succ n ih =>
      rw [firstEnt]
      by_cases hs : diskaddr (int32 ((t.ent j).badStart + (t.ent j).badEnd)) ≥ slcb
      · rw [if_pos hs]
        exact ⟨le_refl j, by omega, fun k hk hk' => by omega⟩
      · rw [if_neg hs]
        rcases ih (j + 1) (by omega) with ⟨h1, h2, h3⟩
        refine ⟨by omega, h2, fun k hk hk' => ?_⟩
        by_cases hkj : k = j
        · rw [hkj]
          by_contra hle
          -- the sum is not below the end, so an end in the slice would have stopped the loop
          have := diskaddr_sum (c := slcb) (h.nonneg j (by omega)) (h.le j (by omega))
            (h.lt_pow j (by omega)) (by omega)
          omega
        · exact h3 k (by omega) hk'

theorem countEnts_add (ent : Nat → AltsEnt) (slce n j cnt : Nat) :
    countEnts ent slce n j cnt = cnt + countEnts ent slce n j 0 := by
  induction n generalizing j cnt with
  | zero => rfl
  | succ n ih =>
      rw [countEnts, countEnts]
      split
      · rw [ih, ih (j + 1) (0 + 1)]
        omega
      · rfl

/-- The second loop stops in front of the first entry beyond the slice. -/
theorem countEnts_spec {t : Alts} (h : t.Sectors) (slce n j : Nat) (hn : j + n = t.cnt) :
    j + countEnts t.ent slce n j 0 ≤ t.cnt ∧
      ∀ k, j + countEnts t.ent slce n j 0 ≤ k → k < t.cnt → (slce : Int) < (t.ent k).badStart := by
  induction n generalizing j with
  | zero =>
      rw [countEnts]
      exact ⟨by omega, fun k hk hk' => by omega⟩
  | succ n ih =>
      have hstart := h.nonneg j (by omega)
      have hend := h.lt_pow j (by omega)
      have hle := h.le j (by omega)
      have hd := diskaddr_of_nonneg hstart (by omega)
      rw [countEnts]
      by_cases hs : diskaddr (t.ent j).badStart ≤ slce
      · rw [if_pos hs, countEnts_add]
        rcases ih (j + 1) (by omega) with ⟨h1, h2⟩
        exact ⟨by omega, fun k hk hk' => h2 k (by omega) hk'⟩
      · rw [if_neg hs]
        refine ⟨by omega, fun k hk hk' => ?_⟩
        by_cases hkj : k = j
        · rw [hkj]
          omega
        -- the table is sorted, so later entries lie beyond the slice as well
        · have := h.start_lt (i := j) (k := k) (by omega) hk'
          omega

/-- What the index of a slice has to be. -/
structure IsIndex (t : Alts) (p : PartInfo) (j c : Nat) : Prop where
  le : j + c ≤ t.cnt
  front : ∀ k, k < j → (t.ent k).badEnd < p.slcb
  back : ∀ k, j + c ≤ k → k < t.cnt → (p.slcb + p.slcn - 1 : Int) < (t.ent k).badStart

theorem buildSlice_part {t : Alts} (h : t.Sectors) {p : PartInfo} (hp : 0 < p.slcn) :
    IsIndex t p (firstEnt t.ent p.slcb t.cnt 0)
      (countEnts t.ent p.slce (t.cnt - firstEnt t.ent p.slcb t.cnt 0)
        (firstEnt t.ent p.slcb t.cnt 0) 0) := by
  rcases firstEnt_spec h p.slcb t.cnt 0 (by omega) with ⟨-, h2, h3⟩
  rcases countEnts_spec h p.slce (t.cnt - firstEnt t.ent p.slcb t.cnt 0)
    (firstEnt t.ent p.slcb t.cnt 0) (by omega) with ⟨h4, h5⟩
  have hslce : (p.slce : Int) = p.slcb + p.slcn - 1 := by
    have := p.end_le
    rw [PartInfo.slce, Nat.mod_eq_of_lt (by omega)]
    omega
  refine ⟨h4, fun k hk => h3 k (Nat.zero_le k) hk, fun k hk hk' => ?_⟩
  rw [← hslce]
  exact h5 k hk hk'

/-- The index of a slice has every entry that meets the slice. -/
theorem IsIndex.of_meets {t : Alts} {p : PartInfo} {j c : Nat} (h : IsIndex t p j c) {k : Nat}
    (hk : k < t.cnt) (hm : (t.ent k).Meets p) : j ≤ k ∧ k < j + c := by
  constructor
  · by_contra hj
    have := h.front k (by omega)
    have := hm.2
    omega
  · by_contra hc
    have := h.back k (by omega) hk
    have := hm.1
    omega

theorem int32_le {x : Int} (h : -2 ^ 31 ≤ x) : int32 x ≤ x := by
  unfold int32
  rw [Int.bmod_def]
  omega

/-- Over the index of the slice, a request in it is remapped as over the table
    unless its sectors in 32 bits come down on an entry in front of the part. -/
theorem IsIndex.handle_iff {t : Alts} (ht : t.Sorted) {p : PartInfo} {j c : Nat}
    (h : IsIndex t p j c) {bp : Buf} (hb : p.Holds bp) :
    (t.part j c).handle bp.sec bp.bcount = t.handle bp.sec bp.bcount ↔
      ∀ k, k < j → (t.ent k).badEnd < int32 bp.sec ∨
        int32 (bp.sec + (bp.bcount >>> 9 : Nat) - 1) < (t.ent k).badStart := by
  refine Alts.handle_part_iff ht h.le fun k hk hk' => ?_
  have hback := h.back k hk hk'
  have h1 := hb.1
  have h2 := hb.2
  have := int32_le (x := bp.sec + (bp.bcount >>> 9 : Nat) - 1) (by omega)
  omega

theorem IsIndex.handle_eq {t : Alts} (ht : t.Sorted) {p : PartInfo} {j c : Nat}
    (h : IsIndex t p j c) {bp : Buf} (hb : p.Holds bp)
    (hlt : bp.sec < 2 ^ 31) :
    (t.part j c).handle bp.sec bp.bcount = t.handle bp.sec bp.bcount := by
  refine (h.handle_iff ht hb).2 fun k hk => Or.inl ?_
  have hfront := h.front k hk
  have h1 := hb.1
  rw [int32_of_bounds (by omega) hlt]
  omega

/-! ## The loop over the slices -/

section Index

variable {parts : Nat → Option PartInfo} {ent : Nat → AltsEnt} {used : Nat}

/-- What the loop leaves for a slice. -/
structure Built (ent : Nat → AltsEnt) (used : Nat) (p : PartInfo) (cnt : Nat)
    (slcEnt : Nat → AltsEnt) : Prop where
  empty : p.slcn = 0 → cnt = 0
  part : 0 < p.slcn →
    cnt = countEnts ent p.slce (used - firstEnt ent p.slcb used 0)
      (firstEnt ent p.slcb used 0) 0 ∧
    slcEnt = fun k => ent (firstEnt ent p.slcb used 0 + k)

theorem buildSlice_built (i : Nat) (p : PartInfo) (s : BbhDk) :
    Built ent used p ((buildSlice ent used i p s).slcCnt i)
      ((buildSlice ent used i p s).slcEnt i) := by
  unfold buildSlice
  by_cases hp : p.slcn = 0
  · rw [if_pos hp]
    exact ⟨fun _ => Function.update_self .., fun h => absurd hp (by omega)⟩
  · rw [if_neg hp]
    exact ⟨fun h => absurd h hp, fun _ => ⟨Function.update_self .., Function.update_self ..⟩⟩

theorem buildSlice_ne {i k : Nat} (hk : k ≠ i) (p : PartInfo) (s : BbhDk) :
    (buildSlice ent used i p s).slcCnt k = s.slcCnt k ∧
      (buildSlice ent used i p s).slcEnt k = s.slcEnt k := by
  unfold buildSlice
  split
  · exact ⟨Function.update_of_ne hk .., rfl⟩
  · exact ⟨Function.update_of_ne hk .., Function.update_of_ne hk ..⟩

theorem buildIndex_lt (n i : Nat) (s : BbhDk) {k : Nat} (hk : k < i) :
    (buildIndex parts ent used n i s).1.slcCnt k = s.slcCnt k ∧
      (buildIndex parts ent used n i s).1.slcEnt k = s.slcEnt k := by
  induction n generalizing i s with
  | zero => exact ⟨rfl, rfl⟩
  | succ n ih =>
      rw [buildIndex]
      cases hp : parts i with
      | none => exact ⟨rfl, rfl⟩
      | some p =>
          have h1 := ih (i + 1) (buildSlice ent used i p s) (by omega)
          have hk' : k ≠ i := by omega
          exact ⟨h1.1.trans (buildSlice_ne hk' p s).1, h1.2.trans (buildSlice_ne hk' p s).2⟩

/-- If the loop comes to its end, every slice has been looked up and has its
    index. -/
theorem buildIndex_built (n i : Nat) (s : BbhDk)
    (h : (buildIndex parts ent used n i s).2.2 = true) {k : Nat} (hik : i ≤ k) (hk : k < i + n) :
    ∃ p, parts k = some p ∧ Built ent used p ((buildIndex parts ent used n i s).1.slcCnt k)
      ((buildIndex parts ent used n i s).1.slcEnt k) := by
  induction n generalizing i s with
  | zero => omega
  | succ n ih =>
      rw [buildIndex] at h ⊢
      cases hp : parts i with
      | none =>
          rw [hp] at h
          cases h
      | some p =>
          rw [hp] at h
          dsimp only at h ⊢
          by_cases hki : k = i
          · subst hki
            -- later rounds leave the fields of this slice alone
            refine ⟨p, hp, ?_⟩
            rw [(buildIndex_lt n (k + 1) _ (Nat.lt_succ_self k)).1,
              (buildIndex_lt n (k + 1) _ (Nat.lt_succ_self k)).2]
            exact buildSlice_built k p s
          · exact ih (i + 1) _ h (by omega) (by omega)

theorem buildIndex_frame (n i : Nat) (s : BbhDk) :
    (buildIndex parts ent used n i s).1.altsHdl = s.altsHdl ∧
      (buildIndex parts ent used n i s).1.slcTab = s.slcTab ∧
      (buildIndex parts ent used n i s).1.iobs = s.iobs ∧
      (buildIndex parts ent used n i s).1.tabs = s.tabs := by
  induction n generalizing i s with
  | zero => exact ⟨rfl, rfl, rfl, rfl⟩
  | succ n ih =>
      rw [buildIndex]
      cases hp : parts i with
      | none => exact ⟨rfl, rfl, rfl, rfl⟩
      | some p =>
          have hs : (buildSlice ent used i p s).altsHdl = s.altsHdl ∧
              (buildSlice ent used i p s).slcTab = s.slcTab ∧
              (buildSlice ent used i p s).iobs = s.iobs ∧
              (buildSlice ent used i p s).tabs = s.tabs := by
            unfold buildSlice
            split <;> exact ⟨rfl, rfl, rfl, rfl⟩
          rcases ih (i + 1) (buildSlice ent used i p s) with ⟨h1, h2, h3, h4⟩
          exact ⟨h1.trans hs.1, h2.trans hs.2.1, h3.trans hs.2.2.1, h4.trans hs.2.2.2⟩

end Index

/-- If there is a table after `cmdk_bbh_reopen`, every slice has been looked up
    and has its index. -/
theorem reopen_built {s : BbhDk} {e : ReopenEnv} (h : (reopen s e).1.altsHdl ≠ none) {i : Nat}
    (hi : i < ndkmap) :
    ∃ p, e.parts i = some p ∧ Built e.table e.label.entUsed.toNat p
      ((reopen s e).1.slcCnt i) ((reopen s e).1.slcEnt i) := by
  simp only [reopen] at h ⊢
  cases hr : (readTable e s.iobs).ok with
  | false =>
      rw [hr] at h
      exact absurd rfl h
  | true =>
      rw [hr] at h
      simp only [if_true, reopenTable] at h ⊢
      split at h
      · rename_i hb
        rw [if_pos hb]
        exact buildIndex_built ndkmap 0 _ hb (Nat.zero_le i) (by omega)
      -- from the label `empty` on there is no table
      · exact absurd rfl h

/-! ## The index and the table -/

/-- What `cmdk_bbh_gethandle` would read if every slice had the whole table. -/
def ReopenEnv.whole (e : ReopenEnv) : Cmdk where
  altsHdl := true
  slcCnt := fun _ => e.label.entUsed.toNat
  slcEnt := fun _ => e.table

/-- The table that is read. -/
def ReopenEnv.alts (e : ReopenEnv) : Alts where
  cnt := e.label.entUsed.toNat
  ent := e.table

/-- After `cmdk_bbh_reopen` there is no table, or every slice has been looked
    up. An empty slice has no entries. Any other has a contiguous part of the
    table that contains every entry with a sector in the slice. A request in the
    slice is remapped as over the whole table exactly when its sectors in 32
    bits do not come down on an entry in front of the part, and so it is if it
    begins below 2^31. -/
theorem index_refines_table (s : BbhDk) (e : ReopenEnv) (h : e.alts.Sectors) :
    (reopen s e).1.altsHdl = none ∨ ∀ i, i < ndkmap → ∃ p, e.parts i = some p ∧
      (p.slcn = 0 → (reopen s e).1.slcCnt i = 0) ∧
      (0 < p.slcn → ∃ j, j + (reopen s e).1.slcCnt i ≤ e.alts.cnt ∧
        (∀ k, (reopen s e).1.slcEnt i k = e.table (j + k)) ∧
        (∀ k, k < e.alts.cnt → (e.table k).Meets p → j ≤ k ∧ k < j + (reopen s e).1.slcCnt i) ∧
        ∀ bp : Buf, bp.part = i → p.Holds bp →
          (gethandle (reopen s e).1.cmdk bp = gethandle e.whole bp ↔
            ∀ k, k < j → (e.table k).badEnd < int32 bp.sec ∨
              int32 (bp.sec + (bp.bcount >>> 9 : Nat) - 1) < (e.table k).badStart) ∧
          (bp.sec < 2 ^ 31 →
            gethandle (reopen s e).1.cmdk bp = gethandle e.whole bp)) := by
  by_cases hh : (reopen s e).1.altsHdl = none
  · exact Or.inl hh
  refine Or.inr fun i hi => ?_
  rcases reopen_built hh hi with ⟨p, hp, hb⟩
  refine ⟨p, hp, hb.empty, fun hpos => ?_⟩
  rcases hb.part hpos with ⟨hcnt, hent⟩
  -- the part that the two loops leave is an index of the slice
  have hidx : IsIndex e.alts p (firstEnt e.table p.slcb e.label.entUsed.toNat 0)
      ((reopen s e).1.slcCnt i) := by
    rw [hcnt]
    exact buildSlice_part h hpos
  refine ⟨_, hidx.le, fun k => by rw [hent], fun k hk hm => hidx.of_meets hk hm, ?_⟩
  intro bp hbi hbp
  have hn : ¬bp.part ≥ vNumpar := by
    rw [hbi]
    exact not_le.2 hi
  -- a lookup over the index is one over the part
  have hrun : gethandle (reopen s e).1.cmdk bp =
      (e.alts.part (firstEnt e.table p.slcb e.label.entUsed.toNat 0)
        ((reopen s e).1.slcCnt i)).handle bp.sec bp.bcount := by
    have hsome : ¬((reopen s e).1.cmdk.altsHdl = false) := by
      simpa [BbhDk.cmdk] using hh
    rw [gethandle_eq_handle, Cmdk.alts, if_neg (by rw [not_or]; exact ⟨hn, hsome⟩), hbi]
    congr 1
    exact congrArg (Alts.mk _) hent
  have hwhole : gethandle e.whole bp = e.alts.handle bp.sec bp.bcount := by
    have hsome : ¬(e.whole.altsHdl = false) := by simp [ReopenEnv.whole]
    rw [gethandle_eq_handle, Cmdk.alts, if_neg (by rw [not_or]; exact ⟨hn, hsome⟩)]
    rfl
  rw [hrun, hwhole]
  exact ⟨hidx.handle_iff h.toSorted hbp, hidx.handle_eq h.toSorted hbp⟩

/-! ## A slice beyond 2^32 -/

/-- Before the first `cmdk_bbh_reopen`. -/
def noTable : BbhDk where
  altsHdl := none
  altused := 0
  slcTab := none
  slcCnt := fun _ => 0
  slcEnt := fun _ _ => ⟨0, 0, 0⟩
  iobs := 0
  tabs := 0

/-- The alternates are in slice 0, slice 1 has 100 blocks from 2^32 on, and the
    other slices are empty. -/
def farMap (i : Nat) : PartInfo :=
  if i = 0 then ⟨100, 0, vAltsctr, by omega⟩
  else if i = 1 then ⟨100, 2 ^ 32, 0, by omega⟩
  else ⟨0, 0, 0, by omega⟩

/-- The only bad sector is 10. -/
def farSlice : ReopenEnv where
  tags := fun i => some (farMap i)
  iobLabel := true
  xferLabel := true
  label := ⟨altsSanity, 1, 1, 1⟩
  iobTable := true
  xferTable := true
  table := fun _ => ⟨10, 10, 50⟩
  parts := fun i => some (farMap i)
  oldCnt := fun _ => 0
  oldEnt := fun _ _ => ⟨0, 0, 0⟩

theorem farSlice_sectors : farSlice.alts.Sectors where
  le := fun _ _ => le_refl _
  lt := by
    intro i k hik hk
    have hk1 : k < 1 := hk
    omega
  nonneg := fun _ _ => show (0 : Int) ≤ 10 by decide
  lt_pow := fun _ _ => show (10 : Int) < 2 ^ 31 by decide

/-- In slice 0 the bad sector is remapped as over the table. -/
theorem index_refines_table_low :
    gethandle (reopen noTable farSlice).1.cmdk ⟨0, 10, 512⟩ =
      gethandle farSlice.whole ⟨0, 10, 512⟩ := by
  rcases index_refines_table noTable farSlice farSlice_sectors with h | h
  · exact absurd h (by decide +kernel)
  · rcases h 0 (by decide) with ⟨p, hp, -, hpart⟩
    cases hp
    rcases hpart (by decide) with ⟨j, -, -, -, hreq⟩
    exact (hreq ⟨0, 10, 512⟩ rfl (by constructor <;> decide)).2 (by decide)

/-- A request at sector 2^32 + 10 lies in slice 1. Over the index of the slice
    there is nothing to remap, and over the whole table its sector in 32 bits is
    the bad one. -/
theorem index_not_table :
    farSlice.alts.Sectors ∧ (reopen noTable farSlice).1.altsHdl ≠ none ∧
      farSlice.parts 1 = some (farMap 1) ∧ 0 < (farMap 1).slcn ∧
      (farMap 1).Holds ⟨1, 2 ^ 32 + 10, 512⟩ ∧
      gethandle (reopen noTable farSlice).1.cmdk ⟨1, 2 ^ 32 + 10, 512⟩ ≠
        gethandle farSlice.whole ⟨1, 2 ^ 32 + 10, 512⟩ := by
  refine ⟨farSlice_sectors, by decide +kernel, rfl, by decide, ?_, ?_⟩
  · constructor <;> decide +kernel
  · have h1 :
        (gethandle (reopen noTable farSlice).1.cmdk ⟨1, 2 ^ 32 + 10, 512⟩).isSome = false := by
      decide +kernel
    have h2 : (gethandle farSlice.whole ⟨1, 2 ^ 32 + 10, 512⟩).isSome = true := by
      decide +kernel
    intro h
    rw [h, h2] at h1
    cases h1

end Disk

end Sil3112
