import Sil3112.Lib.Ledger
import Sil3112.Disk.BbhIndex

/-!
# What the Bad-Block Code Owns

`cmdk_bbh_free_alts` of `cmdk.c`, and any sequence of its calls with calls of
`cmdk_bbh_reopen` and `cmdk_bbh_gethandle`. The bad-block code owns I/O buffers,
one of which is in `dk_alts_hdl`, and the two slice tables, which are one piece
of memory at `dk_slc_cnt`.

The buffers are right in every run: each is freed once, or is the one in
`dk_alts_hdl`. The slice tables are not. `cmdk_bbh_reopen` allocates them with
`sizeof (long)` and `cmdk_bbh_free_alts` frees them with `sizeof (uint32_t)`.
It also leaves the pointer as it is. So the next `cmdk_bbh_reopen` finds tables,
and fills those that were freed.

## Main definitions

* `freeAlts`: `cmdk_bbh_free_alts`
* `BbhCall`, `bbhCall`: A call to the bad-block code.
* `BbhBalanced`: Nothing is lost, freed twice or used when freed.

## Theorems

* `call_ledger`: What a call does to the buffers.
* `run_iobs`: The buffers in any run.
* `bbh_balanced_iff`: When a run is right.
-/

namespace Sil3112

namespace Disk

open Ledger

/-! ## Calls -/

/-- `cmdk_bbh_free_alts` -/
def freeAlts (s : BbhDk) : BbhDk × List BbhEv :=
  match s.altsHdl with
  | none => (s, [])
  | some h =>
    ({ s with altsHdl := none }, [.iobFree h, .kmemFree s.slcTab (ndkmap * (4 + 8))])

/-- A call to the bad-block code. -/
inductive BbhCall where
  | reopen (e : ReopenEnv)
  | freeAlts
  | gethandle (part : Nat)

/-- What a call does. `cmdk_bbh_gethandle` reads the slice tables if there is a
    table. -/
def bbhCall (s : BbhDk) : BbhCall → BbhDk × List BbhEv
  | .reopen e => Disk.reopen s e
  | .freeAlts => Disk.freeAlts s
  | .gethandle part =>
    (s, if part ≥ vNumpar ∨ s.altsHdl = none then [] else [.tabUse s.slcTab])

/-- The buffer that is allocated. -/
def BbhEv.allocated : BbhEv → Option Nat
  | iobAlloc h _ _ => some h
  | _ => none

/-- The buffer that is freed. -/
def BbhEv.freed : BbhEv → Option Nat
  | iobFree h => some h
  | _ => none

/-- The slice tables that are freed. -/
def BbhEv.tabFreed : BbhEv → Option (Option Nat)
  | kmemFree b _ => some b
  | _ => none

/-- What the calls did is right. -/
structure BbhBalanced (r : BbhDk × List BbhEv) : Prop where
  /-- No two buffers are the same, and only buffers are freed. -/
  fresh : (r.2.filterMap BbhEv.allocated).Nodup
  known : ∀ h ∈ r.2.filterMap BbhEv.freed, h ∈ r.2.filterMap BbhEv.allocated
  /-- A buffer is the one in `dk_alts_hdl`, or it was freed once. -/
  iobs : ∀ h ∈ r.2.filterMap BbhEv.allocated,
    (r.1.altsHdl = some h ∧ (r.2.filterMap BbhEv.freed).count h = 0) ∨
      (r.1.altsHdl ≠ some h ∧ (r.2.filterMap BbhEv.freed).count h = 1)
  /-- Slice tables are freed with the size that they were allocated with. -/
  sizes : ∀ b n, .kmemFree b n ∈ r.2 → ∃ t, b = some t ∧ .kmemAlloc t n ∈ r.2
  /-- They are freed once. -/
  once : (r.2.filterMap BbhEv.tabFreed).Nodup
  /-- They are not used when freed. -/
  live : r.2.Pairwise fun a b => ∀ t n, a = .kmemFree t n → b ≠ .tabUse t

/-! ## Buffers in a call -/

/-- What is put in the log for the slice tables only. -/
def TabsOnly (evs : List BbhEv) : Prop :=
  ∀ a ∈ evs, a.allocated = none ∧ a.freed = none

theorem TabsOnly.allocated {evs : List BbhEv} (h : TabsOnly evs) :
    evs.filterMap BbhEv.allocated = [] :=
  List.filterMap_eq_nil_iff.2 fun a ha => (h a ha).1

theorem TabsOnly.freed {evs : List BbhEv} (h : TabsOnly evs) :
    evs.filterMap BbhEv.freed = [] :=
  List.filterMap_eq_nil_iff.2 fun a ha => (h a ha).2

theorem buildIndex_tabsOnly (parts : Nat → Option PartInfo) (ent : Nat → AltsEnt) (used n i : Nat)
    (s : BbhDk) : TabsOnly (buildIndex parts ent used n i s).2.1 := by
  induction n generalizing i s with
  | zero => exact List.forall_mem_nil _
  | succ n ih =>
      rw [buildIndex]
      cases parts i with
      | none => exact List.forall_mem_nil _
      | some p =>
          intro a ha
          rcases List.mem_cons.1 ha with rfl | ha
          · exact ⟨rfl, rfl⟩
          · exact ih (i + 1) _ a ha

theorem allocTabs_tabsOnly (s : BbhDk) (e : ReopenEnv) : TabsOnly (allocTabs s e).2 := by
  unfold allocTabs
  split
  · exact List.forall_mem_nil _
  · intro a ha
    rw [List.mem_singleton.1 ha]
    exact ⟨rfl, rfl⟩

theorem freed_map_iobFree (l : List Nat) : (l.map BbhEv.iobFree).filterMap BbhEv.freed = l := by
  rw [List.filterMap_map]
  exact List.filterMap_some

theorem allocated_map_iobFree (l : List Nat) :
    (l.map BbhEv.iobFree).filterMap BbhEv.allocated = [] := by
  rw [List.filterMap_map]
  exact List.filterMap_eq_nil_iff.2 fun _ _ => rfl

/-- The first half of `cmdk_bbh_reopen` frees what it allocates, but for the
    buffer that it leaves in `handle`. -/
structure ReadLedger (iobs : Nat) (r : ReadRes) : Prop where
  range : ∃ n, r.iobs = iobs + n ∧ r.evs.filterMap BbhEv.allocated = List.range' iobs n
  perm : (r.evs.filterMap BbhEv.allocated).Perm (r.evs.filterMap BbhEv.freed ++ r.handle.toList)
  fresh : ∀ h, r.handle = some h → iobs ≤ h ∧ h < r.iobs

theorem readTable_ledger (e : ReopenEnv) (iobs : Nat) : ReadLedger iobs (readTable e iobs) := by
  unfold readTable
  cases findAlts e.tags ndkmap 0 with
  | none => exact ⟨⟨0, rfl, rfl⟩, List.Perm.refl _, fun h hh => by cases hh⟩
  | some p =>
      dsimp only
      split
      · exact ⟨⟨0, rfl, rfl⟩, List.Perm.refl _, fun h hh => by cases hh⟩
      split
      · exact ⟨⟨1, rfl, rfl⟩, List.Perm.refl _, fun h hh => by cases hh; dsimp only; omega⟩
      split
      · exact ⟨⟨1, rfl, rfl⟩, List.Perm.refl _, fun h hh => by cases hh⟩
      · exact ⟨⟨2, rfl, rfl⟩, List.Perm.refl _, fun h hh => by cases hh; dsimp only; omega⟩

/-- The cleanup frees the buffer in `handle` and the one in `dk_alts_hdl`, once if
    they are the same. -/
theorem reopenEmpty_ledger (s : BbhDk) (handle : Option Nat) :
    (reopenEmpty s handle).1.altsHdl = none ∧ (reopenEmpty s handle).1.iobs = s.iobs ∧
      (reopenEmpty s handle).2.filterMap BbhEv.allocated = [] ∧
      (reopenEmpty s handle).2.filterMap BbhEv.freed =
        (if handle = s.altsHdl then [] else handle.toList) ++ s.altsHdl.toList := by
  refine ⟨rfl, rfl, ?_, ?_⟩
  · simp only [reopenEmpty, List.filterMap_append, allocated_map_iobFree, List.append_nil]
    split
    · rfl
    · exact allocated_map_iobFree _
  · simp only [reopenEmpty, List.filterMap_append, freed_map_iobFree]
    congr 1
    split
    · rfl
    · exact freed_map_iobFree _

/-- The second half frees the old buffer, and the new one if it does not come to
    its end. -/
theorem reopenTable_ledger (s : BbhDk) (e : ReopenEnv) (handle : Option Nat) :
    (reopenTable s e handle).1.iobs = s.iobs ∧
      (reopenTable s e handle).2.filterMap BbhEv.allocated = [] ∧
      (handle.toList ++ s.altsHdl.toList).Perm
        ((reopenTable s e handle).2.filterMap BbhEv.freed ++
          (reopenTable s e handle).1.altsHdl.toList) := by
  have ha : (allocTabs s e).1.altsHdl = s.altsHdl ∧ (allocTabs s e).1.iobs = s.iobs := by
    unfold allocTabs
    split <;> exact ⟨rfl, rfl⟩
  have htabs := allocTabs_tabsOnly s e
  have hidx := buildIndex_tabsOnly e.parts e.table e.label.entUsed.toNat ndkmap 0
    { (allocTabs s e).1 with altsHdl := handle, altused := e.label.entUsed }
  rcases @buildIndex_frame e.parts e.table e.label.entUsed.toNat ndkmap 0
    { (allocTabs s e).1 with altsHdl := handle, altused := e.label.entUsed } with
    ⟨hf1, -, hf3, -⟩
  dsimp only at hf1 hf3
  simp only [reopenTable]
  split
  · refine ⟨hf3.trans ha.2, ?_, ?_⟩
    · rw [List.filterMap_append, List.filterMap_append, htabs.allocated, hidx.allocated,
        allocated_map_iobFree]
      rfl
    · rw [List.filterMap_append, List.filterMap_append, htabs.freed, hidx.freed,
        freed_map_iobFree, hf1, ha.1, List.nil_append, List.append_nil]
      exact List.perm_append_comm
  · rcases reopenEmpty_ledger (buildIndex e.parts e.table e.label.entUsed.toNat ndkmap 0
      { (allocTabs s e).1 with altsHdl := handle, altused := e.label.entUsed }).1 handle with
      ⟨he1, he2, he3, he4⟩
    refine ⟨he2.trans (hf3.trans ha.2), ?_, ?_⟩
    · rw [List.filterMap_append, List.filterMap_append, List.filterMap_append, htabs.allocated,
        hidx.allocated, allocated_map_iobFree, he3]
      rfl
    · rw [List.filterMap_append, List.filterMap_append, List.filterMap_append, htabs.freed,
        hidx.freed, freed_map_iobFree, he4, he1, hf1, if_pos rfl, ha.1, List.nil_append,
        List.append_nil, List.nil_append, Option.toList_none, List.append_nil]
      exact List.perm_append_comm

/-! ## Buffers in a run -/

/-- The buffer in `dk_alts_hdl` was allocated before. -/
def HdlOld (s : BbhDk) : Prop :=
  ∀ h, s.altsHdl = some h → h < s.iobs

/-- The buffer that is held. -/
def heldIobs (s : BbhDk) : List Nat :=
  s.altsHdl.toList

/-- What a call does to the buffers: they are numbered on, and what was
    allocated or held is what was freed or is held. -/
structure CallLedger (s : BbhDk) (r : BbhDk × List BbhEv) : Prop where
  range : ∃ n, r.1.iobs = s.iobs + n ∧
    r.2.filterMap BbhEv.allocated = List.range' s.iobs n
  balanced : Ledger.Balanced BbhEv.allocated BbhEv.freed heldIobs s r

/-- A call leaves an old buffer in `dk_alts_hdl`. -/
theorem CallLedger.hdlOld {s : BbhDk} {r : BbhDk × List BbhEv} (h : CallLedger s r)
    (hs : HdlOld s) : HdlOld r.1 := by
  intro a ha
  rcases h.range with ⟨n, hn, hacq⟩
  have hheld : a ∈ r.2.filterMap BbhEv.freed ++ heldIobs r.1 :=
    List.mem_append_right _ (Option.mem_toList.2 ha)
  rcases List.mem_append.1 (h.balanced.symm.subset hheld) with hm | hm
  -- either the call has allocated it, or it was held before
  · rw [hacq, List.mem_range'_1] at hm
    omega
  · have := hs a (Option.mem_toList.1 hm)
    omega

theorem reopen_ledger {s : BbhDk} (hs : HdlOld s) (e : ReopenEnv) :
    CallLedger s (reopen s e) := by
  have hread := readTable_ledger e s.iobs
  rcases hread.range with ⟨n, hn, hacq⟩
  simp only [reopen]
  cases hok : (readTable e s.iobs).ok with
  | true =>
      rcases reopenTable_ledger { s with iobs := (readTable e s.iobs).iobs } e
        (readTable e s.iobs).handle with ⟨h1, h2, h3⟩
      simp only [if_true]
      refine ⟨⟨n, h1.trans hn, ?_⟩, ?_⟩
      · rw [List.filterMap_append, h2, hacq, List.append_nil]
      -- what the first half leaves in `handle`, the second frees or keeps
      · unfold Ledger.Balanced heldIobs
        rw [List.filterMap_append, List.filterMap_append, h2, List.append_nil, List.append_assoc]
        refine (hread.perm.append_right _).trans ?_
        rw [List.append_assoc]
        exact h3.append_left _
  | false =>
      rcases reopenEmpty_ledger { s with iobs := (readTable e s.iobs).iobs }
        (readTable e s.iobs).handle with ⟨h1, h2, h3, h4⟩
      simp only [Bool.false_eq_true, if_false]
      refine ⟨⟨n, h2.trans hn, ?_⟩, ?_⟩
      · rw [List.filterMap_append, h3, hacq, List.append_nil]
      · -- the buffer in `handle` is newer than the one in `dk_alts_hdl`
        have hne : (if (readTable e s.iobs).handle = s.altsHdl then []
            else (readTable e s.iobs).handle.toList) = (readTable e s.iobs).handle.toList := by
          split
          · rename_i heq
            cases hh : (readTable e s.iobs).handle with
            | none => rfl
            | some h =>
                have h5 := (hread.fresh h hh).1
                have h6 := hs h (heq.symm.trans hh)
                omega
          · rfl
        unfold Ledger.Balanced heldIobs
        rw [List.filterMap_append, List.filterMap_append, h3, h4, h1, List.append_nil,
          Option.toList_none, List.append_nil]
        dsimp only
        rw [hne, ← List.append_assoc]
        exact hread.perm.append_right _

theorem call_ledger {s : BbhDk} (hs : HdlOld s) (c : BbhCall) : CallLedger s (bbhCall s c) := by
  cases c with
  | reopen e => exact reopen_ledger hs e
  | freeAlts =>
      simp only [bbhCall, freeAlts]
      cases hh : s.altsHdl with
      | none => exact ⟨⟨0, rfl, rfl⟩, List.Perm.refl _⟩
      | some h =>
          refine ⟨⟨0, rfl, rfl⟩, ?_⟩
          unfold Ledger.Balanced heldIobs
          rw [hh]
          exact List.Perm.refl _
  | gethandle part =>
      simp only [bbhCall]
      split
      · exact ⟨⟨0, rfl, rfl⟩, List.Perm.refl _⟩
      · exact ⟨⟨0, rfl, rfl⟩, List.Perm.refl _⟩

theorem noTable_hdlOld : HdlOld noTable := by
  intro h hh
  cases hh

/-- The buffers in any run. -/
theorem run_iobs (calls : List BbhCall) :
    CallLedger noTable (run bbhCall noTable calls) := by
  have hold : ∀ s c, HdlOld s → HdlOld (bbhCall s c).1 :=
    fun s c hs => (call_ledger hs c).hdlOld hs
  refine ⟨?_, ?_⟩
  · exact run_range hold (fun s c hs => (call_ledger hs c).range) noTable_hdlOld calls
  · exact Ledger.Balanced.run hold (fun s c hs => (call_ledger hs c).balanced) noTable_hdlOld calls

/-! ## Slice tables -/

/-- What `cmdk_bbh_reopen` can do to slice tables: it allocates them with one
    size, and never frees them. -/
def BbhEv.InReopen : BbhEv → Prop
  | kmemAlloc _ size => size = ndkmap * (8 + 8)
  | kmemFree _ _ => False
  | _ => True

theorem inReopen_map_iobFree (l : List Nat) : ∀ a ∈ l.map BbhEv.iobFree, a.InReopen := by
  intro a ha
  rcases List.mem_map.1 ha with ⟨h, -, rfl⟩
  trivial

theorem readTable_inReopen (e : ReopenEnv) (iobs : Nat) :
    ∀ a ∈ (readTable e iobs).evs, a.InReopen := by
  unfold readTable
  cases findAlts e.tags ndkmap 0 with
  | none => exact List.forall_mem_nil _
  | some p =>
      dsimp only
      split
      · exact List.forall_mem_nil _
      split
      · simp [BbhEv.InReopen]
      split
      · simp [BbhEv.InReopen]
      · simp [BbhEv.InReopen]

theorem buildIndex_inReopen (parts : Nat → Option PartInfo) (ent : Nat → AltsEnt)
    (used n i : Nat) (s : BbhDk) : ∀ a ∈ (buildIndex parts ent used n i s).2.1, a.InReopen := by
  induction n generalizing i s with
  | zero => exact List.forall_mem_nil _
  | succ n ih =>
      rw [buildIndex]
      cases parts i with
      | none => exact List.forall_mem_nil _
      | some p => exact List.forall_mem_cons.2 ⟨trivial, ih (i + 1) _⟩

theorem allocTabs_inReopen (s : BbhDk) (e : ReopenEnv) :
    ∀ a ∈ (allocTabs s e).2, a.InReopen := by
  unfold allocTabs
  split
  · exact List.forall_mem_nil _
  · exact List.forall_mem_singleton.2 rfl

theorem reopenEmpty_inReopen (s : BbhDk) (handle : Option Nat) :
    ∀ a ∈ (reopenEmpty s handle).2, a.InReopen := by
  refine List.forall_mem_append.2 ⟨?_, inReopen_map_iobFree _⟩
  split
  · exact List.forall_mem_nil _
  · exact inReopen_map_iobFree _

theorem reopen_inReopen (s : BbhDk) (e : ReopenEnv) : ∀ a ∈ (reopen s e).2, a.InReopen := by
  refine List.forall_mem_append.2 ⟨readTable_inReopen e s.iobs, ?_⟩
  split
  · simp only [reopenTable]
    have hpre := List.forall_mem_append.2
      ⟨allocTabs_inReopen { s with iobs := (readTable e s.iobs).iobs } e,
        inReopen_map_iobFree
          (allocTabs { s with iobs := (readTable e s.iobs).iobs } e).1.altsHdl.toList⟩
    have hidx := buildIndex_inReopen e.parts e.table e.label.entUsed.toNat ndkmap 0
      { (allocTabs { s with iobs := (readTable e s.iobs).iobs } e).1 with
        altsHdl := (readTable e s.iobs).handle, altused := e.label.entUsed }
    split
    · exact List.forall_mem_append.2 ⟨hpre, hidx⟩
    · exact List.forall_mem_append.2
        ⟨List.forall_mem_append.2 ⟨hpre, hidx⟩, reopenEmpty_inReopen _ _⟩
  · exact reopenEmpty_inReopen _ _

/-- The sizes that slice tables are allocated and freed with. -/
def BbhEv.Sized : BbhEv → Prop
  | kmemAlloc _ size => size = ndkmap * (8 + 8)
  | kmemFree _ size => size = ndkmap * (4 + 8)
  | _ => True

theorem BbhEv.InReopen.sized {a : BbhEv} (h : a.InReopen) : a.Sized := by
  cases a with
  | kmemFree b size => exact absurd h (fun h => h)
  | kmemAlloc b size => exact h
  | iobAlloc h blkno xfer => trivial
  | iobXfer h => trivial
  | iobFree h => trivial
  | tabUse b => trivial

/-- Slice tables are allocated with one size and freed with another. -/
theorem call_sizes (s : BbhDk) (c : BbhCall) : ∀ a ∈ (bbhCall s c).2, a.Sized := by
  cases c with
  | reopen e => exact fun a ha => (reopen_inReopen s e a ha).sized
  | freeAlts =>
      simp only [bbhCall, freeAlts]
      cases s.altsHdl with
      | none => exact List.forall_mem_nil _
      | some h => exact List.forall_mem_cons.2 ⟨trivial, List.forall_mem_singleton.2 rfl⟩
  | gethandle part =>
      simp only [bbhCall]
      split
      · exact List.forall_mem_nil _
      · exact List.forall_mem_singleton.2 trivial

/-- A call that frees no table frees no slice tables. -/
theorem call_keeps_tabs {s : BbhDk} {c : BbhCall} (h : c = .freeAlts → s.altsHdl = none)
    (b : Option Nat) (n : Nat) : .kmemFree b n ∉ (bbhCall s c).2 := by
  cases c with
  | reopen e => exact fun hm => reopen_inReopen s e _ hm
  | freeAlts =>
      simp only [bbhCall, freeAlts, h rfl]
      exact List.not_mem_nil
  | gethandle part =>
      simp only [bbhCall]
      split
      · exact List.not_mem_nil
      · intro hm
        cases List.mem_singleton.1 hm

/-! ## Runs -/

/-- `cmdk_bbh_free_alts` is not called when there is a table. -/
def NoFree (s : BbhDk) : List BbhCall → Prop
  | [] => True
  | c :: cs => (c = .freeAlts → s.altsHdl = none) ∧ NoFree (bbhCall s c).1 cs

theorem run_sizes (s : BbhDk) (calls : List BbhCall) :
    ∀ a ∈ (run bbhCall s calls).2, a.Sized := by
  induction calls generalizing s with
  | nil => exact List.forall_mem_nil _
  | cons c cs ih => exact List.forall_mem_append.2 ⟨call_sizes s c, ih (bbhCall s c).1⟩

/-- Slice tables are freed in a run exactly when `cmdk_bbh_free_alts` finds a
    table. -/
theorem noFree_iff (s : BbhDk) (calls : List BbhCall) :
    NoFree s calls ↔ ∀ b n, .kmemFree b n ∉ (run bbhCall s calls).2 := by
  induction calls generalizing s with
  | nil => exact ⟨fun _ b n => List.not_mem_nil, fun _ => trivial⟩
  | cons c cs ih =>
      constructor
      · intro h b n hm
        rcases List.mem_append.1 hm with hm | hm
        · exact call_keeps_tabs h.1 b n hm
        · exact (ih _).1 h.2 b n hm
      · intro h
        refine ⟨?_, (ih _).2 fun b n hm => h b n (List.mem_append_right _ hm)⟩
        rintro rfl
        cases hh : s.altsHdl with
        | none => rfl
        -- then the slice tables would be freed
        | some a =>
            refine absurd (List.mem_append_left _ ?_) (h s.slcTab (ndkmap * (4 + 8)))
            simp [bbhCall, freeAlts, hh]

/-- What the bad-block code owns is balanced exactly when `cmdk_bbh_free_alts`
    never finds a table, since it frees the slice tables with the wrong size. -/
theorem bbh_balanced_iff (calls : List BbhCall) :
    BbhBalanced (run bbhCall noTable calls) ↔ NoFree noTable calls := by
  have hiobs := run_iobs calls
  rcases hiobs.range with ⟨n, -, hacq⟩
  have hnodup : ((run bbhCall noTable calls).2.filterMap BbhEv.allocated).Nodup := by
    rw [hacq]
    exact List.nodup_range'
  constructor
  · intro h
    refine (noFree_iff noTable calls).2 fun b m hm => ?_
    rcases h.sizes b m hm with ⟨t, -, ht⟩
    have h1 : m = ndkmap * (4 + 8) := run_sizes noTable calls _ hm
    have h2 : m = ndkmap * (8 + 8) := run_sizes noTable calls _ ht
    -- 192 bytes are not 256
    rw [h1] at h2
    exact absurd h2 (by decide)
  · intro h
    have hno := (noFree_iff noTable calls).1 h
    refine ⟨hnodup, fun a ha => hiobs.balanced.mem_acq rfl ha, ?_,
      fun b m hm => absurd hm (hno b m), ?_, ?_⟩
    · intro a ha
      rcases hiobs.balanced.once rfl hnodup ha with hheld | hheld
      · exact Or.inl ⟨Option.mem_toList.1 hheld.1, hheld.2⟩
      · exact Or.inr ⟨fun hs => hheld.1 (Option.mem_toList.2 hs), hheld.2⟩
    · have hnil : (run bbhCall noTable calls).2.filterMap BbhEv.tabFreed = [] := by
        refine List.filterMap_eq_nil_iff.2 fun a ha => ?_
        cases a with
        | kmemFree b m => exact absurd ha (hno b m)
        | kmemAlloc b size => rfl
        | iobAlloc h blkno xfer => rfl
        | iobXfer h => rfl
        | iobFree h => rfl
        | tabUse b => rfl
      rw [hnil]
      exact List.nodup_nil
    · refine List.pairwise_of_forall_mem_list fun a ha b _ t m hab => ?_
      rw [hab] at ha
      exact absurd ha (hno t m)

/-- A table is read, is used, and cannot be read again. -/
def readAndUsed : List BbhCall :=
  [.reopen farSlice, .gethandle 0, .reopen { farSlice with xferTable := false }, .freeAlts]

theorem bbh_balanced_readAndUsed : BbhBalanced (run bbhCall noTable readAndUsed) :=
  (bbh_balanced_iff readAndUsed).2
    ⟨by simp, by simp, by simp, fun _ => by decide +kernel, trivial⟩

/-- A table is read, freed, read again and freed again. -/
def readTwice : List BbhCall :=
  [.reopen farSlice, .freeAlts, .reopen farSlice, .freeAlts]

/-- The slice tables have 256 bytes and are freed with 192, are used after that,
    and are freed once more. -/
theorem bbh_not_balanced :
    .kmemAlloc 0 256 ∈ (run bbhCall noTable readTwice).2 ∧
      (run bbhCall noTable readTwice).2.filterMap BbhEv.tabFreed = [some 0, some 0] ∧
      [.kmemFree (some 0) 192, .tabUse (some 0)].Sublist (run bbhCall noTable readTwice).2 ∧
      ¬BbhBalanced (run bbhCall noTable readTwice) := by
  have htwice : (run bbhCall noTable readTwice).2.filterMap BbhEv.tabFreed = [some 0, some 0] := by
    decide +kernel
  refine ⟨by decide +kernel, htwice, by decide +kernel, fun h => ?_⟩
  have honce := h.once
  rw [htwice] at honce
  exact absurd honce (by decide)

end Disk

end Sil3112
