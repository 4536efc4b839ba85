import Sil3112.Lib.Bytes

/-!
# Device Ids

`cmdk_devid_read` and `cmdk_devid_fabricate`, which read the device id of a disk from
its last cylinder, and make one up and write it there.

Both have one label `err` for all their ways out. In `cmdk_devid_read` it is reached
before `handle` has a value if the block of the id is not found. In
`cmdk_devid_fabricate` the result of `ddi_devid_init` stays in `rc`, so that it reports
success there although it has no handle, or the id is too large. It does not go there at
all if the block is not found, and does not look at the result of the write.

The layout of a `struct dk_devid` and the functions of the kernel that look at a device
id are parameters.

## Main definitions

* `DkDevid`, `DevidFns`: The layout, and `ddi_devid_valid` and `ddi_devid_sizeof`.
* `devidRead`, `devidFabricate`: `cmdk_devid_read` and `cmdk_devid_fabricate`
* `AllOrNothing`: What they should do, in terms of what they have allocated and freed.

## Theorems

* `devidRead_iff`, `devidFabricate_iff`: When they do.
* `devidRead_fabricated`: What was fabricated is read back.
* `devid_all_or_nothing_iff`: All of it.
-/

namespace Sil3112

namespace Disk

open Bytes

/-! ## The parameters -/

/-- The fields of a `struct dk_devid`, and what its macros and constants are. -/
structure DkDevid where
  revHi : Nat
  revLo : Nat
  devid : Nat
  /-- `DK_DEVID_SIZE` -/
  size : Nat
  revMsb : Byte
  revLsb : Byte
  /-- `DKD_GETCHKSUM` -/
  getChksum : (Nat → Byte) → BitVec 32
  /-- `DKD_FORMCHKSUM` -/
  formChksum : BitVec 32 → (Nat → Byte) → Nat → Byte

/-- The bytes of a block that are not its checksum. -/
def chksumAt : Nat := 508

/-- What the code relies on: the fields lie in front of the checksum and do not
    overlap, and what one of the two macros has put there the other one gets, whatever
    the rest of the memory is. -/
structure DkDevid.Lawful (lay : DkDevid) : Prop where
  rev_ne : lay.revHi ≠ lay.revLo
  revHi_lt : lay.revHi < lay.devid
  revLo_lt : lay.revLo < lay.devid
  devid_end : lay.devid + lay.size ≤ chksumAt
  form_front : ∀ c m i, i < chksumAt → lay.formChksum c m i = m i
  get_form : ∀ c m, lay.getChksum (lay.formChksum c m) = c
  get_block : ∀ m m', (∀ i, i < 512 → m i = m' i) → lay.getChksum m = lay.getChksum m'

/-- `ddi_devid_valid` and `ddi_devid_sizeof`, which look at the memory from a device id
    on. -/
structure DevidFns where
  valid : (Nat → Byte) → Bool
  sizeof : (Nat → Byte) → Nat

/-- They look only at the device id itself. -/
def DevidFns.Local (fns : DevidFns) : Prop :=
  ∀ m m', (∀ i, i < fns.sizeof m → m i = m' i) →
    fns.valid m = fns.valid m' ∧ fns.sizeof m = fns.sizeof m'

/-- The bytes of a device id. -/
def DevidFns.bytes (fns : DevidFns) (m : Nat → Byte) : List Byte :=
  load m 0 (fns.sizeof m)

/-! ## The source -/

/-- What a call allocates: an I/O buffer, or a device id. -/
inductive DevidRes where
  | iob (h : Nat)
  | devid (d : Nat)
  deriving DecidableEq

/-- What a call does to them. A write has the block, and whether it went well. -/
inductive DevidEv where
  | alloc (r : DevidRes)
  | free (r : DevidRes)
  | write (block : List Byte) (ok : Bool)
  | setDevid (d : List Byte)
  deriving DecidableEq

/-- What a call returns: whether `DDI_SUCCESS`, `dk_devid`, and what it has done. -/
structure DevidOut where
  rc : Bool
  dkDevid : Option (List Byte)
  evs : List DevidEv

/-- The word `i` of a block, in the byte order of the machine. -/
def blockWord (o : ByteOrder) (m : Nat → Byte) (i : Nat) : BitVec 32 :=
  BitVec.ofNat 32 (o.val (load m (4 * i) 4))

/-- The loop for the checksum, over the `n` words from `i` on. -/
def chksumLoop (o : ByteOrder) (m : Nat → Byte) : Nat → Nat → BitVec 32 → BitVec 32
  | 0, _, chksum => chksum
  | n + 1, i, chksum => chksumLoop o m n (i + 1) (chksum ^^^ blockWord o m i)

/-- The checksum of a block, over all its words but the last one. -/
def blockChksum (o : ByteOrder) (m : Nat → Byte) : BitVec 32 :=
  chksumLoop o m ((512 - 4) / 4) 0 0

/-- What `cmdk_devid_read` meets: the block of the id, the buffer for it, and the
    memory from there on after the transfer. Each can fail. `stale` is what is in the
    variable `handle` in the beginning. -/
structure ReadDevid where
  block : Option Nat
  iob : Option Nat
  xfer : Option (Nat → Byte)
  stale : Option Nat

/-- The label `err` of `cmdk_devid_read`. -/
def readErr (rc : Bool) (handle : Option Nat) (dkDevid : Option (List Byte))
    (evs : List DevidEv) : DevidOut :=
  ⟨rc, dkDevid, evs ++ handle.toList.map fun h => .free (.iob h)⟩

section

variable (lay : DkDevid) (fns : DevidFns) (o : ByteOrder)

/-- `cmdk_devid_read` -/
def devidRead (e : ReadDevid) (dkDevid : Option (List Byte)) : DevidOut :=
  match e.block with
  | none => readErr false e.stale dkDevid []
  | some _ =>
    match e.iob with
    | none => readErr false none dkDevid []
    | some h =>
      match e.xfer with
      | none => readErr false (some h) dkDevid [.alloc (.iob h)]
      | some m =>
        let id := fun i => m (lay.devid + i)
        if m lay.revHi ≠ lay.revMsb ∨ m lay.revLo ≠ lay.revLsb then
          readErr false (some h) dkDevid [.alloc (.iob h)]
        else if lay.getChksum m ≠ blockChksum o m then
          readErr false (some h) dkDevid [.alloc (.iob h)]
        else if fns.valid id = false then
          readErr false (some h) dkDevid [.alloc (.iob h)]
        else
          readErr true (some h) (some (fns.bytes id))
            [.alloc (.iob h), .setDevid (fns.bytes id)]

/-- What `cmdk_devid_fabricate` meets: the device id from `ddi_devid_init`, which is a
    valid one, with its address, the block for it, the buffer and what is in its
    memory, and whether the transfer goes well. -/
structure FabDevid where
  init : Option (Nat × (Nat → Byte))
  init_valid : ∀ d id, init = some (d, id) → fns.valid id = true
  block : Option Nat
  iob : Option Nat
  buf : Nat → Byte
  xfer : Bool

/-- The label `err` of `cmdk_devid_fabricate`. -/
def fabErr (rc : Bool) (handle devid : Option Nat) (dkDevid : Option (List Byte))
    (evs : List DevidEv) : DevidOut :=
  ⟨rc, dkDevid, evs ++ handle.toList.map (fun h => .free (.iob h)) ++
    if rc = false then devid.toList.map fun d => .free (.devid d) else []⟩

/-- The block with a device id, before its checksum is filled in. -/
def fabFront (buf id : Nat → Byte) : Nat → Byte :=
  let m := fun i => if i < 512 then 0 else buf i
  let m := Function.update m lay.revHi lay.revMsb
  let m := Function.update m lay.revLo lay.revLsb
  store m lay.devid (fns.bytes id)

/-- The block that is written. -/
def fabBlock (buf id : Nat → Byte) : Nat → Byte :=
  let m := fabFront lay fns buf id
  lay.formChksum (blockChksum o m) m

/-- `cmdk_devid_fabricate` -/
def devidFabricate (e : FabDevid fns) (dkDevid : Option (List Byte)) : DevidOut :=
  match e.init with
  | none => fabErr false none none dkDevid []
  | some (d, id) =>
    match e.block with
    | none => ⟨false, dkDevid, [.alloc (.devid d)]⟩
    | some _ =>
      -- from here on `rc` is the result of `ddi_devid_init`
      match e.iob with
      | none => fabErr true none (some d) dkDevid [.alloc (.devid d)]
      | some h =>
        if fns.sizeof id > lay.size then
          fabErr true (some h) (some d) dkDevid [.alloc (.devid d), .alloc (.iob h)]
        else
          fabErr true (some h) (some d) (some (fns.bytes id))
            [.alloc (.devid d), .alloc (.iob h),
              .write (load (fabBlock lay fns o e.buf id) 0 512) e.xfer,
              .setDevid (fns.bytes id)]

end

/-! ## What is to be true -/

/-- `dk_devid` has been set to a valid device id. -/
def SetDevid (fns : DevidFns) (out : DevidOut) : Prop :=
  ∃ id, fns.valid id = true ∧ out.dkDevid = some (fns.bytes id) ∧
    .setDevid (fns.bytes id) ∈ out.evs

/-- A call that succeeds if and only if it has done what it is for. Otherwise nothing
    has changed, and all that it has allocated is freed once. It never frees an I/O
    buffer that it has not allocated. -/
structure AllOrNothing (dkDevid : Option (List Byte)) (out : DevidOut) (done : Prop) : Prop where
  success : out.rc = true ↔ done
  unchanged : out.rc = false → out.dkDevid = dkDevid
  freed : out.rc = false → ∀ r, .alloc r ∈ out.evs → out.evs.count (.free r) = 1
  only : ∀ h, .free (.iob h) ∈ out.evs → .alloc (.iob h) ∈ out.evs

/-! ## Reading -/

section

variable {lay : DkDevid} {fns : DevidFns} {o : ByteOrder}

/-- A failure before anything was allocated. -/
theorem allOrNothing_nil (fns : DevidFns) (dkDevid : Option (List Byte)) :
    AllOrNothing dkDevid ⟨false, dkDevid, []⟩ (SetDevid fns ⟨false, dkDevid, []⟩) where
  success := iff_of_false nofun fun ⟨_, _, _, hset⟩ => nomatch hset
  unchanged := fun _ => rfl
  freed := fun _ _ hr => nomatch hr
  only := fun _ hr => nomatch hr

/-- A failure after the buffer was allocated. -/
theorem readErr_failed (h : Nat) (dkDevid : Option (List Byte)) :
    AllOrNothing dkDevid (readErr false (some h) dkDevid [.alloc (.iob h)])
      (SetDevid fns (readErr false (some h) dkDevid [.alloc (.iob h)])) where
  success := iff_of_false nofun fun ⟨_, _, _, hset⟩ => by simp [readErr] at hset
  unchanged := fun _ => rfl
  freed := fun _ r hr => by
    have hr' : r = .iob h := by simpa [readErr] using hr
    rw [hr']
    simp [readErr]
  only := fun h' hh => by simpa [readErr] using hh

/-- `cmdk_devid_read` is right unless the block is not found and there is something in
    `handle` by chance. -/
theorem devidRead_iff (e : ReadDevid) (dkDevid : Option (List Byte)) :
    AllOrNothing dkDevid (devidRead lay fns o e dkDevid)
        (SetDevid fns (devidRead lay fns o e dkDevid)) ↔
      e.block ≠ none ∨ e.stale = none := by
  unfold devidRead
  cases hblk : e.block with
  | none =>
      constructor
      · intro h
        refine Or.inr ?_
        cases hst : e.stale with
        | none => rfl
        | some x =>
            -- it would free what is there
            rw [hst] at h
            exact absurd (h.only x (by simp [readErr])) (by simp [readErr])
      · rintro (hne | hst)
        · exact absurd rfl hne
        · rw [hst]
          exact allOrNothing_nil fns dkDevid
  | some blk =>
      refine iff_of_true ?_ (Or.inl nofun)
      dsimp only
      cases e.iob with
      | none => exact allOrNothing_nil fns dkDevid
      | some h =>
          dsimp only
          cases e.xfer with
          | none => exact readErr_failed h dkDevid
          | some m =>
              dsimp only
              split
              · exact readErr_failed h dkDevid
              split
              · exact readErr_failed h dkDevid
              split
              · exact readErr_failed h dkDevid
              · next hvalid =>
                refine ⟨iff_of_true rfl ⟨_, Bool.eq_true_of_not_eq_false hvalid, rfl, ?_⟩, nofun,
                  nofun, fun h' hh => ?_⟩
                · simp [readErr]
                · simpa [readErr] using hh

/-! ## Fabricating -/

/-- The device id was set, and its block was written. -/
def Fabricated (fns : DevidFns) (out : DevidOut) : Prop :=
  SetDevid fns out ∧ ∃ block, .write block true ∈ out.evs

/-- A call that reports success without having set a device id is not right. -/
theorem not_allOrNothing_of_unset {dkDevid : Option (List Byte)} {out : DevidOut}
    (hrc : out.rc = true) (hset : ∀ b, .setDevid b ∉ out.evs) :
    ¬AllOrNothing dkDevid out (Fabricated fns out) := by
  intro h
  rcases (h.success.mp hrc).1 with ⟨id, -, -, hmem⟩
  exact hset _ hmem

/-- `cmdk_devid_fabricate` is right if it has no device id, or if nothing else fails,
    and the id is not too large. -/
theorem devidFabricate_iff (e : FabDevid fns) (dkDevid : Option (List Byte)) :
    AllOrNothing dkDevid (devidFabricate lay fns o e dkDevid)
        (Fabricated fns (devidFabricate lay fns o e dkDevid)) ↔
      e.init = none ∨ (e.block ≠ none ∧ e.iob ≠ none ∧
        (∀ d id, e.init = some (d, id) → fns.sizeof id ≤ lay.size) ∧ e.xfer = true) := by
  unfold devidFabricate
  cases hinit : e.init with
  | none =>
      refine iff_of_true ?_ (Or.inl rfl)
      have hnil := allOrNothing_nil fns dkDevid
      exact ⟨iff_of_false nofun fun hdone => hnil.success.not.mp nofun hdone.1, hnil.unchanged,
        hnil.freed, hnil.only⟩
  | some did =>
      rcases did with ⟨d, id⟩
      rw [or_iff_right nofun]
      dsimp only
      cases hblk : e.block with
      | none =>
          -- the device id is not freed
          refine iff_of_false (fun h => ?_) fun h => h.1 rfl
          exact absurd (h.freed rfl (.devid d) (by simp)) (by simp)
      | some blk =>
          dsimp only
          cases hiob : e.iob with
          | none =>
              -- success, although nothing was set
              refine iff_of_false (not_allOrNothing_of_unset rfl fun b => ?_) fun h => h.2.1 rfl
              simp [fabErr]
          | some h =>
              dsimp only
              by_cases hsize : fns.sizeof id > lay.size
              · rw [if_pos hsize]
                refine iff_of_false (not_allOrNothing_of_unset rfl fun b => ?_) fun h => ?_
                · simp [fabErr]
                · exact absurd (h.2.2.1 d id rfl) (by omega)
              · rw [if_neg hsize]
                cases hx : e.xfer with
                | false =>
                    refine iff_of_false (fun hall => ?_) fun hall => ?_
                    · rcases (hall.success.mp rfl).2 with ⟨block, hwrite⟩
                      simp [fabErr] at hwrite
                    · cases hall.2.2.2
                | true =>
                    refine iff_of_true ⟨iff_of_true rfl ⟨⟨id, e.init_valid d id hinit, rfl, ?_⟩,
                      load (fabBlock lay fns o e.buf id) 0 512, ?_⟩, nofun, nofun,
                      fun h' hh => ?_⟩ ⟨nofun, nofun, ?_, rfl⟩
                    · simp [fabErr]
                    · simp [fabErr]
                    · simpa [fabErr] using hh
                    · rintro d' id' hid
                      cases hid
                      omega

/-! ## Reading what was fabricated -/

theorem load_congr {m m' : Nat → Byte} {a b n : Nat} (h : ∀ i, i < n → m (a + i) = m' (b + i)) :
    load m a n = load m' b n := by
  unfold load
  exact List.map_congr_left fun i hi => h i (List.mem_range.mp hi)

/-- The checksum is one of the words in front of it. -/
theorem chksumLoop_congr {m m' : Nat → Byte} (n i : Nat) (c : BitVec 32)
    (h : ∀ k, k < 4 * (i + n) → m k = m' k) : chksumLoop o m n i c = chksumLoop o m' n i c := by
  induction n generalizing i c with
  | zero => rfl
  | succ n ih =>
      have hword : blockWord o m i = blockWord o m' i := by
        unfold blockWord
        rw [load_congr fun k hk => h (4 * i + k) (by omega)]
      rw [chksumLoop, chksumLoop, hword]
      exact ih (i + 1) _ fun k hk => h k (by omega)

theorem blockChksum_congr {m m' : Nat → Byte} (h : ∀ k, k < chksumAt → m k = m' k) :
    blockChksum o m = blockChksum o m' :=
  chksumLoop_congr _ 0 0 fun k hk => h k (by unfold chksumAt; omega)

/-- In front of the checksum the block is as it was before. -/
theorem fabBlock_front (hlay : lay.Lawful) (buf id : Nat → Byte) {i : Nat} (hi : i < chksumAt) :
    fabBlock lay fns o buf id i = fabFront lay fns buf id i :=
  hlay.form_front _ _ i hi

theorem fabFront_rev (hlay : lay.Lawful) (buf id : Nat → Byte) :
    fabFront lay fns buf id lay.revHi = lay.revMsb ∧
      fabFront lay fns buf id lay.revLo = lay.revLsb := by
  unfold fabFront
  rw [store_outside (Or.inl hlay.revHi_lt), store_outside (Or.inl hlay.revLo_lt)]
  refine ⟨?_, Function.update_self ..⟩
  rw [Function.update_of_ne hlay.rev_ne]
  exact Function.update_self ..

theorem fabFront_devid (buf id : Nat → Byte) {i : Nat} (hi : i < fns.sizeof id) :
    fabFront lay fns buf id (lay.devid + i) = id i := by
  have hlen : i < (fns.bytes id).length := by
    unfold DevidFns.bytes
    rw [length_load]
    exact hi
  unfold fabFront
  rw [store_at hlen]
  simp [DevidFns.bytes, load]

/-- What was fabricated and written is read back, whatever lies behind the block in
    memory then. -/
theorem devidRead_fabricated (hlay : lay.Lawful) (hfns : fns.Local) {buf id m : Nat → Byte}
    (hvalid : fns.valid id = true) (hsize : fns.sizeof id ≤ lay.size)
    (hm : ∀ i, i < 512 → m i = fabBlock lay fns o buf id i) {e : ReadDevid}
    (hblk : e.block ≠ none) {h : Nat} (hiob : e.iob = some h) (hxfer : e.xfer = some m)
    (dkDevid : Option (List Byte)) :
    (devidRead lay fns o e dkDevid).rc = true ∧
      (devidRead lay fns o e dkDevid).dkDevid = some (fns.bytes id) := by
  have hend := hlay.devid_end
  have hfront : ∀ i, i < chksumAt → m i = fabFront lay fns buf id i := fun i hi =>
    (hm i (Nat.lt_trans hi (by unfold chksumAt; omega))).trans (fabBlock_front hlay buf id hi)
  have hcopy : ∀ i, i < fns.sizeof id → id i = m (lay.devid + i) := fun i hi => by
    rw [hfront _ (by omega), fabFront_devid buf id hi]
  have hid := hfns id (fun i => m (lay.devid + i)) hcopy
  have hbytes : fns.bytes (fun i => m (lay.devid + i)) = fns.bytes id := by
    unfold DevidFns.bytes
    rw [← hid.2]
    exact (load_congr fun i hi => by rw [Nat.zero_add]; exact hcopy i hi).symm
  have hrev := @fabFront_rev lay fns hlay buf id
  have hhi : m lay.revHi = lay.revMsb := by
    rw [hfront _ (by have := hlay.revHi_lt; omega)]
    exact hrev.1
  have hlo : m lay.revLo = lay.revLsb := by
    rw [hfront _ (by have := hlay.revLo_lt; omega)]
    exact hrev.2
  -- the writer has computed the checksum before it was there
  have hsum : lay.getChksum m = blockChksum o m := by
    rw [hlay.get_block m _ hm, fabBlock, hlay.get_form]
    exact (blockChksum_congr hfront).symm
  obtain ⟨blk, hblk'⟩ := Option.ne_none_iff_exists'.mp hblk
  unfold devidRead
  rw [hblk', hiob, hxfer]
  dsimp only
  rw [if_neg (by rw [not_or, not_not, not_not]; exact ⟨hhi, hlo⟩), if_neg (not_not.mpr hsum),
    if_neg (by rw [← hid.1, hvalid]; exact nofun), hbytes]
  exact ⟨rfl, rfl⟩

/-- The block that a fabrication has written is that of its device id, which was not too
    large then. -/
theorem devidFabricate_write {f : FabDevid fns} {dkDevid : Option (List Byte)} {d : Nat}
    {id : Nat → Byte} (hinit : f.init = some (d, id)) {block : List Byte} {ok : Bool}
    (h : .write block ok ∈ (devidFabricate lay fns o f dkDevid).evs) :
    block = load (fabBlock lay fns o f.buf id) 0 512 ∧ fns.sizeof id ≤ lay.size := by
  unfold devidFabricate at h
  rw [hinit] at h
  dsimp only at h
  cases hblk : f.block with
  | none =>
      rw [hblk] at h
      simp at h
  | some blk =>
      rw [hblk] at h
      dsimp only at h
      cases hiob : f.iob with
      | none =>
          rw [hiob] at h
          simp [fabErr] at h
      | some x =>
          rw [hiob] at h
          dsimp only at h
          by_cases hsize : fns.sizeof id > lay.size
          · rw [if_pos hsize] at h
            simp [fabErr] at h
          · rw [if_neg hsize] at h
            have hmem : block = load (fabBlock lay fns o f.buf id) 0 512 ∧ ok = f.xfer := by
              simpa [fabErr] using h
            exact ⟨hmem.1, Nat.not_lt.mp hsize⟩

theorem eq_of_load_eq {m m' : Nat → Byte} {n : Nat} (h : load m 0 n = load m' 0 n) {i : Nat}
    (hi : i < n) : m i = m' i := by
  unfold load at h
  have hat := List.map_inj_left.mp h i (List.mem_range.mpr hi)
  rwa [Nat.zero_add] at hat

/-- `cmdk_devid_read` is right unless it has no block, and there is something in its
    handle by chance. `cmdk_devid_fabricate` is right if it gets no device id, or if all
    that it calls succeeds and the id is not too large. And what was written for a
    device id is read back. -/
theorem devid_all_or_nothing_iff (lay : DkDevid) (fns : DevidFns) (o : ByteOrder)
    (hlay : lay.Lawful) (hfns : fns.Local) (dkDevid : Option (List Byte)) :
    (∀ e : ReadDevid, AllOrNothing dkDevid (devidRead lay fns o e dkDevid)
        (SetDevid fns (devidRead lay fns o e dkDevid)) ↔ e.block ≠ none ∨ e.stale = none) ∧
    (∀ e : FabDevid fns, AllOrNothing dkDevid (devidFabricate lay fns o e dkDevid)
        (Fabricated fns (devidFabricate lay fns o e dkDevid)) ↔
      e.init = none ∨ (e.block ≠ none ∧ e.iob ≠ none ∧
        (∀ d id, e.init = some (d, id) → fns.sizeof id ≤ lay.size) ∧ e.xfer = true)) ∧
    ∀ (f : FabDevid fns) d id block ok, f.init = some (d, id) →
      .write block ok ∈ (devidFabricate lay fns o f dkDevid).evs →
      ∀ (e : ReadDevid) m, e.block ≠ none → e.iob ≠ none → e.xfer = some m →
        load m 0 512 = block →
        (devidRead lay fns o e dkDevid).rc = true ∧
          (devidRead lay fns o e dkDevid).dkDevid = some (fns.bytes id) := by
  refine ⟨fun e => devidRead_iff e dkDevid, fun e => devidFabricate_iff e dkDevid, ?_⟩
  intro f d id block ok hinit hwrite e m hblk hiob hxfer hread
  obtain ⟨h, hh⟩ := Option.ne_none_iff_exists'.mp hiob
  rcases devidFabricate_write hinit hwrite with ⟨hblock, hsize⟩
  rw [hblock] at hread
  exact devidRead_fabricated hlay hfns (f.init_valid d id hinit) hsize
    (fun i hi => eq_of_load_eq hread hi) hblk hh hxfer dkDevid

end

/-! ## A layout -/

/-- A device id of 505 bytes at most behind the revision and the flags, and the checksum
    at the end, its highest byte first. -/
def bigChksum : DkDevid where
  revHi := 0
  revLo := 1
  devid := 3
  size := 505
  revMsb := 0
  revLsb := 1
  getChksum := fun m => BitVec.ofNat 32 (ByteOrder.big.val (load m chksumAt 4))
  formChksum := fun c m => store m chksumAt (ByteOrder.big.bytes 4 c.toNat)

theorem bigChksum_lawful : bigChksum.Lawful where
  rev_ne := by decide
  revHi_lt := by decide
  revLo_lt := by decide
  devid_end := by decide
  form_front := fun _ _ _ hi => store_outside (Or.inl hi)
  get_form := fun c m => by
    have hload : load (store m chksumAt (ByteOrder.big.bytes 4 c.toNat)) chksumAt 4 =
        ByteOrder.big.bytes 4 c.toNat := by
      have h := load_store m chksumAt (ByteOrder.big.bytes 4 c.toNat)
      rwa [ByteOrder.length_bytes] at h
    simp only [bigChksum]
    rw [hload, ByteOrder.val_bytes, Nat.mod_eq_of_lt (show c.toNat < 256 ^ 4 from c.isLt),
      BitVec.ofNat_toNat, BitVec.setWidth_eq]
  get_block := fun m m' h => by
    have hload : load m chksumAt 4 = load m' chksumAt 4 :=
      load_congr fun i hi => h (chksumAt + i) (by unfold chksumAt; omega)
    simp only [bigChksum, hload]

/-- A device id has the letters `id`, a revision, a type, the length of the rest, and the
    name of the driver, in twelve bytes. -/
def headerFns : DevidFns where
  valid := fun m => m 0 = 0x69 ∧ m 1 = 0x64 ∧ m 2 = 0 ∧ m 3 = 1 ∧ (m 4 ≠ 0 ∨ m 5 ≠ 0)
  sizeof := fun m => 12 + (256 * (m 6).toNat + (m 7).toNat)

theorem headerFns_local : headerFns.Local := by
  intro m m' h
  have hat : ∀ i, i < 12 → m i = m' i := fun i hi =>
    h i (Nat.lt_of_lt_of_le hi (Nat.le_add_right _ _))
  simp only [headerFns]
  rw [hat 0 (by omega), hat 1 (by omega), hat 2 (by omega), hat 3 (by omega), hat 4 (by omega),
    hat 5 (by omega), hat 6 (by omega), hat 7 (by omega)]
  exact ⟨rfl, rfl⟩

/-- A fabricated device id of four bytes. -/
def fabId : Nat → Byte :=
  store (fun _ => 0) 0 [0x69, 0x64, 0, 1, 0, 3, 0, 4, 0x63, 0x6d, 0x64, 0x6b, 1, 2, 3, 4]

theorem fabId_valid {n : Nat} :
    ∀ d id, some (n, fabId) = some (d, id) → headerFns.valid id = true := by
  intro d id h
  cases h
  decide

/-- Everything succeeds. -/
def goodFab : FabDevid headerFns :=
  ⟨some (1, fabId), fabId_valid, some 100, some 2, fun _ => 0, true⟩

/-- The block of `goodFab`, as it is read later. -/
def goodRead : ReadDevid :=
  ⟨some 100, some 2, some (fabBlock bigChksum headerFns .big goodFab.buf fabId), some 3⟩

/-- A device id that is fabricated and read back. -/
theorem devid_all_or_nothing_goodFab :
    AllOrNothing none (devidFabricate bigChksum headerFns .big goodFab none)
        (Fabricated headerFns (devidFabricate bigChksum headerFns .big goodFab none)) ∧
      AllOrNothing none (devidRead bigChksum headerFns .big goodRead none)
        (SetDevid headerFns (devidRead bigChksum headerFns .big goodRead none)) ∧
      (devidRead bigChksum headerFns .big goodRead none).dkDevid =
        some (headerFns.bytes fabId) := by
  have hall := devid_all_or_nothing_iff bigChksum headerFns .big bigChksum_lawful headerFns_local
    none
  have hsize : ¬headerFns.sizeof fabId > bigChksum.size := by decide
  have hwrite : .write (load (fabBlock bigChksum headerFns .big goodFab.buf fabId) 0 512) true ∈
      (devidFabricate bigChksum headerFns .big goodFab none).evs := by
    simp [devidFabricate, goodFab, fabErr, hsize]
  refine ⟨(hall.2.1 goodFab).mpr (Or.inr ⟨nofun, nofun, ?_, rfl⟩),
    (hall.1 goodRead).mpr (Or.inl nofun), ?_⟩
  · intro d id h
    cases h
    decide
  · exact (hall.2.2 goodFab 1 fabId _ true rfl hwrite goodRead _ nofun nofun rfl rfl).2

/-- The block is not found, and there is something in the handle. -/
def staleHandle : ReadDevid := ⟨none, none, none, some 7⟩

/-- The block is not found, the buffer is not allocated, or the write fails. -/
def badFab (block iob : Option Nat) (xfer : Bool) : FabDevid headerFns :=
  ⟨some (1, fabId), fabId_valid, block, iob, fun _ => 0, xfer⟩

/-- What goes wrong: a handle is freed that was never allocated, a device id is not freed,
    and success is reported without a device id, and without one on the disk. -/
theorem devid_not_all_or_nothing :
    ¬AllOrNothing none (devidRead bigChksum headerFns .big staleHandle none)
      (SetDevid headerFns (devidRead bigChksum headerFns .big staleHandle none)) ∧
    ∀ e ∈ [badFab none (some 2) true, badFab (some 100) none true,
        badFab (some 100) (some 2) false],
      ¬AllOrNothing none (devidFabricate bigChksum headerFns .big e none)
        (Fabricated headerFns (devidFabricate bigChksum headerFns .big e none)) := by
  refine ⟨fun h => ?_, fun e he h => ?_⟩
  · rcases (devidRead_iff _ _).mp h with hblk | hst
    · exact hblk rfl
    · cases hst
  · rcases (devidFabricate_iff _ _).mp h with hinit | ⟨hblk, hiob, -, hxfer⟩
    · simp only [List.mem_cons, List.not_mem_nil, or_false] at he
      rcases he with rfl | rfl | rfl
      · cases hinit
      · cases hinit
      · cases hinit
    · simp only [List.mem_cons, List.not_mem_nil, or_false] at he
      rcases he with rfl | rfl | rfl
      · exact hblk rfl
      · exact hiob rfl
      · cases hxfer

end Disk

end Sil3112
