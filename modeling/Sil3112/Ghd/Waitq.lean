import Mathlib.Data.List.Nodup
import Mathlib.Logic.Function.Basic
import Sil3112.Ghd.Queue

/-!
# The Wait Queues

The two levels of `ghd_waitq.c`. A request is linked on the queue of its
device, promoted from there to the queue of the HBA while the device's
throttle allows it, and taken from there when it is handed to the HBA. Its
`cmd_waitq_level` goes 1, 2, 3 along the way and says which of the two
`Q_nactive` counters it is charged to.

Each operation is one pass of the source under the wait queue mutex. The loop
of `sol11ghd_waitq_shuffle_up` is given by its body, `shuffleUp`, which
promotes one request or says why the loop ends; so is the loop of
`sol11ghd_waitq_process_and_mutex_hold`, whose body drops the mutex in the
middle and therefore comes as `take` and `requeue`.

`WaitqOk` is the accounting invariant. It is relative to the list of requests
the HBA has been handed and not yet completed, which the wait queue itself
does not record. Every operation keeps it, and says how the set of waiting
requests changes.

## Main definitions

* `Q`, `Gdev`, `Waitq`: A queue with its throttle, a device, and the whole.
* `link`, `shuffleUp`, `take`, `requeue`, `delete`: The operations.
* `Blocked`: The reasons the processing loop stops without taking a request.
* `Waiting`: Linked on one of the queues a request can wait on.
* `WaitqOk`: Levels, counters and queues agree.

## Theorems

* `WaitqOk.link`, `WaitqOk.shuffleUp`, `WaitqOk.take`, `WaitqOk.requeue`,
  `WaitqOk.delete`: Each operation keeps the accounting.
* `shuffleUp_throttle`: A promotion happens only under the device's throttle.
-/

namespace Sil3112

namespace Ghd

/-- A `gcmd_t`, by its address. -/
abbrev Gcmd := Nat

/-- A `gdev_t`, by its address. -/
abbrev GdevId := Nat

/-- `Q_t`: the waiting requests, and how many of those released may be
    outstanding at once. -/
structure Q where
  qhead : List Gcmd
  nactive : Int
  maxactive : Int

/-- `gdev_t`: a device's wait queue and its number of attached instances. -/
structure Gdev where
  waitq : Q
  ninstances : Nat

/-- The wait queue part of a `ccc_t`, with the `cmd_waitq_level` of every
    request. -/
structure Waitq where
  dev : GdevId → Gdev
  hba : Q
  frozen : Bool
  held : Bool
  level : Gcmd → Nat

namespace Waitq

variable (gdevOf : Gcmd → GdevId)

/-- Replace the wait queue of one device. -/
def setDev (w : Waitq) (d : GdevId) (q : Q) : Waitq :=
  { w with dev := Function.update w.dev d { w.dev d with waitq := q } }

/-- `sol11ghd_transport`: set the level and link the request at the tail of
    its device's queue. -/
def link (w : Waitq) (g : Gcmd) : Waitq :=
  let q := (w.dev (gdevOf g)).waitq
  { w.setDev (gdevOf g) { q with qhead := l2Add q.qhead g } with
    level := Function.update w.level g 1 }

/-- The body of the loop of `sol11ghd_waitq_shuffle_up`: `none` where the
    loop returns, otherwise the head of the device's queue goes to the tail of
    the HBA's. -/
def shuffleUp (w : Waitq) (d : GdevId) : Option Waitq :=
  let q := (w.dev d).waitq
  if q.nactive ≥ q.maxactive then none
  else if (w.dev d).ninstances > 1 ∧ q.nactive > 0 then none
  else match l2RemoveHead q.qhead with
    | none => none
    | some (g, rest) =>
      some { w.setDev d { q with qhead := rest, nactive := q.nactive + 1 } with
        hba := { w.hba with qhead := l2Add w.hba.qhead g }
        level := Function.update w.level g (w.level g + 1) }

/-- The tests of `sol11ghd_waitq_process_and_mutex_hold` that end its loop
    before a request is taken. A frozen queue may also have thawed. -/
def Blocked (w : Waitq) : Prop :=
  w.hba.qhead = [] ∨ w.hba.nactive ≥ w.hba.maxactive ∨ w.held = true ∨ w.frozen = true

instance (w : Waitq) : Decidable w.Blocked := by
  unfold Blocked
  infer_instance

/-- `sol11ghd_waitq_process_and_mutex_hold` up to the start of a request:
    the head of the HBA's queue is charged to the HBA. A frozen queue gets
    here only once its delay is over, and is thawed. -/
def take (w : Waitq) : Option (Gcmd × Waitq) :=
  match l2RemoveHead w.hba.qhead with
  | none => none
  | some (g, rest) =>
    if w.hba.nactive ≥ w.hba.maxactive then none
    else if w.held then none
    else some (g, { w with
      hba := { w.hba with qhead := rest, nactive := w.hba.nactive + 1 }
      frozen := false
      level := Function.update w.level g (w.level g + 1) })

/-- `sol11ghd_waitq_process_and_mutex_hold` when the HBA rejects the request:
    the charge is undone and the request goes back to the head. -/
def requeue (w : Waitq) (g : Gcmd) : Waitq :=
  { w with
    hba := { w.hba with qhead := l2AddHead w.hba.qhead g, nactive := w.hba.nactive - 1 }
    level := Function.update w.level g (w.level g - 1) }

/-- `L2_delete` of a request's link: it comes off whichever wait queue it is
    on. -/
def unlink (w : Waitq) (g : Gcmd) : Waitq :=
  { w with
    dev := fun d => { w.dev d with
      waitq := { (w.dev d).waitq with qhead := l2Delete (w.dev d).waitq.qhead g } }
    hba := { w.hba with qhead := l2Delete w.hba.qhead g } }

/-- One request less outstanding on a device. -/
def devDec (w : Waitq) (d : GdevId) : Waitq :=
  w.setDev d { (w.dev d).waitq with nactive := (w.dev d).waitq.nactive - 1 }

/-- `sol11ghd_waitq_delete`, without the final shuffle: the level says which
    queue and which counters a request leaves. The level stays. -/
def delete (w : Waitq) (g : Gcmd) : Waitq :=
  match w.level g with
  | 0 => w
  | 1 => w.unlink g
  | 2 => (w.unlink g).devDec (gdevOf g)
  | 3 =>
    let w' := w.devDec (gdevOf g)
    { w' with hba := { w'.hba with nactive := w'.hba.nactive - 1 } }
  | _ => w

/-- The request is linked on its device's queue or on the HBA's. -/
def Waiting (w : Waitq) (g : Gcmd) : Prop :=
  g ∈ (w.dev (gdevOf g)).waitq.qhead ∨ g ∈ w.hba.qhead

/-- How many of the requests on a list are for a given device. -/
def onDev (d : GdevId) (l : List Gcmd) : Int :=
  (l.countP (fun g => decide (gdevOf g = d)) : Int)

/-- The accounting invariant. `act` lists the requests handed to the HBA and
    not yet completed. -/
structure WaitqOk (act : List Gcmd) (w : Waitq) : Prop where
  dev_mem : ∀ d g, g ∈ (w.dev d).waitq.qhead → gdevOf g = d ∧ w.level g = 1
  dev_nodup : ∀ d, (w.dev d).waitq.qhead.Nodup
  hba_mem : ∀ g, g ∈ w.hba.qhead → w.level g = 2
  hba_nodup : w.hba.qhead.Nodup
  act_mem : ∀ g, g ∈ act → w.level g = 3
  act_nodup : act.Nodup
  dev_nactive : ∀ d, (w.dev d).waitq.nactive = onDev gdevOf d w.hba.qhead + onDev gdevOf d act
  hba_nactive : w.hba.nactive = act.length
  hba_max : w.hba.nactive ≤ w.hba.maxactive

variable {gdevOf}

theorem onDev_cons (d : GdevId) (g : Gcmd) (l : List Gcmd) :
    onDev gdevOf d (g :: l) = onDev gdevOf d l + if gdevOf g = d then 1 else 0 := by
  unfold onDev
  rw [List.countP_cons]
  by_cases h : gdevOf g = d
  · simp only [h, decide_true, if_true]
    omega
  · simp only [h, decide_false, Bool.false_eq_true, if_false, Nat.add_zero, Int.add_zero]

theorem onDev_l2Add (d : GdevId) (g : Gcmd) (l : List Gcmd) :
    onDev gdevOf d (l2Add l g) = onDev gdevOf d l + if gdevOf g = d then 1 else 0 := by
  rw [← onDev_cons]
  unfold onDev l2Add
  rw [(List.perm_append_singleton g l).countP_eq]

theorem onDev_erase (d : GdevId) {g : Gcmd} {l : List Gcmd} (h : g ∈ l) :
    onDev gdevOf d l = onDev gdevOf d (l.erase g) + if gdevOf g = d then 1 else 0 := by
  rw [← onDev_cons]
  unfold onDev
  rw [(List.perm_cons_erase h).countP_eq]

theorem onDev_nonneg (d : GdevId) (l : List Gcmd) : 0 ≤ onDev gdevOf d l := by
  unfold onDev
  omega

theorem setDev_dev (w : Waitq) (d d' : GdevId) (q : Q) :
    (w.setDev d q).dev d' = if d' = d then { w.dev d with waitq := q } else w.dev d' := by
  simp only [setDev, Function.update_apply]

@[simp] theorem setDev_hba (w : Waitq) (d : GdevId) (q : Q) : (w.setDev d q).hba = w.hba :=
  rfl

@[simp] theorem setDev_level (w : Waitq) (d : GdevId) (q : Q) :
    (w.setDev d q).level = w.level :=
  rfl

theorem shuffleUp_eq_some {w w' : Waitq} {d : GdevId} (h : w.shuffleUp d = some w') :
    ∃ g rest, (w.dev d).waitq.qhead = g :: rest ∧
      (w.dev d).waitq.nactive < (w.dev d).waitq.maxactive ∧
      ((w.dev d).ninstances > 1 → (w.dev d).waitq.nactive ≤ 0) ∧
      w' = { w.setDev d { (w.dev d).waitq with
                qhead := rest, nactive := (w.dev d).waitq.nactive + 1 } with
              hba := { w.hba with qhead := l2Add w.hba.qhead g }
              level := Function.update w.level g (w.level g + 1) } := by
  unfold shuffleUp at h
  simp only at h
  split at h
  · cases h
  · next hmax =>
    split at h
    · cases h
    · next hinst =>
      split at h
      · cases h
      · next g rest hq =>
        refine ⟨g, rest, l2RemoveHead_eq_some.1 hq, by omega, fun hi => ?_, ?_⟩
        · by_contra hpos
          exact hinst ⟨hi, by omega⟩
        · exact (Option.some.inj h).symm

theorem take_eq_some {w w' : Waitq} {g : Gcmd} (h : w.take = some (g, w')) :
    ∃ rest, w.hba.qhead = g :: rest ∧ w.hba.nactive < w.hba.maxactive ∧
      w' = { w with
        hba := { w.hba with qhead := rest, nactive := w.hba.nactive + 1 }
        frozen := false
        level := Function.update w.level g (w.level g + 1) } := by
  unfold take at h
  split at h
  · cases h
  · next g' rest hq =>
    split at h
    · cases h
    · next hmax =>
      split at h
      · cases h
      · rw [Option.some.injEq, Prod.mk.injEq] at h
        rcases h with ⟨rfl, rfl⟩
        exact ⟨rest, l2RemoveHead_eq_some.1 hq, by omega, rfl⟩

namespace WaitqOk

variable {act : List Gcmd} {w w' : Waitq}

/-- The levels keep the queues and the active list apart. -/
theorem level_of_waiting (h : WaitqOk gdevOf act w) {g : Gcmd} (hg : w.Waiting gdevOf g) :
    w.level g = 1 ∨ w.level g = 2 := by
  rcases hg with hg | hg
  · exact Or.inl (h.dev_mem _ g hg).2
  · exact Or.inr (h.hba_mem g hg)

theorem not_waiting_of_act (h : WaitqOk gdevOf act w) {g : Gcmd} (hg : g ∈ act) :
    ¬ w.Waiting gdevOf g := by
  intro hw
  have h3 := h.act_mem g hg
  rcases h.level_of_waiting hw with h1 | h2 <;> omega

theorem waiting_of_mem_dev (h : WaitqOk gdevOf act w) {d : GdevId} {g : Gcmd}
    (hg : g ∈ (w.dev d).waitq.qhead) : w.Waiting gdevOf g := by
  refine Or.inl ?_
  rw [(h.dev_mem d g hg).1]
  exact hg

theorem link (h : WaitqOk gdevOf act w) {g : Gcmd} (hw : ¬ w.Waiting gdevOf g) (ha : g ∉ act) :
    WaitqOk gdevOf act (w.link gdevOf g) := by
  have hne : ∀ x, x ∈ w.hba.qhead ∨ x ∈ act → x ≠ g := by
    rintro x hx rfl
    rcases hx with hx | hx
    · exact hw (Or.inr hx)
    · exact ha hx
  constructor
  · intro d x hx
    simp only [Waitq.link, setDev_dev] at hx ⊢
    split at hx
    · next hd =>
      -- the queue that `g` is put at the end of
      rcases mem_l2Add.1 hx with hx | rfl
      · have hxg : x ≠ g := by
          rintro rfl
          exact hw (Or.inl hx)
        rw [Function.update_of_ne hxg]
        rw [hd]
        exact h.dev_mem _ x hx
      · exact ⟨hd.symm, Function.update_self ..⟩
    · have hxg : x ≠ g := by
        rintro rfl
        exact hw (h.waiting_of_mem_dev hx)
      rw [Function.update_of_ne hxg]
      exact h.dev_mem d x hx
  · intro d
    simp only [Waitq.link, setDev_dev]
    split
    · exact nodup_l2Add (h.dev_nodup _) (fun hx => hw (Or.inl hx))
    · exact h.dev_nodup d
  · intro x hx
    simp only [Waitq.link]
    rw [Function.update_of_ne (hne x (Or.inl hx))]
    exact h.hba_mem x hx
  · exact h.hba_nodup
  · intro x hx
    simp only [Waitq.link]
    rw [Function.update_of_ne (hne x (Or.inr hx))]
    exact h.act_mem x hx
  · exact h.act_nodup
  · intro d
    simp only [Waitq.link, setDev_dev]
    split
    · next hd =>
      rw [hd]
      exact h.dev_nactive _
    · exact h.dev_nactive d
  · exact h.hba_nactive
  · exact h.hba_max

theorem waiting_link {g x : Gcmd} :
    (w.link gdevOf g).Waiting gdevOf x ↔ x = g ∨ w.Waiting gdevOf x := by
  unfold Waiting
  simp only [Waitq.link, setDev_dev]
  by_cases hd : gdevOf x = gdevOf g
  · simp only [hd, if_true, mem_l2Add]
    constructor
    · rintro ((hx | hx) | hx)
      · exact Or.inr (Or.inl hx)
      · exact Or.inl hx
      · exact Or.inr (Or.inr hx)
    · rintro (hx | hx | hx)
      · exact Or.inl (Or.inr hx)
      · exact Or.inl (Or.inl hx)
      · exact Or.inr hx
  · simp only [hd, if_false]
    have hne : x ≠ g := fun hx => hd (by rw [hx])
    simp only [hne, false_or, setDev_hba]

theorem shuffleUp (h : WaitqOk gdevOf act w) {d : GdevId} (hs : w.shuffleUp d = some w') :
    WaitqOk gdevOf act w' := by
  rcases shuffleUp_eq_some hs with ⟨g, rest, hq, -, -, rfl⟩
  have hg : g ∈ (w.dev d).waitq.qhead := by
    rw [hq]
    exact List.mem_cons_self
  have hgd := (h.dev_mem d g hg).1
  have hg1 := (h.dev_mem d g hg).2
  have hnd : (g :: rest).Nodup := hq ▸ h.dev_nodup d
  -- The level tells the lists apart: `g` has level 1, and nothing on the other lists has.
  have hne : ∀ x, x ∈ w.hba.qhead ∨ x ∈ act → x ≠ g := by
    rintro x hx rfl
    rcases hx with hx | hx
    · have := h.hba_mem x hx
      omega
    · have := h.act_mem x hx
      omega
  constructor
  · intro d' x hx
    simp only [setDev_dev] at hx ⊢
    have hxg : x ≠ g := by
      rintro rfl
      split at hx
      · exact (List.nodup_cons.1 hnd).1 hx
      · next hd' => exact hd' ((h.dev_mem d' x hx).1.symm.trans hgd)
    rw [Function.update_of_ne hxg]
    split at hx
    · next hd' =>
      rw [hd']
      exact h.dev_mem d x (hq ▸ List.mem_cons_of_mem g hx)
    · exact h.dev_mem d' x hx
  · intro d'
    simp only [setDev_dev]
    split
    · exact (List.nodup_cons.1 hnd).2
    · exact h.dev_nodup d'
  · intro x hx
    rcases mem_l2Add.1 hx with hx | rfl
    · simp only
      rw [Function.update_of_ne (hne x (Or.inl hx))]
      exact h.hba_mem x hx
    · simp only [Function.update_self]
      omega
  · exact nodup_l2Add h.hba_nodup (fun hx => hne g (Or.inl hx) rfl)
  · intro x hx
    simp only
    rw [Function.update_of_ne (hne x (Or.inr hx))]
    exact h.act_mem x hx
  · exact h.act_nodup
  · intro d'
    -- The count of the device goes up, and so do its requests on the queue of the HBA.
    have hn := h.dev_nactive d'
    simp only [setDev_dev, onDev_l2Add, hgd]
    by_cases hd' : d' = d
    · subst hd'
      simp only [if_true]
      omega
    · have hd'' : ¬ d = d' := fun he => hd' he.symm
      simp only [hd', hd'', if_false]
      omega
  · exact h.hba_nactive
  · exact h.hba_max

theorem waiting_shuffleUp (h : WaitqOk gdevOf act w) {d : GdevId}
    (hs : w.shuffleUp d = some w') {x : Gcmd} :
    w'.Waiting gdevOf x ↔ w.Waiting gdevOf x := by
  rcases shuffleUp_eq_some hs with ⟨g, rest, hq, -, -, rfl⟩
  have hgd : gdevOf g = d := by
    refine (h.dev_mem d g ?_).1
    rw [hq]
    exact List.mem_cons_self
  unfold Waiting
  simp only [setDev_dev, mem_l2Add]
  by_cases hd : gdevOf x = d
  · simp only [hd, if_true, hq, List.mem_cons]
    constructor
    · rintro (hx | hx | hx)
      · exact Or.inl (Or.inr hx)
      · exact Or.inr hx
      · exact Or.inl (Or.inl hx)
    · rintro ((hx | hx) | hx)
      · exact Or.inr (Or.inr hx)
      · exact Or.inl hx
      · exact Or.inr (Or.inl hx)
  · simp only [hd, if_false]
    have hne : x ≠ g := fun hx => hd (by rw [hx, hgd])
    simp only [hne, or_false]

theorem mem_of_take {g : Gcmd} (hs : w.take = some (g, w')) : g ∈ w.hba.qhead := by
  rcases take_eq_some hs with ⟨rest, hq, -, -⟩
  rw [hq]
  exact List.mem_cons_self

theorem take (h : WaitqOk gdevOf act w) {g : Gcmd} (hs : w.take = some (g, w')) :
    WaitqOk gdevOf (g :: act) w' := by
  rcases take_eq_some hs with ⟨rest, hq, hmax, rfl⟩
  have hg2 := h.hba_mem g (mem_of_take hs)
  have hnd : (g :: rest).Nodup := hq ▸ h.hba_nodup
  -- What the HBA has is of level 3.
  have hga : g ∉ act := by
    intro ha
    have := h.act_mem g ha
    omega
  constructor
  · intro d x hx
    have hxg : x ≠ g := by
      rintro rfl
      have := (h.dev_mem d x hx).2
      omega
    simp only
    rw [Function.update_of_ne hxg]
    exact h.dev_mem d x hx
  · exact h.dev_nodup
  · intro x hx
    have hxg : x ≠ g := by
      rintro rfl
      exact (List.nodup_cons.1 hnd).1 hx
    simp only
    rw [Function.update_of_ne hxg]
    exact h.hba_mem x (hq ▸ List.mem_cons_of_mem g hx)
  · exact (List.nodup_cons.1 hnd).2
  · intro x hx
    simp only
    by_cases hxg : x = g
    · rw [hxg, Function.update_self]
      omega
    · rw [Function.update_of_ne hxg]
      exact h.act_mem x ((List.mem_cons.1 hx).resolve_left hxg)
  · exact List.nodup_cons.2 ⟨hga, h.act_nodup⟩
  · intro d
    -- For its device the request counts as before: it goes from one list to the other.
    have hn := h.dev_nactive d
    rw [hq, onDev_cons] at hn
    rw [onDev_cons]
    simp only at hn ⊢
    omega
  · have hn := h.hba_nactive
    simp only [List.length_cons] at hn ⊢
    omega
  · simp only
    omega

theorem waiting_take (h : WaitqOk gdevOf act w) {g : Gcmd} (hs : w.take = some (g, w'))
    {x : Gcmd} : w'.Waiting gdevOf x ↔ x ≠ g ∧ w.Waiting gdevOf x := by
  have hg2 := h.hba_mem g (mem_of_take hs)
  rcases take_eq_some hs with ⟨rest, hq, -, rfl⟩
  have hnd : (g :: rest).Nodup := hq ▸ h.hba_nodup
  unfold Waiting
  simp only [hq, List.mem_cons]
  by_cases hxg : x = g
  · subst hxg
    have hd : x ∉ (w.dev (gdevOf x)).waitq.qhead := by
      intro hx
      have := (h.dev_mem _ x hx).2
      omega
    simp only [hd, (List.nodup_cons.1 hnd).1, or_self, ne_eq, not_true, false_and]
  · simp only [hxg, false_or, ne_eq, not_false_eq_true, true_and]

theorem requeue (h : WaitqOk gdevOf act w) {g : Gcmd} (hg : g ∈ act) :
    WaitqOk gdevOf (act.erase g) (w.requeue g) := by
  have hg3 := h.act_mem g hg
  have hne : ∀ x, w.Waiting gdevOf x → x ≠ g := by
    rintro x hx rfl
    exact h.not_waiting_of_act hg hx
  constructor
  · intro d x hx
    simp only [Waitq.requeue]
    rw [Function.update_of_ne (hne x (h.waiting_of_mem_dev hx))]
    exact h.dev_mem d x hx
  · exact h.dev_nodup
  · intro x hx
    simp only [Waitq.requeue] at hx ⊢
    -- The request is at the head of the queue again, with level 2.
    rcases mem_l2AddHead.1 hx with rfl | hx
    · rw [Function.update_self]
      omega
    · rw [Function.update_of_ne (hne x (Or.inr hx))]
      exact h.hba_mem x hx
  · exact nodup_l2AddHead h.hba_nodup (fun hx => hne g (Or.inr hx) rfl)
  · intro x hx
    have hx' := (h.act_nodup.mem_erase_iff).1 hx
    simp only [Waitq.requeue]
    rw [Function.update_of_ne hx'.1]
    exact h.act_mem x hx'.2
  · exact h.act_nodup.erase g
  · intro d
    -- It still counts for its device, and for the HBA no more.
    have hn := h.dev_nactive d
    rw [onDev_erase d hg] at hn
    simp only [Waitq.requeue, l2AddHead, onDev_cons]
    omega
  · have hn := h.hba_nactive
    have hl := List.length_erase_of_mem hg
    have hpos := List.length_pos_of_mem hg
    simp only [Waitq.requeue]
    omega
  · have hm := h.hba_max
    simp only [Waitq.requeue]
    omega

theorem waiting_requeue {g x : Gcmd} :
    (w.requeue g).Waiting gdevOf x ↔ x = g ∨ w.Waiting gdevOf x := by
  unfold Waiting
  simp only [Waitq.requeue, mem_l2AddHead]
  exact or_left_comm

/-- Holding, releasing and freezing the queue do not touch the accounting. -/
theorem flags (h : WaitqOk gdevOf act w) (held frozen : Bool) :
    WaitqOk gdevOf act { w with held := held, frozen := frozen } :=
  ⟨h.dev_mem, h.dev_nodup, h.hba_mem, h.hba_nodup, h.act_mem, h.act_nodup, h.dev_nactive,
    h.hba_nactive, h.hba_max⟩

theorem level_of_linked (h : WaitqOk gdevOf act w) {g : Gcmd}
    (hg : w.Waiting gdevOf g ∨ g ∈ act) :
    w.level g = 1 ∧ g ∈ (w.dev (gdevOf g)).waitq.qhead ∧ g ∉ w.hba.qhead ∧ g ∉ act ∨
    w.level g = 2 ∧ g ∈ w.hba.qhead ∧ g ∉ act ∨
    w.level g = 3 ∧ g ∈ act ∧ ¬ w.Waiting gdevOf g := by
  have h2 : g ∈ w.hba.qhead → w.level g = 2 := h.hba_mem g
  have h3 : g ∈ act → w.level g = 3 := h.act_mem g
  rcases hg with (hg | hg) | hg
  · have h1 := (h.dev_mem _ g hg).2
    exact Or.inl ⟨h1, hg, fun hb => absurd (h2 hb) (by omega),
      fun ha => absurd (h3 ha) (by omega)⟩
  · exact Or.inr (Or.inl ⟨h2 hg, hg, fun ha => absurd (h3 ha) (by
      rw [h2 hg]
      omega)⟩)
  · exact Or.inr (Or.inr ⟨h3 hg, hg, h.not_waiting_of_act hg⟩)

theorem delete_dev_qhead (h : WaitqOk gdevOf act w) {g : Gcmd}
    (hg : w.Waiting gdevOf g ∨ g ∈ act) (d : GdevId) :
    ((w.delete gdevOf g).dev d).waitq.qhead = l2Delete (w.dev d).waitq.qhead g := by
  rcases h.level_of_linked hg with ⟨hl, -⟩ | ⟨hl, -⟩ | ⟨hl, -, hn⟩
  · simp only [delete, hl, unlink]
  · simp only [delete, hl, unlink, devDec, setDev_dev]
    split
    · next hd => rw [hd]
    · rfl
  · have hd' : g ∉ (w.dev d).waitq.qhead := fun hx => hn (h.waiting_of_mem_dev hx)
    simp only [delete, hl, devDec, setDev_dev, l2Delete_of_notMem hd']
    split
    · next hd => rw [hd]
    · rfl

theorem delete_hba_qhead (h : WaitqOk gdevOf act w) {g : Gcmd}
    (hg : w.Waiting gdevOf g ∨ g ∈ act) :
    (w.delete gdevOf g).hba.qhead = l2Delete w.hba.qhead g := by
  rcases h.level_of_linked hg with ⟨hl, -⟩ | ⟨hl, -⟩ | ⟨hl, -, hn⟩
  · simp only [delete, hl, unlink]
  · simp only [delete, hl, unlink, devDec, setDev_hba]
  · have hb : g ∉ w.hba.qhead := fun hx => hn (Or.inr hx)
    simp only [delete, hl, devDec, setDev_hba, l2Delete_of_notMem hb]

theorem delete_dev_nactive (h : WaitqOk gdevOf act w) {g : Gcmd}
    (hg : w.Waiting gdevOf g ∨ g ∈ act) (d : GdevId) :
    ((w.delete gdevOf g).dev d).waitq.nactive =
      onDev gdevOf d (l2Delete w.hba.qhead g) + onDev gdevOf d (act.erase g) := by
  have hn := h.dev_nactive d
  -- The level tells which list has counted the request, if any has.
  rcases h.level_of_linked hg with ⟨hl, -, hb, ha⟩ | ⟨hl, hb, ha⟩ | ⟨hl, ha, hw⟩
  · rw [l2Delete_of_notMem hb, List.erase_of_not_mem ha]
    simp only [delete, hl, unlink]
    exact hn
  · rw [onDev_erase d hb] at hn
    rw [List.erase_of_not_mem ha]
    simp only [delete, hl, unlink, devDec, setDev_dev, l2Delete]
    by_cases hd : d = gdevOf g
    · simp only [hd, if_true] at hn ⊢
      omega
    · have hd' : ¬ gdevOf g = d := fun he => hd he.symm
      simp only [hd, hd', if_false] at hn ⊢
      omega
  · rw [onDev_erase d ha] at hn
    rw [l2Delete_of_notMem (fun hx => hw (Or.inr hx))]
    simp only [delete, hl, devDec, setDev_dev]
    by_cases hd : d = gdevOf g
    · simp only [hd, if_true] at hn ⊢
      omega
    · have hd' : ¬ gdevOf g = d := fun he => hd he.symm
      simp only [hd, hd', if_false] at hn ⊢
      omega

theorem delete_hba_nactive (h : WaitqOk gdevOf act w) {g : Gcmd}
    (hg : w.Waiting gdevOf g ∨ g ∈ act) :
    (w.delete gdevOf g).hba.nactive = (act.erase g).length := by
  have hn := h.hba_nactive
  rcases h.level_of_linked hg with ⟨hl, -, -, ha⟩ | ⟨hl, -, ha⟩ | ⟨hl, ha, -⟩
  · rw [List.erase_of_not_mem ha]
    simp only [delete, hl, unlink]
    exact hn
  · rw [List.erase_of_not_mem ha]
    simp only [delete, hl, unlink, devDec, setDev_hba]
    exact hn
  · have hlen := List.length_erase_of_mem ha
    have hpos := List.length_pos_of_mem ha
    simp only [delete, hl, devDec, setDev_hba]
    omega

@[simp] theorem delete_level (g : Gcmd) : (w.delete gdevOf g).level = w.level := by
  unfold Waitq.delete
  split <;> rfl

@[simp] theorem delete_hba_maxactive (g : Gcmd) :
    (w.delete gdevOf g).hba.maxactive = w.hba.maxactive := by
  unfold Waitq.delete
  split <;> rfl

theorem delete (h : WaitqOk gdevOf act w) {g : Gcmd} (hg : w.Waiting gdevOf g ∨ g ∈ act) :
    WaitqOk gdevOf (act.erase g) (w.delete gdevOf g) := by
  constructor
  · intro d x hx
    rw [h.delete_dev_qhead hg] at hx
    rw [delete_level]
    exact h.dev_mem d x ((mem_l2Delete (h.dev_nodup d)).1 hx).2
  · intro d
    rw [h.delete_dev_qhead hg]
    exact nodup_l2Delete (h.dev_nodup d)
  · intro x hx
    rw [h.delete_hba_qhead hg] at hx
    rw [delete_level]
    exact h.hba_mem x ((mem_l2Delete h.hba_nodup).1 hx).2
  · rw [h.delete_hba_qhead hg]
    exact nodup_l2Delete h.hba_nodup
  · intro x hx
    rw [delete_level]
    exact h.act_mem x ((h.act_nodup.mem_erase_iff).1 hx).2
  · exact h.act_nodup.erase g
  · intro d
    rw [h.delete_dev_nactive hg, h.delete_hba_qhead hg]
  · exact h.delete_hba_nactive hg
  · have hm := h.hba_max
    have hn := h.hba_nactive
    have hle : (act.erase g).length ≤ act.length := List.length_erase_le
    rw [h.delete_hba_nactive hg, delete_hba_maxactive]
    omega

theorem waiting_delete (h : WaitqOk gdevOf act w) {g : Gcmd}
    (hg : w.Waiting gdevOf g ∨ g ∈ act) {x : Gcmd} :
    (w.delete gdevOf g).Waiting gdevOf x ↔ x ≠ g ∧ w.Waiting gdevOf x := by
  unfold Waiting
  rw [h.delete_dev_qhead hg, h.delete_hba_qhead hg, mem_l2Delete (h.dev_nodup _),
    mem_l2Delete h.hba_nodup, and_or_left]

end WaitqOk

/-- The throttle: a request is promoted only while the device has fewer
    requests outstanding than it may have, and none at all while several
    instances share it. -/
theorem shuffleUp_throttle {w w' : Waitq} {d : GdevId} (h : w.shuffleUp d = some w') :
    (w.dev d).waitq.nactive < (w.dev d).waitq.maxactive ∧
      ((w.dev d).ninstances > 1 → (w.dev d).waitq.nactive ≤ 0) := by
  rcases shuffleUp_eq_some h with ⟨g, rest, -, hmax, hinst, -⟩
  exact ⟨hmax, hinst⟩

end Waitq

end Ghd

end Sil3112
