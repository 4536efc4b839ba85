import Sil3112.Ghd.NoLoss

/-!
# The Order of the Starts

The two wait queues of a device are one line. A request is linked at its end and
taken from its front, and the promotion from the device's queue to the HBA's moves
it nowhere. A request that the HBA rejects goes back to the front, and one that is
aborted or times out drops out.

So the requests of a device are started in the order in which they were linked. The
mutex of the wait queues is dropped while `ccc_hba_start` runs, and other requests
may be linked and promoted meanwhile, but the line behind the one being started
only grows at its end.

The same request may be transported again once it is done, so the record of a run
numbers the transports.

## Main definitions

* `Waitq.line`: The requests of a device that wait, in their order.
* `StartLog`: What has been linked and what has been started.
* `InOrder`: The numbers in the line, after those that have been started.

## Theorems

* `Waitq.line_shuffleUp`, `Waitq.line_take`, `Waitq.line_requeue`: The line as one
  queue.
* `InOrder.step`: Every step keeps the order.
* `ghd_start_order`: The requests of a device are started in the order in which
  they were linked.
-/

namespace Sil3112

namespace Ghd

open Transition

/-! ## The line of a device -/

namespace Waitq

variable {gdevOf : Gcmd → GdevId} {act : List Gcmd} {w w' : Waitq} {d : GdevId} {g : Gcmd}

/-- The requests of a device that wait, the next one to be started first. -/
def line (gdevOf : Gcmd → GdevId) (w : Waitq) (d : GdevId) : List Gcmd :=
  w.hba.qhead.filter (fun g => gdevOf g = d) ++ (w.dev d).waitq.qhead

theorem mem_line (h : WaitqOk gdevOf act w) :
    g ∈ w.line gdevOf d ↔ w.Waiting gdevOf g ∧ gdevOf g = d := by
  unfold line Waiting
  rw [List.mem_append, List.mem_filter, decide_eq_true_eq]
  constructor
  · rintro (⟨hg, hd⟩ | hg)
    · exact ⟨Or.inr hg, hd⟩
    · have hd := (h.dev_mem d g hg).1
      rw [hd]
      exact ⟨Or.inl hg, rfl⟩
  · rintro ⟨hg | hg, hd⟩
    · rw [hd] at hg
      exact Or.inr hg
    · exact Or.inl ⟨hg, hd⟩

theorem line_link : (w.link gdevOf g).line gdevOf d =
    if gdevOf g = d then w.line gdevOf d ++ [g] else w.line gdevOf d := by
  unfold line link l2Add
  dsimp only
  rw [setDev_hba, setDev_dev]
  by_cases hd : gdevOf g = d
  · rw [if_pos hd, if_pos hd.symm, hd, List.append_assoc]
  · rw [if_neg hd, if_neg (Ne.symm hd)]

theorem filter_dev_cons (gdevOf : Gcmd → GdevId) (d : GdevId) (g : Gcmd) (l : List Gcmd) :
    (g :: l).filter (fun g => gdevOf g = d) =
      if gdevOf g = d then g :: l.filter (fun g => gdevOf g = d)
      else l.filter (fun g => gdevOf g = d) := by
  simp only [List.filter_cons, decide_eq_true_eq]

/-- The head of the device's queue is promoted to the tail of the HBA's. -/
theorem line_shuffleUp (h : WaitqOk gdevOf act w) {d' : GdevId} (hs : w.shuffleUp d' = some w') :
    w'.line gdevOf d = w.line gdevOf d := by
  rcases shuffleUp_eq_some hs with ⟨x, rest, hq, -, -, rfl⟩
  have hx : gdevOf x = d' := (h.dev_mem d' x (hq ▸ List.mem_cons_self)).1
  unfold line l2Add
  dsimp only
  rw [setDev_dev, List.filter_append]
  by_cases hd : d = d'
  · rw [if_pos hd, hd, hq, filter_dev_cons, if_pos hx, List.filter_nil, List.append_assoc]
    rfl
  · have hxd : ¬ gdevOf x = d := fun he => hd (he.symm.trans hx)
    rw [if_neg hd, filter_dev_cons, if_neg hxd, List.filter_nil, List.append_nil]

theorem line_cons {rest : List Gcmd} (hhba : w.hba.qhead = g :: rest)
    (hhba' : w'.hba.qhead = rest) (hdev : (w'.dev d).waitq.qhead = (w.dev d).waitq.qhead) :
    w.line gdevOf d = if gdevOf g = d then g :: w'.line gdevOf d else w'.line gdevOf d := by
  unfold line
  rw [hhba, hhba', hdev, filter_dev_cons]
  by_cases hd : gdevOf g = d
  · rw [if_pos hd, if_pos hd, List.cons_append]
  · rw [if_neg hd, if_neg hd]

theorem line_take (hs : w.take = some (g, w')) :
    w.line gdevOf d = if gdevOf g = d then g :: w'.line gdevOf d else w'.line gdevOf d := by
  rcases take_eq_some hs with ⟨rest, hq, -, rfl⟩
  exact line_cons hq rfl rfl

theorem line_requeue : (w.requeue g).line gdevOf d =
    if gdevOf g = d then g :: w.line gdevOf d else w.line gdevOf d :=
  line_cons rfl rfl rfl

theorem line_delete (h : WaitqOk gdevOf act w) (hg : w.Waiting gdevOf g ∨ g ∈ act) :
    List.Sublist ((w.delete gdevOf g).line gdevOf d) (w.line gdevOf d) := by
  unfold line
  rw [h.delete_hba_qhead hg, h.delete_dev_qhead hg]
  exact List.Sublist.append (List.Sublist.filter _ List.erase_sublist) List.erase_sublist

end Waitq

/-! ## The record -/

/-- What has been linked and started in a run. The transports are numbered in the
    order in which they were linked: `links` has the request of each, and `last` the
    number of a request's last one. `starting` is the one for which `ccc_hba_start`
    is running, and `started` has those for which it returned TRUE, in order. -/
structure StartLog where
  links : List Gcmd
  last : Gcmd → Nat
  starting : Option Nat
  started : List Nat

namespace StartLog

/-- Nothing has been linked. -/
def empty : StartLog where
  links := []
  last := fun _ => 0
  starting := none
  started := []

/-- The record after a step. -/
def next (L : StartLog) : Act → StartLog
  | .link g _ => { L with
      links := L.links ++ [g], last := Function.update L.last g L.links.length }
  | .take g => { L with starting := some (L.last g) }
  | .accept => { L with started := L.started ++ L.starting.toList, starting := none }
  | .reject _ => { L with starting := none }
  | _ => L

/-- The transport with this number is for the device. -/
def OnDev (gdevOf : Gcmd → GdevId) (L : StartLog) (d : GdevId) (n : Nat) : Prop :=
  L.links[n]?.map gdevOf = some d

instance (gdevOf : Gcmd → GdevId) (L : StartLog) (d : GdevId) (n : Nat) :
    Decidable (L.OnDev gdevOf d n) :=
  inferInstanceAs (Decidable (_ = _))

/-- The transports that have been started, and the one that is being. -/
def attempts (L : StartLog) : List Nat := L.started ++ L.starting.toList

end StartLog

/-- The numbers of the transports of a device, first those that have been started
    and then those that wait, increase. -/
structure InOrder (gdevOf : Gcmd → GdevId) (act : List Gcmd) (w : Waitq) (L : StartLog) :
    Prop where
  sorted : ∀ d, (L.attempts.filter (fun n => L.OnDev gdevOf d n) ++
    (w.line gdevOf d).map L.last).Pairwise (· < ·)
  attempts : ∀ n ∈ L.attempts, n < L.links.length
  linked : ∀ g, w.Waiting gdevOf g ∨ g ∈ act → L.links[L.last g]? = some g

namespace InOrder

variable {gdevOf : Gcmd → GdevId} {act act' : List Gcmd} {w w' : Waitq} {L : StartLog} {g : Gcmd}

theorem last_lt (h : InOrder gdevOf act w L) (hg : w.Waiting gdevOf g ∨ g ∈ act) :
    L.last g < L.links.length := by
  rcases List.getElem?_eq_some_iff.1 (h.linked g hg) with ⟨hlt, -⟩
  exact hlt

theorem onDev_last (h : InOrder gdevOf act w L) (hg : w.Waiting gdevOf g ∨ g ∈ act)
    (d : GdevId) : L.OnDev gdevOf d (L.last g) ↔ gdevOf g = d := by
  unfold StartLog.OnDev
  rw [h.linked g hg, Option.map_some, Option.some.injEq]

/-- Requests leave the lines at most. -/
theorem sublist (h : InOrder gdevOf act w L)
    (hline : ∀ d, List.Sublist (w'.line gdevOf d) (w.line gdevOf d))
    (hlinked : ∀ x, w'.Waiting gdevOf x ∨ x ∈ act' → w.Waiting gdevOf x ∨ x ∈ act) :
    InOrder gdevOf act' w' L where
  sorted := fun d => (h.sorted d).sublist ((List.Sublist.refl _).append ((hline d).map _))
  attempts := h.attempts
  linked := fun x hx => h.linked x (hlinked x hx)

theorem link (h : InOrder gdevOf act w L) (hok : Waitq.WaitqOk gdevOf act w)
    (hg : ¬ (w.Waiting gdevOf g ∨ g ∈ act)) (polled : Bool) :
    InOrder gdevOf act (w.link gdevOf g) (L.next (.link g polled)) := by
  have hlast : ∀ x, w.Waiting gdevOf x ∨ x ∈ act →
      (L.next (.link g polled)).last x = L.last x := by
    intro x hx
    refine Function.update_of_ne ?_ ..
    rintro rfl
    exact hg hx
  have hself : (L.next (.link g polled)).last g = L.links.length := Function.update_self ..
  constructor
  · intro d
    have hold : ((L.next (.link g polled)).attempts.filter
        (fun n => (L.next (.link g polled)).OnDev gdevOf d n) ++
          (w.line gdevOf d).map (L.next (.link g polled)).last).Pairwise (· < ·) := by
      have hfilter : (L.next (.link g polled)).attempts.filter
          (fun n => (L.next (.link g polled)).OnDev gdevOf d n) =
            L.attempts.filter (fun n => L.OnDev gdevOf d n) := by
        refine List.filter_congr fun n hn => decide_eq_decide.2 ?_
        show (L.links ++ [g])[n]?.map gdevOf = some d ↔ _
        rw [List.getElem?_append_left (h.attempts n hn)]
        rfl
      rw [hfilter,
        List.map_congr_left fun x hx => hlast x (Or.inl ((Waitq.mem_line hok).1 hx).1)]
      exact h.sorted d
    rw [Waitq.line_link]
    by_cases hd : gdevOf g = d
    · -- The new number is greater than all there have been.
      rw [if_pos hd, List.map_append, ← List.append_assoc]
      refine List.pairwise_append.2 ⟨hold, List.pairwise_singleton .., fun m hm n hn => ?_⟩
      rw [List.map_cons, List.map_nil, List.mem_singleton, hself] at hn
      rw [hn]
      rcases List.mem_append.1 hm with hm | hm
      · exact h.attempts m (List.mem_filter.1 hm).1
      · rcases List.mem_map.1 hm with ⟨x, hx, rfl⟩
        have hw := ((Waitq.mem_line hok).1 hx).1
        rw [hlast x (Or.inl hw)]
        exact h.last_lt (Or.inl hw)
    · rw [if_neg hd]
      exact hold
  · intro n hn
    have hlt := h.attempts n hn
    show n < (L.links ++ [g]).length
    rw [List.length_append]
    omega
  · intro x hx
    by_cases hxg : x = g
    · rw [hxg, hself]
      exact List.getElem?_concat_length
    · have hx' : w.Waiting gdevOf x ∨ x ∈ act :=
        hx.imp_left fun hw => (Waitq.WaitqOk.waiting_link.1 hw).resolve_left hxg
      rw [hlast x hx']
      exact (List.getElem?_append_left (h.last_lt hx')).trans (h.linked x hx')

/-- It does not matter whether the first of the line counts as waiting or as being
    started. -/
theorem front {line line' : GdevId → List Gcmd}
    (hline : ∀ d, line d = if gdevOf g = d then g :: line' d else line' d)
    (hg : ∀ d, L.OnDev gdevOf d (L.last g) ↔ gdevOf g = d) (d : GdevId) :
    L.started.filter (fun n => L.OnDev gdevOf d n) ++ (line d).map L.last =
      (L.started ++ [L.last g]).filter (fun n => L.OnDev gdevOf d n) ++
        (line' d).map L.last := by
  rw [hline d, List.filter_append, List.append_assoc]
  by_cases hd : gdevOf g = d
  · rw [if_pos hd, List.filter_cons, if_pos (decide_eq_true ((hg d).2 hd))]
    rfl
  · rw [if_neg hd, List.filter_cons, if_neg (by rw [decide_eq_true_eq, hg d]; exact hd)]
    rfl

theorem take (h : InOrder gdevOf act w L) (hok : Waitq.WaitqOk gdevOf act w)
    (hidle : L.starting = none) (hs : w.take = some (g, w')) :
    InOrder gdevOf (g :: act) w' (L.next (.take g)) := by
  have hg : w.Waiting gdevOf g := Or.inr (Waitq.WaitqOk.mem_of_take hs)
  -- The first of the line is being started now, so its number stays where it was.
  have hattempts : L.attempts = L.started := by
    unfold StartLog.attempts
    rw [hidle, Option.toList_none, List.append_nil]
  constructor
  · intro d
    have hsorted := h.sorted d
    rw [hattempts, front (fun d => Waitq.line_take hs) (h.onDev_last (Or.inl hg)) d] at hsorted
    exact hsorted
  · intro n hn
    rcases List.mem_append.1 hn with hn | hn
    · exact h.attempts n (hattempts ▸ hn)
    · rw [List.mem_singleton.1 hn]
      exact h.last_lt (Or.inl hg)
  · intro x hx
    refine h.linked x ?_
    rcases hx with hx | hx
    · exact Or.inl ((hok.waiting_take hs).1 hx).2
    · rcases List.mem_cons.1 hx with rfl | hx
      · exact Or.inl hg
      · exact Or.inr hx

theorem reject (h : InOrder gdevOf act w L) (hg : g ∈ act)
    (hstart : L.starting = some (L.last g)) :
    InOrder gdevOf (act.erase g) (w.requeue g) (L.next (.reject g)) := by
  -- And it goes back to the front of the line.
  have hattempts : (L.next (.reject g)).attempts = L.started := List.append_nil _
  constructor
  · intro d
    have hsorted := h.sorted d
    unfold StartLog.attempts at hsorted
    rw [hstart, Option.toList_some, ← front (fun d => Waitq.line_requeue (d := d) (w := w))
      (h.onDev_last (Or.inr hg)) d] at hsorted
    rw [hattempts]
    exact hsorted
  · intro n hn
    rw [hattempts] at hn
    exact h.attempts n (List.mem_append_left _ hn)
  · intro x hx
    refine h.linked x ?_
    rcases hx with hx | hx
    · rcases Waitq.WaitqOk.waiting_requeue.1 hx with rfl | hx
      · exact Or.inr hg
      · exact Or.inl hx
    · exact Or.inr (List.mem_of_mem_erase hx)

theorem accept (h : InOrder gdevOf act w L) : InOrder gdevOf act w (L.next .accept) := by
  have hattempts : (L.next .accept).attempts = L.attempts := List.append_nil _
  constructor
  · rw [hattempts]
    exact h.sorted
  · rw [hattempts]
    exact h.attempts
  · exact h.linked

end InOrder

/-- When a step may be taken: a request is linked that neither waits nor is with the
    HBA, the next one is taken when none is being started, and the one that goes back
    to the front is the one that is being started. -/
def Act.InTurn (gdevOf : Gcmd → GdevId) (a : Ccc) (L : StartLog) : Act → Prop
  | .link g _ => ¬ (a.waitq.Waiting gdevOf g ∨ g ∈ a.active)
  | .take _ => L.starting = none
  | .reject g => g ∈ a.active ∧ L.starting = some (L.last g)
  | .delete g => a.waitq.Waiting gdevOf g ∨ g ∈ a.active
  | _ => True

section Steps

variable {gdevOf : Gcmd → GdevId} {G : Ghost} {a a' : Ccc} {t : Tid} {c c' : Ctl} {x : Act}
  {L : StartLog}

/-- Every step keeps the order. -/
theorem InOrder.step (h : InOrder gdevOf a.active a.waitq L)
    (hok : Waitq.WaitqOk gdevOf a.active a.waitq) (hturn : x.InTurn gdevOf a L)
    (hr : x.run gdevOf t a = some a') : InOrder gdevOf a'.active a'.waitq (L.next x) := by
  cases x with
  | skip | unlockHba | unlockWaitq | pollmodeEnter | pollmodeClear | trigger | process
  | timerStop | stop | doneqPut | mark | callback =>
      cases hr
      exact h
  | newstate g y | retract g y =>
      cases hr
      cases g <;> exact h
  | call g =>
      rcases Act.run_call.1 hr with ⟨-, rfl⟩
      exact h
  | lockHba =>
      rcases Ccc.lockHba_eq_some.1 hr with ⟨-, rfl⟩
      exact h
  | lockHbaSoft =>
      rcases Act.run_lockHbaSoft.1 hr with ⟨-, rfl⟩
      exact h
  | lockWaitq =>
      rcases Ccc.lockWaitq_eq_some.1 hr with ⟨-, rfl⟩
      exact h
  | doneqGet g own k =>
      rcases Act.run_doneqGet.1 hr with ⟨q, -, rfl⟩
      exact h
  | pop g =>
      rcases Act.run_pop.1 hr with ⟨q, -, rfl⟩
      exact h
  | timeout =>
      rcases Act.run_timeout.1 hr with ⟨-, rfl⟩
      exact h
  | timerGet g =>
      rcases Act.run_timerGet.1 hr with ⟨-, rfl⟩
      exact h
  | accept =>
      rcases Act.run_accept.1 hr with ⟨-, rfl⟩
      exact h.accept
  | link g polled =>
      rcases Act.run_link.1 hr with ⟨-, rfl⟩
      exact h.link hok hturn polled
  | promote d =>
      rcases Act.run_promote.1 hr with ⟨w, hw, rfl⟩
      refine h.sublist (fun d => ?_) fun y hy => hy.imp_left (hok.waiting_shuffleUp hw).1
      -- The line goes through both queues, so a promotion does not change it.
      rw [Waitq.line_shuffleUp hok hw]
  | take g =>
      rcases Act.run_take.1 hr with ⟨w, hw, rfl⟩
      exact h.take hok hturn hw
  | reject g =>
      rcases Act.run_reject.1 hr with ⟨-, rfl⟩
      exact h.reject hturn.1 hturn.2
  | delete g =>
      rcases Act.run_delete.1 hr with ⟨-, rfl⟩
      refine h.sublist (fun d => Waitq.line_delete hok hturn) fun y hy => ?_
      exact hy.imp (fun hw => ((hok.waiting_delete hturn).1 hw).2) List.mem_of_mem_erase
  | queueHold b =>
      rcases Act.run_queueHold.1 hr with ⟨-, rfl⟩
      exact h.sublist (fun d => List.Sublist.refl _) fun y hy => hy
  | freeze =>
      rcases Act.run_freeze.1 hr with ⟨-, rfl⟩
      exact h.sublist (fun d => List.Sublist.refl _) fun y hy => hy

/-! ## The threads -/

/-- The request for which `ccc_hba_start` is running, and whether it has been
    completed since. -/
def HbaCall.starting : HbaCall → Option (Gcmd × Bool)
  | .start _ _ g done => some (g, done)
  | .status _ => none
  | .timeout _ _ _ _ _ => none

/-- The same at a control point. -/
def Ctl.starting : Ctl → Option (Gcmd × Bool)
  | .hba c => c.starting
  | .del c _ => c.starting
  | .delShuffle c _ => c.starting
  | .stop c _ => c.starting
  | .put c _ => c.starting
  | _ => none

/-- The record agrees with the control point of the thread that has the HBA
    mutex. Once the request has been completed it may have been transported again,
    and the number is that of its old transport. -/
def Ctl.StartAt (L : StartLog) (c : Ctl) : Prop :=
  match c.starting with
  | none => L.starting = none
  | some (g, done) => done = false → L.starting = some (L.last g)

theorem HbaCall.startAt_completed {k : HbaCall} (g : Gcmd) (h : Ctl.StartAt L (.hba k)) :
    Ctl.StartAt L (.del (k.completed g) g) := by
  cases k with
  | start k rc g' done =>
      intro hd
      exact h (Bool.or_eq_false_iff.1 hd).1
  | status k => exact h
  | timeout k g' d y done => exact h

/-- Every edge keeps the record in agreement. -/
theorem Local.startAt (h : Local gdevOf a c x c') (hL : c.StartAt L) : c'.StartAt (L.next x) := by
  cases h with
  | complete k g hg => exact HbaCall.startAt_completed g hL
  | completeEarly k g d y hy => exact hL
  | holdTake k rc g => exact fun _ => rfl
  | startAccept k rc g done => rfl
  | startReject k rc g => rfl
  | _ => exact hL

theorem Ctl.starting_of_view (h : c.view.hba = false) : c.starting = none := by
  cases c with
  | hba | del | delShuffle | stop | put => cases h
  | _ => rfl

theorem Ctl.startAt_of_view (h : c.view.hba = false) (hL : L.starting = none) : c.StartAt L := by
  unfold StartAt
  rw [starting_of_view h]
  exact hL

/-- A thread without the HBA mutex does not start requests. -/
theorem Local.next_starting (h : Local gdevOf a c x c') (hc : c.view.hba = false) :
    (L.next x).starting = L.starting := by
  cases h with
  | holdTake | startAccept | startReject => cases hc
  | _ => rfl

theorem StartLog.next_last {g : Gcmd} (h : ∀ polled, x ≠ .link g polled) :
    (L.next x).last g = L.last g := by
  cases x with
  | link g' polled =>
      refine Function.update_of_ne ?_ ..
      rintro rfl
      exact h polled rfl
  | _ => rfl

/-- A request that is being started and has not been completed is with the HBA. -/
theorem Ctl.Knows.starting {g : Gcmd} (h : c.Knows G a) (hc : c.starting = some (g, false)) :
    G.place g = .hba := by
  have hcall : ∀ k : HbaCall, k.Knows G a → k.starting = some (g, false) → G.place g = .hba := by
    intro k hk hs
    cases k with
    | start k rc g' done =>
        cases hs
        exact hk rfl
    | status | timeout => cases hs
  cases c with
  | hba k | delShuffle k g' | stop k g' | put k g' => exact hcall k h hc
  | del k g' => exact hcall k h.1 hc
  | _ => cases hc

/-- Every edge takes its step in turn. -/
theorem Local.inTurn (h : Local gdevOf a c x c') (hI : Inv gdevOf G a) (hk : c.Knows G a)
    (ho : Own G t a c.view) (hL : c.view.hba = true → c.StartAt L) : x.InTurn gdevOf a L := by
  cases h with
  | xportLink g polled =>
      have hp := (ho.hands g .calling).2 List.mem_cons_self
      rintro (hw | ha)
      · exact hI.not_waiting (by rw [hp]; nofun) hw
      · exact hI.not_active (by rw [hp]; nofun) ha
  | holdTake k rc g => exact hL rfl
  | startReject k rc g => exact ⟨(hI.hba g).1 (hk rfl), hL rfl rfl⟩
  | del k g => exact hk.2.2.imp (fun hw => (hI.wait g).1 hw.1) (hI.hba g).1
  | _ => trivial

/-- The other threads do not notice. -/
theorem Ctl.StartAt.quiet {c₀ : Ctl} (h : c₀.StartAt L) (hk : c₀.Knows G a)
    (hx : Local gdevOf a c x c') (hc : c.view.hba = false) (ho : Own G t a c.view) :
    c₀.StartAt (L.next x) := by
  unfold StartAt at h ⊢
  rw [hx.next_starting hc]
  cases hs : c₀.starting with
  | none =>
      rw [hs] at h
      exact h
  | some r =>
      rcases r with ⟨g, done⟩
      rw [hs] at h
      intro hd
      rw [hd] at hs
      rw [StartLog.next_last, h hd]
      rintro polled rfl
      -- The request being linked is in the hands of the thread that links it.
      have hp := hk.starting hs
      cases hx with
      | xportLink =>
          rw [(ho.hands g .calling).2 List.mem_cons_self] at hp
          cases hp

end Steps

/-! ## The runs -/

/-- What a thread can do, with the step it takes. -/
def GhdStepOf (gdevOf : Gcmd → GdevId) (t : Tid) (x : Act) (a : Ccc) (c : Ctl) (a' : Ccc)
    (c' : Ctl) : Prop :=
  Local gdevOf a c x c' ∧ x.run gdevOf t a = some a'

/-- The states that a run reaches, with the record of what has been linked and
    started. -/
abbrev GhdRecorded (gdevOf : Gcmd → GdevId) : Sys Tid (Ccc × StartLog) Ctl → Prop :=
  Reachable (Sys.RecordInit GhdInit .empty) (Sys.Step (Sys.Recorded (GhdStepOf gdevOf) .next))

/-- What the shared state and its record assert. -/
structure StartsInOrder (gdevOf : Gcmd → GdevId) (p : Ccc × StartLog) : Prop where
  order : InOrder gdevOf p.1.active p.1.waitq p.2
  idle : p.1.hbaMutex = none → p.2.starting = none

section Runs

variable {gdevOf : Gcmd → GdevId} {s : Sys Tid (Ccc × StartLog) Ctl} {G : Ghost} {t : Tid} {x : Act}
  {a' : Ccc} {c' : Ctl}

/-- The control point of a thread that has the HBA mutex agrees with the record. -/
def StartsKnown (s : Sys Tid (Ccc × StartLog) Ctl) : Prop :=
  ∀ u, (s.thr u).view.hba = true → (s.thr u).StartAt s.shared.2

/-- A thread that has the HBA mutex after its step agreed with the record before. -/
theorem startAt_of_step (hG : GhdInv gdevOf G s.forget) (hI : StartsInOrder gdevOf s.shared)
    (hJ : StartsKnown s) (hx : Local gdevOf s.shared.1 (s.thr t) x c')
    (hr : x.run gdevOf t s.shared.1 = some a')
    (hc : (s.thr t).view.hba = true ∨ c'.view.hba = true) : (s.thr t).StartAt s.shared.2 := by
  cases hb : (s.thr t).view.hba with
  | true => exact hJ t hb
  | false =>
      have hc' : c'.view.hba = true := by
        rcases hc with hc | hc
        · exact absurd (hb.symm.trans hc) Bool.false_ne_true
        · exact hc
      exact Ctl.startAt_of_view hb (hI.idle (hG.acquires hx hr hb hc'))

theorem StartsInOrder.step (hG : GhdInv gdevOf G s.forget) (hI : StartsInOrder gdevOf s.shared)
    (hJ : StartsKnown s) (hx : Local gdevOf s.shared.1 (s.thr t) x c')
    (hr : x.run gdevOf t s.shared.1 = some a') :
    StartsInOrder gdevOf (a', s.shared.2.next x) := by
  rcases hG.2 t with ⟨ho, hk⟩
  refine ⟨hI.order.step hG.1.waitq (hx.inTurn hG.1 hk ho (hJ t)) hr, fun hfree => ?_⟩
  have hfree' := Act.hbaMutexAfter_eq_none ((Act.frame hr).hbaMutex.symm.trans hfree)
  have hv := hG.viewStep hx hr
  cases hb : (s.thr t).view.hba with
  | true =>
      have hunlock : x = .unlockHba := by
        refine hfree'.resolve_right fun hn => ?_
        rw [show s.shared.1.hbaMutex = some t from ho.hba hb] at hn
        cases hn
      have hafter := hv.hba
      rw [hunlock] at hafter
      have hs := hx.startAt (hJ t hb)
      unfold Ctl.StartAt at hs
      rw [Ctl.starting_of_view hafter] at hs
      exact hs
  | false =>
      rw [hx.next_starting hb]
      rcases hfree' with hunlock | hfree'
      · have hallowed := hv.allowed
        rw [hunlock] at hallowed
        exact absurd (hb.symm.trans hallowed.1) Bool.false_ne_true
      · exact hI.idle hfree'

theorem GhdRecorded.reachable (h : GhdRecorded gdevOf s) : GhdReachable gdevOf s.forget :=
  Sys.Reachable.forget h

theorem startsInOrder_init {a : Ccc} (h : ∃ thr, GhdInit ⟨a, thr⟩) :
    StartsInOrder gdevOf (a, .empty) := by
  rcases h with ⟨thr, h⟩
  have hline : ∀ d, a.waitq.line gdevOf d = [] := by
    intro d
    unfold Waitq.line
    rw [h.hba.1, (h.dev d).1]
    rfl
  refine ⟨⟨fun d => ?_, nofun, fun g hg => ?_⟩, fun _ => rfl⟩
  · rw [hline d]
    exact List.Pairwise.nil
  · unfold Waitq.Waiting at hg
    rw [(h.dev _).1, h.hba.1, h.active] at hg
    rcases hg with (hg | hg) | hg <;> cases hg

theorem ghdRecorded_inOrder (h : GhdRecorded gdevOf s) : StartsInOrder gdevOf s.shared := by
  have hs : ∃ g : Unit, Sys.Holds (fun _ => StartsInOrder gdevOf)
      (fun _ _ p c => c.view.hba = true → c.StartAt p.2) g s := by
    refine Sys.Holds.reachable (P := fun s => ∃ G, GhdInv gdevOf G s.forget)
      (fun s hr => ghd_reachable_inv (GhdRecorded.reachable hr)) (fun s₀ h0 => ?_) ?_ h
    · refine ⟨(), ?_, fun t ht => ?_⟩
      · have hinit : StartsInOrder gdevOf (s₀.shared.1, .empty) :=
          startsInOrder_init ⟨s₀.thr, h0.1⟩
        rw [← h0.2] at hinit
        exact hinit
      · rw [show s₀.thr t = .idle from h0.1.thr t] at ht
        cases ht
    · rintro ⟨⟩ t s ⟨a', L'⟩ c' ⟨G, hG⟩ ⟨x, ⟨hx, hr⟩, hrec⟩ ⟨hI, hJ⟩
      have hrec' : L' = s.shared.2.next x := hrec
      subst hrec'
      refine ⟨(), hI.step hG hJ hx hr, fun hc => ?_, fun u hu hc => ?_⟩
      · exact hx.startAt (startAt_of_step hG hI hJ hx hr (Or.inr hc))
      · refine (hJ u hc).quiet (hG.2 u).2 hx ?_ (hG.2 t).1
        -- No two threads have the HBA mutex.
        by_contra hb
        exact hu (hG.hba_unique hc (eq_true_of_ne_false hb))
  rcases hs with ⟨-, hI, -⟩
  exact hI

/-- Every run can be recorded. -/
theorem GhdReachable.recorded {s : GhdSys} (h : GhdReachable gdevOf s) :
    ∃ L, GhdRecorded gdevOf (s.withRecord L) :=
  Sys.Reachable.recorded h

/-- In every run, for any order of steps, the transports of a device that have been
    started have been started in the order in which they were linked, and each at
    most once. -/
theorem ghd_start_order (h : GhdRecorded gdevOf s) (d : GdevId) :
    (∀ n ∈ s.shared.2.started, n < s.shared.2.links.length) ∧
      (s.shared.2.started.filter (fun n => s.shared.2.OnDev gdevOf d n)).Pairwise (· < ·) := by
  have ho := (ghdRecorded_inOrder h).order
  refine ⟨fun n hn => ho.attempts n (List.mem_append_left _ hn), ?_⟩
  have hsorted := (List.pairwise_append.1 (ho.sorted d)).1
  unfold StartLog.attempts at hsorted
  rw [List.filter_append] at hsorted
  exact (List.pairwise_append.1 hsorted).1

end Runs

/-- The record after a list of steps. -/
def StartLog.after (L : StartLog) : List (Tid × Act × Ctl) → StartLog
  | [] => L
  | (_, x, _) :: l => (L.next x).after l

theorem GhdRecorded.after {gdevOf : Gcmd → GdevId} {s : GhdSys} {L : StartLog}
    (h : GhdRecorded gdevOf (s.withRecord L)) (l : List (Tid × Act × Ctl))
    (hl : s.RunOk gdevOf l) : GhdRecorded gdevOf ((s.after gdevOf l).withRecord (L.after l)) := by
  induction l generalizing s L with
  | nil => exact h
  | cons e l ih =>
      have hstep :
          GhdRecorded gdevOf ((s.next gdevOf e.1 e.2.1 e.2.2).withRecord (L.next e.2.1)) :=
        Reachable.tail h
          ⟨e.1, e.2.2, ⟨e.2.1, ⟨hl.1, GhdSys.run_next (c := e.2.2) hl.2.1⟩, rfl⟩, rfl⟩
      exact ih hstep hl.2.2

/-- Two requests for one device. The second is linked while the HBA is being asked
    to start the first, which it rejects. -/
def rejectedOnce : List (Tid × Act × Ctl) :=
  [(0, .call 5, .xportLink 5 false), (0, .link 5 false, .xportShuffle 5 false),
    (0, .promote 0, .xportShuffle 5 false), (0, .skip, .xportShuffled 5 false),
    (0, .lockHba, .hold (.exit none) false),
    (0, .take 5, .hba (.start (.exit none) false 5 false)),
    (1, .call 3, .xportLink 3 false), (1, .link 3 false, .xportShuffle 3 false),
    (1, .skip, .xportShuffled 3 false), (1, .skip, .xportDrop), (1, .unlockWaitq, .idle),
    (0, .reject 5, .holdRet (.exit none) false), (0, .unlockHba, .exitWaitq none),
    (0, .unlockWaitq, .idle),
    (1, .lockHba, .intr false), (1, .lockWaitq, .hold (.intr false) false),
    (1, .take 5, .hba (.start (.intr false) false 5 false)), (1, .accept, .hold (.intr false) true),
    (1, .skip, .holdRet (.intr false) true), (1, .unlockWaitq, .intr false),
    (1, .skip, .hba (.status (.intr false))), (1, .skip, .del (.status (.intr false)) 5),
    (1, .delete 5, .delShuffle (.status (.intr false)) 5),
    (1, .promote 0, .delShuffle (.status (.intr false)) 5),
    (1, .unlockWaitq, .stop (.status (.intr false)) 5),
    (1, .stop 5, .put (.status (.intr false)) 5),
    (1, .doneqPut 5 .completing, .hba (.status (.intr false))), (1, .skip, .intr true),
    (1, .lockWaitq, .hold (.intr true) false),
    (1, .take 3, .hba (.start (.intr true) false 3 false)), (1, .accept, .hold (.intr true) true)]

theorem rejectedOnce_ok : ghdStart.RunOk (fun _ => 0) rejectedOnce :=
  ⟨.call 5, rfl, .xportLink 5 false, rfl, .xportShuffle 5 false, rfl,
    .xportShuffled 5 false rfl, rfl, .tryenter 5, rfl, .holdTake _ _ 5, rfl,
    .call 3, rfl, .xportLink 3 false, rfl, .xportShuffled 3 false rfl, rfl,
    .tryenterFail 3 nofun, rfl, .xportDrop, rfl, .startReject _ _ 5, rfl, .exitHba _ _, rfl,
    .exitWaitq, rfl, .intr, rfl, .intrWaitq _, rfl, .holdTake _ _ 5, rfl,
    .startAccept _ _ 5 false, rfl, .holdStop _ _ (Or.inl rfl), rfl,
    .intrAgain _ _ (Or.inl rfl), rfl, .intrStatus _, rfl, .complete _ 5 (by decide), rfl,
    .del _ _, rfl, .delShuffle _ _, rfl, .delShuffled _ _ rfl, rfl, .stop _ _, rfl, .put _ _, rfl,
    .intrProcessed _, rfl, .intrWaitq _, rfl, .holdTake _ _ 3, rfl, .startAccept _ _ 3 false, rfl,
    trivial⟩

theorem ghd_start_order_rejected :
    (StartLog.empty.after rejectedOnce).started = [0, 1] ∧
      ((StartLog.empty.after rejectedOnce).started.filter
        (fun n => (StartLog.empty.after rejectedOnce).OnDev (fun _ => 0) 0 n)).Pairwise
          (· < ·) := by
  have h0 : GhdRecorded (fun _ => 0) (ghdStart.withRecord StartLog.empty) :=
    Reachable.initial ⟨ghdStart_init, rfl⟩
  exact ⟨rfl, (ghd_start_order (h0.after rejectedOnce rejectedOnce_ok) 0).2⟩

end Ghd

end Sil3112
