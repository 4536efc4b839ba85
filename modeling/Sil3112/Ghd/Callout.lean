import Mathlib.Data.List.Nodup
import Mathlib.Logic.Function.Basic
import Sil3112.Ghd.L1
import Sil3112.Lib.Loop
import Sil3112.Lib.Transition

/-!
# The Timer Callout

One callout scans the timer lists of all HBA instances. `sol11ghd_timer_attach` puts
an instance on a list under `t_mutex`, and then counts it under `tglobal_mutex`; the
first one starts the callout. `sol11ghd_timer_detach` takes it off the list, and then
counts it down; the last one cancels the callout, and waits for it if it is running.
In between, the callout takes `t_mutex`, goes away for good if the list is empty, and
starts itself again if not.

So there are moments when the list and the count disagree. If attach and detach do
not overlap this does no harm: while an instance is attached there is exactly one
callout, and when none is there is none, so that the driver may be unloaded. If they
do overlap, the count may go from two to one and from one to two while the list was
empty in between. Then nothing starts the callout again. It may also go from one to
zero and back while the callout is running, which makes two of them.

A step is a critical section. `untimeout` is two, as it waits for a callout that
is running and holds `tglobal_mutex` meanwhile.

## Main definitions

* `Tmr`: `tmr_t`, with the links of the instances.
* `Tmr.link`, `Tmr.unlink`: The list operations of attach and detach.
* `Tmr.scan`: The loop of `ghd_timeout`.
* `CalloutSys`, `CalloutStep`: The calls in progress and the callouts.

## Theorems

* `unlink_linked`: An instance that is on the list is taken off it.
* `scan_linked_list`: The scan visits every instance once.
* `CalloutStep.keeps`, `CalloutStep.one`: Every step keeps the list and the count,
  and the callout if it is serial.
* `timer_callout`: The callout runs as long as it should, and does not if calls
  overlap.
-/

namespace Sil3112

namespace Ghd

open Disk Transition

variable {ι : Type} [DecidableEq ι]

/-! ## The functions -/

/-- `tmr_t`, and `ccc_nextp` of the instances. -/
structure Tmr (ι : Type) where
  listp : Option ι
  nextp : ι → Option ι
  refs : Int
  timeoutId : Nat

/-- `*prevpp`, where `prevpp` is `&t_ccc_listp` or `&ccc_nextp` of an instance. -/
def Tmr.deref (s : Tmr ι) : Option ι → Option ι
  | none => s.listp
  | some x => s.nextp x

/-- An assignment to `*prevpp`. -/
def Tmr.store (s : Tmr ι) (v : Option ι) : Option ι → Tmr ι
  | none => { s with listp := v }
  | some x => { s with nextp := Function.update s.nextp x v }

/-- `sol11ghd_timer_attach` under `t_mutex`. -/
def Tmr.link (s : Tmr ι) (cccp : ι) : Tmr ι :=
  { s with nextp := Function.update s.nextp cccp s.listp, listp := some cccp }

/-- The loop of `sol11ghd_timer_detach`. It leaves with the place to be changed, also if
    it has come to the end of the list, or follows a NULL if there is no list. -/
def Tmr.unlinkBody (s : Tmr ι) (cccp : ι) (prevpp : Option ι) : Option ι ⊕ Option (Option ι) :=
  match s.deref prevpp with
  | none => .inr none
  | some x =>
    if x = cccp then .inr (some prevpp)
    else if s.nextp x = none then .inr (some (some x))
    else .inl (some x)

/-- `sol11ghd_timer_detach` under `t_mutex`. -/
def Tmr.unlink (n : Nat) (s : Tmr ι) (cccp : ι) : Option (Tmr ι) :=
  (Loop.run (s.unlinkBody cccp) n none).join.map (s.store (s.nextp cccp))

/-- What `ghd_timeout` finds at an instance: whether `ghd_timeout_loop` found a request
    whose time is over, and `delay_in_hz` and `ccc_waitq_freezetime` of a frozen wait
    queue. -/
structure Look where
  timedOut : Bool
  frozen : Option (Int × Int)

/-- `ufdelay_curr` -/
def Look.ufdelay (x : Look) (lbolt : Int) : Option Int :=
  x.frozen.map fun f => f.1 - (lbolt - f.2)

/-- The variables of `ghd_timeout`, and the instances whose soft interrupt it has
    triggered. -/
structure Scan (ι : Type) where
  cccp : ι
  resched : Int
  triggered : List ι

/-- What the scan does for one instance. -/
def Scan.visit (look : ι → Look) (lbolt : Int) (c : Scan ι) : Scan ι :=
  let x := look c.cccp
  let c := if x.timedOut then { c with triggered := c.triggered ++ [c.cccp] } else c
  match x.ufdelay lbolt with
  | none => c
  | some ufdelay =>
    { c with
      resched := if ufdelay < c.resched then ufdelay else c.resched
      triggered := c.triggered ++ [c.cccp] }

/-- A round of the loop of `ghd_timeout`. -/
def Tmr.scanBody (s : Tmr ι) (look : ι → Look) (lbolt : Int) (c : Scan ι) :
    Scan ι ⊕ (Int × List ι) :=
  let c := c.visit look lbolt
  match s.nextp c.cccp with
  | none => .inr (c.resched, c.triggered)
  | some next => .inl { c with cccp := next }

/-- `ghd_timeout` up to the new callout: when that is due, and the instances whose soft
    interrupt was triggered. There is none if the list is empty. -/
def Tmr.scan (n : Nat) (s : Tmr ι) (look : ι → Look) (lbolt ticks : Int) :
    Option (Option (Int × List ι)) :=
  match s.listp with
  | none => some none
  | some cccp =>
    (Loop.run (s.scanBody look lbolt) n ⟨cccp, 0x7FFFFFFF, []⟩).map fun r =>
      some (if ticks < r.1 then ticks else r.1, r.2)

/-! ## The list -/

section List

variable {s : Tmr ι} {l a b : List ι} {o : Option ι} {cccp x : ι}

/-- A new instance is the first one. -/
theorem link_linked (h : Linked s.nextp s.listp l) (hx : x ∉ l) :
    Linked (s.link x).nextp (s.link x).listp (x :: l) := by
  unfold Tmr.link
  refine linked_cons.2 ⟨rfl, ?_⟩
  dsimp only
  rw [Function.update_self]
  exact h.update hx

omit [DecidableEq ι] in
/-- The place that points to an instance. -/
theorem deref_linked (h : Linked s.nextp s.listp (a ++ x :: b)) :
    s.deref a.getLast? = some x ∧ s.nextp x = b.head? := by
  constructor
  · cases hlast : a.getLast? with
    | none =>
        rw [List.getLast?_eq_none_iff.1 hlast] at h
        exact (linked_cons.1 h).1
    | some y =>
        rcases List.getLast?_eq_some_iff.1 hlast with ⟨a', rfl⟩
        rw [List.append_assoc, List.singleton_append] at h
        exact linked_behind h
  · have hx := (linked_cons.1 (linked_from h)).2
    cases b with
    | nil => exact linked_nil.1 hx
    | cons y b => exact (linked_cons.1 hx).1

/-- The loop goes on over the instances in front of the one that it looks for. -/
theorem unlink_find (h : Linked s.nextp s.listp (a ++ x :: b)) (hx : x ∉ a) :
    ∀ (a₂ a₁ : List ι), a = a₁ ++ a₂ → ∀ n, a₂.length < n →
      Loop.run (s.unlinkBody x) n a₁.getLast? = some (some a.getLast?) := by
  intro a₂
  induction a₂ with
  | nil =>
      intro a₁ ha n hn
      rw [List.append_nil] at ha
      subst ha
      rcases n with _ | n
      · omega
      · refine Loop.run_leave ?_ n
        unfold Tmr.unlinkBody
        rw [(deref_linked h).1]
        dsimp only
        rw [if_pos rfl]
  | cons y a₂ ih =>
      intro a₁ ha n hn
      subst ha
      rcases n with _ | n
      · omega
      · have h' := h
        rw [List.append_assoc, List.cons_append] at h'
        have hy := deref_linked h'
        have hne : y ≠ x := by
          rintro rfl
          exact hx (List.mem_append_right _ List.mem_cons_self)
        have hsome : s.nextp y ≠ none := by
          rw [hy.2]
          cases a₂ with
          | nil => exact nofun
          | cons z a₂ => exact nofun
        have hbody : s.unlinkBody x a₁.getLast? = .inl (some y) := by
          unfold Tmr.unlinkBody
          rw [hy.1]
          dsimp only
          rw [if_neg hne, if_neg hsome]
        rw [Loop.run_next hbody]
        have hrest := ih (a₁ ++ [y]) (by simp) n (by rw [List.length_cons] at hn; omega)
        rwa [List.getLast?_concat] at hrest

/-- `sol11ghd_timer_detach` takes an instance that is on the list off it, and neither
    follows a NULL nor comes to the end. -/
theorem unlink_linked (h : Linked s.nextp s.listp l) (hnd : l.Nodup) (hx : x ∈ l) {n : Nat}
    (hn : l.length ≤ n) : ∃ s', s.unlink n x = some s' ∧ s'.refs = s.refs ∧
      s'.timeoutId = s.timeoutId ∧ Linked s'.nextp s'.listp (l.erase x) := by
  rcases List.append_of_mem hx with ⟨a, b, rfl⟩
  rw [List.nodup_middle, List.nodup_cons, List.mem_append, not_or] at hnd
  rcases hnd with ⟨⟨hxa, hxb⟩, hnd⟩
  have hrun := unlink_find h hxa a [] rfl n (by
    rw [List.length_append, List.length_cons] at hn
    omega)
  rw [List.getLast?_nil] at hrun
  have herase : (a ++ x :: b).erase x = a ++ b := by
    rw [List.erase_append_right _ hxa, List.erase_cons_head]
  rw [herase]
  have hunlink : s.unlink n x = some (s.store (s.nextp x) a.getLast?) := by
    unfold Tmr.unlink
    rw [hrun]
    rfl
  have hb := (linked_cons.1 (linked_from h)).2
  refine ⟨_, hunlink, ?_⟩
  cases hlast : a.getLast? with
  | none =>
      rw [List.getLast?_eq_none_iff.1 hlast, List.nil_append]
      exact ⟨rfl, rfl, hb⟩
  | some y =>
      refine ⟨rfl, rfl, ?_⟩
      rcases List.getLast?_eq_some_iff.1 hlast with ⟨a', rfl⟩
      -- Only the link of `y` changes, which is in front of `b` now.
      have hy : y ∉ a' ∧ y ∉ b := by
        rw [List.append_assoc, List.singleton_append, List.nodup_middle, List.nodup_cons,
          List.mem_append, not_or] at hnd
        exact hnd.1
      unfold Tmr.store
      dsimp only
      rw [List.append_assoc, List.singleton_append] at h ⊢
      have hcut : ∀ {o : Option ι} {c : List ι}, y ∉ c → Linked s.nextp o (c ++ y :: x :: b) →
          Linked (Function.update s.nextp y (s.nextp x)) o (c ++ y :: b) := by
        intro o c
        induction c generalizing o with
        | nil =>
            intro _ hc
            refine linked_cons.2 ⟨(linked_cons.1 hc).1, ?_⟩
            rw [Function.update_self]
            exact hb.update hy.2
        | cons z c ih =>
            intro hyc hc
            rw [List.mem_cons, not_or] at hyc
            refine linked_cons.2 ⟨(linked_cons.1 hc).1, ?_⟩
            rw [Function.update_of_ne (Ne.symm hyc.1)]
            exact ih hyc.2 (linked_cons.1 hc).2
      exact hcut hy.1 h

end List

/-! ## The scan -/

section Scan

variable {s : Tmr ι} (look : ι → Look) (lbolt : Int)

/-- The soft interrupts triggered for the instances of a list: once for requests whose
    time is over, and once more for a frozen wait queue. -/
def alarms (l : List ι) : List ι :=
  l.flatMap fun x => (if (look x).timedOut then [x] else []) ++
    (((look x).ufdelay lbolt).map fun _ => x).toList

/-- What is left of the delays of the frozen wait queues of a list. -/
def delays (l : List ι) : List Int :=
  l.filterMap fun x => (look x).ufdelay lbolt

omit [DecidableEq ι] in
theorem visit_eq (c : Scan ι) : c.visit look lbolt =
    ⟨c.cccp, (delays look lbolt [c.cccp]).foldl min c.resched,
      c.triggered ++ alarms look lbolt [c.cccp]⟩ := by
  unfold Scan.visit alarms delays
  rw [List.flatMap_singleton, List.filterMap_cons]
  dsimp only
  cases hd : (look c.cccp).ufdelay lbolt with
  | none =>
      cases (look c.cccp).timedOut with
      | false => simp
      | true => simp
  | some d =>
      have hmin : (if d < c.resched then d else c.resched) = min c.resched d := by
        split <;> omega
      cases (look c.cccp).timedOut with
      | false => simp [hmin]
      | true => simp [hmin]

omit [DecidableEq ι] in
/-- The scan visits the rest of the list. -/
theorem scan_rest : ∀ (l : List ι) (c : Scan ι) (n : Nat), Linked s.nextp (s.nextp c.cccp) l →
    l.length < n → Loop.run (s.scanBody look lbolt) n c =
      some ((delays look lbolt (c.cccp :: l)).foldl min c.resched,
        c.triggered ++ alarms look lbolt (c.cccp :: l)) := by
  intro l
  induction l with
  | nil =>
      intro c n h hn
      rcases n with _ | n
      · omega
      · refine Loop.run_leave ?_ n
        unfold Tmr.scanBody
        rw [visit_eq]
        dsimp only
        rw [linked_nil.1 h]
  | cons x l ih =>
      intro c n h hn
      rcases n with _ | n
      · omega
      · rcases linked_cons.1 h with ⟨hx, hl⟩
        have hbody : s.scanBody look lbolt c = .inl { c.visit look lbolt with cccp := x } := by
          unfold Tmr.scanBody
          rw [visit_eq]
          dsimp only
          rw [hx]
        rw [Loop.run_next hbody, ih _ n hl (by rw [List.length_cons] at hn; omega), visit_eq]
        dsimp only
        have hd : delays look lbolt (c.cccp :: x :: l) =
            delays look lbolt [c.cccp] ++ delays look lbolt (x :: l) := by
          unfold delays
          rw [← List.filterMap_append, List.singleton_append]
        have ha : alarms look lbolt (c.cccp :: x :: l) =
            alarms look lbolt [c.cccp] ++ alarms look lbolt (x :: l) := by
          unfold alarms
          rw [← List.flatMap_append, List.singleton_append]
        rw [hd, ha, List.foldl_append, List.append_assoc]

omit [DecidableEq ι] in
/-- The scan visits every instance of the list once, triggers the soft interrupts of those
    that need it, and the new callout is due when the first frozen wait queue is to thaw,
    and after `t_ticks` at the latest. -/
theorem scan_linked_list {l : List ι} (h : Linked s.nextp s.listp l) (ticks : Int) {n : Nat}
    (hn : l.length ≤ n) : s.scan n look lbolt ticks = some (if l = [] then none else
      some (min ((delays look lbolt l).foldl min 0x7FFFFFFF) ticks, alarms look lbolt l)) := by
  unfold Tmr.scan
  cases l with
  | nil =>
      rw [linked_nil.1 h, if_pos rfl]
  | cons x l =>
      rcases linked_cons.1 h with ⟨hx, hl⟩
      rw [hx, if_neg (List.cons_ne_nil x l)]
      dsimp only
      rw [scan_rest look lbolt l ⟨x, 0x7FFFFFFF, []⟩ n hl (by
        rw [List.length_cons] at hn
        omega)]
      dsimp only [Option.map_some]
      rw [List.nil_append]
      congr 3
      split <;> omega

end Scan

/-! ## The calls in progress -/

/-- The timer with the callouts that are due and those that are running, numbered as
    `timeout` was called. `enabling` and `disabling` are the instances for which an attach
    or a detach is between its two critical sections, and `cancelling` is the callout for
    which a detach is in `untimeout`, with `tglobal_mutex` held. -/
structure CalloutSys (ι : Type) where
  tmr : Tmr ι
  due : List Nat
  running : List Nat
  next : Nat
  attached : List ι
  enabling : List ι
  disabling : List ι
  cancelling : Option Nat

/-- No attach or detach is in progress. -/
def CalloutSys.Quiet (s : CalloutSys ι) : Prop :=
  s.enabling = [] ∧ s.disabling = [] ∧ s.cancelling = none

/-- The callouts that are due or running. -/
def CalloutSys.alive (s : CalloutSys ι) : List Nat := s.due ++ s.running

/-- `timeout` -/
def CalloutSys.arm (s : CalloutSys ι) : CalloutSys ι :=
  { s with
    tmr := { s.tmr with timeoutId := s.next }
    due := s.next :: s.due
    next := s.next + 1 }

/-- The critical sections. If `serial`, an attach or a detach begins only when no other is
    in progress. -/
inductive CalloutStep (serial : Prop) : CalloutSys ι → CalloutSys ι → Prop where
  | attach (s : CalloutSys ι) (x : ι) (hser : serial → s.Quiet)
      (hnew : x ∉ s.attached ∧ x ∉ s.enabling ∧ x ∉ s.disabling) :
      CalloutStep serial s { s with tmr := s.tmr.link x, enabling := x :: s.enabling }
  | enable (s : CalloutSys ι) (x : ι) (hx : x ∈ s.enabling) (hfree : s.cancelling = none) :
      CalloutStep serial s
        (let s' := { s with
          tmr := { s.tmr with refs := s.tmr.refs + 1 }
          enabling := s.enabling.erase x, attached := x :: s.attached }
        if s.tmr.refs = 0 then s'.arm else s')
  | detach (s : CalloutSys ι) (x : ι) (n : Nat) (tmr : Tmr ι) (hser : serial → s.Quiet)
      (hx : x ∈ s.attached) (hunlink : s.tmr.unlink n x = some tmr) :
      CalloutStep serial s { s with
        tmr := tmr, attached := s.attached.erase x, disabling := x :: s.disabling }
  | disable (s : CalloutSys ι) (x : ι) (hx : x ∈ s.disabling) (hfree : s.cancelling = none) :
      CalloutStep serial s { s with
        tmr := { s.tmr with refs := s.tmr.refs - 1 }
        disabling := s.disabling.erase x
        cancelling := if s.tmr.refs ≤ 1 then some s.tmr.timeoutId else none }
  | cancel (s : CalloutSys ι) (id : Nat) (hid : s.cancelling = some id) (hrun : id ∉ s.running) :
      CalloutStep serial s { s with due := s.due.erase id, cancelling := none }
  | fire (s : CalloutSys ι) (id : Nat) (hid : id ∈ s.due) :
      CalloutStep serial s { s with due := s.due.erase id, running := id :: s.running }
  | handle (s : CalloutSys ι) (id : Nat) (n : Nat) (look : ι → Look) (lbolt ticks : Int)
      (r : Option (Int × List ι)) (hid : id ∈ s.running)
      (hscan : s.tmr.scan n look lbolt ticks = some r) :
      CalloutStep serial s
        (let s' := { s with running := s.running.erase id }
        match r with
        | none => s'
        | some _ => s'.arm)

/-- No instance is attached, and there is no callout. -/
structure CalloutInit (s : CalloutSys ι) : Prop where
  tmr : s.tmr.listp = none ∧ s.tmr.refs = 0
  callouts : s.due = [] ∧ s.running = []
  quiet : s.Quiet
  attached : s.attached = []

/-! ## The list and the count -/

/-- What holds in any interleaving, with the instances of the list. -/
structure CalloutOk (s : CalloutSys ι) (l : List ι) : Prop where
  linked : Linked s.tmr.nextp s.tmr.listp l
  nodup : l.Nodup
  listed : l.Perm (s.attached ++ s.enabling)
  refs : s.tmr.refs = s.attached.length + s.disabling.length
  fresh : ∀ id ∈ s.alive, id < s.next

section Any

variable {s s' : CalloutSys ι} {l : List ι} {serial : Prop}

omit [DecidableEq ι] in
theorem arm_alive (s : CalloutSys ι) : s.arm.alive = s.next :: s.alive := rfl

omit [DecidableEq ι] in
/-- A new callout changes nothing else. -/
theorem CalloutOk.arm (h : CalloutOk s l) : CalloutOk s.arm l where
  linked := h.linked
  nodup := h.nodup
  listed := h.listed
  refs := h.refs
  fresh := by
    intro id hid
    rw [arm_alive] at hid
    rcases List.mem_cons.1 hid with rfl | hid
    · exact Nat.lt_succ_self _
    · exact Nat.lt_succ_of_lt (h.fresh id hid)

omit [DecidableEq ι] in
/-- Fewer callouts change nothing else. -/
theorem CalloutOk.callouts (h : CalloutOk s l) {due running : List Nat} {c : Option Nat}
    (hsub : due ++ running ⊆ s.alive) :
    CalloutOk { s with due := due, running := running, cancelling := c } l :=
  ⟨h.linked, h.nodup, h.listed, h.refs, fun id hid => h.fresh id (hsub hid)⟩

omit [DecidableEq ι] in
/-- The list is empty in the model when it is in memory. -/
theorem CalloutOk.listp (h : CalloutOk s l) : s.tmr.listp = none ↔ l = [] := by
  constructor
  · intro hn
    have hl := h.linked
    rw [hn] at hl
    cases l with
    | nil => rfl
    | cons x l => cases (linked_cons.1 hl).1
  · rintro rfl
    exact linked_nil.1 h.linked

omit [DecidableEq ι] in
/-- The scan finds a list unless it is empty. -/
theorem CalloutOk.scan (h : CalloutOk s l) {look : ι → Look} {lbolt ticks : Int} {n : Nat}
    {r : Option (Int × List ι)} (hscan : s.tmr.scan n look lbolt ticks = some r) :
    r = none ↔ l = [] := by
  rw [← h.listp]
  unfold Tmr.scan at hscan
  cases hl : s.tmr.listp with
  | none =>
      rw [hl] at hscan
      cases hscan
      exact ⟨fun _ => rfl, fun _ => rfl⟩
  | some x =>
      rw [hl] at hscan
      rcases Option.map_eq_some_iff.1 hscan with ⟨p, _, hp⟩
      subst hp
      exact ⟨nofun, nofun⟩

theorem subset_fire {due running : List Nat} {id : Nat} (h : id ∈ due) :
    due.erase id ++ (id :: running) ⊆ due ++ running := by
  intro y hy
  rcases List.mem_append.1 hy with hy | hy
  · exact List.mem_append_left _ (List.mem_of_mem_erase hy)
  · rcases List.mem_cons.1 hy with rfl | hy
    · exact List.mem_append_left _ h
    · exact List.mem_append_right _ hy

theorem subset_handle {due running : List Nat} {id : Nat} :
    due ++ running.erase id ⊆ due ++ running := by
  intro y hy
  rcases List.mem_append.1 hy with hy | hy
  · exact List.mem_append_left _ hy
  · exact List.mem_append_right _ (List.mem_of_mem_erase hy)

theorem subset_cancel {due running : List Nat} {id : Nat} :
    due.erase id ++ running ⊆ due ++ running := by
  intro y hy
  rcases List.mem_append.1 hy with hy | hy
  · exact List.mem_append_left _ (List.mem_of_mem_erase hy)
  · exact List.mem_append_right _ hy

/-- Every step keeps the list and the count, whatever overlaps. -/
theorem CalloutStep.keeps (hst : CalloutStep serial s s') (h : CalloutOk s l) :
    ∃ l', CalloutOk s' l' := by
  cases hst with
  | attach x hser hnew =>
      have hx : x ∉ l := by
        rw [h.listed.mem_iff, List.mem_append, not_or]
        exact ⟨hnew.1, hnew.2.1⟩
      refine ⟨x :: l, link_linked h.linked hx, List.nodup_cons.2 ⟨hx, h.nodup⟩, ?_, h.refs,
        h.fresh⟩
      exact (h.listed.cons x).trans List.perm_middle.symm
  | enable x hx hfree =>
      -- The instance is on the list already, and is counted now.
      have hok : CalloutOk { s with
          tmr := { s.tmr with refs := s.tmr.refs + 1 }
          enabling := s.enabling.erase x, attached := x :: s.attached } l := by
        refine ⟨h.linked, h.nodup, ?_, ?_, h.fresh⟩
        · refine h.listed.trans ?_
          exact ((List.perm_cons_erase hx).append_left s.attached).trans List.perm_middle
        · dsimp only
          rw [h.refs, List.length_cons]
          push_cast
          omega
      dsimp only
      split
      · exact ⟨l, hok.arm⟩
      · exact ⟨l, hok⟩
  | detach x n tmr hser hx hunlink =>
      have hmem : x ∈ l := h.listed.mem_iff.2 (List.mem_append_left _ hx)
      -- More fuel gives the same result, and there is enough of it.
      have hrun : ∃ n', l.length ≤ n' ∧ s.tmr.unlink n' x = some tmr := by
        unfold Tmr.unlink at hunlink ⊢
        rcases Option.map_eq_some_iff.1 hunlink with ⟨p, hp, rfl⟩
        rcases Option.join_eq_some_iff.1 hp with hp
        refine ⟨n + l.length, by omega, ?_⟩
        rw [Loop.run_mono hp (by omega)]
        rfl
      rcases hrun with ⟨n', hn', hunlink'⟩
      rcases unlink_linked h.linked h.nodup hmem hn' with ⟨tmr', htmr', hrefs, _, hlinked⟩
      rw [hunlink', Option.some.injEq] at htmr'
      subst htmr'
      refine ⟨l.erase x, hlinked, h.nodup.erase x, ?_, ?_, h.fresh⟩
      · have hp := h.listed.erase x
        rwa [List.erase_append_left _ hx] at hp
      · have hlen := List.length_erase_of_mem hx
        have hpos := List.length_pos_of_mem hx
        dsimp only
        rw [hrefs, h.refs, hlen, List.length_cons]
        omega
  | disable x hx hfree =>
      refine ⟨l, h.linked, h.nodup, h.listed, ?_, h.fresh⟩
      have hlen := List.length_erase_of_mem hx
      have hpos := List.length_pos_of_mem hx
      dsimp only
      rw [h.refs, hlen]
      omega
  | cancel id hid hrun => exact ⟨l, h.callouts subset_cancel⟩
  | fire id hid => exact ⟨l, h.callouts (subset_fire hid)⟩
  | handle id n look lbolt ticks r hid hscan =>
      have hok : CalloutOk { s with running := s.running.erase id } l :=
        h.callouts subset_handle
      cases r with
      | none => exact ⟨l, hok⟩
      | some _ => exact ⟨l, hok.arm⟩

end Any

/-! ## The callout -/

/-- What holds if attach and detach do not overlap: there is one callout, the one in
    `t_timeout_id`, while an instance is attached, and none if there is no instance and the
    last detach is over. -/
structure CalloutOne (s : CalloutSys ι) : Prop where
  serial : s.enabling.length + s.disabling.length + s.cancelling.toList.length ≤ 1
  some : s.attached ≠ [] → s.alive = [s.tmr.timeoutId]
  none : s.attached = [] → s.disabling = [] → s.cancelling = none → s.alive = []
  last : s.alive = [] ∨ s.alive = [s.tmr.timeoutId]
  cancel : ∀ id, s.cancelling = Option.some id → s.attached = [] ∧ id = s.tmr.timeoutId

section Serial

variable {s s' : CalloutSys ι} {l : List ι}

omit [DecidableEq ι] in
/-- The callout is due and not running, or running and not due. -/
theorem CalloutOne.cases (h : CalloutOne s) (hne : s.alive ≠ []) :
    (s.due = [s.tmr.timeoutId] ∧ s.running = []) ∨
      (s.due = [] ∧ s.running = [s.tmr.timeoutId]) := by
  have halive := h.last.resolve_left hne
  unfold CalloutSys.alive at halive
  rcases List.append_eq_singleton_iff.1 halive with ⟨hd, hr⟩ | ⟨hd, hr⟩
  · exact Or.inr ⟨hd, hr⟩
  · exact Or.inl ⟨hd, hr⟩

/-- Every step keeps the callout, if attach and detach do not overlap. -/
theorem CalloutStep.one (hst : CalloutStep True s s') (hok : CalloutOk s l)
    (h : CalloutOne s) : CalloutOne s' := by
  cases hst with
  | attach x hser hnew =>
      rcases hser trivial with ⟨he, hd, hc⟩
      refine ⟨?_, h.some, h.none, h.last, h.cancel⟩
      dsimp only
      rw [he, hd, hc]
      exact Nat.le_refl 1
  | enable x hx hfree =>
      -- Only this attach is in progress.
      have hser := h.serial
      have hpos := List.length_pos_of_mem hx
      have hlen := List.length_erase_of_mem hx
      have hdis : s.disabling = [] := List.length_eq_zero_iff.1 (by omega)
      have hnil : s.enabling.erase x = [] := List.length_eq_zero_iff.1 (by omega)
      have hrefs : s.tmr.refs = 0 ↔ s.attached = [] := by
        rw [hok.refs, hdis, ← List.length_eq_zero_iff, List.length_nil]
        omega
      dsimp only
      split
      · next hz =>
        -- The first instance starts the callout.
        have hnone : s.alive = [] := h.none (hrefs.1 hz) hdis hfree
        have hnew : s.next :: s.alive = [s.next] := by rw [hnone]
        refine ⟨?_, fun _ => hnew, nofun, Or.inr hnew, fun id hid => ?_⟩
        · unfold CalloutSys.arm
          dsimp only
          rw [hnil, hdis, hfree]
          exact Nat.zero_le _
        · exact absurd (hfree.symm.trans hid) nofun
      · next hz =>
        have hone := h.some fun hn => hz (hrefs.2 hn)
        refine ⟨?_, fun _ => hone, nofun, Or.inr hone, fun id hid => ?_⟩
        · dsimp only
          rw [hnil, hdis, hfree]
          exact Nat.zero_le _
        · exact absurd (hfree.symm.trans hid) nofun
  | detach x n tmr hser hx hunlink =>
      rcases hser trivial with ⟨he, hd, hc⟩
      have hone := h.some (List.ne_nil_of_mem hx)
      have hid : tmr.timeoutId = s.tmr.timeoutId := by
        unfold Tmr.unlink at hunlink
        rcases Option.map_eq_some_iff.1 hunlink with ⟨p, _, rfl⟩
        cases p with
        | none => rfl
        | some y => rfl
      have hone' : s.due ++ s.running = [tmr.timeoutId] := by
        rw [hid]
        exact hone
      refine ⟨?_, fun _ => hone', fun _ hn => absurd hn (List.cons_ne_nil _ _), Or.inr hone',
        fun id hsome => absurd (hc.symm.trans hsome) nofun⟩
      dsimp only
      rw [he, hd, hc]
      exact Nat.le_refl 1
  | disable x hx hfree =>
      have hser := h.serial
      have hpos := List.length_pos_of_mem hx
      have hlen := List.length_erase_of_mem hx
      have hnil : s.disabling.erase x = [] := List.length_eq_zero_iff.1 (by omega)
      have hen : s.enabling = [] := List.length_eq_zero_iff.1 (by omega)
      have hdis : s.disabling.length = 1 := by omega
      have hrefs : s.tmr.refs ≤ 1 ↔ s.attached = [] := by
        rw [hok.refs, hdis, ← List.length_eq_zero_iff]
        omega
      refine ⟨?_, h.some, fun hatt _ hcan => ?_, h.last, fun id hid => ?_⟩
      · dsimp only
        rw [hen, hnil]
        split
        · exact Nat.le_refl 1
        · exact Nat.zero_le _
      · -- The last instance cancels the callout before its detach is over.
        dsimp only at hatt hcan
        rw [if_pos (hrefs.2 hatt)] at hcan
        cases hcan
      · dsimp only at hid ⊢
        split at hid
        · next hle =>
          cases hid
          exact ⟨hrefs.1 hle, rfl⟩
        · cases hid
  | cancel id hid hrun =>
      have hser := h.serial
      rw [hid] at hser
      rcases h.cancel id hid with ⟨hatt, rfl⟩
      have hgone : s.due.erase s.tmr.timeoutId ++ s.running = [] := by
        by_cases hne : s.alive = []
        · rcases List.append_eq_nil_iff.1 hne with ⟨hd, hr⟩
          rw [hd, hr]
          rfl
        · rcases h.cases hne with ⟨hd, hr⟩ | ⟨_, hr⟩
          · rw [hd, hr, List.erase_cons_head]
            rfl
          · rw [hr] at hrun
            exact absurd (List.mem_singleton_self _) hrun
      refine ⟨?_, fun hn => absurd hatt hn, fun _ _ _ => hgone, Or.inl hgone, nofun⟩
      dsimp only
      rw [Option.toList_some, List.length_singleton] at hser
      rw [Option.toList_none, List.length_nil]
      omega
  | fire id hid =>
      have hne : s.alive ≠ [] := List.ne_nil_of_mem (List.mem_append_left _ hid)
      rcases h.cases hne with ⟨hd, hr⟩ | ⟨hd, _⟩
      · rw [hd] at hid
        have hid' := List.mem_singleton.1 hid
        subst hid'
        have hsame : s.due.erase s.tmr.timeoutId ++ s.tmr.timeoutId :: s.running = s.alive := by
          unfold CalloutSys.alive
          rw [hd, hr, List.erase_cons_head]
          rfl
        refine ⟨h.serial, fun hn => hsame.trans (h.some hn),
          fun h₁ h₂ h₃ => hsame.trans (h.none h₁ h₂ h₃), ?_, h.cancel⟩
        exact Or.inr (hsame.trans (h.last.resolve_left hne))
      · rw [hd] at hid
        cases hid
  | handle id n look lbolt ticks r hid hscan =>
      have hne : s.alive ≠ [] := List.ne_nil_of_mem (List.mem_append_right _ hid)
      rcases h.cases hne with ⟨_, hr⟩ | ⟨hd, hr⟩
      · rw [hr] at hid
        cases hid
      · rw [hr] at hid
        have hid' := List.mem_singleton.1 hid
        subst hid'
        have hgone : s.due ++ s.running.erase s.tmr.timeoutId = [] := by
          rw [hd, hr, List.erase_cons_head]
          rfl
        have hlist := hok.scan hscan
        have hnil : l = [] ↔ s.attached = [] ∧ s.enabling = [] := by
          rw [← List.append_eq_nil_iff]
          exact ⟨fun hl => (hl ▸ hok.listed).nil_eq.symm, fun hl => (hl ▸ hok.listed).eq_nil⟩
        cases r with
        | none =>
            have hatt := (hnil.1 (hlist.1 rfl)).1
            exact ⟨h.serial, fun hn => absurd hatt hn, fun _ _ _ => hgone, Or.inl hgone, h.cancel⟩
        | some p =>
            -- The callout starts itself again, so no detach is waiting for it.
            have hnew : s.next :: (s.due ++ s.running.erase s.tmr.timeoutId) = [s.next] := by
              rw [hgone]
            have hlne : ¬(s.attached = [] ∧ s.enabling = []) := fun hl =>
              absurd (hlist.2 (hnil.2 hl)) nofun
            have hcan : s.cancelling = Option.none := by
              cases hc : s.cancelling with
              | none => rfl
              | some id =>
                  have hser := h.serial
                  rw [hc, Option.toList_some, List.length_singleton] at hser
                  exact absurd ⟨(h.cancel id hc).1, List.length_eq_zero_iff.1 (by omega)⟩ hlne
            exact ⟨h.serial, fun _ => hnew, fun h₁ h₂ h₃ => absurd (h.none h₁ h₂ h₃) hne,
              Or.inr hnew, fun id hsome => absurd (hcan.symm.trans hsome) nofun⟩

/-- The list and the count in every reachable state. -/
theorem reachable_calloutOk {serial : Prop}
    (h : Reachable CalloutInit (CalloutStep serial) s) : ∃ l, CalloutOk s l := by
  refine Reachable.invariant (I := fun s => ∃ l, CalloutOk s l) ?_ ?_ h
  · intro s₀ h₀
    refine ⟨[], linked_nil.2 h₀.tmr.1, List.nodup_nil, ?_, ?_, ?_⟩
    · rw [h₀.attached, h₀.quiet.1]
      exact List.Perm.refl []
    · rw [h₀.attached, h₀.quiet.2.1, h₀.tmr.2]
      rfl
    · unfold CalloutSys.alive
      rw [h₀.callouts.1, h₀.callouts.2]
      exact nofun
  · rintro s₁ s₂ _ ⟨l, hok⟩ hst
    exact hst.keeps hok

/-- The callout in every state of a serial run. -/
theorem reachable_calloutOne (h : Reachable CalloutInit (CalloutStep True) s) :
    CalloutOne s := by
  refine Reachable.invariant (I := CalloutOne) ?_ ?_ h
  · intro s₀ h₀
    have halive : s₀.alive = [] := by
      unfold CalloutSys.alive
      rw [h₀.callouts.1, h₀.callouts.2]
      rfl
    refine ⟨?_, fun hn => absurd h₀.attached hn, fun _ _ _ => halive, Or.inl halive,
      fun id hid => absurd (h₀.quiet.2.2.symm.trans hid) nofun⟩
    rw [h₀.quiet.1, h₀.quiet.2.1, h₀.quiet.2.2]
    exact Nat.zero_le _
  · intro s₁ s₂ hr hI hst
    rcases reachable_calloutOk hr with ⟨l, hok⟩
    exact hst.one hok hI

end Serial

/-- No instance is attached, and there is no callout. -/
def idleCallout : CalloutSys Nat where
  tmr := ⟨none, fun _ => none, 0, 0⟩
  due := []
  running := []
  next := 0
  attached := []
  enabling := []
  disabling := []
  cancelling := none

theorem idleCallout_init : CalloutInit idleCallout :=
  ⟨⟨rfl, rfl⟩, ⟨rfl, rfl⟩, ⟨rfl, rfl, rfl⟩, rfl⟩

/-- A callout finds nothing that needs a soft interrupt. -/
def calm : Nat → Look := fun _ => ⟨false, none⟩

/-- The first instance is detached, and the second is attached before the count has gone
    down. The callout has seen the empty list in between. -/
theorem lost_callout : ∃ s : CalloutSys Nat, Reachable CalloutInit (CalloutStep False) s ∧
    s.Quiet ∧ s.attached = [1] ∧ s.alive = [] := by
  have h₀ : Reachable CalloutInit (CalloutStep False) idleCallout :=
    Reachable.initial idleCallout_init
  have h₁ := h₀.tail (.attach _ 0 False.elim (by decide))
  have h₂ := (h₁.tail (.enable _ 0 (by decide) rfl)).tail
    (.detach _ 0 1 _ False.elim (by decide) rfl)
  have h₃ := (h₂.tail (.fire _ 0 (by decide))).tail
    (.handle _ 0 0 calm 0 0 _ (by decide) rfl)
  have h₄ := (h₃.tail (.attach _ 1 False.elim (by decide))).tail (.enable _ 1 (by decide) rfl)
  have h₅ := h₄.tail (.disable _ 0 (by decide) rfl)
  exact ⟨_, h₅, ⟨rfl, rfl, rfl⟩, rfl, rfl⟩

/-- The first instance is detached while the second is attached but not counted, and the
    callout is running. It starts itself again, and the second instance starts another
    one, which is the one that its detach cancels. -/
theorem left_callout : ∃ s : CalloutSys Nat, Reachable CalloutInit (CalloutStep False) s ∧
    s.Quiet ∧ s.attached = [] ∧ s.alive = [1] := by
  have h₀ : Reachable CalloutInit (CalloutStep False) idleCallout :=
    Reachable.initial idleCallout_init
  have h₁ := h₀.tail (.attach _ 0 False.elim (by decide))
  have h₂ := (h₁.tail (.enable _ 0 (by decide) rfl)).tail (.attach _ 1 False.elim (by decide))
  have h₃ := (h₂.tail (.detach _ 0 2 _ False.elim (by decide) rfl)).tail (.fire _ 0 (by decide))
  have h₄ := (h₃.tail (.disable _ 0 (by decide) rfl)).tail
    (.handle _ 0 1 calm 0 0 _ (by decide) rfl)
  have h₅ := (h₄.tail (.cancel _ 0 rfl (by decide))).tail (.enable _ 1 (by decide) rfl)
  have h₆ := (h₅.tail (.detach _ 1 1 _ False.elim (by decide) rfl)).tail
    (.disable _ 1 (by decide) rfl)
  have h₇ := h₆.tail (.cancel _ 2 rfl (by decide))
  exact ⟨_, h₇, ⟨rfl, rfl, rfl⟩, rfl, rfl⟩

/-- The callout is kept if attach and detach do not overlap, and the list in any case. In
    any interleaving the list has the instances that are attached or on the way to it,
    detach finds its instance, the count is that of the instances whose detach is not
    over, and the callout scans each instance once and is due again after `t_ticks` or
    when the first frozen wait queue is to thaw. If attach and detach do not overlap,
    there is exactly one callout as long as an instance is attached, and none when the last
    is gone; the list is empty in `ghd_timeout_disable`, as is asserted there, only if no
    other instance is attached. If they do overlap, an instance may be left without a
    callout, and a callout may be left without an instance. -/
theorem timer_callout :
    (∀ {ι : Type} [DecidableEq ι] (serial : Prop) (s : CalloutSys ι),
      Reachable CalloutInit (CalloutStep serial) s → ∃ l : List ι,
        Linked s.tmr.nextp s.tmr.listp l ∧ l.Nodup ∧ l.Perm (s.attached ++ s.enabling) ∧
        s.tmr.refs = s.attached.length + s.disabling.length ∧
        (∀ x ∈ s.attached, ∀ n, l.length ≤ n → (s.tmr.unlink n x).isSome) ∧
        ∀ look lbolt ticks n, l.length ≤ n → s.tmr.scan n look lbolt ticks =
          some (if l = [] then none else
            some (min ((delays look lbolt l).foldl min 0x7FFFFFFF) ticks,
              alarms look lbolt l))) ∧
    (∀ {ι : Type} [DecidableEq ι] (s : CalloutSys ι),
      Reachable CalloutInit (CalloutStep True) s →
        (s.attached ≠ [] → s.alive = [s.tmr.timeoutId]) ∧
        (s.Quiet → s.attached = [] → s.alive = []) ∧
        ∀ x ∈ s.disabling, s.tmr.listp = none ↔ s.attached = []) ∧
    (∃ s : CalloutSys Nat, Reachable CalloutInit (CalloutStep False) s ∧
      s.Quiet ∧ s.attached = [1] ∧ s.alive = []) ∧
    ∃ s : CalloutSys Nat, Reachable CalloutInit (CalloutStep False) s ∧
      s.Quiet ∧ s.attached = [] ∧ s.alive = [1] := by
  refine ⟨fun serial s hs => ?_, fun s hs => ?_, lost_callout, left_callout⟩
  · rcases reachable_calloutOk hs with ⟨l, hok⟩
    refine ⟨l, hok.linked, hok.nodup, hok.listed, hok.refs, fun x hx n hn => ?_,
      fun look lbolt ticks n hn => scan_linked_list look lbolt hok.linked ticks hn⟩
    have hmem : x ∈ l := hok.listed.mem_iff.2 (List.mem_append_left _ hx)
    rcases unlink_linked hok.linked hok.nodup hmem hn with ⟨s', hs', _⟩
    rw [hs']
    rfl
  · have hone := reachable_calloutOne hs
    refine ⟨hone.some, fun hq hatt => hone.none hatt hq.2.1 hq.2.2, fun x hx => ?_⟩
    rcases reachable_calloutOk hs with ⟨l, hok⟩
    have hser := hone.serial
    have hpos := List.length_pos_of_mem hx
    have hen : s.enabling = [] := List.length_eq_zero_iff.1 (by omega)
    have hl := hok.listed
    rw [hen, List.append_nil] at hl
    rw [hok.listp]
    exact ⟨fun h => (h ▸ hl).nil_eq.symm, fun h => (h ▸ hl).eq_nil⟩

/-- A run that does not overlap, up to the middle of a detach. -/
theorem timer_callout_serial : ∃ s : CalloutSys Nat, s.disabling = [0] ∧ s.attached = [1] ∧
    s.alive = [s.tmr.timeoutId] ∧ s.tmr.listp ≠ none ∧ (s.tmr.unlink 1 1).isSome := by
  have h₀ : Reachable CalloutInit (CalloutStep True) idleCallout :=
    Reachable.initial idleCallout_init
  have h₁ := (h₀.tail (.attach _ 0 (fun _ => ⟨rfl, rfl, rfl⟩) (by decide))).tail
    (.enable _ 0 (by decide) rfl)
  have h₂ := (h₁.tail (.attach _ 1 (fun _ => ⟨rfl, rfl, rfl⟩) (by decide))).tail
    (.enable _ 1 (by decide) rfl)
  have h₃ := h₂.tail (.detach _ 0 2 _ (fun _ => ⟨rfl, rfl, rfl⟩) (by decide) rfl)
  have hone := timer_callout.2.1 _ h₃
  rcases timer_callout.1 True _ h₃ with ⟨l, _, _, hperm, _, hfind, _⟩
  refine ⟨_, rfl, rfl, hone.1 (by decide), fun hn => ?_, hfind 1 (by decide) 1 ?_⟩
  · exact absurd ((hone.2.2 0 (by decide)).1 hn) (by decide)
  · exact Nat.le_of_eq hperm.length_eq

end Ghd

end Sil3112
