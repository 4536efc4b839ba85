import Sil3112.Ghd.L2
import Sil3112.Lib.Loop

/-!
# Reset Notification

`ghd_reset_notify` registers a callback for the resets of an HBA, or cancels what is
registered for it. A cancellation walks the list and deletes and frees each match. It then
goes on from the element it has freed, by a link that the free may have overwritten, and
that `L2_delete` had turned to the element itself before, so that if it is still there the
walk ends after one match. There is no match for which this goes well.

Each registration is a piece of memory that was not in use. Using one that is freed, or
following NULL, is a result of its own (`none`). The walks are run for a number of rounds,
of which there must be more than registrations. The mutex is held, so each call is a step.

## Main definitions

* `Notify`: The list of an HBA, with the registrations in use.
* `Notify.cancel`, `Notify.callbacks`: The two walks.
* `Regs.call`: What a call is meant to do, on a list of registrations.
* `Regs.NoMatch`: No cancellation matches.

## Theorems

* `cancel_none`, `cancel_match`: A cancellation without a match, and with one.
* `callbacks_run`: A reset calls each registration, in order.
* `reset_notify_iff`: Exactly the runs without a match do what they are meant to.
-/

namespace Sil3112

namespace Ghd

variable {ν : Type} [DecidableEq ν]

/-! ## The functions -/

/-- What is registered. -/
structure ResetReg where
  gtgtp : BitVec 64
  callback : BitVec 64
  arg : BitVec 64
  deriving DecidableEq

/-- `ccc_reset_notify_list`, and the `ghd_reset_notify_list_t` in use. -/
structure Notify (ν : Type) where
  l2 : L2 ν ν
  node : ν → Option ResetReg

/-- `L2_next(&rnp->l2_link)` -/
def Notify.follow (s : Notify ν) (rnp : ν) : Option (Option ν) :=
  match s.node rnp with
  | none => none
  | some _ => s.l2.next rnp

/-- `SCSI_RESET_NOTIFY`, where `kmem_zalloc` gives `rnp`. -/
def Notify.notify (s : Notify ν) (listp rnp : ν) (reg : ResetReg) : Option (Notify ν) :=
  (s.l2.add listp rnp (some rnp)).map fun l2 => ⟨l2, Function.update s.node rnp (some reg)⟩

/-- The variables of the loop of `SCSI_RESET_CANCEL`. -/
structure Cancel (ν : Type) where
  s : Notify ν
  rc : Bool
  rnp : Option ν

def Notify.cancelBody (reg : ResetReg) (c : Cancel ν) : Cancel ν ⊕ Option (Notify ν × Bool) :=
  match c.rnp with
  | none => .inr (some (c.s, c.rc))
  | some rnp =>
    match c.s.node rnp with
    | none => .inr none
    | some r =>
      if r = reg then
        match c.s.l2.delete rnp with
        | none => .inr none
        | some l2 =>
          let s : Notify ν := ⟨l2, Function.update c.s.node rnp none⟩
          match s.follow rnp with
          | none => .inr none
          | some next => .inl ⟨s, true, next⟩
      else
        match c.s.follow rnp with
        | none => .inr none
        | some next => .inl ⟨c.s, c.rc, next⟩

/-- `SCSI_RESET_CANCEL` -/
def Notify.cancel (n : Nat) (s : Notify ν) (listp : ν) (reg : ResetReg) :
    Option (Notify ν × Bool) := do
  let rnp ← s.l2.next listp
  (Loop.run (Notify.cancelBody reg) n ⟨s, false, rnp⟩).join

/-- A round of `ghd_do_reset_notify_callbacks`, with the calls so far. An HBA driver need
    not have set `ccc_hba_reset_notify_callback`. -/
def Notify.callbackBody (s : Notify ν) (hba : Bool) :
    List ResetReg × Option ν → List ResetReg × Option ν ⊕ Option (List ResetReg)
  | (calls, none) => .inr (some calls)
  | (calls, some rnp) =>
    match s.node rnp with
    | none => .inr none
    | some r =>
      match s.follow rnp with
      | none => .inr none
      | some next => .inl (if hba then calls ++ [r] else calls, next)

/-- `ghd_do_reset_notify_callbacks` -/
def Notify.callbacks (n : Nat) (s : Notify ν) (hba : Bool) (listp : ν) :
    Option (List ResetReg) := do
  let rnp ← s.l2.next listp
  (Loop.run (s.callbackBody hba) n ([], rnp)).join

/-- A call of `ghd_reset_notify` by its flag, or a reset. -/
inductive NotifyOp (ν : Type) where
  | notify (rnp : ν) (reg : ResetReg)
  | cancel (reg : ResetReg)
  | other
  | reset

/-- What a call returns, or whom a reset calls. -/
inductive NotifyRet where
  | rc (b : Bool)
  | called (regs : List ResetReg)

def Notify.call (n : Nat) (hba : Bool) (listp : ν) (s : Notify ν) :
    NotifyOp ν → Option (Notify ν × NotifyRet)
  | .notify rnp reg => (s.notify listp rnp reg).map fun s => (s, .rc true)
  | .cancel reg => (s.cancel n listp reg).map fun r => (r.1, .rc r.2)
  | .other => some (s, .rc false)
  | .reset => (s.callbacks n hba listp).map fun calls => (s, .called calls)

/-- Calls one after the other. -/
def Notify.run (n : Nat) (hba : Bool) (listp : ν) (s : Notify ν) :
    List (NotifyOp ν) → Option (Notify ν × List NotifyRet)
  | [] => some (s, [])
  | op :: ops => do
    let (s, r) ← s.call n hba listp op
    let (s, rs) ← s.run n hba listp ops
    some (s, r :: rs)

/-! ## What they are for -/

/-- What a call is meant to do, on the registrations in their order. -/
def Regs.call (hba : Bool) (q : List (ν × ResetReg)) :
    NotifyOp ν → List (ν × ResetReg) × NotifyRet
  | .notify rnp reg => (q ++ [(rnp, reg)], .rc true)
  | .cancel reg => (q.filter fun x => x.2 ≠ reg, .rc (q.any fun x => x.2 = reg))
  | .other => (q, .rc false)
  | .reset => (q, .called (if hba then q.map Prod.snd else []))

def Regs.run (hba : Bool) (q : List (ν × ResetReg)) :
    List (NotifyOp ν) → List (ν × ResetReg) × List NotifyRet
  | [] => (q, [])
  | op :: ops =>
    let r := Regs.run hba (Regs.call hba q op).1 ops
    (r.1, (Regs.call hba q op).2 :: r.2)

/-- Memory for a registration is not in use. -/
def Regs.New (listp : ν) (q : List (ν × ResetReg)) : NotifyOp ν → Prop
  | .notify rnp _ => rnp ∉ listp :: q.map Prod.fst
  | .cancel _ => True
  | .other => True
  | .reset => True

def Regs.Fresh (hba : Bool) (listp : ν) (q : List (ν × ResetReg)) : List (NotifyOp ν) → Prop
  | [] => True
  | op :: ops => Regs.New listp q op ∧ Regs.Fresh hba listp (Regs.call hba q op).1 ops

/-- The call does not cancel what is registered. -/
def Regs.Keeps (q : List (ν × ResetReg)) : NotifyOp ν → Prop
  | .cancel reg => ∀ x ∈ q, x.2 ≠ reg
  | .notify _ _ => True
  | .other => True
  | .reset => True

/-- No cancellation matches. -/
def Regs.NoMatch (hba : Bool) (q : List (ν × ResetReg)) : List (NotifyOp ν) → Prop
  | [] => True
  | op :: ops => Regs.Keeps q op ∧ Regs.NoMatch hba (Regs.call hba q op).1 ops

/-- The list has these registrations. -/
structure Notify.Rep (s : Notify ν) (listp : ν) (q : List (ν × ResetReg)) (k : Queues ν ν) :
    Prop where
  l2 : s.l2.Rep k
  list : k.q listp = some (q.map Prod.fst)
  only : ∀ x l, k.q x = some l → x = listp
  head : k.priv listp = none
  priv : ∀ x ∈ q, k.priv x.1 = some x.1
  node : ∀ x ∈ q, s.node x.1 = some x.2

/-! ## The walks -/

variable {s : Notify ν} {listp : ν} {q a b : List (ν × ResetReg)} {k : Queues ν ν} {n : Nat}
  {reg : ResetReg} {x : ν × ResetReg} {hba : Bool}

/-- The next registration. -/
theorem Notify.Rep.next_head (h : s.Rep listp q k) :
    s.l2.next listp = some (q.head?.map Prod.fst) := by
  rw [h.l2.next_at (a := []) h.list h.head rfl]
  cases q with
  | nil => rfl
  | cons x q => exact congrArg some (h.priv x List.mem_cons_self)

theorem Notify.Rep.follow (h : s.Rep listp q k) (hq : q = a ++ x :: b) :
    s.follow x.1 = some (b.head?.map Prod.fst) := by
  subst hq
  have hcells : listp :: (a ++ x :: b).map Prod.fst =
      (listp :: a.map Prod.fst) ++ x.1 :: b.map Prod.fst := by
    rw [List.map_append, List.map_cons]
    rfl
  unfold Notify.follow
  rw [h.node x (List.mem_append_right a List.mem_cons_self)]
  dsimp only
  rw [h.l2.next_at h.list h.head hcells]
  cases b with
  | nil => rfl
  | cons y b =>
      refine congrArg some (h.priv y ?_)
      exact List.mem_append_right a (List.mem_cons_of_mem x List.mem_cons_self)

theorem cancelBody_next (h : s.Rep listp q k) (hq : q = a ++ x :: b) (hne : x.2 ≠ reg)
    (rc : Bool) : Notify.cancelBody reg ⟨s, rc, some x.1⟩ =
      .inl ⟨s, rc, b.head?.map Prod.fst⟩ := by
  unfold Notify.cancelBody
  simp only [h.node x (hq ▸ List.mem_append_right a List.mem_cons_self), if_neg hne, h.follow hq]

/-- The walk goes on from what it has freed. -/
theorem cancelBody_match (hnode : s.node x.1 = some x.2) (rc : Bool) :
    Notify.cancelBody x.2 ⟨s, rc, some x.1⟩ = .inr none := by
  unfold Notify.cancelBody
  simp only [hnode, if_pos]
  cases s.l2.delete x.1 with
  | none => rfl
  | some l2 =>
      simp only [Notify.follow, Function.update_self]

/-- The walk comes to the end of registrations that do not match. -/
theorem cancelBody_run (h : s.Rep listp q k) (hq : q = a ++ b) (hb : ∀ x ∈ b, x.2 ≠ reg)
    (hn : b.length < n) (rc : Bool) :
    Loop.run (Notify.cancelBody reg) n ⟨s, rc, b.head?.map Prod.fst⟩ = some (some (s, rc)) := by
  induction b generalizing a n with
  | nil =>
      obtain ⟨n, rfl⟩ : ∃ m, n = m + 1 := ⟨n - 1, by omega⟩
      exact Loop.run_leave rfl n
  | cons x b ih =>
      rw [List.length_cons] at hn
      obtain ⟨n, rfl⟩ : ∃ m, n = m + 1 := ⟨n - 1, by omega⟩
      have hnext := cancelBody_next h hq (hb x List.mem_cons_self) rc
      refine (Loop.run_next hnext n).trans ?_
      exact ih (a := a ++ [x]) (by rw [hq, List.append_assoc]; rfl)
        (fun y hy => hb y (List.mem_cons_of_mem x hy)) (by omega)

/-- A cancellation that matches nothing. -/
theorem cancel_none (h : s.Rep listp q k) (hq : ∀ x ∈ q, x.2 ≠ reg) (hn : q.length < n) :
    s.cancel n listp reg = some (s, false) := by
  unfold Notify.cancel
  rw [h.next_head]
  simp only [Option.bind_eq_bind, Option.bind_some]
  rw [cancelBody_run (a := []) h rfl hq hn]
  rfl

/-- A cancellation that matches uses what it has freed. -/
theorem cancel_match (h : s.Rep listp q k) (hx : x ∈ q) (hn : q.length < n) :
    s.cancel n listp x.2 = none := by
  unfold Notify.cancel
  rw [h.next_head]
  simp only [Option.bind_eq_bind, Option.bind_some]
  -- the walk has come as far as `a`, and the match is still ahead, in `b`
  suffices hrun : ∀ (b a : List (ν × ResetReg)) (n : Nat), q = a ++ b → x ∈ b → b.length < n →
      Loop.run (Notify.cancelBody x.2) n ⟨s, false, b.head?.map Prod.fst⟩ = some none by
    rw [hrun q [] n rfl hx hn]
    rfl
  intro b
  induction b with
  | nil => exact fun _ _ _ hx => absurd hx List.not_mem_nil
  | cons y b ih =>
      intro a n hq hx hn
      rw [List.length_cons] at hn
      obtain ⟨n, rfl⟩ : ∃ m, n = m + 1 := ⟨n - 1, by omega⟩
      by_cases hy : y.2 = x.2
      · have hnode := h.node y (hq ▸ List.mem_append_right a List.mem_cons_self)
        rw [← hy]
        exact Loop.run_leave (cancelBody_match hnode false) n
      · have hne : x ≠ y := fun hxy => hy (congrArg Prod.snd hxy.symm)
        refine (Loop.run_next (cancelBody_next h hq hy false) n).trans ?_
        exact ih (a ++ [y]) n (by rw [hq, List.append_assoc]; rfl)
          ((List.mem_cons.mp hx).resolve_left hne) (by omega)

/-- A reset calls each registration, in order. -/
theorem callbacks_run (h : s.Rep listp q k) (hn : q.length < n) :
    s.callbacks n hba listp = some (if hba then q.map Prod.snd else []) := by
  unfold Notify.callbacks
  rw [h.next_head]
  simp only [Option.bind_eq_bind, Option.bind_some]
  -- the registrations `a` have been called, and `b` are still to come
  suffices hrun : ∀ (b a : List (ν × ResetReg)) (n : Nat), q = a ++ b → b.length < n →
      Loop.run (s.callbackBody hba) n
        (if hba then a.map Prod.snd else [], b.head?.map Prod.fst) =
          some (some (if hba then q.map Prod.snd else [])) by
    have hrun := hrun q [] n rfl hn
    rw [List.map_nil, ite_self] at hrun
    rw [hrun]
    rfl
  intro b
  induction b with
  | nil =>
      intro a n hq hn
      obtain ⟨n, rfl⟩ : ∃ m, n = m + 1 := ⟨n - 1, by omega⟩
      rw [hq, List.append_nil]
      exact Loop.run_leave rfl n
  | cons y b ih =>
      intro a n hq hn
      rw [List.length_cons] at hn
      obtain ⟨n, rfl⟩ : ∃ m, n = m + 1 := ⟨n - 1, by omega⟩
      have hnode := h.node y (hq ▸ List.mem_append_right a List.mem_cons_self)
      have hnext : s.callbackBody hba (if hba then a.map Prod.snd else [], some y.1) =
          .inl (if hba then (a ++ [y]).map Prod.snd else [], b.head?.map Prod.fst) := by
        unfold Notify.callbackBody
        simp only [hnode, h.follow hq]
        cases hba with
        | false => rfl
        | true =>
            rw [List.map_append]
            rfl
      refine (Loop.run_next hnext n).trans ?_
      exact ih (a ++ [y]) n (by rw [hq, List.append_assoc]; rfl) (by omega)

/-- A registration goes to the end. -/
theorem notify_add {rnp : ν} (h : s.Rep listp q k) (hnew : rnp ∉ listp :: q.map Prod.fst)
    (reg : ResetReg) :
    ∃ s' k', s.notify listp rnp reg = some s' ∧ s'.Rep listp (q ++ [(rnp, reg)]) k' := by
  rcases not_or.mp (mt List.mem_cons.mpr hnew) with ⟨hne, hq⟩
  have hfree : k.Free rnp := by
    intro x l hl hmem
    obtain rfl := h.only x l hl
    rw [h.list] at hl
    cases hl
    exact absurd hmem hnew
  rcases h.l2.add (p := some rnp) h.list hfree hne with ⟨l2, hl2, hrep⟩
  have hold : ∀ x ∈ q, x.1 ≠ rnp := fun x hx => ne_of_mem_of_not_mem (List.mem_map_of_mem hx) hq
  refine ⟨_, _, congrArg _ hl2, hrep, ?_, ?_, ?_, ?_, ?_⟩
  · rw [Queues.take_q_self, List.map_append]
    rfl
  · intro x l hl
    rcases Queues.take_cases hne hl with ⟨hx, -⟩ | ⟨-, -, hl⟩
    · exact hx
    · exact h.only x l hl
  · exact (Function.update_of_ne (Ne.symm hne) ..).trans h.head
  · intro x hx
    rcases List.mem_append.mp hx with hx | hx
    · exact (Function.update_of_ne (hold x hx) ..).trans (h.priv x hx)
    · rw [List.mem_singleton.mp hx]
      exact Function.update_self ..
  · intro x hx
    rcases List.mem_append.mp hx with hx | hx
    · exact (Function.update_of_ne (hold x hx) ..).trans (h.node x hx)
    · rw [List.mem_singleton.mp hx]
      exact Function.update_self ..

/-! ## Any calls -/

omit [DecidableEq ν] in
theorem Regs.call_cancel (hba : Bool) (hq : ∀ x ∈ q, x.2 ≠ reg) :
    Regs.call hba q (.cancel reg) = (q, .rc false) := by
  have hfilter : q.filter (fun x => x.2 ≠ reg) = q :=
    List.filter_eq_self.mpr fun x hx => decide_eq_true (hq x hx)
  have hany : q.any (fun x => x.2 = reg) = false := by
    rw [List.any_eq_false]
    exact fun x hx => by simpa using hq x hx
  change (q.filter _, NotifyRet.rc (q.any _)) = _
  rw [hfilter, hany]

/-- A call that keeps what is registered does what it is meant to. -/
theorem Notify.Rep.call {op : NotifyOp ν} (h : s.Rep listp q k) (hnew : Regs.New listp q op)
    (hkeeps : Regs.Keeps q op) (hn : q.length < n) (hba : Bool) :
    ∃ s' k', s.call n hba listp op = some (s', (Regs.call hba q op).2) ∧
      s'.Rep listp (Regs.call hba q op).1 k' := by
  cases op with
  | notify rnp reg =>
      rcases notify_add h hnew reg with ⟨s', k', hs', hrep⟩
      exact ⟨s', k', congrArg (Option.map fun s => (s, NotifyRet.rc true)) hs', hrep⟩
  | cancel reg =>
      rw [Regs.call_cancel hba hkeeps]
      have hnone := congrArg (Option.map fun r : Notify ν × Bool => (r.1, NotifyRet.rc r.2))
        (cancel_none h hkeeps hn)
      exact ⟨s, k, hnone, h⟩
  | other => exact ⟨s, k, rfl, h⟩
  | reset =>
      exact ⟨s, k, congrArg (Option.map fun c => (s, NotifyRet.called c)) (callbacks_run h hn), h⟩

/-- A call that does not keep what is registered does not return. -/
theorem Notify.Rep.call_none {op : NotifyOp ν} (h : s.Rep listp q k) (hkeeps : ¬ Regs.Keeps q op)
    (hn : q.length < n) (hba : Bool) : s.call n hba listp op = none := by
  cases op with
  | cancel reg =>
      have hex : ∃ x ∈ q, x.2 = reg := by
        by_contra hall
        exact hkeeps fun x hx heq => hall ⟨x, hx, heq⟩
      rcases hex with ⟨x, hx, rfl⟩
      exact congrArg (Option.map fun r : Notify ν × Bool => (r.1, NotifyRet.rc r.2))
        (cancel_match h hx hn)
  | notify rnp reg => exact absurd trivial hkeeps
  | other => exact absurd trivial hkeeps
  | reset => exact absurd trivial hkeeps

omit [DecidableEq ν] in
theorem Regs.length_call (hba : Bool) (q : List (ν × ResetReg)) (op : NotifyOp ν) :
    (Regs.call hba q op).1.length ≤ q.length + 1 := by
  cases op with
  | notify rnp reg => exact Nat.le_of_eq List.length_append
  | cancel reg => exact Nat.le_succ_of_le (List.length_filter_le _ q)
  | other => exact Nat.le_succ q.length
  | reset => exact Nat.le_succ q.length

theorem run_cons {s' : Notify ν} {op : NotifyOp ν} {ops : List (NotifyOp ν)} {r : NotifyRet}
    (hs' : s.call n hba listp op = some (s', r)) : s.run n hba listp (op :: ops) =
      (s'.run n hba listp ops).map fun x => (x.1, r :: x.2) := by
  rw [Notify.run, hs']
  simp only [Option.bind_eq_bind, Option.bind_some]
  cases s'.run n hba listp ops with
  | none => rfl
  | some x => rfl

/-- The calls do what they are meant to: registrations in their order, what is returned,
    and whom a reset calls. -/
def Notify.Meets (n : Nat) (hba : Bool) (listp : ν) (s : Notify ν) (q : List (ν × ResetReg))
    (ops : List (NotifyOp ν)) : Prop :=
  ∃ s' k', s.run n hba listp ops = some (s', (Regs.run hba q ops).2) ∧
    s'.Rep listp (Regs.run hba q ops).1 k'

/-- Any registrations, cancellations and resets do what they are meant to if and only if no
    cancellation matches. -/
theorem reset_notify_iff {ops : List (NotifyOp ν)} (h : s.Rep listp q k)
    (hfresh : Regs.Fresh hba listp q ops) (hn : q.length + ops.length < n) :
    Notify.Meets n hba listp s q ops ↔ Regs.NoMatch hba q ops := by
  induction ops generalizing s q k with
  | nil => exact iff_of_true ⟨s, k, rfl, h⟩ trivial
  | cons op ops ih =>
      rw [List.length_cons] at hn
      have hlen := Regs.length_call hba q op
      -- a call that keeps the list goes on as the list does; the other one follows a link of
      -- a freed element
      by_cases hkeeps : Regs.Keeps q op
      · rcases h.call (n := n) hfresh.1 hkeeps (by omega) hba with ⟨s', k', hs', hrep⟩
        have hrest := ih hrep hfresh.2 (by omega)
        constructor
        · rintro ⟨s'', k'', hs'', hrep''⟩
          rw [run_cons hs'] at hs''
          rcases Option.map_eq_some_iff.mp hs'' with ⟨⟨s₁, rs⟩, hs₁, heq⟩
          cases heq
          exact ⟨hkeeps, hrest.mp ⟨s₁, k'', hs₁, hrep''⟩⟩
        · rintro ⟨-, hno⟩
          rcases hrest.mpr hno with ⟨s'', k'', hs'', hrep''⟩
          refine ⟨s'', k'', ?_, hrep''⟩
          rw [run_cons hs', hs'']
          rfl
      · have hnone := h.call_none (n := n) hkeeps (by omega) hba
        refine iff_of_false ?_ fun hno => hkeeps hno.1
        rintro ⟨s'', k'', hs'', -⟩
        rw [Notify.run, hnone] at hs''
        cases hs''

/-- The list of an HBA at first, where cell 0 is its head. -/
def Notify.start : Notify Nat := ⟨⟨⟨some, some⟩, fun _ => none⟩, fun _ => none⟩

def Queues.headOnly : Queues Nat Nat := ⟨fun x => if x = 0 then some [] else none, fun _ => none⟩

theorem Notify.start_rep : Notify.start.Rep 0 [] Queues.headOnly := by
  have hlist : ∀ x l, Queues.headOnly.q x = some l → x = 0 ∧ l = [] := by
    intro x l hl
    unfold Queues.headOnly at hl
    dsimp only at hl
    split at hl
    · exact ⟨‹_›, (Option.some.inj hl).symm⟩
    · cases hl
  refine ⟨⟨⟨?_, ?_⟩, rfl, ?_⟩, rfl, fun x l hl => (hlist x l hl).1, rfl, nofun, nofun⟩
  · intro x l hl
    rw [(hlist x l hl).2]
    exact List.nodup_singleton x
  · rintro c x y ⟨l, hl, -⟩ ⟨m, hm, -⟩
    exact (hlist x l hl).1.trans (hlist y m hm).1.symm
  · intro x l hl
    rw [(hlist x l hl).2]
    exact Rings.isRing_iff.mpr
      ⟨Rings.isSeg_singleton x, by rintro y ⟨⟩ z ⟨⟩; exact ⟨rfl, rfl⟩⟩

/-- Two registrations, a cancellation of a third, and a reset. -/
theorem reset_notify_iff_other : Notify.Meets 9 true 0 Notify.start []
    [.notify 1 ⟨1, 2, 3⟩, .notify 2 ⟨1, 2, 4⟩, .cancel ⟨1, 2, 5⟩, .reset] :=
  (reset_notify_iff Notify.start_rep
    (by simp [Regs.Fresh, Regs.New, Regs.call]) (by decide)).mpr
    (by simp [Regs.NoMatch, Regs.Keeps, Regs.call])

/-- A registration is cancelled. -/
theorem reset_notify_freed : ¬ Notify.Meets 9 true 0 Notify.start []
    [.notify 1 ⟨1, 2, 3⟩, .cancel ⟨1, 2, 3⟩] := by
  rintro ⟨s', k', hs', -⟩
  cases hs'

end Ghd

end Sil3112
