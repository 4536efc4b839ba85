import Mathlib.Algebra.BigOperators.Group.Finset.Piecewise
import Mathlib.Algebra.Order.BigOperators.Group.Finset
import Mathlib.Tactic.Linarith
import Sil3112.Ghd.Timer

/-!
# Recovery by Timeouts

`sol11ghd_timer_poll` goes on as long as a request on the timer list has expired. Each
round takes one such request a step up: to a state with a higher number, or, when it has
been given up already, to another minute as `GCMD_STATE_HUNG`. The time for that minute
begins with the round, so the loop ends if giving up takes no time, as it does in
`ata_timeout_func`: the states can rise only so often, and in between each hung request
expires once at most. A reset that takes longer than the time of the next state does not
matter, for then that state is left in the same call.

No round lowers the state of a request. So a request can be found expired only a few
times before it is completed or given up, whatever happens in between.

## Main definitions

* `Timers.toGo`, `Timers.late`: What is left to rise, and the number of expired requests.
* `Rises`: No state is lowered.
* `Ladder`: A run of polls, with the number of those that found a request expired.

## Theorems

* `poll_round`: What a round of `sol11ghd_timer_poll` does.
* `timerPoll_ends`: The loop ends.
* `Ladder.bound`: A request rises with every poll that finds it expired.
* `timer_recovery`: Every expired request takes a step, and soon the last one.
-/

namespace Sil3112

namespace Ghd

/-! ## One call -/

section Call

variable {χ : Type} {e : TimerEnv} {f : TimeoutFunc χ} {acc : Gcmd → Prop}

/-- The next action leads to a higher state. -/
theorem nextAction_rises (x : GAction) : x.nextState.num ≤ x.nextAction.nextState.num := by
  cases x <;> decide

/-- An expired request is due for an action that raises its state, up to the last one. -/
theorem timerAction_rises {c : CmdState} {x : GAction} (h : timerAction c = some x) :
    c.num < x.nextState.num ∨ c = .hung ∧ x = .incomplete := by
  cases c <;> cases h <;> decide

/-- No state has a higher number than that of a request that has been given up. -/
theorem CmdState.num_le (c : CmdState) : c.num ≤ CmdState.hung.num := by
  cases c <;> decide

theorem CmdState.eq_hung {c : CmdState} (h : CmdState.hung.num ≤ c.num) : c = .hung := by
  cases c <;> first | rfl | exact absurd h (by decide)

/-- How often a request has been taken further. -/
def CmdState.level (c : CmdState) : Nat := c.num - 3

theorem CmdState.level_le {c c' : CmdState} (h : c.num ≤ c'.num) : c.level ≤ c'.level :=
  Nat.sub_le_sub_right h 3

/-- An action on a request that has been started takes it to the first level at least. -/
theorem nextState_level {x : GAction} (h : ¬x.Early) : 4 ≤ x.nextState.num := by
  cases x with
  | earlyTimeout => exact absurd (Or.inl rfl) h
  | earlyAbort => exact absurd (Or.inr rfl) h
  | _ => decide

/-- The actions of a call go up. -/
theorem newstateLoop_last {g : Option Gcmd} {d : GdevId} (n : Nat) : ∀ {x : GAction} {k : χ}
    {s : Timers} {out : NewstateOut χ}, newstateLoop e f g d n x k s = some out →
    x.nextState.num ≤ out.last.nextState.num := by
  induction n with
  | zero => exact fun h => nomatch h
  | succ n ih =>
      intro x k s out h
      unfold newstateLoop at h
      dsimp only at h
      split at h
      · cases h
        exact Nat.le_refl _
      · split at h
        · cases h
          exact Nat.le_refl _
        · split at h
          · cases h
            exact Nat.le_refl _
          · exact (nextAction_rises x).trans (ih h)

theorem answer_lbolt (s : Timers) (r : HbaAnswer) : (s.answer r).lbolt = s.lbolt + r.ticks := by
  have hall : ∀ (l : List Gcmd) (s : Timers), (l.foldl Timers.complete s).lbolt = s.lbolt := by
    intro l
    induction l with
    | nil => exact fun _ => rfl
    | cons g l ih => exact fun s => ih _
  exact congrArg (· + r.ticks) (hall r.completes s)

theorem restart_lbolt (e : TimerEnv) (s : Timers) (g : Option Gcmd) (x : GAction) :
    (s.restart e g x).lbolt = s.lbolt := by
  cases g with
  | none => rfl
  | some g =>
      unfold Timers.restart
      dsimp only
      split
      · rfl
      · rfl

theorem retract_lbolt (s : Timers) (g : Option Gcmd) (x : GAction) :
    (s.retract g x).lbolt = s.lbolt := by
  cases g with
  | none => rfl
  | some g =>
      unfold Timers.retract
      dsimp only
      split
      · rfl
      · rfl

/-- The clock does not go back. -/
theorem newstateLoop_lbolt {g : Option Gcmd} {d : GdevId} (n : Nat) : ∀ {x : GAction} {k : χ}
    {s : Timers} {out : NewstateOut χ}, newstateLoop e f g d n x k s = some out →
    s.lbolt ≤ out.sys.lbolt := by
  induction n with
  | zero => exact fun h => nomatch h
  | succ n ih =>
      intro x k s out h
      have hans := answer_lbolt (s.restart e g x) (f k g d x).2
      rw [restart_lbolt] at hans
      unfold newstateLoop at h
      dsimp only at h
      split at h
      · cases h
        exact (restart_lbolt e s g x).ge
      · split at h
        · cases h
          exact le_of_le_of_eq (Nat.le_add_right _ _) hans.symm
        · split at h
          · cases h
            exact le_of_le_of_eq (Nat.le_add_right _ _) hans.symm
          · have hrest := ih h
            rw [retract_lbolt, hans] at hrest
            omega

/-- Giving up is one action. -/
theorem newstateLoop_incomplete {g : Option Gcmd} {d : GdevId} {n : Nat} {k : χ} {s : Timers}
    {out : NewstateOut χ} (h : newstateLoop e f g d (n + 1) .incomplete k s = some out) :
    out.sys = (s.restart e g .incomplete).answer (f k g d .incomplete).2 := by
  unfold newstateLoop at h
  dsimp only at h
  rw [if_neg (fun hc => absurd hc.1 (by decide)), if_pos rfl] at h
  split at h
  · cases h
    exact Timers.scan_incomplete e _ g d
  · cases h
    rfl

/-- What a round of `sol11ghd_timer_poll` does to the requests. -/
structure Round (acc : Gcmd → Prop) (g : Gcmd) (s s' : Timers) : Prop where
  sound : s'.Sound acc
  valid : s'.Valid acc
  done : ∀ y ∈ s.done, y ∈ s'.done
  lbolt : s.lbolt ≤ s'.lbolt
  rises : ∀ y ∈ s'.activel, (s.cmdState y).num ≤ (s'.cmdState y).num
  own : g ∈ s'.activel → (s.cmdState g).level < (s'.cmdState g).level ∨ s.cmdState g = .hung
  times : ∀ y, y ≠ g → s'.cmdTimeout y = s.cmdTimeout y ∧ s'.startTime y = s.startTime y

/-- A hung request gets another minute, and the clock stands still. -/
structure Again (e : TimerEnv) (g : Gcmd) (s s' : Timers) : Prop where
  lbolt : s'.lbolt = s.lbolt
  start : s'.startTime g = s.lbolt
  timeout : s'.cmdTimeout g = CmdState.hung.timeout * e.hz

/-- A round for an expired request returns, and raises its state or gives it another
    minute. -/
theorem poll_round (hf : f.Ok) (hquick : ∀ k g d, (f k g d .incomplete).2.ticks = 0)
    {s s₁ : Timers} (hs : s.Sound acc) (hv : s.Valid acc) {g : Gcmd} {x : GAction}
    (hget : s.timeoutGet = some (g, s₁)) (hx : timerAction (s₁.cmdState g) = some x) (k : χ) :
    ∃ out, timerNewstate e f (some g) (e.gdevOf g) x k s₁ = some out ∧
      Round acc g s out.sys ∧ (s.cmdState g = .hung → Again e g s out.sys) := by
  have hc := TimerCall.poll (e := e) g s₁ x hget hx
  rcases hc.off hs with ⟨hoff, hstate, hdone⟩
  rcases hc.newstate hf hs k with ⟨out, hout, hok, hsound, hdn⟩
  have hsteps : x.steps ≤ 6 := by cases x <;> decide
  rcases newstateLoop_spec (e := e) (d := e.gdevOf g) (k := k) hf 6 hsteps hoff with
    ⟨out', t, hout', hset⟩
  have heq : out' = out := Option.some.inj (hout'.symm.trans hout)
  subst heq
  have hlast := newstateLoop_last 6 hout'
  have hclock := newstateLoop_lbolt 6 hout'
  rcases timeoutGet_eq hget with ⟨hg, hs₁⟩
  have hl₁ : s₁.lbolt = s.lbolt := by rw [hs₁]; rfl
  rw [hstate] at hx
  refine ⟨out', hout, ⟨hsound, hok.valid hdn hv, hdn, hl₁ ▸ hclock, fun y hy => ?_, fun hy => ?_,
    fun y hy => ?_⟩, fun hhung => ?_⟩
  · have hmem := (hsound.mem y).1 hy
    by_cases hyg : y = g
    · subst hyg
      rw [(hok.own y rfl hmem.2).2.1]
      rcases timerAction_rises hx with hlt | ⟨hh, hi⟩
      · omega
      · rw [hh]
        rw [hi] at hlast
        exact hlast
    · rcases hok.others y hmem.1 (fun h => hyg (Option.some.inj h).symm) hmem.2 with hsame | hup
      · rw [hsame]
      · exact hup.2.1.le
  · have hmem := (hsound.mem g).1 hy
    have hfour := nextState_level (hok.own g rfl hmem.2).1
    rw [(hok.own g rfl hmem.2).2.1]
    rcases timerAction_rises hx with hlt | ⟨hh, _⟩
    · refine Or.inl ?_
      unfold CmdState.level
      omega
    · exact Or.inr hh
  · have hne : some g ≠ some y := fun h => hy (Option.some.inj h).symm
    rw [hset.scan]
    refine ⟨(hset.keeps.timeout y hne).trans ?_, (hset.keeps.startTime y hne).trans ?_⟩
    · rw [hs₁]
      rfl
    · rw [hs₁]
      rfl
  · -- A request that has been given up is given up again.
    have hi : x = .incomplete := by
      rw [hhung] at hx
      exact (Option.some.inj hx).symm
    subst hi
    have hsys := newstateLoop_incomplete hout'
    have hans := answer_lbolt (s₁.restart e (some g) .incomplete)
      (f k (some g) (e.gdevOf g) .incomplete).2
    have htimes : ∀ (l : List Gcmd) (u : Timers),
        (l.foldl Timers.complete u).startTime = u.startTime ∧
          (l.foldl Timers.complete u).cmdTimeout = u.cmdTimeout := by
      intro l
      induction l with
      | nil => exact fun u => ⟨rfl, rfl⟩
      | cons b l ih => exact fun u => ih _
    have ht := htimes (f k (some g) (e.gdevOf g) .incomplete).2.completes
      (s₁.restart e (some g) .incomplete)
    refine ⟨?_, ?_, ?_⟩
    · rw [hsys, hans, restart_lbolt, hquick, Nat.add_zero, hl₁]
    · rw [hsys]
      refine (congrFun ht.1 g).trans ?_
      rw [← hl₁]
      exact Function.update_self ..
    · rw [hsys]
      exact (congrFun ht.2 g).trans (Function.update_self ..)

end Call

/-! ## The loop ends -/

/-- How far the states of the requests on the list can rise. -/
def Timers.toGo (s : Timers) : Nat :=
  ∑ y ∈ s.activel.toFinset, (CmdState.hung.num - (s.cmdState y).num)

/-- The requests on the list whose time is over. -/
def Timers.late (s : Timers) : Finset Gcmd :=
  s.activel.toFinset.filter fun y => s.expired y = true

section Ends

variable {χ : Type} {e : TimerEnv} {f : TimeoutFunc χ} {acc : Gcmd → Prop} {g : Gcmd}
  {s s' : Timers}

/-- The first expired request. -/
theorem timeoutGet_expired {s₁ : Timers} (h : s.timeoutGet = some (g, s₁)) :
    g ∈ s.activel ∧ s.expired g = true := by
  unfold Timers.timeoutGet at h
  rcases Option.map_eq_some_iff.1 h with ⟨g', hfind, heq⟩
  cases heq
  exact ⟨List.mem_of_find?_eq_some hfind, List.find?_some hfind⟩

theorem timeoutGet_none (h : s.timeoutGet = none) : ∀ y ∈ s.activel, s.expired y = false := by
  unfold Timers.timeoutGet at h
  intro y hy
  simpa using List.find?_eq_none.1 (Option.map_eq_none_iff.1 h) y hy

/-- Nothing comes onto the list in a round. -/
theorem Round.subset (h : Round acc g s s') (hs : s.Sound acc) :
    s'.activel.toFinset ⊆ s.activel.toFinset := by
  intro y hy
  rw [List.mem_toFinset] at hy ⊢
  have hmem := (h.sound.mem y).1 hy
  exact (hs.mem y).2 ⟨hmem.1, fun hd => hmem.2 (h.done y hd)⟩

/-- What is left to rise, counted over the requests that were on the list before. -/
theorem Round.toGo_eq (h : Round acc g s s') (hs : s.Sound acc) :
    s'.toGo = ∑ y ∈ s.activel.toFinset,
      if y ∈ s'.activel.toFinset then CmdState.hung.num - (s'.cmdState y).num else 0 := by
  rw [Finset.sum_ite_mem, Finset.inter_eq_right.2 (h.subset hs)]
  rfl

/-- No request has more left to rise than before the round. -/
theorem Round.term_le (h : Round acc g s s') (y : Gcmd) :
    (if y ∈ s'.activel.toFinset then CmdState.hung.num - (s'.cmdState y).num else 0) ≤
      CmdState.hung.num - (s.cmdState y).num := by
  split
  · next hy =>
    have hrise := h.rises y (List.mem_toFinset.1 hy)
    omega
  · exact Nat.zero_le _

theorem Round.toGo_le (h : Round acc g s s') (hs : s.Sound acc) : s'.toGo ≤ s.toGo := by
  rw [h.toGo_eq hs]
  exact Finset.sum_le_sum fun y _ => h.term_le y

/-- The request of the round has less, if it has not been given up. -/
theorem Round.toGo_lt (h : Round acc g s s') (hs : s.Sound acc) (hg : g ∈ s.activel)
    (hne : s.cmdState g ≠ .hung) : s'.toGo < s.toGo := by
  have hpos : (s.cmdState g).num < CmdState.hung.num := by
    refine lt_of_le_of_ne (CmdState.num_le _) fun heq => hne ?_
    exact CmdState.eq_hung heq.ge
  rw [h.toGo_eq hs]
  refine Finset.sum_lt_sum (fun y _ => h.term_le y) ⟨g, List.mem_toFinset.2 hg, ?_⟩
  split
  · next hg' =>
    have hup := (h.own (List.mem_toFinset.1 hg')).resolve_right hne
    unfold CmdState.level at hup
    omega
  · omega

/-- While the clock stands still, a request expires in a round only if it had before. -/
theorem Round.expired (h : Round acc g s s') (hl : s'.lbolt = s.lbolt) {y : Gcmd} (hy : y ≠ g) :
    s'.expired y = s.expired y := by
  unfold Timers.expired
  rw [(h.times y hy).1, (h.times y hy).2, hl]

/-- A request that has been given up is not late any more, and no other one is. -/
theorem Round.late_lt (h : Round acc g s s') (hs : s.Sound acc) (ha : Again e g s s')
    (hz : 0 < e.hz) (hg : g ∈ s.late) : s'.late.card < s.late.card := by
  have hnot : g ∉ s'.late := by
    unfold Timers.late
    rw [Finset.mem_filter, not_and]
    intro _ hexp
    unfold Timers.expired at hexp
    rw [Bool.and_eq_true, decide_eq_true_eq, decide_eq_true_eq, ha.start, ha.lbolt,
      ha.timeout, Nat.sub_self] at hexp
    have hpos := Nat.mul_pos (show 0 < CmdState.hung.timeout by decide) hz
    omega
  have hsub : s'.late ⊆ s.late := by
    intro y hy
    have hne : y ≠ g := by
      rintro rfl
      exact hnot hy
    unfold Timers.late at hy ⊢
    rw [Finset.mem_filter] at hy ⊢
    exact ⟨h.subset hs hy.1, (h.expired ha.lbolt hne).symm.trans hy.2⟩
  exact Finset.card_lt_card ((Finset.ssubset_iff_of_subset hsub).2 ⟨g, hg, hnot⟩)

/-- `sol11ghd_timer_poll` returns. There are only so many rounds in which a state rises,
    and between two of them each request that has been given up is late once. -/
theorem timerPoll_ends (hf : f.Ok) (hquick : ∀ k g d, (f k g d .incomplete).2.ticks = 0)
    (hz : 0 < e.hz) (one : Bool) (m : Nat) : ∀ (v : Nat) (s : Timers) (k : χ), s.Sound acc →
      s.Valid acc → s.toGo = m → s.late.card = v → ∃ n r, timerPoll e f one n k s = some r := by
  -- the induction is on what is left to rise, and then on the number of late requests
  induction m using Nat.strong_induction_on with
  | _ m ihm =>
    intro v
    induction v using Nat.strong_induction_on with
    | _ v ihv =>
      intro s k hs hv hm hlate
      cases hget : s.timeoutGet with
      | none => exact ⟨1, (k, s), by unfold timerPoll; rw [hget]⟩
      | some q =>
          rcases q with ⟨g, s₁⟩
          have hexp := timeoutGet_expired hget
          have hmem := (hs.mem g).1 hexp.1
          have hst : s₁.cmdState g = s.cmdState g := by
            rw [(timeoutGet_eq hget).2]
            rfl
          cases hx : timerAction (s₁.cmdState g) with
          | none => exact absurd (hst ▸ hx) (hv g hmem.1 hmem.2)
          | some x =>
              rcases poll_round (e := e) hf hquick hs hv hget hx k with ⟨out, hout, hr, hagain⟩
              cases one with
              | true =>
                  refine ⟨1, (out.hba, out.sys), ?_⟩
                  unfold timerPoll
                  rw [hget]
                  dsimp only
                  rw [hx]
                  dsimp only
                  rw [hout]
                  rfl
              | false =>
                  have hrest : ∃ n r, timerPoll e f false n out.hba out.sys = some r := by
                    by_cases hlt : out.sys.toGo < s.toGo
                    · exact ihm _ (hm ▸ hlt) _ _ _ hr.sound hr.valid rfl rfl
                    · have hhung : s.cmdState g = .hung := by
                        by_contra hne
                        exact hlt (hr.toGo_lt hs hexp.1 hne)
                      have heq : out.sys.toGo = m := by
                        have hle := hr.toGo_le hs
                        omega
                      have hin : g ∈ s.late :=
                        Finset.mem_filter.2 ⟨List.mem_toFinset.2 hexp.1, hexp.2⟩
                      have hless := hr.late_lt hs (hagain hhung) hz hin
                      exact ihv _ (hlate ▸ hless) _ _ hr.sound hr.valid heq rfl
                  rcases hrest with ⟨n, r, hn⟩
                  refine ⟨n + 1, r, ?_⟩
                  unfold timerPoll
                  rw [hget]
                  dsimp only
                  rw [hx]
                  dsimp only
                  rw [hout]
                  exact hn

/-! ## What a poll does -/

/-- What a run of `sol11ghd_timer_poll` for all expired requests has done. -/
structure PollOk (acc : Gcmd → Prop) (s s' : Timers) : Prop where
  sound : s'.Sound acc
  valid : s'.Valid acc
  done : ∀ y ∈ s.done, y ∈ s'.done
  rises : ∀ y ∈ s'.activel, (s.cmdState y).num ≤ (s'.cmdState y).num
  step : ∀ y ∈ s.activel, s.expired y = true →
    y ∈ s'.done ∨ (s.cmdState y).level < (s'.cmdState y).level ∨ s'.cmdState y = .hung
  none : ∀ y ∈ s'.activel, s'.expired y = false

/-- A request whose time is not touched stays expired. -/
theorem Round.stays (h : Round acc g s s') {y : Gcmd} (hy : y ≠ g) (he : s.expired y = true) :
    s'.expired y = true := by
  have hl := h.lbolt
  unfold Timers.expired at he ⊢
  rw [Bool.and_eq_true, decide_eq_true_eq, decide_eq_true_eq] at he ⊢
  rw [(h.times y hy).1, (h.times y hy).2]
  exact ⟨he.1, by omega⟩

/-- A round in front of a run. -/
theorem PollOk.cons {t : Timers} (hs : s.Sound acc) (h : Round acc g s s')
    (h' : PollOk acc s' t) : PollOk acc s t where
  sound := h'.sound
  valid := h'.valid
  done := fun y hy => h'.done y (h.done y hy)
  rises := by
    intro y hy
    have hmem := (h'.sound.mem y).1 hy
    have hin : y ∈ s'.activel := (h.sound.mem y).2 ⟨hmem.1, fun hd => hmem.2 (h'.done y hd)⟩
    exact (h.rises y hin).trans (h'.rises y hy)
  step := by
    intro y hy he
    have hacc := ((hs.mem y).1 hy).1
    by_cases hd : y ∈ t.done
    · exact Or.inl hd
    · have hin : y ∈ s'.activel := (h.sound.mem y).2 ⟨hacc, fun hd' => hd (h'.done y hd')⟩
      have ht : y ∈ t.activel := (h'.sound.mem y).2 ⟨hacc, hd⟩
      have hup := h'.rises y ht
      refine Or.inr ?_
      by_cases hyg : y = g
      · -- It is the request of this round.
        subst hyg
        rcases h.own hin with hlt | hhung
        · exact Or.inl (hlt.trans_le (CmdState.level_le hup))
        · have hrise := h.rises y hin
          rw [hhung] at hrise
          exact Or.inr (CmdState.eq_hung (hrise.trans hup))
      · have hrise := h.rises y hin
        rcases (h'.step y hin (h.stays hyg he)).resolve_left hd with hlt | hhung
        · exact Or.inl ((CmdState.level_le hrise).trans_lt hlt)
        · exact Or.inr hhung
  none := h'.none

/-- Every run that returns is of this kind. -/
theorem timerPoll_ok (hf : f.Ok) (hquick : ∀ k g d, (f k g d .incomplete).2.ticks = 0) (n : Nat) :
    ∀ {k k' : χ} {s s' : Timers}, s.Sound acc → s.Valid acc →
      timerPoll e f false n k s = some (k', s') → PollOk acc s s' := by
  induction n with
  | zero => exact fun _ _ h => nomatch h
  | succ n ih =>
    intro k k' s s' hs hv h
    unfold timerPoll at h
    cases hget : s.timeoutGet with
    | none =>
        rw [hget] at h
        cases h
        have hnone := timeoutGet_none hget
        refine ⟨hs, hv, fun _ hy => hy, fun _ _ => Nat.le_refl _, fun y hy he => ?_, hnone⟩
        rw [hnone y hy] at he
        cases he
    | some q =>
        rcases q with ⟨g, s₁⟩
        rw [hget] at h
        dsimp only at h
        have hexp := timeoutGet_expired hget
        have hmem := (hs.mem g).1 hexp.1
        have hst : s₁.cmdState g = s.cmdState g := by
          rw [(timeoutGet_eq hget).2]
          rfl
        cases hx : timerAction (s₁.cmdState g) with
        | none => exact absurd (hst ▸ hx) (hv g hmem.1 hmem.2)
        | some x =>
            rw [hx] at h
            dsimp only at h
            rcases poll_round (e := e) hf hquick hs hv hget hx k with ⟨out, hout, hr, _⟩
            rw [hout] at h
            exact (ih hr.sound hr.valid h).cons hs hr

end Ends

/-! ## The ladder -/

/-- A run in which `sol11ghd_timer_poll` is called again and again, with anything in between
    that does not lower the state of a request that has not been completed: the number of
    polls that found the request expired. -/
inductive Ladder {χ : Type} (e : TimerEnv) (f : TimeoutFunc χ) (y : Gcmd) :
    Timers → Timers → Nat → Prop where
  | refl (s : Timers) : Ladder e f y s s 0
  | other {s t u : Timers} {m : Nat} (h : Ladder e f y s t m) (hdone : y ∈ t.done → y ∈ u.done)
      (hup : y ∉ u.done → (t.cmdState y).num ≤ (u.cmdState y).num) : Ladder e f y s u m
  | poll {s t u : Timers} {m : Nat} (h : Ladder e f y s t m) (acc : Gcmd → Prop)
      (ht : t.Sound acc) (hv : t.Valid acc) (hy : acc y) (n : Nat) (k k' : χ)
      (hpoll : timerPoll e f false n k t = some (k', u)) :
      Ladder e f y s u (if y ∈ t.activel ∧ t.expired y = true then m + 1 else m)

/-- A request rises with every poll that finds it expired, until it is completed or given
    up. -/
theorem Ladder.bound {χ : Type} {e : TimerEnv} {f : TimeoutFunc χ} (hf : f.Ok)
    (hquick : ∀ k g d, (f k g d .incomplete).2.ticks = 0) {y : Gcmd} {s u : Timers} {m : Nat}
    (h : Ladder e f y s u m) : y ∈ u.done ∨ u.cmdState y = .hung ∨
      (s.cmdState y).num ≤ (u.cmdState y).num ∧
        (s.cmdState y).level + m ≤ (u.cmdState y).level := by
  induction h with
  | refl => exact Or.inr (Or.inr ⟨Nat.le_refl _, Nat.le_refl _⟩)
  | @other t u m _ hdone hup ih =>
      by_cases hd : y ∈ u.done
      · exact Or.inl hd
      · have hle := hup hd
        refine Or.inr ?_
        rcases ih.resolve_left fun hdt => hd (hdone hdt) with hhung | hrise
        · rw [hhung] at hle
          exact Or.inl (CmdState.eq_hung hle)
        · exact Or.inr ⟨hrise.1.trans hle, hrise.2.trans (CmdState.level_le hle)⟩
  | @poll t u m _ acc ht hv hy n k k' hpoll ih =>
      have hok := timerPoll_ok hf hquick n ht hv hpoll
      by_cases hd : y ∈ u.done
      · exact Or.inl hd
      · have hin : y ∈ t.activel := (ht.mem y).2 ⟨hy, fun hdt => hd (hok.done y hdt)⟩
        have hup := hok.rises y ((hok.sound.mem y).2 ⟨hy, hd⟩)
        refine Or.inr ?_
        rcases ih.resolve_left fun hdt => hd (hok.done y hdt) with hhung | hrise
        · rw [hhung] at hup
          exact Or.inl (CmdState.eq_hung hup)
        · have hnum := hrise.1.trans hup
          split
          · next hexp =>
            -- The poll has taken the request a level up.
            rcases (hok.step y hin hexp.2).resolve_left hd with hlt | hhung
            · exact Or.inr ⟨hnum, by omega⟩
            · exact Or.inl hhung
          · exact Or.inr ⟨hnum, hrise.2.trans (CmdState.level_le hup)⟩

/-- Recovery by timeouts comes to an end. For every behaviour of the HBA's action function
    that completes a request that has not been started if it takes the action, does not
    complete the request if it fails, and takes no time to give up: `sol11ghd_timer_poll`
    returns, however long the other actions take. Then no request on the timer list is
    expired, each that was has been completed, or has been taken further, or has been given
    up, and no state has been lowered. So in any run of polls, with anything in between that
    lowers no state, a request is found expired at most five times before it is completed or
    given up. -/
theorem timer_recovery {χ : Type} (e : TimerEnv) (hz : 0 < e.hz) (f : TimeoutFunc χ) (hf : f.Ok)
    (hquick : ∀ k g d, (f k g d .incomplete).2.ticks = 0) :
    (∀ (acc : Gcmd → Prop) (s : Timers) (k : χ), s.Sound acc → s.Valid acc →
      ∃ n k' s', timerPoll e f false n k s = some (k', s') ∧ PollOk acc s s') ∧
    ∀ (y : Gcmd) (s u : Timers) (m : Nat), Ladder e f y s u m →
      y ∈ u.done ∨ u.cmdState y = .hung ∨ m < 5 := by
  refine ⟨fun acc s k hs hv => ?_, fun y s u m h => ?_⟩
  · rcases timerPoll_ends hf hquick hz false _ _ s k hs hv rfl rfl with ⟨n, r, hn⟩
    exact ⟨n, r.1, r.2, hn, timerPoll_ok hf hquick n hs hv hn⟩
  · refine (h.bound hf hquick).imp_right fun hb => ?_
    by_cases hhung : u.cmdState y = .hung
    · exact Or.inl hhung
    · have hle := (hb.resolve_left hhung).2
      have hmax : (u.cmdState y).num < CmdState.hung.num :=
        lt_of_le_of_ne (CmdState.num_le _) fun heq => hhung (CmdState.eq_hung heq.ge)
      have h8 : CmdState.hung.num = 8 := rfl
      unfold CmdState.level at hle
      exact Or.inr (by omega)

theorem resetTimers_valid : resetTimers.Valid fun y => y ∈ resetTimers.activel := by
  intro y hy _
  unfold resetTimers
  dsimp only
  split
  · decide
  · decide

/-- The device reset that has timed out, followed by a bus reset by `ata_timeout_func`: the
    poll returns, and the request is past the reset. -/
theorem timer_recovery_reset :
    (∃ n k' s', timerPoll ⟨100, fun y => y, fun _ => 0, 0⟩ resetFunc false n () resetTimers =
        some (k', s') ∧ PollOk (fun y => y ∈ resetTimers.activel) resetTimers s') ∧
      ∀ u m, Ladder ⟨100, fun y => y, fun _ => 0, 0⟩ resetFunc 0 resetTimers u m →
        0 ∈ u.done ∨ u.cmdState 0 = .hung ∨ m < 5 := by
  have hrec := timer_recovery (χ := Unit) ⟨100, fun y => y, fun _ => 0, 0⟩ (by decide) resetFunc
    (ataTimeoutFunc_ok _ fun _ h => nomatch h) fun _ _ _ => rfl
  exact ⟨hrec.1 _ resetTimers () resetTimers_sound resetTimers_valid, hrec.2 0 resetTimers⟩

end Ghd

end Sil3112
