import Sil3112.Ghd.NoLoss

/-!
# Wait Queue Accounting

What `cmd_waitq_level` and the two `Q_nactive` counters say in a running
system. The accounting of `Waitq` is about the queues and the list of requests
the HBA has; here it is stated about the requests themselves, with the history
telling which of them have been accepted and not yet completed.

For those requests the level is exact, at every point of every run. It is not
for others: `sol11ghd_waitq_delete` leaves the level of a request it takes off
a wait queue, so after an early abort or early timeout the level still names a
queue the request has left, until it is transported again.

## Main definitions

* `Counts`: How many requests have a property.
* `ghdTimedOut`: A request that timed out on the HBA's wait queue.

## Theorems

* `ghd_accounting`: Levels, counters and the throttle in every reachable state.
* `ghd_level_stale`: The level of a completed request may name a queue.
-/

namespace Sil3112

namespace Ghd

open Transition

/-- Exactly `n` requests have the property. -/
def Counts (P : Gcmd → Prop) (n : Int) : Prop :=
  ∃ l : List Gcmd, l.Nodup ∧ (∀ g, g ∈ l ↔ P g) ∧ (l.length : Int) = n

section Accounting

variable {gdevOf : Gcmd → GdevId} {G : Ghost} {s : GhdSys}

/-- The level of an outstanding request says where it is. -/
theorem GhdInv.level_cases (h : GhdInv gdevOf G s) {g : Gcmd}
    (hg : Outstanding s.shared.log g) :
    s.shared.waitq.level g = 1 ∧ g ∈ (s.shared.waitq.dev (gdevOf g)).waitq.qhead ∧
      g ∉ s.shared.waitq.hba.qhead ∧ g ∉ s.shared.active ∨
    s.shared.waitq.level g = 2 ∧ g ∈ s.shared.waitq.hba.qhead ∧ g ∉ s.shared.active ∨
    s.shared.waitq.level g = 3 ∧ g ∈ s.shared.active ∧ ¬ s.shared.waitq.Waiting gdevOf g := by
  refine h.1.waitq.level_of_linked ?_
  rw [← h.1.wait, ← h.1.hba]
  exact (h.1.outstanding g).1 hg

theorem GhdInv.outstanding_hba (h : GhdInv gdevOf G s) {g : Gcmd}
    (hg : g ∈ s.shared.waitq.hba.qhead) :
    Outstanding s.shared.log g ∧ s.shared.waitq.level g = 2 :=
  ⟨(h.1.outstanding g).2 (Or.inl ((h.1.wait g).2 (Or.inr hg))), h.1.waitq.hba_mem g hg⟩

theorem GhdInv.outstanding_active (h : GhdInv gdevOf G s) {g : Gcmd}
    (hg : g ∈ s.shared.active) : Outstanding s.shared.log g ∧ s.shared.waitq.level g = 3 :=
  ⟨(h.1.outstanding g).2 (Or.inr ((h.1.hba g).2 hg)), h.1.waitq.act_mem g hg⟩

theorem GhdInv.levels (h : GhdInv gdevOf G s) {g : Gcmd} (hg : Outstanding s.shared.log g) :
    (s.shared.waitq.level g = 1 ↔ g ∈ (s.shared.waitq.dev (gdevOf g)).waitq.qhead) ∧
      (s.shared.waitq.level g = 2 ↔ g ∈ s.shared.waitq.hba.qhead) := by
  rcases h.level_cases hg with ⟨hl, hd, hb, -⟩ | ⟨hl, hb, -⟩ | ⟨hl, -, hw⟩
  · exact ⟨iff_of_true hl hd, iff_of_false (by omega) hb⟩
  · refine ⟨iff_of_false (by omega) (fun hd => ?_), iff_of_true hl hb⟩
    have h1 := (h.1.waitq.dev_mem _ g hd).2
    omega
  · exact ⟨iff_of_false (by omega) (fun hd => hw (Or.inl hd)),
      iff_of_false (by omega) (fun hb => hw (Or.inr hb))⟩

theorem GhdInv.dev_counts (h : GhdInv gdevOf G s) (d : GdevId) :
    Counts (fun g => Outstanding s.shared.log g ∧ gdevOf g = d ∧
      (s.shared.waitq.level g = 2 ∨ s.shared.waitq.level g = 3))
      (s.shared.waitq.dev d).waitq.nactive := by
  refine ⟨(s.shared.waitq.hba.qhead ++ s.shared.active).filter (fun g => gdevOf g = d), ?_, ?_, ?_⟩
  · refine List.Nodup.filter _ (List.nodup_append.2 ⟨h.1.waitq.hba_nodup, h.1.waitq.act_nodup, ?_⟩)
    rintro g hg g' hg' rfl
    have h2 := h.1.waitq.hba_mem g hg
    have h3 := h.1.waitq.act_mem g hg'
    omega
  · intro g
    rw [List.mem_filter, List.mem_append, decide_eq_true_eq]
    constructor
    · rintro ⟨hg | hg, hd⟩
      · exact ⟨(h.outstanding_hba hg).1, hd, Or.inl (h.outstanding_hba hg).2⟩
      · exact ⟨(h.outstanding_active hg).1, hd, Or.inr (h.outstanding_active hg).2⟩
    · rintro ⟨ho, hd, hl⟩
      refine ⟨?_, hd⟩
      rcases h.level_cases ho with ⟨h1, -⟩ | ⟨-, hb, -⟩ | ⟨-, ha, -⟩
      · omega
      · exact Or.inl hb
      · exact Or.inr ha
  · rw [h.1.waitq.dev_nactive d, ← List.countP_eq_length_filter, List.countP_append]
    unfold Waitq.onDev
    omega

theorem GhdInv.hba_counts (h : GhdInv gdevOf G s) :
    Counts (fun g => Outstanding s.shared.log g ∧ s.shared.waitq.level g = 3)
      s.shared.waitq.hba.nactive := by
  refine ⟨s.shared.active, h.1.waitq.act_nodup, fun g => ?_, h.1.waitq.hba_nactive.symm⟩
  constructor
  · exact h.outstanding_active
  · rintro ⟨ho, hl⟩
    rcases h.level_cases ho with ⟨h1, -⟩ | ⟨h2, -⟩ | ⟨-, ha, -⟩
    · omega
    · omega
    · exact ha

theorem GhdInv.dev_nactive_nonneg (h : GhdInv gdevOf G s) (d : GdevId) :
    0 ≤ (s.shared.waitq.dev d).waitq.nactive := by
  rw [h.1.waitq.dev_nactive d]
  have h1 : 0 ≤ Waitq.onDev gdevOf d s.shared.waitq.hba.qhead := Waitq.onDev_nonneg d _
  have h2 : 0 ≤ Waitq.onDev gdevOf d s.shared.active := Waitq.onDev_nonneg d _
  omega

/-- A request reaches the HBA's queue from its device's queue only by a
    promotion, and so only under the device's throttle. -/
theorem GhdInv.promoted (h : GhdInv gdevOf G s) {s' : GhdSys} (hst : GhdStep gdevOf s s')
    {d : GdevId} {g : Gcmd} (hg : g ∈ (s.shared.waitq.dev d).waitq.qhead)
    (hg' : g ∈ s'.shared.waitq.hba.qhead) :
    (s.shared.waitq.dev d).waitq.nactive < (s.shared.waitq.dev d).waitq.maxactive ∧
      ((s.shared.waitq.dev d).ninstances > 1 → (s.shared.waitq.dev d).waitq.nactive = 0) := by
  rcases hst with ⟨t, c', ⟨x, hx, hr⟩, -⟩
  have hw : s.shared.waitq.Waiting gdevOf g := h.1.waitq.waiting_of_mem_dev hg
  have hnot : g ∉ s.shared.waitq.hba.qhead := by
    intro hb
    have h1 := (h.1.waitq.dev_mem d g hg).2
    have h2 := h.1.waitq.hba_mem g hb
    omega
  have hwq := Act.run_waitq hr
  generalize s'.shared.waitq = w' at hwq hg'
  cases hwq with
  | same | link | queueHold | freeze => exact absurd hg' hnot
  | promote d' _ _ hs =>
      rcases Waitq.shuffleUp_eq_some hs with ⟨g', rest, hq, hmax, hinst, rfl⟩
      rcases mem_l2Add.1 hg' with hb | rfl
      · exact absurd hb hnot
      · have hd : d' = d := by
          rw [← (h.1.waitq.dev_mem d g hg).1]
          exact ((h.1.waitq.dev_mem d' g (hq ▸ List.mem_cons_self)).1).symm
        rw [hd] at hmax hinst
        have hnn := h.dev_nactive_nonneg d
        exact ⟨hmax, fun hi => by have := hinst hi; omega⟩
  | take g' _ _ hs =>
      rcases Waitq.take_eq_some hs with ⟨rest, hq, -, rfl⟩
      exact absurd (hq ▸ List.mem_cons_of_mem g' hg') hnot
  | reject g' =>
      rcases mem_l2AddHead.1 hg' with rfl | hb
      · have hpl := hx.placeOk (h.2 t).2
        exact absurd hw (h.1.waitq.not_waiting_of_act ((h.1.hba g).1 hpl))
      · exact absurd hb hnot
  | delete g' =>
      have hlinked : s.shared.waitq.Waiting gdevOf g' ∨ g' ∈ s.shared.active := by
        rw [← h.1.wait, ← h.1.hba]
        exact (hx.placeOk (h.2 t).2).imp And.left id
      rw [h.1.waitq.delete_hba_qhead hlinked, mem_l2Delete h.1.waitq.hba_nodup] at hg'
      exact absurd hg'.2 hnot

end Accounting

/-- The accounting in every reachable state, whoever is inside a critical
    section. For a request that has been accepted and not completed, level 1
    means linked on its device's queue and level 2 linked on the HBA's. A
    device's counter is the number of such requests of the device at level 2
    or 3, the HBA's the number at level 3, which stays within its throttle.
    And a request moves from a device's queue to the HBA's only when the
    device's counter was below its throttle, and zero if several instances
    share the device. -/
theorem ghd_accounting (gdevOf : Gcmd → GdevId) (s : GhdSys) (h : GhdReachable gdevOf s) :
    (∀ g, Outstanding s.shared.log g →
      (s.shared.waitq.level g = 1 ↔ g ∈ (s.shared.waitq.dev (gdevOf g)).waitq.qhead) ∧
      (s.shared.waitq.level g = 2 ↔ g ∈ s.shared.waitq.hba.qhead)) ∧
    (∀ d, Counts (fun g => Outstanding s.shared.log g ∧ gdevOf g = d ∧
      (s.shared.waitq.level g = 2 ∨ s.shared.waitq.level g = 3))
      (s.shared.waitq.dev d).waitq.nactive) ∧
    Counts (fun g => Outstanding s.shared.log g ∧ s.shared.waitq.level g = 3)
      s.shared.waitq.hba.nactive ∧
    s.shared.waitq.hba.nactive ≤ s.shared.waitq.hba.maxactive ∧
    (∀ s' d g, GhdStep gdevOf s s' → g ∈ (s.shared.waitq.dev d).waitq.qhead →
      g ∈ s'.shared.waitq.hba.qhead →
      (s.shared.waitq.dev d).waitq.nactive < (s.shared.waitq.dev d).waitq.maxactive ∧
      ((s.shared.waitq.dev d).ninstances > 1 → (s.shared.waitq.dev d).waitq.nactive = 0)) := by
  rcases ghd_reachable_inv h with ⟨G, hG⟩
  exact ⟨fun g hg => hG.levels hg, hG.dev_counts, hG.hba_counts, hG.1.waitq.hba_max,
    fun s' d g hst hg hg' => hG.promoted hst hg hg'⟩

theorem ghd_accounting_linked :
    (∀ g, Outstanding ghdLinked.shared.log g →
      (ghdLinked.shared.waitq.level g = 1 ↔ g ∈ (ghdLinked.shared.waitq.dev (id g)).waitq.qhead) ∧
      (ghdLinked.shared.waitq.level g = 2 ↔ g ∈ ghdLinked.shared.waitq.hba.qhead)) ∧
    (∀ d, Counts (fun g => Outstanding ghdLinked.shared.log g ∧ id g = d ∧
      (ghdLinked.shared.waitq.level g = 2 ∨ ghdLinked.shared.waitq.level g = 3))
      (ghdLinked.shared.waitq.dev d).waitq.nactive) ∧
    Counts (fun g => Outstanding ghdLinked.shared.log g ∧ ghdLinked.shared.waitq.level g = 3)
      ghdLinked.shared.waitq.hba.nactive ∧
    ghdLinked.shared.waitq.hba.nactive ≤ ghdLinked.shared.waitq.hba.maxactive ∧
    (∀ s' d g, GhdStep id ghdLinked s' → g ∈ (ghdLinked.shared.waitq.dev d).waitq.qhead →
      g ∈ s'.shared.waitq.hba.qhead →
      (ghdLinked.shared.waitq.dev d).waitq.nactive <
        (ghdLinked.shared.waitq.dev d).waitq.maxactive ∧
      ((ghdLinked.shared.waitq.dev d).ninstances > 1 →
        (ghdLinked.shared.waitq.dev d).waitq.nactive = 0)) :=
  ghd_accounting id ghdLinked ghdLinked_reachable

/-- A request is transported, promoted and rejected by the HBA, and then times
    out on the HBA's wait queue. -/
def ghdTimedOut : GhdSys :=
  ghdStart.after id
    [(0, .call 0, .xportLink 0 false), (0, .link 0 false, .xportShuffle 0 false),
      (0, .promote 0, .xportShuffle 0 false), (0, .skip, .xportShuffled 0 false),
      (0, .lockHba, .hold (.exit none) false),
      (0, .take 0, .hba (.start (.exit none) false 0 false)),
      (0, .reject 0, .holdRet (.exit none) false), (0, .unlockHba, .exitWaitq none),
      (0, .unlockWaitq, .idle), (0, .timeout, .idle), (0, .skip, .softTimer),
      (0, .lockHbaSoft, .timer .soft),
      (0, .timerGet 0, .newstate .soft (some 0) 0 .earlyTimeout),
      (0, .newstate (some 0) .earlyTimeout, .hba (.timeout .soft (some 0) 0 .earlyTimeout false)),
      (0, .skip, .del (.timeout .soft (some 0) 0 .earlyTimeout true) 0),
      (0, .delete 0, .delShuffle (.timeout .soft (some 0) 0 .earlyTimeout true) 0),
      (0, .unlockWaitq, .stop (.timeout .soft (some 0) 0 .earlyTimeout true) 0),
      (0, .stop 0, .put (.timeout .soft (some 0) 0 .earlyTimeout true) 0),
      (0, .doneqPut 0 .completing, .hba (.timeout .soft (some 0) 0 .earlyTimeout true)),
      (0, .skip, .scan .soft (some 0) 0 .earlyTimeout),
      (0, .mark (some 0) 0 .earlyTimeout, .newstateRet .soft), (0, .skip, .timer .soft),
      (0, .skip, .timerRet .soft), (0, .skip, .exitEnter none),
      (0, .lockWaitq, .hold (.exit none) false), (0, .skip, .holdRet (.exit none) false),
      (0, .unlockHba, .exitWaitq none), (0, .unlockWaitq, .idle)]

theorem ghdTimedOut_reachable : GhdReachable id ghdTimedOut :=
  (ghdStart_reachable id).after _
    ⟨.call 0, rfl, .xportLink 0 false, rfl, .xportShuffle 0 false, rfl,
      .xportShuffled 0 false rfl, rfl, .tryenter 0, rfl, .holdTake _ _ 0, rfl,
      .startReject _ _ 0, rfl, .exitHba _ _, rfl, .exitWaitq, rfl, .timeout, rfl,
      .soft rfl, rfl, .softTimer, rfl, .timerGet _ 0 _ rfl, rfl,
      .newstate _ _ _ _ (by decide), rfl, .completeEarly _ 0 0 _ (Or.inl rfl), rfl,
      .del _ _, rfl, .delShuffled _ _ rfl, rfl, .stop _ _, rfl, .put _ _, rfl,
      .actionTaken _ _ _ _ _ (fun _ => rfl), rfl, .scan _ _ _ _, rfl, .newstateSoft, rfl,
      .timerNone _, rfl, .timerSoft, rfl, .exitEnter _, rfl, .holdStop _ _ (Or.inl rfl), rfl,
      .exitHba _ _, rfl, .exitWaitq, rfl, trivial⟩

/-- The level alone does not say where a request is: after an early timeout
    every thread is idle, the level is still 2, and no queue has the
    request. -/
theorem ghd_level_stale :
    ¬ ∀ s, GhdReachable id s → (∀ t, s.thr t = .idle) → ∀ g,
      (s.shared.waitq.level g = 1 ↔ g ∈ (s.shared.waitq.dev (id g)).waitq.qhead) ∧
      (s.shared.waitq.level g = 2 ↔ g ∈ s.shared.waitq.hba.qhead) := by
  intro h
  have hidle : ∀ t, ghdTimedOut.thr t = .idle := by
    intro t
    by_cases ht : t = 0
    · rw [ht]
      rfl
    · refine GhdSys.after_thr id ghdStart _ fun e he h0 => ht ?_
      simp only [List.mem_cons, List.not_mem_nil, or_false] at he
      rcases he with rfl | rfl | rfl | rfl | rfl | rfl | rfl | rfl | rfl | rfl | rfl | rfl | rfl |
        rfl | rfl | rfl | rfl | rfl | rfl | rfl | rfl | rfl | rfl | rfl | rfl | rfl | rfl | rfl
      all_goals exact h0.symm
  have hl : ghdTimedOut.shared.waitq.level 0 = 2 := rfl
  have hq := (h ghdTimedOut ghdTimedOut_reachable hidle 0).2.1 hl
  rw [show ghdTimedOut.shared.waitq.hba.qhead = [] from rfl] at hq
  cases hq

end Ghd

end Sil3112
