import Sil3112.Ghd.NoLoss

/-!
# No Request Is Stranded

`sol11ghd_transport` only tries to enter the HBA mutex. If another thread has
it, the request stays on its queue, and whoever has the mutex must look at the
queue again before letting go. This holds because every path that releases the
HBA mutex first runs the processing loop under the wait queue mutex, and then
releases the HBA mutex while it still has the other: a transport that is
refused has entered the wait queue mutex before the loop, and its request is
seen, or after, and then the HBA mutex is free.

What may be left on the queues is stated of the shared state while no thread
has the wait queue mutex, and of a control point while its thread has it.

## Main definitions

* `Ccc.MayWait`: The reasons for a request to be left on the HBA's queue.
* `Waitq.DevMayWait`: The reasons for one to be left on a device's queue.
* `Unstranded`, `Ctl.Settles`: The assertions of the shared state and of the
  control points.
* `Still`: What the holder of the wait queue mutex can rely on.

## Theorems

* `Local.settles`: Every edge establishes what its target asserts.
* `Unstranded.step`: Every step keeps the assertion of the shared state.
* `ghd_no_strand`: While both mutexes are free, a waiting request has a reason
  to wait.
-/

namespace Sil3112

namespace Ghd

open Transition

/-- The reasons for requests to be left on the HBA's queue: the processing
    loop would stop before taking one, or the HBA has just rejected one. -/
def Ccc.MayWait (a : Ccc) : Prop :=
  a.waitq.Blocked ∨ a.startRejected = true

/-- The reasons for requests to be left on a device's queue: there are none,
    or one of the device is under way and its completion will shuffle the
    queue, or the device may have none outstanding at all. -/
def Waitq.DevMayWait (w : Waitq) (d : GdevId) : Prop :=
  (w.dev d).waitq.qhead = [] ∨ 1 ≤ (w.dev d).waitq.nactive ∨ (w.dev d).waitq.maxactive ≤ 0

/-- What the shared state asserts while the mutexes are free. -/
structure Unstranded (a : Ccc) : Prop where
  hba : a.hbaMutex = none → a.waitqMutex = none → a.MayWait
  dev : a.waitqMutex = none → ∀ d, a.waitq.DevMayWait d

/-- What a control point asserts while its thread has the wait queue mutex. A
    shuffle in progress says nothing yet about the device it is for. -/
def Ctl.Settles (gdevOf : Gcmd → GdevId) (a : Ccc) : Ctl → Prop
  | .xportShuffle g _ => ∀ d, d ≠ gdevOf g → a.waitq.DevMayWait d
  | .xportShuffled _ _ => ∀ d, a.waitq.DevMayWait d
  | .xportDrop => a.hbaMutex ≠ none ∧ ∀ d, a.waitq.DevMayWait d
  | .hold _ _ => ∀ d, a.waitq.DevMayWait d
  | .holdRet _ _ => a.MayWait ∧ ∀ d, a.waitq.DevMayWait d
  | .exitWaitq _ => (a.hbaMutex = none → a.MayWait) ∧ ∀ d, a.waitq.DevMayWait d
  | .delShuffle _ g => ∀ d, d ≠ gdevOf g → a.waitq.DevMayWait d
  | _ => True

/-- What the holder of the wait queue mutex can rely on while other threads
    move: the wait queues stay as they are, and so does the outcome of the last
    start, and the HBA mutex is not released. -/
structure Still (a a' : Ccc) : Prop where
  waitq : a'.waitq = a.waitq
  startRejected : a'.startRejected = a.startRejected
  hba : a'.hbaMutex = none → a.hbaMutex = none

namespace Waitq

variable {gdevOf : Gcmd → GdevId} {w w' : Waitq} {d : GdevId}

/-- The shuffle loop ends for one of these reasons. -/
theorem devMayWait_of_shuffleUp (h : w.shuffleUp d = none) : w.DevMayWait d := by
  unfold shuffleUp at h
  simp only at h
  split at h
  · next hmax =>
    by_cases hpos : (w.dev d).waitq.maxactive ≤ 0
    · exact Or.inr (Or.inr hpos)
    · exact Or.inr (Or.inl (by omega))
  · split at h
    · next hinst => exact Or.inr (Or.inl (by omega))
    · split at h
      · next hq => exact Or.inl (l2RemoveHead_eq_none.1 hq)
      · cases h

theorem DevMayWait.congr (hd : w'.dev d = w.dev d) (h : w.DevMayWait d) : w'.DevMayWait d := by
  unfold DevMayWait at h ⊢
  rw [hd]
  exact h

theorem DevMayWait.link {g : Gcmd} (hd : d ≠ gdevOf g) (h : w.DevMayWait d) :
    (w.link gdevOf g).DevMayWait d := by
  refine h.congr ?_
  simp only [Waitq.link, setDev_dev, hd, if_false]

theorem DevMayWait.shuffleUp {d' : GdevId} (hs : w.shuffleUp d' = some w') (hd : d ≠ d')
    (h : w.DevMayWait d) : w'.DevMayWait d := by
  rcases shuffleUp_eq_some hs with ⟨g, rest, -, -, -, rfl⟩
  refine h.congr ?_
  simp only [setDev_dev, hd, if_false]

theorem DevMayWait.take {g : Gcmd} (hs : w.take = some (g, w')) (h : w.DevMayWait d) :
    w'.DevMayWait d := by
  rcases take_eq_some hs with ⟨rest, -, -, rfl⟩
  exact h.congr rfl

theorem DevMayWait.unlink {g : Gcmd} (h : w.DevMayWait d) : (w.unlink g).DevMayWait d := by
  rcases h with hq | hn
  · refine Or.inl ?_
    simp only [Waitq.unlink, hq, l2Delete, List.erase_nil]
  · exact Or.inr hn

theorem DevMayWait.devDec {d' : GdevId} (hd : d ≠ d') (h : w.DevMayWait d) :
    (w.devDec d').DevMayWait d := by
  refine h.congr ?_
  simp only [Waitq.devDec, setDev_dev, hd, if_false]

theorem DevMayWait.delete {g : Gcmd} (hd : d ≠ gdevOf g) (h : w.DevMayWait d) :
    (w.delete gdevOf g).DevMayWait d := by
  unfold Waitq.delete
  split
  · exact h
  · exact h.unlink
  · exact h.unlink.devDec hd
  · exact (h.devDec hd).congr rfl
  · exact h

end Waitq

section Strand

variable {gdevOf : Gcmd → GdevId} {G : Ghost} {s : GhdSys} {a a' : Ccc} {t : Tid} {c c' : Ctl}
  {x : Act}

/-- Only a step that enters the wait queue mutex records the outcome of a
    start. -/
theorem Act.run_startRejected (hr : x.run gdevOf t a = some a') (hx : ¬ x.LocksWaitq) :
    a'.startRejected = a.startRejected := by
  cases x with
  | skip | unlockHba | unlockWaitq | stop | doneqPut | pollmodeEnter | pollmodeClear | trigger
  | process | callback | timerStop | mark =>
      cases hr
      rfl
  | newstate g y | retract g y =>
      cases hr
      cases g <;> rfl
  | lockWaitq | link | accept | reject | delete => exact absurd trivial hx
  | call g =>
      rcases run_call.1 hr with ⟨-, rfl⟩
      rfl
  | lockHba =>
      rcases Ccc.lockHba_eq_some.1 hr with ⟨-, rfl⟩
      rfl
  | lockHbaSoft =>
      rcases run_lockHbaSoft.1 hr with ⟨-, rfl⟩
      rfl
  | promote d =>
      rcases run_promote.1 hr with ⟨w, -, rfl⟩
      rfl
  | take g =>
      rcases run_take.1 hr with ⟨w, -, rfl⟩
      rfl
  | doneqGet g own k =>
      rcases run_doneqGet.1 hr with ⟨q, -, rfl⟩
      rfl
  | pop g =>
      rcases run_pop.1 hr with ⟨q, -, rfl⟩
      rfl
  | timeout =>
      rcases run_timeout.1 hr with ⟨-, rfl⟩
      rfl
  | timerGet g =>
      rcases run_timerGet.1 hr with ⟨-, rfl⟩
      rfl
  | queueHold b =>
      rcases run_queueHold.1 hr with ⟨-, rfl⟩
      rfl
  | freeze =>
      rcases run_freeze.1 hr with ⟨-, rfl⟩
      rfl

/-- The HBA mutex is only released under the wait queue mutex. -/
theorem Local.unlockHba_waitq (h : Local gdevOf a c .unlockHba c') : c.view.waitq = true := by
  cases h <;> rfl

/-- Holding, releasing and freezing the queue is left to the HBA driver, which
    is called with the HBA mutex only. -/
theorem Local.flags_hba (h : Local gdevOf a c x c')
    (hx : (∃ b, x = .queueHold b) ∨ x = .freeze) : c.view.hba = true := by
  cases h <;> first | rfl | simp only [reduceCtorEq, exists_false, or_self] at hx

/-- A step that does not enter the wait queue mutex, taken without it, leaves
    the wait queues alone but for the flags. -/
theorem ViewStep.waitq_quiet {v v' : View} (hv : ViewStep x v v') (hw : v.waitq = false)
    (hx : ¬ x.LocksWaitq) (hr : x.run gdevOf t a = some a') :
    a'.waitq = a.waitq ∨
      a.waitqMutex = none ∧ a'.waitq.dev = a.waitq.dev ∧
        ((∃ b, x = .queueHold b) ∨ x = .freeze) := by
  have hwq := Act.run_waitq hr
  have hal := hv.allowed
  generalize hw1 : a.waitq = w at hwq
  generalize hw2 : a'.waitq = w' at hwq
  cases hwq with
  | same => exact Or.inl rfl
  | link | reject | delete => exact absurd trivial hx
  | promote d => exact nomatch hw.symm.trans hal
  | take g => exact nomatch hw.symm.trans hal.2
  | queueHold b => exact Or.inr ⟨(Act.run_queueHold.1 hr).1, rfl, Or.inl ⟨b, rfl⟩⟩
  | freeze => exact Or.inr ⟨(Act.run_freeze.1 hr).1, rfl, Or.inr rfl⟩

/-- While one thread has the wait queue mutex, another leaves the wait queues
    alone. -/
theorem GhdInv.still (h : GhdInv gdevOf G s) {u : Tid} (hu : u ≠ t)
    (hm : s.shared.waitqMutex = some u) (hx : Local gdevOf s.shared (s.thr t) x c')
    (hr : x.run gdevOf t s.shared = some a') : Still s.shared a' := by
  have hv := h.viewStep hx hr
  have hf := Act.frame hr
  have hnot : (s.thr t).view.waitq = false := by
    rw [← Bool.not_eq_true]
    intro hw
    have hm' := (h.2 t).1.waitq hw
    rw [hm] at hm'
    exact hu (Option.some.inj hm')
  -- The mutex is not free, so the step does not enter it either.
  have hlock : ¬ x.LocksWaitq := fun hl => nomatch hm.symm.trans (hf.waitqFree hl)
  refine ⟨?_, Act.run_startRejected hr hlock, fun hn => ?_⟩
  · rcases hv.waitq_quiet hnot hlock hr with hw | ⟨hfree, -⟩
    · exact hw
    · exact nomatch hm.symm.trans hfree
  · rw [hf.hbaMutex] at hn
    cases x with
    | lockHba | lockHbaSoft => exact nomatch hn
    | unlockHba => exact nomatch hnot.symm.trans hx.unlockHba_waitq
    | _ => exact hn

theorem Ctl.Settles.mono (hs : Still a a') (h : c.Settles gdevOf a) : c.Settles gdevOf a' := by
  have hmay : a.MayWait → a'.MayWait := by
    intro hm
    unfold Ccc.MayWait at hm ⊢
    rw [hs.waitq, hs.startRejected]
    exact hm
  cases c with
  | xportShuffle | xportShuffled | hold | delShuffle =>
      simp only [Settles, hs.waitq]
      exact h
  | xportDrop =>
      simp only [Settles, hs.waitq]
      exact ⟨fun hn => h.1 (hs.hba hn), h.2⟩
  | holdRet k rc =>
      simp only [Settles, hs.waitq]
      exact ⟨hmay h.1, h.2⟩
  | exitWaitq after =>
      simp only [Settles, hs.waitq]
      exact ⟨fun hn => hmay (h.1 (hs.hba hn)), h.2⟩
  | _ => trivial

theorem Ctl.settles_of_view (h : c.view.waitq = false) : c.Settles gdevOf a := by
  cases c with
  | xportShuffle | xportShuffled | xportDrop | hold | holdRet | exitWaitq | delShuffle =>
      exact nomatch h
  | _ => trivial

/-- Every edge establishes what its target asserts. -/
theorem Local.settles (h : Local gdevOf a c x c') (hI : Unstranded a) (hJ : c.Settles gdevOf a)
    (hr : x.run gdevOf t a = some a') : c'.Settles gdevOf a' := by
  have hf := Act.frame hr
  -- The edges that matter: those that queue, promote, take, or release under the mutex.
  cases h with
  | xportLink g polled =>
      rcases Act.run_link.1 hr with ⟨hm, rfl⟩
      exact fun d hd => (hI.dev hm d).link hd
  | xportShuffle g polled =>
      rcases Act.run_promote.1 hr with ⟨w, hw, rfl⟩
      exact fun d hd => (hJ d hd).shuffleUp hw hd
  | xportShuffled g polled hend =>
      cases hr
      intro d
      -- The shuffle has ended because nothing can be promoted.
      by_cases hd : d = gdevOf g
      · rw [hd]
        exact Waitq.devMayWait_of_shuffleUp hend
      · exact hJ d hd
  | tryenter g =>
      rcases Ccc.lockHba_eq_some.1 hr with ⟨-, rfl⟩
      exact hJ
  | tryenterFail g hm =>
      cases hr
      -- Whoever has the HBA mutex looks at the queue after it has released it.
      exact ⟨hm, hJ⟩
  | holdStop k rc hb =>
      cases hr
      exact ⟨Or.inl hb, hJ⟩
  | startAccept =>
      rcases Act.run_accept.1 hr with ⟨hm, rfl⟩
      exact hI.dev hm
  | startReject =>
      rcases Act.run_reject.1 hr with ⟨hm, rfl⟩
      exact ⟨Or.inr rfl, fun d => (hI.dev hm d).congr rfl⟩
  | exitEnter | intrWaitq | pollWaitq =>
      rcases Ccc.lockWaitq_eq_some.1 hr with ⟨hm, rfl⟩
      exact hI.dev hm
  | exitHba | intrExit =>
      cases hr
      -- The HBA mutex is released while the queue of the HBA may wait.
      exact ⟨fun _ => hJ.1, hJ.2⟩
  | del c g =>
      rcases Act.run_delete.1 hr with ⟨hm, rfl⟩
      exact fun d hd => (hI.dev hm d).delete hd
  | delShuffle c g =>
      rcases Act.run_promote.1 hr with ⟨w, hw, rfl⟩
      exact fun d hd => (hJ d hd).shuffleUp hw hd
  | _ => trivial

/-- When the wait queue mutex is released, the device queues are settled. -/
theorem Local.unlockWaitq_dev (h : Local gdevOf a c .unlockWaitq c') (hJ : c.Settles gdevOf a)
    (d : GdevId) : a.waitq.DevMayWait d := by
  cases h with
  | xportDrop => exact hJ.2 d
  | xportPoll g => exact hJ d
  | exitWaitq | exitWaitqPolled | intrAgain | pollHeld => exact hJ.2 d
  | delShuffled c g hend =>
      by_cases hd : d = gdevOf g
      · rw [hd]
        exact Waitq.devMayWait_of_shuffleUp hend
      · exact hJ d hd

/-- And unless the thread keeps the HBA mutex, or another has it, so is the
    queue of the HBA. -/
theorem Local.unlockWaitq_hba (h : Local gdevOf a c .unlockWaitq c') (hJ : c.Settles gdevOf a)
    (hv : c.view.hba = false) (hm : a.hbaMutex = none) : a.MayWait := by
  cases h with
  | xportDrop => exact absurd hm hJ.1
  | exitWaitq | exitWaitqPolled => exact hJ.1 hm
  | xportPoll | intrAgain | pollHeld | delShuffled => exact nomatch hv

/-- A request is only taken from the processing loop. -/
theorem Local.take_dev {g : Gcmd} (h : Local gdevOf a c (.take g) c') (hJ : c.Settles gdevOf a)
    (d : GdevId) : a.waitq.DevMayWait d := by
  cases h with
  | holdTake => exact hJ d

/-- What a step does to the wait queues when it leaves the wait queue mutex
    free: it is a release, or a request was taken, or the mutex was free before
    and at most the flags have changed. -/
theorem GhdInv.waitq_free (hG : GhdInv gdevOf G s) (hx : Local gdevOf s.shared (s.thr t) x c')
    (hr : x.run gdevOf t s.shared = some a') (hw : a'.waitqMutex = none) :
    x = .unlockWaitq ∧ a' = { s.shared with waitqMutex := none } ∨
      (∃ g w, x = .take g ∧ s.shared.waitq.take = some (g, w) ∧ a'.waitq = w) ∨
      s.shared.waitqMutex = none ∧ ¬ x.LocksWaitq ∧
        (a'.waitq = s.shared.waitq ∨
          a'.waitq.dev = s.shared.waitq.dev ∧ (s.thr t).view.hba = true) := by
  have hv := hG.viewStep hx hr
  have hf := Act.frame hr
  have hm := hf.waitqMutex.symm.trans hw
  have hquiet : s.shared.waitqMutex = none → ¬ x.LocksWaitq →
      a'.waitq = s.shared.waitq ∨
        a'.waitq.dev = s.shared.waitq.dev ∧ (s.thr t).view.hba = true := by
    intro hfree hlock
    have hnot : (s.thr t).view.waitq = false := by
      rw [← Bool.not_eq_true]
      intro hview
      exact nomatch hfree.symm.trans ((hG.2 t).1.waitq hview)
    rcases hv.waitq_quiet hnot hlock hr with hsame | ⟨-, hdev, hflags⟩
    · exact Or.inl hsame
    · exact Or.inr ⟨hdev, hx.flags_hba hflags⟩
  cases x with
  | lockWaitq | link | accept | reject | delete => exact nomatch hm
  | unlockWaitq =>
      cases hr
      exact Or.inl ⟨rfl, rfl⟩
  | take g =>
      rcases Act.run_take.1 hr with ⟨w, htake, rfl⟩
      exact Or.inr (Or.inl ⟨g, w, rfl, htake, rfl⟩)
  | _ => exact Or.inr (Or.inr ⟨hm, id, hquiet hm id⟩)

theorem Unstranded.step (hG : GhdInv gdevOf G s) (hI : Unstranded s.shared)
    (hJ : (s.thr t).Settles gdevOf s.shared) (hx : Local gdevOf s.shared (s.thr t) x c')
    (hr : x.run gdevOf t s.shared = some a') : Unstranded a' := by
  have hv := hG.viewStep hx hr
  have hf := Act.frame hr
  have hown : (s.thr t).view.hba = true → s.shared.hbaMutex ≠ none := by
    intro hview hm
    exact nomatch hm.symm.trans ((hG.2 t).1.hba hview)
  constructor
  · intro hm hw
    rcases hG.waitq_free hx hr hw with ⟨rfl, rfl⟩ | ⟨g, w, rfl, -, -⟩ | ⟨hfree, hlock, hsame⟩
    · -- This thread does not keep the HBA mutex, so it has looked at the queue of the HBA.
      have hview : (s.thr t).view.hba = false := by
        rw [← Bool.not_eq_true]
        exact fun hview => hown hview hm
      exact hx.unlockWaitq_hba hJ hview hm
    · exact absurd (hf.hbaMutex.symm.trans hm) (hown hv.allowed.1)
    · -- The mutex was free before, so the HBA mutex was too.
      have hmfree : s.shared.hbaMutex = none := by
        have hm' := hf.hbaMutex.symm.trans hm
        cases x with
        | lockHba | lockHbaSoft => exact nomatch hm'
        | unlockHba =>
            exact nomatch hfree.symm.trans ((hG.2 t).1.waitq hx.unlockHba_waitq)
        | _ => exact hm'
      rcases hsame with hsame | ⟨-, hview⟩
      · have hmay := hI.hba hmfree hfree
        unfold Ccc.MayWait at hmay ⊢
        rw [hsame, Act.run_startRejected hr hlock]
        exact hmay
      · exact absurd hmfree (hown hview)
  · intro hw d
    rcases hG.waitq_free hx hr hw with ⟨rfl, rfl⟩ | ⟨g, w, rfl, htake, rfl⟩ | ⟨hfree, -, hsame⟩
    · exact hx.unlockWaitq_dev hJ d
    · exact (hx.take_dev hJ d).take htake
    · refine (hI.dev hfree d).congr ?_
      rcases hsame with hsame | ⟨hdev, -⟩
      · rw [hsame]
      · rw [hdev]

end Strand

theorem ghd_init_unstranded {gdevOf : Gcmd → GdevId} {s : GhdSys} (h : GhdInit s) :
    Unstranded s.shared ∧ ∀ t, (s.thr t).Settles gdevOf s.shared := by
  refine ⟨⟨fun _ _ => Or.inl (Or.inl h.hba.1), fun _ d => Or.inl (h.dev d).1⟩, fun t => ?_⟩
  rw [h.thr t]
  trivial

theorem ghd_reachable_unstranded {gdevOf : Gcmd → GdevId} {s : GhdSys}
    (h : GhdReachable gdevOf s) : Unstranded s.shared := by
  have hrun : ∃ u : Unit, Sys.Holds (fun _ a => Unstranded a)
      (fun _ _ a c => c.Settles gdevOf a) u s := by
    refine Sys.Holds.reachable (P := fun s => ∃ G, GhdInv gdevOf G s)
      (fun s hs => ghd_reachable_inv hs) (fun s₀ h0 => ⟨(), ?_⟩)
      (fun _ t s a' c' hP hl hH => ?_) h
    · exact ghd_init_unstranded h0
    rcases hP with ⟨G, hG⟩
    rcases hl with ⟨x, hx, hr⟩
    refine ⟨(), hH.1.step hG (hH.2 t) hx hr, hx.settles hH.1 (hH.2 t) hr, fun u hu => ?_⟩
    -- Only a thread in the wait queue mutex asserts anything, and there nobody disturbs it.
    cases hw : (s.thr u).view.waitq with
    | false => exact Ctl.settles_of_view hw
    | true => exact (hH.2 u).mono (hG.still hu ((hG.2 u).1.waitq hw) hx hr)
  rcases hrun with ⟨_, hH⟩
  exact hH.1

/-- The tryenter strands no request. In every reachable state in which both
    mutexes are free, for any order of steps: if the HBA's queue is not empty,
    the HBA has as many requests as it may have, or the queue is held or
    frozen, or the HBA rejected the last request it was handed; and if a
    device's queue is not empty, the device has a request outstanding. -/
theorem ghd_no_strand (gdevOf : Gcmd → GdevId) (s : GhdSys) (h : GhdReachable gdevOf s)
    (hmax : ∀ d, 1 ≤ (s.shared.waitq.dev d).waitq.maxactive)
    (hhba : s.shared.hbaMutex = none) (hwaitq : s.shared.waitqMutex = none) :
    (s.shared.waitq.hba.qhead ≠ [] →
      s.shared.waitq.hba.nactive ≥ s.shared.waitq.hba.maxactive ∨ s.shared.waitq.held = true ∨
        s.shared.waitq.frozen = true ∨ s.shared.startRejected = true) ∧
    ∀ d, (s.shared.waitq.dev d).waitq.qhead ≠ [] → 1 ≤ (s.shared.waitq.dev d).waitq.nactive := by
  have hI := ghd_reachable_unstranded h
  constructor
  · intro hq
    rcases hI.hba hhba hwaitq with (hb | hb | hb | hb) | hb
    · exact absurd hb hq
    · exact Or.inl hb
    · exact Or.inr (Or.inl hb)
    · exact Or.inr (Or.inr (Or.inl hb))
    · exact Or.inr (Or.inr (Or.inr hb))
  · intro d hq
    have hpos := hmax d
    rcases hI.dev hwaitq d with hb | hb | hb
    · exact absurd hb hq
    · exact hb
    · omega

/-- No step changes a device's throttle. -/
theorem Act.WaitqStep.maxactive {gdevOf : Gcmd → GdevId} {x : Act} {w w' : Waitq}
    (h : WaitqStep gdevOf x w w') (d : GdevId) :
    (w'.dev d).waitq.maxactive = (w.dev d).waitq.maxactive := by
  have hset : ∀ (w : Waitq) (d' : GdevId) (q : Q),
      q.maxactive = (w.dev d').waitq.maxactive →
        ((w.setDev d' q).dev d).waitq.maxactive = (w.dev d).waitq.maxactive := by
    intro w d' q hq
    rw [Waitq.setDev_dev]
    by_cases hd : d = d'
    · rw [if_pos hd, hd]
      exact hq
    · rw [if_neg hd]
  cases h with
  | same | reject | queueHold | freeze => rfl
  | link g polled => exact hset _ _ _ rfl
  | promote d' _ _ hs =>
      rcases Waitq.shuffleUp_eq_some hs with ⟨g, rest, -, -, -, rfl⟩
      exact hset _ _ _ rfl
  | take g _ _ hs =>
      rcases Waitq.take_eq_some hs with ⟨rest, -, -, rfl⟩
      rfl
  | delete g =>
      unfold Waitq.delete
      split
      · rfl
      · rfl
      · exact hset (w.unlink g) _ _ rfl
      · exact hset w _ _ rfl
      · rfl

/-- Nor does a run. -/
theorem GhdSys.after_maxactive (gdevOf : Gcmd → GdevId) (s : GhdSys)
    (l : List (Tid × Act × Ctl)) (d : GdevId) :
    ((s.after gdevOf l).shared.waitq.dev d).waitq.maxactive =
      (s.shared.waitq.dev d).waitq.maxactive := by
  induction l generalizing s with
  | nil => rfl
  | cons e l ih =>
      rw [GhdSys.after, ih]
      simp only [GhdSys.next]
      cases hr : e.2.1.run gdevOf e.1 s.shared with
      | none => rfl
      | some a' => exact (Act.run_waitq hr).maxactive d

/-- Two requests for one device, the first of them rejected by the HBA. -/
def ghdRejected : GhdSys :=
  ghdStart.after (fun _ => 0)
    [(0, .call 0, .xportLink 0 false), (0, .link 0 false, .xportShuffle 0 false),
      (0, .promote 0, .xportShuffle 0 false), (0, .skip, .xportShuffled 0 false),
      (0, .lockHba, .hold (.exit none) false),
      (0, .take 0, .hba (.start (.exit none) false 0 false)),
      (1, .call 1, .xportLink 1 false), (1, .link 1 false, .xportShuffle 1 false),
      (1, .skip, .xportShuffled 1 false), (1, .skip, .xportDrop), (1, .unlockWaitq, .idle),
      (0, .reject 0, .holdRet (.exit none) false), (0, .unlockHba, .exitWaitq none),
      (0, .unlockWaitq, .idle)]

theorem ghdRejected_reachable : GhdReachable (fun _ => 0) ghdRejected :=
  (ghdStart_reachable _).after _
    ⟨.call 0, rfl, .xportLink 0 false, rfl, .xportShuffle 0 false, rfl,
      .xportShuffled 0 false rfl, rfl, .tryenter 0, rfl, .holdTake _ _ 0, rfl,
      .call 1, rfl, .xportLink 1 false, rfl, .xportShuffled 1 false rfl, rfl,
      .tryenterFail 1 nofun, rfl, .xportDrop, rfl, .startReject _ _ 0, rfl, .exitHba _ _, rfl,
      .exitWaitq, rfl, trivial⟩

theorem ghd_no_strand_rejected :
    (ghdRejected.shared.waitq.hba.qhead ≠ [] →
      ghdRejected.shared.waitq.hba.nactive ≥ ghdRejected.shared.waitq.hba.maxactive ∨
        ghdRejected.shared.waitq.held = true ∨ ghdRejected.shared.waitq.frozen = true ∨
        ghdRejected.shared.startRejected = true) ∧
    ∀ d, (ghdRejected.shared.waitq.dev d).waitq.qhead ≠ [] →
      1 ≤ (ghdRejected.shared.waitq.dev d).waitq.nactive :=
  ghd_no_strand _ ghdRejected ghdRejected_reachable
    (fun d => Int.le_of_eq (GhdSys.after_maxactive _ ghdStart _ d).symm) rfl rfl

end Ghd

end Sil3112
