import Mathlib.Data.Nat.Find
import Sil3112.Lib.Loop

/-!
# Busy Waiting

`sol11ata_wait` and `ata_wait3`, which poll the status of a drive until it is as
wanted or the time is over, and `ata_software_reset`, which waits for the drives
after a reset.

The time that is left is an `uint_t`. The delay is subtracted from it first, and
then it is compared with 0. So a wait for no time at all does not end after its
first poll, and neither does one for a time that is no multiple of the delay:
the time passes 0 and goes on from almost 2^32. If the drive stays as it is, such
a wait takes hours, and one for an odd time does not end.

`ata_software_reset` first tries to select drive 1 if it is the only one, and
waits with the time that this has left. A drive that answers at the very end
leaves it no time.

## Main definitions

* `pollBody`: The loop of both waits.
* `sol11ataWait`, `ataWait3`: `sol11ata_wait` and `ata_wait3`
* `softwareReset`: `ata_software_reset`
* `PollsBounded`, `ResetBounded`: The bounds that they should keep.

## Theorems

* `poll_multiple`: A wait for a multiple of the delay.
* `polls_bounded_iff`: When a wait keeps its bound.
* `reset_bounded_iff`: When the reset does.
* `busy_waits_bounded_iff`: All of them, in terms of the registers.
-/

namespace Sil3112

namespace Ata

/-! ## The source -/

/-- `ata_usec_delay` -/
def ataUsecDelay : Nat := 10

/-- `(val & onbits) == onbits && (val & offbits) == 0` -/
def Matches (onbits offbits val : BitVec 8) : Prop :=
  val &&& onbits = onbits ∧ val &&& offbits = 0

instance (onbits offbits val : BitVec 8) : Decidable (Matches onbits offbits val) :=
  inferInstanceAs (Decidable (_ ∧ _))

/-- Where a wait is: how often it has polled, and `timeout_usec`. Also how many
    microseconds of `drv_usecwait` were requested. -/
structure WaitSt where
  polls : Nat
  timeout : BitVec 32
  usec : Nat

/-- How a wait ends. -/
structure WaitRes where
  ok : Bool
  polls : Nat
  usec : Nat
  deriving DecidableEq

/-- The loop of `sol11ata_wait` and of `ata_wait3`. The registers are read in the
    order of the polls, and the verdict on a value is what the function returns, if
    it does. -/
def pollBody (verdict : BitVec 8 → Option Bool) (regs : Nat → BitVec 8) (s : WaitSt) :
    WaitSt ⊕ WaitRes :=
  match verdict (regs s.polls) with
  | some ok => .inr ⟨ok, s.polls + 1, s.usec⟩
  | none =>
    let timeout := s.timeout - BitVec.ofNat 32 ataUsecDelay
    if timeout.toNat > 0 then .inl ⟨s.polls + 1, timeout, s.usec + ataUsecDelay⟩
    else .inr ⟨false, s.polls + 1, s.usec + ataUsecDelay⟩

/-- `sol11ata_wait` -/
def sol11ataWait (onbits offbits : BitVec 8) : BitVec 8 → Option Bool :=
  fun val => if Matches onbits offbits val then some true else none

/-- `ata_wait3` -/
def ataWait3 (onbits1 offbits1 failureOnbits2 failureOffbits2 failureOnbits3
    failureOffbits3 : BitVec 8) : BitVec 8 → Option Bool :=
  fun val =>
    if Matches onbits1 offbits1 val then some true
    else if Matches failureOnbits2 failureOffbits2 val then some false
    else if Matches failureOnbits3 failureOffbits3 val then some false
    else none

/-- `ATS_BSY` -/
def atsBsy : BitVec 8 := 0x80

/-- `ATS_DF` -/
def atsDf : BitVec 8 := 0x20

/-- `ATS_ERR` -/
def atsErr : BitVec 8 := 0x01

/-- What `ata_software_reset` meets: whether there is a drive 0, what the two
    registers are that are read in each round after drive 1 was selected, and the
    status at each poll. -/
structure ResetEnv where
  drive0 : Bool
  sect : Nat → BitVec 8
  count : Nat → BitVec 8
  status : Nat → BitVec 8

/-- Where the loop over the selection of drive 1 is. -/
structure SelectSt where
  round : Nat
  timeLeft : Int
  usec : Nat

/-- How it ends. -/
structure SelectRes where
  found : Bool
  timeLeft : Int
  usec : Nat

/-- The loop of `ata_software_reset`. -/
def selectBody (env : ResetEnv) (s : SelectSt) : SelectSt ⊕ SelectRes :=
  if s.timeLeft > 0 then
    let usec := s.usec + 10000
    let timeLeft := s.timeLeft - 10000
    if env.sect s.round ≠ 0xaa then .inl ⟨s.round + 1, timeLeft, usec⟩
    else if env.count s.round ≠ 0xaa then .inl ⟨s.round + 1, timeLeft, usec⟩
    else .inr ⟨true, timeLeft, usec⟩
  else .inr ⟨false, s.timeLeft, s.usec⟩

/-- Every round takes from the time that is left. -/
theorem selectBody_lt (env : ResetEnv) (s s' : SelectSt) (h : selectBody env s = .inl s') :
    s'.timeLeft.toNat < s.timeLeft.toNat := by
  unfold selectBody at h
  by_cases hpos : s.timeLeft > 0
  · rw [if_pos hpos] at h
    dsimp only at h
    split at h
    · cases h
      dsimp only
      omega
    · split at h
      · cases h
        dsimp only
        omega
      · cases h
  · rw [if_neg hpos] at h
    cases h

/-- The loop that selects drive 1. -/
def selectDrive1 (env : ResetEnv) : SelectRes :=
  Loop.exec (selectBody env) (fun s => s.timeLeft.toNat) (selectBody_lt env) ⟨0, 31000000, 0⟩

/-- The wait for both drives not to be busy, in `ata_software_reset`. -/
def resetWait : BitVec 8 → Option Bool :=
  ataWait3 0 atsBsy atsErr atsBsy atsDf atsBsy

/-- `ata_software_reset`, as long as its wait ends within so many polls: what it
    returns, and how many microseconds it has requested after the two fixed
    delays. -/
def softwareReset (n : Nat) (env : ResetEnv) : Option (Bool × Nat) :=
  let sel : SelectRes :=
    if env.drive0 then ⟨true, 31000000, 0⟩ else selectDrive1 env
  if sel.found then
    (Loop.run (pollBody resetWait env.status) n ⟨0, BitVec.ofInt 32 sel.timeLeft, sel.usec⟩).map
      fun r => (true, r.usec)
  else some (false, sel.usec)

/-! ## One poll -/

variable {verdict : BitVec 8 → Option Bool} {regs : Nat → BitVec 8}

theorem pollBody_some {s : WaitSt} {ok : Bool} (h : verdict (regs s.polls) = some ok) :
    pollBody verdict regs s = .inr ⟨ok, s.polls + 1, s.usec⟩ := by
  unfold pollBody
  rw [h]

/-- A value that settles nothing, with time left. -/
theorem pollBody_next {s : WaitSt} (h : verdict (regs s.polls) = none)
    (ht : (s.timeout - BitVec.ofNat 32 ataUsecDelay).toNat ≠ 0) :
    pollBody verdict regs s =
      .inl ⟨s.polls + 1, s.timeout - BitVec.ofNat 32 ataUsecDelay, s.usec + ataUsecDelay⟩ := by
  unfold pollBody
  rw [h]
  exact if_pos (Nat.pos_of_ne_zero ht)

theorem pollBody_over {s : WaitSt} (h : verdict (regs s.polls) = none)
    (ht : (s.timeout - BitVec.ofNat 32 ataUsecDelay).toNat = 0) :
    pollBody verdict regs s = .inr ⟨false, s.polls + 1, s.usec + ataUsecDelay⟩ := by
  unfold pollBody
  rw [h]
  exact if_neg (by omega)

/-- What a poll can lead to. -/
theorem pollBody_cases (verdict : BitVec 8 → Option Bool) (regs : Nat → BitVec 8) (s : WaitSt) :
    (∃ ok, verdict (regs s.polls) = some ok ∧
      pollBody verdict regs s = .inr ⟨ok, s.polls + 1, s.usec⟩) ∨
    pollBody verdict regs s =
      .inl ⟨s.polls + 1, s.timeout - BitVec.ofNat 32 ataUsecDelay, s.usec + ataUsecDelay⟩ ∨
    pollBody verdict regs s = .inr ⟨false, s.polls + 1, s.usec + ataUsecDelay⟩ := by
  cases hv : verdict (regs s.polls) with
  | some ok => exact Or.inl ⟨ok, rfl, pollBody_some hv⟩
  | none =>
      by_cases ht : (s.timeout - BitVec.ofNat 32 ataUsecDelay).toNat = 0
      · exact Or.inr (Or.inr (pollBody_over hv ht))
      · exact Or.inr (Or.inl (pollBody_next hv ht))

/-- However a wait ends, it has polled once more, and requested no less. -/
theorem poll_ends_later {s : WaitSt} {r : WaitRes} (h : Loop.Ends (pollBody verdict regs) s r) :
    s.polls + 1 ≤ r.polls ∧ s.usec ≤ r.usec := by
  refine Loop.Ends.invariant (I := fun t : WaitSt => s.polls ≤ t.polls ∧ s.usec ≤ t.usec)
    (Q := fun r => s.polls + 1 ≤ r.polls ∧ s.usec ≤ r.usec) (fun t t' ht hb => ?_)
    (fun t r ht hb => ?_) ⟨Nat.le_refl _, Nat.le_refl _⟩ h
  · rcases pollBody_cases verdict regs t with ⟨ok, -, heq⟩ | heq | heq
    · rw [heq] at hb
      cases hb
    · rw [heq] at hb
      cases hb
      exact ⟨Nat.le_succ_of_le ht.1, Nat.le_add_right_of_le ht.2⟩
    · rw [heq] at hb
      cases hb
  · rcases pollBody_cases verdict regs t with ⟨ok, -, heq⟩ | heq | heq
    · rw [heq] at hb
      cases hb
      exact ⟨Nat.succ_le_succ ht.1, ht.2⟩
    · rw [heq] at hb
      cases hb
    · rw [heq] at hb
      cases hb
      exact ⟨Nat.succ_le_succ ht.1, Nat.le_add_right_of_le ht.2⟩

/-- A wait that is never satisfied returns FALSE if it returns. -/
theorem poll_ends_false (hno : ∀ i, verdict (regs i) ≠ some true) {s : WaitSt} {r : WaitRes}
    (h : Loop.Ends (pollBody verdict regs) s r) : r.ok = false := by
  refine Loop.Ends.invariant (I := fun _ => True) (Q := fun r => r.ok = false)
    (fun t t' _ _ => trivial) (fun t r _ hb => ?_) trivial h
  rcases pollBody_cases verdict regs t with ⟨ok, hv, heq⟩ | heq | heq
  · rw [heq] at hb
    cases hb
    cases ok with
    | true => exact absurd hv (hno t.polls)
    | false => rfl
  · rw [heq] at hb
    cases hb
  · rw [heq] at hb
    cases hb
    rfl

/-! ## Waits -/

theorem sub_delay {t : BitVec 32} (h : 10 ≤ t.toNat) :
    (t - BitVec.ofNat 32 ataUsecDelay).toNat = t.toNat - 10 := by
  rw [BitVec.toNat_sub, show (BitVec.ofNat 32 ataUsecDelay).toNat = 10 from rfl]
  omega

/-- A wait for a multiple of the delay ends when the time is over, at the latest. -/
theorem poll_multiple (m : Nat) {s : WaitSt} (ht : s.timeout.toNat = 10 * (m + 1)) :
    ∃ r, Loop.Ends (pollBody verdict regs) s r ∧ r.polls ≤ s.polls + (m + 1) ∧
      r.usec ≤ s.usec + 10 * (m + 1) := by
  induction m generalizing s with
  | zero =>
      have hsub := sub_delay (t := s.timeout) (by omega)
      cases hv : verdict (regs s.polls) with
      | some ok => exact ⟨_, Loop.ends_leave (pollBody_some hv), by simp, by simp⟩
      | none =>
          refine ⟨_, Loop.ends_leave (pollBody_over hv (by omega)), by simp, ?_⟩
          exact Nat.le_refl (s.usec + 10)
  | succ m ih =>
      have hsub := sub_delay (t := s.timeout) (by omega)
      cases hv : verdict (regs s.polls) with
      | some ok =>
          refine ⟨_, Loop.ends_leave (pollBody_some hv), ?_, ?_⟩
          · exact Nat.add_le_add_left (by omega) _
          · exact Nat.le_add_right _ _
      | none =>
          -- the rest is a wait for one delay less
          rcases ih (s := ⟨s.polls + 1, s.timeout - BitVec.ofNat 32 ataUsecDelay,
            s.usec + ataUsecDelay⟩) (by dsimp only; omega) with ⟨r, hends, hpolls, husec⟩
          refine ⟨r, (Loop.ends_next (pollBody_next hv (by omega))).mpr hends, ?_, ?_⟩
          · dsimp only at hpolls
            omega
          · dsimp only [ataUsecDelay] at husec
            omega

/-- The state after so many polls that settle nothing. -/
def waited (t : BitVec 32) (i : Nat) : WaitSt :=
  ⟨i, t - BitVec.ofNat 32 (10 * i), 10 * i⟩

theorem waited_zero (t : BitVec 32) : waited t 0 = ⟨0, t, 0⟩ := by
  simp [waited]

theorem waited_sub (t : BitVec 32) (i : Nat) :
    (waited t i).timeout - BitVec.ofNat 32 ataUsecDelay = (waited t (i + 1)).timeout := by
  apply BitVec.eq_of_toNat_eq
  simp only [waited, ataUsecDelay, BitVec.toNat_sub, BitVec.toNat_ofNat]
  omega

theorem waited_next {t : BitVec 32} {i : Nat} (hv : verdict (regs i) = none)
    (ht : (waited t (i + 1)).timeout.toNat ≠ 0) :
    pollBody verdict regs (waited t i) = .inl (waited t (i + 1)) := by
  rw [← waited_sub] at ht
  rw [pollBody_next (s := waited t i) hv ht, waited_sub]
  rfl

/-- The time does not come to 0 in time. -/
theorem waited_ne_zero {t : BitVec 32} (ht : t.toNat = 0 ∨ t.toNat % 10 ≠ 0) {i : Nat}
    (hpos : 0 < i) (hi : i ≤ max 1 ((t.toNat + 9) / 10)) : (waited t i).timeout.toNat ≠ 0 := by
  have hlt := t.isLt
  simp only [waited, BitVec.toNat_sub, BitVec.toNat_ofNat]
  generalize t.toNat = n at ht hi hlt ⊢
  -- what has been taken is not the time, and at most one delay more
  have hne : 10 * i ≠ n := by
    rcases ht with ht | ht
    · omega
    · omega
  have hle : 10 * i ≤ n + 10 := by
    rcases Nat.le_total 1 ((n + 9) / 10) with hmax | hmax
    · rw [Nat.max_eq_right hmax] at hi
      omega
    · rw [Nat.max_eq_left hmax] at hi
      omega
  clear ht hi
  rcases Nat.lt_or_ge (10 * i) (2 ^ 32) with hsmall | hbig
  · rw [Nat.mod_eq_of_lt hsmall]
    omega
  · rw [Nat.mod_eq_sub_mod hbig, Nat.mod_eq_of_lt (show 10 * i - 2 ^ 32 < 2 ^ 32 by omega)]
    omega

/-- A wait that is not satisfied returns FALSE, and after no more polls than its time
    has delays. One poll is always made. -/
def PollsBounded (verdict : BitVec 8 → Option Bool) (regs : Nat → BitVec 8) (t : BitVec 32) :
    Prop :=
  ∃ r, Loop.Ends (pollBody verdict regs) ⟨0, t, 0⟩ r ∧ r.ok = false ∧
    r.polls ≤ max 1 ((t.toNat + 9) / 10)

/-- A poll settles nothing if it neither satisfies the wait nor tells it to give up. -/
theorem verdict_none {v : BitVec 8} (ht : verdict v ≠ some true) (hf : verdict v ≠ some false) :
    verdict v = none := by
  cases h : verdict v with
  | none => rfl
  | some ok =>
      cases ok with
      | true => exact absurd h ht
      | false => exact absurd h hf

/-- A wait that is not satisfied keeps its bound if and only if its time is a multiple
    of the delay, and not 0, or one of the polls within the bound tells it to give
    up. -/
theorem polls_bounded_iff (hno : ∀ i, verdict (regs i) ≠ some true) (t : BitVec 32) :
    PollsBounded verdict regs t ↔
      (t.toNat ≠ 0 ∧ t.toNat % 10 = 0) ∨
        ∃ i, i < max 1 ((t.toNat + 9) / 10) ∧ verdict (regs i) = some false := by
  by_cases hmul : t.toNat ≠ 0 ∧ t.toNat % 10 = 0
  · refine iff_of_true ?_ (Or.inl hmul)
    obtain ⟨m, hm⟩ : ∃ m, t.toNat = 10 * (m + 1) := ⟨t.toNat / 10 - 1, by omega⟩
    rcases @poll_multiple verdict regs m ⟨0, t, 0⟩ hm with
      ⟨r, hends, hpolls, -⟩
    exact ⟨r, hends, poll_ends_false hno hends, by dsimp only at hpolls; omega⟩
  · have ht : t.toNat = 0 ∨ t.toNat % 10 ≠ 0 := by omega
    -- as long as no poll settles anything, the wait goes on
    have hafter : ∀ k, k ≤ max 1 ((t.toNat + 9) / 10) →
        (∀ i, i < k → verdict (regs i) = none) → ∀ r,
        Loop.Ends (pollBody verdict regs) ⟨0, t, 0⟩ r ↔
          Loop.Ends (pollBody verdict regs) (waited t k) r := by
      intro k hk hnone r
      rw [← waited_zero]
      exact Loop.ends_after (waited t) fun i hi =>
        waited_next (hnone i hi) (waited_ne_zero ht (by omega) (by omega))
    constructor
    · rintro ⟨r, hends, -, hpolls⟩
      refine Or.inr ?_
      by_contra hfail
      have hnone : ∀ i, i < max 1 ((t.toNat + 9) / 10) → verdict (regs i) = none :=
        fun i hi => verdict_none (hno i) fun hv => hfail ⟨i, hi, hv⟩
      have hlate := (poll_ends_later ((hafter _ (Nat.le_refl _) hnone r).mp hends)).1
      dsimp only [waited] at hlate
      omega
    · rintro (hmul' | hfail)
      · exact absurd hmul' hmul
      · classical
        -- the first poll that tells it to give up
        rcases Nat.find_spec hfail with ⟨hlt, hv⟩
        have hmin : ∀ i, i < Nat.find hfail → verdict (regs i) = none := fun i hi =>
          verdict_none (hno i) fun hvi => Nat.find_min hfail hi ⟨Nat.lt_trans hi hlt, hvi⟩
        refine ⟨_, (hafter _ (by omega) hmin _).mpr
          (Loop.ends_leave (pollBody_some (s := waited t (Nat.find hfail)) hv)), rfl, ?_⟩
        exact hlt

/-! ## The reset -/

/-- The two registers read back in a round as they were written. -/
def Answers (env : ResetEnv) (i : Nat) : Prop :=
  env.sect i = 0xaa ∧ env.count i = 0xaa

/-- The selection of drive 1 after so many rounds. -/
def selecting (i : Nat) : SelectSt :=
  ⟨i, 31000000 - 10000 * (i : Int), 10000 * i⟩

theorem selecting_succ (i : Nat) : selecting (i + 1) =
    ⟨i + 1, 31000000 - 10000 * (i : Int) - 10000, 10000 * i + 10000⟩ := by
  unfold selecting
  rw [SelectSt.mk.injEq]
  omega

theorem selectBody_next {env : ResetEnv} {i : Nat} (hi : i < 3100) (h : ¬Answers env i) :
    selectBody env (selecting i) = .inl (selecting (i + 1)) := by
  rw [selecting_succ]
  unfold selectBody selecting
  dsimp only
  rw [if_pos (by omega)]
  by_cases hsect : env.sect i = 0xaa
  · rw [if_neg (not_not.mpr hsect), if_pos fun hcount => h ⟨hsect, hcount⟩]
  · rw [if_pos hsect]

theorem selectBody_answers {env : ResetEnv} {i : Nat} (hi : i < 3100) (h : Answers env i) :
    selectBody env (selecting i) =
      .inr ⟨true, 31000000 - 10000 * (i : Int) - 10000, 10000 * i + 10000⟩ := by
  unfold selectBody selecting
  dsimp only
  rw [if_pos (by omega), if_neg (not_not.mpr h.1), if_neg (not_not.mpr h.2)]

/-- Without an answer the time is over. -/
theorem selectBody_over (env : ResetEnv) :
    selectBody env (selecting 3100) = .inr ⟨false, 0, 31000000⟩ := by
  unfold selectBody selecting
  dsimp only
  rw [if_neg (by omega), Sum.inr.injEq, SelectRes.mk.injEq]
  exact ⟨rfl, by omega, by omega⟩

/-- The selection succeeds in the first round that is answered, if there is one
    before the time is over. -/
theorem selectDrive1_eq {env : ResetEnv} {r : SelectRes}
    (h : Loop.Ends (selectBody env) ⟨0, 31000000, 0⟩ r) : selectDrive1 env = r :=
  (Loop.exec_ends (selectBody_lt env) _).unique h

theorem selectDrive1_found {env : ResetEnv} {k : Nat} (hk : k < 3100) (h : Answers env k)
    (hfirst : ∀ i, i < k → ¬Answers env i) :
    selectDrive1 env = ⟨true, 31000000 - 10000 * (k : Int) - 10000, 10000 * k + 10000⟩ := by
  refine selectDrive1_eq ?_
  refine (Loop.ends_after selecting (k := k) fun i hi => ?_).mpr
    (Loop.ends_leave (selectBody_answers hk h))
  exact selectBody_next (by omega) (hfirst i hi)

theorem selectDrive1_none {env : ResetEnv} (h : ∀ i, i < 3100 → ¬Answers env i) :
    selectDrive1 env = ⟨false, 0, 31000000⟩ := by
  refine selectDrive1_eq ?_
  refine (Loop.ends_after selecting (k := 3100) fun i hi => selectBody_next hi (h i hi)).mpr
    (Loop.ends_leave (selectBody_over env))

/-- The reset requests no more than 31 seconds, and a delay. -/
def ResetBounded (env : ResetEnv) : Prop :=
  ∃ n rc usec, softwareReset n env = some (rc, usec) ∧ usec ≤ 31000000 + ataUsecDelay

/-- Drive 1 is the only one, and is selected just when the time is over. Then the
    status is busy at the first two polls. -/
def LateAnswer (env : ResetEnv) : Prop :=
  env.drive0 = false ∧ (∀ i, i < 3099 → ¬Answers env i) ∧ Answers env 3099 ∧
    env.status 0 &&& atsBsy ≠ 0 ∧ env.status 1 &&& atsBsy ≠ 0

/-- The wait of a reset, with the time that the selection has left. -/
def WaitWithin (env : ResetEnv) (sel : SelectRes) : Prop :=
  ∃ r, Loop.Ends (pollBody resetWait env.status) ⟨0, BitVec.ofInt 32 sel.timeLeft, sel.usec⟩ r ∧
    r.usec ≤ 31000000 + ataUsecDelay

theorem reset_found_iff {env : ResetEnv} {sel : SelectRes}
    (hsel : (if env.drive0 then ⟨true, 31000000, 0⟩ else selectDrive1 env) = sel)
    (hfound : sel.found = true) : ResetBounded env ↔ WaitWithin env sel := by
  have heq : ∀ n, softwareReset n env =
      (Loop.run (pollBody resetWait env.status) n
        ⟨0, BitVec.ofInt 32 sel.timeLeft, sel.usec⟩).map fun r => (true, r.usec) := by
    intro n
    unfold softwareReset
    rw [hsel]
    exact if_pos hfound
  constructor
  · rintro ⟨n, rc, usec, hrun, hle⟩
    rw [heq] at hrun
    rcases Option.map_eq_some_iff.mp hrun with ⟨r, hr, hval⟩
    cases hval
    exact ⟨r, ⟨n, hr⟩, hle⟩
  · rintro ⟨r, ⟨n, hr⟩, hle⟩
    exact ⟨n, true, r.usec, by rw [heq, hr]; rfl, hle⟩

/-- With time left the wait keeps to it. -/
theorem waitWithin_of_pos {env : ResetEnv} {sel : SelectRes} {m : Nat}
    (htime : sel.timeLeft = 10 * ((m : Int) + 1)) (hsum : sel.timeLeft + sel.usec = 31000000) :
    WaitWithin env sel := by
  have hint : sel.timeLeft = ((10 * (m + 1) : Nat) : Int) := by omega
  have hnat : (BitVec.ofInt 32 sel.timeLeft).toNat = 10 * (m + 1) := by
    rw [hint, BitVec.ofInt_natCast, BitVec.toNat_ofNat]
    exact Nat.mod_eq_of_lt (by omega)
  rcases @poll_multiple resetWait env.status m ⟨0, BitVec.ofInt 32 sel.timeLeft, sel.usec⟩
    hnat with ⟨r, hends, -, husec⟩
  dsimp only at husec
  exact ⟨r, hends, by omega⟩

/-- A wait without any time left requests no more than one delay if and only if one
    of its first two polls settles it. -/
theorem poll_no_time {s : WaitSt} (ht : s.timeout.toNat = 0) :
    (∃ r, Loop.Ends (pollBody verdict regs) s r ∧ r.usec ≤ s.usec + ataUsecDelay) ↔
      ¬(verdict (regs s.polls) = none ∧ verdict (regs (s.polls + 1)) = none) := by
  -- the time passes 0
  have hfirst : (s.timeout - BitVec.ofNat 32 ataUsecDelay).toNat = 4294967286 := by
    rw [BitVec.toNat_sub, ht]
    rfl
  have hsecond := sub_delay (t := s.timeout - BitVec.ofNat 32 ataUsecDelay) (by omega)
  constructor
  · rintro ⟨r, hends, hle⟩ ⟨h0, h1⟩
    have hone := (Loop.ends_next (pollBody_next h0 (by omega))).mp hends
    have htwo := (Loop.ends_next (pollBody_next h1 (by dsimp only; omega))).mp hone
    have hlate := (poll_ends_later htwo).2
    dsimp only [ataUsecDelay] at hlate hle
    omega
  · intro h
    cases h0 : verdict (regs s.polls) with
    | some ok => exact ⟨_, Loop.ends_leave (pollBody_some h0), Nat.le_add_right _ _⟩
    | none =>
        cases h1 : verdict (regs (s.polls + 1)) with
        | some ok =>
            exact ⟨_, (Loop.ends_next (pollBody_next h0 (by omega))).mpr
              (Loop.ends_leave (pollBody_some h1)), Nat.le_refl _⟩
        | none => exact absurd ⟨h0, h1⟩ h

/-- What the wait takes for an error needs the drives not to be busy either. -/
theorem resetWait_none_iff (val : BitVec 8) : resetWait val = none ↔ val &&& atsBsy ≠ 0 := by
  unfold resetWait ataWait3
  by_cases hbsy : val &&& atsBsy = 0
  · rw [if_pos ⟨BitVec.and_zero, hbsy⟩]
    exact iff_of_false nofun (not_not.mpr hbsy)
  · have hno : ∀ onbits, ¬Matches onbits atsBsy val := fun _ h => hbsy h.2
    rw [if_neg (hno _), if_neg (hno _), if_neg (hno _)]
    exact iff_of_true rfl hbsy

theorem waitWithin_zero_iff (env : ResetEnv) {sel : SelectRes} (htime : sel.timeLeft = 0)
    (husec : sel.usec = 31000000) : WaitWithin env sel ↔
      ¬(env.status 0 &&& atsBsy ≠ 0 ∧ env.status 1 &&& atsBsy ≠ 0) := by
  unfold WaitWithin
  rw [← husec, htime, ← resetWait_none_iff, ← resetWait_none_iff]
  exact poll_no_time (s := ⟨0, BitVec.ofInt 32 0, sel.usec⟩) rfl

/-- The reset keeps its bound unless drive 1 answers late, and then stays busy. -/
theorem reset_bounded_iff (env : ResetEnv) : ResetBounded env ↔ ¬LateAnswer env := by
  by_cases h0 : env.drive0 = true
  · -- all the time is left
    have hsel : (if env.drive0 then ⟨true, 31000000, 0⟩ else selectDrive1 env) =
        (⟨true, 31000000, 0⟩ : SelectRes) := if_pos h0
    have hfound : SelectRes.found ⟨true, 31000000, 0⟩ = true := rfl
    refine iff_of_true ((reset_found_iff hsel hfound).mpr ?_) fun hlate => ?_
    · exact waitWithin_of_pos (m := 3099999) (by dsimp only; omega) (by dsimp only; omega)
    · rw [hlate.1] at h0
      cases h0
  have hsel : (if env.drive0 then ⟨true, 31000000, 0⟩ else selectDrive1 env) =
      selectDrive1 env := if_neg h0
  by_cases hany : ∃ k, k < 3100 ∧ Answers env k
  · classical
    rcases Nat.find_spec hany with ⟨hk, hans⟩
    have hfirst : ∀ i, i < Nat.find hany → ¬Answers env i :=
      fun i hi ha => Nat.find_min hany hi ⟨by omega, ha⟩
    generalize Nat.find hany = k at hk hans hfirst
    have heq := selectDrive1_found hk hans hfirst
    have hfound : (selectDrive1 env).found = true := by rw [heq]
    rw [reset_found_iff hsel hfound, heq]
    by_cases hlast : k = 3099
    · subst hlast
      -- the last round leaves no time
      rw [waitWithin_zero_iff env (by dsimp only; omega) (by dsimp only)]
      refine not_congr ⟨fun hw => ⟨Bool.not_eq_true _ ▸ h0, hfirst, hans, hw⟩, fun hl => hl.2.2.2⟩
    · refine iff_of_true ?_ fun hlate => ?_
      · refine waitWithin_of_pos (m := 1000 * (3099 - k) - 1) ?_ ?_
        · dsimp only
          omega
        · dsimp only
          omega
      · exact hlate.2.1 k (by omega) hans
  · -- drive 1 is given up
    have hno : ∀ i, i < 3100 → ¬Answers env i := fun i hi ha => hany ⟨i, hi, ha⟩
    refine iff_of_true ⟨0, false, 31000000, ?_, Nat.le_add_right _ _⟩ fun hlate => ?_
    · unfold softwareReset
      rw [hsel, selectDrive1_none hno]
      rfl
    · exact hno 3099 (by omega) hlate.2.2.1

/-! ## All of them -/

theorem sol11ataWait_true_iff (onbits offbits val : BitVec 8) :
    sol11ataWait onbits offbits val = some true ↔ Matches onbits offbits val := by
  simp [sol11ataWait]

theorem sol11ataWait_ne_false (onbits offbits val : BitVec 8) :
    sol11ataWait onbits offbits val ≠ some false := by
  unfold sol11ataWait
  split
  · simp
  · simp

section

variable {onbits1 offbits1 failureOnbits2 failureOffbits2 failureOnbits3
  failureOffbits3 val : BitVec 8}

theorem ataWait3_true_iff :
    ataWait3 onbits1 offbits1 failureOnbits2 failureOffbits2 failureOnbits3 failureOffbits3 val =
      some true ↔ Matches onbits1 offbits1 val := by
  unfold ataWait3
  by_cases h1 : Matches onbits1 offbits1 val
  · rw [if_pos h1]
    exact iff_of_true rfl h1
  · rw [if_neg h1]
    refine iff_of_false ?_ h1
    split
    · simp
    · split
      · simp
      · simp

/-- It gives up when it sees one of the two errors. -/
theorem ataWait3_false_iff (h : ¬Matches onbits1 offbits1 val) :
    ataWait3 onbits1 offbits1 failureOnbits2 failureOffbits2 failureOnbits3 failureOffbits3 val =
      some false ↔
      Matches failureOnbits2 failureOffbits2 val ∨ Matches failureOnbits3 failureOffbits3 val := by
  unfold ataWait3
  rw [if_neg h]
  by_cases h2 : Matches failureOnbits2 failureOffbits2 val
  · simp [h2]
  · simp [h2]

end

/-- A wait that is never satisfied keeps its bound if and only if its time is a
    multiple of the delay, and not 0. `ata_wait3` also keeps it if it sees an error
    within the bound. The reset keeps its bound unless drive 1 answers late. -/
theorem busy_waits_bounded_iff (onbits offbits failureOnbits2 failureOffbits2 failureOnbits3
    failureOffbits3 : BitVec 8) (regs : Nat → BitVec 8) (t : BitVec 32) (env : ResetEnv) :
    ((∀ i, ¬Matches onbits offbits (regs i)) →
      (PollsBounded (sol11ataWait onbits offbits) regs t ↔
        t.toNat ≠ 0 ∧ t.toNat % ataUsecDelay = 0) ∧
      (PollsBounded (ataWait3 onbits offbits failureOnbits2 failureOffbits2 failureOnbits3
          failureOffbits3) regs t ↔
        (t.toNat ≠ 0 ∧ t.toNat % ataUsecDelay = 0) ∨
        ∃ i, i < max 1 ((t.toNat + 9) / 10) ∧
          (Matches failureOnbits2 failureOffbits2 (regs i) ∨
            Matches failureOnbits3 failureOffbits3 (regs i)))) ∧
    (ResetBounded env ↔ ¬LateAnswer env) := by
  refine ⟨fun hno => ⟨?_, ?_⟩, reset_bounded_iff env⟩
  · rw [polls_bounded_iff (fun i h => hno i ((sol11ataWait_true_iff _ _ _).mp h))]
    refine or_iff_left ?_
    rintro ⟨i, -, hfalse⟩
    exact sol11ataWait_ne_false _ _ _ hfalse
  · rw [polls_bounded_iff (fun i h => hno i (ataWait3_true_iff.mp h))]
    refine or_congr_right (exists_congr fun i => and_congr_right fun _ => ?_)
    exact ataWait3_false_iff (hno i)

/-- A drive that stays busy for 30 microseconds, and one that is there at a reset. -/
theorem busy_waits_bounded_threePolls :
    PollsBounded (sol11ataWait 0 atsBsy) (fun _ => atsBsy) 30 ∧
    PollsBounded (ataWait3 0 atsBsy atsErr atsBsy atsDf atsBsy) (fun _ => atsBsy) 30 ∧
    ResetBounded ⟨true, fun _ => 0, fun _ => 0, fun _ => atsBsy⟩ := by
  have hbusy : ¬Matches 0 atsBsy atsBsy := by decide
  have htime : (30 : BitVec 32).toNat ≠ 0 ∧ (30 : BitVec 32).toNat % ataUsecDelay = 0 := by
    decide
  have hall := busy_waits_bounded_iff 0 atsBsy atsErr atsBsy atsDf atsBsy (fun _ => atsBsy) 30
    ⟨true, fun _ => 0, fun _ => 0, fun _ => atsBsy⟩
  have hwaits := hall.1 fun _ => hbusy
  refine ⟨hwaits.1.mpr htime, hwaits.2.mpr (Or.inl htime), hall.2.mpr fun h => ?_⟩
  exact absurd h.1 (by decide)

/-- Nothing is there but a drive 1 that answers in the last round, and stays busy. -/
def lateDrive1 : ResetEnv :=
  ⟨false, fun i => if i < 3099 then 0 else 0xaa, fun i => if i < 3099 then 0 else 0xaa,
    fun _ => atsBsy⟩

theorem lateDrive1_late : LateAnswer lateDrive1 := by
  refine ⟨rfl, fun i hi hans => ?_, ⟨rfl, rfl⟩, by decide, by decide⟩
  have hsect : (0 : BitVec 8) = 0xaa := (if_pos hi).symm.trans hans.1
  exact absurd hsect (by decide)

/-- A wait for no time, and one for a time that is no multiple of the delay, with a
    drive that stays busy, and a reset. -/
theorem busy_waits_unbounded :
    ¬PollsBounded (sol11ataWait 0 atsBsy) (fun _ => atsBsy) 0 ∧
    ¬PollsBounded (ataWait3 0 atsBsy atsErr atsBsy atsDf atsBsy) (fun _ => atsBsy) 15 ∧
    ¬ResetBounded lateDrive1 := by
  refine ⟨fun h => ?_, fun h => ?_, fun h => (reset_bounded_iff _).mp h lateDrive1_late⟩
  · have hno : ∀ _ : Nat, sol11ataWait 0 atsBsy atsBsy ≠ some true := fun _ => nofun
    rcases (polls_bounded_iff hno 0).mp h with ⟨hne, -⟩ | ⟨i, -, hfalse⟩
    · exact hne rfl
    · exact absurd hfalse (by decide)
  · have hno : ∀ _ : Nat, resetWait atsBsy ≠ some true := fun _ => nofun
    rcases (polls_bounded_iff hno 15).mp h with ⟨-, hmul⟩ | ⟨i, -, hfalse⟩
    · exact absurd hmul (by decide)
    · exact absurd hfalse (by decide)

end Ata

end Sil3112
