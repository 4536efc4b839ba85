import Mathlib.Data.List.Nodup
import Sil3112.Lib.Ledger

/-!
# Holdings

The law of a ledger counts. It does not say when a resource was released, and a release
that comes before its acquisition is as good as one that comes after. Here the log of a
machine is replayed for one resource at a time: it may be acquired only while it is not
held, and released only while it is.

A machine that can be called from outside, by an interrupt for instance, has a gate. The
gate may be opened only while everything the calls need is held, and nothing of this may
be released while it is open.

A machine is honest if its log can be replayed and leaves what the machine holds.
Honesty is local: what calls one another, or come after one another, are honest together
(`Honest.trans`), and so is a run (`Honest.run`).

## Main definitions

* `Entry`: An entry of a log.
* `replay`: A log, from one resource's point of view.
* `Honest`: A machine and its log agree.

## Theorems

* `replay_append`: A log is replayed part by part.
* `replay_gate`: What is needed while the gate is open is held then.
* `replay_other`: Only the entries about a resource and the gate matter.
* `replay_flatMap`: Of the parts of a log, the one that is about the resource.
* `replay_acquires`, `replay_releases`, `replay_undone`: Many resources at once.
* `Honest.trans`, `Honest.run`: Honesty of two steps, and of a run.
-/

namespace Holdings

variable {ρ σ γ κ : Type}

/-- An entry of a log. -/
inductive Entry (ρ : Type) where
  | acquire (r : ρ)
  | release (r : ρ)
  | gate (opens : Bool)

section Replay

variable [DecidableEq ρ]

/-- What an entry does to a resource that is held or not, while the gate is open or not.
    `need` says whether the resource is needed while it is open. -/
def replay1 (need : Bool) (q : ρ) : Entry ρ → Bool × Bool → Option (Bool × Bool)
  | .acquire r, (held, isOpen) =>
    if r = q then if held then none else some (true, isOpen) else some (held, isOpen)
  | .release r, (held, isOpen) =>
    if r = q then if held && !(need && isOpen) then some (false, isOpen) else none
    else some (held, isOpen)
  | .gate opens, (held, _) => if need && opens && !held then none else some (held, opens)

/-- A log, from one resource's point of view. -/
def replay (need : Bool) (q : ρ) : List (Entry ρ) → Bool × Bool → Option (Bool × Bool)
  | [], b => some b
  | e :: es, b => (replay1 need q e b).bind (replay need q es)

variable {need : Bool} {q : ρ} {b : Bool × Bool}

@[simp] theorem replay_nil : replay need q [] b = some b :=
  rfl

@[simp] theorem replay_cons (e : Entry ρ) (es : List (Entry ρ)) :
    replay need q (e :: es) b = (replay1 need q e b).bind (replay need q es) :=
  rfl

/-- A log is replayed part by part. -/
theorem replay_append (es es' : List (Entry ρ)) :
    replay need q (es ++ es') b = (replay need q es b).bind (replay need q es') := by
  induction es generalizing b with
  | nil => rfl
  | cons e es ih =>
    rw [List.cons_append, replay_cons, replay_cons, Option.bind_assoc]
    exact congrArg _ (funext fun b' => ih)

/-- The entry is about the resource, or about the gate. -/
def Entry.Concerns (q : ρ) : Entry ρ → Prop
  | .acquire r => r = q
  | .release r => r = q
  | .gate _ => True

/-- Only the entries about a resource and the gate matter. -/
theorem replay_other {es : List (Entry ρ)} (h : ∀ e ∈ es, ¬ e.Concerns q) :
    replay need q es b = some b := by
  induction es with
  | nil => rfl
  | cons e es ih =>
    have he := h e List.mem_cons_self
    have hrest := ih fun e' he' => h e' (List.mem_cons_of_mem _ he')
    rw [replay_cons]
    cases e with
    | acquire r =>
      rw [show replay1 need q (.acquire r) b = some b from if_neg he]
      exact hrest
    | release r =>
      rw [show replay1 need q (.release r) b = some b from if_neg he]
      exact hrest
    | gate opens => exact absurd trivial he

/-- Of the parts of a log, the one that is about the resource. -/
theorem replay_flatMap {ks : List κ} (hnd : ks.Nodup) {f : κ → List (Entry ρ)} {k : κ}
    (hk : k ∈ ks) (h : ∀ k' ∈ ks, k' ≠ k → ∀ e ∈ f k', ¬ e.Concerns q) :
    replay need q (ks.flatMap f) b = replay need q (f k) b := by
  rcases List.append_of_mem hk with ⟨l, r, rfl⟩
  have hsplit := List.nodup_middle.mp hnd
  have hnot := (List.nodup_cons.mp hsplit).1
  have hside : ∀ k' ∈ l ++ r, ∀ e ∈ f k', ¬ e.Concerns q := by
    intro k' hk'
    refine h k' ?_ fun hkk => hnot (hkk ▸ hk')
    rcases List.mem_append.mp hk' with hl | hr
    · exact List.mem_append_left _ hl
    · exact List.mem_append_right _ (List.mem_cons_of_mem _ hr)
  have hquiet : ∀ l' : List κ, (∀ k' ∈ l', k' ∈ l ++ r) → ∀ b',
      replay need q (l'.flatMap f) b' = some b' := by
    intro l' hl' b'
    refine replay_other fun e he => ?_
    rcases List.mem_flatMap.mp he with ⟨k', hk', he'⟩
    exact hside k' (hl' k' hk') e he'
  rw [List.flatMap_append, List.flatMap_cons, replay_append,
    hquiet l fun k' hk' => List.mem_append_left _ hk', Option.bind_some, replay_append]
  cases hf : replay need q (f k) b with
  | none => rfl
  | some b' => exact hquiet r (fun k' hk' => List.mem_append_right _ hk') b'

/-! ## Resources one after the other -/

/-- Resources that are not held are acquired. -/
theorem replay_acquires {rs : List ρ} {held isOpen : Bool} (hnd : rs.Nodup)
    (hfree : q ∈ rs → held = false) :
    replay need q (rs.map .acquire) (held, isOpen) = some (held || decide (q ∈ rs), isOpen) := by
  by_cases hq : q ∈ rs
  · have hmap : rs.map Entry.acquire = rs.flatMap fun r => [Entry.acquire r] :=
      (List.flatMap_pure_eq_map _ _).symm
    rw [hmap, replay_flatMap hnd hq, hfree hq, decide_eq_true hq]
    · rw [replay_cons, replay1, if_pos rfl]
      rfl
    · intro r _ hr e he
      rw [List.mem_singleton.mp he]
      exact hr
  · rw [decide_eq_false hq, Bool.or_false]
    refine replay_other fun e he => ?_
    rcases List.mem_map.mp he with ⟨r, hr, rfl⟩
    exact fun hrq => hq (hrq ▸ hr)

/-- Resources that are held are released, while they are not needed. -/
theorem replay_releases {rs : List ρ} {held isOpen : Bool} (hnd : rs.Nodup)
    (hheld : q ∈ rs → held = true) (hshut : q ∈ rs → (need && isOpen) = false) :
    replay need q (rs.map .release) (held, isOpen) =
      some (held && !decide (q ∈ rs), isOpen) := by
  by_cases hq : q ∈ rs
  · have hmap : rs.map Entry.release = rs.flatMap fun r => [Entry.release r] :=
      (List.flatMap_pure_eq_map _ _).symm
    rw [hmap, replay_flatMap hnd hq, hheld hq, decide_eq_true hq]
    · rw [replay_cons, replay1, if_pos rfl, hshut hq]
      rfl
    · intro r _ hr e he
      rw [List.mem_singleton.mp he]
      exact hr
  · rw [decide_eq_false hq, Bool.not_false, Bool.and_true]
    refine replay_other fun e he => ?_
    rcases List.mem_map.mp he with ⟨r, hr, rfl⟩
    exact fun hrq => hq (hrq ▸ hr)

/-- What is acquired and released again. -/
theorem replay_undone {rs rs' : List ρ} {held isOpen : Bool} (hnd : rs.Nodup)
    (hperm : rs'.Perm rs) (hfree : q ∈ rs → held = false)
    (hshut : q ∈ rs → (need && isOpen) = false) :
    replay need q (rs.map .acquire ++ rs'.map .release) (held, isOpen) = some (held, isOpen) := by
  have hmem : q ∈ rs' ↔ q ∈ rs := hperm.mem_iff
  rw [replay_append, replay_acquires hnd hfree, Option.bind_some,
    replay_releases (hperm.nodup_iff.mpr hnd)]
  · by_cases hq : q ∈ rs
    · rw [decide_eq_true (hmem.mpr hq), hfree hq, Bool.not_true, Bool.and_false]
    · rw [decide_eq_false hq, decide_eq_false fun h => hq (hmem.mp h), Bool.or_false,
        Bool.not_false, Bool.and_true]
  · intro hq
    rw [decide_eq_true (hmem.mp hq), Bool.or_true]
  · exact fun hq => hshut (hmem.mp hq)

/-- A machine and its log agree: the log can be replayed for every resource, and leaves
    what the machine holds and whether it has its gate open. -/
def Honest (need : ρ → Bool) (held : σ → ρ → Bool) (isOpen : σ → Bool) (s : σ)
    (r : σ × List (Entry ρ)) : Prop :=
  ∀ q, replay (need q) q r.2 (held s q, isOpen s) = some (held r.1 q, isOpen r.1)

variable {needs : ρ → Bool} {held : σ → ρ → Bool} {isOpen : σ → Bool}

/-- A step that acquires what is not held. -/
theorem Honest.acquires {s s' : σ} {rs : List ρ} (hnd : rs.Nodup)
    (hfree : ∀ q ∈ rs, held s q = false)
    (hheld : ∀ q, held s' q = (held s q || decide (q ∈ rs))) (hopen : isOpen s' = isOpen s) :
    Honest needs held isOpen s (s', rs.map .acquire) := by
  intro q
  rw [replay_acquires hnd (hfree q)]
  dsimp only
  rw [hheld q, hopen]

/-- A step that gives back what it has acquired. -/
theorem Honest.undone {s s' : σ} {rs rs' : List ρ} (hnd : rs.Nodup) (hperm : rs'.Perm rs)
    (hfree : ∀ q ∈ rs, held s q = false) (hshut : isOpen s = false)
    (hheld : ∀ q, held s' q = held s q) (hopen : isOpen s' = isOpen s) :
    Honest needs held isOpen s (s', rs.map .acquire ++ rs'.map .release) := by
  intro q
  rw [replay_undone hnd hperm (hfree q) fun _ => by rw [hshut, Bool.and_false]]
  dsimp only
  rw [hheld q, hopen]

theorem Honest.nil (s : σ) : Honest needs held isOpen s (s, []) :=
  fun _ => rfl

/-- Two honest steps make an honest one. -/
theorem Honest.trans {s : σ} {a b : σ × List (Entry ρ)} (ha : Honest needs held isOpen s a)
    (hb : Honest needs held isOpen a.1 b) : Honest needs held isOpen s (b.1, a.2 ++ b.2) := by
  intro q
  rw [replay_append, ha q]
  exact hb q

/-- A run of honest steps is honest. -/
theorem Honest.run {step : σ → γ → σ × List (Entry ρ)} {I : σ → Prop}
    (hI : ∀ s c, I s → I (step s c).1) (h : ∀ s c, I s → Honest needs held isOpen s (step s c))
    {s : σ} (hs : I s) (cs : List γ) :
    Honest needs held isOpen s (Ledger.run step s cs) ∧ I (Ledger.run step s cs).1 := by
  induction cs generalizing s with
  | nil => exact ⟨.nil s, hs⟩
  | cons c cs ih =>
    rcases ih (hI s c hs) with ⟨hrest, hlast⟩
    exact ⟨(h s c hs).trans hrest, hlast⟩

end Replay

end Holdings
