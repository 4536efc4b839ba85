import Mathlib.Data.List.Basic
import Mathlib.Algebra.BigOperators.Group.List.Basic
import Mathlib.Algebra.GroupWithZero.Nat

/-!
# DMA Windows and Cookies

The DMA part of a `gcmd_t`, and how `ghd_dma.c` walks over a buffer that is
bound to a DMA handle. The system cuts the buffer into windows, and each window
into cookies, one for each piece of memory. A request takes whole cookies from
the window at hand until it has as many bytes as it needs, the scatter/gather
list is full, or the window ends. The next request goes on from there.

The handle and the calls `ddi_dma_getwin` and `ddi_dma_nextcookie` follow their
documentation. The addresses are those of the memory, the tables that translate
them are left out.

`todo` is what the counters of a `gcmd_t` stand for: the cookies of the current
window that have not been taken, and the windows after it.

## Main definitions

* `DmaCookie`, `DmaHandle`, `GcmdDma`: Cookies, handles, and the DMA part of a
  `gcmd_t`.
* `bufBind`, `dmafree`, `dmagetNext`, `dmaget`: The functions of `ghd_dma.c`.
* `GcmdDma.Ok`, `GcmdDma.todo`: The invariant, and what is left to transfer.
* `gathered`: The cookies one request takes.

## Theorems

* `gathered_unique`: How many cookies a request takes.
* `dmaget_spec`: A request takes the next cookies of the window at hand.
-/

namespace Sil3112

namespace Ghd

/-- Conversion to `uint_t`. -/
def uint (x : Int) : Nat := (x % 2 ^ 32).toNat

theorem uint_of_lt {x : Nat} (h : x < 2 ^ 32) : uint x = x := by
  unfold uint
  omega

/-- `ddi_dma_cookie_t` -/
structure DmaCookie where
  address : Nat
  size : Nat
  deriving DecidableEq

/-- A DMA handle that is bound to a buf: the cookies of each window, and those
    of the current window that `ddi_dma_nextcookie` has yet to return. -/
structure DmaHandle where
  buf : Nat
  windows : List (List DmaCookie)
  next : List DmaCookie

/-- The DMA part of a `gcmd_t`. -/
structure GcmdDma where
  handle : Option DmaHandle := none
  wcount : Nat := 0
  windex : Nat := 0
  ccount : Nat := 0
  cindex : Nat := 0
  totxfer : Nat := 0
  firstCookie : DmaCookie := ⟨0, 0⟩
  useFirst : Bool := false

/-- `ddi_dma_nextcookie`. It must not be called after the last cookie of the
    window. -/
def nextcookie (h : DmaHandle) : DmaCookie × DmaHandle :=
  match h.next with
  | [] => (⟨0, 0⟩, h)
  | c :: cs => (c, { h with next := cs })

/-- `ddi_dma_getwin`: the first cookie of a window, and the number of its
    cookies. -/
def getwin (h : DmaHandle) (win : Nat) : Option (DmaCookie × Nat × DmaHandle) :=
  match h.windows[win]? with
  | some (c :: cs) => some (c, cs.length + 1, { h with next := cs })
  | _ => none

/-- `ghd_dma_buf_bind_attr`. The outcome of `ddi_dma_alloc_handle` and
    `ddi_dma_buf_bind_handle` is given: the windows, or `none` where one of
    them fails. -/
def bufBind (d : GcmdDma) (buf : Nat) (windows : Option (List (List DmaCookie))) :
    Option GcmdDma :=
  match windows with
  | some ((c :: cs) :: ws) =>
    some { d with
      handle := some ⟨buf, (c :: cs) :: ws, cs⟩
      firstCookie := c
      ccount := cs.length + 1
      wcount := ws.length + 1
      windex := 0
      cindex := 0
      totxfer := 0
      useFirst := true }
  | _ => none

/-- `ghd_dmafree_attr` -/
def dmafree (d : GcmdDma) : GcmdDma :=
  if d.handle.isSome then { d with handle := none, ccount := 0, totxfer := 0 } else d

section Get

/- `pkt` is what the controller's `ccc_sg_func` works on. -/
variable {α : Type} (sgFunc : α → DmaCookie → Bool → Nat → α)

/-- The loop of `ghd_dmaget_next_attr`. `left` is the room in the list after
    the cookie at hand, that is `sg_size - num_segs - 1`. -/
def getLoop (maxXfer : Nat) (single : Bool) : Nat → Nat → Nat → DmaCookie → α → GcmdDma →
    α × GcmdDma × Nat
  | left, numSegs, toxfer, cookie, pkt, d =>
    let pkt := sgFunc pkt cookie single numSegs
    let toxfer := toxfer + cookie.size
    let d := { d with cindex := d.cindex + 1 }
    if d.ccount ≤ d.cindex then
      -- That was the last cookie of the window.
      (pkt, { d with windex := d.windex + 1, cindex := 0 }, toxfer)
    else if maxXfer ≤ toxfer then (pkt, d, toxfer)
    else match left, d.handle with
      | left + 1, some h =>
        let r := nextcookie h
        getLoop maxXfer single left (numSegs + 1) toxfer r.1 pkt { d with handle := some r.2 }
      | _, _ => (pkt, d, toxfer)

/-- `ghd_dmaget_next_attr` -/
def dmagetNext (pkt : α) (d : GcmdDma) (maxXfer sgSize : Nat) (cookie : DmaCookie) :
    α × GcmdDma × Nat :=
  let single := !(decide (d.cindex + 1 < d.ccount))
  let r := getLoop sgFunc maxXfer single (sgSize - 1) 0 0 cookie pkt d
  (r.1, { r.2.1 with totxfer := r.2.1.totxfer + r.2.2 }, uint r.2.2)

/-- `ghd_dmaget_attr`: the number of bytes, or `none` where it returns false. -/
def dmaget (pkt : α) (d : GcmdDma) (count sgSize : Nat) : α × GcmdDma × Option Nat :=
  match d.handle with
  | none => (pkt, d, none)
  | some h =>
    if d.useFirst then
      let r := dmagetNext sgFunc pkt { d with useFirst := false } count sgSize d.firstCookie
      (r.1, r.2.1, some r.2.2)
    else if d.wcount ≤ d.windex then (pkt, d, none)
    else if d.cindex = 0 then
      match getwin h d.windex with
      | none => (pkt, d, none)
      | some (c, n, h) =>
        let r := dmagetNext sgFunc pkt { d with handle := some h, ccount := n } count sgSize c
        (r.1, r.2.1, some r.2.2)
    else
      let n := nextcookie h
      let r := dmagetNext sgFunc pkt { d with handle := some n.2 } count sgSize n.1
      (r.1, r.2.1, some r.2.2)

end Get

/-! ## What a request takes -/

/-- The bytes of a list of cookies. -/
def sizes (cs : List DmaCookie) : Nat := (cs.map DmaCookie.size).sum

@[simp] theorem sizes_nil : sizes [] = 0 := rfl

@[simp] theorem sizes_cons (c : DmaCookie) (cs : List DmaCookie) :
    sizes (c :: cs) = c.size + sizes cs := by
  unfold sizes
  rw [List.map_cons, List.sum_cons]

theorem sizes_append (cs cs' : List DmaCookie) : sizes (cs ++ cs') = sizes cs + sizes cs' := by
  unfold sizes
  rw [List.map_append, List.sum_append]

theorem sizes_pos {cs : List DmaCookie} (hne : cs ≠ []) (hpos : ∀ c ∈ cs, 0 < c.size) :
    0 < sizes cs := by
  cases cs with
  | nil => exact absurd rfl hne
  | cons c cs =>
      have hc := hpos c List.mem_cons_self
      rw [sizes_cons]
      omega

theorem sizes_le_of_prefix {cs cs' : List DmaCookie} (h : cs <+: cs') : sizes cs ≤ sizes cs' := by
  rcases h with ⟨t, rfl⟩
  rw [sizes_append]
  omega

/-- The cookies the loop takes, from the cookie at hand and those after it. -/
def gathered (maxXfer : Nat) : Nat → Nat → DmaCookie → List DmaCookie → List DmaCookie
  | _, _, c, [] => [c]
  | 0, _, c, _ :: _ => [c]
  | left + 1, toxfer, c, c' :: cs =>
    if maxXfer ≤ toxfer + c.size then [c]
    else c :: gathered maxXfer left (toxfer + c.size) c' cs

/-- A list of cookies on which the loop stops: it is not empty, there is room for
    it, it reaches the bytes needed, the end of the window or the end of the
    list, and no shorter one does. -/
structure Stops (maxXfer left toxfer : Nat) (w g : List DmaCookie) : Prop where
  isPrefix : g <+: w
  pos : g ≠ []
  room : g.length ≤ left + 1
  stop : g = w ∨ g.length = left + 1 ∨ maxXfer ≤ toxfer + sizes g
  first : ∀ p, p <+: g → p ≠ [] → p ≠ g → toxfer + sizes p < maxXfer

theorem gathered_ne_nil (maxXfer left toxfer : Nat) (c : DmaCookie) (cs : List DmaCookie) :
    ∃ g, gathered maxXfer left toxfer c cs = c :: g := by
  unfold gathered
  split
  · exact ⟨_, rfl⟩
  · exact ⟨_, rfl⟩
  · split
    · exact ⟨_, rfl⟩
    · exact ⟨_, rfl⟩

theorem gathered_stops (maxXfer : Nat) : ∀ (cs : List DmaCookie) (left toxfer : Nat)
    (c : DmaCookie), Stops maxXfer left toxfer (c :: cs) (gathered maxXfer left toxfer c cs) := by
  -- a single cookie, when one of the three reasons to stop holds at once
  have hsingle : ∀ (c : DmaCookie) (cs : List DmaCookie) (left toxfer : Nat),
      ([c] = c :: cs ∨ [c].length = left + 1 ∨ maxXfer ≤ toxfer + c.size) →
      Stops maxXfer left toxfer (c :: cs) [c] := by
    intro c cs left toxfer h
    refine ⟨⟨cs, rfl⟩, nofun, Nat.le_add_left 1 left, by simpa using h, ?_⟩
    intro p hp hne hpg
    rcases List.prefix_cons_iff.1 hp with rfl | ⟨t, rfl, ht⟩
    · exact absurd rfl hne
    · exact absurd (by rw [List.prefix_nil.1 ht]) hpg
  intro cs
  induction cs with
  | nil =>
      intro left toxfer c
      unfold gathered
      exact hsingle c [] left toxfer (Or.inl rfl)
  | cons c' cs ih =>
      intro left toxfer c
      cases left with
      | zero => exact hsingle c _ 0 toxfer (Or.inr (Or.inl rfl))
      | succ left =>
          unfold gathered
          split
          · next hmax => exact hsingle c _ _ toxfer (Or.inr (Or.inr hmax))
          · next hmax =>
            have h := ih left (toxfer + c.size) c'
            refine ⟨(List.prefix_cons_inj c).2 h.isPrefix, nofun, ?_, ?_, ?_⟩
            · have hr := h.room
              simp only [List.length_cons]
              omega
            · rcases h.stop with hs | hs | hs
              · exact Or.inl (congrArg (c :: ·) hs)
              · exact Or.inr (Or.inl (by simp only [List.length_cons]; omega))
              · rw [sizes_cons]
                exact Or.inr (Or.inr (by omega))
            · -- a shorter prefix has `c` too, and what it has of the rest did not stop there
              intro p hp hne hpg
              rcases List.prefix_cons_iff.1 hp with rfl | ⟨t, rfl, ht⟩
              · exact absurd rfl hne
              · rw [sizes_cons]
                by_cases htn : t = []
                · rw [htn, sizes_nil]
                  omega
                · have hf := h.first t ht htn (fun hn => hpg (by rw [hn]))
                  omega

/-- The entries of the scatter/gather list for some cookies, from entry `n`. -/
def foldSg {α : Type} (sgFunc : α → DmaCookie → Bool → Nat → α) (single : Bool) :
    Nat → α → List DmaCookie → α
  | _, pkt, [] => pkt
  | n, pkt, c :: cs => foldSg sgFunc single (n + 1) (sgFunc pkt c single n) cs

/-! ## The invariant -/

/-- The counters agree with the handle. -/
structure GcmdDma.Ok (d : GcmdDma) (h : DmaHandle) : Prop where
  handle : d.handle = some h
  wcount : d.wcount = h.windows.length
  windows : ∀ w ∈ h.windows, w ≠ []
  first : d.useFirst = true → d.windex = 0 ∧ d.cindex = 0 ∧
    ∃ ws, h.windows = (d.firstCookie :: h.next) :: ws ∧ d.ccount = h.next.length + 1
  next : d.useFirst = false → d.cindex ≠ 0 → ∃ w ws, h.windows.drop d.windex = w :: ws ∧
    w.drop d.cindex = h.next ∧ h.next ≠ [] ∧ d.ccount = w.length

/-- What is left to transfer: the rest of the current window, and the windows
    after it. -/
def GcmdDma.todo (d : GcmdDma) : List (List DmaCookie) :=
  match d.handle with
  | none => []
  | some h =>
    match h.windows.drop d.windex with
    | [] => []
    | w :: ws => w.drop d.cindex :: ws

/-- The state after `k` cookies, of which `cs` are all but the first of the
    window. -/
def GcmdDma.taken (d : GcmdDma) (h : DmaHandle) (cs : List DmaCookie) (k : Nat) : GcmdDma :=
  { d with
    handle := some { h with next := cs.drop (k - 1) }
    windex := if k = cs.length + 1 then d.windex + 1 else d.windex
    cindex := if k = cs.length + 1 then 0 else d.cindex + k }

/-- `ghd_dmaget_next_attr` is called with the first of the cookies `c :: cs`,
    which are the rest of the current window. -/
structure GcmdDma.AtCookie (d : GcmdDma) (h : DmaHandle) (c : DmaCookie) (cs : List DmaCookie)
    (ws : List (List DmaCookie)) : Prop where
  handle : d.handle = some h
  next : h.next = cs
  wcount : d.wcount = h.windows.length
  windows : ∀ w ∈ h.windows, w ≠ []
  useFirst : d.useFirst = false
  window : ∃ w, h.windows.drop d.windex = w :: ws ∧ w.drop d.cindex = c :: cs ∧
    d.ccount = w.length

section Spec

variable {α : Type} {f : α → DmaCookie → Bool → Nat → α} {d : GcmdDma} {h : DmaHandle}
  {c : DmaCookie} {cs : List DmaCookie} {ws : List (List DmaCookie)}

/-- The loop takes the cookies that are gathered, and adds them up. -/
theorem getLoop_spec (maxXfer : Nat) (single : Bool) (h : DmaHandle) : ∀ (cs : List DmaCookie)
    (left n toxfer : Nat) (c : DmaCookie) (pkt : α) (d : GcmdDma),
    d.handle = some { h with next := cs } → d.ccount = d.cindex + 1 + cs.length →
    getLoop f maxXfer single left n toxfer c pkt d =
      (foldSg f single n pkt (gathered maxXfer left toxfer c cs),
        d.taken h cs (gathered maxXfer left toxfer c cs).length,
        toxfer + sizes (gathered maxXfer left toxfer c cs)) := by
  intro cs
  induction cs with
  | nil =>
      intro left n toxfer c pkt d hh hcc
      rcases d with ⟨handle, wcount, windex, ccount, cindex, totxfer, firstCookie, useFirst⟩
      simp only [List.length_nil] at hh hcc
      subst hh
      -- The window is used up.
      have hend : ccount ≤ cindex + 1 := by omega
      unfold getLoop gathered GcmdDma.taken
      simp only [hend, if_true, List.length_cons, List.length_nil, sizes_cons, sizes_nil,
        Nat.add_zero, foldSg, List.drop_nil]
  | cons c' cs ih =>
      intro left n toxfer c pkt d hh hcc
      rcases d with ⟨handle, wcount, windex, ccount, cindex, totxfer, firstCookie, useFirst⟩
      simp only [List.length_cons] at hh hcc
      subst hh
      have hend : ¬ccount ≤ cindex + 1 := by omega
      unfold getLoop
      simp only [hend, if_false]
      cases left with
      | zero =>
          -- The list has no entry left.
          unfold gathered GcmdDma.taken
          simp only [ite_self, List.length_cons, List.length_nil, Nat.zero_add, sizes_cons,
            sizes_nil, Nat.add_zero, foldSg, Nat.sub_self, List.drop_zero]
          rw [if_neg (by omega), if_neg (by omega)]
      | succ left =>
          unfold gathered
          by_cases hmax : maxXfer ≤ toxfer + c.size
          · -- Enough has been gathered.
            unfold GcmdDma.taken
            simp only [hmax, if_true, List.length_cons, List.length_nil, Nat.zero_add, sizes_cons,
              sizes_nil, Nat.add_zero, foldSg, Nat.sub_self, List.drop_zero]
            rw [if_neg (by omega), if_neg (by omega)]
          · -- The cookie goes on the list, and the loop goes on with the next one.
            rcases gathered_ne_nil maxXfer left (toxfer + c.size) c' cs with ⟨g, hg⟩
            simp only [hmax, if_false, nextcookie]
            rw [ih left (n + 1) (toxfer + c.size) c' _ _ rfl (by dsimp only; omega), hg]
            unfold GcmdDma.taken
            simp only [foldSg, sizes_cons, List.length_cons, Nat.add_sub_cancel,
              Nat.add_right_cancel_iff, List.drop_succ_cons]
            simp only [Nat.add_assoc, Nat.add_comm 1]

theorem GcmdDma.AtCookie.ccount (h0 : d.AtCookie h c cs ws) :
    d.ccount = d.cindex + 1 + cs.length := by
  rcases h0.window with ⟨w, -, hdrop, hcc⟩
  have hl := congrArg List.length hdrop
  simp only [List.length_drop, List.length_cons] at hl
  omega

/-- Taking some cookies, or all of the window, keeps the invariant. -/
theorem GcmdDma.AtCookie.taken (h0 : d.AtCookie h c cs ws) {k : Nat} (hpos : 0 < k)
    (hk : k ≤ cs.length + 1) (n : Nat) :
    GcmdDma.Ok { d.taken h cs k with totxfer := n } { h with next := cs.drop (k - 1) } ∧
      GcmdDma.todo { d.taken h cs k with totxfer := n } =
        if k = cs.length + 1 then ws else (c :: cs).drop k :: ws := by
  have hcc := h0.ccount
  have hu := h0.useFirst
  rcases h0.window with ⟨w, hwin, hdrop, hlen⟩
  -- What is left of the window begins behind the cookies that are taken.
  have hdrop' : w.drop (d.cindex + k) = (c :: cs).drop k := by
    rw [← List.drop_drop, hdrop]
  refine ⟨⟨rfl, h0.wcount, h0.windows, ?_, ?_⟩, ?_⟩
  · intro hn
    rw [show d.useFirst = true from hn] at hu
    cases hu
  · intro _ hci
    unfold GcmdDma.taken at hci ⊢
    by_cases hall : k = cs.length + 1
    · simp only [hall, if_true, ne_eq, not_true] at hci
    · simp only [hall, if_false]
      refine ⟨w, ws, hwin, ?_, ?_, hlen⟩
      · rw [hdrop']
        cases k with
        | zero => omega
        | succ k => rfl
      · intro hnil
        have hl := congrArg List.length hnil
        simp only [List.length_drop, List.length_nil] at hl
        omega
  · unfold GcmdDma.todo GcmdDma.taken
    by_cases hall : k = cs.length + 1
    · simp only [hall, if_true]
      rw [← List.drop_drop, hwin]
      cases ws with
      | nil => rfl
      | cons w' ws => rfl
    · simp only [hall, if_false, hwin, hdrop']

theorem dmagetNext_spec (h0 : d.AtCookie h c cs ws) (pkt : α) (maxXfer sgSize : Nat)
    {g : List DmaCookie} (hg : gathered maxXfer (sgSize - 1) 0 c cs = g) :
    dmagetNext f pkt d maxXfer sgSize c =
      (foldSg f (!decide (d.cindex + 1 < d.ccount)) 0 pkt g,
        { d.taken h cs g.length with totxfer := d.totxfer + sizes g }, uint (sizes g)) := by
  have hh : d.handle = some { h with next := cs } := by rw [h0.handle, ← h0.next]
  have hloop := getLoop_spec (f := f) maxXfer (!decide (d.cindex + 1 < d.ccount)) h cs
    (sgSize - 1) 0 0 c pkt d hh h0.ccount
  rw [hg] at hloop
  unfold dmagetNext
  dsimp only
  rw [hloop]
  simp only [Nat.zero_add, GcmdDma.taken]

/-- When nothing is left there is nothing to get. -/
theorem dmaget_none (h0 : d.Ok h) (htodo : d.todo = []) (pkt : α) (count sgSize : Nat) :
    dmaget f pkt d count sgSize = (pkt, d, none) := by
  unfold GcmdDma.todo at htodo
  simp only [h0.handle] at htodo
  have hend : h.windows.length ≤ d.windex := by
    cases hw : h.windows.drop d.windex with
    | nil => simpa using hw
    | cons w ws =>
        rw [hw] at htodo
        cases htodo
  -- A first cookie that has been kept would still be left.
  have hu : d.useFirst = false := by
    by_contra hn
    rcases h0.first (by simpa using hn) with ⟨hi, -, ws, hws, -⟩
    rw [hi, hws, List.length_cons] at hend
    omega
  unfold dmaget
  simp only [h0.handle, hu, Bool.false_eq_true, if_false, h0.wcount, hend, if_true]

/-- What is left of the windows are ends of windows, and not empty. -/
theorem GcmdDma.Ok.todo_window (h0 : d.Ok h) :
    ∀ w ∈ d.todo, w ≠ [] ∧ ∃ w₀ ∈ h.windows, w <:+ w₀ := by
  intro w hw
  unfold GcmdDma.todo at hw
  simp only [h0.handle] at hw
  cases hdrop : h.windows.drop d.windex with
  | nil =>
      rw [hdrop] at hw
      cases hw
  | cons w₀ ws₀ =>
      rw [hdrop] at hw
      have hmem : ∀ v ∈ w₀ :: ws₀, v ∈ h.windows := fun v hv =>
        List.mem_of_mem_drop (hdrop ▸ hv)
      rcases List.mem_cons.1 hw with rfl | hw
      · refine ⟨?_, w₀, hmem w₀ List.mem_cons_self, List.drop_suffix _ _⟩
        by_cases hci : d.cindex = 0
        · rw [hci, List.drop_zero]
          exact h0.windows w₀ (hmem w₀ List.mem_cons_self)
        · have hu : d.useFirst = false := by
            by_contra hn
            exact hci (h0.first (by simpa using hn)).2.1
          rcases h0.next hu hci with ⟨w', ws', hw', hdr, hnn, -⟩
          rw [hdrop] at hw'
          rw [(List.cons.inj hw').1, hdr]
          exact hnn
      · have hv := hmem w (List.mem_cons_of_mem _ hw)
        exact ⟨h0.windows w hv, w, hv, List.suffix_rfl⟩

/-- However the first cookie is found, it is the next one of the current
    window. -/
theorem dmaget_atCookie (h0 : d.Ok h) {w : List DmaCookie} (htodo : d.todo = w :: ws) (pkt : α)
    (count sgSize : Nat) :
    ∃ d₁ h₁ c cs, GcmdDma.AtCookie d₁ h₁ c cs ws ∧ w = c :: cs ∧ h₁.buf = h.buf ∧
      h₁.windows = h.windows ∧ d₁.totxfer = d.totxfer ∧
      dmaget f pkt d count sgSize =
        ((dmagetNext f pkt d₁ count sgSize c).1,
          (dmagetNext f pkt d₁ count sgSize c).2.1,
          some (dmagetNext f pkt d₁ count sgSize c).2.2) := by
  unfold GcmdDma.todo at htodo
  simp only [h0.handle] at htodo
  cases hdrop : h.windows.drop d.windex with
  | nil =>
      rw [hdrop] at htodo
      cases htodo
  | cons w₀ ws₀ =>
      rw [hdrop] at htodo
      rcases List.cons.inj htodo with ⟨hw, rfl⟩
      have hin : d.windex < h.windows.length := by
        by_contra hn
        rw [List.drop_eq_nil_of_le (by omega)] at hdrop
        cases hdrop
      have hlt : ¬d.wcount ≤ d.windex := by
        rw [h0.wcount]
        omega
      cases hu : d.useFirst with
      | true =>
          -- The first cookie has been kept since the bind.
          rcases h0.first hu with ⟨hi, hci, ws', hws, hcc⟩
          rw [hi, List.drop_zero, hws] at hdrop
          rcases List.cons.inj hdrop with ⟨rfl, rfl⟩
          rw [hci, List.drop_zero] at hw
          refine ⟨{ d with useFirst := false }, h, d.firstCookie, h.next, ?_, hw.symm, rfl, rfl,
            rfl, ?_⟩
          · refine ⟨h0.handle, rfl, h0.wcount, h0.windows, rfl, d.firstCookie :: h.next, ?_, ?_, ?_⟩
            · dsimp only
              rw [hi, List.drop_zero, hws]
            · dsimp only
              rw [hci, List.drop_zero]
            · dsimp only
              rw [hcc, List.length_cons]
          · unfold dmaget
            simp only [h0.handle, hu, if_true]
      | false =>
          by_cases hci : d.cindex = 0
          · -- The next window begins.
            rw [hci, List.drop_zero] at hw
            have hget : h.windows[d.windex]? = some w₀ := by
              have hd := @List.getElem?_drop _ h.windows d.windex 0
              rwa [hdrop, List.getElem?_cons_zero, Nat.add_zero, eq_comm] at hd
            cases hcs : w₀ with
            | nil => exact absurd hcs (h0.windows _ (List.mem_of_getElem? hget))
            | cons c cs =>
                refine ⟨{ d with handle := some { h with next := cs }, ccount := cs.length + 1 },
                  { h with next := cs }, c, cs, ?_, by rw [← hw, hcs], rfl, rfl, rfl, ?_⟩
                · refine ⟨rfl, rfl, h0.wcount, h0.windows, hu, w₀, hdrop, ?_, ?_⟩
                  · dsimp only
                    rw [hci, hcs, List.drop_zero]
                  · dsimp only
                    rw [hcs, List.length_cons]
                · rw [hcs] at hget
                  unfold dmaget
                  simp only [h0.handle, hu, Bool.false_eq_true, if_false, hlt, hci, if_true, getwin,
                    hget]
          · -- The window has been begun, and has another cookie.
            rcases h0.next hu hci with ⟨w', ws', hw', hdr, hnn, hcc⟩
            rw [hdrop] at hw'
            rcases List.cons.inj hw' with ⟨rfl, rfl⟩
            cases hcs : h.next with
            | nil => exact absurd hcs hnn
            | cons c cs =>
                rw [hdr, hcs] at hw
                refine ⟨{ d with handle := some { h with next := cs } }, { h with next := cs }, c,
                  cs, ?_, hw.symm, rfl, rfl, rfl, ?_⟩
                · exact ⟨rfl, rfl, h0.wcount, h0.windows, hu, w₀, hdrop, by rw [hdr, hcs], hcc⟩
                · unfold dmaget
                  simp only [h0.handle, hu, Bool.false_eq_true, if_false, hlt, hci, nextcookie, hcs]

/-- A request takes the next cookies of the current window. It is announced as a
    single one only where the window has no other left. -/
theorem dmaget_spec_single (h0 : d.Ok h) {w : List DmaCookie} (htodo : d.todo = w :: ws)
    (pkt : α) (count sgSize : Nat) :
    ∃ c cs g single d' h', w = c :: cs ∧ g = gathered count (sgSize - 1) 0 c cs ∧
      (single = true → cs = []) ∧
      dmaget f pkt d count sgSize =
        (foldSg f single 0 pkt g, d', some (uint (sizes g))) ∧
      d'.Ok h' ∧ h'.buf = h.buf ∧ h'.windows = h.windows ∧ d'.totxfer = d.totxfer + sizes g ∧
      d'.todo = if g = w then ws else w.drop g.length :: ws := by
  rcases dmaget_atCookie (f := f) h0 htodo pkt count sgSize with
    ⟨d₁, h₁, c, cs, hat, hw, hbuf, hwin, htot, hget⟩
  generalize hg : gathered count (sgSize - 1) 0 c cs = g
  have hst := gathered_stops count cs (sgSize - 1) 0 c
  rw [hg] at hst
  have hpos : 0 < g.length := List.length_pos_of_ne_nil hst.pos
  have hle : g.length ≤ cs.length + 1 := hst.isPrefix.length_le
  have hall : g.length = cs.length + 1 ↔ g = w := by
    rw [hw]
    exact ⟨fun hl => hst.isPrefix.eq_of_length hl, fun he => by rw [he, List.length_cons]⟩
  rw [dmagetNext_spec hat pkt count sgSize hg] at hget
  rcases hat.taken hpos hle (d₁.totxfer + sizes g) with ⟨hok, ht⟩
  refine ⟨c, cs, g, _, _, _, hw, hg.symm, ?_, hget, hok, hbuf, hwin, ?_, ?_⟩
  · intro hsingle
    have hcc := hat.ccount
    rw [Bool.not_eq_true', decide_eq_false_iff_not] at hsingle
    exact List.eq_nil_of_length_eq_zero (by omega)
  · dsimp only
    rw [htot]
  · rw [ht]
    simp only [hall, hw]

/-- A request takes the next cookies of the current window. -/
theorem dmaget_spec (h0 : d.Ok h) {w : List DmaCookie} (htodo : d.todo = w :: ws) (pkt : α)
    (count sgSize : Nat) :
    ∃ c cs g single d' h', w = c :: cs ∧ g = gathered count (sgSize - 1) 0 c cs ∧
      dmaget f pkt d count sgSize =
        (foldSg f single 0 pkt g, d', some (uint (sizes g))) ∧
      d'.Ok h' ∧ h'.buf = h.buf ∧ h'.windows = h.windows ∧ d'.totxfer = d.totxfer + sizes g ∧
      d'.todo = if g = w then ws else w.drop g.length :: ws := by
  rcases dmaget_spec_single (f := f) h0 htodo pkt count sgSize with
    ⟨c, cs, g, single, d', h', hw, hg, -, hrest⟩
  exact ⟨c, cs, g, single, d', h', hw, hg, hrest⟩

end Spec

/-- A buf that has just been bound. -/
theorem bufBind_ok {d d' : GcmdDma} {buf : Nat} {windows : Option (List (List DmaCookie))}
    (hne : ∀ ws, windows = some ws → ∀ w ∈ ws, w ≠ []) (hb : bufBind d buf windows = some d') :
    ∃ h, d'.Ok h ∧ h.buf = buf ∧ windows = some h.windows ∧ d'.todo = h.windows ∧
      d'.totxfer = 0 ∧ h.windows ≠ [] := by
  unfold bufBind at hb
  split at hb
  · next c cs ws =>
    cases hb
    refine ⟨⟨buf, (c :: cs) :: ws, cs⟩, ⟨rfl, rfl, hne _ rfl, ?_, ?_⟩, rfl, rfl, rfl, rfl, nofun⟩
    · exact fun _ => ⟨rfl, rfl, ws, rfl, rfl⟩
    · nofun
  · cases hb

end Ghd

end Sil3112
