import Mathlib.Algebra.Order.Ring.Int
import Sil3112.Ghd.Dma

/-!
# All the Cookies, Once and in Order

A buffer that is bound to a handle, and any sequence of requests for it. Each
request hands some cookies to the S/G function of the controller. Together they
hand over every cookie of every window, once and in order. A request is refused
only at the end of the buffer, or when the system does not open the next window.

The bytes of a request are counted in an `ulong_t`, and `cmd_totxfer` gets them
all. But `ghd_dmaget_next_attr` returns an `uint_t`. For a request of 2^32 bytes or
more it says less than has been handed over.

## Main definitions

* `SgEntry`, `sgRecord`: A call of the S/G function, and one that notes them down.
* `dmagetWin`: `ghd_dmaget_attr` with a `ddi_dma_getwin` that may fail.
* `DmaCall`, `CallOut`: A request, and what comes of it.
* `CallExact`, `RunExact`: What is to be true of a request, and of a sequence.
* `GcmdDma.due`: The cookies that a request is to hand over.

## Theorems

* `dmagetWin_spec`: What one request does.
* `run_exact_iff`: Which sequences of requests are as they should be.
-/

namespace Sil3112

namespace Ghd

/-! ## The requests -/

/-- A call of `ccc_sg_func`: the cookie, whether it is said to be the only one, and
    its place in the list. -/
structure SgEntry where
  cookie : DmaCookie
  single : Bool
  index : Nat

/-- An S/G function that notes down its calls. -/
def sgRecord (l : List SgEntry) (c : DmaCookie) (single : Bool) (i : Nat) : List SgEntry :=
  l ++ [⟨c, single, i⟩]

/-- The request begins a window that `ddi_dma_getwin` has to open. -/
def GcmdDma.startsWindow (d : GcmdDma) : Bool :=
  d.handle.isSome && !d.useFirst && decide (d.windex < d.wcount) && decide (d.cindex = 0)

/-- `ghd_dmaget_attr`. `winOk` is whether `ddi_dma_getwin` succeeds if it is called. -/
def dmagetWin {α : Type} (sgFunc : α → DmaCookie → Bool → Nat → α) (winOk : Bool) (pkt : α)
    (d : GcmdDma) (count sgSize : Nat) : α × GcmdDma × Option Nat :=
  match d.handle with
  | none => (pkt, d, none)
  | some h =>
    if d.useFirst then
      let r := dmagetNext sgFunc pkt { d with useFirst := false } count sgSize d.firstCookie
      (r.1, r.2.1, some r.2.2)
    else if d.wcount ≤ d.windex then (pkt, d, none)
    else if d.cindex = 0 then
      match if winOk then getwin h d.windex else none with
      | none => (pkt, d, none)
      | some (c, n, h) =>
        let r := dmagetNext sgFunc pkt { d with handle := some h, ccount := n } count sgSize c
        (r.1, r.2.1, some r.2.2)
    else
      let n := nextcookie h
      let r := dmagetNext sgFunc pkt { d with handle := some n.2 } count sgSize n.1
      (r.1, r.2.1, some r.2.2)

/-- A request: the bytes asked for, the room in the list, and whether the system
    opens a window. -/
structure DmaCall where
  count : Nat
  sgSize : Nat
  winOk : Bool
  count_pos : 0 < count
  sgSize_pos : 0 < sgSize

/-- What comes of a request: the calls of the S/G function, the `gcmd_t`, and what
    is returned. -/
structure CallOut where
  entries : List SgEntry
  after : GcmdDma
  ret : Option Nat

/-- Make a request. -/
def DmaCall.run (c : DmaCall) (d : GcmdDma) : CallOut :=
  let r := dmagetWin sgRecord c.winOk [] d c.count c.sgSize
  ⟨r.1, r.2.1, r.2.2⟩

/-- The cookies that are handed over. -/
def CallOut.cookies (o : CallOut) : List DmaCookie := o.entries.map SgEntry.cookie

/-! ## What is to be true -/

/-- A request is as it should be. `all` are the cookies of all the windows, and
    `got` those that earlier requests have handed over. -/
structure CallExact (all got : List DmaCookie) (c : DmaCall) (d : GcmdDma) (o : CallOut) :
    Prop where
  once : got ++ o.cookies <+: all
  indices : o.entries.map SgEntry.index = List.range o.entries.length
  room : o.entries.length ≤ c.sgSize
  xfer : ∀ x, o.ret = some x → o.entries ≠ [] ∧ x = sizes o.cookies
  total : o.after.totxfer = sizes (got ++ o.cookies)
  single : ∀ e ∈ o.entries, e.single = true → o.entries = [e]
  refused : o.ret = none → o.entries = [] ∧ (got = all ∨ c.winOk = false ∧ d.startsWindow = true)

/-- All the requests of a sequence are. -/
def RunExact (all : List DmaCookie) : List DmaCookie → GcmdDma → List DmaCall → Prop
  | _, _, [] => True
  | got, d, c :: cs =>
    CallExact all got c d (c.run d) ∧
      RunExact all (got ++ (c.run d).cookies) (c.run d).after cs

/-- The cookies that a request is to hand over: those next in the window, until the
    count is reached, the list is full, or the window ends. There are none if the
    window does not open. -/
def GcmdDma.due (d : GcmdDma) (c : DmaCall) : List DmaCookie :=
  if c.winOk = false ∧ d.startsWindow = true then []
  else
    match d.todo with
    | (k :: ks) :: _ => gathered c.count (c.sgSize - 1) 0 k ks
    | _ => []

/-- No request of a sequence is due for 2^32 bytes or more. -/
def RunFits : GcmdDma → List DmaCall → Prop
  | _, [] => True
  | d, c :: cs => sizes (d.due c) < 2 ^ 32 ∧ RunFits (c.run d).after cs

instance instDecidableRunFits : ∀ (d : GcmdDma) (cs : List DmaCall), Decidable (RunFits d cs)
  | _, [] => inferInstanceAs (Decidable True)
  | d, c :: cs =>
    @instDecidableAnd _ _ (inferInstanceAs (Decidable (_ < _)))
      (instDecidableRunFits (c.run d).after cs)

/-! ## One request -/

section One

variable {α : Type} {f : α → DmaCookie → Bool → Nat → α} {d : GcmdDma} {h : DmaHandle}

/-- Where `ddi_dma_getwin` does not fail, this is the routine as it was. -/
theorem dmagetWin_of_ok {winOk : Bool} (hok : winOk = true ∨ d.startsWindow = false) (pkt : α)
    (count sgSize : Nat) :
    dmagetWin f winOk pkt d count sgSize = dmaget f pkt d count sgSize := by
  unfold dmagetWin dmaget
  rcases hok with rfl | hno
  · rfl
  · unfold GcmdDma.startsWindow at hno
    cases hh : d.handle with
    | none => rfl
    | some h =>
      rw [hh] at hno
      cases hu : d.useFirst with
      | true => rfl
      | false =>
        rw [hu] at hno
        by_cases hw : d.wcount ≤ d.windex
        · simp only [hw, if_true]
        · by_cases hc : d.cindex = 0
          · simp [Nat.not_le.mp hw, hc] at hno
          · simp only [hw, hc, if_false]

theorem dmagetWin_of_fail (hs : d.startsWindow = true) (pkt : α) (count sgSize : Nat) :
    dmagetWin f false pkt d count sgSize = (pkt, d, none) := by
  unfold GcmdDma.startsWindow at hs
  rw [Bool.and_eq_true, Bool.and_eq_true, Bool.and_eq_true] at hs
  rcases hs with ⟨⟨⟨hh, hu⟩, hw⟩, hc⟩
  have hw' : ¬ d.wcount ≤ d.windex := Nat.not_le.mpr (of_decide_eq_true hw)
  have hc' : d.cindex = 0 := of_decide_eq_true hc
  have hu' : d.useFirst = false := by simpa using hu
  unfold dmagetWin
  cases hh' : d.handle with
  | none => rfl
  | some h =>
    dsimp only
    rw [hu', if_neg Bool.false_ne_true, if_neg hw', if_pos hc']
    rfl

end One

/-- The notes for some cookies, from entry `n`. -/
def sgEntries (single : Bool) (n : Nat) (g : List DmaCookie) : List SgEntry :=
  (g.zipIdx n).map fun e => ⟨e.1, single, e.2⟩

theorem foldSg_sgRecord (single : Bool) (g : List DmaCookie) : ∀ (n : Nat) (l : List SgEntry),
    foldSg sgRecord single n l g = l ++ sgEntries single n g := by
  induction g with
  | nil => exact fun n l => (List.append_nil l).symm
  | cons c g ih =>
    intro n l
    unfold foldSg
    rw [ih]
    unfold sgRecord sgEntries
    rw [List.zipIdx_cons, List.map_cons, List.append_assoc]
    rfl

@[simp] theorem sgEntries_cookies (single : Bool) (n : Nat) (g : List DmaCookie) :
    (sgEntries single n g).map SgEntry.cookie = g := by
  unfold sgEntries
  rw [List.map_map]
  exact List.zipIdx_map_fst n g

@[simp] theorem length_sgEntries (single : Bool) (n : Nat) (g : List DmaCookie) :
    (sgEntries single n g).length = g.length := by
  unfold sgEntries
  rw [List.length_map, List.length_zipIdx]

theorem sgEntries_indices (single : Bool) (g : List DmaCookie) :
    (sgEntries single 0 g).map SgEntry.index = List.range (sgEntries single 0 g).length := by
  rw [length_sgEntries, List.range_eq_range']
  unfold sgEntries
  rw [List.map_map]
  exact List.zipIdx_map_snd 0 g

theorem sgEntries_single {single : Bool} {n : Nat} {g : List DmaCookie} {e : SgEntry}
    (h : e ∈ sgEntries single n g) : e.single = single := by
  rcases List.mem_map.mp h with ⟨x, -, rfl⟩
  rfl

/-- A request is refused, or it hands over what is due. -/
inductive Outcome (h : DmaHandle) (d : GcmdDma) (c : DmaCall) (o : CallOut) : Prop where
  | refused (ho : o = ⟨[], d, none⟩) (hdue : d.due c = [])
      (hwhy : d.todo = [] ∨ c.winOk = false ∧ d.startsWindow = true)
  | served (single : Bool) (h' : DmaHandle)
      (hentries : o.entries = sgEntries single 0 (d.due c))
      (hret : o.ret = some (uint (sizes (d.due c)))) (hok : o.after.Ok h')
      (hwin : h'.windows = h.windows) (hsingle : single = true → (d.due c).length = 1)
      (hne : d.due c ≠ []) (hroom : (d.due c).length ≤ c.sgSize)
      (htot : o.after.totxfer = d.totxfer + sizes (d.due c))
      (htodo : d.due c ++ o.after.todo.flatten = d.todo.flatten)

/-- What one request does. -/
theorem dmagetWin_spec {d : GcmdDma} {h : DmaHandle} (h0 : d.Ok h) (c : DmaCall) :
    Outcome h d c (c.run d) := by
  by_cases hfail : c.winOk = false ∧ d.startsWindow = true
  · refine .refused ?_ ?_ (Or.inr hfail)
    · unfold DmaCall.run
      rw [hfail.1, dmagetWin_of_fail hfail.2]
    · unfold GcmdDma.due
      rw [if_pos hfail]
  · -- The window opens, or none has to be opened.
    have hok : c.winOk = true ∨ d.startsWindow = false := by
      cases hw : c.winOk with
      | true => exact Or.inl rfl
      | false => exact Or.inr (by simpa [hw] using hfail)
    cases htodo : d.todo with
    | nil =>
      refine .refused ?_ ?_ (Or.inl htodo)
      · unfold DmaCall.run
        rw [dmagetWin_of_ok hok, dmaget_none h0 htodo]
      · unfold GcmdDma.due
        rw [if_neg hfail, htodo]
    | cons w ws =>
      rcases dmaget_spec_single (f := sgRecord) h0 htodo [] c.count c.sgSize with
        ⟨k, ks, g, single, d', h', hw, hg, hone, hget, hok', -, hwin, htot, htodo'⟩
      have hdue : d.due c = g := by
        unfold GcmdDma.due
        rw [if_neg hfail, htodo, hw, hg]
      have hrun : c.run d = ⟨sgEntries single 0 g, d', some (uint (sizes g))⟩ := by
        unfold DmaCall.run
        rw [dmagetWin_of_ok hok, hget, foldSg_sgRecord, List.nil_append]
      have hst := gathered_stops c.count ks (c.sgSize - 1) 0 k
      rw [← hg] at hst
      have hpos := c.sgSize_pos
      have hroom := hst.room
      refine .served single h' ?_ ?_ ?_ hwin ?_ ?_ ?_ ?_ ?_
      · rw [hrun, hdue]
      · rw [hrun, hdue]
      · rw [hrun]
        exact hok'
      · intro hs
        have hle := hst.isPrefix.length_le
        have hlen := List.length_pos_of_ne_nil hst.pos
        rw [hone hs, List.length_singleton] at hle
        rw [hdue]
        omega
      · rw [hdue]
        exact hst.pos
      · rw [hdue]
        omega
      · rw [hrun, hdue]
        exact htot
      · rw [hrun, hdue, htodo]
        dsimp only
        rw [htodo', List.flatten_cons]
        -- The window is used up, or its rest comes first the next time.
        by_cases hall : g = w
        · rw [if_pos hall, hall]
        · rw [if_neg hall, List.flatten_cons, ← List.append_assoc]
          congr 1
          rw [hw]
          exact List.prefix_iff_eq_append.mp hst.isPrefix

/-! ## The sequence -/

theorem uint_eq_iff (x : Nat) : uint x = x ↔ x < 2 ^ 32 := by
  unfold uint
  omega

/-- A request is as it should be if and only if its bytes fit the type they are
    returned in. All but what it returns is right in any case. -/
theorem Outcome.exact_iff {all got : List DmaCookie} {d : GcmdDma} {h : DmaHandle} {c : DmaCall}
    {o : CallOut} (hout : Outcome h d c o) (hall : got ++ d.todo.flatten = all)
    (htot : d.totxfer = sizes got) :
    CallExact all got c d o ↔ sizes (d.due c) < 2 ^ 32 := by
  cases hout with
  | refused ho hdue hwhy =>
    subst ho
    rw [hdue]
    -- Nothing is handed over, so there is nothing to be wrong.
    refine iff_of_true ?_ (by rw [sizes_nil]; decide)
    refine ⟨?_, rfl, Nat.zero_le _, nofun, ?_, nofun, fun _ => ⟨rfl, ?_⟩⟩
    · exact ⟨d.todo.flatten, by rw [← hall]; simp [CallOut.cookies]⟩
    · simpa [CallOut.cookies] using htot
    · rcases hwhy with htodo | hfail
      · exact Or.inl (by rw [← hall, htodo, List.flatten_nil, List.append_nil])
      · exact Or.inr hfail
  | served single h' hentries hret hok hwin hsingle hne hroom htot' htodo =>
    have hcookies : o.cookies = d.due c := by
      unfold CallOut.cookies
      rw [hentries, sgEntries_cookies]
    constructor
    · intro hexact
      have hx := (hexact.xfer _ hret).2
      rw [hcookies] at hx
      exact (uint_eq_iff _).mp hx
    · intro hfits
      refine ⟨⟨o.after.todo.flatten, ?_⟩, ?_, ?_, ?_, ?_, ?_, ?_⟩
      · rw [hcookies, List.append_assoc, htodo, hall]
      · rw [hentries, sgEntries_indices]
      · rw [hentries, length_sgEntries]
        exact hroom
      · intro x hx
        rw [hret] at hx
        refine ⟨?_, ?_⟩
        · intro hnil
          rw [hentries] at hnil
          have hlen := congrArg List.length hnil
          rw [length_sgEntries] at hlen
          exact hne (List.eq_nil_of_length_eq_zero hlen)
        · rw [← Option.some.inj hx, hcookies, (uint_eq_iff _).mpr hfits]
      · rw [htot', hcookies, sizes_append, htot]
      · intro e he hes
        -- The flag is that of the whole request.
        rw [hentries] at he
        have hone := hsingle ((sgEntries_single he).symm.trans hes)
        have hlen : (sgEntries single 0 (d.due c)).length = 1 := by
          rw [length_sgEntries, hone]
        rcases List.length_eq_one_iff.mp hlen with ⟨e', he'⟩
        rw [he'] at he
        rw [hentries, he', List.mem_singleton.mp he]
      · intro hnone
        rw [hret] at hnone
        cases hnone

/-- What a sequence needs of the `gcmd_t`, and leaves: the cookies it has not handed
    over are those that have not been got. -/
theorem run_exact (all : List DmaCookie) (cs : List DmaCall) : ∀ {got : List DmaCookie}
    {d : GcmdDma} {h : DmaHandle}, d.Ok h → got ++ d.todo.flatten = all →
    d.totxfer = sizes got → (RunExact all got d cs ↔ RunFits d cs) := by
  induction cs with
  | nil => exact fun _ _ _ => Iff.rfl
  | cons c cs ih =>
    intro got d h hok hall htot
    have hout := dmagetWin_spec hok c
    unfold RunExact RunFits
    refine and_congr (hout.exact_iff hall htot) ?_
    -- What has been got and what is left make up the buffer again.
    cases hout with
    | refused ho hdue hwhy =>
      rw [ho]
      exact ih hok (by simpa [CallOut.cookies] using hall) (by simpa [CallOut.cookies] using htot)
    | served single h' hentries hret hok' hwin hsingle hne hroom htot' htodo =>
      have hcookies : (c.run d).cookies = d.due c := by
        unfold CallOut.cookies
        rw [hentries, sgEntries_cookies]
      refine ih hok' ?_ ?_
      · rw [hcookies, List.append_assoc, htodo, hall]
      · rw [htot', hcookies, sizes_append, htot]

/-- The requests for a buffer that has been bound hand over every cookie once and in
    order, and return what they should, if and only if none of them is due for 2^32
    bytes or more. -/
theorem run_exact_iff {d₀ d : GcmdDma} {buf : Nat} {windows : List (List DmaCookie)}
    (hne : ∀ w ∈ windows, w ≠ []) (hb : bufBind d₀ buf (some windows) = some d)
    (cs : List DmaCall) : RunExact windows.flatten [] d cs ↔ RunFits d cs := by
  rcases bufBind_ok (fun ws hws => Option.some.inj hws ▸ hne) hb with
    ⟨h, hok, -, hwin, htodo, htot, -⟩
  refine run_exact windows.flatten cs hok ?_ htot
  rw [List.nil_append, htodo, Option.some.inj hwin]

/-- A buffer of two windows, and requests of 4096 bytes. A window fails to open, and
    opens the next time. -/
def smallWindows : List (List DmaCookie) := [[⟨0, 4096⟩, ⟨8192, 1024⟩], [⟨65536, 512⟩]]

def smallCalls : List DmaCall :=
  [⟨4096, 17, true, by decide, by decide⟩, ⟨4096, 17, true, by decide, by decide⟩,
    ⟨4096, 17, false, by decide, by decide⟩, ⟨4096, 17, true, by decide, by decide⟩]

/-- A `gcmd_t` that a buf has been bound to. -/
def boundTo (windows : List (List DmaCookie)) : GcmdDma :=
  (bufBind {} 0 (some windows)).getD {}

theorem run_exact_small : RunExact smallWindows.flatten [] (boundTo smallWindows) smallCalls :=
  (@run_exact_iff {} (boundTo smallWindows) 0 smallWindows (by decide) rfl smallCalls).mpr
    (by decide +kernel)

/-- A buffer of one window, with two cookies of 2^31 bytes. -/
def hugeWindows : List (List DmaCookie) := [[⟨0, 2 ^ 31⟩, ⟨2 ^ 31, 2 ^ 31⟩]]

def hugeCall : DmaCall := ⟨2 ^ 32, 17, true, by decide, by decide⟩

/-- One request hands both over and returns 0. -/
theorem run_exact_huge :
    ¬ (∀ (d₀ d : GcmdDma) (buf : Nat) (windows : List (List DmaCookie)),
        (∀ w ∈ windows, w ≠ []) → bufBind d₀ buf (some windows) = some d →
        ∀ cs, RunExact windows.flatten [] d cs) ∧
    (hugeCall.run (boundTo hugeWindows)).ret = some 0 ∧
    sizes (hugeCall.run (boundTo hugeWindows)).cookies = 2 ^ 32 ∧
    (hugeCall.run (boundTo hugeWindows)).after.totxfer = 2 ^ 32 := by
  have hret : (hugeCall.run (boundTo hugeWindows)).ret = some 0 := by decide +kernel
  have hsizes : sizes (hugeCall.run (boundTo hugeWindows)).cookies = 2 ^ 32 := by decide +kernel
  refine ⟨fun hall => ?_, hret, hsizes, by decide +kernel⟩
  have hrun := hall {} (boundTo hugeWindows) 0 hugeWindows (by decide) rfl [hugeCall]
  have hx := (hrun.1.xfer 0 hret).2
  rw [hsizes] at hx
  omega

end Ghd

end Sil3112
