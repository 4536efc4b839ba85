import Mathlib.Data.Finset.Basic
import Sil3112.Ata.InitPkt
import Sil3112.Ghd.Cookies

/-!
# Handles That Are Left Behind

Binding a buf takes a handle from the system, binds it, and asks for the number of
windows if the buf was not mapped as a whole. `ghd_tran_init_pkt_attr` does this for
a packet, which it may have to allocate first. Every one of these calls can fail,
and what has been taken up to there is to be given back.

`ghd_dma_buf_bind_attr` gives the handle back on every path, but where
`ddi_dma_numwin` fails it frees a handle that it has bound and not unbound.
`ghd_dmafree_attr` does the same with a handle whose `ddi_dma_unbind_handle` fails,
after a warning. No one refers to such a handle afterwards, so it stays bound for
good.

## Main definitions

* `Ddi`: The handles that the system has given out.
* `DdiAnswers`: What the calls of the system return.
* `dmaBufBind`, `dmafreeAttr`, `tranInitAttr`: `ghd_dma_buf_bind_attr`,
  `ghd_dmafree_attr` and `ghd_tran_init_pkt_attr`, with the handles of the system.
* `BindReleases`, `InitReleases`: Nothing is left behind by a call that fails.

## Theorems

* `dmaBufBind_dma`, `initBody_dma`: These are the functions as they were, with the
  handles.
* `initBody_ok`: A packet refers to a handle that is allocated and bound.
* `releases_iff`: When nothing is left behind.
-/

namespace Sil3112

namespace Ghd

/-! ## The system -/

/-- The DMA handles of the system: the next one, those allocated, those bound, and
    those that have been freed while they were bound. -/
structure Ddi where
  next : Nat := 0
  allocated : Finset Nat := ∅
  bound : Finset Nat := ∅
  freedBound : Finset Nat := ∅

namespace Ddi

variable (s : Ddi) (h : Nat)

/-- `ddi_dma_alloc_handle`, which returns `s.next`. -/
def alloc : Ddi := { s with next := s.next + 1, allocated := insert s.next s.allocated }

/-- `ddi_dma_buf_bind_handle` -/
def bind : Ddi := { s with bound := insert h s.bound }

/-- `ddi_dma_unbind_handle` -/
def unbind : Ddi := { s with bound := s.bound.erase h }

/-- `ddi_dma_free_handle`. It does not unbind the handle. -/
def free : Ddi :=
  { s with
    allocated := s.allocated.erase h
    freedBound := if h ∈ s.bound then insert h s.freedBound else s.freedBound }

/-- The handles in use have been given out. -/
structure Ok : Prop where
  allocated : ∀ h ∈ s.allocated, h < s.next
  bound : ∀ h ∈ s.bound, h < s.next

end Ddi

/-- The status of `ddi_dma_buf_bind_handle`. -/
inductive BindStatus where
  | mapped
  | partialMap
  | noResources
  | tooBig
  | noMapping
  | inUse
  | other
  deriving DecidableEq

/-- What the calls of the system return: those that allocate the packet, the one
    that unbinds an old handle, and those that bind the buf. `first`, `rest` and
    `more` are the cookies of the first window and of the others. -/
structure DdiAnswers where
  pktOk : Bool := true
  ccbOk : Bool := true
  unbindOk : Bool := true
  allocOk : Bool := true
  status : BindStatus := .mapped
  numwinOk : Bool := true
  getwinOk : Bool := true
  first : DmaCookie := ⟨0, 0⟩
  rest : List DmaCookie := []
  more : List (List DmaCookie) := []

/-- The windows of the buf if it gets bound. -/
def DdiAnswers.windows (a : DdiAnswers) : Option (List (List DmaCookie)) :=
  if a.allocOk then
    match a.status with
    | .mapped => some [a.first :: a.rest]
    | .partialMap => if a.numwinOk then some ((a.first :: a.rest) :: a.more) else none
    | _ => none
  else none

/-- `B_ERROR` and `b_error` of a buf. -/
structure BufError where
  error : Bool := false
  errno : Nat := 0
  deriving DecidableEq

/-- `bioerror` -/
def bioerror (e : Nat) : BufError := ⟨decide (e ≠ 0), e⟩

/-- `EFAULT` -/
def efault : Nat := 14

/-- `EINVAL` -/
def einval : Nat := 22

/-- `cmd_dma_flags`: `DDI_DMA_READ` or `DDI_DMA_WRITE`, `DDI_DMA_CONSISTENT` and
    `DDI_DMA_PARTIAL`. -/
structure DmaFlags where
  read : Bool := false
  consistent : Bool := false
  partialOk : Bool := false

/-! ## Binding and freeing -/

/-- The DMA part of a `gcmd_t`, with `cmd_dma_handle` and `cmd_dma_flags`. -/
structure HandleGcmd where
  dma : GcmdDma := {}
  handle : Option Nat := none
  dmaFlags : DmaFlags := {}

/-- What comes of binding a buf: what is returned, the error of the buf, the
    `gcmd_t`, and the handles. -/
structure BindOut where
  ok : Bool
  err : BufError
  g : HandleGcmd
  ddi : Ddi

/-- The end of `ghd_dma_buf_bind_attr`, which sets up the loop controls. -/
def HandleGcmd.start (g : HandleGcmd) (h buf : Nat) (flags : DmaFlags) (a : DdiAnswers)
    (more : List (List DmaCookie)) : HandleGcmd :=
  { dma :=
      { g.dma with
        handle := some ⟨buf, (a.first :: a.rest) :: more, a.rest⟩
        firstCookie := a.first
        ccount := a.rest.length + 1
        wcount := more.length + 1
        windex := 0
        cindex := 0
        totxfer := 0
        useFirst := true }
    handle := some h
    dmaFlags := flags }

/-- `ghd_dma_buf_bind_attr`, for a `gcmd_t` that has no handle. -/
def dmaBufBind (a : DdiAnswers) (buf : Nat) (flags : DmaFlags) (b : BufError) (g : HandleGcmd)
    (s : Ddi) : BindOut :=
  if a.allocOk = false then ⟨false, { b with errno := 0 }, g, s⟩
  else
    let h := s.next
    let s := s.alloc
    match a.status with
    | .mapped => ⟨true, b, g.start h buf flags a [], s.bind h⟩
    | .partialMap =>
      let s := s.bind h
      if a.numwinOk then ⟨true, b, g.start h buf flags a a.more, s⟩
      else
        -- The cookie and the number of cookies have been stored.
        let dma := { g.dma with firstCookie := a.first, ccount := a.rest.length + 1 }
        ⟨false, { b with errno := 0 }, { g with dma := dma }, s.free h⟩
    | .noResources => ⟨false, { b with errno := 0 }, g, s.free h⟩
    | .tooBig => ⟨false, bioerror einval, g, s.free h⟩
    | .noMapping => ⟨false, bioerror efault, g, s.free h⟩
    | .inUse => ⟨false, bioerror efault, g, s.free h⟩
    | .other => ⟨false, bioerror efault, g, s.free h⟩

/-- `ghd_dmafree_attr`. If the handle cannot be unbound there is a warning. -/
def dmafreeAttr (unbindOk : Bool) (g : HandleGcmd) (s : Ddi) : HandleGcmd × Ddi :=
  match g.handle with
  | none => (g, s)
  | some h =>
    let s := if unbindOk then s.unbind h else s
    ({ g with dma := { g.dma with handle := none, ccount := 0, totxfer := 0 }, handle := none },
      s.free h)

/-! ## Preparing a packet -/

/-- The arguments of `ghd_tran_init_pkt_attr` but for the packet, with the error of
    the buf. -/
structure InitArgs where
  bp : Option Buf
  err : BufError := {}
  cmdlen : Nat := 0
  consistent : Bool := false
  partialOk : Bool := false
  sgAttr : Bool := true
  sgSize : Nat := 17

/-- What becomes of a packet: `pkt_resid`, or `none` if the call fails, the
    `gcmd_t`, what the S/G function has made, the error of the buf, and the
    handles. -/
structure InitOut (α : Type) where
  resid : Option Int
  g : HandleGcmd
  pkt : α
  err : BufError
  ddi : Ddi

section Init

variable {α : Type} (f : α → DmaCookie → Bool → Nat → α) (a : DdiAnswers) (c : InitArgs)

/-- The flags of the binding. -/
def InitArgs.flags (b : Buf) : DmaFlags := ⟨b.read, c.consistent, c.partialOk⟩

/-- `ghd_tran_init_pkt_attr` releases the old handle for a new command. -/
def freeStale (g : HandleGcmd) (s : Ddi) : HandleGcmd × Ddi :=
  if c.cmdlen ≠ 0 then dmafreeAttr a.unbindOk g s else (g, s)

/-- `ghd_tran_init_pkt_attr` sets up the transfer. -/
def initData (pkt : α) (g : HandleGcmd) (s : Ddi) : InitOut α :=
  match c.bp with
  | none => ⟨some 0, g, pkt, c.err, s⟩
  | some b =>
    if b.bcount ≠ 0 ∧ c.sgAttr = true then
      let r := if g.handle = none then dmaBufBind a b.bp (c.flags b) c.err g s
        else ⟨true, c.err, g, s⟩
      if r.ok = false then ⟨none, r.g, pkt, r.err, r.ddi⟩
      else
        let w := dmagetWin f a.getwinOk pkt r.g.dma (ulong (b.bcount - r.g.dma.totxfer)) c.sgSize
        ⟨w.2.2.map fun _ => ssize (b.bcount - w.2.1.totxfer), { r.g with dma := w.2.1 }, w.1, r.err,
          r.ddi⟩
    else ⟨some 0, g, pkt, c.err, s⟩

/-- `ghd_tran_init_pkt_attr` from where it has a packet. -/
def initBody (pkt : α) (g : HandleGcmd) (s : Ddi) : InitOut α :=
  let r := freeStale a c g s
  initData f a c pkt r.1 r.2

/-- The handles and the packets of the system. -/
structure Scsa where
  ddi : Ddi := {}
  pktNext : Nat := 0
  pkts : Finset Nat := ∅

/-- `scsi_hba_pkt_alloc` -/
def Scsa.pktAlloc (s : Scsa) : Scsa :=
  { s with pktNext := s.pktNext + 1, pkts := insert s.pktNext s.pkts }

/-- `scsi_hba_pkt_free` -/
def Scsa.pktFree (s : Scsa) (p : Nat) : Scsa := { s with pkts := s.pkts.erase p }

/-- `ghd_pktalloc` -/
def pktalloc (s : Scsa) : Option Nat × Scsa :=
  if a.pktOk = false then (none, s)
  else if a.ccbOk = false then (none, s.pktAlloc.pktFree s.pktNext)
  else (some s.pktNext, s.pktAlloc)

/-- A packet of the caller: its name, its `gcmd_t`, and what the S/G function works
    on. -/
structure Given (α : Type) where
  name : Nat
  g : HandleGcmd
  pkt : α

/-- What `ghd_tran_init_pkt_attr` returns, the packet it was called with, and the
    system. -/
structure TranOut (α : Type) where
  ret : Option (Given α)
  given : Option (Given α)
  err : BufError
  sys : Scsa

/-- `ghd_tran_init_pkt_attr`. A packet that it allocates comes with `pkt₀`. -/
def tranInitAttr (pkt₀ : α) (given : Option (Given α)) (s : Scsa) : TranOut α :=
  match given with
  | some p =>
    let r := initBody f a c p.pkt p.g s.ddi
    let q : Given α := ⟨p.name, r.g, r.pkt⟩
    ⟨r.resid.map fun _ => q, some q, r.err, { s with ddi := r.ddi }⟩
  | none =>
    match pktalloc a s with
    | (none, s) => ⟨none, none, c.err, s⟩
    | (some n, s) =>
      let r := initBody f a c pkt₀ {} s.ddi
      let s := { s with ddi := r.ddi }
      match r.resid with
      -- `sol11ghd_pktfree`
      | none => ⟨none, none, r.err, s.pktFree n⟩
      | some _ => ⟨some ⟨n, r.g, r.pkt⟩, none, r.err, s⟩

end Init

/-! ## What is to be true -/

/-- If `ghd_dma_buf_bind_attr` fails, there is no new handle, neither allocated nor
    bound, and none has been freed while it was bound. -/
def BindReleases (s : Ddi) (r : BindOut) : Prop :=
  r.ok = false → r.g.handle = none ∧ r.ddi.allocated = s.allocated ∧ r.ddi.bound = s.bound ∧
    r.ddi.freedBound = s.freedBound

/-- If `ghd_tran_init_pkt_attr` fails, a packet of its own is freed, and there is no
    new handle. A packet of the caller refers to every handle that is still bound
    for it. -/
def InitReleases {α : Type} (given : Option (Given α)) (s : Scsa) (r : TranOut α) : Prop :=
  r.ret = none →
    match given with
    | none => r.sys.pkts = s.pkts ∧ r.sys.ddi.allocated = s.ddi.allocated ∧
        r.sys.ddi.bound = s.ddi.bound
    | some p => ∀ h ∈ r.sys.ddi.bound, (h ∈ s.ddi.bound ∧ p.g.handle ≠ some h) ∨
        ∃ q, r.given = some q ∧ q.g.handle = some h

/-- The buf is mapped in parts, and the number of the parts is refused. -/
def DdiAnswers.Slip (a : DdiAnswers) : Prop :=
  a.allocOk = true ∧ a.status = .partialMap ∧ a.numwinOk = false

instance (a : DdiAnswers) : Decidable a.Slip := inferInstanceAs (Decidable (_ ∧ _ ∧ _))

/-- There are bytes to transfer with DMA. -/
def InitArgs.HasData (c : InitArgs) : Prop :=
  c.sgAttr = true ∧ ∃ b, c.bp = some b ∧ b.bcount ≠ 0

/-- Whatever the call binds is also unbound if the call fails. A call without a
    packet binds the buf once it has one, a call with a packet binds it if the
    packet has no handle, or gets a new command. -/
def Tidy {α : Type} (a : DdiAnswers) (c : InitArgs) (given : Option (Given α)) : Prop :=
  match given with
  | none => a.pktOk = true ∧ a.ccbOk = true ∧ c.HasData → ¬ a.Slip
  | some p =>
    if p.g.handle = none then c.HasData → ¬ a.Slip
    else c.cmdlen ≠ 0 ∧ c.HasData ∧ a.windows = none → ¬ a.Slip ∧ a.unbindOk = true

/-- The `gcmd_t` refers to a handle that is allocated and bound, or to none. -/
structure HandleGcmd.Ok (g : HandleGcmd) (s : Ddi) : Prop where
  ddi : s.Ok
  agree : g.handle.isSome = g.dma.handle.isSome
  own : ∀ h, g.handle = some h → h ∈ s.allocated ∧ h ∈ s.bound

/-! ## One bind -/

namespace Ddi

variable {s : Ddi}

theorem Ok.next_allocated (hs : s.Ok) : s.next ∉ s.allocated :=
  fun h => Nat.lt_irrefl _ (hs.allocated _ h)

theorem Ok.next_bound (hs : s.Ok) : s.next ∉ s.bound :=
  fun h => Nat.lt_irrefl _ (hs.bound _ h)

@[simp] theorem alloc_bound : s.alloc.bound = s.bound := rfl

@[simp] theorem alloc_next : s.alloc.next = s.next + 1 := rfl

@[simp] theorem bind_next {h : Nat} : (s.bind h).next = s.next := rfl

@[simp] theorem bind_allocated {h : Nat} : (s.bind h).allocated = s.allocated := rfl

@[simp] theorem free_bound {h : Nat} : (s.free h).bound = s.bound := rfl

@[simp] theorem free_next {h : Nat} : (s.free h).next = s.next := rfl

@[simp] theorem unbind_next {h : Nat} : (s.unbind h).next = s.next := rfl

@[simp] theorem unbind_allocated {h : Nat} : (s.unbind h).allocated = s.allocated := rfl

theorem Ok.alloc (hs : s.Ok) : s.alloc.Ok := by
  refine ⟨fun h hh => ?_, fun h hh => ?_⟩
  · rcases Finset.mem_insert.mp hh with rfl | hh
    · exact Nat.lt_succ_self _
    · exact Nat.lt_succ_of_lt (hs.allocated h hh)
  · exact Nat.lt_succ_of_lt (hs.bound h hh)

theorem Ok.bind (hs : s.Ok) {h : Nat} (hlt : h < s.next) : (s.bind h).Ok := by
  refine ⟨hs.allocated, fun k hk => ?_⟩
  rcases Finset.mem_insert.mp hk with rfl | hk
  · exact hlt
  · exact hs.bound k hk

theorem Ok.unbind (hs : s.Ok) (h : Nat) : (s.unbind h).Ok :=
  ⟨hs.allocated, fun k hk => hs.bound k (Finset.mem_of_mem_erase hk)⟩

theorem Ok.free (hs : s.Ok) (h : Nat) : (s.free h).Ok :=
  ⟨fun k hk => hs.allocated k (Finset.mem_of_mem_erase hk), hs.bound⟩

/-- A handle that is given back before it is bound leaves no trace. -/
theorem Ok.alloc_free (hs : s.Ok) : s.alloc.free s.next = { s with next := s.next + 1 } := by
  unfold Ddi.free Ddi.alloc
  rw [Finset.erase_insert hs.next_allocated, if_neg hs.next_bound]

/-- A handle that is freed while it is bound stays bound. -/
theorem Ok.alloc_bind_free (hs : s.Ok) : (s.alloc.bind s.next).free s.next =
    { s with
      next := s.next + 1
      bound := insert s.next s.bound
      freedBound := insert s.next s.freedBound } := by
  unfold Ddi.free Ddi.bind Ddi.alloc
  rw [Finset.erase_insert hs.next_allocated, if_pos (Finset.mem_insert_self _ _)]

end Ddi

/-- The outcomes of a bind. The buf is bound, or nothing is left behind, or the new
    handle has been freed while it was bound. -/
inductive BindSpec (a : DdiAnswers) (buf : Nat) (g : HandleGcmd) (s : Ddi) (r : BindOut) :
    Prop where
  | bound (ws : List (List DmaCookie)) (d : GcmdDma) (hws : a.windows = some ws)
      (hok : r.ok = true) (hbind : bufBind g.dma buf (some ws) = some d) (hdma : r.g.dma = d)
      (hhandle : r.g.handle = some s.next) (hddi : r.ddi = s.alloc.bind s.next)
  | unbound (hws : a.windows = none) (hslip : ¬ a.Slip) (hok : r.ok = false) (hg : r.g = g)
      (next : Nat) (hnext : s.next ≤ next) (hddi : r.ddi = { s with next := next })
  | slip (hws : a.windows = none) (hslip : a.Slip) (hok : r.ok = false)
      (hhandle : r.g.handle = g.handle) (hdma : r.g.dma.handle = g.dma.handle)
      (hddi : r.ddi = { s with
        next := s.next + 1
        bound := insert s.next s.bound
        freedBound := insert s.next s.freedBound })

theorem dmaBufBind_spec {s : Ddi} (hs : s.Ok) (a : DdiAnswers) (buf : Nat) (flags : DmaFlags)
    (b : BufError) (g : HandleGcmd) : BindSpec a buf g s (dmaBufBind a buf flags b g s) := by
  have hfree := hs.alloc_free
  unfold dmaBufBind
  cases halloc : a.allocOk with
  | false =>
    refine .unbound ?_ ?_ rfl rfl s.next (Nat.le_refl _) rfl
    · unfold DdiAnswers.windows
      rw [halloc, if_neg Bool.false_ne_true]
    · exact fun h => Bool.false_ne_true (halloc.symm.trans h.1)
  | true =>
    have hwin : a.windows = match a.status with
        | .mapped => some [a.first :: a.rest]
        | .partialMap => if a.numwinOk then some ((a.first :: a.rest) :: a.more) else none
        | _ => none := by
      unfold DdiAnswers.windows
      rw [halloc, if_pos rfl]
    -- A status that says that nothing was bound: the handle is freed at once.
    have hunbound (st : BindStatus) (hst : a.status = st) (hne : st ≠ .partialMap)
        (hnone : a.windows = none) (e : BufError) :
        BindSpec a buf g s ⟨false, e, g, s.alloc.free s.next⟩ :=
      .unbound hnone (fun h => hne (hst.symm.trans h.2.1)) rfl rfl _ (Nat.le_succ _) hfree
    rw [if_neg nofun]
    cases hst : a.status with
    | mapped =>
      rw [hst] at hwin
      exact .bound _ _ hwin rfl rfl rfl rfl rfl
    | partialMap =>
      rw [hst] at hwin
      cases hnum : a.numwinOk with
      | true =>
        rw [hnum] at hwin
        exact .bound _ _ hwin rfl rfl rfl rfl rfl
      | false =>
        rw [hnum] at hwin
        exact .slip hwin ⟨halloc, hst, hnum⟩ rfl rfl rfl hs.alloc_bind_free
    | noResources => exact hunbound _ hst nofun (by rw [hwin, hst]) _
    | tooBig => exact hunbound _ hst nofun (by rw [hwin, hst]) _
    | noMapping => exact hunbound _ hst nofun (by rw [hwin, hst]) _
    | inUse => exact hunbound _ hst nofun (by rw [hwin, hst]) _
    | other => exact hunbound _ hst nofun (by rw [hwin, hst]) _

/-- The function as it was, with the handles. -/
theorem dmaBufBind_dma {s : Ddi} (hs : s.Ok) (a : DdiAnswers) (buf : Nat) (flags : DmaFlags)
    (b : BufError) (g : HandleGcmd) :
    let r := dmaBufBind a buf flags b g s
    bufBind g.dma buf a.windows = if r.ok then some r.g.dma else none := by
  intro r
  cases dmaBufBind_spec hs a buf flags b g with
  | bound ws d hws hok hbind hdma hhandle hddi =>
    rw [hws, hbind, if_pos hok, hdma]
  | unbound hws hslip hok =>
    rw [hws, if_neg (by rw [hok]; exact Bool.false_ne_true)]
    rfl
  | slip hws hslip hok =>
    rw [hws, if_neg (by rw [hok]; exact Bool.false_ne_true)]
    rfl

/-- A bind leaves something behind only if the number of windows is refused. -/
theorem bind_releases {s : Ddi} (hs : s.Ok) (a : DdiAnswers) (buf : Nat) (flags : DmaFlags)
    (b : BufError) {g : HandleGcmd} (hg : g.handle = none) :
    BindReleases s (dmaBufBind a buf flags b g s) ↔ ¬ a.Slip := by
  cases dmaBufBind_spec hs a buf flags b g with
  | bound ws d hws hok hbind hdma hhandle hddi =>
    refine iff_of_true (fun hf => absurd (hok.symm.trans hf) nofun) ?_
    intro hslip
    unfold DdiAnswers.windows at hws
    rw [hslip.1, hslip.2.1, hslip.2.2] at hws
    cases hws
  | unbound hws hslip hok hgg next hnext hddi =>
    refine iff_of_true (fun _ => ⟨by rw [hgg]; exact hg, ?_, ?_, ?_⟩) hslip
    all_goals rw [hddi]
  | slip hws hslip hok hhandle hdma hddi =>
    refine iff_of_false (fun hrel => ?_) (fun hn => hn hslip)
    have hb := (hrel hok).2.2.1
    rw [hddi] at hb
    exact hs.next_bound (hb ▸ Finset.mem_insert_self _ _)

/-! ## One packet -/

section Packet

variable {α : Type} {f : α → DmaCookie → Bool → Nat → α} {a : DdiAnswers} {c : InitArgs}

/-- The first cookie of a buf that has just been bound is taken without a window
    being opened. -/
theorem dmagetWin_first {d : GcmdDma} {h : DmaHandle} (hh : d.handle = some h)
    (hu : d.useFirst = true) (winOk : Bool) (pkt : α) (count sgSize : Nat) :
    (dmagetWin f winOk pkt d count sgSize).2.2 ≠ none := by
  unfold dmagetWin
  rw [hh]
  dsimp only
  rw [if_pos hu]
  nofun

theorem getLoop_handle (maxXfer : Nat) (single : Bool) (left : Nat) : ∀ (n toxfer : Nat)
    (k : DmaCookie) (pkt : α) (d : GcmdDma),
    (getLoop f maxXfer single left n toxfer k pkt d).2.1.handle.isSome = d.handle.isSome := by
  induction left with
  | zero =>
    intro n toxfer k pkt d
    unfold getLoop
    dsimp only
    split
    · rfl
    · split
      · rfl
      · rfl
  | succ left ih =>
    intro n toxfer k pkt d
    unfold getLoop
    dsimp only
    split
    · rfl
    · split
      · rfl
      · cases d.handle with
        | none => rfl
        | some h => simp [ih]

theorem dmagetNext_handle (pkt : α) (d : GcmdDma) (maxXfer sgSize : Nat) (k : DmaCookie) :
    (dmagetNext f pkt d maxXfer sgSize k).2.1.handle.isSome = d.handle.isSome :=
  getLoop_handle maxXfer _ _ 0 0 k pkt d

/-- A request does not give the handle up. -/
theorem dmagetWin_handle (winOk : Bool) (pkt : α) (d : GcmdDma) (count sgSize : Nat) :
    (dmagetWin f winOk pkt d count sgSize).2.1.handle.isSome = d.handle.isSome := by
  unfold dmagetWin
  cases hd : d.handle with
  | none => simp [hd]
  | some h =>
    dsimp only
    split
    · simp [dmagetNext_handle]
    · split
      · simp [hd]
      · split
        · split
          · simp [hd]
          · simp [dmagetNext_handle]
        · simp [dmagetNext_handle]

/-- What becomes of the handle that a packet comes with. -/
inductive StaleSpec (a : DdiAnswers) (c : InitArgs) (g : HandleGcmd) (s : Ddi)
    (r : HandleGcmd × Ddi) : Prop where
  | kept (h : g.handle = none ∨ c.cmdlen = 0) (hr : r = (g, s))
  | freed (h : Nat) (hh : g.handle = some h) (hlen : c.cmdlen ≠ 0) (hnone : r.1.handle = none)
      (hdma : r.1.dma.handle = none)
      (hddi : r.2 = (if a.unbindOk then s.unbind h else s).free h)

theorem freeStale_spec (a : DdiAnswers) (c : InitArgs) (g : HandleGcmd) (s : Ddi) :
    StaleSpec a c g s (freeStale a c g s) := by
  unfold freeStale
  by_cases hlen : c.cmdlen = 0
  · rw [if_neg (not_not_intro hlen)]
    exact .kept (Or.inr hlen) rfl
  · rw [if_pos hlen]
    unfold dmafreeAttr
    cases hg : g.handle with
    | none => exact .kept (Or.inl hg) rfl
    | some h => exact .freed h hg hlen rfl rfl rfl

/-- The outcomes of setting up a transfer: it succeeds, or the buf could not be bound,
    or the next window of a buf that was bound earlier could not be opened. -/
inductive InitSpec (a : DdiAnswers) (c : InitArgs) (g : HandleGcmd) (s : Ddi) (r : InitOut α) :
    Prop where
  | done (hr : r.resid ≠ none) (hwin : c.HasData → g.handle = none → a.windows ≠ none)
  | unbound (buf : Nat) (hdata : c.HasData) (hg : g.handle = none) (hws : a.windows = none)
      (hr : r.resid = none) (hbind : BindSpec a buf g s ⟨false, r.err, r.g, r.ddi⟩)
  | unopened (hg : g.handle ≠ none) (hr : r.resid = none) (hh : r.g.handle = g.handle)
      (hddi : r.ddi = s)

theorem initData_spec (pkt : α) {g : HandleGcmd} {s : Ddi} (hs : s.Ok) :
    InitSpec a c g s (initData f a c pkt g s) := by
  unfold initData
  cases hbp : c.bp with
  | none => exact .done nofun fun hd => by rcases hd.2 with ⟨b, hb, -⟩; rw [hbp] at hb; cases hb
  | some b =>
    dsimp only
    by_cases hdata : b.bcount ≠ 0 ∧ c.sgAttr = true
    · rw [if_pos hdata]
      have hd : c.HasData := ⟨hdata.2, b, hbp, hdata.1⟩
      by_cases hg : g.handle = none
      · rw [if_pos hg]
        have hspec := dmaBufBind_spec hs a b.bp (c.flags b) c.err g
        -- The status of the bind decides which way the rest of the routine goes.
        cases hok : (dmaBufBind a b.bp (c.flags b) c.err g s).ok with
        | true =>
          rw [if_neg nofun]
          cases hspec with
          | bound ws d hws _ hbind hdma hhandle hddi =>
            refine .done ?_ fun _ _ => by rw [hws]; nofun
            have hu : d.useFirst = true ∧ ∃ h, d.handle = some h := by
              unfold bufBind at hbind
              split at hbind
              · cases hbind
                exact ⟨rfl, _, rfl⟩
              · cases hbind
            rcases hu with ⟨hu, h, hh⟩
            rw [hdma]
            simpa using dmagetWin_first hh hu a.getwinOk pkt _ c.sgSize
          | unbound hws hslip hf => exact absurd (hok.symm.trans hf) nofun
          | slip hws hslip hf => exact absurd (hok.symm.trans hf) nofun
        | false =>
          rw [if_pos rfl]
          have hws : a.windows = none := by
            cases hspec with
            | bound ws d hws ht => exact absurd (hok.symm.trans ht) nofun
            | unbound hws => exact hws
            | slip hws => exact hws
          refine .unbound b.bp hd hg hws rfl ?_
          rw [← hok]
          exact hspec
      · rw [if_neg hg, if_neg nofun]
        dsimp only
        cases hw : (dmagetWin f a.getwinOk pkt g.dma (ulong (b.bcount - g.dma.totxfer))
            c.sgSize).2.2 with
        | none => exact .unopened hg rfl rfl rfl
        | some x => exact .done nofun fun _ hn => absurd hn hg
    · rw [if_neg hdata]
      refine .done nofun fun hd => ?_
      rcases hd with ⟨hsg, b', hb', hne⟩
      rw [hbp] at hb'
      cases hb'
      exact absurd ⟨hne, hsg⟩ hdata

/-- What a failing bind leaves of the handles. -/
theorem BindSpec.failed {buf : Nat} {g : HandleGcmd} {s : Ddi} {r : BindOut}
    (h : BindSpec a buf g s r) (hok : r.ok = false) : r.g.handle = g.handle ∧
      r.g.dma.handle = g.dma.handle ∧ r.ddi.allocated = s.allocated ∧
      r.ddi.bound = (if a.Slip then insert s.next s.bound else s.bound) ∧
      s.next ≤ r.ddi.next ∧ (a.Slip → s.next < r.ddi.next) := by
  cases h with
  | bound ws d hws ht => exact absurd (hok.symm.trans ht) nofun
  | unbound hws hslip _ hg next hnext hddi =>
    rw [hg, hddi, if_neg hslip]
    exact ⟨rfl, rfl, rfl, rfl, hnext, fun h => absurd h hslip⟩
  | slip hws hslip _ hhandle hdma hddi =>
    rw [hhandle, hdma, hddi, if_pos hslip]
    exact ⟨rfl, rfl, rfl, rfl, Nat.le_succ _, fun _ => Nat.lt_succ_self _⟩

theorem BindSpec.gcmd_ok {buf : Nat} {g : HandleGcmd} {s : Ddi} {r : BindOut}
    (h : BindSpec a buf g s r) (hg : g.Ok s) (hnone : g.handle = none) : r.g.Ok r.ddi := by
  have hdma : g.dma.handle.isSome = false := by
    rw [← hg.agree, hnone]
    rfl
  cases h with
  | bound ws d hws hok hbind hdma hhandle hddi =>
    rw [hddi]
    refine ⟨hg.ddi.alloc.bind (Nat.lt_succ_self _), ?_, fun k hk => ?_⟩
    · rw [hhandle, hdma]
      unfold bufBind at hbind
      split at hbind
      · cases hbind
        rfl
      · cases hbind
    · rw [hhandle] at hk
      cases hk
      exact ⟨Finset.mem_insert_self _ _, Finset.mem_insert_self _ _⟩
  | unbound hws hslip hok hgg next hnext hddi =>
    rw [hgg, hddi]
    refine ⟨⟨?_, ?_⟩, hg.agree, hg.own⟩
    · exact fun k hk => Nat.lt_of_lt_of_le (hg.ddi.allocated k hk) hnext
    · exact fun k hk => Nat.lt_of_lt_of_le (hg.ddi.bound k hk) hnext
  | slip hws hslip hok hhandle hdma' hddi =>
    rw [hddi]
    refine ⟨⟨?_, ?_⟩, ?_, ?_⟩
    · exact fun k hk => Nat.lt_succ_of_lt (hg.ddi.allocated k hk)
    · intro k hk
      rcases Finset.mem_insert.mp hk with rfl | hk
      · exact Nat.lt_succ_self _
      · exact Nat.lt_succ_of_lt (hg.ddi.bound k hk)
    · rw [hhandle, hdma', hnone, hdma]
      rfl
    · intro k hk
      rw [hhandle, hnone] at hk
      cases hk

/-- The handles of a packet whose transfer is set up. -/
theorem initData_ok (pkt : α) {g : HandleGcmd} {s : Ddi} (hg : g.Ok s) :
    (initData f a c pkt g s).g.Ok (initData f a c pkt g s).ddi := by
  unfold initData
  cases c.bp with
  | none => exact hg
  | some b =>
    dsimp only
    by_cases hdata : b.bcount ≠ 0 ∧ c.sgAttr = true
    · rw [if_pos hdata]
      by_cases hn : g.handle = none
      · rw [if_pos hn]
        have hok := (dmaBufBind_spec hg.ddi a b.bp (c.flags b) c.err g).gcmd_ok hg hn
        split
        · exact hok
        · exact ⟨hok.ddi, hok.agree.trans (dmagetWin_handle _ _ _ _ _).symm, hok.own⟩
      · rw [if_neg hn, if_neg nofun]
        exact ⟨hg.ddi, hg.agree.trans (dmagetWin_handle _ _ _ _ _).symm, hg.own⟩
    · rw [if_neg hdata]
      exact hg

theorem freeStale_ok {g : HandleGcmd} {s : Ddi} (hg : g.Ok s) :
    (freeStale a c g s).1.Ok (freeStale a c g s).2 := by
  cases freeStale_spec a c g s with
  | kept h hr =>
    rw [hr]
    exact hg
  | freed h hh hlen hnone hdma hddi =>
    refine ⟨?_, by rw [hnone, hdma]; rfl, fun k hk => absurd (hnone.symm.trans hk) nofun⟩
    rw [hddi]
    split
    · exact (hg.ddi.unbind h).free h
    · exact hg.ddi.free h

/-- A packet always refers to a handle that is allocated and bound, or to none. -/
theorem initBody_ok (pkt : α) {g : HandleGcmd} {s : Ddi} (hg : g.Ok s) :
    (initBody f a c pkt g s).g.Ok (initBody f a c pkt g s).ddi :=
  initData_ok pkt (freeStale_ok hg)

theorem HandleGcmd.Ok.none_iff {g : HandleGcmd} {s : Ddi} (hg : g.Ok s) :
    g.handle = none ↔ g.dma.handle = none := by
  rw [← Option.isSome_eq_false_iff.trans Option.isNone_iff_eq_none,
    ← Option.isSome_eq_false_iff.trans Option.isNone_iff_eq_none, hg.agree]

theorem freeStale_dma {g : HandleGcmd} {s : Ddi} (hg : g.Ok s) :
    (freeStale a c g s).1.dma = if c.cmdlen ≠ 0 then dmafree g.dma else g.dma := by
  unfold freeStale dmafreeAttr dmafree
  by_cases hlen : c.cmdlen = 0
  · rw [if_neg (not_not_intro hlen), if_neg (not_not_intro hlen)]
  · rw [if_pos hlen, if_pos hlen, ← hg.agree]
    cases g.handle with
    | none => rfl
    | some h => rfl

/-- `ghd_tran_init_pkt_attr` as it was, with the handles, where `ddi_dma_getwin` does
    not fail. -/
theorem initBody_dma (pkt : α) {g : HandleGcmd} {s : Ddi} (hg : g.Ok s)
    (hopen : a.getwinOk = true) :
    let r := ghdInitPkt f pkt g.dma c.bp c.cmdlen c.sgAttr c.sgSize a.windows
    (initBody f a c pkt g s).pkt = r.1 ∧ (initBody f a c pkt g s).resid = r.2.2 ∧
      (r.2.2 ≠ none → (initBody f a c pkt g s).g.dma = r.2.1) := by
  intro r
  have hok := freeStale_ok (a := a) (c := c) hg
  have hdma := freeStale_dma (a := a) (c := c) hg
  unfold initBody initData
  subst r
  unfold ghdInitPkt
  rw [← hdma]
  generalize hfree : freeStale a c g s = r at hok
  rcases r with ⟨g, s⟩
  dsimp only at hok ⊢
  cases c.bp with
  | none => exact ⟨rfl, rfl, fun _ => rfl⟩
  | some b =>
    dsimp only
    by_cases hdata : b.bcount ≠ 0 ∧ c.sgAttr = true
    · rw [if_pos hdata, if_pos hdata]
      by_cases hn : g.handle = none
      · rw [if_pos hn, if_pos (hok.none_iff.mp hn),
          dmaBufBind_dma hok.ddi a b.bp (c.flags b) c.err g]
        cases (dmaBufBind a b.bp (c.flags b) c.err g s).ok with
        | true =>
          rw [if_neg nofun, if_pos rfl, dmagetWin_of_ok (Or.inl hopen)]
          exact ⟨rfl, rfl, fun _ => rfl⟩
        | false =>
          rw [if_pos rfl, if_neg nofun]
          exact ⟨rfl, rfl, fun h => absurd rfl h⟩
      · rw [if_neg hn, if_neg (fun h => hn (hok.none_iff.mpr h)), if_neg nofun]
        dsimp only
        rw [dmagetWin_of_ok (Or.inl hopen)]
        exact ⟨rfl, rfl, fun _ => rfl⟩
    · rw [if_neg hdata, if_neg hdata]
      exact ⟨rfl, rfl, fun _ => rfl⟩

end Packet

/-! ## A call -/

section Call

variable {α : Type} {f : α → DmaCookie → Bool → Nat → α} {a : DdiAnswers} {c : InitArgs}

/-- What a call needs of the system: its packets are those given out, and the packet
    of the caller refers to its handle. -/
structure CallOk (given : Option (Given α)) (s : Scsa) : Prop where
  pkts : ∀ p ∈ s.pkts, p < s.pktNext
  gcmd : (given.elim {} Given.g).Ok s.ddi

theorem windows_of_slip (h : a.Slip) : a.windows = none := by
  unfold DdiAnswers.windows
  rw [h.1, h.2.1, h.2.2]
  rfl

theorem Scsa.alloc_free {s : Scsa} (hs : ∀ p ∈ s.pkts, p < s.pktNext) :
    (s.pktAlloc.pktFree s.pktNext).pkts = s.pkts :=
  Finset.erase_insert fun h => Nat.lt_irrefl _ (hs _ h)

theorem freeStale_of_none {g : HandleGcmd} (hg : g.handle = none) (s : Ddi) :
    freeStale a c g s = (g, s) := by
  cases freeStale_spec a c g s with
  | kept h hr => exact hr
  | freed h hh => exact absurd (hg.symm.trans hh) nofun

/-- A packet of its own. -/
theorem init_new_releases (pkt₀ : α) {s : Scsa} (hs : CallOk (α := α) none s) :
    InitReleases none s (tranInitAttr f a c pkt₀ none s) ↔ Tidy (α := α) a c none := by
  unfold tranInitAttr pktalloc Tidy
  dsimp only
  cases hp : a.pktOk with
  | false => exact iff_of_true (fun _ => ⟨rfl, rfl, rfl⟩) (fun h => absurd h.1 nofun)
  | true =>
    rw [if_neg nofun]
    cases hc : a.ccbOk with
    | false =>
      exact iff_of_true (fun _ => ⟨Scsa.alloc_free hs.pkts, rfl, rfl⟩) (fun h => absurd h.2.1 nofun)
    | true =>
      rw [if_neg nofun]
      have hspec := initData_spec (f := f) (a := a) (c := c) pkt₀ (g := {}) hs.gcmd.ddi
      have hbody : initBody f a c pkt₀ {} s.pktAlloc.ddi = initData f a c pkt₀ {} s.ddi := by
        unfold initBody
        rw [freeStale_of_none rfl]
        rfl
      dsimp only
      rw [hbody]
      cases hspec with
      | done hr hwin =>
        refine iff_of_true (fun hret => ?_) (fun h hslip => hwin h.2.2 rfl (windows_of_slip hslip))
        split at hret
        · next hn => exact absurd hn hr
        · cases hret
      | unbound buf hdata hg hws hr hbind =>
        rw [hr]
        rcases hbind.failed rfl with ⟨-, -, halloc, hbound, -, -⟩
        constructor
        · intro hrel h hslip
          have hb := (hrel rfl).2.2
          dsimp only [Scsa.pktFree] at hb
          rw [hbound, if_pos hslip] at hb
          exact hs.gcmd.ddi.next_bound (hb ▸ Finset.mem_insert_self _ _)
        · intro h _
          refine ⟨Scsa.alloc_free hs.pkts, halloc, ?_⟩
          dsimp only [Scsa.pktFree]
          rw [hbound, if_neg (h ⟨rfl, rfl, hdata⟩)]
      | unopened hg => exact absurd rfl hg

/-- A packet that came with `g` refers to every handle that is still bound for it, if the
    transfer could not be set up. -/
def BodyReleases (g : HandleGcmd) (s : Ddi) (r : InitOut α) : Prop :=
  r.resid = none → ∀ h ∈ r.ddi.bound, (h ∈ s.bound ∧ g.handle ≠ some h) ∨ r.g.handle = some h

theorem initReleases_given {p : Given α} (pkt₀ : α) (s : Scsa) :
    InitReleases (some p) s (tranInitAttr f a c pkt₀ (some p) s) ↔
      BodyReleases p.g s.ddi (initBody f a c p.pkt p.g s.ddi) := by
  unfold InitReleases BodyReleases tranInitAttr
  dsimp only
  constructor
  · intro hrel hret k hk
    rcases hrel (Option.map_eq_none_iff.mpr hret) k hk with hkept | ⟨q, hq, hqh⟩
    · exact Or.inl hkept
    · cases hq
      exact Or.inr hqh
  · intro hrel hret k hk
    rcases hrel (Option.map_eq_none_iff.mp hret) k hk with hkept | hqh
    · exact Or.inl hkept
    · exact Or.inr ⟨_, rfl, hqh⟩

/-- The packet comes without a handle, or keeps its own. -/
theorem kept_releases {p : Given α} {s : Ddi} {r : InitOut α} (hg : p.g.Ok s)
    (hkept : p.g.handle = none ∨ c.cmdlen = 0) (hspec : InitSpec a c p.g s r) :
    BodyReleases p.g s r ↔ Tidy a c (some p) := by
  unfold Tidy BodyReleases
  dsimp only
  by_cases hn : p.g.handle = none
  · rw [if_pos hn]
    cases hspec with
    | done hr hwin =>
      refine iff_of_true (fun hret => absurd hret hr) ?_
      exact fun hd hslip => hwin hd hn (windows_of_slip hslip)
    | unbound buf hdata _ hws hr hbind =>
      rcases hbind.failed rfl with ⟨hhandle, -, -, hbound, -, -⟩
      constructor
      · intro hrel _ hslip
        -- Nobody refers to the new handle.
        rw [hbound, if_pos hslip] at hrel
        rcases hrel hr _ (Finset.mem_insert_self _ _) with ⟨hold, -⟩ | hqh
        · exact hg.ddi.next_bound hold
        · rw [hhandle, hn] at hqh
          cases hqh
      · intro h _ k hk
        rw [hbound, if_neg (h hdata)] at hk
        exact Or.inl ⟨hk, by rw [hn]; nofun⟩
    | unopened hno => exact absurd hn hno
  · rw [if_neg hn]
    have hlen : c.cmdlen = 0 := hkept.resolve_left hn
    refine iff_of_true (fun hret k hk => ?_) (fun h => absurd hlen h.1)
    cases hspec with
    | done hr hwin => exact absurd hret hr
    | unbound buf hdata hno => exact absurd hno hn
    | unopened _ _ hh hddi =>
      rw [hddi] at hk
      by_cases hown : p.g.handle = some k
      · exact Or.inr (hh.trans hown)
      · exact Or.inl ⟨hk, hown⟩

/-- The old handle of the packet is freed, and the buf is to be bound again. -/
theorem freed_releases {p : Given α} {s s₁ : Ddi} {g₁ : HandleGcmd} {r : InitOut α} {h : Nat}
    (hg : p.g.Ok s) (hh : p.g.handle = some h) (hlen : c.cmdlen ≠ 0) (hnone : g₁.handle = none)
    (hddi : s₁ = (if a.unbindOk then s.unbind h else s).free h) (hspec : InitSpec a c g₁ s₁ r) :
    BodyReleases p.g s r ↔ Tidy a c (some p) := by
  have hn : p.g.handle ≠ none := by
    rw [hh]
    nofun
  have hold : s₁.bound = if a.unbindOk then s.bound.erase h else s.bound := by
    rw [hddi]
    split
    · rfl
    · rfl
  have hnext : s₁.next = s.next := by
    rw [hddi]
    split
    · rfl
    · rfl
  unfold Tidy BodyReleases
  dsimp only
  rw [if_neg hn]
  cases hspec with
  | done hr hwin =>
    refine iff_of_true (fun hret => absurd hret hr) ?_
    exact fun hd => absurd hd.2.2 (hwin hd.2.1 hnone)
  | unbound buf hdata _ hws hr hbind =>
    rcases hbind.failed rfl with ⟨hhandle, -, -, hbound, -, -⟩
    have hgone : r.g.handle = none := hhandle.trans hnone
    constructor
    · intro hrel _
      -- A handle that is bound was bound before, and is not the old one.
      have hleft (k : Nat) (hk : k ∈ r.ddi.bound) : k ∈ s.bound ∧ p.g.handle ≠ some k :=
        (hrel hr k hk).resolve_right fun hqh => absurd (hgone.symm.trans hqh) nofun
      rw [hbound] at hleft
      constructor
      · intro hslip
        rw [if_pos hslip] at hleft
        have hnew := (hleft _ (Finset.mem_insert_self _ _)).1
        rw [hnext] at hnew
        exact hg.ddi.next_bound hnew
      · by_contra hun
        have hin : h ∈ s₁.bound := by
          rw [hold, if_neg hun]
          exact (hg.own h hh).2
        refine (hleft h ?_).2 hh
        split
        · exact Finset.mem_insert_of_mem hin
        · exact hin
    · intro htidy _ k hk
      rcases htidy ⟨hlen, hdata, hws⟩ with ⟨hslip, hun⟩
      rw [hbound, if_neg hslip, hold, if_pos hun] at hk
      rcases Finset.mem_erase.mp hk with ⟨hne, hk⟩
      refine Or.inl ⟨hk, fun hkh => hne ?_⟩
      exact (Option.some.inj (hh.symm.trans hkh)).symm
  | unopened hno => exact absurd hnone hno

/-- A packet of the caller. -/
theorem init_given_releases {p : Given α} (pkt₀ : α) {s : Scsa} (hs : CallOk (some p) s) :
    InitReleases (some p) s (tranInitAttr f a c pkt₀ (some p) s) ↔ Tidy a c (some p) := by
  have hg : p.g.Ok s.ddi := hs.gcmd
  have hok := freeStale_ok (a := a) (c := c) hg
  have hspec := initData_spec (f := f) (a := a) (c := c) p.pkt (g := (freeStale a c p.g s.ddi).1)
    hok.ddi
  rw [initReleases_given]
  unfold initBody
  cases freeStale_spec a c p.g s.ddi with
  | kept hkept hr =>
    rw [hr] at hspec ⊢
    exact kept_releases hg hkept hspec
  | freed h hh hlen hnone hdma hddi => exact freed_releases hg hh hlen hnone hddi hspec

/-- A bind that fails leaves nothing behind if and only if the number of windows is
    not what was refused. And nothing is left behind by a call of
    `ghd_tran_init_pkt_attr` that fails if and only if that is so of the buf it binds,
    and the old handle it frees for this was unbound. -/
theorem releases_iff (f : α → DmaCookie → Bool → Nat → α) (a : DdiAnswers) (c : InitArgs)
    (pkt₀ : α) {given : Option (Given α)} {s : Scsa} (hs : CallOk given s) :
    (∀ buf flags b g, g.handle = none →
      (BindReleases s.ddi (dmaBufBind a buf flags b g s.ddi) ↔ ¬ a.Slip)) ∧
    (InitReleases given s (tranInitAttr f a c pkt₀ given s) ↔ Tidy a c given) := by
  refine ⟨fun buf flags b g hg => bind_releases hs.gcmd.ddi a buf flags b hg, ?_⟩
  cases given with
  | none => exact init_new_releases pkt₀ hs
  | some p => exact init_given_releases pkt₀ hs

end Call

/-- A buf of 4096 bytes. -/
def smallBuf : Buf := ⟨1, 0x10000, 0x10000, 4096, true, false⟩

/-- A packet with a handle gets a new command, and the system has no resources for
    its buf. -/
def reusedPkt : Given Unit :=
  ⟨0, ⟨boundTo [[⟨0x10000, 4096⟩]], some 0, ⟨true, false, true⟩⟩, ()⟩

def reusedSys : Scsa := ⟨⟨1, {0}, {0}, ∅⟩, 1, {0}⟩

def newCommand : InitArgs := { bp := some smallBuf, cmdlen := 12, partialOk := true }

theorem releases_reused :
    InitReleases (some reusedPkt) reusedSys
      (tranInitAttr (fun _ _ _ _ => ()) { status := .noResources } newCommand () (some reusedPkt)
        reusedSys) := by
  refine ((releases_iff (fun _ _ _ _ => ()) { status := .noResources } newCommand ()
    ⟨by decide, ⟨⟨by decide, by decide⟩, rfl, ?_⟩⟩).2).mpr ?_
  · intro h hh
    cases hh
    exact ⟨by decide, by decide⟩
  · exact fun _ => ⟨fun hslip => absurd hslip.2.1 nofun, rfl⟩

/-- The buf is mapped in parts, and the number of the parts is refused. The handle is
    freed and stays bound, though neither the packet nor anybody else has it. -/
def slipped : DdiAnswers := { status := .partialMap, numwinOk := false }

theorem releases_slipped :
    ¬ (∀ (a : DdiAnswers) (c : InitArgs) (given : Option (Given Unit)) (s : Scsa), CallOk given s →
        (∀ buf flags b g, g.handle = none →
          BindReleases s.ddi (dmaBufBind a buf flags b g s.ddi)) ∧
        InitReleases given s (tranInitAttr (fun _ _ _ _ => ()) a c () given s)) ∧
    (dmaBufBind slipped 1 {} {} {} {}).ok = false ∧
    (dmaBufBind slipped 1 {} {} {} {}).ddi.freedBound = {0} ∧
    (tranInitAttr (fun _ _ _ _ => ()) slipped newCommand () none {}).ret.isNone = true ∧
    (tranInitAttr (fun _ _ _ _ => ()) slipped newCommand () none {}).sys.ddi.bound = {0} := by
  refine ⟨fun hall => ?_, rfl, by decide, rfl, by decide⟩
  have hcall := hall slipped newCommand none {} ⟨nofun, ⟨nofun, nofun⟩, rfl, nofun⟩
  have hbound := (hcall.1 1 {} {} {} rfl rfl).2.2.1
  exact absurd hbound (by decide)

end Ghd

end Sil3112
