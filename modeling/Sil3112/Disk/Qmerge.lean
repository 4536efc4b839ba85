import Sil3112.Disk.Strategy
import Sil3112.Lib.Loop
import Sil3112.Lib.Rings

/-!
# The Merging Queue

`qmerge_add`, `qmerge_del` and `qmerge_iodone` of `strategy.c`. The queue has two
priorities, a ring of bufs for each, and a head in either ring that goes up and down
the disk like an elevator. On the way it merges neighbours: a buf that begins where
another one ends is taken along, and the two become parts of a third buf, which one
I/O serves.

The memory is explicit. `av_forw` and `av_back` of the bufs are the `Links` of one
type of cells, and `p_next` and `p_prev` of the pages those of another. A NULL that is
followed is a result of its own (`none`), as is a loop that takes more rounds than
there are bufs on the queue. Block numbers and byte counts are those of requests that
lie on the disk, and their sums do not wrap.

`que_insert` walks up or down the ring, with the comparisons turned around, and
`qmerge_nextbp` compares with the head in the same two ways. `ahead` is what they
share.

## Main definitions

* `MBuf`, `Qmerge`: The bufs, and the queue with the memory it works on.
* `queInsert`, `qmergeAdd`: A buf put on the queue.
* `nextbp`, `mergesetup`, `qmergeDel`: A buf taken from it, alone or merged.
* `qmergeIodone`: A merged buf taken apart.
-/

namespace Sil3112

namespace Disk

open Rings

/-! ## Data -/

/-- `DEV_BSIZE` -/
def devBsize : Nat := 512

/-- The variables that tune the queue, and `PAGESIZE`. -/
structure Tunables where
  maxMerge : Nat
  sync2async : Int
  twoWay : Bool
  onePri : Bool
  pagesize : Nat
  /-- A page is a number of whole blocks. -/
  blocks : devBsize ∣ pagesize

/-- The values they come with. -/
def Tunables.default : Tunables where
  maxMerge := 128 * 1024
  sync2async := 4
  twoWay := true
  onePri := false
  pagesize := 4096
  blocks := by decide

/-- What `que_insert` and `qmerge_nextbp` make of `av_back` and `b_error`: a pointer
    is kept in an `int`, and is made a pointer again. -/
structure Casts (β : Type) where
  toError : β → Int
  toBuf : Int → Option β

/-- The flags of a buf that the queue looks at or sets. -/
structure BFlags where
  pageio : Bool
  async : Bool
  write : Bool
  read : Bool
  free : Bool
  remapped : Bool
  error : Bool
  deriving DecidableEq

/-- `struct buf`, less `av_forw` and `av_back`. The block `DBLK` is in
    `b_private`. -/
structure MBuf (β ρ : Type) where
  flags : BFlags
  addr : Nat
  bcount : Nat
  dblk : Nat
  error : Int
  pages : Option ρ
  forw : Option β

/-- The two priorities, and so the two rings. -/
inductive Pri
  | sync
  | async
  deriving DecidableEq

/-- The `QNEAR` flags of the queue. -/
structure QNear where
  backward : Bool
  asyncOnly : Bool
  asyncAlso : Bool
  deriving DecidableEq

/-- `QNEAR_ASYNC` -/
def QNear.anyAsync (f : QNear) : Bool :=
  f.asyncOnly || f.asyncAlso

/-- `struct que_data`, with the bufs and pages in memory. `hd` are the heads of the
    two rings, `hd_sync_next` and `hd_async_next`, `priv` is `hd_private`, and
    `sync2async` is `hd_cnt`. Nothing here enters `q_mutex`, and `exits` counts how
    often it is left all the same. -/
structure Qmerge (β ρ : Type) where
  buf : β → MBuf β ρ
  av : Links β
  page : Links ρ
  hd : Pri → Option β
  priv : Nat
  sync2async : Int
  flags : QNear
  cnt : Nat
  exits : Nat

variable {β ρ : Type} [DecidableEq β] [DecidableEq ρ]

/-- `DBLK` of a buf of the queue -/
def Qmerge.dblk (s : Qmerge β ρ) (bp : β) : Nat :=
  (s.buf bp).dblk

/-- The head of one ring is set. -/
def Qmerge.setHd (s : Qmerge β ρ) (p : Pri) (o : Option β) : Qmerge β ρ :=
  { s with hd := Function.update s.hd p o }

/-- A buf is written. -/
def Qmerge.setBuf (s : Qmerge β ρ) (bp : β) (d : MBuf β ρ) : Qmerge β ρ :=
  { s with buf := Function.update s.buf bp d }

/-- `av_forw` and `av_back` of a buf are set to NULL. -/
def Qmerge.clearAv (s : Qmerge β ρ) (bp : β) : Qmerge β ρ :=
  { s with av := (s.av.setNext bp none).setPrev bp none }

/-- A queue after `qmerge_create`. -/
def Qmerge.init (t : Tunables) (buf : β → MBuf β ρ) (av : Links β) (page : Links ρ) :
    Qmerge β ρ where
  buf := buf
  av := av
  page := page
  hd := fun _ => none
  priv := 0
  sync2async := t.sync2async
  flags := { backward := false, asyncOnly := false, asyncAlso := false }
  cnt := 0
  exits := 0

/-- A block `u` comes later than `v` when the blocks are visited downwards, or
    upwards. -/
def ahead (backward : Bool) (u v : Nat) : Bool :=
  if backward then u < v else v < u

/-! ## Insertion -/

/-- The loops of `que_insert`, from `bp1` on: down along `av_back` if `back`, and up
    along `av_forw` otherwise. The result is a buf that comes later than `bp`, or the
    last one that the loop got to (`lowest_bp` or `highest_bp`). -/
def insertWalk (s : Qmerge β ρ) (back : Bool) (bp start : β) : Nat → β → β → Option (β ⊕ β)
  | 0, _, _ => none
  | n + 1, bp1, best =>
    if ahead back (s.dblk bp1) (s.dblk bp) then some (.inl bp1)
    else
      let best := if ahead back (s.dblk bp1) (s.dblk best) then bp1 else best
      match if back then s.av.prev bp1 else s.av.next bp1 with
      | none => none
      | some y =>
        if ahead back (s.dblk y) (s.dblk bp1) ∧ y ≠ start then insertWalk s back bp start n y best
        else some (.inr best)

/-- `bp` is linked between two neighbours. -/
def Qmerge.link (s : Qmerge β ρ) (x bp y : β) : Qmerge β ρ :=
  { s with av := (s.av.set x bp).set bp y }

/-- `bp` is linked behind `x`. -/
def linkBehind (s : Qmerge β ρ) (x bp : β) : Option (Qmerge β ρ) :=
  (s.av.next x).map fun y => s.link x bp y

/-- `bp` is linked in front of `y`. -/
def linkBefore (s : Qmerge β ρ) (bp y : β) : Option (Qmerge β ρ) :=
  (s.av.prev y).map fun x => s.link x bp y

/-- The elevator is in this ring. -/
def swept (s : Qmerge β ρ) (p : Pri) : Bool :=
  p = .sync || s.flags.anyAsync

/-- `bp` becomes the head of its ring on a condition. -/
def headIf (s : Qmerge β ρ) (p : Pri) (bp : β) (c : Bool) : Qmerge β ρ :=
  if c then s.setHd p (some bp) else s

/-- The part of `que_insert` for a block below that of the head. -/
def insertDown (s : Qmerge β ρ) (p : Pri) (bp start : β) : Option (Qmerge β ρ) :=
  match insertWalk s true bp start (s.cnt + 1) start start with
  | none => none
  | some (.inl bp1) =>
    (linkBehind s bp1 bp).map fun s =>
      headIf s p bp (swept s p && !s.flags.backward && decide (s.priv < s.dblk bp))
  | some (.inr lowest) =>
    (linkBefore s bp lowest).map fun s =>
      headIf s p bp (!swept s p || (!s.flags.backward && decide (s.priv < s.dblk bp)))

/-- The part of `que_insert` for all other blocks. -/
def insertUp (s : Qmerge β ρ) (p : Pri) (bp start : β) : Option (Qmerge β ρ) :=
  match insertWalk s false bp start (s.cnt + 1) start start with
  | none => none
  | some (.inl bp1) =>
    (linkBefore s bp bp1).map fun s =>
      headIf s p bp (swept s p && s.flags.backward && decide (s.dblk bp < s.priv))
  | some (.inr highest) =>
    (linkBehind s highest bp).map fun s =>
      headIf s p bp (swept s p && s.flags.backward && decide (s.dblk bp < s.priv))

/-- The part of `que_insert` for an empty ring. -/
def insertFirst (s : Qmerge β ρ) (p : Pri) (bp : β) : Qmerge β ρ :=
  let s := { s.setHd p (some bp) with av := s.av.set bp bp }
  match p with
  | .async =>
    if s.hd .sync = none then { s with flags := { s.flags with asyncOnly := true } } else s
  | .sync =>
    let f := { s.flags with asyncOnly := false }
    { s with flags := if s.hd .async ≠ none then { f with asyncAlso := true } else f }

/-- `av_back` is kept in `b_error` while the buf is on the queue. -/
def saveBack (c : Casts β) (s : Qmerge β ρ) (bp : β) : Qmerge β ρ :=
  match s.av.prev bp with
  | none => s
  | some x => s.setBuf bp { s.buf bp with error := c.toError x }

/-- The ring a buf belongs to: writes that nobody waits for have the lower
    priority. -/
def priOf (t : Tunables) (d : MBuf β ρ) : Pri :=
  if !t.onePri && d.flags.async && !d.flags.read && !d.flags.free then .async else .sync

/-- `que_insert` -/
def queInsert (t : Tunables) (c : Casts β) (s : Qmerge β ρ) (bp : β) : Option (Qmerge β ρ) :=
  let s := saveBack c s bp
  let p := priOf t (s.buf bp)
  match s.hd p with
  | none => some (insertFirst s p bp)
  | some bp1 =>
    if s.dblk bp < s.dblk bp1 then insertDown s p bp bp1 else insertUp s p bp bp1

/-- `qmerge_add` -/
def qmergeAdd (t : Tunables) (c : Casts β) (s : Qmerge β ρ) (bp : β) :
    Option (Qmerge β ρ × Nat) :=
  (queInsert t c s bp).map fun s => ({ s with cnt := s.cnt + 1 }, s.cnt + 1)

/-! ## Deletion -/

/-- The flags without which no buf is merged, and the one with which none is. -/
def mergeable (t : Tunables) (d : MBuf β ρ) : Bool :=
  d.addr = 0 && d.flags.pageio && d.flags.async && d.flags.write && !d.flags.remapped &&
    d.bcount % t.pagesize = 0

/-- `qmerge_can_merge` -/
def canMerge (t : Tunables) (d e : MBuf β ρ) : Bool :=
  mergeable t d && mergeable t e && decide (d.bcount + e.bcount ≤ t.maxMerge) &&
    (decide (e.dblk + e.bcount / devBsize = d.dblk) ||
      decide (d.dblk + d.bcount / devBsize = e.dblk))

/-- `bp_merge && !qmerge_can_merge(bp, bp_merge)` -/
def refuses (t : Tunables) (s : Qmerge β ρ) (bp : β) (m : Option (MBuf β ρ)) : Bool :=
  m.any fun m => !canMerge t (s.buf bp) m

/-- What `qmerge_nextbp` finds: nothing to take, or the buf at the head of a ring,
    with what it makes of `private` and of the flags. -/
inductive Pick (β ρ : Type)
  | null (s : Qmerge β ρ)
  | take (s : Qmerge β ρ) (p : Pri) (bp : β) (priv : Nat) (f : QNear)

/-- The branch of `qmerge_nextbp` for `QNEAR_ASYNCONLY`. -/
def roundAsync (t : Tunables) (m : Option (MBuf β ρ)) (s : Qmerge β ρ) (f : QNear) :
    Option (Pick β ρ) :=
  (s.hd .async).bind fun bp =>
  if refuses t s bp m then some (.null s)
  else
    (s.av.next bp).bind fun forw =>
    if forw = bp then
      some (.take (s.clearAv bp) .async bp 0 { f with asyncOnly := false, backward := false })
    else if f.backward then
      (s.av.prev bp).bind fun back =>
      if s.dblk bp < s.dblk back then some (.take s .async bp 0 { f with backward := false })
      else some (.take s .async bp (s.dblk bp) f)
    else if s.dblk forw < s.dblk bp then
      if t.twoWay then some (.take s .async bp (s.dblk bp) { f with backward := true })
      else some (.take s .async bp 0 f)
    else if t.twoWay then some (.take s .async bp (s.dblk bp) f)
    else some (.take s .async bp (s.dblk forw) f)

/-- The ring that `qmerge_nextbp` chooses for `QNEAR_ASYNCALSO`: the nearer one of
    those that the head has not passed. -/
def nearer (s : Qmerge β ρ) (f : QNear) (syncBp asyncBp : β) : Pri :=
  if ahead f.backward (s.dblk asyncBp) s.priv then
    if ahead f.backward (s.dblk syncBp) s.priv then
      if ahead f.backward (s.dblk syncBp) (s.dblk asyncBp) then .async else .sync
    else .async
  else .sync

/-- The head has passed both rings: it turns, or begins once more, and
    `qmerge_nextbp` goes to `begin_nextbp`. -/
def turnBoth (t : Tunables) (s : Qmerge β ρ) (f : QNear) (syncBp asyncBp : β) :
    Option (Qmerge β ρ × QNear) :=
  if f.backward then
    (s.av.next syncBp).bind fun x => (s.av.next asyncBp).bind fun y =>
    some ({ (s.setHd .sync (some x)).setHd .async (some y) with
      sync2async := t.sync2async, priv := 0 }, { f with backward := false, asyncAlso := false })
  else if t.twoWay then
    (s.av.prev syncBp).bind fun x => (s.av.prev asyncBp).bind fun y =>
    some ((s.setHd .sync (some x)).setHd .async (some y), { f with backward := true })
  else some ({ s with sync2async := t.sync2async, priv := 0 }, { f with asyncAlso := false })

/-- The rest of the branch for `QNEAR_ASYNCALSO`. -/
def takeNearer (t : Tunables) (m : Option (MBuf β ρ)) (s : Qmerge β ρ) (f : QNear) (p : Pri)
    (bp : β) : Option (Pick β ρ) :=
  if refuses t s bp m then some (.null s)
  else
    (s.av.next bp).bind fun forw =>
    if forw = bp then
      match p with
      | .async =>
        some (.take { s.clearAv bp with sync2async := t.sync2async } p bp (s.dblk bp)
          { f with asyncAlso := false })
      | .sync =>
        some (.take (s.clearAv bp) p bp (s.dblk bp) { f with asyncAlso := false, asyncOnly := true })
    else some (.take s p bp (s.dblk bp) f)

/-- The branch of `qmerge_nextbp` for `QNEAR_ASYNCALSO`. -/
def roundBoth (t : Tunables) (m : Option (MBuf β ρ)) (s : Qmerge β ρ) (f : QNear) :
    (Qmerge β ρ × QNear) ⊕ Option (Pick β ρ) :=
  match s.hd .sync, s.hd .async with
  | some syncBp, some asyncBp =>
    if ahead f.backward s.priv (s.dblk syncBp) && ahead f.backward s.priv (s.dblk asyncBp) then
      match turnBoth t s f syncBp asyncBp with
      | some r => .inl r
      | none => .inr none
    else
      let p := nearer s f syncBp asyncBp
      .inr (takeNearer t m s f p (if p = .async then asyncBp else syncBp))
  | _, _ => .inr none

/-- A scan of the sync ring is over: another one follows, or the async ring has its
    turn. -/
def nextScan (t : Tunables) (s : Qmerge β ρ) (f : QNear) : Qmerge β ρ × QNear :=
  if 0 < s.sync2async then ({ s with sync2async := s.sync2async - 1 }, f)
  else ({ s with sync2async := t.sync2async },
    if s.hd .async ≠ none then { f with asyncAlso := true } else f)

/-- The branch of `qmerge_nextbp` for neither of the two flags. -/
def roundSync (t : Tunables) (m : Option (MBuf β ρ)) (s : Qmerge β ρ) (f : QNear) :
    Option (Pick β ρ) :=
  (s.hd .sync).bind fun bp =>
  if refuses t s bp m then some (.null s)
  else
    (s.av.next bp).bind fun forw =>
    if forw = bp then
      let f := { f with backward := false }
      some (.take { s.clearAv bp with sync2async := t.sync2async } .sync bp 0
        (if s.hd .async ≠ none then { f with asyncOnly := true } else f))
    else if f.backward then
      (s.av.prev bp).bind fun back =>
      if s.dblk bp < s.dblk back then
        let r := nextScan t s { f with backward := false }
        some (.take r.1 .sync bp 0 r.2)
      else some (.take s .sync bp (s.dblk bp) f)
    else if s.dblk forw < s.dblk bp then
      if t.twoWay then some (.take s .sync bp (s.dblk bp) { f with backward := true })
      else
        let r := nextScan t s f
        some (.take r.1 .sync bp 0 r.2)
    else if t.twoWay then some (.take s .sync bp (s.dblk bp) f)
    else some (.take s .sync bp (s.dblk forw) f)

/-- One round of `qmerge_nextbp`, from `begin_nextbp` on. -/
def nextbpRound (t : Tunables) (m : Option (MBuf β ρ)) (x : Qmerge β ρ × QNear) :
    (Qmerge β ρ × QNear) ⊕ Option (Pick β ρ) :=
  if x.2.asyncOnly then .inr (roundAsync t m x.1 x.2)
  else if x.2.asyncAlso then roundBoth t m x.1 x.2
  else .inr (roundSync t m x.1 x.2)

/-- The last part of `qmerge_nextbp`, up to where `q_cnt` is written: the buf leaves
    its ring. With it comes `can_merge`. -/
def unlinkPick (s : Qmerge β ρ) (p : Pri) (bp : β) (f : QNear) : Option (Qmerge β ρ × Bool) :=
  match s.av.next bp with
  | none => some (s.setHd p none, false)
  | some forw =>
    (s.av.prev bp).map fun back =>
      let near := if f.backward then
          decide (s.dblk back + (s.buf back).bcount / devBsize = s.dblk bp)
        else decide (s.dblk bp + (s.buf bp).bcount / devBsize = s.dblk forw)
      let s := s.setHd p (some (if f.backward then back else forw))
      (({ s with av := s.av.set back forw } : Qmerge β ρ).clearAv bp,
        !(s.buf bp).flags.read && near)

/-- `av_back` has its old value again. -/
def restoreBack (c : Casts β) (s : Qmerge β ρ) (bp : β) : Qmerge β ρ :=
  if (s.buf bp).error ≠ 0 then
    { s.setBuf bp { s.buf bp with error := 0 } with
      av := s.av.setPrev bp (c.toBuf (s.buf bp).error) }
  else s

/-- `qmerge_nextbp`: the buf that it returns, if any, with `can_merge`. The flags are
    written at the end only, and `begin_nextbp` is reached three times at the most. -/
def nextbp (t : Tunables) (c : Casts β) (s : Qmerge β ρ) (m : Option (MBuf β ρ)) :
    Option (Qmerge β ρ × Option (β × Bool)) :=
  if s.cnt = 0 then some (s, none)
  else
    match Loop.run (nextbpRound t m) 3 (s, s.flags) with
    | some (some (.null s)) => some (s, none)
    | some (some (.take s p bp priv f)) =>
      (unlinkPick s p bp f).map fun r =>
        (restoreBack c { r.1 with priv := priv, cnt := r.1.cnt - 1, flags := f } bp,
          some (bp, r.2))
    | _ => none

/-- `qmerge_mergesetup`: the pages and the buf `bp` are spliced into the rings of
    `bp_merge`, which is `m`. -/
def mergesetup (s : Qmerge β ρ) (m : MBuf β ρ) (bp : β) : Option (Qmerge β ρ × MBuf β ρ) :=
  (s.buf bp).pages.bind fun pp =>
  m.pages.bind fun ppMerge =>
  (s.page.prev ppMerge).bind fun ppMergePrev =>
  (s.page.prev pp).bind fun ppPrev =>
  m.forw.bind fun bp1 =>
  (s.av.prev bp1).map fun back =>
    let forward := m.dblk < s.dblk bp
    let m := { m with bcount := m.bcount + (s.buf bp).bcount }
    ({ s with
        page := (s.page.set ppMergePrev pp).set ppPrev ppMerge
        av := (s.av.set back bp).set bp bp1 },
      if forward then m
      else { m with forw := some bp, pages := some pp, dblk := s.dblk bp })

/-- What `qmerge_del` returns: NULL, a buf of the queue, or a buf that stands for
    several of them. -/
inductive Ret (β ρ : Type)
  | null
  | buf (bp : β)
  | merged (m : MBuf β ρ)

/-- `bp_merge`, which is `bp` itself until something is merged with it. -/
def retOf (bp : β) : Option (MBuf β ρ) → Ret β ρ
  | none => .buf bp
  | some m => .merged m

/-- A buf that has been allocated becomes `bp_merge`, with `bp` as its one part. -/
def startMerge (s : Qmerge β ρ) (bp : β) : Qmerge β ρ × MBuf β ρ :=
  ({ s with av := s.av.set bp bp }, { s.buf bp with forw := some bp })

/-- The loop of `qmerge_del`. `cur` is `bp_merge` once it has been allocated, and
    `alloc` is whether `kmem_alloc` has memory. -/
def delLoop (t : Tunables) (c : Casts β) (alloc : Bool) (bp : β) :
    Nat → Qmerge β ρ → Option (MBuf β ρ) → Bool → Option (Qmerge β ρ × Ret β ρ)
  | 0, _, _, _ => none
  | n + 1, s, cur, merge =>
    if !merge then some (s, retOf bp cur)
    else
      match nextbp t c s (some (cur.getD (s.buf bp))) with
      | none => none
      | some (s, none) => some (s, retOf bp cur)
      | some (s, some (next, merge)) =>
        match cur with
        | some m =>
          (mergesetup s m next).bind fun r => delLoop t c alloc bp n r.1 (some r.2) merge
        | none =>
          -- `next` is no longer on the queue, and is forgotten if there is no memory
          if alloc then
            let r := startMerge s bp
            (mergesetup r.1 r.2 next).bind fun r => delLoop t c alloc bp n r.1 (some r.2) merge
          else some ({ s with exits := s.exits + 1 }, .buf bp)

/-- `qmerge_del` -/
def qmergeDel (t : Tunables) (c : Casts β) (alloc : Bool) (s : Qmerge β ρ) :
    Option (Qmerge β ρ × Ret β ρ) :=
  if s.cnt = 0 then some (s, .null)
  else
    match nextbp t c s none with
    | some (s', some (bp, merge)) => delLoop t c alloc bp s.cnt s' none merge
    | _ => none

/-! ## Completion -/

/-- The loop of `qmerge_iodone`, from `bp1` on, for a merged buf `m`. The result has
    the bufs for which `biodone` was called, in order. -/
def iodoneLoop (m : MBuf β ρ) : Nat → Qmerge β ρ → β → Option (Qmerge β ρ × List β)
  | 0, _, _ => none
  | n + 1, s, bp1 =>
    (s.av.next bp1).bind fun forw => (s.av.prev bp1).bind fun back =>
    (s.buf bp1).pages.bind fun pp => (s.buf forw).pages.bind fun pp1 =>
    (s.page.prev pp).bind fun tmp => (s.page.prev pp1).bind fun last =>
    let d := s.buf bp1
    let s := { s with
      av := s.av.set back forw
      page := (s.page.set last pp).set tmp pp1
      buf := if m.flags.error then
          Function.update s.buf bp1 { d with error := m.error, flags := { d.flags with error := true } }
        else s.buf }
    (s.av.next forw).bind fun next =>
    if forw ≠ next then (iodoneLoop m n s forw).map fun r => (r.1, bp1 :: r.2)
    else some (s, [bp1, forw])

/-- `qmerge_iodone`. What a `B_REMAPPED` buf had mapped is unmapped first, and the
    merged buf is freed in the end; neither has to do with the parts. -/
def qmergeIodone (n : Nat) (s : Qmerge β ρ) (m : MBuf β ρ) : Option (Qmerge β ρ × List β) :=
  m.forw.bind fun bp1 => iodoneLoop m n s bp1

end Disk

end Sil3112
