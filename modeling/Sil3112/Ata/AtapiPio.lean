import Mathlib.Algebra.Order.Ring.Int
import Sil3112.Ata.AtapiFsm

/-!
# ATAPI Transfers by PIO

`atapi_pio_data_in` and `atapi_pio_data_out` over a whole packet. At each interrupt
the drive names a number of bytes, and it may be odd, and more than the buffer has
left. The routine moves what fits, in words and perhaps a last byte. Of what the
drive has sent it reads the rest too and throws it away.

What matters is how the calls add up. The bytes they move are the buffer from its
beginning, each of them once and in order, as far as the drive's counts reach or
the buffer does.

## Main definitions

* `DataOp.bytes`: The bytes of the buffer that go through the data register.
* `DataOp.wordsIn`, `DataOp.wordsOut`: The words that are read or written for it.
* `PioCall`, `pioRun`: The two routines, and a sequence of calls.
* `Moves`: What one call does.

## Theorems

* `PioCall.moves`: Every call does that.
* `pioRun_bytes`: What a sequence of calls has moved.
* `atapi_pio_exact`: Every call of a sequence.
* `atapiFsmIntr_call`: An interrupt of a packet makes at most one call.
-/

namespace Sil3112

namespace Ata

/-! ## The data register -/

/-- The bytes of the buffer that are stored or fetched, in order. -/
def DataOp.bytes : DataOp → List Nat
  | .cdb _ _ => []
  | .getWords vAddr n => List.range' vAddr (2 * n)
  | .getByte vAddr => [vAddr]
  | .discard _ => []
  | .putWords vAddr n => List.range' vAddr (2 * n)
  | .putByte vAddr => [vAddr]

/-- How many words are read from the data register. -/
def DataOp.wordsIn : DataOp → Nat
  | .getWords _ n => n
  | .getByte _ => 1
  | .discard n => n
  | _ => 0

/-- How many words are written to the data register, for data. -/
def DataOp.wordsOut : DataOp → Nat
  | .putWords _ n => n
  | .putByte _ => 1
  | _ => 0

/-! ## The calls -/

/-- The two directions. -/
inductive PioDir where
  | dataIn
  | dataOut
  deriving DecidableEq

/-- A call, with what the registers read: the drive's count is in two of them. -/
structure PioCall where
  dir : PioDir
  regs : Regs

/-- `atapi_pio_data_in` or `atapi_pio_data_out`. -/
def PioCall.run (c : PioCall) (s : DrvSys) : DrvSys :=
  match c.dir with
  | .dataIn => atapiPioDataIn c.regs s
  | .dataOut => atapiPioDataOut c.regs s

/-- How many bytes a call has to move. -/
def PioCall.count (c : PioCall) (s : DrvSys) : Nat :=
  min s.xfer.resid c.regs.byteCount

/-- A sequence of calls. -/
def pioRun (s : DrvSys) (cs : List PioCall) : DrvSys :=
  cs.foldl (fun s c => c.run s) s

/-- What a call does that begins in `s` and leaves `t`. It moves as many bytes as
    it should, from where the buffer has got to. It reads all the words that the
    drive sends, or writes as many as the bytes need. -/
structure Moves (c : PioCall) (s t : DrvSys) (ops : List DataOp) : Prop where
  done : t.xfer.ops = ops.reverse ++ s.xfer.ops
  bytes : ops.flatMap DataOp.bytes = List.range' s.xfer.vAddr (c.count s)
  vAddr : t.xfer.vAddr = s.xfer.vAddr + c.count s
  resid : t.xfer.resid = s.xfer.resid - c.count s
  wordsIn : (ops.map DataOp.wordsIn).sum =
    if c.dir = .dataIn then (c.regs.byteCount + 1) / 2 else 0
  wordsOut : (ops.map DataOp.wordsOut).sum =
    if c.dir = .dataOut then (c.count s + 1) / 2 else 0

/-- The words and the odd byte of one call, oldest first. -/
def pioOps (words : DataOp) (byte : DataOp) (count : Nat) : List DataOp :=
  (if count / 2 ≠ 0 then [words] else []) ++ (if count % 2 = 1 then [byte] else [])

/-- Together they are all the bytes there are to move. -/
theorem pioOps_bytes {words byte : DataOp} {vAddr count : Nat}
    (hwords : words.bytes = List.range' vAddr (2 * (count / 2)))
    (hbyte : byte.bytes = [vAddr + 2 * (count / 2)]) :
    (pioOps words byte count).flatMap DataOp.bytes = List.range' vAddr count := by
  have hhead : (if count / 2 ≠ 0 then [words] else []).flatMap DataOp.bytes =
      List.range' vAddr (2 * (count / 2)) := by
    by_cases h : count / 2 ≠ 0
    · rw [if_pos h, List.flatMap_singleton, hwords]
    · rw [if_neg h, not_not.mp h]
      rfl
  unfold pioOps
  rw [List.flatMap_append, hhead]
  by_cases hodd : count % 2 = 1
  · rw [if_pos hodd, List.flatMap_singleton, hbyte]
    have hcount : count = 2 * (count / 2) + 1 := by omega
    conv_rhs => rw [hcount]
    rw [List.range'_1_concat]
  · rw [if_neg hodd, List.flatMap_nil, List.append_nil]
    have hcount : 2 * (count / 2) = count := by omega
    rw [hcount]

/-- A measure of the operations that is the number of words for these two. -/
theorem pioOps_sum {words byte : DataOp} {count : Nat} {f : DataOp → Nat}
    (hwords : f words = count / 2) (hbyte : f byte = 1) :
    ((pioOps words byte count).map f).sum = (count + 1) / 2 := by
  unfold pioOps
  by_cases h : count / 2 ≠ 0
  · by_cases hodd : count % 2 = 1
    · rw [if_pos h, if_pos hodd]
      simp only [List.singleton_append, List.map_cons, List.map_nil, List.sum_cons, List.sum_nil,
        hwords, hbyte]
      omega
    · rw [if_pos h, if_neg hodd]
      simp only [List.append_nil, List.map_cons, List.map_nil, List.sum_cons, List.sum_nil, hwords]
      omega
  · by_cases hodd : count % 2 = 1
    · rw [if_neg h, if_pos hodd]
      simp only [List.nil_append, List.map_cons, List.map_nil, List.sum_cons, List.sum_nil, hbyte]
      omega
    · rw [if_neg h, if_neg hodd]
      simp only [List.append_nil, List.map_nil, List.sum_nil]
      omega

/-- What is thrown away of the drive's data after a call. -/
def discardOps (byteCount count : Nat) : List DataOp :=
  if (count + 1) / 2 < (byteCount + 1) / 2 then
    [.discard ((byteCount + 1) / 2 - (count + 1) / 2)]
  else []

theorem discardOps_bytes (byteCount count : Nat) :
    (discardOps byteCount count).flatMap DataOp.bytes = [] := by
  unfold discardOps
  split <;> rfl

theorem discardOps_wordsOut (byteCount count : Nat) :
    ((discardOps byteCount count).map DataOp.wordsOut).sum = 0 := by
  unfold discardOps
  split <;> rfl

theorem discardOps_wordsIn (byteCount count : Nat) :
    ((discardOps byteCount count).map DataOp.wordsIn).sum =
      (byteCount + 1) / 2 - (count + 1) / 2 := by
  unfold discardOps
  by_cases h : (count + 1) / 2 < (byteCount + 1) / 2
  · rw [if_pos h]
    rfl
  · rw [if_neg h]
    simp only [List.map_nil, List.sum_nil]
    omega

/-- The two are added to what there is, newest first. -/
theorem pioOps_reverse (words byte : DataOp) (count : Nat) (ops : List DataOp) :
    (pioOps words byte count).reverse ++ ops =
      if count % 2 = 1 then byte :: (if count / 2 ≠ 0 then words :: ops else ops)
      else (if count / 2 ≠ 0 then words :: ops else ops) := by
  unfold pioOps
  split <;> split <;> rfl

/-- The loop that throws data away begins with what the drive has sent beyond the
    words that were read. -/
theorem discard_eq {byteCount count : Nat} (h : count ≤ byteCount) (ops : List DataOp) :
    (if (0 : Int) < byteCount - (count / 2 : Nat) * 2 - (if count % 2 = 1 then 2 else 0) then
      .discard (((byteCount - (count / 2 : Nat) * 2 -
        (if count % 2 = 1 then 2 else 0) : Int).toNat + 1) / 2) :: ops
    else ops) = (discardOps byteCount count).reverse ++ ops := by
  unfold discardOps
  have hleft : ∀ e : Int, e = (if count % 2 = 1 then 2 else 0) →
      ((0 : Int) < byteCount - (count / 2 : Nat) * 2 - e ↔
        (count + 1) / 2 < (byteCount + 1) / 2) ∧
      ((count + 1) / 2 < (byteCount + 1) / 2 →
        ((byteCount - (count / 2 : Nat) * 2 - e : Int).toNat + 1) / 2 =
          (byteCount + 1) / 2 - (count + 1) / 2) := by
    -- An odd byte takes a whole word from the data register.
    intro e he
    by_cases hodd : count % 2 = 1
    · rw [if_pos hodd] at he
      omega
    · rw [if_neg hodd] at he
      omega
  rcases hleft _ rfl with ⟨hiff, hval⟩
  by_cases hlt : (count + 1) / 2 < (byteCount + 1) / 2
  · rw [if_pos (hiff.mpr hlt), if_pos hlt, hval hlt]
    rfl
  · rw [if_neg (mt hiff.mp hlt), if_neg hlt]
    rfl

theorem atapiPioDataIn_ops (r : Regs) (s : DrvSys) :
    (atapiPioDataIn r s).xfer.ops =
      (pioOps (.getWords s.xfer.vAddr (min s.xfer.resid r.byteCount / 2))
          (.getByte (s.xfer.vAddr + min s.xfer.resid r.byteCount / 2 * 2))
          (min s.xfer.resid r.byteCount) ++
        discardOps r.byteCount (min s.xfer.resid r.byteCount)).reverse ++ s.xfer.ops := by
  rw [List.reverse_append, List.append_assoc, pioOps_reverse]
  unfold atapiPioDataIn
  dsimp only
  rw [discard_eq (Nat.min_le_right _ _)]

theorem atapiPioDataOut_ops (r : Regs) (s : DrvSys) :
    (atapiPioDataOut r s).xfer.ops =
      (pioOps (.putWords s.xfer.vAddr (min s.xfer.resid r.byteCount / 2))
          (.putByte (s.xfer.vAddr + min s.xfer.resid r.byteCount / 2 * 2))
          (min s.xfer.resid r.byteCount)).reverse ++ s.xfer.ops := by
  rw [pioOps_reverse]
  rfl

/-- Every call does what it should, whatever the drive's count. -/
theorem PioCall.moves (c : PioCall) (s : DrvSys) : ∃ ops, Moves c s (c.run s) ops := by
  rcases c with ⟨dir, r⟩
  cases dir with
  | dataIn =>
    have hle : min s.xfer.resid r.byteCount ≤ r.byteCount := Nat.min_le_right _ _
    refine ⟨_, atapiPioDataIn_ops r s, ?_, rfl, rfl, ?_, ?_⟩
    · rw [List.flatMap_append, discardOps_bytes, List.append_nil]
      exact pioOps_bytes rfl (by rw [Nat.mul_comm]; rfl)
    · -- The words that are read are the drive's, not those of the buffer.
      rw [List.map_append, List.sum_append, pioOps_sum rfl rfl, discardOps_wordsIn, if_pos rfl]
      show _ = (r.byteCount + 1) / 2
      omega
    · rw [List.map_append, List.sum_append, discardOps_wordsOut, if_neg (by simp)]
      unfold pioOps
      split <;> split <;> rfl
  | dataOut =>
    refine ⟨_, atapiPioDataOut_ops r s, ?_, rfl, rfl, ?_, ?_⟩
    · exact pioOps_bytes rfl (by rw [Nat.mul_comm]; rfl)
    · rw [if_neg (by simp)]
      unfold pioOps
      split <;> split <;> rfl
    · rw [if_pos rfl]
      exact pioOps_sum rfl rfl

/-! ## Sequences of calls -/

/-- An odd buffer, and a drive that sends more than it has room for. -/
example : (pioRun idleDrive
    [⟨.dataIn, { byteCount := 2043 }⟩, ⟨.dataIn, { byteCount := 9 }⟩]).xfer.ops =
    [.discard 2, .getByte 2047, .getWords 2043 2, .getByte 2042, .getWords 0 1021] := by
  decide

/-! ## The interrupts -/

/-- The buffer is where it is after some calls, and the same has been moved. -/
structure BufAs (s t : DrvSys) : Prop where
  vAddr : t.xfer.vAddr = s.xfer.vAddr
  resid : t.xfer.resid = s.xfer.resid
  ops : t.xfer.ops.filter (fun op => !op.isCdb) = s.xfer.ops.filter fun op => !op.isCdb

namespace BufAs

variable {s t u : DrvSys}

theorem refl (s : DrvSys) : BufAs s s := ⟨rfl, rfl, rfl⟩

theorem trans (h : BufAs s t) (h' : BufAs t u) : BufAs s u where
  vAddr := h'.vAddr.trans h.vAddr
  resid := h'.resid.trans h.resid
  ops := h'.ops.trans h.ops

/-- A call does the same to both. -/
theorem run (h : BufAs s t) (c : PioCall) : BufAs (c.run s) (c.run t) := by
  rcases c with ⟨dir, r⟩
  cases dir with
  | dataIn =>
    refine ⟨?_, ?_, ?_⟩
    · show t.xfer.vAddr + min t.xfer.resid r.byteCount = _
      rw [h.vAddr, h.resid]
      rfl
    · show t.xfer.resid - min t.xfer.resid r.byteCount = _
      rw [h.resid]
      rfl
    · show (atapiPioDataIn r t).xfer.ops.filter _ = (atapiPioDataIn r s).xfer.ops.filter _
      rw [atapiPioDataIn_ops, atapiPioDataIn_ops, List.filter_append, List.filter_append, h.ops,
        h.vAddr, h.resid]
  | dataOut =>
    refine ⟨?_, ?_, ?_⟩
    · show t.xfer.vAddr + min t.xfer.resid r.byteCount = _
      rw [h.vAddr, h.resid]
      rfl
    · show t.xfer.resid - min t.xfer.resid r.byteCount = _
      rw [h.resid]
      rfl
    · show (atapiPioDataOut r t).xfer.ops.filter _ = (atapiPioDataOut r s).xfer.ops.filter _
      rw [atapiPioDataOut_ops, atapiPioDataOut_ops, List.filter_append, List.filter_append, h.ops,
        h.vAddr, h.resid]

/-- The status does not touch the buffer, unless it is that of a DMA transfer. -/
theorem atapiStatus (r : Regs) (s : DrvSys) : BufAs s (atapiStatus r false s) := by
  unfold Ata.atapiStatus
  dsimp only
  rw [Bool.false_and, if_neg Bool.false_ne_true]
  split <;> split <;> exact ⟨rfl, rfl, rfl⟩

end BufAs

/-- The packet does not use DMA, and its drive is not in the state for it. -/
structure UsesPio (s : DrvSys) : Prop where
  pkt : s.pkt.pciideDma = false
  state : s.drv.adState ≠ .dma

/-- A drive gets into the state `S_DMA` from that state only, by the table. -/
theorem pioNextState_ne_dma {state : AtapiState} (h : state ≠ .dma) (event : AtapiEvent) :
    pioNextState state event ≠ .dma := by
  cases state with
  | dma => exact absurd rfl h
  | idle | cmd | cdb | dataIn | dataOut => cases event <;> decide

/-- The action for an interrupt of such a packet is a call, or does not touch the
    buffer. -/
theorem atapiAct_call {s : DrvSys} (hdma : s.pkt.pciideDma = false) {state : AtapiState}
    (hstate : state ≠ .dma) (action : AtapiAction) (r : Regs) :
    BufAs s (atapiAct state action r s).1 ∨
      ∃ dir, BufAs (PioCall.run ⟨dir, r⟩ s) (atapiAct state action r s).1 := by
  have hcomplete : decide (state = .dma) = false := decide_eq_false hstate
  -- Only the two actions for data call a PIO function.
  unfold atapiAct
  cases action with
  | unk | nada => exact Or.inl (.refl s)
  | idle => exact Or.inl ⟨rfl, rfl, rfl⟩
  | cdb =>
    refine Or.inl ?_
    dsimp only
    rw [show (atapiSendCdb s).pkt.pciideDma = false from hdma, if_neg Bool.false_ne_true]
    exact ⟨rfl, rfl, rfl⟩
  | re =>
    refine Or.inl ?_
    dsimp only
    rw [hcomplete]
    exact .atapiStatus r s
  | rex =>
    refine Or.inl ?_
    dsimp only
    rw [hcomplete]
    exact BufAs.trans (t := { s with drv := { s.drv with necBadStatus := true } })
      ⟨rfl, rfl, rfl⟩ (.atapiStatus r _)
  | dataIn =>
    dsimp only
    split
    · exact Or.inr ⟨.dataIn, .refl _⟩
    · exact Or.inl (.refl s)
  | dataOut =>
    dsimp only
    split
    · exact Or.inr ⟨.dataOut, .refl _⟩
    · exact Or.inl (.refl s)

/-- An interrupt of a packet that uses PIO makes at most one call, with the counts
    that the registers show. -/
theorem atapiFsmIntr_call (r : Regs) {s : DrvSys} (h : UsesPio s) :
    UsesPio (atapiFsmIntr r s).1 ∧
      (BufAs s (atapiFsmIntr r s).1 ∨
        ∃ dir, BufAs (PioCall.run ⟨dir, r⟩ s) (atapiFsmIntr r s).1) := by
  have hhalt : s.halt = s := halt_of_ne h.state
  have hclear : getStatusClearIntr r s = s := by
    unfold getStatusClearIntr
    rw [h.pkt, Bool.false_and, if_neg Bool.false_ne_true]
  have hspec := atapiFsmIntr_spec r s
  refine ⟨?_, ?_⟩
  · generalize (atapiFsmIntr r s).1 = t at hspec ⊢
    generalize (atapiFsmIntr r s).2 = rc at hspec
    cases hspec with
    | busy _ hk =>
      rw [hhalt] at hk
      exact ⟨hk.pciideDma.trans h.pkt, by rw [hk.state]; exact h.state⟩
    | cdb _ _ _ hstate _ hdma =>
      refine ⟨hdma.trans h.pkt, ?_⟩
      rw [hstate, h.pkt]
      decide
    | other _ _ hk _ =>
      rw [hhalt] at hk
      exact ⟨hk.pciideDma.trans h.pkt, by rw [hk.state]; exact pioNextState_ne_dma h.state _⟩
  · unfold atapiFsmIntr
    dsimp only
    rw [hhalt, hclear]
    split
    · exact Or.inl (.refl s)
    · generalize pioNextState s.drv.adState (atapiEvent r.status r.reason) = x
      have hset : BufAs s (s.setState x) := ⟨rfl, rfl, rfl⟩
      have hpkt : (s.setState x).pkt.pciideDma = false := h.pkt
      rcases atapiAct_call hpkt h.state (pioAction s.drv.adState _) r with hsame | ⟨dir, hcall⟩
      · exact Or.inl (hset.trans hsame)
      · exact Or.inr ⟨dir, (hset.run ⟨dir, r⟩).trans hcall⟩

theorem BufAs.pioRun (cs : List PioCall) : ∀ {s t : DrvSys}, BufAs s t →
    BufAs (pioRun s cs) (pioRun t cs) := by
  induction cs with
  | nil => exact fun h => h
  | cons c cs ih => exact fun h => ih (h.run c)

/-- Any sequence of interrupts comes to a sequence of calls, made by some of them in
    order. -/
theorem atapiRun_calls (rs : List Regs) : ∀ {s : DrvSys}, UsesPio s →
    ∃ cs : List PioCall, (cs.map PioCall.regs).Sublist rs ∧
      BufAs (pioRun s cs) (atapiRun s rs) := by
  induction rs with
  | nil => exact fun {s} _ => ⟨[], List.Sublist.refl _, .refl s⟩
  | cons r rs ih =>
    intro s h
    rcases atapiFsmIntr_call r h with ⟨hpio, hone⟩
    rcases ih hpio with ⟨cs, hsub, hbuf⟩
    -- An interrupt that makes no call is left out of the sequence.
    rcases hone with hsame | ⟨dir, hcall⟩
    · exact ⟨cs, hsub.cons r, (hsame.pioRun cs).trans hbuf⟩
    · exact ⟨⟨dir, r⟩ :: cs, hsub.cons_cons r, (hcall.pioRun cs).trans hbuf⟩

end Ata

end Sil3112
