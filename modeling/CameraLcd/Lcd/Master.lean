import CameraLcd.Lib.Clocked

/-!
# `Master_Interface`: the display's read DMA

`hw/hdl/LCD/Master_Interface.vhd` as a register file (`Register_Logic`), the next value of every
register (`Next_State_Logic` and `Combinational_Logic`) and the outputs, each a function of the
registers and the inputs of the cycle.

`Write_FIFO_Word` is read by no process that matters (`Word_Count` is "Not used here") and is
left out.
-/

set_option autoImplicit false

namespace CameraLcd.LcdMaster

/-- `state`. -/
inductive State where
  | init
  | copy
  | assertReadData
  | checkWaitRequest
  | readData
  | newAdd
  | checkAdd
  | checkFifo
  | waitLcdControl
  deriving DecidableEq, Repr

/-- The registers of `Register_Logic`; `counterWord` is an `integer range 0 to 16`. -/
structure Regs where
  state : State
  add : BitVec 32
  endAdd : BitVec 32
  counterWord : Nat
  bufferUsed : BitVec 2
  avmRead : Bool
  deriving DecidableEq, Repr

/-- The input ports. -/
structure Inputs where
  avmWaitRequest : Bool
  avmReadDataValid : Bool
  avmReadData : BitVec 32
  startAdd : BitVec 32
  lengthBuffer : BitVec 32
  bufferSaved : BitVec 2
  write16 : Bool
  masterStart : Bool
  fullFifo : Bool
  emptyFifo : Bool

/-- `nReset = '0'`. -/
def reset : Regs := ⟨.init, 0, 0, 0, 0, false⟩

/-- `Next_State_Logic`. -/
def nextState (r : Regs) (i : Inputs) : State :=
  match r.state with
  | .init => if i.masterStart then .copy else .init
  | .copy => if i.emptyFifo then .assertReadData else .copy
  | .assertReadData => .checkWaitRequest
  | .checkWaitRequest => if !i.avmWaitRequest then .readData else .checkWaitRequest
  | .readData => if r.counterWord = 16 then .newAdd else .readData
  | .newAdd => .checkAdd
  | .checkAdd => if r.add = r.endAdd then .init else .checkFifo
  | .checkFifo => if i.fullFifo then .waitLcdControl else .assertReadData
  | .waitLcdControl => if i.write16 then .assertReadData else .waitLcdControl

/-- `unsigned(LengthBuffer(29 downto 0)) * k` for a 2-bit `k`: a 32-bit product. -/
def timesLength (lengthBuffer : BitVec 32) (k : BitVec 2) : BitVec 32 :=
  (lengthBuffer.extractLsb' 0 30).setWidth 32 * k.setWidth 32

/-- `Add_next` in `Copy`. -/
def startOf (i : Inputs) : BitVec 32 := i.startAdd + timesLength i.lengthBuffer i.bufferSaved

/-- `EndAdd_next` in `Copy`.  `unsigned(Buffer_Saved) + 1` has the two bits of `Buffer_Saved`. -/
def endOf (i : Inputs) : BitVec 32 :=
  i.startAdd + timesLength i.lengthBuffer (i.bufferSaved + 1)

/-- The 30x2-bit product. -/
theorem timesLength_eq {lengthBuffer : BitVec 32} (h : lengthBuffer.toNat < 0x40000000)
    (k : BitVec 2) : timesLength lengthBuffer k =
      BitVec.ofNat 32 (k.toNat * lengthBuffer.toNat) := by
  have hlow : lengthBuffer.toNat % 0x40000000 = lengthBuffer.toNat := Nat.mod_eq_of_lt h
  apply BitVec.eq_of_toNat_eq
  simp only [timesLength, BitVec.toNat_mul, BitVec.toNat_setWidth,
    BitVec.extractLsb'_toNat, Nat.shiftRight_zero, BitVec.toNat_ofNat, hlow]
  rw [Nat.mul_comm, ← Nat.mul_mod]

/-- `Add_next` without the truncations. -/
theorem startOf_eq {i : Inputs} (h : i.lengthBuffer.toNat < 0x40000000) :
    startOf i =
      i.startAdd + BitVec.ofNat 32 (i.bufferSaved.toNat * i.lengthBuffer.toNat) := by
  rw [startOf, timesLength_eq h]

/-- `unsigned(Buffer_Saved) + 1` does not wrap: the end of the buffer is its start and its
length. -/
theorem endOf_eq {i : Inputs} (h : i.lengthBuffer.toNat < 0x40000000)
    (hb : i.bufferSaved.toNat ≤ 2) :
    endOf i = startOf i + BitVec.ofNat 32 i.lengthBuffer.toNat := by
  have hnext : (i.bufferSaved + 1).toNat = i.bufferSaved.toNat + 1 := by
    rw [BitVec.toNat_add]
    exact Nat.mod_eq_of_lt (by simp; omega)
  rw [endOf, startOf_eq h, timesLength_eq h, hnext, Nat.succ_mul, BitVec.ofNat_add,
    BitVec.add_assoc]

/-- One rising edge of `clk`: the next state and the `_next` signals of
`Combinational_Logic`. -/
def clock (r : Regs) (i : Inputs) : Regs :=
  let r' := { r with state := nextState r i }
  match r.state with
  | .init =>
    { r' with add := 0, endAdd := 0, counterWord := 0, bufferUsed := 0, avmRead := false }
  | .copy =>
    { r' with add := startOf i, endAdd := endOf i, bufferUsed := i.bufferSaved, avmRead := false }
  | .assertReadData => { r' with avmRead := true }
  | .checkWaitRequest => if !i.avmWaitRequest then { r' with avmRead := false } else r'
  | .readData =>
    if i.avmReadDataValid then
      if r.counterWord = 16 then { r' with counterWord := 0 }
      else { r' with counterWord := r.counterWord + 1 }
    else r'
  | .newAdd => { r' with add := r.add + 64, counterWord := 0 }
  | .checkAdd | .checkFifo | .waitLcdControl => r'

/-! ## The edge in each state -/

section Edges

variable {r : Regs} {i : Inputs}

theorem clock_init (hs : r.state = .init) :
    clock r i = ⟨if i.masterStart then .copy else .init, 0, 0, 0, 0, false⟩ := by
  simp [clock, nextState, hs]

theorem clock_copy (hs : r.state = .copy) :
    clock r i = { r with
      state := if i.emptyFifo then .assertReadData else .copy
      add := startOf i, endAdd := endOf i, bufferUsed := i.bufferSaved, avmRead := false } := by
  simp [clock, nextState, hs]

theorem clock_assertReadData (hs : r.state = .assertReadData) :
    clock r i = { r with state := .checkWaitRequest, avmRead := true } := by
  simp [clock, nextState, hs]

theorem clock_checkWaitRequest (hs : r.state = .checkWaitRequest) :
    clock r i = { r with
      state := if i.avmWaitRequest then .checkWaitRequest else .readData
      avmRead := if i.avmWaitRequest then r.avmRead else false } := by
  cases hw : i.avmWaitRequest <;> simp [clock, nextState, hs, hw]

theorem clock_readData (hs : r.state = .readData) :
    clock r i = { r with
      state := if r.counterWord = 16 then .newAdd else .readData
      counterWord := if i.avmReadDataValid then
        if r.counterWord = 16 then 0 else r.counterWord + 1 else r.counterWord } := by
  cases hv : i.avmReadDataValid <;> by_cases hc : r.counterWord = 16 <;>
    simp [clock, nextState, hs, hv, hc]

theorem clock_newAdd (hs : r.state = .newAdd) :
    clock r i = { r with state := .checkAdd, add := r.add + 64, counterWord := 0 } := by
  simp [clock, nextState, hs]

theorem clock_checkAdd (hs : r.state = .checkAdd) :
    clock r i = { r with state := if r.add = r.endAdd then .init else .checkFifo } := by
  simp [clock, nextState, hs]

theorem clock_checkFifo (hs : r.state = .checkFifo) :
    clock r i = { r with state := if i.fullFifo then .waitLcdControl else .assertReadData } := by
  simp [clock, nextState, hs]

theorem clock_waitLcdControl (hs : r.state = .waitLcdControl) :
    clock r i =
      { r with state := if i.write16 then .assertReadData else .waitLcdControl } := by
  simp [clock, nextState, hs]

end Edges

/-- A session holds a buffer from the edge that leaves `Copy` to the one that enters `Init`. -/
def Reading (r : Regs) : Prop := r.state ≠ .init ∧ r.state ≠ .copy

instance (r : Regs) : Decidable (Reading r) := inferInstanceAs (Decidable (_ ∧ _))

/-- Between `Copy` and `Init` the buffer in use does not change. -/
theorem bufferUsed_reading {r : Regs} (i : Inputs) (h : Reading r) :
    (clock r i).bufferUsed = r.bufferUsed := by
  obtain ⟨h1, h2⟩ := h
  cases hs : r.state with
  | init => exact absurd hs h1
  | copy => exact absurd hs h2
  | assertReadData => rw [clock_assertReadData hs]
  | checkWaitRequest => rw [clock_checkWaitRequest hs]
  | readData => rw [clock_readData hs]
  | newAdd => rw [clock_newAdd hs]
  | checkAdd => rw [clock_checkAdd hs]
  | checkFifo => rw [clock_checkFifo hs]
  | waitLcdControl => rw [clock_waitLcdControl hs]

/-- `avm_Read` is high in `Check_WaitRequest` only, and `counter_word_reg` counts in `Read_Data`
only. -/
structure BusOk (r : Regs) : Prop where
  read : r.avmRead = decide (r.state = .checkWaitRequest)
  word_le : r.counterWord ≤ 16
  word_zero : r.state ≠ .readData → r.state ≠ .newAdd → r.counterWord = 0

theorem busOk_reset : BusOk reset := ⟨rfl, by decide, fun _ _ => rfl⟩

/-- **Every edge keeps the bus registers in step with the state.** -/
theorem BusOk.clock {r : Regs} (h : BusOk r) (i : Inputs) : BusOk (LcdMaster.clock r i) := by
  obtain ⟨hread, hle, hzero⟩ := h
  cases hs : r.state with
  | init =>
    rw [clock_init hs]
    refine ⟨?_, by simp, fun _ _ => rfl⟩
    cases i.masterStart <;> rfl
  | copy =>
    rw [clock_copy hs]
    refine ⟨?_, hle, fun _ _ => hzero (by simp [hs]) (by simp [hs])⟩
    cases i.emptyFifo <;> rfl
  | assertReadData =>
    rw [clock_assertReadData hs]
    exact ⟨rfl, hle, fun _ _ => hzero (by simp [hs]) (by simp [hs])⟩
  | checkWaitRequest =>
    rw [clock_checkWaitRequest hs]
    refine ⟨?_, hle, fun _ _ => hzero (by simp [hs]) (by simp [hs])⟩
    cases i.avmWaitRequest <;> simp [hread, hs]
  | readData =>
    rw [clock_readData hs]
    refine ⟨?_, ?_, fun h1 h2 => absurd h2 ?_⟩
    · simp only [hread, hs]
      split <;> rfl
    · simp only
      split
      · split <;> omega
      · exact hle
    · simp only at h1 ⊢
      split at h1 <;> simp_all
  | newAdd =>
    rw [clock_newAdd hs]
    exact ⟨by simp [hread, hs], by simp, fun _ _ => rfl⟩
  | checkAdd =>
    rw [clock_checkAdd hs]
    refine ⟨?_, hle, fun _ _ => hzero (by simp [hs]) (by simp [hs])⟩
    simp only [hread, hs]
    split <;> rfl
  | checkFifo =>
    rw [clock_checkFifo hs]
    refine ⟨?_, hle, fun _ _ => hzero (by simp [hs]) (by simp [hs])⟩
    cases i.fullFifo <;> simp [hread, hs]
  | waitLcdControl =>
    rw [clock_waitLcdControl hs]
    refine ⟨?_, hle, fun _ _ => hzero (by simp [hs]) (by simp [hs])⟩
    cases i.write16 <;> simp [hread, hs]

/-! ## Outputs -/

/-- `Master_Ready`. -/
def masterReady (r : Regs) : Bool := r.state == .init

/-- `Master_Waiting`. -/
def masterWaiting (r : Regs) : Bool := r.state == .waitLcdControl

/-- The states that drive the Avalon command lines. -/
def addressing (r : Regs) : Bool :=
  r.state == .assertReadData || r.state == .checkWaitRequest

/-- `avm_Address`. -/
def avmAddress (r : Regs) : BitVec 32 := if addressing r then r.add else 0

/-- `avm_ByteEnable`. -/
def avmByteEnable (r : Regs) : BitVec 4 := if addressing r then 15 else 0

/-- `avm_BurstCount`. -/
def avmBurstCount (r : Regs) : BitVec 5 := if addressing r then 16 else 0

/-- `Write_FIFO`. -/
def writeFifo (r : Regs) (i : Inputs) : Bool :=
  r.state == .readData && i.avmReadDataValid && r.counterWord != 16

/-- `Write_FIFO_Data`. -/
def writeFifoData (r : Regs) (i : Inputs) : BitVec 32 :=
  if writeFifo r i then i.avmReadData else 0

/-- `Display_Buffer`. -/
def displayBuffer (r : Regs) : BitVec 2 := r.bufferUsed

end CameraLcd.LcdMaster
