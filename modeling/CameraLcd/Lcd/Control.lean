import CameraLcd.Lib.Clocked

/-!
# `LCD_Control`: the write cycles of the LCD bus

`hw/hdl/LCD/LCD_Control.vhd` as a register file (`Register_Logic`), the next state
(`Next_State_Logic`), the counters and the outputs (`Combinational_Logic`).  The outputs are
functions of the registers and of the inputs of the cycle.

* `writePins` — the pins in the five states that write a word: a write cycle has the times 0 to
  7 with `WRX` low for the first four; at time 8 the task is done and the pins are released.
* `strobe` — the word the LCD takes: `D_CX` and `D` in a cycle with a rising edge of `WRX`.

`Full_FIFO` and `Read_FIFO_Word` ("Not used here") have no effect and are left out.
-/

set_option autoImplicit false

namespace CameraLcd.LcdControl

/-- `state`. -/
inductive State where
  | init
  | command
  | data
  | checkCommand
  | checkMaster
  | empty
  | display
  | empty16
  | display16
  | endDisplay
  | endCommandData
  deriving DecidableEq, Repr

/-- The registers; `counter_time_reg` is an `integer range 0 to 8`, `counter_word_reg` an
`integer range 0 to 32`. -/
structure Regs where
  state : State
  counterTime : Nat
  counterWord : Nat
  deriving DecidableEq, Repr

/-- The input ports. -/
structure Inputs where
  readFifoData : BitVec 16
  emptyFifo : Bool
  masterReady : Bool
  masterWaiting : Bool
  commandData : BitVec 16
  stateCommandData : BitVec 2
  deriving DecidableEq, Repr

/-- `nReset = '0'`. -/
def reset : Regs := ⟨.init, 0, 0⟩

/-- The states that write a word to the LCD. -/
def writing (s : State) : Bool :=
  s == .command || s == .data || s == .display || s == .display16 || s == .endDisplay

/-- `Done_Task`. -/
def doneTask (r : Regs) : Bool := writing r.state && r.counterTime == 8

/-- `Command_Data(7 downto 0) = x"2C"`: the command that starts a memory write. -/
def memoryWrite (commandData : BitVec 16) : Bool := commandData.extractLsb' 0 8 == 0x2C

/-- `Next_State_Logic`. -/
def nextState (r : Regs) (i : Inputs) : State :=
  match r.state with
  | .init =>
    if i.stateCommandData = 1 ∨ i.stateCommandData = 3 then .command
    else if i.stateCommandData = 2 then .data else .init
  | .command => if doneTask r then .checkCommand else .command
  | .checkCommand =>
    if memoryWrite i.commandData then
      if !i.masterReady then .checkMaster else .checkCommand
    else .endCommandData
  | .data => if doneTask r then .endCommandData else .data
  | .checkMaster =>
    if i.masterReady then .empty else if i.masterWaiting then .empty16 else .checkMaster
  | .empty => if i.emptyFifo then .endDisplay else .display
  | .display => if doneTask r then .empty else .display
  | .empty16 => if r.counterWord = 32 then .checkMaster else .display16
  | .display16 => if doneTask r then .empty16 else .display16
  | .endDisplay =>
    if doneTask r then
      if i.stateCommandData = 1 then .endCommandData
      else if i.stateCommandData = 3 then .command else .endDisplay
    else .endDisplay
  | .endCommandData => if i.stateCommandData = 0 then .init else .endCommandData

/-- `counter_time_next`. -/
def nextTime (r : Regs) : Nat :=
  if r.state = .init then 0
  else if writing r.state then if r.counterTime = 8 then 0 else r.counterTime + 1
  else r.counterTime

/-- `counter_word_next`. -/
def nextWord (r : Regs) : Nat :=
  match r.state with
  | .init => 0
  | .empty16 => if r.counterWord = 32 then 0 else r.counterWord
  | .display16 => if r.counterTime = 8 then r.counterWord + 1 else r.counterWord
  | _ => r.counterWord

/-- One rising edge of `clk`. -/
def clock (r : Regs) (i : Inputs) : Regs := ⟨nextState r i, nextTime r, nextWord r⟩

/-! ## Outputs -/

/-- The pins of the LCD. -/
structure Pins where
  csx : Bool
  dcx : Bool
  wrx : Bool
  rdx : Bool
  d : BitVec 16
  deriving DecidableEq, Repr

/-- The default values. -/
def idlePins : Pins := ⟨true, true, true, true, 0⟩

/-- The pins of a write cycle at time `t`. -/
def writePins (dcx : Bool) (d : BitVec 16) (t : Nat) : Pins :=
  if t = 8 then idlePins else ⟨false, dcx, decide (4 ≤ t), true, d⟩

/-- `CSX`, `D_CX`, `WRX`, `RDX` and `D`. -/
def pins (r : Regs) (i : Inputs) : Pins :=
  match r.state with
  | .command => writePins false i.commandData r.counterTime
  | .data => writePins true i.commandData r.counterTime
  | .display | .display16 => writePins true i.readFifoData r.counterTime
  | .endDisplay => writePins false 0 r.counterTime
  | _ => idlePins

/-- `Read_FIFO`. -/
def readFifo (r : Regs) (i : Inputs) : Bool :=
  match r.state with
  | .empty => !i.emptyFifo
  | .empty16 => r.counterWord != 32
  | _ => false

/-- `Master_Start`. -/
def masterStart (r : Regs) (i : Inputs) : Bool :=
  r.state == .checkCommand && memoryWrite i.commandData

/-- `Write_16`. -/
def write16 (r : Regs) : Bool := r.state == .empty16 && r.counterWord == 32

/-- `Done_Command_Data`. -/
def doneCommandData (r : Regs) : Bool := r.state == .endCommandData

/-! ## The words the LCD takes -/

/-- `D_CX` and `D` at a rising edge of `WRX`. -/
abbrev Strobe := Bool × BitVec 16

/-- The word strobed in cycle `n` of a stream of pins. -/
def strobe (p : Nat → Pins) (n : Nat) : Option Strobe :=
  if Clocked.risingEdge (fun k => (p k).wrx) n then some ((p n).dcx, (p n).d) else none

/-- `WRX` is low in the first four cycles of a write cycle and in no other. -/
theorem wrx_low (r : Regs) (i : Inputs) :
    (pins r i).wrx = false ↔ writing r.state = true ∧ r.counterTime < 4 := by
  have hw : ∀ (dcx : Bool) (d : BitVec 16),
      (writePins dcx d r.counterTime).wrx = false ↔ r.counterTime < 4 := by
    intro dcx d
    unfold writePins
    split
    · rename_i h8
      simp [idlePins, h8]
    · simp
  cases hs : r.state <;> simp [pins, hs, writing, hw, idlePins]

/-- In a write cycle the state is kept and time advances. -/
theorem clock_writing {r : Regs} (i : Inputs) (hw : writing r.state = true)
    (ht : r.counterTime ≠ 8) : clock r i = { r with counterTime := r.counterTime + 1 } := by
  have hd : doneTask r = false := by simp [doneTask, ht]
  have hinit : r.state ≠ .init := by
    intro h
    simp [writing, h] at hw
  have htime : nextTime r = r.counterTime + 1 := by
    simp [nextTime, hinit, hw, ht]
  cases hs : r.state with
  | init | checkCommand | checkMaster | empty | empty16 | endCommandData =>
    simp [hs, writing] at hw
  | command | data | display | display16 | endDisplay =>
    simp [clock, nextState, nextWord, hs, hd, htime, ht]

/-! ## The edge in each state -/

section Edges

variable {r : Regs} {i : Inputs}

theorem clock_init (hs : r.state = .init) : clock r i =
    ⟨if i.stateCommandData = 1 ∨ i.stateCommandData = 3 then .command
      else if i.stateCommandData = 2 then .data else .init, 0, 0⟩ := by
  simp [clock, nextState, nextTime, nextWord, hs]

theorem clock_command_done (hs : r.state = .command) (ht : r.counterTime = 8) :
    clock r i = ⟨.checkCommand, 0, r.counterWord⟩ := by
  simp [clock, nextState, nextTime, nextWord, doneTask, writing, hs, ht]

theorem clock_data_done (hs : r.state = .data) (ht : r.counterTime = 8) :
    clock r i = ⟨.endCommandData, 0, r.counterWord⟩ := by
  simp [clock, nextState, nextTime, nextWord, doneTask, writing, hs, ht]

theorem clock_checkCommand (hs : r.state = .checkCommand) : clock r i = { r with
    state := if memoryWrite i.commandData then
      if !i.masterReady then .checkMaster else .checkCommand else .endCommandData } := by
  simp [clock, nextState, nextTime, nextWord, writing, hs]

theorem clock_checkMaster (hs : r.state = .checkMaster) : clock r i = { r with
    state := if i.masterReady then .empty else if i.masterWaiting then .empty16
      else .checkMaster } := by
  simp [clock, nextState, nextTime, nextWord, writing, hs]

theorem clock_empty (hs : r.state = .empty) :
    clock r i = { r with state := if i.emptyFifo then .endDisplay else .display } := by
  simp [clock, nextState, nextTime, nextWord, writing, hs]

theorem clock_display_done (hs : r.state = .display) (ht : r.counterTime = 8) :
    clock r i = ⟨.empty, 0, r.counterWord⟩ := by
  simp [clock, nextState, nextTime, nextWord, doneTask, writing, hs, ht]

theorem clock_empty16 (hs : r.state = .empty16) : clock r i = { r with
    state := if r.counterWord = 32 then .checkMaster else .display16
    counterWord := if r.counterWord = 32 then 0 else r.counterWord } := by
  simp [clock, nextState, nextTime, nextWord, writing, hs]

theorem clock_display16_done (hs : r.state = .display16) (ht : r.counterTime = 8) :
    clock r i = ⟨.empty16, 0, r.counterWord + 1⟩ := by
  simp [clock, nextState, nextTime, nextWord, doneTask, writing, hs, ht]

theorem clock_endDisplay_done (hs : r.state = .endDisplay) (ht : r.counterTime = 8) :
    clock r i = ⟨if i.stateCommandData = 1 then .endCommandData
      else if i.stateCommandData = 3 then .command else .endDisplay, 0, r.counterWord⟩ := by
  simp [clock, nextState, nextTime, nextWord, doneTask, writing, hs, ht]

theorem clock_endCommandData (hs : r.state = .endCommandData) : clock r i = { r with
    state := if i.stateCommandData = 0 then .init else .endCommandData } := by
  simp [clock, nextState, nextTime, nextWord, writing, hs]

/-- The registers after an edge, one constructor for each path through the processes. -/
inductive Edge (r : Regs) (i : Inputs) : Regs → Prop where
  | init (hs : r.state = .init) : Edge r i
      ⟨if i.stateCommandData = 1 ∨ i.stateCommandData = 3 then .command
        else if i.stateCommandData = 2 then .data else .init, 0, 0⟩
  /-- A write cycle before its last cycle. -/
  | writing (hw : writing r.state = true) (ht : r.counterTime ≠ 8) :
      Edge r i { r with counterTime := r.counterTime + 1 }
  | commandDone (hs : r.state = .command) (ht : r.counterTime = 8) :
      Edge r i ⟨.checkCommand, 0, r.counterWord⟩
  | dataDone (hs : r.state = .data) (ht : r.counterTime = 8) :
      Edge r i ⟨.endCommandData, 0, r.counterWord⟩
  | checkCommand (hs : r.state = .checkCommand) : Edge r i { r with
      state := if memoryWrite i.commandData then
        if !i.masterReady then .checkMaster else .checkCommand else .endCommandData }
  | checkMaster (hs : r.state = .checkMaster) : Edge r i { r with
      state := if i.masterReady then .empty else if i.masterWaiting then .empty16
        else .checkMaster }
  | empty (hs : r.state = .empty) :
      Edge r i { r with state := if i.emptyFifo then .endDisplay else .display }
  | displayDone (hs : r.state = .display) (ht : r.counterTime = 8) :
      Edge r i ⟨.empty, 0, r.counterWord⟩
  /-- 32 halves are out. -/
  | emptied16 (hs : r.state = .empty16) (hw : r.counterWord = 32) :
      Edge r i { r with state := .checkMaster, counterWord := 0 }
  | empty16 (hs : r.state = .empty16) (hw : r.counterWord ≠ 32) :
      Edge r i { r with state := .display16 }
  | display16Done (hs : r.state = .display16) (ht : r.counterTime = 8) :
      Edge r i ⟨.empty16, 0, r.counterWord + 1⟩
  | endDisplayDone (hs : r.state = .endDisplay) (ht : r.counterTime = 8) : Edge r i
      ⟨if i.stateCommandData = 1 then .endCommandData
        else if i.stateCommandData = 3 then .command else .endDisplay, 0, r.counterWord⟩
  | endCommandData (hs : r.state = .endCommandData) : Edge r i { r with
      state := if i.stateCommandData = 0 then .init else .endCommandData }

/-- **Every edge takes one of the paths.** -/
theorem clock_edge (r : Regs) (i : Inputs) : Edge r i (clock r i) := by
  by_cases hin : LcdControl.writing r.state = true ∧ r.counterTime ≠ 8
  · rw [clock_writing i hin.1 hin.2]
    exact .writing hin.1 hin.2
  · have hdone : LcdControl.writing r.state = true → r.counterTime = 8 := by
      intro hw
      by_contra h8
      exact hin ⟨hw, h8⟩
    cases hs : r.state with
    | init => exact clock_init hs ▸ .init hs
    | command =>
      have h8 := hdone (by rw [hs]; rfl)
      exact clock_command_done hs h8 ▸ .commandDone hs h8
    | data =>
      have h8 := hdone (by rw [hs]; rfl)
      exact clock_data_done hs h8 ▸ .dataDone hs h8
    | checkCommand => exact clock_checkCommand hs ▸ .checkCommand hs
    | checkMaster => exact clock_checkMaster hs ▸ .checkMaster hs
    | empty => exact clock_empty hs ▸ .empty hs
    | display =>
      have h8 := hdone (by rw [hs]; rfl)
      exact clock_display_done hs h8 ▸ .displayDone hs h8
    | empty16 =>
      rw [clock_empty16 hs]
      by_cases h32 : r.counterWord = 32
      · simp only [h32, if_true]
        exact .emptied16 hs h32
      · simp only [h32, if_false]
        exact .empty16 hs h32
    | display16 =>
      have h8 := hdone (by rw [hs]; rfl)
      exact clock_display16_done hs h8 ▸ .display16Done hs h8
    | endDisplay =>
      have h8 := hdone (by rw [hs]; rfl)
      exact clock_endDisplay_done hs h8 ▸ .endDisplayDone hs h8
    | endCommandData => exact clock_endCommandData hs ▸ .endCommandData hs

end Edges

/-! ## The counters -/

/-- The counters are zero where they are not in use, and in range where they are. -/
structure CountersOk (r : Regs) : Prop where
  time_le : r.counterTime ≤ 8
  time_zero : writing r.state = false → r.counterTime = 0
  word_le : r.counterWord ≤ 32
  word_lt : r.state = .display16 → r.counterWord < 32
  word_zero : r.state ≠ .empty16 → r.state ≠ .display16 → r.counterWord = 0

theorem countersOk_reset : CountersOk reset :=
  ⟨by decide, fun _ => rfl, by decide, nofun, fun _ _ => rfl⟩

/-- A state entered with both counters at zero. -/
theorem CountersOk.entered (s : State) : CountersOk ⟨s, 0, 0⟩ :=
  ⟨by simp, fun _ => rfl, by simp, fun _ => by simp, fun _ _ => rfl⟩

/-- **Every edge keeps the counters in range.** -/
theorem CountersOk.edge {r r' : Regs} {i : Inputs} (he : Edge r i r') (h : CountersOk r) :
    CountersOk r' := by
  obtain ⟨s, t, w⟩ := r
  obtain ⟨ht8, htz, hle, hlt, hwz⟩ := h
  simp only at ht8 htz hle hlt hwz
  cases he with
  | init => exact .entered _
  | writing hw ht =>
    refine ⟨?_, fun hno => absurd hno (by simp [hw]), hle, hlt, hwz⟩
    have ht' : t ≠ 8 := ht
    show t + 1 ≤ 8
    omega
  | commandDone hs | dataDone hs | displayDone hs | endDisplayDone hs =>
    cases hs
    rw [hwz (by simp) (by simp)]
    exact .entered _
  | checkCommand hs | checkMaster hs | empty hs | endCommandData hs =>
    cases hs
    rw [htz rfl, hwz (by simp) (by simp)]
    exact .entered _
  | emptied16 hs =>
    cases hs
    rw [htz rfl]
    exact .entered _
  | empty16 hs hw =>
    cases hs
    have h32 : w ≠ 32 := hw
    rw [htz rfl]
    exact ⟨by simp, fun _ => rfl, hle, fun _ => by simp only; omega, fun _ h' => absurd rfl h'⟩
  | display16Done hs =>
    cases hs
    exact ⟨by simp, fun _ => rfl, hlt rfl, nofun, fun h' => absurd rfl h'⟩

section Stream

variable {r : Nat → Regs} {i : Nat → Inputs}

/-- **A word is strobed at time 4 of a write cycle and at no other time.** -/
theorem strobe_eq (hr : ∀ n, r (n + 1) = clock (r n) (i n)) (n : Nat) :
    strobe (fun k => pins (r k) (i k)) (n + 1) =
      if writing (r n).state ∧ (r n).counterTime = 3 then
        some ((pins (r (n + 1)) (i (n + 1))).dcx, (pins (r (n + 1)) (i (n + 1))).d)
      else none := by
  have hedge : Clocked.risingEdge (fun k => (pins (r k) (i k)).wrx) (n + 1) = true ↔
      writing (r n).state ∧ (r n).counterTime = 3 := by
    simp only [Clocked.risingEdge, Bool.and_eq_true, Bool.not_eq_true', wrx_low]
    rw [show ((pins (r (n + 1)) (i (n + 1))).wrx = true) =
        ¬ (pins (r (n + 1)) (i (n + 1))).wrx = false by simp, wrx_low]
    constructor
    · rintro ⟨⟨hw, ht⟩, hhigh⟩
      rw [hr n, clock_writing (i n) hw (by omega)] at hhigh
      refine ⟨hw, ?_⟩
      by_contra h3
      exact hhigh ⟨hw, by simp only; omega⟩
    · rintro ⟨hw, ht⟩
      refine ⟨⟨hw, by omega⟩, ?_⟩
      rw [hr n, clock_writing (i n) hw (by omega)]
      rintro ⟨_, h4⟩
      simp only at h4
      omega
  unfold strobe
  by_cases h : writing (r n).state ∧ (r n).counterTime = 3
  · rw [if_pos h, if_pos (hedge.mpr h)]
  · rw [if_neg h, if_neg (fun h' => h (hedge.mp h'))]

/-- The word strobed by the edge that leads from the registers `r` to the pins `p`. -/
def strobeNext (r : Regs) (p : Pins) : List Strobe :=
  if writing r.state ∧ r.counterTime = 3 then [(p.dcx, p.d)] else []

theorem strobeNext_none {r : Regs} {p : Pins} (h : ¬ (writing r.state ∧ r.counterTime = 3)) :
    strobeNext r p = [] := if_neg h

theorem strobeNext_some {r : Regs} {p : Pins} (hw : writing r.state = true)
    (ht : r.counterTime = 3) : strobeNext r p = [(p.dcx, p.d)] := if_pos ⟨hw, ht⟩

/-- The words strobed are those of the single edges. -/
theorem strobe_toList (hr : ∀ n, r (n + 1) = clock (r n) (i n)) (n : Nat) :
    (strobe (fun k => pins (r k) (i k)) (n + 1)).toList =
      strobeNext (r n) (pins (r (n + 1)) (i (n + 1))) := by
  rw [strobe_eq hr]
  unfold strobeNext
  split <;> rfl

end Stream

end CameraLcd.LcdControl
