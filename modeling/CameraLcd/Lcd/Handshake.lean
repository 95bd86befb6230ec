import CameraLcd.Lcd.Slave
import CameraLcd.Lcd.Control

/-!
# `LCD_Write_Command` and `LCD_Write_Data` against the controller

One CPU runs the two functions of `LCD_function.c` in any order: each polls
`RegStateCommandData` until it reads 0, writes `RegCommandData` and then writes the request, 1
or 2, to `RegStateCommandData`.  Any number of cycles may pass before each access.

* `At` — where a request stands, from the CPU's write to the return to `Init`; the request is
  in the register for all of it but the last two cycles of `End_Command_Data`.
* `rest_step`, `requested_step`, … — one edge in each of these stages.
* `exactlyOnce` — the words strobed on the LCD bus are the words of the calls, each once and in
  order; a request is strobed seven cycles after its write and before the register reads 0
  again, and no write of a request meets `Done_Command_Data`.
-/

set_option autoImplicit false

namespace CameraLcd.Handshake

open Clocked
open LcdControl (Strobe pins writing)

/-! ## The driver -/

/-- A call of the driver with its argument `Command_Data`. -/
inductive Call where
  | command (commandData : BitVec 32)
  | data (commandData : BitVec 32)
  deriving DecidableEq, Repr

/-- The value written to `REGCOMMANDDATA`. -/
def Call.value : Call → BitVec 32
  | .command c => c
  | .data d => d

/-- The value written to `REGSTATECOMMANDDATA`. -/
def Call.code : Call → BitVec 32
  | .command _ => 0x00000001
  | .data _ => 0x00000002

/-- `D_CX` and `D` of the write cycle asked for. -/
def Call.strobe : Call → Strobe
  | .command c => (false, c.setWidth 16)
  | .data d => (true, d.setWidth 16)

/-- The next access of `LCD_Write_Command` or `LCD_Write_Data`. -/
inductive Pc where
  /-- `Check = IORD_32DIRECT(LCD_0_BASE, REGSTATECOMMANDDATA)`. -/
  | check
  /-- `IOWR_32DIRECT(LCD_0_BASE, REGCOMMANDDATA, Command_Data)`. -/
  | writeCommandData
  /-- `IOWR_32DIRECT(LCD_0_BASE, REGSTATECOMMANDDATA, …)`. -/
  | writeState
  deriving DecidableEq, Repr

/-- The CPU: the call it is in and where. -/
structure Cpu where
  next : Nat
  pc : Pc
  deriving DecidableEq, Repr

/-- The access of a cycle in which the CPU makes one (`go`).  The registers are the words 0 and
1 of the slave: `REGCOMMANDDATA` is 0, `REGSTATECOMMANDDATA` is 4. -/
def access (calls : Nat → Call) (cpu : Cpu) (go : Bool) : LcdSlave.Access :=
  if go then
    match cpu.pc with
    | .check => LcdSlave.readAccess 1
    | .writeCommandData => LcdSlave.writeAccess 0 (calls cpu.next).value
    | .writeState => LcdSlave.writeAccess 1 (calls cpu.next).code
  else LcdSlave.noAccess

/-- The CPU after a cycle; `readData` is what a read in that cycle returns. -/
def cpuClock (cpu : Cpu) (go : Bool) (readData : BitVec 32) : Cpu :=
  if go then
    match cpu.pc with
    | .check => if readData = 0 then { cpu with pc := .writeCommandData } else cpu
    | .writeCommandData => { cpu with pc := .writeState }
    | .writeState => ⟨cpu.next + 1, .check⟩
  else cpu

/-! ## The composition -/

/-- The CPU, `Slave_Interface` and `LCD_Control`. -/
structure Regs where
  cpu : Cpu
  slave : LcdSlave.Regs
  control : LcdControl.Regs
  deriving DecidableEq, Repr

/-- The cycles in which the CPU makes its accesses, and the other inputs of both entities. -/
structure Inputs where
  go : Bool
  bufferSaved : BitVec 2
  displayBuffer : BitVec 2
  readFifoData : BitVec 16
  emptyFifo : Bool
  masterReady : Bool
  masterWaiting : Bool

/-- The input ports of `LCD_Control`. -/
def controlInputs (s : Regs) (i : Inputs) : LcdControl.Inputs where
  readFifoData := i.readFifoData
  emptyFifo := i.emptyFifo
  masterReady := i.masterReady
  masterWaiting := i.masterWaiting
  commandData := s.slave.commandData
  stateCommandData := s.slave.stateCommandData

section Composition

variable (calls : Nat → Call)

/-- The input ports of `Slave_Interface`. -/
def slaveInputs (s : Regs) (i : Inputs) : LcdSlave.Inputs where
  avs := access calls s.cpu i.go
  bufferSaved := i.bufferSaved
  displayBuffer := i.displayBuffer
  doneCommandData := LcdControl.doneCommandData s.control

/-- One clock edge. -/
def step (s : Regs) (i : Inputs) : Regs where
  cpu := cpuClock s.cpu i.go (LcdSlave.clock s.slave (slaveInputs calls s i)).avsReadData
  slave := LcdSlave.clock s.slave (slaveInputs calls s i)
  control := LcdControl.clock s.control (controlInputs s i)

/-- All three from reset on. -/
def machine (avsReadData : BitVec 32) : Machine Regs Inputs where
  init := ⟨⟨0, .check⟩, LcdSlave.reset avsReadData, LcdControl.reset⟩
  step := step calls

/-- The words of the first `k` calls. -/
def words (k : Nat) : List Strobe := (List.range k).map (fun j => (calls j).strobe)

theorem words_succ (k : Nat) : words calls (k + 1) = words calls k ++ [(calls k).strobe] := by
  simp [words, List.range_succ]

variable (avsReadData : BitVec 32) (inp : Nat → Inputs)

/-- The CPU and the entities in cycle `n`. -/
abbrev regs (n : Nat) : Regs := (machine calls avsReadData).run inp n

/-- The pins of the LCD in cycle `n`. -/
def pinsAt (n : Nat) : LcdControl.Pins :=
  pins (regs calls avsReadData inp n).control
    (controlInputs (regs calls avsReadData inp n) (inp n))

/-- The words strobed up to cycle `n`. -/
def strobed (n : Nat) : List Strobe :=
  collect (LcdControl.strobe (pinsAt calls avsReadData inp)) 0 (n + 1)

/-- The CPU writes a request in cycle `n`. -/
def Requests (n : Nat) : Prop :=
  (inp n).go = true ∧ (regs calls avsReadData inp n).cpu.pc = .writeState

/-- **Exactly once**, in cycle `n`. -/
structure ExactlyOnce (n : Nat) : Prop where
  /-- What has been strobed are the first calls, up to the last one requested or the one
  before. -/
  inOrder : ∃ m, strobed calls avsReadData inp n = words calls m ∧
    m ≤ (regs calls avsReadData inp n).cpu.next ∧ (regs calls avsReadData inp n).cpu.next ≤ m + 1
  /-- When the register reads 0 every request has been strobed. -/
  beforeZero : (regs calls avsReadData inp n).slave.regStateCommandData = 0 →
    strobed calls avsReadData inp n = words calls (regs calls avsReadData inp n).cpu.next
  /-- A request is in the register after its write. -/
  notErased : Requests calls avsReadData inp n →
    LcdControl.doneCommandData (regs calls avsReadData inp n).control = false ∧
      (regs calls avsReadData inp (n + 1)).slave.regStateCommandData =
        (calls (regs calls avsReadData inp n).cpu.next).code.setWidth 2
  /-- Its word is strobed seven cycles later. -/
  sent : Requests calls avsReadData inp n →
    strobed calls avsReadData inp (n + 7) =
      words calls ((regs calls avsReadData inp n).cpu.next + 1)

end Composition

/-! ## The stages of a request -/

/-- Where the request in progress stands. -/
inductive Stage where
  | rest
  | requested
  | seen
  | writing (t : Nat)
  | checking
  | done1
  | done2
  | done3
  deriving DecidableEq, Repr

/-- The state of `LCD_Control` that serves a call. -/
def Call.state : Call → LcdControl.State
  | .command _ => .command
  | .data _ => .data

section Stages

variable (calls : Nat → Call)

/-- Request `k` is in the registers of the slave and the CPU is polling for the next one. -/
structure Pending (k : Nat) (s : Regs) : Prop where
  cpu : s.cpu = ⟨k + 1, .check⟩
  state : s.slave.regStateCommandData = (calls k).code.setWidth 2
  data : s.slave.regCommandData = (calls k).value.setWidth 16

/-- `LCD_Control` sees request `k`. -/
structure Visible (k : Nat) (s : Regs) : Prop where
  pending : Pending calls k s
  state : s.slave.stateCommandData = (calls k).code.setWidth 2
  data : s.slave.commandData = (calls k).value.setWidth 16

/-- Calls `0, …, k - 1` are served, `k` is at the given stage, and `sent` has been strobed. -/
inductive At (k : Nat) (sent : List Strobe) (s : Regs) : Stage → Prop where
  /-- No request: the CPU is anywhere in call `k`. -/
  | rest (hnext : s.cpu.next = k) (hsent : sent = words calls k)
      (hreg : s.slave.regStateCommandData = 0) (hstate : s.slave.stateCommandData = 0)
      (hctl : s.control.state = .init)
      (hdata : s.cpu.pc = .writeState →
        s.slave.regCommandData = (calls k).value.setWidth 16) : At k sent s .rest
  | requested (hp : Pending calls k s) (hsent : sent = words calls k)
      (hstate : s.slave.stateCommandData = 0) (hctl : s.control.state = .init) :
      At k sent s .requested
  | seen (hv : Visible calls k s) (hsent : sent = words calls k)
      (hctl : s.control.state = .init) : At k sent s .seen
  /-- The write cycle; the word is strobed at time 4. -/
  | writing (t : Nat) (ht : t ≤ 8) (hv : Visible calls k s)
      (hsent : sent = words calls (if t < 4 then k else k + 1))
      (hctl : s.control.state = (calls k).state) (htime : s.control.counterTime = t) :
      At k sent s (.writing t)
  | checking (hv : Visible calls k s) (hsent : sent = words calls (k + 1))
      (hctl : s.control.state = .checkCommand) (hcmd : ∃ c, calls k = .command c) :
      At k sent s .checking
  /-- `End_Command_Data`: the request is cleared by the next edge. -/
  | done1 (hv : Visible calls k s) (hsent : sent = words calls (k + 1))
      (hctl : s.control.state = .endCommandData) : At k sent s .done1
  /-- The register reads 0, `State_Command_Data` does not yet. -/
  | done2 (hcpu : s.cpu = ⟨k + 1, .check⟩) (hsent : sent = words calls (k + 1))
      (hreg : s.slave.regStateCommandData = 0)
      (hctl : s.control.state = .endCommandData)
      (hstate : s.slave.stateCommandData ≠ 0) : At k sent s .done2
  /-- The last cycle of `Done_Command_Data`: the CPU can be no further than its first write. -/
  | done3 (hnext : s.cpu.next = k + 1) (hpc : s.cpu.pc ≠ .writeState)
      (hsent : sent = words calls (k + 1)) (hreg : s.slave.regStateCommandData = 0)
      (hstate : s.slave.stateCommandData = 0)
      (hctl : s.control.state = .endCommandData) : At k sent s .done3

variable {calls} {k : Nat} {sent : List Strobe} {s : Regs}

theorem Call.code_ne_zero (c : Call) : c.code.setWidth 2 ≠ (0 : BitVec 2) := by
  cases c <;> simp [Call.code]

theorem Call.writing_state (c : Call) : writing c.state = true := by
  cases c <;> rfl

/-- The word strobed with the edge into the next cycle. -/
def strobeNext (calls : Nat → Call) (s : Regs) (i i' : Inputs) : List Strobe :=
  LcdControl.strobeNext s.control
    (pins (step calls s i).control (controlInputs (step calls s i) i'))

theorem strobeNext_none {i i' : Inputs}
    (h : ¬ (writing s.control.state ∧ s.control.counterTime = 3)) :
    strobeNext calls s i i' = [] := LcdControl.strobeNext_none h

/-! ## One edge -/

/-- A CPU that polls a register that is not 0 keeps polling, and writes nothing. -/
theorem polling_step (calls : Nat → Call) {m : Nat} (i : Inputs) (hcpu : s.cpu = ⟨m, .check⟩) :
    (s.slave.regStateCommandData ≠ 0 → (step calls s i).cpu = ⟨m, .check⟩) ∧
      (step calls s i).cpu.next = m ∧ (step calls s i).cpu.pc ≠ .writeState ∧
      (step calls s i).slave.regCommandData = s.slave.regCommandData ∧
      (step calls s i).slave.regStateCommandData =
        if LcdControl.doneCommandData s.control then 0 else s.slave.regStateCommandData := by
  cases hgo : i.go with
  | false =>
    simp [step, cpuClock, hgo, LcdSlave.clock, slaveInputs, access, hcpu]
  | true =>
    have hread : (LcdSlave.clock s.slave (slaveInputs calls s i)).avsReadData =
        s.slave.regStateCommandData.setWidth 32 := by
      simp [LcdSlave.clock, slaveInputs, access, hgo, hcpu, LcdSlave.readValue,
        LcdSlave.readAccess]
    have hcpu' : (step calls s i).cpu =
        if s.slave.regStateCommandData = 0 then ⟨m, .writeCommandData⟩ else ⟨m, .check⟩ := by
      simp only [step, cpuClock, hread, hgo, if_true, hcpu, LcdSlave.readState_eq_zero]
    refine ⟨fun h => by rw [hcpu', if_neg h], ?_, ?_, ?_, ?_⟩
    · rw [hcpu']
      split <;> rfl
    · rw [hcpu']
      split <;> simp
    · simp [step, LcdSlave.clock, slaveInputs, access, hgo, hcpu]
    · simp [step, LcdSlave.clock, slaveInputs, access, hgo, hcpu]

/-- Outside `End_Command_Data` a pending request stays and becomes visible. -/
theorem Pending.step (i : Inputs) (h : Pending calls k s)
    (hd : s.control.state ≠ .endCommandData) : Visible calls k (step calls s i) := by
  obtain ⟨hcpu, _, _, hdata, hreg⟩ := polling_step calls i h.cpu
  have hne : s.slave.regStateCommandData ≠ 0 := by
    rw [h.state]
    exact (calls k).code_ne_zero
  have hdone : LcdControl.doneCommandData s.control = false := by
    simp [LcdControl.doneCommandData, hd]
  rw [hdone] at hreg
  exact ⟨⟨hcpu hne, by rw [hreg]; exact h.state, by rw [hdata]; exact h.data⟩, h.state, h.data⟩

/-- At rest the edge either writes the request or leaves the controller at rest. -/
theorem rest_step (i i' : Inputs) (h : At calls k sent s .rest) :
    strobeNext calls s i i' = [] ∧
      (i.go = true → s.cpu.pc = .writeState → At calls k sent (step calls s i) .requested) ∧
      (¬ (i.go = true ∧ s.cpu.pc = .writeState) → At calls k sent (step calls s i) .rest) := by
  cases h with
  | rest hnext hsent hreg hstate hctl hdata =>
    have hdone : LcdControl.doneCommandData s.control = false := by
      simp [LcdControl.doneCommandData, hctl]
    have hctl' : (step calls s i).control.state = .init := by
      simp [step, LcdControl.clock, LcdControl.nextState, hctl, controlInputs, hstate]
    have hstate' : (step calls s i).slave.stateCommandData = 0 := hreg
    refine ⟨strobeNext_none (by simp [hctl, writing]), fun hgo hpc => ?_, fun hno => ?_⟩
    · refine .requested ⟨?_, ?_, ?_⟩ hsent hstate' hctl'
      · simp [step, cpuClock, hgo, hpc, hnext]
      · simp [step, LcdSlave.clock, slaveInputs, access, hgo, hpc, hdone, hnext]
      · simpa [step, LcdSlave.clock, slaveInputs, access, hgo, hpc] using hdata hpc
    · have hnext' : (step calls s i).cpu.next = k ∧
          (step calls s i).slave.regStateCommandData = 0 := by
        cases hgo : i.go with
        | false =>
          simp [step, cpuClock, LcdSlave.clock, slaveInputs, access, hgo, hdone, hnext, hreg]
        | true =>
          cases hpc : s.cpu.pc with
          | writeState => exact absurd ⟨hgo, hpc⟩ hno
          | check =>
            have hp := polling_step calls i (m := k)
              (by cases hc : s.cpu; simp_all)
            rw [hdone] at hp
            exact ⟨hp.2.1, by simpa [hreg] using hp.2.2.2.2⟩
          | writeCommandData =>
            simp [step, cpuClock, LcdSlave.clock, slaveInputs, access, hgo, hdone, hnext, hreg, hpc]
      refine .rest hnext'.1 hsent hnext'.2 hstate' hctl' fun hpc' => ?_
      cases hgo : i.go with
      | false =>
        have hpc : s.cpu.pc = .writeState := by simpa [step, cpuClock, hgo] using hpc'
        simpa [step, LcdSlave.clock, slaveInputs, access, hgo] using hdata hpc
      | true =>
        cases hpc : s.cpu.pc with
        | writeState => exact absurd ⟨hgo, hpc⟩ hno
        | check =>
          have hp := polling_step calls i (m := k)
            (by cases hc : s.cpu; simp_all)
          exact absurd hpc' hp.2.2.1
        | writeCommandData =>
          simp [step, LcdSlave.clock, slaveInputs, access, hgo, hpc, hnext]

theorem requested_step (i i' : Inputs) (h : At calls k sent s .requested) :
    strobeNext calls s i i' = [] ∧ At calls k sent (step calls s i) .seen := by
  cases h with
  | requested hp hsent hstate hctl =>
    refine ⟨strobeNext_none (by simp [hctl, writing]), ?_⟩
    refine .seen (hp.step i (by simp [hctl])) hsent ?_
    simp [step, LcdControl.clock, LcdControl.nextState, hctl, controlInputs, hstate]

theorem seen_step (i i' : Inputs) (h : At calls k sent s .seen) :
    strobeNext calls s i i' = [] ∧ At calls k sent (step calls s i) (.writing 0) := by
  cases h with
  | seen hv hsent hctl =>
    refine ⟨strobeNext_none (by simp [hctl, writing]), ?_⟩
    refine .writing 0 (by omega) (hv.pending.step i (by simp [hctl])) hsent ?_ ?_
    · cases hc : calls k <;>
        simp [step, LcdControl.clock, LcdControl.nextState, hctl, controlInputs, hv.state, hc,
          Call.code, Call.state]
    · simp [step, LcdControl.clock, LcdControl.nextTime, hctl]

/-- The pins while a call is served. -/
theorem pins_serving (i : Inputs) (hv : Visible calls k s)
    (hctl : s.control.state = (calls k).state) (ht : s.control.counterTime = 4) :
    ((pins s.control (controlInputs s i)).dcx, (pins s.control (controlInputs s i)).d) =
      (calls k).strobe := by
  have hd := hv.data
  cases hc : calls k <;> simp only [hc, Call.state, Call.value] at hctl hd <;>
    simp [pins, hctl, LcdControl.writePins, ht, controlInputs, hd, Call.strobe]

/-- In a write cycle time advances; the edge to time 4 strobes the word. -/
theorem writing_step {t : Nat} (i i' : Inputs) (ht8 : t < 8) (h : At calls k sent s (.writing t)) :
    At calls k (sent ++ strobeNext calls s i i') (step calls s i) (.writing (t + 1)) := by
  cases h with
  | writing _ ht hv hsent hctl htime =>
    have hw : writing s.control.state = true := by
      rw [hctl]
      exact (calls k).writing_state
    have hclock : (step calls s i).control = { s.control with counterTime := t + 1 } := by
      show LcdControl.clock s.control _ = _
      rw [LcdControl.clock_writing _ hw (by omega), htime]
    have hne : s.control.state ≠ .endCommandData := by
      intro he
      simp [he, writing] at hw
    have hv' := hv.pending.step i hne
    have hctl' : (step calls s i).control.state = (calls k).state := by rw [hclock]; exact hctl
    have htime' : (step calls s i).control.counterTime = t + 1 := by rw [hclock]
    refine .writing (t + 1) (by omega) hv' ?_ hctl' htime'
    by_cases h3 : t = 3
    · subst h3
      rw [strobeNext, LcdControl.strobeNext_some hw htime, pins_serving i' hv' hctl' htime', hsent]
      exact (words_succ calls k).symm
    · rw [strobeNext_none (by rintro ⟨_, h⟩; omega), List.append_nil, hsent]
      have hiff : (t < 4) = (t + 1 < 4) := by
        apply propext
        omega
      simp only [hiff]

/-- The write cycle ends in `Check_Command` for a command, else in `End_Command_Data`. -/
theorem writing_end (i i' : Inputs) (h : At calls k sent s (.writing 8)) :
    strobeNext calls s i i' = [] ∧ (At calls k sent (step calls s i) .checking ∨
      At calls k sent (step calls s i) .done1) := by
  cases h with
  | writing _ ht hv hsent hctl htime =>
    have hne : s.control.state ≠ .endCommandData := by
      rw [hctl]
      cases calls k <;> simp [Call.state]
    have hv' := hv.pending.step i hne
    refine ⟨strobeNext_none (by rintro ⟨_, h⟩; omega), ?_⟩
    cases hc : calls k with
    | command c =>
      left
      refine .checking hv' hsent ?_ ⟨c, hc⟩
      rw [hc] at hctl
      simp [step, LcdControl.clock, LcdControl.nextState, hctl, Call.state, LcdControl.doneTask,
        htime, writing]
    | data d =>
      right
      refine .done1 hv' hsent ?_
      rw [hc] at hctl
      simp [step, LcdControl.clock, LcdControl.nextState, hctl, Call.state, LcdControl.doneTask,
        htime, writing]

/-- A command other than a memory write is done after `Check_Command`. -/
theorem checking_step (i i' : Inputs) (h : At calls k sent s .checking)
    (hcalls : ∀ j c, calls j = .command c → c.extractLsb' 0 8 ≠ 0x2C) :
    strobeNext calls s i i' = [] ∧ At calls k sent (step calls s i) .done1 := by
  cases h with
  | checking hv hsent hctl hcmd =>
    obtain ⟨c, hc⟩ := hcmd
    refine ⟨strobeNext_none (by simp [hctl, writing]), ?_⟩
    refine .done1 (hv.pending.step i (by simp [hctl])) hsent ?_
    have hlow : LcdControl.memoryWrite s.slave.commandData = false := by
      have hd := hv.data
      rw [hc] at hd
      rw [LcdControl.memoryWrite, hd, beq_eq_false_iff_ne]
      have heq : (BitVec.setWidth 16 c).extractLsb' 0 8 = c.extractLsb' 0 8 := by
        ext j hj
        simp
        omega
      simpa [Call.value, heq] using hcalls k c hc
    simp [step, LcdControl.clock, LcdControl.nextState, hctl, controlInputs, hlow]

theorem done1_step (i i' : Inputs) (h : At calls k sent s .done1) :
    strobeNext calls s i i' = [] ∧ At calls k sent (step calls s i) .done2 := by
  cases h with
  | done1 hv hsent hctl =>
    obtain ⟨hcpu, _, _, _, hreg⟩ := polling_step calls i hv.pending.cpu
    have hne : s.slave.regStateCommandData ≠ 0 := by
      rw [hv.pending.state]
      exact (calls k).code_ne_zero
    refine ⟨strobeNext_none (by simp [hctl, writing]), ?_⟩
    refine .done2 (hcpu hne) hsent (by simpa [LcdControl.doneCommandData, hctl] using hreg) ?_ hne
    have hsd : s.slave.stateCommandData ≠ 0 := by
      rw [hv.state]
      exact (calls k).code_ne_zero
    simp only [step, LcdControl.clock, LcdControl.nextState, hctl, controlInputs]
    exact if_neg hsd

theorem done2_step (i i' : Inputs) (h : At calls k sent s .done2) :
    strobeNext calls s i i' = [] ∧ At calls k sent (step calls s i) .done3 := by
  cases h with
  | done2 hcpu hsent hreg hctl hstate =>
    obtain ⟨_, hnext, hpc, _, hreg'⟩ := polling_step calls i hcpu
    refine ⟨strobeNext_none (by simp [hctl, writing]), ?_⟩
    refine .done3 hnext hpc hsent (by simpa [LcdControl.doneCommandData, hctl] using hreg') hreg ?_
    simp only [step, LcdControl.clock, LcdControl.nextState, hctl, controlInputs]
    exact if_neg hstate

theorem done3_step (i i' : Inputs) (h : At calls k sent s .done3) :
    strobeNext calls s i i' = [] ∧ At calls (k + 1) sent (step calls s i) .rest := by
  cases h with
  | done3 hnext hpc hsent hreg hstate hctl =>
    refine ⟨strobeNext_none (by simp [hctl, writing]), ?_⟩
    refine .rest ?_ hsent ?_ hreg ?_ ?_
    · cases hgo : i.go <;> cases hc : s.cpu.pc <;> simp_all [step, cpuClock]
      split <;> simp [hnext]
    · simp [step, LcdSlave.clock, slaveInputs, LcdControl.doneCommandData, hctl]
    · simp [step, LcdControl.clock, LcdControl.nextState, hctl, controlInputs, hstate]
    · intro hpc'
      cases hgo : i.go <;> cases hc : s.cpu.pc <;>
        simp_all [step, cpuClock, LcdSlave.clock, slaveInputs, access]
      split at hpc' <;> simp_all

end Stages

/-! ## Runs -/

section Runs

variable {calls : Nat → Call} {rd : BitVec 32} {inp : Nat → Inputs}

theorem strobed_succ (n : Nat) : strobed calls rd inp (n + 1) =
    strobed calls rd inp n ++ strobeNext calls (regs calls rd inp n) (inp n) (inp (n + 1)) := by
  rw [strobed, collect_succ _ (by omega), ← strobed]
  congr 1
  exact LcdControl.strobe_toList (r := fun m => (regs calls rd inp m).control)
    (i := fun m => controlInputs (regs calls rd inp m) (inp m)) (fun _ => rfl) n

/-- Stage `st` of request `k` in cycle `n`. -/
abbrev AtCycle (calls : Nat → Call) (rd : BitVec 32) (inp : Nat → Inputs) (n k : Nat)
    (st : Stage) : Prop :=
  At calls k (strobed calls rd inp n) (regs calls rd inp n) st

/-- An edge without a strobe. -/
theorem atCycle_succ {n k : Nat} {st : Stage}
    (h : strobeNext calls (regs calls rd inp n) (inp n) (inp (n + 1)) = [] ∧
      At calls k (strobed calls rd inp n) (step calls (regs calls rd inp n) (inp n)) st) :
    AtCycle calls rd inp (n + 1) k st := by
  rw [AtCycle, strobed_succ, h.1, List.append_nil]
  exact h.2

/-- **Run lemma**: every cycle is at some stage of some request. -/
theorem inv_run (rd : BitVec 32) (inp : Nat → Inputs)
    (hcalls : ∀ j c, calls j = .command c → c.extractLsb' 0 8 ≠ 0x2C) (n : Nat) :
    ∃ k st, AtCycle calls rd inp n k st := by
  induction n with
  | zero =>
    refine ⟨0, .rest, .rest rfl ?_ rfl rfl rfl ?_⟩
    · rfl
    · intro h
      cases h
  | succ n ih =>
    obtain ⟨k, st, h⟩ := ih
    cases st with
    | rest =>
      obtain ⟨hnone, hreq, hrest⟩ := rest_step (inp n) (inp (n + 1)) h
      by_cases hg : (inp n).go = true ∧ (regs calls rd inp n).cpu.pc = .writeState
      · exact ⟨k, .requested, atCycle_succ ⟨hnone, hreq hg.1 hg.2⟩⟩
      · exact ⟨k, .rest, atCycle_succ ⟨hnone, hrest hg⟩⟩
    | requested => exact ⟨k, .seen, atCycle_succ (requested_step _ _ h)⟩
    | seen => exact ⟨k, .writing 0, atCycle_succ (seen_step _ _ h)⟩
    | writing t =>
      by_cases ht : t < 8
      · refine ⟨k, .writing (t + 1), ?_⟩
        rw [AtCycle, strobed_succ]
        exact writing_step _ _ ht h
      · have h8 : t = 8 := by
          cases h with
          | writing _ ht' => omega
        subst h8
        obtain ⟨hnone, hc | hd⟩ := writing_end (inp n) (inp (n + 1)) h
        · exact ⟨k, .checking, atCycle_succ ⟨hnone, hc⟩⟩
        · exact ⟨k, .done1, atCycle_succ ⟨hnone, hd⟩⟩
    | checking => exact ⟨k, .done1, atCycle_succ (checking_step _ _ h hcalls)⟩
    | done1 => exact ⟨k, .done2, atCycle_succ (done1_step _ _ h)⟩
    | done2 => exact ⟨k, .done3, atCycle_succ (done2_step _ _ h)⟩
    | done3 => exact ⟨k + 1, .rest, atCycle_succ (done3_step _ _ h)⟩

/-- A request is written at rest. -/
theorem atCycle_request {n k : Nat} {st : Stage} (hr : Requests calls rd inp n)
    (h : AtCycle calls rd inp n k st) : st = .rest ∧ (regs calls rd inp n).cpu.next = k := by
  obtain ⟨_, hpc⟩ := hr
  cases h with
  | rest hnext => exact ⟨rfl, hnext⟩
  | requested hp => simp [hp.cpu] at hpc
  | seen hv | writing _ _ hv | checking hv | done1 hv => simp [hv.pending.cpu] at hpc
  | done2 hcpu => simp [hcpu] at hpc
  | done3 _ hn => exact absurd hpc hn

/-- A request written in cycle `n` is at time 4 of its write cycle in cycle `n + 7`. -/
theorem served {n k : Nat} (hr : Requests calls rd inp n) (h : AtCycle calls rd inp n k .rest) :
    AtCycle calls rd inp (n + 7) k (.writing 4) := by
  obtain ⟨hnone, hreq, _⟩ := rest_step (inp n) (inp (n + 1)) h
  have h2 := atCycle_succ (requested_step _ (inp (n + 2)) (atCycle_succ ⟨hnone, hreq hr.1 hr.2⟩))
  have h3 := atCycle_succ (seen_step _ (inp (n + 3)) h2)
  have advance : ∀ m t, t < 8 → AtCycle calls rd inp m k (.writing t) →
      AtCycle calls rd inp (m + 1) k (.writing (t + 1)) := by
    intro m t ht hw
    rw [AtCycle, strobed_succ]
    exact writing_step _ _ ht hw
  exact advance (n + 6) 3 (by omega) (advance (n + 5) 2 (by omega) (advance (n + 4) 1 (by omega)
    (advance (n + 3) 0 (by omega) h3)))

end Runs

/-- **The handshake is exactly-once**: for every sequence of calls whose commands do not start a
memory write, every timing of the CPU's accesses and every behaviour of the other entities. -/
theorem exactlyOnce (calls : Nat → Call) (rd : BitVec 32) (inp : Nat → Inputs)
    (hcalls : ∀ j c, calls j = .command c → c.extractLsb' 0 8 ≠ 0x2C) (n : Nat) :
    ExactlyOnce calls rd inp n := by
  obtain ⟨k, st, h⟩ := inv_run rd inp hcalls n
  refine ⟨?_, fun hzero => ?_, fun hr => ?_, fun hr => ?_⟩
  · cases h with
    | rest hnext hsent => exact ⟨k, hsent, by omega, by omega⟩
    | requested hp hsent => exact ⟨k, hsent, by simp [hp.cpu], by simp [hp.cpu]⟩
    | seen hv hsent => exact ⟨k, hsent, by simp [hv.pending.cpu], by simp [hv.pending.cpu]⟩
    | writing t _ hv hsent =>
      refine ⟨_, hsent, ?_, ?_⟩ <;> rw [hv.pending.cpu] <;> split <;> simp
    | checking hv hsent | done1 hv hsent =>
      exact ⟨k + 1, hsent, by simp [hv.pending.cpu], by simp [hv.pending.cpu]⟩
    | done2 hcpu hsent => exact ⟨k + 1, hsent, by simp [hcpu], by simp [hcpu]⟩
    | done3 hnext _ hsent => exact ⟨k + 1, hsent, by omega, by omega⟩
  · have hpending : ¬ Pending calls k (regs calls rd inp n) :=
      fun hp => (calls k).code_ne_zero (hp.state.symm.trans hzero)
    cases h with
    | rest hnext hsent => rw [hsent, hnext]
    | requested hp => exact absurd hp hpending
    | seen hv | writing _ _ hv | checking hv | done1 hv => exact absurd hv.pending hpending
    | done2 hcpu hsent => rw [hsent, hcpu]
    | done3 hnext _ hsent => rw [hsent, hnext]
  · obtain ⟨rfl, hnext⟩ := atCycle_request hr h
    obtain ⟨_, hreq, _⟩ := rest_step (inp n) (inp (n + 1)) h
    have hat := hreq hr.1 hr.2
    cases h with
    | rest _ _ _ _ hctl =>
      refine ⟨by simp [LcdControl.doneCommandData, hctl], ?_⟩
      cases hat with
      | requested hp =>
        rw [hnext]
        exact hp.state
  · obtain ⟨rfl, hnext⟩ := atCycle_request hr h
    cases served hr h with
    | writing _ _ _ hsent =>
      rw [hsent, hnext]
      rfl

/-- A command, then data words. -/
def commandThenData (k : Nat) : Call := if k = 0 then .command 0x2A else .data (BitVec.ofNat 32 k)

/-- The CPU makes an access in every cycle. -/
def busy (_ : Nat) : Inputs := ⟨true, 0, 0, 0, false, false, false⟩

/-- The second request is written in the first cycle after `Done_Command_Data`. -/
theorem exactlyOnce_busy : Requests commandThenData 0 busy 2 ∧ Requests commandThenData 0 busy 18 ∧
    ExactlyOnce commandThenData 0 busy 18 := by
  have hcalls : ∀ j c, commandThenData j = .command c → c.extractLsb' 0 8 ≠ 0x2C := by
    intro j c hj
    by_cases h : j = 0
    · have hc : 0x2A = c := by simpa [commandThenData, h] using hj
      rw [← hc]
      decide
    · simp [commandThenData, h] at hj
  exact ⟨⟨rfl, by decide⟩, ⟨rfl, by decide⟩, exactlyOnce commandThenData 0 busy hcalls 18⟩

end CameraLcd.Handshake
