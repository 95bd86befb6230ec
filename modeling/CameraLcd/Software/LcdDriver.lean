import CameraLcd.Lcd.Handshake
import CameraLcd.Lcd.Entity
import CameraLcd.Lib.RegisterProgram

/-!
# `LCD_function.c`: the driver of the LCD, and what it runs on

* `writeCommand`, `writeData`, `display`, `lcdConfiguration` — the functions of `LCD_function.c` as
  programs of register accesses.
* `At` — how far the entity has got with a request; every edge takes it further.
* `Panel`, `protocol` — the entity as its software sees it: the words asked for, and whether
  `RegStateCommandData` was read as 0 since.
* `entity_simulates` — `Full_LCD_Entity` simulates that description; `entity_settles` — polling
  comes to an end.
-/

set_option autoImplicit false

namespace CameraLcd.LcdDriver

open Clocked RegisterProgram
open FullLcd (PixelFifo)
open Handshake (Call Stage)
open LcdControl (Strobe memoryWrite)

/-! ## The functions -/

/-- Code that accesses the registers at `LCD_0_BASE + 4 * n`. -/
abbrev Driver (α : Type) := Prog (BitVec 3) 32 α

/-- Poll `REGSTATECOMMANDDATA` for 0, then write the two registers. -/
def request (commandData state : BitVec 32) : Driver Unit :=
  .poll 1 0xFFFFFFFF (.write 0 commandData (.write 1 state (.ret ())))

/-- `LCD_Write_Command`. -/
def writeCommand (commandData : BitVec 32) : Driver Unit := request commandData 0x00000001

/-- `LCD_Write_Data`. -/
def writeData (commandData : BitVec 32) : Driver Unit := request commandData 0x00000002

/-- `LCD_Display`. -/
def display : Driver Unit := request 0x0000002C 0x00000003

/-- A register is written and read back for `alt_printf`. -/
def writeShown (address : BitVec 3) (data : BitVec 32) : Driver (BitVec 32) :=
  .write address data (.read address .ret)

def Call.run : Call → Driver Unit
  | .command commandData => writeCommand commandData
  | .data commandData => writeData commandData

/-- Calls one after another. -/
def runCalls : List Call → Driver Unit
  | [] => return ()
  | c :: cs => do
    Call.run c
    runCalls cs

/-- `LCD_Configuration` for any start address, any length of a buffer and any commands.  Its delays
and `Fill_Memory_RGBG`, which is about the memory alone, pass between two accesses. -/
def configuration (startAdd lengthBuffer : BitVec 32) (calls : List Call) : Driver Unit := do
  let _ ← writeShown 2 startAdd
  let _ ← writeShown 3 lengthBuffer
  let _ ← writeShown 1 0
  let _ ← writeShown 0 0
  runCalls calls
  display

/-- The commands of `LCD_Configuration` and their parameters. -/
def settings : List (BitVec 32 × List (BitVec 32)) :=
  [(0x01, []), (0x00, []), (0x01, []), (0x11, []),
    (0xCF, [0x00, 0x81, 0xC0]),
    (0xED, [0x64, 0x03, 0x12, 0x81]),
    (0xE8, [0x85, 0x01, 0x798]),
    (0xCB, [0x39, 0x2C, 0x00, 0x34, 0x02]),
    (0xF7, [0x20]),
    (0xEA, [0x00, 0x00]),
    (0xB1, [0x00, 0x1B]),
    (0xB6, [0x0A, 0xA2]),
    (0xC0, [0x05]),
    (0xC1, [0x11]),
    (0xC5, [0x45, 0x45]),
    (0xC7, [0xA2]),
    (0x36, [0xE8]),
    (0xF2, [0x00]),
    (0x26, [0x01]),
    (0xE0, [0x0F, 0x26, 0x24, 0x0B, 0x0E, 0x08, 0x4B, 0xA8, 0x3B, 0x0A, 0x14, 0x06, 0x10, 0x09,
      0x00]),
    (0xE1, [0x00, 0x1C, 0x20, 0x04, 0x10, 0x08, 0x34, 0x47, 0x44, 0x05, 0x0B, 0x09, 0x2F, 0x36,
      0x0F]),
    (0x2A, [0x00, 0x00, 0x01, 0x3F]),
    (0x2B, [0x00, 0x00, 0x00, 0xEF]),
    (0x3A, [0x55]),
    (0xF6, [0x01, 0x30, 0x00]),
    (0x29, [])]

def settingCalls : List Call := settings.flatMap fun s => .command s.1 :: s.2.map .data

/-- `LCD_Configuration`, with `HPS_0_BRIDGES_BASE` and `LENGTHBUFFER`. -/
def lcdConfiguration : Driver Unit := configuration 0x0 (160 * 240 * 4) settingCalls

/-! ## The hardware -/

/-- What else the entity sees in a cycle. -/
structure Env where
  bufferSaved : BitVec 2
  avmWaitRequest : Bool
  beat : Bool
  memory : BitVec 32 → BitVec 32

/-- The Avalon signals of an access. -/
def avalon : RegisterProgram.Access (BitVec 3) (BitVec 32) → LcdSlave.Access
  | .none => LcdSlave.noAccess
  | .read address => LcdSlave.readAccess address
  | .write address data => LcdSlave.writeAccess address data

def entityInputs (a : LcdSlave.Access) (e : Env) : LcdEntity.Inputs :=
  ⟨a, e.bufferSaved, e.avmWaitRequest, e.beat, e.memory⟩

/-- The word strobed by the next edge in `Command` or `Data`. -/
def wordNext {F : PixelFifo} (s : LcdEntity.Regs F) : List Strobe :=
  if (s.lcd.control.state = .command ∨ s.lcd.control.state = .data) ∧
      s.lcd.control.counterTime = 3 then
    [(s.lcd.control.state == .data, s.slave.regCommandData)]
  else []

/-- `Full_LCD_Entity`, with a record of the words strobed in `Command` and `Data`. -/
def entity (F : PixelFifo) : Peripheral (BitVec 3) 32 (LcdEntity.Regs F × List Strobe) Env where
  step h a e := (LcdEntity.step h.1 (entityInputs (avalon a) e), h.2 ++ wordNext h.1)
  readdata h := h.1.slave.avsReadData

/-! ## A request on its way -/

/-- A command that is no memory write, or data. -/
def Plain (c : Call) : Prop := ∀ d, c = .command d → memoryWrite (d.setWidth 16) = false

instance : DecidablePred Plain
  | .command d => decidable_of_iff (memoryWrite (d.setWidth 16) = false)
      ⟨fun h _ he => by cases he; exact h, fun h => h d rfl⟩
  | .data _ => isTrue fun _ he => by cases he

section Stages

variable {F : PixelFifo}

/-- A request is in the registers of the CPU. -/
structure Pending (c : Call) (r : LcdSlave.Regs) : Prop where
  plain : Plain c
  state : r.regStateCommandData = c.code.setWidth 2
  data : r.regCommandData = c.value.setWidth 16

/-- `LCD_Control` sees it. -/
structure Visible (c : Call) (r : LcdSlave.Regs) : Prop where
  pending : Pending c r
  state : r.stateCommandData = c.code.setWidth 2
  data : r.commandData = c.value.setWidth 16

/-- The entity with the words `ws` asked for and the words `log` strobed. -/
inductive At (ws log : List Strobe) (s : LcdEntity.Regs F) : Stage → Prop where
  | rest (hlog : log = ws) (hreg : s.slave.regStateCommandData = 0)
      (hstate : s.slave.stateCommandData = 0) (hctl : s.lcd.control.state = .init) :
      At ws log s .rest
  | requested (c : Call) (hp : Pending c s.slave) (hlog : log ++ [c.strobe] = ws)
      (hstate : s.slave.stateCommandData = 0) (hctl : s.lcd.control.state = .init) :
      At ws log s .requested
  | seen (c : Call) (hv : Visible c s.slave) (hlog : log ++ [c.strobe] = ws)
      (hctl : s.lcd.control.state = .init) : At ws log s .seen
  /-- The write cycle; the word is strobed at time 4. -/
  | writing (c : Call) (t : Nat) (ht : t ≤ 8) (hv : Visible c s.slave)
      (hlog : log ++ (if t < 4 then [c.strobe] else []) = ws)
      (hctl : s.lcd.control.state = c.state) (htime : s.lcd.control.counterTime = t) :
      At ws log s (.writing t)
  | checking (c : Call) (hv : Visible c s.slave) (hlog : log = ws)
      (hcmd : memoryWrite (c.value.setWidth 16) = false)
      (hctl : s.lcd.control.state = .checkCommand) : At ws log s .checking
  /-- The request is cleared by the next edge. -/
  | done1 (c : Call) (hv : Visible c s.slave) (hlog : log = ws)
      (hctl : s.lcd.control.state = .endCommandData) : At ws log s .done1
  /-- The register reads 0, `State_Command_Data` does not yet. -/
  | done2 (hlog : log = ws) (hreg : s.slave.regStateCommandData = 0)
      (hctl : s.lcd.control.state = .endCommandData)
      (hstate : s.slave.stateCommandData ≠ 0) : At ws log s .done2
  /-- The last cycle of `Done_Command_Data`. -/
  | done3 (hlog : log = ws) (hreg : s.slave.regStateCommandData = 0)
      (hctl : s.lcd.control.state = .endCommandData)
      (hstate : s.slave.stateCommandData = 0) : At ws log s .done3

/-- The edges up to `rest`. -/
def rank : Stage → Nat
  | .rest => 0
  | .done3 => 1
  | .done2 => 2
  | .done1 => 3
  | .checking => 4
  | .writing t => 13 - t
  | .seen => 14
  | .requested => 15

variable {ws log : List Strobe} {s : LcdEntity.Regs F} {i : LcdEntity.Inputs}

theorem control_succ (s : LcdEntity.Regs F) (i : LcdEntity.Inputs) :
    (LcdEntity.step s i).lcd.control =
      LcdControl.clock s.lcd.control (FullLcd.controlInputs s.lcd (LcdEntity.lcdInputs s i)) := rfl

/-- Without a request the controller rests. -/
theorem init_rests (hctl : s.lcd.control.state = .init) (hstate : s.slave.stateCommandData = 0) :
    (LcdEntity.step s i).lcd.control.state = .init := by
  rw [control_succ, LcdControl.clock_init hctl]
  simp [FullLcd.controlInputs, LcdEntity.lcdInputs, hstate]

/-- A display begins with a command. -/
theorem init_shows (hctl : s.lcd.control.state = .init) (hstate : s.slave.stateCommandData = 3) :
    (LcdEntity.step s i).lcd.control.state = .command ∧
      (LcdEntity.step s i).lcd.control.counterTime = 0 := by
  rw [control_succ, LcdControl.clock_init hctl]
  simp [FullLcd.controlInputs, LcdEntity.lcdInputs, hstate]

/-- The registers after an access that does not write `RegCommandData`. -/
theorem slave_keep (h0 : LcdSlave.writes i.avs 0 = false) :
    (LcdEntity.step s i).slave.regCommandData = s.slave.regCommandData := by
  show (if LcdSlave.writes i.avs 0 then _ else _) = _
  rw [h0]
  rfl

/-- `RegStateCommandData` after an access that does not write it. -/
theorem slave_state (h1 : LcdSlave.writes i.avs 1 = false) :
    (LcdEntity.step s i).slave.regStateCommandData =
      if s.lcd.control.state = .endCommandData then 0 else s.slave.regStateCommandData := by
  show (if LcdControl.doneCommandData s.lcd.control then 0 else
    if LcdSlave.writes i.avs 1 then _ else _) = _
  rw [h1]
  simp [LcdControl.doneCommandData]

theorem Pending.keep {c : Call} (h : Pending c s.slave)
    (h0 : LcdSlave.writes i.avs 0 = false) (h1 : LcdSlave.writes i.avs 1 = false)
    (hctl : s.lcd.control.state ≠ .endCommandData) :
    Pending c (LcdEntity.step s i).slave := by
  refine ⟨h.plain, ?_, ?_⟩
  · rw [slave_state h1, if_neg hctl]
    exact h.state
  · rw [slave_keep h0]
    exact h.data

/-- A pending request is visible one edge later. -/
theorem Pending.visible {c : Call} (h : Pending c s.slave)
    (h0 : LcdSlave.writes i.avs 0 = false) (h1 : LcdSlave.writes i.avs 1 = false)
    (hctl : s.lcd.control.state ≠ .endCommandData) :
    Visible c (LcdEntity.step s i).slave :=
  ⟨h.keep h0 h1 hctl, h.state, h.data⟩

theorem wordNext_nil (h : ¬ ((s.lcd.control.state = .command ∨ s.lcd.control.state = .data) ∧
    s.lcd.control.counterTime = 3)) : log ++ wordNext s = log := by
  rw [wordNext, if_neg h, List.append_nil]

theorem Call.state_cases (c : Call) : c.state = .command ∨ c.state = .data := by
  cases c with
  | command => exact .inl rfl
  | data => exact .inr rfl

/-- A visible request is strobed by the edge of time 3. -/
theorem wordNext_visible {c : Call} (hv : Visible c s.slave)
    (hctl : s.lcd.control.state = c.state) (ht : s.lcd.control.counterTime = 3) :
    wordNext s = [c.strobe] := by
  rw [wordNext, if_pos ⟨hctl ▸ Call.state_cases c, ht⟩, hctl, hv.pending.data]
  cases c <;> rfl

/-! ### One edge -/

section Edges

variable (h0 : LcdSlave.writes i.avs 0 = false) (h1 : LcdSlave.writes i.avs 1 = false)

include h0 h1

theorem requested_step (h : At ws log s .requested) :
    At ws (log ++ wordNext s) (LcdEntity.step s i) .seen := by
  cases h with
  | requested c hp hlog hstate hctl =>
    rw [wordNext_nil (by simp [hctl])]
    exact .seen c (hp.visible h0 h1 (by simp [hctl])) hlog (init_rests hctl hstate)

theorem seen_step (h : At ws log s .seen) :
    At ws (log ++ wordNext s) (LcdEntity.step s i) (.writing 0) := by
  cases h with
  | seen c hv hlog hctl =>
    rw [wordNext_nil (by simp [hctl])]
    have hstate := hv.state
    refine .writing c 0 (by omega) (hv.pending.visible h0 h1 (by simp [hctl])) (by simpa using hlog)
      ?_ ?_
    all_goals rw [control_succ, LcdControl.clock_init hctl]
    cases c <;> simp [FullLcd.controlInputs, LcdEntity.lcdInputs, hstate, Call.code, Call.state]

theorem writing_step {t : Nat} (ht8 : t < 8) (h : At ws log s (.writing t)) :
    At ws (log ++ wordNext s) (LcdEntity.step s i) (.writing (t + 1)) := by
  cases h with
  | writing c _ ht hv hlog hctl htime =>
    have hne : s.lcd.control.state ≠ .endCommandData := by
      rw [hctl]
      cases c <;> simp [Call.state]
    have hstep : (LcdEntity.step s i).lcd.control = _ := LcdControl.clock_writing
      (FullLcd.controlInputs s.lcd (LcdEntity.lcdInputs s i)) (by rw [hctl]; exact c.writing_state)
      (by omega)
    refine .writing c (t + 1) (by omega) (hv.pending.visible h0 h1 hne) ?_ ?_ ?_
    · by_cases h3 : t = 3
      · rw [wordNext_visible hv hctl (by omega), if_neg (by omega), List.append_nil]
        rwa [if_pos (by omega)] at hlog
      · rw [wordNext_nil (by simp [htime, h3])]
        by_cases h4 : t < 3
        · rwa [if_pos (by omega)] at hlog ⊢
        · rwa [if_neg (by omega)] at hlog ⊢
    · rw [hstep]
      exact hctl
    · rw [hstep]
      exact congrArg (· + 1) htime

/-- A command is checked, data is done. -/
theorem writing_end (h : At ws log s (.writing 8)) :
    At ws (log ++ wordNext s) (LcdEntity.step s i) .checking ∨
      At ws (log ++ wordNext s) (LcdEntity.step s i) .done1 := by
  cases h with
  | writing c _ ht hv hlog hctl htime =>
    rw [if_neg (by omega), List.append_nil] at hlog
    rw [wordNext_nil (by simp [htime])]
    cases c with
    | command d =>
      refine .inl (.checking (.command d) (hv.pending.visible h0 h1 (by simp [hctl, Call.state]))
        hlog (hv.pending.plain d rfl) ?_)
      rw [control_succ, LcdControl.clock_command_done hctl htime]
    | data d =>
      refine .inr (.done1 (.data d)
        (hv.pending.visible h0 h1 (by simp [hctl, Call.state])) hlog ?_)
      rw [control_succ, LcdControl.clock_data_done hctl htime]

theorem checking_step (h : At ws log s .checking) :
    At ws (log ++ wordNext s) (LcdEntity.step s i) .done1 := by
  cases h with
  | checking c hv hlog hcmd hctl =>
    rw [wordNext_nil (by simp [hctl])]
    refine .done1 c (hv.pending.visible h0 h1 (by simp [hctl])) hlog ?_
    rw [control_succ, LcdControl.clock_checkCommand hctl]
    simp [FullLcd.controlInputs, LcdEntity.lcdInputs, hv.data, hcmd]

theorem rest_step (h : At ws log s .rest) :
    At ws (log ++ wordNext s) (LcdEntity.step s i) .rest ∧
      (LcdEntity.step s i).slave.regCommandData = s.slave.regCommandData := by
  cases h with
  | rest hlog hreg hstate hctl =>
    rw [wordNext_nil (by simp [hctl])]
    refine ⟨.rest hlog ?_ hreg (init_rests hctl hstate), slave_keep h0⟩
    rw [slave_state h1, hreg, ite_self]

end Edges

/-- While `Done_Command_Data` is high `RegStateCommandData` is cleared, whatever is written. -/
theorem done_clears (hctl : s.lcd.control.state = .endCommandData) :
    (LcdEntity.step s i).slave.regStateCommandData = 0 := by
  show (if LcdControl.doneCommandData s.lcd.control then 0 else _) = _
  rw [if_pos (by simp [LcdControl.doneCommandData, hctl])]

/-- `End_Command_Data` is left when `State_Command_Data` is 0. -/
theorem done_control (hctl : s.lcd.control.state = .endCommandData) :
    (LcdEntity.step s i).lcd.control.state =
      if s.slave.stateCommandData = 0 then .init else .endCommandData := by
  rw [control_succ, LcdControl.clock_endCommandData hctl]
  rfl

theorem done1_step (h : At ws log s .done1) :
    At ws (log ++ wordNext s) (LcdEntity.step s i) .done2 := by
  cases h with
  | done1 c hv hlog hctl =>
    rw [wordNext_nil (by simp [hctl])]
    refine .done2 hlog (done_clears hctl) ?_ fun h => c.code_ne_zero (hv.pending.state.symm.trans h)
    rw [done_control hctl, if_neg fun h => c.code_ne_zero (hv.state.symm.trans h)]

theorem done2_step (h : At ws log s .done2) :
    At ws (log ++ wordNext s) (LcdEntity.step s i) .done3 := by
  cases h with
  | done2 hlog hreg hctl hstate =>
    rw [wordNext_nil (by simp [hctl])]
    refine .done3 hlog (done_clears hctl) ?_ hreg
    rw [done_control hctl, if_neg hstate]

theorem done3_step (h : At ws log s .done3) :
    At ws (log ++ wordNext s) (LcdEntity.step s i) .rest := by
  cases h with
  | done3 hlog hreg hctl hstate =>
    rw [wordNext_nil (by simp [hctl])]
    refine .rest hlog (done_clears hctl) hreg ?_
    rw [done_control hctl, if_pos hstate]

/-- **Every edge takes a request further**, as long as the CPU does not write. -/
theorem At.step {st : Stage} (h : At ws log s st) (h0 : LcdSlave.writes i.avs 0 = false)
    (h1 : LcdSlave.writes i.avs 1 = false) :
    ∃ st', At ws (log ++ wordNext s) (LcdEntity.step s i) st' ∧ rank st' ≤ rank st - 1 := by
  cases st with
  | rest => exact ⟨.rest, (rest_step h0 h1 h).1, Nat.le_refl _⟩
  | requested => exact ⟨.seen, requested_step h0 h1 h, Nat.le_refl _⟩
  | seen => exact ⟨.writing 0, seen_step h0 h1 h, Nat.le_refl _⟩
  | writing t =>
    by_cases ht : t < 8
    · refine ⟨.writing (t + 1), writing_step h0 h1 ht h, ?_⟩
      simp only [rank]
      omega
    · obtain rfl : t = 8 := by
        cases h with
        | writing _ _ ht8 => omega
      rcases writing_end h0 h1 h with hc | hd
      · exact ⟨.checking, hc, by decide⟩
      · exact ⟨.done1, hd, by decide⟩
  | checking => exact ⟨.done1, checking_step h0 h1 h, Nat.le_refl _⟩
  | done1 => exact ⟨.done2, done1_step h, Nat.le_refl _⟩
  | done2 => exact ⟨.done3, done2_step h, Nat.le_refl _⟩
  | done3 => exact ⟨.rest, done3_step h, Nat.le_refl _⟩

/-- There is no request, or no longer. -/
def Free (ws log : List Strobe) (s : LcdEntity.Regs F) : Prop :=
  At ws log s .rest ∨ At ws log s .done3

theorem Free.reads_zero (h : Free ws log s) : s.slave.regStateCommandData = 0 := by
  rcases h with h | h
  · cases h with
    | rest _ hreg => exact hreg
  · cases h with
    | done3 _ hreg => exact hreg

/-- One edge on the entity rests, if no request is written. -/
theorem Free.rests (h : Free ws log s)
    (h1 : LcdSlave.writes i.avs 1 = true → i.avs.writeData.setWidth 2 = (0 : BitVec 2)) :
    At ws (log ++ wordNext s) (LcdEntity.step s i) .rest := by
  rcases h with h | h
  · cases h with
    | rest hlog hreg hstate hctl =>
      rw [wordNext_nil (by simp [hctl])]
      refine .rest hlog ?_ hreg (init_rests hctl hstate)
      simp only [LcdEntity.step, LcdSlave.clock, LcdEntity.slaveInputs, hreg]
      split
      · rfl
      · split
        · rename_i hw
          exact h1 hw
        · rfl
  · exact done3_step h

/-- A poll that reads 0 finds no request. -/
theorem At.free {st : Stage} (h : At ws log s st) (hreg : s.slave.regStateCommandData = 0)
    (h0 : LcdSlave.writes i.avs 0 = false) (h1 : LcdSlave.writes i.avs 1 = false) :
    Free ws (log ++ wordNext s) (LcdEntity.step s i) := by
  have hpending : ∀ c, ¬ Pending c s.slave :=
    fun c hp => c.code_ne_zero (hp.state.symm.trans hreg)
  cases h with
  | rest hlog _ hstate hctl => exact .inl (rest_step h0 h1 (.rest hlog hreg hstate hctl)).1
  | requested c hp => exact absurd hp (hpending c)
  | seen c hv | writing c _ _ hv | checking c hv | done1 c hv =>
    exact absurd hv.pending (hpending c)
  | done2 hlog _ hctl hstate => exact .inr (done2_step (.done2 hlog hreg hctl hstate))
  | done3 hlog _ hctl hstate => exact .inl (done3_step (.done3 hlog hreg hctl hstate))

/-- **A request that is written at rest** is pending. -/
theorem rest_request {c : Call} (h : At ws log s .rest) (hplain : Plain c)
    (hdata : s.slave.regCommandData = c.value.setWidth 16) {d : BitVec 32}
    (hd : d.setWidth 2 = c.code.setWidth 2) (hi : i.avs = LcdSlave.writeAccess 1 d) :
    At (ws ++ [c.strobe]) (log ++ wordNext s) (LcdEntity.step s i) .requested := by
  cases h with
  | rest hlog hreg hstate hctl =>
    rw [wordNext_nil (by simp [hctl])]
    refine .requested c ⟨hplain, ?_, ?_⟩ (by rw [hlog]) hreg (init_rests hctl hstate)
    · simp [LcdEntity.step, LcdSlave.clock, LcdEntity.slaveInputs, hi,
        LcdControl.doneCommandData, hctl, hd]
    · rw [slave_keep (by rw [hi]; rfl)]
      exact hdata

/-! ## The display -/

/-- The request for a continuous display stands. -/
structure Shows (s : LcdEntity.Regs F) : Prop where
  state : s.slave.regStateCommandData = 3
  command : memoryWrite s.slave.regCommandData = true
  control : s.lcd.control.state = .init ∧
      (s.slave.stateCommandData = 0 ∨ s.slave.stateCommandData = 3) ∨
    LcdEntity.displaying s.lcd.control.state = true ∧ s.slave.stateCommandData = 3 ∧
      memoryWrite s.slave.commandData = true

/-- A continuous display stays one. -/
theorem displaying_edge {r r' : LcdControl.Regs} {j : LcdControl.Inputs}
    (he : LcdControl.Edge r j r') (h : LcdEntity.displaying r.state = true)
    (h3 : j.stateCommandData = 3) (hmw : memoryWrite j.commandData = true) :
    LcdEntity.displaying r'.state = true := by
  cases he with
  | init hs | dataDone hs | endCommandData hs =>
    rw [hs] at h
    cases h
  | writing => exact h
  | commandDone | displayDone | emptied16 | empty16 | display16Done => rfl
  | checkCommand | checkMaster | empty =>
    simp only [hmw, if_true]
    repeat' split
    all_goals rfl
  | endDisplayDone =>
    simp only [h3]
    rfl

theorem Shows.step (h : Shows s) (h0 : LcdSlave.writes i.avs 0 = false)
    (h1 : LcdSlave.writes i.avs 1 = false) : Shows (LcdEntity.step s i) := by
  obtain ⟨hreg, hcmd, hcontrol⟩ := h
  have hne : s.lcd.control.state ≠ .endCommandData := by
    intro hend
    rw [hend] at hcontrol
    simp [LcdEntity.displaying] at hcontrol
  refine ⟨?_, ?_, ?_⟩
  · rw [slave_state h1, if_neg hne]
    exact hreg
  · rw [slave_keep h0]
    exact hcmd
  · rcases hcontrol with ⟨hctl, hz | h3⟩ | ⟨hdisp, h3, hmw⟩
    · exact .inl ⟨init_rests hctl hz, .inr hreg⟩
    · refine .inr ⟨?_, hreg, hcmd⟩
      rw [(init_shows hctl h3).1]
      rfl
    · exact .inr ⟨displaying_edge (LcdEntity.control_edge s i) hdisp h3 hmw, hreg, hcmd⟩

/-- **The request for the display**, written at rest. -/
theorem rest_display (h : At ws log s .rest) (hmw : memoryWrite s.slave.regCommandData = true)
    {d : BitVec 32} (hd : d.setWidth 2 = (3 : BitVec 2)) (hi : i.avs = LcdSlave.writeAccess 1 d) :
    Shows (LcdEntity.step s i) ∧ (LcdEntity.step s i).lcd.control.state = .init ∧
      (LcdEntity.step s i).slave.stateCommandData = 0 := by
  cases h with
  | rest hlog hreg hstate hctl =>
    have hinit := init_rests (i := i) hctl hstate
    refine ⟨⟨?_, ?_, .inl ⟨hinit, .inl hreg⟩⟩, hinit, hreg⟩
    · simp [LcdEntity.step, LcdSlave.clock, LcdEntity.slaveInputs, hi,
        LcdControl.doneCommandData, hctl, hd]
    · rw [slave_keep (by rw [hi]; rfl)]
      exact hmw

end Stages

/-! ## The entity as its software sees it -/

/-- What the software knows of the request. -/
inductive Phase where
  /-- Asked for, and not yet read back as 0. -/
  | asked
  | free
  /-- The word of the next request is written. -/
  | loaded
  | display
  deriving DecidableEq, Repr

structure Panel where
  startAdd : BitVec 32
  lengthBuffer : BitVec 32
  commandData : BitVec 32
  words : List Strobe
  phase : Phase
  deriving DecidableEq, Repr

namespace Panel

/-- The software has read 0 since its last request. -/
def idle (t : Panel) : Prop := t.phase = .free ∨ t.phase = .loaded

instance (t : Panel) : Decidable t.idle := inferInstanceAs (Decidable (_ ∨ _))

def send (t : Panel) (c : Call) : Panel :=
  { t with words := t.words ++ [c.strobe], phase := .asked }

/-- A write to `REGSTATECOMMANDDATA`. -/
def ask (t : Panel) (state : BitVec 2) : Option Panel :=
  if state = 0 then if t.idle then some t else none
  else if t.phase = .loaded then
    if state = 2 then some (t.send (.data t.commandData))
    else if state = 3 then
      if memoryWrite (t.commandData.setWidth 16) then some { t with phase := .display } else none
    else if memoryWrite (t.commandData.setWidth 16) then none
    else some (t.send (.command t.commandData))
  else none

/-- A request is written when the last one was read back as 0; a continuous display stays. -/
def write (t : Panel) (address : BitVec 3) (data : BitVec 32) : Option Panel :=
  if address = 0 then
    if t.idle then some { t with commandData := data, phase := .loaded } else none
  else if address = 1 then t.ask (data.setWidth 2)
  else if t.phase = .display then none
  else if address = 2 then some { t with startAdd := data }
  else if address = 3 then some { t with lengthBuffer := data }
  else none

def read (t : Panel) (address : BitVec 3) : Option (BitVec 32) :=
  if address = 0 then
    if t.phase = .loaded then some ((t.commandData.setWidth 16).setWidth 32) else none
  else if address = 1 then if t.idle then some 0 else none
  else if address = 2 then some t.startAdd
  else if address = 3 then some t.lengthBuffer
  else none

/-- A poll for the end of a request. -/
def poll (t : Panel) (address : BitVec 3) (mask : BitVec 32) : Option Panel :=
  if address = 1 ∧ mask = 0xFFFFFFFF ∧ t.phase ≠ .display then some { t with phase := .free }
  else none

/-- The registers after reset. -/
def reset : Panel := ⟨0, 0, 0, [], .free⟩

end Panel

def protocol : Spec (BitVec 3) 32 Panel where
  write := Panel.write
  read := Panel.read
  test _ _ _ := none
  poll := Panel.poll

section Simulation

variable {F : PixelFifo} {t t' : Panel} {h : LcdEntity.Regs F × List Strobe}

/-- Where the entity is in each phase. -/
def InPhase (t : Panel) (h : LcdEntity.Regs F × List Strobe) : Prop :=
  match t.phase with
  | .asked => ∃ st, At t.words h.2 h.1 st
  | .free => Free t.words h.2 h.1
  | .loaded => At t.words h.2 h.1 .rest ∧
      h.1.slave.regCommandData = t.commandData.setWidth 16
  | .display => Shows h.1 ∧ t.words <+: h.2

/-- The entity is where its software takes it to be. -/
structure Follows (t : Panel) (h : LcdEntity.Regs F × List Strobe) : Prop where
  startAdd : h.1.slave.regStartAdd = t.startAdd
  lengthBuffer : h.1.slave.regLengthBuffer = t.lengthBuffer
  request : InPhase t h

variable {a : RegisterProgram.Access (BitVec 3) (BitVec 32)} {e : Env}

/-- An edge on which no request is written. -/
theorem InPhase.keep (hin : InPhase t h) (h0 : LcdSlave.writes (avalon a) 0 = false)
    (h1 : LcdSlave.writes (avalon a) 1 = false) : InPhase t ((entity F).step h a e) := by
  have h0' : LcdSlave.writes (entityInputs (avalon a) e).avs 0 = false := h0
  have h1' : LcdSlave.writes (entityInputs (avalon a) e).avs 1 = false := h1
  unfold InPhase at hin ⊢
  cases hp : t.phase with
  | asked =>
    rw [hp] at hin
    obtain ⟨st, hat⟩ := hin
    obtain ⟨st', hat', -⟩ := hat.step h0' h1'
    exact ⟨st', hat'⟩
  | free =>
    rw [hp] at hin
    exact .inl (hin.rests fun hw => absurd (h1'.symm.trans hw) Bool.false_ne_true)
  | loaded =>
    rw [hp] at hin
    obtain ⟨hat, hdata⟩ := hin
    obtain ⟨hat', hkeep⟩ := rest_step h0' h1' hat
    exact ⟨hat', hkeep.trans hdata⟩
  | display =>
    rw [hp] at hin
    obtain ⟨hshows, hwords⟩ := hin
    exact ⟨hshows.step h0' h1', hwords.trans (List.prefix_append _ _)⟩

/-- The idle entity rests after an edge without a request. -/
theorem InPhase.rests (hin : InPhase t h) (hidle : t.idle) {x : BitVec 3} {d : BitVec 32}
    (hx : x = 1 → d.setWidth 2 = (0 : BitVec 2)) :
    At t.words ((entity F).step h (.write x d) e).2 ((entity F).step h (.write x d) e).1 .rest := by
  have hfree : Free t.words h.2 h.1 := by
    unfold InPhase at hin
    rcases hidle with hp | hp
    · rw [hp] at hin
      exact hin
    · rw [hp] at hin
      exact .inl hin.1
  refine hfree.rests fun hw => hx ?_
  simpa [entityInputs, avalon] using hw

/-- The two registers that are not part of a request. -/
theorem start_step (h : LcdEntity.Regs F × List Strobe)
    (a : RegisterProgram.Access (BitVec 3) (BitVec 32)) (e : Env) :
    ((entity F).step h a e).1.slave.regStartAdd =
        (if LcdSlave.writes (avalon a) 2 then (avalon a).writeData else h.1.slave.regStartAdd) ∧
      ((entity F).step h a e).1.slave.regLengthBuffer =
        (if LcdSlave.writes (avalon a) 3 then (avalon a).writeData
          else h.1.slave.regLengthBuffer) := ⟨rfl, rfl⟩

theorem Follows.keep (hf : Follows t h) (ha : ∀ x, LcdSlave.writes (avalon a) x = false) :
    Follows t ((entity F).step h a e) := by
  obtain ⟨hstart, hlength⟩ := start_step h a e
  rw [ha] at hstart hlength
  exact ⟨hstart.trans hf.startAdd, hlength.trans hf.lengthBuffer, hf.request.keep (ha 0) (ha 1)⟩

/-- A write to one of the registers of the request. -/
theorem Follows.requested (hf : Follows t h) {x : BitVec 3} {d : BitVec 32} (h2 : x ≠ 2)
    (h3 : x ≠ 3) (hstart : t'.startAdd = t.startAdd) (hlength : t'.lengthBuffer = t.lengthBuffer)
    (hin : InPhase t' ((entity F).step h (.write x d) e)) :
    Follows t' ((entity F).step h (.write x d) e) := by
  obtain ⟨hs, hl⟩ := start_step h (.write x d) e
  simp only [avalon, LcdSlave.writes_writeAccess, beq_iff_eq, h2, h3, if_false] at hs hl
  exact ⟨hs.trans (hf.startAdd.trans hstart.symm), hl.trans (hf.lengthBuffer.trans hlength.symm),
    hin⟩

/-- **A request** that is written with its word loaded. -/
theorem InPhase.send (hin : InPhase t h) (hp : t.phase = .loaded) {c : Call} (hplain : Plain c)
    (hc : c.value = t.commandData) {d : BitVec 32} (hd : d.setWidth 2 = c.code.setWidth 2) :
    InPhase (t.send c) ((entity F).step h (.write 1 d) e) := by
  unfold InPhase at hin
  rw [hp] at hin
  obtain ⟨hat, hdata⟩ := hin
  exact ⟨_, rest_request hat hplain (by rw [hdata, hc]) hd rfl⟩

theorem Follows.ask (hf : Follows t h) {d : BitVec 32} (hw : t.ask (d.setWidth 2) = some t') :
    Follows t' ((entity F).step h (.write 1 d) e) := by
  have hrequest : ∀ u : Panel, u.startAdd = t.startAdd → u.lengthBuffer = t.lengthBuffer →
      InPhase u ((entity F).step h (.write 1 d) e) →
        Follows u ((entity F).step h (.write 1 d) e) := by
    intro u hs hl hin
    exact hf.requested (by decide) (by decide) hs hl hin
  unfold Panel.ask at hw
  by_cases hd0 : d.setWidth 2 = (0 : BitVec 2)
  · rw [if_pos hd0, Option.ite_none_right_eq_some] at hw
    obtain ⟨hidle, hw⟩ := hw
    cases hw
    have hrest := hf.request.rests (e := e) hidle (x := 1) (d := d) fun _ => hd0
    refine hrequest t rfl rfl ?_
    have hin := hf.request
    unfold InPhase at hin ⊢
    rcases hidle with hp | hp
    · rw [hp]
      exact .inl hrest
    · rw [hp] at hin ⊢
      exact ⟨hrest, (slave_keep rfl).trans hin.2⟩
  · rw [if_neg hd0, Option.ite_none_right_eq_some] at hw
    obtain ⟨hp, hw⟩ := hw
    by_cases hd2 : d.setWidth 2 = (2 : BitVec 2)
    · rw [if_pos hd2] at hw
      cases hw
      exact hrequest _ rfl rfl
        (hf.request.send hp (c := .data t.commandData) (fun _ h => by cases h) rfl hd2)
    · rw [if_neg hd2] at hw
      by_cases hd3 : d.setWidth 2 = (3 : BitVec 2)
      · rw [if_pos hd3, Option.ite_none_right_eq_some] at hw
        obtain ⟨hmw, hw⟩ := hw
        cases hw
        have hin := hf.request
        unfold InPhase at hin
        rw [hp] at hin
        obtain ⟨hat, hdata⟩ := hin
        refine hrequest _ rfl rfl ⟨(rest_display hat (hdata ▸ hmw) hd3 rfl).1, ?_⟩
        cases hat with
        | rest hlog => exact hlog ▸ List.prefix_append _ _
      · rw [if_neg hd3, Option.ite_none_left_eq_some] at hw
        obtain ⟨hmw, hw⟩ := hw
        cases hw
        have hd1 : d.setWidth 2 = (1 : BitVec 2) := by
          generalize d.setWidth 2 = x at *
          revert x
          decide
        refine hrequest _ rfl rfl
          (hf.request.send hp (c := .command t.commandData) ?_ rfl hd1)
        intro d' h
        cases h
        exact Bool.eq_false_iff.mpr hmw

theorem Follows.write (hf : Follows t h) {x : BitVec 3} {d : BitVec 32}
    (hw : t.write x d = some t') : Follows t' ((entity F).step h (.write x d) e) := by
  unfold Panel.write at hw
  by_cases hx0 : x = 0
  · subst hx0
    rw [if_pos rfl, Option.ite_none_right_eq_some] at hw
    obtain ⟨hidle, hw⟩ := hw
    cases hw
    refine hf.requested (by decide) (by decide) rfl rfl ?_
    exact ⟨hf.request.rests hidle fun h => absurd h (by decide), rfl⟩
  · rw [if_neg hx0] at hw
    by_cases hx1 : x = 1
    · subst hx1
      exact hf.ask hw
    · rw [if_neg hx1, Option.ite_none_left_eq_some] at hw
      obtain ⟨hp, hw⟩ := hw
      have hsilent : ∀ y, y ≠ x → LcdSlave.writes (avalon (.write x d)) y = false := by
        intro y hy
        simpa [avalon] using hy.symm
      have hin := hf.request.keep (e := e) (hsilent 0 (Ne.symm hx0)) (hsilent 1 (Ne.symm hx1))
      obtain ⟨hs, hl⟩ := start_step h (.write x d) e
      by_cases hx2 : x = 2
      · subst hx2
        cases hw
        exact ⟨hs, hl.trans hf.lengthBuffer, hin⟩
      · rw [if_neg hx2, Option.ite_none_right_eq_some] at hw
        obtain ⟨rfl, hw⟩ := hw
        cases hw
        exact ⟨hs.trans hf.startAdd, hl, hin⟩

/-- While there is no display there is a request, or none. -/
theorem InPhase.stage (hin : InPhase t h) (hp : t.phase ≠ .display) :
    ∃ st, At t.words h.2 h.1 st := by
  unfold InPhase at hin
  cases hphase : t.phase with
  | asked =>
    rw [hphase] at hin
    exact hin
  | free =>
    rw [hphase] at hin
    rcases hin with hat | hat
    · exact ⟨_, hat⟩
    · exact ⟨_, hat⟩
  | loaded =>
    rw [hphase] at hin
    exact ⟨_, hin.1⟩
  | display => exact absurd hphase hp

/-- What a read loads. -/
theorem readdata_read (x : BitVec 3) : (entity F).readdata ((entity F).step h (.read x) e) =
    LcdSlave.readValue h.1.slave (LcdSlave.readAccess x) := rfl

theorem mask_eq (x : BitVec 2) :
    x.setWidth 32 &&& (0xFFFFFFFF : BitVec 32) = 0 ↔ x = 0 := by
  revert x
  decide

theorem Follows.polled (hf : Follows t h) {x : BitVec 3} {m : BitVec 32}
    (ht : t.poll x m = some t')
    (hz : (entity F).readdata ((entity F).step h (.read x) e) &&& m = 0) :
    Follows t' ((entity F).step h (.read x) e) := by
  rw [Panel.poll, Option.ite_none_right_eq_some] at ht
  obtain ⟨⟨rfl, rfl, hp⟩, ht⟩ := ht
  cases ht
  have hzero : h.1.slave.regStateCommandData = 0 := (mask_eq _).mp hz
  obtain ⟨st, hat⟩ := hf.request.stage hp
  have hsame := hf.keep (a := .read 1) (e := e) fun _ => rfl
  exact ⟨hsame.startAdd, hsame.lengthBuffer, hat.free hzero rfl rfl⟩

theorem Follows.idle_reads (hf : Follows t h) (hidle : t.idle) :
    h.1.slave.regStateCommandData = 0 := by
  have hin := hf.request
  unfold InPhase at hin
  rcases hidle with hp | hp
  · rw [hp] at hin
    exact hin.reads_zero
  · rw [hp] at hin
    exact Free.reads_zero (.inl hin.1)

theorem Follows.readdata (hf : Follows t h) {x : BitVec 3} {d : BitVec 32}
    (hr : t.read x = some d) :
    (entity F).readdata ((entity F).step h (.read x) e) = d := by
  rw [readdata_read]
  have hin := hf.request
  unfold InPhase at hin
  unfold Panel.read at hr
  split at hr
  · rename_i hx
    rw [Option.ite_none_right_eq_some] at hr
    obtain ⟨hp, hr⟩ := hr
    cases hr
    rw [hp] at hin
    subst hx
    exact congrArg (·.setWidth 32) hin.2
  · split at hr
    · rename_i hx
      rw [Option.ite_none_right_eq_some] at hr
      obtain ⟨hidle, hr⟩ := hr
      cases hr
      subst hx
      exact congrArg (·.setWidth 32) (hf.idle_reads hidle)
    · split at hr
      · rename_i hx
        cases hr
        subst hx
        exact hf.startAdd
      · rw [Option.ite_none_right_eq_some] at hr
        obtain ⟨rfl, hr⟩ := hr
        cases hr
        exact hf.lengthBuffer

/-- **The entity simulates the description.** -/
theorem entity_simulates (F : PixelFifo) :
    Simulates (entity F) protocol Follows (fun _ => True) where
  idle _ hf := hf.keep fun _ => rfl
  read _ _ hf := hf.keep fun _ => rfl
  write _ hf hw _ := hf.write hw
  readdata _ hf hr := hf.readdata hr
  test _ _ ht := by cases ht
  poll _ hf ht hz := hf.polled ht hz
  good_write _ _ := trivial
  good_poll _ _ := trivial

/-- A request other than the display is not 3. -/
theorem At.state_ne {ws log : List Strobe} {s : LcdEntity.Regs F} {st : Stage}
    (h : At ws log s st) : s.slave.regStateCommandData ≠ 3 := by
  have hcode : ∀ c, Pending c s.slave → s.slave.regStateCommandData ≠ 3 := by
    intro c hp
    rw [hp.state]
    cases c <;> simp [Call.code]
  cases h with
  | rest _ hreg | done2 _ hreg | done3 _ hreg =>
    rw [hreg]
    decide
  | requested c hp => exact hcode c hp
  | seen c hv | writing c _ _ hv | checking c hv | done1 c hv => exact hcode c hv.pending

theorem Follows.display_iff (hf : Follows t h) :
    h.1.slave.regStateCommandData = 3 ↔ t.phase = .display := by
  constructor
  · intro h3
    by_contra hp
    obtain ⟨st, hat⟩ := hf.request.stage hp
    exact hat.state_ne h3
  · intro hp
    have hin := hf.request
    unfold InPhase at hin
    rw [hp] at hin
    exact hin.1.state

theorem rank_le (st : Stage) : rank st ≤ 15 := by
  cases st <;> simp only [rank] <;> omega

/-- A request comes to its end within 15 edges. -/
theorem At.ended {ws log : List Strobe} {s : LcdEntity.Regs F} {st : Stage} (h : At ws log s st)
    (hr : rank st = 0) : s.slave.regStateCommandData = 0 := by
  cases h with
  | rest _ hreg => exact hreg
  | writing c u hu =>
    simp only [rank] at hr
    omega
  | requested | seen | checking | done1 | done2 | done3 => cases hr

/-- **Polling comes to an end.** -/
theorem entity_settles (F : PixelFifo) : Settles (entity F) protocol Follows := by
  intro t t' x m h e hf ht hstep
  have hpoll : t.poll x m = some t' := ht
  rw [Panel.poll, Option.ite_none_right_eq_some] at hpoll
  obtain ⟨⟨rfl, rfl, hp⟩, -⟩ := hpoll
  have hrun : ∀ n, ∃ st, At t.words (h n).2 (h n).1 st ∧ rank st ≤ 15 - n := by
    intro n
    induction n with
    | zero =>
      obtain ⟨st, hat⟩ := hf.request.stage hp
      exact ⟨st, hat, rank_le st⟩
    | succ n ih =>
      obtain ⟨st, hat, hrank⟩ := ih
      have hedge : ∃ st', At t.words (h (n + 1)).2 (h (n + 1)).1 st' ∧
          rank st' ≤ rank st - 1 := by
        rcases hstep n with hn | hn
        · rw [hn]
          exact hat.step rfl rfl
        · rw [hn]
          exact hat.step rfl rfl
      obtain ⟨st', hat', hrank'⟩ := hedge
      exact ⟨st', hat', by omega⟩
  refine ⟨15, fun j hj e' => ?_⟩
  obtain ⟨st, hat, hrank⟩ := hrun j
  rw [readdata_read]
  exact (mask_eq _).mpr (hat.ended (by omega))

theorem follows_reset (F : PixelFifo) (avsReadData : BitVec 32) :
    Follows Panel.reset ((LcdEntity.machine F avsReadData).init, []) :=
  ⟨rfl, rfl, .inl (.rest rfl rfl rfl rfl)⟩

end Simulation

/-! ## The functions on the description -/

section Exec

variable {t : Panel}

/-- The panel after a call. -/
def called (t : Panel) (c : Call) : Panel := { t with commandData := c.value }.send c

theorem callRun_exec {c : Call} (hplain : Plain c) (hp : t.phase ≠ .display) :
    exec protocol (Call.run c) t = some ((), called t c) := by
  cases c with
  | command d =>
    have hmw := hplain d rfl
    simp [Call.run, writeCommand, request, exec, protocol, Panel.poll, Panel.write, Panel.ask,
      Panel.idle, hp, hmw, called, Panel.send, Call.value]
  | data d =>
    simp [Call.run, writeData, request, exec, protocol, Panel.poll, Panel.write, Panel.ask,
      Panel.idle, hp, called, Panel.send, Call.value]

theorem runCalls_exec {calls : List Call} (hplain : ∀ c ∈ calls, Plain c)
    (hp : t.phase ≠ .display) :
    exec protocol (runCalls calls) t = some ((), calls.foldl called t) := by
  induction calls generalizing t with
  | nil => rfl
  | cons c cs ih =>
    unfold runCalls
    rw [exec_seq _ (callRun_exec (hplain c (by simp)) hp)]
    exact ih (fun c' hc => hplain c' (by simp [hc])) (by simp [called, Panel.send])

theorem called_all (t : Panel) (calls : List Call) :
    (calls.foldl called t).startAdd = t.startAdd ∧
      (calls.foldl called t).lengthBuffer = t.lengthBuffer ∧
      (calls.foldl called t).words = t.words ++ calls.map Call.strobe ∧
      (t.phase ≠ .display → (calls.foldl called t).phase ≠ .display) := by
  induction calls generalizing t with
  | nil => simp
  | cons c cs ih =>
    obtain ⟨hs, hl, hw, hp⟩ := ih (called t c)
    refine ⟨hs, hl, ?_, fun _ => hp (by simp [called, Panel.send])⟩
    simpa [called, Panel.send] using hw

theorem display_exec (hp : t.phase ≠ .display) : exec protocol display t =
    some ((), { t with commandData := 0x2C, phase := .display }) := by
  have hmw : memoryWrite 44#16 = true := by decide
  simp [display, request, exec, protocol, Panel.poll, Panel.write, Panel.ask, Panel.idle, hp, hmw]

/-- The calls, and then the display. -/
theorem callsDisplay_exec {calls : List Call} (hplain : ∀ c ∈ calls, Plain c)
    (hp : t.phase ≠ .display) : exec protocol (runCalls calls >>= fun _ => display) t =
      some ((), { t with
        commandData := 0x2C, words := t.words ++ calls.map Call.strobe, phase := .display }) := by
  obtain ⟨hs, hl, hw, hp'⟩ := called_all t calls
  rw [exec_seq _ (runCalls_exec hplain hp), display_exec (hp' hp), hs, hl, hw]

/-- A register that is written reads back, if it may be written and read. -/
theorem writeShown_exec {u : Panel} {x : BitVec 3} {d v : BitVec 32} (hw : t.write x d = some u)
    (hr : u.read x = some v) : exec protocol (writeShown x d) t = some (v, u) := by
  simp only [writeShown, exec, protocol, hw, hr, Option.bind_some]

/-- **What `LCD_Configuration` asks for.** -/
theorem configuration_exec (startAdd lengthBuffer : BitVec 32) {calls : List Call}
    (hplain : ∀ c ∈ calls, Plain c) :
    exec protocol (configuration startAdd lengthBuffer calls) Panel.reset =
      some ((), ⟨startAdd, lengthBuffer, 0x2C, calls.map Call.strobe, .display⟩) := by
  have hstart : exec protocol (writeShown 2 startAdd) Panel.reset =
      some (startAdd, ⟨startAdd, 0, 0, [], .free⟩) := writeShown_exec rfl rfl
  have hlength : exec protocol (writeShown 3 lengthBuffer) ⟨startAdd, 0, 0, [], .free⟩ =
      some (lengthBuffer, ⟨startAdd, lengthBuffer, 0, [], .free⟩) := writeShown_exec rfl rfl
  have hstate : exec protocol (writeShown 1 0) ⟨startAdd, lengthBuffer, 0, [], .free⟩ =
      some (0, ⟨startAdd, lengthBuffer, 0, [], .free⟩) := writeShown_exec rfl rfl
  have hdata : exec protocol (writeShown 0 0) ⟨startAdd, lengthBuffer, 0, [], .free⟩ =
      some (0, ⟨startAdd, lengthBuffer, 0, [], .loaded⟩) := writeShown_exec rfl rfl
  unfold configuration
  rw [exec_seq _ hstart, exec_seq _ hlength, exec_seq _ hstate, exec_seq _ hdata]
  exact callsDisplay_exec (t := ⟨startAdd, lengthBuffer, 0, [], .loaded⟩) hplain (by simp)

variable {t' : Panel} {x : BitVec 3} {d : BitVec 32}

/-- Nothing is written to a display. -/
theorem Panel.write_phase (h : t.write x d = some t') : t.phase ≠ .display := by
  intro hp
  simp [Panel.write, Panel.ask, Panel.idle, hp] at h

/-- The registers of a request are written at rest. -/
theorem Panel.write_idle (h : t.write x d = some t') (hx : x = 0 ∨ x = 1) : t.idle := by
  rcases hx with rfl | rfl
  · simp only [Panel.write, if_true, Option.ite_none_right_eq_some] at h
    exact h.1
  · have h : t.ask (d.setWidth 2) = some t' := h
    unfold Panel.ask at h
    split at h
    · rw [Option.ite_none_right_eq_some] at h
      exact h.1
    · rw [Option.ite_none_right_eq_some] at h
      exact .inr h.1

/-- What asks for the display. -/
theorem Panel.write_display (h : t.write x d = some t') (hp : t'.phase = .display) :
    x = 1 ∧ d.setWidth 2 = (3 : BitVec 2) ∧ t.phase = .loaded ∧
      memoryWrite (t.commandData.setWidth 16) = true ∧ t' = { t with phase := .display } := by
  unfold Panel.write at h
  by_cases hx0 : x = 0
  · rw [if_pos hx0, Option.ite_none_right_eq_some] at h
    obtain ⟨-, h⟩ := h
    cases h
    cases hp
  · rw [if_neg hx0] at h
    by_cases hx1 : x = 1
    · rw [if_pos hx1, Panel.ask] at h
      by_cases hd0 : d.setWidth 2 = (0 : BitVec 2)
      · rw [if_pos hd0, Option.ite_none_right_eq_some] at h
        obtain ⟨hidle, h⟩ := h
        cases h
        rcases hidle with hi | hi
        all_goals cases hi.symm.trans hp
      · rw [if_neg hd0, Option.ite_none_right_eq_some] at h
        obtain ⟨hloaded, h⟩ := h
        by_cases hd2 : d.setWidth 2 = (2 : BitVec 2)
        · rw [if_pos hd2] at h
          cases h
          cases hp
        · rw [if_neg hd2] at h
          by_cases hd3 : d.setWidth 2 = (3 : BitVec 2)
          · rw [if_pos hd3, Option.ite_none_right_eq_some] at h
            obtain ⟨hmw, h⟩ := h
            cases h
            exact ⟨hx1, hd3, hloaded, hmw, rfl⟩
          · rw [if_neg hd3, Option.ite_none_left_eq_some] at h
            obtain ⟨-, h⟩ := h
            cases h
            cases hp
    · rw [if_neg hx1, Option.ite_none_left_eq_some] at h
      obtain ⟨hne, h⟩ := h
      repeat' split at h
      all_goals cases h
      all_goals exact absurd hp hne

/-- A program that has asked for the display writes nothing more. -/
theorem exec_displaying {α : Type} {q : Driver α} {out : α × Panel}
    (h : exec protocol q t = some out) (hp : t.phase = .display) : out.2 = t := by
  induction q generalizing t with
  | ret a =>
    cases h
    rfl
  | write x d q ih =>
    obtain ⟨t', hw, -⟩ := Option.bind_eq_some_iff.mp h
    exact absurd hp (Panel.write_phase hw)
  | read x k ih =>
    obtain ⟨d, -, hq⟩ := Option.bind_eq_some_iff.mp h
    exact ih d hq hp
  | test x m k ih => cases h
  | poll x m q ih =>
    obtain ⟨t', ht, -⟩ := Option.bind_eq_some_iff.mp h
    have ht : t.poll x m = some t' := ht
    simp [Panel.poll, hp] at ht

end Exec

end CameraLcd.LcdDriver
