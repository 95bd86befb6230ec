import CameraLcd.Lib.MixedFifo
import CameraLcd.Lcd.Control
import CameraLcd.Lcd.Master

/-!
# `Full_LCD_Entity`: controller, DMA and pixel FIFO together

`LCD_Control`, `Master_Interface` and the FIFO, wired as in `hw/hdl/LCD/Full_LCD_Entity.vhd`,
with a memory behind the Avalon bus that returns the beats of an accepted burst in order and at
any time.  The registers of `Slave_Interface` are inputs.

* `PixelFifo` — `FIFO_entity`: a vendor FIFO with the parameters of `FIFO_intel.vhd`.
* `Joint` — the pairs of states the two machines can be in, with the fill level of the FIFO
  and the beats the memory still owes in each of them.
* `joint_run` — **the joint invariant** holds in every cycle of a run from reset.
-/

set_option autoImplicit false

namespace CameraLcd.FullLcd

open Clocked

/-! ## The composition -/

/-- The two pixels of a word, the low half first. -/
def halves (w : BitVec 32) : List (BitVec 16) := [w.extractLsb' 0 16, w.extractLsb' 16 16]

/-- `FIFO_entity`: 512 words written, read as 1024 halves, with flags that lag by no more than the
4 stages of `rdsync_delaypipe` and `wrsync_delaypipe`. -/
abbrev PixelFifo := MixedFifo (BitVec 32) (BitVec 16) halves 1024 2 4

/-- The registers of the entities and the beats that the memory still has to return. -/
structure Regs (F : PixelFifo) where
  control : LcdControl.Regs
  master : LcdMaster.Regs
  fifo : F.σ
  pending : List (BitVec 32)

/-- The registers of `Slave_Interface`, the camera's index, the bus and the memory. -/
structure Inputs where
  commandData : BitVec 16
  stateCommandData : BitVec 2
  startAdd : BitVec 32
  lengthBuffer : BitVec 32
  bufferSaved : BitVec 2
  avmWaitRequest : Bool
  /-- The memory returns a beat if it owes one. -/
  beat : Bool
  /-- The word at a byte address. -/
  memory : BitVec 32 → BitVec 32

/-- `n` consecutive words from a byte address. -/
def words (memory : BitVec 32 → BitVec 32) (add : BitVec 32) (n : Nat) : List (BitVec 32) :=
  (List.range n).map (fun k => memory (add + BitVec.ofNat 32 (4 * k)))

section Composition

variable {F : PixelFifo} (s : Regs F) (i : Inputs)

/-- The input ports of `LCD_Control`. -/
def controlInputs : LcdControl.Inputs where
  readFifoData := F.q s.fifo
  emptyFifo := F.empty s.fifo
  masterReady := LcdMaster.masterReady s.master
  masterWaiting := LcdMaster.masterWaiting s.master
  commandData := i.commandData
  stateCommandData := i.stateCommandData

/-- `avm_ReadDataValid`. -/
def avmReadDataValid : Bool := i.beat && !s.pending.isEmpty

/-- The input ports of `Master_Interface`. -/
def masterInputs : LcdMaster.Inputs where
  avmWaitRequest := i.avmWaitRequest
  avmReadDataValid := avmReadDataValid s i
  avmReadData := s.pending.headD 0
  startAdd := i.startAdd
  lengthBuffer := i.lengthBuffer
  bufferSaved := i.bufferSaved
  write16 := LcdControl.write16 s.control
  masterStart := LcdControl.masterStart s.control (controlInputs s i)
  fullFifo := F.full s.fifo
  emptyFifo := F.empty s.fifo

/-- The write port of the FIFO. -/
def fifoWrite : Option (BitVec 32) :=
  if LcdMaster.writeFifo s.master (masterInputs s i) then
    some (LcdMaster.writeFifoData s.master (masterInputs s i))
  else none

/-- `Read_FIFO`. -/
def fifoRead : Bool := LcdControl.readFifo s.control (controlInputs s i)

/-- The words of the burst accepted in this cycle. -/
def burst : List (BitVec 32) :=
  if s.master.avmRead && !i.avmWaitRequest then
    words i.memory (LcdMaster.avmAddress s.master) (LcdMaster.avmBurstCount s.master).toNat
  else []

/-- One clock edge. -/
def step : Regs F where
  control := LcdControl.clock s.control (controlInputs s i)
  master := LcdMaster.clock s.master (masterInputs s i)
  fifo := F.step s.fifo (fifoWrite s i) (fifoRead s i)
  pending := (if avmReadDataValid s i then s.pending.tail else s.pending) ++ burst s i

/-- The halves stored in the FIFO. -/
def fill : Nat := (F.stored s.fifo).length

end Composition

/-- All of them from reset on. -/
def machine (F : PixelFifo) : Machine (Regs F) Inputs where
  init := ⟨LcdControl.reset, LcdMaster.reset, F.init, []⟩
  step := step

/-- The entities in cycle `n`. -/
abbrev regs (F : PixelFifo) (inp : Nat → Inputs) (n : Nat) : Regs F := (machine F).run inp n

/-! ## The joint invariant -/

/-- How many edges ago `Write_FIFO` was last high, at least. -/
def settledFor : LcdMaster.State → Nat
  | .newAdd => 1
  | .checkAdd => 2
  | .checkFifo | .init => 3
  | .waitLcdControl => 4
  | _ => 0

/-- How many edges ago `Read_FIFO` was last high, at least, at time `t` of a state. -/
def restedFor (state : LcdControl.State) (t : Nat) : Nat :=
  match state with
  | .command | .data | .display | .display16 | .endDisplay => t
  | .checkCommand | .checkMaster | .empty16 => 8
  | _ => 0

/-- What holds in every cycle whatever the two machines are doing. -/
structure Sound {F : PixelFifo} (s : Regs F) : Prop where
  counters : LcdControl.CountersOk s.control
  bus : LcdMaster.BusOk s.master
  rested : restedFor s.control.state s.control.counterTime ≤ F.sinceRead s.fifo

/-- No display is under way. -/
structure Quiet {F : PixelFifo} (s : Regs F) : Prop where
  control : s.control.state = .init ∨ s.control.state = .command ∨ s.control.state = .data ∨
    s.control.state = .checkCommand ∨ s.control.state = .endCommandData
  master : s.master.state = .init
  stored : F.stored s.fifo = []
  pending : s.pending = []

/-- The second cycle of `Check_Command`. -/
structure Copying {F : PixelFifo} (s : Regs F) (i : Inputs) : Prop where
  control : s.control.state = .checkCommand
  command : LcdControl.memoryWrite i.commandData = true
  master : s.master.state = .copy
  stored : F.stored s.fifo = []
  pending : s.pending = []

/-- The DMA works, the controller waits in `Check_Master`. -/
structure Fetching {F : PixelFifo} (s : Regs F) : Prop where
  control : s.control.state = .checkMaster
  master : s.master.state ≠ .copy
  beats : s.master.state = .readData → s.pending.length + s.master.counterWord = 16
  pending : s.master.state ≠ .readData → s.pending = []
  aligned : (fill s + 2 * s.pending.length) % 32 = 0
  level : fill s + 2 * s.pending.length ≤ 1024
  room : LcdMaster.addressing s.master = true → fill s ≤ 992
  full : s.master.state = .waitLcdControl → fill s = 1024
  settled : settledFor s.master.state ≤ F.sinceWrite s.fifo

/-- The controller takes 16 words out of the full FIFO, the DMA waits. -/
structure Draining16 {F : PixelFifo} (s : Regs F) : Prop where
  control : s.control.state = .empty16 ∨ s.control.state = .display16
  master : s.master.state = .waitLcdControl
  pending : s.pending = []
  level : fill s + s.control.counterWord +
    (if s.control.state = .display16 then 1 else 0) = 1024
  settled : 4 ≤ F.sinceWrite s.fifo

/-- The DMA is done, the controller takes out what is left. -/
structure Draining {F : PixelFifo} (s : Regs F) : Prop where
  control : s.control.state = .empty ∨ s.control.state = .display
  master : s.master.state = .init
  pending : s.pending = []
  settled : 4 ≤ F.sinceWrite s.fifo

/-- Everything is shown, the controller sends the closing command. -/
structure Ending {F : PixelFifo} (s : Regs F) : Prop where
  control : s.control.state = .endDisplay
  master : s.master.state = .init
  stored : F.stored s.fifo = []
  pending : s.pending = []

/-- The joint states of the two machines. -/
inductive Joint {F : PixelFifo} (s : Regs F) (i : Inputs) : Prop
  | quiet (h : Quiet s)
  | copying (h : Copying s i)
  | fetching (h : Fetching s)
  | draining16 (h : Draining16 s)
  | draining (h : Draining s)
  | ending (h : Ending s)

/-! ## One edge -/

section Edge

variable {F : PixelFifo} {s : Regs F} {i : Inputs}

theorem fifoWrite_none (h : s.master.state ≠ .readData) : fifoWrite s i = none := by
  simp [fifoWrite, LcdMaster.writeFifo, h]

theorem fifoRead_false (h : s.control.state ≠ .empty) (h' : s.control.state ≠ .empty16) :
    fifoRead s i = false := by
  unfold fifoRead LcdControl.readFifo
  split <;> simp_all

theorem write16_false (h : s.control.state ≠ .empty16) : LcdControl.write16 s.control = false := by
  simp [LcdControl.write16, h]

theorem masterStart_false (h : s.control.state ≠ .checkCommand) :
    LcdControl.masterStart s.control (controlInputs s i) = false := by
  simp [LcdControl.masterStart, h]

/-- An idle bus stays idle. -/
theorem pending_step (hs : Sound s) (hm : s.master.state ≠ .checkWaitRequest)
    (hp : s.pending = []) : (step s i).pending = [] := by
  simp [step, burst, hs.bus.read, hm, hp]

/-- No beat arrives on an idle bus. -/
theorem noBeat (hp : s.pending = []) : avmReadDataValid s i = false := by
  simp [avmReadDataValid, hp]

/-- Neither port of the FIFO is used. -/
theorem fifo_idle (hw : fifoWrite s i = none) (hr : fifoRead s i = false) :
    F.stored (step s i).fifo = F.stored s.fifo ∧ F.q (step s i).fifo = F.q s.fifo ∧
      F.sinceWrite (step s i).fifo = F.sinceWrite s.fifo + 1 := by
  simp [step, hw, hr]

theorem fill_idle (hw : fifoWrite s i = none) (hr : fifoRead s i = false) :
    fill (step s i) = fill s :=
  congrArg List.length (fifo_idle hw hr).1

/-- An edge in a write cycle, before its last cycle. -/
theorem control_writing (hw : LcdControl.writing s.control.state = true)
    (ht : s.control.counterTime ≠ 8) :
    (step s i).control = { s.control with counterTime := s.control.counterTime + 1 } :=
  LcdControl.clock_writing _ hw ht

/-- The controller rests one edge more, or starts afresh. -/
theorem restedFor_edge {r r' : LcdControl.Regs} {i : LcdControl.Inputs}
    (he : LcdControl.Edge r i r') (h : LcdControl.CountersOk r) :
    restedFor r'.state r'.counterTime = 0 ∨ LcdControl.readFifo r i = false ∧
      restedFor r'.state r'.counterTime ≤ restedFor r.state r.counterTime + 1 := by
  have htz := h.time_zero
  cases he with
  | init hs =>
    left
    simp only
    split
    · rfl
    · split <;> rfl
  | writing hw =>
    right
    cases hc : r.state <;> simp_all [restedFor, LcdControl.writing, LcdControl.readFifo]
  | commandDone hs ht | display16Done hs ht =>
    right
    simp [restedFor, LcdControl.readFifo, hs, ht]
  | dataDone | displayDone => exact .inl rfl
  | checkCommand hs =>
    right
    refine ⟨by simp [LcdControl.readFifo, hs], ?_⟩
    cases LcdControl.memoryWrite i.commandData <;> cases i.masterReady <;> simp [restedFor, hs]
  | checkMaster hs =>
    right
    refine ⟨by simp [LcdControl.readFifo, hs], ?_⟩
    cases i.masterReady <;> cases i.masterWaiting <;> simp [restedFor, hs]
  | empty hs =>
    left
    have h0 := htz (by rw [hs]; rfl)
    cases i.emptyFifo <;> exact h0
  | emptied16 hs hw =>
    right
    simp [restedFor, LcdControl.readFifo, hs, hw]
  | empty16 hs =>
    left
    exact htz (by rw [hs]; rfl)
  | endDisplayDone =>
    left
    simp only
    split
    · rfl
    · split <;> rfl
  | endCommandData =>
    left
    simp only
    split <;> rfl

/-- **What holds whatever the machines are doing is kept.** -/
theorem Sound.step (h : Sound s) (i : Inputs) : Sound (step s i) := by
  have he := LcdControl.clock_edge s.control (controlInputs s i)
  refine ⟨h.counters.edge he, h.bus.clock _, ?_⟩
  rcases restedFor_edge he h.counters with h0 | ⟨hread, hle⟩
  · exact h0 ▸ Nat.zero_le _
  · have hfalse : fifoRead s i = false := hread
    have hrest := h.rested
    have hsince : F.sinceRead (FullLcd.step s i).fifo = F.sinceRead s.fifo + 1 := by
      simp [FullLcd.step, hfalse]
    rw [hsince]
    exact hle.trans (by omega)

/-! ## The stages of a display -/

/-- The CPU leaves `Command_Data` alone while a memory write is sent and checked. -/
def Undisturbed (s : Regs F) (i i' : Inputs) : Prop :=
  s.control.state = .command ∨ s.control.state = .checkCommand →
    LcdControl.memoryWrite i.commandData = true → i'.commandData = i.commandData

/-- With the DMA in `Init` and no beat owed, nothing is written and nothing arrives. -/
theorem init_edge (hs : Sound s) (hm : s.master.state = .init) (hp : s.pending = []) :
    fifoWrite s i = none ∧ (step s i).pending = [] ∧ (step s i).master =
      ⟨if LcdControl.masterStart s.control (controlInputs s i) then .copy else .init,
        0, 0, 0, 0, false⟩ :=
  ⟨fifoWrite_none (by simp [hm]), pending_step hs (by simp [hm]) hp, LcdMaster.clock_init hm⟩

theorem quiet_step (hs : Sound s) (h : Quiet s) {i' : Inputs} (hu : Undisturbed s i i') :
    Quiet (step s i) ∨ Copying (step s i) i' := by
  obtain ⟨hc, hm, hst, hp⟩ := h
  obtain ⟨hw, hp', hm'⟩ := init_edge (i := i) hs hm hp
  have hread : fifoRead s i = false := by
    apply fifoRead_false <;> rcases hc with h | h | h | h | h <;> simp [h]
  have hst' : F.stored (step s i).fifo = [] := (fifo_idle hw hread).1.trans hst
  have hready : LcdMaster.masterReady s.master = true := by simp [LcdMaster.masterReady, hm]
  have stays : ∀ c, (step s i).control.state = c → s.control.state ≠ .checkCommand →
      (c = .init ∨ c = .command ∨ c = .data ∨ c = .checkCommand ∨ c = .endCommandData) →
      Quiet (step s i) ∨ Copying (step s i) i' := by
    rintro c rfl hne hq
    exact .inl ⟨hq, by simp [hm', masterStart_false hne], hst', hp'⟩
  rcases hc with hc | hc | hc | hc | hc
  · refine stays _ (congrArg (·.state) (LcdControl.clock_init hc)) (by simp [hc]) ?_
    simp only
    split
    · simp
    · split <;> simp
  · by_cases h8 : s.control.counterTime = 8
    · exact stays _ (congrArg (·.state) (LcdControl.clock_command_done hc h8)) (by simp [hc])
        (by simp)
    · have hw' : LcdControl.writing s.control.state = true := by rw [hc]; rfl
      exact stays _ (congrArg (·.state) (control_writing hw' h8)) (by simp [hc]) (by simp [hc])
  · by_cases h8 : s.control.counterTime = 8
    · exact stays _ (congrArg (·.state) (LcdControl.clock_data_done hc h8)) (by simp [hc])
        (by simp)
    · have hw' : LcdControl.writing s.control.state = true := by rw [hc]; rfl
      exact stays _ (congrArg (·.state) (control_writing hw' h8)) (by simp [hc]) (by simp [hc])
  · -- `Check_Command`: a memory write starts the DMA and is checked again
    have hctl : (step s i).control.state =
        if LcdControl.memoryWrite i.commandData then .checkCommand else .endCommandData := by
      simp [step, LcdControl.clock_checkCommand hc, controlInputs, hready]
    cases hmw : LcdControl.memoryWrite i.commandData with
    | true =>
      right
      refine ⟨by simp [hctl, hmw], ?_, ?_, hst', hp'⟩
      · rw [hu (.inr hc) hmw]
        exact hmw
      · simp [hm', LcdControl.masterStart, hc, controlInputs, hmw]
    | false =>
      left
      refine ⟨by simp [hctl, hmw], ?_, hst', hp'⟩
      simp [hm', LcdControl.masterStart, hc, controlInputs, hmw]
  · refine stays _ (congrArg (·.state) (LcdControl.clock_endCommandData hc)) (by simp [hc]) ?_
    simp only
    split <;> simp

theorem copying_step (hs : Sound s) (h : Copying s i) : Fetching (step s i) := by
  obtain ⟨hc, hmw, hm, hst, hp⟩ := h
  have hp' := pending_step (i := i) hs (by simp [hm]) hp
  have hread : fifoRead s i = false := fifoRead_false (by simp [hc]) (by simp [hc])
  have hst' : F.stored (step s i).fifo = [] :=
    (fifo_idle (fifoWrite_none (by simp [hm])) hread).1.trans hst
  have hm' : (step s i).master.state = .assertReadData := by
    simp [step, LcdMaster.clock_copy hm, masterInputs, F.empty_of_nil _ hst]
  refine ⟨?_, by simp [hm'], by simp [hm'], fun _ => hp', ?_, ?_, ?_, by simp [hm'], ?_⟩
  · simp [step, LcdControl.clock_checkCommand hc, controlInputs, hmw, LcdMaster.masterReady, hm]
  · simp [fill, hst', hp']
  · simp [fill, hst', hp']
  · simp [fill, hst']
  · simp [hm', settledFor]

/-- A beat finds room in the FIFO, and the FIFO knows. -/
theorem Fetching.notFull (hs : Sound s) (h : Fetching s) (hp : s.pending ≠ []) :
    F.full s.fifo = false := by
  have hrest := hs.rested
  have hlevel := h.level
  have hpos := List.length_pos_of_ne_nil hp
  rw [h.control] at hrest
  apply F.full_settled
  · exact le_trans (by simp [restedFor]) hrest
  · unfold fill at hlevel
    omega

/-- A beat goes to the FIFO in the cycle in which it arrives. -/
theorem Fetching.write (h : Fetching s) {w : BitVec 32} {ws : List (BitVec 32)}
    (hp : s.pending = w :: ws) (hb : i.beat = true) : fifoWrite s i = some w := by
  have hm : s.master.state = .readData := by
    by_contra hm
    rw [h.pending hm] at hp
    cases hp
  have hcount := h.beats hm
  rw [hp, List.length_cons] at hcount
  have h16 : s.master.counterWord ≠ 16 := by omega
  simp [fifoWrite, LcdMaster.writeFifo, LcdMaster.writeFifoData, masterInputs, avmReadDataValid,
    hm, hp, hb, h16]

/-- The edge of the FIFO and the bus while the controller waits, when nothing is written. -/
theorem Fetching.idle (h : Fetching s) (hw : fifoWrite s i = none) :
    fill (step s i) = fill s ∧ F.sinceWrite (step s i).fifo = F.sinceWrite s.fifo + 1 := by
  have hread : fifoRead s i = false :=
    fifoRead_false (by simp [h.control]) (by simp [h.control])
  exact ⟨fill_idle hw hread, (fifo_idle hw hread).2.2⟩

/-- The controller stays in `Check_Master` while the DMA is neither ready nor waiting. -/
theorem Fetching.control_step (h : Fetching s) (hi : s.master.state ≠ .init)
    (hw : s.master.state ≠ .waitLcdControl) : (step s i).control.state = .checkMaster := by
  simp [step, LcdControl.clock_checkMaster h.control, controlInputs, LcdMaster.masterReady,
    LcdMaster.masterWaiting, hi, hw]

theorem fetching_init (hs : Sound s) (h : Fetching s) (hm : s.master.state = .init) :
    Draining (step s i) := by
  have hp := h.pending (by simp [hm])
  obtain ⟨hw, hp', hm'⟩ := init_edge (i := i) hs hm hp
  have hset := h.settled
  rw [hm] at hset
  refine ⟨.inl ?_, ?_, hp', ?_⟩
  · simp [step, LcdControl.clock_checkMaster h.control, controlInputs, LcdMaster.masterReady, hm]
  · simp [hm', masterStart_false, h.control]
  · rw [(h.idle hw).2]
    exact Nat.succ_le_succ hset

theorem fetching_waitLcdControl (hs : Sound s) (h : Fetching s)
    (hm : s.master.state = .waitLcdControl) : Draining16 (step s i) := by
  have hp := h.pending (by simp [hm])
  have hw : fifoWrite s i = none := fifoWrite_none (by simp [hm])
  have hset := h.settled
  rw [hm] at hset
  have hctl : (step s i).control = { s.control with state := .empty16 } := by
    simp [step, LcdControl.clock_checkMaster h.control, controlInputs, LcdMaster.masterReady,
      LcdMaster.masterWaiting, hm]
  have hzero := hs.counters.word_zero (by simp [h.control]) (by simp [h.control])
  refine ⟨.inl (by rw [hctl]), ?_, pending_step hs (by simp [hm]) hp, ?_, ?_⟩
  · simp [step, LcdMaster.clock_waitLcdControl hm, masterInputs, write16_false, h.control]
  · rw [hctl, (h.idle hw).1]
    simpa [hzero] using h.full hm
  · rw [(h.idle hw).2]
    exact Nat.le_succ_of_le hset

/-- `Read_Data` without a beat. -/
theorem fetching_noBeat (hs : Sound s) (h : Fetching s) (hm : s.master.state = .readData)
    (hv : avmReadDataValid s i = false) : Fetching (step s i) := by
  have hctl := h.control_step (i := i) (by simp [hm]) (by simp [hm])
  have hcount := h.beats hm
  have hw : fifoWrite s i = none := by
    simp [fifoWrite, LcdMaster.writeFifo, masterInputs, hv]
  have hp' : (step s i).pending = s.pending := by
    simp [step, burst, hs.bus.read, hm, hv]
  have hfill : fill (step s i) = fill s := (h.idle hw).1
  have hm' : (step s i).master = { s.master with
      state := if s.master.counterWord = 16 then .newAdd else .readData } := by
    show LcdMaster.clock s.master (masterInputs s i) = _
    rw [LcdMaster.clock_readData hm]
    simp [masterInputs, hv]
  have haligned : (fill (step s i) + 2 * (step s i).pending.length) % 32 = 0 := by
    rw [hfill, hp']
    exact h.aligned
  have hlevel : fill (step s i) + 2 * (step s i).pending.length ≤ 1024 := by
    rw [hfill, hp']
    exact h.level
  by_cases h16 : s.master.counterWord = 16
  · have hnil : s.pending = [] := List.length_eq_zero_iff.mp (by omega)
    refine ⟨hctl, by simp [hm', h16], by simp [hm', h16], fun _ => hp'.trans hnil, haligned,
      hlevel, by simp [LcdMaster.addressing, hm', h16], by simp [hm', h16], ?_⟩
    simp [hm', h16, settledFor, (h.idle hw).2]
  · refine ⟨hctl, by simp [hm', h16], fun _ => ?_, by simp [hm', h16], haligned, hlevel,
      by simp [LcdMaster.addressing, hm', h16], by simp [hm', h16],
      by simp [hm', h16, settledFor]⟩
    rw [hp', hm']
    exact hcount

/-- `Read_Data` with a beat: one word more in the FIFO, one less owed. -/
theorem fetching_beat (hs : Sound s) (h : Fetching s) {w : BitVec 32} {ws : List (BitVec 32)}
    (hm : s.master.state = .readData) (hp : s.pending = w :: ws) (hb : i.beat = true) :
    Fetching (step s i) := by
  have hctl := h.control_step (i := i) (by simp [hm]) (by simp [hm])
  have hcount := h.beats hm
  have hlevel := h.level
  have halign := h.aligned
  have hlen : s.pending.length = ws.length + 1 := by simp [hp]
  have hv : avmReadDataValid s i = true := by simp [avmReadDataValid, hb, hp]
  have h16 : s.master.counterWord ≠ 16 := by omega
  have hm' : (step s i).master = { s.master with counterWord := s.master.counterWord + 1 } := by
    show LcdMaster.clock s.master (masterInputs s i) = _
    rw [LcdMaster.clock_readData hm]
    simp [h16, masterInputs, hv, hm]
  have hread : fifoRead s i = false :=
    fifoRead_false (by simp [h.control]) (by simp [h.control])
  have hst : F.stored (step s i).fifo = F.stored s.fifo ++ halves w := by
    simp only [step, h.write hp hb, hread]
    exact MixedFifo.stored_write w (h.notFull hs (by simp [hp]))
  have hfill : fill (step s i) = fill s + 2 := by
    simp [fill, hst, halves]
  have hp' : (step s i).pending = ws := by simp [step, burst, hs.bus.read, hm, hv, hp]
  refine ⟨hctl, by simp [hm', hm], fun _ => ?_, fun hne => ?_, ?_, ?_, ?_, ?_, ?_⟩
  · rw [hp', hm']
    simp only
    omega
  · exact absurd (by rw [hm']; exact hm) hne
  · rw [hfill, hp']
    omega
  · rw [hfill, hp']
    omega
  · simp [LcdMaster.addressing, hm', hm]
  · simp [hm', hm]
  · simp [hm', hm, settledFor]

/-- The words of an accepted burst. -/
theorem burst_accepted (hs : Sound s) (hm : s.master.state = .checkWaitRequest)
    (hwait : i.avmWaitRequest = false) : burst s i = words i.memory s.master.add 16 := by
  simp [burst, hs.bus.read, hm, hwait, LcdMaster.avmAddress, LcdMaster.avmBurstCount,
    LcdMaster.addressing]

/-- The burst is accepted. -/
theorem fetching_accepted (hs : Sound s) (h : Fetching s)
    (hm : s.master.state = .checkWaitRequest) (hwait : i.avmWaitRequest = false) :
    Fetching (step s i) := by
  have hctl := h.control_step (i := i) (by simp [hm]) (by simp [hm])
  have hp := h.pending (by simp [hm])
  have hw : fifoWrite s i = none := fifoWrite_none (by simp [hm])
  have hfill : fill (step s i) = fill s := (h.idle hw).1
  have hm' : (step s i).master = { s.master with state := .readData, avmRead := false } := by
    show LcdMaster.clock s.master (masterInputs s i) = _
    rw [LcdMaster.clock_checkWaitRequest hm]
    simp [masterInputs, hwait]
  have hp' : (step s i).pending.length = 16 := by
    simp [step, hp, burst_accepted hs hm hwait, words]
  have hzero := hs.bus.word_zero (by simp [hm]) (by simp [hm])
  have hroom := h.room (by simp [LcdMaster.addressing, hm])
  have halign := h.aligned
  rw [hp] at halign
  refine ⟨hctl, by simp [hm'], fun _ => ?_, by simp [hm'], ?_, ?_,
    by simp [LcdMaster.addressing, hm'], by simp [hm'], by simp [hm', settledFor]⟩
  · rw [hp', hm', hzero]
  · rw [hfill, hp']
    simpa [Nat.add_mod] using halign
  · rw [hfill, hp']
    omega

/-- An edge that moves no word and takes the DMA to a state `m'` without beats. -/
theorem Fetching.move (h : Fetching s) {m' : LcdMaster.State}
    (hi : s.master.state ≠ .init) (hr : s.master.state ≠ .readData)
    (hwt : s.master.state ≠ .waitLcdControl) (hm' : (step s i).master.state = m')
    (hp' : (step s i).pending = []) (hcopy : m' ≠ .copy) (hread : m' ≠ .readData)
    (hroom : m' = .assertReadData ∨ m' = .checkWaitRequest → fill s ≤ 992)
    (hfull : m' = .waitLcdControl → fill s = 1024)
    (hset : settledFor m' ≤ F.sinceWrite s.fifo + 1) : Fetching (step s i) := by
  have hw : fifoWrite s i = none := fifoWrite_none hr
  have hfill : fill (step s i) = fill s := (h.idle hw).1
  have hp := h.pending hr
  have halign := h.aligned
  have hlevel := h.level
  rw [hp] at halign hlevel
  subst hm'
  refine ⟨h.control_step hi hwt, hcopy, fun hm => absurd hm hread, fun _ => hp', ?_, ?_, ?_, ?_,
    ?_⟩
  · rw [hfill, hp']
    exact halign
  · rw [hfill, hp']
    exact hlevel
  · intro hadd
    rw [hfill]
    apply hroom
    simpa [LcdMaster.addressing] using hadd
  · rw [hfill]
    exact hfull
  · rw [(h.idle hw).2]
    exact hset

theorem fetching_checkFifo (hs : Sound s) (h : Fetching s)
    (hm : s.master.state = .checkFifo) : Fetching (step s i) := by
  have hp := h.pending (by simp [hm])
  have hp' := pending_step (i := i) hs (by simp [hm]) hp
  have halign := h.aligned
  have hlevel := h.level
  rw [hp, List.length_nil] at halign hlevel
  have hset := h.settled
  rw [hm] at hset
  have hrest := hs.rested
  rw [h.control] at hrest
  have hm' : (step s i).master.state =
      if F.full s.fifo then .waitLcdControl else .assertReadData := by
    simp [step, LcdMaster.clock_checkFifo hm, masterInputs]
  cases hfull : F.full s.fifo with
  | true =>
    rw [hfull, if_pos rfl] at hm'
    refine h.move (by simp [hm]) (by simp [hm]) (by simp [hm]) hm' hp' (by simp) (by simp)
      (by simp) (fun _ => ?_) (Nat.succ_le_succ hset)
    -- a full FIFO holds 1024 halves: the flag has had time to settle
    have hno : ¬ (F.stored s.fifo).length + 2 ≤ 1024 := by
      intro hle
      rw [F.full_settled _ (le_trans (by simp [restedFor]) hrest) hle] at hfull
      cases hfull
    unfold fill at halign hlevel ⊢
    omega
  | false =>
    rw [hfull] at hm'
    refine h.move (by simp [hm]) (by simp [hm]) (by simp [hm]) hm' hp' (by simp) (by simp)
      (fun _ => ?_) (by simp) (by simp [settledFor])
    have hno : ¬ 1024 < (F.stored s.fifo).length + 2 := by
      intro hlt
      rw [F.full_of_no_room _ hlt] at hfull
      cases hfull
    unfold fill at halign hlevel ⊢
    omega

theorem fetching_step (hs : Sound s) (h : Fetching s) (i : Inputs) :
    Fetching (step s i) ∨ Draining16 (step s i) ∨ Draining (step s i) := by
  cases hm : s.master.state with
  | copy => exact absurd hm h.master
  | init => exact .inr (.inr (fetching_init hs h hm))
  | waitLcdControl => exact .inr (.inl (fetching_waitLcdControl hs h hm))
  | checkFifo => exact .inl (fetching_checkFifo hs h hm)
  | readData =>
    left
    cases hv : avmReadDataValid s i with
    | false => exact fetching_noBeat hs h hm hv
    | true =>
      obtain ⟨hb, hne⟩ : i.beat = true ∧ s.pending ≠ [] := by
        simpa [avmReadDataValid] using hv
      obtain ⟨w, ws, hp⟩ := List.exists_cons_of_ne_nil hne
      exact fetching_beat hs h hm hp hb
  | checkWaitRequest =>
    left
    have hp := h.pending (by simp [hm])
    cases hwait : i.avmWaitRequest with
    | false => exact fetching_accepted hs h hm hwait
    | true =>
      have hm' : (step s i).master.state = .checkWaitRequest := by
        simp [step, LcdMaster.clock_checkWaitRequest hm, masterInputs, hwait]
      have hp' : (step s i).pending = [] := by simp [step, burst, hp, hwait]
      exact h.move (by simp [hm]) (by simp [hm]) (by simp [hm]) hm' hp' (by simp) (by simp)
        (fun _ => h.room (by simp [LcdMaster.addressing, hm])) (by simp) (by simp [settledFor])
  | assertReadData =>
    left
    have hm' : (step s i).master.state = .checkWaitRequest := by
      simp [step, LcdMaster.clock_assertReadData hm]
    have hp' := pending_step (i := i) hs (by simp [hm]) (h.pending (by simp [hm]))
    exact h.move (by simp [hm]) (by simp [hm]) (by simp [hm]) hm' hp' (by simp) (by simp)
      (fun _ => h.room (by simp [LcdMaster.addressing, hm])) (by simp) (by simp [settledFor])
  | newAdd =>
    left
    have hm' : (step s i).master.state = .checkAdd := by
      simp [step, LcdMaster.clock_newAdd hm]
    have hp' := pending_step (i := i) hs (by simp [hm]) (h.pending (by simp [hm]))
    have hset := h.settled
    rw [hm] at hset
    exact h.move (by simp [hm]) (by simp [hm]) (by simp [hm]) hm' hp' (by simp) (by simp)
      (by simp) (by simp) (Nat.succ_le_succ hset)
  | checkAdd =>
    left
    have hp' := pending_step (i := i) hs (by simp [hm]) (h.pending (by simp [hm]))
    have hset := h.settled
    rw [hm] at hset
    by_cases hend : s.master.add = s.master.endAdd
    · have hm' : (step s i).master.state = .init := by
        simp [step, LcdMaster.clock_checkAdd hm, hend]
      exact h.move (by simp [hm]) (by simp [hm]) (by simp [hm]) hm' hp' (by simp) (by simp)
        (by simp) (by simp) (Nat.succ_le_succ hset)
    · have hm' : (step s i).master.state = .checkFifo := by
        simp [step, LcdMaster.clock_checkAdd hm, hend]
      exact h.move (by simp [hm]) (by simp [hm]) (by simp [hm]) hm' hp' (by simp) (by simp)
        (by simp) (by simp) (Nat.succ_le_succ hset)

/-- While 16 words are taken out the FIFO has words and knows it. -/
theorem Draining16.notEmpty (hs : Sound s) (h : Draining16 s) : F.empty s.fifo = false := by
  apply F.empty_settled _ h.settled
  intro hnil
  have hlevel := h.level
  have hle := hs.counters.word_le
  rw [fill, hnil, List.length_nil] at hlevel
  split at hlevel <;> omega

theorem draining16_step (hs : Sound s) (h : Draining16 s) (i : Inputs) :
    Draining16 (step s i) ∨ Fetching (step s i) := by
  have hempty := h.notEmpty hs
  obtain ⟨hc, hm, hp, hlevel, hset⟩ := h
  have hw : fifoWrite s i = none := fifoWrite_none (by simp [hm])
  have hp' := pending_step (i := i) hs (by simp [hm]) hp
  have hset' : 4 ≤ F.sinceWrite (step s i).fifo := by
    simp only [step, hw, MixedFifo.sinceWrite_idle]
    exact Nat.le_succ_of_le hset
  have hm' : (step s i).master.state =
      if LcdControl.write16 s.control then .assertReadData else .waitLcdControl := by
    simp [step, LcdMaster.clock_waitLcdControl hm, masterInputs]
  rcases hc with hc | hc
  · by_cases h32 : s.control.counterWord = 32
    · -- 16 words are out: `Write_16`
      right
      have hread : fifoRead s i = false := by simp [fifoRead, LcdControl.readFifo, hc, h32]
      have hfill : fill (step s i) = fill s := fill_idle hw hread
      have h992 : fill s = 992 := by
        simp only [hc, h32, reduceCtorEq, if_false] at hlevel
        omega
      have hma : (step s i).master.state = .assertReadData := by
        simp [hm', LcdControl.write16, hc, h32]
      refine ⟨?_, by simp [hma], by simp [hma], fun _ => hp', ?_, ?_, ?_, by simp [hma],
        by simp [hma, settledFor]⟩
      · simp [step, LcdControl.clock_empty16 hc, h32]
      · simp [hfill, h992, hp']
      · simp [hfill, h992, hp']
      · simp [hfill, h992]
    · -- one half is read
      left
      have hread : fifoRead s i = true := by simp [fifoRead, LcdControl.readFifo, hc, h32]
      obtain ⟨x, xs, hst⟩ := F.exists_cons hempty
      have hfill : fill (step s i) + 1 = fill s := by
        simp only [fill, step, hw, hread]
        rw [(MixedFifo.step_read hempty hst).1, hst, List.length_cons]
      have hctl : (step s i).control = { s.control with state := .display16 } := by
        simp [step, LcdControl.clock_empty16 hc, h32]
      refine ⟨.inr (by rw [hctl]), by simp [hm', LcdControl.write16, h32], hp', ?_, hset'⟩
      rw [hctl]
      simp only [hc, reduceCtorEq, if_false] at hlevel
      simp only [if_true]
      omega
  · left
    have hread : fifoRead s i = false := fifoRead_false (by simp [hc]) (by simp [hc])
    have hfill : fill (step s i) = fill s := fill_idle hw hread
    have hmw : (step s i).master.state = .waitLcdControl := by
      simp [hm', write16_false, hc]
    by_cases h8 : s.control.counterTime = 8
    · have hctl : (step s i).control = ⟨.empty16, 0, s.control.counterWord + 1⟩ :=
        LcdControl.clock_display16_done hc h8
      refine ⟨.inl (by rw [hctl]), hmw, hp', ?_, hset'⟩
      rw [hctl, hfill]
      simp only [hc, if_true] at hlevel
      simp only [reduceCtorEq, if_false]
      omega
    · have hctl := control_writing (i := i) (s := s) (by rw [hc]; rfl) h8
      refine ⟨.inr (by rw [hctl]; exact hc), hmw, hp', ?_, hset'⟩
      rw [hctl, hfill]
      exact hlevel

theorem draining_step (hs : Sound s) (h : Draining s) (i : Inputs) :
    Draining (step s i) ∨ Ending (step s i) := by
  obtain ⟨hc, hm, hp, hset⟩ := h
  obtain ⟨hw, hp', hm'⟩ := init_edge (i := i) hs hm hp
  have hset' : 4 ≤ F.sinceWrite (step s i).fifo := by
    simp only [step, hw, MixedFifo.sinceWrite_idle]
    exact Nat.le_succ_of_le hset
  have hmi : (step s i).master.state = .init := by
    rcases hc with hc | hc <;> simp [hm', masterStart_false, hc]
  rcases hc with hc | hc
  · cases hempty : F.empty s.fifo with
    | true =>
      -- the flag has had time to settle: nothing is left
      right
      have hread : fifoRead s i = false := by
        simp [fifoRead, LcdControl.readFifo, hc, controlInputs, hempty]
      have hnil : F.stored s.fifo = [] := by
        by_contra hne
        rw [F.empty_settled _ hset hne] at hempty
        cases hempty
      refine ⟨?_, hmi, (fifo_idle hw hread).1.trans hnil, hp'⟩
      simp [step, LcdControl.clock_empty hc, controlInputs, hempty]
    | false =>
      left
      refine ⟨.inr ?_, hmi, hp', hset'⟩
      simp [step, LcdControl.clock_empty hc, controlInputs, hempty]
  · left
    by_cases h8 : s.control.counterTime = 8
    · exact ⟨.inl (congrArg (·.state) (LcdControl.clock_display_done hc h8)), hmi, hp', hset'⟩
    · have hctl := control_writing (i := i) (s := s) (by rw [hc]; rfl) h8
      exact ⟨.inr (by rw [hctl]; exact hc), hmi, hp', hset'⟩

theorem ending_step (hs : Sound s) (h : Ending s) (i : Inputs) :
    Ending (step s i) ∨ Quiet (step s i) := by
  obtain ⟨hc, hm, hst, hp⟩ := h
  obtain ⟨hw, hp', hm'⟩ := init_edge (i := i) hs hm hp
  have hread : fifoRead s i = false := fifoRead_false (by simp [hc]) (by simp [hc])
  have hst' : F.stored (step s i).fifo = [] := (fifo_idle hw hread).1.trans hst
  have hmi : (step s i).master.state = .init := by simp [hm', masterStart_false, hc]
  by_cases h8 : s.control.counterTime = 8
  · have hctl : (step s i).control.state =
        if i.stateCommandData = 1 then .endCommandData
          else if i.stateCommandData = 3 then .command else .endDisplay :=
      congrArg (·.state) (LcdControl.clock_endDisplay_done hc h8)
    split at hctl
    · exact .inr ⟨by simp [hctl], hmi, hst', hp'⟩
    · split at hctl
      · exact .inr ⟨by simp [hctl], hmi, hst', hp'⟩
      · exact .inl ⟨hctl, hmi, hst', hp'⟩
  · have hctl := control_writing (i := i) (s := s) (by rw [hc]; rfl) h8
    exact .inl ⟨by rw [hctl]; exact hc, hmi, hst', hp'⟩

/-- **Step lemma**: every edge leads from a joint state to a joint state. -/
theorem joint_step (hs : Sound s) {i' : Inputs} (h : Joint s i) (hu : Undisturbed s i i') :
    Joint (step s i) i' := by
  cases h with
  | quiet h =>
    rcases quiet_step hs h hu with h' | h'
    · exact .quiet h'
    · exact .copying h'
  | copying h => exact .fetching (copying_step hs h)
  | fetching h =>
    rcases fetching_step hs h i with h' | h' | h'
    · exact .fetching h'
    · exact .draining16 h'
    · exact .draining h'
  | draining16 h =>
    rcases draining16_step hs h i with h' | h'
    · exact .draining16 h'
    · exact .fetching h'
  | draining h =>
    rcases draining_step hs h i with h' | h'
    · exact .draining h'
    · exact .ending h'
  | ending h =>
    rcases ending_step hs h i with h' | h'
    · exact .ending h'
    · exact .quiet h'

end Edge

/-! ## Runs -/

section Runs

variable (F : PixelFifo) (inp : Nat → Inputs)

theorem sound_init : Sound (machine F).init :=
  ⟨LcdControl.countersOk_reset, LcdMaster.busOk_reset, Nat.zero_le _⟩

theorem sound_run (n : Nat) : Sound (regs F inp n) :=
  Machine.run_invariant (sound_init F) (fun _ i hs => hs.step i) n

/-- **The joint invariant** holds in every cycle, for every FIFO that keeps to its data sheet,
every bus timing and every CPU that does not disturb a memory write. -/
theorem joint_run (n : Nat)
    (hcpu : ∀ k < n, Undisturbed (regs F inp k) (inp k) (inp (k + 1))) :
    Joint (regs F inp n) (inp n) := by
  have hquiet : Quiet (machine F).init := ⟨.inl rfl, rfl, F.stored_init, rfl⟩
  have hboth : Sound (regs F inp n) ∧ Joint (regs F inp n) (inp n) :=
    Machine.run_invariant_under (I := fun s i => Sound s ∧ Joint s i) (A := Undisturbed)
      ⟨sound_init F, .quiet hquiet⟩
      (fun _ i _ hu h => ⟨h.1.step i, joint_step h.1 h.2 hu⟩) n hcpu
  exact hboth.2

end Runs

end CameraLcd.FullLcd
