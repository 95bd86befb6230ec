import Mathlib.Data.Vector.Basic
import CameraLcd.Lib.Clocked

/-!
# `Camera_Master_Interface`: the camera's write DMA

The clocked process `Avalon_Bus` of `hw/hdl/Camera/Camera_Master_Interface.vhd`, one register per
signal or variable of the process.

* `reset` — the branch `Reset_n = '0'`.  `Buffer_Saved` is the one register it leaves alone.
* `clock` — the branch `rising_edge(Clk)`.  Signals read in a cycle have their values from before
  the edge, so every right-hand side below refers to the registers `r`; `Indice_Memory_Zone` is a
  variable, written once at most in a cycle.
* `rotate` — the nested `case` that picks the next buffer from `Display_Buffer` and
  `Indice_Memory_Zone`.
* `machine` — the process started by a reset, `Buffer_Saved` having the given power-up value.

The variable `New_Address` and the ports `AM_readdatavalid` and `AM_DataRead` are never read by
the process.
-/

set_option autoImplicit false

namespace CameraLcd.CameraMaster

/-- `Master_State`. -/
inductive MasterState where
  | idleForReady
  | idleForData
  | clockWaitDataFifo
  | collectDataFifo
  | dmaSendInit
  | dmaSendLoop
  deriving DecidableEq, Repr

/-- `DATA`: `array (8 downto 0) of STD_LOGIC_VECTOR(31 downto 0)`. -/
abbrev Data := Vector (BitVec 32) 9

/-- The signals and variables the process drives, its output ports included. -/
structure Regs where
  state : MasterState
  currentAddress : BitVec 32
  baseAddress : BitVec 32
  offsetAddress : BitVec 32
  indiceArrayFifo : BitVec 5
  indiceArrayDma : BitVec 5
  dataArray : Data
  indiceMemoryZone : BitVec 2
  fifoReadRequest : Bool
  amAdresse : BitVec 32
  amByteEnable : BitVec 4
  amWrite : Bool
  amRead : Bool
  amDataWrite : BitVec 32
  amBurstCount : BitVec 4
  bufferSaved : BitVec 2
  deriving DecidableEq, Repr

/-- The input ports the process reads. -/
structure Inputs where
  address : BitVec 32
  lengthFrame : BitVec 32
  ready : Bool
  displayBuffer : BitVec 2
  fifoDataAvailable : Bool
  fifoReadData : BitVec 32
  amWaitRequest : Bool
  deriving DecidableEq, Repr

/-- `Reset_n = '0'`. -/
def reset (bufferSaved : BitVec 2) : Regs where
  state := .idleForReady
  currentAddress := 0
  baseAddress := 0
  offsetAddress := 0
  indiceArrayFifo := 0
  indiceArrayDma := 0
  dataArray := Vector.replicate 9 0
  indiceMemoryZone := 0
  fifoReadRequest := false
  amAdresse := 0
  amByteEnable := 0
  amWrite := false
  amRead := false
  amDataWrite := 0
  amBurstCount := 0
  bufferSaved := bufferSaved

/-- The nested `case Display_Buffer` / `case Indice_Memory_Zone`: the next zone and its base. -/
def rotate (displayBuffer zone : BitVec 2) (address lengthFrame : BitVec 32) :
    BitVec 2 × BitVec 32 :=
  match displayBuffer with
  | 0 =>
    match zone with
    | 1 => (2, address + lengthFrame + lengthFrame)
    | _ => (1, address + lengthFrame)
  | 1 =>
    match zone with
    | 2 => (0, address)
    | _ => (2, address + lengthFrame + lengthFrame)
  | 2 =>
    match zone with
    | 0 => (1, address + lengthFrame)
    | _ => (0, address)
  | _ => (0, address)

/-- The choice of the zone does not look at the addresses. -/
theorem rotate_zone (d z : BitVec 2) (a l : BitVec 32) :
    (rotate d z a l).1 = (rotate d z 0 0).1 := by
  unfold rotate
  repeat' split
  all_goals rfl

/-- The rotation leaves the buffer just written and the buffer on display alone. -/
theorem rotate_avoids (d z : BitVec 2) (a l : BitVec 32) (hd : d ≠ 3) (hz : z ≠ 3) :
    (rotate d z a l).1 ≠ z ∧ (rotate d z a l).1 ≠ d ∧ (rotate d z a l).1 ≠ 3 := by
  rw [rotate_zone]
  revert d z
  decide

theorem rotate_ne_three (d z : BitVec 2) (a l : BitVec 32) : (rotate d z a l).1 ≠ 3 := by
  rw [rotate_zone]
  revert d z
  decide

/-- The base of the zone picked is the start address plus so many buffer lengths. -/
theorem rotate_base (d z : BitVec 2) (a l : BitVec 32) :
    (rotate d z a l).2 = a + (rotate d z a l).1.setWidth 32 * l := by
  unfold rotate
  repeat' split
  all_goals simp
  all_goals bv_omega

/-- The new-frame test of `IDLE_FOR_READY`: all of the current buffer has been written. -/
def newFrame (r : Regs) (i : Inputs) : Bool := decide (r.offsetAddress ≥ i.lengthFrame)

/-- `when IDLE_FOR_READY`. -/
def idleForReady (r : Regs) (i : Inputs) : Regs :=
  let idle := { r with amWrite := false, amBurstCount := 0 }
  if i.ready then
    let go := { idle with state := .idleForData, indiceArrayDma := 0, indiceArrayFifo := 0 }
    if newFrame r i then
      -- `Buffer_Saved` takes the zone of the frame just written, before the rotation
      { go with
        offsetAddress := 0
        bufferSaved := r.indiceMemoryZone
        indiceMemoryZone :=
          (rotate i.displayBuffer r.indiceMemoryZone i.address i.lengthFrame).1
        baseAddress := (rotate i.displayBuffer r.indiceMemoryZone i.address i.lengthFrame).2 }
    else go
  else { idle with currentAddress := 0, offsetAddress := 0, baseAddress := i.address }

/-- `when IDLE_FOR_DATA`.  `FIFO_Data_Available` is the `almost_empty` flag: low means that a
burst can be read. -/
def idleForData (r : Regs) (i : Inputs) : Regs :=
  let addressed := { r with currentAddress := r.baseAddress + r.offsetAddress }
  if !i.fifoDataAvailable && i.ready then
    { addressed with fifoReadRequest := true, state := .clockWaitDataFifo }
  else if !i.ready then { addressed with state := .idleForReady }
  else addressed

/-- `when Collect_Data_FIFO`. -/
def collectDataFifo (r : Regs) (i : Inputs) : Regs :=
  let r' := { r with
    dataArray := r.dataArray.setIfInBounds r.indiceArrayFifo.toNat i.fifoReadData
    indiceArrayFifo := r.indiceArrayFifo + 1 }
  if r.indiceArrayFifo = 7 then { r' with state := .dmaSendInit }
  else if r.indiceArrayFifo = 6 then { r' with fifoReadRequest := false }
  else r'

/-- `when DMA_Send_Init`. -/
def dmaSendInit (r : Regs) : Regs :=
  { r with
    amWrite := true
    amAdresse := r.currentAddress
    amBurstCount := 8
    amByteEnable := 15
    amDataWrite := r.dataArray.getD 0 0
    state := .dmaSendLoop }

/-- `when DMA_Send_Loop`. -/
def dmaSendLoop (r : Regs) (i : Inputs) : Regs :=
  if !i.amWaitRequest then
    let r' := { r with amDataWrite := r.dataArray.getD (r.indiceArrayDma + 1).toNat 0 }
    if r.indiceArrayDma < 6 then { r' with indiceArrayDma := r.indiceArrayDma + 1 }
    else { r' with offsetAddress := r.offsetAddress + 32, state := .idleForReady }
  else r

/-- `rising_edge(Clk)`. -/
def clock (r : Regs) (i : Inputs) : Regs :=
  match r.state with
  | .idleForReady => idleForReady r i
  | .idleForData => idleForData r i
  | .clockWaitDataFifo => { r with state := .collectDataFifo }
  | .collectDataFifo => collectDataFifo r i
  | .dmaSendInit => dmaSendInit r
  | .dmaSendLoop => dmaSendLoop r i

/-! ## What one edge can do -/

/-- The registers after an edge, one constructor for each path through the process. -/
inductive Edge (r : Regs) (i : Inputs) : Regs → Prop where
  /-- `IDLE_FOR_READY`, `Ready = '0'`. -/
  | stop (hs : r.state = .idleForReady) (hr : i.ready = false) :
      Edge r i { r with
        amWrite := false, amBurstCount := 0
        currentAddress := 0, offsetAddress := 0, baseAddress := i.address }
  /-- `IDLE_FOR_READY`, inside a frame. -/
  | resume (hs : r.state = .idleForReady) (hr : i.ready = true) (hn : newFrame r i = false) :
      Edge r i { r with
        amWrite := false, amBurstCount := 0
        state := .idleForData, indiceArrayDma := 0, indiceArrayFifo := 0 }
  /-- `IDLE_FOR_READY`, the frame is complete. -/
  | publish (hs : r.state = .idleForReady) (hr : i.ready = true) (hn : newFrame r i = true) :
      Edge r i { r with
        amWrite := false, amBurstCount := 0
        state := .idleForData, indiceArrayDma := 0, indiceArrayFifo := 0
        offsetAddress := 0, bufferSaved := r.indiceMemoryZone
        indiceMemoryZone := (rotate i.displayBuffer r.indiceMemoryZone i.address i.lengthFrame).1
        baseAddress := (rotate i.displayBuffer r.indiceMemoryZone i.address i.lengthFrame).2 }
  /-- `IDLE_FOR_DATA`, fewer than a burst of words in the FIFO. -/
  | await (hs : r.state = .idleForData) (hr : i.ready = true) (hd : i.fifoDataAvailable = true) :
      Edge r i { r with currentAddress := r.baseAddress + r.offsetAddress }
  /-- `IDLE_FOR_DATA`, a burst of words in the FIFO. -/
  | fetch (hs : r.state = .idleForData) (hr : i.ready = true) (hd : i.fifoDataAvailable = false) :
      Edge r i { r with
        currentAddress := r.baseAddress + r.offsetAddress
        fifoReadRequest := true, state := .clockWaitDataFifo }
  /-- `IDLE_FOR_DATA`, `Ready = '0'`. -/
  | abort (hs : r.state = .idleForData) (hr : i.ready = false) :
      Edge r i { r with
        currentAddress := r.baseAddress + r.offsetAddress, state := .idleForReady }
  | clockWait (hs : r.state = .clockWaitDataFifo) : Edge r i { r with state := .collectDataFifo }
  /-- `Collect_Data_FIFO`, words 0 to 5. -/
  | collect (hs : r.state = .collectDataFifo) (h6 : r.indiceArrayFifo ≠ 6)
      (h7 : r.indiceArrayFifo ≠ 7) :
      Edge r i { r with
        dataArray := r.dataArray.setIfInBounds r.indiceArrayFifo.toNat i.fifoReadData
        indiceArrayFifo := r.indiceArrayFifo + 1 }
  /-- `Collect_Data_FIFO`, word 6: the read request is dropped. -/
  | collectRelease (hs : r.state = .collectDataFifo) (h6 : r.indiceArrayFifo = 6) :
      Edge r i { r with
        dataArray := r.dataArray.setIfInBounds r.indiceArrayFifo.toNat i.fifoReadData
        indiceArrayFifo := r.indiceArrayFifo + 1, fifoReadRequest := false }
  /-- `Collect_Data_FIFO`, word 7. -/
  | collectLast (hs : r.state = .collectDataFifo) (h7 : r.indiceArrayFifo = 7) :
      Edge r i { r with
        dataArray := r.dataArray.setIfInBounds r.indiceArrayFifo.toNat i.fifoReadData
        indiceArrayFifo := r.indiceArrayFifo + 1, state := .dmaSendInit }
  | sendInit (hs : r.state = .dmaSendInit) : Edge r i (dmaSendInit r)
  /-- `DMA_Send_Loop`, the beat is refused. -/
  | stall (hs : r.state = .dmaSendLoop) (hw : i.amWaitRequest = true) : Edge r i r
  /-- `DMA_Send_Loop`, one of the beats 0 to 5 is accepted. -/
  | beat (hs : r.state = .dmaSendLoop) (hw : i.amWaitRequest = false)
      (hd : r.indiceArrayDma < 6) :
      Edge r i { r with
        amDataWrite := r.dataArray.getD (r.indiceArrayDma + 1).toNat 0
        indiceArrayDma := r.indiceArrayDma + 1 }
  /-- `DMA_Send_Loop`, beat 6 is accepted: beat 7 is presented and the loop is left. -/
  | lastBeat (hs : r.state = .dmaSendLoop) (hw : i.amWaitRequest = false)
      (hd : ¬ r.indiceArrayDma < 6) :
      Edge r i { r with
        amDataWrite := r.dataArray.getD (r.indiceArrayDma + 1).toNat 0
        offsetAddress := r.offsetAddress + 32, state := .idleForReady }

/-- **Every edge takes one of the paths.** -/
theorem clock_edge (r : Regs) (i : Inputs) : Edge r i (clock r i) := by
  unfold clock
  split
  · rename_i hs
    unfold idleForReady
    cases hr : i.ready with
    | false => simpa using Edge.stop hs hr
    | true =>
      cases hn : newFrame r i with
      | false => simpa using Edge.resume hs hr hn
      | true => simpa using Edge.publish hs hr hn
  · rename_i hs
    unfold idleForData
    cases hr : i.ready with
    | false => simpa using Edge.abort hs hr
    | true =>
      cases hd : i.fifoDataAvailable with
      | false => simpa using Edge.fetch hs hr hd
      | true => simpa using Edge.await hs hr hd
  · rename_i hs
    exact .clockWait hs
  · rename_i hs
    unfold collectDataFifo
    by_cases h7 : r.indiceArrayFifo = 7
    · rw [if_pos h7]
      exact .collectLast hs h7
    · rw [if_neg h7]
      by_cases h6 : r.indiceArrayFifo = 6
      · rw [if_pos h6]
        exact .collectRelease hs h6
      · rw [if_neg h6]
        exact .collect hs h6 h7
  · rename_i hs
    exact .sendInit hs
  · rename_i hs
    unfold dmaSendLoop
    cases hw : i.amWaitRequest with
    | true => exact .stall hs hw
    | false =>
      simp only [Bool.not_false, if_true]
      by_cases hd : r.indiceArrayDma < 6
      · rw [if_pos hd]
        exact .beat hs hw hd
      · rw [if_neg hd]
        exact .lastBeat hs hw hd

theorem Edge.of_dmaSendInit {r r' : Regs} {i : Inputs} (h : Edge r i r')
    (hs : r.state = .dmaSendInit) : r' = dmaSendInit r := by
  cases h <;> simp_all

/-! ## Runs -/

/-- The process from reset on. -/
def machine (bufferSaved : BitVec 2) : Clocked.Machine Regs Inputs := ⟨reset bufferSaved, clock⟩

section Runs

variable (b0 : BitVec 2) (inp : Nat → Inputs)

/-- The registers in cycle `n` of a run from reset. -/
def regs (n : Nat) : Regs := (machine b0).run inp n

theorem edge_run (n : Nat) : Edge (regs b0 inp n) (inp n) (regs b0 inp (n + 1)) :=
  clock_edge _ _

variable {b0 inp}

/-- Invariant rule over the paths of the process. -/
theorem regs_invariant {I : Regs → Prop} (h0 : I (reset b0))
    (hs : ∀ r i r', Edge r i r' → I r → I r') (n : Nat) : I (regs b0 inp n) :=
  Clocked.Machine.run_invariant h0 (fun r i => hs r i _ (clock_edge r i)) n

end Runs

end CameraLcd.CameraMaster
