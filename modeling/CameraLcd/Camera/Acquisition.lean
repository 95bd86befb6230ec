import CameraLcd.Lib.Clocked
import CameraLcd.Lib.IdealFifo

/-!
# `Camera_Acquisition_module`

The process `Camera_Acq` of `hw/hdl/Camera/Camera_Acquisition_module.vhd` and its line FIFO.  The
process is clocked by the falling edge, `FIFO_Store_Line` by the rising edge of `Clk`.

* `fall` — the branch `falling_edge(Clk)`: the defaults, the `case State`, and the override
  `if Ready='0'` at its end.
* `Module.fall`, `Module.rise` — the two edges of the module: a set `Clear_FIFO_Store_Line` clears
  the FIFO at once, requests registered at a falling edge are served at the next rising edge.
* `cycle` — a falling edge and the rising edge after it.
* `fall_idleFrame`, `fall_lineStart`, … — a falling edge in each state.

`Pixel_Number` and `Line_Number` are integers of 32 bits, used for their parity.
-/

set_option autoImplicit false

namespace CameraLcd.Acquisition

open IdealFifo

/-- `Acquisition_State`. -/
inductive State where
  | idleFrame
  | idleLine
  | gettingPixels
  deriving DecidableEq, Repr

/-- The signals the process drives. -/
structure Regs where
  state : State
  pixelNumber : BitVec 32
  lineNumber : BitVec 32
  pixelValueEven : BitVec 5
  fvalPrevious : Bool
  lvalPrevious : Bool
  dataWriteFifo : BitVec 16
  writeReqFifo : Bool
  readReqFifo : Bool
  clearFifo : Bool
  outPixel : BitVec 16
  pixelValidOut : Bool
  deriving DecidableEq, Repr

/-- What the camera shows in one of its clocks. -/
structure Sample where
  fval : Bool
  lval : Bool
  data : BitVec 12
  deriving DecidableEq, Repr

/-- The input ports in a cycle. -/
structure Inputs where
  ready : Bool
  camera : Sample
  deriving DecidableEq, Repr

/-- `Reset_n = '0'`. -/
def reset : Regs where
  state := .idleFrame
  pixelNumber := 0
  lineNumber := 0
  pixelValueEven := 0
  fvalPrevious := true
  lvalPrevious := true
  dataWriteFifo := 0
  writeReqFifo := false
  readReqFifo := false
  clearFifo := true
  outPixel := 0
  pixelValidOut := false

/-- `Convert_Pixel(4 downto 0)` with `Convert_Pixel := unsigned(Data_Camera) * 31 / 4095`, a
product of 24 bits. -/
def convert (d : BitVec 12) : BitVec 5 := (d.setWidth 24 * 31#24 / 4095#24).setWidth 5

/-- `mod 2 = 1`. -/
def odd (x : BitVec 32) : Bool := decide (x.toNat % 2 = 1)

/-- The word of the line FIFO: red in 15..11, a green in 9..5. -/
def storeWord (even odd : BitVec 5) : BitVec 16 := odd ++ (0 : BitVec 1) ++ even ++ (0 : BitVec 5)

/-- `Out_Pixel` from the word read, `Pixel_Value_Even` and the sample of an odd line. -/
def pixel (word : BitVec 16) (even odd : BitVec 5) : BitVec 16 :=
  word.extractLsb' 11 5 ++ (even.setWidth 6 + (word.extractLsb' 5 5).setWidth 6) ++ odd

/-- The assignments before the `case`. -/
def defaults (r : Regs) (c : Sample) : Regs :=
  { r with
    fvalPrevious := c.fval
    lvalPrevious := c.lval
    clearFifo := false
    dataWriteFifo := 0
    writeReqFifo := false
    readReqFifo := false
    outPixel := 0
    pixelValidOut := false }

/-- The third branch of `when Getting_Pixels`: a sample is taken. -/
def takePixel (r : Regs) (c : Sample) (q : BitVec 16) : Regs :=
  let d := { defaults r c with pixelNumber := r.pixelNumber + 1 }
  let s := convert c.data
  match odd r.lineNumber, odd r.pixelNumber with
  | false, false => { d with pixelValueEven := s }
  | false, true => { d with dataWriteFifo := storeWord r.pixelValueEven s, writeReqFifo := true }
  | true, false => { d with pixelValueEven := s, readReqFifo := true }
  | true, true => { d with outPixel := pixel q r.pixelValueEven s, pixelValidOut := true }

/-- `falling_edge(Clk)`; `q` is `Data_Read_FIFO_Store_Line`. -/
def fall (r : Regs) (i : Inputs) (q : BitVec 16) : Regs :=
  let c := i.camera
  let d := defaults r c
  let r' := match r.state with
    | .idleFrame =>
      { d with
        state := if c.fval && !r.fvalPrevious && i.ready then .idleLine else .idleFrame
        pixelNumber := 0, lineNumber := 0, pixelValueEven := 0, clearFifo := true }
    | .idleLine =>
      if c.lval && !r.lvalPrevious then
        -- the first sample of a line is taken here
        { d with
          state := .gettingPixels, pixelValueEven := convert c.data, pixelNumber := 1
          readReqFifo := odd r.lineNumber }
      else { d with pixelNumber := 0, pixelValueEven := 0 }
    | .gettingPixels =>
      if !c.lval && (r.lvalPrevious && (c.fval && r.fvalPrevious)) then
        { d with state := .idleLine, lineNumber := r.lineNumber + 1 }
      else if !c.fval && r.fvalPrevious then { d with state := .idleFrame }
      else takePixel r c q
  if i.ready then r' else { r' with state := .idleFrame }

/-! ## A falling edge in each state -/

section Falls

variable {r : Regs} {i : Inputs} {q : BitVec 16}

theorem fall_idleFrame (hs : r.state = .idleFrame) : fall r i q = { defaults r i.camera with
    state := if i.camera.fval && !r.fvalPrevious && i.ready then .idleLine else .idleFrame
    pixelNumber := 0, lineNumber := 0, pixelValueEven := 0, clearFifo := true } := by
  cases hr : i.ready <;> simp [fall, hs, hr]

theorem fall_lineGap (hs : r.state = .idleLine) (hr : i.ready = true) (hl : i.camera.lval = false) :
    fall r i q = { defaults r i.camera with pixelNumber := 0, pixelValueEven := 0 } := by
  simp [fall, hs, hr, hl]

theorem fall_lineStart (hs : r.state = .idleLine) (hr : i.ready = true)
    (hl : i.camera.lval = true) (hp : r.lvalPrevious = false) :
    fall r i q = { defaults r i.camera with
      state := .gettingPixels, pixelValueEven := convert i.camera.data, pixelNumber := 1
      readReqFifo := odd r.lineNumber } := by
  simp [fall, hs, hr, hl, hp]

theorem fall_lineEnd (hs : r.state = .gettingPixels) (hr : i.ready = true)
    (hl : i.camera.lval = false) (hf : i.camera.fval = true) (hlp : r.lvalPrevious = true)
    (hfp : r.fvalPrevious = true) :
    fall r i q =
      { defaults r i.camera with state := .idleLine, lineNumber := r.lineNumber + 1 } := by
  simp [fall, hs, hr, hl, hf, hlp, hfp]

theorem fall_frameEnd (hs : r.state = .gettingPixels) (hr : i.ready = true)
    (hf : i.camera.fval = false) (hfp : r.fvalPrevious = true) :
    fall r i q = { defaults r i.camera with state := .idleFrame } := by
  simp [fall, hs, hr, hf, hfp]

theorem fall_takePixel (hs : r.state = .gettingPixels) (hr : i.ready = true)
    (hl : i.camera.lval = true) (hf : i.camera.fval = true) :
    fall r i q = takePixel r i.camera q := by
  simp [fall, hs, hr, hl, hf]

end Falls

/-! ## The module -/

/-- The process and the line FIFO. -/
structure Module where
  regs : Regs
  lineFifo : Queue (BitVec 16)
  deriving DecidableEq, Repr

/-- After a reset; the output of the FIFO has any value. -/
def Module.init (q : BitVec 16) : Module := ⟨reset, ⟨[], q⟩⟩

/-- A falling edge.  The clear of the FIFO is asynchronous. -/
def Module.fall (m : Module) (i : Inputs) : Module where
  regs := Acquisition.fall m.regs i m.lineFifo.q
  lineFifo :=
    if (Acquisition.fall m.regs i m.lineFifo.q).clearFifo then m.lineFifo.clear else m.lineFifo

/-- A rising edge: the FIFO of 1024 words serves the requests unless it is being cleared. -/
def Module.rise (m : Module) : Module where
  regs := m.regs
  lineFifo :=
    if m.regs.clearFifo then m.lineFifo.clear
    else m.lineFifo.edge 1024 (if m.regs.writeReqFifo then some m.regs.dataWriteFifo else none)
      m.regs.readReqFifo

/-- A falling edge and the rising edge after it. -/
def cycle (m : Module) (i : Inputs) : Module := (m.fall i).rise

/-- `Out_Pixel` in a cycle with `Pixel_Valid_Out = '1'`. -/
def output (m : Module) : Option (BitVec 16) :=
  if m.regs.pixelValidOut then some m.regs.outPixel else none

section Cycles

variable {m : Module} {i : Inputs}

theorem cycle_regs : (cycle m i).regs = fall m.regs i m.lineFifo.q := rfl

/-- A cycle that clears the FIFO. -/
theorem cycle_clear (h : (cycle m i).regs.clearFifo = true) :
    (cycle m i).lineFifo = m.lineFifo.clear := by
  rw [cycle_regs] at h
  simp [cycle, Module.rise, Module.fall, h, Queue.clear]

/-- A cycle that does not. -/
theorem cycle_edge (h : (cycle m i).regs.clearFifo = false) :
    (cycle m i).lineFifo = m.lineFifo.edge 1024
      (if (cycle m i).regs.writeReqFifo then some (cycle m i).regs.dataWriteFifo else none)
      (cycle m i).regs.readReqFifo := by
  rw [cycle_regs] at h ⊢
  simp [cycle, Module.rise, Module.fall, h]

end Cycles

/-! ## Fields of the words -/

@[simp] theorem odd_add_one (x : BitVec 32) : odd (x + 1#32) = !odd x := by
  have h : (x + 1#32).toNat % 2 = (x.toNat + 1) % 2 := by
    rw [BitVec.toNat_add]
    show (x.toNat + 1) % 2 ^ 32 % 2 = (x.toNat + 1) % 2
    omega
  unfold odd
  rw [h, Bool.eq_iff_iff]
  simp only [decide_eq_true_eq, Bool.not_eq_true', decide_eq_false_iff_not]
  omega

theorem storeWord_bit (e o : BitVec 5) (k : Nat) : (storeWord e o).getLsbD k =
    (o ++ (0 : BitVec 1) ++ e ++ (0 : BitVec 5) : BitVec (5 + 1 + 5 + 5)).getLsbD k := rfl

@[simp] theorem storeWord_red (e o : BitVec 5) : (storeWord e o).extractLsb' 11 5 = o := by
  ext j hj
  rw [BitVec.getElem_extractLsb', storeWord_bit]
  simp only [BitVec.getLsbD_append, show ¬ 11 + j < 5 by omega, show ¬ 11 + j - 5 < 5 by omega,
    show ¬ 11 + j - 5 - 5 < 1 by omega, show 11 + j - 5 - 5 - 1 = j by omega, if_false]
  exact BitVec.getLsbD_eq_getElem hj

@[simp] theorem storeWord_green (e o : BitVec 5) : (storeWord e o).extractLsb' 5 5 = e := by
  ext j hj
  rw [BitVec.getElem_extractLsb', storeWord_bit]
  simp only [BitVec.getLsbD_append, show ¬ 5 + j < 5 by omega, show 5 + j - 5 = j by omega, hj,
    if_false, if_true]
  exact BitVec.getLsbD_eq_getElem hj

theorem pixel_bit (w : BitVec 16) (e o : BitVec 5) (k : Nat) : (pixel w e o).getLsbD k =
    (w.extractLsb' 11 5 ++ (e.setWidth 6 + (w.extractLsb' 5 5).setWidth 6) ++ o :
      BitVec (5 + 6 + 5)).getLsbD k := rfl

theorem pixel_red (w : BitVec 16) (e o : BitVec 5) :
    (pixel w e o).extractLsb' 11 5 = w.extractLsb' 11 5 := by
  ext j hj
  rw [BitVec.getElem_extractLsb', pixel_bit]
  simp only [BitVec.getLsbD_append, show ¬ 11 + j < 5 by omega, show ¬ 11 + j - 5 < 6 by omega,
    show 11 + j - 5 - 6 = j by omega, if_false]
  exact BitVec.getLsbD_eq_getElem hj

/-- The two greens are added without overflow. -/
theorem pixel_green (w : BitVec 16) (e o : BitVec 5) :
    ((pixel w e o).extractLsb' 5 6).toNat = e.toNat + (w.extractLsb' 5 5).toNat := by
  have hfield : (pixel w e o).extractLsb' 5 6 =
      e.setWidth 6 + (w.extractLsb' 5 5).setWidth 6 := by
    ext j hj
    rw [BitVec.getElem_extractLsb', pixel_bit]
    simp only [BitVec.getLsbD_append, show ¬ 5 + j < 5 by omega, show 5 + j - 5 = j by omega, hj,
      if_false, if_true]
    exact BitVec.getLsbD_eq_getElem hj
  have he := e.isLt
  have hg := (w.extractLsb' 5 5).isLt
  rw [hfield, BitVec.toNat_add, BitVec.toNat_setWidth, BitVec.toNat_setWidth]
  omega

theorem pixel_blue (w : BitVec 16) (e o : BitVec 5) : (pixel w e o).extractLsb' 0 5 = o := by
  ext j hj
  rw [BitVec.getElem_extractLsb', pixel_bit]
  simp only [BitVec.getLsbD_append, Nat.zero_add, hj, if_true]
  exact BitVec.getLsbD_eq_getElem hj

end CameraLcd.Acquisition
