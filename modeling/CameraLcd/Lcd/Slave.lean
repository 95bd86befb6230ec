import CameraLcd.Lib.Clocked

/-!
# `Slave_Interface`: the registers of the LCD controller

The three clocked processes of `hw/hdl/LCD/Slave_Interface.vhd`: `Avalon_Write` loads the
registers of the CPU, `Avalon_Read` the read data, and `Communication` passes the registers on
to the other entities one cycle later.

`Done_Command_Data` overrides a write to `RegStateCommandData` in the same cycle
(`clock_done`).
-/

set_option autoImplicit false

namespace CameraLcd.LcdSlave

/-- The signals the three processes drive. -/
structure Regs where
  regCommandData : BitVec 16
  regStateCommandData : BitVec 2
  regStartAdd : BitVec 32
  regLengthBuffer : BitVec 32
  regDisplayBuffer : BitVec 2
  regBufferSaved : BitVec 2
  commandData : BitVec 16
  stateCommandData : BitVec 2
  startAdd : BitVec 32
  lengthBuffer : BitVec 32
  avsReadData : BitVec 32
  deriving DecidableEq, Repr

/-- The Avalon side of the entity. -/
structure Access where
  address : BitVec 3
  chipSelect : Bool
  read : Bool
  write : Bool
  writeData : BitVec 32
  deriving DecidableEq, Repr

/-- The input ports. -/
structure Inputs where
  avs : Access
  bufferSaved : BitVec 2
  displayBuffer : BitVec 2
  doneCommandData : Bool

/-- `nReset = '0'`.  `Avalon_Read` has no reset: `avs_ReadData` has any value. -/
def reset (avsReadData : BitVec 32) : Regs :=
  ⟨0, 0, 0, 0, 0, 0, 0, 0, 0, 0, avsReadData⟩

/-- The register written by an access, if it writes one. -/
def writes (a : Access) (address : BitVec 3) : Bool :=
  a.chipSelect && a.write && a.address == address

/-- The data loaded by `Avalon_Read`. -/
def readValue (r : Regs) (a : Access) : BitVec 32 :=
  if a.chipSelect && a.read then
    match a.address with
    | 0 => r.regCommandData.setWidth 32
    | 1 => r.regStateCommandData.setWidth 32
    | 2 => r.regStartAdd
    | 3 => r.regLengthBuffer
    | 4 => r.regDisplayBuffer.setWidth 32
    | 5 => r.regBufferSaved.setWidth 32
    | _ => 0
  else 0

/-- One rising edge of `clk`. -/
def clock (r : Regs) (i : Inputs) : Regs where
  regCommandData := if writes i.avs 0 then i.avs.writeData.setWidth 16 else r.regCommandData
  regStateCommandData :=
    if i.doneCommandData then 0
    else if writes i.avs 1 then i.avs.writeData.setWidth 2 else r.regStateCommandData
  regStartAdd := if writes i.avs 2 then i.avs.writeData else r.regStartAdd
  regLengthBuffer := if writes i.avs 3 then i.avs.writeData else r.regLengthBuffer
  regDisplayBuffer := i.displayBuffer
  regBufferSaved := i.bufferSaved
  commandData := r.regCommandData
  stateCommandData := r.regStateCommandData
  startAdd := r.regStartAdd
  lengthBuffer := r.regLengthBuffer
  avsReadData := readValue r i.avs

/-- `avs_ReadData` is 0 just for a `RegStateCommandData` that is 0. -/
theorem readState_eq_zero (x : BitVec 2) : x.setWidth 32 = (0 : BitVec 32) ↔ x = 0 := by
  revert x
  decide

/-- No access. -/
def noAccess : Access := ⟨0, false, false, false, 0⟩

/-- A write of one cycle: the entity has no wait request. -/
def writeAccess (address : BitVec 3) (data : BitVec 32) : Access :=
  ⟨address, true, false, true, data⟩

/-- A read. -/
def readAccess (address : BitVec 3) : Access := ⟨address, true, true, false, 0⟩

@[simp] theorem writes_noAccess (x : BitVec 3) : writes noAccess x = false := rfl

@[simp] theorem writes_readAccess (x y : BitVec 3) : writes (readAccess x) y = false := rfl

@[simp] theorem writes_writeAccess (x y : BitVec 3) (d : BitVec 32) :
    writes (writeAccess x d) y = (x == y) := rfl

@[simp] theorem writeAccess_writeData (x : BitVec 3) (d : BitVec 32) :
    (writeAccess x d).writeData = d := rfl

end CameraLcd.LcdSlave
