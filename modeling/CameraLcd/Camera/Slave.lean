import CameraLcd.Lib.Clocked

/-!
# `Camera_Slave_Interface`: the registers of the camera

The two clocked processes of `hw/hdl/Camera/Camera_Slave_Interface.vhd`.  Start and Stop are two
addresses of one register, `iRegCamStart`, which drives `Ready` everywhere in `Top_Level`.
-/

set_option autoImplicit false

namespace CameraLcd.CameraSlave

/-- The registers of the entity. -/
structure Regs where
  iRegCamAddr : BitVec 32
  iRegCamLength : BitVec 32
  iRegCamStart : Bool
  avsReadData : BitVec 32
  deriving DecidableEq, Repr

/-- The Avalon side in a cycle. -/
structure Access where
  address : BitVec 3
  chipSelect : Bool
  read : Bool
  write : Bool
  writeData : BitVec 32
  deriving DecidableEq, Repr

/-- `nReset = '0'`; `avs_ReadData` is not reset. -/
def reset (avsReadData : BitVec 32) : Regs := ⟨0, 0, false, avsReadData⟩

/-- `Write_process`. -/
def write (r : Regs) (a : Access) : Regs :=
  if a.chipSelect && a.write then
    match a.address with
    | 0 => { r with iRegCamAddr := a.writeData }
    | 1 => { r with iRegCamLength := a.writeData }
    | 2 => { r with iRegCamStart := a.writeData.getLsbD 0 }
    | 3 => { r with iRegCamStart := !a.writeData.getLsbD 0 }
    | _ => r
  else r

/-- The data loaded by `Read_Process`. -/
def readValue (r : Regs) (a : Access) : BitVec 32 :=
  if a.chipSelect && a.read then
    match a.address with
    | 0 => r.iRegCamAddr
    | 1 => r.iRegCamLength
    | 2 => (BitVec.ofBool r.iRegCamStart).setWidth 32
    | 3 => (BitVec.ofBool !r.iRegCamStart).setWidth 32
    | _ => 0
  else 0

/-- One rising edge of `Clk`. -/
def clock (r : Regs) (a : Access) : Regs := { write r a with avsReadData := readValue r a }

end CameraLcd.CameraSlave
