import CameraLcd.I2c.Core
import CameraLcd.Lib.I2cBus

/-!
# `i2c_interface`: the registers of the I2C master, and the bus behind it

* `Regs.clock` — one edge of `i2c_interface` with `i2c_clkgen` and `i2c_core` inside.
* `Command`, `Command.slots` — a command as the control register states it, and what it means on
  the bus.
* `outcome` — what a list of commands leaves behind: the log of the bus, the acknowledge bit LAR
  and the received byte.
* `Scene` — the master on a bus with a device, together with the log of a bus analyser and the
  list of the commands accepted so far.

`scl` is driven push-pull (`scl <= '1' when scl_out = '1' else '0'`), `sda` is open drain.
-/

set_option autoImplicit false

namespace CameraLcd.I2c

open Clocked I2cBus

/-- The Avalon signals of one cycle. -/
structure Access where
  address : BitVec 2
  chipselect : Bool
  write : Bool
  writedata : BitVec 8
  read : Bool
  deriving DecidableEq, Repr

/-- No access. -/
def noAccess : Access := ⟨0, false, false, 0, false⟩

/-- `i2c_write_byte`. -/
def writeAccess (address : BitVec 2) (writedata : BitVec 8) : Access :=
  ⟨address, true, true, writedata, false⟩

/-- `i2c_read_byte`. -/
def readAccess (address : BitVec 2) : Access := ⟨address, true, false, 0, true⟩

/-- The registers of `i2c_interface` and of the two entities inside. -/
structure Regs where
  core : Core
  clkgen : Clkgen
  sclIn : Bool
  sdaIn : Bool
  readdata : BitVec 8
  irq : Bool
  iIntPe : Bool
  iIntEn : Bool
  iWrite : Bool
  iRead : Bool
  iStart : Bool
  iStop : Bool
  iAck : Bool
  iDataIn : BitVec 8
  iClkdiv : BitVec 8
  iCmdDoneAck : Bool
  deriving DecidableEq, Repr

/-- `reset = '1'`; `scl_in` and `sda_in` have no reset. -/
def Regs.reset (sclIn sdaIn : Bool) : Regs where
  core := Core.reset
  clkgen := Clkgen.reset
  sclIn := sclIn
  sdaIn := sdaIn
  readdata := 0
  irq := false
  iIntPe := false
  iIntEn := false
  iWrite := false
  iRead := false
  iStart := false
  iStop := false
  iAck := false
  iDataIn := 0
  iClkdiv := 0b10000011
  iCmdDoneAck := false

namespace Regs

/-- `i_tip_reg`. -/
def tip (r : Regs) : Bool := r.iRead || r.iWrite

/-- The control register as it is read back. -/
def control (r : Regs) : BitVec 8 :=
  0#2 ++ BitVec.ofBool r.iIntEn ++ BitVec.ofBool r.iWrite ++ BitVec.ofBool r.iRead ++
    BitVec.ofBool r.iStart ++ BitVec.ofBool r.iStop ++ BitVec.ofBool r.iAck

/-- The status register. -/
def status (r : Regs) : BitVec 8 :=
  0#4 ++ BitVec.ofBool r.tip ++ BitVec.ofBool r.iIntPe ++ BitVec.ofBool r.core.busy ++
    BitVec.ofBool r.core.ackOut

/-- `i_readdata`, the process `data_out_comb`. -/
def iReaddata (r : Regs) (address : BitVec 2) : BitVec 8 :=
  match address with
  | 0 => r.core.dataOut
  | 1 => r.control
  | 2 => r.status
  | 3 => r.iClkdiv

/-- The ports of `i2c_core`. -/
def coreInputs (r : Regs) : Core.Inputs where
  sdaIn := r.sdaIn
  sclIn := r.sclIn
  sclk := r.clkgen.iClkOut
  ackIn := r.iAck
  dataIn := r.iDataIn
  cmdStart := r.iStart
  cmdStop := r.iStop
  cmdRead := r.iRead
  cmdWrite := r.iWrite
  cmdDoneAck := r.iCmdDoneAck

/-- `i_write_strobe`. -/
def writeStrobe (a : Access) : Bool := a.chipselect && a.write

/-- The register write of `data_in_sync`. -/
def writeRegister (r : Regs) (a : Access) : Regs :=
  match a.address with
  | 0 => { r with iDataIn := a.writedata }
  | 1 =>
    { r with
      iAck := a.writedata.getLsbD 0
      iStop := a.writedata.getLsbD 1
      iStart := a.writedata.getLsbD 2
      iRead := a.writedata.getLsbD 3
      iWrite := a.writedata.getLsbD 4
      iIntEn := a.writedata.getLsbD 5 }
  | 2 => r
  | 3 => { r with iClkdiv := a.writedata }

/-- `i_int_clr`. -/
def intClr (a : Access) : Bool := decide (a.address = 0) && a.chipselect

/-- One rising edge of `clk`: the process `data_in_sync`. -/
def dataInSync (r : Regs) (a : Access) : Regs :=
  if r.tip = false then
    let r' := if writeStrobe a then r.writeRegister a else r
    { r' with
      iIntPe := if intClr a then false else r.iIntPe
      iCmdDoneAck := false }
  else if r.core.cmdDone then
    { r with
      iWrite := false
      iRead := false
      iStart := false
      iStop := false
      iIntPe := true
      iCmdDoneAck := true }
  else { r with iCmdDoneAck := false }

/-- One rising edge of `clk`; `w` are the levels of the bus wires before it. -/
def clock (r : Regs) (a : Access) (w : Wires) : Regs :=
  { r.dataInSync a with
    core := r.core.clock r.coreInputs
    clkgen := r.clkgen.clock r.iClkdiv
    sclIn := w.scl
    sdaIn := w.sda
    readdata := if a.chipselect && a.read then r.iReaddata a.address else r.readdata
    irq := r.iIntPe && r.iIntEn }

end Regs

/-! ## Commands -/

/-- What the control and the data register ask for. -/
structure Command where
  start : Bool
  stop : Bool
  read : Bool
  write : Bool
  ack : Bool
  data : BitVec 8
  deriving DecidableEq, Repr

namespace Command

/-- The master's level in the `i`-th pulse: eight bits, most significant first, and the
acknowledge.  In a byte received, the eight bits are left to the device. -/
def level (c : Command) (i : Nat) : Bool :=
  if c.write then (if i < 8 then c.data.getMsbD i else true) else (if i < 8 then true else c.ack)

/-- The stop asked for, if any. -/
def ending (c : Command) : List Slot := if c.stop then [.stop] else []

/-- The slots from the `i`-th pulse on. -/
def slotsFrom (c : Command) (i : Nat) : List Slot :=
  (List.range' i (9 - i)).map (fun j => Slot.level (c.level j)) ++ c.ending

/-- **The meaning of a command on the bus.** -/
def slots (c : Command) : List Slot := (if c.start then [Slot.start] else []) ++ c.slotsFrom 0

theorem slotsFrom_cons (c : Command) {i : Nat} (h : i < 9) :
    c.slotsFrom i = .level (c.level i) :: c.slotsFrom (i + 1) := by
  unfold slotsFrom
  rw [show 9 - i = (9 - (i + 1)) + 1 by omega, List.range'_succ]
  rfl

theorem slotsFrom_nine (c : Command) : c.slotsFrom 9 = c.ending := by
  simp [slotsFrom]

end Command

/-- The command in the registers. -/
def Regs.command (r : Regs) : Command where
  start := r.iStart
  stop := r.iStop
  read := r.iRead
  write := r.iWrite
  ack := r.iAck
  data := r.iDataIn

/-- A write of `RD` or `WR` to the control register. -/
def Access.commands (a : Access) : Bool :=
  a.chipselect && a.write && decide (a.address = 1) &&
    (a.writedata.getLsbD 3 || a.writedata.getLsbD 4)

/-- The command accepted in a cycle. -/
def Regs.accepted (r : Regs) (a : Access) : Option Command :=
  if r.tip = false ∧ a.commands = true then some (r.dataInSync a).command else none

/-! ## What commands leave behind -/

/-- The log of the bus, LAR and the receive register. -/
structure Outcome where
  log : List Event
  lar : Bool
  data : BitVec 8
  deriving DecidableEq, Repr

section Outcomes

variable {σ : Type} (dev : Device σ)

/-- One more command: a byte sent sets LAR, a byte received sets the receive register. -/
def Outcome.add (o : Outcome) (c : Command) : Outcome where
  log := perform dev o.log c.slots
  lar := if c.write then lastBit (perform dev o.log c.slots) else o.lar
  data := if c.write then o.data else lastByte (perform dev o.log c.slots)

/-- After power-up. -/
def Outcome.start : Outcome := ⟨[], false, 0⟩

/-- What a list of commands leaves behind. -/
def outcome (cs : List Command) : Outcome := cs.foldl (Outcome.add dev) Outcome.start

theorem outcome_snoc (cs : List Command) (c : Command) :
    outcome dev (cs ++ [c]) = (outcome dev cs).add dev c := by
  simp [outcome]

/-- The device leaves SDA to the master for every start and stop of the commands. -/
def YieldsTo (cs : List Command) : Prop :=
  ∀ before c after, cs = before ++ c :: after → Yields dev (outcome dev before).log c.slots

end Outcomes

/-! ## The master on its bus -/

/-- The master, the analyser on the bus with its log, and the commands accepted so far. -/
structure Scene where
  hw : Regs
  mon : Monitor
  log : List Event
  issued : List Command
  deriving DecidableEq, Repr

/-- The Avalon access of a cycle and what the device does with SDA while SCL is low. -/
structure Inputs where
  avs : Access
  glitch : Bool
  deriving DecidableEq, Repr

/-- The outputs of the master and the analyser. -/
def Scene.line (s : Scene) : Line := ⟨s.hw.core.sclOut, s.hw.core.sdaOut, s.mon, s.log⟩

section Scenes

variable {σ : Type} (dev : Device σ)

/-- One clock edge. -/
def Scene.step (s : Scene) (i : Inputs) : Scene where
  hw := s.hw.clock i.avs (s.line.wires dev i.glitch)
  mon := s.mon.next (s.line.wires dev i.glitch)
  log := s.log ++ (s.mon.event (s.line.wires dev i.glitch)).toList
  issued := s.issued ++ (s.hw.accepted i.avs).toList

/-- From reset on. -/
def machine (sclIn sdaIn : Bool) : Machine Scene Inputs where
  init := ⟨Regs.reset sclIn sdaIn, Monitor.free, [], []⟩
  step := Scene.step dev

theorem Scene.step_line (s : Scene) (i : Inputs) :
    (s.step dev i).line =
      s.line.step dev (comb s.hw.core s.hw.coreInputs).iSclOut
        (comb s.hw.core s.hw.coreInputs).iSdaOut i.glitch := rfl

end Scenes

end CameraLcd.I2c
