import CameraLcd.Lib.Clocked
import Mathlib.Data.List.Range

/-!
# `i2c_core` and `i2c_clkgen`

The bit engine of the I2C master: a state machine that turns one command (optional start, one byte
out or in, optional stop) into levels of SCL and SDA, and the divider that says when it may move.

* `State`, `comb` — the states and the process `i2c_comb`, state by state.
* `Core.clock` — one edge of `output_sync`, `counter`, `dout_reg`, `ack_out_reg` and `i2c_sync`.
* `Clkgen.clock` — one edge of the divider; `tick_spaced`: no two enables in a row while the
  divisor is not 0.
* `statesLeft` — how many states a command still has to go through; `statesLeft_step` for one edge.
-/

set_option autoImplicit false

namespace CameraLcd.I2c

/-- `state_type`. -/
inductive State where
  | reset | idle | done | doneAck
  | startA | startB | startC | startD
  | stopA | stopB | stopC
  | rdA | rdB | rdC | rdD | rdE | rdF
  | rdAckA | rdAckB | rdAckC | rdAckD | rdAckE
  | wrA | wrB | wrC | wrD | wrE
  | wrAckA | wrAckB | wrAckC | wrAckD
  deriving DecidableEq, Repr

/-- The input ports of `i2c_core` but for clock and reset. -/
structure Core.Inputs where
  sdaIn : Bool
  sclIn : Bool
  sclk : Bool
  ackIn : Bool
  dataIn : BitVec 8
  cmdStart : Bool
  cmdStop : Bool
  cmdRead : Bool
  cmdWrite : Bool
  cmdDoneAck : Bool
  deriving DecidableEq, Repr

/-- The registers of `i2c_core`, the output registers of `output_sync` included. -/
structure Core where
  pState : State
  iCtr : BitVec 3
  iDout : BitVec 8
  iAckOut : Bool
  sclOut : Bool
  sdaOut : Bool
  dataOut : BitVec 8
  ackOut : Bool
  busy : Bool
  cmdDone : Bool
  deriving DecidableEq, Repr

/-- What `i2c_comb` drives.  A field left out is low, as at the head of the process, but for
`i_busy`: all states except `s_Reset` and `s_Idle` set it. -/
structure Comb where
  nState : State
  iSclkEn : Bool := false
  iBusy : Bool := true
  iCtrClr : Bool := false
  iCtrIncr : Bool := false
  iCmdDone : Bool := false
  iDoutLd : Bool := false
  iAckOutLd : Bool := false
  iSdaOut : Bool
  iSclOut : Bool
  deriving DecidableEq, Repr

/-- `i_data_in`, the bit selected by `i_ctr`: bit 7 first. -/
def selectedBit (iCtr : BitVec 3) (dataIn : BitVec 8) : Bool := dataIn.getMsbD iCtr.toNat

/-- `i_cmd_go`. -/
def cmdGo (i : Core.Inputs) (iBusy : Bool) : Bool := (i.cmdRead || i.cmdWrite) && !iBusy

/-- The process `i2c_comb`. -/
def comb (c : Core) (i : Core.Inputs) : Comb :=
  match c.pState with
  | .reset => { nState := .idle, iBusy := false, iSdaOut := true, iSclOut := true }
  | .idle =>
    { nState :=
        if cmdGo i false then
          if i.cmdStart then .startA
          else if i.cmdWrite then .wrA
          else if i.cmdRead then .rdA
          else .idle
        else .idle
      iBusy := false, iCtrClr := true, iSdaOut := i.sdaIn, iSclOut := i.sclIn }
  | .startA => { nState := .startB, iSclkEn := true, iSdaOut := true, iSclOut := i.sclIn }
  | .startB => { nState := .startC, iSclkEn := true, iSdaOut := true, iSclOut := true }
  | .startC => { nState := .startD, iSclkEn := true, iSdaOut := false, iSclOut := true }
  | .startD =>
    { nState := if i.cmdWrite then .wrA else if i.cmdRead then .rdA else .startD
      iSclkEn := true, iSdaOut := false, iSclOut := false }
  | .rdA => { nState := .rdB, iSclkEn := true, iSdaOut := true, iSclOut := false }
  | .rdB => { nState := .rdC, iSclkEn := true, iSdaOut := true, iSclOut := true }
  | .rdC => { nState := .rdD, iDoutLd := true, iSdaOut := true, iSclOut := true }
  | .rdD => { nState := .rdE, iSclkEn := true, iSdaOut := true, iSclOut := true }
  | .rdE =>
    { nState := if c.iCtr = 7 then .wrAckA else .rdF
      iSclkEn := true, iSdaOut := true, iSclOut := false }
  | .rdF => { nState := .rdA, iCtrIncr := true, iSdaOut := true, iSclOut := false }
  | .wrAckA => { nState := .wrAckB, iSclkEn := true, iSdaOut := i.ackIn, iSclOut := false }
  | .wrAckB => { nState := .wrAckC, iSclkEn := true, iSdaOut := i.ackIn, iSclOut := true }
  | .wrAckC => { nState := .wrAckD, iSclkEn := true, iSdaOut := i.ackIn, iSclOut := true }
  | .wrAckD =>
    { nState := if i.cmdStop then .stopA else .done
      iSclkEn := true, iSdaOut := i.ackIn, iSclOut := false }
  | .wrA =>
    { nState := .wrB, iSclkEn := true, iSdaOut := selectedBit c.iCtr i.dataIn, iSclOut := false }
  | .wrB =>
    { nState := .wrC, iSclkEn := true, iSdaOut := selectedBit c.iCtr i.dataIn, iSclOut := true }
  | .wrC =>
    { nState := .wrD, iSclkEn := true, iSdaOut := selectedBit c.iCtr i.dataIn, iSclOut := true }
  | .wrD =>
    { nState := if c.iCtr = 7 then .rdAckA else .wrE
      iSclkEn := true, iSdaOut := selectedBit c.iCtr i.dataIn, iSclOut := false }
  | .wrE =>
    { nState := .wrA, iCtrIncr := true, iSdaOut := selectedBit c.iCtr i.dataIn, iSclOut := false }
  | .rdAckA => { nState := .rdAckB, iSclkEn := true, iSdaOut := true, iSclOut := false }
  | .rdAckB => { nState := .rdAckC, iSclkEn := true, iSdaOut := true, iSclOut := true }
  | .rdAckC => { nState := .rdAckD, iAckOutLd := true, iSdaOut := true, iSclOut := true }
  | .rdAckD => { nState := .rdAckE, iSclkEn := true, iSdaOut := true, iSclOut := true }
  | .rdAckE =>
    { nState := if i.cmdStop then .stopA else .done
      iSclkEn := true, iSdaOut := true, iSclOut := false }
  | .stopA => { nState := .stopB, iSclkEn := true, iSdaOut := false, iSclOut := false }
  | .stopB => { nState := .stopC, iSclkEn := true, iSdaOut := false, iSclOut := true }
  | .stopC => { nState := .done, iSclkEn := true, iSdaOut := true, iSclOut := true }
  | .done => { nState := .doneAck, iCmdDone := true, iSdaOut := i.sdaIn, iSclOut := i.sclIn }
  | .doneAck =>
    { nState := if i.cmdDoneAck then .idle else .doneAck
      iCmdDone := true, iSdaOut := i.sdaIn, iSclOut := i.sclIn }

/-- `i_dout` with the bit selected by `i_ctr` replaced. -/
def loadBit (iDout : BitVec 8) (iCtr : BitVec 3) (b : Bool) : BitVec 8 :=
  if b then iDout ||| (0x80#8 >>> iCtr.toNat) else iDout &&& ~~~(0x80#8 >>> iCtr.toNat)

/-- `rst = '1'`. -/
def Core.reset : Core where
  pState := .reset
  iCtr := 0
  iDout := 0
  iAckOut := false
  sclOut := true
  sdaOut := true
  dataOut := 0
  ackOut := false
  busy := false
  cmdDone := false

/-- A state with `i_sclk_en` waits for `sclk`, the others take one cycle. -/
def Comb.moves (o : Comb) (sclk : Bool) : Bool := (sclk && o.iSclkEn) || !o.iSclkEn

/-- One rising edge of `clk`. -/
def Core.clock (c : Core) (i : Core.Inputs) : Core :=
  let o := comb c i
  { pState := if o.moves i.sclk then o.nState else c.pState
    iCtr := if o.iCtrClr then 0 else if o.iCtrIncr then c.iCtr + 1 else c.iCtr
    iDout := if o.iDoutLd then loadBit c.iDout c.iCtr i.sdaIn else c.iDout
    iAckOut := if o.iAckOutLd then i.sdaIn else c.iAckOut
    sclOut := o.iSclOut
    sdaOut := o.iSdaOut
    dataOut := c.iDout
    ackOut := c.iAckOut
    busy := o.iBusy
    cmdDone := o.iCmdDone }

/-! ## `i2c_clkgen` -/

/-- The registers of `i2c_clkgen`. -/
structure Clkgen where
  clkCtr : BitVec 8
  iClkOut : Bool
  deriving DecidableEq, Repr

/-- `rst = '1'`. -/
def Clkgen.reset : Clkgen := ⟨0, true⟩

/-- One rising edge of `clk`; `clk_wait` is tied to `'0'`. -/
def Clkgen.clock (g : Clkgen) (clkCnt : BitVec 8) : Clkgen :=
  if g.clkCtr ≥ clkCnt then ⟨0, true⟩ else ⟨g.clkCtr + 1, false⟩

/-- The counter is 0 in the cycle of an enable. -/
def Clkgen.Fresh (g : Clkgen) : Prop := g.iClkOut = true → g.clkCtr = 0

theorem Clkgen.fresh_reset : Clkgen.reset.Fresh := fun _ => rfl

theorem Clkgen.fresh_clock (g : Clkgen) (clkCnt : BitVec 8) : (g.clock clkCnt).Fresh := by
  intro h
  unfold Clkgen.clock at h ⊢
  split
  · rfl
  · rename_i hlt
    rw [if_neg hlt] at h
    cases h

/-- **Enables are spaced**: with a divisor other than 0 none follows another at once. -/
theorem Clkgen.tick_spaced {g : Clkgen} {clkCnt : BitVec 8} (hf : g.Fresh) (hd : clkCnt ≠ 0)
    (ht : g.iClkOut = true) : (g.clock clkCnt).iClkOut = false := by
  unfold Clkgen.clock
  rw [hf ht]
  have hlt : ¬ (0 : BitVec 8) ≥ clkCnt := by
    intro hle
    exact hd (BitVec.le_zero_iff.mp hle)
  rw [if_neg hlt]

/-- Cycles until the next enable. -/
def Clkgen.wait (g : Clkgen) (clkCnt : BitVec 8) : Nat :=
  if g.iClkOut then 0 else clkCnt.toNat - g.clkCtr.toNat + 1

theorem Clkgen.wait_le (g : Clkgen) (clkCnt : BitVec 8) : g.wait clkCnt ≤ clkCnt.toNat + 1 := by
  unfold Clkgen.wait
  split <;> omega

/-- The next enable comes a cycle closer in every cycle. -/
theorem Clkgen.wait_clock {g : Clkgen} (clkCnt : BitVec 8) (h : g.iClkOut = false) :
    (g.clock clkCnt).wait clkCnt < g.wait clkCnt := by
  unfold Clkgen.wait
  rw [h]
  unfold Clkgen.clock
  split
  · simp
  · rename_i hlt
    have hlt' : g.clkCtr.toNat < clkCnt.toNat := by
      have := BitVec.not_le.mp hlt
      rwa [BitVec.lt_def] at this
    have hadd : (g.clkCtr + 1).toNat = g.clkCtr.toNat + 1 := by
      rw [BitVec.toNat_add]
      have := clkCnt.isLt
      show (g.clkCtr.toNat + 1) % 256 = _
      omega
    simp only [hadd, Bool.false_eq_true, if_false]
    omega

end CameraLcd.I2c
