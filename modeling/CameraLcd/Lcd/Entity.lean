import CameraLcd.Lcd.Slave
import CameraLcd.Lcd.Display

/-!
# `Full_LCD_Entity` behind its registers

`Slave_Interface` in front of the controller, the DMA and the FIFO: the whole of
`hw/hdl/LCD/Full_LCD_Entity.vhd`, driven by one Avalon access a cycle.

* `Disciplined` — the CPU leaves a request alone until it is acknowledged.
* `Held` — a request that is seen or served stays in the registers, with its word.
* `undisturbed_run` — such a CPU keeps the assumption of `joint_run`.
-/

set_option autoImplicit false

namespace CameraLcd.LcdEntity

open Clocked
open FullLcd (PixelFifo)

/-! ## The composition -/

/-- The registers of the four entities. -/
structure Regs (F : PixelFifo) where
  slave : LcdSlave.Regs
  lcd : FullLcd.Regs F

/-- The access of the CPU, the camera's index, the bus and the memory. -/
structure Inputs where
  avs : LcdSlave.Access
  bufferSaved : BitVec 2
  avmWaitRequest : Bool
  beat : Bool
  memory : BitVec 32 → BitVec 32

section Composition

variable {F : PixelFifo} (s : Regs F) (i : Inputs)

/-- The input ports of `Slave_Interface`. -/
def slaveInputs : LcdSlave.Inputs where
  avs := i.avs
  bufferSaved := i.bufferSaved
  displayBuffer := LcdMaster.displayBuffer s.lcd.master
  doneCommandData := LcdControl.doneCommandData s.lcd.control

/-- What the other entities see. -/
def lcdInputs : FullLcd.Inputs where
  commandData := s.slave.commandData
  stateCommandData := s.slave.stateCommandData
  startAdd := s.slave.startAdd
  lengthBuffer := s.slave.lengthBuffer
  bufferSaved := i.bufferSaved
  avmWaitRequest := i.avmWaitRequest
  beat := i.beat
  memory := i.memory

/-- One clock edge. -/
def step : Regs F where
  slave := LcdSlave.clock s.slave (slaveInputs s i)
  lcd := FullLcd.step s.lcd (lcdInputs s i)

end Composition

/-- The entity from reset on; `avs_ReadData` has no reset value. -/
def machine (F : PixelFifo) (avsReadData : BitVec 32) : Machine (Regs F) Inputs where
  init := ⟨LcdSlave.reset avsReadData, (FullLcd.machine F).init⟩
  step := step

/-- The FIFO with exact flags. -/
def idealFifo : PixelFifo := MixedFifo.exact FullLcd.halves 1024 2 4 0

section Streams

variable (F : PixelFifo) (avsReadData : BitVec 32) (inp : Nat → Inputs)

/-- The entity in cycle `n`. -/
abbrev regs (n : Nat) : Regs F := (machine F avsReadData).run inp n

/-- The registers of the slave and the other inputs, as a stream. -/
def lcdStream (n : Nat) : FullLcd.Inputs := lcdInputs (regs F avsReadData inp n) (inp n)

theorem regs_lcd (n : Nat) :
    (regs F avsReadData inp n).lcd = FullLcd.regs F (lcdStream F avsReadData inp) n := by
  induction n with
  | zero => rfl
  | succ n ih =>
    have hstep : (regs F avsReadData inp (n + 1)).lcd =
        FullLcd.step (regs F avsReadData inp n).lcd (lcdStream F avsReadData inp n) := rfl
    rw [hstep, ih]
    rfl

end Streams

/-! ## A CPU that waits for the acknowledgement -/

/-- `RegCommandData` and `RegStateCommandData` are written while the latter is 0; a continuous
display, 11, may be changed to 01 at any time. -/
structure Disciplined {F : PixelFifo} (s : Regs F) (a : LcdSlave.Access) : Prop where
  data : LcdSlave.writes a 0 = true → s.slave.regStateCommandData = 0
  state : LcdSlave.writes a 1 = true → s.slave.regStateCommandData = 0 ∨
    s.slave.regStateCommandData = 3 ∧ a.writeData.setWidth 2 = (1 : BitVec 2)

theorem Disciplined.silent {F : PixelFifo} {s : Regs F} {a : LcdSlave.Access}
    (hdata : LcdSlave.writes a 0 = false) (hstate : LcdSlave.writes a 1 = false) :
    Disciplined s a := by
  constructor
  · intro hw
    rw [hdata] at hw
    cases hw
  · intro hw
    rw [hstate] at hw
    cases hw

/-- The states of a display, from its command on. -/
def displaying (c : LcdControl.State) : Bool :=
  c != .init && c != .data && c != .endCommandData

/-- The controller serves a request or is about to. -/
def Serving {F : PixelFifo} (s : Regs F) : Prop :=
  s.lcd.control.state ≠ .endCommandData ∧
    (s.lcd.control.state = .init → s.slave.stateCommandData ≠ 0)

/-- The request in the registers is the one that is served. -/
structure Kept (r : LcdSlave.Regs) : Prop where
  request : r.stateCommandData ≠ 0
  state : r.regStateCommandData = r.stateCommandData ∨
    r.stateCommandData = 3 ∧ r.regStateCommandData = 1
  word : r.commandData = r.regCommandData

/-- What holds in every cycle with such a CPU. -/
structure Held {F : PixelFifo} (s : Regs F) : Prop where
  kept : Serving s → Kept s.slave
  /-- A display is asked for by 01 or 11. -/
  display : displaying s.lcd.control.state = true →
    s.slave.stateCommandData = 1 ∨ s.slave.stateCommandData = 3
  cleared : s.lcd.control.state = .endCommandData → s.slave.stateCommandData = 0 →
    s.slave.regStateCommandData = 0

/-! ## One edge -/

section Edge

variable {F : PixelFifo} {s : Regs F} {i : Inputs}

theorem Kept.request_reg {r : LcdSlave.Regs} (h : Kept r) : r.regStateCommandData ≠ 0 := by
  rcases h.state with heq | ⟨_, h1⟩
  · rw [heq]
    exact h.request
  · rw [h1]
    decide

/-- A request in the register stays there until the acknowledgement. -/
theorem kept_step (hcpu : Disciplined s i.avs) (hreg : s.slave.regStateCommandData ≠ 0)
    (hdone : s.lcd.control.state ≠ .endCommandData) : Kept (step s i).slave := by
  have hdone' : LcdControl.doneCommandData s.lcd.control = false := by
    simp [LcdControl.doneCommandData, hdone]
  have hdata : LcdSlave.writes i.avs 0 = false := by
    rw [← Bool.not_eq_true]
    intro hw
    exact hreg (hcpu.data hw)
  refine ⟨hreg, ?_, ?_⟩
  · simp only [step, LcdSlave.clock, slaveInputs, hdone']
    cases hw : LcdSlave.writes i.avs 1 with
    | false => exact .inl rfl
    | true =>
      rcases hcpu.state hw with h0 | ⟨h3, h1⟩
      · exact absurd h0 hreg
      · exact .inr ⟨h3, h1⟩
  · show s.slave.regCommandData =
      if LcdSlave.writes i.avs 0 then i.avs.writeData.setWidth 16 else s.slave.regCommandData
    rw [hdata]
    rfl

/-- The next state of the controller, with the inputs it has in the entity. -/
theorem control_edge (s : Regs F) (i : Inputs) :
    LcdControl.Edge s.lcd.control (FullLcd.controlInputs s.lcd (lcdInputs s i))
      (step s i).lcd.control := LcdControl.clock_edge _ _

/-- A request that is served was seen, and asks for a display if one is served. -/
theorem displaying_step (h : Held s) (hd : displaying (step s i).lcd.control.state = true) :
    s.slave.stateCommandData = 1 ∨ s.slave.stateCommandData = 3 := by
  have he := control_edge s i
  have hold : displaying s.lcd.control.state = true →
      s.slave.stateCommandData = 1 ∨ s.slave.stateCommandData = 3 := h.display
  generalize (step s i).lcd.control = r' at he hd
  cases he with
  | init hs =>
    by_contra hno
    change displaying (if s.slave.stateCommandData = 1 ∨ s.slave.stateCommandData = 3 then .command
      else if s.slave.stateCommandData = 2 then .data else .init) = true at hd
    rw [if_neg hno] at hd
    by_cases h2 : s.slave.stateCommandData = 2
    · rw [if_pos h2] at hd
      cases hd
    · rw [if_neg h2] at hd
      cases hd
  | writing hw => exact hold hd
  | dataDone => cases hd
  | commandDone hs | displayDone hs | display16Done hs | emptied16 hs | empty16 hs
  | endDisplayDone hs | checkMaster hs | empty hs | checkCommand hs =>
    apply hold
    rw [hs]
    rfl
  | endCommandData =>
    exfalso
    change displaying (if s.slave.stateCommandData = 0 then .init else .endCommandData) = true at hd
    by_cases h0 : s.slave.stateCommandData = 0
    · rw [if_pos h0] at hd
      cases hd
    · rw [if_neg h0] at hd
      cases hd

/-- **Step lemma**: a CPU that waits keeps the request that is served. -/
theorem Held.step (h : Held s) (hcpu : Disciplined s i.avs) : Held (step s i) := by
  have hnext : (LcdEntity.step s i).slave.stateCommandData = s.slave.regStateCommandData := rfl
  by_cases hend : s.lcd.control.state = .endCommandData
  · have hreg0 : (LcdEntity.step s i).slave.regStateCommandData = 0 := by
      simp [LcdEntity.step, LcdSlave.clock, slaveInputs, LcdControl.doneCommandData, hend]
    have hctl : (LcdEntity.step s i).lcd.control.state =
        if s.slave.stateCommandData = 0 then .init else .endCommandData :=
      congrArg (·.state) (LcdControl.clock_endCommandData hend)
    refine ⟨fun hserve => ?_, fun hd => ?_, fun _ _ => hreg0⟩
    · exfalso
      by_cases h0 : s.slave.stateCommandData = 0
      · rw [if_pos h0] at hctl
        exact hserve.2 hctl (hnext.trans (h.cleared hend h0))
      · rw [if_neg h0] at hctl
        exact hserve.1 hctl
    · exfalso
      rw [hctl] at hd
      split at hd <;> cases hd
  · by_cases hreg : s.slave.regStateCommandData = 0
    · -- no request: the controller rests in `Init`
      have hrest : ¬ Serving s := fun hserve => (h.kept hserve).request_reg hreg
      have hinit : s.lcd.control.state = .init ∧ s.slave.stateCommandData = 0 := by
        by_contra hno
        apply hrest
        refine ⟨hend, fun hi h0 => hno ⟨hi, h0⟩⟩
      have hctl : (LcdEntity.step s i).lcd.control.state = .init := by
        refine (congrArg (·.state) (LcdControl.clock_init hinit.1)).trans ?_
        simp [FullLcd.controlInputs, lcdInputs, hinit.2]
      refine ⟨fun hserve => absurd (hnext.trans hreg) (hserve.2 hctl), fun hd => ?_, fun he => ?_⟩
      · rw [hctl] at hd
        cases hd
      · rw [hctl] at he
        cases he
    · have hkept := kept_step hcpu hreg hend
      refine ⟨fun _ => hkept, fun hd => ?_, fun _ h0 => absurd (hnext.symm.trans h0) hreg⟩
      have hserve : Serving s := by
        refine ⟨hend, fun _ h0 => ?_⟩
        rcases displaying_step h hd with h1 | h3 <;> simp_all
      rw [hnext]
      rcases (h.kept hserve).state with heq | ⟨_, h1⟩
      · rw [heq]
        exact displaying_step h hd
      · exact .inl h1

/-- The word of a memory write that is sent and checked does not change. -/
theorem Held.undisturbed (h : Held s) {i' : Inputs} :
    FullLcd.Undisturbed s.lcd (lcdInputs s i) (lcdInputs (LcdEntity.step s i) i') := by
  intro hc _
  have hserve : Serving s := by
    rcases hc with hc | hc <;> simp [Serving, hc]
  exact (h.kept hserve).word.symm

end Edge

/-! ## Runs -/

section Runs

variable {F : PixelFifo} {rd : BitVec 32} {inp : Nat → Inputs}

theorem held_init : Held (machine F rd).init :=
  ⟨fun h => absurd rfl (h.2 rfl), nofun, nofun⟩

theorem held_run (n : Nat) (hcpu : ∀ k < n, Disciplined (regs F rd inp k) (inp k).avs) :
    Held (regs F rd inp n) :=
  Machine.run_invariant_under (I := fun s _ => Held s) (A := fun s i _ => Disciplined s i.avs)
    held_init (fun _ _ _ hd h => h.step hd) n hcpu

theorem sound_run (n : Nat) : FullLcd.Sound (regs F rd inp n).lcd := by
  rw [regs_lcd]
  exact FullLcd.sound_run F _ n

/-- **The joint invariant behind the registers**, for every CPU that waits for the
acknowledgement. -/
theorem joint_run (n : Nat) (hcpu : ∀ k < n, Disciplined (regs F rd inp k) (inp k).avs) :
    FullLcd.Joint (regs F rd inp n).lcd (lcdStream F rd inp n) := by
  rw [regs_lcd]
  apply FullLcd.joint_run
  intro k hk
  rw [← regs_lcd]
  exact (held_run k fun j hj => hcpu j (by omega)).undisturbed

end Runs

end CameraLcd.LcdEntity
