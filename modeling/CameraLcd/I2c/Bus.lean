import CameraLcd.I2c.Transfer

/-!
# The commands of a run on the bus

`i2c_interface` and `i2c_core` hand a command over and back: `Stand` says where the two stand.

* `stand_step` — one edge: a command accepted is served once, and the control register is cleared
  when it is over.
* `commands_on_bus` — in every cycle of every run the log of the bus is a beginning of what the
  accepted commands mean, in order; whenever TIP is low it is all of it, and LAR and the receive
  register hold the answers.
* `kept_iff` — a command written in the first cycle in which TIP is low is begun by the core and
  cleared from its register by the end of the one before it.

Assumed of the software: it polls TIP before it writes a command and keeps the divisor off 0.
Assumed of the device: it leaves SDA alone when a start or a stop is to be made.
-/

set_option autoImplicit false

namespace CameraLcd.I2c

open Clocked I2cBus

/-! ## The registers of the interface over one edge -/

section Registers

variable {r : Regs} {a : Access}

/-- While a transfer is in progress the registers are closed. -/
theorem dataInSync_running (ht : r.tip = true) (hd : r.core.cmdDone = false) :
    r.dataInSync a = { r with iCmdDoneAck := false } := by
  simp [Regs.dataInSync, ht, hd]

/-- `cmd_done_ack` follows the end of a transfer by one cycle. -/
theorem dataInSync_ack : (r.dataInSync a).iCmdDoneAck = (r.tip && r.core.cmdDone) := by
  unfold Regs.dataInSync
  cases ht : r.tip <;> cases hd : r.core.cmdDone <;> rfl

/-- A command accepted is in the registers after the edge. -/
theorem accepted_some {c : Command} (h : r.accepted a = some c) :
    r.tip = false ∧ (r.dataInSync a).command = c ∧ (c.read || c.write) = true := by
  unfold Regs.accepted at h
  split at h
  · rename_i hacc
    obtain ⟨ht, hcmd⟩ := hacc
    cases h
    refine ⟨ht, rfl, ?_⟩
    simp only [Access.commands, Bool.and_eq_true, decide_eq_true_eq] at hcmd
    obtain ⟨⟨⟨hsel, hwr⟩, haddr⟩, hbits⟩ := hcmd
    simpa [Regs.dataInSync, ht, Regs.writeStrobe, hsel, hwr, Regs.writeRegister, haddr,
      Regs.command] using hbits
  · cases h

theorem accepted_tip {c : Command} (h : r.accepted a = some c) :
    (r.dataInSync a).tip = true := by
  obtain ⟨-, hcmd, hgo⟩ := accepted_some h
  rw [← hcmd] at hgo
  exact hgo

/-- A register write that asks for nothing leaves TIP low. -/
theorem writeRegister_tip (ht : r.tip = false) (hs : Regs.writeStrobe a = true)
    (hno : a.commands = false) : (r.writeRegister a).tip = false := by
  unfold Regs.writeRegister
  split
  · exact ht
  · rename_i haddr
    rw [Access.commands, haddr] at hno
    rw [Regs.writeStrobe] at hs
    rw [hs] at hno
    simpa [Regs.tip] using hno
  · exact ht
  · exact ht

/-- Without a command TIP stays low. -/
theorem accepted_none (ht : r.tip = false) (h : r.accepted a = none) :
    (r.dataInSync a).tip = false := by
  have hno : a.commands = false := by
    cases hc : a.commands with
    | false => rfl
    | true => simp [Regs.accepted, ht, hc] at h
  unfold Regs.dataInSync
  rw [if_pos ht]
  cases hs : Regs.writeStrobe a with
  | false => exact ht
  | true => exact writeRegister_tip ht hs hno

end Registers

section Runs

variable {σ : Type} (dev : Device σ)

/-! ## Where interface and core stand -/

/-- Between commands: everything accepted is on the bus, and its answers are in the registers. -/
structure Settled (s : Scene) : Prop where
  tip : s.hw.tip = false
  log : s.log = (outcome dev s.issued).log
  lar : s.hw.core.iAckOut = (outcome dev s.issued).lar
  data : s.hw.core.iDout = (outcome dev s.issued).data
  line : s.line.Down ∨ s.line.Rest dev

/-- `c` is the last command accepted, after `prev`, and is in the registers. -/
structure Pending (prev : List Command) (c : Command) (s : Scene) : Prop where
  issued : s.issued = prev ++ [c]
  command : s.hw.command = c
  go : (c.read || c.write) = true
  ack : s.hw.iCmdDoneAck = false

inductive Stand (s : Scene) : Prop where
  | reset (hs : Settled dev s) (hp : s.hw.core.pState = .reset) (hack : s.hw.iCmdDoneAck = false)
      (hrest : s.line.Rest dev)
  | quiet (hs : Settled dev s) (hp : s.hw.core.pState = .idle) (hack : s.hw.iCmdDoneAck = false)
  /-- The first cycle in which TIP is low again: the core has not heard of it yet. -/
  | closing (hs : Settled dev s) (hp : s.hw.core.pState = .doneAck)
      (hack : s.hw.iCmdDoneAck = true)
  | armed (prev : List Command) (c : Command) (hc : Pending prev c s)
      (hp : s.hw.core.pState = .idle) (hdone : s.hw.core.cmdDone = false)
      (hlog : s.log = (outcome dev prev).log)
      (hlar : s.hw.core.iAckOut = (outcome dev prev).lar)
      (hdata : s.hw.core.iDout = (outcome dev prev).data)
      (line : s.line.Down ∨ s.line.Rest dev)
  | serving (prev : List Command) (c : Command) (hc : Pending prev c s)
      (hdone : s.hw.core.cmdDone = false)
      (hs : Serving dev (outcome dev prev) c s.hw.core s.line s.hw.clkgen.iClkOut)
  | served (prev : List Command) (c : Command) (hc : Pending prev c s)
      (hdone : s.hw.core.cmdDone = false)
      (hs : Served dev (outcome dev prev) c s.hw.core s.line)
  /-- `Done_Ack`: the interface is about to clear the command. -/
  | reported (prev : List Command) (c : Command) (hc : Pending prev c s)
      (hdone : s.hw.core.cmdDone = true) (hp : s.hw.core.pState = .doneAck)
      (ha : Answered (outcome dev prev) c s.hw.core s.log)
      (todo : Todo dev (outcome dev prev) c [] s.line) (line : s.line.Down ∨ s.line.Rest dev)

/-- What holds in every cycle. -/
structure Joint (s : Scene) : Prop where
  fresh : s.hw.clkgen.Fresh
  /-- The synchronisers show what the analyser saw last. -/
  sync : s.hw.core.pState ≠ .reset → s.hw.sclIn = s.mon.scl ∧ s.hw.sdaIn = s.mon.sda
  dataOut : s.hw.core.pState ≠ .rdD → s.hw.core.dataOut = s.hw.core.iDout
  ackOut : s.hw.core.pState ≠ .rdAckD → s.hw.core.ackOut = s.hw.core.iAckOut
  stand : Stand dev s

variable {dev} {s : Scene} {i : Inputs} {prev : List Command} {c : Command}

/-! ## One edge -/

theorem Pending.tip (h : Pending prev c s) : s.hw.tip = true := by
  have hgo := h.go
  rw [← h.command] at hgo
  exact hgo

/-- The ports of the core while a command is pending. -/
theorem Pending.ports (h : Pending prev c s)
    (hsync : s.hw.sclIn = s.mon.scl ∧ s.hw.sdaIn = s.mon.sda) :
    s.hw.coreInputs = portsOf c s.line s.hw.clkgen.iClkOut := by
  rw [← h.command]
  simp [Regs.coreInputs, portsOf, Regs.command, Scene.line, hsync.1, hsync.2, h.ack]

/-- Until it is done, a command stays pending and no other is accepted. -/
theorem Pending.step (h : Pending prev c s) (hdone : s.hw.core.cmdDone = false) :
    Pending prev c (s.step dev i) := by
  have hreg : s.hw.dataInSync i.avs = { s.hw with iCmdDoneAck := false } :=
    dataInSync_running h.tip hdone
  have hnone : s.hw.accepted i.avs = none := by
    simp [Regs.accepted, h.tip]
  refine ⟨?_, ?_, h.go, ?_⟩
  · simp [Scene.step, hnone, h.issued]
  · show (s.hw.dataInSync i.avs).command = c
    rw [hreg]
    exact h.command
  · show (s.hw.dataInSync i.avs).iCmdDoneAck = false
    rw [hreg]

/-- A core that holds its outputs leaves a line at rest alone. -/
theorem line_hold {l : Line} {g : Bool} (h : l.Down ∨ l.Rest dev) :
    ((l.step dev l.mon.scl l.mon.sda g).Down ∨ (l.step dev l.mon.scl l.mon.sda g).Rest dev) ∧
      (l.step dev l.mon.scl l.mon.sda g).log = l.log := by
  obtain h | h := h
  · rw [h.mon]
    exact ⟨.inl (h.low.down _ g), h.low.log false _ g⟩
  · rw [h.monScl, h.monSda]
    exact ⟨.inr (h.keep g), h.toFree.log true true g⟩

/-- The states in which the core holds its outputs. -/
def Holding (k : Core) : Prop := k.pState = .idle ∨ k.pState = .done ∨ k.pState = .doneAck

theorem scene_hold (hp : Holding s.hw.core)
    (hsync : s.hw.sclIn = s.mon.scl ∧ s.hw.sdaIn = s.mon.sda)
    (h : s.line.Down ∨ s.line.Rest dev) :
    ((s.step dev i).line.Down ∨ (s.step dev i).line.Rest dev) ∧ (s.step dev i).log = s.log := by
  have hcomb : (comb s.hw.core s.hw.coreInputs).iSclOut = s.line.mon.scl ∧
      (comb s.hw.core s.hw.coreInputs).iSdaOut = s.line.mon.sda := by
    obtain h | h | h := hp <;> simp [comb, h, Regs.coreInputs, Scene.line, hsync.1, hsync.2]
  have hline := line_hold (g := i.glitch) h
  rw [← hcomb.1, ← hcomb.2, ← Scene.step_line] at hline
  exact hline

variable (dev) in
/-- The answers are not touched outside the states that load them. -/
theorem answers_hold (hp : Holding s.hw.core ∨ s.hw.core.pState = .reset) :
    (s.step dev i).hw.core.iAckOut = s.hw.core.iAckOut ∧
      (s.step dev i).hw.core.iDout = s.hw.core.iDout := by
  show (s.hw.core.clock s.hw.coreInputs).iAckOut = _ ∧
    (s.hw.core.clock s.hw.coreInputs).iDout = _
  obtain (h | h | h) | h := hp <;> simp [Core.clock, comb, h]

/-- **Between commands, nothing accepted**: nothing changes. -/
theorem settled_keep (hs : Settled dev s) (hacc : s.hw.accepted i.avs = none)
    (hline : ((s.step dev i).line.Down ∨ (s.step dev i).line.Rest dev) ∧
      (s.step dev i).log = s.log)
    (hans : (s.step dev i).hw.core.iAckOut = s.hw.core.iAckOut ∧
      (s.step dev i).hw.core.iDout = s.hw.core.iDout) : Settled dev (s.step dev i) := by
  have hissued : (s.step dev i).issued = s.issued := by
    simp [Scene.step, hacc]
  refine ⟨accepted_none hs.tip hacc, ?_, ?_, ?_, hline.1⟩
  · rw [hline.2, hissued, hs.log]
  · rw [hans.1, hissued, hs.lar]
  · rw [hans.2, hissued, hs.data]

/-- The lines between commands, out of reset included. -/
theorem line_between (h : Joint dev s) (hs : Settled dev s)
    (hp : Holding s.hw.core ∨ s.hw.core.pState = .reset ∧ s.line.Rest dev) :
    ((s.step dev i).line.Down ∨ (s.step dev i).line.Rest dev) ∧ (s.step dev i).log = s.log := by
  obtain hp | ⟨hp, hrest⟩ := hp
  · have hne : s.hw.core.pState ≠ .reset := by
      obtain h | h | h := hp <;> simp [h]
    exact scene_hold hp (h.sync hne) hs.line
  · have hline : (s.step dev i).line = s.line.step dev true true i.glitch := by
      rw [Scene.step_line]
      simp [comb, hp]
    have hlog : (s.step dev i).log = (s.line.step dev true true i.glitch).log := by
      rw [← hline]
      rfl
    rw [hline, hlog]
    exact ⟨.inr (hrest.keep _), hrest.toFree.log true true _⟩

/-- A quiet interface stays quiet while no command is written. -/
theorem quiet_step (hj : Joint dev s) (hs : Settled dev s)
    (hp : s.hw.core.pState = .reset ∧ s.line.Rest dev ∨ s.hw.core.pState = .idle ∨
      s.hw.core.pState = .doneAck ∧ s.hw.iCmdDoneAck = true)
    (hacc : s.hw.accepted i.avs = none) : Stand dev (s.step dev i) := by
  have hhold : Holding s.hw.core ∨ s.hw.core.pState = .reset ∧ s.line.Rest dev := by
    obtain h | h | ⟨h, -⟩ := hp
    · exact .inr h
    · exact .inl (.inl h)
    · exact .inl (.inr (.inr h))
  have hset := settled_keep hs hacc (line_between hj hs hhold)
    (answers_hold dev (hhold.imp_right And.left))
  refine .quiet hset ?_ ?_
  · have htip := hs.tip
    simp only [Regs.tip, Bool.or_eq_false_iff] at htip
    show (s.hw.core.clock s.hw.coreInputs).pState = _
    obtain ⟨h, -⟩ | h | ⟨h, hack⟩ := hp
    · simp [Core.clock, comb, h, Comb.moves]
    · simp [Core.clock, comb, h, Comb.moves, cmdGo, Regs.coreInputs, htip]
    · simp [Core.clock, comb, h, Comb.moves, Regs.coreInputs, hack]
  · show (s.hw.dataInSync i.avs).iCmdDoneAck = false
    rw [dataInSync_ack, hs.tip]
    rfl

/-- **A command is accepted** with the interface quiet. -/
theorem accept_step (hj : Joint dev s) (hs : Settled dev s)
    (hp : s.hw.core.pState = .reset ∧ s.line.Rest dev ∨ s.hw.core.pState = .idle)
    (hacc : s.hw.accepted i.avs = some c) : Stand dev (s.step dev i) := by
  obtain ⟨htip, hcmd, hgo⟩ := accepted_some hacc
  have hhold : Holding s.hw.core ∨ s.hw.core.pState = .reset ∧ s.line.Rest dev := by
    obtain h | h := hp
    · exact .inr h
    · exact .inl (.inl h)
  have hline := line_between (i := i) hj hs hhold
  have hans := answers_hold dev (i := i) (hhold.imp_right And.left)
  simp only [Regs.tip, Bool.or_eq_false_iff] at htip
  refine .armed s.issued c ⟨?_, hcmd, hgo, ?_⟩ ?_ ?_ ?_ ?_ ?_ hline.1
  · simp [Scene.step, hacc]
  · show (s.hw.dataInSync i.avs).iCmdDoneAck = false
    rw [dataInSync_ack, hs.tip]
    rfl
  · show (s.hw.core.clock s.hw.coreInputs).pState = _
    obtain ⟨h, -⟩ | h := hp
    · simp [Core.clock, comb, h, Comb.moves]
    · simp [Core.clock, comb, h, Comb.moves, cmdGo, Regs.coreInputs, htip]
  · show (s.hw.core.clock s.hw.coreInputs).cmdDone = _
    obtain ⟨h, -⟩ | h := hp <;> simp [Core.clock, comb, h]
  · rw [hline.2, hs.log]
  · rw [hans.1, hs.lar]
  · rw [hans.2, hs.data]

variable (dev) in
/-- Idle clears the bit counter and goes where the command says. -/
theorem idle_clock (hp : s.hw.core.pState = .idle) (hports : s.hw.coreInputs =
      portsOf c s.line s.hw.clkgen.iClkOut) (hgo : (c.read || c.write) = true) :
    Holds (s.step dev i).hw.core
      (if c.start then .startA else if c.write then .wrA else .rdA) 0 s.hw.core.iDout
      s.hw.core.iAckOut := by
  have hcore : (s.step dev i).hw.core =
      s.hw.core.clock (portsOf c s.line s.hw.clkgen.iClkOut) :=
    congrArg s.hw.core.clock hports
  rw [hcore]
  refine ⟨?_, ?_, ?_, ?_⟩
  · cases hs : c.start <;> cases hw : c.write <;> cases hr : c.read <;>
      simp [hw, hr] at hgo <;>
      simp [Core.clock, comb, hp, Comb.moves, cmdGo, portsOf, hs, hw, hr]
  · simp [Core.clock, comb, hp]
  · simp [Core.clock, comb, hp]
  · simp [Core.clock, comb, hp]

/-- **The core takes the command.** -/
theorem armed_step (hj : Joint dev s) (hc : Pending prev c s) (hp : s.hw.core.pState = .idle)
    (hdone : s.hw.core.cmdDone = false) (hlog : s.log = (outcome dev prev).log)
    (hlar : s.hw.core.iAckOut = (outcome dev prev).lar)
    (hdata : s.hw.core.iDout = (outcome dev prev).data)
    (line : s.line.Down ∨ s.line.Rest dev) (hy : YieldsTo dev s.issued) :
    (Pending prev c (s.step dev i) ∧ (s.step dev i).hw.core.cmdDone = false) ∧
      Serving dev (outcome dev prev) c (s.step dev i).hw.core (s.step dev i).line
        (s.step dev i).hw.clkgen.iClkOut := by
  have hsync := hj.sync (by rw [hp]; decide)
  have hline := scene_hold (i := i) (.inl hp) hsync line
  have hr := idle_clock dev (i := i) hp (hc.ports hsync) hc.go
  rw [hlar, hdata] at hr
  have htodo : Todo dev (outcome dev prev) c c.slots (s.step dev i).line := by
    have hl : (s.step dev i).line.log = (outcome dev prev).log := hline.2.trans hlog
    refine ⟨by rw [hl], ?_⟩
    rw [hl]
    exact hy prev c [] hc.issued
  refine ⟨⟨hc.step hdone, ?_⟩, ?_⟩
  · show (s.hw.core.clock s.hw.coreInputs).cmdDone = _
    simp [Core.clock, comb, hp]
  · cases hs : c.start with
    | true =>
      rw [hs] at hr
      exact .startA hr hs htodo (hline.1.imp_right Line.Rest.toFree)
    | false =>
      rw [hs] at hr
      have hslots : c.slots = c.slotsFrom 0 := by simp [Command.slots, hs]
      rw [hslots] at htodo
      have hdrop := hline.1.imp_left Line.Down.low
      cases hw : c.write with
      | true =>
        rw [hw] at hr
        exact .low (.sent 0) _ _ hr hw ⟨rfl, rfl⟩ htodo hdrop
      | false =>
        rw [hw] at hr
        exact .low (.received 0) _ _ hr hw ⟨heard_zero _ _, rfl⟩ htodo hdrop

/-- The states in which a command is served. -/
theorem serving_state {o : Outcome} {k : Core} {l : Line} {tick : Bool}
    (hs : Serving dev o c k l tick) :
    k.pState ≠ .reset ∧ k.pState ≠ .done ∧ k.pState ≠ .doneAck := by
  cases hs with
  | low p d a r => rw [r.pState]; cases p <;> simp [Pulse.low]
  | rise p d a r => rw [r.pState]; cases p <;> simp [Pulse.rise]
  | high p d a r => rw [r.pState]; cases p <;> simp [Pulse.high]
  | late p d a r => rw [r.pState]; cases p <;> simp [Pulse.late]
  | fall p d a r => rw [r.pState]; cases p <;> simp [Pulse.fall]
  | startA r | startB r | startC r | startD r | wrE i r | rdF i d r | stopA d a r | stopB d a r
  | stopC d a r => rw [r.pState]; decide

/-- **The core serves the command.** -/
theorem pending_step (hj : Joint dev s) (hdiv : s.hw.iClkdiv ≠ 0) (hc : Pending prev c s)
    (hdone : s.hw.core.cmdDone = false)
    (hs : Serving dev (outcome dev prev) c s.hw.core s.line s.hw.clkgen.iClkOut) :
    (Pending prev c (s.step dev i) ∧ (s.step dev i).hw.core.cmdDone = false) ∧
      (Serving dev (outcome dev prev) c (s.step dev i).hw.core (s.step dev i).line
          (s.step dev i).hw.clkgen.iClkOut ∨
        Served dev (outcome dev prev) c (s.step dev i).hw.core (s.step dev i).line) := by
  have hne := serving_state hs
  have hports := hc.ports (hj.sync hne.1)
  have hcore : (s.step dev i).hw.core =
      s.hw.core.clock (portsOf c s.line s.hw.clkgen.iClkOut) :=
    congrArg s.hw.core.clock hports
  have hline : (s.step dev i).line =
      drive dev c s.hw.core s.line s.hw.clkgen.iClkOut i.glitch := by
    rw [Scene.step_line, hports]
    rfl
  have hdone' : (s.step dev i).hw.core.cmdDone = false := by
    show (comb s.hw.core s.hw.coreInputs).iCmdDone = false
    unfold comb
    split <;> first | rfl | exact absurd ‹_› hne.2.1 | exact absurd ‹_› hne.2.2
  have htick : s.hw.clkgen.iClkOut = true → (s.step dev i).hw.clkgen.iClkOut = false :=
    Clkgen.tick_spaced hj.fresh hdiv
  have hafter := serving_step (g := i.glitch) hc.go hs htick
  unfold After at hafter
  rw [← hcore, ← hline] at hafter
  exact ⟨⟨hc.step hdone, hdone'⟩, hafter⟩

theorem served_step (hj : Joint dev s) (hc : Pending prev c s) (hdone : s.hw.core.cmdDone = false)
    (hs : Served dev (outcome dev prev) c s.hw.core s.line) : Stand dev (s.step dev i) := by
  have hp := hs.pState
  have hline := scene_hold (i := i) (.inr (.inl hp)) (hj.sync (by rw [hp]; decide)) hs.line
  have hans := answers_hold dev (i := i) (.inl (.inr (.inl hp)))
  refine .reported prev c (hc.step hdone) ?_ ?_ ⟨?_, ?_⟩ (hs.todo.keep hline.2) hline.1
  · show (s.hw.core.clock s.hw.coreInputs).cmdDone = _
    simp [Core.clock, comb, hp]
  · show (s.hw.core.clock s.hw.coreInputs).pState = _
    simp [Core.clock, comb, hp, Comb.moves]
  · rw [hans.1, hline.2]
    exact hs.answered.lar
  · rw [hans.2, hline.2]
    exact hs.answered.data

/-- **The command is over**: it is on the bus as a whole and its answers are in the registers. -/
theorem reported_step (hj : Joint dev s) (hc : Pending prev c s) (hdone : s.hw.core.cmdDone = true)
    (hp : s.hw.core.pState = .doneAck) (ha : Answered (outcome dev prev) c s.hw.core s.log)
    (todo : Todo dev (outcome dev prev) c [] s.line) (line : s.line.Down ∨ s.line.Rest dev) :
    Stand dev (s.step dev i) := by
  have hline := scene_hold (i := i) (.inr (.inr hp)) (hj.sync (by rw [hp]; decide)) line
  have hans := answers_hold dev (i := i) (.inl (.inr (.inr hp)))
  have hissued : (s.step dev i).issued = prev ++ [c] := by
    simp [Scene.step, Regs.accepted, hc.tip, hc.issued]
  have hout : outcome dev (s.step dev i).issued = (outcome dev prev).add dev c := by
    rw [hissued, outcome_snoc]
  have hlog : s.log = perform dev (outcome dev prev).log c.slots := todo.log_eq
  refine .closing ⟨?_, ?_, ?_, ?_, hline.1⟩ ?_ ?_
  · show (s.hw.dataInSync i.avs).tip = false
    have hne : ¬ s.hw.tip = false := by simp [hc.tip]
    unfold Regs.dataInSync
    rw [if_neg hne, if_pos hdone]
    rfl
  · rw [hline.2, hout, hlog]
    rfl
  · rw [hans.1, hout, ha.lar, hlog]
    rfl
  · rw [hans.2, hout, ha.data, hlog]
    rfl
  · show (s.hw.core.clock s.hw.coreInputs).pState = _
    simp [Core.clock, comb, hp, Comb.moves, Regs.coreInputs, hc.ack]
  · show (s.hw.dataInSync i.avs).iCmdDoneAck = true
    rw [dataInSync_ack, hc.tip, hdone]
    rfl

/-- **One edge** of interface, core and bus. -/
theorem stand_step (hj : Joint dev s) (hdiv : s.hw.iClkdiv ≠ 0) (hy : YieldsTo dev s.issued)
    (hpoll : s.hw.iCmdDoneAck = true → s.hw.accepted i.avs = none) :
    Stand dev (s.step dev i) := by
  cases hj.stand with
  | reset hs hp hack hrest =>
    cases hacc : s.hw.accepted i.avs with
    | none => exact quiet_step hj hs (.inl ⟨hp, hrest⟩) hacc
    | some c => exact accept_step hj hs (.inl ⟨hp, hrest⟩) hacc
  | quiet hs hp hack =>
    cases hacc : s.hw.accepted i.avs with
    | none => exact quiet_step hj hs (.inr (.inl hp)) hacc
    | some c => exact accept_step hj hs (.inr hp) hacc
  | closing hs hp hack => exact quiet_step hj hs (.inr (.inr ⟨hp, hack⟩)) (hpoll hack)
  | armed prev c hc hp hdone hlog hlar hdata line =>
    obtain ⟨⟨hc', hdone'⟩, hs⟩ := armed_step (i := i) hj hc hp hdone hlog hlar hdata line hy
    exact .serving prev c hc' hdone' hs
  | serving prev c hc hdone hs =>
    obtain ⟨⟨hc', hdone'⟩, h | h⟩ := pending_step (i := i) hj hdiv hc hdone hs
    · exact .serving prev c hc' hdone' h
    · exact .served prev c hc' hdone' h
  | served prev c hc hdone hs => exact served_step hj hc hdone hs
  | reported prev c hc hdone hp ha todo line => exact reported_step hj hc hdone hp ha todo line

/-- The output registers follow what they show by one cycle. -/
theorem outputs_step : ((s.step dev i).hw.core.pState ≠ .rdD →
      (s.step dev i).hw.core.dataOut = (s.step dev i).hw.core.iDout) ∧
    ((s.step dev i).hw.core.pState ≠ .rdAckD →
      (s.step dev i).hw.core.ackOut = (s.step dev i).hw.core.iAckOut) := by
  show ((s.hw.core.clock s.hw.coreInputs).pState ≠ .rdD →
      (s.hw.core.clock s.hw.coreInputs).dataOut = (s.hw.core.clock s.hw.coreInputs).iDout) ∧
    ((s.hw.core.clock s.hw.coreInputs).pState ≠ .rdAckD →
      (s.hw.core.clock s.hw.coreInputs).ackOut = (s.hw.core.clock s.hw.coreInputs).iAckOut)
  cases hp : s.hw.core.pState <;> simp [Core.clock, comb, hp, Comb.moves]

/-- No state goes back to `Reset`. -/
theorem reset_left : (s.step dev i).hw.core.pState ≠ .reset := by
  show (s.hw.core.clock s.hw.coreInputs).pState ≠ .reset
  have hn : (comb s.hw.core s.hw.coreInputs).nState ≠ .reset := by
    unfold comb
    cases s.hw.core.pState <;> simp only <;> (repeat' split) <;> decide
  unfold Core.clock
  by_cases hp : s.hw.core.pState = .reset
  · simp [comb, hp, Comb.moves]
  · simp only
    split
    · exact hn
    · exact hp

theorem joint_step (hj : Joint dev s) (hdiv : s.hw.iClkdiv ≠ 0) (hy : YieldsTo dev s.issued)
    (hpoll : s.hw.iCmdDoneAck = true → s.hw.accepted i.avs = none) :
    Joint dev (s.step dev i) where
  fresh := Clkgen.fresh_clock _ _
  sync _ := ⟨rfl, rfl⟩
  dataOut := outputs_step.1
  ackOut := outputs_step.2
  stand := stand_step hj hdiv hy hpoll

/-! ## Runs -/

variable (dev) (sclIn sdaIn : Bool) (inp : Nat → Inputs)

/-- The scene in cycle `n`. -/
abbrev scene (n : Nat) : Scene := (machine dev sclIn sdaIn).run inp n

theorem joint_init : Joint dev (scene dev sclIn sdaIn inp 0) where
  fresh := Clkgen.fresh_reset
  sync h := absurd rfl h
  dataOut _ := rfl
  ackOut _ := rfl
  stand :=
    have hrest : (scene dev sclIn sdaIn inp 0).line.Rest dev :=
      ⟨⟨rfl, rfl, rfl, rfl, dev.drives_nil⟩, rfl⟩
    .reset ⟨rfl, rfl, rfl, rfl, .inr hrest⟩ rfl rfl hrest

/-- The access leaves the divisor off 0. -/
def Access.Divides (a : Access) : Prop :=
  Regs.writeStrobe a = true → a.address = 3 → a.writedata ≠ 0

/-- What the software and the device owe the master, up to cycle `n`. -/
structure Polite (n : Nat) : Prop where
  /-- A command is written only if TIP was low a cycle before. -/
  polled : ∀ k, k + 1 < n →
    (scene dev sclIn sdaIn inp (k + 1)).hw.accepted (inp (k + 1)).avs ≠ none →
      (scene dev sclIn sdaIn inp k).hw.tip = false
  /-- The divisor is never set to 0. -/
  divides : ∀ k < n, (inp k).avs.Divides
  /-- The device leaves SDA alone when a start or a stop is to be made. -/
  yields : ∀ k < n, YieldsTo dev (scene dev sclIn sdaIn inp k).issued

variable {dev sclIn sdaIn inp}

/-- The divisor over an edge. -/
theorem clkdiv_step {r : Regs} {a : Access} (ha : a.Divides) (h : r.iClkdiv ≠ 0) :
    (r.dataInSync a).iClkdiv ≠ 0 := by
  unfold Regs.dataInSync
  split
  · cases hs : Regs.writeStrobe a with
    | false => exact h
    | true =>
      show (r.writeRegister a).iClkdiv ≠ 0
      unfold Regs.writeRegister
      split
      · exact h
      · exact h
      · exact h
      · rename_i haddr
        exact ha hs haddr
  · split <;> exact h

theorem clkdiv_run (n : Nat) (h : ∀ k < n, (inp k).avs.Divides) :
    (scene dev sclIn sdaIn inp n).hw.iClkdiv ≠ 0 := by
  induction n with
  | zero => exact (by decide : (0b10000011 : BitVec 8) ≠ 0)
  | succ n ih => exact clkdiv_step (h n (by omega)) (ih fun k hk => h k (by omega))

/-- `cmd_done_ack` means that TIP has just fallen. -/
theorem ack_iff (n : Nat) : (scene dev sclIn sdaIn inp (n + 1)).hw.iCmdDoneAck = true ↔
    (scene dev sclIn sdaIn inp n).hw.tip = true ∧
      (scene dev sclIn sdaIn inp n).hw.core.cmdDone = true := by
  rw [← Bool.and_eq_true, ← dataInSync_ack (a := (inp n).avs)]
  rfl

theorem joint_run (n : Nat) (h : Polite dev sclIn sdaIn inp n) :
    Joint dev (scene dev sclIn sdaIn inp n) := by
  induction n with
  | zero => exact joint_init dev sclIn sdaIn inp
  | succ n ih =>
    have hj := ih ⟨fun k hk => h.polled k (by omega), fun k hk => h.divides k (by omega),
      fun k hk => h.yields k (by omega)⟩
    refine joint_step hj (clkdiv_run n fun k hk => h.divides k (by omega))
      (h.yields n (by omega)) ?_
    intro hack
    cases n with
    | zero => cases hack
    | succ n =>
      by_contra hacc
      have htip := h.polled n (by omega) hacc
      have hbusy := ((ack_iff n).mp hack).1
      exact absurd (htip.symm.trans hbusy) Bool.false_ne_true

variable (dev) in
/-- What a step needs of a scene. -/
structure Sound (s : Scene) : Prop where
  joint : Joint dev s
  divides : s.hw.iClkdiv ≠ 0
  yields : YieldsTo dev s.issued

theorem Polite.mono {m n : Nat} (h : Polite dev sclIn sdaIn inp n) (hmn : m ≤ n) :
    Polite dev sclIn sdaIn inp m :=
  ⟨fun k hk => h.polled k (by omega), fun k hk => h.divides k (by omega),
    fun k hk => h.yields k (by omega)⟩

theorem sound_run {n k : Nat} (h : Polite dev sclIn sdaIn inp n) (hk : k < n) :
    Sound dev (scene dev sclIn sdaIn inp k) :=
  ⟨joint_run k (h.mono (by omega)), clkdiv_run k fun j hj => h.divides j (by omega),
    h.yields k hk⟩

variable (dev) in
/-- The bus carries the accepted commands. -/
structure Carried (s : Scene) : Prop where
  inOrder : s.log <+: (outcome dev s.issued).log
  complete : s.hw.tip = false → s.log = (outcome dev s.issued).log
  lar : s.hw.tip = false → s.hw.core.ackOut = (outcome dev s.issued).lar
  data : s.hw.tip = false → s.hw.core.dataOut = (outcome dev s.issued).data

theorem carried_settled (hj : Joint dev s) (hs : Settled dev s)
    (hp : s.hw.core.pState ≠ .rdD ∧ s.hw.core.pState ≠ .rdAckD) : Carried dev s where
  inOrder := hs.log ▸ List.prefix_refl _
  complete _ := hs.log
  lar _ := by rw [hj.ackOut hp.2, hs.lar]
  data _ := by rw [hj.dataOut hp.1, hs.data]

theorem carried_pending (hc : Pending prev c s)
    (hpre : s.log <+: perform dev (outcome dev prev).log c.slots) : Carried dev s where
  inOrder := by
    rw [hc.issued, outcome_snoc]
    exact hpre
  complete h := absurd (h.symm.trans hc.tip) Bool.false_ne_true
  lar h := absurd (h.symm.trans hc.tip) Bool.false_ne_true
  data h := absurd (h.symm.trans hc.tip) Bool.false_ne_true

theorem joint_carried (hj : Joint dev s) : Carried dev s := by
  cases hj.stand with
  | reset hs hp hack hrest => exact carried_settled hj hs (by rw [hp]; decide)
  | quiet hs hp hack => exact carried_settled hj hs (by rw [hp]; decide)
  | closing hs hp hack => exact carried_settled hj hs (by rw [hp]; decide)
  | armed prev c hc hp hdone hlog hlar hdata line =>
    refine carried_pending hc ?_
    rw [hlog]
    exact prefix_perform dev _ _
  | serving prev c hc hdone hs => exact carried_pending hc (serving_begins hs)
  | served prev c hc hdone hs =>
    refine carried_pending hc ?_
    rw [← hs.todo.total]
    exact prefix_perform dev _ _
  | reported prev c hc hdone hp ha todo line =>
    refine carried_pending hc ?_
    rw [← todo.total]
    exact prefix_perform dev _ _

/-- **The bus carries the commands**, each once, whole and in order, and the registers return what
the device answered. -/
theorem commands_on_bus (n : Nat) (h : Polite dev sclIn sdaIn inp n) :
    Carried dev (scene dev sclIn sdaIn inp n) :=
  joint_carried (joint_run n h)

end Runs

/-- A bus with nobody on it. -/
def nobody : Device Unit where
  init := ()
  drive _ := true
  observe _ _ := ()
  released_init := rfl
  released_start _ := rfl
  released_stop _ := rfl

theorem nobody_yields (cs : List Command) : YieldsTo nobody cs := by
  intro before c after _
  generalize (outcome nobody before).log = log
  generalize c.slots = slots
  induction slots generalizing log with
  | nil => trivial
  | cons s rest ih => exact ⟨fun _ => rfl, ih _⟩

/-- One command: a start, the address byte and a stop. -/
def oneCommand : Nat → Inputs
  | 0 => ⟨writeAccess 0 0xBA, false⟩
  | 1 => ⟨writeAccess 1 0x16, true⟩
  | _ => ⟨noAccess, false⟩

theorem oneCommand_polite (n : Nat) : Polite nobody true true oneCommand n where
  polled k _ hacc := by
    match k with
    | 0 => rfl
    | k + 1 => exact absurd (by simp [oneCommand, Regs.accepted, Access.commands, noAccess]) hacc
  divides k _ := by
    match k with
    | 0 => exact fun _ h => absurd h (by decide)
    | 1 => exact fun _ h => absurd h (by decide)
    | k + 2 => exact fun h => absurd h Bool.false_ne_true
  yields _ _ := nobody_yields _

theorem commands_on_bus_oneCommand :
    Carried nobody (scene nobody true true oneCommand 10000) :=
  commands_on_bus 10000 (oneCommand_polite 10000)

section Runs

variable {σ : Type} {dev : Device σ} {sclIn sdaIn : Bool} {inp : Nat → Inputs}

/-! ## The cycle in which TIP falls -/

/-- TIP falls with `cmd_done_ack`. -/
theorem tip_falls {r : Regs} {a : Access} (ht : r.tip = true)
    (h : (r.dataInSync a).tip = false) : r.core.cmdDone = true := by
  cases hd : r.core.cmdDone with
  | true => rfl
  | false =>
    rw [dataInSync_running ht hd] at h
    exact absurd (h.symm.trans ht) Bool.false_ne_true

/-- A transfer the core calls done is over. -/
theorem tip_done {r : Regs} {a : Access} (ht : r.tip = true) (hd : r.core.cmdDone = true) :
    (r.dataInSync a).tip = false := by
  have hne : ¬ r.tip = false := by simp [ht]
  unfold Regs.dataInSync
  rw [if_neg hne, if_pos hd]
  rfl

/-- Its bits are cleared. -/
theorem done_clears {r : Regs} {a : Access} (ht : r.tip = true) (hd : r.core.cmdDone = true) :
    (r.dataInSync a).iStart = false ∧ (r.dataInSync a).iStop = false := by
  have hne : ¬ r.tip = false := by simp [ht]
  unfold Regs.dataInSync
  rw [if_neg hne, if_pos hd]
  exact ⟨rfl, rfl⟩

/-- The state in which the core begins a command. -/
def Command.entry (c : Command) : State :=
  if c.start then .startA else if c.write then .wrA else .rdA

/-- A core in `s_Idle` begins the command in the registers. -/
theorem idle_begins {r : Regs} (hp : r.core.pState = .idle) (ht : r.tip = true) :
    (r.core.clock r.coreInputs).pState = r.command.entry := by
  cases hs : r.iStart <;> cases hw : r.iWrite <;> cases hr : r.iRead <;>
    simp [Regs.tip, hw, hr] at ht <;>
    simp [Core.clock, comb, hp, Comb.moves, cmdGo, Regs.coreInputs, Command.entry, Regs.command,
      hs, hw, hr]

/-- A command that finds the core in `s_Idle` is kept, and the core finds it there. -/
theorem idle_keeps {n : Nat} {c : Command}
    (hacc : (scene dev sclIn sdaIn inp n).hw.accepted (inp n).avs = some c)
    (hp : (scene dev sclIn sdaIn inp n).hw.core.pState = .idle) :
    (scene dev sclIn sdaIn inp (n + 2)).hw.tip = true ∧
      (scene dev sclIn sdaIn inp (n + 2)).hw.command = c ∧
      (scene dev sclIn sdaIn inp (n + 1)).hw.core.pState = .idle := by
  have hlow := (accepted_some hacc).1
  simp only [Regs.tip, Bool.or_eq_false_iff] at hlow
  have hdone : (scene dev sclIn sdaIn inp (n + 1)).hw.core.cmdDone = false := by
    show (comb (scene dev sclIn sdaIn inp n).hw.core _).iCmdDone = false
    simp only [comb, hp]
  have hkeep : (scene dev sclIn sdaIn inp (n + 1)).hw.dataInSync (inp (n + 1)).avs =
      { (scene dev sclIn sdaIn inp (n + 1)).hw with iCmdDoneAck := false } :=
    dataInSync_running (accepted_tip hacc) hdone
  refine ⟨?_, ?_, ?_⟩
  · show (Regs.dataInSync _ _).tip = true
    rw [hkeep]
    exact accepted_tip hacc
  · show (Regs.dataInSync _ _).command = c
    rw [hkeep]
    exact (accepted_some hacc).2.1
  · show ((scene dev sclIn sdaIn inp n).hw.core.clock
      (scene dev sclIn sdaIn inp n).hw.coreInputs).pState = _
    simp only [Core.clock, comb, hp, Comb.moves, cmdGo, Regs.coreInputs, hlow, Bool.or_self,
      Bool.false_and, Bool.false_eq_true, if_false, Bool.and_false, Bool.not_false, Bool.or_true,
      if_true]

/-- One that finds it in `Done_Ack` is cleared by the end of the command before it. -/
theorem doneAck_clears {n : Nat} {c : Command}
    (hacc : (scene dev sclIn sdaIn inp n).hw.accepted (inp n).avs = some c)
    (hp : (scene dev sclIn sdaIn inp n).hw.core.pState = .doneAck)
    (hack : (scene dev sclIn sdaIn inp n).hw.iCmdDoneAck = true) :
    (scene dev sclIn sdaIn inp (n + 2)).hw.tip = false ∧
      ((scene dev sclIn sdaIn inp (n + 2)).hw.iStart = false ∧
        (scene dev sclIn sdaIn inp (n + 2)).hw.iStop = false) ∧
      (scene dev sclIn sdaIn inp (n + 1)).hw.core.pState = .idle := by
  have hdone : (scene dev sclIn sdaIn inp (n + 1)).hw.core.cmdDone = true := by
    show (comb (scene dev sclIn sdaIn inp n).hw.core _).iCmdDone = true
    simp only [comb, hp]
  refine ⟨tip_done (accepted_tip hacc) hdone, done_clears (accepted_tip hacc) hdone, ?_⟩
  show ((scene dev sclIn sdaIn inp n).hw.core.clock
    (scene dev sclIn sdaIn inp n).hw.coreInputs).pState = _
  simp only [Core.clock, comb, hp, Comb.moves, Regs.coreInputs, hack, Bool.and_false,
    Bool.not_false, Bool.or_true, if_true]

/-- **The cycle in which TIP falls.**  Two cycles after a command is accepted the core has begun
it.  The command is still in its register exactly if TIP was low the cycle before already; one
accepted in the first cycle in which TIP is low has been cleared by the end of the one before. -/
theorem kept_iff (n : Nat) (c : Command) (h : Polite dev sclIn sdaIn inp (n + 1))
    (hacc : (scene dev sclIn sdaIn inp (n + 1)).hw.accepted (inp (n + 1)).avs = some c) :
    ((scene dev sclIn sdaIn inp (n + 3)).hw.tip = true ↔
        (scene dev sclIn sdaIn inp n).hw.tip = false) ∧
      ((scene dev sclIn sdaIn inp (n + 3)).hw.tip = true →
        (scene dev sclIn sdaIn inp (n + 3)).hw.command = c) ∧
      ((scene dev sclIn sdaIn inp (n + 3)).hw.tip = false →
        (scene dev sclIn sdaIn inp (n + 3)).hw.iStart = false ∧
          (scene dev sclIn sdaIn inp (n + 3)).hw.iStop = false) ∧
      (scene dev sclIn sdaIn inp (n + 3)).hw.core.pState = c.entry := by
  have htip := (accepted_some hacc).1
  have hbegun : (scene dev sclIn sdaIn inp (n + 2)).hw.core.pState = .idle →
      (scene dev sclIn sdaIn inp (n + 3)).hw.core.pState = c.entry := by
    intro hp
    have hcommand : (scene dev sclIn sdaIn inp (n + 2)).hw.command = c := (accepted_some hacc).2.1
    rw [← hcommand]
    exact idle_begins hp (accepted_tip hacc)
  have hbusy : ∀ prev c, Pending prev c (scene dev sclIn sdaIn inp (n + 1)) → False :=
    fun _ _ hc => absurd (htip.symm.trans hc.tip) Bool.false_ne_true
  cases (joint_run (n + 1) h).stand with
  | reset hs hp hack hrest => exact absurd hp reset_left
  | quiet hs hp hack =>
    have hbefore : (scene dev sclIn sdaIn inp n).hw.tip = false := by
      by_contra hne
      have ht := eq_true_of_ne_false hne
      have := (ack_iff n).mpr ⟨ht, tip_falls ht htip⟩
      exact absurd (hack.symm.trans this) Bool.false_ne_true
    obtain ⟨htip3, hcommand, hidle⟩ := idle_keeps hacc hp
    refine ⟨⟨fun _ => hbefore, fun _ => htip3⟩, fun _ => hcommand, ?_, hbegun hidle⟩
    intro ht
    exact absurd (ht.symm.trans htip3) Bool.false_ne_true
  | closing hs hp hack =>
    have hbefore := ((ack_iff n).mp hack).1
    obtain ⟨htip3, hcleared, hidle⟩ := doneAck_clears hacc hp hack
    refine ⟨?_, ?_, fun _ => hcleared, hbegun hidle⟩
    · rw [htip3, hbefore]
      exact Iff.intro (fun h => absurd h Bool.false_ne_true) (fun h => absurd h (by decide))
    · intro ht
      exact absurd (htip3.symm.trans ht) Bool.false_ne_true
  | armed prev c hc => exact (hbusy prev c hc).elim
  | serving prev c hc => exact (hbusy prev c hc).elim
  | served prev c hc => exact (hbusy prev c hc).elim
  | reported prev c hc => exact (hbusy prev c hc).elim

end Runs

/-- Divisor 1, a start, a byte and a stop, and a byte in cycle 91, the first in which TIP is low. -/
def earlyCommand : Nat → Inputs
  | 0 => ⟨writeAccess 3 1, false⟩
  | 1 => ⟨writeAccess 0 0xBA, false⟩
  | 2 => ⟨writeAccess 1 0x16, false⟩
  | n => ⟨if n = 91 then writeAccess 1 0x10 else noAccess, false⟩

theorem earlyCommand_divides (k : Nat) : (earlyCommand k).avs.Divides := by
  match k with
  | 0 => exact fun _ _ => by decide
  | 1 => exact fun _ h => absurd h (by decide)
  | 2 => exact fun _ h => absurd h (by decide)
  | k + 3 =>
    show Access.Divides (if k + 3 = 91 then writeAccess 1 0x10 else noAccess)
    split
    · exact fun _ h => absurd h (by decide)
    · exact fun h => absurd h Bool.false_ne_true

theorem earlyCommand_polite : Polite nobody true true earlyCommand 91 where
  polled k hk hacc := by
    match k with
    | 0 => rfl
    | 1 => decide
    | k + 2 =>
      have hno : (earlyCommand (k + 3)).avs = noAccess := if_neg (by omega)
      exact absurd (by simp [Regs.accepted, hno, Access.commands, noAccess]) hacc
  divides k _ := earlyCommand_divides k
  yields _ _ := nobody_yields _

/-- The byte is begun with `RD` and `WR` cleared: the flag is low while it is sent. -/
theorem kept_iff_earlyCommand : (scene nobody true true earlyCommand 93).hw.tip = false ∧
    (scene nobody true true earlyCommand 93).hw.core.pState = .wrA := by
  obtain ⟨hkept, -, -, hbegun⟩ := kept_iff 90 ⟨false, false, false, true, false, 0xBA⟩
    earlyCommand_polite (by decide +kernel)
  refine ⟨?_, hbegun⟩
  rw [← Bool.not_eq_true, hkept]
  decide +kernel

end CameraLcd.I2c
