import CameraLcd.Lcd.Entity

/-!
# Resetting the registers in the middle of a display

`LCD_Configuration` begins with a reset of `RegStateCommandData` and `RegCommandData`.  The
controller is not told: it goes on with the display it is in, and `End_Display` then reads a
`State_Command_Data` that belongs to another request.

* `Call` — the functions of `LCD_function.c` as lists of accesses, made at any time.
* `Granted` — a call that has read 0 finds no request in the registers.
* `Awaiting` — after a request the CPU polls, or resets the registers once more.
* `sent_iff` — exactly when a request is sent before it is acknowledged.
* `stranded` — after a reset in a display the next request never is.
-/

set_option autoImplicit false

namespace CameraLcd.SoftwareReset

open Clocked
open FullLcd (PixelFifo)
open LcdControl (Strobe)

/-! ## The driver -/

/-- One access of a function. -/
inductive Op where
  /-- `Check = IORD_32DIRECT(LCD_0_BASE, REGSTATECOMMANDDATA)`, repeated until it is 0. -/
  | poll
  | write (address : BitVec 3) (data : BitVec 32)
  | read (address : BitVec 3)
  deriving DecidableEq, Repr

/-- A call of the driver; `configuration` is `LCD_Configuration` up to its first command. -/
inductive Call where
  | command (commandData : BitVec 32)
  | data (commandData : BitVec 32)
  | display
  | configuration (startAdd lengthBuffer : BitVec 32)
  deriving DecidableEq, Repr

/-- Poll, then write `REGCOMMANDDATA` and `REGSTATECOMMANDDATA`. -/
def request (commandData state : BitVec 32) : List Op :=
  [.poll, .write 0 commandData, .write 1 state]

/-- The accesses of a call.  `alt_printf` reads back every register that was written. -/
def Call.ops : Call → List Op
  | .command commandData => request commandData 0x00000001
  | .data commandData => request commandData 0x00000002
  | .display => request 0x0000002C 0x00000003
  | .configuration startAdd lengthBuffer =>
    [.write 2 startAdd, .read 2, .write 3 lengthBuffer, .read 3, .write 1 0, .read 1, .write 0 0,
      .read 0]

/-- The calls that poll first. -/
def Call.polls : Call → Bool
  | .configuration _ _ => false
  | _ => true

/-- The state of `LCD_Control` that serves a word, and `D_CX` and `D` of its write cycle. -/
def Call.asks : Call → Option (LcdControl.State × Strobe)
  | .command commandData => some (.command, false, commandData.setWidth 16)
  | .data commandData => some (.data, true, commandData.setWidth 16)
  | _ => none

/-- The CPU: the call it is in and the access it makes next. -/
structure Cpu where
  next : Nat
  pc : Nat
  deriving DecidableEq, Repr

section Driver

variable (calls : Nat → Call) (cpu : Cpu)

/-- The next access. -/
def op : Op := (calls cpu.next).ops.getD cpu.pc .poll

/-- The access of a cycle in which the CPU makes one (`go`). -/
def access (go : Bool) : LcdSlave.Access :=
  if go then
    match op calls cpu with
    | .poll => LcdSlave.readAccess 1
    | .write address data => LcdSlave.writeAccess address data
    | .read address => LcdSlave.readAccess address
  else LcdSlave.noAccess

/-- The CPU after an access. -/
def advance : Cpu :=
  if cpu.pc + 1 < (calls cpu.next).ops.length then ⟨cpu.next, cpu.pc + 1⟩ else ⟨cpu.next + 1, 0⟩

/-- The CPU after a cycle; `readData` is what a read in that cycle returns. -/
def cpuClock (go : Bool) (readData : BitVec 32) : Cpu :=
  if go then
    if op calls cpu = .poll ∧ readData ≠ 0 then cpu else advance calls cpu
  else cpu

end Driver

/-! ## The composition -/

/-- The CPU and the entity. -/
structure Regs (F : PixelFifo) where
  cpu : Cpu
  entity : LcdEntity.Regs F

/-- The cycles in which the CPU makes its accesses, and the other inputs of the entity. -/
structure Inputs where
  go : Bool
  bufferSaved : BitVec 2
  avmWaitRequest : Bool
  beat : Bool
  memory : BitVec 32 → BitVec 32

section Composition

variable {F : PixelFifo} (calls : Nat → Call) (s : Regs F) (i : Inputs)

/-- The inputs of `Full_LCD_Entity`. -/
def entityInputs : LcdEntity.Inputs where
  avs := access calls s.cpu i.go
  bufferSaved := i.bufferSaved
  avmWaitRequest := i.avmWaitRequest
  beat := i.beat
  memory := i.memory

/-- One clock edge. -/
def step : Regs F where
  cpu := cpuClock calls s.cpu i.go
    (LcdEntity.step s.entity (entityInputs calls s i)).slave.avsReadData
  entity := LcdEntity.step s.entity (entityInputs calls s i)

end Composition

/-- CPU and entity from reset on. -/
def machine (F : PixelFifo) (calls : Nat → Call) (avsReadData : BitVec 32) :
    Machine (Regs F) Inputs where
  init := ⟨⟨0, 0⟩, (LcdEntity.machine F avsReadData).init⟩
  step := step calls

section Streams

variable (F : PixelFifo) (calls : Nat → Call) (avsReadData : BitVec 32) (inp : Nat → Inputs)

/-- CPU and entity in cycle `n`. -/
abbrev regs (n : Nat) : Regs F := (machine F calls avsReadData).run inp n

/-- `LCD_Control` in cycle `n`. -/
abbrev controlAt (n : Nat) : LcdControl.Regs :=
  (regs F calls avsReadData inp n).entity.lcd.control

/-- The inputs of `LCD_Control` in cycle `n`. -/
def controlInputsAt (n : Nat) : LcdControl.Inputs :=
  FullLcd.controlInputs (regs F calls avsReadData inp n).entity.lcd
    (LcdEntity.lcdInputs (regs F calls avsReadData inp n).entity
      (entityInputs calls (regs F calls avsReadData inp n) (inp n)))

/-- The pins of the LCD in cycle `n`. -/
def pinsAt (n : Nat) : LcdControl.Pins :=
  LcdControl.pins (controlAt F calls avsReadData inp n) (controlInputsAt F calls avsReadData inp n)

/-- In cycle `n` a call writes the request for a word. -/
structure Requests (n : Nat) (state : LcdControl.State) (word : Strobe) : Prop where
  go : (inp n).go = true
  pc : (regs F calls avsReadData inp n).cpu.pc = 2
  call : (calls (regs F calls avsReadData inp n).cpu.next).asks = some (state, word)

/-- `Done_Command_Data` is low in the cycles `a, …, b - 1`. -/
def Unacknowledged (a b : Nat) : Prop :=
  ∀ k, a ≤ k → k < b → LcdControl.doneCommandData (controlAt F calls avsReadData inp k) = false

/-- The request of cycle `n` is sent: its word is strobed before `Done_Command_Data` clears
`RegStateCommandData`.  The strobe is that of the state that serves the request, and no later
call has made its own: a pixel or a later command that happens to be the same word does not
count. -/
def Sent (n : Nat) (state : LcdControl.State) (word : Strobe) : Prop :=
  ∃ m, n < m ∧ LcdControl.strobe (pinsAt F calls avsReadData inp) m = some word ∧
    (controlAt F calls avsReadData inp m).state = state ∧
    (regs F calls avsReadData inp m).cpu.next = (regs F calls avsReadData inp n).cpu.next + 1 ∧
    Unacknowledged F calls avsReadData inp n m

end Streams

/-- `LCD_Control` can still serve a request: it rests in `Init`, or in the serving state before
the word is strobed. -/
def Ready (state : LcdControl.State) (r : LcdControl.Regs) : Prop :=
  r.state = .init ∨ r.state = state ∧ r.counterTime < 4

instance (state : LcdControl.State) (r : LcdControl.Regs) : Decidable (Ready state r) :=
  inferInstanceAs (Decidable (_ ∨ _))

/-! ## The CPU -/

section Cpu

variable {F : PixelFifo} {calls : Nat → Call} {s : Regs F} {i : Inputs}

theorem Call.ops_of_polls {c : Call} (h : c.polls = true) : ∃ v q, c.ops = request v q := by
  cases c with
  | command | data | display => exact ⟨_, _, rfl⟩
  | configuration => cases h

theorem Call.ops_of_asks {c : Call} {state : LcdControl.State} {word : Strobe}
    (h : c.asks = some (state, word)) : ∃ v q, c.ops = request v q ∧ word.2 = v.setWidth 16 ∧
      (state = .command ∧ word.1 = false ∧ q = 1 ∨ state = .data ∧ word.1 = true ∧ q = 2) := by
  cases c with
  | command v =>
    simp only [Call.asks, Option.some.injEq, Prod.mk.injEq] at h
    obtain ⟨rfl, rfl⟩ := h
    exact ⟨v, 1, rfl, rfl, .inl ⟨rfl, rfl, rfl⟩⟩
  | data v =>
    simp only [Call.asks, Option.some.injEq, Prod.mk.injEq] at h
    obtain ⟨rfl, rfl⟩ := h
    exact ⟨v, 2, rfl, rfl, .inr ⟨rfl, rfl, rfl⟩⟩
  | display | configuration => simp [Call.asks] at h

theorem slave_step (calls : Nat → Call) (s : Regs F) (i : Inputs) :
    (step calls s i).entity.slave.stateCommandData = s.entity.slave.regStateCommandData ∧
      (step calls s i).entity.slave.commandData = s.entity.slave.regCommandData ∧
      (step calls s i).entity.slave.regStateCommandData =
        (if LcdControl.doneCommandData s.entity.lcd.control then 0
          else if LcdSlave.writes (access calls s.cpu i.go) 1 then
            (access calls s.cpu i.go).writeData.setWidth 2
          else s.entity.slave.regStateCommandData) ∧
      (step calls s i).entity.slave.regCommandData =
        (if LcdSlave.writes (access calls s.cpu i.go) 0 then
            (access calls s.cpu i.go).writeData.setWidth 16
          else s.entity.slave.regCommandData) :=
  ⟨rfl, rfl, rfl, rfl⟩

theorem zero_step (hw : LcdSlave.writes (access calls s.cpu i.go) 1 = false)
    (hzero : s.entity.slave.regStateCommandData = 0) :
    (step calls s i).entity.slave.regStateCommandData = 0 ∧
      (step calls s i).entity.slave.stateCommandData = 0 := by
  obtain ⟨hstate, -, hreg, -⟩ := slave_step calls s i
  refine ⟨?_, hstate.trans hzero⟩
  rw [hreg, hw, hzero]
  split <;> rfl

theorem writes_access (calls : Nat → Call) (cpu : Cpu) (go : Bool) (x : BitVec 3) :
    LcdSlave.writes (access calls cpu go) x = true ↔
      go = true ∧ ∃ data, op calls cpu = .write x data := by
  unfold access
  cases go with
  | false => simp
  | true =>
    simp only [if_true, true_and]
    cases op calls cpu with
    | poll => simp
    | read a => simp
    | write a d =>
      rw [LcdSlave.writes_writeAccess, beq_iff_eq]
      constructor
      · rintro rfl
        exact ⟨d, rfl⟩
      · rintro ⟨d', h⟩
        cases h
        rfl

theorem writes_false {cpu : Cpu} {go : Bool} {x : BitVec 3}
    (h : go = false ∨ ∀ data, op calls cpu ≠ .write x data) :
    LcdSlave.writes (access calls cpu go) x = false := by
  rw [← Bool.not_eq_true, writes_access]
  rintro ⟨hgo, data, hop⟩
  rcases h with hno | hno
  · rw [hgo] at hno
    cases hno
  · exact hno data hop

theorem cpu_step (calls : Nat → Call) (s : Regs F) (i : Inputs) :
    i.go = false ∧ (step calls s i).cpu = s.cpu ∨
      i.go = true ∧ op calls s.cpu = .poll ∧ s.entity.slave.regStateCommandData ≠ 0 ∧
        (step calls s i).cpu = s.cpu ∨
      i.go = true ∧ (op calls s.cpu = .poll → s.entity.slave.regStateCommandData = 0) ∧
        (step calls s i).cpu = advance calls s.cpu := by
  cases hgo : i.go with
  | false => exact .inl ⟨rfl, by simp [step, cpuClock, hgo]⟩
  | true =>
    right
    by_cases hop : op calls s.cpu = .poll
    · have hread : (LcdEntity.step s.entity (entityInputs calls s i)).slave.avsReadData =
          s.entity.slave.regStateCommandData.setWidth 32 := by
        simp [LcdEntity.step, LcdSlave.clock, LcdEntity.slaveInputs, entityInputs, access, hgo,
          hop, LcdSlave.readValue, LcdSlave.readAccess]
      have hcpu : (step calls s i).cpu = if op calls s.cpu = .poll ∧
          s.entity.slave.regStateCommandData ≠ 0 then s.cpu else advance calls s.cpu := by
        unfold step cpuClock
        rw [hread, if_pos hgo]
        simp only [ne_eq, LcdSlave.readState_eq_zero]
      by_cases h0 : s.entity.slave.regStateCommandData = 0
      · right
        refine ⟨rfl, fun _ => h0, ?_⟩
        rw [hcpu, if_neg]
        rintro ⟨-, hne⟩
        exact hne h0
      · left
        refine ⟨rfl, hop, h0, ?_⟩
        rw [hcpu, if_pos]
        exact ⟨hop, h0⟩
    · right
      refine ⟨rfl, fun h => absurd h hop, ?_⟩
      unfold step cpuClock
      rw [if_pos hgo, if_neg]
      exact fun h => hop h.1

/-- The accesses of a configuration: only the fifth writes `RegStateCommandData`, only the
seventh `RegCommandData`. -/
theorem op_configuration {cpu : Cpu} {startAdd lengthBuffer : BitVec 32}
    (hcall : calls cpu.next = .configuration startAdd lengthBuffer) :
    (∀ d, op calls cpu = .write 1 d → cpu.pc = 4) ∧ (∀ d, op calls cpu = .write 0 d → cpu.pc = 6) ∧
      (cpu.pc < 8 → op calls cpu ≠ .poll) ∧ (cpu.pc = 4 → op calls cpu = .write 1 0) := by
  have hop : op calls cpu =
      (Call.configuration startAdd lengthBuffer).ops.getD cpu.pc .poll := by rw [op, hcall]
  rw [hop]
  match cpu.pc with
  | 0 | 1 | 2 | 3 | 4 | 5 | 6 | 7 => simp [Call.ops]
  | j + 8 => simp [Call.ops]

theorem op_request {v q : BitVec 32} (hops : (calls s.cpu.next).ops = request v q) :
    op calls s.cpu = match s.cpu.pc with
      | 1 => .write 0 v
      | 2 => .write 1 q
      | _ => .poll := by
  unfold op
  rw [hops]
  match s.cpu.pc with
  | 0 | 1 | 2 | _ + 3 => rfl

/-! ## A call that has read 0 -/

/-- A call that has read 0 finds no request in the registers, and then its own word. -/
def Granted (calls : Nat → Call) (s : Regs F) : Prop :=
  ∀ v q, (calls s.cpu.next).ops = request v q → s.cpu.pc ≠ 0 →
    s.entity.slave.regStateCommandData = 0 ∧ s.entity.slave.stateCommandData = 0 ∧
      (s.cpu.pc = 2 → s.entity.slave.regCommandData = v.setWidth 16)

/-- **Every edge keeps a granted call granted.** -/
theorem Granted.step (h : Granted calls s) (i : Inputs) : Granted calls (step calls s i) := by
  intro v q hops hpc
  obtain ⟨-, -, -, hdata⟩ := slave_step calls s i
  rcases cpu_step calls s i with ⟨hgo, hcpu⟩ | ⟨-, -, hne, hcpu⟩ | ⟨hgo, hpoll, hcpu⟩
  · rw [hcpu] at hops hpc ⊢
    obtain ⟨hreg, -, hword⟩ := h v q hops hpc
    obtain ⟨hreg', hstate'⟩ := zero_step (writes_false (.inl hgo)) hreg
    refine ⟨hreg', hstate', fun h2 => ?_⟩
    rw [hdata, writes_false (.inl hgo)]
    exact hword h2
  · rw [hcpu] at hops hpc
    exact absurd (h v q hops hpc).1 hne
  · -- the access before was the poll or the write of the word
    by_cases hlast : s.cpu.pc + 1 < (calls s.cpu.next).ops.length
    · have hadv : (SoftwareReset.step calls s i).cpu = ⟨s.cpu.next, s.cpu.pc + 1⟩ := by
        rw [hcpu, advance, if_pos hlast]
      rw [hadv] at hops
      rw [hops] at hlast
      have hop := op_request hops
      have hlen : (request v q).length = 3 := rfl
      obtain h0 | h1 : s.cpu.pc = 0 ∨ s.cpu.pc = 1 := by omega
      · rw [h0] at hop
        have hw : LcdSlave.writes (access calls s.cpu i.go) 1 = false :=
          writes_false (.inr (by simp [hop]))
        obtain ⟨hreg', hstate'⟩ := zero_step hw (hpoll hop)
        refine ⟨hreg', hstate', fun h2 => ?_⟩
        rw [hadv, h0] at h2
        cases h2
      · rw [h1] at hop
        have hw : LcdSlave.writes (access calls s.cpu i.go) 1 = false :=
          writes_false (.inr (by simp [hop]))
        obtain ⟨hreg', hstate'⟩ := zero_step hw (h v q hops (by omega)).1
        refine ⟨hreg', hstate', fun _ => ?_⟩
        rw [hdata]
        simp [access, hgo, hop]
    · exfalso
      apply hpc
      rw [hcpu, advance, if_neg hlast]

/-! ## From the request to the acknowledgement -/

/-- The request of call `k` has been written.  The next call polls for its acknowledgement, or
it is a configuration that has made `p` accesses. -/
structure Awaiting (calls : Nat → Call) (k p : Nat) (v q : BitVec 32) (s : Regs F) : Prop where
  cpu : s.cpu = ⟨k + 1, p⟩
  call : p = 0 ∨ (calls (k + 1)).polls = false ∧ p < 8
  state : s.entity.slave.regStateCommandData = if p ≤ 4 then q.setWidth 2 else 0
  data : p ≤ 6 → s.entity.slave.regCommandData = v.setWidth 16

/-- A request is in the registers after its write, unless the write meets
`Done_Command_Data`. -/
theorem awaiting_request {v q : BitVec 32} (h : Granted calls s) (hgo : i.go = true)
    (hpc : s.cpu.pc = 2) (hops : (calls s.cpu.next).ops = request v q)
    (hdone : LcdControl.doneCommandData s.entity.lcd.control = false) :
    Awaiting calls s.cpu.next 0 v q (step calls s i) := by
  have hop := op_request hops
  rw [hpc] at hop
  obtain ⟨-, -, hreg, hdata⟩ := slave_step calls s i
  have hlast : ¬ s.cpu.pc + 1 < (calls s.cpu.next).ops.length := by
    rw [hops, hpc]
    simp [request]
  refine ⟨?_, .inl rfl, ?_, fun _ => ?_⟩
  · rcases cpu_step calls s i with ⟨hno, -⟩ | ⟨-, hpoll, -⟩ | ⟨-, -, hcpu⟩
    · rw [hgo] at hno
      cases hno
    · rw [hop] at hpoll
      cases hpoll
    · rw [hcpu, advance, if_neg hlast]
  · rw [hreg, hdone]
    simp [access, hgo, hop]
  · rw [hdata]
    simpa [access, hgo, hop] using (h v q hops (by omega)).2.2 hpc

theorem Awaiting.poll_step {k p : Nat} {v q : BitVec 32} (h : Awaiting calls k p v q s)
    (i : Inputs) (hq : q.setWidth 2 ≠ (0 : BitVec 2))
    (hdone : LcdControl.doneCommandData s.entity.lcd.control = false)
    (hpolls : (calls (k + 1)).polls = true) : Awaiting calls k p v q (step calls s i) := by
  obtain ⟨hcpu, hcall, hstate, hword⟩ := h
  have hk : s.cpu.next = k + 1 := by rw [hcpu]
  have hp : s.cpu.pc = p := by rw [hcpu]
  obtain ⟨-, -, hreg, hdata⟩ := slave_step calls s i
  rw [hdone] at hreg
  obtain rfl : p = 0 := by
    rcases hcall with h0 | ⟨hno, -⟩
    · exact h0
    · rw [hpolls] at hno
      cases hno
  obtain ⟨v', q', hops⟩ := Call.ops_of_polls hpolls
  have hop : op calls s.cpu = .poll := by
    rw [op_request (by rw [hk]; exact hops), hp]
    rfl
  refine ⟨?_, .inl rfl, ?_, fun _ => ?_⟩
  · rcases cpu_step calls s i with ⟨-, hsame⟩ | ⟨-, -, -, hsame⟩ | ⟨-, hpoll, -⟩
    · rw [hsame, hcpu]
    · rw [hsame, hcpu]
    · exact absurd (hstate.symm.trans (hpoll hop)) hq
  · rw [hreg, writes_false (.inr (by simp [hop]))]
    exact hstate
  · rw [hdata, writes_false (.inr (by simp [hop]))]
    exact hword (by omega)

/-- A configuration makes an access or none, and is over after the eighth. -/
theorem Awaiting.configuration_step {k p : Nat} {v q startAdd lengthBuffer : BitVec 32}
    (h : Awaiting calls k p v q s) (i : Inputs)
    (hdone : LcdControl.doneCommandData s.entity.lcd.control = false)
    (hconf : calls (k + 1) = .configuration startAdd lengthBuffer) :
    (∃ p', p' ≤ p + 1 ∧ Awaiting calls k p' v q (step calls s i)) ∨
      p = 7 ∧ (step calls s i).cpu.next = k + 2 := by
  obtain ⟨hcpu, hcall, hstate, hword⟩ := h
  have hk : s.cpu.next = k + 1 := by rw [hcpu]
  have hp : s.cpu.pc = p := by rw [hcpu]
  obtain ⟨-, -, hreg, hdata⟩ := slave_step calls s i
  rw [hdone] at hreg
  have hpolls : (calls (k + 1)).polls = false := by
    rw [hconf]
    rfl
  have hp8 : p < 8 := by
    rcases hcall with h0 | ⟨-, h8⟩ <;> omega
  have hconf' : calls s.cpu.next = .configuration startAdd lengthBuffer := by rw [hk, hconf]
  obtain ⟨h1, h0, hnopoll, h4⟩ := op_configuration hconf'
  rw [hp] at h1 h0 hnopoll h4
  rcases cpu_step calls s i with ⟨hgo, hsame⟩ | ⟨-, hpoll, -⟩ | ⟨hgo, -, hadv⟩
  · left
    refine ⟨p, by omega, by rw [hsame, hcpu], .inr ⟨hpolls, hp8⟩, ?_, fun h6 => ?_⟩
    · rw [hreg, writes_false (.inl hgo)]
      exact hstate
    · rw [hdata, writes_false (.inl hgo)]
      exact hword h6
  · exact absurd hpoll (hnopoll hp8)
  · have hlen : (calls s.cpu.next).ops.length = 8 := by
      rw [hconf']
      rfl
    by_cases h7 : p = 7
    · right
      refine ⟨h7, ?_⟩
      rw [hadv, advance, hlen, if_neg (by omega), hk]
    · left
      refine ⟨p + 1, Nat.le_refl _, ?_, .inr ⟨hpolls, by omega⟩, ?_, fun h6 => ?_⟩
      · rw [hadv, advance, hlen, if_pos (by omega), hcpu]
      · by_cases hp4 : p = 4
        · rw [hreg, if_neg (by omega : ¬ p + 1 ≤ 4)]
          simp [access, hgo, h4 hp4]
        · have hsame : (p + 1 ≤ 4) = (p ≤ 4) := by
            apply propext
            omega
          rw [hreg, writes_false (.inr fun d hd => hp4 (h1 d hd))]
          simp only [hsame]
          exact hstate
      · rw [hdata, writes_false (.inr fun d hd => by have := h0 d hd; omega)]
        exact hword (by omega)

/-- **The registers keep a request** until `Done_Command_Data` or the next reset. -/
theorem Awaiting.step {k p : Nat} {v q : BitVec 32} (h : Awaiting calls k p v q s) (i : Inputs)
    (hq : q.setWidth 2 ≠ (0 : BitVec 2))
    (hdone : LcdControl.doneCommandData s.entity.lcd.control = false) :
    (∃ p', p' ≤ p + 1 ∧ Awaiting calls k p' v q (step calls s i)) ∨
      p = 7 ∧ (step calls s i).cpu.next = k + 2 := by
  cases hcall : calls (k + 1) with
  | configuration => exact h.configuration_step i hdone hcall
  | command | data | display =>
    exact .inl ⟨p, Nat.le_succ p, h.poll_step i hq hdone (by rw [hcall]; rfl)⟩

theorem next_le (calls : Nat → Call) (s : Regs F) (i : Inputs) :
    s.cpu.next ≤ (step calls s i).cpu.next := by
  rcases cpu_step calls s i with ⟨-, hcpu⟩ | ⟨-, -, -, hcpu⟩ | ⟨-, -, hcpu⟩
  · rw [hcpu]
  · rw [hcpu]
  · rw [hcpu, advance]
    split <;> simp

end Cpu

/-! ## The controller -/

section Control

variable {r r' : LcdControl.Regs} {i : LcdControl.Inputs} {state : LcdControl.State}

theorem into_serving (he : LcdControl.Edge r i r') (hserve : state = .command ∨ state = .data)
    (hs' : r'.state = state) : r.state = .init ∨
      (r.state = .endDisplay ∧ i.stateCommandData = 3) ∨
      (r.state = state ∧ r'.counterTime = r.counterTime + 1) := by
  cases he with
  | init hs => exact .inl hs
  | writing => exact .inr (.inr ⟨hs', rfl⟩)
  | endDisplayDone | checkCommand | checkMaster | empty | endCommandData | commandDone | dataDone
  | displayDone | emptied16 | empty16 | display16Done => grind

theorem into_init (he : LcdControl.Edge r i r') (hs' : r'.state = .init) :
    r.state = .init ∨ r.state = .endCommandData := by
  cases he with
  | init hs => exact .inl hs
  | endCommandData hs => exact .inr hs
  | writing => exact .inl hs'
  | checkCommand | checkMaster | empty | endDisplayDone => grind
  | commandDone | dataDone | displayDone | emptied16 | empty16 | display16Done => cases hs'

/-- A controller that is not ready for a request does not get ready, unless it acknowledges or
finds the request of a display. -/
theorem not_ready_edge (he : LcdControl.Edge r i r') (hserve : state = .command ∨ state = .data)
    (h : ¬ Ready state r) (hdone : r.state ≠ .endCommandData) (h3 : i.stateCommandData ≠ 3) :
    ¬ Ready state r' := by
  rintro (hs' | ⟨hs', ht'⟩)
  · rcases into_init he hs' with hs | hs
    · exact h (.inl hs)
    · exact hdone hs
  · rcases into_serving he hserve hs' with hs | ⟨-, hs3⟩ | ⟨hs, ht⟩
    · exact h (.inl hs)
    · exact h3 hs3
    · exact h (.inr ⟨hs, by omega⟩)

/-- The states of a display between `Check_Command` and `End_Command_Data`. -/
def showing (s : LcdControl.State) : Bool :=
  s == .checkMaster || s == .empty || s == .display || s == .empty16 || s == .display16 ||
    s == .endDisplay

/-- A display goes on until `End_Display` finds a request. -/
theorem showing_edge (he : LcdControl.Edge r i r') (h : showing r.state = true)
    (hexit : i.stateCommandData = 0 ∨ ¬ (r.state = .endDisplay ∧ r.counterTime = 8)) :
    showing r'.state = true := by
  cases he with
  | writing => exact h
  | displayDone | emptied16 | empty16 | display16Done => rfl
  | init hs | commandDone hs | dataDone hs | checkCommand hs | endCommandData hs =>
    simp [showing, hs] at h
  | checkMaster =>
    simp only
    split
    · rfl
    · split <;> rfl
  | empty =>
    simp only
    split <;> rfl
  | endDisplayDone hs ht =>
    rcases hexit with h0 | hno
    · simp only [h0]
      rfl
    · exact absurd ⟨hs, ht⟩ hno

end Control

/-! ## Runs -/

section Runs

variable {F : PixelFifo} {calls : Nat → Call} {rd : BitVec 32} {inp : Nat → Inputs}

theorem granted_run (n : Nat) : Granted calls (regs F calls rd inp n) :=
  Machine.run_invariant (M := machine F calls rd) (I := Granted calls)
    (fun _ _ _ hpc => absurd rfl hpc) (fun _ i h => h.step i) n

theorem control_succ (n : Nat) : controlAt F calls rd inp (n + 1) =
    LcdControl.clock (controlAt F calls rd inp n) (controlInputsAt F calls rd inp n) := rfl

theorem countersOk_run (n : Nat) : LcdControl.CountersOk (controlAt F calls rd inp n) :=
  Machine.run_invariant (M := machine F calls rd)
    (I := fun s => LcdControl.CountersOk s.entity.lcd.control) LcdControl.countersOk_reset
    (fun _ _ h => h.edge (LcdControl.clock_edge _ _)) n

theorem next_mono {a b : Nat} (h : a ≤ b) :
    (regs F calls rd inp a).cpu.next ≤ (regs F calls rd inp b).cpu.next := by
  induction b, h using Nat.le_induction with
  | base => exact Nat.le_refl _
  | succ b _ ih => exact Nat.le_trans ih (next_le _ _ _)

/-- In cycle `n` call `k` writes the request `q` for the word `v`. -/
structure Writes (F : PixelFifo) (calls : Nat → Call) (rd : BitVec 32) (inp : Nat → Inputs)
    (n k : Nat) (v q : BitVec 32) : Prop where
  go : (inp n).go = true
  cpu : (regs F calls rd inp n).cpu = ⟨k, 2⟩
  ops : (calls k).ops = request v q
  code : q.setWidth 2 ≠ (0 : BitVec 2)

variable {n m k : Nat} {v q : BitVec 32}

/-- **Run lemma**: up to the acknowledgement the next call waits, or it is a configuration and
makes an access a cycle at most. -/
theorem awaiting_run (h : Writes F calls rd inp n k v q) (hlt : n < m)
    (hopen : Unacknowledged F calls rd inp n m) :
    (∃ p, p + n < m ∧ Awaiting calls k p v q (regs F calls rd inp m)) ∨
      k + 1 < (regs F calls rd inp m).cpu.next ∧ n + 8 < m ∧ (calls (k + 1)).polls = false := by
  induction m, hlt using Nat.le_induction with
  | base =>
    left
    have hk : (regs F calls rd inp n).cpu.next = k := by rw [h.cpu]
    refine ⟨0, by omega, ?_⟩
    rw [← hk]
    exact awaiting_request (granted_run n) h.go (by rw [h.cpu]) (by rw [hk]; exact h.ops)
      (hopen n (Nat.le_refl n) (by omega))
  | succ m hle ih =>
    rcases ih fun j h1 h2 => hopen j h1 (by omega) with ⟨p, hpm, hnow⟩ | ⟨hpast, hm, hconf⟩
    · rcases hnow.step (inp m) h.code (hopen m (by omega) (by omega)) with
        ⟨p', hp', hnext⟩ | ⟨h7, hnext⟩
      · exact .inl ⟨p', by omega, hnext⟩
      · right
        have hnext' : (regs F calls rd inp (m + 1)).cpu.next = k + 2 := hnext
        refine ⟨by omega, by omega, ?_⟩
        rcases hnow.call with h0 | ⟨hconf, -⟩
        · omega
        · exact hconf
    · exact .inr ⟨Nat.lt_of_lt_of_le hpast (next_le _ _ _), by omega, hconf⟩

/-- What the controller sees in the cycle of the request and up to the acknowledgement. -/
structure Seen (F : PixelFifo) (calls : Nat → Call) (rd : BitVec 32) (inp : Nat → Inputs)
    (n m : Nat) (v q : BitVec 32) : Prop where
  state : (controlInputsAt F calls rd inp m).stateCommandData = 0 ∨
    (controlInputsAt F calls rd inp m).stateCommandData = q.setWidth 2
  before : m < n + 2 → (controlInputsAt F calls rd inp m).stateCommandData = 0
  request : m = n + 2 → (controlInputsAt F calls rd inp m).stateCommandData = q.setWidth 2
  word : n < m → m ≤ n + 7 → (controlInputsAt F calls rd inp m).commandData = v.setWidth 16

theorem seen_run (h : Writes F calls rd inp n k v q) (hle : n ≤ m)
    (hopen : Unacknowledged F calls rd inp n m)
    (hk : (regs F calls rd inp m).cpu.next ≤ k + 1) : Seen F calls rd inp n m v q := by
  obtain ⟨hreg, hstate, hword⟩ : (regs F calls rd inp n).entity.slave.regStateCommandData = 0 ∧
      (regs F calls rd inp n).entity.slave.stateCommandData = 0 ∧
      (regs F calls rd inp n).entity.slave.regCommandData = v.setWidth 16 := by
    obtain ⟨h1, h2, h3⟩ := granted_run n v q (by rw [h.cpu]; exact h.ops) (by rw [h.cpu]; simp)
    exact ⟨h1, h2, h3 (by rw [h.cpu])⟩
  obtain rfl | rfl | hlate : m = n ∨ m = n + 1 ∨ n + 2 ≤ m := by omega
  · exact ⟨.inl hstate, fun _ => hstate, fun h => by omega, fun h => by omega⟩
  · exact ⟨.inl hreg, fun _ => hreg, fun h => by omega, fun _ _ => hword⟩
  · obtain ⟨j, rfl⟩ : ∃ j, m = j + 1 := ⟨m - 1, by omega⟩
    have hjk : (regs F calls rd inp j).cpu.next ≤ (regs F calls rd inp (j + 1)).cpu.next :=
      next_le _ _ _
    rcases awaiting_run h (m := j) (by omega) fun i h1 h2 => hopen i h1 (by omega) with
      ⟨p, hpj, hnow⟩ | ⟨hpast, -⟩
    · have hseen : (controlInputsAt F calls rd inp (j + 1)).stateCommandData =
          if p ≤ 4 then q.setWidth 2 else 0 := hnow.state
      refine ⟨?_, fun h => by omega, fun h => ?_, fun _ h7 => hnow.data (by omega)⟩
      · rw [hseen]
        split
        · exact .inr rfl
        · exact .inl rfl
      · rw [hseen, if_pos (by omega)]
    · omega

theorem next_after (h : Writes F calls rd inp n k v q) (hlt : n < m) (h8 : m ≤ n + 8)
    (hopen : Unacknowledged F calls rd inp n m) : (regs F calls rd inp m).cpu.next = k + 1 := by
  rcases awaiting_run h hlt hopen with ⟨p, -, hnow⟩ | ⟨-, hlate, -⟩
  · rw [hnow.cpu]
  · omega

theorem next_early (h : Writes F calls rd inp n k v q) (hm : n ≤ m) (h8 : m ≤ n + 8)
    (hopen : Unacknowledged F calls rd inp n m) : (regs F calls rd inp m).cpu.next ≤ k + 1 := by
  obtain rfl | hlt : m = n ∨ n < m := by omega
  · rw [h.cpu]
    exact Nat.le_succ k
  · exact Nat.le_of_eq (next_after h hlt h8 hopen)

/-! ## Exactly when a request is sent -/

/-- In its serving state the controller comes to time 4 of the write cycle. -/
theorem serving_run {state : LcdControl.State} {a t : Nat}
    (hserve : LcdControl.writing state = true)
    (hs : (controlAt F calls rd inp a).state = state)
    (ht : (controlAt F calls rd inp a).counterTime = t) :
    ∀ d, t + d ≤ 4 → (controlAt F calls rd inp (a + d)).state = state ∧
      (controlAt F calls rd inp (a + d)).counterTime = t + d
  | 0, _ => ⟨hs, ht⟩
  | d + 1, hd => by
    obtain ⟨hs', ht'⟩ := serving_run hserve hs ht d (by omega)
    have hnext : controlAt F calls rd inp (a + d + 1) =
        { controlAt F calls rd inp (a + d) with
          counterTime := (controlAt F calls rd inp (a + d)).counterTime + 1 } :=
      LcdControl.clock_writing _ (by rw [hs']; exact hserve) (by rw [ht']; omega)
    rw [show a + (d + 1) = a + d + 1 from rfl, hnext]
    exact ⟨hs', congrArg (· + 1) ht'⟩

theorem pins_serving {state : LcdControl.State} {word : Strobe}
    (hserve : state = .command ∧ word.1 = false ∨ state = .data ∧ word.1 = true)
    (hs : (controlAt F calls rd inp m).state = state)
    (ht : (controlAt F calls rd inp m).counterTime = 4)
    (hword : (controlInputsAt F calls rd inp m).commandData = word.2) :
    ((pinsAt F calls rd inp m).dcx, (pinsAt F calls rd inp m).d) = word := by
  obtain ⟨dcx, d⟩ := word
  rcases hserve with ⟨rfl, hdcx⟩ | ⟨rfl, hdcx⟩ <;> simp only at hdcx hword <;> subst hdcx <;>
    simp [pinsAt, LcdControl.pins, hs, LcdControl.writePins, ht, hword]

variable {state : LcdControl.State} {word : Strobe}

theorem strobe_succ (m : Nat) : LcdControl.strobe (pinsAt F calls rd inp) (m + 1) =
    if LcdControl.writing (controlAt F calls rd inp m).state ∧
        (controlAt F calls rd inp m).counterTime = 3 then
      some ((pinsAt F calls rd inp (m + 1)).dcx, (pinsAt F calls rd inp (m + 1)).d)
    else none :=
  LcdControl.strobe_eq (r := controlAt F calls rd inp) (i := controlInputsAt F calls rd inp)
    control_succ m

/-- A request that finds its serving state before the strobe is sent. -/
theorem sent_of_serving {a : Nat} (h : Writes F calls rd inp n k v q)
    (hword : word.2 = v.setWidth 16)
    (hserve : state = .command ∧ word.1 = false ∨ state = .data ∧ word.1 = true) (hle : n ≤ a)
    (hearly : a ≤ n + 3) (hopen : Unacknowledged F calls rd inp n a)
    (hs : (controlAt F calls rd inp a).state = state)
    (ht : (controlAt F calls rd inp a).counterTime < 4) :
    Sent F calls rd inp n state word := by
  have hwriting : LcdControl.writing state = true := by
    rcases hserve with ⟨rfl, -⟩ | ⟨rfl, -⟩ <;> rfl
  generalize htime : (controlAt F calls rd inp a).counterTime = t at ht
  have hrun := serving_run hwriting hs htime
  have hopen' : Unacknowledged F calls rd inp n (a + (3 - t) + 1) := by
    intro k h1 h2
    by_cases hk : k < a
    · exact hopen k h1 hk
    · obtain ⟨d, rfl⟩ : ∃ d, k = a + d := ⟨k - a, by omega⟩
      rw [LcdControl.doneCommandData, (hrun d (by omega)).1]
      rcases hserve with ⟨rfl, -⟩ | ⟨rfl, -⟩ <;> rfl
  obtain ⟨hs3, ht3⟩ := hrun (3 - t) (by omega)
  obtain ⟨hs4, ht4⟩ := hrun (3 - t + 1) (by omega)
  have hnext := next_after h (by omega) (by omega) hopen'
  have hseen := (seen_run h (by omega) hopen' (Nat.le_of_eq hnext)).word (by omega) (by omega)
  have htime4 : (controlAt F calls rd inp (a + (3 - t) + 1)).counterTime = 4 := by
    rw [show a + (3 - t) + 1 = a + (3 - t + 1) from rfl, ht4]
    omega
  refine ⟨a + (3 - t) + 1, by omega, ?_, hs4, by rw [h.cpu]; exact hnext, hopen'⟩
  rw [strobe_succ, if_pos ⟨by rw [hs3]; exact hwriting, by rw [ht3]; omega⟩, Option.some.injEq]
  exact pins_serving hserve hs4 htime4 (hseen.trans hword.symm)

/-- **A request that finds the controller ready is sent.** -/
theorem sent_of_ready (h : Writes F calls rd inp n k v q) (hword : word.2 = v.setWidth 16)
    (hserve : state = .command ∧ word.1 = false ∧ q = 1 ∨ state = .data ∧ word.1 = true ∧ q = 2)
    (hready : Ready state (controlAt F calls rd inp n)) : Sent F calls rd inp n state word := by
  have hserve' : state = .command ∧ word.1 = false ∨ state = .data ∧ word.1 = true := by
    rcases hserve with ⟨h1, h2, -⟩ | ⟨h1, h2, -⟩
    · exact .inl ⟨h1, h2⟩
    · exact .inr ⟨h1, h2⟩
  rcases hready with hinit | ⟨hs, ht⟩
  · -- two cycles in `Init` before the request is seen
    have hopen0 : Unacknowledged F calls rd inp n n := fun k h1 h2 => by omega
    have rests : ∀ m, n ≤ m → m < n + 2 → (controlAt F calls rd inp m).state = .init →
        Unacknowledged F calls rd inp n m →
        (controlAt F calls rd inp (m + 1)).state = .init ∧
          Unacknowledged F calls rd inp n (m + 1) := by
      intro m h1 h2 hs hopen
      have hseen := (seen_run h h1 hopen (next_early h h1 (by omega) hopen)).before h2
      constructor
      · rw [control_succ, LcdControl.clock_init hs, hseen]
        rfl
      · intro k hk1 hk2
        by_cases hk : k < m
        · exact hopen k hk1 hk
        · rw [show k = m by omega, LcdControl.doneCommandData, hs]
          rfl
    obtain ⟨hs1, hopen1⟩ := rests n (Nat.le_refl n) (by omega) hinit hopen0
    obtain ⟨hs2, hopen2⟩ := rests (n + 1) (by omega) (by omega) hs1 hopen1
    have hseen := (seen_run h (by omega) hopen2 (next_early h (by omega) (by omega) hopen2)).request
      rfl
    have hs3 : controlAt F calls rd inp (n + 3) = _ := control_succ (n + 2)
    rw [LcdControl.clock_init hs2, hseen] at hs3
    have hopen3 : Unacknowledged F calls rd inp n (n + 3) := by
      intro k h1 h2
      by_cases hk : k < n + 2
      · exact hopen2 k h1 hk
      · rw [show k = n + 2 by omega, LcdControl.doneCommandData, hs2]
        rfl
    apply sent_of_serving h hword hserve' (a := n + 3) (by omega) (Nat.le_refl _) hopen3
    · rw [hs3]
      rcases hserve with ⟨rfl, -, rfl⟩ | ⟨rfl, -, rfl⟩ <;> rfl
    · rw [hs3]
      exact Nat.zero_lt_succ 3
  · exact sent_of_serving h hword hserve' (Nat.le_refl n) (by omega) (fun k h1 h2 => by omega)
      hs ht

/-- **One that does not is acknowledged unsent, or waits for ever.** -/
theorem not_sent (h : Writes F calls rd inp n k v q)
    (hserve : state = .command ∧ q = 1 ∨ state = .data ∧ q = 2)
    (hready : ¬ Ready state (controlAt F calls rd inp n)) :
    ¬ Sent F calls rd inp n state word := by
  rintro ⟨m, hlt, hstrobe, hstate, hnext, hopen⟩
  have hk : (regs F calls rd inp n).cpu.next = k := by rw [h.cpu]
  rw [hk] at hnext
  have hstate' : state = .command ∨ state = .data := by
    rcases hserve with ⟨h1, -⟩ | ⟨h1, -⟩
    · exact .inl h1
    · exact .inr h1
  have hnever : ∀ j, n ≤ j → j < m → ¬ Ready state (controlAt F calls rd inp j) := by
    intro j hj
    induction j, hj using Nat.le_induction with
    | base => exact fun _ => hready
    | succ j hj ih =>
      intro hjm
      have hdone := hopen j hj (by omega)
      have hmono : (regs F calls rd inp j).cpu.next ≤ (regs F calls rd inp m).cpu.next :=
        next_mono (by omega)
      have hseen := (seen_run h hj (fun i h1 h2 => hopen i h1 (by omega)) (by omega)).state
      refine not_ready_edge (LcdControl.clock_edge _ _) hstate' (ih (by omega)) ?_ ?_
      · intro he
        rw [LcdControl.doneCommandData, he] at hdone
        cases hdone
      · change (controlInputsAt F calls rd inp j).stateCommandData ≠ 3
        rcases hseen with h0 | hq
        · rw [h0]
          decide
        · rw [hq]
          rcases hserve with ⟨-, rfl⟩ | ⟨-, rfl⟩ <;> decide
  obtain ⟨j, rfl⟩ : ∃ j, m = j + 1 := ⟨m - 1, by omega⟩
  rw [strobe_succ] at hstrobe
  split at hstrobe
  · rename_i hw
    obtain ⟨hwriting, h3⟩ := hw
    apply hnever j (by omega) (by omega)
    have hclock : controlAt F calls rd inp (j + 1) = { controlAt F calls rd inp j with
        counterTime := (controlAt F calls rd inp j).counterTime + 1 } :=
      LcdControl.clock_writing _ hwriting (by rw [h3]; decide)
    rw [hclock] at hstate
    exact .inr ⟨hstate, by rw [h3]; decide⟩
  · cases hstrobe

theorem strobe_command {m : Nat} {d : BitVec 16} (hd : d ≠ 0)
    (h : LcdControl.strobe (pinsAt F calls rd inp) (m + 1) = some (false, d)) :
    (controlAt F calls rd inp (m + 1)).state = .command := by
  rw [strobe_succ] at h
  split at h
  · rename_i hw
    obtain ⟨hwriting, h3⟩ := hw
    have hnext : controlAt F calls rd inp (m + 1) = { controlAt F calls rd inp m with
        counterTime := (controlAt F calls rd inp m).counterTime + 1 } :=
      LcdControl.clock_writing _ hwriting (by rw [h3]; decide)
    have h4 : (controlAt F calls rd inp (m + 1)).counterTime = 4 := by rw [hnext, h3]
    have hw' : LcdControl.writing (controlAt F calls rd inp (m + 1)).state = true := by
      rw [hnext]
      exact hwriting
    simp only [Option.some.injEq, Prod.mk.injEq, pinsAt] at h
    cases hs : (controlAt F calls rd inp (m + 1)).state with
    | command => rfl
    | data | display | display16 => simp [LcdControl.pins, hs, LcdControl.writePins, h4] at h
    | endDisplay =>
      simp only [LcdControl.pins, hs, LcdControl.writePins, h4] at h
      exact absurd h.2.symm hd
    | init | checkCommand | checkMaster | empty | empty16 | endCommandData =>
      simp [LcdControl.writing, hs] at hw'
  · cases h

/-! ## A reset in the middle of a display -/

/-- In cycle `a` call `k`, a configuration, writes 0 to `RegStateCommandData`. -/
structure Resets (F : PixelFifo) (calls : Nat → Call) (rd : BitVec 32) (inp : Nat → Inputs)
    (a k : Nat) : Prop where
  go : (inp a).go = true
  cpu : (regs F calls rd inp a).cpu = ⟨k, 4⟩
  call : ∃ startAdd lengthBuffer, calls k = .configuration startAdd lengthBuffer

/-- A display that has not come to its exit decision, nor comes to it in the next cycle. -/
def Displays (r : LcdControl.Regs) : Prop :=
  showing r.state = true ∧ (r.state = .endDisplay → r.counterTime < 7)

instance (r : LcdControl.Regs) : Decidable (Displays r) := inferInstanceAs (Decidable (_ ∧ _))

theorem Displays.edge {r r' : LcdControl.Regs} {i : LcdControl.Inputs}
    (he : LcdControl.Edge r i r') (hc : LcdControl.CountersOk r) (h : Displays r) :
    showing r'.state = true ∧ ¬ (r'.state = .endDisplay ∧ r'.counterTime = 8) := by
  obtain ⟨hshow, hlate⟩ := h
  refine ⟨showing_edge he hshow (.inr ?_), ?_⟩
  · rintro ⟨hs, ht⟩
    have := hlate hs
    omega
  · rintro ⟨hs', ht'⟩
    cases he with
    | writing =>
      have hlt := hlate hs'
      simp only at ht'
      omega
    | empty hs =>
      have h0 := hc.time_zero (by rw [hs]; rfl)
      simp only at ht'
      omega
    | init hs | commandDone hs | dataDone hs | checkCommand hs | endCommandData hs =>
      simp [showing, hs] at hshow
    | checkMaster =>
      simp only at hs'
      split at hs'
      · cases hs'
      · split at hs' <;> cases hs'
    | displayDone | emptied16 | empty16 | display16Done => cases hs'
    | endDisplayDone => cases ht'

/-- The CPU is in call `k` behind its reset, or in call `k + 1`. -/
def Behind (k : Nat) (cpu : Cpu) : Prop := cpu.next = k ∧ 5 ≤ cpu.pc ∨ cpu.next = k + 1

/-- Behind a reset the CPU writes nothing to `RegStateCommandData`, or is done with the next
call. -/
theorem Behind.step {k : Nat} {s : Regs F} {i : Inputs} {v q startAdd lengthBuffer : BitVec 32}
    (h : Behind k s.cpu) (hcall : calls k = .configuration startAdd lengthBuffer)
    (hops : (calls (k + 1)).ops = request v q) (hzero : s.entity.slave.regStateCommandData = 0) :
    k + 1 < (step calls s i).cpu.next ∨ Behind k (step calls s i).cpu ∧
      LcdSlave.writes (access calls s.cpu i.go) 1 = false := by
  rcases cpu_step calls s i with ⟨hgo, hcpu⟩ | ⟨-, -, hne, -⟩ | ⟨-, -, hcpu⟩
  · right
    rw [hcpu]
    exact ⟨h, writes_false (.inl hgo)⟩
  · exact absurd hzero hne
  · rw [hcpu]
    rcases h with ⟨hk, hpc⟩ | hk
    · -- the rest of the configuration
      right
      have hconf : calls s.cpu.next = .configuration startAdd lengthBuffer := by rw [hk, hcall]
      have hlen : (calls s.cpu.next).ops.length = 8 := by
        rw [hconf]
        rfl
      refine ⟨?_, writes_false (.inr fun d hd => ?_)⟩
      · unfold advance
        rw [hlen]
        split
        · exact .inl ⟨hk, by simp only; omega⟩
        · exact .inr (by simp only [hk])
      · have h4 := (op_configuration hconf).1 d hd
        omega
    · have hlen : (calls s.cpu.next).ops.length = 3 := by
        rw [hk, hops]
        rfl
      have hop := op_request (s := s) (by rw [hk]; exact hops)
      by_cases hlast : s.cpu.pc + 1 < 3
      · right
        refine ⟨?_, writes_false (.inr fun d hd => ?_)⟩
        · rw [advance, hlen, if_pos hlast]
          exact .inr hk
        · rw [hop] at hd
          obtain h0 | h1 : s.cpu.pc = 0 ∨ s.cpu.pc = 1 := by omega
          · simp [h0] at hd
          · simp [h1] at hd
      · left
        rw [advance, hlen, if_neg hlast, hk]
        simp

/-- A display that no request will end. -/
structure Stuck (F : PixelFifo) (calls : Nat → Call) (rd : BitVec 32) (inp : Nat → Inputs)
    (k m : Nat) : Prop where
  cpu : Behind k (regs F calls rd inp m).cpu
  control : showing (controlAt F calls rd inp m).state = true
  zero : (regs F calls rd inp m).entity.slave.regStateCommandData = 0
  exit : (controlInputsAt F calls rd inp m).stateCommandData = 0 ∨
    ¬ ((controlAt F calls rd inp m).state = .endDisplay ∧
      (controlAt F calls rd inp m).counterTime = 8)

theorem stuck_reset {a k : Nat} (h : Resets F calls rd inp a k)
    (hd : Displays (controlAt F calls rd inp a)) : Stuck F calls rd inp k (a + 1) := by
  obtain ⟨hgo, hcpu, startAdd, lengthBuffer, hcall⟩ := h
  have hop : op calls (regs F calls rd inp a).cpu = .write 1 0 := by
    rw [op, hcpu, hcall]
    rfl
  have hedge := hd.edge (LcdControl.clock_edge _ (controlInputsAt F calls rd inp a))
    (countersOk_run a)
  have hdone : LcdControl.doneCommandData (controlAt F calls rd inp a) = false := by
    rw [← Bool.not_eq_true]
    intro hdone
    have he : (controlAt F calls rd inp a).state = .endCommandData := by
      simpa [LcdControl.doneCommandData] using hdone
    have := hd.1
    rw [he] at this
    cases this
  refine ⟨.inl ?_, hedge.1, ?_, .inr hedge.2⟩
  · rcases cpu_step calls (regs F calls rd inp a) (inp a) with ⟨hno, -⟩ | ⟨-, hno, -⟩ | ⟨-, -, hadv⟩
    · rw [hgo] at hno
      cases hno
    · rw [hop] at hno
      cases hno
    · have hnext : (regs F calls rd inp (a + 1)).cpu = ⟨k, 5⟩ := by
        refine hadv.trans ?_
        rw [advance, hcpu, hcall]
        rfl
      rw [hnext]
      exact ⟨rfl, Nat.le_refl 5⟩
  · obtain ⟨-, -, hreg, -⟩ := slave_step calls (regs F calls rd inp a) (inp a)
    refine hreg.trans ?_
    rw [hdone]
    simp [access, hgo, hop]

/-- **Run lemma**: it stays stuck until the next call has written its request. -/
theorem stuck_run {a k : Nat} {v q : BitVec 32} (h : Resets F calls rd inp a k)
    (hd : Displays (controlAt F calls rd inp a)) (hops : (calls (k + 1)).ops = request v q)
    (hlt : a < m) : k + 1 < (regs F calls rd inp m).cpu.next ∨ Stuck F calls rd inp k m := by
  obtain ⟨-, -, startAdd, lengthBuffer, hcall⟩ := id h
  induction m, hlt using Nat.le_induction with
  | base => exact .inr (stuck_reset h hd)
  | succ m hle ih =>
    rcases ih with hpast | ⟨hcpu, hctl, hzero, hexit⟩
    · exact .inl (Nat.lt_of_lt_of_le hpast (next_le _ _ _))
    · rcases hcpu.step (i := inp m) hcall hops hzero with hpast | ⟨hcpu', hw⟩
      · exact .inl hpast
      · obtain ⟨hzero', hstate'⟩ := zero_step hw hzero
        exact .inr ⟨hcpu', showing_edge (LcdControl.clock_edge _ _) hctl hexit, hzero',
          .inl hstate'⟩

/-- **After a reset in a display the next request finds the controller not ready**, however long
the CPU waits. -/
theorem stranded {a k : Nat} (h : Resets F calls rd inp a k)
    (hd : Displays (controlAt F calls rd inp a)) (hlt : a < n)
    (hr : Requests F calls rd inp n state word) (hk : (regs F calls rd inp n).cpu.next = k + 1) :
    ¬ Ready state (controlAt F calls rd inp n) := by
  have hcall := hr.call
  rw [hk] at hcall
  obtain ⟨v, q, hops, -, hserve⟩ := Call.ops_of_asks hcall
  rcases stuck_run h hd hops hlt with hpast | hstuck
  · omega
  · have hctl := hstuck.control
    rintro (hs | ⟨hs, -⟩)
    · rw [hs] at hctl
      cases hctl
    · rw [hs] at hctl
      rcases hserve with ⟨rfl, -⟩ | ⟨rfl, -⟩ <;> cases hctl

end Runs

/-- **A request is sent before it is acknowledged exactly when it finds the controller ready**,
for every sequence of calls and resets, every timing, every FIFO and every bus. -/
theorem sent_iff (F : PixelFifo) (calls : Nat → Call) (avsReadData : BitVec 32)
    (inp : Nat → Inputs) {n : Nat} {state : LcdControl.State} {word : Strobe}
    (hr : Requests F calls avsReadData inp n state word) :
    Sent F calls avsReadData inp n state word ↔
      Ready state (controlAt F calls avsReadData inp n) := by
  obtain ⟨v, q, hops, hword, hserve⟩ := Call.ops_of_asks hr.call
  have hq : q.setWidth 2 ≠ (0 : BitVec 2) := by
    rcases hserve with ⟨-, -, rfl⟩ | ⟨-, -, rfl⟩ <;> decide
  have hw : Writes F calls avsReadData inp n (regs F calls avsReadData inp n).cpu.next v q := by
    refine ⟨hr.go, ?_, hops, hq⟩
    rw [← hr.pc]
  constructor
  · intro hsent
    by_contra hready
    refine not_sent hw ?_ hready hsent
    rcases hserve with ⟨h1, -, h2⟩ | ⟨h1, -, h2⟩
    · exact .inl ⟨h1, h2⟩
    · exact .inr ⟨h1, h2⟩
  · exact sent_of_ready hw hword hserve

/-- Configuration, a display, configuration again, then commands. -/
def resetCalls : Nat → Call
  | 0 => .configuration 0 64
  | 1 => .display
  | 2 => .configuration 0 64
  | _ => .command 0x00000001

/-- The CPU pauses in the cycles `a, …, b - 1`; the bus never waits. -/
def pausing (a b : Nat) (n : Nat) : Inputs := ⟨decide (n < a ∨ b ≤ n), 0, false, true, id⟩

theorem sent_after_pause :
    Resets LcdEntity.idealFifo resetCalls 0 (pausing 19 30) 15 2 ∧
      Requests LcdEntity.idealFifo resetCalls 0 (pausing 19 30) 32 .command (false, 0x0001) ∧
      Sent LcdEntity.idealFifo resetCalls 0 (pausing 19 30) 32 .command (false, 0x0001) := by
  have hcpu : (regs LcdEntity.idealFifo resetCalls 0 (pausing 19 30) 32).cpu = ⟨3, 2⟩ := by
    decide +kernel
  have hr : Requests LcdEntity.idealFifo resetCalls 0 (pausing 19 30) 32 .command
      (false, 0x0001) := ⟨rfl, by rw [hcpu], by rw [hcpu]; rfl⟩
  refine ⟨⟨rfl, by decide +kernel, 0, 64, rfl⟩, hr, ?_⟩
  exact (sent_iff _ _ _ _ hr).mpr (by decide +kernel)

/-- The display is reset while its pixels are shown: the next command is never strobed before it
is acknowledged. -/
theorem request_lost :
    Resets LcdEntity.idealFifo resetCalls 0 (pausing 11 50) 54 2 ∧
      (controlAt LcdEntity.idealFifo resetCalls 0 (pausing 11 50) 54).state = .display ∧
      Requests LcdEntity.idealFifo resetCalls 0 (pausing 11 50) 60 .command (false, 0x0001) ∧
      ¬ ∃ m, 60 < m ∧ LcdControl.strobe
          (pinsAt LcdEntity.idealFifo resetCalls 0 (pausing 11 50)) m = some (false, 0x0001) ∧
        Unacknowledged LcdEntity.idealFifo resetCalls 0 (pausing 11 50) 60 m := by
  have hcpu : (regs LcdEntity.idealFifo resetCalls 0 (pausing 11 50) 60).cpu = ⟨3, 2⟩ := by
    decide +kernel
  have hreset : Resets LcdEntity.idealFifo resetCalls 0 (pausing 11 50) 54 2 :=
    ⟨rfl, by decide +kernel, 0, 64, rfl⟩
  have hshow : Displays (controlAt LcdEntity.idealFifo resetCalls 0 (pausing 11 50) 54) := by
    decide +kernel
  have hr : Requests LcdEntity.idealFifo resetCalls 0 (pausing 11 50) 60 .command
      (false, 0x0001) := ⟨rfl, by rw [hcpu], by rw [hcpu]; rfl⟩
  refine ⟨hreset, by decide +kernel, hr, ?_⟩
  rintro ⟨m, hlt, hstrobe, hopen⟩
  obtain ⟨k, rfl⟩ : ∃ k, m = k + 1 := ⟨m - 1, by omega⟩
  have hw : Writes LcdEntity.idealFifo resetCalls 0 (pausing 11 50) 60 3 0x00000001 0x00000001 :=
    ⟨rfl, hcpu, rfl, by decide⟩
  have hnext : (regs LcdEntity.idealFifo resetCalls 0 (pausing 11 50) (k + 1)).cpu.next = 4 := by
    rcases awaiting_run hw hlt hopen with ⟨p, -, hnow⟩ | ⟨-, -, hconf⟩
    · rw [hnow.cpu]
    · cases hconf
  have hnot := stranded hreset hshow (by decide) hr (by rw [hcpu])
  exact not_sent hw (.inl ⟨rfl, rfl⟩) hnot
    ⟨k + 1, hlt, hstrobe, strobe_command (by decide) hstrobe, by rw [hcpu]; exact hnext, hopen⟩

end CameraLcd.SoftwareReset
