import CameraLcd.I2c.Interface

/-!
# One command on the bus

`i2c_core` serves a command with the divider, the output registers and a device in the loop.

* `Serving` — where it stands: the state, the slots still to be put on the bus and the stage of the
  SCL pulse, one constructor a state.
* `serving_step` — one edge: nothing but the next slot is put on the bus, and what is sampled from
  SDA is what the slot put there.

A pulse takes two edges to get through the output registers and the analyser, so the states that
raise or drop SCL (`Climb`, `Sink`) must last two cycles.  They do when the divisor is not 0.
-/

set_option autoImplicit false

namespace CameraLcd.I2c

open Clocked I2cBus

/-! ## The core's registers over one edge -/

/-- The registers of the core that a command depends on. -/
structure Holds (k : Core) (p : State) (i : Nat) (dout : BitVec 8) (ack : Bool) : Prop where
  pState : k.pState = p
  iCtr : k.iCtr.toNat = i
  iDout : k.iDout = dout
  iAckOut : k.iAckOut = ack

/-- A state that waits for the divider and loads nothing. -/
def Comb.plain (o : Comb) : Bool :=
  o.iSclkEn && !o.iCtrClr && !o.iCtrIncr && !o.iDoutLd && !o.iAckOutLd

theorem Holds.plain {k : Core} {p : State} {i : Nat} {d : BitVec 8} {a : Bool} {inp : Core.Inputs}
    (r : Holds k p i d a) (h : (comb k inp).plain = true) :
    Holds (k.clock inp) (if inp.sclk then (comb k inp).nState else p) i d a := by
  simp only [Comb.plain, Bool.and_eq_true, Bool.not_eq_true'] at h
  obtain ⟨⟨⟨⟨hen, hclr⟩, hincr⟩, hdout⟩, hack⟩ := h
  refine ⟨?_, ?_, ?_, ?_⟩
  · simp [Core.clock, Comb.moves, hen, r.pState]
  · simp [Core.clock, hclr, hincr, r.iCtr]
  · simp [Core.clock, hdout, r.iDout]
  · simp [Core.clock, hack, r.iAckOut]

/-- The ports of the core while the command `c` is in the registers of the interface. -/
def portsOf (c : Command) (l : Line) (tick : Bool) : Core.Inputs where
  sdaIn := l.mon.sda
  sclIn := l.mon.scl
  sclk := tick
  ackIn := c.ack
  dataIn := c.data
  cmdStart := c.start
  cmdStop := c.stop
  cmdRead := c.read
  cmdWrite := c.write
  cmdDoneAck := false

/-! ## Received bits -/

/-- The first `i` bits of the receive register are the last `i` bits on the bus. -/
def Heard (i : Nat) (dout : BitVec 8) (log : List Event) : Prop :=
  ∀ j < i, (bitsOf log).reverse[i - 1 - j]? = some (dout.getMsbD j)

theorem heard_zero (dout : BitVec 8) (log : List Event) : Heard 0 dout log := fun _ h => by omega

theorem Heard.snoc {i : Nat} {dout : BitVec 8} {log : List Event} {b : Bool}
    (h : Heard i dout log) (hb : dout.getMsbD i = b) : Heard (i + 1) dout (log ++ [.bit b]) := by
  intro j hj
  rw [bitsOf_append, bitsOf_bit, List.reverse_append, List.reverse_singleton,
    List.singleton_append]
  by_cases hji : j = i
  · subst hji
    simp [hb]
  · rw [show i + 1 - 1 - j = (i - 1 - j) + 1 by omega, List.getElem?_cons_succ]
    exact h j (by omega)

/-- Eight bits heard are the byte that was on the bus. -/
theorem Heard.byte {dout : BitVec 8} {log : List Event} (h : Heard 8 dout log) :
    byteOf (bitsOf log) = dout := by
  apply BitVec.eq_of_getLsbD_eq
  intro k hk
  have hj := h (7 - k) (by omega)
  rw [show 8 - 1 - (7 - k) = k by omega, BitVec.getMsbD_eq_getLsbD] at hj
  rw [byteOf_getLsbD _ hk, List.getD_eq_getElem?_getD, hj]
  simp [show 7 - (7 - k) = k by omega, show 7 - k < 8 by omega]

/-- Loading a bit leaves the others alone. -/
theorem loadBit_getMsbD (d : BitVec 8) (ctr : BitVec 3) (b : Bool) {j : Nat} (hj : j < 8) :
    (loadBit d ctr b).getMsbD j = if j = ctr.toNat then b else d.getMsbD j := by
  have hmasks : ∀ n < 8, ∀ j < 8, (0x80#8 >>> n).getMsbD j = decide (j = n) := by decide
  have hmask := hmasks ctr.toNat ctr.isLt j hj
  unfold loadBit
  split
  · rename_i hb
    rw [BitVec.getMsbD_or, hmask, hb]
    by_cases h : j = ctr.toNat <;> simp [h]
  · rename_i hb
    rw [BitVec.getMsbD_and, BitVec.getMsbD_not, hmask]
    by_cases h : j = ctr.toNat <;> simp [h, hb, hj]

theorem Heard.load {i : Nat} {dout : BitVec 8} {log : List Event} (h : Heard i dout log)
    (hi : i < 8) (ctr : BitVec 3) (hc : ctr.toNat = i) (b : Bool) :
    Heard i (loadBit dout ctr b) log ∧ (loadBit dout ctr b).getMsbD i = b := by
  refine ⟨fun j hj => ?_, ?_⟩
  · rw [loadBit_getMsbD dout ctr b (by omega), if_neg (by omega)]
    exact h j hj
  · rw [loadBit_getMsbD dout ctr b hi, if_pos hc.symm]

/-! ## Slots still to come -/

section Commands

variable {σ : Type} (dev : Device σ) (o : Outcome) (c : Command)

/-- What is left of the command is `rest`. -/
structure Todo (rest : List Slot) (l : Line) : Prop where
  total : perform dev l.log rest = perform dev o.log c.slots
  yields : Yields dev l.log rest

variable {dev o c} {l l' : Line} {rest : List Slot} {m tick : Bool}

theorem Todo.keep (h : Todo dev o c rest l) (hl : l'.log = l.log) : Todo dev o c rest l' :=
  ⟨by rw [hl]; exact h.total, by rw [hl]; exact h.yields⟩

theorem Todo.put {s : Slot} (h : Todo dev o c (s :: rest) l) (hl : l'.log = put dev l.log s) :
    Todo dev o c rest l' :=
  ⟨by rw [hl]; exact h.total, by rw [hl]; exact h.yields.2⟩

theorem Todo.log_eq (h : Todo dev o c [] l) : l.log = perform dev o.log c.slots := h.total

/-! ## Stages of a pulse -/

variable (dev) in
/-- SCL is being raised with `m` on SDA. -/
def Climb (m : Bool) (l : Line) (tick : Bool) : Prop :=
  (l.Low ∧ l.sda = m ∧ tick = false) ∨ l.Rising m ∨ l.High dev m

theorem Climb.log (h : Climb dev m l tick) (x s g : Bool) : (l.step dev x s g).log = l.log := by
  obtain ⟨h, -, -⟩ | h | h := h
  · exact h.log x s g
  · exact h.log x s g
  · exact h.log x s g

theorem Climb.keep (h : Climb dev m l tick) (t g : Bool) : Climb dev m (l.step dev true m g) t := by
  obtain ⟨h, -, -⟩ | h | h := h
  · exact .inr (.inl (h.rise m g))
  · exact .inr (.inr (h.high g))
  · exact .inr (.inr (h.keep g))

/-- Two cycles are enough. -/
theorem Climb.high (h : Climb dev m l true) (g : Bool) : (l.step dev true m g).High dev m := by
  obtain ⟨-, -, h⟩ | h | h := h
  · cases h
  · exact h.high g
  · exact h.keep g

variable (dev o c) in
/-- SCL is being dropped, which puts pulse `i` on the bus; `P` holds before and `Q` after. -/
def Sink (i : Nat) (P Q : List Event → Prop) (l : Line) (tick : Bool) : Prop :=
  (Todo dev o c (c.slotsFrom i) l ∧ P l.log ∧
      ((l.High dev (c.level i) ∧ tick = false) ∨ l.Falling dev (c.level i))) ∨
    (Todo dev o c (c.slotsFrom (i + 1)) l ∧ Q l.log ∧ l.Down)

section Sinks

variable {i : Nat} {P Q : List Event → Prop}

/-- The pulse ends as a bit on the bus. -/
theorem Todo.fall (hi : i < 9) (h : Todo dev o c (c.slotsFrom i) l)
    (hf : l.Falling dev (c.level i)) (s g : Bool) :
    Todo dev o c (c.slotsFrom (i + 1)) (l.step dev false s g) := by
  rw [c.slotsFrom_cons hi] at h
  exact h.put (hf.log false s g)

theorem Sink.keep (hi : i < 9)
    (hPQ : ∀ log, P log → Q (log ++ [.bit (c.level i && dev.drives log)]))
    (h : Sink dev o c i P Q l tick) (s t g : Bool) :
    Sink dev o c i P Q (l.step dev false s g) t := by
  obtain ⟨todo, hp, ⟨h, -⟩ | h⟩ | ⟨todo, hq, h⟩ := h
  · have hl := h.log false s g
    exact .inl ⟨todo.keep hl, by rw [hl]; exact hp, .inr (h.fall s g)⟩
  · refine .inr ⟨todo.fall hi h s g, ?_, h.down s g⟩
    rw [h.log]
    exact hPQ _ hp
  · have hl : (l.step dev false s g).log = l.log := h.low.log false s g
    exact .inr ⟨todo.keep hl, by rw [hl]; exact hq, h.low.down s g⟩

/-- Two cycles are enough. -/
theorem Sink.down (hi : i < 9)
    (hPQ : ∀ log, P log → Q (log ++ [.bit (c.level i && dev.drives log)]))
    (h : Sink dev o c i P Q l true) (s g : Bool) :
    Todo dev o c (c.slotsFrom (i + 1)) (l.step dev false s g) ∧ Q (l.step dev false s g).log ∧
      (l.step dev false s g).Down := by
  obtain ⟨todo, hp, ⟨-, h⟩ | h⟩ | ⟨todo, hq, h⟩ := h
  · cases h
  · refine ⟨todo.fall hi h s g, ?_, h.down s g⟩
    rw [h.log]
    exact hPQ _ hp
  · have hl : (l.step dev false s g).log = l.log := h.low.log false s g
    exact ⟨todo.keep hl, by rw [hl]; exact hq, h.low.down s g⟩

theorem Sink.enter (h : l.High dev (c.level i)) (todo : Todo dev o c (c.slotsFrom i) l)
    (hp : P l.log) (ht : tick = false) (g : Bool) :
    Sink dev o c i P Q (l.step dev true (c.level i) g) tick := by
  have hl := h.log true (c.level i) g
  exact .inl ⟨todo.keep hl, by rw [hl]; exact hp, .inl ⟨h.keep g, ht⟩⟩

end Sinks

/-! ## Where a command stands -/

variable (dev o c) in
/-- The answer to the command is in the registers. -/
structure Answered (k : Core) (log : List Event) : Prop where
  lar : k.iAckOut = if c.write then lastBit log else o.lar
  data : k.iDout = if c.write then o.data else lastByte log

theorem Answered.stop {k : Core} {log : List Event} (h : Answered o c k log) :
    Answered o c k (log ++ [.stop]) :=
  ⟨by rw [lastBit_stop]; exact h.lar, by rw [lastByte_stop]; exact h.data⟩

theorem Answered.keep {k k' : Core} {log : List Event} {p p' : State} {i i' : Nat}
    {d : BitVec 8} {a : Bool} (h : Answered o c k log) (r : Holds k p i d a)
    (r' : Holds k' p' i' d a) : Answered o c k' log :=
  ⟨by rw [r'.iAckOut, ← r.iAckOut]; exact h.lar, by rw [r'.iDout, ← r.iDout]; exact h.data⟩

/-! ## Pulses -/

/-- The pulses of a byte: its bits and the acknowledge, sent or received. -/
inductive Pulse where
  | sent (i : Nat)
  | ackIn
  | received (i : Nat)
  | ackOut
  deriving DecidableEq, Repr

namespace Pulse

/-- Which of the nine pulses it is. -/
def index : Pulse → Nat
  | .sent i | .received i => i
  | .ackIn | .ackOut => 8

/-- `i_ctr` during the pulse. -/
def counter : Pulse → Nat
  | .sent i | .received i => i
  | .ackIn | .ackOut => 7

/-- Part of a byte sent. -/
def outgoing : Pulse → Bool
  | .sent _ | .ackIn => true
  | .received _ | .ackOut => false

/-- The level of SDA is loaded into a register. -/
def sampled : Pulse → Bool
  | .ackIn | .received _ => true
  | .sent _ | .ackOut => false

/-- SCL is low before the pulse. -/
def low : Pulse → State
  | .sent _ => .wrA
  | .ackIn => .rdAckA
  | .received _ => .rdA
  | .ackOut => .wrAckA

/-- SCL goes high. -/
def rise : Pulse → State
  | .sent _ => .wrB
  | .ackIn => .rdAckB
  | .received _ => .rdB
  | .ackOut => .wrAckB

/-- SCL is high; here SDA is sampled. -/
def high : Pulse → State
  | .sent _ => .wrC
  | .ackIn => .rdAckC
  | .received _ => .rdC
  | .ackOut => .wrAckC

/-- SCL is still high; after a sample there is one state more. -/
def late : Pulse → State
  | .sent _ => .wrC
  | .ackIn => .rdAckD
  | .received _ => .rdD
  | .ackOut => .wrAckC

/-- SCL goes low. -/
def fall : Pulse → State
  | .sent _ => .wrD
  | .ackIn => .rdAckE
  | .received _ => .rdE
  | .ackOut => .wrAckD

variable {σ : Type} (dev : Device σ) (o : Outcome) (p : Pulse) (d : BitVec 8) (a : Bool)

/-- `i_dout` and `i_ack_out` before SDA is sampled. -/
def Before (log : List Event) : Prop :=
  match p with
  | .sent _ | .ackIn => d = o.data ∧ a = o.lar
  | .received i => Heard i d log ∧ a = o.lar
  | .ackOut => Heard 8 d log ∧ a = o.lar

/-- The same once SDA has been sampled. -/
def Sampled (log : List Event) : Prop :=
  match p with
  | .sent _ => d = o.data ∧ a = o.lar
  | .ackIn => d = o.data ∧ dev.drives log = a
  | .received i => (Heard i d log ∧ d.getMsbD i = dev.drives log) ∧ a = o.lar
  | .ackOut => Heard 8 d log ∧ a = o.lar

/-- The same once the pulse is a bit on the bus. -/
def Gone (log : List Event) : Prop :=
  match p with
  | .sent _ => d = o.data ∧ a = o.lar
  | .ackIn => d = o.data ∧ lastBit log = a
  | .received i => Heard (i + 1) d log ∧ a = o.lar
  | .ackOut => lastByte log = d ∧ a = o.lar

end Pulse

/-- The interface holds command `c`, the core serves it. -/
inductive Serving (dev : Device σ) (o : Outcome) (c : Command) (k : Core) (l : Line)
    (tick : Bool) : Prop where
  | startA (r : Holds k .startA 0 o.data o.lar) (hs : c.start = true)
      (todo : Todo dev o c c.slots l) (line : l.Down ∨ l.Free dev) : Serving dev o c k l tick
  | startB (r : Holds k .startB 0 o.data o.lar) (hs : c.start = true)
      (todo : Todo dev o c c.slots l) (line : Climb dev true l tick ∨ l.Free dev) :
      Serving dev o c k l tick
  | startC (r : Holds k .startC 0 o.data o.lar)
      (line : (c.start = true ∧ Todo dev o c c.slots l ∧
          ((l.Free dev ∧ tick = false) ∨ l.Starting)) ∨
        (Todo dev o c (c.slotsFrom 0) l ∧ l.Started)) : Serving dev o c k l tick
  | startD (r : Holds k .startD 0 o.data o.lar) (todo : Todo dev o c (c.slotsFrom 0) l)
      (line : (l.Started ∧ tick = false) ∨ l.Low) : Serving dev o c k l tick
  | low (p : Pulse) (d : BitVec 8) (a : Bool) (r : Holds k p.low p.counter d a)
      (hw : c.write = p.outgoing) (hb : p.Before o d a l.log)
      (todo : Todo dev o c (c.slotsFrom p.index) l) (line : l.Low ∨ l.Rest dev) :
      Serving dev o c k l tick
  | rise (p : Pulse) (d : BitVec 8) (a : Bool) (r : Holds k p.rise p.counter d a)
      (hw : c.write = p.outgoing) (hb : p.Before o d a l.log)
      (todo : Todo dev o c (c.slotsFrom p.index) l)
      (line : Climb dev (c.level p.index) l tick) : Serving dev o c k l tick
  | high (p : Pulse) (d : BitVec 8) (a : Bool) (r : Holds k p.high p.counter d a)
      (hw : c.write = p.outgoing) (hb : p.Before o d a l.log)
      (todo : Todo dev o c (c.slotsFrom p.index) l) (line : l.High dev (c.level p.index)) :
      Serving dev o c k l tick
  | late (p : Pulse) (d : BitVec 8) (a : Bool) (r : Holds k p.late p.counter d a)
      (hp : p.sampled = true) (hw : c.write = p.outgoing) (hb : p.Sampled dev o d a l.log)
      (todo : Todo dev o c (c.slotsFrom p.index) l) (line : l.High dev (c.level p.index)) :
      Serving dev o c k l tick
  | fall (p : Pulse) (d : BitVec 8) (a : Bool) (r : Holds k p.fall p.counter d a)
      (hw : c.write = p.outgoing)
      (line : Sink dev o c p.index (p.Sampled dev o d a) (p.Gone o d a) l tick) :
      Serving dev o c k l tick
  /-- `Wr_E`: the bit counter is incremented. -/
  | wrE (i : Nat) (r : Holds k .wrE i o.data o.lar) (hi : i < 7) (hw : c.write = true)
      (todo : Todo dev o c (c.slotsFrom (i + 1)) l) (line : l.Down) : Serving dev o c k l tick
  /-- `Rd_F`: the same in a byte received. -/
  | rdF (i : Nat) (d : BitVec 8) (r : Holds k .rdF i d o.lar) (hi : i < 7) (hw : c.write = false)
      (hd : Heard (i + 1) d l.log) (todo : Todo dev o c (c.slotsFrom (i + 1)) l)
      (line : l.Down) : Serving dev o c k l tick
  | stopA (d : BitVec 8) (a : Bool) (r : Holds k .stopA 7 d a) (ha : Answered o c k l.log)
      (todo : Todo dev o c [.stop] l) (line : l.Down) : Serving dev o c k l tick
  | stopB (d : BitVec 8) (a : Bool) (r : Holds k .stopB 7 d a) (ha : Answered o c k l.log)
      (todo : Todo dev o c [.stop] l) (line : Climb dev false l tick) : Serving dev o c k l tick
  | stopC (d : BitVec 8) (a : Bool) (r : Holds k .stopC 7 d a) (ha : Answered o c k l.log)
      (line : (Todo dev o c [.stop] l ∧
          ((l.High dev false ∧ tick = false) ∨ l.Stopping dev)) ∨
        (Todo dev o c [] l ∧ l.Rest dev)) : Serving dev o c k l tick

/-- The core has served the command and has not been acknowledged. -/
structure Served (dev : Device σ) (o : Outcome) (c : Command) (k : Core) (l : Line) : Prop where
  pState : k.pState = .done
  answered : Answered o c k l.log
  todo : Todo dev o c [] l
  line : l.Down ∨ l.Rest dev

/-! ## Levels -/

theorem Command.level_sent (hw : c.write = true) {i : Nat} (hi : i < 8) :
    c.level i = c.data.getMsbD i := by
  simp [Command.level, hw, hi]

theorem Command.level_ack_sent (hw : c.write = true) : c.level 8 = true := by
  simp [Command.level, hw]

theorem Command.level_received (hw : c.write = false) {i : Nat} (hi : i < 8) :
    c.level i = true := by
  simp [Command.level, hw, hi]

theorem Command.level_ack_received (hw : c.write = false) : c.level 8 = c.ack := by
  simp [Command.level, hw]

theorem Holds.lt {k : Core} {p : State} {i : Nat} {d : BitVec 8} {a : Bool}
    (r : Holds k p i d a) : i < 8 := r.iCtr ▸ k.iCtr.isLt

theorem Holds.ctr_eq_seven {k : Core} {p : State} {i : Nat} {d : BitVec 8} {a : Bool}
    (r : Holds k p i d a) : k.iCtr = 7 ↔ i = 7 := by
  rw [← r.iCtr, ← BitVec.toNat_inj]
  rfl

/-! ## One edge -/

/-- The line after an edge at which the core drives its outputs. -/
def drive (dev : Device σ) (c : Command) (k : Core) (l : Line) (tick g : Bool) : Line :=
  l.step dev (comb k (portsOf c l tick)).iSclOut (comb k (portsOf c l tick)).iSdaOut g

theorem drive_eq {k : Core} {x : Comb} {g : Bool} (h : comb k (portsOf c l tick) = x) :
    drive dev c k l tick g = l.step dev x.iSclOut x.iSdaOut g := by
  rw [drive, h]

/-- `Serving` or `Served` after the edge. -/
def After (dev : Device σ) (o : Outcome) (c : Command) (k : Core) (l : Line)
    (tick t g : Bool) : Prop :=
  Serving dev o c (k.clock (portsOf c l tick)) (drive dev c k l tick g) t ∨
    Served dev o c (k.clock (portsOf c l tick)) (drive dev c k l tick g)

variable {k : Core} {t g : Bool}

theorem startA_step (r : Holds k .startA 0 o.data o.lar) (hs : c.start = true)
    (todo : Todo dev o c c.slots l) (line : l.Down ∨ l.Free dev) (ht : tick = true → t = false) :
    After dev o c k l tick t g := by
  have ho : comb k (portsOf c l tick) =
      { nState := .startB, iSclkEn := true, iSdaOut := true, iSclOut := l.mon.scl } := by
    simp [comb, r.pState, portsOf]
  have hr := r.plain (by rw [ho]; rfl)
  rw [ho] at hr
  left
  rw [drive_eq ho]
  have hline : ((l.step dev l.mon.scl true g).Down ∨ (l.step dev l.mon.scl true g).Free dev) ∧
      (l.step dev l.mon.scl true g).log = l.log := by
    obtain h | h := line
    · rw [h.mon]
      exact ⟨.inl (h.low.down true g), h.low.log false true g⟩
    · rw [h.monScl]
      exact ⟨.inr (h.keep g), h.log true true g⟩
  have todo' := todo.keep hline.2
  cases tick with
  | false => exact .startA hr hs todo' hline.1
  | true =>
    refine .startB hr hs todo' ?_
    obtain h | h := hline.1
    · exact .inl (.inl ⟨h.low, rfl, ht rfl⟩)
    · exact .inr h

/-- The start is the first slot, and the device lets it happen. -/
theorem Todo.start (hs : c.start = true) (h : Todo dev o c c.slots l) :
    Todo dev o c (.start :: c.slotsFrom 0) l ∧ dev.drives l.log = true := by
  have he : c.slots = .start :: c.slotsFrom 0 := by
    simp [Command.slots, hs]
  rw [he] at h
  exact ⟨h, h.yields.1 (.inl rfl)⟩

theorem startB_step (r : Holds k .startB 0 o.data o.lar) (hs : c.start = true)
    (todo : Todo dev o c c.slots l) (line : Climb dev true l tick ∨ l.Free dev)
    (ht : tick = true → t = false) : After dev o c k l tick t g := by
  have ho : comb k (portsOf c l tick) =
      { nState := .startC, iSclkEn := true, iSdaOut := true, iSclOut := true } := by
    simp [comb, r.pState]
  have hr := r.plain (by rw [ho]; rfl)
  rw [ho] at hr
  left
  rw [drive_eq ho]
  have hlog : (l.step dev true true g).log = l.log := by
    obtain h | h := line
    · exact h.log true true g
    · exact h.log true true g
  have todo' := todo.keep hlog
  cases tick with
  | false =>
    refine .startB hr hs todo' ?_
    obtain h | h := line
    · exact .inl (h.keep t g)
    · exact .inr (h.keep g)
  | true =>
    refine .startC hr (.inl ⟨hs, todo', .inl ⟨?_, ht rfl⟩⟩)
    obtain h | h := line
    · exact (h.high g).free (todo'.start hs).2
    · exact h.keep g

theorem startC_step (r : Holds k .startC 0 o.data o.lar)
    (line : (c.start = true ∧ Todo dev o c c.slots l ∧
        ((l.Free dev ∧ tick = false) ∨ l.Starting)) ∨
      (Todo dev o c (c.slotsFrom 0) l ∧ l.Started)) (ht : tick = true → t = false) :
    After dev o c k l tick t g := by
  have ho : comb k (portsOf c l tick) =
      { nState := .startD, iSclkEn := true, iSdaOut := false, iSclOut := true } := by
    simp [comb, r.pState]
  have hr := r.plain (by rw [ho]; rfl)
  rw [ho] at hr
  left
  rw [drive_eq ho]
  obtain ⟨hs, todo, ⟨h, rfl⟩ | h⟩ | ⟨todo, h⟩ := line
  · exact .startC hr (.inl ⟨hs, todo.keep (h.log true false g), .inr (h.starting g)⟩)
  · have todo' := (todo.start hs).1.put (h.log true false g)
    cases tick with
    | false => exact .startC hr (.inr ⟨todo', h.started g⟩)
    | true => exact .startD hr todo' (.inl ⟨h.started g, ht rfl⟩)
  · have hl : (l.step dev true false g).log = l.log := h.log true false g
    have todo' := todo.keep hl
    cases tick with
    | false => exact .startC hr (.inr ⟨todo', h.keep g⟩)
    | true => exact .startD hr todo' (.inl ⟨h.keep g, ht rfl⟩)

theorem startD_step (hgo : (c.read || c.write) = true) (r : Holds k .startD 0 o.data o.lar)
    (todo : Todo dev o c (c.slotsFrom 0) l) (line : (l.Started ∧ tick = false) ∨ l.Low) :
    After dev o c k l tick t g := by
  have ho : comb k (portsOf c l tick) =
      { nState := if c.write then .wrA else if c.read then .rdA else .startD
        iSclkEn := true, iSdaOut := false, iSclOut := false } := by
    simp only [comb, r.pState]
    rfl
  have hr := r.plain (by rw [ho]; rfl)
  rw [ho] at hr
  left
  rw [drive_eq ho]
  obtain ⟨h, rfl⟩ | h := line
  · exact .startD hr (todo.keep (h.log false false g)) (.inr (h.drop false g))
  · have hl : (l.step dev false false g).log = l.log := h.log false false g
    have todo' := todo.keep hl
    cases tick with
    | false => exact .startD hr todo' (.inr (h.down false g).low)
    | true =>
      cases hw : c.write with
      | true =>
        rw [hw] at hr
        exact .low (.sent 0) o.data o.lar hr hw ⟨rfl, rfl⟩ todo'
          (.inl (h.down false g).low)
      | false =>
        have hrd : c.read = true := by simpa [hw] using hgo
        rw [hw, hrd] at hr
        exact .low (.received 0) o.data o.lar hr hw ⟨heard_zero _ _, rfl⟩ todo'
          (.inl (h.down false g).low)

/-! ### A pulse -/

variable {p : Pulse} {d : BitVec 8} {a : Bool}

/-- The level the core drives in the states of a pulse. -/
theorem level_driven (hw : c.write = p.outgoing) {s : State} (r : Holds k s p.counter d a) :
    (match p with
      | .sent _ => selectedBit k.iCtr c.data
      | .ackIn | .received _ => true
      | .ackOut => c.ack) = c.level p.index := by
  cases p with
  | sent i => rw [selectedBit, r.iCtr]; exact (Command.level_sent hw r.lt).symm
  | ackIn => exact (Command.level_ack_sent hw).symm
  | received i => exact (Command.level_received hw r.lt).symm
  | ackOut => exact (Command.level_ack_received hw).symm

theorem comb_low (l : Line) (tick : Bool) (hw : c.write = p.outgoing)
    (r : Holds k p.low p.counter d a) :
    comb k (portsOf c l tick) =
      { nState := p.rise, iSclkEn := true, iSdaOut := c.level p.index, iSclOut := false } := by
  rw [← level_driven hw r]
  cases p <;> simp [comb, r.pState, Pulse.low, Pulse.rise, portsOf]

theorem comb_rise (l : Line) (tick : Bool) (hw : c.write = p.outgoing)
    (r : Holds k p.rise p.counter d a) :
    comb k (portsOf c l tick) =
      { nState := p.high, iSclkEn := true, iSdaOut := c.level p.index, iSclOut := true } := by
  rw [← level_driven hw r]
  cases p <;> simp [comb, r.pState, Pulse.rise, Pulse.high, portsOf]

/-- The last state with SCL high, for every pulse. -/
theorem comb_late (l : Line) (tick : Bool) (hw : c.write = p.outgoing)
    (r : Holds k p.late p.counter d a) :
    comb k (portsOf c l tick) =
      { nState := p.fall, iSclkEn := true, iSdaOut := c.level p.index, iSclOut := true } := by
  rw [← level_driven hw r]
  cases p <;> simp [comb, r.pState, Pulse.late, Pulse.fall, portsOf]

/-- Where `Wr_D`, `Rd_E`, `RdAck_E` and `WrAck_D` go. -/
def afterFall (c : Command) (k : Core) : Pulse → State
  | .sent _ => if k.iCtr = 7 then .rdAckA else .wrE
  | .received _ => if k.iCtr = 7 then .wrAckA else .rdF
  | .ackIn | .ackOut => if c.stop then .stopA else .done

theorem comb_fall (l : Line) (tick : Bool) (hw : c.write = p.outgoing)
    (r : Holds k p.fall p.counter d a) :
    comb k (portsOf c l tick) =
      { nState := afterFall c k p, iSclkEn := true, iSdaOut := c.level p.index
        iSclOut := false } := by
  rw [← level_driven hw r]
  cases p <;> simp only [comb, r.pState, Pulse.fall, afterFall] <;> rfl

/-- SCL goes low without a word, from a pulse or from a free bus. -/
theorem drop_line (line : l.Low ∨ l.Rest dev) (m g : Bool) :
    (l.step dev false m g).Low ∧ (l.step dev false m g).log = l.log := by
  obtain h | h := line
  · exact ⟨(h.down m g).low, h.log false m g⟩
  · exact ⟨h.drop m g, h.toFree.log false m g⟩

theorem low_step (r : Holds k p.low p.counter d a) (hw : c.write = p.outgoing)
    (hb : p.Before o d a l.log) (todo : Todo dev o c (c.slotsFrom p.index) l)
    (line : l.Low ∨ l.Rest dev) (ht : tick = true → t = false) :
    After dev o c k l tick t g := by
  have ho := comb_low l tick hw r
  have hr := r.plain (by rw [ho]; rfl)
  rw [ho] at hr
  left
  rw [drive_eq ho]
  obtain ⟨hlow, hl⟩ := drop_line line (c.level p.index) g
  rw [← hl] at hb
  cases tick with
  | false => exact .low p d a hr hw hb (todo.keep hl) (.inl hlow)
  | true => exact .rise p d a hr hw hb (todo.keep hl) (.inl ⟨hlow, rfl, ht rfl⟩)

theorem rise_step (r : Holds k p.rise p.counter d a) (hw : c.write = p.outgoing)
    (hb : p.Before o d a l.log) (todo : Todo dev o c (c.slotsFrom p.index) l)
    (line : Climb dev (c.level p.index) l tick) : After dev o c k l tick t g := by
  have ho := comb_rise l tick hw r
  have hr := r.plain (by rw [ho]; rfl)
  rw [ho] at hr
  left
  rw [drive_eq ho]
  have hl := line.log true (c.level p.index) g
  rw [← hl] at hb
  cases tick with
  | false => exact .rise p d a hr hw hb (todo.keep hl) (line.keep t g)
  | true => exact .high p d a hr hw hb (todo.keep hl) (line.high g)

/-- The divider lets SCL fall. -/
theorem fall_enter (r : Holds k p.late p.counter d a) (hw : c.write = p.outgoing)
    (hb : p.Sampled dev o d a l.log) (todo : Todo dev o c (c.slotsFrom p.index) l)
    (line : l.High dev (c.level p.index)) (ht : t = false) : After dev o c k l true t g := by
  have ho := comb_late l true hw r
  have hr := r.plain (by rw [ho]; rfl)
  rw [ho] at hr
  left
  rw [drive_eq ho]
  exact .fall p d a hr hw (Sink.enter line todo hb ht g)

theorem late_step (hp : p.sampled = true) (r : Holds k p.late p.counter d a)
    (hw : c.write = p.outgoing) (hb : p.Sampled dev o d a l.log)
    (todo : Todo dev o c (c.slotsFrom p.index) l) (line : l.High dev (c.level p.index))
    (ht : tick = true → t = false) : After dev o c k l tick t g := by
  cases tick with
  | true => exact fall_enter r hw hb todo line (ht rfl)
  | false =>
    have ho := comb_late l false hw r
    have hr := r.plain (by rw [ho]; rfl)
    rw [ho] at hr
    left
    rw [drive_eq ho]
    have hl := line.log true (c.level p.index) g
    rw [← hl] at hb
    exact .late p d a hr hp hw hb (todo.keep hl) (line.keep g)

/-- A pulse that is not sampled: SCL stays high for as long as the divider says. -/
theorem hold_step (hp : p.sampled = false) (r : Holds k p.high p.counter d a)
    (hw : c.write = p.outgoing) (hb : p.Before o d a l.log)
    (todo : Todo dev o c (c.slotsFrom p.index) l) (line : l.High dev (c.level p.index))
    (ht : tick = true → t = false) : After dev o c k l tick t g := by
  have hs : p.high = p.late := by
    cases p <;> first | rfl | cases hp
  have hb' : p.Sampled dev o d a l.log := by
    cases p <;> first | exact hb | cases hp
  cases tick with
  | true => exact fall_enter (hs ▸ r) hw hb' todo line (ht rfl)
  | false =>
    have ho := comb_late l false hw (hs ▸ r)
    have hr := r.plain (by rw [ho]; rfl)
    rw [ho] at hr
    left
    rw [drive_eq ho]
    have hl := line.log true (c.level p.index) g
    rw [← hl] at hb
    exact .high p d a hr hw hb (todo.keep hl) (line.keep g)

/-- **SDA is sampled** while the device holds its level. -/
theorem sample_step (hp : p.sampled = true) (r : Holds k p.high p.counter d a)
    (hw : c.write = p.outgoing) (hb : p.Before o d a l.log)
    (todo : Todo dev o c (c.slotsFrom p.index) l) (line : l.High dev (c.level p.index)) :
    After dev o c k l tick t g := by
  have hm : c.level p.index = true := by
    cases p with
    | sent i => cases hp
    | ackIn => exact Command.level_ack_sent hw
    | received i => exact Command.level_received hw r.lt
    | ackOut => cases hp
  have hsda : (portsOf c l tick).sdaIn = dev.drives l.log := by
    show l.mon.sda = _
    rw [line.mon, hm]
    rfl
  have hl := line.log true (c.level p.index) g
  left
  cases p with
  | sent i => cases hp
  | ackOut => cases hp
  | ackIn =>
    have ho : comb k (portsOf c l tick) =
        { nState := .rdAckD, iAckOutLd := true, iSdaOut := c.level 8, iSclOut := true } := by
      simp [comb, r.pState, Pulse.high, Command.level_ack_sent hw]
    rw [drive_eq ho]
    refine .late .ackIn d (dev.drives l.log) ⟨?_, ?_, ?_, ?_⟩ rfl hw
      ⟨hb.1, congrArg dev.drives hl⟩ (todo.keep hl) (line.keep g)
    · simp [Core.clock, ho, Comb.moves, Pulse.late]
    · simp [Core.clock, ho, r.iCtr]
    · simp [Core.clock, ho, r.iDout]
    · show (if (comb k _).iAckOutLd then (portsOf c l tick).sdaIn else k.iAckOut) = _
      rw [ho]
      exact hsda
  | received i =>
    have ho : comb k (portsOf c l tick) =
        { nState := .rdD, iDoutLd := true, iSdaOut := c.level i, iSclOut := true } := by
      rw [Command.level_received hw (i := i) r.lt]
      simp [comb, r.pState, Pulse.high]
    rw [drive_eq ho]
    have hload := hb.1.load r.lt k.iCtr r.iCtr (dev.drives l.log)
    rw [← r.iDout] at hload
    refine .late (.received i) (loadBit k.iDout k.iCtr (dev.drives l.log)) a ⟨?_, ?_, ?_, ?_⟩
      rfl hw ⟨?_, hb.2⟩ (todo.keep hl) (line.keep g)
    · simp [Core.clock, ho, Comb.moves, Pulse.late]
    · simp [Core.clock, ho, r.iCtr]
    · show (if (comb k _).iDoutLd then loadBit k.iDout k.iCtr (portsOf c l tick).sdaIn
        else k.iDout) = _
      rw [ho, hsda]
      rfl
    · simp [Core.clock, ho, r.iAckOut]
    · show Heard i _ (l.step dev true (c.level i) g).log ∧
        _ = dev.drives (l.step dev true (c.level i) g).log
      rw [show (l.step dev true (c.level i) g).log = l.log from hl]
      exact hload

variable (dev) in
/-- What was sampled is the bit that goes on the bus. -/
theorem sampled_gone (hw : c.write = p.outgoing) (hi : p.counter < 8) :
    ∀ log, p.Sampled dev o d a log →
      p.Gone o d a (log ++ [.bit (c.level p.index && dev.drives log)]) := by
  intro log h
  cases p with
  | sent i => exact h
  | ackIn =>
    refine ⟨h.1, ?_⟩
    rw [lastBit_bit, Pulse.index, Command.level_ack_sent hw, h.2]
    rfl
  | received i =>
    refine ⟨?_, h.2⟩
    rw [Pulse.index, Command.level_received (i := i) hw hi, Bool.true_and]
    exact h.1.1.snoc h.1.2
  | ackOut =>
    refine ⟨?_, h.2⟩
    rw [lastByte_bit]
    exact h.1.byte

/-- After the last pulse comes the stop, if there is one. -/
theorem ending_step {s : State} {l' : Line} {k' : Core} (hs : s = if c.stop then .stopA else .done)
    (r : Holds k' s 7 d a) (ha : Answered o c k' l'.log) (todo : Todo dev o c (c.slotsFrom 9) l')
    (line : l'.Down) : Serving dev o c k' l' t ∨ Served dev o c k' l' := by
  rw [c.slotsFrom_nine, Command.ending] at todo
  cases hstop : c.stop with
  | true =>
    rw [hstop] at hs todo
    have hsa : s = .stopA := hs
    exact .inl (.stopA d a (hsa ▸ r) ha todo line)
  | false =>
    rw [hstop] at hs todo
    exact .inr ⟨r.pState.trans hs, ha, todo, .inl line⟩

theorem fall_step (r : Holds k p.fall p.counter d a) (hw : c.write = p.outgoing)
    (line : Sink dev o c p.index (p.Sampled dev o d a) (p.Gone o d a) l tick) :
    After dev o c k l tick t g := by
  have ho := comb_fall l tick hw r
  have hr := r.plain (by rw [ho]; rfl)
  rw [ho] at hr
  unfold After
  rw [drive_eq ho]
  have hlt := r.lt
  have hi : p.index < 9 := by
    cases p <;> simp only [Pulse.index, Pulse.counter] at hlt ⊢ <;> omega
  have hPQ := sampled_gone dev (o := o) (d := d) (a := a) hw hlt
  cases tick with
  | false => exact .inl (.fall p d a hr hw (line.keep hi hPQ _ t g))
  | true =>
    obtain ⟨todo', hq, line'⟩ := line.down hi hPQ (c.level p.index) g
    cases p with
    | sent i =>
      obtain ⟨rfl, rfl⟩ := hq
      by_cases h7 : i = 7
      · subst h7
        rw [afterFall, if_pos (r.ctr_eq_seven.mpr rfl)] at hr
        exact .inl (.low .ackIn _ _ hr hw ⟨rfl, rfl⟩ todo' (.inl line'.low))
      · rw [afterFall, if_neg (fun h => h7 (r.ctr_eq_seven.mp h))] at hr
        simp only [Pulse.counter] at hlt
        exact .inl (.wrE i hr (by omega) hw todo' line')
    | received i =>
      obtain ⟨hd, rfl⟩ := hq
      by_cases h7 : i = 7
      · subst h7
        rw [afterFall, if_pos (r.ctr_eq_seven.mpr rfl)] at hr
        exact .inl (.low .ackOut d _ hr hw ⟨hd, rfl⟩ todo' (.inl line'.low))
      · rw [afterFall, if_neg (fun h => h7 (r.ctr_eq_seven.mp h))] at hr
        simp only [Pulse.counter] at hlt
        exact .inl (.rdF i d hr (by omega) hw hd todo' line')
    | ackIn =>
      refine ending_step rfl hr ⟨?_, ?_⟩ todo' line'
      · rw [hr.iAckOut, hw]
        exact hq.2.symm
      · rw [hr.iDout, hw]
        exact hq.1
    | ackOut =>
      refine ending_step rfl hr ⟨?_, ?_⟩ todo' line'
      · rw [hr.iAckOut, hw]
        exact hq.2
      · rw [hr.iDout, hw]
        exact hq.1.symm

/-- The bit counter over an edge that increments it. -/
theorem Holds.incr {s q : State} {i : Nat} {sda scl : Bool} {inp : Core.Inputs}
    (r : Holds k s i d a) (hi : i < 7)
    (ho : comb k inp = { nState := q, iCtrIncr := true, iSdaOut := sda, iSclOut := scl }) :
    Holds (k.clock inp) q (i + 1) d a := by
  refine ⟨?_, ?_, ?_, ?_⟩
  · simp [Core.clock, ho, Comb.moves]
  · simp only [Core.clock, ho, Bool.false_eq_true, if_false, if_true]
    rw [BitVec.toNat_add, r.iCtr]
    show (i + 1) % 8 = i + 1
    omega
  · simp [Core.clock, ho, r.iDout]
  · simp [Core.clock, ho, r.iAckOut]

theorem wrE_step {i : Nat} (r : Holds k .wrE i o.data o.lar) (hi : i < 7) (hw : c.write = true)
    (todo : Todo dev o c (c.slotsFrom (i + 1)) l) (line : l.Down) :
    After dev o c k l tick t g := by
  have ho : comb k (portsOf c l tick) =
      { nState := .wrA, iCtrIncr := true, iSdaOut := selectedBit k.iCtr c.data
        iSclOut := false } := by
    simp [comb, r.pState, portsOf]
  left
  rw [drive_eq ho]
  exact .low (.sent (i + 1)) _ _ (r.incr hi ho) hw ⟨rfl, rfl⟩
    (todo.keep (line.low.log false _ g)) (.inl (line.low.down _ g).low)

theorem rdF_step {i : Nat} (r : Holds k .rdF i d o.lar) (hi : i < 7) (hw : c.write = false)
    (hd : Heard (i + 1) d l.log) (todo : Todo dev o c (c.slotsFrom (i + 1)) l) (line : l.Down) :
    After dev o c k l tick t g := by
  have ho : comb k (portsOf c l tick) =
      { nState := .rdA, iCtrIncr := true, iSdaOut := true, iSclOut := false } := by
    simp [comb, r.pState]
  have hl : (l.step dev false true g).log = l.log := line.low.log false true g
  left
  rw [drive_eq ho]
  exact .low (.received (i + 1)) d _ (r.incr hi ho) hw ⟨by rw [hl]; exact hd, rfl⟩
    (todo.keep hl) (.inl (line.low.down _ g).low)

/-! ### The stop -/

theorem stopA_step (r : Holds k .stopA 7 d a) (ha : Answered o c k l.log)
    (todo : Todo dev o c [.stop] l) (line : l.Down) (ht : tick = true → t = false) :
    After dev o c k l tick t g := by
  have ho : comb k (portsOf c l tick) =
      { nState := .stopB, iSclkEn := true, iSdaOut := false, iSclOut := false } := by
    simp [comb, r.pState]
  have hr := r.plain (by rw [ho]; rfl)
  rw [ho] at hr
  left
  rw [drive_eq ho]
  have hl : (l.step dev false false g).log = l.log := line.low.log false false g
  have ha' := ha.keep r hr
  rw [← hl] at ha'
  cases tick with
  | false => exact .stopA d a hr ha' (todo.keep hl) (line.low.down _ g)
  | true =>
    exact .stopB d a hr ha' (todo.keep hl) (.inl ⟨(line.low.down _ g).low, rfl, ht rfl⟩)

theorem stopB_step (r : Holds k .stopB 7 d a) (ha : Answered o c k l.log)
    (todo : Todo dev o c [.stop] l) (line : Climb dev false l tick) (ht : tick = true → t = false) :
    After dev o c k l tick t g := by
  have ho : comb k (portsOf c l tick) =
      { nState := .stopC, iSclkEn := true, iSdaOut := false, iSclOut := true } := by
    simp [comb, r.pState]
  have hr := r.plain (by rw [ho]; rfl)
  rw [ho] at hr
  left
  rw [drive_eq ho]
  have hl := line.log true false g
  have ha' := ha.keep r hr
  rw [← hl] at ha'
  cases tick with
  | false => exact .stopB d a hr ha' (todo.keep hl) (line.keep t g)
  | true => exact .stopC d a hr ha' (.inl ⟨todo.keep hl, .inl ⟨line.high g, ht rfl⟩⟩)

theorem stopC_step (r : Holds k .stopC 7 d a) (ha : Answered o c k l.log)
    (line : (Todo dev o c [.stop] l ∧
        ((l.High dev false ∧ tick = false) ∨ l.Stopping dev)) ∨
      (Todo dev o c [] l ∧ l.Rest dev)) : After dev o c k l tick t g := by
  have ho : comb k (portsOf c l tick) =
      { nState := .done, iSclkEn := true, iSdaOut := true, iSclOut := true } := by
    simp [comb, r.pState]
  have hr := r.plain (by rw [ho]; rfl)
  rw [ho] at hr
  unfold After
  rw [drive_eq ho]
  have ha' := ha.keep r hr
  obtain ⟨todo, ⟨h, rfl⟩ | h⟩ | ⟨todo, h⟩ := line
  · have hl := h.log true true g
    rw [← hl] at ha'
    refine .inl (.stopC d a hr ha' (.inl ⟨todo.keep hl, .inr ?_⟩))
    exact h.stopping (todo.yields.1 (.inr rfl)) g
  · have hl := h.log true true g
    have ha'' := ha'.stop
    rw [show l.log ++ [.stop] = (l.step dev true true g).log from hl.symm] at ha''
    cases tick with
    | false => exact .inl (.stopC d a hr ha'' (.inr ⟨todo.put hl, h.rest g⟩))
    | true => exact .inr ⟨hr.pState, ha'', todo.put hl, .inr (h.rest g)⟩
  · have hl := h.toFree.log true true g
    rw [← hl] at ha'
    cases tick with
    | false => exact .inl (.stopC d a hr ha' (.inr ⟨todo.keep hl, h.keep g⟩))
    | true => exact .inr ⟨hr.pState, ha', todo.keep hl, .inr (h.keep g)⟩

/-! ### Every state -/

/-- **One edge of a command.**  The divider may do what it likes, except to give two enables in a
row. -/
theorem serving_step (hgo : (c.read || c.write) = true) (h : Serving dev o c k l tick)
    (ht : tick = true → t = false) : After dev o c k l tick t g := by
  cases h with
  | startA r hs todo line => exact startA_step r hs todo line ht
  | startB r hs todo line => exact startB_step r hs todo line ht
  | startC r line => exact startC_step r line ht
  | startD r todo line => exact startD_step hgo r todo line
  | low p d a r hw hb todo line => exact low_step r hw hb todo line ht
  | rise p d a r hw hb todo line => exact rise_step r hw hb todo line
  | high p d a r hw hb todo line =>
    cases hp : p.sampled with
    | true => exact sample_step hp r hw hb todo line
    | false => exact hold_step hp r hw hb todo line ht
  | late p d a r hp hw hb todo line => exact late_step hp r hw hb todo line ht
  | fall p d a r hw line => exact fall_step r hw line
  | wrE i r hi hw todo line => exact wrE_step r hi hw todo line
  | rdF i d r hi hw hd todo line => exact rdF_step r hi hw hd todo line
  | stopA d a r ha todo line => exact stopA_step r ha todo line ht
  | stopB d a r ha todo line => exact stopB_step r ha todo line ht
  | stopC d a r ha line => exact stopC_step r ha line

/-- The bus holds a beginning of the command. -/
theorem serving_begins (h : Serving dev o c k l tick) :
    l.log <+: perform dev o.log c.slots := by
  have hpre : ∀ rest, Todo dev o c rest l → l.log <+: perform dev o.log c.slots := by
    intro rest todo
    rw [← todo.total]
    exact prefix_perform dev l.log rest
  cases h with
  | startC r line =>
    obtain ⟨-, todo, -⟩ | ⟨todo, -⟩ := line
    · exact hpre _ todo
    · exact hpre _ todo
  | fall p d a r hw line =>
    obtain ⟨todo, -⟩ | ⟨todo, -⟩ := line
    · exact hpre _ todo
    · exact hpre _ todo
  | stopC d a r ha line =>
    obtain ⟨todo, -⟩ | ⟨todo, -⟩ := line
    · exact hpre _ todo
    · exact hpre _ todo
  | _ => exact hpre _ ‹_›

end Commands

end CameraLcd.I2c
