import Mathlib.Data.List.Basic
import Mathlib.Data.List.Induction

/-!
# Two-wire serial bus: wires, events, slots

The bus as anything attached to it sees it, independent of the master that drives it.

* `Monitor` — a bus analyser: it watches the two wires cycle by cycle and reports a start, a stop
  or a bit.  A bit is a pulse of SCL during which SDA does not change.
* `Device` — the other side of SDA: what it drives depends on the events so far, and after a start
  or a stop it drives nothing.
* `Slot`, `perform` — what a master intends: a list of slots, and the events they become when the
  device has the last word on SDA.
* `Line` — a master's output registers with the monitor behind them; `Low`, `Rising`, `High`,
  `Falling`, … say where an SCL pulse stands, and one lemma each says what the next cycle does.

SDA is open drain (a low level wins), SCL is driven by the master alone.  While SCL is low the
device may do anything with SDA; while SCL is high it drives what its state says.
-/

set_option autoImplicit false

namespace I2cBus

/-- The levels of the two wires in one cycle. -/
structure Wires where
  scl : Bool
  sda : Bool
  deriving DecidableEq, Repr

inductive Event where
  | start
  | stop
  | bit (b : Bool)
  deriving DecidableEq, Repr

/-! ## The bus analyser -/

/-- The wires of the cycle before, and SDA at the last rise of SCL unless SDA has moved since. -/
@[ext] structure Monitor where
  scl : Bool
  sda : Bool
  sampled : Option Bool
  deriving DecidableEq, Repr

/-- A bus that has been left alone. -/
def Monitor.free : Monitor := ⟨true, true, none⟩

/-- What is seen when the wires go to `w`. -/
def Monitor.event (m : Monitor) (w : Wires) : Option Event :=
  match m.scl, w.scl with
  | true, true => if m.sda = w.sda then none else if w.sda then some .stop else some .start
  | true, false => m.sampled.map .bit
  | false, _ => none

def Monitor.next (m : Monitor) (w : Wires) : Monitor where
  scl := w.scl
  sda := w.sda
  sampled := match m.scl, w.scl with
    | false, true => some w.sda
    | true, true => if m.sda = w.sda then m.sampled else none
    | _, false => none

@[simp] theorem Monitor.next_scl (m : Monitor) (w : Wires) : (m.next w).scl = w.scl := rfl
@[simp] theorem Monitor.next_sda (m : Monitor) (w : Wires) : (m.next w).sda = w.sda := rfl

/-! ## What the log says -/

/-- The bits of a log. -/
def bitsOf (log : List Event) : List Bool :=
  log.filterMap fun
    | .bit b => some b
    | _ => none

@[simp] theorem bitsOf_nil : bitsOf [] = [] := rfl

@[simp] theorem bitsOf_append (a b : List Event) : bitsOf (a ++ b) = bitsOf a ++ bitsOf b := by
  simp [bitsOf]

@[simp] theorem bitsOf_bit (b : Bool) : bitsOf [.bit b] = [b] := rfl
@[simp] theorem bitsOf_start : bitsOf [.start] = [] := rfl
@[simp] theorem bitsOf_stop : bitsOf [.stop] = [] := rfl

/-- The last bit of a log: after a byte sent, the acknowledge. -/
def lastBit (log : List Event) : Bool := (bitsOf log).getLastD false

@[simp] theorem lastBit_bit (log : List Event) (b : Bool) : lastBit (log ++ [.bit b]) = b := by
  simp [lastBit]

@[simp] theorem lastBit_stop (log : List Event) : lastBit (log ++ [.stop]) = lastBit log := by
  simp [lastBit]

/-- A byte register into which bits are shifted, so that the last eight remain. -/
def byteOf (bs : List Bool) : BitVec 8 :=
  bs.foldl (fun d b => d <<< 1 ||| (BitVec.ofBool b).setWidth 8) 0

theorem byteOf_snoc (bs : List Bool) (b : Bool) :
    byteOf (bs ++ [b]) = byteOf bs <<< 1 ||| (BitVec.ofBool b).setWidth 8 := by
  simp [byteOf]

/-- Bit `k` was shifted in `k` bits before the last one. -/
theorem byteOf_getLsbD (bs : List Bool) {k : Nat} (hk : k < 8) :
    (byteOf bs).getLsbD k = bs.reverse.getD k false := by
  induction bs using List.reverseRecOn generalizing k with
  | nil => simp [byteOf]
  | append_singleton bs b ih =>
    rw [byteOf_snoc]
    cases k with
    | zero => simp
    | succ k =>
      have hz : ((BitVec.ofBool b).setWidth 8).getLsbD (k + 1) = false := by simp
      have hs : (byteOf bs <<< 1).getLsbD (k + 1) = (byteOf bs).getLsbD k := by
        simp [hk, BitVec.getLsbD_eq_getElem (show k < 8 by omega)]
      rw [BitVec.getLsbD_or, hz, hs, Bool.or_false, ih (by omega)]
      simp

/-- The byte received last: the eight bits before the last acknowledge. -/
def lastByte (log : List Event) : BitVec 8 := byteOf (bitsOf log).dropLast

@[simp] theorem lastByte_stop (log : List Event) : lastByte (log ++ [.stop]) = lastByte log := by
  simp [lastByte]

@[simp] theorem lastByte_bit (log : List Event) (b : Bool) :
    lastByte (log ++ [.bit b]) = byteOf (bitsOf log) := by
  simp [lastByte]

/-! ## Devices and slots -/

/-- What is attached to the bus.  `drive` is its level on SDA, `true` when it leaves SDA alone. -/
structure Device (σ : Type) where
  init : σ
  drive : σ → Bool
  observe : σ → Event → σ
  released_init : drive init = true
  released_start : ∀ d, drive (observe d .start) = true
  released_stop : ∀ d, drive (observe d .stop) = true

/-- One thing a master does: a start, a stop, or a pulse of SCL with its level on SDA. -/
inductive Slot where
  | start
  | stop
  | level (m : Bool)
  deriving DecidableEq, Repr

/-- The event of a slot while the device drives `drives`. -/
def Slot.event (drives : Bool) : Slot → Event
  | .start => .start
  | .stop => .stop
  | .level m => .bit (m && drives)

section Devices

variable {σ : Type} (dev : Device σ)

/-- The device after the events of `log`. -/
def Device.after (log : List Event) : σ := log.foldl dev.observe dev.init

/-- Its level on SDA then. -/
def Device.drives (log : List Event) : Bool := dev.drive (dev.after log)

@[simp] theorem Device.after_nil : dev.after [] = dev.init := rfl

@[simp] theorem Device.after_append (log : List Event) (e : Event) :
    dev.after (log ++ [e]) = dev.observe (dev.after log) e := by
  simp [Device.after]

theorem Device.drives_nil : dev.drives [] = true := dev.released_init

@[simp] theorem Device.drives_start (log : List Event) : dev.drives (log ++ [.start]) = true := by
  unfold Device.drives
  rw [Device.after_append]
  exact dev.released_start _

@[simp] theorem Device.drives_stop (log : List Event) : dev.drives (log ++ [.stop]) = true := by
  unfold Device.drives
  rw [Device.after_append]
  exact dev.released_stop _

/-- The log after a slot. -/
def put (log : List Event) (s : Slot) : List Event := log ++ [s.event (dev.drives log)]

/-- The log after a list of slots. -/
def perform (log : List Event) (slots : List Slot) : List Event := slots.foldl (put dev) log

@[simp] theorem perform_nil (log : List Event) : perform dev log [] = log := rfl

@[simp] theorem perform_cons (log : List Event) (s : Slot) (rest : List Slot) :
    perform dev log (s :: rest) = perform dev (put dev log s) rest := rfl

theorem perform_append (log : List Event) (a b : List Slot) :
    perform dev log (a ++ b) = perform dev (perform dev log a) b := List.foldl_append

/-- Slots only add to a log. -/
theorem prefix_perform (log : List Event) (slots : List Slot) : log <+: perform dev log slots := by
  induction slots generalizing log with
  | nil => exact List.prefix_refl log
  | cons s rest ih => exact (List.prefix_append log _).trans (ih (put dev log s))

/-- The device leaves SDA to the master whenever a start or a stop is to be made. -/
def Yields (log : List Event) : List Slot → Prop
  | [] => True
  | s :: rest => (s = .start ∨ s = .stop → dev.drives log = true) ∧ Yields (put dev log s) rest

theorem yields_append (log : List Event) (a b : List Slot) :
    Yields dev log (a ++ b) ↔ Yields dev log a ∧ Yields dev (perform dev log a) b := by
  induction a generalizing log with
  | nil => simp [Yields]
  | cons s a ih => simp only [List.cons_append, Yields, ih, perform_cons, and_assoc]

/-- Pulses alone ask nothing of the device. -/
theorem yields_levels (log : List Event) (ms : List Bool) :
    Yields dev log (ms.map .level) := by
  induction ms generalizing log with
  | nil => trivial
  | cons m ms ih => exact ⟨by simp, ih _⟩

end Devices

/-! ## A master's outputs and the analyser behind them -/

/-- The output registers of a master, the analyser and its log.  The analyser has seen the wires
of all cycles but the present one. -/
structure Line where
  scl : Bool
  sda : Bool
  mon : Monitor
  log : List Event
  deriving DecidableEq, Repr

section Lines

variable {σ : Type} (dev : Device σ)

/-- The wires of this cycle; `glitch` is the device's level while SCL is low. -/
def Line.wires (l : Line) (glitch : Bool) : Wires where
  scl := l.scl
  sda := l.sda && (if l.scl then dev.drives l.log else glitch)

/-- One cycle, at whose end the master loads its output registers. -/
def Line.step (l : Line) (scl sda glitch : Bool) : Line where
  scl := scl
  sda := sda
  mon := l.mon.next (l.wires dev glitch)
  log := l.log ++ (l.mon.event (l.wires dev glitch)).toList

@[simp] theorem Line.step_scl (l : Line) (c s g : Bool) : (l.step dev c s g).scl = c := rfl
@[simp] theorem Line.step_sda (l : Line) (c s g : Bool) : (l.step dev c s g).sda = s := rfl

theorem Line.step_log_none (l : Line) (c s g : Bool) (h : l.mon.event (l.wires dev g) = none) :
    (l.step dev c s g).log = l.log := by
  simp [Line.step, h]

/-! ### Where an SCL pulse stands -/

/-- SCL is low and nothing is about to be reported. -/
structure Line.Low (l : Line) : Prop where
  scl : l.scl = false
  quiet : l.mon.scl = true → l.mon.sampled = none

/-- SCL has been low for a cycle. -/
structure Line.Down (l : Line) : Prop where
  scl : l.scl = false
  mon : l.mon.scl = false

/-- SCL rises in this cycle, the master's level is `m`. -/
structure Line.Rising (m : Bool) (l : Line) : Prop where
  scl : l.scl = true
  sda : l.sda = m
  mon : l.mon.scl = false

/-- SCL is high in the middle of a pulse. -/
structure Line.High (m : Bool) (l : Line) : Prop where
  scl : l.scl = true
  sda : l.sda = m
  mon : l.mon = ⟨true, m && dev.drives l.log, some (m && dev.drives l.log)⟩

/-- SCL falls in this cycle, which ends the pulse. -/
structure Line.Falling (m : Bool) (l : Line) : Prop where
  scl : l.scl = false
  mon : l.mon = ⟨true, m && dev.drives l.log, some (m && dev.drives l.log)⟩

/-- Both wires are high and nobody drives SDA. -/
structure Line.Free (l : Line) : Prop where
  scl : l.scl = true
  sda : l.sda = true
  monScl : l.mon.scl = true
  monSda : l.mon.sda = true
  released : dev.drives l.log = true

/-- The bus is free since a stop or since power-up. -/
structure Line.Rest (l : Line) : Prop extends l.Free dev where
  sampled : l.mon.sampled = none

/-- SDA falls in this cycle while SCL is high. -/
structure Line.Starting (l : Line) : Prop where
  scl : l.scl = true
  sda : l.sda = false
  monScl : l.mon.scl = true
  monSda : l.mon.sda = true

/-- SCL is still high after a start. -/
structure Line.Started (l : Line) : Prop where
  scl : l.scl = true
  sda : l.sda = false
  mon : l.mon = ⟨true, false, none⟩

/-- SDA rises in this cycle while SCL is high. -/
structure Line.Stopping (l : Line) : Prop where
  scl : l.scl = true
  sda : l.sda = true
  monScl : l.mon.scl = true
  monSda : l.mon.sda = false
  released : dev.drives l.log = true

variable {dev} {l : Line} {m : Bool}

theorem Line.Down.low (h : l.Down) : l.Low :=
  ⟨h.scl, fun hm => absurd (h.mon.symm.trans hm) Bool.false_ne_true⟩

/-- Nothing is reported at the end of a cycle that began low. -/
theorem Line.Low.event (h : l.Low) (g : Bool) : l.mon.event (l.wires dev g) = none := by
  unfold Monitor.event Line.wires
  rw [h.scl]
  cases hm : l.mon.scl with
  | false => rfl
  | true => rw [h.quiet hm]; rfl

theorem Line.Low.down (h : l.Low) (s g : Bool) : (l.step dev false s g).Down :=
  ⟨rfl, h.scl⟩

theorem Line.Low.rise (h : l.Low) (m g : Bool) : (l.step dev true m g).Rising m :=
  ⟨rfl, rfl, h.scl⟩

theorem Line.Low.log (h : l.Low) (c s g : Bool) : (l.step dev c s g).log = l.log :=
  l.step_log_none dev c s g (h.event g)

theorem Line.Rising.event (h : l.Rising m) (g : Bool) :
    l.mon.event (l.wires dev g) = none := by
  unfold Monitor.event
  rw [h.mon]

theorem Line.Rising.log (h : l.Rising m) (c s g : Bool) : (l.step dev c s g).log = l.log :=
  l.step_log_none dev c s g (h.event g)

theorem Line.Rising.high (h : l.Rising m) (g : Bool) : (l.step dev true m g).High dev m := by
  refine ⟨rfl, rfl, ?_⟩
  rw [h.log true m g]
  simp [Line.step, Monitor.next, Line.wires, h.scl, h.sda, h.mon]

theorem Line.High.event (h : l.High dev m) (g : Bool) : l.mon.event (l.wires dev g) = none := by
  simp [Monitor.event, Line.wires, h.scl, h.sda, h.mon]

theorem Line.High.log (h : l.High dev m) (c s g : Bool) : (l.step dev c s g).log = l.log :=
  l.step_log_none dev c s g (h.event g)

/-- The analyser does not change while SCL stays high. -/
theorem Line.High.mon_step (h : l.High dev m) (c s g : Bool) :
    (l.step dev c s g).mon = l.mon := by
  simp [Line.step, Monitor.next, Line.wires, h.scl, h.sda, h.mon]

theorem Line.High.keep (h : l.High dev m) (g : Bool) : (l.step dev true m g).High dev m := by
  refine ⟨rfl, rfl, ?_⟩
  rw [h.mon_step, h.log, h.mon]

theorem Line.High.fall (h : l.High dev m) (s g : Bool) : (l.step dev false s g).Falling dev m := by
  refine ⟨rfl, ?_⟩
  rw [h.mon_step, h.log, h.mon]

/-- **A pulse is a bit**: what master and device agreed on while SCL was high. -/
theorem Line.Falling.log (h : l.Falling dev m) (c s g : Bool) :
    (l.step dev c s g).log = put dev l.log (.level m) := by
  simp [Line.step, Monitor.event, Line.wires, h.scl, h.mon, put, Slot.event]

theorem Line.Falling.down (h : l.Falling dev m) (s g : Bool) : (l.step dev false s g).Down :=
  ⟨rfl, h.scl⟩

/-- A released SDA under a high master level is a free bus. -/
theorem Line.High.free (h : l.High dev true) (hr : dev.drives l.log = true) : l.Free dev := by
  refine ⟨h.scl, h.sda, ?_, ?_, hr⟩
  · rw [h.mon]
  · rw [h.mon, hr]; rfl

theorem Line.Free.event (h : l.Free dev) (g : Bool) : l.mon.event (l.wires dev g) = none := by
  simp [Monitor.event, Line.wires, h.scl, h.sda, h.monScl, h.monSda, h.released]

theorem Line.Free.log (h : l.Free dev) (c s g : Bool) : (l.step dev c s g).log = l.log :=
  l.step_log_none dev c s g (h.event g)

theorem Line.Free.mon_step (h : l.Free dev) (c s g : Bool) : (l.step dev c s g).mon = l.mon := by
  ext1 <;> simp [Line.step, Monitor.next, Line.wires, h.scl, h.sda, h.monScl, h.monSda, h.released]

theorem Line.Free.keep (h : l.Free dev) (g : Bool) : (l.step dev true true g).Free dev := by
  refine ⟨rfl, rfl, ?_, ?_, ?_⟩
  · rw [h.mon_step, h.monScl]
  · rw [h.mon_step, h.monSda]
  · rw [h.log, h.released]

theorem Line.Rest.keep (h : l.Rest dev) (g : Bool) : (l.step dev true true g).Rest dev :=
  ⟨h.toFree.keep g, by rw [h.toFree.mon_step, h.sampled]⟩

/-- The bus may be taken without a start: nothing is reported when SCL falls. -/
theorem Line.Rest.drop (h : l.Rest dev) (s g : Bool) : (l.step dev false s g).Low :=
  ⟨rfl, fun _ => by rw [h.toFree.mon_step, h.sampled]⟩

theorem Line.Free.starting (h : l.Free dev) (g : Bool) : (l.step dev true false g).Starting := by
  refine ⟨rfl, rfl, ?_, ?_⟩
  · rw [h.mon_step, h.monScl]
  · rw [h.mon_step, h.monSda]

/-- **SDA falling under a high SCL is a start.** -/
theorem Line.Starting.log (h : l.Starting) (c s g : Bool) :
    (l.step dev c s g).log = put dev l.log .start := by
  simp [Line.step, Monitor.event, Line.wires, h.scl, h.sda, h.monScl, h.monSda, put, Slot.event]

theorem Line.Starting.started (h : l.Starting) (g : Bool) :
    (l.step dev true false g).Started := by
  refine ⟨rfl, rfl, ?_⟩
  simp [Line.step, Monitor.next, Line.wires, h.scl, h.sda, h.monScl, h.monSda]

theorem Line.Started.event (h : l.Started) (g : Bool) : l.mon.event (l.wires dev g) = none := by
  simp [Monitor.event, Line.wires, h.scl, h.sda, h.mon]

theorem Line.Started.log (h : l.Started) (c s g : Bool) : (l.step dev c s g).log = l.log :=
  l.step_log_none dev c s g (h.event g)

theorem Line.Started.keep (h : l.Started) (g : Bool) : (l.step dev true false g).Started := by
  refine ⟨rfl, rfl, ?_⟩
  simp [Line.step, Monitor.next, Line.wires, h.scl, h.sda, h.mon]

theorem Line.Started.drop (h : l.Started) (s g : Bool) : (l.step dev false s g).Low := by
  refine ⟨rfl, fun _ => ?_⟩
  simp [Line.step, Monitor.next, Line.wires, h.scl, h.sda, h.mon]

theorem Line.High.stopping (h : l.High dev false) (hr : dev.drives l.log = true) (g : Bool) :
    (l.step dev true true g).Stopping dev := by
  refine ⟨rfl, rfl, ?_, ?_, ?_⟩
  · rw [h.mon_step, h.mon]
  · rw [h.mon_step, h.mon]; rfl
  · rw [h.log, hr]

/-- **SDA rising under a high SCL is a stop.** -/
theorem Line.Stopping.log (h : l.Stopping dev) (c s g : Bool) :
    (l.step dev c s g).log = put dev l.log .stop := by
  simp [Line.step, Monitor.event, Line.wires, h.scl, h.sda, h.monScl, h.monSda, h.released, put,
    Slot.event]

theorem Line.Stopping.rest (h : l.Stopping dev) (g : Bool) :
    (l.step dev true true g).Rest dev := by
  refine ⟨⟨rfl, rfl, h.scl, ?_, ?_⟩, ?_⟩
  · simp [Line.step, Line.wires, h.scl, h.sda, h.released]
  · rw [h.log]
    exact dev.drives_stop l.log
  · simp [Line.step, Monitor.next, Line.wires, h.scl, h.sda, h.monScl, h.monSda, h.released]

end Lines

end I2cBus
