import CameraLcd.I2c.Driver
import CameraLcd.Lib.I2cTarget

/-!
# The driver and a target on the bus

What a function of `i2c.c` does, said in terms of the target: which bytes it is given, in which
order and up to which refusal, and which bytes it is asked for.

* `command_write`, `command_read` — a command is one byte written to the target or read from it.
* `writeTransaction`, `readTransaction` — what `i2c_write_array` and `i2c_read_array` come to.
* `sessions_on_bus` — every sequence of calls, from power-up, on the master as it is built.
-/

set_option autoImplicit false

namespace CameraLcd.I2c

open Clocked I2cBus RegisterProgram

/-! ## Commands and bytes -/

theorem slots_write {c : Command} (hw : c.write = true) :
    c.slots = (if c.start then [.start] else []) ++
      ((bits c.data ++ [true]).map .level ++ c.ending) := by
  unfold Command.slots Command.slotsFrom
  congr 2
  simp [List.range'_succ, Command.level, hw, bits, List.range_succ]

theorem slots_read {c : Command} (hw : c.write = false) :
    c.slots = (if c.start then [.start] else []) ++
      ((List.replicate 8 true ++ [c.ack]).map .level ++ c.ending) := by
  unfold Command.slots Command.slotsFrom
  congr 2
  simp [List.range'_succ, Command.level, hw, List.replicate]

section Targets

variable {τ : Type} (tgt : Target τ)

/-- The target as the byte of a command finds it. -/
def Command.opening (c : Command) (p : Port τ) : Port τ := if c.start then p.started else p

/-- The target as the end of a command leaves it. -/
def Command.closing (c : Command) (p : Port τ) : Port τ := if c.stop then p.stopped tgt else p

/-- The port after a list of commands. -/
def portAfter (cs : List Command) : Port τ :=
  tgt.device.after (outcome tgt.device cs).log

variable {tgt} {cs : List Command} {c : Command}

/-- A start on a bus that is left to the master. -/
theorem opening_log (log : List Event) (h : c.start = true → (tgt.device.after log).drive = true) :
    tgt.device.after (perform tgt.device log (if c.start then [.start] else [])) =
        c.opening (tgt.device.after log) ∧
      Yields tgt.device log (if c.start then [.start] else []) := by
  unfold Command.opening
  cases hs : c.start with
  | false => exact ⟨rfl, trivial⟩
  | true => exact ⟨Device.after_append tgt.device log .start, fun _ => h hs, trivial⟩

/-- A stop on a bus that is left to the master. -/
theorem closing_log (log : List Event) (h : c.stop = true → (tgt.device.after log).drive = true) :
    tgt.device.after (perform tgt.device log c.ending) = c.closing tgt (tgt.device.after log) ∧
      lastBit (perform tgt.device log c.ending) = lastBit log ∧
      lastByte (perform tgt.device log c.ending) = lastByte log ∧
      Yields tgt.device log c.ending := by
  unfold Command.closing Command.ending
  cases hs : c.stop with
  | false => exact ⟨rfl, rfl, rfl, trivial⟩
  | true =>
    exact ⟨Device.after_append tgt.device log .stop, lastBit_stop log, lastByte_stop log,
      fun _ => h hs, trivial⟩

/-- **A write command is a byte given to the target.** -/
theorem command_write (hw : c.write = true)
    (hstart : c.start = true → (portAfter tgt cs).drive = true)
    (hl : (c.opening (portAfter tgt cs)).Listens)
    (hstop : c.stop = true → (tgt.take (c.opening (portAfter tgt cs)) c.data).2.drive = true) :
    portAfter tgt (cs ++ [c]) =
        c.closing tgt (tgt.take (c.opening (portAfter tgt cs)) c.data).2 ∧
      (outcome tgt.device (cs ++ [c])).lar =
        !(tgt.take (c.opening (portAfter tgt cs)) c.data).1 ∧
      Yields tgt.device (outcome tgt.device cs).log c.slots := by
  obtain ⟨hopen, hyopen⟩ := opening_log (outcome tgt.device cs).log hstart
  change _ = c.opening (portAfter tgt cs) at hopen
  rw [← hopen] at hl hstop ⊢
  obtain ⟨hbyte, hlar⟩ := perform_write hl c.data
  rw [← hbyte] at hstop ⊢
  obtain ⟨hclose, hbit, -, hyclose⟩ := closing_log (c := c) _ hstop
  unfold portAfter
  rw [outcome_snoc]
  simp only [Outcome.add, hw, if_true]
  rw [slots_write hw, perform_append, perform_append, yields_append, yields_append]
  exact ⟨hclose, hbit.trans hlar, hyopen, yields_levels _ _ _, hyclose⟩

/-- **A read command is a byte asked of the target.** -/
theorem command_read (hw : c.write = false)
    (hstart : c.start = true → (portAfter tgt cs).drive = true)
    (hl : (c.opening (portAfter tgt cs)).Speaks)
    (hstop : c.stop = true → (tgt.give (c.opening (portAfter tgt cs)) c.ack).2.drive = true) :
    portAfter tgt (cs ++ [c]) =
        c.closing tgt (tgt.give (c.opening (portAfter tgt cs)) c.ack).2 ∧
      (outcome tgt.device (cs ++ [c])).data =
        (tgt.give (c.opening (portAfter tgt cs)) c.ack).1 ∧
      Yields tgt.device (outcome tgt.device cs).log c.slots := by
  obtain ⟨hopen, hyopen⟩ := opening_log (outcome tgt.device cs).log hstart
  change _ = c.opening (portAfter tgt cs) at hopen
  rw [← hopen] at hl hstop ⊢
  obtain ⟨hport, hbyte⟩ := perform_read hl c.ack
  rw [← hport] at hstop ⊢
  obtain ⟨hclose, -, hdata, hyclose⟩ := closing_log (c := c) _ hstop
  unfold portAfter
  rw [outcome_snoc]
  simp only [Outcome.add, hw, Bool.false_eq_true, if_false]
  rw [slots_read hw, perform_append, perform_append, yields_append, yields_append]
  exact ⟨hclose, hdata.trans hbyte, hyopen, yields_levels _ _ _, hyclose⟩

/-! ## One transfer of the driver -/

variable (tgt) in
/-- Between two transfers, with the target at `p`. -/
structure On (t : Txn) (p : Port τ) : Prop where
  idle : t.idle = true
  yields : YieldsTo tgt.device t.issued
  port : portAfter tgt t.issued = p

theorem yieldsTo_snoc {σ : Type} {dev : Device σ} {cs : List Command} {c : Command}
    (h : YieldsTo dev cs) (hc : Yields dev (outcome dev cs).log c.slots) :
    YieldsTo dev (cs ++ [c]) := by
  intro before d after hsplit
  obtain rfl | ⟨after', e, rfl⟩ := List.eq_nil_or_concat after
  · obtain ⟨rfl, hd⟩ := List.append_inj' hsplit rfl
    cases hd
    exact hc
  · rw [List.concat_eq_append, ← List.cons_append, ← List.append_assoc] at hsplit
    exact h before d after' (List.append_inj' hsplit rfl).1

/-- After a command with these data. -/
def Txn.after (t : Txn) (data control : BitVec 8) : Txn :=
  { t with issued := t.issued ++ [controlCommand control data], dataIn := data }

theorem exec_setDataControl {σ : Type} (dev : Device σ) {t : Txn} (hi : t.idle = true)
    (data control : BitVec 8) (hc : commands control = true) :
    exec (protocol dev) (setDataControl data control) t = some ((), t.after data control) := by
  obtain ⟨issued, dataIn, divisor, idle⟩ := t
  cases hi
  simp [setDataControl, exec_bind, exec, waitEndOfTransfer, wrData, wrControl, protocol, Txn.write,
    hc, Txn.after]

theorem exec_getDataSetControl {σ : Type} (dev : Device σ) {t : Txn} (hi : t.idle = true)
    (control : BitVec 8) (hc : commands control = true) :
    exec (protocol dev) (getDataSetControl control) t =
      some ((outcome dev (t.after t.dataIn control).issued).data, t.after t.dataIn control) := by
  obtain ⟨issued, dataIn, divisor, idle⟩ := t
  cases hi
  simp [getDataSetControl, exec_bind, exec, waitEndOfTransfer, rdData, wrControl, protocol,
    Txn.write, hc, Txn.after]

/-- A transfer whose acknowledge is checked: `rest` follows if the target acknowledges. -/
theorem exec_checked {σ α : Type} (dev : Device σ) {t : Txn} (hi : t.idle = true)
    (data control : BitVec 8) (hc : commands control = true) (error : α) (rest : Driver α) :
    exec (protocol dev) (checked data control error rest) t =
      if (outcome dev (t.after data control).issued).lar then some (error, t.after data control)
      else exec (protocol dev) rest (t.after data control) := by
  have hidle : (t.after data control).idle = true := hi
  unfold checked
  rw [exec_seq _ (exec_setDataControl dev hi data control hc)]
  generalize t.after data control = t1 at *
  have hlar : exec (protocol dev) lastAcknowledge t1 = some ((outcome dev t1.issued).lar, t1) := by
    simp [lastAcknowledge, exec, protocol, hidle]
  rw [exec_seq _ hlar]
  cases (outcome dev t1.issued).lar with
  | false => rfl
  | true =>
    obtain ⟨issued, dataIn, divisor, idle⟩ := t1
    cases hidle
    rfl

/-- A byte written by the driver. -/
theorem On.checked {α : Type} {t : Txn} {p : Port τ} (h : On tgt t p) (data control : BitVec 8)
    (hw : control.getLsbD 4 = true) (hstart : control.getLsbD 2 = true → p.drive = true)
    (hl : ((controlCommand control data).opening p).Listens)
    (hstop : control.getLsbD 1 = true →
      (tgt.take ((controlCommand control data).opening p) data).2.drive = true)
    (error : α) (rest : Driver α) :
    exec (protocol tgt.device) (checked data control error rest) t =
        (if (tgt.take ((controlCommand control data).opening p) data).1
          then exec (protocol tgt.device) rest (t.after data control)
          else some (error, t.after data control)) ∧
      On tgt (t.after data control) ((controlCommand control data).closing tgt
        (tgt.take ((controlCommand control data).opening p) data).2) := by
  have hc : commands control = true := by simp [commands, hw]
  have hport := h.port
  subst hport
  obtain ⟨hafter, hlar, hy⟩ := command_write (c := controlCommand control data) hw hstart hl hstop
  refine ⟨?_, h.idle, yieldsTo_snoc h.yields hy, hafter⟩
  rw [exec_checked _ h.idle data control hc]
  change (outcome tgt.device (t.after data control).issued).lar =
    !(tgt.take ((controlCommand control data).opening (portAfter tgt t.issued)) data).1 at hlar
  rw [hlar]
  cases (tgt.take ((controlCommand control data).opening (portAfter tgt t.issued)) data).1 <;> rfl

/-- A byte read by the driver. -/
theorem On.asks {t : Txn} {p : Port τ} (h : On tgt t p) (control : BitVec 8)
    (hc : commands control = true) (hw : control.getLsbD 4 = false)
    (hstart : control.getLsbD 2 = false) (hl : p.Speaks)
    (hstop : control.getLsbD 1 = true → (tgt.give p (control.getLsbD 0)).2.drive = true) :
    exec (protocol tgt.device) (getDataSetControl control) t =
        some ((tgt.give p (control.getLsbD 0)).1, t.after t.dataIn control) ∧
      On tgt (t.after t.dataIn control) ((controlCommand control t.dataIn).closing tgt
        (tgt.give p (control.getLsbD 0)).2) := by
  have hopen : (controlCommand control t.dataIn).opening p = p := by
    exact if_neg (fun hs => absurd (hstart.symm.trans hs) Bool.false_ne_true)
  have hport := h.port
  subst hport
  have hno : (controlCommand control t.dataIn).start = true →
      (portAfter tgt t.issued).drive = true :=
    fun hs => absurd (hstart.symm.trans hs) Bool.false_ne_true
  obtain ⟨hafter, hdata, hy⟩ := command_read (c := controlCommand control t.dataIn) hw hno
    (hopen.symm ▸ hl) (hopen.symm ▸ hstop)
  rw [hopen] at hafter hdata
  refine ⟨?_, h.idle, yieldsTo_snoc h.yields hy, hafter⟩
  rw [exec_getDataSetControl _ h.idle control hc]
  exact congrArg some (congrArg (Prod.mk · _) hdata)

/-! ## The functions of the driver -/

/-- How a call leaves the target and the bus. -/
structure Left (τ : Type) where
  state : τ
  /-- The bus is free: a stop was made. -/
  released : Bool
  deriving DecidableEq, Repr

/-- `i2c_write_array` after its address and index: each byte until one is refused.  The stop comes
with the last byte. -/
def writeBytes (tgt : Target τ) (s : τ) : List (BitVec 8) → Status × Left τ
  | [] => (.success, ⟨s, false⟩)
  | [v] =>
    let r := tgt.accept s v
    (if r.1 then .success else .ebadack, ⟨tgt.stopped r.2, true⟩)
  | v :: vs =>
    let r := tgt.accept s v
    if r.1 then writeBytes tgt r.2 vs else (.ebadack, ⟨r.2, false⟩)

/-- **`i2c_write_array` on a target.**  A refusal ends it, and leaves the bus as it is. -/
def writeTransaction (tgt : Target τ) (s : τ) (device index : BitVec 8)
    (value : List (BitVec 8)) : Status × Left τ :=
  let a := tgt.address s (device &&& 0xFE)
  let i := tgt.accept a.2 index
  if a.1 then (if i.1 then writeBytes tgt i.2 value else (.ebadack, ⟨i.2, false⟩))
  else (.enodev, ⟨a.2, false⟩)

/-- `i2c_read_array` after its addresses: all bytes but the last are acknowledged. -/
def readBytes (tgt : Target τ) (s : τ) : Nat → List (BitVec 8) × τ
  | 0 => ([], s)
  | n + 1 =>
    let s' := tgt.sent s (n == 0)
    let r := readBytes tgt (if n = 0 then tgt.stopped s' else s') n
    (tgt.offer s :: r.1, r.2)

/-- **`i2c_read_array` on a target.** -/
def readTransaction (tgt : Target τ) (s : τ) (device index : BitVec 8)
    (value : List (BitVec 8)) : (Status × List (BitVec 8)) × Left τ :=
  let a := tgt.address s (device &&& 0xFE)
  let i := tgt.accept a.2 index
  let b := tgt.address i.2 (device ||| 0x01)
  let r := readBytes tgt b.2 value.length
  if a.1 then
    (if i.1 then
      (if b.1 then ((.success, r.1), ⟨r.2, true⟩) else ((.enodev, value), ⟨b.2, false⟩))
    else ((.ebadack, value), ⟨i.2, false⟩))
  else ((.enodev, value), ⟨a.2, false⟩)

/-- Between two calls the target is not addressed, or waits for a byte. -/
inductive Free : Phase → Prop where
  | away : Free .away
  | hears : Free (.hears false [])

/-- A log that ends with a stop, or is empty. -/
def Released (log : List Event) : Prop := ∀ e, log.getLast? = some e → e = .stop

variable (tgt) in
/-- Between two calls, with target and bus in `l`. -/
structure Ready (t : Txn) (l : Left τ) : Prop where
  port : ∃ phase, Free phase ∧ On tgt t ⟨l.state, phase⟩
  bus : Released (outcome tgt.device t.issued).log ↔ l.released = true

variable (tgt) in
/-- A program that comes to `out`. -/
def Finishes {α : Type} (p : Driver α) (t : Txn) (out : α × Left τ) : Prop :=
  ∃ t', exec (protocol tgt.device) p t = some (out.1, t') ∧ Ready tgt t' out.2

/-- The rule for sequences. -/
theorem Finishes.bind {α β : Type} {p : Driver α} {f : α → Driver β} {t : Txn} {mid : α × Left τ}
    {out : β × Left τ} (h : Finishes tgt p t mid)
    (hf : ∀ t', Ready tgt t' mid.2 → Finishes tgt (f mid.1) t' out) :
    Finishes tgt (p >>= f) t out := by
  obtain ⟨t', hex, hready⟩ := h
  obtain ⟨t2, hex2, hready2⟩ := hf t' hready
  exact ⟨t2, (exec_seq _ hex).trans hex2, hready2⟩

theorem Finishes.pure {α : Type} {t : Txn} {l : Left τ} (h : Ready tgt t l) (a : α) :
    Finishes tgt (Pure.pure a) t (a, l) := ⟨t, rfl, h⟩

theorem Free.drive {phase : Phase} (h : Free phase) (s : τ) :
    (⟨s, phase⟩ : Port τ).drive = true := by
  cases h <;> rfl

variable (tgt) in
/-- A command ends with a stop if it says so, else with an acknowledge. -/
theorem released_after {t : Txn} (data control : BitVec 8) :
    Released (outcome tgt.device (t.after data control).issued).log ↔
      control.getLsbD 1 = true := by
  have hslots : ∀ c : Command, ∃ pre, c.slots = pre ++ (.level (c.level 8) :: c.ending) := by
    intro c
    refine ⟨(if c.start then [.start] else []) ++
      (List.range' 0 8).map fun j => .level (c.level j), ?_⟩
    simp [Command.slots, Command.slotsFrom, List.range'_succ]
  obtain ⟨pre, hpre⟩ := hslots (controlCommand control data)
  show Released (outcome tgt.device (t.issued ++ [controlCommand control data])).log ↔ _
  rw [outcome_snoc]
  simp only [Outcome.add]
  rw [hpre, perform_append, perform_cons]
  have hstop : (controlCommand control data).stop = control.getLsbD 1 := rfl
  unfold Command.ending Released
  rw [hstop]
  cases control.getLsbD 1 <;> simp [put, Slot.event]

variable (tgt) in
/-- The target after the acknowledge of a byte, when more bytes may follow. -/
theorem answered_free (s : τ) (ack : Bool) :
    Free (tgt.answered s ack false).phase ∧ (tgt.answered s ack false).state = s := by
  cases ack
  · exact ⟨.away, rfl⟩
  · exact ⟨.hears, rfl⟩

section Rules

variable {α : Type} {t : Txn} {s : τ} {l : Left τ} {out : α × Left τ} {d : BitVec 8} {error : α}
  {rest : Driver α}

/-- The rule for a transfer that is checked. -/
theorem Finishes.checked {p : Port τ} {control : BitVec 8} (h : On tgt t p)
    (hw : control.getLsbD 4 = true) (hstart : control.getLsbD 2 = true → p.drive = true)
    (hl : ((controlCommand control d).opening p).Listens)
    (hstop : control.getLsbD 1 = true →
      (tgt.take ((controlCommand control d).opening p) d).2.drive = true)
    (hok : (tgt.take ((controlCommand control d).opening p) d).1 = true → ∀ t',
      On tgt t' ((controlCommand control d).closing tgt
        (tgt.take ((controlCommand control d).opening p) d).2) →
      (Released (outcome tgt.device t'.issued).log ↔ control.getLsbD 1 = true) →
      Finishes tgt rest t' out)
    (hno : (tgt.take ((controlCommand control d).opening p) d).1 = false →
      out.1 = error ∧ out.2.released = control.getLsbD 1 ∧
        ∃ phase, Free phase ∧ (⟨out.2.state, phase⟩ : Port τ) =
          (controlCommand control d).closing tgt
            (tgt.take ((controlCommand control d).opening p) d).2) :
    Finishes tgt (CameraLcd.I2c.checked d control error rest) t out := by
  obtain ⟨hex, hon⟩ := h.checked d control hw hstart hl hstop error rest
  have hbus := released_after tgt (t := t) d control
  unfold Finishes
  rw [hex]
  cases hack : (tgt.take ((controlCommand control d).opening p) d).1 with
  | true => exact hok hack _ hon hbus
  | false =>
    obtain ⟨herr, hrel, phase, hfree, hport⟩ := hno hack
    refine ⟨_, congrArg (fun e => some (e, _)) herr.symm, ⟨phase, hfree, ?_⟩, ?_⟩
    · rw [hport]
      exact hon
    · rw [hrel]
      exact hbus

/-- An address byte. -/
theorem Finishes.address {phase : Phase} (hfree : Free phase) (h : On tgt t ⟨s, phase⟩)
    (hok : (tgt.address s d).1 = true → ∀ t',
      On tgt t' (tgt.answered (tgt.address s d).2 true (d.getLsbD 0)) → Finishes tgt rest t' out)
    (hno : (tgt.address s d).1 = false → out = (error, ⟨(tgt.address s d).2, false⟩)) :
    Finishes tgt (CameraLcd.I2c.checked d (controlStart ||| controlWrite) error rest) t out := by
  have htake : ∀ ack, (tgt.address s d).1 = ack →
      (tgt.take (⟨s, .hears true []⟩ : Port τ) d).2 =
        tgt.answered (tgt.address s d).2 ack (d.getLsbD 0) := by
    rintro ack rfl
    rfl
  refine Finishes.checked h rfl (fun _ => hfree.drive s) (.inr ⟨true, rfl⟩)
    (fun h => absurd h (by decide)) ?_ ?_
  · intro hack t' hon _
    change On tgt t' (tgt.take ⟨s, .hears true []⟩ d).2 at hon
    rw [htake true hack] at hon
    exact hok hack t' hon
  · intro hack
    rw [hno hack]
    exact ⟨rfl, rfl, .away, .away, (htake false hack).symm⟩

theorem take_accept {ack : Bool} (h : (tgt.accept s d).1 = ack) :
    (tgt.take (⟨s, .hears false []⟩ : Port τ) d).2 =
      tgt.answered (tgt.accept s d).2 ack false := by
  subst h
  rfl

/-- A byte that is not the last. -/
theorem Finishes.accept (h : On tgt t ⟨s, .hears false []⟩)
    (hok : (tgt.accept s d).1 = true → ∀ t', On tgt t' ⟨(tgt.accept s d).2, .hears false []⟩ →
      (Released (outcome tgt.device t'.issued).log ↔ false = true) → Finishes tgt rest t' out)
    (hno : (tgt.accept s d).1 = false → out = (error, ⟨(tgt.accept s d).2, false⟩)) :
    Finishes tgt (CameraLcd.I2c.checked d controlWrite error rest) t out := by
  refine Finishes.checked h rfl (fun h => absurd h (by decide)) (.inr ⟨false, rfl⟩)
    (fun h => absurd h (by decide)) ?_ ?_
  · intro hack t' hon
    change (tgt.accept s d).1 = true at hack
    change On tgt t' (tgt.take ⟨s, .hears false []⟩ d).2 at hon
    rw [take_accept hack] at hon
    exact hok hack t' hon
  · intro hack
    rw [hno hack]
    exact ⟨rfl, rfl, .away, .away, (take_accept hack).symm⟩

/-- The last byte, which the stop follows in any case. -/
theorem Finishes.last (h : On tgt t ⟨s, .hears false []⟩)
    (hok : (tgt.accept s d).1 = true → ∀ t',
      Ready tgt t' ⟨tgt.stopped (tgt.accept s d).2, true⟩ → Finishes tgt rest t' out)
    (hno : (tgt.accept s d).1 = false →
      out = (error, ⟨tgt.stopped (tgt.accept s d).2, true⟩)) :
    Finishes tgt (CameraLcd.I2c.checked d (controlStop ||| controlWrite) error rest) t out := by
  have hans := answered_free tgt (tgt.accept s d).2 (tgt.accept s d).1
  have hclosed : (tgt.answered (tgt.accept s d).2 (tgt.accept s d).1 false).stopped tgt =
      ⟨tgt.stopped (tgt.accept s d).2, .away⟩ := by
    unfold Port.stopped
    rw [hans.2]
  refine Finishes.checked h rfl (fun h => absurd h (by decide)) (.inr ⟨false, rfl⟩)
    (fun _ => hans.1.drive _) ?_ ?_
  · intro hack t' hon hbus
    refine hok hack t' ⟨⟨.away, .away, ?_⟩, hbus⟩
    rw [← hclosed]
    exact hon
  · intro hack
    rw [hno hack]
    exact ⟨rfl, rfl, .away, .away, hclosed.symm⟩

/-- **The loop of `i2c_read_array`.** -/
theorem readValues_finishes (n : Nat) (hn : n ≠ 0) {t : Txn} {s : τ}
    (h : On tgt t ⟨s, .sends (tgt.offer s) 0⟩) :
    Finishes tgt (readValues n) t ((readBytes tgt s n).1, ⟨(readBytes tgt s n).2, true⟩) := by
  induction n generalizing t s with
  | zero => exact absurd rfl hn
  | succ n ih =>
    have hspeaks : (⟨s, .sends (tgt.offer s) 0⟩ : Port τ).Speaks := .inr ⟨_, rfl⟩
    unfold readValues
    cases n with
    | zero =>
      obtain ⟨hex, hon⟩ := h.asks (controlStop ||| controlRead ||| controlAcknowledgeRead) rfl rfl
        rfl hspeaks fun _ => rfl
      refine ⟨_, ?_, ⟨.away, .away, hon⟩, released_after tgt _ _⟩
      rw [if_pos rfl, exec_seq _ hex]
      rfl
    | succ n =>
      obtain ⟨hex, hon⟩ := h.asks controlRead rfl rfl rfl hspeaks fun h => absurd h (by decide)
      obtain ⟨t', hrest, hready⟩ := ih (Nat.succ_ne_zero n) hon
      refine ⟨t', ?_, hready⟩
      rw [if_neg (Nat.succ_ne_zero n), exec_seq _ hex, exec_seq _ hrest]
      rfl

/-- **The loop of `i2c_write_array`.** -/
theorem writeValues_finishes (vs : List (BitVec 8)) {t : Txn} {s : τ}
    (h : On tgt t ⟨s, .hears false []⟩)
    (hbus : Released (outcome tgt.device t.issued).log ↔ false = true) :
    Finishes tgt (writeValues vs) t (writeBytes tgt s vs) := by
  induction vs generalizing t s with
  | nil => exact ⟨t, rfl, ⟨_, .hears, h⟩, hbus⟩
  | cons v vs ih =>
    unfold writeValues
    cases vs with
    | nil =>
      refine Finishes.last h (fun hack t' hready => ?_) (fun hack => ?_)
      · refine ⟨t', ?_, hready⟩
        simp only [writeBytes, if_pos hack]
        rfl
      · simp only [writeBytes, if_neg (ne_true_of_eq_false hack)]
    | cons w ws =>
      refine Finishes.accept h (fun hack t' hon hbus => ?_) (fun hack => ?_)
      · simp only [writeBytes, if_pos hack]
        exact ih hon hbus
      · simp only [writeBytes, if_neg (ne_true_of_eq_false hack)]

/-- **`i2c_write_array`** on any target. -/
theorem writeArray_finishes (h : Ready tgt t l) (device index : BitVec 8)
    (value : List (BitVec 8)) :
    Finishes tgt (i2cWriteArray device index value) t
      (writeTransaction tgt l.state device index value) := by
  obtain ⟨phase, hfree, hon⟩ := h.port
  have hlsb : (device &&& 0xFE).getLsbD 0 = false := by simp
  unfold i2cWriteArray writeTransaction
  refine Finishes.address hfree hon (fun hack t' hon => ?_)
    (fun hack => if_neg (ne_true_of_eq_false hack))
  rw [hlsb] at hon
  rw [if_pos hack]
  refine Finishes.accept hon (fun hack t' hon hbus => ?_)
    (fun hack => if_neg (ne_true_of_eq_false hack))
  rw [if_pos hack]
  exact writeValues_finishes value hon hbus

/-- What `i2c_read` and `i2c_read_array` begin with. -/
theorem readHead_finishes (h : Ready tgt t l) (device index : BitVec 8) (enodev ebadack : α)
    (body : τ → α × Left τ)
    (hrest : ∀ t' s, On tgt t' ⟨s, .sends (tgt.offer s) 0⟩ → Finishes tgt rest t' (body s)) :
    Finishes tgt
      (CameraLcd.I2c.checked (device &&& 0xFE) (controlStart ||| controlWrite) enodev <|
        CameraLcd.I2c.checked index controlWrite ebadack <|
        CameraLcd.I2c.checked (device ||| 0x01) (controlStart ||| controlWrite) enodev rest) t
      (let a := tgt.address l.state (device &&& 0xFE)
       let i := tgt.accept a.2 index
       let b := tgt.address i.2 (device ||| 0x01)
       if a.1 then
         (if i.1 then (if b.1 then body b.2 else (enodev, ⟨b.2, false⟩))
         else (ebadack, ⟨i.2, false⟩))
       else (enodev, ⟨a.2, false⟩)) := by
  obtain ⟨phase, hfree, hon⟩ := h.port
  have hlsb : (device &&& 0xFE).getLsbD 0 = false := by simp
  have hmsb : (device ||| 0x01).getLsbD 0 = true := by simp
  refine Finishes.address hfree hon (fun hack t' hon => ?_)
    (fun hack => if_neg (ne_true_of_eq_false hack))
  rw [hlsb] at hon
  rw [if_pos hack]
  refine Finishes.accept hon (fun hack t' hon _ => ?_)
    (fun hack => if_neg (ne_true_of_eq_false hack))
  rw [if_pos hack]
  refine Finishes.address .hears hon (fun hack t' hon => ?_)
    (fun hack => if_neg (ne_true_of_eq_false hack))
  rw [hmsb] at hon
  rw [if_pos hack]
  exact hrest t' _ hon

/-- **`i2c_read_array`** on any target, for at least one byte. -/
theorem readArray_finishes (h : Ready tgt t l) (device index : BitVec 8)
    (value : List (BitVec 8)) (hv : value ≠ []) :
    Finishes tgt (i2cReadArray device index value) t
      (readTransaction tgt l.state device index value) := by
  refine readHead_finishes h device index _ _
    (fun s => ((Status.success, (readBytes tgt s value.length).1),
      ⟨(readBytes tgt s value.length).2, true⟩)) fun t' s hon => ?_
  exact (readValues_finishes value.length (by simpa using hv) hon).bind
    fun _ h' => Finishes.pure h' _

/-- **`i2c_read`** is `i2c_read_array` with one byte. -/
theorem read_finishes (h : Ready tgt t l) (device index value : BitVec 8) :
    ∃ out : (Status × BitVec 8) × Left τ, Finishes tgt (i2cRead device index value) t out ∧
      readTransaction tgt l.state device index [value] = ((out.1.1, [out.1.2]), out.2) := by
  refine ⟨_, readHead_finishes h device index _ _ (fun s =>
    ((Status.success, tgt.offer s), ⟨tgt.stopped (tgt.sent s true), true⟩)) fun t' s hon => ?_, ?_⟩
  · obtain ⟨hex, hon'⟩ := hon.asks (controlStop ||| controlRead ||| controlAcknowledgeRead) rfl rfl
      rfl (.inr ⟨_, rfl⟩) fun _ => rfl
    exact ⟨_, exec_seq _ hex, ⟨.away, .away, hon'⟩, released_after tgt _ _⟩
  · unfold readTransaction
    dsimp only
    cases (tgt.address l.state (device &&& 0xFE)).1 with
    | false => rfl
    | true =>
      cases (tgt.accept (tgt.address l.state (device &&& 0xFE)).2 index).1 with
      | false => rfl
      | true =>
        cases (tgt.address (tgt.accept (tgt.address l.state (device &&& 0xFE)).2 index).2
          (device ||| 0x01)).1 <;> rfl

end Rules

/-! ## The bus after a call -/

/-- The target takes all these bytes. -/
def acceptsAll (tgt : Target τ) (s : τ) : List (BitVec 8) → Bool
  | [] => true
  | v :: vs => (tgt.accept s v).1 && acceptsAll tgt (tgt.accept s v).2 vs

theorem writeBytes_released (s : τ) (vs : List (BitVec 8)) :
    (writeBytes tgt s vs).2.released = true ↔ vs ≠ [] ∧ acceptsAll tgt s vs.dropLast = true := by
  induction vs generalizing s with
  | nil => simp [writeBytes]
  | cons v vs ih =>
    cases vs with
    | nil => simp [writeBytes, acceptsAll]
    | cons w ws =>
      cases hack : (tgt.accept s v).1 <;> simp [writeBytes, acceptsAll, hack, ih]

theorem writeTransaction_released (s : τ) (device index : BitVec 8) (value : List (BitVec 8)) :
    (writeTransaction tgt s device index value).2.released = true ↔
      value ≠ [] ∧ (tgt.address s (device &&& 0xFE)).1 = true ∧
        acceptsAll tgt (tgt.address s (device &&& 0xFE)).2 (index :: value.dropLast) = true := by
  unfold writeTransaction acceptsAll
  obtain ⟨ack, s'⟩ := tgt.address s (device &&& 0xFE)
  cases ack with
  | false => simp
  | true =>
    cases hi : (tgt.accept s' index).1 with
    | false => simp [hi]
    | true => simp [hi, writeBytes_released]

/-- **When `i2c_write_array` frees the bus**: when all bytes but the last are acknowledged.  The
driver's writes of STOP alone, after a refusal, put no stop on the bus. -/
theorem writeArray_frees_iff {t : Txn} {l : Left τ} (h : Ready tgt t l) (device index : BitVec 8)
    (value : List (BitVec 8)) : ∃ status t',
      exec (protocol tgt.device) (i2cWriteArray device index value) t = some (status, t') ∧
      (Released (outcome tgt.device t'.issued).log ↔
        value ≠ [] ∧ (tgt.address l.state (device &&& 0xFE)).1 = true ∧
          acceptsAll tgt (tgt.address l.state (device &&& 0xFE)).2 (index :: value.dropLast) =
            true) := by
  obtain ⟨t', hex, hready⟩ := writeArray_finishes h device index value
  exact ⟨_, t', hex, hready.bus.trans (writeTransaction_released l.state device index value)⟩

/-! ## Runs -/

/-- A program that finishes on the description does so on the master as it is built. -/
theorem finishes_on_bus {α : Type} {p : Driver α} {out : α × Left τ}
    (h : Finishes tgt p Txn.start out) (sclIn sdaIn : Bool) (inp : Nat → Timing Bool) :
    (∀ n b, ((computer tgt.device p sclIn sdaIn).run inp n).1.prog = .ret b →
      b = out.1 ∧
      (tgt.device.after ((computer tgt.device p sclIn sdaIn).run inp n).2.log).state =
        out.2.state ∧
      (Released ((computer tgt.device p sclIn sdaIn).run inp n).2.log ↔
        out.2.released = true)) ∧
    (Recurs (fun n => (inp n).go) →
      ∃ n, ((computer tgt.device p sclIn sdaIn).run inp n).1.prog = .ret out.1) := by
  obtain ⟨t', hex, ⟨phase, -, hon⟩, hbus⟩ := h
  refine ⟨fun n b hret => ?_, driver_returns hex hon.yields sclIn sdaIn inp⟩
  obtain ⟨rfl, hlog⟩ := (driver_log hex hon.yields hon.idle sclIn sdaIn inp n).2 b hret
  rw [hlog]
  refine ⟨rfl, ?_, hbus⟩
  exact congrArg Port.state hon.port

/-- `i2c_init`, with a frequency that gives a divisor. -/
theorem init_finishes {t : Txn} {l : Left τ} (h : Ready tgt t l) (i2cFrequency : BitVec 32)
    (hdiv : (i2cFrequency / (4 * 100000)).setWidth 8 ≠ 0) :
    Finishes tgt (i2cInit i2cFrequency) t ((), l) := by
  obtain ⟨⟨phase, hfree, hon⟩, hbus⟩ := h
  refine ⟨{ t with divisor := (i2cFrequency / (4 * 100000)).setWidth 8 }, ?_,
    ⟨phase, hfree, hon.idle, hon.yields, hon.port⟩, hbus⟩
  unfold i2cInit wrClockDivisor
  have hwrite : t.write 3 ((i2cFrequency / (4 * 100000)).setWidth 8) =
      some { t with divisor := (i2cFrequency / (4 * 100000)).setWidth 8 } := by
    have hok : (t.idle && (i2cFrequency / (4 * 100000)).setWidth 8 != 0) = true := by
      rw [hon.idle, Bool.true_and]
      exact bne_iff_ne.mpr hdiv
    exact if_pos hok
  simp only [exec, protocol, hwrite, Option.bind_some]

/-- `i2c_configure` puts nothing on the bus. -/
theorem configure_finishes {t : Txn} {l : Left τ} (h : Ready tgt t l) (irq : Bool) :
    Finishes tgt (i2cConfigure irq) t ((), l) := by
  obtain ⟨⟨phase, hfree, hon⟩, hbus⟩ := h
  refine ⟨t, ?_, ⟨phase, hfree, hon⟩, hbus⟩
  obtain ⟨issued, dataIn, divisor, idle⟩ := t
  have hidle : idle = true := hon.idle
  subst hidle
  cases irq <;> rfl

/-- A call of the driver. -/
inductive Call where
  | init (i2cFrequency : BitVec 32)
  | configure (irq : Bool)
  | writeByte (device index value : BitVec 8)
  | readByte (device index value : BitVec 8)
  | write (device index : BitVec 8) (value : List (BitVec 8))
  | read (device index : BitVec 8) (value : List (BitVec 8))
  deriving DecidableEq, Repr

namespace Call

/-- The divisor is not 0, and no call asks for zero bytes. -/
def Proper : Call → Prop
  | init i2cFrequency => (i2cFrequency / (4 * 100000)).setWidth 8 ≠ 0
  | read _ _ value => value ≠ []
  | _ => True

/-- The call: its result, where it has one, and the bytes in its buffer. -/
def run : Call → Driver (Status × List (BitVec 8))
  | init i2cFrequency => do
    i2cInit i2cFrequency
    return (.success, [])
  | configure irq => do
    i2cConfigure irq
    return (.success, [])
  | writeByte device index value => do
    let status ← i2cWrite device index value
    return (status, [value])
  | readByte device index value => do
    let (status, value) ← i2cRead device index value
    return (status, [value])
  | write device index value => do
    let status ← i2cWriteArray device index value
    return (status, value)
  | read device index value => i2cReadArray device index value

/-- What it comes to on a target. -/
def effect (tgt : Target τ) (l : Left τ) : Call → (Status × List (BitVec 8)) × Left τ
  | init _ | configure _ => ((.success, []), l)
  | writeByte device index value =>
    let r := writeTransaction tgt l.state device index [value]
    ((r.1, [value]), r.2)
  | readByte device index value => readTransaction tgt l.state device index [value]
  | write device index value =>
    let r := writeTransaction tgt l.state device index value
    ((r.1, value), r.2)
  | read device index value => readTransaction tgt l.state device index value

end Call

/-- A sequence of calls. -/
def session : List Call → Driver (List (Status × List (BitVec 8)))
  | [] => return []
  | c :: cs => do
    let r ← c.run
    let rs ← session cs
    return r :: rs

def sessionEffect (tgt : Target τ) (l : Left τ) :
    List Call → List (Status × List (BitVec 8)) × Left τ
  | [] => ([], l)
  | c :: cs =>
    let r := c.effect tgt l
    let rest := sessionEffect tgt r.2 cs
    (r.1 :: rest.1, rest.2)

theorem call_finishes {t : Txn} {l : Left τ} (h : Ready tgt t l) (c : Call) (hc : c.Proper) :
    Finishes tgt c.run t (c.effect tgt l) := by
  cases c with
  | init i2cFrequency =>
    exact (init_finishes h i2cFrequency hc).bind fun _ h' => Finishes.pure h' _
  | configure irq => exact (configure_finishes h irq).bind fun _ h' => Finishes.pure h' _
  | writeByte device index value =>
    exact (writeArray_finishes h device index [value]).bind fun _ h' => Finishes.pure h' _
  | readByte device index value =>
    obtain ⟨out, hfin, heff⟩ := read_finishes h device index value
    show Finishes tgt _ t (readTransaction tgt l.state device index [value])
    rw [heff]
    exact hfin.bind fun _ h' => Finishes.pure h' _
  | write device index value =>
    exact (writeArray_finishes h device index value).bind fun _ h' => Finishes.pure h' _
  | read device index value => exact readArray_finishes h device index value hc

theorem session_finishes (cs : List Call) (hcs : ∀ c ∈ cs, c.Proper) {t : Txn} {l : Left τ}
    (h : Ready tgt t l) : Finishes tgt (session cs) t (sessionEffect tgt l cs) := by
  induction cs generalizing t l with
  | nil => exact ⟨t, rfl, h⟩
  | cons c cs ih =>
    refine (call_finishes h c (hcs c (by simp))).bind fun t1 h1 => ?_
    exact (ih (fun d hd => hcs d (by simp [hd])) h1).bind fun t2 h2 => Finishes.pure h2 _

variable (tgt) in
theorem ready_start : Ready tgt Txn.start ⟨tgt.init, true⟩ where
  port := ⟨.away, .away, rfl, fun before c after h => by simp [Txn.start] at h, rfl⟩
  bus := by simp [Released, Txn.start, outcome, Outcome.start]

variable (tgt) in
/-- **Sessions on the bus.**  Every sequence of calls, on the registers of the master as it is
built and at any speed of the processor, returns what the target answers and leaves the target
where the bytes take it. -/
theorem sessions_on_bus (cs : List Call) (hcs : ∀ c ∈ cs, c.Proper) (sclIn sdaIn : Bool)
    (inp : Nat → Timing Bool) :
    (∀ n b, ((computer tgt.device (session cs) sclIn sdaIn).run inp n).1.prog = .ret b →
      b = (sessionEffect tgt ⟨tgt.init, true⟩ cs).1 ∧
      (tgt.device.after ((computer tgt.device (session cs) sclIn sdaIn).run inp n).2.log).state =
        (sessionEffect tgt ⟨tgt.init, true⟩ cs).2.state ∧
      (Released ((computer tgt.device (session cs) sclIn sdaIn).run inp n).2.log ↔
        (sessionEffect tgt ⟨tgt.init, true⟩ cs).2.released = true)) ∧
    (Recurs (fun n => (inp n).go) →
      ∃ n, ((computer tgt.device (session cs) sclIn sdaIn).run inp n).1.prog =
        .ret (sessionEffect tgt ⟨tgt.init, true⟩ cs).1) :=
  finishes_on_bus (session_finishes cs hcs (ready_start tgt)) sclIn sdaIn inp

end Targets

/-- A target that answers to every address and keeps the last byte. -/
def latch : Target (BitVec 8) where
  init := 0
  address s _ := (true, s)
  accept _ byte := (true, byte)
  offer s := s
  sent s _ := s
  stopped s := s

theorem writeArray_frees_iff_latch : ∃ status t',
    exec (protocol latch.device) (i2cWriteArray 0xBA 10 [1, 2]) Txn.start = some (status, t') ∧
    (Released (outcome latch.device t'.issued).log ↔
      ([1, 2] : List (BitVec 8)) ≠ [] ∧ (latch.address 0 (0xBA &&& 0xFE)).1 = true ∧
        acceptsAll latch (latch.address 0 (0xBA &&& 0xFE)).2 (10 :: [1, 2].dropLast) = true) :=
  writeArray_frees_iff (ready_start latch) 0xBA 10 [1, 2]

theorem sessions_on_bus_latch : ∃ n,
    ((computer latch.device (session [.init 50000000, .write 0xBA 10 [1, 2], .read 0xBA 10 [0]])
      true true).run (fun _ => ⟨true, false⟩) n).1.prog =
        .ret (sessionEffect latch ⟨0, true⟩
          [.init 50000000, .write 0xBA 10 [1, 2], .read 0xBA 10 [0]]).1 :=
  (sessions_on_bus latch [.init 50000000, .write 0xBA 10 [1, 2], .read 0xBA 10 [0]]
    (by simp [Call.Proper]) true true fun _ => ⟨true, false⟩).2 fun n => ⟨n, le_rfl, rfl⟩

end CameraLcd.I2c
