import CameraLcd.Lib.I2cBus

/-!
# A target on the bus, byte by byte

A target that follows the protocol is given by what it does with whole bytes: whether it answers
to an address and takes a byte, and which byte it offers.  `Target.device` is the same target as
it is seen on the wires, one pulse of SCL at a time.

* `take`, `give` — a byte written to the target and a byte read from it.
* `perform_write`, `perform_read` — nine pulses are a byte written or read.
-/

set_option autoImplicit false

namespace I2cBus

/-- A target, byte by byte.  The answers `true` are acknowledges. -/
structure Target (τ : Type) where
  init : τ
  /-- The byte after a start. -/
  address : τ → BitVec 8 → Bool × τ
  /-- A byte written. -/
  accept : τ → BitVec 8 → Bool × τ
  /-- The next byte to be read. -/
  offer : τ → BitVec 8
  /-- The byte was read; `true` when the master does not ask for another. -/
  sent : τ → Bool → τ
  stopped : τ → τ

/-- What a target does with the pulses of SCL. -/
inductive Phase where
  /-- Not addressed. -/
  | away
  /-- A byte comes in, the address byte if `first`. -/
  | hears (first : Bool) (bits : List Bool)
  /-- The acknowledge of a byte that came in. -/
  | answers (ack sends : Bool)
  /-- A byte goes out, `k` bits of it are gone. -/
  | sends (byte : BitVec 8) (k : Nat)
  /-- The acknowledge of a byte that went out. -/
  | asks
  deriving DecidableEq, Repr

/-- A target on the wires. -/
structure Port (τ : Type) where
  state : τ
  phase : Phase

section Targets

variable {τ : Type} (tgt : Target τ)

/-- After the acknowledge of a byte that came in. -/
def Target.answered (s : τ) (ack sends : Bool) : Port τ :=
  if ack then (if sends then ⟨s, .sends (tgt.offer s) 0⟩ else ⟨s, .hears false []⟩) else ⟨s, .away⟩

/-- After the acknowledge of a byte that went out. -/
def Target.asked (s : τ) (nack : Bool) : Port τ :=
  if nack then ⟨tgt.sent s nack, .away⟩
  else ⟨tgt.sent s nack, .sends (tgt.offer (tgt.sent s nack)) 0⟩

/-- A byte that came in. -/
def Target.heard (s : τ) (first : Bool) (byte : BitVec 8) : Bool × τ :=
  if first then tgt.address s byte else tgt.accept s byte

def Port.drive (p : Port τ) : Bool :=
  match p.phase with
  | .away | .hears _ _ | .asks => true
  | .answers ack _ => !ack
  | .sends byte k => byte.getMsbD k

def Port.bit (p : Port τ) (b : Bool) : Port τ :=
  match p.phase with
  | .away => p
  | .hears first bits =>
    if bits.length < 7 then ⟨p.state, .hears first (bits ++ [b])⟩
    else
      ⟨(tgt.heard p.state first (byteOf (bits ++ [b]))).2,
        .answers (tgt.heard p.state first (byteOf (bits ++ [b]))).1 (first && b)⟩
  | .answers ack sends => tgt.answered p.state ack sends
  | .sends byte k => if k < 7 then ⟨p.state, .sends byte (k + 1)⟩ else ⟨p.state, .asks⟩
  | .asks => tgt.asked p.state b

/-- A start: the address byte follows. -/
def Port.started (p : Port τ) : Port τ := ⟨p.state, .hears true []⟩

def Port.stopped (p : Port τ) : Port τ := ⟨tgt.stopped p.state, .away⟩

def Port.observe (p : Port τ) : Event → Port τ
  | .start => p.started
  | .stop => p.stopped tgt
  | .bit b => p.bit tgt b

/-- **The target on the wires.** -/
def Target.device : Device (Port τ) where
  init := ⟨tgt.init, .away⟩
  drive := Port.drive
  observe := Port.observe tgt
  released_init := rfl
  released_start _ := rfl
  released_stop _ := rfl

/-! ## Bytes -/

/-- The bits of a byte, in the order of the bus. -/
def bits (d : BitVec 8) : List Bool := (List.range 8).map d.getMsbD

@[simp] theorem bits_length (d : BitVec 8) : (bits d).length = 8 := by simp [bits]

theorem bits_getElem? (d : BitVec 8) {i : Nat} (hi : i < 8) :
    (bits d)[i]? = some (d.getMsbD i) := by
  simp [bits, hi]

theorem bits_eq (d : BitVec 8) : bits d = (List.range 7).map d.getMsbD ++ [d.getLsbD 0] := by
  unfold bits
  rw [List.range_succ, List.map_append]
  rfl

theorem byteOf_bits (pre : List Bool) (d : BitVec 8) : byteOf (pre ++ bits d) = d := by
  apply BitVec.eq_of_getLsbD_eq
  intro k hk
  have hrev : (pre ++ bits d).reverse[k]? = some (d.getMsbD (7 - k)) := by
    rw [List.reverse_append, List.getElem?_append_left (by simpa using hk),
      List.getElem?_reverse (by simpa using hk), bits_length]
    exact bits_getElem? d (by omega)
  rw [byteOf_getLsbD _ hk, List.getD_eq_getElem?_getD, hrev, Option.getD_some, BitVec.getMsbD]
  simp [show 7 - k < 8 by omega, show 8 - 1 - (7 - k) = k by omega]

/-- A byte written: whether it is acknowledged, and the target after it. -/
def Target.take (p : Port τ) (d : BitVec 8) : Bool × Port τ :=
  match p.phase with
  | .hears first _ =>
    ((tgt.heard p.state first d).1,
      tgt.answered (tgt.heard p.state first d).2 (tgt.heard p.state first d).1
        (first && d.getLsbD 0))
  | _ => (false, p)

/-- A byte read, with the acknowledge of the master. -/
def Target.give (p : Port τ) (nack : Bool) : BitVec 8 × Port τ :=
  match p.phase with
  | .sends byte _ => (byte, tgt.asked p.state nack)
  | _ => (0xFF, p)

/-- Between two bytes, when the next one is written. -/
def Port.Listens (p : Port τ) : Prop := p.phase = .away ∨ ∃ first, p.phase = .hears first []

/-- Between two bytes, when the next one is read. -/
def Port.Speaks (p : Port τ) : Prop := p.phase = .away ∨ ∃ byte, p.phase = .sends byte 0

/-- SDA is left to the master. -/
theorem Port.Listens.released {p : Port τ} (h : p.Listens) : p.drive = true := by
  obtain h | ⟨first, h⟩ := h <;> simp [Port.drive, h]

/-! ## Nine pulses -/

variable {tgt} {log : List Event}

theorem after_put (m : Bool) :
    tgt.device.after (put tgt.device log (.level m)) =
      (tgt.device.after log).bit tgt (m && (tgt.device.after log).drive) := by
  unfold put
  rw [Device.after_append]
  rfl

/-- While nobody is addressed the bus carries what the master says. -/
theorem perform_away (h : (tgt.device.after log).phase = .away) (bs : List Bool) :
    tgt.device.after (perform tgt.device log (bs.map .level)) = tgt.device.after log ∧
      bitsOf (perform tgt.device log (bs.map .level)) = bitsOf log ++ bs := by
  induction bs generalizing log with
  | nil => exact ⟨rfl, (List.append_nil _).symm⟩
  | cons b bs ih =>
    have hput : tgt.device.after (put tgt.device log (.level b)) = tgt.device.after log := by
      rw [after_put]
      simp [Port.bit, h]
    have hbit : bitsOf (put tgt.device log (.level b)) = bitsOf log ++ [b] := by
      have hd : tgt.device.drives log = true := by
        show (tgt.device.after log).drive = true
        simp [Port.drive, h]
      simp [put, Slot.event, hd]
    obtain ⟨hafter, hbits⟩ := ih (by rw [hput, h])
    rw [List.map_cons, perform_cons]
    exact ⟨hafter.trans hput, by rw [hbits, hbit, List.append_assoc]; rfl⟩

theorem perform_hears {s : τ} {first : Bool} (bs pre : List Bool)
    (h : tgt.device.after log = ⟨s, .hears first pre⟩) (hlen : pre.length + bs.length < 8) :
    tgt.device.after (perform tgt.device log (bs.map .level)) = ⟨s, .hears first (pre ++ bs)⟩ ∧
      bitsOf (perform tgt.device log (bs.map .level)) = bitsOf log ++ bs := by
  induction bs generalizing log pre with
  | nil => exact ⟨by rw [List.append_nil]; exact h, (List.append_nil _).symm⟩
  | cons b bs ih =>
    simp only [List.length_cons] at hlen
    have hput : tgt.device.after (put tgt.device log (.level b)) =
        ⟨s, .hears first (pre ++ [b])⟩ := by
      rw [after_put, h]
      simp [Port.bit, Port.drive, show pre.length < 7 by omega]
    have hbit : bitsOf (put tgt.device log (.level b)) = bitsOf log ++ [b] := by
      have hd : tgt.device.drives log = true := by
        show (tgt.device.after log).drive = true
        rw [h]
        rfl
      simp [put, Slot.event, hd]
    obtain ⟨hafter, hbits⟩ := ih (pre ++ [b]) hput (by simp; omega)
    rw [List.map_cons, perform_cons]
    refine ⟨hafter.trans ?_, ?_⟩
    · rw [List.append_assoc]
      rfl
    · rw [hbits, hbit, List.append_assoc]
      rfl

/-- **A byte written**: eight pulses with its bits and one that leaves SDA to the target. -/
theorem perform_write (h : (tgt.device.after log).Listens) (d : BitVec 8) :
    tgt.device.after (perform tgt.device log ((bits d ++ [true]).map .level)) =
        (tgt.take (tgt.device.after log) d).2 ∧
      lastBit (perform tgt.device log ((bits d ++ [true]).map .level)) =
        !(tgt.take (tgt.device.after log) d).1 := by
  obtain h | ⟨first, h⟩ := h
  · obtain ⟨hafter, hbits⟩ := perform_away h (bits d ++ [true])
    refine ⟨?_, ?_⟩
    · rw [hafter]
      simp [Target.take, h]
    · unfold lastBit
      rw [hbits]
      simp [Target.take, h]
  · generalize hp : tgt.device.after log = p at h ⊢
    obtain ⟨s, phase⟩ := p
    cases h
    have hbyte : byteOf ((List.range 7).map d.getMsbD ++ [d.getLsbD 0]) = d := by
      rw [← bits_eq]
      exact byteOf_bits [] d
    obtain ⟨hseven, -⟩ := perform_hears ((List.range 7).map d.getMsbD) [] hp (by simp)
    rw [bits_eq, List.append_assoc, List.map_append, perform_append]
    generalize perform tgt.device log (((List.range 7).map d.getMsbD).map Slot.level) = seven at *
    -- the last bit of the byte: the target decides
    have height : tgt.device.after (put tgt.device seven (.level (d.getLsbD 0))) =
        ⟨(tgt.heard s first d).2, .answers (tgt.heard s first d).1 (first && d.getLsbD 0)⟩ := by
      have hlen : ¬ ((List.range 7).map d.getMsbD).length < 7 := by simp
      rw [after_put, hseven, List.nil_append]
      simp only [Port.bit, Port.drive, Bool.and_true, if_neg hlen, hbyte]
    show tgt.device.after (put tgt.device (put tgt.device seven (.level (d.getLsbD 0)))
        (.level true)) = _ ∧
      lastBit (put tgt.device (put tgt.device seven (.level (d.getLsbD 0))) (.level true)) = _
    generalize put tgt.device seven (.level (d.getLsbD 0)) = eight at *
    refine ⟨?_, ?_⟩
    · rw [after_put, height]
      rfl
    · have hd : tgt.device.drives eight = !(tgt.heard s first d).1 := by
        show (tgt.device.after eight).drive = _
        rw [height]
        rfl
      unfold put
      rw [Slot.event, lastBit_bit, hd, Bool.true_and]
      rfl

theorem perform_sends {s : τ} {byte : BitVec 8} (n k : Nat)
    (h : tgt.device.after log = ⟨s, .sends byte k⟩) (hlen : k + n ≤ 7) :
    tgt.device.after (perform tgt.device log ((List.replicate n true).map .level)) =
        ⟨s, .sends byte (k + n)⟩ ∧
      bitsOf (perform tgt.device log ((List.replicate n true).map .level)) =
        bitsOf log ++ (List.range' k n).map byte.getMsbD := by
  induction n generalizing log k with
  | zero => exact ⟨h, (List.append_nil _).symm⟩
  | succ n ih =>
    have hput : tgt.device.after (put tgt.device log (.level true)) =
        ⟨s, .sends byte (k + 1)⟩ := by
      rw [after_put, h]
      simp [Port.bit, show k < 7 by omega]
    have hbit : bitsOf (put tgt.device log (.level true)) = bitsOf log ++ [byte.getMsbD k] := by
      have hd : tgt.device.drives log = byte.getMsbD k := by
        show (tgt.device.after log).drive = _
        rw [h]
        rfl
      simp [put, Slot.event, hd]
    obtain ⟨hafter, hbits⟩ := ih (k + 1) hput (by omega)
    rw [List.replicate_succ, List.map_cons, perform_cons]
    refine ⟨by rw [hafter, Nat.add_right_comm]; rfl, ?_⟩
    rw [hbits, hbit, List.range'_succ, List.append_assoc]
    rfl

/-- **A byte read**: eight pulses that leave SDA to the target and one with the acknowledge. -/
theorem perform_read (h : (tgt.device.after log).Speaks) (nack : Bool) :
    tgt.device.after (perform tgt.device log ((List.replicate 8 true ++ [nack]).map .level)) =
        (tgt.give (tgt.device.after log) nack).2 ∧
      lastByte (perform tgt.device log ((List.replicate 8 true ++ [nack]).map .level)) =
        (tgt.give (tgt.device.after log) nack).1 := by
  obtain h | ⟨byte, h⟩ := h
  · obtain ⟨hafter, hbits⟩ := perform_away h (List.replicate 8 true ++ [nack])
    refine ⟨?_, ?_⟩
    · rw [hafter]
      simp [Target.give, h]
    · unfold lastByte
      rw [hbits, ← List.append_assoc, List.dropLast_concat]
      simp only [Target.give, h]
      exact byteOf_bits (bitsOf log) 0xFF
  · generalize hp : tgt.device.after log = p at h ⊢
    obtain ⟨s, phase⟩ := p
    cases h
    obtain ⟨hseven, hbits⟩ := perform_sends 7 0 hp (by omega)
    rw [List.map_append, perform_append, List.replicate_succ', List.map_append, perform_append]
    generalize perform tgt.device log ((List.replicate 7 true).map Slot.level) = seven at *
    have hdrive : tgt.device.drives seven = byte.getLsbD 0 := by
      show (tgt.device.after seven).drive = _
      rw [hseven]
      rfl
    have height : tgt.device.after (put tgt.device seven (.level true)) = ⟨s, .asks⟩ := by
      rw [after_put, hseven]
      rfl
    have hbyte : bitsOf (put tgt.device seven (.level true)) = bitsOf log ++ bits byte := by
      unfold put
      rw [Slot.event, bitsOf_append, hbits, hdrive, bits_eq, ← List.append_assoc]
      rfl
    show tgt.device.after (put tgt.device (put tgt.device seven (.level true)) (.level nack)) = _ ∧
      lastByte (put tgt.device (put tgt.device seven (.level true)) (.level nack)) = _
    generalize put tgt.device seven (.level true) = eight at *
    refine ⟨?_, ?_⟩
    · rw [after_put, height]
      simp [Port.bit, Port.drive, Target.give]
    · unfold put
      rw [Slot.event, lastByte_bit, hbyte, byteOf_bits]
      rfl

end Targets

end I2cBus
