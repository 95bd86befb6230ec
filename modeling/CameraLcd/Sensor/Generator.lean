import Mathlib.Algebra.Group.Nat.Defs
import CameraLcd.Lib.RegisterProgram
import CameraLcd.Lib.Waveform

/-!
# `cmos_sensor_output_generator`

The test camera of `ip/cmos_sensor_output_generator/hdl/cmos_sensor_output_generator.vhd`.  `w` is
`CONFIG_REG_WIDTH`, `p` is `PIX_DEPTH`.

* `Core.next`, `output` — the process `NEXT_STATE_LOGIC`.
* `nextConfig`, `readValue`, `Regs.clock` — `MM_WRITE`, `MM_READ` and `STATE_LOGIC`.
* `period` — one period of the outputs, from a first sample to the next one: rows and gaps, the
  blank after the last row, the blank between frames, the gap before the first row.  A length of
  zero counts as `2 ^ w` where the source compares a counter that starts at 1.
* `shows_period` — from a first sample the core shows `period` and is at a first sample again.
* `follows_rows` — and so on for ever; `signal` covers the height zero, with which the first row
  never ends.
-/

set_option autoImplicit false

namespace CameraLcd.Sensor

open RegisterProgram Waveform

/-- `state_type`. -/
inductive State where
  | idle
  | frameFrameBlank
  | frameLineBlank
  | valid
  | lineLineBlank
  | lineFrameBlank
  deriving DecidableEq, Repr

/-- A number for each length: the `reg_*_config` or the `reg_*_counter`. -/
structure Fields (w : Nat) where
  frameWidth : BitVec w
  frameHeight : BitVec w
  frameFrameBlank : BitVec w
  frameLineBlank : BitVec w
  lineLineBlank : BitVec w
  lineFrameBlank : BitVec w
  deriving DecidableEq, Repr

/-- The registers of `STATE_LOGIC`. -/
structure Core (w : Nat) where
  state : State
  counter : Fields w
  deriving DecidableEq, Repr

/-- The output ports. -/
structure Output (p : Nat) where
  frameValid : Bool
  lineValid : Bool
  data : BitVec p
  deriving DecidableEq, Repr

variable {w p : Nat}

namespace Core

/-- `STATE_VALID` with the counters of a line that begins. -/
def enterValid (m : Core w) (height : BitVec w) : Core w :=
  ⟨.valid, { m.counter with frameWidth := 1, frameHeight := height }⟩

/-- The way into a frame. -/
def enterFrame (c : Fields w) (m : Core w) : Core w :=
  if c.frameLineBlank > 0 then ⟨.frameLineBlank, { m.counter with frameLineBlank := 1 }⟩
  else m.enterValid 1

/-- The end of a row. -/
def leaveValid (c : Fields w) (m : Core w) : Core w :=
  if m.counter.frameHeight < c.frameHeight then
    ⟨.lineLineBlank, { m.counter with lineLineBlank := 1 }⟩
  else if m.counter.frameHeight = c.frameHeight then
    if c.lineFrameBlank > 0 then ⟨.lineFrameBlank, { m.counter with lineFrameBlank := 1 }⟩
    else ⟨.frameFrameBlank, { m.counter with frameFrameBlank := 1 }⟩
  else m

/-- A busy state: its counter has been moved to `m`, `done` says that it was at its end. -/
def busy (m : Core w) (stop done : Bool) (leave : Core w → Core w) : Core w :=
  if stop then { m with state := .idle } else if done then leave m else m

/-- The registers assigned by `NEXT_STATE_LOGIC`. -/
def next (c : Fields w) (start stop : Bool) (m : Core w) : Core w :=
  let k := m.counter
  match m.state with
  | .idle => if start then m.enterFrame c else m
  | .frameFrameBlank =>
    busy ⟨m.state, { k with frameFrameBlank := k.frameFrameBlank + 1 }⟩ stop
      (k.frameFrameBlank = c.frameFrameBlank) (enterFrame c)
  | .frameLineBlank =>
    busy ⟨m.state, { k with frameLineBlank := k.frameLineBlank + 1 }⟩ stop
      (k.frameLineBlank = c.frameLineBlank) (enterValid · 1)
  | .valid =>
    busy ⟨m.state, { k with frameWidth := k.frameWidth + 1 }⟩ stop
      (k.frameWidth = c.frameWidth) (leaveValid c)
  | .lineLineBlank =>
    busy ⟨m.state, { k with lineLineBlank := k.lineLineBlank + 1 }⟩ stop
      (k.lineLineBlank = c.lineLineBlank) (enterValid · (k.frameHeight + 1))
  | .lineFrameBlank =>
    busy ⟨m.state, { k with lineFrameBlank := k.lineFrameBlank + 1 }⟩ stop
      (k.lineFrameBlank = c.lineFrameBlank)
      fun m => ⟨.frameFrameBlank, { m.counter with frameFrameBlank := 1 }⟩

end Core

/-- Between frames. -/
def low : Output p := ⟨false, false, 0⟩

/-- In a frame, between rows. -/
def blank : Output p := ⟨true, false, 0⟩

/-- The outputs assigned by `NEXT_STATE_LOGIC`; the product has `2 * w` bits. -/
def output (c : Fields w) (m : Core w) : Output p :=
  match m.state with
  | .idle | .frameFrameBlank => low
  | .frameLineBlank | .lineLineBlank | .lineFrameBlank => blank
  | .valid =>
    ⟨true, true, ((m.counter.frameHeight - 1).setWidth (w + w) * c.frameWidth.setWidth (w + w) +
      (m.counter.frameWidth - 1).setWidth (w + w)).setWidth p⟩

/-! ## The registers of the entity -/

structure Regs (w : Nat) where
  config : Fields w
  start : Bool
  stop : Bool
  core : Core w
  rddata : BitVec 32
  deriving DecidableEq, Repr

/-- The six `CONFIG` registers, at the addresses `CONFIG_*_OFST`. -/
def writeConfig (c : Fields w) (addr : BitVec 3) (wrdata : BitVec 32) : Fields w :=
  let d := wrdata.setWidth w
  match addr with
  | 0 => { c with frameWidth := d }
  | 1 => { c with frameHeight := d }
  | 2 => { c with frameFrameBlank := d }
  | 3 => { c with frameLineBlank := d }
  | 4 => { c with lineLineBlank := d }
  | 5 => { c with lineFrameBlank := d }
  | _ => c

def readConfig (c : Fields w) (addr : BitVec 3) : BitVec 32 :=
  match addr with
  | 0 => c.frameWidth.setWidth 32
  | 1 => c.frameHeight.setWidth 32
  | 2 => c.frameFrameBlank.setWidth 32
  | 3 => c.frameLineBlank.setWidth 32
  | 4 => c.lineLineBlank.setWidth 32
  | 5 => c.lineFrameBlank.setWidth 32
  | _ => 0

/-- `COMMAND_OFST`. -/
def commandOfst : BitVec 3 := 6

/-- `STATUS_OFST`. -/
def statusOfst : BitVec 3 := 7

/-- A write of this command, `COMMAND_START` or `COMMAND_STOP`. -/
def commands (bit : Bool) : Access (BitVec 3) (BitVec 32) → Bool
  | .write addr d => decide (addr = commandOfst) && (d.getLsbD 0 == bit)
  | _ => false

/-- `MM_WRITE` for the `CONFIG` registers; `idle` is `reg_state = STATE_IDLE`. -/
def nextConfig (c : Fields w) (idle : Bool) : Access (BitVec 3) (BitVec 32) → Fields w
  | .write addr d => if idle then writeConfig c addr d else c
  | _ => c

/-- The data loaded by `MM_READ`. -/
def readValue (c : Fields w) (idle : Bool) : Access (BitVec 3) (BitVec 32) → BitVec 32
  | .read addr => if addr = statusOfst then if idle then 1 else 0 else readConfig c addr
  | _ => 0

namespace Regs

/-- `reset = '1'`: the configuration has the `CONFIG_*_MIN` of the hardware. -/
def reset : Regs w where
  config := ⟨1, 1, 1, 0, 1, 0⟩
  start := false
  stop := false
  core := ⟨.idle, ⟨0, 0, 0, 0, 0, 0⟩⟩
  rddata := 0

def isIdle (r : Regs w) : Bool := decide (r.core.state = .idle)

/-- `rising_edge(clk)`. -/
def clock (r : Regs w) (a : Access (BitVec 3) (BitVec 32)) : Regs w where
  config := nextConfig r.config r.isIdle a
  start := commands true a && r.isIdle
  stop := commands false a && !r.isIdle
  core := r.core.next r.config r.start r.stop
  rddata := readValue r.config r.isIdle a

/-- The output ports. -/
def ports (r : Regs w) : Output p := output r.config r.core

end Regs

/-! ## One frame -/

/-- The cycles in which a counter goes from 1 to `last`. -/
def span (last : BitVec w) : Nat := (last - 1).toNat + 1

theorem span_eq {last : BitVec w} (h : 0 < last) : span last = last.toNat := by
  have hpos : 0 < last.toNat := h
  have hlt := last.isLt
  have hw : 0 < w := by
    rw [Nat.pos_iff_ne_zero]
    rintro rfl
    omega
  have h1 : (1 : BitVec w).toNat = 1 := BitVec.toNat_one hw
  rw [span, BitVec.toNat_sub, h1,
    show 2 ^ w - 1 + last.toNat = 2 ^ w + (last.toNat - 1) by omega, Nat.add_mod_left,
    Nat.mod_eq_of_lt (by omega)]
  omega

/-- Sample `j` of row `i`. -/
def pixel (c : Fields w) (i j : Nat) : Output p :=
  ⟨true, true, BitVec.ofNat p (i * c.frameWidth.toNat + j)⟩

def row (c : Fields w) (i : Nat) : List (Output p) :=
  (List.range (span c.frameWidth)).map (pixel c i)

/-- Row `i` and the gap before it. -/
def line (c : Fields w) (i : Nat) : List (Output p) :=
  List.replicate (span c.lineLineBlank) blank ++ row c i

/-- One period of the outputs, from a first sample to the next one. -/
def period (c : Fields w) : List (Output p) :=
  row c 0 ++ ((List.range' 1 (c.frameHeight.toNat - 1)).flatMap (line c) ++
    (List.replicate c.lineFrameBlank.toNat blank ++
      (List.replicate (span c.frameFrameBlank) low ++
        List.replicate c.frameLineBlank.toNat blank)))

theorem period_pos (c : Fields w) : 0 < (period (p := p) c).length := by
  simp only [period, row, span, List.length_append, List.length_map, List.length_range]
  omega

theorem counting_blank (last : BitVec w) (y : Output p) :
    counting 1 last (fun _ => y) = List.replicate (span last) y := by
  simp [counting, span, List.map_const']

/-- The sample that `NEXT_STATE_LOGIC` computes: nothing is lost before it is cut to `p` bits. -/
theorem output_valid (c : Fields w) {m : Core w} {i j : Nat} (hs : m.state = .valid)
    (hh : m.counter.frameHeight = BitVec.ofNat w (i + 1)) (hi : i + 1 < 2 ^ w)
    (hw : m.counter.frameWidth = 1 + BitVec.ofNat w j) (hj : j < 2 ^ w) :
    output (p := p) c m = pixel c i j := by
  have hi1 : (m.counter.frameHeight - 1).toNat = i := by
    rw [hh, BitVec.ofNat_add]
    show (BitVec.ofNat w i + 1 - 1).toNat = i
    rw [BitVec.add_sub_cancel, BitVec.toNat_ofNat, Nat.mod_eq_of_lt (by omega)]
  have hj1 : (m.counter.frameWidth - 1).toNat = j := by
    rw [hw, BitVec.add_comm, BitVec.add_sub_cancel, BitVec.toNat_ofNat, Nat.mod_eq_of_lt hj]
  have hpow : 2 ^ (w + w) = 2 ^ w * 2 ^ w := Nat.pow_add 2 w w
  have hle : 2 ^ w ≤ 2 ^ w * 2 ^ w := Nat.le_mul_self _
  have hprod : i * c.frameWidth.toNat + j < 2 ^ w * 2 ^ w := by
    calc i * c.frameWidth.toNat + j < i * 2 ^ w + 2 ^ w :=
          Nat.add_lt_add_of_le_of_lt (Nat.mul_le_mul_left i c.frameWidth.isLt.le) hj
      _ = (i + 1) * 2 ^ w := (Nat.succ_mul i _).symm
      _ ≤ 2 ^ w * 2 ^ w := Nat.mul_le_mul_right _ (by omega)
  unfold output pixel
  rw [hs]
  dsimp only
  congr 1
  apply BitVec.eq_of_toNat_eq
  rw [BitVec.toNat_setWidth, BitVec.toNat_add, BitVec.toNat_mul, BitVec.toNat_setWidth,
    BitVec.toNat_setWidth, BitVec.toNat_setWidth, hi1, hj1, BitVec.toNat_ofNat, hpow,
    Nat.mod_eq_of_lt (a := i) (by omega), Nat.mod_eq_of_lt (a := j) (by omega),
    Nat.mod_eq_of_lt (a := c.frameWidth.toNat) (by omega),
    Nat.mod_eq_of_lt (a := i * c.frameWidth.toNat) (by omega), Nat.mod_eq_of_lt hprod]

section Left

variable (c : Fields w)

/-- At the first sample of row `i`. -/
structure Rows (i : Nat) (m : Core w) : Prop where
  state : m.state = .valid
  width : m.counter.frameWidth = 1
  height : m.counter.frameHeight = BitVec.ofNat w (i + 1)

/-- Behind the rows. -/
def Behind (m : Core w) : Prop :=
  if c.lineFrameBlank > 0 then m.state = .lineFrameBlank ∧ m.counter.lineFrameBlank = 1
  else m.state = .frameFrameBlank ∧ m.counter.frameFrameBlank = 1

/-- Before the gap of row `i`, or behind the rows. -/
def Stage (i : Nat) (m : Core w) : Prop :=
  if i < c.frameHeight.toNat then
    m.state = .lineLineBlank ∧ m.counter.lineLineBlank = 1 ∧
      m.counter.frameHeight = BitVec.ofNat w i
  else Behind c m

/-- A blank whose counter is `k`; `t` counts. -/
theorem shows_blank {s : State} {k : Fields w → BitVec w} {t e : Core w → Core w}
    {y : Output p} {H : BitVec w} {Q : Core w → Prop}
    (hy : ∀ m : Core w, m.state = s → output c m = y)
    (htick : ∀ m : Core w, m.state = s → (t m).state = s ∧
      k (t m).counter = k m.counter + 1 ∧
      (t m).counter.frameHeight = m.counter.frameHeight)
    (hnext : ∀ m : Core w, m.state = s →
      m.next c false false = if k m.counter = k c then e (t m) else t m)
    (hleave : ∀ m : Core w, m.counter.frameHeight = H → Q (e m))
    {m : Core w} (hs : m.state = s) (hk : k m.counter = 1) (hH : m.counter.frameHeight = H) :
    Shows (Core.next c false false) (output c) m (List.replicate (span (k c)) y) Q := by
  rw [← counting_blank]
  refine Shows.count (P := fun v m => m.state = s ∧ k m.counter = v ∧ m.counter.frameHeight = H)
    (fun v m hm => hy m hm.1) ?_ ?_ ⟨hs, hk, hH⟩
  · intro v m hv ⟨hs, hk, hH⟩
    obtain ⟨hs', hk', hH'⟩ := htick m hs
    rw [hnext m hs, if_neg (hk ▸ hv)]
    exact ⟨hs', hk ▸ hk', hH'.trans hH⟩
  · intro m ⟨hs, hk, hH⟩
    obtain ⟨-, -, hH'⟩ := htick m hs
    rw [hnext m hs, if_pos hk]
    exact hleave _ (hH'.trans hH)

/-- The gap before the first row, entered with the configuration `c'`. -/
def lead (c' : Fields w) : Nat := if c'.frameLineBlank > 0 then span c.frameLineBlank else 0

theorem lead_self : lead c c = c.frameLineBlank.toNat := by
  unfold lead
  split
  · rename_i hz
    exact span_eq hz
  · rename_i hz
    rw [gt_iff_lt, BitVec.lt_def, not_lt] at hz
    exact (Nat.le_zero.mp hz).symm

theorem shows_lead (c' : Fields w) (m : Core w) :
    Shows (Core.next c false false) (output (p := p) c) (m.enterFrame c')
      (List.replicate (lead c c') blank) (Rows 0) := by
  unfold lead Core.enterFrame
  split
  · refine shows_blank c (s := .frameLineBlank) (k := (·.frameLineBlank))
      (t := fun m =>
        ⟨m.state, { m.counter with frameLineBlank := m.counter.frameLineBlank + 1 }⟩)
      (e := (Core.enterValid · 1)) ?_ (fun m hm => ⟨hm, rfl, rfl⟩) ?_
      (fun m _ => ⟨rfl, rfl, rfl⟩) rfl rfl rfl
    · intro m hm
      simp [output, hm]
    · intro m hm
      simp [Core.next, Core.busy, hm]
  · exact ⟨rfl, rfl, rfl⟩

theorem leaveValid_stage {i : Nat} (hi : i < c.frameHeight.toNat) {m : Core w}
    (hH : m.counter.frameHeight = BitVec.ofNat w (i + 1)) :
    Stage c (i + 1) (m.leaveValid c) := by
  have hlt := c.frameHeight.isLt
  have hto : m.counter.frameHeight.toNat = i + 1 := by
    rw [hH, BitVec.toNat_ofNat, Nat.mod_eq_of_lt (by omega)]
  unfold Stage Core.leaveValid
  by_cases hnext : i + 1 < c.frameHeight.toNat
  · have h : m.counter.frameHeight < c.frameHeight := by
      rw [BitVec.lt_def, hto]
      exact hnext
    rw [if_pos hnext, if_pos h]
    exact ⟨rfl, rfl, hH⟩
  · have h : ¬m.counter.frameHeight < c.frameHeight := by
      rw [BitVec.lt_def, hto]
      exact hnext
    have heq : m.counter.frameHeight = c.frameHeight :=
      BitVec.eq_of_toNat_eq (by omega)
    rw [if_neg hnext, if_neg h, if_pos heq, Behind]
    split
    · exact ⟨rfl, rfl⟩
    · exact ⟨rfl, rfl⟩

theorem shows_row {i : Nat} (hi : i < c.frameHeight.toNat) {m : Core w} (hm : Rows i m) :
    Shows (Core.next c false false) (output (p := p) c) m (row c i) (Stage c (i + 1)) := by
  have hrow : row (p := p) c i = counting 1 c.frameWidth fun v => pixel c i (v - 1).toNat := by
    apply List.map_congr_left
    intro j hj
    have hlt := (c.frameWidth - 1).isLt
    have hj := List.mem_range.mp hj
    show pixel c i j = pixel c i (1 + BitVec.ofNat w j - 1).toNat
    rw [BitVec.add_comm, BitVec.add_sub_cancel, BitVec.toNat_ofNat,
      Nat.mod_eq_of_lt (by rw [span] at hj; omega)]
  rw [hrow]
  refine Shows.count (P := fun v m => m.state = .valid ∧ m.counter.frameWidth = v ∧
    m.counter.frameHeight = BitVec.ofNat w (i + 1)) ?_ ?_ ?_ ⟨hm.state, hm.width, hm.height⟩
  · intro v m ⟨hs, hk, hH⟩
    have hlt := c.frameHeight.isLt
    refine output_valid c hs hH (by omega) ?_ (v - 1).isLt
    rw [hk, BitVec.ofNat_toNat, BitVec.setWidth_eq, BitVec.add_comm, BitVec.sub_add_cancel]
  · intro v m hv ⟨hs, hk, hH⟩
    refine ⟨?_, ?_, ?_⟩ <;> simp [Core.next, Core.busy, hs, hv, hk, hH]
  · intro m ⟨hs, hk, hH⟩
    have he : m.next c false false =
        Core.leaveValid c ⟨m.state, { m.counter with frameWidth := m.counter.frameWidth + 1 }⟩ := by
      simp [Core.next, Core.busy, hs, hk]
    rw [he]
    exact leaveValid_stage c hi hH

theorem shows_line {i : Nat} (hi : i < c.frameHeight.toNat) {m : Core w} (hm : Stage c i m) :
    Shows (Core.next c false false) (output (p := p) c) m (line c i) (Stage c (i + 1)) := by
  rw [Stage, if_pos hi] at hm
  obtain ⟨hs, hk, hH⟩ := hm
  refine Shows.append (P := Rows i) ?_ fun m hm => shows_row c hi hm
  refine shows_blank c (s := .lineLineBlank) (k := (·.lineLineBlank))
    (t := fun m =>
      ⟨m.state, { m.counter with lineLineBlank := m.counter.lineLineBlank + 1 }⟩)
    (e := fun m => m.enterValid (m.counter.frameHeight + 1)) ?_
    (fun m hm => ⟨hm, rfl, rfl⟩) ?_ ?_ hs hk hH
  · intro m hm
    simp [output, hm]
  · intro m hm
    simp [Core.next, Core.busy, hm]
  · intro m hm
    refine ⟨rfl, rfl, ?_⟩
    show m.counter.frameHeight + 1 = _
    rw [hm, BitVec.ofNat_add i 1]
    rfl

/-- The blank between frames, and the gap before the next first row. -/
theorem shows_between {m : Core w} (hs : m.state = .frameFrameBlank)
    (hk : m.counter.frameFrameBlank = 1) :
    Shows (Core.next c false false) (output (p := p) c) m
      (List.replicate (span c.frameFrameBlank) low ++
        List.replicate c.frameLineBlank.toNat blank) (Rows 0) := by
  refine Shows.append (P := fun m => ∃ m', m = Core.enterFrame c m') ?_ ?_
  · refine shows_blank c (s := .frameFrameBlank) (k := (·.frameFrameBlank))
      (t := fun m =>
        ⟨m.state, { m.counter with frameFrameBlank := m.counter.frameFrameBlank + 1 }⟩)
      (e := Core.enterFrame c) ?_ (fun m hm => ⟨hm, rfl, rfl⟩) ?_ (fun m _ => ⟨m, rfl⟩)
      hs hk rfl
    · intro m hm
      simp [output, hm]
    · intro m hm
      simp [Core.next, Core.busy, hm]
  · rintro _ ⟨m', rfl⟩
    rw [← lead_self]
    exact shows_lead c c m'

theorem shows_behind {m : Core w} (hm : Behind c m) :
    Shows (Core.next c false false) (output (p := p) c) m
      (List.replicate c.lineFrameBlank.toNat blank ++
        (List.replicate (span c.frameFrameBlank) low ++
          List.replicate c.frameLineBlank.toNat blank)) (Rows 0) := by
  unfold Behind at hm
  by_cases hz : c.lineFrameBlank > 0
  · rw [if_pos hz] at hm
    rw [← span_eq hz]
    refine Shows.append (P := fun m => m.state = .frameFrameBlank ∧ m.counter.frameFrameBlank = 1)
      ?_ fun m hm => shows_between c hm.1 hm.2
    refine shows_blank c (s := .lineFrameBlank) (k := (·.lineFrameBlank))
      (t := fun m =>
        ⟨m.state, { m.counter with lineFrameBlank := m.counter.lineFrameBlank + 1 }⟩)
      (e := fun m => ⟨.frameFrameBlank, { m.counter with frameFrameBlank := 1 }⟩)
      ?_ (fun m hm => ⟨hm, rfl, rfl⟩) ?_ (fun m _ => ⟨rfl, rfl⟩) hm.1 hm.2 rfl
    · intro m hm
      simp [output, hm]
    · intro m hm
      simp [Core.next, Core.busy, hm]
  · rw [if_neg hz] at hm
    have h0 : c.lineFrameBlank.toNat = 0 := by
      rw [gt_iff_lt, BitVec.lt_def, not_lt] at hz
      exact Nat.le_zero.mp hz
    rw [h0]
    exact shows_between c hm.1 hm.2

/-- **One period, and back to the first sample.** -/
theorem shows_period (hH : 0 < c.frameHeight) {m : Core w} (hm : Rows 0 m) :
    Shows (Core.next c false false) (output (p := p) c) m (period c) (Rows 0) := by
  have h0 : 0 < c.frameHeight.toNat := hH
  refine (shows_row c h0 hm).append fun m hm => ?_
  refine (Shows.flatMap (P := Stage c) ?_ hm).append ?_
  · intro i _ hi m hm
    exact shows_line c (by omega) hm
  · intro m hm
    rw [Stage, if_neg (by omega)] at hm
    exact shows_behind c hm

/-- With the height zero the first row has no end. -/
theorem shows_endless (hw : 0 < w) (hH : c.frameHeight = 0) {m : Core w} (hm : Rows 0 m) :
    Shows (Core.next c false false) (output (p := p) c) m
      ((List.range (2 ^ w)).map (pixel c 0)) (Rows 0) := by
  have hpow : 1 < 2 ^ w := Nat.one_lt_two_pow (by omega)
  have h1 : (1 : BitVec w).toNat = 1 := BitVec.toNat_one hw
  have hne : ¬(1 : BitVec w) = 0 := by
    intro h
    rw [← BitVec.toNat_inj, h1] at h
    exact absurd h Nat.one_ne_zero
  have hspan : ((0 : BitVec w) - 1).toNat + 1 = 2 ^ w := by
    rw [BitVec.toNat_sub, h1, show (0 : BitVec w).toNat = 0 from rfl, Nat.add_zero,
      Nat.mod_eq_of_lt (by omega)]
    omega
  have hrow : (List.range (2 ^ w)).map (pixel (p := p) c 0) =
      counting 1 0 fun v : BitVec w => pixel c 0 (v - 1).toNat := by
    rw [counting, hspan]
    apply List.map_congr_left
    intro j hj
    show pixel c 0 j = pixel c 0 (1 + BitVec.ofNat w j - 1).toNat
    rw [BitVec.add_comm, BitVec.add_sub_cancel, BitVec.toNat_ofNat,
      Nat.mod_eq_of_lt (List.mem_range.mp hj)]
  -- neither branch of `leaveValid` is taken
  have hstay : ∀ m : Core w, m.state = .valid → m.counter.frameHeight = 1 →
      m.next c false false =
        ⟨.valid, { m.counter with frameWidth := m.counter.frameWidth + 1 }⟩ := by
    intro m hs h
    have hlt : ¬(1 : BitVec w) < 0 := BitVec.not_lt_zero
    simp only [Core.next, Core.busy, hs, Core.leaveValid, h, hH, if_neg hlt, if_neg hne]
    simp
  rw [hrow]
  refine Shows.count (P := fun v m => m.state = .valid ∧ m.counter.frameWidth = v ∧
    m.counter.frameHeight = BitVec.ofNat w (0 + 1)) ?_ ?_ ?_ ⟨hm.state, hm.width, hm.height⟩
  · rintro v m ⟨hs, hk, h⟩
    refine output_valid c hs h hpow ?_ (v - 1).isLt
    rw [hk, BitVec.ofNat_toNat, BitVec.setWidth_eq, BitVec.add_comm, BitVec.sub_add_cancel]
  · rintro v m _ ⟨hs, hk, h⟩
    rw [hstay m hs h]
    exact ⟨rfl, hk ▸ rfl, h⟩
  · rintro m ⟨hs, hk, h⟩
    rw [hstay m hs h]
    refine ⟨rfl, ?_, h⟩
    show m.counter.frameWidth + 1 = 1
    rw [hk]
    exact BitVec.zero_add 1

/-- The outputs, `k` cycles after a first sample. -/
def signal (k : Nat) : Output p :=
  if c.frameHeight = 0 then pixel c 0 (k % 2 ^ w)
  else getElem (period c) (k % (period (p := p) c).length) (Nat.mod_lt k (period_pos c))

/-- **The core, left alone at a first sample.** -/
theorem follows_rows (hw : 0 < w) {m : Core w} (hm : Rows 0 m) (k : Nat) :
    output (p := p) c ((Core.next c false false)^[k] m) = signal c k := by
  unfold signal
  split
  · rename_i hH
    have hcycle := shows_cycle (f := Core.next c false false) (o := output (p := p) c)
      (l := (List.range (2 ^ w)).map (pixel c 0))
      (by rw [List.length_map, List.length_range]; exact Nat.two_pow_pos w)
      (fun _ => shows_endless c hw hH) hm k
    rw [hcycle, List.getElem_map, List.getElem_range, List.length_map, List.length_range]
  · rename_i hH
    have h0 : 0 < c.frameHeight := by
      rw [BitVec.lt_def]
      exact Nat.pos_of_ne_zero fun h => hH (BitVec.eq_of_toNat_eq h)
    exact shows_cycle (period_pos c) (fun _ => shows_period c h0) hm k

end Left

end CameraLcd.Sensor
