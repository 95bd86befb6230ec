import CameraLcd.Camera.BufferIndex
import CameraLcd.System.TripleBuffer

/-!
# One layout of the buffers, computed twice

`Camera_Master_Interface` finds the base of a zone by adding `Length_Frame` up to two times, in
each branch of its rotation.  `Master_Interface` multiplies `LengthBuffer(29 downto 0)` by the two
bits of `Buffer_Saved`, and by `Buffer_Saved + 1` for the end.

* `timesLength_eq_iff` — **for which lengths and zones the truncated product is right**.
* `sharedLayout` — the two units agree on all bounds below a length of 2^30, and from there on
  they do not.
* `session_bounds` — what that means for a run: a session of the display reads the buffer in
  which the frame published last was written.
-/

set_option autoImplicit false

namespace CameraLcd.BufferLayout

open CameraMaster (bufferBase)

/-- `LengthBuffer(29 downto 0)` loses the two high bits of the length; the product is right when
they are multiplied away. -/
theorem timesLength_eq_iff (l : BitVec 32) (z : BitVec 2) :
    LcdMaster.timesLength l z = z.setWidth 32 * l ↔
      z.toNat * (l.toNat / 0x40000000) % 4 = 0 := by
  have hl : l.toNat < 0x100000000 := l.isLt
  have hz : z.toNat < 4 := z.isLt
  rw [← BitVec.toNat_inj]
  simp only [LcdMaster.timesLength, BitVec.toNat_mul, BitVec.toNat_setWidth,
    BitVec.extractLsb'_toNat, Nat.shiftRight_zero]
  generalize l.toNat = n at hl ⊢
  generalize z.toNat = k at hz ⊢
  obtain rfl | rfl | rfl | rfl : k = 0 ∨ k = 1 ∨ k = 2 ∨ k = 3 := by omega
  · simp
  · omega
  · omega
  · omega

/-! ## The bounds that the units load -/

section Defs

variable (a l : BitVec 32) (z : BitVec 2)

/-- The camera's unit completes a frame and its rotation selects zone `z`. -/
structure Selects (r : CameraMaster.Regs) (i : CameraMaster.Inputs) : Prop where
  state : r.state = .idleForReady
  ready : i.ready = true
  newFrame : CameraMaster.newFrame r i = true
  address : i.address = a
  lengthFrame : i.lengthFrame = l
  zone : (CameraMaster.clock r i).indiceMemoryZone = z

/-- The display's unit is in `Copy` with zone `z` in `Buffer_Saved`. -/
structure Copies (r : LcdMaster.Regs) (i : LcdMaster.Inputs) : Prop where
  state : r.state = .copy
  startAdd : i.startAdd = a
  lengthBuffer : i.lengthBuffer = l
  bufferSaved : i.bufferSaved = z

/-- Both units start zone `z` at the same address. -/
def SameBase : Prop := ∀ cam camIn lcd lcdIn, Selects a l z cam camIn → Copies a l z lcd lcdIn →
  (LcdMaster.clock lcd lcdIn).add = (CameraMaster.clock cam camIn).baseAddress

/-- The display ends zone `z` a length behind the camera's base. -/
def SameEnd : Prop := ∀ cam camIn lcd lcdIn, Selects a l z cam camIn → Copies a l z lcd lcdIn →
  (LcdMaster.clock lcd lcdIn).endAdd = (CameraMaster.clock cam camIn).baseAddress + l

/-- Both units start zone `z` at different addresses. -/
def OtherBase : Prop := ∀ cam camIn lcd lcdIn, Selects a l z cam camIn → Copies a l z lcd lcdIn →
  (LcdMaster.clock lcd lcdIn).add ≠ (CameraMaster.clock cam camIn).baseAddress

end Defs

section Units

variable {a l : BitVec 32} {z : BitVec 2}

/-- Every branch of the rotation adds the length as often as the zone says. -/
theorem Selects.base {r : CameraMaster.Regs} {i : CameraMaster.Inputs} (h : Selects a l z r i) :
    (CameraMaster.clock r i).baseAddress = bufferBase a l z := by
  obtain ⟨hs, hr, hn, rfl, rfl, rfl⟩ := h
  obtain ⟨-, -, -, hrot⟩ := (CameraMaster.clock_edge r i).of_publish hs hr hn
  have hbase := CameraMaster.rotate_base i.displayBuffer r.indiceMemoryZone i.address i.lengthFrame
  rw [← hrot] at hbase
  exact hbase

theorem Copies.bounds {r : LcdMaster.Regs} {i : LcdMaster.Inputs} (h : Copies a l z r i) :
    (LcdMaster.clock r i).add = LcdMaster.startOf i ∧
      (LcdMaster.clock r i).endAdd = LcdMaster.endOf i := by
  rw [LcdMaster.clock_copy h.state]
  exact ⟨rfl, rfl⟩

theorem Copies.startOf {r : LcdMaster.Regs} {i : LcdMaster.Inputs} (h : Copies a l z r i) :
    LcdMaster.startOf i = a + LcdMaster.timesLength l z := by
  unfold LcdMaster.startOf
  rw [h.startAdd, h.lengthBuffer, h.bufferSaved]

theorem selects_exists (a l : BitVec 32) (hz : z ≠ 3) : ∃ r i, Selects a l z r i := by
  have hbranch : ∃ d z0 : BitVec 2, (CameraMaster.rotate d z0 0 0).1 = z := by
    revert z
    decide
  obtain ⟨d, z0, hzone⟩ := hbranch
  refine ⟨{ CameraMaster.reset 0 with offsetAddress := l, indiceMemoryZone := z0 },
    ⟨a, l, true, d, false, 0, false⟩, rfl, rfl, ?_, rfl, rfl, ?_⟩
  · simp [CameraMaster.newFrame]
  · rw [← CameraMaster.rotate_zone d z0 a l] at hzone
    simpa [CameraMaster.clock, CameraMaster.reset, CameraMaster.idleForReady,
      CameraMaster.newFrame] using hzone

theorem copies_exists (a l : BitVec 32) (z : BitVec 2) : ∃ r i, Copies a l z r i :=
  ⟨{ LcdMaster.reset with state := .copy },
    ⟨false, false, 0, a, l, z, false, false, false, false⟩, rfl, rfl, rfl, rfl⟩

/-- The bases of zone `z` are equal when the high bits of the length are multiplied away. -/
theorem base_eq_iff {cam : CameraMaster.Regs} {camIn : CameraMaster.Inputs} {lcd : LcdMaster.Regs}
    {lcdIn : LcdMaster.Inputs} (hs : Selects a l z cam camIn) (hc : Copies a l z lcd lcdIn) :
    (LcdMaster.clock lcd lcdIn).add = (CameraMaster.clock cam camIn).baseAddress ↔
      z.toNat * (l.toNat / 0x40000000) % 4 = 0 := by
  rw [hs.base, hc.bounds.1, hc.startOf, bufferBase, BitVec.add_right_inj]
  exact timesLength_eq_iff l z

theorem otherBase_one (hl : 0x40000000 ≤ l.toNat) (a : BitVec 32) : OtherBase a l 1 := by
  intro cam camIn lcd lcdIn hs hc h
  have hzero := (base_eq_iff hs hc).mp h
  have hlt : l.toNat < 0x100000000 := l.isLt
  rw [show (1 : BitVec 2).toNat = 1 from rfl, Nat.one_mul] at hzero
  omega

/-- Below 2^30 nothing is lost, and `Buffer_Saved + 1` does not wrap for a zone. -/
theorem Copies.bounds_of_lt {r : LcdMaster.Regs} {i : LcdMaster.Inputs} (h : Copies a l z r i)
    (hl : l.toNat < 0x40000000) (hz : z ≠ 3) :
    (LcdMaster.clock r i).add = bufferBase a l z ∧
      (LcdMaster.clock r i).endAdd = bufferBase a l z + l := by
  have hproduct : LcdMaster.timesLength l z = z.setWidth 32 * l := by
    rw [timesLength_eq_iff, Nat.div_eq_of_lt hl]
    simp
  have hstart : LcdMaster.startOf i = bufferBase a l z := by
    rw [h.startOf, hproduct, bufferBase]
  obtain ⟨hadd, hend⟩ := h.bounds
  have hle : i.bufferSaved.toNat ≤ 2 := by
    rw [h.bufferSaved]
    bv_omega
  rw [hadd, hend, LcdMaster.endOf_eq (by rw [h.lengthBuffer]; exact hl) hle, hstart,
    h.lengthBuffer, BitVec.ofNat_toNat, BitVec.setWidth_eq]
  exact ⟨rfl, rfl⟩

theorem same_of_lt (hl : l.toNat < 0x40000000) (a : BitVec 32) (hz : z ≠ 3) :
    SameBase a l z ∧ SameEnd a l z := by
  constructor
  · intro cam camIn lcd lcdIn hs hc
    rw [hs.base, (hc.bounds_of_lt hl hz).1]
  · intro cam camIn lcd lcdIn hs hc
    rw [hs.base, (hc.bounds_of_lt hl hz).2]

end Units

/-- **What the two units make of one address and one length.** -/
structure SharedLayout (a l : BitVec 32) : Prop where
  /-- Each of the three zones is selected and copied in some state. -/
  occurs : ∀ z, z ≠ 3 → (∃ r i, Selects a l z r i) ∧ ∃ r i, Copies a l z r i
  agrees : l.toNat < 0x40000000 → ∀ z, z ≠ 3 → SameBase a l z ∧ SameEnd a l z
  parts : 0x40000000 ≤ l.toNat → ∃ z, z ≠ 3 ∧ OtherBase a l z

/-- **The units compute the same bounds below 2^30 and part there.** -/
theorem sharedLayout (a l : BitVec 32) : SharedLayout a l where
  occurs := fun z hz => ⟨selects_exists a l hz, copies_exists a l z⟩
  agrees := fun hl _ hz => same_of_lt hl a hz
  parts := fun hl => ⟨1, by decide, otherBase_one hl a⟩

/-! ## Both units in a run -/

section Runs

variable {address length : BitVec 32} {inp : Nat → TripleBuffer.Inputs}

/-- What the camera's unit sees of a run of both. -/
def stream (address length : BitVec 32) (inp : Nat → TripleBuffer.Inputs) (n : Nat) :
    CameraMaster.Inputs :=
  TripleBuffer.cameraInputs address length (TripleBuffer.regs address length inp n) (inp n)

theorem camera_run (address length : BitVec 32) (inp : Nat → TripleBuffer.Inputs) : ∀ n,
    (TripleBuffer.regs address length inp n).camera =
      CameraMaster.regs 0 (stream address length inp) n
  | 0 => rfl
  | n + 1 => by
    show CameraMaster.clock (TripleBuffer.regs address length inp n).camera _ =
      CameraMaster.clock _ _
    rw [camera_run address length inp n]
    rfl

theorem completes_iff (n : Nat) :
    TripleBuffer.Completes length (TripleBuffer.regs address length inp n) ↔
      CameraMaster.Publishes 0 (stream address length inp) n := by
  unfold TripleBuffer.Completes CameraMaster.Publishes CameraMaster.newFrame
  rw [camera_run]
  simp [stream, TripleBuffer.cameraInputs]

/-- **Run lemma**: behind its first frame the camera's unit has the base of its zone. -/
theorem base_run {m n : Nat} (hmn : m < n)
    (hm : CameraMaster.Publishes 0 (stream address length inp) m) :
    (CameraMaster.regs 0 (stream address length inp) n).baseAddress = bufferBase address length
      (CameraMaster.regs 0 (stream address length inp) n).indiceMemoryZone := by
  induction n, hmn using Nat.le_induction with
  | base => exact CameraMaster.publish_base hm rfl rfl
  | succ n _ ih =>
    by_cases hpub : CameraMaster.Publishes 0 (stream address length inp) n
    · exact CameraMaster.publish_base hpub rfl rfl
    · -- `Ready` is high: nothing but a publication loads the base
      rw [CameraMaster.base_succ hpub fun _ => rfl, (CameraMaster.zone_succ hpub).1]
      exact ih

/-- **A session of the display reads the buffer in which the frame published last was written**:
its bounds are the base of that frame and the base plus the length. -/
theorem session_bounds (hl : length.toNat < 0x40000000) {p m n : Nat} (hpm : p < m) (hmn : m < n)
    (hp : TripleBuffer.Completes length (TripleBuffer.regs address length inp p))
    (hm : TripleBuffer.Completes length (TripleBuffer.regs address length inp m))
    (hlast : ∀ k, m < k → k < n →
      ¬ TripleBuffer.Completes length (TripleBuffer.regs address length inp k))
    (hcopy : (TripleBuffer.regs address length inp n).lcd.state = .copy) :
    (TripleBuffer.regs address length inp (n + 1)).lcd.add =
        (TripleBuffer.regs address length inp m).camera.baseAddress ∧
      (TripleBuffer.regs address length inp (n + 1)).lcd.endAdd =
        (TripleBuffer.regs address length inp m).camera.baseAddress + length := by
  rw [completes_iff] at hp hm
  have hsaved : (TripleBuffer.regs address length inp n).camera.bufferSaved =
      (CameraMaster.regs 0 (stream address length inp) m).indiceMemoryZone := by
    rw [camera_run, CameraMaster.saved_between hmn fun k h1 h2 => ?_]
    · exact (CameraMaster.publish_succ hm).1
    · rw [← completes_iff]
      exact hlast k h1 h2
  have hcopies : Copies address length
      (CameraMaster.regs 0 (stream address length inp) m).indiceMemoryZone
      (TripleBuffer.regs address length inp n).lcd
      (TripleBuffer.lcdInputs address length (TripleBuffer.regs address length inp n) (inp n)) :=
    ⟨hcopy, rfl, rfl, hsaved⟩
  rw [camera_run, base_run hpm hp]
  exact hcopies.bounds_of_lt hl (CameraMaster.zone_ne_three m)

end Runs

end CameraLcd.BufferLayout
