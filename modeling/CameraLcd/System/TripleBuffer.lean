import CameraLcd.Camera.Master
import CameraLcd.Lcd.Master

/-!
# Triple buffering

The camera's master and the display's master on one clock, wired as in
`DE0_Nano_SoC_TRDB_D5M_LT24_top_level.vhd`: `Buffer_Saved` of the camera goes to the display and
`Display_Buffer` of the display comes back to the camera.  Both are programmed with the same
address and length, and `Ready` is high.

* `tearing_iff` — after the camera's first complete frame the buffer being filled differs from
  the buffer being displayed in every cycle, unless the run goes through a `Race`: the camera
  completes a frame in the very cycle in which the display leaves `Copy` with an index that
  `Display_Buffer` does not show yet.
* `torn_run` — a run that goes through a race and tears.
-/

set_option autoImplicit false

namespace CameraLcd.TripleBuffer

open Clocked

structure Regs where
  camera : CameraMaster.Regs
  lcd : LcdMaster.Regs

/-- The inputs that neither master drives. -/
structure Inputs where
  fifoDataAvailable : Bool
  fifoReadData : BitVec 32
  amWaitRequest : Bool
  avmWaitRequest : Bool
  avmReadDataValid : Bool
  avmReadData : BitVec 32
  write16 : Bool
  masterStart : Bool
  fullFifo : Bool
  emptyFifo : Bool

/-- What the camera's master sees; `address` and `length` are the programmed registers. -/
def cameraInputs (address length : BitVec 32) (s : Regs) (i : Inputs) : CameraMaster.Inputs where
  address := address
  lengthFrame := length
  ready := true
  displayBuffer := LcdMaster.displayBuffer s.lcd
  fifoDataAvailable := i.fifoDataAvailable
  fifoReadData := i.fifoReadData
  amWaitRequest := i.amWaitRequest

/-- What the display's master sees. -/
def lcdInputs (address length : BitVec 32) (s : Regs) (i : Inputs) : LcdMaster.Inputs where
  avmWaitRequest := i.avmWaitRequest
  avmReadDataValid := i.avmReadDataValid
  avmReadData := i.avmReadData
  startAdd := address
  lengthBuffer := length
  bufferSaved := s.camera.bufferSaved
  write16 := i.write16
  masterStart := i.masterStart
  fullFifo := i.fullFifo
  emptyFifo := i.emptyFifo

/-- One clock edge of both masters. -/
def step (address length : BitVec 32) (s : Regs) (i : Inputs) : Regs where
  camera := CameraMaster.clock s.camera (cameraInputs address length s i)
  lcd := LcdMaster.clock s.lcd (lcdInputs address length s i)

/-- Both masters from reset on, `Buffer_Saved` powered up as 00. -/
def machine (address length : BitVec 32) : Machine Regs Inputs where
  init := ⟨CameraMaster.reset 0, LcdMaster.reset⟩
  step := step address length

/-- The camera completes a frame in this cycle: it publishes the index of the buffer it has
filled and turns to another one. -/
def Completes (length : BitVec 32) (s : Regs) : Prop :=
  s.camera.state = .idleForReady ∧ s.camera.offsetAddress ≥ length

instance (length : BitVec 32) (s : Regs) : Decidable (Completes length s) :=
  inferInstanceAs (Decidable (_ ∧ _))

/-- The zone after `z` in the cycle 0, 1, 2. -/
def succZone (z : BitVec 2) : BitVec 2 := if z = 2 then 0 else z + 1

/-- The display leaves `Copy`, latching `Buffer_Saved`, in the cycle in which the camera picks
its next buffer, and `Display_Buffer` still shows another index; the rotation then picks the
latched buffer, unless the camera was filling the displayed buffer and the latched one is not
next in turn. -/
def Race (length : BitVec 32) (s : Regs) (i : Inputs) : Prop :=
  s.lcd.state = .copy ∧ i.emptyFifo = true ∧ Completes length s ∧
    s.camera.bufferSaved ≠ s.lcd.bufferUsed ∧
    (s.camera.indiceMemoryZone ≠ s.lcd.bufferUsed ∨
      s.camera.bufferSaved = succZone s.lcd.bufferUsed)

/-- **When the rotation picks the published buffer.** -/
theorem rotate_eq_saved (d z s : BitVec 2) (a l : BitVec 32) (hd : d ≠ 3) (hz : z ≠ 3) (hs : s ≠ 3)
    (hsz : s ≠ z) :
    (CameraMaster.rotate d z a l).1 = s ↔ s ≠ d ∧ (z ≠ d ∨ s = succZone d) := by
  rw [CameraMaster.rotate_zone]
  revert d z s
  decide

/-! ## The invariant -/

/-- The three indices are buffers, and either no frame is complete yet and all are still 0, or
the published buffer is not the one being filled and neither is the one being displayed. -/
structure Inv (completed : Prop) (s : Regs) : Prop where
  zone : s.camera.indiceMemoryZone ≠ 3
  saved : s.camera.bufferSaved ≠ 3
  used : s.lcd.bufferUsed ≠ 3
  before : ¬ completed →
    s.camera.indiceMemoryZone = 0 ∧ s.camera.bufferSaved = 0 ∧ s.lcd.bufferUsed = 0
  published : completed → s.camera.bufferSaved ≠ s.camera.indiceMemoryZone
  untorn : completed → LcdMaster.Reading s.lcd → s.camera.indiceMemoryZone ≠ s.lcd.bufferUsed

section Step

variable (address length : BitVec 32) {s : Regs} (i : Inputs)

theorem camera_completes (h : Completes length s) :
    (step address length s i).camera.bufferSaved = s.camera.indiceMemoryZone ∧
      (step address length s i).camera.indiceMemoryZone =
        (CameraMaster.rotate s.lcd.bufferUsed s.camera.indiceMemoryZone address length).1 := by
  have hn : CameraMaster.newFrame s.camera (cameraInputs address length s i) = true := by
    simpa [CameraMaster.newFrame, cameraInputs] using h.2
  have hclock : CameraMaster.clock s.camera (cameraInputs address length s i) =
      CameraMaster.idleForReady s.camera (cameraInputs address length s i) := by
    simp only [CameraMaster.clock, h.1]
  unfold step
  rw [hclock]
  simp only [CameraMaster.idleForReady, hn]
  exact ⟨rfl, rfl⟩

theorem camera_continues (h : ¬ Completes length s) :
    (step address length s i).camera.bufferSaved = s.camera.bufferSaved ∧
      (step address length s i).camera.indiceMemoryZone = s.camera.indiceMemoryZone := by
  have he := CameraMaster.clock_edge s.camera (cameraInputs address length s i)
  change CameraMaster.Edge _ _ (step address length s i).camera at he
  generalize (step address length s i).camera = c at he
  cases he with
  | publish hs _ hn =>
    exact absurd ⟨hs, by simpa [CameraMaster.newFrame, cameraInputs] using hn⟩ h
  | sendInit => exact ⟨rfl, rfl⟩
  | stop | resume | await | fetch | abort | clockWait | collect | collectRelease | collectLast
  | stall | beat | lastBeat => exact ⟨rfl, rfl⟩

theorem lcd_edge (s : Regs) :
    (LcdMaster.Reading s.lcd ∧ (step address length s i).lcd.bufferUsed = s.lcd.bufferUsed) ∨
      (s.lcd.state = .init ∧ (step address length s i).lcd.bufferUsed = 0 ∧
        ¬ LcdMaster.Reading (step address length s i).lcd) ∨
      (s.lcd.state = .copy ∧
        (step address length s i).lcd.bufferUsed = s.camera.bufferSaved ∧
        (LcdMaster.Reading (step address length s i).lcd ↔ i.emptyFifo = true)) := by
  by_cases hinit : s.lcd.state = .init
  · right; left
    refine ⟨hinit, by simp [step, LcdMaster.clock_init hinit], ?_⟩
    simp only [step, LcdMaster.clock_init hinit, LcdMaster.Reading]
    split <;> simp
  · by_cases hcopy : s.lcd.state = .copy
    · right; right
      refine ⟨hcopy, by simp [step, LcdMaster.clock_copy hcopy, lcdInputs], ?_⟩
      simp only [step, LcdMaster.clock_copy hcopy, LcdMaster.Reading, lcdInputs]
      cases i.emptyFifo <;> simp
    · left
      exact ⟨⟨hinit, hcopy⟩, LcdMaster.bufferUsed_reading _ ⟨hinit, hcopy⟩⟩

theorem used_edge {c : Prop} (h : Inv c s) : (step address length s i).lcd.bufferUsed ≠ 3 := by
  rcases lcd_edge address length i s with
    ⟨_, hu⟩ | ⟨_, hu, _⟩ | ⟨_, hu, _⟩
  · rw [hu]; exact h.used
  · rw [hu]; decide
  · rw [hu]; exact h.saved

/-- The edge that completes a frame keeps the invariant unless it is a race. -/
theorem inv_completes {c : Prop} (h : Inv c s) (hc : Completes length s)
    (hr : ¬ Race length s i) : Inv True (step address length s i) := by
  obtain ⟨hsaved, hzone⟩ := camera_completes address length i hc
  obtain ⟨hz, hd, h3⟩ := CameraMaster.rotate_avoids s.lcd.bufferUsed s.camera.indiceMemoryZone
    address length h.used h.zone
  refine ⟨by rwa [hzone], by rw [hsaved]; exact h.zone, used_edge address length i h,
    fun hn => absurd trivial hn, fun _ => by rw [hsaved, hzone]; exact hz.symm, fun _ hread => ?_⟩
  rw [hzone]
  rcases lcd_edge address length i s with
    ⟨_, hu⟩ | ⟨_, _, hn⟩ | ⟨hcopy, hu, he⟩
  · rw [hu]; exact hd
  · exact absurd hread hn
  · rw [hu]
    intro heq
    by_cases hcomp : c
    · have hne := h.published hcomp
      have hcond := (rotate_eq_saved _ _ _ address length h.used h.zone h.saved hne).mp heq
      exact hr ⟨hcopy, he.mp hread, hc, hcond⟩
    · obtain ⟨_, hs0, hu0⟩ := h.before hcomp
      rw [hs0, ← hu0] at heq
      exact hd heq

theorem inv_continues {c : Prop} (h : Inv c s) (hc : ¬ Completes length s) :
    Inv c (step address length s i) := by
  obtain ⟨hsaved, hzone⟩ := camera_continues address length i hc
  have hlcd := lcd_edge address length i s
  refine ⟨by rw [hzone]; exact h.zone, by rw [hsaved]; exact h.saved,
    used_edge address length i h, fun hn => ?_,
    fun hcomp => by rw [hsaved, hzone]; exact h.published hcomp, fun hcomp hread => ?_⟩
  · obtain ⟨hz0, hs0, hu0⟩ := h.before hn
    refine ⟨by rw [hzone, hz0], by rw [hsaved, hs0], ?_⟩
    rcases hlcd with ⟨_, hu⟩ | ⟨_, hu, _⟩ | ⟨_, hu, _⟩
    · rw [hu, hu0]
    · exact hu
    · rw [hu, hs0]
  · rw [hzone]
    rcases hlcd with ⟨hread', hu⟩ | ⟨_, _, hn⟩ | ⟨_, hu, _⟩
    · rw [hu]; exact h.untorn hcomp hread'
    · exact absurd hread hn
    · rw [hu]; exact (h.published hcomp).symm

/-- A race tears at once: the display starts to read the buffer the camera turns to. -/
theorem race_tears {c : Prop} (h : Inv c s) (hr : Race length s i) :
    LcdMaster.Reading (step address length s i).lcd ∧
      (step address length s i).camera.indiceMemoryZone =
        (step address length s i).lcd.bufferUsed := by
  obtain ⟨hcopy, hempty, hc, hne, hcond⟩ := hr
  obtain ⟨_, hzone⟩ := camera_completes address length i hc
  have hcomp : c := by
    refine Classical.byContradiction fun hn => ?_
    obtain ⟨_, hs0, hu0⟩ := h.before hn
    exact hne (by rw [hs0, hu0])
  rcases lcd_edge address length i s with
    ⟨hread, _⟩ | ⟨hinit, _⟩ | ⟨_, hu, he⟩
  · exact absurd hcopy hread.2
  · rw [hcopy] at hinit
    cases hinit
  · refine ⟨he.mpr hempty, ?_⟩
    rw [hzone, hu]
    exact (rotate_eq_saved _ _ _ address length h.used h.zone h.saved (h.published hcomp)).mpr
      ⟨hne, hcond⟩

end Step

/-! ## Runs -/

section Runs

variable (address length : BitVec 32) (inp : Nat → Inputs)

/-- Both masters in cycle `n`. -/
abbrev regs (n : Nat) : Regs := (machine address length).run inp n

/-- The camera has completed a frame before cycle `n`. -/
def Completed (n : Nat) : Prop := ∃ m < n, Completes length (regs address length inp m)

/-- In cycle `n` the buffer being filled is not the one being displayed. -/
def Untorn (n : Nat) : Prop :=
  LcdMaster.Reading (regs address length inp n).lcd →
    (regs address length inp n).camera.indiceMemoryZone ≠ (regs address length inp n).lcd.bufferUsed

variable {address length inp}

theorem completed_succ (n : Nat) :
    Completed address length inp (n + 1) ↔
      Completed address length inp n ∨ Completes length (regs address length inp n) := by
  constructor
  · rintro ⟨m, hm, hc⟩
    rcases Nat.lt_succ_iff_lt_or_eq.mp hm with h | rfl
    · exact Or.inl ⟨m, h, hc⟩
    · exact Or.inr hc
  · rintro (⟨m, hm, hc⟩ | hc)
    · exact ⟨m, by omega, hc⟩
    · exact ⟨n, by omega, hc⟩

theorem inv_run (n : Nat) (h : ∀ m < n, ¬ Race length (regs address length inp m) (inp m)) :
    Inv (Completed address length inp n) (regs address length inp n) := by
  induction n with
  | zero =>
    have hn : ¬ Completed address length inp 0 := by rintro ⟨m, hm, _⟩; omega
    have h3 : (0 : BitVec 2) ≠ 3 := by decide
    exact ⟨h3, h3, h3, fun _ => ⟨rfl, rfl, rfl⟩, fun hc => absurd hc hn, fun hc => absurd hc hn⟩
  | succ n ih =>
    have hinv := ih fun m hm => h m (by omega)
    by_cases hc : Completes length (regs address length inp n)
    · rw [show Completed address length inp (n + 1) = True from
        eq_true ((completed_succ n).mpr (Or.inr hc))]
      exact inv_completes address length (inp n) hinv hc (h n (by omega))
    · rw [show Completed address length inp (n + 1) = Completed address length inp n from
        propext ((completed_succ n).trans (or_iff_left hc))]
      exact inv_continues address length (inp n) hinv hc

end Runs

/-- **No tearing iff no race.**  For every address, length and input stream: in every cycle
after the first completed frame the buffer being filled differs from the buffer being displayed
if and only if no cycle of the run is a race. -/
theorem tearing_iff (address length : BitVec 32) (inp : Nat → Inputs) :
    (∀ n, Completed address length inp n → Untorn address length inp n) ↔
      ∀ n, ¬ Race length (regs address length inp n) (inp n) := by
  constructor
  · intro h n
    induction n using Nat.strong_induction_on with
    | h n ih =>
      intro hr
      obtain ⟨hread, heq⟩ := race_tears address length (inp n) (inv_run n ih) hr
      exact h (n + 1) ⟨n, by omega, hr.2.2.1⟩ hread heq
  · intro h n hc
    exact (inv_run n fun m _ => h m).untorn hc

/-- Words in the camera's FIFO throughout and no stalls; the display is started in cycle 56. -/
def startAt56 (n : Nat) : Inputs where
  fifoDataAvailable := false
  fifoReadData := 0
  amWaitRequest := false
  avmWaitRequest := false
  avmReadDataValid := false
  avmReadData := 0
  write16 := false
  masterStart := n == 56
  fullFifo := false
  emptyFifo := true

/-- **Failing input**: with frames of one burst the camera completes its third frame in cycle 57,
while the display is in its one `Copy` cycle.  The display latches buffer 1 and the camera,
which sees `Display_Buffer = 00`, turns to buffer 1 as well. -/
theorem torn_run :
    ¬ ∀ (address length : BitVec 32) (inp : Nat → Inputs) (n : Nat),
      Completed address length inp n → Untorn address length inp n := by
  intro h
  have hc : Completes 32 (regs 0 32 startAt56 19) := by decide
  have hread : LcdMaster.Reading (regs 0 32 startAt56 58).lcd := by decide
  exact absurd (h 0 32 startAt56 58 ⟨19, by decide, hc⟩ hread) (by decide)

end CameraLcd.TripleBuffer
