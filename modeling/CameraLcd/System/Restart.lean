import CameraLcd.Camera.Slave
import CameraLcd.Camera.LineBuffer

/-!
# `Top_Level` across a stop and a restart

The acquisition module is clocked by `PLL_Camera`, whose reset is `Reset_H = not Ready` once
`Reset_n` is high.  The PLL gives no edges while its reset is high, so the branch `if Ready='0'` at
the end of `Camera_Acq` is never clocked: a stop freezes the module in the state it is in.

The clocks of the two domains and the camera are independent; a run is a sequence of events, each
an edge of one of the clocks and the lines of the camera at that time.

* `idle_invalid` — in `Idle_Frame` no pixel is valid.
* `waiting_run` — from a restart in `Idle_Frame` with nothing remembered, no pixel is written until
  a rising edge of `FVAL` is seen that happened after the restart.
* `wholeFrames_iff` — whatever comes after a restart only whole frames are captured, if and only
  if the restart finds `Idle_Frame`, and `FVAL` low or remembered high.
* `restart_inside_frame` — a stop in the middle of a frame and a restart.
-/

set_option autoImplicit false

namespace CameraLcd.TopLevel

open Clocked
open Acquisition (Sample Module active blanking)

/-- An edge of `Clk_FPGA` with the access of its cycle, or an edge of the camera clock at the
output of the PLL. -/
inductive Edge where
  | fpga (access : CameraSlave.Access)
  | pllFall
  | pllRise
  deriving DecidableEq, Repr

/-- An edge, and what the camera shows. -/
structure Event where
  edge : Edge
  camera : Sample
  deriving DecidableEq, Repr

/-- `Slave_Interface_inst` and `Acquisition_module_inst`. -/
structure Regs where
  slave : CameraSlave.Regs
  acquisition : Module
  deriving DecidableEq, Repr

/-- `Ready`. -/
def ready (s : Regs) : Bool := s.slave.iRegCamStart

/-- `Reset_H`: `rst` of the PLL and `aclr` of the FIFOs, `Reset_n` being high. -/
def resetH (s : Regs) : Bool := !ready s

/-- The effect of an event.  While `rst` is high the PLL has no edges. -/
def step (s : Regs) (e : Event) : Regs :=
  match e.edge with
  | .fpga a => { s with slave := CameraSlave.clock s.slave a }
  | .pllFall =>
    if resetH s then s else { s with acquisition := s.acquisition.fall ⟨ready s, e.camera⟩ }
  | .pllRise => if resetH s then s else { s with acquisition := s.acquisition.rise }

/-- From reset on; the outputs without a reset have any value. -/
def machine (avsReadData : BitVec 32) (q : BitVec 16) : Machine Regs Event where
  init := ⟨CameraSlave.reset avsReadData, Module.init q⟩
  step := step

section Defs

variable (rd : BitVec 32) (q : BitVec 16) (ev : Nat → Event)

/-- The registers before event `n`. -/
abbrev regs (n : Nat) : Regs := (machine rd q).run ev n

/-- `FVAL` at event `n`. -/
def fval (n : Nat) : Bool := (ev n).camera.fval

/-- `FVAL` goes from low to high between the events `i - 1` and `i`. -/
def FvalRises (i : Nat) : Prop := risingEdge (fval ev) i = true

/-- A frame begins: the process leaves `Idle_Frame` with event `n`. -/
def FrameBegins (n : Nat) : Prop :=
  (ev n).edge = .pllFall ∧ ready (regs rd q ev n) = true ∧
    (regs rd q ev n).acquisition.regs.state = .idleFrame ∧
    (regs rd q ev n).acquisition.regs.fvalPrevious = false ∧ fval ev n = true

/-- A pixel is written to `FIFO_Inter_Clock_Domain` with event `n`. -/
def PixelWrite (n : Nat) : Prop :=
  (ev n).edge = .pllRise ∧ resetH (regs rd q ev n) = false ∧
    (regs rd q ev n).acquisition.regs.pixelValidOut = true

/-- Event `r` sets the Start register. -/
def Restart (r : Nat) : Prop :=
  ready (regs rd q ev r) = false ∧ ready (regs rd q ev (r + 1)) = true

/-- **Only whole frames after the restart `r`**: before a pixel is written a frame begins, with a
rising edge of `FVAL` that happened after the restart, line number 0 and an empty line FIFO. -/
def WholeFrames (r : Nat) : Prop :=
  ∀ w, r < w → PixelWrite rd q ev w → ∃ j < w, ∃ i ≤ j, r < i ∧ FvalRises ev i ∧
    FrameBegins rd q ev j ∧ (regs rd q ev (j + 1)).acquisition.regs.lineNumber = 0 ∧
    (regs rd q ev (j + 1)).acquisition.lineFifo.words = []

end Defs

instance (ev : Nat → Event) (i : Nat) : Decidable (FvalRises ev i) :=
  inferInstanceAs (Decidable (_ = _))

instance (rd : BitVec 32) (q : BitVec 16) (ev : Nat → Event) (n : Nat) :
    Decidable (FrameBegins rd q ev n) := inferInstanceAs (Decidable (_ ∧ _))

instance (rd : BitVec 32) (q : BitVec 16) (ev : Nat → Event) (n : Nat) :
    Decidable (PixelWrite rd q ev n) := inferInstanceAs (Decidable (_ ∧ _))

instance (rd : BitVec 32) (q : BitVec 16) (ev : Nat → Event) (n : Nat) :
    Decidable (Restart rd q ev n) := inferInstanceAs (Decidable (_ ∧ _))

/-! ## What an event does -/

section Steps

variable {s : Regs} {e : Event}

/-- An event of the FPGA clock leaves the acquisition alone, and so does the PLL in reset. -/
theorem step_cases (s : Regs) (e : Event) :
    (step s e).acquisition = s.acquisition ∨
      (e.edge = .pllFall ∧ ready s = true ∧
        (step s e).acquisition = s.acquisition.fall ⟨true, e.camera⟩) ∨
      (e.edge = .pllRise ∧ ready s = true ∧ (step s e).acquisition = s.acquisition.rise) := by
  unfold step
  cases he : e.edge with
  | fpga a => exact Or.inl rfl
  | pllFall =>
    cases hr : ready s with
    | false => simp [resetH, hr]
    | true => simp [resetH, hr]
  | pllRise =>
    cases hr : ready s with
    | false => simp [resetH, hr]
    | true => simp [resetH, hr]

/-- With `Ready` high a falling edge that ends in `Idle_Frame` leaves no valid pixel. -/
theorem fall_idle_invalid (m : Module) (c : Sample)
    (h : (m.fall ⟨true, c⟩).regs.state = .idleFrame) :
    (m.fall ⟨true, c⟩).regs.pixelValidOut = false := by
  revert h
  show (Acquisition.fall m.regs ⟨true, c⟩ m.lineFifo.q).state = .idleFrame →
    (Acquisition.fall m.regs ⟨true, c⟩ m.lineFifo.q).pixelValidOut = false
  cases hs : m.regs.state with
  | idleFrame =>
    rw [Acquisition.fall_idleFrame hs]
    exact fun _ => rfl
  | idleLine =>
    simp only [Acquisition.fall, hs, if_true]
    split <;> simp [Acquisition.defaults]
  | gettingPixels =>
    simp only [Acquisition.fall, hs, if_true]
    split
    · simp
    · split
      · simp [Acquisition.defaults]
      · unfold Acquisition.takePixel
        split <;> simp [Acquisition.defaults, hs]

end Steps

section Runs

variable {rd : BitVec 32} {q : BitVec 16} {ev : Nat → Event}

/-- **In `Idle_Frame` no pixel is valid**, in any run. -/
theorem idle_invalid (n : Nat) : (regs rd q ev n).acquisition.regs.state = .idleFrame →
    (regs rd q ev n).acquisition.regs.pixelValidOut = false := by
  refine Machine.run_invariant (M := machine rd q) (I := fun s =>
    s.acquisition.regs.state = .idleFrame → s.acquisition.regs.pixelValidOut = false)
    (fun _ => rfl) (fun s e ih => ?_) n
  show (step s e).acquisition.regs.state = .idleFrame →
    (step s e).acquisition.regs.pixelValidOut = false
  rcases step_cases s e with h | ⟨_, _, h⟩ | ⟨_, _, h⟩
  · rw [h]
    exact ih
  · rw [h]
    exact fall_idle_invalid _ _
  · rw [h]
    exact ih

/-! ## From a restart in `Idle_Frame` -/

/-- A frame begins with event `j`, on a rising edge of `FVAL` after event `r`. -/
def WholeFrameBegins (rd : BitVec 32) (q : BitVec 16) (ev : Nat → Event) (r j : Nat) : Prop :=
  ∃ i ≤ j, r < i ∧ FvalRises ev i ∧ FrameBegins rd q ev j ∧
    (regs rd q ev (j + 1)).acquisition.regs.lineNumber = 0 ∧
    (regs rd q ev (j + 1)).acquisition.lineFifo.words = []

/-- The process waits for a frame, and `FVAL` was low after event `r` if it remembers it low. -/
def WaitingSince (rd : BitVec 32) (q : BitVec 16) (ev : Nat → Event) (r n : Nat) : Prop :=
  (regs rd q ev n).acquisition.regs.state = .idleFrame ∧
    ((regs rd q ev n).acquisition.regs.fvalPrevious = true ∨
      ∃ l, r ≤ l ∧ l < n ∧ fval ev l = false)

theorem waiting_step {r n : Nat} (hrn : r ≤ n) (h : WaitingSince rd q ev r n) :
    WaitingSince rd q ev r (n + 1) ∨ WholeFrameBegins rd q ev r n := by
  obtain ⟨hs, hlow⟩ := h
  have hstep : regs rd q ev (n + 1) = step (regs rd q ev n) (ev n) := rfl
  have hlow' : (∃ l, r ≤ l ∧ l < n ∧ fval ev l = false) →
      ∃ l, r ≤ l ∧ l < n + 1 ∧ fval ev l = false :=
    fun ⟨l, h1, h2, h3⟩ => ⟨l, h1, by omega, h3⟩
  rcases step_cases (regs rd q ev n) (ev n) with h | ⟨hedge, hready, h⟩ | ⟨_, _, h⟩
  · rw [← hstep] at h
    left
    rw [WaitingSince, h]
    exact ⟨hs, hlow.imp_right hlow'⟩
  · rw [← hstep] at h
    have hregs : (regs rd q ev (n + 1)).acquisition.regs =
        Acquisition.fall (regs rd q ev n).acquisition.regs ⟨true, (ev n).camera⟩
          (regs rd q ev n).acquisition.lineFifo.q := congrArg Module.regs h
    rw [Acquisition.fall_idleFrame hs] at hregs
    by_cases hbegin : fval ev n = true ∧
        (regs rd q ev n).acquisition.regs.fvalPrevious = false
    · -- the edge that leaves `Idle_Frame`
      right
      obtain ⟨l, hrl, hln, hl⟩ := hlow.resolve_left (by simp [hbegin.2])
      obtain ⟨i, hli, hin, hi⟩ := exists_risingEdge hl hbegin.1 (by omega)
      refine ⟨i, hin, by omega, hi, ⟨hedge, hready, hs, hbegin.2, hbegin.1⟩, by rw [hregs], ?_⟩
      have hclear : (Acquisition.fall (regs rd q ev n).acquisition.regs ⟨true, (ev n).camera⟩
          (regs rd q ev n).acquisition.lineFifo.q).clearFifo = true := by
        rw [Acquisition.fall_idleFrame hs]
      rw [h, Module.fall, if_pos hclear]
      rfl
    · left
      have hno : ((ev n).camera.fval &&
          !(regs rd q ev n).acquisition.regs.fvalPrevious && true) = false := by
        simpa [fval] using hbegin
      refine ⟨by rw [hregs]; simp [hno], ?_⟩
      cases hf : fval ev n with
      | true =>
        left
        rw [hregs]
        exact hf
      | false =>
        right
        exact ⟨n, hrn, by omega, hf⟩
  · rw [← hstep] at h
    left
    rw [WaitingSince, h]
    exact ⟨hs, hlow.imp_right hlow'⟩

theorem waiting_run {r n : Nat} (hrn : r < n) (h : WaitingSince rd q ev r (r + 1)) :
    WaitingSince rd q ev r n ∨ ∃ j < n, WholeFrameBegins rd q ev r j := by
  induction n, hrn using Nat.le_induction with
  | base => exact Or.inl h
  | succ n hrn ih =>
    rcases ih with hw | ⟨j, hj, hb⟩
    · rcases waiting_step (Nat.le_of_succ_le hrn) hw with hw' | hb
      · exact Or.inl hw'
      · exact Or.inr ⟨n, by omega, hb⟩
    · exact Or.inr ⟨j, by omega, hb⟩

theorem restart_acquisition {r : Nat} (hr : Restart rd q ev r) :
    (regs rd q ev (r + 1)).acquisition = (regs rd q ev r).acquisition := by
  rcases step_cases (regs rd q ev r) (ev r) with h | ⟨_, hready, _⟩ | ⟨_, hready, _⟩
  · exact h
  · rw [hr.1] at hready
    cases hready
  · rw [hr.1] at hready
    cases hready

/-- A restart in `Idle_Frame` with `FVAL` low, or remembered high, captures whole frames. -/
theorem wholeFrames_of_idle {r : Nat} (hr : Restart rd q ev r)
    (hs : (regs rd q ev r).acquisition.regs.state = .idleFrame)
    (hf : (regs rd q ev r).acquisition.regs.fvalPrevious = true ∨ fval ev r = false) :
    WholeFrames rd q ev r := by
  have hstart : WaitingSince rd q ev r (r + 1) := by
    rw [WaitingSince, restart_acquisition hr]
    exact ⟨hs, hf.imp_right fun h => ⟨r, Nat.le_refl r, by omega, h⟩⟩
  intro w hw hwrite
  rcases waiting_run hw hstart with hwait | hbegins
  · have hinvalid := idle_invalid w hwait.1
    rw [hwrite.2.2] at hinvalid
    cases hinvalid
  · exact hbegins

/-! ## From any other restart -/

end Runs

/-- The camera clocks that follow: `FVAL` stays high, `LVAL` is low in the clocks 1 and 4. -/
def secondHalf (k : Nat) : Sample := if k = 1 ∨ k = 4 then blanking 0 else active 0

/-- The events of a run up to a restart `r`, then the two edges of each of these clocks. -/
def resumed (ev : Nat → Event) (r n : Nat) : Event :=
  if n ≤ r then ev n
  else ⟨if (n - (r + 1)) % 2 = 0 then .pllFall else .pllRise, secondHalf ((n - (r + 1)) / 2)⟩

section Resumed

variable {rd : BitVec 32} {q : BitVec 16} {ev : Nat → Event} {r : Nat}

theorem resumed_before {n : Nat} (h : n ≤ r) : resumed ev r n = ev n := if_pos h

theorem resumed_fall (k : Nat) :
    resumed ev r (r + 1 + 2 * k) = ⟨.pllFall, secondHalf k⟩ := by
  rw [resumed, if_neg (by omega), show r + 1 + 2 * k - (r + 1) = 2 * k by omega,
    if_pos (by omega), show 2 * k / 2 = k by omega]

theorem resumed_rise (k : Nat) :
    resumed ev r (r + 1 + 2 * k + 1) = ⟨.pllRise, secondHalf k⟩ := by
  rw [resumed, if_neg (by omega), show r + 1 + 2 * k + 1 - (r + 1) = 2 * k + 1 by omega,
    if_neg (by omega), show (2 * k + 1) / 2 = k by omega]

theorem resumed_fval {n : Nat} (h : r < n) : fval (resumed ev r) n = true := by
  rw [fval, resumed, if_neg (by omega)]
  show (secondHalf _).fval = true
  unfold secondHalf
  split <;> rfl

/-- The acquisition module in the `k`-th clock after the restart. -/
def afterClocks (m : Module) (k : Nat) : Module :=
  (⟨m, Acquisition.cycle⟩ : Machine Module Acquisition.Inputs).run (fun j => ⟨true, secondHalf j⟩) k

theorem resumed_run (hr : Restart rd q ev r) (k : Nat) :
    ready (regs rd q (resumed ev r) (r + 1 + 2 * k)) = true ∧
      (regs rd q (resumed ev r) (r + 1 + 2 * k)).acquisition =
        afterClocks (regs rd q ev r).acquisition k ∧
      ready (regs rd q (resumed ev r) (r + 1 + 2 * k + 1)) = true ∧
      (regs rd q (resumed ev r) (r + 1 + 2 * k + 1)).acquisition =
        (afterClocks (regs rd q ev r).acquisition k).fall ⟨true, secondHalf k⟩ := by
  have hfall : ∀ s : Regs, ready s = true → ∀ c, ready (step s ⟨.pllFall, c⟩) = true ∧
      (step s ⟨.pllFall, c⟩).acquisition = s.acquisition.fall ⟨true, c⟩ := by
    intro s hs c
    simp only [step, resetH, hs, Bool.not_true, Bool.false_eq_true, if_false, and_true]
    exact hs
  have hrise : ∀ s : Regs, ready s = true → ∀ c, ready (step s ⟨.pllRise, c⟩) = true ∧
      (step s ⟨.pllRise, c⟩).acquisition = s.acquisition.rise := by
    intro s hs c
    simp only [step, resetH, hs, Bool.not_true, Bool.false_eq_true, if_false, and_true]
    exact hs
  have hclock : ∀ k, ready (regs rd q (resumed ev r) (r + 1 + 2 * k)) = true →
      ready (regs rd q (resumed ev r) (r + 1 + 2 * k + 1)) = true ∧
      (regs rd q (resumed ev r) (r + 1 + 2 * k + 1)).acquisition =
        (regs rd q (resumed ev r) (r + 1 + 2 * k)).acquisition.fall ⟨true, secondHalf k⟩ := by
    intro k hk
    have hstep : regs rd q (resumed ev r) (r + 1 + 2 * k + 1) =
        step (regs rd q (resumed ev r) (r + 1 + 2 * k)) (resumed ev r (r + 1 + 2 * k)) := rfl
    rw [hstep, resumed_fall]
    exact hfall _ hk _
  induction k with
  | zero =>
    have hagree : regs rd q (resumed ev r) (r + 1) = regs rd q ev (r + 1) :=
      Machine.run_congr _ _ fun n hn => resumed_before (by omega)
    have hready : ready (regs rd q (resumed ev r) (r + 1 + 2 * 0)) = true := by
      rw [Nat.mul_zero, Nat.add_zero, hagree]
      exact hr.2
    have hacq : (regs rd q (resumed ev r) (r + 1 + 2 * 0)).acquisition =
        (regs rd q ev r).acquisition := by
      rw [Nat.mul_zero, Nat.add_zero, hagree]
      exact restart_acquisition hr
    obtain ⟨h1, h2⟩ := hclock 0 hready
    rw [hacq] at h2
    exact ⟨hready, hacq, h1, h2⟩
  | succ k ih =>
    obtain ⟨_, _, hr1, ha1⟩ := ih
    have hstep : regs rd q (resumed ev r) (r + 1 + 2 * (k + 1)) =
        step (regs rd q (resumed ev r) (r + 1 + 2 * k + 1)) (resumed ev r (r + 1 + 2 * k + 1)) :=
      rfl
    have hnext : ready (regs rd q (resumed ev r) (r + 1 + 2 * (k + 1))) = true ∧
        (regs rd q (resumed ev r) (r + 1 + 2 * (k + 1))).acquisition =
          afterClocks (regs rd q ev r).acquisition (k + 1) := by
      rw [hstep, resumed_rise]
      obtain ⟨h1, h2⟩ := hrise _ hr1 (secondHalf k)
      refine ⟨h1, h2.trans ?_⟩
      rw [ha1]
      rfl
    obtain ⟨h1, h2⟩ := hclock (k + 1) hnext.1
    rw [hnext.2] at h2
    exact ⟨hnext.1, hnext.2, h1, h2⟩

/-- A module that will not wait for a rising edge of `FVAL` if it finds `FVAL` high. -/
def Committed (m : Module) : Prop :=
  m.regs.state = .idleFrame → m.regs.fvalPrevious = false

theorem settled {m : Module} (h : Committed m) :
    (afterClocks m 2).regs.state = .idleLine ∧ (afterClocks m 2).regs.lvalPrevious = false := by
  have hfirst : ((afterClocks m 1).regs.state = .idleLine ∨
      (afterClocks m 1).regs.state = .gettingPixels) ∧
      (afterClocks m 1).regs.lvalPrevious = true ∧ (afterClocks m 1).regs.fvalPrevious = true := by
    show ((Acquisition.fall m.regs ⟨true, active 0⟩ m.lineFifo.q).state = .idleLine ∨
      (Acquisition.fall m.regs ⟨true, active 0⟩ m.lineFifo.q).state = .gettingPixels) ∧
      (Acquisition.fall m.regs ⟨true, active 0⟩ m.lineFifo.q).lvalPrevious = true ∧
      (Acquisition.fall m.regs ⟨true, active 0⟩ m.lineFifo.q).fvalPrevious = true
    cases hs : m.regs.state with
    | idleFrame =>
      rw [Acquisition.fall_idleFrame hs, h hs]
      exact ⟨Or.inl rfl, rfl, rfl⟩
    | idleLine =>
      simp only [Acquisition.fall, hs, if_true]
      split
      · exact ⟨Or.inr rfl, rfl, rfl⟩
      · exact ⟨Or.inl hs, rfl, rfl⟩
    | gettingPixels =>
      rw [Acquisition.fall_takePixel hs rfl rfl rfl]
      unfold Acquisition.takePixel
      split <;> exact ⟨Or.inr hs, rfl, rfl⟩
  obtain ⟨hs, hl, hf⟩ := hfirst
  show (Acquisition.fall (afterClocks m 1).regs ⟨true, blanking 0⟩
      (afterClocks m 1).lineFifo.q).state = .idleLine ∧
    (Acquisition.fall (afterClocks m 1).regs ⟨true, blanking 0⟩
      (afterClocks m 1).lineFifo.q).lvalPrevious = false
  rcases hs with hs | hs
  · rw [Acquisition.fall_lineGap hs rfl rfl]
    exact ⟨hs, rfl⟩
  · rw [Acquisition.fall_lineEnd hs rfl rfl rfl hl hf]
    exact ⟨rfl, rfl⟩

/-- Two samples of a line make a valid pixel iff the line is an odd one. -/
theorem line_pixel {m : Module} (hs : m.regs.state = .idleLine) (hl : m.regs.lvalPrevious = false) :
    ((Acquisition.cycle m ⟨true, active 0⟩).fall ⟨true, active 0⟩).regs.pixelValidOut =
        Acquisition.odd m.regs.lineNumber ∧
      Acquisition.Taken m.regs.lineNumber false
        (Acquisition.cycle (Acquisition.cycle m ⟨true, active 0⟩) ⟨true, active 0⟩) := by
  obtain ⟨ht, _⟩ := Acquisition.even_sample (d := 0) (Or.inl ⟨hs, hl⟩)
  obtain ⟨ht', hout, _⟩ := Acquisition.odd_sample (d := 0) ht
  refine ⟨?_, ht'⟩
  have hsome := congrArg Option.isSome hout
  have hvalid : ∀ x : Module, (Acquisition.output x).isSome = x.regs.pixelValidOut := by
    intro x
    unfold Acquisition.output
    cases x.regs.pixelValidOut <;> rfl
  rw [hvalid] at hsome
  refine hsome.trans ?_
  cases Acquisition.odd m.regs.lineNumber <;> rfl

/-- **One of the next two lines is an odd one**: its second sample makes a valid pixel. -/
theorem committed_pixel {m : Module} (h : Committed m) :
    ∃ k, ((afterClocks m k).fall ⟨true, secondHalf k⟩).regs.pixelValidOut = true := by
  obtain ⟨hs, hl⟩ := settled h
  obtain ⟨hvalid, ht⟩ := line_pixel hs hl
  cases hodd : Acquisition.odd (afterClocks m 2).regs.lineNumber with
  | true =>
    rw [hodd] at hvalid
    exact ⟨3, hvalid⟩
  | false =>
    -- the first of the two lines is even
    have hend : Acquisition.Ended ⟨true, (afterClocks m 4).lineFifo⟩ (afterClocks m 4) := by
      refine ⟨ht.state, ht.fval, ht.lval, ?_, rfl⟩
      show true = !Acquisition.odd (afterClocks m 4).regs.lineNumber
      rw [show (afterClocks m 4).regs.lineNumber = (afterClocks m 2).regs.lineNumber from ht.line,
        hodd]
      rfl
    obtain ⟨hb, _, _⟩ := Acquisition.gap_clock (d := 0) (Or.inr (Or.inr hend))
    obtain ⟨hvalid', _⟩ := line_pixel hb.state hb.lval
    rw [hb.odd] at hvalid'
    exact ⟨6, hvalid'⟩

theorem fall_not_idle {m : Module} {c : Sample} (hs : m.regs.state ≠ .idleFrame)
    (hf : c.fval = true) : (m.fall ⟨true, c⟩).regs.state ≠ .idleFrame := by
  show (Acquisition.fall m.regs ⟨true, c⟩ m.lineFifo.q).state ≠ .idleFrame
  cases hm : m.regs.state with
  | idleFrame => exact absurd hm hs
  | idleLine =>
    simp only [Acquisition.fall, hm, if_true]
    split <;> simp [Acquisition.defaults, hm]
  | gettingPixels =>
    simp only [Acquisition.fall, hm, if_true, hf]
    split
    · simp
    · simp only [Bool.not_true, Bool.false_and, Bool.false_eq_true, if_false]
      unfold Acquisition.takePixel
      split <;> simp [Acquisition.defaults, hm]

theorem resumed_not_idle (hr : Restart rd q ev r)
    (hs : (regs rd q ev r).acquisition.regs.state ≠ .idleFrame) {n : Nat} (hn : r < n) :
    (regs rd q (resumed ev r) n).acquisition.regs.state ≠ .idleFrame := by
  induction n, hn using Nat.le_induction with
  | base =>
    have hagree : regs rd q (resumed ev r) (r + 1) = regs rd q ev (r + 1) :=
      Machine.run_congr _ _ fun n hn => resumed_before (by omega)
    rw [hagree, restart_acquisition hr]
    exact hs
  | succ n hn ih =>
    have hstep : regs rd q (resumed ev r) (n + 1) =
        step (regs rd q (resumed ev r) n) (resumed ev r n) := rfl
    rcases step_cases (regs rd q (resumed ev r) n) (resumed ev r n) with h | ⟨_, _, h⟩ | ⟨_, _, h⟩
    · rw [hstep, h]
      exact ih
    · rw [hstep, h]
      exact fall_not_idle ih (resumed_fval hn)
    · rw [hstep, h]
      exact ih

/-- **A restart anywhere else can capture a part of a frame.** -/
theorem resumed_partial (hr : Restart rd q ev r)
    (hbad : (regs rd q ev r).acquisition.regs.state = .idleFrame →
      (regs rd q ev r).acquisition.regs.fvalPrevious = false ∧ fval ev r = true) :
    ¬ WholeFrames rd q (resumed ev r) r := by
  intro h
  obtain ⟨k, hk⟩ := committed_pixel (m := (regs rd q ev r).acquisition) fun hs => (hbad hs).1
  obtain ⟨_, _, hready, hacq⟩ := resumed_run hr k
  have hwrite : PixelWrite rd q (resumed ev r) (r + 1 + 2 * k + 1) := by
    refine ⟨by rw [resumed_rise], by rw [resetH, hready]; rfl, ?_⟩
    rw [hacq]
    exact hk
  obtain ⟨j, _, i, hij, hri, hrises, hbegins, _⟩ := h _ (by omega) hwrite
  by_cases hs : (regs rd q ev r).acquisition.regs.state = .idleFrame
  · -- `FVAL` is high from the restart on and does not rise
    have hlow : fval (resumed ev r) (i - 1) = true := by
      rcases Nat.lt_or_ge r (i - 1) with h1 | h1
      · exact resumed_fval h1
      · rw [fval, resumed_before h1, show i - 1 = r by omega]
        exact (hbad hs).2
    obtain ⟨p, rfl⟩ : ∃ p, i = p + 1 := ⟨i - 1, by omega⟩
    rw [Nat.add_sub_cancel] at hlow
    simp [FvalRises, risingEdge, hlow] at hrises
  · exact resumed_not_idle hr hs (by omega) hbegins.2.2.1

end Resumed

/-- **Only whole frames are captured after a restart, whatever follows, iff** the restart finds
the process in `Idle_Frame` and `FVAL` low, or remembered high. -/
theorem wholeFrames_iff (rd : BitVec 32) (q : BitVec 16) (ev : Nat → Event) (r : Nat)
    (hr : Restart rd q ev r) :
    (∀ ev' : Nat → Event, (∀ n ≤ r, ev' n = ev n) → WholeFrames rd q ev' r) ↔
      (regs rd q ev r).acquisition.regs.state = .idleFrame ∧
        ((regs rd q ev r).acquisition.regs.fvalPrevious = true ∨ fval ev r = false) := by
  constructor
  · intro h
    by_contra hno
    refine resumed_partial hr (fun hs => ?_) (h (resumed ev r) fun n hn => resumed_before hn)
    constructor
    · by_contra hf
      exact hno ⟨hs, Or.inl (by simpa using hf)⟩
    · by_contra hf
      exact hno ⟨hs, Or.inr (by simpa using hf)⟩
  · rintro ⟨hs, hf⟩ ev' hagree
    have hregs : ∀ n ≤ r + 1, regs rd q ev' n = regs rd q ev n :=
      fun n hn => Machine.run_congr _ _ fun m hm => hagree m (by omega)
    have hr' : Restart rd q ev' r := by
      rw [Restart, hregs r (by omega), hregs (r + 1) (by omega)]
      exact hr
    refine wholeFrames_of_idle hr' (by rw [hregs r (by omega)]; exact hs) ?_
    rw [hregs r (by omega), fval, hagree r (by omega)]
    exact hf

/-- A write of the Start (2) or Stop (3) register. -/
def startStop (address : BitVec 3) (fval : Bool) : Event :=
  ⟨.fpga ⟨address, true, false, true, 1⟩, ⟨fval, false, 0⟩⟩

/-- A start, a frame of one line of two samples whose `FVAL` falls with `LVAL`, a stop, and a start
in event 12. -/
def stoppedBetweenFrames : Nat → Event
  | 0 => startStop 2 false
  | 1 => ⟨.pllFall, ⟨false, false, 0⟩⟩
  | 2 => ⟨.pllRise, ⟨false, false, 0⟩⟩
  | 3 => ⟨.pllFall, blanking 0⟩
  | 4 => ⟨.pllRise, blanking 0⟩
  | 5 => ⟨.pllFall, active 0⟩
  | 6 => ⟨.pllRise, active 0⟩
  | 7 => ⟨.pllFall, active 0⟩
  | 8 => ⟨.pllRise, active 0⟩
  | 9 => ⟨.pllFall, ⟨false, false, 0⟩⟩
  | 10 => ⟨.pllRise, ⟨false, false, 0⟩⟩
  | 11 => startStop 3 false
  | _ => startStop 2 false

theorem wholeFrames_between_frames : Restart 0 0 stoppedBetweenFrames 12 ∧
    ∀ ev' : Nat → Event, (∀ n ≤ 12, ev' n = stoppedBetweenFrames n) → WholeFrames 0 0 ev' 12 :=
  have hr : Restart 0 0 stoppedBetweenFrames 12 := by decide
  ⟨hr, (wholeFrames_iff 0 0 stoppedBetweenFrames 12 hr).mpr ⟨by decide, Or.inr (by decide)⟩⟩

/-- A start, the rising edge of `FVAL`, a stop before the first line, and a start in event 6;
`FVAL` stays high, and two lines of two samples follow. -/
def stoppedInFrame : Nat → Event :=
  resumed (fun n =>
    match n with
    | 0 => startStop 2 false
    | 1 => ⟨.pllFall, ⟨false, false, 0⟩⟩
    | 2 => ⟨.pllRise, ⟨false, false, 0⟩⟩
    | 3 => ⟨.pllFall, blanking 0⟩
    | 4 => ⟨.pllRise, blanking 0⟩
    | 5 => startStop 3 true
    | _ => startStop 2 true) 6

/-- **Failing input**: the stop leaves the process in `Idle_Line`, and after the restart in event
6 it writes a pixel with event 14 although `FVAL` has not risen. -/
theorem restart_inside_frame :
    ¬ ∀ (rd : BitVec 32) (q : BitVec 16) (ev : Nat → Event) (r : Nat), Restart rd q ev r →
      WholeFrames rd q ev r := by
  intro h
  obtain ⟨j, hj, i, hij, hri, hrises, _⟩ :=
    h 0 0 stoppedInFrame 6 (by decide) 14 (by decide) (by decide)
  have hno : ∀ i < 14, 6 < i → ¬ FvalRises stoppedInFrame i := by decide
  exact hno i (by omega) hri hrises

end CameraLcd.TopLevel
