import CameraLcd.Lcd.Entity

/-!
# The DMA and the controller never wait for each other

`Master_Interface` and `LCD_Control` meet in two places: `Master_Start` sends the DMA off, and
while the FIFO is full the DMA waits until `Write_16` says that 16 words are out.

* `Joint.stage` — what the state of the controller says about everything else.
* `distance` — how far the DMA is from `Init` or `Wait_LCD_Control`.
* `remaining` — how many cycles the controller needs for `Write_16`.
* `neverWait` — no pulse is missed, and every wait for the other machine ends.
-/

set_option autoImplicit false

namespace CameraLcd.FullLcd

open Clocked

/-! ## One machine from the state of the other -/

section States

variable {F : PixelFifo} {s : Regs F} {i : Inputs}

/-- The joint state that belongs to a state of the controller. -/
def Stage (s : Regs F) (i : Inputs) : LcdControl.State → Prop
  | .checkMaster => Fetching s
  | .empty16 | .display16 => Draining16 s
  | .empty | .display => Draining s
  | .endDisplay => Ending s
  | .checkCommand => Quiet s ∨ Copying s i
  | .init | .command | .data | .endCommandData => Quiet s

theorem Joint.stage (h : Joint s i) : Stage s i s.control.state := by
  cases h with
  | quiet h =>
    rcases h.control with hc | hc | hc | hc | hc <;> rw [hc]
    · exact h
    · exact h
    · exact h
    · exact .inl h
    · exact h
  | copying h =>
    rw [h.control]
    exact .inr h
  | fetching h =>
    rw [h.control]
    exact h
  | draining16 h => rcases h.control with hc | hc <;> rw [hc] <;> exact h
  | draining h => rcases h.control with hc | hc <;> rw [hc] <;> exact h
  | ending h =>
    rw [h.control]
    exact h

theorem Joint.stage_of (h : Joint s i) {c : LcdControl.State} (hc : s.control.state = c) :
    Stage s i c := hc ▸ h.stage

theorem Joint.copying_of (h : Joint s i) (hm : s.master.state = .copy) : Copying s i := by
  cases h with
  | copying h => exact h
  | quiet h => simp [h.master] at hm
  | fetching h => exact absurd hm h.master
  | draining16 h => simp [h.master] at hm
  | draining h => simp [h.master] at hm
  | ending h => simp [h.master] at hm

/-- The DMA waits for `Write_16` only while the controller is on its way to it. -/
theorem Joint.waiting (h : Joint s i) (hm : s.master.state = .waitLcdControl) :
    s.control.state = .checkMaster ∨ s.control.state = .empty16 ∨
      s.control.state = .display16 := by
  cases h with
  | fetching h => exact .inl h.control
  | draining16 h => exact .inr h.control
  | quiet h => simp [h.master] at hm
  | copying h => simp [h.master] at hm
  | draining h => simp [h.master] at hm
  | ending h => simp [h.master] at hm

end States

/-! ## How far the DMA is from an answer -/

section Distance

variable {F : PixelFifo} {s : Regs F} {i : Inputs}

/-- The halves in the FIFO and those on the way to it. -/
def committed (s : Regs F) : Nat := fill s + 2 * s.pending.length

/-- The edges to `Init` or `Wait_LCD_Control`, at most, when the bus never waits: a burst takes
less than 40. -/
def distance (s : Regs F) : Nat :=
  let room := 40 * ((1024 - committed s) / 32)
  match s.master.state with
  | .init | .copy | .waitLcdControl => 0
  | .checkFifo => room + 1
  | .checkAdd => room + 2
  | .newAdd => room + 3
  | .readData => room + 4 + (16 - s.master.counterWord)
  | .checkWaitRequest => room - 19
  | .assertReadData => room - 18

theorem Fetching.committed_step (hs : Sound s) (h : Fetching s) (i : Inputs) :
    committed (step s i) = committed s +
      if s.master.state = .checkWaitRequest ∧ i.avmWaitRequest = false then 32 else 0 := by
  have hread : fifoRead s i = false :=
    fifoRead_false (by simp [h.control]) (by simp [h.control])
  cases hv : avmReadDataValid s i with
  | true =>
    obtain ⟨hb, hne⟩ : i.beat = true ∧ s.pending ≠ [] := by
      simpa [avmReadDataValid] using hv
    obtain ⟨w, ws, hp⟩ := List.exists_cons_of_ne_nil hne
    have hm : s.master.state = .readData := by
      by_contra hm
      exact hne (h.pending hm)
    have hst : F.stored (step s i).fifo = F.stored s.fifo ++ halves w := by
      simp only [step, h.write hp hb, hread]
      exact MixedFifo.stored_write w (h.notFull hs hne)
    have hp' : (step s i).pending = ws := by simp [step, burst, hs.bus.read, hm, hv, hp]
    rw [if_neg (by simp [hm])]
    simp only [committed, fill, hst, hp', hp, halves, List.length_append, List.length_cons,
      List.length_nil]
    omega
  | false =>
    have hw : fifoWrite s i = none := by
      simp [fifoWrite, LcdMaster.writeFifo, masterInputs, hv]
    have hfill : fill (step s i) = fill s := fill_idle hw hread
    have hp' : (step s i).pending = s.pending ++ burst s i := by simp [step, hv]
    by_cases hacc : s.master.state = .checkWaitRequest ∧ i.avmWaitRequest = false
    · rw [if_pos hacc, committed, hfill, hp', burst_accepted hs hacc.1 hacc.2]
      simp only [committed, words, List.length_append, List.length_map, List.length_range]
      omega
    · have hnone : burst s i = [] := by
        unfold burst
        rw [hs.bus.read, if_neg]
        simpa using hacc
      rw [if_neg hacc, committed, hfill, hp', hnone, List.append_nil]
      rfl

theorem Fetching.room_pos (h : Fetching s) (ha : LcdMaster.addressing s.master = true) :
    0 < (1024 - committed s) / 32 := by
  have hm : s.master.state ≠ .readData := by
    intro hm
    simp [LcdMaster.addressing, hm] at ha
  have hroom := h.room ha
  rw [committed, h.pending hm, List.length_nil]
  omega

/-- The DMA waits for the bus. -/
def BusWait (s : Regs F) (i : Inputs) : Prop :=
  s.master.state = .checkWaitRequest ∧ i.avmWaitRequest = true ∨
    s.master.state = .readData ∧ s.master.counterWord ≠ 16 ∧ i.beat = false

theorem Fetching.busWait_step (hs : Sound s) (h : Fetching s) (hb : BusWait s i) :
    (step s i).master = s.master ∧ distance (step s i) = distance s := by
  have hlevel := h.committed_step hs i
  have hm : (step s i).master = s.master := by
    show LcdMaster.clock s.master (masterInputs s i) = _
    rcases hb with ⟨hm, hw⟩ | ⟨hm, h16, hbeat⟩
    · rw [LcdMaster.clock_checkWaitRequest hm]
      simp [masterInputs, hw, ← hm]
    · rw [LcdMaster.clock_readData hm]
      simp [masterInputs, avmReadDataValid, h16, hbeat, ← hm]
  have hnot : ¬ (s.master.state = .checkWaitRequest ∧ i.avmWaitRequest = false) := by
    rcases hb with ⟨_, hw⟩ | ⟨hm, _⟩
    · simp [hw]
    · simp [hm]
  rw [if_neg hnot, Nat.add_zero] at hlevel
  refine ⟨hm, ?_⟩
  unfold distance
  rw [hm, hlevel]

/-- **Every other edge brings it closer.** -/
theorem Fetching.distance_step (hs : Sound s) (h : Fetching s) (hinit : s.master.state ≠ .init)
    (hwait : s.master.state ≠ .waitLcdControl) (hb : ¬ BusWait s i) :
    distance (step s i) < distance s := by
  have hlevel := h.committed_step hs i
  have hmaster : (step s i).master = LcdMaster.clock s.master (masterInputs s i) := rfl
  cases hm : s.master.state with
  | init => exact absurd hm hinit
  | copy => exact absurd hm h.master
  | waitLcdControl => exact absurd hm hwait
  | assertReadData =>
    have hpos := h.room_pos (by simp [LcdMaster.addressing, hm])
    rw [if_neg (by simp [hm]), Nat.add_zero] at hlevel
    unfold distance
    rw [hlevel, hmaster, LcdMaster.clock_assertReadData hm, hm]
    simp only
    omega
  | checkWaitRequest =>
    have hpos := h.room_pos (by simp [LcdMaster.addressing, hm])
    have hw : i.avmWaitRequest = false := by
      rw [← Bool.not_eq_true]
      intro hw
      exact hb (.inl ⟨hm, hw⟩)
    rw [if_pos ⟨hm, hw⟩] at hlevel
    have hzero := hs.bus.word_zero (by simp [hm]) (by simp [hm])
    have hm' : (step s i).master = { s.master with state := .readData, avmRead := false } := by
      rw [hmaster, LcdMaster.clock_checkWaitRequest hm]
      simp [masterInputs, hw]
    unfold distance
    rw [hlevel, hm', hm]
    simp only [hzero]
    omega
  | readData =>
    rw [if_neg (by simp [hm]), Nat.add_zero] at hlevel
    by_cases h16 : s.master.counterWord = 16
    · have hst : (step s i).master.state = .newAdd := by
        rw [hmaster, LcdMaster.clock_readData hm]
        exact if_pos h16
      unfold distance
      rw [hlevel, hst, hm]
      simp only
      omega
    · have hbeat : i.beat = true := by
        rw [← Bool.not_eq_false]
        intro hbeat
        exact hb (.inr ⟨hm, h16, hbeat⟩)
      have hcount := h.beats hm
      have hle := hs.bus.word_le
      have hpend : s.pending.isEmpty = false := by
        cases hp : s.pending with
        | nil =>
          rw [hp, List.length_nil] at hcount
          omega
        | cons => rfl
      have hm' : (step s i).master =
          { s.master with counterWord := s.master.counterWord + 1 } := by
        rw [hmaster, LcdMaster.clock_readData hm]
        simp [masterInputs, avmReadDataValid, h16, hbeat, hpend, hm]
      unfold distance
      rw [hlevel, hm']
      simp only [hm]
      omega
  | newAdd =>
    rw [if_neg (by simp [hm]), Nat.add_zero] at hlevel
    unfold distance
    rw [hlevel, hmaster, LcdMaster.clock_newAdd hm, hm]
    simp only
    omega
  | checkAdd =>
    rw [if_neg (by simp [hm]), Nat.add_zero] at hlevel
    unfold distance
    rw [hlevel, hmaster, LcdMaster.clock_checkAdd hm, hm]
    by_cases hend : s.master.add = s.master.endAdd
    · simp only [if_pos hend]
      omega
    · simp only [if_neg hend]
      omega
  | checkFifo =>
    rw [if_neg (by simp [hm]), Nat.add_zero] at hlevel
    have hm' : (step s i).master.state =
        if F.full s.fifo then .waitLcdControl else .assertReadData := by
      simp [step, LcdMaster.clock_checkFifo hm, masterInputs]
    unfold distance
    rw [hlevel, hm', hm]
    cases F.full s.fifo with
    | true =>
      simp only [if_true]
      omega
    | false =>
      simp only [Bool.false_eq_true, if_false]
      omega

theorem Fetching.released (h : Fetching s)
    (hm : s.master.state = .init ∨ s.master.state = .waitLcdControl) :
    (step s i).control.state = .empty ∨ (step s i).control.state = .empty16 := by
  rcases hm with hm | hm
  · left
    simp [step, LcdControl.clock_checkMaster h.control, controlInputs, LcdMaster.masterReady, hm]
  · right
    simp [step, LcdControl.clock_checkMaster h.control, controlInputs, LcdMaster.masterReady,
      LcdMaster.masterWaiting, hm]

end Distance

/-! ## How far the controller is from `Write_16` -/

section Remaining

variable {F : PixelFifo} {s : Regs F} {i : Inputs}

/-- The edges to `Write_16`: each of the 32 halves takes ten. -/
def remaining (r : LcdControl.Regs) : Nat :=
  match r.state with
  | .checkMaster => 321
  | .empty16 => 10 * (32 - r.counterWord)
  | .display16 => 10 * (31 - r.counterWord) + (9 - r.counterTime)
  | _ => 0

theorem Joint.waiting_step (hs : Sound s) (h : Joint s i)
    (hm : s.master.state = .waitLcdControl) (hw : LcdControl.write16 s.control = false) :
    (step s i).master.state = .waitLcdControl ∧
      remaining (step s i).control + 1 = remaining s.control := by
  refine ⟨by simp [step, LcdMaster.clock_waitLcdControl hm, masterInputs, hw], ?_⟩
  have hword := hs.counters.word_le
  rcases h.waiting hm with hc | hc | hc
  · have hctl : (step s i).control = { s.control with state := .empty16 } := by
      simp [step, LcdControl.clock_checkMaster hc, controlInputs, LcdMaster.masterReady,
        LcdMaster.masterWaiting, hm]
    have hzero := hs.counters.word_zero (by simp [hc]) (by simp [hc])
    simp [remaining, hctl, hc, hzero]
  · have h32 : s.control.counterWord ≠ 32 := by
      intro h32
      simp [LcdControl.write16, hc, h32] at hw
    have hctl : (step s i).control = { s.control with state := .display16 } := by
      simp [step, LcdControl.clock_empty16 hc, h32]
    have hzero := hs.counters.time_zero (by rw [hc]; rfl)
    simp only [remaining, hctl, hc, hzero]
    omega
  · have hlt := hs.counters.word_lt hc
    by_cases h8 : s.control.counterTime = 8
    · have hctl : (step s i).control = ⟨.empty16, 0, s.control.counterWord + 1⟩ :=
        LcdControl.clock_display16_done hc h8
      simp only [remaining, hctl, hc, h8]
      omega
    · have htime := hs.counters.time_le
      simp only [remaining, control_writing (i := i) (s := s) (by rw [hc]; rfl) h8, hc]
      omega

theorem Joint.write16_step (h : Joint s i) (hw : LcdControl.write16 s.control = true) :
    s.master.state = .waitLcdControl ∧ (step s i).master.state = .assertReadData := by
  have hc : s.control.state = .empty16 := by
    by_contra hc
    rw [write16_false hc] at hw
    cases hw
  have hd : Draining16 s := h.stage_of hc
  refine ⟨hd.master, ?_⟩
  simp [step, LcdMaster.clock_waitLcdControl hd.master, masterInputs, hw]

/-- A `Master_Start` pulse takes the DMA out of `Init`; it lasts one edge more. -/
theorem Joint.masterStart_step (hs : Sound s) (h : Joint s i)
    (hstart : LcdControl.masterStart s.control (controlInputs s i) = true) :
    s.master.state = .init ∧ (step s i).master.state = .copy ∧
        (step s i).control.state = .checkCommand ∨
      s.master.state = .copy ∧ (step s i).master.state = .assertReadData ∧
        (step s i).control.state = .checkMaster := by
  obtain ⟨hc, hmw⟩ : s.control.state = .checkCommand ∧
      LcdControl.memoryWrite i.commandData = true := by
    simpa [LcdControl.masterStart, controlInputs] using hstart
  rcases (h.stage_of hc : Quiet s ∨ Copying s i) with hq | hcopy
  · left
    refine ⟨hq.master, ?_, ?_⟩
    · rw [(init_edge (i := i) hs hq.master hq.pending).2.2]
      simp [hstart]
    · simp [step, LcdControl.clock_checkCommand hc, controlInputs, hmw, LcdMaster.masterReady,
        hq.master]
  · right
    refine ⟨hcopy.master, ?_, (copying_step hs hcopy).control⟩
    simp [step, LcdMaster.clock_copy hcopy.master, masterInputs, F.empty_of_nil _ hcopy.stored]

end Remaining

/-! ## The end of a display -/

section Drained

variable {F : PixelFifo} {s : Regs F} {i : Inputs}

/-- The edges until the FIFO is found empty. -/
def leftover (s : Regs F) : Nat :=
  10 * fill s + if s.control.state = .display then 9 - s.control.counterTime else 0

/-- What is left in the FIFO is taken out, then the display is closed. -/
theorem Draining.leftover_step (hs : Sound s) (h : Draining s) (i : Inputs) :
    (step s i).control.state = .endDisplay ∨
      ((step s i).control.state = .empty ∨ (step s i).control.state = .display) ∧
        leftover (step s i) < leftover s := by
  obtain ⟨hc, hm, hp, -⟩ := h
  have hw : fifoWrite s i = none := fifoWrite_none (by simp [hm])
  rcases hc with hc | hc
  · cases hempty : F.empty s.fifo with
    | true =>
      left
      simp [step, LcdControl.clock_empty hc, controlInputs, hempty]
    | false =>
      right
      have hread : fifoRead s i = true := by
        simp [fifoRead, LcdControl.readFifo, hc, controlInputs, hempty]
      obtain ⟨x, xs, hst⟩ := F.exists_cons hempty
      have hfill : fill (step s i) + 1 = fill s := by
        simp only [fill, step, hw, hread]
        rw [(MixedFifo.step_read hempty hst).1, hst, List.length_cons]
      have hctl : (step s i).control = { s.control with state := .display } := by
        simp [step, LcdControl.clock_empty hc, controlInputs, hempty]
      have hzero := hs.counters.time_zero (by rw [hc]; rfl)
      refine ⟨.inr (by rw [hctl]), ?_⟩
      simp only [leftover, hctl, hc, hzero, if_true, reduceCtorEq, if_false]
      omega
  · right
    have hread : fifoRead s i = false := fifoRead_false (by simp [hc]) (by simp [hc])
    have hfill : fill (step s i) = fill s := fill_idle hw hread
    by_cases h8 : s.control.counterTime = 8
    · have hctl := LcdControl.clock_display_done (i := controlInputs s i) hc h8
      have hst : (step s i).control.state = .empty := congrArg (·.state) hctl
      refine ⟨.inl hst, ?_⟩
      simp only [leftover, hfill, hst, hc, h8, if_true, reduceCtorEq, if_false]
      omega
    · have hctl := control_writing (i := i) (s := s) (by rw [hc]; rfl) h8
      have htime := hs.counters.time_le
      refine ⟨.inr (by rw [hctl]; exact hc), ?_⟩
      simp only [leftover, hfill, hctl, hc, if_true]
      omega

end Drained

/-! ## Every wait ends -/

/-- The bus accepts a read and the memory returns a beat again and again. -/
structure Answering (inp : Nat → Inputs) : Prop where
  accepts : Recurs (fun n => !(inp n).avmWaitRequest)
  beats : Recurs (fun n => (inp n).beat)

section Waits

variable {F : PixelFifo} {inp : Nat → Inputs}

/-- What the DMA waits for in a given state is a signal that recurs. -/
theorem Answering.signal (hbus : Answering inp) (m : LcdMaster.Regs) :
    ∃ c, Recurs c ∧ ∀ (s : Regs F) n, s.master = m → (c n = false ↔ BusWait s (inp n)) := by
  by_cases hcheck : m.state = .checkWaitRequest
  · refine ⟨_, hbus.accepts, ?_⟩
    rintro s n rfl
    simp [BusWait, hcheck]
  · by_cases hread : m.state = .readData ∧ m.counterWord ≠ 16
    · refine ⟨_, hbus.beats, ?_⟩
      rintro s n rfl
      simp [BusWait, hread]
    · refine ⟨fun _ => true, fun n => ⟨n, Nat.le_refl n, rfl⟩, ?_⟩
      rintro s n rfl
      have hno : ¬ BusWait s (inp n) := by
        rintro (⟨h, _⟩ | ⟨h, h16, _⟩)
        · exact hcheck h
        · exact hread ⟨h, h16⟩
      simp [hno]

/-- **`Check_Master` is left**: the DMA needs nothing but the bus to be ready or to wait. -/
theorem checkMaster_left (hj : ∀ n, Joint (regs F inp n) (inp n)) (hbus : Answering inp) {n : Nat}
    (hc : (regs F inp n).control.state = .checkMaster) :
    ∃ m, n < m ∧ ((regs F inp m).control.state = .empty ∨
      (regs F inp m).control.state = .empty16) := by
  apply leadsTo_of_rank (P := fun n => (regs F inp n).control.state = .checkMaster)
    (fun n => distance (regs F inp n)) _ hc
  intro n hc
  by_cases hm : (regs F inp n).master.state = .init ∨
      (regs F inp n).master.state = .waitLcdControl
  · exact ⟨n + 1, Nat.lt_succ_self n, .inl (((hj n).stage_of hc : Fetching _).released hm)⟩
  · obtain ⟨hinit, hwait⟩ := not_or.mp hm
    obtain ⟨c, hrec, hsignal⟩ := hbus.signal (F := F) (regs F inp n).master
    -- up to the cycle of the signal nothing moves
    obtain ⟨m, hle, ⟨hcm, hmm, hdm⟩, hhigh⟩ := hrec.wait (n := n)
      (P := fun m => (regs F inp m).control.state = .checkMaster ∧
        (regs F inp m).master = (regs F inp n).master ∧
        distance (regs F inp m) = distance (regs F inp n)) (by
      rintro m ⟨hcm, hmm, hdm⟩ hlow
      have hf : Fetching (regs F inp m) := (hj m).stage_of hcm
      obtain ⟨hmaster, hdist⟩ :=
        hf.busWait_step (sound_run F inp m) ((hsignal _ m hmm).mp hlow)
      exact ⟨hf.control_step (by rw [hmm]; exact hinit) (by rw [hmm]; exact hwait),
        hmaster.trans hmm, hdist.trans hdm⟩) ⟨hc, rfl, rfl⟩
    have hf : Fetching (regs F inp m) := (hj m).stage_of hcm
    have hfree : ¬ BusWait (regs F inp m) (inp m) := by
      intro hb
      rw [(hsignal _ m hmm).mpr hb] at hhigh
      cases hhigh
    have hi' : (regs F inp m).master.state ≠ .init := by rw [hmm]; exact hinit
    have hw' : (regs F inp m).master.state ≠ .waitLcdControl := by rw [hmm]; exact hwait
    refine ⟨m + 1, by omega, .inr ⟨hf.control_step hi' hw', ?_⟩⟩
    rw [← hdm]
    exact hf.distance_step (sound_run F inp m) hi' hw' hfree

/-- **`Wait_LCD_Control` is left**: `Write_16` comes after at most 321 edges. -/
theorem waitLcdControl_left (hj : ∀ n, Joint (regs F inp n) (inp n)) {n : Nat}
    (hm : (regs F inp n).master.state = .waitLcdControl) :
    ∃ m, n ≤ m ∧ m ≤ n + 321 ∧ LcdControl.write16 (regs F inp m).control = true := by
  have hbound : remaining (regs F inp n).control ≤ 321 := by
    unfold remaining
    have htime := (sound_run F inp n).counters.time_le
    split <;> omega
  suffices h : ∃ m, n ≤ m ∧ m ≤ n + remaining (regs F inp n).control ∧
      LcdControl.write16 (regs F inp m).control = true by
    obtain ⟨m, h1, h2, h3⟩ := h
    exact ⟨m, h1, by omega, h3⟩
  clear hbound
  generalize hr : remaining (regs F inp n).control = r
  induction r generalizing n with
  | zero =>
    refine ⟨n, Nat.le_refl n, Nat.le_refl n, ?_⟩
    by_contra hw
    rw [Bool.not_eq_true] at hw
    have := ((hj n).waiting_step (sound_run F inp n) hm hw).2
    omega
  | succ r ih =>
    cases hw : LcdControl.write16 (regs F inp n).control with
    | true => exact ⟨n, Nat.le_refl n, by omega, hw⟩
    | false =>
      obtain ⟨hm', hr'⟩ := (hj n).waiting_step (sound_run F inp n) hm hw
      have hr'' : remaining (regs F inp (n + 1)).control + 1 = r + 1 := hr'.trans hr
      obtain ⟨m, h1, h2, h3⟩ := ih (n := n + 1) hm' (by omega)
      exact ⟨m, by omega, by omega, h3⟩

theorem draining_left (hj : ∀ n, Joint (regs F inp n) (inp n)) {n : Nat}
    (hc : (regs F inp n).control.state = .empty ∨ (regs F inp n).control.state = .display) :
    ∃ m, n < m ∧ (regs F inp m).control.state = .endDisplay := by
  apply leadsTo_of_rank (P := fun n => (regs F inp n).control.state = .empty ∨
    (regs F inp n).control.state = .display) (fun n => leftover (regs F inp n)) _ hc
  intro n hc
  have hd : Draining (regs F inp n) := by
    rcases hc with hc | hc
    · exact (hj n).stage_of hc
    · exact (hj n).stage_of hc
  exact ⟨n + 1, Nat.lt_succ_self n, hd.leftover_step (sound_run F inp n) (inp n)⟩

end Waits

end CameraLcd.FullLcd

namespace CameraLcd.LcdEntity

open Clocked
open FullLcd (PixelFifo)

/-! ## Who waits for whom -/

section Waiting

variable {F : PixelFifo} (s : Regs F)

/-- The controller waits for the DMA. -/
def ControlWaits : Prop :=
  s.lcd.control.state = .checkCommand ∧ LcdControl.memoryWrite s.slave.commandData = true ∧
      LcdMaster.masterReady s.lcd.master = true ∨
    s.lcd.control.state = .checkMaster ∧ LcdMaster.masterReady s.lcd.master = false ∧
      LcdMaster.masterWaiting s.lcd.master = false

/-- The DMA waits for the controller: for a start, for an empty FIFO or for `Write_16`. -/
def MasterWaits (i : Inputs) : Prop :=
  s.lcd.master.state = .init ∧
      LcdControl.masterStart s.lcd.control (FullLcd.controlInputs s.lcd (lcdInputs s i)) = false ∨
    s.lcd.master.state = .copy ∧ F.empty s.lcd.fifo = false ∨
    s.lcd.master.state = .waitLcdControl ∧ LcdControl.write16 s.lcd.control = false

end Waiting

section Machines

variable (F : PixelFifo) (avsReadData : BitVec 32) (inp : Nat → Inputs)

/-- `LCD_Control` in cycle `n`. -/
abbrev controlAt (n : Nat) : LcdControl.Regs := (regs F avsReadData inp n).lcd.control

/-- `Master_Interface` in cycle `n`. -/
abbrev masterAt (n : Nat) : LcdMaster.Regs := (regs F avsReadData inp n).lcd.master

/-- `Master_Start` in cycle `n`. -/
def masterStartAt (n : Nat) : Bool :=
  LcdControl.masterStart (controlAt F avsReadData inp n)
    (FullLcd.controlInputs (regs F avsReadData inp n).lcd (lcdStream F avsReadData inp n))

/-- **The two machines in cycle `n`.** -/
structure NeverWait (n : Nat) : Prop where
  draining16 : (controlAt F avsReadData inp n).state = .empty16 ∨
    (controlAt F avsReadData inp n).state = .display16 →
    (masterAt F avsReadData inp n).state = .waitLcdControl
  draining : (controlAt F avsReadData inp n).state = .empty ∨
    (controlAt F avsReadData inp n).state = .display ∨
    (controlAt F avsReadData inp n).state = .endDisplay →
    (masterAt F avsReadData inp n).state = .init
  waiting : (masterAt F avsReadData inp n).state = .waitLcdControl →
    (controlAt F avsReadData inp n).state = .checkMaster ∨
      (controlAt F avsReadData inp n).state = .empty16 ∨
      (controlAt F avsReadData inp n).state = .display16
  copy : (masterAt F avsReadData inp n).state = .copy →
    F.stored (regs F avsReadData inp n).lcd.fifo = [] ∧
      (masterAt F avsReadData inp (n + 1)).state = .assertReadData
  counterWord : (controlAt F avsReadData inp n).state = .checkMaster →
    (controlAt F avsReadData inp n).counterWord = 0
  /-- No `Write_16` is missed. -/
  write16 : LcdControl.write16 (controlAt F avsReadData inp n) = true →
    (masterAt F avsReadData inp n).state = .waitLcdControl ∧
      (masterAt F avsReadData inp (n + 1)).state = .assertReadData
  /-- No `Master_Start` is missed: it is given up when the DMA has left `Init`. -/
  start : masterStartAt F avsReadData inp n = true →
    (masterAt F avsReadData inp n).state = .init ∧
        (masterAt F avsReadData inp (n + 1)).state = .copy ∧
        (controlAt F avsReadData inp (n + 1)).state = .checkCommand ∨
      (masterAt F avsReadData inp n).state = .copy ∧
        (controlAt F avsReadData inp (n + 1)).state = .checkMaster
  /-- They do not wait for each other in the same cycle. -/
  oneWaits : ¬ (ControlWaits (regs F avsReadData inp n) ∧
    MasterWaits (regs F avsReadData inp n) (inp n))
  /-- The DMA waits for the controller 321 cycles at most. -/
  resumes : (masterAt F avsReadData inp n).state = .waitLcdControl →
    ∃ m, n ≤ m ∧ m ≤ n + 321 ∧ LcdControl.write16 (controlAt F avsReadData inp m) = true
  /-- The controller waits for the DMA while the DMA waits for the bus. -/
  answers : FullLcd.Answering (lcdStream F avsReadData inp) →
    (controlAt F avsReadData inp n).state = .checkMaster →
    ∃ m, n < m ∧ ((controlAt F avsReadData inp m).state = .empty ∨
      (controlAt F avsReadData inp m).state = .empty16)
  shows : (controlAt F avsReadData inp n).state = .empty ∨
    (controlAt F avsReadData inp n).state = .display →
    ∃ m, n < m ∧ (controlAt F avsReadData inp m).state = .endDisplay
  closes : (controlAt F avsReadData inp n).state = .endDisplay →
    ∃ m, n < m ∧ ((controlAt F avsReadData inp m).state = .command ∨
      (controlAt F avsReadData inp m).state = .endCommandData)

end Machines

section Runs

variable {F : PixelFifo} {rd : BitVec 32} {inp : Nat → Inputs}

/-- `End_Display` is left when its write cycle is done: 01 and 11 are the requests of a
display. -/
theorem endDisplay_left (hcpu : ∀ k, Disciplined (regs F rd inp k) (inp k).avs) {n : Nat}
    (hc : (controlAt F rd inp n).state = .endDisplay) :
    ∃ m, n < m ∧ ((controlAt F rd inp m).state = .command ∨
      (controlAt F rd inp m).state = .endCommandData) := by
  apply leadsTo_of_rank (P := fun n => (controlAt F rd inp n).state = .endDisplay)
    (fun n => 9 - (controlAt F rd inp n).counterTime) _ hc
  intro n hc
  have htime : (controlAt F rd inp n).counterTime ≤ 8 := (sound_run n).counters.time_le
  refine ⟨n + 1, Nat.lt_succ_self n, ?_⟩
  by_cases h8 : (controlAt F rd inp n).counterTime = 8
  · left
    have hheld : Held (regs F rd inp n) := held_run n fun k _ => hcpu k
    have hnext : (controlAt F rd inp (n + 1)).state =
        if (regs F rd inp n).slave.stateCommandData = 1 then .endCommandData
          else if (regs F rd inp n).slave.stateCommandData = 3 then .command else .endDisplay :=
      congrArg (·.state) (LcdControl.clock_endDisplay_done hc h8)
    rcases hheld.display (by rw [hc]; rfl) with h1 | h3
    · exact .inr (hnext.trans (by rw [if_pos h1]))
    · exact .inl (hnext.trans (by rw [h3]; rfl))
  · right
    have hnext : controlAt F rd inp (n + 1) = { controlAt F rd inp n with
        counterTime := (controlAt F rd inp n).counterTime + 1 } :=
      LcdControl.clock_writing _ (by rw [hc]; rfl) h8
    have hcloser : 9 - ((controlAt F rd inp n).counterTime + 1) <
        9 - (controlAt F rd inp n).counterTime := by omega
    rw [hnext]
    exact ⟨hc, hcloser⟩

end Runs

/-- **The DMA and the controller never wait for each other**, for every FIFO that keeps to its
data sheet, every bus and every CPU that waits for the acknowledgement. -/
theorem neverWait (F : PixelFifo) (avsReadData : BitVec 32) (inp : Nat → Inputs)
    (hcpu : ∀ k, Disciplined (regs F avsReadData inp k) (inp k).avs) (n : Nat) :
    NeverWait F avsReadData inp n := by
  have hjoint : ∀ m, FullLcd.Joint (regs F avsReadData inp m).lcd (lcdStream F avsReadData inp m) :=
    fun m => joint_run m fun k _ => hcpu k
  have hj : ∀ m, FullLcd.Joint (FullLcd.regs F (lcdStream F avsReadData inp) m)
      (lcdStream F avsReadData inp m) := by
    intro m
    rw [← regs_lcd]
    exact hjoint m
  have hs : FullLcd.Sound (regs F avsReadData inp n).lcd := sound_run n
  have h := hjoint n
  refine ⟨?_, ?_, h.waiting, ?_, ?_, h.write16_step, ?_, ?_, ?_, ?_, ?_, endDisplay_left hcpu⟩
  · rintro (hc | hc)
    · exact (h.stage_of hc : FullLcd.Draining16 _).master
    · exact (h.stage_of hc : FullLcd.Draining16 _).master
  · rintro (hc | hc | hc)
    · exact (h.stage_of hc : FullLcd.Draining _).master
    · exact (h.stage_of hc : FullLcd.Draining _).master
    · exact (h.stage_of hc : FullLcd.Ending _).master
  · intro hm
    have hcopy := h.copying_of hm
    refine ⟨hcopy.stored, ?_⟩
    show (LcdMaster.clock _ _).state = _
    rw [LcdMaster.clock_copy hm]
    simp [FullLcd.masterInputs, F.empty_of_nil _ hcopy.stored]
  · intro hc
    exact hs.counters.word_zero (by simp [hc]) (by simp [hc])
  · intro hstart
    rcases h.masterStart_step hs hstart with hinit | ⟨hm, -, hc⟩
    · exact .inl hinit
    · exact .inr ⟨hm, hc⟩
  · rintro ⟨hcontrol, hmaster⟩
    rcases hcontrol with ⟨hc, hmw, hready⟩ | ⟨hc, hready, hwait⟩
    · -- the controller gives the start pulse
      have hinit : (masterAt F avsReadData inp n).state = .init := by
        simpa [LcdMaster.masterReady] using hready
      rcases hmaster with ⟨-, hno⟩ | ⟨hm, -⟩ | ⟨hm, -⟩
      · simp [LcdControl.masterStart, FullLcd.controlInputs, lcdInputs, hc, hmw] at hno
      · rw [hinit] at hm
        cases hm
      · rw [hinit] at hm
        cases hm
    · have hf : FullLcd.Fetching _ := h.stage_of hc
      rcases hmaster with ⟨hm, -⟩ | ⟨hm, -⟩ | ⟨hm, -⟩
      · simp [LcdMaster.masterReady, hm] at hready
      · exact hf.master hm
      · simp [LcdMaster.masterWaiting, hm] at hwait
  · intro hm
    simp only [controlAt, masterAt, regs_lcd] at hm ⊢
    exact FullLcd.waitLcdControl_left hj hm
  · intro hbus hc
    simp only [controlAt, regs_lcd] at hc ⊢
    exact FullLcd.checkMaster_left hj hbus hc
  · intro hc
    simp only [controlAt, regs_lcd] at hc ⊢
    exact FullLcd.draining_left hj hc

/-- A continuous display of one burst, changed to a single one while its command is sent. -/
def oneDisplay (n : Nat) : Inputs where
  avs :=
    match n with
    | 0 => LcdSlave.writeAccess 3 64
    | 1 => LcdSlave.writeAccess 0 0x2C
    | 2 => LcdSlave.writeAccess 1 3
    | 10 => LcdSlave.writeAccess 1 1
    | _ => LcdSlave.noAccess
  bufferSaved := 0
  avmWaitRequest := false
  beat := true
  memory := id

theorem neverWait_oneDisplay : (controlAt idealFifo 0 oneDisplay 17).state = .checkMaster ∧
    NeverWait idealFifo 0 oneDisplay 17 := by
  refine ⟨by decide +kernel, neverWait idealFifo 0 oneDisplay ?_ 17⟩
  intro k
  by_cases h1 : k = 1
  · subst h1
    exact ⟨fun _ => rfl, nofun⟩
  · by_cases h2 : k = 2
    · subst h2
      exact ⟨nofun, fun _ => .inl rfl⟩
    · by_cases h10 : k = 10
      · subst h10
        refine ⟨nofun, fun _ => .inr ⟨by decide +kernel, by decide⟩⟩
      · have hno : LcdSlave.writes (oneDisplay k).avs 0 = false ∧
            LcdSlave.writes (oneDisplay k).avs 1 = false := by
          unfold oneDisplay
          simp only
          split <;> first | exact ⟨rfl, rfl⟩ | contradiction
        exact .silent hno.1 hno.2

end CameraLcd.LcdEntity
