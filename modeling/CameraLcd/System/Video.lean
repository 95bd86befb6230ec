import CameraLcd.Lcd.SharedMemory
import CameraLcd.System.FrameStore
import CameraLcd.System.TripleBuffer

/-!
# From the camera's FIFO to the pixels of the LCD

`Camera_Master_Interface` with its FIFO, the memory and `Full_LCD_Entity` on one clock, wired as in
`DE0_Nano_SoC_TRDB_D5M_LT24_top_level.vhd`: `Buffer_Saved` goes to the display and `Display_Buffer`
comes back.  Both sides are programmed with the same address and length.

* `indices_run` — the buffers in use on either side, in every cycle of a run without a race.
* `still_run` — the memory keeps the buffer of a session until the DMA of the display is done.
* `shows_frame` — a session shows, pixel by pixel, the words pushed for the frame that was
  published last when it began.
-/

set_option autoImplicit false

namespace CameraLcd.Video

open Clocked BurstMemory
open CameraMaster (bufferBase blocks)
open FullLcd (PixelFifo)
open Gather (Word)

/-! ## The composition -/

/-- The two sides and the memory between them. -/
structure Regs (F : PixelFifo) where
  camera : Gather.Regs
  memory : Slave 32 Word
  lcd : FullLcd.Regs F

/-- What the rest of the system drives. -/
structure Inputs where
  push : Option Word
  ready : Bool
  amWaitRequest : Bool
  commandData : BitVec 16
  stateCommandData : BitVec 2
  avmWaitRequest : Bool
  beat : Bool

section Composition

variable {F : PixelFifo} (address length : BitVec 32) (s : Regs F) (i : Inputs)

/-- What the camera's side sees. -/
def cameraInputs : Gather.Inputs where
  push := i.push
  address := address
  lengthFrame := length
  ready := i.ready
  displayBuffer := LcdMaster.displayBuffer s.lcd.master
  amWaitRequest := i.amWaitRequest

/-- What the display's side sees. -/
def lcdInputs : FullLcd.Inputs where
  commandData := i.commandData
  stateCommandData := i.stateCommandData
  startAdd := address
  lengthBuffer := length
  bufferSaved := s.camera.master.bufferSaved
  avmWaitRequest := i.avmWaitRequest
  beat := i.beat
  memory := s.memory.memory

/-- One clock edge. -/
def step : Regs F where
  camera := Gather.step s.camera (cameraInputs address length s i)
  memory := s.memory.step 4 (FrameStore.bus s.camera.master i.amWaitRequest)
  lcd := FullLcd.step s.lcd (lcdInputs address length s i)

/-- The two masters. -/
def masters : TripleBuffer.Regs := ⟨s.camera.master, s.lcd.master⟩

/-- What the two masters see of the rest. -/
def mastersInputs : TripleBuffer.Inputs where
  fifoDataAvailable := s.camera.fifo.almostEmpty 8
  fifoReadData := s.camera.fifo.q
  amWaitRequest := i.amWaitRequest
  avmWaitRequest := i.avmWaitRequest
  avmReadDataValid := FullLcd.avmReadDataValid s.lcd (lcdInputs address length s i)
  avmReadData := s.lcd.pending.headD 0
  write16 := LcdControl.write16 s.lcd.control
  masterStart := LcdControl.masterStart s.lcd.control
    (FullLcd.controlInputs s.lcd (lcdInputs address length s i))
  fullFifo := F.full s.lcd.fifo
  emptyFifo := F.empty s.lcd.fifo

end Composition

section Defs

variable (F : PixelFifo) (address length : BitVec 32) (q0 : Word) (m0 : BitVec 32 → Word)

/-- All of them from reset on, `Buffer_Saved` powered up as 00. -/
def machine : Machine (Regs F) Inputs where
  init := ⟨(Gather.machine 0 q0).init, ⟨m0, 0, 0⟩, (FullLcd.machine F).init⟩
  step := step address length

variable (inp : Nat → Inputs)

/-- The system in cycle `n`. -/
abbrev regs (n : Nat) : Regs F := (machine F address length q0 m0).run inp n

/-- The inputs of the camera's side along the run. -/
def cameraRun (n : Nat) : Gather.Inputs :=
  cameraInputs address length (regs F address length q0 m0 inp n) (inp n)

/-- The inputs of the display's side along the run. -/
def lcdRun (n : Nat) : FullLcd.Inputs :=
  lcdInputs address length (regs F address length q0 m0 inp n) (inp n)

/-- The frames published before cycle `n`. -/
def frames (n : Nat) : Nat := FrameStore.frames 0 q0 (cameraRun F address length q0 m0 inp) n

/-- The words pushed for the frame published last before cycle `n`. -/
def lastFrame (n : Nat) : List Word :=
  ((Gather.pushed (cameraRun F address length q0 m0 inp) n).drop
    (8 * (blocks length * (frames F address length q0 m0 inp n - 1)))).take (8 * blocks length)

/-- A run up to cycle `m`: the camera is started once, after cycle `n0`, its FIFO has room, the
eighth beat of a burst is not stalled, no frame is completed in a race with the display, and the
CPU leaves a memory write alone. -/
structure Orderly (n0 m : Nat) : Prop where
  low : ∀ k, k ≤ n0 → (inp k).ready = false
  high : ∀ k, n0 < k → k ≤ m → (inp k).ready = true
  room : ∀ k, k < m → (inp k).push ≠ none →
    (regs F address length q0 m0 inp k).camera.fifo.words.length < 32
  eighth : ∀ k, k < m →
    (regs F address length q0 m0 inp k).camera.master.state = .idleForReady →
    (regs F address length q0 m0 inp k).camera.master.amWrite = true →
    (inp k).amWaitRequest = false
  raceless : ∀ k, n0 < k → k < m →
    ¬ TripleBuffer.Race length (masters (regs F address length q0 m0 inp k))
      (mastersInputs address length (regs F address length q0 m0 inp k) (inp k))
  cpu : ∀ k, k < m → FullLcd.Undisturbed (regs F address length q0 m0 inp k).lcd
    (lcdRun F address length q0 m0 inp k) (lcdRun F address length q0 m0 inp (k + 1))

end Defs

/-- The strobes of a display of these words: the pixels, then the closing command. -/
def strobes (ws : List Word) : List LcdControl.Strobe :=
  (ws.flatMap FullLcd.halves).map (fun d => (true, d)) ++ [(false, 0x0000)]

/-! ## The sides of a run -/

section Sides

variable {F : PixelFifo} {a l : BitVec 32} {q0 : Word} {m0 : BitVec 32 → Word} {inp : Nat → Inputs}

theorem camera_eq (n : Nat) : (regs F a l q0 m0 inp n).camera =
    Gather.regs 0 q0 (cameraRun F a l q0 m0 inp) n := by
  induction n with
  | zero => rfl
  | succ n ih =>
    show Gather.step (regs F a l q0 m0 inp n).camera _ = Gather.step _ _
    rw [ih]
    rfl

theorem memory_eq (n : Nat) : (regs F a l q0 m0 inp n).memory =
    FrameStore.slave 0 q0 m0 (cameraRun F a l q0 m0 inp) n := by
  induction n with
  | zero => rfl
  | succ n ih =>
    show Slave.step 4 (regs F a l q0 m0 inp n).memory
      (FrameStore.bus (regs F a l q0 m0 inp n).camera.master _) = Slave.step 4 _ _
    rw [ih, camera_eq]
    rfl

theorem lcd_eq (n : Nat) : (regs F a l q0 m0 inp n).lcd =
    FullLcd.regs F (lcdRun F a l q0 m0 inp) n := by
  induction n with
  | zero => rfl
  | succ n ih =>
    show FullLcd.step (regs F a l q0 m0 inp n).lcd _ = FullLcd.step _ _
    rw [ih]
    rfl

theorem master_eq (n : Nat) : (regs F a l q0 m0 inp n).camera.master =
    FrameStore.master 0 q0 (cameraRun F a l q0 m0 inp) n := by
  rw [camera_eq]

/-- With `Ready` high the two masters move as in the design of the three buffers. -/
theorem masters_step {s : Regs F} {i : Inputs} (h : i.ready = true) :
    masters (step a l s i) = TripleBuffer.step a l (masters s) (mastersInputs a l s i) := by
  unfold masters step TripleBuffer.step Gather.step
  congr 1
  show CameraMaster.clock _ (Gather.masterInputs _ _) = CameraMaster.clock _ _
  congr 1
  show CameraMaster.Inputs.mk _ _ i.ready _ _ _ _ = _
  rw [h]
  rfl

/-- The display's master does not look at `Ready`. -/
theorem masters_lcd (s : Regs F) (i : Inputs) : (masters (step a l s i)).lcd =
    (TripleBuffer.step a l (masters s) (mastersInputs a l s i)).lcd := rfl

/-- With `Ready` low the camera keeps its two indices at rest. -/
theorem masters_stopped {s : Regs F} {i : Inputs} (hr : i.ready = false)
    (hs : s.camera.master.state = .idleForReady)
    (h : TripleBuffer.Inv False (masters s)) : TripleBuffer.Inv False (masters (step a l s i)) := by
  obtain ⟨hz0, hs0, hu0⟩ := h.before id
  have hcamera : (masters (step a l s i)).camera.indiceMemoryZone = 0 ∧
      (masters (step a l s i)).camera.bufferSaved = 0 := by
    have he := Gather.master_edge s.camera (cameraInputs a l s i)
    show (Gather.step s.camera (cameraInputs a l s i)).master.indiceMemoryZone = 0 ∧
      (Gather.step s.camera (cameraInputs a l s i)).master.bufferSaved = 0
    generalize (Gather.step s.camera (cameraInputs a l s i)).master = r' at he ⊢
    cases he with
    | stop => exact ⟨hz0, hs0⟩
    | resume _ h1 | publish _ h1 => simp [Gather.masterInputs, cameraInputs, hr] at h1
    | await h1 | fetch h1 | abort h1 | clockWait h1 | collect h1 | collectRelease h1
    | collectLast h1 | sendInit h1 | stall h1 | beat h1 | lastBeat h1 => simp [hs] at h1
  have hused : (masters (step a l s i)).lcd.bufferUsed = 0 := by
    rw [masters_lcd]
    rcases TripleBuffer.lcd_edge a l (mastersInputs a l s i) (masters s) with
      ⟨-, hu⟩ | ⟨-, hu, -⟩ | ⟨-, hu, -⟩
    · exact hu.trans hu0
    · exact hu
    · exact hu.trans hs0
  refine ⟨?_, ?_, ?_, fun _ => ⟨hcamera.1, hcamera.2, hused⟩, False.elim, False.elim⟩
  · rw [hcamera.1]
    decide
  · rw [hcamera.2]
    decide
  · rw [hused]
    decide

end Sides

/-! ## The buffers in use -/

section Run

variable {F : PixelFifo} {a l : BitVec 32} {q0 : Word} {m0 : BitVec 32 → Word} {inp : Nat → Inputs}
  {n0 n m c : Nat}

theorem frames_succ (n : Nat) : frames F a l q0 m0 inp (n + 1) = frames F a l q0 m0 inp n +
    if FrameStore.Publishes 0 q0 (cameraRun F a l q0 m0 inp) n then 1 else 0 :=
  FrameStore.frames_succ n

/-- **The indices in every cycle**: they are buffers, and after the first frame nobody writes the
buffer that is published, nor the one that is displayed. -/
theorem indices_run (h : Orderly F a l q0 m0 inp n0 m) (hn : n ≤ m) :
    TripleBuffer.Inv (0 < frames F a l q0 m0 inp n) (masters (regs F a l q0 m0 inp n)) := by
  induction n with
  | zero =>
    have h3 : (0 : BitVec 2) ≠ 3 := by decide
    exact ⟨h3, h3, h3, fun _ => ⟨rfl, rfl, rfl⟩, fun hc => absurd hc (Nat.lt_irrefl 0),
      fun hc => absurd hc (Nat.lt_irrefl 0)⟩
  | succ n ih =>
    have hinv := ih (by omega)
    show TripleBuffer.Inv _ (masters (step a l (regs F a l q0 m0 inp n) (inp n)))
    by_cases hlow : n ≤ n0
    · -- nothing has been started yet
      have hrest : ∀ k ≤ n + 1, FrameStore.Resting 0 q0 m0 (cameraRun F a l q0 m0 inp) k :=
        fun k hk => FrameStore.resting_run fun j hj => h.low j (by omega)
      have hzero : ∀ k ≤ n + 1, (0 < frames F a l q0 m0 inp k) = False := by
        intro k hk
        rw [frames, (hrest k hk).frames]
        exact eq_false (Nat.lt_irrefl 0)
      rw [hzero n (by omega)] at hinv
      rw [hzero (n + 1) (Nat.le_refl _)]
      refine masters_stopped (h.low n hlow) ?_ hinv
      rw [master_eq]
      exact (hrest n (by omega)).state
    · have hr := h.high n (by omega) (by omega)
      rw [masters_step hr]
      by_cases hc : TripleBuffer.Completes l (masters (regs F a l q0 m0 inp n))
      · have hpub : FrameStore.Publishes 0 q0 (cameraRun F a l q0 m0 inp) n := by
          obtain ⟨hs, hoff⟩ := hc
          refine ⟨?_, hr, ?_⟩
          · rw [← master_eq]
            exact hs
          · rw [← master_eq]
            exact hoff
        have hpos : (0 < frames F a l q0 m0 inp (n + 1)) = True := by
          rw [frames_succ, if_pos hpub]
          exact eq_true (Nat.succ_pos _)
        rw [hpos]
        exact TripleBuffer.inv_completes a l _ hinv hc (h.raceless n (by omega) (by omega))
      · have hpub : ¬ FrameStore.Publishes 0 q0 (cameraRun F a l q0 m0 inp) n := by
          rintro ⟨hs, -, hoff⟩
          rw [← master_eq] at hs hoff
          exact hc ⟨hs, hoff⟩
        rw [frames_succ, if_neg hpub, Nat.add_zero]
        exact TripleBuffer.inv_continues a l _ hinv hc

/-- The camera's side of an orderly run. -/
theorem Orderly.undisturbed (h : Orderly F a l q0 m0 inp n0 m) :
    FrameStore.Undisturbed 0 q0 (cameraRun F a l q0 m0 inp) a l n0 m where
  low := h.low
  high := h.high
  programmed := fun _ _ _ => ⟨rfl, rfl⟩
  room := by
    intro k hk
    rw [← camera_eq]
    exact h.room k hk
  display := fun k hk => (indices_run h (by omega)).used
  eighth := by
    intro k hk
    rw [← master_eq]
    exact h.eighth k hk

theorem Orderly.cpu_lcd (h : Orderly F a l q0 m0 inp n0 m) {k : Nat} (hk : k < m) :
    FullLcd.Undisturbed (FullLcd.regs F (lcdRun F a l q0 m0 inp) k) (lcdRun F a l q0 m0 inp k)
      (lcdRun F a l q0 m0 inp (k + 1)) := by
  rw [← lcd_eq]
  exact h.cpu k hk

/-! ## A session -/

/-- A frame has been published, so the camera has been started. -/
theorem started (h : Orderly F a l q0 m0 inp n0 m) (hf : 0 < frames F a l q0 m0 inp n) :
    n0 < n := by
  by_contra hle
  have hrest : FrameStore.Resting 0 q0 m0 (cameraRun F a l q0 m0 inp) n :=
    FrameStore.resting_run fun k hk => h.low k (by omega)
  rw [frames, hrest.frames] at hf
  exact Nat.lt_irrefl 0 hf

/-- A cycle in which the camera fills another buffer than `z`. -/
theorem still_step (h : Orderly F a l q0 m0 inp n0 m) (hl : FrameStore.Fits l) (hn0 : n0 < n)
    (hn : n < m) {z : BitVec 2} (h3 : z ≠ 3)
    (hz : z ≠ (regs F a l q0 m0 inp n).camera.master.indiceMemoryZone) {i : Nat}
    (hi : i < 8 * blocks l) :
    (regs F a l q0 m0 inp (n + 1)).memory.memory (word 4 (bufferBase a l z) i) =
      (regs F a l q0 m0 inp n).memory.memory (word 4 (bufferBase a l z) i) := by
  obtain ⟨d, hd⟩ : ∃ d, FrameStore.Stored 0 q0 m0 (cameraRun F a l q0 m0 inp) a l n d :=
    FrameStore.stored_run hl h.undisturbed hn0 (by omega)
  rw [memory_eq, memory_eq]
  rw [master_eq] at hz
  exact hd.other hl h3 hz hi

theorem frames_mono {k : Nat} (h : k ≤ n) :
    frames F a l q0 m0 inp k ≤ frames F a l q0 m0 inp n := FrameStore.frames_le h

section Session

variable (h : Orderly F a l q0 m0 inp n0 m) (hl : FrameStore.Fits l)
  (hvalid : FullLcd.ValidBuffer (lcdRun F a l q0 m0 inp (c + 10)))
  (hstart : FullLcd.Starts F (lcdRun F a l q0 m0 inp) c)
  (hf : 0 < frames F a l q0 m0 inp (c + 10))

include h hvalid hstart hf

/-- The camera does not fill the buffer of a session whose DMA is not done. -/
theorem filled_elsewhere (j : Nat) (hj : c + 11 + j ≤ m)
    (hopen : ∀ k, c ≤ k → k < c + 11 + j →
      ¬ FullLcd.Finishes (FullLcd.regs F (lcdRun F a l q0 m0 inp) k))
    (hm : (FullLcd.regs F (lcdRun F a l q0 m0 inp) (c + 11 + j)).master.state ≠ .init) :
    (regs F a l q0 m0 inp (c + 10)).camera.master.bufferSaved ≠
      (regs F a l q0 m0 inp (c + 11 + j)).camera.master.indiceMemoryZone := by
  have hcpu : ∀ k < c + 11 + j, FullLcd.Undisturbed (FullLcd.regs F (lcdRun F a l q0 m0 inp) k)
      (lcdRun F a l q0 m0 inp k) (lcdRun F a l q0 m0 inp (k + 1)) :=
    fun k hk => h.cpu_lcd (by omega)
  have hread := FullLcd.reading_before hstart j hcpu hopen hm j (Nat.le_refl j)
  have hused := (FullLcd.claims_run hstart hvalid j hcpu hopen hm).used
  rw [← lcd_eq] at hread hused
  have hfj : 0 < frames F a l q0 m0 inp (c + 11 + j) :=
    Nat.lt_of_lt_of_le hf (frames_mono (by omega))
  have huntorn := (indices_run h hj).untorn hfj hread
  intro heq
  exact huntorn (heq.symm.trans hused.symm)

include hl

/-- **The buffer of a session stands still** until the DMA of the display is done. -/
theorem still_run (j : Nat) (hj : c + 11 + j ≤ m)
    (hopen : ∀ k, c ≤ k → k < c + 11 + j →
      ¬ FullLcd.Finishes (FullLcd.regs F (lcdRun F a l q0 m0 inp) k))
    (hm : (FullLcd.regs F (lcdRun F a l q0 m0 inp) (c + 11 + j)).master.state ≠ .init) (i : Nat)
    (hi : i < 8 * blocks l) :
    (regs F a l q0 m0 inp (c + 11 + j)).memory.memory
        (word 4 (bufferBase a l (regs F a l q0 m0 inp (c + 10)).camera.master.bufferSaved) i) =
      (regs F a l q0 m0 inp (c + 10)).memory.memory
        (word 4 (bufferBase a l (regs F a l q0 m0 inp (c + 10)).camera.master.bufferSaved) i) := by
  have hn0 := started h hf
  have hinv := indices_run (n := c + 10) h (by omega)
  have hsaved : (regs F a l q0 m0 inp (c + 10)).camera.master.bufferSaved ≠ 3 := hinv.saved
  induction j with
  | zero => exact still_step h hl hn0 (by omega) hsaved (hinv.published hf) hi
  | succ j ih =>
    have hcpu : ∀ k < c + 11 + (j + 1),
        FullLcd.Undisturbed (FullLcd.regs F (lcdRun F a l q0 m0 inp) k)
          (lcdRun F a l q0 m0 inp k) (lcdRun F a l q0 m0 inp (k + 1)) :=
      fun k hk => h.cpu_lcd (by omega)
    have hm' := (FullLcd.reading_before hstart (j + 1) hcpu hopen hm j (by omega)).1
    have hopen' : ∀ k, c ≤ k → k < c + 11 + j →
        ¬ FullLcd.Finishes (FullLcd.regs F (lcdRun F a l q0 m0 inp) k) :=
      fun k h1 h2 => hopen k h1 (by omega)
    have hother := filled_elsewhere h hvalid hstart hf j (by omega) hopen' hm'
    rw [show c + 11 + (j + 1) = c + 11 + j + 1 from rfl,
      still_step h hl (by omega) (by omega) hsaved hother hi]
    exact ih (by omega) hopen' hm'

end Session

/-- The published buffer holds the frame published last. -/
theorem published_words (h : Orderly F a l q0 m0 inp n0 m) (hl : FrameStore.Fits l)
    (hf : 0 < frames F a l q0 m0 inp n) (hn : n ≤ m) :
    FullLcd.words (regs F a l q0 m0 inp n).memory.memory
        (bufferBase a l (regs F a l q0 m0 inp n).camera.master.bufferSaved) (8 * blocks l) =
      lastFrame F a l q0 m0 inp n := by
  obtain ⟨d, hd⟩ : ∃ d, FrameStore.Stored 0 q0 m0 (cameraRun F a l q0 m0 inp) a l n d :=
    FrameStore.stored_run hl h.undisturbed (started h hf) hn
  have hfill := (hd.kept hf).2.2.append
    (Gather.regs 0 q0 (cameraRun F a l q0 m0 inp) n).fifo.words
  rw [(Gather.inv_run (h.undisturbed.fed hn)).conserved, ← master_eq, ← memory_eq] at hfill
  exact hfill.words

end Run

/-- What a session has shown by cycle `n`, the buffer being latched in cycle `c + 10`. -/
structure ShowsFrame (F : PixelFifo) (a l : BitVec 32) (q0 : Word) (m0 : BitVec 32 → Word)
    (inp : Nat → Inputs) (c n : Nat) : Prop where
  /-- The frame is a whole one. -/
  whole : 4 * (lastFrame F a l q0 m0 inp (c + 10)).length = l.toNat
  inOrder : FullLcd.shown F (lcdRun F a l q0 m0 inp) c n <+:
    strobes (lastFrame F a l q0 m0 inp (c + 10))
  complete : FullLcd.Finishes (regs F a l q0 m0 inp n).lcd →
    FullLcd.shown F (lcdRun F a l q0 m0 inp) c n = strobes (lastFrame F a l q0 m0 inp (c + 10))

/-- **The LCD shows whole frames**: the pixels of a session are, in order and at its end without
exception, those pushed into the camera's FIFO for the frame that was published last when the
session latched its buffer, however many frames the camera has written since. -/
theorem shows_frame (F : PixelFifo) (a l : BitVec 32) (q0 : Word) (m0 : BitVec 32 → Word)
    (inp : Nat → Inputs) (n0 c n : Nat) (h : Orderly F a l q0 m0 inp n0 n) (hpos : 0 < l.toNat)
    (h64 : l.toNat % 64 = 0) (hsmall : l.toNat < 0x40000000)
    (hstart : FullLcd.Starts F (lcdRun F a l q0 m0 inp) c) (hcn : c + 10 ≤ n)
    (hf : 0 < frames F a l q0 m0 inp (c + 10))
    (hopen : ∀ k, c ≤ k → k < n → ¬ FullLcd.Finishes (regs F a l q0 m0 inp k).lcd) :
    ShowsFrame F a l q0 m0 inp c n := by
  have hl : FrameStore.Fits l := ⟨hpos, by omega, by omega⟩
  have hblocks := hl.blocks
  have hsaved : (regs F a l q0 m0 inp (c + 10)).camera.master.bufferSaved ≠ 3 :=
    (indices_run (n := c + 10) h (by omega)).saved
  have hvalid : FullLcd.ValidBuffer (lcdRun F a l q0 m0 inp (c + 10)) :=
    ⟨hpos, h64, hsmall, FrameStore.toNat_le_two hsaved⟩
  have hbase : FullLcd.base (lcdRun F a l q0 m0 inp (c + 10)) =
      bufferBase a l (regs F a l q0 m0 inp (c + 10)).camera.master.bufferSaved :=
    (FrameStore.bufferBase_eq _ _ _).symm
  have hopen' : ∀ k, c ≤ k → k < n →
      ¬ FullLcd.Finishes (FullLcd.regs F (lcdRun F a l q0 m0 inp) k) := by
    intro k h1 h2
    rw [← lcd_eq]
    exact hopen k h1 h2
  have hsteady : FullLcd.Steady F (lcdRun F a l q0 m0 inp)
      (regs F a l q0 m0 inp (c + 10)).memory.memory c n := by
    intro k h1 h2 hread i hi
    obtain ⟨j, rfl⟩ := Nat.exists_eq_add_of_le (show c + 11 ≤ k by omega)
    have hstate : (FullLcd.regs F (lcdRun F a l q0 m0 inp) (c + 11 + j)).master.state ≠ .init := by
      rw [(FullLcd.sound_run F _ _).bus.read] at hread
      simp [of_decide_eq_true hread]
    rw [FullLcd.wordAt, hbase]
    have hi' : 4 * i < l.toNat := hi
    exact still_run h hl hvalid hstart hf j (by omega) (fun k h1 h2 => hopen' k h1 (by omega))
      hstate i (by omega)
  have hwords := published_words h hl hf hcn
  have hscreen : FullLcd.screen (regs F a l q0 m0 inp (c + 10)).memory.memory
      (lcdRun F a l q0 m0 inp (c + 10)) = strobes (lastFrame F a l q0 m0 inp (c + 10)) := by
    have hhalf : l.toNat / 2 = 2 * (8 * blocks l) := by omega
    rw [strobes, ← hwords, FullLcd.words_halves, FullLcd.screen, hbase, List.map_map]
    show List.map _ (List.range (l.toNat / 2)) ++ _ = _
    rw [hhalf]
    rfl
  obtain ⟨hshown, hdone⟩ := FullLcd.shows_shared hstart (by omega) hvalid
    (fun k hk => h.cpu_lcd hk) hopen' hsteady
  rw [hscreen] at hshown hdone
  refine ⟨?_, hshown, ?_⟩
  · rw [← hwords, FullLcd.words, List.length_map, List.length_range]
    omega
  · intro hfin
    rw [lcd_eq] at hfin
    exact hdone hfin

end CameraLcd.Video
