import CameraLcd.Lcd.Progress
import CameraLcd.System.FrameProgress
import CameraLcd.System.Video

/-!
# The picture goes on

The camera's side, the memory and the display of `Video`, all of them supplied for ever.

* `Served` — what the rest of the system does for them.
* `saved_ne_three` — the display's buffer is always one of the three.
* `Paced` — an environment that keeps the two sides apart: `Paced.orderly` and `Paced.served`.
* `live_video` — every number of frames is reached, and after it there is a session that begins,
  ends and shows the frame published last when it began.
-/

set_option autoImplicit false

namespace CameraLcd.Video

open Clocked
open CameraMaster (blocks)
open FullLcd (PixelFifo)
open Gather (Word)

/-- The camera is started once and for good after cycle `n0`, and the CPU asks for a continuous
display from cycle `c0` on; words arrive, and the two buses answer, again and again. -/
structure Served (inp : Nat → Inputs) (n0 c0 : Nat) : Prop where
  low : ∀ k, k ≤ n0 → (inp k).ready = false
  high : ∀ k, n0 < k → (inp k).ready = true
  words : Recurs fun k => (inp k).push.isSome
  takes : Recurs fun k => !(inp k).amWaitRequest
  accepts : Recurs fun k => !(inp k).avmWaitRequest
  beats : Recurs fun k => (inp k).beat
  request : ∀ k, c0 ≤ k → (inp k).stateCommandData = 3
  command : ∀ k, c0 ≤ k → LcdControl.memoryWrite (inp k).commandData = true

section Run

variable {F : PixelFifo} {a l : BitVec 32} {q0 : Word} {m0 : BitVec 32 → Word} {inp : Nat → Inputs}
  {n0 c0 : Nat}

/-- **The published index is a buffer**, whatever the display does. -/
theorem saved_ne_three (n : Nat) :
    (regs F a l q0 m0 inp n).camera.master.bufferSaved ≠ 3 := by
  rw [master_eq, FrameStore.master_eq]
  induction n with
  | zero =>
    show (0 : BitVec 2) ≠ 3
    decide
  | succ n ih =>
    by_cases hpub : CameraMaster.Publishes 0 (fun k => Gather.masterInputs
        (Gather.regs 0 q0 (cameraRun F a l q0 m0 inp) k) (cameraRun F a l q0 m0 inp k)) n
    · rw [(CameraMaster.publish_succ hpub).1]
      exact CameraMaster.zone_ne_three n
    · rw [(CameraMaster.zone_succ hpub).2]
      exact ih

theorem Served.supplied (h : Served inp n0 c0) :
    FrameStore.Supplied (cameraRun F a l q0 m0 inp) a l n0 where
  low := h.low
  high := h.high
  programmed := fun _ _ => ⟨rfl, rfl⟩
  words := h.words
  accepts := h.takes

/-- The display's side is asked for a continuous display of valid buffers. -/
theorem continuous (hrequest : ∀ k, c0 ≤ k → (inp k).stateCommandData = 3)
    (hcommand : ∀ k, c0 ≤ k → LcdControl.memoryWrite (inp k).commandData = true)
    (hpos : 0 < l.toNat) (h64 : l.toNat % 64 = 0) (hsmall : l.toNat < 0x40000000) :
    FullLcd.Continuous (lcdRun F a l q0 m0 inp) c0 where
  request := hrequest
  command := hcommand
  valid := fun k _ => ⟨hpos, h64, hsmall, FrameStore.toNat_le_two (saved_ne_three k)⟩

end Run

/-! ## An environment that keeps the sides apart -/

/-- The edges until the master leaves `IDLE_FOR_DATA`, if there are words and no stalls. -/
def toFetch (r : CameraMaster.Regs) : Nat :=
  match r.state with
  | .idleForReady => 2
  | .idleForData => 1
  | .clockWaitDataFifo => 0
  | .collectDataFifo => 60 - r.indiceArrayFifo.toNat
  | .dmaSendInit => 40
  | .dmaSendLoop => 20 - r.indiceArrayDma.toNat

/-- **With words in the FIFO and no stall** the next burst comes closer. -/
theorem edge_toFetch {r r' : CameraMaster.Regs} {i : CameraMaster.Inputs}
    (he : CameraMaster.Edge r i r') (hs : Gather.Stage r) (hr : i.ready = true)
    (hd : i.fifoDataAvailable = false)
    (hw : ¬ (r.state = .dmaSendLoop ∧ i.amWaitRequest = true))
    (hne : r.state ≠ .clockWaitDataFifo) : toFetch r' < toFetch r := by
  cases he with
  | stop _ h1 | abort _ h1 => simp [hr] at h1
  | await _ _ h1 => simp [hd] at h1
  | stall h1 h2 => exact absurd ⟨h1, h2⟩ hw
  | clockWait h1 => exact absurd h1 hne
  | resume h1 | publish h1 | fetch h1 => simp [toFetch, h1]
  | sendInit h1 =>
    simp only [toFetch, CameraMaster.dmaSendInit, h1]
    omega
  | collect h1 | collectRelease h1 | collectLast h1 =>
    cases hs with
    | collect j hj _ _ hfifo =>
      have hnext := Gather.index_succ hfifo (by omega)
      simp only [toFetch, h1, hnext, hfifo]
      omega
    | idle h2 | await h2 | wait h2 | full h2 | loop h2 => simp [h1] at h2
  | beat h1 _ h6 =>
    have h6' : r.indiceArrayDma.toNat < 6 := by simpa [BitVec.lt_def] using h6
    have hnext := Gather.index_succ (x := r.indiceArrayDma) rfl (by omega)
    simp only [toFetch, h1, hnext]
    omega
  | lastBeat h1 =>
    cases hs with
    | loop _ _ hdma =>
      simp only [toFetch, h1]
      omega
    | idle h2 | await h2 | wait h2 | collect _ _ h2 | full h2 => simp [h1] at h2

section Paced

variable (F : PixelFifo) (a l : BitVec 32) (q0 : Word) (m0 : BitVec 32 → Word)
  (inp : Nat → Inputs) (n0 c0 : Nat)

/-- Words are pushed whenever the FIFO has room and at no other time, and the bus holds a burst of
the camera, before its eighth beat, as long as the display's DMA is in `Init` or `Copy`. -/
structure Paced : Prop where
  low : ∀ k, k ≤ n0 → (inp k).ready = false
  high : ∀ k, n0 < k → (inp k).ready = true
  pushes : ∀ k, (inp k).push.isSome = true ↔
    (regs F a l q0 m0 inp k).camera.fifo.words.length < 32
  stalls : ∀ k, (inp k).amWaitRequest = true ↔
    (regs F a l q0 m0 inp k).camera.master.state = .dmaSendLoop ∧
      ¬ LcdMaster.Reading (regs F a l q0 m0 inp k).lcd.master
  accepts : Recurs fun k => !(inp k).avmWaitRequest
  beats : Recurs fun k => (inp k).beat
  request : ∀ k, c0 ≤ k → (inp k).stateCommandData = 3
  command : ∀ k, c0 ≤ k → LcdControl.memoryWrite (inp k).commandData = true
  cpu : ∀ k, FullLcd.Undisturbed (regs F a l q0 m0 inp k).lcd
    (lcdRun F a l q0 m0 inp k) (lcdRun F a l q0 m0 inp (k + 1))

theorem words_le (n : Nat) : (regs F a l q0 m0 inp n).camera.fifo.words.length ≤ 32 := by
  induction n with
  | zero => exact Nat.zero_le _
  | succ n ih =>
    show (if (inp n).ready then _ else _ : IdealFifo.Queue Word).words.length ≤ 32
    split
    · exact IdealFifo.Queue.edge_length_le ih
    · exact Nat.zero_le _

theorem camera_edge (k : Nat) : CameraMaster.Edge (regs F a l q0 m0 inp k).camera.master
    (Gather.masterInputs (regs F a l q0 m0 inp k).camera (cameraRun F a l q0 m0 inp k))
    (regs F a l q0 m0 inp (k + 1)).camera.master := Gather.master_edge _ _

theorem camera_stage (k : Nat) : Gather.Stage (regs F a l q0 m0 inp k).camera.master := by
  rw [master_eq]
  exact Gather.stage_run _ _ _ k

variable {F a l q0 m0 inp n0 c0}

/-- **A frame is completed after a beat that was taken**, and the display's DMA was reading then. -/
theorem Paced.completes_succ (h : Paced F a l q0 m0 inp n0 c0) (hpos : 0 < l.toNat) {k : Nat}
    (hk : n0 ≤ k)
    (hc : TripleBuffer.Completes l (masters (regs F a l q0 m0 inp (k + 1)))) :
    LcdMaster.Reading (regs F a l q0 m0 inp k).lcd.master := by
  obtain ⟨hs, hoff⟩ := hc
  have he := camera_edge F a l q0 m0 inp k
  have hstate : (regs F a l q0 m0 inp (k + 1)).camera.master.state = .idleForReady := hs
  have hfull : (regs F a l q0 m0 inp (k + 1)).camera.master.offsetAddress ≥ l := hoff
  generalize (regs F a l q0 m0 inp (k + 1)).camera.master = r' at he hstate hfull
  cases he with
  | stop =>
    -- before the start the offset is 0
    have hzero : l.toNat ≤ 0 := hfull
    omega
  | abort h1 h2 =>
    -- in the last cycle with `Ready` low the master has not left `IDLE_FOR_READY`
    have hlow : ∀ j < k, (cameraRun F a l q0 m0 inp j).ready = false := by
      intro j hj
      rcases Nat.eq_or_lt_of_le hk with rfl | hlt
      · exact h.low j (by omega)
      · exact absurd (h2.symm.trans (h.high k hlt)) Bool.false_ne_true
    have hrest : FrameStore.Resting 0 q0 m0 (cameraRun F a l q0 m0 inp) k :=
      FrameStore.resting_run hlow
    have hidle := hrest.state
    rw [← master_eq, h1] at hidle
    cases hidle
  | lastBeat h1 h2 =>
    by_contra hread
    have hstall : (inp k).amWaitRequest = true := (h.stalls k).mpr ⟨h1, hread⟩
    exact absurd (h2.symm.trans hstall) Bool.false_ne_true
  | stall h1 | beat h1 | collect h1 | collectRelease h1 =>
    rw [show _ = _ from hstate] at h1
    cases h1
  | sendInit => cases hstate
  | resume | publish | fetch | clockWait | collectLast => cases hstate
  | await h1 =>
    rw [show _ = _ from hstate] at h1
    cases h1

theorem reading_not_copy {r : LcdMaster.Regs} (i : LcdMaster.Inputs) (h : LcdMaster.Reading r) :
    (LcdMaster.clock r i).state ≠ .copy := by
  obtain ⟨h1, h2⟩ := h
  cases hs : r.state with
  | init => exact absurd hs h1
  | copy => exact absurd hs h2
  | assertReadData => simp [LcdMaster.clock_assertReadData hs]
  | checkWaitRequest =>
    rw [LcdMaster.clock_checkWaitRequest hs]
    cases i.avmWaitRequest <;> simp
  | readData =>
    rw [LcdMaster.clock_readData hs]
    dsimp only
    split <;> simp
  | newAdd => simp [LcdMaster.clock_newAdd hs]
  | checkAdd =>
    rw [LcdMaster.clock_checkAdd hs]
    dsimp only
    split <;> simp
  | checkFifo =>
    rw [LcdMaster.clock_checkFifo hs]
    cases i.fullFifo <;> simp
  | waitLcdControl =>
    rw [LcdMaster.clock_waitLcdControl hs]
    cases i.write16 <;> simp

/-- **No frame is ever completed in a race with the display.** -/
theorem Paced.orderly (h : Paced F a l q0 m0 inp n0 c0) (hpos : 0 < l.toNat) (n : Nat) :
    Orderly F a l q0 m0 inp n0 n where
  low := h.low
  high := fun k hk _ => h.high k hk
  room := fun k _ hpush => (h.pushes k).mp (Option.isSome_iff_ne_none.mpr hpush)
  eighth := by
    intro k _ hs _
    rw [← Bool.not_eq_true, h.stalls]
    rintro ⟨hloop, -⟩
    rw [hs] at hloop
    cases hloop
  raceless := by
    rintro k hk - ⟨hcopy, -, hc, -⟩
    obtain ⟨j, rfl⟩ : ∃ j, k = j + 1 := ⟨k - 1, by omega⟩
    exact reading_not_copy _ (h.completes_succ hpos (by omega) hc) hcopy
  cpu := fun k _ => h.cpu k

theorem Paced.reading_recurs (h : Paced F a l q0 m0 inp n0 c0)
    (hstart : FullLcd.Starts F (lcdRun F a l q0 m0 inp) c0) (hpos : 0 < l.toNat)
    (h64 : l.toNat % 64 = 0) (hsmall : l.toNat < 0x40000000) (n : Nat) :
    ∃ m, n ≤ m ∧ LcdMaster.Reading (regs F a l q0 m0 inp m).lcd.master := by
  have hcpu : ∀ k, FullLcd.Undisturbed (FullLcd.regs F (lcdRun F a l q0 m0 inp) k)
      (lcdRun F a l q0 m0 inp k) (lcdRun F a l q0 m0 inp (k + 1)) := by
    intro k
    rw [← lcd_eq]
    exact h.cpu k
  obtain ⟨c, hc, -, hs⟩ := FullLcd.starts_recur hstart
    (continuous h.request h.command hpos h64 hsmall) hcpu ⟨h.accepts, h.beats⟩ n
  have hcopy := FullLcd.at_copy hs fun k _ => hcpu k
  refine ⟨c + 11, by omega, ?_⟩
  rw [lcd_eq]
  have hnext : (FullLcd.regs F (lcdRun F a l q0 m0 inp) (c + 11)).master.state =
      .assertReadData := by
    show (LcdMaster.clock (FullLcd.regs F (lcdRun F a l q0 m0 inp) (c + 10)).master _).state = _
    rw [LcdMaster.clock_copy hcopy.master]
    exact if_pos (F.empty_of_nil _ hcopy.stored)
  rw [LcdMaster.Reading, hnext]
  simp

theorem Paced.stalled_succ (h : Paced F a l q0 m0 inp n0 c0) {k : Nat}
    (hwait : (inp k).amWaitRequest = true) : (regs F a l q0 m0 inp (k + 1)).camera.master =
      (regs F a l q0 m0 inp k).camera.master := by
  have hloop := ((h.stalls k).mp hwait).1
  have he := camera_edge F a l q0 m0 inp k
  generalize (regs F a l q0 m0 inp (k + 1)).camera.master = r' at he
  cases he with
  | stall => rfl
  | beat _ h1 | lastBeat _ h1 => exact absurd (h1.symm.trans hwait) Bool.false_ne_true
  | stop h1 | resume h1 | publish h1 | await h1 | fetch h1 | abort h1 | clockWait h1
  | collect h1 | collectRelease h1 | collectLast h1 | sendInit h1 => simp [hloop] at h1

/-- With a full FIFO the master comes to read it. -/
theorem Paced.fetches (h : Paced F a l q0 m0 inp n0 c0)
    (htakes : Recurs fun k => !(inp k).amWaitRequest) {n : Nat} (hn : n0 < n)
    (hfull : ∀ k, n ≤ k → 32 ≤ (regs F a l q0 m0 inp k).camera.fifo.words.length) :
    ∃ m, n ≤ m ∧ (regs F a l q0 m0 inp m).camera.master.state = .clockWaitDataFifo := by
  have hdata : ∀ k, n ≤ k → (Gather.masterInputs (regs F a l q0 m0 inp k).camera
      (cameraRun F a l q0 m0 inp k)).fifoDataAvailable = false := by
    intro k hk
    have := hfull k hk
    exact decide_eq_false (by omega)
  have hready : ∀ k, n ≤ k → (Gather.masterInputs (regs F a l q0 m0 inp k).camera
      (cameraRun F a l q0 m0 inp k)).ready = true := fun k hk => h.high k (by omega)
  by_contra hno
  have hstep : ∀ k, n ≤ k → ∃ m, k < m ∧ (False ∨ n ≤ m ∧
      toFetch (regs F a l q0 m0 inp m).camera.master <
        toFetch (regs F a l q0 m0 inp k).camera.master) := by
    intro k hk
    -- a beat that is stalled leaves the master as it is
    have hkeep : ∀ j, (k ≤ j ∧ (regs F a l q0 m0 inp j).camera.master =
        (regs F a l q0 m0 inp k).camera.master) → (!(inp j).amWaitRequest) = false →
        k ≤ j + 1 ∧ (regs F a l q0 m0 inp (j + 1)).camera.master =
          (regs F a l q0 m0 inp k).camera.master := by
      rintro j ⟨hj, hsame⟩ hstall
      have hwait : (inp j).amWaitRequest = true := by simpa using hstall
      exact ⟨by omega, (h.stalled_succ hwait).trans hsame⟩
    obtain ⟨j, hj, ⟨-, hsame⟩, htake⟩ := htakes.wait hkeep ⟨Nat.le_refl k, rfl⟩
    refine ⟨j + 1, by omega, .inr ⟨by omega, ?_⟩⟩
    rw [← hsame]
    refine edge_toFetch (camera_edge F a l q0 m0 inp j) (camera_stage F a l q0 m0 inp j)
      (hready j (by omega)) (hdata j (by omega)) ?_ fun hfetch => hno ⟨j, by omega, hfetch⟩
    rintro ⟨-, hwait⟩
    rw [show (inp j).amWaitRequest = true from hwait] at htake
    cases htake
  obtain ⟨-, -, hfalse⟩ := leadsTo_of_rank (P := fun k => n ≤ k) (Q := fun _ => False)
    (fun k => toFetch (regs F a l q0 m0 inp k).camera.master) hstep (Nat.le_refl n)
  exact hfalse

/-- A read into which no word is pushed makes room. -/
theorem Paced.makes_room (h : Paced F a l q0 m0 inp n0 c0) {k : Nat} (hk : n0 < k)
    (hs : (regs F a l q0 m0 inp k).camera.master.state = .clockWaitDataFifo)
    (hnone : (inp k).push = none) :
    (regs F a l q0 m0 inp (k + 1)).camera.fifo.words.length < 32 := by
  have hread : (regs F a l q0 m0 inp k).camera.master.fifoReadRequest = true := by
    cases camera_stage F a l q0 m0 inp k with
    | wait _ h1 => exact h1
    | idle h1 | await h1 | collect _ _ h1 | full h1 | loop h1 => simp [hs] at h1
  have hnext : (regs F a l q0 m0 inp (k + 1)).camera.fifo =
      (regs F a l q0 m0 inp k).camera.fifo.edge 32 (inp k).push
        (regs F a l q0 m0 inp k).camera.master.fifoReadRequest := if_pos (h.high k hk)
  have hle := words_le F a l q0 m0 inp k
  rw [hnext, hread, hnone]
  simp [IdealFifo.Queue.edge]
  omega

/-- **The two sides are supplied for ever.** -/
theorem Paced.served (h : Paced F a l q0 m0 inp n0 c0)
    (hstart : FullLcd.Starts F (lcdRun F a l q0 m0 inp) c0) (hpos : 0 < l.toNat)
    (h64 : l.toNat % 64 = 0) (hsmall : l.toNat < 0x40000000) : Served inp n0 c0 := by
  have htakes : Recurs fun k => !(inp k).amWaitRequest := by
    intro n
    obtain ⟨m, hm, hread⟩ := h.reading_recurs hstart hpos h64 hsmall n
    refine ⟨m, hm, ?_⟩
    rw [Bool.not_eq_true', ← Bool.not_eq_true, h.stalls]
    exact fun hs => hs.2 hread
  refine ⟨h.low, h.high, ?_, htakes, h.accepts, h.beats, h.request, h.command⟩
  intro n
  by_contra hno
  -- without pushes the FIFO is full, and the first read makes room
  have hfull : ∀ k, max n (n0 + 1) ≤ k →
      32 ≤ (regs F a l q0 m0 inp k).camera.fifo.words.length := by
    intro k hk
    by_contra hroom
    exact hno ⟨k, by omega, (h.pushes k).mpr (by omega)⟩
  obtain ⟨m, hm, hs⟩ := h.fetches htakes (show n0 < max n (n0 + 1) by omega) hfull
  have hnone : (inp m).push = none := by
    rw [← Option.not_isSome_iff_eq_none]
    exact fun hsome => hno ⟨m, by omega, hsome⟩
  have hroom := h.makes_room (by omega) hs hnone
  have := hfull (m + 1) (by omega)
  omega

end Paced

/-! ## The picture -/

/-- **The picture goes on for ever.**  For every number `N` and every cycle `m` there is a session
that begins after `m` and latches its buffer when at least `N` frames have been published; it
ends, and it has shown the words of the frame published last, whole and in order, if the run has
been orderly up to its end. -/
theorem live_video (F : PixelFifo) (a l : BitVec 32) (q0 : Word) (m0 : BitVec 32 → Word)
    (inp : Nat → Inputs) (n0 c0 : Nat) (h : Served inp n0 c0)
    (hstart : FullLcd.Starts F (lcdRun F a l q0 m0 inp) c0)
    (hcpu : ∀ k, FullLcd.Undisturbed (FullLcd.regs F (lcdRun F a l q0 m0 inp) k)
      (lcdRun F a l q0 m0 inp k) (lcdRun F a l q0 m0 inp (k + 1)))
    (hpos : 0 < l.toNat) (h64 : l.toNat % 64 = 0) (hsmall : l.toNat < 0x40000000) (N m : Nat) :
    ∃ c n, m ≤ c ∧ N ≤ frames F a l q0 m0 inp (c + 10) ∧ c + 11 ≤ n ∧
      FullLcd.Starts F (lcdRun F a l q0 m0 inp) c ∧
      FullLcd.Finishes (regs F a l q0 m0 inp n).lcd ∧
      (0 < N → Orderly F a l q0 m0 inp n0 n → FullLcd.shown F (lcdRun F a l q0 m0 inp) c n =
        strobes (lastFrame F a l q0 m0 inp (c + 10))) := by
  have hbus : FullLcd.Answering (lcdRun F a l q0 m0 inp) := ⟨h.accepts, h.beats⟩
  have hcont : FullLcd.Continuous (lcdRun F a l q0 m0 inp) c0 :=
    continuous h.request h.command hpos h64 hsmall
  obtain ⟨n1, -, hN⟩ : ∃ n, n0 < n ∧ N ≤ frames F a l q0 m0 inp n :=
    FrameStore.frames_reach h.supplied hpos (by omega) N
  obtain ⟨c, hc, hc0, hs⟩ := FullLcd.starts_recur hstart hcont hcpu hbus (max m n1)
  obtain ⟨n, hn, hfin, hopen⟩ := FullLcd.session_ends hs (hcont.valid _ (by omega)) hcpu hbus
  rw [← lcd_eq] at hfin
  have hframes : N ≤ frames F a l q0 m0 inp (c + 10) := hN.trans (frames_mono (by omega))
  refine ⟨c, n, by omega, hframes, hn, hs, hfin, ?_⟩
  intro hpos' horderly
  have hshows := shows_frame F a l q0 m0 inp n0 c n horderly hpos h64 hsmall hs (by omega)
    (by omega) fun k h1 h2 => by
      rw [lcd_eq]
      exact hopen k h1 h2
  exact hshows.complete hfin

/-- A pixel FIFO whose flags do not lag. -/
abbrev exactFifo : PixelFifo := MixedFifo.exact FullLcd.halves 1024 2 4 0

/-- A word whenever there is room, a read every third cycle and a beat every second one; the
camera's bursts wait for the display. -/
def calm (n : Nat) (s : Regs exactFifo) : Inputs where
  push := if s.camera.fifo.words.length < 32 then some (BitVec.ofNat 32 n) else none
  ready := n != 0
  amWaitRequest := decide (s.camera.master.state = .dmaSendLoop) &&
    !decide (LcdMaster.Reading s.lcd.master)
  commandData := 0x2C
  stateCommandData := 3
  avmWaitRequest := n % 3 != 0
  beat := n % 2 == 0

/-- The inputs of the run with frames of 64 bytes from address 0x1000 on. -/
def calmInputs : Nat → Inputs := (machine exactFifo 0x1000 64 0 fun _ => 0).loopInputs calm

theorem calmInputs_eq (n : Nat) :
    calmInputs n = calm n (regs exactFifo 0x1000 64 0 (fun _ => 0) calmInputs n) :=
  Machine.loopInputs_eq _ calm n

theorem calmInputs_paced : Paced exactFifo 0x1000 64 0 (fun _ => 0) calmInputs 0 1 where
  low := by
    intro k hk
    obtain rfl : k = 0 := by omega
    rfl
  high := by
    intro k hk
    rw [calmInputs_eq]
    show (k != 0) = true
    simp
    omega
  pushes := by
    intro k
    rw [calmInputs_eq]
    simp only [calm]
    split <;> simp_all
  stalls := by
    intro k
    rw [calmInputs_eq]
    simp [calm]
  accepts := by
    intro n
    refine ⟨3 * n, by omega, ?_⟩
    show (!(calmInputs (3 * n)).avmWaitRequest) = true
    rw [calmInputs_eq]
    simp [calm]
  beats := by
    intro n
    refine ⟨2 * n, by omega, ?_⟩
    show (calmInputs (2 * n)).beat = true
    rw [calmInputs_eq]
    simp [calm]
  request := by
    intro k _
    rw [calmInputs_eq]
    rfl
  command := by
    intro k _
    rw [calmInputs_eq]
    rfl
  cpu := by
    intro k _ _
    show (calmInputs (k + 1)).commandData = (calmInputs k).commandData
    rw [calmInputs_eq, calmInputs_eq k]
    rfl

theorem live_video_calm : ∃ c n, 1000 ≤ c ∧
    100 ≤ frames exactFifo 0x1000 64 0 (fun _ => 0) calmInputs (c + 10) ∧ c + 11 ≤ n ∧
    FullLcd.Finishes (regs exactFifo 0x1000 64 0 (fun _ => 0) calmInputs n).lcd ∧
    FullLcd.shown exactFifo (lcdRun exactFifo 0x1000 64 0 (fun _ => 0) calmInputs) c n =
      strobes (lastFrame exactFifo 0x1000 64 0 (fun _ => 0) calmInputs (c + 10)) := by
  have hpaced := calmInputs_paced
  have hstart : FullLcd.Starts exactFifo
      (lcdRun exactFifo 0x1000 64 0 (fun _ => 0) calmInputs) 1 := ⟨rfl, rfl, rfl⟩
  obtain ⟨c, n, hc, hN, hn, -, hf, hshown⟩ := live_video exactFifo 0x1000 64 0 (fun _ => 0)
    calmInputs 0 1 (hpaced.served hstart (by decide) (by decide) (by decide)) hstart
    (fun k => by rw [← lcd_eq]; exact hpaced.cpu k) (by decide) (by decide) (by decide) 100 1000
  exact ⟨c, n, hc, hN, hn, hf, hshown (by decide) (hpaced.orderly (by decide) n)⟩

end CameraLcd.Video
