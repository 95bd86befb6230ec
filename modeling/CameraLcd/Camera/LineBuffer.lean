import CameraLcd.Camera.Acquisition

/-!
# What the acquisition makes of a sequence of frames

The camera sends frames of lines of samples, with clocks of blanking around them.  Seen from
the lines, the acquisition module is a line buffer: an even line is stored two samples to a word,
an odd line reads a word for every two samples and shows a pixel.

* `Line`, `Frame`, `withReady` — what a camera sends, clock by clock; `Ready` rises at a clock
  of the sequence and stays high.
* `LineBuffer` — the parity of the next line and the words kept.
* `seen` — the frames whose rising edge of `FVAL` is seen with `Ready` high.
* `frame_refines` — the module takes a frame like the line buffer takes its lines.
* `sequence_refines` — and so it does every sequence of frames from reset.
-/

set_option autoImplicit false

namespace CameraLcd.Acquisition

open Clocked IdealFifo

/-! ## Frames -/

/-- A line: `LVAL` is low for one clock or more, then high for one sample or more.  The data
during the blanking is arbitrary. -/
structure Line where
  gap : List (BitVec 12)
  samples : List (BitVec 12)
  gap_ne : gap ≠ []
  samples_ne : samples ≠ []

/-- A frame: clocks with `FVAL` low, the lines, and the clocks with `FVAL` high after the last
line. -/
structure Frame where
  blank : List (BitVec 12)
  lines : List Line
  tail : List (BitVec 12)
  high : lines ≠ [] ∨ tail ≠ []

def low (d : BitVec 12) : Sample := ⟨false, false, d⟩

def blanking (d : BitVec 12) : Sample := ⟨true, false, d⟩

def active (d : BitVec 12) : Sample := ⟨true, true, d⟩

def Line.clocks (l : Line) : List Sample := l.gap.map blanking ++ l.samples.map active

/-- The clocks of a frame with `FVAL` high. -/
def Frame.body (f : Frame) : List Sample := f.lines.flatMap Line.clocks ++ f.tail.map blanking

def Frame.clocks (f : Frame) : List Sample := f.blank.map low ++ f.body

/-- The inputs of the module if `Ready` is low for the first `ρ` clocks and high from then on. -/
def withReady : Nat → List Sample → List Inputs
  | _, [] => []
  | ρ, c :: cs => ⟨decide (ρ = 0), c⟩ :: withReady (ρ - 1) cs

theorem withReady_append (ρ : Nat) (a b : List Sample) :
    withReady ρ (a ++ b) = withReady ρ a ++ withReady (ρ - a.length) b := by
  induction a generalizing ρ with
  | nil => rfl
  | cons c a ih =>
    simp only [List.cons_append, withReady, ih, List.length_cons]
    rw [show ρ - 1 - a.length = ρ - (a.length + 1) by omega]

/-- The frames whose rising edge of `FVAL` comes after a clock with `FVAL` low and finds `Ready`
high. -/
def seen : Nat → List Frame → List Frame
  | _, [] => []
  | ρ, f :: fs =>
    (if f.blank ≠ [] ∧ ρ ≤ f.blank.length then [f] else []) ++ seen (ρ - f.clocks.length) fs

/-! ## The line buffer -/

/-- The parity of the next line and the line FIFO. -/
structure LineBuffer where
  odd : Bool
  fifo : Queue (BitVec 16)
  deriving DecidableEq, Repr

/-- An even line: every two samples are stored in a word. -/
def store : Queue (BitVec 16) → List (BitVec 12) → Queue (BitVec 16)
  | f, e :: o :: s => store (f.edge 1024 (some (storeWord (convert e) (convert o))) false) s
  | f, _ => f

/-- An odd line: every sample in an even place reads a word. -/
def unload : Queue (BitVec 16) → List (BitVec 12) → Queue (BitVec 16)
  | f, [] => f
  | f, [_] => f.edge 1024 none true
  | f, _ :: _ :: s => unload (f.edge 1024 none true) s

/-- The pixels of an odd line. -/
def shown : Queue (BitVec 16) → List (BitVec 12) → List (BitVec 16)
  | f, e :: o :: s =>
    pixel (f.edge 1024 none true).q (convert e) (convert o) :: shown (f.edge 1024 none true) s
  | _, _ => []

namespace LineBuffer

/-- An empty buffer waiting for an even line. -/
def fresh (q : BitVec 16) : LineBuffer := ⟨false, ⟨[], q⟩⟩

/-- The buffer after a line. -/
def line (b : LineBuffer) (l : Line) : LineBuffer :=
  ⟨!b.odd, if b.odd then unload b.fifo l.samples else store b.fifo l.samples⟩

/-- The pixels of a line. -/
def linePixels (b : LineBuffer) (l : Line) : List (BitVec 16) :=
  if b.odd then shown b.fifo l.samples else []

/-- The buffer after some lines. -/
def lines (b : LineBuffer) (ls : List Line) : LineBuffer := ls.foldl line b

/-- The pixels of some lines. -/
def pixels : LineBuffer → List Line → List (BitVec 16)
  | _, [] => []
  | b, l :: ls => b.linePixels l ++ pixels (b.line l) ls

/-- The buffer after a frame.  If `FVAL` falls together with `LVAL` the module goes back to
`Idle_Frame`, which clears it; otherwise it stays in `Idle_Line`. -/
def frame (b : LineBuffer) (f : Frame) : LineBuffer :=
  if f.tail = [] then fresh (b.lines f.lines).fifo.q else b.lines f.lines

/-- The buffer after some frames. -/
def frames (b : LineBuffer) (fs : List Frame) : LineBuffer := fs.foldl frame b

/-- The pixels of some frames. -/
def framePixels : LineBuffer → List Frame → List (BitVec 16)
  | _, [] => []
  | b, f :: fs => b.pixels f.lines ++ framePixels (b.frame f) fs

end LineBuffer

/-! ## Samples -/

section Samples

variable {m : Module} {i : Inputs} {d : BitVec 12}

theorem output_none (h : (cycle m i).regs.pixelValidOut = false) : output (cycle m i) = none := by
  simp [output, h]

theorem cycle_quiet (hc : (cycle m i).regs.clearFifo = false)
    (hw : (cycle m i).regs.writeReqFifo = false) (hr : (cycle m i).regs.readReqFifo = false) :
    (cycle m i).lineFifo = m.lineFifo := by
  rw [cycle_edge hc, hw, hr]
  simp

/-- In front of a sample in an even place. -/
def AtEven (m : Module) : Prop :=
  (m.regs.state = .idleLine ∧ m.regs.lvalPrevious = false) ∨
    (m.regs.state = .gettingPixels ∧ odd m.regs.pixelNumber = false)

/-- After a sample of a line with the given number. -/
structure Taken (n : BitVec 32) (place : Bool) (m : Module) : Prop where
  state : m.regs.state = .gettingPixels
  pixel : odd m.regs.pixelNumber = place
  line : m.regs.lineNumber = n
  fval : m.regs.fvalPrevious = true
  lval : m.regs.lvalPrevious = true

/-- **A sample in an even place** is kept, and on an odd line a word is read. -/
theorem even_sample (h : AtEven m) :
    Taken m.regs.lineNumber true (cycle m ⟨true, active d⟩) ∧
      (cycle m ⟨true, active d⟩).regs.pixelValueEven = convert d ∧
      output (cycle m ⟨true, active d⟩) = none ∧
      (cycle m ⟨true, active d⟩).lineFifo =
        if odd m.regs.lineNumber then m.lineFifo.edge 1024 none true else m.lineFifo := by
  have key : ∃ n, odd n = true ∧ (cycle m ⟨true, active d⟩).regs =
      { defaults m.regs (active d) with
        state := .gettingPixels, pixelNumber := n
        pixelValueEven := convert d, readReqFifo := odd m.regs.lineNumber } := by
    rcases h with ⟨hs, hp⟩ | ⟨hs, hp⟩
    · exact ⟨1, rfl, by rw [cycle_regs, fall_lineStart hs rfl rfl hp]; rfl⟩
    · refine ⟨m.regs.pixelNumber + 1, by simp [hp], ?_⟩
      rw [cycle_regs, fall_takePixel hs rfl rfl rfl]
      cases hl : odd m.regs.lineNumber <;> simp [takePixel, hl, hp, defaults, hs, active]
  obtain ⟨n, hn, hregs⟩ := key
  have hclear : (cycle m ⟨true, active d⟩).regs.clearFifo = false := by rw [hregs]; rfl
  have hfifo := cycle_edge hclear
  rw [hregs] at hfifo
  refine ⟨⟨?_, ?_, ?_, ?_, ?_⟩, ?_, output_none ?_, ?_⟩
  · rw [hregs]
  · rw [hregs]
    exact hn
  · rw [hregs]
    rfl
  · rw [hregs]
    rfl
  · rw [hregs]
    rfl
  · rw [hregs]
  · rw [hregs]
    rfl
  · rw [hfifo]
    cases hl : odd m.regs.lineNumber <;> simp [defaults]

/-- **A sample in an odd place** completes a word on an even line and a pixel on an odd one. -/
theorem odd_sample {n : BitVec 32} (h : Taken n true m) :
    Taken n false (cycle m ⟨true, active d⟩) ∧
      output (cycle m ⟨true, active d⟩) =
        (if odd n then some (pixel m.lineFifo.q m.regs.pixelValueEven (convert d)) else none) ∧
      (cycle m ⟨true, active d⟩).lineFifo = if odd n then m.lineFifo else
        m.lineFifo.edge 1024 (some (storeWord m.regs.pixelValueEven (convert d))) false := by
  obtain ⟨hs, hp, hn, _, _⟩ := h
  have hregs : (cycle m ⟨true, active d⟩).regs = takePixel m.regs (active d) m.lineFifo.q := by
    rw [cycle_regs, fall_takePixel hs rfl rfl rfl]
  have hclear : (cycle m ⟨true, active d⟩).regs.clearFifo = false := by
    rw [hregs]
    cases hl : odd n <;> simp [takePixel, hn, hl, hp, defaults]
  refine ⟨⟨?_, ?_, ?_, ?_, ?_⟩, ?_, ?_⟩
  · rw [hregs]
    cases hl : odd n <;> simp [takePixel, hn, hl, hp, defaults, hs]
  · rw [hregs]
    cases hl : odd n <;> simp [takePixel, hn, hl, hp]
  · rw [hregs]
    cases hl : odd n <;> simp [takePixel, hn, hl, hp, defaults]
  · rw [hregs]
    cases hl : odd n <;> simp [takePixel, hn, hl, hp, defaults, active]
  · rw [hregs]
    cases hl : odd n <;> simp [takePixel, hn, hl, hp, defaults, active]
  · rw [output, hregs]
    cases hl : odd n <;> simp [takePixel, hn, hl, hp, defaults, active]
  · rw [cycle_edge hclear, hregs]
    cases hl : odd n <;> simp [takePixel, hn, hl, hp, defaults, active]

/-- The samples of a line, two by two. -/
theorem samples_refine (s : List (BitVec 12)) (m : Module) (h : AtEven m) :
    (s ≠ [] → ∃ place,
      Taken m.regs.lineNumber place (feed cycle m (withReady 0 (s.map active)))) ∧
    (feed cycle m (withReady 0 (s.map active))).lineFifo =
      (if odd m.regs.lineNumber then unload m.lineFifo s else store m.lineFifo s) ∧
    emit cycle output m (withReady 0 (s.map active)) =
      if odd m.regs.lineNumber then shown m.lineFifo s else [] := by
  induction s using List.twoStepInduction generalizing m with
  | nil => simp [withReady, unload, store, shown]
  | singleton e =>
    obtain ⟨htaken, _, hout, hfifo⟩ := even_sample (d := e) h
    simp only [List.map_cons, List.map_nil, withReady, feed_cons, feed_nil, emit_cons, emit_nil,
      decide_true, hout, hfifo, unload, store, shown, ite_self]
    exact ⟨fun _ => ⟨true, htaken⟩, trivial, rfl⟩
  | cons_cons e o s ih _ =>
    obtain ⟨htaken, heven, hout, hfifo⟩ := even_sample (d := e) h
    obtain ⟨htaken', hout', hfifo'⟩ := odd_sample (d := o) htaken
    obtain ⟨hlast, hlastFifo, hemit⟩ := ih _ (Or.inr ⟨htaken'.state, htaken'.pixel⟩)
    rw [htaken'.line, hfifo', hfifo, heven] at hlastFifo hemit
    rw [htaken'.line] at hlast
    simp only [List.map_cons, withReady, feed_cons, emit_cons, decide_true, hout, hout', hfifo,
      heven, Nat.zero_sub]
    refine ⟨fun _ => ?_, ?_, ?_⟩
    · by_cases hs : s = []
      · subst hs
        exact ⟨false, htaken'⟩
      · exact hlast hs
    · rw [hlastFifo]
      cases odd m.regs.lineNumber <;> rfl
    · rw [hemit]
      cases odd m.regs.lineNumber <;> rfl

end Samples

/-! ## Lines -/

section Lines

variable {b : LineBuffer} {m : Module} {d : BitVec 12}

/-- Between the lines of a frame: the buffer is what the module holds. -/
structure Between (b : LineBuffer) (m : Module) : Prop where
  state : m.regs.state = .idleLine
  lval : m.regs.lvalPrevious = false
  odd : odd m.regs.lineNumber = b.odd
  fifo : m.lineFifo = b.fifo

/-- After a line.  The line number is counted up with the next clock. -/
structure Ended (b : LineBuffer) (m : Module) : Prop where
  state : m.regs.state = .gettingPixels
  fval : m.regs.fvalPrevious = true
  lval : m.regs.lvalPrevious = true
  odd : b.odd = !Acquisition.odd m.regs.lineNumber
  fifo : m.lineFifo = b.fifo

/-- In `Idle_Frame`: the FIFO is about to be cleared. -/
structure Waiting (b : LineBuffer) (m : Module) : Prop where
  state : m.regs.state = .idleFrame
  fresh : b = .fresh m.lineFifo.q

/-- In front of a clock with `FVAL` high and `LVAL` low. -/
def BeforeGap (b : LineBuffer) (m : Module) : Prop :=
  (Waiting b m ∧ m.regs.fvalPrevious = false) ∨ Between b m ∨ Ended b m

/-- **A clock of blanking inside a frame** leads to the buffer's next line. -/
theorem gap_clock (h : BeforeGap b m) :
    Between b (cycle m ⟨true, blanking d⟩) ∧
      (cycle m ⟨true, blanking d⟩).regs.fvalPrevious = true ∧
      output (cycle m ⟨true, blanking d⟩) = none := by
  rcases h with ⟨hw, hf⟩ | hb | he
  · have hregs : (cycle m ⟨true, blanking d⟩).regs = _ :=
      cycle_regs.trans (fall_idleFrame hw.state)
    have hclear := cycle_clear (m := m) (i := ⟨true, blanking d⟩) (by rw [hregs])
    refine ⟨⟨?_, ?_, ?_, ?_⟩, ?_, output_none ?_⟩
    · rw [hregs]
      simp [blanking, hf]
    · rw [hregs]
      rfl
    · rw [hregs, hw.fresh]
      rfl
    · rw [hclear, hw.fresh]
      rfl
    · rw [hregs]
      rfl
    · rw [hregs]
      rfl
  · have hregs : (cycle m ⟨true, blanking d⟩).regs = _ :=
      cycle_regs.trans (fall_lineGap hb.state rfl rfl)
    have hfifo := cycle_quiet (m := m) (i := ⟨true, blanking d⟩) (by rw [hregs]; rfl)
      (by rw [hregs]; rfl) (by rw [hregs]; rfl)
    refine ⟨⟨?_, ?_, ?_, hfifo.trans hb.fifo⟩, ?_, output_none ?_⟩
    · rw [hregs]
      exact hb.state
    · rw [hregs]
      rfl
    · rw [hregs]
      exact hb.odd
    · rw [hregs]
      rfl
    · rw [hregs]
      rfl
  · have hregs : (cycle m ⟨true, blanking d⟩).regs = _ :=
      cycle_regs.trans (fall_lineEnd he.state rfl rfl rfl he.lval he.fval)
    have hfifo := cycle_quiet (m := m) (i := ⟨true, blanking d⟩) (by rw [hregs]; rfl)
      (by rw [hregs]; rfl) (by rw [hregs]; rfl)
    refine ⟨⟨?_, ?_, ?_, hfifo.trans he.fifo⟩, ?_, output_none ?_⟩
    · rw [hregs]
    · rw [hregs]
      rfl
    · rw [hregs, he.odd]
      exact odd_add_one _
    · rw [hregs]
      rfl
    · rw [hregs]
      rfl

theorem gap_refines (ds : List (BitVec 12)) (hne : ds ≠ []) (m : Module) (h : BeforeGap b m) :
    Between b (feed cycle m (withReady 0 (ds.map blanking))) ∧
      (feed cycle m (withReady 0 (ds.map blanking))).regs.fvalPrevious = true ∧
      emit cycle output m (withReady 0 (ds.map blanking)) = [] := by
  induction ds generalizing m with
  | nil => exact absurd rfl hne
  | cons d ds ih =>
    obtain ⟨hb, hf, hout⟩ := gap_clock (d := d) h
    simp only [List.map_cons, withReady, feed_cons, emit_cons, decide_true, hout, Nat.zero_sub,
      Option.toList_none, List.nil_append]
    by_cases hds : ds = []
    · subst hds
      exact ⟨hb, hf, rfl⟩
    · exact ih hds _ (Or.inr (Or.inl hb))

/-- **A line refines the line buffer.** -/
theorem line_refines (l : Line) (h : BeforeGap b m) :
    Ended (b.line l) (feed cycle m (withReady 0 l.clocks)) ∧
      emit cycle output m (withReady 0 l.clocks) = b.linePixels l := by
  obtain ⟨hb, _, hgap⟩ := gap_refines l.gap l.gap_ne m h
  obtain ⟨hlast, hfifo, hemit⟩ := samples_refine l.samples _ (Or.inl ⟨hb.state, hb.lval⟩)
  obtain ⟨place, htaken⟩ := hlast l.samples_ne
  simp only [Line.clocks, withReady_append, Nat.zero_sub, feed_append, emit_append, hgap,
    List.nil_append]
  rw [hb.odd, hb.fifo] at hfifo hemit
  refine ⟨⟨htaken.state, htaken.fval, htaken.lval, ?_, hfifo⟩, hemit⟩
  rw [htaken.line, hb.odd]
  rfl

theorem lines_refine (ls : List Line) (hne : ls ≠ []) (b : LineBuffer) (m : Module)
    (h : BeforeGap b m) :
    Ended (b.lines ls) (feed cycle m (withReady 0 (ls.flatMap Line.clocks))) ∧
      emit cycle output m (withReady 0 (ls.flatMap Line.clocks)) = b.pixels ls := by
  induction ls generalizing b m with
  | nil => exact absurd rfl hne
  | cons l ls ih =>
    obtain ⟨he, hemit⟩ := line_refines l h
    simp only [List.flatMap_cons, withReady_append, Nat.zero_sub, feed_append, emit_append, hemit,
      LineBuffer.lines, List.foldl_cons, LineBuffer.pixels]
    by_cases hls : ls = []
    · subst hls
      exact ⟨he, rfl⟩
    · obtain ⟨he', hemit'⟩ := ih hls _ _ (Or.inr (Or.inr he))
      exact ⟨he', by rw [hemit']⟩

end Lines

/-! ## Frames -/

section Frames

variable {b : LineBuffer} {m : Module} {i : Inputs} {d : BitVec 12} {ρ : Nat}

/-- In front of a frame.  After a frame without a tail the module has yet to see `FVAL` fall. -/
def Boundary (b : LineBuffer) (m : Module) : Prop :=
  Waiting b m ∨ Between b m ∨ ∃ b', Ended b' m ∧ b = .fresh m.lineFifo.q

/-- In front of the rising edge of `FVAL`. -/
def BeforeRise (b : LineBuffer) (m : Module) : Prop :=
  (Waiting b m ∧ m.regs.fvalPrevious = false) ∨ Between b m

theorem BeforeRise.gap (h : BeforeRise b m) : BeforeGap b m := h.imp_right Or.inl

theorem BeforeRise.boundary (h : BeforeRise b m) : Boundary b m := by
  rcases h with ⟨hw, _⟩ | hb
  · exact Or.inl hw
  · exact Or.inr (Or.inl hb)

/-- `Idle_Frame` is left with a rising edge of `FVAL` only, and with `Ready` high. -/
theorem waiting_clock (h : Waiting b m)
    (hrise : ¬ (i.camera.fval = true ∧ m.regs.fvalPrevious = false ∧ i.ready = true)) :
    Waiting b (cycle m i) ∧ (cycle m i).regs.fvalPrevious = i.camera.fval ∧
      output (cycle m i) = none := by
  have hregs : (cycle m i).regs = _ := cycle_regs.trans (fall_idleFrame h.state)
  have hclear := cycle_clear (m := m) (i := i) (by rw [hregs])
  refine ⟨⟨?_, ?_⟩, ?_, output_none ?_⟩
  · have hno : (i.camera.fval && !m.regs.fvalPrevious && i.ready) = false := by
      simpa [and_assoc] using hrise
    rw [hregs]
    simp [hno]
  · rw [hclear, h.fresh]
    rfl
  · rw [hregs]
    rfl
  · rw [hregs]
    rfl

theorem low_clock (h : Boundary b m) :
    BeforeRise b (cycle m ⟨true, low d⟩) ∧ output (cycle m ⟨true, low d⟩) = none := by
  rcases h with hw | hb | ⟨b', he, hfresh⟩
  · obtain ⟨hw', hf, hout⟩ := waiting_clock (i := ⟨true, low d⟩) hw (by simp [low])
    exact ⟨Or.inl ⟨hw', hf⟩, hout⟩
  · have hregs : (cycle m ⟨true, low d⟩).regs = _ :=
      cycle_regs.trans (fall_lineGap hb.state rfl rfl)
    have hfifo := cycle_quiet (m := m) (i := ⟨true, low d⟩) (by rw [hregs]; rfl)
      (by rw [hregs]; rfl) (by rw [hregs]; rfl)
    refine ⟨Or.inr ⟨?_, ?_, ?_, hfifo.trans hb.fifo⟩, output_none ?_⟩
    · rw [hregs]
      exact hb.state
    · rw [hregs]
      rfl
    · rw [hregs]
      exact hb.odd
    · rw [hregs]
      rfl
  · -- the falling edge of `FVAL` in `Getting_Pixels`
    have hregs : (cycle m ⟨true, low d⟩).regs = _ :=
      cycle_regs.trans (fall_frameEnd he.state rfl rfl he.fval)
    have hfifo := cycle_quiet (m := m) (i := ⟨true, low d⟩) (by rw [hregs]; rfl)
      (by rw [hregs]; rfl) (by rw [hregs]; rfl)
    refine ⟨Or.inl ⟨⟨by rw [hregs], by rw [hfresh, hfifo]⟩, ?_⟩, output_none ?_⟩
    · rw [hregs]
      rfl
    · rw [hregs]
      rfl

/-- The clocks in front of a frame.  `Ready` may rise among them if the module is waiting. -/
theorem blank_refines (ds : List (BitVec 12)) (hne : ds ≠ []) (ρ : Nat) (m : Module)
    (h : Boundary b m) (hρ : ρ = 0 ∨ Waiting b m) :
    BeforeRise b (feed cycle m (withReady ρ (ds.map low))) ∧
      emit cycle output m (withReady ρ (ds.map low)) = [] := by
  induction ds generalizing ρ m with
  | nil => exact absurd rfl hne
  | cons d ds ih =>
    have hfirst : BeforeRise b (cycle m ⟨decide (ρ = 0), low d⟩) ∧
        (ρ - 1 = 0 ∨ Waiting b (cycle m ⟨decide (ρ = 0), low d⟩)) ∧
        output (cycle m ⟨decide (ρ = 0), low d⟩) = none := by
      rcases hρ with rfl | hw
      · obtain ⟨hlow, hout⟩ := low_clock (d := d) h
        exact ⟨hlow, Or.inl rfl, hout⟩
      · obtain ⟨hw', hf, hout⟩ :=
          waiting_clock (i := ⟨decide (ρ = 0), low d⟩) hw (by simp [low])
        exact ⟨Or.inl ⟨hw', hf⟩, Or.inr hw', hout⟩
    obtain ⟨hlow, hρ', hout⟩ := hfirst
    simp only [List.map_cons, withReady, feed_cons, emit_cons, hout, Option.toList_none,
      List.nil_append]
    by_cases hds : ds = []
    · subst hds
      exact ⟨hlow, rfl⟩
    · exact ih hds _ _ hlow.boundary hρ'

/-- **A frame refines the line buffer**, once its rising edge of `FVAL` is seen. -/
theorem frame_refines (f : Frame) (h : Boundary b m) (hblank : f.blank ≠ [])
    (hseen : ρ ≤ f.blank.length) (hρ : ρ = 0 ∨ Waiting b m) :
    Boundary (b.frame f) (feed cycle m (withReady ρ f.clocks)) ∧
      (feed cycle m (withReady ρ f.clocks)).regs.fvalPrevious = true ∧
      emit cycle output m (withReady ρ f.clocks) = b.pixels f.lines := by
  obtain ⟨hrise, hblankEmit⟩ := blank_refines f.blank hblank ρ m h hρ
  simp only [Frame.clocks, Frame.body, withReady_append, List.length_map, feed_append,
    emit_append, hblankEmit, List.nil_append, show ρ - f.blank.length = 0 by omega, Nat.zero_sub]
  generalize feed cycle m (withReady ρ (f.blank.map low)) = m' at hrise
  unfold LineBuffer.frame
  by_cases hl : f.lines = []
  · -- no line: the tail is all there is
    have htail : f.tail ≠ [] := f.high.resolve_left (fun hn => hn hl)
    obtain ⟨hb, hf, hemit⟩ := gap_refines f.tail htail m' hrise.gap
    rw [hl, if_neg htail]
    exact ⟨Or.inr (Or.inl hb), hf, hemit⟩
  · obtain ⟨he, hemit⟩ := lines_refine f.lines hl b m' hrise.gap
    by_cases ht : f.tail = []
    · rw [ht, if_pos rfl]
      refine ⟨Or.inr (Or.inr ⟨_, he, ?_⟩), he.fval, ?_⟩
      · exact congrArg (fun x => LineBuffer.fresh x.q) he.fifo.symm
      · simp [withReady, hemit]
    · obtain ⟨hb, hf, htail⟩ := gap_refines f.tail ht _ (Or.inr (Or.inr he))
      rw [if_neg ht]
      exact ⟨Or.inr (Or.inl hb), hf, by rw [hemit, htail, List.append_nil]⟩

theorem low_unseen (ds : List (BitVec 12)) (ρ : Nat) (m : Module) (h : Waiting b m) :
    Waiting b (feed cycle m (withReady ρ (ds.map low))) ∧
      emit cycle output m (withReady ρ (ds.map low)) = [] := by
  induction ds generalizing ρ m with
  | nil => exact ⟨h, rfl⟩
  | cons d ds ih =>
    obtain ⟨hw, _, hout⟩ := waiting_clock (i := ⟨decide (ρ = 0), low d⟩) h (by simp [low])
    obtain ⟨hw', hemit⟩ := ih (ρ - 1) _ hw
    simp only [List.map_cons, withReady, feed_cons, emit_cons, hout, hemit]
    exact ⟨hw', rfl⟩

/-- No rising edge is seen as long as `FVAL` stays high, or rises with `Ready` low. -/
theorem high_unseen (cs : List Sample) (hcs : ∀ c ∈ cs, c.fval = true) (ρ : Nat) (m : Module)
    (h : Waiting b m) (hρ : m.regs.fvalPrevious = true ∨ 0 < ρ) :
    Waiting b (feed cycle m (withReady ρ cs)) ∧
      (cs ≠ [] → (feed cycle m (withReady ρ cs)).regs.fvalPrevious = true) ∧
      emit cycle output m (withReady ρ cs) = [] := by
  induction cs generalizing ρ m with
  | nil => exact ⟨h, fun hn => absurd rfl hn, rfl⟩
  | cons c cs ih =>
    obtain ⟨hw, hf, hout⟩ := waiting_clock (i := ⟨decide (ρ = 0), c⟩) h (by
      rintro ⟨_, hlow, hready⟩
      rcases hρ with hp | hp
      · simp [hlow] at hp
      · simp at hready
        omega)
    have hf' : (cycle m ⟨decide (ρ = 0), c⟩).regs.fvalPrevious = true :=
      hf.trans (hcs c List.mem_cons_self)
    obtain ⟨hw', hlast, hemit⟩ :=
      ih (fun x hx => hcs x (List.mem_cons_of_mem _ hx)) (ρ - 1) _ hw (Or.inl hf')
    simp only [withReady, feed_cons, emit_cons, hout, hemit]
    refine ⟨hw', fun _ => ?_, rfl⟩
    by_cases hn : cs = []
    · subst hn
      exact hf'
    · exact hlast hn

theorem Frame.body_high (f : Frame) : ∀ c ∈ f.body, c.fval = true := by
  intro c hc
  simp only [Frame.body, Line.clocks, List.mem_append, List.mem_flatMap, List.mem_map] at hc
  rcases hc with ⟨l, _, ⟨d, _, rfl⟩ | ⟨d, _, rfl⟩⟩ | ⟨d, _, rfl⟩ <;> rfl

theorem Frame.body_ne (f : Frame) : f.body ≠ [] := by
  rcases f.high with hl | ht
  · obtain ⟨l, ls, hls⟩ := List.exists_cons_of_ne_nil hl
    simp [Frame.body, hls, Line.clocks, l.gap_ne]
  · simp [Frame.body, ht]

/-- A frame whose rising edge is not seen leaves the module waiting. -/
theorem frame_unseen (f : Frame) (h : Waiting b m) (hp : m.regs.fvalPrevious = true)
    (hun : ¬ (f.blank ≠ [] ∧ ρ ≤ f.blank.length)) :
    Waiting b (feed cycle m (withReady ρ f.clocks)) ∧
      (feed cycle m (withReady ρ f.clocks)).regs.fvalPrevious = true ∧
      emit cycle output m (withReady ρ f.clocks) = [] := by
  by_cases hblank : f.blank = []
  · obtain ⟨hw, hlast, hemit⟩ := high_unseen f.body f.body_high ρ m h (Or.inl hp)
    simp only [Frame.clocks, hblank, List.map_nil, List.nil_append]
    exact ⟨hw, hlast f.body_ne, hemit⟩
  · have hρ : f.blank.length < ρ := by
      by_contra hlt
      exact hun ⟨hblank, by omega⟩
    obtain ⟨hw, hblankEmit⟩ := low_unseen f.blank ρ m h
    obtain ⟨hw', hlast, hemit⟩ :=
      high_unseen f.body f.body_high (ρ - f.blank.length) _ hw (Or.inr (by omega))
    simp only [Frame.clocks, withReady_append, List.length_map, feed_append, emit_append,
      hblankEmit, hemit, List.append_nil]
    exact ⟨hw', hlast f.body_ne, trivial⟩

/-! ## Sequences of frames -/

/-- Between two frames of a sequence, `ρ` clocks before `Ready` rises. -/
structure InSequence (ρ : Nat) (b : LineBuffer) (m : Module) : Prop where
  boundary : Boundary b m
  fval : m.regs.fvalPrevious = true
  ready : ρ = 0 ∨ Waiting b m

theorem seen_cons (ρ : Nat) (f : Frame) (fs : List Frame) :
    seen ρ (f :: fs) = seen ρ [f] ++ seen (ρ - f.clocks.length) fs := by
  simp [seen]

/-- One frame of a sequence, seen or not. -/
theorem inSequence_frame (f : Frame) (h : InSequence ρ b m) (hf : f.blank ≠ [] ∨ Waiting b m) :
    InSequence (ρ - f.clocks.length) (b.frames (seen ρ [f]))
        (feed cycle m (withReady ρ f.clocks)) ∧
      emit cycle output m (withReady ρ f.clocks) = b.framePixels (seen ρ [f]) := by
  by_cases hseen : f.blank ≠ [] ∧ ρ ≤ f.blank.length
  · obtain ⟨hb, hfval, hemit⟩ := frame_refines f h.boundary hseen.1 hseen.2 h.ready
    have hlen : ρ - f.clocks.length = 0 := by
      simp only [Frame.clocks, List.length_append, List.length_map]
      omega
    simp only [seen, if_pos hseen, List.append_nil, LineBuffer.frames, List.foldl_cons,
      List.foldl_nil, LineBuffer.framePixels]
    exact ⟨⟨hb, hfval, Or.inl hlen⟩, hemit⟩
  · have hw : Waiting b m := by
      rcases hf with hblank | hw
      · rcases h.ready with rfl | hw
        · exact absurd ⟨hblank, Nat.zero_le _⟩ hseen
        · exact hw
      · exact hw
    obtain ⟨hw', hfval, hemit⟩ := frame_unseen f hw h.fval hseen
    simp only [seen, if_neg hseen, List.append_nil, LineBuffer.frames, List.foldl_nil,
      LineBuffer.framePixels]
    exact ⟨⟨Or.inl hw', hfval, Or.inr hw'⟩, hemit⟩

theorem LineBuffer.framePixels_append (b : LineBuffer) (fs gs : List Frame) :
    b.framePixels (fs ++ gs) = b.framePixels fs ++ (b.frames fs).framePixels gs := by
  induction fs generalizing b with
  | nil => rfl
  | cons f fs ih =>
    rw [List.cons_append, framePixels, ih, framePixels, List.append_assoc]
    rfl

theorem inSequence_frames (fs : List Frame) (hfs : ∀ f ∈ fs, f.blank ≠ []) (ρ : Nat)
    (b : LineBuffer) (m : Module) (h : InSequence ρ b m) :
    InSequence (ρ - (fs.flatMap Frame.clocks).length) (b.frames (seen ρ fs))
        (feed cycle m (withReady ρ (fs.flatMap Frame.clocks))) ∧
      emit cycle output m (withReady ρ (fs.flatMap Frame.clocks)) =
        b.framePixels (seen ρ fs) := by
  induction fs generalizing ρ b m with
  | nil => exact ⟨h, rfl⟩
  | cons f fs ih =>
    obtain ⟨h', hemit⟩ := inSequence_frame f h (Or.inl (hfs f List.mem_cons_self))
    obtain ⟨h'', hemit'⟩ := ih (fun g hg => hfs g (List.mem_cons_of_mem _ hg)) _ _ _ h'
    rw [seen_cons, LineBuffer.framePixels_append]
    simp only [List.flatMap_cons, withReady_append, feed_append, emit_append, List.length_append,
      hemit, hemit', LineBuffer.frames, List.foldl_append, and_true]
    rw [Nat.sub_add_eq]
    exact h''

/-- **Every sequence of frames refines the line buffer**, from reset and wherever `Ready` rises.
Between two frames `FVAL` is low for a clock at least. -/
theorem sequence_refines (q : BitVec 16) (ρ : Nat) (fs : List Frame)
    (hfs : ∀ f ∈ fs.tail, f.blank ≠ []) :
    InSequence (ρ - (fs.flatMap Frame.clocks).length) ((LineBuffer.fresh q).frames (seen ρ fs))
        (feed cycle (Module.init q) (withReady ρ (fs.flatMap Frame.clocks))) ∧
      emit cycle output (Module.init q) (withReady ρ (fs.flatMap Frame.clocks)) =
        (LineBuffer.fresh q).framePixels (seen ρ fs) := by
  have hw : Waiting (LineBuffer.fresh q) (Module.init q) := ⟨rfl, rfl⟩
  have h0 : InSequence ρ (LineBuffer.fresh q) (Module.init q) := ⟨Or.inl hw, rfl, Or.inr hw⟩
  cases fs with
  | nil => exact ⟨h0, rfl⟩
  | cons f fs =>
    obtain ⟨h', hemit⟩ := inSequence_frame f h0 (Or.inr hw)
    obtain ⟨h'', hemit'⟩ := inSequence_frames fs hfs _ _ _ h'
    rw [seen_cons, LineBuffer.framePixels_append]
    simp only [List.flatMap_cons, withReady_append, feed_append, emit_append, List.length_append,
      hemit, hemit', LineBuffer.frames, List.foldl_append, and_true]
    rw [Nat.sub_add_eq]
    exact h''

/-- The pixels shown while a frame `f` passes, after the frames `fs`. -/
def during (q : BitVec 16) (ρ : Nat) (fs : List Frame) (f : Frame) : List (BitVec 16) :=
  emit cycle output (feed cycle (Module.init q) (withReady ρ (fs.flatMap Frame.clocks)))
    (withReady (ρ - (fs.flatMap Frame.clocks).length) f.clocks)

/-- A frame whose rising edge is seen shows what the line buffer left by the others makes of it. -/
theorem during_eq (q : BitVec 16) (ρ : Nat) (fs : List Frame) (f : Frame)
    (hfs : ∀ g ∈ fs.tail, g.blank ≠ []) (hblank : f.blank ≠ [])
    (hseen : ρ ≤ (fs.flatMap Frame.clocks).length + f.blank.length) :
    during q ρ fs f = ((LineBuffer.fresh q).frames (seen ρ fs)).pixels f.lines := by
  obtain ⟨hseq, _⟩ := sequence_refines q ρ fs hfs
  exact (frame_refines f hseq.boundary hblank (by omega) hseq.ready).2.2

end Frames

end CameraLcd.Acquisition
