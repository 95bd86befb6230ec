import Mathlib.Data.List.Forall2
import CameraLcd.Camera.LineBuffer

/-!
# The raster of 2x2 blocks

What the acquisition stream is for frames with an even number of lines of one width.

* `twoLines` — an even line and the odd line after it, of one width, give a row of blocks and
  leave the line FIFO empty.
* `raster_stream` — from reset, the stream is the raster of the blocks of every frame whose
  rising edge of `FVAL` is seen with `Ready` high, for any width, height, blanking and any moment
  at which `Ready` rises.
* `documented_iff` — the fields of these pixels are the documented ones exactly for the blocks
  whose two samples of the odd line have the same level: the comments of the odd line name the
  first sample blue and the second one green, the assignments put them the other way round.
-/

set_option autoImplicit false

namespace CameraLcd.Acquisition

open Clocked IdealFifo

/-! ## Blocks -/

namespace Frame

variable (f : Frame)

/-- The samples of line `i`. -/
def row (i : Nat) : List (BitVec 12) := (f.lines.map Line.samples).getD i []

/-- The sample in line `i` and column `j`. -/
def sample (i j : Nat) : BitVec 12 := (f.row i).getD j 0

/-- The number of samples in a line. -/
def width : Nat := (f.row 0).length

/-- The coordinates of the blocks in raster order. -/
def blocks : List (Nat × Nat) :=
  (List.range (f.lines.length / 2)).flatMap fun r => (List.range (f.width / 2)).map fun c => (r, c)

/-- The value of a block, from its four samples. -/
def blockPixel (x : Nat × Nat) : BitVec 16 :=
  pixel (storeWord (convert (f.sample (2 * x.1) (2 * x.2)))
      (convert (f.sample (2 * x.1) (2 * x.2 + 1))))
    (convert (f.sample (2 * x.1 + 1) (2 * x.2))) (convert (f.sample (2 * x.1 + 1) (2 * x.2 + 1)))

/-- One value for each block, in raster order. -/
def raster : List (BitVec 16) := f.blocks.map f.blockPixel

/-- An even number of lines, two at least, of one width that fits the line FIFO. -/
structure Regular : Prop where
  two : 2 ≤ f.lines.length
  even : f.lines.length % 2 = 0
  uniform : ∀ l ∈ f.lines, l.samples.length = f.width
  fits : f.width / 2 ≤ 1024

end Frame

/-! ## Two lines -/

section TwoLines

/-- The words of an even line. -/
def pairs : List (BitVec 12) → List (BitVec 16)
  | e :: o :: s => storeWord (convert e) (convert o) :: pairs s
  | _ => []

theorem store_eq (s : List (BitVec 12)) (ws : List (BitVec 16)) (q : BitVec 16)
    (h : ws.length + s.length / 2 ≤ 1024) : store ⟨ws, q⟩ s = ⟨ws ++ pairs s, q⟩ := by
  induction s using List.twoStepInduction generalizing ws with
  | nil => simp [store, pairs]
  | singleton e => simp [store, pairs]
  | cons_cons e o s ih _ =>
    have hlen : ws.length + (s.length + 2) / 2 ≤ 1024 := h
    have hroom : ws.length < 1024 := by omega
    have hedge : (⟨ws, q⟩ : Queue (BitVec 16)).edge 1024
        (some (storeWord (convert e) (convert o))) false =
          ⟨ws ++ [storeWord (convert e) (convert o)], q⟩ := by
      simp [Queue.edge, hroom]
    rw [store, hedge, ih]
    · simp [pairs]
    · simp only [List.length_append, List.length_singleton]
      omega

/-- The value of column `c` of a row of blocks. -/
def rowPixel (a b : List (BitVec 12)) (c : Nat) : BitVec 16 :=
  pixel (storeWord (convert (a.getD (2 * c) 0)) (convert (a.getD (2 * c + 1) 0)))
    (convert (b.getD (2 * c) 0)) (convert (b.getD (2 * c + 1) 0))

/-- Reading back the words of a line of the same width. -/
theorem shown_eq (b a : List (BitVec 12)) (q : BitVec 16) (h : a.length = b.length) :
    shown ⟨pairs a, q⟩ b = (List.range (b.length / 2)).map (rowPixel a b) ∧
      (unload ⟨pairs a, q⟩ b).words = [] := by
  induction b using List.twoStepInduction generalizing a q with
  | nil =>
    rw [List.length_eq_zero_iff.mp h]
    exact ⟨rfl, rfl⟩
  | singleton b0 =>
    obtain ⟨a0, rfl⟩ := List.length_eq_one_iff.mp h
    simp [pairs, shown, unload, Queue.edge]
  | cons_cons b0 b1 b ih _ =>
    obtain ⟨a0, a, rfl⟩ := List.exists_cons_of_length_pos (l := a) (by simp [h])
    obtain ⟨a1, a, rfl⟩ := List.exists_cons_of_length_pos (l := a) (by simp at h; omega)
    have hlen : a.length = b.length := by simpa using h
    have hedge : (⟨pairs (a0 :: a1 :: a), q⟩ : Queue (BitVec 16)).edge 1024 none true =
        ⟨pairs a, storeWord (convert a0) (convert a1)⟩ := Queue.edge_read rfl
    obtain ⟨hshown, hempty⟩ := ih a (storeWord (convert a0) (convert a1)) hlen
    rw [shown, unload, hedge, hshown]
    refine ⟨?_, hempty⟩
    rw [List.length_cons, List.length_cons, show (b.length + 1 + 1) / 2 = b.length / 2 + 1 by omega,
      List.range_succ_eq_map, List.map_cons, List.map_map]
    rfl

/-- **An even line and the odd line after it** give a row of blocks. -/
theorem twoLines (la lb : Line) (q : BitVec 16) (h : la.samples.length = lb.samples.length)
    (hfit : la.samples.length / 2 ≤ 1024) :
    (LineBuffer.fresh q).linePixels la = [] ∧
      ((LineBuffer.fresh q).line la).linePixels lb =
        (List.range (lb.samples.length / 2)).map (rowPixel la.samples lb.samples) ∧
      ∃ q', ((LineBuffer.fresh q).line la).line lb = LineBuffer.fresh q' := by
  have hstore : (LineBuffer.fresh q).line la = ⟨true, ⟨pairs la.samples, q⟩⟩ := by
    have hs := store_eq la.samples [] q (by simpa using hfit)
    simp [LineBuffer.line, LineBuffer.fresh, hs]
  obtain ⟨hshown, hempty⟩ := shown_eq lb.samples la.samples q h
  refine ⟨rfl, ?_, ?_⟩
  · rw [hstore]
    exact hshown
  · rw [hstore]
    refine ⟨(unload ⟨pairs la.samples, q⟩ lb.samples).q, ?_⟩
    show (⟨false, unload ⟨pairs la.samples, q⟩ lb.samples⟩ : LineBuffer) = _
    rw [LineBuffer.fresh, ← hempty]

end TwoLines

/-! ## Frames -/

/-- The lines of a frame, two by two. -/
theorem pixels_eq (w : Nat) (hw : w / 2 ≤ 1024) (ls : List Line) (q : BitVec 16)
    (heven : ls.length % 2 = 0) (hwidth : ∀ l ∈ ls, l.samples.length = w) :
    (LineBuffer.fresh q).pixels ls =
      (List.range (ls.length / 2)).flatMap (fun r => (List.range (w / 2)).map
        (rowPixel ((ls.map Line.samples).getD (2 * r) [])
          ((ls.map Line.samples).getD (2 * r + 1) []))) ∧
    ∃ q', (LineBuffer.fresh q).lines ls = LineBuffer.fresh q' := by
  induction ls using List.twoStepInduction generalizing q with
  | nil => exact ⟨rfl, q, rfl⟩
  | singleton l => simp at heven
  | cons_cons la lb ls ih _ =>
    have ha : la.samples.length = w := hwidth la (by simp)
    have hb : lb.samples.length = w := hwidth lb (by simp)
    obtain ⟨hnone, hrow, q', hq'⟩ := twoLines la lb q (ha.trans hb.symm) (by omega)
    obtain ⟨hrest, q'', hq''⟩ := ih q' (by simp at heven; omega)
      (fun l hl => hwidth l (by simp [hl]))
    refine ⟨?_, q'', ?_⟩
    · rw [LineBuffer.pixels, LineBuffer.pixels, hnone, hrow, hq', hrest, hb, List.nil_append,
        List.length_cons, List.length_cons,
        show (ls.length + 1 + 1) / 2 = ls.length / 2 + 1 by omega, List.range_succ_eq_map,
        List.flatMap_cons, List.flatMap_map]
      congr 1
    · rw [LineBuffer.lines, List.foldl_cons, List.foldl_cons, hq']
      exact hq''

/-- A regular frame shows its raster and leaves an empty buffer. -/
theorem regular_frame (f : Frame) (h : f.Regular) (q : BitVec 16) :
    (LineBuffer.fresh q).pixels f.lines = f.raster ∧
      ∃ q', (LineBuffer.fresh q).frame f = LineBuffer.fresh q' := by
  obtain ⟨hpixels, q', hq'⟩ := pixels_eq f.width h.fits f.lines q h.even h.uniform
  refine ⟨?_, ?_⟩
  · rw [hpixels, Frame.raster, Frame.blocks, List.map_flatMap]
    simp only [List.map_map]
    rfl
  · rw [LineBuffer.frame, hq']
    split
    · exact ⟨q', rfl⟩
    · exact ⟨q', rfl⟩

theorem regular_frames (fs : List Frame) (h : ∀ f ∈ fs, f.Regular) (q : BitVec 16) :
    (LineBuffer.fresh q).framePixels fs = fs.flatMap Frame.raster ∧
      ∃ q', (LineBuffer.fresh q).frames fs = LineBuffer.fresh q' := by
  induction fs generalizing q with
  | nil => exact ⟨rfl, q, rfl⟩
  | cons f fs ih =>
    obtain ⟨hf, q', hq'⟩ := regular_frame f (h f List.mem_cons_self) q
    obtain ⟨hfs, q'', hq''⟩ := ih (fun g hg => h g (List.mem_cons_of_mem _ hg)) q'
    refine ⟨?_, q'', ?_⟩
    · rw [LineBuffer.framePixels, hf, hq', hfs, List.flatMap_cons]
    · rw [LineBuffer.frames, List.foldl_cons, hq']
      exact hq''

theorem seen_sublist (ρ : Nat) (fs : List Frame) : (seen ρ fs).Sublist fs := by
  induction fs generalizing ρ with
  | nil => exact List.Sublist.slnil
  | cons f fs ih =>
    rw [seen]
    split
    · exact (ih _).cons_cons f
    · exact (ih _).cons f

/-- **The acquisition stream is the raster of 2x2 blocks of whole frames.** -/
theorem raster_stream (q : BitVec 16) (ρ : Nat) (fs : List Frame)
    (hfs : ∀ f ∈ fs.tail, f.blank ≠ []) (hreg : ∀ f ∈ fs, f.Regular) :
    emit cycle output (Module.init q) (withReady ρ (fs.flatMap Frame.clocks)) =
      (seen ρ fs).flatMap Frame.raster := by
  rw [(sequence_refines q ρ fs hfs).2]
  exact (regular_frames _ (fun f hf => hreg f ((seen_sublist ρ fs).subset hf)) q).1

/-- Two lines of two samples: levels 0 and 0, then 31 and 0. -/
def twoByTwo : Frame where
  blank := [0]
  lines := [⟨[0], [0, 0], List.cons_ne_nil _ _, List.cons_ne_nil _ _⟩,
    ⟨[0], [4095, 0], List.cons_ne_nil _ _, List.cons_ne_nil _ _⟩]
  tail := [0]
  high := Or.inl (List.cons_ne_nil _ _)

theorem twoByTwo_regular : twoByTwo.Regular :=
  ⟨by decide, by decide, by simp [twoByTwo]; rfl, by decide⟩

/-- `Ready` rises inside the first of two frames, so that only the second one is shown. -/
theorem raster_stream_second :
    emit cycle output (Module.init 0) (withReady 3 ([twoByTwo, twoByTwo].flatMap Frame.clocks)) =
      twoByTwo.raster :=
  raster_stream 0 3 [twoByTwo, twoByTwo] (by simp [twoByTwo])
    (by simpa using twoByTwo_regular)

/-! ## The documented layout -/

/-- `sample * 31 / 4095`. -/
def level (d : BitVec 12) : Nat := d.toNat * 31 / 4095

theorem level_le (d : BitVec 12) : level d ≤ 31 := by
  have hd := d.isLt
  unfold level
  omega

theorem convert_toNat (d : BitVec 12) : (convert d).toNat = level d := by
  have hd := d.isLt
  have hle := level_le d
  unfold convert
  rw [BitVec.toNat_setWidth, BitVec.toNat_udiv, BitVec.toNat_mul, BitVec.toNat_setWidth,
    BitVec.toNat_ofNat, BitVec.toNat_ofNat, Nat.mod_eq_of_lt (show d.toNat < 2 ^ 24 by omega),
    Nat.mod_eq_of_lt (show 31 < 2 ^ 24 by omega), Nat.mod_eq_of_lt (show 4095 < 2 ^ 24 by omega),
    Nat.mod_eq_of_lt (show d.toNat * 31 < 2 ^ 24 by omega)]
  exact Nat.mod_eq_of_lt (Nat.lt_succ_of_le hle)

/-- The fields of `p` are those of the layout in the comments of the module for block `(r, c)`:
green 1 and red in the even line, blue and green 2 in the odd one. -/
structure BlockDocumented (f : Frame) (p : BitVec 16) (x : Nat × Nat) : Prop where
  red : (p.extractLsb' 11 5).toNat = level (f.sample (2 * x.1) (2 * x.2 + 1))
  green : (p.extractLsb' 5 6).toNat =
    level (f.sample (2 * x.1) (2 * x.2)) + level (f.sample (2 * x.1 + 1) (2 * x.2 + 1))
  blue : (p.extractLsb' 0 5).toNat = level (f.sample (2 * x.1 + 1) (2 * x.2))

/-- **Demosaicing follows the documented layout**: one pixel for each block. -/
def Documented (f : Frame) (ps : List (BitVec 16)) : Prop :=
  List.Forall₂ (BlockDocumented f) ps f.blocks

/-- A block has the documented fields if its blue and its second green are of one level. -/
theorem blockDocumented_iff (f : Frame) (x : Nat × Nat) :
    BlockDocumented f (f.blockPixel x) x ↔
      level (f.sample (2 * x.1 + 1) (2 * x.2)) = level (f.sample (2 * x.1 + 1) (2 * x.2 + 1)) := by
  constructor
  · intro h
    have hb := h.blue
    rw [Frame.blockPixel, pixel_blue, convert_toNat] at hb
    exact hb.symm
  · intro h
    refine ⟨?_, ?_, ?_⟩
    · rw [Frame.blockPixel, pixel_red, storeWord_red, convert_toNat]
    · rw [Frame.blockPixel, pixel_green, storeWord_green, convert_toNat, convert_toNat, h]
      omega
    · rw [Frame.blockPixel, pixel_blue, convert_toNat]
      exact h.symm

/-- A regular frame whose rising edge is seen shows its raster. -/
theorem during_raster (q : BitVec 16) (ρ : Nat) (fs : List Frame) (f : Frame)
    (hfs : ∀ g ∈ fs.tail, g.blank ≠ []) (hreg : ∀ g ∈ fs, g.Regular) (hf : f.Regular)
    (hblank : f.blank ≠ []) (hseen : ρ ≤ (fs.flatMap Frame.clocks).length + f.blank.length) :
    during q ρ fs f = f.raster := by
  obtain ⟨_, q', hq'⟩ := regular_frames (seen ρ fs)
    (fun g hg => hreg g ((seen_sublist ρ fs).subset hg)) q
  rw [during_eq q ρ fs f hfs hblank hseen, hq']
  exact (regular_frame f hf q').1

/-- **The layout is the documented one iff blue and green 2 do not differ**, in any block. -/
theorem documented_iff (q : BitVec 16) (ρ : Nat) (fs : List Frame) (f : Frame)
    (hfs : ∀ g ∈ fs.tail, g.blank ≠ []) (hreg : ∀ g ∈ fs, g.Regular) (hf : f.Regular)
    (hblank : f.blank ≠ []) (hseen : ρ ≤ (fs.flatMap Frame.clocks).length + f.blank.length) :
    Documented f (during q ρ fs f) ↔ ∀ r < f.lines.length / 2, ∀ c < f.width / 2,
      level (f.sample (2 * r + 1) (2 * c)) = level (f.sample (2 * r + 1) (2 * c + 1)) := by
  rw [during_raster q ρ fs f hfs hreg hf hblank hseen, Documented, Frame.raster,
    List.forall₂_map_left_iff, List.forall₂_same]
  simp only [blockDocumented_iff, Frame.blocks, List.mem_flatMap, List.mem_map, List.mem_range]
  constructor
  · intro h r hr c hc
    exact h (r, c) ⟨r, hr, c, hc, rfl⟩
  · rintro h x ⟨r, hr, c, hc, rfl⟩
    exact h r hr c hc

/-- Two lines of two samples: levels 7 and 15, then two different samples of level 22. -/
def coloured : Frame where
  blank := [0]
  lines := [⟨[0], [1000, 2000], List.cons_ne_nil _ _, List.cons_ne_nil _ _⟩,
    ⟨[0], [3000, 3010], List.cons_ne_nil _ _, List.cons_ne_nil _ _⟩]
  tail := [0]
  high := Or.inl (List.cons_ne_nil _ _)

theorem coloured_regular : coloured.Regular :=
  ⟨by decide, by decide, by simp [coloured]; rfl, by decide⟩

/-- One block with red 15, green 29 and blue 22. -/
theorem documented_coloured : Documented coloured (during 0 0 [twoByTwo] coloured) := by
  refine (documented_iff 0 0 [twoByTwo] coloured (by simp) (by simpa using twoByTwo_regular)
    coloured_regular (by simp [coloured]) (by decide)).mpr ?_
  decide

/-- **Failing input**: the sample in the blue place of the odd line is 4095 and the one beside it
is 0; the pixel shown is green. -/
theorem swapped_block :
    ¬ ∀ (q : BitVec 16) (ρ : Nat) (fs : List Frame) (f : Frame), (∀ g ∈ fs.tail, g.blank ≠ []) →
      (∀ g ∈ fs, g.Regular) → f.Regular → f.blank ≠ [] →
      ρ ≤ (fs.flatMap Frame.clocks).length + f.blank.length → Documented f (during q ρ fs f) := by
  intro h
  have hdoc := h 0 0 [] twoByTwo (by simp) (by simp) twoByTwo_regular (by simp [twoByTwo])
    (by decide)
  have hshown : during 0 0 [] twoByTwo = [BitVec.ofNat 16 (31 * 32)] := by decide
  rw [hshown] at hdoc
  have hblocks : twoByTwo.blocks = [(0, 0)] := by decide
  rw [Documented, hblocks] at hdoc
  have hblue := (List.forall₂_cons.mp hdoc).1.blue
  exact absurd hblue (by decide)

end CameraLcd.Acquisition
