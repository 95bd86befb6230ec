import Mathlib.Data.List.Nodup
import Mathlib.Tactic.IntervalCases
import CameraLcd.Camera.Acquisition

/-!
# `Capture_Image_Computer`: the frame in memory as text

`Capture_Image_Computer`, `Convert_Pixels` and `Extract_Colors` of `Camera_function.c`.  An
`int` is a `BitVec 32` in two's complement, an `int16_t` argument a `BitVec 16` to which the
caller's value is narrowed and which is sign extended in every expression.

* `field_eq` — masking and shifting a sign extended word gives a field of it.
* `convertPixels_eq` — the two triples of any word, without the clamp.
* `capture_decodes` — what is read and printed for a buffer that holds a frame.
-/

set_option autoImplicit false

namespace CameraLcd.Capture

/-- The three places of `Storage` that one pixel fills. -/
structure Colors where
  red : BitVec 32
  green : BitVec 32
  blue : BitVec 32
  deriving DecidableEq, Repr

/-- `if (Color > 32) … = 32; else … = Color;`. -/
def clamp (color : BitVec 32) : BitVec 32 := if (32 : BitVec 32).slt color then 32 else color

/-- `Extract_Colors`. -/
def extractColors (data : BitVec 16) : Colors :=
  let d := data.signExtend 32
  let red := (d &&& 0xF800).sshiftRight 11
  let blue := d &&& 0x001F
  let green := (d &&& 0x07E0).sshiftRight 5
  { red := clamp red, green := clamp (green.sdiv 2), blue := clamp blue }

/-- `Convert_Pixels`.  `0xFFFF0000` is an `unsigned int`, so the second shift is a logical one. -/
def convertPixels (data : BitVec 32) : Colors × Colors :=
  (extractColors ((data &&& 0xFFFF).setWidth 16),
    extractColors (((data &&& 0xFFFF0000) >>> 16).setWidth 16))

/-! ## The loops -/

/-- What `Capture_Image_Computer` does, in order. -/
inductive Event where
  /-- `fprintf(foutput, text)`. -/
  | file (text : String)
  /-- `fprintf(foutput, "%3d %3d %3d %3d %3d %3d ", Pixels[0], …, Pixels[5])`. -/
  | filePixels (pixels : Colors × Colors)
  /-- `printf(text)`. -/
  | console (text : String)
  /-- `printf("%3d %3d %3d %3d %3d %3d ", Pixels[0], …, Pixels[5])`. -/
  | consolePixels (pixels : Colors × Colors)
  /-- `IORD_32DIRECT`. -/
  | load (address : BitVec 32)

/-- `sprintf(filename, "/mnt/host/image%d.ppm", Frame)`. -/
def filename (frame : BitVec 32) : String := "/mnt/host/image" ++ toString frame.toInt ++ ".ppm"

/-- `Address` and the offset `i*160*4+j*4+160*240*4*Frame`. -/
def wordAddress (address frame : BitVec 32) (i j : Nat) : BitVec 32 :=
  address +
    (BitVec.ofNat 32 i * 160 * 4 + BitVec.ofNat 32 j * 4 + 160 * 240 * 4 * frame)

section Loops

variable (memory : BitVec 32 → BitVec 32) (address frame : BitVec 32)

/-- The body of the inner loop. -/
def captureWord (i j : Nat) : List Event :=
  let a := wordAddress address frame i j
  [.load a, .filePixels (convertPixels (memory a))]

/-- The body of the outer loop: `Pixels` still holds the last word of the line. -/
def captureLine (i : Nat) : List Event :=
  (List.range 160).flatMap (captureWord memory address frame i) ++
    [.consolePixels (convertPixels (memory (wordAddress address frame i 159))), .file "\r\n"]

/-- `Capture_Image_Computer`; `opened` says whether `fopen` succeeds. -/
def captureImageComputer (opened : Bool) : List Event :=
  if opened then
    [.file "P3\n320 240\n32\n",
      .console ("Good: open \"" ++ filename frame ++ "\" for writing\n")] ++
      (List.range 240).flatMap (captureLine memory address frame)
  else [.console ("Error: could not open \"" ++ filename frame ++ "\" for writing\n")]

end Loops

/-- The addresses read. -/
def loads (es : List Event) : List (BitVec 32) :=
  es.flatMap fun
    | .load a => [a]
    | _ => []

/-- The values that `%3d` prints for one pixel. -/
def Colors.values (c : Colors) : Int × Int × Int := (c.red.toInt, c.green.toInt, c.blue.toInt)

/-- The triples printed to the file. -/
def triples (es : List Event) : List (Int × Int × Int) :=
  es.flatMap fun
    | .filePixels p => [p.1.values, p.2.values]
    | _ => []

/-! ## One word -/

/-- A contiguous mask and a shift cut a field out of a sign extended word; no sign bit is left
in it. -/
theorem field_eq (data : BitVec 16) (mask : BitVec 32) (s w : Nat) (hle : s + w ≤ 16)
    (hmask : ∀ j < 32, mask.getLsbD j = decide (s ≤ j ∧ j < s + w)) :
    (data.signExtend 32 &&& mask).sshiftRight s = (data.extractLsb' s w).setWidth 32 := by
  have hmsb : mask.msb = false := by
    rw [BitVec.msb_eq_getLsbD_last, hmask 31 (by omega)]
    exact decide_eq_false (by omega)
  apply BitVec.eq_of_getLsbD_eq
  intro j hj
  rw [BitVec.getLsbD_sshiftRight, BitVec.msb_and, hmsb, BitVec.getLsbD_setWidth,
    BitVec.getLsbD_extractLsb']
  by_cases hs : s + j < 32
  · rw [if_pos hs, BitVec.getLsbD_and, hmask _ hs, BitVec.getLsbD_signExtend]
    by_cases hw : j < w
    · simp [hj, hw, hs, show s + j < 16 by omega]
    · simp [hw]
  · simp [hs, show ¬ j < w by omega]

theorem toInt_small {x : BitVec 32} (h : x.toNat < 64) : x.toInt = x.toNat :=
  BitVec.toInt_eq_toNat_of_lt (by omega)

theorem clamp_of_le {x : BitVec 32} (h : x.toNat ≤ 32) : clamp x = x := by
  have h32 : (32 : BitVec 32).toInt = 32 := by decide
  have hx : x.toInt = x.toNat := toInt_small (by omega)
  unfold clamp
  apply if_neg
  rw [BitVec.slt_eq_decide, decide_eq_true_iff, h32, hx]
  omega

theorem field_toNat (data : BitVec 16) (s w : Nat) (hw : w ≤ 6) :
    ((data.extractLsb' s w).setWidth 32).toNat = (data.extractLsb' s w).toNat ∧
      (data.extractLsb' s w).toNat < 64 := by
  have hlt := (data.extractLsb' s w).isLt
  have hpow : 2 ^ w ≤ 2 ^ 6 := Nat.pow_le_pow_right (by omega) hw
  refine ⟨?_, by omega⟩
  rw [BitVec.toNat_setWidth]
  exact Nat.mod_eq_of_lt (by omega)

/-- The three components of a pixel: 5 bits of red, half of 6 bits of green, 5 bits of blue. -/
def components (p : BitVec 16) : Int × Int × Int :=
  ((p.extractLsb' 11 5).toNat, ((p.extractLsb' 5 6).toNat / 2 : Nat), (p.extractLsb' 0 5).toNat)

/-- No component of a pixel reaches the clamp. -/
theorem components_bounds (p : BitVec 16) :
    (0 ≤ (components p).1 ∧ (components p).1 ≤ 31) ∧
      (0 ≤ (components p).2.1 ∧ (components p).2.1 ≤ 31) ∧
      (0 ≤ (components p).2.2 ∧ (components p).2.2 ≤ 31) := by
  have hr := (p.extractLsb' 11 5).isLt
  have hg := (p.extractLsb' 5 6).isLt
  have hb := (p.extractLsb' 0 5).isLt
  unfold components
  simp only
  omega

/-- **`Extract_Colors` returns the components, unaltered by the clamp.** -/
theorem extractColors_values (p : BitVec 16) : (extractColors p).values = components p := by
  have hr := field_eq p 0xF800 11 5 (by omega) (by decide)
  have hg := field_eq p 0x07E0 5 6 (by omega) (by decide)
  have hb := field_eq p 0x001F 0 5 (by omega) (by decide)
  rw [BitVec.sshiftRight_zero] at hb
  obtain ⟨hrn, -⟩ := field_toNat p 11 5 (by omega)
  obtain ⟨hgn, hgl⟩ := field_toNat p 5 6 (by omega)
  obtain ⟨hbn, -⟩ := field_toNat p 0 5 (by omega)
  have hr5 := (p.extractLsb' 11 5).isLt
  have hb5 := (p.extractLsb' 0 5).isLt
  have hhalf : ((BitVec.setWidth 32 (p.extractLsb' 5 6)).sdiv 2).toNat =
      (p.extractLsb' 5 6).toNat / 2 := by
    have hmsb : (BitVec.setWidth 32 (p.extractLsb' 5 6)).msb = false := by
      rw [BitVec.msb_eq_decide]
      exact decide_eq_false (by omega)
    rw [BitVec.sdiv_eq, hmsb, show (2 : BitVec 32).msb = false by decide]
    simp only [BitVec.udiv_eq, BitVec.toNat_udiv, hgn]
    rfl
  unfold extractColors Colors.values components
  simp only [hr, hg, hb]
  rw [clamp_of_le (by omega), clamp_of_le (by omega), clamp_of_le (by omega),
    toInt_small (by omega), toInt_small (by omega), toInt_small (by omega), hrn, hhalf, hbn]

/-- The word of two pixels, the earlier one in the low half. -/
def storedWord (earlier later : BitVec 16) : BitVec 32 := later ++ earlier

theorem convertPixels_halves (data : BitVec 32) :
    (data &&& 0xFFFF).setWidth 16 = data.extractLsb' 0 16 ∧
      ((data &&& 0xFFFF0000) >>> 16).setWidth 16 = data.extractLsb' 16 16 := by
  refine ⟨?_, ?_⟩
  · ext j hj
    interval_cases j <;> simp
  · ext j hj
    interval_cases j <;> simp

/-- **`Convert_Pixels` on any word.** -/
theorem convertPixels_eq (data : BitVec 32) :
    (convertPixels data).1.values = components (data.extractLsb' 0 16) ∧
      (convertPixels data).2.values = components (data.extractLsb' 16 16) := by
  obtain ⟨hlo, hhi⟩ := convertPixels_halves data
  unfold convertPixels
  rw [hlo, hhi]
  exact ⟨extractColors_values _, extractColors_values _⟩

/-! ## The whole buffer -/

theorem flatMap_rows {α : Type} (n : Nat) (g : Nat → List α) : ∀ m,
    (List.range m).flatMap (fun i => (List.range n).flatMap (fun j => g (n * i + j))) =
      (List.range (n * m)).flatMap g
  | 0 => rfl
  | m + 1 => by
    rw [List.range_succ, List.flatMap_append, flatMap_rows n g m, Nat.mul_succ, List.range_add,
      List.flatMap_append, List.flatMap_map]
    simp

/-- The address of word `k` of buffer `frame`. -/
def bufferWord (address frame : BitVec 32) (k : Nat) : BitVec 32 :=
  address + frame * 153600 + BitVec.ofNat 32 (4 * k)

theorem wordAddress_eq (address frame : BitVec 32) (i j : Nat) :
    wordAddress address frame i j = bufferWord address frame (160 * i + j) := by
  unfold wordAddress bufferWord
  rw [Nat.mul_add, BitVec.ofNat_add, BitVec.ofNat_mul, BitVec.ofNat_mul, BitVec.ofNat_mul]
  grind

theorem loads_append (es es' : List Event) : loads (es ++ es') = loads es ++ loads es' :=
  List.flatMap_append

theorem loads_flatMap (l : List Nat) (f : Nat → List Event) :
    loads (l.flatMap f) = l.flatMap (fun x => loads (f x)) := List.flatMap_assoc

theorem triples_append (es es' : List Event) :
    triples (es ++ es') = triples es ++ triples es' := List.flatMap_append

theorem triples_flatMap (l : List Nat) (f : Nat → List Event) :
    triples (l.flatMap f) = l.flatMap (fun x => triples (f x)) := List.flatMap_assoc

section Buffer

variable (memory : BitVec 32 → BitVec 32) (address frame : BitVec 32)

/-- A line reads its words from left to right. -/
theorem loads_captureLine (i : Nat) : loads (captureLine memory address frame i) =
    (List.range 160).flatMap (fun j => [bufferWord address frame (160 * i + j)]) := by
  unfold captureLine
  rw [loads_append, loads_flatMap]
  simp [loads, captureWord, wordAddress_eq]

/-- The triples of word `k`. -/
def wordTriples (k : Nat) : List (Int × Int × Int) :=
  [components ((memory (bufferWord address frame k)).extractLsb' 0 16),
    components ((memory (bufferWord address frame k)).extractLsb' 16 16)]

theorem triples_captureLine (i : Nat) : triples (captureLine memory address frame i) =
    (List.range 160).flatMap (fun j => wordTriples memory address frame (160 * i + j)) := by
  unfold captureLine
  rw [triples_append, triples_flatMap]
  simp [triples, captureWord, wordAddress_eq, wordTriples, convertPixels_eq]

/-- **Each word of the buffer is read once, in raster order.** -/
theorem loads_capture : loads (captureImageComputer memory address frame true) =
    (List.range 38400).map (bufferWord address frame) := by
  have hrows : loads (captureImageComputer memory address frame true) =
      (List.range 240).flatMap (fun i => loads (captureLine memory address frame i)) := by
    unfold captureImageComputer
    rw [if_pos rfl, loads_append, loads_flatMap]
    exact List.nil_append _
  rw [hrows, List.map_eq_flatMap, show (38400 : Nat) = 160 * 240 by norm_num]
  simp only [loads_captureLine]
  exact flatMap_rows 160 (fun k => [bufferWord address frame k]) 240

/-- Two words of a buffer have different addresses. -/
theorem bufferWord_inj {k k' : Nat} (hk : k < 38400) (hk' : k' < 38400)
    (h : bufferWord address frame k = bufferWord address frame k') : k = k' := by
  have hoff := congrArg BitVec.toNat ((BitVec.add_right_inj _).mp h)
  simp only [BitVec.toNat_ofNat] at hoff
  omega

theorem loads_nodup : (loads (captureImageComputer memory address frame true)).Nodup := by
  rw [loads_capture]
  apply List.Nodup.map_on _ List.nodup_range
  intro k hk k' hk' h
  exact bufferWord_inj address frame (List.mem_range.mp hk) (List.mem_range.mp hk') h

theorem triples_capture : triples (captureImageComputer memory address frame true) =
    (List.range 38400).flatMap (wordTriples memory address frame) := by
  have hrows : triples (captureImageComputer memory address frame true) =
      (List.range 240).flatMap (fun i => triples (captureLine memory address frame i)) := by
    unfold captureImageComputer
    rw [if_pos rfl, triples_append, triples_flatMap]
    exact List.nil_append _
  rw [hrows, show (38400 : Nat) = 160 * 240 by norm_num]
  simp only [triples_captureLine]
  exact flatMap_rows 160 (wordTriples memory address frame) 240

end Buffer

/-- The halves of a stored word. -/
theorem storedWord_halves (earlier later : BitVec 16) :
    (storedWord earlier later).extractLsb' 0 16 = earlier ∧
      (storedWord earlier later).extractLsb' 16 16 = later := by
  have hbit : ∀ k, (storedWord earlier later).getLsbD k =
      (later ++ earlier : BitVec (16 + 16)).getLsbD k := fun _ => rfl
  refine ⟨?_, ?_⟩
  · ext j hj
    rw [BitVec.getElem_extractLsb', hbit, BitVec.getLsbD_append, if_pos (by omega), Nat.zero_add]
    exact BitVec.getLsbD_eq_getElem hj
  · ext j hj
    rw [BitVec.getElem_extractLsb', hbit, BitVec.getLsbD_append, if_neg (by omega),
      Nat.add_sub_cancel_left]
    exact BitVec.getLsbD_eq_getElem hj

/-- The triple that stands for a pixel of the acquisition module: its red, half the sum of its
greens, its blue. -/
def packedTriple (word : BitVec 16) (even odd : BitVec 5) : Int × Int × Int :=
  ((word.extractLsb' 11 5).toNat, ((even.toNat + (word.extractLsb' 5 5).toNat) / 2 : Nat),
    odd.toNat)

/-- The decoder agrees with the packing. -/
theorem components_pixel (word : BitVec 16) (even odd : BitVec 5) :
    components (Acquisition.pixel word even odd) = packedTriple word even odd := by
  unfold components packedTriple
  rw [Acquisition.pixel_red, Acquisition.pixel_green, Acquisition.pixel_blue]

/-- **Software capture decodes what the hardware packed.** -/
theorem capture_decodes (memory : BitVec 32 → BitVec 32) (address frame : BitVec 32)
    (word : Nat → BitVec 16) (even odd : Nat → BitVec 5)
    (hstored : ∀ k < 38400, memory (bufferWord address frame k) =
      storedWord (Acquisition.pixel (word (2 * k)) (even (2 * k)) (odd (2 * k)))
        (Acquisition.pixel (word (2 * k + 1)) (even (2 * k + 1)) (odd (2 * k + 1)))) :
    loads (captureImageComputer memory address frame true) =
        (List.range 38400).map (bufferWord address frame) ∧
      (loads (captureImageComputer memory address frame true)).Nodup ∧
      (∀ data, (convertPixels data).1.values = components (data.extractLsb' 0 16) ∧
        (convertPixels data).2.values = components (data.extractLsb' 16 16)) ∧
      triples (captureImageComputer memory address frame true) =
        (List.range 76800).map (fun k => packedTriple (word k) (even k) (odd k)) ∧
      ∀ t ∈ triples (captureImageComputer memory address frame true),
        (0 ≤ t.1 ∧ t.1 ≤ 31) ∧ (0 ≤ t.2.1 ∧ t.2.1 ≤ 31) ∧ (0 ≤ t.2.2 ∧ t.2.2 ≤ 31) := by
  have hword : ∀ k < 38400, wordTriples memory address frame k =
      (List.range 2).flatMap (fun j =>
        [packedTriple (word (2 * k + j)) (even (2 * k + j)) (odd (2 * k + j))]) := by
    intro k hk
    unfold wordTriples
    rw [hstored k hk, (storedWord_halves _ _).1, (storedWord_halves _ _).2, components_pixel,
      components_pixel]
    rfl
  have htriples : triples (captureImageComputer memory address frame true) =
      (List.range 76800).map (fun k => packedTriple (word k) (even k) (odd k)) := by
    rw [triples_capture, List.map_eq_flatMap,
      ← flatMap_rows 2 (fun k => [packedTriple (word k) (even k) (odd k)]) 38400]
    apply List.flatMap_congr
    intro k hk
    exact hword k (List.mem_range.mp hk)
  refine ⟨loads_capture _ _ _, loads_nodup _ _ _, convertPixels_eq, htriples, ?_⟩
  intro t ht
  rw [htriples, List.mem_map] at ht
  obtain ⟨k, -, rfl⟩ := ht
  rw [← components_pixel]
  exact components_bounds _

theorem capture_decodes_plain :
    triples (captureImageComputer (fun _ => storedWord (Acquisition.pixel 0xF8A0 7 9)
        (Acquisition.pixel 0xF8A0 7 9)) 0x1000 1 true) =
      (List.range 76800).map (fun _ => (31, 6, 9)) :=
  (capture_decodes _ 0x1000 1 (fun _ => 0xF8A0) (fun _ => 7) (fun _ => 9)
    (fun _ _ => rfl)).2.2.2.1

end CameraLcd.Capture
