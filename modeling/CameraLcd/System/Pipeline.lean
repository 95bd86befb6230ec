import Mathlib.Algebra.BigOperators.Group.List.Lemmas
import CameraLcd.Camera.Raster
import CameraLcd.System.Transfer
import CameraLcd.System.Video

/-!
# From the sensor to the LCD

`Camera_Acquisition_module` in the clock of the sensor, `FIFO_Inter_Clock_Domain`, and
`Transfert_Fifo` in front of the system of `Video`.

* `pack` — how the FIFO between the clocks makes words of pixels; `pack_halves` — the display takes
  them apart again.
* `pushed_arrived` — the burst FIFO is pushed the words that have come out of the FIFO between the
  clocks, in order.
* `shows_sensor` — a session shows the raster of one frame of the sensor.
-/

set_option autoImplicit false

namespace CameraLcd.Pipeline

open Clocked
open CameraMaster (blocks)
open FullLcd (PixelFifo halves)
open Gather (Word)

/-! ## Pixels and words -/

/-- Two pixels a word, the first one in the low half. -/
def pack : List (BitVec 16) → List Word
  | p :: p' :: ps => (p' ++ p) :: pack ps
  | _ => []

theorem halves_append (p p' : BitVec 16) : halves (p' ++ p) = [p, p'] := by
  have hlow : (p' ++ p).extractLsb' 0 16 = p := BitVec.extractLsb'_append_eq_right
  have hhigh : (p' ++ p).extractLsb' 16 16 = p' := BitVec.extractLsb'_append_eq_left
  rw [halves, hlow, hhigh]

/-- **The display takes apart what the camera's side has put together.** -/
theorem pack_halves (ps : List (BitVec 16)) (h : ps.length % 2 = 0) :
    (pack ps).flatMap halves = ps := by
  induction ps using List.twoStepInduction with
  | nil => rfl
  | singleton p => simp at h
  | cons_cons p p' ps ih _ =>
    rw [pack, List.flatMap_cons, halves_append, ih (by simp at h; omega)]
    rfl

theorem pack_length (ps : List (BitVec 16)) : (pack ps).length = ps.length / 2 := by
  induction ps using List.twoStepInduction with
  | nil => rfl
  | singleton p => simp [pack]
  | cons_cons p p' ps ih _ =>
    rw [pack, List.length_cons, ih, List.length_cons, List.length_cons]
    omega

theorem pack_append (ps qs : List (BitVec 16)) (h : ps.length % 2 = 0) :
    pack (ps ++ qs) = pack ps ++ pack qs := by
  induction ps using List.twoStepInduction with
  | nil => rfl
  | singleton p => simp at h
  | cons_cons p p' ps ih _ =>
    rw [List.cons_append, List.cons_append, pack, ih (by simp at h; omega), pack, List.cons_append]

theorem pack_flatten (pss : List (List (BitVec 16))) (h : ∀ ps ∈ pss, ps.length % 2 = 0) :
    pack pss.flatten = (pss.map pack).flatten := by
  induction pss with
  | nil => rfl
  | cons ps pss ih =>
    rw [List.flatten_cons, pack_append _ _ (h ps List.mem_cons_self),
      ih fun qs hqs => h qs (List.mem_cons_of_mem _ hqs), List.map_cons, List.flatten_cons]

/-- One of several lists of one length. -/
theorem slice_flatten {α : Type} (L : List (List α)) (w k : Nat) (hw : ∀ xs ∈ L, xs.length = w)
    (hk : k < L.length) : (L.flatten.drop (w * k)).take w = L[k] := by
  have hlen : L.map List.length = List.replicate L.length w :=
    List.map_eq_replicate_iff.mpr hw
  have hsum : ∀ i ≤ L.length, ((L.map List.length).take i).sum = w * i := by
    intro i hi
    rw [hlen, List.take_replicate, Nat.min_eq_left hi, List.sum_replicate_nat, Nat.mul_comm]
  have h := List.drop_take_succ_flatten_eq_getElem L k hk
  rw [hsum k (by omega), hsum (k + 1) hk] at h
  rw [List.take_drop, ← Nat.mul_succ]
  exact h

/-! ## The composition -/

/-- What the rest of the system drives, and the words that become visible on the read side of
`FIFO_Inter_Clock_Domain`. -/
structure Inputs where
  visible : List Word
  ready : Bool
  amWaitRequest : Bool
  commandData : BitVec 16
  stateCommandData : BitVec 2
  avmWaitRequest : Bool
  beat : Bool

section Defs

variable (rdreq : Bool) (q : Word) (inp : Nat → Inputs)

/-- What `Transfert_Fifo` sees. -/
def transferRun (n : Nat) : Transfer.Inputs := ⟨(inp n).ready, (inp n).visible⟩

/-- `Transfert_Fifo` writes the burst FIFO. -/
def videoRun (n : Nat) : Video.Inputs where
  push := Transfer.presentedAt rdreq q (transferRun inp) n
  ready := (inp n).ready
  amWaitRequest := (inp n).amWaitRequest
  commandData := (inp n).commandData
  stateCommandData := (inp n).stateCommandData
  avmWaitRequest := (inp n).avmWaitRequest
  beat := (inp n).beat

/-- The words that have come out of the FIFO between the clocks since the start in cycle `n0`. -/
def arrived (n0 n : Nat) : List Word :=
  ((List.range' (n0 + 1) (n - (n0 + 1))).map fun k => (inp k).visible).flatten

end Defs

/-- The pixels that the acquisition module sends while the sensor shows the frames `fs`, `Ready`
rising after `ρ` clocks of the sensor. -/
def acquired (q : BitVec 16) (ρ : Nat) (fs : List Acquisition.Frame) : List (BitVec 16) :=
  emit Acquisition.cycle Acquisition.output (Acquisition.Module.init q)
    (Acquisition.withReady ρ (fs.flatMap Acquisition.Frame.clocks))

/-- A display of these pixels. -/
def display (ps : List (BitVec 16)) : List LcdControl.Strobe :=
  ps.map (fun d => (true, d)) ++ [(false, 0x0000)]

section Run

variable {F : PixelFifo} {a l : BitVec 32} {q0 q : Word} {m0 : BitVec 32 → Word} {rdreq : Bool}
  {inp : Nat → Inputs} {n0 n m : Nat}

theorem arrived_succ (h : n0 < n) :
    arrived inp n0 (n + 1) = arrived inp n0 n ++ (inp n).visible := by
  have hr : List.range' (n0 + 1) (n + 1 - (n0 + 1)) =
      List.range' (n0 + 1) (n - (n0 + 1)) ++ [n] := by
    rw [show n + 1 - (n0 + 1) = (n - (n0 + 1)) + 1 by omega, List.range'_concat]
    congr 2
    omega
  rw [arrived, arrived, hr, List.map_append, List.flatten_append]
  simp

/-- The words pushed since the start are those presented by `Transfert_Fifo`. -/
theorem pushed_presented (h : Video.Orderly F a l q0 m0 (videoRun rdreq q inp) n0 m) (hlt : n0 < n)
    (hn : n ≤ m + 1) :
    Gather.pushed (Video.cameraRun F a l q0 m0 (videoRun rdreq q inp)) n =
      collect (Transfer.presentedAt rdreq q (transferRun inp)) (n0 + 1) n := by
  have hlow : ∀ k ≤ n0,
      Gather.pushAt (Video.cameraRun F a l q0 m0 (videoRun rdreq q inp)) k = none := by
    intro k hk
    have hk' : (Video.cameraRun F a l q0 m0 (videoRun rdreq q inp) k).ready = false := h.low k hk
    exact if_neg (by simp [hk'])
  induction n, hlt using Nat.le_induction with
  | base =>
    rw [collect_self]
    have hnone : ∀ k ≤ n0 + 1,
        Gather.pushed (Video.cameraRun F a l q0 m0 (videoRun rdreq q inp)) k = [] := by
      intro k
      induction k with
      | zero => exact fun _ => rfl
      | succ k ih =>
        intro hk
        rw [Gather.pushed_succ, ih (by omega), hlow k (by omega)]
        rfl
    exact hnone (n0 + 1) (Nat.le_refl _)
  | succ n hle ih =>
    rw [Gather.pushed_succ, ih (by omega), collect_succ _ hle]
    congr 2
    exact if_pos (h.high n (by omega) (by omega))

/-- **The words pushed are those that have arrived**, in order and each once. -/
theorem pushed_arrived (h : Video.Orderly F a l q0 m0 (videoRun rdreq q inp) n0 m) (hlt : n0 < n)
    (hn : n ≤ m) :
    Gather.pushed (Video.cameraRun F a l q0 m0 (videoRun rdreq q inp)) n <+:
      arrived inp n0 n := by
  rw [pushed_presented h hlt (by omega)]
  have hstop : (transferRun inp n0).ready = false := h.low n0 (Nat.le_refl n0)
  have hfirst : Transfer.presentedAt rdreq q (transferRun inp) (n0 + 1) = none := by
    rw [Transfer.presented_succ]
    exact Transfer.popped_clear _ hstop
  cases Nat.lt_or_ge (n0 + 1) n with
  | inr hle =>
    rw [show n = n0 + 1 by omega, collect_self]
    exact List.nil_prefix
  | inl hgt =>
    obtain ⟨n, rfl⟩ : ∃ n', n = n' + 1 := ⟨n - 1, by omega⟩
    have hall : collect (Transfer.poppedAt rdreq q (transferRun inp)) (n0 + 1) n <+:
        arrived inp n0 n :=
      ⟨_, Transfer.popped_visible (by omega) hstop fun k h1 h2 => h.high k h1 (by omega)⟩
    rw [Transfer.collect_presented (by omega) hfirst, arrived_succ (by omega)]
    exact hall.trans (List.prefix_append _ _)

end Run

/-! ## Frames of the sensor -/

section Frames

variable {l : BitVec 32} {fs : List Acquisition.Frame} {ρ : Nat}

/-- Frames of the sensor that fill a buffer of `l` bytes each, two bytes a pixel. -/
structure Filling (l : BitVec 32) (fs : List Acquisition.Frame) : Prop where
  blank : ∀ f ∈ fs.tail, f.blank ≠ []
  regular : ∀ f ∈ fs, f.Regular
  size : ∀ f ∈ fs, 2 * f.raster.length = l.toNat

/-- The pixels acquired, packed, are the packed rasters of the frames seen. -/
theorem pack_acquired (hfs : Filling l fs) (h64 : l.toNat % 64 = 0) (q : BitVec 16) (ρ : Nat) :
    pack (acquired q ρ fs) =
      ((Acquisition.seen ρ fs).map fun f => pack f.raster).flatten := by
  have hseen : ∀ f ∈ Acquisition.seen ρ fs, f ∈ fs :=
    fun f hf => (Acquisition.seen_sublist ρ fs).subset hf
  have hpixels :
      acquired q ρ fs = ((Acquisition.seen ρ fs).map Acquisition.Frame.raster).flatten := by
    rw [acquired, (Acquisition.sequence_refines q ρ fs hfs.blank).2,
      (Acquisition.regular_frames _ (fun f hf => hfs.regular f (hseen f hf)) q).1,
      List.flatMap_def]
  rw [hpixels, pack_flatten, List.map_map]
  · rfl
  · intro ps hps
    obtain ⟨f, hf, rfl⟩ := List.mem_map.mp hps
    have := hfs.size f (hseen f hf)
    omega

/-- A slice of a prefix that is a whole frame is a frame. -/
theorem slice_frame {ws : List Word} (hfs : Filling l fs) (hl : FrameStore.Fits l)
    (h64 : l.toNat % 64 = 0) {q : BitVec 16} (hshown : ws <+: pack (acquired q ρ fs)) (k : Nat)
    (hwhole : 4 * ((ws.drop (8 * blocks l * k)).take (8 * blocks l)).length = l.toNat) :
    ∃ f, (Acquisition.seen ρ fs)[k]? = some f ∧ f ∈ fs ∧
      (ws.drop (8 * blocks l * k)).take (8 * blocks l) = pack f.raster := by
  have hblocks := hl.blocks
  have hpos := hl.pos
  obtain ⟨rest, hws⟩ := hshown
  have hlen : 8 * blocks l * k + 8 * blocks l ≤ ws.length := by
    rw [List.length_take, List.length_drop] at hwhole
    omega
  have hseen : ∀ f ∈ Acquisition.seen ρ fs, f ∈ fs :=
    fun f hf => (Acquisition.seen_sublist ρ fs).subset hf
  have hw : ∀ xs ∈ (Acquisition.seen ρ fs).map (fun f => pack f.raster),
      xs.length = 8 * blocks l := by
    intro xs hxs
    obtain ⟨f, hf, rfl⟩ := List.mem_map.mp hxs
    have := hfs.size f (hseen f hf)
    rw [pack_length]
    omega
  rw [pack_acquired hfs h64] at hws
  have htotal : ws.length ≤ 8 * blocks l * (Acquisition.seen ρ fs).length := by
    have hflat := congrArg List.length hws
    have hsum : ((Acquisition.seen ρ fs).map fun f => pack f.raster).flatten.length =
        8 * blocks l * (Acquisition.seen ρ fs).length := by
      rw [List.length_flatten, List.map_eq_replicate_iff.mpr hw, List.sum_replicate_nat,
        List.length_map, Nat.mul_comm]
    rw [List.length_append, hsum] at hflat
    omega
  have hk : k < (Acquisition.seen ρ fs).length := by
    by_contra hge
    have := Nat.mul_le_mul_left (8 * blocks l) (Nat.le_of_not_lt hge)
    omega
  refine ⟨(Acquisition.seen ρ fs)[k], List.getElem?_eq_getElem hk,
    hseen _ (List.getElem_mem hk), ?_⟩
  have hslice := slice_flatten _ (8 * blocks l) k hw (by simpa using hk)
  rw [← hws, List.drop_append_of_le_length (by omega),
    List.take_append_of_le_length (by rw [List.length_drop]; omega)] at hslice
  simpa using hslice

end Frames

/-- What a session has shown by cycle `n`, as a frame of the sensor. -/
def ShowsSensor (F : PixelFifo) (a l : BitVec 32) (q0 : Word) (m0 : BitVec 32 → Word)
    (inp : Nat → Video.Inputs) (frames : List Acquisition.Frame) (c n : Nat) : Prop :=
  ∃ f, frames[Video.frames F a l q0 m0 inp (c + 10) - 1]? = some f ∧
    FullLcd.shown F (Video.lcdRun F a l q0 m0 inp) c n <+: display f.raster ∧
    (FullLcd.Finishes (Video.regs F a l q0 m0 inp n).lcd →
      FullLcd.shown F (Video.lcdRun F a l q0 m0 inp) c n = display f.raster)

/-- **The LCD shows whole frames of the sensor.**  A session shows the raster of one frame that
the acquisition module has seen, the one whose publication was the last before the session latched
its buffer: pixel by pixel, in order, and all of it when the session ends.  The FIFO between the
clocks is any that puts out the pixels it is given, packed, in order and at any time. -/
theorem shows_sensor (F : PixelFifo) (a l : BitVec 32) (q0 q : Word) (m0 : BitVec 32 → Word)
    (rdreq : Bool) (inp : Nat → Inputs) (qa : BitVec 16) (ρ : Nat) (fs : List Acquisition.Frame)
    (n0 c n : Nat) (h : Video.Orderly F a l q0 m0 (videoRun rdreq q inp) n0 n) (hpos : 0 < l.toNat)
    (h64 : l.toNat % 64 = 0) (hsmall : l.toNat < 0x40000000) (hfs : Filling l fs)
    (hcross : ∀ k, n0 < k → k ≤ n → arrived inp n0 k <+: pack (acquired qa ρ fs))
    (hstart : FullLcd.Starts F (Video.lcdRun F a l q0 m0 (videoRun rdreq q inp)) c)
    (hcn : c + 10 ≤ n) (hf : 0 < Video.frames F a l q0 m0 (videoRun rdreq q inp) (c + 10))
    (hopen : ∀ k, c ≤ k → k < n →
      ¬ FullLcd.Finishes (Video.regs F a l q0 m0 (videoRun rdreq q inp) k).lcd) :
    ShowsSensor F a l q0 m0 (videoRun rdreq q inp) (Acquisition.seen ρ fs) c n := by
  have hl : FrameStore.Fits l := ⟨hpos, by omega, by omega⟩
  have hn0 := Video.started h hf
  obtain ⟨hwhole, hshown, hdone⟩ := Video.shows_frame F a l q0 m0 (videoRun rdreq q inp) n0 c n h
    hpos h64 hsmall hstart hcn hf hopen
  have harrived := (pushed_arrived h hn0 hcn).trans (hcross (c + 10) hn0 hcn)
  have hlast : Video.lastFrame F a l q0 m0 (videoRun rdreq q inp) (c + 10) =
      ((Gather.pushed (Video.cameraRun F a l q0 m0 (videoRun rdreq q inp)) (c + 10)).drop
        (8 * blocks l * (Video.frames F a l q0 m0 (videoRun rdreq q inp) (c + 10) - 1))).take
          (8 * blocks l) := by
    rw [Video.lastFrame, Nat.mul_assoc]
  rw [hlast] at hwhole hshown hdone
  obtain ⟨f, hseen, hmem, hpack⟩ := slice_frame hfs hl h64 harrived _ hwhole
  have hstrobes : Video.strobes (pack f.raster) = display f.raster := by
    have := hfs.size f hmem
    rw [Video.strobes, pack_halves _ (by omega)]
    rfl
  rw [hpack, hstrobes] at hshown hdone
  exact ⟨f, hseen, hshown, hdone⟩

/-- A line of 64 samples, all but the first one black. -/
def line64 (v : BitVec 12) : Acquisition.Line where
  gap := [v]
  samples := v :: List.replicate 63 0
  gap_ne := List.cons_ne_nil _ _
  samples_ne := List.cons_ne_nil _ _

/-- A frame of one row of blocks with green in its corner. -/
def corner : Acquisition.Frame where
  blank := [0]
  lines := [line64 4095, line64 0]
  tail := [0]
  high := Or.inl (List.cons_ne_nil _ _)

/-- That frame comes out of the FIFO from cycle 1 on; the CPU asks for a display in cycle 39. -/
def cornerRun (n : Nat) : Inputs where
  visible := ((992 :: List.replicate 15 0).drop (n - 1)).take 1
  ready := n != 0
  amWaitRequest := false
  commandData := 0x2C
  stateCommandData := if n < 39 then 0 else 1
  avmWaitRequest := false
  beat := true

/-- A pixel FIFO without lag. -/
abbrev promptFifo : PixelFifo := MixedFifo.exact halves 1024 2 4 0

/-- The first pixels of that display. -/
theorem shows_sensor_corner :
    ShowsSensor promptFifo 0x1000 64 0 (fun _ => 0) (videoRun false 0 cornerRun)
        (Acquisition.seen 0 [corner]) 40 93 ∧
      FullLcd.shown promptFifo
          (Video.lcdRun promptFifo 0x1000 64 0 (fun _ => 0) (videoRun false 0 cornerRun)) 40 93 =
        [(true, 992), (true, 0)] := by
  have hhigh : ∀ k ≤ 93, 0 < k → (videoRun false 0 cornerRun k).ready = true := by decide
  have hrace : ∀ k < 93,
      ¬ ((Video.regs promptFifo 0x1000 64 0 (fun _ => 0) (videoRun false 0 cornerRun)
          k).lcd.master.state = .copy ∧
        (Video.regs promptFifo 0x1000 64 0 (fun _ => 0) (videoRun false 0 cornerRun)
          k).camera.master.state = .idleForReady) := by
    decide +kernel
  have hopen : ∀ k < 93, ¬ FullLcd.Finishes
      (Video.regs promptFifo 0x1000 64 0 (fun _ => 0) (videoRun false 0 cornerRun) k).lcd := by
    decide +kernel
  have hcpu : ∀ k, (cornerRun (k + 1)).commandData = (cornerRun k).commandData := fun _ => rfl
  have h : Video.Orderly promptFifo 0x1000 64 0 (fun _ => 0) (videoRun false 0 cornerRun) 0 93 := {
    low := by decide
    high := fun k h1 h2 => hhigh k h2 h1
    room := by decide +kernel
    eighth := fun _ _ _ _ => rfl
    raceless := fun k _ h2 hr => hrace k h2 ⟨hr.1, hr.2.2.1.1⟩
    cpu := fun k _ _ _ => hcpu k }
  have hfs : Filling 64 [corner] := {
    blank := by simp
    regular := by
      rintro f hf
      rw [List.mem_singleton.mp hf]
      exact ⟨by decide, by decide, by simp [corner]; decide, by decide⟩
    size := by
      rintro f hf
      rw [List.mem_singleton.mp hf]
      decide +kernel }
  have hpack : pack (acquired 0 0 [corner]) = 992 :: List.replicate 15 0 := by
    rw [pack_acquired hfs (by decide)]
    decide +kernel
  have hcross : ∀ k ≤ 93, arrived cornerRun 0 k <+: 992 :: List.replicate 15 0 := by
    decide +kernel
  have hstart : FullLcd.Starts promptFifo
      (Video.lcdRun promptFifo 0x1000 64 0 (fun _ => 0) (videoRun false 0 cornerRun)) 40 := by
    refine ⟨?_, ?_, show LcdControl.memoryWrite (cornerRun 40).commandData = true by decide⟩
    · rw [← Video.lcd_eq]
      decide +kernel
    · rw [← Video.lcd_eq]
      decide +kernel
  refine ⟨shows_sensor promptFifo 0x1000 64 0 0 (fun _ => 0) false cornerRun 0 0 [corner] 0 40 93 h
    (by decide) (by decide) (by decide) hfs ?_ hstart (by decide) (by decide +kernel)
    fun k _ h2 => hopen k h2, by decide +kernel⟩
  intro k _ hk
  rw [hpack]
  exact hcross k hk

end CameraLcd.Pipeline
