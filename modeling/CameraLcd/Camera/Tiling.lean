import CameraLcd.Camera.BufferIndex

/-!
# The bursts of a frame tile its buffer

Between two publications `Base_Address` stands still and every burst goes 32 bytes behind the one
before it.

* `Tile` — the base, the offset and the bursts since the edge that began the frame.
* `Tile.step` — a cycle inside a frame adds a burst or completes one.
* `bursts_tile` — with `Ready` high from the first start on: the bursts of a frame, when it is
  published, under which index, and where the next frame goes.
-/

set_option autoImplicit false

namespace CameraLcd.CameraMaster

open Clocked

section Defs

variable (b0 : BitVec 2) (inp : Nat → Inputs)

/-- The address of the burst that begins in cycle `n`. -/
def burst (n : Nat) : Option (BitVec 32) :=
  if (regs b0 inp n).state = .dmaSendInit then some (regs b0 inp (n + 1)).amAdresse else none

/-- The bursts that begin after cycle `p` and before cycle `n`. -/
def bursts (p n : Nat) : List (BitVec 32) := collect (burst b0 inp) (p + 1) n

/-- Block `i` of a buffer. -/
def block (base : BitVec 32) (i : Nat) : BitVec 32 := base + BitVec.ofNat 32 (32 * i)

/-- A burst has begun and is not over. -/
def sending (s : MasterState) : Nat := if s = .dmaSendLoop then 1 else 0

/-- Cycle `n` in a frame that began with the edge after cycle `p`, with `d` bursts over. -/
structure Tile (p n : Nat) (base : BitVec 32) (d : Nat) : Prop where
  base_eq : (regs b0 inp n).baseAddress = base
  offset_eq : (regs b0 inp n).offsetAddress = BitVec.ofNat 32 (32 * d)
  bursts_eq : bursts b0 inp p n =
    (List.range (d + sending (regs b0 inp n).state)).map (block base)

end Defs

/-- Inside a frame an edge keeps the base; it keeps the offset too, or ends a burst. -/
theorem Edge.tile {r r' : Regs} {i : Inputs} (he : Edge r i r') (hr : i.ready = true)
    (hp : ¬ (r.state = .idleForReady ∧ newFrame r i = true)) :
    r'.baseAddress = r.baseAddress ∧
      (r'.offsetAddress = r.offsetAddress ∧ sending r'.state =
          sending r.state + (if r.state = .dmaSendInit then 1 else 0) ∨
        r'.offsetAddress = r.offsetAddress + 32 ∧ r.state = .dmaSendLoop ∧
          r'.state = .idleForReady) := by
  cases he with
  | stop _ h1 | abort _ h1 => simp [hr] at h1
  | publish hs _ hn => exact absurd ⟨hs, hn⟩ hp
  | resume hs | await hs | fetch hs | clockWait hs | collect hs | collectRelease hs
  | collectLast hs | stall hs | beat hs => exact ⟨rfl, .inl ⟨rfl, by simp [sending, hs]⟩⟩
  | sendInit hs => exact ⟨rfl, .inl ⟨rfl, by simp [sending, dmaSendInit, hs]⟩⟩
  | lastBeat hs => exact ⟨rfl, .inr ⟨rfl, hs, rfl⟩⟩

section Run

variable {b0 : BitVec 2} {inp : Nat → Inputs} {base : BitVec 32} {p n d : Nat}

theorem burst_eq (b0 : BitVec 2) (inp : Nat → Inputs) (n : Nat) : burst b0 inp n =
    if (regs b0 inp n).state = .dmaSendInit then
      some ((regs b0 inp n).baseAddress + (regs b0 inp n).offsetAddress) else none := by
  unfold burst
  split
  · rename_i hs
    rw [(edge_run b0 inp n).of_dmaSendInit hs, ← currentAddress_eq n (.inr (.inr hs))]
    rfl
  · rfl

/-- **A cycle inside a frame** keeps the tiling; a burst that ends with it leads to
`IDLE_FOR_READY`. -/
theorem Tile.step (hlt : p < n) (h : Tile b0 inp p n base d) (hr : (inp n).ready = true)
    (hp : ¬ Publishes b0 inp n) :
    Tile b0 inp p (n + 1) base d ∨ (Tile b0 inp p (n + 1) base (d + 1) ∧
      (regs b0 inp n).state = .dmaSendLoop ∧ (regs b0 inp (n + 1)).state = .idleForReady) := by
  obtain ⟨hbase, hoff, hbursts⟩ := h
  have hnot : ¬ ((regs b0 inp n).state = .idleForReady ∧
      newFrame (regs b0 inp n) (inp n) = true) := fun h => hp ⟨h.1, hr, h.2⟩
  have hsucc : bursts b0 inp p (n + 1) = bursts b0 inp p n ++ (burst b0 inp n).toList :=
    collect_succ _ hlt
  rw [burst_eq, hbase, hoff, hbursts] at hsucc
  obtain ⟨hb, ⟨ho, hs⟩ | ⟨ho, hs, hs'⟩⟩ := (edge_run b0 inp n).tile hr hnot
  · refine .inl ⟨hb.trans hbase, ho.trans hoff, ?_⟩
    rw [hsucc, hs]
    by_cases hinit : (regs b0 inp n).state = .dmaSendInit
    · -- the burst of this cycle
      have h0 : sending .dmaSendInit = 0 := rfl
      rw [if_pos hinit, if_pos hinit, hinit, h0, Nat.add_zero, Nat.zero_add, List.range_succ,
        List.map_append]
      rfl
    · rw [if_neg hinit, if_neg hinit]
      simp
  · refine .inr ⟨⟨hb.trans hbase, ?_, ?_⟩, hs, hs'⟩
    · rw [ho, hoff, Nat.mul_succ, BitVec.ofNat_add]
      rfl
    · rw [hsucc, hs, hs']
      simp [sending]

/-! ## Whole frames -/

/-- The bursts of a buffer of `l` bytes. -/
def blocks (l : BitVec 32) : Nat := (l.toNat + 31) / 32

/-- The frame that began with the edge after cycle `p` is still under way in cycle `n`. -/
def InFrame (b0 : BitVec 2) (inp : Nat → Inputs) (p n : Nat) : Prop :=
  p < n ∧ ∀ k, p < k → k < n → ¬ Publishes b0 inp k

/-- `Ready` is low up to cycle `n0` and then high up to cycle `m`; address and length have been
programmed before. -/
structure StartsAt (inp : Nat → Inputs) (a l : BitVec 32) (n0 m : Nat) : Prop where
  low : ∀ k ≤ n0, (inp k).ready = false
  high : ∀ k, n0 < k → k ≤ m → (inp k).ready = true
  programmed : ∀ k, n0 ≤ k → k ≤ m → (inp k).address = a ∧ (inp k).lengthFrame = l

/-- A frame begins with the first start and after every publication. -/
def FrameStart (b0 : BitVec 2) (inp : Nat → Inputs) (n0 p : Nat) : Prop :=
  p = n0 ∨ n0 < p ∧ Publishes b0 inp p

section Frames

variable {a l : BitVec 32} {n0 m : Nat}

theorem frame_first (h : StartsAt inp a l n0 m) (hp : FrameStart b0 inp n0 p) (hm : p ≤ m) :
    Tile b0 inp p (p + 1) (bufferBase a l (regs b0 inp (p + 1)).indiceMemoryZone) 0 := by
  rcases hp with rfl | ⟨hlt, hpub⟩
  · have hidle : (regs b0 inp p).state = .idleForReady ∧ (regs b0 inp p).indiceMemoryZone = 0 :=
      idle_before fun k hk => h.low k (by omega)
    obtain ⟨hs, hz⟩ := hidle
    obtain ⟨hs', hbase, hoff, hz'⟩ := stop_succ hs (h.low p (Nat.le_refl p))
    refine ⟨?_, hoff, ?_⟩
    · rw [hbase, hz', hz, (h.programmed p (Nat.le_refl p) hm).1]
      simp [bufferBase]
    · rw [hs', bursts, collect_self]
      rfl
  · obtain ⟨ha, hl⟩ := h.programmed p (by omega) hm
    obtain ⟨hs', hoff⟩ := publish_opens hpub
    refine ⟨publish_base hpub ha hl, hoff, ?_⟩
    rw [hs', bursts, collect_self]
    rfl

theorem newFrame_iff {i : Inputs} {r : Regs} (hl : i.lengthFrame = l)
    (hmax : l.toNat ≤ 0xFFFFFFE0) (hoff : r.offsetAddress = BitVec.ofNat 32 (32 * d))
    (hd : d ≤ blocks l) : newFrame r i = true ↔ d = blocks l := by
  unfold blocks at hd ⊢
  have hno : (BitVec.ofNat 32 (32 * d)).toNat = 32 * d := by
    rw [BitVec.toNat_ofNat]
    exact Nat.mod_eq_of_lt (by omega)
  unfold newFrame
  rw [hl, hoff, decide_eq_true_iff, ge_iff_le, BitVec.le_def, hno]
  omega

/-- **The tiling in every cycle of a frame.** -/
theorem tile_run (h : StartsAt inp a l n0 m) (hpos : 0 < l.toNat) (hmax : l.toNat ≤ 0xFFFFFFE0)
    (hp : FrameStart b0 inp n0 p) (hn : InFrame b0 inp p n) (hm : n ≤ m) :
    ∃ d, Tile b0 inp p n (bufferBase a l (regs b0 inp (p + 1)).indiceMemoryZone) d ∧
      d ≤ blocks l ∧ ((regs b0 inp n).state ≠ .idleForReady → d < blocks l) := by
  obtain ⟨hlt, hno⟩ := hn
  have hfirst := frame_first h hp (by omega)
  have hn0 : n0 ≤ p := by rcases hp with rfl | ⟨h1, -⟩ <;> omega
  have hblocks : 0 < blocks l := by unfold blocks; omega
  induction n, hlt using Nat.le_induction with
  | base => exact ⟨0, hfirst, by omega, fun _ => hblocks⟩
  | succ n hle ih =>
    obtain ⟨d, ht, hdle, hdlt⟩ := ih (by omega) fun k h1 h2 => hno k h1 (by omega)
    have hr := h.high n (by omega) (by omega)
    have hpub := hno n hle (by omega)
    rcases ht.step hle hr hpub with ht' | ⟨ht', hs, hs'⟩
    · refine ⟨d, ht', hdle, ?_⟩
      intro _
      by_cases hidle : (regs b0 inp n).state = .idleForReady
      · -- the new-frame test has failed
        by_contra hge
        have hnew := newFrame_iff (h.programmed n (by omega) (by omega)).2 hmax ht.offset_eq hdle
        exact hpub ⟨hidle, hr, hnew.mpr (by omega)⟩
      · exact hdlt hidle
    · have := hdlt (by rw [hs]; simp)
      exact ⟨d + 1, ht', by omega, fun hne => absurd hs' hne⟩

end Frames

/-- A frame in cycle `n`: what has been written since the edge after cycle `p`, and when and how
the frame is published. -/
structure FrameTiled (b0 : BitVec 2) (inp : Nat → Inputs) (a l : BitVec 32) (p n : Nat) :
    Prop where
  /-- The frame has a buffer of its own. -/
  zone : (regs b0 inp (p + 1)).indiceMemoryZone ≠ 3 ∧
    (regs b0 inp n).indiceMemoryZone = (regs b0 inp (p + 1)).indiceMemoryZone
  base : (regs b0 inp n).baseAddress = bufferBase a l (regs b0 inp (p + 1)).indiceMemoryZone
  /-- The bursts go to the blocks of the buffer, each once and in order. -/
  tiles : bursts b0 inp p n = (List.range (bursts b0 inp p n).length).map
    (block (bufferBase a l (regs b0 inp (p + 1)).indiceMemoryZone))
  atMost : (bursts b0 inp p n).length ≤ blocks l
  /-- `Buffer_Saved` is left alone until the frame is published. -/
  saved : (regs b0 inp n).bufferSaved = (regs b0 inp (p + 1)).bufferSaved
  /-- Back in `IDLE_FOR_READY` the frame is published if its blocks are written, and not before. -/
  publish : (regs b0 inp n).state = .idleForReady →
    (Publishes b0 inp n ↔ (bursts b0 inp p n).length = blocks l)
  /-- The publication shows the index of the frame's buffer and moves to a free buffer. -/
  moves : Publishes b0 inp n →
    (bursts b0 inp p n).length = blocks l ∧
      (regs b0 inp (n + 1)).bufferSaved = (regs b0 inp (p + 1)).indiceMemoryZone ∧
      (regs b0 inp (n + 1)).indiceMemoryZone ≠ (regs b0 inp (p + 1)).indiceMemoryZone ∧
      (regs b0 inp (n + 1)).indiceMemoryZone ≠ (inp n).displayBuffer ∧
      (regs b0 inp (n + 1)).indiceMemoryZone ≠ 3 ∧
      (regs b0 inp (n + 1)).baseAddress =
        a + (regs b0 inp (n + 1)).indiceMemoryZone.setWidth 32 * l

/-- **The bursts tile each buffer and the rotation moves to a free one.** -/
theorem bursts_tile (b0 : BitVec 2) (inp : Nat → Inputs) (a l : BitVec 32) (n0 m : Nat)
    (h : StartsAt inp a l n0 m) (hpos : 0 < l.toNat) (hmax : l.toNat ≤ 0xFFFFFFE0)
    (hd : ∀ n, (inp n).displayBuffer ≠ 3) (p n : Nat) (hp : FrameStart b0 inp n0 p)
    (hn : InFrame b0 inp p n) (hm : n ≤ m) : FrameTiled b0 inp a l p n := by
  obtain ⟨hlt, hno⟩ := id hn
  have hn0 : n0 ≤ p := by rcases hp with rfl | ⟨h1, -⟩ <;> omega
  obtain ⟨d, ht, hdle, hdlt⟩ := tile_run h hpos hmax hp hn hm
  have hlen : (bursts b0 inp p n).length = d + sending (regs b0 inp n).state := by
    rw [ht.bursts_eq, List.length_map, List.length_range]
  have hzone : (regs b0 inp n).indiceMemoryZone = (regs b0 inp (p + 1)).indiceMemoryZone :=
    zone_between hlt fun k h1 h2 => hno k h1 h2
  have hnew := newFrame_iff (h.programmed n (by omega) hm).2 hmax ht.offset_eq hdle
  have hidle : (regs b0 inp n).state = .idleForReady →
      (Publishes b0 inp n ↔ (bursts b0 inp p n).length = blocks l) := by
    intro hs
    rw [hlen, hs, show sending .idleForReady = 0 from rfl, Nat.add_zero, ← hnew]
    exact ⟨fun hpub => hpub.2.2, fun hf => ⟨hs, h.high n (by omega) hm, hf⟩⟩
  exact {
    zone := ⟨zone_ne_three (p + 1), hzone⟩
    base := ht.base_eq
    tiles := by rw [hlen, ← ht.bursts_eq]
    atMost := by
      rw [hlen]
      unfold sending
      split
      · rename_i hs
        have := hdlt (by rw [hs]; simp)
        omega
      · exact hdle
    saved := saved_between hlt fun k h1 h2 => hno k h1 h2
    publish := hidle
    moves := by
      intro hpub
      obtain ⟨hsaved, hz, hbase⟩ := publish_succ hpub
      obtain ⟨ha, hl⟩ := h.programmed n (by omega) hm
      obtain ⟨h1, h2, h3⟩ := rotate_avoids (inp n).displayBuffer (regs b0 inp n).indiceMemoryZone
        (inp n).address (inp n).lengthFrame (hd n) (zone_ne_three n)
      rw [hsaved, hz, hbase, rotate_base, ← hzone, ha, hl]
      rw [ha, hl] at h1 h2 h3
      exact ⟨(hidle hpub.1).mp hpub, rfl, h1, h2, h3, rfl⟩ }

end Run

/-- Buffers of two bursts at address 4096, a FIFO with words throughout and no stall. -/
def twoBursts (n : Nat) : Inputs where
  address := 4096
  lengthFrame := 64
  ready := n != 0
  displayBuffer := 0
  fifoDataAvailable := false
  fifoReadData := BitVec.ofNat 32 n
  amWaitRequest := false

theorem twoBursts_startsAt (m : Nat) : StartsAt twoBursts 4096 64 0 m where
  low := by
    intro k hk
    obtain rfl : k = 0 := by omega
    rfl
  high := by
    intro k hk _
    show (k != 0) = true
    simp
    omega
  programmed := fun _ _ _ => ⟨rfl, rfl⟩

theorem bursts_tile_twoBursts : bursts 0 twoBursts 0 39 = [4096, 4128] ∧
    Publishes 0 twoBursts 39 ∧ FrameTiled 0 twoBursts 4096 64 0 39 := by
  have hno : ∀ k < 39, 0 < k → ¬ Publishes 0 twoBursts k := by decide +kernel
  have hd : ∀ n, (twoBursts n).displayBuffer ≠ 3 := fun _ => show (0 : BitVec 2) ≠ 3 by decide
  exact ⟨by decide +kernel, by decide +kernel,
    bursts_tile 0 twoBursts 4096 64 0 39 (twoBursts_startsAt 39) (by decide) (by decide) hd 0 39
      (.inl rfl) ⟨by omega, fun k h1 h2 => hno k h2 h1⟩ (Nat.le_refl 39)⟩

end CameraLcd.CameraMaster
