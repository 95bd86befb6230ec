import CameraLcd.Camera.Gather
import CameraLcd.Camera.Tiling
import CameraLcd.Lib.BurstMemory

/-!
# Frames in the memory

`Camera_Master_Interface` with its FIFO in front of a memory that takes bursts.

* `Sending` — how far a frame has got into its buffer, for each state of the master.
* `stored_step`, `stored_run` — one clock edge and a run from reset.
* `frame_stored` — when a frame is published its buffer holds the words pushed for it, and the
  published buffer keeps them until the next frame is published.
-/

set_option autoImplicit false

namespace CameraLcd.FrameStore

open Clocked BurstMemory
open CameraMaster (Edge bufferBase blocks sending newFrame)
open Gather (Word Holds Phase)

section Defs

variable (b0 : BitVec 2) (q0 : Word) (m0 : BitVec 32 → Word) (inp : Nat → Gather.Inputs)

/-- The master in cycle `n`. -/
abbrev master (n : Nat) : CameraMaster.Regs := (Gather.regs b0 q0 inp n).master

/-- The write side of the bus: the master asks for whole words only. -/
def bus (r : CameraMaster.Regs) (amWaitRequest : Bool) : Bus 32 Word where
  write := r.amWrite
  address := r.amAdresse
  count := r.amBurstCount.toNat
  data := r.amDataWrite
  waitRequest := amWaitRequest

/-- The memory in cycle `n`. -/
def slave (n : Nat) : Slave 32 Word :=
  Machine.run ⟨⟨m0, 0, 0⟩, Slave.step 4⟩
    (fun k => bus (master b0 q0 inp k) (inp k).amWaitRequest) n

/-- A frame is published in cycle `n`. -/
def Publishes (n : Nat) : Prop :=
  (master b0 q0 inp n).state = .idleForReady ∧ (inp n).ready = true ∧
    (master b0 q0 inp n).offsetAddress ≥ (inp n).lengthFrame

instance (n : Nat) : Decidable (Publishes b0 q0 inp n) := inferInstanceAs (Decidable (_ ∧ _))

/-- The frames published before cycle `n`. -/
def frames (n : Nat) : Nat :=
  (collect (fun k => if Publishes b0 q0 inp k then some () else none) 0 n).length

/-- The camera is started once, with its registers programmed, and runs undisturbed up to
cycle `m`: the FIFO has room, the display's index is a buffer, and the eighth beat of a burst is
not stalled. -/
structure Undisturbed (a l : BitVec 32) (n0 m : Nat) : Prop where
  low : ∀ k, k ≤ n0 → (inp k).ready = false
  high : ∀ k, n0 < k → k ≤ m → (inp k).ready = true
  programmed : ∀ k, n0 ≤ k → k ≤ m → (inp k).address = a ∧ (inp k).lengthFrame = l
  room : ∀ k, k < m → (inp k).push ≠ none → (Gather.regs b0 q0 inp k).fifo.words.length < 32
  display : ∀ k, k < m → (inp k).displayBuffer ≠ 3
  eighth : ∀ k, k < m → (master b0 q0 inp k).state = .idleForReady →
    (master b0 q0 inp k).amWrite = true → (inp k).amWaitRequest = false

/-- Whole bursts, and three buffers in the address space. -/
structure Fits (l : BitVec 32) : Prop where
  pos : 0 < l.toNat
  whole : l.toNat % 32 = 0
  three : 3 * l.toNat ≤ 2 ^ 32

end Defs

/-! ## A frame on its way -/

/-- The master with `d` bursts of its frame over and the memory behind it.  The frame goes to
`base`; its words are those popped from `8 * k` on. -/
inductive Sending (popped : List Word) (base : BitVec 32) (k d : Nat) (r : CameraMaster.Regs)
    (s : Slave 32 Word) : Prop where
  /-- Nothing is being written. -/
  | quiet (hs : r.state ≠ .dmaSendLoop) (hw : r.amWrite = false) (hleft : s.left = 0)
      (hfill : Filled 4 popped s.memory base (8 * k) (8 * d))
  /-- Beat `j` is on the bus. -/
  | loop (j : Nat) (hj : j ≤ 6) (hs : r.state = .dmaSendLoop) (hw : r.amWrite = true)
      (hdma : r.indiceArrayDma.toNat = j) (hcount : r.amBurstCount = 8)
      (hdata : r.amDataWrite = r.dataArray.getD j 0) (harray : Holds (k + d) 8 popped r.dataArray)
      (htarget : ∀ w, s.target (bus r w) = word 4 base (8 * d + j))
      (howed : ∀ w, s.owed (bus r w) = 8 - j)
      (hfill : Filled 4 popped s.memory base (8 * k) (8 * d + j))
  /-- The last beat is on the bus, and the offset has been counted up already. -/
  | last (e : Nat) (hd : d = e + 1) (hs : r.state = .idleForReady) (hw : r.amWrite = true)
      (hdata : popped[8 * k + (8 * e + 7)]? = some r.amDataWrite) (hleft : s.left = 1)
      (hnext : s.next = word 4 base (8 * e + 7))
      (hfill : Filled 4 popped s.memory base (8 * k) (8 * e + 7))

section Sends

variable {popped : List Word} {base : BitVec 32} {k d : Nat} {r r' : CameraMaster.Regs}
  {s : Slave 32 Word} {i : CameraMaster.Inputs}

/-- The words in the memory before the next burst begins. -/
theorem Sending.settled (h : Sending popped base k d r s) (hs : r.state = .idleForReady)
    (hwait : r.amWrite = true → i.amWaitRequest = false) (hfit : 32 * d ≤ 2 ^ 32) :
    (s.step 4 (bus r i.amWaitRequest)).left = 0 ∧
      Filled 4 popped (s.step 4 (bus r i.amWaitRequest)).memory base (8 * k) (8 * d) := by
  cases h with
  | quiet _ hw hleft hfill =>
    rw [Slave.step_idle (.inl hw)]
    exact ⟨hleft, hfill⟩
  | loop j _ h1 => simp [hs] at h1
  | last e hd _ hw hdata hleft hnext hfill =>
    subst hd
    have htarget : s.target (bus r i.amWaitRequest) = word 4 base (8 * e + 7) := by
      rw [Slave.target, if_neg (by omega), hnext]
    rw [Slave.step_beat hw (hwait hw), htarget]
    refine ⟨?_, hfill.write hdata (by omega) (by omega)⟩
    simp [Slave.owed, hleft]

/-- A beat that is taken is one word more, and the burst goes on behind it. -/
theorem beat_step {j : Nat} (hj : j ≤ 6) (hwrite : r.amWrite = true)
    (hw : i.amWaitRequest = false) (hdata : r.amDataWrite = r.dataArray.getD j 0)
    (harray : Holds (k + d) 8 popped r.dataArray)
    (htarget : ∀ w, s.target (bus r w) = word 4 base (8 * d + j))
    (howed : ∀ w, s.owed (bus r w) = 8 - j)
    (hfill : Filled 4 popped s.memory base (8 * k) (8 * d + j)) (hfit : 32 * (d + 1) ≤ 2 ^ 32) :
    (s.step 4 (bus r i.amWaitRequest)).left = 7 - j ∧
      (s.step 4 (bus r i.amWaitRequest)).next = word 4 base (8 * d + (j + 1)) ∧
      Filled 4 popped (s.step 4 (bus r i.amWaitRequest)).memory base (8 * k)
        (8 * d + (j + 1)) := by
  have hword : popped[8 * k + (8 * d + j)]? = some r.amDataWrite := by
    rw [hdata, show 8 * k + (8 * d + j) = 8 * (k + d) + j by omega]
    exact harray j (by omega)
  rw [Slave.step_beat hwrite hw, htarget]
  refine ⟨?_, (word_succ 4 base (8 * d + j)).symm, hfill.write hword (by omega) (by omega)⟩
  show s.owed _ - 1 = 7 - j
  rw [howed]
  omega

/-- **One edge inside a frame.**  It leaves the offset alone, or ends a burst. -/
theorem Sending.step (h : Sending popped base k d r s) (he : Edge r i r')
    (hready : i.ready = true) (hnot : ¬ (r.state = .idleForReady ∧ newFrame r i = true))
    (hfit : 32 * (d + 1) ≤ 2 ^ 32)
    (hwait : r.state = .idleForReady → r.amWrite = true → i.amWaitRequest = false)
    (hfull : r.state = .dmaSendInit → r.currentAddress = word 4 base (8 * d) ∧
      r.indiceArrayDma = 0 ∧ Holds (k + d) 8 popped r.dataArray) :
    r'.offsetAddress = r.offsetAddress ∧
        sending r'.state = sending r.state + (if r.state = .dmaSendInit then 1 else 0) ∧
        Sending popped base k d r' (s.step 4 (bus r i.amWaitRequest)) ∨
      r'.offsetAddress = r.offsetAddress + 32 ∧ r.state = .dmaSendLoop ∧
        r'.state = .idleForReady ∧
        Sending popped base k (d + 1) r' (s.step 4 (bus r i.amWaitRequest)) := by
  -- outside the send states the bus is idle
  have hquiet : r.state ≠ .dmaSendLoop → r.state ≠ .idleForReady → r.amWrite = false ∧
      s.left = 0 ∧ Filled 4 popped s.memory base (8 * k) (8 * d) := by
    intro h1 h2
    cases h with
    | quiet _ hw hleft hfill => exact ⟨hw, hleft, hfill⟩
    | loop _ _ hs => exact absurd hs h1
    | last _ _ hs => exact absurd hs h2
  cases he with
  | stop _ h1 | abort _ h1 => simp [hready] at h1
  | publish hs _ hn => exact absurd ⟨hs, hn⟩ hnot
  | resume hs =>
    obtain ⟨hleft, hfill⟩ := h.settled (i := i) hs (hwait hs) (by omega)
    exact .inl ⟨rfl, by simp [sending, hs], .quiet (by simp) rfl hleft hfill⟩
  | await hs | fetch hs | clockWait hs | collect hs | collectRelease hs | collectLast hs =>
    obtain ⟨hw, hleft, hfill⟩ := hquiet (by simp [hs]) (by simp [hs])
    rw [Slave.step_idle (.inl hw)]
    exact .inl ⟨rfl, by simp [sending, hs], .quiet (by simp [hs]) hw hleft hfill⟩
  | sendInit hs =>
    obtain ⟨hw, hleft, hfill⟩ := hquiet (by simp [hs]) (by simp [hs])
    obtain ⟨haddr, hdma, hdata⟩ := hfull hs
    rw [Slave.step_idle (.inl hw)]
    refine .inl ⟨rfl, by simp [sending, CameraMaster.dmaSendInit, hs], ?_⟩
    refine .loop 0 (by omega) rfl rfl ?_ rfl rfl hdata ?_ ?_ hfill
    · show r.indiceArrayDma.toNat = 0
      rw [hdma]
      rfl
    · intro w
      rw [Slave.target, if_pos hleft]
      exact haddr
    · intro w
      rw [Slave.owed, if_pos hleft]
      rfl
  | stall hs hw =>
    rw [Slave.step_idle (.inr hw)]
    exact .inl ⟨rfl, by simp [hs], h⟩
  | beat hs hw h6 =>
    cases h with
    | quiet h1 => exact absurd hs h1
    | last _ _ h1 => simp [hs] at h1
    | loop j hj _ hwrite hdma hcount hdata harray htarget howed hfill =>
      have hlt : j < 6 := by
        rw [← hdma]
        simpa [BitVec.lt_def] using h6
      have hnext : (r.indiceArrayDma + 1).toNat = j + 1 := by
        rw [BitVec.toNat_add, hdma]
        simp
        omega
      obtain ⟨hleft, hword, hfill'⟩ := beat_step hj hwrite hw hdata harray htarget howed hfill hfit
      refine .inl ⟨rfl, by simp [hs], ?_⟩
      refine .loop (j + 1) (by omega) hs hwrite hnext hcount ?_ harray ?_ ?_ hfill'
      · simp only [hnext]
      · intro w
        rw [Slave.target, if_neg (by omega)]
        exact hword
      · intro w
        rw [Slave.owed, if_neg (by omega), hleft]
        omega
  | lastBeat hs hw h6 =>
    cases h with
    | quiet h1 => exact absurd hs h1
    | last _ _ h1 => simp [hs] at h1
    | loop j hj _ hwrite hdma hcount hdata harray htarget howed hfill =>
      have hj6 : j = 6 := by
        have hge : ¬ j < 6 := by
          rw [← hdma]
          simpa [BitVec.lt_def] using h6
        omega
      subst hj6
      have hnext : (r.indiceArrayDma + 1).toNat = 7 := by
        rw [BitVec.toNat_add, hdma]
        rfl
      obtain ⟨hleft, hword, hfill'⟩ := beat_step hj hwrite hw hdata harray htarget howed hfill hfit
      refine .inr ⟨rfl, hs, rfl, .last d rfl rfl hwrite ?_ hleft hword hfill'⟩
      rw [show 8 * k + (8 * d + 7) = 8 * (k + d) + 7 by omega]
      simp only [hnext]
      exact harray 7 (by omega)

theorem Sending.append (h : Sending popped base k d r s) (ws : List Word) :
    Sending (popped ++ ws) base k d r s := by
  cases h with
  | quiet hs hw hleft hfill => exact .quiet hs hw hleft (hfill.append ws)
  | loop j hj hs hw hdma hcount hdata harray htarget howed hfill =>
    exact .loop j hj hs hw hdma hcount hdata (harray.append ws) htarget howed (hfill.append ws)
  | last e hd hs hw hdata hleft hnext hfill =>
    have hlt := (List.getElem?_eq_some_iff.mp hdata).1
    refine .last e hd hs hw ?_ hleft hnext (hfill.append ws)
    rw [List.getElem?_append_left hlt]
    exact hdata

/-- A beat goes to a word of the frame's buffer. -/
theorem Sending.target_inside (h : Sending popped base k d r s) (hw : r.amWrite = true)
    (w : Bool) (n : Nat) (hle : d ≤ n) (hlt : r.state ≠ .idleForReady → d < n) :
    ∃ j < 8 * n, s.target (bus r w) = word 4 base j := by
  cases h with
  | quiet _ h1 => simp [hw] at h1
  | loop j hj hs _ _ _ _ _ htarget =>
    have := hlt (by simp [hs])
    exact ⟨8 * d + j, by omega, htarget w⟩
  | last e hd _ _ _ hleft hnext =>
    refine ⟨8 * e + 7, by omega, ?_⟩
    rw [Slave.target, if_neg (by omega), hnext]

end Sends

/-! ## The three buffers -/

section Buffers

variable {a l : BitVec 32} {z z' : BitVec 2}

theorem bufferBase_eq (a l : BitVec 32) (z : BitVec 2) :
    bufferBase a l z = a + BitVec.ofNat 32 (z.toNat * l.toNat) := by
  rw [bufferBase, BitVec.ofNat_mul, BitVec.ofNat_toNat, BitVec.ofNat_toNat, BitVec.setWidth_eq]

theorem toNat_le_two (h : z ≠ 3) : z.toNat ≤ 2 := by
  have hlt := z.isLt
  by_contra hgt
  exact h (BitVec.eq_of_toNat_eq (show z.toNat = 3 by omega))

theorem Fits.blocks (h : Fits l) : 32 * blocks l = l.toNat := by
  have := h.whole
  unfold CameraMaster.blocks
  omega

/-- Buffers have no word in common. -/
theorem buffers_apart (hl : Fits l) (hz : z ≠ 3) (hz' : z' ≠ 3) (hne : z ≠ z') {i j : Nat}
    (hi : i < 8 * blocks l) (hj : j < 8 * blocks l) :
    word 4 (bufferBase a l z) i ≠ word 4 (bufferBase a l z') j := by
  have hthree := hl.three
  have hblocks := hl.blocks
  have h2 := toNat_le_two hz
  have h2' := toNat_le_two hz'
  have hne' : z.toNat ≠ z'.toNat := fun h => hne (BitVec.eq_of_toNat_eq h)
  have hm : z.toNat * l.toNat ≤ 2 * l.toNat := Nat.mul_le_mul_right _ h2
  have hm' : z'.toNat * l.toNat ≤ 2 * l.toNat := Nat.mul_le_mul_right _ h2'
  refine word_ne (bufferBase_eq a l z) (bufferBase_eq a l z') (by omega) (by omega) ?_
  rcases Nat.lt_or_gt_of_ne hne' with h | h
  · have : (z.toNat + 1) * l.toNat ≤ z'.toNat * l.toNat := Nat.mul_le_mul_right _ h
    rw [Nat.succ_mul] at this
    omega
  · have : (z'.toNat + 1) * l.toNat ≤ z.toNat * l.toNat := Nat.mul_le_mul_right _ h
    rw [Nat.succ_mul] at this
    omega

end Buffers

/-! ## Every cycle -/

section Run

variable {b0 : BitVec 2} {q0 : Word} {m0 : BitVec 32 → Word} {inp : Nat → Gather.Inputs}
  {a l : BitVec 32} {n0 m n d : Nat}

/-- The master's part of the run. -/
theorem master_eq (b0 : BitVec 2) (q0 : Word) (inp : Nat → Gather.Inputs) (n : Nat) :
    master b0 q0 inp n = CameraMaster.regs b0
      (fun k => Gather.masterInputs (Gather.regs b0 q0 inp k) (inp k)) n := by
  induction n with
  | zero => rfl
  | succ n ih =>
    show CameraMaster.clock (master b0 q0 inp n) _ = CameraMaster.clock _ _
    rw [ih]
    rfl

theorem master_edge (b0 : BitVec 2) (q0 : Word) (inp : Nat → Gather.Inputs) (n : Nat) :
    Edge (master b0 q0 inp n) (Gather.masterInputs (Gather.regs b0 q0 inp n) (inp n))
      (master b0 q0 inp (n + 1)) :=
  CameraMaster.clock_edge _ _

theorem frames_succ (n : Nat) : frames b0 q0 inp (n + 1) =
    frames b0 q0 inp n + if Publishes b0 q0 inp n then 1 else 0 := by
  rw [frames, collect_succ _ (Nat.zero_le n), List.length_append]
  congr 1
  split <;> rfl

theorem frames_le {m : Nat} (hnm : n ≤ m) : frames b0 q0 inp n ≤ frames b0 q0 inp m := by
  induction m, hnm using Nat.le_induction with
  | base => exact Nat.le_refl _
  | succ m _ ih =>
    rw [frames_succ]
    omega

/-- Nothing has happened up to the start. -/
structure Resting (b0 : BitVec 2) (q0 : Word) (m0 : BitVec 32 → Word) (inp : Nat → Gather.Inputs)
    (n : Nat) : Prop where
  state : (master b0 q0 inp n).state = .idleForReady
  zone : (master b0 q0 inp n).indiceMemoryZone = 0
  write : (master b0 q0 inp n).amWrite = false
  left : (slave b0 q0 m0 inp n).left = 0
  bursts : Gather.bursts b0 q0 inp n = 0
  frames : frames b0 q0 inp n = 0

theorem resting_run (h : ∀ k < n, (inp k).ready = false) : Resting b0 q0 m0 inp n := by
  induction n with
  | zero => exact ⟨rfl, rfl, rfl, rfl, rfl, rfl⟩
  | succ n ih =>
    obtain ⟨hs, hz, hw, hleft, hb, hf⟩ := ih fun k hk => h k (by omega)
    have hlow := h n (by omega)
    have hpub : ¬ Publishes b0 q0 inp n := by
      intro hp
      exact absurd hp.2.1 (by simp [hlow])
    have hb' : Gather.bursts b0 q0 inp (n + 1) = 0 := by
      rw [Gather.bursts_succ, if_neg (by rw [hs]; simp)]
      exact hb
    have hf' : FrameStore.frames b0 q0 inp (n + 1) = 0 := by
      rw [frames_succ, if_neg hpub, hf]
    have hleft' : (slave b0 q0 m0 inp (n + 1)).left = 0 := by
      show (Slave.step 4 (slave b0 q0 m0 inp n) _).left = 0
      rw [Slave.step_idle (.inl hw)]
      exact hleft
    have he := master_edge b0 q0 inp n
    generalize hr' : master b0 q0 inp (n + 1) = r' at he
    cases he with
    | stop =>
      refine ⟨?_, ?_, ?_, hleft', hb', hf'⟩
      all_goals rw [hr']
      · exact hs
      · exact hz
    | resume _ h1 | publish _ h1 => simp [Gather.masterInputs, hlow] at h1
    | await h1 | fetch h1 | abort h1 | clockWait h1 | collect h1 | collectRelease h1
    | collectLast h1 | sendInit h1 | stall h1 | beat h1 | lastBeat h1 => simp [hs] at h1

/-- Cycle `n` with `d` bursts of the current frame over: where the frame goes, and that the last
one published is in its buffer. -/
structure Stored (b0 : BitVec 2) (q0 : Word) (m0 : BitVec 32 → Word) (inp : Nat → Gather.Inputs)
    (a l : BitVec 32) (n d : Nat) : Prop where
  base : (master b0 q0 inp n).baseAddress = bufferBase a l (master b0 q0 inp n).indiceMemoryZone
  offset : (master b0 q0 inp n).offsetAddress = BitVec.ofNat 32 (32 * d)
  le : d ≤ blocks l
  lt : (master b0 q0 inp n).state ≠ .idleForReady → d < blocks l
  count : Gather.bursts b0 q0 inp n =
    blocks l * frames b0 q0 inp n + d + sending (master b0 q0 inp n).state
  sends : Sending (Gather.popped b0 q0 inp n)
    (bufferBase a l (master b0 q0 inp n).indiceMemoryZone) (blocks l * frames b0 q0 inp n) d
    (master b0 q0 inp n) (slave b0 q0 m0 inp n)
  kept : 0 < frames b0 q0 inp n →
    (master b0 q0 inp n).bufferSaved ≠ (master b0 q0 inp n).indiceMemoryZone ∧
      (master b0 q0 inp n).bufferSaved ≠ 3 ∧
      Filled 4 (Gather.popped b0 q0 inp n) (slave b0 q0 m0 inp n).memory
        (bufferBase a l (master b0 q0 inp n).bufferSaved)
        (8 * (blocks l * (frames b0 q0 inp n - 1))) (8 * blocks l)

theorem Undisturbed.fed (hu : Undisturbed b0 q0 inp a l n0 m) (hn : n ≤ m) :
    Gather.Fed b0 q0 inp n where
  stays := by
    intro k hk hr
    by_cases hle : k ≤ n0
    · rw [hu.low k hle] at hr
      cases hr
    · exact hu.high (k + 1) (by omega) (by omega)
  room := fun k hk => hu.room k (by omega)

/-- The eight words of a burst are gathered when it begins. -/
theorem full_burst (hf : Gather.Fed b0 q0 inp n)
    (hs : (master b0 q0 inp n).state = .dmaSendInit) :
    (master b0 q0 inp n).indiceArrayDma = 0 ∧
      Holds (Gather.bursts b0 q0 inp n) 8 (Gather.popped b0 q0 inp n)
        (master b0 q0 inp n).dataArray := by
  cases (Gather.inv_run hf).phase with
  | full _ _ _ hdma hdata => exact ⟨hdma, hdata⟩
  | idle h1 | loop h1 | await h1 | wait h1 | collect _ _ h1 => simp [hs] at h1

theorem burst_address (hs : (master b0 q0 inp n).state = .dmaSendInit) :
    (master b0 q0 inp n).currentAddress =
      (master b0 q0 inp n).baseAddress + (master b0 q0 inp n).offsetAddress := by
  rw [master_eq] at hs ⊢
  exact CameraMaster.currentAddress_eq n (.inr (.inr hs))

/-- The first frame goes to the first buffer. -/
theorem stored_first (hu : Undisturbed b0 q0 inp a l n0 m) (hm : n0 ≤ m) :
    Stored b0 q0 m0 inp a l (n0 + 1) 0 := by
  have hrest : Resting b0 q0 m0 inp n0 := resting_run fun k hk => hu.low k (by omega)
  have hnext : Resting b0 q0 m0 inp (n0 + 1) := resting_run fun k hk => hu.low k (by omega)
  have hstop : (master b0 q0 inp (n0 + 1)).baseAddress = a ∧
      (master b0 q0 inp (n0 + 1)).offsetAddress = 0 := by
    rw [master_eq]
    obtain ⟨-, hbase, hoff, -⟩ := CameraMaster.stop_succ (m := n0)
      (by rw [← master_eq]; exact hrest.state) (hu.low n0 (Nat.le_refl n0))
    exact ⟨hbase.trans (hu.programmed n0 (Nat.le_refl n0) hm).1, hoff⟩
  refine ⟨?_, hstop.2, Nat.zero_le _, fun h => absurd hnext.state h, ?_, ?_, ?_⟩
  · rw [hstop.1, hnext.zone, bufferBase_eq]
    simp
  · rw [hnext.bursts, hnext.frames, hnext.state]
    rfl
  · exact .quiet (by simp [hnext.state]) hnext.write hnext.left filled_zero
  · intro h
    rw [hnext.frames] at h
    omega

/-- The other buffers do not change. -/
theorem Stored.other (h : Stored b0 q0 m0 inp a l n d) (hl : Fits l) {z : BitVec 2} (h3 : z ≠ 3)
    (hz : z ≠ (master b0 q0 inp n).indiceMemoryZone) {i : Nat} (hi : i < 8 * blocks l) :
    (slave b0 q0 m0 inp (n + 1)).memory (word 4 (bufferBase a l z) i) =
      (slave b0 q0 m0 inp n).memory (word 4 (bufferBase a l z) i) := by
  have hzone : (master b0 q0 inp n).indiceMemoryZone ≠ 3 := by
    rw [master_eq]
    exact CameraMaster.zone_ne_three n
  show (Slave.step 4 (slave b0 q0 m0 inp n) _).memory _ = _
  cases hw : (master b0 q0 inp n).amWrite with
  | false => rw [Slave.step_idle (.inl hw)]
  | true =>
    obtain ⟨j, hj, htarget⟩ := h.sends.target_inside hw (inp n).amWaitRequest _ h.le h.lt
    apply Slave.step_other
    rw [htarget]
    exact buffers_apart hl h3 hzone hz hi hj

/-- The frame published last is left alone. -/
theorem Stored.keeps (h : Stored b0 q0 m0 inp a l n d) (hl : Fits l)
    (hpos : 0 < frames b0 q0 inp n) :
    Filled 4 (Gather.popped b0 q0 inp (n + 1)) (slave b0 q0 m0 inp (n + 1)).memory
      (bufferBase a l (master b0 q0 inp n).bufferSaved)
      (8 * (blocks l * (frames b0 q0 inp n - 1))) (8 * blocks l) := by
  obtain ⟨hne, h3, hfill⟩ := h.kept hpos
  rw [Gather.popped_succ]
  exact (hfill.frame fun i hi => h.other hl h3 hne hi).append _

/-- A cycle that publishes. -/
theorem Stored.publish (h : Stored b0 q0 m0 inp a l n d) (hl : Fits l)
    (hu : Undisturbed b0 q0 inp a l n0 m) (hn0 : n0 < n) (hn : n < m)
    (hpub : Publishes b0 q0 inp n) : Stored b0 q0 m0 inp a l (n + 1) 0 := by
  obtain ⟨hs, hr, hnew⟩ := hpub
  have hblocks := hl.blocks
  have hpos := hl.pos
  have hthree := hl.three
  obtain ⟨ha, hlen⟩ := hu.programmed n (by omega) (by omega)
  have hd : d = blocks l := by
    refine (CameraMaster.newFrame_iff (i := Gather.masterInputs (Gather.regs b0 q0 inp n) (inp n))
      hlen (by omega) h.offset h.le).mp ?_
    exact decide_eq_true hnew
  obtain ⟨hleft, hfill⟩ := h.sends.settled
    (i := Gather.masterInputs (Gather.regs b0 q0 inp n) (inp n)) hs (hu.eighth n hn hs) (by omega)
  rw [hd] at hfill
  have hframes : frames b0 q0 inp (n + 1) = frames b0 q0 inp n + 1 := by
    rw [frames_succ, if_pos ⟨hs, hr, hnew⟩]
  have hbursts : Gather.bursts b0 q0 inp (n + 1) = Gather.bursts b0 q0 inp n := by
    rw [Gather.bursts_succ, if_neg (by rw [hs]; simp)]
  have hcount := h.count
  rw [hs, show sending .idleForReady = 0 from rfl, hd] at hcount
  have hzone : (master b0 q0 inp n).indiceMemoryZone ≠ 3 := by
    rw [master_eq]
    exact CameraMaster.zone_ne_three n
  have havoid := CameraMaster.rotate_avoids (inp n).displayBuffer
    (master b0 q0 inp n).indiceMemoryZone (inp n).address (inp n).lengthFrame (hu.display n hn)
    hzone
  have he := master_edge b0 q0 inp n
  generalize hr' : master b0 q0 inp (n + 1) = r' at he
  cases he with
  | publish =>
    refine ⟨?_, ?_, Nat.zero_le _, ?_, ?_, ?_, ?_⟩
    all_goals rw [hr']
    · rw [← ha, ← hlen]
      exact CameraMaster.rotate_base _ _ _ _
    · rfl
    · intro _
      omega
    · rw [hbursts, hcount, hframes, Nat.mul_succ]
      rfl
    · exact .quiet (by simp) rfl hleft filled_zero
    · intro _
      rw [hframes, Nat.add_sub_cancel, Gather.popped_succ]
      exact ⟨havoid.1.symm, hzone, hfill.append _⟩
  | stop _ h1 => simp [Gather.masterInputs, hr] at h1
  | resume _ _ h1 => exact absurd hnew (of_decide_eq_false h1)
  | await h1 | fetch h1 | abort h1 | clockWait h1 | collect h1 | collectRelease h1
  | collectLast h1 | sendInit h1 | stall h1 | beat h1 | lastBeat h1 => simp [hs] at h1

/-- A cycle inside a frame. -/
theorem Stored.inside (h : Stored b0 q0 m0 inp a l n d) (hl : Fits l)
    (hu : Undisturbed b0 q0 inp a l n0 m) (hn0 : n0 < n) (hn : n < m)
    (hpub : ¬ Publishes b0 q0 inp n) : ∃ d', Stored b0 q0 m0 inp a l (n + 1) d' := by
  have hr := hu.high n hn0 (by omega)
  have hblocks := hl.blocks
  have hthree := hl.three
  have hpos := hl.pos
  obtain ⟨-, hlen⟩ := hu.programmed n (by omega) (by omega)
  have hnot : ¬ ((master b0 q0 inp n).state = .idleForReady ∧ newFrame (master b0 q0 inp n)
      (Gather.masterInputs (Gather.regs b0 q0 inp n) (inp n)) = true) :=
    fun h => hpub ⟨h.1, hr, of_decide_eq_true h.2⟩
  -- a frame of all its bursts would have been published
  have hlt : d < blocks l := by
    by_cases hs : (master b0 q0 inp n).state = .idleForReady
    · by_contra hge
      have hfull := (CameraMaster.newFrame_iff
        (i := Gather.masterInputs (Gather.regs b0 q0 inp n) (inp n)) hlen (by omega) h.offset
        h.le).mpr (by have := h.le; omega)
      exact hnot ⟨hs, hfull⟩
    · exact h.lt hs
  have hfull : (master b0 q0 inp n).state = .dmaSendInit →
      (master b0 q0 inp n).currentAddress =
          word 4 (bufferBase a l (master b0 q0 inp n).indiceMemoryZone) (8 * d) ∧
        (master b0 q0 inp n).indiceArrayDma = 0 ∧
        Holds (blocks l * frames b0 q0 inp n + d) 8 (Gather.popped b0 q0 inp n)
          (master b0 q0 inp n).dataArray := by
    intro hs
    obtain ⟨hdma, hdata⟩ := full_burst (hu.fed (by omega)) hs
    have hcount := h.count
    rw [hs, show sending .dmaSendInit = 0 from rfl, Nat.add_zero] at hcount
    refine ⟨?_, hdma, hcount ▸ hdata⟩
    rw [burst_address hs, h.base, h.offset, word, show 4 * (8 * d) = 32 * d by omega]
  have hframes : frames b0 q0 inp (n + 1) = frames b0 q0 inp n := by
    rw [frames_succ, if_neg hpub, Nat.add_zero]
  have hindex : (master b0 q0 inp (n + 1)).indiceMemoryZone =
        (master b0 q0 inp n).indiceMemoryZone ∧
      (master b0 q0 inp (n + 1)).bufferSaved = (master b0 q0 inp n).bufferSaved := by
    rw [master_eq, master_eq]
    apply CameraMaster.zone_succ
    intro h1
    apply hnot
    rw [master_eq]
    exact ⟨h1.1, h1.2.2⟩
  have he := master_edge b0 q0 inp n
  have hbase := (he.tile hr hnot).1
  have hkeeps : 0 < frames b0 q0 inp (n + 1) →
      (master b0 q0 inp (n + 1)).bufferSaved ≠ (master b0 q0 inp (n + 1)).indiceMemoryZone ∧
        (master b0 q0 inp (n + 1)).bufferSaved ≠ 3 ∧
        Filled 4 (Gather.popped b0 q0 inp (n + 1)) (slave b0 q0 m0 inp (n + 1)).memory
          (bufferBase a l (master b0 q0 inp (n + 1)).bufferSaved)
          (8 * (blocks l * (frames b0 q0 inp (n + 1) - 1))) (8 * blocks l) := by
    intro hf
    rw [hframes] at hf
    rw [hframes, hindex.1, hindex.2]
    obtain ⟨hne, h3, -⟩ := h.kept hf
    exact ⟨hne, h3, h.keeps hl hf⟩
  rcases h.sends.step he hr hnot (by omega) (fun hs => hu.eighth n hn hs) hfull with
    ⟨hoff, hsend, hs'⟩ | ⟨hoff, hs, hs1, hs'⟩
  · refine ⟨d, ?_, hoff.trans h.offset, h.le, fun _ => hlt, ?_, ?_, hkeeps⟩
    · rw [hindex.1]
      exact hbase.trans h.base
    · rw [Gather.bursts_succ, hframes, hsend, h.count]
      split <;> omega
    · rw [hindex.1, hframes, Gather.popped_succ]
      exact hs'.append _
  · refine ⟨d + 1, ?_, ?_, hlt, fun h1 => absurd hs1 h1, ?_, ?_, hkeeps⟩
    · rw [hindex.1]
      exact hbase.trans h.base
    · rw [hoff, h.offset, Nat.mul_succ, BitVec.ofNat_add]
      rfl
    · have hcount := h.count
      rw [hs, show sending .dmaSendLoop = 1 from rfl] at hcount
      rw [Gather.bursts_succ, if_neg (by rw [hs]; simp), hframes, hs1, hcount]
      rfl
    · rw [hindex.1, hframes, Gather.popped_succ]
      exact hs'.append _

/-- **One cycle.** -/
theorem stored_step (hl : Fits l) (hu : Undisturbed b0 q0 inp a l n0 m) (hn0 : n0 < n)
    (hn : n < m) (h : ∃ d, Stored b0 q0 m0 inp a l n d) :
    ∃ d, Stored b0 q0 m0 inp a l (n + 1) d := by
  obtain ⟨d, hd⟩ := h
  by_cases hpub : Publishes b0 q0 inp n
  · exact ⟨0, hd.publish hl hu hn0 hn hpub⟩
  · exact hd.inside hl hu hn0 hn hpub

/-- **A run.** -/
theorem stored_run (hl : Fits l) (hu : Undisturbed b0 q0 inp a l n0 m) (hlt : n0 < n)
    (hn : n ≤ m) : ∃ d, Stored b0 q0 m0 inp a l n d := by
  induction n, hlt using Nat.le_induction with
  | base => exact ⟨0, stored_first hu (by omega)⟩
  | succ n hle ih => exact stored_step hl hu hle (by omega) (ih (by omega))

end Run

/-- **The published buffer holds a whole frame**: in every cycle of a run it holds, word for word,
what was pushed for the frame published last. -/
theorem frame_stored (b0 : BitVec 2) (q0 : Word) (m0 : BitVec 32 → Word)
    (inp : Nat → Gather.Inputs) (a l : BitVec 32) (n0 n : Nat) (hl : Fits l)
    (hu : Undisturbed b0 q0 inp a l n0 n) (hf : 0 < frames b0 q0 inp n) :
    (List.range (8 * blocks l)).map (fun i => (slave b0 q0 m0 inp n).memory
        (word 4 (bufferBase a l (master b0 q0 inp n).bufferSaved) i)) =
      ((Gather.pushed inp n).drop (8 * (blocks l * (frames b0 q0 inp n - 1)))).take
        (8 * blocks l) := by
  have hlt : n0 < n := by
    by_contra hle
    have hrest : Resting b0 q0 m0 inp n := resting_run fun k hk => hu.low k (by omega)
    rw [hrest.frames] at hf
    omega
  obtain ⟨d, hd⟩ : ∃ d, Stored b0 q0 m0 inp a l n d := stored_run hl hu hlt (Nat.le_refl n)
  have hfill := (hd.kept hf).2.2.append (Gather.regs b0 q0 inp n).fifo.words
  rw [(Gather.inv_run (hu.fed (Nat.le_refl n))).conserved] at hfill
  exact hfill.words

/-- Ten words for frames of eight: the first frame is published in cycle 27, and it is there. -/
theorem frame_stored_tenPushes : frames 0 0 Gather.tenPushes 28 = 1 ∧
    (List.range 8).map (fun i => (slave 0 0 (fun _ => 0) Gather.tenPushes 28).memory
      (word 4 (bufferBase 0 32 (master 0 0 Gather.tenPushes 28).bufferSaved) i)) =
        [1, 2, 3, 4, 5, 6, 7, 8] := by
  have hf : frames 0 0 Gather.tenPushes 28 = 1 := by decide +kernel
  refine ⟨hf, ?_⟩
  have hhigh : ∀ k ≤ 28, 0 < k → (Gather.tenPushes k).ready = true := by decide
  have hu : Undisturbed 0 0 Gather.tenPushes 0 32 0 28 := {
    low := by decide
    high := fun k h1 h2 => hhigh k h2 h1
    programmed := fun _ _ _ => ⟨rfl, rfl⟩
    room := by decide +kernel
    display := fun _ _ => show (0 : BitVec 2) ≠ 3 by decide
    eighth := fun _ _ _ _ => rfl }
  have hmem := frame_stored 0 0 (fun _ => 0) Gather.tenPushes 0 32 0 28
    ⟨by decide, by decide, by decide⟩ hu (by omega)
  rw [hf] at hmem
  exact hmem.trans (by decide +kernel)

end CameraLcd.FrameStore
