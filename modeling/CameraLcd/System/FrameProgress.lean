import CameraLcd.Camera.FifoLevel
import CameraLcd.System.FrameStore

/-!
# Frames are published for ever

As long as words arrive and the bus takes a beat now and then, the camera's master comes from one
publication to the next.

* `remaining` — what the frame still needs: the bursts that are not over and, in the current one,
  the edges that do not wait for anything.
* `edge_forward` — an edge that does not wait is one less.
* `data_comes`, `beat_comes` — the two waits of the master end.
* `publishes_again` — the next publication; `frames_grow` — the number of frames has no bound.
-/

set_option autoImplicit false

namespace CameraLcd.FrameStore

open Clocked
open CameraMaster (Edge blocks newFrame FrameStart InFrame StartsAt)
open Gather (Word Stage level stage_run level_hold)

/-! ## What a frame still needs -/

/-- The edges of the current burst that are still to come, by the state of the master. -/
def inBurst (r : CameraMaster.Regs) : Nat :=
  match r.state with
  | .idleForReady => 40
  | .idleForData => 39
  | .clockWaitDataFifo => 38
  | .collectDataFifo => 30 - r.indiceArrayFifo.toNat
  | .dmaSendInit => 20
  | .dmaSendLoop => 10 - r.indiceArrayDma.toNat

/-- What a frame of `l` bytes still needs. -/
def remaining (l : BitVec 32) (r : CameraMaster.Regs) : Nat :=
  41 * (blocks l - r.offsetAddress.toNat / 32) + inBurst r

/-- The master waits for words, or for the bus. -/
def Waits (r : CameraMaster.Regs) (i : CameraMaster.Inputs) : Prop :=
  r.state = .idleForData ∧ i.fifoDataAvailable = true ∨
    r.state = .dmaSendLoop ∧ i.amWaitRequest = true

/-- The offset inside a frame of `l` bytes. -/
structure Inside (l : BitVec 32) (r : CameraMaster.Regs) (d : Nat) : Prop where
  offset : r.offsetAddress.toNat = 32 * d
  le : d ≤ blocks l
  lt : r.state ≠ .idleForReady → d < blocks l

section Step

variable {l : BitVec 32} {r r' : CameraMaster.Regs} {i : CameraMaster.Inputs} {d : Nat}

theorem remaining_burst (hoff : r'.offsetAddress = r.offsetAddress)
    (hlt : inBurst r' < inBurst r) : remaining l r' < remaining l r := by
  unfold remaining
  rw [hoff]
  omega

/-- **An edge that does not wait** is one less, unless it publishes the frame. -/
theorem edge_forward (he : Edge r i r') (hs : Stage r) (hin : Inside l r d)
    (hr : i.ready = true) (hp : ¬ (r.state = .idleForReady ∧ newFrame r i = true))
    (hmax : l.toNat ≤ 0xFFFFFFE0) (hw : ¬ Waits r i) : remaining l r' < remaining l r := by
  cases he with
  | stop _ h1 | abort _ h1 => simp [hr] at h1
  | publish h1 _ h2 => exact absurd ⟨h1, h2⟩ hp
  | await h1 _ h2 => exact absurd (.inl ⟨h1, h2⟩) hw
  | stall h1 h2 => exact absurd (.inr ⟨h1, h2⟩) hw
  | resume h1 | fetch h1 | clockWait h1 =>
    apply remaining_burst
    · rfl
    · simp only [inBurst, h1]
      omega
  | sendInit h1 =>
    apply remaining_burst
    · rfl
    · simp only [inBurst, CameraMaster.dmaSendInit, h1]
      omega
  | collect h1 | collectRelease h1 | collectLast h1 =>
    cases hs with
    | collect j hj _ _ hfifo =>
      have hnext := Gather.index_succ hfifo (by omega)
      apply remaining_burst
      · rfl
      · simp only [inBurst, h1, hnext, hfifo]
        omega
    | idle h2 | await h2 | wait h2 | full h2 | loop h2 => simp [h1] at h2
  | beat h1 _ h6 =>
    have h6' : r.indiceArrayDma.toNat < 6 := by simpa [BitVec.lt_def] using h6
    have hnext := Gather.index_succ (x := r.indiceArrayDma) rfl (by omega)
    apply remaining_burst
    · rfl
    · simp only [inBurst, h1, hnext]
      omega
  | lastBeat h1 =>
    -- the burst is over: the next one costs less than what its block is worth
    have hdma : r.indiceArrayDma.toNat ≤ 6 := by
      cases hs with
      | loop _ _ h2 => exact h2
      | idle h2 | await h2 | wait h2 | collect _ _ h2 | full h2 => simp [h1] at h2
    have hlt := hin.lt (by rw [h1]; simp)
    have hoff := hin.offset
    have hblocks : blocks l = (l.toNat + 31) / 32 := rfl
    have hnext : (r.offsetAddress + 32).toNat = 32 * (d + 1) := by
      rw [BitVec.toNat_add, hoff]
      exact Nat.mod_eq_of_lt (by simp; omega)
    simp only [remaining, inBurst, h1, hnext, hoff]
    omega

theorem edge_waits (he : Edge r i r') (hr : i.ready = true) (hw : Waits r i) :
    r'.state = r.state ∧ remaining l r' = remaining l r := by
  rcases hw with ⟨h1, h2⟩ | ⟨h1, h2⟩
  · cases he with
    | await => exact ⟨rfl, rfl⟩
    | fetch _ _ h3 => simp [h2] at h3
    | abort _ h3 => simp [hr] at h3
    | stop h3 | resume h3 | publish h3 | clockWait h3 | collect h3 | collectRelease h3
    | collectLast h3 | sendInit h3 | stall h3 | beat h3 | lastBeat h3 => simp [h1] at h3
  · cases he with
    | stall => exact ⟨rfl, rfl⟩
    | beat _ h3 | lastBeat _ h3 => simp [h2] at h3
    | stop h3 | resume h3 | publish h3 | await h3 | fetch h3 | abort h3 | clockWait h3
    | collect h3 | collectRelease h3 | collectLast h3 | sendInit h3 => simp [h1] at h3

end Step

/-! ## A run that is supplied -/

/-- The camera is started once and for good after cycle `n0`, with its registers programmed; words
arrive again and again and the bus takes a beat again and again. -/
structure Supplied (inp : Nat → Gather.Inputs) (a l : BitVec 32) (n0 : Nat) : Prop where
  low : ∀ k, k ≤ n0 → (inp k).ready = false
  high : ∀ k, n0 < k → (inp k).ready = true
  programmed : ∀ k, n0 ≤ k → (inp k).address = a ∧ (inp k).lengthFrame = l
  words : Recurs fun k => (inp k).push.isSome
  accepts : Recurs fun k => !(inp k).amWaitRequest

section Run

variable {b0 : BitVec 2} {q0 : Word} {inp : Nat → Gather.Inputs} {a l : BitVec 32} {n0 n : Nat}

theorem in_frame (b0 : BitVec 2) (inp : Nat → CameraMaster.Inputs) (hlt : n0 < n) :
    ∃ p, FrameStart b0 inp n0 p ∧ InFrame b0 inp p n := by
  induction n, hlt using Nat.le_induction with
  | base => exact ⟨n0, .inl rfl, Nat.lt_succ_self n0, fun k h1 h2 => by omega⟩
  | succ n hle ih =>
    by_cases hpub : CameraMaster.Publishes b0 inp n
    · exact ⟨n, .inr ⟨hle, hpub⟩, Nat.lt_succ_self n, fun k h1 h2 => by omega⟩
    · obtain ⟨p, hp, hpn, hno⟩ := ih
      refine ⟨p, hp, Nat.lt_succ_of_lt hpn, ?_⟩
      intro k h1 h2
      by_cases hk : k = n
      · exact hk ▸ hpub
      · exact hno k h1 (by omega)

theorem Supplied.inside (h : Supplied inp a l n0) (hpos : 0 < l.toNat)
    (hmax : l.toNat ≤ 0xFFFFFFE0) (hlt : n0 < n) :
    ∃ d, Inside l (master b0 q0 inp n) d := by
  obtain ⟨p, hp, hin⟩ := in_frame b0
    (fun k => Gather.masterInputs (Gather.regs b0 q0 inp k) (inp k)) hlt
  have hstarts : StartsAt (fun k => Gather.masterInputs (Gather.regs b0 q0 inp k) (inp k)) a l
      n0 n := ⟨h.low, fun k hk _ => h.high k hk, fun k hk _ => h.programmed k hk⟩
  obtain ⟨d, ht, hle, hd⟩ := CameraMaster.tile_run hstarts hpos hmax hp hin (Nat.le_refl n)
  have hblocks : blocks l = (l.toNat + 31) / 32 := rfl
  rw [← master_eq] at hd
  refine ⟨d, ?_, hle, hd⟩
  rw [master_eq, ht.offset_eq, BitVec.toNat_ofNat]
  exact Nat.mod_eq_of_lt (by omega)

/-- A cycle that waits does not publish, and the next one finds the master as it was. -/
theorem wait_succ (hr : (inp n).ready = true)
    (hw : Waits (master b0 q0 inp n)
      (Gather.masterInputs (Gather.regs b0 q0 inp n) (inp n))) :
    (master b0 q0 inp (n + 1)).state = (master b0 q0 inp n).state ∧
      remaining l (master b0 q0 inp (n + 1)) = remaining l (master b0 q0 inp n) :=
  edge_waits (master_edge b0 q0 inp n) hr hw

theorem level_push (hr : (inp n).ready = true)
    (hreq : (master b0 q0 inp n).fifoReadRequest = false) (hpush : (inp n).push.isSome = true)
    (hroom : level b0 q0 inp n < 32) : level b0 q0 inp (n + 1) = level b0 q0 inp n + 1 := by
  obtain ⟨w, hw⟩ := Option.isSome_iff_exists.mp hpush
  have hnext : (Gather.regs b0 q0 inp (n + 1)).fifo = (Gather.regs b0 q0 inp n).fifo.edge 32
      (inp n).push (master b0 q0 inp n).fifoReadRequest := if_pos hr
  unfold level at hroom ⊢
  rw [hnext, hreq, hw, IdealFifo.Queue.edge_write_words hroom, List.length_append]
  rfl

/-- While the master waits, nothing is read and the words pile up. -/
theorem piles_up (h : Supplied inp a l n0) (hlt : n0 < n)
    (hstays : ∀ m, n ≤ m → (master b0 q0 inp m).state = .idleForData)
    (hfew : ∀ m, n ≤ m → level b0 q0 inp m < 8) (j : Nat) :
    ∃ m, n ≤ m ∧ j ≤ level b0 q0 inp m := by
  have hhold : ∀ m, n ≤ m → (master b0 q0 inp m).fifoReadRequest = false := by
    intro m hm
    exact (stage_run b0 q0 inp m).noRequest (.inr (hstays m hm))
  induction j with
  | zero => exact ⟨n, Nat.le_refl n, Nat.zero_le _⟩
  | succ j ih =>
    obtain ⟨m, hm, hj⟩ := ih
    have hkeep : ∀ k, (m ≤ k ∧ j ≤ level b0 q0 inp k) → (inp k).push.isSome = false →
        m ≤ k + 1 ∧ j ≤ level b0 q0 inp (k + 1) := by
      rintro k ⟨hk, hlevel⟩ -
      have hrise := (level_hold (h.high k (by omega)) (hhold k (by omega))).1
      exact ⟨Nat.le_succ_of_le hk, hlevel.trans hrise⟩
    obtain ⟨k, hk, ⟨-, hlevel⟩, hpush⟩ := h.words.wait hkeep ⟨Nat.le_refl m, hj⟩
    have hroom := hfew k (by omega)
    refine ⟨k + 1, by omega, ?_⟩
    rw [level_push (h.high k (by omega)) (hhold k (by omega)) hpush (by omega)]
    omega

/-- **The words of a burst come**: `IDLE_FOR_DATA` does not wait for ever. -/
theorem data_comes (h : Supplied inp a l n0) (hlt : n0 < n)
    (hs : (master b0 q0 inp n).state = .idleForData) :
    ∃ m, n ≤ m ∧ (master b0 q0 inp m).state = .idleForData ∧
      remaining l (master b0 q0 inp m) = remaining l (master b0 q0 inp n) ∧
      (Gather.regs b0 q0 inp m).fifo.almostEmpty 8 = false := by
  by_contra hno
  have hstays : ∀ m, n ≤ m → (master b0 q0 inp m).state = .idleForData ∧
      remaining l (master b0 q0 inp m) = remaining l (master b0 q0 inp n) := by
    intro m hm
    induction m, hm using Nat.le_induction with
    | base => exact ⟨hs, rfl⟩
    | succ m hm ih =>
      have hempty : (Gather.regs b0 q0 inp m).fifo.almostEmpty 8 = true := by
        rw [← Bool.not_eq_false]
        intro hd
        exact hno ⟨m, hm, ih.1, ih.2, hd⟩
      obtain ⟨hs', hrem⟩ := wait_succ (l := l) (h.high m (by omega)) (.inl ⟨ih.1, hempty⟩)
      exact ⟨hs'.trans ih.1, hrem.trans ih.2⟩
  have hfew : ∀ m, n ≤ m → level b0 q0 inp m < 8 := by
    intro m hm
    by_contra hge
    refine hno ⟨m, hm, (hstays m hm).1, (hstays m hm).2, ?_⟩
    unfold level at hge
    simpa [IdealFifo.Queue.almostEmpty] using hge
  obtain ⟨m, hm, h8⟩ := piles_up h hlt (fun m hm => (hstays m hm).1) hfew 8
  have := hfew m hm
  omega

/-- **A beat is taken**: `DMA_Send_Loop` does not wait for ever. -/
theorem beat_comes (h : Supplied inp a l n0) (hlt : n0 < n)
    (hs : (master b0 q0 inp n).state = .dmaSendLoop) :
    ∃ m, n ≤ m ∧ (master b0 q0 inp m).state = .dmaSendLoop ∧
      remaining l (master b0 q0 inp m) = remaining l (master b0 q0 inp n) ∧
      (inp m).amWaitRequest = false := by
  have hkeep : ∀ m, (n ≤ m ∧ (master b0 q0 inp m).state = .dmaSendLoop ∧
        remaining l (master b0 q0 inp m) = remaining l (master b0 q0 inp n)) →
      (!(inp m).amWaitRequest) = false →
      n ≤ m + 1 ∧ (master b0 q0 inp (m + 1)).state = .dmaSendLoop ∧
        remaining l (master b0 q0 inp (m + 1)) = remaining l (master b0 q0 inp n) := by
    rintro m ⟨hle, hs', hrem⟩ hstall
    have hwait : (inp m).amWaitRequest = true := by simpa using hstall
    obtain ⟨hs'', hrem'⟩ := wait_succ (l := l) (h.high m (by omega)) (.inr ⟨hs', hwait⟩)
    exact ⟨by omega, hs''.trans hs', hrem'.trans hrem⟩
  obtain ⟨m, hm, ⟨-, hs', hrem⟩, hbeat⟩ := h.accepts.wait hkeep ⟨Nat.le_refl n, hs, rfl⟩
  exact ⟨m, hm, hs', hrem, by simpa using hbeat⟩

/-- **Every wait ends.** -/
theorem wait_ends (h : Supplied inp a l n0) (hlt : n0 < n) (hpub : ¬ Publishes b0 q0 inp n) :
    ∃ m, n ≤ m ∧ ¬ Publishes b0 q0 inp m ∧
      remaining l (master b0 q0 inp m) = remaining l (master b0 q0 inp n) ∧
      ¬ Waits (master b0 q0 inp m) (Gather.masterInputs (Gather.regs b0 q0 inp m) (inp m)) := by
  by_cases hw : Waits (master b0 q0 inp n)
      (Gather.masterInputs (Gather.regs b0 q0 inp n) (inp n))
  · rcases hw with ⟨hs, -⟩ | ⟨hs, -⟩
    · obtain ⟨m, hm, hs', hrem, hdata⟩ := data_comes h hlt hs
      refine ⟨m, hm, fun hp => ?_, hrem, ?_⟩
      · rw [hp.1] at hs'
        cases hs'
      · simp [Waits, hs', Gather.masterInputs, hdata]
    · obtain ⟨m, hm, hs', hrem, hbeat⟩ := beat_comes h hlt hs
      refine ⟨m, hm, fun hp => ?_, hrem, ?_⟩
      · rw [hp.1] at hs'
        cases hs'
      · simp [Waits, hs', Gather.masterInputs, hbeat]
  · exact ⟨n, Nat.le_refl n, hpub, rfl, hw⟩

theorem frame_forward (h : Supplied inp a l n0) (hpos : 0 < l.toNat)
    (hmax : l.toNat ≤ 0xFFFFFFE0) (hlt : n0 < n) (hpub : ¬ Publishes b0 q0 inp n) :
    ∃ m, n < m ∧ remaining l (master b0 q0 inp m) < remaining l (master b0 q0 inp n) := by
  obtain ⟨m, hm, hpub', hrem, hw⟩ := wait_ends (l := l) h hlt hpub
  have hr := h.high m (by omega)
  obtain ⟨d, hin⟩ : ∃ d, Inside l (master b0 q0 inp m) d := h.inside hpos hmax (by omega)
  have hnot : ¬ ((master b0 q0 inp m).state = .idleForReady ∧ newFrame (master b0 q0 inp m)
      (Gather.masterInputs (Gather.regs b0 q0 inp m) (inp m)) = true) :=
    fun hn => hpub' ⟨hn.1, hr, of_decide_eq_true hn.2⟩
  refine ⟨m + 1, by omega, ?_⟩
  rw [← hrem]
  exact edge_forward (master_edge b0 q0 inp m) (stage_run b0 q0 inp m) hin hr hnot hmax hw

theorem publishes_again (h : Supplied inp a l n0) (hpos : 0 < l.toNat)
    (hmax : l.toNat ≤ 0xFFFFFFE0) (hlt : n0 < n) : ∃ m, n ≤ m ∧ Publishes b0 q0 inp m := by
  by_cases hpub : Publishes b0 q0 inp n
  · exact ⟨n, Nat.le_refl n, hpub⟩
  · have hstep : ∀ k, (n0 < k ∧ ¬ Publishes b0 q0 inp k) → ∃ m, k < m ∧
        (Publishes b0 q0 inp m ∨ (n0 < m ∧ ¬ Publishes b0 q0 inp m) ∧
          remaining l (master b0 q0 inp m) < remaining l (master b0 q0 inp k)) := by
      rintro k ⟨hk, hp⟩
      obtain ⟨m, hm, hless⟩ := frame_forward h hpos hmax hk hp
      by_cases hq : Publishes b0 q0 inp m
      · exact ⟨m, hm, .inl hq⟩
      · exact ⟨m, hm, .inr ⟨⟨by omega, hq⟩, hless⟩⟩
    obtain ⟨m, hm, hq⟩ := leadsTo_of_rank _ hstep ⟨hlt, hpub⟩
    exact ⟨m, by omega, hq⟩

theorem frames_reach (h : Supplied inp a l n0) (hpos : 0 < l.toNat) (hmax : l.toNat ≤ 0xFFFFFFE0)
    (N : Nat) : ∃ n, n0 < n ∧ N ≤ frames b0 q0 inp n := by
  induction N with
  | zero => exact ⟨n0 + 1, Nat.lt_succ_self n0, Nat.zero_le _⟩
  | succ N ih =>
    obtain ⟨n, hn, hN⟩ := ih
    obtain ⟨k, hk, hpub⟩ : ∃ k, n ≤ k ∧ Publishes b0 q0 inp k := publishes_again h hpos hmax hn
    have hle : frames b0 q0 inp n ≤ frames b0 q0 inp k := frames_le hk
    refine ⟨k + 1, by omega, ?_⟩
    rw [frames_succ, if_pos hpub]
    omega

end Run

/-- **Frames are published for ever**: while words keep arriving and the bus keeps taking beats,
every number of frames is reached, and from then on it is never fallen short of. -/
theorem frames_grow (b0 : BitVec 2) (q0 : Word) (inp : Nat → Gather.Inputs) (a l : BitVec 32)
    (n0 : Nat) (h : Supplied inp a l n0) (hpos : 0 < l.toNat) (hmax : l.toNat ≤ 0xFFFFFFE0)
    (N : Nat) : ∃ n, n0 < n ∧ ∀ m, n ≤ m → N ≤ frames b0 q0 inp m := by
  obtain ⟨n, hn, hN⟩ : ∃ n, n0 < n ∧ N ≤ frames b0 q0 inp n := frames_reach h hpos hmax N
  refine ⟨n, hn, ?_⟩
  intro m hm
  exact hN.trans (frames_le hm)

/-- A word every fifth cycle, and a bus that takes a beat every third cycle. -/
def slowSupply (n : Nat) : Gather.Inputs where
  push := if n % 5 = 0 then some (BitVec.ofNat 32 n) else none
  address := 0x1000
  lengthFrame := 100
  ready := n != 0
  displayBuffer := 0
  amWaitRequest := n % 3 != 0

theorem slowSupply_supplied : Supplied slowSupply 0x1000 100 0 where
  low := by
    intro k hk
    obtain rfl : k = 0 := by omega
    rfl
  high := by
    intro k hk
    show (k != 0) = true
    simp
    omega
  programmed := fun _ _ => ⟨rfl, rfl⟩
  words := by
    intro n
    refine ⟨5 * n, by omega, ?_⟩
    simp [slowSupply]
  accepts := by
    intro n
    refine ⟨3 * n, by omega, ?_⟩
    simp [slowSupply]

theorem frames_grow_slowSupply :
    ∃ n, 0 < n ∧ ∀ m, n ≤ m → 1000 ≤ frames 0 0 slowSupply m :=
  frames_grow 0 0 slowSupply 0x1000 100 0 slowSupply_supplied (by decide) (by decide) 1000

end CameraLcd.FrameStore
