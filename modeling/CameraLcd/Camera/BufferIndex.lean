import CameraLcd.Camera.Master

/-!
# The published index and the buffer that was filled

`Base_Address` says where the bursts of a frame go and `Indice_Memory_Zone` is the index that
`Buffer_Saved` will show for it.  The rotation updates both; a stop reloads `Base_Address` with
the start address and keeps the zone.

* `indexFaithful_iff` — for a programmed address and length and any pattern of `Ready`: the base
  is the one of the zone in every state of a burst, every published index names the buffer the
  frame was written to and the published buffer is never the one being overwritten, if and only
  if every restart finds a zone whose base is the start address.
* `restart_in_zone_one` — a stop and a restart after one frame: the next frame overwrites buffer
  0, which is published, under the index 1.
-/

set_option autoImplicit false

namespace CameraLcd.CameraMaster

/-- `Address` and `Length_Frame` are fixed before the first start: from a cycle on up to which
`Ready` has been low. -/
def Programmed (inp : Nat → Inputs) (a l : BitVec 32) : Prop :=
  ∃ n0, (∀ k ≤ n0, (inp k).ready = false) ∧
    ∀ k, n0 ≤ k → (inp k).address = a ∧ (inp k).lengthFrame = l

/-- The base address of the buffer with index `z`. -/
def bufferBase (a l : BitVec 32) (z : BitVec 2) : BitVec 32 := a + z.setWidth 32 * l

section Defs

variable (b0 : BitVec 2) (inp : Nat → Inputs)

/-- `Buffer_Saved` is loaded in cycle `n`. -/
def Publishes (n : Nat) : Prop :=
  (regs b0 inp n).state = .idleForReady ∧ (inp n).ready = true ∧
    newFrame (regs b0 inp n) (inp n) = true

/-- `Ready` was low in `IDLE_FOR_READY` in cycle `n` and is high in the next one. -/
def Restarts (n : Nat) : Prop :=
  (regs b0 inp n).state = .idleForReady ∧ (inp n).ready = false ∧ (inp (n + 1)).ready = true

/-- **The published index names the buffer that was filled.** -/
structure IndexFaithful (a l : BitVec 32) : Prop where
  base : ∀ n, (regs b0 inp n).state ≠ .idleForReady →
    (regs b0 inp n).baseAddress = bufferBase a l (regs b0 inp n).indiceMemoryZone
  published : ∀ n, Publishes b0 inp n → ∀ m < n, (regs b0 inp m).state = .dmaSendInit →
    (∀ k, m < k → k < n → ¬ Publishes b0 inp k) →
    ∃ off, (off < l ∨ l = 0) ∧
      (regs b0 inp (m + 1)).amAdresse = bufferBase a l (regs b0 inp (n + 1)).bufferSaved + off
  fresh : ∀ n, (∃ m < n, Publishes b0 inp m) →
    (regs b0 inp n).bufferSaved ≠ (regs b0 inp n).indiceMemoryZone

end Defs

instance (b0 : BitVec 2) (inp : Nat → Inputs) (n : Nat) : Decidable (Publishes b0 inp n) :=
  inferInstanceAs (Decidable (_ ∧ _))

section Run

variable {b0 : BitVec 2} {inp : Nat → Inputs} {a l : BitVec 32} {n n0 : Nat}

/-! ## The zone and the published index -/

theorem zone_succ (h : ¬ Publishes b0 inp n) :
    (regs b0 inp (n + 1)).indiceMemoryZone = (regs b0 inp n).indiceMemoryZone ∧
      (regs b0 inp (n + 1)).bufferSaved = (regs b0 inp n).bufferSaved := by
  have he := edge_run b0 inp n
  generalize regs b0 inp (n + 1) = r' at he ⊢
  cases he with
  | publish hs hr hn => exact absurd ⟨hs, hr, hn⟩ h
  | stop | resume | await | fetch | abort | clockWait | collect | collectRelease | collectLast
  | sendInit | stall | beat | lastBeat => exact ⟨rfl, rfl⟩

/-- The edge of a cycle that publishes is the one of the new-frame branch. -/
theorem Edge.of_publish {r r' : Regs} {i : Inputs} (he : Edge r i r')
    (hs : r.state = .idleForReady) (hr : i.ready = true) (hn : newFrame r i = true) :
    r'.state = .idleForData ∧ r'.offsetAddress = 0 ∧ r'.bufferSaved = r.indiceMemoryZone ∧
      (r'.indiceMemoryZone, r'.baseAddress) =
        rotate i.displayBuffer r.indiceMemoryZone i.address i.lengthFrame := by
  cases he with
  | publish => exact ⟨rfl, rfl, rfl, rfl⟩
  | stop _ h1 => simp [hr] at h1
  | resume _ _ h1 => simp [hn] at h1
  | await h1 | fetch h1 | abort h1 | clockWait h1 | collect h1 | collectRelease h1
  | collectLast h1 | sendInit h1 | stall h1 | beat h1 | lastBeat h1 => simp [hs] at h1

theorem publish_succ (h : Publishes b0 inp n) :
    (regs b0 inp (n + 1)).bufferSaved = (regs b0 inp n).indiceMemoryZone ∧
      (regs b0 inp (n + 1)).indiceMemoryZone = (rotate (inp n).displayBuffer
        (regs b0 inp n).indiceMemoryZone (inp n).address (inp n).lengthFrame).1 ∧
      (regs b0 inp (n + 1)).baseAddress = (rotate (inp n).displayBuffer
        (regs b0 inp n).indiceMemoryZone (inp n).address (inp n).lengthFrame).2 := by
  obtain ⟨-, -, hsaved, hrot⟩ := (edge_run b0 inp n).of_publish h.1 h.2.1 h.2.2
  exact ⟨hsaved, congrArg Prod.fst hrot, congrArg Prod.snd hrot⟩

/-- The frame after a publication waits for data with nothing written. -/
theorem publish_opens (h : Publishes b0 inp n) :
    (regs b0 inp (n + 1)).state = .idleForData ∧ (regs b0 inp (n + 1)).offsetAddress = 0 := by
  obtain ⟨hs, hoff, -⟩ := (edge_run b0 inp n).of_publish h.1 h.2.1 h.2.2
  exact ⟨hs, hoff⟩

theorem publish_base (h : Publishes b0 inp n) (ha : (inp n).address = a)
    (hl : (inp n).lengthFrame = l) : (regs b0 inp (n + 1)).baseAddress =
      bufferBase a l (regs b0 inp (n + 1)).indiceMemoryZone := by
  obtain ⟨-, hzone, hbase⟩ := publish_succ h
  rw [hbase, hzone, ha, hl]
  exact rotate_base _ _ _ _

/-- The zone is the one of the frame, and `Buffer_Saved` that of the frame before, as long as
nothing is published. -/
theorem zone_between {m : Nat} (hmn : m ≤ n) (h : ∀ k, m ≤ k → k < n → ¬ Publishes b0 inp k) :
    (regs b0 inp n).indiceMemoryZone = (regs b0 inp m).indiceMemoryZone := by
  induction n, hmn using Nat.le_induction with
  | base => rfl
  | succ n hmn ih =>
    rw [(zone_succ (h n hmn (by omega))).1]
    exact ih fun k h1 h2 => h k h1 (by omega)

theorem saved_between {m : Nat} (hmn : m ≤ n) (h : ∀ k, m ≤ k → k < n → ¬ Publishes b0 inp k) :
    (regs b0 inp n).bufferSaved = (regs b0 inp m).bufferSaved := by
  induction n, hmn using Nat.le_induction with
  | base => rfl
  | succ n hmn ih =>
    rw [(zone_succ (h n hmn (by omega))).2]
    exact ih fun k h1 h2 => h k h1 (by omega)

theorem zone_ne_three (n : Nat) : (regs b0 inp n).indiceMemoryZone ≠ 3 := by
  apply regs_invariant (I := fun r => r.indiceMemoryZone ≠ 3)
  · show (0 : BitVec 2) ≠ 3
    decide
  · intro r i r' he hzone
    cases he with
    | publish => exact rotate_ne_three _ _ _ _
    | stop | resume | await | fetch | abort | clockWait | collect | collectRelease | collectLast
    | sendInit | stall | beat | lastBeat => exact hzone

theorem saved_ne_zone (hd : ∀ n, (inp n).displayBuffer ≠ 3) (n : Nat)
    (hpub : ∃ m < n, Publishes b0 inp m) :
    (regs b0 inp n).bufferSaved ≠ (regs b0 inp n).indiceMemoryZone := by
  induction n with
  | zero =>
    obtain ⟨m, hm, _⟩ := hpub
    omega
  | succ n ih =>
    by_cases hp : Publishes b0 inp n
    · obtain ⟨hsaved, hzone, _⟩ := publish_succ hp
      obtain ⟨h1, -, -⟩ := rotate_avoids (inp n).displayBuffer (regs b0 inp n).indiceMemoryZone
        (inp n).address (inp n).lengthFrame (hd n) (zone_ne_three n)
      rw [hsaved, hzone]
      exact h1.symm
    · obtain ⟨hzone, hsaved⟩ := zone_succ hp
      rw [hzone, hsaved]
      obtain ⟨m, hm, hpm⟩ := hpub
      rcases Nat.lt_succ_iff_lt_or_eq.mp hm with h | rfl
      · exact ih ⟨m, h, hpm⟩
      · exact absurd hpm hp

/-! ## The base address -/

theorem stop_succ {m : Nat} (hs : (regs b0 inp m).state = .idleForReady)
    (hr : (inp m).ready = false) :
    (regs b0 inp (m + 1)).state = .idleForReady ∧
      (regs b0 inp (m + 1)).baseAddress = (inp m).address ∧
      (regs b0 inp (m + 1)).offsetAddress = 0 ∧
      (regs b0 inp (m + 1)).indiceMemoryZone = (regs b0 inp m).indiceMemoryZone := by
  have he := edge_run b0 inp m
  generalize regs b0 inp (m + 1) = r' at he ⊢
  cases he with
  | stop => exact ⟨hs, rfl, rfl, rfl⟩
  | resume _ h1 | publish _ h1 => simp [hr] at h1
  | await h1 | fetch h1 | abort h1 | clockWait h1 | collect h1 | collectRelease h1
  | collectLast h1 | sendInit h1 | stall h1 | beat h1 | lastBeat h1 => simp [hs] at h1

theorem idle_before (h : ∀ k < n, (inp k).ready = false) :
    (regs b0 inp n).state = .idleForReady ∧ (regs b0 inp n).indiceMemoryZone = 0 := by
  induction n with
  | zero => exact ⟨rfl, rfl⟩
  | succ n ih =>
    obtain ⟨hs, hz⟩ := ih fun k hk => h k (by omega)
    obtain ⟨hs', -, -, hz'⟩ := stop_succ hs (h n (by omega))
    exact ⟨hs', hz'.trans hz⟩

/-- A stop and a publication load the base, nothing else does. -/
theorem base_succ (h : ¬ Publishes b0 inp n)
    (hready : (regs b0 inp n).state = .idleForReady → (inp n).ready = true) :
    (regs b0 inp (n + 1)).baseAddress = (regs b0 inp n).baseAddress := by
  have he := edge_run b0 inp n
  generalize regs b0 inp (n + 1) = r' at he ⊢
  cases he with
  | publish hs hr hn => exact absurd ⟨hs, hr, hn⟩ h
  | stop hs h1 => simp [hready hs] at h1
  | resume | await | fetch | abort | clockWait | collect | collectRelease | collectLast
  | sendInit | stall | beat | lastBeat => rfl

/-- The edge into cycle `n` was a stop. -/
def Parked (b0 : BitVec 2) (inp : Nat → Inputs) (n : Nat) : Prop :=
  ∃ m, n = m + 1 ∧ (regs b0 inp m).state = .idleForReady ∧ (inp m).ready = false

/-- **Base invariant**: once programmed, the base is the one of the zone or the master is
parked. -/
theorem base_or_parked (h0 : ∀ k ≤ n0, (inp k).ready = false)
    (hp : ∀ k, n0 ≤ k → (inp k).address = a ∧ (inp k).lengthFrame = l)
    (hr : ∀ m, Restarts b0 inp m → (regs b0 inp m).indiceMemoryZone.setWidth 32 * l = 0)
    (hn : n0 < n) :
    (regs b0 inp n).baseAddress = bufferBase a l (regs b0 inp n).indiceMemoryZone ∨
      Parked b0 inp n := by
  induction n, hn using Nat.le_induction with
  | base => exact Or.inr ⟨n0, rfl, (idle_before fun k hk => h0 k (by omega)).1, h0 n0 (by omega)⟩
  | succ n hn ih =>
    have hleft : (regs b0 inp n).state ≠ .idleForReady →
        (regs b0 inp n).baseAddress = bufferBase a l (regs b0 inp n).indiceMemoryZone := by
      intro hs
      rcases ih with h | ⟨m, rfl, hsm, hrm⟩
      · exact h
      · exact absurd (stop_succ hsm hrm).1 hs
    by_cases hs : (regs b0 inp n).state = .idleForReady
    · by_cases hready : (inp n).ready = true
      · left
        by_cases hpub : Publishes b0 inp n
        · obtain ⟨ha, hl⟩ := hp n (by omega)
          exact publish_base hpub ha hl
        · rw [base_succ hpub fun _ => hready, (zone_succ hpub).1]
          rcases ih with h | ⟨m, rfl, hsm, hrm⟩
          · exact h
          · -- a restart: the zone kept across the stop has the start address as its base
            obtain ⟨_, hbase, _, hzone⟩ := stop_succ hsm hrm
            rw [hbase, hzone, bufferBase, hr m ⟨hsm, hrm, hready⟩, (hp m (by omega)).1]
            simp
      · exact Or.inr ⟨n, rfl, hs, by simpa using hready⟩
    · left
      have hpub : ¬ Publishes b0 inp n := fun h => hs h.1
      rw [base_succ hpub fun h => absurd h hs, (zone_succ hpub).1]
      exact hleft hs

/-! ## Where a burst goes -/

/-- From the read request to the start of the burst the address is base plus offset. -/
theorem currentAddress_eq (n : Nat)
    (hs : (regs b0 inp n).state = .clockWaitDataFifo ∨ (regs b0 inp n).state = .collectDataFifo ∨
      (regs b0 inp n).state = .dmaSendInit) :
    (regs b0 inp n).currentAddress =
      (regs b0 inp n).baseAddress + (regs b0 inp n).offsetAddress := by
  revert hs
  apply regs_invariant (I := fun r => r.state = .clockWaitDataFifo ∨ r.state = .collectDataFifo ∨
    r.state = .dmaSendInit → r.currentAddress = r.baseAddress + r.offsetAddress)
  · intro h
    simp [reset] at h
  · intro r i r' he ih h
    cases he with
    | fetch | await | abort => rfl
    | clockWait h1 => exact ih (Or.inl h1)
    | collect h1 | collectRelease h1 | collectLast h1 => exact ih (Or.inr (Or.inl h1))
    | stop h1 | stall h1 | beat h1 => simp [h1] at h
    | resume | publish | lastBeat => simp at h
    | sendInit => simp [dmaSendInit] at h

theorem offset_lt (h0 : ∀ k ≤ n0, (inp k).ready = false)
    (hp : ∀ k, n0 ≤ k → (inp k).address = a ∧ (inp k).lengthFrame = l) (n : Nat) :
    (regs b0 inp n).state ≠ .idleForReady → (regs b0 inp n).offsetAddress < l ∨ l = 0 := by
  induction n with
  | zero => exact fun h => absurd rfl h
  | succ n ih =>
    intro hs
    have hn : n0 ≤ n := by
      by_contra hlt
      exact hs (idle_before fun k hk => h0 k (by omega)).1
    obtain ⟨_, hl⟩ := hp n hn
    have he := edge_run b0 inp n
    generalize regs b0 inp (n + 1) = r' at he hs ⊢
    cases he with
    | stop h1 => exact absurd h1 hs
    | abort | lastBeat => exact absurd rfl hs
    | resume _ _ h1 =>
      left
      simpa [newFrame, hl] using h1
    | publish =>
      by_cases hl0 : l = 0
      · exact Or.inr hl0
      · left
        show (0 : BitVec 32) < l
        bv_omega
    | await h1 | fetch h1 | clockWait h1 | collect h1 | collectRelease h1 | collectLast h1
    | sendInit h1 | stall h1 | beat h1 => exact ih (by simp [h1])

theorem programmed_of_zone (h0 : ∀ k ≤ n0, (inp k).ready = false)
    (hz : (regs b0 inp n).indiceMemoryZone ≠ 0) : n0 < n := by
  by_contra hlt
  exact hz (idle_before fun k hk => h0 k (by omega)).2

/-- A restart with a buffer length that is not 0 resumes the frame in the zone kept. -/
theorem restart_succ {m : Nat} (hm : Restarts b0 inp m) (hl : (inp (m + 1)).lengthFrame ≠ 0) :
    (regs b0 inp (m + 2)).state = .idleForData ∧
      (regs b0 inp (m + 2)).baseAddress = (inp m).address ∧
      (regs b0 inp (m + 2)).indiceMemoryZone = (regs b0 inp m).indiceMemoryZone := by
  obtain ⟨hs, hr, hr'⟩ := hm
  obtain ⟨hs1, hbase, hoff, hzone⟩ := stop_succ hs hr
  have hnew : newFrame (regs b0 inp (m + 1)) (inp (m + 1)) = false := by
    simp only [newFrame, hoff, decide_eq_false_iff_not]
    bv_omega
  have he := edge_run b0 inp (m + 1)
  show (regs b0 inp (m + 1 + 1)).state = _ ∧ (regs b0 inp (m + 1 + 1)).baseAddress = _ ∧
    (regs b0 inp (m + 1 + 1)).indiceMemoryZone = _
  generalize regs b0 inp (m + 1 + 1) = r' at he ⊢
  cases he with
  | resume => exact ⟨rfl, hbase, hzone⟩
  | stop _ h1 => simp [hr'] at h1
  | publish _ _ h1 => simp [hnew] at h1
  | await h1 | fetch h1 | abort h1 | clockWait h1 | collect h1 | collectRelease h1
  | collectLast h1 | sendInit h1 | stall h1 | beat h1 | lastBeat h1 => simp [hs1] at h1

/-- The base is the one of the zone if no restart meets a displaced zone. -/
theorem faithful_of_restarts (hprog : Programmed inp a l)
    (hd : ∀ n, (inp n).displayBuffer ≠ 3)
    (hr : ∀ m, Restarts b0 inp m → (regs b0 inp m).indiceMemoryZone.setWidth 32 * l = 0) :
    IndexFaithful b0 inp a l := by
  obtain ⟨n0, h0, hp⟩ := hprog
  have hbase : ∀ n, (regs b0 inp n).state ≠ .idleForReady →
      (regs b0 inp n).baseAddress = bufferBase a l (regs b0 inp n).indiceMemoryZone := by
    intro n hs
    have hn : n0 < n := by
      by_contra hlt
      exact hs (idle_before fun k hk => h0 k (by omega)).1
    rcases base_or_parked h0 hp hr hn with h | ⟨m, rfl, hsm, hrm⟩
    · exact h
    · exact absurd (stop_succ hsm hrm).1 hs
  refine ⟨hbase, ?_, saved_ne_zone hd⟩
  intro n hpub m hmn hm hbetween
  have hburst : (regs b0 inp m).state ≠ .idleForReady := by simp [hm]
  have hzone : (regs b0 inp n).indiceMemoryZone = (regs b0 inp m).indiceMemoryZone := by
    refine zone_between (by omega) fun k h1 h2 => ?_
    rcases Nat.eq_or_lt_of_le h1 with rfl | h1
    · exact fun hk => hburst hk.1
    · exact hbetween k h1 h2
  refine ⟨(regs b0 inp m).offsetAddress, offset_lt h0 hp m hburst, ?_⟩
  rw [(publish_succ hpub).1, hzone, ← hbase m hburst, ← currentAddress_eq m (by simp [hm]),
    (edge_run b0 inp m).of_dmaSendInit hm]
  rfl

end Run

/-- **The published index is right if and only if every restart finds the zone at the start
address**, that is `Indice_Memory_Zone * Length_Frame = 0`. -/
theorem indexFaithful_iff (b0 : BitVec 2) (inp : Nat → Inputs) (a l : BitVec 32)
    (hprog : Programmed inp a l) (hd : ∀ n, (inp n).displayBuffer ≠ 3) :
    IndexFaithful b0 inp a l ↔
      ∀ m, Restarts b0 inp m → (regs b0 inp m).indiceMemoryZone.setWidth 32 * l = 0 := by
  refine ⟨fun h m hm => ?_, faithful_of_restarts hprog hd⟩
  by_contra hne
  obtain ⟨n0, h0, hp⟩ := hprog
  have hz : (regs b0 inp m).indiceMemoryZone ≠ 0 := by
    intro h1
    simp [h1] at hne
  have hn := programmed_of_zone h0 hz
  have hl : (inp (m + 1)).lengthFrame ≠ 0 := by
    intro h1
    rw [← (hp (m + 1) (by omega)).2, h1] at hne
    simp at hne
  obtain ⟨hs, hbase, hzone⟩ := restart_succ hm hl
  have hb := h.base (m + 2) (by simp [hs])
  rw [hbase, hzone, bufferBase, (hp m (by omega)).1] at hb
  exact hne (BitVec.self_eq_add_right.mp hb)

/-- A FIFO with words throughout and frames of one burst from address 4096 on; `Ready` is high
from cycle 1 on, but for the cycles `first` to 22. -/
def stoppedFrom (first n : Nat) : Inputs where
  address := 4096
  lengthFrame := 32
  ready := n != 0 && !(decide (first ≤ n) && decide (n ≤ 22))
  displayBuffer := 0
  fifoDataAvailable := false
  fifoReadData := BitVec.ofNat 32 n
  amWaitRequest := false

theorem stoppedFrom_programmed (first : Nat) : Programmed (stoppedFrom first) 4096 32 := by
  refine ⟨0, fun k hk => ?_, fun _ _ => ⟨rfl, rfl⟩⟩
  obtain rfl : k = 0 := by omega
  rfl

theorem stoppedFrom_display (first n : Nat) : (stoppedFrom first n).displayBuffer ≠ 3 :=
  show (0 : BitVec 2) ≠ 3 by decide

/-- A stop inside the first burst: the frame is given up, and the restart finds zone 0. -/
theorem index_after_stop : Restarts 0 (stoppedFrom 10) 22 ∧
    IndexFaithful 0 (stoppedFrom 10) 4096 32 := by
  refine ⟨⟨by decide +kernel, rfl, rfl⟩, (indexFaithful_iff 0 _ 4096 32
    (stoppedFrom_programmed 10) (stoppedFrom_display 10)).mpr fun m hm => ?_⟩
  have hlow : m ≠ 0 → 10 ≤ m ∧ m ≤ 22 := by simpa [stoppedFrom] using hm.2.1
  have hhigh : ¬ (10 ≤ m + 1 ∧ m + 1 ≤ 22) := by
    rintro ⟨hfirst, hlast⟩
    have hready : (m + 1 != 0 && !(decide (10 ≤ m + 1) && decide (m + 1 ≤ 22))) = true := hm.2.2
    rw [decide_eq_true hfirst, decide_eq_true hlast, Bool.and_self, Bool.not_true,
      Bool.and_false] at hready
    cases hready
  obtain rfl | rfl : m = 0 ∨ m = 22 := by omega
  · rfl
  · decide +kernel

/-- **Failing input**: a stop right after the first frame.  The restart keeps zone 1 and writes
from the start address, so that in cycle 24 the master overwrites the published buffer 0. -/
theorem restart_in_zone_one :
    ¬ ∀ (b0 : BitVec 2) (inp : Nat → Inputs) (a l : BitVec 32), Programmed inp a l →
      (∀ n, (inp n).displayBuffer ≠ 3) → IndexFaithful b0 inp a l := by
  intro h
  have hb := (h 0 (stoppedFrom 21) 4096 32 (stoppedFrom_programmed 21)
    (stoppedFrom_display 21)).base 24 (by decide)
  exact absurd hb (by decide)

end CameraLcd.CameraMaster
