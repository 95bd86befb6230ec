import Mathlib.Data.List.Range
import CameraLcd.Lcd.Master

/-!
# The display's DMA as a burst-read master

`Master_Interface` in front of a slave that answers an accepted read with 16 beats, each in a
later cycle of its own choice.  All other inputs are arbitrary in every cycle.

* `Coupled` — the beats the slave owes are those the beat counter still expects.
* `Track` — what a session has read so far, from its last `Copy` cycle on.
* `burstRead_master` — the properties of the bus and of the words written to the FIFO.
* `stray_beats` — beats that nobody has asked for change nothing in a session.
-/

set_option autoImplicit false

namespace CameraLcd.BurstRead

open Clocked LcdMaster

/-- The DMA and the number of beats the slave still has to return. -/
structure Regs where
  master : LcdMaster.Regs
  pending : Nat
  deriving DecidableEq, Repr

/-- The inputs of a cycle; the slave returns a beat if it owes one. -/
structure Inputs where
  startAdd : BitVec 32
  lengthBuffer : BitVec 32
  bufferSaved : BitVec 2
  write16 : Bool
  masterStart : Bool
  fullFifo : Bool
  emptyFifo : Bool
  avmWaitRequest : Bool
  beat : Bool
  avmReadData : BitVec 32

section Cycle

variable (r : Regs) (i : Inputs)

/-- `avm_ReadDataValid`. -/
def avmReadDataValid : Bool := i.beat && decide (0 < r.pending)

/-- The input ports of `Master_Interface`. -/
def masterInputs : LcdMaster.Inputs where
  avmWaitRequest := i.avmWaitRequest
  avmReadDataValid := avmReadDataValid r i
  avmReadData := i.avmReadData
  startAdd := i.startAdd
  lengthBuffer := i.lengthBuffer
  bufferSaved := i.bufferSaved
  write16 := i.write16
  masterStart := i.masterStart
  fullFifo := i.fullFifo
  emptyFifo := i.emptyFifo

/-- The address of the read that the slave accepts in this cycle. -/
def accepted : Option (BitVec 32) :=
  if r.master.avmRead && !i.avmWaitRequest then some (avmAddress r.master) else none

/-- The beat of this cycle. -/
def answered : Option (BitVec 32) := if avmReadDataValid r i then some i.avmReadData else none

/-- The write port of the FIFO. -/
def written : Option (BitVec 32) :=
  if writeFifo r.master (masterInputs r i) then
    some (writeFifoData r.master (masterInputs r i)) else none

/-- One clock edge: an accepted read adds 16 beats, a beat takes one off. -/
def step : Regs where
  master := LcdMaster.clock r.master (masterInputs r i)
  pending := r.pending - (answered r i).toList.length + 16 * (accepted r i).toList.length

end Cycle

/-- The DMA and the slave from reset on. -/
def machine : Machine Regs Inputs := ⟨⟨LcdMaster.reset, 0⟩, step⟩

/-- The registers in cycle `n`. -/
def regs (inp : Nat → Inputs) (n : Nat) : Regs := machine.run inp n

theorem regs_succ (inp : Nat → Inputs) (n : Nat) :
    regs inp (n + 1) = step (regs inp n) (inp n) := rfl

theorem master_succ (inp : Nat → Inputs) (n : Nat) : (regs inp (n + 1)).master =
    LcdMaster.clock (regs inp n).master (masterInputs (regs inp n) (inp n)) := rfl

/-! ## Beats and the beat counter -/

/-- The slave owes the beats that the DMA still counts. -/
structure Coupled (r : Regs) : Prop where
  bus : BusOk r.master
  beats : r.pending = if r.master.state = .readData then 16 - r.master.counterWord else 0

theorem coupled_init : Coupled machine.init := ⟨busOk_reset, rfl⟩

section Step

variable {r : Regs} (i : Inputs)

/-- A read is on the bus in `Check_WaitRequest` only. -/
theorem Coupled.avmRead_iff (h : Coupled r) :
    r.master.avmRead = true ↔ r.master.state = .checkWaitRequest := by
  rw [h.bus.read]
  exact decide_eq_true_iff

theorem Coupled.accepted_none (h : Coupled r) (hs : r.master.state ≠ .checkWaitRequest) :
    accepted r i = none := by
  have hread : r.master.avmRead = false := by
    rw [← Bool.not_eq_true, h.avmRead_iff]
    exact hs
  simp [accepted, hread]

theorem Coupled.answered_none (h : Coupled r) (hs : r.master.state ≠ .readData) :
    answered r i = none := by
  have h0 : r.pending = 0 := by rw [h.beats, if_neg hs]
  simp [answered, avmReadDataValid, h0]

/-- A beat arrives while the counter is below 16 only. -/
theorem Coupled.valid_lt (h : Coupled r) (hv : avmReadDataValid r i = true) :
    r.master.state = .readData ∧ r.master.counterWord < 16 := by
  have hpos : 0 < r.pending := by
    unfold avmReadDataValid at hv
    rw [Bool.and_eq_true, decide_eq_true_iff] at hv
    exact hv.2
  rw [h.beats] at hpos
  split at hpos
  · rename_i hs
    exact ⟨hs, by omega⟩
  · omega

/-- **Each beat is written to the FIFO in its cycle, and nothing else is.** -/
theorem Coupled.written_eq (h : Coupled r) : written r i = answered r i := by
  unfold written answered
  cases hv : avmReadDataValid r i with
  | false => simp [writeFifo, masterInputs, hv]
  | true =>
    obtain ⟨hs, hlt⟩ := h.valid_lt i hv
    simp [writeFifoData, writeFifo, masterInputs, hv, hs, show r.master.counterWord ≠ 16 by omega]

/-- **The beats owed and the beat counter stay in step.** -/
theorem Coupled.step (h : Coupled r) : Coupled (step r i) := by
  refine ⟨h.bus.clock _, ?_⟩
  have hbeats := h.beats
  by_cases hread : r.master.state = .readData
  · rw [if_pos hread] at hbeats
    have hle := h.bus.word_le
    unfold BurstRead.step
    rw [h.accepted_none i (by simp [hread]), clock_readData hread]
    cases hv : avmReadDataValid r i with
    | false =>
      by_cases h16 : r.master.counterWord = 16
      · simp [answered, hv, hbeats, h16]
      · simp [answered, masterInputs, hv, hbeats, h16]
    | true =>
      have hlt := (h.valid_lt i hv).2
      simp [answered, masterInputs, hv, hbeats, show r.master.counterWord ≠ 16 by omega]
      omega
  · rw [if_neg hread] at hbeats
    have hans := h.answered_none i hread
    by_cases hcheck : r.master.state = .checkWaitRequest
    · have hzero := h.bus.word_zero (by simp [hcheck]) (by simp [hcheck])
      have hon := h.avmRead_iff.mpr hcheck
      unfold BurstRead.step
      rw [hans, clock_checkWaitRequest hcheck]
      cases hw : i.avmWaitRequest <;> simp [accepted, masterInputs, hon, hw, hbeats, hzero]
    · have hacc := h.accepted_none i hcheck
      have hnext : (LcdMaster.clock r.master (masterInputs r i)).state ≠ .readData := by
        cases hs : r.master.state with
        | readData => exact absurd hs hread
        | checkWaitRequest => exact absurd hs hcheck
        | init => rw [clock_init hs]; split <;> simp
        | copy => rw [clock_copy hs]; simp only; split <;> simp
        | assertReadData => rw [clock_assertReadData hs]; simp
        | newAdd => rw [clock_newAdd hs]; simp
        | checkAdd => rw [clock_checkAdd hs]; simp only; split <;> simp
        | checkFifo => rw [clock_checkFifo hs]; simp only; split <;> simp
        | waitLcdControl => rw [clock_waitLcdControl hs]; simp only; split <;> simp
      simp [BurstRead.step, hacc, hans, hbeats, hnext]

end Step

theorem coupled_run (inp : Nat → Inputs) (n : Nat) : Coupled (regs inp n) :=
  Machine.run_invariant (M := machine) coupled_init (fun _ i h => h.step i) n

/-! ## Sessions -/

section Sessions

variable (inp : Nat → Inputs)

/-- Cycle `n` is in the session whose last `Copy` cycle is `n0`. -/
def Session (n0 n : Nat) : Prop :=
  (regs inp n0).master.state = .copy ∧ (inp n0).emptyFifo = true ∧ n0 < n ∧
    ∀ m, n0 < m → m ≤ n → (regs inp m).master.state ≠ .init

/-- The addresses of the reads accepted in the cycles after `n0` and before `n`. -/
def accepts (n0 n : Nat) : List (BitVec 32) :=
  collect (fun k => accepted (regs inp k) (inp k)) (n0 + 1) n

/-- The beats of these cycles. -/
def answers (n0 n : Nat) : List (BitVec 32) :=
  collect (fun k => answered (regs inp k) (inp k)) (n0 + 1) n

/-- The words written to the FIFO in these cycles. -/
def writes (n0 n : Nat) : List (BitVec 32) :=
  collect (fun k => written (regs inp k) (inp k)) (n0 + 1) n

end Sessions

/-- `StartAdd + LengthBuffer(29 downto 0) * Buffer_Saved + 64 * k`. -/
def addressOf (i : Inputs) (k : Nat) : BitVec 32 :=
  BitVec.ofNat 32 (i.startAdd.toNat + i.lengthBuffer.toNat % 0x40000000 * i.bufferSaved.toNat +
    64 * k)

theorem addressOf_zero (r : Regs) (i : Inputs) : startOf (masterInputs r i) = addressOf i 0 := by
  apply BitVec.eq_of_toNat_eq
  simp [startOf, timesLength, addressOf, masterInputs]

theorem addressOf_succ (i : Inputs) (k : Nat) : addressOf i (k + 1) = addressOf i k + 64 := by
  unfold addressOf
  rw [Nat.mul_succ, ← Nat.add_assoc, BitVec.ofNat_add]
  rfl

/-- A read has been accepted whose address is still in `Add`. -/
def ahead (s : State) : Nat := if s = .readData ∨ s = .newAdd then 1 else 0

/-- The session from the last `Copy` cycle `n0`, in cycle `n` after `k` bursts. -/
structure Track (inp : Nat → Inputs) (n0 n k : Nat) : Prop where
  reading : Reading (regs inp n).master
  add : (regs inp n).master.add = addressOf (inp n0) k
  endAdd : (regs inp n).master.endAdd = endOf (masterInputs (regs inp n0) (inp n0))
  used : (regs inp n).master.bufferUsed = (inp n0).bufferSaved
  reads : accepts inp n0 n =
    (List.range (k + ahead (regs inp n).master.state)).map (addressOf (inp n0))

variable {inp : Nat → Inputs} {n0 n : Nat}

/-- The session begins. -/
theorem track_open (hs : (regs inp n0).master.state = .copy) (he : (inp n0).emptyFifo = true) :
    Track inp n0 (n0 + 1) 0 ∧ (regs inp (n0 + 1)).master.state = .assertReadData := by
  have hc := (master_succ inp n0).trans (clock_copy hs)
  have hst : (regs inp (n0 + 1)).master.state = .assertReadData := by
    rw [hc]
    exact if_pos he
  refine ⟨⟨by simp [Reading, hst], ?_, by rw [hc], ?_, ?_⟩, hst⟩
  · rw [hc]
    exact addressOf_zero _ _
  · rw [hc]
    rfl
  · simp [accepts, ahead, hst]

/-- A cycle that accepts no read. -/
theorem accepts_none (h : n0 < n) (hs : (regs inp n).master.state ≠ .checkWaitRequest) :
    accepts inp n0 (n + 1) = accepts inp n0 n :=
  collect_succ_none _ h ((coupled_run inp n).accepted_none _ hs)

/-- A cycle of a session in which nothing is accepted and the addresses are kept. -/
theorem Track.keep {k : Nat} (h : Track inp n0 n k)
    (hacc : accepts inp n0 (n + 1) = accepts inp n0 n)
    (hr : Reading (regs inp (n + 1)).master)
    (hadd : (regs inp (n + 1)).master.add = (regs inp n).master.add)
    (hend : (regs inp (n + 1)).master.endAdd = (regs inp n).master.endAdd)
    (ha : ahead (regs inp (n + 1)).master.state = ahead (regs inp n).master.state) :
    Track inp n0 (n + 1) k where
  reading := hr
  add := hadd.trans h.add
  endAdd := hend.trans h.endAdd
  used := (bufferUsed_reading _ h.reading).trans h.used
  reads := by rw [hacc, ha, h.reads]

/-- **One cycle of a session**: it goes on, with one burst more after `New_Add`, or it ends in
`Init`. -/
theorem Track.step {k : Nat} (h0 : n0 < n) (h : Track inp n0 n k) :
    (regs inp (n + 1)).master.state = .init ∨
      Track inp n0 (n + 1) (if (regs inp n).master.state = .newAdd then k + 1 else k) := by
  have hm := master_succ inp n
  cases hs : (regs inp n).master.state with
  | init => exact absurd hs h.reading.1
  | copy => exact absurd hs h.reading.2
  | assertReadData =>
    rw [clock_assertReadData hs] at hm
    exact .inr (h.keep (accepts_none h0 (by simp [hs])) (by simp [Reading, hm]) (by rw [hm])
      (by rw [hm]) (by simp [ahead, hm, hs]))
  | checkWaitRequest =>
    have hread := (coupled_run inp n).avmRead_iff.mpr hs
    rw [clock_checkWaitRequest hs] at hm
    right
    cases hw : (inp n).avmWaitRequest with
    | true =>
      have hnone : accepted (regs inp n) (inp n) = none := by simp [accepted, hw]
      exact h.keep (collect_succ_none _ h0 hnone) (by simp [Reading, hm, masterInputs, hw])
        (by rw [hm]) (by rw [hm]) (by simp [ahead, hm, hs, masterInputs, hw])
    | false =>
      have hsome : accepted (regs inp n) (inp n) = some (addressOf (inp n0) k) := by
        simp [accepted, avmAddress, addressing, hread, hw, hs, h.add]
      have hst : (regs inp (n + 1)).master.state = .readData := by
        simp [hm, masterInputs, hw]
      refine ⟨by simp [Reading, hst], by rw [hm]; exact h.add, by rw [hm]; exact h.endAdd,
        (bufferUsed_reading _ h.reading).trans h.used, ?_⟩
      rw [accepts, collect_succ_some _ h0 hsome, ← accepts, h.reads]
      simp [ahead, hst, hs, List.range_succ]
  | readData =>
    rw [clock_readData hs] at hm
    refine .inr (h.keep (accepts_none h0 (by simp [hs])) ?_ (by rw [hm]) (by rw [hm]) ?_)
    · rw [Reading, hm]
      simp only
      split <;> simp
    · rw [hm, hs]
      simp only
      split <;> rfl
  | newAdd =>
    rw [clock_newAdd hs] at hm
    refine .inr ⟨by simp [Reading, hm], ?_, by rw [hm]; exact h.endAdd,
      (bufferUsed_reading _ h.reading).trans h.used, ?_⟩
    · rw [hm, if_pos rfl, addressOf_succ, ← h.add]
    · rw [accepts_none h0 (by simp [hs]), h.reads, hm, hs]
      rfl
  | checkAdd =>
    rw [clock_checkAdd hs] at hm
    by_cases heq : (regs inp n).master.add = (regs inp n).master.endAdd
    · left
      rw [hm]
      exact if_pos heq
    · exact .inr (h.keep (accepts_none h0 (by simp [hs])) (by simp [Reading, hm, heq])
        (by rw [hm]) (by rw [hm]) (by simp [ahead, hm, hs, heq]))
  | checkFifo =>
    rw [clock_checkFifo hs] at hm
    refine .inr (h.keep (accepts_none h0 (by simp [hs])) ?_ (by rw [hm]) (by rw [hm]) ?_)
    · rw [Reading, hm]
      simp only
      split <;> simp
    · rw [hm, hs]
      simp only
      split <;> rfl
  | waitLcdControl =>
    rw [clock_waitLcdControl hs] at hm
    refine .inr (h.keep (accepts_none h0 (by simp [hs])) ?_ (by rw [hm]) (by rw [hm]) ?_)
    · rw [Reading, hm]
      simp only
      split <;> simp
    · rw [hm, hs]
      simp only
      split <;> rfl

/-- **A session in every cycle.** -/
theorem track_run (h : Session inp n0 n) : ∃ k, Track inp n0 n k := by
  obtain ⟨hs, he, hlt, hbusy⟩ := h
  induction n, hlt using Nat.le_induction with
  | base => exact ⟨0, (track_open hs he).1⟩
  | succ n hle ih =>
    obtain ⟨k, hk⟩ := ih (fun m h1 h2 => hbusy m h1 (by omega))
    rcases hk.step hle with hinit | hk'
    · exact absurd hinit (hbusy (n + 1) (by omega) (Nat.le_refl _))
    · exact ⟨_, hk'⟩

/-- Outside `Init` and `Copy` a session is under way. -/
theorem session_of_reading (inp : Nat → Inputs) :
    ∀ n, Reading (regs inp n).master → ∃ n0, Session inp n0 n
  | 0, h => absurd rfl h.1
  | n + 1, h => by
    have hm := master_succ inp n
    by_cases hr : Reading (regs inp n).master
    · obtain ⟨n0, hs, he, hlt, hbusy⟩ := session_of_reading inp n hr
      refine ⟨n0, hs, he, by omega, ?_⟩
      intro m h1 h2
      by_cases hmn : m = n + 1
      · rw [hmn]
        exact h.1
      · exact hbusy m h1 (by omega)
    · cases hs : (regs inp n).master.state with
      | init =>
        rw [clock_init hs] at hm
        have hno := h
        rw [hm] at hno
        cases hst : (masterInputs (regs inp n) (inp n)).masterStart <;>
          simp [Reading, hst] at hno
      | copy =>
        rw [clock_copy hs] at hm
        cases he : (inp n).emptyFifo with
        | false =>
          have hno := h
          rw [hm] at hno
          simp [Reading, masterInputs, he] at hno
        | true =>
          refine ⟨n, hs, he, by omega, ?_⟩
          intro m h1 h2
          rw [show m = n + 1 by omega]
          exact h.1
      | _ => exact absurd (by simp [Reading, hs]) hr

/-- **The beats of the session and the beats owed account for its reads.** -/
theorem answers_length (hs : (regs inp n0).master.state = .copy) :
    ∀ n, n0 < n → (answers inp n0 n).length + (regs inp n).pending =
      16 * (accepts inp n0 n).length := by
  intro n hlt
  induction n, hlt using Nat.le_induction with
  | base =>
    have hnone := (coupled_run inp n0).accepted_none (inp n0) (by simp [hs])
    have hbeats := (coupled_run inp n0).beats
    rw [if_neg (by simp [hs])] at hbeats
    simp [answers, accepts, regs_succ, step, hnone, hbeats]
  | succ n hle ih =>
    have hle' : n0 + 1 ≤ n := hle
    have hpend : (answered (regs inp n) (inp n)).toList.length ≤ (regs inp n).pending := by
      unfold answered avmReadDataValid
      split
      · rename_i hv
        simp only [Bool.and_eq_true, decide_eq_true_iff] at hv
        exact hv.2
      · simp
    unfold answers accepts at ih ⊢
    rw [collect_succ _ hle', collect_succ _ hle', List.length_append, List.length_append, regs_succ]
    unfold step
    simp only
    omega

/-! ## The burst-read master -/

/-- What the bus and the FIFO see of the DMA. -/
structure BurstMaster (inp : Nat → Inputs) : Prop where
  /-- A read asks for 16 whole words. -/
  burst : ∀ n, (regs inp n).master.avmRead = true →
    avmBurstCount (regs inp n).master = 16 ∧ avmByteEnable (regs inp n).master = 15
  /-- A read that is not accepted is held with its address. -/
  held : ∀ n, (regs inp n).master.avmRead = true → (inp n).avmWaitRequest = true →
    (regs inp (n + 1)).master.avmRead = true ∧
      avmAddress (regs inp (n + 1)).master = avmAddress (regs inp n).master
  /-- A read is accepted once. -/
  once : ∀ n, (regs inp n).master.avmRead = true → (inp n).avmWaitRequest = false →
    (regs inp (n + 1)).master.avmRead = false
  /-- Reads belong to sessions. -/
  session : ∀ n, (regs inp n).master.avmRead = true → ∃ n0, Session inp n0 n
  /-- The `k`-th read of a session goes to the `k`-th block of 64 bytes of its buffer. -/
  address : ∀ n0 n, Session inp n0 n →
    accepts inp n0 n = (List.range (accepts inp n0 n).length).map (addressOf (inp n0))
  /-- A beat is written to the FIFO when it arrives, and nothing else is written. -/
  written : ∀ n, written (regs inp n) (inp n) = answered (regs inp n) (inp n)
  /-- Before a read is asserted the 16 beats of every earlier read are in the FIFO. -/
  complete : ∀ n0 n, Session inp n0 n → (regs inp n).master.avmRead = true →
    (writes inp n0 n).length = 16 * (accepts inp n0 n).length ∧ (regs inp n).pending = 0
  /-- The buffer of the session is claimed until the session is over. -/
  display : ∀ n0 n, Session inp n0 n →
    displayBuffer (regs inp n).master = (inp n0).bufferSaved

/-- **`Master_Interface` is a correct burst-read master.** -/
theorem burstRead_master (inp : Nat → Inputs) : BurstMaster inp where
  burst := by
    intro n hread
    have hs := (coupled_run inp n).avmRead_iff.mp hread
    simp [avmBurstCount, avmByteEnable, addressing, hs]
  held := by
    intro n hread hwait
    have hs := (coupled_run inp n).avmRead_iff.mp hread
    have hm := master_succ inp n
    rw [clock_checkWaitRequest hs] at hm
    simp [hm, masterInputs, hwait, hread, avmAddress, addressing, hs]
  once := by
    intro n hread hwait
    have hs := (coupled_run inp n).avmRead_iff.mp hread
    rw [master_succ, clock_checkWaitRequest hs]
    simp [masterInputs, hwait]
  session := by
    intro n hread
    apply session_of_reading
    rw [Reading, (coupled_run inp n).avmRead_iff.mp hread]
    simp
  address := by
    intro n0 n hses
    obtain ⟨k, hk⟩ := track_run hses
    rw [hk.reads, List.length_map, List.length_range]
  written := fun n => (coupled_run inp n).written_eq _
  complete := by
    intro n0 n hses hread
    have hs := (coupled_run inp n).avmRead_iff.mp hread
    have hpend := (coupled_run inp n).beats
    rw [if_neg (by simp [hs])] at hpend
    have hlen := answers_length hses.1 n hses.2.2.1
    have hwrites : writes inp n0 n = answers inp n0 n := by
      unfold writes answers
      congr 1
      funext m
      exact (coupled_run inp m).written_eq _
    rw [hwrites]
    exact ⟨by omega, hpend⟩
  display := by
    intro n0 n hses
    obtain ⟨k, hk⟩ := track_run hses
    exact hk.used

/-! ## Stray beats -/

/-- The inputs of a cycle with `avm_ReadDataValid` taken for a beat that may be owed or not. -/
def ofPorts (i : LcdMaster.Inputs) : Inputs :=
  ⟨i.startAdd, i.lengthBuffer, i.bufferSaved, i.write16, i.masterStart, i.fullFifo, i.emptyFifo,
    i.avmWaitRequest, i.avmReadDataValid, i.avmReadData⟩

/-- `Master_Interface` on its ports, from reset on. -/
def onPorts : Machine LcdMaster.Regs LcdMaster.Inputs := ⟨LcdMaster.reset, LcdMaster.clock⟩

/-- The same session: only in `New_Add`, which clears it, the beat counters may differ. -/
structure SameSession (r r' : LcdMaster.Regs) : Prop where
  state : r.state = r'.state
  add : r.add = r'.add
  endAdd : r.endAdd = r'.endAdd
  used : r.bufferUsed = r'.bufferUsed
  read : r.avmRead = r'.avmRead
  counter : r.state ≠ .newAdd → r.counterWord = r'.counterWord

/-- A beat that is not owed comes with the counter at 16, or in a state that does not look at it. -/
theorem SameSession.clock {p : LcdMaster.Regs} {r : Regs} (h : SameSession p r.master)
    (hc : Coupled r) (i : LcdMaster.Inputs) :
    SameSession (LcdMaster.clock p i) (LcdMaster.clock r.master (masterInputs r (ofPorts i))) := by
  obtain ⟨hst, hadd, hend, hused, hread, hcount⟩ := h
  cases hs : p.state with
  | readData =>
    have hs' := hst.symm.trans hs
    have hcw := hcount (by simp [hs])
    have hbeats := hc.beats
    rw [if_pos hs'] at hbeats
    rw [clock_readData hs, clock_readData hs', hcw]
    refine ⟨rfl, hadd, hend, hused, hread, fun hnew => ?_⟩
    by_cases h16 : r.master.counterWord = 16
    · simp [h16] at hnew
    · have hpos : 0 < r.pending := by
        have := hc.bus.word_le
        omega
      simp [masterInputs, ofPorts, avmReadDataValid, hpos]
  | newAdd =>
    rw [clock_newAdd hs, clock_newAdd (hst.symm.trans hs)]
    exact ⟨rfl, congrArg (· + 64) hadd, hend, hused, hread, fun _ => rfl⟩
  | init =>
    rw [clock_init hs, clock_init (hst.symm.trans hs)]
    exact ⟨rfl, rfl, rfl, rfl, rfl, fun _ => rfl⟩
  | copy =>
    rw [clock_copy hs, clock_copy (hst.symm.trans hs)]
    exact ⟨rfl, rfl, rfl, rfl, rfl, fun _ => hcount (by simp [hs])⟩
  | assertReadData =>
    rw [clock_assertReadData hs, clock_assertReadData (hst.symm.trans hs)]
    exact ⟨rfl, hadd, hend, hused, rfl, fun _ => hcount (by simp [hs])⟩
  | checkWaitRequest =>
    rw [clock_checkWaitRequest hs, clock_checkWaitRequest (hst.symm.trans hs), hread]
    exact ⟨rfl, hadd, hend, hused, rfl, fun _ => hcount (by simp [hs])⟩
  | checkAdd =>
    rw [clock_checkAdd hs, clock_checkAdd (hst.symm.trans hs), hadd, hend]
    exact ⟨rfl, rfl, rfl, hused, hread, fun _ => hcount (by simp [hs])⟩
  | checkFifo =>
    rw [clock_checkFifo hs, clock_checkFifo (hst.symm.trans hs)]
    exact ⟨rfl, hadd, hend, hused, hread, fun _ => hcount (by simp [hs])⟩
  | waitLcdControl =>
    rw [clock_waitLcdControl hs, clock_waitLcdControl (hst.symm.trans hs)]
    exact ⟨rfl, hadd, hend, hused, hread, fun _ => hcount (by simp [hs])⟩

/-- **Stray beats change nothing**: whatever `avm_ReadDataValid` does, the reads, the addresses and
the end of every session are those on a bus that returns owed beats only. -/
theorem stray_beats (inp : Nat → LcdMaster.Inputs) (n : Nat) :
    SameSession (onPorts.run inp n) (regs (fun k => ofPorts (inp k)) n).master := by
  induction n with
  | zero => exact ⟨rfl, rfl, rfl, rfl, rfl, fun _ => rfl⟩
  | succ n ih => exact ih.clock (coupled_run _ n) (inp n)

end CameraLcd.BurstRead
