import CameraLcd.Lcd.BurstRead

/-!
# Where the display's DMA stops

A session reads 64 bytes a burst and stops in `Check_Add` when `Add` *equals* `EndAdd`.  The
camera's side stores 32 bytes a burst and stops when its offset is *not below* the length.

* `EndsAtBuffer` — the session reads inside its buffer and ends with it.
* `endsAtBuffer_of_blocks` — it does when the length is a multiple of 64.
* `never_ends` — it does not for an odd multiple of 32: the session never ends, and
  `reads_on` says that it reads block after block behind the buffer.
* `endsAtBuffer_iff` — both together.
-/

set_option autoImplicit false

namespace CameraLcd.BurstRead

open Clocked LcdMaster

/-- The bus releases and answers reads again and again, and so does the controller take words. -/
structure Responsive (inp : Nat → Inputs) : Prop where
  accepts : Recurs (fun n => !(inp n).avmWaitRequest)
  beats : Recurs (fun n => (inp n).beat)
  write16 : Recurs (fun n => (inp n).write16)

/-- Cycle `n0` is the last `Copy` cycle of a session with the given parameters. -/
structure Opens (inp : Nat → Inputs) (startAdd lengthBuffer : BitVec 32) (bufferSaved : BitVec 2)
    (n0 : Nat) : Prop where
  state : (regs inp n0).master.state = .copy
  emptyFifo : (inp n0).emptyFifo = true
  startAdd : (inp n0).startAdd = startAdd
  lengthBuffer : (inp n0).lengthBuffer = lengthBuffer
  bufferSaved : (inp n0).bufferSaved = bufferSaved

/-- The bursts that a length of `l` bytes takes. -/
def blocks (l : Nat) : Nat := (l + 63) / 64

/-- The session from cycle `n0` on reads its buffer and stops. -/
structure EndsAtBuffer (inp : Nat → Inputs) (n0 : Nat) : Prop where
  /-- Every word of every read lies in the buffer. -/
  inside : ∀ n, Session inp n0 n → ∀ a ∈ accepts inp n0 n, ∀ w < 16,
    ∃ o < (inp n0).lengthBuffer.toNat,
      a + BitVec.ofNat 32 (4 * w) = addressOf (inp n0) 0 + BitVec.ofNat 32 o
  bursts : ∀ n, Session inp n0 n →
    (accepts inp n0 n).length ≤ blocks (inp n0).lengthBuffer.toNat
  /-- With the last burst complete the DMA is back in `Init` two cycles later. -/
  closes : ∀ n, Session inp n0 n → (regs inp n).master.state = .newAdd →
    (accepts inp n0 n).length = blocks (inp n0).lengthBuffer.toNat →
    (regs inp (n + 2)).master.state = .init
  returns : Responsive inp → ∃ n, n0 < n ∧ (regs inp n).master.state = .init

/-! ## Addresses -/

theorem addressOf_eq (i : Inputs) (k : Nat) :
    addressOf i k = addressOf i 0 + BitVec.ofNat 32 (64 * k) := by
  unfold addressOf
  rw [Nat.mul_zero, Nat.add_zero, BitVec.ofNat_add]

section Arithmetic

variable {inp : Nat → Inputs} {n0 n k : Nat} {startAdd lengthBuffer : BitVec 32}
  {bufferSaved : BitVec 2}

theorem Track.at_end (h : Track inp n0 n k) (hl : (inp n0).lengthBuffer.toNat < 0x40000000)
    (hb : (inp n0).bufferSaved.toNat ≤ 2) :
    (regs inp n).master.add = (regs inp n).master.endAdd ↔
      64 * k % 0x100000000 = (inp n0).lengthBuffer.toNat := by
  have hend : endOf (masterInputs (regs inp n0) (inp n0)) =
      addressOf (inp n0) 0 + BitVec.ofNat 32 (inp n0).lengthBuffer.toNat := by
    rw [endOf_eq hl hb, addressOf_zero]
    rfl
  rw [h.add, h.endAdd, hend, addressOf_eq, BitVec.add_right_inj]
  constructor
  · intro heq
    have hnat := congrArg BitVec.toNat heq
    simp only [BitVec.toNat_ofNat] at hnat
    omega
  · intro heq
    apply BitVec.eq_of_toNat_eq
    simp only [BitVec.toNat_ofNat]
    omega

/-- A session ends from `Check_Add` at the end address only. -/
theorem Track.init_succ (h : Track inp n0 n k)
    (hinit : (regs inp (n + 1)).master.state = .init) :
    (regs inp n).master.state = .checkAdd ∧
      (regs inp n).master.add = (regs inp n).master.endAdd := by
  rw [master_succ] at hinit
  cases hs : (regs inp n).master.state with
  | init => exact absurd hs h.reading.1
  | copy => exact absurd hs h.reading.2
  | assertReadData => simp [clock_assertReadData hs] at hinit
  | checkWaitRequest =>
    rw [clock_checkWaitRequest hs] at hinit
    simp only at hinit
    split at hinit <;> cases hinit
  | readData =>
    rw [clock_readData hs] at hinit
    simp only at hinit
    split at hinit <;> cases hinit
  | newAdd => simp [clock_newAdd hs] at hinit
  | checkAdd =>
    rw [clock_checkAdd hs] at hinit
    refine ⟨rfl, ?_⟩
    by_contra hne
    simp [hne] at hinit
  | checkFifo =>
    rw [clock_checkFifo hs] at hinit
    simp only at hinit
    split at hinit <;> cases hinit
  | waitLcdControl =>
    rw [clock_waitLcdControl hs] at hinit
    simp only at hinit
    split at hinit <;> cases hinit

end Arithmetic

/-! ## Progress of a session -/

section Progress

variable {inp : Nat → Inputs} {n0 n k : Nat}

/-- The session is in a state, after `k` bursts. -/
structure In (inp : Nat → Inputs) (n0 k : Nat) (s : State) (n : Nat) : Prop where
  later : n0 < n
  track : Track inp n0 n k
  state : (regs inp n).master.state = s

theorem In.next {s s' : State} (h : In inp n0 k s n) (hs : s ≠ .newAdd)
    (hs' : (regs inp (n + 1)).master.state = s') (hinit : s' ≠ .init) :
    In inp n0 k s' (n + 1) := by
  obtain ⟨hlt, htr, hst⟩ := h
  have hne : ¬ (regs inp n).master.state = .newAdd := by rw [hst]; exact hs
  rcases htr.step hlt with h0 | htr'
  · exact absurd (hs' ▸ h0) hinit
  · rw [if_neg hne] at htr'
    exact ⟨by omega, htr', hs'⟩

theorem In.accept (hr : Responsive inp) (h : In inp n0 k .assertReadData n) :
    ∃ m, n < m ∧ In inp n0 k .readData m ∧ (regs inp m).master.counterWord = 0 := by
  have hcheck : In inp n0 k .checkWaitRequest (n + 1) :=
    h.next (by simp) (by rw [master_succ, clock_assertReadData h.state]) (by simp)
  obtain ⟨m, hle, hm, hw⟩ := hr.accepts.wait (P := In inp n0 k .checkWaitRequest) (by
    intro m hm hw
    rw [Bool.not_eq_false'] at hw
    apply hm.next (by simp) _ (by simp)
    rw [master_succ, clock_checkWaitRequest hm.state]
    exact if_pos hw) hcheck
  rw [Bool.not_eq_true'] at hw
  have hc := (master_succ inp m).trans (clock_checkWaitRequest hm.state)
  have hnot : ¬ (masterInputs (regs inp m) (inp m)).avmWaitRequest = true := by
    rw [show (masterInputs (regs inp m) (inp m)).avmWaitRequest = false from hw]
    simp
  refine ⟨m + 1, by omega, hm.next (by simp) ?_ (by simp), ?_⟩
  · rw [hc]
    exact if_neg hnot
  · rw [hc]
    exact (coupled_run inp m).bus.word_zero (by simp [hm.state]) (by simp [hm.state])

theorem In.beat (hr : Responsive inp) {c : Nat} (hc : c < 16) (h : In inp n0 k .readData n)
    (hw : (regs inp n).master.counterWord = c) :
    ∃ m, n < m ∧ In inp n0 k .readData m ∧ (regs inp m).master.counterWord = c + 1 := by
  have hstay : ∀ m, In inp n0 k .readData m → (regs inp m).master.counterWord = c →
      In inp n0 k .readData (m + 1) := by
    intro m hm hcm
    apply hm.next (by simp) _ (by simp)
    rw [master_succ, clock_readData hm.state]
    exact if_neg (by omega)
  obtain ⟨m, hle, ⟨hm, hcm⟩, hb⟩ := hr.beats.wait
    (P := fun m => In inp n0 k .readData m ∧ (regs inp m).master.counterWord = c) (by
      intro m hm hb
      refine ⟨hstay m hm.1 hm.2, ?_⟩
      rw [master_succ, clock_readData hm.1.state]
      simp [masterInputs, avmReadDataValid, hb, hm.2]) ⟨h, hw⟩
  refine ⟨m + 1, by omega, hstay m hm hcm, ?_⟩
  have hpend := (coupled_run inp m).beats
  rw [if_pos hm.state, hcm] at hpend
  rw [master_succ, clock_readData hm.state]
  simp [masterInputs, avmReadDataValid, hb, hcm, show c ≠ 16 by omega,
    show 0 < (regs inp m).pending by omega]

theorem In.beats (hr : Responsive inp) (h : In inp n0 k .readData n)
    (hw : (regs inp n).master.counterWord = 0) :
    ∀ c ≤ 16, ∃ m, n ≤ m ∧ In inp n0 k .readData m ∧ (regs inp m).master.counterWord = c
  | 0, _ => ⟨n, Nat.le_refl _, h, hw⟩
  | c + 1, hc => by
    obtain ⟨m, hle, hm, hcm⟩ := In.beats hr h hw c (by omega)
    obtain ⟨m', hlt, hm'⟩ := hm.beat hr (by omega) hcm
    exact ⟨m', by omega, hm'⟩

theorem In.burst (hr : Responsive inp) (h : In inp n0 k .assertReadData n) :
    ∃ m, n < m ∧ In inp n0 (k + 1) .checkAdd m ∧ addressOf (inp n0) k ∈ accepts inp n0 m := by
  obtain ⟨m1, hlt1, h1, hw1⟩ := h.accept hr
  obtain ⟨m, hle, hm, h16⟩ := h1.beats hr hw1 16 (Nat.le_refl _)
  have hnew : In inp n0 k .newAdd (m + 1) := by
    apply hm.next (by simp) _ (by simp)
    rw [master_succ, clock_readData hm.state]
    exact if_pos h16
  have hst : (regs inp (m + 2)).master.state = .checkAdd := by
    rw [show m + 2 = (m + 1) + 1 from rfl, master_succ, clock_newAdd hnew.state]
  rcases hnew.track.step hnew.later with h0 | htr
  · rw [show m + 1 + 1 = m + 2 from rfl, hst] at h0
    cases h0
  · rw [if_pos hnew.state] at htr
    refine ⟨m + 2, by omega, ⟨by have := hnew.later; omega, htr, hst⟩, ?_⟩
    rw [htr.reads]
    apply List.mem_map_of_mem
    rw [List.mem_range]
    omega

theorem In.again (hr : Responsive inp) (h : In inp n0 k .checkAdd n)
    (hne : (regs inp n).master.add ≠ (regs inp n).master.endAdd) :
    ∃ m, n < m ∧ In inp n0 k .assertReadData m := by
  have hfifo : In inp n0 k .checkFifo (n + 1) := by
    apply h.next (by simp) _ (by simp)
    rw [master_succ, clock_checkAdd h.state]
    exact if_neg hne
  have hc := (master_succ inp (n + 1)).trans (clock_checkFifo hfifo.state)
  cases hf : (inp (n + 1)).fullFifo with
  | false =>
    refine ⟨n + 2, by omega, hfifo.next (by simp) ?_ (by simp)⟩
    rw [hc]
    exact if_neg (by simp [masterInputs, hf])
  | true =>
    have hwait : In inp n0 k .waitLcdControl (n + 2) := by
      apply hfifo.next (by simp) _ (by simp)
      rw [hc]
      exact if_pos hf
    obtain ⟨m, hle, hm, hw⟩ := hr.write16.wait (P := In inp n0 k .waitLcdControl) (by
      intro m hm hw
      apply hm.next (by simp) _ (by simp)
      rw [master_succ, clock_waitLcdControl hm.state]
      exact if_neg (by simp [masterInputs, hw])) hwait
    refine ⟨m + 1, by omega, hm.next (by simp) ?_ (by simp)⟩
    rw [master_succ, clock_waitLcdControl hm.state]
    exact if_pos hw

/-- **A session that has not met its end address goes on.** -/
theorem In.run (hr : Responsive inp) (h : In inp n0 0 .assertReadData n) :
    ∀ k, (∀ m j, j ≤ k → 0 < j → In inp n0 j .checkAdd m →
      (regs inp m).master.add ≠ (regs inp m).master.endAdd) →
    ∃ m, n ≤ m ∧ In inp n0 k .assertReadData m
  | 0, _ => ⟨n, Nat.le_refl _, h⟩
  | k + 1, hne => by
    obtain ⟨m, hle, hm⟩ := In.run hr h k (fun m j hj => hne m j (by omega))
    obtain ⟨m1, hlt1, h1, -⟩ := hm.burst hr
    obtain ⟨m2, hlt2, h2⟩ := h1.again hr (hne m1 (k + 1) (Nat.le_refl _) (by omega) h1)
    exact ⟨m2, by omega, h2⟩

end Progress

/-! ## Whole blocks -/

section Blocks

variable {inp : Nat → Inputs} {n0 n : Nat}

theorem within_run (hpos : 0 < (inp n0).lengthBuffer.toNat)
    (hl : (inp n0).lengthBuffer.toNat < 0x40000000) (hb : (inp n0).bufferSaved.toNat ≤ 2)
    (h64 : (inp n0).lengthBuffer.toNat % 64 = 0) (hses : Session inp n0 n) :
    ∃ k, Track inp n0 n k ∧ 64 * k ≤ (inp n0).lengthBuffer.toNat ∧
      (64 * k = (inp n0).lengthBuffer.toNat → (regs inp n).master.state = .checkAdd) := by
  obtain ⟨hs, he, hlt, hbusy⟩ := hses
  induction n, hlt using Nat.le_induction with
  | base => exact ⟨0, (track_open hs he).1, by omega, by omega⟩
  | succ n hle ih =>
    obtain ⟨k, htr, hk, hlast⟩ := ih (fun m h1 h2 => hbusy m h1 (by omega))
    have hno := hbusy (n + 1) (by omega) (Nat.le_refl _)
    rcases htr.step hle with hinit | htr'
    · exact absurd hinit hno
    · refine ⟨_, htr', ?_⟩
      by_cases hnew : (regs inp n).master.state = .newAdd
      · have hshort : 64 * k ≠ (inp n0).lengthBuffer.toNat := by
          intro heq
          rw [hlast heq] at hnew
          cases hnew
        rw [if_pos hnew]
        refine ⟨by omega, ?_⟩
        intro _
        rw [master_succ, clock_newAdd hnew]
      · rw [if_neg hnew]
        refine ⟨hk, ?_⟩
        intro heq
        -- at the end address the session would be over
        have hend := (htr.at_end hl hb).mpr (by omega)
        exfalso
        apply hno
        rw [master_succ, clock_checkAdd (hlast heq)]
        exact if_pos hend

theorem accepts_within (hpos : 0 < (inp n0).lengthBuffer.toNat)
    (hl : (inp n0).lengthBuffer.toNat < 0x40000000) (hb : (inp n0).bufferSaved.toNat ≤ 2)
    (h64 : (inp n0).lengthBuffer.toNat % 64 = 0) (hses : Session inp n0 n) :
    64 * (accepts inp n0 n).length ≤ (inp n0).lengthBuffer.toNat := by
  obtain ⟨k, htr, hk, hlast⟩ := within_run hpos hl hb h64 hses
  rw [htr.reads, List.length_map, List.length_range]
  unfold ahead
  split
  · rename_i hst
    have hshort : 64 * k ≠ (inp n0).lengthBuffer.toNat := by
      intro heq
      rw [hlast heq] at hst
      simp at hst
    omega
  · exact hk

/-- **A buffer of whole blocks is read to its end and no further.** -/
theorem endsAtBuffer_of_blocks (hpos : 0 < (inp n0).lengthBuffer.toNat)
    (hl : (inp n0).lengthBuffer.toNat < 0x40000000) (hb : (inp n0).bufferSaved.toNat ≤ 2)
    (h64 : (inp n0).lengthBuffer.toNat % 64 = 0) (hs : (regs inp n0).master.state = .copy)
    (he : (inp n0).emptyFifo = true) : EndsAtBuffer inp n0 where
  inside := by
    intro n hses a ha w hw
    obtain ⟨k, htr⟩ := track_run hses
    have hlen := accepts_within hpos hl hb h64 hses
    rw [htr.reads, List.length_map, List.length_range] at hlen
    rw [htr.reads, List.mem_map] at ha
    obtain ⟨j, hj, rfl⟩ := ha
    rw [List.mem_range] at hj
    refine ⟨64 * j + 4 * w, by omega, ?_⟩
    rw [addressOf_eq, BitVec.add_assoc, ← BitVec.ofNat_add]
  bursts := by
    intro n hses
    have hlen := accepts_within hpos hl hb h64 hses
    unfold blocks
    omega
  closes := by
    intro n hses hst hlen
    obtain ⟨k, htr⟩ := track_run hses
    have hrun := htr.step hses.2.2.1
    rw [if_pos hst] at hrun
    have hc := (master_succ inp n).trans (clock_newAdd hst)
    have hst' : (regs inp (n + 1)).master.state = .checkAdd := by rw [hc]
    rcases hrun with hinit | htr'
    · rw [hst'] at hinit
      cases hinit
    · rw [htr.reads, List.length_map, List.length_range, hst] at hlen
      unfold blocks ahead at hlen
      rw [if_pos (by simp)] at hlen
      rw [show n + 2 = (n + 1) + 1 from rfl, master_succ, clock_checkAdd hst']
      exact if_pos ((htr'.at_end hl hb).mpr (by omega))
  returns := by
    intro hr
    obtain ⟨htr, hst⟩ := track_open hs he
    have hshort : ∀ m j, j ≤ (inp n0).lengthBuffer.toNat / 64 - 1 → 0 < j →
        In inp n0 j .checkAdd m →
        (regs inp m).master.add ≠ (regs inp m).master.endAdd := by
      intro m j hj _ hin heq
      have := (hin.track.at_end hl hb).mp heq
      omega
    obtain ⟨m, -, hm⟩ := In.run hr ⟨by omega, htr, hst⟩ _ hshort
    obtain ⟨m', hlt, hm', -⟩ := hm.burst hr
    refine ⟨m' + 1, by have := hm.later; omega, ?_⟩
    rw [master_succ, clock_checkAdd hm'.state]
    exact if_pos ((hm'.track.at_end hl hb).mpr (by omega))

/-! ## Half a block more -/

/-- **After an odd multiple of 32 bytes the end address is never met.** -/
theorem never_ends (hl : (inp n0).lengthBuffer.toNat < 0x40000000)
    (hb : (inp n0).bufferSaved.toNat ≤ 2) (hodd : (inp n0).lengthBuffer.toNat % 64 ≠ 0)
    (hs : (regs inp n0).master.state = .copy) (he : (inp n0).emptyFifo = true) :
    ∀ n, n0 < n → ∃ k, Track inp n0 n k := by
  intro n hlt
  induction n, hlt using Nat.le_induction with
  | base => exact ⟨0, (track_open hs he).1⟩
  | succ n hle ih =>
    obtain ⟨k, htr⟩ := ih
    rcases htr.step hle with hinit | htr'
    · have := (htr.at_end hl hb).mp (htr.init_succ hinit).2
      omega
    · exact ⟨_, htr'⟩

/-- **The DMA reads on behind the buffer**: every block is read, round the whole memory. -/
theorem reads_on (hr : Responsive inp) (hl : (inp n0).lengthBuffer.toNat < 0x40000000)
    (hb : (inp n0).bufferSaved.toNat ≤ 2) (hodd : (inp n0).lengthBuffer.toNat % 64 ≠ 0)
    (hs : (regs inp n0).master.state = .copy) (he : (inp n0).emptyFifo = true) (k : Nat) :
    ∃ n, n0 < n ∧ addressOf (inp n0) k ∈ accepts inp n0 n := by
  obtain ⟨htr, hst⟩ := track_open hs he
  have hnever : ∀ m j, j ≤ k → 0 < j → In inp n0 j .checkAdd m →
      (regs inp m).master.add ≠ (regs inp m).master.endAdd := by
    intro m j _ _ hin heq
    have := (hin.track.at_end hl hb).mp heq
    omega
  obtain ⟨m, -, hm⟩ := In.run hr ⟨by omega, htr, hst⟩ k hnever
  obtain ⟨m', hlt, -, hmem⟩ := hm.burst hr
  exact ⟨m', by have := hm.later; omega, hmem⟩

end Blocks

/-! ## The lengths that work -/

/-- A bus without stalls, a FIFO with room and a controller that always starts the DMA. -/
def promptInputs (startAdd lengthBuffer : BitVec 32) (bufferSaved : BitVec 2) : Nat → Inputs :=
  fun _ => ⟨startAdd, lengthBuffer, bufferSaved, true, true, false, true, false, true, 0⟩

theorem promptInputs_responsive (startAdd lengthBuffer : BitVec 32) (bufferSaved : BitVec 2) :
    Responsive (promptInputs startAdd lengthBuffer bufferSaved) :=
  ⟨fun n => ⟨n, Nat.le_refl n, rfl⟩, fun n => ⟨n, Nat.le_refl n, rfl⟩,
    fun n => ⟨n, Nat.le_refl n, rfl⟩⟩

theorem promptInputs_opens (startAdd lengthBuffer : BitVec 32) (bufferSaved : BitVec 2) :
    Opens (promptInputs startAdd lengthBuffer bufferSaved) startAdd lengthBuffer bufferSaved 1 :=
  ⟨rfl, rfl, rfl, rfl, rfl⟩

/-- **The DMA ends at the end of the buffer exactly for whole blocks of 64 bytes.** -/
theorem endsAtBuffer_iff (startAdd lengthBuffer : BitVec 32) (bufferSaved : BitVec 2)
    (hb : bufferSaved.toNat ≤ 2) (hpos : 0 < lengthBuffer.toNat)
    (hl : lengthBuffer.toNat < 0x40000000) :
    (∀ inp n0, Opens inp startAdd lengthBuffer bufferSaved n0 → EndsAtBuffer inp n0) ↔
      lengthBuffer.toNat % 64 = 0 := by
  constructor
  · intro hall
    by_contra hodd
    have hopen := promptInputs_opens startAdd lengthBuffer bufferSaved
    obtain ⟨n, hlt, hinit⟩ := (hall _ 1 hopen).returns
      (promptInputs_responsive startAdd lengthBuffer bufferSaved)
    obtain ⟨k, htr⟩ := never_ends hl hb hodd hopen.state hopen.emptyFifo n hlt
    exact htr.reading.1 hinit
  · intro h64 inp n0 hopen
    have hlen := hopen.lengthBuffer
    have hbuf := hopen.bufferSaved
    exact endsAtBuffer_of_blocks (by rw [hlen]; exact hpos) (by rw [hlen]; exact hl)
      (by rw [hbuf]; exact hb) (by rw [hlen]; exact h64) hopen.state hopen.emptyFifo

theorem endsAtBuffer_iff_block :
    EndsAtBuffer (promptInputs 0x1000 64 2) 1 :=
  (endsAtBuffer_iff 0x1000 64 2 (by decide) (by decide) (by decide)).mpr (by decide) _ 1
    (promptInputs_opens _ _ _)

/-- With a length of 96 bytes the DMA reads three bursts and goes on: the second burst reads 32
bytes behind the buffer, the third lies there altogether. -/
theorem endsAtBuffer_fails :
    Opens (promptInputs 0 96 0) 0 96 0 1 ∧ accepts (promptInputs 0 96 0) 1 60 = [0, 64, 128] ∧
      ¬ EndsAtBuffer (promptInputs 0 96 0) 1 := by
  have hreads : accepts (promptInputs 0 96 0) 1 60 = [0, 64, 128] := by decide +kernel
  refine ⟨promptInputs_opens _ _ _, hreads, ?_⟩
  intro h
  obtain ⟨n, hlt, hinit⟩ := h.returns (promptInputs_responsive _ _ _)
  obtain ⟨k, htr⟩ := never_ends (by decide) (by decide) (by decide)
    (promptInputs_opens 0 96 0).state rfl n hlt
  exact htr.reading.1 hinit

end CameraLcd.BurstRead
