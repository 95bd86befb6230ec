import CameraLcd.Lcd.Control

/-!
# Every write cycle on the LCD bus is complete

A run of `LCD_Control` from reset under arbitrary inputs.  Whatever the state graph does, time
`k` of a write cycle is cycle `m + k` for a first cycle `m`, and the cycle runs to time 8.

* `writeCycle_back`, `writeCycle_forward` — a cycle in a state that writes lies in a whole write
  cycle of that state.
* `writeCycle_pins` — the pins of it, when the word to write does not change under it.
* `writeCycles_wellFormed` — the timing the LCD sees.
-/

set_option autoImplicit false

namespace CameraLcd.LcdControl

/-- `LCD_Control` by itself. -/
def machine : Clocked.Machine Regs Inputs := ⟨reset, clock⟩

variable {inp : Nat → Inputs}

/-- The registers in cycle `n`. -/
def regs (inp : Nat → Inputs) (n : Nat) : Regs := machine.run inp n

theorem regs_succ (inp : Nat → Inputs) (n : Nat) :
    regs inp (n + 1) = clock (regs inp n) (inp n) := rfl

/-- The pins in cycle `n`. -/
def pinsAt (inp : Nat → Inputs) (n : Nat) : Pins := pins (regs inp n) (inp n)

/-- `WRX` in cycle `n`. -/
def wrxAt (inp : Nat → Inputs) (n : Nat) : Bool := (pinsAt inp n).wrx

/-- `Command_Data` does not change while the controller is in `Command` or `Data`. -/
def CommandHeld (inp : Nat → Inputs) : Prop :=
  ∀ n, (regs inp n).state = .command ∨ (regs inp n).state = .data →
    (regs inp (n + 1)).state = .command ∨ (regs inp (n + 1)).state = .data →
    (inp (n + 1)).commandData = (inp n).commandData

/-- `Read_FIFO_Data` changes in the cycle after a read request only. -/
def FifoHeld (inp : Nat → Inputs) : Prop :=
  ∀ n, readFifo (regs inp n) (inp n) = false → (inp (n + 1)).readFifoData = (inp n).readFifoData

/-! ## Whole write cycles -/

theorem countersOk_run (inp : Nat → Inputs) (n : Nat) : CountersOk (regs inp n) :=
  Clocked.Machine.run_invariant (M := machine) (I := CountersOk) countersOk_reset
    (fun r i h => CountersOk.edge (clock_edge r i) h) n

/-- An edge starts a write cycle, or goes on with it, or leads to a state that does not write. -/
theorem edge_time {r r' : Regs} {i : Inputs} (he : Edge r i r') (h : CountersOk r)
    (hw : writing r'.state = true) :
    r'.counterTime = 0 ∨
      writing r.state = true ∧ r'.state = r.state ∧ r'.counterTime = r.counterTime + 1 := by
  cases he with
  | init | commandDone | dataDone | displayDone | display16Done | endDisplayDone => exact .inl rfl
  | writing hw' => exact .inr ⟨hw', rfl, rfl⟩
  | checkCommand hs | checkMaster hs | empty hs | emptied16 hs | empty16 hs | endCommandData hs =>
    refine .inl (h.time_zero ?_)
    rw [hs]
    rfl

/-- A cycle in a state that writes lies in a write cycle that has begun at time 0. -/
theorem writeCycle_back (inp : Nat → Inputs) : ∀ n, writing (regs inp n).state = true →
    ∃ m, n = m + (regs inp n).counterTime ∧ (regs inp m).state = (regs inp n).state ∧
      (regs inp m).counterTime = 0
  | 0, _ => ⟨0, rfl, rfl, rfl⟩
  | n + 1, hw => by
    have he := clock_edge (regs inp n) (inp n)
    rw [← regs_succ] at he
    obtain h0 | ⟨hw', hst, ht⟩ := edge_time he (countersOk_run inp n) hw
    · exact ⟨n + 1, by omega, rfl, h0⟩
    · obtain ⟨m, hm, hsm, h0⟩ := writeCycle_back inp n hw'
      exact ⟨m, by omega, by rw [hst, hsm], h0⟩

/-- A write cycle that has begun runs to time 8 in the same state. -/
theorem writeCycle_forward {m : Nat} (hw : writing (regs inp m).state = true)
    (h0 : (regs inp m).counterTime = 0) :
    ∀ k ≤ 8, (regs inp (m + k)).state = (regs inp m).state ∧ (regs inp (m + k)).counterTime = k
  | 0, _ => ⟨rfl, h0⟩
  | k + 1, hk => by
    obtain ⟨hs, ht⟩ := writeCycle_forward hw h0 k (by omega)
    have hw' : writing (regs inp (m + k)).state = true := by rw [hs]; exact hw
    rw [← Nat.add_assoc, regs_succ, clock_writing _ hw' (by omega)]
    exact ⟨hs, by simp only [ht]⟩

/-- The level of `D_CX` in a write cycle. -/
def dcxOf : State → Bool
  | .command | .endDisplay => false
  | _ => true

/-- The word on `D` in a write cycle. -/
def wordOf (s : State) (i : Inputs) : BitVec 16 :=
  match s with
  | .command | .data => i.commandData
  | .display | .display16 => i.readFifoData
  | _ => 0

theorem pins_writing {r : Regs} (i : Inputs) (hw : writing r.state = true) :
    pins r i = writePins (dcxOf r.state) (wordOf r.state i) r.counterTime := by
  cases hs : r.state <;> simp [writing, hs] at hw <;> simp [pins, dcxOf, wordOf, hs]

/-- The word on `D` is not changed from one time of a write cycle to the next. -/
theorem wordOf_held (hc : CommandHeld inp) (hf : FifoHeld inp) {n : Nat} {s : State}
    (hw : writing s = true) (hs : (regs inp n).state = s) (hs' : (regs inp (n + 1)).state = s) :
    wordOf s (inp (n + 1)) = wordOf s (inp n) := by
  cases s with
  | init | checkCommand | checkMaster | empty | empty16 | endCommandData => simp [writing] at hw
  | command => exact hc n (.inl hs) (.inl hs')
  | data => exact hc n (.inr hs) (.inr hs')
  | display | display16 =>
    apply hf n
    simp [readFifo, hs]
  | endDisplay => rfl

/-- **The pins of a write cycle.** -/
theorem writeCycle_pins (hc : CommandHeld inp) (hf : FifoHeld inp) {m : Nat}
    (hw : writing (regs inp m).state = true) (h0 : (regs inp m).counterTime = 0) :
    ∀ k ≤ 8, pinsAt inp (m + k) =
      writePins (dcxOf (regs inp m).state) (wordOf (regs inp m).state (inp m)) k := by
  have hword : ∀ k ≤ 8,
      wordOf (regs inp m).state (inp (m + k)) = wordOf (regs inp m).state (inp m) := by
    intro k
    induction k with
    | zero => intro _; rfl
    | succ k ih =>
      intro hk
      rw [← ih (by omega)]
      exact wordOf_held hc hf hw (writeCycle_forward hw h0 k (by omega)).1
        (writeCycle_forward hw h0 (k + 1) hk).1
  intro k hk
  obtain ⟨hs, ht⟩ := writeCycle_forward hw h0 k hk
  unfold pinsAt
  rw [pins_writing _ (by rw [hs]; exact hw), hs, ht, hword k hk]

/-! ## Edges of `WRX` -/

theorem wrxAt_low (inp : Nat → Inputs) (n : Nat) : wrxAt inp n = false ↔
    writing (regs inp n).state = true ∧ (regs inp n).counterTime < 4 := wrx_low _ _

/-- A cycle with `WRX` low is one of the first four of a write cycle. -/
theorem writeCycle_of_low {n : Nat} (h : wrxAt inp n = false) :
    ∃ m, m ≤ n ∧ n < m + 4 ∧ writing (regs inp m).state = true ∧
      (regs inp m).counterTime = 0 := by
  obtain ⟨hw, ht⟩ := (wrxAt_low inp n).mp h
  obtain ⟨m, hm, hs, h0⟩ := writeCycle_back inp n hw
  exact ⟨m, by omega, by omega, by rw [hs]; exact hw, h0⟩

theorem wrxAt_writeCycle {m : Nat} (hw : writing (regs inp m).state = true)
    (h0 : (regs inp m).counterTime = 0) {k : Nat} (hk : k ≤ 8) :
    wrxAt inp (m + k) = decide (4 ≤ k) := by
  obtain ⟨hs, ht⟩ := writeCycle_forward hw h0 k hk
  have hlow := wrxAt_low inp (m + k)
  rw [hs, ht] at hlow
  by_cases h4 : 4 ≤ k
  · simp only [h4, decide_true]
    rw [← Bool.not_eq_false, hlow]
    omega
  · simp only [h4, decide_false]
    exact hlow.mpr ⟨hw, by omega⟩

/-- `WRX` rises at time 4 of a write cycle. -/
theorem writeCycle_of_rise {n : Nat} (h : Clocked.risingEdge (wrxAt inp) n = true) :
    ∃ m, n = m + 4 ∧ writing (regs inp m).state = true ∧ (regs inp m).counterTime = 0 := by
  cases n with
  | zero => simp [Clocked.risingEdge] at h
  | succ n =>
    simp only [Clocked.risingEdge, Bool.and_eq_true, Bool.not_eq_true'] at h
    obtain ⟨m, h1, h2, hw, h0⟩ := writeCycle_of_low h.1
    refine ⟨m, ?_, hw, h0⟩
    -- an earlier edge would leave `WRX` low
    have hn : n + 1 = m + (n + 1 - m) := by omega
    have hhigh := wrxAt_writeCycle hw h0 (show n + 1 - m ≤ 8 by omega)
    rw [← hn, h.2] at hhigh
    have h4 : 4 ≤ n + 1 - m := of_decide_eq_true hhigh.symm
    omega

theorem writeCycle_apart {m m' : Nat} (hw : writing (regs inp m).state = true)
    (h0 : (regs inp m).counterTime = 0) (h0' : (regs inp m').counterTime = 0) (h : m < m') :
    m + 9 ≤ m' := by
  by_contra hlt
  have ht := (writeCycle_forward hw h0 (m' - m) (by omega)).2
  rw [show m + (m' - m) = m' by omega, h0'] at ht
  omega

/-- The timing of the LCD bus. -/
structure WellFormed (inp : Nat → Inputs) : Prop where
  /-- `WRX` is high at first. -/
  wrx_reset : wrxAt inp 0 = true
  /-- A low pulse of `WRX` lasts four cycles. -/
  low_pulse : ∀ n, wrxAt inp n = true → wrxAt inp (n + 1) = false →
    (∀ k < 4, wrxAt inp (n + 1 + k) = false) ∧ wrxAt inp (n + 5) = true
  /-- At a rising edge of `WRX` the LCD is selected, and `D` and `D_CX` are stable from four
  cycles before the edge to four cycles from it on. -/
  strobed : ∀ n, Clocked.risingEdge (wrxAt inp) n = true →
    (pinsAt inp n).csx = false ∧ 4 ≤ n ∧
    ∀ k < 8, (pinsAt inp (n - 4 + k)).d = (pinsAt inp n).d ∧
      (pinsAt inp (n - 4 + k)).dcx = (pinsAt inp n).dcx
  /-- Two rising edges are nine cycles apart or more. -/
  apart : ∀ n n', Clocked.risingEdge (wrxAt inp) n = true →
    Clocked.risingEdge (wrxAt inp) n' = true → n < n' → n + 9 ≤ n'
  /-- A cycle in a state that writes lies in a write cycle with all of its times. -/
  complete : ∀ n, writing (regs inp n).state = true → ∃ m, m ≤ n ∧ n ≤ m + 8 ∧
    ∀ k ≤ 8, (regs inp (m + k)).state = (regs inp n).state ∧ (regs inp (m + k)).counterTime = k
  rdx : ∀ n, (pinsAt inp n).rdx = true
  time_le : ∀ n, (regs inp n).counterTime ≤ 8
  word_le : ∀ n, (regs inp n).counterWord ≤ 32

theorem pins_rdx (r : Regs) (i : Inputs) : (pins r i).rdx = true := by
  have hp : ∀ (dcx : Bool) (d : BitVec 16), (writePins dcx d r.counterTime).rdx = true := by
    intro dcx d
    unfold writePins
    split <;> rfl
  cases hs : r.state <;> simp [pins, hs, hp, idlePins]

/-- **Every LCD bus write cycle is well formed.** -/
theorem writeCycles_wellFormed (inp : Nat → Inputs) (hc : CommandHeld inp) (hf : FifoHeld inp) :
    WellFormed inp where
  wrx_reset := rfl
  low_pulse := by
    intro n hn hn'
    obtain ⟨m, h1, h2, hw, h0⟩ := writeCycle_of_low hn'
    -- the write cycle begins where `WRX` falls
    have hm : m = n + 1 := by
      by_contra hne
      have hlow := wrxAt_writeCycle hw h0 (show n - m ≤ 8 by omega)
      rw [show m + (n - m) = n by omega, hn] at hlow
      have h4 : 4 ≤ n - m := of_decide_eq_true hlow.symm
      omega
    subst hm
    refine ⟨?_, ?_⟩
    · intro k hk
      rw [wrxAt_writeCycle hw h0 (by omega)]
      exact decide_eq_false (by omega)
    · exact wrxAt_writeCycle hw h0 (show 4 ≤ 8 by omega)
  strobed := by
    intro n hn
    obtain ⟨m, rfl, hw, h0⟩ := writeCycle_of_rise hn
    have hpins := writeCycle_pins hc hf hw h0
    have h4 := hpins 4 (by omega)
    refine ⟨by rw [h4]; rfl, by omega, ?_⟩
    intro k hk
    rw [show m + 4 - 4 + k = m + k by omega, hpins k (by omega), h4]
    simp [writePins, show k ≠ 8 by omega]
  apart := by
    intro n n' hn hn' hlt
    obtain ⟨m, rfl, hw, h0⟩ := writeCycle_of_rise hn
    obtain ⟨m', rfl, -, h0'⟩ := writeCycle_of_rise hn'
    have := writeCycle_apart hw h0 h0' (by omega)
    omega
  complete := by
    intro n hw
    obtain ⟨m, hm, hs, h0⟩ := writeCycle_back inp n hw
    have h8 := (countersOk_run inp n).time_le
    refine ⟨m, by omega, by omega, ?_⟩
    intro k hk
    rw [← hs]
    exact writeCycle_forward (by rw [hs]; exact hw) h0 k hk
  rdx := fun n => pins_rdx _ _
  time_le := fun n => (countersOk_run inp n).time_le
  word_le := fun n => (countersOk_run inp n).word_le

theorem writeCycles_wellFormed_command :
    WellFormed (fun _ => ⟨0, true, true, false, 0x29, 1⟩) ∧
      Clocked.risingEdge (wrxAt (fun _ => ⟨0, true, true, false, 0x29, 1⟩)) 5 = true :=
  ⟨writeCycles_wellFormed _ (fun _ _ _ => rfl) (fun _ _ => rfl), by decide⟩

end CameraLcd.LcdControl
