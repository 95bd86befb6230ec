import CameraLcd.Sensor.Generator

/-!
# The generator plays

* `Player` — the generator without its state machine: a configuration, the two pulses of the
  command register, and, while it plays, the cycles since its start.
* `plays_run` — whatever is read and written, the generator is in step with the player;
  `generator_plays` — so its outputs and its read port are the player's.
* `stop_silences_iff` — when a STOP command is lost.
-/

set_option autoImplicit false

namespace CameraLcd.Sensor

open Clocked RegisterProgram Waveform

variable {w p : Nat}

/-- The generator as its users see it. -/
structure Player (w : Nat) where
  config : Fields w
  start : Bool
  stop : Bool
  /-- The gap before the first row, and the cycles since the start. -/
  playing : Option (Nat × Nat)
  rddata : BitVec 32

namespace Player

def reset : Player w := ⟨⟨1, 1, 1, 0, 1, 0⟩, false, false, none, 0⟩

def step (r : Player w) (a : Access (BitVec 3) (BitVec 32)) : Player w where
  config := nextConfig r.config r.playing.isNone a
  start := commands true a && r.playing.isNone
  stop := commands false a && r.playing.isSome
  playing :=
    match r.playing with
    -- a configuration that is written in this very cycle does not decide whether there is a gap
    | none =>
      if r.start then some (lead (nextConfig r.config true a) r.config, 0) else none
    | some (g, k) => if r.stop then none else some (g, k + 1)
  rddata := readValue r.config r.playing.isNone a

def ports (r : Player w) : Output p :=
  match r.playing with
  | none => low
  | some (g, k) => if k < g then blank else signal r.config (k - g)

variable {r : Player w} (a : Access (BitVec 3) (BitVec 32))

theorem step_silent (hp : r.playing = none) (hs : r.start = false) : (r.step a).playing = none := by
  simp [step, hp, hs]

theorem step_starts (hp : r.playing = none) (hs : r.start = true) :
    ∃ g, (r.step a).playing = some (g, 0) := by
  simp [step, hp, hs]

theorem step_plays {g k : Nat} (hp : r.playing = some (g, k)) (hs : r.stop = false) :
    (r.step a).playing = some (g, k + 1) := by
  simp [step, hp, hs]

theorem step_stops {x : Nat × Nat} (hp : r.playing = some x) (hs : r.stop = true) :
    (r.step a).playing = none := by
  simp [step, hp, hs]

/-- A playing generator keeps its configuration. -/
theorem step_config {x : Nat × Nat} (hp : r.playing = some x) : (r.step a).config = r.config := by
  cases a <;> simp [step, nextConfig, hp]

end Player

/-- From a reset. -/
def generator (w : Nat) : Machine (Regs w) (Access (BitVec 3) (BitVec 32)) :=
  ⟨Regs.reset, Regs.clock⟩

def player (w : Nat) : Machine (Player w) (Access (BitVec 3) (BitVec 32)) :=
  ⟨Player.reset, Player.step⟩

/-! ## The refinement -/

/-- A core that has played `k` cycles. -/
def Plays (c : Fields w) (m : Core w) : Option (Nat × Nat) → Prop
  | none => m.state = .idle
  | some (g, k) => ∃ c' m', g = lead c c' ∧
      m = (Core.next c false false)^[k] (Core.enterFrame c' m')

theorem enterFrame_busy (c : Fields w) (m : Core w) : (m.enterFrame c).state ≠ .idle := by
  unfold Core.enterFrame Core.enterValid
  split <;> simp

theorem leaveValid_busy (c : Fields w) {m : Core w} (h : m.state ≠ .idle) :
    (m.leaveValid c).state ≠ .idle := by
  unfold Core.leaveValid
  split
  · simp
  · split
    · split <;> simp
    · exact h

/-- A busy core does not look at the start pulse. -/
theorem next_busy (c : Fields w) (start stop : Bool) {m : Core w} (h : m.state ≠ .idle) :
    m.next c start stop = m.next c false stop := by
  cases hs : m.state with
  | idle => exact absurd hs h
  | _ => simp [Core.next, hs]

theorem next_stop (c : Fields w) (start : Bool) {m : Core w} (h : m.state ≠ .idle) :
    (m.next c start true).state = .idle := by
  cases hs : m.state with
  | idle => exact absurd hs h
  | _ => simp [Core.next, Core.busy, hs]

theorem busy_stays {m : Core w} {leave : Core w → Core w} (done : Bool) (hm : m.state ≠ .idle)
    (hl : (leave m).state ≠ .idle) : (m.busy false done leave).state ≠ .idle := by
  cases done with
  | false => exact hm
  | true => exact hl

/-- Left alone, a busy core stays busy. -/
theorem next_stays (c : Fields w) {m : Core w} (h : m.state ≠ .idle) :
    (m.next c false false).state ≠ .idle := by
  cases hs : m.state with
  | idle => exact absurd hs h
  | frameFrameBlank =>
    simp only [Core.next, hs]
    exact busy_stays _ State.noConfusion (enterFrame_busy c _)
  | frameLineBlank | lineLineBlank | lineFrameBlank =>
    simp only [Core.next, hs]
    exact busy_stays _ State.noConfusion State.noConfusion
  | valid =>
    simp only [Core.next, hs]
    exact busy_stays _ State.noConfusion (leaveValid_busy c State.noConfusion)

theorem Plays.busy {c : Fields w} {m : Core w} {g k : Nat} (h : Plays c m (some (g, k))) :
    m.state ≠ .idle := by
  obtain ⟨c', m', -, rfl⟩ := h
  induction k with
  | zero => exact enterFrame_busy c' m'
  | succ k ih =>
    rw [Function.iterate_succ_apply']
    exact next_stays c ih

theorem Plays.idle {c : Fields w} {m : Core w} {x : Option (Nat × Nat)} (h : Plays c m x) :
    decide (m.state = .idle) = x.isNone := by
  cases x with
  | none => exact decide_eq_true h
  | some gk => exact decide_eq_false (Plays.busy (g := gk.1) (k := gk.2) h)

/-- What a playing core shows. -/
theorem Plays.output (hw : 0 < w) {c : Fields w} {m : Core w} {g k : Nat}
    (h : Plays c m (some (g, k))) :
    Sensor.output (p := p) c m = if k < g then blank else signal c (k - g) := by
  obtain ⟨c', m', rfl, rfl⟩ := h
  have hlead := shows_lead (p := p) c c' m'
  have hlen : (List.replicate (lead c c') (blank (p := p))).length = lead c c' :=
    List.length_replicate
  split
  · rename_i hk
    rw [hlead.get (hlen.symm ▸ hk), List.getElem_replicate]
  · rename_i hk
    have hrows := hlen ▸ hlead.after
    rw [← follows_rows (p := p) c hw hrows (k - lead c c'), ← Function.iterate_add_apply,
      Nat.sub_add_cancel (not_lt.mp hk)]

/-- The generator and the player in step. -/
structure InStep (r : Regs w) (a : Player w) : Prop where
  config : r.config = a.config
  start : r.start = a.start
  stop : r.stop = a.stop
  core : Plays r.config r.core a.playing
  rddata : r.rddata = a.rddata

theorem inStep_clock {r : Regs w} {a : Player w} (h : InStep r a)
    (i : Access (BitVec 3) (BitVec 32)) : InStep (r.clock i) (a.step i) := by
  have hidle : r.isIdle = a.playing.isNone := h.core.idle
  have hbusy : (!r.isIdle) = a.playing.isSome := by
    rw [hidle, Option.not_isNone]
  refine ⟨?_, ?_, ?_, ?_, ?_⟩
  · rw [Regs.clock, Player.step, h.config, hidle]
  · rw [Regs.clock, Player.step, hidle]
  · rw [Regs.clock, Player.step, hbusy]
  · have hcore := h.core
    show Plays (nextConfig r.config r.isIdle i) (r.core.next r.config r.start r.stop) _
    simp only [Player.step]
    cases hp : a.playing with
    | none =>
      rw [hp] at hcore
      have hs : r.core.state = .idle := hcore
      rw [hidle, hp, ← h.start, ← h.config]
      cases hstart : r.start with
      | false =>
        show (r.core.next r.config false r.stop).state = .idle
        simp only [Core.next, hs]
        exact hs
      | true => exact ⟨r.config, r.core, rfl, by simp [Core.next, hs]⟩
    | some gk =>
      obtain ⟨g, k⟩ := gk
      rw [hp] at hcore
      have hne := hcore.busy
      -- a busy generator keeps its configuration
      have hconfig : nextConfig r.config r.isIdle i = r.config := by
        rw [hidle, hp]
        cases i <;> rfl
      rw [hconfig, ← h.stop]
      cases hstop : r.stop with
      | true => exact next_stop r.config r.start hne
      | false =>
        obtain ⟨c', m', hg, hm⟩ := hcore
        refine ⟨c', m', hg, ?_⟩
        rw [next_busy r.config r.start false hne, hm, Function.iterate_succ_apply']
  · rw [Regs.clock, Player.step, h.config, hidle]

variable (inp : Nat → Access (BitVec 3) (BitVec 32))

theorem plays_run (n : Nat) : InStep ((generator w).run inp n) ((player w).run inp n) := by
  induction n with
  | zero => exact ⟨rfl, rfl, rfl, rfl, rfl⟩
  | succ n ih => exact inStep_clock ih (inp n)

theorem InStep.ports (hw : 0 < w) {r : Regs w} {a : Player w} (h : InStep r a) :
    r.ports (p := p) = a.ports := by
  have hcore := h.core
  unfold Regs.ports Player.ports
  cases hp : a.playing with
  | none =>
    rw [hp] at hcore
    have hs : r.core.state = .idle := hcore
    simp [output, hs]
  | some gk =>
    rw [hp] at hcore
    rw [hcore.output hw, h.config]

/-- **The generator plays**: for every sequence of accesses its outputs and its read port are those
of the player. -/
theorem generator_plays (hw : 0 < w) (n : Nat) :
    ((generator w).run inp n).ports (p := p) = ((player w).run inp n).ports ∧
      ((generator w).run inp n).rddata = ((player w).run inp n).rddata :=
  ⟨(plays_run inp n).ports hw, (plays_run inp n).rddata⟩

/-- START in cycle 0, STOP in cycle 20. -/
def startStop : Nat → Access (BitVec 3) (BitVec 32)
  | 0 => .write commandOfst 1
  | 20 => .write commandOfst 0
  | _ => .none

/-- The frames of one sample of the reset configuration have their sample in every second cycle. -/
theorem generator_plays_startStop :
    ((generator 11).run startStop 6).ports (p := 12) =
        ((player 11).run startStop 6).ports ∧
      ((player 11).run startStop 6).ports (p := 12) = ⟨true, true, 0⟩ :=
  ⟨(generator_plays startStop (by decide) 6).1, by decide⟩

/-! ## Commands that are lost -/

theorem commands_stop {a : Access (BitVec 3) (BitVec 32)} (h : commands false a = true) :
    commands true a = false := by
  cases a with
  | write addr d =>
    simp only [commands, Bool.and_eq_true, beq_iff_eq] at h
    simp only [commands, h.2]
    simp
  | _ => rfl

/-- A first sample comes again. -/
theorem signal_recurs (c : Fields w) :
    ∃ k, 0 < k ∧ (signal (p := p) c k).frameValid = true := by
  by_cases hH : c.frameHeight = 0
  · exact ⟨1, Nat.one_pos, by rw [signal, if_pos hH]; rfl⟩
  · refine ⟨(period (p := p) c).length, period_pos c, ?_⟩
    have hrow : 0 < (row (p := p) c 0).length := by
      rw [row, List.length_map, List.length_range]
      exact Nat.succ_pos _
    have hfirst : getElem (period (p := p) c) 0 (period_pos c) = pixel c 0 0 := by
      simp only [period]
      rw [List.getElem_append_left hrow]
      simp [row]
    rw [signal, if_neg hH]
    simp only [Nat.mod_self]
    rw [hfirst]
    rfl

/-- Nothing starts a silent player but a START command. -/
theorem silent_from {n : Nat} (hp : ((player w).run inp n).playing = none)
    (hs : ((player w).run inp n).start = false)
    (hlast : ∀ m, n ≤ m → commands true (inp m) = false) :
    ∀ m, n ≤ m → ((player w).run inp m).playing = none ∧ ((player w).run inp m).start = false := by
  intro m hm
  induction m, hm using Nat.le_induction with
  | base => exact ⟨hp, hs⟩
  | succ m hm ih =>
    exact ⟨Player.step_silent (inp m) ih.1 ih.2, by simp [player, Player.step, hlast m hm]⟩

/-- Nothing stops a player but a STOP command. -/
theorem plays_from {n g : Nat} (hp : ((player w).run inp n).playing = some (g, 0))
    (hs : ((player w).run inp n).stop = false)
    (hlast : ∀ m, n ≤ m → commands false (inp m) = false) (k : Nat) :
    ((player w).run inp (n + k)).playing = some (g, k) ∧
      ((player w).run inp (n + k)).stop = false := by
  induction k with
  | zero => exact ⟨hp, hs⟩
  | succ k ih =>
    exact ⟨Player.step_plays (inp (n + k)) ih.1 ih.2,
      by simp [player, Player.step, ← Nat.add_assoc, hlast (n + k) (by omega)]⟩

/-- **When a STOP command is lost**: a STOP that is the last command silences the generator from
the second cycle after it, unless it is written in the cycle in which a START becomes effective. -/
theorem stop_silences_iff (hw : 0 < w) {n : Nat} (hstop : commands false (inp n) = true)
    (hlast : ∀ m, n < m → ∀ b, commands b (inp m) = false) :
    (∀ m, n + 2 ≤ m → ((generator w).run inp m).ports (p := p) = low) ↔
      ¬(((generator w).run inp n).isIdle = true ∧ ((generator w).run inp n).start = true) := by
  have hstart := commands_stop hstop
  have hsync := plays_run (w := w) inp n
  have hidle : ((generator w).run inp n).isIdle = ((player w).run inp n).playing.isNone :=
    hsync.core.idle
  have hports : ∀ m, ((generator w).run inp m).ports (p := p) = ((player w).run inp m).ports :=
    fun m => (plays_run inp m).ports hw
  simp only [hports, hidle, hsync.start]
  have hnext : ((player w).run inp (n + 1)).start = false := by
    simp [player, Player.step, hstart]
  have hnext2 : ((player w).run inp (n + 2)).start = false := by
    rw [Machine.run_succ]
    simp [player, Player.step, hlast (n + 1) (by omega)]
  have hlow : ∀ {m}, ((player w).run inp m).playing = none →
      ((player w).run inp m).ports (p := p) = low := by
    intro m hm
    simp [Player.ports, hm]
  constructor
  · -- a START that becomes effective is not stopped
    intro hall ⟨hnone, hst⟩
    have hp : ((player w).run inp n).playing = none := Option.isNone_iff_eq_none.mp hnone
    obtain ⟨g, hg⟩ := Player.step_starts (inp n) hp hst
    have hns : (((player w).run inp n).step (inp n)).stop = false := by
      simp [Player.step, hp]
    have hplay := plays_from inp (n := n + 1) hg hns fun m hm => hlast m (by omega) false
    obtain ⟨k, hk, hvalid⟩ := signal_recurs (p := p) ((player w).run inp (n + 1)).config
    have hconfig : ∀ j, ((player w).run inp (n + 1 + j)).config =
        ((player w).run inp (n + 1)).config := by
      intro j
      induction j with
      | zero => rfl
      | succ j ih => exact (Player.step_config _ (hplay j).1).trans ih
    have hout := hall (n + 1 + (g + k)) (by omega)
    rw [Player.ports, (hplay (g + k)).1, hconfig] at hout
    dsimp only at hout
    rw [if_neg (by omega), Nat.add_sub_cancel_left] at hout
    rw [hout] at hvalid
    exact absurd hvalid Bool.false_ne_true
  · intro hno m hm
    cases hp : ((player w).run inp n).playing with
    | none =>
      have hs : ((player w).run inp n).start = false := by
        rw [hp] at hno
        simpa using hno
      exact hlow (silent_from inp (n := n + 1) (Player.step_silent (inp n) hp hs) hnext
        (fun m hm => hlast m (by omega) true) m (by omega)).1
    | some gk =>
      have hst : (((player w).run inp n).step (inp n)).stop = true := by
        simp [Player.step, hp, hstop]
      have hp2 : ((player w).run inp (n + 2)).playing = none := by
        cases hp1 : ((player w).run inp (n + 1)).playing with
        | none => exact Player.step_silent (inp (n + 1)) hp1 hnext
        | some gk' => exact Player.step_stops (inp (n + 1)) hp1 hst
      exact hlow (silent_from inp hp2 hnext2 (fun m hm => hlast m (by omega) true) m hm).1

/-- A STOP to a generator that has been playing for a while. -/
theorem stop_silences_startStop :
    ((generator 11).run startStop 20).ports (p := 12) = ⟨true, true, 0⟩ ∧
      ∀ m, 20 + 2 ≤ m → ((generator 11).run startStop m).ports (p := 12) = low := by
  constructor
  · decide
  · apply (stop_silences_iff startStop (by decide) (n := 20) (by decide) ?_).mpr (by decide)
    intro m hm b
    have hnone : startStop m = .none := by
      unfold startStop
      split
      · omega
      · omega
      · rfl
    rw [hnone]
    rfl

end CameraLcd.Sensor
