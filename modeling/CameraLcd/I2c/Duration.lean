import CameraLcd.I2c.Bus

/-!
# How long a command takes

* `left` — the states a command still goes through; `left_step`: every edge leaves the state or
  brings the divider's enable closer.
* `tip_bound` — TIP is low again within `60 * (divisor + 2)` cycles, whatever the command, the
  device and the software.
-/

set_option autoImplicit false

namespace CameraLcd.I2c

open Clocked I2cBus

section Commands

variable {σ : Type} {dev : Device σ} {o : Outcome} {c : Command} {l : Line} {tick : Bool}
  {k : Core} {p : Pulse} {d : BitVec 8} {a : Bool}

/-- States that a command still has to go through, the present one included. -/
def left (c : Command) (s : State) (i : Nat) : Nat :=
  let tail := if c.stop then 3 else 0
  match s with
  | .startA => 55 + tail
  | .startB => 54 + tail
  | .startC => 53 + tail
  | .startD => 52 + tail
  | .wrA => 5 * (7 - i) + 9 + tail
  | .wrB => 5 * (7 - i) + 8 + tail
  | .wrC => 5 * (7 - i) + 7 + tail
  | .wrD => 5 * (7 - i) + 6 + tail
  | .wrE => 5 * (7 - i) + 5 + tail
  | .rdA => 6 * (7 - i) + 9 + tail
  | .rdB => 6 * (7 - i) + 8 + tail
  | .rdC => 6 * (7 - i) + 7 + tail
  | .rdD => 6 * (7 - i) + 6 + tail
  | .rdE => 6 * (7 - i) + 5 + tail
  | .rdF => 6 * (7 - i) + 4 + tail
  | .rdAckA => 5 + tail
  | .rdAckB | .wrAckA => 4 + tail
  | .rdAckC | .wrAckB => 3 + tail
  | .rdAckD | .wrAckC => 2 + tail
  | .rdAckE | .wrAckD => 1 + tail
  | .stopA => 3
  | .stopB => 2
  | .stopC => 1
  | .reset | .idle | .done | .doneAck => 0

/-- The same for the core as it stands. -/
def Core.left (k : Core) (c : Command) : Nat := I2c.left c k.pState k.iCtr.toNat

theorem Holds.left {s : State} {i : Nat} (r : Holds k s i d a) : k.left c = I2c.left c s i := by
  rw [Core.left, r.pState, r.iCtr]

theorem left_le (c : Command) (s : State) (i : Nat) : I2c.left c s i ≤ 58 := by
  have htail : (if c.stop then 3 else 0) ≤ 3 := by
    split <;> omega
  unfold I2c.left
  generalize (if c.stop then 3 else 0) = tail at htail
  cases s <;> simp only <;> omega

/-- An enabled state is left with the divider's enable. -/
theorem left_plain {s : State} {i : Nat} (r : Holds k s i d a)
    (h : (comb k (portsOf c l tick)).plain = true)
    (hlt : I2c.left c (comb k (portsOf c l tick)).nState i < I2c.left c s i) :
    (k.clock (portsOf c l tick)).left c < k.left c ∨
      tick = false ∧ (k.clock (portsOf c l tick)).left c = k.left c := by
  have hr := r.plain h
  rw [hr.left, r.left]
  cases tick with
  | false => exact .inr ⟨rfl, rfl⟩
  | true => exact .inl hlt

/-- **Progress**: an edge either leaves the state or brings the enable closer. -/
theorem left_step (hgo : (c.read || c.write) = true) (h : Serving dev o c k l tick) :
    (k.clock (portsOf c l tick)).left c < k.left c ∨
      tick = false ∧ (k.clock (portsOf c l tick)).left c = k.left c := by
  cases h with
  | startA r hs todo line =>
    refine left_plain r ?_ ?_ <;> simp [comb, r.pState, Comb.plain, I2c.left]
  | startB r hs todo line =>
    refine left_plain r ?_ ?_ <;> simp [comb, r.pState, Comb.plain, I2c.left]
  | startC r line =>
    refine left_plain r ?_ ?_ <;> simp [comb, r.pState, Comb.plain, I2c.left]
  | startD r todo line =>
    refine left_plain r ?_ ?_
    · simp [comb, r.pState, Comb.plain]
    · cases hw : c.write with
      | true => simp [comb, r.pState, portsOf, hw, I2c.left]
      | false =>
        have hrd : c.read = true := by simpa [hw] using hgo
        simp [comb, r.pState, portsOf, hw, hrd, I2c.left]
  | low p d a r hw hb todo line =>
    have ho := comb_low l tick hw r
    refine left_plain r (by rw [ho]; rfl) ?_
    rw [ho]
    cases p <;> simp [Pulse.low, Pulse.rise, Pulse.counter, I2c.left]
  | rise p d a r hw hb todo line =>
    have ho := comb_rise l tick hw r
    refine left_plain r (by rw [ho]; rfl) ?_
    rw [ho]
    cases p <;> simp [Pulse.rise, Pulse.high, Pulse.counter, I2c.left]
  | high p d a r hw hb todo line =>
    cases p with
    | sent i =>
      have ho := comb_late (p := .sent i) l tick hw r
      refine left_plain r (by rw [ho]; rfl) ?_
      rw [ho]
      simp [Pulse.high, Pulse.fall, Pulse.counter, I2c.left]
    | ackOut =>
      have ho := comb_late (p := .ackOut) l tick hw r
      refine left_plain r (by rw [ho]; rfl) ?_
      rw [ho]
      simp [Pulse.high, Pulse.fall, I2c.left]
    | ackIn =>
      left
      simp [Core.left, Core.clock, comb, r.pState, Pulse.high, Comb.moves, I2c.left]
    | received i =>
      left
      simp [Core.left, Core.clock, comb, r.pState, Pulse.high, Comb.moves, I2c.left]
  | late p d a r hp hw hb todo line =>
    have ho := comb_late l tick hw r
    refine left_plain r (by rw [ho]; rfl) ?_
    rw [ho]
    cases p <;> simp [Pulse.late, Pulse.fall, Pulse.counter, I2c.left]
  | fall p d a r hw line =>
    have ho := comb_fall l tick hw r
    refine left_plain r (by rw [ho]; rfl) ?_
    rw [ho]
    cases p with
    | sent i =>
      by_cases h7 : i = 7
      · subst h7
        simp [Pulse.fall, Pulse.counter, afterFall, r.ctr_eq_seven.mpr rfl, I2c.left]
      · have hne : k.iCtr ≠ 7 := fun h => h7 (r.ctr_eq_seven.mp h)
        simp only [afterFall, if_neg hne, Pulse.fall, Pulse.counter, I2c.left]
        omega
    | received i =>
      by_cases h7 : i = 7
      · subst h7
        simp [Pulse.fall, Pulse.counter, afterFall, r.ctr_eq_seven.mpr rfl, I2c.left]
      · have hne : k.iCtr ≠ 7 := fun h => h7 (r.ctr_eq_seven.mp h)
        simp only [afterFall, if_neg hne, Pulse.fall, Pulse.counter, I2c.left]
        omega
    | ackIn => cases hs : c.stop <;> simp [Pulse.fall, afterFall, hs, I2c.left]
    | ackOut => cases hs : c.stop <;> simp [Pulse.fall, afterFall, hs, I2c.left]
  | wrE i r hi hw todo line =>
    left
    have ho : comb k (portsOf c l tick) =
        { nState := .wrA, iCtrIncr := true, iSdaOut := selectedBit k.iCtr c.data
          iSclOut := false } := by
      simp [comb, r.pState, portsOf]
    have hr := r.incr hi ho
    rw [hr.left, r.left]
    simp only [I2c.left]
    omega
  | rdF i d r hi hw hd todo line =>
    left
    have ho : comb k (portsOf c l tick) =
        { nState := .rdA, iCtrIncr := true, iSdaOut := true, iSclOut := false } := by
      simp [comb, r.pState]
    have hr := r.incr hi ho
    rw [hr.left, r.left]
    simp only [I2c.left]
    omega
  | stopA d a r ha todo line =>
    refine left_plain r ?_ ?_ <;> simp [comb, r.pState, Comb.plain, I2c.left]
  | stopB d a r ha todo line =>
    refine left_plain r ?_ ?_ <;> simp [comb, r.pState, Comb.plain, I2c.left]
  | stopC d a r ha line =>
    refine left_plain r ?_ ?_ <;> simp [comb, r.pState, Comb.plain, I2c.left]

/-- Cycles that a command still takes, counted with the divider. -/
def work (c : Command) (k : Core) (gen : Clkgen) (div : BitVec 8) : Nat :=
  k.left c * (div.toNat + 2) + gen.wait div

theorem work_step (hgo : (c.read || c.write) = true) {gen : Clkgen} (div : BitVec 8)
    (h : Serving dev o c k l gen.iClkOut) :
    work c (k.clock (portsOf c l gen.iClkOut)) (gen.clock div) div < work c k gen div := by
  unfold work
  obtain hlt | ⟨htick, heq⟩ := left_step hgo h
  · have hmul := Nat.mul_le_mul_right (div.toNat + 2) hlt
    rw [Nat.succ_mul] at hmul
    have hwait := (gen.clock div).wait_le div
    omega
  · have hwait := Clkgen.wait_clock div htick
    rw [heq]
    omega

end Commands

/-! ## Runs -/

/-- The divisor is closed to the software while TIP is high. -/
theorem clkdiv_pending {r : Regs} {a : Access} (ht : r.tip = true) :
    (r.dataInSync a).iClkdiv = r.iClkdiv := by
  have hne : ¬ r.tip = false := by simp [ht]
  unfold Regs.dataInSync
  rw [if_neg hne]
  split <;> rfl

/-- `work` when a command begins. -/
theorem work_lt (c : Command) (k : Core) (gen : Clkgen) (div : BitVec 8) :
    work c k gen div < 59 * (div.toNat + 2) := by
  have hleft : k.left c ≤ 58 := left_le c _ _
  have hwait := gen.wait_le div
  have hmul := Nat.mul_le_mul_right (div.toNat + 2) hleft
  unfold work
  omega

section Paths

variable {σ : Type} {dev : Device σ} {S : Nat → Scene} {inp : Nat → Inputs}

variable (dev S inp) in
/-- Consecutive scenes under a stream of inputs. -/
def Path : Prop := ∀ k, S (k + 1) = (S k).step dev (inp k)

/-- **A command is served** within the cycles counted by `work`. -/
theorem served_after (hpath : Path dev S inp) (w : Nat) : ∀ (n : Nat) (prev : List Command)
    (c : Command), (∀ k, n ≤ k → k < n + w → Sound dev (S k)) →
    Pending prev c (S n) → (S n).hw.core.cmdDone = false →
    Serving dev (outcome dev prev) c (S n).hw.core (S n).line (S n).hw.clkgen.iClkOut →
    work c (S n).hw.core (S n).hw.clkgen (S n).hw.iClkdiv < w →
    ∃ m, n < m ∧ m ≤ n + w ∧ Pending prev c (S m) ∧ (S m).hw.core.cmdDone = false ∧
      (S m).hw.core.pState = .done := by
  induction w with
  | zero => exact fun n prev c _ _ _ _ hw => absurd hw (Nat.not_lt_zero _)
  | succ w ih =>
    intro n prev c hsound hc hdone hs hw
    obtain ⟨hj, hdiv, -⟩ := hsound n (Nat.le_refl n) (by omega)
    have hports := hc.ports (hj.sync (serving_state hs).1)
    obtain ⟨⟨hc', hdone'⟩, hs'⟩ := pending_step (i := inp n) hj hdiv hc hdone hs
    rw [← hpath n] at hc' hdone' hs'
    obtain hs' | hs' := hs'
    · have hwork := work_step hc.go (S n).hw.iClkdiv hs
      rw [← hports] at hwork
      have hkeep : (S (n + 1)).hw.iClkdiv = (S n).hw.iClkdiv := by
        rw [hpath n]
        exact clkdiv_pending hc.tip
      have hlt : work c (S (n + 1)).hw.core (S (n + 1)).hw.clkgen (S (n + 1)).hw.iClkdiv < w := by
        rw [hkeep, hpath n]
        exact Nat.lt_of_lt_of_le hwork (Nat.le_of_lt_succ hw)
      obtain ⟨m, hnm, hmw, hm⟩ := ih (n + 1) prev c (fun k hk hkw => hsound k (by omega) (by omega))
        hc' hdone' hs' hlt
      exact ⟨m, by omega, by omega, hm⟩
    · exact ⟨n + 1, by omega, by omega, hc', hdone', hs'.pState⟩

/-- Two cycles after `Done`, TIP is low. -/
theorem tip_after_done (hpath : Path dev S inp) {m : Nat} {prev : List Command} {c : Command}
    (hc : Pending prev c (S m)) (hdone : (S m).hw.core.cmdDone = false)
    (hp : (S m).hw.core.pState = .done) : (S (m + 2)).hw.tip = false := by
  have hc' : Pending prev c (S (m + 1)) := by
    rw [hpath m]
    exact hc.step hdone
  have hdone' : (S (m + 1)).hw.core.cmdDone = true := by
    rw [hpath m]
    show (comb (S m).hw.core _).iCmdDone = true
    simp only [comb, hp]
  rw [hpath (m + 1)]
  exact tip_done hc'.tip hdone'

theorem tip_after_serving (hpath : Path dev S inp) {n b : Nat} {prev : List Command}
    {c : Command} (hb : b = 59 * ((S n).hw.iClkdiv.toNat + 2))
    (hsound : ∀ k, n ≤ k → k < n + b → Sound dev (S k)) (hc : Pending prev c (S n))
    (hdone : (S n).hw.core.cmdDone = false)
    (hs : Serving dev (outcome dev prev) c (S n).hw.core (S n).line (S n).hw.clkgen.iClkOut) :
    ∃ m, n < m ∧ m ≤ n + b + 2 ∧ (S m).hw.tip = false := by
  obtain ⟨m, hnm, hmb, hc', hdone', hp⟩ :=
    served_after hpath b n prev c hsound hc hdone hs (hb ▸ work_lt c _ _ _)
  exact ⟨m + 2, by omega, by omega, tip_after_done hpath hc' hdone' hp⟩

/-- **Every transfer ends**, whatever else goes on meanwhile. -/
theorem tip_low_within (hpath : Path dev S inp) {n b : Nat}
    (hb : b = 60 * ((S n).hw.iClkdiv.toNat + 2))
    (hsound : ∀ k, n ≤ k → k < n + b → Sound dev (S k)) :
    ∃ m, n ≤ m ∧ m ≤ n + b ∧ (S m).hw.tip = false := by
  obtain ⟨hj, hdiv, hy⟩ := hsound n (Nat.le_refl n) (by omega)
  have hpos : 1 ≤ (S n).hw.iClkdiv.toNat := by
    rw [Nat.one_le_iff_ne_zero]
    intro h0
    exact hdiv (BitVec.eq_of_toNat_eq h0)
  cases hj.stand with
  | reset hs | quiet hs | closing hs => exact ⟨n, by omega, by omega, hs.tip⟩
  | armed prev c hc hp hdone hlog hlar hdata line =>
    have hkeep : (S (n + 1)).hw.iClkdiv = (S n).hw.iClkdiv := by
      rw [hpath n]
      exact clkdiv_pending hc.tip
    obtain ⟨⟨hc', hdone'⟩, hs⟩ := armed_step (i := inp n) hj hc hp hdone hlog hlar hdata line hy
    rw [← hpath n] at hc' hdone' hs
    obtain ⟨m, hnm, hmb, hm⟩ := tip_after_serving hpath (n := n + 1)
      (b := 59 * ((S n).hw.iClkdiv.toNat + 2)) (by rw [hkeep])
      (fun k hk hkb => hsound k (by omega) (by omega)) hc' hdone' hs
    exact ⟨m, by omega, by omega, hm⟩
  | serving prev c hc hdone hs =>
    obtain ⟨m, hnm, hmb, hm⟩ := tip_after_serving hpath rfl
      (fun k hk hkb => hsound k (by omega) (by omega)) hc hdone hs
    exact ⟨m, by omega, by omega, hm⟩
  | served prev c hc hdone hs =>
    exact ⟨n + 2, by omega, by omega, tip_after_done hpath hc hdone hs.pState⟩
  | reported prev c hc hdone hp ha todo line =>
    refine ⟨n + 1, by omega, by omega, ?_⟩
    rw [hpath n]
    exact tip_done hc.tip hdone

end Paths

/-- **The length of a transfer**: in every run TIP is low again within `60 * (divisor + 2)`
cycles. -/
theorem tip_bound {σ : Type} (dev : Device σ) (sclIn sdaIn : Bool) (inp : Nat → Inputs) (n : Nat)
    (h : Polite dev sclIn sdaIn inp
      (n + 60 * ((scene dev sclIn sdaIn inp n).hw.iClkdiv.toNat + 2))) :
    ∃ m, n ≤ m ∧ m ≤ n + 60 * ((scene dev sclIn sdaIn inp n).hw.iClkdiv.toNat + 2) ∧
      (scene dev sclIn sdaIn inp m).hw.tip = false :=
  tip_low_within (S := scene dev sclIn sdaIn inp) (fun _ => rfl) rfl
    fun _ _ hk => sound_run h hk

theorem tip_bound_oneCommand : ∃ m, 2 ≤ m ∧
    m ≤ 2 + 60 * ((scene nobody true true oneCommand 2).hw.iClkdiv.toNat + 2) ∧
      (scene nobody true true oneCommand m).hw.tip = false :=
  tip_bound nobody true true oneCommand 2 (oneCommand_polite _)

end CameraLcd.I2c
