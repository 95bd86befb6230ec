import Mathlib.Data.Nat.Find
import CameraLcd.Sensor.Player

/-!
# `cmos_sensor_output_generator.c`: the driver of the generator

* `writeReg` and its six instances, `init`, `configure`, `start`, `stop` — the functions of the
  driver as programs of register accesses.
* `Sight`, `sight` — the generator as its software may use it: stopped, or running and then only
  looked at; `generator_simulates` — the generator simulates that description.
* `configure_exec` — what `configure` returns and what it leaves in the registers.
* `driver_plays` — from power-up, `init`, `configure` and `start` give silence and then the frames
  of the configuration, whatever the timing of the processor.
* `reconfigure_race` — `configure` on a running generator succeeds if the processor does not read
  the status in the cycle after its STOP.
-/

set_option autoImplicit false

namespace CameraLcd.Sensor

open Clocked RegisterProgram Waveform

variable {w p : Nat}

/-- Code that accesses the registers at `base + 4 * 0, …, base + 4 * 7`. -/
abbrev Driver (α : Type) := Prog (BitVec 3) 32 α

/-- The fields of `cmos_sensor_output_generator_dev` that the driver looks at. -/
structure Dev where
  maxWidth : BitVec 32
  maxHeight : BitVec 32

/-- `max_reg_value`. -/
def Dev.maxRegValue (dev : Dev) : BitVec 32 :=
  if dev.maxWidth > dev.maxHeight then dev.maxWidth else dev.maxHeight

/-- The `CONFIG_*_MIN` of `cmos_sensor_output_generator_regs.h`. -/
def minima : Fields 32 := ⟨3, 3, 3, 3, 3, 3⟩

/-- `is_idle`. -/
def isIdle : Driver Bool := .read statusOfst fun d => .ret (d == 1)

/-- `lower_bound_valid && upper_bound_valid`. -/
def inBounds (dev : Dev) (min value : BitVec 32) : Bool :=
  decide (min ≤ value) && decide (value ≤ dev.maxRegValue)

/-- The `write_*_reg`: the status is read only if the bounds are met. -/
def writeReg (dev : Dev) (ofst : BitVec 3) (min value : BitVec 32) : Driver Bool :=
  if inBounds dev min value then do
    if ← isIdle then
      .write ofst value (.ret true)
    else
      return false
  else return false

def writeFrameWidthReg (dev : Dev) := writeReg dev 0 minima.frameWidth
def writeFrameHeightReg (dev : Dev) := writeReg dev 1 minima.frameHeight
def writeFrameFrameBlankReg (dev : Dev) := writeReg dev 2 minima.frameFrameBlank
def writeFrameLineBlankReg (dev : Dev) := writeReg dev 3 minima.frameLineBlank
def writeLineLineBlankReg (dev : Dev) := writeReg dev 4 minima.lineLineBlank
def writeLineFrameBlankReg (dev : Dev) := writeReg dev 5 minima.lineFrameBlank

/-- `cmos_sensor_output_generator_start`. -/
def start : Driver Unit := .write commandOfst 1 (.ret ())

/-- `cmos_sensor_output_generator_stop`. -/
def stop : Driver Unit := .write commandOfst 0 (.ret ())

/-- The six writes of `configure`, after `success &= …` has been `success` so far. -/
def writeRegs (dev : Dev) (v : Fields 32) (success : Bool) : Driver Bool := do
  let b1 ← writeFrameHeightReg dev v.frameHeight
  let b2 ← writeFrameFrameBlankReg dev v.frameFrameBlank
  let b3 ← writeFrameLineBlankReg dev v.frameLineBlank
  let b4 ← writeLineLineBlankReg dev v.lineLineBlank
  let b5 ← writeLineFrameBlankReg dev v.lineFrameBlank
  return success && b1 && b2 && b3 && b4 && b5

/-- `cmos_sensor_output_generator_configure`. -/
def configure (dev : Dev) (v : Fields 32) : Driver Bool := do
  stop
  let b0 ← writeFrameWidthReg dev v.frameWidth
  writeRegs dev v b0

/-- `cmos_sensor_output_generator_init`; the results are dropped. -/
def init (dev : Dev) : Driver Unit := do
  stop
  let _ ← writeFrameWidthReg dev minima.frameWidth
  let _ ← writeFrameHeightReg dev minima.frameHeight
  let _ ← writeFrameFrameBlankReg dev minima.frameFrameBlank
  let _ ← writeFrameLineBlankReg dev minima.frameLineBlank
  let _ ← writeLineLineBlankReg dev minima.lineLineBlank
  let _ ← writeLineFrameBlankReg dev minima.lineFrameBlank
  return ()

/-- The calls of the demo, with the result of `configure`. -/
def demo (dev : Dev) (v : Fields 32) : Driver Bool := do
  init dev
  stop
  let success ← configure dev v
  start
  return success

/-! ## The generator as its software sees it -/

structure Sight (w : Nat) where
  config : Fields w
  running : Bool
  deriving DecidableEq, Repr

/-- A stopped generator takes every write, a running one no more than another START. -/
def Sight.write (t : Sight w) (addr : BitVec 3) (d : BitVec 32) : Option (Sight w) :=
  if t.running then
    if addr = commandOfst ∧ d.getLsbD 0 = true then some t else none
  else if addr = commandOfst then some { t with running := d.getLsbD 0 }
  else some { t with config := writeConfig t.config addr d }

/-- The status of a generator that has just been started is open. -/
def sight (w : Nat) : Spec (BitVec 3) 32 (Sight w) where
  write := Sight.write
  read t addr :=
    if t.running ∧ addr = statusOfst then none else some (readValue t.config true (.read addr))
  test _ _ _ := none
  poll _ _ _ := none

/-- The slave of the generator. -/
def slave (w : Nat) : Peripheral (BitVec 3) 32 (Regs w) Unit where
  step r a _ := r.clock a
  readdata := Regs.rddata

/-- The generator is where its software takes it to be. -/
structure Seen (t : Sight w) (r : Regs w) : Prop where
  config : r.config = t.config
  stop : r.stop = false
  stopped : t.running = false → r.isIdle = true ∧ r.start = false
  running : t.running = true → r.isIdle = true → r.start = true

section Edges

variable {t t' : Sight w} {r : Regs w} {a : Access (BitVec 3) (BitVec 32)}

/-- A command is no configuration. -/
theorem nextConfig_command (c : Fields w) (idle : Bool) (d : BitVec 32) :
    nextConfig c idle (.write commandOfst d) = c := by
  cases idle <;> rfl

/-- A running generator is busy after every edge. -/
theorem Seen.busy (h : Seen t r) (ht : t.running = true) : (r.clock a).isIdle = false := by
  show decide ((r.core.next r.config r.start r.stop).state = .idle) = false
  rw [decide_eq_false_iff_not, h.stop]
  by_cases hs : r.core.state = .idle
  · have hstart : r.start = true := h.running ht (decide_eq_true hs)
    simp only [Core.next, hs, hstart, if_true]
    exact enterFrame_busy r.config r.core
  · rw [next_busy r.config r.start false hs]
    exact next_stays r.config hs

/-- A stopped generator is idle after every edge. -/
theorem Seen.rests (h : Seen t r) (ht : t.running = false) : (r.clock a).isIdle = true := by
  obtain ⟨hidle, hstart⟩ := h.stopped ht
  have hs : r.core.state = .idle := of_decide_eq_true hidle
  show decide ((r.core.next r.config r.start r.stop).state = .idle) = true
  rw [decide_eq_true_eq, hstart]
  simp only [Core.next, hs]
  exact hs

/-- Accesses that command nothing and write nothing. -/
theorem Seen.keep (h : Seen t r) (hc : nextConfig r.config r.isIdle a = r.config)
    (h1 : commands true a = false) (h0 : commands false a = false) : Seen t (r.clock a) where
  config := hc.trans h.config
  stop := by simp [Regs.clock, h0]
  stopped ht := ⟨h.rests ht, by simp [Regs.clock, h1]⟩
  running ht hi := absurd hi (by rw [h.busy ht]; exact Bool.false_ne_true)

theorem Seen.written (h : Seen t r) {addr : BitVec 3} {d : BitVec 32}
    (hw : t.write addr d = some t') : Seen t' (r.clock (.write addr d)) := by
  unfold Sight.write at hw
  split at hw
  · rename_i ht
    split at hw
    · rename_i hcmd
      cases hw
      obtain ⟨rfl, hd⟩ := hcmd
      -- another START
      refine ⟨?_, ?_, fun hf => absurd (ht.symm.trans hf) Bool.false_ne_true.symm, fun _ hi => ?_⟩
      · refine Eq.trans ?_ h.config
        show nextConfig r.config r.isIdle (.write commandOfst d) = r.config
        exact nextConfig_command _ _ _
      · simp only [Regs.clock, commands, hd]
        simp
      · rw [h.busy ht] at hi
        exact absurd hi Bool.false_ne_true
    · cases hw
  · rename_i ht
    have ht := Bool.eq_false_iff.mpr ht
    obtain ⟨hidle, hstart⟩ := h.stopped ht
    split at hw
    · rename_i haddr
      cases hw
      subst haddr
      have hconfig : (r.clock (.write commandOfst d)).config = t.config := by
        refine Eq.trans ?_ h.config
        show nextConfig r.config r.isIdle (.write commandOfst d) = r.config
        exact nextConfig_command _ _ _
      have hst : (r.clock (.write commandOfst d)).start = d.getLsbD 0 := by
        simp only [Regs.clock, commands, hidle]
        simp
      refine ⟨hconfig, by simp [Regs.clock, hidle], fun hf => ⟨h.rests ht, ?_⟩, fun hr _ => ?_⟩
      · exact hst.trans hf
      · exact hst.trans hr
    · rename_i haddr
      cases hw
      refine ⟨?_, by simp [Regs.clock, hidle], fun _ => ⟨h.rests ht, ?_⟩,
        fun hr => absurd (ht.symm.trans hr) Bool.false_ne_true⟩
      · show nextConfig r.config r.isIdle (.write addr d) = writeConfig t.config addr d
        rw [hidle, h.config]
        rfl
      · simp [Regs.clock, commands, haddr]

end Edges

/-- **The generator simulates the description.** -/
theorem generator_simulates : Simulates (slave w) (sight w) Seen (fun _ => True) where
  idle _ h := h.keep rfl rfl rfl
  read _ _ h := h.keep rfl rfl rfl
  write _ h hw _ := h.written hw
  readdata {t r addr d} _ h hr := by
    simp only [sight] at hr
    split at hr
    · cases hr
    · rename_i hopen
      cases hr
      show readValue r.config r.isIdle (.read addr) = _
      cases ht : t.running with
      | false => rw [h.config, (h.stopped ht).1]
      | true =>
        have hne : addr ≠ statusOfst := fun h => hopen ⟨ht, h⟩
        simp only [readValue, if_neg hne, h.config]
  test _ _ hr := by cases hr
  poll _ _ hr := by cases hr
  good_write _ _ := trivial
  good_poll _ _ := trivial

theorem generator_settles : Settles (slave w) (sight w) Seen :=
  fun _ _ _ _ _ _ _ hp => by cases hp

/-! ## The functions on the description -/

/-- A register after `write_*_reg`. -/
def chosen (dev : Dev) (min value : BitVec 32) (old : BitVec w) : BitVec w :=
  if inBounds dev min value then value.setWidth w else old

/-- The registers after `configure`. -/
def configured (dev : Dev) (v : Fields 32) (c : Fields w) : Fields w where
  frameWidth := chosen dev minima.frameWidth v.frameWidth c.frameWidth
  frameHeight := chosen dev minima.frameHeight v.frameHeight c.frameHeight
  frameFrameBlank := chosen dev minima.frameFrameBlank v.frameFrameBlank c.frameFrameBlank
  frameLineBlank := chosen dev minima.frameLineBlank v.frameLineBlank c.frameLineBlank
  lineLineBlank := chosen dev minima.lineLineBlank v.lineLineBlank c.lineLineBlank
  lineFrameBlank := chosen dev minima.lineFrameBlank v.lineFrameBlank c.lineFrameBlank

/-- All values but the width are within their bounds. -/
def restInBounds (dev : Dev) (v : Fields 32) : Bool :=
  inBounds dev minima.frameHeight v.frameHeight &&
    inBounds dev minima.frameFrameBlank v.frameFrameBlank &&
    inBounds dev minima.frameLineBlank v.frameLineBlank &&
    inBounds dev minima.lineLineBlank v.lineLineBlank &&
    inBounds dev minima.lineFrameBlank v.lineFrameBlank

/-- All values are within their bounds. -/
def allInBounds (dev : Dev) (v : Fields 32) : Bool :=
  inBounds dev minima.frameWidth v.frameWidth && restInBounds dev v

variable {c : Fields w} (dev : Dev) (v : Fields 32)

/-- A register of a stopped generator; `c'` is the configuration with it. -/
theorem writeReg_exec {ofst : BitVec 3} (hofst : ofst ≠ commandOfst) {min value : BitVec 32}
    {c' : Fields w} (hc : (if inBounds dev min value then writeConfig c ofst value else c) = c') :
    exec (sight w) (writeReg dev ofst min value) ⟨c, false⟩ =
      some (inBounds dev min value, ⟨c', false⟩) := by
  subst hc
  unfold writeReg
  cases hb : inBounds dev min value with
  | false => rfl
  | true =>
    have hidle : exec (sight w) isIdle ⟨c, false⟩ = some (true, ⟨c, false⟩) := rfl
    show exec (sight w) (isIdle >>= _) _ = _
    rw [exec_seq (sight w) hidle]
    simp only [if_true, exec, sight, Sight.write, if_neg hofst]
    rfl

section Registers

variable (x : BitVec 32)

theorem writeFrameWidthReg_exec : exec (sight w) (writeFrameWidthReg dev x) ⟨c, false⟩ =
    some (inBounds dev minima.frameWidth x,
      ⟨{ c with frameWidth := chosen dev minima.frameWidth x c.frameWidth }, false⟩) :=
  writeReg_exec dev (by decide) (by unfold chosen; split <;> rfl)

theorem writeFrameHeightReg_exec : exec (sight w) (writeFrameHeightReg dev x) ⟨c, false⟩ =
    some (inBounds dev minima.frameHeight x,
      ⟨{ c with frameHeight := chosen dev minima.frameHeight x c.frameHeight }, false⟩) :=
  writeReg_exec dev (by decide) (by unfold chosen; split <;> rfl)

theorem writeFrameFrameBlankReg_exec : exec (sight w) (writeFrameFrameBlankReg dev x) ⟨c, false⟩ =
    some (inBounds dev minima.frameFrameBlank x,
      ⟨{ c with frameFrameBlank := chosen dev minima.frameFrameBlank x c.frameFrameBlank },
        false⟩) :=
  writeReg_exec dev (by decide) (by unfold chosen; split <;> rfl)

theorem writeFrameLineBlankReg_exec : exec (sight w) (writeFrameLineBlankReg dev x) ⟨c, false⟩ =
    some (inBounds dev minima.frameLineBlank x,
      ⟨{ c with frameLineBlank := chosen dev minima.frameLineBlank x c.frameLineBlank },
        false⟩) :=
  writeReg_exec dev (by decide) (by unfold chosen; split <;> rfl)

theorem writeLineLineBlankReg_exec : exec (sight w) (writeLineLineBlankReg dev x) ⟨c, false⟩ =
    some (inBounds dev minima.lineLineBlank x,
      ⟨{ c with lineLineBlank := chosen dev minima.lineLineBlank x c.lineLineBlank }, false⟩) :=
  writeReg_exec dev (by decide) (by unfold chosen; split <;> rfl)

theorem writeLineFrameBlankReg_exec : exec (sight w) (writeLineFrameBlankReg dev x) ⟨c, false⟩ =
    some (inBounds dev minima.lineFrameBlank x,
      ⟨{ c with lineFrameBlank := chosen dev minima.lineFrameBlank x c.lineFrameBlank },
        false⟩) :=
  writeReg_exec dev (by decide) (by unfold chosen; split <;> rfl)

end Registers

theorem stop_exec : exec (sight w) stop ⟨c, false⟩ = some ((), ⟨c, false⟩) := rfl

theorem start_exec : exec (sight w) start ⟨c, false⟩ = some ((), ⟨c, true⟩) := rfl

theorem writeRegs_exec (success : Bool) : exec (sight w) (writeRegs dev v success) ⟨c, false⟩ =
    some (success && restInBounds dev v,
      ⟨{ configured dev v c with frameWidth := c.frameWidth }, false⟩) := by
  unfold writeRegs
  rw [exec_seq _ (writeFrameHeightReg_exec dev _), exec_seq _ (writeFrameFrameBlankReg_exec dev _),
    exec_seq _ (writeFrameLineBlankReg_exec dev _), exec_seq _ (writeLineLineBlankReg_exec dev _),
    exec_seq _ (writeLineFrameBlankReg_exec dev _), exec_pure, restInBounds]
  simp only [configured, Bool.and_assoc]

/-- **What `configure` does to a stopped generator.** -/
theorem configure_exec : exec (sight w) (configure dev v) ⟨c, false⟩ =
    some (allInBounds dev v, ⟨configured dev v c, false⟩) := by
  unfold configure
  rw [exec_seq _ stop_exec, exec_seq _ (writeFrameWidthReg_exec dev _), writeRegs_exec]
  rfl

theorem init_exec : exec (sight w) (init dev) ⟨c, false⟩ =
    some ((), ⟨configured dev minima c, false⟩) := by
  unfold init
  rw [exec_seq _ stop_exec, exec_seq _ (writeFrameWidthReg_exec dev _),
    exec_seq _ (writeFrameHeightReg_exec dev _), exec_seq _ (writeFrameFrameBlankReg_exec dev _),
    exec_seq _ (writeFrameLineBlankReg_exec dev _), exec_seq _ (writeLineLineBlankReg_exec dev _),
    exec_seq _ (writeLineFrameBlankReg_exec dev _), exec_pure]
  rfl

/-- What the demo leaves in the registers. -/
def demoConfig (w : Nat) (dev : Dev) (v : Fields 32) : Fields w :=
  configured dev v (configured dev minima Regs.reset.config)

theorem demo_exec : exec (sight w) (demo dev v) ⟨Regs.reset.config, false⟩ =
    some (allInBounds dev v, ⟨demoConfig w dev v, true⟩) := by
  unfold demo
  rw [exec_seq _ (init_exec dev), exec_seq _ stop_exec, exec_seq _ (configure_exec dev v),
    exec_seq _ start_exec]
  rfl

/-! ## From power-up to the frames -/

/-- The outputs, `k` cycles after the generator has left its idle state. -/
def stream (c : Fields w) (k : Nat) : Output p :=
  if k < c.frameLineBlank.toNat then blank else signal c (k - c.frameLineBlank.toNat)

/-- A program that has started the generator leaves it alone. -/
theorem exec_running {α : Type} {q : Driver α} {t : Sight w} {out : α × Sight w}
    (h : exec (sight w) q t = some out) (ht : t.running = true) : out.2 = t := by
  induction q generalizing t with
  | ret a =>
    cases h
    rfl
  | write x d q ih =>
    obtain ⟨t', hw, hq⟩ := Option.bind_eq_some_iff.mp h
    simp only [sight, Sight.write, ht, if_true, Option.ite_none_right_eq_some] at hw
    obtain ⟨-, hw⟩ := hw
    cases hw
    exact ih hq ht
  | read x k ih =>
    obtain ⟨d, -, hq⟩ := Option.bind_eq_some_iff.mp h
    exact ih d hq ht
  | test x m k ih => cases h
  | poll x m q ih => cases h

section Runs

variable {α : Type} {q : Driver α} {r : Regs w} {inp : Nat → Timing Unit} {n : Nat}

theorem slave_clock : ((platform (slave w) q r).run inp (n + 1)).2 =
    ((platform (slave w) q r).run inp n).2.clock
      (((platform (slave w) q r).run inp n).1.access (inp n).go) := rfl

/-- A generator that is busy, or about to be, runs with the final configuration. -/
theorem seen_running {a : α} {c : Fields w}
    (h : Stands (slave w) (sight w) Seen (a, ⟨c, true⟩) ((platform (slave w) q r).run inp n))
    (hb : ((platform (slave w) q r).run inp n).2.isIdle = false ∨
      ((platform (slave w) q r).run inp n).2.start = true) :
    Seen ⟨c, true⟩ ((platform (slave w) q r).run inp n).2 := by
  obtain ⟨t, hex, hseen, -⟩ := h
  cases ht : t.running with
  | false =>
    obtain ⟨hidle, hstart⟩ := hseen.stopped ht
    rw [hidle, hstart] at hb
    exact absurd hb (by simp)
  | true =>
    have heq : (⟨c, true⟩ : Sight w) = t := exec_running hex ht
    rw [heq]
    exact hseen

/-- From the cycle after its start the generator plays, undisturbed. -/
theorem plays_on {a : α} {c : Fields w}
    (h : ∀ n, Stands (slave w) (sight w) Seen (a, ⟨c, true⟩) ((platform (slave w) q r).run inp n))
    (hidle : ((platform (slave w) q r).run inp n).2.isIdle = true)
    (hstart : ((platform (slave w) q r).run inp n).2.start = true) (k : Nat) :
    Plays c ((platform (slave w) q r).run inp (n + 1 + k)).2.core (some (lead c c, k)) := by
  induction k with
  | zero =>
    have hs := of_decide_eq_true hidle
    have hseen := seen_running (h n) (.inr hstart)
    refine ⟨c, ((platform (slave w) q r).run inp n).2.core, rfl, ?_⟩
    rw [Nat.add_zero, slave_clock]
    simp only [Regs.clock, Core.next, hs, hstart, if_true, hseen.config]
    rfl
  | succ k ih =>
    have hne := ih.busy
    have hseen := seen_running (h (n + 1 + k)) (.inl (decide_eq_false hne))
    obtain ⟨c', m', hlead, hcore⟩ := ih
    refine ⟨c', m', hlead, ?_⟩
    rw [← Nat.add_assoc, slave_clock]
    show Core.next _ _ _ _ = _
    rw [hseen.config, hseen.stop, next_busy _ _ _ hne, hcore, Function.iterate_succ_apply']

/-- The first busy cycle comes after a start pulse. -/
theorem start_of_busy (hidle : ((platform (slave w) q r).run inp n).2.isIdle = true)
    (hbusy : ((platform (slave w) q r).run inp (n + 1)).2.isIdle = false) :
    ((platform (slave w) q r).run inp n).2.start = true := by
  by_contra hno
  have hs := of_decide_eq_true hidle
  have hst := Bool.eq_false_iff.mpr hno
  rw [slave_clock] at hbusy
  have hnext := of_decide_eq_false hbusy
  simp only [Regs.clock, Core.next, hs, hst] at hnext
  exact hnext hs

end Runs

/-- **From power-up to the frames**: the calls of the demo return whether the values were within
their bounds, the generator is silent at first, and from some cycle on it shows the frames of the
configuration, whatever the timing of the processor. -/
theorem driver_plays (hw : 0 < w) {inp : Nat → Timing Unit} (hfair : Recurs fun n => (inp n).go) :
    (∃ m, ((platform (slave w) (demo dev v) Regs.reset).run inp m).1.prog =
        .ret (allInBounds dev v)) ∧
      ∃ n, (∀ m, m < n →
          ((platform (slave w) (demo dev v) Regs.reset).run inp m).2.ports (p := p) = low) ∧
        ∀ k, ((platform (slave w) (demo dev v) Regs.reset).run inp (n + k)).2.ports (p := p) =
          stream (demoConfig w dev v) k := by
  have hseen : Seen ⟨Regs.reset.config, false⟩ (Regs.reset : Regs w) :=
    ⟨rfl, rfl, fun _ => ⟨rfl, rfl⟩, fun h => absurd h Bool.false_ne_true⟩
  have hstands := run_exec inp generator_simulates hseen (demo_exec dev v) trivial
  obtain ⟨m, hm⟩ := run_returns hfair generator_simulates generator_settles hseen
    (demo_exec dev v) trivial
  refine ⟨⟨m, hm⟩, ?_⟩
  obtain ⟨-, hend⟩ := run_ret inp generator_simulates hseen (demo_exec dev v) trivial hm
  have hbusy : ∃ n, ((platform (slave w) (demo dev v) Regs.reset).run inp n).2.isIdle = false :=
    ⟨m + 1, hend.busy rfl⟩
  have hfirst := Nat.find_spec hbusy
  have hbefore : ∀ m, m < Nat.find hbusy →
      ((platform (slave w) (demo dev v) Regs.reset).run inp m).2.isIdle = true := by
    intro m hm
    exact eq_true_of_ne_false (Nat.find_min hbusy hm)
  refine ⟨Nat.find hbusy, fun m hm => ?_, ?_⟩
  · have hs := of_decide_eq_true (hbefore m hm)
    rw [Regs.ports, output, hs]
  · intro k
    cases hn : Nat.find hbusy with
    | zero =>
      rw [hn] at hfirst
      exact absurd hfirst.symm Bool.false_ne_true
    | succ n =>
      rw [hn] at hfirst
      have hidle := hbefore n (hn ▸ Nat.lt_succ_self n)
      have hplays := plays_on hstands hidle (start_of_busy hidle hfirst) k
      have hk := seen_running (hstands (n + 1 + k)) (.inl (decide_eq_false hplays.busy))
      rw [Regs.ports, hk.config, hplays.output hw, lead_self, stream]

/-- A processor that makes an access in every cycle. -/
def eager (_ : Nat) : Timing Unit := ⟨true, ()⟩

theorem eager_recurs : Recurs fun n => (eager n).go := fun n => ⟨n, Nat.le_refl n, rfl⟩

/-- Frames of 8 by 4 samples. -/
theorem driver_plays_small :
    (∃ m, ((platform (slave 11) (demo ⟨1920, 1080⟩ ⟨8, 4, 3, 3, 3, 3⟩) Regs.reset).run
        eager m).1.prog = .ret true) ∧
      ∃ n, ∀ k, ((platform (slave 11) (demo ⟨1920, 1080⟩ ⟨8, 4, 3, 3, 3, 3⟩) Regs.reset).run
        eager (n + k)).2.ports (p := 12) =
          stream (demoConfig 11 ⟨1920, 1080⟩ ⟨8, 4, 3, 3, 3, 3⟩) k := by
  have hbounds : allInBounds ⟨1920, 1080⟩ ⟨8, 4, 3, 3, 3, 3⟩ = true := by decide
  obtain ⟨hret, n, -, hplay⟩ := driver_plays (w := 11) (p := 12) ⟨1920, 1080⟩ ⟨8, 4, 3, 3, 3, 3⟩
    (by decide) eager_recurs
  rw [hbounds] at hret
  exact ⟨hret, n, hplay⟩

/-! ### Values within their bounds -/

/-- The values, cut to the width of the registers. -/
def narrow (w : Nat) (v : Fields 32) : Fields w where
  frameWidth := v.frameWidth.setWidth w
  frameHeight := v.frameHeight.setWidth w
  frameFrameBlank := v.frameFrameBlank.setWidth w
  frameLineBlank := v.frameLineBlank.setWidth w
  lineLineBlank := v.lineLineBlank.setWidth w
  lineFrameBlank := v.lineFrameBlank.setWidth w

variable {dev v}

theorem configured_narrow (h : allInBounds dev v = true) : configured dev v c = narrow w v := by
  simp only [allInBounds, restInBounds, Bool.and_eq_true] at h
  obtain ⟨h0, ⟨⟨⟨h1, h2⟩, h3⟩, h4⟩, h5⟩ := h
  simp only [configured, chosen, h0, h1, h2, h3, h4, h5, if_true]
  rfl

/-! ## A generator that is running -/

section Race

variable {r : Regs w} {inp : Nat → Timing Unit} {n : Nat}

/-- The rest of `configure` after its STOP. -/
def afterStop (dev : Dev) (v : Fields 32) : Driver Bool :=
  writeFrameWidthReg dev v.frameWidth >>= writeRegs dev v

/-- It begins with the status. -/
theorem afterStop_reads (hb : inBounds dev minima.frameWidth v.frameWidth = true) :
    afterStop dev v = .read statusOfst fun d =>
      (if d == 1 then .write 0 v.frameWidth (.ret true) else .ret false : Driver Bool) >>=
        writeRegs dev v := by
  unfold afterStop writeFrameWidthReg writeReg
  rw [if_pos hb]
  rfl

/-- A STOP to a busy generator. -/
theorem clock_stop (hbusy : r.isIdle = false) (hs : r.stop = false) :
    (r.clock (.write commandOfst 0)).isIdle = false ∧
      (r.clock (.write commandOfst 0)).stop = true ∧
      (r.clock (.write commandOfst 0)).config = r.config := by
  refine ⟨?_, ?_, nextConfig_command _ _ _⟩
  · have hne := of_decide_eq_false hbusy
    refine decide_eq_false ?_
    show (r.core.next r.config r.start r.stop).state ≠ .idle
    rw [hs, next_busy _ _ _ hne]
    exact next_stays _ hne
  · simp [Regs.clock, commands, hbusy]

/-- The cycle in which it becomes effective. -/
theorem clock_stopped (hbusy : r.isIdle = false) (hs : r.stop = true)
    {a : Access (BitVec 3) (BitVec 32)} (hc : nextConfig r.config r.isIdle a = r.config)
    (h0 : commands false a = false) :
    Seen ⟨r.config, false⟩ (r.clock a) ∧ (r.clock a).rddata = readValue r.config false a := by
  have hne := of_decide_eq_false hbusy
  refine ⟨⟨hc, by simp [Regs.clock, h0], fun _ => ⟨?_, by simp [Regs.clock, hbusy]⟩,
    fun h => absurd h Bool.false_ne_true⟩, by rw [Regs.clock, hbusy]⟩
  refine decide_eq_true ?_
  show (r.core.next r.config r.start r.stop).state = .idle
  rw [hs]
  exact next_stop _ _ hne

/-- Until the processor gets its turn. -/
theorem wait_busy {q : Driver Bool} (hbusy : r.isIdle = false) (hs : r.stop = false) {j : Nat}
    (hfirst : ∀ i, i < j → (inp i).go = false) :
    ((platform (slave w) q r).run inp j).1 = ⟨q, false⟩ ∧
      ((platform (slave w) q r).run inp j).2.isIdle = false ∧
      ((platform (slave w) q r).run inp j).2.stop = false ∧
      ((platform (slave w) q r).run inp j).2.config = r.config := by
  induction j with
  | zero => exact ⟨rfl, hbusy, hs, rfl⟩
  | succ j ih =>
    obtain ⟨hcpu, hb, hst, hc⟩ := ih fun i hi => hfirst i (by omega)
    obtain ⟨hcpu', hper⟩ := run_wait hcpu (hfirst j (Nat.lt_succ_self j))
    refine ⟨hcpu', ?_, ?_, ?_⟩
    · have hseen : Seen ⟨r.config, true⟩ ((platform (slave w) q r).run inp j).2 :=
        ⟨hc, hst, fun h => absurd h.symm Bool.false_ne_true,
          fun _ hi => absurd (hb.symm.trans hi) Bool.false_ne_true⟩
      rw [hper]
      exact hseen.busy rfl
    · rw [hper]
      rfl
    · rw [hper]
      exact hc

/-- **The race of `configure`**: on a running generator it returns whether the processor let a
cycle pass after its STOP; if not, the status still reads BUSY and the width is not written. -/
theorem reconfigure_race (hbusy : r.isIdle = false) (hs : r.stop = false)
    (hv : allInBounds dev v = true) (hfair : Recurs fun n => (inp n).go) {j : Nat}
    (hfirst : ∀ i, i < j → (inp i).go = false) (hj : (inp j).go = true) :
    ∃ m, ((platform (slave w) (configure dev v) r).run inp m).1.prog =
        .ret (!(inp (j + 1)).go) ∧
      Seen ⟨{ narrow w v with
        frameWidth := if (inp (j + 1)).go then r.config.frameWidth
          else v.frameWidth.setWidth w }, false⟩
        ((platform (slave w) (configure dev v) r).run inp m).2 := by
  obtain ⟨hcpu, hb, hst, hc⟩ := wait_busy (q := configure dev v) hbusy hs hfirst
  have hin := hv
  simp only [allInBounds, Bool.and_eq_true] at hin
  -- the STOP
  obtain ⟨hcpu1, hper1⟩ := run_write (q := afterStop dev v) (x := commandOfst) (d := 0) hcpu hj
  obtain ⟨hb1, hst1, hc1⟩ := clock_stop hb hst
  change _ = Regs.clock _ (.write commandOfst 0) at hper1
  rw [← hper1] at hb1 hst1 hc1
  rw [hc] at hc1
  cases hgo : (inp (j + 1)).go with
  | false =>
    obtain ⟨hcpu2, hper2⟩ := run_wait hcpu1 hgo
    have hseen := (clock_stopped (a := .none) hb1 hst1 rfl rfl).1
    change _ = Regs.clock _ .none at hper2
    rw [← hper2, hc1] at hseen
    have hex : exec (sight w) (afterStop dev v) ⟨r.config, false⟩ =
        some (true, ⟨narrow w v, false⟩) := by
      rw [← hv, ← configured_narrow hv]
      exact configure_exec dev v
    exact returns_from hfair generator_simulates generator_settles trivial ⟨hcpu2, hseen⟩ hex
  | true =>
    obtain ⟨hcpu2, hper2⟩ := run_begin hcpu1 hgo (by rw [afterStop_reads hin.1]; rfl)
    rw [afterStop_reads hin.1] at hper2
    obtain ⟨hseen, hdata⟩ := clock_stopped (a := .read statusOfst) hb1 hst1 rfl rfl
    change _ = Regs.clock _ (.read statusOfst) at hper2
    rw [← hper2] at hseen hdata
    rw [hc1] at hseen
    -- the status was loaded before the generator was idle
    obtain ⟨hcpu3, hper3⟩ := run_end hcpu2
    have hzero : (slave w).readdata ((platform (slave w) (configure dev v) r).run inp
        (j + 1 + 1)).2 = 0 := hdata
    rw [hzero, afterStop_reads hin.1] at hcpu3
    rw [afterStop_reads hin.1] at hper3
    have hseen3 := hseen.keep (a := .read statusOfst) rfl rfl rfl
    change _ = Regs.clock _ (.read statusOfst) at hper3
    rw [← hper3] at hseen3
    have hex : exec (sight w) (writeRegs dev v false) ⟨r.config, false⟩ =
        some (false, ⟨{ narrow w v with frameWidth := r.config.frameWidth }, false⟩) := by
      rw [writeRegs_exec, configured_narrow hv]
      rfl
    exact returns_from hfair generator_simulates generator_settles trivial ⟨hcpu3, hseen3⟩ hex

/-- A generator in the middle of a frame. -/
def midFrame : Regs 11 := { Regs.reset with core := ⟨.valid, ⟨1, 1, 0, 0, 0, 0⟩⟩ }

/-- With an access in every cycle the width 8 is not written, and the call returns 0. -/
theorem reconfigure_race_midFrame :
    ∃ m, ((platform (slave 11) (configure ⟨1920, 1080⟩ ⟨8, 4, 3, 3, 3, 3⟩) midFrame).run
        eager m).1.prog = .ret false ∧
      Seen ⟨⟨1, 4, 3, 3, 3, 3⟩, false⟩
        ((platform (slave 11) (configure ⟨1920, 1080⟩ ⟨8, 4, 3, 3, 3, 3⟩) midFrame).run
          eager m).2 :=
  reconfigure_race (v := ⟨8, 4, 3, 3, 3, 3⟩) (r := midFrame) (j := 0) (by decide) rfl (by decide)
    eager_recurs (fun _ h => absurd h (Nat.not_lt_zero _)) rfl

end Race

end CameraLcd.Sensor
