import Mathlib.Data.List.Range
import Mathlib.Order.Basic

/-!
# Clocked machines and what is observed along their runs

A synchronous design is a register file with one function that says what a clock edge does to
it.  This file is independent of any particular design:

* `Machine`, `Machine.run` — the register file in every cycle, driven by a stream of inputs;
  `run_invariant` and `run_invariant_under` are the two induction rules for it.
* `Machine.loop`, `Machine.loopInputs` — the same with inputs that depend on the registers.
* `collect` — the list of the events observed in the cycles `a, …, b - 1`; `collect_succ` takes
  off the last cycle.
* `risingEdge` — the cycles in which a signal goes from low to high.
* `Recurs` — a signal that is high again and again; `Recurs.wait` is the rule for a machine that
  waits for it, `leadsTo_of_rank` the one for a machine that gets somewhere.
* `feed`, `emit` — the same for a finite list of inputs: the state reached and the outputs
  seen on the way.
-/

set_option autoImplicit false

namespace Clocked

/-- A register file with its power-up value and the effect of one clock edge. -/
structure Machine (σ ι : Type) where
  init : σ
  step : σ → ι → σ

namespace Machine

variable {σ ι : Type} (M : Machine σ ι) (inp : Nat → ι)

/-- The registers in cycle `n`. -/
def run : Nat → σ
  | 0 => M.init
  | n + 1 => M.step (run n) (inp n)

@[simp] theorem run_zero : M.run inp 0 = M.init := rfl

@[simp] theorem run_succ (n : Nat) : M.run inp (n + 1) = M.step (M.run inp n) (inp n) := rfl

/-- Two streams that agree before cycle `n` give the same registers in cycle `n`. -/
theorem run_congr {inp inp' : Nat → ι} :
    ∀ n, (∀ k < n, inp k = inp' k) → M.run inp n = M.run inp' n
  | 0, _ => rfl
  | n + 1, h => by
    rw [run_succ, run_succ, run_congr n (fun k hk => h k (by omega)), h n (by omega)]

/-- The registers in cycle `n` if the inputs follow from the cycle and the registers. -/
def loop (f : Nat → σ → ι) : Nat → σ
  | 0 => M.init
  | n + 1 => M.step (loop f n) (f n (loop f n))

/-- The inputs of such a run. -/
def loopInputs (f : Nat → σ → ι) (n : Nat) : ι := f n (M.loop f n)

theorem run_loopInputs (f : Nat → σ → ι) (n : Nat) : M.run (M.loopInputs f) n = M.loop f n := by
  induction n with
  | zero => rfl
  | succ n ih =>
    rw [run_succ, ih]
    rfl

/-- The inputs of a closed loop, from the registers of its run. -/
theorem loopInputs_eq (f : Nat → σ → ι) (n : Nat) :
    M.loopInputs f n = f n (M.run (M.loopInputs f) n) := by
  rw [run_loopInputs]
  rfl

variable {M inp}

/-- **Invariant rule under an assumption** on the registers and the inputs of every cycle
before `n`: what holds at power-up and survives every edge holds in cycle `n`. -/
theorem run_invariant_under {I : σ → ι → Prop} {A : σ → ι → ι → Prop} (h0 : I M.init (inp 0))
    (hs : ∀ s i i', A s i i' → I s i → I (M.step s i) i') :
    ∀ n, (∀ k < n, A (M.run inp k) (inp k) (inp (k + 1))) → I (M.run inp n) (inp n)
  | 0, _ => h0
  | n + 1, hA => hs _ _ _ (hA n (Nat.lt_succ_self n))
      (run_invariant_under h0 hs n fun k hk => hA k (Nat.lt_succ_of_lt hk))

/-- **Invariant rule** for the registers alone. -/
theorem run_invariant {I : σ → Prop} (h0 : I M.init) (hs : ∀ s i, I s → I (M.step s i))
    (n : Nat) : I (M.run inp n) :=
  run_invariant_under (I := fun s _ => I s) (A := fun _ _ _ => True) h0 (fun s i _ _ => hs s i) n
    fun _ _ => trivial

end Machine

/-! ## Events of a run -/

section Events

variable {α : Type} (f : Nat → Option α)

/-- The events of the cycles `a, …, b - 1`, in order. -/
def collect (a b : Nat) : List α := (List.range' a (b - a)).filterMap f

@[simp] theorem collect_self (a : Nat) : collect f a a = [] := by simp [collect]

theorem collect_succ {a b : Nat} (h : a ≤ b) :
    collect f a (b + 1) = collect f a b ++ (f b).toList := by
  have hr : List.range' a (b + 1 - a) = List.range' a (b - a) ++ [b] := by
    rw [show b + 1 - a = (b - a) + 1 by omega, List.range'_concat,
      show a + 1 * (b - a) = b by omega]
  simp only [collect, hr, List.filterMap_append]
  cases hb : f b <;> simp [hb]

/-- A cycle with an event adds it at the end. -/
theorem collect_succ_some {a b : Nat} {x : α} (h : a ≤ b) (hf : f b = some x) :
    collect f a (b + 1) = collect f a b ++ [x] := by
  rw [collect_succ f h, hf]; rfl

/-- A cycle without an event adds nothing. -/
theorem collect_succ_none {a b : Nat} (h : a ≤ b) (hf : f b = none) :
    collect f a (b + 1) = collect f a b := by
  rw [collect_succ f h, hf]; simp

end Events

/-- `w` goes from low to high between cycle `n - 1` and cycle `n`. -/
def risingEdge (w : Nat → Bool) : Nat → Bool
  | 0 => false
  | n + 1 => !w n && w (n + 1)

/-- A signal that is low and later high rises in between. -/
theorem exists_risingEdge {w : Nat → Bool} {l n : Nat} (hl : w l = false) (hn : w n = true)
    (h : l ≤ n) : ∃ i, l < i ∧ i ≤ n ∧ risingEdge w i = true := by
  induction n, h using Nat.le_induction with
  | base =>
    rw [hl] at hn
    cases hn
  | succ n h ih =>
    cases hw : w n with
    | true =>
      obtain ⟨i, h1, h2, h3⟩ := ih hw
      exact ⟨i, h1, by omega, h3⟩
    | false => exact ⟨n + 1, by omega, Nat.le_refl _, by simp [risingEdge, hw, hn]⟩

/-! ## Waiting for a signal -/

/-- After every cycle there is one in which `c` is high. -/
def Recurs (c : Nat → Bool) : Prop := ∀ n, ∃ m, n ≤ m ∧ c m = true

/-- **Waiting rule**: what is kept until `c` is high still holds when it is. -/
theorem Recurs.wait {P : Nat → Prop} {c : Nat → Bool} (hc : Recurs c)
    (hkeep : ∀ m, P m → c m = false → P (m + 1)) {n : Nat} (hn : P n) :
    ∃ m, n ≤ m ∧ P m ∧ c m = true := by
  obtain ⟨m, hle, hm⟩ := hc n
  by_contra hno
  have hall : ∀ k, n ≤ k → P k := by
    intro k hk
    induction k, hk using Nat.le_induction with
    | base => exact hn
    | succ k hk ih =>
      apply hkeep k ih
      rw [← Bool.not_eq_true]
      intro hck
      exact hno ⟨k, hk, ih, hck⟩
  exact hno ⟨m, hle, hall m hle, hm⟩

/-- **Rank rule**: what comes closer again and again is reached. -/
theorem leadsTo_of_rank {P Q : Nat → Prop} (rank : Nat → Nat)
    (hstep : ∀ n, P n → ∃ m, n < m ∧ (Q m ∨ P m ∧ rank m < rank n)) {n : Nat} (hn : P n) :
    ∃ m, n < m ∧ Q m := by
  generalize hr : rank n = r
  induction r using Nat.strong_induction_on generalizing n with
  | _ r ih =>
    obtain ⟨m, hlt, hq | ⟨hp, hless⟩⟩ := hstep n hn
    · exact ⟨m, hlt, hq⟩
    · obtain ⟨k, hk, hq⟩ := ih (rank m) (hr ▸ hless) hp rfl
      exact ⟨k, by omega, hq⟩

/-! ## Finite input lists -/

section Lists

variable {σ ι α : Type} (step : σ → ι → σ) (out : σ → Option α)

/-- The state after the inputs of a list. -/
def feed (s : σ) (is : List ι) : σ := is.foldl step s

/-- The outputs seen while the inputs of a list are fed. -/
def emit : σ → List ι → List α
  | _, [] => []
  | s, i :: is => (out (step s i)).toList ++ emit (step s i) is

@[simp] theorem feed_nil (s : σ) : feed step s [] = s := rfl

@[simp] theorem feed_cons (s : σ) (i : ι) (is : List ι) :
    feed step s (i :: is) = feed step (step s i) is := rfl

@[simp] theorem emit_nil (s : σ) : emit step out s [] = [] := rfl

@[simp] theorem emit_cons (s : σ) (i : ι) (is : List ι) :
    emit step out s (i :: is) = (out (step s i)).toList ++ emit step out (step s i) is := rfl

theorem feed_append (s : σ) (is js : List ι) :
    feed step s (is ++ js) = feed step (feed step s is) js := List.foldl_append

theorem emit_append (s : σ) (is js : List ι) :
    emit step out s (is ++ js) = emit step out s is ++ emit step out (feed step s is) js := by
  induction is generalizing s with
  | nil => rfl
  | cons i is ih => rw [List.cons_append, emit_cons, emit_cons, ih, feed_cons, List.append_assoc]

end Lists

end Clocked
