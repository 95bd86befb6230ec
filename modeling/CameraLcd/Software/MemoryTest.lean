import Mathlib.Logic.Function.Basic
import CameraLcd.Lib.RegisterProgram

/-!
# `Memory_Access.c`: the memory tests

`Test_Memory_Map` and `Quick_Test_Memory_Map` on a memory that may be wired in any way.

* `Wiring`, `ram` — the cell that an address reaches, and what is stored of a word.
* `test_passes`, `test_fails` — the loop on the description of such a memory.
* `memory_tests_iff` — the tests pass just when every word tested is stored as it is written.  Each
  word is read back before the next one is written: where the addresses lead makes no difference.
-/

set_option autoImplicit false

namespace CameraLcd.MemoryTest

open Clocked RegisterProgram

/-- The cells of a memory. -/
abbrev Memory := BitVec 32 → BitVec 32

/-- Code that accesses the memory at `HPS_0_BRIDGES_BASE`. -/
abbrev Driver (α : Type) := Prog (BitVec 32) 32 α

/-! ## The functions -/

def oneMB : Nat := 1024 * 1024

def bridgesSpan : Nat := 268435456

/-- The loop of both tests: `megabyte_count` at its end, or nothing if an `assert` has failed. -/
def test (stop i megabyteCount : Nat) : Driver (Option Nat) :=
  if i < stop then
    .write (BitVec.ofNat 32 i) (BitVec.ofNat 32 i)
      (.read (BitVec.ofNat 32 i) fun readdata =>
        if BitVec.ofNat 32 i = readdata then
          test stop (i + 4) (if i % oneMB = 0 then megabyteCount + 1 else megabyteCount)
        else .ret none)
  else .ret (some megabyteCount)
termination_by stop - i

/-- `Test_Memory_Map`. -/
def testMemoryMap : Driver (Option Nat) := test bridgesSpan 0 0

/-- `Quick_Test_Memory_Map`, with `rand() % 255`. -/
def quickTestMemoryMap (r : Nat) : Driver (Option Nat) := test ((r + 1) * oneMB) (r * oneMB) 0

/-! ## A memory -/

/-- Where the addresses lead, and what is stored of a word. -/
structure Wiring where
  cell : BitVec 32 → BitVec 32
  stored : BitVec 32 → BitVec 32

/-- Every address has a cell of its own, which keeps its word. -/
def Wiring.sound : Wiring := ⟨id, id⟩

section Wired

variable (v : Wiring)

/-- The cells and the word read last. -/
def ram : Peripheral (BitVec 32) 32 (Memory × BitVec 32) Unit where
  step h a _ :=
    match a with
    | .none => h
    | .read x => (h.1, h.1 (v.cell x))
    | .write x d => (Function.update h.1 (v.cell x) (v.stored d), h.2)
  readdata h := h.2

def cells : Spec (BitVec 32) 32 Memory where
  write t x d := some (Function.update t (v.cell x) (v.stored d))
  read t x := some (t (v.cell x))
  test _ _ _ := none
  poll _ _ _ := none

theorem ram_simulates : Simulates (ram v) (cells v) (fun t h => h.1 = t) (fun _ => True) where
  idle _ h := h
  read _ _ h := h
  write _ h hw _ := by
    cases hw
    exact congrArg (Function.update · _ _) h
  readdata _ h hr := by
    cases hr
    exact congrFun h _
  test _ _ ht := by cases ht
  poll _ _ hp _ := by cases hp
  good_write _ _ := trivial
  good_poll _ _ := trivial

theorem ram_settles : Settles (ram v) (cells v) (fun t h => h.1 = t) :=
  fun _ _ _ _ _ _ _ hp => by cases hp

/-- The words from `i` on are stored as they are written. -/
def Keeps (stop i : Nat) : Prop :=
  ∀ k, i ≤ k → k < stop → (k - i) % 4 = 0 → v.stored (BitVec.ofNat 32 k) = BitVec.ofNat 32 k

/-! ## The loop -/

variable {v} {stop i : Nat}

theorem Keeps.next (h : Keeps v stop i) : Keeps v stop (i + 4) :=
  fun k hk hlt h4 => h k (by omega) hlt (by omega)

/-- The lines printed from `i` on, one for each megabyte. -/
def megabytes (stop i : Nat) : Nat := (stop + (oneMB - 1)) / oneMB - (i + (oneMB - 1)) / oneMB

theorem megabytes_next (hi : i < stop) (h4 : i % 4 = 0) :
    megabytes stop i = (if i % oneMB = 0 then 1 else 0) + megabytes stop (i + 4) := by
  unfold megabytes oneMB
  split <;> omega

theorem megabytes_done (hi : stop ≤ i) : megabytes stop i = 0 := by
  unfold megabytes oneMB
  omega

/-- One round of the loop. -/
theorem test_round (hi : i < stop) (count : Nat) (m : Memory) :
    exec (cells v) (test stop i count) m =
      exec (cells v)
        (if BitVec.ofNat 32 i = v.stored (BitVec.ofNat 32 i) then
          test stop (i + 4) (if i % oneMB = 0 then count + 1 else count)
        else .ret none)
        (Function.update m (v.cell (BitVec.ofNat 32 i)) (v.stored (BitVec.ofNat 32 i))) := by
  rw [test, if_pos hi]
  simp only [exec, cells, Option.bind_some, Function.update_self]

theorem test_done (hi : stop ≤ i) (count : Nat) (m : Memory) :
    exec (cells v) (test stop i count) m = some (some count, m) := by
  rw [test, if_neg (by omega)]
  rfl

theorem test_passes (h : Keeps v stop i) (h4 : i % 4 = 0) (count : Nat) (m : Memory) :
    ∃ m', exec (cells v) (test stop i count) m = some (some (count + megabytes stop i), m') := by
  obtain ⟨n, hn⟩ : ∃ n, stop ≤ i + 4 * n := ⟨stop, by omega⟩
  induction n generalizing i count m with
  | zero =>
    rw [test_done (by omega), megabytes_done (by omega)]
    exact ⟨m, rfl⟩
  | succ n ih =>
    by_cases hi : i < stop
    · obtain ⟨m', hm'⟩ := ih h.next (by omega) (if i % oneMB = 0 then count + 1 else count)
        (Function.update m (v.cell (BitVec.ofNat 32 i)) (v.stored (BitVec.ofNat 32 i))) (by omega)
      have hcount : (if i % oneMB = 0 then count + 1 else count) + megabytes stop (i + 4) =
          count + megabytes stop i := by
        rw [megabytes_next hi h4]
        split <;> omega
      rw [test_round hi, if_pos (h i le_rfl hi (by omega)).symm, hm', hcount]
      exact ⟨m', rfl⟩
    · rw [test_done (by omega), megabytes_done (by omega)]
      exact ⟨m, rfl⟩

/-- The first word that is not kept ends the test. -/
theorem test_fails (h : ¬ Keeps v stop i) (count : Nat) (m : Memory) :
    ∃ m', exec (cells v) (test stop i count) m = some (none, m') := by
  obtain ⟨n, hn⟩ : ∃ n, stop ≤ i + 4 * n := ⟨stop, by omega⟩
  induction n generalizing i count m with
  | zero => exact absurd (fun k hk hlt _ => absurd hlt (by omega)) h
  | succ n ih =>
    have hi : i < stop := by
      by_contra hno
      exact h fun k hk hlt _ => absurd hlt (by omega)
    rw [test_round hi]
    by_cases hword : BitVec.ofNat 32 i = v.stored (BitVec.ofNat 32 i)
    · rw [if_pos hword]
      refine ih (fun hnext => h ?_) _ _ (by omega)
      intro k hk hlt h4
      by_cases hk' : k = i
      · rw [hk']
        exact hword.symm
      · exact hnext k (by omega) hlt (by omega)
    · rw [if_neg hword]
      exact ⟨_, rfl⟩

/-- **The loop on a memory**: it comes to its end, with the number of megabytes if every word is
kept and else at an `assert`. -/
theorem test_run (h4 : i % 4 = 0) {inp : Nat → Timing Unit} (hfair : Recurs fun k => (inp k).go)
    (m : Memory) (data : BitVec 32) :
    (∃ e r, ((platform (ram v) (test stop i 0) (m, data)).run inp e).1.prog = .ret r) ∧
      ((∃ e, ((platform (ram v) (test stop i 0) (m, data)).run inp e).1.prog =
        .ret (some (megabytes stop i))) ↔ Keeps v stop i) := by
  by_cases hkeeps : Keeps v stop i
  · obtain ⟨m', hex⟩ := test_passes hkeeps h4 0 m
    rw [Nat.zero_add] at hex
    obtain ⟨e, hret⟩ := run_returns hfair (ram_simulates v) (ram_settles v) (h := (m, data)) rfl
      hex trivial
    exact ⟨⟨e, _, hret⟩, iff_of_true ⟨e, hret⟩ hkeeps⟩
  · obtain ⟨m', hex⟩ := test_fails hkeeps 0 m
    obtain ⟨e, hret⟩ := run_returns hfair (ram_simulates v) (ram_settles v) (h := (m, data)) rfl
      hex trivial
    refine ⟨⟨e, _, hret⟩, iff_of_false ?_ hkeeps⟩
    rintro ⟨e', hpass⟩
    have hsame := (run_ret inp (ram_simulates v) rfl hex trivial hpass).1
    cases hsame

end Wired

/-- **What the memory tests test**: on a memory wired in any way they come to their end, and they
pass just when the words written are stored as they are, wherever the addresses lead. -/
theorem memory_tests_iff (v : Wiring) (m : Memory) (data : BitVec 32) (inp : Nat → Timing Unit)
    (hfair : Recurs fun k => (inp k).go) :
    ((∃ e r, ((platform (ram v) testMemoryMap (m, data)).run inp e).1.prog = .ret r) ∧
      ((∃ e, ((platform (ram v) testMemoryMap (m, data)).run inp e).1.prog = .ret (some 256)) ↔
        ∀ k, k < bridgesSpan → k % 4 = 0 →
          v.stored (BitVec.ofNat 32 k) = BitVec.ofNat 32 k)) ∧
      ∀ r, r < 255 →
        (∃ e a, ((platform (ram v) (quickTestMemoryMap r) (m, data)).run inp e).1.prog = .ret a) ∧
          ((∃ e, ((platform (ram v) (quickTestMemoryMap r) (m, data)).run inp e).1.prog =
            .ret (some 1)) ↔
            ∀ k, r * oneMB ≤ k → k < (r + 1) * oneMB → k % 4 = 0 →
              v.stored (BitVec.ofNat 32 k) = BitVec.ofNat 32 k) := by
  constructor
  · obtain ⟨hreturns, hpass⟩ := test_run (v := v) (i := 0) rfl hfair m data
    have hcount : megabytes bridgesSpan 0 = 256 := rfl
    rw [hcount] at hpass
    refine ⟨hreturns, hpass.trans ⟨fun h k hk h4 => h k (Nat.zero_le k) hk h4, ?_⟩⟩
    intro h k _ hk h4
    exact h k hk h4
  · intro r _
    have haligned : r * oneMB % 4 = 0 := by
      unfold oneMB
      omega
    have hcount : megabytes ((r + 1) * oneMB) (r * oneMB) = 1 := by
      unfold megabytes oneMB
      omega
    obtain ⟨hreturns, hpass⟩ := test_run (v := v) haligned hfair m data
    rw [hcount] at hpass
    refine ⟨hreturns, hpass.trans ⟨fun h k hlo hk h4 => h k hlo hk (by omega), ?_⟩⟩
    intro h k hlo hk h4
    exact h k hlo hk (by omega)

/-- A memory whose addresses all lead to one cell passes. -/
theorem memory_tests_iff_oneCell :
    ∃ e, ((platform (ram ⟨fun _ => 0, id⟩) testMemoryMap (fun _ => 0, 0)).run
      (fun _ => ⟨true, ()⟩) e).1.prog = .ret (some 256) := by
  have halways : Recurs fun k => ((fun _ => ⟨true, ()⟩ : Nat → Timing Unit) k).go :=
    fun n => ⟨n, Nat.le_refl n, rfl⟩
  exact (memory_tests_iff ⟨fun _ => 0, id⟩ (fun _ => 0) 0 (fun _ => ⟨true, ()⟩) halways).1.2.mpr
    fun _ _ _ => rfl

end CameraLcd.MemoryTest
