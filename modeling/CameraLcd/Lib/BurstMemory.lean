import Mathlib.Algebra.Group.Nat.Defs
import Mathlib.Logic.Function.Basic
import CameraLcd.Lib.Clocked

/-!
# A memory behind a bus with bursts

The write side of a memory on a bus whose masters give address and length with the first beat of a
burst; the further beats go to the addresses behind it.

* `Slave.step` — one clock edge; a beat is taken in a cycle with `write` and without `waitRequest`.
* `word` — the address of a word of a buffer; `word_ne` — two words of buffers that do not overlap.
* `Filled` — the first words of a buffer hold a part of a list.

The file names no particular design.
-/

set_option autoImplicit false

namespace BurstMemory

/-- The signals of the master in a cycle. -/
structure Bus (aw : Nat) (D : Type) where
  write : Bool
  address : BitVec aw
  count : Nat
  data : D
  waitRequest : Bool

/-- The memory and the burst that is being taken. -/
structure Slave (aw : Nat) (D : Type) where
  memory : BitVec aw → D
  /-- Beats of the burst still to come. -/
  left : Nat
  /-- Where the next one goes. -/
  next : BitVec aw

variable {aw : Nat} {D : Type}

namespace Slave

/-- The address of a beat in this cycle. -/
def target (s : Slave aw D) (b : Bus aw D) : BitVec aw := if s.left = 0 then b.address else s.next

/-- The beats that a burst still needs, this one included. -/
def owed (s : Slave aw D) (b : Bus aw D) : Nat := if s.left = 0 then b.count else s.left

/-- One clock edge, for words of `size` bytes. -/
def step (size : Nat) (s : Slave aw D) (b : Bus aw D) : Slave aw D :=
  if b.write && !b.waitRequest then
    { memory := Function.update s.memory (s.target b) b.data
      left := s.owed b - 1
      next := s.target b + BitVec.ofNat aw size }
  else s

variable {size : Nat} {s : Slave aw D} {b : Bus aw D}

theorem step_idle (h : b.write = false ∨ b.waitRequest = true) : s.step size b = s := by
  unfold step
  rw [if_neg]
  rcases h with h | h <;> simp [h]

theorem step_beat (hw : b.write = true) (hr : b.waitRequest = false) :
    s.step size b = ⟨Function.update s.memory (s.target b) b.data, s.owed b - 1,
      s.target b + BitVec.ofNat aw size⟩ := by
  unfold step
  rw [if_pos (by simp [hw, hr])]

/-- An edge changes no other word than the one it writes. -/
theorem step_other {x : BitVec aw} (h : x ≠ s.target b) :
    (s.step size b).memory x = s.memory x := by
  unfold step
  split
  · exact Function.update_of_ne h _ _
  · rfl

end Slave

/-! ## Buffers -/

/-- Word `i` of a buffer, for words of `size` bytes. -/
def word (size : Nat) (base : BitVec aw) (i : Nat) : BitVec aw := base + BitVec.ofNat aw (size * i)

theorem word_succ (size : Nat) (base : BitVec aw) (i : Nat) :
    word size base (i + 1) = word size base i + BitVec.ofNat aw size := by
  rw [word, word, Nat.mul_succ, BitVec.ofNat_add, BitVec.add_assoc]

/-- Words at different offsets from a common address. -/
theorem word_ne {size i j : Nat} {a x y : BitVec aw} {m n : Nat} (hx : x = a + BitVec.ofNat aw m)
    (hy : y = a + BitVec.ofNat aw n) (hm : m + size * i < 2 ^ aw) (hn : n + size * j < 2 ^ aw)
    (h : m + size * i ≠ n + size * j) : word size x i ≠ word size y j := by
  intro heq
  rw [word, word, hx, hy, BitVec.add_assoc, BitVec.add_assoc, BitVec.add_right_inj,
    ← BitVec.ofNat_add, ← BitVec.ofNat_add] at heq
  have hnat := congrArg BitVec.toNat heq
  rw [BitVec.toNat_ofNat, BitVec.toNat_ofNat, Nat.mod_eq_of_lt hm, Nat.mod_eq_of_lt hn] at hnat
  exact h hnat

/-- The first `n` words of the buffer are those of `ws` from `k` on. -/
def Filled (size : Nat) (ws : List D) (memory : BitVec aw → D) (base : BitVec aw) (k n : Nat) :
    Prop :=
  ∀ i, i < n → ws[k + i]? = some (memory (word size base i))

section Filling

variable {size k n : Nat} {ws : List D} {memory memory' : BitVec aw → D} {base : BitVec aw}

theorem filled_zero : Filled size ws memory base k 0 := fun _ h => absurd h (Nat.not_lt_zero _)

theorem Filled.append (h : Filled size ws memory base k n) (ws' : List D) :
    Filled size (ws ++ ws') memory base k n := by
  intro i hi
  have hlt := (List.getElem?_eq_some_iff.mp (h i hi)).1
  rw [List.getElem?_append_left hlt]
  exact h i hi

/-- Writes elsewhere leave the buffer alone. -/
theorem Filled.frame (h : Filled size ws memory base k n)
    (hsame : ∀ i, i < n → memory' (word size base i) = memory (word size base i)) :
    Filled size ws memory' base k n := by
  intro i hi
  rw [hsame i hi]
  exact h i hi

/-- One word more. -/
theorem Filled.write (h : Filled size ws memory base k n) {d : D} (hd : ws[k + n]? = some d)
    (hfit : size * n < 2 ^ aw) (hpos : 0 < size) :
    Filled size ws (Function.update memory (word size base n) d) base k (n + 1) := by
  intro i hi
  by_cases hin : i = n
  · subst hin
    rw [Function.update_self]
    exact hd
  · have hlt : size * i < size * n := Nat.mul_lt_mul_of_pos_left (by omega) hpos
    have hne : word size base i ≠ word size base n :=
      word_ne (a := base) (m := 0) (n := 0) (by simp) (by simp) (by omega) (by omega) (by omega)
    rw [Function.update_of_ne hne]
    exact h i (by omega)

/-- The words of a full buffer. -/
theorem Filled.words (h : Filled size ws memory base k n) :
    (List.range n).map (fun i => memory (word size base i)) = (ws.drop k).take n := by
  apply List.ext_getElem?
  intro i
  by_cases hi : i < n
  · rw [List.getElem?_map, List.getElem?_range hi, List.getElem?_take_of_lt hi, List.getElem?_drop,
      h i hi]
    rfl
  · rw [List.getElem?_eq_none (by simpa using hi), List.getElem?_eq_none]
    rw [List.length_take]
    omega

end Filling

end BurstMemory
