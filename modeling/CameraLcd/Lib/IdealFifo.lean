import Mathlib.Data.List.Basic

/-!
# The ideal single-clock FIFO

What a vendor FIFO in normal (not show-ahead) mode promises when its flags are exact and both
overflow and underflow checking are on:

* a read request on a non-empty FIFO moves the oldest word to the output register `q`, where it
  stays until the next successful read; a read request on an empty FIFO has no effect;
* a write request on a FIFO that is not full appends the word; on a full one it has no effect;
* both requests look at the contents as they are before the edge.

`Queue.edge` is one clock edge, `Queue.clear` the asynchronous clear.  The file names no
particular design.
-/

set_option autoImplicit false

namespace IdealFifo

/-- The words of a FIFO, oldest first, and its output register. -/
structure Queue (α : Type) where
  words : List α
  q : α
  deriving DecidableEq, Repr

namespace Queue

variable {α : Type}

/-- One clock edge of a FIFO of `depth` words: an optional write and a read request. -/
def edge (depth : Nat) (f : Queue α) (write : Option α) (read : Bool) : Queue α where
  words := (if read then f.words.tail else f.words) ++
    (if f.words.length < depth then write.toList else [])
  q := if read then f.words.headD f.q else f.q

/-- Asynchronous clear: the words are dropped, `q` is left alone. -/
def clear (f : Queue α) : Queue α := { f with words := [] }

def empty (f : Queue α) : Bool := f.words.isEmpty

/-- Fewer than `n` words are stored. -/
def almostEmpty (n : Nat) (f : Queue α) : Bool := decide (f.words.length < n)

variable {depth : Nat} {f : Queue α}

@[simp] theorem clear_words : f.clear.words = [] := rfl

@[simp] theorem edge_idle : f.edge depth none false = f := by
  cases f; simp [edge]

@[simp] theorem edge_q_hold {w : Option α} : (f.edge depth w false).q = f.q := rfl

/-- A read moves the oldest word to `q`. -/
theorem edge_read_q {w : Option α} {x : α} {xs : List α} (h : f.words = x :: xs) :
    (f.edge depth w true).q = x := by
  simp [edge, h]

theorem edge_read {x : α} {xs : List α} (h : f.words = x :: xs) :
    f.edge depth none true = ⟨xs, x⟩ := by
  simp [edge, h]

/-- A write into a FIFO with room appends the word. -/
theorem edge_write_words {x : α} (h : f.words.length < depth) :
    (f.edge depth (some x) false).words = f.words ++ [x] := by
  simp [edge, h]

theorem edge_length_le {w : Option α} {r : Bool} (h : f.words.length ≤ depth) :
    (f.edge depth w r).words.length ≤ depth := by
  have hread : (if r then f.words.tail else f.words).length ≤ f.words.length := by
    cases r <;> simp
  have hone : w.toList.length ≤ 1 := by
    cases w <;> simp
  rw [edge, List.length_append]
  by_cases hroom : f.words.length < depth
  · rw [if_pos hroom]
    omega
  · rw [if_neg hroom]
    exact Nat.le_trans hread h

/-- **Conservation**: as long as no write finds the FIFO full, the words read so far followed by
the words stored are the words written so far. -/
theorem edge_conserves {w : Option α} {r : Bool} {readSoFar written : List α}
    (h : readSoFar ++ f.words = written) (hw : w ≠ none → f.words.length < depth) :
    (readSoFar ++ if r then f.words.head?.toList else []) ++ (f.edge depth w r).words =
      written ++ w.toList := by
  have hpush : (if f.words.length < depth then w.toList else []) = w.toList := by
    cases w with
    | none => simp
    | some x => simp [hw (by simp)]
  simp only [edge, hpush]
  cases r with
  | false => simp [← h]
  | true => cases hf : f.words <;> simp [← h, hf]

end Queue

end IdealFifo
