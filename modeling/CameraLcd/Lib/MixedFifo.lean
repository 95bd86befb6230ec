import Mathlib.Data.List.Basic

/-!
# A vendor FIFO with a narrow read side and lagging flags

A dual-clock FIFO written in words of type `α` and read in words of type `β`: a written word is
read as the words `split a`, in that order.  The component itself is a parameter, a structure
that carries its data sheet as fields, so a result about a design that contains one holds for
every component that keeps to the sheet.

* `stored` — what has been written and not yet read;
* the flags are exact on their own side and may lag behind the other side's requests: `empty`
  may still be set up to `lag` edges after a write, `full` up to `lag` edges after a read;
* overflow and underflow checking are on: a request against a flag has no effect;
* normal mode: a read moves the oldest word to `q`, where it stays until the next one.

`exact` is the component without any lag.  The file names no particular design.
-/

set_option autoImplicit false

/-- A FIFO of `capacity` narrow words whose written words are `ratio` narrow words wide. -/
structure MixedFifo (α β : Type) (split : α → List β) (capacity ratio lag : Nat) where
  σ : Type
  init : σ
  /-- One clock edge with a write request and a read request. -/
  step : σ → Option α → Bool → σ
  q : σ → β
  empty : σ → Bool
  full : σ → Bool
  stored : σ → List β
  /-- Edges since the last write request. -/
  sinceWrite : σ → Nat
  /-- Edges since the last read request. -/
  sinceRead : σ → Nat
  stored_init : stored init = []
  stored_step : ∀ s w r, stored (step s w r) =
    (if r && !empty s then (stored s).tail else stored s) ++
      (if full s then [] else w.toList.flatMap split)
  q_step : ∀ s w r, q (step s w r) = if r && !empty s then (stored s).headD (q s) else q s
  sinceWrite_step : ∀ s w r, sinceWrite (step s w r) = if w.isSome then 0 else sinceWrite s + 1
  sinceRead_step : ∀ s w r, sinceRead (step s w r) = if r then 0 else sinceRead s + 1
  empty_of_nil : ∀ s, stored s = [] → empty s = true
  empty_settled : ∀ s, lag ≤ sinceWrite s → stored s ≠ [] → empty s = false
  full_of_no_room : ∀ s, capacity < (stored s).length + ratio → full s = true
  full_settled : ∀ s, lag ≤ sinceRead s → (stored s).length + ratio ≤ capacity → full s = false

namespace MixedFifo

variable {α β : Type} {split : α → List β} {capacity ratio lag : Nat}
variable (F : MixedFifo α β split capacity ratio lag) (s : F.σ)

/-! ## What the requests do -/

@[simp] theorem stored_idle : F.stored (F.step s none false) = F.stored s := by
  simp [F.stored_step]

@[simp] theorem q_idle (w : Option α) : F.q (F.step s w false) = F.q s := by
  simp [F.q_step]

@[simp] theorem sinceWrite_idle (r : Bool) :
    F.sinceWrite (F.step s none r) = F.sinceWrite s + 1 := by
  simp [F.sinceWrite_step]

@[simp] theorem sinceRead_idle (w : Option α) :
    F.sinceRead (F.step s w false) = F.sinceRead s + 1 := by
  simp [F.sinceRead_step]

variable {F s}

/-- A write that does not find the FIFO full. -/
theorem stored_write (a : α) (hfull : F.full s = false) :
    F.stored (F.step s (some a) false) = F.stored s ++ split a := by
  simp [F.stored_step, hfull]

/-- A FIFO that does not say it is empty has a word for the next read. -/
theorem exists_cons (hempty : F.empty s = false) : ∃ x xs, F.stored s = x :: xs := by
  cases hs : F.stored s with
  | nil =>
    rw [F.empty_of_nil s hs] at hempty
    cases hempty
  | cons x xs => exact ⟨x, xs, rfl⟩

/-- A read of a FIFO that does not say it is empty. -/
theorem step_read {x : β} {xs : List β} (hempty : F.empty s = false)
    (hs : F.stored s = x :: xs) :
    F.stored (F.step s none true) = xs ∧ F.q (F.step s none true) = x := by
  simp [F.stored_step, F.q_step, hempty, hs]

/-! ## The component without lag -/

/-- The registers of `exact`. -/
structure Exact (β : Type) where
  stored : List β
  q : β
  sinceWrite : Nat
  sinceRead : Nat

variable (split capacity ratio lag) in
/-- Flags that are exact at once. -/
def exact (q₀ : β) : MixedFifo α β split capacity ratio lag where
  σ := Exact β
  init := ⟨[], q₀, 0, 0⟩
  step s w r :=
    { stored := (if r && !s.stored.isEmpty then s.stored.tail else s.stored) ++
        (if capacity < s.stored.length + ratio then [] else w.toList.flatMap split)
      q := if r && !s.stored.isEmpty then s.stored.headD s.q else s.q
      sinceWrite := if w.isSome then 0 else s.sinceWrite + 1
      sinceRead := if r then 0 else s.sinceRead + 1 }
  q := Exact.q
  empty s := s.stored.isEmpty
  full s := decide (capacity < s.stored.length + ratio)
  stored := Exact.stored
  sinceWrite := Exact.sinceWrite
  sinceRead := Exact.sinceRead
  stored_init := rfl
  stored_step s w r := by simp
  q_step s w r := rfl
  sinceWrite_step s w r := rfl
  sinceRead_step s w r := rfl
  empty_of_nil s h := by simp [h]
  empty_settled s _ h := by simpa using h
  full_of_no_room s h := by simpa using h
  full_settled s _ h := by simpa using h

end MixedFifo
