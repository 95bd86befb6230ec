import CameraLcd.Lib.Clocked
import CameraLcd.Lib.IdealFifo

/-!
# `Transfert_Fifo`: from the clock-domain FIFO to the burst FIFO

The process of `hw/hdl/Top_Level.vhd` that reads `FIFO_Inter_Clock_Domain` and writes
`FIFO_Master_Interface_Avalon_Bus`.  Neither register of it is cleared by a stop, and the read
request has no reset value at all.

* `step` — one edge of `Clk_FPGA`; words become visible on the read side in any cycle and in any
  number, and a cycle with `Ready` low keeps both FIFOs clear.
* `presented_succ` — **a word is presented exactly in the cycle after its pop**.
* `popped_visible` — the words popped since a clear and those left are the ones that have become
  visible.
* `transfert_forwards` — what follows for the words between two clears.
-/

set_option autoImplicit false

namespace CameraLcd.Transfer

open Clocked IdealFifo

/-- The read side of `FIFO_Inter_Clock_Domain` and the two registers of the process. -/
structure Regs where
  source : Queue (BitVec 32)
  rdreq : Bool
  combination : Bool
  deriving DecidableEq, Repr

/-- `Ready`, and the words that become visible at the end of the cycle. -/
structure Inputs where
  ready : Bool
  visible : List (BitVec 32)

section Cycle

variable (r : Regs) (i : Inputs)

/-- `Reset_H` acts at once. -/
def contents : Queue (BitVec 32) := if i.ready then r.source else r.source.clear

/-- `rdempty_FIFO_Inter_Clock_Domain`. -/
def rdempty : Bool := (contents r i).empty

/-- The word that the read request takes out in this cycle. -/
def popped : Option (BitVec 32) := if r.rdreq then (contents r i).words.head? else none

/-- `FIFO_Master_Interface_Write_Request`, with the word on `Output_Camera_2Pixels_32Bits`. -/
def presented : Option (BitVec 32) := if r.combination && r.rdreq then some r.source.q else none

/-- One rising edge of `Clk_FPGA`. -/
def step : Regs where
  source := if i.ready then
      -- words enter from the other clock domain, not by the write port
      let f := r.source.edge 0 none r.rdreq
      { f with words := f.words ++ i.visible }
    else r.source.clear
  rdreq := !rdempty r i
  combination := r.rdreq

end Cycle

/-- After reset: both FIFOs are empty; `rdreq` has any value. -/
def machine (rdreq : Bool) (q : BitVec 32) : Machine Regs Inputs where
  init := ⟨⟨[], q⟩, rdreq, false⟩
  step := step

variable {rdreq : Bool} {q : BitVec 32} {inp : Nat → Inputs}

/-- The registers in cycle `n`. -/
def regs (rdreq : Bool) (q : BitVec 32) (inp : Nat → Inputs) (n : Nat) : Regs :=
  (machine rdreq q).run inp n

/-- The word popped in cycle `n`. -/
def poppedAt (rdreq : Bool) (q : BitVec 32) (inp : Nat → Inputs) (n : Nat) :
    Option (BitVec 32) := popped (regs rdreq q inp n) (inp n)

/-- The word presented to the second FIFO in cycle `n`. -/
def presentedAt (rdreq : Bool) (q : BitVec 32) (inp : Nat → Inputs) (n : Nat) :
    Option (BitVec 32) := presented (regs rdreq q inp n)

/-! ## One edge -/

theorem popped_isSome (r : Regs) (i : Inputs) :
    (popped r i).isSome = (r.rdreq && !rdempty r i) := by
  unfold popped rdempty Queue.empty
  cases r.rdreq with
  | false => rfl
  | true => cases (contents r i).words <;> rfl

/-- **A word is presented in the cycle after its pop and in no other.** -/
theorem presented_step (r : Regs) (i : Inputs) : presented (step r i) = popped r i := by
  have hsome := popped_isSome r i
  unfold presented step
  cases hr : r.rdreq with
  | false => simp [popped, hr]
  | true =>
    cases hready : i.ready with
    | false => simp [rdempty, contents, popped, hready, Queue.empty]
    | true =>
      cases hw : r.source.words with
      | nil => simp [rdempty, contents, popped, hready, Queue.empty, hw]
      | cons x xs => simp [rdempty, contents, popped, hready, hr, Queue.empty, Queue.edge, hw]

theorem popped_clear (r : Regs) {i : Inputs} (h : i.ready = false) : popped r i = none := by
  unfold popped contents
  simp [h]

/-! ## Runs -/

theorem presented_succ (n : Nat) :
    presentedAt rdreq q inp (n + 1) = poppedAt rdreq q inp n := presented_step _ _

theorem presented_zero : presentedAt rdreq q inp 0 = none := rfl

theorem collect_presented {c n : Nat} (hle : c ≤ n) (hc : presentedAt rdreq q inp c = none) :
    collect (presentedAt rdreq q inp) c (n + 1) = collect (poppedAt rdreq q inp) c n := by
  induction n, hle using Nat.le_induction with
  | base => rw [collect_succ_none _ (Nat.le_refl c) hc, collect_self, collect_self]
  | succ n hle ih =>
    rw [collect_succ _ (by omega), ih, collect_succ _ hle, presented_succ]

/-- **The words popped since a clear and the words left are those that have become visible.** -/
theorem popped_visible {c n : Nat} (hlt : c < n) (hc : (inp c).ready = false)
    (hready : ∀ k, c < k → k < n → (inp k).ready = true) :
    collect (poppedAt rdreq q inp) (c + 1) n ++ (regs rdreq q inp n).source.words =
      ((List.range' (c + 1) (n - (c + 1))).map (fun k => (inp k).visible)).flatten := by
  induction n, hlt using Nat.le_induction with
  | base =>
    have hclear : (regs rdreq q inp (c + 1)).source = (regs rdreq q inp c).source.clear :=
      if_neg (by rw [hc]; simp)
    simp [hclear]
  | succ n hle ih =>
    have hr := hready n (by omega) (by omega)
    have hsource : (regs rdreq q inp (n + 1)).source.words =
        (if (regs rdreq q inp n).rdreq then (regs rdreq q inp n).source.words.tail
          else (regs rdreq q inp n).source.words) ++ (inp n).visible := by
      show (step (regs rdreq q inp n) (inp n)).source.words = _
      simp [step, hr, Queue.edge]
    have hpop : (poppedAt rdreq q inp n).toList ++
        (if (regs rdreq q inp n).rdreq then (regs rdreq q inp n).source.words.tail
          else (regs rdreq q inp n).source.words) = (regs rdreq q inp n).source.words := by
      unfold poppedAt popped contents
      rw [if_pos hr]
      cases (regs rdreq q inp n).rdreq with
      | false => rfl
      | true => cases (regs rdreq q inp n).source.words <;> rfl
    have hrange : List.range' (c + 1) (n + 1 - (c + 1)) =
        List.range' (c + 1) (n - (c + 1)) ++ [n] := by
      rw [show n + 1 - (c + 1) = (n - (c + 1)) + 1 by omega, List.range'_concat]
      congr 2
      omega
    rw [collect_succ _ hle, hsource, hrange, List.map_append, List.flatten_append,
      ← ih (fun k h1 h2 => hready k h1 (by omega))]
    simp only [List.append_assoc, List.map_cons, List.map_nil, List.flatten_cons,
      List.flatten_nil, List.append_nil]
    rw [← List.append_assoc (poppedAt rdreq q inp n).toList, hpop]

/-- What the second FIFO is given. -/
structure Forwards (rdreq : Bool) (q : BitVec 32) (inp : Nat → Inputs) : Prop where
  /-- A write is requested exactly in the cycle after a successful pop, with the popped word. -/
  next : ∀ n, presentedAt rdreq q inp (n + 1) = poppedAt rdreq q inp n
  first : presentedAt rdreq q inp 0 = none
  /-- Since a clear the words presented are the words popped, up to the previous cycle. -/
  since : ∀ c n, (inp c).ready = false → c < n →
    collect (presentedAt rdreq q inp) (c + 1) (n + 1) = collect (poppedAt rdreq q inp) (c + 1) n
  /-- The same from reset on. -/
  start : ∀ n, collect (presentedAt rdreq q inp) 0 (n + 1) = collect (poppedAt rdreq q inp) 0 n
  /-- No word popped before a clear is presented after it. -/
  fresh : ∀ c n w, (inp c).ready = false → c < n → presentedAt rdreq q inp n = some w →
    ∃ k, c < k ∧ k + 1 = n ∧ poppedAt rdreq q inp k = some w

/-- **`Transfert_Fifo` forwards every word once.** -/
theorem transfert_forwards (rdreq : Bool) (q : BitVec 32) (inp : Nat → Inputs) :
    Forwards rdreq q inp where
  next := presented_succ
  first := presented_zero
  since := by
    intro c n hc hlt
    apply collect_presented hlt
    rw [presented_succ]
    exact popped_clear _ hc
  start := fun n => collect_presented (Nat.zero_le n) presented_zero
  fresh := by
    intro c n w hc hlt hw
    obtain ⟨k, rfl⟩ : ∃ k, n = k + 1 := ⟨n - 1, by omega⟩
    rw [presented_succ] at hw
    refine ⟨k, ?_, rfl, hw⟩
    by_contra hle
    -- a word presented right after the clear would have been popped in it
    rw [show k = c by omega, poppedAt, popped_clear _ hc] at hw
    cases hw

end CameraLcd.Transfer
