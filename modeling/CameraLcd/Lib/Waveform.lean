import Mathlib.Data.List.Range
import Mathlib.Logic.Function.Iterate

/-!
# What a design shows when it is left alone

An autonomous design is a function `f` on its registers and an output `o` of them.

* `Shows f o s l Q` — from `s` on the outputs are those of `l`, and the registers are in `Q`
  after them; `Shows.append`, `Shows.flatMap` put waveforms together.
* `Shows.count` — a counter that counts up to a value, and around if it has to.
* `shows_cycle` — a waveform that leads to its own beginning is shown again and again.
-/

set_option autoImplicit false

namespace Waveform

variable {σ ω : Type} (f : σ → σ) (o : σ → ω)

/-- The outputs of `l` from `s` on, and `Q` after them. -/
def Shows (s : σ) (l : List ω) (Q : σ → Prop) : Prop :=
  match l with
  | [] => Q s
  | x :: l => o s = x ∧ Shows (f s) l Q

variable {f o} {s : σ} {l l' : List ω} {P Q : σ → Prop}

theorem Shows.append (h : Shows f o s l P) (hq : ∀ s, P s → Shows f o s l' Q) :
    Shows f o s (l ++ l') Q := by
  induction l generalizing s with
  | nil => exact hq s h
  | cons x l ih => exact ⟨h.1, ih h.2⟩

theorem Shows.mono (h : Shows f o s l P) (hq : ∀ s, P s → Q s) : Shows f o s l Q := by
  induction l generalizing s with
  | nil => exact hq s h
  | cons x l ih => exact ⟨h.1, ih h.2⟩

/-- Waveforms `l i` for `i` from `a` on, each leading to the next. -/
theorem Shows.flatMap {P : Nat → σ → Prop} {l : Nat → List ω} {n a : Nat}
    (h : ∀ i, a ≤ i → i < a + n → ∀ s, P i s → Shows f o s (l i) (P (i + 1))) (hs : P a s) :
    Shows f o s ((List.range' a n).flatMap l) (P (a + n)) := by
  induction n generalizing a s with
  | zero => exact hs
  | succ n ih =>
    rw [List.range'_succ, List.flatMap_cons]
    refine (h a le_rfl (by omega) s hs).append fun s hs => ?_
    rw [show a + (n + 1) = a + 1 + n by omega]
    exact ih (fun i hi hlt => h i (by omega) (by omega)) hs

/-- The outputs while a counter runs from `v` to `last`. -/
def counting {w : Nat} (v last : BitVec w) (y : BitVec w → ω) : List ω :=
  (List.range ((last - v).toNat + 1)).map fun j => y (v + BitVec.ofNat w j)

theorem counting_last {w : Nat} (v : BitVec w) (y : BitVec w → ω) : counting v v y = [y v] := by
  simp [counting]

/-- The way to go is over. -/
theorem sub_toNat_eq_zero {w : Nat} {v last : BitVec w} : (last - v).toNat = 0 ↔ v = last := by
  rw [show 0 = (0#w).toNat from rfl, BitVec.toNat_inj, BitVec.sub_eq_iff_eq_add, BitVec.zero_add,
    eq_comm]

/-- A step comes closer. -/
theorem sub_next {w : Nat} {v last : BitVec w} (h : v ≠ last) :
    (last - (v + 1)).toNat + 1 = (last - v).toNat := by
  have hpos : (last - v).toNat ≠ 0 := fun h0 => h (sub_toNat_eq_zero.mp h0)
  have hlt := (last - v).isLt
  have hw : 0 < w := by
    rw [Nat.pos_iff_ne_zero]
    rintro rfl
    omega
  have h1 : (1 : BitVec w).toNat = 1 := BitVec.toNat_one hw
  rw [← BitVec.sub_sub, BitVec.toNat_sub, h1,
    show 2 ^ w - 1 + (last - v).toNat = 2 ^ w + ((last - v).toNat - 1) by omega,
    Nat.add_mod_left, Nat.mod_eq_of_lt (by omega)]
  omega

theorem counting_next {w : Nat} {v last : BitVec w} (h : v ≠ last) (y : BitVec w → ω) :
    counting v last y = y v :: counting (v + 1) last y := by
  unfold counting
  rw [sub_next h, List.range_succ_eq_map, List.map_cons, List.map_map]
  congr 1
  · simp
  · apply List.map_congr_left
    intro j _
    show y (v + BitVec.ofNat w (j + 1)) = y (v + 1 + BitVec.ofNat w j)
    rw [BitVec.ofNat_add, BitVec.add_assoc, BitVec.add_comm 1]
    rfl

/-- **A counter**: in `P v` it stands at `v`, it goes on until it is at `last`. -/
theorem Shows.count {w : Nat} {last : BitVec w} {P : BitVec w → σ → Prop} {y : BitVec w → ω}
    (hout : ∀ v s, P v s → o s = y v) (hnext : ∀ v s, v ≠ last → P v s → P (v + 1) (f s))
    (hlast : ∀ s, P last s → Q (f s)) {v : BitVec w} (hs : P v s) :
    Shows f o s (counting v last y) Q := by
  -- by the way still to go
  generalize hd : (last - v).toNat = d
  induction d generalizing v s with
  | zero =>
    obtain rfl := sub_toNat_eq_zero.mp hd
    rw [counting_last]
    exact ⟨hout v s hs, hlast s hs⟩
  | succ d ih =>
    have hv : v ≠ last := by
      rintro rfl
      rw [sub_toNat_eq_zero.mpr rfl] at hd
      exact absurd hd (Nat.succ_ne_zero d).symm
    have hrest := sub_next hv
    rw [counting_next hv]
    exact ⟨hout v s hs, ih (hnext v s hv hs) (by omega)⟩

/-- A waveform, output by output. -/
theorem Shows.get (h : Shows f o s l Q) {k : Nat} (hk : k < l.length) : o (f^[k] s) = l[k] := by
  induction l generalizing s k with
  | nil => exact absurd hk (Nat.not_lt_zero k)
  | cons x l ih =>
    cases k with
    | zero => exact h.1
    | succ k => exact ih h.2 (Nat.lt_of_succ_lt_succ hk)

theorem Shows.after (h : Shows f o s l Q) : Q (f^[l.length] s) := by
  induction l generalizing s with
  | nil => exact h
  | cons x l ih => exact ih h.2

/-- **A waveform that leads to its own beginning**. -/
theorem shows_cycle (hl : 0 < l.length) (h : ∀ s, P s → Shows f o s l P) (hs : P s) (k : Nat) :
    o (f^[k] s) = getElem l (k % l.length) (Nat.mod_lt k hl) := by
  have hround : ∀ n, P (f^[n * l.length] s) := by
    intro n
    induction n with
    | zero => simpa using hs
    | succ n ih =>
      rw [Nat.succ_mul, Nat.add_comm, Function.iterate_add_apply]
      exact (h _ ih).after
  have hget := (h _ (hround (k / l.length))).get (Nat.mod_lt k hl)
  rwa [← Function.iterate_add_apply, Nat.mod_add_div'] at hget

end Waveform
