import CameraLcd.Lcd.Session

/-!
# A display session in a memory that others write

The camera goes on writing while a session runs, so the memory as a whole does not keep its
content.  A session depends on it in the cycles with a read on the bus only, and there on the
buffer that it has latched.

* `Claims` — the buffer a session reads, from its `Copy` cycle on.
* `reads_inside` — every read goes to a block of that buffer.
* `frozen_run` — a memory that stands still from the start of the session on gives the same run if
  the buffer is the same in every cycle with a read.
* `shows_shared` — what has been shown is a prefix of the buffer, and all of it at the end.
-/

set_option autoImplicit false

namespace CameraLcd.FullLcd

open Clocked

/-- Word `k` of the buffer that is latched in this cycle. -/
def wordAt (i : Inputs) (k : Nat) : BitVec 32 := base i + BitVec.ofNat 32 (4 * k)

/-! ## The buffer of a session -/

/-- The buffer that was latched with the inputs `i0` is in use. -/
structure Claims {F : PixelFifo} (i0 : Inputs) (s : Regs F) : Prop where
  endAdd : s.master.endAdd = base i0 + BitVec.ofNat 32 i0.lengthBuffer.toNat
  used : s.master.bufferUsed = i0.bufferSaved

section Claimed

variable {F : PixelFifo} {s : Regs F} {i : Inputs}

/-- Between `Copy` and `Init` the end address stands. -/
theorem endAdd_reading {r : LcdMaster.Regs} (i : LcdMaster.Inputs) (h : LcdMaster.Reading r) :
    (LcdMaster.clock r i).endAdd = r.endAdd := by
  obtain ⟨h1, h2⟩ := h
  cases hs : r.state with
  | init => exact absurd hs h1
  | copy => exact absurd hs h2
  | assertReadData => rw [LcdMaster.clock_assertReadData hs]
  | checkWaitRequest => rw [LcdMaster.clock_checkWaitRequest hs]
  | readData => rw [LcdMaster.clock_readData hs]
  | newAdd => rw [LcdMaster.clock_newAdd hs]
  | checkAdd => rw [LcdMaster.clock_checkAdd hs]
  | checkFifo => rw [LcdMaster.clock_checkFifo hs]
  | waitLcdControl => rw [LcdMaster.clock_waitLcdControl hs]

/-- A session never goes back to `Copy`. -/
theorem Showing.not_copy (h : Showing s) : s.master.state ≠ .copy := by
  cases h with
  | fetching h => exact h.master
  | draining16 h => simp [h.master]
  | draining h => simp [h.master]
  | ending h => simp [h.master]

theorem Showing.not_checkCommand (h : Showing s) : s.control.state ≠ .checkCommand := by
  cases h with
  | fetching h => simp [h.control]
  | draining16 h => rcases h.control with hc | hc <;> simp [hc]
  | draining h => rcases h.control with hc | hc <;> simp [hc]
  | ending h => simp [h.control]

/-- The DMA is not started again before the session is over. -/
theorem Showing.init_step (h : Showing s) (hm : s.master.state = .init) (i : Inputs) :
    (step s i).master.state = .init := by
  show (LcdMaster.clock s.master (masterInputs s i)).state = .init
  rw [LcdMaster.clock_init hm]
  simp [masterInputs, masterStart_false h.not_checkCommand]

theorem claims_open (h : Copying s i) (hv : ValidBuffer i) : Claims i (step s i) := by
  have hm : (step s i).master = LcdMaster.clock s.master (masterInputs s i) := rfl
  rw [LcdMaster.clock_copy h.master] at hm
  refine ⟨?_, by rw [hm]; rfl⟩
  rw [hm]
  show LcdMaster.endOf (masterInputs s i) = _
  rw [LcdMaster.endOf_eq hv.small hv.saved, LcdMaster.startOf_eq hv.small]
  rfl

theorem Claims.step {i0 : Inputs} (h : Claims i0 s) (hread : LcdMaster.Reading s.master)
    (i : Inputs) : Claims i0 (step s i) :=
  ⟨(endAdd_reading _ hread).trans h.endAdd, (LcdMaster.bufferUsed_reading _ hread).trans h.used⟩

end Claimed

/-! ## Where a session reads -/

section Runs

variable {F : PixelFifo} {inp : Nat → Inputs} {memory : BitVec 32 → BitVec 32} {c n : Nat}

/-- The stages of a session follow each other whatever the memory holds. -/
theorem showing_states (hstart : Starts F inp c) (j : Nat)
    (hcpu : ∀ k < c + 11 + j, Undisturbed (regs F inp k) (inp k) (inp (k + 1)))
    (hopen : ∀ k, c ≤ k → k < c + 11 + j → ¬ Finishes (regs F inp k)) :
    Showing (regs F inp (c + 11 + j)) := by
  induction j with
  | zero =>
    exact .fetching (copying_step (sound_run F inp (c + 10))
      (at_copy hstart fun k hk => hcpu k (by omega)))
  | succ j ih =>
    have hshow := ih (fun k hk => hcpu k (by omega)) fun k h1 h2 => hopen k h1 (by omega)
    exact showing_step (sound_run F inp (c + 11 + j)) hshow (hopen _ (by omega) (by omega)) _

/-- A DMA that is not done has been reading from the start of the session on. -/
theorem reading_before (hstart : Starts F inp c) (j : Nat)
    (hcpu : ∀ k < c + 11 + j, Undisturbed (regs F inp k) (inp k) (inp (k + 1)))
    (hopen : ∀ k, c ≤ k → k < c + 11 + j → ¬ Finishes (regs F inp k))
    (hm : (regs F inp (c + 11 + j)).master.state ≠ .init) :
    ∀ i ≤ j, LcdMaster.Reading (regs F inp (c + 11 + i)).master := by
  induction j with
  | zero =>
    intro i hi
    obtain rfl : i = 0 := by omega
    exact ⟨hm, (showing_states hstart 0 hcpu hopen).not_copy⟩
  | succ j ih =>
    intro i hi
    have hs := showing_states hstart j (fun k hk => hcpu k (by omega))
      fun k h1 h2 => hopen k h1 (by omega)
    by_cases hij : i = j + 1
    · subst hij
      exact ⟨hm, (showing_states hstart (j + 1) hcpu hopen).not_copy⟩
    · apply ih (fun k hk => hcpu k (by omega)) (fun k h1 h2 => hopen k h1 (by omega)) _ i (by omega)
      intro h
      exact hm (hs.init_step h _)

/-- The buffer of the session is in use until the DMA is done. -/
theorem claims_run (hstart : Starts F inp c) (hvalid : ValidBuffer (inp (c + 10))) (j : Nat)
    (hcpu : ∀ k < c + 11 + j, Undisturbed (regs F inp k) (inp k) (inp (k + 1)))
    (hopen : ∀ k, c ≤ k → k < c + 11 + j → ¬ Finishes (regs F inp k))
    (hm : (regs F inp (c + 11 + j)).master.state ≠ .init) :
    Claims (inp (c + 10)) (regs F inp (c + 11 + j)) := by
  induction j with
  | zero => exact claims_open (at_copy hstart fun k hk => hcpu k (by omega)) hvalid
  | succ j ih =>
    have hread := reading_before hstart (j + 1) hcpu hopen hm j (by omega)
    exact (ih (fun k hk => hcpu k (by omega)) (fun k h1 h2 => hopen k h1 (by omega)) hread.1).step
      hread _

theorem length_halves (ws : List (BitVec 32)) : (ws.flatMap halves).length = 2 * ws.length := by
  induction ws with
  | nil => rfl
  | cons w ws ih =>
    rw [List.flatMap_cons, List.length_append, ih, List.length_cons]
    show 2 + _ = _
    omega

/-- No more bursts are ahead than there are words to show. -/
theorem ahead_le {s : Regs F} {i0 : Inputs} {todo : Nat} {shown : List LcdControl.Strobe}
    (hv : ValidBuffer i0) (h : shown ++ owed s memory todo = screen memory i0) :
    64 * todo ≤ i0.lengthBuffer.toNat := by
  have hlen := congrArg List.length h
  simp only [owed, onTheWay, screen, List.length_append, List.length_map, List.length_range,
    List.length_cons, List.length_nil, length_halves, words] at hlen
  have := hv.bursts
  omega

/-- **Every read of a session goes to a block of its buffer.** -/
theorem reads_inside {s : Regs F} {i0 : Inputs} {todo : Nat} (hv : ValidBuffer i0)
    (hc : Claims i0 s) (ha : Ahead todo s.master) (hle : 64 * todo ≤ i0.lengthBuffer.toNat)
    (hm : s.master.state = .checkWaitRequest) :
    ∃ b, 64 * (b + 1) ≤ i0.lengthBuffer.toNat ∧
      LcdMaster.avmAddress s.master = base i0 + BitVec.ofNat 32 (64 * b) := by
  have hpos := ha.pos (by simp [hm]) (by simp [taking, hm])
  have hbursts := hv.bursts
  have haddr : LcdMaster.avmAddress s.master = s.master.add := by
    simp [LcdMaster.avmAddress, LcdMaster.addressing, hm]
  have hend := ha.endAdd (by simp [hm])
  rw [hc.endAdd, nextAdd, if_neg (by simp [hm])] at hend
  refine ⟨i0.lengthBuffer.toNat / 64 - todo, by omega, ?_⟩
  rw [haddr]
  have hsplit : i0.lengthBuffer.toNat =
      64 * (i0.lengthBuffer.toNat / 64 - todo) + 64 * todo := by omega
  rw [hsplit, BitVec.ofNat_add, ← BitVec.add_assoc] at hend
  exact (BitVec.add_left_inj _).mp hend.symm

/-! ## A memory that stands still -/

/-- The inputs with the memory stopped from cycle `c` on. -/
def frozen (inp : Nat → Inputs) (memory : BitVec 32 → BitVec 32) (c k : Nat) : Inputs :=
  if k < c then inp k else { inp k with memory := memory }

/-- An edge looks at the memory for a read only. -/
theorem step_frozen {s : Regs F} {i : Inputs} (h : s.master.avmRead = true →
      words i.memory (LcdMaster.avmAddress s.master) (LcdMaster.avmBurstCount s.master).toNat =
        words memory (LcdMaster.avmAddress s.master) (LcdMaster.avmBurstCount s.master).toNat) :
    step s { i with memory := memory } = step s i := by
  have hb : burst s { i with memory := memory } = burst s i := by
    unfold burst
    cases hr : s.master.avmRead with
    | false => rfl
    | true =>
      rw [h hr]
  unfold step
  rw [hb]
  rfl

/-- The words of the buffer are the same as in `memory` whenever a read is on the bus. -/
def Steady (F : PixelFifo) (inp : Nat → Inputs) (memory : BitVec 32 → BitVec 32) (c n : Nat) :
    Prop :=
  ∀ k, c + 10 < k → k < n → (regs F inp k).master.avmRead = true →
    ∀ j, 4 * j < (inp (c + 10)).lengthBuffer.toNat →
      (inp k).memory (wordAt (inp (c + 10)) j) = memory (wordAt (inp (c + 10)) j)

theorem frozen_memory {k : Nat} (h : c ≤ k) : (frozen inp memory c k).memory = memory := by
  rw [frozen, if_neg (by omega)]

theorem frozen_control (k : Nat) (s : Regs F) :
    controlInputs s (frozen inp memory c k) = controlInputs s (inp k) := by
  unfold frozen
  split <;> rfl

theorem frozen_commandData (k : Nat) :
    (frozen inp memory c k).commandData = (inp k).commandData := by
  unfold frozen
  split <;> rfl

theorem frozen_screen (k : Nat) (m : BitVec 32 → BitVec 32) :
    screen m (frozen inp memory c k) = screen m (inp k) := by
  unfold frozen
  split <;> rfl

theorem frozen_validBuffer {k : Nat} (h : ValidBuffer (inp k)) :
    ValidBuffer (frozen inp memory c k) := by
  unfold frozen
  split
  · exact h
  · exact ⟨h.pos, h.bursts, h.small, h.saved⟩

theorem frozen_undisturbed {s : Regs F} {k : Nat} (h : Undisturbed s (inp k) (inp (k + 1))) :
    Undisturbed s (frozen inp memory c k) (frozen inp memory c (k + 1)) := by
  intro hs hmw
  rw [frozen_commandData] at hmw ⊢
  rw [frozen_commandData]
  exact h hs hmw

/-- The run with the stopped memory, if it has been the same run up to cycle `n`. -/
theorem frozen_showing (hstart : Starts F inp c) (hvalid : ValidBuffer (inp (c + 10))) (j : Nat)
    (hcpu : ∀ k < c + 11 + j, Undisturbed (regs F inp k) (inp k) (inp (k + 1)))
    (hopen : ∀ k, c ≤ k → k < c + 11 + j → ¬ Finishes (regs F inp k))
    (hsame : ∀ k ≤ c + 11 + j, regs F (frozen inp memory c) k = regs F inp k) :
    Showing (regs F inp (c + 11 + j)) ∧
      ∃ todo, Ahead todo (regs F inp (c + 11 + j)).master ∧
        shown F (frozen inp memory c) c (c + 11 + j) ++
          owed (regs F inp (c + 11 + j)) memory todo = screen memory (inp (c + 10)) := by
  have hstart' : Starts F (frozen inp memory c) c := by
    obtain ⟨hs, ht, hmw⟩ := hstart
    refine ⟨?_, ?_, by rw [frozen_commandData]; exact hmw⟩
    · rw [hsame c (by omega)]
      exact hs
    · rw [hsame c (by omega)]
      exact ht
  have hmem : ∀ k, c ≤ k → k ≤ c + 11 + j → (frozen inp memory c k).memory = memory :=
    fun k h1 _ => frozen_memory h1
  have hrun := showing_run hstart' (frozen_validBuffer hvalid) j
    (fun k hk => by
      rw [hsame k (by omega)]
      exact frozen_undisturbed (hcpu k hk))
    hmem
    (fun k h1 h2 => by
      rw [hsame k (by omega)]
      exact hopen k h1 h2)
  rw [hsame _ (Nat.le_refl _), frozen_screen] at hrun
  exact hrun

/-- Before the first request of the session nothing is on the bus. -/
theorem opening_quiet (hstart : Starts F inp c) (j : Nat) (hj : j ≤ 10)
    (hcpu : ∀ k < c + j, Undisturbed (regs F inp k) (inp k) (inp (k + 1))) :
    (regs F inp (c + j)).master.avmRead = false := by
  rw [(sound_run F inp (c + j)).bus.read]
  have hstate : (regs F inp (c + j)).master.state = .init ∨
      (regs F inp (c + j)).master.state = .copy := by
    by_cases h8 : j ≤ 8
    · have hc := (at_command hstart j h8 hcpu).1
      exact .inl ((joint_run F inp (c + j) hcpu).command hc).master
    · obtain rfl | rfl : j = 9 ∨ j = 10 := by omega
      · exact .inl (at_checkCommand hstart hcpu).1.master
      · exact .inr (at_copy hstart hcpu).master
  rcases hstate with h | h <;> simp [h]

/-- **The rest of the memory does not matter**: with the memory stopped the run is the same. -/
theorem frozen_run (hstart : Starts F inp c) (hvalid : ValidBuffer (inp (c + 10)))
    (hcpu : ∀ k < n, Undisturbed (regs F inp k) (inp k) (inp (k + 1)))
    (hopen : ∀ k, c ≤ k → k < n → ¬ Finishes (regs F inp k)) (hsteady : Steady F inp memory c n) :
    ∀ k ≤ n, regs F (frozen inp memory c) k = regs F inp k := by
  intro k
  induction k using Nat.strong_induction_on with
  | h k ih =>
    intro hk
    by_cases hkc : k ≤ c
    · exact Machine.run_congr _ k fun j hj => if_pos (by omega)
    · obtain ⟨k, rfl⟩ : ∃ k', k = k' + 1 := ⟨k - 1, by omega⟩
      have hsame : ∀ j ≤ k, regs F (frozen inp memory c) j = regs F inp j :=
        fun j hj => ih j (by omega) (by omega)
      have hstep : regs F (frozen inp memory c) (k + 1) =
          step (regs F inp k) { inp k with memory := memory } := by
        rw [← hsame k (Nat.le_refl k)]
        show step _ (frozen inp memory c k) = _
        rw [frozen, if_neg (by omega)]
      rw [hstep]
      apply step_frozen
      intro hread
      by_cases h10 : k ≤ c + 10
      · obtain ⟨j, rfl⟩ := Nat.exists_eq_add_of_le (show c ≤ k by omega)
        rw [opening_quiet hstart j (by omega) fun i hi => hcpu i (by omega)] at hread
        cases hread
      · obtain ⟨j, rfl⟩ := Nat.exists_eq_add_of_le (show c + 11 ≤ k by omega)
        obtain ⟨-, todo, ha, howed⟩ := frozen_showing hstart hvalid j
          (fun k hk => hcpu k (by omega)) (fun k h1 h2 => hopen k h1 (by omega)) hsame
        have hm : (regs F inp (c + 11 + j)).master.state = .checkWaitRequest := by
          rw [(sound_run F inp (c + 11 + j)).bus.read] at hread
          exact of_decide_eq_true hread
        have hclaims := claims_run hstart hvalid j (fun k hk => hcpu k (by omega))
          (fun k h1 h2 => hopen k h1 (by omega)) (by simp [hm])
        obtain ⟨b, hb, haddr⟩ := reads_inside hvalid hclaims ha (ahead_le hvalid howed) hm
        have hcount : LcdMaster.avmBurstCount (regs F inp (c + 11 + j)).master = 16 := by
          simp [LcdMaster.avmBurstCount, LcdMaster.addressing, hm]
        rw [haddr, hcount]
        apply List.map_congr_left
        intro i hi
        have hi16 : i < 16 := List.mem_range.mp hi
        rw [BitVec.add_assoc, ← BitVec.ofNat_add,
          show 64 * b + 4 * i = 4 * (16 * b + i) by omega]
        exact hsteady _ (by omega) (by omega) hread (16 * b + i) (by omega)

/-- The LCD does not see the difference. -/
theorem shown_congr (hsame : ∀ k ≤ n, regs F (frozen inp memory c) k = regs F inp k) :
    shown F (frozen inp memory c) c n = shown F inp c n := by
  have hpins : ∀ k ≤ n, pinsAt F (frozen inp memory c) k = pinsAt F inp k := by
    intro k hk
    rw [pinsAt, hsame k hk, frozen_control]
    rfl
  unfold shown collect
  apply List.filterMap_congr
  intro k hk
  have hrange := List.mem_range'_1.mp hk
  cases k with
  | zero => omega
  | succ k =>
    have hrise : risingEdge (fun j => (pinsAt F (frozen inp memory c) j).wrx) (k + 1) =
        risingEdge (fun j => (pinsAt F inp j).wrx) (k + 1) := by
      simp only [risingEdge, hpins k (by omega), hpins (k + 1) (by omega)]
    rw [LcdControl.strobe, LcdControl.strobe, hrise, hpins (k + 1) (by omega)]

/-- **A session shows its buffer** whatever is written elsewhere. -/
theorem shows_shared (hstart : Starts F inp c) (hcn : c ≤ n)
    (hvalid : ValidBuffer (inp (c + 10)))
    (hcpu : ∀ k < n, Undisturbed (regs F inp k) (inp k) (inp (k + 1)))
    (hopen : ∀ k, c ≤ k → k < n → ¬ Finishes (regs F inp k)) (hsteady : Steady F inp memory c n) :
    shown F inp c n <+: screen memory (inp (c + 10)) ∧
      (Finishes (regs F inp n) → shown F inp c n = screen memory (inp (c + 10))) := by
  have hsame := frozen_run hstart hvalid hcpu hopen hsteady
  by_cases hn : n < c + 11
  · -- the command is sent and checked
    obtain ⟨j, rfl⟩ := Nat.exists_eq_add_of_le hcn
    rw [shown_opening hstart j (by omega) hcpu]
    refine ⟨List.nil_prefix, ?_⟩
    rintro ⟨hend, -⟩
    by_cases h8 : j ≤ 8
    · rw [(at_command hstart j h8 hcpu).1] at hend
      cases hend
    · obtain rfl | rfl : j = 9 ∨ j = 10 := by omega
      · rw [(at_checkCommand hstart hcpu).2.1] at hend
        cases hend
      · rw [(at_copy hstart hcpu).control] at hend
        cases hend
  · obtain ⟨j, rfl⟩ := Nat.exists_eq_add_of_le (Nat.le_of_not_lt hn)
    obtain ⟨hshow, todo, ha, hall⟩ := frozen_showing hstart hvalid j hcpu hopen hsame
    rw [shown_congr hsame] at hall
    refine ⟨⟨_, hall⟩, fun hf => ?_⟩
    have hending : Ending (regs F inp (c + 11 + j)) := by
      obtain ⟨hend, -⟩ := hf
      cases hshow with
      | ending h => exact h
      | fetching h => simp [h.control] at hend
      | draining16 h => rcases h.control with hc | hc <;> simp [hc] at hend
      | draining h => rcases h.control with hc | hc <;> simp [hc] at hend
    have h8 := (finishes_iff.mp hf).2
    rw [owed_ending hending ha, closing, if_pos ⟨hending.control, by omega⟩,
      List.append_nil] at hall
    exact hall

end Runs

end CameraLcd.FullLcd
