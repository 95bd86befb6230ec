import Mathlib.Data.Nat.Find
import CameraLcd.Lcd.Rendezvous
import CameraLcd.Lcd.SharedMemory

/-!
# Every display session ends

A session of a valid buffer on a bus that answers again and again comes to its end, and a
continuous display begins the next one in the cycle after that.

* `toShow` — the number of words the LCD still has to get, read off from the registers alone.
* `round` — a burst too many for the FIFO costs 16 words, so `Check_Master` comes back with less
  to show, or not at all.
* `session_ends` — the end of a session.
* `displays_forever` — in a continuous display there is a session from every cycle on, and each
  one shows its whole buffer.
-/

set_option autoImplicit false

namespace CameraLcd.FullLcd

open Clocked

/-! ## How much is left to show -/

/-- The bursts still to be requested. -/
def requests (m : LcdMaster.Regs) : Nat :=
  if m.state = .init then 0 else (m.endAdd - nextAdd m).toNat / 64

theorem Ahead.requests_eq {todo : Nat} {m : LcdMaster.Regs} (h : Ahead todo m) :
    requests m = todo := by
  unfold requests
  split
  · rename_i hm
    exact (h.done hm).symm
  · rename_i hm
    have hsmall := h.small
    rw [h.endAdd hm, BitVec.add_comm, BitVec.add_sub_cancel, BitVec.toNat_ofNat,
      Nat.mod_eq_of_lt (by omega)]
    omega

section Counts

variable {F : PixelFifo} {s : Regs F} {i : Inputs} {todo : Nat}

/-- The words the LCD still has to get in this session. -/
def toShow (s : Regs F) : Nat :=
  (inFlight s).length + fill s + 2 * s.pending.length + 32 * requests s.master +
    (closing s).length

theorem owed_length (memory : BitVec 32 → BitVec 32) (h : Ahead todo s.master) :
    (owed s memory todo).length = toShow s := by
  simp only [owed, onTheWay, toShow, h.requests_eq, fill, words, length_halves,
    List.length_append, List.length_map, List.length_range]
  omega

theorem toShow_step (i' : Inputs) (hs : Sound s) (h : Showing s) (hf : ¬ Finishes s)
    (ha : Ahead todo s.master) : (∃ todo', Ahead todo' (step s i).master) ∧
      (strobeNext s i i').length + toShow (step s i) = toShow s := by
  obtain ⟨todo', ha', howed⟩ := owed_step i' hs h hf rfl ha
  have hlen := congrArg List.length howed
  rw [List.length_append, owed_length _ ha', owed_length _ ha] at hlen
  exact ⟨⟨todo', ha'⟩, hlen⟩

end Counts

/-! ## Leaving `Check_Master` -/

section Exit

variable {F : PixelFifo} {inp : Nat → Inputs} {n : Nat}

theorem control_succ (n : Nat) : (regs F inp (n + 1)).control =
    LcdControl.clock (regs F inp n).control (controlInputs (regs F inp n) (inp n)) := rfl

/-- `Check_Master` is left for `Empty` or for the first word in `Empty_16`. -/
theorem checkMaster_exit (hj : ∀ n, Joint (regs F inp n) (inp n)) (hbus : Answering inp)
    (hc : (regs F inp n).control.state = .checkMaster) :
    ∃ m, n < m ∧ ((regs F inp m).control.state = .empty ∨
      (regs F inp m).control.state = .empty16 ∧ (regs F inp m).control.counterWord ≠ 32) := by
  by_contra hno
  have hstays : ∀ m, n ≤ m → (regs F inp m).control.state = .checkMaster := by
    intro m hm
    induction m, hm using Nat.le_induction with
    | base => exact hc
    | succ m hm ih =>
      have hzero := (sound_run F inp m).counters.word_zero (by simp [ih]) (by simp [ih])
      have hstep : (regs F inp (m + 1)).control = _ := control_succ m
      rw [LcdControl.clock_checkMaster ih] at hstep
      by_contra hne
      apply hno
      refine ⟨m + 1, by omega, ?_⟩
      rw [hstep] at hne ⊢
      cases hready : (controlInputs (regs F inp m) (inp m)).masterReady with
      | true => exact .inl rfl
      | false =>
        cases hwait : (controlInputs (regs F inp m) (inp m)).masterWaiting with
        | true => exact .inr ⟨by simp, by simp [hzero]⟩
        | false => simp [hready, hwait] at hne
  obtain ⟨m, hm, hleft⟩ := checkMaster_left hj hbus hc
  rw [hstays m (by omega)] at hleft
  simp at hleft

theorem display16_opens (hc : (regs F inp n).control.state = .empty16)
    (h32 : (regs F inp n).control.counterWord ≠ 32) (t : Nat) (ht : t ≤ 8) :
    (regs F inp (n + 1 + t)).control.state = .display16 ∧
      (regs F inp (n + 1 + t)).control.counterTime = t := by
  induction t with
  | zero =>
    have h0 := (sound_run F inp n).counters.time_zero (by rw [hc]; rfl)
    rw [Nat.add_zero, control_succ, LcdControl.clock_empty16 hc]
    exact ⟨if_neg h32, h0⟩
  | succ t ih =>
    obtain ⟨hd, htime⟩ := ih (by omega)
    have hstep : (regs F inp (n + 1 + (t + 1))).control = _ :=
      control_writing (i := inp (n + 1 + t)) (s := regs F inp (n + 1 + t)) (by rw [hd]; rfl)
        (by omega)
    rw [hstep]
    exact ⟨hd, by simp only [htime]⟩

end Exit

/-! ## A session that does not end -/

section Open

variable {F : PixelFifo} {inp : Nat → Inputs} {c : Nat}

theorem opening_open (hstart : Starts F inp c) (j : Nat) (hj : j ≤ 10)
    (hcpu : ∀ k < c + j, Undisturbed (regs F inp k) (inp k) (inp (k + 1))) :
    ¬ Finishes (regs F inp (c + j)) := by
  rintro ⟨hend, -⟩
  by_cases h8 : j ≤ 8
  · rw [(at_command hstart j h8 hcpu).1] at hend
    cases hend
  · obtain rfl | rfl : j = 9 ∨ j = 10 := by omega
    · rw [(at_checkCommand hstart hcpu).2.1] at hend
      cases hend
    · rw [(at_copy hstart hcpu).control] at hend
      cases hend

/-- `End_Display` is not entered: its write cycle is the end of the session. -/
theorem endDisplay_ends (hopen : ∀ k, c ≤ k → ¬ Finishes (regs F inp k)) {n : Nat} (hn : c ≤ n) :
    (regs F inp n).control.state ≠ .endDisplay := by
  intro hc
  have htimes : ∀ t, (regs F inp (n + t)).control.state = .endDisplay ∧
      t ≤ (regs F inp (n + t)).control.counterTime := by
    intro t
    induction t with
    | zero => exact ⟨hc, Nat.zero_le _⟩
    | succ t ih =>
      obtain ⟨hend, ht⟩ := ih
      have h8 : (regs F inp (n + t)).control.counterTime ≠ 8 :=
        fun h8 => hopen (n + t) (by omega) (finishes_iff.mpr ⟨hend, h8⟩)
      have hstep : (regs F inp (n + (t + 1))).control = _ :=
        control_writing (i := inp (n + t)) (s := regs F inp (n + t)) (by rw [hend]; rfl) h8
      rw [hstep]
      exact ⟨hend, Nat.succ_le_succ ht⟩
  have hle := (sound_run F inp (n + 9)).counters.time_le
  have hge := (htimes 9).2
  omega

variable (hstart : Starts F inp c) (hvalid : ValidBuffer (inp (c + 10)))
  (hcpu : ∀ k, Undisturbed (regs F inp k) (inp k) (inp (k + 1)))
  (hopen : ∀ k, c ≤ k → ¬ Finishes (regs F inp k))

include hstart hvalid hcpu hopen

/-- The stages of the session and the bursts ahead, in every cycle. -/
theorem open_run (j : Nat) : Showing (regs F inp (c + 11 + j)) ∧
    ∃ todo, Ahead todo (regs F inp (c + 11 + j)).master := by
  refine ⟨showing_states hstart j (fun k _ => hcpu k) fun k h _ => hopen k h, ?_⟩
  induction j with
  | zero => exact ⟨_, (ahead_copied (at_copy hstart fun k _ => hcpu k) hvalid).1⟩
  | succ j ih =>
    obtain ⟨todo, ha⟩ := ih
    have hshow := showing_states hstart j (fun k _ => hcpu k) fun k h _ => hopen k h
    exact (toShow_step (inp (c + 11 + j)) (sound_run F inp _) hshow (hopen _ (by omega)) ha).1

theorem toShow_succ {n : Nat} (hn : c + 11 ≤ n) :
    (strobeNext (regs F inp n) (inp n) (inp (n + 1))).length + toShow (regs F inp (n + 1)) =
      toShow (regs F inp n) := by
  obtain ⟨j, rfl⟩ := Nat.exists_eq_add_of_le hn
  obtain ⟨hshow, todo, ha⟩ := open_run hstart hvalid hcpu hopen j
  exact (toShow_step _ (sound_run F inp _) hshow (hopen _ (by omega)) ha).2

theorem toShow_le {n m : Nat} (hn : c + 11 ≤ n) (hnm : n ≤ m) :
    toShow (regs F inp m) ≤ toShow (regs F inp n) := by
  induction m, hnm using Nat.le_induction with
  | base => exact Nat.le_refl _
  | succ m hnm ih =>
    have hstep := toShow_succ hstart hvalid hcpu hopen (show c + 11 ≤ m by omega)
    omega

/-- **A wait for `Write_16` costs words**: `Check_Master` comes back with less to show, unless
everything has been requested. -/
theorem round (hbus : Answering inp) {n : Nat} (hn : c + 11 ≤ n)
    (hc : (regs F inp n).control.state = .checkMaster) :
    ∃ m, n < m ∧ ((regs F inp m).control.state = .endDisplay ∨
      (regs F inp m).control.state = .checkMaster ∧
        toShow (regs F inp m) < toShow (regs F inp n)) := by
  have hj : ∀ k, Joint (regs F inp k) (inp k) := fun k => joint_run F inp k fun k _ => hcpu k
  obtain ⟨m, hnm, hempty | ⟨h16, h32⟩⟩ := checkMaster_exit hj hbus hc
  · obtain ⟨m', hm', hend⟩ := draining_left hj (.inl hempty)
    exact ⟨m', by omega, .inl hend⟩
  · -- the first of the 16 words is strobed five edges later
    have hless : toShow (regs F inp (m + 5)) < toShow (regs F inp n) := by
      have hle := toShow_le hstart hvalid hcpu hopen hn (show n ≤ m + 4 by omega)
      have hstep := toShow_succ hstart hvalid hcpu hopen (show c + 11 ≤ m + 4 by omega)
      obtain ⟨hd, ht⟩ := display16_opens h16 h32 3 (by omega)
      rw [show m + 1 + 3 = m + 4 by omega] at hd ht
      rw [strobeNext, LcdControl.strobeNext_some (by rw [hd]; rfl) ht, List.length_singleton]
        at hstep
      rw [show m + 5 = m + 4 + 1 by omega]
      omega
    have hwait : (regs F inp (m + 5)).master.state = .waitLcdControl := by
      have hd := (display16_opens h16 h32 4 (by omega)).1
      rw [show m + 1 + 4 = m + 5 by omega] at hd
      exact ((hj (m + 5)).stage_of hd : Draining16 _).master
    obtain ⟨k, hk, -, hw⟩ := waitLcdControl_left hj hwait
    obtain ⟨hck, hwk⟩ : (regs F inp k).control.state = .empty16 ∧
        (regs F inp k).control.counterWord = 32 := by
      simpa [LcdControl.write16] using hw
    refine ⟨k + 1, by omega, .inr ⟨?_, ?_⟩⟩
    · rw [control_succ, LcdControl.clock_empty16 hck]
      exact if_pos hwk
    · exact Nat.lt_of_le_of_lt
        (toShow_le hstart hvalid hcpu hopen (show c + 11 ≤ m + 5 by omega) (by omega)) hless

end Open

/-! ## The end of a session -/

section Ends

variable {F : PixelFifo} {inp : Nat → Inputs} {c : Nat}

/-- **A session ends**, whatever the memory and however long the bus takes. -/
theorem session_ends (hstart : Starts F inp c) (hvalid : ValidBuffer (inp (c + 10)))
    (hcpu : ∀ k, Undisturbed (regs F inp k) (inp k) (inp (k + 1))) (hbus : Answering inp) :
    ∃ n, c + 11 ≤ n ∧ Finishes (regs F inp n) ∧
      ∀ k, c ≤ k → k < n → ¬ Finishes (regs F inp k) := by
  have hends : ∃ n, c ≤ n ∧ Finishes (regs F inp n) := by
    by_contra hno
    have hopen : ∀ k, c ≤ k → ¬ Finishes (regs F inp k) := fun k hk hf => hno ⟨k, hk, hf⟩
    have hchecks : (regs F inp (c + 11)).control.state = .checkMaster :=
      (copying_step (sound_run F inp (c + 10)) (at_copy hstart fun k _ => hcpu k)).control
    obtain ⟨m, hm, -, hend⟩ := leadsTo_of_rank
      (P := fun n => c + 11 ≤ n ∧ (regs F inp n).control.state = .checkMaster)
      (Q := fun n => c ≤ n ∧ (regs F inp n).control.state = .endDisplay)
      (fun n => toShow (regs F inp n)) (by
        rintro n ⟨hn, hc⟩
        obtain ⟨m, hm, hend | ⟨hcm, hless⟩⟩ := round hstart hvalid hcpu hopen hbus hn hc
        · exact ⟨m, hm, .inl ⟨by omega, hend⟩⟩
        · exact ⟨m, hm, .inr ⟨⟨by omega, hcm⟩, hless⟩⟩)
      (show c + 11 ≤ c + 11 ∧ _ from ⟨Nat.le_refl _, hchecks⟩)
    exact endDisplay_ends hopen (by omega) hend
  classical
  refine ⟨Nat.find hends, ?_, (Nat.find_spec hends).2, ?_⟩
  · by_contra hlt
    obtain ⟨j, hj⟩ := Nat.exists_eq_add_of_le (Nat.find_spec hends).1
    refine opening_open hstart j (by omega) (fun k _ => hcpu k) ?_
    rw [← hj]
    exact (Nat.find_spec hends).2
  · intro k hk hlt hf
    exact Nat.find_min hends hlt ⟨hk, hf⟩

/-- With the request 11 standing, the next session begins in the cycle after the end. -/
theorem starts_again {n : Nat} (hf : Finishes (regs F inp n))
    (h3 : (inp n).stateCommandData = 3)
    (hmw : LcdControl.memoryWrite (inp (n + 1)).commandData = true) : Starts F inp (n + 1) := by
  obtain ⟨hc, h8⟩ := finishes_iff.mp hf
  have hstep : (regs F inp (n + 1)).control = _ := control_succ n
  rw [LcdControl.clock_endDisplay_done hc h8] at hstep
  refine ⟨?_, by rw [hstep], hmw⟩
  rw [hstep]
  simp [controlInputs, h3]

end Ends

/-! ## A continuous display -/

/-- From cycle `c0` on the CPU asks for a continuous display of valid buffers. -/
structure Continuous (inp : Nat → Inputs) (c0 : Nat) : Prop where
  request : ∀ k, c0 ≤ k → (inp k).stateCommandData = 3
  command : ∀ k, c0 ≤ k → LcdControl.memoryWrite (inp k).commandData = true
  valid : ∀ k, c0 ≤ k → ValidBuffer (inp k)

section Forever

variable {F : PixelFifo} {inp : Nat → Inputs} {c0 : Nat}

/-- From every cycle on there is a session that begins. -/
theorem starts_recur (hstart : Starts F inp c0) (h : Continuous inp c0)
    (hcpu : ∀ k, Undisturbed (regs F inp k) (inp k) (inp (k + 1))) (hbus : Answering inp)
    (m : Nat) : ∃ c, m ≤ c ∧ c0 ≤ c ∧ Starts F inp c := by
  induction m with
  | zero => exact ⟨c0, Nat.zero_le _, Nat.le_refl _, hstart⟩
  | succ m ih =>
    obtain ⟨c, hmc, hc, hs⟩ := ih
    obtain ⟨n, hn, hf, -⟩ := session_ends hs (h.valid _ (by omega)) hcpu hbus
    exact ⟨n + 1, by omega, by omega,
      starts_again hf (h.request n (by omega)) (h.command (n + 1) (by omega))⟩

end Forever

/-- **A continuous display goes on for ever**: from every cycle on there is a session that begins
and ends, and it has shown the whole of its buffer if that did not change under its reads. -/
theorem displays_forever (F : PixelFifo) (inp : Nat → Inputs) (c0 : Nat)
    (hstart : Starts F inp c0) (h : Continuous inp c0)
    (hcpu : ∀ k, Undisturbed (regs F inp k) (inp k) (inp (k + 1))) (hbus : Answering inp)
    (m : Nat) : ∃ c n, m ≤ c ∧ c + 11 ≤ n ∧ Starts F inp c ∧ Finishes (regs F inp n) ∧
      ∀ memory, Steady F inp memory c n → shown F inp c n = screen memory (inp (c + 10)) := by
  obtain ⟨c, hmc, hc, hs⟩ := starts_recur hstart h hcpu hbus m
  have hvalid := h.valid (c + 10) (by omega)
  obtain ⟨n, hn, hf, hopen⟩ := session_ends hs hvalid hcpu hbus
  refine ⟨c, n, hmc, hn, hs, hf, ?_⟩
  intro memory hsteady
  exact (shows_shared hs (by omega) hvalid (fun k _ => hcpu k) hopen hsteady).2 hf

/-- A continuous display of a single burst; the bus never waits. -/
def onAndOn (_ : Nat) : Inputs := ⟨0x2C, 3, 0x1000, 64, 1, false, true, fun a => a⟩

theorem onAndOn_valid : ValidBuffer (onAndOn 0) := by decide

theorem displays_forever_onAndOn : ∃ c n, 1000 ≤ c ∧ c + 11 ≤ n ∧
    Starts (MixedFifo.exact halves 1024 2 4 0) onAndOn c ∧
      Finishes (regs (MixedFifo.exact halves 1024 2 4 0) onAndOn n) ∧
        ∀ memory, Steady (MixedFifo.exact halves 1024 2 4 0) onAndOn memory c n →
          shown (MixedFifo.exact halves 1024 2 4 0) onAndOn c n =
            screen memory (onAndOn (c + 10)) :=
  displays_forever _ onAndOn 1 ⟨rfl, rfl, by decide⟩
    ⟨fun _ _ => rfl, fun _ _ => rfl, fun _ _ => onAndOn_valid⟩ (fun _ _ _ => rfl)
    ⟨fun n => ⟨n, Nat.le_refl n, rfl⟩, fun n => ⟨n, Nat.le_refl n, rfl⟩⟩ 1000

end CameraLcd.FullLcd
