import CameraLcd.Camera.Master

/-!
# The camera's write bursts

A beat is accepted in a cycle with `AM_Write = 1` and `AM_WaitRequest = 0`.  A burst starts in a
`DMA_Send_Init` cycle `t` and lasts from `t + 1` until `AM_Write` falls.

* `burst_at` — the burst invariant: in every cycle of a burst either `DMA_Send_Loop` presents
  beat `j ≤ 6` after `j` accepted beats, or `IDLE_FOR_READY` presents beat 7 after seven.
* `burstComplete_iff` — a burst is complete exactly when the slave does not stall the one cycle
  that `IDLE_FOR_READY` gives the eighth beat: that state drops `AM_Write` without a look at
  `AM_WaitRequest`, which `DMA_Send_Loop` checks for the seven beats before.
* `stalled_eighth_beat` — a run in which that cycle is stalled and the beat is lost.
-/

set_option autoImplicit false

namespace CameraLcd.CameraMaster

open Clocked

variable (b0 : BitVec 2) (inp : Nat → Inputs)

/-! ## Outside the send states the bus is idle -/

/-- `AM_Write` is low and the beat index is back at 0 on the way to `DMA_Send_Init`. -/
def Quiet (r : Regs) : Prop :=
  r.state ≠ .idleForReady → r.state ≠ .dmaSendLoop → r.amWrite = false ∧ r.indiceArrayDma = 0

theorem quiet_edge {r r' : Regs} {i : Inputs} (h : Edge r i r') (hq : Quiet r) : Quiet r' := by
  cases h with
  | stop hs | beat hs | stall hs => simp [Quiet, hs]
  | abort | lastBeat | sendInit => simp [Quiet, dmaSendInit]
  | resume | publish => simp [Quiet]
  | await hs | fetch hs | clockWait hs | collect hs | collectRelease hs | collectLast hs =>
    intro _ _
    exact hq (by simp [hs]) (by simp [hs])

theorem quiet_run (n : Nat) : Quiet (regs b0 inp n) :=
  regs_invariant (fun h => absurd rfl h) (fun _ _ _ => quiet_edge) n

/-! ## The burst invariant -/

/-- The beat accepted in cycle `n`. -/
def acceptedBeat (n : Nat) : Option (BitVec 32) :=
  if (regs b0 inp n).amWrite && !(inp n).amWaitRequest then some (regs b0 inp n).amDataWrite
  else none

/-- `DATA_Array(0), …, DATA_Array(j - 1)`. -/
def beats (d : Data) (j : Nat) : List (BitVec 32) := (List.range j).map (fun k => d.getD k 0)

theorem beats_succ (d : Data) (j : Nat) : beats d (j + 1) = beats d j ++ [d.getD j 0] := by
  simp [beats, List.range_succ]

theorem beats_prefix (d : Data) {j k : Nat} (h : j ≤ k) : beats d j <+: beats d k := by
  induction k, h using Nat.le_induction with
  | base => exact List.prefix_rfl
  | succ k _ ih =>
    rw [beats_succ]
    exact ih.trans (List.prefix_append _ _)

/-- The burst begun in cycle `t` is still on the bus in cycle `n`. -/
def Bursting (t n : Nat) : Prop := ∀ k, t < k → k ≤ n → (regs b0 inp k).amWrite = true

theorem Bursting.pred {b0 : BitVec 2} {inp : Nat → Inputs} {t n : Nat}
    (h : Bursting b0 inp t (n + 1)) : Bursting b0 inp t n :=
  fun k h1 h2 => h k h1 (by omega)

/-- Cycle `n` of the burst begun in cycle `t`: what is held, and which beat is presented. -/
structure BurstAt (t n : Nat) : Prop where
  address : (regs b0 inp n).amAdresse = (regs b0 inp t).currentAddress
  count : (regs b0 inp n).amBurstCount = 8
  enable : (regs b0 inp n).amByteEnable = 15
  data : (regs b0 inp n).dataArray = (regs b0 inp t).dataArray
  beat :
    ((regs b0 inp n).state = .dmaSendLoop ∧
      ∃ j, j ≤ 6 ∧ (regs b0 inp n).indiceArrayDma.toNat = j ∧
        (regs b0 inp n).amDataWrite = (regs b0 inp t).dataArray.getD j 0 ∧
        collect (acceptedBeat b0 inp) (t + 1) n = beats (regs b0 inp t).dataArray j) ∨
    ((regs b0 inp n).state = .idleForReady ∧
      (regs b0 inp n).amDataWrite = (regs b0 inp t).dataArray.getD 7 0 ∧
      collect (acceptedBeat b0 inp) (t + 1) n = beats (regs b0 inp t).dataArray 7)

variable {b0 inp} {t n : Nat}

theorem burstAt_start (ht : (regs b0 inp t).state = .dmaSendInit) : BurstAt b0 inp t (t + 1) := by
  have hq := (quiet_run b0 inp t (by simp [ht]) (by simp [ht])).2
  have hstep := (edge_run b0 inp t).of_dmaSendInit ht
  constructor
  case beat =>
    left
    rw [hstep]
    exact ⟨rfl, 0, by omega, by simp [dmaSendInit, hq], rfl, by simp [beats]⟩
  all_goals rw [hstep]; rfl

theorem burstAt_step (htn : t < n) (h : BurstAt b0 inp t n) (hb : Bursting b0 inp t (n + 1)) :
    BurstAt b0 inp t (n + 1) := by
  have hw : (regs b0 inp n).amWrite = true := hb n htn (by omega)
  have hw' : (regs b0 inp (n + 1)).amWrite = true := hb (n + 1) (by omega) (by omega)
  have he := edge_run b0 inp n
  obtain ⟨ha, hc, hen, hd, hbeat⟩ := h
  rcases hbeat with ⟨hs, j, hj, hdma, hdata, hcol⟩ | ⟨hs, hdata, hcol⟩
  · generalize hr' : regs b0 inp (n + 1) = r' at he hw'
    cases he with
    | stop h1 | resume h1 | publish h1 | await h1 | fetch h1 | abort h1 | clockWait h1
    | collect h1 | collectRelease h1 | collectLast h1 | sendInit h1 => simp [hs] at h1
    | stall _ hwait =>
      -- refused: nothing changes
      have hnone : acceptedBeat b0 inp n = none := by simp [acceptedBeat, hwait]
      refine ⟨by rw [hr', ha], by rw [hr', hc], by rw [hr', hen], by rw [hr', hd], Or.inl ?_⟩
      rw [hr', collect_succ_none _ (by omega) hnone]
      exact ⟨hs, j, hj, hdma, hdata, hcol⟩
    | beat _ hwait h6 =>
      have hsome : acceptedBeat b0 inp n = some ((regs b0 inp t).dataArray.getD j 0) := by
        simp [acceptedBeat, hwait, hw, hdata]
      have hj6 : j < 6 := by rw [← hdma]; simpa [BitVec.lt_def] using h6
      have hnext : ((regs b0 inp n).indiceArrayDma + 1).toNat = j + 1 := by
        rw [BitVec.toNat_add, hdma]; simp; omega
      refine ⟨by rw [hr', ← ha], by rw [hr', ← hc], by rw [hr', ← hen], by rw [hr', ← hd],
        Or.inl ?_⟩
      rw [hr', collect_succ_some _ (by omega) hsome, hcol, ← beats_succ]
      refine ⟨hs, j + 1, by omega, hnext, ?_, rfl⟩
      simp only [hnext, hd]
    | lastBeat _ hwait h6 =>
      have hsome : acceptedBeat b0 inp n = some ((regs b0 inp t).dataArray.getD j 0) := by
        simp [acceptedBeat, hwait, hw, hdata]
      have hj6 : j = 6 := by
        have : ¬ j < 6 := by rw [← hdma]; simpa [BitVec.lt_def] using h6
        omega
      have hnext : ((regs b0 inp n).indiceArrayDma + 1).toNat = 7 := by
        rw [BitVec.toNat_add, hdma, hj6]; rfl
      refine ⟨by rw [hr', ← ha], by rw [hr', ← hc], by rw [hr', ← hen], by rw [hr', ← hd],
        Or.inr ?_⟩
      rw [hr', collect_succ_some _ (by omega) hsome, hcol, ← beats_succ, hj6]
      refine ⟨rfl, ?_, rfl⟩
      simp only [hnext, hd]
  · -- `IDLE_FOR_READY` ends the burst, so the next cycle is not part of it
    generalize regs b0 inp (n + 1) = r' at he hw'
    cases he with
    | stop | resume | publish => simp at hw'
    | await h1 | fetch h1 | abort h1 | clockWait h1 | collect h1 | collectRelease h1
    | collectLast h1 | sendInit h1 | stall h1 | beat h1 | lastBeat h1 => simp [hs] at h1

/-- **The burst invariant** holds in every cycle of a burst. -/
theorem burst_at (ht : (regs b0 inp t).state = .dmaSendInit) (htn : t < n)
    (hb : Bursting b0 inp t n) : BurstAt b0 inp t n := by
  induction n, htn using Nat.le_induction with
  | base => exact burstAt_start ht
  | succ n hn ih => exact burstAt_step hn (ih hb.pred) hb

/-! ## Complete bursts -/

/-- **The burst begun in cycle `t` is a complete Avalon burst**: while `AM_Write` is high the
address, the burst count and the byte enables are held and a refused beat stays on the bus; the
accepted beats are `DATA_Array(0)`, `DATA_Array(1)`, … in order, and all eight of them by the
time `AM_Write` falls. -/
structure BurstComplete (b0 : BitVec 2) (inp : Nat → Inputs) (t : Nat) : Prop where
  rises : (regs b0 inp t).amWrite = false ∧ (regs b0 inp (t + 1)).amWrite = true
  held : ∀ n, t < n → Bursting b0 inp t n →
    (regs b0 inp n).amAdresse = (regs b0 inp t).currentAddress ∧
      (regs b0 inp n).amBurstCount = 8 ∧ (regs b0 inp n).amByteEnable = 15
  refused : ∀ n, t < n → Bursting b0 inp t n → (inp n).amWaitRequest = true →
    (regs b0 inp (n + 1)).amWrite = true ∧
      (regs b0 inp (n + 1)).amDataWrite = (regs b0 inp n).amDataWrite
  inOrder : ∀ n, t < n → Bursting b0 inp t n →
    collect (acceptedBeat b0 inp) (t + 1) (n + 1) <+: beats (regs b0 inp t).dataArray 8
  complete : ∀ n, t < n → Bursting b0 inp t n → (regs b0 inp (n + 1)).amWrite = false →
    collect (acceptedBeat b0 inp) (t + 1) (n + 1) = beats (regs b0 inp t).dataArray 8

/-- Beat `j` is on the bus after `j` accepted beats. -/
theorem BurstAt.presents (h : BurstAt b0 inp t n) :
    ∃ j, j ≤ 7 ∧ (regs b0 inp n).amDataWrite = (regs b0 inp t).dataArray.getD j 0 ∧
      collect (acceptedBeat b0 inp) (t + 1) n = beats (regs b0 inp t).dataArray j := by
  rcases h.beat with ⟨_, j, hj, _, hdata, hcol⟩ | ⟨_, hdata, hcol⟩
  · exact ⟨j, by omega, hdata, hcol⟩
  · exact ⟨7, by omega, hdata, hcol⟩

theorem BurstAt.inOrder (htn : t < n) (h : BurstAt b0 inp t n) :
    collect (acceptedBeat b0 inp) (t + 1) (n + 1) <+: beats (regs b0 inp t).dataArray 8 := by
  obtain ⟨j, hj, hdata, hcol⟩ := h.presents
  rw [collect_succ _ (by omega), hcol]
  by_cases hacc : ((regs b0 inp n).amWrite && !(inp n).amWaitRequest) = true
  · have hsome : acceptedBeat b0 inp n = some ((regs b0 inp t).dataArray.getD j 0) := by
      rw [acceptedBeat, if_pos hacc, hdata]
    rw [hsome, Option.toList_some, ← beats_succ]
    exact beats_prefix _ (by omega)
  · have hnone : acceptedBeat b0 inp n = none := by rw [acceptedBeat, if_neg hacc]
    rw [hnone, Option.toList_none, List.append_nil]
    exact beats_prefix _ (by omega)

/-- `DMA_Send_Loop` keeps `AM_Write` high, and a refused beat as well. -/
theorem loop_edge {r r' : Regs} {i : Inputs} (h : Edge r i r') (hs : r.state = .dmaSendLoop) :
    r'.amWrite = r.amWrite ∧ (i.amWaitRequest = true → r'.amDataWrite = r.amDataWrite) := by
  cases h with
  | stall => exact ⟨rfl, fun _ => rfl⟩
  | beat _ hw | lastBeat _ hw => exact ⟨rfl, fun h => by simp [hw] at h⟩
  | stop h1 | resume h1 | publish h1 | await h1 | fetch h1 | abort h1 | clockWait h1
  | collect h1 | collectRelease h1 | collectLast h1 | sendInit h1 => simp [hs] at h1

/-- `IDLE_FOR_READY` drops `AM_Write`, whatever `AM_WaitRequest` is. -/
theorem idleForReady_edge {r r' : Regs} {i : Inputs} (h : Edge r i r')
    (hs : r.state = .idleForReady) : r'.amWrite = false := by
  cases h with
  | stop | resume | publish => rfl
  | await h1 | fetch h1 | abort h1 | clockWait h1 | collect h1 | collectRelease h1
  | collectLast h1 | sendInit h1 | stall h1 | beat h1 | lastBeat h1 => simp [hs] at h1

/-- **A burst is complete iff its eighth beat is not stalled**: iff `AM_WaitRequest` is low in
the cycle of the burst that the master spends in `IDLE_FOR_READY`. -/
theorem burstComplete_iff (b0 : BitVec 2) (inp : Nat → Inputs) (t : Nat)
    (ht : (regs b0 inp t).state = .dmaSendInit) :
    BurstComplete b0 inp t ↔
      ∀ n, t < n → Bursting b0 inp t n → (regs b0 inp n).state = .idleForReady →
        (inp n).amWaitRequest = false := by
  constructor
  · intro h n htn hb hs
    cases hw : (inp n).amWaitRequest with
    | false => rfl
    | true =>
      have hhigh := (h.refused n htn hb hw).1
      rw [idleForReady_edge (edge_run b0 inp n) hs] at hhigh
      cases hhigh
  · intro h
    constructor
    · have hq := quiet_run b0 inp t (by simp [ht]) (by simp [ht])
      rw [(edge_run b0 inp t).of_dmaSendInit ht]
      exact ⟨hq.1, rfl⟩
    · intro n htn hb
      have hat := burst_at ht htn hb
      exact ⟨hat.address, hat.count, hat.enable⟩
    · intro n htn hb hw
      rcases (burst_at ht htn hb).beat with ⟨hs, _⟩ | ⟨hs, _⟩
      · obtain ⟨hhigh, hdata⟩ := loop_edge (edge_run b0 inp n) hs
        exact ⟨by rw [hhigh]; exact hb n htn (Nat.le_refl n), hdata hw⟩
      · rw [h n htn hb hs] at hw
        cases hw
    · intro n htn hb
      exact (burst_at ht htn hb).inOrder htn
    · intro n htn hb hlow
      have hhigh : (regs b0 inp n).amWrite = true := hb n htn (Nat.le_refl n)
      rcases (burst_at ht htn hb).beat with ⟨hs, _⟩ | ⟨hs, hdata, hcol⟩
      · rw [(loop_edge (edge_run b0 inp n) hs).1, hhigh] at hlow
        cases hlow
      · have hsome : acceptedBeat b0 inp n = some ((regs b0 inp t).dataArray.getD 7 0) := by
          simp [acceptedBeat, hhigh, h n htn hb hs, hdata]
        rw [collect_succ_some _ (by omega) hsome, hcol, ← beats_succ]

/-- Ready and a FIFO with words throughout; the slave stalls in cycle `s` only. -/
def stallAt (s n : Nat) : Inputs where
  address := 0
  lengthFrame := 256
  ready := true
  displayBuffer := 0
  fifoDataAvailable := false
  fifoReadData := BitVec.ofNat 32 n
  amWaitRequest := n == s

/-- A burst whose second beat is stalled. -/
theorem stalled_second_beat : BurstComplete 0 (stallAt 13) 11 := by
  refine (burstComplete_iff 0 (stallAt 13) 11 (by decide)).mpr fun n _ _ hs => ?_
  by_contra hw
  obtain rfl : n = 13 := by simpa [stallAt] using hw
  exact absurd hs (by decide)

/-- **Failing input**: the burst prepared in cycle 11 presents its eighth beat in cycle 19, the
slave stalls it, and `AM_Write` falls with seven beats accepted. -/
theorem stalled_eighth_beat :
    ¬ ∀ (b0 : BitVec 2) (inp : Nat → Inputs) (t : Nat), (regs b0 inp t).state = .dmaSendInit →
      BurstComplete b0 inp t := by
  intro h
  have hb : ∀ k ≤ 19, 11 < k → (regs 0 (stallAt 19) k).amWrite = true := by decide
  have hc := (h 0 (stallAt 19) 11 (by decide)).refused 19 (by decide)
    (fun k h1 h2 => hb k h2 h1) rfl
  exact absurd hc.1 (by decide)

end CameraLcd.CameraMaster
