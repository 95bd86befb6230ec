import CameraLcd.Camera.BufferIndex
import CameraLcd.Camera.Slave

/-!
# The frame after a restart

`Camera_Slave_Interface` in front of `Camera_Master_Interface`.  `IDLE_FOR_READY` reloads the
base and clears the offset while `Ready` is low; a stop that the master spends in other states is
not seen there.

* `Follow` — the base, the offset and the bursts decided since a start.
* `fresh_of_reload` — a start that finds the master reloaded begins a fresh frame at the
  programmed address, whatever the CPU, the FIFO and the bus do.
* `restart_inside_burst` — a stop and a start while a burst is being collected.
-/

set_option autoImplicit false

namespace CameraLcd.CameraMaster

open Clocked

section Defs

variable (b0 : BitVec 2) (inp : Nat → Inputs)

/-- The collection of a burst is decided: the state is left with a read request. -/
def Decides (n : Nat) : Prop :=
  (regs b0 inp n).state = .idleForData ∧ (inp n).ready = true ∧
    (inp n).fifoDataAvailable = false

instance (n : Nat) : Decidable (Decides b0 inp n) := inferInstanceAs (Decidable (_ ∧ _))

/-- The cycles after `t` and before `n` that decide a burst. -/
def decisions (t n : Nat) : List Nat :=
  collect (fun k => if Decides b0 inp k then some k else none) (t + 1) n

/-- The burst decided in cycle `d` is put on the bus with the edge after cycle `s`. -/
structure Sent (d s : Nat) : Prop where
  decides : Decides b0 inp d
  later : d < s
  init : (regs b0 inp s).state = .dmaSendInit
  first : ∀ m, d < m → m < s → (regs b0 inp m).state ≠ .dmaSendInit

/-- A burst has been decided and is not over. -/
def inFlight (s : MasterState) : Nat :=
  if s = .idleForReady ∨ s = .idleForData then 0 else 1

/-- Cycle `n` of a frame started after cycle `t`, with `d` bursts over. -/
structure Follow (t n : Nat) (base : BitVec 32) (d : Nat) : Prop where
  base_eq : (regs b0 inp n).baseAddress = base
  offset_eq : (regs b0 inp n).offsetAddress = BitVec.ofNat 32 (32 * d)
  count : (decisions b0 inp t n).length = d + inFlight (regs b0 inp n).state
  /-- Before the first burst the master waits for data. -/
  waits : decisions b0 inp t n = [] →
    n = t + 1 ∧ (regs b0 inp n).state = .idleForReady ∨ (regs b0 inp n).state = .idleForData

end Defs

/-- With `Ready` high and no publication an edge keeps the base; it keeps the offset too, or ends
a burst. -/
theorem Edge.follow {r r' : Regs} {i : Inputs} (he : Edge r i r') (hr : i.ready = true)
    (hp : ¬ (r.state = .idleForReady ∧ newFrame r i = true)) :
    r'.baseAddress = r.baseAddress ∧
      (r'.offsetAddress = r.offsetAddress ∧ inFlight r'.state = inFlight r.state +
          (if r.state = .idleForData ∧ i.fifoDataAvailable = false then 1 else 0) ∨
        r'.offsetAddress = r.offsetAddress + 32 ∧ inFlight r.state = 1 ∧
          inFlight r'.state = 0 ∧ r.state ≠ .idleForData) := by
  cases he with
  | stop _ h1 | abort _ h1 => simp [hr] at h1
  | publish hs _ hn => exact absurd ⟨hs, hn⟩ hp
  | resume hs | clockWait hs | collect hs | collectRelease hs | collectLast hs | stall hs
  | beat hs => exact ⟨rfl, .inl ⟨rfl, by simp [inFlight, hs]⟩⟩
  | await hs _ hd | fetch hs _ hd => exact ⟨rfl, .inl ⟨rfl, by simp [inFlight, hs, hd]⟩⟩
  | sendInit hs => exact ⟨rfl, .inl ⟨rfl, by simp [inFlight, dmaSendInit, hs]⟩⟩
  | lastBeat hs => exact ⟨rfl, .inr ⟨rfl, by simp [inFlight, hs], rfl, by simp [hs]⟩⟩

theorem Edge.waits {r r' : Regs} {i : Inputs} (he : Edge r i r') (hr : i.ready = true)
    (hs : r.state = .idleForReady ∨ r.state = .idleForData)
    (hno : ¬ (r.state = .idleForData ∧ i.fifoDataAvailable = false)) :
    r'.state = .idleForData := by
  cases he with
  | stop _ h1 | abort _ h1 => simp [hr] at h1
  | fetch h1 _ hd => exact absurd ⟨h1, hd⟩ hno
  | resume | publish => rfl
  | await h1 => exact h1
  | clockWait h1 | collect h1 | collectRelease h1 | collectLast h1 | sendInit h1 | stall h1
  | beat h1 | lastBeat h1 => simp [h1] at hs

section Run

variable {b0 : BitVec 2} {inp : Nat → Inputs} {base : BitVec 32} {t n d : Nat}

theorem decisions_succ (hlt : t < n) : decisions b0 inp t (n + 1) =
    decisions b0 inp t n ++ (if Decides b0 inp n then [n] else []) := by
  unfold decisions
  rw [collect_succ _ hlt]
  split <;> rfl

/-- A publication before the first burst is one for an empty frame and keeps the base. -/
theorem Follow.publish (hlt : t < n) (h : Follow b0 inp t n base d) (hp : Publishes b0 inp n)
    (hnone : decisions b0 inp t n = []) (haddr : (inp (t + 1)).address = base) :
    Follow b0 inp t (n + 1) base 0 := by
  obtain ⟨-, hoff, hcount, hwaits⟩ := h
  have hlate : n = t + 1 := by
    rcases hwaits hnone with ⟨h1, -⟩ | h1
    · exact h1
    · rw [hp.1] at h1
      cases h1
  have hd : d = 0 := by
    rw [hnone] at hcount
    simp only [List.length_nil] at hcount
    omega
  have hzero : (inp n).lengthFrame = 0 := by
    have hnew := hp.2.2
    rw [newFrame, decide_eq_true_iff, hoff, hd] at hnew
    bv_omega
  have hnot : ¬ Decides b0 inp n := fun h1 => by
    have h2 := h1.1
    rw [hp.1] at h2
    cases h2
  obtain ⟨hs, hoff'⟩ := publish_opens hp
  refine ⟨?_, hoff', ?_, fun _ => .inr hs⟩
  · have hlength := publish_base hp (hlate ▸ haddr) hzero
    rw [hlength, bufferBase]
    simp
  · rw [decisions_succ hlt, hnone, if_neg hnot, hs]
    rfl

theorem Follow.step (hlt : t < n) (h : Follow b0 inp t n base d) (hr : (inp n).ready = true)
    (hp : Publishes b0 inp n → decisions b0 inp t n = [])
    (haddr : (inp (t + 1)).address = base) : ∃ d', Follow b0 inp t (n + 1) base d' := by
  by_cases hpub : Publishes b0 inp n
  · exact ⟨0, h.publish hlt hpub (hp hpub) haddr⟩
  · obtain ⟨hbase, hoff, hcount, hwaits⟩ := h
    have he := edge_run b0 inp n
    have hdec : Decides b0 inp n ↔
        (regs b0 inp n).state = .idleForData ∧ (inp n).fifoDataAvailable = false :=
      ⟨fun h1 => ⟨h1.1, h1.2.2⟩, fun h1 => ⟨h1.1, hr, h1.2⟩⟩
    have hwaits' : decisions b0 inp t (n + 1) = [] → n + 1 = t + 1 ∧
        (regs b0 inp (n + 1)).state = .idleForReady ∨
          (regs b0 inp (n + 1)).state = .idleForData := by
      intro hnone
      rw [decisions_succ hlt, List.append_eq_nil_iff] at hnone
      refine .inr (he.waits hr ?_ ?_)
      · rcases hwaits hnone.1 with ⟨-, h1⟩ | h1
        · exact .inl h1
        · exact .inr h1
      · rw [← hdec]
        intro h1
        simp [h1] at hnone
    obtain ⟨hb, ⟨ho, hs⟩ | ⟨ho, hs, hs', hne⟩⟩ :=
      he.follow hr (fun h1 => hpub ⟨h1.1, hr, h1.2⟩)
    · refine ⟨d, hb.trans hbase, ho.trans hoff, ?_, hwaits'⟩
      rw [decisions_succ hlt, List.length_append, hcount, hs]
      by_cases h1 : Decides b0 inp n
      · rw [if_pos h1, if_pos (hdec.mp h1)]
        rfl
      · rw [if_neg h1, if_neg (fun h2 => h1 (hdec.mpr h2))]
        rfl
    · refine ⟨d + 1, hb.trans hbase, ?_, ?_, hwaits'⟩
      · rw [ho, hoff, Nat.mul_succ, BitVec.ofNat_add]
        rfl
      · rw [decisions_succ hlt, List.length_append, hcount, hs, hs',
          if_neg (fun h1 => hne (hdec.mp h1).1)]
        rfl

theorem follow_run (hs : (regs b0 inp (t + 1)).state = .idleForReady)
    (hbase : (regs b0 inp (t + 1)).baseAddress = base)
    (hoff : (regs b0 inp (t + 1)).offsetAddress = 0) (haddr : (inp (t + 1)).address = base)
    (hlt : t < n) (hready : ∀ k, t < k → k < n → (inp k).ready = true)
    (hpub : ∀ k, t < k → k < n → Publishes b0 inp k → decisions b0 inp t k = []) :
    ∃ d, Follow b0 inp t n base d := by
  induction n, hlt using Nat.le_induction with
  | base =>
    refine ⟨0, hbase, hoff, ?_, fun _ => .inl ⟨rfl, hs⟩⟩
    rw [hs, decisions, collect_self]
    rfl
  | succ n hle ih =>
    obtain ⟨d, hd⟩ := ih (fun k h1 h2 => hready k h1 (by omega))
      fun k h1 h2 => hpub k h1 (by omega)
    exact hd.step hle (hready n hle (by omega)) (hpub n hle (by omega)) haddr

/-- The address of a burst is fixed when it is decided. -/
theorem Sent.address {s : Nat} (h : Sent b0 inp d s) : (regs b0 inp (s + 1)).amAdresse =
    (regs b0 inp d).baseAddress + (regs b0 inp d).offsetAddress := by
  obtain ⟨⟨hs, hr, hd⟩, hlt, hinit, hfirst⟩ := h
  have hkeep : ∀ n, d < n → n ≤ s →
      ((regs b0 inp n).state = .clockWaitDataFifo ∨ (regs b0 inp n).state = .collectDataFifo ∨
        (regs b0 inp n).state = .dmaSendInit) ∧
      (regs b0 inp n).currentAddress =
        (regs b0 inp d).baseAddress + (regs b0 inp d).offsetAddress := by
    intro n hdn hns
    induction n, hdn using Nat.le_induction with
    | base =>
      have he := edge_run b0 inp d
      show ((regs b0 inp (d + 1)).state = _ ∨ _) ∧ (regs b0 inp (d + 1)).currentAddress = _
      generalize regs b0 inp (d + 1) = r' at he ⊢
      cases he with
      | fetch => exact ⟨.inl rfl, rfl⟩
      | await _ _ h1 => simp [hd] at h1
      | abort _ h1 => simp [hr] at h1
      | stop h1 | resume h1 | publish h1 | clockWait h1 | collect h1 | collectRelease h1
      | collectLast h1 | sendInit h1 | stall h1 | beat h1 | lastBeat h1 => simp [hs] at h1
    | succ n hdn ih =>
      obtain ⟨hst, hcur⟩ := ih (by omega)
      have hno := hfirst n (by omega) (by omega)
      have he := edge_run b0 inp n
      generalize regs b0 inp (n + 1) = r' at he ⊢
      cases he with
      | clockWait | collectLast => exact ⟨by simp, hcur⟩
      | collect h1 | collectRelease h1 => exact ⟨.inr (.inl h1), hcur⟩
      | sendInit h1 => exact absurd h1 hno
      | stop h1 | resume h1 | publish h1 | await h1 | fetch h1 | abort h1 | stall h1 | beat h1
      | lastBeat h1 => simp [h1] at hst
  rw [(edge_run b0 inp s).of_dmaSendInit hinit, ← (hkeep s hlt (Nat.le_refl s)).2]
  rfl

end Run

end CameraLcd.CameraMaster

/-! ## With the registers of the slave -/

namespace CameraLcd.CameraStart

open Clocked CameraMaster

/-- `Slave_Interface_inst` and `Master_Interface_inst`. -/
structure Regs where
  slave : CameraSlave.Regs
  master : CameraMaster.Regs
  deriving DecidableEq, Repr

/-- The access of a cycle, the FIFO, the bus and the display's index. -/
structure Inputs where
  access : CameraSlave.Access
  displayBuffer : BitVec 2
  fifoDataAvailable : Bool
  fifoReadData : BitVec 32
  amWaitRequest : Bool
  deriving DecidableEq, Repr

/-- The input ports of `Camera_Master_Interface`. -/
def masterInputs (r : Regs) (i : Inputs) : CameraMaster.Inputs where
  address := r.slave.iRegCamAddr
  lengthFrame := r.slave.iRegCamLength
  ready := r.slave.iRegCamStart
  displayBuffer := i.displayBuffer
  fifoDataAvailable := i.fifoDataAvailable
  fifoReadData := i.fifoReadData
  amWaitRequest := i.amWaitRequest

/-- One rising edge of `Clk_FPGA`. -/
def step (r : Regs) (i : Inputs) : Regs where
  slave := CameraSlave.clock r.slave i.access
  master := CameraMaster.clock r.master (masterInputs r i)

/-- From reset on; the outputs without a reset have any value. -/
def machine (avsReadData : BitVec 32) (bufferSaved : BitVec 2) : Machine Regs Inputs where
  init := ⟨CameraSlave.reset avsReadData, CameraMaster.reset bufferSaved⟩
  step := step

section Defs

variable (rd : BitVec 32) (b0 : BitVec 2) (inp : Nat → Inputs)

/-- The registers in cycle `n`. -/
def regs (n : Nat) : Regs := (machine rd b0).run inp n

/-- What the master sees. -/
def stream (n : Nat) : CameraMaster.Inputs := masterInputs (regs rd b0 inp n) (inp n)

/-- The Start register goes from 0 to 1 with the edge after cycle `t`. -/
def Starts (t : Nat) : Prop :=
  (regs rd b0 inp t).slave.iRegCamStart = false ∧
    (regs rd b0 inp (t + 1)).slave.iRegCamStart = true

/-- The start after cycle `t` finds the master in `IDLE_FOR_READY`, or in `IDLE_FOR_DATA` with
the programmed address and nothing written. -/
def Reloads (t : Nat) : Prop :=
  (regs rd b0 inp t).master.state = .idleForReady ∨
    (regs rd b0 inp t).master.state = .idleForData ∧
      (regs rd b0 inp t).master.baseAddress = (regs rd b0 inp t).slave.iRegCamAddr ∧
      (regs rd b0 inp t).master.offsetAddress = 0

/-- **The frame of the start after cycle `t` is a fresh one**: until the next stop and the next
publication the bursts decided since go to the address programmed at the start, the next 32
bytes, and so on. -/
def Fresh (t : Nat) : Prop :=
  ∀ d s, t < d → (∀ k, t < k → k ≤ d → (regs rd b0 inp k).slave.iRegCamStart = true) →
    (∀ k, t < k → k < d → Publishes b0 (stream rd b0 inp) k →
      decisions b0 (stream rd b0 inp) t k = []) →
    Sent b0 (stream rd b0 inp) d s →
    (regs rd b0 inp (s + 1)).master.amAdresse = (regs rd b0 inp t).slave.iRegCamAddr +
      BitVec.ofNat 32 (32 * (decisions b0 (stream rd b0 inp) t d).length)

end Defs

section Run

variable {rd : BitVec 32} {b0 : BitVec 2} {inp : Nat → Inputs} {t : Nat}

theorem master_run (rd : BitVec 32) (b0 : BitVec 2) (inp : Nat → Inputs) : ∀ n,
    (regs rd b0 inp n).master = CameraMaster.regs b0 (stream rd b0 inp) n
  | 0 => rfl
  | n + 1 => by
    show CameraMaster.clock (regs rd b0 inp n).master _ = CameraMaster.clock _ _
    rw [master_run rd b0 inp n]
    rfl

theorem starts_address (h : Starts rd b0 inp t) :
    (regs rd b0 inp (t + 1)).slave.iRegCamAddr = (regs rd b0 inp t).slave.iRegCamAddr := by
  obtain ⟨hlow, hhigh⟩ := h
  have hnext : (regs rd b0 inp (t + 1)).slave =
      CameraSlave.clock (regs rd b0 inp t).slave (inp t).access := rfl
  rw [hnext] at hhigh ⊢
  unfold CameraSlave.clock CameraSlave.write at hhigh ⊢
  split
  · rename_i hw
    rw [if_pos hw] at hhigh
    split at hhigh <;> simp_all
  · rfl

theorem reloads_succ (hs : Starts rd b0 inp t) (hr : Reloads rd b0 inp t) :
    (CameraMaster.regs b0 (stream rd b0 inp) (t + 1)).state = .idleForReady ∧
      (CameraMaster.regs b0 (stream rd b0 inp) (t + 1)).baseAddress =
        (regs rd b0 inp t).slave.iRegCamAddr ∧
      (CameraMaster.regs b0 (stream rd b0 inp) (t + 1)).offsetAddress = 0 := by
  have hlow : (stream rd b0 inp t).ready = false := hs.1
  rw [Reloads, master_run] at hr
  rcases hr with hidle | ⟨hdata, hbase, hoff⟩
  · obtain ⟨h1, h2, h3, -⟩ := stop_succ hidle hlow
    exact ⟨h1, h2, h3⟩
  · have he := edge_run b0 (stream rd b0 inp) t
    generalize CameraMaster.regs b0 (stream rd b0 inp) (t + 1) = r' at he ⊢
    cases he with
    | abort => exact ⟨rfl, hbase, hoff⟩
    | await _ h1 | fetch _ h1 => simp [hlow] at h1
    | stop h1 | resume h1 | publish h1 | clockWait h1 | collect h1 | collectRelease h1
    | collectLast h1 | sendInit h1 | stall h1 | beat h1 | lastBeat h1 => simp [hdata] at h1

/-- **A start that finds the master reloaded begins a fresh frame at the programmed address.** -/
theorem fresh_of_reload (rd : BitVec 32) (b0 : BitVec 2) (inp : Nat → Inputs) (t : Nat)
    (hs : Starts rd b0 inp t) (hr : Reloads rd b0 inp t) : Fresh rd b0 inp t := by
  intro d s hlt hready hpub hsent
  obtain ⟨hst, hbase, hoff⟩ := reloads_succ hs hr
  obtain ⟨c, hf⟩ := follow_run hst hbase hoff (starts_address hs) hlt
    (fun k h1 h2 => hready k h1 (by omega)) hpub
  have hcount := hf.count
  rw [hsent.decides.1] at hcount
  rw [master_run, hsent.address, hf.base_eq, hf.offset_eq, hcount]
  rfl

end Run

/-! ## A stop inside a burst -/

/-- The CPU programs address 4096 and length 96 and starts the camera, stops it in cycle 25 and
starts it again in cycle `again`.  The FIFO is flushed by the stop and has words again from cycle
41 on. -/
def stopInBurst (again n : Nat) : Inputs where
  access :=
    if n = 0 then ⟨0, true, false, true, 4096⟩
    else if n = 1 then ⟨1, true, false, true, 96⟩
    else if n = 2 ∨ n = again then ⟨2, true, false, true, 1⟩
    else if n = 25 then ⟨3, true, false, true, 1⟩
    else ⟨0, false, false, false, 0⟩
  displayBuffer := 0
  fifoDataAvailable := decide (26 ≤ n ∧ n ≤ 40)
  fifoReadData := BitVec.ofNat 32 n
  amWaitRequest := false

theorem fresh_second_start : Fresh 0 0 (stopInBurst 60) 60 :=
  fresh_of_reload 0 0 (stopInBurst 60) 60 ⟨by decide +kernel, by decide +kernel⟩
    (.inl (by decide +kernel))

/-- **Failing input**: the stop falls into the collection of the second burst and is over before
the burst is.  The first burst of the new start goes to 4160, behind the two of the old one. -/
theorem restart_inside_burst :
    ¬ ∀ (rd : BitVec 32) (b0 : BitVec 2) (inp : Nat → Inputs) (t : Nat),
      Starts rd b0 inp t → Fresh rd b0 inp t := by
  intro h
  have hready : ∀ k < 43, 30 < k →
      (regs 0 0 (stopInBurst 30) k).slave.iRegCamStart = true := by
    decide +kernel
  have hpub : ∀ k < 42, 30 < k → ¬ Publishes 0 (stream 0 0 (stopInBurst 30)) k := by
    decide +kernel
  have hfirst : ∀ m < 52, 42 < m →
      (CameraMaster.regs 0 (stream 0 0 (stopInBurst 30)) m).state ≠ .dmaSendInit := by
    decide +kernel
  have hsent : Sent 0 (stream 0 0 (stopInBurst 30)) 42 52 :=
    ⟨by decide +kernel, by omega, by decide +kernel, fun m h1 h2 => hfirst m h2 h1⟩
  have hburst := h 0 0 (stopInBurst 30) 30 ⟨by decide +kernel, by decide +kernel⟩ 42 52 (by omega)
    (fun k h1 h2 => hready k (by omega) h1) (fun k h1 h2 hp => absurd hp (hpub k h2 h1)) hsent
  exact absurd hburst (by decide +kernel)

end CameraLcd.CameraStart
