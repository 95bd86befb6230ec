import CameraLcd.Camera.Slave
import CameraLcd.Lib.RegisterProgram
import CameraLcd.System.FrameProgress

/-!
# `Camera_function.c`: the camera is started

The functions of `Camera_function.c` that set up `Camera_Slave_Interface`, and the camera's side of
the system behind its registers.

* `setupAddressMemory`, `setupLengthFrame`, `start`, `stop` — single calls; each returns what it
  reads back.
* `testCameraMemory` — `Test_Camera_Memory`, which `main` ends with.
* `history` — the slave as its software sees it: the writes so far.
* `ready_once` — `Ready` rises once, and by then the other registers have their values.
* `setup_publishes` — from reset to frames without end.
-/

set_option autoImplicit false

namespace CameraLcd.CameraSetup

open Clocked RegisterProgram
open CameraSlave (Regs)

/-! ## The functions -/

/-- Code that accesses the registers at `CAMERA_MODULE_0_BASE + 4 * n`. -/
abbrev Driver (α : Type) := Prog (BitVec 3) 32 α

/-- `Camera_Acquisition_Module_SETUP_Address_Memory`. -/
def setupAddressMemory (address : BitVec 32) : Driver (BitVec 32) :=
  .write 0 address (.read 0 .ret)

/-- `Camera_Acquisition_Module_SETUP_Length_Frame`: two pixels a word, four bytes a word. -/
def setupLengthFrame (pixelNumber : BitVec 32) : Driver (BitVec 32) :=
  .write 1 (pixelNumber.sdiv 2 * 4) (.read 1 .ret)

/-- `Camera_Acquisition_Module_Start`. -/
def start : Driver (BitVec 32) := .write 2 1 (.read 2 .ret)

/-- `Camera_Acquisition_Module_Stop`. -/
def stop : Driver (BitVec 32) := .write 3 1 (.read 3 .ret)

/-- `Test_Camera_Memory` for any address and any number of pixels. -/
def setupCamera (address pixelNumber : BitVec 32) : Driver Unit := do
  let _ ← stop
  let _ ← setupAddressMemory address
  let _ ← setupLengthFrame pixelNumber
  let _ ← start
  return ()

/-- `Test_Camera_Memory`, with `HPS_0_BRIDGES_BASE` and 320 by 240 pixels. -/
def testCameraMemory : Driver Unit := setupCamera 0x0 76800

/-! ## The slave as its software sees it -/

/-- A write of one cycle. -/
def writeAccess (address : BitVec 3) (data : BitVec 32) : CameraSlave.Access :=
  ⟨address, true, false, true, data⟩

def readAccess (address : BitVec 3) : CameraSlave.Access := ⟨address, true, true, false, 0⟩

def noAccess : CameraSlave.Access := ⟨0, false, false, false, 0⟩

/-- The Avalon signals of an access. -/
def avalon : RegisterProgram.Access (BitVec 3) (BitVec 32) → CameraSlave.Access
  | .none => noAccess
  | .read address => readAccess address
  | .write address data => writeAccess address data

/-- `Camera_Slave_Interface`. -/
def slave : Peripheral (BitVec 3) 32 Regs Unit where
  step r a _ := CameraSlave.clock r (avalon a)
  readdata r := r.avsReadData

/-- The writes so far. -/
abbrev History := List (BitVec 3 × BitVec 32)

/-- The registers after these writes. -/
def registers (t : History) : Regs :=
  t.foldl (fun r w => CameraSlave.write r (writeAccess w.1 w.2)) (CameraSlave.reset 0)

/-- **The slave by its writes**: everything may be written and read at any time. -/
def history : Spec (BitVec 3) 32 History where
  write t address data := some (t ++ [(address, data)])
  read t address := some (CameraSlave.readValue (registers t) (readAccess address))
  test _ _ _ := none
  poll _ _ _ := none

/-- The registers are those of the writes. -/
structure Written (t : History) (r : Regs) : Prop where
  addr : r.iRegCamAddr = (registers t).iRegCamAddr
  length : r.iRegCamLength = (registers t).iRegCamLength
  start : r.iRegCamStart = (registers t).iRegCamStart

section Slave

variable {t t' : History} {r : Regs} {a : CameraSlave.Access}

/-- An access that writes nothing. -/
theorem Written.keep (h : Written t r) (ha : a.write = false) :
    Written t (CameraSlave.clock r a) := by
  have hsame : CameraSlave.write r a = r := by simp [CameraSlave.write, ha]
  unfold CameraSlave.clock
  rw [hsame]
  exact ⟨h.addr, h.length, h.start⟩

theorem Written.write (h : Written t r) (x : BitVec 3) (d : BitVec 32) :
    Written (t ++ [(x, d)]) (CameraSlave.clock r (writeAccess x d)) := by
  have hnext : registers (t ++ [(x, d)]) = CameraSlave.write (registers t) (writeAccess x d) :=
    List.foldl_concat ..
  obtain ⟨haddr, hlength, hstart⟩ := h
  constructor
  all_goals
    rw [hnext]
    simp only [CameraSlave.clock, CameraSlave.write, writeAccess, Bool.and_self, if_true]
    split
    all_goals first | rfl | assumption

/-- The read port shows the registers. -/
theorem Written.read (h : Written t r) (x : BitVec 3) :
    (CameraSlave.clock r (readAccess x)).avsReadData =
      CameraSlave.readValue (registers t) (readAccess x) := by
  have hload : (CameraSlave.clock r (readAccess x)).avsReadData =
      CameraSlave.readValue r (readAccess x) := rfl
  rw [hload]
  unfold CameraSlave.readValue
  rw [h.addr, h.length, h.start]

/-- **The slave simulates the history of its writes.** -/
theorem slave_simulates : Simulates slave history Written (fun _ => True) where
  idle _ h := h.keep rfl
  read _ _ h := h.keep rfl
  write _ h hw _ := by
    cases hw
    exact h.write _ _
  readdata _ h hr := by
    cases hr
    exact h.read _
  test _ _ ht := by cases ht
  poll _ _ hp _ := by cases hp
  good_write _ _ := trivial
  good_poll _ _ := trivial

theorem slave_settles : Settles slave history Written := by
  intro t t' x m h e hR hp
  cases hp

/-- A program only adds to the history. -/
theorem exec_prefix {α : Type} {q : Driver α} {out : α × History}
    (h : exec history q t = some out) : t <+: out.2 := by
  induction q generalizing t with
  | ret a =>
    cases h
    exact List.prefix_rfl
  | write x d q ih =>
    obtain ⟨t', hw, hq⟩ := Option.bind_eq_some_iff.mp h
    cases hw
    exact (List.prefix_append _ _).trans (ih hq)
  | read x k ih =>
    obtain ⟨d, -, hq⟩ := Option.bind_eq_some_iff.mp h
    exact ih d hq
  | test x m k ih => cases h
  | poll x m q ih => cases h

end Slave

/-! ## What the functions write and return -/

theorem registers_append (t : History) (w : BitVec 3 × BitVec 32) :
    registers (t ++ [w]) = CameraSlave.write (registers t) (writeAccess w.1 w.2) :=
  List.foldl_concat ..

section Exec

variable (t : History) (address pixelNumber : BitVec 32)

theorem setupAddressMemory_exec : exec history (setupAddressMemory address) t =
    some (address, t ++ [(0, address)]) := by
  have hread :
      CameraSlave.readValue (registers (t ++ [(0, address)])) (readAccess 0) = address := by
    rw [registers_append]
    rfl
  exact congrArg (fun d => some (d, t ++ [(0, address)])) hread

theorem setupLengthFrame_exec : exec history (setupLengthFrame pixelNumber) t =
    some (pixelNumber.sdiv 2 * 4, t ++ [(1, pixelNumber.sdiv 2 * 4)]) := by
  have hread : CameraSlave.readValue (registers (t ++ [(1, pixelNumber.sdiv 2 * 4)]))
      (readAccess 1) = pixelNumber.sdiv 2 * 4 := by
    rw [registers_append]
    rfl
  exact congrArg (fun d => some (d, t ++ [(1, pixelNumber.sdiv 2 * 4)])) hread

theorem start_exec : exec history start t = some (1, t ++ [(2, 1)]) := by
  have hread : CameraSlave.readValue (registers (t ++ [(2, 1)])) (readAccess 2) = 1 := by
    rw [registers_append]
    rfl
  exact congrArg (fun d => some (d, t ++ [(2, 1)])) hread

theorem stop_exec : exec history stop t = some (1, t ++ [(3, 1)]) := by
  have hread : CameraSlave.readValue (registers (t ++ [(3, 1)])) (readAccess 3) = 1 := by
    rw [registers_append]
    rfl
  exact congrArg (fun d => some (d, t ++ [(3, 1)])) hread

/-- The writes of `setupCamera`. -/
def setupWrites : History := [(3, 1), (0, address), (1, pixelNumber.sdiv 2 * 4), (2, 1)]

theorem setupCamera_exec : exec history (setupCamera address pixelNumber) t =
    some ((), t ++ setupWrites address pixelNumber) := by
  unfold setupCamera
  rw [exec_seq _ (stop_exec t), exec_seq _ (setupAddressMemory_exec _ address),
    exec_seq _ (setupLengthFrame_exec _ pixelNumber), exec_seq _ (start_exec _), exec_pure]
  simp [setupWrites]

variable {t address pixelNumber}

/-- `Ready` is high after the last write and not before. -/
theorem started_iff (h : t <+: setupWrites address pixelNumber) :
    (registers t).iRegCamStart = true ↔ t = setupWrites address pixelNumber := by
  simp only [setupWrites, List.prefix_cons_iff, List.prefix_nil] at h
  obtain rfl | ⟨_, rfl, rfl | ⟨_, rfl, rfl | ⟨_, rfl, rfl | ⟨_, rfl, rfl⟩⟩⟩⟩ := h
  all_goals simp [registers, setupWrites, CameraSlave.write, CameraSlave.reset, writeAccess]

/-- Before the last write the other registers have been written. -/
theorem programmed_before {w : BitVec 3 × BitVec 32}
    (h : t ++ [w] = setupWrites address pixelNumber) :
    (registers t).iRegCamAddr = address ∧
      (registers t).iRegCamLength = pixelNumber.sdiv 2 * 4 := by
  have ht : t = [(3, 1), (0, address), (1, pixelNumber.sdiv 2 * 4)] := by
    have hdrop := congrArg List.dropLast h
    rwa [List.dropLast_concat] at hdrop
  rw [ht]
  exact ⟨rfl, rfl⟩

theorem programmed_after :
    (registers (setupWrites address pixelNumber)).iRegCamAddr = address ∧
      (registers (setupWrites address pixelNumber)).iRegCamLength = pixelNumber.sdiv 2 * 4 :=
  ⟨rfl, rfl⟩

end Exec

/-! ## From reset to the start -/

section Start

variable (address pixelNumber rd : BitVec 32) (inp : Nat → Timing Unit)

/-- The processor and the slave in cycle `n`, from reset on. -/
abbrev runAt (n : Nat) : Cpu (BitVec 3) 32 Unit × Regs :=
  (platform slave (setupCamera address pixelNumber) (CameraSlave.reset rd)).run inp n

theorem written_reset (rd : BitVec 32) : Written [] (CameraSlave.reset rd) := ⟨rfl, rfl, rfl⟩

/-- **One cycle** adds a write of the program, or none. -/
theorem history_succ (n : Nat) : ∃ t, t <+: setupWrites address pixelNumber ∧
    Written t (runAt address pixelNumber rd inp n).2 ∧
      (Written t (runAt address pixelNumber rd inp (n + 1)).2 ∨
        ∃ w, t ++ [w] <+: setupWrites address pixelNumber ∧
          Written (t ++ [w]) (runAt address pixelNumber rd inp (n + 1)).2) := by
  have hstands := run_exec inp slave_simulates (written_reset rd)
    (setupCamera_exec [] address pixelNumber) trivial n
  have hnext : (runAt address pixelNumber rd inp (n + 1)).2 = CameraSlave.clock
      (runAt address pixelNumber rd inp n).2
      (avalon ((runAt address pixelNumber rd inp n).1.access (inp n).go)) := rfl
  rw [hnext]
  cases ha : (runAt address pixelNumber rd inp n).1.access (inp n).go with
  | none | read x =>
    obtain ⟨t, hex, hw, -⟩ := hstands
    exact ⟨t, exec_prefix hex, hw, .inl (hw.keep rfl)⟩
  | write x d =>
    obtain ⟨t, t', hw, hwrite, q, hex⟩ := hstands.writes ha
    cases hwrite
    have hprefix := exec_prefix hex
    exact ⟨t, (List.prefix_append _ _).trans hprefix, hw,
      .inr ⟨(x, d), hprefix, hw.write x d⟩⟩

variable {address pixelNumber rd inp} {n : Nat}

/-- **`Ready` stays high**, and the other registers stay as they are. -/
theorem started_stays (hs : (runAt address pixelNumber rd inp n).2.iRegCamStart = true) {m : Nat}
    (hm : n ≤ m) : Written (setupWrites address pixelNumber)
      (runAt address pixelNumber rd inp m).2 := by
  induction m, hm using Nat.le_induction with
  | base =>
    obtain ⟨t, hprefix, hw, -⟩ := history_succ address pixelNumber rd inp n
    rw [hw.start, started_iff hprefix] at hs
    exact hs ▸ hw
  | succ m _ ih =>
    obtain ⟨t, hprefix, hw, hnext⟩ := history_succ address pixelNumber rd inp m
    have hfull : t = setupWrites address pixelNumber := by
      rw [← started_iff hprefix, ← hw.start, ih.start, started_iff List.prefix_rfl]
    rcases hnext with hsame | ⟨w, hmore, -⟩
    · exact hfull ▸ hsame
    · have hlen := hmore.length_le
      rw [hfull, List.length_append] at hlen
      exact absurd hlen (by simp)

/-- Before the start `Ready` is low, and in the last cycle before it the other registers have been
written. -/
theorem started_succ (hs : (runAt address pixelNumber rd inp n).2.iRegCamStart = false)
    (hs' : (runAt address pixelNumber rd inp (n + 1)).2.iRegCamStart = true) :
    (runAt address pixelNumber rd inp n).2.iRegCamAddr = address ∧
      (runAt address pixelNumber rd inp n).2.iRegCamLength = pixelNumber.sdiv 2 * 4 := by
  obtain ⟨t, hprefix, hw, hsame | ⟨w, hmore, hw'⟩⟩ := history_succ address pixelNumber rd inp n
  · rw [hsame.start, ← hw.start, hs] at hs'
    cases hs'
  · rw [hw'.start, started_iff hmore] at hs'
    obtain ⟨haddr, hlength⟩ := programmed_before hs'
    exact ⟨hw.addr.trans haddr, hw.length.trans hlength⟩

end Start

/-- **`Ready` rises once**: the registers have their values in the cycle before and keep them. -/
theorem ready_once (address pixelNumber rd : BitVec 32) (inp : Nat → Timing Unit)
    (hfair : Recurs fun k => (inp k).go) : ∃ n0,
    (∀ k, k ≤ n0 → (runAt address pixelNumber rd inp k).2.iRegCamStart = false) ∧
      (∀ k, n0 < k → (runAt address pixelNumber rd inp k).2.iRegCamStart = true) ∧
      ∀ k, n0 ≤ k → (runAt address pixelNumber rd inp k).2.iRegCamAddr = address ∧
        (runAt address pixelNumber rd inp k).2.iRegCamLength = pixelNumber.sdiv 2 * 4 := by
  obtain ⟨m, hret⟩ := run_returns hfair slave_simulates slave_settles (written_reset rd)
    (setupCamera_exec [] address pixelNumber) trivial
  obtain ⟨-, hend⟩ := run_ret inp slave_simulates (written_reset rd)
    (setupCamera_exec [] address pixelNumber) trivial hret
  have hstarted : (runAt address pixelNumber rd inp m).2.iRegCamStart = true :=
    hend.start.trans ((started_iff List.prefix_rfl).mpr rfl)
  obtain ⟨i, hi, -, hrise⟩ := exists_risingEdge (l := 0)
    (w := fun k => (runAt address pixelNumber rd inp k).2.iRegCamStart) rfl hstarted
    (Nat.zero_le m)
  obtain ⟨n0, rfl⟩ : ∃ n0, i = n0 + 1 := ⟨i - 1, by omega⟩
  obtain ⟨hbefore, hfirst⟩ : (runAt address pixelNumber rd inp n0).2.iRegCamStart = false ∧
      (runAt address pixelNumber rd inp (n0 + 1)).2.iRegCamStart = true := by
    simpa [risingEdge] using hrise
  have hkeeps : ∀ k j, (runAt address pixelNumber rd inp k).2.iRegCamStart = true → k ≤ j →
      (runAt address pixelNumber rd inp j).2.iRegCamStart = true := by
    intro k j hk hkj
    exact (started_stays hk hkj).start.trans ((started_iff List.prefix_rfl).mpr rfl)
  refine ⟨n0, ?_, ?_, ?_⟩
  · intro k hk
    rw [← Bool.not_eq_true]
    intro hhigh
    exact absurd (hkeeps k n0 hhigh hk) (by simp [hbefore])
  · intro k hk
    exact hkeeps (n0 + 1) k hfirst hk
  · intro k hk
    rcases Nat.eq_or_lt_of_le hk with rfl | hlt
    · exact started_succ hbefore hfirst
    · have hfull := started_stays hfirst hlt
      exact ⟨hfull.addr.trans programmed_after.1, hfull.length.trans programmed_after.2⟩

/-! ## The camera behind its registers -/

/-- What the rest of the system drives in a cycle. -/
structure Outside where
  push : Option Gather.Word
  displayBuffer : BitVec 2
  amWaitRequest : Bool

/-- `Slave_Interface_inst` with the burst FIFO and `Master_Interface_inst`. -/
def cameraRun (address pixelNumber rd : BitVec 32) (inp : Nat → Timing Unit)
    (env : Nat → Outside) (n : Nat) : Gather.Inputs where
  push := (env n).push
  address := (runAt address pixelNumber rd inp n).2.iRegCamAddr
  lengthFrame := (runAt address pixelNumber rd inp n).2.iRegCamLength
  ready := (runAt address pixelNumber rd inp n).2.iRegCamStart
  displayBuffer := (env n).displayBuffer
  amWaitRequest := (env n).amWaitRequest

/-- **The software starts the camera**: at any timing of a processor that keeps going
`Test_Camera_Memory` comes to its end and starts the camera once, with its registers programmed,
and from then on every number of frames is published if words keep arriving and the bus keeps
taking beats. -/
theorem setup_publishes (address pixelNumber rd : BitVec 32) (inp : Nat → Timing Unit)
    (env : Nat → Outside) (b0 : BitVec 2) (q0 : Gather.Word)
    (hfair : Recurs fun k => (inp k).go) :
    (∃ m, (runAt address pixelNumber rd inp m).1.prog = .ret ()) ∧
      ∃ n0, (∀ k, k ≤ n0 → (cameraRun address pixelNumber rd inp env k).ready = false) ∧
        (∀ k, n0 < k → (cameraRun address pixelNumber rd inp env k).ready = true) ∧
        (∀ k, n0 ≤ k → (cameraRun address pixelNumber rd inp env k).address = address ∧
          (cameraRun address pixelNumber rd inp env k).lengthFrame = pixelNumber.sdiv 2 * 4) ∧
        ((Recurs fun k => (env k).push.isSome) → (Recurs fun k => !(env k).amWaitRequest) →
          0 < (pixelNumber.sdiv 2 * 4).toNat → (pixelNumber.sdiv 2 * 4).toNat ≤ 0xFFFFFFE0 →
          ∀ N, ∃ n, n0 < n ∧
            N ≤ FrameStore.frames b0 q0 (cameraRun address pixelNumber rd inp env) n) := by
  have hreturns := run_returns hfair slave_simulates slave_settles (written_reset rd)
    (setupCamera_exec [] address pixelNumber) trivial
  obtain ⟨n0, hlow, hhigh, hprog⟩ := ready_once address pixelNumber rd inp hfair
  refine ⟨hreturns, n0, hlow, hhigh, hprog, fun hwords haccepts hpos hmax N => ?_⟩
  have hsupplied : FrameStore.Supplied (cameraRun address pixelNumber rd inp env) address
      (pixelNumber.sdiv 2 * 4) n0 := ⟨hlow, hhigh, hprog, hwords, haccepts⟩
  exact FrameStore.frames_reach hsupplied hpos hmax N

/-- A processor with an access every fourth cycle. -/
def unhurried (n : Nat) : Timing Unit := ⟨n % 4 == 0, ()⟩

/-- A word every fifth cycle, and a bus that takes a beat every third. -/
def steadySupply (n : Nat) : Outside where
  push := if n % 5 = 0 then some (BitVec.ofNat 32 n) else none
  displayBuffer := 0
  amWaitRequest := n % 3 != 0

/-- The call in `main`: frames of 320 by 240 pixels. -/
theorem setup_publishes_testCameraMemory :
    (∃ m, ((platform slave testCameraMemory (CameraSlave.reset 0)).run unhurried m).1.prog =
        .ret ()) ∧
      ∃ n0, (∀ k, n0 < k → (cameraRun 0 76800 0 unhurried steadySupply k).ready = true) ∧
        ∀ N, ∃ n, n0 < n ∧
          N ≤ FrameStore.frames 0 0 (cameraRun 0 76800 0 unhurried steadySupply) n := by
  have hfair : Recurs fun k => (unhurried k).go := by
    intro n
    refine ⟨4 * n, by omega, ?_⟩
    simp [unhurried]
  have hwords : Recurs fun k => (steadySupply k).push.isSome := by
    intro n
    refine ⟨5 * n, by omega, ?_⟩
    simp [steadySupply]
  have haccepts : Recurs fun k => !(steadySupply k).amWaitRequest := by
    intro n
    refine ⟨3 * n, by omega, ?_⟩
    simp [steadySupply]
  obtain ⟨hret, n0, -, hhigh, -, hframes⟩ :=
    setup_publishes 0 76800 0 unhurried steadySupply 0 0 hfair
  exact ⟨hret, n0, hhigh, hframes hwords haccepts (by decide) (by decide)⟩

end CameraLcd.CameraSetup
