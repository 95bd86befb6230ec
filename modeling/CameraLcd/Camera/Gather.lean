import CameraLcd.Camera.Master
import CameraLcd.Lib.IdealFifo

/-!
# From the FIFO to the bursts

`Camera_Master_Interface` composed with `FIFO_Master_Interface_Avalon_Bus` as `Top_Level` wires
them: a FIFO of 32 words, `almost_empty` below 8 words as `FIFO_Data_Available`, cleared while
`Ready` is low.  Pushes come from outside at any time at which the FIFO is not full.

* `Phase` — how far a burst has been gathered: which pops have been made, which words are in
  `DATA_Array` and which one is on `q`, for each state of the master.
* `phase_step`, `inv_run` — one clock edge and a run from reset.
* `gathered` — no pop finds the FIFO empty, every burst takes 8 words and the `k`-th one holds
  the words `8k, …, 8k + 7`; both indices stay inside `DATA_Array`.
-/

set_option autoImplicit false

namespace CameraLcd.Gather

open Clocked IdealFifo
open CameraMaster (Edge Data)

/-- A 32-bit word: two pixels. -/
abbrev Word := BitVec 32

/-- The master and its FIFO. -/
structure Regs where
  master : CameraMaster.Regs
  fifo : Queue Word

/-- What the rest of the system drives: the FIFO's write side, the slave registers, the display
and the bus. -/
structure Inputs where
  push : Option Word
  address : BitVec 32
  lengthFrame : BitVec 32
  ready : Bool
  displayBuffer : BitVec 2
  amWaitRequest : Bool

/-- The ports of the master in a cycle. -/
def masterInputs (s : Regs) (i : Inputs) : CameraMaster.Inputs where
  address := i.address
  lengthFrame := i.lengthFrame
  ready := i.ready
  displayBuffer := i.displayBuffer
  fifoDataAvailable := s.fifo.almostEmpty 8
  fifoReadData := s.fifo.q
  amWaitRequest := i.amWaitRequest

/-- One clock edge.  `Reset_H = not Ready` holds the FIFO clear while `Ready` is low. -/
def step (s : Regs) (i : Inputs) : Regs where
  master := CameraMaster.clock s.master (masterInputs s i)
  fifo := if i.ready then s.fifo.edge 32 i.push s.master.fifoReadRequest else s.fifo.clear

/-- Both from reset on. -/
def machine (b0 : BitVec 2) (q0 : Word) : Machine Regs Inputs where
  init := ⟨CameraMaster.reset b0, ⟨[], q0⟩⟩
  step := step

/-! ## What is observed -/

section Defs

variable (b0 : BitVec 2) (q0 : Word) (inp : Nat → Inputs)

/-- The master and the FIFO in cycle `n`. -/
abbrev regs (n : Nat) : Regs := (machine b0 q0).run inp n

/-- The word pushed at the end of cycle `n`; a FIFO held clear takes none. -/
def pushAt (n : Nat) : Option Word := if (inp n).ready then (inp n).push else none

/-- The word popped at the end of cycle `n`. -/
def popAt (n : Nat) : Option Word :=
  if (regs b0 q0 inp n).master.fifoReadRequest then (regs b0 q0 inp n).fifo.words.head? else none

/-- A burst starts in cycle `n`. -/
def burstAt (n : Nat) : Option Unit :=
  if (regs b0 q0 inp n).master.state = .dmaSendInit then some () else none

/-- The words pushed before cycle `n`. -/
def pushed (n : Nat) : List Word := collect (pushAt inp) 0 n

/-- The words popped before cycle `n`. -/
def popped (n : Nat) : List Word := collect (popAt b0 q0 inp) 0 n

/-- The number of bursts begun before cycle `n`. -/
def bursts (n : Nat) : Nat := (collect (burstAt b0 q0 inp) 0 n).length

/-- `Ready` stays high once it is, up to cycle `n`, and no push finds the FIFO full. -/
structure Fed (n : Nat) : Prop where
  stays : ∀ m < n, (inp m).ready = true → (inp (m + 1)).ready = true
  room : ∀ m < n, (inp m).push ≠ none → (regs b0 q0 inp m).fifo.words.length < 32

/-- **Cycle `n` of a run loses and repeats nothing.** -/
structure Faithful (n : Nat) : Prop where
  noUnderflow : (regs b0 q0 inp n).master.fifoReadRequest = true →
    (regs b0 q0 inp n).fifo.words ≠ []
  eight : (regs b0 q0 inp n).master.state = .dmaSendInit →
    (popped b0 q0 inp n).length = 8 * (bursts b0 q0 inp n + 1)
  inOrder : (regs b0 q0 inp n).master.state = .dmaSendInit → ∀ j < 8,
    (pushed inp n)[8 * bursts b0 q0 inp n + j]? =
      some ((regs b0 q0 inp n).master.dataArray.getD j 0)
  collectIndex : (regs b0 q0 inp n).master.state = .collectDataFifo →
    (regs b0 q0 inp n).master.indiceArrayFifo.toNat < 9
  loopIndex : (regs b0 q0 inp n).master.state = .dmaSendLoop →
    ((regs b0 q0 inp n).master.indiceArrayDma + 1).toNat =
      (regs b0 q0 inp n).master.indiceArrayDma.toNat + 1 ∧
    ((regs b0 q0 inp n).master.indiceArrayDma + 1).toNat < 9

end Defs

/-! ## The phases of a burst -/

/-- The first `i` entries of `DATA_Array` are the words popped from `8k` on. -/
def Holds (k i : Nat) (popped : List Word) (d : Data) : Prop :=
  ∀ j < i, popped[8 * k + j]? = some (d.getD j 0)

/-- The master and the FIFO after `k` bursts, `popped` being the words popped so far. -/
inductive Phase (k : Nat) (popped : List Word) (s : Regs) : Prop where
  /-- Nothing is being read. -/
  | idle (hs : s.master.state = .idleForReady) (hreq : s.master.fifoReadRequest = false)
      (hlen : popped.length = 8 * k)
  | loop (hs : s.master.state = .dmaSendLoop) (hreq : s.master.fifoReadRequest = false)
      (hlen : popped.length = 8 * k) (hdma : s.master.indiceArrayDma.toNat ≤ 6)
  | await (hs : s.master.state = .idleForData) (hreq : s.master.fifoReadRequest = false)
      (hlen : popped.length = 8 * k) (hfifo : s.master.indiceArrayFifo = 0)
      (hdma : s.master.indiceArrayDma = 0)
  /-- The request is up, the first pop comes with the next edge. -/
  | wait (hs : s.master.state = .clockWaitDataFifo) (hreq : s.master.fifoReadRequest = true)
      (hlen : popped.length = 8 * k) (hfifo : s.master.indiceArrayFifo = 0)
      (hdma : s.master.indiceArrayDma = 0) (hwords : 8 ≤ s.fifo.words.length)
  /-- Word `i` of the burst is on `q`; the request is up unless it is the last one. -/
  | collect (i : Nat) (hi : i ≤ 7) (hs : s.master.state = .collectDataFifo)
      (hreq : s.master.fifoReadRequest = decide (i < 7)) (hlen : popped.length = 8 * k + i + 1)
      (hfifo : s.master.indiceArrayFifo.toNat = i) (hdma : s.master.indiceArrayDma = 0)
      (hwords : 7 - i ≤ s.fifo.words.length) (hq : popped[8 * k + i]? = some s.fifo.q)
      (hdata : Holds k i popped s.master.dataArray)
  /-- All eight words are in `DATA_Array`. -/
  | full (hs : s.master.state = .dmaSendInit) (hreq : s.master.fifoReadRequest = false)
      (hlen : popped.length = 8 * (k + 1)) (hdma : s.master.indiceArrayDma = 0)
      (hdata : Holds k 8 popped s.master.dataArray)

section Step

variable {k i : Nat} {popped : List Word} {s : Regs} {inp : Inputs}

/-- Capturing `q` adds word `i`. -/
theorem Holds.capture {d : Data} {q : Word} (h : Holds k i popped d) (hi : i < 9)
    (hq : popped[8 * k + i]? = some q) : Holds k (i + 1) popped (d.setIfInBounds i q) := by
  intro j hj
  by_cases hji : j = i
  · subst hji
    rw [hq]
    simp [Vector.getD, hi]
  · have hne : i ≠ j := fun h => hji h.symm
    rw [h j (by omega)]
    simp [Vector.getD, hne]

theorem Holds.append {d : Data} (h : Holds k i popped d) (ws : List Word) :
    Holds k i (popped ++ ws) d := by
  intro j hj
  have hlt : 8 * k + j < popped.length := (List.getElem?_eq_some_iff.mp (h j hj)).1
  rw [List.getElem?_append_left hlt]
  exact h j hj

/-- The word leaving the FIFO with the next edge. -/
def leaving (s : Regs) : List Word :=
  if s.master.fifoReadRequest then s.fifo.words.head?.toList else []

theorem leaving_idle (h : s.master.fifoReadRequest = false) : leaving s = [] := by
  simp [leaving, h]

/-- A pop of a FIFO with words moves its head to `q` and leaves one word less. -/
theorem pop_edge {n : Nat} (hready : inp.ready = true) (h : s.master.fifoReadRequest = true)
    (hn : n + 1 ≤ s.fifo.words.length) :
    leaving s = [(step s inp).fifo.q] ∧ n ≤ (step s inp).fifo.words.length := by
  obtain ⟨x, xs, hw⟩ := List.exists_cons_of_length_pos (show 0 < s.fifo.words.length by omega)
  rw [hw, List.length_cons] at hn
  simp only [leaving, step, hready, h, if_true]
  refine ⟨by rw [Queue.edge_read_q hw, hw]; rfl, ?_⟩
  simp only [Queue.edge, if_true, hw, List.tail_cons, List.length_append]
  omega

/-- Without a pop `q` stays and no word is lost. -/
theorem hold_edge (hready : inp.ready = true) (h : s.master.fifoReadRequest = false) :
    (step s inp).fifo.q = s.fifo.q ∧ s.fifo.words.length ≤ (step s inp).fifo.words.length := by
  simp only [step, hready, h, if_true, Queue.edge_q_hold, true_and]
  simp [Queue.edge]

theorem master_edge (s : Regs) (inp : Inputs) :
    Edge s.master (masterInputs s inp) (step s inp).master :=
  CameraMaster.clock_edge _ _

/-! ## One edge -/

theorem idle_step (hs : s.master.state = .idleForReady) (hreq : s.master.fifoReadRequest = false)
    (hlen : popped.length = 8 * k) : Phase k popped (step s inp) := by
  have he := master_edge s inp
  generalize hs' : step s inp = s' at he ⊢
  obtain ⟨m, f⟩ := s'
  cases he with
  | stop => exact .idle hs hreq hlen
  | resume | publish => exact .await rfl hreq hlen rfl rfl
  | await h1 | fetch h1 | abort h1 | clockWait h1 | collect h1 | collectRelease h1
  | collectLast h1 | sendInit h1 | stall h1 | beat h1 | lastBeat h1 => simp [hs] at h1

theorem loop_step (hs : s.master.state = .dmaSendLoop) (hreq : s.master.fifoReadRequest = false)
    (hlen : popped.length = 8 * k) (hdma : s.master.indiceArrayDma.toNat ≤ 6) :
    Phase k popped (step s inp) := by
  have he := master_edge s inp
  generalize hs' : step s inp = s' at he ⊢
  obtain ⟨m, f⟩ := s'
  cases he with
  | stall => exact .loop hs hreq hlen hdma
  | beat _ _ h6 =>
    refine .loop hs hreq hlen ?_
    show (s.master.indiceArrayDma + 1).toNat ≤ 6
    have h : s.master.indiceArrayDma.toNat < 6 := by simpa [BitVec.lt_def] using h6
    rw [BitVec.toNat_add]
    simp
    omega
  | lastBeat => exact .idle rfl hreq hlen
  | stop h1 | resume h1 | publish h1 | await h1 | fetch h1 | abort h1 | clockWait h1
  | collect h1 | collectRelease h1 | collectLast h1 | sendInit h1 => simp [hs] at h1

/-- `almost_empty` low means that a whole burst is stored. -/
theorem await_step (hready : inp.ready = true) (hs : s.master.state = .idleForData)
    (hreq : s.master.fifoReadRequest = false) (hlen : popped.length = 8 * k)
    (hfifo : s.master.indiceArrayFifo = 0) (hdma : s.master.indiceArrayDma = 0) :
    Phase k popped (step s inp) := by
  have he := master_edge s inp
  have hhold := (hold_edge (s := s) hready hreq).2
  generalize hs' : step s inp = s' at he hhold ⊢
  obtain ⟨m, f⟩ := s'
  cases he with
  | await => exact .await hs hreq hlen hfifo hdma
  | fetch _ _ havail =>
    have hwords : 8 ≤ s.fifo.words.length := by
      simpa [masterInputs, Queue.almostEmpty] using havail
    exact .wait rfl rfl hlen hfifo hdma (Nat.le_trans hwords hhold)
  | abort => exact .idle rfl hreq hlen
  | stop h1 | resume h1 | publish h1 | clockWait h1 | collect h1 | collectRelease h1
  | collectLast h1 | sendInit h1 | stall h1 | beat h1 | lastBeat h1 => simp [hs] at h1

/-- The first pop: word 0 is on `q` when `Collect_Data_FIFO` starts. -/
theorem wait_step (hready : inp.ready = true) (hs : s.master.state = .clockWaitDataFifo)
    (hreq : s.master.fifoReadRequest = true) (hlen : popped.length = 8 * k)
    (hfifo : s.master.indiceArrayFifo = 0) (hdma : s.master.indiceArrayDma = 0)
    (hwords : 8 ≤ s.fifo.words.length) : Phase k (popped ++ leaving s) (step s inp) := by
  have he := master_edge s inp
  obtain ⟨hleave, hlen'⟩ := pop_edge (n := 7) hready hreq hwords
  rw [hleave]
  generalize hs' : step s inp = s' at he hlen' ⊢
  obtain ⟨m, f⟩ := s'
  cases he with
  | clockWait =>
    refine .collect 0 (by omega) rfl (by simpa using hreq) (by simp [hlen]) ?_ hdma hlen' ?_ ?_
    · show s.master.indiceArrayFifo.toNat = 0
      rw [hfifo]
      rfl
    · simp [← hlen]
    · exact fun j hj => absurd hj (by omega)
  | stop h1 | resume h1 | publish h1 | await h1 | fetch h1 | abort h1 | collect h1
  | collectRelease h1 | collectLast h1 | sendInit h1 | stall h1 | beat h1 | lastBeat h1 =>
    simp [hs] at h1

/-- The comparisons of `Indice_Array_FIFO`. -/
theorem fifoIndex_eq {x : BitVec 5} {i : Nat} (h : x.toNat = i) (n : Nat) (hn : n < 32) :
    x = BitVec.ofNat 5 n ↔ i = n := by
  rw [← BitVec.toNat_inj, h, BitVec.toNat_ofNat, Nat.mod_eq_of_lt hn]

theorem index_succ {x : BitVec 5} {i : Nat} (h : x.toNat = i) (hi : i < 31) :
    (x + 1).toNat = i + 1 := by
  rw [BitVec.toNat_add, h]
  exact Nat.mod_eq_of_lt (by simp; omega)

/-- Word `i` is captured while word `i + 1` is popped, if there is one. -/
theorem collect_step (hready : inp.ready = true) (hi : i ≤ 7)
    (hs : s.master.state = .collectDataFifo)
    (hreq : s.master.fifoReadRequest = decide (i < 7)) (hlen : popped.length = 8 * k + i + 1)
    (hfifo : s.master.indiceArrayFifo.toNat = i) (hdma : s.master.indiceArrayDma = 0)
    (hwords : 7 - i ≤ s.fifo.words.length) (hq : popped[8 * k + i]? = some s.fifo.q)
    (hdata : Holds k i popped s.master.dataArray) :
    Phase k (popped ++ leaving s) (step s inp) := by
  have he := master_edge s inp
  have hcap : Holds k (i + 1) (popped ++ leaving s) (s.master.dataArray.setIfInBounds
      s.master.indiceArrayFifo.toNat (masterInputs s inp).fifoReadData) := by
    rw [hfifo]
    exact (hdata.capture (by omega) hq).append (leaving s)
  have hnext := index_succ hfifo (by omega)
  have hpop : i < 7 → leaving s = [(step s inp).fifo.q] ∧
      7 - (i + 1) ≤ (step s inp).fifo.words.length :=
    fun h => pop_edge hready (by simp [hreq, h]) (by omega)
  have hq' : i < 7 → (popped ++ leaving s)[8 * k + (i + 1)]? = some (step s inp).fifo.q := by
    intro h
    rw [(hpop h).1, List.getElem?_append_right (by omega)]
    simp [hlen, show 8 * k + (i + 1) - (8 * k + i + 1) = 0 by omega]
  have hlen' : i < 7 → (popped ++ leaving s).length = 8 * k + (i + 1) + 1 := by
    intro h
    rw [(hpop h).1, List.length_append, hlen]
    rfl
  generalize hs' : step s inp = s' at he hpop hq' ⊢
  obtain ⟨m, f⟩ := s'
  have hidx := fifoIndex_eq hfifo
  cases he with
  | collect _ h6 h7 =>
    have hi6 : i ≠ 6 := fun h => h6 ((hidx 6 (by omega)).mpr h)
    have hi7 : i ≠ 7 := fun h => h7 ((hidx 7 (by omega)).mpr h)
    have h : i < 7 := by omega
    refine .collect (i + 1) (by omega) hs ?_ (hlen' h) hnext hdma (hpop h).2 (hq' h)
      hcap
    show s.master.fifoReadRequest = _
    rw [hreq, decide_eq_true h, decide_eq_true (by omega)]
  | collectRelease _ h6 =>
    have hi6 : i = 6 := (hidx 6 (by omega)).mp h6
    have h : i < 7 := by omega
    exact .collect (i + 1) (by omega) hs (by simp [hi6]) (hlen' h) hnext hdma (hpop h).2
      (hq' h) hcap
  | collectLast _ h7 =>
    have hi7 : i = 7 := (hidx 7 (by omega)).mp h7
    have hreq' : s.master.fifoReadRequest = false := by simp [hreq, hi7]
    rw [leaving_idle hreq', List.append_nil] at hcap ⊢
    exact .full rfl hreq' (by omega) hdma (by simpa only [hi7] using hcap)
  | stop h1 | resume h1 | publish h1 | await h1 | fetch h1 | abort h1 | clockWait h1
  | sendInit h1 | stall h1 | beat h1 | lastBeat h1 => simp [hs] at h1

theorem full_step (hs : s.master.state = .dmaSendInit) (hreq : s.master.fifoReadRequest = false)
    (hlen : popped.length = 8 * (k + 1)) (hdma : s.master.indiceArrayDma = 0) :
    Phase (k + 1) popped (step s inp) := by
  have he := (master_edge s inp).of_dmaSendInit hs
  refine .loop (by rw [he]; rfl) (by rw [he]; exact hreq) hlen ?_
  rw [he]
  show s.master.indiceArrayDma.toNat ≤ 6
  simp [hdma]

/-- **Step lemma**: one edge takes a phase to a phase; leaving `DMA_Send_Init` counts a burst. -/
theorem phase_step (h : Phase k popped s)
    (hready : s.master.state = .idleForReady ∨ inp.ready = true) :
    Phase (if s.master.state = .dmaSendInit then k + 1 else k) (popped ++ leaving s)
      (step s inp) := by
  have hr : s.master.state ≠ .idleForReady → inp.ready = true := fun hn => hready.resolve_left hn
  cases h with
  | idle hs hreq hlen =>
    rw [leaving_idle hreq, List.append_nil, if_neg (by simp [hs])]
    exact idle_step hs hreq hlen
  | loop hs hreq hlen hdma =>
    rw [leaving_idle hreq, List.append_nil, if_neg (by simp [hs])]
    exact loop_step hs hreq hlen hdma
  | await hs hreq hlen hfifo hdma =>
    rw [leaving_idle hreq, List.append_nil, if_neg (by simp [hs])]
    exact await_step (hr (by simp [hs])) hs hreq hlen hfifo hdma
  | wait hs hreq hlen hfifo hdma hwords =>
    rw [if_neg (by simp [hs])]
    exact wait_step (hr (by simp [hs])) hs hreq hlen hfifo hdma hwords
  | collect i hi hs hreq hlen hfifo hdma hwords hq hdata =>
    rw [if_neg (by simp [hs])]
    exact collect_step (hr (by simp [hs])) hi hs hreq hlen hfifo hdma hwords hq hdata
  | full hs hreq hlen hdma _ =>
    rw [leaving_idle hreq, List.append_nil, if_pos hs]
    exact full_step hs hreq hlen hdma

end Step

/-! ## Runs -/

section Runs

variable {b0 : BitVec 2} {q0 : Word} {inp : Nat → Inputs} {n : Nat}

theorem pushed_succ (n : Nat) : pushed inp (n + 1) = pushed inp n ++ (pushAt inp n).toList :=
  collect_succ _ (by omega)

theorem popped_succ (n : Nat) :
    popped b0 q0 inp (n + 1) = popped b0 q0 inp n ++ leaving (regs b0 q0 inp n) := by
  rw [popped, collect_succ _ (by omega), popAt, leaving]
  split <;> rfl

theorem bursts_succ (n : Nat) : bursts b0 q0 inp (n + 1) =
    if (regs b0 q0 inp n).master.state = .dmaSendInit then bursts b0 q0 inp n + 1
    else bursts b0 q0 inp n := by
  rw [bursts, collect_succ _ (by omega), burstAt, List.length_append]
  split <;> rfl

/-- Cycle `n` of a run: the phase, the words popped and stored being the words pushed, and
`Ready` high unless nothing has happened yet. -/
structure Inv (b0 : BitVec 2) (q0 : Word) (inp : Nat → Inputs) (n : Nat) : Prop where
  phase : Phase (bursts b0 q0 inp n) (popped b0 q0 inp n) (regs b0 q0 inp n)
  conserved : popped b0 q0 inp n ++ (regs b0 q0 inp n).fifo.words = pushed inp n
  before : (inp n).ready = false →
    (regs b0 q0 inp n).master.state = .idleForReady ∧ (regs b0 q0 inp n).fifo.words = []

/-- **Run lemma.** -/
theorem inv_run (h : Fed b0 q0 inp n) : Inv b0 q0 inp n := by
  induction n with
  | zero => exact ⟨.idle rfl rfl rfl, rfl, fun _ => ⟨rfl, rfl⟩⟩
  | succ n ih =>
    have hinv := ih ⟨fun m hm => h.stays m (by omega), fun m hm => h.room m (by omega)⟩
    have hready : (regs b0 q0 inp n).master.state = .idleForReady ∨ (inp n).ready = true := by
      cases hr : (inp n).ready with
      | false => exact Or.inl (hinv.before hr).1
      | true => exact Or.inr rfl
    refine ⟨?_, ?_, fun hr => ?_⟩
    · rw [popped_succ, bursts_succ]
      exact phase_step hinv.phase hready
    · rw [popped_succ, pushed_succ]
      cases hr : (inp n).ready with
      | true =>
        have hstep : (regs b0 q0 inp (n + 1)).fifo = (regs b0 q0 inp n).fifo.edge 32 (inp n).push
            (regs b0 q0 inp n).master.fifoReadRequest := if_pos hr
        rw [hstep, pushAt, if_pos hr]
        exact Queue.edge_conserves hinv.conserved (h.room n (by omega))
      | false =>
        have hstep : (regs b0 q0 inp (n + 1)).fifo = (regs b0 q0 inp n).fifo.clear :=
          if_neg (by simp [hr])
        rw [hstep, pushAt, if_neg (by simp [hr]), leaving, (hinv.before hr).2, Queue.clear_words]
        have hc := hinv.conserved
        rw [(hinv.before hr).2] at hc
        simpa using hc
    · -- `Ready` has been low all the time
      have hr' : (inp n).ready = false := by
        cases h1 : (inp n).ready with
        | false => rfl
        | true =>
          rw [h.stays n (by omega) h1] at hr
          cases hr
      obtain ⟨hs, hw⟩ := hinv.before hr'
      have hmaster : (regs b0 q0 inp (n + 1)).master =
          CameraMaster.clock (regs b0 q0 inp n).master (masterInputs (regs b0 q0 inp n) (inp n)) :=
        rfl
      refine ⟨?_, ?_⟩
      · rw [hmaster]
        simp [CameraMaster.clock, hs, CameraMaster.idleForReady, masterInputs, hr']
      · show (if (inp n).ready then _ else (regs b0 q0 inp n).fifo.clear).words = []
        rw [if_neg (by simp [hr'])]
        rfl

end Runs

/-- **Gathering loses and repeats nothing**, in every cycle up to which `Ready` has stayed high
and no push has met a full FIFO. -/
theorem gathered (b0 : BitVec 2) (q0 : Word) (inp : Nat → Inputs) (n : Nat)
    (h : Fed b0 q0 inp n) : Faithful b0 q0 inp n := by
  obtain ⟨hphase, hcons, _⟩ := inv_run h
  refine ⟨fun hreq => ?_, fun hs => ?_, fun hs j hj => ?_, fun hs => ?_, fun hs => ?_⟩
  · cases hphase with
    | wait _ _ _ _ _ hwords =>
      intro hnil
      simp [hnil] at hwords
    | collect i hi _ h7 _ _ _ hwords =>
      have hlt : i < 7 := by simpa [hreq] using h7
      intro hnil
      simp [hnil] at hwords
      omega
    | idle _ h1 | loop _ h1 | await _ h1 | full _ h1 => simp [hreq] at h1
  · cases hphase with
    | full _ _ hlen => exact hlen
    | idle h1 | loop h1 | await h1 | wait h1 | collect _ _ h1 => simp [hs] at h1
  · cases hphase with
    | full _ _ hlen _ hdata =>
      rw [← hcons, List.getElem?_append_left (by omega)]
      exact hdata j hj
    | idle h1 | loop h1 | await h1 | wait h1 | collect _ _ h1 => simp [hs] at h1
  · cases hphase with
    | collect i hi _ _ _ hfifo => omega
    | idle h1 | loop h1 | await h1 | wait h1 | full h1 => simp [hs] at h1
  · cases hphase with
    | loop _ _ _ hdma =>
      rw [BitVec.toNat_add]
      simp
      omega
    | idle h1 | await h1 | wait h1 | collect _ _ h1 | full h1 => simp [hs] at h1

/-- A word pushed in each of the cycles 1 to 10, `Ready` being high from cycle 1 on. -/
def tenPushes (n : Nat) : Inputs where
  push := if n ≤ 10 then some (BitVec.ofNat 32 n) else none
  address := 0
  lengthFrame := 32
  ready := n != 0
  displayBuffer := 0
  amWaitRequest := false

/-- The first burst of such a run is prepared in cycle 19. -/
theorem gathered_first_burst :
    (regs 0 0 tenPushes 19).master.state = .dmaSendInit ∧ Faithful 0 0 tenPushes 19 := by
  refine ⟨by decide, gathered 0 0 tenPushes 19 ⟨?_, ?_⟩⟩
  · decide
  · decide

end CameraLcd.Gather
