import CameraLcd.Camera.Gather

/-!
# The level of the burst FIFO

The master takes 8 words a round.  A round has 19 cycles and one more for each stalled beat, so
with 13 stalls at most the master keeps up with one word in four cycles.

* `Stage` — the read request and the indices in each state, whatever `Ready` has done before.
* `Round` — the pops since the last time the master had to wait for data, against the time that
  has passed since.
* `level_le` — the level never exceeds 8.
* `noOverflow` — no push finds the FIFO full.
-/

set_option autoImplicit false

namespace CameraLcd.Gather

open Clocked IdealFifo
open CameraMaster (Edge)

/-! ## The read request -/

/-- The registers of the master in each state. -/
inductive Stage (r : CameraMaster.Regs) : Prop where
  | idle (hs : r.state = .idleForReady) (hreq : r.fifoReadRequest = false)
  | await (hs : r.state = .idleForData) (hreq : r.fifoReadRequest = false)
      (hfifo : r.indiceArrayFifo = 0) (hdma : r.indiceArrayDma = 0)
  | wait (hs : r.state = .clockWaitDataFifo) (hreq : r.fifoReadRequest = true)
      (hfifo : r.indiceArrayFifo = 0) (hdma : r.indiceArrayDma = 0)
  | collect (i : Nat) (hi : i ≤ 7) (hs : r.state = .collectDataFifo)
      (hreq : r.fifoReadRequest = decide (i < 7)) (hfifo : r.indiceArrayFifo.toNat = i)
      (hdma : r.indiceArrayDma = 0)
  | full (hs : r.state = .dmaSendInit) (hreq : r.fifoReadRequest = false)
      (hdma : r.indiceArrayDma = 0)
  | loop (hs : r.state = .dmaSendLoop) (hreq : r.fifoReadRequest = false)
      (hdma : r.indiceArrayDma.toNat ≤ 6)

/-- **Every edge keeps the request and the indices in step with the state.** -/
theorem Stage.edge {r r' : CameraMaster.Regs} {i : CameraMaster.Inputs} (he : Edge r i r')
    (h : Stage r) : Stage r' := by
  cases h with
  | idle hs hreq =>
    cases he with
    | stop => exact .idle hs hreq
    | resume | publish => exact .await rfl hreq rfl rfl
    | await h1 | fetch h1 | abort h1 | clockWait h1 | collect h1 | collectRelease h1
    | collectLast h1 | sendInit h1 | stall h1 | beat h1 | lastBeat h1 => simp [hs] at h1
  | await hs hreq hfifo hdma =>
    cases he with
    | await => exact .await hs hreq hfifo hdma
    | fetch => exact .wait rfl rfl hfifo hdma
    | abort => exact .idle rfl hreq
    | stop h1 | resume h1 | publish h1 | clockWait h1 | collect h1 | collectRelease h1
    | collectLast h1 | sendInit h1 | stall h1 | beat h1 | lastBeat h1 => simp [hs] at h1
  | wait hs hreq hfifo hdma =>
    cases he with
    | clockWait => exact .collect 0 (by omega) rfl (by simpa using hreq) (by simp [hfifo]) hdma
    | stop h1 | resume h1 | publish h1 | await h1 | fetch h1 | abort h1 | collect h1
    | collectRelease h1 | collectLast h1 | sendInit h1 | stall h1 | beat h1 | lastBeat h1 =>
      simp [hs] at h1
  | collect j hj hs hreq hfifo hdma =>
    have hidx := fifoIndex_eq hfifo
    have hsucc := index_succ hfifo (by omega)
    cases he with
    | collect _ h6 h7 =>
      have hj6 : j ≠ 6 := fun h => h6 ((hidx 6 (by omega)).mpr h)
      have hj7 : j ≠ 7 := fun h => h7 ((hidx 7 (by omega)).mpr h)
      refine .collect (j + 1) (by omega) hs ?_ hsucc hdma
      show r.fifoReadRequest = _
      rw [hreq, decide_eq_true (by omega), decide_eq_true (by omega)]
    | collectRelease _ h6 =>
      have hj6 : j = 6 := (hidx 6 (by omega)).mp h6
      exact .collect (j + 1) (by omega) hs (by simp [hj6]) hsucc hdma
    | collectLast _ h7 =>
      have hj7 : j = 7 := (hidx 7 (by omega)).mp h7
      exact .full rfl (by simp [hreq, hj7]) hdma
    | stop h1 | resume h1 | publish h1 | await h1 | fetch h1 | abort h1 | clockWait h1
    | sendInit h1 | stall h1 | beat h1 | lastBeat h1 => simp [hs] at h1
  | full hs hreq hdma =>
    rw [he.of_dmaSendInit hs]
    refine .loop rfl hreq ?_
    show r.indiceArrayDma.toNat ≤ 6
    simp [hdma]
  | loop hs hreq hdma =>
    cases he with
    | stall => exact .loop hs hreq hdma
    | beat _ _ h6 =>
      have hlt : r.indiceArrayDma.toNat < 6 := by simpa [BitVec.lt_def] using h6
      refine .loop hs hreq ?_
      show (r.indiceArrayDma + 1).toNat ≤ 6
      rw [index_succ rfl (by omega)]
      omega
    | lastBeat => exact .idle rfl hreq
    | stop h1 | resume h1 | publish h1 | await h1 | fetch h1 | abort h1 | clockWait h1
    | collect h1 | collectRelease h1 | collectLast h1 | sendInit h1 => simp [hs] at h1

theorem Stage.noRequest {r : CameraMaster.Regs} (h : Stage r)
    (hs : r.state = .idleForReady ∨ r.state = .idleForData) : r.fifoReadRequest = false := by
  cases h with
  | idle _ h1 | await _ h1 | full _ h1 | loop _ h1 => exact h1
  | wait h1 | collect _ _ h1 => simp [h1] at hs

section Run

variable {b0 : BitVec 2} {q0 : Word} {inp : Nat → Inputs} {n0 n w p : Nat}

theorem edge_at (b0 : BitVec 2) (q0 : Word) (inp : Nat → Inputs) (n : Nat) :
    Edge (regs b0 q0 inp n).master (masterInputs (regs b0 q0 inp n) (inp n))
      (regs b0 q0 inp (n + 1)).master := master_edge _ _

theorem stage_run (b0 : BitVec 2) (q0 : Word) (inp : Nat → Inputs) (n : Nat) :
    Stage (regs b0 q0 inp n).master :=
  Machine.run_invariant (M := machine b0 q0) (I := fun s => Stage s.master) (.idle rfl rfl)
    (fun s i h => h.edge (master_edge s i)) n

/-! ## Arrivals and the level -/

/-- The number of words in the FIFO. -/
def level (b0 : BitVec 2) (q0 : Word) (inp : Nat → Inputs) (n : Nat) : Nat :=
  (regs b0 q0 inp n).fifo.words.length

/-- The number of pushes in the cycles `a, …, b - 1`. -/
def arrivals (inp : Nat → Inputs) (a b : Nat) : Nat := (collect (fun k => (inp k).push) a b).length

/-- The number of stalled cycles among `a, …, b - 1`. -/
def stalls (inp : Nat → Inputs) (a b : Nat) : Nat :=
  (collect (fun k => if (inp k).amWaitRequest then some () else none) a b).length

theorem arrivals_succ {a b : Nat} (h : a ≤ b) :
    arrivals inp a (b + 1) = arrivals inp a b + (inp b).push.toList.length := by
  rw [arrivals, collect_succ _ h, List.length_append]
  rfl

theorem stalls_succ {a b : Nat} (h : a ≤ b) :
    stalls inp a (b + 1) = stalls inp a b + (if (inp b).amWaitRequest then 1 else 0) := by
  rw [stalls, collect_succ _ h, List.length_append]
  split <;> rfl

theorem level_hold (hr : (inp n).ready = true)
    (hreq : (regs b0 q0 inp n).master.fifoReadRequest = false) :
    level b0 q0 inp n ≤ level b0 q0 inp (n + 1) ∧
      level b0 q0 inp (n + 1) ≤ level b0 q0 inp n + (inp n).push.toList.length := by
  have hnext : (regs b0 q0 inp (n + 1)).fifo = (regs b0 q0 inp n).fifo.edge 32 (inp n).push
      (regs b0 q0 inp n).master.fifoReadRequest := if_pos hr
  unfold level
  rw [hnext, hreq]
  simp only [Queue.edge, Bool.false_eq_true, if_false, List.length_append]
  split <;> simp

/-- A read request takes a word out of a FIFO that has one. -/
theorem level_pop (hr : (inp n).ready = true)
    (hreq : (regs b0 q0 inp n).master.fifoReadRequest = true) (hpos : 0 < level b0 q0 inp n) :
    level b0 q0 inp n ≤ level b0 q0 inp (n + 1) + 1 ∧
      level b0 q0 inp (n + 1) + 1 ≤ level b0 q0 inp n + (inp n).push.toList.length := by
  have hnext : (regs b0 q0 inp (n + 1)).fifo = (regs b0 q0 inp n).fifo.edge 32 (inp n).push
      (regs b0 q0 inp n).master.fifoReadRequest := if_pos hr
  unfold level at hpos ⊢
  rw [hnext, hreq]
  simp only [Queue.edge, if_true, List.length_append, List.length_tail]
  split
  · omega
  · simp
    omega

/-! ## Rounds -/

/-- Cycle `n`, `p` words having been popped since cycle `w`: what has been done of a round and
how much time it has taken.  13 stalls are paid for in advance when a burst is sent. -/
inductive Round (b0 : BitVec 2) (q0 : Word) (inp : Nat → Inputs) (n0 n w p : Nat) : Prop where
  | idle (hs : (regs b0 q0 inp n).master.state = .idleForReady) (ht : n ≤ w + 4 * p)
  | await (hs : (regs b0 q0 inp n).master.state = .idleForData) (ht : n ≤ w + 4 * p + 1)
  | wait (hs : (regs b0 q0 inp n).master.state = .clockWaitDataFifo) (ht : n ≤ w + 4 * p + 2)
      (hw : 8 ≤ level b0 q0 inp n)
  | collect (i : Nat) (hs : (regs b0 q0 inp n).master.state = .collectDataFifo)
      (hfifo : (regs b0 q0 inp n).master.indiceArrayFifo.toNat = i)
      (ht : n + 3 * i + 1 ≤ w + 4 * p) (hw : 7 ≤ level b0 q0 inp n + i)
  | full (hs : (regs b0 q0 inp n).master.state = .dmaSendInit) (ht : n + 21 ≤ w + 4 * p)
  /-- The loop has been entered in cycle `m`. -/
  | loop (m : Nat) (hm : n0 ≤ m) (hmn : m ≤ n)
      (hs : ∀ k, m ≤ k → k ≤ n → (regs b0 q0 inp k).master.state = .dmaSendLoop)
      (hd : n = m + (regs b0 q0 inp n).master.indiceArrayDma.toNat + stalls inp m n)
      (ht : m + 20 ≤ w + 4 * p)

/-- The level against the arrivals since cycle `w`. -/
structure Account (b0 : BitVec 2) (q0 : Word) (inp : Nat → Inputs) (n0 n w p : Nat) : Prop where
  after : n0 ≤ w
  past : w ≤ n
  level_le : level b0 q0 inp n + p ≤ 7 + arrivals inp w n
  round : Round b0 q0 inp n0 n w p

theorem Account.hold (h : Account b0 q0 inp n0 n w p) (hr : (inp n).ready = true)
    (hreq : (regs b0 q0 inp n).master.fifoReadRequest = false)
    (hround : Round b0 q0 inp n0 (n + 1) w p) : Account b0 q0 inp n0 (n + 1) w p := by
  have hlevel := (level_hold hr hreq).2
  have hold := h.level_le
  refine ⟨h.after, Nat.le_succ_of_le h.past, ?_, hround⟩
  rw [arrivals_succ h.past]
  omega

theorem Account.pop (h : Account b0 q0 inp n0 n w p) (hr : (inp n).ready = true)
    (hreq : (regs b0 q0 inp n).master.fifoReadRequest = true) (hpos : 0 < level b0 q0 inp n)
    (hround : Round b0 q0 inp n0 (n + 1) w (p + 1)) :
    Account b0 q0 inp n0 (n + 1) w (p + 1) := by
  have hlevel := (level_pop hr hreq hpos).2
  have hold := h.level_le
  refine ⟨h.after, Nat.le_succ_of_le h.past, ?_, hround⟩
  rw [arrivals_succ h.past]
  omega

theorem Account.idle_step (h : Account b0 q0 inp n0 n w p) (hr : (inp n).ready = true)
    (hs : (regs b0 q0 inp n).master.state = .idleForReady) (ht : n ≤ w + 4 * p) :
    Account b0 q0 inp n0 (n + 1) w p := by
  refine h.hold hr ((stage_run b0 q0 inp n).noRequest (.inl hs)) (.await ?_ (by omega))
  have hr' : (masterInputs (regs b0 q0 inp n) (inp n)).ready = true := hr
  have he := edge_at b0 q0 inp n
  generalize (regs b0 q0 inp (n + 1)).master = r' at he ⊢
  cases he with
  | resume | publish => rfl
  | stop _ h1 => simp [hr'] at h1
  | await h1 | fetch h1 | abort h1 | clockWait h1 | collect h1 | collectRelease h1
  | collectLast h1 | sendInit h1 | stall h1 | beat h1 | lastBeat h1 => simp [hs] at h1

theorem Account.await_step (h : Account b0 q0 inp n0 n w p) (hr : (inp n).ready = true)
    (hs : (regs b0 q0 inp n).master.state = .idleForData) (ht : n ≤ w + 4 * p + 1) :
    ∃ w' p', Account b0 q0 inp n0 (n + 1) w' p' := by
  have hreq := (stage_run b0 q0 inp n).noRequest (.inr hs)
  obtain ⟨hkeep, hrise⟩ := level_hold hr hreq
  have hr' : (masterInputs (regs b0 q0 inp n) (inp n)).ready = true := hr
  have he := edge_at b0 q0 inp n
  obtain ⟨r', hnext⟩ : ∃ r', (regs b0 q0 inp (n + 1)).master = r' := ⟨_, rfl⟩
  rw [hnext] at he
  cases he with
  | await _ _ hd =>
    -- too few words: the time is counted from here
    have hfew : level b0 q0 inp n < 8 := by
      simpa [masterInputs, Queue.almostEmpty, level] using hd
    refine ⟨n, 0, h.after.trans h.past, Nat.le_succ n, ?_, .await (by rw [hnext]; exact hs)
      (by omega)⟩
    rw [arrivals_succ (Nat.le_refl n)]
    omega
  | fetch _ _ hd =>
    have hmany : 8 ≤ level b0 q0 inp n := by
      simpa [masterInputs, Queue.almostEmpty, level] using hd
    exact ⟨w, p, h.hold hr hreq (.wait (by rw [hnext]) (by omega) (by omega))⟩
  | abort _ h1 => simp [hr'] at h1
  | stop h1 | resume h1 | publish h1 | clockWait h1 | collect h1 | collectRelease h1
  | collectLast h1 | sendInit h1 | stall h1 | beat h1 | lastBeat h1 => simp [hs] at h1

/-- The first pop of a round. -/
theorem Account.wait_step (h : Account b0 q0 inp n0 n w p) (hr : (inp n).ready = true)
    (hs : (regs b0 q0 inp n).master.state = .clockWaitDataFifo) (ht : n ≤ w + 4 * p + 2)
    (hw : 8 ≤ level b0 q0 inp n) : Account b0 q0 inp n0 (n + 1) w (p + 1) := by
  cases stage_run b0 q0 inp n with
  | wait _ hreq hfifo =>
    have hpop := (level_pop hr hreq (by omega)).1
    have he := edge_at b0 q0 inp n
    obtain ⟨r', hnext⟩ : ∃ r', (regs b0 q0 inp (n + 1)).master = r' := ⟨_, rfl⟩
    rw [hnext] at he
    cases he with
    | clockWait =>
      refine h.pop hr hreq (by omega) (.collect 0 (by rw [hnext]) ?_ (by omega) (by omega))
      rw [hnext]
      simp [hfifo]
    | stop h1 | resume h1 | publish h1 | await h1 | fetch h1 | abort h1 | collect h1
    | collectRelease h1 | collectLast h1 | sendInit h1 | stall h1 | beat h1 | lastBeat h1 =>
      simp [hs] at h1
  | idle h1 | await h1 | collect _ _ h1 | full h1 | loop h1 => simp [hs] at h1

/-- A word is stored while the next one is popped, if there is one. -/
theorem Account.collect_step {i : Nat} (h : Account b0 q0 inp n0 n w p)
    (hr : (inp n).ready = true) (hs : (regs b0 q0 inp n).master.state = .collectDataFifo)
    (hfifo : (regs b0 q0 inp n).master.indiceArrayFifo.toNat = i)
    (ht : n + 3 * i + 1 ≤ w + 4 * p) (hw : 7 ≤ level b0 q0 inp n + i) :
    ∃ p', Account b0 q0 inp n0 (n + 1) w p' := by
  have he := edge_at b0 q0 inp n
  obtain ⟨r', hnext⟩ : ∃ r', (regs b0 q0 inp (n + 1)).master = r' := ⟨_, rfl⟩
  rw [hnext] at he
  cases stage_run b0 q0 inp n with
  | collect j hj _ hreq hfifo' =>
    obtain rfl : j = i := hfifo'.symm.trans hfifo
    have hidx := fifoIndex_eq hfifo
    have hsucc := index_succ hfifo (by omega)
    have hmore : j < 7 → r'.state = .collectDataFifo → r'.indiceArrayFifo.toNat = j + 1 →
        ∃ p', Account b0 q0 inp n0 (n + 1) w p' := by
      intro hlt hs' hi'
      have hreq' : (regs b0 q0 inp n).master.fifoReadRequest = true := by simp [hreq, hlt]
      have hpop := (level_pop hr hreq' (by omega)).1
      exact ⟨p + 1, h.pop hr hreq' (by omega) (.collect (j + 1) (by rw [hnext]; exact hs')
        (by rw [hnext]; exact hi') (by omega) (by omega))⟩
    cases he with
    | collect _ h6 h7 =>
      have hj6 : j ≠ 6 := fun h => h6 ((hidx 6 (by omega)).mpr h)
      have hj7 : j ≠ 7 := fun h => h7 ((hidx 7 (by omega)).mpr h)
      exact hmore (by omega) hs hsucc
    | collectRelease _ h6 =>
      have hj6 : j = 6 := (hidx 6 (by omega)).mp h6
      exact hmore (by omega) hs hsucc
    | collectLast _ h7 =>
      have hj7 : j = 7 := (hidx 7 (by omega)).mp h7
      exact ⟨p, h.hold hr (by simp [hreq, hj7]) (.full (by rw [hnext]) (by omega))⟩
    | stop h1 | resume h1 | publish h1 | await h1 | fetch h1 | abort h1 | clockWait h1
    | sendInit h1 | stall h1 | beat h1 | lastBeat h1 => simp [hs] at h1
  | idle h1 | await h1 | wait h1 | full h1 | loop h1 => simp [hs] at h1

theorem Account.full_step (h : Account b0 q0 inp n0 n w p) (hr : (inp n).ready = true)
    (hs : (regs b0 q0 inp n).master.state = .dmaSendInit) (ht : n + 21 ≤ w + 4 * p) :
    Account b0 q0 inp n0 (n + 1) w p := by
  cases stage_run b0 q0 inp n with
  | full _ hreq hdma =>
    have hsent := (edge_at b0 q0 inp n).of_dmaSendInit hs
    refine h.hold hr hreq (.loop (n + 1) (by have := h.after; have := h.past; omega)
      (Nat.le_refl _) ?_ ?_ (by omega))
    · intro k h1 h2
      rw [show k = n + 1 by omega, hsent]
      rfl
    · rw [hsent, stalls, collect_self]
      simp [CameraMaster.dmaSendInit, hdma]
  | idle h1 | await h1 | wait h1 | collect _ _ h1 | loop h1 => simp [hs] at h1

/-- A cycle in the loop is a beat or one of the stalls. -/
theorem Account.loop_step {m : Nat} (h : Account b0 q0 inp n0 n w p) (hr : (inp n).ready = true)
    (hm : n0 ≤ m) (hmn : m ≤ n)
    (hs : ∀ k, m ≤ k → k ≤ n → (regs b0 q0 inp k).master.state = .dmaSendLoop)
    (hd : n = m + (regs b0 q0 inp n).master.indiceArrayDma.toNat + stalls inp m n)
    (ht : m + 20 ≤ w + 4 * p) (hfew : stalls inp m n ≤ 13) :
    Account b0 q0 inp n0 (n + 1) w p := by
  have hsn := hs n hmn (Nat.le_refl n)
  have he := edge_at b0 q0 inp n
  obtain ⟨r', hnext⟩ : ∃ r', (regs b0 q0 inp (n + 1)).master = r' := ⟨_, rfl⟩
  rw [hnext] at he
  cases stage_run b0 q0 inp n with
  | loop _ hreq hdma =>
    have hcount : stalls inp m (n + 1) = _ := stalls_succ hmn
    have hstay : r'.state = .dmaSendLoop → ∀ k, m ≤ k → k ≤ n + 1 →
        (regs b0 q0 inp k).master.state = .dmaSendLoop := by
      intro hs' k h1 h2
      by_cases hk : k = n + 1
      · rw [hk, hnext]
        exact hs'
      · exact hs k h1 (by omega)
    cases he with
    | stall _ hw =>
      have hw' : (inp n).amWaitRequest = true := hw
      rw [hw', if_pos rfl] at hcount
      refine h.hold hr hreq (.loop m hm (by omega) (hstay hsn) ?_ ht)
      rw [hnext]
      omega
    | beat _ hw h6 =>
      have hw' : (inp n).amWaitRequest = false := hw
      rw [hw', if_neg (by simp)] at hcount
      refine h.hold hr hreq (.loop m hm (by omega) (hstay hsn) ?_ ht)
      rw [hnext]
      show n + 1 = m + ((regs b0 q0 inp n).master.indiceArrayDma + 1).toNat + _
      rw [index_succ rfl (by omega)]
      omega
    | lastBeat => exact h.hold hr hreq (.idle (by rw [hnext]) (by omega))
    | stop h1 | resume h1 | publish h1 | await h1 | fetch h1 | abort h1 | clockWait h1
    | collect h1 | collectRelease h1 | collectLast h1 | sendInit h1 => simp [hsn] at h1
  | idle h1 | await h1 | wait h1 | collect _ _ h1 | full h1 => simp [hsn] at h1

/-- **One cycle of a round.** -/
theorem Account.step (h : Account b0 q0 inp n0 n w p) (hr : (inp n).ready = true)
    (hstall : ∀ a, n0 ≤ a →
      (∀ k, a ≤ k → k < n → (regs b0 q0 inp k).master.state = .dmaSendLoop) →
      stalls inp a n ≤ 13) : ∃ w' p', Account b0 q0 inp n0 (n + 1) w' p' := by
  cases h.round with
  | idle hs ht => exact ⟨w, p, h.idle_step hr hs ht⟩
  | await hs ht => exact h.await_step hr hs ht
  | wait hs ht hw => exact ⟨w, p + 1, h.wait_step hr hs ht hw⟩
  | collect i hs hfifo ht hw => exact ⟨w, h.collect_step hr hs hfifo ht hw⟩
  | full hs ht => exact ⟨w, p, h.full_step hr hs ht⟩
  | loop m hm hmn hs hd ht =>
    have hfew := hstall m hm fun k h1 h2 => hs k h1 (by omega)
    exact ⟨w, p, h.loop_step hr hm hmn hs hd ht hfew⟩

/-- The round has not taken longer than its pops allow. -/
theorem Account.time (h : Account b0 q0 inp n0 n w p)
    (hstall : ∀ a, n0 ≤ a →
      (∀ k, a ≤ k → k < n → (regs b0 q0 inp k).master.state = .dmaSendLoop) →
      stalls inp a n ≤ 13) : n ≤ w + 4 * p + 2 := by
  cases h.round with
  | idle _ ht | await _ ht | wait _ ht | collect _ _ _ ht | full _ ht => omega
  | loop m hm hmn hs hd ht =>
    have hfew := hstall m hm fun k h1 h2 => hs k h1 (by omega)
    have hdma : (regs b0 q0 inp n).master.indiceArrayDma.toNat ≤ 6 := by
      cases stage_run b0 q0 inp n with
      | loop _ _ h1 => exact h1
      | idle h1 | await h1 | wait h1 | collect _ _ h1 | full h1 =>
        simp [hs n hmn (Nat.le_refl n)] at h1
    omega

/-- The burst FIFO is fed at the rate of the acquisition, and no burst stalls for long, in the
cycles from `n0` on and before `n`. -/
structure Bounded (b0 : BitVec 2) (q0 : Word) (inp : Nat → Inputs) (n0 n : Nat) : Prop where
  /-- At most `x / 4 + 1` pushes in any `x` consecutive cycles. -/
  pushes : ∀ a b, n0 ≤ a → a ≤ b → b ≤ n → arrivals inp a b ≤ (b - a) / 4 + 1
  /-- At most 13 stalled cycles while a burst is in `DMA_Send_Loop`. -/
  stalled : ∀ a b, n0 ≤ a → b ≤ n →
    (∀ k, a ≤ k → k < b → (regs b0 q0 inp k).master.state = .dmaSendLoop) →
    stalls inp a b ≤ 13

/-- **The account in every cycle** with `Ready` high since `n0`. -/
theorem account_run (hle : n0 ≤ n) (hs : (regs b0 q0 inp n0).master.state = .idleForReady)
    (he : (regs b0 q0 inp n0).fifo.words = [])
    (hr : ∀ k, n0 ≤ k → k < n → (inp k).ready = true) (hb : Bounded b0 q0 inp n0 n) :
    ∃ w p, Account b0 q0 inp n0 n w p := by
  induction n, hle using Nat.le_induction with
  | base =>
    refine ⟨n0, 0, Nat.le_refl _, Nat.le_refl _, ?_, .idle hs (by omega)⟩
    rw [level, he]
    simp
  | succ n hle ih =>
    obtain ⟨w, p, h⟩ := ih (fun k h1 h2 => hr k h1 (by omega))
      ⟨fun a b h1 h2 h3 => hb.pushes a b h1 h2 (by omega),
        fun a b h1 h2 h3 => hb.stalled a b h1 (by omega) h3⟩
    exact h.step (hr n hle (by omega)) fun a h1 h2 => hb.stalled a n h1 (by omega) h2

/-- **The level never exceeds a burst.** -/
theorem level_le (hle : n0 ≤ n) (hs : (regs b0 q0 inp n0).master.state = .idleForReady)
    (he : (regs b0 q0 inp n0).fifo.words = [])
    (hr : ∀ k, n0 ≤ k → k < n → (inp k).ready = true) (hb : Bounded b0 q0 inp n0 n) :
    level b0 q0 inp n ≤ 8 := by
  obtain ⟨w, p, h⟩ := account_run hle hs he hr hb
  have htime := h.time fun a h1 h2 => hb.stalled a n h1 (Nat.le_refl n) h2
  have hpush := hb.pushes w n h.after h.past (Nat.le_refl n)
  have hlevel := h.level_le
  omega

end Run

/-- **The burst FIFO never overflows under bounded stalls**: no push finds 32 words. -/
theorem noOverflow (b0 : BitVec 2) (q0 : Word) (inp : Nat → Inputs) (n0 n : Nat) (hle : n0 ≤ n)
    (hs : (regs b0 q0 inp n0).master.state = .idleForReady)
    (he : (regs b0 q0 inp n0).fifo.words = [])
    (hr : ∀ k, n0 ≤ k → k ≤ n → (inp k).ready = true) (hb : Bounded b0 q0 inp n0 n) :
    (regs b0 q0 inp n).fifo.words.length < 32 ∧
      ∀ w, (inp n).push = some w → ∃ ws, (regs b0 q0 inp (n + 1)).fifo.words = ws ++ [w] := by
  have hlevel : (regs b0 q0 inp n).fifo.words.length < 32 := by
    have := level_le hle hs he (fun k h1 h2 => hr k h1 (by omega)) hb
    unfold level at this
    omega
  refine ⟨hlevel, ?_⟩
  intro w hw
  have hnext : (regs b0 q0 inp (n + 1)).fifo = (regs b0 q0 inp n).fifo.edge 32 (inp n).push
      (regs b0 q0 inp n).master.fifoReadRequest := if_pos (hr n hle (Nat.le_refl n))
  rw [hnext, hw]
  simp only [Queue.edge, hlevel, if_true, Option.toList_some]
  exact ⟨_, rfl⟩

/-- One word in four cycles and no stall, from the first cycle on. -/
def steadyPushes (n : Nat) : Inputs where
  push := if n % 4 = 0 then some (BitVec.ofNat 32 n) else none
  address := 0
  lengthFrame := 32
  ready := true
  displayBuffer := 0
  amWaitRequest := false

theorem steadyPushes_bounded (n : Nat) : Bounded 0 0 steadyPushes 0 n where
  pushes := by
    intro a b _ hab _
    have hcount : arrivals steadyPushes a b = (b + 3) / 4 - (a + 3) / 4 := by
      induction b, hab using Nat.le_induction with
      | base => simp [arrivals]
      | succ b hab ih =>
        rw [arrivals_succ hab, ih (by omega)]
        by_cases h4 : b % 4 = 0
        · simp [steadyPushes, h4]
          omega
        · simp [steadyPushes, h4]
          omega
    omega
  stalled := by
    intro a b _ _ _
    have hnone : stalls steadyPushes a b = 0 := by
      unfold stalls collect
      simp [steadyPushes]
    omega

theorem noOverflow_steadyPushes : (regs 0 0 steadyPushes 100).fifo.words.length < 32 ∧
    ∀ w, (steadyPushes 100).push = some w →
      ∃ ws, (regs 0 0 steadyPushes 101).fifo.words = ws ++ [w] :=
  noOverflow 0 0 steadyPushes 0 100 (by omega) rfl rfl (fun _ _ _ => rfl)
    (steadyPushes_bounded 100)

end CameraLcd.Gather
