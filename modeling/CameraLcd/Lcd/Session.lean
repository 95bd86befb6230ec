import CameraLcd.Lcd.Display

/-!
# A display session shows exactly the buffer

A session begins with the first cycle of `Command` for a memory write and ends when
`End_Display` is done.  The words of the buffer pass from the memory through the beats owed by
it, the FIFO and the register `q` of the FIFO to the LCD.

* `Ahead` — how many bursts of the buffer are still to be requested.
* `owed` — the words the LCD still has to get, read off from all these places in order.
* `owed_step` — an edge moves words from place to place: what it strobes and what is owed after
  it are what was owed before.
* `shows_buffer` — what has been strobed is at all times a prefix of the pixels of the buffer
  and the closing command, and all of it when the session ends.
-/

set_option autoImplicit false

namespace CameraLcd.FullLcd

open Clocked
open LcdControl (Strobe)

/-! ## The buffer -/

/-- Half-word `k` of the memory from a byte address on. -/
def pixel (memory : BitVec 32 → BitVec 32) (base : BitVec 32) (k : Nat) : BitVec 16 :=
  (memory (base + BitVec.ofNat 32 (4 * (k / 2)))).extractLsb' (16 * (k % 2)) 16

theorem words_halves (memory : BitVec 32 → BitVec 32) (base : BitVec 32) (n : Nat) :
    (words memory base n).flatMap halves = (List.range (2 * n)).map (pixel memory base) := by
  induction n with
  | zero => rfl
  | succ n ih =>
    have hw : words memory base (n + 1) =
        words memory base n ++ [memory (base + BitVec.ofNat 32 (4 * n))] := by
      simp [words, List.range_succ]
    have h0 : pixel memory base (2 * n) =
        (memory (base + BitVec.ofNat 32 (4 * n))).extractLsb' 0 16 := by
      simp [pixel]
    have h1 : pixel memory base (2 * n + 1) =
        (memory (base + BitVec.ofNat 32 (4 * n))).extractLsb' 16 16 := by
      rw [pixel, show (2 * n + 1) / 2 = n by omega, show (2 * n + 1) % 2 = 1 by omega]
    rw [hw, List.flatMap_append, ih, show 2 * (n + 1) = 2 * n + 1 + 1 by omega,
      List.range_succ, List.range_succ]
    simp [halves, h0, h1]

theorem words_burst (memory : BitVec 32 → BitVec 32) (add : BitVec 32) (todo : Nat) :
    words memory add (16 * (todo + 1)) =
      words memory add 16 ++ words memory (add + 64) (16 * todo) := by
  simp only [words, show 16 * (todo + 1) = 16 + 16 * todo by omega, List.range_add,
    List.map_append, List.map_map]
  congr 1
  apply List.map_congr_left
  intro k _
  have h : add + 64 + BitVec.ofNat 32 (4 * k) = add + BitVec.ofNat 32 (4 * (16 + k)) := by
    rw [show 4 * (16 + k) = 64 + 4 * k by omega, BitVec.ofNat_add, ← BitVec.add_assoc]
    rfl
  rw [Function.comp_apply, h]

/-- A buffer for `Master_Interface`: a positive number of whole bursts of 64 bytes, a length of
30 bits, and an index in 0 to 2. -/
structure ValidBuffer (i : Inputs) : Prop where
  pos : 0 < i.lengthBuffer.toNat
  bursts : i.lengthBuffer.toNat % 64 = 0
  small : i.lengthBuffer.toNat < 0x40000000
  saved : i.bufferSaved.toNat ≤ 2

instance (i : Inputs) : Decidable (ValidBuffer i) :=
  decidable_of_iff (0 < i.lengthBuffer.toNat ∧ i.lengthBuffer.toNat % 64 = 0 ∧
    i.lengthBuffer.toNat < 0x40000000 ∧ i.bufferSaved.toNat ≤ 2)
    ⟨fun ⟨a, b, c, d⟩ => ⟨a, b, c, d⟩, fun ⟨a, b, c, d⟩ => ⟨a, b, c, d⟩⟩

/-- `StartAdd + Buffer_Saved * LengthBuffer`. -/
def base (i : Inputs) : BitVec 32 :=
  i.startAdd + BitVec.ofNat 32 (i.bufferSaved.toNat * i.lengthBuffer.toNat)

/-- What a session has to send after its command: the half-words of the buffer, then the
closing command. -/
def screen (memory : BitVec 32 → BitVec 32) (i : Inputs) : List Strobe :=
  (List.range (i.lengthBuffer.toNat / 2)).map (fun k => (true, pixel memory (base i) k)) ++
    [(false, 0x0000)]

/-! ## What is still owed -/

/-- The address of the next burst to be requested. -/
def nextAdd (m : LcdMaster.Regs) : BitVec 32 :=
  if m.state = .readData ∨ m.state = .newAdd then m.add + 64 else m.add

/-- The states between the acceptance of a burst and the test for the end of the buffer. -/
def taking (m : LcdMaster.Regs) : Prop :=
  m.state = .readData ∨ m.state = .newAdd ∨ m.state = .checkAdd

/-- `todo` bursts of the buffer are still to be requested. -/
structure Ahead (todo : Nat) (m : LcdMaster.Regs) : Prop where
  small : 64 * todo < 0x100000000
  done : m.state = .init → todo = 0
  endAdd : m.state ≠ .init → m.endAdd = nextAdd m + BitVec.ofNat 32 (64 * todo)
  more : m.state ≠ .init → taking m ∨ 0 < todo

section Requests

variable {todo : Nat} {m m' : LcdMaster.Regs}

theorem Ahead.keep (h : Ahead todo m) (hm : m.state ≠ .init) (hm' : m'.state ≠ .init)
    (hadd : nextAdd m' = nextAdd m) (hend : m'.endAdd = m.endAdd)
    (hmore : taking m' ∨ 0 < todo) : Ahead todo m' :=
  ⟨h.small, fun hi => absurd hi hm', fun _ => by rw [hadd, hend]; exact h.endAdd hm,
    fun _ => hmore⟩

/-- Outside of `taking` the buffer is not at its end. -/
theorem Ahead.pos (h : Ahead todo m) (hm : m.state ≠ .init) (ht : ¬ taking m) : 0 < todo :=
  (h.more hm).resolve_left ht

/-- `Check_Add` finds the end of the buffer exactly when no burst is left. -/
theorem Ahead.atEnd (h : Ahead todo m) (hm : m.state = .checkAdd) :
    m.add = m.endAdd ↔ todo = 0 := by
  have hadd := h.endAdd (by simp [hm])
  simp only [nextAdd, hm, reduceCtorEq, or_self, if_false] at hadd
  constructor
  · intro heq
    have hself : m.add + BitVec.ofNat 32 (64 * todo) = m.add := by rw [← hadd, ← heq]
    have hz : BitVec.ofNat 32 (64 * todo) = 0#32 := by simpa using hself
    have hn := congrArg BitVec.toNat hz
    rw [BitVec.toNat_ofNat, Nat.mod_eq_of_lt h.small, BitVec.toNat_ofNat] at hn
    omega
  · rintro rfl
    simp [hadd]

/-- The accepted burst is the first of those to be requested. -/
theorem Ahead.accepted (h : Ahead (todo + 1) m) (hm : m.state = .checkWaitRequest)
    (hm' : m' = { m with state := .readData, avmRead := false }) :
    Ahead todo m' ∧ nextAdd m = m.add ∧ nextAdd m' = m.add + 64 := by
  have hadd := h.endAdd (by simp [hm])
  have hsmall := h.small
  have hn : nextAdd m = m.add := by simp [nextAdd, hm]
  have hn' : nextAdd m' = m.add + 64 := by simp [nextAdd, hm']
  refine ⟨⟨by omega, by simp [hm'], fun _ => ?_, fun _ => by simp [taking, hm']⟩, hn, hn'⟩
  have hend : m'.endAdd = m.endAdd := by rw [hm']
  rw [hend, hn', hadd, hn, Nat.mul_succ, Nat.add_comm, BitVec.ofNat_add, BitVec.add_assoc]
  rfl

end Requests

section Owed

variable {F : PixelFifo} (s : Regs F)

/-- The half in the output register of the FIFO, until it is strobed. -/
def inFlight : List (BitVec 16) :=
  if (s.control.state = .display ∨ s.control.state = .display16) ∧ s.control.counterTime < 4 then
    [F.q s.fifo]
  else []

/-- The closing command, until it is strobed. -/
def closing : List Strobe :=
  if s.control.state = .endDisplay ∧ 4 ≤ s.control.counterTime then [] else [(false, 0x0000)]

/-- The halves on their way: in the FIFO, owed by the memory, and not requested yet. -/
def onTheWay (memory : BitVec 32 → BitVec 32) (todo : Nat) : List (BitVec 16) :=
  F.stored s.fifo ++ (s.pending ++ words memory (nextAdd s.master) (16 * todo)).flatMap halves

/-- The words that the LCD still has to get in this session. -/
def owed (memory : BitVec 32 → BitVec 32) (todo : Nat) : List Strobe :=
  (inFlight s ++ onTheWay s memory todo).map (fun d => (true, d)) ++ closing s

variable (i i' : Inputs)

/-- The word strobed in the next cycle. -/
def strobeNext : List Strobe :=
  LcdControl.strobeNext s.control
    (LcdControl.pins (step s i).control (controlInputs (step s i) i'))

/-- The half taken out of the FIFO in this cycle. -/
def popped : List (BitVec 16) :=
  if fifoRead s i then (F.stored s.fifo).head?.toList else []

end Owed

section Moves

variable {F : PixelFifo} {s : Regs F} {i i' : Inputs}

theorem strobeNext_none (h : ¬ (LcdControl.writing s.control.state ∧ s.control.counterTime = 3)) :
    strobeNext s i i' = [] := LcdControl.strobeNext_none h

/-- A burst is requested once: what is requested in a cycle and what is still to be requested
after it are what was to be requested before. -/
theorem request_step {memory : BitVec 32 → BitVec 32} {todo : Nat} (hs : Sound s)
    (hcopy : s.master.state ≠ .copy) (hctl : s.control.state ≠ .checkCommand)
    (hmem : i.memory = memory) (h : Ahead todo s.master) :
    ∃ todo', Ahead todo' (step s i).master ∧
      words memory (nextAdd s.master) (16 * todo) =
        burst s i ++ words memory (nextAdd (step s i).master) (16 * todo') := by
  have hburst : s.master.state ≠ .checkWaitRequest → burst s i = [] := by
    intro hm
    simp [burst, hs.bus.read, hm]
  have hclock : (step s i).master = LcdMaster.clock s.master (masterInputs s i) := rfl
  -- the edges that request nothing and stay within the buffer
  have keeps : s.master.state ≠ .init → (step s i).master.state ≠ .init → burst s i = [] →
      nextAdd (step s i).master = nextAdd s.master →
      (step s i).master.endAdd = s.master.endAdd → taking (step s i).master ∨ 0 < todo →
      ∃ todo', Ahead todo' (step s i).master ∧
        words memory (nextAdd s.master) (16 * todo) =
          burst s i ++ words memory (nextAdd (step s i).master) (16 * todo') := by
    intro hm hm' hb hadd hend hmore
    exact ⟨todo, h.keep hm hm' hadd hend hmore, by rw [hb, hadd]; rfl⟩
  cases hm : s.master.state with
  | copy => exact absurd hm hcopy
  | init =>
    have h0 := h.done hm
    subst h0
    have hm' : (step s i).master = ⟨.init, 0, 0, 0, 0, false⟩ := by
      rw [hclock, LcdMaster.clock_init hm]
      simp [masterInputs, masterStart_false hctl]
    refine ⟨0, ?_, by simp [hburst (by simp [hm]), words]⟩
    rw [hm']
    exact ⟨by simp, fun _ => rfl, fun h => absurd rfl h, fun h => absurd rfl h⟩
  | assertReadData =>
    have hpos := h.pos (by simp [hm]) (by simp [taking, hm])
    apply keeps (by simp [hm]) _ (hburst (by simp [hm])) _ _ (.inr hpos) <;>
      simp [hclock, LcdMaster.clock_assertReadData hm, nextAdd, hm]
  | checkWaitRequest =>
    have hpos := h.pos (by simp [hm]) (by simp [taking, hm])
    cases hw : i.avmWaitRequest with
    | true =>
      apply keeps (by simp [hm]) _ (by simp [burst, hw]) _ _ (.inr hpos) <;>
        simp [hclock, LcdMaster.clock_checkWaitRequest hm, masterInputs, hw, nextAdd, hm]
    | false =>
      obtain ⟨n, rfl⟩ := Nat.exists_eq_succ_of_ne_zero hpos.ne'
      have hm' : (step s i).master = { s.master with state := .readData, avmRead := false } := by
        rw [hclock, LcdMaster.clock_checkWaitRequest hm]
        simp [masterInputs, hw]
      obtain ⟨ha, hn, hn'⟩ := h.accepted hm hm'
      refine ⟨n, ha, ?_⟩
      rw [burst_accepted hs hm hw, hmem, hn, hn']
      exact words_burst memory s.master.add n
  | readData =>
    have hst : (step s i).master.state = .newAdd ∨ (step s i).master.state = .readData := by
      simp only [hclock, LcdMaster.clock_readData hm]
      split <;> simp
    apply keeps (by simp [hm]) _ (hburst (by simp [hm])) _ _
        (.inl (by rcases hst with h | h <;> simp [taking, h]))
    · rcases hst with h | h <;> simp [h]
    · rw [nextAdd, if_pos hst.symm, nextAdd, if_pos (.inl hm)]
      simp [hclock, LcdMaster.clock_readData hm]
    · simp [hclock, LcdMaster.clock_readData hm]
  | newAdd =>
    apply keeps (by simp [hm]) _ (hburst (by simp [hm])) _ _
        (.inl (by simp [hclock, LcdMaster.clock_newAdd hm, taking])) <;>
      simp [hclock, LcdMaster.clock_newAdd hm, nextAdd, hm]
  | checkAdd =>
    by_cases heq : s.master.add = s.master.endAdd
    · have h0 := (h.atEnd hm).mp heq
      subst h0
      refine ⟨0, ⟨by simp, fun _ => rfl, ?_, ?_⟩, by simp [hburst (by simp [hm]), words]⟩ <;>
        simp [hclock, LcdMaster.clock_checkAdd hm, heq]
    · have hpos : 0 < todo := Nat.pos_of_ne_zero (mt (h.atEnd hm).mpr heq)
      apply keeps (by simp [hm]) _ (hburst (by simp [hm])) _ _ (.inr hpos) <;>
        simp [hclock, LcdMaster.clock_checkAdd hm, heq, nextAdd, hm]
  | checkFifo =>
    have hpos := h.pos (by simp [hm]) (by simp [taking, hm])
    apply keeps (by simp [hm]) _ (hburst (by simp [hm])) _ _ (.inr hpos) <;>
      cases hf : (masterInputs s i).fullFifo <;>
        simp [hclock, LcdMaster.clock_checkFifo hm, hf, nextAdd, hm]
  | waitLcdControl =>
    have hpos := h.pos (by simp [hm]) (by simp [taking, hm])
    apply keeps (by simp [hm]) _ (hburst (by simp [hm])) _ _ (.inr hpos) <;>
      cases hf : (masterInputs s i).write16 <;>
        simp [hclock, LcdMaster.clock_waitLcdControl hm, hf, nextAdd, hm]

/-- No request against a flag, and every beat goes to the FIFO. -/
structure Lossless {F : PixelFifo} (s : Regs F) (i : Inputs) : Prop where
  write : fifoWrite s i = if avmReadDataValid s i then s.pending.head? else none
  notFull : fifoWrite s i ≠ none → F.full s.fifo = false
  notEmpty : fifoRead s i = true → F.empty s.fifo = false

theorem Lossless.transfer (h : Lossless s i) :
    F.stored s.fifo ++ (s.pending ++ burst s i).flatMap halves =
      popped s i ++ (F.stored (step s i).fifo ++ (step s i).pending.flatMap halves) := by
  have hbeats : s.pending ++ burst s i = (fifoWrite s i).toList ++ (step s i).pending := by
    rw [h.write]
    cases hv : avmReadDataValid s i with
    | false => simp [step, hv]
    | true =>
      have hne : s.pending ≠ [] := by
        intro hnil
        simp [noBeat hnil] at hv
      obtain ⟨w, ws, hp⟩ := List.exists_cons_of_ne_nil hne
      simp [step, hv, hp]
  have hfifo : F.stored s.fifo ++ (fifoWrite s i).toList.flatMap halves =
      popped s i ++ F.stored (step s i).fifo := by
    have hroom : (if F.full s.fifo then [] else (fifoWrite s i).toList.flatMap halves) =
        (fifoWrite s i).toList.flatMap halves := by
      cases hw : fifoWrite s i with
      | none => simp
      | some w => simp [h.notFull (by simp [hw])]
    simp only [step, F.stored_step, hroom, popped]
    cases hr : fifoRead s i with
    | false => simp
    | true =>
      have hempty := h.notEmpty hr
      obtain ⟨x, xs, hst⟩ := F.exists_cons hempty
      simp [hempty, hst]
  rw [hbeats, List.flatMap_append, ← List.append_assoc, hfifo, List.append_assoc]

/-- Outside of `Read_Data` nothing is owed: only a read can happen. -/
theorem lossless_of_idle (hp : s.pending = []) (hm : s.master.state ≠ .readData)
    (hread : fifoRead s i = true → F.empty s.fifo = false) : Lossless s i := by
  refine ⟨?_, fun hw => absurd (fifoWrite_none hm) hw, hread⟩
  rw [fifoWrite_none hm, noBeat hp]
  rfl

theorem Fetching.lossless (hs : Sound s) (h : Fetching s) : Lossless s i := by
  have hread : fifoRead s i = false :=
    fifoRead_false (by simp [h.control]) (by simp [h.control])
  cases hv : avmReadDataValid s i with
  | false =>
    have hw : fifoWrite s i = none := by
      simp [fifoWrite, LcdMaster.writeFifo, masterInputs, hv]
    exact ⟨by simp [hw, hv], fun h => absurd hw h, by simp [hread]⟩
  | true =>
    obtain ⟨hb, hne⟩ : i.beat = true ∧ s.pending ≠ [] := by
      simpa [avmReadDataValid] using hv
    obtain ⟨w, ws, hp⟩ := List.exists_cons_of_ne_nil hne
    exact ⟨by simp [h.write hp hb, hv, hp], fun _ => h.notFull hs hne, by simp [hread]⟩

/-- `Display` and `Display_16`: the half in flight is strobed at time 4. -/
theorem display_step (hs : Sound s)
    (hc : s.control.state = .display ∨ s.control.state = .display16) :
    strobeNext s i i' ++ (inFlight (step s i)).map (fun d => (true, d)) =
        (inFlight s ++ popped s i).map (fun d => (true, d)) ∧
      closing (step s i) = [(false, 0x0000)] := by
  have hread : fifoRead s i = false := by
    apply fifoRead_false <;> rcases hc with hc | hc <;> simp [hc]
  have hq : F.q (step s i).fifo = F.q s.fifo := by simp [step, hread]
  have hw : LcdControl.writing s.control.state = true := by
    rcases hc with hc | hc <;> rw [hc] <;> rfl
  have hle := hs.counters.time_le
  have hpop : popped s i = [] := by simp [popped, hread]
  rw [hpop, List.append_nil]
  by_cases h8 : s.control.counterTime = 8
  · have hc' : (step s i).control.state = .empty ∨ (step s i).control.state = .empty16 := by
      rcases hc with hc | hc
      · exact .inl (congrArg (·.state) (LcdControl.clock_display_done hc h8))
      · exact .inr (congrArg (·.state) (LcdControl.clock_display16_done hc h8))
    constructor
    · rw [strobeNext_none (by simp [h8])]
      rcases hc' with h | h <;> simp [inFlight, h, h8]
    · rcases hc' with h | h <;> simp [closing, h]
  · have hctl := control_writing (i := i) hw h8
    have hend : (step s i).control.state ≠ .endDisplay := by
      rw [hctl]
      rcases hc with hc | hc <;> simp [hc]
    refine ⟨?_, by simp [closing, hend]⟩
    by_cases h3 : s.control.counterTime = 3
    · -- the rising edge of `WRX`
      have hpins : LcdControl.pins (step s i).control (controlInputs (step s i) i') =
          LcdControl.writePins true (F.q s.fifo) 4 := by
        rw [hctl, h3]
        rcases hc with hc | hc <;> simp [LcdControl.pins, hc, controlInputs, hq]
      have hs4 : strobeNext s i i' = [(true, F.q s.fifo)] := by
        rw [strobeNext, LcdControl.strobeNext_some hw h3, hpins]
        rfl
      rw [hs4]
      simp [inFlight, hctl, h3, hc]
    · have hlt : (s.control.counterTime + 1 < 4) = (s.control.counterTime < 4) := by
        apply propext
        omega
      rw [strobeNext_none (by simp [h3])]
      simp [inFlight, hctl, hq, hlt]

theorem pop_step (hs : Sound s) (h : Lossless s i)
    (hc : s.control.state = .empty ∨ s.control.state = .empty16) :
    strobeNext s i i' ++ (inFlight (step s i)).map (fun d => (true, d)) =
        (inFlight s ++ popped s i).map (fun d => (true, d)) ∧
      closing (step s i) = [(false, 0x0000)] := by
  have h0 : s.control.counterTime = 0 := by
    apply hs.counters.time_zero
    rcases hc with hc | hc <;> rw [hc] <;> rfl
  have h0' : (step s i).control.counterTime = 0 := by
    rcases hc with hc | hc
    · simp [step, LcdControl.clock_empty hc, h0]
    · simp [step, LcdControl.clock_empty16 hc, h0]
  refine ⟨?_, by simp [closing, h0']⟩
  have hnow : inFlight s = [] := by rcases hc with hc | hc <;> simp [inFlight, hc]
  rw [hnow, strobeNext_none (by simp [h0])]
  cases hr : fifoRead s i with
  | true =>
    have hempty := h.notEmpty hr
    obtain ⟨x, xs, hst⟩ := F.exists_cons hempty
    have hq : F.q (step s i).fifo = x := by simp [step, F.q_step, hr, hempty, hst]
    have hc' : (step s i).control.state = .display ∨ (step s i).control.state = .display16 := by
      rcases hc with hc | hc
      · left
        simp [step, LcdControl.clock_empty hc, controlInputs, hempty]
      · right
        have h32 : s.control.counterWord ≠ 32 := by
          simpa [fifoRead, LcdControl.readFifo, hc] using hr
        simp [step, LcdControl.clock_empty16 hc, h32]
    simp [inFlight, hc', h0', hq, popped, hr, hst]
  | false =>
    have hc' : (step s i).control.state = .endDisplay ∨
        (step s i).control.state = .checkMaster := by
      rcases hc with hc | hc
      · left
        have hempty : F.empty s.fifo = true := by
          simpa [fifoRead, LcdControl.readFifo, hc, controlInputs] using hr
        simp [step, LcdControl.clock_empty hc, controlInputs, hempty]
      · right
        have h32 : s.control.counterWord = 32 := by
          simpa [fifoRead, LcdControl.readFifo, hc] using hr
        simp [step, LcdControl.clock_empty16 hc, h32]
    rcases hc' with hc' | hc' <;> simp [inFlight, hc', popped, hr]

theorem checkMaster_step (hc : s.control.state = .checkMaster) :
    strobeNext s i i' ++ (inFlight (step s i)).map (fun d => (true, d)) =
        (inFlight s ++ popped s i).map (fun d => (true, d)) ∧
      closing (step s i) = [(false, 0x0000)] := by
  have hread : fifoRead s i = false := fifoRead_false (by simp [hc]) (by simp [hc])
  have hc' : (step s i).control.state = .empty ∨ (step s i).control.state = .empty16 ∨
      (step s i).control.state = .checkMaster := by
    simp only [step, LcdControl.clock_checkMaster hc]
    split
    · simp
    · split <;> simp
  rw [strobeNext_none (by simp [LcdControl.writing, hc])]
  rcases hc' with h | h | h <;> simp [inFlight, hc, popped, hread, closing, h]

/-- The stages from the first request to the closing command. -/
inductive Showing {F : PixelFifo} (s : Regs F) : Prop
  | fetching (h : Fetching s)
  | draining16 (h : Draining16 s)
  | draining (h : Draining s)
  | ending (h : Ending s)

/-- The last cycle of `End_Display`. -/
def Finishes {F : PixelFifo} (s : Regs F) : Prop :=
  s.control.state = .endDisplay ∧ LcdControl.doneTask s.control = true

instance {F : PixelFifo} (s : Regs F) : Decidable (Finishes s) :=
  inferInstanceAs (Decidable (_ ∧ _))

theorem finishes_iff : Finishes s ↔ s.control.state = .endDisplay ∧ s.control.counterTime = 8 := by
  unfold Finishes LcdControl.doneTask
  constructor
  · rintro ⟨hc, hd⟩
    exact ⟨hc, by simpa [hc, LcdControl.writing] using hd⟩
  · rintro ⟨hc, h8⟩
    exact ⟨hc, by simp [hc, h8, LcdControl.writing]⟩

/-- A session goes on until `End_Display` is done. -/
theorem showing_step (hs : Sound s) (h : Showing s) (hf : ¬ Finishes s) (i : Inputs) :
    Showing (step s i) := by
  cases h with
  | fetching h =>
    rcases fetching_step hs h i with h' | h' | h'
    · exact .fetching h'
    · exact .draining16 h'
    · exact .draining h'
  | draining16 h =>
    rcases draining16_step hs h i with h' | h'
    · exact .draining16 h'
    · exact .fetching h'
  | draining h =>
    rcases draining_step hs h i with h' | h'
    · exact .draining h'
    · exact .ending h'
  | ending h =>
    rcases ending_step hs h i with h' | h'
    · exact .ending h'
    · have h8 : s.control.counterTime ≠ 8 := fun h8 => hf (finishes_iff.mpr ⟨h.control, h8⟩)
      have hc := control_writing (i := i) (s := s) (by rw [h.control]; rfl) h8
      have hq := h'.control
      rw [hc] at hq
      simp [h.control] at hq

theorem owed_ending {memory : BitVec 32 → BitVec 32} {todo : Nat} (h : Ending s)
    (ha : Ahead todo s.master) : owed s memory todo = closing s := by
  have h0 := ha.done h.master
  subst h0
  have hin : inFlight s = [] := by simp [inFlight, h.control]
  simp [owed, onTheWay, hin, h.stored, h.pending, words]

/-- An edge of the stages before the last: each word moves to the next place. -/
theorem Lossless.owed_step {memory : BitVec 32 → BitVec 32} {todo : Nat} (hl : Lossless s i)
    (hs : Sound s) (hcopy : s.master.state ≠ .copy) (hcc : s.control.state ≠ .checkCommand)
    (hend : s.control.state ≠ .endDisplay) (hmem : i.memory = memory) (ha : Ahead todo s.master)
    (hmove : strobeNext s i i' ++ (inFlight (step s i)).map (fun d => (true, d)) =
        (inFlight s ++ popped s i).map (fun d => (true, d)) ∧
      closing (step s i) = [(false, 0x0000)]) :
    ∃ todo', Ahead todo' (step s i).master ∧
      strobeNext s i i' ++ owed (step s i) memory todo' = owed s memory todo := by
  obtain ⟨hshow, hclose⟩ := hmove
  obtain ⟨todo', ha', hwords⟩ := request_step hs hcopy hcc hmem ha
  refine ⟨todo', ha', ?_⟩
  have hclose' : closing s = [(false, 0x0000)] := by simp [closing, hend]
  have hway : onTheWay s memory todo = popped s i ++ onTheWay (step s i) memory todo' := by
    rw [onTheWay, hwords, ← List.append_assoc, List.flatMap_append, ← List.append_assoc,
      hl.transfer, onTheWay, List.flatMap_append]
    simp only [List.append_assoc]
  calc strobeNext s i i' ++ owed (step s i) memory todo'
      = (strobeNext s i i' ++ (inFlight (step s i)).map (fun d => (true, d))) ++
          ((onTheWay (step s i) memory todo').map (fun d => (true, d)) ++
            closing (step s i)) := by
        simp only [owed, List.map_append, List.append_assoc]
    _ = (inFlight s ++ popped s i).map (fun d => (true, d)) ++
          ((onTheWay (step s i) memory todo').map (fun d => (true, d)) ++ closing s) := by
        rw [hshow, hclose, hclose']
    _ = owed s memory todo := by
        rw [owed, hway]
        simp only [List.map_append, List.append_assoc]

/-- The closing command is strobed at time 4 of `End_Display`. -/
theorem Ending.closing_step (h : Ending s) (h8 : s.control.counterTime ≠ 8) :
    strobeNext s i i' ++ closing (step s i) = closing s := by
  have hw : LcdControl.writing s.control.state = true := by rw [h.control]; rfl
  have hctl := control_writing (i := i) hw h8
  by_cases h3 : s.control.counterTime = 3
  · have hpins : LcdControl.pins (step s i).control (controlInputs (step s i) i') =
        LcdControl.writePins false 0 4 := by
      rw [hctl, h3]
      simp [LcdControl.pins, h.control]
    have hs4 : strobeNext s i i' = [(false, 0x0000)] := by
      rw [strobeNext, LcdControl.strobeNext_some hw h3, hpins]
      rfl
    rw [hs4]
    simp [closing, hctl, h3, h.control]
  · have hlt : (4 ≤ s.control.counterTime + 1) = (4 ≤ s.control.counterTime) := by
      apply propext
      omega
    rw [strobeNext_none (by simp [h3])]
    simp [closing, hctl, h.control, hlt]

/-- **An edge strobes the first of the words that are owed, or none.** -/
theorem owed_step {memory : BitVec 32 → BitVec 32} {todo : Nat} (i' : Inputs) (hs : Sound s)
    (h : Showing s) (hf : ¬ Finishes s) (hmem : i.memory = memory) (ha : Ahead todo s.master) :
    ∃ todo', Ahead todo' (step s i).master ∧
      strobeNext s i i' ++ owed (step s i) memory todo' = owed s memory todo := by
  cases h with
  | fetching h =>
    exact (h.lossless hs).owed_step hs h.master (by simp [h.control]) (by simp [h.control]) hmem ha
      (checkMaster_step h.control)
  | draining16 h =>
    have hl : Lossless s i :=
      lossless_of_idle h.pending (by simp [h.master]) fun _ => h.notEmpty hs
    rcases h.control with hc | hc
    · exact hl.owed_step hs (by simp [h.master]) (by simp [hc]) (by simp [hc]) hmem ha
        (pop_step hs hl (.inr hc))
    · exact hl.owed_step hs (by simp [h.master]) (by simp [hc]) (by simp [hc]) hmem ha
        (display_step hs (.inr hc))
  | draining h =>
    have hl : Lossless s i := by
      refine lossless_of_idle h.pending (by simp [h.master]) fun hr => ?_
      rcases h.control with hc | hc
      · simpa [fifoRead, LcdControl.readFifo, hc, controlInputs] using hr
      · rw [fifoRead_false (by simp [hc]) (by simp [hc])] at hr
        cases hr
    rcases h.control with hc | hc
    · exact hl.owed_step hs (by simp [h.master]) (by simp [hc]) (by simp [hc]) hmem ha
        (pop_step hs hl (.inl hc))
    · exact hl.owed_step hs (by simp [h.master]) (by simp [hc]) (by simp [hc]) hmem ha
        (display_step hs (.inl hc))
  | ending h =>
    -- only the closing command is left
    have h8 : s.control.counterTime ≠ 8 := fun h8 => hf (finishes_iff.mpr ⟨h.control, h8⟩)
    have hc' : (step s i).control.state = .endDisplay := by
      rw [control_writing (by rw [h.control]; rfl) h8]
      exact h.control
    have h' : Ending (step s i) := by
      rcases ending_step hs h i with h' | h'
      · exact h'
      · exact absurd h'.control (by simp [hc'])
    obtain ⟨todo', ha', -⟩ := request_step (i := i) hs (by simp [h.master]) (by simp [h.control])
      hmem ha
    refine ⟨todo', ha', ?_⟩
    rw [owed_ending h ha, owed_ending h' ha']
    exact h.closing_step h8

theorem Joint.command (h : Joint s i) (hc : s.control.state = .command) : Quiet s := by
  cases h with
  | quiet h => exact h
  | copying h => exact absurd h.control (by simp [hc])
  | fetching h => exact absurd h.control (by simp [hc])
  | draining16 h => rcases h.control with h' | h' <;> simp [hc] at h'
  | draining h => rcases h.control with h' | h' <;> simp [hc] at h'
  | ending h => exact absurd h.control (by simp [hc])

/-- `Command` does not start the DMA. -/
theorem Quiet.command_step (hs : Sound s) (h : Quiet s) (hc : s.control.state = .command)
    (hu : Undisturbed s i i') : Quiet (step s i) := by
  rcases quiet_step hs h hu with h' | h'
  · exact h'
  · have hm := h'.master
    simp [step, LcdMaster.clock_init h.master, masterInputs, masterStart_false, hc] at hm

/-- The first cycle of `Check_Command` starts the DMA for a memory write. -/
theorem Quiet.checkCommand_step (hs : Sound s) (h : Quiet s)
    (hc : s.control.state = .checkCommand)
    (hmw : LcdControl.memoryWrite i.commandData = true) (hu : Undisturbed s i i') :
    Copying (step s i) i' := by
  rcases quiet_step hs h hu with h' | h'
  · have hm := h'.master
    simp [step, LcdMaster.clock_init h.master, masterInputs, LcdControl.masterStart, hc,
      controlInputs, hmw] at hm
  · exact h'

end Moves

/-! ## Sessions -/

section Sessions

variable (F : PixelFifo) (inp : Nat → Inputs)

/-- The pins of the LCD in cycle `n`. -/
def pinsAt (n : Nat) : LcdControl.Pins :=
  LcdControl.pins (regs F inp n).control (controlInputs (regs F inp n) (inp n))

/-- The first cycle of `Command` for a memory write.  `Init` and `End_Display` enter `Command`
with `State_Command_Data` 01 or 11 only. -/
structure Starts (c : Nat) : Prop where
  state : (regs F inp c).control.state = .command
  time : (regs F inp c).control.counterTime = 0
  command : LcdControl.memoryWrite (inp c).commandData = true

/-- The words strobed up to cycle `n` after the command of the session that starts in cycle
`c`, which is strobed in cycle `c + 4`. -/
def shown (c n : Nat) : List Strobe :=
  collect (LcdControl.strobe (pinsAt F inp)) (c + 5) (n + 1)

/-- What a session that starts in cycle `c` has shown by cycle `n`; the buffer is the one that
`Master_Interface` latches in its `Copy` cycle `c + 10`. -/
structure Shows (memory : BitVec 32 → BitVec 32) (c n : Nat) : Prop where
  command : c + 4 ≤ n →
    LcdControl.strobe (pinsAt F inp) (c + 4) = some (false, (inp c).commandData)
  latched : c + 10 ≤ n → (regs F inp (c + 10)).master.state = .copy
  inOrder : shown F inp c n <+: screen memory (inp (c + 10))
  complete : Finishes (regs F inp n) → shown F inp c n = screen memory (inp (c + 10))
  /-- Nothing is left over for the next session. -/
  empty : Finishes (regs F inp n) → F.stored (regs F inp n).fifo = [] ∧
    (regs F inp n).pending = [] ∧ (regs F inp n).master.state = .init

end Sessions

section Runs

variable {F : PixelFifo} {inp : Nat → Inputs} {c : Nat}

theorem strobe_succ (n : Nat) : (LcdControl.strobe (pinsAt F inp) (n + 1)).toList =
    strobeNext (regs F inp n) (inp n) (inp (n + 1)) :=
  LcdControl.strobe_toList (r := fun m => (regs F inp m).control)
    (i := fun m => controlInputs (regs F inp m) (inp m)) (fun _ => rfl) n

theorem shown_succ {n : Nat} (h : c + 4 ≤ n) : shown F inp c (n + 1) =
    shown F inp c n ++ strobeNext (regs F inp n) (inp n) (inp (n + 1)) := by
  rw [shown, collect_succ _ (by omega), strobe_succ]
  rfl

theorem shown_early {n : Nat} (h : n ≤ c + 4) : shown F inp c n = [] := by
  simp [shown, collect, show n + 1 - (c + 5) = 0 by omega]

theorem at_command (hstart : Starts F inp c) (j : Nat) (hj : j ≤ 8)
    (hcpu : ∀ k < c + j, Undisturbed (regs F inp k) (inp k) (inp (k + 1))) :
    (regs F inp (c + j)).control.state = .command ∧
      (regs F inp (c + j)).control.counterTime = j ∧
      (inp (c + j)).commandData = (inp c).commandData := by
  induction j with
  | zero => exact ⟨hstart.state, hstart.time, rfl⟩
  | succ j ih =>
    obtain ⟨hs, ht, hd⟩ := ih (by omega) fun k hk => hcpu k (by omega)
    have hw : LcdControl.writing (regs F inp (c + j)).control.state = true := by rw [hs]; rfl
    have h8 : (regs F inp (c + j)).control.counterTime ≠ 8 := by omega
    have hctl : (regs F inp (c + (j + 1))).control = { (regs F inp (c + j)).control with
        counterTime := (regs F inp (c + j)).control.counterTime + 1 } :=
      control_writing hw h8
    refine ⟨by rw [hctl]; exact hs, by rw [hctl, ht], ?_⟩
    exact (hcpu (c + j) (by omega) (.inl hs) (by rw [hd]; exact hstart.command)).trans hd

theorem at_checkCommand (hstart : Starts F inp c)
    (hcpu : ∀ k < c + 9, Undisturbed (regs F inp k) (inp k) (inp (k + 1))) :
    Quiet (regs F inp (c + 9)) ∧ (regs F inp (c + 9)).control.state = .checkCommand ∧
      LcdControl.memoryWrite (inp (c + 9)).commandData = true := by
  obtain ⟨h8, ht8, hd8⟩ := at_command hstart 8 (by omega) fun k hk => hcpu k (by omega)
  have hmw8 : LcdControl.memoryWrite (inp (c + 8)).commandData = true := by
    rw [hd8]
    exact hstart.command
  have hquiet := (joint_run F inp (c + 8) fun k hk => hcpu k (by omega)).command h8
  refine ⟨hquiet.command_step (sound_run F inp (c + 8)) h8 (hcpu (c + 8) (by omega)), ?_, ?_⟩
  · exact congrArg (·.state) (LcdControl.clock_command_done h8 ht8)
  · rw [hcpu (c + 8) (by omega) (.inl h8) hmw8]
    exact hmw8

theorem at_copy (hstart : Starts F inp c)
    (hcpu : ∀ k < c + 10, Undisturbed (regs F inp k) (inp k) (inp (k + 1))) :
    Copying (regs F inp (c + 10)) (inp (c + 10)) := by
  obtain ⟨hquiet, hc, hmw⟩ := at_checkCommand hstart fun k hk => hcpu k (by omega)
  exact hquiet.checkCommand_step (sound_run F inp (c + 9)) hc hmw (hcpu (c + 9) (by omega))

theorem strobe_command (hstart : Starts F inp c)
    (hcpu : ∀ k < c + 4, Undisturbed (regs F inp k) (inp k) (inp (k + 1))) :
    LcdControl.strobe (pinsAt F inp) (c + 4) = some (false, (inp c).commandData) := by
  obtain ⟨h3, ht3, -⟩ := at_command hstart 3 (by omega) fun k hk => hcpu k (by omega)
  obtain ⟨h4, ht4, hd4⟩ := at_command hstart 4 (by omega) hcpu
  have hpins : pinsAt F inp (c + 4) = LcdControl.writePins false (inp c).commandData 4 := by
    unfold pinsAt LcdControl.pins
    rw [h4, ht4, ← hd4]
    rfl
  have hstrobe := LcdControl.strobe_eq (r := fun m => (regs F inp m).control)
    (i := fun m => controlInputs (regs F inp m) (inp m)) (fun _ => rfl) (c + 3)
  rw [if_pos ⟨by rw [h3]; rfl, ht3⟩] at hstrobe
  refine hstrobe.trans ?_
  show some ((pinsAt F inp (c + 4)).dcx, (pinsAt F inp (c + 4)).d) = _
  rw [hpins]
  rfl

theorem shown_opening (hstart : Starts F inp c) (j : Nat) (hj : j ≤ 11)
    (hcpu : ∀ k < c + j, Undisturbed (regs F inp k) (inp k) (inp (k + 1))) :
    shown F inp c (c + j) = [] := by
  induction j with
  | zero => exact shown_early (by omega)
  | succ j ih =>
    have ih := ih (by omega) fun k hk => hcpu k (by omega)
    by_cases h4 : c + (j + 1) ≤ c + 4
    · exact shown_early h4
    · have hnone : strobeNext (regs F inp (c + j)) (inp (c + j)) (inp (c + j + 1)) = [] := by
        apply strobeNext_none
        rintro ⟨hw, h3⟩
        by_cases h8 : j ≤ 8
        · obtain ⟨-, ht, -⟩ := at_command hstart j h8 fun k hk => hcpu k (by omega)
          omega
        · have hc : (regs F inp (c + j)).control.state = .checkCommand := by
            obtain rfl | rfl : j = 9 ∨ j = 10 := by omega
            · exact (at_checkCommand hstart fun k hk => hcpu k (by omega)).2.1
            · exact (at_copy hstart fun k hk => hcpu k (by omega)).control
          rw [hc] at hw
          cases hw
      rw [show c + (j + 1) = c + j + 1 by omega, shown_succ (by omega), ih, hnone]
      rfl

theorem ahead_copied {F : PixelFifo} {s : Regs F} {i : Inputs} (h : Copying s i)
    (hv : ValidBuffer i) : Ahead (i.lengthBuffer.toNat / 64) (step s i).master ∧
      nextAdd (step s i).master = base i := by
  obtain ⟨hpos, hmul, hsmall, hsaved⟩ := hv
  have hm : (step s i).master = { s.master with
      state := .assertReadData, add := LcdMaster.startOf (masterInputs s i)
      endAdd := LcdMaster.endOf (masterInputs s i), bufferUsed := i.bufferSaved
      avmRead := false } := by
    show LcdMaster.clock s.master (masterInputs s i) = _
    rw [LcdMaster.clock_copy h.master]
    simp [masterInputs, F.empty_of_nil _ h.stored]
  have hbase : LcdMaster.startOf (masterInputs s i) = base i := LcdMaster.startOf_eq hsmall
  have hend : LcdMaster.endOf (masterInputs s i) =
      LcdMaster.startOf (masterInputs s i) + BitVec.ofNat 32 i.lengthBuffer.toNat :=
    LcdMaster.endOf_eq hsmall hsaved
  have hlen : 64 * (i.lengthBuffer.toNat / 64) = i.lengthBuffer.toNat := by omega
  refine ⟨⟨by omega, by simp [hm], fun _ => ?_, fun _ => .inr (by omega)⟩, ?_⟩
  · simp [hm, nextAdd, hlen, hend]
  · simp [hm, nextAdd, hbase]

/-- The session has the whole buffer to show when `Check_Master` is entered. -/
theorem owed_opening {F : PixelFifo} {s : Regs F} {i : Inputs} (hs : Sound s) (h : Copying s i)
    (hv : ValidBuffer i) :
    owed (step s i) i.memory (i.lengthBuffer.toNat / 64) = screen i.memory i := by
  have hf := copying_step hs h
  have hst : F.stored (step s i).fifo = [] := by
    have hread : fifoRead s i = false :=
      fifoRead_false (by simp [h.control]) (by simp [h.control])
    exact (fifo_idle (fifoWrite_none (by simp [h.master])) hread).1.trans h.stored
  have hp : (step s i).pending = [] := pending_step hs (by simp [h.master]) h.pending
  obtain ⟨-, hadd⟩ := ahead_copied h hv
  have hlen : 2 * (16 * (i.lengthBuffer.toNat / 64)) = i.lengthBuffer.toNat / 2 := by
    have := hv.bursts
    omega
  have hin : inFlight (step s i) = [] := by simp [inFlight, hf.control]
  have hclose : closing (step s i) = [(false, 0x0000)] := by simp [closing, hf.control]
  rw [owed, onTheWay, hin, hclose, hst, hp, hadd]
  simp only [List.nil_append]
  rw [words_halves, hlen, List.map_map]
  rfl

/-- **Run lemma**: as long as the session goes on, what has been shown and what is owed are what
was to be shown. -/
theorem showing_run {memory : BitVec 32 → BitVec 32} (hstart : Starts F inp c)
    (hvalid : ValidBuffer (inp (c + 10))) (j : Nat)
    (hcpu : ∀ k < c + 11 + j, Undisturbed (regs F inp k) (inp k) (inp (k + 1)))
    (hmem : ∀ k, c ≤ k → k ≤ c + 11 + j → (inp k).memory = memory)
    (hopen : ∀ k, c ≤ k → k < c + 11 + j → ¬ Finishes (regs F inp k)) :
    Showing (regs F inp (c + 11 + j)) ∧
      ∃ todo, Ahead todo (regs F inp (c + 11 + j)).master ∧
        shown F inp c (c + 11 + j) ++ owed (regs F inp (c + 11 + j)) memory todo =
          screen memory (inp (c + 10)) := by
  induction j with
  | zero =>
    have hcopy := at_copy hstart fun k hk => hcpu k (by omega)
    have hsound := sound_run F inp (c + 10)
    refine ⟨.fetching (copying_step hsound hcopy), _, (ahead_copied hcopy hvalid).1, ?_⟩
    have hshown : shown F inp c (c + 11) = [] := shown_opening hstart 11 (by omega) hcpu
    rw [Nat.add_zero, hshown, ← hmem (c + 10) (by omega) (by omega)]
    exact owed_opening hsound hcopy hvalid
  | succ j ih =>
    obtain ⟨hshow, todo, ha, hall⟩ := ih (fun k hk => hcpu k (by omega))
      (fun k h1 h2 => hmem k h1 (by omega)) fun k h1 h2 => hopen k h1 (by omega)
    have hsound := sound_run F inp (c + 11 + j)
    have hgo := hopen (c + 11 + j) (by omega) (by omega)
    obtain ⟨todo', ha', howed⟩ := owed_step (inp (c + 11 + j + 1)) hsound hshow hgo
      (hmem (c + 11 + j) (by omega) (by omega)) ha
    refine ⟨showing_step hsound hshow hgo _, todo', ha', ?_⟩
    rw [← hall, ← howed, ← List.append_assoc, ← shown_succ (by omega)]
    rfl

end Runs

/-- **A display session shows exactly the buffer**, for every FIFO that keeps to its data sheet,
every buffer of whole bursts and every timing of the bus: at any time the pixels come in order
from the first one on, and all of them and the closing command have been sent when `End_Display`
is done.  The CPU leaves `Command_Data` alone while any memory write of the run is sent and
checked; the memory keeps its content during the session. -/
theorem shows_buffer (F : PixelFifo) (inp : Nat → Inputs) (memory : BitVec 32 → BitVec 32)
    (c n : Nat) (hstart : Starts F inp c) (hcn : c ≤ n) (hvalid : ValidBuffer (inp (c + 10)))
    (hcpu : ∀ k < n, Undisturbed (regs F inp k) (inp k) (inp (k + 1)))
    (hmem : ∀ k, c ≤ k → k ≤ n → (inp k).memory = memory)
    (hopen : ∀ k, c ≤ k → k < n → ¬ Finishes (regs F inp k)) :
    Shows F inp memory c n := by
  have hcommand : c + 4 ≤ n →
      LcdControl.strobe (pinsAt F inp) (c + 4) = some (false, (inp c).commandData) :=
    fun h => strobe_command hstart fun k hk => hcpu k (by omega)
  have hlatched : c + 10 ≤ n → (regs F inp (c + 10)).master.state = .copy :=
    fun h => (at_copy hstart fun k hk => hcpu k (by omega)).master
  by_cases hn : n < c + 11
  · -- the command is sent and checked
    obtain ⟨j, rfl⟩ := Nat.exists_eq_add_of_le hcn
    have hnot : ¬ Finishes (regs F inp (c + j)) := by
      rintro ⟨hend, -⟩
      by_cases h8 : j ≤ 8
      · rw [(at_command hstart j h8 hcpu).1] at hend
        cases hend
      · obtain rfl | rfl : j = 9 ∨ j = 10 := by omega
        · rw [(at_checkCommand hstart hcpu).2.1] at hend
          cases hend
        · rw [(at_copy hstart hcpu).control] at hend
          cases hend
    refine ⟨hcommand, hlatched, ?_, fun h => absurd h hnot, fun h => absurd h hnot⟩
    rw [shown_opening hstart j (by omega) hcpu]
    exact List.nil_prefix
  · obtain ⟨j, rfl⟩ := Nat.exists_eq_add_of_le (Nat.le_of_not_lt hn)
    obtain ⟨hshow, todo, ha, hall⟩ := showing_run hstart hvalid j hcpu hmem hopen
    have hending : Finishes (regs F inp (c + 11 + j)) → Ending (regs F inp (c + 11 + j)) := by
      rintro ⟨hend, -⟩
      cases hshow with
      | fetching h => exact absurd h.control (by simp [hend])
      | draining16 h => rcases h.control with h' | h' <;> simp [hend] at h'
      | draining h => rcases h.control with h' | h' <;> simp [hend] at h'
      | ending h => exact h
    refine ⟨hcommand, hlatched, ⟨_, hall⟩, fun hf => ?_, fun hf => ?_⟩
    · have h8 := (finishes_iff.mp hf).2
      rw [owed_ending (hending hf) ha, closing, if_pos ⟨(hending hf).control, by omega⟩,
        List.append_nil] at hall
      exact hall
    · exact ⟨(hending hf).stored, (hending hf).pending, (hending hf).master⟩

/-- The CPU asks for one display of a single burst of a memory that holds its own addresses; the
bus never waits. -/
def oneBurst (_ : Nat) : Inputs := ⟨0x2C, 1, 0x1000, 64, 1, false, true, fun a => a⟩

theorem shows_buffer_oneBurst :
    Shows (MixedFifo.exact halves 1024 2 4 0) oneBurst (fun a => a) 1 60 ∧
      shown (MixedFifo.exact halves 1024 2 4 0) oneBurst 1 60 =
        [(true, 0x1040), (true, 0), (true, 0x1044)] := by
  refine ⟨shows_buffer _ oneBurst _ 1 60 ⟨rfl, rfl, by decide⟩ (by decide) (by decide)
    (fun _ _ _ _ => rfl) (fun _ _ _ => rfl) ?_, by decide +kernel⟩
  intro k _ hk
  revert k
  decide +kernel

end CameraLcd.FullLcd
