import CameraLcd.I2c.Duration
import CameraLcd.Lib.RegisterProgram

/-!
# `i2c.c`: the driver, and what it runs on

* `i2cWrite`, `i2cRead`, `i2cWriteArray`, `i2cReadArray`, … — the functions of `i2c.c` as programs
  of register accesses.
* `Txn`, `protocol` — the master as its software sees it: the commands issued so far, and whether
  TIP was seen low after the last of them.
* `master_simulates` — `i2c_interface` with its core and its bus simulates that description;
  `master_settles` — polling TIP comes to an end.
* `driver_on_bus` — so every run of a driver function returns, with the result and the commands
  that the description gives.
-/

set_option autoImplicit false

namespace CameraLcd.I2c

open Clocked I2cBus RegisterProgram

/-! ## The functions of the driver -/

/-- Code that accesses the registers at `base + 0, …, base + 3`. -/
abbrev Driver (α : Type) := Prog (BitVec 2) 8 α

/-- `I2C_SUCCESS`, `I2C_ENODEV`, `I2C_EBADACK`. -/
inductive Status where
  | success
  | enodev
  | ebadack
  deriving DecidableEq, Repr

/-- `I2C_CONTROL_ACKNOWLEDGE_READ_MSK`. -/
def controlAcknowledgeRead : BitVec 8 := 0x01
/-- `I2C_CONTROL_GENERATE_STOP_SEQUENCE_MSK`. -/
def controlStop : BitVec 8 := 0x02
/-- `I2C_CONTROL_GENERATE_START_SEQUENCE_MSK`. -/
def controlStart : BitVec 8 := 0x04
/-- `I2C_CONTROL_READ_COMMAND_MSK`. -/
def controlRead : BitVec 8 := 0x08
/-- `I2C_CONTROL_WRITE_COMMAND_MSK`. -/
def controlWrite : BitVec 8 := 0x10
/-- `I2C_CONTROL_INTERRUPT_ENABLE_MSK`. -/
def controlInterruptEnable : BitVec 8 := 0x20
/-- `I2C_STATUS_LAST_ACKNOWLEDGE_RECEIVED_MSK`. -/
def statusLastAcknowledge : BitVec 8 := 0x01
/-- `I2C_STATUS_TRANSFER_IN_PROGRESS_MSK`. -/
def statusTransferInProgress : BitVec 8 := 0x08

/-- `I2C_WR_DATA`. -/
def wrData (data : BitVec 8) : Driver Unit := .write 0 data (.ret ())
/-- `I2C_WR_CONTROL`. -/
def wrControl (data : BitVec 8) : Driver Unit := .write 1 data (.ret ())
/-- `I2C_WR_CLOCK_DIVISOR`. -/
def wrClockDivisor (data : BitVec 8) : Driver Unit := .write 3 data (.ret ())
/-- `I2C_RD_DATA`. -/
def rdData : Driver (BitVec 8) := .read 0 .ret
/-- `I2C_RD_STATUS(dev->base) & I2C_STATUS_LAST_ACKNOWLEDGE_RECEIVED_MSK`, as a condition. -/
def lastAcknowledge : Driver Bool := .test 2 statusLastAcknowledge .ret

/-- `wait_end_of_transfer`. -/
def waitEndOfTransfer : Driver Unit := .poll 2 statusTransferInProgress (.ret ())

/-- `set_data_control`. -/
def setDataControl (data control : BitVec 8) : Driver Unit := do
  waitEndOfTransfer
  wrData data
  wrControl control
  waitEndOfTransfer

/-- `get_data_set_control`. -/
def getDataSetControl (control : BitVec 8) : Driver (BitVec 8) := do
  waitEndOfTransfer
  wrControl control
  waitEndOfTransfer
  rdData

/-- `i2c_init`: the divisor is narrowed to the width of its register. -/
def i2cInit (i2cFrequency : BitVec 32) : Driver Unit :=
  wrClockDivisor ((i2cFrequency / (4 * 100000)).setWidth 8)

/-- `i2c_configure`. -/
def i2cConfigure (irq : Bool) : Driver Unit := do
  wrControl controlStop
  wrControl (if irq then controlInterruptEnable else 0)

/-- A transfer that must be acknowledged: `rest` if it is, else the driver writes STOP to the
control register and returns `error`. -/
def checked {α : Type} (data control : BitVec 8) (error : α) (rest : Driver α) : Driver α := do
  setDataControl data control
  if ← lastAcknowledge then
    wrControl controlStop
    return error
  rest

/-- `i2c_write`. -/
def i2cWrite (device index value : BitVec 8) : Driver Status :=
  checked (device &&& 0xFE) (controlStart ||| controlWrite) .enodev <|
  checked index controlWrite .ebadack <|
  checked value (controlStop ||| controlWrite) .ebadack <|
  return .success

/-- `i2c_read`; `value` is what `*value` holds. -/
def i2cRead (device index value : BitVec 8) : Driver (Status × BitVec 8) :=
  checked (device &&& 0xFE) (controlStart ||| controlWrite) (.enodev, value) <|
  checked index controlWrite (.ebadack, value) <|
  checked (device ||| 0x01) (controlStart ||| controlWrite) (.enodev, value) do
    let value ← getDataSetControl (controlStop ||| controlRead ||| controlAcknowledgeRead)
    return (.success, value)

/-- The loop of `i2c_write_array`, from `value[i]` on. -/
def writeValues : List (BitVec 8) → Driver Status
  | [] => return .success
  | v :: vs =>
    checked v (if vs.isEmpty then controlStop ||| controlWrite else controlWrite) .ebadack
      (writeValues vs)

/-- `i2c_write_array`; `value` are the `size` bytes. -/
def i2cWriteArray (device index : BitVec 8) (value : List (BitVec 8)) : Driver Status :=
  checked (device &&& 0xFE) (controlStart ||| controlWrite) .enodev <|
  checked index controlWrite .ebadack <|
  writeValues value

/-- The loop of `i2c_read_array`, with this many bytes to come. -/
def readValues : Nat → Driver (List (BitVec 8))
  | 0 => return []
  | n + 1 => do
    let v ← getDataSetControl
      (if n = 0 then controlStop ||| controlRead ||| controlAcknowledgeRead else controlRead)
    let vs ← readValues n
    return v :: vs

/-- `i2c_read_array`; `value` are the `size` bytes to be overwritten. -/
def i2cReadArray (device index : BitVec 8) (value : List (BitVec 8)) :
    Driver (Status × List (BitVec 8)) :=
  checked (device &&& 0xFE) (controlStart ||| controlWrite) (.enodev, value) <|
  checked index controlWrite (.ebadack, value) <|
  checked (device ||| 0x01) (controlStart ||| controlWrite) (.enodev, value) do
    let value ← readValues value.length
    return (.success, value)

/-! ## The master as its software sees it -/

structure Txn where
  issued : List Command
  dataIn : BitVec 8
  divisor : BitVec 8
  /-- TIP was seen low after the last command. -/
  idle : Bool
  deriving DecidableEq, Repr

/-- After power-up. -/
def Txn.start : Txn := ⟨[], 0, 0b10000011, true⟩

/-- The command that a write to the control register gives. -/
def controlCommand (control data : BitVec 8) : Command where
  start := control.getLsbD 2
  stop := control.getLsbD 1
  read := control.getLsbD 3
  write := control.getLsbD 4
  ack := control.getLsbD 0
  data := data

/-- `RD` or `WR`. -/
def commands (control : BitVec 8) : Bool := control.getLsbD 3 || control.getLsbD 4

/-- A write of the software.  The registers are written between transfers only. -/
def Txn.write (t : Txn) (address : BitVec 2) (data : BitVec 8) : Option Txn :=
  match address with
  | 0 => if t.idle then some { t with dataIn := data } else none
  | 1 =>
    if t.idle then
      if commands data then
        some { t with issued := t.issued ++ [controlCommand data t.dataIn], idle := false }
      else some t
    else none
  | 2 => some t
  | 3 => if t.idle && data != 0 then some { t with divisor := data } else none

section Protocol

variable {σ : Type} (dev : Device σ)

/-- **The master behind its registers.** -/
def protocol : Spec (BitVec 2) 8 Txn where
  write := Txn.write
  read t address :=
    if address = 0 ∧ t.idle then some (outcome dev t.issued).data else none
  test t address mask :=
    if address = 2 ∧ mask = statusLastAcknowledge ∧ t.idle then some (outcome dev t.issued).lar
    else none
  poll t address mask :=
    if address = 2 ∧ mask = statusTransferInProgress then some { t with idle := true } else none

/-! ## The hardware -/

/-- The Avalon signals of an access. -/
def avalon : RegisterProgram.Access (BitVec 2) (BitVec 8) → Access
  | .none => noAccess
  | .read address => readAccess address
  | .write address data => writeAccess address data

/-- `i2c_interface` on its bus. -/
def master : Peripheral (BitVec 2) 8 Scene Bool where
  step s a glitch := s.step dev ⟨avalon a, glitch⟩
  readdata s := s.hw.readdata

/-- The scene is where the software takes it to be. -/
structure Refines (t : Txn) (s : Scene) : Prop where
  sound : Sound dev s
  issued : s.issued = t.issued
  dataIn : s.hw.iDataIn = t.dataIn
  divisor : s.hw.iClkdiv = t.divisor
  idle : t.idle = true → s.hw.tip = false ∧ s.hw.iCmdDoneAck = false

variable {dev} {t t' : Txn} {s : Scene} {g : Bool} {a : Access}

/-! ### Accesses that write nothing -/

theorem dataInSync_read (ha : a.write = false) : (s.hw.dataInSync a).iDataIn = s.hw.iDataIn ∧
    (s.hw.dataInSync a).iClkdiv = s.hw.iClkdiv := by
  have hstrobe : Regs.writeStrobe a = false := by simp [Regs.writeStrobe, ha]
  unfold Regs.dataInSync
  rw [hstrobe]
  split
  · exact ⟨rfl, rfl⟩
  · split <;> exact ⟨rfl, rfl⟩

theorem accepted_read (ha : a.write = false) : s.hw.accepted a = none := by
  simp [Regs.accepted, Access.commands, ha]

/-- A scene after an edge with which no command is accepted. -/
theorem sound_quiet (hs : Sound dev s) (hacc : s.hw.accepted a = none) (hdiv : a.Divides) :
    Sound dev (s.step dev ⟨a, g⟩) where
  joint := joint_step hs.joint hs.divides hs.yields fun _ => hacc
  divides := clkdiv_step hdiv hs.divides
  yields := by
    have hissued : (s.step dev ⟨a, g⟩).issued = s.issued := by simp [Scene.step, hacc]
    rw [hissued]
    exact hs.yields

theorem idle_keep (hacc : s.hw.accepted a = none) (ht : s.hw.tip = false) :
    (s.step dev ⟨a, g⟩).hw.tip = false ∧ (s.step dev ⟨a, g⟩).hw.iCmdDoneAck = false := by
  refine ⟨accepted_none ht hacc, ?_⟩
  show (s.hw.dataInSync a).iCmdDoneAck = false
  rw [dataInSync_ack, ht]
  rfl

theorem Refines.keep (h : Refines dev t s) (ha : a.write = false) :
    Refines dev t (s.step dev ⟨a, g⟩) where
  sound := sound_quiet h.sound (accepted_read ha) fun hw => by
    simp [Regs.writeStrobe, ha] at hw
  issued := by simp [Scene.step, accepted_read ha, h.issued]
  dataIn := (dataInSync_read ha).1.trans h.dataIn
  divisor := (dataInSync_read ha).2.trans h.divisor
  idle hi := idle_keep (accepted_read ha) (h.idle hi).1

/-! ### Writes -/

theorem dataInSync_write (ht : s.hw.tip = false) (x : BitVec 2) (d : BitVec 8) :
    (s.hw.dataInSync (writeAccess x d)).iDataIn = (s.hw.writeRegister (writeAccess x d)).iDataIn ∧
    (s.hw.dataInSync (writeAccess x d)).iClkdiv =
      (s.hw.writeRegister (writeAccess x d)).iClkdiv := by
  simp [Regs.dataInSync, ht, Regs.writeStrobe, writeAccess]

theorem Refines.write (h : Refines dev t s) (hi : t.idle = true) {x : BitVec 2} {d : BitVec 8}
    (hno : (writeAccess x d).commands = false) (hdiv : x = 3 → d ≠ 0) :
    Sound dev (s.step dev ⟨writeAccess x d, g⟩) ∧
      (s.step dev ⟨writeAccess x d, g⟩).issued = t.issued ∧
      (s.step dev ⟨writeAccess x d, g⟩).hw.tip = false ∧
      (s.step dev ⟨writeAccess x d, g⟩).hw.iCmdDoneAck = false := by
  have hacc : s.hw.accepted (writeAccess x d) = none := by
    simp [Regs.accepted, hno]
  refine ⟨sound_quiet h.sound hacc fun _ => hdiv, ?_, idle_keep hacc (h.idle hi).1⟩
  simp [Scene.step, hacc, h.issued]

/-- The command of a write to the control register is accepted. -/
theorem accepted_control (ht : s.hw.tip = false) {d : BitVec 8} (hc : commands d = true) :
    s.hw.accepted (writeAccess 1 d) = some (controlCommand d s.hw.iDataIn) := by
  have hcom : (writeAccess 1 d).commands = true := by
    simpa [Access.commands, writeAccess, commands] using hc
  unfold Regs.accepted
  rw [if_pos ⟨ht, hcom⟩]
  simp [Regs.dataInSync, ht, Regs.writeStrobe, writeAccess, Regs.writeRegister, Regs.command,
    controlCommand]

theorem Refines.control (h : Refines dev t s) (hi : t.idle = true) {d : BitVec 8}
    (hc : commands d = true)
    (hy : YieldsTo dev (t.issued ++ [controlCommand d t.dataIn])) :
    Refines dev { t with issued := t.issued ++ [controlCommand d t.dataIn], idle := false }
      (s.step dev ⟨writeAccess 1 d, g⟩) := by
  obtain ⟨htip, hack⟩ := h.idle hi
  have hacc := accepted_control htip hc
  rw [h.dataIn] at hacc
  have hissued : (s.step dev ⟨writeAccess 1 d, g⟩).issued =
      t.issued ++ [controlCommand d t.dataIn] := by
    show s.issued ++ (s.hw.accepted _).toList = _
    rw [hacc, h.issued]
    rfl
  obtain ⟨hdata, hdiv⟩ := dataInSync_write htip 1 d
  refine ⟨⟨?_, ?_, ?_⟩, hissued, hdata.trans h.dataIn, hdiv.trans h.divisor,
    fun h => absurd h Bool.false_ne_true⟩
  · refine joint_step h.sound.joint h.sound.divides h.sound.yields fun hdone => ?_
    exact absurd (hack.symm.trans hdone) Bool.false_ne_true
  · exact clkdiv_step (fun _ haddr => absurd haddr (by decide : (1 : BitVec 2) ≠ 3))
      h.sound.divides
  · rw [hissued]
    exact hy

/-- **A write the software may make** takes the scene where it takes the description. -/
theorem Refines.written (h : Refines dev t s) {x : BitVec 2} {d : BitVec 8}
    (hw : t.write x d = some t') (hy : YieldsTo dev t'.issued) :
    Refines dev t' (s.step dev ⟨writeAccess x d, g⟩) := by
  unfold Txn.write at hw
  split at hw
  · split at hw
    · rename_i hi
      cases hw
      obtain ⟨hs, hissued, hidle⟩ := h.write (g := g) hi (x := 0) (d := d) rfl
        fun h0 => absurd h0 (by decide)
      obtain ⟨hdata, hdiv⟩ := dataInSync_write (h.idle hi).1 0 d
      exact ⟨hs, hissued, hdata, hdiv.trans h.divisor, fun _ => hidle⟩
    · cases hw
  · split at hw
    · rename_i hi
      split at hw
      · rename_i hc
        cases hw
        exact h.control hi hc hy
      · rename_i hc
        cases hw
        have hno : (writeAccess 1 d).commands = false := by
          simpa [Access.commands, writeAccess, commands] using hc
        obtain ⟨hs, hissued, hidle⟩ := h.write (g := g) hi hno fun h1 => absurd h1 (by decide)
        obtain ⟨hdata, hdiv⟩ := dataInSync_write (h.idle hi).1 1 d
        exact ⟨hs, hissued, hdata.trans h.dataIn, hdiv.trans h.divisor, fun _ => hidle⟩
    · cases hw
  · cases hw
    have hacc : s.hw.accepted (writeAccess 2 d) = none := by
      simp [Regs.accepted, Access.commands, writeAccess]
    refine ⟨sound_quiet h.sound hacc fun _ h2 => absurd h2 (by decide : (2 : BitVec 2) ≠ 3),
      ?_, ?_, ?_, fun hi => idle_keep hacc (h.idle hi).1⟩
    · show s.issued ++ (s.hw.accepted (writeAccess 2 d)).toList = _
      rw [hacc, h.issued]
      exact List.append_nil _
    · refine (?_ : (s.hw.dataInSync (writeAccess 2 d)).iDataIn = _).trans h.dataIn
      unfold Regs.dataInSync
      split
      · rfl
      · split <;> rfl
    · refine (?_ : (s.hw.dataInSync (writeAccess 2 d)).iClkdiv = _).trans h.divisor
      unfold Regs.dataInSync
      split
      · rfl
      · split <;> rfl
  · split at hw
    · rename_i hi
      cases hw
      simp only [Bool.and_eq_true, bne_iff_ne, ne_eq] at hi
      obtain ⟨hs, hissued, hidle⟩ := h.write (g := g) hi.1 (x := 3) (d := d) rfl fun _ => hi.2
      obtain ⟨hdata, hdiv⟩ := dataInSync_write (h.idle hi.1).1 3 d
      exact ⟨hs, hissued, hdata.trans h.dataIn, hdiv, fun _ => hidle⟩
    · cases hw

theorem write_issued {x : BitVec 2} {d : BitVec 8} (hw : t.write x d = some t') :
    t.issued <+: t'.issued := by
  unfold Txn.write at hw
  split at hw
  · split at hw <;> cases hw
    exact List.prefix_refl _
  · split at hw
    · split at hw <;> cases hw
      · exact List.prefix_append _ _
      · exact List.prefix_refl _
    · cases hw
  · cases hw
    exact List.prefix_refl _
  · split at hw <;> cases hw
    exact List.prefix_refl _

theorem YieldsTo.mono {cs cs' : List Command} (hy : YieldsTo dev cs') (h : cs <+: cs') :
    YieldsTo dev cs := by
  obtain ⟨more, rfl⟩ := h
  intro before c after hsplit
  refine hy before c (after ++ more) ?_
  rw [hsplit, List.append_assoc, List.cons_append]

/-! ### What is read -/

theorem readdata_read (x : BitVec 2) :
    ((master dev).readdata ((master dev).step s (.read x) g)) = s.hw.iReaddata x := rfl

/-- The bits of the status register that the driver looks at. -/
theorem status_bits (r : Regs) :
    (r.status &&& statusLastAcknowledge != 0) = r.core.ackOut ∧
      (r.status &&& statusTransferInProgress = 0 ↔ r.tip = false) := by
  unfold Regs.status statusLastAcknowledge statusTransferInProgress
  cases r.tip <;> cases r.iIntPe <;> cases r.core.busy <;> cases r.core.ackOut <;> decide

variable (dev) in
/-- **The hardware simulates the description.** -/
theorem master_simulates :
    Simulates (master dev) (protocol dev) (Refines dev) (fun t => YieldsTo dev t.issued) where
  idle _ h := h.keep rfl
  read _ _ h := h.keep rfl
  write _ h hw hy := h.written hw hy
  readdata {t s x d} e h hr := by
    simp only [protocol, Option.ite_none_right_eq_some, Option.some.injEq] at hr
    obtain ⟨⟨rfl, hi⟩, rfl⟩ := hr
    rw [readdata_read, ← h.issued]
    exact (joint_carried h.sound.joint).data (h.idle hi).1
  test {t s x m b} e h hr := by
    simp only [protocol, Option.ite_none_right_eq_some, Option.some.injEq] at hr
    obtain ⟨⟨rfl, rfl, hi⟩, rfl⟩ := hr
    rw [readdata_read, ← h.issued]
    exact (status_bits s.hw).1.trans ((joint_carried h.sound.joint).lar (h.idle hi).1)
  poll {t t' s x m} e h hr hz := by
    simp only [protocol, Option.ite_none_right_eq_some, Option.some.injEq] at hr
    obtain ⟨⟨rfl, rfl⟩, rfl⟩ := hr
    have htip : s.hw.tip = false := (status_bits s.hw).2.mp hz
    have hkeep : Refines dev t (s.step dev ⟨readAccess 2, e⟩) := h.keep rfl
    exact ⟨hkeep.sound, hkeep.issued, hkeep.dataIn, hkeep.divisor,
      fun _ => idle_keep (accepted_read rfl) htip⟩
  good_write hw hy := hy.mono (write_issued hw)
  good_poll {t t' x m} hw hy := by
    simp only [protocol, Option.ite_none_right_eq_some, Option.some.injEq] at hw
    obtain ⟨-, rfl⟩ := hw
    exact hy

variable (dev) in
/-- **Polling TIP ends.** -/
theorem master_settles : Settles (master dev) (protocol dev) (Refines dev) := by
  intro t t' x m h e h0 hp hstep
  simp only [protocol, Option.ite_none_right_eq_some, Option.some.injEq] at hp
  obtain ⟨⟨rfl, rfl⟩, rfl⟩ := hp
  have hquiet : ∀ n, ∃ a : Access, a.write = false ∧ h (n + 1) = (h n).step dev ⟨a, e n⟩ := by
    intro n
    obtain hn | hn := hstep n
    · exact ⟨noAccess, rfl, hn⟩
    · exact ⟨readAccess 2, rfl, hn⟩
  choose a ha hpath using hquiet
  have hall : ∀ n, Refines dev t (h n) := by
    intro n
    induction n with
    | zero => exact h0
    | succ n ih =>
      rw [hpath n]
      exact ih.keep (ha n)
  obtain ⟨k, -, -, hk⟩ := tip_low_within (S := h) (n := 0) hpath rfl
    fun n _ _ => (hall n).sound
  have hlow : ∀ j, k ≤ j → (h j).hw.tip = false := by
    intro j hj
    induction j, hj using Nat.le_induction with
    | base => exact hk
    | succ j hj ih =>
      rw [hpath j]
      exact accepted_none ih (accepted_read (ha j))
  exact ⟨k, fun j hj e' => (status_bits _).2.mpr (hlow j hj)⟩

/-! ## Runs -/

variable (dev) in
/-- The processor with program `p` and the master, from power-up on. -/
abbrev computer {α : Type} (p : Driver α) (sclIn sdaIn : Bool) :
    Machine (Cpu (BitVec 2) 8 α × Scene) (Timing Bool) :=
  platform (master dev) p (machine dev sclIn sdaIn).init

theorem refines_start (sclIn sdaIn : Bool) :
    Refines dev Txn.start (machine dev sclIn sdaIn).init where
  sound := ⟨joint_init dev sclIn sdaIn fun _ => ⟨noAccess, false⟩,
    (by decide : (0b10000011 : BitVec 8) ≠ 0),
    fun before c after h => by simp [machine] at h⟩
  issued := rfl
  dataIn := rfl
  divisor := rfl
  idle _ := ⟨rfl, rfl⟩

theorem exec_issued {α : Type} {p : Driver α} {a : α} {t t' : Txn}
    (h : exec (protocol dev) p t = some (a, t')) : t.issued <+: t'.issued := by
  induction p generalizing t with
  | ret b =>
    cases h
    exact List.prefix_refl _
  | write x d p ih =>
    obtain ⟨t1, hw, hp⟩ := Option.bind_eq_some_iff.mp h
    exact (write_issued hw).trans (ih hp)
  | read x k ih =>
    obtain ⟨d, -, hp⟩ := Option.bind_eq_some_iff.mp h
    exact ih d hp
  | test x m k ih =>
    obtain ⟨b, -, hp⟩ := Option.bind_eq_some_iff.mp h
    exact ih b hp
  | poll x m p ih =>
    obtain ⟨t1, hw, hp⟩ := Option.bind_eq_some_iff.mp h
    simp only [protocol, Option.ite_none_right_eq_some, Option.some.injEq] at hw
    obtain ⟨-, rfl⟩ := hw
    exact ih (t := { t with idle := true }) hp

theorem outcome_log_mono {cs cs' : List Command} (h : cs <+: cs') :
    (outcome dev cs).log <+: (outcome dev cs').log := by
  obtain ⟨more, rfl⟩ := h
  induction more using List.reverseRecOn with
  | nil => simp
  | append_singleton more c ih =>
    rw [← List.append_assoc, outcome_snoc]
    exact ih.trans (prefix_perform dev _ _)

/-- While a program runs, the log of the bus is a beginning of what its commands mean; when it has
returned, it is all of it, and the result is that of the description. -/
theorem driver_log {α : Type} {p : Driver α} {a : α} (hex : exec (protocol dev) p Txn.start =
      some (a, t)) (hy : YieldsTo dev t.issued) (hidle : t.idle = true) (sclIn sdaIn : Bool)
    (inp : Nat → Timing Bool) (n : Nat) :
    ((computer dev p sclIn sdaIn).run inp n).2.log <+: (outcome dev t.issued).log ∧
      ∀ b, ((computer dev p sclIn sdaIn).run inp n).1.prog = .ret b →
        b = a ∧ ((computer dev p sclIn sdaIn).run inp n).2.log = (outcome dev t.issued).log := by
  have hsim := master_simulates dev
  refine ⟨?_, fun b hret => ?_⟩
  · obtain ⟨t1, hex1, h, -⟩ := run_exec inp hsim (refines_start sclIn sdaIn) hex hy n
    have hcarried := (joint_carried h.sound.joint).inOrder
    rw [h.issued] at hcarried
    exact hcarried.trans (outcome_log_mono (exec_issued hex1))
  · obtain ⟨rfl, h⟩ := run_ret inp hsim (refines_start sclIn sdaIn) hex hy hret
    refine ⟨rfl, ?_⟩
    rw [← h.issued]
    exact (joint_carried h.sound.joint).complete (h.idle hidle).1

/-- A program returns, however long the processor takes for its next access. -/
theorem driver_returns {α : Type} {p : Driver α} {a : α} (hex : exec (protocol dev) p Txn.start =
      some (a, t)) (hy : YieldsTo dev t.issued) (sclIn sdaIn : Bool) (inp : Nat → Timing Bool)
    (hfair : Recurs fun n => (inp n).go) :
    ∃ n, ((computer dev p sclIn sdaIn).run inp n).1.prog = .ret a :=
  run_returns hfair (master_simulates dev) (master_settles dev) (refines_start sclIn sdaIn) hex hy

/-- **The driver on the bus.**  Whatever the device answers and whenever the processor makes its
accesses, the commands of a program appear on the bus in order and whole, and the program returns
what the description of the master gives. -/
theorem driver_on_bus {α : Type} (p : Driver α) (a : α) (hex : exec (protocol dev) p Txn.start =
      some (a, t)) (hy : YieldsTo dev t.issued) (hidle : t.idle = true) (sclIn sdaIn : Bool)
    (inp : Nat → Timing Bool) :
    (∀ n, ((computer dev p sclIn sdaIn).run inp n).2.log <+: (outcome dev t.issued).log ∧
      ∀ b, ((computer dev p sclIn sdaIn).run inp n).1.prog = .ret b →
        b = a ∧ ((computer dev p sclIn sdaIn).run inp n).2.log = (outcome dev t.issued).log) ∧
    (Recurs (fun n => (inp n).go) →
      ∃ n, ((computer dev p sclIn sdaIn).run inp n).1.prog = .ret a) :=
  ⟨driver_log hex hy hidle sclIn sdaIn inp, driver_returns hex hy sclIn sdaIn inp⟩

end Protocol

theorem driver_on_bus_nobody :
    (∀ n,
      ((computer nobody (i2cWrite 0xBA 10 23) true true).run (fun _ => ⟨true, false⟩) n).2.log <+:
        (outcome nobody [controlCommand 0x14 0xBA]).log ∧
      ∀ b, ((computer nobody (i2cWrite 0xBA 10 23) true true).run
          (fun _ => ⟨true, false⟩) n).1.prog = .ret b →
        b = .enodev ∧ ((computer nobody (i2cWrite 0xBA 10 23) true true).run
          (fun _ => ⟨true, false⟩) n).2.log = (outcome nobody [controlCommand 0x14 0xBA]).log) ∧
    (Recurs (fun _ => true) →
      ∃ n,
        ((computer nobody (i2cWrite 0xBA 10 23) true true).run (fun _ => ⟨true, false⟩) n).1.prog =
        .ret .enodev) :=
  driver_on_bus (t := ⟨[controlCommand 0x14 0xBA], 0xBA, 0b10000011, true⟩) (i2cWrite 0xBA 10 23)
    .enodev (by decide +kernel) (nobody_yields _) rfl true true fun _ => ⟨true, false⟩

end CameraLcd.I2c
