import CameraLcd.I2c.Transactions

/-!
# `function_i2c.c`: the configuration of the camera

* `trdbD5mWrite`, `trdbD5mRead`, `writeAndReadI2C`, `cameraConfiguration` — the functions.
* `Registers`, `camera` — a camera as its driver takes it to be: 16-bit registers behind an 8-bit
  index, high byte first.
* `configuration_on_bus` — what `Camera_Configuration` returns, and what it leaves in the registers,
  whatever they do with the values they are given.
* `configuration_holds` — in registers that hold their values: the ten settings and nothing else.
* `testI2c_tells` — what the result of `Test_i2c` says about the registers.
-/

set_option autoImplicit false

namespace CameraLcd.I2c

open Clocked I2cBus RegisterProgram

/-! ## The functions -/

/-- `TRDB_D5M_I2C_ADDRESS`. -/
def trdbD5mI2cAddress : BitVec 8 := 0xBA

/-- `byte_data` of `trdb_d5m_write`. -/
def byteData (data : BitVec 16) : List (BitVec 8) :=
  [((data >>> 8) &&& 0xFF).setWidth 8, (data &&& 0xFF).setWidth 8]

/-- `((uint16_t) byte_data[0] << 8) + byte_data[1]`. -/
def wordData (byteData : List (BitVec 8)) : BitVec 16 :=
  ((byteData.getD 0 0).setWidth 16 <<< 8) + (byteData.getD 1 0).setWidth 16

/-- `trdb_d5m_write`. -/
def trdbD5mWrite (registerOffset : BitVec 8) (data : BitVec 16) : Driver Bool := do
  let status ← i2cWriteArray trdbD5mI2cAddress registerOffset (byteData data)
  return status == .success

/-- `trdb_d5m_read`; `data` is what `*data` holds. -/
def trdbD5mRead (registerOffset : BitVec 8) (data : BitVec 16) : Driver (Bool × BitVec 16) := do
  let (status, bytes) ← i2cReadArray trdbD5mI2cAddress registerOffset [0, 0]
  if status != .success then
    return (false, data)
  return (true, wordData bytes)

/-- `Write_and_Read_I2C`. -/
def writeAndReadI2C (registerOffset : BitVec 8) (data : BitVec 16) : Driver Bool := do
  let written ← trdbD5mWrite registerOffset data
  let (read, readdata) ← trdbD5mRead registerOffset 0
  return written && read && readdata == data

/-- `init_I2C`, with `I2C_FREQ`. -/
def initI2C : Driver Unit := i2cInit 50000000

/-- The registers that `Camera_Configuration` writes, with `LCD_Connected`. -/
def settings (lcdConnected : Bool) : List (BitVec 8 × BitVec 16) :=
  -- resolution for the LT24 with binning
  [(0x04, 2559), (0x03, 1919),
    -- exposure
    (0x08, 0), (0x09, 3500),
    -- binning by four
    (0x22, 0x0033), (0x23, 0x0033)] ++
  -- gains of red, the two greens and blue
  if lcdConnected then [(0x2D, 15), (0x2B, 12), (0x2E, 12), (0x2C, 14)]
  else [(0x2D, 8), (0x2B, 12), (0x2E, 12), (0x2C, 10)]

/-- The calls `success &= Write_and_Read_I2C(…)`. -/
def writeAndReadAll (success : Bool) : List (BitVec 8 × BitVec 16) → Driver Bool
  | [] => return success
  | (registerOffset, data) :: rest => do
    let ok ← writeAndReadI2C registerOffset data
    writeAndReadAll (success && ok) rest

/-- `Camera_Configuration`: the version that is printed, and the result. -/
def cameraConfiguration (lcdConnected : Bool) : Driver (BitVec 16 × Bool) := do
  initI2C
  let (_, version) ← trdbD5mRead 0 0
  let success ← writeAndReadAll true (settings lcdConnected)
  return (version, success)

/-- `Test_i2c`: `EXIT_SUCCESS` and `EXIT_FAILURE` as `bool`. -/
def testI2c : Driver Bool := do
  initI2C
  if ← writeAndReadI2C 10 23 then return false else return true

theorem byte_toNat (x : BitVec 16) : ((x &&& 0xFF).setWidth 8).toNat = x.toNat % 256 := by
  rw [BitVec.toNat_setWidth, BitVec.toNat_and,
    show (0xFF : BitVec 16).toNat = 2 ^ 8 - 1 from rfl, Nat.and_two_pow_sub_one_eq_mod,
    Nat.mod_mod]

/-- The bytes of a word make the word. -/
theorem wordData_byteData (data : BitVec 16) : wordData (byteData data) = data := by
  have hhigh : (((data >>> 8) &&& 0xFF).setWidth 8).toNat = data.toNat / 256 := by
    rw [byte_toNat, BitVec.toNat_ushiftRight, Nat.shiftRight_eq_div_pow]
    exact Nat.mod_eq_of_lt (by omega)
  have hlow := byte_toNat data
  apply BitVec.eq_of_toNat_eq
  show (((((data >>> 8) &&& 0xFF).setWidth 8).setWidth 16 <<< 8) +
    (((data &&& 0xFF).setWidth 8).setWidth 16)).toNat = _
  generalize ((data >>> 8) &&& 0xFF).setWidth 8 = high at hhigh
  generalize (data &&& 0xFF).setWidth 8 = low at hlow
  rw [BitVec.toNat_add, BitVec.toNat_shiftLeft, BitVec.toNat_setWidth, BitVec.toNat_setWidth,
    hhigh, hlow, Nat.shiftLeft_eq]
  omega

/-! ## On any target -/

section Targets

variable {τ : Type} (tgt : Target τ)

/-- What `trdb_d5m_read` comes to. -/
def readWord (s : τ) (registerOffset : BitVec 8) (data : BitVec 16) :
    (Bool × BitVec 16) × Left τ :=
  let r := readTransaction tgt s trdbD5mI2cAddress registerOffset [0, 0]
  (if r.1.1 != .success then (false, data) else (true, wordData r.1.2), r.2)

/-- What `Write_and_Read_I2C` comes to. -/
def writeAndRead (s : τ) (registerOffset : BitVec 8) (data : BitVec 16) : Bool × Left τ :=
  let w := writeTransaction tgt s trdbD5mI2cAddress registerOffset (byteData data)
  let r := readWord tgt w.2.state registerOffset 0
  (w.1 == .success && r.1.1 && r.1.2 == data, r.2)

/-- What the calls of `Camera_Configuration` come to. -/
def writesAndReads (success : Bool) (l : Left τ) : List (BitVec 8 × BitVec 16) → Bool × Left τ
  | [] => (success, l)
  | (registerOffset, data) :: rest =>
    let r := writeAndRead tgt l.state registerOffset data
    writesAndReads (success && r.1) r.2 rest

variable {tgt} {t : Txn} {l : Left τ}

theorem writeWord_finishes (h : Ready tgt t l) (registerOffset : BitVec 8) (data : BitVec 16) :
    Finishes tgt (trdbD5mWrite registerOffset data) t
      ((writeTransaction tgt l.state trdbD5mI2cAddress registerOffset (byteData data)).1 ==
          .success,
        (writeTransaction tgt l.state trdbD5mI2cAddress registerOffset (byteData data)).2) :=
  (writeArray_finishes h _ registerOffset (byteData data)).bind fun _ h' => Finishes.pure h' _

theorem readWord_finishes (h : Ready tgt t l) (registerOffset : BitVec 8) (data : BitVec 16) :
    Finishes tgt (trdbD5mRead registerOffset data) t
      (readWord tgt l.state registerOffset data) := by
  unfold trdbD5mRead readWord
  refine (readArray_finishes h _ registerOffset [0, 0] (by simp)).bind fun t' h' => ?_
  generalize readTransaction tgt l.state trdbD5mI2cAddress registerOffset [0, 0] = r at h' ⊢
  obtain ⟨⟨status, bytes⟩, l'⟩ := r
  show Finishes tgt (if (status != .success) = true then Pure.pure (false, data)
    else Pure.pure (true, wordData bytes)) t'
    (if (status != .success) = true then (false, data) else (true, wordData bytes), l')
  by_cases hs : (status != .success) = true
  · rw [if_pos hs, if_pos hs]
    exact Finishes.pure h' _
  · rw [if_neg hs, if_neg hs]
    exact Finishes.pure h' _

theorem writeAndRead_finishes (h : Ready tgt t l) (registerOffset : BitVec 8)
    (data : BitVec 16) : Finishes tgt (writeAndReadI2C registerOffset data) t
      (writeAndRead tgt l.state registerOffset data) :=
  (writeWord_finishes h registerOffset data).bind fun _ h1 =>
    (readWord_finishes h1 registerOffset 0).bind fun _ h2 => Finishes.pure h2 _

theorem writeAndReadAll_finishes (table : List (BitVec 8 × BitVec 16)) (success : Bool)
    (h : Ready tgt t l) : Finishes tgt (writeAndReadAll success table) t
      (writesAndReads tgt success l table) := by
  induction table generalizing t l success with
  | nil => exact Finishes.pure h success
  | cons entry rest ih =>
    exact (writeAndRead_finishes h entry.1 entry.2).bind fun t' h' => ih _ h'

/-- What `Camera_Configuration` comes to. -/
def configuration (tgt : Target τ) (lcdConnected : Bool) : (BitVec 16 × Bool) × Left τ :=
  let v := readWord tgt tgt.init 0 0
  let r := writesAndReads tgt true v.2 (settings lcdConnected)
  ((v.1.2, r.1), r.2)

variable (tgt) in
theorem configuration_finishes (lcdConnected : Bool) :
    Finishes tgt (cameraConfiguration lcdConnected) Txn.start (configuration tgt lcdConnected) := by
  unfold cameraConfiguration initI2C
  refine (init_finishes (ready_start tgt) 50000000 (by decide)).bind fun t1 h1 => ?_
  refine (readWord_finishes h1 0 0).bind fun t2 h2 => ?_
  exact (writeAndReadAll_finishes (settings lcdConnected) true h2).bind fun t3 h3 =>
    Finishes.pure h3 _

variable (tgt) in
/-- **`Camera_Configuration` on the bus**, with any target and at any speed of the processor. -/
theorem configuration_on_bus (lcdConnected sclIn sdaIn : Bool) (inp : Nat → Timing Bool) :
    (∀ n b,
      ((computer tgt.device (cameraConfiguration lcdConnected) sclIn sdaIn).run inp n).1.prog =
        .ret b →
      b = (configuration tgt lcdConnected).1 ∧
      (tgt.device.after ((computer tgt.device (cameraConfiguration lcdConnected) sclIn sdaIn).run
        inp n).2.log).state = (configuration tgt lcdConnected).2.state ∧
      (Released ((computer tgt.device (cameraConfiguration lcdConnected) sclIn sdaIn).run
        inp n).2.log ↔ (configuration tgt lcdConnected).2.released = true)) ∧
    (Recurs (fun n => (inp n).go) →
      ∃ n, ((computer tgt.device (cameraConfiguration lcdConnected) sclIn sdaIn).run inp n).1.prog =
        .ret (configuration tgt lcdConnected).1) :=
  finishes_on_bus (configuration_finishes tgt lcdConnected) sclIn sdaIn inp

variable (tgt) in
theorem testI2c_finishes : Finishes tgt testI2c Txn.start
    (!(writeAndRead tgt tgt.init 10 23).1, (writeAndRead tgt tgt.init 10 23).2) := by
  unfold testI2c initI2C
  refine (init_finishes (ready_start tgt) 50000000 (by decide)).bind fun t1 h1 => ?_
  refine (writeAndRead_finishes h1 10 23).bind fun t2 h2 => ?_
  show Finishes tgt (if (writeAndRead tgt tgt.init 10 23).1 = true then Pure.pure false
    else Pure.pure true) t2 _
  cases (writeAndRead tgt tgt.init 10 23).1 with
  | true => exact Finishes.pure h2 false
  | false => exact Finishes.pure h2 true

end Targets

/-! ## A camera -/

/-- What registers do with the values written to them. -/
structure Registers (ρ : Type) where
  store : ρ → BitVec 8 → BitVec 16 → ρ
  fetch : ρ → BitVec 8 → BitVec 16

/-- Where the camera stands between two bytes. -/
structure Camera (ρ : Type) where
  regs : ρ
  index : BitVec 8
  /-- The next byte written is an index. -/
  indexing : Bool
  /-- The high byte written. -/
  high : Option (BitVec 8)
  /-- The next byte read is a low one. -/
  low : Bool

section Cameras

variable {ρ : Type} (R : Registers ρ)

/-- **The camera behind its registers**: high byte first, the index advances with each word. -/
def camera (r : ρ) : Target (Camera ρ) where
  init := ⟨r, 0, false, none, false⟩
  address s byte :=
    if byte &&& 0xFE = trdbD5mI2cAddress then
      (true, { s with indexing := !byte.getLsbD 0, high := none, low := false })
    else (false, s)
  accept s byte :=
    if s.indexing then (true, { s with index := byte, indexing := false })
    else
      match s.high with
      | none => (true, { s with high := some byte })
      | some high =>
        (true,
          { s with
            regs := R.store s.regs s.index (wordData [high, byte])
            index := s.index + 1
            high := none })
  offer s := (byteData (R.fetch s.regs s.index)).getD (if s.low then 1 else 0) 0
  sent s _ :=
    if s.low then { s with index := s.index + 1, low := false } else { s with low := true }
  stopped s := s

variable {R} {r : ρ} {t : Txn} {l : Left (Camera ρ)}

/-- `trdb_d5m_write` stores the word. -/
theorem write_camera (s : Camera ρ) (registerOffset : BitVec 8) (data : BitVec 16) :
    writeTransaction (camera R r) s trdbD5mI2cAddress registerOffset (byteData data) =
      (.success, ⟨⟨R.store s.regs registerOffset data, registerOffset + 1, false, none, false⟩,
        true⟩) := by
  have h : writeTransaction (camera R r) s trdbD5mI2cAddress registerOffset (byteData data) =
      (.success, ⟨⟨R.store s.regs registerOffset (wordData (byteData data)), registerOffset + 1,
        false, none, false⟩, true⟩) := rfl
  rw [h, wordData_byteData]

/-- `trdb_d5m_read` fetches it. -/
theorem read_camera (s : Camera ρ) (registerOffset : BitVec 8) :
    readTransaction (camera R r) s trdbD5mI2cAddress registerOffset [0, 0] =
      ((.success, byteData (R.fetch s.regs registerOffset)),
        ⟨⟨s.regs, registerOffset + 1, false, none, false⟩, true⟩) := rfl

/-! ## Settings that are kept -/

/-- The registers after a list of settings. -/
def stored (R : Registers ρ) (regs : ρ) (table : List (BitVec 8 × BitVec 16)) : ρ :=
  table.foldl (fun regs entry => R.store regs entry.1 entry.2) regs

/-- Every setting reads back as it was written. -/
def readsBack (R : Registers ρ) (regs : ρ) : List (BitVec 8 × BitVec 16) → Bool
  | [] => true
  | (registerOffset, data) :: rest =>
    R.fetch (R.store regs registerOffset data) registerOffset == data &&
      readsBack R (R.store regs registerOffset data) rest

/-- `Write_and_Read_I2C` tells whether a register holds what was written to it. -/
theorem writeAndRead_camera (s : Camera ρ) (registerOffset : BitVec 8) (data : BitVec 16) :
    writeAndRead (camera R r) s registerOffset data =
      (R.fetch (R.store s.regs registerOffset data) registerOffset == data,
        ⟨⟨R.store s.regs registerOffset data, registerOffset + 1, false, none, false⟩, true⟩) := by
  simp only [writeAndRead, readWord, write_camera, read_camera, wordData_byteData]
  rfl

theorem writesAndReads_camera (table : List (BitVec 8 × BitVec 16)) (success : Bool)
    (l : Left (Camera ρ)) :
    (writesAndReads (camera R r) success l table).1 =
        (success && readsBack R l.state.regs table) ∧
      (writesAndReads (camera R r) success l table).2.state.regs = stored R l.state.regs table := by
  induction table generalizing success l with
  | nil => simp [writesAndReads, readsBack, stored]
  | cons entry rest ih =>
    obtain ⟨hok, hregs⟩ := ih (success && (writeAndRead (camera R r) l.state entry.1 entry.2).1)
      (writeAndRead (camera R r) l.state entry.1 entry.2).2
    unfold writesAndReads
    refine ⟨?_, ?_⟩
    · rw [hok, writeAndRead_camera, readsBack, Bool.and_assoc]
    · rw [hregs, writeAndRead_camera]
      rfl

/-- A memory: a register holds what was written to it last. -/
def Registers.Holds (R : Registers ρ) : Prop :=
  ∀ regs i data j, R.fetch (R.store regs i data) j = if j = i then data else R.fetch regs j

theorem readsBack_holds (hR : R.Holds) (table : List (BitVec 8 × BitVec 16)) (regs : ρ) :
    readsBack R regs table = true := by
  induction table generalizing regs with
  | nil => rfl
  | cons entry rest ih => simp [readsBack, hR _ _ _ _, ih]

/-- Settings of different registers do not disturb one another. -/
theorem stored_holds (hR : R.Holds) (table : List (BitVec 8 × BitVec 16)) (regs : ρ)
    (hnodup : (table.map Prod.fst).Nodup) (i : BitVec 8) :
    R.fetch (stored R regs table) i = (table.lookup i).getD (R.fetch regs i) := by
  induction table generalizing regs with
  | nil => rfl
  | cons entry rest ih =>
    rw [List.map_cons, List.nodup_cons] at hnodup
    show R.fetch (stored R (R.store regs entry.1 entry.2) rest) i = _
    rw [ih _ hnodup.2, hR, List.lookup_cons]
    by_cases hi : i = entry.1
    · subst hi
      have hnone : rest.lookup entry.1 = none := by
        rw [List.lookup_eq_none_iff]
        intro p hp
        simp only [bne_iff_ne, ne_eq]
        intro heq
        exact hnodup.1 (List.mem_map.mpr ⟨p, hp, heq.symm⟩)
      simp [hnone]
    · simp [hi, beq_eq_false_iff_ne.mpr hi]

theorem configuration_camera (lcdConnected : Bool) :
    (configuration (camera R r) lcdConnected).1 =
        (R.fetch r 0, readsBack R r (settings lcdConnected)) ∧
      (configuration (camera R r) lcdConnected).2.state.regs =
        stored R r (settings lcdConnected) := by
  have hversion : readWord (camera R r) (camera R r).init 0 0 =
      ((true, R.fetch r 0), ⟨⟨r, 1, false, none, false⟩, true⟩) := by
    simp only [readWord, read_camera, wordData_byteData]
    rfl
  unfold configuration
  rw [hversion]
  obtain ⟨hok, hregs⟩ := writesAndReads_camera (R := R) (r := r) (settings lcdConnected) true
    ⟨⟨r, 1, false, none, false⟩, true⟩
  exact ⟨congrArg (Prod.mk _) (hok.trans (Bool.true_and _)), hregs⟩

theorem settings_nodup (lcdConnected : Bool) :
    ((settings lcdConnected).map Prod.fst).Nodup := by
  cases lcdConnected <;> decide

variable (R r) in
/-- **The configuration holds.**  With registers that keep their values `Camera_Configuration`
succeeds, and the camera has the ten settings and is otherwise as it was. -/
theorem configuration_holds (hR : R.Holds) (lcdConnected sclIn sdaIn : Bool)
    (inp : Nat → Timing Bool) (n : Nat) (b : BitVec 16 × Bool)
    (hret : ((computer (camera R r).device (cameraConfiguration lcdConnected) sclIn sdaIn).run
      inp n).1.prog = .ret b) :
    b = (R.fetch r 0, true) ∧
      ∀ i, R.fetch ((camera R r).device.after ((computer (camera R r).device
          (cameraConfiguration lcdConnected) sclIn sdaIn).run inp n).2.log).state.regs i =
        ((settings lcdConnected).lookup i).getD (R.fetch r i) := by
  obtain ⟨hb, hstate, -⟩ :=
    (finishes_on_bus (configuration_finishes (camera R r) lcdConnected) sclIn sdaIn inp).1 n b hret
  obtain ⟨hresult, hregs⟩ := configuration_camera (R := R) (r := r) lcdConnected
  refine ⟨?_, fun i => ?_⟩
  · rw [hb, hresult, readsBack_holds hR]
  · rw [hstate, hregs]
    exact stored_holds hR _ r (settings_nodup lcdConnected) i

variable (R r) in
/-- **`Test_i2c` returns `false` exactly if register 10 holds what is written to it**, and `true`
otherwise: it is a `bool` for `EXIT_SUCCESS` and `EXIT_FAILURE`. -/
theorem testI2c_tells (sclIn sdaIn : Bool) (inp : Nat → Timing Bool) (n : Nat) (b : Bool)
    (hret : ((computer (camera R r).device testI2c sclIn sdaIn).run inp n).1.prog = .ret b) :
    b = false ↔ R.fetch (R.store r 10 23) 10 = 23 := by
  obtain ⟨hb, -⟩ := (finishes_on_bus (testI2c_finishes (camera R r)) sclIn sdaIn inp).1 n b hret
  have hread := congrArg Prod.fst (writeAndRead_camera (R := R) (r := r) (camera R r).init 10 23)
  rw [hb, hread, Bool.not_eq_false']
  exact beq_iff_eq

end Cameras

/-- Registers that are a memory. -/
def memory : Registers (BitVec 8 → BitVec 16) where
  store regs i data := Function.update regs i data
  fetch regs i := regs i

theorem memory_holds : memory.Holds := fun regs i data j => Function.update_apply regs i data j

theorem configuration_holds_memory : ∃ n b,
    ((computer (camera memory fun _ => 0).device (cameraConfiguration true) true true).run
      (fun _ => ⟨true, false⟩) n).1.prog = .ret b ∧ b = (0, true) ∧
      ∀ i, memory.fetch ((camera memory fun _ => 0).device.after
          ((computer (camera memory fun _ => 0).device (cameraConfiguration true) true true).run
            (fun _ => ⟨true, false⟩) n).2.log).state.regs i =
        ((settings true).lookup i).getD 0 := by
  obtain ⟨n, hn⟩ := (finishes_on_bus (configuration_finishes (camera memory fun _ => 0) true)
    true true fun _ => ⟨true, false⟩).2 fun n => ⟨n, le_rfl, rfl⟩
  exact ⟨n, _, hn, configuration_holds memory (fun _ => 0) memory_holds true true true _ n _ hn⟩

end CameraLcd.I2c
