import CameraLcd.Software.LcdDriver
import CameraLcd.Lcd.Progress

/-!
# `LCD_Configuration`, from reset to the display

`LCD_Configuration` on `Full_LCD_Entity`.  The processor may take any time between two accesses.

* `panel_succ` — one cycle of both, on the description.
* `requested` — the one cycle in which the display is asked for.
* `strobed` — up to then the words on the LCD bus are those the entity was asked for.
* `configuration_displays` — the calls return, the LCD has got the settings, each word once and in
  order, and then sessions begin and end for ever, each with a buffer at the address written.
-/

set_option autoImplicit false

namespace CameraLcd.LcdSetup

open Clocked RegisterProgram LcdDriver
open FullLcd (PixelFifo)
open Handshake (Call Stage)
open LcdControl (Strobe memoryWrite)

section Setup

variable (F : PixelFifo) (startAdd lengthBuffer : BitVec 32) (calls : List Call)
  (rd : BitVec 32) (inp : Nat → Timing Env)

/-- The processor and the entity in cycle `n`, from reset on. -/
abbrev runAt (n : Nat) : Cpu (BitVec 3) 32 Unit × (LcdEntity.Regs F × List Strobe) :=
  (platform (entity F) (configuration startAdd lengthBuffer calls)
    ((LcdEntity.machine F rd).init, [])).run inp n

/-- What the entity sees. -/
def entityRun (n : Nat) : LcdEntity.Inputs :=
  entityInputs (avalon ((runAt F startAdd lengthBuffer calls rd inp n).1.access (inp n).go))
    (inp n).env

/-- What the controller, the DMA and the FIFO see. -/
abbrev lcdRun (n : Nat) : FullLcd.Inputs :=
  LcdEntity.lcdStream F rd (entityRun F startAdd lengthBuffer calls rd inp) n

theorem entity_eq (n : Nat) : (runAt F startAdd lengthBuffer calls rd inp n).2.1 =
    LcdEntity.regs F rd (entityRun F startAdd lengthBuffer calls rd inp) n := by
  induction n with
  | zero => rfl
  | succ n ih =>
    have hstep : (runAt F startAdd lengthBuffer calls rd inp (n + 1)).2.1 =
        LcdEntity.step (runAt F startAdd lengthBuffer calls rd inp n).2.1
          (entityRun F startAdd lengthBuffer calls rd inp n) := rfl
    rw [hstep, ih]
    rfl

theorem lcdRun_eq (n : Nat) : lcdRun F startAdd lengthBuffer calls rd inp n =
    LcdEntity.lcdInputs (runAt F startAdd lengthBuffer calls rd inp n).2.1
      (entityRun F startAdd lengthBuffer calls rd inp n) := by
  rw [entity_eq]
  rfl

theorem lcd_eq (n : Nat) : (runAt F startAdd lengthBuffer calls rd inp n).2.1.lcd =
    FullLcd.regs F (lcdRun F startAdd lengthBuffer calls rd inp) n := by
  rw [entity_eq, LcdEntity.regs_lcd]

/-- The panel after `LCD_Configuration`. -/
def configured : Panel := ⟨startAdd, lengthBuffer, 0x2C, calls.map Call.strobe, .display⟩

/-- The display is asked for in cycle `n`. -/
structure Asks (n : Nat) : Prop where
  before : ∀ k, k ≤ n →
    (runAt F startAdd lengthBuffer calls rd inp k).2.1.slave.regStateCommandData ≠ 3
  after : (runAt F startAdd lengthBuffer calls rd inp (n + 1)).2.1.slave.regStateCommandData = 3

end Setup

/-! ## One cycle -/

section Cycle

variable {F : PixelFifo} {startAdd lengthBuffer : BitVec 32} {calls : List Call}
  {rd : BitVec 32} {inp : Nat → Timing Env}

theorem disciplined_write {t t' : Panel} {h : LcdEntity.Regs F × List Strobe} (hf : Follows t h)
    {x : BitVec 3} {d : BitVec 32} (hw : t.write x d = some t') :
    LcdEntity.Disciplined h.1 (avalon (.write x d)) := by
  constructor
  · intro hx
    exact hf.idle_reads (Panel.write_idle hw (.inl (by simpa [avalon] using hx)))
  · intro hx
    exact .inl (hf.idle_reads (Panel.write_idle hw (.inr (by simpa [avalon] using hx))))

theorem word_strobed {ws log : List Strobe} {s : LcdEntity.Regs F} {i : LcdEntity.Inputs}
    {st : Stage} (h : LcdDriver.At ws log s st) {j : FullLcd.Inputs}
    (hj : j.commandData = s.slave.regCommandData) :
    FullLcd.strobeNext s.lcd (LcdEntity.lcdInputs s i) j = wordNext s := by
  have hstates : LcdControl.writing s.lcd.control.state = true →
      s.lcd.control.state = .command ∨ s.lcd.control.state = .data := by
    intro hw
    cases h with
    | writing c _ _ _ _ hctl => exact hctl ▸ Call.state_cases c
    | rest _ _ _ hctl | requested _ _ _ _ hctl | seen _ _ _ hctl | checking _ _ _ _ hctl
      | done1 _ _ _ hctl | done2 _ _ hctl | done3 _ _ hctl =>
      rw [hctl] at hw
      cases hw
  by_cases hw : LcdControl.writing s.lcd.control.state = true ∧ s.lcd.control.counterTime = 3
  · obtain ⟨hw, ht⟩ := hw
    have hstep : (FullLcd.step s.lcd (LcdEntity.lcdInputs s i)).control = _ :=
      LcdControl.clock_writing (FullLcd.controlInputs s.lcd (LcdEntity.lcdInputs s i)) hw (by omega)
    rw [FullLcd.strobeNext, LcdControl.strobeNext_some hw ht, wordNext, if_pos ⟨hstates hw, ht⟩,
      hstep]
    rcases hstates hw with hc | hc
    · simp [LcdControl.pins, hc, LcdControl.writePins, FullLcd.controlInputs, hj, ht]
    · simp [LcdControl.pins, hc, LcdControl.writePins, FullLcd.controlInputs, hj, ht]
  · rw [FullLcd.strobeNext, LcdControl.strobeNext_none hw, wordNext, if_neg]
    rintro ⟨hc, ht⟩
    refine hw ⟨?_, ht⟩
    rcases hc with hc | hc
    · rw [hc]
      rfl
    · rw [hc]
      rfl

variable (hplain : ∀ c ∈ calls, Plain c)

include hplain

variable (F startAdd lengthBuffer rd inp) in
theorem panel_succ (n : Nat) : ∃ t, Follows t (runAt F startAdd lengthBuffer calls rd inp n).2 ∧
    (t.phase = .display → configured startAdd lengthBuffer calls = t) ∧
    LcdEntity.Disciplined (runAt F startAdd lengthBuffer calls rd inp n).2.1
      (entityRun F startAdd lengthBuffer calls rd inp n).avs ∧
    (Follows t (runAt F startAdd lengthBuffer calls rd inp (n + 1)).2 ∨
      ∃ x d t', (runAt F startAdd lengthBuffer calls rd inp n).1.access (inp n).go = .write x d ∧
        t.write x d = some t' ∧
        Follows t' (runAt F startAdd lengthBuffer calls rd inp (n + 1)).2 ∧
        (t'.phase = .display → configured startAdd lengthBuffer calls = t')) := by
  have hstands := run_exec inp (entity_simulates F) (follows_reset F rd)
    (configuration_exec startAdd lengthBuffer hplain) trivial n
  have hnext : (runAt F startAdd lengthBuffer calls rd inp (n + 1)).2 = (entity F).step
      (runAt F startAdd lengthBuffer calls rd inp n).2
      ((runAt F startAdd lengthBuffer calls rd inp n).1.access (inp n).go) (inp n).env := rfl
  rw [hnext, entityRun]
  cases ha : (runAt F startAdd lengthBuffer calls rd inp n).1.access (inp n).go with
  | none | read x =>
    obtain ⟨t, hex, hf, -⟩ := hstands
    exact ⟨t, hf, exec_displaying hex, .silent rfl rfl, .inl (hf.keep fun _ => rfl)⟩
  | write x d =>
    obtain ⟨t, t', hf, hw, q, hex⟩ := hstands.writes ha
    exact ⟨t, hf, fun hp => absurd hp (Panel.write_phase hw), disciplined_write hf hw,
      .inr ⟨x, d, t', rfl, hw, hf.write hw, exec_displaying hex⟩⟩

/-! ## The request for the display -/

theorem display_stays {n m : Nat} (hm : n ≤ m)
    (h3 : (runAt F startAdd lengthBuffer calls rd inp n).2.1.slave.regStateCommandData = 3) :
    Follows (configured startAdd lengthBuffer calls)
      (runAt F startAdd lengthBuffer calls rd inp m).2 := by
  induction m, hm using Nat.le_induction with
  | base =>
    obtain ⟨t, hf, hfin, -⟩ := panel_succ F startAdd lengthBuffer rd inp hplain n
    rw [hfin (hf.display_iff.mp h3)]
    exact hf
  | succ m _ ih =>
    obtain ⟨t, hf, hfin, -, hnext⟩ := panel_succ F startAdd lengthBuffer rd inp hplain m
    have hp := hf.display_iff.mp (ih.display_iff.mpr rfl)
    rcases hnext with hsame | ⟨x, d, t', -, hw, -⟩
    · rw [hfin hp]
      exact hsame
    · exact absurd hp (Panel.write_phase hw)

/-- **The cycle of the request**: all words have been strobed, and the controller is at rest. -/
theorem requested {n : Nat} (h : Asks F startAdd lengthBuffer calls rd inp n) :
    (runAt F startAdd lengthBuffer calls rd inp (n + 1)).2.2 = calls.map Call.strobe ∧
      (runAt F startAdd lengthBuffer calls rd inp (n + 1)).2.1.lcd.control.state = .init ∧
      (runAt F startAdd lengthBuffer calls rd inp (n + 1)).2.1.slave.stateCommandData = 0 := by
  obtain ⟨t, hf, -, -, hsame | ⟨x, d, t', ha, hw, hf', hfin⟩⟩ :=
    panel_succ F startAdd lengthBuffer rd inp hplain n
  · exact absurd (hf.display_iff.mpr (hsame.display_iff.mp h.after)) (h.before n le_rfl)
  · have hp' := hf'.display_iff.mp h.after
    have hwords : calls.map Call.strobe = t'.words := congrArg Panel.words (hfin hp')
    obtain ⟨rfl, hd, hp, hmw, rfl⟩ := Panel.write_display hw hp'
    have hin := hf.request
    unfold InPhase at hin
    rw [hp] at hin
    obtain ⟨hat, hdata⟩ := hin
    have havs : (entityRun F startAdd lengthBuffer calls rd inp n).avs =
        LcdSlave.writeAccess 1 d := by
      rw [entityRun, ha]
      rfl
    obtain ⟨-, hinit, hzero⟩ := rest_display hat (hdata ▸ hmw) hd havs
    refine ⟨?_, hinit, hzero⟩
    have hlog : (runAt F startAdd lengthBuffer calls rd inp (n + 1)).2.2 =
        (runAt F startAdd lengthBuffer calls rd inp n).2.2 ++
          wordNext (runAt F startAdd lengthBuffer calls rd inp n).2.1 := rfl
    cases hat with
    | rest hws _ _ hctl =>
      rw [hlog, wordNext_nil (by simp [hctl]), hws, hwords]

/-- **The words on the LCD bus** are those of the record, up to the request for the display. -/
theorem strobed (n : Nat) (hbefore : ∀ k < n,
      (runAt F startAdd lengthBuffer calls rd inp k).2.1.slave.regStateCommandData ≠ 3) :
    collect (LcdControl.strobe (FullLcd.pinsAt F (lcdRun F startAdd lengthBuffer calls rd inp))) 0
      (n + 1) = (runAt F startAdd lengthBuffer calls rd inp n).2.2 := by
  induction n with
  | zero => rfl
  | succ n ih =>
    obtain ⟨t, hf, -⟩ := panel_succ F startAdd lengthBuffer rd inp hplain n
    obtain ⟨st, hat⟩ := hf.request.stage fun hp =>
      hbefore n (Nat.lt_succ_self n) (hf.display_iff.mpr hp)
    rw [collect_succ _ (Nat.zero_le _), ih fun k hk => hbefore k (by omega), FullLcd.strobe_succ,
      ← lcd_eq, lcdRun_eq F startAdd lengthBuffer calls rd inp n, word_strobed hat]
    · rfl
    · rw [lcdRun_eq]
      rfl

theorem first_start {n : Nat} (h : Asks F startAdd lengthBuffer calls rd inp n) :
    (runAt F startAdd lengthBuffer calls rd inp (n + 2)).2.1.lcd.control.state = .init ∧
      FullLcd.Starts F (lcdRun F startAdd lengthBuffer calls rd inp) (n + 3) := by
  obtain ⟨-, hinit, hzero⟩ := requested hplain h
  have hshows := (display_stays hplain (Nat.le_succ (n + 1)) h.after).request.1
  have hinit2 : (runAt F startAdd lengthBuffer calls rd inp (n + 2)).2.1.lcd.control.state =
      .init := init_rests (i := entityRun F startAdd lengthBuffer calls rd inp (n + 1)) hinit hzero
  obtain ⟨hstate, htime⟩ := init_shows (i := entityRun F startAdd lengthBuffer calls rd inp (n + 2))
    hinit2 h.after
  refine ⟨hinit2, ?_, ?_, ?_⟩
  · rw [← lcd_eq]
    exact hstate
  · rw [← lcd_eq]
    exact htime
  · rw [lcdRun_eq]
    exact hshows.command

/-! ## What the other entities see -/

theorem programmed {n k : Nat} (h : Asks F startAdd lengthBuffer calls rd inp n)
    (hk : n + 3 ≤ k) :
    (lcdRun F startAdd lengthBuffer calls rd inp k).startAdd = startAdd ∧
      (lcdRun F startAdd lengthBuffer calls rd inp k).lengthBuffer = lengthBuffer ∧
      (lcdRun F startAdd lengthBuffer calls rd inp k).stateCommandData = 3 ∧
      memoryWrite (lcdRun F startAdd lengthBuffer calls rd inp k).commandData = true := by
  obtain ⟨j, rfl⟩ : ∃ j, k = j + 1 := ⟨k - 1, by omega⟩
  have hfollows := display_stays hplain (show n + 1 ≤ j by omega) h.after
  rw [lcdRun_eq]
  exact ⟨hfollows.startAdd, hfollows.lengthBuffer, hfollows.request.1.state,
    hfollows.request.1.command⟩

variable (F startAdd lengthBuffer rd inp) in
theorem undisturbed (n : Nat) :
    FullLcd.Undisturbed (FullLcd.regs F (lcdRun F startAdd lengthBuffer calls rd inp) n)
      (lcdRun F startAdd lengthBuffer calls rd inp n)
      (lcdRun F startAdd lengthBuffer calls rd inp (n + 1)) := by
  have hcpu : ∀ k < n, LcdEntity.Disciplined
      (LcdEntity.regs F rd (entityRun F startAdd lengthBuffer calls rd inp) k)
      (entityRun F startAdd lengthBuffer calls rd inp k).avs := by
    intro k _
    obtain ⟨-, -, -, hdisciplined, -⟩ := panel_succ F startAdd lengthBuffer rd inp hplain k
    rw [← entity_eq]
    exact hdisciplined
  rw [← LcdEntity.regs_lcd]
  exact (LcdEntity.held_run n hcpu).undisturbed

/-- **From the request on** sessions begin and end for ever, each with a buffer at the address
written. -/
theorem sessions_recur {n : Nat} (h : Asks F startAdd lengthBuffer calls rd inp n)
    (haccepts : Recurs fun k => !(inp k).env.avmWaitRequest)
    (hbeats : Recurs fun k => (inp k).env.beat)
    (hsaved : ∀ k, (inp k).env.bufferSaved.toNat ≤ 2) (hpos : 0 < lengthBuffer.toNat)
    (hbursts : lengthBuffer.toNat % 64 = 0) (hsmall : lengthBuffer.toNat < 0x40000000) (m : Nat) :
    ∃ c e, m ≤ c ∧ n + 3 ≤ c ∧ c + 11 ≤ e ∧
      FullLcd.Starts F (lcdRun F startAdd lengthBuffer calls rd inp) c ∧
      FullLcd.Finishes (FullLcd.regs F (lcdRun F startAdd lengthBuffer calls rd inp) e) ∧
      ∀ memory, FullLcd.Steady F (lcdRun F startAdd lengthBuffer calls rd inp) memory c e →
        FullLcd.shown F (lcdRun F startAdd lengthBuffer calls rd inp) c e =
          FullLcd.screen memory (lcdRun F startAdd lengthBuffer calls rd inp (c + 10)) := by
  have hstart := (first_start hplain h).2
  have hprog := fun k (hk : n + 3 ≤ k) => programmed hplain h hk
  have hcpu := undisturbed F startAdd lengthBuffer rd inp hplain
  have hbus : FullLcd.Answering (lcdRun F startAdd lengthBuffer calls rd inp) :=
    ⟨haccepts, hbeats⟩
  have hcontinuous : FullLcd.Continuous (lcdRun F startAdd lengthBuffer calls rd inp) (n + 3) := by
    refine ⟨fun k hk => (hprog k hk).2.2.1, fun k hk => (hprog k hk).2.2.2, fun k hk => ?_⟩
    constructor
    · rwa [(hprog k hk).2.1]
    · rwa [(hprog k hk).2.1]
    · rwa [(hprog k hk).2.1]
    · exact hsaved k
  obtain ⟨c, hmc, hc, hs⟩ := FullLcd.starts_recur hstart hcontinuous hcpu hbus m
  have hvalid := hcontinuous.valid (c + 10) (by omega)
  obtain ⟨e, he, hf, hopen⟩ := FullLcd.session_ends hs hvalid hcpu hbus
  refine ⟨c, e, hmc, hc, he, hs, hf, ?_⟩
  intro memory hsteady
  exact (FullLcd.shows_shared hs (by omega) hvalid (fun k _ => hcpu k) hopen hsteady).2 hf

/-- **At the request** the words of the calls have been strobed, and nothing follows up to the
first session. -/
theorem calls_strobed {n : Nat} (h : Asks F startAdd lengthBuffer calls rd inp n) :
    collect (LcdControl.strobe (FullLcd.pinsAt F (lcdRun F startAdd lengthBuffer calls rd inp))) 0
      (n + 3 + 1) = calls.map Call.strobe := by
  obtain ⟨hwords, hinit, -⟩ := requested hplain h
  have hinit2 := (first_start hplain h).1
  have hsilent : ∀ k, (runAt F startAdd lengthBuffer calls rd inp k).2.1.lcd.control.state =
      .init → (LcdControl.strobe (FullLcd.pinsAt F
        (lcdRun F startAdd lengthBuffer calls rd inp)) (k + 1)).toList = [] := by
    intro k hk
    rw [FullLcd.strobe_succ, FullLcd.strobeNext_none]
    rw [← lcd_eq, hk]
    rintro ⟨hw, -⟩
    cases hw
  rw [collect_succ _ (Nat.zero_le _), collect_succ _ (Nat.zero_le _),
    strobed hplain (n + 1) fun k hk => h.before k (by omega), hwords, hsilent _ hinit,
    hsilent _ hinit2, List.append_nil, List.append_nil]

variable (hfair : Recurs fun k => (inp k).go)

include hfair

variable (F startAdd lengthBuffer rd) in
theorem returns : ∃ m, (runAt F startAdd lengthBuffer calls rd inp m).1.prog = .ret () :=
  run_returns hfair (entity_simulates F) (entity_settles F) (follows_reset F rd)
    (configuration_exec startAdd lengthBuffer hplain) trivial

variable (F startAdd lengthBuffer rd) in
theorem asks_exists : ∃ n, Asks F startAdd lengthBuffer calls rd inp n := by
  obtain ⟨m, hret⟩ := returns F startAdd lengthBuffer rd hplain hfair
  obtain ⟨-, hend⟩ := run_ret inp (entity_simulates F) (follows_reset F rd)
    (configuration_exec startAdd lengthBuffer hplain) trivial hret
  have hasked : ∃ n,
      (runAt F startAdd lengthBuffer calls rd inp n).2.1.slave.regStateCommandData = 3 :=
    ⟨m, hend.display_iff.mpr rfl⟩
  cases hfirst : Nat.find hasked with
  | zero =>
    have hzero := Nat.find_spec hasked
    rw [hfirst] at hzero
    have hreset : ¬ (0 : BitVec 2) = 3 := by decide
    exact absurd hzero hreset
  | succ n =>
    refine ⟨n, fun k hk => Nat.find_min hasked (by omega), ?_⟩
    rw [← hfirst]
    exact Nat.find_spec hasked

end Cycle

/-- **From reset to the display**: `LCD_Configuration` returns at any timing of a processor that
keeps going; the LCD has then got the words of its calls, each once and in order, and a session
begins.  If the bus keeps answering, sessions of a valid buffer begin and end for ever, and show the
buffer at the address written. -/
theorem configuration_displays (F : PixelFifo) (startAdd lengthBuffer : BitVec 32)
    (calls : List Call) (rd : BitVec 32) (inp : Nat → Timing Env)
    (hplain : ∀ c ∈ calls, Plain c) (hfair : Recurs fun k => (inp k).go) :
    (∃ m, (runAt F startAdd lengthBuffer calls rd inp m).1.prog = .ret ()) ∧
      ∃ c0, collect (LcdControl.strobe
            (FullLcd.pinsAt F (lcdRun F startAdd lengthBuffer calls rd inp))) 0 (c0 + 1) =
          calls.map Call.strobe ∧
        (∀ k, c0 ≤ k → (lcdRun F startAdd lengthBuffer calls rd inp k).startAdd = startAdd ∧
          (lcdRun F startAdd lengthBuffer calls rd inp k).lengthBuffer = lengthBuffer) ∧
        FullLcd.Starts F (lcdRun F startAdd lengthBuffer calls rd inp) c0 ∧
        ((Recurs fun k => !(inp k).env.avmWaitRequest) → (Recurs fun k => (inp k).env.beat) →
          (∀ k, (inp k).env.bufferSaved.toNat ≤ 2) → 0 < lengthBuffer.toNat →
          lengthBuffer.toNat % 64 = 0 → lengthBuffer.toNat < 0x40000000 →
          ∀ m, ∃ c n, m ≤ c ∧ c0 ≤ c ∧ c + 11 ≤ n ∧
            FullLcd.Starts F (lcdRun F startAdd lengthBuffer calls rd inp) c ∧
            FullLcd.Finishes
              (FullLcd.regs F (lcdRun F startAdd lengthBuffer calls rd inp) n) ∧
            ∀ memory, FullLcd.Steady F (lcdRun F startAdd lengthBuffer calls rd inp) memory c n →
              FullLcd.shown F (lcdRun F startAdd lengthBuffer calls rd inp) c n =
                FullLcd.screen memory
                  (lcdRun F startAdd lengthBuffer calls rd inp (c + 10))) := by
  obtain ⟨n0, hasks⟩ := asks_exists F startAdd lengthBuffer rd hplain hfair
  refine ⟨returns F startAdd lengthBuffer rd hplain hfair, n0 + 3, calls_strobed hplain hasks, ?_,
    (first_start hplain hasks).2, ?_⟩
  · intro k hk
    obtain ⟨hadd, hlength, -⟩ := programmed hplain hasks hk
    exact ⟨hadd, hlength⟩
  · intro haccepts hbeats hsaved hpos hbursts hsmall m
    exact sessions_recur hplain hasks haccepts hbeats hsaved hpos hbursts hsmall m

/-- A processor with an access every third cycle, and a memory that always answers. -/
def leisurely (n : Nat) : Timing Env := ⟨n % 3 == 0, ⟨0, false, true, fun a => a⟩⟩

/-- The call in `main`: the settings of the LCD, and buffers of 240 rows of 160 words. -/
theorem configuration_displays_lcdConfiguration :
    (∃ m, ((platform (entity LcdEntity.idealFifo) lcdConfiguration
        ((LcdEntity.machine LcdEntity.idealFifo 0).init, [])).run leisurely m).1.prog = .ret ()) ∧
      ∃ c0, collect (LcdControl.strobe (FullLcd.pinsAt LcdEntity.idealFifo
            (lcdRun LcdEntity.idealFifo 0 153600 settingCalls 0 leisurely))) 0 (c0 + 1) =
          settingCalls.map Call.strobe ∧
        ∀ m, ∃ c n, m ≤ c ∧ c0 ≤ c ∧ c + 11 ≤ n ∧
          FullLcd.Finishes (FullLcd.regs LcdEntity.idealFifo
            (lcdRun LcdEntity.idealFifo 0 153600 settingCalls 0 leisurely) n) := by
  have hfair : Recurs fun k => (leisurely k).go := by
    intro n
    refine ⟨3 * n, by omega, ?_⟩
    simp [leisurely]
  have halways : Recurs fun _ => true := fun n => ⟨n, Nat.le_refl n, rfl⟩
  obtain ⟨hret, c0, hwords, -, -, hsessions⟩ := configuration_displays LcdEntity.idealFifo 0 153600
    settingCalls 0 leisurely (by decide) hfair
  refine ⟨hret, c0, hwords, fun m => ?_⟩
  obtain ⟨c, n, hm, hc, hn, -, hf, -⟩ :=
    hsessions halways halways (fun _ => Nat.zero_le 2) (by decide) (by decide) (by decide) m
  exact ⟨c, n, hm, hc, hn, hf⟩

end CameraLcd.LcdSetup
