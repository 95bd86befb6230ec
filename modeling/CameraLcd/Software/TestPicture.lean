import CameraLcd.Software.LcdSetup
import CameraLcd.Software.MemoryTest

/-!
# `Fill_Memory_RGBG`: the test picture

The loop that fills the first buffer before the display is asked for, and what the LCD shows then.

* `fill` — the loop of `Fill_Memory` and `Fill_Memory_RGBG`: every word is written and read back.
* `fill_exec` — it finds no error, and leaves the words it has written and the others as they were.
* `stripes_shown` — the sessions of `LCD_Configuration` show the stripes.  The word in the middle
  belongs to no branch but the last one, so that the green stripe has two pixels of the blue one.
-/

set_option autoImplicit false

namespace CameraLcd.TestPicture

open Clocked RegisterProgram
open FullLcd (PixelFifo)
open Handshake (Call)
open LcdDriver (Plain)
open LcdSetup (lcdRun)
open MemoryTest (Memory Driver Wiring ram cells ram_simulates ram_settles)

/-- A word is written and read back; the result is the number of lines `Error !`. -/
def writeVerified (i color : BitVec 32) : Driver Nat :=
  .write i color (.read i fun verif => .ret (if verif ≠ color then 1 else 0))

/-- `for (i = …; i < stop; i += 4)`. -/
def fill (color : Nat → BitVec 32) (stop i : Nat) : Driver Nat :=
  if i < stop then do
    let error ← writeVerified (BitVec.ofNat 32 i) (color i)
    let errors ← fill color stop (i + 4)
    return error + errors
  else return 0
termination_by stop - i

def lengthBuffer : Nat := 160 * 240 * 4

def red : BitVec 32 := 0xF800F800
def blue : BitVec 32 := 0x001F001F
def green : BitVec 32 := 0x07E007E0

/-- `Fill_Memory`. -/
def fillMemory (start stop : Nat) (color : BitVec 32) : Driver Nat :=
  fill (fun _ => color) stop start

/-- The four branches of `Fill_Memory_RGBG`; the comparisons with the bounds are strict. -/
def rgbg (i : Nat) : BitVec 32 :=
  if i < lengthBuffer / 4 then red
  else if i > lengthBuffer / 4 ∧ i < lengthBuffer / 2 then green
  else if i > lengthBuffer / 2 ∧ i < 3 * lengthBuffer / 4 then blue
  else green

/-- `Fill_Memory_RGBG`. -/
def fillMemoryRGBG : Driver Nat := fill rgbg lengthBuffer 0

/-! ## What the loop leaves -/

/-- The memory after the loop. -/
def filled (color : Nat → BitVec 32) (stop i : Nat) (m : Memory) : Memory := fun x =>
  if i ≤ x.toNat ∧ x.toNat < stop ∧ (x.toNat - i) % 4 = 0 then color x.toNat else m x

variable {color : Nat → BitVec 32} {stop i : Nat}

theorem filled_update (hi : i < stop) (hstop : stop ≤ 0x100000000) (m : Memory) :
    filled color stop (i + 4) (Function.update m (BitVec.ofNat 32 i) (color i)) =
      filled color stop i m := by
  funext x
  have haddress : (BitVec.ofNat 32 i).toNat = i := by
    rw [BitVec.toNat_ofNat, Nat.mod_eq_of_lt (by omega)]
  unfold filled
  by_cases hx : x.toNat = i
  · have heq : x = BitVec.ofNat 32 i := BitVec.eq_of_toNat_eq (by rw [hx, haddress])
    rw [if_neg (by omega), if_pos (by omega), heq, Function.update_self, haddress]
  · have hne : x ≠ BitVec.ofNat 32 i := by
      intro heq
      exact hx (by rw [heq, haddress])
    have hiff : (i + 4 ≤ x.toNat ∧ x.toNat < stop ∧ (x.toNat - (i + 4)) % 4 = 0) ↔
        (i ≤ x.toNat ∧ x.toNat < stop ∧ (x.toNat - i) % 4 = 0) := by omega
    simp only [hiff, Function.update_of_ne hne]

/-- **The loop** writes the words from `i` on, reads all of them back, and nothing else. -/
theorem fill_exec (hstop : stop ≤ 0x100000000) (m : Memory) :
    exec (cells .sound) (fill color stop i) m = some (0, filled color stop i m) := by
  induction i using fill.induct stop generalizing m with
  | case1 i hi ih =>
    have hword : exec (cells .sound) (writeVerified (BitVec.ofNat 32 i) (color i)) m =
        some (0, Function.update m (BitVec.ofNat 32 i) (color i)) := by
      simp [writeVerified, exec, cells, Wiring.sound]
    unfold fill
    rw [if_pos hi, exec_seq _ hword, exec_seq _ (ih _), exec_pure, filled_update hi hstop]
  | case2 i hi =>
    unfold fill
    rw [if_neg hi, exec_pure]
    congr 2
    funext x
    rw [filled, if_neg (by omega)]

/-- **The loop comes to its end** without an error, at any timing. -/
theorem fill_returns {inp : Nat → Timing Unit} (hfair : Recurs fun k => (inp k).go)
    (hstop : stop ≤ 0x100000000) (m : Memory) (data : BitVec 32) :
    ∃ e, ((platform (ram .sound) (fill color stop i) (m, data)).run inp e).1.prog = .ret 0 ∧
      ((platform (ram .sound) (fill color stop i) (m, data)).run inp e).2.1 =
        filled color stop i m := by
  obtain ⟨e, hret⟩ := run_returns hfair (ram_simulates .sound) (ram_settles .sound)
    (h := (m, data)) rfl (fill_exec hstop m) trivial
  exact ⟨e, hret, (run_ret inp (ram_simulates _) rfl (fill_exec hstop m) trivial hret).2⟩

/-- **`Fill_Memory`** leaves its color in the words from `start` up to `stop`. -/
theorem fillMemory_returns {inp : Nat → Timing Unit} (hfair : Recurs fun k => (inp k).go)
    {start stop : Nat} (hstop : stop ≤ 0x100000000) (color : BitVec 32) (m : Memory)
    (data : BitVec 32) :
    ∃ e, ((platform (ram .sound) (fillMemory start stop color) (m, data)).run inp e).1.prog =
        .ret 0 ∧
      ∀ x, ((platform (ram .sound) (fillMemory start stop color) (m, data)).run inp e).2.1 x =
        if start ≤ x.toNat ∧ x.toNat < stop ∧ (x.toNat - start) % 4 = 0 then color else m x := by
  have hfill : ∃ e,
      ((platform (ram .sound) (fill (fun _ => color) stop start) (m, data)).run inp e).1.prog =
          .ret 0 ∧
        ((platform (ram .sound) (fill (fun _ => color) stop start) (m, data)).run inp e).2.1 =
          filled (fun _ => color) stop start m := fill_returns hfair hstop m data
  obtain ⟨e, hret, hmemory⟩ := hfill
  exact ⟨e, hret, fun x => congrFun hmemory x⟩

/-! ## The stripes -/

/-- The color of pixel `k`. -/
def stripe (k : Nat) : BitVec 16 :=
  if k < 19200 then 0xF800
  else if k < 38402 then 0x07E0
  else if k < 57600 then 0x001F
  else 0x07E0

theorem rgbg_pixel (k : Nat) : (rgbg (4 * (k / 2))).extractLsb' (16 * (k % 2)) 16 = stripe k := by
  have hhalf : ∀ c : BitVec 32, c.extractLsb' 0 16 = c.extractLsb' 16 16 →
      c.extractLsb' (16 * (k % 2)) 16 = c.extractLsb' 0 16 := by
    intro c hc
    rcases Nat.mod_two_eq_zero_or_one k with hk | hk
    · rw [hk]
    · rw [hk, hc]
  unfold rgbg stripe lengthBuffer
  by_cases h1 : k < 19200
  · rw [if_pos (by omega), if_pos h1]
    exact hhalf red (by decide)
  · rw [if_neg (by omega), if_neg h1]
    by_cases h2 : k < 38402
    · rw [if_pos h2, if_neg (show ¬ (4 * (k / 2) > 160 * 240 * 4 / 2 ∧ _) by omega), ite_self]
      exact hhalf green (by decide)
    · rw [if_neg (by omega), if_neg h2]
      by_cases h3 : k < 57600
      · rw [if_pos (by omega), if_pos h3]
        exact hhalf blue (by decide)
      · rw [if_neg (by omega), if_neg h3]
        exact hhalf green (by decide)

/-- The memory after `Fill_Memory_RGBG`. -/
def stripes (m : Memory) : Memory := filled rgbg lengthBuffer 0 m

theorem stripes_pixel (m : Memory) {k : Nat} (hk : k < 76800) :
    FullLcd.pixel (stripes m) 0 k = stripe k := by
  have haddress : (0 + BitVec.ofNat 32 (4 * (k / 2))).toNat = 4 * (k / 2) := by
    simp only [BitVec.ofNat_eq_ofNat, BitVec.zero_add]
    rw [BitVec.toNat_ofNat, Nat.mod_eq_of_lt (by omega)]
  rw [FullLcd.pixel, stripes, filled, haddress, if_pos (by rw [lengthBuffer]; omega), rgbg_pixel]

/-- The picture, with the command that closes a session. -/
def picture : List LcdControl.Strobe :=
  (List.range 76800).map (fun k => (true, stripe k)) ++ [(false, 0x0000)]

theorem screen_stripes (m : Memory) {i : FullLcd.Inputs} (hstart : i.startAdd = 0)
    (hlength : i.lengthBuffer = 153600) (hsaved : i.bufferSaved = 0) :
    FullLcd.screen (stripes m) i = picture := by
  have hbase : FullLcd.base i = 0 := by
    rw [FullLcd.base, hstart, hsaved, hlength]
    rfl
  have hpixels : (List.range 76800).map (fun k => (true, FullLcd.pixel (stripes m) 0 k)) =
      (List.range 76800).map (fun k => (true, stripe k)) := by
    apply List.map_congr_left
    intro k hk
    rw [stripes_pixel m (List.mem_range.mp hk)]
  have hcount : (153600 : BitVec 32).toNat / 2 = 76800 := rfl
  rw [FullLcd.screen, hbase, hlength, hcount, hpixels, picture]

/-- **The test picture**: `Fill_Memory_RGBG` comes to its end without an error, and as long as the
camera has published nothing and the memory holds what the loop has left, the sessions after
`LCD_Configuration` begin and end for ever and show the stripes. -/
theorem stripes_shown (F : PixelFifo) (calls : List Call) (rd : BitVec 32)
    (inp : Nat → Timing LcdDriver.Env) (filling : Nat → Timing Unit) (m0 : Memory)
    (data : BitVec 32) (k0 : Nat) (hplain : ∀ c ∈ calls, Plain c)
    (hfair : Recurs fun k => (inp k).go) (hfilling : Recurs fun k => (filling k).go)
    (haccepts : Recurs fun k => !(inp k).env.avmWaitRequest)
    (hbeats : Recurs fun k => (inp k).env.beat) (hsaved : ∀ k, (inp k).env.bufferSaved = 0)
    (hmemory : ∀ k, k0 ≤ k → (inp k).env.memory = stripes m0) :
    (∃ e, ((platform (ram .sound) fillMemoryRGBG (m0, data)).run filling e).1.prog = .ret 0 ∧
        ((platform (ram .sound) fillMemoryRGBG (m0, data)).run filling e).2.1 = stripes m0) ∧
      ∀ m, ∃ c n, m ≤ c ∧ c + 11 ≤ n ∧
        FullLcd.Starts F (lcdRun F 0 153600 calls rd inp) c ∧
        FullLcd.Finishes (FullLcd.regs F (lcdRun F 0 153600 calls rd inp) n) ∧
        FullLcd.shown F (lcdRun F 0 153600 calls rd inp) c n = picture := by
  refine ⟨fill_returns hfilling (by decide) m0 data, fun m => ?_⟩
  obtain ⟨n0, hasks⟩ := LcdSetup.asks_exists F 0 153600 rd hplain hfair
  have hle : ∀ k, (inp k).env.bufferSaved.toNat ≤ 2 := by
    intro k
    rw [hsaved]
    decide
  obtain ⟨c, n, hc, hc0, hn, hs, hf, hshown⟩ := LcdSetup.sessions_recur hplain hasks haccepts
    hbeats hle (by decide) (by decide) (by decide) (max m k0)
  refine ⟨c, n, by omega, hn, hs, hf, ?_⟩
  have hsteady : FullLcd.Steady F (lcdRun F 0 153600 calls rd inp) (stripes m0) c n := by
    intro k hk _ _ j _
    exact congrFun (hmemory k (by omega)) _
  obtain ⟨hadd, hlength, -⟩ := LcdSetup.programmed hplain hasks (show n0 + 3 ≤ c + 10 by omega)
  rw [hshown _ hsteady]
  exact screen_stripes m0 hadd hlength (hsaved _)

/-- A processor with an access every third cycle, and a memory that holds the picture. -/
def showing (n : Nat) : Timing LcdDriver.Env :=
  ⟨n % 3 == 0, ⟨0, false, true, stripes fun _ => 0⟩⟩

theorem stripes_shown_showing :
    (∃ e, ((platform (ram .sound) fillMemoryRGBG (fun _ => 0, 0)).run
          (fun _ => ⟨true, ()⟩) e).1.prog = .ret 0 ∧
        ((platform (ram .sound) fillMemoryRGBG (fun _ => 0, 0)).run
          (fun _ => ⟨true, ()⟩) e).2.1 = stripes fun _ => 0) ∧
      ∀ m, ∃ c n, m ≤ c ∧ c + 11 ≤ n ∧
        FullLcd.Starts LcdEntity.idealFifo
          (lcdRun LcdEntity.idealFifo 0 153600 LcdDriver.settingCalls 0 showing) c ∧
        FullLcd.Finishes (FullLcd.regs LcdEntity.idealFifo
          (lcdRun LcdEntity.idealFifo 0 153600 LcdDriver.settingCalls 0 showing) n) ∧
        FullLcd.shown LcdEntity.idealFifo
          (lcdRun LcdEntity.idealFifo 0 153600 LcdDriver.settingCalls 0 showing) c n = picture := by
  have hfair : Recurs fun k => (showing k).go := by
    intro n
    refine ⟨3 * n, by omega, ?_⟩
    simp [showing]
  have halways : Recurs fun _ => true := fun n => ⟨n, Nat.le_refl n, rfl⟩
  exact stripes_shown LcdEntity.idealFifo LcdDriver.settingCalls 0 showing (fun _ => ⟨true, ()⟩)
    (fun _ => 0) 0 0 (by decide) hfair halways halways halways (fun _ => rfl) (fun _ _ => rfl)

end CameraLcd.TestPicture
