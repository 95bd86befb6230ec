import Mathlib.Data.Option.Basic
import CameraLcd.Lib.Clocked

/-!
# Programs of register accesses, and the hardware they run on

A driver is a tree of accesses to the registers of a peripheral: writes, reads, tests of a mask
and loops that poll a mask.

* `Prog` — the tree, a monad; `exec` — its meaning over an abstract description `Spec` of the
  peripheral.
* `Cpu`, `platform` — a processor that runs a program against a clocked peripheral.  When it makes
  its next access is open; a read takes two cycles, a write one.
* `Simulates` — what one clock edge of the peripheral owes to the description.
* `run_exec`, `run_ret` — then every run of a program on the peripheral is its run on the
  description; `run_returns` — and it comes to its end, if polling comes to an end.
-/

set_option autoImplicit false

namespace RegisterProgram

open Clocked

/-- What a processor does in one cycle. -/
inductive Access (A D : Type) where
  | none
  | read (address : A)
  | write (address : A) (data : D)
  deriving DecidableEq, Repr

/-- A program over registers of `w` bits at addresses `A`. -/
inductive Prog (A : Type) (w : Nat) (α : Type) where
  | ret (a : α)
  | write (address : A) (data : BitVec w) (next : Prog A w α)
  | read (address : A) (next : BitVec w → Prog A w α)
  /-- `if (read(address) & mask) …`. -/
  | test (address : A) (mask : BitVec w) (next : Bool → Prog A w α)
  /-- `while (read(address) & mask);`. -/
  | poll (address : A) (mask : BitVec w) (next : Prog A w α)

namespace Prog

variable {A : Type} {w : Nat} {α β : Type}

def bind (p : Prog A w α) (f : α → Prog A w β) : Prog A w β :=
  match p with
  | ret a => f a
  | write x d p => write x d (p.bind f)
  | read x k => read x fun d => (k d).bind f
  | test x m k => test x m fun b => (k b).bind f
  | poll x m p => poll x m (p.bind f)

instance : Monad (Prog A w) where
  pure := ret
  bind := bind

/-- The access with which a program goes on. -/
def access : Prog A w α → Access A (BitVec w)
  | ret _ => .none
  | write x d _ => .write x d
  | read x _ | test x _ _ | poll x _ _ => .read x

/-- A program that goes on with a read. -/
def reads : Prog A w α → Bool
  | ret _ | write _ _ _ => false
  | read _ _ | test _ _ _ | poll _ _ _ => true

/-- A program that reads, once the data is there. -/
def resume (d : BitVec w) : Prog A w α → Prog A w α
  | read _ k => k d
  | test _ m k => k (d &&& m != 0)
  | poll x m p => if d &&& m = 0 then p else poll x m p
  | p => p

end Prog

/-! ## The meaning of a program -/

/-- An abstract peripheral with states `T`.  `none` marks what its users must not do. -/
structure Spec (A : Type) (w : Nat) (T : Type) where
  write : T → A → BitVec w → Option T
  read : T → A → Option (BitVec w)
  test : T → A → BitVec w → Option Bool
  poll : T → A → BitVec w → Option T

section Meaning

variable {A : Type} {w : Nat} {T α β : Type} (spec : Spec A w T)

def exec : Prog A w α → T → Option (α × T)
  | .ret a, t => some (a, t)
  | .write x d p, t => (spec.write t x d).bind (exec p)
  | .read x k, t => (spec.read t x).bind fun d => exec (k d) t
  | .test x m k, t => (spec.test t x m).bind fun b => exec (k b) t
  | .poll x m p, t => (spec.poll t x m).bind (exec p)

@[simp] theorem exec_pure (a : α) (t : T) : exec spec (pure a : Prog A w α) t = some (a, t) := rfl

theorem exec_bind (p : Prog A w α) (f : α → Prog A w β) (t : T) :
    exec spec (p >>= f) t = (exec spec p t).bind fun r => exec spec (f r.1) r.2 := by
  show exec spec (p.bind f) t = _
  induction p generalizing t with
  | ret a => rfl
  | write x d p ih =>
    simp only [Prog.bind, exec, Option.bind_assoc]
    exact Option.bind_congr fun t' _ => ih t'
  | read x k ih =>
    simp only [Prog.bind, exec, Option.bind_assoc]
    exact Option.bind_congr fun d _ => ih d t
  | test x m k ih =>
    simp only [Prog.bind, exec, Option.bind_assoc]
    exact Option.bind_congr fun b _ => ih b t
  | poll x m p ih =>
    simp only [Prog.bind, exec, Option.bind_assoc]
    exact Option.bind_congr fun t' _ => ih t'

theorem exec_seq {p : Prog A w α} {f : α → Prog A w β} {t t' : T} {a : α}
    (h : exec spec p t = some (a, t')) : exec spec (p >>= f) t = exec spec (f a) t' := by
  rw [exec_bind, h]
  rfl

end Meaning

/-! ## A program on its hardware -/

/-- A clocked peripheral.  `E` is what else happens in a cycle. -/
structure Peripheral (A : Type) (w : Nat) (H E : Type) where
  step : H → Access A (BitVec w) → E → H
  /-- The data register of the read port. -/
  readdata : H → BitVec w

/-- A processor: the rest of its program, and whether it is in the second cycle of a read. -/
structure Cpu (A : Type) (w : Nat) (α : Type) where
  prog : Prog A w α
  loading : Bool

namespace Cpu

variable {A : Type} {w : Nat} {α : Type}

/-- The access of a cycle; `go` says whether the processor begins one. -/
def access (c : Cpu A w α) (go : Bool) : Access A (BitVec w) :=
  if c.loading || go then c.prog.access else .none

def next (c : Cpu A w α) (go : Bool) (readdata : BitVec w) : Cpu A w α :=
  if c.loading then ⟨c.prog.resume readdata, false⟩
  else if go then
    match c.prog with
    | .ret a => ⟨.ret a, false⟩
    | .write _ _ p => ⟨p, false⟩
    | p => ⟨p, true⟩
  else c

end Cpu

/-- What is open in a cycle: whether the processor begins an access, and the rest. -/
structure Timing (E : Type) where
  go : Bool
  env : E

section Platforms

variable {A : Type} {w : Nat} {H E T α : Type} (per : Peripheral A w H E)

/-- A program that begins with the peripheral in `h`. -/
def platform (p : Prog A w α) (h : H) : Machine (Cpu A w α × H) (Timing E) where
  init := (⟨p, false⟩, h)
  step s i := (s.1.next i.go (per.readdata s.2), per.step s.2 (s.1.access i.go) i.env)

/-- What an edge of the peripheral owes to the description, under the relation `R`.  `good` is
what the description asks of the rest of the world. -/
structure Simulates (spec : Spec A w T) (R : T → H → Prop) (good : T → Prop) : Prop where
  idle : ∀ {t h} e, R t h → R t (per.step h .none e)
  read : ∀ {t h} x e, R t h → R t (per.step h (.read x) e)
  write : ∀ {t t' h x d} e, R t h → spec.write t x d = some t' → good t' →
    R t' (per.step h (.write x d) e)
  readdata : ∀ {t h x d} e, R t h → spec.read t x = some d →
    per.readdata (per.step h (.read x) e) = d
  test : ∀ {t h x m b} e, R t h → spec.test t x m = some b →
    (per.readdata (per.step h (.read x) e) &&& m != 0) = b
  poll : ∀ {t t' h x m} e, R t h → spec.poll t x m = some t' →
    per.readdata (per.step h (.read x) e) &&& m = 0 → R t' (per.step h (.read x) e)
  good_write : ∀ {t t' x d}, spec.write t x d = some t' → good t' → good t
  good_poll : ∀ {t t' x m}, spec.poll t x m = some t' → good t' → good t

/-- **Polling ends**: while the processor polls, the mask is clear from some cycle on. -/
def Settles (spec : Spec A w T) (R : T → H → Prop) : Prop :=
  ∀ (t t' : T) (x : A) (m : BitVec w) (h : Nat → H) (e : Nat → E), R t (h 0) →
    spec.poll t x m = some t' →
    (∀ n, h (n + 1) = per.step (h n) .none (e n) ∨ h (n + 1) = per.step (h n) (.read x) (e n)) →
    ∃ k, ∀ j, k ≤ j → ∀ e', per.readdata (per.step (h j) (.read x) e') &&& m = 0

variable {per} {spec : Spec A w T} {R : T → H → Prop} {good : T → Prop}

theorem Simulates.good_exec (hsim : Simulates per spec R good) {p : Prog A w α} {t t' : T} {a : α}
    (h : exec spec p t = some (a, t')) (hg : good t') : good t := by
  induction p generalizing t with
  | ret b =>
    cases h
    exact hg
  | write x d p ih =>
    obtain ⟨t1, hw, hp⟩ := Option.bind_eq_some_iff.mp h
    exact hsim.good_write hw (ih hp)
  | read x k ih =>
    obtain ⟨d, -, hp⟩ := Option.bind_eq_some_iff.mp h
    exact ih d hp
  | test x m k ih =>
    obtain ⟨b, -, hp⟩ := Option.bind_eq_some_iff.mp h
    exact ih b hp
  | poll x m p ih =>
    obtain ⟨t1, hw, hp⟩ := Option.bind_eq_some_iff.mp h
    exact hsim.good_poll hw (ih hp)

variable (per spec R) in
/-- What the data register holds in the second cycle of a read. -/
def Loaded (t : T) (h : H) : Prog A w α → Prop
  | .read x _ => ∀ d, spec.read t x = some d → per.readdata h = d
  | .test x m _ => ∀ b, spec.test t x m = some b → (per.readdata h &&& m != 0) = b
  | .poll x m _ => ∀ t', spec.poll t x m = some t' → per.readdata h &&& m = 0 → R t' h
  | .ret _ => False
  | .write _ _ _ => False

variable (per spec R) in
/-- A run stands where its rest, on the description, ends in `out`. -/
def Stands (out : α × T) (s : Cpu A w α × H) : Prop :=
  ∃ t, exec spec s.1.prog t = some out ∧ R t s.2 ∧
    (s.1.loading = true → Loaded per spec R t s.2 s.1.prog)

/-- The first cycle of a read loads the data register. -/
theorem Simulates.loaded (hsim : Simulates per spec R good) {t : T} {h : H} (e : E)
    (hR : R t h) : (p : Prog A w α) → p.reads = true →
      R t (per.step h p.access e) ∧ Loaded per spec R t (per.step h p.access e) p
  | .ret _, hr => absurd hr Bool.false_ne_true
  | .write _ _ _, hr => absurd hr Bool.false_ne_true
  | .read x _, _ => ⟨hsim.read x e hR, fun _ => hsim.readdata e hR⟩
  | .test x _ _, _ => ⟨hsim.read x e hR, fun _ => hsim.test e hR⟩
  | .poll x _ _, _ => ⟨hsim.read x e hR, fun _ => hsim.poll e hR⟩

/-- The second cycle of a read hands the data to the program. -/
theorem Simulates.resumed (hsim : Simulates per spec R good) {t : T} {h : H} (e : E) {out : α × T}
    (hR : R t h) : (p : Prog A w α) → exec spec p t = some out → Loaded per spec R t h p →
      ∃ t', exec spec (p.resume (per.readdata h)) t' = some out ∧
        R t' (per.step h p.access e)
  | .ret a, _, hl => hl.elim
  | .write x d q, _, hl => hl.elim
  | .read x k, hex, hl => by
    obtain ⟨d, hd, hk⟩ := Option.bind_eq_some_iff.mp hex
    refine ⟨t, ?_, hsim.read x e hR⟩
    rw [Prog.resume, hl d hd]
    exact hk
  | .test x m k, hex, hl => by
    obtain ⟨b, hb, hk⟩ := Option.bind_eq_some_iff.mp hex
    refine ⟨t, ?_, hsim.read x e hR⟩
    rw [Prog.resume, hl b hb]
    exact hk
  | .poll x m q, hex, hl => by
    obtain ⟨t', ht, hq⟩ := Option.bind_eq_some_iff.mp hex
    by_cases hz : per.readdata h &&& m = 0
    · refine ⟨t', ?_, hsim.read x e (hl t' ht hz)⟩
      simp only [Prog.resume, if_pos hz]
      exact hq
    · refine ⟨t, ?_, hsim.read x e hR⟩
      simp only [Prog.resume, if_neg hz]
      exact hex

theorem Simulates.step (hsim : Simulates per spec R good) {out : α × T} (hg : good out.2)
    {s : Cpu A w α × H} (h : Stands per spec R out s) (p : Prog A w α) (h0 : H) (i : Timing E) :
    Stands per spec R out ((platform per p h0).step s i) := by
  obtain ⟨⟨q, loading⟩, hw⟩ := s
  obtain ⟨t, hex, hR, hl⟩ := h
  cases loading with
  | true =>
    obtain ⟨t', hex', hR'⟩ := hsim.resumed i.env hR q hex (hl rfl)
    exact ⟨t', hex', hR', fun h => absurd h Bool.false_ne_true⟩
  | false =>
    obtain ⟨go, e⟩ := i
    cases go with
    | false => exact ⟨t, hex, hsim.idle e hR, fun h => absurd h Bool.false_ne_true⟩
    | true =>
      cases q with
      | ret a => exact ⟨t, hex, hsim.idle e hR, fun h => absurd h Bool.false_ne_true⟩
      | write x d q =>
        obtain ⟨t', ht, hq⟩ := Option.bind_eq_some_iff.mp hex
        exact ⟨t', hq, hsim.write e hR ht (hsim.good_exec hq hg),
          fun h => absurd h Bool.false_ne_true⟩
      | read x k =>
        obtain ⟨hR', hl'⟩ := hsim.loaded e hR (.read x k) rfl
        exact ⟨t, hex, hR', fun _ => hl'⟩
      | test x m k =>
        obtain ⟨hR', hl'⟩ := hsim.loaded e hR (.test x m k) rfl
        exact ⟨t, hex, hR', fun _ => hl'⟩
      | poll x m q =>
        obtain ⟨hR', hl'⟩ := hsim.loaded e hR (.poll x m q) rfl
        exact ⟨t, hex, hR', fun _ => hl'⟩

/-- **A standing run writes only what the description allows**, and can go on from there. -/
theorem Stands.writes {out : α × T} {s : Cpu A w α × H} (h : Stands per spec R out s) {go : Bool}
    {x : A} {d : BitVec w} (ha : s.1.access go = .write x d) :
    ∃ t t', R t s.2 ∧ spec.write t x d = some t' ∧ ∃ q : Prog A w α, exec spec q t' = some out := by
  obtain ⟨⟨q, loading⟩, hw⟩ := s
  obtain ⟨t, hex, hR, hl⟩ := h
  cases q with
  | write y e q =>
    have hxe : y = x ∧ e = d := by
      cases loading <;> cases go <;> simp_all [Cpu.access, Prog.access]
    obtain ⟨rfl, rfl⟩ := hxe
    obtain ⟨t', ht, hq⟩ := Option.bind_eq_some_iff.mp hex
    exact ⟨t, t', hR, ht, q, hq⟩
  | ret b | read y k | test y m k | poll y m q =>
    cases loading <;> cases go <;> simp [Cpu.access, Prog.access] at ha

/-! ## Runs -/

section Runs

variable {p : Prog A w α} {h : H} {t t' : T} {a : α} (inp : Nat → Timing E)

/-- **The run of a program on its hardware is its run on the description.** -/
theorem run_exec (hsim : Simulates per spec R good) (hR : R t h)
    (hex : exec spec p t = some (a, t')) (hg : good t') (n : Nat) :
    Stands per spec R (a, t') ((platform per p h).run inp n) :=
  Machine.run_invariant (I := Stands per spec R (a, t'))
    ⟨t, hex, hR, fun h => absurd h Bool.false_ne_true⟩
    (fun _ i hs => hsim.step hg hs p h i) n

theorem Stands.later (hsim : Simulates per spec R good) {out : α × T} (hg : good out.2) {n m : Nat}
    (hs : Stands per spec R out ((platform per p h).run inp n)) (hm : n ≤ m) :
    Stands per spec R out ((platform per p h).run inp m) := by
  induction m, hm using Nat.le_induction with
  | base => exact hs
  | succ m _ ih => exact hsim.step hg ih p h (inp m)

/-- What a program has returned is what it returns on the description, and the hardware is where
the description is. -/
theorem run_ret (hsim : Simulates per spec R good) (hR : R t h)
    (hex : exec spec p t = some (a, t')) (hg : good t') {n : Nat} {b : α}
    (hret : ((platform per p h).run inp n).1.prog = .ret b) :
    b = a ∧ R t' ((platform per p h).run inp n).2 := by
  obtain ⟨t1, hex1, hR1, -⟩ := run_exec inp hsim hR hex hg n
  rw [hret] at hex1
  cases hex1
  exact ⟨rfl, hR1⟩

/-! ### The end of a program -/

variable {inp} {q : Prog A w α} {n : Nat}

/-- A run at `q`, before its next access, with the description in `t`. -/
def At (R : T → H → Prop) (q : Prog A w α) (t : T) (s : Cpu A w α × H) : Prop :=
  s.1 = ⟨q, false⟩ ∧ R t s.2

theorem run_begin (hcpu : ((platform per p h).run inp n).1 = ⟨q, false⟩)
    (hgo : (inp n).go = true) (hq : q.reads = true) :
    ((platform per p h).run inp (n + 1)).1 = ⟨q, true⟩ ∧
      ((platform per p h).run inp (n + 1)).2 =
        per.step ((platform per p h).run inp n).2 q.access (inp n).env := by
  rw [Machine.run_succ]
  generalize (platform per p h).run inp n = s at *
  obtain ⟨c, h1⟩ := s
  cases hcpu
  cases q <;> simp [platform, Cpu.next, Cpu.access, hgo] <;> simp [Prog.reads] at hq

theorem run_end (hcpu : ((platform per p h).run inp n).1 = ⟨q, true⟩) :
    ((platform per p h).run inp (n + 1)).1 =
        ⟨q.resume (per.readdata ((platform per p h).run inp n).2), false⟩ ∧
      ((platform per p h).run inp (n + 1)).2 =
        per.step ((platform per p h).run inp n).2 q.access (inp n).env := by
  rw [Machine.run_succ]
  generalize (platform per p h).run inp n = s at *
  obtain ⟨c, h1⟩ := s
  cases hcpu
  exact ⟨rfl, rfl⟩

theorem run_wait (hcpu : ((platform per p h).run inp n).1 = ⟨q, false⟩)
    (hgo : (inp n).go = false) : ((platform per p h).run inp (n + 1)).1 = ⟨q, false⟩ ∧
      ((platform per p h).run inp (n + 1)).2 =
        per.step ((platform per p h).run inp n).2 .none (inp n).env := by
  rw [Machine.run_succ]
  generalize (platform per p h).run inp n = s at *
  obtain ⟨c, h1⟩ := s
  cases hcpu
  simp [platform, Cpu.next, Cpu.access, hgo]

theorem run_write {x : A} {d : BitVec w}
    (hcpu : ((platform per p h).run inp n).1 = ⟨.write x d q, false⟩)
    (hgo : (inp n).go = true) : ((platform per p h).run inp (n + 1)).1 = ⟨q, false⟩ ∧
      ((platform per p h).run inp (n + 1)).2 =
        per.step ((platform per p h).run inp n).2 (.write x d) (inp n).env := by
  rw [Machine.run_succ]
  generalize (platform per p h).run inp n = s at *
  obtain ⟨c, h1⟩ := s
  cases hcpu
  simp [platform, Cpu.next, Cpu.access, Prog.access, hgo]

theorem run_read (hsim : Simulates per spec R good) {out : α × T}
    (hat : At R q t ((platform per p h).run inp n)) (hgo : (inp n).go = true)
    (hq : q.reads = true) (hex : exec spec q t = some out) :
    ∃ d t', exec spec (q.resume d) t' = some out ∧
      At R (q.resume d) t' ((platform per p h).run inp (n + 2)) := by
  obtain ⟨hcpu1, hper1⟩ := run_begin hat.1 hgo hq
  obtain ⟨hR, hl⟩ := hsim.loaded (inp n).env hat.2 q hq
  rw [← hper1] at hR hl
  obtain ⟨hcpu2, hper2⟩ := run_end hcpu1
  obtain ⟨t', hex', hR'⟩ := hsim.resumed (inp (n + 1)).env hR q hex hl
  exact ⟨_, t', hex', hcpu2, hper2 ▸ hR'⟩

/-- A poll in progress. -/
structure Polls (per : Peripheral A w H E) (R : T → H → Prop) (x : A) (m : BitVec w)
    (q : Prog A w α) (t t' : T) (s : Cpu A w α × H) : Prop where
  stands : R t s.2
  prog : s.1.prog = .poll x m q
  loaded : s.1.loading = true → per.readdata s.2 &&& m = 0 → R t' s.2

/-- **A poll goes on or ends**, and meanwhile the peripheral sees nothing but its reads. -/
theorem Polls.step (hsim : Simulates per spec R good) {x : A} {m : BitVec w}
    (hpoll : spec.poll t x m = some t')
    (hs : Polls per R x m q t t' ((platform per p h).run inp n)) :
    (Polls per R x m q t t' ((platform per p h).run inp (n + 1)) ∧
      ∃ e, ((platform per p h).run inp (n + 1)).2 =
          per.step ((platform per p h).run inp n).2 .none e ∨
        ((platform per p h).run inp (n + 1)).2 =
          per.step ((platform per p h).run inp n).2 (.read x) e) ∨
      At R q t' ((platform per p h).run inp (n + 1)) := by
  have heta : ((platform per p h).run inp n).1 =
      ⟨.poll x m q, ((platform per p h).run inp n).1.loading⟩ := by
    rw [← hs.prog]
  cases hload : ((platform per p h).run inp n).1.loading with
  | true =>
    obtain ⟨hcpu, hper⟩ := run_end (hload ▸ heta)
    by_cases hz : per.readdata ((platform per p h).run inp n).2 &&& m = 0
    · refine .inr ⟨?_, hper ▸ hsim.read x _ (hs.loaded hload hz)⟩
      rw [hcpu]
      simp only [Prog.resume, if_pos hz]
    · refine .inl ⟨⟨hper ▸ hsim.read x _ hs.stands, ?_, ?_⟩, _, .inr hper⟩
      · rw [hcpu]
        simp only [Prog.resume, if_neg hz]
      · intro h
        rw [hcpu] at h
        exact absurd h Bool.false_ne_true
  | false =>
    cases hgo : (inp n).go with
    | false =>
      obtain ⟨hcpu, hper⟩ := run_wait (hload ▸ heta) hgo
      refine .inl ⟨⟨hper ▸ hsim.idle _ hs.stands, by rw [hcpu], ?_⟩, _, .inl hper⟩
      intro h
      rw [hcpu] at h
      exact absurd h Bool.false_ne_true
    | true =>
      obtain ⟨hcpu, hper⟩ := run_begin (hload ▸ heta) hgo rfl
      refine .inl ⟨⟨hper ▸ hsim.read x _ hs.stands, by rw [hcpu], fun _ hz => ?_⟩, _, .inr hper⟩
      rw [hper] at hz ⊢
      exact hsim.poll _ hs.stands hpoll hz

variable (hfair : Recurs fun n => (inp n).go)

include hfair

theorem turn (hsim : Simulates per spec R good)
    (hn : At R q t ((platform per p h).run inp n)) :
    ∃ m, n ≤ m ∧ At R q t ((platform per p h).run inp m) ∧ (inp m).go = true := by
  refine hfair.wait (P := fun m => At R q t ((platform per p h).run inp m)) ?_ hn
  intro m ⟨hcpu, hR⟩ hgo
  obtain ⟨hcpu', hper⟩ := run_wait hcpu hgo
  exact ⟨hcpu', hper ▸ hsim.idle _ hR⟩

theorem poll_ends (hsim : Simulates per spec R good) (hset : Settles per spec R) {x : A}
    {m : BitVec w} (hpoll : spec.poll t x m = some t')
    (hat : At R (.poll x m q) t ((platform per p h).run inp n)) :
    ∃ k, n ≤ k ∧ At R q t' ((platform per p h).run inp k) := by
  by_contra hno
  have hstep : ∀ j, n ≤ j → Polls per R x m q t t' ((platform per p h).run inp j) →
      Polls per R x m q t t' ((platform per p h).run inp (j + 1)) ∧
        ∃ e, ((platform per p h).run inp (j + 1)).2 =
            per.step ((platform per p h).run inp j).2 .none e ∨
          ((platform per p h).run inp (j + 1)).2 =
            per.step ((platform per p h).run inp j).2 (.read x) e := by
    intro j hj hs
    obtain hs' | hleft := hs.step hsim hpoll
    · exact hs'
    · exact absurd ⟨j + 1, by omega, hleft⟩ hno
  have hall : ∀ j, n ≤ j → Polls per R x m q t t' ((platform per p h).run inp j) := by
    intro j hj
    induction j, hj using Nat.le_induction with
    | base =>
      refine ⟨hat.2, by rw [hat.1], fun h => ?_⟩
      rw [hat.1] at h
      exact absurd h Bool.false_ne_true
    | succ j hj ih => exact (hstep j hj ih).1
  -- the peripheral settles, and the next read sees it
  obtain ⟨e, he⟩ : ∃ e : Nat → E, ∀ i,
      ((platform per p h).run inp (n + (i + 1))).2 =
          per.step ((platform per p h).run inp (n + i)).2 .none (e i) ∨
        ((platform per p h).run inp (n + (i + 1))).2 =
          per.step ((platform per p h).run inp (n + i)).2 (.read x) (e i) :=
    ⟨_, fun i => (hstep (n + i) (by omega) (hall _ (by omega))).2.choose_spec⟩
  obtain ⟨k, hk⟩ := hset t t' x m (fun i => ((platform per p h).run inp (n + i)).2) e hat.2 hpoll he
  obtain ⟨j, hj, hready⟩ : ∃ j, n + k ≤ j ∧
      ((platform per p h).run inp j).1 = ⟨.poll x m q, false⟩ := by
    have hprog := (hall (n + k) (by omega)).prog
    cases hload : ((platform per p h).run inp (n + k)).1.loading with
    | false => exact ⟨n + k, le_rfl, by rw [← hprog, ← hload]⟩
    | true =>
      have hend := (run_end (q := .poll x m q) (n := n + k)
        (by rw [← hprog, ← hload])).1
      refine ⟨n + k + 1, by omega, ?_⟩
      rw [← (hall (n + k + 1) (by omega)).prog, hend]
  obtain ⟨i, hji, ⟨hcpu, hR⟩, hgo⟩ := turn hfair hsim (n := j) (q := .poll x m q) (t := t)
    ⟨hready, (hall j (by omega)).stands⟩
  obtain ⟨hcpu1, hper1⟩ := run_begin hcpu hgo rfl
  obtain ⟨hcpu2, hper2⟩ := run_end hcpu1
  have hz := hk (i - n) (by omega) (inp i).env
  rw [show n + (i - n) = i by omega] at hz
  refine hno ⟨i + 2, by omega, ?_, ?_⟩
  · rw [hcpu2, hper1]
    exact congrArg (Cpu.mk · false) (if_pos hz)
  · rw [hper2, hper1]
    exact hsim.read x _ (hsim.poll _ hR hpoll hz)

/-- From any point of a run. -/
theorem ends_from (hsim : Simulates per spec R good) (hset : Settles per spec R) {out : α × T}
    (hg : good out.2) (q : Prog A w α) (n : Nat) (t : T)
    (hat : At R q t ((platform per p h).run inp n)) (hex : exec spec q t = some out) :
    ∃ k, n ≤ k ∧ ((platform per p h).run inp k).1 = ⟨.ret out.1, false⟩ := by
  induction q generalizing n t with
  | ret b =>
    cases hex
    exact ⟨n, le_rfl, hat.1⟩
  | write x d q ih =>
    obtain ⟨t1, ht, hq⟩ := Option.bind_eq_some_iff.mp hex
    obtain ⟨j, hj, ⟨hcpu, hR⟩, hgo⟩ := turn hfair hsim hat
    obtain ⟨hcpu', hper⟩ := run_write hcpu hgo
    have hR' := hsim.write (inp j).env hR ht (hsim.good_exec hq hg)
    obtain ⟨k, hk, hend⟩ := ih (j + 1) t1 ⟨hcpu', hper ▸ hR'⟩ hq
    exact ⟨k, by omega, hend⟩
  | read x k ih =>
    obtain ⟨j, hj, hat', hgo⟩ := turn hfair hsim hat
    obtain ⟨d, t1, hex', hat2⟩ := run_read hsim hat' hgo rfl hex
    obtain ⟨i, hi, hend⟩ := ih d (j + 2) t1 hat2 hex'
    exact ⟨i, by omega, hend⟩
  | test x m k ih =>
    obtain ⟨j, hj, hat', hgo⟩ := turn hfair hsim hat
    obtain ⟨d, t1, hex', hat2⟩ := run_read hsim hat' hgo rfl hex
    obtain ⟨i, hi, hend⟩ := ih (d &&& m != 0) (j + 2) t1 hat2 hex'
    exact ⟨i, by omega, hend⟩
  | poll x m q ih =>
    obtain ⟨t1, ht, hq⟩ := Option.bind_eq_some_iff.mp hex
    obtain ⟨j, hj, hat'⟩ := poll_ends hfair hsim hset ht hat
    obtain ⟨k, hk, hend⟩ := ih j t1 hat' hq
    exact ⟨k, by omega, hend⟩

/-- A program that has got to `q` ends as `q` does on the description. -/
theorem returns_from (hsim : Simulates per spec R good) (hset : Settles per spec R) (hg : good t')
    {s : T} (hat : At R q s ((platform per p h).run inp n)) (hex : exec spec q s = some (a, t')) :
    ∃ m, ((platform per p h).run inp m).1.prog = .ret a ∧
      R t' ((platform per p h).run inp m).2 := by
  have hg' : good (a, t').2 := hg
  obtain ⟨m, hm, hend⟩ := ends_from hfair hsim hset hg' q n s hat hex
  have hstands : Stands per spec R (a, t') ((platform per p h).run inp n) := by
    refine ⟨s, ?_, hat.2, fun hl => ?_⟩
    · rw [hat.1]
      exact hex
    · rw [hat.1] at hl
      exact absurd hl Bool.false_ne_true
  obtain ⟨s', hex', hR, -⟩ := Stands.later inp hsim hg hstands hm
  rw [hend] at hex'
  cases hex'
  exact ⟨m, by rw [hend], hR⟩

/-- **A program comes to its end** on hardware on which polling ends. -/
theorem run_returns (hsim : Simulates per spec R good) (hset : Settles per spec R) (hR : R t h)
    (hex : exec spec p t = some (a, t')) (hg : good t') :
    ∃ n, ((platform per p h).run inp n).1.prog = .ret a := by
  obtain ⟨n, -, hend⟩ := ends_from hfair hsim hset hg p 0 t ⟨rfl, hR⟩ hex
  exact ⟨n, by rw [hend]⟩

end Runs

end Platforms

end RegisterProgram
