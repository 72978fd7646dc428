import EngineerLinux.Lib.Machine
import EngineerLinux.Lib.Prog
import Mathlib.Logic.Function.Basic

/-!
# Threads that run programs

Threads `ι` share a state `σ`. Each runs a program, one call a step; a thread whose program has
returned may enter another one; and something may happen by itself. What the environment has a say
in is part of the label of the step.

A proof about such a pool has a global assertion `J`, about the shared state and a ghost value for
each thread, and shows for each program alone that its calls keep `J` (`Safe`), whatever the other
threads do in between: they change neither this thread's ghost value nor the truth of `J`.

- `Pool.machine`: the pool as a machine;
- `Safe.bind`, `Safe.imp`, `Safe.call`: the rules for a program;
- `Pool.Inv`, `Inv.step`: every thread of the pool is safe, and stays so.
-/

universe u

instance {S : Sys} : Monad (Prog S) where
  pure := .ret
  bind := Prog.bind

/-- One call. -/
def Prog.perform {S : Sys} (c : S.Call) : Prog S (S.Ans c) := .call c .ret

variable {ι σ E : Type} {S : Sys} {R T γ : Type}

structure Pool (ι σ : Type) (S : Sys) (R : Type) where
  shared : σ
  prog : ι → Prog S R

/-- What the threads and their environment do. -/
structure Pool.Sem (ι σ E : Type) (S : Sys) (R : Type) where
  /-- The answer to a call of a thread, and the state then; none if the thread has to wait. -/
  answer : ι → (c : S.Call) → E → σ → Option (S.Ans c × σ)
  /-- The program that a thread enters when its last one has returned. -/
  enter : ι → R → E → σ → Option (Prog S R × σ)
  /-- What happens by itself. -/
  happen : E → σ → Option σ

inductive Pool.Label (ι E : Type) where
  | run (i : ι) (e : E)
  | enter (i : ι) (e : E)
  | happen (e : E)

namespace Pool

variable [DecidableEq ι] (sem : Sem ι σ E S R)

def next (p : Pool ι σ S R) : Label ι E → Option (Pool ι σ S R)
  | .run i e =>
    match p.prog i with
    | .ret _ => none
    | .call c k =>
      (sem.answer i c e p.shared).map fun r => ⟨r.2, Function.update p.prog i (k r.1)⟩
  | .enter i e =>
    match p.prog i with
    | .ret r =>
      (sem.enter i r e p.shared).map fun q => ⟨q.2, Function.update p.prog i q.1⟩
    | .call _ _ => none
  | .happen e => (sem.happen e p.shared).map fun s => { p with shared := s }

/-- The pool as a machine. -/
def machine (init : Pool ι σ S R → Prop) : Machine (Pool ι σ S R) (Label ι E) where
  init := init
  next := next sem

end Pool

/-! ## Safe programs -/

section Safe

variable [DecidableEq ι] (answer : ι → (c : S.Call) → E → σ → Option (S.Ans c × σ))
  (J : σ → (ι → γ) → Prop)

/-- Whatever the others do, the calls of the program keep `J` when thread `i` makes them and has
this ghost value at first; what it returns satisfies `Q`. -/
def Safe (i : ι) (Q : R → γ → Prop) : Prog S R → γ → Prop
  | .ret r, g => Q r g
  | .call c k, g => ∀ s G, J s G → G i = g → ∀ e a s', answer i c e s = some (a, s') →
      ∃ g', J s' (Function.update G i g') ∧ Safe i Q (k a) g'

variable {answer J} {i : ι} {g : γ}

theorem Safe.pure {Q : R → γ → Prop} {r : R} (h : Q r g) :
    Safe answer J i Q (Pure.pure r : Prog S R) g := h

/-- One call, by what it does to `J`. -/
theorem Safe.perform {c : S.Call} {Q : S.Ans c → γ → Prop}
    (h : ∀ s G, J s G → G i = g → ∀ e a s', answer i c e s = some (a, s') →
      ∃ g', J s' (Function.update G i g') ∧ Q a g') :
    Safe answer J i Q (Prog.perform c) g := h

theorem Safe.imp {Q Q' : R → γ → Prop} {p : Prog S R} (h : Safe answer J i Q p g)
    (hQ : ∀ r g, Q r g → Q' r g) : Safe answer J i Q' p g := by
  induction p generalizing g with
  | ret r => exact hQ r g h
  | call c k ih =>
    intro s G hJ hg e a s' hans
    obtain ⟨g', hJ', hk⟩ := h s G hJ hg e a s' hans
    exact ⟨g', hJ', ih a hk⟩

theorem Safe.bind {Q : T → γ → Prop} {p : Prog S R} {q : R → Prog S T}
    (h : Safe answer J i (fun r g => Safe answer J i Q (q r) g) p g) :
    Safe answer J i Q (p >>= q) g := by
  show Safe answer J i Q (p.bind q) g
  induction p generalizing g with
  | ret r => exact h
  | call c k ih =>
    intro s G hJ hg e a s' hans
    obtain ⟨g', hJ', hk⟩ := h s G hJ hg e a s' hans
    exact ⟨g', hJ', ih a hk⟩

/-- What a program returns is changed. -/
theorem Safe.map {Q : T → γ → Prop} {p : Prog S R} {f : R → T}
    (h : Safe answer J i (fun r g => Q (f r) g) p g) : Safe answer J i Q (f <$> p) g :=
  Safe.bind (q := fun r => Prog.ret (f r)) h

end Safe

/-! ## Pools -/

namespace Pool

variable [DecidableEq ι] {sem : Sem ι σ E S R} {J : σ → (ι → γ) → Prop} {Q : ι → R → γ → Prop}
  {p p' : Pool ι σ S R}

/-- Every thread of the pool is safe. -/
def Inv (sem : Sem ι σ E S R) (J : σ → (ι → γ) → Prop) (Q : ι → R → γ → Prop)
    (p : Pool ι σ S R) : Prop :=
  ∃ G, J p.shared G ∧ ∀ i, Safe sem.answer J i (Q i) (p.prog i) (G i)

/-- Thread `i` goes on with a program that is safe for its new ghost value. -/
theorem Inv.update {G : ι → γ} {i : ι} {g : γ} {s : σ} {q : Prog S R}
    (hsafe : ∀ i, Safe sem.answer J i (Q i) (p.prog i) (G i)) (hJ : J s (Function.update G i g))
    (hq : Safe sem.answer J i (Q i) q g) : Inv sem J Q ⟨s, Function.update p.prog i q⟩ := by
  refine ⟨Function.update G i g, hJ, fun j => ?_⟩
  by_cases hj : j = i
  · subst hj
    simp only [Function.update_self]
    exact hq
  · simp only [Function.update_of_ne hj]
    exact hsafe j

/-- **Step lemma**: the pool stays safe, if the programs that are entered are safe and what happens
by itself keeps `J`. -/
theorem Inv.step
    (henter : ∀ i r g e s G q s', Q i r g → J s G → G i = g →
      sem.enter i r e s = some (q, s') →
      ∃ g', J s' (Function.update G i g') ∧ Safe sem.answer J i (Q i) q g')
    (hhappen : ∀ e s G s', J s G → sem.happen e s = some s' → J s' G)
    (h : Inv sem J Q p) {l : Label ι E} (hl : next sem p l = some p') : Inv sem J Q p' := by
  obtain ⟨G, hJ, hsafe⟩ := h
  cases l with
  | run i e =>
    have hi := hsafe i
    unfold next at hl
    cases hp : p.prog i with
    | ret r =>
      simp only [hp] at hl
      cases hl
    | call c k =>
      simp only [hp] at hl
      rw [hp] at hi
      obtain ⟨⟨a, s'⟩, hans, rfl⟩ := Option.map_eq_some_iff.mp hl
      obtain ⟨g', hJ', hk⟩ := hi _ G hJ rfl e a s' hans
      exact Inv.update hsafe hJ' hk
  | enter i e =>
    have hi := hsafe i
    unfold next at hl
    cases hp : p.prog i with
    | ret r =>
      simp only [hp] at hl
      rw [hp] at hi
      obtain ⟨⟨q, s'⟩, hent, rfl⟩ := Option.map_eq_some_iff.mp hl
      obtain ⟨g', hJ', hq⟩ := henter i r (G i) e _ G q s' hi hJ rfl hent
      exact Inv.update hsafe hJ' hq
    | call c k =>
      simp only [hp] at hl
      cases hl
  | happen e =>
    obtain ⟨s, hs, rfl⟩ := Option.map_eq_some_iff.mp hl
    exact ⟨G, hhappen e _ G s hJ hs, hsafe⟩

end Pool
