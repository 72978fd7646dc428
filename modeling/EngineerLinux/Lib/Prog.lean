import Mathlib.Logic.Basic

/-!
# Programs that make system calls

A `Prog S R` is a program that returns an `R` after calls from the signature `S`: it either
returns, or makes a call and goes on as the answer says. The program says nothing about what the
calls do, so one definition of a function can be run against a kernel in one go, stepped call by
call among other processes, or examined for every answer a kernel might give.

- `Prog.run`: the program against a deterministic kernel;
- `Prog.lift`: the program over a larger signature;
- `Prog.Only`: every call the program may ever make, whatever the answers, satisfies a predicate;
  `Only.inv` is the invariant rule for runs of such programs;
- `Prog.Returns`: every result it may return does;
- `Prog.Agrees`: two kernels let it return the same, in related states; with a rule for each way to
  build a program.
-/

universe u

/-- A signature: the calls, and the type of the answer to each. -/
structure Sys where
  Call : Type
  Ans : Call → Type

/-- A program over the calls of `S`. -/
inductive Prog (S : Sys) (R : Type u) : Type u where
  | ret (r : R)
  | call (c : S.Call) (k : S.Ans c → Prog S R)

namespace Prog

variable {S : Sys} {R T σ : Type}

/-- Change what a program returns. -/
def map (f : R → T) : Prog S R → Prog S T
  | .ret r => .ret (f r)
  | .call c k => .call c fun a => (k a).map f

/-- Go on with what a program returns. -/
def bind (p : Prog S R) (q : R → Prog S T) : Prog S T :=
  match p with
  | .ret r => q r
  | .call c k => .call c fun a => (k a).bind q

/-- The program against a deterministic kernel over states `σ`. -/
def run (kernel : (c : S.Call) → σ → S.Ans c × σ) : Prog S R → σ → R × σ
  | .ret r, s => (r, s)
  | .call c k, s => (k (kernel c s).1).run kernel (kernel c s).2

section

variable (kernel : (c : S.Call) → σ → S.Ans c × σ)

@[simp] theorem run_ret (r : R) (s : σ) : (ret r : Prog S R).run kernel s = (r, s) := rfl

@[simp] theorem run_call (c : S.Call) (k : S.Ans c → Prog S R) (s : σ) :
    (call c k).run kernel s = (k (kernel c s).1).run kernel (kernel c s).2 := rfl

theorem run_call_of {kernel : (c : S.Call) → σ → S.Ans c × σ} {c : S.Call} {k : S.Ans c → Prog S R}
    {s s' : σ} {a : S.Ans c} (h : kernel c s = (a, s')) :
    (call c k).run kernel s = (k a).run kernel s' := by
  rw [run_call, h]

@[simp] theorem run_bind (p : Prog S R) (q : R → Prog S T) (s : σ) :
    (p.bind q).run kernel s = (q (p.run kernel s).1).run kernel (p.run kernel s).2 := by
  induction p generalizing s with
  | ret r => rfl
  | call c k ih => exact ih (kernel c s).1 (kernel c s).2

@[simp] theorem run_map (f : R → T) (p : Prog S R) (s : σ) :
    (p.map f).run kernel s = (f (p.run kernel s).1, (p.run kernel s).2) := by
  induction p generalizing s with
  | ret r => rfl
  | call c k ih => exact ih (kernel c s).1 (kernel c s).2

end

/-! ## Larger signatures -/

/-- The program over a signature that has its calls among others. -/
def lift {T : Sys} (f : S.Call → T.Call) (g : (c : S.Call) → T.Ans (f c) → S.Ans c) :
    Prog S R → Prog T R
  | .ret r => .ret r
  | .call c k => .call (f c) fun a => (k (g c a)).lift f g

/-- A kernel of the larger signature may keep the state of the smaller one as a part of its own:
then the lifted program changes that part, as the program itself does. -/
theorem run_lift {U : Sys} {τ : Type} {f : S.Call → U.Call}
    {g : (c : S.Call) → U.Ans (f c) → S.Ans c} {kernel : (c : S.Call) → σ → S.Ans c × σ}
    {kernel' : (c : U.Call) → τ → U.Ans c × τ} (get : τ → σ) (set : τ → σ → τ)
    (hset : ∀ t, set t (get t) = t) (hget : ∀ t s, get (set t s) = s)
    (hset' : ∀ t s s', set (set t s) s' = set t s')
    (hans : ∀ c t, g c (kernel' (f c) t).1 = (kernel c (get t)).1)
    (hstate : ∀ c t, (kernel' (f c) t).2 = set t (kernel c (get t)).2) (p : Prog S R) (t : τ) :
    (p.lift f g).run kernel' t = ((p.run kernel (get t)).1, set t (p.run kernel (get t)).2) := by
  induction p generalizing t with
  | ret r => exact Prod.ext rfl (hset t).symm
  | call c k ih =>
    show ((k (g c (kernel' (f c) t).1)).lift f g).run kernel' (kernel' (f c) t).2 = _
    rw [hans, hstate, ih, hget, hset']
    rfl

/-- Every call the program may make satisfies `A`. -/
def Only (A : S.Call → Prop) : Prog S R → Prop
  | .ret _ => True
  | .call c k => A c ∧ ∀ a, (k a).Only A

theorem Only.map {A : S.Call → Prop} {f : R → T} {p : Prog S R} (h : p.Only A) :
    (p.map f).Only A := by
  induction p with
  | ret r => trivial
  | call c k ih => exact ⟨h.1, fun a => ih a (h.2 a)⟩

theorem Only.bind {A : S.Call → Prop} {p : Prog S R} {q : R → Prog S T} (hp : p.Only A)
    (hq : ∀ r, (q r).Only A) : (p.bind q).Only A := by
  induction p with
  | ret r => exact hq r
  | call c k ih => exact ⟨hp.1, fun a => ih a (hp.2 a)⟩

/-- What all the calls preserve, a whole run preserves. -/
theorem Only.inv {A : S.Call → Prop} {I : σ → Prop} {kernel : (c : S.Call) → σ → S.Ans c × σ}
    (hA : ∀ c s, A c → I s → I (kernel c s).2) {p : Prog S R} (h : p.Only A) {s : σ} (hs : I s) :
    I (p.run kernel s).2 := by
  induction p generalizing s with
  | ret r => exact hs
  | call c k ih => exact ih _ (h.2 _) (hA c s h.1 hs)

/-- Calls that leave the state alone leave it alone in a whole run. -/
theorem Only.run {A : S.Call → Prop} {kernel : (c : S.Call) → σ → S.Ans c × σ}
    (hA : ∀ c s, A c → (kernel c s).2 = s) {p : Prog S R} (h : p.Only A) (s : σ) :
    (p.run kernel s).2 = s :=
  h.inv (I := fun s' => s' = s) (fun c s' hc hs' => (hA c s' hc).trans hs') rfl

/-- Every result the program may return satisfies `Q`. -/
def Returns (Q : R → Prop) : Prog S R → Prop
  | .ret r => Q r
  | .call _ k => ∀ a, (k a).Returns Q

theorem Returns.run {Q : R → Prop} {p : Prog S R} (h : p.Returns Q)
    (kernel : (c : S.Call) → σ → S.Ans c × σ) (s : σ) : Q (p.run kernel s).1 := by
  induction p generalizing s with
  | ret r => exact h
  | call c k ih => exact ih _ (h _) _

theorem Returns.imp {Q Q' : R → Prop} {p : Prog S R} (h : p.Returns Q) (hQ : ∀ r, Q r → Q' r) :
    p.Returns Q' := by
  induction p with
  | ret r => exact hQ r h
  | call c k ih => exact fun a => ih a (h a)

theorem Returns.map {Q : T → Prop} {f : R → T} {p : Prog S R} (h : p.Returns fun r => Q (f r)) :
    (p.map f).Returns Q := by
  induction p with
  | ret r => exact h
  | call c k ih => exact fun a => ih a (h a)

theorem returns_of_forall {Q : R → Prop} (p : Prog S R) (h : ∀ r, Q r) : p.Returns Q := by
  induction p with
  | ret r => exact h r
  | call c k ih => exact fun a => ih a

theorem Returns.bind {Q : T → Prop} {p : Prog S R} {q : R → Prog S T}
    (h : p.Returns fun r => (q r).Returns Q) : (p.bind q).Returns Q := by
  induction p with
  | ret r => exact h
  | call c k ih => exact fun a => ih a (h a)

/-! ## Two kernels -/

section

variable {σ' : Type} (kernel : (c : S.Call) → σ → S.Ans c × σ)
  (kernel' : (c : S.Call) → σ' → S.Ans c × σ') (E : σ → σ' → Prop)

/-- From these states, the program returns the same against either kernel, and the states are
related then. -/
def Agrees (p : Prog S R) (s : σ) (s' : σ') : Prop :=
  (p.run kernel s).1 = (p.run kernel' s').1 ∧ E (p.run kernel s).2 (p.run kernel' s').2

variable {kernel kernel' E} {s : σ} {s' : σ'}

theorem agrees_ret {r : R} (h : E s s') : (ret r : Prog S R).Agrees kernel kernel' E s s' :=
  ⟨rfl, h⟩

theorem Agrees.call {c : S.Call} {k : S.Ans c → Prog S R}
    (hans : (kernel c s).1 = (kernel' c s').1)
    (h : (k (kernel c s).1).Agrees kernel kernel' E (kernel c s).2 (kernel' c s').2) :
    (Prog.call c k).Agrees kernel kernel' E s s' := by
  unfold Agrees at h ⊢
  rw [run_call, run_call, ← hans]
  exact h

theorem Agrees.bind {p : Prog S R} {q : R → Prog S T} (hp : p.Agrees kernel kernel' E s s')
    (hq : (q (p.run kernel s).1).Agrees kernel kernel' E (p.run kernel s).2
      (p.run kernel' s').2) : (p.bind q).Agrees kernel kernel' E s s' := by
  unfold Agrees at hp hq ⊢
  rw [run_bind, run_bind, ← hp.1]
  exact hq

end

end Prog
