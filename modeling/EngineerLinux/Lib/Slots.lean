import Mathlib.Algebra.BigOperators.Group.Finset.Basic
import Mathlib.Algebra.BigOperators.Group.Finset.Piecewise
import Mathlib.Algebra.Order.BigOperators.Group.Finset
import Mathlib.Data.Fintype.Basic

/-!
# Thread-indexed state

Facts about a family of per-thread values `f : ι → β` that a step changes at one thread only.

- `total w f`: the sum of a weight over all threads, for instance the number of threads at some
  program points; `total_update` says how one thread's move changes it;
- `Owned own holds`: a table of mutex owners agrees with what every thread holds according to its
  program point. The three lemmas `Owned.acquire`, `Owned.release` and `Owned.stay` are the only
  ways a step of one thread can move it, and `Owned.unique` is mutual exclusion.
-/

universe u v

namespace Slots

/-! ## Weights -/

section Total

variable {ι : Type u} {β : Type v} [Fintype ι] [DecidableEq ι]

/-- The sum of a weight over all threads. -/
def total (w : β → ℕ) (f : ι → β) : ℕ := ∑ i, w (f i)

omit [DecidableEq ι] in
theorem total_eq_zero {w : β → ℕ} {f : ι → β} (h : ∀ i, w (f i) = 0) : total w f = 0 :=
  Finset.sum_eq_zero fun i _ => h i

/-- One thread moves from `f i` to `b`: the total loses the old weight and gains the new one. -/
theorem total_update (w : β → ℕ) (f : ι → β) (i : ι) (b : β) :
    total w (Function.update f i b) + w (f i) = total w f + w b := by
  have hnew : total w (Function.update f i b) = w b + ∑ j ∈ Finset.univ \ {i}, w (f j) := by
    have hcomp : ∀ j, w (Function.update f i b j) = Function.update (fun j => w (f j)) i (w b) j :=
      fun j => Function.apply_update (fun _ => w) f i b j
    show ∑ j, w (Function.update f i b j) = _
    rw [Finset.sum_congr rfl fun j _ => hcomp j]
    exact Finset.sum_update_of_mem (Finset.mem_univ i) _ _
  have hold : total w f = w (f i) + ∑ j ∈ Finset.univ \ {i}, w (f j) :=
    Finset.sum_eq_add_sum_sdiff_singleton_of_mem (Finset.mem_univ i) fun j => w (f j)
  omega

end Total

/-! ## Mutex ownership -/

section Mutex

variable {τ : Type u} {μ : Type v}

/-- The owner table agrees with what the threads hold: `own m = some t` exactly when thread `t`
is at a point where it holds `m`. -/
def Owned (own : μ → Option τ) (holds : τ → μ → Prop) : Prop :=
  ∀ m t, own m = some t ↔ holds t m

/-- Mutual exclusion: no two threads hold one mutex. -/
theorem Owned.unique {own : μ → Option τ} {holds : τ → μ → Prop} (h : Owned own holds)
    {m : μ} {t t' : τ} (ht : holds t m) (ht' : holds t' m) : t = t' := by
  have hm := (h m t).mpr ht
  have hm' := (h m t').mpr ht'
  exact Option.some.inj (hm.symm.trans hm')

/-- A free mutex is held by nobody. -/
theorem Owned.free {own : μ → Option τ} {holds : τ → μ → Prop} (h : Owned own holds)
    {m : μ} (hm : own m = none) (t : τ) : ¬ holds t m := by
  intro ht
  have := (h m t).mpr ht
  rw [hm] at this
  cases this

/-- A step that moves no mutex. -/
theorem Owned.stay {own : μ → Option τ} {holds holds' : τ → μ → Prop} (h : Owned own holds)
    (hsame : ∀ t m, holds' t m ↔ holds t m) : Owned own holds' :=
  fun m t => (h m t).trans (hsame t m).symm

variable [DecidableEq μ]

/-- Thread `t` takes the free mutex `m`; nothing else changes hands. -/
theorem Owned.acquire {own : μ → Option τ} {holds holds' : τ → μ → Prop} (h : Owned own holds)
    {m : μ} {t : τ} (hfree : own m = none) (hself : holds' t m)
    (hother : ∀ t' m', m' ≠ m → (holds' t' m' ↔ holds t' m'))
    (halone : ∀ t', t' ≠ t → (holds' t' m ↔ holds t' m)) :
    Owned (Function.update own m (some t)) holds' := by
  intro m' t'
  by_cases hm : m' = m
  · subst hm
    rw [Function.update_self]
    constructor
    · intro heq
      obtain rfl := Option.some.inj heq
      exact hself
    · intro ht'
      by_cases htt : t' = t
      · rw [htt]
      · exact absurd ((halone t' htt).mp ht') (h.free hfree t')
  · rw [Function.update_of_ne hm]
    exact (h m' t').trans (hother t' m' hm).symm

/-- Thread `t` gives back the mutex `m` it holds; nothing else changes hands. -/
theorem Owned.release {own : μ → Option τ} {holds holds' : τ → μ → Prop} (h : Owned own holds)
    {m : μ} {t : τ} (hheld : holds t m) (hself : ¬ holds' t m)
    (hother : ∀ t' m', m' ≠ m → (holds' t' m' ↔ holds t' m'))
    (halone : ∀ t', t' ≠ t → (holds' t' m ↔ holds t' m)) :
    Owned (Function.update own m none) holds' := by
  intro m' t'
  by_cases hm : m' = m
  · subst hm
    rw [Function.update_self]
    constructor
    · intro heq
      cases heq
    · intro ht'
      by_cases htt : t' = t
      · exact absurd (htt ▸ ht') hself
      · exact absurd (h.unique ((halone t' htt).mp ht') hheld) htt
  · rw [Function.update_of_ne hm]
    exact (h m' t').trans (hother t' m' hm).symm

end Mutex

end Slots
