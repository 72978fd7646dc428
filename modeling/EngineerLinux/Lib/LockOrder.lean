import Mathlib.Logic.Relation
import Mathlib.Order.WellFounded

/-!
# Locks that are taken in order

Threads hold locks and wait for locks. One thread waits for another if that one holds a lock it
waits for; threads that wait for each other in a cycle will wait for ever.

- `Ascending`: the locks have ranks, and a thread waits for none that is not above all it holds;
- `Ascending.acyclic`: **then no threads wait in a cycle**;
- `Ascending.exists_unblocked`: and who follows from any thread those that are waited for comes to
  one that waits for nobody, if ranks cannot rise for ever.
-/

universe u v w

namespace LockOrder

variable {τ : Type u} {μ : Type v} {ν : Type w}

/-- Thread `t` waits for a lock that thread `t'` holds. -/
def WaitsFor (holds waits : τ → μ → Prop) (t t' : τ) : Prop := ∃ m, waits t m ∧ holds t' m

/-- A lock that is waited for has a higher rank than all those the waiting thread holds. -/
def Ascending [LT ν] (rank : μ → ν) (holds waits : τ → μ → Prop) : Prop :=
  ∀ t m m', holds t m → waits t m' → rank m < rank m'

variable [Preorder ν] {rank : μ → ν} {holds waits : τ → μ → Prop} {t u : τ}

/-- Along a chain of waiting threads the ranks rise. -/
theorem Ascending.chain (h : Ascending rank holds waits)
    (hchain : Relation.TransGen (WaitsFor holds waits) t u) :
    ∃ m m', waits t m ∧ holds u m' ∧ rank m ≤ rank m' := by
  induction hchain with
  | single hw =>
    obtain ⟨m, hwaits, hholds⟩ := hw
    exact ⟨m, m, hwaits, hholds, le_rfl⟩
  | tail _ hw ih =>
    obtain ⟨m, m₁, hwaits, hholds, hle⟩ := ih
    obtain ⟨m₂, hwaits₂, hholds₂⟩ := hw
    exact ⟨m, m₂, hwaits, hholds₂, hle.trans (h _ _ _ hholds hwaits₂).le⟩

/-- **No threads wait in a cycle.** -/
theorem Ascending.acyclic (h : Ascending rank holds waits) (t : τ) :
    ¬ Relation.TransGen (WaitsFor holds waits) t t := by
  intro hcycle
  obtain ⟨m, m', hwaits, hholds, hle⟩ := h.chain hcycle
  exact lt_irrefl _ (hle.trans_lt (h t m' m hholds hwaits))

/-- From a thread that holds a lock, to one that waits for nobody and holds a lock as well. -/
theorem Ascending.exists_unblocked_of_holds [WellFoundedGT ν] (h : Ascending rank holds waits)
    (m : μ) : ∀ t, holds t m → ∃ u, Relation.ReflTransGen (WaitsFor holds waits) t u ∧
      (∃ m', holds u m') ∧ ∀ u', ¬ WaitsFor holds waits u u' := by
  -- the induction is on the rank of the lock, downwards
  induction m using (InvImage.wf rank wellFounded_gt).induction with
  | h m ih =>
    intro t ht
    by_cases hblocked : ∃ u, WaitsFor holds waits t u
    · obtain ⟨u, m', hwaits, hholds⟩ := hblocked
      obtain ⟨v, hchain, hv⟩ := ih m' (h t m m' ht hwaits) u hholds
      exact ⟨v, .head ⟨m', hwaits, hholds⟩ hchain, hv⟩
    · exact ⟨t, .refl, ⟨m, ht⟩, not_exists.mp hblocked⟩

/-- **Some thread waits for nobody**: the thread one begins with, or one that holds a lock. -/
theorem Ascending.exists_unblocked [WellFoundedGT ν] (h : Ascending rank holds waits) (t : τ) :
    ∃ u, Relation.ReflTransGen (WaitsFor holds waits) t u ∧ (u = t ∨ ∃ m, holds u m) ∧
      ∀ u', ¬ WaitsFor holds waits u u' := by
  by_cases hblocked : ∃ u, WaitsFor holds waits t u
  · obtain ⟨u, m, hwaits, hholds⟩ := hblocked
    obtain ⟨v, hchain, hheld, hv⟩ := h.exists_unblocked_of_holds m u hholds
    exact ⟨v, .head ⟨m, hwaits, hholds⟩ hchain, .inr hheld, hv⟩
  · exact ⟨t, .refl, .inl rfl, not_exists.mp hblocked⟩

end LockOrder
