import Mathlib.Data.Finset.Card
import Mathlib.Data.Finset.Insert
import Mathlib.Logic.Function.Basic

/-!
# A lock and what it protects

Threads at program points share some data that one lock protects. While the lock is free the data
satisfies an assertion `R`; while a thread holds it, the data satisfies what the program point of
this thread says (`A`).

A thread that does not hold the lock has no part in this, so a step needs to be looked at only for
what it does to the data at the program point of the thread that moves: to take the lock is to
trade `R` for `A`, to give it back the other way round.

- `Monitor.Inv`: this, and that the lock's owner is the thread at a program point inside;
- `Inv.outside`, `Inv.acquire`, `Inv.inside`, `Inv.release`: the four ways a thread can move;
- `Counted`: how many threads satisfy a predicate, with the moves of one thread.
-/

universe u v w

namespace Monitor

variable {ι : Type u} {π : Type v} {σ : Type w}

/-- The lock, the program points of the threads and the data they share, when the threads at
program points `holds` are those inside. -/
structure Inv (holds : π → Bool) (R : σ → Prop) (A : π → σ → Prop) (lock : Option ι) (pc : ι → π)
    (data : σ) : Prop where
  owned : ∀ i, lock = some i ↔ holds (pc i) = true
  free : lock = none → R data
  held : ∀ i, holds (pc i) = true → A (pc i) data

variable {holds : π → Bool} {R : σ → Prop} {A : π → σ → Prop} {lock : Option ι} {pc : ι → π}
  {data data' : σ} {i j : ι} {p : π}

/-- Nobody is inside at first. -/
theorem Inv.initial (hpc : ∀ i, holds (pc i) = false) (hR : R data) :
    Inv holds R A none pc data where
  owned i := by
    rw [hpc]
    exact iff_of_false (Option.some_ne_none i).symm Bool.false_ne_true
  free _ := hR
  held i hi := absurd hi (by rw [hpc]; exact Bool.false_ne_true)

/-- At most one thread is inside. -/
theorem Inv.unique (h : Inv holds R A lock pc data) (hi : holds (pc i) = true)
    (hj : holds (pc j) = true) : i = j :=
  Option.some.inj (((h.owned i).mpr hi).symm.trans ((h.owned j).mpr hj))

/-- The data at any time: nobody is inside, or the one who is says what it is like. -/
theorem Inv.cases (h : Inv holds R A lock pc data) :
    R data ∨ ∃ j, holds (pc j) = true ∧ A (pc j) data := by
  cases hlock : lock with
  | none => exact .inl (h.free hlock)
  | some j =>
    have hj := (h.owned j).mp hlock
    exact .inr ⟨j, hj, h.held j hj⟩

/-- The data changes in a way that all assertions allow. -/
theorem Inv.change (h : Inv holds R A lock pc data) (hR : R data → R data')
    (hA : ∀ p, A p data → A p data') : Inv holds R A lock pc data' where
  owned := h.owned
  free hlock := hR (h.free hlock)
  held j hj := hA _ (h.held j hj)

variable [DecidableEq ι]

/-- A thread moves outside. -/
theorem Inv.outside (h : Inv holds R A lock pc data) (hi : holds (pc i) = false)
    (hp : holds p = false) : Inv holds R A lock (Function.update pc i p) data := by
  have hsame : ∀ j, holds (Function.update pc i p j) = holds (pc j) := by
    intro j
    by_cases hj : j = i
    · rw [hj, Function.update_self, hi, hp]
    · rw [Function.update_of_ne hj]
  refine ⟨fun j => ?_, h.free, fun j hj => ?_⟩
  · rw [hsame, h.owned]
  · rw [hsame] at hj
    have hne : j ≠ i := by
      rintro rfl
      rw [hi] at hj
      cases hj
    rw [Function.update_of_ne hne]
    exact h.held j hj

/-- A thread takes the free lock. -/
theorem Inv.acquire (h : Inv holds R A lock pc data) (hlock : lock = none) (hp : holds p = true)
    (hA : R data → A p data) : Inv holds R A (some i) (Function.update pc i p) data := by
  have hnone : ∀ j, holds (pc j) = false := by
    intro j
    by_contra hj
    rw [Bool.not_eq_false, ← h.owned, hlock] at hj
    cases hj
  have hiff : ∀ j, holds (Function.update pc i p j) = true ↔ j = i := by
    intro j
    by_cases hj : j = i
    · rw [hj, Function.update_self]
      exact iff_of_true hp rfl
    · rw [Function.update_of_ne hj, hnone]
      exact iff_of_false Bool.false_ne_true hj
  refine ⟨fun j => ?_, nofun, fun j hj => ?_⟩
  · rw [hiff, Option.some.injEq]
    exact eq_comm
  · rw [(hiff j).mp hj, Function.update_self]
    exact hA (h.free hlock)

/-- The thread inside moves on, and may change the data. -/
theorem Inv.inside (h : Inv holds R A lock pc data) (hi : holds (pc i) = true)
    (hp : holds p = true) (hA : A (pc i) data → A p data') :
    Inv holds R A lock (Function.update pc i p) data' := by
  have hlock := (h.owned i).mpr hi
  have hiff : ∀ j, holds (Function.update pc i p j) = true ↔ j = i := by
    intro j
    by_cases hj : j = i
    · rw [hj, Function.update_self]
      exact iff_of_true hp rfl
    · rw [Function.update_of_ne hj]
      exact ⟨fun hin => h.unique hin hi, fun heq => absurd heq hj⟩
  refine ⟨fun j => ?_, fun hfree => ?_, fun j hj => ?_⟩
  · rw [hiff, hlock, Option.some.injEq]
    exact eq_comm
  · rw [hlock] at hfree
    cases hfree
  · rw [(hiff j).mp hj, Function.update_self]
    exact hA (h.held i hi)

/-- The thread inside leaves, and may change the data with its last step. -/
theorem Inv.release (h : Inv holds R A lock pc data) (hi : holds (pc i) = true)
    (hp : holds p = false) (hR : A (pc i) data → R data') :
    Inv holds R A none (Function.update pc i p) data' := by
  have hnone : ∀ j, holds (Function.update pc i p j) = false := by
    intro j
    by_cases hj : j = i
    · rw [hj, Function.update_self, hp]
    · rw [Function.update_of_ne hj]
      by_contra hin
      exact hj (h.unique (Bool.not_eq_false _ ▸ hin) hi)
  exact .initial hnone (hR (h.held i hi))

end Monitor

/-! ## Counting threads -/

section

variable {ι : Type u}

/-- There are `n` threads that satisfy `p`. -/
def Counted (p : ι → Prop) (n : Nat) : Prop := ∃ s : Finset ι, (∀ i, i ∈ s ↔ p i) ∧ s.card = n

namespace Counted

variable {p q : ι → Prop} {n : Nat} {i j : ι}

theorem zero (h : ∀ i, ¬ p i) : Counted p 0 :=
  ⟨∅, fun i => iff_of_false (Finset.notMem_empty i) (h i), Finset.card_empty⟩

theorem eq_zero_iff (h : Counted p n) : n = 0 ↔ ∀ i, ¬ p i := by
  obtain ⟨s, hs, rfl⟩ := h
  rw [Finset.card_eq_zero, Finset.eq_empty_iff_forall_notMem]
  exact forall_congr' fun i => not_congr (hs i)

theorem pos (h : Counted p n) (hi : p i) : 0 < n :=
  Nat.pos_of_ne_zero fun hn => h.eq_zero_iff.mp hn i hi

/-- If there is one only, two of them are the same. -/
theorem eq_of_one (h : Counted p 1) (hi : p i) (hj : p j) : i = j := by
  obtain ⟨s, hs, hcard⟩ := h
  obtain ⟨a, rfl⟩ := Finset.card_eq_one.mp hcard
  exact (Finset.mem_singleton.mp ((hs i).mpr hi)).trans
    (Finset.mem_singleton.mp ((hs j).mpr hj)).symm

theorem congr (h : Counted p n) (hsame : ∀ i, q i ↔ p i) : Counted q n := by
  obtain ⟨s, hs, hcard⟩ := h
  exact ⟨s, fun i => (hs i).trans (hsame i).symm, hcard⟩

variable [DecidableEq ι]

/-- One more. -/
theorem enter (h : Counted p n) (hi : ¬ p i) (hself : q i) (hother : ∀ j, j ≠ i → (q j ↔ p j)) :
    Counted q (n + 1) := by
  obtain ⟨s, hs, rfl⟩ := h
  have hmem : i ∉ s := fun hmem => hi ((hs i).mp hmem)
  refine ⟨insert i s, fun j => ?_, Finset.card_insert_of_notMem hmem⟩
  rw [Finset.mem_insert]
  by_cases hj : j = i
  · exact iff_of_true (.inl hj) (hj ▸ hself)
  · rw [or_iff_right hj, hother j hj, hs]

/-- One less. -/
theorem leave (h : Counted p (n + 1)) (hi : p i) (hself : ¬ q i)
    (hother : ∀ j, j ≠ i → (q j ↔ p j)) : Counted q n := by
  obtain ⟨s, hs, hcard⟩ := h
  refine ⟨s.erase i, fun j => ?_, ?_⟩
  · rw [Finset.mem_erase]
    by_cases hj : j = i
    · exact iff_of_false (fun h => h.1 hj) (hj ▸ hself)
    · rw [and_iff_right hj, hother j hj, hs]
  · rw [Finset.card_erase_of_mem ((hs i).mpr hi), hcard]
    rfl

/-! The predicate may be about the program points. -/

variable {π : Type v} {c : π → Bool} {pc : ι → π} {a : π}

theorem update_same (h : Counted (fun j => c (pc j) = true) n) (ha : c a = c (pc i)) :
    Counted (fun j => c (Function.update pc i a j) = true) n := by
  refine h.congr fun j => ?_
  by_cases hj : j = i
  · rw [hj, Function.update_self, ha]
  · rw [Function.update_of_ne hj]

theorem update_enter (h : Counted (fun j => c (pc j) = true) n) (hi : c (pc i) = false)
    (ha : c a = true) : Counted (fun j => c (Function.update pc i a j) = true) (n + 1) := by
  refine h.enter (i := i) (by rw [hi]; exact Bool.false_ne_true) ?_ fun j hj => ?_
  · rw [Function.update_self, ha]
  · rw [Function.update_of_ne hj]

theorem update_leave (h : Counted (fun j => c (pc j) = true) (n + 1)) (hi : c (pc i) = true)
    (ha : c a = false) : Counted (fun j => c (Function.update pc i a j) = true) n := by
  refine h.leave hi ?_ fun j hj => ?_
  · rw [Function.update_self, ha]
    exact Bool.false_ne_true
  · rw [Function.update_of_ne hj]

end Counted

end
