import Mathlib.Data.List.Nodup
import Mathlib.Logic.Function.Basic

/-!
# Who holds which resource

A table says what each key refers to; every entry of it that satisfies `P` is held at exactly one
place, a thread or a list that threads share. `holds p` is the list of what is held at `p`.

- `Custody.Inv`: this;
- `Inv.acquire`, `Inv.assign`, `Inv.release`: a place gets a new key, changes what a key of its own
  refers to, or gives it up;
- `Inv.move`: a place gives a key to another one;
- `Inv.other`: the table changes where `P` does not hold.
-/

universe u v w

namespace Custody

variable {κ : Type u} {α : Type v} {π : Type w}

structure Inv (P : α → Prop) (table : κ → Option α) (holds : π → List (κ × α)) : Prop where
  held_iff : ∀ k a, table k = some a ∧ P a ↔ ∃ p, (k, a) ∈ holds p
  nodup : ∀ p, ((holds p).map Prod.fst).Nodup
  unique : ∀ p q k a b, (k, a) ∈ holds p → (k, b) ∈ holds q → p = q

variable {P : α → Prop} {table table' : κ → Option α} {holds holds' : π → List (κ × α)}
  {p q : π} {k : κ} {a b : α} {l : List (κ × α)}

theorem Inv.lookup (h : Inv P table holds) (hk : (k, a) ∈ holds p) : table k = some a :=
  ((h.held_iff k a).mpr ⟨p, hk⟩).1

/-- An unused key is held nowhere. -/
theorem Inv.notMem (h : Inv P table holds) (hk : table k = none) : (k, a) ∉ holds p := by
  intro hmem
  cases hk.symm.trans (h.lookup hmem)

/-- Nothing is held at first. -/
theorem Inv.initial (htable : ∀ k a, table k = some a → ¬ P a) (hholds : ∀ p, holds p = []) :
    Inv P table holds where
  held_iff k a := by
    refine iff_of_false (fun h => htable k a h.1 h.2) ?_
    rintro ⟨p, hmem⟩
    rw [hholds] at hmem
    cases hmem
  nodup p := by
    rw [hholds]
    exact List.nodup_nil
  unique p q k a b hp := by
    rw [hholds] at hp
    cases hp

/-- The places hold the same. -/
theorem Inv.congr (h : Inv P table holds) (hsame : ∀ p, holds' p = holds p) :
    Inv P table holds' := by
  obtain rfl : holds' = holds := funext hsame
  exact h

/-- The table changes at a key that is held nowhere. -/
theorem Inv.other (h : Inv P table holds) (hk : ∀ a, table k = some a → ¬ P a)
    (hk' : ∀ a, table' k = some a → ¬ P a) (hrest : ∀ k', k' ≠ k → table' k' = table k') :
    Inv P table' holds where
  held_iff k' a := by
    rw [← h.held_iff]
    by_cases heq : k' = k
    · subst heq
      exact iff_of_false (fun h => hk' a h.1 h.2) fun h => hk a h.1 h.2
    · rw [hrest k' heq]
  nodup := h.nodup
  unique := h.unique

variable [DecidableEq π] [DecidableEq κ]

/-- A place gets a key that was not in use. -/
theorem Inv.acquire (h : Inv P table holds) (hk : table k = none) (ha : P a)
    (htable : ∀ k', table' k' = if k' = k then some a else table k')
    (hp : (holds' p).Perm ((k, a) :: holds p)) (hq : ∀ q, q ≠ p → holds' q = holds q) :
    Inv P table' holds' := by
  have hat : ∀ q b, (k, b) ∈ holds' q ↔ q = p ∧ b = a := by
    intro q b
    by_cases hqp : q = p
    · rw [hqp, hp.mem_iff, List.mem_cons, Prod.mk.injEq, or_iff_left (h.notMem hk)]
      exact and_congr_left' (iff_of_true rfl rfl)
    · rw [hq q hqp]
      exact iff_of_false (h.notMem hk) fun heq => hqp heq.1
  have hrest : ∀ q k' b, k' ≠ k → ((k', b) ∈ holds' q ↔ (k', b) ∈ holds q) := by
    intro q k' b hne
    by_cases hqp : q = p
    · rw [hqp, hp.mem_iff, List.mem_cons, Prod.mk.injEq, or_iff_right fun heq => hne heq.1]
    · rw [hq q hqp]
  refine ⟨fun k' b => ?_, fun q => ?_, fun q r k' b c hb hc => ?_⟩
  · rw [htable]
    by_cases hne : k' = k
    · subst hne
      rw [if_pos rfl, Option.some.injEq]
      refine ⟨fun heq => ⟨p, (hat p b).mpr ⟨rfl, heq.1.symm⟩⟩, ?_⟩
      rintro ⟨q, hmem⟩
      obtain rfl := ((hat q b).mp hmem).2
      exact ⟨rfl, ha⟩
    · rw [if_neg hne, h.held_iff]
      exact exists_congr fun q => (hrest q k' b hne).symm
  · by_cases hqp : q = p
    · rw [hqp, (hp.map Prod.fst).nodup_iff, List.map_cons, List.nodup_cons]
      refine ⟨fun hmem => ?_, h.nodup p⟩
      obtain ⟨e, he, rfl⟩ := List.mem_map.mp hmem
      exact h.notMem (a := e.2) hk he
    · rw [hq q hqp]
      exact h.nodup q
  · by_cases hne : k' = k
    · subst hne
      exact ((hat q b).mp hb).1.trans ((hat r c).mp hc).1.symm
    · exact h.unique q r k' b c ((hrest q k' b hne).mp hb) ((hrest r k' c hne).mp hc)

/-- A place gives up a key of its own. -/
theorem Inv.release (h : Inv P table holds)
    (htable : ∀ k', table' k' = if k' = k then none else table k')
    (hp : (holds p).Perm ((k, a) :: holds' p)) (hq : ∀ q, q ≠ p → holds' q = holds q) :
    Inv P table' holds' := by
  have hkeys := h.nodup p
  rw [(hp.map Prod.fst).nodup_iff, List.map_cons, List.nodup_cons] at hkeys
  have hat : ∀ q b, (k, b) ∉ holds' q := by
    intro q b hmem
    by_cases hqp : q = p
    · rw [hqp] at hmem
      exact hkeys.1 (List.mem_map.mpr ⟨_, hmem, rfl⟩)
    · rw [hq q hqp] at hmem
      exact hqp (h.unique q p k b a hmem (hp.mem_iff.mpr (List.mem_cons_self ..)))
  have hrest : ∀ q k' b, k' ≠ k → ((k', b) ∈ holds' q ↔ (k', b) ∈ holds q) := by
    intro q k' b hne
    by_cases hqp : q = p
    · rw [hqp, hp.mem_iff, List.mem_cons, Prod.mk.injEq, or_iff_right fun heq => hne heq.1]
    · rw [hq q hqp]
  refine ⟨fun k' b => ?_, fun q => ?_, fun q r k' b c hb hc => ?_⟩
  · rw [htable]
    by_cases hne : k' = k
    · subst hne
      rw [if_pos rfl]
      exact iff_of_false (fun h => nomatch h.1) fun ⟨q, hmem⟩ => hat q b hmem
    · rw [if_neg hne, h.held_iff]
      exact exists_congr fun q => (hrest q k' b hne).symm
  · by_cases hqp : q = p
    · rw [hqp]
      exact hkeys.2
    · rw [hq q hqp]
      exact h.nodup q
  · by_cases hne : k' = k
    · exact absurd (hne ▸ hb) (hat q b)
    · exact h.unique q r k' b c ((hrest q k' b hne).mp hb) ((hrest r k' c hne).mp hc)

/-- A place changes what a key of its own refers to. -/
theorem Inv.assign (h : Inv P table holds) (hb : P b)
    (htable : ∀ k', table' k' = if k' = k then some b else table k')
    (hp : (holds p).Perm ((k, a) :: l)) (hp' : (holds' p).Perm ((k, b) :: l))
    (hq : ∀ q, q ≠ p → holds' q = holds q) : Inv P table' holds' := by
  have hmid : Inv P (Function.update table k none) (Function.update holds p l) :=
    h.release (p := p) (Function.update_apply table k none)
      (by rw [Function.update_self]; exact hp) fun q hqp => Function.update_of_ne hqp ..
  refine hmid.acquire (p := p) (Function.update_self ..) hb (fun k' => ?_)
    (by rw [Function.update_self]; exact hp') fun q hqp => ?_
  · rw [htable, Function.update_apply]
    split <;> rfl
  · rw [Function.update_of_ne hqp, hq q hqp]

/-- A place gives a key to another one. -/
theorem Inv.move (h : Inv P table holds) (hne : q ≠ p)
    (hp : (holds p).Perm ((k, a) :: holds' p)) (hq : (holds' q).Perm ((k, a) :: holds q))
    (hr : ∀ r, r ≠ p → r ≠ q → holds' r = holds r) : Inv P table holds' := by
  obtain ⟨hk, ha⟩ := (h.held_iff k a).mpr ⟨p, hp.mem_iff.mpr (List.mem_cons_self ..)⟩
  have hmid : Inv P (Function.update table k none) (Function.update holds p (holds' p)) :=
    h.release (p := p) (Function.update_apply table k none)
      (by rw [Function.update_self]; exact hp) fun r hrp => Function.update_of_ne hrp ..
  refine hmid.acquire (p := q) (Function.update_self ..) ha (fun k' => ?_)
    (by rw [Function.update_of_ne hne]; exact hq) fun r hrq => ?_
  · rw [Function.update_apply]
    by_cases heq : k' = k
    · rw [if_pos heq, heq, hk]
    · rw [if_neg heq, if_neg heq]
  · by_cases hrp : r = p
    · rw [hrp, Function.update_self]
    · rw [Function.update_of_ne hrp, hr r hrp hrq]

end Custody
