import Mathlib.Data.List.Basic
import Mathlib.Data.Int.Init

/-!
# Descriptor tables

The table of a process's open descriptors: descriptor `fd` refers to the entry with index `fd`, and
a new descriptor is the lowest one not in use. What an entry says about a descriptor is up to the
user of this file.

- `lookup_alloc`, `lookup_put`, `lookup_free`, `lookup_dup`, `lookup_onExec`: what each operation
  does, descriptor by descriptor;
- `lookup_alloc_fst`: a new descriptor was not in use.
-/

universe u

abbrev FdTable (α : Type u) := List (Option α)

namespace FdTable

variable {α : Type u}

/-- What a descriptor refers to. -/
def lookup (t : FdTable α) (fd : Int) : Option α := if 0 ≤ fd then (t[fd.toNat]?).join else none

/-- The lowest unused descriptor, now referring to `a`. -/
def alloc [DecidableEq α] (t : FdTable α) (a : α) : Int × FdTable α :=
  let fd := t.idxOf none
  if fd < t.length then (fd, t.set fd (some a)) else (t.length, t ++ [some a])

/-- A descriptor in use is changed to refer to `a`. -/
def put (t : FdTable α) (fd : Int) (a : α) : FdTable α := t.set fd.toNat (some a)

/-- A descriptor in use is closed. -/
def free (t : FdTable α) (fd : Int) : FdTable α := t.set fd.toNat none

/-- `fd2` refers to what `fd` refers to. -/
def dup (t : FdTable α) (fd fd2 : Int) : FdTable α :=
  match t.lookup fd with
  | some a => (t ++ List.replicate (fd2.toNat + 1 - t.length) none).set fd2.toNat (some a)
  | none => t

/-- Only the descriptors that satisfy `p` survive. -/
def onExec (p : α → Bool) (t : FdTable α) : FdTable α := t.map fun e => e.filter p

variable {t : FdTable α} {fd fd' : Int} {a b : α}

theorem lookup_natCast (n : Nat) : t.lookup (n : Int) = (t[n]?).join := by
  unfold lookup
  rw [if_pos (Int.natCast_nonneg n), Int.toNat_natCast]

/-- A descriptor in use is an index of the table. -/
theorem lookup_eq_some_iff :
    t.lookup fd = some a ↔ 0 ≤ fd ∧ t[fd.toNat]? = some (some a) := by
  unfold lookup
  by_cases hfd : 0 ≤ fd
  · rw [if_pos hfd, Option.join_eq_some_iff]
    exact (and_iff_right hfd).symm
  · rw [if_neg hfd]
    exact iff_of_false nofun fun h => hfd h.1

/-! ## The operations -/

theorem lookup_set {n : Nat} {e : Option α} (hn : n < t.length) :
    lookup (List.set t n e) fd = if fd = n then e else t.lookup fd := by
  by_cases hfd : 0 ≤ fd
  · obtain ⟨m, rfl⟩ := Int.eq_ofNat_of_zero_le hfd
    rw [lookup_natCast, lookup_natCast, List.getElem?_set]
    by_cases hm : n = m
    · subst hm
      rw [if_pos rfl, if_pos hn, if_pos rfl, Option.join_some]
    · rw [if_neg hm, if_neg (by omega)]
  · unfold lookup
    rw [if_neg hfd, if_neg hfd, if_neg (by omega)]

/-- A descriptor in use gets another entry, or none. -/
theorem lookup_set_of_lookup {e : Option α} (h : t.lookup fd = some a) :
    lookup (List.set t fd.toNat e) fd' = if fd' = fd then e else t.lookup fd' := by
  obtain ⟨hfd, hget⟩ := lookup_eq_some_iff.mp h
  have hlt := (List.getElem?_eq_some_iff.mp hget).1
  rw [lookup_set hlt, Int.toNat_of_nonneg hfd]

theorem lookup_put (h : t.lookup fd = some a) :
    (t.put fd b).lookup fd' = if fd' = fd then some b else t.lookup fd' :=
  lookup_set_of_lookup h

theorem lookup_free (h : t.lookup fd = some a) :
    (t.free fd).lookup fd' = if fd' = fd then none else t.lookup fd' :=
  lookup_set_of_lookup h

/-- To close a descriptor that is not in use changes nothing. -/
theorem lookup_free_of_nonneg (hfd : 0 ≤ fd) :
    (t.free fd).lookup fd' = if fd' = fd then none else t.lookup fd' := by
  cases hlookup : t.lookup fd with
  | some a => exact lookup_free hlookup
  | none =>
    have hsame : t.free fd = t := by
      unfold free
      unfold lookup at hlookup
      rw [if_pos hfd, Option.join_eq_none_iff] at hlookup
      refine List.ext_getElem? fun n => ?_
      rw [List.getElem?_set]
      split
      · rename_i heq
        subst heq
        rcases hlookup with hnone | hsome
        · rw [hnone]
          split
          · rename_i hlt
            rw [List.getElem?_eq_getElem hlt] at hnone
            cases hnone
          · rfl
        · rw [hsome, if_pos (List.getElem?_eq_some_iff.mp hsome).1]
      · rfl
    rw [hsame]
    split
    · rename_i heq
      rw [heq, hlookup]
    · rfl

/-- Unused descriptors behind the table are unused. -/
theorem lookup_append_replicate (n : Nat) :
    lookup (t ++ List.replicate n none) fd = t.lookup fd := by
  unfold lookup
  split
  case isFalse => rfl
  case isTrue =>
    rw [List.getElem?_append]
    split
    case isTrue => rfl
    case isFalse hge =>
      rw [List.getElem?_eq_none (l := t) (Nat.not_lt.mp hge), List.getElem?_replicate]
      split <;> rfl

theorem lookup_dup {fd2 : Int} (h : t.lookup fd = some a) (hfd2 : 0 ≤ fd2) :
    (t.dup fd fd2).lookup fd' = if fd' = fd2 then some a else t.lookup fd' := by
  have hlt : fd2.toNat < (t ++ List.replicate (fd2.toNat + 1 - t.length) none).length := by
    rw [List.length_append, List.length_replicate]
    omega
  unfold dup
  rw [h]
  dsimp only
  rw [lookup_set hlt, Int.toNat_of_nonneg hfd2, lookup_append_replicate]

theorem lookup_onExec {p : α → Bool} : (t.onExec p).lookup fd = (t.lookup fd).filter p := by
  unfold lookup onExec
  split
  · rw [List.getElem?_map]
    cases t[fd.toNat]? <;> rfl
  · rfl

variable [DecidableEq α]

/-- A new descriptor was not in use. -/
theorem lookup_alloc_fst : 0 ≤ (t.alloc a).1 ∧ t.lookup (t.alloc a).1 = none := by
  unfold alloc
  by_cases hlt : t.idxOf none < t.length
  · simp only [if_pos hlt]
    refine ⟨Int.natCast_nonneg _, ?_⟩
    rw [lookup_natCast, List.getElem?_eq_getElem hlt, List.getElem_idxOf hlt]
    rfl
  · simp only [if_neg hlt]
    refine ⟨Int.natCast_nonneg _, ?_⟩
    rw [lookup_natCast, List.getElem?_eq_none (Nat.le_refl _)]
    rfl

theorem lookup_alloc :
    (t.alloc a).2.lookup fd = if fd = (t.alloc a).1 then some a else t.lookup fd := by
  unfold alloc
  by_cases hlt : t.idxOf none < t.length
  · simp only [if_pos hlt]
    exact lookup_set hlt
  · simp only [if_neg hlt]
    by_cases hfd : 0 ≤ fd
    · obtain ⟨m, rfl⟩ := Int.eq_ofNat_of_zero_le hfd
      rw [lookup_natCast, lookup_natCast]
      rcases Nat.lt_trichotomy m t.length with hm | rfl | hm
      · rw [List.getElem?_append_left hm, if_neg (by omega)]
      · rw [List.getElem?_append_right (Nat.le_refl _), Nat.sub_self, if_pos rfl]
        rfl
      · rw [List.getElem?_append_right (Nat.le_of_lt hm), if_neg (by omega),
          List.getElem?_eq_none (by simp; omega), List.getElem?_eq_none (Nat.le_of_lt hm)]
    · unfold lookup
      rw [if_neg hfd, if_neg hfd, if_neg (by omega)]

end FdTable
