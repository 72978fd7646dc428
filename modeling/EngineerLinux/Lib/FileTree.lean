import Mathlib.Logic.Function.Basic

/-!
# A tree of files

What is at which place: regular files, symbolic links, directories and other things. A place is
the list of the names on the way to it. That every entry is in a directory and has a proper name
is part of the tree, so the operations cannot lose it.

Every operation is `Tree.set` behind a test, and there are two lemmas about each: `.._eq` says that
it succeeds and which entries there are then, and `of_..` what must have been there if it has.

- `Tree.set`: the one way to change a tree, with what keeps it a tree;
- `Tree.create`, `Tree.unlink`, `Tree.rmdir`, `Tree.write`, `Tree.chmod`, `Tree.rename`: the
  operations, each with a theorem for when it succeeds and what it does to the entries.
-/

namespace Files

/-- A path or a part of one: the bytes of a C string. -/
abbrev Text := List Char

/-- The names on the way from the root, the last one first. -/
abbrev Loc := List Text

inductive Entry where
  | reg (data : List UInt8) (mode : Nat)
  | lnk (target : Text)
  | dir (mode : Nat)
  /-- A device, a FIFO or a socket. -/
  | other (mode : Nat)
  deriving DecidableEq

/-- The entry with other permissions. -/
def Entry.chmod (mode : Nat) : Entry → Entry
  | .reg data _ => .reg data mode
  | .lnk target => .lnk target
  | .dir _ => .dir mode
  | .other _ => .other mode

/-- What can be the name of an entry. -/
def IsName (n : Text) : Prop :=
  n ≠ [] ∧ n ≠ ['.'] ∧ n ≠ ['.', '.'] ∧ '/' ∉ n ∧ n.length ≤ 255

instance (n : Text) : Decidable (IsName n) := inferInstanceAs (Decidable (_ ∧ _))

structure Tree where
  entry : Loc → Option Entry
  /-- Nothing is anywhere else. -/
  support : List Loc
  covers : ∀ l, entry l ≠ none → l ∈ support
  parents : ∀ n l, entry (n :: l) ≠ none → ∃ mode, entry l = some (.dir mode)
  names : ∀ n l, entry (n :: l) ≠ none → IsName n
  targets : ∀ l, entry l ≠ some (.lnk [])

namespace Tree

variable {t t' : Tree} {l l' : Loc} {n : Text} {e : Entry}

def isDir (t : Tree) (l : Loc) : Bool :=
  match t.entry l with
  | some (.dir _) => true
  | _ => false

theorem isDir_iff : t.isDir l = true ↔ ∃ mode, t.entry l = some (.dir mode) := by
  unfold isDir
  constructor
  · intro h
    split at h
    · next mode hentry => exact ⟨mode, hentry⟩
    · cases h
  · rintro ⟨mode, h⟩
    rw [h]

/-- What holds of the entries at the places of the support holds of all. -/
theorem forall_entry {P : Loc → Entry → Prop} (h : ∀ l ∈ t.support, ∀ e ∈ t.entry l, P l e)
    (he : t.entry l = some e) : P l e :=
  h l (t.covers l (by rw [he]; exact Option.some_ne_none e)) e he

/-- What is in something is in a directory. -/
theorem isDir_of_entry (h : t.entry (n :: l) ≠ none) : t.isDir l = true :=
  isDir_iff.mpr (t.parents n l h)

theorem entry_eq_none (h : t.isDir l = false) (n : Text) : t.entry (n :: l) = none := by
  by_contra hne
  rw [isDir_of_entry hne] at h
  cases h

theorem isDir_of_none (h : t.entry l = none) : t.isDir l = false := by
  unfold isDir
  rw [h]

theorem isDir_of_some {e : Entry} (h : t.entry l = some e) (he : ∀ mode, e ≠ .dir mode) :
    t.isDir l = false := by
  unfold isDir
  rw [h]
  cases e with
  | dir mode => exact absurd rfl (he mode)
  | reg | lnk | other => rfl

/-- Where there is nothing or a directory, there is no link. -/
theorem ne_lnk (h : t.entry l = none ∨ t.isDir l = true) (target : Text) :
    t.entry l ≠ some (.lnk target) := by
  intro heq
  rcases h with hnone | hdir
  · rw [hnone] at heq
    cases heq
  · rw [isDir_of_some heq fun _ h => by cases h] at hdir
    cases hdir

theorem isDir_congr (h : t'.entry l = t.entry l) : t'.isDir l = t.isDir l := by
  unfold isDir
  rw [h]

/-- Nothing is in it. -/
def Empty (t : Tree) (l : Loc) : Prop := ∀ n, t.entry (n :: l) = none

instance : Decidable (t.Empty l) :=
  decidable_of_iff (∀ x ∈ t.support, x.tail = l → x = [] ∨ t.entry x = none) <| by
    constructor
    · intro h n
      by_contra hne
      rcases h _ (t.covers _ hne) rfl with hnil | hnone
      · cases hnil
      · exact hne hnone
    · intro h x _ hx
      cases x with
      | nil => exact .inl rfl
      | cons n l' =>
        subst hx
        exact .inr (h n)

/-- Nothing but the root. -/
def root : Tree where
  entry l := if l = [] then some (.dir 493) else none
  support := [[]]
  covers l hl := by
    by_cases h : l = []
    · exact h ▸ List.mem_singleton_self _
    · rw [if_neg h] at hl
      exact absurd rfl hl
  parents n l hl := absurd (if_neg (List.cons_ne_nil n l)) hl
  names n l hl := absurd (if_neg (List.cons_ne_nil n l)) hl
  targets l := by split <;> nofun

/-! ## The operations -/

/-- The tree with another entry, or none, at a place: an entry with a proper name in a directory,
and none but a directory where something is inside. -/
def set (t : Tree) (l : Loc) (e : Option Entry)
    (hin : e ≠ none → ∀ n l', l = n :: l' → t.isDir l' = true ∧ IsName n)
    (hempty : (∃ mode, e = some (.dir mode)) ∨ t.Empty l) (he : e ≠ some (.lnk [])) : Tree where
  entry := Function.update t.entry l e
  support := l :: t.support
  covers x hx := by
    by_cases h : x = l
    · exact h ▸ List.mem_cons_self ..
    · rw [Function.update_of_ne h] at hx
      exact List.mem_cons_of_mem _ (t.covers x hx)
  parents n l' hx := by
    have hl' : t.isDir l' = true := by
      by_cases h : n :: l' = l
      · rw [h, Function.update_self] at hx
        exact (hin hx n l' h.symm).1
      · rw [Function.update_of_ne h] at hx
        exact isDir_of_entry hx
    by_cases h : l' = l
    · rw [h, Function.update_self]
      rcases hempty with hdir | hempty
      · exact hdir
      · rw [h, Function.update_of_ne (List.cons_ne_self _ _), hempty n] at hx
        exact absurd rfl hx
    · rw [Function.update_of_ne h]
      exact isDir_iff.mp hl'
  names n l' hx := by
    by_cases h : n :: l' = l
    · rw [h, Function.update_self] at hx
      exact (hin hx n l' h.symm).2
    · rw [Function.update_of_ne h] at hx
      exact t.names n l' hx
  targets x := by
    by_cases h : x = l
    · rw [h, Function.update_self]
      exact he
    · rw [Function.update_of_ne h]
      exact t.targets x

/-- An entry that is there has a proper name and is in a directory. -/
theorem mem_dir (h : t.entry l ≠ none) : ∀ n l', l = n :: l' → t.isDir l' = true ∧ IsName n := by
  rintro n l' rfl
  exact ⟨isDir_of_entry h, t.names n l' h⟩

/-- Make a new entry. -/
def create (t : Tree) (l : Loc) (n : Text) (e : Entry) : Option Tree :=
  if h : t.isDir l = true ∧ IsName n ∧ t.entry (n :: l) = none ∧ e ≠ .lnk [] then
    some <| t.set (n :: l) (some e)
      (by rintro - _ _ ⟨⟩; exact ⟨h.1, h.2.1⟩)
      (.inr (entry_eq_none (by unfold isDir; rw [h.2.2.1])))
      (fun heq => h.2.2.2 (Option.some.inj heq))
  else none

/-- Remove an entry that is no directory. -/
def unlink (t : Tree) (l : Loc) : Option Tree :=
  if h : t.entry l ≠ none ∧ t.isDir l = false then
    some <| t.set l none (fun hne => absurd rfl hne) (.inr (entry_eq_none h.2)) nofun
  else none

/-- Remove an empty directory. -/
def rmdir (t : Tree) (l : Loc) : Option Tree :=
  if h : t.isDir l = true ∧ t.Empty l then
    some <| t.set l none (fun hne => absurd rfl hne) (.inr h.2) nofun
  else none

/-- Other bytes in a regular file, from an offset on. -/
def write (t : Tree) (l : Loc) (off : Nat) (bytes : List UInt8) : Option Tree :=
  match h : t.entry l with
  | some (.reg data mode) =>
    some <| t.set l (some (.reg (data.take off ++ bytes ++ data.drop (off + bytes.length)) mode))
      (fun _ => mem_dir (by rw [h]; exact Option.some_ne_none _))
      (.inr (entry_eq_none (by unfold isDir; rw [h]))) nofun
  | _ => none

/-- Other permissions. -/
def chmod (t : Tree) (l : Loc) (mode : Nat) : Option Tree :=
  match h : t.entry l with
  | some e =>
    some <| t.set l (some (e.chmod mode))
      (fun _ => mem_dir (by rw [h]; exact Option.some_ne_none _))
      (by
        cases e with
        | dir => exact .inl ⟨mode, rfl⟩
        | reg | lnk | other => exact .inr (entry_eq_none (by unfold isDir; rw [h])))
      (by
        cases e with
        | lnk => exact h ▸ t.targets l
        | reg | dir | other => nofun)
  | none => none

/-- Give an entry that is no directory another place, instead of what is there unless this is a
directory. -/
def rename (t : Tree) (l l' : Loc) (n : Text) : Option Tree :=
  match he : t.entry l with
  | some e =>
    if h : t.isDir l = false ∧ t.isDir l' = true ∧ IsName n ∧ t.isDir (n :: l') = false then
      if n :: l' = l then some t
      else
        some <| (t.set (n :: l') (some e) (by rintro - _ _ ⟨⟩; exact ⟨h.2.1, h.2.2.1⟩)
          (.inr (entry_eq_none h.2.2.2)) (he ▸ t.targets l)).set l none (fun hne => absurd rfl hne)
          (.inr (by
            intro m
            show Function.update t.entry (n :: l') (some e) (m :: l) = none
            rw [Function.update_of_ne (by rintro ⟨⟩; rw [h.1] at h; exact absurd h.2.1 nofun)]
            exact entry_eq_none h.1 m)) nofun
    else none
  | none => none

/-! ## When they succeed, and what they do -/

theorem create_eq (hl : t.isDir l = true) (hn : IsName n) (hnone : t.entry (n :: l) = none)
    (he : e ≠ .lnk []) : ∃ t', t.create l n e = some t' ∧
      t'.entry = Function.update t.entry (n :: l) (some e) :=
  ⟨_, dif_pos ⟨hl, hn, hnone, he⟩, rfl⟩

/-- Whatever `create` makes was not there. -/
theorem of_create (h : t.create l n e = some t') : t.entry (n :: l) = none ∧
    t'.entry = Function.update t.entry (n :: l) (some e) := by
  unfold create at h
  split at h
  · next hc =>
    cases h
    exact ⟨hc.2.2.1, rfl⟩
  · cases h

theorem create_eq_none (h : t.isDir l = false ∨ t.entry (n :: l) ≠ none ∨ e = .lnk []) :
    t.create l n e = none := by
  refine dif_neg ?_
  rintro ⟨hl, -, hnone, he⟩
  rcases h with hl' | hsome | he'
  · rw [hl] at hl'
    cases hl'
  · exact hsome hnone
  · exact he he'

theorem unlink_eq (h : t.entry l = some e) (hdir : t.isDir l = false) :
    ∃ t', t.unlink l = some t' ∧ t'.entry = Function.update t.entry l none :=
  ⟨_, dif_pos ⟨by rw [h]; exact Option.some_ne_none _, hdir⟩, rfl⟩

theorem rmdir_eq (h : t.isDir l = true) (hempty : t.Empty l) :
    ∃ t', t.rmdir l = some t' ∧ t'.entry = Function.update t.entry l none :=
  ⟨_, dif_pos ⟨h, hempty⟩, rfl⟩

/-- Whatever `unlink` removes was no directory. -/
theorem of_unlink (h : t.unlink l = some t') : t.isDir l = false ∧
    t'.entry = Function.update t.entry l none := by
  unfold unlink at h
  split at h
  · next hc =>
    cases h
    exact ⟨hc.2, rfl⟩
  · cases h

/-- Whatever `rmdir` removes was an empty directory. -/
theorem of_rmdir (h : t.rmdir l = some t') : t.isDir l = true ∧ t.Empty l ∧
    t'.entry = Function.update t.entry l none := by
  unfold rmdir at h
  split at h
  · next hc =>
    cases h
    exact ⟨hc.1, hc.2, rfl⟩
  · cases h

theorem write_eq {data : List UInt8} {mode : Nat} (h : t.entry l = some (.reg data mode))
    (off : Nat) (bytes : List UInt8) : ∃ t', t.write l off bytes = some t' ∧
      t'.entry = Function.update t.entry l
        (some (.reg (data.take off ++ bytes ++ data.drop (off + bytes.length)) mode)) := by
  unfold write
  split
  · next data' mode' h' =>
    rw [h] at h'
    cases h'
    exact ⟨_, rfl, rfl⟩
  · next hne => exact absurd h (hne data mode)

theorem of_write {off : Nat} {bytes : List UInt8} (h : t.write l off bytes = some t') :
    ∃ data mode, t.entry l = some (.reg data mode) ∧ t'.entry = Function.update t.entry l
      (some (.reg (data.take off ++ bytes ++ data.drop (off + bytes.length)) mode)) := by
  unfold write at h
  split at h
  · next data mode he =>
    cases h
    exact ⟨data, mode, he, rfl⟩
  · cases h

theorem chmod_eq (h : t.entry l = some e) (mode : Nat) : ∃ t', t.chmod l mode = some t' ∧
    t'.entry = Function.update t.entry l (some (e.chmod mode)) := by
  unfold chmod
  split
  · next e' h' =>
    rw [h] at h'
    cases h'
    exact ⟨_, rfl, rfl⟩
  · next h' =>
    rw [h] at h'
    cases h'

/-- An entry that is no directory moves to where there is none either. -/
theorem rename_eq (h : t.entry l = some e) (hl : t.isDir l = false) (hl' : t.isDir l' = true)
    (hn : IsName n) (hn' : t.isDir (n :: l') = false) (hne : n :: l' ≠ l) :
    ∃ t', t.rename l l' n = some t' ∧
      t'.entry = Function.update (Function.update t.entry (n :: l') (some e)) l none := by
  unfold rename
  split
  · next e' h' =>
    rw [h] at h'
    cases h'
    rw [dif_pos ⟨hl, hl', hn, hn'⟩, if_neg hne]
    exact ⟨_, rfl, rfl⟩
  · next h' =>
    rw [h] at h'
    cases h'

/-- Whatever `chmod` changes was there. -/
theorem of_chmod {mode : Nat} (h : t.chmod l mode = some t') : ∃ e, t.entry l = some e ∧
    t'.entry = Function.update t.entry l (some (e.chmod mode)) := by
  unfold chmod at h
  split at h
  · next e he =>
    cases h
    exact ⟨e, he, rfl⟩
  · cases h

/-- Whatever `rename` moves, and what it replaces, was no directory. -/
theorem of_rename (h : t.rename l l' n = some t') : t' = t ∨
    ∃ e, t.entry l = some e ∧ t.isDir l = false ∧ t.isDir (n :: l') = false ∧ n :: l' ≠ l ∧
      t'.entry = Function.update (Function.update t.entry (n :: l') (some e)) l none := by
  unfold rename at h
  split at h
  · next e he =>
    split at h
    · next hc =>
      split at h
      · cases h
        exact .inl rfl
      · next hne =>
        cases h
        exact .inr ⟨e, he, hc.1, hc.2.2.2, hne, rfl⟩
    · cases h
  · cases h

/-- Whether a new entry can be made, and what there is then, depends on the entries alone. -/
theorem create_congr (h : t'.entry = t.entry) (l : Loc) (n : Text) (e : Entry) :
    (t'.create l n e).map entry = (t.create l n e).map entry := by
  have hiff : t'.isDir l = true ∧ IsName n ∧ t'.entry (n :: l) = none ∧ e ≠ .lnk [] ↔
      t.isDir l = true ∧ IsName n ∧ t.entry (n :: l) = none ∧ e ≠ .lnk [] := by
    rw [isDir_congr (congrFun h l), h]
  by_cases hc : t.isDir l = true ∧ IsName n ∧ t.entry (n :: l) = none ∧ e ≠ .lnk []
  · rw [create, create, dif_pos hc, dif_pos (hiff.mpr hc)]
    show some (Function.update t'.entry _ _) = some (Function.update t.entry _ _)
    rw [h]
  · rw [create, create, dif_neg hc, dif_neg fun hc' => hc (hiff.mp hc')]

theorem rmdir_congr (h : t'.entry = t.entry) (l : Loc) :
    (t'.rmdir l).map entry = (t.rmdir l).map entry := by
  have hiff : t'.isDir l = true ∧ t'.Empty l ↔ t.isDir l = true ∧ t.Empty l := by
    rw [isDir_congr (congrFun h l), Empty, h, Empty]
  by_cases hc : t.isDir l = true ∧ t.Empty l
  · rw [rmdir, rmdir, dif_pos hc, dif_pos (hiff.mpr hc)]
    show some (Function.update t'.entry _ _) = some (Function.update t.entry _ _)
    rw [h]
  · rw [rmdir, rmdir, dif_neg hc, dif_neg fun hc' => hc (hiff.mp hc')]

/-- To give an entry the place that it has changes nothing. -/
theorem rename_self (h : t.entry (n :: l) = some e) (hdir : t.isDir (n :: l) = false) :
    t.rename (n :: l) l n = some t := by
  have hne : t.entry (n :: l) ≠ none := by
    rw [h]
    exact Option.some_ne_none _
  unfold rename
  split
  · rw [dif_pos ⟨hdir, isDir_of_entry hne, t.names n l hne, hdir⟩, if_pos rfl]
  · next h' => exact absurd h' hne

end Tree

end Files
