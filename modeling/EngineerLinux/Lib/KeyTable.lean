import Mathlib.Data.List.Pairwise
import Mathlib.Data.Nat.Basic

/-!
# Objects under keys

A table of live objects, each with the id the system chose for it and the key it was created
under. Ids are unique; keys are too, except key 0, which any number of objects may have and under
which none is ever found. Both are fields of the table, so that there is no other table.

- `KeyTable.find`, `KeyTable.create`, `KeyTable.remove`, `KeyTable.modify`: the operations;
- `KeyTable.Replaced`: the table after an object has been created under a key, in place of the one
  that may have been there, with `replaced_of_create` and `replaced_of_remove` for the two ways to
  get there and `Replaced.modify` for a change of the new object's value;
- `KeyTable.RenewedAll`: one creation after another, of which all that counts is that objects under
  other keys stay. `RenewedAll.mem`: objects created under different keys are all there at the end;
- `KeyTable.unkey`, `IdAlloc.avoiding`: for objects that are kept after their key has been given up,
  and ids that are not used again.
-/

universe u

/-- How ids are chosen: never one that is in use. -/
structure IdAlloc where
  pick : List Nat → Nat
  fresh : ∀ used, pick used ∉ used

/-- One more than the largest id in use. -/
def IdAlloc.next : IdAlloc where
  pick used := used.foldr max 0 + 1
  fresh used := by
    have hle : ∀ id ∈ used, id ≤ used.foldr max 0 := by
      induction used with
      | nil => nofun
      | cons x xs ih =>
        intro id hid
        rcases List.mem_cons.mp hid with rfl | hid
        · exact Nat.le_max_left ..
        · exact Nat.le_trans (ih id hid) (Nat.le_max_right ..)
    exact fun hmem => absurd (hle _ hmem) (Nat.not_succ_le_self _)

/-- An object with its id and its key. -/
structure Named (α : Type u) where
  id : Nat
  key : Nat
  val : α

/-- The live objects. -/
structure KeyTable (α : Type u) where
  entries : List (Named α)
  ids : entries.Pairwise fun e e' => e.id ≠ e'.id
  keys : entries.Pairwise fun e e' => e.key = e'.key → e.key = 0

namespace KeyTable

variable {α : Type u} {A : IdAlloc} {t t' : KeyTable α} {key id : Nat} {val : α} {e e' : Named α}

instance : Membership (Named α) (KeyTable α) := ⟨fun t e => e ∈ t.entries⟩

/-- No objects. -/
def empty : KeyTable α := ⟨[], .nil, .nil⟩

/-- The object under a key. -/
def find (t : KeyTable α) (key : Nat) : Option (Named α) :=
  if key = 0 then none else t.entries.find? fun e => e.key = key

/-- The object with an id. -/
def get (t : KeyTable α) (id : Nat) : Option (Named α) := t.entries.find? fun e => e.id = id

/-- The table without the object of this id. -/
def remove (t : KeyTable α) (id : Nat) : KeyTable α where
  entries := t.entries.filter fun e => e.id ≠ id
  ids := t.ids.filter _
  keys := t.keys.filter _

/-- The table with another value for the object of this id. -/
def modify (t : KeyTable α) (id : Nat) (f : α → α) : KeyTable α where
  entries := t.entries.map fun e => { e with val := if e.id = id then f e.val else e.val }
  ids := List.pairwise_map.mpr t.ids
  keys := List.pairwise_map.mpr t.keys

/-! ## Finding -/

/-- Nothing is found under a key that no object has. -/
theorem find_eq_none_iff : t.find key = none ↔ key = 0 ∨ ∀ e ∈ t, e.key ≠ key := by
  unfold find
  split
  · next h => exact iff_of_true rfl (.inl h)
  · next h =>
    rw [List.find?_eq_none]
    simp only [decide_eq_true_eq]
    exact ⟨.inr, fun hor => hor.resolve_left h⟩

/-- Two objects with one id are the same. -/
theorem eq_of_id (he : e ∈ t) (he' : e' ∈ t) (hid : e.id = e'.id) : e = e' := by
  have : Std.Symm fun e e' : Named α => e.id ≠ e'.id := ⟨fun _ _ h => h.symm⟩
  by_contra hne
  exact t.ids.forall he he' hne hid

/-- Two objects under one key other than 0 are the same. -/
theorem eq_of_key (he : e ∈ t) (he' : e' ∈ t) (hkey : e.key = e'.key) (h0 : e.key ≠ 0) :
    e = e' := by
  have : Std.Symm fun e e' : Named α => e.key = e'.key → e.key = 0 :=
    ⟨fun a b h hba => hba.trans (h hba.symm)⟩
  by_contra hne
  exact h0 (t.keys.forall he he' hne hkey)

/-- What is found is the object under that key. -/
theorem find_eq_some_iff : t.find key = some e ↔ key ≠ 0 ∧ e ∈ t ∧ e.key = key := by
  constructor
  · intro h
    unfold find at h
    split at h
    · cases h
    · next h0 => exact ⟨h0, List.mem_of_find?_eq_some h, by simpa using List.find?_some h⟩
  · rintro ⟨h0, he, rfl⟩
    cases hfind : t.find e.key with
    | none => exact absurd rfl ((find_eq_none_iff.mp hfind).resolve_left h0 e he)
    | some e' =>
      unfold find at hfind
      rw [if_neg h0] at hfind
      have hkey : e'.key = e.key := by simpa using List.find?_some hfind
      rw [eq_of_key (List.mem_of_find?_eq_some hfind) he hkey (hkey ▸ h0)]

theorem get_eq_some_iff : t.get id = some e ↔ e ∈ t ∧ e.id = id := by
  constructor
  · intro h
    exact ⟨List.mem_of_find?_eq_some h, by simpa using List.find?_some h⟩
  · rintro ⟨he, rfl⟩
    cases hget : t.get e.id with
    | none =>
      have hne := List.find?_eq_none.mp hget e he
      rw [decide_eq_true_eq] at hne
      exact absurd rfl hne
    | some e' =>
      have hid : e'.id = e.id := by simpa using List.find?_some hget
      rw [eq_of_id (List.mem_of_find?_eq_some hget) he hid]

theorem mem_remove : e ∈ t.remove id ↔ e ∈ t ∧ e.id ≠ id := by
  show e ∈ t.entries.filter _ ↔ _
  rw [List.mem_filter, decide_eq_true_eq]
  rfl

/-! ## Creating -/

/-- A new object under a key that is not in use. -/
def insert (A : IdAlloc) (t : KeyTable α) (key : Nat) (val : α) (h : t.find key = none) :
    Nat × KeyTable α :=
  (A.pick (t.entries.map Named.id), {
    entries := t.entries ++ [⟨A.pick (t.entries.map Named.id), key, val⟩]
    ids := by
      refine List.pairwise_append.mpr ⟨t.ids, List.pairwise_singleton .., fun e he e' he' => ?_⟩
      rw [List.mem_singleton.mp he']
      intro hid
      exact A.fresh (t.entries.map Named.id) (List.mem_map.mpr ⟨e, he, hid⟩)
    keys := by
      refine List.pairwise_append.mpr ⟨t.keys, List.pairwise_singleton .., fun e he e' he' => ?_⟩
      rw [List.mem_singleton.mp he']
      intro hkey
      exact hkey.trans ((find_eq_none_iff.mp h).resolve_right fun hne => hne e he hkey) })

/-- A new object under a key, if the key is not in use. -/
def create (A : IdAlloc) (t : KeyTable α) (key : Nat) (val : α) : Option (Nat × KeyTable α) :=
  if h : t.find key = none then some (t.insert A key val h) else none

/-- `t'` is the table in which the new object `e` has taken the place of the one under its key,
and nothing else is different. -/
structure Replaced (t : KeyTable α) (e : Named α) (t' : KeyTable α) : Prop where
  mem_iff : ∀ e', e' ∈ t' ↔ e' = e ∨ e' ∈ t ∧ (e.key = 0 ∨ e'.key ≠ e.key)
  id_new : ∀ e' ∈ t, e.key = 0 ∨ e'.key ≠ e.key → e'.id ≠ e.id

/-- A key that is not in use: the new object is added. -/
theorem replaced_of_create (A : IdAlloc) (val : α) (h : t.find key = none) : ∃ id t',
    t.create A key val = some (id, t') ∧ t.Replaced ⟨id, key, val⟩ t' := by
  refine ⟨_, _, dif_pos h, fun e' => ?_, fun e' he' _ hid => ?_⟩
  · show e' ∈ t.entries ++ [_] ↔ _
    rw [List.mem_append, List.mem_singleton, or_comm]
    refine or_congr_right (iff_self_and.mpr fun he' => ?_)
    exact (find_eq_none_iff.mp h).imp_right fun hne => hne e' he'
  · exact A.fresh (t.entries.map Named.id) (List.mem_map.mpr ⟨e', he', hid⟩)

/-- A key in use: creation is refused, and once the object under the key has been removed the new
one takes its place. -/
theorem replaced_of_remove (A : IdAlloc) (val : α) (h : t.find key = some e) :
    t.create A key val = none ∧
    ∃ id t', (t.remove e.id).create A key val = some (id, t') ∧
      t.Replaced ⟨id, key, val⟩ t' := by
  obtain ⟨h0, he, hkey⟩ := find_eq_some_iff.mp h
  have hrest : ∀ e', e' ∈ t.remove e.id ↔ e' ∈ t ∧ e'.key ≠ key := by
    intro e'
    rw [mem_remove]
    refine and_congr_right fun he' => not_congr ⟨fun hid => ?_, fun hk => ?_⟩
    · rw [eq_of_id he' he hid, hkey]
    · rw [eq_of_key he' he (hk.trans hkey.symm) (hk ▸ h0)]
  have hnone : (t.remove e.id).find key = none :=
    find_eq_none_iff.mpr (.inr fun e' he' => ((hrest e').mp he').2)
  refine ⟨dif_neg (by rw [h]; nofun), ?_⟩
  obtain ⟨id, t', hcreate, hreplaced⟩ := replaced_of_create A val hnone
  -- among what is left, no object has the key
  have hleft : ∀ {e'}, e' ∈ t → key = 0 ∨ e'.key ≠ key → e' ∈ t.remove e.id := fun he' hor =>
    (hrest _).mpr ⟨he', hor.resolve_left h0⟩
  refine ⟨id, t', hcreate, fun e' => ?_, fun e' he' hor => hreplaced.id_new e' (hleft he' hor) hor⟩
  refine (hreplaced.mem_iff e').trans (or_congr_right ?_)
  constructor
  · exact fun ⟨he', hor⟩ => ⟨((hrest e').mp he').1, hor⟩
  · exact fun ⟨he', hor⟩ => ⟨hleft he' hor, hor⟩

theorem Replaced.mem (h : t.Replaced e t') : e ∈ t' := (h.mem_iff e).mpr (.inl rfl)

/-- Another value for the new object. -/
theorem Replaced.modify {f : α → α} (h : t.Replaced e t') :
    t.Replaced { e with val := f e.val } (t'.modify e.id f) := by
  refine ⟨fun e' => ?_, h.id_new⟩
  have hmem : e' ∈ t'.modify e.id f ↔
      ∃ x ∈ t', { x with val := if x.id = e.id then f x.val else x.val } = e' := List.mem_map
  rw [hmem]
  constructor
  · rintro ⟨x, hx, rfl⟩
    rcases (h.mem_iff x).mp hx with rfl | hold
    · exact .inl (by rw [if_pos rfl])
    · rw [if_neg (h.id_new x hold.1 hold.2)]
      exact .inr hold
  · rintro (rfl | hold)
    · exact ⟨e, h.mem, by rw [if_pos rfl]⟩
    · exact ⟨e', (h.mem_iff e').mpr (.inr hold), by rw [if_neg (h.id_new e' hold.1 hold.2)]⟩

/-! ## Creating one after another -/

/-- `e` is in the table now, and what is under other keys has stayed. What was under the key of `e`
may have been removed, or kept without it. -/
structure Renewed (t : KeyTable α) (e : Named α) (t' : KeyTable α) : Prop where
  mem : e ∈ t'
  kept : ∀ e' ∈ t, e'.key ≠ e.key → e' ∈ t'

theorem Replaced.renewed (h : t.Replaced e t') : t.Renewed e t' :=
  ⟨h.mem, fun e' he' hkey => (h.mem_iff e').mpr (.inr ⟨he', .inr hkey⟩)⟩

/-- `t'` is the table after the objects `es` have been created, in this order. -/
inductive RenewedAll : KeyTable α → List (Named α) → KeyTable α → Prop where
  | nil {t : KeyTable α} : RenewedAll t [] t
  | cons {t t' t'' : KeyTable α} {e : Named α} {es : List (Named α)} :
      t.Renewed e t' → RenewedAll t' es t'' → RenewedAll t (e :: es) t''

variable {es : List (Named α)}

/-- An object whose key none of the new ones has stays. -/
theorem RenewedAll.mem_of_mem (h : RenewedAll t es t') (he : e ∈ t)
    (hkey : ∀ e' ∈ es, e.key ≠ e'.key) : e ∈ t' := by
  induction h with
  | nil => exact he
  | cons hfirst _ ih =>
    refine ih (hfirst.kept e he (hkey _ (List.mem_cons_self ..))) ?_
    intro e' he'
    exact hkey e' (List.mem_cons_of_mem _ he')

/-- **Objects created under different keys** are all there at the end. -/
theorem RenewedAll.mem (h : RenewedAll t es t')
    (hkeys : es.Pairwise fun e e' => e.key ≠ e'.key) : ∀ e ∈ es, e ∈ t' := by
  induction h with
  | nil => nofun
  | cons hfirst hrest ih =>
    obtain ⟨hne, hkeys⟩ := List.pairwise_cons.mp hkeys
    intro e he
    rcases List.mem_cons.mp he with rfl | he
    · exact hrest.mem_of_mem hfirst.mem hne
    · exact ih hkeys e he

/-- Their ids are different too. -/
theorem RenewedAll.ids (h : RenewedAll t es t')
    (hkeys : es.Pairwise fun e e' => e.key ≠ e'.key) :
    es.Pairwise fun e e' => e.id ≠ e'.id := by
  refine hkeys.imp_of_mem ?_
  intro e e' he he' hne hid
  have heq := eq_of_id (h.mem hkeys e he) (h.mem hkeys e' he') hid
  exact hne (congrArg Named.key heq)

/-! ## Objects that are kept without a key -/

/-- The table in which the object of this id has key 0. -/
def unkey (t : KeyTable α) (id : Nat) : KeyTable α where
  entries := t.entries.map fun e => { e with key := if e.id = id then 0 else e.key }
  ids := List.pairwise_map.mpr t.ids
  keys := by
    refine List.pairwise_map.mpr (t.keys.imp fun {e e'} h hkey => ?_)
    dsimp only at hkey ⊢
    split at hkey
    · next hid => rw [if_pos hid]
    · next hid =>
      rw [if_neg hid]
      split at hkey
      · exact hkey
      · exact h hkey

theorem mem_unkey : e ∈ t.unkey id ↔
    ∃ x ∈ t, { x with key := if x.id = id then 0 else x.key } = e :=
  List.mem_map

theorem mem_modify {f : α → α} : e ∈ t.modify id f ↔
    ∃ x ∈ t, { x with val := if x.id = id then f x.val else x.val } = e :=
  List.mem_map

/-- Other objects stay. -/
theorem mem_modify_of_ne {f : α → α} (hid : e.id ≠ id) : e ∈ t.modify id f ↔ e ∈ t := by
  rw [mem_modify]
  constructor
  · rintro ⟨x, hx, rfl⟩
    rw [if_neg hid]
    exact hx
  · intro he
    exact ⟨e, he, by rw [if_neg hid]⟩

theorem mem_modify_self {f : α → α} (he : e ∈ t) : { e with val := f e.val } ∈ t.modify e.id f :=
  mem_modify.mpr ⟨e, he, by rw [if_pos rfl]⟩

/-- Another value for an object makes another table. -/
theorem modify_ne {f : α → α} (he : e ∈ t) (hne : f e.val ≠ e.val) : t ≠ t.modify e.id f := by
  intro heq
  have hmem : { e with val := f e.val } ∈ t := by
    rw [heq]
    exact mem_modify_self he
  exact hne (congrArg Named.val (eq_of_id hmem he rfl))

theorem modify_id (t : KeyTable α) (id : Nat) : t.modify id (fun val => val) = t := by
  unfold modify
  simp only [ite_self, List.map_id']

theorem modify_modify (t : KeyTable α) (id : Nat) (f f' : α → α) :
    (t.modify id f).modify id f' = t.modify id fun val => f' (f val) := by
  unfold modify
  simp only [List.map_map]
  congr 2
  funext e
  by_cases h : e.id = id
  · simp only [Function.comp, if_pos h]
  · simp only [Function.comp, if_neg h]

/-- A new object under a key that is not in use has a new id, and the others stay. -/
theorem of_create (h : t.create A key val = some (id, t')) :
    t.find key = none ∧ id = A.pick (t.entries.map Named.id) ∧
      ∀ e', e' ∈ t' ↔ e' = ⟨id, key, val⟩ ∨ e' ∈ t := by
  unfold create at h
  split at h
  · next hfind =>
    cases h
    refine ⟨hfind, rfl, fun e' => ?_⟩
    show e' ∈ t.entries ++ [_] ↔ _
    rw [List.mem_append, List.mem_singleton, or_comm]
    exact Iff.rfl
  · cases h

theorem create_of_find (A : IdAlloc) (val : α) (h : t.find key = none) :
    ∃ id t', t.create A key val = some (id, t') :=
  ⟨_, _, dif_pos h⟩

end KeyTable

/-- Ids that are not in use and not among others. -/
def IdAlloc.avoiding (A : IdAlloc) (others : List Nat) : IdAlloc where
  pick used := A.pick (used ++ others)
  fresh used hmem := A.fresh (used ++ others) (List.mem_append_left _ hmem)

theorem IdAlloc.avoiding_fresh (A : IdAlloc) (others used : List Nat) :
    (A.avoiding others).pick used ∉ others :=
  fun hmem => A.fresh (used ++ others) (List.mem_append_right _ hmem)
