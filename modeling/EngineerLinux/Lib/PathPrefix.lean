import EngineerLinux.Lib.FilePath

/-!
# Where a path leads on its way

A longer path is looked up in what its first part leads to. `Tree.reach` is this first part of the
walk, together with the number of links that may still be followed behind it. So what becomes of a
path when the tree changes can be said part by part.

- `walk_append`: the walk along a longer path goes on from there;
- `Tree.lead`: what a path leads to as the first part of longer ones, with `lead_join` for one more
  name, and `resolve_join`, `resolve_true_iff` for the lookups;
- `Tree.PartOf`: one tree has nothing that the other does not have. A path that leads somewhere in
  the smaller tree leads to the same place in the larger one (`lead_mono`).
-/

namespace Files

variable {t t' t'' : Tree} {k k' : Nat} {l l' cwd : Loc} {n n' : Text} {p : Text}
  {q r : List Text} {follow : Bool}

/-- A file could be made there. -/
def Lookup.free : Lookup → Bool
  | .absent _ _ => true
  | _ => false

/-- An entry is found. -/
def Lookup.found : Lookup → Bool
  | .entry _ => true
  | _ => false

theorem Lookup.found_iff {x : Lookup} : x.found = true ↔ ∃ l, x = .entry l := by
  cases x with
  | entry l => exact iff_of_true rfl ⟨l, rfl⟩
  | absent l n => exact iff_of_false Bool.false_ne_true (by rintro ⟨_, ⟨⟩⟩)
  | fail => exact iff_of_false Bool.false_ne_true (by rintro ⟨_, ⟨⟩⟩)

theorem Lookup.eq_fail {x : Lookup} (hfound : x.found = false) (hfree : x.free = false) :
    x = .fail := by
  cases x with
  | entry l => cases hfound
  | absent l n => cases hfree
  | fail => rfl

namespace Tree

/-! ## The first part of a walk -/

/-- Follow the parts of a path, all symbolic links included. -/
def reachFrom (t : Tree) (jump : Loc → List Text → Option (Nat × Loc)) (k : Nat) :
    Loc → List Text → Option (Nat × Loc)
  | l, [] => some (k, l)
  | l, n :: rest =>
    if t.isDir l = false then none
    else if n = [] ∨ n = ['.'] then reachFrom t jump k l rest
    else if n = ['.', '.'] then reachFrom t jump k l.tail rest
    else
      match t.entry (n :: l) with
      | none => none
      | some (.lnk target) => jump (start l target) (split target ++ rest)
      | some _ => reachFrom t jump k (n :: l) rest

/-- Where the parts lead over at most `k` links, and how many more may be followed from there. -/
def reach (t : Tree) : Nat → Loc → List Text → Option (Nat × Loc)
  | 0 => t.reachFrom (fun _ _ => none) 0
  | k + 1 => t.reachFrom (t.reach k) (k + 1)

/-- The walk from where the first part has led. -/
def onward (t : Tree) (follow : Bool) (r : List Text) : Option (Nat × Loc) → Lookup
  | some (k, l) => t.walk follow k l r
  | none => .fail

theorem walkFrom_append {jump : Loc → List Text → Lookup}
    {jump' : Loc → List Text → Option (Nat × Loc)} (hr : r ≠ [])
    (hwalk : t.walk follow k = t.walkFrom jump follow)
    (hjump : ∀ l q, jump l (q ++ r) = t.onward follow r (jump' l q)) (l : Loc) (q : List Text) :
    t.walkFrom jump follow l (q ++ r) = t.onward follow r (t.reachFrom jump' k l q) := by
  induction q generalizing l with
  | nil =>
    show t.walkFrom jump follow l r = t.walk follow k l r
    rw [hwalk]
  | cons n q ih =>
    rw [List.cons_append, walkFrom, reachFrom, ih, ih, ih]
    split
    · rfl
    · split
      · rfl
      · split
        · rfl
        -- the parts of `r` are still to come, so this one is not the last
        · have hne : q ++ r ≠ [] := fun h => hr (List.append_eq_nil_iff.mp h).2
          cases hentry : t.entry (n :: l) with
          | none => simp only [if_neg hne, onward]
          | some e =>
            cases e with
            | lnk target => simp only [hne, false_and, if_false, ← List.append_assoc, hjump]
            | reg | dir | other => rfl

/-- **A longer path goes on from where its first part leads.** -/
theorem walk_append (hr : r ≠ []) (k : Nat) (l : Loc) (q : List Text) :
    t.walk follow k l (q ++ r) = t.onward follow r (t.reach k l q) := by
  induction k generalizing l q with
  | zero => exact walkFrom_append hr rfl (fun _ _ => rfl) l q
  | succ k ih => exact walkFrom_append hr rfl ih l q

theorem reachFrom_append {jump : Loc → List Text → Option (Nat × Loc)}
    (hreach : t.reach k = t.reachFrom jump k)
    (hjump : ∀ l q, jump l (q ++ r) = (jump l q).bind fun x => t.reach x.1 x.2 r)
    (l : Loc) (q : List Text) :
    t.reachFrom jump k l (q ++ r) = (t.reachFrom jump k l q).bind fun x => t.reach x.1 x.2 r := by
  induction q generalizing l with
  | nil =>
    show t.reachFrom jump k l r = t.reach k l r
    rw [hreach]
  | cons n q ih =>
    rw [List.cons_append, reachFrom, reachFrom, ih, ih, ih]
    split
    · rfl
    · split
      · rfl
      · split
        · rfl
        · cases hentry : t.entry (n :: l) with
          | none => rfl
          | some e =>
            cases e with
            | lnk target => simp only [← List.append_assoc, hjump]
            | reg | dir | other => rfl

theorem reach_append (k : Nat) (l : Loc) (q : List Text) :
    t.reach k l (q ++ r) = (t.reach k l q).bind fun x => t.reach x.1 x.2 r := by
  induction k generalizing l q with
  | zero => exact reachFrom_append rfl (fun _ _ => rfl) l q
  | succ k ih => exact reachFrom_append rfl ih l q

theorem walkFrom_true_iff {jump : Loc → List Text → Lookup}
    {jump' : Loc → List Text → Option (Nat × Loc)}
    (hjump : ∀ l q, jump l q = .entry l' ↔ ∃ k, jump' l q = some (k, l')) (l : Loc)
    (q : List Text) :
    t.walkFrom jump true l q = .entry l' ↔ ∃ k', t.reachFrom jump' k l q = some (k', l') := by
  induction q generalizing l with
  | nil => simp [walkFrom, reachFrom]
  | cons n q ih =>
    rw [walkFrom, reachFrom]
    split
    · exact iff_of_false (fun h => by cases h) (by rintro ⟨_, ⟨⟩⟩)
    · split
      · exact ih l
      · split
        · exact ih l.tail
        · cases hentry : t.entry (n :: l) with
          | none =>
            refine iff_of_false ?_ (by rintro ⟨_, ⟨⟩⟩)
            show ¬ (if q = [] then Lookup.absent l n else .fail) = _
            split <;> exact fun h => by cases h
          | some e =>
            cases e with
            | lnk target =>
              show (if q = [] ∧ true = false then _ else _) = _ ↔ _
              rw [if_neg fun h => Bool.noConfusion h.2]
              exact hjump _ _
            | reg | dir | other => exact ih (n :: l)

/-- If links are followed at the end too, the whole path is such a first part. -/
theorem walk_true_iff : t.walk true k l q = .entry l' ↔ ∃ k', t.reach k l q = some (k', l') := by
  induction k generalizing l q with
  | zero =>
    exact walkFrom_true_iff (fun _ _ => iff_of_false (fun h => by cases h) (by rintro ⟨_, ⟨⟩⟩)) l q
  | succ k ih => exact walkFrom_true_iff (fun _ _ => ih) l q

theorem exists_reach (t : Tree) (k : Nat) : ∃ jump, t.reach k = t.reachFrom jump k := by
  cases k with
  | zero => exact ⟨_, rfl⟩
  | succ k => exact ⟨_, rfl⟩

/-- One name further, to what is no link. -/
theorem reach_entry {e : Entry} (hn : IsName n) (h : t.entry (n :: l) = some e)
    (hlnk : ∀ target, e ≠ .lnk target) : t.reach k l [n] = some (k, n :: l) := by
  obtain ⟨jump, hjump⟩ := exists_reach t k
  have hdir : t.isDir l = true := isDir_of_entry (by rw [h]; exact Option.some_ne_none _)
  rw [hjump, reachFrom, if_neg (by rw [hdir]; exact Bool.noConfusion),
    if_neg (not_or.mpr ⟨hn.1, hn.2.1⟩), if_neg hn.2.2.1, h]
  cases e with
  | lnk target => exact absurd rfl (hlnk target)
  | reg | dir | other => rfl

theorem reach_none (hn : IsName n) (h : t.entry (n :: l) = none) : t.reach k l [n] = none := by
  obtain ⟨jump, hjump⟩ := exists_reach t k
  rw [hjump, reachFrom, if_neg (not_or.mpr ⟨hn.1, hn.2.1⟩), if_neg hn.2.2.1, h]
  exact ite_self _

/-- One name further is the entry of this name, unless that is a link. -/
theorem reach_name {x : Nat × Loc} (hn : IsName n)
    (hlnk : ∀ target, t.entry (n :: l) ≠ some (.lnk target)) (h : t.reach k l [n] = some x) :
    x.2 = n :: l := by
  cases hentry : t.entry (n :: l) with
  | none =>
    rw [reach_none hn hentry] at h
    cases h
  | some e =>
    rw [reach_entry hn hentry fun target heq => hlnk target (hentry.trans (congrArg some heq))] at h
    cases h
    rfl

/-! ## Paths -/

/-- What a path leads to when a longer one is looked up. -/
def lead (t : Tree) (cwd : Loc) (p : Text) : Option (Nat × Loc) :=
  t.reach 40 (start cwd p) (split p)

theorem start_join (cwd : Loc) (hp : p ≠ []) (n : Text) :
    start cwd (p ++ '/' :: n) = start cwd p := by
  obtain ⟨c, cs, rfl⟩ := List.exists_cons_of_ne_nil hp
  rfl

theorem resolve_join (hp : p ≠ []) (hn : '/' ∉ n) :
    t.resolve cwd follow (p ++ '/' :: n) = t.onward follow [n] (t.lead cwd p) := by
  rw [resolve, if_neg (by simp), start_join cwd hp, split_append, split_name hn]
  exact walk_append (List.cons_ne_nil _ _) ..

theorem lead_join (hp : p ≠ []) (hn : '/' ∉ n) :
    t.lead cwd (p ++ '/' :: n) = (t.lead cwd p).bind fun x => t.reach x.1 x.2 [n] := by
  rw [lead, start_join cwd hp, split_append, split_name hn]
  exact reach_append ..

theorem resolve_true_iff : t.resolve cwd true p = .entry l ↔
    p ≠ [] ∧ ∃ k, t.lead cwd p = some (k, l) := by
  unfold resolve
  split
  · next hp => exact iff_of_false nofun fun h => h.1 hp
  · next hp => exact walk_true_iff.trans (and_iff_right hp).symm

/-- **An entry by its name**: it is where its directory's path leads. -/
theorem resolve_entry_iff (hp : p ≠ []) (hn : IsName n) :
    t.resolve cwd false (p ++ '/' :: n) = .entry l ↔
      ∃ k l', t.lead cwd p = some (k, l') ∧ l = n :: l' ∧ t.entry l ≠ none := by
  rw [resolve_join hp hn.2.2.2.1]
  cases hlead : t.lead cwd p with
  | none => exact iff_of_false nofun nofun
  | some x =>
    obtain ⟨k, l'⟩ := x
    show t.walk false k l' [n] = _ ↔ _
    cases hentry : t.entry (n :: l') with
    | some e =>
      rw [walk_entry false k hentry (.inl rfl)]
      constructor
      · rintro ⟨⟩
        exact ⟨k, l', rfl, rfl, by rw [hentry]; exact Option.some_ne_none _⟩
      · rintro ⟨_, _, heq, rfl, -⟩
        cases heq
        rfl
    | none =>
      refine iff_of_false ?_ ?_
      · intro hwalk
        rcases Bool.eq_false_or_eq_true (t.isDir l') with hdir | hdir
        · rw [walk_absent false k hdir hn hentry] at hwalk
          cases hwalk
        · rw [walk_fail false k hdir] at hwalk
          cases hwalk
      · rintro ⟨_, _, heq, rfl, hne⟩
        cases heq
        exact hne hentry

/-- **A place for an entry**, in the directory to which its directory's path leads. If a link at the
end is followed, that holds where there is no link. -/
theorem resolve_absent (hp : p ≠ []) (hn : IsName n)
    (h : t.resolve cwd follow (p ++ '/' :: n) = .absent l n')
    (hlnk : ∀ k l' target, t.lead cwd p = some (k, l') → follow = true →
      t.entry (n :: l') ≠ some (.lnk target)) :
    n' = n ∧ (∃ k, t.lead cwd p = some (k, l)) ∧ t.isDir l = true ∧ t.entry (n :: l) = none := by
  rw [resolve_join hp hn.2.2.2.1] at h
  cases hlead : t.lead cwd p with
  | none =>
    rw [hlead] at h
    cases h
  | some x =>
    obtain ⟨k, l'⟩ := x
    rw [hlead] at h
    change t.walk follow k l' [n] = _ at h
    cases hentry : t.entry (n :: l') with
    | some e =>
      rw [walk_entry follow k hentry ?_] at h
      · cases h
      · cases follow with
        | false => exact .inl rfl
        | true =>
          refine .inr fun target heq => hlnk k l' target hlead rfl ?_
          rw [hentry, heq]
    | none =>
      rcases Bool.eq_false_or_eq_true (t.isDir l') with hdir | hdir
      · rw [walk_absent follow k hdir hn hentry] at h
        cases h
        exact ⟨rfl, ⟨k, rfl⟩, hdir, hentry⟩
      · rw [walk_fail follow k hdir] at h
        cases h

/-- What is found with links followed is the entry itself, if this is no link. -/
theorem resolve_true_entry (hp : p ≠ []) (hn : IsName n)
    (h : t.resolve cwd true (p ++ '/' :: n) = .entry l) :
    ∃ k l', t.lead cwd p = some (k, l') ∧ t.isDir l' = true ∧
      ((∀ target, t.entry (n :: l') ≠ some (.lnk target)) → l = n :: l' ∧ t.entry l ≠ none) := by
  rw [resolve_join hp hn.2.2.2.1] at h
  cases hlead : t.lead cwd p with
  | none =>
    rw [hlead] at h
    cases h
  | some x =>
    obtain ⟨k, l'⟩ := x
    rw [hlead] at h
    change t.walk true k l' [n] = _ at h
    have hdir : t.isDir l' = true := by
      by_contra hdir
      rw [Bool.not_eq_true] at hdir
      rw [walk_fail true k hdir] at h
      cases h
    refine ⟨k, l', rfl, hdir, fun hlnk => ?_⟩
    cases hentry : t.entry (n :: l') with
    | none =>
      rw [walk_absent true k hdir hn hentry] at h
      cases h
    | some e =>
      rw [walk_entry true k hentry (.inr fun target heq => hlnk target (by rw [hentry, heq]))] at h
      cases h
      exact ⟨rfl, by rw [hentry]; exact Option.some_ne_none _⟩

/-! ## Smaller and larger trees -/

/-- `t` has nothing that `t'` does not have. -/
def PartOf (t t' : Tree) : Prop := ∀ l e, t.entry l = some e → t'.entry l = some e

theorem PartOf.refl : t.PartOf t := fun _ _ h => h

theorem PartOf.trans (h : t.PartOf t') (h' : t'.PartOf t'') : t.PartOf t'' :=
  fun l e he => h' l e (h l e he)

theorem PartOf.isDir (h : t.PartOf t') (hdir : t.isDir l = true) : t'.isDir l = true := by
  obtain ⟨mode, hmode⟩ := isDir_iff.mp hdir
  exact isDir_iff.mpr ⟨mode, h l _ hmode⟩

/-- One entry less. -/
theorem partOf_of_removed (h : t'.entry = Function.update t.entry l none) : t'.PartOf t := by
  intro x e he
  rw [h] at he
  by_cases hx : x = l
  · rw [hx, Function.update_self] at he
    cases he
  · rwa [Function.update_of_ne hx] at he

/-- One entry more. -/
theorem partOf_of_added {e : Entry} (hnone : t.entry l = none)
    (h : t'.entry = Function.update t.entry l (some e)) : t.PartOf t' := by
  intro x e' he
  have hx : x ≠ l := by
    rintro rfl
    rw [hnone] at he
    cases he
  rwa [h, Function.update_of_ne hx]

theorem reachFrom_mono {jump jump' : Loc → List Text → Option (Nat × Loc)} {x : Nat × Loc}
    (h : t.PartOf t') (hjump : ∀ l q, jump l q = some x → jump' l q = some x) (l : Loc)
    (q : List Text) (hreach : t.reachFrom jump k l q = some x) :
    t'.reachFrom jump' k l q = some x := by
  induction q generalizing l with
  | nil => exact hreach
  | cons n q ih =>
    rw [reachFrom] at hreach ⊢
    split at hreach
    · cases hreach
    · next hdir =>
      rw [Bool.not_eq_false] at hdir
      rw [if_neg (by rw [h.isDir hdir]; exact Bool.noConfusion)]
      split at hreach
      · next hdot =>
        rw [if_pos hdot]
        exact ih l hreach
      · next hdot =>
        rw [if_neg hdot]
        split at hreach
        · next hup =>
          rw [if_pos hup]
          exact ih l.tail hreach
        · next hup =>
          rw [if_neg hup]
          cases hentry : t.entry (n :: l) with
          | none =>
            rw [hentry] at hreach
            cases hreach
          | some e =>
            rw [hentry] at hreach
            rw [h _ _ hentry]
            cases e with
            | lnk target => exact hjump _ _ hreach
            | reg | dir | other => exact ih _ hreach

theorem reach_mono {x : Nat × Loc} (h : t.PartOf t') (hreach : t.reach k l q = some x) :
    t'.reach k l q = some x := by
  induction k generalizing l q with
  | zero => exact reachFrom_mono h (fun _ _ hx => hx) l q hreach
  | succ k ih => exact reachFrom_mono h (fun _ _ hx => ih hx) l q hreach

/-- **What a path leads to in a tree, it leads to in a larger one.** -/
theorem lead_mono {x : Nat × Loc} (h : t.PartOf t') (hlead : t.lead cwd p = some x) :
    t'.lead cwd p = some x :=
  reach_mono h hlead

end Tree

end Files
