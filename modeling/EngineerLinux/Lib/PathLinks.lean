import EngineerLinux.Lib.PathPrefix

/-!
# The links on a path

Which symbolic links a path goes through, and what it means for a path that the tree changes at a
few places.

The links are collected by the same recursion as the walk. Two trees in which nothing on the way is
different give the same walk; where an entry on the way is gone, the walk ends there. What is left
is a link in the place of another one, which is why this case is named (`Relinked`).

- `Tree.linksOn`: the places of the links that are followed on the way;
- `Tree.Swapped`: one entry may be gone, and another be a different one, if no directory comes or
  goes. `lead_swapped`: **a path that led to a directory leads to the same one, or to none**, unless
  it goes through a link that another link has replaced.
-/

namespace Files

variable {t t' : Tree} {k : Nat} {l cwd m x z : Loc} {n : Text} {p : Text} {q r a : List Text}
  {y y' : Nat × Loc}

namespace Tree

/-- The links followed along the parts of a path. -/
def linksFrom (t : Tree) (jump : Loc → List Text → List Loc) : Loc → List Text → List Loc
  | _, [] => []
  | l, n :: rest =>
    if t.isDir l = false then []
    else if n = [] ∨ n = ['.'] then linksFrom t jump l rest
    else if n = ['.', '.'] then linksFrom t jump l.tail rest
    else
      match t.entry (n :: l) with
      | none => []
      | some (.lnk target) => (n :: l) :: jump (start l target) (split target ++ rest)
      | some _ => linksFrom t jump (n :: l) rest

/-- The first `k` of them and the one behind these. -/
def links (t : Tree) : Nat → Loc → List Text → List Loc
  | 0 => t.linksFrom fun _ _ => []
  | k + 1 => t.linksFrom (t.links k)

/-- The links on the way of a path. -/
def linksOn (t : Tree) (cwd : Loc) (p : Text) : List Loc := t.links 40 (start cwd p) (split p)

/-! ## Longer paths -/

theorem linksFrom_append {jump : Loc → List Text → List Loc}
    (hjump : ∀ l q, m ∈ jump l q → m ∈ jump l (q ++ r)) (l : Loc) (q : List Text)
    (h : m ∈ t.linksFrom jump l q) : m ∈ t.linksFrom jump l (q ++ r) := by
  induction q generalizing l with
  | nil => cases h
  | cons n q ih =>
    rw [List.cons_append]
    rw [linksFrom] at h ⊢
    split at h
    · cases h
    · next hdir =>
      rw [if_neg hdir]
      split at h
      · next hdot => exact if_pos hdot ▸ ih l h
      · next hdot =>
        rw [if_neg hdot]
        split at h
        · next hup => exact if_pos hup ▸ ih l.tail h
        · next hup =>
          rw [if_neg hup]
          cases hentry : t.entry (n :: l) with
          | none =>
            rw [hentry] at h
            cases h
          | some e =>
            rw [hentry] at h
            cases e with
            | lnk target =>
              rcases List.mem_cons.mp h with rfl | h
              · exact List.mem_cons_self ..
              · refine List.mem_cons_of_mem _ ?_
                rw [← List.append_assoc]
                exact hjump _ _ h
            | reg | dir | other => exact ih _ h

theorem links_append (h : m ∈ t.links k l q) : m ∈ t.links k l (q ++ r) := by
  induction k generalizing l q with
  | zero => exact linksFrom_append (fun _ _ hm => absurd hm (by nofun)) l q h
  | succ k ih => exact linksFrom_append (fun _ _ hm => ih hm) l q h

theorem start_extend_self (cwd : Loc) (hp : p ≠ []) (a : List Text) :
    start cwd (extend p a) = start cwd p := by
  induction a generalizing p with
  | nil => rfl
  | cons n a ih => rw [extend_cons, ih (by simp), start_join cwd hp]

/-- A longer path goes through the links of its first part. -/
theorem linksOn_extend (hp : p ≠ []) (ha : ∀ n ∈ a, '/' ∉ n) (h : m ∈ t.linksOn cwd p) :
    m ∈ t.linksOn cwd (extend p a) := by
  rw [linksOn, start_extend_self cwd hp, split_extend p ha]
  exact links_append h

theorem lead_extend (hp : p ≠ []) (ha : ∀ n ∈ a, '/' ∉ n) :
    t.lead cwd (extend p a) = (t.lead cwd p).bind fun x => t.reach x.1 x.2 a := by
  rw [lead, start_extend_self cwd hp, split_extend p ha]
  exact reach_append ..

/-- What is no directory leads nowhere further. -/
theorem reachFrom_not_dir {jump : Loc → List Text → Option (Nat × Loc)} (hl : t.isDir l = false)
    (h : t.reachFrom jump k l q = some y) : t.isDir y.2 = false := by
  cases q with
  | nil =>
    cases h
    exact hl
  | cons n q =>
    rw [reachFrom, if_pos hl] at h
    cases h

theorem reach_is_dir (hq : q ≠ []) (h : t.reach k l q = some y) : t.isDir l = true := by
  obtain ⟨n, q, rfl⟩ := List.exists_cons_of_ne_nil hq
  obtain ⟨jump, hjump⟩ := exists_reach t k
  by_contra hl
  rw [Bool.not_eq_true] at hl
  rw [hjump, reachFrom, if_pos hl] at h
  cases h

/-- Slashes behind the path of a directory change nothing. -/
theorem lead_slashes (hp : p ≠ []) (h : t.lead cwd p = some y) (hdir : t.isDir y.2 = true)
    (i : Nat) : t.lead cwd (p ++ List.replicate i '/') = some y := by
  induction i with
  | zero => rwa [List.replicate_zero, List.append_nil]
  | succ i ih =>
    obtain ⟨jump, hjump⟩ := exists_reach t y.1
    rw [List.replicate_succ', ← List.append_assoc,
      lead_join (by simp [hp]) (List.not_mem_nil (a := '/')), ih, Option.bind_some, hjump,
      reachFrom, if_neg (by rw [hdir]; exact Bool.noConfusion), if_pos (.inl rfl)]
    rfl

/-! ## Links that are not followed -/

theorem reachFrom_of_walk {jump : Loc → List Text → Lookup}
    {jump' : Loc → List Text → Option (Nat × Loc)} (hz : t.isDir z = true)
    (hjump : ∀ l q, jump l q = .entry z → ∃ k, jump' l q = some (k, z)) (l : Loc) (q : List Text)
    (h : t.walkFrom jump false l q = .entry z) : ∃ k', t.reachFrom jump' k l q = some (k', z) := by
  induction q generalizing l with
  | nil =>
    cases h
    exact ⟨k, rfl⟩
  | cons n q ih =>
    rw [walkFrom] at h
    rw [reachFrom]
    split at h
    · cases h
    · next hdir =>
      rw [if_neg hdir]
      split at h
      · next hdot => exact if_pos hdot ▸ ih l h
      · next hdot =>
        rw [if_neg hdot]
        split at h
        · next hup => exact if_pos hup ▸ ih l.tail h
        · next hup =>
          rw [if_neg hup]
          cases hentry : t.entry (n :: l) with
          | none =>
            rw [hentry] at h
            change (if q = [] then Lookup.absent l n else .fail) = _ at h
            split at h <;> cases h
          | some e =>
            rw [hentry] at h
            cases e with
            | lnk target =>
              change (if q = [] ∧ false = false then Lookup.entry (n :: l) else _) = _ at h
              split at h
              · -- a link at the end is no directory
                cases h
                rw [isDir_of_some hentry fun _ h => by cases h] at hz
                cases hz
              · exact hjump _ _ h
            | reg | dir | other => exact ih _ h

/-- A directory found without following a link at the end is found with it too. -/
theorem lead_of_resolve (h : t.resolve cwd false p = .entry z) (hz : t.isDir z = true) :
    p ≠ [] ∧ ∃ k, t.lead cwd p = some (k, z) := by
  have hreach : ∀ k l q, t.walk false k l q = .entry z → ∃ k', t.reach k l q = some (k', z) := by
    intro k
    induction k with
    | zero => exact fun l q => reachFrom_of_walk hz (fun _ _ hf => by cases hf) l q
    | succ k ih => exact fun l q => reachFrom_of_walk hz ih l q
  unfold resolve at h
  split at h
  · cases h
  · next hp => exact ⟨hp, hreach _ _ _ h⟩

/-! ## Two places of the tree -/

/-- `t'` differs from `t` at two places: what was at `x` may be gone, and at `m` there may be
something else, but a directory exactly if there was one. -/
structure Swapped (t t' : Tree) (x m : Loc) : Prop where
  others : ∀ l, l ≠ x → l ≠ m → t'.entry l = t.entry l
  gone : t'.entry x = t.entry x ∨ t'.entry x = none
  is_dir : t'.isDir m = t.isDir m

/-- What is there now, but for the one place, was there before. -/
theorem Swapped.entry_eq {e e' : Entry} (h : t.Swapped t' x m) (hl : l ≠ m)
    (he : t.entry l = some e) (he' : t'.entry l = some e') : e' = e := by
  by_cases hx : l = x
  · subst hx
    rcases h.gone with hsame | hnone
    · rw [he, he'] at hsame
      exact Option.some.inj hsame
    · rw [he'] at hnone
      cases hnone
  · have hsame := h.others _ hx hl
    rw [he, he'] at hsame
    exact Option.some.inj hsame

/-- Whatever is a directory was one. -/
theorem Swapped.dir_was (h : t.Swapped t' x m) (hdir : t'.isDir l = true) :
    t.isDir l = true := by
  by_cases hm : l = m
  · rwa [hm, ← h.is_dir, ← hm]
  · by_cases hx : l = x
    · rcases h.gone with hsame | hnone
      · rwa [hx, ← isDir_congr hsame, ← hx]
      · rw [hx, isDir_of_none hnone] at hdir
        cases hdir
    · rwa [← isDir_congr (h.others l hx hm)]

/-- One link has taken the place of another. -/
def Relinked (t t' : Tree) (m : Loc) : Prop :=
  ∃ target target', t.entry m = some (.lnk target) ∧ t'.entry m = some (.lnk target') ∧
    target ≠ target'

theorem reachFrom_swapped {jump jump' : Loc → List Text → Option (Nat × Loc)}
    {jumpLinks : Loc → List Text → List Loc} (h : t.Swapped t' x m)
    (hjump : ∀ l q y y', ¬ t.Relinked t' m ∨ m ∉ jumpLinks l q → jump l q = some y →
      t.isDir y.2 = true → jump' l q = some y' → t'.isDir y'.2 = true → y' = y)
    (l : Loc) (q : List Text) (hlinks : ¬ t.Relinked t' m ∨ m ∉ t.linksFrom jumpLinks l q)
    (hreach : t.reachFrom jump k l q = some y) (hdir : t.isDir y.2 = true)
    (hreach' : t'.reachFrom jump' k l q = some y') (hdir' : t'.isDir y'.2 = true) : y' = y := by
  induction q generalizing l with
  | nil =>
    cases hreach
    cases hreach'
    rfl
  | cons n q ih =>
    have hl : ¬ t.isDir l = false := fun hl => by
      rw [reachFrom, if_pos hl] at hreach
      cases hreach
    have hl' : ¬ t'.isDir l = false := fun hl' => by
      rw [reachFrom, if_pos hl'] at hreach'
      cases hreach'
    rw [linksFrom, if_neg hl] at hlinks
    rw [reachFrom, if_neg hl] at hreach
    rw [reachFrom, if_neg hl'] at hreach'
    by_cases hdot : n = [] ∨ n = ['.']
    · rw [if_pos hdot] at hlinks hreach hreach'
      exact ih l hlinks hreach hreach'
    · rw [if_neg hdot] at hlinks hreach hreach'
      by_cases hup : n = ['.', '.']
      · rw [if_pos hup] at hlinks hreach hreach'
        exact ih l.tail hlinks hreach hreach'
      · rw [if_neg hup] at hlinks hreach hreach'
        cases he : t.entry (n :: l) with
        | none =>
          rw [he] at hreach
          cases hreach
        | some e =>
          cases he' : t'.entry (n :: l) with
          | none =>
            rw [he'] at hreach'
            cases hreach'
          | some e' =>
            rw [he] at hlinks hreach
            rw [he'] at hreach'
            by_cases hm : n :: l = m
            · subst hm
              have hkind := h.is_dir
              cases e with
              | dir mode =>
                rw [isDir_iff.mpr ⟨mode, he⟩] at hkind
                obtain ⟨mode', hmode'⟩ := isDir_iff.mp hkind
                rw [he'] at hmode'
                cases hmode'
                exact ih _ hlinks hreach hreach'
              | lnk target =>
                rw [isDir_of_some he fun _ h => by cases h] at hkind
                cases e' with
                | lnk target' =>
                  by_cases heq : target = target'
                  · subst heq
                    refine hjump _ _ y y' (hlinks.imp_right fun hnot hm => hnot ?_) hreach hdir
                      hreach' hdir'
                    exact List.mem_cons_of_mem _ hm
                  -- the path goes through this link
                  · rcases hlinks with hnot | hnot
                    · exact absurd ⟨target, target', he, he', heq⟩ hnot
                    · exact absurd (List.mem_cons_self ..) hnot
                | reg | dir | other =>
                  rw [reachFrom_not_dir hkind hreach'] at hdir'
                  cases hdir'
              | reg | other =>
                rw [reachFrom_not_dir (isDir_of_some he fun _ h => by cases h) hreach] at hdir
                cases hdir
            · have hsame : e' = e := h.entry_eq hm he he'
              subst hsame
              cases e' with
              | lnk target =>
                refine hjump _ _ y y' (hlinks.imp_right fun hnot hm => hnot ?_) hreach hdir hreach'
                  hdir'
                exact List.mem_cons_of_mem _ hm
              | reg | dir | other => exact ih _ hlinks hreach hreach'

theorem reach_swapped (h : t.Swapped t' x m) (hlinks : ¬ t.Relinked t' m ∨ m ∉ t.links k l q)
    (hreach : t.reach k l q = some y) (hdir : t.isDir y.2 = true)
    (hreach' : t'.reach k l q = some y') (hdir' : t'.isDir y'.2 = true) : y' = y := by
  induction k generalizing l q y y' with
  | zero =>
    exact reachFrom_swapped h (fun _ _ _ _ _ hy => by cases hy) l q hlinks hreach hdir hreach' hdir'
  | succ k ih =>
    exact reachFrom_swapped h (fun _ _ _ _ hl hy hd hy' hd' => ih hl hy hd hy' hd') l q hlinks
      hreach hdir hreach' hdir'

/-- **A path to a directory leads to no other one afterwards.** -/
theorem lead_swapped (h : t.Swapped t' x m) (hlinks : ¬ t.Relinked t' m ∨ m ∉ t.linksOn cwd p)
    (hlead : t.lead cwd p = some y) (hdir : t.isDir y.2 = true) (hlead' : t'.lead cwd p = some y')
    (hdir' : t'.isDir y'.2 = true) : y' = y :=
  reach_swapped h hlinks hlead hdir hlead' hdir'

end Tree

end Files
