import EngineerLinux.MoveDir.Loss
import EngineerLinux.MoveDir.Turns

/-!
# A directory moved onto itself

`srcDir` and `dstDir` are two paths of one directory, in any spelling. Then what is "already there"
(`move.c` 33-36 and 54-57) is the entry itself, so removing the one removes the other. The two paths
can only come apart when one of them leads through a directory further inside, which the walk
removes once it is empty; from then on this path leads nowhere.

The walk is followed turn by turn, with the rule of `Turns`. Nothing is ever added to the tree, so a
path that leads to a directory of the walk has always led there (`Within.mono`), and a turn either
keeps its file or link or is the end of it (`run_leaf`).

- `Spared`: the one kind of entry that is left alone, a link that leads nowhere;
- `keeps_all_iff`: **every file and link is still there** exactly if each of them that the walk
  comes to is spared, or its removal fails.
-/

namespace EngineerLinux.MoveDir

open Files

/-- A call of `move_dir` with two paths of one directory. -/
structure SelfMove where
  env : Env
  tree : Tree
  srcDir : Text
  dstDir : Text
  dir : Loc
  is_dir : tree.isDir dir = true
  src_leads : tree.resolve env.cwd true srcDir = .entry dir
  dst_leads : tree.resolve env.cwd true dstDir = .entry dir
  listing : ∀ a, tree.isDir (below dir a) = true →
    Listing tree (below dir a) (env.readdir (extend srcDir a))

variable (env : Env)

/-- A link that leads nowhere, is found under the other path too, and is renamed onto itself. -/
def Spared (τ : Turn) : Prop :=
  τ.stat.kind = .lnk ∧ env.fails (.rename τ.src τ.dst) = false ∧
    (τ.state.tree.resolve env.cwd false τ.dst).found = true ∧
    (τ.state.tree.resolve env.cwd true τ.dst).found = false

instance (τ : Turn) : Decidable (Spared env τ) := inferInstanceAs (Decidable (_ ∧ _))

/-- Spared, or not removed because `unlink` fails. -/
def Safe (τ : Turn) : Prop := Spared env τ ∨ env.fails (.unlink τ.src) = true

instance (τ : Turn) : Decidable (Safe env τ) := inferInstanceAs (Decidable (_ ∨ _))

variable {env}

/-! ## One file or link -/

section

variable {τ : Turn} {l : Loc} {e : Entry}

/-- Renamed onto itself, an entry stays. -/
theorem rename_self {s : State} {oldpath newpath : Text} {n : Text}
    (hold : s.tree.resolve env.cwd false oldpath = .entry (n :: l))
    (hnew : s.tree.resolve env.cwd false newpath = .entry (n :: l))
    (he : s.tree.entry (n :: l) = some e) (hleaf : Move.isLeaf e = true)
    (hfails : env.fails (.rename oldpath newpath) = false) :
    s.rename env oldpath newpath = (0, s) := by
  have hself : s.tree.rename (n :: l) l n = some s.tree :=
    Tree.rename_self he (Move.isDir_of_leaf he hleaf)
  unfold State.rename
  rw [hfails, if_neg Bool.false_ne_true, hold, hnew]
  simp only [hself, State.apply]

/-- **One file or link**, found under the path of the source. Under the other path it is found too,
or nothing is. -/
theorem run_branch_alias {n : Text} {l' : Loc}
    (hsrc : τ.state.tree.resolve env.cwd false τ.src = .entry (n :: l'))
    (he : τ.state.tree.entry (n :: l') = some e) (hleaf : Move.isLeaf e = true)
    (hstat : τ.stat = env.statOf (n :: l') e)
    (hdst : τ.state.tree.resolve env.cwd false τ.dst = .entry (n :: l') ∧
        (τ.stat.kind = .reg → τ.state.tree.resolve env.cwd true τ.dst = .entry (n :: l')) ∨
      ∀ follow, τ.state.tree.resolve env.cwd follow τ.dst = .fail) :
    (Spared env τ → τ.branch.run (State.sys env) τ.state = (some (), τ.state)) ∧
      (¬ Spared env τ → OnlyUnlinks env τ) := by
  have hkind : τ.stat.isLeaf := hstat ▸ isLeaf_statOf.mpr hleaf
  have hzero : ¬ (0 : Int) ≠ 0 := by decide
  constructor
  · rintro ⟨hlnk, hfails, hfound, hnot⟩
    obtain ⟨hnew, -⟩ := hdst.resolve_right fun h => by
      rw [h false] at hfound
      cases hfound
    rw [run_branch_dangling hlnk hnot]
    simp only [renameOrRelink, Prog.run_call, State.sys, rename_self hsrc hnew he hleaf hfails,
      if_neg hzero, Prog.run_ret]
  · intro hnot
    rcases hdst with ⟨hnew, hreg⟩ | hfail
    · rcases hkind with hlnk | hisreg
      · by_cases hleads : (τ.state.tree.resolve env.cwd true τ.dst).found = true
        · exact onlyUnlinks_lnk hlnk hleads (hstat ▸ State.stat_eq hnew he) hlnk
        · -- a link that leads nowhere, which cannot be renamed onto itself
          rw [Bool.not_eq_true] at hleads
          have hfails : env.fails (.rename τ.src τ.dst) = true := by
            by_contra hne
            rw [Bool.not_eq_true] at hne
            exact hnot ⟨hlnk, hne, Lookup.found_iff.mpr ⟨_, hnew⟩, hleads⟩
          refine ⟨τ.state, rfl, ?_⟩
          rw [run_branch_dangling hlnk hleads]
          exact run_relink_fails (τ.state.rename_of_fails env hfails) (by rw [hnew]; rfl)
      · exact onlyUnlinks_reg hisreg (hstat ▸ State.stat_eq (hreg hisreg) he) rfl
    · exact onlyUnlinks_of_fail hkind hfail

end

/-! ## The walk -/

namespace SelfMove

variable (sm : SelfMove)

/-- The walk is in the directory at `a`: nothing has been added to the tree, and what the two paths
lead to, if anything, is this directory. -/
structure Within (a : List Text) (s : State) : Prop where
  part : s.tree.PartOf sm.tree
  is_dir : sm.tree.isDir (below sm.dir a) = true
  src : ∀ k l, s.tree.lead sm.env.cwd (extend sm.srcDir a) = some (k, l) → l = below sm.dir a
  dst : ∀ k l, s.tree.lead sm.env.cwd (extend sm.dstDir a) = some (k, l) → l = below sm.dir a

/-- All files and links are still there. -/
def Kept (s s' : State) : Prop :=
  ∀ l e, s.tree.entry l = some e → Move.isLeaf e = true → s'.tree.entry l = some e

/-- Nothing is added, and nothing is lost if all turns are safe. -/
def Shrinks (env : Env) (Good : Turn → Prop) (s s' : State) : Prop :=
  s'.tree.PartOf s.tree ∧ ((∀ τ, Good τ → τ.stat.isLeaf → Safe env τ) → Kept s s')

variable {sm} {a : List Text} {n : Text} {s s' s'' : State} {τ : Turn} {Good : Turn → Prop}

theorem Shrinks.refl {env : Env} : Shrinks env Good s s := ⟨.refl, fun _ _ _ he _ => he⟩

theorem Shrinks.trans {env : Env} (h : Shrinks env Good s s') (h' : Shrinks env Good s' s'') :
    Shrinks env Good s s'' := by
  refine ⟨h'.1.trans h.1, ?_⟩
  intro hgood l e he hleaf
  exact h'.2 hgood l e (h.2 hgood l e he hleaf) hleaf

theorem srcDir_ne_nil (sm : SelfMove) : sm.srcDir ≠ [] := (Tree.resolve_true_iff.mp sm.src_leads).1

theorem dstDir_ne_nil (sm : SelfMove) : sm.dstDir ≠ [] := (Tree.resolve_true_iff.mp sm.dst_leads).1

/-- What a smaller tree does not lose of the two paths. -/
theorem Within.mono (h : sm.Within a s) (hpart : s'.tree.PartOf s.tree) : sm.Within a s' where
  part := hpart.trans h.part
  is_dir := h.is_dir
  src k l hlead := h.src k l (Tree.lead_mono hpart hlead)
  dst k l hlead := h.dst k l (Tree.lead_mono hpart hlead)

/-- **Aliasing**: an entry found under the path of the source is found under the other one, or the
other one leads nowhere. -/
theorem Within.alias {k : Nat} {l : Loc} {e : Entry} (h : sm.Within a s) (hn : IsName n)
    (hlead : s.tree.lead sm.env.cwd (extend sm.srcDir a) = some (k, l))
    (he : s.tree.entry (n :: l) = some e) :
    s.tree.resolve sm.env.cwd false (join (extend sm.dstDir a) n) = .entry (n :: l) ∧
        ((∀ target, e ≠ .lnk target) → ∃ k',
          s.tree.lead sm.env.cwd (join (extend sm.dstDir a) n) = some (k', n :: l)) ∨
      (∀ follow, s.tree.resolve sm.env.cwd follow (join (extend sm.dstDir a) n) = .fail) ∧
        s.tree.lead sm.env.cwd (join (extend sm.dstDir a) n) = none := by
  have hdst : extend sm.dstDir a ≠ [] := extend_ne_nil sm.dstDir_ne_nil a
  have hl := h.src k l hlead
  cases hother : s.tree.lead sm.env.cwd (extend sm.dstDir a) with
  | none =>
    refine .inr ⟨fun follow => ?_, ?_⟩
    · rw [join, Tree.resolve_join hdst hn.2.2.2.1, hother]
      rfl
    · rw [join, Tree.lead_join hdst hn.2.2.2.1, hother]
      rfl
  | some x =>
    obtain ⟨k', l'⟩ := x
    have hl' : l' = l := (h.dst k' l' hother).trans hl.symm
    subst hl'
    refine .inl ⟨?_, fun hlnk => ⟨k', ?_⟩⟩
    · exact (Tree.resolve_entry_iff hdst hn).mpr
        ⟨k', l', hother, rfl, by rw [he]; exact Option.some_ne_none _⟩
    · rw [join, Tree.lead_join hdst hn.2.2.2.1, hother]
      exact Tree.reach_entry hn he hlnk

/-- What `lstat` has found is in the directory. -/
theorem Within.found (h : sm.Within a s) (hn : IsName n) {stat : Stat}
    (hstat : s.stat sm.env (join (extend sm.srcDir a) n) false = some stat) :
    ∃ k e, s.tree.lead sm.env.cwd (extend sm.srcDir a) = some (k, below sm.dir a) ∧
      s.tree.entry (n :: below sm.dir a) = some e ∧
      s.tree.resolve sm.env.cwd false (join (extend sm.srcDir a) n) =
        .entry (n :: below sm.dir a) ∧
      stat = sm.env.statOf (n :: below sm.dir a) e := by
  obtain ⟨k, l, e, hlead, he, hl, rfl⟩ := lstat_join (extend_ne_nil sm.srcDir_ne_nil a) hn hstat
  have hdir := h.src k l hlead
  subst hdir
  exact ⟨k, e, hlead, he, hl, rfl⟩

/-- **The turn of a file or link**: it is still there exactly if the turn is safe. -/
theorem run_leaf (hat : At sm.env sm.srcDir sm.dstDir sm.Within a n τ) (hleaf : τ.stat.isLeaf) :
    (τ.branch.run (State.sys sm.env) τ.state).1 = some () ∧
      ∃ e, τ.state.tree.entry (n :: below sm.dir a) = some e ∧ Move.isLeaf e = true ∧
        (Safe sm.env τ → (τ.after sm.env).tree.entry = τ.state.tree.entry) ∧
        (¬ Safe sm.env τ → (τ.after sm.env).tree.entry =
          Function.update τ.state.tree.entry (n :: below sm.dir a) none) := by
  obtain ⟨hsrc, hdst, -, hn, h, hstat⟩ := hat
  obtain ⟨k, e, hlead, he, hl, hstat'⟩ := h.found hn (hsrc ▸ hstat)
  have hleaf' : Move.isLeaf e = true := isLeaf_statOf.mp (hstat' ▸ hleaf)
  rw [← hsrc] at hl
  have halias := h.alias hn hlead he
  rw [← hdst] at halias
  obtain ⟨hspared, hnot⟩ := run_branch_alias hl he hleaf' hstat' <| by
    rcases halias with ⟨hnew, hreg⟩ | ⟨hfail, -⟩
    · refine .inl ⟨hnew, fun hkind => Tree.resolve_true_iff.mpr ⟨by simp [hdst, join], hreg ?_⟩⟩
      rintro target rfl
      rw [hstat'] at hkind
      cases hkind
    · exact .inr hfail
  by_cases hsp : Spared sm.env τ
  · refine ⟨by rw [hspared hsp], e, he, hleaf', fun _ => ?_, fun hno => absurd (.inl hsp) hno⟩
    unfold Turn.after
    rw [hspared hsp]
  · obtain ⟨hret, hafter⟩ := (hnot hsp).after hl he hleaf'
    refine ⟨hret, e, he, hleaf', ?_, ?_⟩
    · rintro (hyes | hfails)
      · exact absurd hyes hsp
      · rw [hafter, if_pos hfails]
    · intro hno
      rw [hafter, if_neg fun hfails => hno (.inr hfails)]

/-- The turn of a directory: the walk goes into the same directory under both paths. -/
theorem run_make (hat : At sm.env sm.srcDir sm.dstDir sm.Within a n τ)
    (hkind : τ.stat.kind = .dir) :
    (τ.state.mkdir sm.env τ.dst 448).2 = τ.state ∧
      (¬ ((τ.state.mkdir sm.env τ.dst 448).1.1 ≠ 0 ∧
          (τ.state.mkdir sm.env τ.dst 448).1.2 ≠ .EEXIST) → sm.Within (a ++ [n]) τ.state) := by
  obtain ⟨hsrc, hdst, -, hn, h, hstat⟩ := hat
  obtain ⟨k, e, hlead, he, hl, hstat'⟩ := h.found hn (hsrc ▸ hstat)
  obtain ⟨mode, rfl⟩ := kind_statOf_dir (hstat' ▸ hkind)
  have halias := h.alias hn hlead he
  rw [← hdst] at halias
  have hdir : sm.tree.isDir (n :: below sm.dir a) = true :=
    h.part.isDir (Tree.isDir_iff.mpr ⟨mode, he⟩)
  rcases halias with ⟨hnew, hreach⟩ | ⟨hfail, -⟩
  · refine ⟨mkdir_of_not_absent (by rw [hnew]; rfl), fun _ => ⟨h.part, ?_, ?_, ?_⟩⟩
    · rw [below_append]
      exact hdir
    · intro k' l' hk'
      have hhere : τ.state.tree.isDir (n :: below sm.dir a) = true := Tree.isDir_iff.mpr ⟨mode, he⟩
      rw [below_append]
      exact lead_snoc sm.srcDir_ne_nil hn hlead (Tree.ne_lnk (.inr hhere)) hk'
    · obtain ⟨k', hk'⟩ := hreach fun _ h => by cases h
      intro k'' l'' hk''
      rw [extend_snoc, ← hdst, hk'] at hk''
      rw [below_append]
      cases hk''
      rfl
  · exact ⟨mkdir_of_not_absent (by rw [hfail]; rfl), fun hr =>
      absurd (mkdir_of_fail (hfail false)) hr⟩

/-- `rmdir` takes away a directory at most. -/
theorem shrinks_rmdir (env : Env) (path : Text) : Shrinks env Good s (s.rmdir env path).2 := by
  constructor
  · intro l e he
    rcases Move.entry_rmdir env s path l with heq | ⟨-, hnone⟩
    · rwa [← heq]
    · rw [hnone] at he
      cases he
  · intro _ l e he hleaf
    rcases Move.entry_rmdir env s path l with heq | ⟨hdir, -⟩
    · rwa [heq]
    · rw [Move.isDir_of_leaf he hleaf] at hdir
      cases hdir

variable (sm Good) in
theorem rule : WalkRule sm.env sm.srcDir sm.dstDir sm.Within
    (fun _ => Shrinks sm.env Good) Good where
  refl := .refl
  trans := .trans
  lift h := h
  stable h heff := h.mono heff.1
  name {a s n} h hmem := by
    rcases (sm.listing a h.is_dir).only n hmem with hne | hdot
    · exact .inr (sm.tree.names n _ hne)
    · exact .inl hdot
  leaf {a n τ} hat hleaf hgood := by
    obtain ⟨hret, e, he, -, hsafe, hnot⟩ := run_leaf hat hleaf
    refine ⟨hret, ?_, ?_⟩
    · by_cases h : Safe sm.env τ
      · intro l e' he'
        rwa [← hsafe h]
      · exact Tree.partOf_of_removed (hnot h)
    · intro hall l e' he' _
      rw [hsafe (hall τ hgood hleaf), he']
  make {a n τ} hat hkind _ := by
    obtain ⟨hsame, hinside⟩ := run_make hat hkind
    rw [hsame]
    exact ⟨.refl, hinside⟩
  leave _ := shrinks_rmdir ..

/-- At the start the two paths lead to the directory. -/
theorem within_start (hs : s.tree = sm.tree) : sm.Within [] s where
  part := hs ▸ .refl
  is_dir := sm.is_dir
  src k l hlead := by
    have hl : s.tree.resolve sm.env.cwd true sm.srcDir = .entry l :=
      Tree.resolve_true_iff.mpr ⟨sm.srcDir_ne_nil, k, hlead⟩
    rw [hs, sm.src_leads] at hl
    exact (Lookup.entry.inj hl).symm
  dst k l hlead := by
    have hl : s.tree.resolve sm.env.cwd true sm.dstDir = .entry l :=
      Tree.resolve_true_iff.mpr ⟨sm.dstDir_ne_nil, k, hlead⟩
    rw [hs, sm.dst_leads] at hl
    exact (Lookup.entry.inj hl).symm

/-- **Moving a directory onto itself keeps all its files and links** exactly if each of them that
the walk comes to is spared when its turn comes, being a link that then leads nowhere and is renamed
onto itself, or if its removal fails. -/
theorem keeps_all_iff (sm : SelfMove) (s : State) (hs : s.tree = sm.tree) :
    ∃ ret s', (move_dir (some sm.srcDir) (some sm.dstDir)).run (State.sys sm.env) s =
        (some ret, s') ∧
      ((∀ l e, sm.dir <:+ l → sm.tree.entry l = some e → Move.isLeaf e = true →
          Holds (s'.tree.entry l) e) ↔
        ∀ τ ∈ turns sm.env 512 sm.srcDir sm.dstDir s, τ.stat.isLeaf → Safe sm.env τ) := by
  have hopens : Opens sm.env s sm.srcDir := ⟨sm.dir, hs ▸ sm.src_leads, hs ▸ sm.is_dir⟩
  obtain ⟨ret, s₁, hrun, -, hthrough⟩ :=
    (rule sm fun _ => True).run (within_start hs) hopens fun _ _ => trivial
  refine ⟨ret, _, hrun, ?_⟩
  constructor
  · intro hall τ hτ hleaf
    by_contra hunsafe
    -- the entry is there before its turn, and not after it
    obtain ⟨⟨a, n, hat⟩, -, hend⟩ := hthrough.2 τ hτ
    obtain ⟨-, e, he, hleaf', -, hgone⟩ := run_leaf hat hleaf
    have hnone : s₁.tree.entry (n :: below sm.dir a) = none := by
      by_contra hne
      obtain ⟨e', he'⟩ := Option.ne_none_iff_exists'.mp hne
      have hback := hend.1 _ e' he'
      rw [hgone hunsafe, Function.update_self] at hback
      cases hback
    have hin : sm.dir <:+ n :: below sm.dir a := (suffix_below sm.dir a).trans (List.suffix_cons ..)
    have hholds := hall _ e hin (hat.sit.part _ e he) hleaf'
    rw [Move.holds_rmdir s₁ _ _ hleaf', hnone] at hholds
    exact not_holds_none e hholds
  · intro hsafe l e _ he hleaf
    obtain ⟨ret', s₂, hrun', -, hkept, -⟩ :=
      (rule sm fun τ => τ.stat.isLeaf → Safe sm.env τ).run (within_start hs) hopens hsafe
    have hs₂ : (s₁.rmdir sm.env sm.srcDir).2 = (s₂.rmdir sm.env sm.srcDir).2 :=
      (Prod.mk.inj (hrun.symm.trans hrun')).2
    rw [hs₂, Move.holds_rmdir s₂ _ _ hleaf, hkept.2 (fun τ h => h) l e (hs ▸ he) hleaf]
    exact holds_self e

theorem source_made : (Tree.root.create [] ['s'] (.dir 493)).isSome = true := by decide

/-- The root, and in it the directory `s` with a link `a` that leads nowhere. -/
def danglingLink : Tree :=
  (((Tree.root.create [] ['s'] (.dir 493)).get source_made).create [['s']] ['a']
    (.lnk ['x'])).get (by decide)

/-- `move_dir("/s", "/s/.")` with this link. -/
def ontoDangling : SelfMove where
  env := Move.calm
  tree := danglingLink
  srcDir := ['/', 's']
  dstDir := ['/', 's', '/', '.']
  dir := [['s']]
  is_dir := by decide
  src_leads := by decide
  dst_leads := by decide
  listing := Move.listing_flat [['a']] (by decide) (by decide) (by decide) (by decide) (by decide)

theorem keeps_all_ontoDangling :
    ∃ ret s', (move_dir (some ['/', 's']) (some ['/', 's', '/', '.'])).run (State.sys Move.calm)
        ⟨danglingLink, fun _ => none, 3⟩ = (some ret, s') ∧
      s'.tree.entry [['a'], ['s']] = some (.lnk ['x']) := by
  obtain ⟨ret, s', hrun, hiff⟩ := keeps_all_iff ontoDangling ⟨danglingLink, fun _ => none, 3⟩ rfl
  refine ⟨ret, s', hrun, hiff.mpr ?_ [['a'], ['s']] (.lnk ['x']) (by decide) (by decide) rfl⟩
  have hsafe : ∀ τ ∈ turns Move.calm 512 ['/', 's'] ['/', 's', '/', '.']
      ⟨danglingLink, fun _ => none, 3⟩, Safe Move.calm τ := by decide
  exact fun τ hτ _ => hsafe τ hτ

/-- `move_dir("/s", "/s")` where `/s` contains a file. -/
def ontoFile : SelfMove where
  env := Move.calm
  tree := Move.onlySource
  srcDir := ['/', 's']
  dstDir := ['/', 's']
  dir := [['s']]
  is_dir := Move.toNowhere.src_dir
  src_leads := Move.toNowhere.opens
  dst_leads := Move.toNowhere.opens
  listing := Move.toNowhere.listing

/-- The file is found "already there", and removed. -/
theorem onto_itself_is_lost :
    ∃ s', (move_dir (some ['/', 's']) (some ['/', 's'])).run (State.sys Move.calm)
        ⟨Move.onlySource, fun _ => none, 3⟩ = (some 0, s') ∧
      s'.tree.entry [['a'], ['s']] = none ∧
      ¬ ∀ l e, ontoFile.dir <:+ l → Move.onlySource.entry l = some e → Move.isLeaf e = true →
        Holds (s'.tree.entry l) e := by
  have hzero : ((move_dir (some ['/', 's']) (some ['/', 's'])).run
      (State.sys Move.calm) ⟨Move.onlySource, fun _ => none, 3⟩).1 = some 0 := by decide
  obtain ⟨s', hs'⟩ : ∃ s', s' = ((move_dir (some ['/', 's']) (some ['/', 's'])).run
    (State.sys Move.calm) ⟨Move.onlySource, fun _ => none, 3⟩).2 := ⟨_, rfl⟩
  have hgone : s'.tree.entry [['a'], ['s']] = none := by
    rw [hs']
    decide
  refine ⟨s', Prod.ext hzero hs'.symm, hgone, ?_⟩
  intro hall
  have hholds := hall [['a'], ['s']] (.reg [1] 420) (by decide) (by decide) rfl
  exact not_holds_none _ (hgone ▸ hholds)

end SelfMove

end EngineerLinux.MoveDir
