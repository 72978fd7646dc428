import EngineerLinux.Lib.PathLinks
import EngineerLinux.MoveDir.Complete
import EngineerLinux.MoveDir.Turns

/-!
# What a move leaves alone

The destination may contain links, to anywhere or to nowhere. Some calls of `move_dir` follow a link
at the end of a path (`access`, `open`, `chmod` and `opendir`; `move.c` 20, 33, 54, 65, 69), so that
the walk may leave the two trees.

One turn is followed call by call. `Facing` is the turn of a file or link with the place for it in
the destination, and what the two paths lead to; `Facing.Ok` says that at most these two entries
have changed, and that a link has not been put where one of the two directories' own paths goes
through. Each call keeps it (`ok_unlink_src`, `ok_rename` and so on), unless a link leads the call
somewhere else, which is what `Strays` is about. The walk is then put together by the rule of
`Turns`: while the paths of the directories lead where they did (`Steady`), a turn changes nothing
elsewhere.

- `Strays`: the turns that may lead out of the trees;
- `ok_branch`: the turn of a file or link that does not stray changes its two entries at most;
- `frame_kept`: if there are none, **everything else is as it was**.
-/

namespace EngineerLinux.MoveDir

open Files

/-! ## Where the walk may go astray -/

/-- The path up to its last slash. -/
def dirOf (path : Text) : Text := ((path.reverse.dropWhile (· ≠ '/')).drop 1).reverse

theorem dirOf_join (dir : Text) {n : Text} (hn : '/' ∉ n) : dirOf (join dir n) = dir := by
  have hname : ∀ c ∈ n.reverse, decide (c ≠ '/') = true := by
    intro c hc
    refine decide_eq_true ?_
    rintro rfl
    exact hn (List.mem_reverse.mp hc)
  rw [dirOf, join, List.reverse_append, List.reverse_cons, List.append_assoc,
    List.dropWhile_append_of_pos hname, List.singleton_append,
    List.dropWhile_cons_of_neg (by simp), List.drop_one, List.tail_cons, List.reverse_reverse]

variable (env : Env)

/-- This link is one that the path of one of the two directories itself goes through. -/
def OnTheWay (τ : Turn) : Prop :=
  ∃ m ∈ τ.state.tree.linksOn env.cwd (dirOf τ.src) ++ τ.state.tree.linksOn env.cwd (dirOf τ.dst),
    τ.state.tree.resolve env.cwd false τ.dst = .entry m

/-- **A turn that may lead out of the trees**: the destination has a link where

- the source has a directory, and the link leads to a directory;
- the source has a file that cannot be renamed, and the link leads to where there is nothing, so
  that the copy is made there;
- the source has a link that takes its place because `access` cannot follow it, and still the path
  of one of the directories goes through it. -/
def Strays (τ : Turn) : Prop :=
  MeetsLink env τ ∧
    (τ.stat.kind = .dir ∧ (τ.state.stat env τ.dst true).map Stat.kind = some .dir ∨
      τ.stat.kind = .reg ∧ env.fails (.rename τ.src τ.dst) = true ∧
        (τ.state.tree.resolve env.cwd true τ.dst).free = true ∨
      τ.stat.kind = .lnk ∧ env.fails (.rename τ.src τ.dst) = false ∧
        (τ.state.tree.resolve env.cwd true τ.dst).found = false ∧ OnTheWay env τ)

instance (τ : Turn) : Decidable (OnTheWay env τ) := inferInstanceAs (Decidable (∃ _ ∈ _, _))

instance (τ : Turn) : Decidable (Strays env τ) :=
  inferInstanceAs (Decidable (_ = _ ∧ (_ = _ ∧ _ = _ ∨ _ = _ ∧ _ = _ ∧ _ = _ ∨
    _ = _ ∧ _ = _ ∧ _ = _ ∧ OnTheWay env τ)))

/-- No call fails for a reason outside the tree, but for `rename`. -/
def OnlyRenameFaults : Prop :=
  ∀ f, env.fails f = true → ∃ oldpath newpath, f = .rename oldpath newpath

variable {env}

theorem OnlyRenameFaults.eq_false (h : OnlyRenameFaults env) {f : Fault}
    (hf : ∀ oldpath newpath, f ≠ .rename oldpath newpath) : env.fails f = false := by
  by_contra hne
  rw [Bool.not_eq_false] at hne
  obtain ⟨oldpath, newpath, heq⟩ := h f hne
  exact hf oldpath newpath heq

/-! ## One turn, call by call -/

/-- The turn of the file or link `e` with the name `n` in the directory `l`, for which there is the
directory `d` in the destination. The paths of these directories are `srcDir` and `dstDir`. -/
structure Facing (env : Env) (τ : Turn) (srcDir dstDir n : Text) (l d : Loc) (e : Entry) :
    Prop where
  src : τ.src = join srcDir n
  dst : τ.dst = join dstDir n
  name : IsName n
  src_ne : srcDir ≠ []
  dst_ne : dstDir ≠ []
  src_leads : ∃ k, τ.state.tree.lead env.cwd srcDir = some (k, l)
  dst_leads : ∃ k, τ.state.tree.lead env.cwd dstDir = some (k, d)
  dst_dir : τ.state.tree.isDir d = true
  entry : τ.state.tree.entry (n :: l) = some e
  leaf : Move.isLeaf e = true
  stat : τ.stat = env.statOf (n :: l) e
  apart : n :: l ≠ n :: d

namespace Facing

variable {τ : Turn} {srcDir dstDir n : Text} {l d : Loc} {e : Entry} {s s' : State}

/-- Neither of the two directories' paths goes through the entry in the destination. -/
def Aside (env : Env) (τ : Turn) (srcDir dstDir : Text) (m : Loc) : Prop :=
  m ∉ τ.state.tree.linksOn env.cwd srcDir ∧ m ∉ τ.state.tree.linksOn env.cwd dstDir

/-- **What the turn may have done so far**: the source's entry may be gone, and there may be another
one in the destination, but no link instead of a link that one of the paths goes through. -/
structure Ok (env : Env) (τ : Turn) (srcDir dstDir n : Text) (l d : Loc) (s : State) : Prop where
  swapped : τ.state.tree.Swapped s.tree (n :: l) (n :: d)
  links : ¬ τ.state.tree.Relinked s.tree (n :: d) ∨ Aside env τ srcDir dstDir (n :: d)

theorem Ok.start : Ok env τ srcDir dstDir n l d τ.state where
  swapped := ⟨fun _ _ _ => rfl, .inl rfl, rfl⟩
  links := .inl <| by
    rintro ⟨target, target', h, h', hne⟩
    rw [h] at h'
    exact hne (Entry.lnk.inj (Option.some.inj h'))

theorem Ok.congr (h : Ok env τ srcDir dstDir n l d s) (htree : s'.tree = s.tree) :
    Ok env τ srcDir dstDir n l d s' :=
  ⟨htree ▸ h.swapped, htree ▸ h.links⟩

/-- One step more: something may have become of the two entries. -/
theorem Ok.step (h : Ok env τ srcDir dstDir n l d s)
    (hothers : ∀ y, y ≠ n :: l → y ≠ n :: d → s'.tree.entry y = s.tree.entry y)
    (hsrc : s'.tree.entry (n :: l) = s.tree.entry (n :: l) ∨ s'.tree.entry (n :: l) = none)
    (hdir : s'.tree.isDir (n :: d) = s.tree.isDir (n :: d))
    (hlnk : s'.tree.entry (n :: d) = s.tree.entry (n :: d) ∨
      (∀ target, s'.tree.entry (n :: d) ≠ some (.lnk target)) ∨
      (∀ target, τ.state.tree.entry (n :: d) ≠ some (.lnk target)) ∨
      Aside env τ srcDir dstDir (n :: d)) :
    Ok env τ srcDir dstDir n l d s' := by
  refine ⟨⟨?_, ?_, hdir.trans h.swapped.is_dir⟩, ?_⟩
  · intro y hy hy'
    rw [hothers y hy hy']
    exact h.swapped.others y hy hy'
  · rcases hsrc with hsame | hnone
    · rw [hsame]
      exact h.swapped.gone
    · exact .inr hnone
  · rcases hlnk with hsame | hnot | hnot | haside
    · unfold Tree.Relinked
      rw [hsame]
      exact h.links
    · exact .inl fun ⟨_, target', _, h', _⟩ => hnot target' h'
    · exact .inl fun ⟨target, _, h', _⟩ => hnot target h'
    · exact .inr haside

variable (f : Facing env τ srcDir dstDir n l d e)

include f

theorem src_dir : τ.state.tree.isDir l = true :=
  Tree.isDir_of_entry (by rw [f.entry]; exact Option.some_ne_none _)

/-- The source's entry is removed. -/
theorem ok_remove_src (h : Ok env τ srcDir dstDir n l d s)
    (hupdate : s'.tree.entry = Function.update s.tree.entry (n :: l) none) :
    Ok env τ srcDir dstDir n l d s' := by
  have hm : s'.tree.entry (n :: d) = s.tree.entry (n :: d) := by
    rw [hupdate, Function.update_of_ne (Ne.symm f.apart)]
  refine h.step ?_ (.inr ?_) (Tree.isDir_congr hm) (.inl hm)
  · intro y hy _
    rw [hupdate, Function.update_of_ne hy]
  · rw [hupdate, Function.update_self]

/-- Another entry in the destination. -/
theorem ok_set_dst {e' : Option Entry} (h : Ok env τ srcDir dstDir n l d s)
    (hupdate : s'.tree.entry = Function.update s.tree.entry (n :: d) e')
    (hdir : s'.tree.isDir (n :: d) = s.tree.isDir (n :: d))
    (hlnk : (∀ target, e' ≠ some (.lnk target)) ∨
      (∀ target, τ.state.tree.entry (n :: d) ≠ some (.lnk target)) ∨
      Aside env τ srcDir dstDir (n :: d)) :
    Ok env τ srcDir dstDir n l d s' := by
  refine h.step ?_ (.inl ?_) hdir (.inr ?_)
  · intro y _ hy
    rw [hupdate, Function.update_of_ne hy]
  · rw [hupdate, Function.update_of_ne f.apart]
  · rw [hupdate, Function.update_self]
    exact hlnk

/-! ### What the paths lead to now -/

/-- What is still at the source's place is the source's entry. -/
theorem entry_src (h : Ok env τ srcDir dstDir n l d s) {e' : Entry}
    (he' : s.tree.entry (n :: l) = some e') : e' = e := by
  rcases h.swapped.gone with hsame | hnone
  · rw [hsame, f.entry] at he'
    exact (Option.some.inj he').symm
  · rw [hnone] at he'
    cases he'

/-- The directory of the source's path is the same, if any. -/
theorem src_lead (h : Ok env τ srcDir dstDir n l d s) {y : Nat × Loc}
    (hlead : s.tree.lead env.cwd srcDir = some y) (hdir : s.tree.isDir y.2 = true) : y.2 = l := by
  obtain ⟨k₀, hlead₀⟩ := f.src_leads
  exact congrArg Prod.snd (Tree.lead_swapped h.swapped (h.links.imp_right fun haside => haside.1)
    hlead₀ f.src_dir hlead hdir)

/-- The directory of the destination's path is the same, if any. -/
theorem dst_lead (h : Ok env τ srcDir dstDir n l d s) {y : Nat × Loc}
    (hlead : s.tree.lead env.cwd dstDir = some y) (hdir : s.tree.isDir y.2 = true) : y.2 = d := by
  obtain ⟨k₀, hlead₀⟩ := f.dst_leads
  exact congrArg Prod.snd (Tree.lead_swapped h.swapped (h.links.imp_right fun haside => haside.2)
    hlead₀ f.dst_dir hlead hdir)

/-- The paths lead to the two entries, if to any. -/
theorem resolve_src (h : Ok env τ srcDir dstDir n l d s) {y : Loc}
    (hy : s.tree.resolve env.cwd false τ.src = .entry y) : y = n :: l := by
  rw [f.src, join] at hy
  obtain ⟨k, l', hlead, rfl, hne⟩ := (Tree.resolve_entry_iff f.src_ne f.name).mp hy
  have hl : l' = l := f.src_lead h hlead (Tree.isDir_of_entry hne)
  rw [hl]

theorem resolve_dst (h : Ok env τ srcDir dstDir n l d s) {y : Loc}
    (hy : s.tree.resolve env.cwd false τ.dst = .entry y) : y = n :: d := by
  rw [f.dst, join] at hy
  obtain ⟨k, d', hlead, rfl, hne⟩ := (Tree.resolve_entry_iff f.dst_ne f.name).mp hy
  have hd : d' = d := f.dst_lead h hlead (Tree.isDir_of_entry hne)
  rw [hd]

theorem absent_dst (h : Ok env τ srcDir dstDir n l d s) {y : Loc} {m : Text} {follow : Bool}
    (hy : s.tree.resolve env.cwd follow τ.dst = .absent y m)
    (hlnk : follow = true → ∀ target, s.tree.entry (n :: d) ≠ some (.lnk target)) :
    m = n ∧ y = d ∧ s.tree.entry (n :: d) = none := by
  rw [f.dst, join] at hy
  obtain ⟨rfl, ⟨k, hlead⟩, hdir, hnone⟩ := Tree.resolve_absent f.dst_ne f.name hy <| by
    intro k d' target hlead hfollow hentry
    have hd : d' = d :=
      f.dst_lead h hlead (Tree.isDir_of_entry (by rw [hentry]; exact Option.some_ne_none _))
    rw [hd] at hentry
    exact hlnk hfollow target hentry
  have hd : y = d := f.dst_lead h hlead hdir
  exact ⟨rfl, hd, hd ▸ hnone⟩

/-- With links followed, the paths still lead to the entries, if these are no links. -/
theorem resolve_dst_true (h : Ok env τ srcDir dstDir n l d s) {y : Loc}
    (hlnk : ∀ target, s.tree.entry (n :: d) ≠ some (.lnk target))
    (hy : s.tree.resolve env.cwd true τ.dst = .entry y) :
    y = n :: d ∧ s.tree.entry (n :: d) ≠ none := by
  rw [f.dst, join] at hy
  obtain ⟨k, d', hlead, hdir, hentry⟩ := Tree.resolve_true_entry f.dst_ne f.name hy
  have hd : d' = d := f.dst_lead h hlead hdir
  subst hd
  obtain ⟨rfl, hne⟩ := hentry hlnk
  exact ⟨rfl, hne⟩

theorem resolve_src_true (h : Ok env τ srcDir dstDir n l d s) {y : Loc}
    (hlnk : ∀ target, e ≠ .lnk target) (hy : s.tree.resolve env.cwd true τ.src = .entry y) :
    y = n :: l ∧ s.tree.entry (n :: l) ≠ none := by
  rw [f.src, join] at hy
  obtain ⟨k, l', hlead, hdir, hentry⟩ := Tree.resolve_true_entry f.src_ne f.name hy
  have hl : l' = l := f.src_lead h hlead hdir
  subst hl
  obtain ⟨rfl, hne⟩ := hentry fun target heq => hlnk target (f.entry_src h heq).symm
  exact ⟨rfl, hne⟩

/-! ### The calls -/

theorem ok_unlink_src (h : Ok env τ srcDir dstDir n l d s) :
    Ok env τ srcDir dstDir n l d (s.unlink env τ.src).2 := by
  rcases s.unlink_cases env τ.src with heq | ⟨y, t', hy, ht', heq⟩
  · rwa [heq]
  · rw [heq]
    have hx := f.resolve_src h hy
    subst hx
    exact f.ok_remove_src h (Tree.of_unlink ht').2

theorem ok_unlink_dst (h : Ok env τ srcDir dstDir n l d s) :
    Ok env τ srcDir dstDir n l d (s.unlink env τ.dst).2 := by
  rcases s.unlink_cases env τ.dst with heq | ⟨y, t', hy, ht', heq⟩
  · rwa [heq]
  · rw [heq]
    have hm := f.resolve_dst h hy
    subst hm
    obtain ⟨hdir, hupdate⟩ := Tree.of_unlink ht'
    have hnone : t'.entry (n :: d) = none := by
      rw [hupdate, Function.update_self]
    exact f.ok_set_dst h hupdate ((Tree.isDir_of_none hnone).trans hdir.symm) (.inl nofun)

/-- A link does not take the place of another one that one of the paths goes through. -/
def MayLink (env : Env) (τ : Turn) (srcDir dstDir : Text) (m : Loc) : Prop :=
  (∀ target, τ.state.tree.entry m ≠ some (.lnk target)) ∨ Aside env τ srcDir dstDir m

theorem ok_rename (h : Ok env τ srcDir dstDir n l d s)
    (hlnk : (∀ target, e ≠ .lnk target) ∨ MayLink env τ srcDir dstDir (n :: d)) :
    Ok env τ srcDir dstDir n l d (s.rename env τ.src τ.dst).2 := by
  rcases s.rename_cases env τ.src τ.dst with heq | ⟨y, d', m, t', hy, hd', ht', heq⟩
  · rwa [heq]
  · rw [heq]
    have hx := f.resolve_src h hy
    subst hx
    have hm : m :: d' = n :: d := by
      rcases hd' with hd' | hd'
      · obtain ⟨rfl, rfl, -⟩ := f.absent_dst h hd' nofun
        rfl
      · exact f.resolve_dst h hd'
    cases hm
    rcases Tree.of_rename ht' with rfl | ⟨e', he', -, hdir, -, hupdate⟩
    · exact h
    · have he := f.entry_src h he'
      subst he
      have hdst : t'.entry (n :: d) = some e' := by
        rw [hupdate, Function.update_of_ne (Ne.symm f.apart), Function.update_self]
      refine h.step ?_ (.inr ?_) ?_ (.inr ?_)
      · intro y hy hy'
        show t'.entry y = _
        rw [hupdate, Function.update_of_ne hy, Function.update_of_ne hy']
      · show t'.entry _ = none
        rw [hupdate, Function.update_self]
      · exact (Move.isDir_of_leaf hdst f.leaf).trans hdir.symm
      · rcases hlnk with hreg | hmay
        · refine .inl fun target heq => hreg target ?_
          rw [show t'.entry (n :: d) = _ from hdst] at heq
          exact Option.some.inj heq
        · exact .inr hmay

theorem ok_symlink (h : Ok env τ srcDir dstDir n l d s)
    (hmay : MayLink env τ srcDir dstDir (n :: d)) (target : Text) :
    Ok env τ srcDir dstDir n l d (s.symlink env target τ.dst).2 := by
  rcases s.symlink_cases env target τ.dst with heq | ⟨y, m, t', hy, ht', heq⟩
  · rwa [heq]
  · rw [heq]
    obtain ⟨rfl, rfl, hnone⟩ := f.absent_dst h hy nofun
    obtain ⟨-, hupdate⟩ := Tree.of_create ht'
    refine f.ok_set_dst h hupdate ?_ (.inr hmay)
    have hnew : t'.entry (m :: y) = some (.lnk target) := by
      rw [hupdate, Function.update_self]
    exact (Tree.isDir_of_some hnew nofun).trans (Tree.isDir_of_none hnone).symm

/-- `chmod` follows links, so there must be none. -/
theorem ok_chmod (h : Ok env τ srcDir dstDir n l d s)
    (hnot : ∀ target, s.tree.entry (n :: d) ≠ some (.lnk target)) (mode : Nat) :
    Ok env τ srcDir dstDir n l d (s.chmod env τ.dst mode).2 := by
  rcases s.chmod_cases env τ.dst mode with heq | ⟨y, t', hy, ht', heq⟩
  · rwa [heq]
  · rw [heq]
    obtain ⟨rfl, -⟩ := f.resolve_dst_true h hnot hy
    obtain ⟨e', he', hupdate⟩ := Tree.of_chmod ht'
    have hnew : t'.entry (n :: d) = some (e'.chmod mode) := by
      rw [hupdate, Function.update_self]
    refine f.ok_set_dst h hupdate ?_ (.inl ?_)
    · unfold Tree.isDir
      rw [show t'.entry (n :: d) = _ from hnew, he']
      cases e' <;> rfl
    · intro target heq
      cases e' with
      | lnk target' => exact hnot target' he'
      | reg | dir | other => cases heq

/-! ### Links -/

omit f in
/-- The calls of the branch for links that change the tree are on its two paths. -/
def LnkCall (src dst : Text) : FileCall → Prop
  | .access _ | .lstat _ | .readlink _ _ => True
  | .unlink path => path = src ∨ path = dst
  | .rename oldpath newpath => oldpath = src ∧ newpath = dst
  | .symlink _ linkpath => linkpath = dst
  | _ => False

omit f in
theorem renameOrRelink_only (src dst : Text) : (renameOrRelink src dst).Only (LnkCall src dst) := by
  refine ⟨⟨rfl, rfl⟩, fun r => ?_⟩
  show Prog.Only _ (if r ≠ 0 then _ else _)
  split
  · exact ⟨trivial, fun _ => ⟨rfl, fun _ => ⟨.inl rfl, fun _ => trivial⟩⟩⟩
  · trivial

omit f in
theorem moveLnk_only (src dst : Text) : (moveLnk src dst).Only (LnkCall src dst) := by
  refine ⟨trivial, fun r => ?_⟩
  show Prog.Only _ (if r = 0 then _ else _)
  split
  · refine ⟨trivial, fun dstStat => ?_⟩
    show Prog.Only _ (if (dstStat.getD .zero).kind = .lnk then _ else _)
    split
    · exact ⟨.inl rfl, fun _ => trivial⟩
    · exact ⟨.inr rfl, fun _ => renameOrRelink_only src dst⟩
  · exact renameOrRelink_only src dst

omit f in
theorem moveLnk_returns (src dst : Text) : (moveLnk src dst).Returns (· = some ()) := by
  have hrest : (renameOrRelink src dst).Returns (· = some ()) := by
    intro r
    show Prog.Returns _ (if r ≠ 0 then _ else _)
    split
    · exact fun _ _ _ => rfl
    · rfl
  intro r
  show Prog.Returns _ (if r = 0 then _ else _)
  split
  · intro dstStat
    show Prog.Returns _ (if (dstStat.getD .zero).kind = .lnk then _ else _)
    split
    · exact fun _ => rfl
    · exact fun _ => hrest
  · exact hrest

theorem ok_moveLnk (hmay : MayLink env τ srcDir dstDir (n :: d)) :
    Ok env τ srcDir dstDir n l d ((moveLnk τ.src τ.dst).run (State.sys env) τ.state).2 := by
  refine (moveLnk_only τ.src τ.dst).inv ?_ Ok.start
  intro c s hc h
  cases c with
  | access | lstat | readlink => exact h
  | unlink path =>
    rcases hc with rfl | rfl
    · exact f.ok_unlink_src h
    · exact f.ok_unlink_dst h
  | rename oldpath newpath =>
    obtain ⟨rfl, rfl⟩ := hc
    exact f.ok_rename h (.inr hmay)
  | symlink target linkpath =>
    cases hc
    exact f.ok_symlink h hmay target
  | opendir | closedir | stat | mkdir | openRead | openCreat | sendfile | close | chmod | rmdir =>
    cases hc

/-! ### Files -/

variable {data : List UInt8} {mode : Nat}

/-- The file is opened, if it is found. -/
theorem openRead_cases (he : e = .reg data mode) (h : Ok env τ srcDir dstDir n l d s) :
    (∃ s₁, s.openRead env τ.src = (-1, s₁) ∧ s₁.tree = s.tree) ∨
      ∃ s₁, s.openRead env τ.src = ((s.next : Int), s₁) ∧ s₁.tree = s.tree ∧
        s₁.next = s.next + 1 ∧ s₁.file s.next = some ⟨τ.src, n :: l, 0⟩ ∧
        s.tree.entry (n :: l) = some e := by
  unfold State.openRead
  split
  · exact .inl ⟨s, rfl, rfl⟩
  · split
    · next y hy =>
      obtain ⟨rfl, hne⟩ := f.resolve_src_true h (he ▸ nofun) hy
      obtain ⟨e', he'⟩ := Option.ne_none_iff_exists'.mp hne
      have heq := f.entry_src h he'
      subst heq
      refine .inr ⟨(s.opened τ.src (n :: l)).2, ?_, rfl, rfl, ?_, he'⟩
      · subst he
        simp only [State.openAt, he']
        rfl
      · exact (Move.file_opened ..).trans (if_pos rfl)
    · exact .inl ⟨s, rfl, rfl⟩

/-- Where there is nothing, the copy is made, if its place is found; a directory is not opened. -/
theorem openCreat_cases (h : Ok env τ srcDir dstDir n l d s)
    (hdst : s.tree.entry (n :: d) = none ∨ s.tree.isDir (n :: d) = true) :
    s.openCreat env τ.dst 511 = (-1, s) ∨
      ∃ (s₁ : State) (mode : Nat), s.openCreat env τ.dst 511 = ((s.next : Int), s₁) ∧
        s.tree.entry (n :: d) = none ∧
        s₁.tree.entry = Function.update s.tree.entry (n :: d) (some (.reg [] mode)) ∧
        ∀ fd, s₁.file fd =
          if fd = s.next then some ⟨τ.dst, n :: d, 0⟩ else s.file fd := by
  have hnot := Tree.ne_lnk hdst
  unfold State.openCreat
  split
  · exact .inl rfl
  · split
    · next y hy =>
      obtain ⟨rfl, hne⟩ := f.resolve_dst_true h hnot hy
      obtain ⟨mode, hmode⟩ := Tree.isDir_iff.mp (hdst.resolve_left hne)
      refine .inl ?_
      simp only [State.openAt, hmode]
    · next y m hy =>
      obtain ⟨rfl, rfl, hnone⟩ := f.absent_dst h hy fun _ => hnot
      cases hcreate : s.tree.create y m (.reg [] (env.masked 511)) with
      | none => exact .inl rfl
      | some t' =>
        exact .inr ⟨_, _, rfl, hnone, (Tree.of_create hcreate).2, fun fd => Move.file_opened ..⟩
    · exact .inl rfl

/-- **Opening, creating and sending**: at most the copy is new. -/
theorem ok_send (he : e = .reg data mode) (h : Ok env τ srcDir dstDir n l d s)
    (hdst : s.tree.entry (n :: d) = none ∨ s.tree.isDir (n :: d) = true) :
    ∃ srcFd s₁ dstFd s₂ s₃, s.openRead env τ.src = (srcFd, s₁) ∧
      s₁.openCreat env τ.dst 511 = (dstFd, s₂) ∧
      (sendAll dstFd srcFd (data.length + 1)).run (State.sys env) s₂ = (some (), s₃) ∧
      Ok env τ srcDir dstDir n l d s₃ ∧
      ∀ target, s₃.tree.entry (n :: d) ≠ some (.lnk target) := by
  have hnot := Tree.ne_lnk hdst
  obtain ⟨srcFd, s₁, hread, htree₁, hsrcFd⟩ : ∃ srcFd s₁, s.openRead env τ.src = (srcFd, s₁) ∧
      s₁.tree = s.tree ∧ (srcFd = -1 ∨ srcFd < s₁.next ∧
        s₁.file srcFd = some ⟨τ.src, n :: l, 0⟩ ∧ s.tree.entry (n :: l) = some e) := by
    rcases f.openRead_cases he h with ⟨s₁, hread, htree⟩ | ⟨s₁, hread, htree, hnext, hfile, hentry⟩
    · exact ⟨_, s₁, hread, htree, .inl rfl⟩
    · exact ⟨_, s₁, hread, htree, .inr ⟨by omega, hfile, hentry⟩⟩
  have h₁ : Ok env τ srcDir dstDir n l d s₁ := h.congr htree₁
  rcases f.openCreat_cases h₁ (by rwa [htree₁]) with
    hcreat | ⟨s₂, mode', hcreat, hnone, hupdate, hfile₂⟩
  · -- no copy is made
    refine ⟨srcFd, s₁, -1, s₁, s₁, hread, hcreat,
      Move.run_sendAll_closed _ (.inl Move.file_neg), h₁, ?_⟩
    rwa [htree₁]
  · have hcopy : s₂.tree.entry (n :: d) = some (.reg [] mode') := by
      rw [hupdate, Function.update_self]
    have h₂ : Ok env τ srcDir dstDir n l d s₂ :=
      f.ok_set_dst h₁ hupdate ((Tree.isDir_of_some hcopy nofun).trans
        (Tree.isDir_of_none hnone).symm) (.inl nofun)
    rcases hsrcFd with rfl | ⟨hlt, hfile, hentry⟩
    · -- nothing is sent
      refine ⟨-1, s₁, _, s₂, s₂, hread, hcreat,
        Move.run_sendAll_closed _ (.inr Move.file_neg), h₂, ?_⟩
      rw [hcopy]
      nofun
    · have hcopying : Move.Copying s₂ s₁.next srcFd τ.src τ.dst (n :: l) (n :: d) data mode mode'
          0 := by
        refine ⟨?_, ?_, ?_, ?_, Nat.zero_le _⟩
        · rw [hfile₂, if_pos rfl]
        · rw [hfile₂, if_neg (Int.ne_of_lt hlt), hfile]
        · rw [hupdate, Function.update_of_ne f.apart, htree₁, hentry, he]
        · rw [hcopy, List.take_zero]
      obtain ⟨s₃, i, hrun, hframe, hcopy₃, -, -⟩ := Move.run_sendAll env f.apart
        (Ne.symm (Int.ne_of_lt hlt)) (data.length + 1) hcopying (by omega)
      refine ⟨srcFd, s₁, _, s₂, s₃, hread, hcreat, hrun, ?_, ?_⟩
      · refine h₂.step (fun y _ hy => hframe y hy) (.inl (hframe _ f.apart)) ?_
          (.inr (.inl ?_))
        · rw [Tree.isDir_of_some hcopy₃ nofun, Tree.isDir_of_some hcopy nofun]
        · rw [hcopy₃]
          nofun
      · rw [hcopy₃]
        nofun

/-- A file for which there is a place, or a directory in its place: renamed or copied. -/
theorem ok_renameOrCopy (he : e = .reg data mode) (h : Ok env τ srcDir dstDir n l d s)
    (hdst : s.tree.entry (n :: d) = none ∨ s.tree.isDir (n :: d) = true) :
    ∃ s', (renameOrCopy τ.src τ.dst τ.stat).run (State.sys env) s = (some (), s') ∧
      Ok env τ srcDir dstDir n l d s' := by
  have hneg : (-1 : Int) ≠ 0 := by decide
  have hzero : ¬ (0 : Int) ≠ 0 := by decide
  have hok := f.ok_rename h (.inl fun _ h => by rw [he] at h; cases h)
  rcases s.rename_cases env τ.src τ.dst with hrename | ⟨_, _, _, t', -, -, -, hrename⟩
  · obtain ⟨srcFd, s₁, dstFd, s₂, s₃, hread, hcreat, hsend, h₃, hnot⟩ := f.ok_send he h hdst
    obtain ⟨r₄, s₄, hclose₄, htree₄⟩ := Move.run_close s₃ srcFd
    obtain ⟨r₅, s₅, hclose₅, htree₅⟩ := Move.run_close s₄ dstFd
    have htree : s₅.tree = s₃.tree := htree₅.trans htree₄
    have h₆ := f.ok_chmod (h₃.congr htree) (by rwa [htree]) τ.stat.mode
    refine ⟨_, ?_, f.ok_unlink_src h₆⟩
    have hsize : τ.stat.st_size = data.length := by
      rw [f.stat, he]
      rfl
    simp only [renameOrCopy, Prog.run_call, State.sys, hrename, if_pos hneg, hread, hcreat,
      hsize, Prog.run_bind, hsend, hclose₄, hclose₅, Prog.run_ret]
  · rw [hrename] at hok
    refine ⟨_, ?_, hok⟩
    simp only [renameOrCopy, Prog.run_call, State.sys, hrename, if_neg hzero, Prog.run_ret]

/-! ### The whole branch -/

/-- What is in the destination is found by its own path. -/
theorem resolve_dst_eq {d' : Entry} (hd' : τ.state.tree.entry (n :: d) = some d') :
    τ.state.tree.resolve env.cwd false τ.dst = .entry (n :: d) := by
  obtain ⟨k, hlead⟩ := f.dst_leads
  rw [f.dst, join]
  exact (Tree.resolve_entry_iff f.dst_ne f.name).mpr
    ⟨k, d, hlead, rfl, by rw [hd']; exact Option.some_ne_none _⟩

theorem resolve_src_eq : τ.state.tree.resolve env.cwd false τ.src = .entry (n :: l) := by
  obtain ⟨k, hlead⟩ := f.src_leads
  rw [f.src, join]
  exact (Tree.resolve_entry_iff f.src_ne f.name).mpr
    ⟨k, l, hlead, rfl, by rw [f.entry]; exact Option.some_ne_none _⟩

/-- Where `access` succeeds, there is something in the destination. -/
theorem exists_of_found (h : (τ.state.tree.resolve env.cwd true τ.dst).found = true) :
    ∃ d', τ.state.tree.entry (n :: d) = some d' := by
  refine Option.ne_none_iff_exists'.mp fun hnone => ?_
  obtain ⟨y, hy⟩ := Lookup.found_iff.mp h
  exact (f.resolve_dst_true Ok.start (fun _ h => by rw [hnone] at h; cases h) hy).2 hnone

/-- Where it fails, there is nothing, or a link. -/
theorem link_of_not_found (h : (τ.state.tree.resolve env.cwd true τ.dst).found = false) :
    τ.state.tree.entry (n :: d) = none ∨
      ∃ target, τ.state.tree.entry (n :: d) = some (.lnk target) := by
  cases hd' : τ.state.tree.entry (n :: d) with
  | none => exact .inl rfl
  | some d' =>
    obtain ⟨k, hlead⟩ := f.dst_leads
    have hfound : ∀ {d'}, τ.state.tree.entry (n :: d) = some d' → (∀ target, d' ≠ .lnk target) →
        τ.state.tree.resolve env.cwd true τ.dst = .entry (n :: d) := by
      intro d' hd' hlnk
      refine Tree.resolve_true_iff.mpr ⟨by simp [f.dst, join], k, ?_⟩
      rw [f.dst, join, Tree.lead_join f.dst_ne f.name.2.2.2.1, hlead]
      exact Tree.reach_entry f.name hd' hlnk
    cases d' with
    | lnk target => exact .inr ⟨target, rfl⟩
    | reg | dir | other =>
      rw [hfound hd' fun _ h => by cases h] at h
      cases h

theorem meetsLink {target : Text} (h : τ.state.tree.entry (n :: d) = some (.lnk target)) :
    MeetsLink env τ := by
  unfold MeetsLink
  rw [State.stat_eq (f.resolve_dst_eq h) h]
  rfl

/-- A file over a link that leads nowhere takes its place, or is not copied. -/
theorem ok_over_link {target : Text} (he : e = .reg data mode)
    (hlnk : τ.state.tree.entry (n :: d) = some (.lnk target))
    (hfound : (τ.state.tree.resolve env.cwd true τ.dst).found = false) (hgood : ¬ Strays env τ) :
    ∃ s', (renameOrCopy τ.src τ.dst τ.stat).run (State.sys env) τ.state = (some (), s') ∧
      Ok env τ srcDir dstDir n l d s' := by
  have hzero : ¬ (0 : Int) ≠ 0 := by decide
  cases hfails : env.fails (.rename τ.src τ.dst) with
  | false =>
    obtain ⟨t', ht', -⟩ := Tree.rename_eq f.entry (Move.isDir_of_leaf f.entry f.leaf) f.dst_dir
      f.name (Tree.isDir_of_some hlnk fun _ h => by cases h) (Ne.symm f.apart)
    have hrename : τ.state.rename env τ.src τ.dst = (0, { τ.state with tree := t' }) := by
      unfold State.rename
      rw [hfails, if_neg Bool.false_ne_true, f.resolve_src_eq, f.resolve_dst_eq hlnk]
      simp only [ht', State.apply]
    have hok := f.ok_rename Ok.start (.inl fun _ h => by rw [he] at h; cases h)
    rw [hrename] at hok
    refine ⟨_, ?_, hok⟩
    simp only [renameOrCopy, Prog.run_call, State.sys, hrename, if_neg hzero, Prog.run_ret]
  | true =>
    have hkind : τ.stat.kind = .reg := by
      rw [f.stat, he]
      rfl
    have hfree : (τ.state.tree.resolve env.cwd true τ.dst).free = false := by
      by_contra hfree
      rw [Bool.not_eq_false] at hfree
      exact hgood ⟨f.meetsLink hlnk, .inr (.inl ⟨hkind, hfails, hfree⟩)⟩
    obtain ⟨s₁, htree, hrun⟩ := run_copy_fails τ.stat (τ.state.rename_of_fails env hfails)
      (Lookup.eq_fail hfound hfree)
    exact ⟨_, hrun, f.ok_unlink_src (Ok.start.congr htree)⟩

/-- What is to give way in the destination is removed, but for a directory. -/
theorem unlink_dst_clears {d' : Entry} (hd' : τ.state.tree.entry (n :: d) = some d')
    (hfails : env.fails (.unlink τ.dst) = false) :
    (τ.state.unlink env τ.dst).2.tree.entry (n :: d) = none ∨
      (τ.state.unlink env τ.dst).2.tree.isDir (n :: d) = true := by
  unfold State.unlink
  rw [hfails, if_neg Bool.false_ne_true, f.resolve_dst_eq hd']
  rcases Bool.eq_false_or_eq_true (τ.state.tree.isDir (n :: d)) with hdir | hdir
  · have hnone : τ.state.tree.unlink (n :: d) = none := dif_neg fun h => by
      rw [hdir] at h
      cases h.2
    simp only [hnone, State.apply]
    exact .inr hdir
  · obtain ⟨t', ht', hupdate⟩ := Tree.unlink_eq hd' hdir
    simp only [ht', State.apply]
    refine .inl ?_
    rw [hupdate, Function.update_self]

theorem ok_moveReg (hfaults : OnlyRenameFaults env) (he : e = .reg data mode)
    (hgood : ¬ Strays env τ) :
    ∃ s', (moveReg τ.src τ.dst τ.stat).run (State.sys env) τ.state = (some (), s') ∧
      Ok env τ srcDir dstDir n l d s' := by
  have hneg : ¬ (-1 : Int) = 0 := by decide
  cases hfound : (τ.state.tree.resolve env.cwd true τ.dst).found with
  | true =>
    obtain ⟨d', hd'⟩ := f.exists_of_found hfound
    obtain ⟨y, hy⟩ := Lookup.found_iff.mp hfound
    obtain ⟨e', he'⟩ := Option.ne_none_iff_exists'.mp (Tree.resolve_ne_none hy)
    have hstat : τ.state.stat env τ.dst true = some (env.statOf y e') := State.stat_eq hy he'
    by_cases hsize : (env.statOf y e').st_size = τ.stat.st_size
    · refine ⟨_, ?_, f.ok_unlink_src Ok.start⟩
      simp only [moveReg, Prog.run_call, State.sys, hy, if_true, hstat, Option.getD_some, hsize,
        Prog.run_ret]
    · obtain ⟨s', hrun, hok⟩ := f.ok_renameOrCopy he (f.ok_unlink_dst Ok.start)
        (f.unlink_dst_clears hd' (hfaults.eq_false fun _ _ h => by cases h))
      refine ⟨s', ?_, hok⟩
      simp only [moveReg, Prog.run_call, State.sys, hy, if_true, hstat, Option.getD_some,
        if_neg hsize]
      exact hrun
  | false =>
    have hrun : (moveReg τ.src τ.dst τ.stat).run (State.sys env) τ.state =
        (renameOrCopy τ.src τ.dst τ.stat).run (State.sys env) τ.state := by
      simp only [moveReg, Prog.run_call, access_fails hfound, if_neg hneg]
    rw [hrun]
    rcases f.link_of_not_found hfound with hnone | ⟨target, htarget⟩
    · exact f.ok_renameOrCopy he Ok.start (.inl hnone)
    · exact f.ok_over_link he htarget hfound hgood

/-- **The turn changes the two entries at most**, if it does not stray. -/
theorem ok_branch (hfaults : OnlyRenameFaults env) (hgood : ¬ Strays env τ) :
    (τ.branch.run (State.sys env) τ.state).1 = some () ∧
      Ok env τ srcDir dstDir n l d (τ.after env) := by
  have honly : OnlyUnlinks env τ → (τ.branch.run (State.sys env) τ.state).1 = some () ∧
      Ok env τ srcDir dstDir n l d (τ.after env) := by
    rintro ⟨s, htree, hrun⟩
    unfold Turn.after
    rw [hrun]
    exact ⟨rfl, f.ok_unlink_src (Ok.start.congr htree)⟩
  have hleaf := f.leaf
  cases he : e with
  | dir | other =>
    rw [he] at hleaf
    cases hleaf
  | reg data mode =>
    have hkind : τ.stat.kind = .reg := by
      rw [f.stat, he]
      rfl
    obtain ⟨s', hrun, hok⟩ := f.ok_moveReg hfaults he hgood
    unfold Turn.after
    simp only [Turn.branch, hkind, hrun]
    exact ⟨trivial, hok⟩
  | lnk target =>
    have hkind : τ.stat.kind = .lnk := by
      rw [f.stat, he]
      rfl
    by_cases hmay : MayLink env τ srcDir dstDir (n :: d)
    · have hret := (moveLnk_returns τ.src τ.dst).run (State.sys env) τ.state
      have hok := f.ok_moveLnk hmay
      unfold Turn.after
      simp only [Turn.branch, hkind]
      exact ⟨hret, hok⟩
    · -- a link that one of the paths goes through is met
      obtain ⟨hlnk, haside⟩ := not_or.mp hmay
      push Not at hlnk
      obtain ⟨target', htarget'⟩ := hlnk
      have hstat : τ.state.stat env τ.dst false = some (env.statOf (n :: d) (.lnk target')) :=
        State.stat_eq (f.resolve_dst_eq htarget') htarget'
      cases hfound : (τ.state.tree.resolve env.cwd true τ.dst).found with
      | true => exact honly (onlyUnlinks_lnk hkind hfound hstat rfl)
      | false =>
        have hway : OnTheWay env τ := by
          refine ⟨n :: d, ?_, f.resolve_dst_eq htarget'⟩
          rw [f.src, f.dst, dirOf_join _ f.name.2.2.2.1, dirOf_join _ f.name.2.2.2.1,
            List.mem_append]
          by_contra hnot
          exact haside (not_or.mp hnot)
        have hfails : env.fails (.rename τ.src τ.dst) = true := by
          by_contra hne
          rw [Bool.not_eq_true] at hne
          exact hgood ⟨f.meetsLink htarget', .inr (.inr ⟨hkind, hne, hfound, hway⟩)⟩
        refine honly ⟨τ.state, rfl, ?_⟩
        rw [run_branch_dangling hkind hfound]
        exact run_relink_fails (τ.state.rename_of_fails env hfails)
          (by rw [f.resolve_dst_eq htarget']; rfl)

end Facing

/-! ## The walk -/

/-- A call of `move_dir` with the paths of two directories, in any spelling, neither inside the
other. -/
structure TwoDirs where
  env : Env
  tree : Tree
  srcDir : Text
  dstDir : Text
  src : Loc
  dst : Loc
  src_dir : tree.isDir src = true
  dst_dir : tree.isDir dst = true
  src_leads : tree.resolve env.cwd true srcDir = .entry src
  dst_leads : tree.resolve env.cwd true dstDir = .entry dst
  src_apart : ¬ src <:+ dst
  dst_apart : ¬ dst <:+ src
  listing : ∀ a, tree.isDir (below src a) = true →
    Listing tree (below src a) (env.readdir (extend srcDir a))

/-- Whatever directory a path leads to afterwards, it led to before. -/
def Steady (env : Env) (path : Text) (s s' : State) : Prop :=
  ∀ y, s'.tree.lead env.cwd path = some y → s'.tree.isDir y.2 = true →
    s.tree.lead env.cwd path = some y ∧ s.tree.isDir y.2 = true

section

variable {path : Text} {s s' s'' : State}

theorem Steady.trans (h : Steady env path s s') (h' : Steady env path s' s'') :
    Steady env path s s'' := by
  intro y hy hdir
  obtain ⟨hy', hdir'⟩ := h' y hy hdir
  exact h y hy' hdir'

theorem steady_of_partOf (h : s'.tree.PartOf s.tree) : Steady env path s s' :=
  fun _ hy hdir => ⟨Tree.lead_mono h hy, h.isDir hdir⟩

end

namespace TwoDirs

variable (td : TwoDirs)

/-- A place that is not in the source, nor that of a counterpart of one of its entries in the
destination. -/
def Elsewhere (l : Loc) : Prop :=
  ¬ td.src <:+ l ∧ ∀ p, p ≠ [] → td.tree.entry (below td.src p) ≠ none → l ≠ below td.dst p

/-- The walk is in the directory at `a` of the source, and in that of the destination or in no
directory at all. -/
structure Within (a : List Text) (s : State) : Prop where
  is_dir : td.tree.isDir (below td.src a) = true
  dirs : ∀ l, td.src <:+ l → s.tree.isDir l = true → td.tree.isDir l = true
  src : ∀ y, s.tree.lead td.env.cwd (extend td.srcDir a) = some y → s.tree.isDir y.2 = true →
    y.2 = below td.src a
  dst : ∀ y, s.tree.lead td.env.cwd (extend td.dstDir a) = some y → s.tree.isDir y.2 = true →
    y.2 = below td.dst a

/-- What the walk does there: no directory comes into the source, the paths of the directories that
it is in lead to no others, and elsewhere nothing changes. -/
structure Keeps (a : List Text) (s s' : State) : Prop where
  dirs : ∀ l, td.src <:+ l → s'.tree.isDir l = true → s.tree.isDir l = true
  src : ∀ b, b <+: a → Steady td.env (extend td.srcDir b) s s'
  dst : ∀ b, b <+: a → Steady td.env (extend td.dstDir b) s s'
  frame : ∀ l, td.Elsewhere l → s'.tree.entry l = s.tree.entry l

variable {td} {a : List Text} {n : Text} {s s' s'' : State} {τ : Turn}

theorem Keeps.refl : td.Keeps a s s where
  dirs _ _ hdir := hdir
  src _ _ := steady_of_partOf .refl
  dst _ _ := steady_of_partOf .refl
  frame _ _ := rfl

theorem Keeps.trans (h : td.Keeps a s s') (h' : td.Keeps a s' s'') : td.Keeps a s s'' where
  dirs l hl hdir := h.dirs l hl (h'.dirs l hl hdir)
  src b hb := (h.src b hb).trans (h'.src b hb)
  dst b hb := (h.dst b hb).trans (h'.dst b hb)
  frame l hl := (h'.frame l hl).trans (h.frame l hl)

theorem Keeps.lift (h : td.Keeps (a ++ [n]) s s') : td.Keeps a s s' where
  dirs := h.dirs
  src b hb := h.src b (hb.trans (List.prefix_append a [n]))
  dst b hb := h.dst b (hb.trans (List.prefix_append a [n]))
  frame := h.frame

theorem Within.keeps (h : td.Within a s) (hkeeps : td.Keeps a s s') : td.Within a s' where
  is_dir := h.is_dir
  dirs l hl hdir := h.dirs l hl (hkeeps.dirs l hl hdir)
  src y hy hdir := by
    obtain ⟨hy', hdir'⟩ := hkeeps.src a (List.prefix_refl a) y hy hdir
    exact h.src y hy' hdir'
  dst y hy hdir := by
    obtain ⟨hy', hdir'⟩ := hkeeps.dst a (List.prefix_refl a) y hy hdir
    exact h.dst y hy' hdir'

/-- Where only something of the source is removed, nothing else changes. -/
theorem keeps_of_removed {l : Loc} (hl : td.src <:+ l)
    (h : s'.tree.entry = Function.update s.tree.entry l none) : td.Keeps a s s' where
  dirs _ _ hdir := (Tree.partOf_of_removed h).isDir hdir
  src _ _ := steady_of_partOf (Tree.partOf_of_removed h)
  dst _ _ := steady_of_partOf (Tree.partOf_of_removed h)
  frame y hy := by
    rw [h, Function.update_of_ne]
    rintro rfl
    exact hy.1 hl

/-- What is outside the two trees is elsewhere. -/
theorem elsewhere_of_outside {l : Loc} (hsrc : ¬ td.src <:+ l) (hdst : ¬ td.dst <:+ l) :
    td.Elsewhere l := by
  refine ⟨hsrc, fun p _ _ heq => hdst ?_⟩
  rw [heq]
  exact suffix_below td.dst p

theorem srcDir_ne_nil (td : TwoDirs) : td.srcDir ≠ [] := (Tree.resolve_true_iff.mp td.src_leads).1

theorem dstDir_ne_nil (td : TwoDirs) : td.dstDir ≠ [] := (Tree.resolve_true_iff.mp td.dst_leads).1

/-- The names on the way down have no slashes. -/
theorem Within.names (h : td.Within a s) : ∀ n ∈ a, '/' ∉ n := fun n hn =>
  (Tree.isName_of_below (Tree.entry_ne_none h.is_dir) n hn).2.2.2.1

/-- What `lstat` has found is in the directory of the source. -/
theorem Within.found (h : td.Within a s) (hn : IsName n) {stat : Stat}
    (hstat : s.stat td.env (join (extend td.srcDir a) n) false = some stat) :
    ∃ k e, s.tree.lead td.env.cwd (extend td.srcDir a) = some (k, below td.src a) ∧
      s.tree.entry (n :: below td.src a) = some e ∧
      s.tree.resolve td.env.cwd false (join (extend td.srcDir a) n) =
        .entry (n :: below td.src a) ∧
      stat = td.env.statOf (n :: below td.src a) e := by
  obtain ⟨k, l, e, hlead, he, hl, rfl⟩ := lstat_join (extend_ne_nil td.srcDir_ne_nil a) hn hstat
  have hl' : l = below td.src a :=
    h.src (k, l) hlead (Tree.isDir_of_entry (by rw [he]; exact Option.some_ne_none _))
  subst hl'
  exact ⟨k, e, hlead, he, hl, rfl⟩

/-- In the destination it is in its directory, or its path leads nowhere. -/
theorem Within.dst_cases (h : td.Within a s) (hn : IsName n) :
    (∃ k, s.tree.lead td.env.cwd (extend td.dstDir a) = some (k, below td.dst a) ∧
      s.tree.isDir (below td.dst a) = true) ∨
      ∀ follow, s.tree.resolve td.env.cwd follow (join (extend td.dstDir a) n) = .fail := by
  have hne := extend_ne_nil td.dstDir_ne_nil a
  cases hlead : s.tree.lead td.env.cwd (extend td.dstDir a) with
  | none =>
    refine .inr fun follow => ?_
    rw [join, Tree.resolve_join hne hn.2.2.2.1, hlead]
    rfl
  | some y =>
    obtain ⟨k, d⟩ := y
    rcases Bool.eq_false_or_eq_true (s.tree.isDir d) with hdir | hdir
    · have hd : d = below td.dst a := h.dst (k, d) hlead hdir
      subst hd
      exact .inl ⟨k, rfl, hdir⟩
    · refine .inr fun follow => ?_
      rw [join, Tree.resolve_join hne hn.2.2.2.1, hlead]
      exact Tree.walk_fail follow k hdir []

/-- A listed name has a counterpart in the source. -/
theorem not_counterpart {l : Loc} (hat : At td.env td.srcDir td.dstDir td.Within a n τ)
    (hl : td.Elsewhere l) : l ≠ n :: below td.src a ∧ l ≠ n :: below td.dst a := by
  have hentry : td.tree.entry (n :: below td.src a) ≠ none :=
    ((td.listing a hat.sit.is_dir).only n hat.listed).resolve_right
      (not_or.mpr ⟨hat.name.2.1, hat.name.2.2.1⟩)
  constructor
  · rintro rfl
    exact hl.1 ((suffix_below td.src a).trans (List.suffix_cons ..))
  · have hne := hl.2 (a ++ [n]) (by simp)
    rw [below_append, below_append] at hne
    exact hne hentry

/-- What `rmdir` ignores at the end of a path. -/
theorem exists_slashes (path : Text) :
    ∃ i, State.stripSlashes path ++ List.replicate i '/' = path := by
  have hslashes : path.reverse.takeWhile (· = '/') =
      List.replicate (path.reverse.takeWhile (· = '/')).length '/' := by
    refine List.eq_replicate_iff.mpr ⟨rfl, fun c hc => ?_⟩
    exact of_decide_eq_true (List.all_eq_true.mp (List.all_takeWhile ..) c hc)
  refine ⟨(path.reverse.takeWhile (· = '/')).length, List.reverse_injective ?_⟩
  rw [State.stripSlashes, List.reverse_append, List.reverse_replicate, List.reverse_reverse,
    ← hslashes]
  exact List.takeWhile_append_dropWhile

/-- The first part of a path that leads to a directory leads to one. -/
theorem lead_prefix {env : Env} {path : Text} {c : List Text} {y : Nat × Loc} {t : Tree}
    (hpath : path ≠ []) (hc : ∀ n ∈ c, '/' ∉ n) (hlead : t.lead env.cwd (extend path c) = some y)
    (hdir : t.isDir y.2 = true) :
    ∃ y', t.lead env.cwd path = some y' ∧ t.isDir y'.2 = true := by
  rw [Tree.lead_extend hpath hc] at hlead
  obtain ⟨y', hy', hreach⟩ := Option.bind_eq_some_iff.mp hlead
  refine ⟨y', hy', ?_⟩
  by_cases hnil : c = []
  · subst hnil
    obtain ⟨jump, hjump⟩ := Tree.exists_reach t y'.1
    rw [hjump] at hreach
    cases hreach
    exact hdir
  · exact Tree.reach_is_dir hnil hreach

/-- What a turn does to its two entries leaves the paths of the directories steady. -/
theorem steady_of_swapped {env : Env} {path : Text} {b : List Text} {x m : Loc} {y₀ : Nat × Loc}
    (hpath : path ≠ []) (ha : ∀ n ∈ a, '/' ∉ n) (hb : b <+: a)
    (hswapped : s.tree.Swapped s'.tree x m)
    (hlinks : ¬ s.tree.Relinked s'.tree m ∨ m ∉ s.tree.linksOn env.cwd (extend path a))
    (hlead : s.tree.lead env.cwd (extend path a) = some y₀) (hdir : s.tree.isDir y₀.2 = true) :
    Steady env (extend path b) s s' := by
  obtain ⟨c, rfl⟩ := hb
  have hc : ∀ n ∈ c, '/' ∉ n := fun n hn => ha n (List.mem_append_right b hn)
  rw [extend_append] at hlinks hlead
  obtain ⟨y', hlead', hdir'⟩ := lead_prefix (extend_ne_nil hpath b) hc hlead hdir
  intro y hy hydir
  have heq := Tree.lead_swapped hswapped
    (hlinks.imp_right fun hnot hm => hnot (Tree.linksOn_extend (extend_ne_nil hpath b) hc hm))
    hlead' hdir' hy hydir
  subst heq
  exact ⟨hlead', hdir'⟩

/-- The turn of a file or link. -/
theorem run_leaf (hat : At td.env td.srcDir td.dstDir td.Within a n τ) (hleaf : τ.stat.isLeaf)
    (hfaults : OnlyRenameFaults td.env) (hgood : ¬ Strays td.env τ) :
    (τ.branch.run (State.sys td.env) τ.state).1 = some () ∧
      td.Keeps a τ.state (τ.after td.env) := by
  obtain ⟨k, e, hlead, he, hl, hstat⟩ := hat.sit.found hat.name (hat.src ▸ hat.found)
  have hleaf' : Move.isLeaf e = true := isLeaf_statOf.mp (hstat ▸ hleaf)
  have hin : td.src <:+ n :: below td.src a :=
    (suffix_below td.src a).trans (List.suffix_cons ..)
  rw [← hat.src] at hl
  rcases hat.sit.dst_cases hat.name with ⟨k', hlead', hdir'⟩ | hfail
  · have hapart : n :: below td.src a ≠ n :: below td.dst a := by
      intro heq
      exact below_ne_below td.src_apart td.dst_apart (List.cons.inj heq).2
    have f : Facing td.env τ (extend td.srcDir a) (extend td.dstDir a) n (below td.src a)
        (below td.dst a) e :=
      ⟨hat.src, hat.dst, hat.name, extend_ne_nil td.srcDir_ne_nil a,
        extend_ne_nil td.dstDir_ne_nil a,
        ⟨k, hlead⟩, ⟨k', hlead'⟩, hdir', he, hleaf', hstat, hapart⟩
    obtain ⟨hret, hok⟩ := f.ok_branch hfaults hgood
    refine ⟨hret, fun _ _ hdir => hok.swapped.dir_was hdir, ?_, ?_, ?_⟩
    · intro b hb
      exact steady_of_swapped td.srcDir_ne_nil hat.sit.names hb hok.swapped
        (hok.links.imp_right fun haside => haside.1) hlead f.src_dir
    · intro b hb
      exact steady_of_swapped td.dstDir_ne_nil hat.sit.names hb hok.swapped
        (hok.links.imp_right fun haside => haside.2) hlead' hdir'
    · intro l hl
      obtain ⟨hx, hm⟩ := not_counterpart hat hl
      exact hok.swapped.others l hx hm
  · have honly : OnlyUnlinks td.env τ :=
      onlyUnlinks_of_fail hleaf (by rw [hat.dst]; exact hfail)
    obtain ⟨hret, hafter⟩ := honly.after hl he hleaf'
    refine ⟨hret, ?_⟩
    split at hafter
    · have hpart : (τ.after td.env).tree.PartOf τ.state.tree := fun y e' he' => hafter ▸ he'
      exact ⟨fun _ _ hdir => hpart.isDir hdir, fun _ _ => steady_of_partOf hpart,
        fun _ _ => steady_of_partOf hpart, fun y _ => by rw [hafter]⟩
    · exact keeps_of_removed hin hafter

/-- A directory more at the place of a counterpart. -/
theorem keeps_of_made {e : Entry} {k k' : Nat}
    (hat : At td.env td.srcDir td.dstDir td.Within a n τ)
    (hlead : τ.state.tree.lead td.env.cwd (extend td.srcDir a) = some (k, below td.src a))
    (hdir : τ.state.tree.isDir (below td.src a) = true)
    (hlead' : τ.state.tree.lead td.env.cwd (extend td.dstDir a) = some (k', below td.dst a))
    (hdir' : τ.state.tree.isDir (below td.dst a) = true)
    (hnone : τ.state.tree.entry (n :: below td.dst a) = none)
    (hupdate : s'.tree.entry =
      Function.update τ.state.tree.entry (n :: below td.dst a) (some e)) :
    td.Keeps a τ.state s' := by
  have hpart : τ.state.tree.PartOf s'.tree := Tree.partOf_of_added hnone hupdate
  have hsteady : ∀ {path : Text} {y₀ : Nat × Loc}, path ≠ [] →
      τ.state.tree.lead td.env.cwd (extend path a) = some y₀ →
      τ.state.tree.isDir y₀.2 = true → ∀ b, b <+: a →
        Steady td.env (extend path b) τ.state s' := by
    rintro path y₀ hpath hy₀ hdir₀ b ⟨c, rfl⟩ y hy _
    have hc : ∀ n ∈ c, '/' ∉ n := fun n hn => hat.sit.names n (List.mem_append_right b hn)
    rw [extend_append] at hy₀
    obtain ⟨y', hy', hdir'⟩ := lead_prefix (extend_ne_nil hpath b) hc hy₀ hdir₀
    rw [Tree.lead_mono hpart hy'] at hy
    cases hy
    exact ⟨hy', hdir'⟩
  refine ⟨?_, hsteady td.srcDir_ne_nil hlead hdir, hsteady td.dstDir_ne_nil hlead' hdir', ?_⟩
  · intro l hl hldir
    have hne : l ≠ n :: below td.dst a := by
      obtain ⟨b, rfl⟩ := exists_below hl
      exact fun heq => below_ne_below td.src_apart td.dst_apart
        (heq.trans (below_append (l := td.dst) (a := a) (b := [n])).symm)
    rwa [← Tree.isDir_congr (show s'.tree.entry l = τ.state.tree.entry l by
      rw [hupdate, Function.update_of_ne hne])]
  · intro l hl
    rw [hupdate, Function.update_of_ne (not_counterpart hat hl).2]

/-- The walk goes into the directory `n`, under both paths, unless a link leads it elsewhere. -/
theorem Within.enter {k k' mode : Nat} (h : td.Within a s) (hn : IsName n)
    (hlead : s.tree.lead td.env.cwd (extend td.srcDir a) = some (k, below td.src a))
    (he : s.tree.entry (n :: below td.src a) = some (.dir mode))
    (hlead' : s.tree.lead td.env.cwd (extend td.dstDir a) = some (k', below td.dst a))
    (hlnk : ∀ y, s.tree.lead td.env.cwd (extend td.dstDir (a ++ [n])) = some y →
      s.tree.isDir y.2 = true → ∀ target, s.tree.entry (n :: below td.dst a) ≠ some (.lnk target)) :
    td.Within (a ++ [n]) s where
  is_dir := by
    refine h.dirs _ (suffix_below ..) ?_
    rw [below_append]
    exact Tree.isDir_iff.mpr ⟨mode, he⟩
  dirs := h.dirs
  src y hy _ := by
    have hdir : s.tree.isDir (n :: below td.src a) = true := Tree.isDir_iff.mpr ⟨mode, he⟩
    rw [below_append]
    exact lead_snoc td.srcDir_ne_nil hn hlead (Tree.ne_lnk (.inr hdir)) hy
  dst y hy hdir := by
    rw [below_append]
    exact lead_snoc td.dstDir_ne_nil hn hlead' (hlnk y hy hdir) hy

/-- A directory of the source meets a link to a directory. -/
theorem strays_of_met {target : Text} {y : Nat × Loc}
    (hat : At td.env td.srcDir td.dstDir td.Within a n τ) (hkind : τ.stat.kind = .dir)
    (hres : τ.state.tree.resolve td.env.cwd false τ.dst = .entry (n :: below td.dst a))
    (htarget : τ.state.tree.entry (n :: below td.dst a) = some (.lnk target))
    (hy : τ.state.tree.lead td.env.cwd (extend td.dstDir (a ++ [n])) = some y)
    (hdir : τ.state.tree.isDir y.2 = true) : Strays td.env τ := by
  refine ⟨?_, .inl ⟨hkind, ?_⟩⟩
  · rw [MeetsLink, State.stat_eq hres htarget]
    rfl
  · obtain ⟨mode, hmode⟩ := Tree.isDir_iff.mp hdir
    rw [extend_snoc] at hy
    rw [hat.dst, State.stat_eq (Tree.resolve_true_iff.mpr ⟨by simp [join], y.1, hy⟩) hmode]
    rfl

/-- The turn of a directory. -/
theorem run_make (hat : At td.env td.srcDir td.dstDir td.Within a n τ)
    (hkind : τ.stat.kind = .dir) (hgood : ¬ Strays td.env τ) :
    td.Keeps a τ.state (τ.state.mkdir td.env τ.dst 448).2 ∧
      (¬ ((τ.state.mkdir td.env τ.dst 448).1.1 ≠ 0 ∧
          (τ.state.mkdir td.env τ.dst 448).1.2 ≠ .EEXIST) →
        td.Within (a ++ [n]) (τ.state.mkdir td.env τ.dst 448).2) := by
  obtain ⟨k, e, hlead, he, -, hstat⟩ := hat.sit.found hat.name (hat.src ▸ hat.found)
  obtain ⟨mode, rfl⟩ := kind_statOf_dir (hstat ▸ hkind)
  have hdst_ne := extend_ne_nil td.dstDir_ne_nil a
  rcases hat.sit.dst_cases hat.name with ⟨k', hlead', hdir'⟩ | hfail
  · cases hentry : τ.state.tree.entry (n :: below td.dst a) with
    | some e' =>
      have hres : τ.state.tree.resolve td.env.cwd false τ.dst = .entry (n :: below td.dst a) := by
        rw [hat.dst, join, Tree.resolve_entry_iff hdst_ne hat.name]
        exact ⟨k', _, hlead', rfl, by rw [hentry]; exact Option.some_ne_none _⟩
      rw [mkdir_of_not_absent (by rw [hres]; rfl)]
      exact ⟨.refl, fun _ => hat.sit.enter hat.name hlead he hlead' fun y hy hdir target htarget =>
        hgood (strays_of_met hat hkind hres htarget hy hdir)⟩
    | none =>
      have hres : τ.state.tree.resolve td.env.cwd false τ.dst = .absent (below td.dst a) n := by
        rw [hat.dst, join, Tree.resolve_join hdst_ne hat.name.2.2.2.1, hlead']
        exact Tree.walk_absent false k' hdir' hat.name hentry
      rcases mkdir_of_absent 448 hres with ⟨hsame, hret⟩ | ⟨t', hcreate, hmade⟩
      · rw [hsame]
        exact ⟨.refl, fun hpass => absurd hret hpass⟩
      · obtain ⟨-, hupdate⟩ := Tree.of_create hcreate
        have hpart : τ.state.tree.PartOf t' := Tree.partOf_of_added hentry hupdate
        have hdir : τ.state.tree.isDir (below td.src a) = true :=
          Tree.isDir_of_entry (by rw [he]; exact Option.some_ne_none _)
        have hkeeps : td.Keeps a τ.state { τ.state with tree := t' } :=
          keeps_of_made hat hlead hdir hlead' hdir' hentry hupdate
        have hnew : t'.isDir (n :: below td.dst a) = true :=
          Tree.isDir_iff.mpr ⟨_, by rw [hupdate, Function.update_self]⟩
        rw [hmade]
        exact ⟨hkeeps, fun _ => (hat.sit.keeps hkeeps).enter hat.name (Tree.lead_mono hpart hlead)
          (hpart _ _ he) (Tree.lead_mono hpart hlead') fun _ _ _ => Tree.ne_lnk (.inr hnew)⟩
  · rw [← hat.dst] at hfail
    rw [mkdir_of_not_absent (by rw [hfail false]; rfl)]
    exact ⟨.refl, fun hpass => absurd (mkdir_of_fail (hfail false)) hpass⟩

/-- `rmdir` removes at most what its path leads to. -/
theorem rmdir_lead (env : Env) (s : State) (path : Text) : (s.rmdir env path).2 = s ∨
    ∃ k l, s.tree.lead env.cwd path = some (k, l) ∧ s.tree.isDir l = true ∧
      (s.rmdir env path).2.tree.entry = Function.update s.tree.entry l none := by
  rcases s.rmdir_cases env path with hsame | ⟨l, t', hl, ht', heq⟩
  · exact .inl hsame
  · obtain ⟨hdir, -, hupdate⟩ := Tree.of_rmdir ht'
    obtain ⟨hne, k, hlead⟩ := Tree.lead_of_resolve hl hdir
    obtain ⟨i, hi⟩ := exists_slashes path
    have hlead' := Tree.lead_slashes hne hlead hdir i
    rw [hi] at hlead'
    rw [heq]
    exact .inr ⟨k, l, hlead', hdir, hupdate⟩

/-- The last call for a directory removes this directory or nothing. -/
theorem keeps_of_rmdir {b : List Text} (h : td.Within b s) :
    td.Keeps a s (s.rmdir td.env (extend td.srcDir b)).2 := by
  rcases rmdir_lead td.env s (extend td.srcDir b) with hsame | ⟨k, l, hlead, hdir, hupdate⟩
  · rw [hsame]
    exact .refl
  · have hl : l = below td.src b := h.src (k, l) hlead hdir
    subst hl
    exact keeps_of_removed (suffix_below ..) hupdate

/-- **The steps of the walk**, as long as no turn goes astray. -/
theorem rule (hfaults : OnlyRenameFaults td.env) :
    WalkRule td.env td.srcDir td.dstDir td.Within td.Keeps (¬ Strays td.env ·) where
  refl := .refl
  trans := .trans
  lift := .lift
  stable := Within.keeps
  name hsit hmem := ((td.listing _ hsit.is_dir).only _ hmem).symm.imp_right (td.tree.names _ _)
  leaf hat hleaf hgood := run_leaf hat hleaf hfaults hgood
  make := run_make
  leave := keeps_of_rmdir

theorem within_start (hs : s.tree = td.tree) : td.Within [] s where
  is_dir := td.src_dir
  dirs _ _ hdir := hs ▸ hdir
  src y hy _ := by
    obtain ⟨-, k, hlead⟩ := Tree.resolve_true_iff.mp td.src_leads
    rw [extend_nil, hs, hlead] at hy
    cases hy
    rfl
  dst y hy _ := by
    obtain ⟨-, k, hlead⟩ := Tree.resolve_true_iff.mp td.dst_leads
    rw [extend_nil, hs, hlead] at hy
    cases hy
    rfl

/-- **A move that does not go astray touches nothing but the two trees**, and in the destination
nothing that has no counterpart: not before or after any of its turns, and not at its end. -/
theorem frame_kept (td : TwoDirs) (s : State) (hs : s.tree = td.tree)
    (hfaults : OnlyRenameFaults td.env)
    (hgood : ∀ τ ∈ turns td.env 512 td.srcDir td.dstDir s, ¬ Strays td.env τ) :
    ∃ ret s', (move_dir (some td.srcDir) (some td.dstDir)).run (State.sys td.env) s =
        (some ret, s') ∧
      ∀ l, td.Elsewhere l → s'.tree.entry l = td.tree.entry l ∧
        ∀ τ ∈ turns td.env 512 td.srcDir td.dstDir s,
          τ.state.tree.entry l = td.tree.entry l ∧
            (τ.after td.env).tree.entry l = td.tree.entry l := by
  have hopens : Opens td.env s td.srcDir :=
    ⟨td.src, by rw [hs]; exact td.src_leads, by rw [hs]; exact td.src_dir⟩
  obtain ⟨ret, s', hrun, hsit, hwhole, hturns⟩ :=
    (rule hfaults).run (within_start hs) hopens hgood
  have hleft : td.Keeps [] s' (s'.rmdir td.env td.srcDir).2 := keeps_of_rmdir hsit
  refine ⟨ret, _, hrun, fun l hl => ⟨?_, fun τ hτ => ?_⟩⟩
  · rw [(hwhole.trans hleft).frame l hl, hs]
  · obtain ⟨-, hbefore, hafter⟩ := hturns τ hτ
    constructor
    · rw [hbefore.frame l hl, hs]
    · rw [← hafter.frame l hl, hwhole.frame l hl, hs]

/-- The root with `/s/a` and, instead of a file, the link `/d/a` to `/x`, where there is nothing. -/
def danglingTarget : Tree :=
  (Move.emptyTarget.create [['d']] ['a'] (.lnk ['/', 'x'])).get (by decide)

/-- `move_dir("/s", "/d")` over such a link. -/
def overDangling (fails : Fault → Bool) : TwoDirs where
  env := { Move.calm with fails }
  tree := danglingTarget
  srcDir := ['/', 's']
  dstDir := ['/', 'd']
  src := [['s']]
  dst := [['d']]
  src_dir := by decide
  dst_dir := by decide
  src_leads := (by decide : danglingTarget.resolve [] true ['/', 's'] = .entry [['s']])
  dst_leads := (by decide : danglingTarget.resolve [] true ['/', 'd'] = .entry [['d']])
  src_apart := Move.s_not_above_d
  dst_apart := Move.d_not_above_s
  listing := Move.listing_flat [['a']] (by decide) (by decide) (by decide) (by decide) rfl

/-- A `rename` takes the place of the link. -/
theorem frame_kept_overDangling :
    ∃ ret s', (move_dir (some ['/', 's']) (some ['/', 'd'])).run (State.sys Move.calm)
        ⟨danglingTarget, fun _ => none, 3⟩ = (some ret, s') ∧ s'.tree.entry [['x']] = none := by
  obtain ⟨ret, s', hrun, hframe⟩ := frame_kept (overDangling fun _ => false)
    ⟨danglingTarget, fun _ => none, 3⟩ rfl (fun _ h => absurd h nofun) (by decide)
  refine ⟨ret, s', hrun, (hframe [['x']] (elsewhere_of_outside ?_ ?_)).1.trans (by decide)⟩
  · exact (by decide : ¬ ([['s']] : Loc) <:+ [['x']])
  · exact (by decide : ¬ ([['d']] : Loc) <:+ [['x']])

/-- Where no file can be renamed. -/
def noRename : Fault → Bool
  | .rename _ _ => true
  | _ => false

/-- The copy is made where the link leads. -/
theorem copied_through_link : OnlyRenameFaults (overDangling noRename).env ∧
    ∃ s', (move_dir (some ['/', 's']) (some ['/', 'd'])).run
        (State.sys { Move.calm with fails := noRename }) ⟨danglingTarget, fun _ => none, 3⟩ =
        (some 0, s') ∧
      s'.tree.entry [['x']] = some (.reg [1] 420) ∧
      ¬ ∀ l, (overDangling noRename).Elsewhere l → s'.tree.entry l = danglingTarget.entry l := by
  have hfaults : OnlyRenameFaults (overDangling noRename).env := by
    intro f hf
    cases f with
    | rename oldpath newpath => exact ⟨oldpath, newpath, rfl⟩
    | _ => cases hf
  have hzero : ((move_dir (some ['/', 's']) (some ['/', 'd'])).run
      (State.sys { Move.calm with fails := noRename })
      ⟨danglingTarget, fun _ => none, 3⟩).1 = some 0 := by decide
  obtain ⟨s', hs'⟩ : ∃ s', s' = ((move_dir (some ['/', 's']) (some ['/', 'd'])).run
    (State.sys { Move.calm with fails := noRename }) ⟨danglingTarget, fun _ => none, 3⟩).2 :=
    ⟨_, rfl⟩
  have hmade : s'.tree.entry [['x']] = some (.reg [1] 420) := by
    rw [hs']
    decide
  refine ⟨hfaults, s', Prod.ext hzero hs'.symm, hmade, ?_⟩
  intro hall
  have hkept : s'.tree.entry [['x']] = danglingTarget.entry [['x']] :=
    hall [['x']] (elsewhere_of_outside (by decide : ¬ ([['s']] : Loc) <:+ [['x']])
      (by decide : ¬ ([['d']] : Loc) <:+ [['x']]))
  rw [hmade] at hkept
  exact absurd hkept (by decide)

end TwoDirs

end EngineerLinux.MoveDir
