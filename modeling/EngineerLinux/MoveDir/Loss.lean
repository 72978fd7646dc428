import EngineerLinux.MoveDir.Leaf

/-!
# Whether anything is lost

`move_dir` removes a file after trying to copy it (`move.c` 64-70) and a link after trying to make
it again (43-45), without looking at whether that worked. So nothing is lost exactly if it works
each time, or if the removal fails too.

The walk treats all files and links alike, so it is enough to know of one of them what becomes of
it (`leafSpec_outcome`), and `run_move_dir` says what that means for all. Where the walk stops, the
entries behind that place are as they were.

- `present_iff`: of the files and links that the walk comes to, those `Saved` are the ones still
  there at the end, all others included;
- `nothing_lost_iff`: **nothing is lost** exactly if all of them are saved.
-/

namespace EngineerLinux.MoveDir

open Files

namespace Move

variable (mv : Move)

/-- Where the source has something, the destination has nothing. -/
def Free : Prop :=
  ∀ p, p ≠ [] → mv.tree.entry (mv.srcLoc p) ≠ none → mv.tree.entry (mv.dstLoc p) = none

/-- A file can be copied, or a link made again. -/
def Remade (p : List Text) : Entry → Prop
  | .reg data _ => mv.Copied p data
  | .lnk target => mv.Relinked p target
  | _ => True

/-- It is renamed, or the other way succeeds, or the removal fails. -/
def Saved (p : List Text) (e : Entry) : Prop :=
  mv.Renamed p ∨ mv.Remade p e ∨ mv.env.fails (.unlink (mv.srcPath p)) = true

/-- It is in one of its two places. -/
def Present (t : Tree) (p : List Text) (e : Entry) : Prop :=
  Holds (t.entry (mv.srcLoc p)) e ∨ Holds (t.entry (mv.dstLoc p)) e

variable {mv} {s : State} {a p : List Text} {n : Text} {e : Entry}

theorem Outcome.present_iff {src dst : Option Entry} (h : mv.Outcome p e (mv.Remade p e) src dst) :
    Holds src e ∨ Holds dst e ↔ mv.Saved p e := by
  by_cases hren : mv.Renamed p
  · rw [(h.renamed hren).2]
    exact iff_of_true (.inr (holds_self e)) (.inl hren)
  · rw [h.src_eq hren, h.dst_iff hren, Saved, or_iff_right hren, or_comm]
    refine or_congr_right ?_
    split
    · next hfails => exact iff_of_true (holds_self e) hfails
    · next hfails => exact iff_of_false (not_holds_none e) hfails

/-- Over nothing, `access` fails and the branch goes on to `rename`. -/
theorem run_access_none (h : mv.AtLeaf s a n e)
    (hnone : s.tree.entry (mv.dstLoc (a ++ [n])) = none) :
    State.sys mv.env (.access (mv.dstPath (a ++ [n]))) s = (-1, s) := by
  simp only [State.sys]
  rw [h.resolve_dst true hnone]
  by_cases hdst : mv.tree.isDir mv.dst = true
  · rw [if_pos hdst]
  · rw [if_neg hdst]

/-- The last part of the branches for files and for links. -/
def renameProg (srcPath dstPath : Text) : Entry → Prog FileSys (Option Unit)
  | .reg data mode => renameOrCopy srcPath dstPath ⟨.reg, mode, data.length⟩
  | _ => renameOrRelink srcPath dstPath

/-- Where `access` fails, it is all that a branch does. -/
theorem run_leafProg_free (h : mv.AtLeaf s a n e)
    (haccess : State.sys mv.env (.access (mv.dstPath (a ++ [n]))) s = (-1, s)) :
    (leafProg (mv.srcPath (a ++ [n])) (mv.dstPath (a ++ [n])) e).run (State.sys mv.env) s =
      (renameProg (mv.srcPath (a ++ [n])) (mv.dstPath (a ++ [n])) e).run (State.sys mv.env) s := by
  have hneg : ¬ (-1 : Int) = 0 := by decide
  have hleaf := h.leaf
  cases e with
  | reg data mode =>
    simp only [leafProg, moveReg, Prog.run_call, haccess, if_neg hneg]
    rfl
  | lnk target =>
    simp only [leafProg, moveLnk, Prog.run_call, haccess, if_neg hneg]
    rfl
  | dir => cases hleaf
  | other => cases hleaf

/-- A file or link that nothing is in the way of is renamed or made again. -/
theorem run_renameProg_free (h : mv.AtLeaf s a n e)
    (hnone : s.tree.entry (mv.dstLoc (a ++ [n])) = none) :
    ∃ s', (renameProg (mv.srcPath (a ++ [n])) (mv.dstPath (a ++ [n])) e).run (State.sys mv.env) s =
        (some (), s') ∧
      (∀ l, l ≠ mv.srcLoc (a ++ [n]) → l ≠ mv.dstLoc (a ++ [n]) →
        s'.tree.entry l = s.tree.entry l) ∧
      mv.Outcome (a ++ [n]) e (mv.Remade (a ++ [n]) e)
        (s'.tree.entry (mv.srcLoc (a ++ [n]))) (s'.tree.entry (mv.dstLoc (a ++ [n]))) := by
  have hleaf := h.leaf
  cases e with
  | reg data mode =>
    obtain ⟨s', hrun, hframe, hout, -⟩ := run_renameOrCopy h hnone
    exact ⟨s', hrun, hframe, hout⟩
  | lnk target => exact run_renameOrRelink h hnone
  | dir => cases hleaf
  | other => cases hleaf

/-- Nothing is in the way of a file or link that is as it was. -/
theorem Free.entry_none (hfree : mv.Free) (hentry : mv.tree.entry (mv.srcLoc (a ++ [n])) = some e)
    (hdst : s.tree.entry (mv.dstLoc (a ++ [n])) = mv.tree.entry (mv.dstLoc (a ++ [n]))) :
    s.tree.entry (mv.dstLoc (a ++ [n])) = none :=
  hdst.trans (hfree _ (by simp) (by rw [hentry]; exact Option.some_ne_none _))

/-- **What becomes of one file or link**, whichever calls fail. -/
theorem leafSpec_outcome (hfree : mv.Free) :
    mv.LeafSpec (fun _ => True) fun p e src dst => mv.Outcome p e (mv.Remade p e) src dst := by
  intro s a n e h hentry hdst _
  have hnone := hfree.entry_none hentry hdst
  obtain ⟨s', hrun, hframe, hout⟩ := run_renameProg_free h hnone
  exact ⟨s', (run_leafProg_free h (run_access_none h hnone)).trans hrun, hframe, hout⟩

/-- It is still there exactly if it is saved. -/
theorem leafSpec_present (hfree : mv.Free) :
    mv.LeafSpec (fun _ => True) fun p e src dst => Holds src e ∨ Holds dst e ↔ mv.Saved p e := by
  intro s a n e h hentry hdst hgood
  obtain ⟨s', hrun, hframe, hout⟩ := leafSpec_outcome hfree s a n e h hentry hdst hgood
  exact ⟨s', hrun, hframe, hout.present_iff⟩

theorem Free.dirsMeetDirs (h : mv.Free) : mv.DirsMeetDirs :=
  fun p hp hdir => .inl (h p hp (Tree.entry_ne_none hdir))

/-- `rmdir` loses no file and no link. -/
theorem holds_rmdir {env : Env} (s : State) (path : Text) (l : Loc) (hleaf : isLeaf e = true) :
    Holds ((s.rmdir env path).2.tree.entry l) e ↔ Holds (s.tree.entry l) e := by
  rcases entry_rmdir env s path l with heq | ⟨hdir, hnone⟩
  · rw [heq]
  · obtain ⟨mode, hmode⟩ := Tree.isDir_iff.mp hdir
    rw [hnone, hmode]
    refine iff_of_false (not_holds_none e) ?_
    cases e with
    | reg data mode' =>
      rintro ⟨_, h⟩
      cases h
    | lnk target => nofun
    | dir => cases hleaf
    | other => cases hleaf

/-- **What is still there at the end**: each file and link that the walk does not come to, and of
the others those that are saved. -/
theorem present_iff (hfree : mv.Free) (hs : s.tree = mv.tree) :
    ∃ ret s', (move_dir (some mv.srcDir) (some mv.dstDir)).run (State.sys mv.env) s =
        (some ret, s') ∧
      ∀ p e, mv.tree.entry (mv.srcLoc p) = some e → isLeaf e = true →
        (mv.Present s'.tree p e ↔ (mv.Reached p → mv.Saved p e)) := by
  obtain ⟨ret, s', hrun, -, hsettled, -⟩ :=
    run_move_dir (leafSpec_present hfree) hfree.dirsMeetDirs hs fun _ _ => trivial
  refine ⟨ret, _, hrun, ?_⟩
  intro p e hentry hleaf
  rw [Present, holds_rmdir s' _ _ hleaf, holds_rmdir s' _ _ hleaf]
  have hdir : mv.tree.isDir (mv.srcLoc p) = false := isDir_of_leaf hentry hleaf
  obtain ⟨n, b, rfl⟩ := exists_cons_of_not_dir hdir
  by_cases hreached : mv.Reached (n :: b)
  · rw [imp_iff_right hreached]
    exact (hsettled n).leaf b e hentry hleaf hreached
  · refine iff_of_true (.inl ?_) fun h => absurd h hreached
    have hkept : s'.tree.entry (mv.srcLoc (n :: b)) = mv.tree.entry (mv.srcLoc (n :: b)) :=
      (hsettled n).kept b hdir fun h => absurd h hreached
    rw [hkept, hentry]
    exact holds_self e

/-! ## A directory without others inside -/

variable {t : Tree} {src : Loc} {srcDir : Text} {env : Env}

/-- What has to be listed when the source is one directory with these entries. -/
theorem listing_flat (names : List Text)
    (hdirs : ∀ l ∈ t.support, src <:+ l → t.isDir l = true → l = src)
    (hall : ∀ l ∈ t.support, l.tail = src → l = [] ∨ t.entry l = none ∨ ∃ n ∈ names, l = n :: src)
    (hnames : ∀ n ∈ names, t.entry (n :: src) ≠ none) (hnodup : names.Nodup)
    (hread : env.readdir srcDir = names) :
    ∀ a, t.isDir (below src a) = true →
      Listing t (below src a) (env.readdir (extend srcDir a)) := by
  intro a ha
  have hsrc' := hdirs _ (t.covers _ (Tree.entry_ne_none ha)) (suffix_below src a) ha
  have hnil : a = [] := below_inj (hsrc'.trans below_nil.symm)
  subst hnil
  rw [extend_nil, hread]
  refine ⟨hnodup, ?_, fun m hm => .inl (hnames m hm)⟩
  intro m hm
  rcases hall _ (t.covers _ hm) rfl with h | h | ⟨n, hn, h⟩
  · cases h
  · exact absurd h hm
  · exact (List.cons.inj h).1 ▸ hn

/-- An environment in which no call fails, and `/s` contains `a`. -/
def calm : Env where
  cwd := []
  umask := 18
  readdir p := if p = ['/', 's'] then [['a']] else []
  tail _ := []
  size _ := 4096
  fails _ := false

/-- The root, and in it the directory `s` with the file `a` of one byte. -/
def onlySource : Tree :=
  (((Tree.root.create [] ['s'] (.dir 493)).get (by decide)).create [['s']] ['a']
    (.reg [1] 420)).get (by decide)

theorem s_not_above_d : ¬ ([['s']] : Loc) <:+ [['d']] := by decide

theorem d_not_above_s : ¬ ([['d']] : Loc) <:+ [['s']] := by decide

/-- `move_dir("/s", "/d")` when `/d` does not exist. -/
def toNowhere : Move where
  env := calm
  tree := onlySource
  srcDir := ['/', 's']
  dstDir := ['/', 'd']
  src := [['s']]
  dst := [['d']]
  src_dir := by decide
  opens := by decide
  src_denotes := denotes_realPath (l := [['s']]) (by decide) (by decide) (by decide)
  dst_denotes := denotes_realPath_absent (l := []) (n := ['d']) (by decide) (by decide) (by decide)
    (by decide) (by decide) (by decide) (by decide)
  src_apart := s_not_above_d
  dst_apart := d_not_above_s
  listing := listing_flat [['a']] (by decide) (by decide) (by decide) (by decide) (by decide)

/-- With the empty directory `/d` too. -/
def emptyTarget : Tree := (onlySource.create [] ['d'] (.dir 493)).get (by decide)

/-- `move_dir("/s", "/d")` into an empty directory. -/
def toEmpty : Move where
  env := calm
  tree := emptyTarget
  srcDir := ['/', 's']
  dstDir := ['/', 'd']
  src := [['s']]
  dst := [['d']]
  src_dir := by decide
  opens := by decide
  src_denotes := denotes_realPath (l := [['s']]) (by decide) (by decide) (by decide)
  dst_denotes := denotes_realPath (l := [['d']]) (by decide) (by decide) (by decide)
  src_apart := s_not_above_d
  dst_apart := d_not_above_s
  listing := listing_flat [['a']] (by decide) (by decide) (by decide) (by decide) (by decide)

/-- The same with a link to the file, `/s/l`. -/
def withLink : Tree := (emptyTarget.create [['s']] ['l'] (.lnk ['a'])).get (by decide)

/-- An environment in which no call fails, and `/s` contains `a` and then `l`. -/
def calmTwo : Env := { calm with readdir := fun p => if p = ['/', 's'] then [['a'], ['l']] else [] }

/-- `move_dir("/s", "/d")` with the file and the link, into an empty directory. -/
def bothToEmpty : Move where
  env := calmTwo
  tree := withLink
  srcDir := ['/', 's']
  dstDir := ['/', 'd']
  src := [['s']]
  dst := [['d']]
  src_dir := by decide
  opens := by decide
  src_denotes := denotes_realPath (l := [['s']]) (by decide) (by decide) (by decide)
  dst_denotes := denotes_realPath (l := [['d']]) (by decide) (by decide) (by decide)
  src_apart := s_not_above_d
  dst_apart := d_not_above_s
  listing := listing_flat [['a'], ['l']] (by decide) (by decide) (by decide) (by decide) (by decide)

/-- Where nothing in the tree is inside `dst`, it is free. -/
theorem free_of_support (h : ∀ l ∈ mv.tree.support, ¬ Inside mv.dst l) : mv.Free := by
  intro p hp _
  by_contra hne
  exact h _ (mv.tree.covers _ hne) (inside_below mv.dst hp)

/-- **Nothing is lost**, whichever calls fail and whatever `move_dir` returns, exactly if every file
and link that the walk comes to is saved: renamed, or copied or made again completely, or not
removed because `unlink` fails. -/
theorem nothing_lost_iff (mv : Move) (s : State) (hfree : mv.Free) (hs : s.tree = mv.tree) :
    ∃ ret s', (move_dir (some mv.srcDir) (some mv.dstDir)).run (State.sys mv.env) s =
        (some ret, s') ∧
      ((∀ p e, mv.tree.entry (mv.srcLoc p) = some e → isLeaf e = true → mv.Present s'.tree p e) ↔
        ∀ p e, mv.tree.entry (mv.srcLoc p) = some e → isLeaf e = true → mv.Reached p →
          mv.Saved p e) := by
  obtain ⟨ret, s', hrun, hiff⟩ := present_iff hfree hs
  refine ⟨ret, s', hrun, ?_⟩
  constructor
  · exact fun h p e hentry hleaf => (hiff p e hentry hleaf).mp (h p e hentry hleaf)
  · exact fun h p e hentry hleaf => (hiff p e hentry hleaf).mpr (h p e hentry hleaf)

theorem nothing_lost_toEmpty :
    ∃ ret s', (move_dir (some ['/', 's']) (some ['/', 'd'])).run (State.sys calm)
        ⟨emptyTarget, fun _ => none, 3⟩ = (some ret, s') ∧
      ∀ p e, emptyTarget.entry (below [['s']] p) = some e → isLeaf e = true →
        toEmpty.Present s'.tree p e := by
  obtain ⟨ret, s', hrun, hiff⟩ := nothing_lost_iff toEmpty ⟨emptyTarget, fun _ => none, 3⟩
    (free_of_support (by decide)) rfl
  exact ⟨ret, s', hrun, hiff.mpr fun _ _ _ _ _ => .inl ⟨by decide, rfl⟩⟩

/-- Without a destination directory, the file is neither in the source nor in the destination. -/
theorem moved_to_nowhere_is_lost : toNowhere.Free ∧
    ∃ s', (move_dir (some ['/', 's']) (some ['/', 'd'])).run (State.sys calm)
        ⟨onlySource, fun _ => none, 3⟩ = (some 0, s') ∧
      s'.tree.entry [['a'], ['s']] = none ∧ s'.tree.entry [['a'], ['d']] = none ∧
      ¬ ∀ p e, onlySource.entry (toNowhere.srcLoc p) = some e → isLeaf e = true →
        toNowhere.Present s'.tree p e := by
  have hzero : ((move_dir (some ['/', 's']) (some ['/', 'd'])).run (State.sys calm)
      ⟨onlySource, fun _ => none, 3⟩).1 = some 0 := by decide
  obtain ⟨s', hs'⟩ : ∃ s', s' = ((move_dir (some ['/', 's']) (some ['/', 'd'])).run
      (State.sys calm) ⟨onlySource, fun _ => none, 3⟩).2 := ⟨_, rfl⟩
  have hsrc : s'.tree.entry [['a'], ['s']] = none := by
    rw [hs']
    decide
  have hdst : s'.tree.entry [['a'], ['d']] = none := by
    rw [hs']
    decide
  refine ⟨free_of_support (by decide), s', Prod.ext hzero hs'.symm, hsrc, hdst, ?_⟩
  intro hall
  rcases hall [['a']] (.reg [1] 420) (by decide) rfl with h | h
  · exact not_holds_none _ (hsrc ▸ h)
  · exact not_holds_none _ (hdst ▸ h)

end Move

end EngineerLinux.MoveDir
