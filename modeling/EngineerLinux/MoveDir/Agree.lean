import EngineerLinux.MoveDir.Complete

/-!
# The fast way and the slow way

Within one file system `rename` moves an entry at once. Across two it fails, and the file is copied
or the link made again, and the original removed (`move.c` 41-46 and 62-71). Two runs of `move_dir`,
one in each way, are followed call by call.

This is a simulation: in states with the same entries (`State.Same`) the calls of the walk itself
answer the same in both runs, and a file or link ends as it was, in either way, if its target fits
into the 128 bytes of `linkPath`. So the two runs have the same entries after each name, and go into
the same directories. The other direction needs one link only that the walk comes to and that is cut
off: the two trees differ there.

- `State.Same`: two states with the same entries. The calls of the walk answer the same in both;
- `run_leafProg_exact`: the entry that a file or link leaves in the destination, in either way;
- `dirAlike`: **the two runs go on alike** as long as every link fits into the buffer;
- `fast_slow_agree_iff`: they end alike exactly if every link that the walk comes to fits.
-/

namespace EngineerLinux.MoveDir

open Files

/-! ## The same calls in both runs -/

namespace State

/-- The same entries are in both states. -/
def Same (s s' : State) : Prop := s'.tree.entry = s.tree.entry

variable {env : Env} {s s' : State}

theorem Same.resolve (h : Same s s') : s'.tree.resolve = s.tree.resolve := Tree.resolve_congr h

/-- The same operation on the entries has the same outcome. -/
theorem Same.apply (h : Same s s') {o o' : Option Tree}
    (ho : o'.map Tree.entry = o.map Tree.entry) :
    (s.apply o).1 = (s'.apply o').1 ∧ Same (s.apply o).2 (s'.apply o').2 := by
  cases o with
  | none =>
    rw [Option.map_none, Option.map_eq_none_iff] at ho
    subst ho
    exact ⟨rfl, h⟩
  | some t =>
    obtain ⟨t', rfl, ht'⟩ := Option.map_eq_some_iff.mp ho
    exact ⟨rfl, ht'⟩

/-- The calls of the walk itself. -/
def WalkCall : FileCall → Prop
  | .opendir _ | .closedir _ | .lstat _ | .mkdir _ _ | .rmdir _ => True
  | _ => False

theorem Same.stat (h : Same s s') (path : Text) (follow : Bool) :
    s'.stat env.across path follow = s.stat env path follow := by
  have hentry : s'.tree.entry = s.tree.entry := h
  unfold State.stat
  rw [h.resolve, hentry]
  rfl

theorem Same.mkdir (h : Same s s') {path : Text} (mode : Nat)
    (hfails : env.fails (.mkdir path) = false) :
    (s.mkdir env path mode).1 = (s'.mkdir env.across path mode).1 ∧
      Same (s.mkdir env path mode).2 (s'.mkdir env.across path mode).2 := by
  have hfails' : env.across.fails (.mkdir path) = false := rfl
  have hcwd : env.across.cwd = env.cwd := rfl
  have hmasked : env.across.masked mode = env.masked mode := rfl
  unfold State.mkdir
  rw [hfails, hfails', if_neg Bool.false_ne_true, if_neg Bool.false_ne_true, h.resolve, hcwd,
    hmasked]
  cases s.tree.resolve env.cwd false path with
  | entry l => exact ⟨rfl, h⟩
  | fail => exact ⟨rfl, h⟩
  | absent l n =>
    have hcreate := Tree.create_congr h l n (.dir (env.masked mode))
    cases hmade : s.tree.create l n (.dir (env.masked mode)) with
    | none =>
      rw [hmade, Option.map_none, Option.map_eq_none_iff] at hcreate
      simp only [hmade, hcreate]
      exact ⟨trivial, h⟩
    | some t =>
      rw [hmade] at hcreate
      obtain ⟨t', hmade', ht'⟩ := Option.map_eq_some_iff.mp hcreate
      simp only [hmade, hmade']
      exact ⟨trivial, ht'⟩

theorem Same.rmdir (h : Same s s') (path : Text) :
    (s.rmdir env path).1 = (s'.rmdir env.across path).1 ∧
      Same (s.rmdir env path).2 (s'.rmdir env.across path).2 := by
  have hcwd : env.across.cwd = env.cwd := rfl
  unfold State.rmdir
  rw [h.resolve, hcwd]
  split
  · split
    · split
      · next l _ => exact h.apply (Tree.rmdir_congr h l)
      · exact ⟨rfl, h⟩
    · exact ⟨rfl, h⟩
  · exact ⟨rfl, h⟩

/-- **The walk sees the same** in states with the same entries. -/
theorem Same.call (h : Same s s') (hcalm : ∀ f, env.fails f = false) {c : FileCall}
    (hc : WalkCall c) :
    (State.sys env c s).1 = (State.sys env.across c s').1 ∧
      Same (State.sys env c s).2 (State.sys env.across c s').2 := by
  cases c with
  | opendir path =>
    refine ⟨?_, h⟩
    have hcwd : env.across.cwd = env.cwd := rfl
    simp only [State.sys]
    rw [h.resolve, hcwd]
    cases s.tree.resolve env.cwd true path with
    | entry l =>
      simp only [Tree.isDir_congr (congrFun h l)]
      rfl
    | absent | fail => rfl
  | closedir path => exact ⟨rfl, h⟩
  | lstat path => exact ⟨(h.stat path false).symm, h⟩
  | mkdir path mode => exact h.mkdir mode (hcalm _)
  | rmdir path => exact h.rmdir path
  | stat | access | unlink | rename | readlink | symlink | openRead | openCreat | sendfile | close
  | chmod => cases hc

end State

namespace Move

variable (mv : Move)

/-- The same call, with the destination on another file system. -/
def across : Move := { mv with env := mv.env.across }

/-- A link that fits into the buffer of `readlink`, or happens to be followed by its own rest. -/
def Fits (p : List Text) (target : Text) : Prop :=
  target.length < 128 ∨ mv.env.tail (mv.srcPath p) = target.drop 128

variable {mv} {s s' : State} {a p : List Text} {n : Text} {e : Entry}

theorem onlyRenameFails_of_calm (hcalm : ∀ f, mv.env.fails f = false) : mv.OnlyRenameFails := by
  intro f hf
  rw [hcalm] at hf
  cases hf

theorem onlyRenameFails_across : mv.across.OnlyRenameFails := fun _ => Env.fails_across

theorem reached_across (hcalm : ∀ f, mv.env.fails f = false) :
    mv.across.Reached p ↔ mv.Reached p := by
  have hpasses : ∀ p, mv.across.Passes p ↔ mv.Passes p := by
    intro p
    constructor
    · exact fun h => ⟨h.src_fits, h.dst_fits, fun hdir => ⟨(h.made hdir).1, hcalm _⟩⟩
    · exact fun h => ⟨h.src_fits, h.dst_fits, fun hdir => ⟨(h.made hdir).1, rfl⟩⟩
  have hcompletes : ∀ p, mv.across.Completes p ↔ mv.Completes p :=
    fun p => forall_congr' fun b => imp_congr_right fun _ => hpasses _
  constructor
  · intro h a n b hp
    obtain ⟨hn, hm⟩ := h a n b hp
    exact ⟨(hpasses _).mp hn, fun m hbefore => (hcompletes _).mp (hm m hbefore)⟩
  · intro h a n b hp
    obtain ⟨hn, hm⟩ := h a n b hp
    exact ⟨(hpasses _).mpr hn, fun m hbefore => (hcompletes _).mpr (hm m hbefore)⟩

/-! ## One file or link -/

/-- The two entries after a move. -/
theorem entry_eq_moved
    (hframe : ∀ l, l ≠ mv.srcLoc p → l ≠ mv.dstLoc p → s'.tree.entry l = s.tree.entry l)
    (hsrc : s'.tree.entry (mv.srcLoc p) = none) (hdst : s'.tree.entry (mv.dstLoc p) = some e) :
    s'.tree.entry = Function.update (Function.update s.tree.entry (mv.dstLoc p) (some e))
      (mv.srcLoc p) none := by
  funext l
  by_cases hs : l = mv.srcLoc p
  · rw [hs, hsrc, Function.update_self]
  · rw [Function.update_of_ne hs]
    by_cases hd : l = mv.dstLoc p
    · rw [hd, hdst, Function.update_self]
    · rw [Function.update_of_ne hd, hframe l hs hd]

/-- **Where only `rename` may fail**, a file or link that fits is in its place afterwards as it was,
with its permissions. -/
theorem run_leafProg_exact (hfaults : mv.OnlyRenameFails) (hdst : mv.tree.isDir mv.dst = true)
    (h : mv.AtLeaf s a n e) (hnone : s.tree.entry (mv.dstLoc (a ++ [n])) = none)
    (hfits : ∀ target, e = .lnk target → mv.Fits (a ++ [n]) target) :
    ∃ s', (leafProg (mv.srcPath (a ++ [n])) (mv.dstPath (a ++ [n])) e).run (State.sys mv.env) s =
        (some (), s') ∧
      s'.tree.entry = Function.update
        (Function.update s.tree.entry (mv.dstLoc (a ++ [n])) (some e))
        (mv.srcLoc (a ++ [n])) none := by
  rw [run_leafProg_free h (run_access_none h hnone)]
  have hleaf := h.leaf
  cases e with
  | reg data mode =>
    obtain ⟨s', hrun, hframe, hout, hmode⟩ := run_renameOrCopy h hnone
    obtain ⟨hsrc, mode', hcopy⟩ := hout.won hfaults fun _ => hfaults.copied hdst _ data
    have hmode' : mode' = mode := hmode (hfaults.eq_false fun _ _ h => by cases h) _ _ hcopy
    exact ⟨s', hrun, entry_eq_moved hframe hsrc (hmode' ▸ hcopy)⟩
  | lnk target =>
    obtain ⟨s', hrun, hframe, hout⟩ := run_renameOrRelink h hnone
    obtain ⟨hsrc, hlink⟩ := hout.won hfaults fun _ =>
      hfaults.relinked hdst (hfits target rfl)
    exact ⟨s', hrun, entry_eq_moved hframe hsrc hlink⟩
  | dir => cases hleaf
  | other => cases hleaf

/-! ## The two runs -/

/-- The other run is at the same file or link. -/
theorem AtLeaf.across (h : mv.AtLeaf s a n e) (hsame : State.Same s s') :
    mv.across.AtLeaf s' a n e where
  same l hs hd := (congrFun hsame l).trans (h.same l hs hd)
  dst_dir := (Tree.isDir_congr (congrFun hsame _)).trans h.dst_dir
  inside := h.inside
  entry := (congrFun hsame _).trans h.entry
  leaf := h.leaf

variable (mv) in
/-- What is compared: a move into a directory where nothing is in the way and nothing fails, with
links that fit wherever the walk comes to one. -/
structure Comparable : Prop where
  calm : ∀ f, mv.env.fails f = false
  dst_dir : mv.tree.isDir mv.dst = true
  free : mv.Free
  fits : ∀ p target, mv.tree.entry (mv.srcLoc p) = some (.lnk target) → mv.Reached p →
    mv.Fits p target

variable (mv) in
/-- The two runs from two states with the same entries: the same result, and the same entries. -/
abbrev Alike {R : Type} (p : Prog FileSys R) (s s' : State) : Prop :=
  p.Agrees (State.sys mv.env) (State.sys mv.env.across) State.Same s s'

theorem alike_leafProg (hcmp : mv.Comparable) (h : mv.AtLeaf s a n e)
    (hnone : s.tree.entry (mv.dstLoc (a ++ [n])) = none)
    (hfits : ∀ target, e = .lnk target → mv.Fits (a ++ [n]) target) (hsame : State.Same s s') :
    mv.Alike (leafProg (mv.srcPath (a ++ [n])) (mv.dstPath (a ++ [n])) e) s s' := by
  obtain ⟨s₁, hrun, hentry⟩ :=
    run_leafProg_exact (onlyRenameFails_of_calm hcmp.calm) hcmp.dst_dir h hnone hfits
  obtain ⟨s₂, hrun', hentry'⟩ := run_leafProg_exact onlyRenameFails_across hcmp.dst_dir
    (h.across hsame) ((congrFun hsame _).trans hnone) hfits
  have hslow : (leafProg (mv.srcPath (a ++ [n])) (mv.dstPath (a ++ [n])) e).run
      (State.sys mv.env.across) s' = (some (), s₂) := hrun'
  unfold Alike Prog.Agrees
  rw [hrun, hslow]
  refine ⟨rfl, ?_⟩
  show s₂.tree.entry = s₁.tree.entry
  rw [hentry, ← show s'.tree.entry = s.tree.entry from hsame]
  exact hentry'

variable (mv) in
/-- The two runs in a directory inside the source. -/
def DirAlike (room : Nat) : Prop :=
  ∀ (s s' : State) (a : List Text) (n : Text), mv.tree.isDir (mv.srcLoc (a ++ [n])) = true →
    mv.Ready s (a ++ [n]) [] → mv.Reached (a ++ [n]) →
    512 ≤ (mv.srcPath (a ++ [n])).length + room → State.Same s s' →
    mv.Alike (moveDir room (mv.srcPath (a ++ [n])) (mv.dstPath (a ++ [n]))) s s'

/-- One name of the loop. -/
theorem alike_moveEntry {room : Nat} {done : List Text} (hcmp : mv.Comparable)
    (hrec : mv.DirAlike room) (hready : mv.Ready s a done) (hn : n ∉ done)
    (hmem : mv.tree.entry (n :: mv.srcLoc a) ≠ none ∨ n = ['.'] ∨ n = ['.', '.'])
    (ha : mv.Reached a) (hbefore : ∀ m, Before (mv.namesAt a) m n → mv.Completes (a ++ [m]))
    (hroom : 512 ≤ (mv.srcPath a).length + (room + 1)) (hsame : State.Same s s') :
    mv.Alike (moveEntry (moveDir room) (mv.srcPath a) (mv.dstPath a) n) s s' := by
  unfold moveEntry
  by_cases hdot : n = ['.'] ∨ n = ['.', '.']
  · rw [if_pos hdot]
    exact Prog.agrees_ret hsame
  · rw [if_neg hdot, join_srcPath, join_dstPath]
    by_cases hlong : (mv.srcPath (a ++ [n])).length ≥ 512 ∨ (mv.dstPath (a ++ [n])).length ≥ 512
    · rw [if_pos hlong]
      exact Prog.agrees_ret hsame
    · rw [if_neg hlong]
      obtain ⟨hs, hd⟩ := fits_iff.mp hlong
      have hreached : mv.Reached (a ++ [n]) :=
        reached_snoc.mpr ⟨ha, ⟨hs, hd, fun _ => ⟨hcmp.dst_dir, hcmp.calm _⟩⟩, hbefore⟩
      have hentry : mv.tree.entry (mv.srcLoc (a ++ [n])) ≠ none := by
        rw [srcLoc_snoc]
        exact hmem.resolve_right hdot
      obtain ⟨e, he⟩ := Option.ne_none_iff_exists'.mp hentry
      have he' : s.tree.entry (mv.srcLoc (a ++ [n])) = some e :=
        (hready.todo_src n hn []).trans he
      have hlstat := hsame.call hcmp.calm (c := .lstat (mv.srcPath (a ++ [n]))) trivial
      refine Prog.Agrees.call hlstat.1 ?_
      simp only [State.sys, run_lstat hready.same he']
      cases e with
      | reg | lnk =>
        have hleaf := alike_leafProg hcmp ⟨hready.same, hready.dst_dir, hready.inside, he', rfl⟩
          (hcmp.free.entry_none he (hready.todo_dst n hn []))
          (fun target heq => hcmp.fits _ target (heq ▸ he) hreached) hsame
        exact hleaf.bind (Prog.agrees_ret hleaf.2)
      | other mode => exact Prog.agrees_ret hsame
      | dir mode =>
        have hdir : mv.tree.isDir (mv.srcLoc (a ++ [n])) = true := Tree.isDir_iff.mpr ⟨mode, he⟩
        have hname : IsName n := mv.tree.names n (mv.srcLoc a) (srcLoc_snoc ▸ hentry)
        obtain ⟨r, s₁, hmkdir, hr, hmade, hframe⟩ := mkdir_made hready hn hname hcmp.dst_dir
          (hcmp.calm _) (hcmp.free.dirsMeetDirs _ (by simp) hdir)
        have hsys : State.sys mv.env (.mkdir (mv.dstPath (a ++ [n])) 448) s = (r, s₁) := hmkdir
        have hlonger := length_extend (mv.srcPath a) [n]
        rw [List.length_singleton, srcPath, ← extend_append, ← srcPath, ← srcPath] at hlonger
        obtain ⟨hans, hsame₁⟩ :=
          hsame.call hcmp.calm (c := .mkdir (mv.dstPath (a ++ [n])) 448) trivial
        refine Prog.Agrees.call hans ?_
        rw [hsys] at hsame₁ ⊢
        have hsub := hrec s₁ _ a n hdir (hready.subdir hn hdir hcmp.dst_dir hmade hframe) hreached
          (by omega) hsame₁
        simp only [if_neg hr]
        exact hsub.bind (Prog.agrees_ret hsub.2)

/-- The loop, from the name on that `readdir` yields after those in `done`. -/
theorem alike_moveEntries (a done : List Text) {names : List Text} {room : Nat}
    (hcmp : mv.Comparable) (hrec : mv.DirAlike room)
    (hdir : mv.tree.isDir (mv.srcLoc a) = true) (ha : mv.Reached a)
    (hroom : 512 ≤ (mv.srcPath a).length + (room + 1)) (hnames : mv.namesAt a = done ++ names)
    (hready : mv.Ready s a done) (hdone : ∀ m ∈ done, mv.Completes (a ++ [m]))
    (hsame : State.Same s s') :
    mv.Alike (moveEntries (moveDir room) (mv.srcPath a) (mv.dstPath a) names) s s' := by
  induction names generalizing s s' done with
  | nil => exact Prog.agrees_ret hsame
  | cons n names ih =>
    obtain ⟨hn, hbefore, hmem⟩ := next_name hdir hnames hdone
    have hentry := alike_moveEntry hcmp hrec hready hn hmem ha hbefore hroom hsame
    -- the run within one file system says whether the loop goes on
    obtain ⟨go, s₁, hrun, honly, -, hgo, -⟩ := run_moveEntry (leafSpec_outcome hcmp.free)
      hcmp.free.dirsMeetDirs (dirSpec (leafSpec_outcome hcmp.free) hcmp.free.dirsMeetDirs room)
      hready hn hmem ha hbefore hroom fun _ _ => trivial
    have hsame₁ := hentry.2
    refine hentry.bind ?_
    rw [hrun] at hsame₁ ⊢
    cases go with
    | false => exact Prog.agrees_ret hsame₁
    | true =>
      refine ih (done ++ [n]) ?_ (hready.next honly) ?_ hsame₁
      · rw [hnames, List.append_assoc, List.singleton_append]
      · exact List.forall_mem_append.mpr ⟨hdone, List.forall_mem_singleton.mpr (hgo.mp rfl)⟩

/-- A directory that has been opened. -/
theorem alike_opened {room : Nat} (hcmp : mv.Comparable) (hrec : mv.DirAlike room)
    (hopen : s.tree.resolve mv.env.cwd true (mv.srcPath a) = .entry (mv.srcLoc a))
    (hdir : mv.tree.isDir (mv.srcLoc a) = true) (ha : mv.Reached a)
    (hroom : 512 ≤ (mv.srcPath a).length + (room + 1)) (hready : mv.Ready s a [])
    (hsame : State.Same s s') :
    mv.Alike (moveDir (room + 1) (mv.srcPath a) (mv.dstPath a)) s s' := by
  have hsys : State.sys mv.env (.opendir (mv.srcPath a)) s = (some (mv.namesAt a), s) := by
    simp only [State.sys, hopen, if_pos hready.src_dir]
    rfl
  obtain ⟨hans, hsame₁⟩ := hsame.call hcmp.calm (c := .opendir (mv.srcPath a)) trivial
  rw [moveDir]
  refine Prog.Agrees.call hans ?_
  rw [hsys] at hsame₁ ⊢
  have hloop := alike_moveEntries a [] hcmp hrec hdir ha hroom rfl hready
    (fun _ hm => absurd hm List.not_mem_nil) hsame₁
  refine hloop.bind ?_
  obtain ⟨hclose, hsame₂⟩ := hloop.2.call hcmp.calm (c := .closedir (mv.srcPath a)) trivial
  refine Prog.Agrees.call hclose ?_
  obtain ⟨hrmdir, hsame₃⟩ := hsame₂.call hcmp.calm (c := .rmdir (mv.srcPath a)) trivial
  exact Prog.Agrees.call hrmdir (Prog.agrees_ret hsame₃)

/-- **The two runs go on alike** in every directory inside the source: by induction on the room. -/
theorem dirAlike (hcmp : mv.Comparable) (room : Nat) : mv.DirAlike room := by
  induction room with
  | zero =>
    intro s s' a n _ _ hreached hroom
    have hfits := (reached_snoc.mp hreached).2.1.src_fits
    omega
  | succ room ih =>
    intro s s' a n hdir hready hreached hroom hsame
    obtain ⟨mode, hmode⟩ := Tree.isDir_iff.mp hready.src_dir
    exact alike_opened hcmp ih (resolve_src hready.same hmode (.inr fun _ h => by cases h)) hdir
      hreached hroom hready hsame

/-- The two whole runs. -/
theorem alike_move_dir (hcmp : mv.Comparable) (hs : s.tree = mv.tree) :
    mv.Alike (move_dir (some mv.srcDir) (some mv.dstDir)) s s := by
  have hopen : s.tree.resolve mv.env.cwd true (mv.srcPath []) = .entry (mv.srcLoc []) := by
    rw [hs]
    exact mv.opens
  exact alike_opened hcmp (dirAlike hcmp 511) hopen mv.src_dir mv.reached_nil (by omega)
    (ready_start hs) rfl

/-- **The fast and the slow move end alike**, with the same result and the same entry at every
place, exactly if every link that the walk comes to fits into the buffer. -/
theorem fast_slow_agree_iff (mv : Move) (s : State) (hs : s.tree = mv.tree)
    (hcalm : ∀ f, mv.env.fails f = false) (hdst : mv.tree.isDir mv.dst = true) (hfree : mv.Free) :
    ∃ ret s₁ ret' s₂,
      (move_dir (some mv.srcDir) (some mv.dstDir)).run (State.sys mv.env) s = (some ret, s₁) ∧
      (move_dir (some mv.srcDir) (some mv.dstDir)).run (State.sys mv.env.across) s =
        (some ret', s₂) ∧
      ((ret = ret' ∧ ∀ l, s₂.tree.entry l = s₁.tree.entry l) ↔
        ∀ p target, mv.tree.entry (mv.srcLoc p) = some (.lnk target) → mv.Reached p →
          mv.Fits p target) := by
  have hfree' : mv.across.Free := hfree
  obtain ⟨ret, s₁, hrun, -, hsettled, -⟩ :=
    run_move_dir (leafSpec_outcome hfree) hfree.dirsMeetDirs hs fun _ _ => trivial
  obtain ⟨ret', s₂, hrun', -, hsettled', -⟩ :=
    run_move_dir (leafSpec_outcome hfree') hfree'.dirsMeetDirs hs fun _ _ => trivial
  refine ⟨ret, _, ret', _, hrun, hrun', ?_⟩
  constructor
  · rintro ⟨-, hsame⟩ p target hentry hreached
    obtain ⟨n, b, rfl⟩ := exists_cons_of_not_dir (isDir_of_leaf hentry rfl)
    have hfast := (hsettled n).leaf b _ hentry rfl hreached
    have hslow := (hsettled' n).leaf b _ hentry rfl ((reached_across hcalm).mpr hreached)
    -- the fast run leaves the link in the destination, so the slow one has made it again
    have hthere : Holds ((s₁.rmdir mv.env mv.srcDir).2.tree.entry (mv.dstLoc (n :: b)))
        (.lnk target) :=
      (holds_rmdir s₁ _ _ rfl).mpr (hfast.renamed ⟨hdst, hcalm _⟩).2
    rw [← hsame] at hthere
    have hmade := (holds_rmdir s₂ _ _ rfl).mp hthere
    have hnot : ¬ mv.across.Renamed (n :: b) := fun h => Bool.noConfusion h.2
    exact ((hslow.dst_iff hnot).mp hmade).2.2.2
  · intro hfits
    obtain ⟨hret, hsame⟩ := alike_move_dir ⟨hcalm, hdst, hfree, hfits⟩ hs
    have hslow : (move_dir (some mv.srcDir) (some mv.dstDir)).run (State.sys mv.env.across) s =
        (some ret', (s₂.rmdir mv.across.env mv.across.srcDir).2) := hrun'
    rw [hrun, hslow] at hret hsame
    exact ⟨Option.some.inj hret, fun l => congrFun hsame l⟩

/-- The bytes of a link's target. -/
def targetLength : Option Entry → Nat
  | some (.lnk target) => target.length
  | _ => 0

theorem fast_slow_agree_bothToEmpty : ∃ ret s₁ ret' s₂,
    (move_dir (some ['/', 's']) (some ['/', 'd'])).run (State.sys calmTwo)
        ⟨withLink, fun _ => none, 3⟩ = (some ret, s₁) ∧
      (move_dir (some ['/', 's']) (some ['/', 'd'])).run (State.sys calmTwo.across)
        ⟨withLink, fun _ => none, 3⟩ = (some ret', s₂) ∧
      ret = ret' ∧ ∀ l, s₂.tree.entry l = s₁.tree.entry l := by
  obtain ⟨ret, s₁, ret', s₂, hrun, hrun', hiff⟩ := fast_slow_agree_iff bothToEmpty
    ⟨withLink, fun _ => none, 3⟩ rfl (fun _ => rfl) (by decide) (free_of_support (by decide))
  have hshort : ∀ l ∈ withLink.support, ∀ e ∈ withLink.entry l, targetLength (some e) < 128 := by
    decide
  exact ⟨ret, s₁, ret', s₂, hrun, hrun', hiff.mpr fun p target hentry _ =>
    .inl (Tree.forall_entry hshort hentry)⟩

/-- The root with the empty directory `/d` and, in `/s`, a link whose target has 129 bytes. -/
def longLink : Tree :=
  (((((Tree.root.create [] ['s'] (.dir 493)).getD .root).create [['s']] ['a']
    (.lnk (List.replicate 129 'x'))).getD .root).create [] ['d'] (.dir 493)).getD .root

/-- `move_dir("/s", "/d")` with this link. -/
def moveLongLink : Move where
  env := calm
  tree := longLink
  srcDir := ['/', 's']
  dstDir := ['/', 'd']
  src := [['s']]
  dst := [['d']]
  src_dir := by decide
  opens := by decide
  src_denotes := denotes_realPath (l := [['s']]) (by decide) (by decide) (by decide)
  dst_denotes := denotes_realPath (l := [['d']]) (by decide) (by decide) (by decide)
  src_apart := s_not_above_d
  dst_apart := d_not_above_s
  listing := listing_flat [['a']] (by decide) (by decide) (by decide) (by decide) (by decide)

/-- The slow move cuts off the last byte of the target. -/
theorem long_link_is_cut : moveLongLink.Free ∧ ∃ s₁ s₂,
    (move_dir (some ['/', 's']) (some ['/', 'd'])).run (State.sys calm)
        ⟨longLink, fun _ => none, 3⟩ = (some 0, s₁) ∧
      (move_dir (some ['/', 's']) (some ['/', 'd'])).run (State.sys calm.across)
        ⟨longLink, fun _ => none, 3⟩ = (some 0, s₂) ∧
      targetLength (s₁.tree.entry [['a'], ['d']]) = 129 ∧
      targetLength (s₂.tree.entry [['a'], ['d']]) = 128 ∧
      ¬ ∀ l, s₂.tree.entry l = s₁.tree.entry l := by
  have hzero₁ : ((move_dir (some ['/', 's']) (some ['/', 'd'])).run
      (State.sys calm) ⟨longLink, fun _ => none, 3⟩).1 = some 0 := by decide +kernel
  have hzero₂ : ((move_dir (some ['/', 's']) (some ['/', 'd'])).run
      (State.sys calm.across) ⟨longLink, fun _ => none, 3⟩).1 = some 0 := by decide +kernel
  obtain ⟨s₁, hs₁⟩ : ∃ s₁, s₁ = ((move_dir (some ['/', 's']) (some ['/', 'd'])).run
    (State.sys calm) ⟨longLink, fun _ => none, 3⟩).2 := ⟨_, rfl⟩
  obtain ⟨s₂, hs₂⟩ : ∃ s₂, s₂ = ((move_dir (some ['/', 's']) (some ['/', 'd'])).run
    (State.sys calm.across) ⟨longLink, fun _ => none, 3⟩).2 := ⟨_, rfl⟩
  have hfast : targetLength (s₁.tree.entry [['a'], ['d']]) = 129 := by
    rw [hs₁]
    decide +kernel
  have hslow : targetLength (s₂.tree.entry [['a'], ['d']]) = 128 := by
    rw [hs₂]
    decide +kernel
  refine ⟨free_of_support (by decide), s₁, s₂, Prod.ext hzero₁ hs₁.symm,
    Prod.ext hzero₂ hs₂.symm, hfast, hslow, ?_⟩
  intro hsame
  rw [hsame, hfast] at hslow
  exact absurd hslow (by decide)

end Move

end EngineerLinux.MoveDir
