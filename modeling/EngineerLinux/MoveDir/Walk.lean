import EngineerLinux.MoveDir.Model

/-!
# The walk of `move_dir`

What one call of `move_dir` does to the two trees, whatever becomes of a single file or link. `Move`
is a situation in which it is called. The walk visits the directories of the source in the order of
`readdir` and stops at the first entry that it cannot pass (`move.c` 26-30 and 48-51), so which
entries it comes to (`Reached`) is known beforehand.

The source and the destination being apart, the treatment of a file or link touches its own two
entries only. It is a parameter (`LeafSpec`): where what it has to know of the state is `Good`, it
leaves its two entries as `Post` says. The states in which the entries have their turns are read off
the run (`turns`), and no entry has two (`Once`), so what holds of every turn holds of the whole.
The proof is by induction on the room in a path, since a directory inside another one has a longer
path, and inside on the names that are still to come (`Ready`).

- `Settled`: below a path, every file and link that the walk came to is as the treatment of files
  and links left it, everything else is as it was, and directories that became empty are gone;
- `run_moveEntry`, `run_moveEntries`, `dirSpec`: one name, the loop, and a directory inside;
- `run_move_dir`: **the whole walk settles** everything below the source directory, given a
  `LeafSpec` for files and links, and returns 0 if nothing stopped it.
-/

namespace EngineerLinux.MoveDir

open Files

/-! ## Turns -/

/-- A name of the walk: the two paths, what `lstat` said of the first, and the state then. -/
structure Turn where
  src : Text
  dst : Text
  stat : Stat
  state : State

/-- The branch for a link or a file. -/
def Turn.branch (τ : Turn) : Prog FileSys (Option Unit) :=
  match τ.stat.kind with
  | .lnk => moveLnk τ.src τ.dst
  | .reg => moveReg τ.src τ.dst τ.stat
  | _ => .ret (some ())

/-- The state that this branch leaves. -/
def Turn.after (env : Env) (τ : Turn) : State := (τ.branch.run (State.sys env) τ.state).2

/-- Files and links. -/
def Stat.isLeaf (stat : Stat) : Prop := stat.kind = .lnk ∨ stat.kind = .reg

variable (env : Env)

/-- What the path of the destination names is a link. -/
def MeetsLink (τ : Turn) : Prop := (τ.state.stat env τ.dst false).map Stat.kind = some .lnk

/-- The turn of a name, and for a directory those inside it. -/
def entryTurns (inside : Text → Text → State → List Turn) (srcDir dstDir d_name : Text)
    (s : State) : List Turn :=
  if d_name = ['.'] ∨ d_name = ['.', '.'] then []
  else if (join srcDir d_name).length ≥ 512 ∨ (join dstDir d_name).length ≥ 512 then []
  else
    match s.stat env (join srcDir d_name) false with
    | none => []
    | some stat =>
      ⟨join srcDir d_name, join dstDir d_name, stat, s⟩ ::
        match stat.kind with
        | .dir =>
          let made := s.mkdir env (join dstDir d_name) 448
          if made.1.1 ≠ 0 ∧ made.1.2 ≠ .EEXIST then []
          else inside (join srcDir d_name) (join dstDir d_name) made.2
        | _ => []

/-- The turns of the loop over the names. -/
def namesTurns (room : Nat) (inside : Text → Text → State → List Turn) (srcDir dstDir : Text) :
    List Text → State → List Turn
  | [], _ => []
  | d_name :: names, s =>
    entryTurns env inside srcDir dstDir d_name s ++
      match (moveEntry (moveDir room) srcDir dstDir d_name).run (State.sys env) s with
      | (some true, s') => namesTurns room inside srcDir dstDir names s'
      | _ => []

/-- **The turns of a call** of `move_dir`. -/
def turns : (room : Nat) → Text → Text → State → List Turn
  | 0, _, _, _ => []
  | room + 1, srcDir, dstDir, s =>
    match s.tree.resolve env.cwd true srcDir with
    | .entry l =>
      if s.tree.isDir l then
        namesTurns env room (turns room) srcDir dstDir (env.readdir srcDir) s
      else []
    | _ => []

variable {env} {srcDir dstDir m n : Text} {names : List Text} {room : Nat} {s : State}

/-- A path that goes on behind different names is a different one. -/
theorem extend_join_inj {dir : Text} {b c : List Text} (hm : '/' ∉ m) (hn : '/' ∉ n)
    (h : extend (join dir m) b = extend (join dir n) c) : m = n := by
  have hrest : ∀ (p : Text) (a : List Text), ∃ rest : Text, extend p a = p ++ rest ∧
      ∀ c ∈ rest.head?, c = '/' := by
    intro p a
    induction a generalizing p with
    | nil => exact ⟨[], by simp, fun _ hc => by cases hc⟩
    | cons x a ih =>
      obtain ⟨rest, heq, -⟩ := ih (p ++ '/' :: x)
      refine ⟨'/' :: x ++ rest, ?_, fun c hc => by cases hc; rfl⟩
      rw [extend_cons, heq, List.append_assoc]
  have htake : ∀ (x rest : Text), '/' ∉ x → (∀ c ∈ rest.head?, c = '/') →
      (x ++ rest).takeWhile (· ≠ '/') = x := by
    intro x rest hx hhead
    have hall : ∀ c ∈ x, decide (c ≠ '/') = true := fun c hc =>
      decide_eq_true fun heq => hx (heq ▸ hc)
    rw [List.takeWhile_append_of_pos hall]
    cases rest with
    | nil => exact List.append_nil x
    | cons c rest =>
      rw [List.takeWhile_cons_of_neg (by simp [hhead c rfl]), List.append_nil]
  obtain ⟨r, hr, hhead⟩ := hrest (join dir m) b
  obtain ⟨r', hr', hhead'⟩ := hrest (join dir n) c
  rw [hr, hr', join, join, List.append_assoc, List.append_assoc, List.cons_append,
    List.cons_append] at h
  have hsame := (List.cons.inj (List.append_cancel_left h)).2
  rw [← htake m r hm hhead, hsame, htake n r' hn hhead']

/-- Each turn is that of one of the names, or inside it. -/
theorem src_of_mem_entryTurns {inside : Text → Text → State → List Turn}
    (hinside : ∀ src dst s, ∀ τ ∈ inside src dst s, ∃ n b, τ.src = extend src (n :: b)) {τ : Turn}
    (hτ : τ ∈ entryTurns env inside srcDir dstDir n s) :
    ¬ (n = ['.'] ∨ n = ['.', '.']) ∧ ∃ b, τ.src = extend (join srcDir n) b := by
  unfold entryTurns at hτ
  split at hτ
  · cases hτ
  · next hdot =>
    refine ⟨hdot, ?_⟩
    split at hτ
    · cases hτ
    · split at hτ
      · cases hτ
      · rcases List.mem_cons.mp hτ with rfl | hτ
        · exact ⟨[], rfl⟩
        · split at hτ
          · dsimp only at hτ
            split at hτ
            · cases hτ
            · obtain ⟨m, b, heq⟩ := hinside _ _ _ τ hτ
              exact ⟨m :: b, heq⟩
          · cases hτ

theorem src_of_mem_namesTurns {inside : Text → Text → State → List Turn}
    (hinside : ∀ src dst s, ∀ τ ∈ inside src dst s, ∃ n b, τ.src = extend src (n :: b)) {τ : Turn}
    (hτ : τ ∈ namesTurns env room inside srcDir dstDir names s) :
    ∃ n ∈ names, ¬ (n = ['.'] ∨ n = ['.', '.']) ∧ ∃ b, τ.src = extend (join srcDir n) b := by
  induction names generalizing s with
  | nil => cases hτ
  | cons n names ih =>
    unfold namesTurns at hτ
    rcases List.mem_append.mp hτ with hτ | hτ
    · exact ⟨n, List.mem_cons_self .., src_of_mem_entryTurns hinside hτ⟩
    · split at hτ
      · obtain ⟨m, hm, hrest⟩ := ih hτ
        exact ⟨m, List.mem_cons_of_mem _ hm, hrest⟩
      · cases hτ

theorem src_of_mem_turns (room : Nat) (srcDir dstDir : Text) (s : State) :
    ∀ τ ∈ turns env room srcDir dstDir s, ∃ n b, τ.src = extend srcDir (n :: b) := by
  induction room generalizing srcDir dstDir s with
  | zero => exact fun τ hτ => absurd hτ List.not_mem_nil
  | succ room ih =>
    intro τ hτ
    unfold turns at hτ
    split at hτ
    · split at hτ
      · obtain ⟨n, -, -, b, heq⟩ := src_of_mem_namesTurns ih hτ
        exact ⟨n, b, heq⟩
      · cases hτ
    · cases hτ

/-- The turns have different paths. -/
def Once (τs : List Turn) : Prop := (τs.map Turn.src).Nodup

/-! ## The situation -/

/-- The names that `readdir` yields for a directory: each entry once, and perhaps `.` and `..`. -/
structure Listing (t : Tree) (l : Loc) (names : List Text) : Prop where
  nodup : names.Nodup
  complete : ∀ n, t.entry (n :: l) ≠ none → n ∈ names
  only : ∀ n ∈ names, t.entry (n :: l) ≠ none ∨ n = ['.'] ∨ n = ['.', '.']

/-- A call of `move_dir`: `srcDir` is the path of the directory `src`, and `dstDir` of the place
`dst`, where there may be a directory or not. Neither is inside the other. -/
structure Move where
  env : Env
  tree : Tree
  srcDir : Text
  dstDir : Text
  src : Loc
  dst : Loc
  src_dir : tree.isDir src = true
  opens : tree.resolve env.cwd true srcDir = .entry src
  src_denotes : Denotes tree env.cwd src dst srcDir src
  dst_denotes : Denotes tree env.cwd src dst dstDir dst
  src_apart : ¬ src <:+ dst
  dst_apart : ¬ dst <:+ src
  listing : ∀ a, tree.isDir (below src a) = true →
    Listing tree (below src a) (env.readdir (extend srcDir a))

/-- What `stat` and `lstat` say of the entry a path leads to. -/
theorem State.stat_eq {env : Env} {s : State} {path : Text} {follow : Bool} {l : Loc} {e : Entry}
    (hpath : s.tree.resolve env.cwd follow path = .entry l) (he : s.tree.entry l = some e) :
    s.stat env path follow = some (env.statOf l e) := by
  unfold State.stat
  rw [hpath]
  simp only [he, Option.map_some]

namespace Move

variable (mv : Move) {a b p : List Text} {m n : Text}

/-- The entry at a path of the source, and the one at this path of the destination. -/
def srcLoc (p : List Text) : Loc := below mv.src p

def dstLoc (p : List Text) : Loc := below mv.dst p

def srcPath (p : List Text) : Text := extend mv.srcDir p

def dstPath (p : List Text) : Text := extend mv.dstDir p

/-- All names in the directory at a path of the source, in the order of `readdir`. -/
def namesAt (p : List Text) : List Text := mv.env.readdir (mv.srcPath p)

/-- The walk does not stop at an entry itself: the paths fit, and a directory can be made. -/
structure Passes (p : List Text) : Prop where
  src_fits : (mv.srcPath p).length < 512
  dst_fits : (mv.dstPath p).length < 512
  made : mv.tree.isDir (mv.srcLoc p) = true →
    mv.tree.isDir mv.dst = true ∧ mv.env.fails (.mkdir (mv.dstPath p)) = false

/-- Nor anywhere below it. -/
def Completes (p : List Text) : Prop :=
  ∀ b, mv.tree.entry (mv.srcLoc (p ++ b)) ≠ none → mv.Passes (p ++ b)

/-- `m` comes before `n` in a list. -/
def Before (names : List Text) (m n : Text) : Prop := m ∈ names.takeWhile (· ≠ n)

/-- **The walk comes to the entry at `p`**: it passes all directories on the way to it, and in each
of them it completes what `readdir` yields earlier. -/
def Reached (p : List Text) : Prop :=
  ∀ a n b, p = a ++ n :: b → mv.Passes (a ++ [n]) ∧
    ∀ m, Before (mv.namesAt a) m n → mv.Completes (a ++ [m])

variable {mv} in
theorem srcLoc_snoc : mv.srcLoc (a ++ [n]) = n :: mv.srcLoc a := by
  rw [srcLoc, srcLoc, below_append]
  rfl

variable {mv} in
theorem dstLoc_snoc : mv.dstLoc (a ++ [n]) = n :: mv.dstLoc a := by
  rw [dstLoc, dstLoc, below_append]
  rfl

theorem reached_nil : mv.Reached [] := by
  intro a n b h
  cases a <;> cases h

variable {mv}

theorem Reached.of_append (h : mv.Reached (a ++ b)) : mv.Reached a := by
  rintro a' n b' rfl
  exact h a' n (b' ++ b) (by rw [List.append_assoc, List.cons_append])

/-- One name further. -/
theorem reached_snoc : mv.Reached (a ++ [n]) ↔ mv.Reached a ∧ mv.Passes (a ++ [n]) ∧
    ∀ m, Before (mv.namesAt a) m n → mv.Completes (a ++ [m]) := by
  constructor
  · intro h
    exact ⟨h.of_append, h a n [] rfl⟩
  · rintro ⟨ha, hn⟩
    intro a' n' b' heq
    rcases List.eq_nil_or_concat b' with rfl | ⟨b'', x, rfl⟩
    · obtain ⟨rfl, h⟩ := List.append_inj' heq rfl
      cases h
      exact hn
    · rw [List.concat_eq_append, ← List.cons_append, ← List.append_assoc] at heq
      obtain ⟨rfl, -⟩ := List.append_inj' heq rfl
      exact ha a' n' b'' rfl

/-- What is before a name that is not repeated. -/
theorem before_iff {xs ys : List Text} (h : n ∉ xs) : Before (xs ++ n :: ys) m n ↔ m ∈ xs := by
  have hall : ∀ x ∈ xs, decide (x ≠ n) = true := fun x hx =>
    decide_eq_true (fun heq => h (heq ▸ hx))
  unfold Before
  rw [List.takeWhile_append_of_pos hall, List.takeWhile_cons_of_neg (by simp), List.append_nil]

/-! ## Where the walk is -/

variable (mv)

/-- The state when the walk is in the directory at `a` and has done the names `done`: both
directories are there, except that `dst` itself may be missing, and what other names lead to is as
it was. -/
structure Ready (s : State) (a done : List Text) : Prop where
  same : SameBut mv.src mv.dst mv.tree s.tree
  src_dir : s.tree.isDir (mv.srcLoc a) = true
  dst_dir : s.tree.isDir (mv.dstLoc a) = mv.tree.isDir mv.dst
  inside : a ≠ [] → mv.tree.isDir mv.dst = true
  todo_src : ∀ n, n ∉ done → ∀ b,
    s.tree.entry (mv.srcLoc (a ++ n :: b)) = mv.tree.entry (mv.srcLoc (a ++ n :: b))
  todo_dst : ∀ n, n ∉ done → ∀ b,
    s.tree.entry (mv.dstLoc (a ++ n :: b)) = mv.tree.entry (mv.dstLoc (a ++ n :: b))

/-- Nothing has changed but what is at or below `p`, in the source and in the destination. -/
def OnlyBelow (p : List Text) (t t' : Tree) : Prop :=
  ∀ l, ¬ mv.srcLoc p <:+ l → ¬ mv.dstLoc p <:+ l → t'.entry l = t.entry l

variable {mv} {t t' t'' : Tree} {s s' : State} {done names : List Text}

theorem OnlyBelow.refl : mv.OnlyBelow p t t := fun _ _ _ => rfl

theorem OnlyBelow.trans (h : mv.OnlyBelow p t t') (h' : mv.OnlyBelow p t' t'') :
    mv.OnlyBelow p t t'' :=
  fun l hs hd => (h' l hs hd).trans (h l hs hd)

/-- The two trees are apart. -/
theorem not_src_suffix_dst : ¬ mv.srcLoc p <:+ mv.dstLoc a := by
  intro h
  obtain ⟨c, hc⟩ := exists_below h
  rw [srcLoc, ← below_append] at hc
  exact below_ne_below mv.src_apart mv.dst_apart hc.symm

theorem not_dst_suffix_src : ¬ mv.dstLoc p <:+ mv.srcLoc a := by
  intro h
  obtain ⟨c, hc⟩ := exists_below h
  rw [dstLoc, ← below_append] at hc
  exact below_ne_below mv.src_apart mv.dst_apart hc

theorem src_ne_dst : mv.srcLoc p ≠ mv.dstLoc a := by
  intro h
  have hsuffix : mv.srcLoc p <:+ mv.dstLoc a := by
    rw [h]
  exact not_src_suffix_dst hsuffix

/-- A place in the source that is not below `p` has not changed. -/
theorem OnlyBelow.src (h : mv.OnlyBelow p t t') (ha : ¬ p <+: a) :
    t'.entry (mv.srcLoc a) = t.entry (mv.srcLoc a) :=
  h _ (fun hs => ha (below_suffix_below.mp hs)) not_dst_suffix_src

theorem OnlyBelow.dst (h : mv.OnlyBelow p t t') (ha : ¬ p <+: a) :
    t'.entry (mv.dstLoc a) = t.entry (mv.dstLoc a) :=
  h _ not_src_suffix_dst (fun hd => ha (below_suffix_below.mp hd))

theorem OnlyBelow.same (h : mv.OnlyBelow p t t') (hp : p ≠ []) : SameBut mv.src mv.dst t t' := by
  intro l hs hd
  refine h l (fun hsuffix => hs ?_) (fun hsuffix => hd ?_)
  · obtain ⟨c, rfl⟩ := exists_below hsuffix
    rw [srcLoc, ← below_append]
    exact inside_below mv.src (by simp [hp])
  · obtain ⟨c, rfl⟩ := exists_below hsuffix
    rw [dstLoc, ← below_append]
    exact inside_below mv.dst (by simp [hp])

theorem not_prefix_self : ¬ a ++ [m] <+: a := by
  intro h
  have := h.length_le
  rw [List.length_append, List.length_singleton] at this
  omega

theorem not_prefix_of_ne (h : m ≠ n) : ¬ a ++ [m] <+: a ++ n :: b := by
  rw [List.prefix_append_right_inj, List.cons_prefix_cons]
  exact fun hm => h hm.1

/-- After what is below one name has been worked on, the walk is ready for the others. -/
theorem Ready.next (h : mv.Ready s a done) (honly : mv.OnlyBelow (a ++ [m]) s.tree s'.tree) :
    mv.Ready s' a (done ++ [m]) where
  same l hs hd := (honly.same (by simp) l hs hd).trans (h.same l hs hd)
  src_dir := (Tree.isDir_congr (honly.src not_prefix_self)).trans h.src_dir
  dst_dir := (Tree.isDir_congr (honly.dst not_prefix_self)).trans h.dst_dir
  inside := h.inside
  todo_src n hn b := by
    rw [List.mem_append, not_or, List.mem_singleton] at hn
    rw [honly.src (not_prefix_of_ne (Ne.symm hn.2))]
    exact h.todo_src n hn.1 b
  todo_dst n hn b := by
    rw [List.mem_append, not_or, List.mem_singleton] at hn
    rw [honly.dst (not_prefix_of_ne (Ne.symm hn.2))]
    exact h.todo_dst n hn.1 b

/-- Nothing has changed but what is below `a` and not below the names in `done`. -/
def OnlyAfter (mv : Move) (a done : List Text) (t t' : Tree) : Prop :=
  ∀ l, (∀ n, n ∉ done → ¬ mv.srcLoc (a ++ [n]) <:+ l ∧ ¬ mv.dstLoc (a ++ [n]) <:+ l) →
    t'.entry l = t.entry l

theorem OnlyBelow.onlyAfter (h : mv.OnlyBelow (a ++ [m]) t t') (hm : m ∉ done) :
    mv.OnlyAfter a done t t' := by
  intro l hl
  exact h l (hl m hm).1 (hl m hm).2

theorem OnlyAfter.trans (h : mv.OnlyAfter a done t t') (h' : mv.OnlyAfter a (done ++ [m]) t' t'') :
    mv.OnlyAfter a done t t'' := by
  intro l hl
  rw [h' l fun n hn => hl n fun hmem => hn (List.mem_append_left _ hmem), h l hl]

theorem OnlyAfter.onlyBelow (h : mv.OnlyAfter a done t t') : mv.OnlyBelow a t t' := by
  intro l hs hd
  refine h l fun n _ => ⟨fun hsuffix => hs ?_, fun hsuffix => hd ?_⟩
  · exact (below_suffix_below.mpr (List.prefix_append a [n])).trans hsuffix
  · exact (below_suffix_below.mpr (List.prefix_append a [n])).trans hsuffix

theorem OnlyAfter.same (h : mv.OnlyAfter [] done t t') : SameBut mv.src mv.dst t t' := by
  intro l hs hd
  refine h l fun n _ => ⟨fun hsuffix => hs ?_, fun hsuffix => hd ?_⟩
  · obtain ⟨c, rfl⟩ := exists_below hsuffix
    rw [srcLoc, ← below_append]
    exact inside_below mv.src (by simp)
  · obtain ⟨c, rfl⟩ := exists_below hsuffix
    rw [dstLoc, ← below_append]
    exact inside_below mv.dst (by simp)

/-- What is not below one of the other names in the source has not changed. -/
theorem OnlyAfter.src (h : mv.OnlyAfter a done t t') (hp : ∀ n, n ∉ done → ¬ a ++ [n] <+: p) :
    t'.entry (mv.srcLoc p) = t.entry (mv.srcLoc p) :=
  h _ fun n hn => ⟨fun hs => hp n hn (below_suffix_below.mp hs), not_dst_suffix_src⟩

theorem OnlyAfter.dst (h : mv.OnlyAfter a done t t') (hp : ∀ n, n ∉ done → ¬ a ++ [n] <+: p) :
    t'.entry (mv.dstLoc p) = t.entry (mv.dstLoc p) :=
  h _ fun n hn => ⟨not_src_suffix_dst, fun hd => hp n hn (below_suffix_below.mp hd)⟩

theorem not_prefix_of_mem (hm : m ∈ done) : ∀ n, n ∉ done → ¬ a ++ [n] <+: a ++ m :: b :=
  fun _ hn => not_prefix_of_ne fun heq => hn (heq ▸ hm)

/-! ## What the walk leaves -/

/-- Regular files and symbolic links. -/
def isLeaf : Entry → Bool
  | .reg _ _ | .lnk _ => true
  | _ => false

theorem isDir_of_leaf {t : Tree} {l : Loc} {e : Entry} (h : t.entry l = some e)
    (hleaf : isLeaf e = true) : t.isDir l = false := by
  refine Tree.isDir_of_some h ?_
  rintro mode rfl
  cases hleaf

/-- The source itself is a directory, so what is none is below it. -/
theorem exists_cons_of_not_dir (h : mv.tree.isDir (mv.srcLoc p) = false) :
    ∃ n b, p = n :: b := by
  cases p with
  | nil =>
    rw [show mv.srcLoc [] = mv.src from rfl, mv.src_dir] at h
    cases h
  | cons n b => exact ⟨n, b, rfl⟩

/-- What is to be true of a file or link that the walk came to: its path, the entry, and what is
then in its place in the source and in the destination. -/
abbrev LeafPost := List Text → Entry → Option Entry → Option Entry → Prop

variable (mv) (Post : LeafPost)

/-- **What is at and below `p` is settled**. -/
structure Settled (p : List Text) (t : Tree) : Prop where
  leaf : ∀ b e, mv.tree.entry (mv.srcLoc (p ++ b)) = some e → isLeaf e = true →
    mv.Reached (p ++ b) →
      Post (p ++ b) e (t.entry (mv.srcLoc (p ++ b))) (t.entry (mv.dstLoc (p ++ b)))
  kept : ∀ b, mv.tree.isDir (mv.srcLoc (p ++ b)) = false →
    (mv.Reached (p ++ b) → ∀ e, mv.tree.entry (mv.srcLoc (p ++ b)) = some e → isLeaf e = false) →
      t.entry (mv.srcLoc (p ++ b)) = mv.tree.entry (mv.srcLoc (p ++ b))
  emptied : ∀ b, mv.tree.isDir (mv.srcLoc (p ++ b)) = true → mv.Reached (p ++ b) →
    t.Empty (mv.srcLoc (p ++ b)) → t.entry (mv.srcLoc (p ++ b)) = none

variable {mv} {Post}

/-- Being settled is about what is at and below `p` only. -/
theorem Settled.congr (h : mv.Settled Post p t)
    (hs : ∀ b, t'.entry (mv.srcLoc (p ++ b)) = t.entry (mv.srcLoc (p ++ b)))
    (hd : ∀ b, t'.entry (mv.dstLoc (p ++ b)) = t.entry (mv.dstLoc (p ++ b))) :
    mv.Settled Post p t' where
  leaf b e he hleaf hreached := by
    rw [hs, hd]
    exact h.leaf b e he hleaf hreached
  kept b hdir hnot := by
    rw [hs]
    exact h.kept b hdir hnot
  emptied b hdir hreached hempty := by
    rw [hs]
    refine h.emptied b hdir hreached ?_
    intro n
    have hn := hempty n
    rw [srcLoc, ← below_nil (l := n :: _), ← below_cons, ← below_append, List.append_assoc] at hn ⊢
    exact (hs _).symm.trans hn

/-- Nothing has come to be where nothing was. -/
theorem Settled.entry_none (h : mv.Settled Post p t)
    (hnone : mv.tree.entry (mv.srcLoc (p ++ b)) = none) : t.entry (mv.srcLoc (p ++ b)) = none := by
  refine (h.kept b (Tree.isDir_of_none hnone) ?_).trans hnone
  intro _ e he
  rw [hnone] at he
  cases he

/-- What the walk does not come to is settled while it is as it was. -/
theorem settled_of_not_reached (h : ¬ mv.Reached p)
    (hs : ∀ b, t.entry (mv.srcLoc (p ++ b)) = mv.tree.entry (mv.srcLoc (p ++ b))) :
    mv.Settled Post p t where
  leaf _ _ _ _ hreached := absurd hreached.of_append h
  kept b _ _ := hs b
  emptied _ _ hreached _ := absurd hreached.of_append h

/-! ## What stops the walk -/

/-- What is in a directory is one of its names, and what is below it is below one of these. -/
theorem mem_namesAt (hdir : mv.tree.isDir (mv.srcLoc a) = true)
    (h : mv.tree.entry (mv.srcLoc (a ++ n :: b)) ≠ none) : n ∈ mv.namesAt a := by
  refine (mv.listing a hdir).complete n ?_
  rw [srcLoc, below_append, below_cons] at h
  cases b with
  | nil => exact h
  | cons m b => exact Tree.entry_ne_none (Tree.isDir_of_below h)

/-- A directory is completed if it is passed and all that is in it is completed. -/
theorem completes_dir (hdir : mv.tree.isDir (mv.srcLoc p) = true) :
    mv.Completes p ↔ mv.Passes p ∧ ∀ n ∈ mv.namesAt p, mv.Completes (p ++ [n]) := by
  constructor
  · intro h
    constructor
    · have hp := h []
      rw [List.append_nil] at hp
      exact hp (Tree.entry_ne_none hdir)
    · intro n _ b hb
      rw [List.append_assoc] at hb ⊢
      exact h _ hb
  · rintro ⟨hp, hall⟩ b hb
    cases b with
    | nil => rwa [List.append_nil]
    | cons n b =>
      have hn := hall n (mem_namesAt hdir hb) b
      rw [List.append_assoc] at hn
      exact hn hb

/-- Anything else is completed if it is passed. -/
theorem completes_not_dir (hdir : mv.tree.isDir (mv.srcLoc p) = false)
    (hentry : mv.tree.entry (mv.srcLoc p) ≠ none) : mv.Completes p ↔ mv.Passes p := by
  constructor
  · intro h
    have hp := h []
    rw [List.append_nil] at hp
    exact hp hentry
  · intro hp b hb
    cases b with
    | nil => rwa [List.append_nil]
    | cons n b =>
      rw [srcLoc, below_append] at hb
      exact absurd (Tree.isDir_of_below hb) (by rw [← srcLoc, hdir]; exact Bool.false_ne_true)

/-- Where nothing is, nothing stops. -/
theorem completes_of_none (hentry : mv.tree.entry (mv.srcLoc p) = none) : mv.Completes p := by
  intro b hb
  cases b with
  | nil => rw [List.append_nil] at hb; exact absurd hentry hb
  | cons n b =>
    rw [srcLoc, below_append] at hb
    exact absurd hentry (Tree.entry_ne_none (Tree.isDir_of_below hb))

/-! ## Paths to the calls -/

theorem join_srcPath : join (mv.srcPath a) n = mv.srcPath (a ++ [n]) := by
  rw [srcPath, srcPath, extend_append]
  rfl

theorem join_dstPath : join (mv.dstPath a) n = mv.dstPath (a ++ [n]) := by
  rw [dstPath, dstPath, extend_append]
  rfl

theorem resolve_src {follow : Bool} {e : Entry} (hsame : SameBut mv.src mv.dst mv.tree t)
    (hentry : t.entry (mv.srcLoc (a ++ [n])) = some e)
    (hlnk : follow = false ∨ ∀ target, e ≠ .lnk target) :
    t.resolve mv.env.cwd follow (mv.srcPath (a ++ [n])) = .entry (mv.srcLoc (a ++ [n])) :=
  mv.src_denotes.entry hsame hentry hlnk

theorem resolve_dst {follow : Bool} {e : Entry} (hsame : SameBut mv.src mv.dst mv.tree t)
    (hentry : t.entry (mv.dstLoc (a ++ [n])) = some e)
    (hlnk : follow = false ∨ ∀ target, e ≠ .lnk target) :
    t.resolve mv.env.cwd follow (mv.dstPath (a ++ [n])) = .entry (mv.dstLoc (a ++ [n])) :=
  mv.dst_denotes.entry hsame hentry hlnk

theorem resolve_dst_absent {follow : Bool} (hsame : SameBut mv.src mv.dst mv.tree t)
    (hdir : t.isDir (mv.dstLoc a) = true) (hn : IsName n)
    (hnone : t.entry (mv.dstLoc (a ++ [n])) = none) :
    t.resolve mv.env.cwd follow (mv.dstPath (a ++ [n])) = .absent (mv.dstLoc a) n :=
  mv.dst_denotes.absent hsame hdir hn hnone

/-- Only `dst` itself can be missing, and then no path into it leads anywhere. -/
theorem resolve_dst_fail {follow : Bool} (hsame : SameBut mv.src mv.dst mv.tree t)
    (hdir : t.isDir mv.dst = false) (hn : IsName n) :
    t.resolve mv.env.cwd follow (mv.dstPath [n]) = .fail :=
  mv.dst_denotes.fail hsame hdir hn

/-! ## Directories -/

/-- The directory is there now, and nothing else has changed. -/
theorem mkdir_made (hready : mv.Ready s a done) (hdone : n ∉ done) (hn : IsName n)
    (hdst : mv.tree.isDir mv.dst = true)
    (hfails : mv.env.fails (.mkdir (mv.dstPath (a ++ [n]))) = false)
    (hfree : mv.tree.entry (mv.dstLoc (a ++ [n])) = none ∨
      mv.tree.isDir (mv.dstLoc (a ++ [n])) = true) :
    ∃ r s', s.mkdir mv.env (mv.dstPath (a ++ [n])) 448 = (r, s') ∧ ¬ (r.1 ≠ 0 ∧ r.2 ≠ .EEXIST) ∧
      s'.tree.isDir (mv.dstLoc (a ++ [n])) = true ∧
      ∀ l, l ≠ mv.dstLoc (a ++ [n]) → s'.tree.entry l = s.tree.entry l := by
  have hentry := hready.todo_dst n hdone []
  have hdir := hready.dst_dir.trans hdst
  unfold State.mkdir
  rw [hfails, if_neg Bool.false_ne_true]
  rcases hfree with hnone | hisdir
  · rw [resolve_dst_absent hready.same hdir hn (hentry.trans hnone)]
    obtain ⟨t', ht', hupdate⟩ := Tree.create_eq (e := .dir (mv.env.masked 448)) hdir hn
      (by rw [← dstLoc_snoc]; exact hentry.trans hnone) nofun
    rw [← dstLoc_snoc] at hupdate
    simp only [ht']
    refine ⟨_, _, rfl, fun h => h.1 rfl, ?_, ?_⟩
    · exact Tree.isDir_iff.mpr ⟨_, by rw [hupdate, Function.update_self]⟩
    · intro l hl
      show t'.entry l = _
      rw [hupdate, Function.update_of_ne hl]
  · obtain ⟨mode, hmode⟩ := Tree.isDir_iff.mp hisdir
    rw [resolve_dst hready.same (hentry.trans hmode) (.inl rfl)]
    refine ⟨_, _, rfl, fun h => h.2 rfl, ?_, fun _ _ => rfl⟩
    exact (Tree.isDir_congr hentry).trans hisdir

theorem mkdir_refused (hready : mv.Ready s a done) (hn : IsName n)
    (h : mv.tree.isDir mv.dst = false ∨ mv.env.fails (.mkdir (mv.dstPath (a ++ [n]))) = true) :
    ∃ r, s.mkdir mv.env (mv.dstPath (a ++ [n])) 448 = (r, s) ∧ r.1 ≠ 0 ∧ r.2 ≠ .EEXIST := by
  unfold State.mkdir
  cases hfails : mv.env.fails (.mkdir (mv.dstPath (a ++ [n]))) with
  | true => exact ⟨_, rfl, by decide, by decide⟩
  | false =>
    have hdst : mv.tree.isDir mv.dst = false :=
      h.resolve_right (by rw [hfails]; exact Bool.false_ne_true)
    have ha : a = [] := by
      by_contra hne
      rw [hready.inside hne] at hdst
      cases hdst
    subst ha
    rw [if_neg Bool.false_ne_true, List.nil_append,
      resolve_dst_fail hready.same (hready.dst_dir.trans hdst) hn]
    exact ⟨_, rfl, by decide, by decide⟩

/-- A path that ends with a name has no slash to strip. -/
theorem stripSlashes_join (dir : Text) (hn : IsName n) :
    State.stripSlashes (join dir n) = join dir n := by
  obtain ⟨c, cs, hc⟩ := List.exists_cons_of_ne_nil (List.reverse_ne_nil_iff.mpr hn.1)
  have hslash : c ≠ '/' := by
    rintro rfl
    exact hn.2.2.2.1 (List.mem_reverse.mp (hc ▸ List.mem_cons_self ..))
  unfold State.stripSlashes
  rw [join, List.reverse_append, List.reverse_cons, hc, List.append_assoc,
    List.cons_append, List.dropWhile_cons_of_neg (by simpa using hslash), ← List.cons_append, ← hc,
    ← List.append_assoc, ← List.reverse_cons, ← List.reverse_append, List.reverse_reverse]

theorem getLast?_join (dir : Text) (hn : IsName n) : (split (join dir n)).getLast? = some n := by
  rw [join, split_append, split_name hn.2.2.2.1, List.getLast?_concat]

/-- What `rmdir` does to an entry: nothing, or it was a directory and is gone. -/
theorem entry_rmdir (env : Env) (s : State) (path : Text) (l : Loc) :
    (s.rmdir env path).2.tree.entry l = s.tree.entry l ∨
      s.tree.isDir l = true ∧ (s.rmdir env path).2.tree.entry l = none := by
  rcases s.rmdir_cases env path with hsame | ⟨l', t', -, hrmdir, heq⟩
  · rw [hsame]
    exact .inl rfl
  · obtain ⟨hdir, -, hupdate⟩ := Tree.of_rmdir hrmdir
    rw [heq]
    show t'.entry l = _ ∨ _ ∧ t'.entry l = none
    rw [hupdate]
    by_cases hl : l = l'
    · subst hl
      exact .inr ⟨hdir, Function.update_self ..⟩
    · exact .inl (Function.update_of_ne hl ..)

/-- `rmdir` of a path that ends with the name of a directory: the directory is removed if it is
empty, and nothing else changes. -/
theorem rmdir_of_resolve (env : Env) {path : Text} {l : Loc}
    (hlast : (split (State.stripSlashes path)).getLast? = some n) (hn : IsName n)
    (hres : s.tree.resolve env.cwd false (State.stripSlashes path) = .entry l)
    (hdir : s.tree.isDir l = true) :
    ∃ r s', s.rmdir env path = (r, s') ∧ (∀ l', l' ≠ l → s'.tree.entry l' = s.tree.entry l') ∧
      (s.tree.Empty l → s'.tree.entry l = none) := by
  unfold State.rmdir
  simp only [hlast, if_pos hn, hres]
  by_cases hempty : s.tree.Empty l
  · obtain ⟨t', ht', hupdate⟩ := Tree.rmdir_eq hdir hempty
    rw [ht']
    refine ⟨_, _, rfl, ?_, ?_⟩
    · intro l' hl'
      show t'.entry l' = _
      rw [hupdate, Function.update_of_ne hl']
    · intro _
      show t'.entry _ = _
      rw [hupdate, Function.update_self]
  · have hnone : s.tree.rmdir l = none := dif_neg fun h => hempty h.2
    rw [hnone]
    exact ⟨_, _, rfl, fun _ _ => rfl, fun h => absurd h hempty⟩

/-- The directory of the source at a path is removed if it is empty. -/
theorem run_rmdir (hsame : SameBut mv.src mv.dst mv.tree s.tree) (hn : IsName n)
    (hdir : s.tree.isDir (mv.srcLoc (a ++ [n])) = true) :
    ∃ r s', s.rmdir mv.env (mv.srcPath (a ++ [n])) = (r, s') ∧
      (∀ l, l ≠ mv.srcLoc (a ++ [n]) → s'.tree.entry l = s.tree.entry l) ∧
      (s.tree.Empty (mv.srcLoc (a ++ [n])) → s'.tree.entry (mv.srcLoc (a ++ [n])) = none) := by
  obtain ⟨mode, hmode⟩ := Tree.isDir_iff.mp hdir
  refine rmdir_of_resolve mv.env (n := n) ?_ hn ?_ hdir
  · rw [← join_srcPath, stripSlashes_join _ hn, getLast?_join _ hn]
  · rw [← join_srcPath, stripSlashes_join _ hn, join_srcPath]
    exact resolve_src hsame hmode (.inl rfl)

/-! ## One entry -/

/-- The branch of the loop for a file or a link. -/
def leafProg (srcPath dstPath : Text) : Entry → Prog FileSys (Option Unit)
  | .reg data mode => moveReg srcPath dstPath ⟨.reg, mode, data.length⟩
  | _ => moveLnk srcPath dstPath

variable (mv)

/-- The walk is at the file or link `n` in the directory at `a`. -/
structure AtLeaf (s : State) (a : List Text) (n : Text) (e : Entry) : Prop where
  same : SameBut mv.src mv.dst mv.tree s.tree
  dst_dir : s.tree.isDir (mv.dstLoc a) = mv.tree.isDir mv.dst
  inside : a ≠ [] → mv.tree.isDir mv.dst = true
  entry : s.tree.entry (mv.srcLoc (a ++ [n])) = some e
  leaf : isLeaf e = true

/-- The turn of the entry `e` at `p` in the state `s`. -/
def turnAt (p : List Text) (e : Entry) (s : State) : Turn :=
  ⟨mv.srcPath p, mv.dstPath p, mv.env.statOf (mv.srcLoc p) e, s⟩

/-- **What the branches for files and links do**: one of them, run on an entry that is as it was,
over a destination entry that is as it was, in a turn that is `Good`, changes these two only and
establishes `Post`. -/
def LeafSpec (Good : Turn → Prop) (Post : LeafPost) : Prop :=
  ∀ (s : State) (a : List Text) (n : Text) (e : Entry), mv.AtLeaf s a n e →
    mv.tree.entry (mv.srcLoc (a ++ [n])) = some e →
    s.tree.entry (mv.dstLoc (a ++ [n])) = mv.tree.entry (mv.dstLoc (a ++ [n])) →
    Good (mv.turnAt (a ++ [n]) e s) →
    ∃ s', (leafProg (mv.srcPath (a ++ [n])) (mv.dstPath (a ++ [n])) e).run (State.sys mv.env) s =
        (some (), s') ∧
      (∀ l, l ≠ mv.srcLoc (a ++ [n]) → l ≠ mv.dstLoc (a ++ [n]) →
        s'.tree.entry l = s.tree.entry l) ∧
      Post (a ++ [n]) e (s'.tree.entry (mv.srcLoc (a ++ [n])))
        (s'.tree.entry (mv.dstLoc (a ++ [n])))

/-- No directory of the source meets anything but a directory in the destination. -/
def DirsMeetDirs : Prop :=
  ∀ p, p ≠ [] → mv.tree.isDir (mv.srcLoc p) = true →
    mv.tree.entry (mv.dstLoc p) = none ∨ mv.tree.isDir (mv.dstLoc p) = true

/-- What the walk of a directory inside the source does. -/
def DirSpec (Good : Turn → Prop) (Post : LeafPost) (room : Nat) : Prop :=
  ∀ (s : State) (a : List Text) (n : Text), mv.tree.isDir (mv.srcLoc (a ++ [n])) = true →
    mv.Ready s (a ++ [n]) [] → mv.Reached (a ++ [n]) →
    512 ≤ (mv.srcPath (a ++ [n])).length + room →
    (∀ τ ∈ turns mv.env room (mv.srcPath (a ++ [n])) (mv.dstPath (a ++ [n])) s, Good τ) →
    ∃ ret s', (moveDir room (mv.srcPath (a ++ [n])) (mv.dstPath (a ++ [n]))).run
        (State.sys mv.env) s = (some ret, s') ∧
      mv.OnlyBelow (a ++ [n]) s.tree s'.tree ∧ mv.Settled Post (a ++ [n]) s'.tree ∧
      (ret = 0 ↔ mv.Completes (a ++ [n])) ∧
      Once (turns mv.env room (mv.srcPath (a ++ [n])) (mv.dstPath (a ++ [n])) s)

variable {mv} {Good : Turn → Prop} {Post : LeafPost}

/-- What `lstat` says of an entry of the source. -/
theorem run_lstat {e : Entry} (hsame : SameBut mv.src mv.dst mv.tree s.tree)
    (hentry : s.tree.entry (mv.srcLoc (a ++ [n])) = some e) :
    s.stat mv.env (mv.srcPath (a ++ [n])) false =
      some (mv.env.statOf (mv.srcLoc (a ++ [n])) e) :=
  State.stat_eq (resolve_src hsame hentry (.inl rfl)) hentry

theorem fits_iff : ¬ ((mv.srcPath p).length ≥ 512 ∨ (mv.dstPath p).length ≥ 512) ↔
    (mv.srcPath p).length < 512 ∧ (mv.dstPath p).length < 512 := by
  omega

/-- Nothing is below what is no directory. -/
theorem entry_below_none (hdir : mv.tree.isDir (mv.srcLoc p) = false) (hb : b ≠ []) :
    mv.tree.entry (mv.srcLoc (p ++ b)) = none := by
  obtain ⟨m, b, rfl⟩ := List.exists_cons_of_ne_nil hb
  by_contra hne
  rw [srcLoc, below_append] at hne
  have := Tree.isDir_of_below hne
  rw [← srcLoc, hdir] at this
  cases this

/-- A file or link that the walk came to is settled by `Post`. -/
theorem settled_leaf {e : Entry} (hentry : mv.tree.entry (mv.srcLoc p) = some e)
    (hleaf : isLeaf e = true) (hreached : mv.Reached p)
    (hpost : Post p e (t.entry (mv.srcLoc p)) (t.entry (mv.dstLoc p)))
    (hkept : ∀ b, b ≠ [] → t.entry (mv.srcLoc (p ++ b)) = mv.tree.entry (mv.srcLoc (p ++ b))) :
    mv.Settled Post p t := by
  have hdir : mv.tree.isDir (mv.srcLoc p) = false := isDir_of_leaf hentry hleaf
  refine ⟨?_, ?_, ?_⟩
  · intro b e' he' hleaf' _
    by_cases hb : b = []
    · subst hb
      rw [List.append_nil] at he' ⊢
      rw [hentry] at he'
      cases he'
      exact hpost
    · rw [entry_below_none hdir hb] at he'
      cases he'
  · intro b _ hnot
    by_cases hb : b = []
    · subst hb
      rw [List.append_nil] at hnot
      rw [hnot hreached e hentry] at hleaf
      cases hleaf
    · exact hkept b hb
  · intro b hdir' _ _
    by_cases hb : b = []
    · subst hb
      rw [List.append_nil, hdir] at hdir'
      cases hdir'
    · exact absurd (entry_below_none hdir hb) (Tree.entry_ne_none hdir')

/-- Anything else that is no directory, or nothing, is settled while it is as it was. -/
theorem settled_other (hdir : mv.tree.isDir (mv.srcLoc p) = false)
    (hleaf : ∀ e, mv.tree.entry (mv.srcLoc p) = some e → isLeaf e = false)
    (hkept : ∀ b, t.entry (mv.srcLoc (p ++ b)) = mv.tree.entry (mv.srcLoc (p ++ b))) :
    mv.Settled Post p t := by
  refine ⟨?_, fun b _ _ => hkept b, ?_⟩
  · intro b e he hleaf' _
    by_cases hb : b = []
    · subst hb
      rw [List.append_nil] at he
      rw [hleaf e he] at hleaf'
      cases hleaf'
    · rw [entry_below_none hdir hb] at he
      cases he
  · intro b hdir' _ _
    by_cases hb : b = []
    · subst hb
      rw [List.append_nil, hdir] at hdir'
      cases hdir'
    · exact absurd (entry_below_none hdir hb) (Tree.entry_ne_none hdir')

/-- A name to go leads to what it did before. -/
theorem Ready.kept (h : mv.Ready s a done) (hn : n ∉ done) (b : List Text) :
    s.tree.entry (mv.srcLoc (a ++ [n] ++ b)) = mv.tree.entry (mv.srcLoc (a ++ [n] ++ b)) := by
  rw [List.append_assoc, List.singleton_append]
  exact h.todo_src n hn b

/-- The branches for files and links, at a name that the walk comes to. -/
theorem run_leaf {e : Entry} (hleaf : mv.LeafSpec Good Post) (hready : mv.Ready s a done)
    (hn : n ∉ done) (hreached : mv.Reached (a ++ [n]))
    (hentry : mv.tree.entry (mv.srcLoc (a ++ [n])) = some e) (he : isLeaf e = true)
    (hgood : Good (mv.turnAt (a ++ [n]) e s)) :
    ∃ s', (leafProg (mv.srcPath (a ++ [n])) (mv.dstPath (a ++ [n])) e).run (State.sys mv.env) s =
        (some (), s') ∧
      mv.OnlyBelow (a ++ [n]) s.tree s'.tree ∧ mv.Settled Post (a ++ [n]) s'.tree := by
  obtain ⟨s', hrun, hframe, hpost⟩ := hleaf s a n e ⟨hready.same, hready.dst_dir, hready.inside,
    (hready.todo_src n hn []).trans hentry, he⟩ hentry (hready.todo_dst n hn []) hgood
  refine ⟨s', hrun, ?_, ?_⟩
  · intro l hs hd
    refine hframe l ?_ ?_
    · rintro rfl
      exact hs (List.suffix_refl _)
    · rintro rfl
      exact hd (List.suffix_refl _)
  · refine settled_leaf hentry he hreached hpost ?_
    intro b hb
    rw [hframe _ ?_ src_ne_dst]
    · exact hready.kept hn b
    · intro heq
      have hnil := below_inj (heq.trans (by rw [List.append_nil] : mv.srcLoc (a ++ [n]) =
        mv.srcLoc (a ++ [n] ++ [])))
      exact hb (List.append_cancel_left hnil)

/-- Once the directory `n` is there, the walk is ready for what is inside it. -/
theorem Ready.subdir (hready : mv.Ready s a done) (hn : n ∉ done)
    (hdir : mv.tree.isDir (mv.srcLoc (a ++ [n])) = true) (hdst : mv.tree.isDir mv.dst = true)
    (hmade : s'.tree.isDir (mv.dstLoc (a ++ [n])) = true)
    (hframe : ∀ l, l ≠ mv.dstLoc (a ++ [n]) → s'.tree.entry l = s.tree.entry l) :
    mv.Ready s' (a ++ [n]) [] where
  same l hs hd := by
    rw [hframe l]
    · exact hready.same l hs hd
    · rintro rfl
      exact hd (inside_below mv.dst (by simp))
  src_dir := by
    refine (Tree.isDir_congr ?_).trans hdir
    rw [hframe _ src_ne_dst]
    exact hready.todo_src n hn []
  dst_dir := hmade.trans hdst.symm
  inside _ := hdst
  todo_src m _ b := by
    rw [hframe _ src_ne_dst]
    exact hready.kept hn (m :: b)
  todo_dst m _ b := by
    have hne : mv.dstLoc (a ++ [n] ++ m :: b) ≠ mv.dstLoc (a ++ [n]) := by
      intro heq
      exact absurd (congrArg List.length (below_inj heq)) (by simp)
    rw [hframe _ hne, List.append_assoc, List.singleton_append]
    exact hready.todo_dst n hn (m :: b)

/-- The branch for directories, at a name that the walk comes to: the directory is made, and then
everything inside it moves. -/
theorem run_subdir {room : Nat} (hdirs : mv.DirsMeetDirs) (hrec : mv.DirSpec Good Post room)
    (hready : mv.Ready s a done) (hn : n ∉ done) (hreached : mv.Reached (a ++ [n]))
    (hdir : mv.tree.isDir (mv.srcLoc (a ++ [n])) = true)
    (hroom : 512 ≤ (mv.srcPath (a ++ [n])).length + room)
    (hall : ∀ r s₁, s.mkdir mv.env (mv.dstPath (a ++ [n])) 448 = (r, s₁) →
      ¬ (r.1 ≠ 0 ∧ r.2 ≠ .EEXIST) →
      ∀ τ ∈ turns mv.env room (mv.srcPath (a ++ [n])) (mv.dstPath (a ++ [n])) s₁, Good τ) :
    ∃ r s₁ ret s', s.mkdir mv.env (mv.dstPath (a ++ [n])) 448 = (r, s₁) ∧
      ¬ (r.1 ≠ 0 ∧ r.2 ≠ .EEXIST) ∧
      (moveDir room (mv.srcPath (a ++ [n])) (mv.dstPath (a ++ [n]))).run (State.sys mv.env) s₁ =
        (some ret, s') ∧
      mv.OnlyBelow (a ++ [n]) s.tree s'.tree ∧ mv.Settled Post (a ++ [n]) s'.tree ∧
      (ret = 0 ↔ mv.Completes (a ++ [n])) ∧
      Once (turns mv.env room (mv.srcPath (a ++ [n])) (mv.dstPath (a ++ [n])) s₁) := by
  obtain ⟨hdst, hfails⟩ := (reached_snoc.mp hreached).2.1.made hdir
  have hname : IsName n := mv.tree.names n (mv.srcLoc a) (srcLoc_snoc ▸ Tree.entry_ne_none hdir)
  obtain ⟨r, s₁, hmkdir, hr, hmade, hframe⟩ :=
    mkdir_made hready hn hname hdst hfails (hdirs _ (by simp) hdir)
  have honly : mv.OnlyBelow (a ++ [n]) s.tree s₁.tree := by
    intro l _ hd
    refine hframe l ?_
    rintro rfl
    exact hd (List.suffix_refl _)
  obtain ⟨ret, s', hrun, honly', hsettled, hret⟩ :=
    hrec s₁ a n hdir (hready.subdir hn hdir hdst hmade hframe) hreached hroom (hall r s₁ hmkdir hr)
  exact ⟨r, s₁, ret, s', hmkdir, hr, hrun, honly.trans honly', hsettled, hret⟩

/-- The branch of the loop for a directory. -/
def dirProg (room : Nat) (srcPath dstPath : Text) : Prog FileSys (Option Bool) :=
  .call (.mkdir dstPath 448) fun (r : Int × Errno) =>
  if r.1 ≠ 0 ∧ r.2 ≠ .EEXIST then .ret (some false)
  else (moveDir room srcPath dstPath).bind fun r => .ret (r.map fun ret => ret = 0)

/-- The turns inside a directory, if it can be made. -/
def dirTurns (env : Env) (room : Nat) (srcPath dstPath : Text) (s : State) : List Turn :=
  let made := s.mkdir env dstPath 448
  if made.1.1 ≠ 0 ∧ made.1.2 ≠ .EEXIST then [] else turns env room srcPath dstPath made.2

/-- A directory has one turn and those inside it others, as their paths are longer. -/
theorem once_turnAt {room : Nat} {e : Entry} {s₁ : State}
    (h : Once (turns mv.env room (mv.srcPath p) (mv.dstPath p) s₁)) :
    Once (mv.turnAt p e s :: turns mv.env room (mv.srcPath p) (mv.dstPath p) s₁) := by
  refine List.nodup_cons.mpr ⟨fun hmem => ?_, h⟩
  obtain ⟨τ, hτ, hsame⟩ := List.mem_map.mp hmem
  replace hsame : τ.src = mv.srcPath p := hsame
  obtain ⟨m, b, heq⟩ := src_of_mem_turns room _ _ _ τ hτ
  have hlonger := length_extend (mv.srcPath p) (m :: b)
  rw [← heq, hsame, List.length_cons] at hlonger
  omega

theorem once_single (τ : Turn) : Once [τ] := List.nodup_cons.mpr ⟨List.not_mem_nil, List.nodup_nil⟩

/-- The branch for directories: what is inside is moved if the directory can be made, and the loop
ends otherwise. -/
theorem run_dirProg {room mode : Nat} (hdirs : mv.DirsMeetDirs) (hrec : mv.DirSpec Good Post room)
    (hready : mv.Ready s a done) (hn : n ∉ done) (ha : mv.Reached a)
    (hbefore : ∀ m, Before (mv.namesAt a) m n → mv.Completes (a ++ [m]))
    (hfits : (mv.srcPath (a ++ [n])).length < 512 ∧ (mv.dstPath (a ++ [n])).length < 512)
    (he : mv.tree.entry (mv.srcLoc (a ++ [n])) = some (.dir mode))
    (hroom : 512 ≤ (mv.srcPath a).length + (room + 1))
    (hall : ∀ τ ∈ dirTurns mv.env room (mv.srcPath (a ++ [n])) (mv.dstPath (a ++ [n])) s,
      Good τ) :
    ∃ go s', (dirProg room (mv.srcPath (a ++ [n])) (mv.dstPath (a ++ [n]))).run
        (State.sys mv.env) s = (some go, s') ∧
      mv.OnlyBelow (a ++ [n]) s.tree s'.tree ∧ mv.Settled Post (a ++ [n]) s'.tree ∧
      (go = true ↔ mv.Completes (a ++ [n])) ∧
      Once (mv.turnAt (a ++ [n]) (.dir mode) s ::
        dirTurns mv.env room (mv.srcPath (a ++ [n])) (mv.dstPath (a ++ [n])) s) := by
  have hdir : mv.tree.isDir (mv.srcLoc (a ++ [n])) = true := Tree.isDir_iff.mpr ⟨mode, he⟩
  unfold dirTurns at hall ⊢
  by_cases hmade : mv.tree.isDir mv.dst = true ∧
      mv.env.fails (.mkdir (mv.dstPath (a ++ [n]))) = false
  · have hreached : mv.Reached (a ++ [n]) :=
      reached_snoc.mpr ⟨ha, ⟨hfits.1, hfits.2, fun _ => hmade⟩, hbefore⟩
    have hlonger := length_extend (mv.srcPath a) [n]
    rw [List.length_singleton, srcPath, ← extend_append, ← srcPath, ← srcPath] at hlonger
    obtain ⟨r, s₁, ret, s', hmkdir, hr, hrun, honly, hsettled, hret, honce⟩ :=
      run_subdir hdirs hrec hready hn hreached hdir (by omega) (by
        intro r s₁ hmkdir hr τ hτ
        refine hall τ ?_
        simp only [hmkdir, if_neg hr]
        exact hτ)
    refine ⟨decide (ret = 0), s', ?_, honly, hsettled, ?_, ?_⟩
    · simp only [dirProg, Prog.run_call, State.sys, hmkdir, if_neg hr, Prog.run_bind, hrun]
      rfl
    · rw [decide_eq_true_eq]
      exact hret
    · simp only [hmkdir, if_neg hr]
      exact once_turnAt honce
  · have hname : IsName n :=
      mv.tree.names n (mv.srcLoc a) (srcLoc_snoc ▸ Tree.entry_ne_none hdir)
    have hor : mv.tree.isDir mv.dst = false ∨
        mv.env.fails (.mkdir (mv.dstPath (a ++ [n]))) = true := by
      rcases Bool.eq_false_or_eq_true (mv.tree.isDir mv.dst) with h | h
      · exact .inr (Bool.not_eq_false _ ▸ fun hf => hmade ⟨h, hf⟩)
      · exact .inl h
    obtain ⟨r, hmkdir, hr⟩ := mkdir_refused hready hname hor
    have hnot : ¬ mv.Passes (a ++ [n]) := fun h => hmade (h.made hdir)
    refine ⟨false, s, ?_, .refl, ?_, iff_of_false Bool.false_ne_true ?_, ?_⟩
    · simp only [dirProg, Prog.run_call, State.sys, hmkdir, if_pos hr]
      rfl
    · exact settled_of_not_reached (fun h => hnot (reached_snoc.mp h).2.1) (hready.kept hn)
    · intro h
      exact hnot ((completes_dir hdir).mp h).1
    · simp only [hmkdir, if_pos hr]
      exact once_single _

/-- **One name of the loop**: what it leads to is settled, and the loop goes on if this
completes. -/
theorem run_moveEntry {room : Nat} (hleaf : mv.LeafSpec Good Post) (hdirs : mv.DirsMeetDirs)
    (hrec : mv.DirSpec Good Post room) (hready : mv.Ready s a done) (hn : n ∉ done)
    (hmem : mv.tree.entry (n :: mv.srcLoc a) ≠ none ∨ n = ['.'] ∨ n = ['.', '.'])
    (ha : mv.Reached a) (hbefore : ∀ m, Before (mv.namesAt a) m n → mv.Completes (a ++ [m]))
    (hroom : 512 ≤ (mv.srcPath a).length + (room + 1))
    (hall : ∀ τ ∈ entryTurns mv.env (turns mv.env room) (mv.srcPath a) (mv.dstPath a) n s,
      Good τ) :
    ∃ go s', (moveEntry (moveDir room) (mv.srcPath a) (mv.dstPath a) n).run (State.sys mv.env) s =
        (some go, s') ∧
      mv.OnlyBelow (a ++ [n]) s.tree s'.tree ∧ mv.Settled Post (a ++ [n]) s'.tree ∧
      (go = true ↔ mv.Completes (a ++ [n])) ∧
      Once (entryTurns mv.env (turns mv.env room) (mv.srcPath a) (mv.dstPath a) n s) := by
  have hkept := hready.kept hn
  unfold moveEntry
  unfold entryTurns at hall ⊢
  by_cases hdot : n = ['.'] ∨ n = ['.', '.']
  · -- no entry has such a name
    have hnone : mv.tree.entry (mv.srcLoc (a ++ [n])) = none := by
      by_contra hne
      have hname := mv.tree.names n (mv.srcLoc a) (srcLoc_snoc ▸ hne)
      rcases hdot with h | h
      · exact hname.2.1 h
      · exact hname.2.2.1 h
    simp only [if_pos hdot]
    refine ⟨true, s, rfl, .refl, ?_, iff_of_true rfl (completes_of_none hnone), List.nodup_nil⟩
    refine settled_other (Tree.isDir_of_none hnone) ?_ hkept
    intro e he
    rw [hnone] at he
    cases he
  · have hentry : mv.tree.entry (mv.srcLoc (a ++ [n])) ≠ none := by
      rw [srcLoc_snoc]
      exact hmem.resolve_right hdot
    simp only [if_neg hdot] at hall ⊢
    rw [join_srcPath, join_dstPath] at hall ⊢
    by_cases hfits : (mv.srcPath (a ++ [n])).length ≥ 512 ∨ (mv.dstPath (a ++ [n])).length ≥ 512
    · -- the paths do not fit
      simp only [if_pos hfits]
      -- so the loop ends, and nothing at or below this name is come to
      have hnot : ¬ mv.Passes (a ++ [n]) := fun h => fits_iff.mpr ⟨h.src_fits, h.dst_fits⟩ hfits
      refine ⟨false, s, rfl, .refl, ?_, iff_of_false Bool.false_ne_true ?_, List.nodup_nil⟩
      · exact settled_of_not_reached (fun h => hnot (reached_snoc.mp h).2.1) hkept
      · intro h
        have hp := h []
        rw [List.append_nil] at hp
        exact hnot (hp hentry)
    · obtain ⟨hs, hd⟩ := fits_iff.mp hfits
      obtain ⟨e, he⟩ := Option.ne_none_iff_exists'.mp hentry
      have hlstat := run_lstat hready.same ((hready.todo_src n hn []).trans he)
      simp only [if_neg hfits, hlstat] at hall
      simp only [if_neg hfits, Prog.run_call, State.sys, hlstat]
      have hgood : Good (mv.turnAt (a ++ [n]) e s) := hall _ (List.mem_cons_self ..)
      -- an entry that is no directory is passed if its paths fit
      have hpasses : mv.tree.isDir (mv.srcLoc (a ++ [n])) = false →
          mv.Reached (a ++ [n]) ∧ mv.Completes (a ++ [n]) := by
        intro hdir
        have hp : mv.Passes (a ++ [n]) := ⟨hs, hd, fun h => by rw [hdir] at h; cases h⟩
        exact ⟨reached_snoc.mpr ⟨ha, hp, hbefore⟩, (completes_not_dir hdir hentry).mpr hp⟩
      cases e with
      | reg | lnk =>
        obtain ⟨hreached, hcomp⟩ := hpasses (isDir_of_leaf he rfl)
        obtain ⟨s', hrun, honly, hsettled⟩ := run_leaf hleaf hready hn hreached he rfl hgood
        refine ⟨true, s', ?_, honly, hsettled, iff_of_true rfl hcomp, once_single _⟩
        simp only [Env.statOf, Prog.run_bind, leafProg] at hrun ⊢
        rw [hrun]
        rfl
      | other mode =>
        have hdir : mv.tree.isDir (mv.srcLoc (a ++ [n])) = false :=
          Tree.isDir_of_some he (fun _ h => by cases h)
        refine ⟨true, s, rfl, .refl, ?_, iff_of_true rfl (hpasses hdir).2, once_single _⟩
        refine settled_other hdir ?_ hkept
        intro e' he'
        rw [he] at he'
        cases he'
        rfl
      | dir mode =>
        exact run_dirProg hdirs hrec hready hn ha hbefore ⟨hs, hd⟩ he hroom
          fun τ hτ => hall τ (List.mem_cons_of_mem _ hτ)

/-! ## The loop and the recursion -/

/-- A name is before all others that are not before it. -/
theorem before_of_not_mem (hm : m ∉ done) (hne : m ≠ n) : Before (done ++ n :: names) n m := by
  have hall : ∀ x ∈ done, decide (x ≠ m) = true :=
    fun x hx => decide_eq_true (fun heq => hm (heq ▸ hx))
  unfold Before
  rw [List.takeWhile_append_of_pos hall,
    List.takeWhile_cons_of_pos (by simpa using Ne.symm hne)]
  exact List.mem_append_right _ (List.mem_cons_self ..)

/-- The next name that `readdir` yields, when those before it are complete. -/
theorem next_name (hdir : mv.tree.isDir (mv.srcLoc a) = true)
    (hnames : mv.namesAt a = done ++ n :: names) (hdone : ∀ m ∈ done, mv.Completes (a ++ [m])) :
    n ∉ done ∧ (∀ m, Before (mv.namesAt a) m n → mv.Completes (a ++ [m])) ∧
      (mv.tree.entry (n :: mv.srcLoc a) ≠ none ∨ n = ['.'] ∨ n = ['.', '.']) := by
  have hlisting := mv.listing a hdir
  have hnodup : (done ++ n :: names).Nodup := hnames ▸ hlisting.nodup
  have hn : n ∉ done := fun h =>
    (List.nodup_append.mp hnodup).2.2 n h n (List.mem_cons_self ..) rfl
  refine ⟨hn, fun m hm => ?_, hlisting.only n ?_⟩
  · rw [hnames, before_iff hn] at hm
    exact hdone m hm
  · show n ∈ mv.namesAt a
    rw [hnames]
    exact List.mem_append_right done (List.mem_cons_self ..)

/-- The turns of a name come once, and so do those of the names behind it. -/
theorem once_append {room : Nat} {s₁ : State} (hdir : mv.tree.isDir (mv.srcLoc a) = true)
    (hnames : mv.namesAt a = done ++ n :: names)
    (h : Once (entryTurns mv.env (turns mv.env room) (mv.srcPath a) (mv.dstPath a) n s))
    (h' : Once (namesTurns mv.env room (turns mv.env room) (mv.srcPath a) (mv.dstPath a) names
      s₁)) :
    Once (entryTurns mv.env (turns mv.env room) (mv.srcPath a) (mv.dstPath a) n s ++
      namesTurns mv.env room (turns mv.env room) (mv.srcPath a) (mv.dstPath a) names s₁) := by
  have hlisting := mv.listing a hdir
  have hall : (done ++ n :: names).Nodup := hnames ▸ hlisting.nodup
  have hnodup := (List.nodup_append.mp hall).2.1
  have hslash : ∀ m ∈ n :: names, ¬ (m = ['.'] ∨ m = ['.', '.']) → '/' ∉ m := by
    intro m hm hdot
    have hmem : m ∈ mv.namesAt a := by
      rw [hnames]
      exact List.mem_append_right done hm
    exact (mv.tree.names m _ ((hlisting.only m hmem).resolve_right hdot)).2.2.2.1
  unfold Once
  rw [List.map_append]
  refine List.nodup_append.mpr ⟨h, h', ?_⟩
  intro src hsrc src' hsrc' heq
  obtain ⟨τ, hτ, rfl⟩ := List.mem_map.mp hsrc
  obtain ⟨τ', hτ', rfl⟩ := List.mem_map.mp hsrc'
  obtain ⟨hdot, b, hb⟩ := src_of_mem_entryTurns (src_of_mem_turns room) hτ
  obtain ⟨m, hm, hdot', b', hb'⟩ := src_of_mem_namesTurns (src_of_mem_turns room) hτ'
  rw [hb, hb'] at heq
  have hmn := extend_join_inj (hslash n (List.mem_cons_self ..) hdot)
    (hslash m (List.mem_cons_of_mem _ hm) hdot') heq
  subst hmn
  exact (List.nodup_cons.mp hnodup).1 hm

/-- **The loop**, from the name on that `readdir` yields after those in `done`. -/
theorem run_moveEntries (a done : List Text) {room : Nat} (hleaf : mv.LeafSpec Good Post)
    (hdirs : mv.DirsMeetDirs) (hrec : mv.DirSpec Good Post room)
    (hdir : mv.tree.isDir (mv.srcLoc a) = true) (ha : mv.Reached a)
    (hroom : 512 ≤ (mv.srcPath a).length + (room + 1)) (hnames : mv.namesAt a = done ++ names)
    (hready : mv.Ready s a done) (hdone : ∀ m ∈ done, mv.Completes (a ++ [m]))
    (hall : ∀ τ ∈ namesTurns mv.env room (turns mv.env room) (mv.srcPath a) (mv.dstPath a) names s,
      Good τ) :
    ∃ ret s', (moveEntries (moveDir room) (mv.srcPath a) (mv.dstPath a) names).run
        (State.sys mv.env) s = (some ret, s') ∧
      mv.OnlyAfter a done s.tree s'.tree ∧
      (∀ n, n ∉ done → mv.Settled Post (a ++ [n]) s'.tree) ∧
      (ret = 0 ↔ ∀ n ∈ names, mv.Completes (a ++ [n])) ∧
      Once (namesTurns mv.env room (turns mv.env room) (mv.srcPath a) (mv.dstPath a) names s) := by
  induction names generalizing s done with
  | nil =>
    refine ⟨0, s, rfl, fun _ _ => rfl, ?_, iff_of_true rfl nofun, List.nodup_nil⟩
    intro n hn
    -- no other name leads to anything
    have hnone : mv.tree.entry (mv.srcLoc (a ++ [n])) = none := by
      by_contra hne
      have hmem := mem_namesAt hdir hne
      rw [hnames, List.append_nil] at hmem
      exact hn hmem
    refine settled_other (Tree.isDir_of_none hnone) ?_ (hready.kept hn)
    intro e he
    rw [hnone] at he
    cases he
  | cons n names ih =>
    -- the loop has come this far, so the names before this one are complete
    obtain ⟨hn, hbefore, hmem⟩ := next_name hdir hnames hdone
    unfold namesTurns at hall ⊢
    obtain ⟨go, s₁, hrun, honly, hsettled, hgo, honce⟩ := run_moveEntry hleaf hdirs hrec hready hn
      hmem ha hbefore hroom fun τ hτ => hall τ (List.mem_append_left _ hτ)
    rw [hrun] at hall ⊢
    cases go with
    | false =>
      -- the loop ends here, so nothing later is come to
      have hnot : ¬ mv.Completes (a ++ [n]) := fun h => Bool.false_ne_true (hgo.mpr h)
      refine ⟨-1, s₁, ?_, honly.onlyAfter hn, ?_, iff_of_false (by decide) ?_, ?_⟩
      · simp only [moveEntries, Prog.run_bind, hrun]
        rfl
      · intro m hm
        by_cases hmn : m = n
        · exact hmn ▸ hsettled
        · refine settled_of_not_reached (fun h => hnot ?_) ?_
          · exact (reached_snoc.mp h).2.2 n (hnames ▸ before_of_not_mem hm hmn)
          · intro b
            rw [List.append_assoc, List.singleton_append,
              honly.src (not_prefix_of_ne (Ne.symm hmn))]
            exact hready.todo_src m hm b
      · exact fun h => hnot (h n (List.mem_cons_self ..))
      · rw [List.append_nil]
        exact honce
    | true =>
      have hcomp : mv.Completes (a ++ [n]) := hgo.mp rfl
      obtain ⟨ret, s', hrun', hafter, hsettled', hret, honce'⟩ :=
        ih (done ++ [n]) (by rw [hnames, List.append_assoc, List.singleton_append])
          (hready.next honly)
          (List.forall_mem_append.mpr ⟨hdone, List.forall_mem_singleton.mpr hcomp⟩)
          fun τ hτ => hall τ (List.mem_append_right _ hτ)
      refine ⟨ret, s', ?_, (honly.onlyAfter hn).trans hafter, ?_, hret.trans ?_,
        once_append hdir hnames honce honce'⟩
      · simp only [moveEntries, Prog.run_bind, hrun]
        exact hrun'
      · intro m hm
        by_cases hmn : m = n
        -- what the later names do leaves this one alone
        · subst hmn
          have hlast : m ∈ done ++ [m] := List.mem_append_right _ (List.mem_singleton_self m)
          refine hsettled.congr ?_ ?_
          · intro b
            rw [List.append_assoc, List.singleton_append]
            exact hafter.src (not_prefix_of_mem hlast)
          · intro b
            rw [List.append_assoc, List.singleton_append]
            exact hafter.dst (not_prefix_of_mem hlast)
        · refine hsettled' m ?_
          rw [List.mem_append, List.mem_singleton]
          exact fun h => h.elim hm hmn
      · rw [List.forall_mem_cons]
        exact (and_iff_right hcomp).symm

/-- A directory is settled if all that is in it is, and it is gone when empty. -/
theorem settled_dir (hdir : mv.tree.isDir (mv.srcLoc p) = true)
    (hall : ∀ n, mv.Settled Post (p ++ [n]) t)
    (hempty : t.Empty (mv.srcLoc p) → t.entry (mv.srcLoc p) = none) : mv.Settled Post p t := by
  refine ⟨?_, ?_, ?_⟩
  · intro b e he hleaf hreached
    cases b with
    | nil =>
      rw [List.append_nil] at he
      obtain ⟨mode, hmode⟩ := Tree.isDir_iff.mp hdir
      rw [hmode] at he
      cases he
      cases hleaf
    | cons n b =>
      have h := (hall n).leaf b e
      rw [List.append_assoc, List.singleton_append] at h
      exact h he hleaf hreached
  · intro b hdir' hnot
    cases b with
    | nil =>
      rw [List.append_nil, hdir] at hdir'
      cases hdir'
    | cons n b =>
      have h := (hall n).kept b
      rw [List.append_assoc, List.singleton_append] at h
      exact h hdir' hnot
  · intro b hdir' hreached hb
    cases b with
    | nil =>
      rw [List.append_nil] at hb ⊢
      exact hempty hb
    | cons n b =>
      have h := (hall n).emptied b
      rw [List.append_assoc, List.singleton_append] at h
      exact h hdir' hreached hb

/-- **Every directory inside the source** is walked as `DirSpec` says: by induction on the room. -/
theorem dirSpec (hleaf : mv.LeafSpec Good Post) (hdirs : mv.DirsMeetDirs) (room : Nat) :
    mv.DirSpec Good Post room := by
  induction room with
  | zero =>
    intro s a n _ _ hreached hroom _
    -- a path so long is not come to
    have hfits := (reached_snoc.mp hreached).2.1.src_fits
    omega
  | succ room ih =>
    intro s a n hdir hready hreached hroom hall
    have hname : IsName n := mv.tree.names n (mv.srcLoc a) (srcLoc_snoc ▸ Tree.entry_ne_none hdir)
    obtain ⟨mode, hmode⟩ := Tree.isDir_iff.mp hready.src_dir
    have hopen : s.tree.resolve mv.env.cwd true (mv.srcPath (a ++ [n])) =
        .entry (mv.srcLoc (a ++ [n])) := resolve_src hready.same hmode (.inr (by nofun))
    simp only [turns, hopen, if_pos hready.src_dir] at hall ⊢
    obtain ⟨ret, s₁, hrun, hafter, hsettled, hret, honce⟩ :=
      run_moveEntries (a ++ [n]) [] hleaf hdirs ih hdir hreached hroom rfl hready nofun hall
    -- the directory is still there when `rmdir` is called
    have honly := hafter.onlyBelow
    have hsame : SameBut mv.src mv.dst mv.tree s₁.tree := fun l hs hd =>
      (honly.same (by simp) l hs hd).trans (hready.same l hs hd)
    have hdir₁ : s₁.tree.isDir (mv.srcLoc (a ++ [n])) = true :=
      (Tree.isDir_congr (hafter.src fun m _ => not_prefix_self)).trans hready.src_dir
    obtain ⟨r, s', hrmdir, hframe, hgone⟩ := run_rmdir hsame hname hdir₁
    refine ⟨ret, s', ?_, ?_, ?_, ?_, honce⟩
    · have hrun' : (moveEntries (moveDir room) (mv.srcPath (a ++ [n])) (mv.dstPath (a ++ [n]))
          (mv.env.readdir (mv.srcPath (a ++ [n])))).run (State.sys mv.env) s = (some ret, s₁) :=
        hrun
      simp only [moveDir, Prog.run_call, State.sys, hopen, if_pos hready.src_dir, Prog.run_bind,
        hrun', hrmdir, Prog.run_ret]
    · intro l hs hd
      rw [hframe l (fun h => hs (h ▸ List.suffix_refl _))]
      exact honly l hs hd
    · refine settled_dir hdir ?_ ?_
      · intro m
        refine (hsettled m nofun).congr ?_ ?_
        · intro b
          refine hframe _ fun heq => ?_
          exact absurd (congrArg List.length (below_inj heq)) (by simp)
        · exact fun b => hframe _ (Ne.symm src_ne_dst)
      · intro hempty
        -- `rmdir` has removed it if nothing was left in it
        refine hgone fun m => ?_
        exact (hframe _ (List.cons_ne_self _ _)).symm.trans (hempty m)
    · rw [completes_dir hdir]
      exact hret.trans (and_iff_right (reached_snoc.mp hreached).2.1).symm

/-- At the start the walk is ready for all names. -/
theorem ready_start (hs : s.tree = mv.tree) : mv.Ready s [] [] where
  same _ _ _ := by rw [hs]
  src_dir := by
    rw [hs]
    exact mv.src_dir
  dst_dir := by
    rw [hs]
    rfl
  inside h := absurd rfl h
  todo_src _ _ _ := by rw [hs]
  todo_dst _ _ _ := by rw [hs]

/-- **The whole walk**: everything below the source directory is settled before this directory
itself is removed if it is empty; the result is 0 exactly if nothing stopped the walk. -/
theorem run_move_dir (hleaf : mv.LeafSpec Good Post) (hdirs : mv.DirsMeetDirs)
    (hs : s.tree = mv.tree)
    (hall : ∀ τ ∈ turns mv.env 512 mv.srcDir mv.dstDir s, Good τ) :
    ∃ ret, ∃ s' : State, (move_dir (some mv.srcDir) (some mv.dstDir)).run (State.sys mv.env) s =
        (some ret, (s'.rmdir mv.env mv.srcDir).2) ∧
      mv.OnlyAfter [] [] mv.tree s'.tree ∧ (∀ n, mv.Settled Post [n] s'.tree) ∧
      (ret = 0 ↔ ∀ n ∈ mv.namesAt [], mv.Completes [n]) ∧
      Once (turns mv.env 512 mv.srcDir mv.dstDir s) := by
  have hopen : s.tree.resolve mv.env.cwd true mv.srcDir = .entry mv.src := hs ▸ mv.opens
  have hdir : s.tree.isDir mv.src = true := hs ▸ mv.src_dir
  have hturns : turns mv.env 512 mv.srcDir mv.dstDir s = namesTurns mv.env 511 (turns mv.env 511)
      mv.srcDir mv.dstDir (mv.env.readdir mv.srcDir) s := by
    rw [show (512 : Nat) = 511 + 1 from rfl, turns]
    simp only [hopen, if_pos hdir]
  rw [hturns] at hall ⊢
  obtain ⟨ret, s', hrun, hafter, hsettled, hret, honce⟩ := run_moveEntries [] [] hleaf hdirs
    (dirSpec hleaf hdirs 511) mv.src_dir mv.reached_nil (by omega) rfl (ready_start hs) nofun hall
  refine ⟨ret, s', ?_, hs ▸ hafter, fun n => hsettled n nofun, hret, honce⟩
  have hrun' : (moveEntries (moveDir 511) mv.srcDir mv.dstDir (mv.env.readdir mv.srcDir)).run
      (State.sys mv.env) s = (some ret, s') := hrun
  show (moveDir (511 + 1) mv.srcDir mv.dstDir).run _ _ = _
  rw [moveDir]
  simp only [Prog.run_call, State.sys, hopen, if_pos hdir, Prog.run_bind, hrun', Prog.run_ret]

end Move

end EngineerLinux.MoveDir
