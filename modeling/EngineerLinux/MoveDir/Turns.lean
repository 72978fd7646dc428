import EngineerLinux.Lib.PathPrefix
import EngineerLinux.MoveDir.Leaf

/-!
# The walk of `move_dir`, turn by turn

For trees in which source and destination may be anywhere, one inside the other or the same, and
reached through links: what the walk does is what its turns do, one after another.

Here nothing is known beforehand of which entries the walk comes to, as a turn may change what the
paths of the walk lead to. So the turns are those of the run itself (`turns`), each with the state
in which it begins, and a property of the walk is an induction on the room and, inside, on the
names. `WalkRule.run` does this induction once, for a relation between states and a `Sit` that says
what is known of the state while the walk is in a directory.

- `WalkRule`: what each kind of step has to do with the relation: a file or link, going into a
  directory, and the `rmdir` at the end (`move.c` 76);
- `WalkRule.run`: **the rule for the whole walk**. The call returns, and the relation holds from its
  start to each turn, and from what the turn leaves to the end of the walk.
-/

namespace EngineerLinux.MoveDir

open Files

variable {env : Env}

/-! ## Opening a directory -/

/-- A directory can be opened under a path. -/
def Opens (env : Env) (s : State) (path : Text) : Prop :=
  ∃ l, s.tree.resolve env.cwd true path = .entry l ∧ s.tree.isDir l = true

theorem Opens.ne_nil {s : State} {path : Text} (h : Opens env s path) : path ≠ [] := by
  obtain ⟨l, hl, -⟩ := h
  exact (Tree.resolve_true_iff.mp hl).1

/-- What `lstat` has found. -/
theorem stat_eq_some {s : State} {path : Text} {stat : Stat} {follow : Bool}
    (h : s.stat env path follow = some stat) :
    ∃ l e, s.tree.resolve env.cwd follow path = .entry l ∧ s.tree.entry l = some e ∧
      stat = env.statOf l e := by
  unfold State.stat at h
  split at h
  · next l hl =>
    obtain ⟨e, he, hstat⟩ := Option.map_eq_some_iff.mp h
    exact ⟨l, e, hl, he, hstat.symm⟩
  · cases h

/-- What it has found under a name is in the directory to which the first part of the path leads. -/
theorem lstat_join {s : State} {dir n : Text} {stat : Stat} (hdir : dir ≠ []) (hn : IsName n)
    (h : s.stat env (join dir n) false = some stat) :
    ∃ k l e, s.tree.lead env.cwd dir = some (k, l) ∧ s.tree.entry (n :: l) = some e ∧
      s.tree.resolve env.cwd false (join dir n) = .entry (n :: l) ∧
      stat = env.statOf (n :: l) e := by
  obtain ⟨l, e, hl, he, rfl⟩ := stat_eq_some h
  obtain ⟨k, l', hlead, rfl, -⟩ := (Tree.resolve_entry_iff hdir hn).mp hl
  exact ⟨k, l', e, hlead, he, hl, rfl⟩

theorem kind_statOf_dir {l : Loc} {e : Entry} (h : (env.statOf l e).kind = .dir) :
    ∃ mode, e = .dir mode := by
  cases e with
  | dir mode => exact ⟨mode, rfl⟩
  | reg | lnk | other => cases h

theorem isLeaf_statOf {l : Loc} {e : Entry} : (env.statOf l e).isLeaf ↔ Move.isLeaf e = true := by
  cases e with
  | reg data mode => exact iff_of_true (.inr rfl) rfl
  | lnk target => exact iff_of_true (.inl rfl) rfl
  | dir mode => exact iff_of_false (by rintro (h | h) <;> cases h) Bool.false_ne_true
  | other mode => exact iff_of_false (by rintro (h | h) <;> cases h) Bool.false_ne_true

/-- `mkdir` takes nothing away. -/
theorem partOf_mkdir (env : Env) (s : State) (path : Text) (mode : Nat) :
    s.tree.PartOf (s.mkdir env path mode).2.tree := by
  rcases s.mkdir_cases env path mode with hsame | ⟨l, n, t', -, hcreate, hmade⟩
  · rw [hsame]
    exact .refl
  · obtain ⟨hnone, hupdate⟩ := Tree.of_create hcreate
    rw [hmade]
    exact Tree.partOf_of_added hnone hupdate

/-- So a directory that `lstat` has found can be opened after it. -/
theorem opens_mkdir {s : State} {dir n path : Text} {mode : Nat} {stat : Stat} (hdir : dir ≠ [])
    (hn : IsName n) (hstat : s.stat env (join dir n) false = some stat) (hkind : stat.kind = .dir) :
    Opens env (s.mkdir env path mode).2 (join dir n) := by
  obtain ⟨k, l, e, hlead, he, -, rfl⟩ := lstat_join hdir hn hstat
  obtain ⟨mode', rfl⟩ := kind_statOf_dir hkind
  have hpart := partOf_mkdir env s path mode
  refine ⟨n :: l, Tree.resolve_true_iff.mpr ⟨by simp [join], k, ?_⟩,
    hpart.isDir (Tree.isDir_iff.mpr ⟨_, he⟩)⟩
  refine Tree.lead_mono hpart ?_
  rw [join, Tree.lead_join hdir hn.2.2.2.1, hlead]
  exact Tree.reach_entry hn he fun _ h => by cases h

/-! ## The rule -/

theorem extend_snoc (dir : Text) (a : List Text) (n : Text) :
    extend dir (a ++ [n]) = join (extend dir a) n := by
  rw [extend_append]
  rfl

theorem extend_ne_nil {dir : Text} (h : dir ≠ []) (a : List Text) : extend dir a ≠ [] := by
  intro hnil
  have hlen := length_extend dir a
  rw [hnil, List.length_nil] at hlen
  exact h (List.eq_nil_of_length_eq_zero (by omega))

/-- One name further, a path leads to the entry of this name, unless that is a link. -/
theorem lead_snoc {t : Tree} {cwd l : Loc} {dir n : Text} {a : List Text} {k : Nat} {y : Nat × Loc}
    (hdir : dir ≠ []) (hn : IsName n) (hlead : t.lead cwd (extend dir a) = some (k, l))
    (hlnk : ∀ target, t.entry (n :: l) ≠ some (.lnk target))
    (hy : t.lead cwd (extend dir (a ++ [n])) = some y) : y.2 = n :: l := by
  rw [extend_snoc, join, Tree.lead_join (extend_ne_nil hdir a) hn.2.2.2.1, hlead] at hy
  exact Tree.reach_name hn hlnk hy

/-- The turn of the name `n` in the directories at `a`, where the state is as `Sit` says. -/
structure At (env : Env) (srcDir dstDir : Text) (Sit : List Text → State → Prop) (a : List Text)
    (n : Text) (τ : Turn) : Prop where
  src : τ.src = join (extend srcDir a) n
  dst : τ.dst = join (extend dstDir a) n
  listed : n ∈ env.readdir (extend srcDir a)
  name : IsName n
  sit : Sit a τ.state
  found : τ.state.stat env τ.src false = some τ.stat

/-- **What is to be shown of the steps** of a walk from `srcDir` to `dstDir`. `Sit a` is what is
known of the state while the walk is in the directories at `a`, `Eff a` how states that it comes to
there are related, and `Good` what is assumed of the turns. -/
structure WalkRule (env : Env) (srcDir dstDir : Text) (Sit : List Text → State → Prop)
    (Eff : List Text → State → State → Prop) (Good : Turn → Prop) : Prop where
  refl : ∀ {a s}, Eff a s s
  trans : ∀ {a s s' s''}, Eff a s s' → Eff a s' s'' → Eff a s s''
  /-- What happens further inside is a part of it. -/
  lift : ∀ {a n s s'}, Eff (a ++ [n]) s s' → Eff a s s'
  stable : ∀ {a s s'}, Sit a s → Eff a s s' → Sit a s'
  name : ∀ {a s n}, Sit a s → n ∈ env.readdir (extend srcDir a) →
    (n = ['.'] ∨ n = ['.', '.']) ∨ IsName n
  leaf : ∀ {a n τ}, At env srcDir dstDir Sit a n τ → τ.stat.isLeaf → Good τ →
    (τ.branch.run (State.sys env) τ.state).1 = some () ∧ Eff a τ.state (τ.after env)
  make : ∀ {a n τ}, At env srcDir dstDir Sit a n τ → τ.stat.kind = .dir → Good τ →
    Eff a τ.state (τ.state.mkdir env τ.dst 448).2 ∧
      (¬ ((τ.state.mkdir env τ.dst 448).1.1 ≠ 0 ∧ (τ.state.mkdir env τ.dst 448).1.2 ≠ .EEXIST) →
        Sit (a ++ [n]) (τ.state.mkdir env τ.dst 448).2)
  leave : ∀ {a n s}, Sit (a ++ [n]) s →
    Eff a s (s.rmdir env (extend srcDir (a ++ [n]))).2

namespace WalkRule

variable {srcDir dstDir : Text} {Sit : List Text → State → Prop}
  {Eff : List Text → State → State → Prop} {Good : Turn → Prop}

/-- From `s` over these turns to `s'`. -/
def Through (env : Env) (srcDir dstDir : Text) (Sit : List Text → State → Prop)
    (R : State → State → Prop) (s : State) (τs : List Turn) (s' : State) : Prop :=
  R s s' ∧ ∀ τ ∈ τs, (∃ a n, At env srcDir dstDir Sit a n τ) ∧ R s τ.state ∧ R (τ.after env) s'

variable (rule : WalkRule env srcDir dstDir Sit Eff Good)

theorem through_nil {a : List Text} {s s' : State} (h : Eff a s s') :
    Through env srcDir dstDir Sit (Eff a) s [] s' :=
  ⟨h, nofun⟩

include rule

theorem through_append {a : List Text} {s s' s'' : State} {τs τs' : List Turn}
    (h : Through env srcDir dstDir Sit (Eff a) s τs s')
    (h' : Through env srcDir dstDir Sit (Eff a) s' τs' s'') :
    Through env srcDir dstDir Sit (Eff a) s (τs ++ τs') s'' := by
  refine ⟨rule.trans h.1 h'.1, ?_⟩
  intro τ hτ
  rcases List.mem_append.mp hτ with hτ | hτ
  · obtain ⟨hat, hbefore, hafter⟩ := h.2 τ hτ
    exact ⟨hat, hbefore, rule.trans hafter h'.1⟩
  · obtain ⟨hat, hbefore, hafter⟩ := h'.2 τ hτ
    exact ⟨hat, rule.trans h.1 hbefore, hafter⟩

theorem through_lift {a : List Text} {n : Text} {s s' : State} {τs : List Turn}
    (h : Through env srcDir dstDir Sit (Eff (a ++ [n])) s τs s') :
    Through env srcDir dstDir Sit (Eff a) s τs s' := by
  refine ⟨rule.lift h.1, ?_⟩
  intro τ hτ
  obtain ⟨hat, hbefore, hafter⟩ := h.2 τ hτ
  exact ⟨hat, rule.lift hbefore, rule.lift hafter⟩

/-- A turn by itself: a file or link has no others behind it. -/
theorem through_single {a : List Text} {n : Text} {τ : Turn} {s' : State}
    (hat : At env srcDir dstDir Sit a n τ) (heff : Eff a τ.state s') (hafter : τ.after env = s') :
    Through env srcDir dstDir Sit (Eff a) τ.state [τ] s' := by
  refine ⟨heff, ?_⟩
  intro τ' hτ'
  rw [List.mem_singleton.mp hτ', hafter]
  exact ⟨⟨a, n, hat⟩, rule.refl, rule.refl⟩

omit rule in
variable (env srcDir dstDir Sit Eff Good) in
/-- What the rule says of one call, up to its last `rmdir`. -/
def DirRuns (room : Nat) : Prop :=
  ∀ a s, Sit a s → Opens env s (extend srcDir a) → 512 ≤ (extend srcDir a).length + room →
    (∀ τ ∈ turns env (room + 1) (extend srcDir a) (extend dstDir a) s, Good τ) →
    ∃ ret s', (moveDir (room + 1) (extend srcDir a) (extend dstDir a)).run (State.sys env) s =
        (some ret, (s'.rmdir env (extend srcDir a)).2) ∧ Sit a s' ∧
      Through env srcDir dstDir Sit (Eff a) s
        (turns env (room + 1) (extend srcDir a) (extend dstDir a) s) s'

/-- The turn of a directory. -/
theorem run_subdir {a : List Text} {n : Text} {room : Nat} {τ : Turn} (hsrc : srcDir ≠ [])
    (hrec : DirRuns env srcDir dstDir Sit Eff Good room)
    (hat : At env srcDir dstDir Sit a n τ) (hkind : τ.stat.kind = .dir) (hgood : Good τ)
    {r : Int × Errno} {s₁ : State} (hmkdir : τ.state.mkdir env τ.dst 448 = (r, s₁))
    (hr : ¬ (r.1 ≠ 0 ∧ r.2 ≠ .EEXIST)) (hroom : 512 ≤ τ.src.length + room)
    (hall : ∀ τ' ∈ turns env (room + 1) τ.src τ.dst s₁, Good τ') :
    ∃ ret s', (moveDir (room + 1) τ.src τ.dst).run (State.sys env) s₁ = (some ret, s') ∧
      Through env srcDir dstDir Sit (Eff a) τ.state (τ :: turns env (room + 1) τ.src τ.dst s₁)
        s' := by
  obtain ⟨hmade, hinside⟩ := rule.make hat hkind hgood
  rw [hmkdir] at hmade hinside
  have hopens : Opens env s₁ (extend srcDir (a ++ [n])) := by
    rw [extend_snoc, ← show (τ.state.mkdir env τ.dst 448).2 = s₁ by rw [hmkdir]]
    exact opens_mkdir (extend_ne_nil hsrc a) hat.name (hat.src ▸ hat.found) hkind
  rw [hat.src, ← extend_snoc] at hroom
  rw [hat.src, hat.dst, ← extend_snoc, ← extend_snoc] at hall ⊢
  obtain ⟨ret, s', hrun, hsit', hthrough⟩ :=
    hrec (a ++ [n]) s₁ (hinside hr) hopens hroom hall
  have hleft := rule.leave hsit'
  refine ⟨ret, _, hrun, ?_⟩
  have hlater := rule.through_append (rule.through_lift hthrough) (through_nil hleft)
  rw [List.append_nil] at hlater
  refine ⟨rule.trans hmade hlater.1, ?_⟩
  intro τ' hτ'
  rcases List.mem_cons.mp hτ' with rfl | hτ'
  · -- the branch for files and links does nothing to a directory
    have hafter : τ'.after env = τ'.state := by
      unfold Turn.after Turn.branch
      rw [hkind]
      rfl
    rw [hafter]
    exact ⟨⟨a, n, hat⟩, rule.refl, rule.trans hmade hlater.1⟩
  · obtain ⟨hat', hbefore, hafter⟩ := hlater.2 τ' hτ'
    exact ⟨hat', rule.trans hmade hbefore, hafter⟩

/-- The turns of one name. -/
theorem run_entry {a : List Text} {n : Text} {room : Nat} {s : State} (hsrc : srcDir ≠ [])
    (hrec : ∀ room', room = room' + 1 → DirRuns env srcDir dstDir Sit Eff Good room')
    (hmem : n ∈ env.readdir (extend srcDir a)) (hsit : Sit a s)
    (hroom : 512 ≤ (extend srcDir a).length + room)
    (hall : ∀ τ ∈ entryTurns env (turns env room) (extend srcDir a) (extend dstDir a) n s,
      Good τ) :
    ∃ go s', (moveEntry (moveDir room) (extend srcDir a) (extend dstDir a) n).run
        (State.sys env) s = (some go, s') ∧
      Through env srcDir dstDir Sit (Eff a) s
        (entryTurns env (turns env room) (extend srcDir a) (extend dstDir a) n s) s' := by
  unfold moveEntry
  unfold entryTurns at hall ⊢
  by_cases hdot : n = ['.'] ∨ n = ['.', '.']
  · simp only [if_pos hdot]
    exact ⟨_, _, rfl, through_nil rule.refl⟩
  · have hn : IsName n := (rule.name hsit hmem).resolve_left hdot
    simp only [if_neg hdot] at hall ⊢
    by_cases hfits : (join (extend srcDir a) n).length ≥ 512 ∨
        (join (extend dstDir a) n).length ≥ 512
    · simp only [if_pos hfits]
      exact ⟨_, _, rfl, through_nil rule.refl⟩
    · simp only [if_neg hfits] at hall ⊢
      cases hstat : s.stat env (join (extend srcDir a) n) false with
      | none =>
        refine ⟨false, s, ?_, through_nil rule.refl⟩
        simp only [Prog.run_call, State.sys, hstat, Prog.run_ret]
      | some stat =>
        rw [hstat] at hall
        simp only [Prog.run_call, State.sys, hstat]
        have hgood := hall _ (List.mem_cons_self ..)
        have hat : At env srcDir dstDir Sit a n
            ⟨join (extend srcDir a) n, join (extend dstDir a) n, stat, s⟩ :=
          ⟨rfl, rfl, hmem, hn, hsit, hstat⟩
        cases hkind : stat.kind with
        | lnk =>
          obtain ⟨hret, heff⟩ := rule.leaf hat (.inl hkind) hgood
          refine ⟨true, _, ?_, rule.through_single hat heff rfl⟩
          unfold Turn.after
          simp only [Turn.branch, hkind, Prog.run_bind] at hret ⊢
          rw [hret]
          rfl
        | reg =>
          obtain ⟨hret, heff⟩ := rule.leaf hat (.inr hkind) hgood
          refine ⟨true, _, ?_, rule.through_single hat heff rfl⟩
          unfold Turn.after
          simp only [Turn.branch, hkind, Prog.run_bind] at hret ⊢
          rw [hret]
          rfl
        | other =>
          refine ⟨true, s, rfl, rule.through_single hat rule.refl ?_⟩
          unfold Turn.after
          simp only [Turn.branch, hkind]
          rfl
        | dir =>
          have hmade := (rule.make hat hkind hgood).1
          simp only [hkind] at hall ⊢
          generalize hmkdir : s.mkdir env (join (extend dstDir a) n) 448 = made at hall hmade ⊢
          obtain ⟨r, s₁⟩ := made
          by_cases hr : r.1 ≠ 0 ∧ r.2 ≠ .EEXIST
          · simp only [Prog.run_call, State.sys, hmkdir, if_pos hr, Prog.run_ret]
            refine ⟨false, s₁, rfl, hmade, ?_⟩
            intro τ hτ
            rw [List.mem_singleton.mp hτ]
            refine ⟨⟨a, n, hat⟩, rule.refl, ?_⟩
            unfold Turn.after
            simp only [Turn.branch, hkind]
            exact hmade
          · -- so long a path leaves room for one more
            obtain ⟨room', rfl⟩ : ∃ room', room = room' + 1 := by
              cases room with
              | zero =>
                have hlonger := length_extend (extend srcDir a) [n]
                rw [← extend_append, extend_snoc] at hlonger
                omega
              | succ room' => exact ⟨room', rfl⟩
            have hlonger := length_extend (extend srcDir a) [n]
            rw [← extend_append, extend_snoc, List.length_singleton] at hlonger
            simp only [if_neg hr] at hall ⊢
            obtain ⟨ret, s', hrun, hthrough⟩ := rule.run_subdir hsrc (hrec room' rfl) hat hkind
              hgood hmkdir hr (show 512 ≤ (join (extend srcDir a) n).length + room' by omega)
              (fun τ hτ => hall τ (List.mem_cons_of_mem _ hτ))
            refine ⟨decide (ret = 0), s', ?_, hthrough⟩
            simp only [Prog.run_call, State.sys, hmkdir, if_neg hr, Prog.run_bind, hrun]
            rfl

/-- The turns of the loop. -/
theorem run_names {a : List Text} {room : Nat} {names : List Text} {s : State} (hsrc : srcDir ≠ [])
    (hrec : ∀ room', room = room' + 1 → DirRuns env srcDir dstDir Sit Eff Good room')
    (hmem : ∀ n ∈ names, n ∈ env.readdir (extend srcDir a)) (hsit : Sit a s)
    (hroom : 512 ≤ (extend srcDir a).length + room)
    (hall : ∀ τ ∈ namesTurns env room (turns env room) (extend srcDir a) (extend dstDir a) names s,
      Good τ) :
    ∃ ret s', (moveEntries (moveDir room) (extend srcDir a) (extend dstDir a) names).run
        (State.sys env) s = (some ret, s') ∧
      Through env srcDir dstDir Sit (Eff a) s
        (namesTurns env room (turns env room) (extend srcDir a) (extend dstDir a) names s) s' := by
  induction names generalizing s with
  | nil => exact ⟨0, s, rfl, through_nil rule.refl⟩
  | cons n names ih =>
    unfold namesTurns at hall ⊢
    obtain ⟨go, s₁, hrun, hthrough⟩ := rule.run_entry hsrc hrec (hmem n (List.mem_cons_self ..))
      hsit hroom fun τ hτ => hall τ (List.mem_append_left _ hτ)
    rw [hrun] at hall ⊢
    simp only [moveEntries, Prog.run_bind, hrun]
    cases go with
    | false =>
      refine ⟨-1, s₁, rfl, ?_⟩
      rw [List.append_nil]
      exact hthrough
    | true =>
      obtain ⟨ret, s', hrun', hthrough'⟩ := ih (fun m hm => hmem m (List.mem_cons_of_mem _ hm))
        (rule.stable hsit hthrough.1) fun τ hτ => hall τ (List.mem_append_right _ hτ)
      exact ⟨ret, s', hrun', rule.through_append hthrough hthrough'⟩

/-- A call whose directory can be opened. -/
theorem run_opened {a : List Text} {room : Nat} {s : State} (hsrc : srcDir ≠ [])
    (hrec : ∀ room', room = room' + 1 → DirRuns env srcDir dstDir Sit Eff Good room')
    (hsit : Sit a s) (hopens : Opens env s (extend srcDir a))
    (hroom : 512 ≤ (extend srcDir a).length + room)
    (hall : ∀ τ ∈ turns env (room + 1) (extend srcDir a) (extend dstDir a) s, Good τ) :
    ∃ ret s', (moveDir (room + 1) (extend srcDir a) (extend dstDir a)).run (State.sys env) s =
        (some ret, (s'.rmdir env (extend srcDir a)).2) ∧ Sit a s' ∧
      Through env srcDir dstDir Sit (Eff a) s
        (turns env (room + 1) (extend srcDir a) (extend dstDir a) s) s' := by
  obtain ⟨l, hl, hdir⟩ := hopens
  unfold turns at hall ⊢
  simp only [hl, if_pos hdir] at hall ⊢
  obtain ⟨ret, s', hrun, hthrough⟩ := rule.run_names hsrc hrec (fun _ hn => hn) hsit hroom hall
  refine ⟨ret, s', ?_, rule.stable hsit hthrough.1, hthrough⟩
  rw [moveDir]
  simp only [Prog.run_call, State.sys, hl, if_pos hdir, Prog.run_bind, hrun, Prog.run_ret]

/-- Every call: by induction on the room for directories inside each other. -/
theorem dirRuns (hsrc : srcDir ≠ []) (room : Nat) :
    DirRuns env srcDir dstDir Sit Eff Good room := by
  induction room with
  | zero =>
    intro a s hsit hopens hroom hall
    exact rule.run_opened hsrc (fun _ h => absurd h (by omega)) hsit hopens hroom hall
  | succ room ih =>
    intro a s hsit hopens hroom hall
    exact rule.run_opened hsrc (fun _ h => Nat.succ.inj h ▸ ih) hsit hopens hroom hall

/-- **The whole walk**: `move_dir` returns, and what the steps preserve holds from the start to each
turn, and from what a turn leaves to the end, which is one `rmdir` later. -/
theorem run {s : State} (hsit : Sit [] s) (hopens : Opens env s srcDir)
    (hall : ∀ τ ∈ turns env 512 srcDir dstDir s, Good τ) :
    ∃ ret s', (move_dir (some srcDir) (some dstDir)).run (State.sys env) s =
        (some ret, (s'.rmdir env srcDir).2) ∧ Sit [] s' ∧
      Through env srcDir dstDir Sit (Eff []) s (turns env 512 srcDir dstDir s) s' := by
  have hlen : 0 < srcDir.length := List.length_pos_iff.mpr hopens.ne_nil
  exact rule.dirRuns hopens.ne_nil 511 [] s hsit hopens (by rw [extend_nil]; omega) hall

end WalkRule

/-! ## A destination that is not there -/

/-- The branch only removes the source's entry: what it does before leaves the tree as it is. -/
def OnlyUnlinks (env : Env) (τ : Turn) : Prop :=
  ∃ s : State, s.tree = τ.state.tree ∧
    τ.branch.run (State.sys env) τ.state = (some (), (s.unlink env τ.src).2)

/-- `access` fails where a path leads nowhere. -/
theorem access_fails {s : State} {path : Text}
    (h : (s.tree.resolve env.cwd true path).found = false) :
    State.sys env (.access path) s = (-1, s) := by
  simp only [State.sys]
  split
  · next l hl =>
    rw [hl] at h
    cases h
  · rfl

/-- A file is only removed where the destination's path leads to something of the same size. -/
theorem onlyUnlinks_reg {τ : Turn} {stat : Stat} (hkind : τ.stat.kind = .reg)
    (hdst : τ.state.stat env τ.dst true = some stat) (hsize : stat.st_size = τ.stat.st_size) :
    OnlyUnlinks env τ := by
  obtain ⟨l, e, hl, -, -⟩ := stat_eq_some hdst
  refine ⟨τ.state, rfl, ?_⟩
  simp only [Turn.branch, hkind, moveReg, Prog.run_call, State.sys, hl, if_true, hdst,
    Option.getD_some, hsize, Prog.run_ret]

/-- A link is only removed where there is a link that leads somewhere. -/
theorem onlyUnlinks_lnk {τ : Turn} {stat : Stat} (hkind : τ.stat.kind = .lnk)
    (hleads : (τ.state.tree.resolve env.cwd true τ.dst).found = true)
    (hdst : τ.state.stat env τ.dst false = some stat) (hlnk : stat.kind = .lnk) :
    OnlyUnlinks env τ := by
  obtain ⟨l, hl⟩ := Lookup.found_iff.mp hleads
  refine ⟨τ.state, rfl, ?_⟩
  simp only [Turn.branch, hkind, moveLnk, Prog.run_call, State.sys, hl, if_true, hdst,
    Option.getD_some, hlnk, Prog.run_ret]

/-- Over nothing that `access` can follow, a link is renamed or made again. -/
theorem run_branch_dangling {τ : Turn} (hkind : τ.stat.kind = .lnk)
    (hnot : (τ.state.tree.resolve env.cwd true τ.dst).found = false) :
    τ.branch.run (State.sys env) τ.state =
      (renameOrRelink τ.src τ.dst).run (State.sys env) τ.state := by
  have hneg : ¬ (-1 : Int) = 0 := by decide
  simp only [Turn.branch, hkind, moveLnk, Prog.run_call, access_fails hnot, if_neg hneg]

/-- `rename` needs both paths. -/
theorem rename_of_fail {s : State} {oldpath newpath : Text}
    (h : s.tree.resolve env.cwd false newpath = .fail) :
    s.rename env oldpath newpath = (-1, s) := by
  unfold State.rename
  split
  · rfl
  · rw [h]
    cases s.tree.resolve env.cwd false oldpath <;> rfl

theorem openRead_tree (env : Env) (s : State) (path : Text) :
    (s.openRead env path).2.tree = s.tree := by
  unfold State.openRead State.openAt State.opened
  split
  · rfl
  · split
    · split <;> rfl
    · rfl

/-- A `mkdir` that finds something there, or no place for a directory, changes nothing. -/
theorem mkdir_of_not_absent {s : State} {path : Text} {mode : Nat}
    (h : (s.tree.resolve env.cwd false path).free = false) : (s.mkdir env path mode).2 = s := by
  unfold State.mkdir
  split
  · rfl
  · cases hres : s.tree.resolve env.cwd false path with
    | absent l n =>
      rw [hres] at h
      cases h
    | entry l => rfl
    | fail => rfl

theorem mkdir_of_fail {s : State} {path : Text} {mode : Nat}
    (h : s.tree.resolve env.cwd false path = .fail) :
    (s.mkdir env path mode).1.1 ≠ 0 ∧ (s.mkdir env path mode).1.2 ≠ .EEXIST := by
  have hneg : (-1 : Int) ≠ 0 := by decide
  unfold State.mkdir
  split
  · exact ⟨hneg, nofun⟩
  · rw [h]
    exact ⟨hneg, nofun⟩

/-- Where there is a place for it, `mkdir` makes a directory or fails. -/
theorem mkdir_of_absent {s : State} {path : Text} {l : Loc} {n : Text} (mode : Nat)
    (h : s.tree.resolve env.cwd false path = .absent l n) :
    ((s.mkdir env path mode).2 = s ∧
      (s.mkdir env path mode).1.1 ≠ 0 ∧ (s.mkdir env path mode).1.2 ≠ .EEXIST) ∨
    ∃ t', s.tree.create l n (.dir (env.masked mode)) = some t' ∧
      (s.mkdir env path mode).2 = { s with tree := t' } := by
  have hneg : (-1 : Int) ≠ 0 := by decide
  unfold State.mkdir
  split
  · exact .inl ⟨rfl, hneg, nofun⟩
  · rw [h]
    cases hcreate : s.tree.create l n (.dir (env.masked mode)) with
    | none =>
      simp only [hcreate]
      exact .inl ⟨trivial, hneg, nofun⟩
    | some t' =>
      simp only [hcreate]
      exact .inr ⟨t', rfl, rfl⟩

/-- Where neither `rename` nor `open` nor `chmod` finds a destination, a file is only removed. -/
theorem run_copy_fails {s : State} {src dst : Text} (stat : Stat)
    (hrename : s.rename env src dst = (-1, s)) (hdst : s.tree.resolve env.cwd true dst = .fail) :
    ∃ s₁ : State, s₁.tree = s.tree ∧ (renameOrCopy src dst stat).run (State.sys env) s =
      (some (), (s₁.unlink env src).2) := by
  have hneg : (-1 : Int) ≠ 0 := by decide
  have hcreat : ∀ s₁ : State, s₁.tree = s.tree → s₁.openCreat env dst 511 = (-1, s₁) := by
    intro s₁ htree
    unfold State.openCreat
    rw [htree, hdst]
    exact ite_self _
  have hchmod : ∀ s₁ : State, s₁.tree = s.tree → s₁.chmod env dst stat.mode = (-1, s₁) := by
    intro s₁ htree
    unfold State.chmod
    rw [htree, hdst]
    exact ite_self _
  cases hread : s.openRead env src with
  | mk srcFd s₁ =>
    have htree₁ : s₁.tree = s.tree := by
      rw [← openRead_tree env s src, hread]
    obtain ⟨r₂, s₂, hclose₂, htree₂⟩ := Move.run_close s₁ srcFd
    obtain ⟨r₃, s₃, hclose₃, htree₃⟩ := Move.run_close s₂ (-1)
    have htree : s₃.tree = s.tree := htree₃.trans (htree₂.trans htree₁)
    have hsend : (sendAll (-1) srcFd (stat.st_size + 1)).run (State.sys env) s₁ = (some (), s₁) :=
      Move.run_sendAll_closed _ (.inl Move.file_neg)
    refine ⟨s₃, htree, ?_⟩
    simp only [renameOrCopy, Prog.run_call, State.sys, hrename, if_pos hneg, hread,
      hcreat s₁ htree₁, Prog.run_bind, hsend, hclose₂, hclose₃, hchmod s₃ htree, Prog.run_ret]

/-- So is a link that can neither be renamed nor made again, because there is no place for it. -/
theorem run_relink_fails {s : State} {src dst : Text} (hrename : s.rename env src dst = (-1, s))
    (hdst : (s.tree.resolve env.cwd false dst).free = false) :
    (renameOrRelink src dst).run (State.sys env) s = (some (), (s.unlink env src).2) := by
  have hneg : (-1 : Int) ≠ 0 := by decide
  have hsymlink : ∀ target, s.symlink env target dst = (-1, s) := by
    intro target
    unfold State.symlink
    cases hres : s.tree.resolve env.cwd false dst with
    | absent l n =>
      rw [hres] at hdst
      cases hdst
    | entry | fail => exact ite_self _
  simp only [renameOrRelink, Prog.run_call, State.sys, hrename, if_pos hneg, hsymlink,
    Prog.run_ret]

/-- **Under a path that leads nowhere**, nothing can be made. -/
theorem onlyUnlinks_of_fail {τ : Turn} (hleaf : τ.stat.isLeaf)
    (hfail : ∀ follow, τ.state.tree.resolve env.cwd follow τ.dst = .fail) :
    OnlyUnlinks env τ := by
  have hneg : ¬ (-1 : Int) = 0 := by decide
  have hrename : τ.state.rename env τ.src τ.dst = (-1, τ.state) := rename_of_fail (hfail false)
  rcases hleaf with hkind | hkind
  · have hrun := run_relink_fails hrename (by rw [hfail false]; rfl)
    refine ⟨τ.state, rfl, ?_⟩
    rw [← hrun]
    simp only [Turn.branch, hkind, moveLnk, Prog.run_call, State.sys, hfail true, if_neg hneg]
  · obtain ⟨s, htree, hrun⟩ := run_copy_fails τ.stat hrename (hfail true)
    refine ⟨s, htree, ?_⟩
    rw [← hrun]
    simp only [Turn.branch, hkind, moveReg, Prog.run_call, State.sys, hfail true, if_neg hneg]

/-- What `unlink` does to the entry of the source. -/
theorem unlink_entry (env : Env) {s : State} {path : Text} {l : Loc} {e : Entry}
    (hpath : s.tree.resolve env.cwd false path = .entry l) (he : s.tree.entry l = some e)
    (hleaf : Move.isLeaf e = true) :
    (s.unlink env path).2.tree.entry =
      if env.fails (.unlink path) = true then s.tree.entry
      else Function.update s.tree.entry l none := by
  unfold State.unlink
  split
  · rfl
  · obtain ⟨t', ht', hupdate⟩ := Tree.unlink_eq he (Move.isDir_of_leaf he hleaf)
    rw [hpath]
    simp only [ht', State.apply]
    exact hupdate

/-- A branch that only removes the entry, unless this fails. -/
theorem OnlyUnlinks.after {τ : Turn} {l : Loc} {e : Entry} (h : OnlyUnlinks env τ)
    (hsrc : τ.state.tree.resolve env.cwd false τ.src = .entry l)
    (he : τ.state.tree.entry l = some e) (hleaf : Move.isLeaf e = true) :
    (τ.branch.run (State.sys env) τ.state).1 = some () ∧ (τ.after env).tree.entry =
      if env.fails (.unlink τ.src) = true then τ.state.tree.entry
      else Function.update τ.state.tree.entry l none := by
  obtain ⟨s, htree, hrun⟩ := h
  have hunlink := unlink_entry env (s := s) (by rw [htree]; exact hsrc)
    (by rw [htree]; exact he) hleaf
  rw [htree] at hunlink
  unfold Turn.after
  rw [hrun]
  exact ⟨rfl, hunlink⟩

end EngineerLinux.MoveDir
