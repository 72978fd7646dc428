import EngineerLinux.StartProcess.Environment

/-!
# Commands, and what is executed

The child against a kernel with a table of descriptors. Each redirection opens its target on a new
descriptor, puts it in the place of standard output and closes the new one again (`main.c` 121-123),
so that in the end only descriptor 1 has changed, and holds the last target that could be opened.

Both results compare what is executed with the words a reader finds in the command, through
`executes_iff`: the words that the loop finds (`Split`), and the parts the scan gives them (`Scan`).

- `redirectAll_run`: the descriptors behind the redirections, by induction on the targets;
- `command_round_trip`: **words joined by single spaces** are executed as they are;
- `blanks_only_separate_iff`: **additional spaces** change what is executed.
-/

namespace EngineerLinux.StartProcess

open Redirect

variable {copy : Copy} {getenv : Text → Option Text} {command c d elem₀ file : Text}
  {elems argv rs : List Text}

/-! ## Descriptors -/

/-- What a descriptor refers to: something from before, or what the `n`th call of `open` opened. -/
inductive File where
  | other (id : Nat)
  | target (n : Nat) (path : Text)
  deriving DecidableEq

structure Kernel where
  table : FdTable File
  /-- The paths that `open` has been called with. -/
  opened : List Text

/-- What is up to the kernel: which calls of `open` succeed, and what the calls about the priority
return. -/
structure Answers where
  canOpen : Nat → Text → Bool
  priority : Call → Int

def Kernel.sys (o : Answers) (c : Call) (s : Kernel) : Int × Kernel :=
  match c with
  | .open path =>
    let opened := s.opened ++ [path]
    if o.canOpen s.opened.length path then
      let (fd, table) := s.table.alloc (.target s.opened.length path)
      (fd, ⟨table, opened⟩)
    else (-1, ⟨s.table, opened⟩)
  | .dup2 fd fd2 =>
    match s.table.lookup fd with
    | some _ => (fd2, { s with table := s.table.dup fd fd2 })
    | none => (-1, s)
  | .close fd =>
    match s.table.lookup fd with
    | some _ => (0, { s with table := s.table.free fd })
    | none => (-1, s)
  | c => (o.priority c, s)

/-- Standard input, output and error are open. -/
def Kernel.Std (s : Kernel) : Prop := ∀ fd : Int, 0 ≤ fd → fd ≤ 2 → s.table.lookup fd ≠ none

variable {o : Answers} {s : Kernel} {path : Text}

/-- After the three calls of one redirection. -/
def Kernel.redirected (o : Answers) (s : Kernel) (path : Text) : Kernel :=
  let r := Kernel.sys o (.open path) s
  (Kernel.sys o (.close r.1) (Kernel.sys o (.dup2 r.1 1) r.2).2).2

/-- A target that cannot be opened leaves the descriptors alone. -/
theorem redirected_fail (h : o.canOpen s.opened.length path = false) :
    s.redirected o path = ⟨s.table, s.opened ++ [path]⟩ := by
  have hopen : Kernel.sys o (.open path) s = (-1, ⟨s.table, s.opened ++ [path]⟩) := by
    rw [Kernel.sys]
    simp only [h, Bool.false_eq_true, if_false]
  unfold Kernel.redirected
  rw [hopen]
  rfl

/-- A target that is opened becomes standard output, and no other descriptor changes. -/
theorem redirected_ok (hout : s.table.lookup 1 ≠ none) (h : o.canOpen s.opened.length path = true) :
    (s.redirected o path).opened = s.opened ++ [path] ∧
    ∀ fd, (s.redirected o path).table.lookup fd =
      if fd = 1 then some (.target s.opened.length path) else s.table.lookup fd := by
  have hopen : Kernel.sys o (.open path) s =
      ((s.table.alloc (.target s.opened.length path)).1,
        ⟨(s.table.alloc (.target s.opened.length path)).2, s.opened ++ [path]⟩) := by
    rw [Kernel.sys]
    simp only [h, if_true]
  generalize hfile : File.target s.opened.length path = file at hopen
  have hnew := FdTable.lookup_alloc_fst (t := s.table) (a := file)
  have hlookup : (s.table.alloc file).2.lookup (s.table.alloc file).1 = some file := by
    rw [FdTable.lookup_alloc, if_pos rfl]
  -- the new descriptor is none of the three that are open
  have hne : (s.table.alloc file).1 ≠ 1 := by
    intro heq
    exact hout (heq ▸ hnew.2)
  -- `dup2` leaves the new descriptor open, to be closed next
  have hdup : ((s.table.alloc file).2.dup (s.table.alloc file).1 1).lookup (s.table.alloc file).1 =
      some file := by
    rw [FdTable.lookup_dup hlookup (by decide), if_neg hne, hlookup]
  have hstate : s.redirected o path =
      ⟨((s.table.alloc file).2.dup (s.table.alloc file).1 1).free (s.table.alloc file).1,
        s.opened ++ [path]⟩ := by
    unfold Kernel.redirected
    rw [hopen]
    simp only [Kernel.sys, hlookup, hdup]
  rw [hstate]
  refine ⟨rfl, fun fd => ?_⟩
  rw [FdTable.lookup_free hdup, FdTable.lookup_dup hlookup (by decide), FdTable.lookup_alloc]
  by_cases hfd : fd = (s.table.alloc file).1
  · rw [if_pos hfd, hfd, if_neg hne, hnew.2]
  · rw [if_neg hfd, if_neg hfd]

/-- The last of these paths that can be opened, with the number of its call of `open`. -/
def lastOpened (o : Answers) (n : Nat) (ps : List Text) : Option (Text × Nat) :=
  ((ps.zipIdx n).filter fun x => o.canOpen x.2 x.1).getLast?

/-- What standard output is, if it was `before`. -/
def stdoutFile (before : Option File) : Option (Text × Nat) → Option File
  | some x => some (.target x.2 x.1)
  | none => before

/-- A later target that can be opened takes the place of this one. -/
theorem lastOpened_cons {n : Nat} {ps : List Text} :
    lastOpened o n (path :: ps) =
      (lastOpened o (n + 1) ps).or (if o.canOpen n path then some (path, n) else none) := by
  unfold lastOpened
  rw [List.zipIdx_cons, List.filter_cons]
  dsimp only
  cases o.canOpen n path with
  | false => exact (Option.or_none).symm
  | true =>
    rw [if_pos rfl, if_pos rfl, List.getLast?_cons]
    cases ((ps.zipIdx (n + 1)).filter fun x => o.canOpen x.2 x.1).getLast? <;> rfl

theorem stdoutFile_cons {n : Nat} {ps : List Text} {before : Option File} :
    stdoutFile before (lastOpened o n (path :: ps)) =
      stdoutFile (if o.canOpen n path then some (.target n path) else before)
        (lastOpened o (n + 1) ps) := by
  rw [lastOpened_cons]
  cases lastOpened o (n + 1) ps with
  | some x => rfl
  | none => cases o.canOpen n path <;> rfl

theorem redirected_spec (o : Answers) (path : Text) (hout : s.table.lookup 1 ≠ none) :
    (s.redirected o path).opened = s.opened ++ [path] ∧
    (s.redirected o path).table.lookup 1 =
      (if o.canOpen s.opened.length path then some (.target s.opened.length path)
        else s.table.lookup 1) ∧
    ∀ fd, fd ≠ 1 → (s.redirected o path).table.lookup fd = s.table.lookup fd := by
  cases h : o.canOpen s.opened.length path with
  | false =>
    rw [redirected_fail h]
    exact ⟨rfl, rfl, fun _ _ => rfl⟩
  | true =>
    obtain ⟨hopened, hlookup⟩ := redirected_ok hout h
    refine ⟨hopened, ?_, fun fd hfd => ?_⟩
    · rw [hlookup, if_pos rfl, if_pos rfl]
    · rw [hlookup, if_neg hfd]

/-- Standard output stays open. -/
theorem redirected_stdout (hout : s.table.lookup 1 ≠ none) :
    (s.redirected o path).table.lookup 1 ≠ none := by
  rw [(redirected_spec o path hout).2.1]
  split
  · exact Option.some_ne_none _
  · exact hout

/-- **All redirections**: the targets are opened in order, standard output is the last one that
could be opened, and no other descriptor changes. -/
theorem redirectAll_run {R : Type} (k : Prog Posix R) (ps : List Text)
    (hout : s.table.lookup 1 ≠ none) :
    ∃ s', (redirectAll k ps).run (Kernel.sys o) s = k.run (Kernel.sys o) s' ∧
      s'.opened = s.opened ++ ps ∧
      s'.table.lookup 1 = stdoutFile (s.table.lookup 1) (lastOpened o s.opened.length ps) ∧
      ∀ fd, fd ≠ 1 → s'.table.lookup fd = s.table.lookup fd := by
  induction ps generalizing s with
  | nil => exact ⟨s, rfl, (List.append_nil _).symm, rfl, fun _ _ => rfl⟩
  | cons p ps ih =>
    obtain ⟨hopened, hstdout, hother⟩ := redirected_spec o p hout
    obtain ⟨s', hrun, hopened', hstdout', hother'⟩ := ih (redirected_stdout hout)
    refine ⟨s', hrun, ?_, ?_, fun fd hfd => (hother' fd hfd).trans (hother fd hfd)⟩
    · rw [hopened', hopened, List.append_assoc]
      rfl
    · rw [hstdout', hstdout, hopened, List.length_append, stdoutFile_cons]
      rfl

/-- A call about the priority. -/
def Call.AboutPriority : Call → Prop
  | .getpid | .schedGetparam _ | .schedSetscheduler _ _ _ | .setpriority _ => True
  | .open _ | .dup2 _ _ | .close _ => False

/-- What the second copy does before it calls `execvp` is about its priority. -/
theorem prepare_only (copy : Copy) : (prepare copy).Only Call.AboutPriority := by
  cases copy with
  | startProcess => exact trivial
  | schedule priority =>
    refine ⟨trivial, fun _ => ⟨trivial, fun (ret : Int) => ?_⟩⟩
    show Prog.Only _ (if ret = 0 then _ else _)
    split
    · cases priority.type with
      | nice => exact ⟨trivial, fun _ => ⟨trivial, fun _ => trivial⟩⟩
      | fifo => exact ⟨trivial, fun _ => trivial⟩
    · exact trivial

/-- It changes no descriptor. -/
theorem prepare_run {R : Type} (copy : Copy) (r : R) :
    ((prepare copy).bind fun _ => .ret r).run (Kernel.sys o) s = (r, s) := by
  have hcalls : ∀ (c : Posix.Call) (s : Kernel), c.AboutPriority → (Kernel.sys o c s).2 = s := by
    intro c s hc
    cases c with
    | «open» | dup2 | close => exact hc.elim
    | _ => rfl
  rw [Prog.run_bind]
  exact congrArg (Prod.mk r) (Prog.Only.run hcalls (prepare_only copy) s)

/-! ## Execution -/

/-- The child executes a file with these arguments, after it has tried to open these targets. -/
def Executes (copy : Copy) (getenv : Text → Option Text) (o : Answers) (s : Kernel)
    (command file : Text) (argv redirections : List Text) : Prop :=
  ∃ fuel prog s', createProcessEx copy getenv fuel command = some prog ∧
    prog.run (Kernel.sys o) s = (.execvp file argv, s') ∧ s'.opened = s.opened ++ redirections

/-- The run of a child whose kept words fit. -/
theorem run_executes (copy : Copy) (getenv : Text → Option Text) (o : Answers)
    (hout : s.table.lookup 1 ≠ none) (elem₀ : Text) (elems : List Text)
    (hfit : (kept getenv false elems).length ≤ PROCESS_MAX_PARAMS) :
    ∃ s', (run copy getenv (elem₀ :: elems)).run (Kernel.sys o) s =
        (.execvp elem₀ (elem₀ :: kept getenv false elems), s') ∧
      s'.opened = s.opened ++ paths getenv false elems ∧
      s'.table.lookup 1 = stdoutFile (s.table.lookup 1)
        (lastOpened o s.opened.length (paths getenv false elems)) ∧
      ∀ fd, fd ≠ 1 → s'.table.lookup fd = s.table.lookup fd := by
  rw [run_eq copy getenv elem₀ elems hfit]
  obtain ⟨s', hrun, hrest⟩ := redirectAll_run (o := o) ((prepare copy).bind fun _ =>
    .ret (Final.execvp elem₀ (elem₀ :: kept getenv false elems))) (paths getenv false elems) hout
  exact ⟨s', hrun.trans (prepare_run copy _), hrest⟩

/-- **What is executed**, by the words of the command. -/
theorem executes_iff (hstd : s.Std) (hsplit : Splits command elems) :
    Executes copy getenv o s command file argv rs ↔
      ∃ elem₀ rest, elems = elem₀ :: rest ∧ (kept getenv false rest).length ≤ PROCESS_MAX_PARAMS ∧
        file = elem₀ ∧ argv = elem₀ :: kept getenv false rest ∧ rs = paths getenv false rest := by
  have hout : s.table.lookup 1 ≠ none := hstd 1 (by decide) (by decide)
  constructor
  · rintro ⟨fuel, prog, s', hprog, hrun, hopened⟩
    obtain ⟨elems', hfuel, rfl⟩ := Option.map_eq_some_iff.mp hprog
    obtain rfl := hsplit.unique ⟨fuel, hfuel⟩
    cases elems with
    | nil => cases congrArg Prod.fst hrun
    | cons elem₀ rest =>
      -- a child that ends with `execvp` has made no access out of range
      rcases Nat.lt_or_ge PROCESS_MAX_PARAMS (kept getenv false rest).length with hlt | hfit
      · obtain ⟨ps, hps⟩ := run_fault copy getenv elem₀ rest hlt
        obtain ⟨s₁, hrun₁, -⟩ := redirectAll_run (o := o)
          (Prog.ret (Final.fault .args) : Prog Posix Final) ps hout
        rw [hps, hrun₁] at hrun
        cases congrArg Prod.fst hrun
      · obtain ⟨s₁, hrun₁, hopened₁, -⟩ := run_executes copy getenv o hout elem₀ rest hfit
        rw [hrun₁] at hrun
        obtain ⟨hfinal, rfl⟩ := Prod.mk.inj hrun
        obtain ⟨rfl, rfl⟩ := Final.execvp.inj hfinal
        exact ⟨_, _, rfl, hfit, rfl, rfl, List.append_cancel_left (hopened.symm.trans hopened₁)⟩
  · rintro ⟨elem₀, rest, rfl, hfit, rfl, rfl, rfl⟩
    obtain ⟨fuel, hfuel⟩ := hsplit
    obtain ⟨s', hrun, hopened, -⟩ := run_executes copy getenv o hout file rest hfit
    refine ⟨fuel, _, s', ?_, hrun, hopened⟩
    rw [createProcessEx, hfuel]
    rfl

/-- Words without a variable are not expanded. -/
theorem expanded_of_not_reference {ws : List Text} (h : ∀ w ∈ ws, ¬ IsReference w) :
    expanded getenv ws = ws := by
  induction ws with
  | nil => rfl
  | cons w ws ih =>
    unfold expanded
    rw [List.filterMap_cons_some (expand_of_not_reference (h w (List.mem_cons_self ..)))]
    exact congrArg (w :: ·) (ih fun v hv => h v (List.mem_cons_of_mem _ hv))

/-- **The command round trip**: words without spaces and without variables, joined by single spaces
and with or without one space behind them, are split off again; the first one is executed, with
those of the others as arguments that are neither an operator nor a target; and the targets are
opened in their order, the last one that can be opened being standard output. -/
theorem command_round_trip (copy : Copy) (getenv : Text → Option Text) (o : Answers) (s : Kernel)
    (hstd : s.Std) (w₀ : Text) (ws : List Text) (hne : ∀ w ∈ w₀ :: ws, w ≠ [])
    (hspace : ∀ w ∈ w₀ :: ws, ' ' ∉ w) (hreference : ∀ w ∈ ws, ¬ IsReference w)
    (hfit : (pick isOperator .argument false ws).length ≤ PROCESS_MAX_PARAMS)
    (hlen : ([' '].intercalate (w₀ :: ws)).length < intLimit) (trailing : Bool) :
    ∃ fuel prog s',
      createProcessEx copy getenv fuel
        ([' '].intercalate (w₀ :: ws) ++ if trailing then [' '] else []) = some prog ∧
      prog.run (Kernel.sys o) s =
        (.execvp w₀ (w₀ :: pick isOperator .argument false ws), s') ∧
      s'.opened = s.opened ++ pick isOperator .target false ws ∧
      s'.table.lookup 1 = stdoutFile (s.table.lookup 1)
        (lastOpened o s.opened.length (pick isOperator .target false ws)) ∧
      ∀ fd, fd ≠ 1 → s'.table.lookup fd = s.table.lookup fd := by
  have hexpanded : expanded getenv ws = ws := expanded_of_not_reference hreference
  have hkept : kept getenv false ws = pick isOperator .argument false ws := by
    rw [kept_eq, hexpanded]
  have hpaths : paths getenv false ws = pick isOperator .target false ws := by
    rw [paths_eq, hexpanded]
  have hwords : words ([' '].intercalate (w₀ :: ws) ++ if trailing then [' '] else []) =
      w₀ :: ws := by
    cases trailing with
    | false => rw [if_neg Bool.false_ne_true, List.append_nil, words_join hspace hne]
    | true => rw [if_pos rfl, words_join_space hspace (List.cons_ne_nil _ _)]
  have hlen' :
      ([' '].intercalate (w₀ :: ws) ++ if trailing then [' '] else []).length ≤ intLimit := by
    rw [List.length_append]
    cases trailing with
    | false => exact Nat.le_of_lt hlen
    | true => exact hlen
  obtain ⟨fuel, hfuel⟩ := splits_words hlen'
  rw [hwords] at hfuel
  obtain ⟨s', hrun, hopened, hstdout, hother⟩ :=
    run_executes copy getenv o (hstd 1 (by decide) (by decide)) w₀ ws (hkept ▸ hfit)
  rw [hkept] at hrun
  rw [hpaths] at hopened hstdout
  refine ⟨fuel, _, s', ?_, hrun, hopened, hstdout, hother⟩
  rw [createProcessEx, hfuel]
  rfl

/-- A kernel with the three standard descriptors. -/
def stdKernel : Kernel := ⟨[some (.other 0), some (.other 1), some (.other 2)], []⟩

/-- Every target can be opened. -/
def allOpen : Answers := ⟨fun _ _ => true, fun _ => 0⟩

theorem stdKernel_std : stdKernel.Std := by
  intro fd h0 h2
  obtain rfl | rfl | rfl : fd = 0 ∨ fd = 1 ∨ fd = 2 := by omega
  · decide
  · decide
  · decide

/-- `a > o b`. -/
theorem command_round_trip_redirect : ∃ fuel prog s',
    createProcessEx .startProcess (fun _ => none) fuel ['a', ' ', '>', ' ', 'o', ' ', 'b'] =
      some prog ∧
    prog.run (Kernel.sys allOpen) stdKernel = (.execvp ['a'] [['a'], ['b']], s') ∧
    s'.opened = [['o']] ∧ s'.table.lookup 1 = some (.target 0 ['o']) ∧
    ∀ fd, fd ≠ 1 → s'.table.lookup fd = stdKernel.table.lookup fd :=
  command_round_trip .startProcess (fun _ => none) allOpen stdKernel stdKernel_std ['a']
    [['>'], ['o'], ['b']] (by decide) (by decide) (by decide) (by decide) (by decide) false

/-! ## Additional spaces -/

/-- Two commands are executed alike. -/
def SameExecution (copy : Copy) (getenv : Text → Option Text) (o : Answers) (s : Kernel)
    (c d : Text) : Prop :=
  ∀ file argv rs, Executes copy getenv o s c file argv rs ↔ Executes copy getenv o s d file argv rs

/-- A list is padded by its blanks. -/
theorem padded_filter (l : List Text) : Padded [] (l.filter (· ≠ [])) l := by
  induction l with
  | nil => exact .nil
  | cons w l ih =>
    by_cases hw : w = []
    · rw [List.filter_cons_of_neg (by simpa using hw), hw]
      exact .blank ih
    · rw [List.filter_cons_of_pos (by simpa using hw)]
      exact .word w ih

/-- The words of a neat command are those a reader finds. -/
theorem Neat.words_eq (h : Neat c) : words c = texts c := by
  rw [texts_eq]
  refine (List.filter_eq_self.mpr fun w hw => ?_).symm
  simpa using fun hnil : w = [] => (neat_iff c).mp h (hnil ▸ hw)

/-- **More blanks, other arguments or other targets.** -/
theorem kept_or_paths_ne {ws ws' : List Text} (h : Padded [] ws ws')
    (hlt : ws.length < ws'.length) :
    ¬ (kept getenv false ws' = kept getenv false ws ∧
      paths getenv false ws' = paths getenv false ws) := by
  obtain ⟨hpadded, hlen⟩ := h.filterMap (f := expand getenv) (b := []) rfl
  rw [kept_eq, kept_eq, paths_eq, paths_eq]
  refine hpadded.pick_ne rfl ?_ false
  show (ws.filterMap (expand getenv)).length < _
  omega

/-- A command that is executed like a neat one of the same words is neat. -/
theorem neat_of_sameExecution (hstd : s.Std) (htexts : texts c = texts d)
    (hc : c.length ≤ intLimit) (hd : d.length ≤ intLimit) (hneat : Neat c)
    (hexec : Executes copy getenv o s c file argv rs) (hsame : SameExecution copy getenv o s c d) :
    Neat d := by
  have hexec' := (hsame file argv rs).mp hexec
  obtain ⟨elem₀, rest, hwords, -, rfl, rfl, rfl⟩ := (executes_iff hstd (splits_words hc)).mp hexec
  obtain ⟨_, rest', hwords', -, rfl, hargv, hrs⟩ := (executes_iff hstd (splits_words hd)).mp hexec'
  -- the words of `d` are those of `c` with empty ones put in, the first being the same
  have hfilter : (words d).filter (· ≠ []) = file :: rest := by
    rw [← texts_eq, ← htexts, ← hneat.words_eq, hwords]
  have hnil : [] ∉ file :: rest := hwords ▸ (neat_iff c).mp hneat
  have hfile : file ≠ [] := fun h => hnil (h ▸ List.mem_cons_self ..)
  rw [hwords', List.filter_cons_of_pos (by simpa using hfile)] at hfilter
  have hpadded : Padded [] rest rest' := (List.cons.inj hfilter).2 ▸ padded_filter rest'
  rw [neat_iff, hwords']
  intro hmem
  have hmem' : [] ∈ rest' := (List.mem_cons.mp hmem).resolve_left fun h => hfile h.symm
  -- an empty word makes the list longer
  have hlt : rest.length < rest'.length := by
    by_contra hge
    have heq : rest = rest' := hpadded.eq_of_length_le (Nat.not_lt.mp hge)
    exact hnil (List.mem_cons_of_mem _ (heq ▸ hmem'))
  exact kept_or_paths_ne hpadded hlt ⟨(List.cons.inj hargv).2.symm, hrs.symm⟩

/-- **Blanks only separate**: two neat commands of the same words are executed alike, and a neat
one that is executed at all is executed like no other command of its words. -/
theorem blanks_only_separate_iff (copy : Copy) (getenv : Text → Option Text) (o : Answers)
    (s : Kernel) (hstd : s.Std) (c d : Text) (htexts : texts c = texts d)
    (hc : c.length ≤ intLimit) (hd : d.length ≤ intLimit) :
    (Neat c ∧ Neat d → SameExecution copy getenv o s c d) ∧
    ((∃ file argv rs, Executes copy getenv o s c file argv rs) → Neat c ∨ Neat d →
      SameExecution copy getenv o s c d → Neat c ∧ Neat d) := by
  constructor
  · rintro ⟨hneat, hneat'⟩ file argv rs
    have hwords : words c = words d := by
      rw [hneat.words_eq, hneat'.words_eq, htexts]
    rw [executes_iff hstd (splits_words hc), executes_iff hstd (splits_words hd), hwords]
  · rintro ⟨file, argv, rs, hexec⟩ hneat hsame
    rcases hneat with hneat | hneat
    · exact ⟨hneat, neat_of_sameExecution hstd htexts hc hd hneat hexec hsame⟩
    -- the other one is neat: the same argument, with the commands exchanged
    · have hexec' := (hsame file argv rs).mp hexec
      have hsame' : SameExecution copy getenv o s d c := fun f a r => (hsame f a r).symm
      exact ⟨neat_of_sameExecution hstd htexts.symm hd hc hneat hexec' hsame', hneat⟩

/-- `a b` and `a b` with a space behind it. -/
theorem blanks_only_separate_iff_trailing :
    SameExecution .startProcess (fun _ => none) allOpen stdKernel ['a', ' ', 'b']
      ['a', ' ', 'b', ' '] :=
  (blanks_only_separate_iff .startProcess (fun _ => none) allOpen stdKernel stdKernel_std
    ['a', ' ', 'b'] ['a', ' ', 'b', ' '] (by decide) (by decide) (by decide)).1
    ⟨⟨by decide, by decide⟩, ⟨by decide, by decide⟩⟩

/-- **Two spaces are not one**: between `a` and `b` they make an empty argument. -/
theorem two_spaces_make_an_argument :
    texts ['a', ' ', ' ', 'b'] = texts ['a', ' ', 'b'] ∧
    Executes .startProcess (fun _ => none) allOpen stdKernel ['a', ' ', 'b'] ['a']
      [['a'], ['b']] [] ∧
    Executes .startProcess (fun _ => none) allOpen stdKernel ['a', ' ', ' ', 'b'] ['a']
      [['a'], [], ['b']] [] ∧
    ¬ SameExecution .startProcess (fun _ => none) allOpen stdKernel ['a', ' ', ' ', 'b']
      ['a', ' ', 'b'] := by
  have hone : Splits ['a', ' ', 'b'] [['a'], ['b']] := ⟨4, by decide⟩
  have htwo : Splits ['a', ' ', ' ', 'b'] [['a'], [], ['b']] := ⟨5, by decide⟩
  have hexec : Executes .startProcess (fun _ => none) allOpen stdKernel ['a', ' ', ' ', 'b'] ['a']
      [['a'], [], ['b']] [] :=
    (executes_iff stdKernel_std htwo).mpr
      ⟨['a'], [[], ['b']], rfl, by decide, rfl, by decide, by decide⟩
  refine ⟨by decide, ?_, hexec, fun hsame => ?_⟩
  · exact (executes_iff stdKernel_std hone).mpr
      ⟨['a'], [['b']], rfl, by decide, rfl, by decide, by decide⟩
  · obtain ⟨_, _, hcons, -, rfl, hargv, -⟩ :=
      (executes_iff stdKernel_std hone).mp ((hsame _ _ _).mp hexec)
    obtain ⟨-, rfl⟩ := List.cons.inj hcons
    exact absurd hargv (by decide)

end EngineerLinux.StartProcess
