import EngineerLinux.GSpawn.Model
import EngineerLinux.StartProcess.Scan
import Mathlib.Tactic.Common

/-!
# The names that `g_execute` tries

The loop over the directories builds each name in front of the one copy of the file's name that it
has made, over what is left of the names before.

- `searchLoop_eq`: the loop, by induction on what is left of the path. In each turn what is behind
  the slash is still the file's name, and a directory that comes later is not too long for what is
  in front of it;
- `returns_attempts`: the array that is handed to the shell is terminated, unless `argv` is empty;
- `g_execute_searches`: **the names are right all the same**: each directory, a slash and the file,
  or the file alone for an empty directory, in the order of the path, until one can be executed or
  fails with an error that is not about the file.
-/

namespace EngineerLinux.GSpawn

open StartProcess

/-! ## Purpose -/

/-- What is tried for a file that is searched for. -/
def names (file path : Text) : List Text :=
  (path.splitOn ':').map fun dir => if dir = [] then file else dir ++ '/' :: file

/-- One name after the other; `errno` is from the last one, and `denied` says that one could not be
executed for want of permission. -/
def attempts (argv : List Text) (envp : Option (List Text)) (errno : Int) (denied : Bool) :
    List Text → Prog Calls Executed
  | [] => pure (.failed (if denied then EACCES else errno))
  | file :: files =>
    tryExecute file argv envp >>= Executed.onFailure fun errno =>
      if triesNext errno then attempts argv envp errno (denied || errno = EACCES) files
      else pure (.failed errno)

variable {file path dir p : Text} {argv : List Text} {envp : Option (List Text)}
  {mem mem' : List (Option Char)} {name : Nat}

/-! ## Strings in memory -/

theorem my_strchrnul_of_notMem (h : ':' ∉ p) : my_strchrnul p ':' = (p, []) := by
  induction p with
  | nil => rfl
  | cons c p ih =>
    obtain ⟨hc, hp⟩ := not_or.mp (List.mem_cons.not.mp h)
    rw [my_strchrnul, if_pos (Ne.symm hc), ih hp]

theorem my_strchrnul_append (h : ':' ∉ dir) (p : Text) :
    my_strchrnul (dir ++ ':' :: p) ':' = (dir, ':' :: p) := by
  induction dir with
  | nil => rfl
  | cons c dir ih =>
    obtain ⟨hc, hdir⟩ := not_or.mp (List.mem_cons.not.mp h)
    rw [List.cons_append, my_strchrnul, if_pos (Ne.symm hc), ih hdir]

theorem cstring_map (h : NUL ∉ file) (rest : List (Option Char)) :
    cstring (file.map some ++ some NUL :: rest) = some file := by
  induction file with
  | nil => rfl
  | cons c file ih =>
    obtain ⟨hc, hfile⟩ := not_or.mp (List.mem_cons.not.mp h)
    rw [List.map_cons, List.cons_append, cstring, if_neg (Ne.symm hc), ih hfile]
    rfl

/-- What is behind the slash, and the slash. -/
def slashName (file : Text) : List (Option Char) := some '/' :: (file ++ [NUL]).map some

/-- The directory is copied in front of the slash, over what has been there. -/
theorem write_dir (hmem : mem.drop name = slashName file) (hdir : dir.length ≤ name)
    (hlen : name < mem.length) : ∃ mem', Buffer.write mem (name - dir.length) (dir.map some) =
      some mem' ∧ mem'.drop (name - dir.length) = dir.map some ++ slashName file ∧
      mem'.drop name = slashName file ∧ mem'.length = mem.length := by
  obtain ⟨mem', hwrite⟩ := Buffer.write_eq_some_iff.mpr
    (show name - dir.length + (dir.map some).length ≤ mem.length by rw [List.length_map]; omega)
  have hsum : name - dir.length + (dir.map some).length = name := by
    rw [List.length_map]
    omega
  have hdrop := Buffer.drop_write hwrite
  rw [hsum, hmem] at hdrop
  refine ⟨mem', hwrite, hdrop, ?_, Buffer.length_write hwrite⟩
  conv_lhs => rw [← hsum, ← List.drop_drop, hdrop]
  exact List.drop_left

/-! ## The loop -/

/-- One turn of the loop, as far as the directory that it begins with. -/
theorem searchLoop_turn (argv : List Text) (envp : Option (List Text)) (hfile : NUL ∉ file)
    (hdir : NUL ∉ dir) (hmem : mem.drop name = slashName file) (hlen : name < mem.length)
    (hle : dir.length ≤ name)
    {rest : Text} (hsplit : my_strchrnul p ':' = (dir, rest)) (got_eacces : Bool) :
    ∃ mem', mem'.drop name = slashName file ∧ mem'.length = mem.length ∧
      searchLoop argv envp name mem got_eacces p =
        (tryExecute (if dir = [] then file else dir ++ '/' :: file) argv envp >>=
          Executed.onFailure fun errno =>
            if triesNext errno then
              if rest = [] then
                pure (.failed (if got_eacces || errno = EACCES then EACCES else errno))
              else searchLoop argv envp name mem' (got_eacces || errno = EACCES) rest.tail
            else pure (.failed errno)) := by
  by_cases hempty : dir = []
  · refine ⟨mem, hmem, rfl, ?_⟩
    have hname : cstring (mem.drop (name + 1)) = some file := by
      rw [← List.drop_drop, hmem, slashName, List.drop_succ_cons, List.drop_zero, List.map_append]
      exact cstring_map hfile []
    rw [searchLoop]
    simp only [hsplit, if_pos hempty, hname, dite_eq_ite]
  · obtain ⟨mem', hwrite, hname, hmem', hlength⟩ := write_dir hmem hle hlen
    refine ⟨mem', hmem', hlength, ?_⟩
    have hstring : cstring (mem'.drop (name - dir.length)) = some (dir ++ '/' :: file) := by
      have hnul : NUL ∉ dir ++ '/' :: file := by
        simp only [List.mem_append, List.mem_cons, not_or]
        exact ⟨hdir, by decide, hfile⟩
      rw [hname, ← cstring_map hnul []]
      simp [slashName]
    rw [searchLoop]
    simp only [hsplit, if_neg hempty, if_pos hle, hwrite, Option.map_some, hstring, dite_eq_ite]

theorem searchLoop_eq (hfile : NUL ∉ file) (hp : NUL ∉ p) (hle : p.length ≤ name)
    (hmem : mem.drop name = slashName file) (hlen : name < mem.length) (errno : Int)
    (got_eacces : Bool) : searchLoop argv envp name mem got_eacces p =
      attempts argv envp errno got_eacces (names file p) := by
  -- by induction on what is left of the path, a directory at a time
  induction hn : p.length using Nat.strongRecOn generalizing p mem errno got_eacces with
  | ind n ih =>
    by_cases hcolon : ':' ∈ p
    · obtain ⟨dir, rest, rfl, hdir⟩ := List.eq_append_cons_of_mem hcolon
      rw [List.mem_append, List.mem_cons, not_or, not_or] at hp
      rw [List.length_append, List.length_cons] at hle hn
      obtain ⟨mem', hmem', hlength, heq⟩ := searchLoop_turn argv envp hfile hp.1 hmem
        hlen (by omega) (my_strchrnul_append hdir rest) got_eacces
      rw [heq, names, List.splitOn_append_cons_self_of_not_mem hdir, List.map_cons, attempts]
      refine congrArg (fun k => _ >>= Executed.onFailure k) (funext fun errno => ?_)
      rw [if_neg (List.cons_ne_nil _ _), List.tail_cons,
        ih rest.length (by omega) hp.2.2 (by omega) hmem' (by omega) errno _ rfl, names]
    · obtain ⟨mem', -, -, heq⟩ := searchLoop_turn argv envp hfile hp hmem hlen hle
        (my_strchrnul_of_notMem hcolon) got_eacces
      rw [heq, names, List.splitOn_eq_singleton hcolon, List.map_singleton, attempts]
      rfl

/-! ## `g_execute` -/

/-- One name alone. -/
theorem attempts_singleton (errno : Int) :
    attempts argv envp errno false [file] = tryExecute file argv envp := by
  have hret : ∀ q : Prog Calls Executed, q.bind Prog.ret = q := by
    intro q
    induction q with
    | ret r => rfl
    | call c k ih => exact congrArg (Prog.call c) (funext ih)
  have hfailed : ∀ errno : Int, (if triesNext errno then
      attempts argv envp errno (false || errno = EACCES) [] else pure (.failed errno)) =
        (pure (.failed errno) : Prog Calls Executed) := by
    intro errno
    rw [attempts, Bool.false_or]
    by_cases hdenied : errno = EACCES
    · rw [hdenied]
      rfl
    · rw [decide_eq_false hdenied, if_neg Bool.false_ne_true, ite_self]
  rw [attempts, funext hfailed]
  refine Eq.trans (congrArg _ (funext fun r => ?_)) (hret _)
  cases r <;> rfl

/-- It tries the file itself, or its names in the directories of the path. -/
theorem g_execute_eq_attempts (g_getenv : Text → Option Text) (hfile : NUL ∉ file)
    (search_path search_path_from_envp : Bool)
    (hpath : NUL ∉ searchPath g_getenv envp search_path search_path_from_envp) :
    g_execute g_getenv file argv envp search_path search_path_from_envp =
      if file = [] then pure (.failed ENOENT)
      else attempts argv envp ENOENT false
        (if !(search_path || search_path_from_envp) || file.contains '/' then [file]
          else names file (searchPath g_getenv envp search_path search_path_from_envp)) := by
  unfold g_execute
  split
  · rfl
  · split
    · rw [attempts_singleton]
    · generalize searchPath g_getenv envp search_path search_path_from_envp = path at hpath ⊢
      -- the name and the null character behind it end where the memory ends
      have hroom : path.length + 1 + ((file ++ [NUL]).map some).length =
          (List.replicate (path.length + (file.length + 1) + 1) (none : Option Char)).length := by
        simp only [List.length_map, List.length_append, List.length_replicate,
          List.length_singleton]
        omega
      obtain ⟨mem, hwrite⟩ := Buffer.write_eq_some_iff.mpr (Nat.le_of_eq hroom)
      have hlen := Buffer.length_write hwrite
      have hname := Buffer.drop_write hwrite
      rw [List.drop_of_length_le (Nat.le_of_eq hroom.symm), List.append_nil] at hname
      rw [List.length_replicate] at hlen
      obtain ⟨mem', hslash⟩ := Buffer.write_eq_some_iff.mpr
        (show path.length + [some '/'].length ≤ mem.length by rw [List.length_singleton]; omega)
      have hlen' := Buffer.length_write hslash
      have hmem := Buffer.drop_write hslash
      rw [List.length_singleton, hname] at hmem
      simp only [hwrite, hslash]
      exact searchLoop_eq hfile hpath (Nat.le_refl _) hmem (by omega) ENOENT false

/-! ## The shell -/

/-- What the loop has put behind the first two elements when it comes to its end. -/
def copied (argv : List Text) (n : Nat) : List Slot :=
  (List.range n).map fun i => (argv[i + 1]?).elim .null .str

theorem copyLoop_eq (argv : List Text) (n : Nat) (a b : Slot) (rest : List Slot)
    (hn : n ≤ rest.length) :
    copyLoop argv n (a :: b :: rest) = some (a :: b :: (copied argv n ++ rest.drop n)) := by
  induction n generalizing rest with
  | zero => rfl
  | succ n ih =>
    have hwrite : Buffer.write (a :: b :: rest) (n + 2) [(argv[n + 1]?).elim Slot.null .str] =
        some (a :: b ::
          (rest.take n ++ ((argv[n + 1]?).elim .null .str :: rest.drop (n + 1)))) := by
      unfold Buffer.write
      rw [if_pos (by simp only [List.length_cons, List.length_nil]; omega)]
      rfl
    have hlen : (rest.take n).length = n := by
      rw [List.length_take]
      omega
    rw [copyLoop, hwrite, Option.bind_some, ih _ (by rw [List.length_append, hlen]; omega),
      List.drop_left' hlen, copied, copied, List.range_succ, List.map_append, List.append_assoc]
    rfl

/-- All elements but the first one, and the null pointer. -/
theorem copied_cons (a : Text) (argv : List Text) :
    copied (a :: argv) (argv.length + 1) = argv.map .str ++ [.null] := by
  have hstr : ∀ l : List Text, (List.range l.length).map (fun i => (l[i]?).elim .null Slot.str) =
      l.map .str := by
    intro l
    refine List.ext_getElem (by simp) fun i hi hi' => ?_
    simp at hi'
    simp [hi']
  unfold copied
  simp only [List.getElem?_cons_succ]
  rw [List.range_succ, List.map_append, hstr, List.map_singleton,
    List.getElem?_eq_none (Nat.le_refl _)]
  rfl

/-- The shell gets the name of the file in the place of the first element. -/
theorem script_execute_cons (a : Text) : script_execute file (a :: argv) envp =
    execv binSh (binSh :: file :: argv) envp := by
  unfold script_execute
  simp only [List.length_cons]
  rw [List.replicate_succ, List.replicate_succ, List.set_cons_zero, List.set_cons_succ,
    List.set_cons_zero, copyLoop_eq _ _ _ _ _ (by simp), copied_cons,
    List.drop_of_length_le (by simp), List.append_nil, Option.bind_some]
  have hargv := argv_map_str (binSh :: file :: argv) []
  rw [List.map_cons, List.map_cons, List.cons_append, List.cons_append] at hargv
  rw [hargv]

theorem returns_execv (path : Text) : (execv path argv envp).Returns (· ≠ .invalid) := by
  rintro (errno | _) <;> exact Executed.noConfusion

theorem Executed.returns_onFailure {k : Int → Prog Calls Executed} {r : Executed}
    (hr : r ≠ .invalid) (hk : ∀ errno, (k errno).Returns (· ≠ .invalid)) :
    (r.onFailure k).Returns (· ≠ .invalid) := by
  cases r with
  | replaced => exact Executed.noConfusion
  | failed errno => exact hk errno
  | invalid => exact absurd rfl hr

theorem returns_onFailure {q : Prog Calls Executed} {k : Int → Prog Calls Executed}
    (hq : q.Returns (· ≠ .invalid)) (hk : ∀ errno, (k errno).Returns (· ≠ .invalid)) :
    (q >>= Executed.onFailure k).Returns (· ≠ .invalid) :=
  Prog.Returns.bind (hq.imp fun _ hr => Executed.returns_onFailure hr hk)

theorem returns_tryExecute (h : argv ≠ []) (file : Text) :
    (tryExecute file argv envp).Returns (· ≠ .invalid) := by
  refine returns_onFailure (returns_execv file) fun errno => ?_
  obtain ⟨a, argv, rfl⟩ := List.exists_cons_of_ne_nil h
  split
  · rw [script_execute_cons]
    exact returns_execv binSh
  · exact Executed.noConfusion

theorem returns_attempts (h : argv ≠ []) (files : List Text) (errno : Int) (denied : Bool) :
    (attempts argv envp errno denied files).Returns (· ≠ .invalid) := by
  induction files generalizing errno denied with
  | nil => exact Executed.noConfusion
  | cons file files ih =>
    refine returns_onFailure (returns_tryExecute h file) fun errno => ?_
    split
    · exact ih ..
    · exact Executed.noConfusion

/-- All arrays are terminated unless there are no arguments, as when `argv` is nothing but the name
of the file and that is left out; then it takes one file that is a script. -/
theorem reads_argv_iff (g_getenv : Text → Option Text) (hfile : NUL ∉ file)
    (search_path search_path_from_envp : Bool)
    (hpath : NUL ∉ searchPath g_getenv envp search_path search_path_from_envp) :
    (g_execute g_getenv file argv envp search_path search_path_from_envp).Returns (· ≠ .invalid) ↔
      argv ≠ [] ∨ file = [] := by
  rw [g_execute_eq_attempts g_getenv hfile _ _ hpath]
  split
  · next hempty =>
    exact iff_of_true Executed.noConfusion (.inr hempty)
  · next hfile =>
    rw [or_iff_left hfile]
    refine ⟨fun h => ?_, fun h => returns_attempts h _ _ _⟩
    rintro rfl
    obtain ⟨first, files, hfiles⟩ : ∃ first files,
        (if !(search_path || search_path_from_envp) || file.contains '/' then [file]
          else names file (searchPath g_getenv envp search_path search_path_from_envp)) =
            first :: files := by
      split
      · exact ⟨_, _, rfl⟩
      · refine List.exists_cons_of_ne_nil ?_
        unfold names
        rw [Ne, List.map_eq_nil_iff]
        exact List.splitOn_ne_nil ':' _
    rw [hfiles] at h
    exact h (.error ENOEXEC) rfl

/-- **`g_execute`**: whatever the calls answer, it tries the file itself, or its names in the
directories of the path one after the other, each of them also as a script for the shell; and it
reads no array that is not terminated, except for an empty `argv` where a file is given. -/
theorem g_execute_searches (g_getenv : Text → Option Text) (file : Text) (argv : List Text)
    (envp : Option (List Text)) (search_path search_path_from_envp : Bool) (hfile : NUL ∉ file)
    (hpath : NUL ∉ searchPath g_getenv envp search_path search_path_from_envp) :
    g_execute g_getenv file argv envp search_path search_path_from_envp =
      (if file = [] then pure (.failed ENOENT)
      else attempts argv envp ENOENT false
        (if !(search_path || search_path_from_envp) || file.contains '/' then [file]
          else names file (searchPath g_getenv envp search_path search_path_from_envp))) ∧
    (argv ≠ [] → ∀ name,
      script_execute name argv envp = execv binSh (binSh :: name :: argv.tail) envp) ∧
    ((g_execute g_getenv file argv envp search_path search_path_from_envp).Returns (· ≠ .invalid) ↔
      argv ≠ [] ∨ file = []) := by
  refine ⟨g_execute_eq_attempts g_getenv hfile _ _ hpath, fun hargv name => ?_,
    reads_argv_iff g_getenv hfile _ _ hpath⟩
  obtain ⟨a, argv, rfl⟩ := List.exists_cons_of_ne_nil hargv
  exact script_execute_cons a

/-- `ls` with an empty directory in the path. -/
theorem g_execute_searches_ls :
    g_execute (fun _ => some "/bin:".toList) "ls".toList ["ls".toList] none true false =
        attempts ["ls".toList] none ENOENT false ["/bin/ls".toList, "ls".toList] ∧
      script_execute "ls".toList ["ls".toList] none =
        execv "/bin/sh".toList ["/bin/sh".toList, "ls".toList] none ∧
      (g_execute (fun _ => some "/bin:".toList) "ls".toList ["ls".toList] none true false).Returns
        (· ≠ .invalid) := by
  obtain ⟨heq, hscript, hiff⟩ := g_execute_searches (fun _ => some "/bin:".toList) "ls".toList
    ["ls".toList] none true false (by decide) (by decide)
  exact ⟨heq, hscript (List.cons_ne_nil _ _) _, hiff.mpr (.inl (List.cons_ne_nil _ _))⟩

end EngineerLinux.GSpawn
