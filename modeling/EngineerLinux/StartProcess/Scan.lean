import EngineerLinux.Lib.Redirect
import EngineerLinux.StartProcess.Split

/-!
# What the loop over the words does

Each turn of the loop (`main.c` 102-133) decides on one word. The decisions are those of a scan for
`>` and the word behind it, over the words as they are after expansion; and the child makes exactly
the calls they ask for.

The loop is thus taken apart into what it decides, which depends on the words and the environment
alone (`decisions`), and what it does with a decision, which depends on how many slots of `args` are
used. Each half is an induction on the words, and nothing behind this module looks at the loop.

- `kept_eq`, `paths_eq`: the decisions, by the scan of the expanded words;
- `run_eq`: **the child of a command whose words fit** opens the targets in their order, and calls
  `execvp` with the words that are kept;
- `no_out_of_range_iff`: no access is out of range exactly if there is a word, and 32 of the others
  at most are kept.
-/

namespace EngineerLinux.StartProcess

open Redirect

variable {getenv : Text → Option Text} {copy : Copy} {command elem₀ : Text} {elems : List Text}
  {redirection : Bool}

/-! ## Decisions -/

/-- The redirection operator. -/
def isOperator (w : Text) : Bool := w = ['>']

/-- `redirection`, behind a turn. -/
def Decision.flag (redirection : Bool) : Decision → Bool
  | .skip | .keep _ => redirection
  | .redirect _ => false
  | .operator => true

/-- The decisions on the words, one after the other. -/
def decisions (getenv : Text → Option Text) (redirection : Bool) : List Text → List Decision
  | [] => []
  | elem :: elems =>
    iteration getenv redirection elem ::
      decisions getenv ((iteration getenv redirection elem).flag redirection) elems

def Decision.path : Decision → Option Text
  | .redirect path => some path
  | _ => none

def Decision.arg : Decision → Option Text
  | .keep arg => some arg
  | _ => none

/-- The targets that are opened. -/
def paths (getenv : Text → Option Text) (redirection : Bool) (elems : List Text) : List Text :=
  (decisions getenv redirection elems).filterMap Decision.path

/-- The words that become arguments. -/
def kept (getenv : Text → Option Text) (redirection : Bool) (elems : List Text) : List Text :=
  (decisions getenv redirection elems).filterMap Decision.arg

/-- The words after expansion. -/
def expanded (getenv : Text → Option Text) (elems : List Text) : List Text :=
  elems.filterMap (expand getenv)

theorem charAt_zero_eq_iff (w : Text) (c : Char) : charAt w 0 = c ∧ w.length = 1 ↔ w = [c] := by
  match w with
  | [] => exact iff_of_false (fun h => nomatch h.2) nofun
  | [d] => exact ⟨fun h => congrArg (fun x => [x]) h.1, fun h => ⟨(List.cons.inj h).1, rfl⟩⟩
  | _ :: _ :: _ => exact iff_of_false (fun h => nomatch h.2) nofun

/-- The decision on an expanded word. -/
def Decision.ofRole (w : Text) : Role → Decision
  | .target => .redirect w
  | .operator => .operator
  | .argument => .keep w

/-- A turn, by what the scan says of the expanded word. -/
theorem iteration_eq {elem w : Text} (h : expand getenv elem = some w) :
    iteration getenv redirection elem = .ofRole w (role isOperator redirection w) := by
  unfold iteration role
  rw [h]
  cases redirection with
  | true => rfl
  | false =>
    simp only [Bool.false_eq_true, if_false, charAt_zero_eq_iff, isOperator, decide_eq_true_eq]
    split <;> rfl

theorem iteration_skip {elem : Text} (h : expand getenv elem = none) :
    iteration getenv redirection elem = .skip := by
  unfold iteration
  rw [h]

theorem decisions_skip {elem : Text} (h : expand getenv elem = none) :
    decisions getenv redirection (elem :: elems) = .skip :: decisions getenv redirection elems := by
  rw [decisions, iteration_skip h]
  rfl

theorem decisions_some {elem w : Text} (h : expand getenv elem = some w) :
    decisions getenv redirection (elem :: elems) =
      .ofRole w (role isOperator redirection w) ::
        decisions getenv (role isOperator redirection w).pending elems := by
  rw [decisions, iteration_eq h]
  congr 2
  cases hrole : role isOperator redirection w with
  | target | operator => rfl
  | argument => exact pending_of_argument hrole

/-- What one kind of decision takes from the words is what the scan picks from the expanded ones. -/
theorem filterMap_decisions {f : Decision → Option Text} {r : Role} (hskip : f .skip = none)
    (hf : ∀ w r', f (.ofRole w r') = if r' = r then some w else none) (redirection : Bool)
    (elems : List Text) :
    (decisions getenv redirection elems).filterMap f =
      pick isOperator r redirection (expanded getenv elems) := by
  induction elems generalizing redirection with
  | nil => rfl
  | cons elem elems ih =>
    unfold expanded
    cases h : expand getenv elem with
    | none =>
      rw [decisions_skip h, List.filterMap_cons_none hskip, List.filterMap_cons_none h]
      exact ih redirection
    | some w =>
      rw [decisions_some h, List.filterMap_cons_some h, List.filterMap_cons, hf, ih]
      -- the expanded word is picked by both, or by neither
      by_cases hrole : role isOperator redirection w = r
      · rw [if_pos hrole, pick_cons_self hrole, ← hrole]
        rfl
      · rw [if_neg hrole, pick_cons_of_ne hrole]
        rfl

/-- **The words that become arguments** are the arguments among the expanded words. -/
theorem kept_eq (getenv : Text → Option Text) (redirection : Bool) (elems : List Text) :
    kept getenv redirection elems =
      pick isOperator .argument redirection (expanded getenv elems) :=
  filterMap_decisions rfl (fun _ r => by cases r <;> rfl) redirection elems

/-- **The targets that are opened** are the targets among the expanded words. -/
theorem paths_eq (getenv : Text → Option Text) (redirection : Bool) (elems : List Text) :
    paths getenv redirection elems =
      pick isOperator .target redirection (expanded getenv elems) :=
  filterMap_decisions rfl (fun _ r => by cases r <;> rfl) redirection elems

theorem kept_cons {elem : Text} {d : Decision} (h : iteration getenv redirection elem = d) :
    kept getenv redirection (elem :: elems) =
      d.arg.toList ++ kept getenv (d.flag redirection) elems := by
  rw [kept, decisions, h]
  cases d <;> rfl

theorem paths_cons {elem : Text} {d : Decision} (h : iteration getenv redirection elem = d) :
    paths getenv redirection (elem :: elems) =
      d.path.toList ++ paths getenv (d.flag redirection) elems := by
  rw [paths, decisions, h]
  cases d <;> rfl

/-! ## The calls -/

/-- Output is redirected to these files, one after the other. -/
def redirectAll {R : Type} (k : Prog Posix R) : List Text → Prog Posix R
  | [] => k
  | path :: paths =>
    .call (.open path) fun fd =>
    .call (.dup2 fd 1) fun _ =>
    .call (.close fd) fun _ =>
    redirectAll k paths

theorem redirectAll_bind {R T : Type} (k : Prog Posix R) (q : R → Prog Posix T) (ps : List Text) :
    (redirectAll k ps).bind q = redirectAll (k.bind q) ps := by
  induction ps with
  | nil => rfl
  | cons p ps ih =>
    simp only [redirectAll, Prog.bind, ih]

/-- **The loop, when the kept words fit**: it makes the calls for the targets, and puts the kept
words into `args` from `j` on. -/
theorem argsLoop_eq (elems : List Text) (redirection : Bool) (front rest : List Slot)
    (hfit : (kept getenv redirection elems).length ≤ rest.length) :
    argsLoop getenv elems redirection front.length (front ++ rest) =
      redirectAll (.ret (.ok (front.length + (kept getenv redirection elems).length,
        front ++ ((kept getenv redirection elems).map .str ++
          rest.drop (kept getenv redirection elems).length))))
        (paths getenv redirection elems) := by
  induction elems generalizing redirection front rest with
  | nil => rfl
  | cons elem elems ih =>
    rw [argsLoop]
    cases hdec : iteration getenv redirection elem with
    | skip =>
      rw [kept_cons hdec] at hfit ⊢
      rw [paths_cons hdec]
      exact ih redirection front rest hfit
    | operator =>
      rw [kept_cons hdec] at hfit ⊢
      rw [paths_cons hdec]
      exact ih true front rest hfit
    | redirect path =>
      rw [kept_cons hdec] at hfit ⊢
      rw [paths_cons hdec]
      show Prog.call _ _ = Prog.call _ _
      rw [ih false front rest hfit]
      rfl
    | keep arg =>
      rw [kept_cons hdec] at hfit ⊢
      rw [paths_cons hdec]
      cases rest with
      -- the kept words fit, so a slot is left
      | nil => exact absurd hfit (by simp [Decision.arg])
      | cons slot rest =>
        have hnext := ih redirection (front ++ [.str arg]) rest (Nat.le_of_succ_le_succ hfit)
        rw [List.length_append, List.length_singleton] at hnext
        dsimp only
        rw [Buffer.write_next]
        dsimp only
        rw [hnext, List.append_assoc, Nat.add_assoc, Nat.add_comm 1]
        rfl

/-- **The loop, when the kept words do not fit**, ends with a write outside `args`. -/
theorem argsLoop_fault (elems : List Text) (redirection : Bool) (front rest : List Slot)
    (hfit : rest.length < (kept getenv redirection elems).length) :
    ∃ ps, argsLoop getenv elems redirection front.length (front ++ rest) =
      redirectAll (.ret (.error .args)) ps := by
  induction elems generalizing redirection front rest with
  | nil => exact absurd hfit (Nat.not_lt_zero _)
  | cons elem elems ih =>
    rw [argsLoop]
    cases hdec : iteration getenv redirection elem with
    | skip =>
      rw [kept_cons hdec] at hfit
      exact ih redirection front rest hfit
    | operator =>
      rw [kept_cons hdec] at hfit
      exact ih true front rest hfit
    | redirect path =>
      rw [kept_cons hdec] at hfit
      obtain ⟨ps, hps⟩ := ih false front rest hfit
      refine ⟨path :: ps, ?_⟩
      dsimp only
      rw [hps]
      rfl
    | keep arg =>
      rw [kept_cons hdec] at hfit
      cases rest with
      -- no slot is left for this word
      | nil =>
        dsimp only
        rw [List.append_nil, Buffer.write_full]
        exact ⟨[], rfl⟩
      | cons slot rest =>
        obtain ⟨ps, hps⟩ := ih redirection (front ++ [.str arg]) rest
          (Nat.lt_of_succ_lt_succ hfit)
        rw [List.length_append, List.length_singleton] at hps
        refine ⟨ps, ?_⟩
        dsimp only
        rw [Buffer.write_next]
        exact hps

/-! ## The child -/

/-- The strings of `args` before the null pointer. -/
theorem argv_map_str (ws : List Text) (rest : List Slot) :
    argv (ws.map .str ++ .null :: rest) = some ws := by
  induction ws with
  | nil => rfl
  | cons w ws ih =>
    show (argv (ws.map .str ++ .null :: rest)).map (w :: ·) = _
    rw [ih]
    rfl

/-- The end of the child, with a slot left for the null pointer. -/
theorem exec_eq (copy : Copy) (elem₀ : Text) (ws : List Text) (slot : Slot) (rest : List Slot) :
    exec copy (2 + ws.length) ([.str elem₀, .str elem₀] ++ (ws.map .str ++ slot :: rest)) =
      (prepare copy).bind fun _ => .ret (.execvp elem₀ (elem₀ :: ws)) := by
  have hlen : ([.str elem₀, .str elem₀] ++ ws.map Slot.str : List Slot).length = 2 + ws.length := by
    rw [List.length_append, List.length_map]
    rfl
  have hargv : argv (List.drop 1 ([.str elem₀, .str elem₀] ++ ws.map .str ++ [.null] ++ rest)) =
      some (elem₀ :: ws) := by
    rw [List.append_assoc, List.append_assoc]
    exact argv_map_str (elem₀ :: ws) rest
  unfold exec
  rw [← hlen, ← List.append_assoc, Buffer.write_next]
  dsimp only
  rw [hargv]
  rfl

/-- The end of the child, when `args` is full. -/
theorem exec_full (copy : Copy) (args : List Slot) :
    exec copy args.length args = .ret (.fault .args) := by
  unfold exec
  rw [Buffer.write_full]

/-- `args` before the loop. -/
theorem args_start (elem₀ : Text) :
    ((List.replicate (PROCESS_MAX_PARAMS + 3) Slot.uninit).set 0 (.str elem₀)).set 1 (.str elem₀) =
      [.str elem₀, .str elem₀] ++ List.replicate (PROCESS_MAX_PARAMS + 1) .uninit := rfl

/-- **The child, when the kept words fit**: it opens the targets in their order, and calls `execvp`
with the first word and the kept ones. -/
theorem run_eq (copy : Copy) (getenv : Text → Option Text) (elem₀ : Text) (elems : List Text)
    (hfit : (kept getenv false elems).length ≤ PROCESS_MAX_PARAMS) :
    run copy getenv (elem₀ :: elems) =
      redirectAll ((prepare copy).bind fun _ =>
        .ret (.execvp elem₀ (elem₀ :: kept getenv false elems))) (paths getenv false elems) := by
  have hloop := argsLoop_eq elems false [.str elem₀, .str elem₀]
    (List.replicate (PROCESS_MAX_PARAMS + 1) .uninit)
    (by rw [List.length_replicate]; exact Nat.le_succ_of_le hfit)
  -- behind the kept words there is a slot for the null pointer
  have hrest : List.drop (kept getenv false elems).length
      (List.replicate (PROCESS_MAX_PARAMS + 1) Slot.uninit) = .uninit ::
        List.replicate (PROCESS_MAX_PARAMS - (kept getenv false elems).length) .uninit := by
    rw [List.drop_replicate, Nat.succ_sub hfit, List.replicate_succ]
  unfold run
  dsimp only
  rw [args_start]
  rw [hrest] at hloop
  refine (congrArg (Prog.bind · _) hloop).trans ?_
  rw [redirectAll_bind]
  congr 1
  exact exec_eq copy elem₀ _ _ _

/-- **The child, when they do not fit**, writes outside `args`. -/
theorem run_fault (copy : Copy) (getenv : Text → Option Text) (elem₀ : Text) (elems : List Text)
    (hfit : PROCESS_MAX_PARAMS < (kept getenv false elems).length) :
    ∃ ps, run copy getenv (elem₀ :: elems) = redirectAll (.ret (.fault .args)) ps := by
  unfold run
  dsimp only
  rw [args_start]
  -- either a word is written outside `args`, or the null pointer is
  rcases Nat.lt_or_ge (PROCESS_MAX_PARAMS + 1) (kept getenv false elems).length with hlt | hge
  · obtain ⟨ps, hps⟩ := argsLoop_fault elems false [.str elem₀, .str elem₀]
      (List.replicate (PROCESS_MAX_PARAMS + 1) .uninit) (by rwa [List.length_replicate])
    refine ⟨ps, (congrArg (Prog.bind · _) hps).trans ?_⟩
    exact redirectAll_bind _ _ ps
  · -- the loop fills the last slot, and none is left for the null pointer
    have hloop := argsLoop_eq elems false [.str elem₀, .str elem₀]
      (List.replicate (PROCESS_MAX_PARAMS + 1) .uninit) (by rwa [List.length_replicate])
    rw [List.drop_eq_nil_of_le (by rw [List.length_replicate]; exact hfit),
      List.append_nil] at hloop
    refine ⟨paths getenv false elems, (congrArg (Prog.bind · _) hloop).trans ?_⟩
    rw [redirectAll_bind]
    congr 1
    have hlen :
        ([.str elem₀, .str elem₀] ++ (kept getenv false elems).map Slot.str : List Slot).length =
          2 + (kept getenv false elems).length := by
      rw [List.length_append, List.length_map]
      rfl
    have hfull := exec_full copy ([.str elem₀, .str elem₀] ++ (kept getenv false elems).map .str)
    rw [hlen] at hfull
    exact hfull

/-- What the child does with the words that are split off, when it decides on them as it is said
here. -/
def Performs (copy : Copy) (getenv : Text → Option Text) (command elem₀ : Text)
    (ds : List Decision) : Prop :=
  ∃ fuel, createProcessEx copy getenv fuel command =
    some (redirectAll ((prepare copy).bind fun _ =>
      .ret (.execvp elem₀ (elem₀ :: ds.filterMap Decision.arg))) (ds.filterMap Decision.path))

/-- **The child performs its decisions**, when the kept words fit. -/
theorem performs_decisions (copy : Copy) (hsplit : Splits command (elem₀ :: elems))
    (hfit : (kept getenv false elems).length ≤ PROCESS_MAX_PARAMS) :
    Performs copy getenv command elem₀ (decisions getenv false elems) := by
  obtain ⟨fuel, hfuel⟩ := hsplit
  refine ⟨fuel, ?_⟩
  rw [createProcessEx, hfuel]
  exact congrArg some (run_eq copy getenv elem₀ elems hfit)

/-! ## Accesses out of range -/

/-- Whatever the calls return, the child makes no access out of range: it does not end, or it ends
otherwise. -/
def InRange (copy : Copy) (getenv : Text → Option Text) (command : Text) : Prop :=
  ∀ fuel prog, createProcessEx copy getenv fuel command = some prog →
    prog.Returns fun final => ∀ f, final ≠ .fault f

theorem returns_redirectAll {R : Type} {Q : R → Prop} {k : Prog Posix R} {ps : List Text} :
    (redirectAll k ps).Returns Q ↔ k.Returns Q := by
  induction ps with
  | nil => exact Iff.rfl
  | cons p ps ih => exact ⟨fun h => ih.mp (h 0 0 0), fun h _ _ _ => ih.mpr h⟩

/-- Some element is found in every command but the empty one. -/
theorem not_splits_nil (h : command ≠ []) : ¬ Splits command [] := by
  rintro ⟨fuel, hfuel⟩
  have hlen : 0 < command.length := List.length_pos_of_ne_nil h
  cases fuel with
  | zero => cases hfuel
  | succ fuel =>
    rw [splitLoop, if_pos hlen] at hfuel
    dsimp only at hfuel
    split at hfuel
    · cases hfuel
    · obtain ⟨_, -, hcons⟩ := Option.map_eq_some_iff.mp hfuel
      cases hcons

/-- In the empty command, the first of no elements is read. -/
theorem not_inRange_nil (copy : Copy) (getenv : Text → Option Text) : ¬ InRange copy getenv [] :=
  fun h => h 1 (.ret (.fault .cmd_elems)) rfl .cmd_elems rfl

/-- Words that do not fit are written behind `args`. -/
theorem not_inRange_of_kept (copy : Copy) (hsplit : Splits command (elem₀ :: elems))
    (hfit : PROCESS_MAX_PARAMS < (kept getenv false elems).length) :
    ¬ InRange copy getenv command := by
  intro h
  obtain ⟨fuel, hfuel⟩ := hsplit
  obtain ⟨ps, hps⟩ := run_fault copy getenv elem₀ elems hfit
  have hprog : createProcessEx copy getenv fuel command =
      some (redirectAll (.ret (.fault .args)) ps) := by
    rw [createProcessEx, hfuel, ← hps]
    rfl
  exact returns_redirectAll.mp (h fuel _ hprog) .args rfl

/-- **Accesses of the child**: none is out of range exactly if the command is not empty, and of the
words behind the first, after expansion, `PROCESS_MAX_PARAMS` at most are neither an operator nor a
target. -/
theorem no_out_of_range_iff (copy : Copy) (getenv : Text → Option Text) (command : Text) :
    InRange copy getenv command ↔ command ≠ [] ∧
      ∀ elem₀ elems, Splits command (elem₀ :: elems) →
        (pick isOperator .argument false (expanded getenv elems)).length ≤ PROCESS_MAX_PARAMS := by
  constructor
  · intro h
    refine ⟨?_, fun elem₀ elems hsplit => ?_⟩
    · rintro rfl
      exact not_inRange_nil copy getenv h
    · rw [← kept_eq]
      exact Nat.not_lt.mp fun hfit => not_inRange_of_kept copy hsplit hfit h
  · rintro ⟨hne, hfit⟩ fuel prog hprog
    obtain ⟨elems, hfuel, rfl⟩ := Option.map_eq_some_iff.mp hprog
    cases elems with
    | nil => exact absurd ⟨fuel, hfuel⟩ (not_splits_nil hne)
    | cons elem₀ elems =>
      -- whatever the calls return, the child ends with `execvp`
      have hkept := hfit elem₀ elems ⟨fuel, hfuel⟩
      rw [← kept_eq] at hkept
      rw [run_eq copy getenv elem₀ elems hkept]
      exact returns_redirectAll.mpr (Prog.Returns.bind (Prog.returns_of_forall _ fun _ _ => nofun))

/-- **Commands that go out of range**: the empty one, and one with 33 arguments. -/
theorem commands_out_of_range :
    ¬ InRange .startProcess (fun _ => none) [] ∧
    ¬ InRange .startProcess (fun _ => none) ([' '].intercalate (List.replicate 34 ['a'])) := by
  refine ⟨not_inRange_nil _ _, ?_⟩
  have hwords : words ([' '].intercalate (List.replicate 34 ['a'])) =
      ['a'] :: List.replicate 33 ['a'] :=
    words_join (fun w hw => List.eq_of_mem_replicate hw ▸ by decide)
      (fun w hw => List.eq_of_mem_replicate hw ▸ List.cons_ne_nil _ _)
  have hsplit : Splits ([' '].intercalate (List.replicate 34 ['a']))
      (['a'] :: List.replicate 33 ['a']) := hwords ▸ splits_words (by decide)
  exact not_inRange_of_kept .startProcess hsplit (by decide)

end EngineerLinux.StartProcess
