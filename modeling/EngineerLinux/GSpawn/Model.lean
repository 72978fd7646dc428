import EngineerLinux.Lib.Pool
import EngineerLinux.StartProcess.Model

/-!
# Executing a program with GLib (`glib-2.60.7/gspawn.c` 2044-2234)

`g_execute` and what it calls, for Linux, as programs over `execve`. The strings are lists of
characters without the null character at their end; where the source builds a string in memory,
`freeme` is a list of characters, none where nothing has been written yet.

Where an array of arguments or a string is read that is not terminated, the outcome is `invalid`.
Memory that cannot be had is left out, and so are the functions around these that make the child.
-/

namespace EngineerLinux.GSpawn

open StartProcess

/-! ## Numbers -/

def ENOENT : Int := 2

def ENOEXEC : Int := 8

def EACCES : Int := 13

def ENODEV : Int := 19

def ENOTDIR : Int := 20

def ETIMEDOUT : Int := 110

def ESTALE : Int := 116

/-! ## Calls -/

inductive Call where
  /-- `execve`; `execv` without an environment. -/
  | execve (path : Text) (argv : List Text) (envp : Option (List Text))

/-- Nothing, where the program runs now, or `errno`. -/
abbrev Call.Ans : Call → Type
  | .execve _ _ _ => Except Int Unit

abbrev Calls : Sys := ⟨Call, Call.Ans⟩

def perform (c : Call) : Prog Calls (Call.Ans c) := Prog.perform (S := Calls) c

/-! ## Executing a program -/

/-- How it ends: the process runs the program now, or there is an error; or memory is read that is
not part of an array. -/
inductive Executed where
  | replaced
  | failed (errno : Int)
  | invalid
  deriving DecidableEq

/-- What comes behind a call that executes a program: it is reached if the call has failed. -/
def Executed.onFailure (k : Int → Prog Calls Executed) : Executed → Prog Calls Executed
  | .failed errno => k errno
  | .replaced => pure .replaced
  | .invalid => pure .invalid

/-- `execve` or `execv`. -/
def execv (path : Text) (argv : List Text) (envp : Option (List Text)) : Prog Calls Executed := do
  let r ← perform (.execve path argv envp)
  match r with
  | .ok _ => pure .replaced
  | .error errno => pure (.failed errno)

/-- `while (argc > 0)`: the elements of `argv` from the second on, and the null pointer behind
them. -/
def copyLoop (argv : List Text) : Nat → List Slot → Option (List Slot)
  | 0, new_argv => some new_argv
  | argc + 1, new_argv =>
    (Buffer.write new_argv (argc + 2) [(argv[argc + 1]?).elim Slot.null .str]).bind
      (copyLoop argv argc)

def binSh : Text := "/bin/sh".toList

def script_execute (file : Text) (argv : List Text) (envp : Option (List Text)) :
    Prog Calls Executed :=
  let argc := argv.length
  let new_argv := (List.replicate (argc + 2) Slot.null).set 0 (.str binSh)
  let new_argv := new_argv.set 1 (.str file)
  match (copyLoop argv argc new_argv).bind StartProcess.argv with
  | some new_argv => execv binSh new_argv envp
  | none => pure .invalid

/-- `execve`, and `script_execute` if the file is not in a format that can be executed. -/
def tryExecute (file : Text) (argv : List Text) (envp : Option (List Text)) :
    Prog Calls Executed :=
  execv file argv envp >>= Executed.onFailure fun errno =>
    if errno = ENOEXEC then script_execute file argv envp else pure (.failed errno)

/-- What is before the first `c`, and the rest from there. -/
def my_strchrnul : Text → Char → Text × Text
  | [], _ => ([], [])
  | x :: str, c =>
    if x ≠ c then
      let r := my_strchrnul str c
      (x :: r.1, r.2)
    else ([], x :: str)

theorem length_my_strchrnul (str : Text) (c : Char) :
    (my_strchrnul str c).2.length ≤ str.length := by
  induction str with
  | nil => exact Nat.le_refl _
  | cons x str ih =>
    unfold my_strchrnul
    split
    · exact Nat.le_succ_of_le ih
    · exact Nat.le_refl _

/-- The string at the beginning of some memory; none if it is not terminated, or not
initialised. -/
def cstring : List (Option Char) → Option Text
  | some c :: mem => if c = NUL then some [] else (cstring mem).map (c :: ·)
  | _ => none

/-- The errors after which the next directory is tried. -/
def triesNext (errno : Int) : Bool :=
  errno = EACCES || errno = ENOENT || errno = ESTALE || errno = ENOTDIR || errno = ENODEV ||
    errno = ETIMEDOUT

/-- The `do` loop, from `p` on; `mem` is what `freeme` points to and `name` a place in it. -/
def searchLoop (argv : List Text) (envp : Option (List Text)) (name : Nat)
    (mem : List (Option Char)) (got_eacces : Bool) (p : Text) : Prog Calls Executed :=
  let dir := (my_strchrnul p ':').1
  let copied :=
    if dir = [] then some (mem, name + 1)
    else if dir.length ≤ name then
      (Buffer.write mem (name - dir.length) (dir.map some)).map (·, name - dir.length)
    else none
  match copied with
  | none => pure .invalid
  | some (mem, startp) =>
    match cstring (mem.drop startp) with
    | none => pure .invalid
    | some file =>
      tryExecute file argv envp >>= Executed.onFailure fun errno =>
        let got_eacces := got_eacces || errno = EACCES
        if triesNext errno then
          if _hrest : (my_strchrnul p ':').2 = [] then
            pure (.failed (if got_eacces then EACCES else errno))
          else searchLoop argv envp name mem got_eacces (my_strchrnul p ':').2.tail
        else pure (.failed errno)
  termination_by p.length
  decreasing_by
    have := length_my_strchrnul p ':'
    have := List.length_pos_of_ne_nil _hrest
    rw [List.length_tail]
    omega

/-- `g_environ_getenv`. -/
def g_environ_getenv (envp : Option (List Text)) (name : Text) : Option Text :=
  (envp.getD []).findSome? fun e =>
    if (name ++ ['=']).isPrefixOf e then some (e.drop (name.length + 1)) else none

def PATH : Text := "PATH".toList

/-- The directories; `g_getenv` is the environment of the process. -/
def searchPath (g_getenv : Text → Option Text) (envp : Option (List Text))
    (search_path search_path_from_envp : Bool) : Text :=
  let path := if search_path_from_envp then g_environ_getenv envp PATH else none
  let path := if search_path && path.isNone then g_getenv PATH else path
  path.getD "/bin:/usr/bin:.".toList

def g_execute (g_getenv : Text → Option Text) (file : Text) (argv : List Text)
    (envp : Option (List Text)) (search_path search_path_from_envp : Bool) :
    Prog Calls Executed :=
  if file = [] then pure (.failed ENOENT)
  else if !(search_path || search_path_from_envp) || file.contains '/' then
    tryExecute file argv envp
  else
    let path := searchPath g_getenv envp search_path search_path_from_envp
    let len := file.length + 1
    let mem := List.replicate (path.length + len + 1) none
    match Buffer.write mem (path.length + 1) ((file ++ [NUL]).map some) with
    | none => pure .invalid
    | some mem =>
      match Buffer.write mem path.length [some '/'] with
      | none => pure .invalid
      | some mem => searchLoop argv envp path.length mem false path

end EngineerLinux.GSpawn
