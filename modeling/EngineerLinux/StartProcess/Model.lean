import EngineerLinux.Lib.Buffer
import EngineerLinux.Lib.FdTable
import EngineerLinux.Lib.Prog
import Mathlib.Data.Int.DivMod

/-!
# The child of `CreateProcess_ex` (`StartProcess/code/main.c`, `Schedule/code/main.c`)

The child splits the command at its spaces (lines 91-99), replaces variables (105-118), redirects
its standard output (119-131), and calls `execvp` (138). The two programs have the same code up to
what the second does about its priority before the call, so there is one definition with the copy
as a parameter.

Positions and lengths are computed as the source does, through `int` and `size_t`; the two arrays
are checked at each access, so that one out of range is a result (`Fault`). A `char` is a `Char`
here, and a string what comes before its terminating NUL. The environment is what `getenv` says of
each name. The calls that restore the signals are left out (they are in `Launch`), and so is what
happens when `execvp` returns.
-/

namespace EngineerLinux.StartProcess

def PROCESS_MAX_PARAMS : Nat := 32

abbrev Text := List Char

def NUL : Char := '\x00'

/-- `std::string::npos`. -/
def npos : Nat := 18446744073709551615

/-- Conversion to `int`, modulo 2^32. -/
def toInt (n : Int) : Int := n.bmod 4294967296

/-- Conversion to `size_t`, modulo 2^64. -/
def toSizeT (n : Int) : Nat := (n % 18446744073709551616).toNat

/-! ## The strings of C++ -/

/-- `s.find(c, pos)`. -/
def find (s : Text) (c : Char) (pos : Nat) : Nat :=
  match (s.drop pos).findIdx? (· = c) with
  | some k => pos + k
  | none => npos

/-- `s.substr(pos, n)`. -/
def substr (s : Text) (pos n : Nat) : Text := (s.drop pos).take n

/-- `s.erase(pos, n)`. -/
def erase (s : Text) (pos n : Nat) : Text := s.take pos ++ s.drop (pos + n)

/-- `s.erase(pos)`. -/
def eraseFrom (s : Text) (pos : Nat) : Text := s.take pos

/-- `s[i]`, which is NUL behind the last character. -/
def charAt (s : Text) (i : Nat) : Char := (s[i]?).getD NUL

/-! ## Splitting the command -/

/-- The splitting loop from position `pos` on, with a bound on its turns: what it puts into
`cmd_elems`, if it ends. -/
def splitLoop (command : Text) : Nat → Nat → Option (List Text)
  | 0, _ => none
  | fuel + 1, pos =>
    let len := command.length
    if pos < len then
      let find_pos := toInt (find command ' ' pos)
      if find_pos < 0 then some [substr command pos (len - pos)]
      else
        -- `find_pos + 1` is an `int`
        (splitLoop command fuel (toSizeT (toInt (find_pos + 1)))).map
          (substr command pos (toSizeT (find_pos - pos)) :: ·)
    else some []

/-! ## Variables and redirection -/

/-- The name that is looked up for a word that begins with `$`. -/
def envName (elem : Text) : Text :=
  let elem := erase elem 0 1
  if charAt elem 1 = '{' ∧ charAt elem (elem.length - 1) = '}' then
    let elem := eraseFrom elem 1
    eraseFrom elem (elem.length - 1)
  else elem

/-- A word after its variable has been replaced; none if the word is passed over. -/
def expand (getenv : Text → Option Text) (elem : Text) : Option Text :=
  if charAt elem 0 = '$' ∧ 2 ≤ elem.length then getenv (envName elem) else some elem

/-- What a turn of the loop over the words does. -/
inductive Decision where
  | skip
  | redirect (path : Text)
  | operator
  | keep (arg : Text)
  deriving DecidableEq

/-- The tests of a turn of the loop over the words. -/
def iteration (getenv : Text → Option Text) (redirection : Bool) (elem : Text) : Decision :=
  match expand getenv elem with
  | none => .skip
  | some elem =>
    if redirection then .redirect elem
    else if charAt elem 0 = '>' ∧ elem.length = 1 then .operator
    else .keep elem

/-- Scheduling policies. -/
inductive Policy where
  | other
  | fifo
  deriving DecidableEq

/-- The system calls. -/
inductive Call where
  /-- `open(path, O_WRONLY | O_CREAT, S_IRUSR | S_IWUSR | S_IRGRP | S_IWGRP)`. -/
  | open (path : Text)
  | dup2 (fd fd2 : Int)
  | close (fd : Int)
  | getpid
  | schedGetparam (pid : Int)
  | schedSetscheduler (pid : Int) (policy : Policy) (priority : Int)
  /-- `setpriority(PRIO_PROCESS, 0, value)`. -/
  | setpriority (value : Int)
  deriving DecidableEq

abbrev Posix : Sys := ⟨Call, fun _ => Int⟩

/-- An access outside `cmd_elems` or outside `args`. -/
inductive Fault where
  | cmd_elems
  | args
  deriving DecidableEq

/-- An element of `args`. -/
inductive Slot where
  | uninit
  | null
  | str (text : Text)
  deriving DecidableEq

/-- The loop over the words: `j` and `args` behind it. -/
def argsLoop (getenv : Text → Option Text) :
    List Text → Bool → Nat → List Slot → Prog Posix (Except Fault (Nat × List Slot))
  | [], _, j, args => .ret (.ok (j, args))
  | elem :: elems, redirection, j, args =>
    match iteration getenv redirection elem with
    | .skip => argsLoop getenv elems redirection j args
    | .redirect path =>
      .call (.open path) fun fd =>
      .call (.dup2 fd 1) fun _ =>
      .call (.close fd) fun _ =>
      argsLoop getenv elems false j args
    | .operator => argsLoop getenv elems true j args
    | .keep arg =>
      match Buffer.write args j [.str arg] with
      | some args => argsLoop getenv elems redirection (j + 1) args
      | none => .ret (.error .args)

/-! ## The two copies -/

/-- `PRIO_TYPE`. -/
inductive PrioType where
  | fifo
  | nice
  deriving DecidableEq

/-- `PRIORITY`. -/
structure Priority where
  type : PrioType
  value : Int
  deriving DecidableEq

/-- The two programs that have the function; in the second it has a parameter more. -/
inductive Copy where
  | startProcess
  | schedule (priority : Priority)
  deriving DecidableEq

/-- What the copy does before it calls `execvp`. -/
def prepare : Copy → Prog Posix Unit
  | .startProcess => .ret ()
  | .schedule priority =>
    .call .getpid fun self_pid =>
    .call (.schedGetparam self_pid) fun ret =>
    if ret = 0 then
      match priority.type with
      | .nice =>
        .call (.schedSetscheduler self_pid .other 0) fun _ =>
        .call (.setpriority priority.value) fun _ => .ret ()
      | .fifo => .call (.schedSetscheduler self_pid .fifo priority.value) fun _ => .ret ()
    else .ret ()

/-- How the child ends: with an access out of range, or with a call of `execvp`. -/
inductive Final where
  | fault (f : Fault)
  | execvp (file : Text) (argv : List Text)
  deriving DecidableEq

/-- The strings before the terminating null pointer. -/
def argv : List Slot → Option (List Text)
  | .str text :: args => (argv args).map (text :: ·)
  | .null :: _ => some []
  | _ => none

/-- The end of the child: `args` is terminated and handed to `execvp`, from its second element
on. -/
def exec (copy : Copy) (j : Nat) (args : List Slot) : Prog Posix Final :=
  match Buffer.write args j [.null] with
  | none => .ret (.fault .args)
  | some args =>
    (prepare copy).bind fun _ =>
      match (args[1]? : Option Slot), argv (args.drop 1) with
      | some (.str file), some argv => .ret (.execvp file argv)
      | _, _ => .ret (.fault .args)

/-- The child, when the splitting loop has ended. -/
def run (copy : Copy) (getenv : Text → Option Text) : List Text → Prog Posix Final
  | [] => .ret (.fault .cmd_elems)
  | elem₀ :: elems =>
    let args := List.replicate (PROCESS_MAX_PARAMS + 3) Slot.uninit
    let args := (args.set 0 (.str elem₀)).set 1 (.str elem₀)
    (argsLoop getenv elems false 2 args).bind fun r =>
      match r with
      | .ok (j, args) => exec copy j args
      | .error f => .ret (.fault f)

/-- The child branch of `CreateProcess_ex`, with a bound on the turns of its first loop. -/
def createProcessEx (copy : Copy) (getenv : Text → Option Text) (fuel : Nat) (command : Text) :
    Option (Prog Posix Final) :=
  (splitLoop command fuel 0).map (run copy getenv)

end EngineerLinux.StartProcess
