import EngineerLinux.StartProcess.Command
import Mathlib.Data.Finset.Lattice.Lemmas

/-!
# `CreateProcess` and `CreateProcess_ex` (`main.c` 15-66 and 68-160)

The two launchers as a whole, parent and child, over the calls they make about signals and
processes; what the child of `CreateProcess_ex` does in between are the calls of the model above.
Memory that is not initialised is a parameter (`ignore` of line 73), and the loop around `waitpid`
has a bound on its turns.

`World` is one process: its signal state, its descriptors, the results of `waitpid` to come, and the
signal state at each `waitpid` so far.
-/

namespace EngineerLinux.StartProcess

/-! ## Signals -/

def SIGINT : Nat := 2

def SIGQUIT : Nat := 3

def SIGCHLD : Nat := 17

/-- `sa_handler`. -/
inductive Handler where
  | dfl
  | ign
  | fn (address : Nat)
  deriving DecidableEq

/-- `struct sigaction`. -/
structure Sigaction where
  sa_handler : Handler
  sa_mask : Finset Nat
  sa_flags : Nat
  deriving DecidableEq

/-- The first argument of `sigprocmask`. -/
inductive How where
  | block
  | setmask
  deriving DecidableEq

/-- What `waitpid` returns: the status of the child, or -1 with an error. -/
inductive Waited where
  | done (status : Int)
  | eintr
  | error
  deriving DecidableEq

inductive LaunchCall where
  | sigaction (sig : Nat) (act : Sigaction)
  | sigprocmask (how : How) (set : Finset Nat)
  | fork
  | waitpid (pid : Int)
  /-- The other calls of the child. -/
  | child (c : Call)

/-- The return value; for the calls about signals the old value that they store, none if they
fail. -/
def LaunchCall.Ans : LaunchCall → Type
  | .sigaction _ _ => Option Sigaction
  | .sigprocmask _ _ => Option (Finset Nat)
  | .fork | .child _ => Int
  | .waitpid _ => Waited

abbrev Launch : Sys := ⟨LaunchCall, LaunchCall.Ans⟩

/-- How a launcher ends: it returns in the parent, or it ends in the child. -/
inductive Exit where
  | returned (ret : Int)
  | execl (path : Text) (argv : List Text)
  | child (final : Final)
  deriving DecidableEq

/-! ## The launchers -/

/-- `while (waitpid(pid, &status, 0) < 0)`: the status behind the loop; none if it takes more turns
than this. -/
def waitLoop (pid : Int) : Nat → Prog Launch (Option Int)
  | 0 => .ret none
  | fuel + 1 =>
    .call (.waitpid pid) fun (r : Waited) =>
    match r with
    | .done status => .ret (some status)
    | .eintr => waitLoop pid fuel
    | .error => .ret (some (-1))

/-- Restore previous signal actions and reset the signal mask. -/
def restore (saveintr savequit : Sigaction) (savemask : Finset Nat) (status : Int) :
    Prog Launch (Option Exit) :=
  .call (.sigaction SIGINT saveintr) fun (ret : Option Sigaction) =>
  if ret = none then .ret (some (.returned (-1)))
  else
    .call (.sigaction SIGQUIT savequit) fun (ret : Option Sigaction) =>
    if ret = none then .ret (some (.returned (-1)))
    else
      .call (.sigprocmask .setmask savemask) fun (ret : Option (Finset Nat)) =>
      if ret = none then .ret (some (.returned (-1)))
      else .ret (some (.returned (if status = -1 then -1 else 0)))

/-- The parent behind `fork`; `NO_WAIT` is a macro. -/
def parent (NO_WAIT : Bool) (fuel : Nat) (pid : Int) (saveintr savequit : Sigaction)
    (savemask : Finset Nat) : Prog Launch (Option Exit) :=
  if NO_WAIT then restore saveintr savequit savemask 0
  else
    (waitLoop pid fuel).bind fun r =>
      match r with
      | some status => restore saveintr savequit savemask status
      | none => .ret none

/-- What `CreateProcess` does behind `fork`, with the signals it has saved. -/
def afterFork (NO_WAIT : Bool) (fuel : Nat) (cmdstring : Text) (saveintr savequit : Sigaction)
    (savemask : Finset Nat) (pid : Int) : Prog Launch (Option Exit) :=
  if pid < 0 then restore saveintr savequit savemask (-1)
  else if pid = 0 then
    .call (.sigaction SIGINT saveintr) fun (_ : Option Sigaction) =>
    .call (.sigaction SIGQUIT savequit) fun (_ : Option Sigaction) =>
    .call (.sigprocmask .setmask savemask) fun (_ : Option (Finset Nat)) =>
    .ret (some (.execl ['/', 'b', 'i', 'n', '/', 's', 'h'] [['s', 'h'], ['-', 'c'], cmdstring]))
  else parent NO_WAIT fuel pid saveintr savequit savemask

/-- `CreateProcess`. -/
def CreateProcess (NO_WAIT : Bool) (fuel : Nat) : Option Text → Prog Launch (Option Exit)
  | none => .ret (some (.returned 1))
  | some cmdstring =>
    let ignore : Sigaction := ⟨.ign, ∅, 0⟩
    .call (.sigaction SIGINT ignore) fun (old : Option Sigaction) =>
    match old with
    | none => .ret (some (.returned (-1)))
    | some saveintr =>
      .call (.sigaction SIGQUIT ignore) fun (old : Option Sigaction) =>
      match old with
      | none => .ret (some (.returned (-1)))
      | some savequit =>
        .call (.sigprocmask .block {SIGCHLD}) fun (old : Option (Finset Nat)) =>
        match old with
        | none => .ret (some (.returned (-1)))
        | some savemask =>
          .call .fork fun (pid : Int) =>
          afterFork NO_WAIT fuel cmdstring saveintr savequit savemask pid

/-- The stack of `CreateProcess_ex` before anything is assigned to it. -/
structure Stack where
  ignore : Sigaction
  saveintr : Sigaction
  savequit : Sigaction
  save_mask : Finset Nat

/-- A program of the child over the calls of the launcher. -/
def inChild {R : Type} (p : Prog Posix R) : Prog Launch R := p.lift .child fun _ a => a

/-- `execvp(args[1], args + 1)`. -/
def execvp (args : List Slot) : Final :=
  match (args[1]? : Option Slot), argv (args.drop 1) with
  | some (.str file), some argv => .execvp file argv
  | _, _ => .fault .args

/-- The end of the child of `CreateProcess_ex`, when `args` is complete. -/
def childExec (copy : Copy) (saveintr savequit : Sigaction) (save_mask : Finset Nat)
    (args : List Slot) : Prog Launch Final :=
  .call (.sigaction SIGINT saveintr) fun (_ : Option Sigaction) =>
  .call (.sigaction SIGQUIT savequit) fun (_ : Option Sigaction) =>
  (inChild (prepare copy)).bind fun _ =>
  .call (.sigprocmask .setmask save_mask) fun (_ : Option (Finset Nat)) => .ret (execvp args)

/-- The child of `CreateProcess_ex` behind the splitting loop. -/
def child (copy : Copy) (getenv : Text → Option Text) (saveintr savequit : Sigaction)
    (save_mask : Finset Nat) : List Text → Prog Launch Final
  | [] => .ret (.fault .cmd_elems)
  | elem₀ :: elems =>
    let args := List.replicate (PROCESS_MAX_PARAMS + 3) Slot.uninit
    let args := (args.set 0 (.str elem₀)).set 1 (.str elem₀)
    (inChild (argsLoop getenv elems false 2 args)).bind fun r =>
      match r with
      | .error f => .ret (.fault f)
      | .ok (j, args) =>
        match Buffer.write args j [.null] with
        | none => .ret (.fault .args)
        | some args => childExec copy saveintr savequit save_mask args

/-- What `CreateProcess_ex` does behind `fork`, with the signals it has saved. -/
def afterFork_ex (copy : Copy) (getenv : Text → Option Text) (NO_WAIT : Bool) (fuel : Nat)
    (cmdstring : Text) (saveintr savequit : Sigaction) (save_mask : Finset Nat) (pid : Int) :
    Prog Launch (Option Exit) :=
  if pid < 0 then restore saveintr savequit save_mask (-1)
  else if 0 = pid then
    match splitLoop cmdstring fuel 0 with
    | none => .ret none
    | some elems =>
      (child copy getenv saveintr savequit save_mask elems).map fun final => some (.child final)
  else parent NO_WAIT fuel pid saveintr savequit save_mask

/-- `CreateProcess_ex`. -/
def CreateProcess_ex (copy : Copy) (getenv : Text → Option Text) (NO_WAIT : Bool) (fuel : Nat)
    (stack : Stack) (cmdstring : Text) : Prog Launch (Option Exit) :=
  .call (.sigaction SIGINT stack.ignore) fun (old : Option Sigaction) =>
  let saveintr := old.getD stack.saveintr
  .call (.sigaction SIGQUIT stack.ignore) fun (old : Option Sigaction) =>
  let savequit := old.getD stack.savequit
  .call (.sigprocmask .block {SIGCHLD}) fun (old : Option (Finset Nat)) =>
  let save_mask := old.getD stack.save_mask
  .call .fork fun (pid : Int) =>
  afterFork_ex copy getenv NO_WAIT fuel cmdstring saveintr savequit save_mask pid

/-! ## A process -/

/-- What signals do to a process. -/
structure SigState where
  action : Nat → Sigaction
  mask : Finset Nat

structure World where
  sig : SigState
  /-- The descriptors. -/
  files : Kernel
  /-- The number of calls of `sigaction` and `sigprocmask` so far. -/
  sigCalls : Nat
  /-- The results of `waitpid` to come; behind them it fails. -/
  waits : List Waited
  /-- The signal state at each `waitpid` so far. -/
  waiting : List SigState

/-- What is up to the kernel: which of the calls about signals fail, what `fork` returns, and the
answers to the child. -/
structure World.Env where
  fails : Nat → Bool
  fork : Int
  child : Answers

/-- The mask that `sigprocmask` leaves. -/
def How.apply (mask : Finset Nat) (set : Finset Nat) : How → Finset Nat
  | .block => mask ∪ set
  | .setmask => set

def World.sys (e : World.Env) : (c : LaunchCall) → World → c.Ans × World
  | .sigaction sig act, w =>
    let w' := { w with sigCalls := w.sigCalls + 1 }
    if e.fails w.sigCalls then (none, w')
    else (some (w.sig.action sig),
      { w' with sig := { w.sig with action := Function.update w.sig.action sig act } })
  | .sigprocmask how set, w =>
    let w' := { w with sigCalls := w.sigCalls + 1 }
    if e.fails w.sigCalls then (none, w')
    else (some w.sig.mask, { w' with sig := { w.sig with mask := how.apply w.sig.mask set } })
  | .fork, w => (e.fork, w)
  | .waitpid _, w =>
    match w.waits with
    | [] => (Waited.error, { w with waiting := w.waiting ++ [w.sig] })
    | r :: rest => (r, { w with waits := rest, waiting := w.waiting ++ [w.sig] })
  | .child c, w =>
    let (ret, files) := Kernel.sys e.child c w.files
    (ret, { w with files })

end EngineerLinux.StartProcess
