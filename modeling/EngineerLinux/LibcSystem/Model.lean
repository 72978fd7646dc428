import EngineerLinux.Lib.Machine
import EngineerLinux.StartProcess.Launch

/-!
# `system` (`glibc-2.27/system.c`, `glibc-2.32/system.c`)

`do_system` of either version (lines 55-175 of 2.27; 102-194 of 2.32, with its `cancel_handler`,
78-97), called by any number of threads of one process. The dispositions of `SIGINT` and `SIGQUIT`
belong to the process, so the first of the threads that are in `do_system` at a time ignores the two
signals and the last one sets them back; a counter behind a lock says which it is. The signal mask
belongs to the thread.

A label says which thread takes its next step, and how the call ends that it makes there. Besides
the shared variables a state records what the program itself has asked for: its dispositions, the
masks with which `system` was entered, and what every shell was started with.

Left out are `errno`, the flags of `posix_spawnattr_t` (they are constant), and the `_exit (127)` of
a child whose `execve` fails.
-/

namespace EngineerLinux.LibcSystem

open StartProcess

inductive Version where
  | v2_27
  | v2_32
  deriving DecidableEq

/-- Program points of `do_system`; each names what the thread does next. `omask` and `reset` are
local variables; points of one version only are marked. -/
inductive Pc where
  /-- Not in `system`. -/
  | idle
  /-- `DO_LOCK`. -/
  | lock
  /-- `ADD_REF () == 0`. -/
  | addRef
  /-- `__sigaction (SIGINT, &sa, &intr)`. -/
  | setInt
  /-- 2.27: `SUB_REF`, as `SIGINT` could not be set. -/
  | undoInt
  /-- `__sigaction (SIGQUIT, &sa, &quit)`. -/
  | setQuit
  /-- 2.27: `SUB_REF`, as `SIGQUIT` could not be set. -/
  | undoQuit
  | unlock
  /-- `__sigprocmask (SIG_BLOCK, &sa.sa_mask, &omask)`. -/
  | block
  /-- 2.27: `DO_LOCK`, as `SIGCHLD` could not be blocked. -/
  | relock
  /-- 2.27: `SUB_REF () == 0` then. -/
  | undoBlock
  /-- 2.27: `__sigaction (SIGQUIT, &quit, NULL)` then. -/
  | undoneQuit
  /-- 2.27: `out_restore_sigint`. -/
  | undoneInt
  /-- 2.27: `out`. -/
  | out
  /-- 2.32: `intr.sa_handler != SIG_IGN`. -/
  | testInt (omask : Finset Nat)
  /-- 2.32: `quit.sa_handler != SIG_IGN`. -/
  | testQuit (omask reset : Finset Nat)
  /-- `__fork ()`, or `__posix_spawn`. -/
  | spawn (omask reset : Finset Nat)
  /-- `__waitpid (pid, &status, 0)`, in a loop. -/
  | wait (omask : Finset Nat)
  /-- `DO_LOCK` behind it. -/
  | lockLast (omask : Finset Nat) (status : Int)
  /-- `SUB_REF () == 0`. -/
  | subRef (omask : Finset Nat) (status : Int)
  | restoreInt (omask : Finset Nat) (status : Int)
  /-- `failed`: `SIGINT` could not be set back. -/
  | restoreQuit (omask : Finset Nat) (status : Int) (failed : Bool)
  | restoreMask (omask : Finset Nat) (status : Int)
  | unlockLast (status : Int)
  /-- 2.32: `cancel_handler`, which kills the child and waits for it. -/
  | cancelled
  /-- 2.32: `DO_LOCK` in `cancel_handler`, and so on. -/
  | cancelLock
  | cancelSub
  | cancelQuit
  | cancelInt
  | cancelUnlock
  /-- 2.32: the thread has ended. -/
  | ended
  deriving DecidableEq

/-- A shell that has been started. -/
structure Shell where
  argv : List Text
  /-- The signals with which it begins. -/
  sig : SigState
  /-- The signals of the thread that called `system`, as the program has set them. -/
  caller : SigState

structure State (ι : Type) where
  /-- The dispositions of the process. -/
  action : Nat → Sigaction
  mask : ι → Finset Nat
  intr : Sigaction
  quit : Sigaction
  sa_refcntr : Int
  lock : Option ι
  pc : ι → Pc
  line : ι → Option Text
  /-- What the last call has returned. -/
  returned : ι → Int
  /-- The dispositions that the program has set. -/
  want : Nat → Sigaction
  /-- The mask with which `system` was entered. -/
  entry : ι → Finset Nat
  /-- The last call has found the counter to be 0 at its end. -/
  last : ι → Bool
  shells : List Shell

/-- The answer of a call. -/
inductive Answer where
  | ok
  | fail
  deriving DecidableEq

namespace State

variable {ι : Type}

/-- A process with its own dispositions and masks, whose threads are not in `system`. -/
def initial (action : Nat → Sigaction) (mask : ι → Finset Nat) (intr quit : Sigaction) :
    State ι where
  action := action
  mask := mask
  intr := intr
  quit := quit
  sa_refcntr := 0
  lock := none
  pc := fun _ => .idle
  line := fun _ => none
  returned := fun _ => 0
  want := action
  entry := mask
  last := fun _ => true
  shells := []

def sigaction (s : State ι) (sig : Nat) (act : Sigaction) : State ι :=
  { s with action := Function.update s.action sig act }

variable [DecidableEq ι]

def goto (s : State ι) (i : ι) (pc : Pc) : State ι := { s with pc := Function.update s.pc i pc }

def sigprocmask (s : State ι) (i : ι) (how : How) (set : Finset Nat) : State ι :=
  { s with mask := Function.update s.mask i (how.apply (s.mask i) set) }

/-- `__libc_system` returns what `do_system` has: for a null pointer, whether it is 0. -/
def ret (s : State ι) (i : ι) (status : Int) : State ι :=
  { s with
    pc := Function.update s.pc i .idle
    returned := Function.update s.returned i
      (if s.line i = none then (if status = 0 then 1 else 0) else status) }

end State

/-- `sa`: the two signals are ignored. -/
def sa : Sigaction := ⟨.ign, ∅, 0⟩

/-- What `execve` leaves of the dispositions: signals that were caught get the default action. -/
def onExec (σ : SigState) : SigState where
  action sig :=
    match (σ.action sig).sa_handler with
    | .ign => sa
    | .dfl | .fn _ => ⟨.dfl, ∅, 0⟩
  mask := σ.mask

/-- The child of `fork` in 2.27: it restores the signals, then `execve`. -/
def forked (action : Nat → Sigaction) (intr quit : Sigaction) (omask : Finset Nat) : SigState :=
  onExec ⟨Function.update (Function.update action SIGINT intr) SIGQUIT quit, omask⟩

/-- The child of `posix_spawn` in 2.32, with `POSIX_SPAWN_SETSIGDEF` and `POSIX_SPAWN_SETSIGMASK`:
the signals in `reset` get the default action, then `execve`. -/
def spawned (action : Nat → Sigaction) (omask reset : Finset Nat) : SigState :=
  onExec ⟨fun sig => if sig ∈ reset then ⟨.dfl, ∅, 0⟩ else action sig, omask⟩

/-- `new_argv`. -/
def shellArgv (line : Option Text) : List Text :=
  [['s', 'h'], ['-', 'c'], line.getD ['e', 'x', 'i', 't', ' ', '0']]

variable {ι : Type} [DecidableEq ι]

/-- The shell that thread `i` starts. -/
def State.shell (v : Version) (s : State ι) (i : ι) (omask reset : Finset Nat) : Shell where
  argv := shellArgv (s.line i)
  sig :=
    match v with
    | .v2_27 => forked s.action s.intr s.quit omask
    | .v2_32 => spawned s.action omask reset
  caller := ⟨s.want, s.entry i⟩

/-- One step of `do_system` by thread `i`, other than `waitpid`; the answer is that of the call it
makes, if it makes one. `stack` is what an `omask` holds that has not been set. -/
def doSystem (v : Version) (stack : Finset Nat) (s : State ι) (i : ι) (ans : Answer) :
    Option (State ι) :=
  match s.pc i with
  | .idle | .wait _ | .ended => none
  | .lock => if s.lock = none then some ({ s with lock := some i }.goto i .addRef) else none
  | .addRef =>
    some ({ s with sa_refcntr := s.sa_refcntr + 1 }.goto i
      (if s.sa_refcntr = 0 then .setInt else .unlock))
  | .setInt =>
    match ans, v with
    | .ok, _ => some (({ s with intr := s.action SIGINT }.sigaction SIGINT sa).goto i .setQuit)
    | .fail, .v2_27 => some (s.goto i .undoInt)
    | .fail, .v2_32 => some (s.goto i .setQuit)
  | .undoInt => some ({ s with sa_refcntr := s.sa_refcntr - 1 }.goto i .out)
  | .setQuit =>
    match ans, v with
    | .ok, _ => some (({ s with quit := s.action SIGQUIT }.sigaction SIGQUIT sa).goto i .unlock)
    | .fail, .v2_27 => some (s.goto i .undoQuit)
    | .fail, .v2_32 => some (s.goto i .unlock)
  | .undoQuit => some ({ s with sa_refcntr := s.sa_refcntr - 1 }.goto i .undoneInt)
  | .unlock => some ({ s with lock := none }.goto i .block)
  | .block =>
    match ans, v with
    | .ok, .v2_27 => some ((s.sigprocmask i .block {SIGCHLD}).goto i (.spawn (s.mask i) ∅))
    | .ok, .v2_32 => some ((s.sigprocmask i .block {SIGCHLD}).goto i (.testInt (s.mask i)))
    | .fail, .v2_27 => some (s.goto i .relock)
    | .fail, .v2_32 => some (s.goto i (.testInt stack))
  | .relock => if s.lock = none then some ({ s with lock := some i }.goto i .undoBlock) else none
  | .undoBlock =>
    some ({ s with sa_refcntr := s.sa_refcntr - 1 }.goto i
      (if s.sa_refcntr - 1 = 0 then .undoneQuit else .out))
  | .undoneQuit =>
    match ans with
    | .ok => some ((s.sigaction SIGQUIT s.quit).goto i .undoneInt)
    | .fail => some (s.goto i .undoneInt)
  | .undoneInt =>
    match ans with
    | .ok => some ((s.sigaction SIGINT s.intr).goto i .out)
    | .fail => some (s.goto i .out)
  | .out => some ({ s with lock := none }.ret i (-1))
  | .testInt omask =>
    some (s.goto i (.testQuit omask (if s.intr.sa_handler ≠ .ign then {SIGINT} else ∅)))
  | .testQuit omask reset =>
    some (s.goto i (.spawn omask (if s.quit.sa_handler ≠ .ign then reset ∪ {SIGQUIT} else reset)))
  | .spawn omask reset =>
    match ans with
    | .ok => some ({ s with shells := s.shells ++ [s.shell v i omask reset] }.goto i (.wait omask))
    | .fail => some (s.goto i (.lockLast omask (-1)))
  | .lockLast omask status =>
    if s.lock = none then some ({ s with lock := some i }.goto i (.subRef omask status)) else none
  | .subRef omask status =>
    some ({ s with
      sa_refcntr := s.sa_refcntr - 1
      last := Function.update s.last i (decide (s.sa_refcntr = 1)) }.goto i
      (if s.sa_refcntr - 1 = 0 then .restoreInt omask status
        else
          match v with
          | .v2_27 => .restoreMask omask status
          | .v2_32 => .unlockLast status))
  | .restoreInt omask status =>
    match ans with
    | .ok => some ((s.sigaction SIGINT s.intr).goto i (.restoreQuit omask status false))
    | .fail => some (s.goto i (.restoreQuit omask status true))
  | .restoreQuit omask status failed =>
    match ans, v with
    | .ok, .v2_27 =>
      some ((s.sigaction SIGQUIT s.quit).goto i
        (if failed then .unlockLast (-1) else .restoreMask omask status))
    | .fail, .v2_27 => some (s.goto i (.unlockLast (-1)))
    | .ok, .v2_32 => some ((s.sigaction SIGQUIT s.quit).goto i (.restoreMask omask status))
    | .fail, .v2_32 => some (s.goto i (.restoreMask omask status))
  | .restoreMask omask status =>
    match ans, v with
    | .ok, _ => some ((s.sigprocmask i .setmask omask).goto i (.unlockLast status))
    | .fail, .v2_27 => some (s.goto i (.unlockLast (-1)))
    | .fail, .v2_32 => some (s.goto i (.unlockLast status))
  | .unlockLast status => some ({ s with lock := none }.ret i status)
  | .cancelled => some (s.goto i .cancelLock)
  | .cancelLock =>
    if s.lock = none then some ({ s with lock := some i }.goto i .cancelSub) else none
  | .cancelSub =>
    some ({ s with sa_refcntr := s.sa_refcntr - 1 }.goto i
      (if s.sa_refcntr - 1 = 0 then .cancelQuit else .cancelUnlock))
  | .cancelQuit =>
    match ans with
    | .ok => some ((s.sigaction SIGQUIT s.quit).goto i .cancelInt)
    | .fail => some (s.goto i .cancelInt)
  | .cancelInt =>
    match ans with
    | .ok => some ((s.sigaction SIGINT s.intr).goto i .cancelUnlock)
    | .fail => some (s.goto i .cancelUnlock)
  | .cancelUnlock => some ({ s with lock := none }.goto i .ended)

/-- Who moves, or what happens. -/
inductive Act (ι : Type) where
  /-- A thread calls `system (line)`. -/
  | call (i : ι) (line : Option Text)
  | step (i : ι) (ans : Answer)
  /-- `waitpid` in thread `i`. -/
  | waited (i : ι) (r : Waited)
  /-- Thread `i`, which is in `waitpid`, is cancelled. -/
  | cancel (i : ι)
  /-- The program sets a disposition. -/
  | sigaction (sig : Nat) (act : Sigaction)
  /-- A thread that is not in `system` sets its mask. -/
  | sigmask (i : ι) (set : Finset Nat)

def step (v : Version) (stack : Finset Nat) (s : State ι) : Act ι → Option (State ι)
  | .call i line =>
    if s.pc i = .idle then
      some ({ s with
        line := Function.update s.line i line
        entry := Function.update s.entry i (s.mask i) }.goto i .lock)
    else none
  | .step i ans => doSystem v stack s i ans
  | .waited i r =>
    match s.pc i, r with
    | .wait omask, .done status => some (s.goto i (.lockLast omask status))
    -- `TEMP_FAILURE_RETRY`
    | .wait _, .eintr => some s
    | .wait omask, .error => some (s.goto i (.lockLast omask (-1)))
    | _, _ => none
  | .cancel i =>
    match v, s.pc i with
    | .v2_32, .wait _ => some (s.goto i .cancelled)
    | _, _ => none
  | .sigaction sig act =>
    some { s.sigaction sig act with want := Function.update s.want sig act }
  | .sigmask i set =>
    if s.pc i = .idle then
      some { s with
        mask := Function.update s.mask i set
        entry := Function.update s.entry i set
        last := Function.update s.last i true }
    else none

/-- The threads `ι` of a process that has set its signals before, and has not used `system`. -/
def machine (ι : Type) [DecidableEq ι] (v : Version) (stack : Finset Nat) :
    Machine (State ι) (Act ι) where
  init := fun s => ∃ action mask intr quit, s = State.initial action mask intr quit
  next := step v stack

end EngineerLinux.LibcSystem
