import EngineerLinux.Lib.Machine
import EngineerLinux.Lib.Slots

/-!
# The paired-queue program (`test2.cpp`)

One consumer thread (`wait_routine`, lines 67-89) takes one item from each of two queues at a time;
producer threads (`notify_routine(idx)`, 98-122) push items into the queue their `idx` selects, drop
the oldest item when the queue grows past four, and then wake the consumer. The program is compiled
in one of two ways: with `-DSEM` the wake-up is a POSIX semaphore, without it a condition variable,
a mutex and the flag `ready` (`notify`, 91-96).

The model is a machine whose label says which thread takes its next step. Program points are the
individual lock, unlock, test, push, pop and wake-up operations, so every interleaving of the
threads is some schedule. A blocked operation (a taken mutex, `sem_wait` at 0, `cond.wait`) is a
label that is not enabled. Besides the shared variables a state records the history the program
does not keep: what was pushed and removed, and whether an operation failed or was undefined.

`std::cout` and `sleep_for` are left out: any amount of other threads' steps may come in between.
-/

namespace EngineerLinux.PairedQueue

/-- The two ways of compiling the program: `#ifdef SEM`, and the other branch. -/
inductive Build where
  | sem
  | cond
  deriving DecidableEq

/-- `queue1` with `mutex_queue1`, and `queue2` with `mutex_queue2`. -/
inductive Side where
  | one
  | two
  deriving DecidableEq

/-- The mutexes: `mutex_thread` and the two queue mutexes. -/
inductive Mutex where
  | thread
  | queue (k : Side)
  deriving DecidableEq

/-- The threads: the consumer, and the producers indexed by `ι`. -/
inductive Tid (ι : Type) where
  | consumer
  | producer (i : ι)
  deriving DecidableEq

/-- Program points of `wait_routine`; each names the operation the consumer does next. -/
inductive WaitPc where
  /-- `sem_wait(&sem)`, or the lock of `mutex_thread`. -/
  | top
  /-- The test of `while (!ready)`. -/
  | check
  /-- Inside `cond.wait(lock)`, with `mutex_thread` released. -/
  | blocked
  /-- Woken inside `cond.wait(lock)`; `mutex_thread` must be locked again. -/
  | relock
  /-- `ready = false`. -/
  | clear
  | lock1
  | lock2
  /-- `queue1.size() > 0 && queue2.size() > 0`. -/
  | test
  | pop1
  | pop2
  | unlock2
  | unlock1
  /-- The end of the scope of `lock`: unlock of `mutex_thread`. -/
  | unlock
  deriving DecidableEq

/-- Program points of `notify_routine` and the `notify` it calls. -/
inductive NotifyPc where
  | lock
  | push
  /-- `size() > 4`. -/
  | test
  /-- `pop()` of the oldest item. -/
  | drop
  | unlock
  /-- `sem_post(&sem)`. -/
  | post
  /-- The lock of `mutex_thread` in `notify`. -/
  | lockThread
  /-- `ready = true`. -/
  | setReady
  /-- `cond.notify_all()`. -/
  | notifyAll
  | unlockThread
  deriving DecidableEq

/-- `SEM_VALUE_MAX` of the POSIX semaphore. -/
def SEM_VALUE_MAX : Nat := 2147483647

/-- The shared variables, the program points, and the history. -/
structure State (ι α : Type) where
  queue : Side → List α
  owner : Mutex → Option (Tid ι)
  sem : Nat
  ready : Bool
  wait : WaitPc
  notify : ι → NotifyPc
  /-- Everything pushed so far, oldest first. -/
  pushed : Side → List α
  /-- Everything popped or dropped so far, in the order of removal. -/
  removed : Side → List α
  /-- How many items the consumer popped. -/
  taken : Side → Nat
  /-- Some `sem_post` failed with `EOVERFLOW`. -/
  eoverflow : Bool
  /-- Some `pop` found its queue empty. -/
  underflow : Bool

/-- The state when `main` has started the threads. -/
def State.initial (ι α : Type) : State ι α where
  queue := fun _ => []
  owner := fun _ => none
  sem := 0
  ready := false
  wait := .top
  notify := fun _ => .lock
  pushed := fun _ => []
  removed := fun _ => []
  taken := fun _ => 0
  eoverflow := false
  underflow := false

namespace State

variable {ι α : Type}

/-- Lock a mutex; blocked while somebody owns it. -/
def lock (s : State ι α) (m : Mutex) (t : Tid ι) : Option (State ι α) :=
  match s.owner m with
  | none => some { s with owner := Function.update s.owner m (some t) }
  | some _ => none

def unlock (s : State ι α) (m : Mutex) : State ι α :=
  { s with owner := Function.update s.owner m none }

/-- `push`: the new item goes to the back. -/
def push (s : State ι α) (k : Side) (info : α) : State ι α :=
  { s with
    queue := Function.update s.queue k (s.queue k ++ [info])
    pushed := Function.update s.pushed k (s.pushed k ++ [info]) }

/-- `pop`: the oldest item leaves. On an empty `std::queue` the call is undefined, which the
model records. -/
def pop (s : State ι α) (k : Side) : State ι α :=
  match s.queue k with
  | [] => { s with underflow := true }
  | info :: rest =>
    { s with
      queue := Function.update s.queue k rest
      removed := Function.update s.removed k (s.removed k ++ [info]) }

/-- `sem_post`: at `SEM_VALUE_MAX` it fails with `EOVERFLOW` and leaves the value alone. -/
def semPost (s : State ι α) : State ι α :=
  if s.sem = SEM_VALUE_MAX then { s with eoverflow := true } else { s with sem := s.sem + 1 }

/-- `notify_all` wakes the consumer if it is inside `cond.wait`. -/
def notifyAll (s : State ι α) : State ι α :=
  if s.wait = .blocked then { s with wait := .relock } else s

/-- The program point of one producer moves. -/
def goto [DecidableEq ι] (s : State ι α) (i : ι) (pc : NotifyPc) : State ι α :=
  { s with notify := Function.update s.notify i pc }

end State

/-- The queue `notify_routine(idx)` works on: `1 == idx`, else the second one. -/
def side (idx : Int) : Side := if 1 = idx then .one else .two

/-- One step of `wait_routine`. -/
def waitRoutine {ι α : Type} (b : Build) (s : State ι α) : Option (State ι α) :=
  match s.wait with
  | .top =>
    match b with
    | .sem => if s.sem = 0 then none else some { s with sem := s.sem - 1, wait := .lock1 }
    | .cond => (s.lock .thread .consumer).map fun s => { s with wait := .check }
  | .check =>
    if s.ready then some { s with wait := .clear }
    else some { s.unlock .thread with wait := .blocked }
  | .blocked => none
  | .relock => (s.lock .thread .consumer).map fun s => { s with wait := .check }
  | .clear => some { s with ready := false, wait := .lock1 }
  | .lock1 => (s.lock (.queue .one) .consumer).map fun s => { s with wait := .lock2 }
  | .lock2 => (s.lock (.queue .two) .consumer).map fun s => { s with wait := .test }
  | .test =>
    if (s.queue .one).length > 0 ∧ (s.queue .two).length > 0 then some { s with wait := .pop1 }
    else some { s with wait := .unlock2 }
  | .pop1 =>
    some { s.pop .one with
      wait := .pop2, taken := Function.update s.taken .one (s.taken .one + 1) }
  | .pop2 =>
    some { s.pop .two with
      wait := .unlock2, taken := Function.update s.taken .two (s.taken .two + 1) }
  | .unlock2 => some { s.unlock (.queue .two) with wait := .unlock1 }
  | .unlock1 =>
    match b with
    | .sem => some { s.unlock (.queue .one) with wait := .top }
    | .cond => some { s.unlock (.queue .one) with wait := .unlock }
  | .unlock => some { s.unlock .thread with wait := .top }

/-- One step of `notify_routine(idx)` by producer `i`; `info` is what an uninitialised `INFO`
holds at the push. -/
def notifyRoutine {ι α : Type} [DecidableEq ι] (b : Build) (idx : Int) (s : State ι α) (i : ι)
    (info : α) : Option (State ι α) :=
  match s.notify i with
  | .lock => (s.lock (.queue (side idx)) (.producer i)).map fun s => s.goto i .push
  | .push => some ((s.push (side idx) info).goto i .test)
  | .test =>
    if (s.queue (side idx)).length > 4 then some (s.goto i .drop) else some (s.goto i .unlock)
  | .drop => some ((s.pop (side idx)).goto i .unlock)
  | .unlock =>
    match b with
    | .sem => some ((s.unlock (.queue (side idx))).goto i .post)
    | .cond => some ((s.unlock (.queue (side idx))).goto i .lockThread)
  | .post => some (s.semPost.goto i .lock)
  | .lockThread => (s.lock .thread (.producer i)).map fun s => s.goto i .setReady
  | .setReady => some ({ s with ready := true }.goto i .notifyAll)
  | .notifyAll => some (s.notifyAll.goto i .unlockThread)
  | .unlockThread => some ((s.unlock .thread).goto i .lock)

/-- Who moves: the consumer, a spurious wake-up of `cond.wait`, or a producer. -/
inductive Act (ι α : Type) where
  | wait
  | spurious
  | notify (i : ι) (info : α)

/-- One step of the program. -/
def step {ι α : Type} [DecidableEq ι] (b : Build) (idx : ι → Int) (s : State ι α) :
    Act ι α → Option (State ι α)
  | .wait => waitRoutine b s
  | .spurious => if s.wait = .blocked then some { s with wait := .relock } else none
  | .notify i info => notifyRoutine b (idx i) s i info

/-- The paired-queue program with one consumer and the producers `ι`, producer `i` running
`notify_routine(idx i)`. -/
def machine {ι : Type} [DecidableEq ι] (α : Type) (b : Build) (idx : ι → Int) :
    Machine (State ι α) (Act ι α) where
  init := fun s => s = State.initial ι α
  next := step b idx

end EngineerLinux.PairedQueue
