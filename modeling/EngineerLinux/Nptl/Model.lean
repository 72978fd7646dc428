import EngineerLinux.Lib.Pool

/-!
# Threads and their stacks (`glibc-2.32`: `allocatestack.c`, `pthread_create.c`, `createthread.c`,
`pthread_join_common.c`)

A thread is known by the address of its descriptor (`struct pthread`), which lies at the end of its
stack. Stacks of threads that have ended are kept in `stack_cache`; the others are in `stack_used`,
or in `__stack_user` if the program has provided them (`allocatestack.c` 106-126). The kernel sets
`tid` back to 0 when a thread has ended.

The functions are programs over calls: one access to what threads share, or one system call. They
are `get_cached_stack` (`allocatestack.c` 170-252), `free_stacks` (257-291), `queue_stack`
(304-314), `allocate_stack` (413-786) and `__deallocate_stack` (790-809); `__free_tcb`
(`pthread_create.c` 345-371), the end of `start_thread` (378-589) and `__pthread_create_2_1`
(611-873) with `create_thread`; and `__pthread_clockjoin_ex` (`pthread_join_common.c` 82-170).

Every thread, once it is in its start routine, may create threads, join those it has a handle for,
and end, in any order, and two threads take their steps in any order. What the kernel and the
program have a say in is `Env`: where it maps memory, which calls fail, when threads are cancelled.

Left out are pages that become executable (so `change_stack_perm` is never called), `setxid`, the
events for a debugger, the thread-local storage, signal masks and scheduling, `__nptl_nthreads`, and
`pthread_detach` (it is not among these files): threads are detached from their beginning or not at
all. `munmap` does not fail. The program does not join a thread from two threads at the same time,
which is undefined.
-/

namespace EngineerLinux.Nptl

/-- Return values. -/
inductive Errno where
  | EINVAL
  | ENOMEM
  | EAGAIN
  | EDEADLK
  | ETIMEDOUT
  deriving DecidableEq

/-- The numbers that depend on the machine, and the default of the stack size. `MULTI_PAGE_ALIASING`
is 0 where it is not used. -/
structure Config where
  pagesize : Nat
  static_tls_size : Nat
  static_tls_align : Nat
  MULTI_PAGE_ALIASING : Nat
  default_stacksize : Nat

def MINIMAL_REST_STACK : Nat := 4096

def stack_cache_maxsize : Nat := 40 * 1024 * 1024

/-- `size_t`. -/
def toSize (n : Int) : Nat := (n % 18446744073709551616).toNat

/-- `struct pthread_attr`; `stackaddr` is the descriptor in the memory that the program provides. -/
structure Attr (P : Type) where
  stacksize : Nat
  guardsize : Nat
  stackaddr : Option P
  detachstate : Bool
  deriving DecidableEq

/-- The heads of the lists. -/
inductive ListHead where
  | stack_cache
  | stack_used
  | __stack_user
  deriving DecidableEq

/-- Whose the memory is: nobody's, mapped by `allocate_stack`, or the program's. -/
inductive Mem where
  | none
  | mapped
  | user
  deriving DecidableEq

/-- What there is at the address of a descriptor. -/
structure Block (P : Type) where
  stackblock_size : Nat
  guardsize : Nat
  user_stack : Bool
  tid : Int
  joinid : Option P
  /-- `TERMINATED_BIT` of `cancelhandling`. -/
  TERMINATED : Bool
  mem : Mem
  /-- The kernel runs a thread on this stack. -/
  alive : Bool
  /-- The program has a handle for this thread, which is not detached. -/
  handle : Bool
  /-- It is not detached and the program has no handle: `pthread_create` has failed after it ran. -/
  leaked : Bool
  /-- With what the thread was created. -/
  attr : Attr P

structure State (P : Type) where
  stack_cache : List P
  stack_used : List P
  stack_user : List P
  stack_cache_actsize : Nat
  stack_cache_lock : Option P
  /-- The element, and whether it is added. -/
  in_flight_stack : Option (P × Bool)
  block : P → Block P
  /-- Threads that were started on a stack while another one was running on it. -/
  clashes : List P
  /-- Threads that have worked on the lists without the lock. -/
  races : List P

/-! ## Calls -/

/-- What `clone` and the rest of `create_thread` make of a thread: it runs; it has run and is
cancelled, as its attributes could not be set; it does not run. -/
inductive Cloned where
  | ok
  | ran
  | failed
  deriving DecidableEq

/-- How the wait for a thread ends; `clockwait_tid` may fail. -/
inductive Waited where
  | ended
  | failed (err : Errno)
  | canceled
  deriving DecidableEq

inductive Call (P : Type) where
  | lll_lock
  | lll_unlock
  /-- A store to `in_flight_stack`. -/
  | in_flight (e : Option (P × Bool))
  | list_add (elem : P) (list : ListHead)
  | list_del (elem : P)
  /-- The elements of the cache that `list_for_each` visits, while the lock is held. -/
  | list_for_each
  | FREE_P (curr : P)
  | stackblock_size (pd : P)
  | guardsize (pd : P)
  | set_guardsize (pd : P) (n : Nat)
  | user_stack (pd : P)
  /-- `stack_cache_actsize += n`, and the value then. -/
  | add_actsize (n : Nat)
  /-- `stack_cache_actsize -= n`, and the value then. -/
  | sub_actsize (n : Nat)
  /-- `__mmap`, with the stores to the new descriptor. -/
  | mmap (size guardsize : Nat)
  | munmap (pd : P)
  /-- `__mprotect` or `_dl_allocate_tls`: success. -/
  | prepare
  /-- The stores to a descriptor in memory that the program provides. -/
  | provide (pd : P) (size : Nat)
  /-- `_dl_deallocate_tls` for such a descriptor. -/
  | give_back (pd : P)
  /-- The stores to a descriptor from the cache. -/
  | reuse (pd : P)
  /-- The stores of `pthread_create`. -/
  | init (pd : P) (attr : Attr P)
  | clone (pd : P)
  | joinid (pd : P)
  /-- Whether some bits of `cancelhandling` are set, which are the matter of cancellation. -/
  | cancelhandling (pd : P)
  /-- `atomic_compare_exchange_weak_acquire (&pd->joinid, &self, NULL)`: success, which is that
  `joinid` was the caller. -/
  | cas_joinid (pd : P)
  | clear_joinid (pd : P)
  /-- `while (pd->tid != 0) futex_wait`. -/
  | wait_tid (pd : P)
  | set_tid (pd : P) (tid : Int)
  /-- `atomic_bit_test_set (&pd->cancelhandling, TERMINATED_BIT)`. -/
  | test_set_terminated (pd : P)
  /-- `pthread_join` ends without having joined: the program may try again. -/
  | keep_handle (pd : P)
  /-- `__exit_thread`. -/
  | exit_thread
  deriving DecidableEq

def Call.Ans {P : Type} : Call P → Type
  | .list_for_each => List P
  | .FREE_P _ | .user_stack _ | .prepare | .cancelhandling _ | .cas_joinid _
  | .test_set_terminated _ => Bool
  | .stackblock_size _ | .guardsize _ | .add_actsize _ | .sub_actsize _ => Nat
  | .mmap _ _ | .joinid _ => Option P
  | .clone _ => Cloned
  | .wait_tid _ => Waited
  | _ => Unit

abbrev Calls (P : Type) : Sys := ⟨Call P, Call.Ans⟩

section Programs

variable {P : Type}

def perform (c : Call P) : Prog (Calls P) c.Ans := Prog.perform (S := Calls P) c

def list_for_each : Prog (Calls P) (List P) := perform .list_for_each

def FREE_P (curr : P) : Prog (Calls P) Bool := perform (.FREE_P curr)

def stackblock_size (pd : P) : Prog (Calls P) Nat := perform (.stackblock_size pd)

def guardsize (pd : P) : Prog (Calls P) Nat := perform (.guardsize pd)

def user_stack (pd : P) : Prog (Calls P) Bool := perform (.user_stack pd)

def add_actsize (n : Nat) : Prog (Calls P) Nat := perform (.add_actsize n)

def sub_actsize (n : Nat) : Prog (Calls P) Nat := perform (.sub_actsize n)

def mmap (size guardsize : Nat) : Prog (Calls P) (Option P) := perform (.mmap size guardsize)

def prepare : Prog (Calls P) Bool := perform .prepare

def clone (pd : P) : Prog (Calls P) Cloned := perform (.clone pd)

def joinid (pd : P) : Prog (Calls P) (Option P) := perform (.joinid pd)

def cancelhandling (pd : P) : Prog (Calls P) Bool := perform (.cancelhandling pd)

def cas_joinid (pd : P) : Prog (Calls P) Bool := perform (.cas_joinid pd)

def wait_tid (pd : P) : Prog (Calls P) Waited := perform (.wait_tid pd)

def test_set_terminated (pd : P) : Prog (Calls P) Bool := perform (.test_set_terminated pd)

def exit_thread : Prog (Calls P) Unit := perform .exit_thread

/-! ## `allocatestack.c` -/

def stack_list_del (elem : P) : Prog (Calls P) Unit := do
  perform (.in_flight (some (elem, false)))
  perform (.list_del elem)
  perform (.in_flight none)

def stack_list_add (elem : P) (list : ListHead) : Prog (Calls P) Unit := do
  perform (.in_flight (some (elem, true)))
  perform (.list_add elem list)
  perform (.in_flight none)

/-- The loop of `get_cached_stack`: the smallest stack so far that is large enough. -/
def searchLoop (size : Nat) : List P → Option (P × Nat) → Prog (Calls P) (Option (P × Nat))
  | [], result => pure result
  | curr :: entries, result => do
    let free ← FREE_P curr
    if free then
      let n ← stackblock_size curr
      if n < size then searchLoop size entries result
      else if n = size then pure (some (curr, n))
      else if result.all fun r => r.2 > n then searchLoop size entries (some (curr, n))
      else searchLoop size entries result
    else searchLoop size entries result

/-- `get_cached_stack`: the stack and its size. -/
def get_cached_stack (size : Nat) : Prog (Calls P) (Option (P × Nat)) := do
  perform .lll_lock
  let entries ← list_for_each
  let result ← searchLoop size entries none
  match result with
  | none => do
    perform .lll_unlock
    pure none
  | some (pd, n) =>
    if n > toSize (4 * size) then do
      perform .lll_unlock
      pure none
    else do
      stack_list_del pd
      stack_list_add pd .stack_used
      let _ ← sub_actsize n
      perform .lll_unlock
      perform (.reuse pd)
      pure (some (pd, n))

/-- The loop of `free_stacks`, from the end of the list. -/
def freeLoop (limit : Nat) : List P → Prog (Calls P) Unit
  | [] => pure ()
  | curr :: entries => do
    let free ← FREE_P curr
    if free then
      stack_list_del curr
      let n ← stackblock_size curr
      let actsize ← sub_actsize n
      perform (.munmap curr)
      if actsize ≤ limit then pure () else freeLoop limit entries
    else freeLoop limit entries

def free_stacks (limit : Nat) : Prog (Calls P) Unit := do
  let entries ← list_for_each
  freeLoop limit entries.reverse

def queue_stack (stack : P) : Prog (Calls P) Unit := do
  stack_list_add stack .stack_cache
  let n ← stackblock_size stack
  let actsize ← add_actsize n
  if actsize > stack_cache_maxsize then free_stacks stack_cache_maxsize else pure ()

def deallocate_stack (pd : P) : Prog (Calls P) Unit := do
  perform .lll_lock
  stack_list_del pd
  let user ← user_stack pd
  if user then perform (.give_back pd) else queue_stack pd
  perform .lll_unlock

/-- `mprot_error`. -/
def mprot_error (pd : P) : Prog (Calls P) (Except Errno P) := do
  perform .lll_lock
  stack_list_del pd
  perform .lll_unlock
  perform (.munmap pd)
  pure (.error .ENOMEM)

/-- Create or resize the guard area if necessary. -/
def setup_guard (pd : P) (size reqsize guard : Nat) : Prog (Calls P) (Except Errno P) := do
  let old ← guardsize pd
  if guard > old ∨ old - guard > size - reqsize then
    let ok ← prepare
    if ok then do
      perform (.set_guardsize pd guard)
      pure (.ok pd)
    else mprot_error pd
  else pure (.ok pd)

/-- A new stack, which no list has yet. -/
def new_stack (size guard : Nat) : Prog (Calls P) (Option P) := do
  let mem ← mmap size guard
  match mem with
  | none => pure none
  | some pd => do
    let ok ← prepare
    if ok then do
      perform .lll_lock
      stack_list_add pd .stack_used
      perform .lll_unlock
      pure (some pd)
    else do
      perform (.munmap pd)
      pure none

/-- The size of the stack that is asked for, aligned. -/
def Attr.size (cfg : Config) (attr : Attr P) : Nat :=
  let size := if attr.stacksize ≠ 0 then attr.stacksize else cfg.default_stacksize
  size - size % cfg.static_tls_align

/-- `(n + pagesize_m1) & ~pagesize_m1`. -/
def Config.roundup (cfg : Config) (n : Nat) : Nat :=
  let n := toSize (n + (cfg.pagesize - 1 : Nat))
  n - n % cfg.pagesize

/-- `allocate_stack`, if the program provides no stack. -/
def allocate_anonymous (cfg : Config) (attr : Attr P) : Prog (Calls P) (Except Errno P) :=
  let guard := cfg.roundup attr.guardsize
  let reqsize := toSize (attr.size cfg + guard)
  -- arithmetic overflow; the stack is too small, or the guard too large
  if guard < attr.guardsize ∨ reqsize < guard ∨
      reqsize < cfg.roundup (guard + cfg.static_tls_size + MINIMAL_REST_STACK) then
    pure (.error .EINVAL)
  else do
    let cached ← get_cached_stack reqsize
    match cached with
    | some (pd, size) => setup_guard pd size reqsize guard
    | none =>
      let size :=
        if cfg.MULTI_PAGE_ALIASING ≠ 0 ∧ reqsize % cfg.MULTI_PAGE_ALIASING = 0 then
          reqsize + cfg.pagesize
        else reqsize
      let mem ← new_stack size guard
      match mem with
      | some pd => setup_guard pd size reqsize guard
      | none => pure (.error .ENOMEM)

/-- `allocate_stack`, if it does. -/
def allocate_user (cfg : Config) (attr : Attr P) (pd : P) : Prog (Calls P) (Except Errno P) :=
  let size := if attr.stacksize ≠ 0 then attr.stacksize else cfg.default_stacksize
  if attr.stacksize ≠ 0 ∧ attr.stacksize < cfg.static_tls_size + MINIMAL_REST_STACK then
    pure (.error .EINVAL)
  else do
    perform (.provide pd size)
    let ok ← prepare
    if ok then do
      perform .lll_lock
      perform (.list_add pd .__stack_user)
      perform .lll_unlock
      pure (.ok pd)
    else do
      perform (.give_back pd)
      pure (.error .ENOMEM)

def allocate_stack (cfg : Config) (attr : Attr P) : Prog (Calls P) (Except Errno P) :=
  match attr.stackaddr with
  | some pd => allocate_user cfg attr pd
  | none => allocate_anonymous cfg attr

/-! ## `pthread_create.c` and `pthread_join_common.c` -/

def free_tcb (pd : P) : Prog (Calls P) Unit := do
  let terminated ← test_set_terminated pd
  if terminated then pure () else deallocate_stack pd

/-- `__pthread_create_2_1`. -/
def pthread_create (cfg : Config) (attr : Attr P) : Prog (Calls P) (Except Errno P) := do
  let r ← allocate_stack cfg attr
  match r with
  | .error err => pure (.error (if err = .ENOMEM then .EAGAIN else err))
  | .ok pd => do
    perform (.init pd attr)
    let cloned ← clone pd
    match cloned with
    | .ok => pure (.ok pd)
    -- `thread_ran`
    | .ran => pure (.error .EINVAL)
    | .failed => do
      deallocate_stack pd
      pure (.error .EAGAIN)

variable [DecidableEq P]

/-- The end of `start_thread`, behind the start routine. -/
def start_thread_end (pd : P) : Prog (Calls P) Unit := do
  let detached ← joinid pd
  if detached = some pd then
    free_tcb pd
    exit_thread
  else exit_thread

/-- How `pthread_join` ends; the thread that calls it may be cancelled. -/
inductive Joined where
  | joined
  | failed (err : Errno)
  | canceled
  deriving DecidableEq

/-- `__pthread_clockjoin_ex`, from the wait on. If the thread is cancelled there, `cleanup` compares
its own argument, a pointer to `joinid`, with the thread, and leaves `joinid` as it is. -/
def waitJoin (pd : P) : Prog (Calls P) Joined := do
  let waited ← wait_tid pd
  match waited with
  | .ended => do
    perform (.set_tid pd (-1))
    free_tcb pd
    pure .joined
  | .failed err => do
    perform (.clear_joinid pd)
    perform (.keep_handle pd)
    pure (.failed err)
  | .canceled => do
    perform (.keep_handle pd)
    pure .canceled

/-- `__pthread_clockjoin_ex`, as thread `self`. -/
def clockjoin_ex (self pd : P) : Prog (Calls P) Joined := do
  let detached ← joinid pd
  if detached = some pd then do
    perform (.keep_handle pd)
    pure (.failed .EINVAL)
  else do
    let mine ← joinid self
    let busy ← cancelhandling pd
    let canceled ← cancelhandling self
    if (pd = self ∨ mine = some pd ∧ busy = false) ∧ canceled = false then do
      perform (.keep_handle pd)
      pure (.failed .EDEADLK)
    else do
      let locked ← cas_joinid pd
      if locked then do
        perform (.keep_handle pd)
        pure (.failed .EINVAL)
      else waitJoin pd

end Programs

/-! ## The process -/

/-- What a thread does next, and how calls end. -/
inductive Env (P : Type) where
  | ok
  | fail
  /-- `mmap` gives the memory with this descriptor; `pthread_join` is called for this thread. -/
  | thread (pd : P)
  /-- The result of `clone`. -/
  | cloned (c : Cloned)
  /-- How the wait of `pthread_join` ends. -/
  | waited (w : Waited)
  /-- `pthread_create` is called. -/
  | create (attr : Attr P)
  /-- The start routine ends. -/
  | finish
  deriving DecidableEq

/-- What a thread is doing between the functions. -/
inductive Ret (P : Type) where
  /-- It runs its start routine; the last function has returned this. -/
  | routine (created : Option (Except Errno P)) (joined : Option Joined)
  /-- It has been cancelled, and ends. -/
  | canceled
  /-- It has ended, or not begun. -/
  | ended

section Kernel

variable {P : Type} [DecidableEq P]

def State.setBlock (s : State P) (pd : P) (b : Block P) : State P :=
  { s with block := Function.update s.block pd b }

def State.add (s : State P) (elem : P) : ListHead → State P
  | .stack_cache => { s with stack_cache := elem :: s.stack_cache }
  | .stack_used => { s with stack_used := elem :: s.stack_used }
  | .__stack_user => { s with stack_user := elem :: s.stack_user }

def State.del (s : State P) (elem : P) : State P :=
  { s with
    stack_cache := s.stack_cache.erase elem
    stack_used := s.stack_used.erase elem
    stack_user := s.stack_user.erase elem }

/-- Thread `i` works on what the lock protects. -/
def State.touch (s : State P) (i : P) : State P :=
  if s.stack_cache_lock = some i then s else { s with races := i :: s.races }

/-- The answer to a call of thread `i`, if it does not have to wait, and if it can be such. -/
def answer (i : P) (c : Call P) (e : Env P) (s : State P) : Option (c.Ans × State P) :=
  match c with
  | .lll_lock =>
    if s.stack_cache_lock = none then some ((), { s with stack_cache_lock := some i }) else none
  | .lll_unlock => some ((), { s with stack_cache_lock := none })
  | .in_flight el => some ((), { s.touch i with in_flight_stack := el })
  | .list_add elem list => some ((), (s.touch i).add elem list)
  | .list_del elem => some ((), (s.touch i).del elem)
  | .list_for_each => some (s.stack_cache, s.touch i)
  | .FREE_P curr => some (decide ((s.block curr).tid ≤ 0), s)
  | .stackblock_size pd => some ((s.block pd).stackblock_size, s)
  | .guardsize pd => some ((s.block pd).guardsize, s)
  | .set_guardsize pd n => some ((), s.setBlock pd { s.block pd with guardsize := n })
  | .user_stack pd => some ((s.block pd).user_stack, s)
  | .add_actsize n =>
    let size := toSize (s.stack_cache_actsize + n)
    some (size, { s.touch i with stack_cache_actsize := size })
  | .sub_actsize n =>
    let size := toSize (s.stack_cache_actsize - n)
    some (size, { s.touch i with stack_cache_actsize := size })
  | .mmap size guard =>
    match e with
    | .thread pd =>
      -- memory that is not in use, of a size that an address space can have
      if (s.block pd).mem = .none ∧ (s.block pd).alive = false ∧ size < 18446744073709551616 then
        some (some pd, s.setBlock pd { s.block pd with
          stackblock_size := size, guardsize := guard, user_stack := false, tid := 0
          joinid := none, TERMINATED := false, mem := .mapped })
      else none
    | .fail => some (none, s)
    | _ => none
  | .munmap pd => some ((), s.setBlock pd { s.block pd with mem := .none })
  | .prepare =>
    match e with
    | .ok => some (true, s)
    | .fail => some (false, s)
    | _ => none
  | .provide pd size =>
    -- the program provides memory that is not in use
    if (s.block pd).mem = .none ∧ (s.block pd).alive = false then
      some ((), s.setBlock pd { s.block pd with
        stackblock_size := size, guardsize := 0, user_stack := true, tid := 0, joinid := none
        TERMINATED := false, mem := .user })
    else none
  | .give_back pd => some ((), s.setBlock pd { s.block pd with mem := .none })
  | .reuse pd => some ((), s.setBlock pd { s.block pd with TERMINATED := false })
  | .init pd attr =>
    some ((), s.setBlock pd { s.block pd with
      joinid := if attr.detachstate then some pd else none, attr })
  | .clone pd =>
    let b := s.block pd
    let joinable := decide (b.joinid ≠ some pd)
    let run (handle leaked : Bool) : State P :=
      { s.setBlock pd { b with
          tid := 1, alive := true, handle := b.handle || handle, leaked := b.leaked || leaked } with
        clashes := if b.alive then pd :: s.clashes else s.clashes }
    match e with
    | .cloned .ok => some (.ok, run joinable false)
    | .cloned .ran => some (.ran, run false joinable)
    | .cloned .failed => some (.failed, s)
    | _ => none
  | .joinid pd => some ((s.block pd).joinid, s)
  | .cancelhandling _ =>
    match e with
    | .ok => some (true, s)
    | .fail => some (false, s)
    | _ => none
  | .cas_joinid pd =>
    -- the weak form may fail although the two are equal
    if (s.block pd).joinid = some i ∧ e = .ok then
      some (true, s.setBlock pd { s.block pd with joinid := none })
    else some (false, s)
  | .clear_joinid pd => some ((), s.setBlock pd { s.block pd with joinid := none })
  | .wait_tid pd =>
    match e with
    | .waited .ended => if (s.block pd).tid = 0 then some (.ended, s) else none
    | .waited w => some (w, s)
    | _ => none
  | .set_tid pd tid => some ((), s.setBlock pd { s.block pd with tid })
  | .test_set_terminated pd =>
    some ((s.block pd).TERMINATED, s.setBlock pd { s.block pd with TERMINATED := true })
  | .keep_handle pd =>
    let b := s.block pd
    some ((), s.setBlock pd { b with handle := b.handle || decide (b.joinid ≠ some pd) })
  | .exit_thread => some ((), s.setBlock i { s.block i with alive := false })

/-- The next function of thread `i`. A thread that the kernel has started begins with its start
routine. The program joins only threads that it has a handle for, at most once at a time. -/
def enter (cfg : Config) (i : P) (r : Ret P) (e : Env P) (s : State P) :
    Option (Prog (Calls P) (Ret P) × State P) :=
  if (s.block i).alive = false then none
  else
    match r, e with
    | .ended, .ok => some (.ret (.routine none none), s)
    | .routine _ _, .create attr =>
      some ((fun r => Ret.routine (some r) none) <$> pthread_create cfg attr, s)
    | .routine _ _, .thread pd =>
      if (s.block pd).handle = true then
        some ((fun r => if r = .canceled then Ret.canceled else Ret.routine none (some r)) <$>
            clockjoin_ex i pd,
          s.setBlock pd { s.block pd with handle := false })
      else none
    | .routine _ _, .finish | .canceled, .finish =>
      some ((fun _ => Ret.ended) <$> start_thread_end i, s)
    | _, _ => none

/-- The kernel clears `tid` when the thread has ended. -/
def happen (e : Env P) (s : State P) : Option (State P) :=
  match e with
  | .thread pd =>
    if (s.block pd).alive = false ∧ 0 < (s.block pd).tid then
      some (s.setBlock pd { s.block pd with tid := 0 })
    else none
  | _ => none

def sem (cfg : Config) : Pool.Sem P (State P) (Env P) (Calls P) (Ret P) where
  answer := answer
  enter := enter cfg
  happen := happen

/-- A process that has one thread, with a stack from the kernel, which is as large as the thread
wants it to be. -/
def Start (main : P) (p : Pool P (State P) (Calls P) (Ret P)) : Prop :=
  p.shared.stack_cache = [] ∧ p.shared.stack_used = [] ∧ p.shared.stack_user = [main] ∧
    p.shared.stack_cache_actsize = 0 ∧ p.shared.stack_cache_lock = none ∧
    p.shared.in_flight_stack = none ∧ p.shared.clashes = [] ∧ p.shared.races = [] ∧
    (∀ pd, pd ≠ main → (p.shared.block pd).mem = .none ∧ (p.shared.block pd).alive = false ∧
      (p.shared.block pd).handle = false ∧ (p.shared.block pd).leaked = false) ∧
    (p.shared.block main).mem = .user ∧ (p.shared.block main).user_stack = true ∧
    (p.shared.block main).stackblock_size = (p.shared.block main).attr.stacksize ∧
    (p.shared.block main).attr.stacksize ≠ 0 ∧
    (p.shared.block main).alive = true ∧ 0 < (p.shared.block main).tid ∧
    (p.shared.block main).joinid = none ∧ (p.shared.block main).TERMINATED = false ∧
    (p.shared.block main).handle = true ∧ (p.shared.block main).leaked = false ∧
    p.prog main = .ret (.routine none none) ∧ ∀ pd, pd ≠ main → p.prog pd = .ret .ended

def machine (cfg : Config) (main : P) :
    Machine (Pool P (State P) (Calls P) (Ret P)) (Pool.Label P (Env P)) :=
  Pool.machine (sem cfg) (Start main)

end Kernel

end EngineerLinux.Nptl
