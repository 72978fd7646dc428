import EngineerLinux.LibcSystem.Model

/-!
# `popen` and `pclose` (`glibc-2.27/iopopen.c`, `glibc-2.32/iopopen.c`)

`_IO_new_proc_open` and `_IO_new_proc_close` of either version (lines 63-179 and 214-255 of 2.27,
71-217 and 249-294 of 2.32), called by any number of threads of one process. Every step is one
system call, or one access to the chain of the open streams, which a lock protects. 2.27 takes this
lock to change the chain only; 2.32 holds it from before the child is started until the stream is in
the chain.

A stream has a number, and so has its pipe. A command that has been started is recorded with the
descriptors it begins with; its process number is its place in this record. The program may open
and close descriptors of its own in between, and calls `pclose` on any stream.

Left out are `errno`, the buffers and flags of `FILE`, a failing `malloc` (it is like a mode that is
not accepted: `popen` returns a null pointer and has done nothing), and the `_exit (127)` of a child
whose `execl` fails.
-/

namespace EngineerLinux.Popen

open StartProcess LibcSystem

/-- What a descriptor refers to: `pipe_fds[0]` or `pipe_fds[1]` of a pipe, or something else. -/
inductive File where
  | pipe (fp : Nat) (write : Bool)
  | other (n : Nat)
  deriving DecidableEq

def File.isPipe : File → Bool
  | .pipe _ _ => true
  | .other _ => false

structure Desc where
  file : File
  cloexec : Bool
  deriving DecidableEq

/-! ## The mode -/

structure Mode where
  do_read : Bool
  do_write : Bool
  do_cloexec : Bool
  deriving DecidableEq

/-- `while (*mode != '\0') switch (*mode++)`. -/
def modeLoop : Text → Mode → Option Mode
  | [], m => some m
  | c :: mode, m =>
    if c = 'r' then modeLoop mode { m with do_read := true }
    else if c = 'w' then modeLoop mode { m with do_write := true }
    else if c = 'e' then modeLoop mode { m with do_cloexec := true }
    else none

/-- The mode; none is `errout`. -/
def parseMode (mode : Text) : Option Mode :=
  (modeLoop mode ⟨false, false, false⟩).filter fun m => m.do_read ^^ m.do_write

theorem modeLoop_eq_some_iff {mode : Text} {m m' : Mode} :
    modeLoop mode m = some m' ↔ (∀ c ∈ mode, c = 'r' ∨ c = 'w' ∨ c = 'e') ∧
      m' = ⟨m.do_read || decide ('r' ∈ mode), m.do_write || decide ('w' ∈ mode),
        m.do_cloexec || decide ('e' ∈ mode)⟩ := by
  induction mode generalizing m with
  | nil => simp [modeLoop, eq_comm]
  | cons c mode ih =>
    unfold modeLoop
    by_cases hr : c = 'r'
    · subst hr
      rw [if_pos rfl, ih]
      simp
    · by_cases hw : c = 'w'
      · subst hw
        rw [if_neg (by decide), if_pos rfl, ih]
        simp
      · by_cases he : c = 'e'
        · subst he
          rw [if_neg (by decide), if_neg (by decide), if_pos rfl, ih]
          simp
        · rw [if_neg hr, if_neg hw, if_neg he]
          simp [hr, hw, he]

/-- A mode is accepted if it consists of these letters, with just one of `r` and `w`, in any order
and any number. -/
theorem parseMode_eq_some_iff {mode : Text} {m : Mode} :
    parseMode mode = some m ↔ (∀ c ∈ mode, c = 'r' ∨ c = 'w' ∨ c = 'e') ∧
      ('r' ∈ mode ↔ 'w' ∉ mode) ∧
      m = ⟨decide ('r' ∈ mode), decide ('w' ∈ mode), decide ('e' ∈ mode)⟩ := by
  unfold parseMode
  rw [Option.filter_eq_some_iff, modeLoop_eq_some_iff, and_assoc, and_congr_right_iff]
  intro _
  simp only [Bool.false_or]
  rw [and_comm, and_congr_left_iff]
  rintro rfl
  by_cases hr : 'r' ∈ mode <;> by_cases hw : 'w' ∈ mode <;> simp [hr, hw]

/-! ## Streams and calls -/

/-- The local variables of `_IO_new_proc_open`; `parent_end` and `child_end` are the
descriptors. -/
structure Local where
  fp : Nat
  command : Text
  do_read : Bool
  do_cloexec : Bool
  parent_end : Int
  child_end : Int
  deriving DecidableEq

/-- `child_std_end` in 2.27. -/
def Local.child_pipe_fd (l : Local) : Int := if l.do_read then 1 else 0

def Local.parentFile (l : Local) : File := .pipe l.fp (!l.do_read)

def Local.childFile (l : Local) : File := .pipe l.fp l.do_read

/-- A stream in `proc_file_chain`. -/
structure Stream where
  fp : Nat
  fileno : Int
  pid : Nat
  /-- What the descriptor refers to. -/
  desc : Desc
  deriving DecidableEq

/-- Program points; each names what the thread does next. -/
inductive Pc where
  /-- In neither function. -/
  | idle
  /-- `__pipe2 (pipe_fds, O_CLOEXEC)`. -/
  | pipe2 (fp : Nat) (command : Text) (m : Mode)
  /-- 2.32: `__fcntl (child_pipe_fd, F_DUPFD_CLOEXEC, 0)`. -/
  | dupfd (l : Local)
  /-- 2.32: `__close_nocancel (pipe_fds[child_end])`, and `pipe_fds[child_end] = tmp`. -/
  | closeDup (l : Local) (tmp : Int)
  /-- 2.32: `__posix_spawn_file_actions_adddup2`. -/
  | adddup2 (l : Local)
  /-- 2.32: `_IO_lock_lock (proc_file_chain_lock)`. -/
  | lockSpawn (l : Local)
  /-- `__fork ()`, or the loop with `__posix_spawn_file_actions_addclose` and `__posix_spawn`. -/
  | spawn (l : Local)
  /-- `__close_nocancel (child_end)`. -/
  | closeChild (l : Local) (pid : Nat)
  /-- `__fcntl (parent_end, F_SETFD, 0)`, if not `do_cloexec`. -/
  | setFd (l : Local) (pid : Nat)
  /-- 2.27: `_IO_lock_lock (proc_file_chain_lock)`. -/
  | lockLink (l : Local) (pid : Nat)
  /-- The stream becomes the first of `proc_file_chain`. -/
  | link (l : Local) (pid : Nat)
  | unlockOpen (fp : Nat)
  /-- 2.32: `_IO_lock_unlock (proc_file_chain_lock)`, when nothing was started. -/
  | unlockFail (l : Local)
  /-- `__close_nocancel` of the child's end then. -/
  | failChild (l : Local)
  /-- `__close_nocancel` of the parent's end then. -/
  | failParent (l : Local)
  /-- `_IO_new_proc_close`: `_IO_lock_lock (proc_file_chain_lock)`. -/
  | lockClose (fp : Nat)
  /-- The loop over `proc_file_chain`. -/
  | unlink (fp : Nat)
  /-- `_IO_lock_unlock (proc_file_chain_lock)`; none: `status < 0`. -/
  | unlockClose (found : Option Stream)
  /-- `__close_nocancel (_IO_fileno (fp))`. -/
  | close (st : Stream)
  /-- `__waitpid (pid, &wstatus, 0)`, in a loop. -/
  | wait (st : Stream)
  deriving DecidableEq

/-- What `popen` or `pclose` returns. -/
inductive Ret where
  | null
  | stream (fp : Nat)
  | status (n : Int)
  deriving DecidableEq

/-- A command that has been started. -/
structure Kid where
  fp : Nat
  argv : List Text
  /-- Its descriptors at the beginning. -/
  table : FdTable Desc

structure State (ι : Type) where
  table : FdTable Desc
  proc_file_chain : List Stream
  lock : Option ι
  pc : ι → Pc
  /-- The number of streams so far. -/
  next : Nat
  kids : List Kid
  /-- What the last call has returned. -/
  returned : ι → Ret

/-! ## Descriptors -/

/-- `fcntl (fd, F_SETFD, 0)`. -/
def clearCloexec (t : FdTable Desc) (fd : Int) : FdTable Desc :=
  match t.lookup fd with
  | some d => t.put fd { d with cloexec := false }
  | none => t

/-- `dup2`: the new descriptor is not closed by `exec`. -/
def dup2 (t : FdTable Desc) (fd fd2 : Int) : FdTable Desc := clearCloexec (t.dup fd fd2) fd2

/-- The loop over the chain in the child: all streams are closed, but not what is its standard
input or output now. -/
def closeChain (std : Int) : List Stream → FdTable Desc → FdTable Desc
  | [], t => t
  | st :: chain, t => closeChain std chain (if st.fileno ≠ std then t.free st.fileno else t)

/-- The descriptors with which a command begins. -/
def childTable (v : Version) (t : FdTable Desc) (chain : List Stream) (l : Local) :
    FdTable Desc :=
  let std := l.child_pipe_fd
  let t :=
    match v with
    | .v2_27 => if l.child_end ≠ std then dup2 t l.child_end std else clearCloexec t l.child_end
    | .v2_32 => dup2 t l.child_end std
  (closeChain std chain t).onExec fun d => !d.cloexec

/-! ## Steps -/

/-- The loop in `_IO_new_proc_close`: the stream, and the chain without it. -/
def unlink (fp : Nat) : List Stream → Option (Stream × List Stream)
  | [] => none
  | st :: chain =>
    if st.fp = fp then some (st, chain)
    else (unlink fp chain).map fun r => (r.1, st :: r.2)

namespace State

variable {ι : Type} [DecidableEq ι]

def goto (s : State ι) (i : ι) (pc : Pc) : State ι := { s with pc := Function.update s.pc i pc }

def ret (s : State ι) (i : ι) (r : Ret) : State ι :=
  { s with pc := Function.update s.pc i .idle, returned := Function.update s.returned i r }

/-- `pipe2`, and which end belongs to whom. -/
def pipe2 (s : State ι) (fp : Nat) (command : Text) (m : Mode) : Local × FdTable Desc :=
  let r := s.table.alloc ⟨.pipe fp false, true⟩
  let w := r.2.alloc ⟨.pipe fp true, true⟩
  (⟨fp, command, m.do_read, m.do_cloexec, if m.do_read then r.1 else w.1,
    if m.do_read then w.1 else r.1⟩, w.2)

/-- The command that is started. -/
def kid (v : Version) (s : State ι) (l : Local) : Kid :=
  ⟨l.fp, [['s', 'h'], ['-', 'c'], l.command], childTable v s.table s.proc_file_chain l⟩

end State

variable {ι : Type} [DecidableEq ι]

/-- One step of thread `i`, other than `waitpid`; the answer is that of the call it makes. -/
def procStep (v : Version) (s : State ι) (i : ι) (ans : Answer) : Option (State ι) :=
  match s.pc i with
  | .idle | .wait _ => none
  | .pipe2 fp command m =>
    match ans, v with
    | .fail, _ => some (s.ret i .null)
    | .ok, .v2_27 =>
      let r := s.pipe2 fp command m
      some ({ s with table := r.2 }.goto i (.spawn r.1))
    | .ok, .v2_32 =>
      let r := s.pipe2 fp command m
      some ({ s with table := r.2 }.goto i
        (if r.1.child_end = r.1.child_pipe_fd then .dupfd r.1 else .adddup2 r.1))
  | .dupfd l =>
    match ans with
    | .ok =>
      let r := s.table.alloc ⟨l.childFile, true⟩
      some ({ s with table := r.2 }.goto i (.closeDup l r.1))
    | .fail => some (s.goto i (.failChild l))
  | .closeDup l tmp =>
    some ({ s with table := s.table.free l.child_end }.goto i
      (.adddup2 { l with child_end := tmp }))
  | .adddup2 l =>
    match ans with
    | .ok => some (s.goto i (.lockSpawn l))
    | .fail => some (s.goto i (.failChild l))
  | .lockSpawn l =>
    if s.lock = none then some ({ s with lock := some i }.goto i (.spawn l)) else none
  | .spawn l =>
    match ans, v with
    | .ok, _ =>
      some ({ s with kids := s.kids ++ [s.kid v l] }.goto i (.closeChild l s.kids.length))
    | .fail, .v2_27 => some (s.goto i (.failChild l))
    | .fail, .v2_32 => some (s.goto i (.unlockFail l))
  | .closeChild l pid => some ({ s with table := s.table.free l.child_end }.goto i (.setFd l pid))
  | .setFd l pid =>
    some ({ s with
      table := if l.do_cloexec then s.table else clearCloexec s.table l.parent_end }.goto i
      (match v with
        | .v2_27 => .lockLink l pid
        | .v2_32 => .link l pid))
  | .lockLink l pid =>
    if s.lock = none then some ({ s with lock := some i }.goto i (.link l pid)) else none
  | .link l pid =>
    some ({ s with
      proc_file_chain :=
        ⟨l.fp, l.parent_end, pid, l.parentFile, l.do_cloexec⟩ :: s.proc_file_chain }.goto i
      (.unlockOpen l.fp))
  | .unlockOpen fp => some ({ s with lock := none }.ret i (.stream fp))
  | .unlockFail l => some ({ s with lock := none }.goto i (.failChild l))
  | .failChild l => some ({ s with table := s.table.free l.child_end }.goto i (.failParent l))
  | .failParent l => some ({ s with table := s.table.free l.parent_end }.ret i .null)
  | .lockClose fp =>
    if s.lock = none then some ({ s with lock := some i }.goto i (.unlink fp)) else none
  | .unlink fp =>
    match unlink fp s.proc_file_chain with
    | some (st, chain) => some ({ s with proc_file_chain := chain }.goto i (.unlockClose (some st)))
    | none => some (s.goto i (.unlockClose none))
  | .unlockClose none => some ({ s with lock := none }.ret i (.status (-1)))
  | .unlockClose (some st) => some ({ s with lock := none }.goto i (.close st))
  | .close st =>
    let s' := { s with table := s.table.free st.fileno }
    match ans with
    | .ok => some (s'.goto i (.wait st))
    -- the descriptor is closed all the same
    | .fail => some (s'.ret i (.status (-1)))

/-- Who moves, or what happens. -/
inductive Act (ι : Type) where
  /-- A thread calls `popen (command, mode)`. -/
  | popen (i : ι) (command mode : Text)
  /-- A thread calls `pclose`. -/
  | pclose (i : ι) (fp : Nat)
  | step (i : ι) (ans : Answer)
  /-- `waitpid` in thread `i`. -/
  | waited (i : ι) (r : Waited)
  /-- The program opens a descriptor of its own. -/
  | openOwn (n : Nat) (cloexec : Bool)
  /-- The program closes a descriptor of its own. -/
  | closeOwn (fd : Int)

def step (v : Version) (s : State ι) : Act ι → Option (State ι)
  | .popen i command mode =>
    if s.pc i = .idle then
      match parseMode mode with
      | some m => some ({ s with next := s.next + 1 }.goto i (.pipe2 s.next command m))
      | none => some (s.ret i .null)
    else none
  | .pclose i fp => if s.pc i = .idle then some (s.goto i (.lockClose fp)) else none
  | .step i ans => procStep v s i ans
  | .waited i r =>
    match s.pc i, r with
    | .wait _, .done status => some (s.ret i (.status status))
    | .wait _, .eintr => some s
    | .wait _, .error => some (s.ret i (.status (-1)))
    | _, _ => none
  | .openOwn n cloexec => some { s with table := (s.table.alloc ⟨.other n, cloexec⟩).2 }
  | .closeOwn fd =>
    match s.table.lookup fd with
    | some ⟨.other _, _⟩ => some { s with table := s.table.free fd }
    | _ => none

/-- The threads `ι` of a process that has opened no pipe. -/
def machine (ι : Type) [DecidableEq ι] (v : Version) : Machine (State ι) (Act ι) where
  init := fun s =>
    (∀ fd d, s.table.lookup fd = some d → d.file.isPipe = false) ∧ s.proc_file_chain = [] ∧
      s.lock = none ∧ (∀ i, s.pc i = .idle) ∧ s.kids = []
  next := step v

end EngineerLinux.Popen
