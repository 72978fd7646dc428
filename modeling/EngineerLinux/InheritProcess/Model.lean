import EngineerLinux.Lib.FdTable
import EngineerLinux.Lib.Machine

/-!
# A server that forks (`server.c`)

One thread (`remote_process`, lines 40-73, and `msg_process`, 9-38, in it) serves one client after
the other; another (`sub_process`, 75-88) forks and executes a program. The model is a machine whose
label says which of the threads, or the child, makes its next call, and how the call ends; so the
fork may come between any two calls of the first thread. `fork` copies the descriptor table, and
`execl` closes what is marked close-on-exec.

A program point names the next call, with the descriptors that are in variables there. The two
macros choose between `socket` with and without the flag, and whether there is an `fcntl`
(45-55).

`sleep`, `perror` and `printf` are left out, and of an accepted connection only what `recv` stores.
-/

namespace EngineerLinux.InheritProcess

/-- How the program is compiled: neither macro, `-DUSE_SOCK_CLOEXEC`, or `-DUSE_FD_CLOEXEC`. -/
inductive Build where
  | plain
  | sockCloexec
  | fdCloexec
  deriving DecidableEq

/-- What a descriptor refers to: a socket made by `socket` or by `accept`, or something else. -/
inductive Kind where
  | listening
  | connected
  | other
  deriving DecidableEq

def Kind.isSocket : Kind → Bool
  | .listening | .connected => true
  | .other => false

/-- A descriptor, with its `FD_CLOEXEC` flag. -/
structure Desc where
  kind : Kind
  cloexec : Bool
  deriving DecidableEq

/-- Program points of `remote_process` and `msg_process`; each names the next call. -/
inductive RemotePc where
  | socket
  /-- `fcntl(sockfd, F_SETFD, FD_CLOEXEC)`. -/
  | fcntl (sockfd : Int)
  | bind (sockfd : Int)
  | listen (sockfd : Int)
  | accept (sockfd : Int)
  | recv (sockfd connect_fd : Int)
  | closeConnect (sockfd connect_fd : Int)
  | closeSock (sockfd : Int)
  /-- `remote_process` has returned `NULL`. -/
  | returned
  deriving DecidableEq

/-- The child: not there, forked with a copy of the table, executing the program with what is left
of it, or gone. -/
inductive Child where
  | none
  | forked (table : FdTable Desc)
  | execed (table : FdTable Desc)
  | exited
  deriving DecidableEq

structure State where
  table : FdTable Desc
  remote : RemotePc
  /-- `sub_process` has called `fork`. -/
  forked : Bool
  child : Child

/-- Standard input, output and error are open, and the threads have been started. -/
def State.initial : State where
  table := [some ⟨.other, false⟩, some ⟨.other, false⟩, some ⟨.other, false⟩]
  remote := .socket
  forked := false
  child := .none

/-- How a call ends: it returns -1 or not, and `recv` stores the bytes it returns, 1024 at most. -/
inductive Outcome where
  | fail
  | ok
  | received (data : List UInt8)

/-- `strstr(buf, "quit")`, with a 0 behind the bytes that have been received. -/
def hasQuit (data : List UInt8) : Bool :=
  (data.takeWhile (· ≠ 0)).tails.any ([0x71, 0x75, 0x69, 0x74].isPrefixOf ·)

namespace State

variable (s : State)

/-- A new descriptor. -/
def alloc (d : Desc) : Int × State :=
  ((s.table.alloc d).1, { s with table := (s.table.alloc d).2 })

/-- `fcntl(fd, F_SETFD, FD_CLOEXEC)`. -/
def setCloexec (fd : Int) : State :=
  match s.table.lookup fd with
  | some d => { s with table := s.table.put fd { d with cloexec := true } }
  | none => s

def close (fd : Int) : State :=
  match s.table.lookup fd with
  | some _ => { s with table := s.table.free fd }
  | none => s

def goto (pc : RemotePc) : State := { s with remote := pc }

end State

/-- One call of `remote_process`. -/
def remoteProcess (b : Build) (s : State) (o : Outcome) : Option State :=
  match s.remote, o with
  | .socket, .ok =>
    let (sockfd, s) := s.alloc ⟨.listening, b = .sockCloexec⟩
    some (s.goto (if b = .fdCloexec then .fcntl sockfd else .bind sockfd))
  | .socket, .fail => some (s.goto .returned)
  | .fcntl sockfd, .ok => some ((s.setCloexec sockfd).goto (.bind sockfd))
  | .bind sockfd, .ok => some (s.goto (.listen sockfd))
  | .bind _, .fail => some (s.goto .returned)
  | .listen sockfd, .ok => some (s.goto (.accept sockfd))
  | .listen _, .fail => some (s.goto .returned)
  | .accept sockfd, .ok =>
    let (connect_fd, s) := s.alloc ⟨.connected, false⟩
    some (s.goto (.recv sockfd connect_fd))
  -- `while (connect_fd == -1)`
  | .accept _, .fail => some s
  -- `msg_process` returns, and `remote_process` makes its next turn
  | .recv _ _, .fail => some (s.goto .socket)
  | .recv sockfd connect_fd, .received data =>
    if 1024 < data.length then none
    else if hasQuit data then some (s.goto (.closeConnect sockfd connect_fd))
    else some s
  | .closeConnect sockfd connect_fd, .ok => some ((s.close connect_fd).goto (.closeSock sockfd))
  | .closeSock sockfd, .ok => some ((s.close sockfd).goto .socket)
  | _, _ => none

/-- `fork` in `sub_process`. -/
def subProcess (s : State) (o : Outcome) : Option State :=
  match s.forked, o with
  | false, .ok => some { s with forked := true, child := .forked s.table }
  | false, .fail => some { s with forked := true }
  | _, _ => none

/-- `execl` in the child, and `_exit` if it fails. -/
def child (s : State) (o : Outcome) : Option State :=
  match s.child, o with
  | .forked table, .ok => some { s with child := .execed (table.onExec fun d => !d.cloexec) }
  | .forked _, .fail => some { s with child := .exited }
  | _, _ => none

/-- Who makes a call. -/
inductive Act where
  | remote (o : Outcome)
  | sub (o : Outcome)
  | child (o : Outcome)

def step (b : Build) (s : State) : Act → Option State
  | .remote o => remoteProcess b s o
  | .sub o => subProcess s o
  | .child o => child s o

/-- The server, from the beginning. -/
def machine (b : Build) : Machine State Act where
  init := fun s => s = .initial
  next := step b

end EngineerLinux.InheritProcess
