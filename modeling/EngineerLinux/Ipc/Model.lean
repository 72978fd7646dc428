import EngineerLinux.Ipc.Kernel
import EngineerLinux.Lib.Machine

/-!
# `Ipc` (`ipc.hpp`, `ipc.cpp`)

The four member functions `Open` (lines 12-69), `Read` (79-133), `Write` (143-200) and `Close`
(208-219) as programs over the system calls: each takes the object's `ipc_info_` and returns it as
the function leaves it, next to the function's result. Log output is left out.

Every `switch` on the type, every test of a result and every conversion is where the source has it:
`ipc_info_.type` is written before the first system call (line 16), `-1` becomes a `size_t` in
`Read`, and only the branch of the queue sets what `Write` returns (194-195).

`step` is then the system of the processes that use the class, each with one object of its own: a
process that is not in a call may begin one, and a process in a call performs its next system call.
A statement about one object runs the programs against any answers; one about several processes is
about the runs of `step` over `Kernel.sys`.
-/

namespace EngineerLinux.Ipc

/-- `MAX_MSG_NUM`. -/
def MAX_MSG_NUM : Nat := 5

/-- `MSG_LEN`, which is `sizeof(IPC_MSG)`: an int, padded, and a pointer. -/
def MSG_LEN : Nat := 16

/-- `RET_TYPE`, the values `Ipc` returns. -/
inductive RetType where
  | success
  | fail
  deriving DecidableEq

/-- `IPC_TYPE`. -/
inductive IpcType where
  | socket
  | mqueue
  deriving DecidableEq

/-- `ROLE_TYPE`. -/
inductive RoleType where
  | server
  | client
  deriving DecidableEq

/-- `IPC_INFO`. `ipc_mq` and `socket` are the same four bytes of the union. -/
structure IpcInfo where
  type : IpcType
  fd : Int
  role_type : RoleType
  deriving DecidableEq

def IpcInfo.ipc_mq (info : IpcInfo) : Int := info.fd

def IpcInfo.socket (info : IpcInfo) : Int := info.fd

/-- A zero-initialised object. -/
def IpcInfo.zero : IpcInfo := ⟨.socket, 0, .server⟩

/-- The name a role binds its own socket to. -/
def RoleType.name : RoleType → SockName
  | .server => .server
  | .client => .client

/-- The other role. -/
def RoleType.other : RoleType → RoleType
  | .server => .client
  | .client => .server

/-- Conversion of a return value to `size_t`, modulo 2^64. -/
def toSizeT (ret : Int) : Nat := (ret % 18446744073709551616).toNat

/-- The deadline that `Read` and `Write` hand to the queue. The seconds are a `time_t` of 64 bits,
which no clock and timeout together exceed before the year 292277026596. -/
def deadline (now : Timespec) (timeout : Int) : Timespec :=
  let sec := now.tv_sec + timeout.tdiv 1000
  let nsec := now.tv_nsec + timeout.tmod 1000 * 1000 * 1000
  if nsec > 1000000000 then ⟨sec + 1, nsec - 1000000000⟩ else ⟨sec, nsec⟩

/-- `Ipc::Open`. -/
def Open (info : IpcInfo) (type : IpcType) (role : RoleType) : Prog Posix (IpcInfo × RetType) :=
  let info := { info with type := type }
  match type with
  | .socket =>
    let info := { info with role_type := role }
    .call (.unlink (if .server = role then .server else .client)) fun (_ : Int) =>
    .call .socket fun (fd : Int) =>
    if fd < 0 then .ret (info, .fail)
    else
      .call (.bind fd (if .server = role then .server else .client)) fun (ret : Int) =>
      if ret < 0 then .call (.close fd) fun (_ : Int) => .ret (info, .fail)
      else
        .call (.setsockopt fd .rcvbuf MSG_LEN) fun (_ : Int) =>
        .call (.setsockopt fd .sndbuf MSG_LEN) fun (_ : Int) =>
        .ret ({ info with fd := fd }, .success)
  | .mqueue =>
    .call (.mqOpen (if .server = role then some ⟨MAX_MSG_NUM, MSG_LEN⟩ else none)) fun (fd : Int) =>
    if fd < 0 then .call .mqUnlink fun (_ : Int) => .ret (info, .fail)
    else .ret ({ info with fd := fd }, .success)

/-- `Ipc::Read`: the return value and the bytes stored in `buf`. -/
def Read (info : IpcInfo) (len : Nat) (timeout : Int) : Prog Posix (Nat × Bytes) :=
  match info.type with
  | .socket =>
    if timeout ≤ 0 then
      .call (.recvfrom info.socket len) fun (ret : Int × Bytes) => .ret (toSizeT ret.1, ret.2)
    else
      let value : Timeval := ⟨timeout.tdiv 1000, timeout.tmod 1000 * 1000⟩
      .call (.select info.socket value) fun (select_ret : Int) =>
      if 0 = select_ret then .ret (0, [])
      else if -1 = select_ret then .ret (0, [])
      else
        .call (.recvfrom info.socket len) fun (ret : Int × Bytes) => .ret (toSizeT ret.1, ret.2)
  | .mqueue =>
    if timeout ≤ 0 then
      .call (.mqReceive info.ipc_mq len) fun (ret : Int × Bytes) => .ret (toSizeT ret.1, ret.2)
    else
      .call .clockGettime fun (now : Timespec) =>
      .call (.mqTimedreceive info.ipc_mq len (deadline now timeout)) fun (ret : Int × Bytes) =>
      .ret (toSizeT ret.1, ret.2)

/-- `Ipc::Write`. -/
def Write (info : IpcInfo) (buf : Bytes) (timeout : Int) : Prog Posix RetType :=
  match info.type with
  | .socket =>
    let addr : SockName := if .server = info.role_type then .client else .server
    if timeout ≤ 0 then
      .call (.sendto info.socket buf addr) fun (_ : Int) => .ret .fail
    else
      let sec := timeout.tdiv 1000
      let usec := timeout.tmod 1000 * 1000
      .call (.getSndtimeo info.socket) fun (got : Int × Timeval) =>
      if got.1 ≠ 0 ∨ got.2.tv_sec ≠ sec ∨ got.2.tv_usec ≠ usec then
        .call (.setSndtimeo info.socket ⟨sec, usec⟩) fun (_ : Int) =>
        .call (.sendto info.socket buf addr) fun (_ : Int) => .ret .fail
      else .call (.sendto info.socket buf addr) fun (_ : Int) => .ret .fail
  | .mqueue =>
    if timeout ≤ 0 then
      .call (.mqSend info.ipc_mq buf 50) fun (ret : Int) =>
      .ret (if 0 = ret then .success else .fail)
    else
      .call .clockGettime fun (now : Timespec) =>
      .call (.mqTimedsend info.ipc_mq buf 50 (deadline now timeout)) fun (ret : Int) =>
      .ret (if 0 = ret then .success else .fail)

/-- `Ipc::Close`. -/
def Close (info : IpcInfo) : Prog Posix Unit :=
  match info.type with
  | .socket => .call (.close info.socket) fun (_ : Int) => .ret ()
  | .mqueue =>
    .call .mqUnlink fun (_ : Int) =>
    .call (.mqClose info.ipc_mq) fun (_ : Int) => .ret ()

/-! ## Processes -/

/-- A call of a member function. -/
inductive Op where
  | open (type : IpcType) (role : RoleType)
  | read (len : Nat) (timeout : Int)
  | write (buf : Bytes) (timeout : Int)
  | close

/-- What a call of a member function returned. -/
inductive Result where
  | opened (ret : RetType)
  | read (ret : Nat) (buf : Bytes)
  | wrote (ret : RetType)
  | closed
  deriving DecidableEq

/-- A call of a member function on an object: the object afterwards, and the result. -/
def Op.prog (info : IpcInfo) : Op → Prog Posix (IpcInfo × Result)
  | .open type role => (Open info type role).map fun r => (r.1, .opened r.2)
  | .read len timeout => (Read info len timeout).map fun r => (info, .read r.1 r.2)
  | .write buf timeout => (Write info buf timeout).map fun r => (info, .wrote r)
  | .close => (Close info).map fun _ => (info, .closed)

structure State (ι : Type) where
  kernel : Kernel ι
  /-- The `ipc_info_` of each process. -/
  info : ι → IpcInfo
  /-- The rest of the call that a process is in. -/
  prog : ι → Option (Prog Posix (IpcInfo × Result))
  /-- The last `Open` returned `SUCCESS`, and `Close` has not been called since. -/
  serving : ι → Bool

/-- Nothing has happened yet. -/
def State.initial (ι : Type) : State ι where
  kernel := .initial ι
  info := fun _ => .zero
  prog := fun _ => none
  serving := fun _ => false

/-- What may happen next: process `p` begins a call, or performs its next system call. -/
inductive Act (ι : Type) where
  | call (p : ι) (op : Op)
  | sys (p : ι) (o : Outcome)

variable {ι : Type} [DecidableEq ι]

/-- Process `p` goes on with this rest of its call, or returns from it. -/
def State.goOn (s : State ι) (p : ι) : Prog Posix (IpcInfo × Result) → State ι
  | .ret (info, r) => { s with
      info := Function.update s.info p info
      prog := Function.update s.prog p none
      serving := if r = .opened .success then Function.update s.serving p true else s.serving }
  | .call c k => { s with prog := Function.update s.prog p (some (.call c k)) }

def step (s : State ι) : Act ι → Option (State ι)
  | .call p op =>
    match s.prog p with
    | none =>
      let s := match op with
        | .close => { s with serving := Function.update s.serving p false }
        | _ => s
      some (s.goOn p (op.prog (s.info p)))
    | some _ => none
  | .sys p o =>
    match s.prog p with
    | some (.call c k) =>
      (s.kernel.sys p o c).map fun (a, kernel) => { s with kernel }.goOn p (k a)
    | _ => none

/-- The processes `ι`, each with an `Ipc` object, from the beginning. -/
def machine (ι : Type) [DecidableEq ι] : Machine (State ι) (Act ι) where
  init := fun s => s = .initial ι
  next := step

end EngineerLinux.Ipc
