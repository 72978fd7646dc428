import EngineerLinux.Lib.FdTable
import EngineerLinux.Lib.Prog
import Mathlib.Logic.Function.Basic
import Mathlib.Data.Int.Init

/-!
# The system calls behind `Ipc`, and the kernel that answers them

`Posix` lists the calls `ipc.cpp` makes, with the arguments it gives them. The `Kernel` keeps what
the processes `ι` share through these calls: descriptor tables, the two socket names, the one queue
name, and the messages in each socket and queue. A message in a box remembers who wrote it, and the
kernel also remembers all that was accepted from and delivered to each process; no answer depends
on that.

`Kernel.sys` is what one call does, given an `Outcome` that says how it ends where that is not
determined: whether it fails, whether a wait times out, what the clock shows. A call that has to
wait is not answered yet. `unlink`, `mq_unlink`, `close` and `mq_close` do not fail for any other
reason than that there is no such name or descriptor.
-/

namespace EngineerLinux.Ipc

/-- `struct timespec`. -/
structure Timespec where
  tv_sec : Int
  tv_nsec : Int
  deriving DecidableEq

/-- `struct timeval`. -/
structure Timeval where
  tv_sec : Int
  tv_usec : Int
  deriving DecidableEq

/-- `SOCKET_SERVER_NAME` and `SOCKET_CLIENT_NAME`. -/
inductive SockName where
  | server
  | client
  deriving DecidableEq

/-- The buffer sizes set on a socket. -/
inductive BufOpt where
  | rcvbuf
  | sndbuf
  deriving DecidableEq

/-- `struct mq_attr`, the fields set by `Ipc::Open`. -/
structure MqAttr where
  mq_maxmsg : Nat
  mq_msgsize : Nat
  deriving DecidableEq

abbrev Bytes := List UInt8

inductive Call where
  | unlink (path : SockName)
  /-- `socket(AF_UNIX, SOCK_DGRAM, 0)`. -/
  | socket
  | bind (fd : Int) (path : SockName)
  | setsockopt (fd : Int) (opt : BufOpt) (value : Nat)
  /-- `getsockopt` with `SO_SNDTIMEO`. -/
  | getSndtimeo (fd : Int)
  /-- `setsockopt` with `SO_SNDTIMEO`. -/
  | setSndtimeo (fd : Int) (value : Timeval)
  | close (fd : Int)
  | sendto (fd : Int) (buf : Bytes) (addr : SockName)
  | recvfrom (fd : Int) (len : Nat)
  | select (fd : Int) (timeout : Timeval)
  /-- `mq_open(MQ_FILE, ..)`: with attributes `O_CREAT|O_EXCL|O_RDWR`, without `O_RDWR`. -/
  | mqOpen (create : Option MqAttr)
  /-- `mq_unlink(MQ_FILE)`. -/
  | mqUnlink
  | mqClose (fd : Int)
  | mqSend (fd : Int) (buf : Bytes) (prio : Nat)
  | mqTimedsend (fd : Int) (buf : Bytes) (prio : Nat) (deadline : Timespec)
  | mqReceive (fd : Int) (len : Nat)
  | mqTimedreceive (fd : Int) (len : Nat) (deadline : Timespec)
  /-- `clock_gettime(CLOCK_REALTIME, ..)`. -/
  | clockGettime

/-- The return value, and what the call stores for the caller. -/
def Call.Ans : Call → Type
  | .getSndtimeo _ => Int × Timeval
  | .recvfrom _ _ | .mqReceive _ _ | .mqTimedreceive _ _ _ => Int × Bytes
  | .clockGettime => Timespec
  | _ => Int

def Posix : Sys := ⟨Call, Call.Ans⟩

/-- How a call ends, where that is up to the kernel. -/
inductive Outcome where
  | ok
  | fail
  | timeout
  | clock (now : Timespec)

/-- What a descriptor refers to. -/
inductive Obj where
  | sock (id : Nat)
  | mq (id : Nat)
  | other
  deriving DecidableEq

/-- A message in a socket or a queue. -/
structure Entry (ι : Type) where
  writer : ι
  prio : Nat
  msg : Bytes

structure Kernel (ι : Type) where
  /-- The descriptor tables. -/
  fds : ι → FdTable Obj
  /-- The sockets bound to the names. -/
  sockName : SockName → Option Nat
  /-- The queue `MQ_FILE` refers to. -/
  mqName : Option Nat
  attr : Nat → MqAttr
  /-- Sockets that have not been closed. -/
  live : Nat → Bool
  sndtimeo : Nat → Timeval
  content : Nat → List (Entry ι)
  /-- The next new object. -/
  fresh : Nat
  /-- The messages accepted from each process. -/
  sent : ι → List Bytes
  /-- What was delivered to each process, each message with its writer. -/
  received : ι → List (ι × Bytes)

/-- Processes with standard input, output and error, and no name in use. -/
def Kernel.initial (ι : Type) : Kernel ι where
  fds := fun _ => [some .other, some .other, some .other]
  sockName := fun _ => none
  mqName := none
  attr := fun _ => ⟨0, 0⟩
  live := fun _ => false
  sndtimeo := fun _ => ⟨0, 0⟩
  content := fun _ => []
  fresh := 0
  sent := fun _ => []
  received := fun _ => []

/-- Queue order: the highest priority first, equal priorities in the order of arrival. -/
def enqueue {ι : Type} (q : List (Entry ι)) (e : Entry ι) : List (Entry ι) :=
  q.takeWhile (fun e' => e.prio ≤ e'.prio) ++ e :: q.dropWhile (fun e' => e.prio ≤ e'.prio)

namespace Kernel

variable {ι : Type} [DecidableEq ι]

/-- What descriptor `fd` of process `p` refers to. -/
def lookup (s : Kernel ι) (p : ι) (fd : Int) : Option Obj := (s.fds p).lookup fd

/-- Process `p` gets a descriptor for `o`. -/
def openFd (s : Kernel ι) (p : ι) (o : Obj) : Int × Kernel ι :=
  let (fd, table) := (s.fds p).alloc o
  (fd, { s with fds := Function.update s.fds p table })

/-- Descriptor `fd` of process `p` is free again. -/
def closeFd (s : Kernel ι) (p : ι) (fd : Int) : Kernel ι :=
  { s with fds := Function.update s.fds p ((s.fds p).free fd) }

/-- Process `p` writes an entry to object `b`, which becomes `q`. -/
def accept (s : Kernel ι) (p : ι) (b : Nat) (q : List (Entry ι)) (buf : Bytes) : Kernel ι :=
  { s with
    content := Function.update s.content b q
    sent := Function.update s.sent p (s.sent p ++ [buf]) }

/-- Process `p` gets the first `len` bytes of the oldest entry of object `b`. -/
def deliver (s : Kernel ι) (p : ι) (b : Nat) (e : Entry ι) (rest : List (Entry ι)) (len : Nat) :
    Kernel ι :=
  { s with
    content := Function.update s.content b rest
    received := Function.update s.received p (s.received p ++ [(e.writer, e.msg.take len)]) }

/-- `mq_send` and `mq_timedsend`: a message that is too long is refused, a full queue makes the
caller wait. -/
def mqPut (s : Kernel ι) (p : ι) (o : Outcome) (fd : Int) (buf : Bytes) (prio : Nat) :
    Option (Int × Kernel ι) :=
  match o, s.lookup p fd with
  | .ok, some (.mq q) =>
    if (s.attr q).mq_msgsize < buf.length then some (-1, s)
    else if (s.attr q).mq_maxmsg ≤ (s.content q).length then none
    else some (0, s.accept p q (enqueue (s.content q) ⟨p, prio, buf⟩) buf)
  | .ok, _ => some (-1, s)
  | .fail, _ => some (-1, s)
  | _, _ => none

/-- `mq_receive` and `mq_timedreceive`: a buffer shorter than the queue's message size is refused,
an empty queue makes the caller wait. -/
def mqGet (s : Kernel ι) (p : ι) (o : Outcome) (fd : Int) (len : Nat) :
    Option ((Int × Bytes) × Kernel ι) :=
  match o, s.lookup p fd with
  | .ok, some (.mq q) =>
    if len < (s.attr q).mq_msgsize then some ((-1, []), s)
    else
      match s.content q with
      | [] => none
      | e :: rest => some (((e.msg.take len).length, e.msg.take len), s.deliver p q e rest len)
  | .ok, _ => some ((-1, []), s)
  | .fail, _ => some ((-1, []), s)
  | _, _ => none

/-- What a call of process `p` answers and does; `none` while it has to wait. -/
def sys (s : Kernel ι) (p : ι) (o : Outcome) : (c : Call) → Option (c.Ans × Kernel ι)
  | .unlink path =>
    match o with
    | .ok => some ((if (s.sockName path).isSome then 0 else -1 : Int),
        { s with sockName := Function.update s.sockName path none })
    | _ => none
  | .socket =>
    match o with
    | .ok =>
      let (fd, s') := s.openFd p (.sock s.fresh)
      some (fd, { s' with
        fresh := s.fresh + 1
        live := Function.update s.live s.fresh true
        sndtimeo := Function.update s.sndtimeo s.fresh ⟨0, 0⟩
        content := Function.update s.content s.fresh [] })
    | .fail => some ((-1 : Int), s)
    | _ => none
  | .bind fd path =>
    match o, s.lookup p fd, s.sockName path with
    | .ok, some (.sock i), none =>
      some ((0 : Int), { s with sockName := Function.update s.sockName path (some i) })
    | .ok, _, _ => some ((-1 : Int), s)
    | .fail, _, _ => some ((-1 : Int), s)
    | _, _, _ => none
  | .setsockopt _ _ _ =>
    match o with
    | .ok => some ((0 : Int), s)
    | .fail => some ((-1 : Int), s)
    | _ => none
  | .getSndtimeo fd =>
    match o, s.lookup p fd with
    | .ok, some (.sock i) => some ((0, s.sndtimeo i), s)
    | .ok, _ => some ((-1, ⟨0, 0⟩), s)
    | .fail, _ => some ((-1, ⟨0, 0⟩), s)
    | _, _ => none
  | .setSndtimeo fd value =>
    match o, s.lookup p fd with
    | .ok, some (.sock i) =>
      some ((0 : Int), { s with sndtimeo := Function.update s.sndtimeo i value })
    | .ok, _ => some ((-1 : Int), s)
    | .fail, _ => some ((-1 : Int), s)
    | _, _ => none
  | .close fd =>
    match o, s.lookup p fd with
    | .ok, some (.sock i) =>
      some ((0 : Int), { s.closeFd p fd with live := Function.update s.live i false })
    | .ok, some _ => some ((0 : Int), s.closeFd p fd)
    | .ok, none => some ((-1 : Int), s)
    | _, _ => none
  | .sendto fd buf addr =>
    match o, s.lookup p fd, s.sockName addr with
    | .ok, some (.sock _), some i =>
      if s.live i then
        some ((buf.length : Int), s.accept p i (s.content i ++ [⟨p, 0, buf⟩]) buf)
      else some ((-1 : Int), s)
    | .ok, _, _ => some ((-1 : Int), s)
    | .fail, _, _ => some ((-1 : Int), s)
    | _, _, _ => none
  | .recvfrom fd len =>
    match o, s.lookup p fd with
    | .ok, some (.sock i) =>
      match s.content i with
      | [] => none
      | e :: rest => some (((e.msg.take len).length, e.msg.take len), s.deliver p i e rest len)
    | .ok, _ => some ((-1, []), s)
    | .fail, _ => some ((-1, []), s)
    | _, _ => none
  | .select fd _ =>
    match o, s.lookup p fd with
    | .ok, some (.sock i) => if s.content i = [] then none else some ((1 : Int), s)
    | .ok, _ => some ((-1 : Int), s)
    | .timeout, _ => some ((0 : Int), s)
    | .fail, _ => some ((-1 : Int), s)
    | .clock _, _ => none
  | .mqOpen create =>
    match o, create, s.mqName with
    | .ok, some mqa, none =>
      let (fd, s') := s.openFd p (.mq s.fresh)
      some (fd, { s' with
        fresh := s.fresh + 1
        mqName := some s.fresh
        attr := Function.update s.attr s.fresh mqa
        content := Function.update s.content s.fresh [] })
    | .ok, some _, some _ => some ((-1 : Int), s)
    | .ok, none, some q => some (s.openFd p (.mq q))
    | .ok, none, none => some ((-1 : Int), s)
    | .fail, _, _ => some ((-1 : Int), s)
    | _, _, _ => none
  | .mqUnlink =>
    match o with
    | .ok => some ((if s.mqName.isSome then 0 else -1 : Int), { s with mqName := none })
    | _ => none
  | .mqClose fd =>
    match o, s.lookup p fd with
    | .ok, some (.mq _) => some ((0 : Int), s.closeFd p fd)
    | .ok, _ => some ((-1 : Int), s)
    | _, _ => none
  | .mqSend fd buf prio => s.mqPut p o fd buf prio
  | .mqTimedsend fd buf prio _ => s.mqPut p o fd buf prio
  | .mqReceive fd len => s.mqGet p o fd len
  | .mqTimedreceive fd len _ => s.mqGet p o fd len
  | .clockGettime =>
    match o with
    | .clock now => some (now, s)
    | _ => none

/-! ## What a call can do -/

/-- The ways in which a call of process `p` changes the kernel. -/
inductive Effect (s : Kernel ι) (p : ι) (o : Outcome) : Call → Kernel ι → Prop where
  | none (c) (hc : c ≠ .mqUnlink) : Effect s p o c s
  | unlink (path) :
      Effect s p o (.unlink path) { s with sockName := Function.update s.sockName path none }
  | socket : Effect s p o .socket { (s.openFd p (.sock s.fresh)).2 with
      fresh := s.fresh + 1
      live := Function.update s.live s.fresh true
      sndtimeo := Function.update s.sndtimeo s.fresh ⟨0, 0⟩
      content := Function.update s.content s.fresh [] }
  | bind (fd path i) (hfd : s.lookup p fd = some (.sock i)) (hname : s.sockName path = none) :
      Effect s p o (.bind fd path) { s with sockName := Function.update s.sockName path (some i) }
  | setSndtimeo (fd value i) (hfd : s.lookup p fd = some (.sock i)) :
      Effect s p o (.setSndtimeo fd value)
        { s with sndtimeo := Function.update s.sndtimeo i value }
  | closeSock (fd i) (hfd : s.lookup p fd = some (.sock i)) :
      Effect s p o (.close fd) { s.closeFd p fd with live := Function.update s.live i false }
  | close (fd x) (hfd : s.lookup p fd = some x) : Effect s p o (.close fd) (s.closeFd p fd)
  | sendto (fd buf addr i j) (hfd : s.lookup p fd = some (.sock i))
      (haddr : s.sockName addr = some j) :
      Effect s p o (.sendto fd buf addr) (s.accept p j (s.content j ++ [⟨p, 0, buf⟩]) buf)
  | recvfrom (fd len i e rest) (hfd : s.lookup p fd = some (.sock i))
      (hcontent : s.content i = e :: rest) :
      Effect s p o (.recvfrom fd len) (s.deliver p i e rest len)
  | mqCreate (mqa) (hname : s.mqName = none) :
      Effect s p o (.mqOpen (some mqa)) { (s.openFd p (.mq s.fresh)).2 with
        fresh := s.fresh + 1
        mqName := some s.fresh
        attr := Function.update s.attr s.fresh mqa
        content := Function.update s.content s.fresh [] }
  | mqOpen (q) (hname : s.mqName = some q) :
      Effect s p o (.mqOpen none) (s.openFd p (.mq q)).2
  | mqUnlink : Effect s p o .mqUnlink { s with mqName := none }
  | mqClose (fd q) (hfd : s.lookup p fd = some (.mq q)) :
      Effect s p o (.mqClose fd) (s.closeFd p fd)
  | mqSend (fd buf prio q) (hfd : s.lookup p fd = some (.mq q)) :
      Effect s p o (.mqSend fd buf prio)
        (s.accept p q (enqueue (s.content q) ⟨p, prio, buf⟩) buf)
  | mqTimedsend (fd buf prio deadline q) (hfd : s.lookup p fd = some (.mq q)) :
      Effect s p o (.mqTimedsend fd buf prio deadline)
        (s.accept p q (enqueue (s.content q) ⟨p, prio, buf⟩) buf)
  | mqReceive (fd len q e rest) (ho : o = .ok) (hfd : s.lookup p fd = some (.mq q))
      (hlen : (s.attr q).mq_msgsize ≤ len) (hcontent : s.content q = e :: rest) :
      Effect s p o (.mqReceive fd len) (s.deliver p q e rest len)
  | mqTimedreceive (fd len deadline q e rest) (ho : o = .ok)
      (hfd : s.lookup p fd = some (.mq q)) (hlen : (s.attr q).mq_msgsize ≤ len)
      (hcontent : s.content q = e :: rest) :
      Effect s p o (.mqTimedreceive fd len deadline) (s.deliver p q e rest len)

theorem mqPut_inv {s s' : Kernel ι} {p : ι} {o : Outcome} {fd : Int} {buf : Bytes} {prio : Nat}
    {a : Int} (h : s.mqPut p o fd buf prio = some (a, s')) :
    s' = s ∨ ∃ q, s.lookup p fd = some (.mq q) ∧
      s' = s.accept p q (enqueue (s.content q) ⟨p, prio, buf⟩) buf := by
  unfold mqPut at h
  split at h
  · next q hfd =>
    split at h
    · exact .inl (Prod.mk.inj (Option.some.inj h)).2.symm
    · split at h
      · cases h
      · exact .inr ⟨q, hfd, (Prod.mk.inj (Option.some.inj h)).2.symm⟩
  · exact .inl (Prod.mk.inj (Option.some.inj h)).2.symm
  · exact .inl (Prod.mk.inj (Option.some.inj h)).2.symm
  · cases h

theorem mqGet_inv {s s' : Kernel ι} {p : ι} {o : Outcome} {fd : Int} {len : Nat}
    {a : Int × Bytes} (h : s.mqGet p o fd len = some (a, s')) :
    s' = s ∨ o = .ok ∧ ∃ q e rest, s.lookup p fd = some (.mq q) ∧ (s.attr q).mq_msgsize ≤ len ∧
      s.content q = e :: rest ∧ s' = s.deliver p q e rest len := by
  unfold mqGet at h
  split at h
  · next q hfd =>
    split at h
    · exact .inl (Prod.mk.inj (Option.some.inj h)).2.symm
    · next hlen =>
      split at h
      · cases h
      · next e rest hcontent =>
        exact .inr ⟨rfl, q, e, rest, hfd, Nat.not_lt.mp hlen, hcontent,
          (Prod.mk.inj (Option.some.inj h)).2.symm⟩
  · exact .inl (Prod.mk.inj (Option.some.inj h)).2.symm
  · exact .inl (Prod.mk.inj (Option.some.inj h)).2.symm
  · cases h

/-- Every call that is answered has one of these effects. -/
theorem sys_inv {s s' : Kernel ι} {p : ι} {o : Outcome} {c : Call} {a : c.Ans}
    (h : s.sys p o c = some (a, s')) : Effect s p o c s' := by
  -- the state in the answer, for the branches that are answered
  have answered : ∀ {x : c.Ans × Kernel ι}, some x = some (a, s') → s' = x.2 := fun hx =>
    (congrArg Prod.snd (Option.some.inj hx)).symm
  cases c with
  | unlink path =>
    simp only [sys] at h
    split at h
    · exact answered h ▸ .unlink path
    · cases h
  | socket =>
    simp only [sys] at h
    split at h
    · exact answered h ▸ .socket
    · exact answered h ▸ .none _ nofun
    · cases h
  | bind fd path =>
    simp only [sys] at h
    split at h
    · next i hfd hname => exact answered h ▸ .bind fd path i hfd hname
    · exact answered h ▸ .none _ nofun
    · exact answered h ▸ .none _ nofun
    · cases h
  | setsockopt fd opt value =>
    simp only [sys] at h
    split at h
    · exact answered h ▸ .none _ nofun
    · exact answered h ▸ .none _ nofun
    · cases h
  | getSndtimeo fd =>
    simp only [sys] at h
    split at h
    · exact answered h ▸ .none _ nofun
    · exact answered h ▸ .none _ nofun
    · exact answered h ▸ .none _ nofun
    · cases h
  | setSndtimeo fd value =>
    simp only [sys] at h
    split at h
    · next i hfd => exact answered h ▸ .setSndtimeo fd value i hfd
    · exact answered h ▸ .none _ nofun
    · exact answered h ▸ .none _ nofun
    · cases h
  | close fd =>
    simp only [sys] at h
    split at h
    · next i hfd => exact answered h ▸ .closeSock fd i hfd
    · next o' _ hfd => exact answered h ▸ .close fd o' hfd
    · exact answered h ▸ .none _ nofun
    · cases h
  | sendto fd buf addr =>
    simp only [sys] at h
    split at h
    · next i j hfd haddr =>
      split at h
      · exact answered h ▸ .sendto fd buf addr i j hfd haddr
      · exact answered h ▸ .none _ nofun
    · exact answered h ▸ .none _ nofun
    · exact answered h ▸ .none _ nofun
    · cases h
  | recvfrom fd len =>
    simp only [sys] at h
    split at h
    · next i hfd =>
      split at h
      · cases h
      · next e rest hcontent => exact answered h ▸ .recvfrom fd len i e rest hfd hcontent
    · exact answered h ▸ .none _ nofun
    · exact answered h ▸ .none _ nofun
    · cases h
  | select fd timeout =>
    simp only [sys] at h
    split at h
    · split at h
      · cases h
      · exact answered h ▸ .none _ nofun
    · exact answered h ▸ .none _ nofun
    · exact answered h ▸ .none _ nofun
    · exact answered h ▸ .none _ nofun
    · cases h
  | mqOpen create =>
    simp only [sys] at h
    split at h
    · next mqa hname => exact answered h ▸ .mqCreate mqa hname
    · exact answered h ▸ .none _ nofun
    · next q hname => exact answered h ▸ .mqOpen q hname
    · exact answered h ▸ .none _ nofun
    · exact answered h ▸ .none _ nofun
    · cases h
  | mqUnlink =>
    simp only [sys] at h
    split at h
    · exact answered h ▸ .mqUnlink
    · cases h
  | mqClose fd =>
    simp only [sys] at h
    split at h
    · next q hfd => exact answered h ▸ .mqClose fd q hfd
    · exact answered h ▸ .none _ nofun
    · cases h
  -- the calls with and without a deadline have the same effect
  | mqSend fd buf prio =>
    rcases mqPut_inv h with rfl | ⟨q, hfd, rfl⟩
    · exact .none _ nofun
    · exact .mqSend fd buf prio q hfd
  | mqTimedsend fd buf prio deadline =>
    rcases mqPut_inv h with rfl | ⟨q, hfd, rfl⟩
    · exact .none _ nofun
    · exact .mqTimedsend fd buf prio deadline q hfd
  | mqReceive fd len =>
    rcases mqGet_inv h with rfl | ⟨ho, q, e, rest, hfd, hlen, hcontent, rfl⟩
    · exact .none _ nofun
    · exact .mqReceive fd len q e rest ho hfd hlen hcontent
  | mqTimedreceive fd len deadline =>
    rcases mqGet_inv h with rfl | ⟨ho, q, e, rest, hfd, hlen, hcontent, rfl⟩
    · exact .none _ nofun
    · exact .mqTimedreceive fd len deadline q e rest ho hfd hlen hcontent
  | clockGettime =>
    simp only [sys] at h
    split at h
    · exact answered h ▸ .none _ nofun
    · cases h

end Kernel

end EngineerLinux.Ipc
