import EngineerLinux.Ipc.Model
import EngineerLinux.Lib.Duplex
import Mathlib.Data.List.TakeWhile

/-!
# Where `Write` sends and `Read` receives

Once both roles have opened the transport, a process that reads and writes is an endpoint of a
`Duplex`: it reads from its own box and writes to the box of the other role. On `SOCKET` the boxes
are the two sockets bound to the two names (`ipc.cpp` 32-36, 88-91, 153-156). On `MQUEUE` both are
the one queue of that name (55-57), and nothing but the order of the calls keeps a role from reading
what it wrote.

The programs are looked at once, for which calls they make (`read_only_io`, `write_only_io`); after
that a step is one of those calls, and of a call only its effect on the boxes counts. That messages
keep their order in a queue is because all are sent with one priority (182, 192).

- `Io`: the system calls `Read` and `Write` may make;
- `IoEffect`: what such a call does to the boxes, on either transport;
- `routed_iff`: in every run of `Read` and `Write` calls each role receives a prefix of what the
  other role wrote, on `SOCKET` always, and on `MQUEUE` exactly as long as every read finds a
  message of the other role.
-/

namespace EngineerLinux.Ipc

theorem other_involutive : Function.Involutive RoleType.other := fun r => by cases r <;> rfl

/-! ## The calls of `Read` and `Write` -/

/-- The system calls of role `r` reading and writing through the object `info`: messages of at
most `cap` bytes, buffers of at least `cap` bytes. -/
inductive Io (info : IpcInfo) (cap : Nat) : Call → Prop where
  | sendto (buf) (ht : info.type = .socket) (hlen : buf.length ≤ cap) :
      Io info cap (.sendto info.socket buf (if .server = info.role_type then .client else .server))
  | recvfrom (len) (ht : info.type = .socket) (hlen : cap ≤ len) :
      Io info cap (.recvfrom info.socket len)
  | select (value) : Io info cap (.select info.socket value)
  | getSndtimeo : Io info cap (.getSndtimeo info.socket)
  | setSndtimeo (value) : Io info cap (.setSndtimeo info.socket value)
  | mqSend (buf) (ht : info.type = .mqueue) (hlen : buf.length ≤ cap) :
      Io info cap (.mqSend info.ipc_mq buf 50)
  | mqTimedsend (buf deadline) (ht : info.type = .mqueue) (hlen : buf.length ≤ cap) :
      Io info cap (.mqTimedsend info.ipc_mq buf 50 deadline)
  | mqReceive (len) (ht : info.type = .mqueue) (hlen : cap ≤ len) :
      Io info cap (.mqReceive info.ipc_mq len)
  | mqTimedreceive (len deadline) (ht : info.type = .mqueue) (hlen : cap ≤ len) :
      Io info cap (.mqTimedreceive info.ipc_mq len deadline)
  | clockGettime : Io info cap .clockGettime

theorem read_only_io {info : IpcInfo} {cap len : Nat} (hlen : cap ≤ len) (timeout : Int) :
    (Read info len timeout).Only (Io info cap) := by
  unfold Read
  cases ht : info.type with
  | socket =>
    dsimp only
    split
    · exact ⟨.recvfrom len ht hlen, fun _ => trivial⟩
    · refine ⟨.select _, fun (select_ret : Int) => ?_⟩
      dsimp only
      split
      · trivial
      · split
        · trivial
        · exact ⟨.recvfrom len ht hlen, fun _ => trivial⟩
  | mqueue =>
    dsimp only
    split
    · exact ⟨.mqReceive len ht hlen, fun _ => trivial⟩
    · exact ⟨.clockGettime, fun _ => ⟨.mqTimedreceive len _ ht hlen, fun _ => trivial⟩⟩

theorem write_only_io {info : IpcInfo} {cap : Nat} {buf : Bytes} (hlen : buf.length ≤ cap)
    (timeout : Int) : (Write info buf timeout).Only (Io info cap) := by
  unfold Write
  cases ht : info.type with
  | socket =>
    dsimp only
    split
    · exact ⟨.sendto buf ht hlen, fun _ => trivial⟩
    · refine ⟨.getSndtimeo, fun (got : Int × Timeval) => ?_⟩
      dsimp only
      split
      · exact ⟨.setSndtimeo _, fun _ => ⟨.sendto buf ht hlen, fun _ => trivial⟩⟩
      · exact ⟨.sendto buf ht hlen, fun _ => trivial⟩
  | mqueue =>
    dsimp only
    split
    · exact ⟨.mqSend buf ht hlen, fun _ => trivial⟩
    · exact ⟨.clockGettime, fun _ => ⟨.mqTimedsend buf _ ht hlen, fun _ => trivial⟩⟩

/-- Only `Read` and `Write` are called, with messages and buffers on either side of `cap`. -/
def ReadWrite (cap : Nat) : Act RoleType → Prop
  | .call _ (.read len _) => cap ≤ len
  | .call _ (.write buf _) => buf.length ≤ cap
  | .call _ _ => False
  | .sys _ _ => True

/-- `Read` and `Write` make no other calls, and leave the object as it is. -/
theorem readWrite_prog {cap : Nat} {r : RoleType} {op : Op} (info : IpcInfo)
    (h : ReadWrite cap (.call r op)) :
    (op.prog info).Only (Io info cap) ∧
      (op.prog info).Returns fun res => res.1 = info := by
  cases op with
  | read len timeout =>
    exact ⟨(read_only_io h timeout).map,
      Prog.Returns.map (Prog.returns_of_forall _ fun _ => rfl)⟩
  | write buf timeout =>
    exact ⟨(write_only_io h timeout).map,
      Prog.Returns.map (Prog.returns_of_forall _ fun _ => rfl)⟩
  | _ => exact h.elim

/-! ## Connections -/

/-- Role `r` reads from box `b r`: the socket bound to its own name, or the queue. -/
def Linked (type : IpcType) (info : RoleType → IpcInfo) (b : RoleType → Nat)
    (k : Kernel RoleType) : Prop :=
  match type with
  | .socket => Function.Injective b ∧ ∀ r, (info r).type = .socket ∧ (info r).role_type = r ∧
      k.lookup r (info r).socket = some (.sock (b r)) ∧ k.sockName r.name = some (b r)
  | .mqueue => (∀ r r', b r = b r') ∧ ∀ r, (info r).type = .mqueue ∧
      k.lookup r (info r).ipc_mq = some (.mq (b r))

/-- Both roles have opened the transport, and nothing has been written. -/
structure Opened (type : IpcType) (s : State RoleType) : Prop where
  idle : ∀ r, s.prog r = none
  linked : ∃ b, Linked type s.info b s.kernel ∧ ∀ r, s.kernel.content (b r) = []
  sent : ∀ r, s.kernel.sent r = []
  received : ∀ r, s.kernel.received r = []

/-- The message that a receive from a queue by role `r` takes if it succeeds. -/
def Call.takes (k : Kernel RoleType) (r : RoleType) : Call → Option (Entry RoleType)
  | .mqReceive fd len | .mqTimedreceive fd len _ =>
    match k.lookup r fd with
    | some (.mq q) => if len < (k.attr q).mq_msgsize then none else (k.content q).head?
    | _ => none
  | _ => none

/-- What a call of role `r` does to the boxes: nothing, or it puts a message at the end of the
other role's, or it takes the first message of its own. -/
inductive IoEffect (type : IpcType) (b : RoleType → Nat) (cap : Nat) (k : Kernel RoleType)
    (r : RoleType) (o : Outcome) (c : Call) : Kernel RoleType → Prop where
  | quiet (sndtimeo) : IoEffect type b cap k r o c { k with sndtimeo }
  | write (prio buf) (hprio : type = .mqueue → prio = 50) (hlen : buf.length ≤ cap) :
      IoEffect type b cap k r o c
        (k.accept r (b r.other) (k.content (b r.other) ++ [⟨r, prio, buf⟩]) buf)
  | read (e rest len) (hcontent : k.content (b r) = e :: rest) (hlen : cap ≤ len)
      (htakes : type = .mqueue → o = .ok ∧ c.takes k r = some e) :
      IoEffect type b cap k r o c (k.deliver r (b r) e rest len)

theorem enqueue_of_prio_le {ι : Type} {q : List (Entry ι)} {e : Entry ι}
    (h : ∀ e' ∈ q, e.prio ≤ e'.prio) : enqueue q e = q ++ [e] := by
  have hall : ∀ e' ∈ q, decide (e.prio ≤ e'.prio) = true := fun e' he' => decide_eq_true (h e' he')
  unfold enqueue
  rw [List.takeWhile_eq_self_iff.mpr hall, List.dropWhile_eq_nil_iff.mpr hall]

section

variable {type : IpcType} {info : RoleType → IpcInfo} {b : RoleType → Nat} {cap : Nat}
  {k k' : Kernel RoleType} {r : RoleType} {o : Outcome} {c : Call}

/-- On either transport the object records the type it was opened with. -/
theorem Linked.type_eq (h : Linked type info b k) (r : RoleType) : (info r).type = type := by
  cases type with
  | socket => exact (h.2 r).1
  | mqueue => exact (h.2 r).1

/-- A write to the queue puts the message at the end: all have the same priority. -/
theorem ioEffect_of_mqPut {buf : Bytes} {q : Nat} (hlink : Linked .mqueue info b k)
    (hprio : ∀ r, ∀ e ∈ k.content (b r), e.prio = 50) (hlen : buf.length ≤ cap)
    (hfd : k.lookup r (info r).ipc_mq = some (.mq q)) :
    IoEffect .mqueue b cap k r o c (k.accept r q (enqueue (k.content q) ⟨r, 50, buf⟩) buf) := by
  rw [(hlink.2 r).2] at hfd
  cases hfd
  rw [enqueue_of_prio_le fun e he => (hprio r e he).ge, hlink.1 r r.other]
  exact .write 50 buf (fun _ => rfl) hlen

/-- A read from the queue takes its first message. -/
theorem ioEffect_of_mqGet {q len : Nat} {e : Entry RoleType} {rest : List (Entry RoleType)}
    (hlink : Linked .mqueue info b k) (hlen : cap ≤ len) (ho : o = .ok)
    (hc : c = .mqReceive (info r).ipc_mq len ∨ ∃ d, c = .mqTimedreceive (info r).ipc_mq len d)
    (hfd : k.lookup r (info r).ipc_mq = some (.mq q)) (hsize : (k.attr q).mq_msgsize ≤ len)
    (hcontent : k.content q = e :: rest) :
    IoEffect .mqueue b cap k r o c (k.deliver r q e rest len) := by
  have htakes : c.takes k r = some e := by
    rcases hc with rfl | ⟨d, rfl⟩ <;>
      simp only [Call.takes, hfd, if_neg (Nat.not_lt.mpr hsize), hcontent, List.head?_cons]
  rw [(hlink.2 r).2] at hfd
  cases hfd
  exact .read e rest len hcontent hlen fun _ => ⟨ho, htakes⟩

/-- A call of `Read` or `Write` has one of these effects. -/
theorem ioEffect_of_sys {a : c.Ans} (hlink : Linked type info b k)
    (hprio : type = .mqueue → ∀ r, ∀ e ∈ k.content (b r), e.prio = 50)
    (hio : Io (info r) cap c) (hs : k.sys r o c = some (a, k')) :
    IoEffect type b cap k r o c k' := by
  have heffect := Kernel.sys_inv hs
  cases hio with
  | sendto buf ht hlen =>
    rw [hlink.type_eq r] at ht
    subst ht
    cases heffect with
    | none => exact .quiet k.sndtimeo
    | sendto _ _ _ i j hfd haddr =>
      -- the address written to is the name of the other role's socket
      have hname : (if RoleType.server = (info r).role_type then SockName.client else .server) =
          r.other.name := by
        rw [(hlink.2 r).2.1]
        cases r <;> rfl
      rw [hname, (hlink.2 r.other).2.2.2] at haddr
      cases haddr
      exact .write 0 buf nofun hlen
  | recvfrom len ht hlen =>
    rw [hlink.type_eq r] at ht
    subst ht
    cases heffect with
    | none => exact .quiet k.sndtimeo
    | recvfrom _ _ i e rest hfd hcontent =>
      rw [(hlink.2 r).2.2.1] at hfd
      cases hfd
      exact .read e rest len hcontent hlen nofun
  | setSndtimeo value =>
    cases heffect with
    | none => exact .quiet k.sndtimeo
    | setSndtimeo => exact .quiet _
  | mqSend buf ht hlen =>
    rw [hlink.type_eq r] at ht
    subst ht
    cases heffect with
    | none => exact .quiet k.sndtimeo
    | mqSend _ _ _ q hfd => exact ioEffect_of_mqPut hlink (hprio rfl) hlen hfd
  | mqTimedsend buf deadline ht hlen =>
    rw [hlink.type_eq r] at ht
    subst ht
    cases heffect with
    | none => exact .quiet k.sndtimeo
    | mqTimedsend _ _ _ _ q hfd => exact ioEffect_of_mqPut hlink (hprio rfl) hlen hfd
  | mqReceive len ht hlen =>
    rw [hlink.type_eq r] at ht
    subst ht
    cases heffect with
    | none => exact .quiet k.sndtimeo
    | mqReceive _ _ q e rest ho hfd hsize hcontent =>
      exact ioEffect_of_mqGet hlink hlen ho (.inl rfl) hfd hsize hcontent
  | mqTimedreceive len deadline ht hlen =>
    rw [hlink.type_eq r] at ht
    subst ht
    cases heffect with
    | none => exact .quiet k.sndtimeo
    | mqTimedreceive _ _ _ q e rest ho hfd hsize hcontent =>
      exact ioEffect_of_mqGet hlink hlen ho (.inr ⟨deadline, rfl⟩) hfd hsize hcontent
  | select | getSndtimeo | clockGettime =>
    cases heffect with
    | none => exact .quiet k.sndtimeo

end

/-! ## The two roles as endpoints -/

/-- The boxes and the histories, as a `Duplex`. -/
def view (k : Kernel RoleType) : Duplex RoleType Nat Bytes where
  content b := (k.content b).map fun e => (e.writer, e.msg)
  sent := k.sent
  received := k.received

/-- Each role has received a prefix of what the other role wrote: nothing of its own, nothing
lost, duplicated or out of order. -/
def Routed (s : State RoleType) : Prop :=
  ∀ r : RoleType, s.kernel.received r <+: (s.kernel.sent r.other).map fun m => (r.other, m)

/-- A receive from the queue takes a message of the other role. -/
def ReadsOther (s : State RoleType) : Act RoleType → Prop
  | .sys r .ok => ∀ c k e, s.prog r = some (.call c k) → Call.takes s.kernel r c = some e →
      e.writer = r.other
  | _ => True

theorem view_accept (k : Kernel RoleType) (b : RoleType → Nat) (r : RoleType) (prio : Nat)
    (buf : Bytes) :
    view (k.accept r (b r.other) (k.content (b r.other) ++ [⟨r, prio, buf⟩]) buf) =
      (view k).send RoleType.other b r buf := by
  unfold view Duplex.send Kernel.accept
  congr 1
  funext n
  by_cases hn : n = b r.other
  · subst hn
    simp
  · simp [Function.update_of_ne hn]

theorem view_deliver (k : Kernel RoleType) (b : RoleType → Nat) (r : RoleType)
    (e : Entry RoleType) (rest : List (Entry RoleType)) {len : Nat} (hlen : e.msg.length ≤ len) :
    view (k.deliver r (b r) e rest len) =
      (view k).take b r (e.writer, e.msg) (rest.map fun e => (e.writer, e.msg)) := by
  unfold view Duplex.take Kernel.deliver
  rw [List.take_of_length_le hlen]
  congr 1
  funext n
  by_cases hn : n = b r
  · subst hn
    simp
  · simp [Function.update_of_ne hn]

/-- What holds of the boxes while the two roles read and write. -/
structure BoxInv (type : IpcType) (info : RoleType → IpcInfo) (b : RoleType → Nat) (cap : Nat)
    (k : Kernel RoleType) : Prop where
  linked : Linked type info b k
  prio : type = .mqueue → ∀ r, ∀ e ∈ k.content (b r), e.prio = 50
  small : ∀ r, ∀ e ∈ k.content (b r), e.msg.length ≤ cap
  inv : (view k).Inv RoleType.other b
  fromPeer : type = .socket → Duplex.FromPeer RoleType.other b (view k)

section

variable {type : IpcType} {info : RoleType → IpcInfo} {b : RoleType → Nat} {cap : Nat}
  {k k' : Kernel RoleType} {r : RoleType} {o : Outcome} {c : Call}

/-- A property of all entries of the boxes survives a change of one box. -/
theorem forall_mem_update {P : Entry RoleType → Prop} {content : Nat → List (Entry RoleType)}
    (h : ∀ r, ∀ e ∈ content (b r), P e) {n : Nat} {q : List (Entry RoleType)}
    (hq : ∀ e ∈ q, P e) : ∀ r, ∀ e ∈ Function.update content n q (b r), P e := by
  intro r e he
  by_cases hn : b r = n
  · rw [hn, Function.update_self] at he
    exact hq e he
  · rw [Function.update_of_ne hn] at he
    exact h r e he

/-- The message a read takes is one of the other role: on `SOCKET` there is no other in the box. -/
theorem BoxInv.writer_eq (h : BoxInv type info b cap k) {e : Entry RoleType}
    {rest : List (Entry RoleType)} (hcontent : k.content (b r) = e :: rest)
    (htakes : type = .mqueue → o = .ok ∧ c.takes k r = some e)
    (hG : type = .mqueue → o = .ok → ∀ e, c.takes k r = some e → e.writer = r.other) :
    e.writer = r.other := by
  cases type with
  | socket =>
    refine h.fromPeer rfl r (e.writer, e.msg) ?_
    show _ ∈ (k.content (b r)).map _
    rw [hcontent]
    exact List.mem_cons_self ..
  | mqueue =>
    obtain ⟨ho, he⟩ := htakes rfl
    exact hG rfl ho e he

/-- Every effect of a call keeps the invariant of the boxes, provided that a receive from the
queue takes a message of the other role. -/
theorem BoxInv.effect (h : BoxInv type info b cap k) (heffect : IoEffect type b cap k r o c k')
    (hG : type = .mqueue → o = .ok → ∀ e, c.takes k r = some e → e.writer = r.other) :
    BoxInv type info b cap k' := by
  have hlinked : ∀ {k' : Kernel RoleType}, k'.fds = k.fds → k'.sockName = k.sockName →
      Linked type info b k' := by
    intro k' hfds hname
    have hlink := h.linked
    unfold Linked Kernel.lookup at hlink ⊢
    rw [hfds, hname]
    exact hlink
  cases heffect with
  | quiet sndtimeo => exact ⟨hlinked rfl rfl, h.prio, h.small, h.inv, h.fromPeer⟩
  | write prio buf hprio hlen =>
    refine ⟨hlinked rfl rfl, fun ht => ?_, ?_, ?_, fun ht => ?_⟩
    · refine forall_mem_update (P := fun e => e.prio = 50) (h.prio ht) fun e he => ?_
      rcases List.mem_append.mp he with he | he
      · exact h.prio ht _ e he
      · rw [List.mem_singleton.mp he]
        exact hprio ht
    · refine forall_mem_update (P := fun e => e.msg.length ≤ cap) h.small fun e he => ?_
      rcases List.mem_append.mp he with he | he
      · exact h.small _ e he
      · rw [List.mem_singleton.mp he]
        exact hlen
    -- the write is a `send` of the two endpoints
    · rw [view_accept]
      exact h.inv.send other_involutive buf
    · rw [view_accept]
      have hlink := h.linked
      subst ht
      exact (h.fromPeer rfl).send hlink.1 other_involutive buf
  | read e rest len hcontent hlen htakes =>
    have hmem : e ∈ k.content (b r) := hcontent ▸ List.mem_cons_self ..
    have hrest : ∀ e' ∈ rest, e' ∈ k.content (b r) := fun e' he' =>
      hcontent ▸ List.mem_cons_of_mem _ he'
    have hview := view_deliver k b r e rest ((h.small r e hmem).trans hlen)
    have hbox : (view k).content (b r) =
        (e.writer, e.msg) :: rest.map fun e => (e.writer, e.msg) := by
      show (k.content (b r)).map _ = _
      rw [hcontent]
      rfl
    refine ⟨hlinked rfl rfl, fun ht => ?_, ?_, ?_, fun ht => ?_⟩
    · exact forall_mem_update (P := fun e => e.prio = 50) (h.prio ht) fun e' he' =>
        h.prio ht r e' (hrest e' he')
    · exact forall_mem_update (P := fun e => e.msg.length ≤ cap) h.small fun e' he' =>
        h.small r e' (hrest e' he')
    -- and the read a `take`, of a message that is the other role's
    · rw [hview]
      exact h.inv.take other_involutive hbox (h.writer_eq hcontent htakes hG)
    · rw [hview]
      exact (h.fromPeer ht).take hbox

end

/-! ## Runs -/

/-- The invariant of a run: the objects stay as they are, the boxes keep their invariant, and the
processes are in calls of `Read` and `Write`. -/
structure LinkInv (type : IpcType) (info : RoleType → IpcInfo) (b : RoleType → Nat) (cap : Nat)
    (s : State RoleType) : Prop where
  info_eq : s.info = info
  boxes : BoxInv type info b cap s.kernel
  progs : ∀ r rest, s.prog r = some rest →
    rest.Only (Io (info r) cap) ∧ rest.Returns fun res => res.1 = info r

section

variable {type : IpcType} {info : RoleType → IpcInfo} {b : RoleType → Nat} {cap : Nat}
  {s s' : State RoleType} {r : RoleType}

theorem LinkInv.routed (h : LinkInv type info b cap s) : Routed s := h.boxes.inv.routed

/-- A process goes on in a call of `Read` or `Write`, or returns from it. -/
theorem LinkInv.goOn (h : LinkInv type info b cap s) {kernel : Kernel RoleType}
    (hboxes : BoxInv type info b cap kernel) {rest : Prog Posix (IpcInfo × Result)}
    (honly : rest.Only (Io (info r) cap)) (hreturns : rest.Returns fun res => res.1 = info r) :
    LinkInv type info b cap (State.goOn { s with kernel } r rest) := by
  cases rest with
  | ret res =>
    refine ⟨?_, hboxes, fun r' rest' hrest' => ?_⟩
    · show Function.update s.info r res.1 = info
      rw [show res.1 = info r from hreturns, ← h.info_eq]
      exact Function.update_eq_self ..
    · replace hrest' : Function.update s.prog r none r' = some rest' := hrest'
      by_cases hr : r' = r
      · rw [hr, Function.update_self] at hrest'
        cases hrest'
      · rw [Function.update_of_ne hr] at hrest'
        exact h.progs r' rest' hrest'
  | call c k =>
    refine ⟨h.info_eq, hboxes, fun r' rest' hrest' => ?_⟩
    replace hrest' : Function.update s.prog r (some (.call c k)) r' = some rest' := hrest'
    by_cases hr : r' = r
    · rw [hr, Function.update_self] at hrest'
      cases hrest'
      rw [hr]
      exact ⟨honly, hreturns⟩
    · rw [Function.update_of_ne hr] at hrest'
      exact h.progs r' rest' hrest'

/-- **Step lemma**: a step of a `Read` or a `Write` keeps the invariant, provided that a receive
from the queue takes a message of the other role. -/
theorem LinkInv.step {a : Act RoleType} (h : LinkInv type info b cap s) (hrw : ReadWrite cap a)
    (hG : type = .mqueue → ReadsOther s a) (hs : step s a = some s') :
    LinkInv type info b cap s' := by
  cases a with
  | call r op =>
    cases hp : s.prog r with
    | some rest => simp only [Ipc.step, hp, reduceCtorEq] at hs
    | none =>
      simp only [Ipc.step, hp, Option.some.injEq] at hs
      have hprog := readWrite_prog (r := r) (s.info r) hrw
      rw [h.info_eq] at hprog
      subst hs
      cases op with
      | close => exact hrw.elim
      | _ =>
        rw [h.info_eq]
        exact h.goOn h.boxes hprog.1 hprog.2
  | sys r o =>
    cases hp : s.prog r with
    | none => simp only [Ipc.step, hp, reduceCtorEq] at hs
    | some rest =>
      cases rest with
      | ret res => simp only [Ipc.step, hp, reduceCtorEq] at hs
      | call c k =>
        simp only [Ipc.step, hp] at hs
        obtain ⟨⟨x, kernel⟩, hsys, rfl⟩ := Option.map_eq_some_iff.mp hs
        obtain ⟨honly, hreturns⟩ := h.progs r _ hp
        have heffect := ioEffect_of_sys h.boxes.linked h.boxes.prio honly.1 hsys
        refine h.goOn (h.boxes.effect heffect ?_) (honly.2 x) (hreturns x)
        rintro ht rfl e he
        exact hG ht c k e hp he

/-- A receive that takes a message delivers it. -/
theorem deliver_of_takes {k k' : Kernel RoleType} {c : Call} {a : c.Ans} {e : Entry RoleType}
    (htakes : c.takes k r = some e) (hs : k.sys r .ok c = some (a, k')) :
    ∃ m, (e.writer, m) ∈ k'.received r := by
  have hget : ∀ {fd : Int} {len : Nat} {a : Int × Bytes},
      (match k.lookup r fd with
        | some (.mq q) => if len < (k.attr q).mq_msgsize then none else (k.content q).head?
        | _ => none) = some e →
      k.mqGet r .ok fd len = some (a, k') → ∃ m, (e.writer, m) ∈ k'.received r := by
    intro fd len a hhead hmq
    split at hhead
    · next q hfd =>
      split at hhead
      · cases hhead
      · next hlen =>
        obtain ⟨rest, hcontent⟩ := List.head?_eq_some_iff.mp hhead
        simp only [Kernel.mqGet, hfd, if_neg hlen, hcontent, Option.some.injEq,
          Prod.mk.injEq] at hmq
        obtain ⟨-, rfl⟩ := hmq
        refine ⟨e.msg.take len, ?_⟩
        show _ ∈ Function.update k.received r (k.received r ++ [(e.writer, e.msg.take len)]) r
        rw [Function.update_self]
        exact List.mem_append_right _ (List.mem_singleton_self _)
    · cases hhead
  cases c with
  | mqReceive fd len => exact hget htakes hs
  | mqTimedreceive fd len deadline => exact hget htakes hs
  | _ => cases htakes

/-- A receive that takes a message of the same role brings it back to its writer. -/
theorem not_routed_of_takes {a : Act RoleType} (hG : ¬ ReadsOther s a)
    (hs : step s a = some s') : ¬ Routed s' := by
  unfold ReadsOther at hG
  split at hG
  · next r =>
    simp only [not_forall] at hG
    obtain ⟨c, k, e, hp, htakes, hne⟩ := hG
    simp only [Ipc.step, hp] at hs
    obtain ⟨⟨x, kernel⟩, hsys, rfl⟩ := Option.map_eq_some_iff.mp hs
    obtain ⟨m, hm⟩ := deliver_of_takes htakes hsys
    have hkernel : (State.goOn { s with kernel } r (k x)).kernel = kernel := by
      cases k x <;> rfl
    intro hrouted
    unfold Routed at hrouted
    rw [hkernel] at hrouted
    exact Duplex.not_routed_of_mem (d := view kernel) hm hne hrouted
  · exact absurd trivial hG

/-- Two roles that have just opened the transport. -/
theorem linkInv_of_opened (hs : Opened type s) (cap : Nat) :
    ∃ b, LinkInv type s.info b cap s := by
  obtain ⟨hidle, ⟨b, hlink, hempty⟩, hsent, hreceived⟩ := hs
  have hnone : ∀ {P : Entry RoleType → Prop} r, ∀ e ∈ s.kernel.content (b r), P e := by
    intro P r e he
    rw [hempty r] at he
    cases he
  refine ⟨b, rfl, ⟨hlink, fun _ => hnone, hnone, fun r => ?_, fun _ r e he => ?_⟩, ?_⟩
  · show s.kernel.received r ++ List.filter _ ((s.kernel.content (b r)).map _) =
      (s.kernel.sent r.other).map _
    rw [hreceived, hempty, hsent]
    rfl
  · replace he : e ∈ (s.kernel.content (b r)).map _ := he
    rw [hempty] at he
    cases he
  · intro r rest hrest
    rw [hidle r] at hrest
    cases hrest

end

/-- **Messages travel only to the other role**: in every run of `Read` and `Write` calls by the
two roles, with buffers large enough for every message, each role receives a prefix of what the
other role wrote, on `SOCKET` always, and on `MQUEUE` if and only if every receive takes a message
that the other role wrote. -/
theorem routed_iff (type : IpcType) (cap : Nat) (s t : State RoleType) (as : List (Act RoleType))
    (hs : Opened type s) (he : (machine RoleType).exec s as = some t)
    (hrw : ∀ a ∈ as, ReadWrite cap a) :
    (machine RoleType).AllStates Routed s as ↔
      type = .socket ∨ (machine RoleType).AllSteps ReadsOther s as := by
  obtain ⟨b, hinv⟩ := linkInv_of_opened hs cap
  have hlabels : (machine RoleType).AllSteps (fun _ a => ReadWrite cap a) s as :=
    Machine.allSteps_of_labels hrw
  constructor
  · intro hrouted
    cases type with
    | socket => exact .inl rfl
    | mqueue =>
      refine .inr (Machine.allSteps_of_allStates (fun u a v hu ha hG hv => ?_)
        (fun u a v _ _ _ hG hv => not_routed_of_takes hG hv) hinv hlabels hrouted he)
      exact LinkInv.step hu ha (fun _ => hG) hv
  · intro hG
    have hG' : type = .mqueue → (machine RoleType).AllSteps ReadsOther s as := by
      rintro rfl
      exact hG.resolve_left nofun
    have hboth : (machine RoleType).AllSteps
        (fun u a => ReadWrite cap a ∧ (type = .mqueue → ReadsOther u a)) s as := by
      cases type with
      | socket => exact hlabels.mono fun u a ha => ⟨ha, nofun⟩
      | mqueue => exact (hlabels.and (hG' rfl)).mono fun u a ha => ⟨ha.1, fun _ => ha.2⟩
    exact (Machine.allStates_of_inductive (P := LinkInv type s.info b cap)
      (fun u a v hu ha hv => hu.step ha.1 ha.2 hv) hinv hboth).mono fun u hu => hu.routed

/-- Both roles open the transport, the server first. -/
def openBoth (type : IpcType) : List (Act RoleType) :=
  match type with
  | .socket =>
    .call .server (.open .socket .server) :: List.replicate 5 (.sys .server .ok) ++
      .call .client (.open .socket .client) :: List.replicate 5 (.sys .client .ok)
  | .mqueue =>
    [.call .server (.open .mqueue .server), .sys .server .ok,
      .call .client (.open .mqueue .client), .sys .client .ok]

/-- What the two calls of `Open` lead to. -/
def opened (type : IpcType) : State RoleType :=
  ((machine RoleType).exec (.initial RoleType) (openBoth type)).get (by cases type <;> rfl)

/-- After the two calls of `Open` both roles have opened the transport. -/
theorem opened_opened (type : IpcType) : Opened type (opened type) := by
  cases type with
  | socket =>
    refine ⟨fun r => by cases r <;> rfl, ⟨fun r => if r = .server then 0 else 1, ⟨?_, ?_⟩, ?_⟩,
      fun r => by cases r <;> rfl, fun r => by cases r <;> rfl⟩
    · intro r r' h
      cases r <;> cases r' <;> first | rfl | cases h
    · intro r
      cases r <;> exact ⟨rfl, rfl, rfl, rfl⟩
    · intro r
      cases r <;> rfl
  | mqueue =>
    refine ⟨fun r => by cases r <;> rfl, ⟨fun _ => 0, ⟨fun _ _ => rfl, ?_⟩, fun _ => rfl⟩,
      fun r => by cases r <;> rfl, fun r => by cases r <;> rfl⟩
    intro r
    cases r <;> exact ⟨rfl, rfl⟩

/-- The server writes a message and the client reads it. -/
def serverToClient : List (Act RoleType) :=
  [.call .server (.write [104, 105] 0), .sys .server .ok, .call .client (.read 16 0),
    .sys .client .ok]

theorem routed_iff_serverToClient :
    (machine RoleType).AllStates Routed (opened .mqueue) serverToClient := by
  refine (routed_iff .mqueue 16 (opened .mqueue)
    (((machine RoleType).exec (opened .mqueue) serverToClient).get rfl) serverToClient
    (opened_opened .mqueue) (Option.some_get _).symm (by simp [serverToClient, ReadWrite])).mpr
    (.inr ⟨trivial, fun t ht => ⟨?_, fun u hu => ⟨trivial, fun v hv => ⟨?_, fun _ _ => trivial⟩⟩⟩⟩)
  · obtain rfl := Option.some.inj ht
    intro c k e hprog htakes
    cases hprog
    cases htakes
  · -- the message in the queue is the server's
    obtain rfl := Option.some.inj ht
    obtain rfl := Option.some.inj hu
    obtain rfl := Option.some.inj hv
    intro c k e hprog htakes
    cases hprog
    cases htakes
    rfl

/-- The server writes a message and reads. -/
def serverToItself : List (Act RoleType) :=
  [.call .server (.write [104, 105] 0), .sys .server .ok, .call .server (.read 16 0),
    .sys .server .ok]

/-- **On the queue a role reads its own message**: what the server wrote comes back to it, while
the client has written nothing. -/
theorem server_reads_itself :
    ∃ t, (machine RoleType).exec (opened .mqueue) serverToItself = some t ∧
      Opened .mqueue (opened .mqueue) ∧ (∀ a ∈ serverToItself, ReadWrite 16 a) ∧ ¬ Routed t := by
  refine ⟨((machine RoleType).exec (opened .mqueue) serverToItself).get rfl,
    (Option.some_get _).symm, opened_opened .mqueue, by simp [serverToItself, ReadWrite],
    fun hrouted => ?_⟩
  have hpre := hrouted .server
  exact absurd hpre.length_le (by decide)

end EngineerLinux.Ipc
