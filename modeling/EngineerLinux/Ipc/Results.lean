import EngineerLinux.Ipc.Timeouts

/-!
# What `Ipc::Read` and `Ipc::Write` return

The calls behind them have different conventions, and the two functions translate some of them
only. Two results, for every answer the kernel may give:

- `write_reports_iff`: `Write` tells success from failure unless a socket accepted the message: the
  branch of the socket (lines 148-178) never sets `ret_type`;
- `read_reports_iff`: `Read` returns what it delivered unless the call that receives fails, whose
  `-1` becomes the largest `size_t` (93, 110, 117, 127).

In both the proof goes through the four ways a message can be sent or received (with or without a
timeout, on either transport), each a program of a few calls.
-/

namespace EngineerLinux.Ipc

/-! ## `Write` -/

/-- The call took the whole message: the byte count of `sendto`, zero of the queue's calls. -/
def Call.accepts : (c : Call) → c.Ans → Bool
  | .sendto _ buf _, (ret : Int) => decide (ret = buf.length)
  | .mqSend _ _ _, (ret : Int) => decide (ret = 0)
  | .mqTimedsend _ _ _ _, (ret : Int) => decide (ret = 0)
  | _, _ => false

/-- A kernel that remembers whether a message was accepted. -/
def accepting (answers : Answers) (c : Call) (accepted : Bool) : c.Ans × Bool :=
  (answers c, accepted || c.accepts (answers c))

/-- What `sendto` returns. -/
def sendtoRet (answers : Answers) (fd : Int) (buf : Bytes) (addr : SockName) : Int :=
  answers (.sendto fd buf addr)

/-- The result of a `Write`, and whether the kernel accepted the message. -/
def written (answers : Answers) (info : IpcInfo) (buf : Bytes) (timeout : Int) : RetType × Bool :=
  (Write info buf timeout).run (accepting answers) false

/-- What the kernel of all processes does with a message it accepts: the message is counted as
sent by the process, and no other message is. -/
theorem Kernel.sys_accepts {ι : Type} [DecidableEq ι] {s s' : Kernel ι} {p : ι} {o : Outcome}
    {fd : Int} {buf : Bytes} {addr : SockName} {ret : Int} (hbuf : 0 < buf.length)
    (h : s.sys p o (.sendto fd buf addr) = some (ret, s')) :
    Call.accepts (.sendto fd buf addr) ret = true ↔ s'.sent p = s.sent p ++ [buf] := by
  have hsent : ∀ {x y : Kernel ι}, x = y → x.sent p = y.sent p := fun h => by rw [h]
  have hrefused : (Call.accepts (.sendto fd buf addr) (-1 : Int) = true) ↔
      s.sent p = s.sent p ++ [buf] := by
    refine ⟨fun h => ?_, fun h => ?_⟩
    · have hret : (-1 : Int) = buf.length := of_decide_eq_true h
      omega
    · exact absurd (congrArg List.length h) (by simp)
  simp only [sys] at h
  split at h
  · next i _ =>
    split at h
    · cases h
      refine ⟨fun _ => ?_, fun _ => decide_eq_true rfl⟩
      exact Function.update_self ..
    · cases h
      exact hrefused
  · cases h
    exact hrefused
  · cases h
    exact hrefused
  · cases h

/-- On a socket the result is always `FAIL`, and one `sendto` is what may have been accepted. -/
theorem written_socket {info : IpcInfo} (hinfo : info.type = .socket) (answers : Answers)
    (buf : Bytes) (timeout : Int) :
    written answers info buf timeout =
      (.fail, decide (sendtoRet answers info.socket buf info.role_type.other.name =
        buf.length)) := by
  have haddr : (if RoleType.server = info.role_type then SockName.client else SockName.server) =
      info.role_type.other.name := by
    cases info.role_type <;> rfl
  unfold written Write
  rw [hinfo]
  dsimp only
  rw [haddr]
  split
  · rfl
  · show Prog.run _ (if (answers (.getSndtimeo info.socket)).1 ≠ 0 ∨
      (answers (.getSndtimeo info.socket)).2.tv_sec ≠ timeout.tdiv 1000 ∨
      (answers (.getSndtimeo info.socket)).2.tv_usec ≠ timeout.tmod 1000 * 1000 then _ else _)
      false = _
    split
    · rfl
    · rfl

/-- On a queue the result says what the one call that sends answered. -/
theorem written_mqueue {info : IpcInfo} (hinfo : info.type = .mqueue) (answers : Answers)
    (buf : Bytes) (timeout : Int) :
    (written answers info buf timeout).1 =
      if (written answers info buf timeout).2 then .success else .fail := by
  have hret : ∀ ret : Int, (if 0 = ret then RetType.success else .fail) =
      if decide (ret = 0) = true then .success else .fail := by
    intro ret
    by_cases hzero : ret = 0
    · rw [hzero]
      rfl
    · rw [if_neg (Ne.symm hzero), decide_eq_false hzero]
      rfl
  unfold written Write
  rw [hinfo]
  dsimp only
  split
  · exact hret _
  · exact hret _

/-- `Write` returns `SUCCESS` if the kernel accepted the whole message and `FAIL` if not, if and
only if it writes to a queue or the socket did not accept the message. -/
theorem write_reports_iff (info : IpcInfo) (buf : Bytes) (timeout : Int) (answers : Answers) :
    ((written answers info buf timeout).1 =
        if (written answers info buf timeout).2 then .success else .fail) ↔
      info.type = .mqueue ∨
        sendtoRet answers info.socket buf info.role_type.other.name ≠ buf.length := by
  cases hinfo : info.type with
  | mqueue =>
    exact ⟨fun _ => .inl rfl, fun _ => written_mqueue hinfo ..⟩
  | socket =>
    rw [written_socket hinfo]
    by_cases haccepted : sendtoRet answers info.socket buf info.role_type.other.name = buf.length
    · rw [decide_eq_true haccepted]
      constructor
      · intro h
        cases h
      · rintro (h | h)
        · cases h
        · exact absurd haccepted h
    · rw [decide_eq_false haccepted]
      exact ⟨fun _ => .inr haccepted, fun _ => rfl⟩

/-- A socket that accepts a message of one byte. -/
theorem write_not_reported :
    ¬ ((written (returning 1) ⟨.socket, 3, .client⟩ [7] 0).1 =
      if (written (returning 1) ⟨.socket, 3, .client⟩ [7] 0).2 then .success else .fail) := by
  decide

/-! ## `Read` -/

/-- How a call that receives ends. -/
inductive Receipt where
  | message (msg : Bytes)
  | timeout
  | error
  deriving DecidableEq

/-- How `select` ends. -/
inductive Wait where
  | ready
  | timeout
  | error
  deriving DecidableEq

/-- What is received into `len` bytes: a socket cuts the message, and a queue does not deliver a
message that does not fit. -/
def Receipt.delivered (type : IpcType) (len : Nat) : Receipt → Option Bytes
  | .message msg =>
    match type with
    | .socket => some (msg.take len)
    | .mqueue => if msg.length ≤ len then some msg else none
  | .timeout | .error => none

/-- The answer to a call that receives, by what it delivers. -/
def answered : Option Bytes → Int × Bytes
  | some msg => (msg.length, msg)
  | none => (-1, [])

/-- What `select` returns. -/
def Wait.ret : Wait → Int
  | .ready => 1
  | .timeout => 0
  | .error => -1

/-- A kernel that ends the calls of a `Read` in this way, and remembers what was delivered. -/
def receiving (answers : Answers) (wait : Wait) (receipt : Receipt) :
    (c : Call) → Option Bytes → c.Ans × Option Bytes
  | .select _ _, s => (wait.ret, s)
  | .recvfrom _ len, _ =>
    (answered (receipt.delivered .socket len), receipt.delivered .socket len)
  | .mqReceive _ len, _ =>
    (answered (receipt.delivered .mqueue len), receipt.delivered .mqueue len)
  | .mqTimedreceive _ len _, _ =>
    (answered (receipt.delivered .mqueue len), receipt.delivered .mqueue len)
  | c, s => (answers c, s)

/-- The kernel of all processes answers `recvfrom` in this way. -/
theorem Kernel.sys_recvfrom_answered {ι : Type} [DecidableEq ι] {s s' : Kernel ι} {p : ι}
    {o : Outcome} {fd : Int} {len : Nat} {a : Int × Bytes}
    (h : s.sys p o (.recvfrom fd len) = some (a, s')) :
    ∃ receipt : Receipt, a = answered (receipt.delivered .socket len) := by
  simp only [sys] at h
  split at h
  · split at h
    · cases h
    · next e rest _ =>
      cases h
      exact ⟨.message e.msg, rfl⟩
  · cases h
    exact ⟨.error, rfl⟩
  · cases h
    exact ⟨.error, rfl⟩
  · cases h

/-- The kernel of all processes answers `mq_receive` and `mq_timedreceive` in this way. -/
theorem Kernel.mqGet_answered {ι : Type} [DecidableEq ι] {s s' : Kernel ι} {p : ι} {o : Outcome}
    {fd : Int} {len : Nat} {a : Int × Bytes} (h : s.mqGet p o fd len = some (a, s')) :
    ∃ receipt : Receipt, a = answered (receipt.delivered .mqueue len) := by
  unfold mqGet at h
  split at h
  · split at h
    · cases h
      exact ⟨.error, rfl⟩
    · split at h
      · cases h
      · next e rest _ =>
        cases h
        refine ⟨.message (e.msg.take len), ?_⟩
        have hfits : (e.msg.take len).length ≤ len := List.length_take_le ..
        show _ = answered (if (e.msg.take len).length ≤ len then some (e.msg.take len) else none)
        rw [if_pos hfits]
        rfl
  · cases h
    exact ⟨.error, rfl⟩
  · cases h
    exact ⟨.error, rfl⟩
  · cases h

/-- The result of a `Read` with the bytes it stored, and what was delivered. -/
def readFrom (answers : Answers) (wait : Wait) (receipt : Receipt) (info : IpcInfo) (len : Nat)
    (timeout : Int) : (Nat × Bytes) × Option Bytes :=
  (Read info len timeout).run (receiving answers wait receipt) none

/-- `Read` returned the length of what was delivered, stored that, and it is no longer than the
buffer; and it returned 0 if nothing was delivered. -/
structure Reported (len : Nat) (r : (Nat × Bytes) × Option Bytes) : Prop where
  bound : r.1.1 ≤ len
  stored : ∀ msg, r.2 = some msg → r.1 = (msg.length, msg)
  nothing : r.2 = none → r.1.1 = 0

/-- `Read` gets as far as the call that receives. -/
def Receives (info : IpcInfo) (timeout : Int) (wait : Wait) : Prop :=
  info.type = .mqueue ∨ timeout ≤ 0 ∨ wait = .ready

theorem delivered_length {receipt : Receipt} {type : IpcType} {len : Nat} {msg : Bytes}
    (h : receipt.delivered type len = some msg) : msg.length ≤ len := by
  cases receipt with
  | message m =>
    cases type with
    | socket =>
      rw [← Option.some.inj h]
      exact List.length_take_le ..
    | mqueue =>
      unfold Receipt.delivered at h
      dsimp only at h
      split at h
      · next hfits =>
        rw [← Option.some.inj h]
        exact hfits
      · cases h
  | timeout => cases h
  | error => cases h

/-- The conversion of the result to `size_t` is right if and only if something was delivered. -/
theorem reported_iff (receipt : Receipt) (type : IpcType) (len : UInt32) :
    Reported len.toNat
        ((toSizeT (answered (receipt.delivered type len.toNat)).1,
          (answered (receipt.delivered type len.toNat)).2),
        receipt.delivered type len.toNat) ↔
      receipt.delivered type len.toNat ≠ none := by
  have hlen : len.toNat < 4294967296 := len.toNat_lt
  cases hdelivered : receipt.delivered type len.toNat with
  | none =>
    refine ⟨fun h => ?_, fun h => absurd rfl h⟩
    have hzero : toSizeT (-1) = 0 := h.nothing rfl
    exact absurd hzero (by decide)
  | some msg =>
    refine ⟨fun _ => nofun, fun _ => ?_⟩
    have hmsg := delivered_length hdelivered
    have hsize : toSizeT (msg.length : Int) = msg.length := by
      unfold toSizeT
      omega
    refine ⟨?_, ?_, nofun⟩
    · show toSizeT (msg.length : Int) ≤ _
      omega
    · rintro _ ⟨⟩
      exact Prod.ext hsize rfl

/-- `Read` reports what it delivered, and 0 if nothing was received, if and only if the call that
receives, if it comes to that, succeeds. -/
theorem read_reports_iff (info : IpcInfo) (len : UInt32) (timeout : Int) (answers : Answers)
    (wait : Wait) (receipt : Receipt) :
    Reported len.toNat (readFrom answers wait receipt info len.toNat timeout) ↔
      (Receives info timeout wait → receipt.delivered info.type len.toNat ≠ none) := by
  unfold readFrom Read Receives
  cases hinfo : info.type with
  | socket =>
    by_cases hwait : timeout ≤ 0
    · simp only [if_pos hwait]
      exact (reported_iff receipt .socket len).trans ⟨fun h _ => h, fun h => h (.inr (.inl hwait))⟩
    · simp only [if_neg hwait]
      cases wait with
      | ready =>
        exact (reported_iff receipt .socket len).trans ⟨fun h _ => h, fun h => h (.inr (.inr rfl))⟩
      | timeout =>
        refine ⟨fun _ h => ?_, fun _ => ⟨Nat.zero_le _, nofun, fun _ => rfl⟩⟩
        rcases h with h | h | h
        · cases h
        · exact absurd h hwait
        · cases h
      | error =>
        refine ⟨fun _ h => ?_, fun _ => ⟨Nat.zero_le _, nofun, fun _ => rfl⟩⟩
        rcases h with h | h | h
        · cases h
        · exact absurd h hwait
        · cases h
  | mqueue =>
    by_cases hwait : timeout ≤ 0
    · simp only [if_pos hwait]
      exact (reported_iff receipt .mqueue len).trans ⟨fun h _ => h, fun h => h (.inl trivial)⟩
    · simp only [if_neg hwait]
      exact (reported_iff receipt .mqueue len).trans ⟨fun h _ => h, fun h => h (.inl trivial)⟩

/-- A queue that stays empty for a second: `Read` returns 2^64 - 1. -/
theorem read_not_reported :
    (readFrom (returning 0) .ready .timeout ⟨.mqueue, 3, .server⟩ 16 1000).1.1 =
        18446744073709551615 ∧
      ¬ Reported 16 (readFrom (returning 0) .ready .timeout ⟨.mqueue, 3, .server⟩ 16 1000) := by
  have hrun : (readFrom (returning 0) .ready .timeout ⟨.mqueue, 3, .server⟩ 16 1000).1.1 =
      18446744073709551615 := rfl
  refine ⟨hrun, fun h => ?_⟩
  have hbound := h.bound
  rw [hrun] at hbound
  exact absurd hbound (by decide)

end EngineerLinux.Ipc
