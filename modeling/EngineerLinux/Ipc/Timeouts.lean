import EngineerLinux.Ipc.Model
import Mathlib.Algebra.Order.Group.Unbundled.Int

/-!
# The timeouts of `Ipc::Read` and `Ipc::Write`

A queue is given a deadline, computed from the clock (lines 119-126 and 184-191). A socket keeps a
send timeout, and `Write` changes it where it differs from its own (165-174). Two results:

- `deadline_exact_iff`: the deadlines of `Read` and `Write` are valid and exact but for a sum of
  nanoseconds of exactly one second, which the comparison with `>` does not carry;
- `own_timeout_iff`: each of a sequence of `Write`s on a socket is sent under its own timeout if and
  only if none without a timeout comes after one with a timeout, since nothing resets the option.

The first is arithmetic, with one carry at most because a rest of milliseconds is less than a
second. The second is an induction on the writes: whatever the option was before, a write with a
timeout leaves its own there, and one without leaves it alone.
-/

namespace EngineerLinux.Ipc

/-- An answer to every call. -/
abbrev Answers := (c : Call) → c.Ans

/-- Every call returns `ret` and stores nothing. -/
def returning (ret : Int) : Answers
  | .getSndtimeo _ => (ret, ⟨0, 0⟩)
  | .recvfrom _ _ | .mqReceive _ _ | .mqTimedreceive _ _ _ => (ret, [])
  | .clockGettime => ⟨0, 0⟩
  | .unlink _ | .socket | .bind _ _ | .setsockopt _ _ _ | .setSndtimeo _ _ | .close _
  | .sendto _ _ _ | .select _ _ | .mqOpen _ | .mqUnlink | .mqClose _ | .mqSend _ _ _
  | .mqTimedsend _ _ _ _ => ret

/-! ## The deadline of a queue -/

/-- A kernel whose clock shows `now`, and which remembers the deadlines it is given. -/
def clocked (now : Timespec) (answers : Answers) : (c : Call) → List Timespec →
    c.Ans × List Timespec
  | .clockGettime, s => (now, s)
  | .mqTimedsend fd buf prio d, s => (answers (.mqTimedsend fd buf prio d), s ++ [d])
  | .mqTimedreceive fd len d, s => (answers (.mqTimedreceive fd len d), s ++ [d])
  | c, s => (answers c, s)

/-- The deadlines that a program hands to the queue. -/
def deadlines {R : Type} (now : Timespec) (answers : Answers) (p : Prog Posix R) : List Timespec :=
  (p.run (clocked now answers) []).2

/-- A value of a 32-bit signed `int`. -/
def FitsInt (n : Int) : Prop := -2147483648 ≤ n ∧ n ≤ 2147483647

/-- The deadline `timeout` milliseconds after `now`: valid, exact, and computed without overflow. -/
structure Exact (now : Timespec) (timeout : Int) (d : Timespec) : Prop where
  valid : 0 ≤ d.tv_nsec ∧ d.tv_nsec < 1000000000
  exact : d.tv_sec * 1000000000 + d.tv_nsec =
    now.tv_sec * 1000000000 + now.tv_nsec + timeout * 1000000
  fits : FitsInt (timeout.tmod 1000) ∧ FitsInt (timeout.tmod 1000 * 1000) ∧
    FitsInt (timeout.tmod 1000 * 1000 * 1000)

/-- The milliseconds of a positive timeout, and what they are multiplied to. -/
theorem tmod_bounds {timeout : Int} (hpos : 0 < timeout) :
    0 ≤ timeout.tmod 1000 ∧ timeout.tmod 1000 ≤ 999 :=
  ⟨Int.tmod_nonneg _ hpos.le, Int.lt_add_one_iff.mp (Int.tmod_lt_of_pos timeout (by decide))⟩

/-- One carry is enough, and a carry is made above one second only. -/
theorem exact_deadline_iff {now : Timespec} {timeout : Int}
    (hnow : 0 ≤ now.tv_nsec ∧ now.tv_nsec < 1000000000) (hpos : 0 < timeout) :
    Exact now timeout (deadline now timeout) ↔
      now.tv_nsec + timeout.tmod 1000 * 1000000 ≠ 1000000000 := by
  have hdiv : 1000 * timeout.tdiv 1000 + timeout.tmod 1000 = timeout :=
    Int.mul_tdiv_add_tmod timeout 1000
  obtain ⟨hlow, hhigh⟩ := tmod_bounds hpos
  have hfits : FitsInt (timeout.tmod 1000) ∧ FitsInt (timeout.tmod 1000 * 1000) ∧
      FitsInt (timeout.tmod 1000 * 1000 * 1000) := by
    unfold FitsInt
    omega
  unfold deadline
  dsimp only
  split
  · next hcarry =>
    refine ⟨fun _ => by omega, fun _ => ⟨?_, ?_, hfits⟩⟩
    · dsimp only
      omega
    · dsimp only
      omega
  · next hcarry =>
    constructor
    · intro h
      have hvalid : now.tv_nsec + timeout.tmod 1000 * 1000 * 1000 < 1000000000 := h.valid.2
      omega
    · intro hne
      refine ⟨?_, ?_, hfits⟩
      · dsimp only
        omega
      · dsimp only
        omega

/-- `Read` from a queue with a timeout hands over one deadline. -/
theorem deadlines_read {info : IpcInfo} (hinfo : info.type = .mqueue) {timeout : Int}
    (hpos : 0 < timeout) (now : Timespec) (answers : Answers) (len : Nat) :
    deadlines now answers (Read info len timeout) = [deadline now timeout] := by
  unfold deadlines Read
  rw [hinfo]
  dsimp only
  rw [if_neg (Int.not_le.mpr hpos)]
  rfl

/-- `Write` to a queue with a timeout hands over one deadline. -/
theorem deadlines_write {info : IpcInfo} (hinfo : info.type = .mqueue) {timeout : Int}
    (hpos : 0 < timeout) (now : Timespec) (answers : Answers) (buf : Bytes) :
    deadlines now answers (Write info buf timeout) = [deadline now timeout] := by
  unfold deadlines Write
  rw [hinfo]
  dsimp only
  rw [if_neg (Int.not_le.mpr hpos)]
  rfl

/-- The deadlines of `Read` and `Write` are valid and exact if and only if the nanoseconds of the
clock and of the timeout do not add up to exactly one second. -/
theorem deadline_exact_iff {info : IpcInfo} (hinfo : info.type = .mqueue) {now : Timespec}
    (hnow : 0 ≤ now.tv_nsec ∧ now.tv_nsec < 1000000000) {timeout : Int}
    (htimeout : 0 < timeout ∧ timeout ≤ 2147483647) (answers : Answers) (len : Nat)
    (buf : Bytes) :
    ((∃ d, deadlines now answers (Read info len timeout) = [d] ∧ Exact now timeout d) ∧
      (∃ d, deadlines now answers (Write info buf timeout) = [d] ∧ Exact now timeout d)) ↔
      now.tv_nsec + timeout.tmod 1000 * 1000000 ≠ 1000000000 := by
  rw [deadlines_read hinfo htimeout.1, deadlines_write hinfo htimeout.1,
    ← exact_deadline_iff hnow htimeout.1]
  constructor
  · rintro ⟨⟨d, hd, hexact⟩, -⟩
    rw [List.singleton_inj.mp hd]
    exact hexact
  · intro h
    exact ⟨⟨_, rfl, h⟩, ⟨_, rfl, h⟩⟩

/-- A clock at the beginning of a second, and a timeout of one and a half. -/
theorem deadline_exact_iff_carry :
    (0 : Int) + (1500 : Int).tmod 1000 * 1000000 ≠ 1000000000 ∧
      ∃ d, deadlines ⟨7, 0⟩ (returning 0) (Write ⟨.mqueue, 3, .server⟩ [1] 1500) = [d] ∧
        Exact ⟨7, 0⟩ 1500 d := by
  have hinfo : (⟨.mqueue, 3, .server⟩ : IpcInfo).type = .mqueue := rfl
  have hnow : 0 ≤ (⟨7, 0⟩ : Timespec).tv_nsec ∧ (⟨7, 0⟩ : Timespec).tv_nsec < 1000000000 := by
    decide
  have htimeout : (0 : Int) < 1500 ∧ (1500 : Int) ≤ 2147483647 := by decide
  have hexact := deadline_exact_iff hinfo hnow htimeout (returning 0) 16 [1]
  exact ⟨by decide, (hexact.mpr (by decide)).2⟩

/-- One millisecond before the full second, a timeout of one millisecond: `tv_nsec` is 10^9. -/
theorem deadline_not_carried :
    ¬ ∃ d, deadlines ⟨7, 999000000⟩ (returning 0) (Write ⟨.mqueue, 3, .server⟩ [1] 1) = [d] ∧
      Exact ⟨7, 999000000⟩ 1 d := by
  rintro ⟨d, hd, hexact⟩
  rw [deadlines_write rfl (by decide)] at hd
  rw [← List.singleton_inj.mp hd] at hexact
  exact absurd hexact.valid.2 (by decide)

/-! ## The send timeout of a socket -/

/-- The part of the kernel that keeps `SO_SNDTIMEO` of each descriptor. -/
structure SendSide where
  sndtimeo : Int → Timeval
  /-- The timeout in force at each `sendto`. -/
  inForce : List Timeval

/-- Neither call on the option fails, and `sendto` returns anything. -/
def SendSide.sys (answers : Answers) : (c : Call) → SendSide → c.Ans × SendSide
  | .getSndtimeo fd, s => ((0, s.sndtimeo fd), s)
  | .setSndtimeo fd value, s =>
    ((0 : Int), { s with sndtimeo := Function.update s.sndtimeo fd value })
  | .sendto fd buf addr, s =>
    (answers (.sendto fd buf addr), { s with inForce := s.inForce ++ [s.sndtimeo fd] })
  | c, s => (answers c, s)

/-- In the kernel of all processes the option of a socket is read and written in the same way. -/
theorem Kernel.sys_sndtimeo {ι : Type} [DecidableEq ι] {s : Kernel ι} {p : ι} {fd : Int} {i : Nat}
    (hfd : s.lookup p fd = some (.sock i)) (value : Timeval) :
    s.sys p .ok (.getSndtimeo fd) = some ((0, s.sndtimeo i), s) ∧
      s.sys p .ok (.setSndtimeo fd value) =
        some ((0 : Int), { s with sndtimeo := Function.update s.sndtimeo i value }) := by
  constructor
  · simp only [Kernel.sys, hfd]
    rfl
  · simp only [Kernel.sys, hfd]
    rfl

/-- A call of `Write`, and how the kernel answers it. -/
structure Writing where
  buf : Bytes
  timeout : Int
  answers : Answers

/-- The kernel after a sequence of `Write`s of one process. -/
def writeAll (info : IpcInfo) (s : SendSide) (ws : List Writing) : SendSide :=
  ws.foldl (fun s w => ((Write info w.buf w.timeout).run (SendSide.sys w.answers) s).2) s

/-- The timeout a caller asks for: none if it is not positive. -/
def ownTimeout (timeout : Int) : Timeval :=
  if 0 < timeout then ⟨timeout / 1000, timeout % 1000 * 1000⟩ else ⟨0, 0⟩

/-- A positive timeout is not the value that stands for none. -/
theorem ownTimeout_ne {timeout : Int} (hpos : 0 < timeout) : ownTimeout timeout ≠ ⟨0, 0⟩ := by
  unfold ownTimeout
  rw [if_pos hpos]
  intro h
  obtain ⟨hsec, husec⟩ := Timeval.mk.inj h
  omega

/-- What a `Write` leaves in the option: its own timeout if it has one, else what was there. -/
def leftTimeout (v : Timeval) (timeout : Int) : Timeval :=
  if 0 < timeout then ownTimeout timeout else v

/-- The timeout in force becomes the one that a `Write` leaves, and it is sent under it. -/
def SendSide.sent (s : SendSide) (fd : Int) (timeout : Int) : SendSide where
  sndtimeo := Function.update s.sndtimeo fd (leftTimeout (s.sndtimeo fd) timeout)
  inForce := s.inForce ++ [leftTimeout (s.sndtimeo fd) timeout]

theorem write_socket {info : IpcInfo} (hinfo : info.type = .socket) (buf : Bytes) (timeout : Int)
    (answers : Answers) (s : SendSide) :
    ((Write info buf timeout).run (SendSide.sys answers) s).2 = s.sent info.socket timeout := by
  unfold Write SendSide.sent leftTimeout
  rw [hinfo]
  dsimp only
  by_cases hpos : 0 < timeout
  · rw [if_neg (Int.not_le.mpr hpos), if_pos hpos]
    have hown : ownTimeout timeout = ⟨timeout.tdiv 1000, timeout.tmod 1000 * 1000⟩ := by
      unfold ownTimeout
      rw [if_pos hpos, Int.tdiv_eq_ediv_of_nonneg hpos.le, Int.tmod_eq_emod_of_nonneg hpos.le]
    rw [hown]
    show (Prog.run _ (if (0 : Int) ≠ 0 ∨ (s.sndtimeo info.socket).tv_sec ≠ timeout.tdiv 1000 ∨
      (s.sndtimeo info.socket).tv_usec ≠ timeout.tmod 1000 * 1000 then _ else _) s).2 = _
    split
    · show SendSide.mk _ (s.inForce ++ [Function.update s.sndtimeo info.socket _ info.socket]) = _
      rw [Function.update_self]
      rfl
    · next hsame =>
      -- the option already has this value and is not set again
      obtain ⟨-, hsame⟩ := not_or.mp hsame
      obtain ⟨hsec, husec⟩ := not_or.mp hsame
      rw [← not_not.mp hsec, ← not_not.mp husec, Function.update_eq_self]
      rfl
  · rw [if_pos (Int.not_lt.mp hpos), if_neg hpos, Function.update_eq_self]
    rfl

/-- What is in force after `Write`s with these timeouts, each in turn. -/
def inForceFrom (v : Timeval) : List Int → List Timeval
  | [] => []
  | timeout :: timeouts =>
    leftTimeout v timeout :: inForceFrom (leftTimeout v timeout) timeouts

theorem writeAll_inForce {info : IpcInfo} (hinfo : info.type = .socket) (ws : List Writing)
    (s : SendSide) :
    (writeAll info s ws).inForce =
      s.inForce ++ inForceFrom (s.sndtimeo info.socket) (ws.map Writing.timeout) := by
  induction ws generalizing s with
  | nil => exact (List.append_nil _).symm
  | cons w ws ih =>
    have hkept : (s.sent info.socket w.timeout).sndtimeo info.socket =
        leftTimeout (s.sndtimeo info.socket) w.timeout := Function.update_self ..
    calc (writeAll info s (w :: ws)).inForce
        = (writeAll info (s.sent info.socket w.timeout) ws).inForce :=
          congrArg (fun s => (writeAll info s ws).inForce) (write_socket hinfo ..)
      _ = s.inForce ++ ([leftTimeout (s.sndtimeo info.socket) w.timeout] ++
            inForceFrom (leftTimeout (s.sndtimeo info.socket) w.timeout)
              (ws.map Writing.timeout)) := by
          rw [ih, hkept]
          exact List.append_assoc ..

/-- From an option `v` on: if `v` is a timeout, every `Write` has to bring its own, and after one
that brings its own every later one has to. -/
theorem inForceFrom_eq_iff (v : Timeval) (timeouts : List Int) :
    inForceFrom v timeouts = timeouts.map ownTimeout ↔
      (v ≠ ⟨0, 0⟩ → ∀ timeout ∈ timeouts, 0 < timeout) ∧
        timeouts.Pairwise fun earlier later => 0 < earlier → 0 < later := by
  induction timeouts generalizing v with
  | nil => exact ⟨fun _ => ⟨fun _ => nofun, .nil⟩, fun _ => rfl⟩
  | cons timeout timeouts ih =>
    rw [List.pairwise_cons, List.forall_mem_cons]
    show _ :: _ = _ :: _ ↔ _
    rw [List.cons.injEq, ih]
    unfold leftTimeout
    by_cases hpos : 0 < timeout
    · rw [if_pos hpos]
      have hne := ownTimeout_ne hpos
      constructor
      · rintro ⟨-, hall, hpairwise⟩
        exact ⟨fun _ => ⟨hpos, hall hne⟩, fun t ht _ => hall hne t ht, hpairwise⟩
      · rintro ⟨-, hall, hpairwise⟩
        exact ⟨rfl, fun _ t ht => hall t ht hpos, hpairwise⟩
    · rw [if_neg hpos]
      have hown : ownTimeout timeout = ⟨0, 0⟩ := if_neg hpos
      rw [hown]
      constructor
      · rintro ⟨rfl, -, hpairwise⟩
        exact ⟨fun h => absurd rfl h, fun t _ h => absurd h hpos, hpairwise⟩
      · rintro ⟨hv, -, hpairwise⟩
        have hzero : v = ⟨0, 0⟩ := not_not.mp fun h => hpos (hv h).1
        exact ⟨hzero, fun h => absurd hzero h, hpairwise⟩

/-- On a socket that starts without a send timeout, each `Write` is sent under its own timeout if
and only if none without a timeout comes after one with a timeout. -/
theorem own_timeout_iff {info : IpcInfo} (hinfo : info.type = .socket) (ws : List Writing) :
    (writeAll info ⟨fun _ => ⟨0, 0⟩, []⟩ ws).inForce =
        ws.map (fun w => ownTimeout w.timeout) ↔
      ws.Pairwise fun earlier later => 0 < earlier.timeout → 0 < later.timeout := by
  have hown : ws.map (fun w => ownTimeout w.timeout) = (ws.map Writing.timeout).map ownTimeout :=
    (List.map_map (g := ownTimeout) (f := Writing.timeout)).symm
  rw [writeAll_inForce hinfo, List.nil_append, hown, inForceFrom_eq_iff, List.pairwise_map]
  exact ⟨And.right, fun h => ⟨fun hne => absurd rfl hne, h⟩⟩

/-- Two `Write`s with different timeouts. -/
theorem own_timeout_iff_two :
    (writeAll ⟨.socket, 3, .client⟩ ⟨fun _ => ⟨0, 0⟩, []⟩
        [⟨[1], 0, returning 1⟩, ⟨[2], 1500, returning (-1)⟩]).inForce =
      [⟨0, 0⟩, ⟨1, 500000⟩] := by
  have hinfo : (⟨.socket, 3, .client⟩ : IpcInfo).type = .socket := rfl
  exact (own_timeout_iff hinfo
    [⟨[1], 0, returning 1⟩, ⟨[2], 1500, returning (-1)⟩]).mpr (by simp)

/-- A `Write` that may wait indefinitely, after one that may wait for a second: it is sent under
the timeout of the first. -/
theorem own_timeout_kept :
    (writeAll ⟨.socket, 3, .client⟩ ⟨fun _ => ⟨0, 0⟩, []⟩
        [⟨[1], 1000, returning 1⟩, ⟨[2], 0, returning 1⟩]).inForce = [⟨1, 0⟩, ⟨1, 0⟩] ∧
      ¬ (writeAll ⟨.socket, 3, .client⟩ ⟨fun _ => ⟨0, 0⟩, []⟩
          [⟨[1], 1000, returning 1⟩, ⟨[2], 0, returning 1⟩]).inForce =
        [⟨[1], 1000, returning 1⟩, ⟨[2], 0, returning 1⟩].map
          fun w : Writing => ownTimeout w.timeout := by
  have hrun : (writeAll ⟨.socket, 3, .client⟩ ⟨fun _ => ⟨0, 0⟩, []⟩
      [⟨[1], 1000, returning 1⟩, ⟨[2], 0, returning 1⟩]).inForce = [⟨1, 0⟩, ⟨1, 0⟩] := rfl
  refine ⟨hrun, fun h => ?_⟩
  rw [hrun] at h
  exact absurd h (by decide)

end EngineerLinux.Ipc
