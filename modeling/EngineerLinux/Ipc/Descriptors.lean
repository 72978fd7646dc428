import EngineerLinux.Ipc.QueueName
import EngineerLinux.Lib.FdTable

/-!
# Who owns the descriptors of an `Ipc` object

One object, and a sequence of calls of `Open` and `Close`. How each system call is answered is up to
the kernel; of a new descriptor it is only known that the object does not have it open already. A
ledger says which descriptors the object has obtained and not closed yet.

`Open` has overwritten the type, and for a socket the role, before its first system call
(`ipc.cpp` 16 and 24), and nothing remembers whether `Close` (208-219) has been called. The
invariant keeps the descriptor that is recorded and still to be closed apart from those that a later
`Open` has overwritten. An orderly call keeps it, and any other call is the end of ownership
(`OwnedInv.not_owned`), so the condition is exact.

- `open_run_fail`, `open_run_success`, `close_run`: what each call does to the object and to the
  ledger;
- `Kernel.sys_unused`: the new descriptors of the kernel are unused, as is assumed here;
- `descriptor_ownership_iff`: **the object owns its descriptors**, each obtained one being closed
  exactly once and no other, and a failed `Open` changes nothing, if and only if `Close` is called
  after a successful `Open` only, once, and an `Open` that fails asks for what the last successful
  one asked for.
-/

namespace EngineerLinux.Ipc

/-! ## The ledger -/

/-- The descriptors the object has obtained and not closed yet, and whether it has ever passed
another one to `close` or `mq_close`. -/
structure Ledger where
  held : List Int
  stray : Bool
  deriving DecidableEq

namespace Ledger

variable (l : Ledger)

/-- What a call that makes a descriptor returned. -/
def obtain (fd : Int) : Ledger := if fd < 0 then l else { l with held := fd :: l.held }

/-- A descriptor is passed to `close` or `mq_close`. -/
def release (fd : Int) : Ledger :=
  if fd ∈ l.held then { l with held := l.held.erase fd } else { l with stray := true }

/-- A system call that returns `answer c`; nothing else it stores is read by `Open` and `Close`. -/
def sys (answer : Call → Int) (c : Call) : c.Ans × Ledger :=
  match c with
  | .socket => (answer .socket, l.obtain (answer .socket))
  | .mqOpen create => (answer (.mqOpen create), l.obtain (answer (.mqOpen create)))
  | .close fd => (answer (.close fd), l.release fd)
  | .mqClose fd => (answer (.mqClose fd), l.release fd)
  | .getSndtimeo fd => ((answer (.getSndtimeo fd), ⟨0, 0⟩), l)
  | .recvfrom fd len => ((answer (.recvfrom fd len), []), l)
  | .mqReceive fd len => ((answer (.mqReceive fd len), []), l)
  | .mqTimedreceive fd len abs => ((answer (.mqTimedreceive fd len abs), []), l)
  | .clockGettime => (⟨0, 0⟩, l)
  | .unlink path => (answer (.unlink path), l)
  | .bind fd path => (answer (.bind fd path), l)
  | .setsockopt fd opt value => (answer (.setsockopt fd opt value), l)
  | .setSndtimeo fd value => (answer (.setSndtimeo fd value), l)
  | .sendto fd buf addr => (answer (.sendto fd buf addr), l)
  | .select fd timeout => (answer (.select fd timeout), l)
  | .mqUnlink => (answer .mqUnlink, l)
  | .mqSend fd buf prio => (answer (.mqSend fd buf prio), l)
  | .mqTimedsend fd buf prio abs => (answer (.mqTimedsend fd buf prio abs), l)

end Ledger

/-- Kernels obey what is assumed of a new descriptor: nobody in the process uses it. -/
theorem Kernel.sys_unused {ι : Type} [DecidableEq ι] {s s' : Kernel ι} {p : ι} {o : Outcome}
    {fd : Int} (hfd : 0 ≤ fd)
    (h : s.sys p o .socket = some (fd, s') ∨ ∃ create, s.sys p o (.mqOpen create) = some (fd, s')) :
    s.lookup p fd = none := by
  have hopen : ∀ x, (s.openFd p x).1 = fd → s.lookup p fd = none := by
    rintro x rfl
    exact (FdTable.lookup_alloc_fst (t := s.fds p) (a := x)).2
  have hfail : some ((-1 : Int), s) = some (fd, s') → s.lookup p fd = none := by
    intro heq
    have hneg : (-1 : Int) = fd := congrArg Prod.fst (Option.some.inj heq)
    omega
  rcases h with h | ⟨create, h⟩
  · simp only [sys] at h
    split at h
    · exact hopen _ (congrArg Prod.fst (Option.some.inj h))
    · exact hfail h
    · cases h
  · simp only [sys] at h
    split at h
    · exact hopen _ (congrArg Prod.fst (Option.some.inj h))
    · exact hfail h
    · exact hopen _ (congrArg Prod.fst (Option.some.inj h))
    · exact hfail h
    · exact hfail h
    · cases h

/-! ## The object -/

/-- An object, its ledger, and what its callers have been told. -/
structure Object where
  info : IpcInfo
  ledger : Ledger
  /-- Successful calls of `Open`. -/
  opens : Nat
  /-- Calls of `Close`. -/
  closes : Nat
  /-- `ipc_info_` as the last successful `Open` left it. -/
  last : Option IpcInfo
  /-- There has been no `Close` since the last successful `Open`. -/
  serving : Bool
  deriving DecidableEq

/-- A zero-initialised object. -/
def Object.initial : Object where
  info := .zero
  ledger := ⟨[], false⟩
  opens := 0
  closes := 0
  last := none
  serving := false

/-- A call of a member function, with what the system calls in it return. -/
inductive ObjectAct where
  | open (type : IpcType) (role : RoleType) (answer : Call → Int)
  | close (answer : Call → Int)

/-- The `mq_open` of a role. -/
def mqOpenCall (role : RoleType) : Call :=
  .mqOpen (if .server = role then some ⟨MAX_MSG_NUM, MSG_LEN⟩ else none)

/-- The `bind` of a role. -/
def bindCall (role : RoleType) (fd : Int) : Call :=
  .bind fd (if .server = role then .server else .client)

/-- The descriptor the kernel returns to `Open`. -/
def newFd (type : IpcType) (role : RoleType) (answer : Call → Int) : Int :=
  match type with
  | .socket => answer .socket
  | .mqueue => answer (mqOpenCall role)

namespace Object

variable (s : Object)

/-- `Open` has returned. -/
def opened (info : IpcInfo) (ledger : Ledger) : RetType → Object
  | .success => { s with
      info := info
      ledger := ledger
      opens := s.opens + 1
      last := some info
      serving := true }
  | .fail => { s with info := info, ledger := ledger }

/-- One call of `Open` or `Close`. -/
def step : ObjectAct → Option Object
  | .open type role answer =>
    if newFd type role answer ∈ s.ledger.held then none
    else
      let r := (Open s.info type role).run (fun c l => l.sys answer c) s.ledger
      some (s.opened r.1.1 r.2 r.1.2)
  | .close answer =>
    let r := (Close s.info).run (fun c l => l.sys answer c) s.ledger
    some { s with ledger := r.2, closes := s.closes + 1, serving := false }

/-- One object, from the beginning. -/
def machine : Machine Object ObjectAct where
  init := fun s => s = .initial
  next := step

end Object

/-! ## What the calls do -/

/-- What `Open` records before it makes a system call. -/
def recorded (info : IpcInfo) (type : IpcType) (role : RoleType) : IpcInfo :=
  { info with
    type := type
    role_type := if type = .socket then role else info.role_type }

/-- `socket`, `bind` or `mq_open` fails. -/
def Fails (type : IpcType) (role : RoleType) (answer : Call → Int) : Prop :=
  match type with
  | .socket => answer .socket < 0 ∨ answer (bindCall role (answer .socket)) < 0
  | .mqueue => answer (mqOpenCall role) < 0

instance (type : IpcType) (role : RoleType) (answer : Call → Int) :
    Decidable (Fails type role answer) :=
  match type with
  | .socket => inferInstanceAs (Decidable (_ ∨ _))
  | .mqueue => inferInstanceAs (Decidable (_ < _))

variable {info : IpcInfo} {type : IpcType} {role : RoleType} {answer : Call → Int} {l : Ledger}

/-- What has been obtained is released: nothing is left of it. -/
theorem Ledger.release_obtain {fd : Int} (h : 0 ≤ fd) : (l.obtain fd).release fd = l := by
  rw [obtain, if_neg (Int.not_lt.mpr h), release, if_pos (List.mem_cons_self ..),
    List.erase_cons_head]

/-- **A failing `Open`** leaves the ledger alone, and the type and the role overwritten. -/
theorem open_run_fail (h : Fails type role answer) :
    (Open info type role).run (fun c l => l.sys answer c) l =
      ((recorded info type role, .fail), l) := by
  cases type with
  | socket =>
    show Prog.run _ (if answer .socket < 0 then _ else _) (l.obtain (answer .socket)) = _
    -- `socket` fails, or `bind` does and the new descriptor is closed again
    by_cases hfd : answer .socket < 0
    · rw [if_pos hfd, Ledger.obtain, if_pos hfd]
      rfl
    · have hbind := h.resolve_left hfd
      rw [if_neg hfd]
      show Prog.run _ (if answer (bindCall role (answer .socket)) < 0 then _ else _)
        (l.obtain (answer .socket)) = _
      rw [if_pos hbind]
      show (_, (l.obtain (answer .socket)).release (answer .socket)) = _
      rw [Ledger.release_obtain (Int.not_lt.mp hfd)]
      rfl
  | mqueue =>
    have hfd : answer (mqOpenCall role) < 0 := h
    show Prog.run _ (if answer (mqOpenCall role) < 0 then _ else _)
      (l.obtain (answer (mqOpenCall role))) = _
    rw [if_pos hfd, Ledger.obtain, if_pos hfd]
    rfl

theorem newFd_nonneg (h : ¬ Fails type role answer) : 0 ≤ newFd type role answer := by
  cases type with
  | socket => exact Int.not_lt.mp fun hfd => h (.inl hfd)
  | mqueue => exact Int.not_lt.mp h

/-- **A successful `Open`** records the descriptor it has obtained. -/
theorem open_run_success (h : ¬ Fails type role answer) :
    (Open info type role).run (fun c l => l.sys answer c) l =
      (({ recorded info type role with fd := newFd type role answer }, .success),
        { l with held := newFd type role answer :: l.held }) := by
  have hnonneg := newFd_nonneg h
  have hobtain : l.obtain (newFd type role answer) =
      { l with held := newFd type role answer :: l.held } := if_neg (Int.not_lt.mpr hnonneg)
  cases type with
  | socket =>
    have hbind := fun hlt => h (.inr hlt)
    show Prog.run _ (if answer .socket < 0 then _ else _) (l.obtain (answer .socket)) = _
    have hfd : ¬ answer .socket < 0 := Int.not_lt.mpr hnonneg
    rw [if_neg hfd]
    show Prog.run _ (if answer (bindCall role (answer .socket)) < 0 then _ else _)
        (l.obtain (answer .socket)) = _
    rw [if_neg hbind, ← hobtain]
    rfl
  | mqueue =>
    show Prog.run _ (if answer (mqOpenCall role) < 0 then _ else _)
      (l.obtain (answer (mqOpenCall role))) = _
    have hfd : ¬ answer (mqOpenCall role) < 0 := Int.not_lt.mpr hnonneg
    rw [if_neg hfd, ← hobtain]
    rfl

/-- **`Close`** passes on the recorded descriptor. -/
theorem close_run : ((Close info).run (fun c l => l.sys answer c) l).2 = l.release info.fd := by
  unfold Close
  cases info.type with
  | socket => rfl
  | mqueue => rfl

/-- The calls, one case each. -/
inductive Object.Step (s : Object) : ObjectAct → Object → Prop where
  | opened (type : IpcType) (role : RoleType) (answer : Call → Int)
      (hnew : newFd type role answer ∉ s.ledger.held) (h : ¬ Fails type role answer) :
      Step s (.open type role answer) (s.opened
        { recorded s.info type role with fd := newFd type role answer }
        { s.ledger with held := newFd type role answer :: s.ledger.held } .success)
  | openFails (type : IpcType) (role : RoleType) (answer : Call → Int)
      (h : Fails type role answer) :
      Step s (.open type role answer) (s.opened (recorded s.info type role) s.ledger .fail)
  | closed (answer : Call → Int) :
      Step s (.close answer) { s with
        ledger := s.ledger.release s.info.fd
        closes := s.closes + 1
        serving := false }

theorem Object.step_inv {s t : Object} {a : ObjectAct} (h : s.step a = some t) : s.Step a t := by
  cases a with
  | «open» type role answer =>
    unfold step at h
    dsimp only at h
    split at h
    case isTrue => cases h
    case isFalse hnew =>
      by_cases hfails : Fails type role answer
      · rw [open_run_fail hfails] at h
        exact Option.some.inj h ▸ .openFails type role answer hfails
      · rw [open_run_success hfails] at h
        exact Option.some.inj h ▸ .opened type role answer hnew hfails
  | close answer =>
    unfold step at h
    dsimp only at h
    rw [close_run] at h
    exact Option.some.inj h ▸ .closed answer

/-! ## Ownership -/

/-- Between two calls: the object has passed no descriptor to `close` or `mq_close` but those it
held; when `Close` has been called as often as `Open` has succeeded, every one is closed; and
`ipc_info_` is as the last successful `Open` left it. -/
structure Owned (s : Object) : Prop where
  stray : s.ledger.stray = false
  closed : s.opens = s.closes → s.ledger.held = []
  last : ∀ info, s.last = some info → s.info = info

/-- `Close` is called after a successful `Open` only, once; an `Open` that fails asks for the type,
and for a socket the role, of the last successful one. -/
def Orderly (s : Object) : ObjectAct → Prop
  | .open type role answer => Fails type role answer → ∀ info, s.last = some info →
      type = info.type ∧ (type = .socket → role = info.role_type)
  | .close _ => s.serving = true

/-- The invariant: besides the recorded descriptor, while it is to be closed, the object holds those
of earlier successful calls of `Open` that were overwritten. -/
structure OwnedInv (s : Object) : Prop where
  stray : s.ledger.stray = false
  last : ∀ info, s.last = some info → s.info = info
  held : ∃ leaked, s.ledger.held = (if s.serving then [s.info.fd] else []) ++ leaked ∧
    s.info.fd ∉ leaked ∧ s.opens = s.closes + leaked.length + s.serving.toNat

theorem ownedInv_initial : OwnedInv .initial := ⟨rfl, nofun, [], rfl, List.not_mem_nil, rfl⟩

/-- The invariant implies that the object owns its descriptors. -/
theorem OwnedInv.owned {s : Object} (h : OwnedInv s) : Owned s := by
  refine ⟨h.stray, ?_, h.last⟩
  intro heq
  -- with as many `Close` as `Open`, nothing has leaked and nothing is to be closed
  obtain ⟨leaked, hheld, -, hcount⟩ := h.held
  have hleaked : leaked.length = 0 := by omega
  have hserving : s.serving = false := by
    cases hs : s.serving with
    | false => rfl
    | true =>
      rw [hs, Bool.toNat_true] at hcount
      omega
  rw [hheld, hserving, List.eq_nil_of_length_eq_zero hleaked]
  rfl

/-- What is asked for again is recorded already. -/
theorem recorded_eq_iff {info : IpcInfo} :
    recorded info type role = info ↔
      type = info.type ∧ (type = .socket → role = info.role_type) := by
  constructor
  · intro h
    have htype : type = info.type := congrArg IpcInfo.type h
    have hrole : (if type = .socket then role else info.role_type) = info.role_type :=
      congrArg IpcInfo.role_type h
    refine ⟨htype, fun hsocket => ?_⟩
    rwa [if_pos hsocket] at hrole
  · rintro ⟨rfl, hrole⟩
    unfold recorded
    split
    case isTrue hsocket => rw [hrole hsocket]
    case isFalse => rfl

/-- **An orderly call keeps the invariant.** -/
theorem OwnedInv.step {s t : Object} {a : ObjectAct} (h : OwnedInv s) (horderly : Orderly s a)
    (hs : s.step a = some t) : OwnedInv t := by
  obtain ⟨leaked, hheld, hnotin, hcount⟩ := h.held
  cases Object.step_inv hs with
  | opened type role answer hnew hok =>
    refine ⟨h.stray, fun info hlast => Option.some.inj hlast, s.ledger.held, rfl, hnew, ?_⟩
    -- what was held so far has leaked, the recorded descriptor included if it was to be closed
    show s.opens + 1 = s.closes + s.ledger.held.length + 1
    rw [hheld, List.length_append]
    cases hserving : s.serving with
    | true =>
      rw [hserving, Bool.toNat_true] at hcount
      rw [if_pos rfl, List.length_singleton]
      omega
    | false =>
      rw [hserving, Bool.toNat_false] at hcount
      rw [if_neg Bool.false_ne_true, List.length_nil]
      omega
  | openFails type role answer hfails =>
    refine ⟨h.stray, ?_, leaked, hheld, hnotin, hcount⟩
    intro info hlast
    -- what is recorded again is what was recorded
    have heq : s.info = info := h.last info hlast
    show recorded s.info type role = info
    rw [heq]
    exact recorded_eq_iff.mpr (horderly hfails info hlast)
  | closed answer =>
    have hserving : s.serving = true := horderly
    rw [hserving, if_pos rfl] at hheld
    rw [hserving, Bool.toNat_true] at hcount
    -- the recorded descriptor is the one that is released
    have hmem : s.info.fd ∈ s.ledger.held := hheld ▸ List.mem_cons_self ..
    have hrelease : s.ledger.release s.info.fd = { s.ledger with held := leaked } := by
      rw [Ledger.release, if_pos hmem, hheld]
      exact congrArg (Ledger.mk · s.ledger.stray) (List.erase_cons_head ..)
    refine ⟨?_, h.last, leaked, ?_, hnotin, ?_⟩
    · show (s.ledger.release s.info.fd).stray = false
      rw [hrelease]
      exact h.stray
    · show (s.ledger.release s.info.fd).held = [] ++ leaked
      rw [hrelease]
      rfl
    · show s.opens = s.closes + 1 + leaked.length + 0
      omega

/-- **A call that is not orderly** is the end of ownership. -/
theorem OwnedInv.not_owned {s t : Object} {a : ObjectAct} (h : OwnedInv s)
    (horderly : ¬ Orderly s a) (hs : s.step a = some t) : ¬ Owned t := by
  intro howned
  cases Object.step_inv hs with
  | opened type role answer _ hok => exact horderly fun hfails => absurd hfails hok
  | openFails type role answer _ =>
    refine horderly fun _ info hlast => ?_
    have heq : s.info = info := h.last info hlast
    have hnew : recorded s.info type role = info := howned.last info hlast
    rw [heq] at hnew
    exact recorded_eq_iff.mp hnew
  | closed answer =>
    obtain ⟨leaked, hheld, hnotin, -⟩ := h.held
    have hserving : s.serving = false := Bool.eq_false_iff.mpr horderly
    rw [hserving, if_neg Bool.false_ne_true, List.nil_append] at hheld
    -- nothing is to be closed, so the recorded descriptor is not held
    have hstray : (s.ledger.release s.info.fd).stray = true := by
      rw [Ledger.release, if_neg (hheld ▸ hnotin)]
    exact Bool.false_ne_true (howned.stray.symm.trans hstray)

/-- **Descriptor ownership**: in every state between two calls, the object has closed nothing but
its own descriptors, each once, all of them when the calls are balanced, and `ipc_info_` is as the
last successful `Open` left it, if and only if the calls are orderly. -/
theorem descriptor_ownership_iff (calls : List ObjectAct) (t : Object)
    (hrun : Object.machine.exec .initial calls = some t) :
    Object.machine.AllStates Owned .initial calls ↔
      Object.machine.AllSteps Orderly .initial calls := by
  constructor
  · intro howned
    exact Machine.allSteps_of_allStates (H := fun _ _ => True)
      (fun _ _ _ hu _ hG ht => hu.step hG ht) (fun _ _ _ hu _ _ hG ht => hu.not_owned hG ht)
      ownedInv_initial Machine.allSteps_true howned hrun
  · intro horderly
    exact (Machine.allStates_of_inductive (fun _ _ _ hu hG ht => hu.step hG ht) ownedInv_initial
      horderly).mono fun _ hu => hu.owned

/-- A kernel that returns 3 as the new descriptor, and 0 for success. -/
def answerOk : Call → Int
  | .socket | .mqOpen _ => 3
  | _ => 0

/-- A kernel on which a queue cannot be opened. -/
def answerFail : Call → Int
  | .mqOpen _ => -1
  | _ => 0

/-- A server that opens its socket, and closes it. -/
theorem descriptor_ownership_iff_server :
    Object.machine.AllStates Owned .initial [.open .socket .server answerOk, .close answerOk] :=
  (descriptor_ownership_iff _ _ rfl).mpr
    ⟨fun _ => nofun, fun _ h => Option.some.inj h ▸ ⟨rfl, fun _ _ => trivial⟩⟩

/-- **A failed `Open` of a queue** leaves an object that has a socket open with the type of a
queue. -/
theorem open_fails_overwrites :
    ∃ t, Object.machine.exec .initial
        [.open .socket .server answerOk, .open .mqueue .client answerFail] = some t ∧
      t.last = some ⟨.socket, 3, .server⟩ ∧ t.info = ⟨.mqueue, 3, .server⟩ ∧ ¬ Owned t := by
  refine ⟨_, rfl, rfl, rfl, fun howned => ?_⟩
  have htype : IpcType.mqueue = .socket := congrArg IpcInfo.type (howned.last _ rfl)
  cases htype

end EngineerLinux.Ipc
