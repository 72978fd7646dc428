import EngineerLinux.InheritProcess.Sockets

/-!
# Whether the server can bind again

`remote_process` opens a socket in each turn of its loop (`server.c` 44-70), and `msg_process`
closes it together with the connected one (36-37). A socket left open at port 1234 lets the next
`bind` fail.

At each program point the sockets in the table are those in the variables there, so `Owned` is
preserved by a case analysis on the calls, in which the second thread and the child need no more
than that they leave the table alone. The three calls that return without a `close` (23-26, 61-68)
are the ones that leave a variable's socket behind (`Owned.left_over`).

- `Owned`: the sockets in the table are those that the program point accounts for, and the listening
  one is there until it is closed;
- `can_bind_iff`: **no socket is left over**, at the start of a turn and when `remote_process` has
  returned, exactly if no `recv`, `bind` or `listen` fails.
-/

namespace EngineerLinux.InheritProcess

variable {b : Build} {s s' t : State} {fd : Int} {d : Desc}

/-! ## The sockets of a turn -/

/-- The descriptors in the variables of `remote_process` and `msg_process` that have not been closed
yet. -/
def RemotePc.owns : RemotePc → List Int
  | .socket | .returned => []
  | .fcntl sockfd | .bind sockfd | .listen sockfd | .accept sockfd | .closeSock sockfd => [sockfd]
  | .recv sockfd connect_fd | .closeConnect sockfd connect_fd => [sockfd, connect_fd]

/-- The listening socket, before `msg_process` closes anything. -/
def RemotePc.serves : RemotePc → Option Int
  | .fcntl sockfd | .bind sockfd | .listen sockfd | .accept sockfd | .recv sockfd _ => some sockfd
  | _ => none

/-- An open descriptor that is a socket. -/
def State.HasSocket (s : State) (fd : Int) : Prop :=
  ∃ d, s.table.lookup fd = some d ∧ d.kind.isSocket = true

/-- The invariant, as long as no call fails on the way. -/
structure Owned (s : State) : Prop where
  accounted : ∀ fd, s.HasSocket fd → fd ∈ s.remote.owns
  serving : ∀ sockfd, s.remote.serves = some sockfd → s.HasSocket sockfd

/-- No socket is left from the turns before, nor when `remote_process` has returned. -/
def CanBind (s : State) : Prop :=
  s.remote = .socket ∨ s.remote = .returned → NoSocket s.table

theorem noSocket_iff : NoSocket s.table ↔ ∀ fd, ¬ s.HasSocket fd := by
  constructor
  · rintro h fd ⟨d, hd, hsocket⟩
    rw [h fd d hd] at hsocket
    cases hsocket
  · intro h fd d hd
    by_contra hsocket
    exact h fd ⟨d, hd, by simpa using hsocket⟩

theorem Owned.canBind (h : Owned s) : CanBind s := by
  intro hpc
  refine noSocket_iff.mpr fun fd hfd => ?_
  have hmem := h.accounted fd hfd
  rcases hpc with hpc | hpc <;> rw [hpc] at hmem <;> cases hmem

theorem owned_initial : Owned .initial := by
  refine ⟨?_, nofun⟩
  rintro fd ⟨d, hd, hsocket⟩
  have hmem := List.mem_of_getElem? (FdTable.lookup_eq_some_iff.mp hd).2
  have hother : d = ⟨.other, false⟩ := by
    simpa [State.initial] using hmem
  rw [hother] at hsocket
  cases hsocket

/-! ## What a call does to the sockets -/

/-- `socket` and `accept` add one. -/
theorem hasSocket_alloc (hkind : d.kind.isSocket = true) {pc : RemotePc} :
    ((s.alloc d).2.goto pc).HasSocket fd ↔ fd = (s.table.alloc d).1 ∨ s.HasSocket fd := by
  have hlookup : ((s.alloc d).2.goto pc).table.lookup fd =
      if fd = (s.table.alloc d).1 then some d else s.table.lookup fd := FdTable.lookup_alloc
  unfold State.HasSocket
  rw [hlookup]
  by_cases hfd : fd = (s.table.alloc d).1
  · rw [if_pos hfd]
    exact iff_of_true ⟨d, rfl, hkind⟩ (.inl hfd)
  · rw [if_neg hfd]
    exact (or_iff_right hfd).symm

/-- `close` takes one away. -/
theorem hasSocket_close {connect_fd : Int} {pc : RemotePc}
    (h : ((s.close connect_fd).goto pc).HasSocket fd) : fd ≠ connect_fd ∧ s.HasSocket fd := by
  obtain ⟨d, hd, hsocket⟩ := h
  have hd' : (s.close connect_fd).table.lookup fd = some d := hd
  refine ⟨?_, d, lookup_close hd', hsocket⟩
  rintro rfl
  unfold State.close at hd'
  cases hlookup : s.table.lookup fd with
  | none =>
    rw [hlookup] at hd'
    cases hlookup.symm.trans hd'
  | some e =>
    simp only [hlookup, FdTable.lookup_free hlookup, if_true, reduceCtorEq] at hd'

/-- `fcntl` leaves them as they are. -/
theorem hasSocket_setCloexec {sockfd : Int} {pc : RemotePc} :
    ((s.setCloexec sockfd).goto pc).HasSocket fd ↔ s.HasSocket fd := by
  cases hlookup : s.table.lookup sockfd with
  | none =>
    have hsame : (s.setCloexec sockfd).goto pc = s.goto pc := by
      unfold State.setCloexec
      rw [hlookup]
    rw [hsame]
    exact Iff.rfl
  | some e =>
    have hset : ((s.setCloexec sockfd).goto pc).table.lookup fd =
        if fd = sockfd then some { e with cloexec := true } else s.table.lookup fd :=
      lookup_setCloexec hlookup
    unfold State.HasSocket
    rw [hset]
    split
    · next hfd =>
      subst hfd
      rw [hlookup]
      constructor
      · rintro ⟨d, hd, hsocket⟩
        obtain rfl := Option.some.inj hd
        exact ⟨e, rfl, hsocket⟩
      · rintro ⟨d, hd, hsocket⟩
        obtain rfl := Option.some.inj hd
        exact ⟨_, rfl, hsocket⟩
    · exact Iff.rfl

/-! ## Steps -/

/-- The step is not a failing `recv`, `bind` or `listen`. -/
def Unbroken (s : State) : Act → Prop
  | .remote .fail =>
    match s.remote with
    | .bind _ | .listen _ | .recv _ _ => False
    | _ => True
  | _ => True

/-- A step that opens and closes nothing, to a point with the same sockets. -/
theorem Owned.goto (h : Owned s) {pc : RemotePc} (howns : pc.owns = s.remote.owns)
    (hserves : ∀ sockfd, pc.serves = some sockfd → s.remote.serves = some sockfd) :
    Owned (s.goto pc) := by
  refine ⟨fun fd hfd => ?_, fun sockfd hsockfd => h.serving sockfd (hserves sockfd hsockfd)⟩
  show fd ∈ pc.owns
  rw [howns]
  exact h.accounted fd hfd

/-- A new listening socket, or a new connection next to the listening socket. -/
theorem Owned.alloc (h : Owned s) {pc : RemotePc} (hkind : d.kind.isSocket = true)
    (howns : ∀ fd, fd ∈ pc.owns ↔ fd = (s.table.alloc d).1 ∨ fd ∈ s.remote.owns)
    (hserves : ∀ sockfd, pc.serves = some sockfd →
      sockfd = (s.table.alloc d).1 ∨ s.remote.serves = some sockfd) :
    Owned ((s.alloc d).2.goto pc) := by
  constructor
  · intro fd hfd
    refine (howns fd).mpr ?_
    exact ((hasSocket_alloc hkind).mp hfd).imp_right (h.accounted fd)
  · intro sockfd hsockfd
    refine (hasSocket_alloc hkind).mpr ?_
    exact (hserves sockfd hsockfd).imp_right (h.serving sockfd)

/-- A socket is closed that the program point names, and nothing is served any more. -/
theorem Owned.close (h : Owned s) {connect_fd : Int} {pc : RemotePc}
    (howns : ∀ fd, fd ∈ s.remote.owns → fd = connect_fd ∨ fd ∈ pc.owns)
    (hserves : pc.serves = none) : Owned ((s.close connect_fd).goto pc) := by
  constructor
  · intro fd hfd
    obtain ⟨hne, hbefore⟩ := hasSocket_close hfd
    exact (howns fd (h.accounted fd hbefore)).resolve_left hne
  · intro sockfd hsockfd
    have hnone : pc.serves = some sockfd := hsockfd
    rw [hserves] at hnone
    cases hnone

/-- The calls of `remote_process`. -/
theorem Owned.remote (h : Owned s) {o : Outcome} (hunbroken : Unbroken s (.remote o))
    (hs : remoteProcess b s o = some s') : Owned s' := by
  unfold remoteProcess at hs
  split at hs
  case h_1 hpc =>
    obtain rfl := Option.some.inj hs
    refine h.alloc rfl ?_ ?_
    · intro fd
      rw [hpc]
      by_cases hb : b = .fdCloexec <;> simp [hb, RemotePc.owns]
    · intro sockfd hserves
      refine .inl ?_
      split at hserves <;> exact (Option.some.inj hserves).symm
  case h_2 hpc =>
    obtain rfl := Option.some.inj hs
    exact h.goto (by rw [hpc]; rfl) nofun
  case h_3 sockfd hpc =>
    obtain rfl := Option.some.inj hs
    refine ⟨fun fd hfd => ?_, fun sockfd' hsockfd' => hasSocket_setCloexec.mpr ?_⟩
    · have hmem := h.accounted fd (hasSocket_setCloexec.mp hfd)
      rwa [hpc] at hmem
    · refine h.serving sockfd' ?_
      rw [hpc]
      exact hsockfd'
  case h_4 sockfd hpc | h_6 sockfd hpc =>
    obtain rfl := Option.some.inj hs
    refine h.goto (by rw [hpc]; rfl) ?_
    rw [hpc]
    exact fun _ => id
  case h_5 hpc | h_7 hpc | h_10 hpc =>
    simp only [Unbroken, hpc] at hunbroken
  case h_8 sockfd hpc =>
    obtain rfl := Option.some.inj hs
    refine h.alloc rfl ?_ ?_
    · intro fd
      rw [hpc]
      simp [RemotePc.owns, or_comm]
    · intro sockfd' hsockfd'
      rw [hpc]
      exact .inr hsockfd'
  case h_9 sockfd hpc => exact Option.some.inj hs ▸ h
  case h_11 sockfd connect_fd data hpc =>
    split at hs
    · cases hs
    · split at hs
      · obtain rfl := Option.some.inj hs
        exact h.goto (by rw [hpc]; rfl) nofun
      · exact Option.some.inj hs ▸ h
  case h_12 sockfd connect_fd hpc =>
    obtain rfl := Option.some.inj hs
    refine h.close ?_ rfl
    rw [hpc]
    intro fd hfd
    simpa [RemotePc.owns, or_comm] using hfd
  case h_13 sockfd hpc =>
    obtain rfl := Option.some.inj hs
    refine h.close ?_ rfl
    rw [hpc]
    intro fd hfd
    exact .inl (List.mem_singleton.mp hfd)
  case h_14 => cases hs

/-- What the other thread and the child do has nothing to do with it. -/
theorem Owned.congr (h : Owned s) (htable : s'.table = s.table) (hremote : s'.remote = s.remote) :
    Owned s' := by
  constructor
  · rw [hremote]
    unfold State.HasSocket
    rw [htable]
    exact h.accounted
  · rw [hremote]
    unfold State.HasSocket
    rw [htable]
    exact h.serving

theorem Owned.step (h : Owned s) {a : Act} (hunbroken : Unbroken s a)
    (hs : InheritProcess.step b s a = some s') : Owned s' := by
  cases a with
  | remote o => exact h.remote hunbroken hs
  | sub o =>
    obtain ⟨htable, hremote⟩ := subProcess_same hs
    exact h.congr htable hremote
  | child o =>
    obtain ⟨htable, hremote⟩ := child_same hs
    exact h.congr htable hremote

/-- A `recv`, `bind` or `listen` that fails leaves the listening socket behind. -/
theorem Owned.left_over (h : Owned s) {a : Act} (hbroken : ¬ Unbroken s a)
    (hs : InheritProcess.step b s a = some s') : ¬ CanBind s' := by
  have hleft : ∀ {sockfd pc}, s.remote.serves = some sockfd → s' = s.goto pc →
      pc = .socket ∨ pc = .returned → ¬ CanBind s' := by
    rintro sockfd pc hserves rfl hpc hcan
    exact noSocket_iff.mp (hcan hpc) sockfd (h.serving sockfd hserves)
  cases a with
  | remote o =>
    cases o with
    | fail =>
      cases hpc : s.remote with
      | bind sockfd | listen sockfd =>
        refine hleft (by rw [hpc]; rfl) (Option.some.inj ?_).symm (.inr rfl)
        simpa only [InheritProcess.step, remoteProcess, hpc] using hs
      | recv sockfd connect_fd =>
        refine hleft (by rw [hpc]; rfl) (Option.some.inj ?_).symm (.inl rfl)
        simpa only [InheritProcess.step, remoteProcess, hpc] using hs
      | _ => exact absurd (by simp only [Unbroken, hpc]) hbroken
    | _ => exact absurd trivial hbroken
  | _ => exact absurd trivial hbroken

/-! ## Runs -/

/-- **The server can always bind again**: in a run of any build over any number of sessions, no
socket is left over at the start of a turn of `remote_process` or when it has returned, if and only
if no `recv`, `bind` or `listen` fails. -/
theorem can_bind_iff (b : Build) (as : List Act) (t : State)
    (he : (machine b).exec .initial as = some t) :
    (machine b).AllStates CanBind .initial as ↔ (machine b).AllSteps Unbroken .initial as := by
  constructor
  · intro hall
    exact Machine.allSteps_of_allStates (I := Owned) (H := fun _ _ => True)
      (fun _ _ _ hu _ hG ht => hu.step hG ht) (fun _ _ _ hu _ _ hG ht => hu.left_over hG ht)
      owned_initial Machine.allSteps_true hall he
  · intro hG
    exact (Machine.allStates_of_inductive (P := Owned) (fun _ _ _ hu hG ht => hu.step hG ht)
      owned_initial hG).mono fun _ hu => hu.canBind

/-- One session that ends with "quit". -/
def oneSession : List Act :=
  [.remote .ok, .remote .ok, .remote .ok, .remote .ok,
    .remote (.received [0x71, 0x75, 0x69, 0x74]), .remote .ok, .remote .ok]

theorem can_bind_iff_oneSession :
    (machine .plain).AllStates CanBind .initial oneSession :=
  (can_bind_iff .plain oneSession (((machine .plain).exec .initial oneSession).get (by decide))
    (Option.some_get _).symm).mpr (Machine.allSteps_of_labels (L := fun a => a ≠ .remote .fail)
      (by simp [oneSession]) |>.mono fun s a ha => by
        cases a with
        | remote o =>
          cases o with
          | fail => exact absurd rfl ha
          | _ => trivial
        | _ => trivial)

/-- After a `recv` that fails both sockets are still open, and `remote_process` goes on to its next
`socket`. -/
theorem recv_error_leaves_sockets : ∃ t, (machine .plain).exec .initial
    [.remote .ok, .remote .ok, .remote .ok, .remote .ok, .remote .fail] = some t ∧
      ¬ CanBind t := by
  refine ⟨_, rfl, fun h => ?_⟩
  have hsocket := h (.inl rfl) 3 ⟨.listening, false⟩ rfl
  cases hsocket

end EngineerLinux.InheritProcess
