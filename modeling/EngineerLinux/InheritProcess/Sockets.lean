import EngineerLinux.InheritProcess.Model

/-!
# The sockets a child inherits

A socket made by `socket` is marked close-on-exec at once, by the `fcntl` after it, or not at all
(`server.c` 45-55); one made by `accept` never is (19).

So the program point says which sockets of the table are marked (`Inv`), and whether a fork there
copies a table with an unmarked socket (`Quiet`, `Inv.marked_iff`). What the child has is not
touched by anybody else: a copied table that is all marked has no socket behind `execl`, and one
that is not has one, which is both directions of the result.

- `Inv`: which sockets are marked, at every point of the program;
- `childClean_of_quiet`, `quiet_of_childClean`: the run lemmas for the two directions;
- `child_holds_no_socket_iff`: **the executed child holds no socket** exactly if the fork came when
  no connection was open and no new socket was still to be marked.
-/

namespace EngineerLinux.InheritProcess

variable {b : Build} {s s' t : State} {fd fd' : Int} {d : Desc}

/-! ## What one call can do -/

/-- The calls of `remote_process`. -/
inductive RemoteStep (b : Build) (s : State) : State → Prop where
  | socket (hpc : s.remote = .socket) :
      RemoteStep b s ((s.alloc ⟨.listening, b = .sockCloexec⟩).2.goto
        (if b = .fdCloexec then .fcntl (s.table.alloc ⟨.listening, b = .sockCloexec⟩).1
          else .bind (s.table.alloc ⟨.listening, b = .sockCloexec⟩).1))
  | fcntl (sockfd : Int) (hpc : s.remote = .fcntl sockfd) :
      RemoteStep b s ((s.setCloexec sockfd).goto (.bind sockfd))
  | bind (sockfd : Int) (hpc : s.remote = .bind sockfd) : RemoteStep b s (s.goto (.listen sockfd))
  | listen (sockfd : Int) (hpc : s.remote = .listen sockfd) :
      RemoteStep b s (s.goto (.accept sockfd))
  /-- `socket`, `bind` or `listen` has failed. -/
  | giveUp (hpc : ∀ sockfd, s.remote ≠ .fcntl sockfd) : RemoteStep b s (s.goto .returned)
  | accept (sockfd : Int) (hpc : s.remote = .accept sockfd) :
      RemoteStep b s ((s.alloc ⟨.connected, false⟩).2.goto
        (.recv sockfd (s.table.alloc ⟨.connected, false⟩).1))
  | acceptAgain (sockfd : Int) (hpc : s.remote = .accept sockfd) : RemoteStep b s s
  | recvAgain (sockfd connect_fd : Int) (hpc : s.remote = .recv sockfd connect_fd) :
      RemoteStep b s s
  | recvFail (sockfd connect_fd : Int) (hpc : s.remote = .recv sockfd connect_fd) :
      RemoteStep b s (s.goto .socket)
  | quit (sockfd connect_fd : Int) (hpc : s.remote = .recv sockfd connect_fd) :
      RemoteStep b s (s.goto (.closeConnect sockfd connect_fd))
  | closeConnect (sockfd connect_fd : Int) (hpc : s.remote = .closeConnect sockfd connect_fd) :
      RemoteStep b s ((s.close connect_fd).goto (.closeSock sockfd))
  | closeSock (sockfd : Int) (hpc : s.remote = .closeSock sockfd) :
      RemoteStep b s ((s.close sockfd).goto .socket)

theorem remoteProcess_inv {o : Outcome} (h : remoteProcess b s o = some s') :
    RemoteStep b s s' := by
  unfold remoteProcess at h
  split at h
  case h_1 hpc => exact Option.some.inj h ▸ .socket hpc
  case h_2 hpc => exact Option.some.inj h ▸ .giveUp (by rw [hpc]; nofun)
  case h_3 sockfd hpc => exact Option.some.inj h ▸ .fcntl sockfd hpc
  case h_4 sockfd hpc => exact Option.some.inj h ▸ .bind sockfd hpc
  case h_5 hpc => exact Option.some.inj h ▸ .giveUp (by rw [hpc]; nofun)
  case h_6 sockfd hpc => exact Option.some.inj h ▸ .listen sockfd hpc
  case h_7 hpc => exact Option.some.inj h ▸ .giveUp (by rw [hpc]; nofun)
  case h_8 sockfd hpc => exact Option.some.inj h ▸ .accept sockfd hpc
  case h_9 sockfd hpc => exact Option.some.inj h ▸ .acceptAgain sockfd hpc
  case h_10 sockfd connect_fd hpc => exact Option.some.inj h ▸ .recvFail sockfd connect_fd hpc
  case h_11 sockfd connect_fd data hpc =>
    split at h
    · cases h
    · split at h
      · exact Option.some.inj h ▸ .quit sockfd connect_fd hpc
      · exact Option.some.inj h ▸ .recvAgain sockfd connect_fd hpc
  case h_12 sockfd connect_fd hpc => exact Option.some.inj h ▸ .closeConnect sockfd connect_fd hpc
  case h_13 sockfd hpc => exact Option.some.inj h ▸ .closeSock sockfd hpc
  case h_14 => cases h

/-! ## Which sockets are marked -/

/-- Whether a socket is marked, when `remote_process` is at this point. -/
def mark (b : Build) (pc : RemotePc) (fd : Int) : Kind → Bool
  | .listening =>
    match b with
    | .plain => false
    | .sockCloexec => true
    | .fdCloexec => decide (pc ≠ .fcntl fd)
  | _ => false

/-- The invariant of all builds. -/
structure Inv (b : Build) (s : State) : Prop where
  mark : ∀ fd d, s.table.lookup fd = some d → d.kind.isSocket = true →
    d.cloexec = mark b s.remote fd d.kind
  fcntl : ∀ fd, s.remote = .fcntl fd → b = .fdCloexec ∧
    ∃ d, s.table.lookup fd = some d ∧ d.kind = .listening

theorem inv_initial (b : Build) : Inv b .initial := by
  refine ⟨?_, nofun⟩
  intro fd d hd hsocket
  obtain ⟨-, hget⟩ := FdTable.lookup_eq_some_iff.mp hd
  have hmem := List.mem_of_getElem? hget
  have hother : d = ⟨.other, false⟩ := by
    simpa [State.initial] using hmem
  rw [hother] at hsocket
  cases hsocket

/-- Away from the `fcntl`, the mark does not depend on the program point. -/
theorem mark_congr {pc pc' : RemotePc} {kind : Kind} (h : pc ≠ .fcntl fd) (h' : pc' ≠ .fcntl fd) :
    mark b pc fd kind = mark b pc' fd kind := by
  cases kind with
  | listening =>
    cases b with
    | plain | sockCloexec => rfl
    | fdCloexec => exact (decide_eq_true h).trans (decide_eq_true h').symm
  | connected | other => rfl

/-- A step from and to other points than the `fcntl` that makes no socket. -/
theorem Inv.move (h : Inv b s) (hpc : ∀ fd, s.remote ≠ .fcntl fd)
    (hpc' : ∀ fd, s'.remote ≠ .fcntl fd)
    (htable : ∀ fd d, s'.table.lookup fd = some d → s.table.lookup fd = some d) : Inv b s' := by
  refine ⟨?_, fun fd hfd => absurd hfd (hpc' fd)⟩
  intro fd d hd hsocket
  rw [h.mark fd d (htable fd d hd) hsocket]
  exact mark_congr (hpc fd) (hpc' fd)

theorem lookup_close (h : (s.close fd).table.lookup fd' = some d) :
    s.table.lookup fd' = some d := by
  unfold State.close at h
  cases hfd : s.table.lookup fd with
  | none => rwa [hfd] at h
  | some e =>
    simp only [hfd, FdTable.lookup_free hfd] at h
    split at h
    · cases h
    · exact h

/-- The new socket of `socket` or `accept` is marked as its kind is, and the others stay as they
were. -/
theorem Inv.newSocket (h : Inv b s) (hpc : ∀ fd, s.remote ≠ .fcntl fd) {pc : RemotePc}
    (hnew : d.cloexec = EngineerLinux.InheritProcess.mark b pc (s.table.alloc d).1 d.kind)
    (hpc' : ∀ fd, fd ≠ (s.table.alloc d).1 → pc ≠ .fcntl fd) {e : Desc}
    (he : ((s.alloc d).2.goto pc).table.lookup fd = some e) (hsocket : e.kind.isSocket = true) :
    e.cloexec = EngineerLinux.InheritProcess.mark b pc fd e.kind := by
  have he' : (s.table.alloc d).2.lookup fd = some e := he
  -- the descriptor is the new one, or was there before
  rw [FdTable.lookup_alloc] at he'
  split at he'
  case isTrue hfd =>
    obtain rfl := Option.some.inj he'
    rw [hfd]
    exact hnew
  case isFalse hfd =>
    rw [h.mark fd e he' hsocket]
    exact mark_congr (hpc fd) (hpc' fd hfd)

/-- The `fcntl` marks the socket it is about. -/
theorem lookup_setCloexec (h : s.table.lookup fd = some d) :
    (s.setCloexec fd).table.lookup fd' =
      if fd' = fd then some { d with cloexec := true } else s.table.lookup fd' := by
  unfold State.setCloexec
  rw [h]
  exact FdTable.lookup_put h

/-- The calls of `remote_process` keep the invariant. -/
theorem Inv.remoteStep (h : Inv b s) (hs : RemoteStep b s s') : Inv b s' := by
  cases hs with
  | socket hpc =>
    have hpc' : ∀ fd, s.remote ≠ .fcntl fd := by rw [hpc]; nofun
    constructor
    · intro fd d hd hsocket
      -- only with `USE_FD_CLOEXEC` does an `fcntl` follow, and then the new socket is not marked
      -- yet
      refine h.newSocket hpc' ?_ ?_ hd hsocket
      · cases b <;> simp [InheritProcess.mark, State.goto]
      · intro fd hfd
        split
        · exact fun heq => hfd (RemotePc.fcntl.inj heq).symm
        · nofun
    · intro fd hfd
      have hfd' : (if b = .fdCloexec
          then RemotePc.fcntl (s.table.alloc ⟨.listening, b = .sockCloexec⟩).1
          else .bind (s.table.alloc ⟨.listening, b = .sockCloexec⟩).1) = .fcntl fd := hfd
      split at hfd'
      case isTrue hb =>
        -- the `fcntl` to come is about the new socket
        refine ⟨hb, ⟨.listening, b = .sockCloexec⟩, ?_, rfl⟩
        show (s.table.alloc _).2.lookup fd = _
        rw [FdTable.lookup_alloc, if_pos (RemotePc.fcntl.inj hfd').symm]
      case isFalse => cases hfd'
  | fcntl sockfd hpc =>
    obtain ⟨hb, e, he, hkind⟩ := h.fcntl sockfd hpc
    refine ⟨?_, nofun⟩
    intro fd d hd hsocket
    have hd' : (s.setCloexec sockfd).table.lookup fd = some d := hd
    rw [lookup_setCloexec he] at hd'
    show d.cloexec = InheritProcess.mark b (.bind sockfd) fd d.kind
    split at hd'
    case isTrue hfd =>
      obtain rfl := Option.some.inj hd'
      rw [hb, hkind]
      rfl
    -- the mark of another socket does not depend on this `fcntl`
    case isFalse hfd =>
      rw [h.mark fd d hd' hsocket]
      refine mark_congr ?_ nofun
      rw [hpc]
      exact fun heq => hfd (RemotePc.fcntl.inj heq).symm
  | accept sockfd hpc =>
    refine ⟨?_, nofun⟩
    intro fd d hd hsocket
    refine h.newSocket ?_ rfl ?_ hd hsocket
    · rw [hpc]
      nofun
    · nofun
  | acceptAgain | recvAgain => exact h
  | giveUp hpc => exact h.move hpc nofun fun _ _ => id
  | bind sockfd hpc | listen sockfd hpc => exact h.move (by rw [hpc]; nofun) nofun fun _ _ => id
  | recvFail sockfd connect_fd hpc | quit sockfd connect_fd hpc =>
    exact h.move (by rw [hpc]; nofun) nofun fun _ _ => id
  | closeConnect sockfd connect_fd hpc =>
    exact h.move (by rw [hpc]; nofun) nofun fun _ _ => lookup_close
  | closeSock sockfd hpc => exact h.move (by rw [hpc]; nofun) nofun fun _ _ => lookup_close

/-- A call of `sub_process` or of the child leaves the table and the first thread alone. -/
theorem subProcess_same {o : Outcome} (h : subProcess s o = some s') :
    s'.table = s.table ∧ s'.remote = s.remote := by
  unfold subProcess at h
  split at h
  · exact Option.some.inj h ▸ ⟨rfl, rfl⟩
  · exact Option.some.inj h ▸ ⟨rfl, rfl⟩
  · cases h

theorem child_same {o : Outcome} (h : child s o = some s') :
    s'.table = s.table ∧ s'.remote = s.remote := by
  unfold child at h
  split at h
  · exact Option.some.inj h ▸ ⟨rfl, rfl⟩
  · exact Option.some.inj h ▸ ⟨rfl, rfl⟩
  · cases h

theorem Inv.congr (h : Inv b s) (htable : s'.table = s.table) (hremote : s'.remote = s.remote) :
    Inv b s' := by
  refine ⟨?_, ?_⟩
  · rw [htable, hremote]
    exact h.mark
  · rw [htable, hremote]
    exact h.fcntl

/-- **Every step keeps the invariant**, whichever thread takes it. -/
theorem Inv.step (h : Inv b s) {a : Act} (hs : step b s a = some s') : Inv b s' := by
  cases a with
  | remote o => exact h.remoteStep (remoteProcess_inv hs)
  | sub o =>
    obtain ⟨htable, hremote⟩ := subProcess_same hs
    exact h.congr htable hremote
  | child o =>
    obtain ⟨htable, hremote⟩ := child_same hs
    exact h.congr htable hremote

/-! ## What the child is left with -/

/-- Every socket of a table is marked close-on-exec. -/
def Marked (table : FdTable Desc) : Prop :=
  ∀ fd d, table.lookup fd = some d → d.kind.isSocket = true → d.cloexec = true

/-- No socket is in a table. -/
def NoSocket (table : FdTable Desc) : Prop :=
  ∀ fd d, table.lookup fd = some d → d.kind.isSocket = false

/-- The program the child executes, if it does by now, holds none of the server's sockets. -/
def ChildClean (s : State) : Prop := ∀ table, s.child = .execed table → NoSocket table

/-- The moments at which a fork does no harm: no connection is open and no listening socket is still
to be marked. (In the plain build none is ever marked.) -/
structure Quiet (b : Build) (s : State) : Prop where
  connected : ∀ fd d, s.table.lookup fd = some d → d.kind ≠ .connected
  listening : match b with
    | .plain => ∀ fd d, s.table.lookup fd = some d → d.kind ≠ .listening
    | .sockCloexec => True
    | .fdCloexec => ∀ sockfd, s.remote ≠ .fcntl sockfd

/-- The fork, if it succeeds, comes at such a moment. -/
def QuietFork (b : Build) (s : State) (a : Act) : Prop := a = .sub .ok → Quiet b s

/-- What `execl` leaves of the table it is called with. -/
theorem noSocket_onExec {table : FdTable Desc} :
    NoSocket (table.onExec fun d => !d.cloexec) ↔ Marked table := by
  constructor
  · intro h fd d hd hsocket
    by_contra hmark
    -- an unmarked socket stays where it was
    have hleft : (table.onExec fun d => !d.cloexec).lookup fd = some d := by
      rw [FdTable.lookup_onExec, hd, Option.filter_some, if_pos (by simpa using hmark)]
    rw [h fd d hleft] at hsocket
    cases hsocket
  · intro h fd d hd
    rw [FdTable.lookup_onExec, Option.filter_eq_some_iff] at hd
    by_contra hsocket
    have hmark := h fd d hd.1 (by simpa using hsocket)
    simp [hmark] at hd

theorem Inv.marked_of_quiet (h : Inv b s) (hq : Quiet b s) : Marked s.table := by
  intro fd d hd hsocket
  have hmark := h.mark fd d hd hsocket
  cases hkind : d.kind with
  | other =>
    rw [hkind] at hsocket
    cases hsocket
  | connected => exact absurd hkind (hq.connected fd d hd)
  | listening =>
    rw [hmark, hkind]
    cases b with
    | plain => exact absurd hkind (hq.listening fd d hd)
    | sockCloexec => rfl
    | fdCloexec => exact decide_eq_true (hq.listening fd)

theorem Inv.quiet_of_marked (h : Inv b s) (hm : Marked s.table) : Quiet b s := by
  have hmark : ∀ fd d, s.table.lookup fd = some d → d.kind.isSocket = true →
      InheritProcess.mark b s.remote fd d.kind = true := by
    intro fd d hd hsocket
    rw [← h.mark fd d hd hsocket]
    exact hm fd d hd hsocket
  constructor
  · intro fd d hd hkind
    have := hmark fd d hd (by rw [hkind]; rfl)
    rw [hkind] at this
    exact Bool.false_ne_true this
  · cases b with
    | plain =>
      intro fd d hd hkind
      have := hmark fd d hd (by rw [hkind]; rfl)
      rw [hkind] at this
      exact Bool.false_ne_true this
    | sockCloexec => trivial
    | fdCloexec =>
      intro sockfd hpc
      obtain ⟨-, d, hd, hkind⟩ := h.fcntl sockfd hpc
      have := hmark sockfd d hd (by rw [hkind]; rfl)
      rw [hkind] at this
      exact of_decide_eq_true this hpc

/-- The sockets are all marked at the quiet moments and no others. -/
theorem Inv.marked_iff (h : Inv b s) : Marked s.table ↔ Quiet b s :=
  ⟨h.quiet_of_marked, h.marked_of_quiet⟩

/-- The steps, as far as the child goes. -/
inductive ChildStep (s s' : State) : Act → Prop where
  | remote (o : Outcome) (hforked : s'.forked = s.forked) (hchild : s'.child = s.child) :
      ChildStep s s' (.remote o)
  | forkFail (h : s.forked = false) (hforked : s'.forked = true) (hchild : s'.child = s.child) :
      ChildStep s s' (.sub .fail)
  | fork (h : s.forked = false) (hforked : s'.forked = true)
      (hchild : s'.child = .forked s.table) : ChildStep s s' (.sub .ok)
  | exec (table : FdTable Desc) (h : s.child = .forked table) (hforked : s'.forked = s.forked)
      (hchild : s'.child = .execed (table.onExec fun d => !d.cloexec)) : ChildStep s s' (.child .ok)
  | execFail (table : FdTable Desc) (h : s.child = .forked table) (hforked : s'.forked = s.forked)
      (hchild : s'.child = .exited) : ChildStep s s' (.child .fail)

theorem RemoteStep.child (h : RemoteStep b s s') : s'.forked = s.forked ∧ s'.child = s.child := by
  have hclose : ∀ fd, (s.close fd).forked = s.forked ∧ (s.close fd).child = s.child := by
    intro fd
    unfold State.close
    split <;> exact ⟨rfl, rfl⟩
  cases h with
  | fcntl sockfd hpc =>
    unfold State.setCloexec
    split <;> exact ⟨rfl, rfl⟩
  | closeConnect sockfd connect_fd hpc => exact hclose connect_fd
  | closeSock sockfd hpc => exact hclose sockfd
  | _ => exact ⟨rfl, rfl⟩

theorem step_child {a : Act} (h : step b s a = some s') : ChildStep s s' a := by
  cases a with
  | remote o =>
    obtain ⟨hforked, hchild⟩ := (remoteProcess_inv h).child
    exact .remote o hforked hchild
  | sub o =>
    have hsub : subProcess s o = some s' := h
    unfold subProcess at hsub
    split at hsub
    case h_1 hf => exact Option.some.inj hsub ▸ .fork hf rfl rfl
    case h_2 hf => exact Option.some.inj hsub ▸ .forkFail hf rfl rfl
    case h_3 => cases hsub
  | child o =>
    have hchild : child s o = some s' := h
    unfold child at hchild
    split at hchild
    case h_1 table hc => exact Option.some.inj hchild ▸ .exec table hc rfl rfl
    case h_2 table hc => exact Option.some.inj hchild ▸ .execFail table hc rfl rfl
    case h_3 => cases hchild

/-! ## Whole runs -/

/-- What a quiet fork leaves: the copied table is all marked, and what `execl` leaves of it has no
socket. -/
structure Clean (b : Build) (s : State) : Prop where
  inv : Inv b s
  forked : ∀ table, s.child = .forked table → Marked table
  execed : ChildClean s

theorem clean_initial (b : Build) : Clean b .initial := ⟨inv_initial b, nofun, nofun⟩

theorem Clean.step (h : Clean b s) {a : Act} (hquiet : QuietFork b s a)
    (hs : InheritProcess.step b s a = some s') : Clean b s' := by
  refine ⟨h.inv.step hs, ?_, ?_⟩
  · intro table htable
    cases step_child hs with
    | remote o _ hchild | forkFail _ _ hchild => exact h.forked table (hchild.symm.trans htable)
    -- the copy is the table of a quiet moment, in which every socket is marked
    | fork _ _ hchild =>
      obtain rfl := Child.forked.inj (hchild.symm.trans htable)
      exact h.inv.marked_iff.mpr (hquiet rfl)
    | exec _ _ _ hchild | execFail _ _ _ hchild => cases hchild.symm.trans htable
  · intro table htable
    cases step_child hs with
    | remote o _ hchild | forkFail _ _ hchild => exact h.execed table (hchild.symm.trans htable)
    | fork _ _ hchild | execFail _ _ _ hchild => cases hchild.symm.trans htable
    -- `execl` closes all that is marked in the copy
    | exec copied hcopied _ hchild =>
      obtain rfl := Child.execed.inj (hchild.symm.trans htable)
      exact noSocket_onExec.mpr (h.forked copied hcopied)

/-- **A run whose fork is quiet**: the child never executes a program with a socket. -/
theorem childClean_of_quiet {as : List Act}
    (h : (machine b).AllSteps (QuietFork b) .initial as) :
    (machine b).AllStates ChildClean .initial as :=
  (Machine.allStates_of_inductive (fun _ _ _ hu hG ht => hu.step hG ht) (clean_initial b) h).mono
    fun _ hu => hu.execed

/-- Until `execl`, nothing is asked of the child. -/
theorem childClean_of_no_exec {as : List Act} (h : .child .ok ∉ as) :
    (machine b).AllStates ChildClean .initial as := by
  refine (Machine.allStates_of_inductive (P := fun s => ∀ table, s.child ≠ .execed table)
    (G := fun _ a => a ≠ Act.child .ok) ?_ nofun
    (Machine.allSteps_of_labels (L := fun a => a ≠ Act.child .ok) ?_)).mono fun s hs table ht =>
      absurd ht (hs table)
  · intro s a t hs hne ht
    cases step_child ht with
    | remote o _ hchild | forkFail _ _ hchild => rwa [hchild]
    | fork _ _ hchild | execFail _ _ _ hchild =>
      rw [hchild]
      nofun
    | exec => exact absurd rfl hne
  · intro a ha heq
    exact h (heq ▸ ha)

/-- A child that is past the choice makes no further call. -/
theorem no_exec_of_exited {as : List Act} (hforked : s.forked = true)
    (hchild : s.child = .exited) (he : (machine b).exec s as = some t) : .child .ok ∉ as := by
  induction as generalizing s with
  | nil => exact List.not_mem_nil
  | cons a as ih =>
    obtain ⟨u, hu, hrun⟩ := Machine.exec_cons_inv he
    cases step_child hu with
    | remote o hf hc =>
      exact List.not_mem_cons_of_ne_of_not_mem nofun
        (ih (hf.trans hforked) (hc.trans hchild) hrun)
    | forkFail hf | fork hf => exact absurd (hf.symm.trans hforked) Bool.false_ne_true
    -- the child has made its choice
    | exec _ hc | execFail _ hc => cases hchild.symm.trans hc

/-- Once a table with an unmarked socket has been copied, `execl` passes that socket on. -/
theorem not_childClean_of_forked {as : List Act} {table : FdTable Desc} (hforked : s.forked = true)
    (hchild : s.child = .forked table) (hmark : ¬ Marked table)
    (he : (machine b).exec s as = some t) (hexec : .child .ok ∈ as) :
    ¬ (machine b).AllStates ChildClean s as := by
  induction as generalizing s with
  | nil => cases hexec
  | cons a as ih =>
    obtain ⟨u, hu, hrun⟩ := Machine.exec_cons_inv he
    rintro ⟨-, hrest⟩
    cases step_child hu with
    | remote o hf hc =>
      have hexec' : .child .ok ∈ as := (List.mem_cons.mp hexec).resolve_left nofun
      exact ih (hf.trans hforked) (hc.trans hchild) hrun hexec' (hrest u hu)
    | forkFail hf | fork hf => exact absurd (hf.symm.trans hforked) Bool.false_ne_true
    -- a socket is left in the child's table, right behind the `execl`
    | exec copied hcopied _ hc =>
      obtain rfl := Child.forked.inj (hcopied.symm.trans hchild)
      exact hmark (noSocket_onExec.mp ((hrest u hu).head _ hc))
    | execFail _ _ hf hc =>
      have hexec' : .child .ok ∈ as := (List.mem_cons.mp hexec).resolve_left nofun
      exact no_exec_of_exited (hf.trans hforked) hc hrun hexec'

/-- `fork` is called once. -/
theorem quietFork_of_forked {as : List Act} (hforked : s.forked = true)
    (he : (machine b).exec s as = some t) : (machine b).AllSteps (QuietFork b) s as := by
  induction as generalizing s with
  | nil => trivial
  | cons a as ih =>
    obtain ⟨u, hu, hrun⟩ := Machine.exec_cons_inv he
    have hboth : QuietFork b s a ∧ u.forked = true := by
      cases step_child hu with
      | remote o hf | exec _ _ hf | execFail _ _ hf => exact ⟨nofun, hf.trans hforked⟩
      | forkFail hf | fork hf => exact absurd (hf.symm.trans hforked) Bool.false_ne_true
    refine ⟨hboth.1, fun v hv => ?_⟩
    obtain rfl : u = v := Option.some.inj (hu.symm.trans hv)
    exact ih hboth.2 hrun

/-- **A run in which the child executes its program** without a socket has forked quietly. -/
theorem quiet_of_childClean {as : List Act} (hinv : Inv b s) (hchild : s.child = .none)
    (he : (machine b).exec s as = some t) (hexec : .child .ok ∈ as)
    (hclean : (machine b).AllStates ChildClean s as) :
    (machine b).AllSteps (QuietFork b) s as := by
  induction as generalizing s with
  | nil => cases hexec
  | cons a as ih =>
    obtain ⟨u, hu, hrun⟩ := Machine.exec_cons_inv he
    have hinv' : Inv b u := hinv.step hu
    have hnext : ∀ v, (machine b).next s a = some v → v = u := fun v hv =>
      Option.some.inj (hv.symm.trans hu)
    cases step_child hu with
    | remote o hf hc =>
      have hexec' : .child .ok ∈ as := (List.mem_cons.mp hexec).resolve_left nofun
      exact ⟨nofun, fun v hv => hnext v hv ▸
        ih hinv' (hc.trans hchild) hrun hexec' (hclean.2 u hu)⟩
    | forkFail hf _ hc =>
      have hexec' : .child .ok ∈ as := (List.mem_cons.mp hexec).resolve_left nofun
      exact ⟨nofun, fun v hv => hnext v hv ▸
        ih hinv' (hc.trans hchild) hrun hexec' (hclean.2 u hu)⟩
    -- if the moment is not quiet, an unmarked socket is copied, and the `execl` to come passes it
    -- on
    | fork hf hf' hc =>
      have hexec' : .child .ok ∈ as := (List.mem_cons.mp hexec).resolve_left nofun
      refine ⟨fun _ => ?_, fun v hv => hnext v hv ▸ quietFork_of_forked hf' hrun⟩
      by_contra hquiet
      exact not_childClean_of_forked hf' hc (fun hm => hquiet (hinv.marked_iff.mp hm)) hrun hexec'
        (hclean.2 u hu)
    | exec _ hc | execFail _ hc => cases hchild.symm.trans hc

/-- **The sockets a child inherits**: in a run of any build, the executed child holds none of the
server's sockets exactly if the fork came at a quiet moment, or there is no executed child. -/
theorem child_holds_no_socket_iff (b : Build) (as : List Act) (t : State)
    (he : (machine b).exec .initial as = some t) :
    (machine b).AllStates ChildClean .initial as ↔
      (machine b).AllSteps (QuietFork b) .initial as ∨ .child .ok ∉ as := by
  constructor
  · intro hclean
    by_cases hexec : .child .ok ∈ as
    · exact .inl (quiet_of_childClean (inv_initial b) rfl he hexec hclean)
    · exact .inr hexec
  · rintro (hquiet | hexec)
    · exact childClean_of_quiet hquiet
    · exact childClean_of_no_exec hexec

/-- With `SOCK_CLOEXEC`, a fork between `socket` and `bind` is quiet. -/
theorem child_holds_no_socket_iff_beforeBind :
    (machine .sockCloexec).AllStates ChildClean .initial
      [.remote .ok, .sub .ok, .child .ok, .remote .ok] := by
  refine (child_holds_no_socket_iff .sockCloexec _ _ rfl).mpr (.inl ⟨nofun, ?_⟩)
  rintro _ ⟨⟩
  refine ⟨fun _ => ⟨?_, trivial⟩, ?_⟩
  · intro fd d hd
    have hmem : some d ∈ [some ⟨.other, false⟩, some ⟨.other, false⟩, some ⟨.other, false⟩,
        some ⟨.listening, true⟩] := List.mem_of_getElem? (FdTable.lookup_eq_some_iff.mp hd).2
    have hd' : d = ⟨.other, false⟩ ∨ d = ⟨.listening, true⟩ := by simpa using hmem
    rcases hd' with rfl | rfl <;> exact nofun
  · rintro _ ⟨⟩
    exact ⟨nofun, fun _ _ => ⟨nofun, fun _ _ => trivial⟩⟩

/-- The calls of a server that has accepted its first connection when it forks. -/
def forkWhileConnected : Build → List Act
  | .fdCloexec => List.replicate 5 (.remote .ok) ++ [.sub .ok, .child .ok]
  | _ => List.replicate 4 (.remote .ok) ++ [.sub .ok, .child .ok]

/-- In both builds the executed child holds the socket of the first connection. -/
theorem connected_socket_inherited :
    (∃ t table, (machine .sockCloexec).exec .initial (forkWhileConnected .sockCloexec) = some t ∧
      t.child = .execed table ∧ table.lookup 4 = some ⟨.connected, false⟩) ∧
    ∃ t table, (machine .fdCloexec).exec .initial (forkWhileConnected .fdCloexec) = some t ∧
      t.child = .execed table ∧ table.lookup 4 = some ⟨.connected, false⟩ :=
  ⟨⟨_, _, rfl, rfl, rfl⟩, ⟨_, _, rfl, rfl, rfl⟩⟩

end EngineerLinux.InheritProcess
