import EngineerLinux.Ipc.Model

/-!
# Who removes the queue's name

`MQ_FILE` is one name for all processes, and two places remove it: `Close` (line 215), and the error
path of `Open` (59), whoever the caller is. `name_valid_iff` says that in the life cycle of a server
and any number of clients nothing else goes wrong: the name refers to the queue the server has open,
all the while it serves, if and only if meanwhile nobody gets to one of these two `mq_unlink`s.

The server serves from the success of its `mq_open`, which creates the name or fails, to the
beginning of its next call. What the invariant `LifeInv` says besides is where the server is when
it does not serve: outside of a call, at the beginning of `Open`, or leaving one (`Leaving`). A
step of another process touches neither its descriptors nor its place (`goOn_other`), and the name
only by `mq_unlink` (`Kernel.sys_mqName`), so `LifeInv.step` has three cases for the server's own
steps. Conversely an `mq_unlink` while it serves is the end of the name
(`not_nameValid_of_unlink`).
-/

namespace EngineerLinux.Ipc

variable {ι : Type} [DecidableEq ι]

/-! ## What system calls do to descriptors and to the name -/

/-- A new descriptor refers to its object. -/
theorem Kernel.lookup_openFd (s : Kernel ι) (p : ι) (o : Obj) :
    0 ≤ (s.openFd p o).1 ∧ (s.openFd p o).2.lookup p (s.openFd p o).1 = some o := by
  refine ⟨FdTable.lookup_alloc_fst.1, ?_⟩
  show FdTable.lookup (Function.update s.fds p ((s.fds p).alloc o).2 p) ((s.fds p).alloc o).1 = _
  rw [Function.update_self, FdTable.lookup_alloc, if_pos rfl]

/-- A call changes no descriptor of another process. -/
theorem Kernel.sys_fds_other {s s' : Kernel ι} {p p' : ι} {o : Outcome} {c : Call} {a : c.Ans}
    (hs : s.sys p o c = some (a, s')) (hp : p' ≠ p) : s'.fds p' = s.fds p' := by
  cases Kernel.sys_inv hs with
  | socket | closeSock | close | mqCreate | mqOpen | mqClose => exact Function.update_of_ne hp ..
  | _ => rfl

/-- Only `mq_unlink` takes the name away. -/
theorem Kernel.sys_mqName {s s' : Kernel ι} {p : ι} {o : Outcome} {c : Call} {a : c.Ans} {q : Nat}
    (hs : s.sys p o c = some (a, s')) (hc : c ≠ .mqUnlink) (hq : s.mqName = some q) :
    s'.mqName = some q := by
  cases Kernel.sys_inv hs with
  | mqCreate mqa hname => exact absurd (hname.symm.trans hq) nofun
  | mqUnlink => exact absurd rfl hc
  | _ => exact hq

/-- `mq_open` with `O_CREAT|O_EXCL` fails without any effect, or finds the name unused and returns
a descriptor for the new queue of that name. -/
theorem Kernel.sys_mqCreate {s s' : Kernel ι} {p : ι} {o : Outcome} {mqa : MqAttr} {a : Int}
    (hs : s.sys p o (.mqOpen (some mqa)) = some (a, s')) :
    a < 0 ∧ s' = s ∨
      s.mqName = none ∧ 0 ≤ a ∧ ∃ q, s'.mqName = some q ∧ s'.lookup p a = some (.mq q) := by
  simp only [sys] at hs
  split at hs
  · next hname =>
    obtain ⟨hnonneg, hlookup⟩ := s.lookup_openFd p (.mq s.fresh)
    cases hs
    exact .inr ⟨hname, hnonneg, s.fresh, rfl, hlookup⟩
  · cases hs
    exact .inl ⟨by decide, rfl⟩
  · next hcreate _ => cases hcreate
  · next hcreate _ => cases hcreate
  · cases hs
    exact .inl ⟨by decide, rfl⟩
  · cases hs

/-! ## The life cycle -/

variable (srv : ι)

/-- The role a process opens the queue with. -/
def roleOf (p : ι) : RoleType := if p = srv then .server else .client

/-- Only `Open` in `MQUEUE` mode, each process with its own role, and `Close` are called. -/
def LifeCycle : Act ι → Prop
  | .call p op => op = .close ∨ op = .open .mqueue (roleOf srv p)
  | .sys _ _ => True

/-- While the server serves, `MQ_FILE` refers to the queue it has open. -/
def NameValid (s : State ι) : Prop :=
  s.serving srv = true →
    ∃ q, s.kernel.mqName = some q ∧ s.kernel.lookup srv (s.info srv).ipc_mq = some (.mq q)

/-- While the server serves, no process performs the `mq_unlink` of `Close` or of the error path
of `Open`. -/
def NoUnlink (s : State ι) : Act ι → Prop
  | .sys p _ => s.serving srv = true → ∀ k, s.prog p ≠ some (.call Call.mqUnlink k)
  | .call _ _ => True

/-- The rest of a call that does not end in a successful `Open`, and that does nothing but
`mq_unlink` if it was begun while the server served. -/
structure Leaving (s : State ι) (rest : Prog Posix (IpcInfo × Result)) : Prop where
  returns : rest.Returns fun r =>
    r.2 ≠ .opened .success ∧ (s.serving srv = true → r.1.ipc_mq = (s.info srv).ipc_mq)
  only : s.serving srv = true → rest.Only (· = Call.mqUnlink)

/-- The invariant: the name is valid, and the server is outside a call, at the beginning of
`Open`, or leaving. -/
structure LifeInv (s : State ι) : Prop where
  valid : NameValid srv s
  server : ∀ rest, s.prog srv = some rest →
    rest = (Op.open .mqueue .server).prog (s.info srv) ∨ Leaving srv s rest

variable {srv} {s s' : State ι} {p : ι}

omit [DecidableEq ι] in
theorem lifeInv_initial : LifeInv srv (State.initial ι) := ⟨nofun, nofun⟩

/-- Another process goes on: nothing of the server's changes. -/
theorem goOn_other (hp : srv ≠ p) (rest : Prog Posix (IpcInfo × Result)) :
    (s.goOn p rest).kernel = s.kernel ∧ (s.goOn p rest).info srv = s.info srv ∧
      (s.goOn p rest).prog srv = s.prog srv ∧ (s.goOn p rest).serving srv = s.serving srv := by
  cases rest with
  | ret r =>
    refine ⟨rfl, Function.update_of_ne hp .., Function.update_of_ne hp .., ?_⟩
    show (if r.2 = .opened .success then Function.update s.serving p true else s.serving) srv = _
    split
    · exact Function.update_of_ne hp ..
    · rfl
  | call c k => exact ⟨rfl, rfl, Function.update_of_ne hp .., rfl⟩

/-- A call by another process, or its next system call, leaves the server where it is. -/
theorem LifeInv.other (h : LifeInv srv s) (hp : srv ≠ p) (kernel : Kernel ι) (serving : ι → Bool)
    {rest : Prog Posix (IpcInfo × Result)} (hserving : serving srv = s.serving srv)
    (hname : s.serving srv = true → ∀ q, s.kernel.mqName = some q → kernel.mqName = some q)
    (hfds : kernel.fds srv = s.kernel.fds srv) :
    LifeInv srv (State.goOn { s with kernel := kernel, serving := serving } p rest) := by
  obtain ⟨hkernel, hinfo, hprog, hserving'⟩ :=
    goOn_other (s := { s with kernel := kernel, serving := serving }) hp rest
  replace hserving' := hserving'.trans hserving
  refine ⟨fun hs => ?_, fun rest' hrest' => ?_⟩
  · rw [hserving'] at hs
    obtain ⟨q, hq, hfd⟩ := h.valid hs
    refine ⟨q, ?_, ?_⟩
    · rw [hkernel]
      exact hname hs q hq
    · rw [hkernel, hinfo]
      unfold Kernel.lookup at hfd ⊢
      rw [← hfd]
      exact congrArg (FdTable.lookup · _) hfds
  · rw [hprog] at hrest'
    rw [hinfo]
    refine (h.server rest' hrest').imp_right fun hl => ⟨?_, ?_⟩
    · rw [hinfo, hserving']
      exact hl.returns
    · rw [hserving']
      exact hl.only

/-- A server that does not serve goes on leaving: it does not serve afterwards either. -/
theorem lifeInv_of_leaving (kernel : Kernel ι) {rest : Prog Posix (IpcInfo × Result)}
    (hrest : Leaving srv s rest) (hnot : s.serving srv = false) :
    LifeInv srv (State.goOn { s with kernel } srv rest) := by
  cases rest with
  | ret r =>
    have hserving : (State.goOn { s with kernel } srv (.ret r)).serving srv = false := by
      show (if r.2 = .opened .success then Function.update s.serving srv true
        else s.serving) srv = false
      rw [if_neg hrest.returns.1, hnot]
    refine ⟨fun hs => ?_, fun rest' hrest' => ?_⟩
    · rw [hserving] at hs
      cases hs
    · replace hrest' : Function.update s.prog srv none srv = some rest' := hrest'
      rw [Function.update_self] at hrest'
      cases hrest'
  | call c k =>
    refine ⟨fun hs => ?_, fun rest' hrest' => ?_⟩
    · exact absurd (hnot.symm.trans hs) Bool.false_ne_true
    · replace hrest' : Function.update s.prog srv (some (.call c k)) srv = some rest' := hrest'
      rw [Function.update_self] at hrest'
      cases hrest'
      exact .inr ⟨hrest.returns, hrest.only⟩

/-- The beginning of a call keeps the invariant. -/
theorem LifeInv.call {op : Op} (h : LifeInv srv s) (hlife : LifeCycle srv (.call p op))
    (hs : step s (.call p op) = some s') : LifeInv srv s' := by
  have hidle : s.prog p = none := by
    cases hp : s.prog p with
    | none => rfl
    | some rest => simp only [step, hp, reduceCtorEq] at hs
  simp only [step, hidle, Option.some.injEq] at hs
  subst hs
  -- the server begins `Open` or `Close`, or another process does
  by_cases hp : srv = p
  · subst hp
    rcases hlife with rfl | rfl
    · -- from here on the server does not serve
      have hnot : Function.update s.serving srv false srv = false := Function.update_self ..
      refine lifeInv_of_leaving (s := { s with serving := Function.update s.serving srv false })
        s.kernel ⟨?_, fun hs => absurd (hnot.symm.trans hs) Bool.false_ne_true⟩ hnot
      exact Prog.Returns.map (Prog.returns_of_forall _ fun _ => ⟨nofun, fun _ => rfl⟩)
    · refine ⟨h.valid, fun rest hrest => .inl ?_⟩
      have hrole : roleOf srv srv = .server := if_pos rfl
      rw [hrole] at hrest ⊢
      replace hrest : Function.update s.prog srv
        (some ((Op.open .mqueue .server).prog (s.info srv))) srv = some rest := hrest
      rw [Function.update_self] at hrest
      exact (Option.some.inj hrest).symm
  · rcases hlife with rfl | rfl
    · exact h.other hp s.kernel (Function.update s.serving p false) (Function.update_of_ne hp ..)
        (fun _ _ hq => hq) rfl
    · exact h.other hp s.kernel s.serving rfl (fun _ _ hq => hq) rfl

/-- The server's `Open`, written out. -/
theorem open_server_prog (info : IpcInfo) :
    (Op.open .mqueue .server).prog info =
      .call (Call.mqOpen (some ⟨MAX_MSG_NUM, MSG_LEN⟩)) fun (a : Int) =>
        if a < 0 then .call Call.mqUnlink fun (_ : Int) =>
          .ret ({ info with type := .mqueue }, .opened .fail)
        else .ret ({ info with type := .mqueue, fd := a }, .opened .success) := by
  show Prog.call _ _ = Prog.call _ _
  congr 1
  funext (a : Int)
  show Prog.map _ (if a < 0 then _ else _) = _
  rw [apply_ite (Prog.map _)]
  rfl

/-- The server's `mq_open` keeps the invariant: it succeeds only if the name is not in use. -/
theorem LifeInv.open (h : LifeInv srv s) {o : Outcome} {a : Int} {kernel : Kernel ι}
    (hs : s.kernel.sys srv o (.mqOpen (some ⟨MAX_MSG_NUM, MSG_LEN⟩)) = some (a, kernel)) :
    LifeInv srv (State.goOn { s with kernel } srv
      (if a < 0 then .call Call.mqUnlink fun (_ : Int) =>
        .ret ({ s.info srv with type := .mqueue }, .opened .fail)
      else .ret ({ s.info srv with type := .mqueue, fd := a }, .opened .success))) := by
  rcases Kernel.sys_mqCreate hs with ⟨hneg, rfl⟩ | ⟨-, hnonneg, q, hname, hfd⟩
  · rw [if_pos hneg]
    -- the name is in use: the server goes on to the error path, which removes it
    refine ⟨h.valid, fun rest hrest => .inr ?_⟩
    replace hrest : Function.update s.prog srv (some (.call Call.mqUnlink fun (_ : Int) =>
      .ret ({ s.info srv with type := .mqueue }, .opened .fail))) srv = some rest := hrest
    rw [Function.update_self] at hrest
    cases hrest
    exact ⟨fun _ => ⟨nofun, fun _ => rfl⟩, fun _ => ⟨rfl, fun _ => trivial⟩⟩
  · rw [if_neg (Int.not_lt.mpr hnonneg)]
    refine ⟨fun _ => ⟨q, hname, ?_⟩, fun rest hrest => ?_⟩
    · show kernel.lookup srv (Function.update s.info srv _ srv).ipc_mq = _
      rw [Function.update_self]
      exact hfd
    · replace hrest : Function.update s.prog srv none srv = some rest := hrest
      rw [Function.update_self] at hrest
      cases hrest

/-- **Step lemma**: without an `mq_unlink` while the server serves, every step of the life cycle
keeps the invariant. -/
theorem LifeInv.step {a : Act ι} (h : LifeInv srv s) (hlife : LifeCycle srv a)
    (hG : NoUnlink srv s a) (hs : step s a = some s') : LifeInv srv s' := by
  cases a with
  | call p op => exact h.call hlife hs
  | sys p o =>
    cases hp : s.prog p with
    | none => simp only [Ipc.step, hp, reduceCtorEq] at hs
    | some rest =>
      cases rest with
      | ret r => simp only [Ipc.step, hp, reduceCtorEq] at hs
      | call c k =>
        simp only [Ipc.step, hp] at hs
        obtain ⟨⟨x, kernel⟩, hsys, rfl⟩ := Option.map_eq_some_iff.mp hs
        by_cases hsrv : srv = p
        · subst hsrv
          rcases h.server _ hp with hopen | hleaving
          · rw [open_server_prog] at hopen
            cases hopen
            exact h.open hsys
          · have hnot : s.serving srv = false := by
              -- an `mq_unlink` may be next, so it cannot be serving
              by_contra hserving
              rw [Bool.not_eq_false] at hserving
              obtain ⟨rfl, -⟩ := hleaving.only hserving
              exact hG hserving k hp
            have hserves : s.serving srv ≠ true := Bool.eq_false_iff.mp hnot
            exact lifeInv_of_leaving kernel ⟨hleaving.returns x, fun hs => absurd hs hserves⟩ hnot
        · refine h.other hsrv kernel s.serving rfl (fun hserving q hq => ?_)
            (Kernel.sys_fds_other hsys hsrv)
          -- of the calls of another process only an `mq_unlink` takes the name away
          refine Kernel.sys_mqName hsys ?_ hq
          rintro rfl
          exact hG hserving k hp

/-- An `mq_unlink` while the server serves leaves it with a queue that has no name. -/
theorem not_nameValid_of_unlink {a : Act ι} (hG : ¬ NoUnlink srv s a) (hs : step s a = some s') :
    ¬ NameValid srv s' := by
  cases a with
  | call p op => exact absurd trivial hG
  | sys p o =>
    simp only [NoUnlink, Classical.not_imp, not_forall, ne_eq, not_not] at hG
    obtain ⟨hserving, k, hp⟩ := hG
    simp only [step, hp] at hs
    obtain ⟨⟨x, kernel⟩, hsys, rfl⟩ := Option.map_eq_some_iff.mp hs
    intro hvalid
    have hname : kernel.mqName = none := by
      cases Kernel.sys_inv hsys with
      | none _ hc => exact absurd rfl hc
      | mqUnlink => rfl
    -- the server serves on, whether the call of `p` returns or not
    have hafter : (State.goOn { s with kernel } p (k x)).kernel = kernel ∧
        (State.goOn { s with kernel } p (k x)).serving srv = true := by
      cases k x with
      | ret r =>
        refine ⟨rfl, ?_⟩
        show (if r.2 = .opened .success then Function.update s.serving p true
          else s.serving) srv = true
        split
        · rw [Function.update_apply, hserving, ite_self]
        · exact hserving
      | call c' k' => exact ⟨rfl, hserving⟩
    obtain ⟨q, hq, -⟩ := hvalid hafter.2
    rw [hafter.1] at hq
    exact absurd (hname.symm.trans hq) nofun

/-- A client whose `mq_open` succeeds while the name is valid and the server serves is connected
to the queue the server has open. -/
theorem client_connected {o : Outcome} {fd : Int} {kernel : Kernel ι} (hvalid : NameValid srv s)
    (hserving : s.serving srv = true) (hs : s.kernel.sys p o (.mqOpen none) = some (fd, kernel))
    (hfd : 0 ≤ fd) :
    kernel.lookup p fd = s.kernel.lookup srv (s.info srv).ipc_mq := by
  obtain ⟨q, hname, hq⟩ := hvalid hserving
  rw [hq]
  simp only [Kernel.sys, hname] at hs
  split at hs
  · next hcreate _ => cases hcreate
  · next hcreate _ => cases hcreate
  · next q' _ hq' =>
    cases hs
    cases hq'
    exact (s.kernel.lookup_openFd p (.mq q)).2
  · next hq' => cases hq'
  · cases hs
    exact absurd hfd (by decide)
  · cases hs

/-! ## Runs -/

/-- **The queue's name stays valid as long as nobody removes it**: in every run of `Open` and
`Close` calls by one server and any number of clients, whatever `mq_open` fails, `MQ_FILE` refers
to the queue the server has open all the while it serves, if and only if meanwhile no process
performs the `mq_unlink` of `Close` or of the error path of `Open`. -/
theorem name_valid_iff (srv : ι) (t : State ι) (as : List (Act ι))
    (he : (machine ι).exec (.initial ι) as = some t) (hlife : ∀ a ∈ as, LifeCycle srv a) :
    (machine ι).AllStates (NameValid srv) (.initial ι) as ↔
      (machine ι).AllSteps (NoUnlink srv) (.initial ι) as := by
  have hlabels : (machine ι).AllSteps (fun _ a => LifeCycle srv a) (.initial ι) as :=
    Machine.allSteps_of_labels hlife
  constructor
  · intro hvalid
    exact Machine.allSteps_of_allStates (fun u a v hu ha hG hv => LifeInv.step hu ha hG hv)
      (fun u a v _ _ _ hG hv => not_nameValid_of_unlink hG hv) lifeInv_initial hlabels hvalid he
  · intro hG
    exact (Machine.allStates_of_inductive (P := LifeInv srv)
      (fun u a v hu ha hv => hu.step ha.1 ha.2 hv) lifeInv_initial (hlabels.and hG)).mono
        fun u hu => hu.valid

/-- A server (`false`) opens the queue, a client (`true`) connects to it. -/
def connect : List (Act Bool) :=
  [.call false (.open .mqueue .server), .sys false .ok, .call true (.open .mqueue .client),
    .sys true .ok]

theorem name_valid_iff_connect :
    (machine Bool).AllStates (NameValid false) (.initial Bool) connect := by
  refine (name_valid_iff false (((machine Bool).exec (.initial Bool) connect).get rfl) connect
    (Option.some_get _).symm (by simp [connect, LifeCycle, roleOf])).mpr
    ⟨trivial, fun t ht => ⟨?_, fun u hu => ⟨trivial, fun v hv => ⟨?_, fun _ _ => trivial⟩⟩⟩⟩
  · obtain rfl := Option.some.inj ht
    intro _ k hprog
    cases hprog
  · obtain rfl := Option.some.inj ht
    obtain rfl := Option.some.inj hu
    obtain rfl := Option.some.inj hv
    intro _ k hprog
    cases hprog

/-- The client's `mq_open` fails (no descriptors left, say), and its error path is run. -/
def clientFails : List (Act Bool) :=
  [.call false (.open .mqueue .server), .sys false .ok, .call true (.open .mqueue .client),
    .sys true .fail, .sys true .ok]

/-- **A failing client takes the server's name away.** -/
theorem client_unlinks_server_queue :
    ∃ t, (machine Bool).exec (.initial Bool) clientFails = some t ∧
      (∀ a ∈ clientFails, LifeCycle false a) ∧ ¬ NameValid false t := by
  refine ⟨((machine Bool).exec (.initial Bool) clientFails).get rfl, (Option.some_get _).symm,
    by simp [clientFails, LifeCycle, roleOf], fun hvalid => ?_⟩
  obtain ⟨q, hq, -⟩ := hvalid rfl
  cases hq

end EngineerLinux.Ipc
