import EngineerLinux.StartProcess.Launch

/-!
# The signals around a launched process

Each launcher is run up to `fork`, and then on either side of it (`parent_run`, `child_run`). Before
`fork` the three calls may fail, with an early return in `CreateProcess` and unnoticed in
`CreateProcess_ex` (`main.c` 74-78); behind it, what matters is which signal state the loop around
`waitpid` sees, and whether the three restoring calls come back to the one on entry.

- `child_run`: what the child of `CreateProcess_ex` does is what the model of its command says, and
  the signals are restored when it gets to `execvp`;
- `same_protocol_iff`: **both launchers follow one protocol** if and only if the handler that
  `CreateProcess_ex` never assigns happens to be `SIG_IGN`;
- `leaves_no_trace_iff`: **`CreateProcess` leaves no trace** unless it returns early after a signal
  has been changed.
-/

namespace EngineerLinux.StartProcess

variable {e : World.Env} {w : World} {σ : SigState}

/-! ## Signal states -/

/-- Two actions are one disposition: a mask and flags matter to a function only. -/
def Sigaction.Same (a b : Sigaction) : Prop :=
  a.sa_handler = b.sa_handler ∧ ∀ address, a.sa_handler = .fn address → a = b

/-- Both signals have this action, and `SIGCHLD` is blocked. -/
def SigState.guarded (σ : SigState) (act : Sigaction) : SigState where
  action := Function.update (Function.update σ.action SIGINT act) SIGQUIT act
  mask := σ.mask ∪ {SIGCHLD}

/-- Both actions and the mask are set back. -/
def SigState.restored (σ : SigState) (saveintr savequit : Sigaction) (savemask : Finset Nat) :
    SigState where
  action := Function.update (Function.update σ.action SIGINT saveintr) SIGQUIT savequit
  mask := savemask

theorem SigState.restored_guarded (σ : SigState) (act : Sigaction) :
    (σ.guarded act).restored (σ.action SIGINT) (σ.action SIGQUIT) σ.mask = σ := by
  have haction : ((σ.guarded act).restored (σ.action SIGINT) (σ.action SIGQUIT) σ.mask).action =
      σ.action := by
    funext sig
    show Function.update (Function.update (Function.update (Function.update σ.action SIGINT act)
      SIGQUIT act) SIGINT (σ.action SIGINT)) SIGQUIT (σ.action SIGQUIT) sig = σ.action sig
    by_cases hquit : sig = SIGQUIT
    · rw [hquit, Function.update_self]
    · by_cases hint : sig = SIGINT
      · rw [hint, Function.update_of_ne (by decide), Function.update_self]
      · rw [Function.update_of_ne hquit, Function.update_of_ne hint, Function.update_of_ne hquit,
          Function.update_of_ne hint]
  cases σ
  exact congrArg (SigState.mk · _) haction

/-! ## The calls -/

variable {R : Type}

theorem run_sigaction (sig : Nat) (act : Sigaction) (k : Option Sigaction → Prog Launch R)
    (h : e.fails w.sigCalls = false) :
    (Prog.call (LaunchCall.sigaction sig act) k : Prog Launch R).run (World.sys e) w =
      (k (some (w.sig.action sig))).run (World.sys e) { w with
        sigCalls := w.sigCalls + 1
        sig := { w.sig with action := Function.update w.sig.action sig act } } := by
  show (k (World.sys e (.sigaction sig act) w).1).run (World.sys e)
    (World.sys e (.sigaction sig act) w).2 = _
  rw [World.sys, h]
  rfl

theorem run_sigprocmask (how : How) (set : Finset Nat) (k : Option (Finset Nat) → Prog Launch R)
    (h : e.fails w.sigCalls = false) :
    (Prog.call (LaunchCall.sigprocmask how set) k : Prog Launch R).run (World.sys e) w =
      (k (some w.sig.mask)).run (World.sys e) { w with
        sigCalls := w.sigCalls + 1
        sig := { w.sig with mask := how.apply w.sig.mask set } } := by
  show (k (World.sys e (.sigprocmask how set) w).1).run (World.sys e)
    (World.sys e (.sigprocmask how set) w).2 = _
  rw [World.sys, h]
  rfl

theorem run_sigaction_fail (sig : Nat) (act : Sigaction) (k : Option Sigaction → Prog Launch R)
    (h : e.fails w.sigCalls = true) :
    (Prog.call (LaunchCall.sigaction sig act) k : Prog Launch R).run (World.sys e) w =
      (k none).run (World.sys e) { w with sigCalls := w.sigCalls + 1 } := by
  show (k (World.sys e (.sigaction sig act) w).1).run (World.sys e)
    (World.sys e (.sigaction sig act) w).2 = _
  rw [World.sys, h]
  rfl

theorem run_sigprocmask_fail (how : How) (set : Finset Nat)
    (k : Option (Finset Nat) → Prog Launch R) (h : e.fails w.sigCalls = true) :
    (Prog.call (LaunchCall.sigprocmask how set) k : Prog Launch R).run (World.sys e) w =
      (k none).run (World.sys e) { w with sigCalls := w.sigCalls + 1 } := by
  show (k (World.sys e (.sigprocmask how set) w).1).run (World.sys e)
    (World.sys e (.sigprocmask how set) w).2 = _
  rw [World.sys, h]
  rfl

/-! ## The parent -/

/-- **The loop around `waitpid`** ends, and changes no signal: every `waitpid` has happened in the
signal state from before. -/
theorem waitLoop_run (pid : Int) {fuel : Nat} (hfuel : w.waits.length < fuel) :
    ∃ status n waits, (waitLoop pid fuel).run (World.sys e) w = (some status,
      { w with waits := waits, waiting := w.waiting ++ List.replicate (n + 1) w.sig }) := by
  induction fuel generalizing w with
  | zero => cases hfuel
  | succ fuel ih =>
    obtain ⟨sig, files, sigCalls, waits, waiting⟩ := w
    cases waits with
    | nil => exact ⟨-1, 0, [], rfl⟩
    | cons r rest =>
      cases r with
      | done status => exact ⟨status, 0, rest, rfl⟩
      | error => exact ⟨-1, 0, rest, rfl⟩
      | eintr =>
        obtain ⟨status, n, waits, hrun⟩ := ih
          (w := { sig, files, sigCalls, waits := rest, waiting := waiting ++ [sig] })
          (Nat.lt_of_succ_lt_succ hfuel)
        refine ⟨status, n + 1, waits, hrun.trans ?_⟩
        show (some status, World.mk sig files sigCalls waits
          (waiting ++ [sig] ++ List.replicate (n + 1) sig)) = _
        rw [List.append_assoc]
        rfl

/-- The three restoring calls, when they succeed. -/
theorem restore_run (saveintr savequit : Sigaction) (savemask : Finset Nat) (status : Int)
    (hok : ∀ n, w.sigCalls ≤ n → e.fails n = false) :
    ∃ ret, (restore saveintr savequit savemask status).run (World.sys e) w =
      (some (.returned ret), { w with
        sig := w.sig.restored saveintr savequit savemask
        sigCalls := w.sigCalls + 3 }) := by
  refine ⟨if status = -1 then -1 else 0, ?_⟩
  unfold restore
  rw [run_sigaction _ _ _ (hok _ (Nat.le_refl _)), if_neg (Option.some_ne_none _),
    run_sigaction _ _ _ (hok _ (Nat.le_succ _)), if_neg (Option.some_ne_none _),
    run_sigprocmask _ _ _ (hok _ (Nat.le_add_right _ 2)), if_neg (Option.some_ne_none _)]
  rfl

/-- **The parent behind `fork`** returns, with the signals restored; if it waits, it waits in the
signal state from before. -/
theorem parent_run (NO_WAIT : Bool) {fuel : Nat} (hfuel : w.waits.length < fuel) (pid : Int)
    (saveintr savequit : Sigaction) (savemask : Finset Nat)
    (hok : ∀ n, w.sigCalls ≤ n → e.fails n = false) :
    ∃ ret w' n, (parent NO_WAIT fuel pid saveintr savequit savemask).run (World.sys e) w =
        (some (.returned ret), w') ∧
      w'.sig = w.sig.restored saveintr savequit savemask ∧
      w'.waiting = w.waiting ++ if NO_WAIT then [] else List.replicate (n + 1) w.sig := by
  unfold parent
  cases NO_WAIT with
  | true =>
    rw [if_pos rfl]
    obtain ⟨ret, hrun⟩ := restore_run saveintr savequit savemask 0 hok
    exact ⟨ret, _, 0, hrun, rfl, (List.append_nil _).symm⟩
  | false =>
    rw [if_neg Bool.false_ne_true]
    obtain ⟨status, n, waits, hwait⟩ := waitLoop_run pid hfuel
    rw [Prog.run_bind, hwait]
    obtain ⟨ret, hrun⟩ := restore_run (w := { w with
      waits := waits
      waiting := w.waiting ++ List.replicate (n + 1) w.sig }) saveintr savequit savemask status hok
    exact ⟨ret, _, n, hrun, rfl, rfl⟩

/-! ## The child -/

/-- The calls of the child about its descriptors, in the world of the launcher. -/
theorem inChild_run (p : Prog Posix R) :
    (inChild p).run (World.sys e) w = ((p.run (Kernel.sys e.child) w.files).1,
      { w with files := (p.run (Kernel.sys e.child) w.files).2 }) :=
  Prog.run_lift World.files (fun w files => { w with files })
    (fun _ => rfl) (fun _ _ => rfl) (fun _ _ _ => rfl) (fun _ _ => rfl) (fun _ _ => rfl) p w

theorem exec_eq_execvp (copy : Copy) (j : Nat) {args args' : List Slot}
    (hargs : Buffer.write args j [.null] = some args') :
    exec copy j args = (prepare copy).bind fun _ => .ret (execvp args') := by
  unfold exec execvp
  rw [hargs]
  dsimp only
  generalize (args'[1]? : Option Slot) = slot
  cases slot with
  | none => rfl
  | some slot =>
    cases slot with
    | str file => cases argv (args'.drop 1) <;> rfl
    | _ => rfl

/-- The end of the child is that of the model of its command, with the signals restored. -/
theorem childExec_run (copy : Copy) (saveintr savequit : Sigaction) (save_mask : Finset Nat)
    (j : Nat) {args args' : List Slot} (hargs : Buffer.write args j [.null] = some args')
    (hok : ∀ n, w.sigCalls ≤ n → e.fails n = false) :
    (childExec copy saveintr savequit save_mask args').run (World.sys e) w =
      (((exec copy j args).run (Kernel.sys e.child) w.files).1, { w with
        files := ((exec copy j args).run (Kernel.sys e.child) w.files).2
        sig := w.sig.restored saveintr savequit save_mask
        sigCalls := w.sigCalls + 3 }) := by
  rw [exec_eq_execvp copy j hargs]
  unfold childExec
  rw [run_sigaction _ _ _ (hok _ (Nat.le_refl _)), run_sigaction _ _ _ (hok _ (Nat.le_succ _)),
    Prog.run_bind, inChild_run, run_sigprocmask _ _ _ (hok _ (Nat.le_add_right _ 2)),
    Prog.run_bind]
  rfl

/-- **The child of `CreateProcess_ex`** ends as the model of its command says, with the same calls
about its descriptors; when it gets to `execvp` the signals have been restored. -/
theorem child_run (copy : Copy) (getenv : Text → Option Text) (saveintr savequit : Sigaction)
    (save_mask : Finset Nat) (elems : List Text)
    (hok : ∀ n, w.sigCalls ≤ n → e.fails n = false) :
    ∃ w', (child copy getenv saveintr savequit save_mask elems).run (World.sys e) w =
        (((run copy getenv elems).run (Kernel.sys e.child) w.files).1, w') ∧
      w'.files = ((run copy getenv elems).run (Kernel.sys e.child) w.files).2 ∧
      ∀ file argv, ((run copy getenv elems).run (Kernel.sys e.child) w.files).1 =
        .execvp file argv → w'.sig = w.sig.restored saveintr savequit save_mask := by
  cases elems with
  | nil => exact ⟨w, rfl, rfl, nofun⟩
  | cons elem₀ elems =>
    unfold child run
    dsimp only
    rw [Prog.run_bind, Prog.run_bind, inChild_run]
    generalize Prog.run (S := Posix) (Kernel.sys e.child) _ w.files = r
    obtain ⟨r, files⟩ := r
    cases r with
    | error f => exact ⟨_, rfl, rfl, nofun⟩
    | ok r =>
      obtain ⟨j, args⟩ := r
      dsimp only
      cases hargs : Buffer.write args j [.null] with
      | none =>
        unfold exec
        rw [hargs]
        exact ⟨_, rfl, rfl, nofun⟩
      | some args' =>
        have hend := childExec_run (w := { w with files }) copy saveintr savequit save_mask j hargs
          hok
        exact ⟨_, hend, rfl, fun _ _ _ => rfl⟩

/-! ## The launchers -/

/-- `CreateProcess` up to `fork`. -/
theorem createProcess_run (NO_WAIT : Bool) (fuel : Nat) (cmdstring : Text)
    (hok : ∀ n, w.sigCalls ≤ n → e.fails n = false) :
    (CreateProcess NO_WAIT fuel (some cmdstring)).run (World.sys e) w =
      (afterFork NO_WAIT fuel cmdstring (w.sig.action SIGINT) (w.sig.action SIGQUIT) w.sig.mask
        e.fork).run (World.sys e)
        { w with sig := w.sig.guarded ⟨.ign, ∅, 0⟩, sigCalls := w.sigCalls + 3 } := by
  unfold CreateProcess
  dsimp only
  rw [run_sigaction _ _ _ (hok _ (Nat.le_refl _))]
  dsimp only
  rw [run_sigaction _ _ _ (hok _ (Nat.le_succ _))]
  dsimp only
  rw [run_sigprocmask _ _ _ (hok _ (Nat.le_add_right _ 2))]
  rfl

/-- `CreateProcess_ex` up to `fork`: whatever was on the stack is the action of both signals. -/
theorem createProcess_ex_run (copy : Copy) (getenv : Text → Option Text) (NO_WAIT : Bool)
    (fuel : Nat) (stack : Stack) (cmdstring : Text)
    (hok : ∀ n, w.sigCalls ≤ n → e.fails n = false) :
    (CreateProcess_ex copy getenv NO_WAIT fuel stack cmdstring).run (World.sys e) w =
      (afterFork_ex copy getenv NO_WAIT fuel cmdstring (w.sig.action SIGINT) (w.sig.action SIGQUIT)
        w.sig.mask e.fork).run (World.sys e)
        { w with sig := w.sig.guarded stack.ignore, sigCalls := w.sigCalls + 3 } := by
  unfold CreateProcess_ex
  rw [run_sigaction _ _ _ (hok _ (Nat.le_refl _))]
  dsimp only
  rw [run_sigaction _ _ _ (hok _ (Nat.le_succ _))]
  dsimp only
  rw [run_sigprocmask _ _ _ (hok _ (Nat.le_add_right _ 2))]
  rfl

/-! ## One protocol -/

/-- A process enters a launcher. -/
def World.entry (σ : SigState) (files : Kernel) (waits : List Waited) : World :=
  ⟨σ, files, 0, waits, []⟩

/-- The calls about signals succeed, and `fork` returns this. -/
def World.Env.succeeding (fork : Int) (answers : Answers) : World.Env :=
  ⟨fun _ => false, fork, answers⟩

/-- A program is executed. -/
def Exit.executed : Exit → Bool
  | .execl _ _ | .child (.execvp _ _) => true
  | .returned _ | .child (.fault _) => false

/-- Both signals are ignored and `SIGCHLD` is blocked; nothing else has changed since `σ`. -/
structure Ignoring (σ σ' : SigState) : Prop where
  sigint : (σ'.action SIGINT).sa_handler = .ign
  sigquit : (σ'.action SIGQUIT).sa_handler = .ign
  other : ∀ sig, sig ≠ SIGINT → sig ≠ SIGQUIT → σ'.action sig = σ.action sig
  mask : σ'.mask = σ.mask ∪ {SIGCHLD}

/-- The protocol of a launcher that is entered in the world `w`, and whose child gets the number
`pid`: the parent waits with the signals ignored and returns with those it had, and so does the
child get to execute a program. -/
structure FollowsProtocol (prog : Prog Launch (Option Exit)) (answers : Answers) (pid : Int)
    (w : World) : Prop where
  parent : ∃ ret w', prog.run (World.sys (.succeeding pid answers)) w =
      (some (.returned ret), w') ∧
    (∀ σ ∈ w'.waiting, Ignoring w.sig σ) ∧ w'.sig = w.sig
  child : ∀ exit w', prog.run (World.sys (.succeeding 0 answers)) w = (some exit, w') →
    exit.executed = true → w'.sig = w.sig

theorem ignoring_guarded_iff (σ : SigState) (act : Sigaction) :
    Ignoring σ (σ.guarded act) ↔ act.sa_handler = .ign := by
  have hquit : (σ.guarded act).action SIGQUIT = act := by
    show Function.update (Function.update σ.action SIGINT act) SIGQUIT act SIGQUIT = act
    rw [Function.update_self]
  have hint : (σ.guarded act).action SIGINT = act := by
    show Function.update (Function.update σ.action SIGINT act) SIGQUIT act SIGINT = act
    rw [Function.update_of_ne (by decide), Function.update_self]
  constructor
  · intro h
    exact hint ▸ h.sigint
  · intro h
    refine ⟨hint.symm ▸ h, hquit.symm ▸ h, fun sig hsig hsig' => ?_, rfl⟩
    show Function.update (Function.update σ.action SIGINT act) SIGQUIT act sig = _
    rw [Function.update_of_ne hsig', Function.update_of_ne hsig]

/-- The parent of either launcher: it follows the protocol if and only if it does not wait, or the
action it has set ignores the signals. -/
theorem parent_protocol_iff (σ : SigState) (files : Kernel) (NO_WAIT : Bool) {fuel : Nat}
    {waits : List Waited} (hfuel : waits.length < fuel) (pid : Int) (answers : Answers)
    (act : Sigaction) :
    (∃ ret w', (parent NO_WAIT fuel pid (σ.action SIGINT) (σ.action SIGQUIT) σ.mask).run
        (World.sys (.succeeding pid answers))
        { World.entry σ files waits with sig := σ.guarded act, sigCalls := 3 } =
          (some (.returned ret), w') ∧
      (∀ σ' ∈ w'.waiting, Ignoring σ σ') ∧ w'.sig = σ) ↔
      NO_WAIT = true ∨ act.sa_handler = .ign := by
  obtain ⟨ret, w', n, hrun, hsig, hwaiting⟩ := parent_run (e := .succeeding pid answers)
    (w := { World.entry σ files waits with sig := σ.guarded act, sigCalls := 3 }) NO_WAIT hfuel pid
    (σ.action SIGINT) (σ.action SIGQUIT) σ.mask (fun _ _ => rfl)
  rw [← ignoring_guarded_iff σ]
  constructor
  · rintro ⟨ret₁, w₁, hrun₁, hignoring, -⟩
    obtain ⟨-, rfl⟩ := Prod.mk.inj (hrun.symm.trans hrun₁)
    cases NO_WAIT with
    | true => exact .inl rfl
    | false =>
      refine .inr (hignoring _ ?_)
      rw [hwaiting]
      exact List.mem_cons_self ..
  · intro h
    refine ⟨ret, w', hrun, fun σ' hσ' => ?_, hsig.trans (σ.restored_guarded act)⟩
    rw [hwaiting] at hσ'
    rcases h with rfl | h
    · cases hσ'
    · cases NO_WAIT with
      | true => cases hσ'
      | false => exact List.eq_of_mem_replicate hσ' ▸ h

theorem createProcess_follows (NO_WAIT : Bool) {fuel : Nat} (cmdstring : Text) (answers : Answers)
    {pid : Int} (hpid : 0 < pid) (σ : SigState) (files : Kernel) {waits : List Waited}
    (hfuel : waits.length < fuel) :
    FollowsProtocol (CreateProcess NO_WAIT fuel (some cmdstring)) answers pid
      (.entry σ files waits) := by
  constructor
  · rw [createProcess_run _ _ _ fun _ _ => rfl]
    unfold afterFork
    rw [if_neg (show ¬ (World.Env.succeeding pid answers).fork < 0 from Int.not_lt.mpr hpid.le),
      if_neg (show ¬ (World.Env.succeeding pid answers).fork = 0 from hpid.ne')]
    exact (parent_protocol_iff σ files NO_WAIT hfuel pid answers _).mpr (.inr rfl)
  · intro exit w' hrun _
    rw [createProcess_run _ _ _ fun _ _ => rfl] at hrun
    obtain ⟨-, rfl⟩ := Prod.mk.inj hrun
    exact σ.restored_guarded _

theorem createProcess_ex_follows_iff (copy : Copy) (getenv : Text → Option Text) (NO_WAIT : Bool)
    {fuel : Nat} (stack : Stack) (cmdstring : Text) (answers : Answers) {pid : Int}
    (hpid : 0 < pid) (σ : SigState) (files : Kernel) {waits : List Waited}
    (hfuel : waits.length < fuel) :
    FollowsProtocol (CreateProcess_ex copy getenv NO_WAIT fuel stack cmdstring) answers pid
        (.entry σ files waits) ↔
      NO_WAIT = true ∨ stack.ignore.sa_handler = .ign := by
  have hparent := parent_protocol_iff σ files NO_WAIT hfuel pid answers stack.ignore
  have hrun : (CreateProcess_ex copy getenv NO_WAIT fuel stack cmdstring).run
      (World.sys (.succeeding pid answers)) (.entry σ files waits) =
      (parent NO_WAIT fuel pid (σ.action SIGINT) (σ.action SIGQUIT) σ.mask).run
        (World.sys (.succeeding pid answers))
        { World.entry σ files waits with sig := σ.guarded stack.ignore, sigCalls := 3 } := by
    rw [createProcess_ex_run _ _ _ _ _ _ fun _ _ => rfl]
    unfold afterFork_ex
    rw [if_neg (show ¬ (World.Env.succeeding pid answers).fork < 0 from Int.not_lt.mpr hpid.le),
      if_neg (show ¬ 0 = (World.Env.succeeding pid answers).fork from hpid.ne)]
    rfl
  rw [← hrun] at hparent
  refine ⟨fun h => hparent.mp h.parent, fun h => ⟨hparent.mpr h, fun exit w' hchild hexec => ?_⟩⟩
  rw [createProcess_ex_run _ _ _ _ _ _ fun _ _ => rfl] at hchild
  unfold afterFork_ex at hchild
  rw [if_neg (show ¬ (World.Env.succeeding 0 answers).fork < 0 from Int.lt_irrefl 0),
    if_pos (show 0 = (World.Env.succeeding 0 answers).fork from rfl)] at hchild
  cases hsplit : splitLoop cmdstring fuel 0 with
  | none =>
    rw [hsplit] at hchild
    cases congrArg Prod.fst hchild
  | some elems =>
    rw [hsplit] at hchild
    obtain ⟨w₁, hrun₁, -, hsig⟩ := child_run (e := .succeeding 0 answers)
      (w := { World.entry σ files waits with sig := σ.guarded stack.ignore, sigCalls := 3 })
      copy getenv (σ.action SIGINT) (σ.action SIGQUIT) σ.mask elems fun _ _ => rfl
    dsimp only at hchild
    rw [Prog.run_map] at hchild
    obtain ⟨hexit, hw⟩ := Prod.mk.inj hchild
    obtain rfl : w₁ = w' := (congrArg Prod.snd hrun₁).symm.trans hw
    have hfinal := (congrArg (fun r => some (Exit.child r.1)) hrun₁).symm.trans hexit
    rw [← Option.some.inj hfinal] at hexec
    -- a child that writes out of range does not execute anything
    cases hf : ((run copy getenv elems).run (Kernel.sys answers) files).1 with
    | fault f =>
      have hfault : (Exit.child (.fault f)).executed = true := hf ▸ hexec
      cases hfault
    | execvp file argv => exact (hsig file argv hf).trans (σ.restored_guarded _)

/-- **Both launchers follow one protocol**, if and only if the parent does not wait at all, or the
handler that `CreateProcess_ex` does not assign is `SIG_IGN` by chance. -/
theorem same_protocol_iff (copy : Copy) (getenv : Text → Option Text) (NO_WAIT : Bool)
    (stack : Stack) (cmdstring : Text) (answers : Answers) (σ : SigState) (files : Kernel)
    (waits : List Waited) {fuel : Nat} (hfuel : waits.length < fuel) {pid : Int}
    (hpid : 0 < pid) :
    FollowsProtocol (CreateProcess NO_WAIT fuel (some cmdstring)) answers pid
        (.entry σ files waits) ∧
      FollowsProtocol (CreateProcess_ex copy getenv NO_WAIT fuel stack cmdstring) answers pid
        (.entry σ files waits) ↔
      NO_WAIT = true ∨ stack.ignore.sa_handler = .ign := by
  rw [createProcess_ex_follows_iff copy getenv NO_WAIT stack cmdstring answers hpid σ files hfuel]
  exact and_iff_right (createProcess_follows NO_WAIT cmdstring answers hpid σ files hfuel)

/-- Every signal has its default action, and none is blocked. -/
def SigState.default : SigState := ⟨fun _ => ⟨.dfl, ∅, 0⟩, ∅⟩

/-- A stack full of zeros. -/
def Stack.zero : Stack := ⟨⟨.dfl, ∅, 0⟩, ⟨.dfl, ∅, 0⟩, ⟨.dfl, ∅, 0⟩, ∅⟩

/-- A stack on which `SIG_IGN` was left, and a wait that is interrupted once. -/
theorem same_protocol_iff_ignored :
    FollowsProtocol (CreateProcess_ex .startProcess (fun _ => none) false 3
      { Stack.zero with ignore := ⟨.ign, ∅, 0⟩ } ['a']) allOpen 7
      (.entry .default stdKernel [.eintr, .done 0]) :=
  ((same_protocol_iff .startProcess (fun _ => none) false
    { Stack.zero with ignore := ⟨.ign, ∅, 0⟩ } ['a'] allOpen .default stdKernel
    [.eintr, .done 0] (by decide) (by decide)).mpr (.inr rfl)).2

/-- On a stack of zeros the parent waits with the default actions. -/
theorem waits_with_default :
    ¬ (FollowsProtocol (CreateProcess false 3 (some ['a'])) allOpen 7
        (.entry .default stdKernel [.done 0]) ∧
      FollowsProtocol (CreateProcess_ex .startProcess (fun _ => none) false 3 .zero ['a']) allOpen 7
        (.entry .default stdKernel [.done 0])) := by
  rintro ⟨-, h⟩
  have hpid : (0 : Int) < 7 := by decide
  have hfuel : [Waited.done 0].length < 3 := by decide
  have hiff := createProcess_ex_follows_iff .startProcess (fun _ => none) false .zero ['a'] allOpen
    hpid .default stdKernel hfuel
  exact absurd (hiff.mp h) (by decide)

/-! ## No trace -/

/-- The dispositions of `SIGINT` and `SIGQUIT` and the mask are the same. -/
structure SameSignals (σ σ' : SigState) : Prop where
  sigint : (σ.action SIGINT).Same (σ'.action SIGINT)
  sigquit : (σ.action SIGQUIT).Same (σ'.action SIGQUIT)
  mask : σ.mask = σ'.mask

theorem Sigaction.Same.refl (a : Sigaction) : a.Same a := ⟨rfl, fun _ _ => rfl⟩

theorem SameSignals.refl (σ : SigState) : SameSignals σ σ := ⟨.refl _, .refl _, rfl⟩

/-- An ignored signal is ignored, whatever the mask and the flags. -/
theorem ign_same_iff (mask : Finset Nat) (flags : Nat) (a : Sigaction) :
    Sigaction.Same ⟨.ign, mask, flags⟩ a ↔ a.sa_handler = .ign :=
  ⟨fun h => h.1.symm, fun h => ⟨h.symm, nofun⟩⟩

/-- No early return is taken after something has changed: the first call fails; or, if the second
one does, `SIGINT` was ignored anyway, and if the third one does, both signals were. -/
def NothingChanged (fails : Nat → Bool) (σ : SigState) : Prop :=
  fails 0 = true ∨
    (fails 1 = true → (σ.action SIGINT).sa_handler = .ign) ∧
    (fails 1 = false → fails 2 = true →
      (σ.action SIGINT).sa_handler = .ign ∧ (σ.action SIGQUIT).sa_handler = .ign)

/-- The parent of `CreateProcess` behind `fork` returns with the signals it had. -/
theorem afterFork_run (NO_WAIT : Bool) {fuel : Nat} (cmdstring : Text)
    {saveintr savequit : Sigaction} {savemask : Finset Nat} {pid : Int} (hpid : pid ≠ 0)
    (hfuel : w.waits.length < fuel) (hok : ∀ n, w.sigCalls ≤ n → e.fails n = false) :
    ∃ ret w', (afterFork NO_WAIT fuel cmdstring saveintr savequit savemask pid).run
        (World.sys e) w = (some (.returned ret), w') ∧
      w'.sig = w.sig.restored saveintr savequit savemask := by
  unfold afterFork
  by_cases hneg : pid < 0
  · rw [if_pos hneg]
    obtain ⟨ret, hrun⟩ := restore_run saveintr savequit savemask (-1) hok
    exact ⟨ret, _, hrun, rfl⟩
  · rw [if_neg hneg, if_neg hpid]
    obtain ⟨ret, w', n, hrun, hsig, -⟩ :=
      parent_run NO_WAIT hfuel pid saveintr savequit savemask hok
    exact ⟨ret, w', hrun, hsig⟩

/-- Neither the three calls before the `fork` nor those after it. -/
theorem no_call_fails {fails : Nat → Bool} (h0 : fails 0 = false) (h1 : fails 1 = false)
    (h2 : fails 2 = false) (hrestoring : ∀ n, 3 ≤ n → fails n = false) : ∀ n, fails n = false
  | 0 => h0
  | 1 => h1
  | 2 => h2
  | _ + 3 => hrestoring _ (Nat.le_add_left ..)

/-- **`CreateProcess` leaves no trace** of itself in the signals of its caller, if and only if no
early return is taken after something has changed. -/
theorem leaves_no_trace_iff (NO_WAIT : Bool) (cmdstring : Option Text) (e : World.Env)
    (hrestoring : ∀ n, 3 ≤ n → e.fails n = false) (hfork : e.fork ≠ 0) (σ : SigState)
    (files : Kernel) (waits : List Waited) {fuel : Nat} (hfuel : waits.length < fuel) :
    ∃ ret w', (CreateProcess NO_WAIT fuel cmdstring).run (World.sys e) (.entry σ files waits) =
        (some (.returned ret), w') ∧
      (SameSignals w'.sig σ ↔ cmdstring = none ∨ NothingChanged e.fails σ) := by
  cases cmdstring with
  | none => exact ⟨1, _, rfl, iff_of_true (.refl σ) (.inl rfl)⟩
  | some cmdstring =>
    rw [or_iff_right (Option.some_ne_none _)]
    unfold NothingChanged
    cases h0 : e.fails 0 with
    | true =>
      unfold CreateProcess
      dsimp only
      rw [run_sigaction_fail _ _ _ h0]
      exact ⟨-1, _, rfl, iff_of_true (.refl σ) (.inl rfl)⟩
    | false =>
      rw [or_iff_right Bool.false_ne_true]
      cases h1 : e.fails 1 with
      | true =>
        -- `SIGINT` is ignored from here on
        unfold CreateProcess
        dsimp only
        rw [run_sigaction _ _ _ h0]
        dsimp only
        rw [run_sigaction_fail _ _ _ h1]
        refine ⟨-1, _, rfl, ?_⟩
        constructor
        · intro h
          exact ⟨fun _ => (ign_same_iff _ _ _).mp h.sigint, fun h => Bool.noConfusion h⟩
        · intro h
          exact ⟨(ign_same_iff _ _ _).mpr (h.1 rfl), .refl _, rfl⟩
      | false =>
        cases h2 : e.fails 2 with
        | true =>
          -- both signals are
          unfold CreateProcess
          dsimp only
          rw [run_sigaction _ _ _ h0]
          dsimp only
          rw [run_sigaction _ _ _ h1]
          dsimp only
          rw [run_sigprocmask_fail _ _ _ h2]
          refine ⟨-1, _, rfl, ?_⟩
          constructor
          · intro h
            exact ⟨fun h => Bool.noConfusion h, fun _ _ =>
              ⟨(ign_same_iff _ _ _).mp h.sigint, (ign_same_iff _ _ _).mp h.sigquit⟩⟩
          · intro h
            obtain ⟨hint, hquit⟩ := h.2 rfl rfl
            exact ⟨(ign_same_iff _ _ _).mpr hint, (ign_same_iff _ _ _).mpr hquit, rfl⟩
        | false =>
          have hok := no_call_fails h0 h1 h2 hrestoring
          rw [createProcess_run _ _ _ fun n _ => hok n]
          obtain ⟨ret, w', hrun, hsig⟩ := afterFork_run
            (w := { World.entry σ files waits with
              sig := σ.guarded ⟨.ign, ∅, 0⟩
              sigCalls := 3 })
            NO_WAIT cmdstring hfork hfuel fun n _ => hok n
          refine ⟨ret, w', hrun, iff_of_true ?_
            ⟨fun h => Bool.noConfusion h, fun _ h => Bool.noConfusion h⟩⟩
          rw [hsig.trans (σ.restored_guarded _)]
          exact .refl σ

/-- `fork` fails. -/
theorem leaves_no_trace_iff_fork : ∃ ret w', (CreateProcess false 1 (some ['a'])).run
      (World.sys (.succeeding (-1) allOpen)) (.entry .default stdKernel []) =
        (some (.returned ret), w') ∧ SameSignals w'.sig .default := by
  have hrestoring : ∀ n, 3 ≤ n → (World.Env.succeeding (-1) allOpen).fails n = false :=
    fun _ _ => rfl
  have hfork : (World.Env.succeeding (-1) allOpen).fork ≠ 0 := by decide
  have hfuel : ([] : List Waited).length < 1 := by decide
  obtain ⟨ret, w', hrun, hiff⟩ :=
    leaves_no_trace_iff false (some ['a']) _ hrestoring hfork .default stdKernel [] hfuel
  exact ⟨ret, w', hrun, hiff.mpr (.inr (.inr ⟨nofun, nofun⟩))⟩

/-- The second call of `sigaction` fails: the caller ignores `SIGINT` from now on. -/
theorem sigint_stays_ignored : ∃ w', (CreateProcess false 1 (some ['a'])).run
      (World.sys ⟨fun n => n = 1, 7, allOpen⟩) (.entry .default stdKernel []) =
        (some (.returned (-1)), w') ∧
      (w'.sig.action SIGINT).sa_handler = .ign ∧ ¬ SameSignals w'.sig .default := by
  refine ⟨_, rfl, rfl, fun h => ?_⟩
  cases h.sigint.1

end EngineerLinux.StartProcess
