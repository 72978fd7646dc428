import EngineerLinux.Popen.Model
import EngineerLinux.Lib.Custody
import EngineerLinux.Lib.Monitor

/-!
# Who has the ends of the pipes

Every end of a pipe that is open in the process belongs to a stream in `proc_file_chain` or to one
thread that is inside `popen` or `pclose`; so does every child that has not been waited for.

Both are kept by the same argument, that of the library's `Custody`: a step moves a thing between
two places, or makes it, or does away with it. A program point says what its thread has (`Pc.ends`,
`Pc.child`), so each step of the two functions is one of these moves, and the invariant is two such
statements and that the lock is held where the program points say. What a new command begins with
is then computed from the table at that moment (`lookup_childTable`).

- `Inv`, `inv_of_reachable`: this, for both versions and any order of steps;
- `pipe_ends_iff`: **no descriptor is lost**: between the calls the ends of pipes that are open are
  those of the streams in the chain;
- `inherited_iff`: **what a new command gets**, apart from its own end: the streams that a thread is
  just closing and, in 2.27, also those that are just being opened;
- `waits_for_own`: **every `pclose` waits for the command of its stream**, and for no other one.
-/

namespace EngineerLinux.Popen

open StartProcess LibcSystem

/-! ## Places -/

/-- The ends of pipes that a thread has. -/
def Pc.ends : Pc → List (Int × Desc)
  | .dupfd l | .adddup2 l | .lockSpawn l | .spawn l | .closeChild l _ | .unlockFail l
  | .failChild l => [(l.child_end, ⟨l.childFile, true⟩), (l.parent_end, ⟨l.parentFile, true⟩)]
  | .closeDup l tmp => [(tmp, ⟨l.childFile, true⟩), (l.child_end, ⟨l.childFile, true⟩),
      (l.parent_end, ⟨l.parentFile, true⟩)]
  | .setFd l _ | .failParent l => [(l.parent_end, ⟨l.parentFile, true⟩)]
  | .lockLink l _ | .link l _ => [(l.parent_end, ⟨l.parentFile, l.do_cloexec⟩)]
  | .unlockClose (some st) | .close st => [(st.fileno, st.desc)]
  | _ => []

/-- The child that a thread has to wait for, or to enter into the chain, and its stream. -/
def Pc.child : Pc → List (Nat × Nat)
  | .closeChild l pid | .setFd l pid | .lockLink l pid | .link l pid => [(pid, l.fp)]
  | .unlockClose (some st) | .close st | .wait st => [(st.pid, st.fp)]
  | _ => []

/-- The thread has `proc_file_chain_lock`. -/
def Pc.locked (v : Version) : Pc → Bool
  | .spawn _ | .closeChild _ _ | .setFd _ _ => v = .v2_32
  | .link _ _ | .unlockOpen _ | .unlockFail _ | .unlink _ | .unlockClose _ => true
  | _ => false

/-- The program points of one version only. -/
def Pc.Of (v : Version) : Pc → Prop
  | .lockLink _ _ => v = .v2_27
  | .dupfd _ | .closeDup _ _ | .adddup2 _ | .lockSpawn _ | .unlockFail _ => v = .v2_32
  | _ => True

variable {ι : Type}

/-- What is at each place: the chain, or a thread. -/
def State.at {β : Type} (s : State ι) (f : Pc → List β) (g : Stream → β) : Option ι → List β
  | none => s.proc_file_chain.map g
  | some i => f (s.pc i)

def Stream.end (st : Stream) : Int × Desc := (st.fileno, st.desc)

def Stream.child (st : Stream) : Nat × Nat := (st.pid, st.fp)

def State.ends (s : State ι) : Option ι → List (Int × Desc) := s.at Pc.ends Stream.end

def State.children (s : State ι) : Option ι → List (Nat × Nat) := s.at Pc.child Stream.child

/-- Every child that has not been waited for is at one place, with the stream it was started for;
the children `gone` are at none, and have been started. -/
def Children (gone : Nat → Prop) (s : State ι) : Prop :=
  ∃ unwaited : Nat → Option Nat, Custody.Inv (fun _ => True) unwaited s.children ∧
    (∀ pid fp, unwaited pid = some fp → ∃ kid, s.kids[pid]? = some kid ∧ kid.fp = fp) ∧
    ∀ pid, gone pid → unwaited pid = none ∧ pid < s.kids.length

structure Inv (v : Version) (gone : Nat → Prop) (s : State ι) : Prop where
  ends : Custody.Inv (fun d => d.file.isPipe = true) s.table.lookup s.ends
  children : Children gone s
  monitor : Monitor.Inv (Pc.locked v) (fun _ => True) (fun _ (_ : Unit) => True) s.lock s.pc ()
  version : ∀ i, (s.pc i).Of v

section Places

variable [DecidableEq ι] {s s' : State ι} {i : ι} {p : Pc} {β : Type} {f : Pc → List β}
  {g : Stream → β}

theorem at_self (hpc : s'.pc = Function.update s.pc i p) : s'.at f g (some i) = f p :=
  congrArg f (by rw [hpc, Function.update_self])

theorem at_other (hpc : s'.pc = Function.update s.pc i p)
    (hchain : s'.proc_file_chain = s.proc_file_chain) (q : Option ι) (hq : q ≠ some i) :
    s'.at f g q = s.at f g q := by
  cases q with
  | none => exact congrArg (List.map g) hchain
  | some j =>
    have hj : j ≠ i := fun hj => hq (congrArg some hj)
    exact congrArg f (by rw [hpc, Function.update_of_ne hj])

/-- Another thread than the one that moves, when the chain changes, too. -/
theorem at_thread (hpc : s'.pc = Function.update s.pc i p) (q : Option ι) (hq : q ≠ some i)
    (hnone : q ≠ none) : s'.at f g q = s.at f g q := by
  cases q with
  | none => exact absurd rfl hnone
  | some j =>
    have hj : j ≠ i := fun hj => hq (congrArg some hj)
    exact congrArg f (by rw [hpc, Function.update_of_ne hj])

/-- A thread moves and keeps what it has. -/
theorem at_same (hpc : s'.pc = Function.update s.pc i p)
    (hchain : s'.proc_file_chain = s.proc_file_chain) (hsame : f p = f (s.pc i)) (q : Option ι) :
    s'.at f g q = s.at f g q := by
  by_cases hq : q = some i
  · rw [hq, at_self hpc]
    exact hsame
  · exact at_other hpc hchain q hq

end Places

/-! ## The chain -/

theorem unlink_perm {fp : Nat} {chain rest : List Stream} {st : Stream}
    (h : unlink fp chain = some (st, rest)) : chain.Perm (st :: rest) ∧ st.fp = fp := by
  induction chain generalizing rest with
  | nil => cases h
  | cons x chain ih =>
    unfold unlink at h
    split at h
    · rename_i hx
      cases h
      exact ⟨.refl _, hx⟩
    · obtain ⟨r, hr, heq⟩ := Option.map_eq_some_iff.mp h
      cases heq
      obtain ⟨hperm, hst⟩ := ih hr
      exact ⟨(hperm.cons x).trans (.swap ..), hst⟩

/-! ## Descriptors -/

section Tables

variable {t : FdTable Desc} {fd fd' : Int} {d : Desc}

theorem lookup_clearCloexec (h : t.lookup fd = some d) :
    (clearCloexec t fd).lookup fd' =
      if fd' = fd then some { d with cloexec := false } else t.lookup fd' := by
  unfold clearCloexec
  rw [h]
  exact FdTable.lookup_put h

theorem lookup_dup2 {fd2 : Int} (h : t.lookup fd = some d) (hfd2 : 0 ≤ fd2) :
    (dup2 t fd fd2).lookup fd' =
      if fd' = fd2 then some { d with cloexec := false } else t.lookup fd' := by
  have hdup : (t.dup fd fd2).lookup fd2 = some d := by rw [FdTable.lookup_dup h hfd2, if_pos rfl]
  unfold dup2
  rw [lookup_clearCloexec hdup, FdTable.lookup_dup h hfd2]
  split <;> rfl

theorem lookup_closeChain {std : Int} {chain : List Stream} (hin : ∀ st ∈ chain, 0 ≤ st.fileno) :
    (closeChain std chain t).lookup fd =
      if fd ≠ std ∧ ∃ st ∈ chain, st.fileno = fd then none else t.lookup fd := by
  induction chain generalizing t with
  | nil =>
    rw [if_neg fun h => by simp at h]
    rfl
  | cons st chain ih =>
    unfold closeChain
    rw [ih fun x hx => hin x (List.mem_cons_of_mem _ hx)]
    simp only [List.exists_mem_cons_iff]
    by_cases hrest : fd ≠ std ∧ ∃ x ∈ chain, x.fileno = fd
    · rw [if_pos hrest, if_pos ⟨hrest.1, .inr hrest.2⟩]
    · rw [if_neg hrest]
      by_cases hst : st.fileno ≠ std
      · rw [if_pos hst, FdTable.lookup_free_of_nonneg (hin st (List.mem_cons_self ..))]
        by_cases hfd : fd = st.fileno
        · rw [if_pos hfd, if_pos ⟨fun h => hst (hfd.symm.trans h), .inl hfd.symm⟩]
        · rw [if_neg hfd, if_neg]
          rintro ⟨hne, heq | hmem⟩
          · exact hfd heq.symm
          · exact hrest ⟨hne, hmem⟩
      · rw [if_neg hst, if_neg]
        rintro ⟨hne, heq | hmem⟩
        · exact hst fun h => hne (heq.symm.trans h)
        · exact hrest ⟨hne, hmem⟩

/-- The ends of the other streams are closed, and `execve` closes what is marked so. -/
theorem lookup_closed {t' : FdTable Desc} {chain : List Stream} {l : Local} {d : Desc}
    (hin : ∀ st ∈ chain, 0 ≤ st.fileno)
    (ht' : t'.lookup fd =
      if fd = l.child_pipe_fd then some { d with cloexec := false } else t.lookup fd) :
    ((closeChain l.child_pipe_fd chain t').onExec fun d => !d.cloexec).lookup fd =
      if fd = l.child_pipe_fd then some { d with cloexec := false }
      else if ∃ st ∈ chain, st.fileno = fd then none
      else (t.lookup fd).filter fun d => !d.cloexec := by
  rw [FdTable.lookup_onExec, lookup_closeChain hin, ht']
  by_cases hfd : fd = l.child_pipe_fd
  · rw [if_neg fun h => h.1 hfd, if_pos hfd, if_pos hfd]
    rfl
  · simp only [hfd, ne_eq, not_false_eq_true, true_and, if_false]
    split <;> rfl

/-- The descriptors with which a command begins: its own end, and what is neither closed by the
loop nor by `exec`. -/
theorem lookup_childTable {v : Version} {chain : List Stream} {l : Local} {d : Desc}
    (hchild : t.lookup l.child_end = some d) (hin : ∀ st ∈ chain, 0 ≤ st.fileno) :
    (childTable v t chain l).lookup fd =
      if fd = l.child_pipe_fd then some { d with cloexec := false }
      else if ∃ st ∈ chain, st.fileno = fd then none
      else (t.lookup fd).filter fun d => !d.cloexec := by
  have hstd : 0 ≤ l.child_pipe_fd := by
    unfold Local.child_pipe_fd
    split <;> decide
  cases v with
  | v2_27 =>
    refine lookup_closed hin ?_
    dsimp only
    split
    · exact lookup_dup2 hchild hstd
    · next heq =>
      rw [← not_not.mp heq]
      exact lookup_clearCloexec hchild
  | v2_32 => exact lookup_closed hin (lookup_dup2 hchild hstd)

end Tables

/-! ## One step -/

section Step

variable [DecidableEq ι] {v : Version} {gone : Nat → Prop} {s s' : State ι} {i : ι} {ans : Answer}

/-- A thread moves and keeps its ends. -/
theorem ends_same (h : Custody.Inv (fun d => d.file.isPipe = true) s.table.lookup s.ends) {p : Pc}
    (htable : s'.table = s.table) (hpc : s'.pc = Function.update s.pc i p)
    (hchain : s'.proc_file_chain = s.proc_file_chain) (hsame : p.ends = (s.pc i).ends) :
    Custody.Inv (fun d => d.file.isPipe = true) s'.table.lookup s'.ends := by
  rw [htable]
  exact h.congr (at_same hpc hchain hsame)

/-- A thread closes an end. -/
theorem ends_free (h : Custody.Inv (fun d => d.file.isPipe = true) s.table.lookup s.ends) {p : Pc}
    {n : Int} {d : Desc} (htable : s'.table = s.table.free n)
    (hpc : s'.pc = Function.update s.pc i p) (hchain : s'.proc_file_chain = s.proc_file_chain)
    (hperm : (s.pc i).ends.Perm ((n, d) :: p.ends)) :
    Custody.Inv (fun d => d.file.isPipe = true) s'.table.lookup s'.ends := by
  have hlookup : s.table.lookup n = some d :=
    h.lookup (p := some i) (hperm.mem_iff.mpr (List.mem_cons_self ..))
  refine h.release (p := some i) (k := n) (a := d) (fun n' => ?_) ?_ (at_other hpc hchain)
  · rw [htable]
    exact FdTable.lookup_free hlookup
  · unfold State.ends
    rw [at_self hpc]
    exact hperm

/-- `pipe2` gives the two ends to the thread. -/
theorem ends_pipe2 (h : Custody.Inv (fun d => d.file.isPipe = true) s.table.lookup s.ends) {p : Pc}
    (fp : Nat) (command : Text) (m : Mode) (htable : s'.table = (s.pipe2 fp command m).2)
    (hpc : s'.pc = Function.update s.pc i p) (hchain : s'.proc_file_chain = s.proc_file_chain)
    (hnone : (s.pc i).ends = [])
    (hp : p.ends = (Pc.spawn (s.pipe2 fp command m).1).ends) :
    Custody.Inv (fun d => d.file.isPipe = true) s'.table.lookup s'.ends := by
  let r := s.table.alloc ⟨.pipe fp false, true⟩
  have hread : Custody.Inv (fun d => d.file.isPipe = true) r.2.lookup
      (Function.update s.ends (some i) [(r.1, ⟨.pipe fp false, true⟩)]) := by
    refine h.acquire (p := some i) FdTable.lookup_alloc_fst.2 rfl (fun fd => FdTable.lookup_alloc)
      ?_ fun q hq => Function.update_of_ne hq ..
    rw [Function.update_self]
    show List.Perm _ (_ :: (s.pc i).ends)
    rw [hnone]
  refine hread.acquire (p := some i) (k := (r.2.alloc ⟨.pipe fp true, true⟩).1)
    (a := ⟨.pipe fp true, true⟩) FdTable.lookup_alloc_fst.2 rfl (fun fd => ?_) ?_ fun q hq => ?_
  · rw [htable]
    exact FdTable.lookup_alloc
  · rw [Function.update_self]
    unfold State.ends
    rw [at_self hpc, hp]
    cases hm : m.do_read
    · simp only [Pc.ends, State.pipe2, Local.childFile, Local.parentFile, hm]
      exact .swap ..
    · simp only [Pc.ends, State.pipe2, Local.childFile, Local.parentFile, hm]
      exact .refl _
  · rw [Function.update_of_ne hq]
    exact at_other hpc hchain q hq

/-- The ends over one step of `popen` or `pclose`. -/
theorem Inv.ends_step (h : Inv v gone s) (hstep : procStep v s i ans = some s') :
    Custody.Inv (fun d => d.file.isPipe = true) s'.table.lookup s'.ends := by
  have he := h.ends
  unfold procStep at hstep
  cases hpc : s.pc i <;> simp only [hpc] at hstep
  case idle | wait => cases hstep
  case pipe2 fp command m =>
    cases ans <;> cases v
    case fail.v2_27 | fail.v2_32 =>
      cases hstep
      exact ends_same (p := .idle) he rfl rfl rfl (by rw [hpc]; rfl)
    all_goals
      cases hstep
      refine ends_pipe2 he fp command m rfl rfl rfl (by rw [hpc]; rfl) ?_
      try split
      all_goals rfl
  case dupfd l =>
    cases ans <;> cases hstep
    · refine he.acquire (p := some i) FdTable.lookup_alloc_fst.2 rfl
        (fun fd => FdTable.lookup_alloc) ?_ (at_other rfl rfl)
      unfold State.ends State.at
      simp only [State.goto, Function.update_self, hpc]
      exact .refl _
    · exact ends_same (p := .failChild l) he rfl rfl rfl (by rw [hpc]; rfl)
  case closeDup l tmp =>
    cases hstep
    refine ends_free (p := .adddup2 { l with child_end := tmp }) (n := l.child_end)
      (d := ⟨l.childFile, true⟩) he rfl rfl rfl ?_
    rw [hpc]
    exact .swap ..
  case adddup2 l =>
    cases ans <;> cases hstep
    · exact ends_same (p := .lockSpawn l) he rfl rfl rfl (by rw [hpc]; rfl)
    · exact ends_same (p := .failChild l) he rfl rfl rfl (by rw [hpc]; rfl)
  case lockSpawn l =>
    split at hstep
    · cases hstep
      exact ends_same (p := .spawn l) he rfl rfl rfl (by rw [hpc]; rfl)
    · cases hstep
  case spawn l =>
    cases ans
    · cases hstep
      exact ends_same (p := .closeChild l _) he rfl rfl rfl (by rw [hpc]; rfl)
    · cases v <;> cases hstep
      · exact ends_same (p := .failChild l) he rfl rfl rfl (by rw [hpc]; rfl)
      · exact ends_same (p := .unlockFail l) he rfl rfl rfl (by rw [hpc]; rfl)
  case closeChild l pid =>
    cases hstep
    exact ends_free (p := .setFd l pid) he rfl rfl rfl (by rw [hpc]; exact .refl _)
  case setFd l pid =>
    have hlookup : s.table.lookup l.parent_end = some ⟨l.parentFile, true⟩ := by
      refine he.lookup (p := some i) ?_
      show _ ∈ (s.pc i).ends
      rw [hpc]
      exact List.mem_cons_self ..
    cases hstep
    refine he.assign (p := some i) (k := l.parent_end) (a := ⟨l.parentFile, true⟩)
      (b := ⟨l.parentFile, l.do_cloexec⟩) (l := []) rfl (fun fd => ?_) ?_ ?_ (at_other rfl rfl)
    · cases hcloexec : l.do_cloexec
      · exact lookup_clearCloexec hlookup
      · show s.table.lookup fd = _
        split
        · rename_i heq
          rw [heq, hlookup]
        · rfl
    · show (s.pc i).ends.Perm _
      rw [hpc]
      exact .refl _
    · unfold State.ends State.at
      simp only [State.goto, Function.update_self]
      cases v <;> exact .refl _
  case lockLink l pid =>
    split at hstep
    · cases hstep
      exact ends_same (p := .link l pid) he rfl rfl rfl (by rw [hpc]; rfl)
    · cases hstep
  case link l pid =>
    cases hstep
    refine he.move (p := some i) (q := none) (k := l.parent_end)
      (a := ⟨l.parentFile, l.do_cloexec⟩) nofun ?_ (.refl _)
      fun q hq hnone => at_thread rfl q hq hnone
    show (s.pc i).ends.Perm _
    rw [hpc]
    unfold State.ends
    rw [at_self rfl]
    exact .refl _
  case unlockOpen =>
    cases hstep
    exact ends_same (p := .idle) he rfl rfl rfl (by rw [hpc]; rfl)
  case unlockFail l =>
    cases hstep
    exact ends_same (p := .failChild l) he rfl rfl rfl (by rw [hpc]; rfl)
  case failChild l =>
    cases hstep
    exact ends_free (p := .failParent l) he rfl rfl rfl (by rw [hpc]; exact .refl _)
  case failParent l =>
    cases hstep
    exact ends_free (p := .idle) he rfl rfl rfl (by rw [hpc]; exact .refl _)
  case lockClose fp =>
    split at hstep
    · cases hstep
      exact ends_same (p := .unlink fp) he rfl rfl rfl (by rw [hpc]; rfl)
    · cases hstep
  case unlink fp =>
    split at hstep
    · rename_i st chain hunlink
      cases hstep
      refine he.move (p := none) (q := some i) (k := st.fileno) (a := st.desc) nofun ?_ ?_
        fun q hnone hq => at_thread rfl q hq hnone
      · exact (unlink_perm hunlink).1.map Stream.end
      · unfold State.ends
        rw [at_self rfl]
        show List.Perm _ (_ :: (s.pc i).ends)
        rw [hpc]
        exact .refl _
    · cases hstep
      exact ends_same (p := .unlockClose none) he rfl rfl rfl (by rw [hpc]; rfl)
  case unlockClose found =>
    cases found <;> cases hstep
    · exact ends_same (p := .idle) he rfl rfl rfl (by rw [hpc]; rfl)
    · exact ends_same (p := .close _) he rfl rfl rfl (by rw [hpc]; rfl)
  case close st =>
    cases ans <;> cases hstep
    · exact ends_free (p := .wait st) he rfl rfl rfl (by rw [hpc]; exact .refl _)
    · exact ends_free (p := .idle) he rfl rfl rfl (by rw [hpc]; exact .refl _)

/-- A thread moves and keeps its child. -/
theorem Children.same (h : Children gone s) {p : Pc} (hkids : s'.kids = s.kids)
    (hpc : s'.pc = Function.update s.pc i p) (hchain : s'.proc_file_chain = s.proc_file_chain)
    (hsame : p.child = (s.pc i).child) : Children gone s' := by
  obtain ⟨unwaited, hc, hkid, hgone⟩ := h
  refine ⟨unwaited, hc.congr (at_same hpc hchain hsame), ?_, ?_⟩ <;> rw [hkids]
  · exact hkid
  · exact hgone

/-- The child is gone. -/
theorem Children.drop (h : Children gone s) {p : Pc} {pid f : Nat} (hkids : s'.kids = s.kids)
    (hpc : s'.pc = Function.update s.pc i p) (hchain : s'.proc_file_chain = s.proc_file_chain)
    (hold : (s.pc i).child = [(pid, f)]) (hnew : p.child = []) :
    Children (fun q => gone q ∨ q = pid) s' := by
  obtain ⟨unwaited, hc, hkid, hgone⟩ := h
  refine ⟨Function.update unwaited pid none, ?_, fun pid' fp' h => ?_, fun pid' h => ?_⟩
  · refine hc.release (p := some i) (a := f) (Function.update_apply unwaited pid none) ?_
      (at_other hpc hchain)
    show (s.pc i).child.Perm _
    unfold State.children
    rw [at_self hpc, hold, hnew]
  · rw [hkids]
    rw [Function.update_apply] at h
    split at h
    · cases h
    · exact hkid pid' fp' h
  · rw [hkids, Function.update_apply]
    split
    · rename_i heq
      have hunwaited : unwaited pid = some f := by
        refine hc.lookup (p := some i) ?_
        show _ ∈ (s.pc i).child
        rw [hold]
        exact List.mem_cons_self ..
      obtain ⟨kid, hget, -⟩ := hkid pid f hunwaited
      exact ⟨rfl, heq ▸ (List.getElem?_eq_some_iff.mp hget).1⟩
    · rename_i hne
      exact hgone pid' (h.resolve_right hne)

omit [DecidableEq ι] in
theorem Children.mono {gone' : Nat → Prop} (h : Children gone s) (hle : ∀ q, gone' q → gone q) :
    Children gone' s := by
  obtain ⟨unwaited, hc, hkid, hgone⟩ := h
  exact ⟨unwaited, hc, hkid, fun pid hpid => hgone pid (hle pid hpid)⟩

/-- A child is started. -/
theorem Children.spawn (h : Children gone s) {p : Pc} {kid : Kid}
    (hkids : s'.kids = s.kids ++ [kid]) (hpc : s'.pc = Function.update s.pc i p)
    (hchain : s'.proc_file_chain = s.proc_file_chain) (hold : (s.pc i).child = [])
    (hnew : p.child = [(s.kids.length, kid.fp)]) : Children gone s' := by
  obtain ⟨unwaited, hc, hkid, hgone⟩ := h
  have hnone : unwaited s.kids.length = none := by
    rw [Option.eq_none_iff_forall_ne_some]
    intro fp hfp
    obtain ⟨x, hx, -⟩ := hkid _ fp hfp
    rw [List.getElem?_eq_none (Nat.le_refl _)] at hx
    cases hx
  refine ⟨Function.update unwaited s.kids.length (some kid.fp), ?_, fun pid fp h => ?_,
    fun pid h => ?_⟩
  · refine hc.acquire (p := some i) (a := kid.fp) hnone trivial
      (Function.update_apply unwaited _ _) ?_ (at_other hpc hchain)
    show List.Perm _ (_ :: (s.pc i).child)
    unfold State.children
    rw [at_self hpc, hold, hnew]
  · rw [hkids]
    rw [Function.update_apply] at h
    split at h
    · rename_i heq
      cases h
      exact ⟨kid, by rw [heq, List.getElem?_concat_length], rfl⟩
    · obtain ⟨x, hx, hfp⟩ := hkid pid fp h
      exact ⟨x, by rw [List.getElem?_append_left (List.getElem?_eq_some_iff.mp hx).1, hx], hfp⟩
  · obtain ⟨hpid, hlt⟩ := hgone pid h
    rw [hkids, List.length_append, Function.update_of_ne (Nat.ne_of_lt hlt)]
    exact ⟨hpid, Nat.lt_add_right _ hlt⟩

/-- The children over one step of `popen` or `pclose`. -/
theorem Inv.children_step (h : Inv v gone s) (hstep : procStep v s i ans = some s') :
    Children gone s' := by
  have hc := h.children
  unfold procStep at hstep
  cases hpc : s.pc i <;> simp only [hpc] at hstep
  case idle | wait => cases hstep
  case spawn l =>
    cases ans
    · cases hstep
      exact hc.spawn (p := .closeChild l s.kids.length) rfl rfl rfl (by rw [hpc]; rfl) rfl
    · cases v <;> cases hstep <;> exact hc.same rfl rfl rfl (by rw [hpc]; rfl)
  case link l pid =>
    cases hstep
    obtain ⟨unwaited, hc, hkid, hgone⟩ := hc
    refine ⟨unwaited, ?_, hkid, hgone⟩
    refine hc.move (p := some i) (q := none) (k := pid) (a := l.fp) nofun ?_ (.refl _)
      fun q hq hnone => at_thread rfl q hq hnone
    show (s.pc i).child.Perm _
    rw [hpc]
    unfold State.children
    rw [at_self rfl]
    exact .refl _
  case unlink fp =>
    split at hstep
    · rename_i st chain hunlink
      cases hstep
      obtain ⟨unwaited, hc, hkid, hgone⟩ := hc
      refine ⟨unwaited, ?_, hkid, hgone⟩
      refine hc.move (p := none) (q := some i) (k := st.pid) (a := st.fp) nofun ?_ ?_
        fun q hnone hq => at_thread rfl q hq hnone
      · exact (unlink_perm hunlink).1.map Stream.child
      · unfold State.children
        rw [at_self rfl]
        show List.Perm _ (_ :: (s.pc i).child)
        rw [hpc]
        exact .refl _
    · cases hstep
      exact hc.same (p := .unlockClose none) rfl rfl rfl (by rw [hpc]; rfl)
  case close st =>
    cases ans <;> cases hstep
    · exact hc.same (p := .wait st) rfl rfl rfl (by rw [hpc]; rfl)
    · refine Children.mono ?_ fun q => (.inl : gone q → gone q ∨ q = st.pid)
      exact hc.drop (p := .idle) (f := st.fp) rfl rfl rfl (by rw [hpc]; rfl) rfl
  case unlockClose found =>
    cases found <;> cases hstep <;> exact hc.same rfl rfl rfl (by rw [hpc]; rfl)
  case pipe2 | dupfd | adddup2 =>
    cases ans <;> (try cases v) <;> cases hstep <;> (try split) <;>
      exact hc.same rfl rfl rfl (by rw [hpc]; rfl)
  case setFd =>
    cases hstep
    cases v <;> exact hc.same rfl rfl rfl (by rw [hpc]; rfl)
  all_goals
    (try split at hstep) <;> cases hstep
    exact hc.same rfl rfl rfl (by rw [hpc]; rfl)

/-- The lock over one step. -/
theorem Inv.monitor_step (h : Inv v gone s) (hstep : procStep v s i ans = some s') :
    Monitor.Inv (Pc.locked v) (fun _ => True) (fun _ (_ : Unit) => True) s'.lock s'.pc () := by
  have hm := h.monitor
  have hv := h.version i
  have hi : ∀ b, (s.pc i).locked v = b → (s.pc i).locked v = b := fun _ => id
  unfold procStep at hstep
  cases hpc : s.pc i <;> rw [hpc] at hv <;> simp only [hpc] at hstep <;>
    replace hi := hi _ (congrArg (Pc.locked v) hpc)
  case idle | wait => cases hstep
  case lockSpawn l =>
    obtain rfl : v = .v2_32 := hv
    split at hstep
    · rename_i hfree
      cases hstep
      exact hm.acquire hfree rfl fun _ => trivial
    · cases hstep
  case lockLink | lockClose =>
    split at hstep
    · rename_i hfree
      cases hstep
      exact hm.acquire hfree rfl fun _ => trivial
    · cases hstep
  case pipe2 | dupfd | adddup2 =>
    cases ans <;> (try cases v) <;> cases hstep <;> (try split) <;> exact hm.outside hi rfl
  case closeDup | failChild | failParent =>
    cases hstep
    exact hm.outside hi rfl
  case spawn l =>
    cases ans <;> cases v <;> cases hstep
    · exact hm.outside hi rfl
    · exact hm.inside hi rfl fun _ => trivial
    · exact hm.outside hi rfl
    · exact hm.inside hi rfl fun _ => trivial
  case closeChild | setFd =>
    cases v <;> cases hstep
    · exact hm.outside hi rfl
    · exact hm.inside hi rfl fun _ => trivial
  case link =>
    cases hstep
    exact hm.inside hi rfl fun _ => trivial
  case unlockOpen | unlockFail =>
    cases hstep
    exact hm.release hi rfl fun _ => trivial
  case unlink fp =>
    split at hstep <;> cases hstep <;> exact hm.inside hi rfl fun _ => trivial
  case unlockClose found =>
    cases found <;> cases hstep <;> exact hm.release hi rfl fun _ => trivial
  case close st =>
    cases ans <;> cases hstep <;> exact hm.outside hi rfl

/-- The thread that moves stays in its version. -/
theorem Inv.version_step (h : Inv v gone s) (hstep : procStep v s i ans = some s') :
    ∀ j, (s'.pc j).Of v := by
  have hv := h.version i
  have hmoves : ∃ p, s'.pc = Function.update s.pc i p ∧ p.Of v := by
    unfold procStep at hstep
    cases hpc : s.pc i <;> rw [hpc] at hv <;> simp only [hpc] at hstep
    case idle | wait => cases hstep
    case pipe2 =>
      cases ans <;> cases v <;> cases hstep <;> refine ⟨_, rfl, ?_⟩ <;> (try split) <;>
        trivial
    case dupfd | adddup2 =>
      cases ans <;> cases hstep
      · exact ⟨_, rfl, hv⟩
      · exact ⟨_, rfl, trivial⟩
    case spawn =>
      cases ans
      · cases hstep
        exact ⟨_, rfl, trivial⟩
      · cases v <;> cases hstep
        · exact ⟨_, rfl, trivial⟩
        · exact ⟨_, rfl, rfl⟩
    case setFd =>
      cases hstep
      cases v
      · exact ⟨_, rfl, rfl⟩
      · exact ⟨_, rfl, trivial⟩
    case lockSpawn | lockLink | lockClose | unlink =>
      split at hstep <;> cases hstep <;> exact ⟨_, rfl, trivial⟩
    case unlockClose found => cases found <;> cases hstep <;> exact ⟨_, rfl, trivial⟩
    case close => cases ans <;> cases hstep <;> exact ⟨_, rfl, trivial⟩
    case closeDup =>
      cases hstep
      exact ⟨_, rfl, hv⟩
    all_goals
      cases hstep
      exact ⟨_, rfl, trivial⟩
  obtain ⟨p, hpc, hp⟩ := hmoves
  intro j
  rw [hpc]
  by_cases hj : j = i
  · rw [hj, Function.update_self]
    exact hp
  · rw [Function.update_of_ne hj]
    exact h.version j

end Step

/-! ## Runs -/

section Run

variable [DecidableEq ι] {v : Version} {gone : Nat → Prop} {s s' : State ι}

/-- A thread outside the lock moves and keeps what it has. -/
theorem Inv.goto (h : Inv v gone s) {i : ι} {p : Pc} (hpc : s'.pc = Function.update s.pc i p)
    (htable : s'.table = s.table) (hchain : s'.proc_file_chain = s.proc_file_chain)
    (hlock : s'.lock = s.lock) (hchildren : Children gone s') (hi : (s.pc i).locked v = false)
    (hp : p.locked v = false) (hends : p.ends = (s.pc i).ends) (hversion : p.Of v) :
    Inv v gone s' where
  ends := ends_same h.ends htable hpc hchain hends
  children := hchildren
  monitor := by
    rw [hlock, hpc]
    exact h.monitor.outside hi hp
  version j := by
    rw [hpc]
    by_cases hj : j = i
    · rw [hj, Function.update_self]
      exact hversion
    · rw [Function.update_of_ne hj]
      exact h.version j

/-- `waitpid` is interrupted, or the child is gone. -/
theorem Inv.waited (h : Inv v gone s) {i : ι} {r : Waited}
    (hstep : Popen.step v s (.waited i r) = some s') :
    s' = s ∨ ∃ st, s.pc i = .wait st ∧ Inv v (fun q => gone q ∨ q = st.pid) s' := by
  have hgone : ∀ st n, s.pc i = .wait st →
      Inv v (fun q => gone q ∨ q = st.pid) (s.ret i (.status n)) := by
    intro st n hpc
    have hends : Pc.idle.ends = (s.pc i).ends := by
      rw [hpc]
      rfl
    have hout : (s.pc i).locked v = false := by
      rw [hpc]
      rfl
    have hkeep : Inv v (fun q => gone q ∨ q = st.pid) (s.ret i (.status n)) :=
      { ends := ends_same h.ends rfl rfl rfl hends
        children := h.children.drop (p := .idle) (f := st.fp) rfl rfl rfl (by rw [hpc]; rfl) rfl
        monitor := h.monitor.outside hout rfl
        version := fun j => by
          show (Function.update s.pc i .idle j).Of v
          by_cases hj : j = i
          · rw [hj, Function.update_self]
            trivial
          · rw [Function.update_of_ne hj]
            exact h.version j }
    exact hkeep
  simp only [Popen.step] at hstep
  split at hstep
  · rename_i st status hpc
    cases hstep
    exact .inr ⟨st, hpc, hgone st status hpc⟩
  · cases hstep
    exact .inl rfl
  · rename_i st hpc
    cases hstep
    exact .inr ⟨st, hpc, hgone st (-1) hpc⟩
  · cases hstep

/-- **Step lemma.** -/
theorem Inv.step (h : Inv v gone s) {a : Act ι} (hstep : step v s a = some s') : Inv v gone s' := by
  cases a with
  | popen i command mode =>
    simp only [Popen.step] at hstep
    split at hstep
    · rename_i hpc
      split at hstep <;> cases hstep
      · exact h.goto (i := i) rfl rfl rfl rfl (h.children.same rfl rfl rfl (by rw [hpc]; rfl))
          (by rw [hpc]; rfl) rfl (by rw [hpc]; rfl) trivial
      · exact h.goto (i := i) rfl rfl rfl rfl (h.children.same rfl rfl rfl (by rw [hpc]))
          (by rw [hpc]; rfl) rfl (by rw [hpc]) trivial
    · cases hstep
  | pclose i fp =>
    simp only [Popen.step] at hstep
    split at hstep
    · rename_i hpc
      cases hstep
      exact h.goto (i := i) rfl rfl rfl rfl (h.children.same rfl rfl rfl (by rw [hpc]; rfl))
        (by rw [hpc]; rfl) rfl (by rw [hpc]; rfl) trivial
    · cases hstep
  | step i ans =>
    exact ⟨h.ends_step hstep, h.children_step hstep, h.monitor_step hstep, h.version_step hstep⟩
  | waited i r =>
    rcases h.waited hstep with rfl | ⟨st, -, hs'⟩
    · exact h
    · exact { hs' with children := hs'.children.mono fun _ => .inl }
  | openOwn n cloexec =>
    cases hstep
    refine ⟨?_, h.children, h.monitor, h.version⟩
    refine h.ends.other (k := (s.table.alloc ⟨.other n, cloexec⟩).1) (fun d hd => ?_)
      (fun d hd => ?_) fun fd hfd => ?_
    · rw [FdTable.lookup_alloc_fst.2] at hd
      cases hd
    · have hd : (s.table.alloc ⟨.other n, cloexec⟩).2.lookup _ = some d := hd
      rw [FdTable.lookup_alloc, if_pos rfl] at hd
      cases hd
      exact Bool.false_ne_true
    · show (s.table.alloc ⟨.other n, cloexec⟩).2.lookup fd = _
      rw [FdTable.lookup_alloc, if_neg hfd]
  | closeOwn fd =>
    simp only [Popen.step] at hstep
    split at hstep
    · rename_i n cloexec hlookup
      cases hstep
      refine ⟨?_, h.children, h.monitor, h.version⟩
      refine h.ends.other (k := fd) (fun d hd => ?_) (fun d hd => ?_) fun fd' hfd => ?_
      · rw [hlookup] at hd
        cases hd
        exact Bool.false_ne_true
      · have hd : (s.table.free fd).lookup fd = some d := hd
        rw [FdTable.lookup_free hlookup, if_pos rfl] at hd
        cases hd
      · show (s.table.free fd).lookup fd' = _
        rw [FdTable.lookup_free hlookup, if_neg hfd]
    · cases hstep

/-- **Run lemma.** -/
theorem inv_of_reachable (h : (machine ι v).Reachable s) : Inv v (fun _ => False) s := by
  refine h.induction (fun s hinit => ?_) fun s a t hs ht => hs.step ht
  obtain ⟨htable, hchain, hlock, hpc, hkids⟩ := hinit
  have hnone : ∀ {β : Type} {f : Pc → List β} {g : Stream → β}, f .idle = [] →
      ∀ q, s.at f g q = [] := by
    intro β f g hf q
    cases q with
    | none => exact congrArg (List.map g) hchain
    | some i => exact (congrArg f (hpc i)).trans hf
  refine ⟨.initial (fun fd d hd => ?_) (hnone rfl),
    ⟨fun _ => none, .initial nofun (hnone rfl), nofun, nofun⟩, ?_, fun i => ?_⟩
  · rw [htable fd d hd]
    exact Bool.false_ne_true
  · rw [hlock]
    exact .initial (fun i => by rw [hpc]; rfl) trivial
  · rw [hpc]
    trivial

/-- **The ends of pipes**: each one that is open in the process is at one place; between the calls
they are those of the streams in the chain. -/
theorem pipe_ends_iff (h : (machine ι v).Reachable s) :
    (∀ fd d, s.table.lookup fd = some d → d.file.isPipe = true → ∃! q, (fd, d) ∈ s.ends q) ∧
      (s.proc_file_chain.map Stream.fileno).Nodup ∧
      ((∀ i, s.pc i = .idle ∨ ∃ st, s.pc i = .wait st) → ∀ fd d,
        s.table.lookup fd = some d ∧ d.file.isPipe = true ↔
          ∃ st ∈ s.proc_file_chain, st.fileno = fd ∧ st.desc = d) := by
  have he := (inv_of_reachable h).ends
  refine ⟨fun fd d hd hpipe => ?_, ?_, fun hquiet fd d => ?_⟩
  · obtain ⟨q, hq⟩ := (he.held_iff fd d).mp ⟨hd, hpipe⟩
    exact ⟨q, hq, fun r hr => he.unique r q fd d d hr hq⟩
  · have hnodup := he.nodup none
    unfold State.ends State.at at hnodup
    rw [List.map_map] at hnodup
    exact hnodup
  · rw [he.held_iff]
    constructor
    · rintro ⟨q, hq⟩
      cases q with
      | none =>
        obtain ⟨st, hst, heq⟩ := List.mem_map.mp hq
        obtain ⟨hfd, hd⟩ := Prod.mk.inj heq
        exact ⟨st, hst, hfd, hd⟩
      | some i =>
        have hq : (fd, d) ∈ (s.pc i).ends := hq
        rcases hquiet i with hpc | ⟨st, hpc⟩ <;> rw [hpc] at hq <;> cases hq
    · rintro ⟨st, hst, rfl, rfl⟩
      exact ⟨none, List.mem_map.mpr ⟨st, hst, rfl⟩⟩

/-- Two threads of a process with the three standard descriptors. -/
def start : State Bool :=
  ⟨[some ⟨.other 0, false⟩, some ⟨.other 1, false⟩, some ⟨.other 2, false⟩], [], none,
    fun _ => .idle, 0, [], fun _ => .null⟩

theorem start_init : (machine Bool v).init start := by
  refine ⟨fun fd d hd => ?_, rfl, rfl, fun _ => rfl, rfl⟩
  have hmem := List.mem_of_getElem? (FdTable.lookup_eq_some_iff.mp hd).2
  simp only [start, List.mem_cons, Option.some.injEq, List.not_mem_nil, or_false] at hmem
  rcases hmem with rfl | rfl | rfl <;> rfl

/-- In 2.32 one of them has opened a stream to write to, which it closes; before it has, the other
one is about to start a command. -/
def closing : List (Act Bool) :=
  [.popen false ['c', 'a', 't'] ['w']] ++ List.replicate 8 (.step false .ok) ++
    [.pclose false 0] ++ List.replicate 3 (.step false .ok) ++
    [.popen true ['l', 's'] ['r']] ++ List.replicate 3 (.step true .ok)

theorem pipe_ends_iff_opened : ∃ s,
    (machine Bool .v2_32).exec start (closing.take 9) = some s ∧
      s.table.lookup 4 = some ⟨.pipe 0 true, false⟩ ∧ s.table.lookup 3 = none := by
  refine ⟨_, rfl, ?_, rfl⟩
  have hrun : (machine Bool .v2_32).exec start (closing.take 9) = some _ := rfl
  exact (((pipe_ends_iff ⟨start, _, start_init, hrun⟩).2.2 fun i => .inl (by cases i <;> rfl)) 4
    ⟨.pipe 0 true, false⟩).mpr ⟨_, List.mem_cons_self .., rfl, rfl⟩ |>.1

/-- The thread has a stream that a command started now would get. -/
def Pc.Window (v : Version) (fd : Int) (d : Desc) : Pc → Prop
  | .close st => st.fileno = fd ∧ st.desc = d ∧ d.cloexec = false
  | .unlockClose (some st) => v = .v2_27 ∧ st.fileno = fd ∧ st.desc = d ∧ d.cloexec = false
  | .lockLink l _ | .link l _ =>
    v = .v2_27 ∧ l.parent_end = fd ∧ d = ⟨l.parentFile, false⟩ ∧ l.do_cloexec = false
  | _ => False

omit [DecidableEq ι] in
/-- While a command is started in 2.32 the lock is held, so that no other thread has it. -/
theorem Inv.window_iff (h : Inv v gone s) {i j : ι} {l : Local} (hpc : s.pc i = .spawn l) {fd : Int}
    {d : Desc} : (s.pc j).Window v fd d ↔ (fd, d) ∈ (s.pc j).ends ∧ d.cloexec = false := by
  have hother : (s.pc j).locked v = true → v = .v2_27 ∨ s.pc j = .spawn l := by
    intro hj
    cases v
    · exact .inl rfl
    · obtain rfl := h.monitor.unique (i := i) (by rw [hpc]; rfl) hj
      exact .inr hpc
  have hversion := h.version j
  cases hpcj : s.pc j <;> rw [hpcj] at hother hversion
  case unlockClose found =>
    cases found with
    | none => exact iff_of_false id fun h => nomatch h.1
    | some st =>
      have hv : v = .v2_27 := (hother rfl).resolve_right nofun
      simp only [Pc.Window, Pc.ends, List.mem_singleton, Prod.mk.injEq, hv, true_and, and_assoc,
        eq_comm (a := fd), eq_comm (a := d)]
  case close st =>
    simp only [Pc.Window, Pc.ends, List.mem_singleton, Prod.mk.injEq, and_assoc,
      eq_comm (a := fd), eq_comm (a := d)]
  case lockLink m pid | link m pid =>
    have hv : v = .v2_27 := by first | exact hversion | exact (hother rfl).resolve_right nofun
    simp only [Pc.Window, Pc.ends, List.mem_singleton, Prod.mk.injEq, hv, true_and, and_assoc,
      eq_comm (a := fd)]
    refine and_congr_right fun _ => ⟨?_, ?_⟩
    · rintro ⟨rfl, hc⟩
      exact ⟨by rw [hc], rfl⟩
    · rintro ⟨rfl, hc⟩
      exact ⟨by rw [show m.do_cloexec = false from hc], hc⟩
  all_goals
    refine iff_of_false id fun hmem => ?_
    have hall : ∀ e ∈ (s.pc j).ends, e.2.cloexec = true := by
      rw [hpcj]
      simp [Pc.ends]
    rw [hpcj] at hall
    exact Bool.false_ne_true (hmem.2.symm.trans (hall _ hmem.1))

/-- **What a command begins with**, in 2.32 and in 2.27: its own end of its pipe; of the streams of
the process those that a thread has taken out of the chain and not closed yet and, in 2.27, those
that a thread has opened and not entered yet; the descriptors of the program itself. -/
theorem inherited_iff (h : (machine ι v).Reachable s) {i : ι} {l : Local}
    (hpc : s.pc i = .spawn l) (hstep : procStep v s i .ok = some s') :
    ∃ kid, s'.kids = s.kids ++ [kid] ∧ kid.fp = l.fp ∧
      kid.table.lookup l.child_pipe_fd = some ⟨l.childFile, false⟩ ∧
      ∀ fd d, fd ≠ l.child_pipe_fd →
        (kid.table.lookup fd = some d ↔
          if d.file.isPipe then ∃ j, (s.pc j).Window v fd d
          else s.table.lookup fd = some d ∧ d.cloexec = false) := by
  have hinv := inv_of_reachable h
  have he := hinv.ends
  have hkids : s'.kids = s.kids ++ [s.kid v l] := by
    unfold procStep at hstep
    simp only [hpc] at hstep
    cases hstep
    rfl
  have hchild : s.table.lookup l.child_end = some ⟨l.childFile, true⟩ := by
    refine he.lookup (p := some i) ?_
    show _ ∈ (s.pc i).ends
    rw [hpc]
    exact List.mem_cons_self ..
  have hmem : ∀ st ∈ s.proc_file_chain, (st.fileno, st.desc) ∈ s.ends none :=
    fun st hst => List.mem_map.mpr ⟨st, hst, rfl⟩
  have hin : ∀ st ∈ s.proc_file_chain, 0 ≤ st.fileno := fun st hst =>
    (FdTable.lookup_eq_some_iff.mp (he.lookup (hmem st hst))).1
  refine ⟨s.kid v l, hkids, rfl, ?_, fun fd d hfd => ?_⟩
  · show (childTable v s.table s.proc_file_chain l).lookup _ = _
    rw [lookup_childTable hchild hin, if_pos rfl]
  · show (childTable v s.table s.proc_file_chain l).lookup fd = some d ↔ _
    rw [lookup_childTable hchild hin, if_neg hfd]
    have hkept : (s.table.lookup fd).filter (fun d => !d.cloexec) = some d ↔
        s.table.lookup fd = some d ∧ d.cloexec = false := by
      rw [Option.filter_eq_some_iff, Bool.not_eq_true']
    by_cases hchain : ∃ st ∈ s.proc_file_chain, st.fileno = fd
    · obtain ⟨st, hst, rfl⟩ := hchain
      rw [if_pos ⟨st, hst, rfl⟩]
      -- a stream in the chain: it is closed, and no thread has it
      refine iff_of_false nofun fun hd => ?_
      have hlookup := he.lookup (hmem st hst)
      split at hd
      · obtain ⟨j, hj⟩ := hd
        cases he.unique (some j) none st.fileno d st.desc ((hinv.window_iff hpc).mp hj).1
          (hmem st hst)
      · rename_i hpipe
        obtain rfl : st.desc = d := Option.some.inj (hlookup.symm.trans hd.1)
        exact hpipe ((he.held_iff _ _).mpr ⟨none, hmem st hst⟩).2
    · rw [if_neg hchain, hkept]
      split
      · rename_i hpipe
        constructor
        · rintro ⟨hd, hcloexec⟩
          obtain ⟨q, hq⟩ := (he.held_iff fd d).mp ⟨hd, hpipe⟩
          cases q with
          | none =>
            obtain ⟨st, hst, heq⟩ := List.mem_map.mp hq
            exact absurd ⟨st, hst, (Prod.mk.inj heq).1⟩ hchain
          | some j => exact ⟨j, (hinv.window_iff hpc).mpr ⟨hq, hcloexec⟩⟩
        · rintro ⟨j, hj⟩
          obtain ⟨hends, hcloexec⟩ := (hinv.window_iff hpc).mp hj
          exact ⟨he.lookup (p := some j) hends, hcloexec⟩
      · rfl

/-- The command `ls` begins with the stream of `cat` that is just being closed. -/
theorem inherited_iff_closing : ∃ s s' kid,
    (machine Bool .v2_32).exec start closing = some s ∧
      procStep .v2_32 s true .ok = some s' ∧ s'.kids[1]? = some kid ∧
      kid.table.lookup 4 = some ⟨.pipe 0 true, false⟩ := by
  have hrun : (machine Bool .v2_32).exec start closing = some _ := rfl
  obtain ⟨kid, hkids, -, -, hall⟩ := inherited_iff ⟨start, _, start_init, hrun⟩ (i := true) rfl rfl
  refine ⟨_, _, kid, rfl, rfl, ?_, ?_⟩
  · rw [hkids]
    rfl
  · exact (hall 4 ⟨.pipe 0 true, false⟩ (by decide)).mpr ⟨false, rfl, rfl, rfl⟩

/-- **Every `pclose` waits for the command of its stream**, which no other call waits for; when it
has been waited for, or `waitpid` has failed, no call waits for it again. -/
theorem waits_for_own (h : (machine ι v).Reachable s) {i : ι} {st : Stream}
    (hpc : s.pc i = .wait st) :
    (∃ kid, s.kids[st.pid]? = some kid ∧ kid.fp = st.fp) ∧
      (∀ j st', s.pc j = .wait st' → st'.pid = st.pid → j = i) ∧
      ∀ r s' as t, step v s (.waited i r) = some s' → s'.pc i = .idle →
        (machine ι v).exec s' as = some t → ∀ j st', t.pc j = .wait st' → st'.pid ≠ st.pid := by
  have hinv := inv_of_reachable h
  obtain ⟨unwaited, hc, hkid, -⟩ := hinv.children
  have hat : ∀ {j : ι} {st : Stream}, s.pc j = .wait st →
      (st.pid, st.fp) ∈ s.children (some j) := by
    intro j st hpc
    show _ ∈ (s.pc j).child
    rw [hpc]
    exact List.mem_cons_self ..
  refine ⟨hkid _ _ (hc.lookup (hat hpc)), fun j st' hpcj hpid => ?_, ?_⟩
  · have hj := hat hpcj
    rw [hpid] at hj
    exact Option.some.inj (hc.unique _ _ _ _ _ hj (hat hpc))
  · intro r s' as t hstep hidle hrun j st' hpcj hpid
    rcases hinv.waited hstep with rfl | ⟨st₁, hpc₁, hs'⟩
    · cases hpc.symm.trans hidle
    · obtain rfl : st = st₁ := Pc.wait.inj (hpc.symm.trans hpc₁)
      have ht := Machine.exec_guarded_induction (G := fun _ _ => True)
        (fun u a w hu _ hw => hu.step hw) hs' Machine.allSteps_true hrun
      obtain ⟨unwaited', hc', -, hgone⟩ := ht.children
      have hwait : unwaited' st'.pid = some st'.fp := by
        refine hc'.lookup (p := some j) ?_
        show _ ∈ (t.pc j).child
        rw [hpcj]
        exact List.mem_cons_self ..
      cases (hgone st'.pid (.inr hpid)).1.symm.trans hwait

theorem waits_for_own_closing : ∃ s st kid,
    (machine Bool .v2_32).exec start (closing ++ [.step false .ok]) = some s ∧
      s.pc false = .wait st ∧ s.kids[st.pid]? = some kid ∧ kid.fp = st.fp := by
  have hrun : (machine Bool .v2_32).exec start (closing ++ [.step false .ok]) = some _ := rfl
  obtain ⟨⟨kid, hkid, hfp⟩, -⟩ := waits_for_own ⟨start, _, start_init, hrun⟩ (i := false) rfl
  exact ⟨_, _, kid, rfl, rfl, hkid, hfp⟩

end Run

end EngineerLinux.Popen
