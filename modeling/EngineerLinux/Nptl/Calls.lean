import EngineerLinux.Nptl.Owners
import Mathlib.Algebra.BigOperators.Group.List.Basic

/-!
# What a call does

One lemma for each call of the programs: what its thread has to know, and what it knows then. All of
them keep `J`, whatever the other threads are at.

A lemma `runs_..` is about a call in front of a rest of the program, so that the functions are gone
through from call to call without unfolding the machine again (`Functions`). Where the answer of a
call depends on more than what its thread owns, `answer_..` says before what it can be.

- `runs_read`, `runs_write`: calls that read what the thread owns, or write to it;
- `runs_mmap`, `runs_clone`, `runs_munmap`, `runs_keep_handle`: a descriptor gets an owner, or is
  given up;
- `runs_lll_lock`, `runs_list_add_cache`, `runs_list_del_cache`: the lock, and what is done with it;
- `runs_cas_joinid`: `joinid` is never that of the caller (`pthread_join_common.c` 120-124), so the
  comparison fails and nothing is stored;
- `runs_exit_thread`: the end of a thread.
-/

namespace EngineerLinux.Nptl

section Calls

variable {P R T : Type} [DecidableEq P] {cfg : Config} {s s' : State P} {G : P → Ghost P}
  {st : P → Status P} {i p : P} {g : Ghost P} {I : Inside P} {h : Held P}

/-- Thread `i` may run the program when it knows `g`; when it returns, `Q`. -/
abbrev Runs (cfg : Config) (i : P) (g : Ghost P) (q : Prog (Calls P) R)
    (Q : R → Ghost P → Prop) : Prop :=
  Safe answer (J cfg) i Q q g

theorem J.same (hJ : J cfg s G) (hg : G i = g) : J cfg s (Function.update G i g) := by
  rw [← hg, Function.update_eq_self]
  exact hJ

/-! ## Reading -/

/-- A call that changes nothing. -/
theorem runs_read {c : Call P} {Q : c.Ans → Prop}
    (hsame : ∀ e s a s', answer i c e s = some (a, s') → s' = s)
    (hQ : ∀ s st G e a s', JAt cfg s G st → G i = g → answer i c e s = some (a, s') → Q a) :
    Runs cfg i g (perform c) fun a g' => Q a ∧ g' = g := by
  refine Safe.perform fun s G hJ hg e a s' hans => ⟨g, ?_, ?_, rfl⟩
  · rw [hsame e s a s' hans]
    exact hJ.same hg
  · obtain ⟨st, hJ⟩ := hJ
    exact hQ s st G e a s' hJ hg hans

/-- A call that changes nothing, and of which nothing is to be known. -/
theorem runs_skip {c : Call P} (hsame : ∀ e s a s', answer i c e s = some (a, s') → s' = s) :
    Runs cfg i g (perform c) fun _ g' => g' = g :=
  (runs_read (Q := fun _ => True) hsame fun _ _ _ _ _ _ _ _ _ => trivial).imp fun _ _ h => h.2

theorem runs_prepare : Runs cfg i g prepare fun _ g' => g' = g :=
  runs_skip fun e _ _ _ hans => by cases e <;> cases hans <;> rfl

theorem runs_cancelhandling (pd : P) : Runs cfg i g (cancelhandling pd) fun _ g' => g' = g :=
  runs_skip fun e _ _ _ hans => by cases e <;> cases hans <;> rfl

theorem runs_joinid (pd : P) : Runs cfg i g (joinid pd) fun _ g' => g' = g :=
  runs_skip fun _ _ _ _ hans => by cases hans; rfl

/-- The owner knows what it reads. -/
theorem runs_read_desc {c : Call P} {f : Block P → c.Ans} (hstack : g.stack = some (p, h))
    (hf : ∀ b, f b.settled = f b) (hans : ∀ e s, answer i c e s = some (f (s.block p), s)) :
    Runs cfg i g (perform c) fun a g' => a = f h.desc ∧ g' = g := by
  refine runs_read (fun e s a s' hcall => ?_) fun s st G e a s' hJ hg hcall => ?_
  · cases (hans e s).symm.trans hcall
    rfl
  · cases (hans e s).symm.trans hcall
    rw [← hJ.desc hg hstack, hf]

theorem runs_stackblock_size (hstack : g.stack = some (p, h)) :
    Runs cfg i g (stackblock_size p) fun a g' => a = h.desc.stackblock_size ∧ g' = g :=
  runs_read_desc (c := .stackblock_size p) (f := Block.stackblock_size) hstack (fun _ => rfl)
    fun _ _ => rfl

theorem runs_guardsize (hstack : g.stack = some (p, h)) :
    Runs cfg i g (guardsize p) fun a g' => a = h.desc.guardsize ∧ g' = g :=
  runs_read_desc (c := .guardsize p) (f := Block.guardsize) hstack (fun _ => rfl)
    fun _ _ => rfl

theorem runs_user_stack (hstack : g.stack = some (p, h)) :
    Runs cfg i g (user_stack p) fun a g' => a = h.desc.user_stack ∧ g' = g :=
  runs_read_desc (c := .user_stack p) (f := Block.user_stack) hstack (fun _ => rfl)
    fun _ _ => rfl

/-- The sizes of cached stacks are known with the lock. -/
theorem runs_stackblock_size_cached {n : Nat} (hin : g.inside = some I) (hmem : (p, n) ∈ I.cache) :
    Runs cfg i g (stackblock_size p) fun a g' => a = n ∧ g' = g := by
  refine runs_read (fun e s a s' hans => ?_) fun s st G e a s' hJ hg hans => ?_
  · cases hans
    rfl
  · cases hans
    exact (hJ.inside hg hin).size p n hmem

/-! ## Writing -/

/-- What the owner of a listed descriptor may write to it. -/
structure Writes (f : Block P → Block P) : Prop where
  settled : ∀ b, (f b).settled = (f b.settled).settled
  alive : ∀ b, (f b).alive = b.alive
  mem : ∀ b, (f b).mem = b.mem
  user_stack : ∀ b, (f b).user_stack = b.user_stack
  handle : ∀ b, (f b).handle = b.handle
  leaked : ∀ b, (f b).leaked = b.leaked

/-- A call that writes to a descriptor of the thread. -/
theorem runs_write {c : Call P} {f : Block P → Block P} {Q : c.Ans → Prop} (hf : Writes f)
    (hstack : g.stack = some (p, h))
    (hans : ∀ e s a s', (s.block p).settled = h.desc → answer i c e s = some (a, s') →
      s' = s.setBlock p (f (s.block p)) ∧ Q a)
    (hjoinid : ∀ b : Block P, b.settled = h.desc → b.joinid ≠ some p →
      (f b).joinid ≠ some p ∨ p = i)
    (hfits : h.dead = true ∨
      ∀ b : Block P, (f b).tid = b.tid ∧ ((f b).Fits cfg ↔ b.Fits cfg)) :
    Runs cfg i g (perform c) fun a g' =>
      Q a ∧ g' = { g with stack := some (p, { h with desc := (f h.desc).settled }) } := by
  refine Safe.perform fun s G ⟨st, hJ⟩ hg e a s' hcall => ?_
  have hdesc := hJ.desc hg hstack
  obtain ⟨rfl, hQ⟩ := hans e s a s' hdesc hcall
  refine ⟨{ g with stack := some (p, { h with desc := (f h.desc).settled }) },
    hJ.put _ hg hstack rfl ⟨?_, ?_⟩ (hf.alive _) (hf.user_stack _) ?_ ?_, hQ, rfl⟩
  · rw [hf.settled, hdesc]
  · rw [hf.alive]
    exact (hJ.holds i p h (by rw [hg]; exact hstack)).dead
  · have hok := hJ.ledger.ok p
    rw [hJ.status hg hstack] at hok
    obtain ⟨hmem, hhandle, hleaked, halive⟩ := hok
    refine ⟨?_, ?_, ?_, fun ha hi => ?_⟩
    · rw [hf.mem, hmem, Block.home, Block.home, hf.user_stack]
    · rw [hf.handle, hhandle]
    · rw [hf.leaked]
      exact hleaked
    · rw [hf.alive] at ha
      obtain ⟨hlisted, hne⟩ := halive ha hi
      exact ⟨hlisted, (hjoinid _ hdesc hne).resolve_right hi⟩
  · intro ha
    rw [hf.alive] at ha
    obtain hdead | hsame := hfits
    · cases ha.symm.trans ((hJ.holds i p h (by rw [hg]; exact hstack)).dead hdead)
    · rw [(hsame _).1, (hsame _).2]
      exact hJ.started p ha

theorem runs_set_guardsize {n : Nat} (hstack : g.stack = some (p, h)) (hdead : h.dead = true) :
    Runs cfg i g (perform (.set_guardsize p n)) fun _ g' => g' =
      { g with stack := some (p, { h with desc := { h.desc with guardsize := n }.settled }) } :=
  (runs_write (f := fun b => { b with guardsize := n }) (Q := fun _ => True)
    ⟨fun _ => rfl, fun _ => rfl, fun _ => rfl, fun _ => rfl, fun _ => rfl, fun _ => rfl⟩ hstack
    (fun e s a s' _ hans => by cases hans; exact ⟨rfl, trivial⟩) (fun _ _ => .inl) (.inl hdead)).imp
      fun _ _ h => h.2

theorem runs_reuse (hstack : g.stack = some (p, h)) (hdead : h.dead = true) :
    Runs cfg i g (perform (.reuse p)) fun _ g' => g' = { g with
      stack := some (p, { h with desc := { h.desc with TERMINATED := false }.settled }) } :=
  (runs_write (f := fun b => { b with TERMINATED := false }) (Q := fun _ => True)
    ⟨fun _ => rfl, fun _ => rfl, fun _ => rfl, fun _ => rfl, fun _ => rfl, fun _ => rfl⟩ hstack
    (fun e s a s' _ hans => by cases hans; exact ⟨rfl, trivial⟩) (fun _ _ => .inl) (.inl hdead)).imp
      fun _ _ h => h.2

theorem runs_init {attr : Attr P} (hstack : g.stack = some (p, h)) (hdead : h.dead = true) :
    Runs cfg i g (perform (.init p attr)) fun _ g' => g' =
      { g with stack := some (p, { h with
          desc := { h.desc with
            joinid := if attr.detachstate then some p else none, attr }.settled }) } := by
  refine Safe.perform fun s G ⟨st, hJ⟩ hg e a s' hcall => ⟨_, ?_, rfl⟩
  cases hcall
  have hdesc := hJ.desc hg hstack
  have halive := (hJ.holds i p h (by rw [hg]; exact hstack)).dead hdead
  refine hJ.put _ hg hstack rfl ⟨?_, fun _ => halive⟩ rfl rfl ?_ ?_
  · rw [← hdesc]
    rfl
  · have hok := hJ.ledger.ok p
    rw [hJ.status hg hstack] at hok
    exact ⟨hok.1, hok.2.1, hok.2.2.1, fun ha => absurd (halive.symm.trans ha) Bool.false_ne_true⟩
  · exact fun ha => absurd (halive.symm.trans ha) Bool.false_ne_true

theorem runs_set_tid {n : Int} (hstack : g.stack = some (p, h)) (hdead : h.dead = true) :
    Runs cfg i g (perform (.set_tid p n)) fun _ g' => g' =
      { g with stack := some (p, { h with desc := h.desc.settled }) } :=
  (runs_write (f := fun b => { b with tid := n }) (Q := fun _ => True)
    ⟨fun _ => rfl, fun _ => rfl, fun _ => rfl, fun _ => rfl, fun _ => rfl, fun _ => rfl⟩ hstack
    (fun e s a s' _ hans => by cases hans; exact ⟨rfl, trivial⟩) (fun _ _ => .inl) (.inl hdead)).imp
      fun _ _ h => h.2

theorem runs_clear_joinid (hstack : g.stack = some (p, h)) :
    Runs cfg i g (perform (.clear_joinid p)) fun _ g' => g' =
      { g with stack := some (p, { h with desc := { h.desc with joinid := none }.settled }) } :=
  (runs_write (f := fun b => { b with joinid := none }) (Q := fun _ => True)
    ⟨fun _ => rfl, fun _ => rfl, fun _ => rfl, fun _ => rfl, fun _ => rfl, fun _ => rfl⟩ hstack
    (fun e s a s' _ hans => by cases hans; exact ⟨rfl, trivial⟩)
    (fun _ _ _ => .inl (Option.some_ne_none p).symm)
    (.inr fun _ => ⟨rfl, Iff.rfl⟩)).imp fun _ _ h => h.2

theorem answer_cas_joinid (e : Env P) : answer i (.cas_joinid p) e s =
    if (s.block p).joinid = some i ∧ e = .ok then
      some (true, s.setBlock p { s.block p with joinid := none })
    else some (false, s) := rfl

/-- The owner alone can be the one that waits, and nothing is stored for it. -/
theorem runs_cas_joinid (hstack : g.stack = some (p, h)) (hnone : h.desc.joinid = none) :
    Runs cfg i g (cas_joinid p) fun a g' => a = false ∧ g' = g := by
  refine Safe.perform fun s G ⟨st, hJ⟩ hg e a s' hcall => ⟨g, ?_⟩
  have hread : (s.block p).joinid = none := by
    rw [← hJ.desc hg hstack] at hnone
    exact hnone
  rw [answer_cas_joinid, if_neg (by simp [hread])] at hcall
  cases hcall
  exact ⟨J.same ⟨st, hJ⟩ hg, rfl, rfl⟩

theorem runs_test_set_terminated (hstack : g.stack = some (p, h)) :
    Runs cfg i g (test_set_terminated p) fun a g' => a = h.desc.TERMINATED ∧ g' =
      { g with stack := some (p, { h with desc := { h.desc with TERMINATED := true }.settled }) } :=
  runs_write (f := fun b => { b with TERMINATED := true }) 
    (Q := fun a : (Call.test_set_terminated p).Ans => a = h.desc.TERMINATED)
    ⟨fun _ => rfl, fun _ => rfl, fun _ => rfl, fun _ => rfl, fun _ => rfl, fun _ => rfl⟩ hstack
    (fun e s a s' hdesc hans => by cases hans; exact ⟨rfl, by rw [← hdesc]; rfl⟩) (fun _ _ => .inl)
    (.inr fun _ => ⟨rfl, Iff.rfl⟩)

/-! ## Waiting for a thread -/

theorem answer_wait_tid (e : Env P) : answer i (.wait_tid p) e s =
    match e with
    | .waited .ended => if (s.block p).tid = 0 then some (.ended, s) else none
    | .waited w => some (w, s)
    | _ => none := rfl

/-- When the kernel has cleared `tid`, no thread runs on the stack. -/
theorem runs_wait_tid (hstack : g.stack = some (p, h)) :
    Runs cfg i g (wait_tid p) fun a g' => g' =
      if a = .ended then { g with stack := some (p, { h with dead := true }) } else g := by
  refine Safe.perform fun s G ⟨st, hJ⟩ hg e a s' hcall => ⟨_, ?_, rfl⟩
  have hst := hJ.status hg hstack
  have hholds := hJ.holds i p h (by rw [hg]; exact hstack)
  have hok := hJ.ledger.ok p
  rw [hst] at hok
  rw [answer_wait_tid] at hcall
  split at hcall
  · split at hcall
    · next htid =>
      cases hcall
      have halive : (s.block p).alive = false := by
        by_contra hne
        have hpos := (hJ.started p (by simpa using hne)).1
        omega
      rw [if_pos rfl]
      have hput := hJ.put (b := s.block p) { h with dead := true } hg hstack rfl
        ⟨hholds.desc, fun _ => halive⟩ rfl rfl hok (hJ.started p)
      rw [State.setBlock, Function.update_eq_self] at hput
      exact hput
    · cases hcall
  · next w hw =>
    cases hcall
    rw [if_neg (fun heq => hw (by rw [heq]))]
    exact J.same ⟨st, hJ⟩ hg
  · cases hcall

/-! ## Descriptors that get an owner -/

theorem answer_mmap {size guard : Nat} (e : Env P) : answer i (.mmap size guard) e s =
    match e with
    | .thread pd =>
      if (s.block pd).mem = .none ∧ (s.block pd).alive = false ∧ size < 18446744073709551616 then
        some (some pd, s.setBlock pd { s.block pd with
          stackblock_size := size, guardsize := guard, user_stack := false, tid := 0
          joinid := none, TERMINATED := false, mem := .mapped })
      else none
    | .fail => some (none, s)
    | _ => none := rfl

/-- An owned stack that no thread runs on. -/
structure Held.Fresh (h : Held P) (listed user : Bool) : Prop where
  listed : h.listed = listed
  dead : h.dead = true
  user_stack : h.desc.user_stack = user

/-- Memory that is not in use is taken for a stack. -/
theorem JAt.allocate (hJ : JAt cfg s G st) (hg : G i = g) (hstack : g.stack = none) {b : Block P}
    (hmem : (s.block p).mem = .none) (halive : (s.block p).alive = false)
    (hb : b.alive = false) (hhome : b.mem = b.home) (hhandle : b.handle = (s.block p).handle)
    (hleaked : b.leaked = (s.block p).leaked) :
    J cfg (s.setBlock p b)
      (Function.update G i { g with stack := some (p, ⟨false, true, b.settled⟩) }) := by
  have hst := hJ.ledger.absent hmem
  have hok := hJ.ledger.ok p
  rw [hst] at hok
  obtain ⟨-, hno, hnot, -⟩ := hok
  refine ⟨_, hJ.take _ hg hstack ?_ ?_ ?_ ⟨rfl, fun _ => hb⟩ (hb.trans halive.symm) ?_ ?_⟩
  · rw [hst]
    simp
  · rw [hst]
    simp
  · rw [hst]
    rfl
  · refine ⟨hhome, hhandle.trans hno, hleaked.trans hnot, fun ha => ?_⟩
    cases ha.symm.trans hb
  · exact fun ha => absurd (hb.symm.trans ha) Bool.false_ne_true

theorem runs_mmap {size guard : Nat} (hstack : g.stack = none) :
    Runs cfg i g (mmap size guard) fun a g' =>
      match a with
      | none => g' = g
      | some pd => ∃ h, g' = { g with stack := some (pd, h) } ∧ h.Fresh false false ∧
          h.desc.stackblock_size = size ∧ h.desc.guardsize = guard ∧ h.desc.TERMINATED = false := by
  refine Safe.perform fun s G ⟨st, hJ⟩ hg e a s' hcall => ?_
  rw [answer_mmap] at hcall
  split at hcall
  · split at hcall
    · next pd hfree =>
      cases hcall
      obtain ⟨hmem, halive, -⟩ := hfree
      exact ⟨_, hJ.allocate (p := pd) (b := { s.block pd with
          stackblock_size := size, guardsize := guard, user_stack := false, tid := 0
          joinid := none, TERMINATED := false, mem := .mapped })
        hg hstack hmem halive halive rfl rfl rfl, _, rfl, ⟨rfl, rfl, rfl⟩, rfl, rfl, rfl⟩
    · cases hcall
  · cases hcall
    exact ⟨g, J.same ⟨st, hJ⟩ hg, rfl⟩
  · cases hcall

theorem answer_provide {size : Nat} (e : Env P) : answer i (.provide p size) e s =
    if (s.block p).mem = .none ∧ (s.block p).alive = false then
      some ((), s.setBlock p { s.block p with
        stackblock_size := size, guardsize := 0, user_stack := true, tid := 0, joinid := none
        TERMINATED := false, mem := .user })
    else none := rfl

theorem runs_provide {size : Nat} (hstack : g.stack = none) :
    Runs cfg i g (perform (.provide p size)) fun _ g' =>
      ∃ h, g' = { g with stack := some (p, h) } ∧ h.Fresh false true ∧
        h.desc.stackblock_size = size ∧ h.desc.TERMINATED = false := by
  refine Safe.perform fun s G ⟨st, hJ⟩ hg e a s' hcall => ?_
  rw [answer_provide] at hcall
  split at hcall
  · next hfree =>
    cases hcall
    obtain ⟨hmem, halive⟩ := hfree
    exact ⟨_, hJ.allocate (p := p) (b := { s.block p with
        stackblock_size := size, guardsize := 0, user_stack := true, tid := 0, joinid := none
        TERMINATED := false, mem := .user }) hg hstack hmem halive halive rfl rfl rfl,
      _, rfl, ⟨rfl, rfl, rfl⟩, rfl, rfl⟩
  · cases hcall

/-! ## Descriptors that are given up -/

theorem runs_munmap {user : Bool} (hstack : g.stack = some (p, h)) (hfresh : h.Fresh false user) :
    Runs cfg i g (perform (.munmap p)) fun _ g' => g' = { g with stack := none } := by
  refine Safe.perform fun s G ⟨st, hJ⟩ hg e a s' hcall => ⟨_, ?_, rfl⟩
  cases hcall
  have halive := (hJ.holds i p h (by rw [hg]; exact hstack)).dead hfresh.dead
  have hok := hJ.ledger.ok p
  rw [hJ.status hg hstack] at hok
  refine hJ.drop (t := .absent) hg hstack (by simp) ?_ ?_ ?_ ?_
  · rw [hfresh.listed]
    rfl
  · exact ⟨rfl, hok.2.1, hok.2.2.1, fun ha => absurd (halive.symm.trans ha) Bool.false_ne_true⟩
  · have hphase := hJ.phase p
    rw [halive] at hphase
    show (G p).phase.Ok (s.block p).alive .absent
    rw [halive]
    exact hphase.dead
  · exact fun ha => absurd (halive.symm.trans ha) Bool.false_ne_true

theorem runs_give_back (hstack : g.stack = some (p, h)) (hlisted : h.listed = false)
    (huser : h.desc.user_stack = true) (hrel : g.Releases i p h) :
    Runs cfg i g (perform (.give_back p)) fun _ g' => g' = { g with stack := none } := by
  refine Safe.perform fun s G ⟨st, hJ⟩ hg e a s' hcall => ⟨_, ?_, rfl⟩
  cases hcall
  have hdesc := hJ.desc hg hstack
  have hok := hJ.ledger.ok p
  rw [hJ.status hg hstack] at hok
  refine hJ.drop (t := .absent) hg hstack (by simp) ?_ ?_ ?_ (hJ.started p)
  · rw [hlisted]
    rfl
  · refine ⟨rfl, hok.2.1, hok.2.2.1, fun _ => ?_⟩
    rw [← huser, ← hdesc]
    rfl
  · exact hJ.releases hg hstack hrel (by simp)

theorem answer_clone (e : Env P) : answer i (.clone p) e s =
    (let b := s.block p
    let joinable := decide (b.joinid ≠ some p)
    let run (handle leaked : Bool) : State P :=
      { s.setBlock p { b with
          tid := 1, alive := true, handle := b.handle || handle, leaked := b.leaked || leaked } with
        clashes := if b.alive then p :: s.clashes else s.clashes }
    match e with
    | .cloned .ok => some (.ok, run joinable false)
    | .cloned .ran => some (.ran, run false joinable)
    | .cloned .failed => some (.failed, s)
    | _ => none) := rfl

/-- A new thread begins, and belongs to the program, to itself, or to nobody. -/
theorem JAt.run (hJ : JAt cfg s G st) (hg : G i = g) (hstack : g.stack = some (p, h))
    {user : Bool} (hfresh : h.Fresh true user) (hterm : h.desc.TERMINATED = false)
    (hjoinid : h.desc.joinid = none ∨ h.desc.joinid = some p) (hfits : h.desc.Fits cfg)
    {handle leaked : Bool}
    (hdetached : (s.block p).joinid = some p → handle = false ∧ leaked = false)
    (hjoinable : (s.block p).joinid ≠ some p → leaked = !handle) :
    J cfg { s.setBlock p { s.block p with
            tid := 1, alive := true, handle := (s.block p).handle || handle
            leaked := (s.block p).leaked || leaked } with
          clashes := if (s.block p).alive then p :: s.clashes else s.clashes }
      (Function.update G i { g with stack := none }) := by
  have hdesc := hJ.desc hg hstack
  have halive := (hJ.holds i p h (by rw [hg]; exact hstack)).dead hfresh.dead
  have hok := hJ.ledger.ok p
  rw [hJ.status hg hstack] at hok
  obtain ⟨hhome, hhandle, hleak, -⟩ := hok
  have hterm' : (s.block p).TERMINATED = false := by
    rw [← hterm, ← hdesc]
    rfl
  have hidle := hJ.phase p
  rw [halive] at hidle
  replace hidle := hidle.eq_idle
  have hstarted : (s.block p).Fits cfg := by
    rw [← hdesc] at hfits
    exact hfits
  rw [hleak, hhandle, Bool.false_or, Bool.false_or, if_neg (by rw [halive]; simp)]
  by_cases hj : (s.block p).joinid = some p
  · obtain ⟨rfl, rfl⟩ := hdetached hj
    refine hJ.drop (t := .detached) hg hstack (by simp) ?_ ⟨hhome, rfl, rfl, hterm', hj, rfl⟩ ?_
      fun _ => ⟨Int.one_pos, hstarted⟩
    · rw [hfresh.listed]
      rfl
    · rw [hidle]
      exact fun _ => ⟨by simp, by simp⟩
  · have hnone : (s.block p).joinid = none := by
      rw [← hdesc] at hjoinid
      exact hjoinid.resolve_right hj
    obtain rfl := hjoinable hj
    cases handle with
    | true =>
      refine hJ.drop (t := .joinable) hg hstack (by simp) ?_ ⟨hhome, rfl, rfl, hterm', hnone⟩ ?_
        fun _ => ⟨Int.one_pos, hstarted⟩
      · rw [hfresh.listed]
        rfl
      · rw [hidle]
        exact fun _ => ⟨by simp, by simp⟩
    | false =>
      refine hJ.drop (t := .lost) hg hstack (by simp) ?_ ⟨hhome, rfl, rfl, hnone⟩ ?_
        fun _ => ⟨Int.one_pos, hstarted⟩
      · rw [hfresh.listed]
        rfl
      · rw [hidle]
        exact fun _ => ⟨by simp, by simp⟩

theorem runs_clone {user : Bool} (hstack : g.stack = some (p, h)) (hfresh : h.Fresh true user)
    (hterm : h.desc.TERMINATED = false)
    (hjoinid : h.desc.joinid = none ∨ h.desc.joinid = some p) (hfits : h.desc.Fits cfg) :
    Runs cfg i g (clone p) fun a g' =>
      g' = if a = .failed then g else { g with stack := none } := by
  refine Safe.perform fun s G ⟨st, hJ⟩ hg e a s' hcall => ⟨_, ?_, rfl⟩
  rw [answer_clone] at hcall
  split at hcall
  · cases hcall
    rw [if_neg (by decide : ¬ Cloned.ok = .failed)]
    refine hJ.run hg hstack hfresh hterm hjoinid hfits (fun hj => ?_) fun hj => ?_
    · exact ⟨decide_eq_false (not_not.mpr hj), rfl⟩
    · rw [decide_eq_true hj]
      rfl
  · cases hcall
    rw [if_neg (by decide : ¬ Cloned.ran = .failed)]
    refine hJ.run hg hstack hfresh hterm hjoinid hfits (fun hj => ?_) fun hj => ?_
    · exact ⟨rfl, decide_eq_false (not_not.mpr hj)⟩
    · rw [decide_eq_true hj]
      rfl
  · cases hcall
    rw [if_pos rfl]
    exact J.same ⟨st, hJ⟩ hg
  · cases hcall

/-- A descriptor that the thread has got from the program, to join it. -/
structure Held.Joinable (h : Held P) : Prop where
  listed : h.listed = true
  TERMINATED : h.desc.TERMINATED = false
  joinid : h.desc.joinid = none

theorem answer_keep_handle (e : Env P) : answer i (.keep_handle p) e s =
    (let b := s.block p
    some ((), s.setBlock p { b with handle := b.handle || decide (b.joinid ≠ some p) })) := rfl

/-- A thread that was not joined can still be joined. -/
theorem runs_keep_handle (hstack : g.stack = some (p, h)) (hjoin : h.Joinable) :
    Runs cfg i g (perform (.keep_handle p)) fun _ g' => g' = { g with stack := none } := by
  refine Safe.perform fun s G ⟨st, hJ⟩ hg e a s' hcall => ⟨_, ?_, rfl⟩
  rw [answer_keep_handle] at hcall
  cases hcall
  have hdesc := hJ.desc hg hstack
  have hok := hJ.ledger.ok p
  rw [hJ.status hg hstack] at hok
  obtain ⟨hhome, hhandle, hleaked, -⟩ := hok
  obtain ⟨hlisted, hterm, hnone⟩ := hjoin
  rw [← hdesc] at hterm hnone
  have hj : (s.block p).joinid ≠ some p := by
    rw [show (s.block p).joinid = none from hnone]
    simp
  refine hJ.drop (t := .joinable) hg hstack (by simp) ?_ ⟨hhome, ?_, hleaked, hterm, hnone⟩ ?_
    (hJ.started p)
  · rw [hlisted]
    rfl
  · rw [hhandle, decide_eq_true hj]
    rfl
  · exact (hJ.phase p).other (by simp) (by simp) (by simp)

/-! ## The lock and the lists -/

theorem JAt.touch (hJ : JAt cfg s G st) (hg : G i = g) (hin : g.inside = some I) :
    s.touch i = s :=
  if_pos ((hJ.monitor.owned i).mpr (by rw [hg, Ghost.isInside, hin]; rfl))

theorem answer_lll_lock (e : Env P) : answer i .lll_lock e s =
    if s.stack_cache_lock = none then some ((), { s with stack_cache_lock := some i })
    else none := rfl

theorem runs_lll_lock :
    Runs cfg i g (perform .lll_lock) fun _ g' =>
      ∃ cache, g' = { g with inside := some ⟨cache, 0, none, []⟩ } := by
  refine Safe.perform fun s G ⟨st, hJ⟩ hg e a s' hcall => ?_
  rw [answer_lll_lock] at hcall
  split at hcall
  · next hlock =>
    cases hcall
    obtain ⟨cache, hcache⟩ := hJ.monitor.free hlock
    refine ⟨_, ⟨st, hJ.know { g with inside := some ⟨cache, 0, none, []⟩ } hg rfl
      (hJ.phase_at hg :) (fun l => by cases l <;> rfl) rfl rfl rfl ?_⟩, cache, rfl⟩
    refine (hJ.relock (some i)).acquire hlock rfl fun _ I hI => ?_
    cases hI
    exact hcache.relock (some i)
  · cases hcall

theorem runs_lll_unlock (hin : g.inside = some I) (hahead : I.ahead = 0)
    (hflight : I.in_flight = none) :
    Runs cfg i g (perform .lll_unlock) fun _ g' => g' = { g with inside := none } := by
  refine Safe.perform fun s G ⟨st, hJ⟩ hg e a s' hcall => ⟨_, ⟨st, ?_⟩, rfl⟩
  cases hcall
  refine hJ.know _ hg rfl (hJ.phase_at hg :) (fun l => by cases l <;> rfl) rfl rfl rfl ?_
  refine (hJ.relock none).release (by rw [hg, Ghost.isInside, hin]; rfl) rfl fun hk => ?_
  have hI := hk I (by rw [hg]; exact hin)
  have hact := hI.actsize
  refine ⟨I.cache, hI.cache, hI.size, ?_, hI.size_t, hI.in_flight.trans hflight, by simp⟩
  rw [Inside.total, hahead] at hact
  exact hact

/-- The thread with the lock changes what only the lock protects. -/
theorem JAt.work (hJ : JAt cfg s G st) (hg : G i = g) (hin : g.inside = some I) {I' : Inside P}
    (hlist : ∀ l, s'.list l = s.list l) (hblock : s'.block = s.block)
    (hclashes : s'.clashes = s.clashes) (hraces : s'.races = s.races)
    (hlock : s'.stack_cache_lock = s.stack_cache_lock) (hdata : I.Holds s → I'.Holds s') :
    J cfg s' (Function.update G i { g with inside := some I' }) :=
  ⟨st, hJ.know _ hg rfl (hJ.phase_at hg :) hlist hblock hclashes hraces
    (monitor_inside hJ.monitor hg hin rfl hlock hdata)⟩

theorem runs_in_flight (hin : g.inside = some I) (el : Option (P × Bool)) :
    Runs cfg i g (perform (.in_flight el)) fun _ g' =>
      g' = { g with inside := some { I with in_flight := el } } := by
  refine Safe.perform fun s G ⟨st, hJ⟩ hg e a s' hcall => ⟨_, ?_, rfl⟩
  cases hcall
  rw [hJ.touch hg hin]
  exact hJ.work hg hin (fun l => by cases l <;> rfl) rfl rfl rfl rfl
    fun hI => ⟨hI.cache, hI.size, hI.actsize, hI.size_t, rfl, hI.free⟩

theorem toSize_modEq (n : Int) : (toSize n : Int) ≡ n [ZMOD 18446744073709551616] := by
  unfold toSize
  rw [Int.toNat_of_nonneg (Int.emod_nonneg n (by decide))]
  exact Int.mod_modEq n _

theorem toSize_lt (n : Int) : toSize n < 18446744073709551616 := by
  unfold toSize
  omega

theorem runs_add_actsize (hin : g.inside = some I) (n : Nat) :
    Runs cfg i g (add_actsize n) fun _ g' =>
      g' = { g with inside := some { I with ahead := I.ahead + n } } := by
  refine Safe.perform fun s G ⟨st, hJ⟩ hg e a s' hcall => ⟨_, ?_, rfl⟩
  cases hcall
  rw [hJ.touch hg hin]
  refine hJ.work hg hin (fun l => by cases l <;> rfl) rfl rfl rfl rfl
    fun hI => ⟨hI.cache, hI.size, ?_, toSize_lt (s.stack_cache_actsize + n), hI.in_flight, hI.free⟩
  refine (toSize_modEq _).trans ((hI.actsize.add_right n).trans ?_)
  rw [Inside.total, Inside.total, Int.add_assoc]

theorem runs_sub_actsize (hin : g.inside = some I) (n : Nat) :
    Runs cfg i g (sub_actsize n) fun _ g' =>
      g' = { g with inside := some { I with ahead := I.ahead - n } } := by
  refine Safe.perform fun s G ⟨st, hJ⟩ hg e a s' hcall => ⟨_, ?_, rfl⟩
  cases hcall
  rw [hJ.touch hg hin]
  refine hJ.work hg hin (fun l => by cases l <;> rfl) rfl rfl rfl rfl
    fun hI => ⟨hI.cache, hI.size, ?_, toSize_lt (s.stack_cache_actsize - n), hI.in_flight, hI.free⟩
  refine (toSize_modEq _).trans ((hI.actsize.sub_right n).trans ?_)
  rw [Inside.total, Inside.total, Int.add_sub_assoc]

theorem runs_list_for_each (hin : g.inside = some I) :
    Runs cfg i g list_for_each fun a g' =>
      a.Perm (I.cache.map Prod.fst) ∧ a.Nodup ∧ g' = g := by
  refine Safe.perform fun s G ⟨st, hJ⟩ hg e a s' hcall => ?_
  cases hcall
  rw [hJ.touch hg hin]
  exact ⟨g, J.same ⟨st, hJ⟩ hg, (hJ.inside hg hin).cache, hJ.ledger.nodup .stack_cache, rfl⟩

/-- A cached stack that is free stays so. -/
theorem runs_FREE_P (hin : g.inside = some I) (hmem : p ∈ I.cache.map Prod.fst) :
    Runs cfg i g (FREE_P p) fun a g' => g' =
      if a = true then { g with inside := some { I with free := p :: I.free } } else g := by
  refine Safe.perform fun s G ⟨st, hJ⟩ hg e a s' hcall => ⟨_, ?_, rfl⟩
  cases hcall
  by_cases hfree : (s.block p).tid ≤ 0
  · rw [if_pos (decide_eq_true hfree)]
    refine hJ.work hg hin (fun _ => rfl) rfl rfl rfl rfl
      fun hI => ⟨hI.cache, hI.size, hI.actsize, hI.size_t, hI.in_flight, fun q hq => ?_⟩
    obtain rfl | hq := List.mem_cons.mp hq
    · exact ⟨hI.cache.mem_iff.mpr hmem, hfree⟩
    · exact hI.free q hq
  · rw [if_neg (by rw [decide_eq_false hfree]; simp)]
    exact J.same ⟨st, hJ⟩ hg

/-- A stack that is to be used gets into the list for such stacks. -/
theorem runs_list_add_used {l : ListHead} (hin : g.inside = some I)
    (hstack : g.stack = some (p, h)) (hlisted : h.listed = false)
    (hl : l = if h.desc.user_stack then .__stack_user else .stack_used) :
    Runs cfg i g (perform (.list_add p l)) fun _ g' =>
      g' = { g with stack := some (p, { h with listed := true }) } := by
  refine Safe.perform fun s G ⟨st, hJ⟩ hg e a s' hcall =>
    ⟨_, ⟨Function.update st p (.held i true), ?_⟩, rfl⟩
  cases hcall
  rw [hJ.touch hg hin]
  have hok := hJ.held_ok hg hstack
  have huser : (s.block p).user_stack = h.desc.user_stack := by
    rw [← hJ.desc hg hstack]
    rfl
  have hcache : (s.add p l).stack_cache = s.stack_cache := by
    rw [hl]
    split <;> rfl
  refine hJ.move (p := p) (b := s.block p) (t := .held i true) hg ?_ ?_ (hJ.alone hg hstack)
    (Ghost.only hstack) ?_ ?_ (fun _ => (hJ.phase_at hg :)) ?_ (hJ.started p) ?_ ?_ ?_
  · rw [State.block_add, Function.update_eq_self]
  · refine hJ.ledger.add ?_ ?_ ⟨hok.1, hok.2.1, hok.2.2.1, fun ha hi => ?_⟩
    · rw [hJ.status hg hstack, hlisted]
      rfl
    · rw [huser, hl]
      rfl
    · rw [hlisted] at hok
      cases (hok.2.2.2 ha hi).1
  · intro j listed
    constructor
    · intro heq
      cases heq
      exact ⟨rfl, _, rfl, rfl⟩
    · rintro ⟨rfl, k, hk, rfl⟩
      cases hk
      rfl
  · intro q k hk
    cases hk
    exact ⟨rfl, (hJ.holds_at hg hstack).desc, (hJ.holds_at hg hstack).dead⟩
  · rw [phase_update { g with stack := some (p, { h with listed := true }) } hg rfl]
    exact (hJ.phase p).held
  · cases l <;> exact hJ.clashes
  · cases l <;> exact hJ.races
  · refine monitor_same hJ.monitor hg rfl (by cases l <;> rfl) fun I hI => ?_
    refine hI.congr hcache (by cases l <;> rfl) (by cases l <;> rfl) fun q _ => ?_
    rw [State.block_add]
    exact ⟨rfl, id⟩

/-- A stack gets into the cache. -/
theorem runs_list_add_cache (hin : g.inside = some I) (hstack : g.stack = some (p, h))
    (hlisted : h.listed = false) (huser : h.desc.user_stack = false)
    (hrel : g.Releases i p h) :
    Runs cfg i g (perform (.list_add p .stack_cache)) fun _ g' => g' =
      { g with
        stack := none
        inside := some { I with
          cache := (p, h.desc.stackblock_size) :: I.cache
          ahead := I.ahead - h.desc.stackblock_size } } := by
  refine Safe.perform fun s G ⟨st, hJ⟩ hg e a s' hcall =>
    ⟨_, ⟨Function.update st p (.cached), ?_⟩, rfl⟩
  cases hcall
  rw [hJ.touch hg hin]
  obtain ⟨hhome, hhandle, hleaked, -⟩ := hJ.held_ok hg hstack
  have hdesc := hJ.desc hg hstack
  have huser' : (s.block p).user_stack = false := by
    rw [← huser, ← hdesc]
    rfl
  refine hJ.move (p := p) (b := s.block p) (t := .cached) hg ?_ ?_ (hJ.alone hg hstack)
    (Ghost.only hstack) ?_ ?_ (fun _ => (hJ.phase_at hg :)) ?_ (hJ.started p) hJ.clashes hJ.races ?_
  · rw [State.block_add, Function.update_eq_self]
  · refine hJ.ledger.add ?_ rfl ⟨?_, hhandle, hleaked, huser'⟩
    · rw [hJ.status hg hstack, hlisted]
      rfl
    · rw [hhome, Block.home, huser']
      rfl
  · simp
  · simp
  · refine (phase_update { g with
        stack := none
        inside := some { I with
          cache := (p, h.desc.stackblock_size) :: I.cache
          ahead := I.ahead - h.desc.stackblock_size } } hg rfl p).symm ▸ ?_
    exact hJ.releases hg hstack hrel (by simp)
  · refine monitor_inside hJ.monitor hg hin rfl rfl fun hI => ?_
    refine ⟨hI.cache.cons p, fun q n hq => ?_, ?_, hI.size_t, hI.in_flight, fun q hq => ?_⟩
    · obtain heq | hq := List.mem_cons.mp hq
      · cases heq
        show (s.block p).stackblock_size = _
        rw [← hdesc]
        rfl
      · exact hI.size q n hq
    · have htotal : Inside.total { I with
          cache := (p, h.desc.stackblock_size) :: I.cache
          ahead := I.ahead - h.desc.stackblock_size } = I.total := by
        simp only [Inside.total, List.map_cons, List.sum_cons]
        omega
      rw [htotal]
      exact hI.actsize
    · obtain ⟨hmem, htid⟩ := hI.free q hq
      exact ⟨List.mem_cons_of_mem _ hmem, htid⟩

/-- A stack leaves the list of those that are used. -/
theorem runs_list_del_used (hin : g.inside = some I) (hstack : g.stack = some (p, h))
    (hrel : h.dead = true ∨ p = i) :
    Runs cfg i g (perform (.list_del p)) fun _ g' =>
      g' = { g with stack := some (p, { h with listed := false }) } := by
  refine Safe.perform fun s G ⟨st, hJ⟩ hg e a s' hcall =>
    ⟨_, ⟨Function.update st p (.held i false), ?_⟩, rfl⟩
  cases hcall
  rw [hJ.touch hg hin]
  obtain ⟨hhome, hhandle, hleaked, -⟩ := hJ.held_ok hg hstack
  have hholds := hJ.holds_at hg hstack
  have hcached : p ∉ s.stack_cache := by
    intro hmem
    cases (hJ.status hg hstack).symm.trans (hJ.ledger.mem_cache.mp hmem)
  refine hJ.move (p := p) (b := s.block p) (t := .held i false) hg ?_ ?_ (hJ.alone hg hstack)
    (Ghost.only hstack) ?_ ?_ (fun _ => (hJ.phase_at hg :)) ?_ (hJ.started p) hJ.clashes hJ.races ?_
  · exact (Function.update_eq_self p s.block).symm
  · refine hJ.ledger.del rfl ⟨hhome, hhandle, hleaked, fun ha hi => ?_⟩
    cases ha.symm.trans (hholds.dead (hrel.resolve_right hi))
  · intro j listed
    constructor
    · intro heq
      cases heq
      exact ⟨rfl, _, rfl, rfl⟩
    · rintro ⟨rfl, k, hk, rfl⟩
      cases hk
      rfl
  · intro q k hk
    cases hk
    exact ⟨rfl, hholds.desc, hholds.dead⟩
  · rw [phase_update { g with stack := some (p, { h with listed := false }) } hg rfl]
    exact (hJ.phase p).held
  · refine monitor_same hJ.monitor hg rfl rfl fun I hI => ?_
    exact hI.congr (List.erase_of_not_mem hcached) rfl rfl fun q _ => ⟨rfl, id⟩

/-- A stack that is free is taken from the cache. -/
theorem runs_list_del_cache {n : Nat} (hin : g.inside = some I) (hstack : g.stack = none)
    (hmem : (p, n) ∈ I.cache) (hfree : p ∈ I.free) :
    Runs cfg i g (perform (.list_del p)) fun _ g' =>
      ∃ h, g' =
        { g with
          stack := some (p, h)
          inside := some { I with
            cache := I.cache.erase (p, n), ahead := I.ahead + n, free := [] } } ∧
        h.Fresh false false ∧ h.desc.stackblock_size = n := by
  refine Safe.perform fun s G ⟨st, hJ⟩ hg e a s' hcall => ?_
  cases hcall
  rw [hJ.touch hg hin]
  have hI := hJ.inside hg hin
  obtain ⟨hcache, htid⟩ := hI.free p hfree
  have hst := hJ.ledger.mem_cache.mp hcache
  have hok := hJ.ledger.ok p
  rw [hst] at hok
  obtain ⟨hmapped, hhandle, hleaked, huser⟩ := hok
  have halive : (s.block p).alive = false := by
    by_contra hne
    have hpos := (hJ.started p (by simpa using hne)).1
    omega
  have hperm := List.perm_cons_erase hmem
  refine ⟨_, ⟨Function.update st p (.held i false), ?_⟩, ⟨false, true, (s.block p).settled⟩, rfl,
    ⟨rfl, rfl, huser⟩, hI.size p n hmem⟩
  refine hJ.move (p := p) (b := s.block p) (t := .held i false) hg ?_ ?_ ?_ ?_ ?_ ?_
    (fun _ => (hJ.phase_at hg :)) ?_ (hJ.started p) hJ.clashes hJ.races ?_
  · exact (Function.update_eq_self p s.block).symm
  · refine hJ.ledger.del rfl ⟨?_, hhandle, hleaked, fun ha => ?_⟩
    · rw [hmapped, Block.home, huser]
      rfl
    · cases ha.symm.trans halive
  · intro j listed hj
    cases hst.symm.trans hj
  · intro q k hk
    cases hstack.symm.trans hk
  · intro j listed
    constructor
    · intro heq
      cases heq
      exact ⟨rfl, _, rfl, rfl⟩
    · rintro ⟨rfl, k, hk, rfl⟩
      cases hk
      rfl
  · intro q k hk
    cases hk
    exact ⟨rfl, rfl, fun _ => halive⟩
  · refine (phase_update { g with
        stack := some (p, ⟨false, true, (s.block p).settled⟩)
        inside := some { I with
          cache := I.cache.erase (p, n), ahead := I.ahead + n, free := [] } } hg rfl p).symm ▸ ?_
    exact (hJ.phase p).held
  · refine monitor_inside hJ.monitor hg hin rfl rfl fun hI => ?_
    refine ⟨?_, fun q m hq => hI.size q m (List.mem_of_mem_erase hq), ?_, hI.size_t, hI.in_flight,
      by simp⟩
    · have hkeys := (hI.cache.trans (hperm.map Prod.fst)).erase p
      rw [List.map_cons, List.erase_cons_head] at hkeys
      exact hkeys
    · have htotal : Inside.total { I with
          cache := I.cache.erase (p, n), ahead := I.ahead + n, free := [] } = I.total := by
        have hsum := (hperm.map fun e => (e.2 : Int)).sum_eq
        rw [List.map_cons, List.sum_cons] at hsum
        simp only [Inside.total]
        omega
      rw [htotal]
      exact hI.actsize

/-! ## The end of a thread -/

/-- If a thread is detached, it is the owner of its own descriptor in the end. -/
theorem runs_joinid_self (hstack : g.stack = none) (hphase : g.phase = .running) :
    Runs cfg i g (joinid i) fun a g' =>
      if a = some i then ∃ h, g' = { g with stack := some (i, h), phase := .exiting } ∧
        h.desc.TERMINATED = false
      else g' = { g with phase := .exiting } := by
  refine Safe.perform fun s G ⟨st, hJ⟩ hg e a s' hcall => ?_
  cases hcall
  have hrun := hJ.phase_at hg
  rw [hphase] at hrun
  obtain ⟨halive, habsent, hcached⟩ := hrun
  have hok := hJ.ledger.ok i
  by_cases hdet : st i = .detached
  · rw [hdet] at hok
    obtain ⟨hhome, hhandle, hleaked, hterm, hjoinid, -⟩ := hok
    simp only [if_pos hjoinid]
    refine ⟨_, ⟨Function.update st i (.held i true), ?_⟩, ⟨true, false, (s.block i).settled⟩, rfl,
      hterm⟩
    have htake := hJ.take (p := i) (b := s.block i) ⟨true, false, (s.block i).settled⟩ hg hstack
      (by rw [hdet]; simp) (by rw [hdet]; simp) (by rw [hdet]; rfl) ⟨rfl, by simp⟩ rfl
      ⟨hhome, hhandle, hleaked, fun _ hi => absurd rfl hi⟩ (hJ.started i)
    rw [State.setBlock, Function.update_eq_self] at htake
    have hknow := htake.know { g with
        stack := some (i, ⟨true, false, (s.block i).settled⟩), phase := .exiting }
      (Function.update_self ..) rfl ⟨halive, by rw [Function.update_self]; simp⟩ (fun _ => rfl)
      rfl rfl rfl (monitor_same htake.monitor (Function.update_self ..) rfl rfl fun _ => id)
    rw [Function.update_idem] at hknow
    exact hknow
  · have hne : (s.block i).joinid ≠ some i := by
      generalize hst : st i = t at hok habsent hcached hdet
      cases t with
      | absent => exact absurd rfl habsent
      | cached => exact absurd rfl hcached
      | detached => exact absurd rfl hdet
      | joinable =>
        rw [hok.2.2.2.2]
        simp
      | lost =>
        rw [hok.2.2.2]
        simp
      | held j listed =>
        refine (hok.2.2.2 halive ?_).2
        rintro rfl
        obtain ⟨k, hk, -⟩ := (hJ.held_iff i i listed).mp hst
        rw [hg, hstack] at hk
        cases hk
    simp only [if_neg hne]
    exact ⟨_, ⟨st, hJ.know { g with phase := .exiting } hg rfl ⟨halive, hdet⟩ (fun _ => rfl) rfl rfl
      rfl (monitor_same hJ.monitor hg rfl rfl fun _ => id)⟩, rfl⟩

theorem runs_exit_thread (hphase : g.phase = .exiting) :
    Runs cfg i g exit_thread fun _ g' => g' = { g with phase := .idle } := by
  refine Safe.perform fun s G ⟨st, hJ⟩ hg e a s' hcall => ⟨_, ⟨st, ?_⟩, rfl⟩
  cases hcall
  have hexit := hJ.phase_at hg
  rw [hphase] at hexit
  exact hJ.kernel (n := (s.block i).tid) hg (by simp) id (by simp [Phase.Ok])
    fun hdet => absurd hdet hexit.2

end Calls

end EngineerLinux.Nptl
