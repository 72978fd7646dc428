import EngineerLinux.PairedQueue.Model

/-!
# The steps of the paired-queue program

`Step` lists once what one step of a thread can do: the program point it starts from, the guard,
and the state it leaves. `step_inv` reads it off the two routines (lines 67-89 and 98-122), and
every invariant of the program is a case analysis on it: mutual exclusion and queue lengths in
`Invariants`, the history in `Discipline`, the wake-ups in `WakeUps`.

The simp lemmas say field by field what the shared operations change, so that a case of such an
analysis never unfolds them.
-/

namespace EngineerLinux.PairedQueue

variable {ι α : Type}

/-! ## The operations, field by field -/

namespace State

variable (s : State ι α) (m : Mutex) (k : Side) (info : α)

@[simp] theorem unlock_queue : (s.unlock m).queue = s.queue := rfl
@[simp] theorem unlock_owner : (s.unlock m).owner = Function.update s.owner m none := rfl
@[simp] theorem unlock_sem : (s.unlock m).sem = s.sem := rfl
@[simp] theorem unlock_ready : (s.unlock m).ready = s.ready := rfl
@[simp] theorem unlock_wait : (s.unlock m).wait = s.wait := rfl
@[simp] theorem unlock_notify : (s.unlock m).notify = s.notify := rfl

@[simp] theorem push_queue :
    (s.push k info).queue = Function.update s.queue k (s.queue k ++ [info]) := rfl
@[simp] theorem push_owner : (s.push k info).owner = s.owner := rfl
@[simp] theorem push_sem : (s.push k info).sem = s.sem := rfl
@[simp] theorem push_ready : (s.push k info).ready = s.ready := rfl
@[simp] theorem push_wait : (s.push k info).wait = s.wait := rfl
@[simp] theorem push_notify : (s.push k info).notify = s.notify := rfl

@[simp] theorem pop_queue :
    (s.pop k).queue = Function.update s.queue k (s.queue k).tail := by
  unfold pop
  cases hq : s.queue k with
  | nil => exact (Function.update_eq_self_iff.mpr hq.symm).symm
  | cons x xs => rfl

@[simp] theorem pop_owner : (s.pop k).owner = s.owner := by unfold pop; split <;> rfl
@[simp] theorem pop_sem : (s.pop k).sem = s.sem := by unfold pop; split <;> rfl
@[simp] theorem pop_ready : (s.pop k).ready = s.ready := by unfold pop; split <;> rfl
@[simp] theorem pop_wait : (s.pop k).wait = s.wait := by unfold pop; split <;> rfl
@[simp] theorem pop_notify : (s.pop k).notify = s.notify := by unfold pop; split <;> rfl

@[simp] theorem semPost_queue : s.semPost.queue = s.queue := by unfold semPost; split <;> rfl
@[simp] theorem semPost_owner : s.semPost.owner = s.owner := by unfold semPost; split <;> rfl
@[simp] theorem semPost_wait : s.semPost.wait = s.wait := by unfold semPost; split <;> rfl
@[simp] theorem semPost_notify : s.semPost.notify = s.notify := by unfold semPost; split <;> rfl

@[simp] theorem notifyAll_queue : s.notifyAll.queue = s.queue := by
  unfold notifyAll; split <;> rfl
@[simp] theorem notifyAll_owner : s.notifyAll.owner = s.owner := by
  unfold notifyAll; split <;> rfl
@[simp] theorem notifyAll_ready : s.notifyAll.ready = s.ready := by
  unfold notifyAll; split <;> rfl
@[simp] theorem notifyAll_notify : s.notifyAll.notify = s.notify := by
  unfold notifyAll; split <;> rfl

/-- `notify_all` moves a consumer that is inside `cond.wait`, or does nothing. -/
theorem notifyAll_cases :
    s.wait = .blocked ∧ s.notifyAll = { s with wait := .relock } ∨ s.notifyAll = s := by
  unfold notifyAll
  split
  · next hblocked => exact .inl ⟨hblocked, rfl⟩
  · exact .inr rfl

/-- `sem_post` fails at the largest value, and adds 1 to any other. -/
theorem semPost_cases :
    s.sem = SEM_VALUE_MAX ∧ s.semPost = { s with eoverflow := true } ∨
      s.sem ≠ SEM_VALUE_MAX ∧ s.semPost = { s with sem := s.sem + 1 } := by
  unfold semPost
  split
  · next hmax => exact .inl ⟨hmax, rfl⟩
  · next hmax => exact .inr ⟨hmax, rfl⟩

variable [DecidableEq ι] (i : ι) (pc : NotifyPc)

@[simp] theorem goto_queue : (s.goto i pc).queue = s.queue := rfl
@[simp] theorem goto_owner : (s.goto i pc).owner = s.owner := rfl
@[simp] theorem goto_sem : (s.goto i pc).sem = s.sem := rfl
@[simp] theorem goto_ready : (s.goto i pc).ready = s.ready := rfl
@[simp] theorem goto_wait : (s.goto i pc).wait = s.wait := rfl
@[simp] theorem goto_notify : (s.goto i pc).notify = Function.update s.notify i pc := rfl

end State

/-- A successful lock took a free mutex. -/
theorem lock_inv {s s' : State ι α} {m : Mutex} {t : Tid ι} (h : s.lock m t = some s') :
    s.owner m = none ∧ s' = { s with owner := Function.update s.owner m (some t) } := by
  unfold State.lock at h
  split at h
  · next hfree => exact ⟨hfree, (Option.some.inj h).symm⟩
  · cases h

/-- A lock followed by a change of state, as the routines use it. -/
theorem lock_map_inv {s s' : State ι α} {m : Mutex} {t : Tid ι} {f : State ι α → State ι α}
    (h : (s.lock m t).map f = some s') :
    s.owner m = none ∧ s' = f { s with owner := Function.update s.owner m (some t) } := by
  obtain ⟨u, hu, rfl⟩ := Option.map_eq_some_iff.mp h
  obtain ⟨hfree, rfl⟩ := lock_inv hu
  exact ⟨hfree, rfl⟩

/-! ## What one step can do -/

/-- The steps of the consumer. -/
inductive WaitStep (b : Build) (s : State ι α) : State ι α → Prop where
  | semWait (hb : b = .sem) (hpc : s.wait = .top) (hv : s.sem ≠ 0) :
      WaitStep b s { s with sem := s.sem - 1, wait := .lock1 }
  | lockThread (hb : b = .cond) (hpc : s.wait = .top ∨ s.wait = .relock)
      (hfree : s.owner .thread = none) :
      WaitStep b s { s with
        owner := Function.update s.owner .thread (some .consumer), wait := .check }
  | isReady (hpc : s.wait = .check) (hr : s.ready = true) :
      WaitStep b s { s with wait := .clear }
  | sleep (hpc : s.wait = .check) (hr : s.ready = false) :
      WaitStep b s { s.unlock .thread with wait := .blocked }
  | clear (hpc : s.wait = .clear) : WaitStep b s { s with ready := false, wait := .lock1 }
  | lock1 (hpc : s.wait = .lock1) (hfree : s.owner (.queue .one) = none) :
      WaitStep b s { s with
        owner := Function.update s.owner (.queue .one) (some .consumer), wait := .lock2 }
  | lock2 (hpc : s.wait = .lock2) (hfree : s.owner (.queue .two) = none) :
      WaitStep b s { s with
        owner := Function.update s.owner (.queue .two) (some .consumer), wait := .test }
  | pair (hpc : s.wait = .test) (h1 : s.queue .one ≠ []) (h2 : s.queue .two ≠ []) :
      WaitStep b s { s with wait := .pop1 }
  | noPair (hpc : s.wait = .test) (hq : s.queue .one = [] ∨ s.queue .two = []) :
      WaitStep b s { s with wait := .unlock2 }
  | pop1 (hpc : s.wait = .pop1) :
      WaitStep b s { s.pop .one with
        wait := .pop2, taken := Function.update s.taken .one (s.taken .one + 1) }
  | pop2 (hpc : s.wait = .pop2) :
      WaitStep b s { s.pop .two with
        wait := .unlock2, taken := Function.update s.taken .two (s.taken .two + 1) }
  | unlock2 (hpc : s.wait = .unlock2) :
      WaitStep b s { s.unlock (.queue .two) with wait := .unlock1 }
  | unlock1 (hpc : s.wait = .unlock1) :
      WaitStep b s { s.unlock (.queue .one) with
        wait := match b with | .sem => .top | .cond => .unlock }
  | unlock (hpc : s.wait = .unlock) : WaitStep b s { s.unlock .thread with wait := .top }

/-- In the semaphore build the consumer is never at a point of the other `#ifdef` branch. -/
def WaitPc.inBuild : Build → WaitPc → Bool
  | .sem, .check | .sem, .blocked | .sem, .relock | .sem, .clear | .sem, .unlock => false
  | _, _ => true

theorem waitRoutine_inv {b : Build} {s s' : State ι α} (hin : s.wait.inBuild b = true)
    (h : waitRoutine b s = some s') : WaitStep b s s' := by
  unfold waitRoutine at h
  cases hpc : s.wait with
  | top =>
    simp only [hpc] at h
    cases b with
    | sem =>
      simp only at h
      split at h
      · cases h
      · next hv =>
        obtain rfl := Option.some.inj h
        exact .semWait rfl hpc hv
    | cond =>
      obtain ⟨hfree, rfl⟩ := lock_map_inv h
      exact .lockThread rfl (.inl hpc) hfree
  | check =>
    simp only [hpc] at h
    split at h
    · next hr =>
      obtain rfl := Option.some.inj h
      exact .isReady hpc hr
    · next hr =>
      obtain rfl := Option.some.inj h
      exact .sleep hpc (Bool.eq_false_iff.mpr hr)
  | blocked =>
    simp only [hpc] at h
    cases h
  | relock =>
    simp only [hpc] at h
    cases b with
    | sem => rw [hpc] at hin; cases hin
    | cond =>
      obtain ⟨hfree, rfl⟩ := lock_map_inv h
      exact .lockThread rfl (.inr hpc) hfree
  | clear =>
    simp only [hpc] at h
    obtain rfl := Option.some.inj h
    exact .clear hpc
  | lock1 =>
    simp only [hpc] at h
    obtain ⟨hfree, rfl⟩ := lock_map_inv h
    exact .lock1 hpc hfree
  | lock2 =>
    simp only [hpc] at h
    obtain ⟨hfree, rfl⟩ := lock_map_inv h
    exact .lock2 hpc hfree
  | test =>
    simp only [hpc] at h
    split at h
    · next hlen =>
      obtain rfl := Option.some.inj h
      exact .pair hpc (List.length_pos_iff.mp hlen.1) (List.length_pos_iff.mp hlen.2)
    · next hlen =>
      obtain rfl := Option.some.inj h
      refine .noPair hpc ?_
      by_contra hne
      obtain ⟨h1, h2⟩ := not_or.mp hne
      exact hlen ⟨List.length_pos_iff.mpr h1, List.length_pos_iff.mpr h2⟩
  | pop1 =>
    simp only [hpc] at h
    obtain rfl := Option.some.inj h
    exact .pop1 hpc
  | pop2 =>
    simp only [hpc] at h
    obtain rfl := Option.some.inj h
    exact .pop2 hpc
  | unlock2 =>
    simp only [hpc] at h
    obtain rfl := Option.some.inj h
    exact .unlock2 hpc
  | unlock1 =>
    simp only [hpc] at h
    cases b with
    | sem =>
      obtain rfl := Option.some.inj h
      exact .unlock1 (b := .sem) hpc
    | cond =>
      obtain rfl := Option.some.inj h
      exact .unlock1 (b := .cond) hpc
  | unlock =>
    simp only [hpc] at h
    obtain rfl := Option.some.inj h
    exact .unlock hpc

variable [DecidableEq ι]

/-- The steps of producer `i`, which works on queue `k`. -/
inductive NotifyStep (b : Build) (k : Side) (s : State ι α) (i : ι) (info : α) :
    State ι α → Prop where
  | lock (hpc : s.notify i = .lock) (hfree : s.owner (.queue k) = none) :
      NotifyStep b k s i info
        ({ s with owner := Function.update s.owner (.queue k) (some (.producer i)) }.goto i .push)
  | push (hpc : s.notify i = .push) :
      NotifyStep b k s i info ((s.push k info).goto i .test)
  | tooMany (hpc : s.notify i = .test) (hlen : (s.queue k).length > 4) :
      NotifyStep b k s i info (s.goto i .drop)
  | fits (hpc : s.notify i = .test) (hlen : (s.queue k).length ≤ 4) :
      NotifyStep b k s i info (s.goto i .unlock)
  | drop (hpc : s.notify i = .drop) : NotifyStep b k s i info ((s.pop k).goto i .unlock)
  | unlock (hpc : s.notify i = .unlock) :
      NotifyStep b k s i info ((s.unlock (.queue k)).goto i
        (match b with | .sem => .post | .cond => .lockThread))
  | post (hb : b = .sem) (hpc : s.notify i = .post) :
      NotifyStep b k s i info (s.semPost.goto i .lock)
  | lockThread (hb : b = .cond) (hpc : s.notify i = .lockThread) (hfree : s.owner .thread = none) :
      NotifyStep b k s i info
        ({ s with owner := Function.update s.owner .thread (some (.producer i)) }.goto i .setReady)
  | setReady (hb : b = .cond) (hpc : s.notify i = .setReady) :
      NotifyStep b k s i info ({ s with ready := true }.goto i .notifyAll)
  | notifyAll (hb : b = .cond) (hpc : s.notify i = .notifyAll) :
      NotifyStep b k s i info (s.notifyAll.goto i .unlockThread)
  | unlockThread (hb : b = .cond) (hpc : s.notify i = .unlockThread) :
      NotifyStep b k s i info ((s.unlock .thread).goto i .lock)

/-- The points of `notify_routine` that the build compiles: `sem_post`, or the call of
`notify`. -/
def NotifyPc.inBuild : Build → NotifyPc → Bool
  | .cond, .post => false
  | .sem, .lockThread | .sem, .setReady | .sem, .notifyAll | .sem, .unlockThread => false
  | _, _ => true

theorem notifyRoutine_inv {b : Build} {idx : Int} {s s' : State ι α} {i : ι} {info : α}
    (hin : (s.notify i).inBuild b = true) (h : notifyRoutine b idx s i info = some s') :
    NotifyStep b (side idx) s i info s' := by
  unfold notifyRoutine at h
  cases hpc : s.notify i with
  | lock =>
    simp only [hpc] at h
    obtain ⟨hfree, rfl⟩ := lock_map_inv h
    exact .lock hpc hfree
  | push =>
    simp only [hpc] at h
    obtain rfl := Option.some.inj h
    exact .push hpc
  | test =>
    simp only [hpc] at h
    split at h
    · next hlen =>
      obtain rfl := Option.some.inj h
      exact .tooMany hpc hlen
    · next hlen =>
      obtain rfl := Option.some.inj h
      exact .fits hpc (Nat.le_of_not_lt hlen)
  | drop =>
    simp only [hpc] at h
    obtain rfl := Option.some.inj h
    exact .drop hpc
  | unlock =>
    simp only [hpc] at h
    cases b with
    | sem =>
      obtain rfl := Option.some.inj h
      exact .unlock (b := .sem) hpc
    | cond =>
      obtain rfl := Option.some.inj h
      exact .unlock (b := .cond) hpc
  | post =>
    simp only [hpc] at h
    obtain rfl := Option.some.inj h
    rw [hpc] at hin
    cases b with
    | sem => exact .post rfl hpc
    | cond => cases hin
  | lockThread =>
    simp only [hpc] at h
    obtain ⟨hfree, rfl⟩ := lock_map_inv h
    rw [hpc] at hin
    cases b with
    | sem => cases hin
    | cond => exact .lockThread rfl hpc hfree
  | setReady =>
    simp only [hpc] at h
    obtain rfl := Option.some.inj h
    rw [hpc] at hin
    cases b with
    | sem => cases hin
    | cond => exact .setReady rfl hpc
  | notifyAll =>
    simp only [hpc] at h
    obtain rfl := Option.some.inj h
    rw [hpc] at hin
    cases b with
    | sem => cases hin
    | cond => exact .notifyAll rfl hpc
  | unlockThread =>
    simp only [hpc] at h
    obtain rfl := Option.some.inj h
    rw [hpc] at hin
    cases b with
    | sem => cases hin
    | cond => exact .unlockThread rfl hpc

/-- The steps of the program. -/
inductive Step (b : Build) (idx : ι → Int) (s : State ι α) : Act ι α → State ι α → Prop where
  | wait {s' : State ι α} (h : WaitStep b s s') : Step b idx s .wait s'
  | spurious (hpc : s.wait = .blocked) : Step b idx s .spurious { s with wait := .relock }
  | notify {s' : State ι α} {i : ι} {info : α} (h : NotifyStep b (side (idx i)) s i info s') :
      Step b idx s (.notify i info) s'

/-- Every thread is at a program point of the compiled `#ifdef` branch. -/
structure InBuild (b : Build) (s : State ι α) : Prop where
  wait : s.wait.inBuild b = true
  notify : ∀ i, (s.notify i).inBuild b = true

/-- **Step inversion**: everything a step can do. -/
theorem step_inv {b : Build} {idx : ι → Int} {s s' : State ι α} {a : Act ι α}
    (hin : InBuild b s) (h : step b idx s a = some s') : Step b idx s a s' := by
  cases a with
  | wait => exact .wait (waitRoutine_inv hin.wait h)
  | spurious =>
    simp only [step] at h
    split at h
    · next hpc =>
      obtain rfl := Option.some.inj h
      exact .spurious hpc
    · cases h
  | notify i info => exact .notify (notifyRoutine_inv (hin.notify i) h)

/-! ## Program points of the build -/

omit [DecidableEq ι] in
theorem inBuild_initial (b : Build) : InBuild b (State.initial ι α) :=
  ⟨by cases b <;> rfl, fun _ => by cases b <;> rfl⟩

variable {b : Build} {idx : ι → Int} {s s' : State ι α}

theorem InBuild.goto (h : InBuild b s) {i : ι} {p : NotifyPc} (hwait : s'.wait = s.wait)
    (hnotify : s'.notify = Function.update s.notify i p) (hp : p.inBuild b = true) :
    InBuild b s' := by
  refine ⟨by rw [hwait]; exact h.wait, fun j => ?_⟩
  rw [hnotify]
  by_cases hj : j = i
  · rw [hj, Function.update_self]
    exact hp
  · rw [Function.update_of_ne hj]
    exact h.notify j

omit [DecidableEq ι] in
/-- `notify_all` wakes the consumer from `cond.wait`, or finds it elsewhere. -/
theorem notifyAll_wait (s : State ι α) :
    s.wait = .blocked ∧ s.notifyAll.wait = .relock ∨ s.notifyAll.wait = s.wait := by
  rcases s.notifyAll_cases with ⟨hblocked, heq⟩ | heq
  · exact .inl ⟨hblocked, congrArg State.wait heq⟩
  · exact .inr (congrArg State.wait heq)

omit [DecidableEq ι] in
theorem InBuild.waitStep (h : InBuild b s) (hs : WaitStep b s s') : InBuild b s' := by
  have hin := h.wait
  cases hs with
  | semWait hb hpc hv =>
    subst hb
    exact ⟨rfl, h.notify⟩
  | lockThread hb hpc hfree =>
    subst hb
    exact ⟨rfl, h.notify⟩
  | isReady hpc hr | sleep hpc hr =>
    rw [hpc] at hin
    cases b with
    | sem => cases hin
    | cond => exact ⟨rfl, h.notify⟩
  | clear hpc | unlock hpc =>
    rw [hpc] at hin
    cases b with
    | sem => cases hin
    | cond => exact ⟨rfl, h.notify⟩
  | pop1 hpc | pop2 hpc => exact ⟨by cases b <;> rfl, by simpa using h.notify⟩
  | _ => exact ⟨by cases b <;> rfl, h.notify⟩

/-- The threads stay at program points of the build. -/
theorem InBuild.step {a : Act ι α} (h : InBuild b s) (hs : Step b idx s a s') : InBuild b s' := by
  cases hs with
  | wait hw => exact h.waitStep hw
  | spurious hpc =>
    have hin := h.wait
    rw [hpc] at hin
    cases b with
    | sem => cases hin
    | cond => exact ⟨rfl, h.notify⟩
  | @notify _ i _ hn =>
    cases hn with
    | notifyAll hb hpc =>
      subst hb
      have hg : InBuild .cond (s.goto i .unlockThread) := h.goto rfl rfl rfl
      refine ⟨?_, by simpa using hg.notify⟩
      show s.notifyAll.wait.inBuild .cond = true
      rcases notifyAll_wait s with ⟨-, hrelock⟩ | hsame
      · rw [hrelock]
        rfl
      · rw [hsame]
        exact h.wait
    | post hb hpc =>
      subst hb
      exact h.goto (i := i) (p := .lock) (by simp) (by simp) rfl
    | drop hpc => exact h.goto (i := i) (p := .unlock) (by simp) (by simp) (by cases b <;> rfl)
    | lockThread hb hpc | setReady hb hpc | unlockThread hb hpc =>
      subst hb
      exact h.goto rfl rfl rfl
    | _ => exact h.goto rfl rfl (by cases b <;> rfl)

end EngineerLinux.PairedQueue
