import EngineerLinux.PairedQueue.Discipline

/-!
# The value of the semaphore

Each item pushed is posted once (line 114), but dropping an item (106, 111) takes no post back, so
the value of the semaphore counts the turns by which the producers are ahead of the consumer.
Nothing in the program bounds it.

Along a run the value is the number of posts that succeeded less the number of waits that
returned, and a post fails exactly at the maximum. So a failure is a property of the order of the
steps alone, and a producer that runs by itself for long enough brings it about (`exec_turns`).

- `eoverflow_iff`: **when `sem_post` fails**, as a condition on the order of the steps;
- `sem_post_fails`: a run in which it does.
-/

namespace EngineerLinux.PairedQueue

variable {ι α : Type}

/-- The step is a `sem_wait` that returns. -/
def isWait (s : State ι α) : Act ι α → Bool
  | .wait => s.wait = .top
  | _ => false

/-- The step is a `sem_post`. -/
def isPost (s : State ι α) : Act ι α → Bool
  | .notify i _ => s.notify i = .post
  | _ => false

@[simp] theorem State.pop_eoverflow (s : State ι α) (k : Side) :
    (s.pop k).eoverflow = s.eoverflow := by unfold pop; split <;> rfl

variable [DecidableEq ι] {idx : ι → Int} {s s' t : State ι α} {a : Act ι α}

/-- What one step does to the semaphore: it adds 1 if it is a `sem_post`, takes 1 if it is a
`sem_wait`; or it is a `sem_post` at the largest value, and fails. -/
theorem Step.sem_cases (hs : Step .sem idx s a s') (hmax : s.sem ≤ SEM_VALUE_MAX) :
    (s'.eoverflow = s.eoverflow ∧ s'.sem ≤ SEM_VALUE_MAX ∧
      s'.sem + (isWait s a).toNat = s.sem + (isPost s a).toNat) ∨
    s'.eoverflow = true ∧ s.sem = SEM_VALUE_MAX ∧ s'.sem = SEM_VALUE_MAX ∧
      isPost s a = true ∧ isWait s a = false := by
  cases hs with
  | wait hw =>
    left
    cases hw with
    | semWait hb hpc hv =>
      refine ⟨rfl, (Nat.sub_le ..).trans hmax, ?_⟩
      simp only [isWait, isPost, hpc, decide_true, Bool.toNat_true, Bool.toNat_false]
      omega
    | lockThread hb => cases hb
    | pop1 hpc | pop2 hpc =>
      refine ⟨State.pop_eoverflow s _, (State.pop_sem s _).le.trans hmax, ?_⟩
      simp only [isWait, isPost, hpc, State.pop_sem]
      rfl
    | isReady hpc | sleep hpc | clear hpc | lock1 hpc | lock2 hpc | pair hpc | noPair hpc
    | unlock2 hpc | unlock1 hpc | unlock hpc =>
      refine ⟨rfl, hmax, ?_⟩
      simp only [isWait, isPost, hpc]
      rfl
  | spurious hpc => exact .inl ⟨rfl, hmax, rfl⟩
  | notify hn =>
    cases hn with
    | post hb hpc =>
      have hpost : ∀ info : α, isPost s (.notify _ info) = true := fun _ => decide_eq_true hpc
      rcases State.semPost_cases s with ⟨hfull, heq⟩ | ⟨hless, heq⟩ <;> rw [heq]
      · exact .inr ⟨rfl, hfull, hfull, hpost _, rfl⟩
      · refine .inl ⟨rfl, ?_, ?_⟩
        · exact Nat.lt_of_le_of_ne hmax hless
        · rw [hpost]
          rfl
    | drop hpc =>
      refine .inl ⟨State.pop_eoverflow s _, (State.pop_sem s _).le.trans hmax, ?_⟩
      simp only [isWait, isPost, hpc, State.goto_sem, State.pop_sem]
      rfl
    | lockThread hb | setReady hb | notifyAll hb | unlockThread hb => cases hb
    | lock hpc | push hpc | tooMany hpc | fits hpc | unlock hpc =>
      refine .inl ⟨rfl, hmax, ?_⟩
      simp only [isWait, isPost, hpc]
      rfl

/-- The invariant of the semaphore build, with the value in its range. -/
structure InRange (idx : ι → Int) (s : State ι α) : Prop where
  inv : Inv .sem idx s
  sem_le : s.sem ≤ SEM_VALUE_MAX

omit [DecidableEq ι] in
theorem inRange_initial (idx : ι → Int) : InRange idx (State.initial ι α) :=
  ⟨inv_initial .sem idx, Nat.zero_le _⟩

theorem InRange.next (h : InRange idx s) (hnext : step .sem idx s a = some s') :
    InRange idx s' := by
  have hs := step_inv h.inv.inBuild hnext
  refine ⟨h.inv.step hs, ?_⟩
  rcases hs.sem_cases h.sem_le with ⟨-, hle, -⟩ | ⟨-, -, hfull, -⟩
  · exact hle
  · exact hfull.le

/-- Once a `sem_post` has failed, this is remembered. -/
theorem eoverflow_of_exec {sched : List (Act ι α)} (h : InRange idx s) (ho : s.eoverflow = true)
    (hrun : (machine α .sem idx).exec s sched = some t) : t.eoverflow = true := by
  have hstep : ∀ (u : State ι α) (a : Act ι α) (v : State ι α),
      InRange idx u ∧ u.eoverflow = true → True → (machine α .sem idx).next u a = some v →
      InRange idx v ∧ v.eoverflow = true := by
    rintro u a v ⟨hu, ho⟩ - hnext
    refine ⟨hu.next hnext, ?_⟩
    rcases (step_inv hu.inv.inBuild hnext).sem_cases hu.sem_le with ⟨heq, -⟩ | ⟨htrue, -⟩
    · exact heq.trans ho
    · exact htrue
  exact (Machine.exec_guarded_induction hstep ⟨h, ho⟩ Machine.allSteps_true hrun).2

/-- **Run lemma**: no `sem_post` fails exactly if at no point of the run the posts get ahead of the
waits by more than there is room for. -/
theorem eoverflow_iff {sched : List (Act ι α)} (h : InRange idx s) (ho : s.eoverflow = false)
    (hrun : (machine α .sem idx).exec s sched = some t) :
    t.eoverflow = false ↔ ∀ pre, pre <+: sched →
      s.sem + (machine α .sem idx).count isPost s pre ≤
        (machine α .sem idx).count isWait s pre + SEM_VALUE_MAX := by
  have hmax := h.sem_le
  induction sched generalizing s with
  | nil =>
    obtain rfl := Option.some.inj hrun
    refine iff_of_true ho ?_
    intro pre hpre
    rw [List.prefix_nil.mp hpre, Machine.count_nil, Machine.count_nil]
    omega
  | cons a sched ih =>
    obtain ⟨u, hnext, hrest⟩ := Machine.exec_cons_inv hrun
    have hu := h.next hnext
    rcases (step_inv h.inv.inBuild hnext).sem_cases hmax with
      ⟨heq, hle, hbalance⟩ | ⟨htrue, hfull, -, hpost, hwait⟩
    · refine (ih hu (heq.trans ho) hrest hle).trans ?_
      constructor
      · intro hall pre hpre
        cases pre with
        | nil =>
          rw [Machine.count_nil, Machine.count_nil]
          omega
        | cons a' pre =>
          obtain ⟨rfl, hrest'⟩ := List.cons_prefix_cons.mp hpre
          have hle := hall pre hrest'
          rw [Machine.count_cons_of_next hnext, Machine.count_cons_of_next hnext]
          omega
      · intro hall pre hpre
        have hle := hall (a :: pre) (List.cons_prefix_cons.mpr ⟨rfl, hpre⟩)
        rw [Machine.count_cons_of_next hnext, Machine.count_cons_of_next hnext] at hle
        omega
    · -- this is the post that fails
      have htrue' := eoverflow_of_exec hu htrue hrest
      refine iff_of_false (by rw [htrue']; exact Bool.false_ne_true.symm) ?_
      intro hall
      have hle := hall [a] (List.cons_prefix_cons.mpr ⟨rfl, List.nil_prefix⟩)
      rw [Machine.count_cons_of_next hnext, Machine.count_cons_of_next hnext, hpost, hwait] at hle
      simp only [Machine.count_nil, Bool.toNat_true, Bool.toNat_false] at hle
      omega

/-! ## A producer alone -/

omit [DecidableEq ι] in
theorem semPost_sem (s : State ι α) :
    s.semPost.sem = if s.sem = SEM_VALUE_MAX then s.sem else s.sem + 1 := by
  unfold State.semPost
  split <;> rfl

omit [DecidableEq ι] in
theorem semPost_eoverflow (s : State ι α) :
    s.semPost.eoverflow = if s.sem = SEM_VALUE_MAX then true else s.eoverflow := by
  unfold State.semPost
  split <;> rfl

variable {i : ι}

/-- From the lock of a free queue to the test of its size. -/
theorem exec_push (info : α) (hpc : s.notify i = .lock)
    (hfree : s.owner (.queue (side (idx i))) = none) :
    ∃ u, (machine α .sem idx).exec s [.notify i info, .notify i info] = some u ∧
      u.notify i = .test ∧ u.sem = s.sem ∧ u.eoverflow = s.eoverflow := by
  have hlock : (machine α .sem idx).next s (.notify i info) = some (State.goto { s with
      owner := Function.update s.owner (.queue (side (idx i))) (some (.producer i)) } i .push) := by
    simp only [machine, step, notifyRoutine, hpc, State.lock, hfree, Option.map_some]
  generalize hs₁ : State.goto { s with
    owner := Function.update s.owner (.queue (side (idx i))) (some (.producer i)) } i .push =
      s₁ at hlock
  have hpc₁ : s₁.notify i = .push := by
    rw [← hs₁, State.goto_notify, Function.update_self]
  have hpush : (machine α .sem idx).next s₁ (.notify i info) =
      some ((s₁.push (side (idx i)) info).goto i .test) := by
    simp only [machine, step, notifyRoutine, hpc₁]
  have hrun : (machine α .sem idx).exec s [.notify i info, .notify i info] =
      some ((s₁.push (side (idx i)) info).goto i .test) := by
    rw [Machine.exec_cons_of_next hlock, Machine.exec_cons_of_next hpush, Machine.exec_nil]
  refine ⟨_, hrun, Function.update_self .., ?_, ?_⟩ <;> rw [← hs₁] <;> rfl

/-- From the test to the unlock, with a drop or without. -/
theorem exec_test (idx : ι → Int) (info : α) (hpc : s.notify i = .test) :
    ∃ sched u, (machine α .sem idx).exec s sched = some u ∧ u.notify i = .unlock ∧
      u.sem = s.sem ∧ u.eoverflow = s.eoverflow := by
  by_cases hlen : (s.queue (side (idx i))).length > 4
  · have htest : (machine α .sem idx).next s (.notify i info) = some (s.goto i .drop) := by
      simp only [machine, step, notifyRoutine, hpc, if_pos hlen]
    have hpc₁ : (s.goto i .drop).notify i = .drop := Function.update_self ..
    have hdrop : (machine α .sem idx).next (s.goto i .drop) (.notify i info) =
        some (((s.goto i .drop).pop (side (idx i))).goto i .unlock) := by
      simp only [machine, step, notifyRoutine, hpc₁]
    have hrun : (machine α .sem idx).exec s [.notify i info, .notify i info] =
        some (((s.goto i .drop).pop (side (idx i))).goto i .unlock) := by
      rw [Machine.exec_cons_of_next htest, Machine.exec_cons_of_next hdrop, Machine.exec_nil]
    exact ⟨_, _, hrun, Function.update_self .., State.pop_sem (s.goto i .drop) _,
      State.pop_eoverflow (s.goto i .drop) _⟩
  · have htest : (machine α .sem idx).next s (.notify i info) = some (s.goto i .unlock) := by
      simp only [machine, step, notifyRoutine, hpc, if_neg hlen]
    have hrun : (machine α .sem idx).exec s [.notify i info] = some (s.goto i .unlock) := by
      rw [Machine.exec_cons_of_next htest, Machine.exec_nil]
    exact ⟨_, _, hrun, Function.update_self .., rfl, rfl⟩

/-- From the unlock to the end of the `sem_post`. -/
theorem exec_post (idx : ι → Int) (info : α) (hpc : s.notify i = .unlock) :
    ∃ u, (machine α .sem idx).exec s [.notify i info, .notify i info] = some u ∧
      u.notify i = .lock ∧ u.owner (.queue (side (idx i))) = none ∧ u.sem = s.semPost.sem ∧
      u.eoverflow = s.semPost.eoverflow := by
  have hunlock : (machine α .sem idx).next s (.notify i info) =
      some ((s.unlock (.queue (side (idx i)))).goto i .post) := by
    simp only [machine, step, notifyRoutine, hpc]
  generalize hs₁ : (s.unlock (.queue (side (idx i)))).goto i .post = s₁ at hunlock
  have hpc₁ : s₁.notify i = .post := by
    rw [← hs₁, State.goto_notify, Function.update_self]
  have hpost : (machine α .sem idx).next s₁ (.notify i info) = some (s₁.semPost.goto i .lock) := by
    simp only [machine, step, notifyRoutine, hpc₁]
  have hrun : (machine α .sem idx).exec s [.notify i info, .notify i info] =
      some (s₁.semPost.goto i .lock) := by
    rw [Machine.exec_cons_of_next hunlock, Machine.exec_cons_of_next hpost, Machine.exec_nil]
  refine ⟨_, hrun, Function.update_self .., ?_, ?_, ?_⟩
  · rw [State.goto_owner, State.semPost_owner, ← hs₁]
    exact Function.update_self ..
  · rw [State.goto_sem, semPost_sem, semPost_sem, ← hs₁]
    rfl
  · show s₁.semPost.eoverflow = _
    rw [semPost_eoverflow, semPost_eoverflow, ← hs₁]
    rfl

/-- **One turn of `notify_routine`**, which begins and ends with the queue's mutex free. -/
theorem exec_turn (idx : ι → Int) (info : α) (hpc : s.notify i = .lock)
    (hfree : s.owner (.queue (side (idx i))) = none) :
    ∃ sched u, (machine α .sem idx).exec s sched = some u ∧ u.notify i = .lock ∧
      u.owner (.queue (side (idx i))) = none ∧ u.sem = s.semPost.sem ∧
      u.eoverflow = s.semPost.eoverflow := by
  obtain ⟨s₁, hrun₁, hpc₁, hsem₁, ho₁⟩ := exec_push info hpc hfree
  obtain ⟨sched₂, s₂, hrun₂, hpc₂, hsem₂, ho₂⟩ := exec_test idx info hpc₁
  obtain ⟨s₃, hrun₃, hpc₃, hfree₃, hsem₃, ho₃⟩ := exec_post idx info hpc₂
  have hrun := (Machine.exec_append_of_exec hrun₁).trans
    ((Machine.exec_append_of_exec hrun₂).trans hrun₃)
  refine ⟨_, s₃, hrun, hpc₃, hfree₃, ?_, ?_⟩
  · rw [hsem₃, semPost_sem, semPost_sem, hsem₂, hsem₁]
  · rw [ho₃, semPost_eoverflow, semPost_eoverflow, hsem₂, hsem₁, ho₂, ho₁]

/-- **Every value is reached** by a producer that takes turns alone, however short the queues
stay. -/
theorem exec_turns (idx : ι → Int) (info : α) (i : ι) : ∀ n ≤ SEM_VALUE_MAX, ∃ sched u,
    (machine α .sem idx).exec (State.initial ι α) sched = some u ∧ u.notify i = .lock ∧
      u.owner (.queue (side (idx i))) = none ∧ u.sem = n ∧ u.eoverflow = false
  | 0, _ => ⟨[], _, rfl, rfl, rfl, rfl, rfl⟩
  | n + 1, hn => by
    obtain ⟨sched, u, hrun, hpc, hfree, hsem, ho⟩ := exec_turns idx info i n (by omega)
    obtain ⟨sched', v, hrun', hpc', hfree', hsem', ho'⟩ := exec_turn idx info hpc hfree
    have hless : u.sem ≠ SEM_VALUE_MAX := by omega
    refine ⟨_, v, (Machine.exec_append_of_exec hrun).trans hrun', hpc', hfree', ?_, ?_⟩
    · rw [hsem', semPost_sem, if_neg hless, hsem]
    · rw [ho', semPost_eoverflow, if_neg hless, ho]

/-! ## When `sem_post` fails -/

/-- **When `sem_post` fails**: in every run of the semaphore build the value stays in its range, and
no `sem_post` has failed exactly if at no point of the run the producers were ahead of the consumer
by more than `SEM_VALUE_MAX` turns (posts against waits). -/
theorem sem_post_fails_iff (idx : ι → Int) (sched : List (Act ι α)) (s : State ι α)
    (hrun : (machine α .sem idx).exec (State.initial ι α) sched = some s) :
    s.sem ≤ SEM_VALUE_MAX ∧ (s.eoverflow = false ↔ ∀ pre, pre <+: sched →
      (machine α .sem idx).count isPost (State.initial ι α) pre ≤
        (machine α .sem idx).count isWait (State.initial ι α) pre + SEM_VALUE_MAX) := by
  constructor
  · refine (Machine.exec_guarded_induction (M := machine α .sem idx) (P := InRange idx)
      (G := fun _ _ => True) ?_ (inRange_initial idx) Machine.allSteps_true hrun).sem_le
    exact fun _ _ _ hu _ hnext => hu.next hnext
  · refine (eoverflow_iff (inRange_initial idx) rfl hrun).trans (forall_congr' fun pre => ?_)
    rw [show (State.initial ι α).sem = 0 from rfl, Nat.zero_add]

theorem sem_post_fails_iff_oneItem : oneItem.sem ≤ SEM_VALUE_MAX ∧
    ∀ pre, pre <+: List.replicate 5 (.notify false ()) ++ List.replicate 6 .wait →
      (machine Unit .sem mainIdx).count isPost (State.initial Bool Unit) pre ≤
        (machine Unit .sem mainIdx).count isWait (State.initial Bool Unit) pre + SEM_VALUE_MAX := by
  obtain ⟨hle, hiff⟩ := sem_post_fails_iff mainIdx _ oneItem (Option.some_get _).symm
  exact ⟨hle, hiff.mp (by decide)⟩

/-- **A `sem_post` that fails**: one producer takes `SEM_VALUE_MAX` turns, and one more, before the
consumer first runs. -/
theorem sem_post_fails :
    ∃ s : State Bool Unit, (machine Unit .sem mainIdx).Reachable s ∧ s.eoverflow = true := by
  obtain ⟨sched, u, hrun, hpc, hfree, hsem, -⟩ :=
    exec_turns mainIdx () false SEM_VALUE_MAX le_rfl
  obtain ⟨sched', v, hrun', -, -, -, ho⟩ := exec_turn mainIdx () hpc hfree
  refine ⟨v, ⟨_, sched ++ sched', rfl, (Machine.exec_append_of_exec hrun).trans hrun'⟩, ?_⟩
  rw [ho, semPost_eoverflow, if_pos hsem]

end EngineerLinux.PairedQueue
