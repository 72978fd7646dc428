import EngineerLinux.PairedQueue.Invariants

/-!
# Wake-ups and pairs

The consumer removes at most one pair each time it is woken, so a pair is served only if some
wake-up is still to come. `pairs` counts the pairs that wait, `credit` the wake-ups that are due:
those delivered but not consumed (the semaphore's value, or the flag `ready`), those a producer
still owes for an item it has pushed, and the one a woken consumer is spending. `Credit` says that
there are enough of them.

- A push adds at most one pair and one wake-up owed; the consumer's test spends a wake-up and
  removes a pair unless there is none; dropping the oldest item takes back no wake-up.
- In the semaphore build every owed wake-up is delivered, or the semaphore is at its maximum,
  which is far above what the queues hold: `Credit` is an invariant (`credit_of_reachable`).
- In the condition-variable build a `notify()` that finds `ready` already set delivers nothing.
  `Credit` survives exactly when the wake-up lost that way was not needed (`NotifyCounts`).

`sem_build_no_lost_wakeup` and `cond_build_no_stranded_pair` read what holds while the consumer
waits off `Credit`; `cond_build_strands_pair` is a run of the condition-variable build in which
a pair stays behind.
-/

namespace EngineerLinux.PairedQueue

open Slots

variable {ι α : Type}

/-! ## The two counts -/

/-- A producer at this point has pushed an item and not yet delivered the wake-up for it. -/
def NotifyPc.owed : NotifyPc → Nat
  | .test | .drop | .unlock | .post | .lockThread | .setReady => 1
  | .lock | .push | .notifyAll | .unlockThread => 0

/-- A producer at this point is between its push and the end of its `sem_post` or `notify()`. -/
def NotifyPc.signalling : NotifyPc → Bool
  | .lock | .push => false
  | _ => true

/-- The consumer has been woken and not yet finished the removal the wake-up is good for. -/
def WaitPc.woken : WaitPc → Nat
  | .lock1 | .lock2 | .test | .pop1 | .pop2 => 1
  | _ => 0

/-- The consumer is inside `cond.wait(lock)`. -/
def WaitPc.waiting (pc : WaitPc) : Prop := pc = .blocked ∨ pc = .relock

/-- The consumer has popped the first item of a pair only. -/
def WaitPc.half : WaitPc → Nat
  | .pop2 => 1
  | _ => 0

/-- The pairs that wait; one half removed counts as waiting. -/
def pairs (s : State ι α) : Nat :=
  min ((s.queue .one).length + s.wait.half) (s.queue .two).length

/-- The wake-ups delivered and not consumed. -/
def delivered (b : Build) (s : State ι α) : Nat :=
  match b with
  | .sem => s.sem
  | .cond => s.ready.toNat

section Credit

variable [Fintype ι]

/-- The wake-ups that are due: delivered, owed by a producer, or being spent. -/
def credit (b : Build) (s : State ι α) : Nat :=
  delivered b s + total NotifyPc.owed s.notify + s.wait.woken

/-- There are as many wake-ups due as pairs waiting. -/
def Credit (b : Build) (s : State ι α) : Prop := pairs s ≤ credit b s

/-- The step does not lose a wake-up that is needed: if it is the assignment `ready = true` of a
`notify()` and the flag is set already, then the shorter queue is no longer than the number of
producers that have pushed and not yet notified, this one included. -/
def NotifyCounts (s : State ι α) : Act ι α → Prop
  | .notify i _ => s.notify i = .setReady → s.ready = true →
      min (s.queue .one).length (s.queue .two).length ≤ total NotifyPc.owed s.notify
  | _ => True

instance (s : State ι α) (a : Act ι α) : Decidable (NotifyCounts s a) := by
  cases a <;> unfold NotifyCounts <;> infer_instance

variable {b : Build} {idx : ι → Int} {s s' : State ι α}

theorem credit_initial (b : Build) : Credit b (State.initial ι α) := Nat.zero_le _

/-- The consumer's steps keep the credit: only its test spends a wake-up, and it does so with a
pair or when there is none. -/
theorem Credit.waitStep (h : Credit b s) (hs : WaitStep b s s') : Credit b s' := by
  unfold Credit credit pairs at h ⊢
  cases hs with
  | semWait hb hpc hv =>
    subst hb
    simp only [hpc, delivered, WaitPc.half, WaitPc.woken] at h ⊢
    omega
  | lockThread hb hpc hfree =>
    subst hb
    rcases hpc with hpc | hpc <;> simp only [hpc, delivered, WaitPc.half, WaitPc.woken] at h ⊢ <;>
      exact h
  | clear hpc =>
    have hr := Bool.toNat_le s.ready
    cases b <;> simp only [hpc, delivered, WaitPc.half, WaitPc.woken, Bool.toNat_false] at h ⊢ <;>
      omega
  | noPair hpc hq =>
    have hzero : min (s.queue .one).length (s.queue .two).length = 0 := by
      rcases hq with hq | hq <;> simp [hq]
    simp only [hpc, WaitPc.half, Nat.add_zero] at h ⊢
    omega
  | pop1 hpc =>
    simp only [hpc, delivered, WaitPc.half, WaitPc.woken, State.pop_queue, Function.update_self,
      ne_eq, reduceCtorEq, not_false_eq_true, Function.update_of_ne, List.length_tail,
      State.pop_sem, State.pop_ready, State.pop_notify] at h ⊢
    omega
  | pop2 hpc =>
    simp only [hpc, delivered, WaitPc.half, WaitPc.woken, State.pop_queue, Function.update_self,
      ne_eq, reduceCtorEq, not_false_eq_true, Function.update_of_ne, List.length_tail,
      State.pop_sem, State.pop_ready, State.pop_notify] at h ⊢
    omega
  | unlock1 hpc =>
    cases b <;> simpa [hpc, delivered, WaitPc.half, WaitPc.woken] using h
  | isReady hpc _ | sleep hpc _ | lock1 hpc _ | lock2 hpc _ | pair hpc _ _ | unlock2 hpc
  | unlock hpc =>
    simpa [hpc, delivered, WaitPc.half, WaitPc.woken] using h

omit [Fintype ι] in
/-- The pairs after a push are at most one more. -/
theorem pairs_push_le (s : State ι α) (k : Side) (info : α) :
    pairs (s.push k info) ≤ pairs s + 1 := by
  unfold pairs
  cases k <;> simp only [State.push_queue, State.push_wait, Function.update_self, ne_eq,
    reduceCtorEq, not_false_eq_true, Function.update_of_ne, List.length_append,
    List.length_cons, List.length_nil] <;> omega

omit [Fintype ι] in
/-- Dropping the oldest item adds no pair. -/
theorem pairs_pop_le (s : State ι α) (k : Side) : pairs (s.pop k) ≤ pairs s := by
  unfold pairs
  cases k <;> simp only [State.pop_queue, State.pop_wait, Function.update_self, ne_eq,
    reduceCtorEq, not_false_eq_true, Function.update_of_ne, List.length_tail] <;> omega

variable [DecidableEq ι] {i : ι} {info : α}

/-- Producer `i` moves to `p`: the credit is kept if the pairs and the owed wake-ups it adds are
balanced by the wake-ups it delivers. -/
theorem Credit.goto (h : Credit b s) {p : NotifyPc}
    (hnotify : s'.notify = Function.update s.notify i p)
    (hwoken : s'.wait.woken = s.wait.woken)
    (hbalance : pairs s' + delivered b s + (s.notify i).owed ≤
      pairs s + delivered b s' + p.owed) : Credit b s' := by
  have ht := total_update NotifyPc.owed s.notify i p
  unfold Credit credit at h ⊢
  rw [hnotify, hwoken]
  omega

/-- A `notify()` that finds `ready` set delivers nothing; that is harmless if the pairs are no
more than the wake-ups owed. -/
theorem Credit.setReady {idx : ι → Int} (hinv : Inv .cond idx s) (h : Credit .cond s)
    (hpc : s.notify i = .setReady) (hG : NotifyCounts s (.notify i info)) :
    Credit .cond ({ s with ready := true }.goto i .notifyAll) := by
  cases hr : s.ready with
  | false =>
    refine h.goto rfl rfl ?_
    show pairs s + s.ready.toNat + (s.notify i).owed ≤ pairs s + 1 + 0
    rw [hpc, hr]
    exact le_rfl
  | true =>
    -- the producer holds `mutex_thread`, so the consumer is outside its critical section and no
    -- pair is half removed
    have hi : holds .cond idx s (.producer i) .thread := by
      simp [holds, NotifyPc.holds, NotifyPc.inThread, hpc]
    have hc : ¬ holds .cond idx s .consumer .thread := by
      intro hc
      cases hinv.exclusive.unique hi hc
    have hhalf : s.wait.half = 0 := by
      cases hw : s.wait with
      | pop2 => exact absurd (by simp [holds, WaitPc.holds, hw]) hc
      | _ => rfl
    have hpairs : pairs s = min (s.queue .one).length (s.queue .two).length := by
      unfold pairs
      rw [hhalf, Nat.add_zero]
    have hmin := hG hpc hr
    have ht := total_update NotifyPc.owed s.notify i .notifyAll
    rw [hpc] at ht
    simp only [NotifyPc.owed] at ht
    show pairs s ≤ 1 + total NotifyPc.owed (Function.update s.notify i .notifyAll) + s.wait.woken
    omega

/-- `sem_post` adds one to the value, or the value is far above what the queues hold. -/
theorem Credit.semPost {idx : ι → Int} (hinv : Inv .sem idx s) (h : Credit .sem s)
    (hpc : s.notify i = .post) : Credit .sem (s.semPost.goto i .lock) := by
  rcases s.semPost_cases with ⟨hmax, hpost⟩ | ⟨-, hpost⟩
  · -- the post is lost, at a value that is far above what the queues hold
    have hle : pairs s ≤ 5 := (min_le_right _ _).trans (hinv.length_le .two)
    rw [hpost]
    show pairs s ≤ s.sem + total NotifyPc.owed (Function.update s.notify i .lock) + s.wait.woken
    rw [hmax, SEM_VALUE_MAX]
    omega
  · rw [hpost]
    refine h.goto rfl rfl ?_
    show pairs s + s.sem + (s.notify i).owed ≤ pairs s + (s.sem + 1) + 0
    rw [hpc]
    exact le_rfl

/-- The producers' steps keep the credit, unless a `notify()` is lost that is needed. -/
theorem Credit.notifyStep (hinv : Inv b idx s) (h : Credit b s)
    (hs : NotifyStep b (side (idx i)) s i info s')
    (hG : b = .cond → NotifyCounts s (.notify i info)) :
    Credit b s' := by
  cases hs with
  | lock hpc hfree =>
    refine h.goto rfl rfl ?_
    rw [hpc]
    exact le_rfl
  | push hpc =>
    refine h.goto rfl rfl ?_
    have hp := pairs_push_le s (side (idx i)) info
    show pairs (s.push (side (idx i)) info) + delivered b s + _ ≤ pairs s + delivered b s + 1
    rw [hpc, NotifyPc.owed]
    omega
  | tooMany hpc hlen =>
    refine h.goto rfl rfl ?_
    rw [hpc]
    exact le_rfl
  | fits hpc hlen =>
    refine h.goto rfl rfl ?_
    rw [hpc]
    exact le_rfl
  | drop hpc =>
    refine h.goto (i := i) (p := .unlock) (by simp) (by simp) ?_
    have hp := pairs_pop_le s (side (idx i))
    have hd : delivered b (s.pop (side (idx i))) = delivered b s := by
      cases b <;> simp [delivered]
    show pairs (s.pop (side (idx i))) + delivered b s + _ ≤
      pairs s + delivered b (s.pop (side (idx i))) + 1
    rw [hd, hpc, NotifyPc.owed]
    omega
  | unlock hpc =>
    refine h.goto rfl rfl ?_
    rw [hpc]
    cases b <;> exact le_rfl
  | post hb hpc =>
    subst hb
    exact h.semPost hinv hpc
  | lockThread hb hpc hfree =>
    refine h.goto rfl rfl ?_
    rw [hpc]
    exact le_rfl
  | setReady hb hpc =>
    subst hb
    exact h.setReady hinv hpc (hG rfl)
  | notifyAll hb hpc =>
    -- a consumer woken from `cond.wait` has not consumed the wake-up yet
    subst hb
    have hw : s.notifyAll.wait.half = s.wait.half ∧ s.notifyAll.wait.woken = s.wait.woken := by
      rcases notifyAll_wait s with ⟨hblocked, hrelock⟩ | hsame
      · rw [hblocked, hrelock]
        exact ⟨rfl, rfl⟩
      · rw [hsame]
        exact ⟨rfl, rfl⟩
    refine h.goto (i := i) (p := .unlockThread) (by simp) hw.2 ?_
    have hp : pairs s.notifyAll = pairs s := by simp [pairs, hw.1]
    have hd : delivered .cond s.notifyAll = delivered .cond s := by simp [delivered]
    show pairs s.notifyAll + delivered .cond s + _ ≤ pairs s + delivered .cond s.notifyAll + 0
    rw [hp, hd, hpc]
    exact le_rfl
  | unlockThread hb hpc =>
    refine h.goto rfl rfl ?_
    rw [hpc]
    exact le_rfl

/-- **Step lemma**: a step keeps the credit, unless it is a `notify()` that is lost and needed. -/
theorem Credit.step {a : Act ι α} (hinv : Inv b idx s) (h : Credit b s) (hs : Step b idx s a s')
    (hG : b = .cond → NotifyCounts s a) : Credit b s' := by
  cases hs with
  | wait hw => exact h.waitStep hw
  | spurious hpc =>
    unfold Credit credit pairs delivered at h ⊢
    simpa only [hpc, WaitPc.half, WaitPc.woken] using h
  | notify hn => exact h.notifyStep hinv hn hG

/-! ## Runs -/

omit [DecidableEq ι] in
/-- Producers that are not between a push and the end of its wake-up owe nothing. -/
theorem total_owed_of_quiet (h : ∀ i, (s.notify i).signalling = false) :
    total NotifyPc.owed s.notify = 0 := by
  refine total_eq_zero fun i => ?_
  have hi := h i
  cases hpc : s.notify i with
  | lock | push => rfl
  | _ => rw [hpc] at hi; cases hi

omit [DecidableEq ι] in
/-- With no wake-up due there is no pair. -/
theorem Credit.no_pair (h : Credit b s) (hdelivered : delivered b s = 0)
    (hwoken : s.wait.woken = 0) (hquiet : ∀ i, (s.notify i).signalling = false) :
    ¬ (s.queue .one ≠ [] ∧ s.queue .two ≠ []) := by
  rintro ⟨h1, h2⟩
  have hlen1 := List.length_pos_iff.mpr h1
  have hlen2 := List.length_pos_iff.mpr h2
  have howed := total_owed_of_quiet hquiet
  unfold Credit credit pairs at h
  omega

/-- **Run lemma, semaphore build**: every reachable state has as many wake-ups due as pairs. -/
theorem credit_of_reachable (h : (machine α .sem idx).Reachable s) : Credit .sem s := by
  suffices hboth : Inv .sem idx s ∧ Credit .sem s from hboth.2
  refine h.induction (P := fun u => Inv .sem idx u ∧ Credit .sem u) (fun u hu => ?_) ?_
  · obtain rfl := hu
    exact ⟨inv_initial .sem idx, credit_initial .sem⟩
  · rintro u a t ⟨hinv, hcredit⟩ hnext
    have hs := step_inv hinv.inBuild hnext
    exact ⟨hinv.step hs, hcredit.step hinv hs nofun⟩

/-- **Run lemma, condition-variable build**: the credit holds along a run whose steps all meet
`NotifyCounts`. -/
theorem allStates_credit {sched : List (Act ι α)}
    (hG : (machine α .cond idx).AllSteps NotifyCounts (State.initial ι α) sched) :
    (machine α .cond idx).AllStates (fun u => Inv .cond idx u ∧ Credit .cond u)
      (State.initial ι α) sched := by
  refine Machine.allStates_of_inductive ?_ ⟨inv_initial .cond idx, credit_initial .cond⟩ hG
  rintro u a t ⟨hinv, hcredit⟩ hu hnext
  have hs := step_inv hinv.inBuild hnext
  exact ⟨hinv.step hs, hcredit.step hinv hs fun _ => hu⟩

/-! ## When the consumer waits -/

/-- The two producers of `main`: `notify_routine(1)` and `notify_routine(2)`. -/
def mainIdx : Bool → Int
  | false => 1
  | true => 2

/-- **The semaphore build loses no wake-up**: when the consumer is blocked in `sem_wait` at 0 and
no producer is between its push and its `sem_post`, the queues are not both non-empty. -/
theorem sem_build_no_lost_wakeup (idx : ι → Int) (s : State ι α)
    (h : (machine α .sem idx).Reachable s) (hpc : s.wait = .top) (hsem : s.sem = 0)
    (hquiet : ∀ i, (s.notify i).signalling = false) :
    ¬ (s.queue .one ≠ [] ∧ s.queue .two ≠ []) :=
  (credit_of_reachable h).no_pair hsem (by rw [hpc]; rfl) hquiet

/-- The semaphore build after one item in the first queue and one wake-up spent on it. -/
def oneItem : State Bool Unit :=
  ((machine Unit .sem mainIdx).exec (State.initial Bool Unit)
    (List.replicate 5 (.notify false ()) ++ List.replicate 6 .wait)).get (by decide)

theorem sem_build_no_lost_wakeup_oneItem :
    ¬ (oneItem.queue .one ≠ [] ∧ oneItem.queue .two ≠ []) :=
  sem_build_no_lost_wakeup mainIdx oneItem ⟨_, _, rfl, (Option.some_get _).symm⟩ (by decide)
    (by decide) (by decide)

/-- **The condition-variable build**: in a run in which every `notify()` that finds `ready`
already set is superfluous, a consumer waiting on `cond` with `ready == false`, while no producer
is between its push and the end of its `notify()`, leaves no pair in the queues. -/
theorem cond_build_no_stranded_pair (idx : ι → Int) (sched : List (Act ι α))
    (hG : (machine α .cond idx).AllSteps NotifyCounts (State.initial ι α) sched) :
    (machine α .cond idx).AllStates
      (fun s => s.wait.waiting → s.ready = false → (∀ i, (s.notify i).signalling = false) →
        ¬ (s.queue .one ≠ [] ∧ s.queue .two ≠ []))
      (State.initial ι α) sched := by
  refine (allStates_credit hG).mono fun u hu hpc hready hquiet => hu.2.no_pair ?_ ?_ hquiet
  · simp [delivered, hready]
  · rcases hpc with hpc | hpc <;> rw [hpc] <;> rfl

/-- One turn of a producer's loop in the condition-variable build, the queue not overflowing. -/
def turn (i : Bool) : List (Act Bool Unit) := List.replicate 8 (.notify i ())

/-- One turn of the consumer's loop with a pair, and its return to `cond.wait`. -/
def serve : List (Act Bool Unit) := List.replicate 13 .wait

/-- One item in each queue, then the consumer: the second notification is superfluous. -/
theorem cond_build_no_stranded_pair_once :
    (machine Unit .cond mainIdx).AllStates
      (fun s => s.wait.waiting → s.ready = false → (∀ i, (s.notify i).signalling = false) →
        ¬ (s.queue .one ≠ [] ∧ s.queue .two ≠ []))
      (State.initial Bool Unit) (turn false ++ turn true ++ serve) :=
  cond_build_no_stranded_pair mainIdx _ (by decide)

/-- **A stranded pair**: each producer pushes and notifies twice before the consumer starts. The
four notifications are one `ready`; the consumer takes one pair and waits, and the second pair
stays. -/
theorem cond_build_strands_pair :
    ∃ s, (machine Unit .cond mainIdx).exec (State.initial Bool Unit)
        (turn false ++ turn false ++ turn true ++ turn true ++ serve) = some s ∧
      s.wait.waiting ∧ s.ready = false ∧ (∀ i, (s.notify i).signalling = false) ∧
      s.queue .one ≠ [] ∧ s.queue .two ≠ [] := by
  have hrun : ((machine Unit .cond mainIdx).exec (State.initial Bool Unit)
      (turn false ++ turn false ++ turn true ++ turn true ++ serve)).any
        (fun s => s.wait = .blocked ∧ s.ready = false ∧ (∀ i, (s.notify i).signalling = false) ∧
          s.queue .one ≠ [] ∧ s.queue .two ≠ []) = true := by decide
  obtain ⟨s, hs, hp⟩ := (Option.any_eq_true _ _).mp hrun
  obtain ⟨hpc, hready, hquiet, hpair⟩ := of_decide_eq_true hp
  exact ⟨s, hs, .inl hpc, hready, hquiet, hpair⟩

end Credit

end EngineerLinux.PairedQueue
