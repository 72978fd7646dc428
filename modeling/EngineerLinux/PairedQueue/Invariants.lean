import EngineerLinux.PairedQueue.Steps

/-!
# Mutual exclusion and queue lengths

The invariant shared by both builds of the paired-queue program:

- `inBuild`: every thread is at a program point of the compiled `#ifdef` branch;
- `exclusive`: the owner of each mutex is the thread whose program point lies inside the scope of
  the lock (`holds`), so no two threads are inside one scope;
- `cap`: a queue is at most four long, except that it may be five long while a producer is between
  its push and the drop of the oldest item (lines 104-106 and 109-111).

`Inv.step` is the step lemma and `inv_of_reachable` the run lemma. Each clause is preserved for a
reason of its own, so each has a lemma over the cases of `Step`, and `Inv.step` puts them together.
-/

namespace EngineerLinux.PairedQueue

open Slots

variable {ι α : Type}

/-! ## Who holds which mutex -/

/-- The mutexes the consumer holds at a program point. -/
def WaitPc.holds (b : Build) (pc : WaitPc) : Mutex → Bool
  | .thread =>
    match pc with
    | .top | .blocked | .relock => false
    | _ => b = .cond
  | .queue .one =>
    match pc with
    | .lock2 | .test | .pop1 | .pop2 | .unlock2 | .unlock1 => true
    | _ => false
  | .queue .two =>
    match pc with
    | .test | .pop1 | .pop2 | .unlock2 => true
    | _ => false

/-- The scope of `lock1` or `lock2` in `notify_routine`. -/
def NotifyPc.inQueue : NotifyPc → Bool
  | .push | .test | .drop | .unlock => true
  | _ => false

/-- The scope of `lock` in `notify`. -/
def NotifyPc.inThread : NotifyPc → Bool
  | .setReady | .notifyAll | .unlockThread => true
  | _ => false

/-- The mutexes a producer of queue `k` holds at a program point. -/
def NotifyPc.holds (k : Side) (pc : NotifyPc) : Mutex → Bool
  | .thread => pc.inThread
  | .queue j => pc.inQueue && j = k

/-- Thread `t` is at a program point where it holds the mutex. -/
def holds (b : Build) (idx : ι → Int) (s : State ι α) : Tid ι → Mutex → Prop
  | .consumer, m => s.wait.holds b m = true
  | .producer i, m => (s.notify i).holds (side (idx i)) m = true

/-- The owner table agrees with the program points. -/
def Exclusive (b : Build) (idx : ι → Int) (s : State ι α) : Prop := Owned s.owner (holds b idx s)

/-- To compare two program points it is enough to look at the three mutexes. -/
theorem forall_mutex {P : Mutex → Prop} (ht : P .thread) (h1 : P (.queue .one))
    (h2 : P (.queue .two)) : ∀ m, P m
  | .thread => ht
  | .queue .one => h1
  | .queue .two => h2

/-- Outside `mutex_thread`, two points in or out of the queue's scope alike hold the same. -/
theorem NotifyPc.holds_off_thread {k : Side} {pc pc' : NotifyPc} (h : pc.inQueue = pc'.inQueue) :
    ∀ m, m ≠ .thread → pc.holds k m = pc'.holds k m
  | .thread, hm => absurd rfl hm
  | .queue j, _ => by simp only [holds, h]

/-- Outside the producer's own queue mutex, two points in or out of `notify`'s scope alike hold
the same. -/
theorem NotifyPc.holds_off_queue {k : Side} {pc pc' : NotifyPc} (h : pc.inThread = pc'.inThread) :
    ∀ m, m ≠ .queue k → pc.holds k m = pc'.holds k m
  | .thread, _ => h
  | .queue j, hm => by
    have hj : j ≠ k := fun hj => hm (congrArg Mutex.queue hj)
    simp [holds, hj]

theorem NotifyPc.holds_same {k : Side} {pc pc' : NotifyPc} (hq : pc.inQueue = pc'.inQueue)
    (ht : pc.inThread = pc'.inThread) : ∀ m, pc.holds k m = pc'.holds k m
  | .thread => ht
  | .queue j => by simp only [holds, hq]

section Moves

variable {b : Build} {idx : ι → Int} {s s' : State ι α}

/-- Whether the consumer holds a mutex depends on its program point only. -/
theorem holds_consumer {m : Mutex} (h : s'.wait.holds b m = s.wait.holds b m) :
    holds b idx s' .consumer m ↔ holds b idx s .consumer m := by
  simp only [holds, h]

/-- When the consumer moves, what the others hold stays. -/
theorem holds_of_ne_consumer (hnotify : s'.notify = s.notify) {t : Tid ι} (ht : t ≠ .consumer)
    (m : Mutex) : holds b idx s' t m ↔ holds b idx s t m := by
  cases t with
  | consumer => exact absurd rfl ht
  | producer i => simp only [holds, hnotify]

/-- A producer in the scope of its queue's lock holds the mutex of this queue. -/
theorem holds_of_inQueue {i : ι} {k : Side} (hi : side (idx i) = k)
    (h : (s.notify i).inQueue = true) : holds b idx s (.producer i) (.queue k) := by
  show ((s.notify i).inQueue && k = side (idx i)) = true
  rw [h, hi, decide_eq_true rfl]
  rfl

/-- The consumer moves and takes the free mutex `m`. -/
theorem Exclusive.waitAcquire (h : Exclusive b idx s) {m : Mutex} (hfree : s.owner m = none)
    (howner : s'.owner = Function.update s.owner m (some .consumer))
    (hnotify : s'.notify = s.notify) (hself : s'.wait.holds b m = true)
    (hrest : ∀ m', m' ≠ m → s'.wait.holds b m' = s.wait.holds b m') : Exclusive b idx s' := by
  unfold Exclusive
  rw [howner]
  refine Owned.acquire h hfree hself (fun t m' hm => ?_)
    fun t ht => holds_of_ne_consumer hnotify ht m
  cases t with
  | consumer => exact holds_consumer (hrest m' hm)
  | producer i => exact holds_of_ne_consumer (t := .producer i) hnotify nofun m'

/-- The consumer moves and gives back the mutex `m`. -/
theorem Exclusive.waitRelease (h : Exclusive b idx s) {m : Mutex} (hheld : s.wait.holds b m = true)
    (howner : s'.owner = Function.update s.owner m none)
    (hnotify : s'.notify = s.notify) (hself : s'.wait.holds b m = false)
    (hrest : ∀ m', m' ≠ m → s'.wait.holds b m' = s.wait.holds b m') : Exclusive b idx s' := by
  unfold Exclusive
  rw [howner]
  refine Owned.release h (t := .consumer) hheld (by simp [holds, hself]) (fun t m' hm => ?_)
    fun t ht => holds_of_ne_consumer hnotify ht m
  cases t with
  | consumer => exact holds_consumer (hrest m' hm)
  | producer i => exact holds_of_ne_consumer (t := .producer i) hnotify nofun m'

/-- The consumer moves and keeps its mutexes. -/
theorem Exclusive.waitStay (h : Exclusive b idx s) (howner : s'.owner = s.owner)
    (hnotify : s'.notify = s.notify) (hsame : ∀ m, s'.wait.holds b m = s.wait.holds b m) :
    Exclusive b idx s' := by
  unfold Exclusive
  rw [howner]
  refine Owned.stay h fun t m => ?_
  cases t with
  | consumer => exact holds_consumer (hsame m)
  | producer i => exact holds_of_ne_consumer (t := .producer i) hnotify nofun m

variable [DecidableEq ι] {i : ι} {p : NotifyPc}

/-- When producer `i` moves, what the others hold stays. -/
theorem holds_of_ne_producer (hnotify : s'.notify = Function.update s.notify i p)
    (hwait : ∀ m, s'.wait.holds b m = s.wait.holds b m) {t : Tid ι} (ht : t ≠ .producer i)
    (m : Mutex) : holds b idx s' t m ↔ holds b idx s t m := by
  cases t with
  | consumer => exact holds_consumer (hwait m)
  | producer j =>
    have hji : j ≠ i := fun hji => ht (congrArg Tid.producer hji)
    simp only [holds, hnotify, Function.update_of_ne hji]

theorem holds_self (hnotify : s'.notify = Function.update s.notify i p) (m : Mutex) :
    holds b idx s' (.producer i) m ↔ p.holds (side (idx i)) m = true := by
  simp only [holds, hnotify, Function.update_self]

/-- Producer `i` moves and takes the free mutex `m`. -/
theorem Exclusive.notifyAcquire (h : Exclusive b idx s) {m : Mutex} (hfree : s.owner m = none)
    (howner : s'.owner = Function.update s.owner m (some (.producer i)))
    (hnotify : s'.notify = Function.update s.notify i p) (hwait : s'.wait = s.wait)
    (hself : p.holds (side (idx i)) m = true)
    (hrest : ∀ m', m' ≠ m →
      p.holds (side (idx i)) m' = (s.notify i).holds (side (idx i)) m') : Exclusive b idx s' := by
  unfold Exclusive
  rw [howner]
  have hsame : ∀ m, s'.wait.holds b m = s.wait.holds b m := fun m => by rw [hwait]
  refine Owned.acquire h hfree ((holds_self hnotify m).mpr hself) (fun t m' hm => ?_)
    fun t ht => holds_of_ne_producer hnotify hsame ht m
  by_cases ht : t = .producer i
  · rw [ht, holds_self hnotify, hrest m' hm]
    rfl
  · exact holds_of_ne_producer hnotify hsame ht m'

/-- Producer `i` moves and gives back the mutex `m`. -/
theorem Exclusive.notifyRelease (h : Exclusive b idx s) {m : Mutex}
    (hheld : (s.notify i).holds (side (idx i)) m = true)
    (howner : s'.owner = Function.update s.owner m none)
    (hnotify : s'.notify = Function.update s.notify i p) (hwait : s'.wait = s.wait)
    (hself : p.holds (side (idx i)) m = false)
    (hrest : ∀ m', m' ≠ m →
      p.holds (side (idx i)) m' = (s.notify i).holds (side (idx i)) m') : Exclusive b idx s' := by
  unfold Exclusive
  rw [howner]
  have hsame : ∀ m, s'.wait.holds b m = s.wait.holds b m := fun m => by rw [hwait]
  refine Owned.release h (t := .producer i) hheld ?_ (fun t m' hm => ?_)
    fun t ht => holds_of_ne_producer hnotify hsame ht m
  · rw [holds_self hnotify, hself]
    exact Bool.false_ne_true
  · by_cases ht : t = .producer i
    · rw [ht, holds_self hnotify, hrest m' hm]
      rfl
    · exact holds_of_ne_producer hnotify hsame ht m'

/-- Producer `i` moves and keeps its mutexes. -/
theorem Exclusive.notifyStay (h : Exclusive b idx s) (howner : s'.owner = s.owner)
    (hnotify : s'.notify = Function.update s.notify i p)
    (hwait : ∀ m, s'.wait.holds b m = s.wait.holds b m)
    (hsame : ∀ m, p.holds (side (idx i)) m = (s.notify i).holds (side (idx i)) m) :
    Exclusive b idx s' := by
  unfold Exclusive
  rw [howner]
  refine Owned.stay h fun t m => ?_
  by_cases ht : t = .producer i
  · rw [ht, holds_self hnotify, hsame m]
    rfl
  · exact holds_of_ne_producer hnotify hwait ht m

end Moves

/-! ## The invariant -/

/-- Producer `i` has pushed into queue `k` and not yet dropped the oldest item. -/
def Overflowing (idx : ι → Int) (s : State ι α) (k : Side) (i : ι) : Prop :=
  side (idx i) = k ∧ (s.notify i = .test ∨ s.notify i = .drop)

/-- The invariant of both builds. -/
structure Inv (b : Build) (idx : ι → Int) (s : State ι α) : Prop where
  inBuild : InBuild b s
  exclusive : Exclusive b idx s
  cap : ∀ k, (s.queue k).length ≤ 4 ∨
    ((s.queue k).length = 5 ∧ ∃ i, Overflowing idx s k i)

theorem inv_initial (b : Build) (idx : ι → Int) : Inv b idx (State.initial ι α) := by
  refine { inBuild := inBuild_initial b, exclusive := ?_, cap := fun _ => .inl (Nat.zero_le 4) }
  intro m t
  constructor
  · intro h
    cases h
  · intro h
    cases t with
    | consumer => exact absurd h (by revert m; exact forall_mutex nofun nofun nofun)
    | producer i => exact absurd h (by revert m; exact forall_mutex nofun nofun nofun)

variable {b : Build} {idx : ι → Int} {s s' : State ι α}

theorem Inv.length_le (h : Inv b idx s) (k : Side) : (s.queue k).length ≤ 5 := by
  rcases h.cap k with h4 | ⟨h5, -⟩ <;> omega

/-- A queue that got no longer, with the producers where they were. -/
theorem cap_shrink (h : Inv b idx s) (hnotify : s'.notify = s.notify)
    (hlen : ∀ k, (s'.queue k).length ≤ (s.queue k).length) (k : Side) :
    (s'.queue k).length ≤ 4 ∨ ((s'.queue k).length = 5 ∧ ∃ i, Overflowing idx s' k i) := by
  have hk := hlen k
  rcases h.cap k with h4 | ⟨h5, i, hi⟩
  · exact .inl (hk.trans h4)
  · by_cases heq : (s'.queue k).length = 5
    · refine .inr ⟨heq, i, ?_⟩
      unfold Overflowing
      rw [hnotify]
      exact hi
    · left
      omega

/-- What the consumer's steps do to the queues and the producers. -/
theorem WaitStep.frame (h : WaitStep b s s') :
    s'.notify = s.notify ∧ ∀ k, (s'.queue k).length ≤ (s.queue k).length := by
  have hpop : ∀ k j, ((s.pop k).queue j).length ≤ (s.queue j).length := by
    intro k j
    rw [State.pop_queue]
    by_cases hjk : j = k
    · subst hjk
      rw [Function.update_self, List.length_tail]
      exact Nat.sub_le _ _
    · rw [Function.update_of_ne hjk]
  cases h with
  | pop1 => exact ⟨State.pop_notify s .one, hpop .one⟩
  | pop2 => exact ⟨State.pop_notify s .two, hpop .two⟩
  | _ => exact ⟨rfl, fun _ => le_rfl⟩

/-- The consumer's steps keep the invariant. -/
theorem Inv.waitStep (h : Inv b idx s) (hs : WaitStep b s s') : Inv b idx s' := by
  have hcap := cap_shrink h hs.frame.1 hs.frame.2
  have hin' := h.inBuild.waitStep hs
  have hin := h.inBuild.wait
  have hex := h.exclusive
  cases hs with
  | semWait hb hpc hv =>
    subst hb
    refine ⟨hin', hex.waitStay rfl rfl ?_, hcap⟩
    rw [hpc]
    exact forall_mutex rfl rfl rfl
  | lockThread hb hpc hfree =>
    subst hb
    refine ⟨hin', hex.waitAcquire hfree rfl rfl rfl ?_, hcap⟩
    rcases hpc with hpc | hpc <;> rw [hpc] <;>
      exact forall_mutex (fun hne => absurd rfl hne) (fun _ => rfl) fun _ => rfl
  | isReady hpc hr =>
    rw [hpc] at hin
    cases b with
    | sem => cases hin
    | cond =>
      refine ⟨hin', hex.waitStay rfl rfl ?_, hcap⟩
      rw [hpc]
      exact forall_mutex rfl rfl rfl
  | sleep hpc hr =>
    rw [hpc] at hin
    cases b with
    | sem => cases hin
    | cond =>
      refine ⟨hin', hex.waitRelease (m := .thread) (by rw [hpc]; rfl) rfl rfl rfl ?_, hcap⟩
      rw [hpc]
      exact forall_mutex (fun hne => absurd rfl hne) (fun _ => rfl) fun _ => rfl
  | clear hpc =>
    rw [hpc] at hin
    cases b with
    | sem => cases hin
    | cond =>
      refine ⟨hin', hex.waitStay rfl rfl ?_, hcap⟩
      rw [hpc]
      exact forall_mutex rfl rfl rfl
  | lock1 hpc hfree =>
    refine ⟨hin', hex.waitAcquire hfree rfl rfl rfl ?_, hcap⟩
    rw [hpc]
    exact forall_mutex (fun _ => rfl) (fun hne => absurd rfl hne) fun _ => rfl
  | lock2 hpc hfree =>
    refine ⟨hin', hex.waitAcquire hfree rfl rfl rfl ?_, hcap⟩
    rw [hpc]
    exact forall_mutex (fun _ => rfl) (fun _ => rfl) fun hne => absurd rfl hne
  | pair hpc h1 h2 =>
    refine ⟨hin', hex.waitStay rfl rfl ?_, hcap⟩
    rw [hpc]
    exact forall_mutex rfl rfl rfl
  | noPair hpc hq =>
    refine ⟨hin', hex.waitStay rfl rfl ?_, hcap⟩
    rw [hpc]
    exact forall_mutex rfl rfl rfl
  | pop1 hpc =>
    refine ⟨hin', hex.waitStay (State.pop_owner s .one) (State.pop_notify s .one) ?_,
      hcap⟩
    rw [hpc]
    exact forall_mutex rfl rfl rfl
  | pop2 hpc =>
    refine ⟨hin', hex.waitStay (State.pop_owner s .two) (State.pop_notify s .two) ?_,
      hcap⟩
    rw [hpc]
    exact forall_mutex rfl rfl rfl
  | unlock2 hpc =>
    refine ⟨hin',
      hex.waitRelease (m := .queue .two) (by rw [hpc]; rfl) rfl rfl rfl ?_, hcap⟩
    rw [hpc]
    exact forall_mutex (fun _ => rfl) (fun _ => rfl) fun hne => absurd rfl hne
  | unlock1 hpc =>
    refine ⟨hin',
      hex.waitRelease (m := .queue .one) (by rw [hpc]; rfl) rfl rfl (by cases b <;> rfl) ?_, hcap⟩
    rw [hpc]
    exact forall_mutex (fun _ => by cases b <;> rfl) (fun hne => absurd rfl hne)
      fun _ => by cases b <;> rfl
  | unlock hpc =>
    rw [hpc] at hin
    cases b with
    | sem => cases hin
    | cond =>
      refine ⟨hin', hex.waitRelease (m := .thread) (by rw [hpc]; rfl) rfl rfl rfl ?_, hcap⟩
      rw [hpc]
      exact forall_mutex (fun hne => absurd rfl hne) (fun _ => rfl) fun _ => rfl

section Producer

variable [DecidableEq ι] {i : ι} {info : α}

/-- A step of producer `i` keeps the length bound once it keeps it for the producer's own
queue. -/
theorem cap_move (h : Inv b idx s) {p : NotifyPc}
    (hnotify : s'.notify = Function.update s.notify i p)
    (hother : ∀ k, k ≠ side (idx i) → s'.queue k = s.queue k)
    (hself : (s'.queue (side (idx i))).length ≤ 4 ∨
      ((s'.queue (side (idx i))).length = 5 ∧ ∃ j, Overflowing idx s' (side (idx i)) j))
    (k : Side) :
    (s'.queue k).length ≤ 4 ∨ ((s'.queue k).length = 5 ∧ ∃ j, Overflowing idx s' k j) := by
  by_cases hk : k = side (idx i)
  · rw [hk]
    exact hself
  · rw [hother k hk]
    rcases h.cap k with h4 | ⟨h5, j, hj, hpc⟩
    · exact .inl h4
    · have hji : j ≠ i := fun hji => hk (hji ▸ hj.symm)
      refine .inr ⟨h5, j, hj, ?_⟩
      rw [hnotify, Function.update_of_ne hji]
      exact hpc

/-- The same for a step that leaves the queues alone and does not start between push and drop. -/
theorem cap_keep (h : Inv b idx s) {p : NotifyPc}
    (hnotify : s'.notify = Function.update s.notify i p) (hqueue : s'.queue = s.queue)
    (hpc : s.notify i ≠ .test ∧ s.notify i ≠ .drop) (k : Side) :
    (s'.queue k).length ≤ 4 ∨ ((s'.queue k).length = 5 ∧ ∃ j, Overflowing idx s' k j) := by
  rw [hqueue]
  rcases h.cap k with h4 | ⟨h5, j, hj, hjpc⟩
  · exact .inl h4
  · have hji : j ≠ i := by
      rintro rfl
      rcases hjpc with h' | h'
      · exact hpc.1 h'
      · exact hpc.2 h'
    refine .inr ⟨h5, j, hj, ?_⟩
    rw [hnotify, Function.update_of_ne hji]
    exact hjpc

omit [DecidableEq ι] in
/-- While a producer of queue `k` is about to push, the queue is within its bound: a producer
between push and drop would hold the same mutex. -/
theorem Inv.length_at_push (h : Inv b idx s) (hpc : s.notify i = .push) :
    (s.queue (side (idx i))).length ≤ 4 := by
  rcases h.cap (side (idx i)) with h4 | ⟨-, j, hj, hjpc⟩
  · exact h4
  · have hi : holds b idx s (.producer i) (.queue (side (idx i))) :=
      holds_of_inQueue rfl (by rw [hpc]; rfl)
    have hj' : holds b idx s (.producer j) (.queue (side (idx i))) :=
      holds_of_inQueue hj (by rcases hjpc with hjpc | hjpc <;> rw [hjpc] <;> rfl)
    have hij : i = j := Tid.producer.inj (h.exclusive.unique hi hj')
    subst hij
    rcases hjpc with hjpc | hjpc <;> rw [hpc] at hjpc <;> cases hjpc

/-- The producers' steps keep the invariant. -/
theorem Inv.notifyStep (h : Inv b idx s) (hs : NotifyStep b (side (idx i)) s i info s') :
    Inv b idx s' := by
  have hin := h.inBuild.step (.notify hs)
  have hex := h.exclusive
  cases hs with
  | lock hpc hfree =>
    refine ⟨hin, hex.notifyAcquire hfree rfl rfl rfl (by simp [NotifyPc.holds, NotifyPc.inQueue])
      ?_, cap_keep h rfl rfl ?_⟩
    · rw [hpc]
      exact NotifyPc.holds_off_queue rfl
    · rw [hpc]
      exact ⟨nofun, nofun⟩
  | push hpc =>
    refine ⟨hin, hex.notifyStay rfl rfl (fun _ => rfl) ?_, cap_move h rfl ?_ ?_⟩
    · rw [hpc]
      exact NotifyPc.holds_same rfl rfl
    · intro k hk
      exact Function.update_of_ne hk _ _
    · -- at most four items before the push, and the producer is now before its size test
      have h4 := h.length_at_push hpc
      have hlen : (((s.push (side (idx i)) info).goto i .test).queue (side (idx i))).length =
          (s.queue (side (idx i))).length + 1 := by simp
      by_cases heq : (s.queue (side (idx i))).length = 4
      · exact .inr ⟨by rw [hlen, heq], i, rfl, .inl (by simp)⟩
      · left
        omega
  | tooMany hpc hlen =>
    refine ⟨hin, hex.notifyStay rfl rfl (fun _ => rfl) ?_, cap_move h rfl (fun _ _ => rfl) ?_⟩
    · rw [hpc]
      exact NotifyPc.holds_same rfl rfl
    · have h5 := h.length_le (side (idx i))
      exact .inr ⟨Nat.le_antisymm h5 hlen, i, rfl, .inr (by simp)⟩
  | fits hpc hlen =>
    refine ⟨hin, hex.notifyStay rfl rfl (fun _ => rfl) ?_,
      cap_move h rfl (fun _ _ => rfl) (.inl hlen)⟩
    rw [hpc]
    exact NotifyPc.holds_same rfl rfl
  | drop hpc =>
    refine ⟨hin, hex.notifyStay (i := i) (p := .unlock) (by simp) (by simp)
      (fun _ => by simp) ?_, cap_move (i := i) h (p := .unlock) (by simp) ?_ (.inl ?_)⟩
    · rw [hpc]
      exact NotifyPc.holds_same rfl rfl
    · intro k hk
      simp [Function.update_of_ne hk]
    · have h5 := h.length_le (side (idx i))
      simp only [State.goto_queue, State.pop_queue, Function.update_self, List.length_tail]
      omega
  | unlock hpc =>
    refine ⟨hin, hex.notifyRelease (m := .queue (side (idx i)))
      (by rw [hpc]; simp [NotifyPc.holds, NotifyPc.inQueue]) rfl rfl rfl ?_ ?_,
      cap_keep h rfl rfl ?_⟩
    · cases b <;> rfl
    · rw [hpc]
      exact NotifyPc.holds_off_queue (by cases b <;> rfl)
    · rw [hpc]
      exact ⟨nofun, nofun⟩
  | post hb hpc =>
    refine ⟨hin, hex.notifyStay (i := i) (p := .lock) (by simp) (by simp)
      (fun _ => by simp) ?_, cap_keep (i := i) h (p := .lock) (by simp) (by simp) ?_⟩
    · rw [hpc]
      exact NotifyPc.holds_same rfl rfl
    · rw [hpc]
      exact ⟨nofun, nofun⟩
  | lockThread hb hpc hfree =>
    refine ⟨hin, hex.notifyAcquire hfree rfl rfl rfl rfl ?_, cap_keep h rfl rfl ?_⟩
    · rw [hpc]
      exact NotifyPc.holds_off_thread rfl
    · rw [hpc]
      exact ⟨nofun, nofun⟩
  | setReady hb hpc =>
    refine ⟨hin, hex.notifyStay rfl rfl (fun _ => rfl) ?_, cap_keep h rfl rfl ?_⟩
    · rw [hpc]
      exact NotifyPc.holds_same rfl rfl
    · rw [hpc]
      exact ⟨nofun, nofun⟩
  | notifyAll hb hpc =>
    -- a consumer woken from `cond.wait` holds nothing, before and after
    refine ⟨hin, hex.notifyStay (i := i) (p := .unlockThread) (by simp) (by simp) ?_ ?_,
      cap_keep (i := i) h (p := .unlockThread) (by simp) (by simp) ?_⟩
    · show ∀ m, s.notifyAll.wait.holds b m = s.wait.holds b m
      rcases notifyAll_wait s with ⟨hblocked, hrelock⟩ | hsame
      · rw [hblocked, hrelock]
        exact forall_mutex rfl rfl rfl
      · rw [hsame]
        exact fun _ => rfl
    · rw [hpc]
      exact NotifyPc.holds_same rfl rfl
    · rw [hpc]
      exact ⟨nofun, nofun⟩
  | unlockThread hb hpc =>
    refine ⟨hin, hex.notifyRelease (m := .thread) (by rw [hpc]; rfl) rfl rfl rfl rfl ?_,
      cap_keep h rfl rfl ?_⟩
    · rw [hpc]
      exact NotifyPc.holds_off_thread rfl
    · rw [hpc]
      exact ⟨nofun, nofun⟩

/-- **Step lemma**: every step of either build keeps the invariant. -/
theorem Inv.step {a : Act ι α} (h : Inv b idx s) (hs : Step b idx s a s') : Inv b idx s' := by
  cases hs with
  | wait hw => exact h.waitStep hw
  | spurious hpc =>
    have hs : Step b idx s .spurious { s with wait := .relock } := .spurious hpc
    refine ⟨h.inBuild.step hs, h.exclusive.waitStay rfl rfl ?_, cap_shrink h rfl fun _ => le_rfl⟩
    rw [hpc]
    exact forall_mutex rfl rfl rfl
  | notify hn => exact h.notifyStep hn

/-- **Run lemma**: the invariant holds in every reachable state of either build. -/
theorem inv_of_reachable (h : (machine α b idx).Reachable s) : Inv b idx s := by
  refine h.induction (fun u hu => ?_) fun u a t hu hnext => ?_
  · obtain rfl := hu
    exact inv_initial b idx
  · exact hu.step (step_inv hu.inBuild hnext)

end Producer

end EngineerLinux.PairedQueue
