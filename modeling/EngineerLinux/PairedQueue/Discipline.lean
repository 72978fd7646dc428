import EngineerLinux.PairedQueue.WakeUps

/-!
# The discipline of the two queues

Two parties remove items from the front of a queue: the consumer, which takes one from each of the
two at a time (lines 81-83), and the producers, which drop the oldest item of a full queue (105-106,
110-111).

- `Discipline`: what was removed, followed by what is there, is what was pushed; nobody is about to
  pop an empty queue; the consumer has taken the same number from both, up to a half pair.
- `queue_discipline`: **both queues keep first-in first-out order**, lose and invent nothing, and
  hold at most four items while nobody owns their mutex.

The clause about empty queues is what makes the induction go through: between the test of the sizes
and the second `pop` the consumer owns both mutexes, so by mutual exclusion (`Inv`) the sizes are
still those it has seen.
-/

namespace EngineerLinux.PairedQueue

variable {ι α : Type}

/-! ## The history of one operation -/

namespace State

variable (s : State ι α) (k j : Side) (info : α)

/-- A pop moves an item from the queue to what was removed, or finds nothing to move. -/
theorem pop_history : (s.pop k).removed j ++ (s.pop k).queue j = s.removed j ++ s.queue j := by
  unfold pop
  cases hq : s.queue k with
  | nil => rfl
  | cons x xs =>
    by_cases hj : j = k
    · subst hj
      simp only [Function.update_self]
      rw [hq, List.append_assoc, List.singleton_append]
    · simp only [Function.update_of_ne hj]

@[simp] theorem pop_pushed : (s.pop k).pushed = s.pushed := by unfold pop; split <;> rfl

@[simp] theorem pop_taken : (s.pop k).taken = s.taken := by unfold pop; split <;> rfl

variable {s k}

/-- With an item there, the pop is defined. -/
theorem pop_underflow (h : s.queue k ≠ []) : (s.pop k).underflow = s.underflow := by
  obtain ⟨x, xs, hq⟩ := List.exists_cons_of_ne_nil h
  unfold pop
  rw [hq]

end State

/-! ## The invariant -/

/-- The two histories agree with the queues, and nobody is about to pop an empty one. -/
structure Discipline (idx : ι → Int) (s : State ι α) : Prop where
  history : ∀ k, s.removed k ++ s.queue k = s.pushed k
  /-- The consumer pops after it has seen both queues with something in them. -/
  pop1 : s.wait = .pop1 → s.queue .one ≠ [] ∧ s.queue .two ≠ []
  pop2 : s.wait = .pop2 → s.queue .two ≠ []
  /-- A producer drops an item after it has pushed one. -/
  drop : ∀ i, s.notify i = .drop → s.queue (side (idx i)) ≠ []
  taken : s.taken .one = s.taken .two + s.wait.half
  underflow : s.underflow = false

theorem discipline_initial (idx : ι → Int) : Discipline idx (State.initial ι α) where
  history := fun _ => rfl
  pop1 := nofun
  pop2 := nofun
  drop := fun _ => nofun
  taken := rfl
  underflow := rfl

variable {b : Build} {idx : ι → Int} {s s' : State ι α}

/-- The consumer moves between points at which it does not pop. -/
theorem Discipline.waitMove (h : Discipline idx s) (hqueue : s'.queue = s.queue)
    (hremoved : s'.removed = s.removed) (hpushed : s'.pushed = s.pushed)
    (hnotify : s'.notify = s.notify) (htaken : s'.taken = s.taken)
    (hunderflow : s'.underflow = s.underflow) (hhalf : s.wait.half = 0)
    (hpop1 : s'.wait ≠ .pop1) (hpop2 : s'.wait ≠ .pop2) : Discipline idx s' := by
  have hhalf' : s'.wait.half = 0 := by
    cases hw : s'.wait with
    | pop2 => exact absurd hw hpop2
    | _ => rfl
  refine ⟨?_, fun hw => absurd hw hpop1, fun hw => absurd hw hpop2, ?_, ?_, ?_⟩
  · rw [hqueue, hremoved, hpushed]
    exact h.history
  · rw [hnotify, hqueue]
    exact h.drop
  · rw [htaken, hhalf', h.taken, hhalf]
  · rw [hunderflow, h.underflow]

/-- While the consumer is at a point where it owns the mutex of queue `k`, no producer drops an
item of this queue. -/
theorem Inv.not_drop (hinv : Inv b idx s) {k : Side} (hheld : s.wait.holds b (.queue k) = true)
    {i : ι} (hi : side (idx i) = k) : s.notify i ≠ .drop := by
  intro hpc
  have hprod : holds b idx s (.producer i) (.queue k) := holds_of_inQueue hi (by rw [hpc]; rfl)
  have hcons : holds b idx s .consumer (.queue k) := hheld
  cases hinv.exclusive.unique hcons hprod

/-- The consumer's steps keep the discipline. -/
theorem Discipline.waitStep (hinv : Inv b idx s) (h : Discipline idx s) (hs : WaitStep b s s') :
    Discipline idx s' := by
  cases hs with
  | lockThread hb hpc hfree =>
    refine h.waitMove rfl rfl rfl rfl rfl rfl ?_ nofun nofun
    rcases hpc with hpc | hpc <;> rw [hpc] <;> rfl
  | pair hpc h1 h2 =>
    refine ⟨h.history, fun _ => ⟨h1, h2⟩, nofun, h.drop, ?_, h.underflow⟩
    have htaken := h.taken
    rw [hpc] at htaken
    exact htaken
  | pop1 hpc =>
    obtain ⟨hone, htwo⟩ := h.pop1 hpc
    have htaken := h.taken
    rw [hpc] at htaken
    refine ⟨?_, nofun, fun _ => ?_, ?_, ?_, ?_⟩
    · intro k
      exact (State.pop_history s .one k).trans ((h.history k).trans (by simp))
    · show (s.pop .one).queue .two ≠ []
      simpa using htwo
    · intro i hi
      rw [show (s.pop .one).notify = s.notify from State.pop_notify s .one] at hi
      have hside : side (idx i) ≠ .one := fun hone' =>
        hinv.not_drop (by rw [hpc]; rfl) hone' hi
      show (s.pop .one).queue (side (idx i)) ≠ []
      rw [State.pop_queue, Function.update_of_ne hside]
      exact h.drop i hi
    · show Function.update s.taken .one (s.taken .one + 1) .one =
        Function.update s.taken .one (s.taken .one + 1) .two + 1
      rw [Function.update_self, Function.update_of_ne (by decide), htaken]
      rfl
    · exact (State.pop_underflow hone).trans h.underflow
  | pop2 hpc =>
    have htwo := h.pop2 hpc
    have htaken := h.taken
    rw [hpc] at htaken
    refine ⟨?_, nofun, nofun, ?_, ?_, ?_⟩
    · intro k
      exact (State.pop_history s .two k).trans ((h.history k).trans (by simp))
    · intro i hi
      rw [show (s.pop .two).notify = s.notify from State.pop_notify s .two] at hi
      have hside : side (idx i) ≠ .two := fun htwo' =>
        hinv.not_drop (by rw [hpc]; rfl) htwo' hi
      show (s.pop .two).queue (side (idx i)) ≠ []
      rw [State.pop_queue, Function.update_of_ne hside]
      exact h.drop i hi
    · show Function.update s.taken .two (s.taken .two + 1) .one =
        Function.update s.taken .two (s.taken .two + 1) .two + 0
      rw [Function.update_self, Function.update_of_ne (by decide), htaken]
      rfl
    · exact (State.pop_underflow htwo).trans h.underflow
  | unlock1 hpc =>
    refine h.waitMove rfl rfl rfl rfl rfl rfl (by rw [hpc]; rfl) ?_ ?_ <;> cases b <;> nofun
  | semWait _ hpc _ | isReady hpc _ | sleep hpc _ | clear hpc | lock1 hpc _ | lock2 hpc _
  | noPair hpc _ | unlock2 hpc | unlock hpc =>
    exact h.waitMove rfl rfl rfl rfl rfl rfl (by rw [hpc]; rfl) nofun nofun

/-- A queue whose mutex nobody owns has at most four items. -/
theorem Inv.length_of_free (hinv : Inv b idx s) {k : Side} (hfree : s.owner (.queue k) = none) :
    (s.queue k).length ≤ 4 := by
  rcases hinv.cap k with h4 | ⟨-, i, hi, hpc⟩
  · exact h4
  · -- a producer between its push and its drop owns the mutex
    have hheld : holds b idx s (.producer i) (.queue k) :=
      holds_of_inQueue hi (by rcases hpc with hpc | hpc <;> rw [hpc] <;> rfl)
    exact absurd hheld (hinv.exclusive.free hfree _)

/-- A consumer that lacks one of the queue mutexes is not between its two pops. -/
theorem Inv.half_eq_zero (hinv : Inv b idx s) {k : Side}
    (hout : s.owner (.queue k) ≠ some .consumer) : s.wait.half = 0 := by
  cases hw : s.wait with
  | pop2 =>
    have hheld : holds b idx s .consumer (.queue k) := by cases k <;> simp [holds, WaitPc.holds, hw]
    exact absurd ((hinv.exclusive _ _).mpr hheld) hout
  | _ => rfl

section Producer

variable [DecidableEq ι] {i : ι} {info : α}

/-- A producer moves and leaves the queues alone. -/
theorem Discipline.notifyMove (h : Discipline idx s) {p : NotifyPc}
    (hnotify : s'.notify = Function.update s.notify i p) (hp : p ≠ .drop)
    (hqueue : s'.queue = s.queue) (hremoved : s'.removed = s.removed)
    (hpushed : s'.pushed = s.pushed) (htaken : s'.taken = s.taken)
    (hunderflow : s'.underflow = s.underflow) (hpop1 : s'.wait = .pop1 → s.wait = .pop1)
    (hpop2 : s'.wait = .pop2 → s.wait = .pop2) (hhalf : s'.wait.half = s.wait.half) :
    Discipline idx s' := by
  refine ⟨?_, ?_, ?_, ?_, ?_, hunderflow.trans h.underflow⟩
  · rw [hqueue, hremoved, hpushed]
    exact h.history
  · rw [hqueue]
    exact fun hw => h.pop1 (hpop1 hw)
  · rw [hqueue]
    exact fun hw => h.pop2 (hpop2 hw)
  · intro j hj
    rw [hqueue]
    by_cases hji : j = i
    · rw [hji, hnotify, Function.update_self] at hj
      exact absurd hj hp
    · rw [hnotify, Function.update_of_ne hji] at hj
      exact h.drop j hj
  · rw [htaken, hhalf, h.taken]

/-- A push adds the same item to the queue and to what was pushed. -/
theorem Discipline.push (h : Discipline idx s) (k : Side) :
    Discipline idx ((s.push k info).goto i .test) := by
  have hlonger : ∀ j, s.queue j ≠ [] → (s.push k info).queue j ≠ [] := by
    intro j hj
    rw [State.push_queue]
    by_cases hjk : j = k
    · rw [hjk, Function.update_self]
      simp
    · rwa [Function.update_of_ne hjk]
  refine ⟨?_, fun hw => ⟨hlonger _ (h.pop1 hw).1, hlonger _ (h.pop1 hw).2⟩,
    fun hw => hlonger _ (h.pop2 hw), ?_, h.taken, h.underflow⟩
  · intro j
    show s.removed j ++ (s.push k info).queue j = Function.update s.pushed k _ j
    rw [State.push_queue]
    by_cases hjk : j = k
    · subst hjk
      rw [Function.update_self, Function.update_self, ← List.append_assoc, h.history]
    · rw [Function.update_of_ne hjk, Function.update_of_ne hjk, h.history]
  · intro j hj
    refine hlonger _ ?_
    by_cases hji : j = i
    · rw [hji, State.goto_notify, Function.update_self] at hj
      cases hj
    · rw [State.goto_notify, Function.update_of_ne hji] at hj
      exact h.drop j hj

/-- The producer that drops an item is alone with its queue. -/
theorem Discipline.dropOldest (hinv : Inv b idx s) (h : Discipline idx s)
    (hpc : s.notify i = .drop) : Discipline idx ((s.pop (side (idx i))).goto i .unlock) := by
  have hheld : holds b idx s (.producer i) (.queue (side (idx i))) :=
    holds_of_inQueue rfl (by rw [hpc]; rfl)
  have hcons : s.wait.holds b (.queue (side (idx i))) = false := by
    by_contra hc
    rw [Bool.not_eq_false] at hc
    have hc' : holds b idx s .consumer (.queue (side (idx i))) := hc
    cases hinv.exclusive.unique hheld hc'
  have hwait : ((s.pop (side (idx i))).goto i .unlock).wait = s.wait := State.pop_wait s _
  refine ⟨?_, ?_, ?_, ?_, ?_, (State.pop_underflow (h.drop i hpc)).trans h.underflow⟩
  · intro k
    refine (State.pop_history s _ k).trans ((h.history k).trans ?_)
    exact (congrFun (State.pop_pushed s _) k).symm
  · intro hw
    rw [hwait.symm.trans hw] at hcons
    cases hk : side (idx i) <;> rw [hk] at hcons <;> cases hcons
  · intro hw
    rw [hwait.symm.trans hw] at hcons
    cases hk : side (idx i) <;> rw [hk] at hcons <;> cases hcons
  · intro j hj
    by_cases hji : j = i
    · rw [hji, State.goto_notify, Function.update_self] at hj
      cases hj
    · rw [State.goto_notify, Function.update_of_ne hji, State.pop_notify] at hj
      have hside : side (idx j) ≠ side (idx i) := by
        intro hside
        have hheld' : holds b idx s (.producer j) (.queue (side (idx i))) :=
          holds_of_inQueue hside (by rw [hj]; rfl)
        exact hji (Tid.producer.inj (hinv.exclusive.unique hheld' hheld))
      rw [State.goto_queue, State.pop_queue, Function.update_of_ne hside]
      exact h.drop j hj
  · show (s.pop (side (idx i))).taken .one = (s.pop (side (idx i))).taken .two + _
    rw [State.pop_taken, hwait, h.taken]

/-- The producers' steps keep the discipline. -/
theorem Discipline.notifyStep (hinv : Inv b idx s) (h : Discipline idx s)
    (hs : NotifyStep b (side (idx i)) s i info s') : Discipline idx s' := by
  cases hs with
  | push hpc => exact h.push (side (idx i))
  | tooMany hpc hlen =>
    refine ⟨h.history, h.pop1, h.pop2, ?_, h.taken, h.underflow⟩
    intro j hj
    by_cases hji : j = i
    · -- more than four items are in the queue
      intro hnil
      rw [hji] at hnil
      rw [show s.queue (side (idx i)) = [] from hnil, List.length_nil] at hlen
      exact absurd hlen (Nat.not_lt_zero 4)
    · rw [State.goto_notify, Function.update_of_ne hji] at hj
      exact h.drop j hj
  | drop hpc => exact h.dropOldest hinv hpc
  | notifyAll hb hpc =>
    rcases State.notifyAll_cases s with ⟨hblocked, heq⟩ | heq
    · -- a consumer woken from `cond.wait` is not about to pop
      rw [heq]
      exact h.notifyMove rfl nofun rfl rfl rfl rfl rfl nofun nofun (by rw [hblocked]; rfl)
    · rw [heq]
      exact h.notifyMove rfl nofun rfl rfl rfl rfl rfl id id rfl
  | post hb hpc =>
    rcases State.semPost_cases s with ⟨-, heq⟩ | ⟨-, heq⟩ <;> rw [heq] <;>
      exact h.notifyMove rfl nofun rfl rfl rfl rfl rfl id id rfl
  | lock hpc hfree | fits hpc hlen | lockThread hb hpc hfree | setReady hb hpc
  | unlockThread hb hpc =>
    exact h.notifyMove rfl nofun rfl rfl rfl rfl rfl id id rfl
  | unlock hpc =>
    exact h.notifyMove rfl (by cases b <;> nofun) rfl rfl rfl rfl rfl id id rfl

/-- **Step lemma**: every step of either build keeps the discipline. -/
theorem Discipline.step {a : Act ι α} (hinv : Inv b idx s) (h : Discipline idx s)
    (hs : Step b idx s a s') : Discipline idx s' := by
  cases hs with
  | wait hw => exact h.waitStep hinv hw
  | spurious hpc => exact h.waitMove rfl rfl rfl rfl rfl rfl (by rw [hpc]; rfl) nofun nofun
  | notify hn => exact h.notifyStep hinv hn

/-- **Run lemma**: the discipline holds in every reachable state of either build. -/
theorem discipline_of_reachable (h : (machine α b idx).Reachable s) : Discipline idx s := by
  suffices hboth : Inv b idx s ∧ Discipline idx s from hboth.2
  refine h.induction (P := fun u => Inv b idx u ∧ Discipline idx u) (fun u hu => ?_) ?_
  · obtain rfl := hu
    exact ⟨inv_initial b idx, discipline_initial idx⟩
  · rintro u a t ⟨hinv, hdisc⟩ hnext
    have hs := step_inv hinv.inBuild hnext
    exact ⟨hinv.step hs, hdisc.step hinv hs⟩

/-- **Queue discipline**: in every reachable state of either build, what was removed from a queue
(by the consumer or by a producer) followed by what is there is what was pushed; a queue whose mutex
is free has at most four items; a consumer outside its critical section, where it owns both mutexes,
has taken the same number from both queues; and no `pop` found its queue empty. -/
theorem queue_discipline (b : Build) (idx : ι → Int) (s : State ι α)
    (h : (machine α b idx).Reachable s) :
    (∀ k, s.removed k ++ s.queue k = s.pushed k) ∧
      (∀ k, s.owner (.queue k) = none → (s.queue k).length ≤ 4) ∧
      (∀ k, s.owner (.queue k) ≠ some .consumer → s.taken .one = s.taken .two) ∧
      s.underflow = false := by
  have hinv := inv_of_reachable h
  have hdisc := discipline_of_reachable h
  refine ⟨hdisc.history, fun k => hinv.length_of_free, ?_, hdisc.underflow⟩
  intro k hout
  rw [hdisc.taken, hinv.half_eq_zero hout, Nat.add_zero]

/-- The first producer pushes five items, so that the first is dropped, and the second one item; the
consumer takes a pair. -/
def fiveItems : List (Act Bool Nat) :=
  [1, 2, 3, 4].flatMap (fun info => List.replicate 5 (.notify false info)) ++
    List.replicate 6 (.notify false 5) ++ List.replicate 5 (.notify true 9) ++
    List.replicate 8 .wait

theorem queue_discipline_fiveItems : ∃ s : State Bool Nat,
    (machine Nat .sem mainIdx).exec (State.initial Bool Nat) fiveItems = some s ∧
      s.pushed .one = [1, 2, 3, 4, 5] ∧ s.removed .one = [1, 2] ∧
      s.removed .one ++ s.queue .one = s.pushed .one ∧ (s.queue .one).length ≤ 4 ∧
      s.taken .one = s.taken .two ∧ s.underflow = false := by
  have hsome : ((machine Nat .sem mainIdx).exec (State.initial Bool Nat) fiveItems).any (fun s =>
      s.pushed .one = [1, 2, 3, 4, 5] ∧ s.removed .one = [1, 2] ∧
        s.owner (.queue .one) = none) = true := by decide
  obtain ⟨s, hs, hp⟩ := (Option.any_eq_true _ _).mp hsome
  obtain ⟨hpushed, hremoved, hfree⟩ := of_decide_eq_true hp
  obtain ⟨hhistory, hlength, htaken, hunder⟩ := queue_discipline .sem mainIdx s ⟨_, _, rfl, hs⟩
  refine ⟨s, hs, hpushed, hremoved, hhistory .one, hlength .one hfree, htaken .one ?_, hunder⟩
  rw [hfree]
  exact nofun

end Producer

end EngineerLinux.PairedQueue
