import EngineerLinux.Lib.LockOrder
import EngineerLinux.PairedQueue.WakeUps
import Mathlib.Data.Fintype.EquivFin
import Mathlib.Order.Fin.Basic

/-!
# The threads do not lock each other out

The consumer nests its locks, `mutex_thread` around `mutex_queue1` around `mutex_queue2` (lines 73,
79, 80); a producer takes one of the two queue mutexes (103, 108) and then `mutex_thread` (93), but
has given the first one back by then. So nobody holds a mutex and waits for one that comes before it
in this order.

Who holds what is known from mutual exclusion (`Inv`), and what a thread is about to lock from its
program point, so `ascending` is a case analysis on program points. The library's `LockOrder` then
finds, along the order, a thread that waits for nobody.

- `canStep_iff`: a thread can take a step unless the mutex it is about to lock is taken or the
  consumer is asleep;
- `ascending`: the order of the mutexes, with the rules of `LockOrder`;
- `cannot_deadlock`: **no cycle, and always a thread that can go on**.
-/

namespace EngineerLinux.PairedQueue

open LockOrder

variable {ι α : Type} [DecidableEq ι]

/-! ## Waiting -/

/-- The label of a thread's own step; a producer that pushes pushes `info`. -/
def Tid.act (info : α) : Tid ι → Act ι α
  | .consumer => .wait
  | .producer i => .notify i info

/-- Thread `t` can take a step. -/
def CanStep (b : Build) (idx : ι → Int) (s : State ι α) (t : Tid ι) : Prop :=
  ∃ info, (step b idx s (t.act info)).isSome = true

/-- It cannot, and could if the mutex were free. -/
def Waits (b : Build) (idx : ι → Int) (s : State ι α) (t : Tid ι) (m : Mutex) : Prop :=
  ¬ CanStep b idx s t ∧ CanStep b idx (s.unlock m) t

/-- Thread `t` waits for a mutex that thread `t'` owns. -/
def BlockedBy (b : Build) (idx : ι → Int) (s : State ι α) : Tid ι → Tid ι → Prop :=
  WaitsFor (fun t m => s.owner m = some t) (Waits b idx s)

/-- The next step of the consumer reads or changes the queues: with other contents it is not the
same but for these. -/
def TouchesQueues (b : Build) (s : State ι α) : Prop :=
  ∃ queue, waitRoutine b { s with queue } ≠ (waitRoutine b s).map fun u => { u with queue }

/-! ## What a thread is about to lock -/

/-- The mutex the consumer locks next, at a program point that is a lock. -/
def WaitPc.wants (b : Build) : WaitPc → Option Mutex
  | .top =>
    match b with
    | .sem => none
    | .cond => some .thread
  | .relock => some .thread
  | .lock1 => some (.queue .one)
  | .lock2 => some (.queue .two)
  | _ => none

/-- The mutex a producer of queue `k` locks next. -/
def NotifyPc.wants (k : Side) : NotifyPc → Option Mutex
  | .lock => some (.queue k)
  | .lockThread => some .thread
  | _ => none

def wants (b : Build) (idx : ι → Int) (s : State ι α) : Tid ι → Option Mutex
  | .consumer => s.wait.wants b
  | .producer i => (s.notify i).wants (side (idx i))

/-- Inside `cond.wait`, or in `sem_wait` at 0. -/
def Asleep (b : Build) (s : State ι α) : Tid ι → Prop
  | .consumer => s.wait = .blocked ∨ b = .sem ∧ s.wait = .top ∧ s.sem = 0
  | .producer _ => False

variable {b : Build} {idx : ι → Int} {s : State ι α} {t : Tid ι} {m : Mutex}

omit [DecidableEq ι] in
theorem isSome_lock : (s.lock m t).isSome = true ↔ s.owner m = none := by
  unfold State.lock
  cases s.owner m <;> simp

omit [DecidableEq ι] in
theorem isSome_waitRoutine : (waitRoutine b s).isSome = true ↔
    (∀ m, s.wait.wants b = some m → s.owner m = none) ∧ ¬ Asleep b s .consumer := by
  unfold waitRoutine Asleep WaitPc.wants
  cases hpc : s.wait with
  | top => cases b <;> simp [isSome_lock]
  | check => by_cases hready : s.ready = true <;> simp [hready]
  | test =>
    by_cases hpair : (s.queue .one).length > 0 ∧ (s.queue .two).length > 0 <;> simp [hpair]
  | relock | lock1 | lock2 => simp [isSome_lock]
  | unlock1 => cases b <;> simp
  | _ => simp

theorem isSome_notifyRoutine {i : ι} {info : α} :
    (notifyRoutine b (idx i) s i info).isSome = true ↔
      ∀ m, (s.notify i).wants (side (idx i)) = some m → s.owner m = none := by
  unfold notifyRoutine NotifyPc.wants
  cases s.notify i with
  | lock | lockThread => simp [isSome_lock]
  | test => by_cases hlen : (s.queue (side (idx i))).length > 4 <;> simp [hlen]
  | unlock => cases b <;> simp
  | _ => simp

/-- **When a thread can go on**: the mutex it is about to lock is free, and it is not asleep. -/
theorem canStep_iff [Nonempty α] : CanStep b idx s t ↔
    (∀ m, wants b idx s t = some m → s.owner m = none) ∧ ¬ Asleep b s t := by
  cases t with
  | consumer =>
    show (∃ _ : α, (waitRoutine b s).isSome = true) ↔ _
    rw [exists_const]
    exact isSome_waitRoutine
  | producer i =>
    show (∃ info : α, (notifyRoutine b (idx i) s i info).isSome = true) ↔ _
    simp only [isSome_notifyRoutine, exists_const]
    exact (and_iff_left id).symm

theorem waits_iff [Nonempty α] : Waits b idx s t m ↔
    wants b idx s t = some m ∧ s.owner m ≠ none ∧ ¬ Asleep b s t := by
  have hwants : wants b idx (s.unlock m) t = wants b idx s t := by cases t <;> rfl
  have hasleep : Asleep b (s.unlock m) t ↔ Asleep b s t := by cases t <;> exact Iff.rfl
  unfold Waits
  rw [canStep_iff, canStep_iff, hwants, hasleep]
  constructor
  · rintro ⟨hno, hcould, hawake⟩
    rw [not_and_not_right] at hno
    obtain ⟨m', hwant, htaken⟩ : ∃ m', wants b idx s t = some m' ∧ s.owner m' ≠ none := by
      by_contra hnone
      push Not at hnone
      exact hawake (hno hnone)
    -- it is this mutex that it would get
    have hfree := hcould m' hwant
    rw [State.unlock_owner] at hfree
    have hm : m' = m := by
      by_contra hm
      rw [Function.update_of_ne hm] at hfree
      exact htaken hfree
    exact ⟨hm ▸ hwant, hm ▸ htaken, hawake⟩
  · rintro ⟨hwant, htaken, hawake⟩
    refine ⟨fun hcan => htaken (hcan.1 m hwant), fun m' hwant' => ?_, hawake⟩
    obtain rfl := Option.some.inj (hwant.symm.trans hwant')
    exact Function.update_self ..

/-! ## The order of the mutexes -/

def Mutex.rank : Mutex → Fin 3
  | .thread => 0
  | .queue .one => 1
  | .queue .two => 2

/-- What the consumer is about to lock comes after all it holds. -/
theorem WaitPc.rank_lt_rank {pc : WaitPc} {m' : Mutex} (hwant : pc.wants b = some m') :
    ∀ m, pc.holds b m = true → m.rank < m'.rank := by
  cases pc with
  | top | relock => exact forall_mutex nofun nofun nofun
  | lock1 =>
    obtain rfl := Option.some.inj hwant
    exact forall_mutex (fun _ => by decide) nofun nofun
  | lock2 =>
    obtain rfl := Option.some.inj hwant
    exact forall_mutex (fun _ => by decide) (fun _ => by decide) nofun
  | _ => cases hwant

/-- A producer about to lock a mutex holds none. -/
theorem NotifyPc.holds_of_wants {k : Side} {pc : NotifyPc} {m' : Mutex}
    (hwant : pc.wants k = some m') : ∀ m, pc.holds k m = false := by
  cases pc with
  | lock | lockThread => exact forall_mutex rfl rfl rfl
  | _ => cases hwant

/-- **The order of the locks**: a thread that waits for a mutex owns only such as come before. -/
theorem ascending [Nonempty α] (h : Inv b idx s) :
    Ascending Mutex.rank (fun t m => s.owner m = some t) (Waits b idx s) := by
  intro t m m' howner hwaits
  obtain ⟨hwant, -, -⟩ := waits_iff.mp hwaits
  have hheld : holds b idx s t m := (h.exclusive m t).mp howner
  cases t with
  | consumer => exact WaitPc.rank_lt_rank hwant m hheld
  | producer i =>
    have hnone : (s.notify i).holds (side (idx i)) m = false := NotifyPc.holds_of_wants hwant m
    cases hnone.symm.trans hheld

/-! ## Somebody can go on -/

omit [DecidableEq ι] in
/-- A thread that holds a mutex is not asleep. -/
theorem not_asleep_of_holds (hheld : holds b idx s t m) : ¬ Asleep b s t := by
  cases t with
  | producer i => exact id
  | consumer =>
    have hblocked : ∀ m, WaitPc.holds b .blocked m = false := forall_mutex rfl rfl rfl
    have htop : ∀ m, WaitPc.holds b .top m = false := forall_mutex rfl rfl rfl
    replace hheld : s.wait.holds b m = true := hheld
    rintro (hpc | ⟨-, hpc, -⟩)
    · rw [hpc, hblocked] at hheld
      cases hheld
    · rw [hpc, htop] at hheld
      cases hheld

/-- A thread that is awake and waits for nobody can take a step. -/
theorem canStep_of_unblocked [Nonempty α] (hawake : ¬ Asleep b s t)
    (hfree : ∀ t', ¬ BlockedBy b idx s t t') : CanStep b idx s t := by
  refine canStep_iff.mpr ⟨fun m hwant => ?_, hawake⟩
  by_contra htaken
  obtain ⟨t', howner⟩ := Option.ne_none_iff_exists'.mp htaken
  exact hfree t' ⟨m, waits_iff.mpr ⟨hwant, htaken, hawake⟩, howner⟩

theorem exists_canStep [Nonempty ι] [Nonempty α] (h : Inv b idx s) :
    ∃ t, CanStep b idx s t := by
  obtain ⟨i⟩ := ‹Nonempty ι›
  -- a producer, or the last one of those that it waits for
  obtain ⟨t, -, hself, hfree⟩ := (ascending h).exists_unblocked (.producer i)
  refine ⟨t, canStep_of_unblocked ?_ hfree⟩
  rcases hself with rfl | ⟨m, howner⟩
  · exact id
  · exact not_asleep_of_holds ((h.exclusive m t).mp howner)

/-! ## The critical section -/

omit [DecidableEq ι] in
/-- Only the comparison of the sizes and the two `pop`s look at the queues. -/
theorem TouchesQueues.wait (h : TouchesQueues b s) :
    s.wait = .test ∨ s.wait = .pop1 ∨ s.wait = .pop2 := by
  obtain ⟨queue, hne⟩ := h
  by_contra hpc
  refine hne ?_
  rcases s with ⟨queue₀, owner, sem, ready, wait, notify, pushed, removed, taken, eoverflow,
    underflow⟩
  have hlock : ∀ (m : Mutex) (pc : WaitPc),
      ((State.mk queue owner sem ready wait notify pushed removed taken eoverflow underflow).lock m
          .consumer).map (fun u => { u with wait := pc }) =
        (((State.mk queue₀ owner sem ready wait notify pushed removed taken eoverflow
          underflow).lock m .consumer).map fun u => { u with wait := pc }).map
            fun u => { u with queue } := by
    intro m pc
    unfold State.lock
    dsimp only
    cases owner m <;> rfl
  cases wait with
  | top =>
    cases b with
    | sem => by_cases hsem : sem = 0 <;> simp [waitRoutine, hsem]
    | cond => exact hlock .thread .check
  | check => cases ready <;> rfl
  | relock => exact hlock .thread .check
  | lock1 => exact hlock (.queue .one) .lock2
  | lock2 => exact hlock (.queue .two) .test
  | unlock1 => cases b <;> rfl
  | test | pop1 | pop2 => simp at hpc
  | _ => rfl

omit [DecidableEq ι] in
theorem owner_of_touches (h : Inv b idx s) (ht : TouchesQueues b s) (k : Side) :
    s.owner (.queue k) = some .consumer := by
  refine (h.exclusive (.queue k) .consumer).mpr ?_
  show s.wait.holds b (.queue k) = true
  rcases ht.wait with hpc | hpc | hpc <;> rw [hpc] <;> cases k <;> rfl

/-- **No deadlock**: in every reachable state of either build, with at least one producer, no
threads wait for the mutexes in a cycle and some thread can take a step; no two threads are in the
scope of one mutex, and the consumer touches the queues only while it owns both of theirs. -/
theorem cannot_deadlock [Nonempty ι] [Nonempty α] (b : Build) (idx : ι → Int) (s : State ι α)
    (h : (machine α b idx).Reachable s) :
    (∀ t, ¬ Relation.TransGen (BlockedBy b idx s) t t) ∧ (∃ t, CanStep b idx s t) ∧
      (∀ m t t', holds b idx s t m → holds b idx s t' m → t = t') ∧
      (TouchesQueues b s → ∀ k, s.owner (.queue k) = some .consumer) := by
  have hinv := inv_of_reachable h
  exact ⟨(ascending hinv).acyclic, exists_canStep hinv,
    fun m t t' ht ht' => hinv.exclusive.unique ht ht', owner_of_touches hinv⟩

/-- The consumer is about to lock the second queue, which a producer has locked. -/
def nested : State Bool Unit :=
  ((machine Unit .cond mainIdx).exec (State.initial Bool Unit)
    (turn false ++ List.replicate 4 .wait ++ [.notify true ()])).get (by decide)

theorem cannot_deadlock_nested :
    BlockedBy .cond mainIdx nested .consumer (.producer true) ∧
      ¬ Relation.TransGen (BlockedBy .cond mainIdx nested) .consumer .consumer ∧
      ∃ t, CanStep .cond mainIdx nested t := by
  have h := cannot_deadlock .cond mainIdx nested ⟨_, _, rfl, (Option.some_get _).symm⟩
  have hheld : holds .cond mainIdx nested .consumer .thread :=
    (by decide : nested.wait.holds .cond .thread = true)
  have hwaits : Waits .cond mainIdx nested .consumer (.queue .two) :=
    waits_iff.mpr ⟨by decide, by decide, not_asleep_of_holds hheld⟩
  exact ⟨⟨.queue .two, hwaits, by decide⟩, h.1 _, h.2.1⟩

end EngineerLinux.PairedQueue
