import EngineerLinux.Nptl.Ledger
import EngineerLinux.Lib.Monitor
import Mathlib.Data.Int.ModEq

/-!
# Who owns a stack

What a thread knows while it runs the functions (`Ghost`): the cache, while it has the lock; and the
descriptor that it owns, as a whole but for what the kernel writes. `JAt` says that this is so, for
all threads at the same time: it is the invariant of the whole process, which `Calls` shows every
call to keep.

What one thread knows is not disturbed by the others, for two reasons. What the lock protects
changes only in the hands of the thread that has it (`monitor_same`, `monitor_inside`, with the
library's `Monitor`), and a descriptor that is owned is changed by its owner and by the kernel only
(`JAt.alone`, `Status.Ok.settled`).

- `JAt.put`, `JAt.take`, `JAt.drop`: the owner changes its descriptor, a descriptor gets an owner,
  or is given up.
-/

namespace EngineerLinux.Nptl

/-! ## What threads know -/

section Definitions

variable {P : Type}

/-- Of the thread that has `stack_cache_lock`. -/
structure Inside (P : Type) where
  /-- The cached stacks and their sizes. -/
  cache : List (P × Nat)
  /-- How far `stack_cache_actsize` is ahead of the sizes. -/
  ahead : Int
  in_flight : Option (P × Bool)
  /-- Those stacks that the thread has found to be free. -/
  free : List P

/-- Of the owner of a descriptor. -/
structure Held (P : Type) where
  listed : Bool
  /-- No thread runs on the stack. -/
  dead : Bool
  desc : Block P

inductive Phase where
  | idle
  | running
  /-- Behind the test for a detached thread. -/
  | exiting

structure Ghost (P : Type) where
  inside : Option (Inside P)
  stack : Option (P × Held P)
  phase : Phase

def Ghost.isInside (g : Ghost P) : Bool := g.inside.isSome

def Inside.total (I : Inside P) : Int := (I.cache.map fun e => (e.2 : Int)).sum + I.ahead

/-- What is known with the lock is so. -/
structure Inside.Holds (I : Inside P) (s : State P) : Prop where
  cache : s.stack_cache.Perm (I.cache.map Prod.fst)
  size : ∀ p n, (p, n) ∈ I.cache → (s.block p).stackblock_size = n
  actsize : (s.stack_cache_actsize : Int) ≡ I.total [ZMOD 18446744073709551616]
  size_t : s.stack_cache_actsize < 18446744073709551616
  in_flight : s.in_flight_stack = I.in_flight
  free : ∀ p, p ∈ I.free → p ∈ s.stack_cache ∧ (s.block p).tid ≤ 0

/-- The lock protects the cache. -/
def Consistent (s : State P) : Prop := ∃ cache, Inside.Holds ⟨cache, 0, none, []⟩ s

def Ghost.Knows (g : Ghost P) (s : State P) : Prop := ∀ I, g.inside = some I → I.Holds s

/-- What is known of a descriptor is so. -/
structure Held.Holds (h : Held P) (b : Block P) : Prop where
  desc : b.settled = h.desc
  dead : h.dead = true → b.alive = false

def Phase.Ok (ph : Phase) (alive : Bool) (t : Status P) : Prop :=
  match ph with
  | .idle => alive = true → t ≠ .absent ∧ t ≠ .cached
  | .running => alive = true ∧ t ≠ .absent ∧ t ≠ .cached
  | .exiting => alive = true ∧ t ≠ .detached

/-- Everything is as the threads know it, and has the owner that it should have. -/
structure JAt (cfg : Config) (s : State P) (G : P → Ghost P) (st : P → Status P) : Prop where
  monitor : Monitor.Inv Ghost.isInside Consistent Ghost.Knows s.stack_cache_lock G s
  ledger : Ledger s st
  held_iff : ∀ i p listed,
    st p = .held i listed ↔ ∃ h, (G i).stack = some (p, h) ∧ h.listed = listed
  holds : ∀ i p h, (G i).stack = some (p, h) → h.Holds (s.block p)
  phase : ∀ i, (G i).phase.Ok (s.block i).alive (st i)
  started : ∀ p, (s.block p).alive = true → 0 < (s.block p).tid ∧ (s.block p).Fits cfg
  clashes : s.clashes = []
  races : s.races = []

def J (cfg : Config) (s : State P) (G : P → Ghost P) : Prop := ∃ st, JAt cfg s G st

end Definitions

/-! ## One thread knows something new -/

section JAt

variable {P : Type} {cfg : Config} {s s' : State P} {G : P → Ghost P} {st : P → Status P}
  {i p : P} {g g' : Ghost P} {t : Status P} {b : Block P} {h h' : Held P} {I I' : Inside P}

theorem Phase.Ok.other {ph : Phase} {alive : Bool} {t' : Status P} (h : ph.Ok alive t)
    (habsent : t' ≠ .absent) (hcached : t' ≠ .cached) (hdetached : t' ≠ .detached) :
    ph.Ok alive t' := by
  cases ph with
  | idle => exact fun _ => ⟨habsent, hcached⟩
  | running => exact ⟨h.1, habsent, hcached⟩
  | exiting => exact ⟨h.1, hdetached⟩

theorem Phase.Ok.held {ph : Phase} {alive : Bool} {j : P} {listed : Bool} (h : ph.Ok alive t) :
    ph.Ok alive (.held j listed : Status P) :=
  h.other (by simp) (by simp) (by simp)

/-- What is known with the lock depends on the cached stacks only, and on their sizes. -/
theorem Inside.Holds.congr (h : I.Holds s) (hcache : s'.stack_cache = s.stack_cache)
    (hact : s'.stack_cache_actsize = s.stack_cache_actsize)
    (hflight : s'.in_flight_stack = s.in_flight_stack)
    (hblock : ∀ q, q ∈ s.stack_cache →
      (s'.block q).stackblock_size = (s.block q).stackblock_size ∧
        ((s.block q).tid ≤ 0 → (s'.block q).tid ≤ 0)) : I.Holds s' where
  cache := by
    rw [hcache]
    exact h.cache
  size q n hq := by
    have hmem : q ∈ s.stack_cache :=
      h.cache.mem_iff.mpr (List.mem_map.mpr ⟨_, hq, rfl⟩)
    rw [(hblock q hmem).1, h.size q n hq]
  actsize := by
    rw [hact]
    exact h.actsize
  size_t := by
    rw [hact]
    exact h.size_t
  in_flight := hflight.trans h.in_flight
  free q hq := by
    obtain ⟨hmem, htid⟩ := h.free q hq
    exact ⟨hcache ▸ hmem, (hblock q hmem).2 htid⟩

theorem Phase.Ok.eq_idle {ph : Phase} (h : ph.Ok false t) : ph = .idle := by
  cases ph with
  | idle => rfl
  | running => cases h.1
  | exiting => cases h.1

theorem Phase.Ok.dead {ph : Phase} {t' : Status P} (h : ph.Ok false t) : ph.Ok false t' := by
  rw [h.eq_idle]
  simp [Phase.Ok]

/-- The thread with the lock knows what the cache is like. -/
theorem JAt.inside (h : JAt cfg s G st) (hg : G i = g) (hin : g.inside = some I) : I.Holds s :=
  h.monitor.held i (by rw [hg, Ghost.isInside, hin]; rfl) I (by rw [hg]; exact hin)

theorem JAt.phase_at (h : JAt cfg s G st) (hg : G i = g) : g.phase.Ok (s.block i).alive (st i) := by
  have hphase := h.phase i
  rw [hg] at hphase
  exact hphase

theorem JAt.status (h : JAt cfg s G st) (hg : G i = g) {k : Held P}
    (hstack : g.stack = some (p, k)) : st p = .held i k.listed :=
  (h.held_iff i p k.listed).mpr ⟨k, by rw [hg]; exact hstack, rfl⟩

/-- The owner knows what it reads. -/
theorem JAt.desc (hJ : JAt cfg s G st) (hg : G i = g) (hstack : g.stack = some (p, h)) :
    (s.block p).settled = h.desc :=
  (hJ.holds i p h (by rw [hg]; exact hstack)).desc

theorem JAt.holds_at (hJ : JAt cfg s G st) (hg : G i = g) (hstack : g.stack = some (p, h)) :
    h.Holds (s.block p) :=
  hJ.holds i p h (by rw [hg]; exact hstack)

theorem JAt.held_ok (hJ : JAt cfg s G st) (hg : G i = g) (hstack : g.stack = some (p, h)) :
    (Status.held i h.listed).Ok p (s.block p) := by
  rw [← hJ.status hg hstack]
  exact hJ.ledger.ok p

/-- What the thread owns is not owned by others. -/
theorem JAt.alone (hJ : JAt cfg s G st) (hg : G i = g) (hstack : g.stack = some (p, h)) (j : P)
    (listed : Bool) (hj : st p = .held j listed) : j = i := by
  rw [hJ.status hg hstack] at hj
  cases hj
  rfl

theorem Ghost.only (hstack : g.stack = some (p, h)) (q : P) (k : Held P)
    (hk : g.stack = some (q, k)) : q = p := by
  cases hstack.symm.trans hk
  rfl

/-- Nobody else runs on the stack, and the thread itself only if it ends. -/
def Ghost.Releases (g : Ghost P) (i p : P) (h : Held P) : Prop :=
  h.dead = true ∨ p = i ∧ g.phase = .exiting

theorem JAt.releases (hJ : JAt cfg s G st) (hg : G i = g) (hstack : g.stack = some (p, h))
    (hrel : g.Releases i p h) {t : Status P} (ht : t ≠ .detached) :
    (G p).phase.Ok (s.block p).alive t := by
  obtain hdead | ⟨rfl, hexit⟩ := hrel
  · have hphase := hJ.phase p
    have halive := (hJ.holds i p h (by rw [hg]; exact hstack)).dead hdead
    rw [halive] at hphase ⊢
    exact hphase.dead
  · have hphase := hJ.phase_at hg
    rw [hexit] at hphase
    rw [hg, hexit]
    exact ⟨hphase.1, ht⟩

theorem Inside.Holds.relock (h : I.Holds s) (l : Option P) :
    I.Holds { s with stack_cache_lock := l } :=
  h.congr rfl rfl rfl fun _ _ => ⟨rfl, id⟩

theorem Ghost.outside (hin : g.inside = none) : { g with inside := none } = g := by
  cases g
  cases hin
  rfl

theorem Ghost.without (hstack : g.stack = none) : { g with stack := none } = g := by
  cases g
  cases hstack
  rfl

/-- The lock itself is nothing that it protects. -/
theorem JAt.relock (hJ : JAt cfg s G st) (l : Option P) :
    Monitor.Inv Ghost.isInside Consistent Ghost.Knows s.stack_cache_lock G
      { s with stack_cache_lock := l } :=
  hJ.monitor.change (fun ⟨c, hc⟩ => ⟨c, hc.relock l⟩) fun _ hk I hI => (hk I hI).relock l

/-- What the kernel writes to a descriptor when its thread ends matters to nobody who owns it. -/
theorem Status.Ok.settled {n : Int} {alive : Bool} (h : t.Ok p b)
    (halive : alive = true → b.alive = true) (hdetached : t = .detached → alive = true) :
    t.Ok p { b with tid := n, alive } := by
  cases t with
  | absent => exact ⟨h.1, h.2.1, h.2.2.1, fun ha => h.2.2.2 (halive ha)⟩
  | cached => exact h
  | joinable => exact h
  | detached => exact ⟨h.1, h.2.1, h.2.2.1, h.2.2.2.1, h.2.2.2.2.1, hdetached rfl⟩
  | lost => exact h
  | held j listed => exact ⟨h.1, h.2.1, h.2.2.1, fun ha => h.2.2.2 (halive ha)⟩

variable [DecidableEq P]

/-- A thread knows the same about the cache as before. -/
theorem monitor_same (h : Monitor.Inv Ghost.isInside Consistent Ghost.Knows s.stack_cache_lock G s)
    (hg : G i = g) (hinside : g'.inside = g.inside)
    (hlock : s'.stack_cache_lock = s.stack_cache_lock)
    (hdata : ∀ I : Inside P, I.Holds s → I.Holds s') :
    Monitor.Inv Ghost.isInside Consistent Ghost.Knows s'.stack_cache_lock
      (Function.update G i g') s' := by
  subst hg
  have hchange : Monitor.Inv Ghost.isInside Consistent Ghost.Knows s.stack_cache_lock G s' :=
    h.change (fun ⟨cache, hc⟩ => ⟨cache, hdata _ hc⟩) fun g hg I hI => hdata I (hg I hI)
  rw [hlock]
  cases hin : (G i).inside with
  | none =>
    exact hchange.outside (by rw [Ghost.isInside, hin]; rfl)
      (by rw [Ghost.isInside, hinside, hin]; rfl)
  | some I =>
    refine hchange.inside (by rw [Ghost.isInside, hin]; rfl)
      (by rw [Ghost.isInside, hinside, hin]; rfl) fun hI I' hI' => ?_
    rw [hinside] at hI'
    exact hI I' hI'

/-- The thread with the lock changes what it protects. -/
theorem monitor_inside
    (h : Monitor.Inv Ghost.isInside Consistent Ghost.Knows s.stack_cache_lock G s) (hg : G i = g)
    (hin : g.inside = some I) (hinside : g'.inside = some I')
    (hlock : s'.stack_cache_lock = s.stack_cache_lock) (hdata : I.Holds s → I'.Holds s') :
    Monitor.Inv Ghost.isInside Consistent Ghost.Knows s'.stack_cache_lock
      (Function.update G i g') s' := by
  subst hg
  rw [hlock]
  refine h.inside (by rw [Ghost.isInside, hin]; rfl) (by rw [Ghost.isInside, hinside]; rfl)
    fun hI I'' hI'' => ?_
  obtain rfl := Option.some.inj (hinside.symm.trans hI'')
  exact hdata (hI I hin)

/-- One descriptor changes, and what one thread knows. -/
theorem JAt.move (hJ : JAt cfg s G st) (hg : G i = g)
    (hblock : s'.block = Function.update s.block p b)
    (hledger : Ledger s' (Function.update st p t))
    (hothers : ∀ j listed, st p = .held j listed → j = i)
    (hold : ∀ q k, g.stack = some (q, k) → q = p)
    (hheld : ∀ j listed, t = .held j listed ↔
      j = i ∧ ∃ k, g'.stack = some (p, k) ∧ k.listed = listed)
    (hnew : ∀ q k, g'.stack = some (q, k) → q = p ∧ k.Holds b)
    (hself : p ≠ i → g'.phase.Ok (s.block i).alive (st i))
    (hphase : (Function.update G i g' p).phase.Ok b.alive t)
    (hstarted : b.alive = true → 0 < b.tid ∧ b.Fits cfg) (hclashes : s'.clashes = [])
    (hraces : s'.races = [])
    (hmonitor : Monitor.Inv Ghost.isInside Consistent Ghost.Knows s'.stack_cache_lock
      (Function.update G i g') s') :
    JAt cfg s' (Function.update G i g') (Function.update st p t) where
  monitor := hmonitor
  ledger := hledger
  held_iff j q listed := by
    by_cases hq : q = p
    · subst hq
      rw [Function.update_self, hheld]
      by_cases hj : j = i
      · subst hj
        rw [Function.update_self, and_iff_right rfl]
      · rw [Function.update_of_ne hj]
        refine iff_of_false (fun h => hj h.1) ?_
        rintro ⟨k, hk, -⟩
        exact hj (hothers j k.listed ((hJ.held_iff j q k.listed).mpr ⟨k, hk, rfl⟩))
    · rw [Function.update_of_ne hq, hJ.held_iff]
      by_cases hj : j = i
      · subst hj
        rw [Function.update_self, hg]
        refine iff_of_false ?_ ?_
        · rintro ⟨k, hk, -⟩
          exact hq (hold q k hk)
        · rintro ⟨k, hk, -⟩
          exact hq (hnew q k hk).1
      · rw [Function.update_of_ne hj]
  holds j q k hk := by
    rw [hblock]
    by_cases hj : j = i
    · subst hj
      rw [Function.update_self] at hk
      obtain ⟨rfl, hkb⟩ := hnew q k hk
      rw [Function.update_self]
      exact hkb
    · rw [Function.update_of_ne hj] at hk
      have hq : q ≠ p := by
        rintro rfl
        exact hj (hothers j k.listed ((hJ.held_iff j q k.listed).mpr ⟨k, hk, rfl⟩))
      rw [Function.update_of_ne hq]
      exact hJ.holds j q k hk
  phase j := by
    rw [hblock]
    by_cases hjp : j = p
    · subst hjp
      rw [Function.update_self, Function.update_self]
      exact hphase
    · rw [Function.update_of_ne hjp, Function.update_of_ne hjp]
      by_cases hj : j = i
      · subst hj
        rw [Function.update_self]
        exact hself fun h => hjp h.symm
      · rw [Function.update_of_ne hj]
        exact hJ.phase j
  started q := by
    rw [hblock]
    by_cases hq : q = p
    · subst hq
      rw [Function.update_self]
      exact hstarted
    · rw [Function.update_of_ne hq]
      exact hJ.started q
  clashes := hclashes
  races := hraces

/-! ## Owners -/

/-- Only the ghost value of one thread changes, and not its phase. -/
theorem phase_update (g' : Ghost P) (hg : G i = g) (hphase : g'.phase = g.phase) (q : P) :
    (Function.update G i g' q).phase = (G q).phase := by
  by_cases hq : q = i
  · subst hq
    rw [Function.update_self, hg, hphase]
  · rw [Function.update_of_ne hq]

/-- A stack that is not cached changes. -/
theorem JAt.holds_setBlock (hJ : JAt cfg s G st) (hcached : st p ≠ .cached) (h : I.Holds s) :
    I.Holds (s.setBlock p b) := by
  refine h.congr rfl rfl rfl fun q hq => ?_
  have hqp : q ≠ p := by
    rintro rfl
    exact hcached (hJ.ledger.mem_cache.mp hq)
  rw [show (s.setBlock p b).block q = s.block q from Function.update_of_ne hqp ..]
  exact ⟨rfl, id⟩

/-- A thread is the owner of a descriptor, with what it has written to it. -/
theorem JAt.hold (hJ : JAt cfg s G st) (hg : G i = g)
    (hothers : ∀ j listed, st p = .held j listed → j = i)
    (hold : ∀ q k, g.stack = some (q, k) → q = p) (hcached : st p ≠ .cached)
    (hplace : (Status.held i h'.listed : Status P).place b.user_stack =
      (st p).place (s.block p).user_stack)
    (hnew : h'.Holds b) (halive : b.alive = (s.block p).alive)
    (hok : (Status.held i h'.listed).Ok p b)
    (hstarted : b.alive = true → 0 < b.tid ∧ b.Fits cfg) :
    JAt cfg (s.setBlock p b) (Function.update G i { g with stack := some (p, h') })
      (Function.update st p (.held i h'.listed)) := by
  refine hJ.move hg rfl ?_ hothers hold ?_ ?_ ?_ ?_ hstarted hJ.clashes hJ.races ?_
  · exact hJ.ledger.put (fun _ => rfl) rfl hplace hok
  · intro j listed
    constructor
    · intro heq
      cases heq
      exact ⟨rfl, h', rfl, rfl⟩
    · rintro ⟨rfl, k, hk, rfl⟩
      cases hk
      rfl
  · intro q k hk
    cases hk
    exact ⟨rfl, hnew⟩
  · exact fun _ => (hJ.phase_at hg :)
  · rw [phase_update { g with stack := some (p, h') } hg rfl, halive]
    exact (hJ.phase p).held
  · exact monitor_same hJ.monitor hg rfl rfl fun I => hJ.holds_setBlock hcached

/-- The owner changes its descriptor. -/
theorem JAt.put (hJ : JAt cfg s G st) (h' : Held P) (hg : G i = g) (hstack : g.stack = some (p, h))
    (hlisted : h'.listed = h.listed) (hnew : h'.Holds b) (halive : b.alive = (s.block p).alive)
    (huser : b.user_stack = (s.block p).user_stack) (hok : (Status.held i h.listed).Ok p b)
    (hstarted : b.alive = true → 0 < b.tid ∧ b.Fits cfg) :
    J cfg (s.setBlock p b) (Function.update G i { g with stack := some (p, h') }) := by
  have hst := hJ.status hg hstack
  refine ⟨_, hJ.hold hg ?_ ?_ ?_ ?_ hnew halive (by rw [hlisted]; exact hok) hstarted⟩
  · intro j listed hj
    rw [hst] at hj
    cases hj
    rfl
  · intro q k hk
    cases hstack.symm.trans hk
    rfl
  · rw [hst]
    simp
  · rw [hst, huser, hlisted]

/-- A descriptor gets an owner. -/
theorem JAt.take (hJ : JAt cfg s G st) (h' : Held P) (hg : G i = g) (hstack : g.stack = none)
    (hunheld : ∀ j listed, st p ≠ .held j listed) (hcached : st p ≠ .cached)
    (hplace : (Status.held i h'.listed : Status P).place b.user_stack =
      (st p).place (s.block p).user_stack)
    (hnew : h'.Holds b) (halive : b.alive = (s.block p).alive)
    (hok : (Status.held i h'.listed).Ok p b)
    (hstarted : b.alive = true → 0 < b.tid ∧ b.Fits cfg) :
    JAt cfg (s.setBlock p b) (Function.update G i { g with stack := some (p, h') })
      (Function.update st p (.held i h'.listed)) := by
  refine hJ.hold hg (fun j listed hj => absurd hj (hunheld j listed)) ?_ hcached hplace hnew halive
    hok hstarted
  intro q k hk
  cases hstack.symm.trans hk

/-- The owner gives its descriptor up. -/
theorem JAt.drop (hJ : JAt cfg s G st) (hg : G i = g) (hstack : g.stack = some (p, h))
    (hunheld : ∀ j listed, t ≠ .held j listed)
    (hplace : t.place b.user_stack =
      (Status.held i h.listed : Status P).place (s.block p).user_stack)
    (hok : t.Ok p b) (hphase : (G p).phase.Ok b.alive t)
    (hstarted : b.alive = true → 0 < b.tid ∧ b.Fits cfg) :
    J cfg (s.setBlock p b) (Function.update G i { g with stack := none }) := by
  have hst := hJ.status hg hstack
  refine ⟨_, hJ.move (t := t) (p := p) hg rfl ?_ ?_ ?_ ?_ ?_ ?_ ?_ hstarted hJ.clashes hJ.races ?_⟩
  · exact hJ.ledger.put (fun _ => rfl) rfl (by rw [hplace, hst]) hok
  · intro j listed hj
    rw [hst] at hj
    cases hj
    rfl
  · intro q k hk
    cases hstack.symm.trans hk
    rfl
  · exact fun j listed => iff_of_false (hunheld j listed) (by simp)
  · intro q k hk
    cases hk
  · exact fun _ => (hJ.phase_at hg :)
  · rw [phase_update { g with stack := none } hg rfl]
    exact hphase
  · exact monitor_same hJ.monitor hg rfl rfl fun I => hJ.holds_setBlock (by rw [hst]; simp)

/-- A thread knows more about the cache or less, or reaches another phase. -/
theorem JAt.know (hJ : JAt cfg s G st) (g' : Ghost P) (hg : G i = g) (hstack : g'.stack = g.stack)
    (hphase : g'.phase.Ok (s.block i).alive (st i)) (hlist : ∀ l, s'.list l = s.list l)
    (hblock : s'.block = s.block) (hclashes : s'.clashes = s.clashes) (hraces : s'.races = s.races)
    (hmonitor : Monitor.Inv Ghost.isInside Consistent Ghost.Knows s'.stack_cache_lock
      (Function.update G i g') s') :
    JAt cfg s' (Function.update G i g') st where
  monitor := hmonitor
  ledger := by
    have hledger := hJ.ledger.put (p := i) (t := st i) hlist
      (by rw [hblock, Function.update_eq_self]) rfl (hJ.ledger.ok i)
    rw [Function.update_eq_self] at hledger
    exact hledger
  held_iff j p listed := by
    rw [hJ.held_iff]
    by_cases hj : j = i
    · subst hj
      rw [Function.update_self, hg, hstack]
    · rw [Function.update_of_ne hj]
  holds j p k hk := by
    rw [hblock]
    refine hJ.holds j p k ?_
    by_cases hj : j = i
    · subst hj
      rw [Function.update_self, hstack] at hk
      rw [hg]
      exact hk
    · rw [Function.update_of_ne hj] at hk
      exact hk
  phase j := by
    rw [hblock]
    by_cases hj : j = i
    · subst hj
      rw [Function.update_self]
      exact hphase
    · rw [Function.update_of_ne hj]
      exact hJ.phase j
  started := by
    rw [hblock]
    exact hJ.started
  clashes := hclashes.trans hJ.clashes
  races := hraces.trans hJ.races

/-- A thread ends, or the kernel clears its `tid` then. -/
theorem JAt.kernel (hJ : JAt cfg s G st) (hg : G p = g) {ph : Phase} {n : Int} {alive : Bool}
    (halive : alive = true → (s.block p).alive = true ∧ n = (s.block p).tid)
    (htid : (s.block p).tid ≤ 0 → n ≤ 0) (hphase : ph.Ok alive (st p))
    (hdetached : st p = .detached → alive = true) :
    JAt cfg (s.setBlock p { s.block p with tid := n, alive })
      (Function.update G p { g with phase := ph }) st := by
  have hok := (hJ.ledger.ok p).settled (n := n) (fun ha => (halive ha).1) hdetached
  have hother : ∀ q, q ≠ p →
      (s.setBlock p { s.block p with tid := n, alive }).block q = s.block q :=
    fun q hq => Function.update_of_ne hq ..
  have hself : (s.setBlock p { s.block p with tid := n, alive }).block p =
      { s.block p with tid := n, alive } := Function.update_self ..
  refine ⟨?_, ?_, fun j q listed => ?_, fun j q k hk => ?_, fun j => ?_, fun q hq => ?_,
    hJ.clashes, hJ.races⟩
  · refine monitor_same hJ.monitor hg rfl rfl fun I hI => hI.congr rfl rfl rfl fun q _ => ?_
    by_cases hq : q = p
    · subst hq
      rw [hself]
      exact ⟨rfl, htid⟩
    · rw [hother q hq]
      exact ⟨rfl, id⟩
  · have hledger : Ledger (s.setBlock p { s.block p with tid := n, alive })
        (Function.update st p (st p)) := hJ.ledger.put (fun _ => rfl) rfl rfl hok
    rw [Function.update_eq_self] at hledger
    exact hledger
  · rw [hJ.held_iff]
    by_cases hj : j = p
    · subst hj
      rw [Function.update_self, hg]
    · rw [Function.update_of_ne hj]
  · have hold : k.Holds (s.block q) := by
      refine hJ.holds j q k ?_
      by_cases hj : j = p
      · subst hj
        rw [Function.update_self] at hk
        rw [hg]
        exact hk
      · rw [Function.update_of_ne hj] at hk
        exact hk
    by_cases hq : q = p
    · subst hq
      rw [hself]
      refine ⟨hold.desc, fun hdead => ?_⟩
      by_contra hne
      cases (hold.dead hdead).symm.trans (halive (by simpa using hne)).1
    · rw [hother q hq]
      exact hold
  · by_cases hj : j = p
    · subst hj
      rw [hself, Function.update_self]
      exact hphase
    · rw [hother j hj, Function.update_of_ne hj]
      exact hJ.phase j
  · by_cases hqp : q = p
    · subst hqp
      rw [hself] at hq ⊢
      obtain ⟨hold, hsame⟩ := halive hq
      obtain ⟨hpos, hfits⟩ := hJ.started q hold
      exact ⟨hsame ▸ hpos, hfits⟩
    · rw [hother q hqp] at hq ⊢
      exact hJ.started q hq

end JAt

end EngineerLinux.Nptl
