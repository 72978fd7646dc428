import EngineerLinux.Nptl.Functions
import Mathlib.Algebra.BigOperators.Ring.Finset

/-!
# The stacks of a process

What `J` says of every state that a process can reach, for any number of threads that create, join
and end in any order. Between the functions a thread owns nothing, so each of them can be entered
(`enter_safe`), and `inv_of_reachable` is the run lemma; the first four results read it off.

The last one is about what does not happen: a handle that is not used, or that `pthread_create` has
lost, is left as it is by every call of every thread (`answer_keeps`), and so the descriptor stays
in its list.

- `stacks_alone`: **no stack is freed or given away** while a thread runs on it;
- `stacks_accounted`: **every stack** is cached or used when no thread is in one of the functions;
- `actsize_eq`: **the size of the cache** is what the lock is for;
- `stacks_fit`: **the stack of a thread** is as large as its attributes ask for;
- `unjoined_for_ever`: a thread that is neither detached nor joined keeps its stack for ever.
-/

namespace EngineerLinux.Nptl

/-! ## Rounding -/

section Sizes

variable {P : Type} {cfg : Config}

theorem roundup_lt (cfg : Config) (n : Nat) : cfg.roundup n < 18446744073709551616 :=
  lt_of_le_of_lt (Nat.sub_le ..) (toSize_lt _)

theorem le_roundup {n : Nat} (hpage : 0 < cfg.pagesize)
    (hn : n + cfg.pagesize ≤ 18446744073709551616) : n ≤ cfg.roundup n := by
  have hsize : toSize (n + (cfg.pagesize - 1 : Nat)) = n + (cfg.pagesize - 1) := by
    unfold toSize
    omega
  unfold Config.roundup
  rw [hsize]
  have := Nat.mod_lt (n + (cfg.pagesize - 1)) hpage
  show n ≤ n + (cfg.pagesize - 1) - (n + (cfg.pagesize - 1)) % cfg.pagesize
  omega

theorem roundup_le (cfg : Config) (n : Nat) : cfg.roundup n ≤ n + (cfg.pagesize - 1) :=
  (Nat.sub_le ..).trans (toSize_le (n + (cfg.pagesize - 1)))

/-- The test for an overflow finds every one. -/
theorem Attr.Fits.reqsize_eq {attr : Attr P} {size guard : Nat} (h : attr.Fits cfg size guard)
    (hsize : attr.size cfg < 18446744073709551616) :
    attr.reqsize cfg = attr.size cfg + cfg.roundup attr.guardsize := by
  have hover := h.overflow
  have hround := roundup_lt cfg attr.guardsize
  unfold Attr.reqsize toSize at hover ⊢
  omega

end Sizes

section Stacks

variable {P : Type} [DecidableEq P] {cfg : Config} {main : P}
  {p q : Pool P (State P) (Calls P) (Ret P)} {s s' : State P}

/-! ## Every thread is safe -/

/-- Between the functions, a thread owns nothing. -/
def Between (_ : P) (r : Ret P) (g : Ghost P) : Prop :=
  g = match r with
    | .routine _ _ | .canceled => ⟨none, none, .running⟩
    | .ended => ⟨none, none, .idle⟩

/-- A thread begins with its start routine. -/
theorem JAt.begin {G : P → Ghost P} {st : P → Status P} {i : P} (hJ : JAt cfg s G st)
    (hg : G i = ⟨none, none, .idle⟩) (halive : (s.block i).alive = true) :
    JAt cfg s (Function.update G i ⟨none, none, .running⟩) st :=
  hJ.know ⟨none, none, .running⟩ hg rfl ⟨halive, hJ.phase_at hg halive⟩ (fun _ => rfl) rfl rfl rfl
    (monitor_same hJ.monitor hg rfl rfl fun _ => id)

/-- A thread gets a handle from the program, to join another one. -/
theorem JAt.join {G : P → Ghost P} {st : P → Status P} {i pd : P} (hJ : JAt cfg s G st)
    (hg : G i = ⟨none, none, .running⟩) (hhandle : (s.block pd).handle = true) :
    ∃ h, J cfg (s.setBlock pd { s.block pd with handle := false })
      (Function.update G i ⟨none, some (pd, h), .running⟩) ∧ h.Joinable := by
  have hst := hJ.ledger.joinable hhandle
  have hok := hJ.ledger.ok pd
  rw [hst] at hok
  obtain ⟨hhome, -, hleaked, hterm, hjoinid⟩ := hok
  refine ⟨⟨true, false, { s.block pd with handle := false }.settled⟩,
    ⟨_, hJ.take (p := pd) (b := { s.block pd with handle := false })
      ⟨true, false, { s.block pd with handle := false }.settled⟩ hg rfl (by rw [hst]; simp)
      (by rw [hst]; simp) (by rw [hst]; rfl) ⟨rfl, by simp⟩ rfl
      ⟨hhome, rfl, hleaked, fun _ _ => ⟨rfl, ?_⟩⟩ (hJ.started pd)⟩, rfl, hterm, hjoinid⟩
  rw [show (s.block pd).joinid = none from hjoinid]
  simp

theorem enter_safe {i : P} {r : Ret P} {g : Ghost P} {e : Env P} {G : P → Ghost P}
    {prog : Prog (Calls P) (Ret P)} (hr : Between i r g) (hJ : J cfg s G) (hg : G i = g)
    (henter : enter cfg i r e s = some (prog, s')) :
    ∃ g', J cfg s' (Function.update G i g') ∧ Safe answer (J cfg) i (Between i) prog g' := by
  have hend : Safe answer (J cfg) i (Between i)
      ((fun _ => Ret.ended) <$> start_thread_end i) ⟨none, none, .running⟩ := by
    refine Safe.map (Safe.imp (runs_start_thread_end rfl rfl rfl) ?_)
    rintro _ _ rfl
    rfl
  unfold enter at henter
  split at henter
  · cases henter
  · next halive =>
    split at henter
    · cases henter
      obtain rfl := hr
      obtain ⟨st, hJ⟩ := hJ
      exact ⟨_, ⟨st, hJ.begin hg (by simpa using halive)⟩, rfl⟩
    · cases henter
      obtain rfl := hr
      refine ⟨_, hJ.same hg, Safe.map (Safe.imp (runs_pthread_create rfl rfl) ?_)⟩
      rintro _ _ rfl
      rfl
    · split at henter
      · next hhandle =>
        cases henter
        obtain rfl := hr
        obtain ⟨st, hJ⟩ := hJ
        obtain ⟨h, hJ', hjoin⟩ := hJ.join hg hhandle
        refine ⟨_, hJ', Safe.map (Safe.imp (runs_clockjoin_ex rfl rfl hjoin) ?_)⟩
        rintro r _ rfl
        by_cases hr : r = .canceled
        · rw [if_pos hr]
          rfl
        · rw [if_neg hr]
          rfl
      · cases henter
    · cases henter
      obtain rfl := hr
      exact ⟨_, hJ.same hg, hend⟩
    · cases henter
      obtain rfl := hr
      exact ⟨_, hJ.same hg, hend⟩
    · cases henter

theorem happen_keeps {e : Env P} {G : P → Ghost P} (hJ : J cfg s G)
    (hhappen : happen e s = some s') : J cfg s' G := by
  unfold happen at hhappen
  split at hhappen
  · next pd =>
    split at hhappen
    · next hdead =>
      cases hhappen
      obtain ⟨st, hJ⟩ := hJ
      have hkernel : JAt cfg (s.setBlock pd { s.block pd with tid := 0 })
          (Function.update G pd { G pd with phase := (G pd).phase }) st := by
        refine hJ.kernel rfl (fun ha => ?_) (fun _ => le_refl _) (hJ.phase pd) fun hdet => ?_
        · cases hdead.1.symm.trans ha
        · have hok := hJ.ledger.ok pd
          rw [hdet] at hok
          exact hok.2.2.2.2.2
      rw [Function.update_eq_self] at hkernel
      exact ⟨st, hkernel⟩
    · cases hhappen
  · cases hhappen

/-- At first, the main thread is the only one. -/
theorem start_safe (h : Start main p) : Pool.Inv (sem cfg) (J cfg) Between p := by
  obtain ⟨hcache, hused, huser, hact, hlock, hflight, hclashes, hraces, hothers, hmem, hstack,
    hsize, hattr, halive, htid, hjoinid, hterm, hhandle, hleaked, hprog, hprogs⟩ := h
  have hlist : ∀ l, p.shared.list l = if l = .__stack_user then [main] else [] := by
    rintro (_ | _ | _)
    · exact hcache
    · exact hused
    · exact huser
  refine ⟨fun i => ⟨none, none, if i = main then .running else .idle⟩,
    ⟨fun pd => if pd = main then .joinable else .absent, ?_⟩, fun i => ?_⟩
  · refine ⟨?_, ⟨fun l => ?_, fun l pd => ?_, fun pd => ?_⟩, fun i pd listed => ?_,
      fun _ _ k hk => absurd hk.symm (Option.some_ne_none (_, k)), fun i => ?_, fun pd ha => ?_,
      hclashes, hraces⟩
    · rw [hlock]
      refine .initial (fun _ => rfl) ⟨[], ?_, by simp, ?_, ?_, hflight, by simp⟩
      · rw [hcache]
        exact List.Perm.nil
      · rw [hact]
        rfl
      · rw [hact]
        decide
    · rw [hlist]
      split
      · exact List.nodup_singleton main
      · exact List.nodup_nil
    · rw [hlist]
      by_cases hpd : pd = main
      · subst hpd
        rw [hstack]
        cases l <;> simp [Status.place]
      · cases l <;> simp [hpd, Status.place]
    · by_cases hpd : pd = main
      · subst hpd
        rw [if_pos rfl]
        refine ⟨?_, hhandle, hleaked, hterm, hjoinid⟩
        rw [hmem, Block.home, hstack]
        rfl
      · rw [if_neg hpd]
        obtain ⟨hnone, hdead, hno, hnot⟩ := hothers pd hpd
        exact ⟨hnone, hno, hnot, fun ha => absurd (hdead.symm.trans ha) Bool.false_ne_true⟩
    · refine iff_of_false ?_ (by simp)
      split <;> simp
    · by_cases hi : i = main
      · subst hi
        simp only [if_pos]
        exact ⟨halive, by simp, by simp⟩
      · simp only [if_neg hi]
        exact fun ha => absurd ((hothers i hi).2.1.symm.trans ha) Bool.false_ne_true
    · by_cases hpd : pd = main
      · subst hpd
        refine ⟨htid, ?_⟩
        rw [Block.Fits, if_pos hstack, if_pos hattr]
        exact hsize
      · cases (hothers pd hpd).2.1.symm.trans ha
  · by_cases hi : i = main
    · subst hi
      simp only [if_pos]
      rw [hprog]
      rfl
    · simp only [if_neg hi]
      rw [hprogs i hi]
      rfl

/-- **Every state** that a process can reach is as its threads know it. -/
theorem inv_of_reachable (h : (machine cfg main).Reachable p) :
    Pool.Inv (sem cfg) (J cfg) Between p :=
  h.induction (fun _ => start_safe) fun _ _ _ hinv hnext =>
    hinv.step (fun _ _ _ _ _ _ _ _ => enter_safe) (fun _ _ _ _ => happen_keeps) hnext

/-! ## A run -/

/-- No thread is in one of the functions. -/
def Quiet (p : Pool P (State P) (Calls P) (Ret P)) : Prop := ∀ i, ∃ r, p.prog i = .ret r

section Run

/-- A machine with small pages. -/
def small : Config := ⟨4096, 2304, 64, 0, 8388608⟩

def mainBlock : Block Bool :=
  ⟨8388608, 0, true, 1, none, false, .user, true, true, false, ⟨8388608, 0, none, false⟩⟩

def noBlock : Block Bool :=
  ⟨0, 0, false, 0, none, false, .none, false, false, false, ⟨0, 0, none, false⟩⟩

/-- A process with its main thread, `false`. -/
def first : Pool Bool (State Bool) (Calls Bool) (Ret Bool) where
  shared := ⟨[], [], [false], 0, none, none, fun pd => cond pd noBlock mainBlock, [], []⟩
  prog pd := .ret (cond pd .ended (.routine none none))

/-- The main thread creates the other one, -/
def created : List (Pool.Label Bool (Env Bool)) :=
  .enter false (.create ⟨16384, 4096, none, false⟩) ::
    ([.ok, .ok, .ok, .thread true, .ok, .ok, .ok, .ok, .ok, .ok, .ok, .ok, .cloned .ok].map
      (.run false) ++ [.enter true .ok])

/-- joins it for a while only, -/
def timedOut : List (Pool.Label Bool (Env Bool)) :=
  .enter false (.thread true) ::
    ([.ok, .ok, .fail, .fail, .ok, .waited (.failed .ETIMEDOUT), .ok, .ok].map (.run false))

/-- which ends, -/
def ended : List (Pool.Label Bool (Env Bool)) :=
  [.enter true .finish, .run true .ok, .run true .ok, .happen (.thread true)]

/-- and is joined after all. -/
def joined : List (Pool.Label Bool (Env Bool)) :=
  .enter false (.thread true) ::
    ([.ok, .ok, .fail, .fail, .ok, .waited .ended, .ok, .ok, .ok, .ok, .ok, .ok, .ok, .ok, .ok, .ok,
      .ok, .ok, .ok].map (.run false))

theorem start_first : Start false first := by
  refine ⟨rfl, rfl, rfl, rfl, rfl, rfl, rfl, rfl, by decide, rfl, rfl, rfl, by decide, rfl,
    by decide, rfl, rfl, rfl, rfl, rfl, ?_⟩
  rintro (_ | _) hpd
  · exact absurd rfl hpd
  · rfl

theorem reachable_first {q : Pool Bool (State Bool) (Calls Bool) (Ret Bool)}
    {as : List (Pool.Label Bool (Env Bool))} (h : (machine small false).exec first as = some q) :
    (machine small false).Reachable q :=
  ⟨first, as, start_first, h⟩

theorem exec_created : ∃ p q, (machine small false).exec first created = some p ∧
    p.shared.block true = ⟨20480, 4096, false, 1, none, false, .mapped, true, true, false,
      ⟨16384, 4096, none, false⟩⟩ ∧
    (machine small false).exec p ended = some q ∧
    q.shared.block true = ⟨20480, 4096, false, 0, none, false, .mapped, false, true, false,
      ⟨16384, 4096, none, false⟩⟩ :=
  ⟨_, _, rfl, rfl, rfl, rfl⟩

theorem exec_joined : ∃ p,
    (machine small false).exec first (created ++ timedOut ++ ended ++ joined) = some p ∧
      p.shared.block true = ⟨20480, 4096, false, -1, none, true, .mapped, false, false, false,
        ⟨16384, 4096, none, false⟩⟩ ∧
      p.shared.stack_cache = [true] ∧ p.shared.stack_cache_lock = none ∧ Quiet p :=
  ⟨_, rfl, rfl, rfl, rfl, by rintro (_ | _) <;> exact ⟨_, rfl⟩⟩

end Run

/-! ## Stacks that are in use -/

/-- **No stack is freed or given away**, and none is used twice, while a thread runs on it; and the
lists are worked on with the lock only. -/
theorem stacks_alone (h : (machine cfg main).Reachable p) :
    p.shared.clashes = [] ∧ p.shared.races = [] ∧
      ∀ pd, (p.shared.block pd).alive = true → (p.shared.block pd).user_stack = false →
        (p.shared.block pd).mem = .mapped := by
  obtain ⟨G, ⟨st, hJ⟩, -⟩ := inv_of_reachable h
  refine ⟨hJ.clashes, hJ.races, fun pd halive huser => ?_⟩
  have hok := hJ.ledger.ok pd
  have hhome : (p.shared.block pd).home = .mapped := by
    rw [Block.home, huser]
    rfl
  generalize st pd = t at hok
  cases t with
  | absent => cases (hok.2.2.2 halive).symm.trans huser
  | cached => exact hok.1
  | joinable => exact hok.1.trans hhome
  | detached => exact hok.1.trans hhome
  | lost => exact hok.1.trans hhome
  | held i listed => exact hok.1.trans hhome

theorem stacks_alone_created : ∃ p, (machine small false).exec first created = some p ∧
    p.shared.clashes = [] ∧ (p.shared.block true).mem = .mapped := by
  obtain ⟨p, -, hrun, hblock, -⟩ := exec_created
  obtain ⟨hclashes, -, hmem⟩ := stacks_alone (reachable_first hrun)
  exact ⟨p, hrun, hclashes, hmem true (by rw [hblock]) (by rw [hblock])⟩

/-! ## Where the stacks are -/

/-- Nothing is on its way between two owners. -/
theorem JAt.quiet {G : P → Ghost P} {st : P → Status P} (hJ : JAt cfg p.shared G st)
    (hsafe : ∀ i, Safe (sem cfg).answer (J cfg) i (Between i) (p.prog i) (G i)) (hquiet : Quiet p)
    (pd : P) : (∀ i listed, st pd ≠ .held i listed) ∧
      (st pd = .cached → (p.shared.block pd).alive = false) := by
  have hghost : ∀ i, (G i).stack = none ∧ ((G i).phase = .running ∨ (G i).phase = .idle) := by
    intro i
    obtain ⟨r, hr⟩ := hquiet i
    have hi := hsafe i
    rw [hr] at hi
    change G i = _ at hi
    rw [hi]
    cases r with
    | routine created joined => exact ⟨rfl, .inl rfl⟩
    | canceled => exact ⟨rfl, .inl rfl⟩
    | ended => exact ⟨rfl, .inr rfl⟩
  refine ⟨fun i listed hst => ?_, fun hst => ?_⟩
  · obtain ⟨k, hk, -⟩ := (hJ.held_iff i pd listed).mp hst
    cases (hghost i).1.symm.trans hk
  · by_contra hne
    have halive : (p.shared.block pd).alive = true := by simpa using hne
    have hphase := hJ.phase pd
    rw [hst] at hphase
    obtain hrun | hidle := (hghost pd).2
    · rw [hrun] at hphase
      exact hphase.2.2 rfl
    · rw [hidle] at hphase
      exact (hphase halive).2 rfl

/-- **Every stack** that is mapped is in one list, once, when no thread is in one of the functions:
it is cached, unless it is kept. -/
theorem stacks_accounted (h : (machine cfg main).Reachable p) (hquiet : Quiet p) :
    (∀ l, (p.shared.list l).Nodup) ∧ ∀ pd, Accounted p.shared pd := by
  obtain ⟨G, ⟨st, hJ⟩, hsafe⟩ := inv_of_reachable h
  refine ⟨hJ.ledger.nodup, fun pd => ?_⟩
  obtain ⟨hheld, hdead⟩ := hJ.quiet hsafe hquiet pd
  have hok := hJ.ledger.ok pd
  have hc : pd ∈ p.shared.stack_cache ↔ _ := hJ.ledger.mem_iff .stack_cache pd
  have hs : pd ∈ p.shared.stack_used ↔ _ := hJ.ledger.mem_iff .stack_used pd
  have hu : pd ∈ p.shared.stack_user ↔ _ := hJ.ledger.mem_iff .__stack_user pd
  cases hst : st pd with
  | absent =>
    rw [hst] at hok hc hs hu
    refine ⟨?_, ?_, ?_⟩
    · rw [hc, hok.1]
      exact iff_of_false (by simp [Status.place]) (by simp)
    · rw [hs, hok.1]
      exact iff_of_false (by simp [Status.place]) (by simp)
    · rw [hu, hok.1]
      exact iff_of_false (by simp [Status.place]) (by simp)
  | cached =>
    rw [hst] at hok hc hs hu
    obtain ⟨hmem, hhandle, hleaked, -⟩ := hok
    have hkept : ¬ (p.shared.block pd).Kept := by
      unfold Block.Kept
      rw [hdead hst, hhandle, hleaked]
      simp
    refine ⟨?_, ?_, ?_⟩
    · rw [hc]
      exact iff_of_true rfl ⟨hmem, hkept⟩
    · rw [hs]
      exact iff_of_false (by simp [Status.place]) fun h => hkept h.2
    · rw [hu, hmem]
      exact iff_of_false (by simp [Status.place]) (by simp)
  | joinable =>
    rw [hst] at hok
    exact hJ.ledger.accounted (.inr (.inl hok.2.1)) hok.1 (by rw [hst]; exact fun _ => rfl)
  | detached =>
    rw [hst] at hok
    exact hJ.ledger.accounted (.inl hok.2.2.2.2.2) hok.1 (by rw [hst]; exact fun _ => rfl)
  | lost =>
    rw [hst] at hok
    exact hJ.ledger.accounted (.inr (.inr hok.2.2.1)) hok.1 (by rw [hst]; exact fun _ => rfl)
  | held i listed => exact absurd hst (hheld i listed)

/-- The stack of the thread that was joined is cached. -/
theorem stacks_accounted_joined : ∃ p,
    (machine small false).exec first (created ++ timedOut ++ ended ++ joined) = some p ∧
      true ∈ p.shared.stack_cache := by
  obtain ⟨p, hrun, hblock, -, -, hquiet⟩ := exec_joined
  have hall := (stacks_accounted (reachable_first hrun) hquiet).2 true
  refine ⟨p, hrun, hall.cached.mpr ?_⟩
  rw [hblock]
  exact ⟨rfl, by unfold Block.Kept; decide⟩

/-! ## The size of the cache -/

/-- **The size of the cache** is right, and no list is being changed, when nobody has the lock. -/
theorem actsize_eq (h : (machine cfg main).Reachable p) (hlock : p.shared.stack_cache_lock = none) :
    p.shared.in_flight_stack = none ∧ p.shared.stack_cache_actsize =
      (p.shared.stack_cache.map fun pd => (p.shared.block pd).stackblock_size).sum %
        18446744073709551616 := by
  obtain ⟨G, ⟨st, hJ⟩, -⟩ := inv_of_reachable h
  obtain ⟨cache, hcache⟩ := hJ.monitor.free hlock
  refine ⟨hcache.in_flight, ?_⟩
  have hsizes : ((cache.map Prod.fst).map fun pd => (p.shared.block pd).stackblock_size) =
      cache.map Prod.snd := by
    rw [List.map_map]
    exact List.map_congr_left fun e he => hcache.size e.1 e.2 he
  have hsum := (hcache.cache.map fun pd => (p.shared.block pd).stackblock_size).sum_eq
  rw [hsizes] at hsum
  have htotal : Inside.total ⟨cache, 0, none, []⟩ = ((cache.map Prod.snd).sum : Nat) := by
    rw [Inside.total, Int.add_zero, Nat.cast_list_sum, List.map_map]
    rfl
  have hact := hcache.actsize
  rw [htotal] at hact
  have hmod := Int.natCast_modEq_iff.mp hact
  rw [hsum, ← hmod]
  exact (Nat.mod_eq_of_lt hcache.size_t).symm

theorem actsize_eq_joined : ∃ p,
    (machine small false).exec first (created ++ timedOut ++ ended ++ joined) = some p ∧
      p.shared.stack_cache_actsize = 20480 := by
  obtain ⟨p, hrun, hblock, hcache, hlock, -⟩ := exec_joined
  have hact := (actsize_eq (reachable_first hrun) hlock).2
  rw [hcache, List.map_singleton, hblock] at hact
  exact ⟨p, hrun, hact⟩

/-! ## The size of a stack -/

/-- **The stack of a thread** has the guard and, without it, the size that its attributes ask for,
and room for the descriptor; it is not more than four times as large. -/
theorem stacks_fit (h : (machine cfg main).Reachable p) (hpage : 0 < cfg.pagesize) {pd : P}
    (halive : (p.shared.block pd).alive = true) (huser : (p.shared.block pd).user_stack = false)
    (hsize : (p.shared.block pd).attr.size cfg < 18446744073709551616) :
    let b := p.shared.block pd
    b.attr.guardsize ≤ b.guardsize ∧ b.attr.size cfg + b.guardsize ≤ b.stackblock_size ∧
      (b.attr.guardsize + cfg.static_tls_size + MINIMAL_REST_STACK + 2 * cfg.pagesize ≤
          18446744073709551616 →
        cfg.static_tls_size + MINIMAL_REST_STACK + b.guardsize ≤ b.stackblock_size) ∧
      b.stackblock_size ≤ max (4 * (b.attr.size cfg + cfg.roundup b.attr.guardsize))
        (b.attr.size cfg + cfg.roundup b.attr.guardsize + cfg.pagesize) := by
  obtain ⟨G, ⟨st, hJ⟩, -⟩ := inv_of_reachable h
  have hfits := (hJ.started pd halive).2
  rw [Block.Fits, huser] at hfits
  replace hfits : (p.shared.block pd).attr.Fits cfg _ _ := hfits
  have hreq := hfits.reqsize_eq hsize
  have husable := hfits.usable
  have hbound := hfits.bounded
  rw [hreq] at husable hbound
  refine ⟨hfits.roundup.trans hfits.guarded, by omega, fun hno => ?_, hbound⟩
  have hround := roundup_le cfg (p.shared.block pd).attr.guardsize
  have hrest := (le_roundup hpage (by omega)).trans hfits.rest
  rw [hreq] at hrest
  omega

theorem stacks_fit_created : ∃ p, (machine small false).exec first created = some p ∧
    (p.shared.block true).attr.size small + (p.shared.block true).guardsize ≤
      (p.shared.block true).stackblock_size := by
  obtain ⟨p, -, hrun, hblock, -⟩ := exec_created
  exact ⟨p, hrun, (stacks_fit (reachable_first hrun) (by decide) (by rw [hblock]) (by rw [hblock])
    (by rw [hblock]; decide)).2.1⟩

/-! ## Stacks that nobody frees -/

/-- No handle is lost, and what is leaked stays so. -/
def Keeps (b b' : Block P) : Prop :=
  (b.handle = true → b'.handle = true) ∧ (b.leaked = true → b'.leaked = true)

theorem keeps_setBlock {pd pd' : P} {b : Block P}
    (hhandle : (s.block pd').handle = true → b.handle = true)
    (hleaked : (s.block pd').leaked = true → b.leaked = true) :
    Keeps (s.block pd) ((s.setBlock pd' b).block pd) := by
  show Keeps (s.block pd) (Function.update s.block pd' b pd)
  by_cases hpd : pd = pd'
  · subst hpd
    rw [Function.update_self]
    exact ⟨hhandle, hleaked⟩
  · rw [Function.update_of_ne hpd]
    exact ⟨id, id⟩

theorem keeps_touch {i pd : P} : Keeps (s.block pd) ((s.touch i).block pd) := by
  unfold State.touch
  split <;> exact ⟨id, id⟩

/-- **Step lemma** for the calls. -/
theorem answer_keeps {i : P} {c : Call P} {e : Env P} {a : c.Ans}
    (h : answer i c e s = some (a, s')) (pd : P) : Keeps (s.block pd) (s'.block pd) := by
  cases c with
  | lll_lock =>
    rw [answer_lll_lock] at h
    split at h
    · cases h
      exact ⟨id, id⟩
    · cases h
  | list_add elem list =>
    cases h
    rw [State.block_add]
    exact keeps_touch
  | mmap size guard =>
    rw [answer_mmap] at h
    split at h
    · split at h
      · cases h
        exact keeps_setBlock id id
      · cases h
    · cases h
      exact ⟨id, id⟩
    · cases h
  | prepare =>
    cases e <;> cases h <;> exact ⟨id, id⟩
  | cancelhandling pd' =>
    cases e <;> cases h <;> exact ⟨id, id⟩
  | provide pd' size =>
    rw [answer_provide] at h
    split at h
    · cases h
      exact keeps_setBlock id id
    · cases h
  | clone pd' =>
    have hor : ∀ b b' : Bool, b = true → (b || b') = true := fun b b' hb => by rw [hb]; rfl
    rw [answer_clone] at h
    split at h
    · cases h
      exact keeps_setBlock (hor _ _) (hor _ _)
    · cases h
      exact keeps_setBlock (hor _ _) (hor _ _)
    · cases h
      exact ⟨id, id⟩
    · cases h
  | cas_joinid pd' =>
    rw [answer_cas_joinid] at h
    split at h
    · cases h
      exact keeps_setBlock id id
    · cases h
      exact ⟨id, id⟩
  | wait_tid pd' =>
    rw [answer_wait_tid] at h
    split at h
    · split at h
      · cases h
        exact ⟨id, id⟩
      · cases h
    · cases h
      exact ⟨id, id⟩
    · cases h
  | keep_handle pd' =>
    have hor : ∀ b b' : Bool, b = true → (b || b') = true := fun b b' hb => by rw [hb]; rfl
    rw [answer_keep_handle] at h
    cases h
    exact keeps_setBlock (hor _ _) id
  | in_flight el | list_del elem | list_for_each | add_actsize n | sub_actsize n =>
    cases h
    exact keeps_touch
  | lll_unlock | FREE_P curr | stackblock_size pd' | guardsize pd' | user_stack pd' | joinid pd' =>
    cases h
    exact ⟨id, id⟩
  | set_guardsize pd' n | munmap pd' | give_back pd' | reuse pd' | init pd' attr
  | clear_joinid pd' | set_tid pd' tid | test_set_terminated pd' | exit_thread =>
    cases h
    exact keeps_setBlock id id

/-- The program takes a handle only to join this thread with it. -/
theorem enter_keeps {i : P} (pd : P) {r : Ret P} {e : Env P} {prog : Prog (Calls P) (Ret P)}
    (h : enter cfg i r e s = some (prog, s')) :
    ((s.block pd).leaked = true → (s'.block pd).leaked = true) ∧
      (e ≠ .thread pd → Keeps (s.block pd) (s'.block pd)) := by
  unfold enter at h
  split at h
  · cases h
  · split at h
    · cases h
      exact ⟨id, fun _ => ⟨id, id⟩⟩
    · cases h
      exact ⟨id, fun _ => ⟨id, id⟩⟩
    · next pd' =>
      split at h
      · cases h
        by_cases hpd : pd = pd'
        · subst hpd
          refine ⟨fun hl => ?_, fun hne => absurd rfl hne⟩
          show (Function.update s.block pd _ pd).leaked = true
          rw [Function.update_self]
          exact hl
        · have hsame : (s.setBlock pd' { s.block pd' with handle := false }).block pd =
              s.block pd := Function.update_of_ne hpd ..
          rw [hsame]
          exact ⟨id, fun _ => ⟨id, id⟩⟩
      · cases h
    · cases h
      exact ⟨id, fun _ => ⟨id, id⟩⟩
    · cases h
      exact ⟨id, fun _ => ⟨id, id⟩⟩
    · cases h

/-- The thread is not going to be joined: the program has a handle and does not use it, or nobody
can join it. -/
def Unjoined (pd : P) (as : List (Pool.Label P (Env P))) (b : Block P) : Prop :=
  b.handle = true ∧ (∀ i, .enter i (.thread pd) ∉ as) ∨ b.leaked = true

theorem next_unjoined {pd : P} {l : Pool.Label P (Env P)} {as : List (Pool.Label P (Env P))}
    (hnext : (machine cfg main).next p l = some q)
    (h : Unjoined pd (l :: as) (p.shared.block pd)) : Unjoined pd as (q.shared.block pd) := by
  have hlater : (∀ i, .enter i (.thread pd) ∉ l :: as) → ∀ i, .enter i (.thread pd) ∉ as :=
    fun hno i hin => hno i (List.mem_cons_of_mem _ hin)
  have hkeeps : Keeps (p.shared.block pd) (q.shared.block pd) →
      Unjoined pd as (q.shared.block pd) := by
    intro hk
    obtain ⟨hh, hno⟩ | hl := h
    · exact .inl ⟨hk.1 hh, hlater hno⟩
    · exact .inr (hk.2 hl)
  replace hnext : Pool.next (sem cfg) p l = some q := hnext
  unfold Pool.next at hnext
  cases l with
  | run i e =>
    cases hp : p.prog i with
    | ret r =>
      simp only [hp] at hnext
      cases hnext
    | call c k =>
      simp only [hp] at hnext
      obtain ⟨⟨a, s'⟩, hans, rfl⟩ := Option.map_eq_some_iff.mp hnext
      exact hkeeps (answer_keeps hans pd)
  | enter i e =>
    cases hp : p.prog i with
    | ret r =>
      simp only [hp] at hnext
      obtain ⟨⟨prog, s'⟩, hent, rfl⟩ := Option.map_eq_some_iff.mp hnext
      obtain ⟨hleaked, hother⟩ := enter_keeps pd hent
      by_cases he : e = .thread pd
      · obtain ⟨-, hno⟩ | hl := h
        · exact absurd (he ▸ List.mem_cons_self ..) (hno i)
        · exact .inr (hleaked hl)
      · exact hkeeps (hother he)
    | call c k =>
      simp only [hp] at hnext
      cases hnext
  | happen e =>
    obtain ⟨s, hs, rfl⟩ := Option.map_eq_some_iff.mp hnext
    refine hkeeps ?_
    replace hs : happen e p.shared = some s := hs
    unfold happen at hs
    split at hs
    · split at hs
      · cases hs
        exact keeps_setBlock id id
      · cases hs
    · cases hs

/-- **Run lemma**. -/
theorem exec_unjoined {pd : P} {as : List (Pool.Label P (Env P))}
    (hrun : (machine cfg main).exec p as = some q) (h : Unjoined pd as (p.shared.block pd)) :
    Unjoined pd [] (q.shared.block pd) := by
  induction as generalizing p with
  | nil =>
    obtain rfl := Option.some.inj hrun
    exact h
  | cons l as ih =>
    obtain ⟨r, hnext, hrest⟩ := Machine.exec_cons_inv hrun
    exact ih hrest (next_unjoined hnext h)

/-- **The stack of a thread** that is neither detached nor joined, or that can not be joined because
`pthread_create` has failed after it ran, is kept for ever: it is never cached nor unmapped. -/
theorem unjoined_for_ever (h : (machine cfg main).Reachable p) {pd : P}
    {as : List (Pool.Label P (Env P))} (hrun : (machine cfg main).exec p as = some q)
    (hpd : (p.shared.block pd).handle = true ∧ (∀ i, .enter i (.thread pd) ∉ as) ∨
      (p.shared.block pd).leaked = true) :
    (q.shared.block pd).mem = (q.shared.block pd).home ∧
      pd ∈ (if (q.shared.block pd).user_stack then q.shared.stack_user else q.shared.stack_used) ∧
      pd ∉ q.shared.stack_cache := by
  obtain ⟨s₀, bs, hinit, hexec⟩ := h
  have hreach : (machine cfg main).Reachable q :=
    ⟨s₀, bs ++ as, hinit, (Machine.exec_append_of_exec hexec).trans hrun⟩
  obtain ⟨G, ⟨st, hJ⟩, -⟩ := inv_of_reachable hreach
  have hok := hJ.ledger.ok pd
  obtain ⟨hhandle, -⟩ | hleaked := exec_unjoined hrun hpd
  · have hst := hJ.ledger.joinable hhandle
    rw [hst] at hok
    exact ⟨hok.1, hJ.ledger.used (by rw [hst]; exact fun _ => rfl)⟩
  · cases hst : st pd with
    | absent =>
      rw [hst] at hok
      cases hleaked.symm.trans hok.2.2.1
    | cached =>
      rw [hst] at hok
      cases hleaked.symm.trans hok.2.2.1
    | detached =>
      rw [hst] at hok
      cases hleaked.symm.trans hok.2.2.1
    | joinable =>
      rw [hst] at hok
      cases hleaked.symm.trans hok.2.2.1
    | lost =>
      rw [hst] at hok
      exact ⟨hok.1, hJ.ledger.used (by rw [hst]; exact fun _ => rfl)⟩
    | held i listed =>
      rw [hst] at hok
      cases hleaked.symm.trans hok.2.2.1

/-- Nobody joins the other thread. -/
theorem unjoined_for_ever_ended : ∃ p q, (machine small false).exec first created = some p ∧
    (machine small false).exec p ended = some q ∧ (q.shared.block true).alive = false ∧
      true ∈ q.shared.stack_used := by
  obtain ⟨p, q, hrun, hblock, hend, hblock'⟩ := exec_created
  have hno : ∀ i, Pool.Label.enter i (Env.thread true) ∉ ended := by
    intro i hin
    simp [ended] at hin
  have hused := (unjoined_for_ever (reachable_first hrun) hend (.inl ⟨by rw [hblock], hno⟩)).2.1
  rw [hblock'] at hused
  exact ⟨p, q, hrun, hend, by rw [hblock'], hused⟩

end Stacks

end EngineerLinux.Nptl
