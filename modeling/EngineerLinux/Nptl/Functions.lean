import EngineerLinux.Nptl.Calls

/-!
# What the functions do with the stacks

One lemma for each function: what the thread owns before, and what it owns then. A thread that
returns from `pthread_create`, from `pthread_join` or at its end owns nothing.

Each follows the source from call to call, with the lemmas of `Calls`, through all error paths: a
stack that cannot be mapped, a guard that cannot be set up, and a thread that does not come to run
or whose attributes cannot be set. The two loops, over the cache to find a stack that is large
enough and over its end to free stacks, have an invariant each (`Found`, and that the sum of the
sizes is still right).

- `runs_get_cached_stack`, `runs_allocate_stack`: a stack that nobody else has, and that fits;
- `runs_deallocate_stack`: the stack is nobody's any more;
- `runs_pthread_create`, `runs_start_thread_end`, `runs_clockjoin_ex`.
-/

namespace EngineerLinux.Nptl

section Functions

variable {P R T : Type} [DecidableEq P] {cfg : Config} {i p : P} {g : Ghost P} {I : Inside P}
  {h : Held P}

/-- One call and what follows it. -/
theorem Runs.then {c : Prog (Calls P) R} {k : R → Prog (Calls P) T} {Q : R → Ghost P → Prop}
    {Q' : T → Ghost P → Prop} (hc : Runs cfg i g c Q)
    (hk : ∀ a g', Q a g' → Runs cfg i g' (k a) Q') : Runs cfg i g (c >>= k) Q' :=
  Safe.bind (hc.imp hk)

/-! ## `allocatestack.c` -/

theorem runs_stack_list_del (hin : g.inside = some I) (hflight : I.in_flight = none)
    (hstack : g.stack = some (p, h))
    (hrel : h.dead = true ∨ p = i) :
    Runs cfg i g (stack_list_del p) fun _ g' =>
      g' = { g with stack := some (p, { h with listed := false }) } := by
  refine Runs.then (runs_in_flight hin _) ?_
  rintro _ _ rfl
  refine Runs.then (runs_list_del_used rfl hstack hrel) ?_
  rintro _ _ rfl
  refine Safe.imp (runs_in_flight rfl none) ?_
  rintro _ _ rfl
  rw [← hflight, ← hin]

theorem runs_stack_list_del_cache {n : Nat} (hin : g.inside = some I) (hflight : I.in_flight = none)
    (hstack : g.stack = none) (hmem : (p, n) ∈ I.cache) (hfree : p ∈ I.free) :
    Runs cfg i g (stack_list_del p) fun _ g' =>
      ∃ h, g' =
        { g with
          stack := some (p, h)
          inside := some { I with
            cache := I.cache.erase (p, n), ahead := I.ahead + n, free := [] } } ∧
        h.Fresh false false ∧ h.desc.stackblock_size = n := by
  refine Runs.then (runs_in_flight hin _) ?_
  rintro _ _ rfl
  refine Runs.then (runs_list_del_cache rfl hstack hmem hfree) ?_
  rintro _ _ ⟨h, rfl, hfresh, hsize⟩
  refine Safe.imp (runs_in_flight rfl none) ?_
  rintro _ _ rfl
  exact ⟨h, by rw [← hflight], hfresh, hsize⟩

theorem runs_stack_list_add_used (hin : g.inside = some I) (hflight : I.in_flight = none)
    (hstack : g.stack = some (p, h)) (hlisted : h.listed = false)
    (huser : h.desc.user_stack = false) :
    Runs cfg i g (stack_list_add p .stack_used) fun _ g' =>
      g' = { g with stack := some (p, { h with listed := true }) } := by
  refine Runs.then (runs_in_flight hin _) ?_
  rintro _ _ rfl
  refine Runs.then (runs_list_add_used rfl hstack hlisted (by rw [huser]; rfl)) ?_
  rintro _ _ rfl
  refine Safe.imp (runs_in_flight rfl none) ?_
  rintro _ _ rfl
  rw [← hflight, ← hin]

theorem toSize_le (n : Nat) : toSize n ≤ n := by
  unfold toSize
  omega

/-- What `searchLoop` has found so far. -/
def Found (size : Nat) (I : Inside P) (free : List P) (r : Option (P × Nat)) : Prop :=
  ∀ q n, r = some (q, n) → (q, n) ∈ I.cache ∧ q ∈ free ∧ size ≤ n

theorem runs_searchLoop {size : Nat} {entries : List P} {free : List P} {r : Option (P × Nat)}
    (hin : g.inside = some { I with free }) (hmem : ∀ q, q ∈ entries → q ∈ I.cache.map Prod.fst)
    (hr : Found size I free r) :
    Runs cfg i g (searchLoop size entries r) fun a g' =>
      ∃ free, g' = { g with inside := some { I with free } } ∧ Found size I free a := by
  induction entries generalizing g free r with
  | nil => exact ⟨free, by rw [← hin], hr⟩
  | cons curr entries ih =>
    have hrest : ∀ q, q ∈ entries → q ∈ I.cache.map Prod.fst :=
      fun q hq => hmem q (List.mem_cons_of_mem _ hq)
    have hcurr := hmem curr (List.mem_cons_self ..)
    refine Runs.then (runs_FREE_P hin hcurr) ?_
    rintro (_ | _) g' rfl
    · exact ih hin hrest hr
    · obtain ⟨⟨curr, n⟩, hn, rfl⟩ := List.mem_map.mp hcurr
      refine Runs.then (runs_stackblock_size_cached (n := n) rfl hn) ?_
      rintro n _ ⟨rfl, rfl⟩
      have hmore : Found size I (curr :: free) r := fun q m hq =>
        ⟨(hr q m hq).1, List.mem_cons_of_mem _ (hr q m hq).2.1, (hr q m hq).2.2⟩
      have hthis : size ≤ n → Found size I (curr :: free) (some (curr, n)) := by
        rintro hle q m ⟨⟩
        exact ⟨hn, List.mem_cons_self .., hle⟩
      show Runs cfg i { g with inside := some { I with free := curr :: free } }
        (if n < size then _ else _) _
      split
      · exact ih rfl hrest hmore
      · next hlt =>
        split
        · exact ⟨_, rfl, hthis (not_lt.mp hlt)⟩
        · split
          · exact ih rfl hrest (hthis (not_lt.mp hlt))
          · exact ih rfl hrest hmore

/-- A stack from the cache belongs to the thread alone, and is of the size that is asked for. -/
theorem runs_get_cached_stack {size : Nat} (hin : g.inside = none) (hstack : g.stack = none) :
    Runs cfg i g (get_cached_stack size) fun a g' =>
      match a with
      | none => g' = g
      | some (pd, n) => ∃ h, g' = { g with stack := some (pd, h) } ∧ h.Fresh true false ∧
          h.desc.TERMINATED = false ∧ h.desc.stackblock_size = n ∧ size ≤ n ∧ n ≤ 4 * size := by
  refine Runs.then runs_lll_lock ?_
  rintro _ _ ⟨cache, rfl⟩
  refine Runs.then (runs_list_for_each rfl) ?_
  rintro entries _ ⟨hperm, -, rfl⟩
  have hmem : ∀ q, q ∈ entries → q ∈ cache.map Prod.fst := fun q hq => hperm.mem_iff.mp hq
  refine Runs.then (runs_searchLoop (I := ⟨cache, 0, none, []⟩) (r := none) rfl hmem
    (by simp [Found])) ?_
  rintro (_ | ⟨pd, n⟩) _ ⟨free, rfl, hfound⟩
  · refine Runs.then (runs_lll_unlock rfl rfl rfl) ?_
    rintro _ _ rfl
    exact Ghost.outside hin
  · obtain ⟨hcached, hfree, hle⟩ := hfound pd n rfl
    show Runs cfg i { g with inside := some ⟨cache, 0, none, free⟩ }
      (if n > toSize (4 * size) then _ else _) _
    split
    · refine Runs.then (runs_lll_unlock rfl rfl rfl) ?_
      rintro _ _ rfl
      exact Ghost.outside hin
    · next hlarge =>
      refine Runs.then (runs_stack_list_del_cache rfl rfl hstack hcached hfree) ?_
      rintro _ _ ⟨h, rfl, hfresh, hsize⟩
      refine Runs.then
        (runs_stack_list_add_used rfl rfl rfl hfresh.listed hfresh.user_stack) ?_
      rintro _ _ rfl
      refine Runs.then (runs_sub_actsize rfl n) ?_
      rintro _ _ rfl
      refine Runs.then (runs_lll_unlock rfl ?_ rfl) ?_
      · show (0 : Int) + n - n = 0
        omega
      rintro _ _ rfl
      refine Runs.then (runs_reuse rfl hfresh.dead) ?_
      rintro _ _ rfl
      refine ⟨{ h with listed := true, desc := { h.desc with TERMINATED := false }.settled },
        by rw [← hin], ⟨rfl, hfresh.dead, hfresh.user_stack⟩, rfl, hsize, hle, ?_⟩
      exact (not_lt.mp hlarge).trans (toSize_le (4 * size))

/-- The loop of `free_stacks` takes stacks from the cache and no others. -/
theorem runs_freeLoop {limit : Nat} {entries : List P} (hin : g.inside = some I)
    (hflight : I.in_flight = none) (hstack : g.stack = none) (hnodup : entries.Nodup)
    (hmem : ∀ q, q ∈ entries → q ∈ I.cache.map Prod.fst) :
    Runs cfg i g (freeLoop limit entries) fun _ g' =>
      ∃ I', g' = { g with inside := some I' } ∧ I'.ahead = I.ahead ∧ I'.in_flight = none := by
  induction entries generalizing g I with
  | nil => exact ⟨I, by rw [← hin], rfl, hflight⟩
  | cons curr entries ih =>
    obtain ⟨hnot, hnodup'⟩ := List.nodup_cons.mp hnodup
    have hrest : ∀ q, q ∈ entries → q ∈ I.cache.map Prod.fst :=
      fun q hq => hmem q (List.mem_cons_of_mem _ hq)
    have hcurr := hmem curr (List.mem_cons_self ..)
    refine Runs.then (runs_FREE_P hin hcurr) ?_
    rintro (_ | _) g' rfl
    · exact ih hin hflight hstack hnodup' hrest
    · obtain ⟨⟨curr, n⟩, hn, rfl⟩ := List.mem_map.mp hcurr
      refine Runs.then (runs_stack_list_del_cache (n := n) rfl hflight hstack hn
        (List.mem_cons_self ..)) ?_
      rintro _ _ ⟨h, rfl, hfresh, hsize⟩
      refine Runs.then (runs_stackblock_size rfl) ?_
      rintro _ _ ⟨rfl, rfl⟩
      refine Runs.then (runs_sub_actsize rfl _) ?_
      rintro actsize _ rfl
      refine Runs.then (runs_munmap rfl hfresh) ?_
      rintro _ _ rfl
      have hahead : I.ahead + n - h.desc.stackblock_size = I.ahead := by omega
      show Runs cfg i { g with
          stack := none
          inside := some { I with
            cache := I.cache.erase (curr, n), ahead := I.ahead + n - h.desc.stackblock_size
            free := [] } } (if actsize ≤ limit then pure () else freeLoop limit entries) _
      split
      · exact ⟨{ I with
            cache := I.cache.erase (curr, n), ahead := I.ahead + n - h.desc.stackblock_size
            free := [] }, by rw [hstack], hahead, hflight⟩
      · refine Safe.imp (ih rfl hflight rfl hnodup' fun q hq => ?_) ?_
        · obtain ⟨⟨q, m⟩, hm, rfl⟩ := List.mem_map.mp (hrest q hq)
          have hne : (q, m) ≠ (curr, n) := by
            rintro ⟨⟩
            exact hnot hq
          exact List.mem_map.mpr ⟨(q, m), (List.mem_erase_of_ne hne).mpr hm, rfl⟩
        · rintro _ _ ⟨I', rfl, hI', hflight'⟩
          exact ⟨I', by rw [hstack], hI'.trans hahead, hflight'⟩

theorem runs_free_stacks {limit : Nat} (hin : g.inside = some I) (hflight : I.in_flight = none)
    (hstack : g.stack = none) :
    Runs cfg i g (free_stacks limit) fun _ g' =>
      ∃ I', g' = { g with inside := some I' } ∧ I'.ahead = I.ahead ∧ I'.in_flight = none := by
  refine Runs.then (runs_list_for_each hin) ?_
  rintro entries _ ⟨hperm, hnodup, rfl⟩
  exact runs_freeLoop hin hflight hstack (List.nodup_reverse.mpr hnodup)
    fun q hq => hperm.mem_iff.mp (List.mem_reverse.mp hq)

theorem runs_queue_stack (hin : g.inside = some I) (hflight : I.in_flight = none)
    (hstack : g.stack = some (p, h)) (hlisted : h.listed = false)
    (huser : h.desc.user_stack = false) (hrel : g.Releases i p h) :
    Runs cfg i g (queue_stack p) fun _ g' =>
      ∃ I', g' = { g with stack := none, inside := some I' } ∧ I'.ahead = I.ahead ∧
        I'.in_flight = none := by
  refine Runs.then (Q := fun _ g' => g' = { g with
      stack := none
      inside := some { I with
        cache := (p, h.desc.stackblock_size) :: I.cache
        ahead := I.ahead - h.desc.stackblock_size } }) ?_ ?_
  · refine Runs.then (runs_in_flight hin _) ?_
    rintro _ _ rfl
    refine Runs.then (runs_list_add_cache rfl hstack hlisted huser hrel) ?_
    rintro _ _ rfl
    refine Safe.imp (runs_in_flight rfl none) ?_
    rintro _ _ rfl
    rw [← hflight]
  rintro _ _ rfl
  refine Runs.then (runs_stackblock_size_cached rfl (List.mem_cons_self ..)) ?_
  rintro n _ ⟨rfl, rfl⟩
  refine Runs.then (runs_add_actsize rfl _) ?_
  rintro actsize _ rfl
  have hahead : I.ahead - h.desc.stackblock_size + h.desc.stackblock_size = I.ahead := by omega
  show Runs cfg i { g with
      stack := none
      inside := some { I with
        cache := (p, h.desc.stackblock_size) :: I.cache
        ahead := I.ahead - h.desc.stackblock_size + h.desc.stackblock_size } }
    (if actsize > stack_cache_maxsize then free_stacks stack_cache_maxsize else pure ()) _
  rw [hahead]
  split
  · refine Safe.imp (runs_free_stacks rfl hflight rfl) ?_
    rintro _ _ ⟨I', rfl, hI', hflight'⟩
    exact ⟨I', rfl, hI', hflight'⟩
  · exact ⟨_, rfl, rfl, hflight⟩

/-- Whoever frees a stack has it no more; it is cached, or given back to the program. -/
theorem runs_deallocate_stack (hin : g.inside = none) (hstack : g.stack = some (p, h))
    (hrel : g.Releases i p h) :
    Runs cfg i g (deallocate_stack p) fun _ g' => g' = { g with stack := none } := by
  refine Runs.then runs_lll_lock ?_
  rintro _ _ ⟨cache, rfl⟩
  refine Runs.then (runs_stack_list_del rfl rfl hstack (hrel.imp_right And.left)) ?_
  rintro _ _ rfl
  refine Runs.then (runs_user_stack rfl) ?_
  rintro user _ ⟨huser, rfl⟩
  cases user with
  | true =>
    refine Runs.then (runs_give_back rfl rfl huser.symm hrel) ?_
    rintro _ _ rfl
    refine Safe.imp (runs_lll_unlock rfl rfl rfl) ?_
    rintro _ _ rfl
    rw [← hin]
  | false =>
    refine Runs.then (runs_queue_stack rfl rfl rfl rfl huser.symm hrel) ?_
    rintro _ _ ⟨I', rfl, hahead, hflight⟩
    refine Safe.imp (runs_lll_unlock rfl hahead hflight) ?_
    rintro _ _ rfl
    rw [← hin]

theorem runs_mprot_error {user : Bool} (hin : g.inside = none) (hstack : g.stack = some (p, h))
    (hfresh : h.Fresh true user) :
    Runs cfg i g (mprot_error p) fun a g' =>
      a = .error .ENOMEM ∧ g' = { g with stack := none } := by
  refine Runs.then runs_lll_lock ?_
  rintro _ _ ⟨cache, rfl⟩
  refine Runs.then (runs_stack_list_del rfl rfl hstack (.inl hfresh.dead)) ?_
  rintro _ _ rfl
  refine Runs.then (runs_lll_unlock rfl rfl rfl) ?_
  rintro _ _ rfl
  refine Runs.then (runs_munmap rfl ⟨rfl, hfresh.dead, hfresh.user_stack⟩) ?_
  rintro _ _ rfl
  exact ⟨rfl, by rw [← hin]⟩

/-- What `allocate_stack` gives: a stack of the thread's own, that fits the attributes. -/
structure Held.Allocated (cfg : Config) (attr : Attr P) (h : Held P) : Prop where
  fresh : h.Fresh true h.desc.user_stack
  TERMINATED : h.desc.TERMINATED = false
  fits : Block.Fits cfg { h.desc with attr }

/-- The guard is as large as it has to be, and not larger than there is room for. -/
theorem runs_setup_guard {size reqsize guard : Nat} (hin : g.inside = none)
    (hstack : g.stack = some (p, h)) (hfresh : h.Fresh true false)
    (hterm : h.desc.TERMINATED = false) (hle : reqsize ≤ size) :
    Runs cfg i g (setup_guard p size reqsize guard) fun a g' =>
      match a with
      | .ok pd => ∃ h', g' = { g with stack := some (pd, h') } ∧ h'.Fresh true false ∧
          h'.desc.TERMINATED = false ∧ h'.desc.stackblock_size = h.desc.stackblock_size ∧
          guard ≤ h'.desc.guardsize ∧ reqsize + h'.desc.guardsize ≤ size + guard
      | .error _ => g' = { g with stack := none } := by
  refine Runs.then (runs_guardsize hstack) ?_
  rintro old g ⟨rfl, rfl⟩
  show Runs cfg i g (if guard > h.desc.guardsize ∨ h.desc.guardsize - guard > size - reqsize
    then _ else _) _
  split
  · refine Runs.then runs_prepare ?_
    rintro (_ | _) _ rfl
    · refine Safe.imp (runs_mprot_error hin hstack hfresh) ?_
      rintro _ _ ⟨rfl, rfl⟩
      rfl
    · refine Runs.then (runs_set_guardsize hstack hfresh.dead) ?_
      rintro _ _ rfl
      exact ⟨_, rfl, ⟨hfresh.listed, hfresh.dead, hfresh.user_stack⟩, hterm, rfl,
        le_refl guard, Nat.add_le_add_right hle guard⟩
  · next hroom =>
    refine ⟨h, by rw [← hstack], hfresh, hterm, rfl, ?_, ?_⟩
    · omega
    · omega

/-- A stack that is newly mapped. -/
theorem runs_new_stack {size guard : Nat} (hin : g.inside = none) (hstack : g.stack = none) :
    Runs cfg i g (new_stack size guard) fun a g' =>
      match a with
      | none => g' = g
      | some pd => ∃ h, g' = { g with stack := some (pd, h) } ∧ h.Fresh true false ∧
          h.desc.TERMINATED = false ∧ h.desc.stackblock_size = size := by
  refine Runs.then (runs_mmap hstack) ?_
  rintro (_ | pd) g' hg'
  · exact hg'
  · obtain ⟨h, rfl, hfresh, hsize, -, hterm⟩ := hg'
    refine Runs.then runs_prepare ?_
    rintro (_ | _) _ rfl
    · refine Runs.then (runs_munmap rfl hfresh) ?_
      rintro _ _ rfl
      exact Ghost.without hstack
    · refine Runs.then runs_lll_lock ?_
      rintro _ _ ⟨cache, rfl⟩
      refine Runs.then
        (runs_stack_list_add_used rfl rfl rfl hfresh.listed hfresh.user_stack) ?_
      rintro _ _ rfl
      refine Runs.then (runs_lll_unlock rfl rfl rfl) ?_
      rintro _ _ rfl
      exact ⟨{ h with listed := true }, by rw [← hin],
        ⟨rfl, hfresh.dead, hfresh.user_stack⟩, hterm, hsize⟩

/-- `setup_guard` gives a stack that fits. -/
theorem runs_setup_guard_fits {attr : Attr P} {size : Nat} (hin : g.inside = none)
    (hstack : g.stack = some (p, h)) (hfresh : h.Fresh true false)
    (hterm : h.desc.TERMINATED = false) (hsize : h.desc.stackblock_size = size)
    (hround : attr.guardsize ≤ cfg.roundup attr.guardsize)
    (hover : cfg.roundup attr.guardsize ≤ attr.reqsize cfg)
    (hrest : cfg.roundup (cfg.roundup attr.guardsize + cfg.static_tls_size + MINIMAL_REST_STACK) ≤
      attr.reqsize cfg)
    (hle : attr.reqsize cfg ≤ size)
    (hbound : size ≤ max (4 * attr.reqsize cfg) (attr.reqsize cfg + cfg.pagesize)) :
    Runs cfg i g (setup_guard p size (attr.reqsize cfg) (cfg.roundup attr.guardsize)) fun a g' =>
      match a with
      | .ok pd => ∃ h, g' = { g with stack := some (pd, h) } ∧ h.Allocated cfg attr
      | .error _ => g' = { g with stack := none } := by
  refine Safe.imp (runs_setup_guard hin hstack hfresh hterm hle) ?_
  rintro (_ | pd) g' hg'
  · exact hg'
  · obtain ⟨h', rfl, hfresh', hterm', hsize', hguard, hroom⟩ := hg'
    refine ⟨h', rfl, ⟨hfresh'.user_stack.symm ▸ hfresh', hterm', ?_⟩⟩
    show if h'.desc.user_stack then _ else attr.Fits cfg h'.desc.stackblock_size h'.desc.guardsize
    rw [hfresh'.user_stack, hsize', hsize]
    exact ⟨hround, hover, hrest, hguard, hroom, hbound⟩

theorem runs_allocate_anonymous {attr : Attr P} (hin : g.inside = none) (hstack : g.stack = none) :
    Runs cfg i g (allocate_anonymous cfg attr) fun a g' =>
      match a with
      | .ok pd => ∃ h, g' = { g with stack := some (pd, h) } ∧ h.Allocated cfg attr
      | .error _ => g' = g := by
  show Runs cfg i g (if cfg.roundup attr.guardsize < attr.guardsize ∨
    attr.reqsize cfg < cfg.roundup attr.guardsize ∨ attr.reqsize cfg <
      cfg.roundup (cfg.roundup attr.guardsize + cfg.static_tls_size + MINIMAL_REST_STACK)
    then _ else _) _
  split
  · exact (rfl : g = g)
  · next hargs =>
    rw [not_or, not_or, not_lt, not_lt, not_lt] at hargs
    obtain ⟨hround, hover, hrest⟩ := hargs
    have hback : ∀ {h : Held P} {pd : P} (a : Except Errno P) (g' : Ghost P),
        (match a with
          | .ok pd' => ∃ h',
              g' = { { g with stack := some (pd, h) } with stack := some (pd', h') } ∧
                h'.Allocated cfg attr
          | .error _ => g' = { { g with stack := some (pd, h) } with stack := none }) →
        match a with
          | .ok pd' => ∃ h', g' = { g with stack := some (pd', h') } ∧ h'.Allocated cfg attr
          | .error _ => g' = g := by
      rintro h pd (_ | _) g' hg'
      · exact hg'.trans (Ghost.without hstack)
      · exact hg'
    refine Runs.then (runs_get_cached_stack hin hstack) ?_
    rintro (_ | ⟨pd, n⟩) g' hg'
    · obtain rfl := hg'
      refine Runs.then (runs_new_stack hin hstack) ?_
      rintro (_ | pd) g'' hg''
      · exact hg''
      · obtain ⟨h, rfl, hfresh, hterm, hsize⟩ := hg''
        refine Safe.imp (runs_setup_guard_fits hin rfl hfresh hterm hsize hround hover hrest ?_ ?_)
          hback
        · show attr.reqsize cfg ≤ if _ then attr.reqsize cfg + cfg.pagesize else attr.reqsize cfg
          split
          · exact Nat.le_add_right ..
          · exact le_refl _
        · show (if _ then attr.reqsize cfg + cfg.pagesize else attr.reqsize cfg) ≤ _
          refine le_trans ?_ (le_max_right ..)
          split
          · exact le_refl _
          · exact Nat.le_add_right ..
    · obtain ⟨h, rfl, hfresh, hterm, hsize, hle, hmax⟩ := hg'
      exact Safe.imp (runs_setup_guard_fits hin rfl hfresh hterm hsize hround hover hrest hle
        (hmax.trans (le_max_left ..))) hback

theorem runs_allocate_user {attr : Attr P} {pd : P} (hin : g.inside = none)
    (hstack : g.stack = none) :
    Runs cfg i g (allocate_user cfg attr pd) fun a g' =>
      match a with
      | .ok pd => ∃ h, g' = { g with stack := some (pd, h) } ∧ h.Allocated cfg attr
      | .error _ => g' = g := by
  show Runs cfg i g (if attr.stacksize ≠ 0 ∧
    attr.stacksize < cfg.static_tls_size + MINIMAL_REST_STACK then _ else _) _
  split
  · exact (rfl : g = g)
  · refine Runs.then (runs_provide hstack) ?_
    rintro _ _ ⟨h, rfl, hfresh, hsize, hterm⟩
    refine Runs.then runs_prepare ?_
    rintro (_ | _) _ rfl
    · refine Runs.then (runs_give_back rfl hfresh.listed hfresh.user_stack
        (.inl hfresh.dead)) ?_
      rintro _ _ rfl
      exact Ghost.without hstack
    · refine Runs.then runs_lll_lock ?_
      rintro _ _ ⟨cache, rfl⟩
      refine Runs.then
        (runs_list_add_used rfl rfl hfresh.listed (by rw [hfresh.user_stack]; rfl)) ?_
      rintro _ _ rfl
      refine Runs.then (runs_lll_unlock rfl rfl rfl) ?_
      rintro _ _ rfl
      refine ⟨{ h with listed := true }, by rw [← hin],
        ⟨rfl, hfresh.dead, rfl⟩, hterm, ?_⟩
      show if h.desc.user_stack then _ else _
      rw [hfresh.user_stack]
      exact hsize

/-- The stack that `allocate_stack` returns is the thread's own, and fits the attributes. -/
theorem runs_allocate_stack {attr : Attr P} (hin : g.inside = none) (hstack : g.stack = none) :
    Runs cfg i g (allocate_stack cfg attr) fun a g' =>
      match a with
      | .ok pd => ∃ h, g' = { g with stack := some (pd, h) } ∧ h.Allocated cfg attr
      | .error _ => g' = g := by
  unfold allocate_stack
  split
  · exact runs_allocate_user hin hstack
  · exact runs_allocate_anonymous hin hstack

/-! ## `pthread_create.c` -/

/-- The creating thread has given the new one up when it returns. -/
theorem runs_pthread_create {attr : Attr P} (hin : g.inside = none) (hstack : g.stack = none) :
    Runs cfg i g (pthread_create cfg attr) fun _ g' => g' = g := by
  refine Runs.then (runs_allocate_stack hin hstack) ?_
  rintro (err | pd) g' hg'
  · exact hg'
  · obtain ⟨h, rfl, hfresh, hterm, hfits⟩ := hg'
    refine Runs.then (runs_init rfl hfresh.dead) ?_
    rintro _ _ rfl
    have hfresh' : Held.Fresh { h with desc := { h.desc with
        joinid := if attr.detachstate then some pd else none, attr }.settled } true
          h.desc.user_stack :=
      ⟨hfresh.listed, hfresh.dead, rfl⟩
    refine Runs.then (runs_clone rfl hfresh' hterm ?_ hfits) ?_
    · show (if attr.detachstate then some pd else none) = none ∨
        (if attr.detachstate then some pd else none) = some pd
      split
      · exact .inr rfl
      · exact .inl rfl
    · rintro (_ | _ | _) _ rfl
      · exact Ghost.without hstack
      · exact Ghost.without hstack
      · refine Runs.then (runs_deallocate_stack hin rfl (.inl hfresh.dead)) ?_
        rintro _ _ rfl
        exact Ghost.without hstack

/-- `TERMINATED_BIT` is not set yet: whoever frees a thread does so. -/
theorem runs_free_tcb (hin : g.inside = none) (hstack : g.stack = some (p, h))
    (hterm : h.desc.TERMINATED = false) (hrel : g.Releases i p h) :
    Runs cfg i g (free_tcb p) fun _ g' => g' = { g with stack := none } := by
  refine Runs.then (runs_test_set_terminated hstack) ?_
  rintro a _ ⟨rfl, rfl⟩
  rw [hterm]
  exact runs_deallocate_stack hin rfl hrel

theorem runs_start_thread_end (hin : g.inside = none) (hstack : g.stack = none)
    (hphase : g.phase = .running) :
    Runs cfg i g (start_thread_end i) fun _ g' => g' = { g with phase := .idle } := by
  refine Runs.then (runs_joinid_self hstack hphase) ?_
  intro detached g' hg'
  show Runs cfg i g' (if detached = some i then _ else _) _
  split
  · next hdet =>
    rw [if_pos hdet] at hg'
    obtain ⟨h, rfl, hterm⟩ := hg'
    refine Runs.then (runs_free_tcb hin rfl hterm (.inr ⟨rfl, rfl⟩)) ?_
    rintro _ _ rfl
    refine Safe.imp (runs_exit_thread rfl) ?_
    rintro _ _ rfl
    rw [← hstack]
  · next hdet =>
    rw [if_neg hdet] at hg'
    obtain rfl := hg'
    exact runs_exit_thread rfl

/-! ## `pthread_join_common.c` -/

/-- The thread that waits has joined the other one in the end, or given it back to the program. -/
theorem runs_waitJoin (hin : g.inside = none) (hstack : g.stack = some (p, h))
    (hjoin : h.Joinable) :
    Runs cfg i g (waitJoin p) fun _ g' => g' = { g with stack := none } := by
  refine Runs.then (runs_wait_tid hstack) ?_
  rintro (_ | err | _) g' hg'
  · rw [if_pos rfl] at hg'
    obtain rfl := hg'
    refine Runs.then (runs_set_tid rfl rfl) ?_
    rintro _ _ rfl
    refine Runs.then (runs_free_tcb hin rfl hjoin.TERMINATED (.inl rfl)) ?_
    rintro _ _ rfl
    exact (rfl : { g with stack := none } = _)
  · rw [if_neg (by simp)] at hg'
    obtain rfl := hg'
    refine Runs.then (runs_clear_joinid hstack) ?_
    rintro _ _ rfl
    refine Runs.then (runs_keep_handle rfl ⟨hjoin.listed, hjoin.TERMINATED, rfl⟩) ?_
    rintro _ _ rfl
    exact (rfl : { g' with stack := none } = _)
  · rw [if_neg (by simp)] at hg'
    obtain rfl := hg'
    refine Runs.then (runs_keep_handle hstack hjoin) ?_
    rintro _ _ rfl
    exact (rfl : { g' with stack := none } = _)

theorem runs_clockjoin_ex (hin : g.inside = none) (hstack : g.stack = some (p, h))
    (hjoin : h.Joinable) :
    Runs cfg i g (clockjoin_ex i p) fun _ g' => g' = { g with stack := none } := by
  have hkeep : ∀ r : Joined, Runs cfg i g (do perform (.keep_handle p); pure r)
      fun _ g' => g' = { g with stack := none } := by
    intro r
    refine Runs.then (runs_keep_handle hstack hjoin) ?_
    rintro _ _ rfl
    exact (rfl : { g with stack := none } = _)
  refine Runs.then (runs_joinid p) ?_
  rintro detached g rfl
  show Runs cfg i g (if detached = some p then _ else _) _
  split
  · exact hkeep _
  · refine Runs.then (runs_joinid i) ?_
    rintro mine g rfl
    refine Runs.then (runs_cancelhandling p) ?_
    rintro busy g rfl
    refine Runs.then (runs_cancelhandling i) ?_
    rintro canceled g rfl
    show Runs cfg i g (if (p = i ∨ mine = some p ∧ busy = false) ∧ canceled = false
      then _ else _) _
    split
    · exact hkeep _
    · refine Runs.then (runs_cas_joinid hstack hjoin.joinid) ?_
      rintro _ g ⟨rfl, rfl⟩
      exact runs_waitJoin hin hstack hjoin

end Functions

end EngineerLinux.Nptl
