import EngineerLinux.FrameIpc.Segments

/-!
# Creating over left-overs, and with calls that fail

`CreateSharedFrame` finds what an earlier run has left under its two keys, removes it and creates
new objects (lines 49-57 and 59-67). It looks at no other result of a call, and uses the address
that `shmat` returns whatever it is (74-76).

The function has three parts: a half for each object, and `finish`. How many calls a half makes is
known from whether there is a left-over (`callsFor`), so it is known which calls must not fail. A
half either has done its work (`run_createShm_made`) or returns -1 (`run_createShm_refused`), and
with an id of -1, or no address, `finish` goes through a pointer that leads nowhere
(`wild_finish`). The kernel without failures is the case in which no call fails
(`Prog.run_faulty_none`), so the halves are gone through once for both results.

- `MadeShm`, `MadeChannel`: what a half, and the whole function, have done if they have succeeded;
- `recovers_iff`: **a consumer finds the new channel** unless one of the two keys is `IPC_PRIVATE`;
- `all_or_nothing_iff`: **nothing is left half done** exactly if no call fails whose result matters.
-/

namespace EngineerLinux.FrameIpc

variable {A : Setup} {s s' : Host} {key size id n : Nat} {fails : Nat → Bool} {e : Named Region}

/-- The kernel, with these failures. -/
abbrev Host.failing (A : Setup) (fails : Nat → Bool) :
    (c : CreateCall) → Host × Nat → c.Ans × (Host × Nat) :=
  Prog.faulty (S := SysV) fails failure (Host.sysv A)

/-! ## A segment -/

/-- What is left of a removed segment to which somebody is attached. -/
def retired (e : Named Region) : Named Region := ⟨e.id, 0, { e.val with dest := true }⟩

/-- `s'` has a new segment under the key; the one that was there before, if any, has lost it, and
nothing else is different. -/
structure MadeShm (key size : Nat) (s : Host) (id : Nat) (s' : Host) : Prop where
  new : ⟨id, key, .new size⟩ ∈ s'.shm
  fresh : ∀ e ∈ s.shm, e.id ≠ id
  unused : id ∉ s.gone
  kept : ∀ e ∈ s.shm, key = 0 ∨ e.key ≠ key → e ∈ s'.shm
  only : ∀ e' ∈ s'.shm, e' = ⟨id, key, .new size⟩ ∨ (e' ∈ s.shm ∧ (key = 0 ∨ e'.key ≠ key)) ∨
    ∃ e, s.shm.find key = some e ∧ e' = retired e
  known : ∀ i, (i ∈ s.gone ∨ ∃ e ∈ s.shm, e.id = i) → i ∈ s'.gone ∨ ∃ e ∈ s'.shm, e.id = i
  sem : s'.sem = s.sem
  attached : s'.attached = s.attached
  next_addr : s'.next_addr = s.next_addr
  wild : s'.wild = s.wild

/-- A segment of this size can be created. -/
def Creatable (A : Setup) (size : Nat) : Prop := 0 < size ∧ size ≤ A.shmmax

instance : Decidable (Creatable A size) := inferInstanceAs (Decidable (_ ∧ _))

theorem shmget_found {create : Bool} (h : s.shm.find key = some e) :
    s.shmget A key size create =
      if create then (((-1 : Int), Errno.EEXIST), s)
      else if e.val.size < size then (((-1 : Int), Errno.EINVAL), s)
      else (((e.id : Int), Errno.EEXIST), s) := by
  unfold Host.shmget
  rw [h]

/-- Under a key that is not in use. -/
theorem shmget_new (h : s.shm.find key = none) (hc : Creatable A size) : ∃ (id : Nat) (s' : Host),
    s.shmget A key size true = (((id : Int), .EEXIST), s') ∧ MadeShm key size s id s' := by
  have hsize : ¬(size = 0 ∨ A.shmmax < size) := by
    have := hc.1
    have := hc.2
    omega
  obtain ⟨id, shm, hcreate⟩ :=
    KeyTable.create_of_find (A.alloc.avoiding s.gone) (Region.new size) h
  obtain ⟨-, hid, hmem⟩ := KeyTable.of_create hcreate
  refine ⟨id, { s with shm }, ?_, ?_⟩
  · unfold Host.shmget
    simp only [h, Bool.true_eq_false, false_and, if_false, if_neg hsize, hcreate]
  · have hfresh : ∀ e ∈ s.shm, e.id ≠ id := by
      rintro e he rfl
      exact (A.alloc.avoiding s.gone).fresh (s.shm.entries.map Named.id)
        (hid ▸ List.mem_map_of_mem he)
    refine ⟨(hmem _).mpr (.inl rfl), hfresh, ?_, fun e he _ => (hmem e).mpr (.inr he), ?_, ?_, rfl,
      rfl, rfl, rfl⟩
    · rw [hid]
      exact A.alloc.avoiding_fresh s.gone _
    · intro e' he'
      refine ((hmem e').mp he').imp_right fun hold => .inl ⟨hold, ?_⟩
      exact (KeyTable.find_eq_none_iff.mp h).imp_right fun hne => hne e' hold
    · rintro i (hgone | ⟨e, he, hi⟩)
      · exact .inl hgone
      · exact .inr ⟨e, (hmem e).mpr (.inr he), hi⟩

theorem shmget_refused (h : s.shm.find key = none) (hc : ¬ Creatable A size) :
    s.shmget A key size true = ((-1, .EINVAL), s) := by
  have hsize : size = 0 ∨ A.shmmax < size := by
    unfold Creatable at hc
    omega
  unfold Host.shmget
  simp only [h, Bool.true_eq_false, false_and, if_false, if_pos hsize]

/-- Removing the segment that is found under a key frees the key. -/
theorem rmid_spec (h : s.shm.find key = some e) :
    (s.rmid e).shm.find key = none ∧ (∀ x ∈ s.shm, x.key ≠ key → x ∈ (s.rmid e).shm) ∧
      (∀ x ∈ (s.rmid e).shm, (x ∈ s.shm ∧ x.key ≠ key) ∨ x = retired e) ∧
      s.gone ⊆ (s.rmid e).gone ∧ (e.id ∈ (s.rmid e).gone ∨ retired e ∈ (s.rmid e).shm) ∧
      (s.rmid e).sem = s.sem ∧ (s.rmid e).attached = s.attached ∧
      (s.rmid e).next_addr = s.next_addr ∧ (s.rmid e).wild = s.wild := by
  obtain ⟨h0, he, hkey⟩ := KeyTable.find_eq_some_iff.mp h
  -- no other segment has the key, and no other the id
  have hother : ∀ x ∈ s.shm, x.id ≠ e.id → x.key ≠ key := fun x hx hid hxkey =>
    hid (congrArg Named.id (KeyTable.eq_of_key hx he (hxkey.trans hkey.symm) (hxkey ▸ h0)))
  have hid : ∀ x ∈ s.shm, x.key ≠ key → x.id ≠ e.id := fun x hx hxkey hid =>
    hxkey ((congrArg Named.key (KeyTable.eq_of_id hx he hid)).trans hkey)
  unfold Host.rmid
  split
  · have hrest : ∀ x ∈ s.shm.remove e.id, x ∈ s.shm ∧ x.key ≠ key := by
      intro x hx
      obtain ⟨hx, hxid⟩ := KeyTable.mem_remove.mp hx
      exact ⟨hx, hother x hx hxid⟩
    refine ⟨KeyTable.find_eq_none_iff.mpr (.inr fun x hx => (hrest x hx).2), fun x hx hxkey => ?_,
      fun x hx => .inl (hrest x hx), List.subset_cons_self .., .inl (List.mem_cons_self ..), rfl,
      rfl, rfl, rfl⟩
    exact KeyTable.mem_remove.mpr ⟨hx, hid x hx hxkey⟩
  · have hrest : ∀ x ∈ (s.shm.unkey e.id).modify e.id fun r => { r with dest := true },
        (x ∈ s.shm ∧ x.key ≠ key) ∨ x = retired e := by
      intro x hx
      obtain ⟨y, hy, rfl⟩ := KeyTable.mem_modify.mp hx
      obtain ⟨z, hz, rfl⟩ := KeyTable.mem_unkey.mp hy
      by_cases hzid : z.id = e.id
      · obtain rfl := KeyTable.eq_of_id hz he hzid
        right
        simp only [if_true]
        rfl
      · left
        simp only [if_neg hzid]
        exact ⟨hz, hother z hz hzid⟩
    refine ⟨KeyTable.find_eq_none_iff.mpr (.inr fun x hx => ?_), fun x hx hxkey => ?_, hrest,
      List.Subset.refl _, .inr ?_, rfl, rfl, rfl, rfl⟩
    · rcases hrest x hx with ⟨-, hxkey⟩ | rfl
      · exact hxkey
      · exact Ne.symm h0
    · have hxid := hid x hx hxkey
      refine (KeyTable.mem_modify_of_ne hxid).mpr (KeyTable.mem_unkey.mpr ⟨x, hx, ?_⟩)
      rw [if_neg hxid]
    · refine KeyTable.mem_modify.mpr ⟨⟨e.id, 0, e.val⟩, KeyTable.mem_unkey.mpr ⟨e, he, ?_⟩, ?_⟩
      · rw [if_pos rfl]
      · rw [if_pos rfl]
        rfl

/-- So a new one can be created under it. -/
theorem MadeShm.of_rmid (h : s.shm.find key = some e) (hm : MadeShm key size (s.rmid e) id s') :
    MadeShm key size s id s' := by
  obtain ⟨h0, he, hkey⟩ := KeyTable.find_eq_some_iff.mp h
  obtain ⟨hnone, hkept, honly, hgone, hold, hsem, hattached, hnext, hwild⟩ := rmid_spec h
  have hknown : ∀ i, (i ∈ s.gone ∨ ∃ e ∈ s.shm, e.id = i) →
      i ∈ (s.rmid e).gone ∨ ∃ x ∈ (s.rmid e).shm, x.id = i := by
    rintro i (hi | ⟨x, hx, rfl⟩)
    · exact .inl (hgone hi)
    · by_cases hxkey : x.key = key
      · obtain rfl := KeyTable.eq_of_key hx he (hxkey.trans hkey.symm) (hxkey ▸ h0)
        exact hold.imp_right fun hret => ⟨retired x, hret, rfl⟩
      · exact .inr ⟨x, hkept x hx hxkey, rfl⟩
  refine ⟨hm.new, fun x hx hid => ?_, fun hid => hm.unused (hgone hid), ?_, ?_, ?_,
    hm.sem.trans hsem, hm.attached.trans hattached, hm.next_addr.trans hnext, hm.wild.trans hwild⟩
  · rcases hknown x.id (.inr ⟨x, hx, rfl⟩) with hx | ⟨y, hy, hyid⟩
    · exact hm.unused (hid ▸ hx)
    · exact hm.fresh y hy (hyid.trans hid)
  · intro x hx hor
    have hxkey := hor.resolve_left h0
    exact hm.kept x (hkept x hx hxkey) (.inr hxkey)
  · intro x hx
    refine (hm.only x hx).imp_right ?_
    rintro (⟨hx, -⟩ | ⟨y, hy, -⟩)
    · rcases honly x hx with ⟨hx, hxkey⟩ | rfl
      · exact .inl ⟨hx, .inr hxkey⟩
      · exact .inr ⟨e, h, rfl⟩
    · rw [hnone] at hy
      cases hy
  · exact fun i hi => hm.known i (hknown i hi)

/-- How many calls it takes: one, or four where there is a left-over. -/
def callsFor {α : Type} (left : Option α) : Nat := if left.isSome then 4 else 1

theorem callsFor_none {α : Type} : callsFor (none : Option α) = 1 := rfl

theorem callsFor_some {α : Type} {a : α} : callsFor (some a) = 4 := rfl

theorem forall_callsFor_none {α : Type} :
    (∀ i < callsFor (none : Option α), fails (n + i) = false) ↔ fails n = false := by
  rw [callsFor_none]
  constructor
  · exact fun h => h 0 Nat.one_pos
  · intro h i hi
    obtain rfl : i = 0 := Nat.lt_one_iff.mp hi
    exact h

theorem forall_callsFor_some {α : Type} {a : α} :
    (∀ i < callsFor (some a), fails (n + i) = false) ↔ fails n = false ∧ fails (n + 1) = false ∧
      fails (n + 1 + 1) = false ∧ fails (n + 1 + 1 + 1) = false := by
  rw [callsFor_some]
  constructor
  · exact fun h => ⟨h 0 (by decide), h 1 (by decide), h 2 (by decide), h 3 (by decide)⟩
  · rintro ⟨h0, h1, h2, h3⟩ i hi
    match i, hi with
    | 0, _ => exact h0
    | 1, _ => exact h1
    | 2, _ => exact h2
    | 3, _ => exact h3

/-- **A new segment**, if the size is possible and none of the calls fails. -/
theorem run_createShm_made (fails : Nat → Bool) (s : Host) (key n : Nat) (hc : Creatable A size)
    (hf : ∀ i < callsFor (s.shm.find key), fails (n + i) = false) : ∃ (id : Nat) (s' : Host),
    (createShm key size).run (Host.failing A fails) (s, n) =
      ((id : Int), (s', n + callsFor (s.shm.find key))) ∧ MadeShm key size s id s' := by
  unfold createShm
  cases hfind : s.shm.find key with
  | none =>
    rw [hfind] at hf
    have h0 : fails n = false := forall_callsFor_none.mp hf
    obtain ⟨id, s', hget, hmade⟩ := shmget_new hfind hc
    refine ⟨id, s', ?_, hmade⟩
    have hid : ¬ (id : Int) < 0 := Int.not_lt.mpr (Int.natCast_nonneg id)
    simp only [Prog.run_call, Prog.faulty, failure, h0, Bool.false_eq_true, if_false, Host.sysv,
      hget, hid, false_and, Prog.run_ret]
    rfl
  | some e =>
    rw [hfind] at hf
    obtain ⟨h0, h1, h2, h3⟩ := forall_callsFor_some.mp hf
    obtain ⟨id, s', hget, hmade⟩ := shmget_new (rmid_spec hfind).1 hc
    refine ⟨id, s', ?_, hmade.of_rmid hfind⟩
    have hneg : (-1 : Int) < 0 := by decide
    have hseg := seg_of_find hfind
    simp only [Prog.run_call, Prog.faulty, failure, h0, h1, h2, h3, Bool.false_eq_true, if_false,
      if_true, Host.sysv, shmget_found hfind, hneg, true_and, Nat.not_lt_zero, hseg, hget,
      Prog.run_ret]
    rfl

/-- Else there is none: the result is -1. -/
theorem run_createShm_refused
    (h : ¬(Creatable A size ∧ ∀ i < callsFor (s.shm.find key), fails (n + i) = false)) :
    ((createShm key size).run (Host.failing A fails) (s, n)).1 = -1 := by
  unfold createShm
  have hneg : (-1 : Int) < 0 := by decide
  have hneg' : ¬ (0 : Int) ≤ -1 := by decide
  cases h0 : fails n with
  | true =>
    simp only [Prog.run_call, Prog.faulty, failure, h0, if_true, reduceCtorEq, and_false, if_false,
      Prog.run_ret]
  | false =>
    cases hfind : s.shm.find key with
    | none =>
      rw [hfind] at h
      have hc : ¬ Creatable A size := fun hc => h ⟨hc, forall_callsFor_none.mpr h0⟩
      simp only [Prog.run_call, Prog.faulty, failure, h0, Bool.false_eq_true, if_false, Host.sysv,
        shmget_refused hfind hc, reduceCtorEq, and_false, Prog.run_ret]
    | some e =>
      have hseg := seg_of_find hfind
      have hnone : s.seg (-1) = none := if_neg hneg'
      rw [hfind] at h
      -- the second creation is refused unless the left-over has been found and removed
      cases h3 : fails (n + 1 + 1 + 1) with
      | true =>
        cases h1 : fails (n + 1) <;> cases h2 : fails (n + 1 + 1) <;>
          simp only [Prog.run_call, Prog.faulty, failure, h0, h1, h2, h3, Bool.false_eq_true,
            if_false, if_true, Host.sysv, shmget_found hfind, hneg, true_and, Nat.not_lt_zero, hseg,
            hnone, Prog.run_ret]
      | false =>
        cases h1 : fails (n + 1) with
        | true =>
          cases h2 : fails (n + 1 + 1) <;>
            simp only [Prog.run_call, Prog.faulty, failure, h0, h1, h2, h3, Bool.false_eq_true,
              if_false, if_true, Host.sysv, shmget_found hfind, hneg, true_and, hnone, Prog.run_ret]
        | false =>
          cases h2 : fails (n + 1 + 1) with
          | true =>
            simp only [Prog.run_call, Prog.faulty, failure, h0, h1, h2, h3, Bool.false_eq_true,
              if_false, if_true, Host.sysv, shmget_found hfind, hneg, true_and, Nat.not_lt_zero,
              Prog.run_ret]
          | false =>
            have hc : ¬ Creatable A size := fun hc =>
              h ⟨hc, forall_callsFor_some.mpr ⟨h0, h1, h2, h3⟩⟩
            simp only [Prog.run_call, Prog.faulty, failure, h0, h1, h2, h3, Bool.false_eq_true,
              if_false, if_true, Host.sysv, shmget_found hfind, hneg, true_and, Nat.not_lt_zero,
              hseg, shmget_refused (rmid_spec hfind).1 hc, Prog.run_ret]

/-! ## A semaphore -/

theorem semget_new (h : s.sem.find key = none) : ∃ (id : Nat) (sem : KeyTable Nat),
    s.semget A key true = (((id : Int), .EEXIST), { s with sem }) ∧
      s.sem.Replaced ⟨id, key, 0⟩ sem := by
  obtain ⟨id, sem, hcreate, hreplaced⟩ := KeyTable.replaced_of_create A.alloc 0 h
  refine ⟨id, sem, ?_, hreplaced⟩
  unfold Host.semget
  simp only [h, Bool.true_eq_false, false_and, if_false, hcreate]

theorem semget_found {p : Named Nat} {create : Bool} (h : s.sem.find key = some p) :
    s.semget A key create =
      if create then (((-1 : Int), Errno.EEXIST), s) else (((p.id : Int), Errno.EEXIST), s) := by
  unfold Host.semget
  rw [h]

/-- The semaphore that is found under a key has been removed. -/
theorem semget_again {p : Named Nat} (h : s.sem.find key = some p) :
    ∃ (id : Nat) (sem : KeyTable Nat),
      Host.semget A { s with sem := s.sem.remove p.id } key true =
        (((id : Int), .EEXIST), { s with sem }) ∧ s.sem.Replaced ⟨id, key, 0⟩ sem := by
  obtain ⟨hnone, id, sem, hcreate, hreplaced⟩ := KeyTable.replaced_of_remove A.alloc 0 h
  refine ⟨id, sem, ?_, hreplaced⟩
  have hfind := (KeyTable.of_create hcreate).1
  unfold Host.semget
  simp only [hfind, Bool.true_eq_false, false_and, if_false, hcreate]

/-- **A new semaphore** with the value 0, if none of the calls fails. -/
theorem run_createSem_made (A : Setup) (fails : Nat → Bool) (s : Host) (key n : Nat)
    (hf : ∀ i < callsFor (s.sem.find key), fails (n + i) = false) :
    ∃ (id : Nat) (sem : KeyTable Nat),
      (createSem key).run (Host.failing A fails) (s, n) =
        ((id : Int), ({ s with sem }, n + callsFor (s.sem.find key))) ∧
      s.sem.Replaced ⟨id, key, 0⟩ sem := by
  unfold createSem
  cases hfind : s.sem.find key with
  | none =>
    rw [hfind] at hf
    have h0 : fails n = false := forall_callsFor_none.mp hf
    obtain ⟨id, sem, hget, hmade⟩ := semget_new (A := A) hfind
    refine ⟨id, sem, ?_, hmade⟩
    have hid : ¬ (id : Int) < 0 := Int.not_lt.mpr (Int.natCast_nonneg id)
    simp only [Prog.run_call, Prog.faulty, failure, h0, Bool.false_eq_true, if_false, Host.sysv,
      hget, hid, false_and, Prog.run_ret]
    rfl
  | some p =>
    rw [hfind] at hf
    obtain ⟨h0, h1, h2, h3⟩ := forall_callsFor_some.mp hf
    obtain ⟨id, sem, hget, hmade⟩ := semget_again (A := A) hfind
    refine ⟨id, sem, ?_, hmade⟩
    have hneg : (-1 : Int) < 0 := by decide
    simp only [Prog.run_call, Prog.faulty, failure, h0, h1, h2, h3, Bool.false_eq_true, if_false,
      if_true, Host.sysv, semget_found hfind, hneg, true_and, semaphore_of_find hfind, hget,
      Prog.run_ret]
    rfl

/-- Else there is none. -/
theorem run_createSem_refused (A : Setup)
    (h : ¬∀ i < callsFor (s.sem.find key), fails (n + i) = false) :
    ((createSem key).run (Host.failing A fails) (s, n)).1 = -1 := by
  unfold createSem
  have hneg : (-1 : Int) < 0 := by decide
  have hnone : s.semaphore (-1) = none := if_neg (by decide)
  cases h0 : fails n with
  | true =>
    simp only [Prog.run_call, Prog.faulty, failure, h0, if_true, reduceCtorEq, and_false, if_false,
      Prog.run_ret]
  | false =>
    cases hfind : s.sem.find key with
    | none =>
      rw [hfind] at h
      exact absurd (forall_callsFor_none.mpr h0) h
    | some p =>
      rw [hfind] at h
      -- without the removal, the second creation is refused like the first
      have hrefused : fails (n + 1) = true ∨ fails (n + 1 + 1) = true ∨
          fails (n + 1 + 1 + 1) = true := by
        by_contra hnot
        simp only [not_or, Bool.not_eq_true] at hnot
        exact h (forall_callsFor_some.mpr ⟨h0, hnot⟩)
      cases h1 : fails (n + 1) <;> cases h2 : fails (n + 1 + 1) <;>
        cases h3 : fails (n + 1 + 1 + 1) <;>
        simp only [Prog.run_call, Prog.faulty, failure, h0, h1, h2, h3, Bool.false_eq_true,
          if_false, if_true, Host.sysv, semget_found hfind, hneg, true_and, hnone,
          semaphore_of_find hfind, Prog.run_ret]
      simp [h1, h2, h3] at hrefused

/-! ## The rest of `CreateSharedFrame` -/

/-- What is done when there are two ids, whatever they are. -/
def finish (g : Globals) (shm_id sem_id : Int) : Prog SysV (Globals × Int × IpcIds) :=
  .call (.semSetval sem_id 0) fun (_ : Int) =>
  .call (.semGetval sem_id) fun (_ : Int) =>
  .call (.shmat shm_id) fun (addr : Int) =>
  .call (.store addr 0) fun (_ : Unit) =>
  .call (.shmdt addr) fun (_ : Int) =>
  .call (.realloc g.g_addr (g.g_flag + 1)) fun (g_addr : Int) =>
  .call (.memset g_addr (g.g_flag + 1)) fun (_ : Unit) =>
  .ret (⟨g.g_flag + 1, g_addr, List.replicate (g.g_flag + 1) 0⟩, 0, ⟨shm_id, sem_id⟩)

theorem createSharedFrame_eq (g : Globals) (size : Nat) : CreateSharedFrame g size =
    .call (.ftok ('s'.toNat + g.g_flag)) fun (key : Nat) =>
    (createShm key size).bind fun shm_id =>
    .call (.ftok ('a'.toNat + g.g_flag)) fun (key : Nat) =>
    (createSem key).bind fun sem_id => finish g shm_id sem_id :=
  rfl

/-- It returns 0, and the ids. -/
theorem returns_finish (g : Globals) (shm_id sem_id : Int) : (finish g shm_id sem_id).Returns
    fun r => r.1.g_flag = g.g_flag + 1 ∧ r.2 = (0, ⟨shm_id, sem_id⟩) :=
  fun _ _ _ _ _ _ _ => ⟨rfl, rfl⟩

/-- An access that went wrong is not forgotten. -/
theorem wild_sysv (c : CreateCall) (h : s.wild = true) : (Host.sysv A c s).2.wild = true := by
  cases c with
  | shmget key size create =>
    simp only [Host.sysv, Host.shmget]
    split
    · split
      · exact h
      · split <;> exact h
    · split
      · exact h
      · split
        · exact h
        · split <;> exact h
  | semget key create =>
    simp only [Host.sysv, Host.semget]
    split
    · split <;> exact h
    · split
      · exact h
      · split <;> exact h
  | shmRmid id =>
    simp only [Host.sysv, Host.rmid]
    split
    · split <;> exact h
    · exact h
  | shmdt addr =>
    simp only [Host.sysv, Host.detach]
    split
    · split
      · split <;> exact h
      · exact h
    · exact h
  | ftok | realloc => exact h
  | semRmid id | semSetval id val | semGetval id | shmat id =>
    simp only [Host.sysv]
    split <;> exact h
  | store addr val =>
    simp only [Host.sysv]
    split
    · exact h
    · rfl
  | memset p count =>
    simp only [Host.sysv]
    split
    · rfl
    · exact h

theorem wild_failing (c : CreateCall) (x : Host × Nat) (h : x.1.wild = true) :
    (Host.failing A fails c x).2.1.wild = true := by
  unfold Host.failing Prog.faulty
  split
  · exact wild_sysv c h
  · split
    · exact h
    · exact wild_sysv c h

section

variable {c : CreateCall}

theorem failing_sure (h : failure c = none) : Host.failing A fails c (s, n) =
    ((Host.sysv A c s).1, (Host.sysv A c s).2, n) :=
  Prog.faulty_sure (S := SysV) h

theorem failing_works {a : c.Ans} (h : failure c = some a) (hf : fails n = false) :
    Host.failing A fails c (s, n) = ((Host.sysv A c s).1, (Host.sysv A c s).2, n + 1) :=
  Prog.faulty_works (S := SysV) h hf

theorem failing_fails {a : c.Ans} (h : failure c = some a) (hf : fails n = true) :
    Host.failing A fails c (s, n) = (a, s, n + 1) :=
  Prog.faulty_fails (S := SysV) h hf

end

/-- `SETVAL` changes no more than a value. -/
theorem failing_setval (A : Setup) (fails : Nat → Bool) (s : Host) (n : Nat) (id : Int)
    (val : Nat) : ∃ (r : Int) (sem : KeyTable Nat),
      Host.failing A fails (.semSetval id val) (s, n) = (r, { s with sem }, n + 1) ∧
      (sem = s.sem ∨ ∃ p, s.semaphore id = some p ∧ sem = s.sem.modify p.id fun _ => val) := by
  cases hf : fails n with
  | true => exact ⟨_, s.sem, failing_fails rfl hf, .inl rfl⟩
  | false =>
    rw [failing_works (c := .semSetval id val) rfl hf]
    simp only [Host.sysv]
    cases hsem : s.semaphore id with
    | none => exact ⟨_, s.sem, rfl, .inl rfl⟩
    | some p => exact ⟨_, _, rfl, .inr ⟨p, rfl, rfl⟩⟩

theorem failing_getval (A : Setup) (fails : Nat → Bool) (s : Host) (n : Nat) (id : Int) :
    ∃ r : Int, Host.failing A fails (.semGetval id) (s, n) = (r, s, n + 1) := by
  cases hf : fails n with
  | true => exact ⟨_, failing_fails rfl hf⟩
  | false =>
    rw [failing_works (c := .semGetval id) rfl hf]
    simp only [Host.sysv]
    cases s.semaphore id with
    | none => exact ⟨_, rfl⟩
    | some p => exact ⟨_, rfl⟩

/-- Without a segment attached, or without memory for `g_addr`, there is an access that goes
wrong. -/
theorem wild_finish (g : Globals) (shm_id sem_id : Int)
    (h : s.seg shm_id = none ∨ fails (n + 2) = true ∨ fails (n + 3) = true) :
    ((finish g shm_id sem_id).run (Host.failing A fails) (s, n)).2.1.wild = true := by
  obtain ⟨r₁, sem, hset, -⟩ := failing_setval A fails s n sem_id 0
  obtain ⟨r₂, hget⟩ := failing_getval A fails { s with sem } (n + 1) sem_id
  simp only [finish, Prog.run_call, Prog.run_ret, hset, hget]
  by_cases hno : s.seg shm_id = none ∨ fails (n + 2) = true
  · -- there is no address to store at
    have haddr : Host.failing A fails (.shmat shm_id) ({ s with sem }, n + 1 + 1) =
        ((-1 : Int), { s with sem }, n + 3) := by
      cases hf : fails (n + 2) with
      | true => exact failing_fails rfl hf
      | false =>
        have hseg : Host.seg { s with sem } shm_id = none := by
          rcases hno with hno | hno
          · exact hno
          · rw [hf] at hno
            cases hno
        rw [failing_works (c := .shmat shm_id) rfl hf]
        simp only [Host.sysv, hseg]
    rw [haddr]
    refine wild_failing _ _ (wild_failing _ _ (wild_failing _ _ ?_))
    rw [failing_sure rfl]
    simp only [Host.sysv, attachment_neg]
  · obtain ⟨hseg, hshmat⟩ := not_or.mp hno
    have hrealloc : fails (n + 3) = true := (h.resolve_left hseg).resolve_left hshmat
    rw [Bool.not_eq_true] at hshmat
    rw [failing_works (c := .shmat shm_id) rfl hshmat, failing_sure (c := .store _ 0) rfl,
      failing_sure (c := .shmdt _) rfl,
      failing_fails (c := .realloc g.g_addr (g.g_flag + 1)) rfl hrealloc,
      failing_sure (c := .memset 0 _) rfl]
    rfl

/-- Attached, its first word cleared, detached. -/
theorem detach_cleared (he : e ∈ s.shm) (hdest : e.val.dest = false) :
    ((s.attach e.id).modify e.id (putWord 0)).detach (s.next_addr + 1, e.id) = { s with
      shm := s.shm.modify e.id fun r => { r with bytes := putWord 0 r.bytes }
      attached := s.attached.filter fun b => b.1 ≠ s.next_addr + 1
      next_addr := s.next_addr + 1 } := by
  have hmodified : (s.shm.modify e.id fun r => { r with bytes := putWord 0 r.bytes }).get e.id =
      some { e with val := { e.val with bytes := putWord 0 e.val.bytes } } :=
    KeyTable.get_eq_some_iff.mpr ⟨KeyTable.mem_modify_self he, rfl⟩
  have hfilter : ((s.next_addr + 1, e.id) :: s.attached).filter (fun b => b.1 ≠ s.next_addr + 1) =
      s.attached.filter fun b => b.1 ≠ s.next_addr + 1 :=
    List.filter_cons_of_neg (by simp)
  simp only [Host.detach, Host.modify, Host.attach, hmodified, hdest, hfilter, Bool.false_eq_true,
    false_and, if_false]

/-- **With a segment and a semaphore**, and if nothing fails here whose result matters. -/
theorem run_finish (fails : Nat → Bool) {g : Globals} {p : Named Nat} (he : e ∈ s.shm)
    (hdest : e.val.dest = false) (hshmat : fails (n + 2) = false)
    (hrealloc : fails (n + 3) = false) :
    ∃ (s' : Host) (n' : Nat),
      ((finish g e.id p.id).run (Host.failing A fails) (s, n)).2 = (s', n') ∧
      s'.shm = s.shm.modify e.id (fun r => { r with bytes := putWord 0 r.bytes }) ∧
      (s'.sem = s.sem ∨ s'.sem = s.sem.modify p.id fun _ => 0) ∧
      s'.attached = (s.attached.filter fun b => b.1 ≠ s.next_addr + 1) ∧
      s.next_addr ≤ s'.next_addr ∧ s'.gone = s.gone ∧ s'.wild = s.wild := by
  obtain ⟨r₁, sem, hset, hsem⟩ := failing_setval A fails s n p.id 0
  obtain ⟨r₂, hget⟩ := failing_getval A fails { s with sem } (n + 1) p.id
  -- from here on only the segment, its attachments and the addresses change
  generalize hs₁ : ({ s with sem } : Host) = s₁ at hset hget
  have he₁ : e ∈ s₁.shm := hs₁ ▸ he
  have hseg : s₁.seg e.id = some e := seg_eq_some_iff.mpr ⟨he₁, rfl⟩
  have hat : ∀ t : Host, t.attached = (s₁.attach e.id).attached →
      t.attachment (s₁.next_addr + 1 : Int) = some (s₁.next_addr + 1, e.id) := by
    intro t ht
    rw [← attachment_attach]
    unfold Host.attachment
    rw [ht]
  have hshmat' : Host.failing A fails (.shmat e.id) (s₁, n + 1 + 1) =
      ((s₁.next_addr + 1 : Int), s₁.attach e.id, n + 3) := by
    rw [failing_works (c := .shmat e.id) rfl hshmat]
    simp only [Host.sysv, hseg]
  have hstore : Host.failing A fails (.store (s₁.next_addr + 1) 0) (s₁.attach e.id, n + 3) =
      ((), (s₁.attach e.id).modify e.id (putWord 0), n + 3) := by
    rw [failing_sure rfl]
    simp only [Host.sysv, hat (s₁.attach e.id) rfl]
  have hshmdt : Host.failing A fails (.shmdt (s₁.next_addr + 1))
      ((s₁.attach e.id).modify e.id (putWord 0), n + 3) =
      ((0 : Int), ((s₁.attach e.id).modify e.id (putWord 0)).detach (s₁.next_addr + 1, e.id),
        n + 3) := by
    rw [failing_sure (c := .shmdt _) rfl]
    simp only [Host.sysv, hat ((s₁.attach e.id).modify e.id (putWord 0)) rfl]
  rw [detach_cleared he₁ hdest] at hshmdt
  have hmemory : ∀ t : Host, Host.failing A fails (.realloc g.g_addr (g.g_flag + 1)) (t, n + 3) =
      ((t.next_addr + 1 : Int), { t with next_addr := t.next_addr + 1 }, n + 4) := by
    intro t
    rw [failing_works (c := .realloc g.g_addr (g.g_flag + 1)) rfl hrealloc]
    rfl
  have hmemset : ∀ (t : Host) (addr : Nat),
      Host.failing A fails (.memset (addr + 1) (g.g_flag + 1)) (t, n + 4) = ((), t, n + 4) := by
    intro t addr
    have hpos : ¬ (addr + 1 : Int) = 0 := by omega
    rw [failing_sure rfl]
    simp only [Host.sysv, if_neg hpos]
  refine ⟨{ s₁ with
    shm := s₁.shm.modify e.id fun r => { r with bytes := putWord 0 r.bytes }
    attached := s₁.attached.filter fun b => b.1 ≠ s₁.next_addr + 1
    next_addr := s₁.next_addr + 1 + 1 }, n + 4, ?_, ?_⟩
  · rw [finish, Prog.run_call_of hset, Prog.run_call_of hget, Prog.run_call_of hshmat',
      Prog.run_call_of hstore, Prog.run_call_of hshmdt, Prog.run_call_of (hmemory _),
      Prog.run_call_of (hmemset _ _), Prog.run_ret]
  · subst hs₁
    refine ⟨rfl, ?_, rfl, Nat.le_add_right s.next_addr 2, rfl, rfl⟩
    refine hsem.imp_right ?_
    rintro ⟨q, hq, rfl⟩
    rw [Int.natCast_inj.mp (semaphore_eq_some_iff.mp hq).2]

/-! ## The whole function -/

/-- The keys of the channel that is created next. -/
def keyShm (A : Setup) (g : Globals) : Nat := ftok A.lib ('s'.toNat + g.g_flag)

def keySem (A : Setup) (g : Globals) : Nat := ftok A.lib ('a'.toNat + g.g_flag)

/-- How many calls it takes until both objects are there. -/
def callsBefore (A : Setup) (g : Globals) (s : Host) : Nat :=
  callsFor (s.shm.find (keyShm A g)) + callsFor (s.sem.find (keySem A g))

/-- The two halves, and the rest. -/
theorem run_halves (size : Nat) {g : Globals} {shm_id sem_id : Int} {s₁ : Host} {n₁ : Nat}
    {x : Host × Nat}
    (hshm : (createShm (keyShm A g) size).run (Host.failing A fails) (s, n) = (shm_id, s₁, n₁))
    (hsem : (createSem (keySem A g)).run (Host.failing A fails) (s₁, n₁) = (sem_id, x)) :
    (CreateSharedFrame g size).run (Host.failing A fails) (s, n) =
      (finish g shm_id sem_id).run (Host.failing A fails) x := by
  rw [createSharedFrame_eq, Prog.run_call_of (failing_sure (c := .ftok _) rfl), Prog.run_bind]
  show Prog.run _ _ ((createShm (keyShm A g) size).run (Host.failing A fails) (s, n)).2 = _
  rw [hshm, Prog.run_call_of (failing_sure (c := .ftok _) rfl), Prog.run_bind]
  show Prog.run _ (finish g ((createShm (keyShm A g) size).run (Host.failing A fails) (s, n)).1
    ((createSem (keySem A g)).run (Host.failing A fails) (s₁, n₁)).1)
    ((createSem (keySem A g)).run (Host.failing A fails) (s₁, n₁)).2 = _
  rw [hshm, hsem]

/-- It returns 0 in any case, with a table of addresses that is all `NULL`. -/
theorem returns_createSharedFrame (g : Globals) (size : Nat) :
    (CreateSharedFrame g size).Returns fun r => r.1.g_flag = g.g_flag + 1 ∧
      r.1.slots = List.replicate (g.g_flag + 1) 0 ∧ r.2.1 = 0 := by
  rw [createSharedFrame_eq]
  intro key
  refine .bind (Prog.returns_of_forall _ fun shm_id => ?_)
  intro key
  refine .bind (Prog.returns_of_forall _ fun sem_id => ?_)
  exact fun _ _ _ _ _ _ _ => ⟨rfl, rfl, rfl⟩

/-- What a run has done in which no call fails whose result matters. -/
structure MadeChannel (A : Setup) (g : Globals) (size : Nat) (s : Host) (ids : IpcIds)
    (s' : Host) : Prop where
  shm : ∃ id s₁, MadeShm (keyShm A g) size s id s₁ ∧ ids.shm_id = id ∧
    s'.shm = s₁.shm.modify id fun r => { r with bytes := putWord 0 r.bytes }
  sem : ∃ id, s.sem.Replaced ⟨id, keySem A g, 0⟩ s'.sem ∧ ids.sem_id = id
  attached : s'.attached = s.attached.filter fun b => b.1 ≠ s.next_addr + 1
  next_addr : s.next_addr ≤ s'.next_addr
  known : ∀ i, (i ∈ s.gone ∨ ∃ e ∈ s.shm, e.id = i) → i ∈ s'.gone ∨ ∃ e ∈ s'.shm, e.id = i
  wild : s'.wild = s.wild

section

variable {g : Globals} {ids : IpcIds}

theorem run_made (fails : Nat → Bool) (hc : Creatable A size)
    (hf : ∀ i < callsBefore A g s, fails i = false)
    (hshmat : fails (callsBefore A g s + 2) = false)
    (hrealloc : fails (callsBefore A g s + 3) = false) :
    ∃ (g' : Globals) (ids : IpcIds) (s' : Host) (n : Nat),
      (CreateSharedFrame g size).run (Host.failing A fails) (s, 0) = ((g', 0, ids), s', n) ∧
        g'.g_flag = g.g_flag + 1 ∧ MadeChannel A g size s ids s' := by
  have hle : callsFor (s.shm.find (keyShm A g)) ≤ callsBefore A g s := Nat.le_add_right ..
  obtain ⟨id, s₁, hshm, hmade⟩ := run_createShm_made fails s (keyShm A g) 0 hc
    fun i hi => by
      rw [Nat.zero_add]
      exact hf i (Nat.lt_of_lt_of_le hi hle)
  rw [Nat.zero_add] at hshm
  obtain ⟨p, sem, hsem, hreplaced⟩ := run_createSem_made A fails s₁ (keySem A g)
    (callsFor (s.shm.find (keyShm A g))) fun i hi => by
      rw [hmade.sem] at hi
      exact hf _ (Nat.add_lt_add_left hi _)
  rw [hmade.sem] at hsem hreplaced
  have hrun := run_halves size hshm hsem
  obtain ⟨s', n', hfinish, hshm', hsem', hattached, hnext, hgone, hwild⟩ := run_finish (A := A)
    fails (g := g) (s := { s₁ with sem }) (n := callsBefore A g s)
    (p := ⟨p, keySem A g, 0⟩) hmade.new rfl hshmat hrealloc
  dsimp only at hattached hnext hgone hwild
  rw [hmade.attached, hmade.next_addr] at hattached
  rw [hmade.next_addr] at hnext
  obtain ⟨hflag, hret⟩ := (returns_finish g id p).run (Host.failing A fails)
    ({ s₁ with sem }, callsBefore A g s)
  refine ⟨_, ⟨id, p⟩, s', n', hrun.trans (Prod.ext (Prod.ext rfl hret) hfinish), hflag, ?_⟩
  refine ⟨⟨id, s₁, hmade, rfl, hshm'⟩, ⟨p, ?_, rfl⟩, hattached, hnext, fun i hi => ?_,
    hwild.trans hmade.wild⟩
  · rcases hsem' with hsem' | hsem'
    · rw [hsem']
      exact hreplaced
    · rw [hsem']
      exact hreplaced.modify (f := fun _ => 0)
  · rw [hgone, hshm']
    refine (hmade.known i hi).imp_right ?_
    rintro ⟨e, he, hid⟩
    exact ⟨_, KeyTable.mem_modify.mpr ⟨e, he, rfl⟩, hid⟩

/-- The new segment. -/
theorem MadeChannel.segment (h : MadeChannel A g size s ids s') : ∃ e ∈ s'.shm,
    e.key = keyShm A g ∧ ids.shm_id = e.id ∧ (∀ x ∈ s.shm, x.id ≠ e.id) ∧ e.val.size = size ∧
      e.val.busy = 0 := by
  obtain ⟨id, s₁, hmade, hid, hshm⟩ := h.shm
  refine ⟨_, hshm ▸ KeyTable.mem_modify_self hmade.new, rfl, hid, hmade.fresh, rfl, ?_⟩
  exact word_putWord_zero _

/-- The new semaphore. -/
theorem MadeChannel.semaphore (h : MadeChannel A g size s ids s') :
    ∃ p ∈ s'.sem, p.key = keySem A g ∧ ids.sem_id = p.id ∧ p.val = 0 := by
  obtain ⟨id, hreplaced, hid⟩ := h.sem
  exact ⟨_, hreplaced.mem, rfl, hid, rfl⟩

/-- Segments under other keys are as before. -/
theorem MadeChannel.shm_kept (h : MadeChannel A g size s ids s') (he : e ∈ s.shm)
    (hkey : e.key ≠ keyShm A g) : e ∈ s'.shm := by
  obtain ⟨id, s₁, hmade, -, hshm⟩ := h.shm
  rw [hshm]
  exact (KeyTable.mem_modify_of_ne (hmade.fresh e he)).mpr (hmade.kept e he (.inr hkey))

/-- And there are no other new ones. -/
theorem MadeChannel.shm_only (h : MadeChannel A g size s ids s') (he : e ∈ s'.shm)
    (hkey : e.key ≠ keyShm A g) :
    e ∈ s.shm ∨ ∃ x, s.shm.find (keyShm A g) = some x ∧ e = retired x := by
  obtain ⟨id, s₁, hmade, -, hshm⟩ := h.shm
  rw [hshm] at he
  obtain ⟨x, hx, rfl⟩ := KeyTable.mem_modify.mp he
  rcases hmade.only x hx with rfl | ⟨hx, -⟩ | ⟨y, hfind, rfl⟩
  · exact absurd rfl hkey
  · rw [if_neg (hmade.fresh x hx)]
    exact .inl hx
  · have hid : (retired y).id ≠ id := hmade.fresh y (KeyTable.find_eq_some_iff.mp hfind).2.1
    rw [if_neg hid]
    exact .inr ⟨y, hfind, rfl⟩

end

/-! ## All or nothing -/

/-- It has succeeded. -/
structure Created (g : Globals) (r : Globals × Int × IpcIds) (s' : Host) : Prop where
  ret : r.2.1 = 0
  g_flag : r.1.g_flag = g.g_flag + 1
  shm : ∃ e ∈ s'.shm, r.2.2.shm_id = e.id ∧ e.val.busy = 0
  sem : ∃ p ∈ s'.sem, r.2.2.sem_id = p.id ∧ p.val = 0
  wild : s'.wild = false

/-- It has failed, and says so. -/
structure Untouched (g : Globals) (ids : IpcIds) (r : Globals × Int × IpcIds) (s' : Host) :
    Prop where
  ret : r.2.1 ≠ 0
  g_flag : r.1.g_flag = g.g_flag
  slots : r.1.slots = g.slots
  ids : r.2.2 = ids
  wild : s'.wild = false

/-- One of the two, after a run. -/
def AllOrNothing (g : Globals) (ids : IpcIds) (out : (Globals × Int × IpcIds) × Host × Nat) :
    Prop :=
  Created g out.1 out.2.1 ∨ Untouched g ids out.1 out.2.1

/-- No call fails whose result matters. -/
structure Undisturbed (A : Setup) (fails : Nat → Bool) (g : Globals) (size : Nat) (s : Host) :
    Prop where
  creatable : Creatable A size
  objects : ∀ i < callsBefore A g s, fails i = false
  shmat : fails (callsBefore A g s + 2) = false
  realloc : fails (callsBefore A g s + 3) = false

/-- Without an object, or without an address to go on with, the rest of the function does not do
what it says. -/
theorem Undisturbed.of_created {g : Globals}
    (h : Created g ((CreateSharedFrame g size).run (Host.failing A fails) (s, 0)).1
      ((CreateSharedFrame g size).run (Host.failing A fails) (s, 0)).2.1) :
    Undisturbed A fails g size s := by
  have hneg : ∀ t : Host, t.seg (-1) = none := fun t => if_neg (by decide)
  -- a segment
  have hshm : Creatable A size ∧
      ∀ i < callsFor (s.shm.find (keyShm A g)), fails (0 + i) = false := by
    by_contra hno
    have hret := run_createShm_refused (A := A) (n := 0) hno
    have hrun := run_halves size (g := g) (Prod.ext hret rfl) rfl
    have hwild := h.wild
    rw [hrun, wild_finish _ _ _ (.inl (hneg _))] at hwild
    cases hwild
  obtain ⟨hc, hfirst⟩ := hshm
  obtain ⟨id, s₁, hrunShm, hmade⟩ := run_createShm_made fails s (keyShm A g) 0 hc hfirst
  rw [Nat.zero_add] at hrunShm
  -- a semaphore
  have hsem : ∀ i < callsFor (s₁.sem.find (keySem A g)),
      fails (callsFor (s.shm.find (keyShm A g)) + i) = false := by
    by_contra hno
    have hret := run_createSem_refused A hno
    have hrun := run_halves size hrunShm (Prod.ext hret rfl)
    obtain ⟨p, -, hid, -⟩ := h.sem
    have hids := congrArg (fun ids => ids.2.sem_id) ((returns_finish g id (-1)).run
      (Host.failing A fails) ((createSem (keySem A g)).run (Host.failing A fails)
        (s₁, callsFor (s.shm.find (keyShm A g)))).2).2
    rw [hrun] at hid
    have hp : (p.id : Int) = -1 := hid.symm.trans hids
    omega
  obtain ⟨p, sem, hrunSem, -⟩ := run_createSem_made A fails s₁ (keySem A g) _ hsem
  have hrun := run_halves size hrunShm hrunSem
  rw [hmade.sem] at hsem hrun
  have hwild := h.wild
  rw [hrun] at hwild
  have hrest : ¬(fails (callsBefore A g s + 2) = true ∨ fails (callsBefore A g s + 3) = true) := by
    intro hno
    have hw := wild_finish (A := A) (s := { s₁ with sem }) (n := callsBefore A g s) g id p
      (.inr hno)
    rw [show callsFor _ + callsFor _ = callsBefore A g s from rfl, hw] at hwild
    cases hwild
  rw [not_or, Bool.not_eq_true, Bool.not_eq_true] at hrest
  refine ⟨hc, fun i hi => ?_, hrest.1, hrest.2⟩
  by_cases hlt : i < callsFor (s.shm.find (keyShm A g))
  · have := hfirst i hlt
    rwa [Nat.zero_add] at this
  · obtain ⟨j, rfl⟩ := Nat.exists_eq_add_of_le (Nat.le_of_not_lt hlt)
    exact hsem j (Nat.lt_of_add_lt_add_left hi)

theorem undisturbed_of_allOrNothing {g : Globals} {ids : IpcIds} {size : Nat}
    (h : AllOrNothing g ids ((CreateSharedFrame g size).run (Host.failing A fails) (s, 0))) :
    Undisturbed A fails g size s := by
  rcases h with h | h
  · exact .of_created h
  · have hret := (returns_createSharedFrame g size).run (Host.failing A fails) (s, 0)
    exact absurd hret.2.2 h.ret

/-- **All or nothing**, exactly if no call fails whose result matters: the function returns 0 in any
case, after a failed `shmat` or `realloc` through an address that is none. -/
theorem all_or_nothing_iff (A : Setup) (fails : Nat → Bool) (s : Host) (g : Globals) (ids : IpcIds)
    (size : Int) (hwild : s.wild = false) :
    AllOrNothing g ids ((CreateSharedFrame g (sizeT size)).run (Host.failing A fails) (s, 0)) ↔
      Undisturbed A fails g (sizeT size) s := by
  constructor
  · exact undisturbed_of_allOrNothing
  · rintro ⟨hc, hf, hshmat, hrealloc⟩
    obtain ⟨g', ids', s', n, hrun, hflag, hmade⟩ := run_made fails (s := s) hc hf hshmat hrealloc
    obtain ⟨e, he, -, hid, -, -, hbusy⟩ := hmade.segment
    obtain ⟨p, hp, -, hpid, hval⟩ := hmade.semaphore
    rw [hrun]
    exact .inl ⟨rfl, hflag, ⟨e, he, hid, hbusy⟩, ⟨p, hp, hpid, hval⟩, hmade.wild.trans hwild⟩

theorem all_or_nothing_iff_new : AllOrNothing .initial ⟨0, 0⟩
    ((CreateSharedFrame .initial (sizeT 4096)).run (Host.failing .usual fun _ => false)
      (.initial, 0)) :=
  (all_or_nothing_iff .usual (fun _ => false) .initial .initial ⟨0, 0⟩ 4096 rfl).mpr
    ⟨by decide, fun _ _ => rfl, rfl, rfl⟩

/-- The first `shmget` fails. -/
theorem full_disk_stores_nowhere :
    ¬ AllOrNothing .initial ⟨0, 0⟩ ((CreateSharedFrame .initial (sizeT 4096)).run
      (Host.failing .usual fun i => i = 0) (.initial, 0)) := by
  intro h
  have hone := undisturbed_of_allOrNothing h
  exact absurd (hone.objects 0 (by decide)) (by decide)

/-! ## Over left-overs -/

section

variable {g : Globals} {ids : IpcIds}

/-- `GetFrameStart` obtains the ids of what is under the two keys. -/
theorem run_found {f : Nat} {p : Named Nat} (he : s.shm.find (ftok A.lib ('s'.toNat + f)) = some e)
    (hp : s.sem.find (ftok A.lib ('a'.toNat + f)) = some p) :
    (GetFrameStart f).run (Host.sysv A) s = ((0, ⟨e.id, p.id⟩), s) := by
  have hshm : s.shmget A (ftok A.lib ('s'.toNat + f)) 0 false = (((e.id : Int), .EEXIST), s) :=
    shmget_found he
  have hsem : s.semget A (ftok A.lib ('a'.toNat + f)) false = (((p.id : Int), .EEXIST), s) :=
    semget_found hp
  have hnonneg : ¬ ((e.id : Int) < 0 ∨ (p.id : Int) < 0) := by omega
  simp only [GetFrameStart, Prog.run_call, Prog.run_ret, Host.sysv, hshm, hsem, if_neg hnonneg]

/-- Under the key `IPC_PRIVATE` it finds no segment: `shmget` tries to create one, of size 0. -/
theorem run_private {f : Nat} (hs : ftok A.lib ('s'.toNat + f) = 0) :
    ((GetFrameStart f).run (Host.sysv A) s).1.1 = -1 := by
  have hneg : (-1 : Int) < 0 := by decide
  have hfind : s.shm.find 0 = none := KeyTable.find_eq_none_iff.mpr (.inl rfl)
  have hshm : s.shmget A 0 0 false = ((-1, .EINVAL), s) := by
    simp only [Host.shmget, hfind, ne_eq, not_true_eq_false, and_false, if_false, true_or, if_true]
  simp only [GetFrameStart, Prog.run_call, Prog.run_ret, Host.sysv, hs, hshm, hneg, true_or,
    if_true]

/-- With a key `IPC_PRIVATE` it finds no segment, or makes another semaphore. -/
theorem run_lost {p : Named Nat} (hp : p ∈ s.sem) (hid : ids.sem_id = p.id)
    (h : keyShm A g = 0 ∨ keySem A g = 0) :
    ((GetFrameStart g.g_flag).run (Host.sysv A) s).1 ≠ (0, ids) := by
  rcases h with h | h
  · intro heq
    have hret := run_private (s := s) h
    rw [heq] at hret
    cases hret
  · -- whatever `shmget` has done, it has not changed the semaphores
    have hsame : (s.shmget A (ftok A.lib ('s'.toNat + g.g_flag)) 0 false).2.sem = s.sem := by
      unfold Host.shmget
      split
      · split
        · rfl
        · split <;> rfl
      · split
        · rfl
        · split
          · rfl
          · split <;> rfl
    unfold keySem at h
    simp only [GetFrameStart, Prog.run_call, Prog.run_ret, Host.sysv, h]
    generalize (s.shmget A (ftok A.lib ('s'.toNat + g.g_flag)) 0 false).1.1 = shm_id
    generalize (s.shmget A (ftok A.lib ('s'.toNat + g.g_flag)) 0 false).2 = t at hsame
    have hfind : t.sem.find 0 = none := KeyTable.find_eq_none_iff.mpr (.inl rfl)
    obtain ⟨q, sem, hcreate⟩ := KeyTable.create_of_find A.alloc 0 hfind
    have hq : p.id ≠ q := by
      obtain ⟨-, hq, -⟩ := KeyTable.of_create hcreate
      rintro rfl
      rw [← hsame] at hp
      exact A.alloc.fresh (t.sem.entries.map Named.id) (hq ▸ List.mem_map_of_mem hp)
    have hget : t.semget A 0 false = (((q : Int), .EEXIST), { t with sem }) := by
      simp only [Host.semget, hfind, hcreate, ne_eq, not_true_eq_false, and_false, if_false]
    rw [hget]
    intro heq
    have hids := congrArg (fun r => r.2.sem_id) heq
    exact hq (Int.natCast_inj.mp (hid.symm.trans hids.symm))

/-- The channel is there as if nothing had been left of an earlier run, and other objects have not
been touched. A left-over segment to which somebody is attached stays without a key. -/
structure Recovered (A : Setup) (g : Globals) (size : Nat) (s : Host)
    (r : Globals × Int × IpcIds) (s' : Host) : Prop where
  ret : r.2.1 = 0
  found : ((GetFrameStart g.g_flag).run (Host.sysv A) s').1 = (0, r.2.2)
  shm : ∃ e ∈ s'.shm, r.2.2.shm_id = e.id ∧ (∀ x ∈ s.shm, x.id ≠ e.id) ∧ size ≤ e.val.size ∧
    e.val.busy = 0
  sem : ∃ p ∈ s'.sem, r.2.2.sem_id = p.id ∧ p.val = 0
  shm_kept : ∀ e ∈ s.shm, e.key ≠ keyShm A g → e ∈ s'.shm
  shm_only : ∀ e ∈ s'.shm, e.key ≠ keyShm A g →
    e ∈ s.shm ∨ ∃ x, s.shm.find (keyShm A g) = some x ∧ e = retired x
  sem_others : ∀ p, p.key ≠ keySem A g → (p ∈ s'.sem ↔ p ∈ s.sem)

/-- What a run does against the kernel without failures. -/
theorem run_made_plain (s : Host) (g : Globals) (hc : Creatable A size) :
    ∃ (g' : Globals) (ids : IpcIds) (s' : Host),
      (CreateSharedFrame g size).run (Host.sysv A) s = ((g', 0, ids), s') ∧
        g'.g_flag = g.g_flag + 1 ∧ MadeChannel A g size s ids s' := by
  obtain ⟨g', ids, s', n, hrun, hflag, hmade⟩ := run_made (g := g) (s := s) (fun _ => false) hc
    (fun _ _ => rfl) rfl rfl
  obtain ⟨hret, hstate⟩ := Prog.run_faulty_none failure (Host.sysv A) (CreateSharedFrame g size) s 0
  rw [hrun] at hret hstate
  exact ⟨g', ids, s', Prod.ext hret.symm hstate.symm, hflag, hmade⟩

/-- With a key `IPC_PRIVATE` the channel cannot be found again. -/
theorem keys_of_recovered (hc : Creatable A size)
    (h : Recovered A g size s ((CreateSharedFrame g size).run (Host.sysv A) s).1
      ((CreateSharedFrame g size).run (Host.sysv A) s).2) :
    keyShm A g ≠ 0 ∧ keySem A g ≠ 0 := by
  obtain ⟨g', ids, s', hrun, -, hmade⟩ := run_made_plain s g hc
  rw [hrun] at h
  obtain ⟨p, hp, -, hid, -⟩ := hmade.semaphore
  rw [← not_or]
  exact fun hno => run_lost hp hid hno h.found

/-- **Left-overs do no harm**: for every size for which a segment can be created, and whatever is
under the two keys and elsewhere, the channel is there and a consumer finds it, if and only if
neither key is `IPC_PRIVATE`. -/
theorem recovers_iff (A : Setup) (s : Host) (g : Globals) (size : Int)
    (hc : Creatable A (sizeT size)) :
    Recovered A g (sizeT size) s ((CreateSharedFrame g (sizeT size)).run (Host.sysv A) s).1
      ((CreateSharedFrame g (sizeT size)).run (Host.sysv A) s).2 ↔
    ftok A.lib ('s'.toNat + g.g_flag) ≠ 0 ∧ ftok A.lib ('a'.toNat + g.g_flag) ≠ 0 := by
  constructor
  · exact keys_of_recovered hc
  · rintro ⟨hs, ha⟩
    obtain ⟨g', ids, s', hrun, -, hmade⟩ := run_made_plain s g hc
    obtain ⟨e, he, hekey, hid, hnew, hsize, hbusy⟩ := hmade.segment
    obtain ⟨p, hp, hpkey, hpid, hval⟩ := hmade.semaphore
    have hfound := run_found (KeyTable.find_eq_some_iff.mpr ⟨hs, he, hekey⟩)
      (KeyTable.find_eq_some_iff.mpr ⟨ha, hp, hpkey⟩)
    rw [hrun]
    refine ⟨rfl, ?_, ⟨e, he, hid, hnew, Nat.le_of_eq hsize.symm, hbusy⟩, ⟨p, hp, hpid, hval⟩,
      fun x hx hkey => hmade.shm_kept hx hkey, fun x hx hkey => hmade.shm_only hx hkey, ?_⟩
    · rw [hfound, ← hid, ← hpid]
    · intro q hkey
      obtain ⟨id, hreplaced, -⟩ := hmade.sem
      refine (hreplaced.mem_iff q).trans ⟨?_, fun hq => .inr ⟨hq, .inr hkey⟩⟩
      rintro (rfl | ⟨hq, -⟩)
      · exact absurd rfl hkey
      · exact hq

end

/-- With a stale segment, to which two others are attached, and a stale semaphore. -/
def Host.stale : Host where
  shm := ⟨[⟨5, ftok Setup.usual.lib 's'.toNat, ⟨100, fun _ => 7, 2, false⟩⟩],
    List.pairwise_singleton .., List.pairwise_singleton ..⟩
  sem := ⟨[⟨3, ftok Setup.usual.lib 'a'.toNat, 9⟩], List.pairwise_singleton ..,
    List.pairwise_singleton ..⟩
  attached := []
  next_addr := 0
  gone := []
  wild := false

theorem recovers_iff_stale : Recovered .usual .initial (sizeT 4096) .stale
    ((CreateSharedFrame .initial (sizeT 4096)).run (Host.sysv .usual) .stale).1
    ((CreateSharedFrame .initial (sizeT 4096)).run (Host.sysv .usual) .stale).2 :=
  (recovers_iff .usual .stale .initial 4096 (by decide)).mpr (by decide)

/-- Here the bits that `ftok` takes from `/usr/lib` are all 0. -/
def Setup.zeroBits : Setup := ⟨.next, ⟨2048, 65536⟩, 0x100000000⟩

/-- The channel of which `'a' + 159` is 256. -/
def Globals.channel159 : Globals := ⟨159, 0, List.replicate 159 0⟩

theorem private_semaphore_not_found :
    Creatable .zeroBits (sizeT 4096) ∧
    ¬ Recovered .zeroBits .channel159 (sizeT 4096) .initial
      ((CreateSharedFrame .channel159 (sizeT 4096)).run (Host.sysv .zeroBits) .initial).1
      ((CreateSharedFrame .channel159 (sizeT 4096)).run (Host.sysv .zeroBits) .initial).2 := by
  have hc : Creatable .zeroBits (sizeT 4096) := by decide
  refine ⟨hc, fun h => ?_⟩
  have hkeys := keys_of_recovered hc h
  exact absurd hkeys.2 (by decide)

end EngineerLinux.FrameIpc
