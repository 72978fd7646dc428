import EngineerLinux.FrameIpc.Recover
import Mathlib.Data.List.Nodup

/-!
# Whether channels collide

A process that calls `CreateSharedFrame` n times means to have n channels, which a consumer finds
by their numbers. The names are made by `ftok`, which uses 8 bits of the number.

Each call makes a segment and a semaphore under the two keys of its number, in place of what was
there, and leaves alone what is under other keys (`run_made_plain`). So after all the calls the
objects whose keys are different are all there, and their ids are different (`RenewedAll.mem`,
`RenewedAll.ids`); `run_createAll` is the induction on the calls.

- `separate_iff`: **the channels do not collide** exactly up to 256 of them. Channel 256 has the
  keys of channel 0, and creating it removes the objects of channel 0 (lines 50-55 and 60-65).
-/

namespace EngineerLinux.FrameIpc

variable {A : Setup} {lib : FileId} {s : Host}

/-! ## Many channels -/

/-- The ids of a segment and a semaphore. -/
def idsOf (e : Named Region) (p : Named Nat) : IpcIds := ⟨e.id, p.id⟩

/-- One call: the new objects are under the two keys of the channel. -/
theorem MadeChannel.renewed {g : Globals} {size : Nat} {ids : IpcIds} {s' : Host}
    (h : MadeChannel A g size s ids s') : ∃ (e : Named Region) (p : Named Nat),
      ids = idsOf e p ∧ e.key = keyShm A g ∧ p.key = keySem A g ∧
      s.shm.Renewed e s'.shm ∧ s.sem.Renewed p s'.sem := by
  obtain ⟨e, he, hkey, hid, -⟩ := h.segment
  obtain ⟨id, hreplaced, hsem⟩ := h.sem
  have hids : ids = idsOf e ⟨id, keySem A g, 0⟩ := by
    unfold idsOf
    rw [← hid, ← hsem]
  exact ⟨e, _, hids, hkey, rfl, ⟨he, fun e' he' hne => h.shm_kept he' (hkey ▸ hne)⟩,
    hreplaced.renewed⟩

/-- Creating channel after channel: channel `f` is under the two keys that `f` gives. -/
theorem run_createAll (A : Setup) (sizes : List Nat) (g : Globals) (s : Host)
    (hc : ∀ size ∈ sizes, Creatable A size) :
    ∃ (es : List (Named Region)) (ps : List (Named Nat)) (s' : Host),
      (createAll g sizes).run (Host.sysv A) s = (List.zipWith idsOf es ps, s') ∧
      es.map Named.key =
        (List.range' g.g_flag sizes.length).map (fun f => ftok A.lib ('s'.toNat + f)) ∧
      ps.map Named.key =
        (List.range' g.g_flag sizes.length).map (fun f => ftok A.lib ('a'.toNat + f)) ∧
      KeyTable.RenewedAll s.shm es s'.shm ∧ KeyTable.RenewedAll s.sem ps s'.sem := by
  induction sizes generalizing g s with
  | nil => exact ⟨[], [], s, rfl, rfl, rfl, .nil, .nil⟩
  | cons size sizes ih =>
    obtain ⟨g', ids, s₁, hfirst, hflag, hmade⟩ :=
      run_made_plain s g (hc size (List.mem_cons_self ..))
    obtain ⟨e, p, rfl, he, hp, hshm, hsem⟩ := hmade.renewed
    obtain ⟨es, ps, s', hrest, hes, hps, hshms, hsems⟩ := ih g' s₁ fun size hsize =>
      hc size (List.mem_cons_of_mem _ hsize)
    refine ⟨e :: es, p :: ps, s', ?_, ?_, ?_, .cons hshm hshms, .cons hsem hsems⟩
    · simp only [createAll, Prog.run_bind, Prog.run_ret, hfirst, hrest]
      rfl
    · rw [List.length_cons, List.range'_succ, List.map_cons, List.map_cons, hes, hflag, he]
      rfl
    · rw [List.length_cons, List.range'_succ, List.map_cons, List.map_cons, hps, hflag, hp]
      rfl

/-- What `GetFrameStart` returns depends on the two keys only. -/
theorem run_getFrameStart_congr {f g : Nat}
    (hs : ftok A.lib ('s'.toNat + f) = ftok A.lib ('s'.toNat + g))
    (ha : ftok A.lib ('a'.toNat + f) = ftok A.lib ('a'.toNat + g)) :
    (GetFrameStart f).run (Host.sysv A) s = (GetFrameStart g).run (Host.sysv A) s := by
  simp only [GetFrameStart, Prog.run_call, Prog.run_ret, Host.sysv]
  rw [hs, ha]

/-- The channels of `ids`, one for each number, do not collide: all the ids are live and no two are
the same, and a consumer obtains from the number of a channel the two ids of this channel. -/
structure Separate (A : Setup) (ids : List IpcIds) (s : Host) : Prop where
  shm_live : ∀ i ∈ ids, ∃ e ∈ s.shm, i.shm_id = e.id
  sem_live : ∀ i ∈ ids, ∃ p ∈ s.sem, i.sem_id = p.id
  shm_distinct : ids.Pairwise fun i i' => i.shm_id ≠ i'.shm_id
  sem_distinct : ids.Pairwise fun i i' => i.sem_id ≠ i'.sem_id
  consumer : ∀ (f : Nat) (hf : f < ids.length),
    ((GetFrameStart f).run (Host.sysv A) s).1 = (0, ids[f])

/-- There are names for `n` channels: 256 different keys, but of `/usr/lib` with device and inode 0
in the bits that `ftok` uses, the segment of channel 141 would have the key `IPC_PRIVATE`. -/
def Namable (lib : FileId) (n : Nat) : Prop :=
  n ≤ 256 ∧ (lib.st_dev % 256 = 0 ∧ lib.st_ino % 0x10000 = 0 → n ≤ 141)

instance : Decidable (Namable lib n) := inferInstanceAs (Decidable (_ ∧ _))

/-- The keys of as many channels as there are names for are all different, counted from the letter
`c` of the segments or of the semaphores. -/
theorem Namable.keys_nodup {n c : Nat} (h : Namable lib n) :
    ((List.range' 0 n).map fun f => ftok lib (c + f)).Nodup := by
  refine List.Nodup.map_on ?_ List.nodup_range'
  intro f hf f' hf' hkey
  rw [ftok_eq_iff] at hkey
  rw [List.mem_range'_1] at hf hf'
  have := h.1
  omega

theorem Namable.key_ne_zero {n c f : Nat} (h : Namable lib n) (hf : f < n)
    (hc : c = 's'.toNat ∨ c = 'a'.toNat) : ftok lib (c + f) ≠ 0 := by
  have hs : 's'.toNat = 115 := rfl
  have ha : 'a'.toNat = 97 := rfl
  rw [Ne, ftok_eq_zero_iff]
  rintro ⟨hmod, hlib⟩
  have := h.2 hlib
  omega

/-- A consumer finds what is in the tables under the keys of its number. -/
theorem consumer_of_mem {es : List (Named Region)} {ps : List (Named Nat)} {n f : Nat}
    (hes : es.map Named.key = (List.range' 0 n).map fun f => ftok A.lib ('s'.toNat + f))
    (hps : ps.map Named.key = (List.range' 0 n).map fun f => ftok A.lib ('a'.toNat + f))
    (hshm : ∀ e ∈ es, e ∈ s.shm) (hsem : ∀ p ∈ ps, p ∈ s.sem) (h : Namable A.lib n)
    (hf : f < (List.zipWith idsOf es ps).length) :
    ((GetFrameStart f).run (Host.sysv A) s).1 = (0, (List.zipWith idsOf es ps)[f]) := by
  have hlenS : es.length = n := by simpa using congrArg List.length hes
  have hlenP : ps.length = n := by simpa using congrArg List.length hps
  rw [List.length_zipWith, hlenS, hlenP, Nat.min_self] at hf
  have hkeyS : es[f].key = ftok A.lib ('s'.toNat + f) := by
    have := List.getElem_map (l := es) (i := f) (h := by simpa [hlenS] using hf) Named.key
    rw [← this]
    simp [hes]
  have hkeyP : ps[f].key = ftok A.lib ('a'.toNat + f) := by
    have := List.getElem_map (l := ps) (i := f) (h := by simpa [hlenP] using hf) Named.key
    rw [← this]
    simp [hps]
  have hfindS : s.shm.find (ftok A.lib ('s'.toNat + f)) = some es[f] :=
    KeyTable.find_eq_some_iff.mpr
      ⟨h.key_ne_zero hf (.inl rfl), hshm _ (List.getElem_mem _), hkeyS⟩
  have hfindP : s.sem.find (ftok A.lib ('a'.toNat + f)) = some ps[f] :=
    KeyTable.find_eq_some_iff.mpr
      ⟨h.key_ne_zero hf (.inr rfl), hsem _ (List.getElem_mem _), hkeyP⟩
  rw [run_found hfindS hfindP, List.getElem_zipWith]
  rfl

theorem separate_of_namable {es : List (Named Region)} {ps : List (Named Nat)} {s s' : Host}
    {n : Nat} (h : Namable A.lib n)
    (hes : es.map Named.key = (List.range' 0 n).map fun f => ftok A.lib ('s'.toNat + f))
    (hps : ps.map Named.key = (List.range' 0 n).map fun f => ftok A.lib ('a'.toNat + f))
    (hshm : KeyTable.RenewedAll s.shm es s'.shm) (hsem : KeyTable.RenewedAll s.sem ps s'.sem) :
    Separate A (List.zipWith idsOf es ps) s' := by
  -- all the keys being different, no creation removes an object of an earlier one
  have hkeyS : es.Pairwise fun e e' => e.key ≠ e'.key := List.pairwise_map.mp (hes ▸ h.keys_nodup)
  have hkeyP : ps.Pairwise fun p p' => p.key ≠ p'.key := List.pairwise_map.mp (hps ▸ h.keys_nodup)
  have hidS := List.pairwise_iff_getElem.mp (hshm.ids hkeyS)
  have hidP := List.pairwise_iff_getElem.mp (hsem.ids hkeyP)
  refine ⟨?_, ?_, ?_, ?_, ?_⟩
  · intro i hi
    obtain ⟨f, hf, rfl⟩ := List.getElem_of_mem hi
    rw [List.getElem_zipWith]
    exact ⟨_, hshm.mem hkeyS _ (List.getElem_mem _), rfl⟩
  · intro i hi
    obtain ⟨f, hf, rfl⟩ := List.getElem_of_mem hi
    rw [List.getElem_zipWith]
    exact ⟨_, hsem.mem hkeyP _ (List.getElem_mem _), rfl⟩
  · refine List.pairwise_iff_getElem.mpr ?_
    intro f f' hf hf' hlt hid
    rw [List.getElem_zipWith, List.getElem_zipWith] at hid
    exact hidS f f' _ _ hlt (Int.natCast_inj.mp hid)
  · refine List.pairwise_iff_getElem.mpr ?_
    intro f f' hf hf' hlt hid
    rw [List.getElem_zipWith, List.getElem_zipWith] at hid
    exact hidP f f' _ _ hlt (Int.natCast_inj.mp hid)
  · intro f hf
    exact consumer_of_mem hes hps (hshm.mem hkeyS) (hsem.mem hkeyP) h hf

/-- Channels that do not collide have a name each. -/
theorem Separate.namable {ids : List IpcIds} (h : Separate A ids s) :
    Namable A.lib ids.length := by
  constructor
  · by_contra hlen
    -- the keys of channel 256 are those of channel 0, so a consumer gets the same ids
    have h0 := h.consumer 0 (by omega)
    have h256 := h.consumer 256 (by omega)
    rw [run_getFrameStart_congr (g := 0) (ftok_eq_iff.mpr (by decide))
      (ftok_eq_iff.mpr (by decide)), h0] at h256
    refine List.pairwise_iff_getElem.mp h.shm_distinct 0 256 (by omega) (by omega) (by decide) ?_
    exact congrArg (fun r => r.2.shm_id) h256
  · intro hlib
    by_contra hlen
    have h141 := h.consumer 141 (by omega)
    have hprivate : ftok A.lib ('s'.toNat + 141) = 0 := ftok_eq_zero_iff.mpr ⟨by decide, hlib⟩
    have hneg := run_private (s := s) hprivate
    rw [h141] at hneg
    cases hneg

/-- Of channels that do not collide, there are not more than names. -/
theorem namable_of_separate {sizes : List Nat} (hc : ∀ size ∈ sizes, Creatable A size)
    (h : Separate A ((createAll .initial sizes).run (Host.sysv A) s).1
      ((createAll .initial sizes).run (Host.sysv A) s).2) : Namable A.lib sizes.length := by
  obtain ⟨es, ps, s', hrun, hes, hps, -, -⟩ := run_createAll A sizes .initial s hc
  have hlenS : es.length = sizes.length := by simpa using congrArg List.length hes
  have hlenP : ps.length = sizes.length := by simpa using congrArg List.length hps
  rw [hrun] at h
  have hnamable := h.namable
  rwa [List.length_zipWith, hlenS, hlenP, Nat.min_self] at hnamable

/-- **The channels do not collide** exactly if there are names for so many: of `n` successful calls
of `CreateSharedFrame` by one process, whatever was under the keys before, all the ids are live and
no two the same, and a consumer obtains from the number of a channel the ids of this channel, if
and only if `n` is at most 256 (at most 141, if the bits that `ftok` takes from `/usr/lib` are all
0). A call is successful if a segment of its size can be created. -/
theorem separate_iff (A : Setup) (s : Host) (sizes : List Nat)
    (hc : ∀ size ∈ sizes, Creatable A size) :
    Separate A ((createAll .initial sizes).run (Host.sysv A) s).1
      ((createAll .initial sizes).run (Host.sysv A) s).2 ↔ Namable A.lib sizes.length := by
  constructor
  · intro h
    exact namable_of_separate hc h
  · intro h
    obtain ⟨es, ps, s', hrun, hes, hps, hshm, hsem⟩ := run_createAll A sizes .initial s hc
    rw [hrun]
    exact separate_of_namable h hes hps hshm hsem

/-- Also over the left-overs of an earlier run. -/
theorem separate_iff_two :
    Separate .usual ((createAll .initial [4096, 65536]).run (Host.sysv .usual) .stale).1
      ((createAll .initial [4096, 65536]).run (Host.sysv .usual) .stale).2 :=
  (separate_iff .usual .stale [4096, 65536] (by decide)).mpr (by decide)

/-- With 257 channels they collide. -/
theorem channel_256_removes_0 :
    ¬ Separate .usual
      ((createAll .initial (List.replicate 257 4096)).run (Host.sysv .usual) .initial).1
      ((createAll .initial (List.replicate 257 4096)).run (Host.sysv .usual) .initial).2 := by
  intro h
  have hc : ∀ size ∈ List.replicate 257 4096, Creatable .usual size := by
    intro size hsize
    rw [List.eq_of_mem_replicate hsize]
    decide
  have hle := (namable_of_separate hc h).1
  rw [List.length_replicate] at hle
  exact absurd hle (by decide)

end EngineerLinux.FrameIpc
