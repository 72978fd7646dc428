import EngineerLinux.FrameIpc.Recover
import EngineerLinux.Lib.Machine
import Mathlib.Data.List.GetD

/-!
# The attachments of a producer

One process that calls `CreateSharedFrame`, `SendSharedFrame` and `DestroySharedFrame` in any order,
with all system calls succeeding, while other processes do what they like to the objects. The table
`g_addr` is cleared as a whole when a channel is created (line 79), and not touched when one is
destroyed (131-136).

Each function is one step of the machine. Most of its system calls attach nothing, whatever else
they do (`FrameCall.Still`, `Aside`), so what a step does to the attachments comes down to the
`shmat`s: that of `CreateSharedFrame` is undone by the `shmdt` behind it, and `SendSharedFrame` has
one if there is no address yet (85-86).

- `produce_create`, `produce_send`, `produce_destroy`: what each function does, from which every
  invariant is read off;
- `Tidy`: what every call preserves, careful or not, with `Tidy.step`;
- `OneEach.step`, `OneEach.broken`: a careful call keeps one attachment each, any other call is the
  end of it, so that the condition is exact;
- `one_each_iff`: **one attachment for each channel that has an address recorded, none for the
  others and for those destroyed**, exactly if channels are created only while no address is
  recorded, destroyed only while theirs is not, and not used after that.
-/

namespace EngineerLinux.FrameIpc

/-! ## The machine -/

/-- An id, or the refusal of an exclusive creation. -/
def idOk (create : Bool) (r : Int × Errno) : Bool := 0 ≤ r.1 || (create && r.2 = .EEXIST)

/-- Whether a call has succeeded. An exclusive creation may find that there is an object. -/
def CreateCall.ok : (c : CreateCall) → c.Ans → Bool
  | .shmget _ _ create, r => idOk create r
  | .semget _ create, r => idOk create r
  | .shmRmid _, r | .semRmid _, r | .semSetval _ _, r | .semGetval _, r | .shmat _, r
  | .shmdt _, r => decide ((r : Int) ≠ -1)
  | .realloc _ _, r => decide ((r : Int) ≠ 0)
  | .ftok _, _ | .store _ _, _ | .memset _ _, _ => true

def FrameCall.ok : (c : FrameCall) → c.Ans → Bool
  | .sysv c, r => c.ok r
  | .semop _ _, r => decide ((r : Int) ≠ -1)
  | .load _, _ | .memcpyTo _ _ _, _ | .memcpyFrom _ _, _ => true

/-- The ids that have been given. -/
def Host.given (s : Host) : List Nat := s.gone ++ s.shm.entries.map Named.id

/-- A channel of the process. -/
structure Chan where
  ids : IpcIds
  destroyed : Bool

/-- The process, with its channels by number. -/
structure Producer where
  host : Host
  g : Globals
  chans : List Chan

inductive ProducerAct where
  | create (size : Int)
  | send (flag : Nat) (frame : Frame)
  | destroy (flag : Nat)
  /-- Other processes have changed the objects. -/
  | others (shm : KeyTable Region) (sem : KeyTable Nat) (gone : List Nat)

/-- A call that returns, all system calls having succeeded; or what other processes do. -/
def produce (A : Setup) (s : Producer) : ProducerAct → Option Producer
  | .create size =>
    ((CreateSharedFrame s.g (sizeT size)).runOk CreateCall.ok (Host.sysv A) s.host).map fun r =>
      ⟨r.2, r.1.1, s.chans ++ [⟨r.1.2.2, false⟩]⟩
  | .send flag frame =>
    match s.chans[flag]? with
    | some chan =>
      ((SendSharedFrame s.g flag chan.ids frame).runOk FrameCall.ok (Host.sys A) s.host).map
        fun r => ⟨r.2, r.1.1, s.chans⟩
    | none => none
  | .destroy flag =>
    match s.chans[flag]? with
    | some chan =>
      ((DestroySharedFrame chan.ids).runOk FrameCall.ok (Host.sys A) s.host).map fun r =>
        ⟨r.2, s.g, s.chans.set flag { chan with destroyed := true }⟩
    | none => none
  | .others shm sem gone =>
    -- an id that has been given is not given again
    if s.host.given ⊆ gone ++ shm.entries.map Named.id then
      some { s with host := { s.host with shm, sem, gone } }
    else none

/-- A process that has created no channel, among any objects. -/
def Producer.Starts (s : Producer) : Prop :=
  s.host.attached = [] ∧ s.host.wild = false ∧ s.g = .initial ∧ s.chans = []

/-- A process is followed as long as no access goes wrong. -/
def producer (A : Setup) : Machine Producer ProducerAct where
  init := Producer.Starts
  next s a := (produce A s a).filter fun t => !t.host.wild

/-! ## Counting -/

/-- How many attachments the process has to a segment. -/
def attachments (s : Host) (id : Int) : Nat := s.attached.countP fun a => (a.2 : Int) = id

/-- Each channel with an address recorded is attached once, each other one not at all. -/
structure OneEach (s : Producer) : Prop where
  recorded : ∀ f chan, s.chans[f]? = some chan → attachments s.host chan.ids.shm_id =
    if s.g.slots.getD f 0 = 0 then 0 else 1
  destroyed : ∀ chan ∈ s.chans, chan.destroyed = true → attachments s.host chan.ids.shm_id = 0

/-- No address is lost when a channel is created, no channel is destroyed while its address is
recorded, or used after that. -/
def Careful (s : Producer) : ProducerAct → Prop
  | .create _ => ∀ slot ∈ s.g.slots, slot = 0
  | .send flag _ => ∀ chan, s.chans[flag]? = some chan → chan.destroyed = false
  | .destroy flag => s.g.slots.getD flag 0 = 0
  | .others _ _ _ => True

/-! ## What the calls do -/

variable {A : Setup} {s t : Producer} {h h' h'' : Host} {flag : Nat} {frame : Frame}

theorem mem_given {i : Nat} : i ∈ h.given ↔ i ∈ h.gone ∨ ∃ e ∈ h.shm, e.id = i := by
  unfold Host.given
  rw [List.mem_append, List.mem_map]
  rfl

/-- The attachments are the same, and no id is free again. -/
structure Aside (h h' : Host) : Prop where
  attached : h'.attached = h.attached
  next_addr : h'.next_addr = h.next_addr
  given : h.given ⊆ h'.given

theorem Aside.refl (h : Host) : Aside h h := ⟨rfl, rfl, List.Subset.refl _⟩

theorem Aside.trans (h₁ : Aside h h') (h₂ : Aside h' h'') : Aside h h'' :=
  ⟨h₂.attached.trans h₁.attached, h₂.next_addr.trans h₁.next_addr,
    List.Subset.trans h₁.given h₂.given⟩

theorem given_modify (h : Host) (id : Nat) (f : (Nat → UInt8) → Nat → UInt8) :
    (h.modify id f).given = h.given := by
  unfold Host.given Host.modify KeyTable.modify
  simp only [List.map_map]
  rfl

theorem aside_modify (h : Host) (id : Nat) (f : (Nat → UInt8) → Nat → UInt8) :
    Aside h (h.modify id f) :=
  ⟨rfl, rfl, (given_modify h id f).symm ▸ List.Subset.refl _⟩

/-- `IPC_RMID` lets a process keep what it has attached. -/
theorem aside_rmid (h : Host) (e : Named Region) : Aside h (h.rmid e) := by
  have hgiven : ∀ i ∈ h.given, i ∈ (h.rmid e).given := by
    intro i hi
    unfold Host.rmid
    split
    · refine mem_given.mpr ?_
      rcases mem_given.mp hi with hi | ⟨x, hx, rfl⟩
      · exact .inl (List.mem_cons_of_mem _ hi)
      · by_cases hid : x.id = e.id
        · exact .inl (hid ▸ List.mem_cons_self ..)
        · exact .inr ⟨x, KeyTable.mem_remove.mpr ⟨hx, hid⟩, rfl⟩
    · refine mem_given.mpr ((mem_given.mp hi).imp_right ?_)
      rintro ⟨x, hx, rfl⟩
      exact ⟨_, KeyTable.mem_modify.mpr ⟨_, KeyTable.mem_unkey.mpr ⟨x, hx, rfl⟩, rfl⟩, rfl⟩
  refine ⟨?_, ?_, hgiven⟩
  · unfold Host.rmid
    split <;> rfl
  · unfold Host.rmid
    split <;> rfl

/-- The calls that attach nothing. -/
def FrameCall.Still : FrameCall → Prop
  | .sysv (.shmRmid _) | .sysv (.semRmid _) | .semop _ _ | .load _ | .memcpyTo _ _ _ => True
  | _ => False

theorem FrameCall.Still.aside {c : FrameCall} (hc : c.Still) (h : Host) :
    Aside h (Host.sys A c h).2 := by
  cases c with
  | sysv c =>
    cases c with
    | shmRmid id =>
      simp only [Host.sys, Host.sysv]
      split
      · exact aside_rmid h _
      · exact .refl h
    | semRmid id =>
      simp only [Host.sys, Host.sysv]
      split <;> exact ⟨rfl, rfl, List.Subset.refl _⟩
    | _ => exact hc.elim
  | semop id op =>
    simp only [Host.sys, Host.semop]
    split
    · split <;> exact ⟨rfl, rfl, List.Subset.refl _⟩
    · exact .refl h
  | load addr =>
    simp only [Host.sys]
    split <;> exact ⟨rfl, rfl, List.Subset.refl _⟩
  | memcpyTo addr off bytes =>
    simp only [Host.sys]
    split
    · split
      · exact aside_modify h _ (fun old => splice old off.toNat bytes)
      · exact ⟨rfl, rfl, List.Subset.refl _⟩
    · exact ⟨rfl, rfl, List.Subset.refl _⟩
  | memcpyFrom addr len => exact hc.elim

theorem run_still {R : Type} {p : Prog FrameSys R} (hp : p.Only FrameCall.Still) (h : Host) :
    Aside h (p.run (Host.sys A) h).2 :=
  hp.inv (I := fun h' => Aside h h') (fun _ h' hc hh' => hh'.trans (hc.aside h')) (.refl h)

theorem only_copyTo (p : Option (List UInt8)) (len addr off : Int) :
    (copyTo p len addr off).Only FrameCall.Still := by
  cases p with
  | none => trivial
  | some bytes =>
    unfold copyTo
    dsimp only
    split
    · exact ⟨trivial, fun _ => trivial⟩
    · trivial

theorem only_sendThrough (g : Globals) (addr : Int) (ids : IpcIds) (frame : Frame) :
    (sendThrough g addr ids frame).Only FrameCall.Still := by
  refine ⟨trivial, fun busy => ?_⟩
  dsimp only
  split
  · split
    · trivial
    · refine (only_copyTo ..).bind fun _ => (only_copyTo ..).bind fun _ => ?_
      exact ⟨trivial, fun _ => trivial⟩
  · trivial

/-- It leaves the table alone. -/
theorem returns_sendThrough (g : Globals) (addr : Int) (ids : IpcIds) (frame : Frame) :
    (sendThrough g addr ids frame).Returns fun r => r.1 = g := by
  intro busy
  dsimp only
  split
  · split
    · rfl
    · refine .bind (Prog.returns_of_forall _ fun _ => .bind (Prog.returns_of_forall _ fun _ => ?_))
      exact fun _ => rfl
  · rfl

theorem only_destroySharedFrame (ids : IpcIds) : (DestroySharedFrame ids).Only FrameCall.Still :=
  ⟨trivial, fun _ => ⟨trivial, fun _ => trivial⟩⟩

/-- A creation that succeeds is one of a possible size. -/
theorem creatable_of_createShm {key size : Nat} {r : Int}
    (hrun : (createShm key size).runOk CreateCall.ok (Host.sysv A) h = some (r, h')) :
    Creatable A size := by
  by_contra hc
  unfold createShm at hrun
  cases hfind : h.shm.find key with
  | none =>
    have hrefused : Host.sysv A (.shmget key size true) h = (((-1 : Int), Errno.EINVAL), h) :=
      shmget_refused hfind hc
    have hok := ((Prog.runOk_call_of hrefused).mp hrun).1
    exact absurd hok Bool.false_ne_true
  | some e =>
    -- the left-over is removed, and the second creation is refused
    have hexists : Host.sysv A (.shmget key size true) h = (((-1 : Int), Errno.EEXIST), h) :=
      (shmget_found hfind).trans (if_pos rfl)
    have hget : Host.sysv A (.shmget key 0 false) h = (((e.id : Int), Errno.EEXIST), h) :=
      shmget_found hfind
    have hrmid : Host.sysv A (.shmRmid e.id) h = ((0 : Int), h.rmid e) := by
      simp only [Host.sysv, seg_of_find hfind]
    have hrefused : Host.sysv A (.shmget key size true) (h.rmid e) =
        (((-1 : Int), Errno.EINVAL), h.rmid e) :=
      shmget_refused (rmid_spec hfind).1 hc
    obtain ⟨-, hrun⟩ := (Prog.runOk_call_of hexists).mp hrun
    rw [if_pos (by decide)] at hrun
    obtain ⟨-, hrun⟩ := (Prog.runOk_call_of hget).mp hrun
    obtain ⟨-, hrun⟩ := (Prog.runOk_call_of hrmid).mp hrun
    have hok := ((Prog.runOk_call_of hrefused).mp hrun).1
    exact absurd hok Bool.false_ne_true

theorem produce_create {size : Int} (hs : produce A s (.create size) = some t) :
    ∃ ids : IpcIds, t.chans = s.chans ++ [⟨ids, false⟩] ∧ t.g.g_flag = s.g.g_flag + 1 ∧
      t.g.slots = List.replicate (s.g.g_flag + 1) 0 ∧
      MadeChannel A s.g (sizeT size) s.host ids t.host := by
  obtain ⟨r, hrun, rfl⟩ := Option.map_eq_some_iff.mp hs
  have hc : Creatable A (sizeT size) := by
    rw [createSharedFrame_eq] at hrun
    obtain ⟨-, hrun⟩ := Prog.runOk_call.mp hrun
    obtain ⟨id, s₁, hfirst, -⟩ := Prog.runOk_bind.mp hrun
    exact creatable_of_createShm hfirst
  have hplain := Prog.run_of_runOk hrun
  obtain ⟨hflag, hslots, -⟩ :=
    (returns_createSharedFrame s.g (sizeT size)).run (Host.sysv A) s.host
  obtain ⟨g', ids, h', hmade, -, hchannel⟩ := run_made_plain s.host s.g hc
  rw [hplain] at hflag hslots hmade
  obtain ⟨⟨g₁, ret, ids₁⟩, h₁⟩ := r
  cases hmade
  exact ⟨_, rfl, hflag, hslots, hchannel⟩

/-- What `SendSharedFrame` does to the attachments. -/
theorem produce_send (hs : produce A s (.send flag frame) = some t) :
    ∃ chan, s.chans[flag]? = some chan ∧ t.chans = s.chans ∧
      ((s.g.slots.getD flag 0 ≠ 0 ∧ t.g = s.g ∧ Aside s.host t.host) ∨
        (s.g.slots.getD flag 0 = 0 ∧ ∃ i ∈ s.host.given, chan.ids.shm_id = i ∧
          t.g = { s.g with slots := s.g.slots.set flag (s.host.next_addr + 1) } ∧
          Aside (s.host.attach i) t.host)) := by
  simp only [produce] at hs
  split at hs
  · next chan hchan =>
    obtain ⟨r, hrun, rfl⟩ := Option.map_eq_some_iff.mp hs
    refine ⟨chan, hchan, rfl, ?_⟩
    unfold SendSharedFrame at hrun
    split at hrun
    · next h0 =>
      obtain ⟨hok, hrun⟩ := Prog.runOk_call.mp hrun
      cases hseg : s.host.seg chan.ids.shm_id with
      | none =>
        simp only [FrameCall.ok, CreateCall.ok, Host.sys, Host.sysv, hseg] at hok
        exact absurd rfl (of_decide_eq_true hok)
      | some e =>
        simp only [Host.sys, Host.sysv, hseg] at hrun
        have hplain := Prog.run_of_runOk hrun
        have hg := (returns_sendThrough
          { s.g with slots := s.g.slots.set flag (s.host.next_addr + 1) }
          (s.host.next_addr + 1) chan.ids frame).run (Host.sys A) (s.host.attach e.id)
        have haside := run_still (A := A) (only_sendThrough
          { s.g with slots := s.g.slots.set flag (s.host.next_addr + 1) }
          (s.host.next_addr + 1) chan.ids frame) (s.host.attach e.id)
        rw [hplain] at hg haside
        obtain ⟨he, hid⟩ := seg_eq_some_iff.mp hseg
        exact .inr ⟨h0, e.id, mem_given.mpr (.inr ⟨e, he, rfl⟩), hid.symm, hg, haside⟩
    · next h0 =>
      have hplain := Prog.run_of_runOk hrun
      have hg := (returns_sendThrough s.g (s.g.slots.getD flag 0) chan.ids frame).run (Host.sys A)
        s.host
      have haside := run_still (A := A)
        (only_sendThrough s.g (s.g.slots.getD flag 0) chan.ids frame) s.host
      rw [hplain] at hg haside
      exact .inl ⟨h0, hg, haside⟩
  · cases hs

theorem produce_destroy (hs : produce A s (.destroy flag) = some t) :
    ∃ chan, s.chans[flag]? = some chan ∧
      t.chans = s.chans.set flag { chan with destroyed := true } ∧ t.g = s.g ∧
      Aside s.host t.host := by
  simp only [produce] at hs
  split at hs
  · next chan hchan =>
    obtain ⟨r, hrun, rfl⟩ := Option.map_eq_some_iff.mp hs
    have haside := run_still (A := A) (only_destroySharedFrame chan.ids) s.host
    rw [Prog.run_of_runOk hrun] at haside
    exact ⟨chan, hchan, rfl, rfl, haside⟩
  · cases hs

theorem produce_others {shm : KeyTable Region} {sem : KeyTable Nat} {gone : List Nat}
    (hs : produce A s (.others shm sem gone) = some t) :
    t.chans = s.chans ∧ t.g = s.g ∧ Aside s.host t.host := by
  simp only [produce] at hs
  split at hs
  · next hgiven =>
    cases hs
    exact ⟨rfl, rfl, rfl, rfl, hgiven⟩
  · cases hs

/-! ## What every call preserves -/

/-- The tables of the process fit together, and each attachment is to a segment that has been given
an id, at an address that has been used. -/
structure Tidy (s : Producer) : Prop where
  flag : s.g.g_flag = s.chans.length
  slots : s.g.slots.length = s.chans.length
  given : ∀ chan ∈ s.chans, ∃ i ∈ s.host.given, chan.ids.shm_id = i
  distinct : s.chans.Pairwise fun c c' => c.ids.shm_id ≠ c'.ids.shm_id
  attached : ∀ a ∈ s.host.attached, a.2 ∈ s.host.given
  addresses : ∀ a ∈ s.host.attached, a.1 ≤ s.host.next_addr

theorem tidy_start (hs : s.Starts) : Tidy s := by
  obtain ⟨hattached, -, hg, hchans⟩ := hs
  refine ⟨?_, ?_, ?_, ?_, ?_, ?_⟩
  · rw [hg, hchans]
    rfl
  · rw [hg, hchans]
    rfl
  · rw [hchans]
    exact fun _ hmem => absurd hmem List.not_mem_nil
  · rw [hchans]
    exact .nil
  · rw [hattached]
    exact fun _ hmem => absurd hmem List.not_mem_nil
  · rw [hattached]
    exact fun _ hmem => absurd hmem List.not_mem_nil

/-- Channels with different numbers have different segments. -/
theorem Tidy.ids_ne (hi : Tidy s) {f f' : Nat} {c c' : Chan} (hc : s.chans[f]? = some c)
    (hc' : s.chans[f']? = some c') (hne : f ≠ f') : c.ids.shm_id ≠ c'.ids.shm_id := by
  obtain ⟨hf, rfl⟩ := List.getElem?_eq_some_iff.mp hc
  obtain ⟨hf', rfl⟩ := List.getElem?_eq_some_iff.mp hc'
  rcases Nat.lt_or_gt_of_ne hne with hlt | hlt
  · exact List.pairwise_iff_getElem.mp hi.distinct f f' hf hf' hlt
  · exact (List.pairwise_iff_getElem.mp hi.distinct f' f hf' hf hlt).symm

/-- The table and the channels stay, and so do the attachments. -/
theorem Tidy.aside (hi : Tidy s) (haside : Aside s.host t.host)
    (hchans : t.chans.map Chan.ids = s.chans.map Chan.ids) (hg : t.g = s.g) : Tidy t := by
  have hlength : t.chans.length = s.chans.length := by
    rw [← List.length_map Chan.ids, hchans, List.length_map]
  refine ⟨?_, ?_, ?_, ?_, ?_, ?_⟩
  · rw [hg, hlength]
    exact hi.flag
  · rw [hg, hlength]
    exact hi.slots
  · intro chan hchan
    have hids : chan.ids ∈ s.chans.map Chan.ids := hchans ▸ List.mem_map_of_mem hchan
    obtain ⟨c, hc, hcids⟩ := List.mem_map.mp hids
    obtain ⟨i, hgiven, hid⟩ := hi.given c hc
    exact ⟨i, haside.given hgiven, by rw [← hcids, hid]⟩
  · have hold : (s.chans.map Chan.ids).Pairwise fun i i' => i.shm_id ≠ i'.shm_id :=
      List.pairwise_map.mpr hi.distinct
    rw [← hchans] at hold
    exact (List.pairwise_map (f := Chan.ids) (R := fun i i' => i.shm_id ≠ i'.shm_id)).mp hold
  · rw [haside.attached]
    exact fun a ha => haside.given (hi.attached a ha)
  · rw [haside.attached, haside.next_addr]
    exact hi.addresses

/-- A new channel has a segment of its own. -/
theorem MadeChannel.unused {g : Globals} {size : Nat} {ids : IpcIds}
    (hm : MadeChannel A g size h ids h') : ∃ i ∈ h'.given, ids.shm_id = i ∧ i ∉ h.given := by
  obtain ⟨i, s₁, hmade, hid, hshm⟩ := hm.shm
  refine ⟨i, mem_given.mpr (.inr ⟨_, hshm ▸ KeyTable.mem_modify_self hmade.new, rfl⟩), hid, ?_⟩
  intro hgiven
  rcases mem_given.mp hgiven with hgone | ⟨e, he, heid⟩
  · exact hmade.unused hgone
  · exact hmade.fresh e he heid

/-- Creating a channel changes no attachment. -/
theorem Tidy.attached_create (hi : Tidy s) {size : Nat} {ids : IpcIds}
    (hm : MadeChannel A s.g size s.host ids h') : h'.attached = s.host.attached := by
  rw [hm.attached]
  refine List.filter_eq_self.mpr fun a ha => ?_
  have hle := hi.addresses a ha
  rw [decide_eq_true_eq]
  omega

theorem Tidy.create (hi : Tidy s) {size : Int} (hs : produce A s (.create size) = some t) :
    Tidy t := by
  obtain ⟨ids, hchans, hflag, hslots, hm⟩ := produce_create hs
  obtain ⟨i, hgiven, hid, hnew⟩ := hm.unused
  have hkept : ∀ i ∈ s.host.given, i ∈ t.host.given := fun i hi =>
    mem_given.mpr (hm.known i (mem_given.mp hi))
  refine ⟨?_, ?_, ?_, ?_, ?_, ?_⟩
  · rw [hflag, hchans, hi.flag, List.length_append]
    rfl
  · rw [hslots, hchans, hi.flag, List.length_replicate, List.length_append]
    rfl
  · intro chan hchan
    rw [hchans] at hchan
    rcases List.mem_append.mp hchan with hold | hlast
    · obtain ⟨j, hj, hjid⟩ := hi.given chan hold
      exact ⟨j, hkept j hj, hjid⟩
    · rw [List.mem_singleton.mp hlast]
      exact ⟨i, hgiven, hid⟩
  · rw [hchans]
    refine List.pairwise_append.mpr ⟨hi.distinct, List.pairwise_singleton .., ?_⟩
    intro c hc c' hc' heq
    rw [List.mem_singleton.mp hc'] at heq
    obtain ⟨j, hj, hjid⟩ := hi.given c hc
    have hij : j = i := Int.natCast_inj.mp (hjid.symm.trans (heq.trans hid))
    exact hnew (hij ▸ hj)
  · rw [hi.attached_create hm]
    exact fun a ha => hkept _ (hi.attached a ha)
  · rw [hi.attached_create hm]
    exact fun a ha => Nat.le_trans (hi.addresses a ha) hm.next_addr

theorem Tidy.send (hi : Tidy s) (hs : produce A s (.send flag frame) = some t) : Tidy t := by
  obtain ⟨chan, hchan, hchans, ⟨-, hg, haside⟩ | ⟨-, i, hgiven, -, hg, haside⟩⟩ := produce_send hs
  · exact hi.aside haside (by rw [hchans]) hg
  · -- as after an attachment, and then nothing more
    have hattach : Tidy ⟨s.host.attach i,
        { s.g with slots := s.g.slots.set flag (s.host.next_addr + 1) }, s.chans⟩ := by
      refine ⟨hi.flag, ?_, hi.given, hi.distinct, ?_, ?_⟩
      · rw [← hi.slots]
        exact List.length_set
      · rintro a (_ | ⟨_, ha⟩)
        · exact hgiven
        · exact hi.attached a ha
      · rintro a (_ | ⟨_, ha⟩)
        · exact Nat.le_refl _
        · exact Nat.le_succ_of_le (hi.addresses a ha)
    exact hattach.aside haside (by rw [hchans]) hg

theorem Tidy.step (hi : Tidy s) {a : ProducerAct} (hs : produce A s a = some t) : Tidy t := by
  cases a with
  | create size => exact hi.create hs
  | send flag frame => exact hi.send hs
  | destroy flag =>
    obtain ⟨chan, hchan, hchans, hg, haside⟩ := produce_destroy hs
    refine hi.aside haside ?_ hg
    obtain ⟨hlt, hget⟩ := List.getElem?_eq_some_iff.mp hchan
    have hlt' : flag < (s.chans.map Chan.ids).length := by rwa [List.length_map]
    have hself := List.set_getElem_self hlt'
    rw [List.getElem_map, hget] at hself
    rw [hchans, List.map_set]
    exact hself
  | others shm sem gone =>
    obtain ⟨hchans, hg, haside⟩ := produce_others hs
    exact hi.aside haside (by rw [hchans]) hg

/-! ## One attachment each -/

theorem attachments_congr (hsame : h'.attached = h.attached) (id : Int) :
    attachments h' id = attachments h id := by
  unfold attachments
  rw [hsame]

theorem attachments_attach_self (h : Host) (i : Nat) :
    attachments (h.attach i) i = attachments h i + 1 :=
  List.countP_cons_of_pos (by simp)

theorem attachments_attach_ne {id : Int} {i : Nat} (hne : id ≠ i) (h : Host) :
    attachments (h.attach i) id = attachments h id :=
  List.countP_cons_of_neg (by simpa using hne.symm)

/-- A segment whose id has not been given has no attachments. -/
theorem Tidy.attachments_unused (hi : Tidy s) {i : Nat} (hnew : i ∉ s.host.given) :
    attachments s.host i = 0 := by
  refine List.countP_eq_zero.mpr fun a ha => ?_
  rw [decide_eq_true_eq]
  intro heq
  exact hnew (Int.natCast_inj.mp heq ▸ hi.attached a ha)

/-- An address is recorded for a channel only. -/
theorem Tidy.recorded_lt (hi : Tidy s) {f : Nat} (hslot : s.g.slots.getD f 0 ≠ 0) :
    ∃ chan, s.chans[f]? = some chan := by
  have hlt : f < s.chans.length := by
    rw [← hi.slots]
    by_contra hge
    exact hslot (List.getD_eq_default _ _ (Nat.le_of_not_lt hge))
  exact ⟨_, List.getElem?_eq_getElem hlt⟩

/-- With nothing recorded, nothing is attached. -/
theorem OneEach.create (ho : OneEach s) (hi : Tidy s) {size : Int}
    (hG : Careful s (.create size)) (hs : produce A s (.create size) = some t) : OneEach t := by
  obtain ⟨ids, hchans, -, hslots, hm⟩ := produce_create hs
  obtain ⟨i, -, hid, hnew⟩ := hm.unused
  have hnull : ∀ f, s.g.slots.getD f 0 = 0 := by
    intro f
    rw [List.getD_eq_getElem?_getD]
    cases hget : s.g.slots[f]? with
    | none => rfl
    | some slot => exact hG slot (List.mem_of_getElem? hget)
  have hnone : ∀ chan ∈ t.chans, attachments t.host chan.ids.shm_id = 0 := by
    intro chan hchan
    rw [attachments_congr (hi.attached_create hm)]
    rw [hchans] at hchan
    rcases List.mem_append.mp hchan with hold | hlast
    · obtain ⟨f, hf⟩ := List.getElem?_of_mem hold
      rw [ho.recorded f chan hf, if_pos (hnull f)]
    · rw [List.mem_singleton.mp hlast]
      dsimp only
      rw [hid]
      exact hi.attachments_unused hnew
  refine ⟨fun f chan hchan => ?_, fun chan hchan _ => hnone chan hchan⟩
  have hzero : t.g.slots.getD f 0 = 0 := by
    rw [hslots, List.getD_eq_getElem?_getD]
    exact List.getElem?_getD_replicate_default_eq ..
  rw [hnone chan (List.mem_of_getElem? hchan), if_pos hzero]

theorem OneEach.send (ho : OneEach s) (hi : Tidy s) (hG : Careful s (.send flag frame))
    (hs : produce A s (.send flag frame) = some t) : OneEach t := by
  obtain ⟨chan, hchan, hchans, ⟨-, hg, haside⟩ | ⟨h0, i, -, hid, hg, haside⟩⟩ := produce_send hs
  · refine ⟨fun f c hc => ?_, fun c hc hd => ?_⟩
    · rw [hchans] at hc
      rw [attachments_congr haside.attached, hg]
      exact ho.recorded f c hc
    · rw [hchans] at hc
      rw [attachments_congr haside.attached]
      exact ho.destroyed c hc hd
  · have hflag : flag < s.g.slots.length := by
      rw [hi.slots]
      exact (List.getElem?_eq_some_iff.mp hchan).1
    have hother : ∀ f c, s.chans[f]? = some c → f ≠ flag →
        attachments t.host c.ids.shm_id = attachments s.host c.ids.shm_id := by
      intro f c hc hne
      rw [attachments_congr haside.attached]
      exact attachments_attach_ne (hid ▸ hi.ids_ne hc hchan hne) _
    refine ⟨fun f c hc => ?_, fun c hc hd => ?_⟩
    · rw [hchans] at hc
      by_cases hf : f = flag
      · obtain rfl := hf
        obtain rfl : chan = c := Option.some.inj (hchan.symm.trans hc)
        have hslot : t.g.slots.getD f 0 = s.host.next_addr + 1 := by
          rw [hg, List.getD_eq_getElem?_getD, List.getElem?_set_self hflag, Option.getD_some]
        have hpos : ¬ (s.host.next_addr + 1 : Int) = 0 := by omega
        have hcount := ho.recorded f chan hc
        rw [if_pos h0] at hcount
        rw [hslot, if_neg hpos, attachments_congr haside.attached, hid, attachments_attach_self,
          ← hid, hcount]
      · have hslot : t.g.slots.getD f 0 = s.g.slots.getD f 0 := by
          rw [hg, List.getD_eq_getElem?_getD, List.getElem?_set_ne (Ne.symm hf),
            List.getD_eq_getElem?_getD]
        rw [hslot, hother f c hc hf]
        exact ho.recorded f c hc
    · rw [hchans] at hc
      obtain ⟨f, hf⟩ := List.getElem?_of_mem hc
      have hne : f ≠ flag := by
        rintro rfl
        obtain rfl : chan = c := Option.some.inj (hchan.symm.trans hf)
        rw [hG chan hchan] at hd
        cases hd
      rw [hother f c hf hne]
      exact ho.destroyed c hc hd

theorem OneEach.destroy (ho : OneEach s) (hG : Careful s (.destroy flag))
    (hs : produce A s (.destroy flag) = some t) : OneEach t := by
  obtain ⟨chan, hchan, hchans, hg, haside⟩ := produce_destroy hs
  have hnone : attachments s.host chan.ids.shm_id = 0 := by
    rw [ho.recorded flag chan hchan]
    exact if_pos hG
  refine ⟨fun f c hc => ?_, fun c hc hd => ?_⟩
  · rw [attachments_congr haside.attached, hg]
    rw [hchans] at hc
    by_cases hf : f = flag
    · obtain rfl := hf
      rw [List.getElem?_set_self (List.getElem?_eq_some_iff.mp hchan).1] at hc
      cases hc
      exact ho.recorded f chan hchan
    · rw [List.getElem?_set_ne (Ne.symm hf)] at hc
      exact ho.recorded f c hc
  · rw [attachments_congr haside.attached]
    rw [hchans] at hc
    rcases List.mem_or_eq_of_mem_set hc with hold | rfl
    · exact ho.destroyed c hold hd
    · exact hnone

/-- A call made with care keeps one attachment each. -/
theorem OneEach.step (ho : OneEach s) (hi : Tidy s) {a : ProducerAct} (hG : Careful s a)
    (hs : produce A s a = some t) : OneEach t := by
  cases a with
  | create size => exact ho.create hi hG hs
  | send flag frame => exact ho.send hi hG hs
  | destroy flag => exact ho.destroy hG hs
  | others shm sem gone =>
    obtain ⟨hchans, hg, haside⟩ := produce_others hs
    refine ⟨fun f c hc => ?_, fun c hc hd => ?_⟩
    · rw [hchans] at hc
      rw [attachments_congr haside.attached, hg]
      exact ho.recorded f c hc
    · rw [hchans] at hc
      rw [attachments_congr haside.attached]
      exact ho.destroyed c hc hd

/-- Without care, an attachment is lost sight of, or made to a channel that is destroyed. -/
theorem OneEach.broken (ho : OneEach s) (hi : Tidy s) {a : ProducerAct} (hG : ¬ Careful s a)
    (hs : produce A s a = some t) : ¬ OneEach t := by
  intro hot
  cases a with
  | create size =>
    obtain ⟨ids, hchans, -, hslots, hm⟩ := produce_create hs
    obtain ⟨slot, hslot, hne⟩ : ∃ slot ∈ s.g.slots, slot ≠ 0 := by
      by_contra hno
      exact hG fun slot hslot => not_not.mp fun hne => hno ⟨slot, hslot, hne⟩
    obtain ⟨f, hf⟩ := List.getElem?_of_mem hslot
    have hslotD : s.g.slots.getD f 0 ≠ 0 := by
      rw [List.getD_eq_getElem?_getD, hf]
      exact hne
    obtain ⟨chan, hchan⟩ := hi.recorded_lt hslotD
    have hbefore := ho.recorded f chan hchan
    rw [if_neg hslotD] at hbefore
    have hchan' : t.chans[f]? = some chan := by
      rw [hchans, List.getElem?_append_left (List.getElem?_eq_some_iff.mp hchan).1]
      exact hchan
    have hzero : t.g.slots.getD f 0 = 0 := by
      rw [hslots, List.getD_eq_getElem?_getD]
      exact List.getElem?_getD_replicate_default_eq ..
    have hafter := hot.recorded f chan hchan'
    rw [if_pos hzero, attachments_congr (hi.attached_create hm), hbefore] at hafter
    cases hafter
  | send flag frame =>
    obtain ⟨chan, hchan, hchans, hcases⟩ := produce_send hs
    have hdestroyed : chan.destroyed = true := by
      by_contra hno
      refine hG fun c hc => ?_
      obtain rfl : chan = c := Option.some.inj (hchan.symm.trans hc)
      exact Bool.eq_false_iff.mpr hno
    have hnone := ho.destroyed chan (List.mem_of_getElem? hchan) hdestroyed
    rcases hcases with ⟨h0, -, -⟩ | ⟨-, i, -, hid, -, haside⟩
    · have hone := ho.recorded flag chan hchan
      rw [if_neg h0, hnone] at hone
      cases hone
    · have hafter := hot.destroyed chan (hchans ▸ List.mem_of_getElem? hchan) hdestroyed
      rw [attachments_congr haside.attached, hid, attachments_attach_self] at hafter
      cases hafter
  | destroy flag =>
    obtain ⟨chan, hchan, hchans, -, haside⟩ := produce_destroy hs
    have hbefore := ho.recorded flag chan hchan
    rw [if_neg (show ¬ s.g.slots.getD flag 0 = 0 from hG)] at hbefore
    have hmem : { chan with destroyed := true } ∈ t.chans := by
      rw [hchans]
      exact List.mem_set (List.getElem?_eq_some_iff.mp hchan).1 _
    have hafter := hot.destroyed _ hmem rfl
    rw [attachments_congr haside.attached, hbefore] at hafter
    cases hafter
  | others shm sem gone => exact hG trivial

theorem produce_of_next {a : ProducerAct} (hs : (producer A).next s a = some t) :
    produce A s a = some t :=
  (Option.filter_eq_some_iff.mp hs).1

/-- **One attachment for each channel with an address recorded, and none for the others or for
those destroyed**: this holds in all states of a run if and only if every call is made with care. -/
theorem one_each_iff (A : Setup) (s t : Producer) (as : List ProducerAct) (hs : s.Starts)
    (he : (producer A).exec s as = some t) :
    (producer A).AllStates OneEach s as ↔ (producer A).AllSteps Careful s as := by
  have hfirst : OneEach s := by
    obtain ⟨-, -, -, hchans⟩ := hs
    refine ⟨fun f chan hchan => ?_, fun chan hchan _ => ?_⟩
    · rw [hchans] at hchan
      cases hchan
    · rw [hchans] at hchan
      cases hchan
  constructor
  · intro hall
    exact Machine.allSteps_of_allStates (I := Tidy) (H := fun _ _ => True)
      (fun _ _ _ hu _ _ hv => hu.step (produce_of_next hv))
      (fun _ _ _ hu _ ho hG hv => ho.broken hu hG (produce_of_next hv)) (tidy_start hs)
      Machine.allSteps_true hall he
  · intro hG
    refine (Machine.allStates_of_inductive (P := fun u => Tidy u ∧ OneEach u) ?_
      ⟨tidy_start hs, hfirst⟩ hG).mono fun _ hu => hu.2
    rintro u a v ⟨hu, ho⟩ hGa hv
    exact ⟨hu.step (produce_of_next hv), ho.step hu hGa (produce_of_next hv)⟩

/-- A process that starts without objects. -/
def Producer.initial : Producer := ⟨.initial, .initial, []⟩

theorem starts_initial : Producer.initial.Starts := ⟨rfl, rfl, rfl, rfl⟩

/-- The header `is_used = 1`, and no more. -/
def Frame.header : Frame := .of (some [1, 0, 0, 0]) none

theorem one_each_iff_send : (producer .usual).AllStates OneEach .initial
    [.create 4096, .send 0 .header] := by
  refine (one_each_iff .usual .initial
    (((producer .usual).exec .initial [.create 4096, .send 0 .header]).get (by decide)) _
    starts_initial (Option.some_get _).symm).mpr ?_
  refine ⟨fun slot hslot => absurd hslot List.not_mem_nil, fun t ht => ⟨?_, fun _ _ => trivial⟩⟩
  intro chan hchan
  obtain ⟨ids, hchans, -⟩ := produce_create (produce_of_next ht)
  rw [hchans] at hchan
  obtain rfl : _ = chan := Option.some.inj hchan
  rfl

/-- A second channel is created after a frame has been sent on the first. -/
theorem second_channel_loses_address :
    ∃ t, (producer .usual).exec .initial [.create 4096, .send 0 .header, .create 4096] = some t ∧
      Producer.initial.Starts ∧ ¬ OneEach t := by
  refine ⟨((producer .usual).exec .initial
    [.create 4096, .send 0 .header, .create 4096]).get (by decide), (Option.some_get _).symm,
    starts_initial, fun h => ?_⟩
  exact absurd (h.recorded 0 _ rfl) (by decide)

end EngineerLinux.FrameIpc
