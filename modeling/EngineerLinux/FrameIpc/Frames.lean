import EngineerLinux.FrameIpc.Segments

/-!
# Sending and attaching with calls that fail

`SendSharedFrame` (lines 83-102) and `AttachSharedFrame` (114-122) when `shmat` and `semop` may
fail. Both ignore the result of `sem_op_` (97 and 116). The first looks at the address after it has
used it (88-89), the second not at all.

A run is cut where the address in `g_addr[flag]` is known: there may be a segment there, in use or
free, or it is what a failed `shmat` returned, through which the program looks before it compares.
Each case has one lemma that gives the whole result, and `honest_iff` compares it with what the
caller is told.

- `run_send_attach`, `run_send_again`: the first call on a channel, and a later one;
- `run_sendThrough_busy`, `run_sendThrough_free`, `run_sendThrough_neg`: the three cases;
- `honest_iff`: exactly when **no frame is reported that did not change hands**.
-/

namespace EngineerLinux.FrameIpc

variable {A : Setup} {fails : Nat → Bool} {s : Host} {n : Nat} {g : Globals} {flag : Nat}
  {ids : IpcIds} {frame : Frame} {addr : Int} {e : Named Region} {p : Named Nat}

/-- `shmat` and `semop` may fail. -/
def frameFailure : (c : FrameCall) → Option c.Ans
  | .sysv (.shmat _) | .semop _ _ => some (-1 : Int)
  | _ => none

/-- The kernel, with these failures. -/
abbrev Host.failingFrames (A : Setup) (fails : Nat → Bool) :
    (c : FrameCall) → Host × Nat → c.Ans × (Host × Nat) :=
  Prog.faulty (S := FrameSys) fails frameFailure (Host.sys A)

/-! ## Single calls -/

/-- `shmat` succeeds. -/
def Attachable (s : Host) (ids : IpcIds) (fails : Bool) : Prop :=
  fails = false ∧ ∃ e, s.seg ids.shm_id = some e

/-- `semop` succeeds. -/
def Operable (s : Host) (ids : IpcIds) (op : Int) (fails : Bool) : Prop :=
  fails = false ∧ ∃ p, s.semaphore ids.sem_id = some p ∧ 0 ≤ p.val + op ∧ p.val + op ≤ 32767

theorem sure (c : FrameCall) (h : frameFailure c = none) : Host.failingFrames A fails c (s, n) =
    ((Host.sys A c s).1, (Host.sys A c s).2, n) :=
  Prog.faulty_sure (S := FrameSys) h

theorem shmat_works (hf : fails n = false) (h : s.seg ids.shm_id = some e) :
    Host.failingFrames A fails (.sysv (.shmat ids.shm_id)) (s, n) =
      ((s.next_addr + 1 : Int), s.attach e.id, n + 1) := by
  refine (Prog.faulty_works (S := FrameSys) rfl hf).trans ?_
  simp only [Host.sys, Host.sysv, h]

theorem shmat_refused (h : ¬ Attachable s ids (fails n)) :
    Host.failingFrames A fails (.sysv (.shmat ids.shm_id)) (s, n) = ((-1 : Int), s, n + 1) := by
  cases hf : fails n with
  | true => exact Prog.faulty_fails (S := FrameSys) rfl hf
  | false =>
    refine (Prog.faulty_works (S := FrameSys) rfl hf).trans ?_
    have hseg : s.seg ids.shm_id = none := by
      cases hseg : s.seg ids.shm_id with
      | none => rfl
      | some e => exact absurd ⟨hf, e, hseg⟩ h
    simp only [Host.sys, Host.sysv, hseg]

theorem semop_works {op : Int} (hf : fails n = false) (h : s.semaphore ids.sem_id = some p)
    (hle : 0 ≤ p.val + op ∧ p.val + op ≤ 32767) :
    Host.failingFrames A fails (.semop ids.sem_id op) (s, n) =
      ((0 : Int), { s with sem := s.sem.modify p.id fun val => (val + op).toNat }, n + 1) := by
  refine (Prog.faulty_works (S := FrameSys) rfl hf).trans ?_
  have hnot : ¬(p.val + op < 0 ∨ 32767 < p.val + op) := by omega
  simp only [Host.sys, Host.semop, h, if_neg hnot]

theorem semop_refused {op : Int} (h : ¬ Operable s ids op (fails n)) :
    Host.failingFrames A fails (.semop ids.sem_id op) (s, n) = ((-1 : Int), s, n + 1) := by
  cases hf : fails n with
  | true => exact Prog.faulty_fails (S := FrameSys) rfl hf
  | false =>
    refine (Prog.faulty_works (S := FrameSys) rfl hf).trans ?_
    cases hsem : s.semaphore ids.sem_id with
    | none => simp only [Host.sys, Host.semop, hsem]
    | some p =>
      have hor : p.val + op < 0 ∨ 32767 < p.val + op := by
        by_contra hno
        exact h ⟨hf, p, hsem, by omega, by omega⟩
      simp only [Host.sys, Host.semop, hsem, if_pos hor]

/-- Nothing is attached at `(void *)-1`. -/
theorem mapped_neg (s : Host) : s.mapped (-1) = none := by
  unfold Host.mapped
  rw [attachment_neg]
  rfl

/-- The segment that has just been attached. -/
theorem mapped_attach (h : s.seg ids.shm_id = some e) :
    (s.attach e.id).mapped (s.next_addr + 1) = some e := by
  unfold Host.mapped
  rw [attachment_attach]
  exact KeyTable.get_eq_some_iff.mpr ⟨(seg_eq_some_iff.mp h).1, rfl⟩

/-! ## Copying -/

/-- The frame can be copied into a segment of this size. -/
structure Frame.Fits (frame : Frame) (size : Nat) : Prop where
  extra_nonneg : 0 ≤ frame.extra_len
  nonneg : 0 ≤ frame.len
  total : frame.extra_len + frame.len ≤ size

/-- What `copyTo` does to the bytes. -/
def copied (p : Option (List UInt8)) (len off : Int) (bytes : Nat → UInt8) : Nat → UInt8 :=
  match p with
  | some new => if len > 0 then splice bytes off.toNat new else bytes
  | none => bytes

/-- The bytes of a segment with the frame in it. -/
def Frame.over (frame : Frame) (bytes : Nat → UInt8) : Nat → UInt8 :=
  copied frame.data frame.len frame.extra_len (copied frame.extra_data frame.extra_len 0 bytes)

theorem modify_same (s : Host) (id : Nat) : s.modify id (fun bytes => bytes) = s := by
  unfold Host.modify
  rw [KeyTable.modify_id]

theorem modify_modify (s : Host) (id : Nat) (f f' : (Nat → UInt8) → Nat → UInt8) :
    (s.modify id f).modify id f' = s.modify id fun bytes => f' (f bytes) := by
  unfold Host.modify
  dsimp only
  rw [KeyTable.modify_modify]

theorem mapped_modify {f : (Nat → UInt8) → Nat → UInt8} (h : s.mapped addr = some e) :
    (s.modify e.id f).mapped addr =
      some { e with val := { e.val with bytes := f e.val.bytes } } := by
  obtain ⟨a, ha, hget⟩ := Option.bind_eq_some_iff.mp h
  obtain ⟨he, hid⟩ := KeyTable.get_eq_some_iff.mp hget
  refine Option.bind_eq_some_iff.mpr ⟨a, ha, ?_⟩
  exact KeyTable.get_eq_some_iff.mpr ⟨KeyTable.mem_modify_self he, hid⟩

theorem run_copyTo {p : Option (List UInt8)} {len off : Int} (h : s.mapped addr = some e)
    (hoff : 0 ≤ off) (hle : off + len ≤ e.val.size)
    (hp : ∀ bytes, p = some bytes → bytes.length = len.toNat) :
    (copyTo p len addr off).run (Host.failingFrames A fails) (s, n) =
      ((), s.modify e.id (copied p len off), n) := by
  cases p with
  | none =>
    show ((), s, n) = ((), s.modify e.id (fun bytes => bytes), n)
    rw [modify_same]
  | some bytes =>
    unfold copyTo copied
    dsimp only
    by_cases hpos : len > 0
    · have hfits : 0 ≤ off ∧ off + bytes.length ≤ e.val.size := by
        have := hp bytes rfl
        omega
      simp only [if_pos hpos]
      rw [Prog.run_call_of (sure (.memcpyTo addr off bytes) rfl), Prog.run_ret]
      simp only [Host.sys, h, if_pos hfits]
    · simp only [if_neg hpos]
      rw [Prog.run_ret, modify_same]

theorem run_copies (A : Setup) (fails : Nat → Bool) (n : Nat) (h : s.mapped addr = some e)
    (hfits : frame.Fits e.val.size) :
    (copyTo frame.extra_data frame.extra_len addr 0).run (Host.failingFrames A fails) (s, n) =
        ((), s.modify e.id (copied frame.extra_data frame.extra_len 0), n) ∧
      (copyTo frame.data frame.len addr frame.extra_len).run (Host.failingFrames A fails)
        (s.modify e.id (copied frame.extra_data frame.extra_len 0), n) =
        ((), s.modify e.id frame.over, n) := by
  have htotal := hfits.total
  have hnonneg := hfits.nonneg
  have hextra := hfits.extra_nonneg
  constructor
  · exact run_copyTo h (Int.le_refl 0) (by omega) frame.extra_readable
  · refine (run_copyTo (mapped_modify h) hextra htotal frame.data_readable).trans ?_
    dsimp only
    rw [modify_modify]
    rfl

/-! ## `SendSharedFrame` -/

theorem run_load (h : s.mapped addr = some e) :
    Host.failingFrames A fails (.load addr) (s, n) = (e.val.busy, s, n) := by
  refine (sure _ rfl).trans ?_
  simp only [Host.sys, h]

/-- The segment is in use. -/
theorem run_sendThrough_busy (h : s.mapped addr = some e) (hbusy : e.val.busy ≠ 0) :
    (sendThrough g addr ids frame).run (Host.failingFrames A fails) (s, n) = ((g, -1), s, n) := by
  unfold sendThrough
  rw [Prog.run_call_of (run_load h), if_neg hbusy, Prog.run_ret]

/-- The frame is copied; it is published if V takes effect. The return value is 0 anyway. -/
theorem run_sendThrough_free (A : Setup) (fails : Nat → Bool) (n : Nat) (g : Globals)
    (ids : IpcIds) (h : s.mapped addr = some e) (hbusy : e.val.busy = 0)
    (hfits : frame.Fits e.val.size) :
    ∃ sem : KeyTable Nat,
      (sendThrough g addr ids frame).run (Host.failingFrames A fails) (s, n) =
        ((g, 0), { s.modify e.id frame.over with sem }, n + 1) ∧
      (Operable s ids 1 (fails n) → ∃ p, s.semaphore ids.sem_id = some p ∧
        sem = s.sem.modify p.id fun val => val + 1) ∧
      (¬ Operable s ids 1 (fails n) → sem = s.sem) := by
  obtain ⟨hextra, hdata⟩ := run_copies A fails n h hfits
  have haddr : addr ≠ -1 := by
    rintro rfl
    rw [mapped_neg] at h
    cases h
  have hv : ∃ (r : Int) (sem : KeyTable Nat),
      Host.failingFrames A fails (.semop ids.sem_id 1) (s.modify e.id frame.over, n) =
        (r, { s.modify e.id frame.over with sem }, n + 1) ∧
      (Operable s ids 1 (fails n) → ∃ p, s.semaphore ids.sem_id = some p ∧
        sem = s.sem.modify p.id fun val => val + 1) ∧
      (¬ Operable s ids 1 (fails n) → sem = s.sem) := by
    by_cases hop : Operable s ids 1 (fails n)
    · obtain ⟨hf, p, hp, hle⟩ := hop
      exact ⟨_, _, semop_works hf hp hle, fun _ => ⟨p, hp, rfl⟩, fun hno =>
        absurd ⟨hf, p, hp, hle⟩ hno⟩
    · exact ⟨_, _, semop_refused hop, fun hyes => absurd hyes hop, fun _ => rfl⟩
  obtain ⟨r, sem, hsemop, heffect⟩ := hv
  refine ⟨sem, ?_, heffect⟩
  unfold sendThrough
  rw [Prog.run_call_of (run_load h), if_pos hbusy, if_neg haddr, Prog.run_bind, hextra]
  dsimp only
  rw [Prog.run_bind, hdata]
  dsimp only
  rw [Prog.run_bind, sem_op_, if_neg (by decide), Prog.run_call_of hsemop, Prog.run_ret,
    Prog.run_ret]

/-- The failure address is looked through before it is compared. -/
theorem run_sendThrough_neg :
    (sendThrough g (-1) ids frame).run (Host.failingFrames A fails) (s, n) =
      ((g, -1), { s with wild := true }, n) := by
  have hload : Host.failingFrames A fails (.load (-1)) (s, n) =
      ((0 : Int), { s with wild := true }, n) := by
    refine (sure _ rfl).trans ?_
    simp only [Host.sys, mapped_neg]
  unfold sendThrough
  rw [Prog.run_call_of hload, if_pos rfl, if_pos rfl, Prog.run_ret]

/-- The first time, the segment is attached. -/
theorem run_send_attach (h0 : g.slots.getD flag 0 = 0) (hf : fails n = false)
    (h : s.seg ids.shm_id = some e) :
    (SendSharedFrame g flag ids frame).run (Host.failingFrames A fails) (s, n) =
      (sendThrough { g with slots := g.slots.set flag (s.next_addr + 1) } (s.next_addr + 1) ids
        frame).run (Host.failingFrames A fails) (s.attach e.id, n + 1) := by
  unfold SendSharedFrame
  rw [if_pos h0, Prog.run_call_of (shmat_works hf h)]

theorem run_send_again (h0 : g.slots.getD flag 0 ≠ 0) :
    SendSharedFrame g flag ids frame = sendThrough g (g.slots.getD flag 0) ids frame :=
  if_neg h0

/-- What `g_addr[flag]` may be: `NULL`, what `shmat` returned when it failed, or where the segment
of the channel is attached. -/
def Recorded (s : Host) (ids : IpcIds) (slot : Int) : Prop :=
  slot = 0 ∨ slot = -1 ∨ ∃ e, s.mapped slot = some e ∧ s.seg ids.shm_id = some e

/-- `SendSharedFrame` has told the truth: 0 for a frame that is in the segment and published, -1 if
nothing has happened. -/
structure SendHonest (s : Host) (g : Globals) (flag : Nat) (ids : IpcIds) (frame : Frame)
    (out : (Globals × Int) × Host × Nat) : Prop where
  published : out.1.2 = 0 → ∃ e p, s.seg ids.shm_id = some e ∧ s.semaphore ids.sem_id = some p ∧
    out.2.1.shm = s.shm.modify e.id (fun r => { r with bytes := frame.over r.bytes }) ∧
    out.2.1.sem = s.sem.modify p.id fun val => val + 1
  refused : out.1.2 = -1 → out.2.1.shm = s.shm ∧ out.1.1.slots.getD flag 0 = g.slots.getD flag 0
  wild : out.2.1.wild = false

/-- The first call on a channel finds everything as it should be, and a later one has an address
and, if the segment is free, a V that succeeds. -/
def SendUndisturbed (fails : Nat → Bool) (s : Host) (g : Globals) (flag : Nat) (ids : IpcIds) :
    Prop :=
  if g.slots.getD flag 0 = 0 then
    fails 0 = false ∧ (∃ e, s.seg ids.shm_id = some e ∧ e.val.busy = 0) ∧ Operable s ids 1 (fails 1)
  else
    g.slots.getD flag 0 ≠ -1 ∧
      ((∃ e, s.seg ids.shm_id = some e ∧ e.val.busy ≠ 0) ∨ Operable s ids 1 (fails 0))

/-- With the segment attached: a busy one is left alone, a free one is written, and then everything
depends on V. -/
theorem sendThrough_honest_iff {s' : Host} {g' : Globals} (h : s'.mapped addr = some e)
    (hseg : s.seg ids.shm_id = some e) (hshm : s'.shm = s.shm) (hsem : s'.sem = s.sem)
    (hwild : s'.wild = false) (hfits : frame.Fits e.val.size) :
    SendHonest s g flag ids frame
        ((sendThrough g' addr ids frame).run (Host.failingFrames A fails) (s', n)) ↔
      (e.val.busy ≠ 0 ∧ g'.slots.getD flag 0 = g.slots.getD flag 0) ∨
      (e.val.busy = 0 ∧ Operable s ids 1 (fails n)) := by
  have hoperable : Operable s' ids 1 (fails n) ↔ Operable s ids 1 (fails n) := by
    unfold Operable Host.semaphore
    rw [hsem]
  by_cases hbusy : e.val.busy = 0
  · obtain ⟨sem, hrun, hyes, hno⟩ := run_sendThrough_free A fails n g' ids h hbusy hfits
    rw [hrun]
    constructor
    · intro hhonest
      refine .inr ⟨hbusy, ?_⟩
      by_contra hop
      obtain ⟨-, p, -, hp, -, hv⟩ := hhonest.published rfl
      have hne := KeyTable.modify_ne (f := fun val => val + 1) (semaphore_eq_some_iff.mp hp).1
        (Nat.succ_ne_self _)
      exact hne ((hno (mt hoperable.mp hop) ▸ hsem).symm.trans hv)
    · rintro (⟨hne, -⟩ | ⟨-, hop⟩)
      · exact absurd hbusy hne
      · obtain ⟨p, hp, hv⟩ := hyes (hoperable.mpr hop)
        unfold Host.semaphore at hp
        rw [hsem] at hp hv
        refine ⟨fun _ => ⟨e, p, hseg, hp, ?_, hv⟩, nofun, hwild⟩
        show s'.shm.modify e.id (fun r => { r with bytes := frame.over r.bytes }) = _
        rw [hshm]
  · rw [run_sendThrough_busy h hbusy]
    constructor
    · exact fun hhonest => .inl ⟨hbusy, (hhonest.refused rfl).2⟩
    · rintro (⟨-, hslot⟩ | ⟨hzero, -⟩)
      · exact ⟨nofun, fun _ => ⟨hshm, hslot⟩, hwild⟩
      · exact absurd hzero hbusy

theorem send_honest_iff (A : Setup) (fails : Nat → Bool) (g : Globals) (flag : Nat) (frame : Frame)
    (hwild : s.wild = false) (hflag : flag < g.slots.length)
    (hslot : Recorded s ids (g.slots.getD flag 0))
    (hfits : ∀ e, s.seg ids.shm_id = some e → frame.Fits e.val.size) :
    SendHonest s g flag ids frame
        ((SendSharedFrame g flag ids frame).run (Host.failingFrames A fails) (s, 0)) ↔
      SendUndisturbed fails s g flag ids := by
  unfold SendUndisturbed
  by_cases h0 : g.slots.getD flag 0 = 0
  · rw [if_pos h0]
    by_cases hattach : Attachable s ids (fails 0)
    · obtain ⟨hf, e, hseg⟩ := hattach
      rw [run_send_attach h0 hf hseg, sendThrough_honest_iff (mapped_attach hseg) hseg rfl rfl hwild
        (hfits e hseg)]
      constructor
      · rintro (⟨-, hsame⟩ | ⟨hbusy, hop⟩)
        · -- the address has been recorded, and is not `NULL`
          rw [h0] at hsame
          simp only [List.getD_eq_getElem?_getD, List.getElem?_set_self hflag,
            Option.getD_some] at hsame
          omega
        · exact ⟨hf, ⟨e, hseg, hbusy⟩, hop⟩
      · rintro ⟨-, ⟨e', hseg', hbusy⟩, hop⟩
        rw [hseg] at hseg'
        cases hseg'
        exact .inr ⟨hbusy, hop⟩
    · -- `shmat` fails
      have hrun : (SendSharedFrame g flag ids frame).run (Host.failingFrames A fails) (s, 0) =
          (({ g with slots := g.slots.set flag (-1) }, -1), { s with wild := true }, 1) := by
        unfold SendSharedFrame
        rw [if_pos h0, Prog.run_call_of (shmat_refused hattach), run_sendThrough_neg]
      rw [hrun]
      constructor
      · intro hhonest
        cases hhonest.wild
      · rintro ⟨hf, ⟨e, hseg, -⟩, -⟩
        exact absurd ⟨hf, e, hseg⟩ hattach
  · rw [if_neg h0, run_send_again h0]
    rcases hslot with hslot | hslot | ⟨e, hmapped, hseg⟩
    · exact absurd hslot h0
    · rw [hslot, run_sendThrough_neg]
      constructor
      · intro hhonest
        cases hhonest.wild
      · exact fun hno => absurd rfl hno.1
    · have hneg : g.slots.getD flag 0 ≠ -1 := by
        intro hneg
        rw [hneg, mapped_neg] at hmapped
        cases hmapped
      rw [sendThrough_honest_iff hmapped hseg rfl rfl hwild (hfits e hseg)]
      constructor
      · rintro (⟨hbusy, -⟩ | ⟨-, hop⟩)
        · exact ⟨hneg, .inl ⟨e, hseg, hbusy⟩⟩
        · exact ⟨hneg, .inr hop⟩
      · rintro ⟨-, ⟨e', hseg', hbusy⟩ | hop⟩
        · rw [hseg] at hseg'
          cases hseg'
          exact .inl ⟨hbusy, rfl⟩
        · by_cases hbusy : e.val.busy = 0
          · exact .inr ⟨hbusy, hop⟩
          · exact .inl ⟨hbusy, rfl⟩

/-! ## `AttachSharedFrame` -/

/-- `AttachSharedFrame` has told the truth: with an address, it has taken one unit, and has copied
what is in the segment, which is attached there. -/
structure AttachHonest (s : Host) (ids : IpcIds) (len : Int)
    (out : (Int × List UInt8) × Host × Nat) : Prop where
  taken : out.1.1 ≠ -1 → ∃ e p, s.seg ids.shm_id = some e ∧ s.semaphore ids.sem_id = some p ∧
    1 ≤ p.val ∧ out.2.1.sem = (s.sem.modify p.id fun val => val - 1) ∧
    out.2.1.mapped out.1.1 = some e ∧ out.1.2 = (List.range len.toNat).map e.val.bytes
  wild : out.2.1.wild = false

/-- P and `shmat` succeed; or `shmat` fails, and there is nothing to copy. -/
def AttachUndisturbed (fails : Nat → Bool) (s : Host) (ids : IpcIds) (len : Int) : Prop :=
  (Operable s ids (-1) (fails 0) ∧ Attachable s ids (fails 1)) ∨
    (¬ Attachable s ids (fails 1) ∧ len = 0)

/-- P, whose result is ignored. -/
theorem run_p (A : Setup) (fails : Nat → Bool) (s : Host) (n : Nat) (ids : IpcIds) :
    ∃ (r : Int) (sem : KeyTable Nat),
      (sem_op_ 'p' ids.sem_id).run (Host.failingFrames A fails) (s, n) =
        (r, { s with sem }, n + 1) ∧
      (Operable s ids (-1) (fails n) → ∃ p, s.semaphore ids.sem_id = some p ∧ 1 ≤ p.val ∧
        sem = s.sem.modify p.id fun val => val - 1) ∧
      (¬ Operable s ids (-1) (fails n) → sem = s.sem) := by
  unfold sem_op_
  rw [if_pos rfl]
  by_cases hop : Operable s ids (-1) (fails n)
  · obtain ⟨hf, p, hp, hle⟩ := hop
    refine ⟨_, _, Prog.run_call_of (semop_works hf hp hle), fun _ => ⟨p, hp, by omega, ?_⟩,
      fun hno => absurd ⟨hf, p, hp, hle⟩ hno⟩
    congr 1
    funext val
    omega
  · exact ⟨_, _, Prog.run_call_of (semop_refused hop), fun hyes => absurd hyes hop, fun _ => rfl⟩

theorem attach_honest_iff (A : Setup) (fails : Nat → Bool) (len : Int) (hwild : s.wild = false)
    (hlen : 0 ≤ len) (hfits : ∀ e, s.seg ids.shm_id = some e → len ≤ e.val.size) :
    AttachHonest s ids len ((AttachSharedFrame ids len).run (Host.failingFrames A fails) (s, 0)) ↔
      AttachUndisturbed fails s ids len := by
  obtain ⟨r, sem, hp, hyes, hno⟩ := run_p A fails s 0 ids
  have hrun : (AttachSharedFrame ids len).run (Host.failingFrames A fails) (s, 0) =
      (Prog.call (S := FrameSys) (.sysv (.shmat ids.shm_id)) fun (addr : Int) =>
        .call (.memcpyFrom addr len) fun (frame : List UInt8) => .ret (addr, frame)).run
        (Host.failingFrames A fails) ({ s with sem }, 1) := by
    unfold AttachSharedFrame
    rw [Prog.run_bind, hp]
  rw [hrun]
  unfold AttachUndisturbed
  by_cases hattach : Attachable s ids (fails 1)
  · obtain ⟨hf, e, hseg⟩ := hattach
    -- the bytes are copied, whether P has taken a unit or not
    have hmapped : (Host.attach { s with sem } e.id).mapped (s.next_addr + 1) = some e :=
      mapped_attach (s := { s with sem }) hseg
    have hcopy : Host.failingFrames A fails (.memcpyFrom (s.next_addr + 1) len)
        (Host.attach { s with sem } e.id, 2) =
        ((List.range len.toNat).map e.val.bytes, Host.attach { s with sem } e.id, 2) := by
      refine (sure _ rfl).trans ?_
      by_cases h0 : len = 0
      · subst h0
        rfl
      · simp only [Host.sys, if_neg h0, hmapped, if_pos (And.intro hlen (hfits e hseg))]
    rw [Prog.run_call_of (shmat_works (s := { s with sem }) hf hseg), Prog.run_call_of hcopy,
      Prog.run_ret]
    constructor
    · intro hhonest
      refine .inl ⟨?_, hf, e, hseg⟩
      by_contra hop
      have haddr : (s.next_addr + 1 : Int) ≠ -1 := by omega
      obtain ⟨-, p, -, hsem, hpos, hv, -⟩ := hhonest.taken haddr
      have hne := KeyTable.modify_ne (f := fun val => val - 1) (semaphore_eq_some_iff.mp hsem).1
        (Nat.ne_of_lt (Nat.sub_lt hpos Nat.one_pos))
      exact hne ((hno hop).symm.trans hv)
    · rintro (⟨hop, -⟩ | ⟨hno, -⟩)
      · obtain ⟨p, hsem, hpos, hv⟩ := hyes hop
        exact ⟨fun _ => ⟨e, p, hseg, hsem, hpos, hv, hmapped, rfl⟩, hwild⟩
      · exact absurd ⟨hf, e, hseg⟩ hno
  · rw [Prog.run_call_of (shmat_refused (s := { s with sem }) hattach)]
    by_cases h0 : len = 0
    · subst h0
      rw [Prog.run_call_of (sure (.memcpyFrom (-1) 0) rfl), Prog.run_ret]
      exact iff_of_true ⟨fun hne => absurd rfl hne, hwild⟩ (.inr ⟨hattach, rfl⟩)
    · have hcopy : Host.failingFrames A fails (.memcpyFrom (-1) len) ({ s with sem }, 2) =
          ([], { s with sem, wild := true }, 2) := by
        refine (sure _ rfl).trans ?_
        simp only [Host.sys, if_neg h0, mapped_neg]
      rw [Prog.run_call_of hcopy, Prog.run_ret]
      refine iff_of_false (fun hhonest => by cases hhonest.wild) ?_
      rintro (⟨-, hyes⟩ | ⟨-, hzero⟩)
      · exact hattach hyes
      · exact h0 hzero

/-! ## Both -/

/-- What a caller promises: the channel has been created, the frame fits into its segment, and so
does the copy. -/
structure Promised (s : Host) (g : Globals) (flag : Nat) (ids : IpcIds) (frame : Frame)
    (len : Int) : Prop where
  wild : s.wild = false
  flag_lt : flag < g.slots.length
  recorded : Recorded s ids (g.slots.getD flag 0)
  fits : ∀ e, s.seg ids.shm_id = some e → frame.Fits e.val.size
  len_nonneg : 0 ≤ len
  len_le : ∀ e, s.seg ids.shm_id = some e → len ≤ e.val.size

/-- **No frame is reported that did not change hands**, exactly if no call fails whose result is
ignored, or is looked at too late, and if the first frame on a channel finds the segment free. -/
theorem honest_iff (A : Setup) (fails : Nat → Bool) (s : Host) (g : Globals) (flag : Nat)
    (ids : IpcIds) (frame : Frame) (len : Int) (h : Promised s g flag ids frame len) :
    (SendHonest s g flag ids frame
        ((SendSharedFrame g flag ids frame).run (Host.failingFrames A fails) (s, 0)) ↔
      SendUndisturbed fails s g flag ids) ∧
    (AttachHonest s ids len
        ((AttachSharedFrame ids len).run (Host.failingFrames A fails) (s, 0)) ↔
      AttachUndisturbed fails s ids len) :=
  ⟨send_honest_iff A fails g flag frame h.wild h.flag_lt h.recorded h.fits,
    attach_honest_iff A fails len h.wild h.len_nonneg h.len_le⟩

/-- A channel with a segment of 1028 bytes, just created. -/
def Host.created : Host where
  shm := ⟨[⟨0, 7, .new 1028⟩], List.pairwise_singleton .., List.pairwise_singleton ..⟩
  sem := ⟨[⟨0, 7, 0⟩], List.pairwise_singleton .., List.pairwise_singleton ..⟩
  attached := []
  next_addr := 0
  gone := []
  wild := false

/-- The header `is_used = 1`, and one byte. -/
def Frame.used : Frame := .of (some [1, 0, 0, 0]) (some [104])

theorem promised_created : Promised .created ⟨1, 1, [0]⟩ 0 ⟨0, 0⟩ .used 16 := by
  have hseg : Host.created.seg 0 = some ⟨0, 7, .new 1028⟩ := rfl
  refine ⟨rfl, by decide, .inl rfl, ?_, by decide, ?_⟩
  · rw [hseg]
    rintro _ ⟨⟩
    exact ⟨by decide, by decide, by decide⟩
  · rw [hseg]
    rintro _ ⟨⟩
    decide

theorem honest_iff_created : SendHonest .created ⟨1, 1, [0]⟩ 0 ⟨0, 0⟩ .used
    ((SendSharedFrame ⟨1, 1, [0]⟩ 0 ⟨0, 0⟩ .used).run (Host.failingFrames .usual fun _ => false)
      (.created, 0)) := by
  refine (honest_iff .usual _ .created _ 0 _ .used 16 promised_created).1.mpr ?_
  unfold SendUndisturbed
  rw [if_pos (by decide)]
  exact ⟨rfl, ⟨_, rfl, rfl⟩, rfl, _, rfl, by decide, by decide⟩

/-- The first `shmat` fails. -/
theorem send_looks_through_failure :
    Promised .created ⟨1, 1, [0]⟩ 0 ⟨0, 0⟩ .used 16 ∧
    ¬ SendHonest .created ⟨1, 1, [0]⟩ 0 ⟨0, 0⟩ .used
      ((SendSharedFrame ⟨1, 1, [0]⟩ 0 ⟨0, 0⟩ .used).run
        (Host.failingFrames .usual fun i => i = 0) (.created, 0)) := by
  have hp := promised_created
  refine ⟨hp, fun h => ?_⟩
  have hall := (send_honest_iff _ _ _ _ _ hp.wild hp.flag_lt hp.recorded hp.fits).mp h
  exact absurd hall.1 (by decide)

end EngineerLinux.FrameIpc
