import EngineerLinux.FrameIpc.Channel
import EngineerLinux.FrameIpc.Frames

/-!
# What protects a frame

The channel again, with frames of any kind: two `memcpy`s (lines 93-96), either of which may have
nothing to copy, into the bytes of the segment. No word is written to say that the segment is in
use. The first four bytes of the frame do that, if they are not all 0, and the test of line 88 looks
at them.

The bytes are copied one at a time, in any order, with steps of the consumers in between. While a
frame that marks the segment is copied, its first four bytes are in their place or still to be
written (`Copying`), so in the end the first word is not 0, and from there on nobody gets past the
test until the one consumer that has a unit clears the word (line 126).

- `Marks`: the frame marks the segment, with `marks_iff`;
- `exec_send_agrees`: byte by byte, a call that nobody interrupts does what it does in one go;
- `Inv`: the three states of the segment, and `Inv.step`, from one lemma for each kind of step;
- `protected_of_guarded`: **a published frame is protected** in every run in which all frames that
  are copied mark the segment, and in which no P is refused.
-/

namespace EngineerLinux.FrameIpc

open Kernel

/-- What `if (p != NULL && len > 0) memcpy(.., p, len)` copies. -/
def toCopy (p : Option (List UInt8)) (len : Int) : List UInt8 :=
  match p with
  | some bytes => if len > 0 then bytes else []
  | none => []

def Frame.extraBytes (frame : Frame) : List UInt8 := toCopy frame.extra_data frame.extra_len

def Frame.dataBytes (frame : Frame) : List UInt8 := toCopy frame.data frame.len

/-- Its first four bytes are not all 0, where it has none the ones of a free segment being taken. -/
def Marks (frame : Frame) : Prop := word (frame.over fun _ => 0) ≠ 0

instance (frame : Frame) : Decidable (Marks frame) := inferInstanceAs (Decidable (_ ≠ _))

theorem splice_nil (bytes : Nat → UInt8) (off : Nat) : splice bytes off [] = bytes := by
  funext i
  unfold splice
  rw [List.length_nil, if_neg (by omega)]

theorem copied_eq (p : Option (List UInt8)) (len off : Int) (bytes : Nat → UInt8) :
    copied p len off bytes = splice bytes off.toNat (toCopy p len) := by
  cases p with
  | none => exact (splice_nil ..).symm
  | some new =>
    unfold copied toCopy
    dsimp only
    by_cases hlen : len > 0
    · rw [if_pos hlen, if_pos hlen]
    · rw [if_neg hlen, if_neg hlen, splice_nil]

/-- The two `memcpy`s, one after the other. -/
theorem over_eq (frame : Frame) (bytes : Nat → UInt8) : frame.over bytes =
    splice (splice bytes 0 frame.extraBytes) frame.extra_len.toNat frame.dataBytes := by
  unfold Frame.over
  rw [copied_eq, copied_eq]
  rfl

theorem marks_iff (frame : Frame) : Marks frame ↔ ∃ k < 4, frame.over (fun _ => 0) k ≠ 0 := by
  unfold Marks
  rw [ne_eq, word_eq_zero_iff]
  simp only [not_forall, exists_prop]

namespace Protect

/-! ## The machine -/

/-- Program points of the producer. -/
inductive SendPc where
  | idle
  /-- `if (g_addr[flag] == NULL) g_addr[flag] = shmat(..)`. -/
  | map (frame : Frame)
  /-- `*(int *)(g_addr[flag]) == 0`. -/
  | test (frame : Frame)
  /-- The first `memcpy`, with the bytes still to copy. -/
  | extra (frame : Frame) (todo : Finset Nat)
  /-- The second one; then `sem_op_('v', ..)`. -/
  | data (frame : Frame) (todo : Finset Nat)

/-- Program points of a consumer. -/
inductive GetPc where
  /-- `sem_op_('p', ..)`. -/
  | wait
  /-- `shmat`. -/
  | attach
  /-- The `memcpy` of `AttachSharedFrame` and later reads, with the bytes read so far; then
  `DeattachSharedFrame`, that is `*(int *)addr = 0`. -/
  | hold (got : Nat → Option UInt8)
  /-- `shmdt`. -/
  | detach

structure State (ι : Type) where
  /-- The segment. -/
  bytes : Nat → UInt8
  sem : Sem (Proc ι)
  /-- `g_addr[flag] != NULL`. -/
  mapped : Bool
  send : SendPc
  get : ι → GetPc
  /-- The segment when a `SendSharedFrame` returned 0 last, until a consumer that has taken this
  frame clears the first word. -/
  published : Option (Nat → UInt8)
  /-- How many times `SendSharedFrame` has returned 0. -/
  count : Nat
  /-- Which frame a consumer has taken, as its P succeeded. -/
  took : ι → Option Nat

/-- After `CreateSharedFrame`. -/
def State.fresh (ι : Type) (bytes : Nat → UInt8) : State ι where
  bytes := bytes
  sem := .zero _
  mapped := false
  send := .idle
  get := fun _ => .wait
  published := none
  count := 0
  took := fun _ => none

variable {ι : Type} [DecidableEq ι]

/-- The next step of `SendSharedFrame` that is not one of the bytes copied. -/
def sendSharedFrame (L : SemLimits) (s : State ι) : Option (State ι) :=
  match s.send with
  | .idle => none
  | .map frame => some { s with mapped := true, send := .test frame }
  | .test frame =>
    if word s.bytes = 0 then
      some { s with send := .extra frame (Finset.range frame.extraBytes.length) }
    else some { s with send := .idle }
  | .extra frame todo =>
    if todo = ∅ then some { s with send := .data frame (Finset.range frame.dataBytes.length) }
    else none
  | .data _ todo =>
    if todo = ∅ then
      match semOp L 'v' s.sem .producer with
      | .done sem =>
        some { s with sem, send := .idle, published := some s.bytes, count := s.count + 1 }
      | .erange => some { s with send := .idle, published := some s.bytes, count := s.count + 1 }
      | .blocks => none
    else none

/-- One byte of a `memcpy`. -/
def copyByte (s : State ι) (i : Nat) : Option (State ι) :=
  match s.send with
  | .extra frame todo =>
    if i ∈ todo then
      some { s with
        bytes := Function.update s.bytes i (frame.extraBytes.getD i 0)
        send := .extra frame (todo.erase i) }
    else none
  | .data frame todo =>
    if i ∈ todo then
      some { s with
        bytes := Function.update s.bytes (frame.extra_len.toNat + i) (frame.dataBytes.getD i 0)
        send := .data frame (todo.erase i) }
    else none
  | _ => none

/-- A consumer moves to another program point. -/
def State.goto (s : State ι) (j : ι) (pc : GetPc) : State ι :=
  { s with get := Function.update s.get j pc }

/-- The next step of consumer `j` that is not one of its reads. -/
def getFrame (L : SemLimits) (s : State ι) (j : ι) : Option (State ι) :=
  match s.get j with
  | .wait =>
    match semOp L 'p' s.sem (.consumer j) with
    | .done sem =>
      some { s.goto j .attach with sem, took := Function.update s.took j (some s.count) }
    | .erange => some { s.goto j .attach with took := Function.update s.took j none }
    | .blocks => none
  | .attach => some (s.goto j (.hold fun _ => none))
  | .hold _ =>
    some { s.goto j .detach with
      bytes := putWord 0 s.bytes
      published := if s.took j = some s.count then none else s.published }
  | .detach => some (s.goto j .wait)

inductive Act (ι : Type) where
  /-- The producer calls `SendSharedFrame`. -/
  | call (frame : Frame)
  | send
  | copy (i : Nat)
  | get (j : ι)
  /-- Consumer `j` reads a byte. -/
  | read (j : ι) (i : Nat)

def step (L : SemLimits) (s : State ι) : Act ι → Option (State ι)
  | .call frame =>
    match s.send with
    | .idle => some { s with send := .map frame }
    | _ => none
  | .send => sendSharedFrame L s
  | .copy i => copyByte s i
  | .get j => getFrame L s j
  | .read j i =>
    match s.get j with
    | .hold got => some (s.goto j (.hold (Function.update got i (some (s.bytes i)))))
    | _ => none

/-- The channel, on a kernel with the given limits: the first word is 0, as is the semaphore. -/
def machine (ι : Type) [DecidableEq ι] (L : SemLimits) : Machine (State ι) (Act ι) where
  init s := ∃ bytes, word bytes = 0 ∧ s = State.fresh ι bytes
  next := step L

/-- What the `SendSharedFrame` returns that ends with this step. -/
def returns (s : State ι) : Act ι → Option Int
  | .send =>
    match s.send with
    | .test _ => if word s.bytes = 0 then none else some (-1)
    | .data _ todo => if todo = ∅ then some 0 else none
    | _ => none
  | _ => none

/-! ## What one step can do -/

inductive Step (L : SemLimits) (s : State ι) : Act ι → State ι → Prop where
  | call (frame) (hpc : s.send = .idle) : Step L s (.call frame) { s with send := .map frame }
  | map (frame) (hpc : s.send = .map frame) :
      Step L s .send { s with mapped := true, send := .test frame }
  | found (frame) (hpc : s.send = .test frame) (hbusy : word s.bytes = 0) :
      Step L s .send
        { s with send := .extra frame (Finset.range frame.extraBytes.length) }
  | notFree (frame) (hpc : s.send = .test frame) (hbusy : word s.bytes ≠ 0) :
      Step L s .send { s with send := .idle }
  | second (frame) (hpc : s.send = .extra frame ∅) :
      Step L s .send { s with send := .data frame (Finset.range frame.dataBytes.length) }
  | publish (frame sem) (hpc : s.send = .data frame ∅)
      (hv : semOp L 'v' s.sem .producer = .done sem) :
      Step L s .send
        { s with sem, send := .idle, published := some s.bytes, count := s.count + 1 }
  | publishFails (frame) (hpc : s.send = .data frame ∅)
      (hv : semOp L 'v' s.sem .producer = .erange) :
      Step L s .send { s with send := .idle, published := some s.bytes, count := s.count + 1 }
  | copyExtra (frame todo i) (hpc : s.send = .extra frame todo) (hi : i ∈ todo) :
      Step L s (.copy i) { s with
        bytes := Function.update s.bytes i (frame.extraBytes.getD i 0)
        send := .extra frame (todo.erase i) }
  | copyData (frame todo i) (hpc : s.send = .data frame todo) (hi : i ∈ todo) :
      Step L s (.copy i) { s with
        bytes := Function.update s.bytes (frame.extra_len.toNat + i) (frame.dataBytes.getD i 0)
        send := .data frame (todo.erase i) }
  | take (j sem) (hpc : s.get j = .wait) (hp : semOp L 'p' s.sem (.consumer j) = .done sem) :
      Step L s (.get j)
        { s.goto j .attach with sem, took := Function.update s.took j (some s.count) }
  | takeFails (j) (hpc : s.get j = .wait) (hp : semOp L 'p' s.sem (.consumer j) = .erange) :
      Step L s (.get j) { s.goto j .attach with took := Function.update s.took j none }
  | attach (j) (hpc : s.get j = .attach) : Step L s (.get j) (s.goto j (.hold fun _ => none))
  | clear (j got) (hpc : s.get j = .hold got) :
      Step L s (.get j) { s.goto j .detach with
        bytes := putWord 0 s.bytes
        published := if s.took j = some s.count then none else s.published }
  | detach (j) (hpc : s.get j = .detach) : Step L s (.get j) (s.goto j .wait)
  | read (j i got) (hpc : s.get j = .hold got) :
      Step L s (.read j i) (s.goto j (.hold (Function.update got i (some (s.bytes i)))))

theorem sendSharedFrame_inv {L : SemLimits} {s s' : State ι} (h : sendSharedFrame L s = some s') :
    Step L s .send s' := by
  unfold sendSharedFrame at h
  cases hpc : s.send with
  | idle => simp only [hpc, reduceCtorEq] at h
  | map frame =>
    simp only [hpc, Option.some.injEq] at h
    exact h ▸ .map frame hpc
  | test frame =>
    simp only [hpc] at h
    split at h
    · next hbusy => exact Option.some.inj h ▸ .found frame hpc hbusy
    · next hbusy => exact Option.some.inj h ▸ .notFree frame hpc hbusy
  | extra frame todo =>
    simp only [hpc] at h
    split at h
    · next hnil => exact Option.some.inj h ▸ .second frame (hnil ▸ hpc)
    · cases h
  | data frame todo =>
    simp only [hpc] at h
    split at h
    · next hnil =>
      subst hnil
      cases hv : semOp L 'v' s.sem .producer with
      | done sem =>
        simp only [hv, Option.some.injEq] at h
        exact h ▸ .publish frame sem hpc hv
      | erange =>
        simp only [hv, Option.some.injEq] at h
        exact h ▸ .publishFails frame hpc hv
      | blocks => simp only [hv, reduceCtorEq] at h
    · cases h

theorem getFrame_inv {L : SemLimits} {s s' : State ι} {j : ι} (h : getFrame L s j = some s') :
    Step L s (.get j) s' := by
  unfold getFrame at h
  cases hpc : s.get j with
  | wait =>
    simp only [hpc] at h
    cases hp : semOp L 'p' s.sem (.consumer j) with
    | done sem =>
      simp only [hp, Option.some.injEq] at h
      exact h ▸ .take j sem hpc hp
    | erange =>
      simp only [hp, Option.some.injEq] at h
      exact h ▸ .takeFails j hpc hp
    | blocks => simp only [hp, reduceCtorEq] at h
  | attach =>
    simp only [hpc, Option.some.injEq] at h
    exact h ▸ .attach j hpc
  | hold got =>
    simp only [hpc, Option.some.injEq] at h
    exact h ▸ .clear j got hpc
  | detach =>
    simp only [hpc, Option.some.injEq] at h
    exact h ▸ .detach j hpc

/-- Every step is one of the fifteen. -/
theorem step_inv {L : SemLimits} {s s' : State ι} {a : Act ι} (h : step L s a = some s') :
    Step L s a s' := by
  cases a with
  | call frame =>
    cases hpc : s.send with
    | idle =>
      simp only [step, hpc, Option.some.injEq] at h
      exact h ▸ .call frame hpc
    | _ => simp only [step, hpc, reduceCtorEq] at h
  | send => exact sendSharedFrame_inv h
  | copy i =>
    cases hpc : s.send with
    | extra frame todo =>
      simp only [step, copyByte, hpc] at h
      split at h
      · next hi => exact Option.some.inj h ▸ .copyExtra frame todo i hpc hi
      · cases h
    | data frame todo =>
      simp only [step, copyByte, hpc] at h
      split at h
      · next hi => exact Option.some.inj h ▸ .copyData frame todo i hpc hi
      · cases h
    | _ => simp only [step, copyByte, hpc, reduceCtorEq] at h
  | get j => exact getFrame_inv h
  | read j i =>
    cases hpc : s.get j with
    | hold got =>
      simp only [step, hpc, Option.some.injEq] at h
      exact h ▸ .read j i got hpc
    | _ => simp only [step, hpc, reduceCtorEq] at h

/-! ## The first word while it is copied -/

/-- The producer has not found the segment free. -/
def SendPc.outside : SendPc → Prop
  | .idle | .map _ | .test _ => True
  | .extra _ _ | .data _ _ => False

/-- The consumer is between its P and the clearing of the first word. -/
def GetPc.holding : GetPc → Prop
  | .attach | .hold _ => True
  | .wait | .detach => False

/-- Of a frame that marks the segment, the first four bytes are in their place or will be. -/
def Copying (bytes : Nat → UInt8) : SendPc → Prop
  | .extra frame todo => Marks frame ∧ (∀ i ∈ todo, i < frame.extraBytes.length) ∧
      ∀ k < 4, bytes k = frame.over (fun _ => 0) k ∨ k ∈ todo ∨
        frame.extra_len.toNat ≤ k ∧ k < frame.extra_len.toNat + frame.dataBytes.length
  | .data frame todo => Marks frame ∧ (∀ i ∈ todo, i < frame.dataBytes.length) ∧
      ∀ k < 4, bytes k = frame.over (fun _ => 0) k ∨ ∃ i ∈ todo, k = frame.extra_len.toNat + i
  | _ => False

variable {frame : Frame} {bytes : Nat → UInt8} {todo : Finset Nat} {i k : Nat}

/-- The frame over a segment of zeros, byte by byte. -/
theorem over_zero (frame : Frame) (k : Nat) : frame.over (fun _ => 0) k =
    if frame.extra_len.toNat ≤ k ∧ k < frame.extra_len.toNat + frame.dataBytes.length then
      frame.dataBytes.getD (k - frame.extra_len.toNat) 0
    else if k < frame.extraBytes.length then frame.extraBytes.getD k 0
    else 0 := by
  rw [over_eq]
  simp only [splice, Nat.zero_le, true_and, Nat.zero_add, Nat.sub_zero]

theorem Copying.found (hmarks : Marks frame) (hfree : word bytes = 0) :
    Copying bytes (.extra frame (Finset.range frame.extraBytes.length)) := by
  refine ⟨hmarks, fun i hi => Finset.mem_range.mp hi, fun k hk => ?_⟩
  have hzero := word_eq_zero_iff.mp hfree k hk
  rw [hzero, over_zero, Finset.mem_range]
  by_cases hdata : frame.extra_len.toNat ≤ k ∧ k < frame.extra_len.toNat + frame.dataBytes.length
  · exact .inr (.inr hdata)
  · by_cases hextra : k < frame.extraBytes.length
    · exact .inr (.inl hextra)
    · exact .inl (by rw [if_neg hdata, if_neg hextra])

theorem Copying.copyExtra (h : Copying bytes (.extra frame todo)) (hi : i ∈ todo) :
    Copying (Function.update bytes i (frame.extraBytes.getD i 0))
      (.extra frame (todo.erase i)) := by
  obtain ⟨hmarks, hlt, hbytes⟩ := h
  refine ⟨hmarks, fun i' hi' => hlt i' (Finset.mem_of_mem_erase hi'), fun k hk => ?_⟩
  by_cases hki : k = i
  · subst hki
    rw [Function.update_self, over_zero, if_pos (hlt k hi)]
    by_cases hdata : frame.extra_len.toNat ≤ k ∧ k < frame.extra_len.toNat + frame.dataBytes.length
    · exact .inr (.inr hdata)
    · exact .inl (by rw [if_neg hdata])
  · rw [Function.update_of_ne hki]
    refine (hbytes k hk).imp_right (Or.imp_left fun hmem => ?_)
    exact Finset.mem_erase.mpr ⟨hki, hmem⟩

theorem Copying.second (h : Copying bytes (.extra frame ∅)) :
    Copying bytes (.data frame (Finset.range frame.dataBytes.length)) := by
  obtain ⟨hmarks, -, hbytes⟩ := h
  refine ⟨hmarks, fun i hi => Finset.mem_range.mp hi, fun k hk => ?_⟩
  rcases hbytes k hk with hdone | hmem | ⟨hle, hlt⟩
  · exact .inl hdone
  · exact absurd hmem (Finset.notMem_empty k)
  · exact .inr ⟨k - frame.extra_len.toNat, Finset.mem_range.mpr (by omega), by omega⟩

theorem Copying.copyData (h : Copying bytes (.data frame todo)) (hi : i ∈ todo) :
    Copying (Function.update bytes (frame.extra_len.toNat + i) (frame.dataBytes.getD i 0))
      (.data frame (todo.erase i)) := by
  obtain ⟨hmarks, hlt, hbytes⟩ := h
  refine ⟨hmarks, fun i' hi' => hlt i' (Finset.mem_of_mem_erase hi'), fun k hk => ?_⟩
  by_cases hki : k = frame.extra_len.toNat + i
  · subst hki
    have hrange := hlt i hi
    rw [Function.update_self, over_zero, if_pos (by omega), Nat.add_sub_cancel_left]
    exact .inl rfl
  · rw [Function.update_of_ne hki]
    refine (hbytes k hk).imp_right ?_
    rintro ⟨i', hi', rfl⟩
    refine ⟨i', Finset.mem_erase.mpr ⟨?_, hi'⟩, rfl⟩
    rintro rfl
    exact hki rfl

/-- In the end the first word is not 0. -/
theorem Copying.done (h : Copying bytes (.data frame ∅)) : word bytes ≠ 0 := by
  obtain ⟨hmarks, -, hbytes⟩ := h
  obtain ⟨k, hk, hne⟩ := (marks_iff frame).mp hmarks
  intro hzero
  rcases hbytes k hk with hdone | ⟨i, hi, -⟩
  · exact hne (hdone.symm.trans (word_eq_zero_iff.mp hzero k hk))
  · exact absurd hi (Finset.notMem_empty i)

/-! ## A call that nobody interrupts -/

section

variable {L : SemLimits} {s : State ι}

/-- One `memcpy` of `text` to the place `off`, byte by byte in any order. -/
theorem exec_copy {pc : Finset Nat → SendPc} {off : Nat} {text : List UInt8}
    (hcopy : ∀ (s : State ι) i todo, s.send = pc todo → i ∈ todo →
      (machine ι L).next s (.copy i) = some { s with
        bytes := Function.update s.bytes (off + i) (text.getD i 0)
        send := pc (todo.erase i) })
    (todo : Finset Nat) (s : State ι) (hpc : s.send = pc todo) : ∃ as,
    (machine ι L).exec s as = some { s with
      bytes := fun k => if off ≤ k ∧ k - off ∈ todo then text.getD (k - off) 0 else s.bytes k
      send := pc ∅ } := by
  induction todo using Finset.induction_on generalizing s with
  | empty =>
    refine ⟨[], ?_⟩
    obtain ⟨bytes, sem, mapped, send, get, published, count, took⟩ := s
    obtain rfl : send = _ := hpc
    simp only [Machine.exec_nil, Finset.notMem_empty, and_false, if_false]
  | insert i todo hi ih =>
    have hfirst := hcopy s i (insert i todo) hpc (Finset.mem_insert_self i todo)
    rw [Finset.erase_insert hi] at hfirst
    obtain ⟨as, hrest⟩ := ih { s with
      bytes := Function.update s.bytes (off + i) (text.getD i 0)
      send := pc todo } rfl
    refine ⟨.copy i :: as, (Machine.exec_cons_of_next hfirst).trans (hrest.trans ?_)⟩
    congr 2
    funext k
    by_cases hki : k = off + i
    · subst hki
      have hle : off ≤ off + i := Nat.le_add_right ..
      dsimp only
      rw [Nat.add_sub_cancel_left, if_neg fun hmem => hi hmem.2,
        if_pos ⟨hle, Finset.mem_insert_self ..⟩]
      exact Function.update_self ..
    · have hne : off ≤ k → k - off ≠ i := by omega
      dsimp only
      rw [Function.update_of_ne hki]
      refine if_congr (and_congr_right fun hle => ?_) rfl rfl
      rw [Finset.mem_insert, or_iff_right (hne hle)]

theorem next_copy_extra (L : SemLimits) (frame : Frame) (s : State ι) (i : Nat)
    (todo : Finset Nat) (hpc : s.send = .extra frame todo) (hi : i ∈ todo) :
    (machine ι L).next s (.copy i) = some { s with
      bytes := Function.update s.bytes (0 + i) (frame.extraBytes.getD i 0)
      send := .extra frame (todo.erase i) } := by
  show copyByte s i = _
  unfold copyByte
  rw [hpc, Nat.zero_add]
  exact if_pos hi

theorem next_copy_data (L : SemLimits) (frame : Frame) (s : State ι) (i : Nat)
    (todo : Finset Nat) (hpc : s.send = .data frame todo) (hi : i ∈ todo) :
    (machine ι L).next s (.copy i) = some { s with
      bytes := Function.update s.bytes (frame.extra_len.toNat + i) (frame.dataBytes.getD i 0)
      send := .data frame (todo.erase i) } := by
  show copyByte s i = _
  unfold copyByte
  rw [hpc]
  exact if_pos hi

/-- On a free segment it ends with the frame in it. -/
theorem exec_send (L : SemLimits) (frame : Frame) (hpc : s.send = .idle)
    (hfree : word s.bytes = 0) : ∃ as s',
    (machine ι L).exec s (.call frame :: as) = some s' ∧ s'.bytes = frame.over s.bytes ∧
      s'.published = some s'.bytes ∧ s'.count = s.count + 1 := by
  have hcall : (machine ι L).next s (.call frame) = some { s with send := .map frame } := by
    show step L s (.call frame) = _
    unfold step
    rw [hpc]
  have htest : (machine ι L).next { s with mapped := true, send := .test frame } .send =
      some { s with
        mapped := true, send := .extra frame (Finset.range frame.extraBytes.length) } :=
    if_pos hfree
  obtain ⟨as₁, hextra⟩ := exec_copy (next_copy_extra L frame) (Finset.range frame.extraBytes.length)
    { s with mapped := true, send := .extra frame (Finset.range frame.extraBytes.length) } rfl
  have hsecond : ∀ t : State ι, t.send = .extra frame ∅ → (machine ι L).next t .send =
      some { t with send := .data frame (Finset.range frame.dataBytes.length) } := by
    intro t ht
    show sendSharedFrame L t = _
    unfold sendSharedFrame
    rw [ht]
    exact if_pos rfl
  obtain ⟨as₂, hdata⟩ := exec_copy (next_copy_data L frame) (Finset.range frame.dataBytes.length)
    { s with
      mapped := true
      bytes := fun k => if 0 ≤ k ∧ k - 0 ∈ Finset.range frame.extraBytes.length then
        frame.extraBytes.getD (k - 0) 0 else s.bytes k
      send := .data frame (Finset.range frame.dataBytes.length) } rfl
  have hover : (fun k => if frame.extra_len.toNat ≤ k ∧
      k - frame.extra_len.toNat ∈ Finset.range frame.dataBytes.length then
        frame.dataBytes.getD (k - frame.extra_len.toNat) 0
      else if 0 ≤ k ∧ k - 0 ∈ Finset.range frame.extraBytes.length then
        frame.extraBytes.getD (k - 0) 0
      else s.bytes k) = frame.over s.bytes := by
    rw [over_eq]
    funext k
    unfold splice
    simp only [Finset.mem_range, Nat.zero_le, true_and, Nat.zero_add, Nat.sub_zero]
    refine if_congr (and_congr_right fun hle => ?_) rfl rfl
    omega
  dsimp only at hdata
  rw [hover] at hdata
  obtain ⟨s', hv, hbytes, hpublished, hcount⟩ : ∃ s' : State ι,
      (machine ι L).next { s with
        mapped := true, bytes := frame.over s.bytes, send := .data frame ∅ } .send = some s' ∧
      s'.bytes = frame.over s.bytes ∧ s'.published = some s'.bytes ∧ s'.count = s.count + 1 := by
    have hnext : (machine ι L).next { s with
        mapped := true, bytes := frame.over s.bytes, send := .data frame ∅ } .send =
        sendSharedFrame L { s with
          mapped := true, bytes := frame.over s.bytes, send := .data frame ∅ } := rfl
    rw [hnext]
    unfold sendSharedFrame
    dsimp only
    rw [if_pos rfl]
    cases hv : semOp L 'v' s.sem .producer with
    | done sem => exact ⟨_, rfl, rfl, rfl, rfl⟩
    | erange => exact ⟨_, rfl, rfl, rfl, rfl⟩
    | blocks =>
      rw [semOp_v, semop_eq_blocks_iff] at hv
      omega
  refine ⟨.send :: .send :: (as₁ ++ .send :: (as₂ ++ [.send])), s', ?_, hbytes, hpublished, hcount⟩
  rw [Machine.exec_cons_of_next hcall, Machine.exec_cons_of_next (t := { s with
    mapped := true, send := .test frame }) rfl, Machine.exec_cons_of_next htest,
    Machine.exec_append_of_exec hextra, Machine.exec_cons_of_next (hsecond _ rfl),
    Machine.exec_append_of_exec hdata, Machine.exec_cons_of_next hv, Machine.exec_nil]

/-- This is what `SendSharedFrame` does when it is run in one go. -/
theorem exec_send_agrees {A : Setup} {fails : Nat → Bool} {h : Host} {n : Nat} {g : Globals}
    {ids : IpcIds} {addr : Int} {e : Named Region} (hmapped : h.mapped addr = some e)
    (hbusy : e.val.busy = 0) (hfits : frame.Fits e.val.size) (hpc : s.send = .idle)
    (hsame : s.bytes = e.val.bytes) : ∃ as s',
      (machine ι L).exec s (.call frame :: as) = some s' ∧ s'.published = some s'.bytes ∧
      ((sendThrough g addr ids frame).run (Host.failingFrames A fails) (h, n)).1.2 = 0 ∧
      ((sendThrough g addr ids frame).run (Host.failingFrames A fails) (h, n)).2.1.mapped addr =
        some { e with val := { e.val with bytes := s'.bytes } } := by
  have hfree : word s.bytes = 0 := by
    rw [hsame]
    exact hbusy
  obtain ⟨as, s', hrun, hbytes, hpublished, -⟩ := exec_send L frame hpc hfree
  obtain ⟨sem, hsend, -⟩ := run_sendThrough_free A fails n g ids hmapped hbusy hfits
  refine ⟨as, s', hrun, hpublished, ?_, ?_⟩
  · rw [hsend]
  · rw [hsend, hbytes, hsame]
    exact mapped_modify (f := frame.over) hmapped

end

/-! ## The segment -/

variable {L : SemLimits} {s s' : State ι} {a : Act ι} {j : ι} {pc : GetPc}

/-- A frame that is copied marks the segment, and no P is refused. -/
def Guarded (L : SemLimits) (s : State ι) : Act ι → Prop
  | .send => ∀ frame, s.send = .test frame → word s.bytes = 0 → Marks frame
  | .get j => s.get j = .wait → semOp L 'p' s.sem (.consumer j) ≠ .erange
  | _ => True

/-- Whether it is can be computed. -/
instance decidableGuarded (L : SemLimits) (s : State ι) (a : Act ι) : Decidable (Guarded L s a) :=
  match a with
  | .send =>
    match hpc : s.send with
    | .test frame => decidable_of_iff (word s.bytes = 0 → Marks frame) (by simp [Guarded, hpc])
    | .idle | .map _ | .extra _ _ | .data _ _ => .isTrue (by simp [Guarded, hpc])
  | .get j =>
    match hpc : s.get j with
    | .wait =>
      match hp : semOp L 'p' s.sem (.consumer j) with
      | .erange => .isFalse (by simp [Guarded, hpc, hp])
      | .done _ | .blocks => .isTrue (by simp [Guarded, hp])
    | .attach | .hold _ | .detach => .isTrue (by simp [Guarded, hpc])
  | .call _ | .copy _ | .read _ _ => .isTrue trivial

/-- While a frame is published, the segment is as it was then, and no `SendSharedFrame` has got
past its test. -/
def Protected (s : State ι) : Prop :=
  ∀ segment, s.published = some segment → s.bytes = segment ∧ s.send.outside

/-- While a frame is published, no `SendSharedFrame` returns 0. -/
def Refused (s : State ι) (a : Act ι) : Prop :=
  ∀ segment r, s.published = some segment → returns s a = some r → r = -1

/-- Nobody is using the segment. -/
structure Free (s : State ι) : Prop where
  published : s.published = none
  value : s.sem.value = 0
  holding : ∀ j, ¬ (s.get j).holding
  send : s.send.outside
  word : word s.bytes = 0

/-- A frame is copied into it. -/
structure Filling (s : State ι) : Prop where
  published : s.published = none
  value : s.sem.value = 0
  holding : ∀ j, ¬ (s.get j).holding
  copying : Copying s.bytes s.send

/-- There is a frame in it: one consumer can take it, or has taken it, or V was refused. -/
structure Full (s : State ι) : Prop where
  published : s.published = some s.bytes
  send : s.send.outside
  word : word s.bytes ≠ 0
  alone : (s.sem.value ≤ 1 ∧ ∀ j, ¬ (s.get j).holding) ∨
    (s.sem.value = 0 ∧ ∃ j, ∀ j', (s.get j').holding ↔ j' = j)
  took : ∀ j, (s.get j).holding → s.took j = some s.count

def Inv (s : State ι) : Prop := Free s ∨ Filling s ∨ Full s

omit [DecidableEq ι] in
theorem Inv.protected (h : Inv s) : Protected s := by
  intro segment hpublished
  rcases h with h | h | h
  · rw [h.published] at hpublished
    cases hpublished
  · rw [h.published] at hpublished
    cases hpublished
  · rw [h.published] at hpublished
    exact ⟨Option.some.inj hpublished, h.send⟩

omit [DecidableEq ι] in
theorem Inv.refused (h : Inv s) (a : Act ι) : Refused s a := by
  intro segment r hpublished hr
  obtain ⟨-, hout⟩ := h.protected segment hpublished
  cases a with
  | send =>
    unfold returns at hr
    cases hpc : s.send with
    | test frame =>
      simp only [hpc] at hr
      split at hr
      · cases hr
      · exact (Option.some.inj hr).symm
    | data frame todo =>
      rw [hpc] at hout
      exact hout.elim
    | _ => simp only [hpc, reduceCtorEq] at hr
  | _ => cases hr

omit [DecidableEq ι] in
theorem inv_fresh (ι : Type) {bytes : Nat → UInt8} (h : word bytes = 0) :
    Inv (State.fresh ι bytes) :=
  .inl ⟨rfl, rfl, fun _ => id, trivial, h⟩

/-! ## Steps of the producer -/

omit [DecidableEq ι] in
/-- It moves about outside. -/
theorem Inv.of_outside (h : Inv s) (hout : s.send.outside) (mapped : Bool) (send : SendPc)
    (hsend : send.outside) : Inv { s with mapped, send } := by
  rcases h with h | h | h
  · exact .inl ⟨h.published, h.value, h.holding, hsend, h.word⟩
  · have hcopying := h.copying
    unfold Copying at hcopying
    split at hcopying
    · next hpc =>
      rw [hpc] at hout
      exact hout.elim
    · next hpc =>
      rw [hpc] at hout
      exact hout.elim
    · exact hcopying.elim
  · exact .inr (.inr ⟨h.published, hsend, h.word, h.alone, h.took⟩)

omit [DecidableEq ι] in
/-- Whoever is past the test is copying. -/
theorem Inv.filling (h : Inv s) (hin : ¬ s.send.outside) : Filling s := by
  rcases h with h | h | h
  · exact absurd h.send hin
  · exact h
  · exact absurd h.send hin

omit [DecidableEq ι] in
theorem Filling.full (h : Filling s) {frame : Frame} (hpc : s.send = .data frame ∅)
    {sem : Sem (Proc ι)} (hvalue : sem.value ≤ 1) :
    Full { s with sem, send := .idle, published := some s.bytes, count := s.count + 1 } := by
  have hcopying := h.copying
  rw [hpc] at hcopying
  exact ⟨rfl, trivial, hcopying.done, .inl ⟨hvalue, h.holding⟩, fun j hj => absurd hj (h.holding j)⟩

/-! ## Steps of a consumer -/

theorem goto_holding (hsame : pc.holding ↔ (s.get j).holding) (j' : ι) :
    ((s.goto j pc).get j').holding ↔ (s.get j').holding := by
  show (Function.update s.get j pc j').holding ↔ _
  by_cases hj : j' = j
  · subst hj
    rwa [Function.update_self]
  · rw [Function.update_of_ne hj]

/-- It stays inside or outside. -/
theorem Inv.goto (h : Inv s) (hsame : pc.holding ↔ (s.get j).holding) : Inv (s.goto j pc) := by
  have hget := goto_holding hsame
  rcases h with h | h | h
  · exact .inl ⟨h.published, h.value, fun j' hj' => h.holding j' ((hget j').mp hj'), h.send, h.word⟩
  · refine .inr (.inl ⟨h.published, h.value, fun j' hj' => ?_, h.copying⟩)
    exact h.holding j' ((hget j').mp hj')
  · refine .inr (.inr ⟨h.published, h.send, h.word, ?_, fun j' hj' => h.took j' ((hget j').mp hj')⟩)
    rcases h.alone with ⟨hvalue, hnone⟩ | ⟨hvalue, k, honly⟩
    · exact .inl ⟨hvalue, fun j' hj' => hnone j' ((hget j').mp hj')⟩
    · exact .inr ⟨hvalue, k, fun j' => (hget j').trans (honly j')⟩

/-- It takes the frame in the segment: a unit stands for that. -/
theorem Inv.take (h : Inv s) {sem : Sem (Proc ι)}
    (hp : semOp L 'p' s.sem (.consumer j) = .done sem) :
    Inv { s.goto j .attach with sem, took := Function.update s.took j (some s.count) } := by
  obtain ⟨hvalue, -⟩ := semOp_p_done hp
  rcases h with h | h | h
  · have := h.value
    omega
  · have := h.value
    omega
  · obtain ⟨hle, hnone⟩ : s.sem.value ≤ 1 ∧ ∀ j, ¬ (s.get j).holding := by
      refine h.alone.resolve_right fun hheld => ?_
      have := hheld.1
      omega
    have hother : ∀ j', j' ≠ j → ¬ (Function.update s.get j .attach j').holding := by
      intro j' hne
      rw [Function.update_of_ne hne]
      exact hnone j'
    refine .inr (.inr ⟨h.published, h.send, h.word, .inr ⟨?_, j, fun j' => ⟨fun hj' => ?_, ?_⟩⟩,
      ?_⟩)
    · show sem.value = 0
      omega
    · by_contra hne
      exact hother j' hne hj'
    · rintro rfl
      show (Function.update s.get j' .attach j').holding
      rw [Function.update_self]
      trivial
    · intro j' hj'
      show Function.update s.took j (some s.count) j' = some s.count
      by_cases hne : j' = j
      · subst hne
        exact Function.update_self ..
      · exact absurd hj' (hother j' hne)

/-- It gives the segment back. -/
theorem Inv.clear (h : Inv s) (hj : (s.get j).holding) :
    Inv { s.goto j .detach with
      bytes := putWord 0 s.bytes
      published := if s.took j = some s.count then none else s.published } := by
  rcases h with h | h | h
  · exact absurd hj (h.holding j)
  · exact absurd hj (h.holding j)
  · obtain ⟨hvalue, k, honly⟩ := h.alone.resolve_left fun hnone => hnone.2 j hj
    refine .inl ⟨if_pos (h.took j hj), hvalue, fun j' hj' => ?_, h.send, word_putWord_zero _⟩
    replace hj' : (Function.update s.get j .detach j').holding := hj'
    by_cases hne : j' = j
    · subst hne
      rw [Function.update_self] at hj'
      exact hj'
    · rw [Function.update_of_ne hne] at hj'
      exact hne (((honly j').mp hj').trans ((honly j).mp hj).symm)

/-! ## Runs -/

/-- A guarded step keeps the segment in order. -/
theorem Inv.step (h : Inv s) (hG : Guarded L s a) (hs : step L s a = some s') : Inv s' := by
  cases step_inv hs with
  | call frame hpc =>
    refine h.of_outside ?_ s.mapped (.map frame) trivial
    rw [hpc]
    trivial
  | map frame hpc =>
    refine h.of_outside ?_ true (.test frame) trivial
    rw [hpc]
    trivial
  | found frame hpc hfree =>
    rcases h with h | h | h
    · exact .inr (.inl ⟨h.published, h.value, h.holding, .found (hG frame hpc hfree) hfree⟩)
    · have hcopying := h.copying
      rw [hpc] at hcopying
      exact hcopying.elim
    · exact absurd hfree h.word
  | notFree frame hpc hbusy =>
    refine h.of_outside ?_ s.mapped .idle trivial
    rw [hpc]
    trivial
  | second frame hpc =>
    have hfill := h.filling (by rw [hpc]; exact id)
    have hcopying := hfill.copying
    rw [hpc] at hcopying
    exact .inr (.inl ⟨hfill.published, hfill.value, hfill.holding, hcopying.second⟩)
  | publish frame sem hpc hv =>
    have hfill := h.filling (by rw [hpc]; exact id)
    obtain ⟨hvalue, -⟩ := semOp_v_done hv
    refine .inr (.inr (hfill.full hpc ?_))
    rw [hvalue, hfill.value]
  | publishFails frame hpc hv =>
    have hfill := h.filling (by rw [hpc]; exact id)
    refine .inr (.inr (hfill.full hpc ?_))
    rw [hfill.value]
    exact Nat.zero_le _
  | copyExtra frame todo i hpc hi =>
    have hfill := h.filling (by rw [hpc]; exact id)
    have hcopying := hfill.copying
    rw [hpc] at hcopying
    exact .inr (.inl ⟨hfill.published, hfill.value, hfill.holding, hcopying.copyExtra hi⟩)
  | copyData frame todo i hpc hi =>
    have hfill := h.filling (by rw [hpc]; exact id)
    have hcopying := hfill.copying
    rw [hpc] at hcopying
    exact .inr (.inl ⟨hfill.published, hfill.value, hfill.holding, hcopying.copyData hi⟩)
  | take j sem hpc hp => exact h.take hp
  | takeFails j hpc hp => exact absurd hp (hG hpc)
  | attach j hpc =>
    refine h.goto ?_
    rw [hpc]
    exact Iff.rfl
  | clear j got hpc =>
    refine h.clear ?_
    rw [hpc]
    trivial
  | detach j hpc =>
    refine h.goto ?_
    rw [hpc]
    exact Iff.rfl
  | read j i got hpc =>
    refine h.goto ?_
    rw [hpc]
    exact Iff.rfl

/-- **A published frame is protected**: in every run of a producer and any consumers, in any order
and with any frames, in which each frame that is copied marks the segment and no P is refused,
every later `SendSharedFrame` returns -1 and leaves the segment as it is, until a consumer that has
taken the frame gives it back. -/
theorem protected_of_guarded (L : SemLimits) (s : State ι) (as : List (Act ι))
    (hs : (machine ι L).init s) (hG : (machine ι L).AllSteps (Guarded L) s as) :
    (machine ι L).AllStates Protected s as ∧ (machine ι L).AllSteps Refused s as := by
  obtain ⟨bytes, hword, rfl⟩ := hs
  have hinv := Machine.allStates_of_inductive (M := machine ι L) (P := Inv)
    (fun _ _ _ hu hGu ht => hu.step hGu ht) (inv_fresh ι hword) hG
  exact ⟨hinv.mono fun _ hu => hu.protected, hinv.steps fun _ b hu => hu.refused b⟩

/-- A frame is sent, taken and given back, with a `SendSharedFrame` in between that is refused. -/
def sentAndTaken : List (Act Unit) :=
  [.call .used, .send, .send, .copy 0, .copy 1, .copy 2, .copy 3, .send, .copy 0, .send,
    .get (), .get (), .call .used, .send, .send, .read () 0, .get (), .get ()]

theorem protected_of_guarded_used :
    (machine Unit .linux).AllStates Protected (State.fresh Unit fun _ => 0) sentAndTaken ∧
      (machine Unit .linux).AllSteps Refused (State.fresh Unit fun _ => 0) sentAndTaken :=
  protected_of_guarded .linux _ sentAndTaken ⟨_, rfl, rfl⟩ (by decide)

/-- No header, and a byte that is 0. -/
def zeroFrame : Frame := .of none (some [0])

/-- It is sent, and the next `SendSharedFrame` gets as far as its V. -/
def sentTwice : List (Act Unit) :=
  [.call zeroFrame, .send, .send, .send, .copy 0, .send, .call .used, .send, .send, .copy 0,
    .copy 1, .copy 2, .copy 3, .send, .copy 0]

/-- The frame is overwritten by the next one, and `SendSharedFrame` returns 0 with its V. -/
theorem zeroFrame_not_protected :
    ∃ t, (machine Unit .linux).exec (State.fresh Unit fun _ => 0) sentTwice = some t ∧
      ¬ Protected t ∧
      ((machine Unit .linux).next t .send).isSome ∧ returns t .send = some 0 ∧
      ¬ Refused t .send := by
  refine ⟨((machine Unit .linux).exec (State.fresh Unit fun _ => 0) sentTwice).get (by decide),
    (Option.some_get _).symm, fun h => ?_, by decide, rfl, fun h => ?_⟩
  · exact (h _ rfl).2
  · exact absurd (h _ 0 rfl rfl) (by decide)

end Protect

end EngineerLinux.FrameIpc
