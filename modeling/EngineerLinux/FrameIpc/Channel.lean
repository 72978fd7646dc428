import EngineerLinux.Lib.Machine
import EngineerLinux.Kernel.SemUndo
import Mathlib.Data.Fintype.Basic
import Mathlib.Data.Fin.Basic

/-!
# The frame channel (`frame_ipc.c`, `a.c`, `b.c`)

A producer process calls `SendSharedFrame` in a loop (`a.c` 13-24), consumer processes call
`AttachSharedFrame`, read the frame and call `DeattachSharedFrame` in a loop. They share a segment,
whose first word is the busy word and whose rest is the payload, and a semaphore operated on by
`sem_op_`, which sets `SEM_UNDO`.

The model is a machine whose label says which process moves. Its steps are the single accesses to
what is shared: the test of the busy word, the copy of the header (the word `is_used = 1`), each
piece of the payload copy in any order, the `semop`s, each piece of a consumer's reads, and the
clearing of the busy word. The payload has `n` pieces of type `β`, the consumers are indexed by
`ι`. How `semop` treats a unit is a parameter (`SemLimits`). As in the source, the result of
`sem_op_` is ignored on both sides (`frame_ipc.c` 97 and 116).

Besides the shared state, a state records the history: the frames published (their `semop` took
effect), the frames in the segment when a consumer's `semop` took effect, what the consumers read,
and how many `semop`s failed.
-/

namespace EngineerLinux.FrameIpc

open Kernel

/-- The processes that use the semaphore. -/
inductive Proc (ι : Type) where
  | producer
  | consumer (j : ι)
  deriving DecidableEq

/-- Program points of the producer's loop; each names what `SendSharedFrame` does next. -/
inductive SendPc (n : Nat) (β : Type) where
  /-- Before the next call. -/
  | idle
  /-- `if (g_addr[flag] == NULL) g_addr[flag] = shmat(..)`. -/
  | map (frame : Fin n → β)
  /-- `*(int *)(g_addr[flag]) == 0`. -/
  | test (frame : Fin n → β)
  /-- `memcpy` of the header. -/
  | header (frame : Fin n → β)
  /-- `memcpy` of the payload, with the pieces still to copy; then `sem_op_('v', ..)`. -/
  | body (frame : Fin n → β) (todo : Finset (Fin n))

/-- Program points of a consumer's loop. -/
inductive GetPc (n : Nat) (β : Type) where
  /-- `sem_op_('p', ..)`. -/
  | wait
  /-- `shmat`. -/
  | attach
  /-- `memcpy(frame, addr, len)` and the reads of the payload: the header word and the pieces read
  so far; then `*(int *)addr = 0`. -/
  | read (header : Option Int) (got : Fin n → Option β)
  /-- `shmdt`. -/
  | detach

/-- What a consumer had read of a frame when it cleared the busy word. -/
structure Reading (ι : Type) (n : Nat) (β : Type) where
  consumer : ι
  header : Option Int
  got : Fin n → Option β

structure State (ι : Type) (n : Nat) (β : Type) where
  /-- The first word of the segment. -/
  busy : Int
  /-- The rest of the segment. -/
  data : Fin n → β
  sem : Sem (Proc ι)
  /-- `g_addr[flag] != NULL`. -/
  mapped : Bool
  send : SendPc n β
  get : ι → GetPc n β
  /-- The frames published, oldest first. -/
  accepted : List (Fin n → β)
  /-- Who took which frame, in the order of the `semop`s. -/
  taken : List (ι × (Fin n → β))
  /-- The readings that have ended, oldest first. -/
  reads : List (Reading ι n β)
  /-- How many frames the process now running as consumer `j` has taken. -/
  mine : ι → Nat
  /-- How many `semop`s failed. -/
  failed : Nat

/-- The channel after `CreateSharedFrame`: busy word 0, semaphore 0. -/
def State.fresh {n : Nat} {β : Type} (ι : Type) (data : Fin n → β) : State ι n β where
  busy := 0
  data := data
  sem := .zero _
  mapped := false
  send := .idle
  get := fun _ => .wait
  accepted := []
  taken := []
  reads := []
  mine := fun _ => 0
  failed := 0

variable {ι β : Type} {n : Nat} [DecidableEq ι]

/-- `sem_op_`: 'p' is `sem_op = -1`, anything else is `sem_op = 1`. -/
def semOp (L : SemLimits) (opt : Char) (s : Sem (Proc ι)) (p : Proc ι) : Semop (Proc ι) :=
  if opt = 'p' then semop L s p (-1) else semop L s p 1

/-- The next step of `SendSharedFrame` that is not one of the pieces of the payload copy. -/
def sendSharedFrame (L : SemLimits) (s : State ι n β) : Option (State ι n β) :=
  match s.send with
  | .idle => none
  | .map frame => some { s with mapped := true, send := .test frame }
  | .test frame =>
    if s.busy = 0 then some { s with send := .header frame }
    else some { s with send := .idle }
  | .header frame => some { s with busy := 1, send := .body frame Finset.univ }
  | .body frame todo =>
    if todo = ∅ then
      match semOp L 'v' s.sem .producer with
      | .done sem => some { s with sem, send := .idle, accepted := s.accepted ++ [frame] }
      | .erange => some { s with send := .idle, failed := s.failed + 1 }
      | .blocks => none
    else none

/-- Consumer `j` moves to another program point. -/
def State.goto (s : State ι n β) (j : ι) (pc : GetPc n β) : State ι n β :=
  { s with get := Function.update s.get j pc }

/-- The next step of consumer `j` that is not one of its reads: `AttachSharedFrame` up to the
`memcpy`, and `DeattachSharedFrame`. -/
def getFrame (L : SemLimits) (s : State ι n β) (j : ι) : Option (State ι n β) :=
  match s.get j with
  | .wait =>
    match semOp L 'p' s.sem (.consumer j) with
    | .done sem =>
      some { s with
        sem
        taken := s.taken ++ [(j, s.data)]
        mine := Function.update s.mine j (s.mine j + 1)
        get := Function.update s.get j .attach }
    | .erange => some { s.goto j .attach with failed := s.failed + 1 }
    | .blocks => none
  | .attach => some (s.goto j (.read none fun _ => none))
  | .read header got =>
    some { s.goto j .detach with busy := 0, reads := s.reads ++ [⟨j, header, got⟩] }
  | .detach => some (s.goto j .wait)

/-- What may happen next. -/
inductive Act (ι : Type) (n : Nat) (β : Type) where
  /-- The producer calls `SendSharedFrame` with this payload. -/
  | call (frame : Fin n → β)
  | send
  /-- One piece of the payload copy. -/
  | copy (i : Fin n)
  | get (j : ι)
  /-- Consumer `j` reads the header word. -/
  | readHeader (j : ι)
  /-- Consumer `j` reads one piece of the payload. -/
  | readData (j : ι) (i : Fin n)
  /-- Consumer process `j` exits before its next `semop` returns, and a new one takes its place. -/
  | exit (j : ι)

def step (L : SemLimits) (s : State ι n β) : Act ι n β → Option (State ι n β)
  | .call frame =>
    match s.send with
    | .idle => some { s with send := .map frame }
    | _ => none
  | .send => sendSharedFrame L s
  | .copy i =>
    match s.send with
    | .body frame todo =>
      if i ∈ todo then
        some { s with
          data := Function.update s.data i (frame i), send := .body frame (todo.erase i) }
      else none
    | _ => none
  | .get j => getFrame L s j
  | .readHeader j =>
    match s.get j with
    | .read _ got => some (s.goto j (.read (some s.busy) got))
    | _ => none
  | .readData j i =>
    match s.get j with
    | .read header got =>
      some (s.goto j (.read header (Function.update got i (some (s.data i)))))
    | _ => none
  | .exit j =>
    match s.get j with
    | .wait =>
      some { s with sem := s.sem.exit (.consumer j), mine := Function.update s.mine j 0 }
    | _ => none

/-- The channel, on a kernel with the given limits. -/
def machine (ι : Type) [DecidableEq ι] (n : Nat) (β : Type) (L : SemLimits) :
    Machine (State ι n β) (Act ι n β) where
  init := fun s => ∃ data, s = State.fresh ι data
  next := step L

/-! ## The two semaphore operations -/

theorem semOp_v (L : SemLimits) (s : Sem (Proc ι)) (p : Proc ι) :
    semOp L 'v' s p = semop L s p 1 := if_neg (by decide)

theorem semOp_p (L : SemLimits) (s : Sem (Proc ι)) (p : Proc ι) :
    semOp L 'p' s p = semop L s p (-1) := if_pos rfl

/-- A completed V: one unit more, one less in the caller's adjustment. -/
theorem semOp_v_done {L : SemLimits} {s s' : Sem (Proc ι)} {p : Proc ι}
    (h : semOp L 'v' s p = .done s') :
    s'.value = s.value + 1 ∧ s'.adj = Function.update s.adj p (s.adj p - 1) := by
  rw [semOp_v] at h
  obtain ⟨hv, ha, -, -⟩ := semop_done h
  exact ⟨by omega, ha⟩

/-- A completed P: there was a unit, and it is in the caller's adjustment now. -/
theorem semOp_p_done {L : SemLimits} {s s' : Sem (Proc ι)} {p : Proc ι}
    (h : semOp L 'p' s p = .done s') :
    s.value = s'.value + 1 ∧ s'.adj = Function.update s.adj p (s.adj p + 1) := by
  rw [semOp_p] at h
  obtain ⟨hv, ha, -, -⟩ := semop_done h
  refine ⟨by omega, ?_⟩
  rw [ha, Int.sub_neg]

/-! ## What one step can do -/

/-- The steps of the channel: where each starts, its guard, and the state it leaves. -/
inductive Step (L : SemLimits) (s : State ι n β) : Act ι n β → State ι n β → Prop where
  | call (frame) (hpc : s.send = .idle) : Step L s (.call frame) { s with send := .map frame }
  | map (frame) (hpc : s.send = .map frame) :
      Step L s .send { s with mapped := true, send := .test frame }
  | found (frame) (hpc : s.send = .test frame) (hbusy : s.busy = 0) :
      Step L s .send { s with send := .header frame }
  | notFree (frame) (hpc : s.send = .test frame) (hbusy : s.busy ≠ 0) :
      Step L s .send { s with send := .idle }
  | header (frame) (hpc : s.send = .header frame) :
      Step L s .send { s with busy := 1, send := .body frame Finset.univ }
  | copy (frame todo i) (hpc : s.send = .body frame todo) (hi : i ∈ todo) :
      Step L s (.copy i) { s with
        data := Function.update s.data i (frame i), send := .body frame (todo.erase i) }
  | publish (frame sem) (hpc : s.send = .body frame ∅)
      (hv : semOp L 'v' s.sem .producer = .done sem) :
      Step L s .send { s with sem, send := .idle, accepted := s.accepted ++ [frame] }
  | publishFails (frame) (hpc : s.send = .body frame ∅)
      (hv : semOp L 'v' s.sem .producer = .erange) :
      Step L s .send { s with send := .idle, failed := s.failed + 1 }
  | take (j sem) (hpc : s.get j = .wait) (hp : semOp L 'p' s.sem (.consumer j) = .done sem) :
      Step L s (.get j) { s with
        sem
        taken := s.taken ++ [(j, s.data)]
        mine := Function.update s.mine j (s.mine j + 1)
        get := Function.update s.get j .attach }
  | takeFails (j) (hpc : s.get j = .wait) (hp : semOp L 'p' s.sem (.consumer j) = .erange) :
      Step L s (.get j) { s.goto j .attach with failed := s.failed + 1 }
  | attach (j) (hpc : s.get j = .attach) :
      Step L s (.get j) (s.goto j (.read none fun _ => none))
  | readHeader (j header got) (hpc : s.get j = .read header got) :
      Step L s (.readHeader j) (s.goto j (.read (some s.busy) got))
  | readData (j i header got) (hpc : s.get j = .read header got) :
      Step L s (.readData j i)
        (s.goto j (.read header (Function.update got i (some (s.data i)))))
  | clear (j header got) (hpc : s.get j = .read header got) :
      Step L s (.get j)
        { s.goto j .detach with busy := 0, reads := s.reads ++ [⟨j, header, got⟩] }
  | detach (j) (hpc : s.get j = .detach) : Step L s (.get j) (s.goto j .wait)
  | exit (j) (hpc : s.get j = .wait) :
      Step L s (.exit j)
        { s with sem := s.sem.exit (.consumer j), mine := Function.update s.mine j 0 }

theorem sendSharedFrame_inv {L : SemLimits} {s s' : State ι n β}
    (h : sendSharedFrame L s = some s') : Step L s .send s' := by
  unfold sendSharedFrame at h
  cases hpc : s.send with
  | idle => simp only [hpc, reduceCtorEq] at h
  | map frame =>
    simp only [hpc, Option.some.injEq] at h
    exact h ▸ .map frame hpc
  | test frame =>
    simp only [hpc] at h
    split at h
    · next hbusy => exact Option.some.inj h ▸ .found frame hpc hbusy
    · next hbusy => exact Option.some.inj h ▸ .notFree frame hpc hbusy
  | header frame =>
    simp only [hpc, Option.some.injEq] at h
    exact h ▸ .header frame hpc
  | body frame todo =>
    simp only [hpc] at h
    split at h
    · next hnil =>
      subst hnil
      cases hv : semOp L 'v' s.sem .producer with
      | done sem =>
        simp only [hv, Option.some.injEq] at h
        exact h ▸ .publish frame sem hpc hv
      | erange =>
        simp only [hv, Option.some.injEq] at h
        exact h ▸ .publishFails frame hpc hv
      | blocks => simp only [hv, reduceCtorEq] at h
    · cases h

theorem getFrame_inv {L : SemLimits} {s s' : State ι n β} {j : ι}
    (h : getFrame L s j = some s') : Step L s (.get j) s' := by
  unfold getFrame at h
  cases hpc : s.get j with
  | wait =>
    simp only [hpc] at h
    cases hp : semOp L 'p' s.sem (.consumer j) with
    | done sem =>
      simp only [hp, Option.some.injEq] at h
      exact h ▸ .take j sem hpc hp
    | erange =>
      simp only [hp, Option.some.injEq] at h
      exact h ▸ .takeFails j hpc hp
    | blocks => simp only [hp, reduceCtorEq] at h
  | attach =>
    simp only [hpc, Option.some.injEq] at h
    exact h ▸ .attach j hpc
  | read header got =>
    simp only [hpc, Option.some.injEq] at h
    exact h ▸ .clear j header got hpc
  | detach =>
    simp only [hpc, Option.some.injEq] at h
    exact h ▸ .detach j hpc

/-- Every step is one of the sixteen. -/
theorem step_inv {L : SemLimits} {s s' : State ι n β} {a : Act ι n β}
    (h : step L s a = some s') : Step L s a s' := by
  cases a with
  | call frame =>
    cases hpc : s.send with
    | idle =>
      simp only [step, hpc, Option.some.injEq] at h
      exact h ▸ .call frame hpc
    | _ => simp only [step, hpc, reduceCtorEq] at h
  | send => exact sendSharedFrame_inv h
  | copy i =>
    cases hpc : s.send with
    | body frame todo =>
      simp only [step, hpc] at h
      split at h
      · next hi => exact Option.some.inj h ▸ .copy frame todo i hpc hi
      · cases h
    | _ => simp only [step, hpc, reduceCtorEq] at h
  | get j => exact getFrame_inv h
  | readHeader j =>
    cases hpc : s.get j with
    | read header got =>
      simp only [step, hpc, Option.some.injEq] at h
      exact h ▸ .readHeader j header got hpc
    | _ => simp only [step, hpc, reduceCtorEq] at h
  | readData j i =>
    cases hpc : s.get j with
    | read header got =>
      simp only [step, hpc, Option.some.injEq] at h
      exact h ▸ .readData j i header got hpc
    | _ => simp only [step, hpc, reduceCtorEq] at h
  | exit j =>
    cases hpc : s.get j with
    | wait =>
      simp only [step, hpc, Option.some.injEq] at h
      exact h ▸ .exit j hpc
    | _ => simp only [step, hpc, reduceCtorEq] at h

end EngineerLinux.FrameIpc
