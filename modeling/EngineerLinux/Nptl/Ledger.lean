import EngineerLinux.Nptl.Model
import Mathlib.Data.List.Nodup

/-!
# What becomes of a stack

A descriptor and its stack have one owner at a time (`Status`): the program, which may join the
thread; the thread itself, if it is detached; the cache; or the thread that is about to create or to
free it. Which list the descriptor is in, and what there is at its address, depend on the owner.

This is the part of the invariant that is about memory, without the threads' programs. As every
descriptor has a status of its own, a step that works on one descriptor needs a look at this one
only; that each list has every descriptor once is kept by the three ways in which one changes.

- `Status.Ok`: what is there;
- `Ledger`: every list has the descriptors that belong there, each one once;
- `Ledger.put`, `Ledger.add`, `Ledger.del`: the ways in which one descriptor changes.
-/

namespace EngineerLinux.Nptl

section Definitions

variable {P : Type}

/-- Who owns a descriptor. -/
inductive Status (P : Type) where
  | absent
  | cached
  /-- Any thread may join it, with the handle that the program has. -/
  | joinable
  /-- The thread itself will free it. -/
  | detached
  /-- Nobody does: it was created, but `pthread_create` has failed. -/
  | lost
  /-- This thread creates, joins or frees it; whether it is in a list. -/
  | held (i : P) (listed : Bool)

/-- The list that a descriptor is in. -/
def Status.place : Status P → Bool → Option ListHead
  | .absent, _ | .held _ false, _ => none
  | .cached, _ => some .stack_cache
  | _, user => some (if user then .__stack_user else .stack_used)

def State.list (s : State P) : ListHead → List P
  | .stack_cache => s.stack_cache
  | .stack_used => s.stack_used
  | .__stack_user => s.stack_user

/-- The memory of a stack in use. -/
def Block.home (b : Block P) : Mem := if b.user_stack then .user else .mapped

/-- A descriptor, less what the kernel writes. -/
def Block.settled (b : Block P) : Block P := { b with tid := 0, alive := false }

/-- What there is at the address of a descriptor. -/
def Status.Ok (t : Status P) (p : P) (b : Block P) : Prop :=
  match t with
  | .absent => b.mem = .none ∧ b.handle = false ∧ b.leaked = false ∧
      (b.alive = true → b.user_stack = true)
  | .cached => b.mem = .mapped ∧ b.handle = false ∧ b.leaked = false ∧ b.user_stack = false
  | .joinable => b.mem = b.home ∧ b.handle = true ∧ b.leaked = false ∧
      b.TERMINATED = false ∧ b.joinid = none
  | .detached => b.mem = b.home ∧ b.handle = false ∧ b.leaked = false ∧
      b.TERMINATED = false ∧ b.joinid = some p ∧ b.alive = true
  | .lost => b.mem = b.home ∧ b.handle = false ∧ b.leaked = true ∧ b.joinid = none
  | .held i listed => b.mem = b.home ∧ b.handle = false ∧ b.leaked = false ∧
      (b.alive = true → p ≠ i → listed = true ∧ b.joinid ≠ some p)

/-- The stack that `allocate_stack` asks for, with its guard. -/
def Attr.reqsize (cfg : Config) (attr : Attr P) : Nat :=
  toSize (attr.size cfg + cfg.roundup attr.guardsize)

/-- A stack of this size with this guard fits what is asked for. -/
structure Attr.Fits (cfg : Config) (attr : Attr P) (size guard : Nat) : Prop where
  /-- No arithmetic overflow. -/
  roundup : attr.guardsize ≤ cfg.roundup attr.guardsize
  overflow : cfg.roundup attr.guardsize ≤ attr.reqsize cfg
  /-- There is room for the descriptor. -/
  rest : cfg.roundup (cfg.roundup attr.guardsize + cfg.static_tls_size + MINIMAL_REST_STACK) ≤
    attr.reqsize cfg
  guarded : cfg.roundup attr.guardsize ≤ guard
  usable : attr.reqsize cfg + guard ≤ size + cfg.roundup attr.guardsize
  /-- The stack is not far too large. -/
  bounded : size ≤ max (4 * attr.reqsize cfg) (attr.reqsize cfg + cfg.pagesize)

/-- The stack is what the thread was created with. -/
def Block.Fits (cfg : Config) (b : Block P) : Prop :=
  if b.user_stack then
    b.stackblock_size = if b.attr.stacksize ≠ 0 then b.attr.stacksize else cfg.default_stacksize
  else b.attr.Fits cfg b.stackblock_size b.guardsize

end Definitions

section Settled

variable {P : Type} (b : Block P)

@[simp] theorem Block.settled_stackblock_size : b.settled.stackblock_size = b.stackblock_size := rfl
@[simp] theorem Block.settled_guardsize : b.settled.guardsize = b.guardsize := rfl
@[simp] theorem Block.settled_user_stack : b.settled.user_stack = b.user_stack := rfl
@[simp] theorem Block.settled_joinid : b.settled.joinid = b.joinid := rfl
@[simp] theorem Block.settled_TERMINATED : b.settled.TERMINATED = b.TERMINATED := rfl
@[simp] theorem Block.settled_mem : b.settled.mem = b.mem := rfl
@[simp] theorem Block.settled_handle : b.settled.handle = b.handle := rfl
@[simp] theorem Block.settled_leaked : b.settled.leaked = b.leaked := rfl
@[simp] theorem Block.settled_attr : b.settled.attr = b.attr := rfl

end Settled

/-! ## The lists -/

section Ledger

variable {P : Type}

/-- The lists and the descriptors are as the owners say. -/
structure Ledger (s : State P) (st : P → Status P) : Prop where
  nodup : ∀ l, (s.list l).Nodup
  mem_iff : ∀ l p, p ∈ s.list l ↔ (st p).place (s.block p).user_stack = some l
  ok : ∀ p, (st p).Ok p (s.block p)

variable {s s' : State P} {st : P → Status P} {p : P} {t : Status P} {b : Block P} {l : ListHead}

theorem Ledger.mem_cache (h : Ledger s st) : p ∈ s.stack_cache ↔ st p = .cached := by
  rw [show s.stack_cache = s.list .stack_cache from rfl, h.mem_iff]
  cases st p with
  | cached => exact iff_of_true rfl rfl
  | held i listed => cases listed <;> cases (s.block p).user_stack <;> simp [Status.place]
  | absent => simp [Status.place]
  | joinable => cases (s.block p).user_stack <;> simp [Status.place]
  | detached => cases (s.block p).user_stack <;> simp [Status.place]
  | lost => cases (s.block p).user_stack <;> simp [Status.place]

/-- Where nothing is mapped and nothing is provided, there is no stack. -/
theorem Ledger.absent (h : Ledger s st) (hmem : (s.block p).mem = .none) : st p = .absent := by
  have hok := h.ok p
  have hhome : (s.block p).mem ≠ (s.block p).home := by
    rw [hmem]
    unfold Block.home
    split <;> simp
  generalize st p = t at hok
  cases t with
  | absent => rfl
  | cached => cases hmem.symm.trans hok.1
  | joinable => exact absurd hok.1 hhome
  | detached => exact absurd hok.1 hhome
  | lost => exact absurd hok.1 hhome
  | held i listed => exact absurd hok.1 hhome

/-- The program has a handle for joinable threads. -/
theorem Ledger.joinable (h : Ledger s st) (hhandle : (s.block p).handle = true) :
    st p = .joinable := by
  have hok := h.ok p
  generalize st p = t at hok
  cases t with
  | joinable => rfl
  | absent => cases hhandle.symm.trans hok.2.1
  | cached => cases hhandle.symm.trans hok.2.1
  | detached => cases hhandle.symm.trans hok.2.1
  | lost => cases hhandle.symm.trans hok.2.1
  | held i listed => cases hhandle.symm.trans hok.2.1

/-! ## Stacks that are in use -/

/-- Whoever owns a stack that is in use, it is in the list for such stacks. -/
theorem Ledger.used {st : P → Status P} {pd : P} (h : Ledger s st)
    (hplace : ∀ user, (st pd).place user = some (if user then .__stack_user else .stack_used)) :
    pd ∈ (if (s.block pd).user_stack then s.stack_user else s.stack_used) ∧
      pd ∉ s.stack_cache := by
  have hc : pd ∈ s.stack_cache ↔ _ := h.mem_iff .stack_cache pd
  have hs : pd ∈ s.stack_used ↔ _ := h.mem_iff .stack_used pd
  have hu : pd ∈ s.stack_user ↔ _ := h.mem_iff .__stack_user pd
  rw [hplace] at hc hs hu
  cases huser : (s.block pd).user_stack with
  | true =>
    rw [huser] at hc hu
    exact ⟨hu.mpr rfl, fun hin => by cases hc.mp hin⟩
  | false =>
    rw [huser] at hc hs
    exact ⟨hs.mpr rfl, fun hin => by cases hc.mp hin⟩

/-- A thread runs on the stack, or the program has a handle to join its thread, or there is no such
handle any more. -/
def Block.Kept (b : Block P) : Prop := b.alive = true ∨ b.handle = true ∨ b.leaked = true

/-- A descriptor is in the list where it belongs, and in no other. -/
structure Accounted (s : State P) (pd : P) : Prop where
  cached : pd ∈ s.stack_cache ↔ (s.block pd).mem = .mapped ∧ ¬ (s.block pd).Kept
  used : pd ∈ s.stack_used ↔ (s.block pd).mem = .mapped ∧ (s.block pd).Kept
  user : pd ∈ s.stack_user ↔ (s.block pd).mem = .user

/-- A stack that is kept is in one of the lists of used stacks. -/
theorem Ledger.accounted {st : P → Status P} {pd : P} (h : Ledger s st)
    (hkept : (s.block pd).Kept) (hhome : (s.block pd).mem = (s.block pd).home)
    (hplace : ∀ user, (st pd).place user = some (if user then .__stack_user else .stack_used)) :
    Accounted s pd := by
  have hc : pd ∈ s.stack_cache ↔ _ := h.mem_iff .stack_cache pd
  have hs : pd ∈ s.stack_used ↔ _ := h.mem_iff .stack_used pd
  have hu : pd ∈ s.stack_user ↔ _ := h.mem_iff .__stack_user pd
  rw [hplace] at hc hs hu
  rw [Block.home] at hhome
  refine ⟨?_, ?_, ?_⟩
  · rw [hc, hhome]
    cases (s.block pd).user_stack <;> simp [hkept]
  · rw [hs, hhome]
    cases (s.block pd).user_stack <;> simp [hkept]
  · rw [hu, hhome]
    cases (s.block pd).user_stack <;> simp

/-! ## One descriptor changes -/

theorem State.list_add (s : State P) (l l' : ListHead) :
    (s.add p l).list l' = if l' = l then p :: s.list l' else s.list l' := by
  cases l <;> cases l' <;> rfl

@[simp] theorem State.block_add (s : State P) : (s.add p l).block = s.block := by
  cases l <;> rfl

variable [DecidableEq P]

theorem State.list_del (s : State P) : (s.del p).list l = (s.list l).erase p := by
  cases l <;> rfl

/-- The lists stay as they are. -/
theorem Ledger.put (h : Ledger s st) (hlist : ∀ l, s'.list l = s.list l)
    (hblock : s'.block = Function.update s.block p b)
    (hplace : t.place b.user_stack = (st p).place (s.block p).user_stack) (hok : t.Ok p b) :
    Ledger s' (Function.update st p t) where
  nodup l := by
    rw [hlist]
    exact h.nodup l
  mem_iff l q := by
    rw [hlist, h.mem_iff, hblock]
    by_cases hq : q = p
    · subst hq
      rw [Function.update_self, Function.update_self, hplace]
    · rw [Function.update_of_ne hq, Function.update_of_ne hq]
  ok q := by
    rw [hblock]
    by_cases hq : q = p
    · subst hq
      rw [Function.update_self, Function.update_self]
      exact hok
    · rw [Function.update_of_ne hq, Function.update_of_ne hq]
      exact h.ok q

/-- A descriptor is added to a list. -/
theorem Ledger.add (h : Ledger s st) (hnone : (st p).place (s.block p).user_stack = none)
    (hplace : t.place (s.block p).user_stack = some l) (hok : t.Ok p (s.block p)) :
    Ledger (s.add p l) (Function.update st p t) where
  nodup l' := by
    rw [State.list_add]
    split
    · next heq =>
      refine List.nodup_cons.mpr ⟨fun hmem => ?_, h.nodup l'⟩
      cases hnone.symm.trans ((h.mem_iff l' p).mp hmem)
    · exact h.nodup l'
  mem_iff l' q := by
    rw [State.list_add, State.block_add]
    by_cases hq : q = p
    · subst hq
      rw [Function.update_self, hplace, Option.some.injEq]
      by_cases hl : l' = l
      · subst hl
        rw [if_pos rfl]
        exact iff_of_true (List.mem_cons_self ..) rfl
      · rw [if_neg hl, h.mem_iff, hnone]
        exact iff_of_false (by simp) fun heq => hl heq.symm
    · rw [Function.update_of_ne hq, ← h.mem_iff]
      split
      · rw [List.mem_cons, or_iff_right hq]
      · rfl
  ok q := by
    rw [State.block_add]
    by_cases hq : q = p
    · subst hq
      rw [Function.update_self]
      exact hok
    · rw [Function.update_of_ne hq]
      exact h.ok q

/-- A descriptor is removed from its list. -/
theorem Ledger.del (h : Ledger s st) (hplace : t.place (s.block p).user_stack = none)
    (hok : t.Ok p (s.block p)) : Ledger (s.del p) (Function.update st p t) where
  nodup l := by
    rw [State.list_del]
    exact (h.nodup l).erase p
  mem_iff l q := by
    rw [State.list_del, (h.nodup l).mem_erase_iff]
    show q ≠ p ∧ q ∈ s.list l ↔ (Function.update st p t q).place (s.block q).user_stack = some l
    by_cases hq : q = p
    · subst hq
      rw [Function.update_self, hplace]
      exact iff_of_false (fun h => h.1 rfl) (by simp)
    · rw [Function.update_of_ne hq, and_iff_right hq, h.mem_iff]
  ok q := by
    show (Function.update st p t q).Ok q (s.block q)
    by_cases hq : q = p
    · subst hq
      rw [Function.update_self]
      exact hok
    · rw [Function.update_of_ne hq]
      exact h.ok q

end Ledger

end EngineerLinux.Nptl
