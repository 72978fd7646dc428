import Mathlib.Data.List.Basic

/-!
# Operators and their targets

A line of words in which some are operators, and the word right after an operator is its target,
whatever it is. A scan from left to right, whose state is whether an operator is waiting for its
target, says what each word is.

- `roles`, `pick`: what the words are, and the words that are a given thing;
- `items`: how many words are arguments or targets. `items_le_true` and `items_true_le` say that a
  waiting operator adds one at most;
- `Padded`: some blanks have been put between the words. `Padded.items_le` and `Padded.pick_ne`:
  **putting blanks in changes the arguments or the targets.**
-/

universe u v

namespace Redirect

/-- What a word is. -/
inductive Role where
  | operator
  | target
  | argument
  deriving DecidableEq

/-- Whether an operator is waiting behind this word. -/
def Role.pending : Role → Bool
  | .operator => true
  | .target | .argument => false

section Scan

variable {α : Type u} (isOp : α → Bool)

/-- What a word is, when an operator is waiting or not. -/
def role (pending : Bool) (a : α) : Role :=
  if pending then .target else if isOp a then .operator else .argument

/-- What the words are. -/
def roles (pending : Bool) : List α → List Role
  | [] => []
  | a :: l => role isOp pending a :: roles (role isOp pending a).pending l

/-- The words that are this. -/
def pick (r : Role) (pending : Bool) : List α → List α
  | [] => []
  | a :: l =>
    let rest := pick r (role isOp pending a).pending l
    if role isOp pending a = r then a :: rest else rest

/-- The number of arguments and targets. -/
def items (pending : Bool) (l : List α) : Nat :=
  (pick isOp .argument pending l).length + (pick isOp .target pending l).length

variable {isOp} {pending : Bool} {a : α} {l l' : List α} {r : Role}

theorem pick_cons_self (h : role isOp pending a = r) :
    pick isOp r pending (a :: l) = a :: pick isOp r r.pending l := by
  rw [pick, h, if_pos rfl]

theorem pick_cons_of_ne (h : role isOp pending a ≠ r) :
    pick isOp r pending (a :: l) = pick isOp r (role isOp pending a).pending l := by
  rw [pick, if_neg h]

/-- What the words behind the first one contribute is determined by the whole. -/
theorem pick_cons_inj (h : pick isOp r pending (a :: l') = pick isOp r pending (a :: l)) :
    pick isOp r (role isOp pending a).pending l' = pick isOp r (role isOp pending a).pending l := by
  rw [pick, pick] at h
  split at h
  · exact (List.cons.inj h).2
  · exact h

@[simp] theorem role_true : role isOp true a = .target := rfl

theorem role_false_of_op (h : isOp a = true) : role isOp false a = .operator := by
  rw [role, if_neg Bool.false_ne_true, if_pos h]

theorem role_false_of_not_op (h : isOp a = false) : role isOp false a = .argument := by
  rw [role, if_neg Bool.false_ne_true, if_neg (by rw [h]; exact Bool.false_ne_true)]

/-- An argument comes when no operator is waiting. -/
theorem pending_of_argument (h : role isOp pending a = .argument) : pending = false := by
  cases pending with
  | false => rfl
  | true => cases h

/-! ## Counting -/

@[simp] theorem items_nil : items isOp pending [] = 0 := rfl

theorem items_true_cons : items isOp true (a :: l) = 1 + items isOp false l := by
  rw [items, pick_cons_of_ne (by rw [role_true]; decide), pick_cons_self role_true,
    List.length_cons]
  show (pick isOp .argument false l).length + ((pick isOp .target false l).length + 1) = _
  rw [items]
  omega

theorem items_false_cons_of_op (h : isOp a = true) :
    items isOp false (a :: l) = items isOp true l := by
  have hrole := role_false_of_op h
  rw [items, pick_cons_of_ne (by rw [hrole]; decide), pick_cons_of_ne (by rw [hrole]; decide),
    hrole]
  rfl

theorem items_false_cons_of_not_op (h : isOp a = false) :
    items isOp false (a :: l) = 1 + items isOp false l := by
  have hrole := role_false_of_not_op h
  rw [items, pick_cons_self hrole, pick_cons_of_ne (by rw [hrole]; decide), hrole,
    List.length_cons]
  show (pick isOp .argument false l).length + 1 + (pick isOp .target false l).length = _
  rw [items]
  omega

/-- A waiting operator takes no word away, and adds one at most. -/
theorem items_true_bounds (isOp : α → Bool) (l : List α) :
    items isOp false l ≤ items isOp true l ∧ items isOp true l ≤ 1 + items isOp false l := by
  induction l with
  | nil => exact ⟨Nat.le_refl _, Nat.le_add_left ..⟩
  | cons a l ih =>
    rw [items_true_cons]
    cases h : isOp a with
    | true =>
      rw [items_false_cons_of_op h]
      omega
    | false =>
      rw [items_false_cons_of_not_op h]
      omega

end Scan

/-! ## Blanks -/

/-- The second list is the first with blanks put in. -/
inductive Padded {α : Type u} (blank : α) : List α → List α → Prop where
  | nil : Padded blank [] []
  | word (a : α) {l l' : List α} (h : Padded blank l l') : Padded blank (a :: l) (a :: l')
  | blank {l l' : List α} (h : Padded blank l l') : Padded blank l (blank :: l')

namespace Padded

variable {α : Type u} {β : Type v} {blank : α} {isOp : α → Bool} {l l' : List α}

theorem length_le (h : Padded blank l l') : l.length ≤ l'.length := by
  induction h with
  | nil => exact Nat.le_refl _
  | word a _ ih => exact Nat.succ_le_succ ih
  | blank _ ih => exact Nat.le_succ_of_le ih

/-- As many blanks as have been put in make the list longer. -/
theorem eq_of_length_le (h : Padded blank l l') (hlen : l'.length ≤ l.length) : l = l' := by
  induction h with
  | nil => rfl
  | word a _ ih => rw [ih (Nat.le_of_succ_le_succ hlen)]
  | blank hpad _ =>
    rw [List.length_cons] at hlen
    have := hpad.length_le
    omega

/-- Expanding each word keeps the blanks apart, if a blank is expanded to a blank. -/
theorem filterMap {f : α → Option β} {b : β} (hblank : f blank = some b) (h : Padded blank l l') :
    Padded b (l.filterMap f) (l'.filterMap f) ∧
      l'.length - l.length = (l'.filterMap f).length - (l.filterMap f).length := by
  induction h with
  | nil => exact ⟨.nil, rfl⟩
  | word a _ ih =>
    cases ha : f a with
    | none =>
      rw [List.filterMap_cons_none ha, List.filterMap_cons_none ha, List.length_cons,
        List.length_cons]
      exact ⟨ih.1, by omega⟩
    | some c =>
      rw [List.filterMap_cons_some ha, List.filterMap_cons_some ha]
      simp only [List.length_cons]
      exact ⟨.word c ih.1, by omega⟩
  | blank hpad ih =>
    rw [List.filterMap_cons_some hblank]
    have hle := hpad.length_le
    have hle' := ih.1.length_le
    simp only [List.length_cons]
    exact ⟨.blank ih.1, by omega⟩

/-- **Blanks add to the arguments and targets.** -/
theorem items_le (hop : isOp blank = false) (h : Padded blank l l') (pending : Bool) :
    items isOp pending l ≤ items isOp pending l' := by
  -- by induction on where the blanks are, for either state of the scan
  induction h generalizing pending with
  | nil => exact Nat.le_refl _
  | word a _ ih =>
    cases pending with
    | true =>
      rw [items_true_cons, items_true_cons]
      exact Nat.add_le_add_left (ih false) 1
    | false =>
      cases ha : isOp a with
      | true =>
        rw [items_false_cons_of_op ha, items_false_cons_of_op ha]
        exact ih true
      | false =>
        rw [items_false_cons_of_not_op ha, items_false_cons_of_not_op ha]
        exact Nat.add_le_add_left (ih false) 1
  | @blank l l' _ ih =>
    have hfalse := ih false
    cases pending with
    | true =>
      -- the blank is the target, so the words behind it are scanned with no operator waiting
      have := (items_true_bounds isOp l).2
      rw [items_true_cons]
      omega
    | false =>
      rw [items_false_cons_of_not_op hop]
      omega

/-- **Putting blanks in** changes the arguments or the targets. -/
theorem pick_ne (hop : isOp blank = false) (h : Padded blank l l') (hlt : l.length < l'.length)
    (pending : Bool) :
    ¬ (pick isOp .argument pending l' = pick isOp .argument pending l ∧
      pick isOp .target pending l' = pick isOp .target pending l) := by
  induction h generalizing pending with
  | nil => exact absurd hlt (Nat.lt_irrefl _)
  | word a _ ih =>
    rintro ⟨harg, htarget⟩
    exact ih (Nat.lt_of_succ_lt_succ hlt) _ ⟨pick_cons_inj harg, pick_cons_inj htarget⟩
  | @blank l l' hpad _ =>
    rintro ⟨harg, htarget⟩
    -- both lists would have the same number of arguments and targets
    have hitems : items isOp pending (blank :: l') = items isOp pending l := by
      rw [items, items, harg, htarget]
    have hle := hpad.items_le hop false
    cases pending with
    | false =>
      rw [items_false_cons_of_not_op hop] at hitems
      omega
    | true =>
      rw [items_true_cons] at hitems
      cases l with
      | nil =>
        rw [items_nil] at hitems
        omega
      | cons y l =>
        -- both scans begin with a target, so the next word was a blank already
        rw [pick_cons_self role_true, pick_cons_self role_true] at htarget
        rw [← (List.cons.inj htarget).1, items_true_cons] at hitems
        rw [← (List.cons.inj htarget).1, items_false_cons_of_not_op hop] at hle
        omega

end Padded

end Redirect
