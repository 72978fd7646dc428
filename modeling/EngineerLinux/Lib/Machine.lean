import Mathlib.Data.Option.Basic
import Mathlib.Data.List.Basic

/-!
# Machines driven by schedules

A `Machine` is a set of initial states together with a partial step function: `next s a` is
`some t` when the label `a` is enabled in `s`, and `none` when it is blocked. A *schedule* is a
list of labels, so a run of several threads or processes is the schedule that says who moves
next; quantifying over all schedules is quantifying over all interleavings.

- `Machine.exec`: the state a schedule leads to;
- `Machine.AllStates` / `Machine.AllSteps`: a predicate on every state a schedule visits, and a
  predicate on every step it takes (the state before the step, and the label);
- `Machine.allStates_of_inductive`: a predicate preserved by every step that meets a guard holds
  in every state of a schedule whose steps all meet the guard. This is the invariant rule; the
  rule for unguarded runs (`Machine.exec_induction`) is the case of the trivial guard;
- `Machine.Simulates`: forward simulation, with its transfer to runs (`Simulates.exec`).
-/

universe u v w x

/-- A machine over states `σ` and labels `α`: the initial states and a partial step. -/
structure Machine (σ : Type u) (α : Type v) where
  init : σ → Prop
  next : σ → α → Option σ

namespace Machine

variable {σ : Type u} {α : Type v} (M : Machine σ α)

/-- The state reached from `s` by a schedule; `none` if some label of it is blocked. -/
def exec (s : σ) : List α → Option σ
  | [] => some s
  | a :: as => (M.next s a).bind fun t => exec t as

/-- `t` is reached from an initial state by some schedule. -/
def Reachable (t : σ) : Prop := ∃ s as, M.init s ∧ M.exec s as = some t

/-- Every state visited from `s` along the schedule, both ends included, satisfies `P`. -/
def AllStates (P : σ → Prop) (s : σ) : List α → Prop
  | [] => P s
  | a :: as => P s ∧ ∀ t, M.next s a = some t → AllStates P t as

/-- Every step taken from `s` along the schedule satisfies `G`. -/
def AllSteps (G : σ → α → Prop) (s : σ) : List α → Prop
  | [] => True
  | a :: as => G s a ∧ ∀ t, M.next s a = some t → AllSteps G t as

/-- How many of the steps taken from `s` along the schedule satisfy `p`. -/
def count (p : σ → α → Bool) (s : σ) : List α → Nat
  | [] => 0
  | a :: as => (p s a).toNat + (M.next s a).elim 0 fun t => count p t as

/-- Whether every step of a schedule satisfies a decidable guard can be computed by running it. -/
instance decidableAllSteps (M : Machine σ α) (G : σ → α → Prop) [∀ s a, Decidable (G s a)] :
    ∀ (s : σ) (as : List α), Decidable (M.AllSteps G s as)
  | _, [] => .isTrue trivial
  | s, a :: as =>
    match hn : M.next s a with
    | none => decidable_of_iff (G s a) ⟨fun h => ⟨h, fun _ ht => nomatch hn.symm.trans ht⟩, (·.1)⟩
    | some u =>
      have := decidableAllSteps M G u as
      decidable_of_iff (G s a ∧ M.AllSteps G u as)
        ⟨fun h => ⟨h.1, fun _ ht => Option.some.inj (hn.symm.trans ht) ▸ h.2⟩,
          fun h => ⟨h.1, h.2 u hn⟩⟩

/-! ## Schedules -/

variable {M} {P Q : σ → Prop} {G H : σ → α → Prop} {s t : σ} {a : α} {as bs : List α}

@[simp] theorem exec_nil : M.exec s [] = some s := rfl

theorem exec_cons_of_next (h : M.next s a = some t) : M.exec s (a :: as) = M.exec t as := by
  simp [exec, h]

/-- A schedule that runs to its end takes its first step. -/
theorem exec_cons_inv {u : σ} (h : M.exec s (a :: as) = some u) :
    ∃ t, M.next s a = some t ∧ M.exec t as = some u :=
  Option.bind_eq_some_iff.mp h

theorem exec_append (s : σ) (as bs : List α) :
    M.exec s (as ++ bs) = (M.exec s as).bind fun t => M.exec t bs := by
  induction as generalizing s with
  | nil => rfl
  | cons a as ih =>
    show (M.next s a).bind _ = ((M.next s a).bind _).bind _
    cases M.next s a with
    | none => rfl
    | some u => exact ih u

theorem exec_append_of_exec (h : M.exec s as = some t) :
    M.exec s (as ++ bs) = M.exec t bs := by
  rw [exec_append, h, Option.bind_some]

@[simp] theorem count_nil {p : σ → α → Bool} : M.count p s [] = 0 := rfl

theorem count_cons_of_next {p : σ → α → Bool} (h : M.next s a = some t) :
    M.count p s (a :: as) = (p s a).toNat + M.count p t as := by
  rw [count, h, Option.elim_some]

/-! ## Predicates along a schedule -/

theorem AllStates.head (h : M.AllStates P s as) : P s := by
  cases as with
  | nil => exact h
  | cons a as => exact h.1

theorem AllStates.mono (hPQ : ∀ u, P u → Q u) (h : M.AllStates P s as) : M.AllStates Q s as := by
  induction as generalizing s with
  | nil => exact hPQ s h
  | cons a as ih => exact ⟨hPQ s h.1, fun t ht => ih (h.2 t ht)⟩

theorem AllStates.steps (hPG : ∀ u b, P u → G u b) (h : M.AllStates P s as) :
    M.AllSteps G s as := by
  induction as generalizing s with
  | nil => trivial
  | cons a as ih => exact ⟨hPG s a h.1, fun t ht => ih (h.2 t ht)⟩

theorem AllSteps.mono (hGH : ∀ u b, G u b → H u b) (h : M.AllSteps G s as) :
    M.AllSteps H s as := by
  induction as generalizing s with
  | nil => trivial
  | cons a as ih => exact ⟨hGH s a h.1, fun t ht => ih (h.2 t ht)⟩

/-- The last state of a schedule is one of the states it visits. -/
theorem AllStates.last (h : M.AllStates P s as) (he : M.exec s as = some t) : P t := by
  induction as generalizing s with
  | nil =>
    obtain rfl := Option.some.inj he
    exact h
  | cons a as ih =>
    obtain ⟨u, hu, hrun⟩ := exec_cons_inv he
    exact ih (h.2 u hu) hrun

/-- A predicate on labels alone holds along a schedule as soon as its labels satisfy it. -/
theorem allSteps_of_labels {L : α → Prop} (h : ∀ b ∈ as, L b) :
    M.AllSteps (fun _ b => L b) s as := by
  induction as generalizing s with
  | nil => trivial
  | cons a as ih =>
    exact ⟨h a (List.mem_cons_self ..), fun t _ => ih fun b hb => h b (List.mem_cons_of_mem _ hb)⟩

theorem allSteps_true : M.AllSteps (fun _ _ => True) s as :=
  allSteps_of_labels (L := fun _ => True) fun _ _ => trivial

theorem AllSteps.and (hG : M.AllSteps G s as) (hH : M.AllSteps H s as) :
    M.AllSteps (fun u b => G u b ∧ H u b) s as := by
  induction as generalizing s with
  | nil => trivial
  | cons a as ih => exact ⟨⟨hG.1, hH.1⟩, fun t ht => ih (hG.2 t ht) (hH.2 t ht)⟩

/-! ## The invariant rule -/

/-- **Invariant rule, guarded runs**: a predicate that every step meeting the guard preserves
holds in every state of a schedule whose steps all meet the guard. -/
theorem allStates_of_inductive (hstep : ∀ u b t, P u → G u b → M.next u b = some t → P t)
    (hs : P s) (hG : M.AllSteps G s as) : M.AllStates P s as := by
  induction as generalizing s with
  | nil => exact hs
  | cons a as ih => exact ⟨hs, fun t ht => ih (hstep s a t hs hG.1 ht) (hG.2 t ht)⟩

/-- The state a guarded schedule ends in satisfies every predicate its steps preserve. -/
theorem exec_guarded_induction (hstep : ∀ u b t, P u → G u b → M.next u b = some t → P t)
    (hs : P s) (hG : M.AllSteps G s as) (he : M.exec s as = some t) : P t :=
  (allStates_of_inductive hstep hs hG).last he

/-- **Invariant rule**: a predicate that holds initially and is preserved by every step holds in
every reachable state. -/
theorem Reachable.induction (hinit : ∀ u, M.init u → P u)
    (hstep : ∀ u b t, P u → M.next u b = some t → P t) (h : M.Reachable t) : P t := by
  obtain ⟨s, as, hs, he⟩ := h
  exact exec_guarded_induction (G := fun _ _ => True) (fun u b v hu _ hv => hstep u b v hu hv)
    (hinit s hs) allSteps_true he

/-- **Necessary guards**: if in every state satisfying `I` and `P` a step that misses the guard
leads out of `P`, then a schedule that can be run to its end and stays in `P` meets the guard at
each of its steps. What is known of the steps anyway (`H`) may be used throughout. -/
theorem allSteps_of_allStates {I : σ → Prop}
    (hstep : ∀ u b t, I u → H u b → G u b → M.next u b = some t → I t)
    (hout : ∀ u b t, I u → H u b → P u → ¬ G u b → M.next u b = some t → ¬ P t)
    (hs : I s) (hH : M.AllSteps H s as) (hP : M.AllStates P s as) (he : M.exec s as = some t) :
    M.AllSteps G s as := by
  induction as generalizing s with
  | nil => trivial
  | cons a as ih =>
    obtain ⟨u, hu, hrun⟩ := exec_cons_inv he
    have hG : G s a := by
      by_contra hn
      exact hout s a u hs hH.1 hP.1 hn hu (hP.2 u hu).head
    refine ⟨hG, fun v hv => ?_⟩
    obtain rfl : u = v := Option.some.inj (hu.symm.trans hv)
    exact ih (hstep s a u hs hH.1 hG hu) (hH.2 u hu) (hP.2 u hu) hrun

/-! ## Forward simulation -/

/-- `R` is a forward simulation of the guarded machine `M` by `N`: every step of `M` that meets
the guard is matched by a (possibly empty) schedule of `N`. -/
structure Simulates {τ : Type w} {β : Type x} (M : Machine σ α) (G : σ → α → Prop)
    (N : Machine τ β) (R : σ → τ → Prop) : Prop where
  step : ∀ {s a s' t}, R s t → G s a → M.next s a = some s' →
    ∃ bs t', N.exec t bs = some t' ∧ R s' t'

/-- A run of the simulated machine is matched by a run of the simulating one. -/
theorem Simulates.exec {τ : Type w} {β : Type x} {N : Machine τ β} {R : σ → τ → Prop}
    (hsim : Simulates M G N R) {s s' : σ} {t : τ} (hR : R s t) (hG : M.AllSteps G s as)
    (he : M.exec s as = some s') : ∃ bs t', N.exec t bs = some t' ∧ R s' t' := by
  induction as generalizing s t with
  | nil =>
    obtain rfl := Option.some.inj he
    exact ⟨[], t, rfl, hR⟩
  | cons a as ih =>
    obtain ⟨u, hu, hrun⟩ := exec_cons_inv he
    obtain ⟨bs, t₁, hbs, hR₁⟩ := hsim.step hR hG.1 hu
    obtain ⟨cs, t₂, hcs, hR₂⟩ := ih hR₁ (hG.2 u hu) hrun
    exact ⟨bs ++ cs, t₂, (exec_append_of_exec hbs).trans hcs, hR₂⟩

end Machine
