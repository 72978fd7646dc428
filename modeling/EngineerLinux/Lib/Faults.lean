import EngineerLinux.Lib.Prog

/-!
# Calls that fail

- `Prog.faulty`: a kernel some of whose calls fail, as a plan says that tells them apart by their
  number;
- `Prog.runOk`: the run of a program against a kernel as far as all its calls succeed.
-/

namespace Prog

variable {S : Sys} {R T σ : Type} {kernel : (c : S.Call) → σ → S.Ans c × σ}

/-- The n-th of the calls that can fail does so if `fails n`, with the answer for this, and changes
nothing. The state has the number of the next such call. -/
def faulty (fails : Nat → Bool) (failure : (c : S.Call) → Option (S.Ans c))
    (kernel : (c : S.Call) → σ → S.Ans c × σ) (c : S.Call) (s : σ × Nat) : S.Ans c × (σ × Nat) :=
  match failure c with
  | none => ((kernel c s.1).1, (kernel c s.1).2, s.2)
  | some a =>
    if fails s.2 then (a, s.1, s.2 + 1) else ((kernel c s.1).1, (kernel c s.1).2, s.2 + 1)

section

variable {fails : Nat → Bool} {failure : (c : S.Call) → Option (S.Ans c)} {c : S.Call} {s : σ × Nat}

theorem faulty_sure (h : failure c = none) : faulty fails failure kernel c s =
    ((kernel c s.1).1, (kernel c s.1).2, s.2) := by
  unfold faulty
  rw [h]

theorem faulty_fails {a : S.Ans c} (h : failure c = some a) (hf : fails s.2 = true) :
    faulty fails failure kernel c s = (a, s.1, s.2 + 1) := by
  unfold faulty
  rw [h]
  exact if_pos hf

theorem faulty_works {a : S.Ans c} (h : failure c = some a) (hf : fails s.2 = false) :
    faulty fails failure kernel c s = ((kernel c s.1).1, (kernel c s.1).2, s.2 + 1) := by
  unfold faulty
  rw [h]
  exact if_neg (by rw [hf]; exact Bool.false_ne_true)

/-- Where nothing fails. -/
theorem run_faulty_none (failure : (c : S.Call) → Option (S.Ans c))
    (kernel : (c : S.Call) → σ → S.Ans c × σ) (p : Prog S R) (s : σ) (n : Nat) :
    (p.run (faulty (fun _ => false) failure kernel) (s, n)).1 = (p.run kernel s).1 ∧
      (p.run (faulty (fun _ => false) failure kernel) (s, n)).2.1 = (p.run kernel s).2 := by
  induction p generalizing s n with
  | ret r => exact ⟨rfl, rfl⟩
  | call c k ih =>
    rw [run_call, run_call]
    cases hfailure : failure c with
    | none =>
      rw [faulty_sure hfailure]
      exact ih ..
    | some a =>
      rw [faulty_works hfailure rfl]
      exact ih ..

end

/-- The run of a program in which all calls succeed, according to their answers. -/
def runOk (ok : (c : S.Call) → S.Ans c → Bool) (kernel : (c : S.Call) → σ → S.Ans c × σ) :
    Prog S R → σ → Option (R × σ)
  | .ret r, s => some (r, s)
  | .call c k, s =>
    if ok c (kernel c s).1 then (k (kernel c s).1).runOk ok kernel (kernel c s).2 else none

section

variable {ok : (c : S.Call) → S.Ans c → Bool} {c : S.Call} {k : S.Ans c → Prog S R} {s s' : σ}
  {r : R}

theorem runOk_call : (Prog.call c k).runOk ok kernel s = some (r, s') ↔
    ok c (kernel c s).1 = true ∧
      (k (kernel c s).1).runOk ok kernel (kernel c s).2 = some (r, s') := by
  show (if _ then _ else _) = _ ↔ _
  split
  · next h => exact (and_iff_right h).symm
  · next h => exact iff_of_false nofun fun hc => h hc.1

theorem runOk_call_of {a : S.Ans c} {s₁ : σ} (h : kernel c s = (a, s₁)) :
    (Prog.call c k).runOk ok kernel s = some (r, s') ↔
      ok c a = true ∧ (k a).runOk ok kernel s₁ = some (r, s') := by
  rw [runOk_call, h]

theorem runOk_ret {r' : R} : (Prog.ret r' : Prog S R).runOk ok kernel s = some (r, s') ↔
    r' = r ∧ s = s' := by
  show some (r', s) = some (r, s') ↔ _
  rw [Option.some.injEq, Prod.mk.injEq]

theorem runOk_bind {r : T} {p : Prog S R} {q : R → Prog S T} :
    (p.bind q).runOk ok kernel s = some (r, s') ↔ ∃ r₁ s₁,
      p.runOk ok kernel s = some (r₁, s₁) ∧ (q r₁).runOk ok kernel s₁ = some (r, s') := by
  induction p generalizing s with
  | ret r₁ =>
    simp only [runOk_ret]
    constructor
    · exact fun h => ⟨r₁, s, ⟨rfl, rfl⟩, h⟩
    · rintro ⟨_, _, ⟨rfl, rfl⟩, h⟩
      exact h
  | call c k ih =>
    rw [Prog.bind, runOk_call, ih]
    simp only [runOk_call]
    constructor
    · rintro ⟨hok, r₁, s₁, hfirst, hrest⟩
      exact ⟨r₁, s₁, ⟨hok, hfirst⟩, hrest⟩
    · rintro ⟨r₁, s₁, ⟨hok, hfirst⟩, hrest⟩
      exact ⟨hok, r₁, s₁, hfirst, hrest⟩

/-- It is the run. -/
theorem run_of_runOk {p : Prog S R} (h : p.runOk ok kernel s = some (r, s')) :
    p.run kernel s = (r, s') := by
  induction p generalizing s with
  | ret r' =>
    obtain ⟨rfl, rfl⟩ := runOk_ret.mp h
    rfl
  | call c k ih => exact ih _ (runOk_call.mp h).2

end

end Prog
