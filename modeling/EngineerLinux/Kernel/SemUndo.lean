import Mathlib.Logic.Function.Basic

/-!
# System V semaphores with `SEM_UNDO`

One semaphore, and for every process the adjustment the kernel keeps for it. A `semop` by `d` with
`SEM_UNDO` blocks if the value would become negative; it fails with `ERANGE`, without any effect,
if the new value or the new adjustment is outside the kernel's limits; otherwise the value changes
by `d` and the caller's adjustment by `-d`. When a process exits, its adjustment is added to the
value.
-/

namespace EngineerLinux.Kernel

/-- What the kernel can store: adjustments, and semaphore values. -/
structure SemLimits where
  adjOk : Int → Bool
  valueOk : Int → Bool

/-- Linux: adjustments in `[-SEMVMX - 1, SEMVMX]`, values up to `SEMVMX = 32767`. -/
def SemLimits.linux : SemLimits where
  adjOk a := -32768 ≤ a ∧ a ≤ 32767
  valueOk v := v ≤ 32767

/-- A semaphore and the adjustments of the processes `π`. -/
structure Sem (π : Type) where
  value : Nat
  adj : π → Int

/-- A semaphore set to 0 with `SETVAL`. -/
def Sem.zero (π : Type) : Sem π := ⟨0, fun _ => 0⟩

/-- The outcome of a `semop`. -/
inductive Semop (π : Type) where
  | done (s : Sem π)
  | blocks
  | erange

variable {π : Type} [DecidableEq π]

/-- `semop` with one operation `sem_op = d` and `sem_flg = SEM_UNDO`, by process `p`. -/
def semop (L : SemLimits) (s : Sem π) (p : π) (d : Int) : Semop π :=
  if s.value + d < 0 then .blocks
  else if L.valueOk (s.value + d) ∧ L.adjOk (s.adj p - d) then
    .done ⟨(s.value + d).toNat, Function.update s.adj p (s.adj p - d)⟩
  else .erange

/-- The exit of process `p`: its adjustment goes into the value, clamped to what the kernel
stores, and is forgotten. -/
def Sem.exit (s : Sem π) (p : π) : Sem π :=
  ⟨(max 0 (min 32767 (s.value + s.adj p))).toNat, Function.update s.adj p 0⟩

/-- A completed `semop` moved the value and the caller's adjustment, within the limits. -/
theorem semop_done {L : SemLimits} {s s' : Sem π} {p : π} {d : Int}
    (h : semop L s p d = .done s') :
    (s'.value : Int) = s.value + d ∧ s'.adj = Function.update s.adj p (s.adj p - d) ∧
      L.valueOk s'.value = true ∧ L.adjOk (s'.adj p) = true := by
  unfold semop at h
  split at h
  · cases h
  · next hnonneg =>
    split at h
    · next hok =>
      injection h with h
      subst h
      have hval : (((s.value + d).toNat : Nat) : Int) = s.value + d :=
        Int.toNat_of_nonneg (Int.not_lt.mp hnonneg)
      refine ⟨hval, rfl, ?_, ?_⟩
      · show L.valueOk (((s.value + d).toNat : Nat) : Int) = true
        rw [hval]
        exact hok.1
      · simpa using hok.2
    · cases h

/-- A `semop` that neither blocks nor leaves the limits completes. -/
theorem semop_of_ok {L : SemLimits} {s : Sem π} {p : π} {d : Int} (hnonneg : 0 ≤ s.value + d)
    (hvalue : L.valueOk (s.value + d) = true) (hadj : L.adjOk (s.adj p - d) = true) :
    semop L s p d = .done ⟨(s.value + d).toNat, Function.update s.adj p (s.adj p - d)⟩ := by
  unfold semop
  rw [if_neg (Int.not_lt.mpr hnonneg), if_pos ⟨hvalue, hadj⟩]

/-- A `semop` blocks exactly if the value would become negative. -/
theorem semop_eq_blocks_iff {L : SemLimits} {s : Sem π} {p : π} {d : Int} :
    semop L s p d = .blocks ↔ s.value + d < 0 := by
  unfold semop
  split
  · next hneg => exact iff_of_true rfl hneg
  · next hnonneg =>
    refine iff_of_false ?_ hnonneg
    split <;> nofun

/-- A `semop` that does not block fails at the limits only. -/
theorem semop_ne_erange_iff {L : SemLimits} {s : Sem π} {p : π} {d : Int}
    (hnonneg : 0 ≤ s.value + d) : semop L s p d ≠ .erange ↔
      L.valueOk (s.value + d) = true ∧ L.adjOk (s.adj p - d) = true := by
  unfold semop
  rw [if_neg (Int.not_lt.mpr hnonneg)]
  split
  · next hok => exact iff_of_true nofun hok
  · next hbad => exact iff_of_false (fun h => h rfl) hbad

/-- A process without an adjustment leaves no trace in the value when it exits. -/
theorem Sem.exit_value_of_zero {s : Sem π} {p : π} (hadj : s.adj p = 0) (hmax : s.value ≤ 32767) :
    (s.exit p).value = s.value := by
  unfold Sem.exit
  rw [hadj]
  show (max 0 (min 32767 ((s.value : Int) + 0))).toNat = s.value
  omega

/-- A process that took `k ≥ 1` units raises the value when it exits, unless it is at its
maximum. -/
theorem Sem.exit_value_lt {s : Sem π} {p : π} (hadj : 0 < s.adj p) (hmax : s.value < 32767) :
    s.value < (s.exit p).value := by
  unfold Sem.exit
  show s.value < (max 0 (min 32767 ((s.value : Int) + s.adj p))).toNat
  omega

end EngineerLinux.Kernel
