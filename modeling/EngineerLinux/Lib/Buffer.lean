import Mathlib.Data.List.Basic
import Mathlib.Data.List.TakeDrop

/-!
# Buffers with checked access

A buffer is a list of cells; a read or a write that does not lie inside it gives nothing. What a
cell is does not matter here.

- `write_eq_some_iff`: a write succeeds exactly if it lies inside the buffer;
- `read_write_self`, `read_write_of_disjoint`: **what a write changes**. What has been written is
  read back, and what lies before or behind it is read as before;
- `overwrite`: a buffer that grows, such as a file. `overwrite_append`: writing on from where the
  last write ended.
-/

universe u

namespace Buffer

variable {α : Type u}

/-- The cells `xs`, written at an offset. -/
def write (b : List α) (off : Nat) (xs : List α) : Option (List α) :=
  if off + xs.length ≤ b.length then some (b.take off ++ (xs ++ b.drop (off + xs.length)))
  else none

/-- The `n` cells at an offset. -/
def read (b : List α) (off n : Nat) : Option (List α) :=
  if off + n ≤ b.length then some ((b.drop off).take n) else none

variable {b b' : List α} {off off' n : Nat} {xs ys : List α}

theorem write_eq_some_iff : (∃ b', write b off xs = some b') ↔ off + xs.length ≤ b.length := by
  unfold write
  split
  · next h => exact iff_of_true ⟨_, rfl⟩ h
  · next h => exact iff_of_false nofun h

theorem write_eq_none (h : b.length < off + xs.length) : write b off xs = none :=
  if_neg (Nat.not_le.mpr h)

theorem write_inv (h : write b off xs = some b') :
    off + xs.length ≤ b.length ∧ b' = b.take off ++ (xs ++ b.drop (off + xs.length)) := by
  unfold write at h
  split at h
  · next hle => exact ⟨hle, (Option.some.inj h).symm⟩
  · cases h

theorem length_write (h : write b off xs = some b') : b'.length = b.length := by
  obtain ⟨hle, rfl⟩ := write_inv h
  simp only [List.length_append, List.length_take, List.length_drop]
  omega

theorem read_eq_some_iff :
    read b off n = some ys ↔ off + n ≤ b.length ∧ (b.drop off).take n = ys := by
  unfold read
  split
  · next h => rw [Option.some.injEq, and_iff_right h]
  · next h => exact iff_of_false nofun fun h' => h h'.1

/-- What has been read lies behind its offset. -/
theorem drop_eq_of_read (h : read b off n = some ys) : ∃ rest, b.drop off = ys ++ rest := by
  obtain ⟨-, rfl⟩ := read_eq_some_iff.mp h
  exact ⟨(b.drop off).drop n, (List.take_append_drop n _).symm⟩

/-- What is there from the offset on. -/
theorem drop_write (h : write b off xs = some b') :
    b'.drop off = xs ++ b.drop (off + xs.length) := by
  obtain ⟨hle, rfl⟩ := write_inv h
  exact List.drop_left' (by rw [List.length_take]; omega)

/-- **What has been written is read back.** -/
theorem read_write_self (h : write b off xs = some b') : read b' off xs.length = some xs := by
  have hlen := length_write h
  obtain ⟨hle, rfl⟩ := write_inv h
  refine read_eq_some_iff.mpr ⟨hlen ▸ hle, ?_⟩
  rw [List.drop_append_of_le_length (by rw [List.length_take]; omega), List.drop_take, Nat.sub_self,
    List.take_zero, List.nil_append, List.take_left]

/-- **What lies before or behind a write is read as before.** -/
theorem read_write_of_disjoint (h : write b off xs = some b')
    (hd : off' + n ≤ off ∨ off + xs.length ≤ off') : read b' off' n = read b off' n := by
  have hlen := length_write h
  obtain ⟨hle, rfl⟩ := write_inv h
  unfold read
  rw [hlen]
  split
  case isFalse => rfl
  case isTrue hin =>
    congr 1
    -- the cells read are among those in front of the write, or among those behind it
    rcases hd with hbefore | hbehind
    · rw [List.drop_append_of_le_length (by rw [List.length_take]; omega), List.drop_take,
        List.take_append_of_le_length (by rw [List.length_take, List.length_drop]; omega),
        List.take_take, Nat.min_eq_left (by omega)]
    · obtain ⟨k, rfl⟩ := Nat.exists_eq_add_of_le hbehind
      rw [← List.append_assoc, List.drop_append, List.drop_eq_nil_of_le (by
        rw [List.length_append, List.length_take]; omega), List.nil_append, List.length_append,
        List.length_take, Nat.min_eq_left (by omega), Nat.add_sub_cancel_left, List.drop_drop]

/-! ## One cell after the other -/

/-- The next cell of a buffer that is filled from the front. -/
theorem write_next {front rest : List α} {x y : α} :
    write (front ++ x :: rest) front.length [y] = some (front ++ [y] ++ rest) := by
  unfold write
  rw [if_pos (by simp), List.take_left, List.append_assoc, List.length_singleton]
  congr 3
  rw [List.append_cons, List.drop_append_of_le_length (by simp), List.drop_eq_nil_of_le (by simp),
    List.nil_append]

/-- There is none when it is full. -/
theorem write_full {front : List α} {y : α} : write front front.length [y] = none :=
  write_eq_none (Nat.lt_succ_self _)

/-! ## Buffers that grow -/

/-- The cells `xs`, written at an offset into a buffer that grows as needed. -/
def overwrite (fill : α) (b : List α) (off : Nat) (xs : List α) : List α :=
  b.take off ++ List.replicate (off - b.length) fill ++ xs ++ b.drop (off + xs.length)

variable {fill : α}

theorem overwrite_eq (h : off ≤ b.length) :
    overwrite fill b off xs = b.take off ++ (xs ++ b.drop (off + xs.length)) := by
  rw [overwrite, Nat.sub_eq_zero_of_le h, List.replicate_zero, List.append_nil, List.append_assoc]

theorem overwrite_nil (h : off ≤ b.length) : overwrite fill b off [] = b := by
  rw [overwrite_eq h]
  exact List.take_append_drop off b

theorem overwrite_zero : overwrite fill b 0 xs = xs ++ b.drop xs.length := by
  rw [overwrite_eq (Nat.zero_le _), List.take_zero, List.nil_append, Nat.zero_add]

/-- The offset behind a write lies in the buffer. -/
theorem le_length_overwrite (fill : α) (xs : List α) (h : off ≤ b.length) :
    off + xs.length ≤ (overwrite fill b off xs).length := by
  rw [overwrite_eq h, List.length_append, List.length_append, List.length_take]
  omega

/-- Writing on from where the last write ended. -/
theorem overwrite_append (h : off ≤ b.length) :
    overwrite fill (overwrite fill b off xs) (off + xs.length) ys =
      overwrite fill b off (xs ++ ys) := by
  have hfront : (b.take off ++ xs).length = off + xs.length := by
    rw [List.length_append, List.length_take, Nat.min_eq_left h]
  have hwritten : overwrite fill b off xs = (b.take off ++ xs) ++ b.drop (off + xs.length) := by
    rw [overwrite_eq h, List.append_assoc]
  have htake : (overwrite fill b off xs).take (off + xs.length) = b.take off ++ xs := by
    rw [hwritten, List.take_left' hfront]
  have hdrop : (overwrite fill b off xs).drop (off + xs.length) = b.drop (off + xs.length) := by
    rw [hwritten, List.drop_left' hfront]
  rw [overwrite_eq (le_length_overwrite fill xs h), htake, ← List.drop_drop, hdrop, overwrite_eq h,
    List.drop_drop, List.length_append, Nat.add_assoc]
  simp only [List.append_assoc]

end Buffer
