import EngineerLinux.StartProcess.Model
import Mathlib.Data.List.Infix
import Mathlib.Tactic.Common

/-!
# What the splitting loop finds

The loop (`main.c` 91-99) computes positions as `int`. As long as the command has no more than 2^31
bytes they are exact, up to the position behind the last byte, and the loop ends with the pieces
between the spaces, without the last one if it is empty. The induction is on what is left of the
command behind the position.

- `splitLoop_eq`: the loop finds `words command`;
- `words_join`, `words_join_space`: words joined by single spaces are found again;
- `neat_iff`: the commands in which no word is empty.
-/

namespace EngineerLinux.StartProcess

/-- `INT_MAX + 1`. -/
def intLimit : Nat := 2147483648

variable {a b command : Text} {pos fuel : Nat}

/-! ## Positions -/

theorem find_of_not_mem (h : ' ' ∉ command.drop pos) : find command ' ' pos = npos := by
  unfold find
  rw [List.findIdx?_eq_none_iff.mpr]
  intro c hc
  exact decide_eq_false fun heq => h (heq ▸ hc)

theorem find_of_first (h : command.drop pos = a ++ ' ' :: b) (ha : ' ' ∉ a) :
    find command ' ' pos = pos + a.length := by
  have hfirst : (a ++ ' ' :: b).findIdx? (· = ' ') = some a.length := by
    rw [List.findIdx?_append, List.findIdx?_eq_none_iff.mpr]
    · simp [List.findIdx?_cons]
    · intro c hc
      exact decide_eq_false fun heq => ha (heq ▸ hc)
  unfold find
  rw [h, hfirst]

theorem toInt_npos : toInt npos = -1 := by decide

theorem toInt_of_lt {n : Nat} (h : n < intLimit) : toInt n = n := by
  unfold toInt intLimit at *
  rw [Int.bmod_eq_of_le] <;> omega

theorem toSizeT_of_lt {n : Nat} (h : n ≤ intLimit) : toSizeT n = n := by
  unfold toSizeT intLimit at *
  omega

/-- The `int` behind the last one is a negative number, and a large size. -/
theorem toSizeT_toInt_limit {n : Nat} (h : intLimit ≤ n) (h' : n ≤ intLimit) :
    toSizeT (toInt n) = 18446744071562067968 := by
  obtain rfl := Nat.le_antisymm h h'
  decide

/-! ## Words -/

/-- The pieces between the spaces, without the last one if it is empty. -/
def words (command : Text) : List Text :=
  let pieces := command.splitOn ' '
  if pieces.getLast? = some [] then pieces.dropLast else pieces

theorem words_nil : words [] = [] := rfl

theorem words_of_not_mem (h : ' ' ∉ a) (ha : a ≠ []) : words a = [a] := by
  unfold words
  rw [List.splitOn_eq_singleton h]
  exact if_neg fun heq => ha (Option.some.inj heq)

theorem words_append_cons (h : ' ' ∉ a) (b : Text) : words (a ++ ' ' :: b) = a :: words b := by
  obtain ⟨p, ps, hp⟩ := List.exists_cons_of_ne_nil (List.splitOn_ne_nil ' ' b)
  unfold words
  rw [List.splitOn_append_cons_self_of_not_mem h, hp]
  show (if (p :: ps).getLast? = some [] then a :: (p :: ps).dropLast else a :: p :: ps) =
    a :: if (p :: ps).getLast? = some [] then (p :: ps).dropLast else p :: ps
  split <;> rfl

/-- The pieces of a text, from the first: a text is empty, or one piece, or a piece, a space, and a
shorter text. -/
theorem space_induction {motive : Text → Prop} (nil : motive [])
    (piece : ∀ a, ' ' ∉ a → a ≠ [] → motive a)
    (space : ∀ a b, ' ' ∉ a → motive b → motive (a ++ ' ' :: b)) (s : Text) : motive s := by
  induction hn : s.length using Nat.strongRecOn generalizing s with
  | ind n ih =>
    by_cases h : ' ' ∈ s
    · obtain ⟨a, b, rfl, ha⟩ := List.eq_append_cons_of_mem h
      rw [List.length_append, List.length_cons] at hn
      exact space a b ha (ih b.length (by omega) b rfl)
    · by_cases hs : s = []
      · exact hs ▸ nil
      · exact piece s h hs

/-- **The splitting loop** ends, with the words of the command. -/
theorem splitLoop_eq (h : command.length ≤ intLimit) (hpos : pos ≤ command.length)
    (hfuel : command.length - pos < fuel) :
    splitLoop command fuel pos = some (words (command.drop pos)) := by
  generalize hrest : command.drop pos = rest
  have hlen : rest.length = command.length - pos := by rw [← hrest, List.length_drop]
  obtain ⟨fuel, rfl⟩ : ∃ k, fuel = k + 1 := ⟨fuel - 1, by omega⟩
  induction rest using space_induction generalizing pos fuel with
  | nil =>
    rw [List.length_nil] at hlen
    simp only [splitLoop]
    rw [if_neg (by omega), words_nil]
  | piece a hspace hne =>
    have hlt : 0 < a.length := List.length_pos_of_ne_nil hne
    simp only [splitLoop]
    rw [if_pos (by omega), find_of_not_mem (hrest ▸ hspace), toInt_npos, if_pos (by decide),
      words_of_not_mem hspace hne, substr, hrest, ← hlen, List.take_length]
  | space a b hspace ih =>
    rw [List.length_append, List.length_cons] at hlen
    have hfind := find_of_first hrest hspace
    have hint : toInt (pos + a.length : Nat) = (pos + a.length : Nat) :=
      toInt_of_lt (by omega)
    have hsubstr : substr command pos (toSizeT ((pos + a.length : Nat) - (pos : Int))) = a := by
      rw [show ((pos + a.length : Nat) : Int) - pos = (a.length : Nat) by omega,
        toSizeT_of_lt (by omega), substr, hrest, List.take_left]
    have hdrop : command.drop (pos + a.length + 1) = b := by
      rw [Nat.add_assoc, ← List.drop_drop, hrest, ← List.drop_drop, List.drop_left]
      rfl
    simp only [splitLoop]
    rw [if_pos (by omega), hfind, hint, if_neg (by omega), hsubstr, words_append_cons hspace,
      show ((pos + a.length : Nat) : Int) + 1 = (pos + a.length + 1 : Nat) by omega]
    -- the next position is exact, or the one behind `INT_MAX`
    obtain ⟨fuel, rfl⟩ : ∃ k, fuel = k + 1 := ⟨fuel - 1, by omega⟩
    rcases Nat.lt_or_ge (pos + a.length + 1) intLimit with hnext | hnext
    · rw [toInt_of_lt hnext, toSizeT_of_lt (by omega),
        ih (by omega) hdrop (by omega) fuel (by omega)]
      rfl
    · -- the space is the last of 2^31 bytes, and the next position is none of the command
      have hb : b = [] := List.eq_nil_of_length_eq_zero (by omega)
      rw [toSizeT_toInt_limit hnext (by omega), hb, words_nil, splitLoop]
      rw [if_neg (by unfold intLimit at h; omega)]
      rfl

/-- The loop from the beginning, with a turn for each byte and one more. -/
theorem splitLoop_zero (h : command.length ≤ intLimit) (hfuel : command.length < fuel) :
    splitLoop command fuel 0 = some (words command) :=
  splitLoop_eq h (Nat.zero_le _) (by rwa [Nat.sub_zero])

/-- More turns do not change what the loop finds. -/
theorem splitLoop_mono {elems : List Text} (h : splitLoop command fuel pos = some elems)
    {fuel' : Nat} (hle : fuel ≤ fuel') : splitLoop command fuel' pos = some elems := by
  induction fuel generalizing pos elems fuel' with
  | zero => cases h
  | succ fuel ih =>
    obtain ⟨fuel', rfl⟩ : ∃ k, fuel' = k + 1 := ⟨fuel' - 1, by omega⟩
    simp only [splitLoop] at h ⊢
    split
    case isFalse hend => rwa [if_neg hend] at h
    case isTrue hlt =>
      rw [if_pos hlt] at h
      split
      case isTrue hneg => rwa [if_pos hneg] at h
      case isFalse hnonneg =>
        rw [if_neg hnonneg] at h
        obtain ⟨rest, hrest, rfl⟩ := Option.map_eq_some_iff.mp h
        rw [ih hrest (by omega)]
        rfl

/-- The splitting loop ends, having put these elements into `cmd_elems`. -/
def Splits (command : Text) (elems : List Text) : Prop :=
  ∃ fuel, splitLoop command fuel 0 = some elems

theorem Splits.unique {elems elems' : List Text} (h : Splits command elems)
    (h' : Splits command elems') : elems = elems' := by
  obtain ⟨fuel, hf⟩ := h
  obtain ⟨fuel', hf'⟩ := h'
  -- both fuels are enough if the larger one is
  have hmax := splitLoop_mono hf (Nat.le_max_left fuel fuel')
  exact Option.some.inj (hmax.symm.trans (splitLoop_mono hf' (Nat.le_max_right fuel fuel')))

theorem splits_words (h : command.length ≤ intLimit) : Splits command (words command) :=
  ⟨command.length + 1, splitLoop_zero h (Nat.lt_succ_self _)⟩

/-! ## Words joined by spaces -/

/-- **Words joined by single spaces** are the words of the result. -/
theorem words_join {ws : List Text} (hspace : ∀ w ∈ ws, ' ' ∉ w) (hne : ∀ w ∈ ws, w ≠ []) :
    words ([' '].intercalate ws) = ws := by
  cases ws with
  | nil => rfl
  | cons w ws =>
    unfold words
    -- the last piece is the last word, which is not empty
    rw [List.splitOn_intercalate ' ' hspace (List.cons_ne_nil w ws)]
    refine if_neg fun heq => ?_
    exact hne [] (List.mem_of_getLast? heq) rfl

/-- A space behind them makes no difference. -/
theorem words_join_space {ws : List Text} (hspace : ∀ w ∈ ws, ' ' ∉ w) (hws : ws ≠ []) :
    words ([' '].intercalate ws ++ [' ']) = ws := by
  have hjoin : [' '].intercalate ws ++ [' '] = [' '].intercalate (ws ++ [[]]) := by
    clear hspace
    induction ws with
    | nil => exact absurd rfl hws
    | cons w ws ih =>
      cases ws with
      | nil => rw [List.singleton_append, List.intercalate_cons_cons, List.intercalate_singleton,
          List.intercalate_singleton, List.append_nil]
      | cons v ws =>
        rw [List.intercalate_cons_cons, List.append_assoc, ih (List.cons_ne_nil v ws)]
        exact List.intercalate_cons_cons.symm
  have hspace' : ∀ w ∈ ws ++ [[]], ' ' ∉ w := by
    intro w hw
    rcases List.mem_append.mp hw with hw | hw
    · exact hspace w hw
    · exact List.mem_singleton.mp hw ▸ List.not_mem_nil
  -- the last piece is the empty one, which is left out
  unfold words
  rw [hjoin, List.splitOn_intercalate ' ' hspace' (List.append_ne_nil_of_right_ne_nil ws nofun)]
  dsimp only
  rw [List.getLast?_concat, if_pos rfl, List.dropLast_concat]

/-! ## Blanks -/

/-- No space before the first word, no two spaces next to each other (and so one space behind the
last word at most). -/
def Neat (command : Text) : Prop := ¬ [' '] <+: command ∧ ¬ [' ', ' '] <:+: command

/-- The words of a command for a reader: the pieces between the spaces that are not empty. -/
def texts (command : Text) : List Text := (command.splitOn ' ').filter (· ≠ [])

theorem texts_eq (command : Text) : texts command = (words command).filter (· ≠ []) := by
  unfold texts words
  dsimp only
  split
  case isFalse => rfl
  case isTrue hlast =>
    obtain ⟨pieces, hpieces⟩ := List.getLast?_eq_some_iff.mp hlast
    rw [hpieces, List.filter_append, List.dropLast_concat]
    exact List.append_nil _

theorem space_prefix_iff (ha : ' ' ∉ a) : [' '] <+: a ++ ' ' :: b ↔ a = [] := by
  cases a with
  | nil => exact iff_of_true ⟨b, rfl⟩ rfl
  | cons c a =>
    refine iff_of_false (fun h => ?_) (List.cons_ne_nil c a)
    obtain ⟨rfl, -⟩ := List.cons_prefix_cons.mp h
    exact ha (List.mem_cons_self ..)

theorem spaces_infix_iff (ha : ' ' ∉ a) :
    [' ', ' '] <:+: a ++ ' ' :: b ↔ [' '] <+: b ∨ [' ', ' '] <:+: b := by
  induction a with
  | nil =>
    rw [List.nil_append, List.infix_cons_iff, List.cons_prefix_cons, and_iff_right rfl]
  | cons c a ih =>
    rw [List.cons_append, List.infix_cons_iff, ih fun h => ha (List.mem_cons_of_mem c h)]
    -- two spaces cannot begin inside a word
    refine or_iff_right fun h => ?_
    obtain ⟨rfl, -⟩ := List.cons_prefix_cons.mp h
    exact ha (List.mem_cons_self ..)

/-- **The neat commands** are those without an empty word. -/
theorem neat_iff (command : Text) : Neat command ↔ [] ∉ words command := by
  induction command using space_induction with
  | nil => exact iff_of_true ⟨by decide, by decide⟩ List.not_mem_nil
  | piece a ha hne =>
    rw [words_of_not_mem ha hne]
    refine iff_of_true ⟨fun h => ?_, fun h => ?_⟩ fun h => hne (List.mem_singleton.mp h).symm
    · exact ha (h.subset (List.mem_cons_self ..))
    · exact ha (h.subset (List.mem_cons_self ..))
  | space a b ha ih =>
    rw [words_append_cons ha, List.mem_cons, not_or, ← ih, Neat, Neat, space_prefix_iff ha,
      spaces_infix_iff ha, not_or]
    exact and_congr_left' ⟨fun h heq => h heq.symm, fun h heq => h heq.symm⟩

end EngineerLinux.StartProcess
