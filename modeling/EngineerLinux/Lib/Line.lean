import Mathlib.Data.List.Basic
import Mathlib.Data.List.Forall2
import Mathlib.Data.List.Infix
import Mathlib.Data.List.TakeWhile

/-!
# Lines of text, their fields and patterns

What line-oriented tools look at: whether a line has a part that fits a pattern, its fields, and the
number a field begins with. A pattern is a list of characters in which a dot stands for any
character; blanks separate the fields.

- `hits_iff`: a pattern is found exactly if some part of the line fits it;
- `hits_eq_false_of_char`: not in a line without one of its characters;
- `hits_append_cons`: at a character that the pattern has not, it is found on one of the two sides;
- `fields_word`, `fields_blank`: the fields from left to right;
- `number_toDigits`: the number of a field written in decimal.
-/

namespace Line

abbrev Pattern := List (Option Char)

/-- The pattern of a regular expression without operators other than the dot. -/
def pattern (s : String) : Pattern := s.toList.map fun c => if c = '.' then none else some c

/-- The pattern fits the beginning of the text. -/
def fitsAt : Pattern → List Char → Bool
  | [], _ => true
  | _ :: _, [] => false
  | none :: p, _ :: text => fitsAt p text
  | some c :: p, x :: text => c == x && fitsAt p text

/-- The pattern is found in the line. -/
def hits (p : Pattern) (line : List Char) : Bool := line.tails.any (fitsAt p)

/-- The text fits the pattern, character by character. -/
abbrev Fits (p : Pattern) (text : List Char) : Prop :=
  List.Forall₂ (fun o c => o = none ∨ o = some c) p text

variable {p : Pattern} {text line a b : List Char} {c : Char}

theorem fitsAt_iff : fitsAt p text = true ↔ ∃ part, Fits p part ∧ part <+: text := by
  induction p generalizing text with
  | nil => exact iff_of_true rfl ⟨[], .nil, List.nil_prefix⟩
  | cons o p ih =>
    cases text with
    | nil =>
      refine iff_of_false (by cases o <;> exact Bool.false_ne_true) ?_
      rintro ⟨part, hfits, hpre⟩
      rw [List.prefix_nil.mp hpre] at hfits
      cases hfits
    | cons x text =>
      have hstep : fitsAt (o :: p) (x :: text) = true ↔
          (o = none ∨ o = some x) ∧ fitsAt p text = true := by
        cases o with
        | none => simp [fitsAt]
        | some d => simp [fitsAt]
      rw [hstep, ih]
      constructor
      · rintro ⟨hhead, part, hfits, hpre⟩
        exact ⟨x :: part, .cons hhead hfits, (List.cons_prefix_cons ..).mpr ⟨rfl, hpre⟩⟩
      · rintro ⟨part, hfits, hpre⟩
        cases hfits with
        | cons hhead hfits =>
          obtain ⟨rfl, hrest⟩ := (List.cons_prefix_cons ..).mp hpre
          exact ⟨hhead, _, hfits, hrest⟩

theorem hits_iff : hits p line = true ↔ ∃ part, Fits p part ∧ part <:+: line := by
  unfold hits
  rw [List.any_eq_true]
  simp only [List.mem_tails, fitsAt_iff]
  constructor
  · rintro ⟨rest, hrest, part, hfits, hpre⟩
    exact ⟨part, hfits, List.infix_iff_prefix_suffix.mpr ⟨rest, hpre, hrest⟩⟩
  · rintro ⟨part, hfits, hmid⟩
    obtain ⟨rest, hpre, hrest⟩ := List.infix_iff_prefix_suffix.mp hmid
    exact ⟨rest, hrest, part, hfits, hpre⟩

theorem Fits.mem (h : Fits p text) (hc : some c ∈ p) : c ∈ text := by
  induction h with
  | nil => cases hc
  | cons hhead _ ih =>
    rcases List.mem_cons.mp hc with rfl | hc
    · rcases hhead with h | h
      · cases h
      · obtain rfl := Option.some.inj h
        exact List.mem_cons_self ..
    · exact List.mem_cons_of_mem _ (ih hc)

/-- Without dots, what fits has no other characters than the pattern. -/
theorem Fits.mem_pattern (h : Fits p text) (hdots : none ∉ p) (hc : c ∈ text) : some c ∈ p := by
  induction h with
  | nil => cases hc
  | cons hhead _ ih =>
    rcases List.mem_cons.mp hc with rfl | hc
    · rcases hhead with h | h
      · exact absurd (h ▸ List.mem_cons_self ..) hdots
      · exact h ▸ List.mem_cons_self ..
    · exact List.mem_cons_of_mem _ (ih (fun hn => hdots (List.mem_cons_of_mem _ hn)) hc)

theorem hits_eq_false_of_char (hc : some c ∈ p) (hline : c ∉ line) : hits p line = false := by
  refine Bool.eq_false_iff.mpr fun hhits => ?_
  obtain ⟨part, hfits, hmid⟩ := hits_iff.mp hhits
  exact hline (hmid.subset (hfits.mem hc))

/-- A longer pattern is found in fewer lines. -/
theorem hits_take (n : Nat) (h : hits p line = true) : hits (p.take n) line = true := by
  obtain ⟨part, hfits, hmid⟩ := hits_iff.mp h
  exact hits_iff.mpr ⟨part.take n, List.forall₂_take n hfits,
    (List.take_prefix n part).isInfix.trans hmid⟩

/-- A part of the line that fits. -/
theorem hits_of_fitsAt (h : fitsAt p text = true) : hits p (a ++ (text ++ b)) = true := by
  obtain ⟨part, hfits, hpre⟩ := fitsAt_iff.mp h
  refine hits_iff.mpr ⟨part, hfits, hpre.isInfix.trans ?_⟩
  rw [← List.append_assoc]
  exact List.infix_append ..

theorem prefix_of_prefix_append_cons (hc : c ∉ text) (h : text <+: a ++ c :: b) : text <+: a := by
  induction a generalizing text with
  | nil =>
    cases text with
    | nil => exact List.nil_prefix
    | cons x text =>
      obtain ⟨rfl, -⟩ := (List.cons_prefix_cons ..).mp h
      exact absurd (List.mem_cons_self ..) hc
  | cons y a ih =>
    cases text with
    | nil => exact List.nil_prefix
    | cons x text =>
      obtain ⟨rfl, hrest⟩ := (List.cons_prefix_cons ..).mp h
      have hc' : c ∉ text := fun hmem => hc (List.mem_cons_of_mem _ hmem)
      exact (List.cons_prefix_cons ..).mpr ⟨rfl, ih hc' hrest⟩

theorem infix_append_cons (hc : c ∉ text) : text <:+: a ++ c :: b ↔ text <:+: a ∨ text <:+: b := by
  constructor
  · intro h
    induction a with
    | nil =>
      rcases List.infix_cons_iff.mp h with h | h
      · exact .inl (prefix_of_prefix_append_cons (a := []) hc h).isInfix
      · exact .inr h
    | cons x a ih =>
      rcases List.infix_cons_iff.mp h with h | h
      · exact .inl (prefix_of_prefix_append_cons (a := x :: a) hc h).isInfix
      · exact (ih h).imp_left fun h => h.trans (List.suffix_cons ..).isInfix
  · rintro (h | h)
    · exact h.trans (List.prefix_append ..).isInfix
    · exact h.trans ((List.suffix_cons ..).trans (List.suffix_append ..)).isInfix

/-- A line is cut at a character that the pattern has not. -/
theorem hits_append_cons (hdots : none ∉ p) (hc : some c ∉ p) :
    hits p (a ++ c :: b) = (hits p a || hits p b) := by
  have hpart : ∀ part, Fits p part → c ∉ part := fun part hfits hmem =>
    hc (hfits.mem_pattern hdots hmem)
  rw [Bool.eq_iff_iff, Bool.or_eq_true, hits_iff, hits_iff, hits_iff]
  constructor
  · rintro ⟨part, hfits, hmid⟩
    rcases (infix_append_cons (hpart part hfits)).mp hmid with h | h
    · exact .inl ⟨part, hfits, h⟩
    · exact .inr ⟨part, hfits, h⟩
  · rintro (⟨part, hfits, h⟩ | ⟨part, hfits, h⟩)
    · exact ⟨part, hfits, (infix_append_cons (hpart part hfits)).mpr (.inl h)⟩
    · exact ⟨part, hfits, (infix_append_cons (hpart part hfits)).mpr (.inr h)⟩

/-! ## Fields -/

/-- The fields of a line: what is between blanks. -/
def fields (line : List Char) : List (List Char) :=
  (line.splitOnP (· == ' ')).filter (· ≠ [])

/-- `$n`: the n-th field, counted from 1, or nothing. -/
def field (n : Nat) (line : List Char) : List Char := (fields line).getD (n - 1) []

/-- The number with which a field begins, or 0. -/
def number (text : List Char) : Nat := Nat.ofDigitChars 10 (text.takeWhile Char.isDigit) 0

theorem fields_blank : fields (' ' :: line) = fields line := by
  unfold fields
  rw [List.splitOnP_cons_eq_if_modifyHead, if_pos (by decide)]
  rfl

theorem fields_blanks (k : Nat) : fields (List.replicate k ' ' ++ line) = fields line := by
  induction k with
  | zero => rfl
  | succ k ih => rw [List.replicate_succ, List.cons_append, fields_blank, ih]

theorem fields_word (hword : text ≠ []) (hblank : ' ' ∉ text) :
    fields (text ++ ' ' :: line) = text :: fields line := by
  unfold fields
  rw [List.splitOnP_append_cons_of_forall_mem _ _ (by decide)]
  · rw [List.filter_cons_of_pos (by simpa using hword)]
  · intro x hx
    rw [beq_eq_false_iff_ne]
    rintro rfl
    exact hblank hx

theorem number_toDigits (n : Nat) : number (Nat.toDigits 10 n) = n := by
  unfold number
  have hall : (Nat.toDigits 10 n).takeWhile Char.isDigit = Nat.toDigits 10 n := by
    rw [List.takeWhile_eq_self_iff]
    intro x hx
    exact Nat.isDigit_of_mem_toDigits (by decide) (by decide) hx
  rw [hall, Nat.ofDigitChars_ten_toDigits]

/-- Digits are none of the other characters. -/
theorem not_mem_toDigits {n : Nat} (hc : c.isDigit = false) : c ∉ Nat.toDigits 10 n := by
  intro hmem
  rw [Nat.isDigit_of_mem_toDigits (by decide) (by decide) hmem] at hc
  cases hc

end Line
