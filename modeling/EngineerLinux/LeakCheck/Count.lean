import EngineerLinux.LeakCheck.Model
import Mathlib.Tactic.Ring

/-!
# Whether the leak check counts the right records

The awk program remembers the bytes of the last still-reachable record (`check.sh` 69-72) and takes
them away again at each line that names `allocatestack.c` (73-75), whatever record this line belongs
to.

First comes what the patterns find in each kind of line: a pattern that is not the line's own has a
character that the line has nowhere (`hits_header`, `hits_total`). Then one record is run, and by
induction all of them, with the value counted so far, the remembered bytes, and by how much the one
differs from what it should be (`excess`). No excess at the end is no excess anywhere, as none is
ever negative.

- `awk_report`: what it has counted at the end of a report;
- `counts_right_iff`: **the right records are counted** exactly if no record is taken away twice or
  for another one's stack.
-/

namespace EngineerLinux.LeakCheck

open Line

variable {v : Vars} {line : List Char} {pid : Nat} {r : LossRecord} {records : List LossRecord}
  {c : Char} {p q : String}

/-! ## Patterns in the lines of a report -/

/-- A line in which at most one of the patterns is found. -/
theorem awkLine_of_hits (h : ∀ p ∈ patterns, p ≠ q → hits (pattern p) line = false) :
    awkLine v line = rules.foldl (fun v rule =>
      if rule.1 = q ∧ hits (pattern q) line = true then rule.2 line v else v) v := by
  unfold awkLine
  refine List.foldl_ext _ _ _ fun v rule hrule => ?_
  by_cases hq : rule.1 = q
  · simp only [hq, true_and]
  · rw [h rule.1 (List.mem_map_of_mem hrule) hq, if_neg Bool.false_ne_true, if_neg fun h => hq h.1]

theorem awkLine_of_none (h : ∀ p ∈ patterns, hits (pattern p) line = false) :
    awkLine v line = v := by
  rw [awkLine_of_hits (q := "") fun p hp _ => h p hp]
  rfl

theorem not_mem_tag (hdigit : c.isDigit = false) (hc : c ≠ '=') : c ∉ tag pid := by
  have hdec : c ∉ dec pid := not_mem_toDigits hdigit
  simp [tag, hc, hdec]

theorem dec_ne_nil (n : Nat) : dec n ≠ [] :=
  List.length_pos_iff.mp Nat.length_toDigits_pos

theorem tag_ne_nil : tag pid ≠ [] := by
  unfold tag
  simp

/-- The characters of a header that are not in the name of its kind. -/
theorem not_mem_header (hdigit : c.isDigit = false) (hwords : c ∉ r.kind.words)
    (hc : c ∉ "= (directindirect) bytes in blocks are in loss record of".toList) :
    c ∉ r.header pid := by
  have hdec : ∀ n, c ∉ dec n := fun n => not_mem_toDigits hdigit
  simp only [String.reduceToList, List.mem_cons, List.not_mem_nil, or_false, not_or] at hc
  have hparts : c ∉ r.partsText := by
    unfold LossRecord.partsText
    split <;> simp [hdec, hc]
  simp [LossRecord.header, not_mem_tag hdigit hc.1, hdec, hparts, hwords, hc]

/-- In a header, no other pattern than its own is found. -/
theorem hits_header (hp : p ∈ patterns) (hne : p ≠ "still reachable in loss") :
    hits (pattern p) (r.header pid) = false := by
  have hupper : 'I' ∉ r.header pid :=
    not_mem_header rfl (by cases r.kind <;> decide) (by decide)
  have hcolon : ':' ∉ r.header pid :=
    not_mem_header rfl (by cases r.kind <;> decide) (by decide)
  simp only [patterns, rules, List.map_cons, List.map_nil, List.mem_cons, List.not_mem_nil,
    or_false] at hp
  rcases hp with rfl | rfl | rfl | rfl | rfl | rfl | rfl
  · exact hits_eq_false_of_char (c := 'I') (by decide) hupper
  · exact hits_eq_false_of_char (c := 'I') (by decide) hupper
  · exact hits_eq_false_of_char (c := ':') (by decide) hcolon
  · exact hits_eq_false_of_char (c := ':') (by decide) hcolon
  · exact hits_eq_false_of_char (c := ':') (by decide) hcolon
  · exact absurd rfl hne
  · exact hits_eq_false_of_char (c := ':') (by decide) hcolon

theorem hits_header_reachable :
    hits (pattern "still reachable in loss") (r.header pid) = decide (r.kind = .reachable) := by
  by_cases hkind : r.kind = .reachable
  · rw [decide_eq_true hkind]
    have hfits : fitsAt (pattern "still reachable in loss")
        (LossKind.reachable.words ++ " in loss record ".toList) = true := by decide
    unfold LossRecord.header
    rw [hkind]
    -- the words are in the middle of the line
    have hmiddle := hits_of_fitsAt hfits
      (a := tag pid ++ ' ' :: (dec r.bytes ++ ' ' :: (r.partsText ++ "bytes in ".toList ++
        dec r.blocks ++ " blocks are ".toList)))
      (b := dec r.index ++ " of ".toList ++ dec r.total)
    simpa only [List.append_assoc, List.cons_append] using hmiddle
  · rw [decide_eq_false hkind]
    refine hits_eq_false_of_char (c := 'h') (by decide) (not_mem_header rfl ?_ (by decide))
    cases hwords : r.kind with
    | reachable => exact absurd hwords hkind
    | _ => decide

theorem blank_not_mem_tag : ' ' ∉ tag pid := not_mem_tag rfl (by decide)

theorem field_two_header : field 2 (r.header pid) = dec r.bytes := by
  unfold field LossRecord.header
  rw [fields_word tag_ne_nil blank_not_mem_tag,
    fields_word (dec_ne_nil _) (not_mem_toDigits rfl)]
  rfl

/-- **A header** of a still-reachable record is counted and remembered. -/
theorem awkLine_header : awkLine v (r.header pid) =
    if r.kind = .reachable then
      { v with tmp := r.bytes, still_reachable := v.still_reachable + r.bytes }
    else v := by
  rw [awkLine_of_hits (q := "still reachable in loss") fun p hp hne => hits_header hp hne,
    hits_header_reachable]
  by_cases hkind : r.kind = .reachable
  · simp [rules, hkind, field_two_header, number_toDigits]
  · simp [rules, hkind]

/-- **A line of a stack** takes away what is remembered, if it names `allocatestack.c`. -/
theorem awkLine_stack (l : StackLine) : awkLine v l.text =
    if l.Names then { v with still_reachable := v.still_reachable - v.tmp } else v := by
  rw [awkLine_of_hits (q := "allocatestack.c:") l.plain]
  by_cases hnames : l.Names
  · simp [rules, l.place.mpr hnames, hnames]
  · have hfalse : hits (pattern "allocatestack.c:") l.text = false :=
      Bool.eq_false_iff.mpr fun h => hnames (l.place.mp h)
    simp [rules, hfalse, hnames]

theorem l_mem_pattern : ∀ p ∈ patterns, some 'l' ∈ pattern p := by decide

/-- A line with nothing on it but the tag. -/
theorem awkLine_blank : awkLine v (tag pid ++ [' ']) = v := by
  have hnone : 'l' ∉ tag pid ++ [' '] := by
    have htag : 'l' ∉ tag pid := not_mem_tag rfl (by decide)
    simp [htag]
  exact awkLine_of_none fun p hp => hits_eq_false_of_char (l_mem_pattern p hp) hnone

/-! ## The summary -/

/-- The beginning of a pattern, up to a dot or a colon. -/
def stem (p : String) : Pattern :=
  (pattern p).take ((pattern p).findIdx fun o => o = none ∨ o = some ':')

/-- There is a character in the beginning of the pattern that is neither among these nor a digit. -/
def Foreign (chars : List Char) (p : String) : Bool :=
  (stem p).any fun o => o.any fun c => !c.isDigit && !chars.contains c

theorem of_foreign {chars : List Char} (h : Foreign chars p = true) :
    ∃ c, some c ∈ stem p ∧ c.isDigit = false ∧ c ∉ chars := by
  obtain ⟨o, ho, hc⟩ := List.any_eq_true.mp h
  cases o with
  | none => cases hc
  | some c =>
    simp only [Option.any_some, Bool.and_eq_true, Bool.not_eq_true', List.contains_eq_mem,
      decide_eq_false_iff_not] at hc
    exact ⟨c, ho, hc.1, hc.2⟩

theorem none_not_mem_stem : ∀ p ∈ patterns, none ∉ stem p ∧ some ':' ∉ stem p := by decide

/-- Behind the colon of a total no pattern begins. -/
theorem foreign_behind : ∀ p ∈ patterns, Foreign " bytes in blocks".toList p = true := by decide

/-- A pattern is not found in a line with a total if it does not begin in its label. -/
theorem hits_total {t : Total} {label : String} (hp : p ∈ patterns)
    (hlabel : Foreign ('=' :: label.toList) p = true) :
    hits (pattern p) (t.line pid label) = false := by
  refine Bool.eq_false_iff.mpr fun hhits => ?_
  have hstem : hits (stem p) (t.line pid label) = true := hits_take _ hhits
  obtain ⟨hdots, hcolon⟩ := none_not_mem_stem p hp
  unfold Total.line at hstem
  rw [hits_append_cons hdots hcolon, Bool.or_eq_true] at hstem
  rcases hstem with hfront | hback
  · obtain ⟨c, hc, hdigit, hnot⟩ := of_foreign hlabel
    rw [List.mem_cons, not_or] at hnot
    rw [hits_eq_false_of_char hc] at hfront
    · cases hfront
    · rw [List.mem_append, not_or]
      exact ⟨not_mem_tag hdigit hnot.1, hnot.2⟩
  · obtain ⟨c, hc, hdigit, hnot⟩ := of_foreign (foreign_behind p hp)
    rw [hits_eq_false_of_char hc] at hback
    · cases hback
    · have hdec : ∀ n, c ∉ dec n := fun n => not_mem_toDigits hdigit
      simp only [String.reduceToList, List.mem_cons, List.not_mem_nil, or_false, not_or] at hnot
      simp [hdec, hnot]

/-- A line of the summary whose label is the words of a pattern. -/
theorem hits_total_own {t : Total} {label : String} {words : List Char} (blanks : List Char)
    (hcolon : p.toList = words ++ [':']) (hlabel : label.toList = blanks ++ words)
    (hfits : fitsAt (pattern p) p.toList = true) :
    hits (pattern p) (t.line pid label) = true := by
  have hmiddle := hits_of_fitsAt hfits (a := tag pid ++ blanks)
    (b := ' ' :: (dec t.bytes ++ ' ' :: ("bytes in ".toList ++ dec t.blocks ++ " blocks".toList)))
  rw [hcolon] at hmiddle
  unfold Total.line
  rw [hlabel]
  simpa only [List.append_assoc, List.cons_append, List.nil_append] using hmiddle

/-- The fourth field is the bytes. -/
theorem field_four_total {t : Total} {label : String} (k : Nat) (word word' : List Char)
    (hlabel : label.toList = ' ' :: (List.replicate k ' ' ++ (word ++ ' ' :: word')))
    (hnil : word ≠ []) (hblank : ' ' ∉ word) (hblank' : ' ' ∉ word') :
    field 4 (t.line pid label) = dec t.bytes := by
  have hline : t.line pid label = tag pid ++ ' ' :: (List.replicate k ' ' ++ (word ++ ' ' ::
      ((word' ++ [':']) ++ ' ' :: (dec t.bytes ++ ' ' :: ("bytes in ".toList ++ dec t.blocks ++
        " blocks".toList))))) := by
    unfold Total.line
    rw [hlabel]
    simp only [List.append_assoc, List.cons_append, List.nil_append]
  unfold field
  rw [hline, fields_word tag_ne_nil blank_not_mem_tag, fields_blanks, fields_word hnil hblank,
    fields_word (by simp) (by simp [hblank']), fields_word (dec_ne_nil _) (not_mem_toDigits rfl)]
  rfl

/-- **A line with a total of lost bytes**: the rule whose pattern is its label is the only one that
looks at it, and keeps the bytes. -/
theorem awkLine_total {t : Total} {label : String} (q : String) (k : Nat) (word word' : List Char)
    (keep : List Char → Vars → Vars)
    (hrules : ∀ line v, rules.foldl (fun v rule => if rule.1 = q then rule.2 line v else v) v =
      keep (field 4 line) v)
    (hq : q.toList = (word ++ ' ' :: word') ++ [':'])
    (hlabel : label.toList = ' ' :: (List.replicate k ' ' ++ (word ++ ' ' :: word')))
    (hnil : word ≠ []) (hblank : ' ' ∉ word) (hblank' : ' ' ∉ word')
    (hfits : fitsAt (pattern q) q.toList = true)
    (hforeign : ∀ p ∈ patterns, p ≠ q → Foreign ('=' :: label.toList) p = true) :
    awkLine v (t.line pid label) = keep (dec t.bytes) v := by
  have hown : hits (pattern q) (t.line pid label) = true :=
    hits_total_own (' ' :: List.replicate k ' ') hq hlabel hfits
  have hfield : field 4 (t.line pid label) = dec t.bytes :=
    field_four_total k word word' hlabel hnil hblank hblank'
  rw [awkLine_of_hits fun p hp hne => hits_total hp (hforeign p hp hne), hown, ← hfield, ← hrules]
  simp only [and_true]

theorem awkLine_definite {t : Total} : awkLine v (t.line pid "    definitely lost") =
    { v with definitely_lost := dec t.bytes } :=
  awkLine_total "definitely lost:" 3 "definitely".toList "lost".toList
    (fun text v => { v with definitely_lost := text }) (fun _ _ => by simp [rules])
    (by decide) (by decide) (by decide) (by decide) (by decide) (by decide) (by decide)

theorem awkLine_indirect {t : Total} : awkLine v (t.line pid "    indirectly lost") =
    { v with indirectly_lost := dec t.bytes } :=
  awkLine_total "indirectly lost:" 3 "indirectly".toList "lost".toList
    (fun text v => { v with indirectly_lost := text }) (fun _ _ => by simp [rules])
    (by decide) (by decide) (by decide) (by decide) (by decide) (by decide) (by decide)

theorem awkLine_possible {t : Total} : awkLine v (t.line pid "      possibly lost") =
    { v with possibly_lost := dec t.bytes } :=
  awkLine_total "possibly lost:" 5 "possibly".toList "lost".toList
    (fun text v => { v with possibly_lost := text }) (fun _ _ => by simp [rules])
    (by decide) (by decide) (by decide) (by decide) (by decide) (by decide) (by decide)

/-- The other totals are not looked at. -/
theorem awkLine_total_none {t : Total} {label : String}
    (hforeign : ∀ p ∈ patterns, Foreign ('=' :: label.toList) p = true) :
    awkLine v (t.line pid label) = v :=
  awkLine_of_none fun p hp => hits_total hp (hforeign p hp)

theorem awk_nil : awk v [] = v := rfl

theorem awk_cons {lines : List (List Char)} : awk v (line :: lines) = awk (awkLine v line) lines :=
  rfl

theorem awk_append {lines lines' : List (List Char)} :
    awk v (lines ++ lines') = awk (awk v lines) lines' := List.foldl_append

theorem awkLine_heading : awkLine v (tag pid ++ " LEAK SUMMARY:".toList) = v := by
  refine awkLine_of_none fun p hp => hits_eq_false_of_char (l_mem_pattern p hp) ?_
  rw [List.mem_append, not_or]
  exact ⟨not_mem_tag rfl (by decide), by decide⟩

theorem foreign_reachable :
    ∀ p ∈ patterns, Foreign ('=' :: "    still reachable".toList) p = true := by decide

theorem foreign_suppressed :
    ∀ p ∈ patterns, Foreign ('=' :: "         suppressed".toList) p = true := by decide

/-- **The summary** gives the three totals of lost bytes. -/
theorem awk_summary (s : Summary) : awk v (s.lines pid) =
    { v with
      definitely_lost := dec s.definite.bytes
      indirectly_lost := dec s.indirect.bytes
      possibly_lost := dec s.possible.bytes } := by
  unfold Summary.lines
  rw [awk_cons, awkLine_heading, awk_cons, awkLine_definite, awk_cons, awkLine_indirect, awk_cons,
    awkLine_possible, awk_cons, awkLine_total_none foreign_reachable, awk_cons,
    awkLine_total_none foreign_suppressed, awk_nil]

/-! ## The records -/

/-- The stack of a record. -/
theorem awk_stack (stack : List StackLine) : awk v (stack.map StackLine.text) =
    { v with
      still_reachable := v.still_reachable - v.tmp * (stack.countP fun l => l.Names : Nat) } := by
  induction stack generalizing v with
  | nil => simp [awk]
  | cons l stack ih =>
    rw [List.map_cons, awk_cons, awkLine_stack]
    by_cases hnames : l.Names
    · have hcount : (l :: stack).countP (fun l => decide l.Names) =
          stack.countP (fun l => decide l.Names) + 1 :=
        List.countP_cons_of_pos (by simpa using hnames)
      rw [if_pos hnames, ih, hcount]
      refine congrArg (fun n => { v with still_reachable := n }) ?_
      push_cast
      ring
    · have hcount : (l :: stack).countP (fun l => decide l.Names) =
          stack.countP (fun l => decide l.Names) :=
        List.countP_cons_of_neg (by simpa using hnames)
      rw [if_neg hnames, ih, hcount]

/-- **A record**: the bytes of the last still-reachable one are taken away as often as the stack
names `allocatestack.c`. -/
theorem awk_record : awk v (r.lines pid) =
    if r.kind = .reachable then
      { v with
        tmp := r.bytes
        still_reachable := v.still_reachable + r.bytes - r.bytes * r.named }
    else { v with still_reachable := v.still_reachable - v.tmp * r.named } := by
  unfold LossRecord.lines
  rw [awk_cons, awkLine_header, awk_append, awk_stack, awk_cons, awkLine_blank, awk_nil]
  by_cases hkind : r.kind = .reachable
  · simp only [hkind, if_true]
    rfl
  · simp only [hkind, if_false]
    rfl

/-- The bytes of the last still-reachable record, or else `tmp`. -/
def lastReachable (tmp : Nat) (records : List LossRecord) : Nat :=
  records.foldl (fun tmp r => if r.kind = .reachable then r.bytes else tmp) tmp

/-- What is taken away too much. -/
def excess : Nat → List LossRecord → Nat
  | _, [] => 0
  | tmp, r :: records =>
    if r.kind = .reachable then r.bytes * (r.named - 1) + excess r.bytes records
    else tmp * r.named + excess tmp records

theorem reachableBytes_reachable (hkind : r.kind = .reachable) :
    (reachableBytes (r :: records) : Int) =
      r.bytes - r.bytes * r.named + (r.bytes * (r.named - 1) : Nat) + reachableBytes records := by
  rw [reachableBytes]
  cases hnamed : r.named with
  | zero =>
    rw [if_pos ⟨hkind, rfl⟩]
    simp
  | succ n =>
    rw [if_neg fun h => Nat.succ_ne_zero n h.2, Nat.add_sub_cancel, Nat.zero_add]
    push_cast
    ring

theorem reachableBytes_other (hkind : r.kind ≠ .reachable) :
    reachableBytes (r :: records) = reachableBytes records := by
  rw [reachableBytes, if_neg fun h => hkind h.1, Nat.zero_add]

/-- **All the records**: what is counted, less the excess. -/
theorem awk_records {tmp : Nat} (htmp : v.tmp = tmp) :
    awk v (records.flatMap fun r => r.lines pid) =
      { v with
        tmp := lastReachable tmp records
        still_reachable := v.still_reachable + reachableBytes records - excess tmp records } := by
  induction records generalizing v tmp with
  | nil =>
    show v = _
    simp [reachableBytes, excess, lastReachable, ← htmp]
  | cons r records ih =>
    rw [List.flatMap_cons, awk_append, awk_record]
    by_cases hkind : r.kind = .reachable
    · have hlast : lastReachable tmp (r :: records) = lastReachable r.bytes records := by
        simp [lastReachable, hkind]
      have hsum : v.still_reachable + r.bytes - r.bytes * r.named + reachableBytes records -
            excess r.bytes records =
          v.still_reachable + reachableBytes (r :: records) - excess tmp (r :: records) := by
        rw [reachableBytes_reachable hkind, excess, if_pos hkind]
        push_cast
        ring
      rw [if_pos hkind, ih rfl, hlast, ← hsum]
    · have hlast : lastReachable tmp (r :: records) = lastReachable tmp records := by
        simp [lastReachable, hkind]
      have hsum : v.still_reachable - v.tmp * r.named + reachableBytes records -
            excess tmp records =
          v.still_reachable + reachableBytes (r :: records) - excess tmp (r :: records) := by
        rw [reachableBytes_other hkind, excess, if_neg hkind, htmp]
        push_cast
        ring
      have hrest := ih (v := { v with still_reachable := v.still_reachable - v.tmp * r.named }) htmp
      rw [if_neg hkind, hrest, hlast, ← hsum]

/-! ## What is taken away too much -/

/-- Every still-reachable record is taken away once at most, and only for lines of its own stack. -/
structure TakenOnce (records : List LossRecord) : Prop where
  once : ∀ r ∈ records, r.kind = .reachable → r.bytes = 0 ∨ r.named ≤ 1
  own : ∀ before r after, records = before ++ r :: after → r.kind ≠ .reachable →
    r.named = 0 ∨ lastReachable 0 before = 0

/-- A division of some records is before the first one or behind it. -/
theorem forall_division {P : List LossRecord → LossRecord → Prop} :
    (∀ before r' after, r :: records = before ++ r' :: after → P before r') ↔
      P [] r ∧ ∀ before r' after, records = before ++ r' :: after → P (r :: before) r' := by
  constructor
  · intro h
    refine ⟨h [] r records rfl, fun before r' after hrecords => ?_⟩
    exact h (r :: before) r' after (by rw [hrecords, List.cons_append])
  · rintro ⟨hfirst, hrest⟩ before r' after hrecords
    cases before with
    | nil =>
      obtain ⟨rfl, -⟩ := List.cons.inj hrecords
      exact hfirst
    | cons first before =>
      obtain ⟨rfl, htail⟩ := List.cons.inj hrecords
      exact hrest before r' after htail

theorem excess_eq_zero {tmp : Nat} : excess tmp records = 0 ↔
    (∀ r ∈ records, r.kind = .reachable → r.bytes = 0 ∨ r.named ≤ 1) ∧
    ∀ before r after, records = before ++ r :: after → r.kind ≠ .reachable →
      r.named = 0 ∨ lastReachable tmp before = 0 := by
  induction records generalizing tmp with
  | nil => simp [excess]
  | cons r records ih =>
    have hlast : ∀ before, lastReachable tmp (r :: before) =
        lastReachable (if r.kind = .reachable then r.bytes else tmp) before := fun _ => rfl
    rw [forall_division, List.forall_mem_cons, excess]
    simp only [hlast]
    by_cases hkind : r.kind = .reachable
    · have hone : r.named - 1 = 0 ↔ r.named ≤ 1 := Nat.sub_eq_zero_iff_le
      simp only [hkind, if_true, ne_eq, not_true_eq_false, true_implies, false_implies, true_and]
      rw [Nat.add_eq_zero_iff, ih, Nat.mul_eq_zero, hone, and_assoc]
    · have hnil : lastReachable tmp [] = tmp := rfl
      simp only [hkind, if_false, ne_eq, not_false_eq_true, true_implies, false_implies, true_and]
      rw [Nat.add_eq_zero_iff, ih, Nat.mul_eq_zero, hnil, and_left_comm, or_comm]

theorem takenOnce_iff : TakenOnce records ↔ excess 0 records = 0 := by
  rw [excess_eq_zero]
  exact ⟨fun h => ⟨h.once, h.own⟩, fun h => ⟨h.1, h.2⟩⟩

/-! ## The whole report -/

/-- The number that a word of decimal digits is compared with. -/
theorem testEq_dec (n m : Nat) : testEq (dec n) m = true ↔ n = m := by
  have hdigits : (dec n).all Char.isDigit = true :=
    List.all_eq_true.mpr fun c hc => Nat.isDigit_of_mem_toDigits (by decide) (by decide) hc
  simp [testEq, hdigits, number_toDigits]

/-- A line that tells of an error changes nothing that is counted. -/
theorem awkLine_error (htmp : v.tmp = 0)
    (hline : hits (pattern "still reachable in loss") line = false) :
    (awkLine v line).tmp = 0 ∧ (awkLine v line).still_reachable = v.still_reachable ∧
      ((awkLine v line).invalid = 0 ↔ v.invalid = 0 ∧
        ¬(hits (pattern "Invalid write") line = true ∨
          hits (pattern "Invalid read") line = true)) := by
  have htmp' : (awkLine v line).tmp = v.tmp := by
    simp [awkLine, rules, hline, apply_ite Vars.tmp]
  have hcount : (awkLine v line).still_reachable = v.still_reachable := by
    simp [awkLine, rules, hline, apply_ite Vars.still_reachable, apply_ite Vars.tmp, htmp]
  have hinvalid : (awkLine v line).invalid =
      if hits (pattern "Invalid read") line = true then 1
      else if hits (pattern "Invalid write") line = true then 1 else v.invalid := by
    simp [awkLine, rules, hline, apply_ite Vars.invalid]
  refine ⟨htmp'.trans htmp, hcount, ?_⟩
  rw [hinvalid]
  by_cases hread : hits (pattern "Invalid read") line = true
  · simp [hread]
  · by_cases hwrite : hits (pattern "Invalid write") line = true
    · simp [hread, hwrite]
    · simp [hread, hwrite]

theorem awk_errors {errors : List (List Char)} (htmp : v.tmp = 0)
    (hlines : ∀ line ∈ errors, hits (pattern "still reachable in loss") line = false) :
    (awk v errors).tmp = 0 ∧ (awk v errors).still_reachable = v.still_reachable ∧
      ((awk v errors).invalid = 0 ↔ v.invalid = 0 ∧
        ¬∃ line ∈ errors, hits (pattern "Invalid write") line = true ∨
          hits (pattern "Invalid read") line = true) := by
  induction errors generalizing v with
  | nil => simp [awk, htmp]
  | cons line errors ih =>
    obtain ⟨hline, hrest⟩ := List.forall_mem_cons.mp hlines
    obtain ⟨htmp', hcount, hinvalid⟩ := awkLine_error htmp hline
    obtain ⟨htmp'', hcount', hinvalid'⟩ := ih htmp' hrest
    rw [awk_cons]
    refine ⟨htmp'', hcount'.trans hcount, ?_⟩
    rw [hinvalid', hinvalid, List.exists_mem_cons_iff, and_assoc, ← not_or]

theorem awk_of_none {rest : List (List Char)}
    (h : ∀ line ∈ rest, ∀ p ∈ patterns, hits (pattern p) line = false) : awk v rest = v := by
  induction rest with
  | nil => rfl
  | cons line rest ih =>
    obtain ⟨hline, hrest⟩ := List.forall_mem_cons.mp h
    rw [awk_cons, awkLine_of_none hline, ih hrest]

/-- **The variables at the end** of a report. -/
theorem awk_report (report : Report) :
    (awk .begin report.lines).still_reachable =
        (reachableBytes report.records - excess 0 report.records : Int) ∧
      (awk .begin report.lines).definitely_lost = dec report.summary.definite.bytes ∧
      (awk .begin report.lines).indirectly_lost = dec report.summary.indirect.bytes ∧
      (awk .begin report.lines).possibly_lost = dec report.summary.possible.bytes ∧
      ((awk .begin report.lines).invalid = 0 ↔ ¬report.Invalid) := by
  obtain ⟨htmp, hcount, hinvalid⟩ := awk_errors (v := Vars.begin) rfl report.before
  have hend : awk .begin report.lines =
      { awk .begin report.errors with
        tmp := lastReachable 0 report.records
        still_reachable := reachableBytes report.records - excess 0 report.records
        definitely_lost := dec report.summary.definite.bytes
        indirectly_lost := dec report.summary.indirect.bytes
        possibly_lost := dec report.summary.possible.bytes } := by
    unfold Report.lines
    rw [awk_append, awk_append, awk_append, awk_of_none report.after, awk_records htmp,
      awk_summary, hcount]
    simp [Vars.begin]
  rw [hend]
  exact ⟨rfl, rfl, rfl, rfl, hinvalid.trans (and_iff_right rfl)⟩

/-! ## The right records -/

/-- The right records are counted: the value is their sum, and where no other error is reported and
there was no time-out, the script ends with 0 exactly if this is the normal occupation. -/
structure CountsRight (log : List (List Char)) (report : Report) : Prop where
  value : (awk .begin (sed log)).still_reachable = reachableBytes report.records
  exit : ¬report.Invalid → report.summary.NoneLost → ∀ normal_occupy : Option Nat,
    exitCode false (awk .begin (sed log)) normal_occupy false = 0 ↔
      reachableBytes report.records = normal_occupy.getD 0

/-- **The right records are counted** exactly if every still-reachable record is taken away once at
most, and only for lines of its own stack. -/
theorem counts_right_iff (log : List (List Char)) (report : Report) (h : sed log = report.lines) :
    CountsRight log report ↔ TakenOnce report.records := by
  obtain ⟨hvalue, hdefinite, hindirect, hpossible, hinvalid⟩ := awk_report report
  rw [takenOnce_iff]
  constructor
  · intro hright
    have hcount := hright.value
    rw [h, hvalue] at hcount
    omega
  · intro hexcess
    have hcount : (awk .begin (sed log)).still_reachable = reachableBytes report.records := by
      rw [h, hvalue, hexcess]
      simp
    refine ⟨hcount, fun hnone hlost normal_occupy => ?_⟩
    obtain ⟨hzero, hzero', hzero''⟩ := hlost
    unfold exitCode
    rw [hcount, h, hdefinite, hindirect, hpossible]
    simp only [testEq_dec, hzero, hzero', hzero'', hinvalid.mpr hnone]
    simp

def mainLine : StackLine where
  text := "==7==    by 0x400698: main (test.cpp:12)".toList
  plain := by decide
  place := by decide

def threadLine : StackLine where
  text := "==7==    by 0x4E44227: allocate_stack (allocatestack.c:627)".toList
  plain := by decide
  place := by decide

/-- A still-reachable record of 40 bytes, a possibly lost one of 288 bytes that belongs to the stack
of a thread. -/
def threadReport : Report where
  pid := 7
  errors := []
  before := List.forall_mem_nil _
  records :=
    [{ kind := .reachable, bytes := 40, parts := none, blocks := 1, index := 1, total := 2,
        stack := [mainLine] },
      { kind := .possible, bytes := 288, parts := none, blocks := 1, index := 2, total := 2,
        stack := [threadLine, mainLine] }]
  summary :=
    { definite := ⟨0, 0⟩, indirect := ⟨0, 0⟩, possible := ⟨288, 1⟩, reachable := ⟨40, 1⟩,
      suppressed := ⟨0, 0⟩ }
  rest := []
  after := List.forall_mem_nil _

/-- The 40 bytes of the first record are taken away for the stack of the second. -/
theorem thread_stack_uncounts : sed threadReport.lines = threadReport.lines ∧
    (awk .begin (sed threadReport.lines)).still_reachable = 0 ∧
    reachableBytes threadReport.records = 40 ∧ ¬CountsRight threadReport.lines threadReport := by
  have hsed : sed threadReport.lines = threadReport.lines := by decide
  have hbytes : reachableBytes threadReport.records = 40 := by decide
  have hexcess : excess 0 threadReport.records = 40 := by decide
  have hcount : (awk .begin (sed threadReport.lines)).still_reachable = 0 := by
    rw [hsed, (awk_report threadReport).1, hbytes, hexcess]
    rfl
  refine ⟨hsed, hcount, hbytes, fun h => ?_⟩
  have hvalue := h.value
  rw [hcount, hbytes] at hvalue
  exact absurd hvalue (by decide)

/-- One still-reachable record that belongs to the stack of a thread, with a comma in its number. -/
def threadOnly : Report where
  pid := 7
  errors := []
  before := List.forall_mem_nil _
  records :=
    [{ kind := .reachable, bytes := 1040, parts := none, blocks := 1, index := 1, total := 1,
        stack := [threadLine, mainLine] }]
  summary :=
    { definite := ⟨0, 0⟩, indirect := ⟨0, 0⟩, possible := ⟨0, 0⟩, reachable := ⟨1040, 1⟩,
      suppressed := ⟨0, 0⟩ }
  rest := []
  after := List.forall_mem_nil _

/-- The lines of `report.log`. -/
def threadOnlyLog : List (List Char) :=
  ["==7== 1,040 bytes in 1 blocks are still reachable in loss record 1 of 1".toList,
    "==7==    by 0x4E44227: allocate_stack (allocatestack.c:627)".toList,
    "==7==    by 0x400698: main (test.cpp:12)".toList,
    "==7== ".toList,
    "==7== LEAK SUMMARY:".toList,
    "==7==    definitely lost: 0 bytes in 0 blocks".toList,
    "==7==    indirectly lost: 0 bytes in 0 blocks".toList,
    "==7==      possibly lost: 0 bytes in 0 blocks".toList,
    "==7==    still reachable: 1,040 bytes in 1 blocks".toList,
    "==7==         suppressed: 0 bytes in 0 blocks".toList]

theorem counts_right_iff_threadOnly : sed threadOnlyLog = threadOnly.lines ∧
    CountsRight threadOnlyLog threadOnly := by
  have hsed : sed threadOnlyLog = threadOnly.lines := by decide
  refine ⟨hsed, (counts_right_iff threadOnlyLog threadOnly hsed).mpr ?_⟩
  exact takenOnce_iff.mpr (by decide)

end EngineerLinux.LeakCheck
