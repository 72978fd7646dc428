import EngineerLinux.Lib.Line

/-!
# The leak check (`check.sh`)

The awk program with which `check.sh` reads the report of Valgrind (lines 52-84), the decision after
it (86-106), and the form of the report. The lines of the report are those that `sed 's/,//g'`
leaves.

A line meets all patterns one after the other, as in awk, and a variable that is not added to keeps
the text of a field until it is compared with a number. The shape of a report is a type of its own:
headers, stacks and totals with the numbers as they are printed, so that the patterns have to be
found in them.

The numbers are those that awk, which counts in floating point, adds without loss.
-/

namespace EngineerLinux.LeakCheck

open Line

/-! ## The script -/

/-- The variables of the awk program; three of them keep the text of a field. -/
structure Vars where
  invalid : Nat
  definitely_lost : List Char
  indirectly_lost : List Char
  possibly_lost : List Char
  still_reachable : Int
  tmp : Int

/-- `BEGIN`. -/
def Vars.begin : Vars where
  invalid := 0
  definitely_lost := ['0']
  indirectly_lost := ['0']
  possibly_lost := ['0']
  still_reachable := 0
  tmp := 0

/-- The patterns of the awk program, and what is done with a line in which one is found. -/
def rules : List (String × (List Char → Vars → Vars)) :=
  [("Invalid write", fun _ v => { v with invalid := 1 }),
    ("Invalid read", fun _ v => { v with invalid := 1 }),
    ("definitely lost:", fun line v => { v with definitely_lost := field 4 line }),
    ("indirectly lost:", fun line v => { v with indirectly_lost := field 4 line }),
    ("possibly lost:", fun line v => { v with possibly_lost := field 4 line }),
    ("still reachable in loss", fun line v =>
      let tmp := number (field 2 line)
      { v with tmp, still_reachable := v.still_reachable + tmp }),
    ("allocatestack.c:", fun _ v => { v with still_reachable := v.still_reachable - v.tmp })]

def patterns : List String := rules.map Prod.fst

/-- A line meets the patterns one after the other. -/
def awkLine (v : Vars) (line : List Char) : Vars :=
  rules.foldl (fun v rule => if hits (pattern rule.1) line then rule.2 line v else v) v

/-- The variables at `END`. -/
def awk (v : Vars) (lines : List (List Char)) : Vars := lines.foldl awkLine v

/-- `sed 's/,//g'`. -/
def sed (lines : List (List Char)) : List (List Char) := lines.map fun line => line.filter (· ≠ ',')

/-- `[ $text -eq n ]`. -/
def testEq (text : List Char) (n : Nat) : Bool :=
  text ≠ [] ∧ text.all Char.isDigit ∧ number text = n

/-- From `ret=0` to `exit $ret`: whether the loop has counted up to 15, the variables that awk has
printed, the number behind `normal_occupy=` in `trace.log`, if there is one, and whether
`heap_over_check` is in that file. -/
def exitCode (jammed : Bool) (v : Vars) (normal_occupy : Option Nat) (heap_over_check : Bool) :
    Nat :=
  let ret := if jammed then 1 else 0
  let ret :=
    if ret = 0 then
      if testEq v.definitely_lost 0 ∧ testEq v.indirectly_lost 0 ∧ testEq v.possibly_lost 0 then
        if v.still_reachable = (normal_occupy.getD 0 : Nat) ∧ v.invalid = 0 then 0 else 1
      else 1
    else ret
  if heap_over_check then 1 else ret

/-! ## The report -/

/-- A number in decimal. -/
abbrev dec (n : Nat) : List Char := Nat.toDigits 10 n

/-- What every line begins with. -/
def tag (pid : Nat) : List Char := "==".toList ++ dec pid ++ "==".toList

inductive LossKind where
  | reachable
  | definite
  | indirect
  | possible
  deriving DecidableEq

def LossKind.words : LossKind → List Char
  | .reachable => "still reachable".toList
  | .definite => "definitely lost".toList
  | .indirect => "indirectly lost".toList
  | .possible => "possibly lost".toList

/-- A line of a stack trace. It names a function and a place, and is no line of another kind. -/
structure StackLine where
  text : List Char
  plain : ∀ p ∈ patterns, p ≠ "allocatestack.c:" → hits (pattern p) text = false
  /-- The number of the line follows where the file is named. -/
  place : hits (pattern "allocatestack.c:") text = true ↔ "allocatestack.c".toList <:+: text

/-- The line names `allocatestack.c`. -/
def StackLine.Names (l : StackLine) : Prop := "allocatestack.c".toList <:+: l.text

instance : DecidablePred StackLine.Names := fun l => decidable_of_iff _ l.place

structure LossRecord where
  kind : LossKind
  bytes : Nat
  /-- How many of the bytes are lost directly and indirectly, if that is told. -/
  parts : Option (Nat × Nat)
  blocks : Nat
  index : Nat
  total : Nat
  stack : List StackLine

namespace LossRecord

variable (r : LossRecord)

/-- How many lines of the stack name `allocatestack.c`. -/
def named : Nat := r.stack.countP fun l => l.Names

def partsText : List Char :=
  match r.parts with
  | some (direct, indirect) => "(".toList ++ dec direct ++ " direct ".toList ++ dec indirect ++
      " indirect) ".toList
  | none => []

/-- `==pid== 40 bytes in 1 blocks are still reachable in loss record 1 of 2`. -/
def header (pid : Nat) : List Char :=
  tag pid ++ ' ' :: (dec r.bytes ++ ' ' :: (r.partsText ++ "bytes in ".toList ++ dec r.blocks ++
    " blocks are ".toList ++ (r.kind.words ++ " in loss record ".toList) ++ dec r.index ++
    " of ".toList ++ dec r.total))

/-- The header, the stack, and a line with nothing on it. -/
def lines (pid : Nat) : List (List Char) :=
  r.header pid :: (r.stack.map StackLine.text ++ [tag pid ++ [' ']])

end LossRecord

/-- Bytes and blocks in a line of the summary. -/
structure Total where
  bytes : Nat
  blocks : Nat

/-- `==pid==    definitely lost: 40 bytes in 1 blocks`. -/
def Total.line (t : Total) (pid : Nat) (label : String) : List Char :=
  tag pid ++ label.toList ++ ':' :: ' ' :: (dec t.bytes ++ ' ' :: ("bytes in ".toList ++
    dec t.blocks ++ " blocks".toList))

structure Summary where
  definite : Total
  indirect : Total
  possible : Total
  reachable : Total
  suppressed : Total

def Summary.lines (s : Summary) (pid : Nat) : List (List Char) :=
  [tag pid ++ " LEAK SUMMARY:".toList, s.definite.line pid "    definitely lost",
    s.indirect.line pid "    indirectly lost", s.possible.line pid "      possibly lost",
    s.reachable.line pid "    still reachable", s.suppressed.line pid "         suppressed"]

/-- A report: what Valgrind tells while the program runs, the loss records, the leak summary, and
lines of no interest after it. -/
structure Report where
  pid : Nat
  errors : List (List Char)
  before : ∀ line ∈ errors, hits (pattern "still reachable in loss") line = false
  records : List LossRecord
  summary : Summary
  rest : List (List Char)
  after : ∀ line ∈ rest, ∀ p ∈ patterns, hits (pattern p) line = false

def Report.lines (r : Report) : List (List Char) :=
  r.errors ++ (r.records.flatMap fun record => record.lines r.pid) ++ r.summary.lines r.pid ++
    r.rest

/-! ## What the check is about -/

/-- The bytes of the still-reachable records without `allocatestack.c` in their stacks. -/
def reachableBytes : List LossRecord → Nat
  | [] => 0
  | r :: records =>
    (if r.kind = .reachable ∧ r.named = 0 then r.bytes else 0) + reachableBytes records

/-- Valgrind tells of an invalid access. -/
def Report.Invalid (r : Report) : Prop :=
  ∃ line ∈ r.errors, hits (pattern "Invalid write") line = true ∨
    hits (pattern "Invalid read") line = true

/-- All the totals of lost bytes are 0. -/
def Summary.NoneLost (s : Summary) : Prop :=
  s.definite.bytes = 0 ∧ s.indirect.bytes = 0 ∧ s.possible.bytes = 0

end EngineerLinux.LeakCheck
