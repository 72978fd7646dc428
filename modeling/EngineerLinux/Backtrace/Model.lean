import EngineerLinux.Lib.Buffer

/-!
# The stack of a crashed program (`backtrace.c`)

`watch_backtrace` (lines 132-144) collects the return addresses of the stack with `backtrace`
(46-65), lays out a line of text for each in its array `name`, behind a table of pointers to the
lines (`backtrace_symbols`, 68-127), and prints them.

The array is a buffer of cells, one a byte: a cell holds a `char` or one byte of a pointer into the
array. Addresses have the word size of the program; `dladdr` may answer each call as it likes. A
program that goes wrong ends with a `Fault` that says how: a write outside the array, or the
`assert` behind the second loop.
-/

namespace EngineerLinux.Backtrace

def MAX_SYS_TRACE_LAYER : Nat := 15

def MAX_SYS_TRACE_PRINT : Nat := 1536

/-- `__ELF_NATIVE_CLASS`. -/
inductive ElfClass where
  | class32
  | class64
  deriving DecidableEq

def ElfClass.bits : ElfClass → Nat
  | .class32 => 32
  | .class64 => 64

/-- `sizeof(char *)`. -/
def ElfClass.sizeofPtr : ElfClass → Nat
  | .class32 => 4
  | .class64 => 8

def WORD_WIDTH : ElfClass → Nat
  | .class32 => 8
  | .class64 => 16

abbrev Addr (w : ElfClass) := BitVec w.bits

def NUL : Char := '\x00'

/-- A string of C: what comes before its terminating NUL. -/
structure CString where
  text : List Char
  nul : NUL ∉ text

/-- `Dl_info`, as far as it is read. -/
structure DlInfo (w : ElfClass) where
  dli_fname : Option CString
  dli_sname : Option CString
  dli_saddr : Addr w

/-- How the program goes wrong: an access outside an array, or a failed `assert`. -/
inductive Fault where
  | outside
  | assertion
  deriving DecidableEq

/-- A byte of memory: a `char`, or the byte `i` of a pointer to an offset of the array. -/
inductive Cell where
  | char (c : Char)
  | pointer (offset i : Nat)
  deriving DecidableEq

/-- A checked access. -/
def access {α : Type} : Option α → Except Fault α
  | some a => .ok a
  | none => .error .outside

/-! ## `backtrace` -/

structure TraceArg (w : ElfClass) where
  array : List (Addr w)
  cnt : Int
  size : Int

/-- `backtrace_helper`, and whether it returns `_URC_END_OF_STACK`. -/
def backtraceHelper {w : ElfClass} (ip : Addr w) (arg : TraceArg w) :
    Except Fault (Bool × TraceArg w) := do
  let array ← if arg.cnt ≠ -1
    then access (if 0 ≤ arg.cnt then Buffer.write arg.array arg.cnt.toNat [ip] else none)
    else .ok arg.array
  let cnt := arg.cnt + 1
  .ok (cnt = arg.size, { arg with array, cnt })

/-- `_Unwind_Backtrace` on the frames of the stack, each given by its instruction pointer. -/
def unwindBacktrace {w : ElfClass} : List (Addr w) → TraceArg w → Except Fault (TraceArg w)
  | [], arg => .ok arg
  | ip :: ips, arg => do
    let (stop, arg) ← backtraceHelper ip arg
    if stop then .ok arg else unwindBacktrace ips arg

/-- `backtrace`, on the frames of the stack: the array, and how many of its entries are filled. -/
def backtrace {w : ElfClass} (array : List (Addr w)) (size : Int) (stack : List (Addr w)) :
    Except Fault (List (Addr w) × Int) := do
  let arg : TraceArg w := ⟨array, -1, size⟩
  let arg ← if 1 ≤ size then unwindBacktrace stack arg else .ok arg
  let cnt ← if 1 < arg.cnt
    then do
      let top ← access arg.array[(arg.cnt - 1).toNat]?
      .ok (if top = 0 then arg.cnt - 1 else arg.cnt)
    else .ok arg.cnt
  .ok (arg.array, if cnt ≠ -1 then cnt else 0)

/-! ## `backtrace_symbols` -/

/-- `%#lx`. -/
def altHex (n : Nat) : List Char := if n = 0 then ['0'] else '0' :: 'x' :: Nat.toDigits 16 n

/-- `%p`. -/
def pointerText {w : ElfClass} (addr : Addr w) : List Char :=
  if addr = 0 then ['(', 'n', 'i', 'l', ')'] else altHex addr.toNat

/-- What is printed to `buf`. -/
def offsetText {w : ElfClass} (addr saddr : Addr w) : List Char :=
  if saddr ≤ addr then '+' :: altHex (addr - saddr).toNat else '-' :: altHex (saddr - addr).toNat

/-- `sprintf` to an array of its own, of `n` bytes. -/
def sprintf (n : Nat) (text : List Char) : Except Fault (List Char) :=
  if text.length + 1 ≤ n then .ok text else .error .outside

/-- What the first loop adds to `total` for a frame. -/
def estimate (w : ElfClass) : Option (DlInfo w) → Nat
  | some ⟨some fname, sname, _⟩ =>
    if fname.text = [] then 5 + WORD_WIDTH w
    else fname.text.length + (match sname with
      | some sname => sname.text.length + 3 + WORD_WIDTH w + 3
      | none => 1) + WORD_WIDTH w + 5
  | _ => 5 + WORD_WIDTH w

/-- The first loop: the answers of `dladdr` for the entries from `cnt` on, and `total`, which is a
`size_t`. -/
def dladdrLoop {w : ElfClass} (dladdr : Nat → Addr w → Option (DlInfo w)) (cnt : Nat) :
    List (Addr w) → List (Addr w × Option (DlInfo w)) × BitVec w.bits
  | [] => ([], 0)
  | addr :: array =>
    let info := dladdr cnt addr
    let (frames, total) := dladdrLoop dladdr (cnt + 1) array
    ((addr, info) :: frames, BitVec.ofNat w.bits (estimate w info) + total)

/-- The text of a frame, as printed to `last`. -/
def symbolText {w : ElfClass} (addr : Addr w) : Option (DlInfo w) → Except Fault (List Char)
  | some ⟨some fname, sname, saddr⟩ =>
    if fname.text = [] then .ok ('[' :: pointerText addr ++ [']'])
    else do
      let buf ← sprintf 20 (offsetText addr saddr)
      .ok (fname.text ++ (match sname with
        | some sname => '(' :: sname.text ++ buf ++ [')', ' ']
        | none => [' ']) ++ '[' :: pointerText addr ++ [']'])
  | _ => .ok ('[' :: pointerText addr ++ [']'])

/-- The bytes of a pointer to an offset of the array. -/
def pointerCells (w : ElfClass) (offset : Nat) : List Cell :=
  (List.range w.sizeofPtr).map (.pointer offset)

/-- The bytes of a string. -/
def stringCells (text : List Char) : List Cell := text.map .char ++ [.char NUL]

/-- The second loop, from the entry `cnt` on: `last`, and the array. -/
def symbolsLoop {w : ElfClass} (cnt last : Nat) (result : List Cell) :
    List (Addr w × Option (DlInfo w)) → Except Fault (Nat × List Cell)
  | [] => .ok (last, result)
  | (addr, info) :: frames => do
    let result ← access (Buffer.write result (cnt * w.sizeofPtr) (pointerCells w last))
    let text ← symbolText addr info
    let result ← access (Buffer.write result last (stringCells text))
    symbolsLoop (cnt + 1) (last + (1 + text.length)) result frames

/-- `backtrace_symbols`; `array` are the `size` addresses. -/
def backtraceSymbols {w : ElfClass} (dladdr : Nat → Addr w → Option (DlInfo w))
    (array : List (Addr w)) (result : List Cell) (max_len : Nat) : Except Fault (List Cell) := do
  -- `total` is not used
  let (frames, _total) := dladdrLoop dladdr 0 array
  let (last, result) ← symbolsLoop 0 (array.length * w.sizeofPtr) result frames
  -- `(char *) result + max_len` is `max_len` bytes behind `result`
  if last ≤ max_len then .ok result else .error .assertion

/-! ## `watch_backtrace` -/

/-- The pointer stored at an offset of the array. -/
def loadPointer (w : ElfClass) (name : List Cell) (off : Nat) : Except Fault Nat :=
  match Buffer.read name off w.sizeofPtr with
  | some (.pointer offset i :: cells) =>
    if .pointer offset i :: cells = pointerCells w offset then .ok offset else .error .outside
  | _ => .error .outside

/-- The string some cells begin with. -/
def cstring : List Cell → Except Fault (List Char)
  | .char c :: cells => if c = NUL then .ok [] else do .ok (c :: (← cstring cells))
  | _ => .error .outside

/-- `#%02d %s\n`. -/
def lineText (i : Nat) (text : List Char) : List Char :=
  '#' :: (if i < 10 then ['0'] else []) ++ Nat.toDigits 10 i ++ ' ' :: text ++ ['\n']

/-- The printing loop: the lines of the next `k` entries from `i` on. -/
def printLoop (w : ElfClass) (name : List Cell) (i : Nat) : Nat → Except Fault (List (List Char))
  | 0 => .ok []
  | k + 1 => do
    let offset ← loadPointer w name (i * w.sizeofPtr)
    let text ← cstring (name.drop offset)
    .ok (lineText i text :: (← printLoop w name (i + 1) k))

/-- `watch_backtrace`, and the lines it prints. -/
def watchBacktrace {w : ElfClass} (dladdr : Nat → Addr w → Option (DlInfo w))
    (stack : List (Addr w)) : Except Fault (List (List Char)) := do
  let array := List.replicate MAX_SYS_TRACE_LAYER (0 : Addr w)
  let name := List.replicate (MAX_SYS_TRACE_PRINT * w.sizeofPtr) (Cell.char NUL)
  let (array, n) ← backtrace array MAX_SYS_TRACE_LAYER stack
  let name ← backtraceSymbols dladdr (array.take n.toNat) name MAX_SYS_TRACE_PRINT
  printLoop w name 0 n.toNat

end EngineerLinux.Backtrace
