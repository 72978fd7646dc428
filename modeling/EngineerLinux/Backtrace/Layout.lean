import EngineerLinux.Backtrace.Model
import Mathlib.Algebra.BigOperators.Group.List.Basic
import Mathlib.Tactic.Common

/-!
# Where the lines of a backtrace lie

The pointers and the lines behind them are written into the array one after the other. `max_len` is
compared with what they take once all of them have been written (`backtrace.c` 124). It is the
number of the array's elements, which are pointers, so the `assert` fails long before the array is
full.

What has been laid out is not touched again: a turn of the second loop writes one pointer into the
table and one line behind the last one (`symbolsLoop_cons`), so `LaidOut` is carried along by
induction on the frames. A text that does not end inside the array is the first thing that goes
wrong (`symbolsLoop_cons_outside`).

- `symbolText_eq`, `length_frameText`: the text of a frame, and how long it is;
- `backtrace_eq`: the frames that are collected;
- `symbolsLoop_ok`, `symbolsLoop_outside`: **the second loop** lays all lines out, each readable
  through its pointer, if the array has room for them, and writes outside it otherwise;
- `watch_backtrace_safe_iff`: the report is printed exactly if pointers and lines take no more
  than `MAX_SYS_TRACE_PRINT` bytes.
-/

namespace EngineerLinux.Backtrace

variable {w : ElfClass}

/-! ## The text of a frame -/

/-- The bytes of a number in `%#lx`. -/
def altHexLength (n : Nat) : Nat := if n = 0 then 1 else 2 + (Nat.toDigits 16 n).length

/-- The bytes of an address in `%p`. -/
def pointerLength (addr : Addr w) : Nat := if addr = 0 then 5 else altHexLength addr.toNat

/-- The bytes of the distance between two addresses, with its sign. -/
def offsetLength (addr saddr : Addr w) : Nat :=
  1 + altHexLength (if saddr ≤ addr then (addr - saddr).toNat else (saddr - addr).toNat)

/-- The bytes of a frame's line, with its NUL. -/
def lineBytes (addr : Addr w) : Option (DlInfo w) → Nat
  | some ⟨some fname, sname, saddr⟩ =>
    if fname.text = [] then 3 + pointerLength addr
    else fname.text.length + (match sname with
      | some sname => sname.text.length + 3 + offsetLength addr saddr
      | none => 1) + 3 + pointerLength addr
  | _ => 3 + pointerLength addr

/-- The text of a frame. -/
def frameText (addr : Addr w) : Option (DlInfo w) → List Char
  | some ⟨some fname, sname, saddr⟩ =>
    if fname.text = [] then '[' :: pointerText addr ++ [']']
    else fname.text ++ (match sname with
      | some sname => '(' :: sname.text ++ offsetText addr saddr ++ [')', ' ']
      | none => [' ']) ++ '[' :: pointerText addr ++ [']']
  | _ => '[' :: pointerText addr ++ [']']

theorem length_altHex (n : Nat) : (altHex n).length = altHexLength n := by
  unfold altHex altHexLength
  split
  · rfl
  · rw [List.length_cons, List.length_cons]
    omega

theorem length_pointerText (addr : Addr w) : (pointerText addr).length = pointerLength addr := by
  unfold pointerText pointerLength
  split
  · rfl
  · exact length_altHex _

theorem length_offsetText (addr saddr : Addr w) :
    (offsetText addr saddr).length = offsetLength addr saddr := by
  unfold offsetText offsetLength
  split <;> rw [List.length_cons, length_altHex, Nat.add_comm]

/-- An address has at most `WORD_WIDTH` digits. -/
theorem altHexLength_le_word (addr : Addr w) : altHexLength addr.toNat ≤ 2 + WORD_WIDTH w := by
  have hlt : addr.toNat < 16 ^ WORD_WIDTH w := by
    have hbits : (2 : Nat) ^ w.bits = 16 ^ WORD_WIDTH w := by cases w <;> rfl
    exact hbits ▸ addr.isLt
  have hpos : 0 < WORD_WIDTH w := by cases w <;> decide
  have hdigits : (Nat.toDigits 16 addr.toNat).length ≤ WORD_WIDTH w :=
    (Nat.length_toDigits_le_iff (by decide) hpos).mpr hlt
  unfold altHexLength
  split <;> omega

/-- That is 18 at most, with the `0x`. -/
theorem altHexLength_le (addr : Addr w) : altHexLength addr.toNat ≤ 18 := by
  have hwidth : WORD_WIDTH w ≤ 16 := by cases w <;> decide
  have hle := altHexLength_le_word addr
  omega

/-- **`buf` is large enough** for every distance. -/
theorem offsetLength_le (addr saddr : Addr w) : offsetLength addr saddr + 1 ≤ 20 := by
  unfold offsetLength
  split
  · have := altHexLength_le (addr - saddr)
    omega
  · have := altHexLength_le (saddr - addr)
    omega

theorem symbolText_eq (addr : Addr w) (info : Option (DlInfo w)) :
    symbolText addr info = .ok (frameText addr info) := by
  match info with
  | none | some ⟨none, _, _⟩ => rfl
  | some ⟨some fname, sname, saddr⟩ =>
    -- `sprintf` to `buf` never fails
    have hbuf : sprintf 20 (offsetText addr saddr) = .ok (offsetText addr saddr) :=
      if_pos (length_offsetText addr saddr ▸ offsetLength_le addr saddr)
    simp only [symbolText, frameText]
    split
    · rfl
    · rw [hbuf]
      rfl

theorem length_frameText (addr : Addr w) (info : Option (DlInfo w)) :
    (frameText addr info).length + 1 = lineBytes addr info := by
  -- without a name there is the address only
  have hshort : ('[' :: pointerText addr ++ [']']).length + 1 = 3 + pointerLength addr := by
    simp only [List.length_cons, List.length_append, List.length_nil, length_pointerText]
    omega
  match info with
  | none | some ⟨none, _, _⟩ => exact hshort
  | some ⟨some fname, sname, saddr⟩ =>
    simp only [frameText, lineBytes]
    split
    · exact hshort
    · cases sname with
      | none =>
        simp only [List.length_cons, List.length_append, List.length_nil, length_pointerText]
        omega
      | some sname =>
        simp only [List.length_cons, List.length_append, List.length_nil, length_pointerText,
          length_offsetText]
        omega

/-- Digits are no NUL. -/
theorem nul_not_mem_toDigits {b : Nat} (hb : 1 < b) (hb' : b ≤ 16) (n : Nat) :
    NUL ∉ Nat.toDigits b n := by
  -- the induction is on the number, the last digit being split off
  have hdigit : ∀ d < 16, Nat.digitChar d ≠ NUL := by decide
  induction n using Nat.strongRecOn with
  | ind n ih =>
    rw [Nat.toDigits_eq_if hb]
    split
    case isTrue hlt => exact fun h => hdigit n (by omega) (List.mem_singleton.mp h).symm
    case isFalse hge =>
      intro h
      rcases List.mem_append.mp h with h | h
      · exact ih (n / b) (Nat.div_lt_self (by omega) hb) h
      · have hlt : n % b < b := Nat.mod_lt _ (by omega)
        exact hdigit (n % b) (by omega) (List.mem_singleton.mp h).symm

theorem nul_not_mem_altHex (n : Nat) : NUL ∉ altHex n := by
  have hdigits := nul_not_mem_toDigits (b := 16) (by decide) (Nat.le_refl _) n
  unfold altHex
  split
  · decide
  · exact List.not_mem_cons_of_ne_of_not_mem (by decide)
      (List.not_mem_cons_of_ne_of_not_mem (by decide) hdigits)

theorem nul_not_mem_pointerText (addr : Addr w) : NUL ∉ pointerText addr := by
  unfold pointerText
  split
  · decide
  · exact nul_not_mem_altHex _

theorem nul_not_mem_offsetText (addr saddr : Addr w) : NUL ∉ offsetText addr saddr := by
  unfold offsetText
  split <;> exact List.not_mem_cons_of_ne_of_not_mem (by decide) (nul_not_mem_altHex _)

/-- The text of a frame is a string: it ends at its terminating NUL and not before. -/
theorem nul_not_mem_frameText (addr : Addr w) (info : Option (DlInfo w)) :
    NUL ∉ frameText addr info := by
  have hshort : NUL ∉ '[' :: pointerText addr ++ [']'] :=
    List.not_mem_append (List.not_mem_cons_of_ne_of_not_mem (by decide)
      (nul_not_mem_pointerText addr)) (by decide)
  match info with
  | none | some ⟨none, _, _⟩ => exact hshort
  | some ⟨some fname, sname, saddr⟩ =>
    simp only [frameText]
    split
    · exact hshort
    · refine List.not_mem_append (List.not_mem_append (List.not_mem_append fname.nul ?_)
        (List.not_mem_cons_of_ne_of_not_mem (by decide) (nul_not_mem_pointerText addr))) (by decide)
      cases sname with
      | none => exact (by decide : NUL ∉ [' '])
      | some sname =>
        exact List.not_mem_append (List.not_mem_append
          (List.not_mem_cons_of_ne_of_not_mem (by decide) sname.nul)
          (nul_not_mem_offsetText addr saddr)) (by decide)

/-! ## The frames that are collected -/

/-- The return addresses `backtrace` collects: not its own, and not a last one that is null. -/
def collected (stack : List (Addr w)) : List (Addr w) :=
  let top := (stack.drop 1).take MAX_SYS_TRACE_LAYER
  if 1 < top.length ∧ top.getLast? = some 0 then top.dropLast else top

/-- The rest of the stack is stored behind what has been stored, as far as there is room. -/
theorem unwindBacktrace_eq (ips done rest : List (Addr w)) (hrest : rest ≠ []) :
    unwindBacktrace ips ⟨done ++ rest, done.length, (done ++ rest).length⟩ =
      .ok ⟨done ++ ips.take rest.length ++ rest.drop ips.length,
        (done ++ ips.take rest.length).length, (done ++ rest).length⟩ := by
  induction ips generalizing done rest with
  | nil => simp [unwindBacktrace]
  | cons ip ips ih =>
    obtain ⟨r, rest, rfl⟩ := List.exists_cons_of_ne_nil hrest
    -- the helper stores the address in the next entry, and stops if that was the last one
    have hhelper : backtraceHelper ip ⟨done ++ r :: rest, done.length, (done ++ r :: rest).length⟩ =
        .ok (decide (rest = []), ⟨done ++ [ip] ++ rest, ((done ++ [ip]).length : Nat),
          ((done ++ [ip] ++ rest).length : Nat)⟩) := by
      have hcnt : (done.length : Int) ≠ -1 := by omega
      unfold backtraceHelper
      simp only [if_pos hcnt, if_pos (Int.natCast_nonneg _), Int.toNat_natCast, Buffer.write_next]
      simp [access, bind, Except.bind]
    rw [unwindBacktrace, hhelper]
    by_cases hnil : rest = []
    · subst hnil
      simp [bind, Except.bind]
    · have := ih (done ++ [ip]) rest hnil
      simp only [bind, Except.bind, decide_eq_false hnil, Bool.false_eq_true, if_false]
      rw [show ((done ++ r :: rest).length) = (done ++ [ip] ++ rest).length by simp, this]
      simp

/-- The unwinder's result for `watch_backtrace`: the first entries are the addresses of the frames
behind the first, and the count says how many. -/
theorem unwind_stack (ip : Addr w) (ips : List (Addr w)) :
    unwindBacktrace (ip :: ips) ⟨List.replicate MAX_SYS_TRACE_LAYER 0, -1, MAX_SYS_TRACE_LAYER⟩ =
      .ok ⟨ips.take MAX_SYS_TRACE_LAYER ++
          List.drop ips.length (List.replicate MAX_SYS_TRACE_LAYER 0),
        ((ips.take MAX_SYS_TRACE_LAYER).length : Nat), MAX_SYS_TRACE_LAYER⟩ := by
  have hrest := unwindBacktrace_eq ips [] (List.replicate MAX_SYS_TRACE_LAYER (0 : Addr w)) nofun
  rw [List.nil_append, List.nil_append, List.length_replicate, List.length_nil] at hrest
  exact hrest

/-- **What `backtrace` collects.** -/
theorem backtrace_eq (stack : List (Addr w)) : ∃ array,
    backtrace (List.replicate MAX_SYS_TRACE_LAYER 0) MAX_SYS_TRACE_LAYER stack =
      .ok (array, ((collected stack).length : Nat)) ∧
    array.take (collected stack).length = collected stack := by
  cases stack with
  | nil => exact ⟨_, rfl, rfl⟩
  | cons ip ips =>
    unfold backtrace collected
    simp only [bind, Except.bind]
    rw [if_pos (by decide), unwind_stack, List.drop_one, List.tail_cons]
    generalize htop : ips.take MAX_SYS_TRACE_LAYER = top
    -- `behind` are the entries that stay as they were
    generalize List.drop ips.length (List.replicate MAX_SYS_TRACE_LAYER (0 : Addr w)) = behind
    by_cases hlong : 1 < top.length
    · have hlast : (top ++ behind)[top.length - 1]? = top.getLast? := by
        rw [List.getElem?_append_left (by omega), List.getLast?_eq_getElem?]
      have hcnt : (1 : Int) < (top.length : Nat) := by omega
      have htoNat : ((top.length : Int) - 1).toNat = top.length - 1 := by omega
      obtain ⟨last, hlast'⟩ : ∃ last, top.getLast? = some last :=
        Option.isSome_iff_exists.mp (by simp; rintro rfl; simp at hlong)
      simp only [if_pos hcnt, htoNat, hlast, hlast', access]
      -- a last address that is null is not counted
      by_cases hnull : last = 0
      · have hlen : top.dropLast.length = top.length - 1 := List.length_dropLast
        have hne : (top.length : Int) - 1 ≠ -1 := by omega
        simp only [if_pos hnull, if_pos hne]
        rw [if_pos ⟨hlong, congrArg some hnull⟩, hlen, Int.ofNat_sub (by omega)]
        refine ⟨_, rfl, ?_⟩
        rw [List.take_append_of_le_length (by omega), List.dropLast_eq_take]
      · have hne : (top.length : Int) ≠ -1 := by omega
        simp only [if_neg hnull, if_pos hne]
        rw [if_neg fun h => hnull (Option.some.inj h.2)]
        exact ⟨_, rfl, List.take_left⟩
    · have hcnt : ¬ (1 : Int) < (top.length : Nat) := by omega
      have hne : (top.length : Int) ≠ -1 := by omega
      simp only [if_neg hcnt, if_pos hne]
      rw [if_neg fun h => hlong h.1]
      exact ⟨_, rfl, List.take_left⟩

/-! ## The layout -/

/-- A frame: its address, and what `dladdr` says of it. -/
abbrev Frame (w : ElfClass) := Addr w × Option (DlInfo w)

/-- The bytes of the lines of some frames. -/
def linesBytes : List (Frame w) → Nat
  | [] => 0
  | f :: frames => lineBytes f.1 f.2 + linesBytes frames

/-- The pointers from entry `cnt` on lead to the lines of the frames, which lie one after the other
from the offset `last` on. -/
def LaidOut (name : List Cell) : Nat → Nat → List (Frame w) → Prop
  | _, _, [] => True
  | cnt, last, f :: frames =>
    Buffer.read name (cnt * w.sizeofPtr) w.sizeofPtr = some (pointerCells w last) ∧
    Buffer.read name last (lineBytes f.1 f.2) = some (stringCells (frameText f.1 f.2)) ∧
    LaidOut name (cnt + 1) (last + lineBytes f.1 f.2) frames

theorem length_pointerCells (last : Nat) : (pointerCells w last).length = w.sizeofPtr := by
  rw [pointerCells, List.length_map, List.length_range]

theorem length_stringCells (f : Frame w) :
    (stringCells (frameText f.1 f.2)).length = lineBytes f.1 f.2 := by
  rw [← length_frameText, stringCells, List.length_append, List.length_map]
  rfl

/-- One turn of the second loop, when both of its writes lie inside the array. -/
theorem symbolsLoop_cons {cnt last : Nat} {result result₁ result₂ : List Cell} (f : Frame w)
    (frames : List (Frame w))
    (h₁ : Buffer.write result (cnt * w.sizeofPtr) (pointerCells w last) = some result₁)
    (h₂ : Buffer.write result₁ last (stringCells (frameText f.1 f.2)) = some result₂) :
    symbolsLoop cnt last result (f :: frames) =
      symbolsLoop (cnt + 1) (last + lineBytes f.1 f.2) result₂ frames := by
  rw [← length_frameText, Nat.add_comm (frameText f.1 f.2).length 1]
  simp only [symbolsLoop, h₁, h₂, symbolText_eq, access, bind, Except.bind]

/-- One turn of the second loop, when the text runs over the end of the array. -/
theorem symbolsLoop_cons_outside {cnt last : Nat} {result result₁ : List Cell} (f : Frame w)
    (frames : List (Frame w))
    (h₁ : Buffer.write result (cnt * w.sizeofPtr) (pointerCells w last) = some result₁)
    (h₂ : Buffer.write result₁ last (stringCells (frameText f.1 f.2)) = none) :
    symbolsLoop cnt last result (f :: frames) = .error .outside := by
  simp only [symbolsLoop, h₁, h₂, symbolText_eq, access, bind, Except.bind]

/-- The write of a pointer to the table of the entries succeeds. -/
theorem write_pointer (last : Nat) {cnt k : Nat} {result : List Cell}
    (htable : (cnt + (k + 1)) * w.sizeofPtr ≤ result.length) :
    ∃ result₁, Buffer.write result (cnt * w.sizeofPtr) (pointerCells w last) = some result₁ := by
  refine Buffer.write_eq_some_iff.mpr ?_
  rw [length_pointerCells, ← Nat.succ_mul]
  exact Nat.le_trans (Nat.mul_le_mul_right _ (by omega)) htable

/-- **The second loop, with room for all lines**: they are laid out, and nothing else of the table
and of the lines before them is changed. -/
theorem symbolsLoop_ok (frames : List (Frame w)) (cnt last : Nat) (result : List Cell)
    (htable : (cnt + frames.length) * w.sizeofPtr ≤ last)
    (hroom : last + linesBytes frames ≤ result.length) :
    ∃ result', symbolsLoop cnt last result frames = .ok (last + linesBytes frames, result') ∧
      LaidOut result' cnt last frames ∧
      ∀ off n, off + n ≤ cnt * w.sizeofPtr ∨
          (cnt + frames.length) * w.sizeofPtr ≤ off ∧ off + n ≤ last →
        Buffer.read result' off n = Buffer.read result off n := by
  induction frames generalizing cnt last result with
  | nil => exact ⟨result, rfl, trivial, fun _ _ _ => rfl⟩
  | cons f frames ih =>
    rw [linesBytes] at hroom ⊢
    rw [List.length_cons] at htable ⊢
    obtain ⟨result₁, h₁⟩ := write_pointer last
      (Nat.le_trans htable (Nat.le_of_add_right_le hroom))
    obtain ⟨result₂, h₂⟩ :
        ∃ result₂, Buffer.write result₁ last (stringCells (frameText f.1 f.2)) = some result₂ := by
      refine Buffer.write_eq_some_iff.mpr ?_
      rw [length_stringCells, Buffer.length_write h₁]
      omega
    have hslot : (cnt + 1) * w.sizeofPtr = cnt * w.sizeofPtr + w.sizeofPtr := Nat.succ_mul ..
    have hentry : (cnt + 1) * w.sizeofPtr ≤ (cnt + (frames.length + 1)) * w.sizeofPtr :=
      Nat.mul_le_mul_right _ (by omega)
    -- the table of pointers ends where it did, and the lines begin one line further on
    have htable' : (cnt + 1 + frames.length) * w.sizeofPtr =
        (cnt + (frames.length + 1)) * w.sizeofPtr := by
      rw [Nat.add_assoc, Nat.add_comm 1]
    obtain ⟨result', hloop, hlaid, hframe⟩ := ih (cnt + 1) (last + lineBytes f.1 f.2) result₂
      (by omega) (by rw [Buffer.length_write h₂, Buffer.length_write h₁]; omega)
    refine ⟨result', ?_, ⟨?_, ?_, hlaid⟩, ?_⟩
    · rw [symbolsLoop_cons f frames h₁ h₂, hloop, Nat.add_assoc]
    -- the later writes are behind the pointer, in the table or among the lines
    · rw [hframe _ _ (.inl (by omega)), Buffer.read_write_of_disjoint h₂ (.inl (by omega))]
      have hread := Buffer.read_write_self h₁
      rwa [length_pointerCells] at hread
    -- and behind the line, or in the table before it
    · rw [hframe _ _ (.inr (by omega))]
      have hread := Buffer.read_write_self h₂
      rwa [length_stringCells] at hread
    · intro off n hoff
      rw [hframe off n (by omega), Buffer.read_write_of_disjoint h₂ (by omega),
        Buffer.read_write_of_disjoint h₁ (by rw [length_pointerCells]; omega)]

/-- **The second loop, without room for all lines**, writes outside the array. -/
theorem symbolsLoop_outside (frames : List (Frame w)) (cnt last : Nat) (result : List Cell)
    (htable : (cnt + frames.length) * w.sizeofPtr ≤ result.length)
    (hroom : result.length < last + linesBytes frames) (hlast : last ≤ result.length) :
    symbolsLoop cnt last result frames = .error .outside := by
  induction frames generalizing cnt last result with
  | nil =>
    rw [linesBytes] at hroom
    omega
  | cons f frames ih =>
    rw [linesBytes] at hroom
    obtain ⟨result₁, h₁⟩ := write_pointer last htable
    have hlen₁ := Buffer.length_write h₁
    have htable' : (cnt + 1 + frames.length) * w.sizeofPtr ≤ result.length := by
      rwa [Nat.add_assoc, Nat.add_comm 1]
    -- this line or a later one runs over the end
    cases h₂ : Buffer.write result₁ last (stringCells (frameText f.1 f.2)) with
    | none => exact symbolsLoop_cons_outside f frames h₁ h₂
    | some result₂ =>
      have hlen₂ := Buffer.length_write h₂
      have hin := (Buffer.write_inv h₂).1
      rw [length_stringCells] at hin
      rw [symbolsLoop_cons f frames h₁ h₂]
      exact ih (cnt + 1) (last + lineBytes f.1 f.2) result₂ (by omega) (by omega) (by omega)

/-! ## What is printed -/

/-- A pointer is read back from its cells. -/
theorem loadPointer_eq {name : List Cell} {off last : Nat}
    (h : Buffer.read name off w.sizeofPtr = some (pointerCells w last)) :
    loadPointer w name off = .ok last := by
  have hcons : ∃ cells, pointerCells w last = .pointer last 0 :: cells := by
    cases w <;> exact ⟨_, rfl⟩
  obtain ⟨cells, hcells⟩ := hcons
  unfold loadPointer
  rw [h, hcells]
  exact if_pos hcells.symm

/-- A string is read back from its cells, whatever is behind them. -/
theorem cstring_stringCells {text : List Char} (h : NUL ∉ text) (rest : List Cell) :
    cstring (stringCells text ++ rest) = .ok text := by
  induction text with
  | nil => rfl
  | cons c text ih =>
    have hne : c ≠ NUL := fun heq => h (heq ▸ List.mem_cons_self ..)
    show (if c = NUL then _ else cstring (stringCells text ++ rest) >>= fun s => .ok (c :: s)) = _
    rw [if_neg hne, ih fun hmem => h (List.mem_cons_of_mem _ hmem)]
    rfl

/-- The lines of the frames from entry `i` on. -/
def lines (i : Nat) (frames : List (Frame w)) : List (List Char) :=
  (frames.zipIdx i).map fun f => lineText f.2 (frameText f.1.1 f.1.2)

/-- Lines that have been laid out are printed. -/
theorem printLoop_eq {name : List Cell} {i last : Nat} {frames : List (Frame w)}
    (h : LaidOut name i last frames) :
    printLoop w name i frames.length = .ok (lines i frames) := by
  induction frames generalizing i last with
  | nil => rfl
  | cons f frames ih =>
    obtain ⟨hpointer, htext, hrest⟩ := h
    obtain ⟨rest, hdrop⟩ := Buffer.drop_eq_of_read htext
    rw [List.length_cons, printLoop, loadPointer_eq hpointer]
    simp only [bind, Except.bind]
    rw [hdrop, cstring_stringCells (nul_not_mem_frameText f.1 f.2), ih hrest]
    rfl

/-! ## The whole report -/

/-- The frames `watch_backtrace` reports. -/
def reported (dladdr : Nat → Addr w → Option (DlInfo w)) (stack : List (Addr w)) :
    List (Frame w) :=
  (collected stack).zipIdx.map fun x => (x.1, dladdr x.2 x.1)

/-- The bytes that the pointers and the lines take in the array. -/
def reportBytes (dladdr : Nat → Addr w → Option (DlInfo w)) (stack : List (Addr w)) : Nat :=
  (collected stack).length * w.sizeofPtr + linesBytes (reported dladdr stack)

theorem dladdrLoop_eq (dladdr : Nat → Addr w → Option (DlInfo w)) (cnt : Nat)
    (array : List (Addr w)) :
    (dladdrLoop dladdr cnt array).1 = (array.zipIdx cnt).map fun x => (x.1, dladdr x.2 x.1) := by
  induction array generalizing cnt with
  | nil => rfl
  | cons addr array ih =>
    rw [dladdrLoop, List.zipIdx_cons, List.map_cons, ← ih]

theorem length_reported (dladdr : Nat → Addr w → Option (DlInfo w)) (stack : List (Addr w)) :
    (reported dladdr stack).length = (collected stack).length := by
  rw [reported, List.length_map, List.length_zipIdx]

theorem length_collected_le (stack : List (Addr w)) :
    (collected stack).length ≤ MAX_SYS_TRACE_LAYER := by
  have htop : ((stack.drop 1).take MAX_SYS_TRACE_LAYER).length ≤ MAX_SYS_TRACE_LAYER := by
    rw [List.length_take]
    exact Nat.min_le_left ..
  unfold collected
  dsimp only
  split
  · rw [List.length_dropLast]
    omega
  · exact htop

/-- The second loop of `backtrace_symbols` in `watch_backtrace`: either the array has room for the
pointers and the lines, or they run over its end. -/
theorem symbolsLoop_reported (dladdr : Nat → Addr w → Option (DlInfo w)) (stack : List (Addr w)) :
    let name := List.replicate (MAX_SYS_TRACE_PRINT * w.sizeofPtr) (Cell.char NUL)
    let loop := symbolsLoop 0 ((collected stack).length * w.sizeofPtr) name (reported dladdr stack)
    (reportBytes dladdr stack ≤ MAX_SYS_TRACE_PRINT * w.sizeofPtr →
      ∃ name', loop = .ok (reportBytes dladdr stack, name') ∧
        LaidOut name' 0 ((collected stack).length * w.sizeofPtr) (reported dladdr stack)) ∧
    (MAX_SYS_TRACE_PRINT * w.sizeofPtr < reportBytes dladdr stack → loop = .error .outside) := by
  intro name loop
  have hname : name.length = MAX_SYS_TRACE_PRINT * w.sizeofPtr := List.length_replicate
  have htable : (0 + (reported dladdr stack).length) * w.sizeofPtr =
      (collected stack).length * w.sizeofPtr := by
    rw [length_reported, Nat.zero_add]
  -- the table itself has room, for there are no more than 15 pointers
  have hfits : (collected stack).length * w.sizeofPtr ≤ MAX_SYS_TRACE_PRINT * w.sizeofPtr :=
    Nat.mul_le_mul_right _ (Nat.le_trans (length_collected_le stack) (by decide))
  constructor
  · intro hroom
    obtain ⟨name', hloop, hlaid, -⟩ := symbolsLoop_ok (reported dladdr stack) 0
      ((collected stack).length * w.sizeofPtr) name (Nat.le_of_eq htable) (hname ▸ hroom)
    exact ⟨name', hloop, hlaid⟩
  · intro hroom
    exact symbolsLoop_outside (reported dladdr stack) 0 ((collected stack).length * w.sizeofPtr)
      name (by omega) (hname ▸ hroom) (by omega)

/-- `watch_backtrace`, with what `backtrace` and `dladdr` contribute put in. -/
theorem watchBacktrace_eq (dladdr : Nat → Addr w → Option (DlInfo w)) (stack : List (Addr w)) :
    watchBacktrace dladdr stack =
      (symbolsLoop 0 ((collected stack).length * w.sizeofPtr)
        (List.replicate (MAX_SYS_TRACE_PRINT * w.sizeofPtr) (Cell.char NUL))
        (reported dladdr stack) >>= fun r =>
      if r.1 ≤ MAX_SYS_TRACE_PRINT then printLoop w r.2 0 (collected stack).length
        else .error .assertion) := by
  obtain ⟨array, hback, harray⟩ := backtrace_eq stack
  unfold watchBacktrace backtraceSymbols
  simp only [hback, bind, Except.bind, Int.toNat_natCast, harray, dladdrLoop_eq]
  rw [← reported]
  cases symbolsLoop 0 ((collected stack).length * w.sizeofPtr)
    (List.replicate (MAX_SYS_TRACE_PRINT * w.sizeofPtr) (Cell.char NUL))
    (reported dladdr stack) with
  | error e => rfl
  | ok r =>
    dsimp only
    by_cases hle : r.1 ≤ MAX_SYS_TRACE_PRINT
    · rw [if_pos hle, if_pos hle]
    · rw [if_neg hle, if_neg hle]

/-- A report that takes no more than `MAX_SYS_TRACE_PRINT` bytes is printed. -/
theorem watchBacktrace_ok (dladdr : Nat → Addr w → Option (DlInfo w)) (stack : List (Addr w))
    (h : reportBytes dladdr stack ≤ MAX_SYS_TRACE_PRINT) :
    watchBacktrace dladdr stack = .ok (lines 0 (reported dladdr stack)) := by
  have hroom : MAX_SYS_TRACE_PRINT ≤ MAX_SYS_TRACE_PRINT * w.sizeofPtr := by
    cases w <;> decide
  obtain ⟨name, hloop, hlaid⟩ := (symbolsLoop_reported dladdr stack).1 (by omega)
  rw [watchBacktrace_eq, hloop]
  show (if reportBytes dladdr stack ≤ MAX_SYS_TRACE_PRINT then _ else _) = _
  rw [if_pos h, ← length_reported dladdr]
  exact printLoop_eq hlaid

/-- One that takes more, but has room in the array, fails the `assert`. -/
theorem watchBacktrace_assertion (dladdr : Nat → Addr w → Option (DlInfo w))
    (stack : List (Addr w)) (h : MAX_SYS_TRACE_PRINT < reportBytes dladdr stack)
    (hroom : reportBytes dladdr stack ≤ MAX_SYS_TRACE_PRINT * w.sizeofPtr) :
    watchBacktrace dladdr stack = .error .assertion := by
  obtain ⟨name, hloop, -⟩ := (symbolsLoop_reported dladdr stack).1 hroom
  rw [watchBacktrace_eq, hloop]
  exact if_neg (Nat.not_le.mpr h)

/-- One that has no room in the array is written over its end. -/
theorem watchBacktrace_outside (dladdr : Nat → Addr w → Option (DlInfo w))
    (stack : List (Addr w)) (h : MAX_SYS_TRACE_PRINT * w.sizeofPtr < reportBytes dladdr stack) :
    watchBacktrace dladdr stack = .error .outside := by
  rw [watchBacktrace_eq, (symbolsLoop_reported dladdr stack).2 h]
  rfl

/-- **Crash reporting**: nothing is written outside `name` and the `assert` holds exactly if the
pointers and the lines take no more than `MAX_SYS_TRACE_PRINT` bytes, of the
`MAX_SYS_TRACE_PRINT * sizeof(char *)` that the array has; and then every collected frame is
printed. -/
theorem watch_backtrace_safe_iff (w : ElfClass) (dladdr : Nat → Addr w → Option (DlInfo w))
    (stack : List (Addr w)) :
    ((∃ printed, watchBacktrace dladdr stack = .ok printed) ↔
      reportBytes dladdr stack ≤ MAX_SYS_TRACE_PRINT) ∧
    ∀ printed, watchBacktrace dladdr stack = .ok printed →
      printed = lines 0 (reported dladdr stack) := by
  by_cases hfits : reportBytes dladdr stack ≤ MAX_SYS_TRACE_PRINT
  · have hok := watchBacktrace_ok dladdr stack hfits
    refine ⟨iff_of_true ⟨_, hok⟩ hfits, ?_⟩
    intro printed hprinted
    exact Except.ok.inj (hprinted.symm.trans hok)
  · have herror : ∃ fault, watchBacktrace dladdr stack = .error fault := by
      rcases Nat.lt_or_ge (MAX_SYS_TRACE_PRINT * w.sizeofPtr) (reportBytes dladdr stack) with h | h
      · exact ⟨_, watchBacktrace_outside dladdr stack h⟩
      · exact ⟨_, watchBacktrace_assertion dladdr stack (by omega) h⟩
    obtain ⟨fault, hfault⟩ := herror
    have hnever : ∀ printed, watchBacktrace dladdr stack ≠ .ok printed := by
      intro printed hprinted
      cases hfault.symm.trans hprinted
    exact ⟨iff_of_false (fun ⟨printed, h⟩ => hnever printed h) hfits,
      fun printed h => absurd h (hnever printed)⟩

/-- A name of 1536 bytes. -/
def longName : CString where
  text := List.replicate 1536 'a'
  nul := fun h => absurd (List.eq_of_mem_replicate h) (by decide)

/-- **A report that has room and is not printed**: one frame, in an object whose name has as many
bytes as the array has pointers. -/
theorem watch_backtrace_aborts :
    reportBytes (w := .class64) (fun _ _ => some ⟨some longName, none, 0⟩) [1, 1] ≤
      MAX_SYS_TRACE_PRINT * ElfClass.class64.sizeofPtr ∧
    watchBacktrace (w := .class64) (fun _ _ => some ⟨some longName, none, 0⟩) [1, 1] =
      .error .assertion := by
  have hbytes : reportBytes (w := .class64) (fun _ _ => some ⟨some longName, none, 0⟩) [1, 1] =
      1551 := by
    have hone : ∀ name : CString, name.text ≠ [] →
        reportBytes (w := .class64) (fun _ _ => some ⟨some name, none, 0⟩) [1, 1] =
          1 * 8 + (name.text.length + 7 + 0) := by
      intro name hname
      -- the name, a space, the brackets with the NUL, and `0x1`
      have hline : lineBytes (1 : Addr .class64) (some ⟨some name, none, 0⟩) =
          name.text.length + 1 + 3 + pointerLength (1 : Addr .class64) := if_neg hname
      rw [show pointerLength (1 : Addr .class64) = 3 by decide] at hline
      exact congrArg (fun n => 1 * 8 + (n + 0)) hline
    have hname : longName.text.length = 1536 := List.length_replicate
    rw [hone longName fun hnil => absurd (hname.symm.trans (congrArg _ hnil)) (by decide), hname]
  refine ⟨hbytes ▸ by decide, watchBacktrace_assertion _ _ ?_ ?_⟩
  · rw [hbytes]
    decide
  · rw [hbytes]
    decide

end EngineerLinux.Backtrace
