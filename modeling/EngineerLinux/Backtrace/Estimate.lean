import EngineerLinux.Backtrace.Layout

/-!
# The size estimate of `backtrace_symbols`

The first loop adds up the lengths of the lines, with every number taken to be printed with all its
digits: this is the room behind the pointers that a caller has to provide. Nothing reads the sum
afterwards.

A line has one of three forms, for an address of a symbol, of an object, or of nothing that `dladdr`
knows, and for each the estimate is compared with the text of `Layout`. Then the two sums are
compared, and with the room for all lines the second loop is that of `symbolsLoop_ok`.

- `lineBytes_le_estimate`: no line takes more than is estimated for it;
- `succeeds_iff`: all lines are laid out within `max_len` bytes exactly if there is that room;
- `estimate_sufficient`: **the estimate is sufficient**, for every stack and all that `dladdr` can
  answer;
- `total_sufficient_iff`: what becomes of a sum that does not fit into the `size_t` in which it is
  computed.
-/

namespace EngineerLinux.Backtrace

variable {w : ElfClass}

/-! ## One line -/

/-- `%p`. -/
theorem pointerLength_le (addr : Addr w) : pointerLength addr ≤ 2 + WORD_WIDTH w := by
  have hwidth : 5 ≤ 2 + WORD_WIDTH w := by cases w <;> decide
  unfold pointerLength
  split
  · exact hwidth
  · exact altHexLength_le_word addr

/-- A sign and `%#lx`. -/
theorem offsetLength_le_word (addr saddr : Addr w) :
    offsetLength addr saddr ≤ 3 + WORD_WIDTH w := by
  unfold offsetLength
  split
  · have hle := altHexLength_le_word (addr - saddr)
    omega
  · have hle := altHexLength_le_word (saddr - addr)
    omega

/-- **No line takes more than its estimate.** -/
theorem lineBytes_le_estimate (addr : Addr w) (info : Option (DlInfo w)) :
    lineBytes addr info ≤ estimate w info := by
  have hpointer := pointerLength_le addr
  match info with
  | none | some ⟨none, _, _⟩ =>
    simp only [lineBytes, estimate]
    omega
  | some ⟨some fname, sname, saddr⟩ =>
    have hoffset := offsetLength_le_word addr saddr
    simp only [lineBytes, estimate]
    split
    · omega
    · cases sname with
      | none =>
        dsimp only
        omega
      | some sname =>
        dsimp only
        omega

theorem one_le_altHexLength (n : Nat) : 1 ≤ altHexLength n := by
  unfold altHexLength
  split <;> omega

theorem three_le_pointerLength (addr : Addr w) : 3 ≤ pointerLength addr := by
  unfold pointerLength
  split
  · omega
  · next hne =>
    have hpos : 0 < (Nat.toDigits 16 addr.toNat).length := Nat.length_toDigits_pos
    have hzero : addr.toNat ≠ 0 := fun h => hne (BitVec.eq_of_toNat_eq (by simpa using h))
    unfold altHexLength
    rw [if_neg hzero]
    omega

theorem two_le_offsetLength (addr saddr : Addr w) : 2 ≤ offsetLength addr saddr :=
  Nat.add_le_add_left (one_le_altHexLength _) 1

/-- How many times larger than an `int` a `size_t` can be. -/
theorem two_pow_bits : 2 ^ w.bits = 2 ^ (w.bits - 31) * 2147483648 := by cases w <;> rfl

/-- And no estimate is very much more than the line and its pointer take. -/
theorem estimate_le (addr : Addr w) (info : Option (DlInfo w)) :
    estimate w info ≤ 2 ^ (w.bits - 31) * (w.sizeofPtr + lineBytes addr info) := by
  have hpointer := three_le_pointerLength addr
  match info with
  | none | some ⟨none, _, _⟩ =>
    simp only [lineBytes, estimate]
    cases w <;> simp only [WORD_WIDTH, ElfClass.bits, ElfClass.sizeofPtr] <;> omega
  | some ⟨some fname, sname, saddr⟩ =>
    have hoffset := two_le_offsetLength addr saddr
    simp only [lineBytes, estimate]
    split
    · cases w <;> simp only [WORD_WIDTH, ElfClass.bits, ElfClass.sizeofPtr] <;> omega
    · next hne =>
      have hname : 0 < fname.text.length := List.length_pos_iff.mpr hne
      cases sname <;> cases w <;>
        simp only [WORD_WIDTH, ElfClass.bits, ElfClass.sizeofPtr] <;> omega

/-! ## All lines -/

/-- The estimates of some frames, added up. -/
def estimated : List (Frame w) → Nat
  | [] => 0
  | f :: frames => estimate w f.2 + estimated frames

/-- The frames of `backtrace_symbols`: the addresses, and what `dladdr` answers. -/
def framesOf (dladdr : Nat → Addr w → Option (DlInfo w)) (array : List (Addr w)) :
    List (Frame w) :=
  (dladdrLoop dladdr 0 array).1

/-- `total` behind the first loop. -/
def total (dladdr : Nat → Addr w → Option (DlInfo w)) (array : List (Addr w)) : BitVec w.bits :=
  (dladdrLoop dladdr 0 array).2

variable {frames : List (Frame w)}

theorem toNat_dladdrLoop (dladdr : Nat → Addr w → Option (DlInfo w)) (cnt : Nat)
    (array : List (Addr w)) : (dladdrLoop dladdr cnt array).2.toNat =
      estimated (dladdrLoop dladdr cnt array).1 % 2 ^ w.bits := by
  induction array generalizing cnt with
  | nil =>
    rw [dladdrLoop, estimated, Nat.zero_mod]
    exact BitVec.toNat_zero
  | cons addr array ih =>
    rw [dladdrLoop, estimated, BitVec.toNat_add, BitVec.toNat_ofNat, ih, ← Nat.add_mod]

/-- **`total` is the sum**, as far as a `size_t` goes. -/
theorem toNat_total (dladdr : Nat → Addr w → Option (DlInfo w)) (array : List (Addr w)) :
    (total dladdr array).toNat = estimated (framesOf dladdr array) % 2 ^ w.bits :=
  toNat_dladdrLoop dladdr 0 array

theorem length_framesOf (dladdr : Nat → Addr w → Option (DlInfo w)) (array : List (Addr w)) :
    (framesOf dladdr array).length = array.length := by
  rw [framesOf, dladdrLoop_eq, List.length_map, List.length_zipIdx]

theorem linesBytes_le_estimated (frames : List (Frame w)) :
    linesBytes frames ≤ estimated frames := by
  induction frames with
  | nil => exact Nat.le_refl 0
  | cons f frames ih => exact Nat.add_le_add (lineBytes_le_estimate f.1 f.2) ih

theorem estimated_le : estimated frames ≤
    2 ^ (w.bits - 31) * (frames.length * w.sizeofPtr + linesBytes frames) := by
  induction frames with
  | nil => exact Nat.zero_le _
  | cons f frames ih =>
    have hline := estimate_le f.1 f.2
    have hsum : (f :: frames).length * w.sizeofPtr + linesBytes (f :: frames) =
        (w.sizeofPtr + lineBytes f.1 f.2) + (frames.length * w.sizeofPtr + linesBytes frames) := by
      rw [List.length_cons, linesBytes, Nat.succ_mul]
      omega
    rw [hsum, Nat.mul_add]
    exact Nat.add_le_add hline ih

/-- The largest `int`. -/
def INT_MAX : Nat := 2147483647

/-- Where pointers and lines take no more bytes than an `int` can say, the sum of the estimates is a
`size_t`. -/
theorem estimated_lt (h : frames.length * w.sizeofPtr + linesBytes frames ≤ INT_MAX) :
    estimated frames < 2 ^ w.bits := by
  have hle := Nat.mul_le_mul_left (2 ^ (w.bits - 31)) h
  have hlt : 2 ^ (w.bits - 31) * INT_MAX < 2 ^ w.bits := by
    rw [two_pow_bits]
    exact Nat.mul_lt_mul_of_pos_left (by decide) (Nat.two_pow_pos _)
  exact Nat.lt_of_le_of_lt (Nat.le_trans estimated_le hle) hlt

/-! ## Where the lines are -/

theorem linesBytes_append (frames frames' : List (Frame w)) :
    linesBytes (frames ++ frames') = linesBytes frames + linesBytes frames' := by
  induction frames with
  | nil => exact (Nat.zero_add _).symm
  | cons f frames ih => rw [List.cons_append, linesBytes, linesBytes, ih, Nat.add_assoc]

theorem linesBytes_take_le (frames : List (Frame w)) (n : Nat) :
    linesBytes (frames.take n) ≤ linesBytes frames := by
  have hsplit := linesBytes_append (frames.take n) (frames.drop n)
  rw [List.take_append_drop] at hsplit
  omega

theorem linesBytes_take_succ {cnt : Nat} {f : Frame w} (h : frames[cnt]? = some f) :
    linesBytes (frames.take (cnt + 1)) = linesBytes (frames.take cnt) + lineBytes f.1 f.2 := by
  rw [List.take_add_one, h, linesBytes_append]
  rfl

theorem lineBytes_pos (f : Frame w) : 0 < lineBytes f.1 f.2 := by
  rw [← length_frameText]
  exact Nat.succ_pos _

/-- The pointers and the lines in the array; the line of entry `cnt` begins at `off cnt`. -/
structure Placed (name : List Cell) (max_len : Nat) (frames : List (Frame w)) (off : Nat → Nat) :
    Prop where
  /-- `result[cnt]`. -/
  pointer : ∀ cnt < frames.length,
    Buffer.read name (cnt * w.sizeofPtr) w.sizeofPtr = some (pointerCells w (off cnt))
  behind : ∀ cnt < frames.length, frames.length * w.sizeofPtr ≤ off cnt
  increasing : ∀ cnt cnt', cnt < cnt' → cnt' < frames.length → off cnt < off cnt'
  /-- The line with its NUL. -/
  line : ∀ cnt f, frames[cnt]? = some f →
    Buffer.read name (off cnt) (lineBytes f.1 f.2) = some (stringCells (frameText f.1 f.2))
  /-- What is found through the pointer. -/
  string : ∀ cnt f, frames[cnt]? = some f →
    cstring (name.drop (off cnt)) = .ok (frameText f.1 f.2)
  /-- A line ends before the next one begins. -/
  apart : ∀ cnt cnt' f, frames[cnt]? = some f → cnt < cnt' → cnt' < frames.length →
    off cnt + lineBytes f.1 f.2 ≤ off cnt'
  inside : ∀ cnt f, frames[cnt]? = some f → off cnt + lineBytes f.1 f.2 ≤ max_len

/-- The pointer and the line of one entry. -/
theorem LaidOut.entry {name : List Cell} {cnt last i : Nat} {f : Frame w}
    (h : LaidOut name cnt last frames) (hf : frames[i]? = some f) :
    Buffer.read name ((cnt + i) * w.sizeofPtr) w.sizeofPtr =
        some (pointerCells w (last + linesBytes (frames.take i))) ∧
      Buffer.read name (last + linesBytes (frames.take i)) (lineBytes f.1 f.2) =
        some (stringCells (frameText f.1 f.2)) := by
  induction frames generalizing cnt last i with
  | nil => cases hf
  | cons g frames ih =>
    obtain ⟨hpointer, hline, hrest⟩ := h
    cases i with
    | zero =>
      obtain rfl := Option.some.inj hf
      exact ⟨hpointer, hline⟩
    | succ i =>
      have hentry := ih hrest hf
      rw [List.take_succ_cons, linesBytes, ← Nat.add_assoc, ← Nat.add_assoc, Nat.add_right_comm]
      exact hentry

/-- Lines that have been laid out behind the pointers, in `max_len` bytes. -/
theorem LaidOut.placed {name : List Cell} {max_len : Nat}
    (h : LaidOut name 0 (frames.length * w.sizeofPtr) frames)
    (hle : frames.length * w.sizeofPtr + linesBytes frames ≤ max_len) :
    Placed name max_len frames
      fun cnt => frames.length * w.sizeofPtr + linesBytes (frames.take cnt) := by
  have hget : ∀ cnt < frames.length, ∃ f, frames[cnt]? = some f := fun cnt hcnt =>
    ⟨_, List.getElem?_eq_getElem hcnt⟩
  have hnext : ∀ cnt cnt' f, frames[cnt]? = some f → cnt < cnt' →
      linesBytes (frames.take cnt) + lineBytes f.1 f.2 ≤ linesBytes (frames.take cnt') := by
    intro cnt cnt' f hf hlt
    have hmin : min (cnt + 1) cnt' = cnt + 1 := Nat.min_eq_left hlt
    rw [← linesBytes_take_succ hf, ← hmin, ← List.take_take]
    exact linesBytes_take_le ..
  have hlast : ∀ cnt f, frames[cnt]? = some f →
      linesBytes (frames.take cnt) + lineBytes f.1 f.2 ≤ linesBytes frames := by
    intro cnt f hf
    rw [← linesBytes_take_succ hf]
    exact linesBytes_take_le ..
  constructor
  case pointer =>
    intro cnt hcnt
    obtain ⟨f, hf⟩ := hget cnt hcnt
    have hentry := (h.entry hf).1
    rwa [Nat.zero_add] at hentry
  case behind => exact fun _ _ => Nat.le_add_right ..
  case increasing =>
    intro cnt cnt' hlt hcnt'
    obtain ⟨f, hf⟩ := hget cnt (Nat.lt_trans hlt hcnt')
    have hpos := lineBytes_pos f
    have hle' := hnext cnt cnt' f hf hlt
    omega
  case line => exact fun cnt f hf => (h.entry hf).2
  case string =>
    intro cnt f hf
    obtain ⟨rest, hdrop⟩ := Buffer.drop_eq_of_read (h.entry hf).2
    rw [hdrop]
    exact cstring_stringCells (nul_not_mem_frameText f.1 f.2) rest
  case apart =>
    intro cnt cnt' f hf hlt _
    have hle' := hnext cnt cnt' f hf hlt
    omega
  case inside =>
    intro cnt f hf
    have hle' := hlast cnt f hf
    omega

/-! ## Whether the estimate is sufficient -/

/-- `buf` takes every distance; and `backtrace_symbols` ends, with nothing written outside the array
and the `assert` holding, and leaves all lines in their places. -/
def Succeeds (dladdr : Nat → Addr w → Option (DlInfo w)) (array : List (Addr w))
    (result : List Cell) (max_len : Nat) : Prop :=
  (∀ f ∈ framesOf dladdr array, ∀ info, f.2 = some info →
    (offsetText f.1 info.dli_saddr).length + 1 ≤ 20) ∧
  ∃ name off, backtraceSymbols dladdr array result max_len = .ok name ∧
    Placed name max_len (framesOf dladdr array) off

variable {dladdr : Nat → Addr w → Option (DlInfo w)} {array : List (Addr w)} {result : List Cell}
  {max_len : Nat}

theorem backtraceSymbols_eq : backtraceSymbols dladdr array result max_len =
    (symbolsLoop 0 ((framesOf dladdr array).length * w.sizeofPtr) result (framesOf dladdr array) >>=
      fun r => if r.1 ≤ max_len then .ok r.2 else .error .assertion) := by
  rw [length_framesOf]
  rfl

/-- With room for the pointers, exactly the lines have to fit behind them. -/
theorem succeeds_iff (hresult : max_len ≤ result.length)
    (htable : (framesOf dladdr array).length * w.sizeofPtr ≤ max_len) :
    Succeeds dladdr array result max_len ↔ (framesOf dladdr array).length * w.sizeofPtr +
      linesBytes (framesOf dladdr array) ≤ max_len := by
  unfold Succeeds
  rw [backtraceSymbols_eq]
  generalize framesOf dladdr array = frames at htable ⊢
  have hzero : (0 + frames.length) * w.sizeofPtr = frames.length * w.sizeofPtr := by
    rw [Nat.zero_add]
  have hbuf : ∀ f ∈ frames, ∀ info, f.2 = some info →
      (offsetText f.1 info.dli_saddr).length + 1 ≤ 20 := by
    intro f _ info _
    rw [length_offsetText]
    exact offsetLength_le f.1 info.dli_saddr
  rw [and_iff_right hbuf]
  by_cases hin : frames.length * w.sizeofPtr + linesBytes frames ≤ result.length
  · obtain ⟨name, hloop, hlaid, -⟩ := symbolsLoop_ok frames 0 (frames.length * w.sizeofPtr) result
      (Nat.le_of_eq hzero) hin
    rw [hloop]
    constructor
    · rintro ⟨name', off, hok, -⟩
      by_contra hover
      cases (if_neg hover).symm.trans hok
    · intro hle
      exact ⟨name, _, if_pos hle, hlaid.placed hle⟩
  · have hloop := symbolsLoop_outside frames 0 (frames.length * w.sizeofPtr) result
      (by omega) (by omega) (by omega)
    rw [hloop]
    refine iff_of_false ?_ fun hle => hin (Nat.le_trans hle hresult)
    rintro ⟨name, off, hok, -⟩
    cases hok

/-- **The estimate of `backtrace_symbols`**: for a caller who leaves room for the pointers and the
sum of what the first loop adds, all goes well. -/
theorem estimate_sufficient (w : ElfClass) (dladdr : Nat → Addr w → Option (DlInfo w))
    (array : List (Addr w)) (result : List Cell) (max_len : Nat) (hresult : max_len ≤ result.length)
    (hroom : array.length * w.sizeofPtr + estimated (framesOf dladdr array) ≤ max_len) :
    Succeeds dladdr array result max_len := by
  have hle := linesBytes_le_estimated (framesOf dladdr array)
  rw [← length_framesOf dladdr array] at hroom
  exact (succeeds_iff hresult (by omega)).mpr (by omega)

def aSo : CString where
  text := "/a.so".toList
  nul := by decide

def main : CString where
  text := "main".toList
  nul := by decide

/-- Three addresses: of nothing that is known, of an object, and of a function that begins above. -/
theorem estimate_sufficient_three :
    Succeeds (w := .class64) (fun cnt _ => if cnt = 0 then none else if cnt = 1 then
      some ⟨some aSo, none, 0⟩ else some ⟨some aSo, some main, 0x40⟩) [1, 0x20, 0x30]
        (List.replicate 151 (.char NUL)) 150 :=
  estimate_sufficient .class64 _ [1, 0x20, 0x30] (List.replicate 151 (.char NUL)) 150 (by simp)
    (by decide)

/-! ## A sum that does not fit into a `size_t` -/

theorem estimated_lt_of_succeeds (hint : max_len ≤ INT_MAX) (hresult : max_len ≤ result.length)
    (htable : array.length * w.sizeofPtr ≤ max_len) (h : Succeeds dladdr array result max_len) :
    estimated (framesOf dladdr array) < 2 ^ w.bits := by
  rw [← length_framesOf dladdr array] at htable
  exact estimated_lt (Nat.le_trans ((succeeds_iff hresult htable).mp h) hint)

/-- A caller who leaves room for `total`, in which the sum is a `size_t`, is safe exactly if it is
the sum. The one in `backtrace.c` passes 15 addresses at most, and reads `total` not at all. -/
theorem total_sufficient_iff (hint : max_len ≤ INT_MAX) (hresult : max_len ≤ result.length)
    (hroom : array.length * w.sizeofPtr + (total dladdr array).toNat ≤ max_len) :
    Succeeds dladdr array result max_len ↔ estimated (framesOf dladdr array) < 2 ^ w.bits := by
  constructor
  · exact estimated_lt_of_succeeds hint hresult (by omega)
  · intro hlt
    have hle := linesBytes_le_estimated (framesOf dladdr array)
    rw [toNat_total, Nat.mod_eq_of_lt hlt, ← length_framesOf dladdr array] at hroom
    exact (succeeds_iff hresult (by omega)).mpr (by omega)

theorem estimated_eq {n : Nat} (h : ∀ f ∈ frames, estimate w f.2 = n) :
    estimated frames = frames.length * n := by
  induction frames with
  | nil => exact (Nat.zero_mul n).symm
  | cons f frames ih =>
    obtain ⟨hf, hrest⟩ := List.forall_mem_cons.mp h
    rw [estimated, hf, ih hrest, List.length_cons, Nat.succ_mul, Nat.add_comm]

/-- `dladdr` says the same of all addresses. -/
theorem estimated_framesOf (info : Option (DlInfo w)) (array : List (Addr w)) :
    estimated (framesOf (fun _ _ => info) array) = array.length * estimate w info := by
  rw [← length_framesOf fun _ _ => info]
  refine estimated_eq fun f hf => ?_
  rw [framesOf, dladdrLoop_eq] at hf
  obtain ⟨x, -, rfl⟩ := List.mem_map.mp hf
  rfl

/-- A line of three parts. -/
theorem estimate_some {fname sname : CString} {saddr : Addr w} (h : fname.text ≠ []) :
    estimate w (some ⟨some fname, some sname, saddr⟩) =
      fname.text.length + (sname.text.length + 3 + WORD_WIDTH w + 3) + WORD_WIDTH w + 5 := by
  rw [estimate, if_neg h]

/-- A name of 65504 bytes, of a function in `/a.so`. -/
def longSymbol : CString where
  text := List.replicate 65504 'f'
  nul := fun h => absurd (List.eq_of_mem_replicate h) (by decide)

/-- It has called itself, 65536 frames deep. -/
def deepStack : List (Addr .class32) := List.replicate 65536 0xf7d01024

/-- **A `total` that wraps around to 0**: 65536 lines, each estimated at 65536 bytes, with 32 bits.
A caller who leaves room for the pointers has left room for no line. -/
theorem total_wraps :
    let dladdr := fun (_ : Nat) (_ : Addr .class32) => some ⟨some aSo, some longSymbol, 0xf7d01000⟩
    let result := List.replicate 262144 (Cell.char NUL)
    262144 ≤ INT_MAX ∧ 262144 ≤ result.length ∧
      deepStack.length * ElfClass.class32.sizeofPtr + (total dladdr deepStack).toNat ≤ 262144 ∧
      ¬ Succeeds dladdr deepStack result 262144 := by
  intro dladdr result
  have hdeep : deepStack.length = 65536 := List.length_replicate
  have hresult : result.length = 262144 := List.length_replicate
  have hestimate : estimate .class32 (some ⟨some aSo, some longSymbol, 0xf7d01000⟩) = 65536 := by
    have hshort : aSo.text.length = 5 := by decide
    have hlong : longSymbol.text.length = 65504 := List.length_replicate
    rw [estimate_some (by decide), hshort, hlong, WORD_WIDTH]
  have hsum : estimated (framesOf dladdr deepStack) = 4294967296 := by
    rw [estimated_framesOf, hdeep, hestimate]
  have hint : 262144 ≤ INT_MAX := by decide
  have hle : 262144 ≤ result.length := Nat.le_of_eq hresult.symm
  have hroom : deepStack.length * ElfClass.class32.sizeofPtr = 262144 := by
    rw [hdeep, ElfClass.sizeofPtr]
  refine ⟨hint, hle, ?_, fun h => ?_⟩
  · rw [toNat_total, hsum, hroom]
    decide
  · have hlt := estimated_lt_of_succeeds hint hle (Nat.le_of_eq hroom) h
    rw [hsum] at hlt
    exact absurd hlt (by decide)

end EngineerLinux.Backtrace
