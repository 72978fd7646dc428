import EngineerLinux.Lib.Buffer
import EngineerLinux.StartProcess.Command

/-!
# What a redirection leaves in the file

The child against a kernel that has files too. `open` creates a missing file and does not cut an
existing one (`main.c` 121), and what the started program writes to standard output overwrites the
file from its beginning.

The descriptors are those of `Command`; of the files it is enough to know which exist and which has
been opened last, as the child writes to none. Whatever pieces the program writes, they come behind
each other (`writeAll_target`), so the file ends with what the old content has behind them.

- `redirectAll_disk`: the files behind the redirections;
- `writeAll_content`: the file behind standard output when the program has ended;
- `output_exact_iff`: **the last target holds exactly the output**, and the earlier ones nothing, if
  and only if nothing was in the way: no longer content, nothing in an earlier target, and a target
  that can be opened.
-/

namespace EngineerLinux.StartProcess

variable {ι : Type} [DecidableEq ι] {copy : Copy} {getenv : Text → Option Text} {command : Text}

/-! ## Files -/

/-- The descriptors with the files behind them. -/
structure Disk (ι : Type) where
  kernel : Kernel
  /-- What is in a file, none where there is no file. -/
  content : ι → Option (List UInt8)
  /-- The offset at which the `n`th file opened is written. -/
  off : Nat → Nat

/-- The files that the paths refer to are `place`; there is no `O_TRUNC`. -/
def Disk.sys (place : Text → ι) (o : Answers) (c : Call) (d : Disk ι) : Int × Disk ι :=
  let (ret, kernel) := Kernel.sys o c d.kernel
  match c with
  | .open path =>
    if o.canOpen d.kernel.opened.length path then
      (ret, {
        kernel
        content := Function.update d.content (place path) (some ((d.content (place path)).getD []))
        off := Function.update d.off d.kernel.opened.length 0 })
    else (ret, { d with kernel })
  | _ => (ret, { d with kernel })

/-- The started program writes to standard output. -/
def Disk.write (place : Text → ι) (d : Disk ι) (bytes : List UInt8) : Disk ι :=
  match d.kernel.table.lookup 1 with
  | some (.target n path) => { d with
      content := Function.update d.content (place path)
        (some (Buffer.overwrite 0 ((d.content (place path)).getD []) (d.off n) bytes))
      off := Function.update d.off n (d.off n + bytes.length) }
  | _ => d

/-- The program writes all its output, and ends. -/
def Disk.writeAll (place : Text → ι) (d : Disk ι) (writes : List (List UInt8)) : Disk ι :=
  writes.foldl (Disk.write place) d

variable (place : Text → ι) {o : Answers} {d : Disk ι} {path : Text}

/-- The descriptors do not depend on the files. -/
theorem Disk.sys_kernel (c : Call) :
    (Disk.sys place o c d).1 = (Kernel.sys o c d.kernel).1 ∧
      (Disk.sys place o c d).2.kernel = (Kernel.sys o c d.kernel).2 := by
  cases c with
  | «open» path =>
    unfold Disk.sys
    dsimp only
    split
    · exact ⟨rfl, rfl⟩
    · exact ⟨rfl, rfl⟩
  | _ => exact ⟨rfl, rfl⟩

/-! ## Redirections -/

/-- After the three calls of one redirection. -/
def Disk.redirected (o : Answers) (d : Disk ι) (path : Text) : Disk ι :=
  let r := Disk.sys place o (.open path) d
  (Disk.sys place o (.close r.1) (Disk.sys place o (.dup2 r.1 1) r.2).2).2

theorem Disk.redirected_kernel (o : Answers) (d : Disk ι) (path : Text) :
    (d.redirected place o path).kernel = d.kernel.redirected o path := by
  obtain ⟨hret, hkernel⟩ := Disk.sys_kernel place (o := o) (d := d) (.open path)
  unfold Disk.redirected Kernel.redirected
  rw [(Disk.sys_kernel place _).2, (Disk.sys_kernel place _).2, hret, hkernel]

/-- One redirection creates its target, if it can be opened, and does nothing else to a file. -/
theorem Disk.redirected_files (o : Answers) (d : Disk ι) (path : Text) :
    (d.redirected place o path).content = (if o.canOpen d.kernel.opened.length path then
      Function.update d.content (place path) (some ((d.content (place path)).getD []))
      else d.content) ∧
    (d.redirected place o path).off = (if o.canOpen d.kernel.opened.length path then
      Function.update d.off d.kernel.opened.length 0 else d.off) := by
  show (Disk.sys place o (.open path) d).2.content = _ ∧ (Disk.sys place o (.open path) d).2.off = _
  unfold Disk.sys
  dsimp only
  cases o.canOpen d.kernel.opened.length path with
  | false => exact ⟨rfl, rfl⟩
  | true => exact ⟨rfl, rfl⟩

/-- One of these targets is this file and can be opened. -/
def created (o : Answers) (n : Nat) (ps : List Text) (i : ι) : Bool :=
  (ps.zipIdx n).any fun x => o.canOpen x.2 x.1 && decide (place x.1 = i)

theorem created_cons (n : Nat) (ps : List Text) (i : ι) :
    created place o n (path :: ps) i =
      ((o.canOpen n path && decide (place path = i)) || created place o (n + 1) ps i) := rfl

/-- **The files behind the redirections**: the targets that can be opened exist, and nothing else
has changed; the file behind standard output is written from its beginning. -/
theorem redirectAll_disk {R : Type} (k : Prog Posix R) (ps : List Text)
    (hout : d.kernel.table.lookup 1 ≠ none) :
    ∃ d', (redirectAll k ps).run (Disk.sys place o) d = k.run (Disk.sys place o) d' ∧
      d'.kernel.table.lookup 1 =
        stdoutFile (d.kernel.table.lookup 1) (lastOpened o d.kernel.opened.length ps) ∧
      (∀ i, d'.content i = if created place o d.kernel.opened.length ps i then
        some ((d.content i).getD []) else d.content i) ∧
      (∀ x, lastOpened o d.kernel.opened.length ps = some x → d'.off x.2 = 0) ∧
      (∀ n, n < d.kernel.opened.length → d'.off n = d.off n) := by
  induction ps generalizing d with
  | nil => exact ⟨d, rfl, rfl, fun _ => rfl, nofun, fun _ _ => rfl⟩
  | cons p ps ih =>
    obtain ⟨hopened, hstdout, -⟩ := redirected_spec o p hout
    obtain ⟨hcontent, hoff⟩ := Disk.redirected_files place o d p
    have hkernel := Disk.redirected_kernel place o d p
    have hlen : (d.redirected place o p).kernel.opened.length = d.kernel.opened.length + 1 := by
      rw [hkernel, hopened, List.length_append]
      rfl
    obtain ⟨d', hrun, hstdout', hcontent', hzero', hoff'⟩ :=
      ih (d := d.redirected place o p) (hkernel ▸ redirected_stdout hout)
    rw [hlen] at hstdout' hcontent' hzero' hoff'
    refine ⟨d', hrun, ?_, fun i => ?_, fun x hx => ?_, fun n hn => ?_⟩
    · rw [hstdout', hkernel, hstdout, stdoutFile_cons]
    · rw [hcontent', hcontent, created_cons]
      cases o.canOpen d.kernel.opened.length p with
      | false => rfl
      | true =>
        by_cases hi : place p = i
        · subst hi
          simp
        · simp [hi, Function.update_of_ne (Ne.symm hi)]
    · rw [lastOpened_cons] at hx
      cases hlast : lastOpened o (d.kernel.opened.length + 1) ps with
      | some y =>
        rw [hlast] at hx
        exact Option.some.inj hx ▸ hzero' y hlast
      | none =>
        -- this is the last target that can be opened
        rw [hlast, Option.none_or] at hx
        split at hx
        · next hcan =>
          cases hx
          rw [hoff' _ (Nat.lt_succ_self _), hoff, if_pos hcan, Function.update_self]
        · cases hx
    · rw [hoff' n (Nat.lt_succ_of_lt hn), hoff]
      split
      · exact Function.update_of_ne (Nat.ne_of_lt hn) ..
      · rfl

/-- A file that no target refers to is not created. -/
theorem created_of_not_mem {n : Nat} {ps : List Text} {i : ι} (h : i ∉ ps.map place) :
    created place o n ps i = false := by
  induction ps generalizing n with
  | nil => rfl
  | cons p ps ih =>
    rw [List.map_cons, List.mem_cons, not_or] at h
    rw [created_cons, ih h.2, decide_eq_false (Ne.symm h.1), Bool.and_false, Bool.or_false]

/-- Of targets that are different files, each is created if it can be opened. -/
theorem created_of_mem {n : Nat} {ps : List Text} (hdistinct : (ps.map place).Nodup)
    {x : Text × Nat} (hx : x ∈ ps.zipIdx n) :
    created place o n ps (place x.1) = o.canOpen x.2 x.1 := by
  induction ps generalizing n with
  | nil => cases hx
  | cons p ps ih =>
    rw [List.map_cons, List.nodup_cons] at hdistinct
    rw [created_cons]
    rcases List.mem_cons.mp hx with rfl | hx
    · rw [created_of_not_mem place hdistinct.1, decide_eq_true rfl, Bool.and_true, Bool.or_false]
    · have hmem : place x.1 ∈ ps.map place :=
        List.mem_map_of_mem (List.fst_mem_of_mem_zipIdx hx)
      have hne : place p ≠ place x.1 := fun h => hdistinct.1 (h ▸ hmem)
      rw [ih hdistinct.2 hx, decide_eq_false hne, Bool.and_false, Bool.false_or]

theorem lastOpened_concat {n : Nat} {ps : List Text} :
    lastOpened o n (ps ++ [path]) =
      if o.canOpen (n + ps.length) path then some (path, n + ps.length)
        else lastOpened o n ps := by
  unfold lastOpened
  rw [List.zipIdx_append, List.filter_append]
  cases hcan : o.canOpen (n + ps.length) path with
  | false => simp [hcan]
  | true => simp [hcan]

/-- The target that became standard output is one of them, and can be opened. -/
theorem lastOpened_mem {n : Nat} {ps : List Text} {x : Text × Nat}
    (h : lastOpened o n ps = some x) : x ∈ ps.zipIdx n ∧ o.canOpen x.2 x.1 = true :=
  List.mem_filter.mp (List.mem_of_getLast? h)

/-! ## Output -/

/-- Writes one after the other are one write of everything, wherever the first one begins. -/
theorem Disk.writeAll_target {n : Nat} (h : d.kernel.table.lookup 1 = some (.target n path))
    {old : List UInt8} (hold : d.content (place path) = some old) (hoff : d.off n ≤ old.length)
    (writes : List (List UInt8)) :
    (d.writeAll place writes).content = Function.update d.content (place path)
      (some (Buffer.overwrite 0 old (d.off n) writes.flatten)) := by
  induction writes generalizing d old with
  | nil =>
    rw [List.flatten_nil, Buffer.overwrite_nil hoff, ← hold, Function.update_eq_self]
    rfl
  | cons bytes writes ih =>
    have hwrite : d.write place bytes = { d with
        content := Function.update d.content (place path)
          (some (Buffer.overwrite 0 old (d.off n) bytes))
        off := Function.update d.off n (d.off n + bytes.length) } := by
      unfold Disk.write
      rw [h]
      dsimp only
      rw [hold]
      rfl
    have hoff' : (d.write place bytes).off n = d.off n + bytes.length := by
      rw [hwrite]
      exact Function.update_self ..
    have hold' : (d.write place bytes).content (place path) =
        some (Buffer.overwrite 0 old (d.off n) bytes) := by
      rw [hwrite]
      exact Function.update_self ..
    have hle := Buffer.le_length_overwrite (0 : UInt8) bytes hoff
    show ((d.write place bytes).writeAll place writes).content = _
    rw [ih (d := d.write place bytes) (by rw [hwrite]; exact h) hold' (by rw [hoff']; exact hle),
      hoff', Buffer.overwrite_append hoff, hwrite, List.flatten_cons]
    exact Function.update_idem ..

/-- **The file behind standard output**: the output in the place of the beginning of what was there,
and the rest of it. -/
theorem Disk.writeAll_content {n : Nat} (h : d.kernel.table.lookup 1 = some (.target n path))
    {old : List UInt8} (hold : d.content (place path) = some old) (hoff : d.off n = 0)
    (writes : List (List UInt8)) :
    (d.writeAll place writes).content = Function.update d.content (place path)
      (some (writes.flatten ++ old.drop writes.flatten.length)) := by
  rw [Disk.writeAll_target place h hold (by rw [hoff]; exact Nat.zero_le _) writes, hoff,
    Buffer.overwrite_zero]

/-! ## The last target -/

/-- What a user of redirections to `ps` and then to `p` expects when the program has ended, from
the files `d'` at `execvp`. -/
structure ExactOutput (o : Answers) (d d' : Disk ι) (ps : List Text) (p : Text)
    (writes : List (List UInt8)) : Prop where
  last : (d'.writeAll place writes).content (place p) = some writes.flatten
  earlier : ∀ q ∈ ps, (d'.writeAll place writes).content (place q) = some []
  caller : (∃ x ∈ (ps ++ [p]).zipIdx d.kernel.opened.length, o.canOpen x.2 x.1 = false) →
    d'.kernel.table.lookup 1 ≠ d.kernel.table.lookup 1

/-- Nothing of the old files `d` shows in the result. -/
structure NothingShows (o : Answers) (d : Disk ι) (ps : List Text) (p : Text)
    (output : List UInt8) : Prop where
  opened : ∃ x ∈ (ps ++ [p]).zipIdx d.kernel.opened.length, o.canOpen x.2 x.1 = true
  earlier : ∀ x ∈ ps.zipIdx d.kernel.opened.length,
    d.content (place x.1) = some [] ∨ d.content (place x.1) = none ∧ o.canOpen x.2 x.1 = true
  last : if o.canOpen (d.kernel.opened.length + ps.length) p then
      ((d.content (place p)).getD []).length ≤ output.length
    else output = [] ∧ d.content (place p) = some []

/-- A file is empty behind the redirections. -/
theorem created_eq_empty_iff {c : Option (List UInt8)} {can : Bool} :
    (if can then some (c.getD []) else c) = some [] ↔ c = some [] ∨ c = none ∧ can = true := by
  cases can with
  | false => simp
  | true => cases c <;> simp

theorem exists_mem_zipIdx {ps : List Text} {q : Text} (n : Nat) (h : q ∈ ps) :
    ∃ m, (q, m) ∈ ps.zipIdx n := by
  rw [← List.zipIdx_map_fst n ps] at h
  obtain ⟨⟨_, m⟩, hm, rfl⟩ := List.mem_map.mp h
  exact ⟨m, hm⟩

/-- The child whose kept words fit executes its program, with the calls for its targets made. -/
theorem run_disk (copy : Copy) (getenv : Text → Option Text) (elem₀ : Text) {rest : List Text}
    (hfit : (kept getenv false rest).length ≤ PROCESS_MAX_PARAMS)
    (hout : d.kernel.table.lookup 1 ≠ none) :
    ∃ d', (run copy getenv (elem₀ :: rest)).run (Disk.sys place o) d =
        (.execvp elem₀ (elem₀ :: kept getenv false rest), d') ∧
      d'.kernel.table.lookup 1 = stdoutFile (d.kernel.table.lookup 1)
        (lastOpened o d.kernel.opened.length (paths getenv false rest)) ∧
      (∀ i, d'.content i =
        if created place o d.kernel.opened.length (paths getenv false rest) i then
          some ((d.content i).getD []) else d.content i) ∧
      (∀ x, lastOpened o d.kernel.opened.length (paths getenv false rest) = some x →
        d'.off x.2 = 0) := by
  obtain ⟨d', hrun, hstdout, hcontent, hzero, -⟩ := redirectAll_disk place (o := o)
    ((prepare copy).bind fun _ => .ret (Final.execvp elem₀ (elem₀ :: kept getenv false rest)))
    (paths getenv false rest) hout
  have hcalls : ∀ (c : Posix.Call) (d : Disk ι), c.AboutPriority →
      (Disk.sys place o c d).2 = d := by
    intro c d hc
    cases c with
    | «open» | dup2 | close => exact hc.elim
    | _ => rfl
  have hprepare := Prog.Only.run hcalls (prepare_only copy) d'
  refine ⟨d', ?_, hstdout, hcontent, hzero⟩
  rw [run_eq copy getenv elem₀ rest hfit, hrun, Prog.run_bind, hprepare]
  rfl

/-- A child that gets to `execvp` has kept no more words than fit. -/
theorem fits_of_run {elem₀ file : Text} {rest argv : List Text} {d' : Disk ι}
    (hout : d.kernel.table.lookup 1 ≠ none)
    (hrun : (run copy getenv (elem₀ :: rest)).run (Disk.sys place o) d =
      (.execvp file argv, d')) : (kept getenv false rest).length ≤ PROCESS_MAX_PARAMS := by
  by_contra hlt
  obtain ⟨ps, hps⟩ := run_fault copy getenv elem₀ rest (Nat.not_le.mp hlt)
  obtain ⟨d₁, hrun₁, -⟩ := redirectAll_disk place (o := o)
    (Prog.ret (Final.fault .args) : Prog Posix Final) ps hout
  rw [hps, hrun₁] at hrun
  cases congrArg Prod.fst hrun

/-- The last target can be opened: the output goes there. -/
theorem exact_of_opened {n : Nat} {ps : List Text} {p : Text} {d' : Disk ι} {id : Nat}
    (hn : d.kernel.opened.length = n) (hdistinct : ((ps ++ [p]).map place).Nodup)
    (hcaller : d.kernel.table.lookup 1 = some (.other id))
    (hcan : o.canOpen (n + ps.length) p = true)
    (hstdout : d'.kernel.table.lookup 1 = some (.target (n + ps.length) p))
    (hfile : ∀ x ∈ (ps ++ [p]).zipIdx n, d'.content (place x.1) =
      if o.canOpen x.2 x.1 then some ((d.content (place x.1)).getD []) else d.content (place x.1))
    (hzero : d'.off (n + ps.length) = 0) (writes : List (List UInt8)) :
    ExactOutput place o d d' ps p writes ↔ NothingShows place o d ps p writes.flatten := by
  have hlast : (p, n + ps.length) ∈ (ps ++ [p]).zipIdx n := by
    rw [List.zipIdx_append]
    exact List.mem_append_right _ (List.mem_singleton_self _)
  have hp := hfile _ hlast
  rw [if_pos hcan] at hp
  have hcontent := Disk.writeAll_content place hstdout hp hzero writes
  have hfront : ∀ q ∈ ps, place q ≠ place p := by
    intro q hq heq
    rw [List.map_append, List.nodup_append] at hdistinct
    exact hdistinct.2.2 _ (List.mem_map_of_mem hq) _ (List.mem_singleton_self _) heq
  -- what is in an earlier target, in the end
  have hearlier : ∀ x ∈ ps.zipIdx n, (d'.writeAll place writes).content (place x.1) = some [] ↔
      d.content (place x.1) = some [] ∨
        d.content (place x.1) = none ∧ o.canOpen x.2 x.1 = true := by
    intro x hx
    have hx' : x ∈ (ps ++ [p]).zipIdx n := by
      rw [List.zipIdx_append]
      exact List.mem_append_left _ hx
    rw [hcontent, Function.update_of_ne (hfront _ (List.fst_mem_of_mem_zipIdx hx)), hfile x hx',
      created_eq_empty_iff]
  -- and in the last one
  have hlast' : (d'.writeAll place writes).content (place p) = some writes.flatten ↔
      ((d.content (place p)).getD []).length ≤ writes.flatten.length := by
    rw [hcontent, Function.update_self, Option.some.injEq, List.append_right_eq_self,
      List.drop_eq_nil_iff]
  subst hn
  constructor
  · intro h
    refine ⟨⟨_, hlast, hcan⟩, fun x hx => ?_, ?_⟩
    · exact (hearlier x hx).mp (h.earlier x.1 (List.fst_mem_of_mem_zipIdx hx))
    · rw [if_pos hcan]
      exact hlast'.mp h.last
  · intro h
    have hle := h.last
    rw [if_pos hcan] at hle
    refine ⟨hlast'.mpr hle, fun q hq => ?_, fun _ => ?_⟩
    · obtain ⟨m, hm⟩ := exists_mem_zipIdx d.kernel.opened.length hq
      exact (hearlier _ hm).mpr (h.earlier _ hm)
    · rw [hstdout, hcaller]
      exact fun h => by cases h

/-- The last target cannot be opened, but an earlier one could: the output goes there, and may not
be any. -/
theorem exact_of_not_opened {n : Nat} {ps : List Text} {p : Text} {d' : Disk ι} {id : Nat}
    {x : Text × Nat} (hn : d.kernel.opened.length = n) (hdistinct : ((ps ++ [p]).map place).Nodup)
    (hcaller : d.kernel.table.lookup 1 = some (.other id))
    (hcan : o.canOpen (n + ps.length) p = false) (hx : lastOpened o n ps = some x)
    (hstdout : d'.kernel.table.lookup 1 = some (.target x.2 x.1))
    (hfile : ∀ x ∈ (ps ++ [p]).zipIdx n, d'.content (place x.1) =
      if o.canOpen x.2 x.1 then some ((d.content (place x.1)).getD []) else d.content (place x.1))
    (hzero : d'.off x.2 = 0) (writes : List (List UInt8)) :
    ExactOutput place o d d' ps p writes ↔ NothingShows place o d ps p writes.flatten := by
  have hmem : ∀ x ∈ ps.zipIdx n, x ∈ (ps ++ [p]).zipIdx n := by
    intro x hx
    rw [List.zipIdx_append]
    exact List.mem_append_left _ hx
  have hlast : (p, n + ps.length) ∈ (ps ++ [p]).zipIdx n := by
    rw [List.zipIdx_append]
    exact List.mem_append_right _ (List.mem_singleton_self _)
  obtain ⟨hxmem, hxcan⟩ := lastOpened_mem hx
  have hxfile := hfile x (hmem x hxmem)
  rw [if_pos hxcan] at hxfile
  have hcontent := Disk.writeAll_content place hstdout hxfile hzero writes
  rw [List.map_append, List.nodup_append] at hdistinct
  have hfront : ∀ q ∈ ps, place q ≠ place p := fun q hq =>
    hdistinct.2.2 _ (List.mem_map_of_mem hq) _ (List.mem_singleton_self _)
  -- the target that was opened has the output in front of what was there
  have hxlast : (d'.writeAll place writes).content (place x.1) = some [] ↔
      writes.flatten = [] ∧ (d.content (place x.1) = some [] ∨ d.content (place x.1) = none) := by
    rw [hcontent, Function.update_self, Option.some.injEq, List.append_eq_nil_iff]
    refine and_congr_right fun hnil => ?_
    rw [hnil, List.length_nil, List.drop_zero]
    cases d.content (place x.1) <;> simp
  have hearlier : ∀ y ∈ ps.zipIdx n, place y.1 ≠ place x.1 →
      ((d'.writeAll place writes).content (place y.1) = some [] ↔
        d.content (place y.1) = some [] ∨
          d.content (place y.1) = none ∧ o.canOpen y.2 y.1 = true) := by
    intro y hy hne
    rw [hcontent, Function.update_of_ne hne, hfile y (hmem y hy), created_eq_empty_iff]
  have hp : (d'.writeAll place writes).content (place p) = d.content (place p) := by
    rw [hcontent, Function.update_of_ne (hfront _ (List.fst_mem_of_mem_zipIdx hxmem)).symm,
      hfile _ hlast, if_neg (by rw [hcan]; exact Bool.false_ne_true)]
  -- another target is another file
  have hsame : ∀ y ∈ ps.zipIdx n, place y.1 = place x.1 → o.canOpen y.2 y.1 = true := by
    intro y hy heq
    rw [← created_of_mem place (hdistinct.1) hy, heq, created_of_mem place hdistinct.1 hxmem, hxcan]
  subst hn
  constructor
  · intro h
    obtain ⟨hnil, hold⟩ := hxlast.mp (h.earlier x.1 (List.fst_mem_of_mem_zipIdx hxmem))
    refine ⟨⟨x, hmem x hxmem, hxcan⟩, fun y hy => ?_, ?_⟩
    · by_cases heq : place y.1 = place x.1
      · rw [heq, hsame y hy heq]
        exact hold.imp_right fun h => ⟨h, rfl⟩
      · exact (hearlier y hy heq).mp (h.earlier y.1 (List.fst_mem_of_mem_zipIdx hy))
    · rw [hcan, if_neg Bool.false_ne_true, ← hp, h.last, hnil]
      exact ⟨rfl, rfl⟩
  · intro h
    have hold := h.last
    rw [hcan, if_neg Bool.false_ne_true] at hold
    obtain ⟨hnil, hold⟩ := hold
    refine ⟨by rw [hp, hold, hnil], fun q hq => ?_, fun _ => ?_⟩
    · obtain ⟨m, hm⟩ := exists_mem_zipIdx d.kernel.opened.length hq
      by_cases heq : place q = place x.1
      · rw [heq]
        exact hxlast.mpr ⟨hnil, (h.earlier x hxmem).imp_right And.left⟩
      · exact (hearlier _ hm heq).mpr (h.earlier _ hm)
    · rw [hstdout, hcaller]
      exact fun h => by cases h

/-- No target can be opened: the output goes to the caller. -/
theorem not_exact_of_none {ps : List Text} {p : Text} {d' : Disk ι}
    (hnone : ∀ x ∈ (ps ++ [p]).zipIdx d.kernel.opened.length, o.canOpen x.2 x.1 = false)
    (hstdout : d'.kernel.table.lookup 1 = d.kernel.table.lookup 1) (writes : List (List UInt8)) :
    ExactOutput place o d d' ps p writes ↔ NothingShows place o d ps p writes.flatten := by
  constructor
  · intro h
    have hp : p ∈ ps ++ [p] := List.mem_append_right _ (List.mem_singleton_self _)
    obtain ⟨n, hn⟩ := exists_mem_zipIdx d.kernel.opened.length hp
    exact absurd hstdout (h.caller ⟨_, hn, hnone _ hn⟩)
  · intro h
    obtain ⟨x, hx, hcan⟩ := h.opened
    exact Bool.noConfusion (hcan.symm.trans (hnone x hx))

/-- **The last target holds exactly the output** of the program, every earlier one nothing, and the
caller's standard output is not used after a target could not be opened: this is so if and only if
nothing of the old files shows. -/
theorem output_exact_iff (copy : Copy) (getenv : Text → Option Text) (place : Text → ι)
    (o : Answers) {elem₀ file p : Text} {rest ps argv : List Text} {fuel id : Nat}
    {prog : Prog Posix Final} {d d' : Disk ι} (hsplit : Splits command (elem₀ :: rest))
    (hpaths : paths getenv false rest = ps ++ [p]) (hdistinct : ((ps ++ [p]).map place).Nodup)
    (hcaller : d.kernel.table.lookup 1 = some (.other id))
    (hprog : createProcessEx copy getenv fuel command = some prog)
    (hrun : prog.run (Disk.sys place o) d = (.execvp file argv, d'))
    (writes : List (List UInt8)) :
    ExactOutput place o d d' ps p writes ↔ NothingShows place o d ps p writes.flatten := by
  have hout : d.kernel.table.lookup 1 ≠ none := by
    rw [hcaller]
    exact Option.some_ne_none _
  obtain ⟨elems, hfuel, rfl⟩ := Option.map_eq_some_iff.mp hprog
  obtain rfl := hsplit.unique ⟨fuel, hfuel⟩
  obtain ⟨d₁, hrun₁, hstdout, hcontent, hzero⟩ :=
    run_disk place (o := o) copy getenv elem₀ (fits_of_run place hout hrun) hout
  obtain rfl : d' = d₁ := (congrArg Prod.snd hrun).symm.trans (congrArg Prod.snd hrun₁)
  rw [hpaths] at hstdout hcontent hzero
  have hfile : ∀ x ∈ (ps ++ [p]).zipIdx d.kernel.opened.length, d'.content (place x.1) =
      if o.canOpen x.2 x.1 then some ((d.content (place x.1)).getD [])
        else d.content (place x.1) := by
    intro x hx
    rw [hcontent, created_of_mem place hdistinct hx]
  rw [lastOpened_concat] at hstdout hzero
  cases hcan : o.canOpen (d.kernel.opened.length + ps.length) p with
  | true =>
    rw [if_pos hcan] at hstdout hzero
    exact exact_of_opened place rfl hdistinct hcaller hcan hstdout hfile (hzero _ rfl) writes
  | false =>
    rw [hcan, if_neg Bool.false_ne_true] at hstdout hzero
    cases hlast : lastOpened o d.kernel.opened.length ps with
    | some x =>
      rw [hlast] at hstdout
      exact exact_of_not_opened place rfl hdistinct hcaller hcan hlast hstdout hfile
        (hzero x hlast) writes
    | none =>
      rw [hlast] at hstdout
      refine not_exact_of_none place (fun x hx => ?_) hstdout writes
      have hnone : (ps.zipIdx d.kernel.opened.length).filter (fun x => o.canOpen x.2 x.1) = [] :=
        List.getLast?_eq_none_iff.mp hlast
      rw [List.zipIdx_append] at hx
      rcases List.mem_append.mp hx with hx | hx
      · exact Bool.eq_false_iff.mpr (List.filter_eq_nil_iff.mp hnone x hx)
      · rw [List.mem_singleton.mp hx]
        exact hcan

/-- A file `f` of two bytes. -/
def twoBytes : Disk Text where
  kernel := stdKernel
  content := fun path => if path = ['f'] then some [120, 121] else none
  off := fun _ => 0

/-- `a > e > f`. -/
def aToEF : Text := ['a', ' ', '>', ' ', 'e', ' ', '>', ' ', 'f']

/-- `a > e > f`, with a program that writes two bytes, one at a time. -/
theorem output_exact_iff_two :
    ∃ prog d', createProcessEx .startProcess (fun _ => none) 9 aToEF = some prog ∧
      prog.run (Disk.sys id allOpen) twoBytes = (.execvp ['a'] [['a']], d') ∧
      ExactOutput id allOpen twoBytes d' [['e']] ['f'] [[122], [122]] := by
  have hwords : splitLoop aToEF 9 0 = some [['a'], ['>'], ['e'], ['>'], ['f']] := by decide
  have hprog : createProcessEx .startProcess (fun _ => none) 9 aToEF =
      some (run .startProcess (fun _ => none) [['a'], ['>'], ['e'], ['>'], ['f']]) := by
    rw [createProcessEx, hwords]
    rfl
  have hfit : (kept (fun _ => none) false [['>'], ['e'], ['>'], ['f']]).length ≤
      PROCESS_MAX_PARAMS := by decide
  have hout : twoBytes.kernel.table.lookup 1 ≠ none := by decide
  obtain ⟨d', hrun, -⟩ :=
    run_disk id (o := allOpen) .startProcess (fun _ => none) ['a'] hfit hout
  exact ⟨_, d', hprog, hrun, (output_exact_iff .startProcess (fun _ => none) id allOpen
    ⟨9, hwords⟩ (by decide) (by decide) rfl hprog hrun [[122], [122]]).mpr
    ⟨by decide, by decide, by decide⟩⟩

/-- `a > f`. -/
def aToF : Text := ['a', ' ', '>', ' ', 'f']

theorem aToF_prog : createProcessEx .startProcess (fun _ => none) 5 aToF =
    some (run .startProcess (fun _ => none) [['a'], ['>'], ['f']]) := by
  have hsplit : splitLoop aToF 5 0 = some [['a'], ['>'], ['f']] := by decide
  rw [createProcessEx, hsplit]
  rfl

/-- What it does to `f`, up to the start of the program. -/
theorem twoBytes_run : ∃ d', (run .startProcess (fun _ => none) [['a'], ['>'], ['f']]).run
      (Disk.sys id allOpen) twoBytes = (.execvp ['a'] [['a']], d') ∧
    d'.kernel.table.lookup 1 = some (.target 0 ['f']) ∧ d'.content ['f'] = some [120, 121] ∧
    d'.off 0 = 0 := by
  have hfit : (kept (fun _ => none) false [['>'], ['f']]).length ≤ PROCESS_MAX_PARAMS := by decide
  have hout : twoBytes.kernel.table.lookup 1 ≠ none := by decide
  obtain ⟨d', hrun, hstdout, hcontent, hzero⟩ :=
    run_disk id .startProcess (fun _ => none) ['a'] hfit hout
  exact ⟨d', hrun, hstdout, hcontent ['f'], hzero (['f'], 0) rfl⟩

/-- With a program that writes one byte, the second one of the file is still there. -/
theorem old_content_shows :
    ∃ prog d', createProcessEx .startProcess (fun _ => none) 5 aToF = some prog ∧
      prog.run (Disk.sys id allOpen) twoBytes = (.execvp ['a'] [['a']], d') ∧
      (d'.writeAll id [[122]]).content ['f'] = some [122, 121] ∧
      ¬ ExactOutput id allOpen twoBytes d' [] ['f'] [[122]] := by
  obtain ⟨d', hrun, hstdout, hcontent, hzero⟩ := twoBytes_run
  have hfile : (d'.writeAll id [[122]]).content ['f'] = some [122, 121] := by
    rw [Disk.writeAll_content id hstdout hcontent hzero]
    rfl
  refine ⟨_, d', aToF_prog, hrun, hfile, fun h => ?_⟩
  exact absurd (hfile.symm.trans h.last) (by decide)

end EngineerLinux.StartProcess
