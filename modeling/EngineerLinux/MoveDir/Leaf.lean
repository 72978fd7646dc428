import EngineerLinux.MoveDir.Walk

/-!
# Renaming, linking and copying

What the two branches of `move_dir` for a file and for a link do once there is no entry in the way
at the destination, whichever calls fail: `rename` (lines 41 and 62), or else `readlink`, `symlink`
and `unlink` (43-45), or the copy (63-70).

Nothing but the two entries is touched, so all that has to be followed is what is at these two
places. For the copy this is `Copying`, the invariant of the loop of line 66: both files are at the
same offset, and what is before it has been copied. A file that cannot be opened makes the loop end
at once, with the copy empty or not there.

- `run_rename`, `run_rename_fails`: the fast way;
- `run_sendAll`, `run_copy`: the slow way of a file, by induction on what is left to send;
- `run_renameOrRelink`, `run_renameOrCopy`: the fast way or the slow way, with what of the entry is
  then in the source and in the destination.
-/

namespace EngineerLinux.MoveDir

open Files

/-- The same file or link is here, perhaps with other permissions. -/
def Holds (x : Option Entry) : Entry → Prop
  | .reg data _ => ∃ mode, x = some (.reg data mode)
  | e => x = some e

theorem holds_self (e : Entry) : Holds (some e) e := by
  cases e with
  | reg data mode => exact ⟨mode, rfl⟩
  | lnk | dir | other => rfl

theorem not_holds_none (e : Entry) : ¬ Holds none e := by
  cases e with
  | reg data mode =>
    rintro ⟨_, h⟩
    cases h
  | lnk | dir | other => nofun

namespace Move

variable (mv : Move)

/-! ## What it takes -/

/-- `rename` does it. -/
def Renamed (p : List Text) : Prop :=
  mv.tree.isDir mv.dst = true ∧ mv.env.fails (.rename (mv.srcPath p) (mv.dstPath p)) = false

/-- The link can be made again, with the target it had: `readlink` and `symlink` succeed, and the
target fits into the buffer with a 0 behind it, or what happens to be behind the buffer is the rest
of it. -/
def Relinked (p : List Text) (target : Text) : Prop :=
  mv.tree.isDir mv.dst = true ∧ mv.env.fails (.symlink (mv.dstPath p)) = false ∧
    mv.env.fails (.readlink (mv.srcPath p)) = false ∧
    (target.length < 128 ∨ mv.env.tail (mv.srcPath p) = target.drop 128)

/-- The file can be copied: the copy can be made and, unless the file is empty, the file can be read
and all pieces of it sent. -/
def Copied (p : List Text) (data : List UInt8) : Prop :=
  mv.tree.isDir mv.dst = true ∧ mv.env.fails (.openCreat (mv.dstPath p)) = false ∧
    (data = [] ∨ mv.env.fails (.openRead (mv.srcPath p)) = false ∧
      ∀ k, k * 0x8000 < data.length → mv.env.fails (.sendfile (mv.srcPath p) (k * 0x8000)) = false)

variable {mv} {s s' : State} {a p : List Text} {n : Text} {e : Entry}

theorem AtLeaf.isName (h : mv.AtLeaf s a n e) : IsName n :=
  s.tree.names n (mv.srcLoc a) (by rw [← srcLoc_snoc, h.entry]; exact Option.some_ne_none _)

theorem AtLeaf.not_dir (h : mv.AtLeaf s a n e) : s.tree.isDir (mv.srcLoc (a ++ [n])) = false :=
  isDir_of_leaf h.entry h.leaf

theorem AtLeaf.resolve_src (h : mv.AtLeaf s a n e) :
    s.tree.resolve mv.env.cwd false (mv.srcPath (a ++ [n])) = .entry (mv.srcLoc (a ++ [n])) :=
  Move.resolve_src h.same h.entry (.inl rfl)

/-- Only `dst` itself can be missing. -/
theorem AtLeaf.eq_nil (h : mv.AtLeaf s a n e) (hdst : mv.tree.isDir mv.dst = false) : a = [] := by
  by_contra hne
  rw [h.inside hne] at hdst
  cases hdst

/-- Where there is no entry, the lookup says so. -/
theorem AtLeaf.resolve_dst (h : mv.AtLeaf s a n e) (follow : Bool)
    (hnone : s.tree.entry (mv.dstLoc (a ++ [n])) = none) :
    s.tree.resolve mv.env.cwd follow (mv.dstPath (a ++ [n])) =
      if mv.tree.isDir mv.dst = true then .absent (mv.dstLoc a) n else .fail := by
  split
  · next hdst => exact resolve_dst_absent h.same (h.dst_dir.trans hdst) h.isName hnone
  · next hdst =>
    rw [Bool.not_eq_true] at hdst
    have ha := h.eq_nil hdst
    subst ha
    exact resolve_dst_fail h.same (h.dst_dir.trans hdst) h.isName

/-- A state that differs only at the two entries is at the same place. -/
theorem AtLeaf.of_frame (h : mv.AtLeaf s a n e)
    (hframe : ∀ l, l ≠ mv.dstLoc (a ++ [n]) → s'.tree.entry l = s.tree.entry l) :
    mv.AtLeaf s' a n e where
  same l hs hd := by
    rw [hframe l]
    · exact h.same l hs hd
    · rintro rfl
      exact hd (inside_below mv.dst (by simp))
  dst_dir := by
    refine (Tree.isDir_congr (hframe _ ?_)).trans h.dst_dir
    rw [dstLoc_snoc]
    exact (List.cons_ne_self _ _).symm
  inside := h.inside
  entry := (hframe _ src_ne_dst).trans h.entry
  leaf := h.leaf

/-! ## The fast way -/

/-- `rename` takes the entry to where there is none, or a file or link. -/
theorem run_rename (h : mv.AtLeaf s a n e) (hren : mv.Renamed (a ++ [n]))
    (hfree : s.tree.entry (mv.dstLoc (a ++ [n])) = none ∨
      ∃ e', s.tree.entry (mv.dstLoc (a ++ [n])) = some e' ∧
        s.tree.isDir (mv.dstLoc (a ++ [n])) = false) :
    ∃ s', s.rename mv.env (mv.srcPath (a ++ [n])) (mv.dstPath (a ++ [n])) = (0, s') ∧
      s'.tree.entry = Function.update (Function.update s.tree.entry (mv.dstLoc (a ++ [n])) (some e))
        (mv.srcLoc (a ++ [n])) none := by
  have hdir := h.dst_dir.trans hren.1
  have hnot : s.tree.isDir (n :: mv.dstLoc a) = false := by
    rw [← dstLoc_snoc]
    rcases hfree with hnone | ⟨_, _, hnot⟩
    · exact Tree.isDir_of_none hnone
    · exact hnot
  obtain ⟨t', ht', hupdate⟩ := Tree.rename_eq h.entry h.not_dir hdir h.isName hnot
    (by rw [← dstLoc_snoc]; exact Ne.symm src_ne_dst)
  rw [← dstLoc_snoc] at hupdate
  unfold State.rename
  rw [hren.2, if_neg Bool.false_ne_true, h.resolve_src]
  rcases hfree with hnone | ⟨e', he', _⟩
  · rw [h.resolve_dst false hnone, if_pos hren.1]
    simp only [ht', State.apply]
    exact ⟨_, rfl, hupdate⟩
  · rw [Move.resolve_dst h.same he' (.inl rfl), dstLoc_snoc]
    simp only [ht', State.apply]
    rw [← dstLoc_snoc]
    exact ⟨_, rfl, hupdate⟩

/-- Else it fails where there is no entry, and does nothing. -/
theorem run_rename_fails (h : mv.AtLeaf s a n e) (hren : ¬ mv.Renamed (a ++ [n]))
    (hnone : s.tree.entry (mv.dstLoc (a ++ [n])) = none) :
    s.rename mv.env (mv.srcPath (a ++ [n])) (mv.dstPath (a ++ [n])) = (-1, s) := by
  unfold State.rename
  split
  · rfl
  · next hfails =>
    rw [Bool.not_eq_true] at hfails
    have hdst : ¬ mv.tree.isDir mv.dst = true := fun hdst => hren ⟨hdst, hfails⟩
    rw [h.resolve_src, h.resolve_dst false hnone, if_neg hdst]

/-- The source entry is removed, unless `unlink` fails. -/
theorem run_unlink_src (h : mv.AtLeaf s a n e) :
    ∃ r s', s.unlink mv.env (mv.srcPath (a ++ [n])) = (r, s') ∧
      (∀ l, l ≠ mv.srcLoc (a ++ [n]) → s'.tree.entry l = s.tree.entry l) ∧
      s'.tree.entry (mv.srcLoc (a ++ [n])) =
        if mv.env.fails (.unlink (mv.srcPath (a ++ [n]))) = true then some e else none := by
  unfold State.unlink
  split
  · exact ⟨_, _, rfl, fun _ _ => rfl, h.entry⟩
  · obtain ⟨t', ht', hupdate⟩ := Tree.unlink_eq h.entry h.not_dir
    rw [h.resolve_src]
    simp only [ht', State.apply]
    refine ⟨_, _, rfl, ?_, ?_⟩
    · intro l hl
      show t'.entry l = _
      rw [hupdate, Function.update_of_ne hl]
    · show t'.entry _ = _
      rw [hupdate, Function.update_self]

/-! ## Making a link again -/

/-- What the buffer holds is the target exactly if it was read and nothing is cut off. -/
theorem readlink_eq_iff {target : Text} (h : mv.AtLeaf s a n (.lnk target)) :
    s.readlink mv.env (mv.srcPath (a ++ [n])) 128 = target ↔
      mv.env.fails (.readlink (mv.srcPath (a ++ [n]))) = false ∧
        (target.length < 128 ∨ mv.env.tail (mv.srcPath (a ++ [n])) = target.drop 128) := by
  have htarget : target ≠ [] := by
    rintro rfl
    exact s.tree.targets _ h.entry
  unfold State.readlink
  split
  · next hfails =>
    rw [hfails]
    exact iff_of_false (Ne.symm htarget) (fun hr => Bool.false_ne_true hr.1.symm)
  · next hfails =>
    rw [Bool.not_eq_true] at hfails
    simp only [h.resolve_src, h.entry]
    split
    · next hlen => exact iff_of_true rfl ⟨hfails, .inl hlen⟩
    · next hlen =>
      constructor
      · intro heq
        refine ⟨hfails, .inr ?_⟩
        exact List.append_cancel_left (heq.trans (List.take_append_drop 128 target).symm)
      · rintro ⟨-, hlt | htail⟩
        · exact absurd hlt hlen
        · rw [htail, List.take_append_drop]

/-- `symlink` makes a link where there is none, with the target it is given. -/
theorem run_symlink (h : mv.AtLeaf s a n e) (hnone : s.tree.entry (mv.dstLoc (a ++ [n])) = none)
    (target : Text) :
    ∃ r s', s.symlink mv.env target (mv.dstPath (a ++ [n])) = (r, s') ∧
      (∀ l, l ≠ mv.dstLoc (a ++ [n]) → s'.tree.entry l = s.tree.entry l) ∧
      s'.tree.entry (mv.dstLoc (a ++ [n])) =
        if mv.tree.isDir mv.dst = true ∧ mv.env.fails (.symlink (mv.dstPath (a ++ [n]))) = false ∧
          target ≠ [] then some (.lnk target) else none := by
  unfold State.symlink
  split
  · next hfails =>
    rw [if_neg fun hc => by rw [hfails] at hc; cases hc.2.1]
    exact ⟨_, _, rfl, fun _ _ => rfl, hnone⟩
  · next hfails =>
    rw [Bool.not_eq_true] at hfails
    rw [h.resolve_dst false hnone]
    by_cases hdst : mv.tree.isDir mv.dst = true
    · rw [if_pos hdst]
      by_cases htarget : target = []
      · rw [if_neg fun hc => hc.2.2 htarget]
        simp only [Tree.create_eq_none (.inr (.inr (congrArg Entry.lnk htarget))), State.apply]
        exact ⟨_, _, rfl, fun _ _ => rfl, hnone⟩
      · obtain ⟨t', ht', hupdate⟩ := Tree.create_eq (e := .lnk target) (h.dst_dir.trans hdst)
          h.isName (by rw [← dstLoc_snoc]; exact hnone) (fun heq => htarget (Entry.lnk.inj heq))
        rw [← dstLoc_snoc] at hupdate
        rw [if_pos ⟨hdst, hfails, htarget⟩]
        simp only [ht', State.apply]
        refine ⟨_, _, rfl, ?_, ?_⟩
        · intro l hl
          show t'.entry l = _
          rw [hupdate, Function.update_of_ne hl]
        · show t'.entry _ = _
          rw [hupdate, Function.update_self]
    · rw [if_neg hdst, if_neg fun hc => hdst hc.1]
      exact ⟨_, _, rfl, fun _ _ => rfl, hnone⟩

variable (mv) in
/-- What is left of an entry at its two places: moved by `rename`; or else still in the source
unless it could be removed, and in the destination exactly if it could be made again there. -/
structure Outcome (p : List Text) (e : Entry) (made : Prop) (src dst : Option Entry) : Prop where
  renamed : mv.Renamed p → src = none ∧ dst = some e
  src_eq : ¬ mv.Renamed p →
    src = if mv.env.fails (.unlink (mv.srcPath p)) = true then some e else none
  dst_iff : ¬ mv.Renamed p → (Holds dst e ↔ made)

/-- The fast way, in terms of the outcome. -/
theorem Outcome.of_rename (made : Prop) (h : mv.Renamed p)
    (hupdate : s'.tree.entry = Function.update (Function.update s.tree.entry (mv.dstLoc p) (some e))
      (mv.srcLoc p) none) :
    (∀ l, l ≠ mv.srcLoc p → l ≠ mv.dstLoc p → s'.tree.entry l = s.tree.entry l) ∧
      mv.Outcome p e made (s'.tree.entry (mv.srcLoc p)) (s'.tree.entry (mv.dstLoc p)) := by
  rw [hupdate]
  refine ⟨?_, fun _ => ⟨?_, ?_⟩, fun hn => absurd h hn, fun hn => absurd h hn⟩
  · intro l hs hd
    rw [Function.update_of_ne hs, Function.update_of_ne hd]
  · rw [Function.update_self]
  · rw [Function.update_of_ne (Ne.symm src_ne_dst), Function.update_self]

/-- **Links without an entry in the way**: renamed, or removed after an attempt to make them
again. -/
theorem run_renameOrRelink {target : Text} (h : mv.AtLeaf s a n (.lnk target))
    (hnone : s.tree.entry (mv.dstLoc (a ++ [n])) = none) :
    ∃ s', (renameOrRelink (mv.srcPath (a ++ [n])) (mv.dstPath (a ++ [n]))).run
        (State.sys mv.env) s = (some (), s') ∧
      (∀ l, l ≠ mv.srcLoc (a ++ [n]) → l ≠ mv.dstLoc (a ++ [n]) →
        s'.tree.entry l = s.tree.entry l) ∧
      mv.Outcome (a ++ [n]) (.lnk target) (mv.Relinked (a ++ [n]) target)
        (s'.tree.entry (mv.srcLoc (a ++ [n]))) (s'.tree.entry (mv.dstLoc (a ++ [n]))) := by
  unfold renameOrRelink
  by_cases hren : mv.Renamed (a ++ [n])
  · obtain ⟨s', hrun, hupdate⟩ := run_rename h hren (.inl hnone)
    refine ⟨s', ?_, Outcome.of_rename _ hren hupdate⟩
    simp only [Prog.run_call, State.sys, hrun, ne_eq, not_true_eq_false, if_false, Prog.run_ret]
  · have hrun := run_rename_fails h hren hnone
    generalize hlink : s.readlink mv.env (mv.srcPath (a ++ [n])) 128 = linkPath
    obtain ⟨r₁, s₁, hsymlink, hframe₁, hdst₁⟩ := run_symlink h hnone linkPath
    obtain ⟨r₂, s₂, hunlink, hframe₂, hsrc₂⟩ := run_unlink_src (h.of_frame hframe₁)
    refine ⟨s₂, ?_, ?_, fun hyes => absurd hyes hren, fun _ => hsrc₂, fun _ => ?_⟩
    · have hneg : (-1 : Int) ≠ 0 := by decide
      simp only [Prog.run_call, State.sys, hrun, if_pos hneg, hlink, hsymlink, hunlink,
        Prog.run_ret]
    · intro l hs hd
      rw [hframe₂ l hs, hframe₁ l hd]
    · have htarget : target ≠ [] := by
        rintro rfl
        exact s.tree.targets _ h.entry
      have hread := readlink_eq_iff h
      rw [hlink] at hread
      rw [hframe₂ _ (Ne.symm src_ne_dst), hdst₁]
      constructor
      · intro hholds
        split at hholds
        · next hc =>
          cases hholds
          exact ⟨hc.1, hc.2.1, hread.mp rfl⟩
        · cases hholds
      · rintro ⟨hdst, hfails, hbuffer⟩
        rw [hread.mpr hbuffer, if_pos ⟨hdst, hfails, htarget⟩]
        rfl

/-! ## Copying a file -/

/-- Without two open files nothing is sent. -/
theorem run_sendAll_closed {env : Env} {dstFd srcFd : Int} (fuel : Nat)
    (h : s.file dstFd = none ∨ s.file srcFd = none) :
    (sendAll dstFd srcFd (fuel + 1)).run (State.sys env) s = (some (), s) := by
  have hsend : s.sendfile env dstFd srcFd 0x8000 = (-1, s) := by
    unfold State.sendfile
    rcases h with h | h
    · rw [h]
    · rw [h]
      cases s.file dstFd <;> rfl
  have hneg : ¬ (-1 : Int) > 0 := by decide
  simp only [sendAll, Prog.run_call, State.sys, hsend, if_neg hneg, Prog.run_ret]

section

variable {env : Env} {dstFd srcFd : Int} {path dpath : Text} {ls ld : Loc} {data : List UInt8}
  {mode mode' off : Nat}

/-- The descriptors of a copy under way: both files are at the same offset, and what is before it
has been copied. -/
structure Copying (s : State) (dstFd srcFd : Int) (path dpath : Text) (ls ld : Loc)
    (data : List UInt8) (mode mode' off : Nat) : Prop where
  dst : s.file dstFd = some ⟨dpath, ld, off⟩
  src : s.file srcFd = some ⟨path, ls, off⟩
  orig : s.tree.entry ls = some (.reg data mode)
  copy : s.tree.entry ld = some (.reg (data.take off) mode')
  le : off ≤ data.length

theorem file_update (t : Tree) (fds : Nat → Option OpenFile) (next : Nat) (fd fd' : Int)
    (f : OpenFile) (hfd : 0 ≤ fd') :
    State.file ⟨t, Function.update fds fd'.toNat (some f), next⟩ fd =
      if fd = fd' then some f else State.file ⟨t, fds, next⟩ fd := by
  unfold State.file
  by_cases h : 0 ≤ fd
  · rw [if_pos h, if_pos h]
    by_cases heq : fd = fd'
    · rw [if_pos heq, heq]
      exact Function.update_self ..
    · rw [if_neg heq]
      exact Function.update_of_ne (by omega) ..
  · rw [if_neg h, if_neg h, if_neg (by omega)]

/-- One piece is sent. -/
theorem run_sendfile (hne : ls ≠ ld) (hfd : dstFd ≠ srcFd)
    (h : Copying s dstFd srcFd path dpath ls ld data mode mode' off)
    (hfails : env.fails (.sendfile path off) = false) :
    ∃ s', s.sendfile env dstFd srcFd 0x8000 =
        (((min 0x8000 (data.length - off) : Nat) : Int), s') ∧
      (∀ l, l ≠ ld → s'.tree.entry l = s.tree.entry l) ∧
      Copying s' dstFd srcFd path dpath ls ld data mode mode'
        (off + min 0x8000 (data.length - off)) := by
  have hlen : ((data.drop off).take 0x8000).length = min 0x8000 (data.length - off) := by
    rw [List.length_take, List.length_drop]
  obtain ⟨t', ht', hupdate⟩ := Tree.write_eq h.copy off ((data.drop off).take 0x8000)
  -- the piece is put behind what has been copied
  have hcopy : (data.take off).take off ++ (data.drop off).take 0x8000 ++
      (data.take off).drop (off + ((data.drop off).take 0x8000).length) =
      data.take (off + min 0x8000 (data.length - off)) := by
    have hrest : (data.take off).drop (off + ((data.drop off).take 0x8000).length) = [] := by
      refine List.drop_eq_nil_of_le ?_
      rw [List.length_take]
      omega
    rw [List.take_take, Nat.min_self, hrest, List.append_nil, ← List.take_add,
      List.take_eq_take_iff]
    omega
  rw [hcopy] at hupdate
  have hle := h.le
  have hdst : 0 ≤ dstFd := by
    by_contra hneg
    have := h.dst
    rw [State.file, if_neg hneg] at this
    cases this
  have hsrc : 0 ≤ srcFd := by
    by_contra hneg
    have := h.src
    rw [State.file, if_neg hneg] at this
    cases this
  unfold State.sendfile
  simp only [h.dst, h.src, hfails, Bool.false_eq_true, if_false, h.orig, ht', hlen]
  refine ⟨_, rfl, ?_, ?_, ?_, ?_, ?_, ?_⟩
  · intro l hl
    show t'.entry l = _
    rw [hupdate, Function.update_of_ne hl]
  · rw [file_update _ _ _ _ _ _ hsrc, if_neg hfd, file_update _ _ _ _ _ _ hdst, if_pos rfl]
  · rw [file_update _ _ _ _ _ _ hsrc, if_pos rfl]
  · show t'.entry ls = _
    rw [hupdate, Function.update_of_ne hne, h.orig]
  · show t'.entry ld = _
    rw [hupdate, Function.update_self]
  · omega

variable (env) in
/-- **The copying loop**: it ends, and the copy is complete exactly if no piece failed. -/
theorem run_sendAll (hne : ls ≠ ld) (hfd : dstFd ≠ srcFd) (fuel : Nat)
    (h : Copying s dstFd srcFd path dpath ls ld data mode mode' off)
    (hfuel : data.length - off < fuel) :
    ∃ s' m, (sendAll dstFd srcFd fuel).run (State.sys env) s = (some (), s') ∧
      (∀ l, l ≠ ld → s'.tree.entry l = s.tree.entry l) ∧
      s'.tree.entry ld = some (.reg (data.take m) mode') ∧ m ≤ data.length ∧
      (m = data.length ↔ ∀ k, off + k * 0x8000 < data.length →
        env.fails (.sendfile path (off + k * 0x8000)) = false) := by
  induction fuel generalizing s off with
  | zero => omega
  | succ fuel ih =>
    have hle := h.le
    cases hfails : env.fails (.sendfile path off) with
    | true =>
      have hsend : s.sendfile env dstFd srcFd 0x8000 = (-1, s) := by
        unfold State.sendfile
        simp only [h.dst, h.src, hfails, if_true]
      refine ⟨s, off, ?_, fun _ _ => rfl, h.copy, hle, ?_⟩
      · have hneg : ¬ (-1 : Int) > 0 := by decide
        simp only [sendAll, Prog.run_call, State.sys, hsend, if_neg hneg, Prog.run_ret]
      · -- a failure at the end of the file does no harm
        constructor
        · intro heq k hk
          omega
        · intro hall
          by_contra hlt
          have h0 := hall 0 (by omega)
          rw [Nat.zero_mul, Nat.add_zero, hfails] at h0
          cases h0
    | false =>
      obtain ⟨s₁, hsend, hframe₁, hcopying⟩ := run_sendfile hne hfd h hfails
      by_cases hend : off = data.length
      · refine ⟨s₁, off, ?_, hframe₁, ?_, hle, iff_of_true hend fun k hk => by omega⟩
        · have hstop : ¬ ((min 0x8000 (data.length - off) : Nat) : Int) > 0 := by omega
          simp only [sendAll, Prog.run_call, State.sys, hsend, if_neg hstop, Prog.run_ret]
        · have hcopy := hcopying.copy
          rwa [hend, Nat.sub_self, Nat.min_zero, Nat.add_zero, ← hend] at hcopy
      · obtain ⟨s', m, hrun, hframe, hcopy, hm, hiff⟩ := ih hcopying (by omega)
        refine ⟨s', m, ?_, ?_, hcopy, hm, hiff.trans ?_⟩
        · have hgo : ((min 0x8000 (data.length - off) : Nat) : Int) > 0 := by omega
          simp only [sendAll, Prog.run_call, State.sys, hsend, if_pos hgo]
          exact hrun
        · intro l hl
          rw [hframe l hl, hframe₁ l hl]
        · -- the first piece did not fail; the others are those after it
          constructor
          · intro hall k hk
            cases k with
            | zero => rwa [Nat.zero_mul, Nat.add_zero]
            | succ k =>
              have hk' := hall k (by omega)
              rwa [show off + min 0x8000 (data.length - off) + k * 0x8000 =
                off + (k + 1) * 0x8000 by omega] at hk'
          · intro hall k hk
            have hk' := hall (k + 1) (by omega)
            rwa [show off + (k + 1) * 0x8000 =
              off + min 0x8000 (data.length - off) + k * 0x8000 by omega] at hk'

end

variable {data : List UInt8} {mode : Nat}

theorem run_openRead (h : mv.AtLeaf s a n (.reg data mode)) :
    s.openRead mv.env (mv.srcPath (a ++ [n])) =
      if mv.env.fails (.openRead (mv.srcPath (a ++ [n]))) = true then (-1, s)
      else s.opened (mv.srcPath (a ++ [n])) (mv.srcLoc (a ++ [n])) := by
  unfold State.openRead
  rw [Move.resolve_src h.same h.entry (.inr nofun)]
  simp only [State.openAt, h.entry]

/-- The new descriptor is that of the file. -/
theorem file_opened (path : Text) (l : Loc) (fd : Int) :
    (s.opened path l).2.file fd = if fd = s.next then some ⟨path, l, 0⟩ else s.file fd :=
  file_update s.tree s.fds (s.next + 1) fd s.next ⟨path, l, 0⟩ (Int.natCast_nonneg _)

theorem file_neg : s.file (-1) = none := rfl

/-- The copy is made empty, if it can be. -/
theorem run_openCreat (h : mv.AtLeaf s a n e)
    (hnone : s.tree.entry (mv.dstLoc (a ++ [n])) = none) :
    (¬ (mv.tree.isDir mv.dst = true ∧ mv.env.fails (.openCreat (mv.dstPath (a ++ [n]))) = false) ∧
      s.openCreat mv.env (mv.dstPath (a ++ [n])) 511 = (-1, s)) ∨
    (mv.tree.isDir mv.dst = true ∧ mv.env.fails (.openCreat (mv.dstPath (a ++ [n]))) = false) ∧
      ∃ (s' : State) (mode : Nat),
        s.openCreat mv.env (mv.dstPath (a ++ [n])) 511 = ((s.next : Int), s') ∧
        s'.tree.entry =
          Function.update s.tree.entry (mv.dstLoc (a ++ [n])) (some (.reg [] mode)) ∧
        ∀ fd, s'.file fd =
          if fd = s.next then some ⟨mv.dstPath (a ++ [n]), mv.dstLoc (a ++ [n]), 0⟩
          else s.file fd := by
  unfold State.openCreat
  split
  · next hfails => exact .inl ⟨fun hc => by rw [hfails] at hc; exact absurd hc.2 nofun, rfl⟩
  · next hfails =>
    rw [Bool.not_eq_true] at hfails
    rw [h.resolve_dst true hnone]
    by_cases hdst : mv.tree.isDir mv.dst = true
    · obtain ⟨t', ht', hupdate⟩ := Tree.create_eq (e := .reg [] (mv.env.masked 511))
        (h.dst_dir.trans hdst) h.isName (by rw [← dstLoc_snoc]; exact hnone) nofun
      rw [← dstLoc_snoc] at hupdate
      rw [if_pos hdst, dstLoc_snoc]
      simp only [ht']
      rw [← dstLoc_snoc]
      exact .inr ⟨⟨hdst, hfails⟩, _, _, rfl, hupdate, fun fd => file_opened ..⟩
    · rw [if_neg hdst]
      exact .inl ⟨fun hc => hdst hc.1, rfl⟩

/-- **Opening, creating and sending**: the copy is what it should be exactly if nothing failed. -/
theorem run_copy (h : mv.AtLeaf s a n (.reg data mode))
    (hnone : s.tree.entry (mv.dstLoc (a ++ [n])) = none) :
    ∃ srcFd s₁ dstFd s₂ s₃, s.openRead mv.env (mv.srcPath (a ++ [n])) = (srcFd, s₁) ∧
      s₁.openCreat mv.env (mv.dstPath (a ++ [n])) 511 = (dstFd, s₂) ∧
      (sendAll dstFd srcFd (data.length + 1)).run (State.sys mv.env) s₂ = (some (), s₃) ∧
      (∀ l, l ≠ mv.dstLoc (a ++ [n]) → s₃.tree.entry l = s.tree.entry l) ∧
      (s₃.tree.entry (mv.dstLoc (a ++ [n])) = none ∨
        ∃ data' mode', s₃.tree.entry (mv.dstLoc (a ++ [n])) = some (.reg data' mode')) ∧
      (Holds (s₃.tree.entry (mv.dstLoc (a ++ [n]))) (.reg data mode) ↔
        mv.Copied (a ++ [n]) data) := by
  obtain ⟨srcFd, s₁, hread, htree₁, hsrcFd⟩ : ∃ srcFd s₁,
      s.openRead mv.env (mv.srcPath (a ++ [n])) = (srcFd, s₁) ∧ s₁.tree = s.tree ∧
      (mv.env.fails (.openRead (mv.srcPath (a ++ [n]))) = true ∧ srcFd = -1 ∨
        mv.env.fails (.openRead (mv.srcPath (a ++ [n]))) = false ∧ srcFd < s₁.next ∧
          s₁.file srcFd = some ⟨mv.srcPath (a ++ [n]), mv.srcLoc (a ++ [n]), 0⟩) := by
    rw [run_openRead h]
    cases mv.env.fails (.openRead (mv.srcPath (a ++ [n]))) with
    | true => exact ⟨_, _, rfl, rfl, .inl ⟨rfl, rfl⟩⟩
    | false =>
      refine ⟨_, _, rfl, rfl, .inr ⟨rfl, ?_, ?_⟩⟩
      · show (s.next : Int) < ((s.next + 1 : Nat) : Int)
        omega
      · exact (file_opened ..).trans (if_pos rfl)
  have h₁ : mv.AtLeaf s₁ a n (.reg data mode) := h.of_frame fun _ _ => by rw [htree₁]
  have hnone₁ : s₁.tree.entry (mv.dstLoc (a ++ [n])) = none := by rw [htree₁, hnone]
  rcases run_openCreat h₁ hnone₁ with ⟨hnot, hcreat⟩ | ⟨hcan, s₂, mode', hcreat, hupdate, hfile₂⟩
  · -- no copy is made
    refine ⟨srcFd, s₁, -1, s₁, s₁, hread, hcreat, run_sendAll_closed _ (.inl file_neg), ?_,
      .inl hnone₁, ?_⟩
    · exact fun _ _ => by rw [htree₁]
    · rw [hnone₁]
      refine iff_of_false ?_ fun hc => hnot ⟨hc.1, hc.2.1⟩
      rintro ⟨_, hm⟩
      cases hm
  · rw [htree₁] at hupdate
    rcases hsrcFd with ⟨hfails, rfl⟩ | ⟨hopen, hlt, hfile⟩
    · -- nothing is sent
      have hclosed : s₂.file (-1) = none := file_neg
      refine ⟨-1, s₁, _, s₂, s₂, hread, hcreat, run_sendAll_closed _ (.inr hclosed), ?_, ?_, ?_⟩
      · intro l hl
        rw [hupdate, Function.update_of_ne hl]
      · exact .inr ⟨[], mode', by rw [hupdate, Function.update_self]⟩
      · rw [hupdate, Function.update_self]
        constructor
        · rintro ⟨_, hm⟩
          cases hm
          exact ⟨hcan.1, hcan.2, .inl rfl⟩
        · rintro ⟨-, -, rfl | hc⟩
          · exact ⟨mode', rfl⟩
          · rw [hfails] at hc
            exact absurd hc.1 nofun
    · have hcopying : Copying s₂ s₁.next srcFd (mv.srcPath (a ++ [n])) (mv.dstPath (a ++ [n]))
          (mv.srcLoc (a ++ [n])) (mv.dstLoc (a ++ [n])) data mode mode' 0 := by
        refine ⟨?_, ?_, ?_, ?_, Nat.zero_le _⟩
        · rw [hfile₂, if_pos rfl]
        · rw [hfile₂, if_neg (Int.ne_of_lt hlt), hfile]
        · rw [hupdate, Function.update_of_ne src_ne_dst, h.entry]
        · rw [hupdate, Function.update_self, List.take_zero]
      obtain ⟨s₃, m, hrun, hframe, hcopy, hm, hiff⟩ := run_sendAll mv.env src_ne_dst
        (Ne.symm (Int.ne_of_lt hlt)) (data.length + 1) hcopying (by omega)
      refine ⟨srcFd, s₁, _, s₂, s₃, hread, hcreat, hrun, ?_, .inr ⟨_, _, hcopy⟩, ?_⟩
      · intro l hl
        rw [hframe l hl, hupdate, Function.update_of_ne hl]
      · simp only [Nat.zero_add] at hiff
        have htake : Holds (s₃.tree.entry (mv.dstLoc (a ++ [n]))) (.reg data mode) ↔
            m = data.length := by
          rw [hcopy]
          constructor
          · rintro ⟨_, heq⟩
            have hlen := congrArg List.length (Entry.reg.inj (Option.some.inj heq)).1
            rw [List.length_take] at hlen
            omega
          · rintro rfl
            exact ⟨mode', by rw [List.take_length]⟩
        rw [htake, hiff]
        constructor
        · exact fun hall => ⟨hcan.1, hcan.2, .inr ⟨hopen, hall⟩⟩
        · rintro ⟨-, -, rfl | hc⟩
          · exact fun k hk => absurd hk (Nat.not_lt_zero _)
          · exact hc.2

theorem run_close (s : State) (fd : Int) : ∃ r s', s.close fd = (r, s') ∧ s'.tree = s.tree := by
  unfold State.close
  split
  · exact ⟨_, _, rfl, rfl⟩
  · exact ⟨_, _, rfl, rfl⟩

/-- `chmod` of the copy changes nothing but its permissions, to those of the file. -/
theorem run_chmod (h : mv.AtLeaf s a n (.reg data mode))
    (hcopy : s.tree.entry (mv.dstLoc (a ++ [n])) = none ∨
      ∃ data' mode', s.tree.entry (mv.dstLoc (a ++ [n])) = some (.reg data' mode')) :
    ∃ r s', s.chmod mv.env (mv.dstPath (a ++ [n])) mode = (r, s') ∧
      (∀ l, l ≠ mv.dstLoc (a ++ [n]) → s'.tree.entry l = s.tree.entry l) ∧
      (Holds (s'.tree.entry (mv.dstLoc (a ++ [n]))) (.reg data mode) ↔
        Holds (s.tree.entry (mv.dstLoc (a ++ [n]))) (.reg data mode)) ∧
      (mv.env.fails (.chmod (mv.dstPath (a ++ [n]))) = false → ∀ data' mode',
        s'.tree.entry (mv.dstLoc (a ++ [n])) = some (.reg data' mode') → mode' = mode) := by
  unfold State.chmod
  split
  · next hfails =>
    refine ⟨_, _, rfl, fun _ _ => rfl, Iff.rfl, fun hnot => ?_⟩
    rw [hfails] at hnot
    cases hnot
  · rcases hcopy with hnone | ⟨data', mode', hreg⟩
    · have hnot : ∀ data' mode', s.tree.entry (mv.dstLoc (a ++ [n])) = some (.reg data' mode') →
          mode' = mode := by
        intro data' mode' heq
        rw [hnone] at heq
        cases heq
      rw [h.resolve_dst true hnone]
      by_cases hdst : mv.tree.isDir mv.dst = true
      · rw [if_pos hdst]
        exact ⟨_, _, rfl, fun _ _ => rfl, Iff.rfl, fun _ => hnot⟩
      · rw [if_neg hdst]
        exact ⟨_, _, rfl, fun _ _ => rfl, Iff.rfl, fun _ => hnot⟩
    · rw [Move.resolve_dst h.same hreg (.inr nofun)]
      obtain ⟨t', ht', hupdate⟩ := Tree.chmod_eq hreg mode
      simp only [ht', State.apply]
      refine ⟨_, _, rfl, ?_, ?_, ?_⟩
      · intro l hl
        show t'.entry l = _
        rw [hupdate, Function.update_of_ne hl]
      · show Holds (t'.entry _) _ ↔ _
        rw [hupdate, Function.update_self, hreg]
        constructor
        · rintro ⟨_, heq⟩
          cases heq
          exact ⟨mode', rfl⟩
        · rintro ⟨_, heq⟩
          cases heq
          exact ⟨mode, rfl⟩
      · intro _ data'' mode'' heq
        rw [show t'.entry _ = _ from hupdate ▸ Function.update_self ..] at heq
        cases heq
        rfl

/-- **Files without an entry in the way**: renamed, or removed after an attempt to copy them. Where
`chmod` does not fail, the copy has the permissions of the file. -/
theorem run_renameOrCopy (h : mv.AtLeaf s a n (.reg data mode))
    (hnone : s.tree.entry (mv.dstLoc (a ++ [n])) = none) :
    ∃ s', (renameOrCopy (mv.srcPath (a ++ [n])) (mv.dstPath (a ++ [n]))
        ⟨.reg, mode, data.length⟩).run (State.sys mv.env) s = (some (), s') ∧
      (∀ l, l ≠ mv.srcLoc (a ++ [n]) → l ≠ mv.dstLoc (a ++ [n]) →
        s'.tree.entry l = s.tree.entry l) ∧
      mv.Outcome (a ++ [n]) (.reg data mode) (mv.Copied (a ++ [n]) data)
        (s'.tree.entry (mv.srcLoc (a ++ [n]))) (s'.tree.entry (mv.dstLoc (a ++ [n]))) ∧
      (mv.env.fails (.chmod (mv.dstPath (a ++ [n]))) = false → ∀ data' mode',
        s'.tree.entry (mv.dstLoc (a ++ [n])) = some (.reg data' mode') → mode' = mode) := by
  unfold renameOrCopy
  by_cases hren : mv.Renamed (a ++ [n])
  · obtain ⟨s', hrun, hupdate⟩ := run_rename h hren (.inl hnone)
    obtain ⟨hframe, hout⟩ := Outcome.of_rename (mv.Copied (a ++ [n]) data) hren hupdate
    refine ⟨s', ?_, hframe, hout, fun _ data' mode' heq => ?_⟩
    · simp only [Prog.run_call, State.sys, hrun, ne_eq, not_true_eq_false, if_false, Prog.run_ret]
    · rw [(hout.renamed hren).2] at heq
      cases heq
      rfl
  · have hrun := run_rename_fails h hren hnone
    obtain ⟨srcFd, s₁, dstFd, s₂, s₃, hread, hcreat, hsend, hframe, hreg, hcopied⟩ :=
      run_copy h hnone
    obtain ⟨r₄, s₄, hclose₄, htree₄⟩ := run_close s₃ srcFd
    obtain ⟨r₅, s₅, hclose₅, htree₅⟩ := run_close s₄ dstFd
    have htree : s₅.tree = s₃.tree := htree₅.trans htree₄
    have h₅ : mv.AtLeaf s₅ a n (.reg data mode) := h.of_frame fun l hl => by
      rw [htree, hframe l hl]
    obtain ⟨r₆, s₆, hchmod, hframe₆, hiff₆, hmode⟩ := run_chmod h₅ (htree ▸ hreg)
    obtain ⟨r₇, s₇, hunlink, hframe₇, hsrc⟩ := run_unlink_src (h₅.of_frame hframe₆)
    refine ⟨s₇, ?_, ?_, ⟨fun hyes => absurd hyes hren, fun _ => hsrc, fun _ => ?_⟩, ?_⟩
    · have hneg : (-1 : Int) ≠ 0 := by decide
      simp only [Prog.run_call, State.sys, hrun, if_pos hneg, hread, hcreat, Prog.run_bind, hsend,
        hclose₄, hclose₅, hchmod, hunlink, Prog.run_ret]
    · intro l hs hd
      rw [hframe₇ l hs, hframe₆ l hd, htree, hframe l hd]
    · rw [hframe₇ _ (Ne.symm src_ne_dst), hiff₆, htree]
      exact hcopied
    · rw [hframe₇ _ (Ne.symm src_ne_dst)]
      exact hmode

end Move

end EngineerLinux.MoveDir
