import EngineerLinux.Lib.FilePath
import EngineerLinux.Lib.Prog

/-!
# The calls behind `move_dir`, and the files they act on

The calls of `move.c` with their arguments, and a kernel that answers them from a tree of files and
a table of open files. What is not determined by the tree is in `Env`: the order in which `readdir`
yields names, sizes of directories, what is in memory behind a buffer, and which calls fail without
a reason in the tree (`Fault`). The process is the only one that works on the tree.

Paths are resolved link by link, by the library's `resolve`. As on Linux, `lstat`, `rename`,
`unlink`, `symlink`, `mkdir`, `readlink` and `rmdir` do not follow a link at the end of a path, but
`access`, `stat`, `chmod`, `opendir` and `open` do. A call that changes the tree does so by one of
its operations, or not at all; the lemmas at the end say which (`unlink_cases` and so on).

`rename` of a directory and opening a device or a FIFO are not part of the model; both fail.
-/

namespace EngineerLinux.MoveDir

open Files

/-- The values of `errno` that are told apart. -/
inductive Errno where
  | EEXIST
  | ENOENT
  | EACCES
  deriving DecidableEq

inductive Kind where
  | reg
  | lnk
  | dir
  | other
  deriving DecidableEq

/-- The fields of `struct stat` that are looked at: `st_mode` (its type and its permissions) and
`st_size`. -/
structure Stat where
  kind : Kind
  mode : Nat
  st_size : Nat

/-- A `struct stat` set to 0. -/
def Stat.zero : Stat := ⟨.other, 0, 0⟩

inductive FileCall where
  /-- `opendir`, and all the names `readdir` then yields. -/
  | opendir (path : Text)
  | closedir (path : Text)
  | lstat (path : Text)
  | stat (path : Text)
  /-- `access(path, F_OK)`. -/
  | access (path : Text)
  | unlink (path : Text)
  | rename (oldpath newpath : Text)
  /-- `readlink(path, buf, size)` with a buffer of this size filled with 0. -/
  | readlink (path : Text) (size : Nat)
  | symlink (target linkpath : Text)
  | mkdir (path : Text) (mode : Nat)
  /-- `open(path, O_RDONLY)`. -/
  | openRead (path : Text)
  /-- `open(path, O_CREAT | O_WRONLY, mode)`. -/
  | openCreat (path : Text) (mode : Nat)
  /-- `sendfile(out, in, NULL, count)`. -/
  | sendfile (out_fd in_fd : Int) (count : Nat)
  | close (fd : Int)
  | chmod (path : Text) (mode : Nat)
  | rmdir (path : Text)

/-- The return value, or what a successful call stores for the caller: for `opendir` the names, for
`readlink` the C string in the buffer. -/
abbrev FileCall.Ans : FileCall → Type
  | .opendir _ => Option (List Text)
  | .closedir _ => Unit
  | .lstat _ | .stat _ => Option Stat
  | .readlink _ _ => Text
  | .mkdir _ _ => Int × Errno
  | _ => Int

abbrev FileSys : Sys := ⟨FileCall, FileCall.Ans⟩

/-! ## The kernel -/

/-- A call that may fail for a reason outside the tree. `sendfile` is told by the file it reads and
the offset. -/
inductive Fault where
  | rename (oldpath newpath : Text)
  | unlink (path : Text)
  | readlink (path : Text)
  | symlink (linkpath : Text)
  | mkdir (path : Text)
  | openRead (path : Text)
  | openCreat (path : Text)
  | sendfile (path : Text) (off : Nat)
  | chmod (path : Text)
  deriving DecidableEq

structure Env where
  cwd : Loc
  umask : Nat
  /-- The names that `readdir` yields for the directory opened under a path. -/
  readdir : Text → List Text
  /-- What follows the buffer of `readlink` in memory, up to the next 0. -/
  tail : Text → Text
  /-- `st_size` of a directory or a special file. -/
  size : Loc → Nat
  fails : Fault → Bool

/-- An open file; `off` is where the next byte is read or written. -/
structure OpenFile where
  path : Text
  loc : Loc
  off : Nat

structure State where
  tree : Tree
  fds : Nat → Option OpenFile
  /-- No descriptor from this one on has been given away. -/
  next : Nat

variable (env : Env)

/-- `mode & ~umask`. -/
def Env.masked (mode : Nat) : Nat := mode &&& (511 ^^^ env.umask)

/-- What `stat` says of an entry. -/
def Env.statOf (l : Loc) : Entry → Stat
  | .reg data mode => ⟨.reg, mode, data.length⟩
  | .lnk target => ⟨.lnk, 511, target.length⟩
  | .dir mode => ⟨.dir, mode, env.size l⟩
  | .other mode => ⟨.other, mode, env.size l⟩

namespace State

variable (s : State)

/-- The outcome of an operation on the tree. -/
def apply : Option Tree → Int × State
  | some tree => (0, { s with tree })
  | none => (-1, s)

/-- A new descriptor. -/
def opened (path : Text) (loc : Loc) : Int × State :=
  (s.next, { s with fds := Function.update s.fds s.next (some ⟨path, loc, 0⟩), next := s.next + 1 })

/-- The open file of a descriptor. -/
def file (fd : Int) : Option OpenFile := if 0 ≤ fd then s.fds fd.toNat else none

def stat (path : Text) (follow : Bool) : Option Stat :=
  match s.tree.resolve env.cwd follow path with
  | .entry l => (s.tree.entry l).map (env.statOf l)
  | _ => none

def rename (oldpath newpath : Text) : Int × State :=
  if env.fails (.rename oldpath newpath) then (-1, s)
  else
    match s.tree.resolve env.cwd false oldpath, s.tree.resolve env.cwd false newpath with
    | .entry l, .absent l' n => s.apply (s.tree.rename l l' n)
    | .entry l, .entry (n :: l') => s.apply (s.tree.rename l l' n)
    | _, _ => (-1, s)

def unlink (path : Text) : Int × State :=
  if env.fails (.unlink path) then (-1, s)
  else
    match s.tree.resolve env.cwd false path with
    | .entry l => s.apply (s.tree.unlink l)
    | _ => (-1, s)

/-- The link's target if it fits with a 0 behind it; else as much of it as fits, and what is in
memory after that. -/
def readlink (path : Text) (size : Nat) : Text :=
  if env.fails (.readlink path) then []
  else
    match s.tree.resolve env.cwd false path with
    | .entry l =>
      match s.tree.entry l with
      | some (.lnk target) =>
        if target.length < size then target else target.take size ++ env.tail path
      | _ => []
    | _ => []

def symlink (target linkpath : Text) : Int × State :=
  if env.fails (.symlink linkpath) then (-1, s)
  else
    match s.tree.resolve env.cwd false linkpath with
    | .absent l n => s.apply (s.tree.create l n (.lnk target))
    | _ => (-1, s)

def mkdir (path : Text) (mode : Nat) : (Int × Errno) × State :=
  if env.fails (.mkdir path) then ((-1, .EACCES), s)
  else
    match s.tree.resolve env.cwd false path with
    | .entry _ => ((-1, .EEXIST), s)
    | .absent l n =>
      match s.tree.create l n (.dir (env.masked mode)) with
      | some tree => ((0, .EACCES), { s with tree })
      | none => ((-1, .ENOENT), s)
    | .fail => ((-1, .ENOENT), s)

/-- A regular file opened under a path. -/
def openAt (path : Text) (l : Loc) : Int × State :=
  match s.tree.entry l with
  | some (.reg _ _) => s.opened path l
  | _ => (-1, s)

def openRead (path : Text) : Int × State :=
  if env.fails (.openRead path) then (-1, s)
  else
    match s.tree.resolve env.cwd true path with
    | .entry l => s.openAt path l
    | _ => (-1, s)

/-- Through a link that leads to nothing, the file is made where the link leads. -/
def openCreat (path : Text) (mode : Nat) : Int × State :=
  if env.fails (.openCreat path) then (-1, s)
  else
    match s.tree.resolve env.cwd true path with
    | .entry l => s.openAt path l
    | .absent l n =>
      match s.tree.create l n (.reg [] (env.masked mode)) with
      | some tree => { s with tree }.opened path (n :: l)
      | none => (-1, s)
    | .fail => (-1, s)

/-- As many bytes as there are, up to `count`, from the offset of the one file to that of the
other. -/
def sendfile (out_fd in_fd : Int) (count : Nat) : Int × State :=
  match s.file out_fd, s.file in_fd with
  | some o, some i =>
    if env.fails (.sendfile i.path i.off) then (-1, s)
    else
      match s.tree.entry i.loc with
      | some (.reg data _) =>
        let bytes := (data.drop i.off).take count
        match s.tree.write o.loc o.off bytes with
        | some tree =>
          (bytes.length, { s with
            tree
            fds := Function.update (Function.update s.fds out_fd.toNat
              (some { o with off := o.off + bytes.length })) in_fd.toNat
              (some { i with off := i.off + bytes.length }) })
        | none => (-1, s)
      | _ => (-1, s)
  | _, _ => (-1, s)

def close (fd : Int) : Int × State :=
  match s.file fd with
  | some _ => (0, { s with fds := Function.update s.fds fd.toNat none })
  | none => (-1, s)

def chmod (path : Text) (mode : Nat) : Int × State :=
  if env.fails (.chmod path) then (-1, s)
  else
    match s.tree.resolve env.cwd true path with
    | .entry l => s.apply (s.tree.chmod l mode)
    | _ => (-1, s)

/-- The path without the slashes at its end. -/
def stripSlashes (path : Text) : Text := (path.reverse.dropWhile (· = '/')).reverse

/-- The path has to end with a proper name. -/
def rmdir (path : Text) : Int × State :=
  match (split (stripSlashes path)).getLast? with
  | some n =>
    if IsName n then
      match s.tree.resolve env.cwd false (stripSlashes path) with
      | .entry l => s.apply (s.tree.rmdir l)
      | _ => (-1, s)
    else (-1, s)
  | none => (-1, s)

/-- What a call answers and does. -/
def sys : (c : FileCall) → State → c.Ans × State
  | .opendir path, s =>
    (match s.tree.resolve env.cwd true path with
      | .entry l => if s.tree.isDir l then some (env.readdir path) else none
      | _ => none, s)
  | .closedir _, s => ((), s)
  | .lstat path, s => (s.stat env path false, s)
  | .stat path, s => (s.stat env path true, s)
  | .access path, s =>
    (match s.tree.resolve env.cwd true path with
      | .entry _ => (0 : Int)
      | _ => (-1 : Int), s)
  | .unlink path, s => s.unlink env path
  | .rename oldpath newpath, s => s.rename env oldpath newpath
  | .readlink path size, s => (s.readlink env path size, s)
  | .symlink target linkpath, s => s.symlink env target linkpath
  | .mkdir path mode, s => s.mkdir env path mode
  | .openRead path, s => s.openRead env path
  | .openCreat path mode, s => s.openCreat env path mode
  | .sendfile out_fd in_fd count, s => s.sendfile env out_fd in_fd count
  | .close fd, s => s.close fd
  | .chmod path mode, s => s.chmod env path mode
  | .rmdir path, s => s.rmdir env path

end State

/-! ## What a call does to the tree, if anything -/

namespace State

variable (s : State)

theorem unlink_cases (path : Text) : (s.unlink env path).2 = s ∨
    ∃ l t', s.tree.resolve env.cwd false path = .entry l ∧ s.tree.unlink l = some t' ∧
      (s.unlink env path).2 = { s with tree := t' } := by
  unfold State.unlink
  split
  · exact .inl rfl
  · split
    · next l hl =>
      cases hunlink : s.tree.unlink l with
      | none => exact .inl rfl
      | some t' => exact .inr ⟨l, t', hl, hunlink, rfl⟩
    · exact .inl rfl

theorem rename_of_fails {oldpath newpath : Text}
    (h : env.fails (.rename oldpath newpath) = true) :
    s.rename env oldpath newpath = (-1, s) := by
  unfold State.rename
  rw [if_pos h]

theorem rename_cases (oldpath newpath : Text) : s.rename env oldpath newpath = (-1, s) ∨
    ∃ l l' n t', s.tree.resolve env.cwd false oldpath = .entry l ∧
      (s.tree.resolve env.cwd false newpath = .absent l' n ∨
        s.tree.resolve env.cwd false newpath = .entry (n :: l')) ∧
      s.tree.rename l l' n = some t' ∧
      s.rename env oldpath newpath = (0, { s with tree := t' }) := by
  unfold State.rename
  split
  · exact .inl rfl
  · split
    · next l l' n hl hl' =>
      cases hrename : s.tree.rename l l' n with
      | none => exact .inl rfl
      | some t' => exact .inr ⟨l, l', n, t', hl, .inl hl', hrename, rfl⟩
    · next l n l' hl hl' =>
      cases hrename : s.tree.rename l l' n with
      | none => exact .inl rfl
      | some t' => exact .inr ⟨l, l', n, t', hl, .inr hl', hrename, rfl⟩
    · exact .inl rfl

theorem symlink_cases (target linkpath : Text) : (s.symlink env target linkpath).2 = s ∨
    ∃ l n t', s.tree.resolve env.cwd false linkpath = .absent l n ∧
      s.tree.create l n (.lnk target) = some t' ∧
      (s.symlink env target linkpath).2 = { s with tree := t' } := by
  unfold State.symlink
  split
  · exact .inl rfl
  · split
    · next l n hl =>
      cases hcreate : s.tree.create l n (.lnk target) with
      | none => exact .inl rfl
      | some t' => exact .inr ⟨l, n, t', hl, hcreate, rfl⟩
    · exact .inl rfl

theorem mkdir_cases (path : Text) (mode : Nat) : (s.mkdir env path mode).2 = s ∨
    ∃ l n t', s.tree.resolve env.cwd false path = .absent l n ∧
      s.tree.create l n (.dir (env.masked mode)) = some t' ∧
      (s.mkdir env path mode).2 = { s with tree := t' } := by
  unfold State.mkdir
  split
  · exact .inl rfl
  · split
    · exact .inl rfl
    · next l n hl =>
      cases hcreate : s.tree.create l n (.dir (env.masked mode)) with
      | none => exact .inl rfl
      | some t' => exact .inr ⟨l, n, t', hl, hcreate, rfl⟩
    · exact .inl rfl

theorem rmdir_cases (path : Text) : (s.rmdir env path).2 = s ∨
    ∃ l t', s.tree.resolve env.cwd false (State.stripSlashes path) = .entry l ∧
      s.tree.rmdir l = some t' ∧ (s.rmdir env path).2 = { s with tree := t' } := by
  unfold State.rmdir
  split
  · split
    · split
      · next l hl =>
        cases hrmdir : s.tree.rmdir l with
        | none => exact .inl rfl
        | some t' => exact .inr ⟨l, t', hl, hrmdir, rfl⟩
      · exact .inl rfl
    · exact .inl rfl
  · exact .inl rfl

theorem chmod_cases (path : Text) (mode : Nat) : (s.chmod env path mode).2 = s ∨
    ∃ l t', s.tree.resolve env.cwd true path = .entry l ∧ s.tree.chmod l mode = some t' ∧
      (s.chmod env path mode).2 = { s with tree := t' } := by
  unfold State.chmod
  split
  · exact .inl rfl
  · split
    · next l hl =>
      cases hchmod : s.tree.chmod l mode with
      | none => exact .inl rfl
      | some t' => exact .inr ⟨l, t', hl, hchmod, rfl⟩
    · exact .inl rfl

end State

end EngineerLinux.MoveDir
