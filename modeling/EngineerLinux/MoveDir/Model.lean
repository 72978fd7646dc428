import EngineerLinux.MoveDir.Calls

/-!
# Moving a directory (`move.c` 11-78)

`move_dir` as a program over the calls it makes: the loop over the names (lines 21-73), with a
branch for links (32-46), one for directories (47-52), in which it calls itself, and one for regular
files (53-72). A result `none` stands for not returning: the process dies in `readdir(NULL)`, or a
loop does not come to its end.

Two loops and the recursion have fuel. A file of `st_size` bytes is sent in less than `st_size + 1`
pieces, and a directory inside another one has a longer path, so that 512 calls inside each other
are never reached. That there is always enough fuel is part of what is proved about `move_dir`, and
is nowhere assumed.

The buffers are taken to hold complete paths, since a path that does not fit ends the loop (26-30);
`Buffers` has them with what is really in them.
-/

namespace EngineerLinux.MoveDir

open Files

/-- `snprintf(path, size, "%s/%s", dir, d_name)`, if it fits. -/
def join (dir d_name : Text) : Text := dir ++ '/' :: d_name

/-- `while (sendfile(dstFd, srcFd, NULL, 0x8000) > 0);` -/
def sendAll (dstFd srcFd : Int) : (fuel : Nat) → Prog FileSys (Option Unit)
  | 0 => .ret none
  | fuel + 1 =>
    .call (.sendfile dstFd srcFd 0x8000) fun (sent : Int) =>
    if sent > 0 then sendAll dstFd srcFd fuel else .ret (some ())

/-- A link is renamed, or made again. -/
def renameOrRelink (srcPath dstPath : Text) : Prog FileSys (Option Unit) :=
  .call (.rename srcPath dstPath) fun (r : Int) =>
  if r ≠ 0 then
    .call (.readlink srcPath 128) fun (linkPath : Text) =>
    .call (.symlink linkPath dstPath) fun (_ : Int) =>
    .call (.unlink srcPath) fun (_ : Int) => .ret (some ())
  else .ret (some ())

/-- The branch for a symbolic link. -/
def moveLnk (srcPath dstPath : Text) : Prog FileSys (Option Unit) :=
  .call (.access dstPath) fun (r : Int) =>
  if r = 0 then
    .call (.lstat dstPath) fun (dstStat : Option Stat) =>
    if (dstStat.getD .zero).kind = .lnk then
      .call (.unlink srcPath) fun (_ : Int) => .ret (some ())
    else
      .call (.unlink dstPath) fun (_ : Int) => renameOrRelink srcPath dstPath
  else renameOrRelink srcPath dstPath

/-- A file is renamed, or copied and removed. A file of `st_size` bytes is sent in less than
`st_size + 1` pieces. -/
def renameOrCopy (srcPath dstPath : Text) (scrStat : Stat) : Prog FileSys (Option Unit) :=
  .call (.rename srcPath dstPath) fun (r : Int) =>
  if r ≠ 0 then
    .call (.openRead srcPath) fun (srcFd : Int) =>
    .call (.openCreat dstPath 511) fun (dstFd : Int) =>
    (sendAll dstFd srcFd (scrStat.st_size + 1)).bind fun sent =>
    .call (.close srcFd) fun (_ : Int) =>
    .call (.close dstFd) fun (_ : Int) =>
    .call (.chmod dstPath scrStat.mode) fun (_ : Int) =>
    .call (.unlink srcPath) fun (_ : Int) => .ret sent
  else .ret (some ())

/-- The branch for a regular file. -/
def moveReg (srcPath dstPath : Text) (scrStat : Stat) : Prog FileSys (Option Unit) :=
  .call (.access dstPath) fun (r : Int) =>
  if r = 0 then
    .call (.stat dstPath) fun (dstStat : Option Stat) =>
    if (dstStat.getD .zero).st_size = scrStat.st_size then
      .call (.unlink srcPath) fun (_ : Int) => .ret (some ())
    else
      .call (.unlink dstPath) fun (_ : Int) => renameOrCopy srcPath dstPath scrStat
  else renameOrCopy srcPath dstPath scrStat

/-- The body of the loop: whether it goes on with the next name, or else to `SAFE_EXIT` with
`ret = -1`. -/
def moveEntry (move_dir : Text → Text → Prog FileSys (Option Int)) (srcDir dstDir d_name : Text) :
    Prog FileSys (Option Bool) :=
  if d_name = ['.'] ∨ d_name = ['.', '.'] then .ret (some true)
  else if (join srcDir d_name).length ≥ 512 ∨ (join dstDir d_name).length ≥ 512 then
    .ret (some false)
  else
    .call (.lstat (join srcDir d_name)) fun (scrStat : Option Stat) =>
    match scrStat with
    | none => .ret (some false)
    | some scrStat =>
      match scrStat.kind with
      | .lnk => (moveLnk (join srcDir d_name) (join dstDir d_name)).bind fun done =>
        .ret (done.map fun _ => true)
      | .dir =>
        .call (.mkdir (join dstDir d_name) 448) fun (r : Int × Errno) =>
        if r.1 ≠ 0 ∧ r.2 ≠ .EEXIST then .ret (some false)
        else (move_dir (join srcDir d_name) (join dstDir d_name)).bind fun r =>
          .ret (r.map fun ret => ret = 0)
      | .reg => (moveReg (join srcDir d_name) (join dstDir d_name) scrStat).bind fun done =>
        .ret (done.map fun _ => true)
      | .other => .ret (some true)

/-- `while ((srcdir = readdir(srcDirp)) != NULL)`: the value of `ret` at `SAFE_EXIT`. -/
def moveEntries (move_dir : Text → Text → Prog FileSys (Option Int)) (srcDir dstDir : Text) :
    (names : List Text) → Prog FileSys (Option Int)
  | [] => .ret (some 0)
  | d_name :: names =>
    (moveEntry move_dir srcDir dstDir d_name).bind fun r =>
    match r with
    | some true => moveEntries move_dir srcDir dstDir names
    | some false => .ret (some (-1))
    | none => .ret none

/-- `move_dir` with room for so many directories inside each other. -/
def moveDir : (room : Nat) → Text → Text → Prog FileSys (Option Int)
  | 0, _, _ => .ret none
  | room + 1, srcDir, dstDir =>
    .call (.opendir srcDir) fun (names : Option (List Text)) =>
    match names with
    | none => .ret none
    | some names =>
      (moveEntries (moveDir room) srcDir dstDir names).bind fun ret =>
      .call (.closedir srcDir) fun (_ : Unit) =>
      .call (.rmdir srcDir) fun (_ : Int) => .ret ret

/-- **`move_dir`**; `none` is `NULL`. Each directory inside another makes the path longer, and a
path has less than 512 bytes. -/
def move_dir : (srcDir dstDir : Option Text) → Prog FileSys (Option Int)
  | some srcDir, some dstDir => moveDir 512 srcDir dstDir
  | _, _ => .ret (some (-1))

end EngineerLinux.MoveDir
