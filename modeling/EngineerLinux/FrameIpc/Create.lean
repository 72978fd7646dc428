import EngineerLinux.Lib.Prog

/-!
# Creating and finding channels (`frame_ipc.c`)

`CreateSharedFrame` (lines 44-81) and `GetFrameStart` (104-112) as programs over the calls they
make. A channel is a shared-memory segment and a semaphore, each under a key that `ftok` makes of
`/usr/lib` and the number of the channel.

What the calls do is left to the kernel of `Segments`. Accesses through pointers are calls too, so
that an access through an address `shmat` did not return can be seen. Of `ftok` all that the proofs
use is which keys are the same (`ftok_eq_iff`) and which are `IPC_PRIVATE` (`ftok_eq_zero_iff`).
-/

namespace EngineerLinux.FrameIpc

inductive Errno where
  | EEXIST
  | EINVAL
  | ENOENT
  deriving DecidableEq

inductive CreateCall where
  /-- `ftok("/usr/lib", proj)`. -/
  | ftok (proj : Nat)
  /-- `shmget(key, size, ..)`, the flags being `IPC_CREAT | IPC_EXCL | 0666` or 0. -/
  | shmget (key size : Nat) (create : Bool)
  /-- `shmctl(id, IPC_RMID, 0)`. -/
  | shmRmid (id : Int)
  /-- `semget(key, 1, ..)`, the flags being `IPC_CREAT | IPC_EXCL | 0666` or `0666`. -/
  | semget (key : Nat) (create : Bool)
  /-- `semctl(id, 1, IPC_RMID, ..)`. -/
  | semRmid (id : Int)
  /-- `semctl(id, CREAT, SETVAL, ..)`. -/
  | semSetval (id : Int) (val : Nat)
  /-- `semctl(id, CREAT, GETVAL, ..)`. -/
  | semGetval (id : Int)
  | shmat (id : Int)
  /-- `*(int *)addr = val`. -/
  | store (addr val : Int)
  | shmdt (addr : Int)
  /-- `realloc(p, count * sizeof(void *))`. -/
  | realloc (p : Int) (count : Nat)
  /-- `memset(p, 0, count * sizeof(void *))`. -/
  | memset (p : Int) (count : Nat)

/-- The return value; for the two calls whose `errno` is looked at, with `errno`. -/
abbrev CreateCall.Ans : CreateCall → Type
  | .ftok _ => Nat
  | .shmget _ _ _ | .semget _ _ => Int × Errno
  | .store _ _ | .memset _ _ => Unit
  | _ => Int

abbrev SysV : Sys := ⟨CreateCall, CreateCall.Ans⟩

/-- `IPC_IDS`. -/
structure IpcIds where
  shm_id : Int
  sem_id : Int
  deriving DecidableEq

/-- The static variables of `frame_ipc.c`, and what `g_addr` points to. -/
structure Globals where
  g_flag : Nat
  g_addr : Int
  slots : List Int

/-- A process that has created no channel. -/
def Globals.initial : Globals := ⟨0, 0, []⟩

/-- The segment of `CreateSharedFrame`: created, or created again after the one under its key has
been removed. -/
def createShm (key size : Nat) : Prog SysV Int :=
  .call (.shmget key size true) fun (shm_id : Int × Errno) =>
  if shm_id.1 < 0 ∧ shm_id.2 = .EEXIST then
    .call (.shmget key 0 false) fun (shm_id : Int × Errno) =>
    .call (.shmRmid shm_id.1) fun (_ : Int) =>
    .call (.shmget key size true) fun (shm_id : Int × Errno) => .ret shm_id.1
  else .ret shm_id.1

/-- The semaphore of `CreateSharedFrame`, in the same way. -/
def createSem (key : Nat) : Prog SysV Int :=
  .call (.semget key true) fun (sem_id : Int × Errno) =>
  if sem_id.1 < 0 ∧ sem_id.2 = .EEXIST then
    .call (.semget key false) fun (sem_id : Int × Errno) =>
    .call (.semRmid sem_id.1) fun (_ : Int) =>
    .call (.semget key true) fun (sem_id : Int × Errno) => .ret sem_id.1
  else .ret sem_id.1

/-- `CreateSharedFrame`: the return value and `*ids`. -/
def CreateSharedFrame (g : Globals) (size : Nat) : Prog SysV (Globals × Int × IpcIds) :=
  .call (.ftok ('s'.toNat + g.g_flag)) fun (key : Nat) =>
  (createShm key size).bind fun shm_id =>
  .call (.ftok ('a'.toNat + g.g_flag)) fun (key : Nat) =>
  (createSem key).bind fun sem_id =>
  .call (.semSetval sem_id 0) fun (_ : Int) =>
  .call (.semGetval sem_id) fun (_ : Int) =>
  .call (.shmat shm_id) fun (addr : Int) =>
  .call (.store addr 0) fun (_ : Unit) =>
  .call (.shmdt addr) fun (_ : Int) =>
  let g_flag := g.g_flag + 1
  .call (.realloc g.g_addr g_flag) fun (g_addr : Int) =>
  .call (.memset g_addr g_flag) fun (_ : Unit) =>
  .ret (⟨g_flag, g_addr, List.replicate g_flag 0⟩, 0, ⟨shm_id, sem_id⟩)

/-- One process calling `CreateSharedFrame` again and again, and all the ids it gets. -/
def createAll (g : Globals) : List Nat → Prog SysV (List IpcIds)
  | [] => .ret []
  | size :: sizes =>
    (CreateSharedFrame g size).bind fun r =>
    (createAll r.1 sizes).bind fun ids => .ret (r.2.2 :: ids)

/-- `GetFrameStart`: the return value and `*ids`. -/
def GetFrameStart (flag : Nat) : Prog SysV (Int × IpcIds) :=
  .call (.ftok ('s'.toNat + flag)) fun (key : Nat) =>
  .call (.shmget key 0 false) fun (shm_id : Int × Errno) =>
  .call (.ftok ('a'.toNat + flag)) fun (key : Nat) =>
  .call (.semget key false) fun (sem_id : Int × Errno) =>
  .ret (if shm_id.1 < 0 ∨ sem_id.1 < 0 then -1 else 0, ⟨shm_id.1, sem_id.1⟩)

/-! ## Keys -/

/-- What `ftok` takes from `stat("/usr/lib")`. -/
structure FileId where
  st_dev : Nat
  st_ino : Nat

/-- `ftok` of glibc: the low 8 bits of `proj`, the low 8 of the device, the low 16 of the inode. -/
def ftok (lib : FileId) (proj : Nat) : Nat :=
  0x1000000 * (proj % 256) + 0x10000 * (lib.st_dev % 256) + lib.st_ino % 0x10000

/-- The key depends on the low 8 bits of the number. -/
theorem ftok_eq_iff {lib : FileId} {p q : Nat} : ftok lib p = ftok lib q ↔ p % 256 = q % 256 := by
  unfold ftok
  omega

/-- The key is `IPC_PRIVATE`. -/
theorem ftok_eq_zero_iff {lib : FileId} {p : Nat} :
    ftok lib p = 0 ↔ p % 256 = 0 ∧ lib.st_dev % 256 = 0 ∧ lib.st_ino % 0x10000 = 0 := by
  unfold ftok
  omega

end EngineerLinux.FrameIpc
