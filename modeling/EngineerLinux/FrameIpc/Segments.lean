import EngineerLinux.FrameIpc.Create
import EngineerLinux.Lib.Faults
import EngineerLinux.Lib.KeyTable

/-!
# Segments with their bytes and attachments (`frame_ipc.c`)

The rest of `frame_ipc.c` as programs (`sem_op_` lines 22-42, `SendSharedFrame` 83-102,
`AttachSharedFrame` 114-122, `DestroySharedFrame` 131-136), and the kernel that answers the calls of
all of them: the System V objects under their keys, the bytes in the segments, and who is attached
to them. A segment which is removed while it is attached gives up its key at once but stays until
the last one detaches. A call fails only because of its arguments and of the objects there are;
`failure` is for the other reasons.

An access through a pointer is a call of its own. It says in `wild` if it goes to an address where
nothing is attached, or outside of what is attached there; a process that does this may die at once.
-/

namespace EngineerLinux.FrameIpc

/-! ## The calls -/

inductive FrameCall where
  /-- A call that is known from `CreateSharedFrame`. -/
  | sysv (c : CreateCall)
  /-- `semop` with one operation on the semaphore `CREAT`. -/
  | semop (id op : Int)
  /-- `*(int *)addr`. -/
  | load (addr : Int)
  /-- `memcpy(addr + off, ..)` of these bytes. -/
  | memcpyTo (addr off : Int) (bytes : List UInt8)
  /-- `memcpy(.., addr, len)`. -/
  | memcpyFrom (addr len : Int)

abbrev FrameCall.Ans : FrameCall → Type
  | .sysv c => c.Ans
  | .semop _ _ | .load _ => Int
  | .memcpyTo _ _ _ => Unit
  | .memcpyFrom _ _ => List UInt8

abbrev FrameSys : Sys := ⟨FrameCall, FrameCall.Ans⟩

/-- A size that is passed as an `int` where a `size_t` is expected. -/
def sizeT (size : Int) : Nat := (size % 0x10000000000000000).toNat

/-- `sem_op_`. -/
def sem_op_ (opt : Char) (sem_id : Int) : Prog FrameSys Int :=
  .call (.semop sem_id (if opt = 'p' then -1 else 1)) fun (r : Int) =>
  .ret (if r = -1 then -1 else 0)

/-- The last four arguments of `SendSharedFrame`: two pointers, which may be `NULL`, with what they
point to. -/
structure Frame where
  extra_data : Option (List UInt8)
  extra_len : Int
  data : Option (List UInt8)
  len : Int
  extra_readable : ∀ bytes, extra_data = some bytes → bytes.length = extra_len.toNat
  data_readable : ∀ bytes, data = some bytes → bytes.length = len.toNat

/-- Of the lengths that what is pointed to has. -/
def Frame.of (extra_data data : Option (List UInt8)) : Frame where
  extra_data := extra_data
  extra_len := (extra_data.elim 0 List.length : Nat)
  data := data
  len := (data.elim 0 List.length : Nat)
  extra_readable := by
    rintro bytes rfl
    rfl
  data_readable := by
    rintro bytes rfl
    rfl

/-- `if (p != NULL && len > 0) memcpy(addr + off, p, len);` -/
def copyTo (p : Option (List UInt8)) (len addr off : Int) : Prog FrameSys Unit :=
  match p with
  | some bytes =>
    if len > 0 then .call (.memcpyTo addr off bytes) fun (_ : Unit) => .ret ()
    else .ret ()
  | none => .ret ()

/-- `SendSharedFrame` once there is an address in `g_addr[flag]`. -/
def sendThrough (g : Globals) (addr : Int) (ids : IpcIds) (frame : Frame) :
    Prog FrameSys (Globals × Int) :=
  .call (.load addr) fun (busy : Int) =>
  if busy = 0 then
    if addr = -1 then .ret (g, -1)
    else
      (copyTo frame.extra_data frame.extra_len addr 0).bind fun _ =>
      (copyTo frame.data frame.len addr frame.extra_len).bind fun _ =>
      (sem_op_ 'v' ids.sem_id).bind fun _ => .ret (g, 0)
  else .ret (g, -1)

/-- `SendSharedFrame`: `g_addr` and the return value. -/
def SendSharedFrame (g : Globals) (flag : Nat) (ids : IpcIds) (frame : Frame) :
    Prog FrameSys (Globals × Int) :=
  if g.slots.getD flag 0 = 0 then
    .call (.sysv (.shmat ids.shm_id)) fun (addr : Int) =>
    sendThrough { g with slots := g.slots.set flag addr } addr ids frame
  else sendThrough g (g.slots.getD flag 0) ids frame

/-- `AttachSharedFrame`: what it returns, and the bytes it has copied. -/
def AttachSharedFrame (ids : IpcIds) (len : Int) : Prog FrameSys (Int × List UInt8) :=
  (sem_op_ 'p' ids.sem_id).bind fun _ =>
  .call (.sysv (.shmat ids.shm_id)) fun (addr : Int) =>
  .call (.memcpyFrom addr len) fun (frame : List UInt8) => .ret (addr, frame)

/-- `DestroySharedFrame`. -/
def DestroySharedFrame (ids : IpcIds) : Prog FrameSys Unit :=
  .call (.sysv (.shmRmid ids.shm_id)) fun (_ : Int) =>
  .call (.sysv (.semRmid ids.sem_id)) fun (_ : Int) => .ret ()

/-! ## Memory -/

/-- The `int` in the first four bytes. -/
def word (bytes : Nat → UInt8) : Int :=
  let n := (bytes 0).toNat + 0x100 * (bytes 1).toNat + 0x10000 * (bytes 2).toNat +
    0x1000000 * (bytes 3).toNat
  if n < 0x80000000 then n else n - 0x100000000

/-- An `int` is put into the first four bytes. -/
def putWord (val : Int) (bytes : Nat → UInt8) (i : Nat) : UInt8 :=
  if i < 4 then UInt8.ofNat ((val % 0x100000000).toNat >>> (8 * i)) else bytes i

/-- Other bytes from an offset on. -/
def splice (bytes : Nat → UInt8) (off : Nat) (new : List UInt8) (i : Nat) : UInt8 :=
  if off ≤ i ∧ i < off + new.length then new.getD (i - off) 0 else bytes i

theorem word_eq_zero_iff {bytes : Nat → UInt8} : word bytes = 0 ↔ ∀ i < 4, bytes i = 0 := by
  have hlt := fun i => (bytes i).toNat_lt
  have hzero : ∀ i, (bytes i).toNat = 0 ↔ bytes i = 0 := fun i =>
    ⟨fun h => UInt8.toNat_inj.mp h, fun h => by rw [h]; rfl⟩
  have h0 := hlt 0
  have h1 := hlt 1
  have h2 := hlt 2
  have h3 := hlt 3
  have hword : word bytes = 0 ↔ (bytes 0).toNat = 0 ∧ (bytes 1).toNat = 0 ∧
      (bytes 2).toNat = 0 ∧ (bytes 3).toNat = 0 := by
    unfold word
    dsimp only
    split <;> omega
  rw [hword]
  simp only [hzero]
  constructor
  · rintro ⟨h0, h1, h2, h3⟩ i hi
    match i, hi with
    | 0, _ => exact h0
    | 1, _ => exact h1
    | 2, _ => exact h2
    | 3, _ => exact h3
  · exact fun h => ⟨h 0 (by decide), h 1 (by decide), h 2 (by decide), h 3 (by decide)⟩

theorem word_putWord_zero (bytes : Nat → UInt8) : word (putWord 0 bytes) = 0 := by
  refine word_eq_zero_iff.mpr fun i hi => ?_
  unfold putWord
  rw [if_pos hi]
  simp

/-! ## The kernel -/

/-- A segment. -/
structure Region where
  size : Nat
  bytes : Nat → UInt8
  /-- How many attachments other processes have. -/
  others : Nat
  /-- It has been removed, and stays until nobody is attached to it. -/
  dest : Bool

/-- A new segment is full of 0. -/
def Region.new (size : Nat) : Region := ⟨size, fun _ => 0, 0, false⟩

/-- The busy word. -/
def Region.busy (r : Region) : Int := word r.bytes

/-- What does not change: how ids are chosen, the file that `ftok` looks at, and the largest size of
a segment. -/
structure Setup where
  alloc : IdAlloc
  lib : FileId
  shmmax : Nat

/-- The System V objects, and the attachments of the calling process, each with its address. -/
structure Host where
  shm : KeyTable Region
  sem : KeyTable Nat
  attached : List (Nat × Nat)
  /-- Addresses above this one have not been used. -/
  next_addr : Nat
  /-- The ids of segments that are gone. They are not given again. -/
  gone : List Nat
  /-- An access went wrong. -/
  wild : Bool

namespace Host

variable (A : Setup) (s : Host)

/-- The segment with an id. -/
def seg (id : Int) : Option (Named Region) := if 0 ≤ id then s.shm.get id.toNat else none

/-- The semaphore with an id. -/
def semaphore (id : Int) : Option (Named Nat) := if 0 ≤ id then s.sem.get id.toNat else none

/-- What is attached at an address. -/
def attachment (addr : Int) : Option (Nat × Nat) := s.attached.find? fun a => (a.1 : Int) = addr

/-- The segment attached at an address. -/
def mapped (addr : Int) : Option (Named Region) := (s.attachment addr).bind fun a => s.shm.get a.2

/-- `shm_nattch`. -/
def nattch (e : Named Region) : Nat := (s.attached.countP fun a => a.2 = e.id) + e.val.others

def shmget (key size : Nat) (create : Bool) : (Int × Errno) × Host :=
  match s.shm.find key with
  | some e =>
    if create then ((-1, .EEXIST), s)
    else if e.val.size < size then ((-1, .EINVAL), s)
    else ((e.id, .EEXIST), s)
  | none =>
    -- `IPC_PRIVATE` makes a new segment also without `IPC_CREAT`
    if create = false ∧ key ≠ 0 then ((-1, .ENOENT), s)
    else if size = 0 ∨ A.shmmax < size then ((-1, .EINVAL), s)
    else
      match s.shm.create (A.alloc.avoiding s.gone) key (.new size) with
      | some (id, shm) => ((id, .EEXIST), { s with shm })
      | none => ((-1, .EEXIST), s)

def semget (key : Nat) (create : Bool) : (Int × Errno) × Host :=
  match s.sem.find key with
  | some e => if create then ((-1, .EEXIST), s) else ((e.id, .EEXIST), s)
  | none =>
    if create = false ∧ key ≠ 0 then ((-1, .ENOENT), s)
    else
      match s.sem.create A.alloc key 0 with
      | some (id, sem) => ((id, .EEXIST), { s with sem })
      | none => ((-1, .EEXIST), s)

/-- A segment is gone. -/
def free (id : Nat) : Host := { s with shm := s.shm.remove id, gone := id :: s.gone }

/-- `IPC_RMID`: it is gone at once if nobody is attached, and loses its key in any case. -/
def rmid (e : Named Region) : Host :=
  if s.nattch e = 0 then s.free e.id
  else { s with shm := (s.shm.unkey e.id).modify e.id fun r => { r with dest := true } }

/-- At an address that has not been used. -/
def attach (id : Nat) : Host :=
  { s with attached := (s.next_addr + 1, id) :: s.attached, next_addr := s.next_addr + 1 }

/-- A segment that has been removed is gone when the last one detaches. -/
def detach (a : Nat × Nat) : Host :=
  let s' := { s with attached := s.attached.filter fun b => b.1 ≠ a.1 }
  match s.shm.get a.2 with
  | some e => if e.val.dest ∧ s'.nattch e = 0 then s'.free e.id else s'
  | none => s'

def modify (id : Nat) (f : (Nat → UInt8) → Nat → UInt8) : Host :=
  { s with shm := s.shm.modify id fun r => { r with bytes := f r.bytes } }

/-- What a call of `CreateSharedFrame` answers and does. -/
def sysv : (c : CreateCall) → Host → c.Ans × Host
  | .ftok proj, s => (FrameIpc.ftok A.lib proj, s)
  | .shmget key size create, s => s.shmget A key size create
  | .shmRmid id, s =>
    match s.seg id with
    | some e => ((0 : Int), s.rmid e)
    | none => ((-1 : Int), s)
  | .semget key create, s => s.semget A key create
  | .semRmid id, s =>
    match s.semaphore id with
    | some e => ((0 : Int), { s with sem := s.sem.remove e.id })
    | none => ((-1 : Int), s)
  | .semSetval id val, s =>
    match s.semaphore id with
    | some e => ((0 : Int), { s with sem := s.sem.modify e.id fun _ => val })
    | none => ((-1 : Int), s)
  | .semGetval id, s =>
    match s.semaphore id with
    | some e => ((e.val : Int), s)
    | none => ((-1 : Int), s)
  | .shmat id, s =>
    match s.seg id with
    | some e => ((s.next_addr + 1 : Int), s.attach e.id)
    | none => ((-1 : Int), s)
  | .store addr val, s =>
    match s.attachment addr with
    | some a => ((), s.modify a.2 (putWord val))
    | none => ((), { s with wild := true })
  | .shmdt addr, s =>
    match s.attachment addr with
    | some a => ((0 : Int), s.detach a)
    | none => ((-1 : Int), s)
  | .realloc _ _, s => ((s.next_addr + 1 : Int), { s with next_addr := s.next_addr + 1 })
  | .memset p _, s => if p = 0 then ((), { s with wild := true }) else ((), s)

/-- `semop` by one. A P that has to wait is taken to be interrupted. -/
def semop (id op : Int) : Int × Host :=
  match s.semaphore id with
  | some e =>
    if e.val + op < 0 ∨ 32767 < e.val + op then (-1, s)
    else (0, { s with sem := s.sem.modify e.id fun val => (val + op).toNat })
  | none => (-1, s)

/-- What a call answers and does. -/
def sys : (c : FrameCall) → Host → c.Ans × Host
  | .sysv c, s => sysv A c s
  | .semop id op, s => s.semop id op
  | .load addr, s =>
    match s.mapped addr with
    | some e => (e.val.busy, s)
    | none => ((0 : Int), { s with wild := true })
  | .memcpyTo addr off bytes, s =>
    match s.mapped addr with
    | some e =>
      if 0 ≤ off ∧ off + bytes.length ≤ e.val.size then
        ((), s.modify e.id fun old => splice old off.toNat bytes)
      else ((), { s with wild := true })
    | none => ((), { s with wild := true })
  | .memcpyFrom addr len, s =>
    if len = 0 then ([], s)
    else
      match s.mapped addr with
      | some e =>
        if 0 ≤ len ∧ len ≤ e.val.size then ((List.range len.toNat).map e.val.bytes, s)
        else ([], { s with wild := true })
      | none => ([], { s with wild := true })

end Host

/-- What a call answers that fails for a reason of its own. -/
def failure : (c : CreateCall) → Option c.Ans
  | .shmget _ _ _ | .semget _ _ => some ((-1 : Int), Errno.EINVAL)
  | .shmRmid _ | .semRmid _ | .semSetval _ _ | .semGetval _ | .shmat _ => some (-1 : Int)
  | .realloc _ _ => some (0 : Int)
  | .ftok _ | .store _ _ | .shmdt _ | .memset _ _ => none

theorem seg_eq_some_iff {s : Host} {id : Int} {e : Named Region} :
    s.seg id = some e ↔ e ∈ s.shm ∧ (e.id : Int) = id := by
  unfold Host.seg
  split
  · rw [KeyTable.get_eq_some_iff]
    exact and_congr_right fun _ => by omega
  · exact iff_of_false (fun h => by cases h) fun h => by omega

theorem semaphore_eq_some_iff {s : Host} {id : Int} {p : Named Nat} :
    s.semaphore id = some p ↔ p ∈ s.sem ∧ (p.id : Int) = id := by
  unfold Host.semaphore
  split
  · rw [KeyTable.get_eq_some_iff]
    exact and_congr_right fun _ => by omega
  · exact iff_of_false (fun h => by cases h) fun h => by omega

/-- What is found under a key has its id. -/
theorem seg_of_find {s : Host} {key : Nat} {e : Named Region} (h : s.shm.find key = some e) :
    s.seg e.id = some e :=
  seg_eq_some_iff.mpr ⟨(KeyTable.find_eq_some_iff.mp h).2.1, rfl⟩

theorem semaphore_of_find {s : Host} {key : Nat} {p : Named Nat} (h : s.sem.find key = some p) :
    s.semaphore p.id = some p :=
  semaphore_eq_some_iff.mpr ⟨(KeyTable.find_eq_some_iff.mp h).2.1, rfl⟩

/-- `(void *)-1` is no address of an attachment. -/
theorem attachment_neg (s : Host) : s.attachment (-1) = none := by
  refine List.find?_eq_none.mpr fun a _ => ?_
  rw [decide_eq_true_eq]
  omega

/-- What has just been attached. -/
theorem attachment_attach (s : Host) (id : Nat) :
    (s.attach id).attachment (s.next_addr + 1) = some (s.next_addr + 1, id) :=
  List.find?_cons_of_pos (by simp)

/-- No objects. -/
def Host.initial : Host := ⟨.empty, .empty, [], 0, [], false⟩

/-- A system on which no key of a channel is `IPC_PRIVATE`. -/
def Setup.usual : Setup := ⟨.next, ⟨2050, 1027⟩, 0x100000000⟩

end EngineerLinux.FrameIpc
