/-
# The file system calls

`kern/syscall/file.c`: `sys_open`, `sys_close`, `sys_read`, `sys_write`,
`sys_dup2` and `sys_lseek` over the file tables of any type of processes, one
call at a time. A `struct File` is a record of its own at an address; to
follow a pointer to anything else stops the machine. What the calls get from
elsewhere (`kmalloc`, `copyinstr`, `vfs_open`, `lock_create`, the vnode
operations) is an argument of the call, so a statement over all calls is one
over all of their outcomes.

The undeclared `i` of `sys_open` is read as `fd`. `sys_lseek` lets `fd` be 16,
one past the table; the word there is the next field of `struct proc`, `par`.
-/
import Os161.Lib.Prog
import Os161.Lib.Run
import Os161.Kern.Uio

namespace Os161

/-- `MAX_PROCESS_OPEN_FILES`. -/
def maxProcessOpenFiles : ℕ := 16

/-- `MAX_SYSTEM_OPEN_FILES`. -/
def maxSystemOpenFiles : ℤ := 64

/-- `struct File`. -/
structure File where
  vPtr : ℕ
  openFlags : UInt32
  references : ℤ
  flock : ℕ
  offset : Int64

/-- The kernel's state as the file calls see it: the `File`s by address, the
tables and the field behind each, the global counter, the kernel heap blocks
and the locks in use, and the references to each vnode. -/
structure FileState (P : Type) where
  files : ℕ → Option File
  fileTable : P → ℕ → Option ℕ
  par : P → Option ℕ
  numOpenFiles : ℤ
  kheap : ℕ → Bool
  locks : ℕ → Bool
  vnRefs : ℕ → ℤ

/-- What `sys_open` is told by the code it calls. A block from `kmalloc` holds
whatever it held before. -/
structure OpenEnv where
  filenameNull : Bool
  kfilename : Option ℕ
  copyinstr : Except Errno Unit
  file : Option (ℕ × File)
  vfsOpen : Except Errno ℕ
  flock : Option ℕ

/-- What `sys_lseek` is told. -/
structure LseekEnv where
  isseekable : Bool
  stat : Except Errno Int64
  whence : Except Errno ℤ

namespace FileState

variable {P : Type} [DecidableEq P]

/-- The table of `p` with slot `fd` set. -/
def setSlot (p : P) (fd : ℕ) (a : Option ℕ) (s : FileState P) : FileState P :=
  { s with fileTable := Function.update s.fileTable p (Function.update (s.fileTable p) fd a) }

omit [DecidableEq P] in
/-- The `File` at `a` written. -/
def setFile (a : ℕ) (f : Option File) (s : FileState P) : FileState P :=
  { s with files := Function.update s.files a f }

/-- `kfree` of a `File`. -/
def kfreeFile (a : ℕ) (s : FileState P) : FileState P :=
  { s.setFile a none with kheap := Function.update s.kheap a false }

/-- `vfs_close`: one reference less. -/
def vfsClose (vn : ℕ) (s : FileState P) : FileState P :=
  { s with vnRefs := Function.update s.vnRefs vn (s.vnRefs vn - 1) }

/-- `lock_destroy`. -/
def lockDestroy (lk : ℕ) (s : FileState P) : FileState P :=
  { s with locks := Function.update s.locks lk false }

/-- The end of a `File`: `vfs_close`, `lock_destroy`, `kfree`. -/
def destroy (a : ℕ) (f : File) (s : FileState P) : FileState P :=
  kfreeFile a (lockDestroy f.flock (vfsClose f.vPtr s))

end FileState

section Calls

variable {P : Type} [DecidableEq P]

/-- Follow a pointer to a `File`. -/
def derefFile (a : ℕ) : Prog Errno (FileState P) File := fun s =>
  match s.files a with
  | some f => .ok f s
  | none => .stop

/-- The test at the head of the calls: `fd` is a slot that is not `NULL`. -/
def lookupFd (p : P) (fd : ℤ) : Prog Errno (FileState P) ℕ := fun s =>
  if fd < 0 ∨ (maxProcessOpenFiles : ℤ) ≤ fd then .fail .ebadf s
  else
    match s.fileTable p fd.toNat with
    | none => .fail .ebadf s
    | some a => .ok a s

/-- The static function `close`. -/
def closeFile (p : P) (filehandler : ℤ) : Prog Errno (FileState P) Unit := do
  let a ← lookupFd p filehandler
  let file ← derefFile a
  Prog.modify (FileState.setSlot p filehandler.toNat none)
  Prog.modify (FileState.setFile a (some { file with references := file.references - 1 }))
  Prog.modify fun s => if file.references - 1 ≤ 0 then s.destroy a file else s
  Prog.modify fun s => { s with numOpenFiles := s.numOpenFiles - 1 }

/-- `sys_close`. -/
def sysClose (p : P) (filehandler : ℤ) : Prog Errno (FileState P) Unit := closeFile p filehandler

/-- The static function `open`, into slot `descriptor`. When `lock_create`
fails, the vnode pointer is not yet in the `File`, and `vfs_close` gets what
the block held before. -/
def openFile (p : P) (env : OpenEnv) (flags : UInt32) (descriptor : ℕ) : Prog Errno (FileState P) Unit :=
  match env.file with
  | none => Prog.fail .enfile
  | some (a, stale) => do
    Prog.modify fun s => { s.setFile a (some stale) with kheap := Function.update s.kheap a true }
    match env.vfsOpen with
    | .error e => do
      Prog.modify (FileState.kfreeFile a)
      Prog.fail e
    | .ok vn => do
      Prog.modify fun s => { s with vnRefs := Function.update s.vnRefs vn (s.vnRefs vn + 1) }
      match env.flock with
      | none => do
        Prog.modify (FileState.vfsClose stale.vPtr)
        Prog.modify (FileState.kfreeFile a)
        Prog.fail .enfile
      | some lk => do
        Prog.modify fun s => { s with locks := Function.update s.locks lk true }
        Prog.modify (FileState.setFile a (some ⟨vn, flags, 1, lk, 0⟩))
        Prog.modify (FileState.setSlot p descriptor (some a))

/-- The loop of `sys_open`: the first `NULL` slot from 3 on. -/
def freeSlot (table : ℕ → Option ℕ) : Option ℕ :=
  (List.range' 3 (maxProcessOpenFiles - 3)).find? fun fd => (table fd).isNone

/-- `kfree(kfilename)`. -/
def kfreePath (k : ℕ) : Prog Errno (FileState P) Unit :=
  Prog.modify fun s => { s with kheap := Function.update s.kheap k false }

/-- `sys_open`; the value is the descriptor. -/
def sysOpen (p : P) (env : OpenEnv) (flags : UInt32) : Prog Errno (FileState P) ℤ :=
  if env.filenameNull then Prog.fail .efault
  else
    match env.kfilename with
    | none => Prog.fail .enfile
    | some k => do
      Prog.modify fun s => { s with kheap := Function.update s.kheap k true }
      match env.copyinstr with
      | .error e => do
        kfreePath k
        Prog.fail e
      | .ok _ => do
        let s ← Prog.get
        match freeSlot (s.fileTable p) with
        | none => do
          kfreePath k
          Prog.fail .emfile
        | some fd => do
          if maxSystemOpenFiles ≤ s.numOpenFiles then do
            kfreePath k
            Prog.fail .enfile
          else do
            match ← Prog.attempt (openFile p env flags fd) with
            | .error e => do
              kfreePath k
              Prog.fail e
            | .ok _ => do
              -- `kfilename` is not freed here
              Prog.modify fun s => { s with numOpenFiles := s.numOpenFiles + 1 }
              pure (fd : ℤ)

/-- `O_RDONLY`, `O_WRONLY` and `O_ACCMODE`. -/
def oRdonly : UInt32 := 0
@[inherit_doc oRdonly] def oWronly : UInt32 := 1
@[inherit_doc oRdonly] def oAccmode : UInt32 := 3

/-- The common body of `sys_read` and `sys_write`: `refused` is the access
mode that does not allow the transfer, `vop` the vnode operation's result,
with `uio_offset` after it. The value is the number of bytes. -/
def transfer (refused : UInt32) (p : P) (filehandler : ℤ) (vop : Except Errno Int64) :
    Prog Errno (FileState P) ℤ := do
  let a ← lookupFd p filehandler
  let file ← derefFile a
  if file.openFlags &&& oAccmode = refused then Prog.fail .ebadf
  else
    match vop with
    | .error e => Prog.fail e
    | .ok uioOffset => do
      Prog.modify (FileState.setFile a (some { file with offset := uioOffset }))
      pure (uioOffset - file.offset).toInt

/-- `sys_read`. -/
def sysRead (p : P) (filehandler : ℤ) (vop : Except Errno Int64) : Prog Errno (FileState P) ℤ :=
  transfer oWronly p filehandler vop

/-- `sys_write`. -/
def sysWrite (p : P) (filehandler : ℤ) (vop : Except Errno Int64) : Prog Errno (FileState P) ℤ :=
  transfer oRdonly p filehandler vop

/-- `sys_dup2`. -/
def sysDup2 (p : P) (oldfd newfd : ℤ) : Prog Errno (FileState P) Unit := do
  if newfd < 0 ∨ (maxProcessOpenFiles : ℤ) ≤ newfd then Prog.fail .ebadf
  else do
    let a ← lookupFd p oldfd
    if oldfd = newfd then pure ()
    else do
      let s ← Prog.get
      (if (s.fileTable p newfd.toNat).isSome then sysClose p newfd else pure () : Prog Errno (FileState P) Unit)
      Prog.modify (FileState.setSlot p newfd.toNat (some a))
      let file ← derefFile a
      Prog.modify (FileState.setFile a (some { file with references := file.references + 1 }))

/-- The slot that `sys_lseek` reads: its bound is off by one, and slot 16 is
the field `par`. -/
def lseekFd (p : P) (fd : ℤ) : Prog Errno (FileState P) ℕ := fun s =>
  if fd < 0 ∨ (maxProcessOpenFiles : ℤ) < fd then .fail .ebadf s
  else
    match if fd = maxProcessOpenFiles then s.par p else s.fileTable p fd.toNat with
    | none => .fail .ebadf s
    | some a => .ok a s

/-- A case of the `switch` of `sys_lseek`: the new offset, if not negative. -/
def seekTo (a : ℕ) (file : File) (offset : Int64) : Prog Errno (FileState P) ℤ :=
  if offset < 0 then Prog.fail .einval
  else do
    Prog.modify (FileState.setFile a (some { file with offset }))
    pure offset.toInt

/-- `sys_lseek`. -/
def sysLseek (p : P) (fd : ℤ) (pos : Int64) (env : LseekEnv) : Prog Errno (FileState P) ℤ := do
  let a ← lseekFd p fd
  let file ← derefFile a
  if !env.isseekable then Prog.fail .espipe
  else
    match env.stat, env.whence with
    | .error e, _ => Prog.fail e
    | _, .error e => Prog.fail e
    | .ok size, .ok whence =>
      -- `SEEK_SET`, `SEEK_CUR` and `SEEK_END`
      if whence = 0 then seekTo a file pos
      else if whence = 1 then seekTo a file (file.offset + pos)
      else if whence = 2 then seekTo a file (size + pos)
      else Prog.fail .einval

end Calls

end Os161
