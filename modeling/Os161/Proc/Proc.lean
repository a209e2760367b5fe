/-
# Processes and their files

`kern/proc/proc.c`: `open2`, `proc_create`, `proc_create_runprogram` and
`proc_destroy`, over the state of the file calls and the current directory of
each process. What `kmalloc`, `vfs_open` and `lock_create` hand back is an
argument. A block from `kmalloc` holds whatever it held before: for a `struct
proc` that is its `file_table` and `par`, which `proc_create` does not set.

The address space, the threads and the spinlock of a process are left out.
-/
import Os161.Syscall.File

namespace Os161

/-- What a call of `open2` is told by the code it calls. -/
structure Open2Env where
  file : Option (ℕ × File)
  vfsOpen : Except Errno ℕ
  flock : Option ℕ

/-- What `proc_create_runprogram` is told: whether there is memory for the
process and its name, what that memory held, and the opens of the console. -/
structure ProcEnv where
  kmalloc : Bool
  kstrdup : Bool
  fileTable : ℕ → Option ℕ
  par : Option ℕ
  console : ℕ → Open2Env

/-- The files and the current directories. -/
structure ProcState (P : Type) where
  fs : FileState P
  pCwd : P → Option ℕ

variable {P : Type} [DecidableEq P]

/-- `VOP_INCREF`. -/
def FileState.vopIncref (vn : ℕ) (s : FileState P) : FileState P :=
  { s with vnRefs := Function.update s.vnRefs vn (s.vnRefs vn + 1) }

/-- `open2`. -/
def open2 (newproc : P) (env : Open2Env) (flags : UInt32) (descriptor : ℕ) : Prog Errno (FileState P) Unit :=
  match env.file with
  | none => Prog.fail .enfile
  | some (a, stale) => do
    Prog.modify fun s => { s.setFile a (some stale) with kheap := Function.update s.kheap a true }
    match env.vfsOpen with
    | .error e => do
      Prog.modify (FileState.kfreeFile a)
      Prog.fail e
    | .ok vn => do
      Prog.modify (FileState.vopIncref vn)
      Prog.modify (FileState.setFile a (some { stale with vPtr := vn }))
      match env.flock with
      | none => do
        Prog.modify (FileState.vfsClose vn)
        Prog.modify (FileState.kfreeFile a)
        Prog.fail .enfile
      | some lk => do
        Prog.modify fun s => { s with locks := Function.update s.locks lk true }
        Prog.modify (FileState.setFile a (some ⟨vn, flags, 1, lk, 0⟩))
        Prog.modify (FileState.setSlot newproc descriptor (some a))

/-- `if (newproc->file_table[d] == NULL) KASSERT(open2(...) == 0)`. -/
def openConsole (newproc : P) (env : Open2Env) (flags : UInt32) (d : ℕ) : Prog Errno (FileState P) Unit := do
  let s ← Prog.get
  if s.fileTable newproc d = none then do
    let result : Except Errno Unit ← Prog.attempt (open2 newproc env flags d)
    Prog.assert (result.isOk = true)
  else pure ()

/-- `proc_create`: the memory of the new process is taken as it is. -/
def procCreate (newproc : P) (env : ProcEnv) : Prog Errno (ProcState P) Unit :=
  if env.kmalloc = false ∨ env.kstrdup = false then Prog.fail .enomem
  else Prog.modify fun s =>
    { fs := { s.fs with
        fileTable := Function.update s.fs.fileTable newproc env.fileTable
        par := Function.update s.fs.par newproc env.par }
      pCwd := Function.update s.pCwd newproc none }

omit [DecidableEq P] in
/-- An operation on the files. -/
def ProcState.files {α : Type} (m : Prog Errno (FileState P) α) : Prog Errno (ProcState P) α :=
  Prog.zoom ProcState.fs (fun f s => { s with fs := f }) m

/-- The current directory of `curproc` is the new process's too. -/
def procCopyCwd (curproc newproc : P) : Prog Errno (ProcState P) Unit := do
  let s ← Prog.get
  match s.pCwd curproc with
  | none => pure ()
  | some cwd => do
    ProcState.files (Prog.modify (FileState.vopIncref cwd))
    Prog.modify fun s => { s with pCwd := Function.update s.pCwd newproc (some cwd) }

/-- `proc_create_runprogram`. -/
def procCreateRunprogram (curproc newproc : P) (env : ProcEnv) : Prog Errno (ProcState P) Unit := do
  procCreate newproc env
  procCopyCwd curproc newproc
  ProcState.files (openConsole newproc (env.console 0) oRdonly 0)
  ProcState.files (openConsole newproc (env.console 1) oWronly 1)
  ProcState.files (openConsole newproc (env.console 2) oWronly 2)

/-- `proc_destroy`. -/
def procDestroy (proc : P) : Prog Errno (ProcState P) Unit := do
  let s ← Prog.get
  match s.pCwd proc with
  | none => pure ()
  | some cwd => do
    -- `VOP_DECREF`, which is all that `vfs_close` does
    ProcState.files (Prog.modify (FileState.vfsClose cwd))
    Prog.modify fun s => { s with pCwd := Function.update s.pCwd proc none }

end Os161
