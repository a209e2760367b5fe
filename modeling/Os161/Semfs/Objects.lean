/-
# The objects of semfs

`kern/fs/semfs/semfs_obj.c` and the operations of `semfs_vnops.c` that make
and destroy semaphores, directory entries and vnodes, with `vnode_incref` and
`vnode_decref` of `kern/vfs/vnode.c`. Each operation is one step and every
allocation succeeds, so the error paths of `semfs_creat` after a failed
allocation are left out, and so are the locks.

An object has the number of its allocation (`id`), and each of the three kinds
has a heap that counts the allocations and records what was freed.
-/
import Os161.Lib.Objects
import Os161.Lib.Prog
import Os161.Kern.Uio

namespace Os161

/-- `SEMFS_ROOTDIR`. -/
def semfsRootdir : ℕ := 0xffffffff

/-- `struct semfs_sem`, for its lifetime. -/
structure SemEntry where
  id : ℕ
  semsHasvnode : Bool
  semsLinked : Bool

/-- `struct semfs_direntry`. -/
structure SemfsDirentry where
  id : ℕ
  semdName : String
  semdSemnum : ℕ

/-- `struct semfs_vnode`, with the count of its `struct vnode`. -/
structure SemfsVnode where
  id : ℕ
  semvSemnum : ℕ
  vnRefcount : ℕ

/-- The allocations of objects of one kind. -/
structure ObjHeap where
  next : ℕ
  freed : List ℕ

def ObjHeap.alloc (h : ObjHeap) : ObjHeap := { h with next := h.next + 1 }

def ObjHeap.free (id : ℕ) (h : ObjHeap) : ObjHeap := { h with freed := id :: h.freed }

/-- `struct semfs`, and the heaps its objects come from. -/
structure Semfs where
  semfsVnodes : List SemfsVnode
  semfsSems : SlotTable SemEntry
  semfsDents : SlotTable SemfsDirentry
  semHeap : ObjHeap
  dentHeap : ObjHeap
  vnodeHeap : ObjHeap

namespace Semfs

/-- Semaphore number `n`. -/
def sem (s : Semfs) (n : ℕ) : Option SemEntry := s.semfsSems.slot n

/-- Slot `i` of the directory. -/
def dent (s : Semfs) (i : ℕ) : Option SemfsDirentry := s.semfsDents.slot i

/-- The loaded vnode `v`. -/
def vnode (s : Semfs) (v : ℕ) : Option SemfsVnode := Keyed.get SemfsVnode.id s.semfsVnodes v

/-- `semfs_create`. -/
def create : Semfs := ⟨[], [], [], ⟨0, []⟩, ⟨0, []⟩, ⟨0, []⟩⟩

/-! ### `semfs_obj.c` -/

/-- `semfs_sem_create`. -/
def semCreate : Prog Errno Semfs SemEntry := do
  let s ← Prog.get
  Prog.modify fun s => { s with semHeap := s.semHeap.alloc }
  pure ⟨s.semHeap.next, false, false⟩

/-- `semfs_sem_destroy`. -/
def semDestroy (sem : SemEntry) : Prog Errno Semfs Unit :=
  Prog.modify fun s => { s with semHeap := s.semHeap.free sem.id }

/-- `semfs_sem_insert`. -/
def semInsert (sem : SemEntry) : Prog Errno Semfs ℕ := do
  let s ← Prog.get
  if s.semfsSems.length = semfsRootdir then Prog.fail .enospc
  else do
    let i := s.semfsSems.firstEmpty
    Prog.modify fun s => { s with semfsSems := s.semfsSems.put i sem }
    pure i

/-- `semfs_direntry_create`. -/
def direntryCreate (name : String) (semnum : ℕ) : Prog Errno Semfs SemfsDirentry := do
  let s ← Prog.get
  Prog.modify fun s => { s with dentHeap := s.dentHeap.alloc }
  pure ⟨s.dentHeap.next, name, semnum⟩

/-- `semfs_direntry_destroy`. -/
def direntryDestroy (dent : SemfsDirentry) : Prog Errno Semfs Unit :=
  Prog.modify fun s => { s with dentHeap := s.dentHeap.free dent.id }

/-! ### `semfs_vnops.c` -/

/-- `semfs_semarray_get`; the callers use the semaphore at once. -/
def semarrayGet (semnum : ℕ) : Prog Errno Semfs SemEntry := do
  let s ← Prog.get
  match s.sem semnum with
  | some sem => pure sem
  | none => Prog.stop

/-- `semfs_semarray_set`. -/
def semarraySet (semnum : ℕ) (sem : Option SemEntry) : Prog Errno Semfs Unit :=
  Prog.modify fun s => { s with semfsSems := s.semfsSems.set semnum sem }

/-- `vnode_incref`. -/
def vnodeIncref (v : ℕ) : Prog Errno Semfs Unit :=
  Prog.modify fun s =>
    { s with semfsVnodes := Keyed.modify SemfsVnode.id v (fun w => { w with vnRefcount := w.vnRefcount + 1 }) s.semfsVnodes }

/-- `semfs_vnode_create`, and the vnode goes into the table. -/
def vnodeCreate (semnum : ℕ) : Prog Errno Semfs ℕ := do
  let s ← Prog.get
  let vn : SemfsVnode := ⟨s.vnodeHeap.next, semnum, 1⟩
  Prog.modify fun s => { s with vnodeHeap := s.vnodeHeap.alloc, semfsVnodes := s.semfsVnodes ++ [vn] }
  pure vn.id

/-- `semfs_getvnode`. -/
def getvnode (semnum : ℕ) : Prog Errno Semfs ℕ := do
  let s ← Prog.get
  match s.semfsVnodes.find? fun w => w.semvSemnum = semnum with
  | some vn => do
    vnodeIncref vn.id
    pure vn.id
  | none => do
    let vn ← vnodeCreate semnum
    if semnum ≠ semfsRootdir then do
      let sem ← semarrayGet semnum
      Prog.assert (sem.semsHasvnode = false)
      semarraySet semnum (some { sem with semsHasvnode := true })
    pure vn

/-- The search of the directory: the first entry with the name. -/
def findDent (name : String) (t : SlotTable SemfsDirentry) : Option (ℕ × SemfsDirentry) :=
  (List.range t.length).findSome? fun i =>
    match t.slot i with
    | none => none
    | some dent => if dent.semdName = name then some (i, dent) else none

/-- `semfs_creat`. -/
def creat (name : String) (excl : Bool) : Prog Errno Semfs ℕ := do
  if name = "." ∨ name = ".." then Prog.fail .eexist
  else do
    let s ← Prog.get
    match findDent name s.semfsDents with
    | some (_, dent) => if excl then Prog.fail .eexist else getvnode dent.semdSemnum
    | none => do
      let sem ← semCreate
      let result : Except Errno ℕ ← Prog.attempt (semInsert sem)
      match result with
      | .error e => do
        semDestroy sem
        Prog.fail e
      | .ok semnum => do
        let dent ← direntryCreate name semnum
        Prog.modify fun s => { s with semfsDents := s.semfsDents.put s.semfsDents.firstEmpty dent }
        let vn ← getvnode semnum
        let sem ← semarrayGet semnum
        semarraySet semnum (some { sem with semsLinked := true })
        pure vn

/-- `semfs_remove`. -/
def remove (name : String) : Prog Errno Semfs Unit := do
  if name = "." ∨ name = ".." then Prog.fail .einval
  else do
    let s ← Prog.get
    match findDent name s.semfsDents with
    | none => Prog.fail .enoent
    | some (i, dent) => do
      let sem ← semarrayGet dent.semdSemnum
      Prog.assert (sem.semsLinked = true)
      semarraySet dent.semdSemnum (some { sem with semsLinked := false })
      if sem.semsHasvnode = false then do
        semarraySet dent.semdSemnum none
        semDestroy sem
      Prog.modify fun s => { s with semfsDents := s.semfsDents.set i none }
      direntryDestroy dent

/-- `semfs_lookup`, in the directory `dirvn`. -/
def lookup (dirvn : ℕ) (path : String) : Prog Errno Semfs ℕ := do
  if path = "." ∨ path = ".." then do
    vnodeIncref dirvn
    pure dirvn
  else do
    let s ← Prog.get
    match findDent path s.semfsDents with
    | none => Prog.fail .enoent
    | some (_, dent) => getvnode dent.semdSemnum

/-- `semfs_vnode_destroy`, with the check of `vnode_cleanup`. -/
def vnodeDestroy (vn : SemfsVnode) : Prog Errno Semfs Unit := do
  Prog.assert (vn.vnRefcount = 1)
  Prog.modify fun s => { s with vnodeHeap := s.vnodeHeap.free vn.id }

/-- `vn->vn_refcount--`. -/
def vnodeDrop (v : ℕ) : Prog Errno Semfs Unit :=
  Prog.modify fun s =>
    { s with semfsVnodes := Keyed.modify SemfsVnode.id v (fun w => { w with vnRefcount := w.vnRefcount - 1 }) s.semfsVnodes }

/-- `semfs_reclaim`. -/
def reclaim (vn : SemfsVnode) : Prog Errno Semfs Unit := do
  if 1 < vn.vnRefcount then do
    vnodeDrop vn.id
    Prog.fail .ebusy
  else do
    Prog.modify fun s => { s with semfsVnodes := Keyed.remove SemfsVnode.id vn.id s.semfsVnodes }
    if vn.semvSemnum ≠ semfsRootdir then do
      let sem ← semarrayGet vn.semvSemnum
      Prog.assert (sem.semsHasvnode = true)
      semarraySet vn.semvSemnum (some { sem with semsHasvnode := false })
      if sem.semsLinked = false then do
        semarraySet vn.semvSemnum none
        semDestroy sem
    vnodeDestroy vn

/-- `vnode_decref`. -/
def vnodeDecref (v : ℕ) : Prog Errno Semfs Unit := do
  let s ← Prog.get
  match s.vnode v with
  | none => Prog.stop
  | some vn => do
    Prog.assert (0 < vn.vnRefcount)
    if 1 < vn.vnRefcount then vnodeDrop v
    else do
      -- a result other than `EBUSY` only prints a warning
      let _ : Except Errno Unit ← Prog.attempt (reclaim vn)
      pure ()

end Semfs

end Os161
