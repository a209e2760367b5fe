/-
# The table of devices

`kern/vfs/vfslist.c`: the table `knowndevs` of named devices with what is
mounted on them, the operations that change it, and `vfs_getroot`, which
turns a name into a vnode by the first entry that answers to it.

The big lock makes each operation one step. Whether each coming `kmalloc`
succeeds is part of the state; what a file system's own operations return is
an argument. The number stored in a `struct device` is left out.
-/
import Os161.Kern.Uio

namespace Os161

/-- A C string. -/
abbrev CStr := List UInt8

/-- `kd_fs`: nothing, `SWAP_FS`, or a file system. -/
inductive KdFs (F : Type)
  | none
  | swap
  | fs (f : F)

/-- `struct knowndev`. -/
structure Knowndev (F D : Type) where
  kdName : CStr
  kdRawname : Option CStr
  kdDevice : Option D
  kdVnode : ℕ
  kdFs : KdFs F

/-- The device table, the number of vnodes made so far, and the coming
results of `kmalloc`. -/
structure Vfs (F D : Type) where
  knowndevs : List (Knowndev F D)
  vnodes : ℕ
  kmallocs : ℕ → Bool

/-- What `vfs_getroot` hands back. -/
inductive Root (F : Type)
  | fsRoot (f : F)
  | vnode (v : ℕ)

variable {F D : Type}

/-- A file system and its `FSOP_GETVOLNAME`. -/
class FsOps (F : Type) where
  volname : F → Option CStr

/-- A `kmalloc`, or a call that needs one. -/
def Vfs.kmalloc : Prog Errno (Vfs F D) Unit := fun s =>
  let t := { s with kmallocs := fun i => s.kmallocs (i + 1) }
  if s.kmallocs 0 then .ok () t else .fail .enomem t

/-- `mkrawname`: the name with "raw" after it. -/
def mkrawname (name : CStr) : CStr := name ++ [114, 97, 119]

variable [FsOps F]

/-- `FSOP_GETVOLNAME` of what is mounted. -/
def KdFs.volname : KdFs F → Option CStr
  | .fs f => FsOps.volname f
  | _ => .none

/-- `samestring`. -/
def samestring (a b : Option CStr) : Bool := a.isSome && a == b

/-- `samestring3`. -/
def samestring3 (a b c d : Option CStr) : Bool := samestring a b || samestring a c || samestring a d

/-- `badnames`. -/
def badnames (n1 n2 n3 : Option CStr) (kds : List (Knowndev F D)) : Bool :=
  kds.any fun kd => samestring3 kd.kdFs.volname n1 n2 n3 ||
    (samestring3 kd.kdRawname n1 n2 n3 || samestring3 (some kd.kdName) n1 n2 n3)

/-- `vfs_doadd`. -/
def vfsDoadd (dname : CStr) (mountable : Bool) (dev : Option D) (fs : KdFs F) : Prog Errno (Vfs F D) Unit := do
  -- `kstrdup`
  Vfs.kmalloc
  (if mountable then Vfs.kmalloc else pure () : Prog Errno (Vfs F D) Unit)
  let rawname := if mountable then some (mkrawname dname) else none
  -- `dev_create_vnode`
  Vfs.kmalloc
  let vnode ← Prog.gets Vfs.vnodes
  Prog.modify fun s => { s with vnodes := s.vnodes + 1 }
  Vfs.kmalloc
  let kds ← Prog.gets Vfs.knowndevs
  if badnames (some dname) rawname fs.volname kds then Prog.fail .eexist
  else do
    -- `knowndevarray_add`
    Vfs.kmalloc
    Prog.modify fun s => { s with knowndevs := s.knowndevs ++ [⟨dname, rawname, dev, vnode, fs⟩] }

/-- `vfs_adddev`. -/
def vfsAdddev (devname : CStr) (dev : D) (mountable : Bool) : Prog Errno (Vfs F D) Unit :=
  vfsDoadd devname mountable (some dev) .none

/-- `vfs_addfs`. -/
def vfsAddfs (devname : CStr) (fs : F) : Prog Errno (Vfs F D) Unit := vfsDoadd devname false none (.fs fs)

omit [FsOps F] in
/-- `findmount`: the entry, with what is before and after it in the table. -/
def findmount (devname : CStr) :
    List (Knowndev F D) → Option (List (Knowndev F D) × Knowndev F D × List (Knowndev F D))
  | [] => none
  | kd :: rest =>
    if kd.kdRawname.isSome ∧ devname = kd.kdName then some ([], kd, rest)
    else (findmount devname rest).map fun x => (kd :: x.1, x.2.1, x.2.2)

omit [FsOps F] in
/-- Store `kd_fs` of the entry that `findmount` found. -/
def setKdFs (x : List (Knowndev F D) × Knowndev F D × List (Knowndev F D)) (fs : KdFs F) :
    Prog Errno (Vfs F D) Unit :=
  Prog.modify fun s => { s with knowndevs := x.1 ++ { x.2.1 with kdFs := fs } :: x.2.2 }

omit [FsOps F] in
/-- The mountable entry `devname`; ENODEV if there is none. -/
def findmountM (devname : CStr) :
    Prog Errno (Vfs F D) (List (Knowndev F D) × Knowndev F D × List (Knowndev F D)) := fun s =>
  match findmount devname s.knowndevs with
  | none => .fail .enodev s
  | some x => .ok x s

omit [FsOps F] in
/-- `vfs_mount`; `mountfunc` hands back a file system or an error. -/
def vfsMount (devname : CStr) (mountfunc : D → Except Errno F) : Prog Errno (Vfs F D) Unit := do
  let x ← findmountM devname
  match x.2.1.kdFs, x.2.1.kdDevice with
  | .none, some dev =>
    match mountfunc dev with
    | .error e => Prog.fail e
    | .ok fs => setKdFs x (.fs fs)
  -- `KASSERT(kd->kd_device != NULL)`
  | .none, none => Prog.stop
  | _, _ => Prog.fail .ebusy

omit [FsOps F] in
/-- `vfs_swapon` without the colon that `devname` may end in. -/
def vfsSwaponName (devname : CStr) : Prog Errno (Vfs F D) Unit := do
  let x ← findmountM devname
  match x.2.1.kdFs, x.2.1.kdDevice with
  | .none, some _ => setKdFs x .swap
  -- `KASSERT(kd->kd_device != NULL)`
  | .none, none => Prog.stop
  | _, _ => Prog.fail .ebusy

omit [FsOps F] in
/-- `vfs_swapon`. -/
def vfsSwapon (devname : CStr) : Prog Errno (Vfs F D) Unit :=
  -- 58 is the colon
  if devname.getLast? = some 58 then do
    Vfs.kmalloc
    vfsSwaponName devname.dropLast
  else vfsSwaponName devname

omit [FsOps F] in
/-- `vfs_unmount`; `sync` and `unmount` are the results of `FSOP_SYNC` and
`FSOP_UNMOUNT`. -/
def vfsUnmount (devname : CStr) (sync unmount : Except Errno Unit) : Prog Errno (Vfs F D) Unit := do
  let x ← findmountM devname
  match x.2.1.kdFs, sync, unmount with
  | .fs _, .ok _, .ok _ => setKdFs x .none
  | .fs _, .error e, _ => Prog.fail e
  | .fs _, .ok _, .error e => Prog.fail e
  | _, _, _ => Prog.fail .einval

omit [FsOps F] in
/-- `vfs_swapoff`. -/
def vfsSwapoff (devname : CStr) : Prog Errno (Vfs F D) Unit := do
  let x ← findmountM devname
  match x.2.1.kdFs with
  | .swap => setKdFs x .none
  | _ => Prog.fail .einval

/-- The body of the loop of `vfs_getroot`: what entry `kd` answers to
`devname`, if it does. -/
def Knowndev.answer (devname : CStr) (kd : Knowndev F D) : Option (Outcome Errno Unit (Root F)) :=
  -- the device itself
  let self : Outcome Errno Unit (Root F) := if kd.kdDevice.isSome then .ok (.vnode kd.kdVnode) () else .stop
  match kd.kdFs with
  | .fs f =>
    if kd.kdName = devname ∨ FsOps.volname f = some devname then some (.ok (.fsRoot f) ())
    else if kd.kdRawname = some devname then some self
    else none
  | fs =>
    if kd.kdName = devname then
      if kd.kdRawname.isSome then some (.fail .enxio ())
      else
        match fs with
        | .swap => some .stop
        | _ => some self
    else if kd.kdRawname = some devname then some self
    else none

/-- `vfs_getroot`. -/
def vfsGetroot (devname : CStr) (kds : List (Knowndev F D)) : Outcome Errno Unit (Root F) :=
  (kds.findSome? (Knowndev.answer devname)).getD (.fail .enodev ())

end Os161
