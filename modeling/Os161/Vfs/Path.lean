/-
# Path names

`kern/vfs/vfslookup.c`, `vfspath.c` and `vfscwd.c`: the vnode that a path
leads to, the operations on paths, and the current directory.

File systems are reached through their tables of functions, as in the kernel:
`VnodeOps` has the entries that these files call, over a type of vnodes and a
type of file systems. The big lock makes each operation one step. `getdevice`
ends the name of the device by storing over the colon; no caller looks at the
path again, so the path is an argument here.
-/
import Os161.Vfs.Vfslist
import Os161.Lib.Wlp
import Os161.Syscall.File

namespace Os161

/-- `O_RDWR`, `O_CREAT`, `O_EXCL`, `O_TRUNC` and `O_APPEND`. -/
def oRdwr : UInt32 := 2
@[inherit_doc oRdwr] def oCreat : UInt32 := 4
@[inherit_doc oRdwr] def oExcl : UInt32 := 8
@[inherit_doc oRdwr] def oTrunc : UInt32 := 16
@[inherit_doc oRdwr] def oAppend : UInt32 := 32

/-- `NAME_MAX`. -/
def nameMax : ℕ := 255

/-- `S_IFREG`, `S_IFDIR`, `S_IFCHR` and `S_IFBLK`. -/
def sIfreg : ℕ := 0x1000
@[inherit_doc sIfreg] def sIfdir : ℕ := 0x2000
@[inherit_doc sIfreg] def sIfchr : ℕ := 0x6000
@[inherit_doc sIfreg] def sIfblk : ℕ := 0x7000

/-- The colon and the slash. -/
def colon : UInt8 := 58
@[inherit_doc colon] def slash : UInt8 := 47

/-- The entries of `struct vnode_ops` and `struct fs_ops`, `vn_fs`, the vnode
of a device of the table, and `VOP_INCREF` and `VOP_DECREF`. -/
structure VnodeOps (σ V F : Type) where
  vnFs : V → Option F
  kdVnode : ℕ → V
  incref : V → Prog Errno σ Unit
  decref : V → Prog Errno σ Unit
  volname : F → Option CStr
  getroot : F → Prog Errno σ V
  lookup : V → CStr → Prog Errno σ V
  lookparent : V → CStr → ℕ → Prog Errno σ (V × CStr)
  eachopen : V → UInt32 → Prog Errno σ Unit
  gettype : V → Prog Errno σ ℕ
  truncate : V → ℕ → Prog Errno σ Unit
  creat : V → CStr → Bool → UInt32 → Prog Errno σ V
  link : V → CStr → V → Prog Errno σ Unit
  remove : V → CStr → Prog Errno σ Unit
  rename : V → CStr → V → CStr → Prog Errno σ Unit

/-- The file systems, the table of devices, `p_cwd` and `bootfs_vnode`. -/
structure Kernel (σ V F : Type) where
  fss : σ
  knowndevs : List (Knowndev F Unit)
  pCwd : Option V
  bootfsVnode : Option V

namespace Kernel

variable {σ V F α : Type}

/-- A call of a file system. -/
def fs (m : Prog Errno σ α) : Prog Errno (Kernel σ V F) α :=
  Prog.zoom Kernel.fss (fun x s => { s with fss := x }) m

theorem wlp_fs {S : Prop} {m : Prog Errno σ α} {Q : α → Kernel σ V F → Prop} {E : Errno → Kernel σ V F → Prop}
    {s : Kernel σ V F} : Prog.wlp S (fs m) Q E s ↔
      Prog.wlp S m (fun a x => Q a { s with fss := x }) (fun e x => E e { s with fss := x }) s.fss := Prog.wlp_zoom ..

end Kernel

variable {σ V F : Type} (ops : VnodeOps σ V F)

/-- `VOP_INCREF` and `VOP_DECREF`, which do not return a result. -/
def vopIncref (v : V) : Prog Errno (Kernel σ V F) Unit := do
  let _result : Except Errno Unit ← Prog.attempt (Kernel.fs (ops.incref v))
  pure ()

@[inherit_doc vopIncref]
def vopDecref (v : V) : Prog Errno (Kernel σ V F) Unit := do
  let _result : Except Errno Unit ← Prog.attempt (Kernel.fs (ops.decref v))
  pure ()

section Rules

variable {ops} {S : Prop} {Q : Unit → Kernel σ V F → Prop} {E : Errno → Kernel σ V F → Prop} {s : Kernel σ V F} {v : V}

end Rules

/-- `vfs_getroot`, with the call of the file system. -/
def vfsGetrootVnode (devname : CStr) : Prog Errno (Kernel σ V F) V := do
  let kds ← Prog.gets Kernel.knowndevs
  match @vfsGetroot F Unit ⟨ops.volname⟩ devname kds with
  | .ok (.fsRoot f) _ => Kernel.fs (ops.getroot f)
  | .ok (.vnode n) _ => do
    vopIncref ops (ops.kdVnode n)
    pure (ops.kdVnode n)
  | .fail e _ => Prog.fail e
  | .stop => Prog.stop

/-- `vfs_getcurdir`. -/
def vfsGetcurdir : Prog Errno (Kernel σ V F) V := do
  let cwd ← Prog.gets Kernel.pCwd
  match cwd with
  | some v => do
    vopIncref ops v
    pure v
  | none => Prog.fail .enoent

/-- `FSOP_GETROOT` of the file system of the current directory. -/
def curdirRoot : Prog Errno (Kernel σ V F) V := do
  let vn ← vfsGetcurdir ops
  match ops.vnFs vn with
  -- `KASSERT(vn->vn_fs!=NULL)`
  | none => Prog.stop
  | some f => Prog.ensure (Kernel.fs (ops.getroot f)) (vopDecref ops vn)

/-- The vnode where a path from the boot file system starts. -/
def bootfsRoot : Prog Errno (Kernel σ V F) V := do
  let bootfs ← Prog.gets Kernel.bootfsVnode
  match bootfs with
  | some v => do
    vopIncref ops v
    pure v
  | none => Prog.fail .enoent

/-- `getdevice`: the rest of the path, and the vnode where it starts. -/
def getdevice (path : CStr) : Prog Errno (Kernel σ V F) (CStr × V) :=
  -- up to the first colon or slash
  let name := path.takeWhile fun c => c ≠ colon ∧ c ≠ slash
  let rest := path.dropWhile fun c => c ≠ colon ∧ c ≠ slash
  let subpath := rest.tail.dropWhile fun c => c = slash
  if path = [] then Prog.fail .einval
  else if rest.head? ≠ some colon ∧ ¬ (rest.head? = some slash ∧ name = []) then do
    let startvn ← vfsGetcurdir ops
    pure (path, startvn)
  else if name ≠ [] then do
    let startvn ← vfsGetrootVnode ops name
    pure (subpath, startvn)
  else do
    let startvn ← (if rest.head? = some slash then bootfsRoot ops else curdirRoot ops)
    pure (subpath, startvn)

/-- `vfs_lookparent`: the directory and the last name. -/
def vfsLookparent (path : CStr) (buflen : ℕ) : Prog Errno (Kernel σ V F) (V × CStr) := do
  let x ← getdevice ops path
  Prog.ensure (if x.1 = [] then Prog.fail .einval else Kernel.fs (ops.lookparent x.2 x.1 buflen))
    (vopDecref ops x.2)

/-- `vfs_lookup`. -/
def vfsLookup (path : CStr) : Prog Errno (Kernel σ V F) V := do
  let x ← getdevice ops path
  if x.1 = [] then pure x.2
  else Prog.ensure (Kernel.fs (ops.lookup x.2 x.1)) (vopDecref ops x.2)

/-- `vfs_open` up to the vnode. -/
def vfsOpenVnode (path : CStr) (openflags mode : UInt32) : Prog Errno (Kernel σ V F) V :=
  if openflags &&& oCreat ≠ 0 then do
    let x ← vfsLookparent ops path (nameMax + 1)
    Prog.ensure (Kernel.fs (ops.creat x.1 x.2 (openflags &&& oExcl ≠ 0) mode)) (vopDecref ops x.1)
  else vfsLookup ops path

/-- `VOP_TRUNCATE` for `O_TRUNC`. -/
def vfsOpenTrunc (openflags : UInt32) (vn : V) : Prog Errno (Kernel σ V F) Unit :=
  if openflags &&& oTrunc ≠ 0 then
    if openflags &&& oAccmode = oRdonly then Prog.fail .einval else Kernel.fs (ops.truncate vn 0)
  else pure ()

/-- `vfs_open`. -/
def vfsOpen (path : CStr) (openflags mode : UInt32) : Prog Errno (Kernel σ V F) V :=
  if openflags &&& oAccmode ≠ oRdonly ∧ openflags &&& oAccmode ≠ oWronly ∧ openflags &&& oAccmode ≠ oRdwr then
    Prog.fail .einval
  else do
    let vn ← vfsOpenVnode ops path openflags mode
    Prog.onFail (Kernel.fs (ops.eachopen vn openflags)) (vopDecref ops vn)
    Prog.onFail (vfsOpenTrunc ops openflags vn) (vopDecref ops vn)
    pure vn

/-- `vfs_remove`. -/
def vfsRemove (path : CStr) : Prog Errno (Kernel σ V F) Unit := do
  let dir ← vfsLookparent ops path (nameMax + 1)
  Prog.ensure (Kernel.fs (ops.remove dir.1 dir.2)) (vopDecref ops dir.1)

/-- The vnodes are of one file system. -/
def sameFs [DecidableEq F] (v w : V) : Bool := (ops.vnFs v).isSome && ops.vnFs v = ops.vnFs w

/-- `vfs_rename`. -/
def vfsRename [DecidableEq F] (oldpath newpath : CStr) : Prog Errno (Kernel σ V F) Unit := do
  let olddir ← vfsLookparent ops oldpath (nameMax + 1)
  let newdir ← Prog.onFail (vfsLookparent ops newpath (nameMax + 1)) (vopDecref ops olddir.1)
  Prog.ensure
    (if sameFs ops olddir.1 newdir.1 then Kernel.fs (ops.rename olddir.1 olddir.2 newdir.1 newdir.2) else Prog.fail .exdev)
    (do
      vopDecref ops newdir.1
      vopDecref ops olddir.1)

/-- `vfs_link`. -/
def vfsLink [DecidableEq F] (oldpath newpath : CStr) : Prog Errno (Kernel σ V F) Unit := do
  let oldfile ← vfsLookup ops oldpath
  let newdir ← Prog.onFail (vfsLookparent ops newpath (nameMax + 1)) (vopDecref ops oldfile)
  Prog.ensure
    (if sameFs ops oldfile newdir.1 then Kernel.fs (ops.link newdir.1 newdir.2 oldfile) else Prog.fail .exdev)
    (do
      vopDecref ops newdir.1
      vopDecref ops oldfile)

/-- `vfs_setcurdir`. -/
def vfsSetcurdir (dir : V) : Prog Errno (Kernel σ V F) Unit := do
  let vtype ← Kernel.fs (ops.gettype dir)
  if vtype ≠ sIfdir then Prog.fail .enotdir
  else do
    vopIncref ops dir
    let old ← Prog.gets Kernel.pCwd
    Prog.modify fun s => { s with pCwd := some dir }
    match old with
    | some v => vopDecref ops v
    | none => pure ()

/-- `vfs_chdir`. -/
def vfsChdir (path : CStr) : Prog Errno (Kernel σ V F) Unit := do
  let vn ← vfsLookup ops path
  Prog.ensure (vfsSetcurdir ops vn) (vopDecref ops vn)

end Os161
