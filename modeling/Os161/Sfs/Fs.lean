/-
# The volume and its vnodes

The structures of `kern/include/kern/sfs.h` and `kern/include/sfs.h`, and
`sfs_balloc.c`. An on-disk inode is a block read through its fields; the copy
in memory (`sv_i`) is the same block.

A vnode is known by its inode number: `sfs_vnodes` is the list of the loaded
ones and `sv` their structures. Whether each coming `kmalloc` succeeds is part
of the state (`kmallocs`). The operations run under the big lock, one at a
time, so it is left out.
-/
import Os161.Sfs.Rwblock
import Os161.Kern.Bitmap

namespace Os161

/-- `SFS_NDIRECT`. -/
def sfsNdirect : ℕ := 15

/-- `SFS_DBPERIDB`. -/
def sfsDbperidb : ℕ := 128

/-- `SFS_NAMELEN`. -/
def sfsNamelen : ℕ := 60

/-- `SFS_FREEMAP_START`. -/
def sfsFreemapStart : ℕ := 2

/-- `SFS_ROOTDIR_INO`. -/
def sfsRootdirIno : ℕ := 1

/-- `SFS_FREEMAPBITS`, in 32 bits. -/
def sfsFreemapbits (nblocks : ℕ) : ℕ := wadd nblocks 4095 / 4096 * 4096

/-- `SFS_FREEMAPBLOCKS`. -/
def sfsFreemapblocks (nblocks : ℕ) : ℕ := sfsFreemapbits nblocks / 4096

theorem sfsFreemapblocks_eq (nblocks : ℕ) : sfsFreemapblocks nblocks = wadd nblocks 4095 / 4096 :=
  Nat.mul_div_cancel _ (by decide)

theorem sfsFreemapblocks_of_lt {nblocks : ℕ} (h : nblocks + 4095 < 2 ^ 32) :
    sfsFreemapblocks nblocks = (nblocks + 4095) / 4096 := by
  rw [sfsFreemapblocks_eq, wadd_of_lt h]

/-- `SFS_TYPE_INVAL`, `SFS_TYPE_FILE` and `SFS_TYPE_DIR`. -/
def sfsTypeInval : ℕ := 0
@[inherit_doc sfsTypeInval] def sfsTypeFile : ℕ := 1
@[inherit_doc sfsTypeInval] def sfsTypeDir : ℕ := 2

/-! ### `struct sfs_dinode` -/

namespace Block

variable (i : Block)

def sfiSize : ℕ := Bytes.field i 0 4
def sfiType : ℕ := Bytes.field i 4 2
def sfiLinkcount : ℕ := Bytes.field i 6 2
def sfiDirect (k : ℕ) : ℕ := Bytes.field i (8 + 4 * k) 4
def sfiIndirect : ℕ := Bytes.field i 68 4

def setSize (v : ℕ) : Block := Bytes.setField i 0 4 v
def setType (v : ℕ) : Block := Bytes.setField i 4 2 v
def setLinkcount (v : ℕ) : Block := Bytes.setField i 6 2 v
def setDirect (k v : ℕ) : Block := Bytes.setField i (8 + 4 * k) 4 v
def setIndirect (v : ℕ) : Block := Bytes.setField i 68 4 v

/-- `idbuf[j]` of an indirect block. -/
def entry (j : ℕ) : ℕ := Bytes.field i (4 * j) 4
def setEntry (j v : ℕ) : Block := Bytes.setField i (4 * j) 4 v

/-- A block of zeros. -/
def zeros : Block := fun _ => 0

end Block

/-- `struct sfs_vnode`, with the count of its `struct vnode`. -/
structure SfsVnode where
  svI : Block
  svDirty : Bool
  vnRefcount : ℕ

/-- `struct sfs_fs`. -/
structure SfsFs (δ : Type) where
  sbNblocks : ℕ
  sfsDevice : δ
  sfsVnodes : List ℕ
  sfsFreemap : Freemap
  sfsFreemapdirty : Bool
  sv : ℕ → SfsVnode
  kmallocs : ℕ → Bool

variable {δ : Type}

/-- Update the structure of a vnode. -/
def SfsFs.setSv (ino : ℕ) (f : SfsVnode → SfsVnode) (s : SfsFs δ) : SfsFs δ :=
  { s with sv := Function.update s.sv ino (f (s.sv ino)) }

/-- Update `sv_i` and set `sv_dirty`. -/
def SfsFs.setInode (ino : ℕ) (f : Block → Block) (s : SfsFs δ) : SfsFs δ :=
  s.setSv ino fun v => { v with svI := f v.svI, svDirty := true }

namespace Sfs

/-- An operation of the device. -/
def dev {α : Type} (m : Prog Errno δ α) : Prog Errno (SfsFs δ) α :=
  Prog.zoom SfsFs.sfsDevice (fun d s => { s with sfsDevice := d }) m

/-- An operation on the freemap. -/
def freemap {α : Type} (m : Prog Errno Freemap α) : Prog Errno (SfsFs δ) α :=
  Prog.zoom SfsFs.sfsFreemap (fun b s => { s with sfsFreemap := b }) m

/-- A `kmalloc`, or an operation that needs one. -/
def kmalloc : Prog Errno (SfsFs δ) Unit := fun s =>
  let t := { s with kmallocs := fun i => s.kmallocs (i + 1) }
  if s.kmallocs 0 then .ok () t else .fail .enomem t

end Sfs

variable [DevOps δ]

/-! ### Block allocation -/

/-- `sfs_clearblock`. -/
def sfsClearblock (block : ℕ) : Prog Errno (SfsFs δ) Unit := Sfs.dev (sfsWriteblock block Block.zeros)

/-- `sfs_balloc`. -/
def sfsBalloc : Prog Errno (SfsFs δ) ℕ := do
  let diskblock ← Sfs.freemap bitmapAlloc
  Prog.modify fun s => { s with sfsFreemapdirty := true }
  let nblocks ← Prog.gets SfsFs.sbNblocks
  -- "balloc: invalid block"
  Prog.assert (diskblock < nblocks)
  let result : Except Errno Unit ← Prog.attempt (sfsClearblock diskblock)
  match result with
  | .ok _ => pure diskblock
  | .error e => do
    Sfs.freemap (bitmapUnmark diskblock)
    Prog.fail e

omit [DevOps δ] in
/-- `sfs_bfree`. -/
def sfsBfree (diskblock : ℕ) : Prog Errno (SfsFs δ) Unit := do
  Sfs.freemap (bitmapUnmark diskblock)
  Prog.modify fun s => { s with sfsFreemapdirty := true }

omit [DevOps δ] in
/-- `sfs_bused`. -/
def sfsBused (diskblock : ℕ) : Prog Errno (SfsFs δ) Bool := do
  let nblocks ← Prog.gets SfsFs.sbNblocks
  -- "sfs_bused called on out of range block"
  Prog.assert (diskblock < nblocks)
  Prog.gets fun s => bitmapIsset s.sfsFreemap diskblock

end Os161
