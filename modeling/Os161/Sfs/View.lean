/-
# What a volume holds

`Volume` is what a mounted volume holds apart from the workings of its disk:
the freemap, the loaded vnodes and the sectors. From it are read the inodes
(`inode`: in memory if the vnode is loaded, on the disk if not), the blocks of
each file (`fileBlock`, 0 for a hole) and its bytes. The changes the code makes
to it are here too: a block written or taken, an inode changed.
-/
import Os161.Sfs.Io

namespace Os161

/-- The pointers of an inode to blocks: the indirect block, and block `k` of
the file (direct or an entry of the indirect block). -/
inductive FilePtr
  | indirect
  | data (k : Fin 143)

/-- The contents of a mounted volume. -/
structure Volume where
  nblocks : ℕ
  vnodes : List ℕ
  marks : ℕ → Bool
  sv : ℕ → SfsVnode
  sec : ℕ → Block

/-- The volume of a state. Blocks the freemap does not reach count as marked. -/
def SfsFs.volume (s : SfsFs Lhd) : Volume where
  nblocks := s.sbNblocks
  vnodes := s.sfsVnodes
  marks := fun b => decide (s.sfsFreemap.nbits ≤ b) || s.sfsFreemap.bit b
  sv := s.sv
  sec := s.sfsDevice.sectors

namespace Volume

variable (v : Volume)

/-- The inode `ino`. -/
def inode (ino : ℕ) : Block := if ino ∈ v.vnodes then (v.sv ino).svI else v.sec ino

/-- The disk block of block `k` of file `ino`. -/
def fileBlock (ino k : ℕ) : ℕ :=
  if k < 15 then (v.inode ino).sfiDirect k
  else if k < 143 then
    if (v.inode ino).sfiIndirect = 0 then 0 else (v.sec (v.inode ino).sfiIndirect).entry (k - 15)
  else 0

/-- The block a pointer names, or 0. -/
def ptr (ino : ℕ) : FilePtr → ℕ
  | .indirect => (v.inode ino).sfiIndirect
  | .data k => v.fileBlock ino k

/-- Byte `pos` of file `ino`, 0 in a hole. -/
def byte (ino pos : ℕ) : UInt8 :=
  if v.fileBlock ino (pos / 512) = 0 then 0 else (v.sec (v.fileBlock ino (pos / 512))).get (pos % 512)

/-! ### Changes -/

/-- Write a block. -/
def store (b : ℕ) (data : Block) : Volume := { v with sec := Function.update v.sec b data }

/-- Take a block, cleared. -/
def alloc (b : ℕ) : Volume :=
  { v with
    marks := Function.update v.marks b true
    sec := Function.update v.sec b Block.zeros }

/-- Change the structure of a vnode. -/
def setSv (ino : ℕ) (f : SfsVnode → SfsVnode) : Volume :=
  { v with sv := Function.update v.sv ino (f (v.sv ino)) }

/-- Change `sv_i` and set `sv_dirty`. -/
def setInode (ino : ℕ) (f : Block → Block) : Volume :=
  v.setSv ino fun x => { x with svI := f x.svI, svDirty := true }

variable {v}

theorem store_sec {b c : ℕ} {data : Block} (h : c ≠ b) : (v.store b data).sec c = v.sec c :=
  Function.update_of_ne h _ _

theorem alloc_sec {b c : ℕ} (h : c ≠ b) : (v.alloc b).sec c = v.sec c := Function.update_of_ne h _ _

theorem alloc_sec_self (b : ℕ) : (v.alloc b).sec b = Block.zeros := Function.update_self _ _ _

theorem setInode_sv_self (ino : ℕ) (f : Block → Block) :
    (v.setInode ino f).sv ino = { v.sv ino with svI := f (v.sv ino).svI, svDirty := true } :=
  Function.update_self _ _ _

theorem inode_setInode_self {ino : ℕ} (f : Block → Block) (h : ino ∈ v.vnodes) :
    (v.setInode ino f).inode ino = f (v.inode ino) := by
  have h' : ino ∈ (v.setInode ino f).vnodes := h
  unfold inode
  rw [if_pos h, if_pos h', setInode_sv_self]

end Volume

end Os161
