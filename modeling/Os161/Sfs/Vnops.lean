/-
# Reading and writing files

`sfs_read` and `sfs_write` of `sfs_vnops.c`, as the table of file operations
has them.
-/
import Os161.Sfs.Io

namespace Os161

variable {δ : Type} [DevOps δ]

/-- `sfs_read`, in the table of files. -/
def sfsRead (sv : ℕ) : Prog Errno (SfsFs δ × Uio) Unit := do
  let u ← Prog.gets Prod.snd
  Prog.assert (u.uioRw = .read)
  sfsIo sv

/-- `sfs_write`, in the table of files. -/
def sfsWrite (sv : ℕ) : Prog Errno (SfsFs δ × Uio) Unit := do
  let u ← Prog.gets Prod.snd
  Prog.assert (u.uioRw = .write)
  sfsIo sv

end Os161
