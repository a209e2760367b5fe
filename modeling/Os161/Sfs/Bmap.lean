/-
# Block mapping

`sfs_bmap` of `sfs_bmap.c`. The static buffer `idbuf` is local here: every use of it fills
it first.
-/
import Os161.Sfs.Fs

namespace Os161

variable {δ : Type} [DevOps δ]

omit [DevOps δ] in
/-- The end of `sfs_bmap`: a block handed back is marked in use. -/
def sfsBmapCheck (block : ℕ) : Prog Errno (SfsFs δ) ℕ :=
  if block ≠ 0 then do
    let used ← sfsBused block
    -- "Data block marked free"
    Prog.assert (used = true)
    pure block
  else pure block

/-- `sfs_bmap` for a direct block. -/
def sfsBmapDirect (sv fileblock : ℕ) (doalloc : Bool) : Prog Errno (SfsFs δ) ℕ := do
  let block ← Prog.gets fun s => (s.sv sv).svI.sfiDirect fileblock
  if block = 0 ∧ doalloc then do
    let block ← sfsBalloc
    Prog.modify fun s => s.setInode sv fun i => i.setDirect fileblock block
    sfsBmapCheck block
  else sfsBmapCheck block

/-- The indirect block of a file and its contents; one is allocated if there
is none. -/
def sfsBmapIdblock (sv idblock : ℕ) : Prog Errno (SfsFs δ) (ℕ × Block) :=
  if idblock = 0 then do
    let idblock ← sfsBalloc
    Prog.modify fun s => s.setInode sv fun i => i.setIndirect idblock
    pure (idblock, Block.zeros)
  else do
    let idbuf ← Sfs.dev (sfsReadblock idblock)
    pure (idblock, idbuf)

/-- `sfs_bmap` for block `idoff` of the indirect block. -/
def sfsBmapIndirect (sv idoff : ℕ) (doalloc : Bool) : Prog Errno (SfsFs δ) ℕ := do
  let idblock ← Prog.gets fun s => (s.sv sv).svI.sfiIndirect
  if idblock = 0 ∧ doalloc = false then pure 0
  else do
    let id ← sfsBmapIdblock sv idblock
    let block := id.2.entry idoff
    if block = 0 ∧ doalloc then do
      let block ← sfsBalloc
      Sfs.dev (sfsWriteblock id.1 (id.2.setEntry idoff block))
      sfsBmapCheck block
    else sfsBmapCheck block

/-- `sfs_bmap`. -/
def sfsBmap (sv fileblock : ℕ) (doalloc : Bool) : Prog Errno (SfsFs δ) ℕ :=
  if fileblock < sfsNdirect then sfsBmapDirect sv fileblock doalloc
  -- there is one indirect block
  else if 1 ≤ (fileblock - sfsNdirect) / sfsDbperidb then Prog.fail .efbig
  else sfsBmapIndirect sv ((fileblock - sfsNdirect) % sfsDbperidb) doalloc

end Os161
