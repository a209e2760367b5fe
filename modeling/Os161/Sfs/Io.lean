/-
# File I/O

`sfs_io` of `sfs_io.c`. The state of the file operations is the volume and
the caller's uio. The static buffer `iobuf` is local: every use fills it first.
-/
import Os161.Sfs.Bmap

namespace Os161

variable {δ : Type} [DevOps δ]

namespace Sfs

/-- An operation on the volume. -/
def fs {α : Type} (m : Prog Errno (SfsFs δ) α) : Prog Errno (SfsFs δ × Uio) α :=
  Prog.zoom Prod.fst (fun t s => (t, s.2)) m

/-- An operation on the uio. -/
def uio {α : Type} (m : Prog Errno Uio α) : Prog Errno (SfsFs δ × Uio) α :=
  Prog.zoom Prod.snd (fun u s => (s.1, u)) m

/-- An operation of the device on the uio. -/
def io {α : Type} (m : Prog Errno (δ × Uio) α) : Prog Errno (SfsFs δ × Uio) α :=
  Prog.zoom (fun s => (s.1.sfsDevice, s.2)) (fun d s => ({ s.1 with sfsDevice := d.1 }, d.2)) m

end Sfs

/-- `uiomove(iobuf + skipstart, len, uio)`: the buffer afterwards. -/
def uiomoveBlock (iobuf : Block) (skipstart len : ℕ) : Prog Errno Uio Block := do
  let b ← uiomoveBuf (fun a => iobuf.get (skipstart + a)) len
  pure (Bytes.ofFun (iobuf.get.blit skipstart b 0 len))

/-- `sfs_partialio`. -/
def sfsPartialio (sv skipstart len : ℕ) : Prog Errno (SfsFs δ × Uio) Unit := do
  let u ← Prog.gets Prod.snd
  Prog.assert (skipstart + len ≤ 512)
  let diskblock ← Sfs.fs (sfsBmap sv (wcast (u.uioOffset / 512)) (u.uioRw = .write))
  let iobuf ← (if diskblock = 0 then do
      Prog.assert (u.uioRw = .read)
      pure Block.zeros
    else Sfs.fs (Sfs.dev (sfsReadblock diskblock)) : Prog Errno (SfsFs δ × Uio) Block)
  let iobuf ← Sfs.uio (uiomoveBlock iobuf skipstart len)
  if u.uioRw = .write then Sfs.fs (Sfs.dev (sfsWriteblock diskblock iobuf)) else pure ()

/-- `sfs_blockio`: the offset and the residue are the device's for the time of
the transfer. -/
def sfsBlockio (sv : ℕ) : Prog Errno (SfsFs δ × Uio) Unit := do
  let u ← Prog.gets Prod.snd
  let diskblock ← Sfs.fs (sfsBmap sv (wcast (u.uioOffset / 512)) (u.uioRw = .write))
  if diskblock = 0 then do
    Prog.assert (u.uioRw = .read)
    Sfs.uio (uiomovezeros 512)
  else do
    let diskoff := wcast (diskblock * 512)
    Prog.assert (512 ≤ u.uioResid)
    Sfs.uio (Prog.modify fun u => { u with uioOffset := diskoff, uioResid := 512 })
    let result : Except Errno Unit ← Prog.attempt (Sfs.io sfsRwblock)
    Sfs.uio (Prog.modify fun u' =>
      { u' with uioOffset := u'.uioOffset - diskoff + u.uioOffset, uioResid := u.uioResid - (512 - u'.uioResid) })
    match result with
    | .ok _ => pure ()
    | .error e => Prog.fail e

/-- `sfs_io` between the check for the end of the file and `out`. -/
def sfsIoBody (sv : ℕ) : Prog Errno (SfsFs δ × Uio) Unit := do
  let u ← Prog.gets Prod.snd
  let blkoff := u.uioOffset % 512
  (if blkoff ≠ 0 then sfsPartialio sv blkoff (min (512 - blkoff) u.uioResid)
    else pure () : Prog Errno (SfsFs δ × Uio) Unit)
  let u ← Prog.gets Prod.snd
  if u.uioResid = 0 then pure ()
  else do
    Prog.assert (u.uioOffset % 512 = 0)
    Prog.forUp (u.uioResid / 512) fun _ => sfsBlockio sv
    let u ← Prog.gets Prod.snd
    Prog.assert (u.uioResid < 512)
    if 0 < u.uioResid then sfsPartialio sv 0 u.uioResid else pure ()

/-- How much of a read lies past the end of the file. -/
def sfsIoExtraresid (size : ℕ) (u : Uio) : ℕ :=
  if u.uioRw = .read ∧ size < u.uioOffset + u.uioResid then u.uioOffset + u.uioResid - size else 0

omit [DevOps δ] in
/-- From `out`: the new file length, and the residue with what was cut off. -/
def sfsIoOut (sv origresid extraresid : ℕ) : Prog Errno (SfsFs δ × Uio) Unit :=
  Prog.modify fun s =>
    let u := s.2
    (if u.uioResid ≠ origresid ∧ u.uioRw = .write ∧ (s.1.sv sv).svI.sfiSize < u.uioOffset then
        s.1.setInode sv fun i => i.setSize u.uioOffset
      else s.1,
      { u with uioResid := u.uioResid + extraresid })

/-- `sfs_io`. -/
def sfsIo (sv : ℕ) : Prog Errno (SfsFs δ × Uio) Unit := do
  let u ← Prog.gets Prod.snd
  let size ← Prog.gets fun s => (s.1.sv sv).svI.sfiSize
  if u.uioRw = .read ∧ size ≤ u.uioOffset then pure ()
  else do
    let extraresid := sfsIoExtraresid size u
    Prog.assert (extraresid = 0 ∨ extraresid < u.uioResid)
    Sfs.uio (Prog.modify fun u => { u with uioResid := u.uioResid - extraresid })
    let result : Except Errno Unit ← Prog.attempt (sfsIoBody sv)
    sfsIoOut sv u.uioResid extraresid
    match result with
    | .ok _ => pure ()
    | .error e => Prog.fail e

end Os161
