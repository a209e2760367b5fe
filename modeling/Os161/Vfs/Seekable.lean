/-
# Reading and writing where one can seek

The vnodes for which `VOP_ISSEEKABLE` says yes: files of SFS and of `emufs`
(`kern/dev/lamebus/emu.c`), block devices (`kern/vfs/device.c` over the disk)
and the directories of all file systems, which can neither be read nor
written. `SeekVnode.read` and `SeekVnode.write` are their `VOP_READ` and
`VOP_WRITE`.

What the emulator's hardware answers to each coming operation is part of its
state, as it is for the disk. The registers are 32 bits wide and so is what
comes back in them.

Each of the operations leaves `uio_offset` below `2 ^ 63` if it was there
before (`SeekVnode.read_offset`, `SeekVnode.write_offset`).
-/
import Os161.Sfs.Offset
import Os161.Sfs.Vnops

namespace Os161

/-! ### The emulator file system -/

/-- `EMU_MAXIO`. -/
def emuMaxio : ℕ := 16384

/-- The result codes of the hardware; `other` is any that `emu.c` does not know. -/
inductive EmuRes
  | success | badhandle | badop | badpath | badsize | exist | isdir | media | nohandles | nospace | notdir | unknown
  | unsupp | other
  deriving DecidableEq

/-- What the hardware answers to an operation. -/
structure EmuAnswer where
  result : EmuRes
  iolen : UInt32
  offset : UInt32
  iobuf : Buf

/-- `struct emu_softc`: the registers, the buffer and the answers to come. -/
structure Emu where
  regHandle : ℕ
  regIolen : ℕ
  regOffset : ℕ
  eIobuf : Buf
  answers : ℕ → EmuAnswer

/-- `translate_err`. -/
def translateErr {σ : Type} : EmuRes → Prog Errno σ Unit
  | .success => pure ()
  -- "got fatal result code"
  | .badhandle | .badop | .badsize => Prog.stop
  | .badpath => Prog.fail .enoent
  | .exist => Prog.fail .eexist
  | .isdir => Prog.fail .eisdir
  | .media => Prog.fail .eio
  | .nohandles => Prog.fail .enfile
  | .nospace => Prog.fail .enospc
  | .notdir => Prog.fail .enotdir
  | .unknown => Prog.fail .eio
  | .unsupp => Prog.fail .enosys
  | .other => Prog.fail .eagain

/-- The store to `REG_OPER` and `emu_waitdone`. -/
def emuOperation : Prog Errno (Emu × Uio) Unit := do
  let x ← Prog.get
  let a := x.1.answers 0
  Prog.modify fun x => ({ x.1 with
    regIolen := a.iolen.toNat
    regOffset := a.offset.toNat
    eIobuf := a.iobuf
    answers := fun i => x.1.answers (i + 1) }, x.2)
  translateErr a.result

/-- `emu_wreg` of `REG_HANDLE`, `REG_IOLEN` and `REG_OFFSET`. -/
def emuRequest (handle len : ℕ) : Prog Errno (Emu × Uio) Unit :=
  Prog.modify fun x => ({ x.1 with regHandle := handle, regIolen := len, regOffset := wcast x.2.uioOffset }, x.2)

/-- `uiomove(sc->e_iobuf, n, uio)`. -/
def emuMove (n : ℕ) : Prog Errno (Emu × Uio) Unit :=
  Prog.zoom (fun x => (x.2, x.1.eIobuf)) (fun m x => ({ x.1 with eIobuf := m.2 }, m.1)) (uiomove n)

/-- `emu_read`, which is `emu_doread`. -/
def emuRead (handle len : ℕ) : Prog Errno (Emu × Uio) Unit := do
  let x ← Prog.get
  Prog.assert (x.2.uioRw = .read)
  -- beyond the largest size the file can have
  if 0xffffffff < x.2.uioOffset then pure ()
  else do
    emuRequest handle len
    emuOperation
    let n ← Prog.gets fun x => x.1.regIolen
    let result : Except Errno Unit ← Prog.attempt (emuMove n)
    Prog.modify fun x => (x.1, { x.2 with uioOffset := x.1.regOffset })
    match result with
    | .ok _ => pure ()
    | .error e => Prog.fail e

/-- `emu_write`. -/
def emuWrite (handle len : ℕ) : Prog Errno (Emu × Uio) Unit := do
  let x ← Prog.get
  Prog.assert (x.2.uioRw = .write)
  if 0xffffffff < x.2.uioOffset then Prog.fail .efbig
  else do
    emuRequest handle len
    emuMove len
    emuOperation

/-- The loop of `emufs_read` and of `emufs_write`, with the operation `io`. A
turn after which it goes on has moved a byte, so that it has at most as many as
there are bytes to move. -/
def emufsLoop (io : ℕ → Prog Errno (Emu × Uio) Unit) : ℕ → Prog Errno (Emu × Uio) Unit
  | 0 => Prog.stop
  | n + 1 => do
    let x ← Prog.get
    if x.2.uioResid = 0 then pure ()
    else do
      io (min x.2.uioResid emuMaxio)
      let y ← Prog.get
      if y.2.uioResid = x.2.uioResid then pure () else emufsLoop io n

/-- `emufs_read`. -/
def emufsRead (handle : ℕ) : Prog Errno (Emu × Uio) Unit := do
  let x ← Prog.get
  Prog.assert (x.2.uioRw = .read)
  emufsLoop (emuRead handle) (x.2.uioResid + 1)

/-- `emufs_write`. -/
def emufsWrite (handle : ℕ) : Prog Errno (Emu × Uio) Unit := do
  let x ← Prog.get
  Prog.assert (x.2.uioRw = .write)
  emufsLoop (emuWrite handle) (x.2.uioResid + 1)

/-! ### Block devices -/

/-- `dev_tryseek`. -/
def devTryseek {σ : Type} (dBlocks dBlocksize pos : ℕ) : Prog Errno σ Unit :=
  if 0 < dBlocks then
    if pos % dBlocksize ≠ 0 then Prog.fail .einval
    else if dBlocks ≤ pos / dBlocksize then Prog.fail .einval
    else pure ()
  else pure ()

/-- `dev_read` and `dev_write` on the disk, whose blocks are sectors; `rw` is the
direction that is asserted. -/
def devIo (rw : UioRw) (dBlocks : ℕ) : Prog Errno (Lhd × Uio) Unit := do
  let x ← Prog.get
  devTryseek dBlocks 512 x.2.uioOffset
  Prog.assert (x.2.uioRw = rw)
  DevOps.devopIo

/-- `dev_read`. -/
def devRead (dBlocks : ℕ) : Prog Errno (Lhd × Uio) Unit := devIo .read dBlocks

/-- `dev_write`. -/
def devWrite (dBlocks : ℕ) : Prog Errno (Lhd × Uio) Unit := devIo .write dBlocks

/-! ### The vnodes -/

/-- A vnode: a file of a volume, a file of an emulator, a device with its
`d_blocks`, or a directory. -/
inductive SeekVnode
  | sfsFile (vol sv : ℕ)
  | emufsFile (emu handle : ℕ)
  | device (disk : ℕ) (dBlocks : UInt32)
  | directory

/-- `VOP_ISSEEKABLE`: `sfs_isseekable`, `emufs_isseekable`, `dev_isseekable`, and
`semfs_isseekable` of the directory. -/
def SeekVnode.isseekable : SeekVnode → Bool
  | .device _ dBlocks => dBlocks ≠ 0
  | _ => true

/-- What is behind the vnodes. -/
structure SeekObjects where
  volumes : ℕ → SfsFs Lhd
  emus : ℕ → Emu
  disks : ℕ → Lhd

namespace SeekObjects

def onVolume (i : ℕ) (m : Prog Errno (SfsFs Lhd × Uio) Unit) : Prog Errno (SeekObjects × Uio) Unit :=
  Prog.zoom (fun x => (x.1.volumes i, x.2))
    (fun y x => ({ x.1 with volumes := Function.update x.1.volumes i y.1 }, y.2)) m

def onEmu (i : ℕ) (m : Prog Errno (Emu × Uio) Unit) : Prog Errno (SeekObjects × Uio) Unit :=
  Prog.zoom (fun x => (x.1.emus i, x.2)) (fun y x => ({ x.1 with emus := Function.update x.1.emus i y.1 }, y.2)) m

def onDisk (i : ℕ) (m : Prog Errno (Lhd × Uio) Unit) : Prog Errno (SeekObjects × Uio) Unit :=
  Prog.zoom (fun x => (x.1.disks i, x.2)) (fun y x => ({ x.1 with disks := Function.update x.1.disks i y.1 }, y.2)) m

end SeekObjects

open SeekObjects

/-- `VOP_READ`. -/
def SeekVnode.read : SeekVnode → Prog Errno (SeekObjects × Uio) Unit
  | .sfsFile vol sv => onVolume vol (sfsRead sv)
  | .emufsFile emu handle => onEmu emu (emufsRead handle)
  | .device disk dBlocks => onDisk disk (devRead dBlocks.toNat)
  -- `vopfail_uio_isdir`, `emufs_uio_op_isdir`
  | .directory => Prog.fail .eisdir

/-- `VOP_WRITE`. -/
def SeekVnode.write : SeekVnode → Prog Errno (SeekObjects × Uio) Unit
  | .sfsFile vol sv => onVolume vol (sfsWrite sv)
  | .emufsFile emu handle => onEmu emu (emufsWrite handle)
  | .device disk dBlocks => onDisk disk (devWrite dBlocks.toNat)
  | .directory => Prog.fail .eisdir

/-! ### The offset -/

section Offset

variable {u : Uio}

theorem translateErr_wlp {σ : Type} (res : EmuRes) {Q : Unit → σ → Prop} {x : σ} (h : Q () x) :
    Prog.wlp True (translateErr res) Q (fun _ _ => True) x := by
  cases res <;> first | exact trivial | exact h

/-- An operation leaves the uio alone and a 32-bit offset in the register. -/
theorem emuOperation_wlp (x : Emu × Uio) :
    Prog.wlp True emuOperation (fun _ y => y.2 = x.2 ∧ y.1.regOffset < 2 ^ 32) (fun _ _ => True) x := by
  unfold emuOperation
  simp only [Prog.wlp_bind, Prog.wlp_get, Prog.wlp_modify]
  exact translateErr_wlp _ ⟨rfl, UInt32.toNat_lt _⟩

theorem emuRead_offset (handle len : ℕ) (x : Emu × Uio) (h : x.2.uioOffset < 2 ^ 63) :
    Prog.wlp True (emuRead handle len) (fun _ y => y.2.uioOffset < 2 ^ 63) (fun _ _ => True) x := by
  unfold emuRead emuRequest
  simp only [Prog.wlp_bind, Prog.wlp_get, Prog.wlp_assert, Prog.wlp_ite, Prog.wlp_pure, Prog.wlp_modify, Prog.wlp_gets,
    Prog.wlp_attempt]
  refine ⟨fun _ => ⟨fun _ => h, fun _ => ?_⟩, fun _ => trivial⟩
  refine Prog.wlp_mono (emuOperation_wlp _) (fun _ y hy => ?_) fun _ _ h => h
  unfold emuMove
  rw [Prog.wlp_zoom]
  unfold Prog.wlp
  cases uiomove y.1.regIolen (y.2, y.1.eIobuf) with
  | ok _ z => exact hy.2.trans (by norm_num)
  | fail _ z => trivial
  | stop => trivial

theorem emuWrite_holds (handle len : ℕ) (hmax : len ≤ emuMaxio) (x : Emu × Uio) (h : x.2.Holds)
    (hlen : len ≤ x.2.uioResid) :
    Prog.wlp True (emuWrite handle len) (fun _ y => y.2.Holds) (fun _ _ => True) x := by
  obtain ⟨⟨v, hv⟩, -⟩ := h
  unfold emuWrite emuRequest emuMove
  simp only [Prog.wlp_bind, Prog.wlp_get, Prog.wlp_assert, Prog.wlp_ite, Prog.wlp_fail, Prog.wlp_modify, Prog.wlp_zoom]
  refine ⟨fun _ => ⟨fun _ => trivial, fun hsmall => ?_⟩, fun _ => trivial⟩
  refine Prog.wlp_mono (Prog.wlp_of_wp (uiomove_onward (.start hv hv.len) hlen _)) (fun _ y hy => ?_) fun _ _ _ => trivial
  refine Prog.wlp_mono (emuOperation_wlp _) (fun _ z hz => ?_) fun _ _ h => h
  obtain ⟨⟨⟨w, hw, -⟩, -, -⟩, hoff⟩ := hy
  unfold emuMaxio at hmax
  rw [hz.1]
  exact ⟨⟨w, hw⟩, by dsimp only; omega⟩

theorem emufsLoop_wlp {io : ℕ → Prog Errno (Emu × Uio) Unit} {Q : Uio → Prop}
    (hio : ∀ n (x : Emu × Uio), n ≤ emuMaxio → n ≤ x.2.uioResid → Q x.2 →
      Prog.wlp True (io n) (fun _ y => Q y.2) (fun _ _ => True) x) :
    ∀ n (x : Emu × Uio), Q x.2 → Prog.wlp True (emufsLoop io n) (fun _ y => Q y.2) (fun _ _ => True) x
  | 0, _, _ => trivial
  | n + 1, x, hx => by
    rw [emufsLoop]
    simp only [Prog.wlp_bind, Prog.wlp_get, Prog.wlp_ite, Prog.wlp_pure]
    refine ⟨fun _ => hx, fun _ => ?_⟩
    refine Prog.wlp_mono (hio _ x (min_le_right _ _) (min_le_left _ _) hx) (fun _ y hy => ?_) fun _ _ h => h
    exact ⟨fun _ => hy, fun _ => emufsLoop_wlp hio n y hy⟩

/-- A device that has blocks refuses a transfer from behind the last one. -/
theorem devIo_offset {dBlocks : ℕ} (h0 : 0 < dBlocks) (hb : dBlocks < 2 ^ 32) (rw : UioRw) {l : Lhd} {v : Iovec}
    (hv : u.Single v) :
    Prog.wlp True (devIo rw dBlocks) (fun _ y => y.2.uioOffset < 2 ^ 63) (fun _ _ => True) (l, u) := by
  unfold devIo devTryseek
  simp only [if_pos h0, Prog.wlp_bind, Prog.wlp_get, Prog.wlp_ite, Prog.wlp_fail, Prog.wlp_pure, Prog.wlp_assert]
  refine ⟨fun _ => trivial, fun _ => ⟨fun _ => trivial, fun hin => ⟨fun _ => ?_, fun _ => trivial⟩⟩⟩
  refine Prog.wlp_mono (lhdIo_onward (.start hv hv.len)) (fun _ y hy => ?_) fun _ _ _ => trivial
  have hsum := hy.sum
  have hres := hv.resid
  omega

theorem device_pos {disk : ℕ} {dBlocks : UInt32} (h : (SeekVnode.device disk dBlocks).isseekable = true) :
    0 < dBlocks.toNat := by
  have hne : dBlocks ≠ 0 := by simpa [SeekVnode.isseekable] using h
  exact Nat.pos_of_ne_zero fun h0 => hne (UInt32.toNat_inj.mp h0)

/-- **A read** leaves the offset where an `off_t` can hold it. -/
theorem SeekVnode.read_offset {k : SeekVnode} (hk : k.isseekable = true) (h : u.Holds) (o : SeekObjects) :
    Prog.wlp True k.read (fun _ y => y.2.uioOffset < 2 ^ 63) (fun _ _ => True) (o, u) := by
  cases k with
  | sfsFile vol sv =>
    unfold SeekVnode.read onVolume sfsRead
    simp only [Prog.wlp_zoom, Prog.wlp_bind, Prog.wlp_gets, Prog.wlp_assert]
    exact ⟨fun _ => sfsIo_offset h, fun _ => trivial⟩
  | emufsFile emu handle =>
    unfold SeekVnode.read onEmu emufsRead
    simp only [Prog.wlp_zoom, Prog.wlp_bind, Prog.wlp_get, Prog.wlp_assert]
    refine ⟨fun _ => ?_, fun _ => trivial⟩
    exact emufsLoop_wlp (Q := fun w => w.uioOffset < 2 ^ 63) (fun n x _ _ hx => emuRead_offset handle n x hx) _ _ h.2
  | device disk dBlocks =>
    obtain ⟨⟨v, hv⟩, -⟩ := h
    unfold SeekVnode.read onDisk devRead
    rw [Prog.wlp_zoom]
    exact devIo_offset (device_pos hk) (UInt32.toNat_lt _) .read hv
  | directory => trivial

/-- **A write** leaves the offset where an `off_t` can hold it. -/
theorem SeekVnode.write_offset {k : SeekVnode} (hk : k.isseekable = true) (h : u.Holds) (o : SeekObjects) :
    Prog.wlp True k.write (fun _ y => y.2.uioOffset < 2 ^ 63) (fun _ _ => True) (o, u) := by
  cases k with
  | sfsFile vol sv =>
    unfold SeekVnode.write onVolume sfsWrite
    simp only [Prog.wlp_zoom, Prog.wlp_bind, Prog.wlp_gets, Prog.wlp_assert]
    exact ⟨fun _ => sfsIo_offset h, fun _ => trivial⟩
  | emufsFile emu handle =>
    unfold SeekVnode.write onEmu emufsWrite
    simp only [Prog.wlp_zoom, Prog.wlp_bind, Prog.wlp_get, Prog.wlp_assert]
    refine ⟨fun _ => ?_, fun _ => trivial⟩
    refine Prog.wlp_mono (emufsLoop_wlp (Q := Uio.Holds) ?_ _ _ h) (fun _ y hy => hy.2) fun _ _ h => h
    exact fun n x hn hr hx => emuWrite_holds handle n hn x hx hr
  | device disk dBlocks =>
    obtain ⟨⟨v, hv⟩, -⟩ := h
    unfold SeekVnode.write onDisk devWrite
    rw [Prog.wlp_zoom]
    exact devIo_offset (device_pos hk) (UInt32.toNat_lt _) .write hv
  | directory => trivial

end Offset

end Os161
