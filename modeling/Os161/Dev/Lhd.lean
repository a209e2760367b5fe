/-
# The LAMEbus disk

`kern/dev/lamebus/lhd.c` and the part of `struct device` that a file system
uses. A device is a type of states with `devop_io`, the one operation SFS
calls (`DevOps`); `Lhd` is the hard disk. What the hardware will report for
each coming operation is part of the disk's state (`status`), so a run is
over a fixed but arbitrary pattern of results; the card stores its buffer
into the sector, or loads it, exactly when it reports success.

One thread drives the disk at a time (`lh_clear`), and it waits for the
interrupt (`lh_done`), so the semaphores are not modelled.

`lhdIo_sector` is the driver's specification for a transfer of one sector:
it is one hardware operation on that sector, with the data moved by one
`uiomove` (before the operation on a write, after it on a read).
-/
import Os161.Kern.Uio

namespace Os161

/-- A sector of the disk and a block of SFS. -/
abbrev Block := Bytes 512

instance neZero512 : NeZero 512 := ⟨by decide⟩

/-- `struct device`, for the operation `devop_io`. -/
class DevOps (δ : Type) where
  devopIo : Prog Errno (δ × Uio) Unit

/-- What the card reports at the end of an operation. -/
inductive LhdStatus
  | ok | invsect | media
  deriving DecidableEq, Repr

/-- `struct lhd_softc` and the disk behind it. -/
structure Lhd where
  dBlocks : ℕ
  lhBuf : Buf
  sectors : ℕ → Block
  status : ℕ → LhdStatus

/-- `lhd_code_to_errno`. -/
def lhdCodeToErrno : LhdStatus → Except Errno Unit
  | .ok => .ok ()
  | .invsect => .error .einval
  | .media => .error .eio

/-- One operation of the card on a sector: what the interrupt handler stores
in `lh_result`. -/
def lhdOperation (rw : UioRw) (sector : ℕ) : Prog Errno Lhd Unit := fun l =>
  let l' := { l with status := fun i => l.status (i + 1) }
  match lhdCodeToErrno (l.status 0) with
  | .error e => .fail e l'
  | .ok _ =>
    match rw with
    | .write => .ok () { l' with sectors := Function.update l.sectors sector (Bytes.ofFun l.lhBuf) }
    | .read => .ok () { l' with lhBuf := (l.sectors sector).get }

/-- `uiomove(lh->lh_buf, LHD_SECTSIZE, uio)`. -/
def lhdMove : Prog Errno (Lhd × Uio) Unit :=
  Prog.zoom (fun s => (s.2, s.1.lhBuf)) (fun m s => ({ s.1 with lhBuf := m.2 }, m.1)) (uiomove 512)

/-- The body of the loop of `lhd_io`. -/
def lhdSector (rw : UioRw) (sector : ℕ) : Prog Errno (Lhd × Uio) Unit := do
  if rw = .write then lhdMove
  Prog.zoom Prod.fst (fun l s => (l, s.2)) (lhdOperation rw sector)
  if rw = .read then lhdMove

/-- `lhd_io`. -/
def lhdIo : Prog Errno (Lhd × Uio) Unit := do
  let (l, u) ← Prog.get
  let sector := wcast (u.uioOffset / 512)
  let len := u.uioResid / 512
  if u.uioOffset % 512 ≠ 0 ∨ u.uioResid % 512 ≠ 0 then Prog.fail .einval
  else if l.dBlocks < wadd sector len then Prog.fail .einval
  else Prog.forUp len fun i => lhdSector u.uioRw (wadd sector i)

instance : DevOps Lhd := ⟨lhdIo⟩

theorem lhdSector_write (b : ℕ) : lhdSector .write b =
    Prog.andThen lhdMove fun _ => Prog.zoom Prod.fst (fun l s => (l, s.2)) (lhdOperation .write b) := by
  unfold lhdSector
  simp only [if_true, reduceCtorEq, if_false]
  show Prog.andThen _ (fun _ => Prog.andThen _ _) = _
  rw [show (fun _ : PUnit => (pure PUnit.unit : Prog Errno (Lhd × Uio) PUnit)) = pure from rfl]
  simp only [Prog.andThen_pure]

theorem lhdSector_read (b : ℕ) : lhdSector .read b =
    Prog.andThen (Prog.zoom Prod.fst (fun l s => (l, s.2)) (lhdOperation .read b)) fun _ => lhdMove := by
  unfold lhdSector
  simp only [if_true, reduceCtorEq, if_false]
  rfl

/-! ### Transfers of one sector and of none -/

theorem lhdIo_eq (l : Lhd) (u : Uio) : lhdIo (l, u) =
    (if u.uioOffset % 512 ≠ 0 ∨ u.uioResid % 512 ≠ 0 then Prog.fail .einval
    else if l.dBlocks < wadd (wcast (u.uioOffset / 512)) (u.uioResid / 512) then Prog.fail .einval
    else Prog.forUp (u.uioResid / 512) fun i => lhdSector u.uioRw (wadd (wcast (u.uioOffset / 512)) i)) (l, u) :=
  rfl

/-- The driver's checks pass for sector `b`. -/
def Lhd.InRange (l : Lhd) (b : ℕ) : Prop := b < 2 ^ 32 ∧ wadd b 1 ≤ l.dBlocks

theorem Lhd.inRange_of_lt {l : Lhd} {b : ℕ} (hb : b < l.dBlocks) (hd : l.dBlocks < 2 ^ 32) : l.InRange b :=
  ⟨by omega, by rw [wadd_of_lt (by omega)]; omega⟩

/-- **A transfer of one sector.** -/
theorem lhdIo_sector {l : Lhd} {u : Uio} {b : ℕ} (hoff : u.uioOffset = b * 512) (hres : u.uioResid = 512)
    (hb : l.InRange b) : lhdIo (l, u) = lhdSector u.uioRw b (l, u) := by
  have hdiv : u.uioOffset / 512 = b := by omega
  have hmod : ¬ (u.uioOffset % 512 ≠ 0 ∨ u.uioResid % 512 ≠ 0) := by omega
  have hlen : u.uioResid / 512 = 1 := by omega
  have hnot : ¬ l.dBlocks < wadd b 1 := Nat.not_lt.mpr hb.2
  rw [lhdIo_eq, if_neg hmod, hdiv, hlen, wcast_of_lt hb.1, if_neg hnot, Prog.forUp_one, wadd_zero hb.1]

/-- A sector past the end is refused. -/
theorem lhdIo_outside {l : Lhd} {u : Uio} {b : ℕ} (hoff : u.uioOffset = b * 512) (hres : u.uioResid = 512)
    (hb : b < 2 ^ 32) (hout : l.dBlocks < wadd b 1) : lhdIo (l, u) = .fail .einval (l, u) := by
  have hdiv : u.uioOffset / 512 = b := by omega
  have hmod : ¬ (u.uioOffset % 512 ≠ 0 ∨ u.uioResid % 512 ≠ 0) := by omega
  have hlen : u.uioResid / 512 = 1 := by omega
  rw [lhdIo_eq, if_neg hmod, hdiv, hlen, wcast_of_lt hb, if_pos hout]
  rfl

/-- **A transfer of nothing**, just behind a sector of the disk, succeeds
without an operation of the card. -/
theorem lhdIo_nothing {l : Lhd} {u : Uio} {b : ℕ} (hoff : u.uioOffset = (b + 1) * 512) (hres : u.uioResid = 0)
    (hb : l.InRange b) : lhdIo (l, u) = .ok () (l, u) := by
  have hdiv : u.uioOffset / 512 = b + 1 := by omega
  have hmod : ¬ (u.uioOffset % 512 ≠ 0 ∨ u.uioResid % 512 ≠ 0) := by omega
  have hsec : wadd (wcast (b + 1)) 0 = wadd b 1 := by
    unfold wadd wcast
    omega
  have hnot : ¬ l.dBlocks < wadd b 1 := Nat.not_lt.mpr hb.2
  rw [lhdIo_eq, if_neg hmod, hdiv, hres, Nat.zero_div, hsec, if_neg hnot, Prog.forUp_zero]
  rfl

end Os161
