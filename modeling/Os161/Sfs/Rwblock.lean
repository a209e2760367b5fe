/-
# SFS block I/O and its retries

The block-level routines of `kern/fs/sfs/sfs_io.c`: `sfs_rwblock` issues one
`uio` to the device up to eleven times while it reports `EIO`, and stops the
machine on `EINVAL`; `sfs_readblock` and `sfs_writeblock` wrap a kernel buffer
of one block.

On the disk of `Os161/Dev/Lhd.lean` a write is not retried for real: `lhd_io`
moves the data to the card, and with it the uio's offset and residue, before
it knows the result, so the second call sees a transfer of nothing and
succeeds (`sfsWriteblock_media`). So a write that returns 0 is on the disk
exactly when the first operation of the card succeeded, or there was nothing
to lose (`sfsWriteblock_stored_iff`).
-/
import Os161.Dev.Lhd

namespace Os161

variable {δ : Type} [DevOps δ]

/-- One turn of the loop of `sfs_rwblock`; `more` is what it does about an
I/O error. -/
def sfsRwblockTry (more : Prog Errno (δ × Uio) Unit) : Prog Errno (δ × Uio) Unit := do
  let result : Except Errno Unit ← Prog.attempt DevOps.devopIo
  match result with
  | .ok _ => pure ()
  -- "DEVOP_IO returned EINVAL"
  | .error .einval => Prog.stop
  | .error .eio => more
  | .error e => Prog.fail e

/-- The loop of `sfs_rwblock` with `n` retries left. -/
def sfsRwblockLoop : ℕ → Prog Errno (δ × Uio) Unit
  | 0 => sfsRwblockTry (Prog.fail .eio)
  | n + 1 => sfsRwblockTry (sfsRwblockLoop n)

/-- `sfs_rwblock`: `tries` counts up to 10. -/
def sfsRwblock : Prog Errno (δ × Uio) Unit := sfsRwblockLoop 10

/-- The macro `SFSUIO`. -/
def sfsUio (data : Block) (block : ℕ) (rw : UioRw) : Uio := uioKinit data.get 0 512 (block * 512) rw

/-- `sfs_readblock`, into a buffer of zeros. -/
def sfsReadblock (block : ℕ) : Prog Errno δ Block := fun d =>
  match sfsRwblock (d, sfsUio (fun _ => 0) block .read) with
  | .ok _ (d', u) => .ok (Bytes.ofFun u.mem) d'
  | .fail e (d', _) => .fail e d'
  | .stop => .stop

/-- `sfs_writeblock`. -/
def sfsWriteblock (block : ℕ) (data : Block) : Prog Errno δ Unit := fun d =>
  match sfsRwblock (d, sfsUio data block .write) with
  | .ok _ (d', _) => .ok () d'
  | .fail e (d', _) => .fail e d'
  | .stop => .stop

/-! ### Turns of the retry loop -/

theorem sfsRwblockTry_ok {more : Prog Errno (δ × Uio) Unit} {s t : δ × Uio}
    (h : DevOps.devopIo s = .ok () t) : sfsRwblockTry more s = .ok () t := by
  show Prog.andThen (Prog.attempt _) _ s = _
  simp only [Prog.andThen, Prog.attempt, h]
  rfl

theorem sfsRwblockTry_eio {more : Prog Errno (δ × Uio) Unit} {s t : δ × Uio}
    (h : DevOps.devopIo s = .fail .eio t) : sfsRwblockTry more s = more t := by
  show Prog.andThen (Prog.attempt _) _ s = _
  simp only [Prog.andThen, Prog.attempt, h]

theorem sfsRwblockTry_einval {more : Prog Errno (δ × Uio) Unit} {s t : δ × Uio}
    (h : DevOps.devopIo s = .fail .einval t) : sfsRwblockTry more s = .stop := by
  show Prog.andThen (Prog.attempt _) _ s = _
  simp only [Prog.andThen, Prog.attempt, h]
  rfl

/-! ### Writes on the disk -/

theorem sfsUio_single (data : Block) (b : ℕ) (rw : UioRw) : (sfsUio data b rw).Single ⟨0, 512⟩ :=
  ⟨rfl, Nat.le_refl _, by norm_num [sfsUio, uioKinit]⟩

/-- The uio of a block write once its data has been moved out. -/
def sfsUioDone (data : Block) (block : ℕ) : Uio :=
  { (sfsUio data block .write).advance 512 with uioIov := [⟨512, 0⟩] }

/-- `lhd_io` moves the block to the card first, then runs the operation. -/
theorem lhdSector_sfsUio (l : Lhd) (data : Block) (b : ℕ) :
    ∃ buf, Bytes.ofFun buf = data ∧ lhdSector .write b (l, sfsUio data b .write) =
      Prog.zoom Prod.fst (fun l s => (l, s.2)) (lhdOperation .write b) ({ l with lhBuf := buf }, sfsUioDone data b) := by
  obtain h | ⟨-, hseg, -⟩ := uiomove_single (sfsUio_single data b .write) l.lhBuf (n := 512) (Nat.le_refl _)
  · refine ⟨l.lhBuf.blit 0 data.get 0 512, ?_, ?_⟩
    · refine Bytes.ext_get fun i hi => ?_
      rw [Bytes.get_ofFun _ hi, Buf.blit_inside _ _ _ _ _ (by omega)]
      simp
    · have hm : lhdMove (l, sfsUio data b .write) =
          .ok () ({ l with lhBuf := l.lhBuf.blit 0 data.get 0 512 }, sfsUioDone data b) := by
        show Prog.zoom _ _ (uiomove 512) (l, sfsUio data b .write) = _
        unfold Prog.zoom
        simp only [h]
        rfl
      simp only [lhdSector_write, Prog.andThen, hm]
  · exact absurd rfl hseg.1

/-- A write whose first operation succeeds. -/
theorem sfsWriteblock_ok (data : Block) {l : Lhd} {b : ℕ} (hb : l.InRange b) (h : l.status 0 = .ok) :
    ∃ l', sfsWriteblock b data l = .ok () l' ∧ l'.sectors = Function.update l.sectors b data ∧
      l'.dBlocks = l.dBlocks ∧ l'.status = fun i => l.status (i + 1) := by
  obtain ⟨buf, hbuf, hs⟩ := lhdSector_sfsUio l data b
  set l1 : Lhd := { l with
    lhBuf := buf, status := fun i => l.status (i + 1), sectors := Function.update l.sectors b data } with hl1
  have hio : DevOps.devopIo (l, sfsUio data b .write) = .ok () (l1, sfsUioDone data b) := by
    show lhdIo _ = _
    rw [lhdIo_sector rfl rfl hb]
    refine hs.trans ?_
    simp only [Prog.zoom, lhdOperation, h, lhdCodeToErrno, hbuf, hl1]
  refine ⟨l1, ?_, rfl, rfl, rfl⟩
  unfold sfsWriteblock sfsRwblock sfsRwblockLoop
  rw [sfsRwblockTry_ok hio]

/-- The uio of a block read. -/
def sfsUioRead (block : ℕ) : Uio := sfsUio (fun _ => 0) block .read

/-- A read operation that succeeds: the sector is in the buffer. -/
theorem devopIo_read_ok {l : Lhd} {b : ℕ} (hb : l.InRange b) (h : l.status 0 = .ok) :
    ∃ u, DevOps.devopIo (l, sfsUioRead b) =
        .ok () ({ l with lhBuf := (l.sectors b).get, status := fun i => l.status (i + 1) }, u) ∧
      Bytes.ofFun u.mem = l.sectors b := by
  set l1 : Lhd := { l with lhBuf := (l.sectors b).get, status := fun i => l.status (i + 1) } with hl1
  set u := sfsUioRead b with hu
  have hm : lhdMove (l1, u) = .ok () (l1, { (moved u l1.lhBuf 0 512).1.advance 512 with uioIov := [⟨512, 0⟩] }) := by
    obtain hmove | ⟨-, hseg, -⟩ := uiomove_single (sfsUio_single (fun _ => 0) b .read) l1.lhBuf (n := 512) (Nat.le_refl _)
    · show Prog.zoom _ _ (uiomove 512) (l1, u) = _
      unfold Prog.zoom
      simp only [hu, sfsUioRead, hmove]
      rfl
    · exact absurd rfl hseg.1
  have hio : DevOps.devopIo (l, u) = .ok () (l1, { (moved u l1.lhBuf 0 512).1.advance 512 with uioIov := [⟨512, 0⟩] }) := by
    show lhdIo _ = _
    rw [lhdIo_sector rfl rfl hb]
    show lhdSector .read b (l, u) = _
    rw [lhdSector_read, ← hm]
    simp only [Prog.andThen, Prog.zoom, lhdOperation, h, lhdCodeToErrno, hl1]
  refine ⟨_, hio, Bytes.ext_get fun i hi => ?_⟩
  rw [Bytes.get_ofFun _ hi]
  show (u.mem.blit 0 l1.lhBuf 0 512) i = _
  rw [Buf.blit_inside _ _ _ _ _ (by omega)]
  simp [hl1]

/-- A read operation that fails leaves the uio as it was. -/
theorem devopIo_read_error {l : Lhd} {b : ℕ} {e : Errno} (hb : l.InRange b)
    (h : lhdCodeToErrno (l.status 0) = .error e) : DevOps.devopIo (l, sfsUioRead b) =
      .fail e ({ l with status := fun i => l.status (i + 1) }, sfsUioRead b) := by
  show lhdIo _ = _
  rw [lhdIo_sector rfl rfl hb]
  show lhdSector .read b (l, sfsUioRead b) = _
  rw [lhdSector_read]
  simp only [Prog.andThen, Prog.zoom, lhdOperation, h]

/-- A read whose first operation succeeds. -/
theorem sfsReadblock_ok {l : Lhd} {b : ℕ} (hb : l.InRange b) (h : l.status 0 = .ok) :
    ∃ l', sfsReadblock b l = .ok (l.sectors b) l' ∧ l'.sectors = l.sectors ∧ l'.dBlocks = l.dBlocks ∧
      l'.status = fun i => l.status (i + 1) := by
  obtain ⟨u, hio, hmem⟩ := devopIo_read_ok hb h
  set l1 : Lhd := { l with lhBuf := (l.sectors b).get, status := fun i => l.status (i + 1) }
  refine ⟨l1, ?_, rfl, rfl, rfl⟩
  unfold sfsReadblock sfsRwblock sfsRwblockLoop
  rw [← sfsUioRead, sfsRwblockTry_ok hio]
  exact congrArg (fun d => Outcome.ok d l1) hmem

/-- What a read that returned has done. -/
def ReadSector (l : Lhd) (b : ℕ) (t : Lhd × Uio) : Prop :=
  Bytes.ofFun t.2.mem = l.sectors b ∧ t.1.sectors = l.sectors ∧ t.1.dBlocks = l.dBlocks

/-- One turn of the retries of a read. -/
theorem sfsRwblockTry_read {more : Prog Errno (Lhd × Uio) Unit} {l : Lhd} {b : ℕ} (hb : l.InRange b)
    (hmore : Prog.Returns more (fun _ => ReadSector l b) ({ l with status := fun i => l.status (i + 1) }, sfsUioRead b)) :
    Prog.Returns (sfsRwblockTry more) (fun _ => ReadSector l b) (l, sfsUioRead b) := by
  intro a t ht
  cases h : l.status 0 with
  | ok =>
    obtain ⟨u, hio, hmem⟩ := devopIo_read_ok hb h
    rw [sfsRwblockTry_ok hio] at ht
    cases ht
    exact ⟨hmem, rfl, rfl⟩
  | media =>
    rw [sfsRwblockTry_eio (devopIo_read_error hb (congrArg lhdCodeToErrno h))] at ht
    exact hmore a t ht
  | invsect =>
    rw [sfsRwblockTry_einval (devopIo_read_error hb (congrArg lhdCodeToErrno h))] at ht
    cases ht

theorem sfsRwblockLoop_read {b : ℕ} (n : ℕ) : ∀ {l : Lhd}, l.InRange b →
    Prog.Returns (sfsRwblockLoop n) (fun _ => ReadSector l b) (l, sfsUioRead b) := by
  induction n with
  | zero => exact fun hb => sfsRwblockTry_read hb ((Prog.returns_fail _).mpr trivial)
  | succ n ih => exact fun {l} hb => sfsRwblockTry_read hb (ih (l := { l with status := fun i => l.status (i + 1) }) hb)

/-- **A block read that returns** read the sector, after any retries. -/
theorem sfsReadblock_returns {l : Lhd} {b : ℕ} (hb : l.InRange b) : Prog.Returns (sfsReadblock b)
    (fun d l' => d = l.sectors b ∧ l'.sectors = l.sectors ∧ l'.dBlocks = l.dBlocks) l := by
  intro d l' h
  unfold sfsReadblock at h
  rw [← sfsUioRead] at h
  cases hr : sfsRwblock (l, sfsUioRead b) with
  | ok a t =>
    rw [hr] at h
    cases h
    exact sfsRwblockLoop_read 10 hb a t hr
  | fail e t => rw [hr] at h; cases h
  | stop => rw [hr] at h; cases h

/-- **A failed write is not retried.** The card reports a media error on the
first operation; the call returns 0 and the disk is as it was. -/
theorem sfsWriteblock_media (data : Block) {l : Lhd} {b : ℕ} (hb : l.InRange b) (h : l.status 0 = .media) :
    ∃ l', sfsWriteblock b data l = .ok () l' ∧ l'.sectors = l.sectors ∧ l'.dBlocks = l.dBlocks ∧
      l'.status = fun i => l.status (i + 1) := by
  obtain ⟨buf, -, hs⟩ := lhdSector_sfsUio l data b
  set l1 : Lhd := { l with lhBuf := buf, status := fun i => l.status (i + 1) } with hl1
  have hfail : DevOps.devopIo (l, sfsUio data b .write) = .fail .eio (l1, sfsUioDone data b) := by
    show lhdIo _ = _
    rw [lhdIo_sector rfl rfl hb]
    refine hs.trans ?_
    simp only [Prog.zoom, lhdOperation, h, lhdCodeToErrno, hl1]
  -- the retry finds the residue at 0 and does not touch the card
  have hretry : DevOps.devopIo (l1, sfsUioDone data b) = .ok () (l1, sfsUioDone data b) := by
    refine lhdIo_nothing (b := b) ?_ ?_ hb
    · rw [Nat.succ_mul]
      rfl
    · exact (advance_resid (sfsUio data b .write) (n := 512) (Nat.le_refl _)).trans (Nat.sub_self 512)
  refine ⟨l1, ?_, rfl, rfl, rfl⟩
  unfold sfsWriteblock sfsRwblock sfsRwblockLoop
  rw [sfsRwblockTry_eio hfail]
  unfold sfsRwblockLoop
  rw [sfsRwblockTry_ok hretry]

/-- A sector that the card refuses stops the machine. -/
theorem sfsWriteblock_invsect (data : Block) {l : Lhd} {b : ℕ} (hb : l.InRange b) (h : l.status 0 = .invsect) :
    sfsWriteblock b data l = .stop := by
  obtain ⟨buf, -, hs⟩ := lhdSector_sfsUio l data b
  have hfail : DevOps.devopIo (l, sfsUio data b .write) =
      .fail .einval ({ l with lhBuf := buf, status := fun i => l.status (i + 1) }, sfsUioDone data b) := by
    show lhdIo _ = _
    rw [lhdIo_sector rfl rfl hb]
    refine hs.trans ?_
    simp only [Prog.zoom, lhdOperation, h, lhdCodeToErrno]
  unfold sfsWriteblock sfsRwblock sfsRwblockLoop
  rw [sfsRwblockTry_einval hfail]

/-- **A block write on the disk never fails.** It returns, stored or not, or
the card refuses the sector and the machine stops. -/
theorem sfsWriteblock_cases (data : Block) {l : Lhd} {b : ℕ} (hb : l.InRange b) :
    (∃ l', sfsWriteblock b data l = .ok () l' ∧ l'.dBlocks = l.dBlocks ∧ l'.status = fun i => l.status (i + 1)) ∨
      (sfsWriteblock b data l = .stop ∧ l.status 0 = .invsect) := by
  cases h : l.status 0 with
  | ok =>
    obtain ⟨l', hw, -, hd, hst⟩ := sfsWriteblock_ok data hb h
    exact Or.inl ⟨l', hw, hd, hst⟩
  | media =>
    obtain ⟨l', hw, -, hd, hst⟩ := sfsWriteblock_media data hb h
    exact Or.inl ⟨l', hw, hd, hst⟩
  | invsect => exact Or.inr ⟨sfsWriteblock_invsect data hb h, rfl⟩

/-- A block past the end of the disk stops the machine. -/
theorem sfsWriteblock_outside {l : Lhd} {data : Block} {b : ℕ} (hb : b < 2 ^ 32) (hout : l.dBlocks < wadd b 1) :
    sfsWriteblock b data l = .stop := by
  have hio : DevOps.devopIo (l, sfsUio data b .write) = .fail .einval (l, sfsUio data b .write) :=
    lhdIo_outside rfl rfl hb hout
  unfold sfsWriteblock sfsRwblock sfsRwblockLoop
  rw [sfsRwblockTry_einval hio]

/-- **When a block write that returned 0 is on the disk.** The hardware reports
success or a media error on each operation. A returned write is stored
exactly when the first operation succeeded, or the sector held the same data
before, or the block is past the end (and the call does not return). -/
theorem sfsWriteblock_stored_iff (l : Lhd) (data : Block) (b : ℕ) (hb : b < 2 ^ 32)
    (hst : ∀ i, l.status i ≠ .invsect) :
    (∀ l', sfsWriteblock b data l = .ok () l' → l'.sectors b = data) ↔
      l.status 0 = .ok ∨ l.sectors b = data ∨ l.dBlocks < wadd b 1 := by
  by_cases hout : l.dBlocks < wadd b 1
  · simp [sfsWriteblock_outside hb hout, hout]
  · have hr : l.InRange b := ⟨hb, Nat.le_of_not_lt hout⟩
    cases h0 : l.status 0 with
    | ok =>
      obtain ⟨l', hw, hsec, -, -⟩ := sfsWriteblock_ok data hr h0
      simp [hw, hsec]
    | invsect => exact absurd h0 (hst 0)
    | media =>
      obtain ⟨l', hw, hsec, -, -⟩ := sfsWriteblock_media data hr h0
      simp [hw, hsec, hout]

/-- A disk of one block of zeros whose first operation reports a media error. -/
def lhdFailsOnce : Lhd where
  dBlocks := 1
  lhBuf := fun _ => 0
  sectors := fun _ _ => 0
  status := fun i => if i = 0 then .media else .ok

theorem lhdFailsOnce_inRange : lhdFailsOnce.InRange 0 :=
  Lhd.inRange_of_lt (by decide) (by decide)

/-- A write of ones to `lhdFailsOnce` returns 0 and is lost. -/
theorem sfsWriteblock_lost : ¬ ∀ l', sfsWriteblock 0 (fun _ => 1) lhdFailsOnce = .ok () l' →
    l'.sectors 0 = fun _ => 1 := by
  obtain ⟨l', hw, hsec, -, -⟩ := sfsWriteblock_media (fun _ => 1) lhdFailsOnce_inRange rfl
  intro h
  have h1 := h l' hw
  rw [hsec] at h1
  exact absurd (congrFun h1 0) (by decide)

/-- A write of what `lhdFailsOnce` holds already is not. -/
theorem sfsWriteblock_stored_iff_failsOnce :
    lhdFailsOnce.sectors 0 = (fun _ => 0) ∧
      ∀ l', sfsWriteblock 0 (fun _ => 0) lhdFailsOnce = .ok () l' → l'.sectors 0 = fun _ => 0 := by
  have hst : ∀ i, lhdFailsOnce.status i ≠ .invsect := by
    intro i
    unfold lhdFailsOnce
    dsimp only
    split_ifs <;> decide
  exact ⟨rfl, (sfsWriteblock_stored_iff lhdFailsOnce (fun _ => 0) 0 (by decide) hst).mpr (Or.inr (Or.inl rfl))⟩

end Os161
