/-
# Making a volume

`userland/sbin/mksfs/mksfs.c`: the freemap is built in `freemapbuf`, which
`allocblock` marks bit by bit, and the superblock, the freemap and the root
directory are written to a disk of `n` blocks. A message to the user and
`exit(1)` is a failure (`MksfsError`), a failed `assert` stops the program.
`diskwrite` is one store; an error of the disk ends the program and leaves no
volume.

`mksfs_wp`: what `mksfs` leaves on the disk, and that it returns on every
size it accepts.
-/
import Os161.Sfs.Mount

namespace Os161

/-- The messages of `errx`. -/
inductive MksfsError
  | illegalVolumeName
  | filesystemTooLarge
  | volumeNameTooLong

/-- `freemapbuf` and the disk. -/
structure Mksfs where
  freemapbuf : ℕ → BitVec 8
  disk : ℕ → Block

/-- `MAXFREEMAPBLOCKS`. -/
def maxFreemapblocks : ℕ := 32

/-- `SFS_VOLNAME_SIZE`. -/
def sfsVolnameSize : ℕ := 32

/-- `diskwrite`: the offset of the block is computed in 32 bits. -/
def diskwrite (data : Block) (block : ℕ) : Prog MksfsError Mksfs Unit :=
  Prog.modify fun m => { m with disk := Function.update m.disk (wcast (block * 512) / 512) data }

/-- `allocblock`. -/
def allocblock (block : ℕ) : Prog MksfsError Mksfs Unit := do
  let m ← Prog.get
  Prog.assert (Bitmap.bit m.freemapbuf block = false)
  Prog.modify fun m => { m with freemapbuf := Bitmap.mark m.freemapbuf (block / 8) (block % 8) }

/-- `initfreemap`. -/
def initfreemap (fsblocks : ℕ) : Prog MksfsError Mksfs Unit := do
  if maxFreemapblocks < sfsFreemapblocks fsblocks then Prog.fail .filesystemTooLarge
  else do
    allocblock sfsSuperBlock
    allocblock sfsRootdirIno
    Prog.forUp (sfsFreemapblocks fsblocks) fun i => allocblock (sfsFreemapStart + i)
    Prog.forUp (sfsFreemapbits fsblocks - fsblocks) fun i => allocblock (fsblocks + i)

/-- The superblock that `writesuper` fills in. -/
def mksfsSuper (volname : List UInt8) (nblocks : ℕ) : Block :=
  let sb := Bytes.setField (Bytes.setField Block.zeros 0 4 sfsMagic) 4 4 nblocks
  -- `strcpy(sb.sb_volname, volname)`
  Bytes.ofFun (sb.get.blit 8 (fun i => volname.getD i 0) 0 (volname.length + 1))

/-- `writesuper`. -/
def writesuper (volname : List UInt8) (nblocks : ℕ) : Prog MksfsError Mksfs Unit := do
  if sfsVolnameSize ≤ volname.length then Prog.fail .volumeNameTooLong
  else diskwrite (mksfsSuper volname nblocks) sfsSuperBlock

/-- Sector `i` of `freemapbuf`. -/
def Mksfs.freemapSector (m : Mksfs) (i : ℕ) : Block := Bytes.ofFun fun k => UInt8.ofBitVec (m.freemapbuf (i * 512 + k))

/-- `writefreemap`. -/
def writefreemap (fsblocks : ℕ) : Prog MksfsError Mksfs Unit :=
  Prog.forUp (sfsFreemapblocks fsblocks) fun i => do
    let m ← Prog.get
    diskwrite (m.freemapSector i) (sfsFreemapStart + i)

/-- `writerootdir`. -/
def writerootdir : Prog MksfsError Mksfs Unit :=
  diskwrite (((Block.zeros.setSize 0).setType sfsTypeDir).setLinkcount 1) sfsRootdirIno

/-- The checks of `main` on the volume name: one colon at the end is removed,
and there is no slash. -/
def mksfsVolname (volname : List UInt8) : Option (List UInt8) :=
  let stem := volname.takeWhile (· ≠ 58)
  if volname.length ≤ stem.length + 1 ∧ 47 ∉ stem then some stem else none

/-- `main`, on a disk of `size` blocks. -/
def mksfs (volname : List UInt8) (size : ℕ) : Prog MksfsError Mksfs Unit :=
  match mksfsVolname volname with
  | none => Prog.fail .illegalVolumeName
  | some volname => do
    initfreemap size
    writesuper volname size
    writefreemap size
    writerootdir

/-! ### The freemap in memory -/

variable {E : MksfsError → Mksfs → Prop}

theorem allocblock_wp {block : ℕ} {m : Mksfs} (h : Bitmap.bit m.freemapbuf block = false) :
    Prog.wp (allocblock block) (fun _ t => ∀ k, Bitmap.bit t.freemapbuf k =
      (Bitmap.bit m.freemapbuf k || decide (k = block))) E m := by
  unfold allocblock
  simp only [Prog.wp_bind, Prog.wp_get, Prog.wp_assert, Prog.wp_modify]
  refine ⟨h, fun k => ?_⟩
  rw [Bitmap.bit_mark (Nat.mod_lt _ (by decide)), Nat.div_add_mod']

/-- A loop of `allocblock` over clear bits. -/
theorem allocblocks_wp {start n : ℕ} {m : Mksfs}
    (h : ∀ k, start ≤ k → k < start + n → Bitmap.bit m.freemapbuf k = false) :
    Prog.wp (Prog.forUp n fun i => allocblock (start + i)) (fun _ t => ∀ k, Bitmap.bit t.freemapbuf k =
      (Bitmap.bit m.freemapbuf k || decide (start ≤ k ∧ k < start + n))) E m := by
  refine Prog.wp_forUp (I := fun i (t : Mksfs) => ∀ k, Bitmap.bit t.freemapbuf k =
    (Bitmap.bit m.freemapbuf k || decide (start ≤ k ∧ k < start + i))) (fun k => ?_) fun i hi t ht => ?_
  · simp
  · have hclear : Bitmap.bit t.freemapbuf (start + i) = false := by
      rw [ht, h _ (by omega) (by omega)]
      simp
    refine Prog.wp_mono (allocblock_wp hclear) (fun _ u hu k => ?_) fun _ _ he => he
    rw [hu, ht, Bool.or_assoc, ← Bool.decide_or]
    congr 1
    exact decide_eq_decide.mpr (by omega)

/-- **`initfreemap`** marks the system blocks and the bits past the end. -/
theorem initfreemap_wp {n : ℕ} {m : Mksfs} (hzero : ∀ k, Bitmap.bit m.freemapbuf k = false)
    (hmax : sfsFreemapblocks n ≤ maxFreemapblocks) (hroom : sfsFreemapStart + sfsFreemapblocks n ≤ n) :
    Prog.wp (initfreemap n) (fun _ t => ∀ k, Bitmap.bit t.freemapbuf k =
      decide (k < sfsFreemapStart + sfsFreemapblocks n ∨ n ≤ k ∧ k < sfsFreemapbits n)) E m := by
  unfold initfreemap
  rw [if_neg (Nat.not_lt.mpr hmax)]
  simp only [Prog.wp_bind]
  refine Prog.wp_mono (allocblock_wp (hzero _)) (fun _ t1 h1 => ?_) fun _ _ he => he
  have hclear1 : Bitmap.bit t1.freemapbuf sfsRootdirIno = false := by
    rw [h1, hzero]
    decide
  refine Prog.wp_mono (allocblock_wp hclear1) (fun _ t2 h2 => ?_) fun _ _ he => he
  have hbit2 : ∀ k, Bitmap.bit t2.freemapbuf k = decide (k < 2) := by
    intro k
    rw [h2, h1, hzero, Bool.false_or, ← Bool.decide_or]
    exact decide_eq_decide.mpr (by unfold sfsSuperBlock sfsRootdirIno; omega)
  unfold sfsFreemapStart at hroom ⊢
  refine Prog.wp_mono (allocblocks_wp fun k hk _ => ?_) (fun _ t3 h3 => ?_) fun _ _ he => he
  · rw [hbit2]
    exact decide_eq_false (by omega)
  · have hbit3 : ∀ k, Bitmap.bit t3.freemapbuf k = decide (k < 2 + sfsFreemapblocks n) := by
      intro k
      rw [h3, hbit2, ← Bool.decide_or]
      exact decide_eq_decide.mpr (by omega)
    refine Prog.wp_mono (allocblocks_wp fun k hk _ => ?_) (fun _ t4 h4 k => ?_) fun _ _ he => he
    · rw [hbit3]
      exact decide_eq_false (by omega)
    · rw [h4, hbit3, ← Bool.decide_or]
      exact decide_eq_decide.mpr (by omega)

/-! ### The image -/

theorem diskwrite_eq {data : Block} {block : ℕ} (h : block ≤ sfsFreemapStart + maxFreemapblocks) :
    diskwrite data block = Prog.modify fun m => { m with disk := Function.update m.disk block data } := by
  have hlt : block * 512 < 2 ^ 32 := by
    unfold sfsFreemapStart maxFreemapblocks at h
    omega
  unfold diskwrite
  rw [wcast_of_lt hlt, Nat.mul_div_cancel _ (by decide)]

theorem mksfsSuper_sbMagic (volname : List UInt8) (n : ℕ) : (mksfsSuper volname n).sbMagic = sfsMagic := by
  unfold mksfsSuper Block.sbMagic
  dsimp only
  rw [Bytes.field_ofFun _ (by decide), Buf.getBE_congr fun i hi => Buf.blit_outside _ _ _ _ _ (by omega)]
  exact (Bytes.field_setField_of_disjoint _ _ (by decide) (by decide)).trans (Bytes.field_setField_same _ _ (by decide))

theorem mksfsSuper_sbNblocks (volname : List UInt8) {n : ℕ} (hn : n < 2 ^ 32) :
    (mksfsSuper volname n).sbNblocks = n := by
  unfold mksfsSuper Block.sbNblocks
  dsimp only
  rw [Bytes.field_ofFun _ (by decide), Buf.getBE_congr fun i hi => Buf.blit_outside _ _ _ _ _ (by omega)]
  exact (Bytes.field_setField_same _ _ (by decide)).trans (Nat.mod_eq_of_lt (by omega))

theorem freemapBit_sector {m : Mksfs} {D : ℕ → Block} {k : ℕ}
    (h : D (sfsFreemapStart + k / 4096) = m.freemapSector (k / 4096)) : freemapBit D k = Bitmap.bit m.freemapbuf k := by
  have hi : k / 4096 * 512 + k / 8 % 512 = k / 8 := by omega
  unfold freemapBit Bitmap.bit
  rw [h, Mksfs.freemapSector, Bytes.get_ofFun _ (Nat.mod_lt _ (by decide)), hi]

/-- What is on a disk that `mksfs` has written for `n` blocks. -/
structure Made (n : ℕ) (D : ℕ → Block) : Prop where
  magic : (D sfsSuperBlock).sbMagic = sfsMagic
  nblocks : (D sfsSuperBlock).sbNblocks = n
  freemap : ∀ k < sfsFreemapbits n, freemapBit D k = decide (k < sfsFreemapStart + sfsFreemapblocks n ∨ n ≤ k)

theorem sfsFreemapbits_eq (n : ℕ) : sfsFreemapbits n = sfsFreemapblocks n * 4096 := by
  rw [sfsFreemapblocks_eq, sfsFreemapbits]

theorem writefreemap_wp {n : ℕ} {m : Mksfs} (hmax : sfsFreemapblocks n ≤ maxFreemapblocks) :
    Prog.wp (writefreemap n) (fun _ t => t.disk sfsSuperBlock = m.disk sfsSuperBlock ∧
      ∀ i < sfsFreemapblocks n, t.disk (sfsFreemapStart + i) = m.freemapSector i) E m := by
  unfold writefreemap
  refine Prog.wp_mono (Prog.wp_forUp (I := fun i (t : Mksfs) => t.freemapbuf = m.freemapbuf ∧
    t.disk sfsSuperBlock = m.disk sfsSuperBlock ∧ ∀ j < i, t.disk (sfsFreemapStart + j) = m.freemapSector j)
    ⟨rfl, rfl, fun j hj => absurd hj (Nat.not_lt_zero j)⟩ fun i hi t ht => ?_) (fun _ t ht => ht.2) fun _ _ he => he
  obtain ⟨hbuf, hsuper, hold⟩ := ht
  rw [Prog.wp_bind, Prog.wp_get, diskwrite_eq (by omega), Prog.wp_modify]
  refine ⟨hbuf, (Function.update_of_ne (by unfold sfsSuperBlock sfsFreemapStart; omega) _ _).trans hsuper, fun j hj => ?_⟩
  dsimp only
  by_cases hji : j = i
  · subst hji
    rw [Function.update_self]
    unfold Mksfs.freemapSector
    rw [hbuf]
  · rw [Function.update_of_ne (by omega)]
    exact hold j (by omega)

/-- **`mksfs` returns** on every size it accepts, and this is what it leaves. -/
theorem mksfs_wp {volname stem : List UInt8} {n : ℕ} {m : Mksfs} (hname : mksfsVolname volname = some stem)
    (hlen : stem.length < sfsVolnameSize) (hzero : ∀ k, Bitmap.bit m.freemapbuf k = false) (hn : n < 2 ^ 32)
    (hmax : sfsFreemapblocks n ≤ maxFreemapblocks) (hroom : sfsFreemapStart + sfsFreemapblocks n ≤ n) :
    Prog.wp (mksfs volname n) (fun _ t => Made n t.disk) E m := by
  unfold mksfs
  rw [hname]
  simp only [Prog.wp_bind]
  refine Prog.wp_mono (initfreemap_wp hzero hmax hroom) (fun _ t1 h1 => ?_) fun _ _ he => he
  unfold writesuper
  rw [if_neg (Nat.not_le.mpr hlen), diskwrite_eq (by decide), Prog.wp_modify]
  refine Prog.wp_mono (writefreemap_wp hmax) (fun _ t2 h2 => ?_) fun _ _ he => he
  obtain ⟨hsuper, hsectors⟩ := h2
  unfold writerootdir
  rw [diskwrite_eq (by decide), Prog.wp_modify]
  have h0 : (Function.update t2.disk sfsRootdirIno (((Block.zeros.setSize 0).setType sfsTypeDir).setLinkcount 1))
      sfsSuperBlock = mksfsSuper stem n :=
    (Function.update_of_ne (by decide) _ _).trans (hsuper.trans (Function.update_self sfsSuperBlock _ t1.disk))
  refine ⟨?_, ?_, fun k hk => ?_⟩
  · exact (congrArg Block.sbMagic h0).trans (mksfsSuper_sbMagic stem n)
  · exact (congrArg Block.sbNblocks h0).trans (mksfsSuper_sbNblocks stem hn)
  · rw [sfsFreemapbits_eq] at hk
    have hi : k / 4096 < sfsFreemapblocks n := Nat.div_lt_of_lt_mul (by omega)
    have hsec := hsectors _ hi
    rw [freemapBit_sector (m := t1), h1]
    · rw [sfsFreemapbits_eq]
      exact decide_eq_decide.mpr (by omega)
    · refine (Function.update_of_ne ?_ _ _).trans hsec
      unfold sfsFreemapStart sfsRootdirIno
      omega

end Os161
