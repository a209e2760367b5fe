/-
# Mounting a volume

`sfs_domount` and the freemap I/O of `kern/fs/sfs/sfs_fsops.c`. The mount
routine runs over the `struct sfs_fs` it allocates, whose first contents are
arbitrary except for the device it is given. What it leaves out: the big lock,
the warning about a device that is too small, and the destruction of the
structure when it fails.

`sfsDomount_returns` says what is in the freemap of a volume once it is
mounted, on a disk that may fail; `sfsDomount_ok`, that a disk that works is
mounted.
-/
import Os161.Sfs.Fs

namespace Os161

/-- `SFS_SUPER_BLOCK`. -/
def sfsSuperBlock : ℕ := 0

/-- `SFS_MAGIC`. -/
def sfsMagic : ℕ := 0xabadf001

/-! ### `struct sfs_superblock` -/

def Block.sbMagic (i : Block) : ℕ := Bytes.field i 0 4
def Block.sbNblocks (i : Block) : ℕ := Bytes.field i 4 4

/-- `struct sfs_fs` with the superblock. -/
structure SfsMount (δ : Type) where
  fs : SfsFs δ
  sfsSb : Block
  sfsSuperdirty : Bool

/-- Sector `j` of the freemap in memory. -/
def Freemap.getBlock (b : Freemap) (j : ℕ) : Block := Bytes.ofFun fun i => UInt8.ofBitVec (b.v (j * 512 + i))

/-- Overwrite sector `j` of the freemap. -/
def Freemap.putBlock (b : Freemap) (j : ℕ) (data : Block) : Freemap :=
  { b with v := fun i => if j * 512 ≤ i ∧ i < j * 512 + 512 then (data.get (i - j * 512)).toBitVec else b.v i }

variable {δ : Type} [DevOps δ]

/-- One turn of the loop of `sfs_freemapio`. -/
def sfsFreemapioBlock (rw : UioRw) (j : ℕ) : Prog Errno (SfsFs δ) Unit :=
  match rw with
  | .read => do
    let data ← Sfs.dev (sfsReadblock (sfsFreemapStart + j))
    Prog.modify fun s => { s with sfsFreemap := s.sfsFreemap.putBlock j data }
  | .write => do
    let data ← Prog.gets fun s => s.sfsFreemap.getBlock j
    Sfs.dev (sfsWriteblock (sfsFreemapStart + j) data)

/-- `sfs_freemapio`. -/
def sfsFreemapio (rw : UioRw) : Prog Errno (SfsFs δ) Unit := do
  let freemapblocks ← Prog.gets fun s => sfsFreemapblocks s.sbNblocks
  Prog.forUp freemapblocks (sfsFreemapioBlock rw)

omit [DevOps δ] in
/-- `sfs_fs_create`: the structure and its `sfs_vnodes` are allocated. -/
def sfsFsCreate : Prog Errno (SfsMount δ) Unit := do
  Prog.zoom SfsMount.fs (fun f s => { s with fs := f }) Sfs.kmalloc
  Prog.zoom SfsMount.fs (fun f s => { s with fs := f }) Sfs.kmalloc
  Prog.modify fun s => { s with sfsSuperdirty := false, fs := { s.fs with sfsVnodes := [], sfsFreemapdirty := false } }

omit [DevOps δ] in
/-- `bitmap_create`, the structure and its words allocated. -/
def sfsFreemapCreate : Prog Errno (SfsFs δ) Unit := do
  Sfs.kmalloc
  Sfs.kmalloc
  Prog.modify fun s => { s with sfsFreemap := bitmapCreate (sfsFreemapbits s.sbNblocks) }

/-- `sfs_domount`, on a device with sectors of `dBlocksize` bytes. -/
def sfsDomount (dBlocksize : ℕ) : Prog Errno (SfsMount δ) Unit := do
  if dBlocksize ≠ 512 then Prog.fail .enxio
  else do
    sfsFsCreate
    let sb ← Prog.zoom SfsMount.fs (fun f s => { s with fs := f }) (Sfs.dev (sfsReadblock sfsSuperBlock))
    if sb.sbMagic ≠ sfsMagic then Prog.fail .einval
    else do
      -- the last byte of the volume name is forced to 0
      Prog.modify fun s => { s with sfsSb := Bytes.setField sb 39 1 0, fs := { s.fs with sbNblocks := sb.sbNblocks } }
      Prog.zoom SfsMount.fs (fun f s => { s with fs := f }) sfsFreemapCreate
      Prog.zoom SfsMount.fs (fun f s => { s with fs := f }) (sfsFreemapio .read)

/-! ### What is in the freemap -/

/-- Bit `b` of the freemap on the disk. -/
def freemapBit (sectors : ℕ → Block) (b : ℕ) : Bool :=
  ((sectors (sfsFreemapStart + b / 4096)).get (b / 8 % 512)).toBitVec.getLsbD (b % 8)

/-- The freemap in memory holds the first `j` sectors of the one on the disk. -/
def FreemapRead (sectors : ℕ → Block) (j : ℕ) (s : SfsFs Lhd) : Prop :=
  ∀ i < j * 512, s.sfsFreemap.v i = ((sectors (sfsFreemapStart + i / 512)).get (i % 512)).toBitVec

theorem FreemapRead.bit {sectors : ℕ → Block} {j b : ℕ} {s : SfsFs Lhd} (h : FreemapRead sectors j s)
    (hb : b < j * 4096) : s.sfsFreemap.bit b = freemapBit sectors b := by
  unfold Freemap.bit Bitmap.bit freemapBit
  rw [h (b / 8) (by omega), Nat.div_div_eq_div_mul]

theorem FreemapRead.putBlock {sectors : ℕ → Block} {j : ℕ} {s : SfsFs Lhd} (h : FreemapRead sectors j s) :
    FreemapRead sectors (j + 1) { s with sfsFreemap := s.sfsFreemap.putBlock j (sectors (sfsFreemapStart + j)) } := by
  intro i hi
  show (if j * 512 ≤ i ∧ i < j * 512 + 512 then _ else s.sfsFreemap.v i) = _
  rcases Nat.lt_or_ge i (j * 512) with hlt | hge
  · rw [if_neg fun hc => Nat.not_le.mpr hlt hc.1]
    exact h i hlt
  · have hdiv : i / 512 = j := by omega
    have hmod : i % 512 = i - j * 512 := by omega
    rw [if_pos ⟨hge, by omega⟩, hdiv, hmod]

/-- A mount under way: the volume on the disk has `n` blocks, and `j` sectors
of its freemap are in memory. -/
structure Mounting (l : Lhd) (n j : ℕ) (s : SfsFs Lhd) : Prop where
  sectors : s.sfsDevice.sectors = l.sectors
  dBlocks : s.sfsDevice.dBlocks = l.dBlocks
  sbNblocks : s.sbNblocks = n
  nbits : s.sfsFreemap.nbits = sfsFreemapbits n
  freemap : FreemapRead l.sectors j s

variable {l : Lhd} {n : ℕ}

theorem sfsFreemapioBlock_returns {j : ℕ} {s : SfsFs Lhd} (hj : l.InRange (sfsFreemapStart + j))
    (h : Mounting l n j s) : Prog.Returns (sfsFreemapioBlock .read j) (fun _ => Mounting l n (j + 1)) s := by
  have hr : s.sfsDevice.InRange (sfsFreemapStart + j) := ⟨hj.1, h.dBlocks ▸ hj.2⟩
  show Prog.Returns (_ >>= _) _ s
  rw [Prog.returns_bind]
  refine Prog.returns_zoom (Prog.returns_mono (sfsReadblock_returns hr) fun data d hd => ?_)
  rw [Prog.returns_modify]
  obtain ⟨rfl, hsec, hblocks⟩ := hd
  refine ⟨hsec.trans h.sectors, hblocks.trans h.dBlocks, h.sbNblocks, h.nbits, ?_⟩
  rw [h.sectors]
  exact h.freemap.putBlock

theorem sfsFreemapio_returns {s : SfsFs Lhd} (hl : l.dBlocks < 2 ^ 32)
    (hroom : sfsFreemapStart + sfsFreemapblocks n ≤ l.dBlocks) (h : Mounting l n 0 s) :
    Prog.Returns (sfsFreemapio .read) (fun _ => Mounting l n (sfsFreemapblocks n)) s := by
  unfold sfsFreemapio
  rw [Prog.returns_bind, Prog.returns_gets, h.sbNblocks]
  refine Prog.returns_forUp (I := Mounting l n) h fun j hj t ht => ?_
  exact sfsFreemapioBlock_returns (Lhd.inRange_of_lt (by omega) hl) ht

omit [DevOps δ] in
theorem kmalloc_returns_of {s : SfsFs δ} {Q : Unit → SfsFs δ → Prop}
    (h : Q () { s with kmallocs := fun i => s.kmallocs (i + 1) }) : Prog.Returns Sfs.kmalloc Q s := by
  intro a t ht
  unfold Sfs.kmalloc at ht
  dsimp only at ht
  split_ifs at ht
  cases ht
  exact h

/-- **A mounted volume.** If the mount routine returns, the freemap in memory
is the one on the disk. -/
theorem sfsDomount_returns {m : SfsMount Lhd} {dBlocksize : ℕ} (hd : m.fs.sfsDevice.dBlocks < 2 ^ 32)
    (hroom : sfsFreemapStart + sfsFreemapblocks (m.fs.sfsDevice.sectors 0).sbNblocks ≤ m.fs.sfsDevice.dBlocks) :
    Prog.Returns (sfsDomount dBlocksize) (fun _ t => Mounting m.fs.sfsDevice (m.fs.sfsDevice.sectors 0).sbNblocks
      (sfsFreemapblocks (m.fs.sfsDevice.sectors 0).sbNblocks) t.fs) m := by
  unfold sfsDomount sfsFsCreate
  simp only [Prog.returns_ite, Prog.returns_fail, implies_true, true_and, Prog.returns_bind]
  intro _
  refine Prog.returns_zoom (kmalloc_returns_of (Prog.returns_zoom (kmalloc_returns_of ?_)))
  rw [Prog.returns_modify]
  have h0 : m.fs.sfsDevice.InRange sfsSuperBlock := Lhd.inRange_of_lt (by unfold sfsSuperBlock; unfold sfsFreemapStart at hroom; omega) hd
  refine Prog.returns_zoom (Prog.returns_zoom (Prog.returns_mono (sfsReadblock_returns h0) fun sb d hsb => ?_))
  obtain ⟨rfl, hsec, hblocks⟩ := hsb
  simp only [Prog.returns_modify]
  intro _
  refine Prog.returns_zoom ?_
  unfold sfsFreemapCreate
  rw [Prog.returns_bind]
  refine kmalloc_returns_of ?_
  rw [Prog.returns_bind]
  refine kmalloc_returns_of ?_
  rw [Prog.returns_modify]
  refine Prog.returns_zoom (sfsFreemapio_returns hd hroom ⟨hsec, hblocks, rfl, rfl, fun i hi => ?_⟩)
  omega

/-! ### A disk that works -/

/-- The disk works, and memory does not run out. -/
structure Works (d : ℕ) (s : SfsFs Lhd) : Prop where
  status : ∀ i, s.sfsDevice.status i = .ok
  kmallocs : ∀ i, s.kmallocs i = true
  dBlocks : s.sfsDevice.dBlocks = d

section

variable {d : ℕ} {s : SfsFs Lhd} {E : Errno → SfsFs Lhd → Prop}

theorem kmalloc_works (h : Works d s) : Prog.wp Sfs.kmalloc
    (fun _ t => Works d t ∧ t.sfsDevice = s.sfsDevice ∧ t.sbNblocks = s.sbNblocks) E s := by
  unfold Prog.wp Sfs.kmalloc
  dsimp only
  rw [if_pos (h.kmallocs 0)]
  exact ⟨⟨h.status, fun i => h.kmallocs (i + 1), h.dBlocks⟩, rfl, rfl⟩

theorem sfsReadblock_works {b : ℕ} (hb : b < d) (hd : d < 2 ^ 32) (h : Works d s) :
    Prog.wp (Sfs.dev (sfsReadblock b)) (fun data t => data = s.sfsDevice.sectors b ∧ Works d t) E s := by
  obtain ⟨l', hr, -, hblocks, hst⟩ :=
    sfsReadblock_ok (Lhd.inRange_of_lt (hb.trans_eq h.dBlocks.symm) (h.dBlocks.trans_lt hd)) (h.status 0)
  rw [Sfs.dev, Prog.wp_zoom]
  unfold Prog.wp
  rw [hr]
  exact ⟨rfl, fun i => (congrFun hst i).trans (h.status (i + 1)), h.kmallocs, hblocks.trans h.dBlocks⟩

theorem sfsFreemapio_works (hroom : sfsFreemapStart + sfsFreemapblocks s.sbNblocks ≤ d) (hd : d < 2 ^ 32)
    (h : Works d s) : Prog.wp (sfsFreemapio .read) (fun _ => Works d) E s := by
  unfold sfsFreemapio
  rw [Prog.wp_bind, Prog.wp_gets]
  refine Prog.wp_forUp (I := fun _ => Works d) h fun j hj t ht => ?_
  show Prog.wp (_ >>= _) _ _ t
  rw [Prog.wp_bind]
  refine Prog.wp_mono (sfsReadblock_works (by omega) hd ht) (fun data u hu => ?_) fun _ _ he => he
  exact ⟨hu.2.status, hu.2.kmallocs, hu.2.dBlocks⟩

end

/-- **Mounting on a disk that works** returns. -/
theorem sfsDomount_ok {m : SfsMount Lhd} {d : ℕ} (h : Works d m.fs) (hd : d < 2 ^ 32)
    (hmagic : (m.fs.sfsDevice.sectors 0).sbMagic = sfsMagic)
    (hroom : sfsFreemapStart + sfsFreemapblocks (m.fs.sfsDevice.sectors 0).sbNblocks ≤ d) :
    Prog.wp (sfsDomount 512) (fun _ _ => True) (fun _ _ => False) m := by
  have h0 : sfsSuperBlock < d := by
    unfold sfsSuperBlock
    unfold sfsFreemapStart at hroom
    omega
  unfold sfsDomount sfsFsCreate
  simp only [ne_eq, not_true_eq_false, if_false, Prog.wp_bind, Prog.wp_zoom, Prog.wp_modify]
  refine Prog.wp_mono (kmalloc_works h) (fun _ s1 h1 => ?_) fun _ _ he => he
  refine Prog.wp_mono (kmalloc_works h1.1) (fun _ s2 h2 => ?_) fun _ _ he => he
  have hdev : s2.sfsDevice = m.fs.sfsDevice := h2.2.1.trans h1.2.1
  have hw : Works d { s2 with sfsVnodes := [], sfsFreemapdirty := false } := ⟨h2.1.status, h2.1.kmallocs, h2.1.dBlocks⟩
  refine Prog.wp_mono (sfsReadblock_works h0 hd hw) (fun sb s3 h3 => ?_) fun _ _ he => he
  obtain rfl : sb = m.fs.sfsDevice.sectors 0 := h3.1.trans (congrArg (fun l => l.sectors 0) hdev)
  simp only [hmagic, not_true_eq_false, if_false, Prog.wp_bind, Prog.wp_zoom, Prog.wp_modify, sfsFreemapCreate]
  have hn : Works d { s3 with sbNblocks := (m.fs.sfsDevice.sectors 0).sbNblocks } := ⟨h3.2.status, h3.2.kmallocs, h3.2.dBlocks⟩
  refine Prog.wp_mono (kmalloc_works hn) (fun _ s4 h4 => ?_) fun _ _ he => he
  refine Prog.wp_mono (kmalloc_works h4.1) (fun _ s5 h5 => ?_) fun _ _ he => he
  have hroom' : sfsFreemapStart + sfsFreemapblocks s5.sbNblocks ≤ d := by
    rw [h5.2.2, h4.2.2]
    exact hroom
  refine Prog.wp_mono (sfsFreemapio_works (E := fun _ _ => False) hroom' hd ?_) (fun _ _ _ => trivial) fun _ _ he => he
  exact ⟨h5.1.status, h5.1.kmallocs, h5.1.dBlocks⟩

end Os161
