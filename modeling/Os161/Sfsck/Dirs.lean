/-
# `sfsck`: directories on either byte order

`sfsck` is built for OS/161, where the byte swapping is the identity, and for
a host of either byte order, where `SWAP32` is `ntohl` and the image has one
header sector in front of the volume. Here entries are as in memory, with
their inode numbers in the byte order of the platform, and
`sfs_writedirblock` swaps them in place.

`disk.c` computes the place of a block in 32 bits, so a block at `2 ^ 23`
sectors or further into the image is read and written somewhere else. What
`sfs_writedir` wrote `sfs_readdir` gives back, and nothing else is touched,
exactly if no block of the directory is that far up and none of them is the
indirect block (`sfs_writedir_readdir_iff`).
-/
import Os161.Sfsck.Passes

namespace Os161

namespace Sfsck

/-! ### Platforms -/

/-- What `sfsck` was built for: OS/161, or a host. -/
inductive Platform
  | os161
  | bigEndian
  | littleEndian

namespace Platform

variable (p : Platform)

/-- The sectors of the image in front of the volume. -/
def header : ℕ :=
  match p with
  | os161 => 0
  | _ => 1

/-- The block handed to `lseek`, after `block++` on a host. -/
def place (block : ℕ) : ℕ :=
  match p with
  | os161 => block
  | _ => wadd block 1

/-- The sector of the image where the block is looked for. -/
def sector (block : ℕ) : ℕ := seek (p.place block)

/-- `diskread`. -/
def diskread (block : ℕ) : FsckM Block := Sfsck.diskread (p.place block)

/-- `diskwrite`. -/
def diskwrite (data : Block) (block : ℕ) : FsckM Unit := Sfsck.diskwrite data (p.place block)

/-- `swapdir`. -/
def swapdir (d : Dirent) : Dirent :=
  match p with
  | littleEndian => Bytes.ofFun fun a => if a < 4 then d.get (3 - a) else d.get a
  | _ => d

/-- `swapindir`. -/
def swapindir (entries : Block) : Block :=
  match p with
  | littleEndian => Bytes.ofFun fun a => entries.get (a / 4 * 4 + (3 - a % 4))
  | _ => entries

/-- The number `entries[i]` as the platform reads it. -/
def word (entries : Block) (i : ℕ) : ℕ :=
  match p with
  | littleEndian => (entries.get (4 * i)).toNat + 256 * ((entries.get (4 * i + 1)).toNat +
      256 * ((entries.get (4 * i + 2)).toNat + 256 * (entries.get (4 * i + 3)).toNat))
  | _ => entries.entry i

/-- `ibmap`, of one level. -/
def ibmap (iblock offset : ℕ) : FsckM ℕ := do
  if iblock = 0 then pure 0
  else do
    let entries ← p.diskread iblock
    assert (offset < sfsDbperidb)
    pure (p.word (p.swapindir entries) offset)

/-- `bmap`. -/
def bmap (sfi : Block) (fileblock : ℕ) : FsckM ℕ :=
  if fileblock < sfsNdirect then pure (sfi.sfiDirect fileblock)
  else if fileblock < sfsNdirect + sfsDbperidb then p.ibmap sfi.sfiIndirect ((fileblock - sfsNdirect) % sfsDbperidb)
  else pure 0

/-- `sfs_readdirblock`. -/
def sfsReaddirblock (diskblock : ℕ) : FsckM (ℕ → Dirent) := do
  if diskblock ≠ 0 then do
    let b ← p.diskread diskblock
    pure fun j => p.swapdir (direntOf b j)
  else do
    warnx .sparseDirectory
    pure fun _ => Dirent.zeros

/-- The body of the loop of `sfs_readdir`; `x` is the buffer and `left`. -/
def sfsReaddirStep (sfi : Block) (i : ℕ) (x : (ℕ → Dirent) × ℕ) : FsckM ((ℕ → Dirent) × ℕ) := do
  let diskblock ← p.bmap sfi i
  let b ← p.sfsReaddirblock diskblock
  pure (fun k => if i * 8 ≤ k ∧ k < i * 8 + min x.2 8 then b (k - i * 8) else x.1 k, x.2 - min x.2 8)

/-- `sfs_readdir`, into the buffer `d`. -/
def sfsReaddir (sfi : Block) (d : ℕ → Dirent) (nd : ℕ) : FsckM (ℕ → Dirent) := do
  let x ← Prog.foldUp (sfsRoundup nd 8 / 8) (p.sfsReaddirStep sfi) (d, nd)
  assert (x.2 = 0)
  pure x.1

/-- `sfs_writedirblock`, with the entries it leaves in the buffer. Whether an
inode number is 0 does not depend on the byte order. -/
def sfsWritedirblock (d : ℕ → Dirent) (diskblock : ℕ) : FsckM (ℕ → Dirent) := do
  if diskblock ≠ 0 then do
    let d := fun j => p.swapdir (d j)
    p.diskwrite (blockOf d) diskblock
    pure d
  else if holdsEntry (blockOf d) = true then do
    complain exitUnrecov .writeToSparse
    pure d
  else pure d

/-- The body of the loop of `sfs_writedir`; `x` is the buffer and `left`. A
partial block goes through a buffer of its own. -/
def sfsWritedirStep (sfi : Block) (i : ℕ) (x : (ℕ → Dirent) × ℕ) : FsckM ((ℕ → Dirent) × ℕ) := do
  let diskblock ← p.bmap sfi i
  if x.2 < 8 then do
    let _ ← p.sfsWritedirblock (fun j => if j < x.2 then x.1 (i * 8 + j) else Dirent.zeros) diskblock
    pure (x.1, x.2 - x.2)
  else do
    let b ← p.sfsWritedirblock (fun j => x.1 (i * 8 + j)) diskblock
    pure (fun k => if i * 8 ≤ k ∧ k < i * 8 + 8 then b (k - i * 8) else x.1 k, x.2 - 8)

/-- `sfs_writedir`, with the entries it leaves in the buffer. -/
def sfsWritedir (sfi : Block) (d : ℕ → Dirent) (nd : ℕ) : FsckM (ℕ → Dirent) := do
  let x ← Prog.foldUp (sfsRoundup nd 8 / 8) (p.sfsWritedirStep sfi) (d, nd)
  assert (x.2 = 0)
  pure x.1

/-! ### The map of a directory -/

/-- What `bmap` finds on the sectors `f`. -/
def mapOf (f : ℕ → Block) (sfi : Block) (i : ℕ) : ℕ :=
  if i < 15 then sfi.sfiDirect i
  else if i < 143 ∧ sfi.sfiIndirect ≠ 0 then (f (p.sector sfi.sfiIndirect)).entry (i - 15)
  else 0

end Platform

/-- The blocks that `nd` entries take. -/
def dirBlocks (nd : ℕ) : ℕ := (nd + 7) / 8

theorem lt_dirBlocks {nd k : ℕ} (h : k < nd) : k / 8 < dirBlocks nd := by
  unfold dirBlocks
  omega

theorem mul_lt_of_lt_dirBlocks {nd i : ℕ} (h : i < dirBlocks nd) : i * 8 < nd := by
  unfold dirBlocks at h
  omega

/-- The directory's blocks for `nd` entries are mapped to distinct blocks of
the volume, and the disk works. -/
structure DirMapped (p : Platform) (s : Fsck) (sfi : Block) (nd : ℕ) : Prop where
  mapped : ∀ i < dirBlocks nd, p.mapOf s.sectors sfi i ≠ 0
  inside : ∀ i < dirBlocks nd, p.mapOf s.sectors sfi i + p.header < s.nblocks
  distinct : ∀ i < dirBlocks nd, ∀ j < dirBlocks nd, p.mapOf s.sectors sfi i = p.mapOf s.sectors sfi j → i = j
  indirect : 15 < dirBlocks nd → sfi.sfiIndirect + p.header < s.nblocks
  ios : ∀ i, s.ios i = true

/-- `sfs_writedir` and then `sfs_readdir` give back the entries `d`, clear the
rest of the last block and change no sector outside the directory. -/
def RoundTrip (p : Platform) (s : Fsck) (sfi : Block) (nd : ℕ) (d : ℕ → Dirent) : Prop :=
  Prog.wp (do p.sfsReaddir sfi (← p.sfsWritedir sfi d nd) nd)
    (fun e t => (∀ k < nd, e k = d k) ∧
      (∀ k, nd ≤ k → k < 8 * dirBlocks nd →
        direntOf (t.sectors (p.mapOf s.sectors sfi (k / 8) + p.header)) (k % 8) = Dirent.zeros) ∧
      ∀ c, (∀ i < dirBlocks nd, c ≠ p.mapOf s.sectors sfi i + p.header) → t.sectors c = s.sectors c)
    (fun _ _ => False) s

/-! ### Entries and words -/

theorem direntOf_blockOf (d : ℕ → Dirent) {j : ℕ} (hj : j < 8) : direntOf (blockOf d) j = d j := by
  refine Bytes.ext_get fun a ha => ?_
  rw [direntOf, Bytes.get_ofFun _ ha, blockOf, Bytes.get_ofFun _ (show 64 * j + a < 512 by omega)]
  rw [show (64 * j + a) / 64 = j by omega, show (64 * j + a) % 64 = a by omega]

theorem get_zeros (a : ℕ) : Dirent.zeros.get a = 0 := rfl

/-- An entry without an inode that is not all zeros. -/
def stale : Dirent := Bytes.ofFun fun a => if a = 4 then 1 else 0

theorem get_stale {a : ℕ} (ha : a < 64) : stale.get a = if a = 4 then 1 else 0 := Bytes.get_ofFun _ ha

theorem stale_ne_zeros : stale ≠ Dirent.zeros := fun h => by
  have h4 := get_stale (a := 4) (by omega)
  rw [h, get_zeros, if_pos rfl] at h4
  exact absurd h4 (by decide)

theorem exists_dirent_ne (d : Dirent) : ∃ e : Dirent, e ≠ d := by
  by_cases h : d = Dirent.zeros
  · exact ⟨stale, h ▸ stale_ne_zeros⟩
  · exact ⟨Dirent.zeros, Ne.symm h⟩

/-- The first word of a block of entries is an inode number. -/
theorem entry_blockOf (d : ℕ → Dirent) : (blockOf d).entry 0 = (d 0).sfdIno := by
  refine Buf.getBE_congr fun i hi => ?_
  rw [blockOf, Bytes.get_ofFun _ (show 4 * 0 + i < 512 by omega)]
  rw [show (4 * 0 + i) / 64 = 0 by omega, show (4 * 0 + i) % 64 = 0 + i by omega]

namespace Platform

variable (p : Platform)

theorem swapdir_swapdir (d : Dirent) : p.swapdir (p.swapdir d) = d := by
  cases p with
  | os161 => rfl
  | bigEndian => rfl
  | littleEndian =>
    refine Bytes.ext_get fun a ha => ?_
    by_cases h : a < 4
    · simp only [swapdir, Bytes.get_ofFun _ ha, if_pos h]
      rw [Bytes.get_ofFun _ (show 3 - a < 64 by omega), if_pos (by omega), show 3 - (3 - a) = a by omega]
    · simp only [swapdir, Bytes.get_ofFun _ ha, if_neg h]

theorem swapdir_zeros : p.swapdir Dirent.zeros = Dirent.zeros := by
  cases p with
  | os161 => rfl
  | bigEndian => rfl
  | littleEndian =>
    refine Bytes.ext_get fun a ha => ?_
    simp [swapdir, Bytes.get_ofFun _ ha, get_zeros]

theorem sfdIno_swapdir {d : Dirent} (h : ∀ a < 4, d.get a = 0) : (p.swapdir d).sfdIno = 0 := by
  refine Buf.getBE_zero fun a ha => ?_
  cases p with
  | os161 => exact h _ (by omega)
  | bigEndian => exact h _ (by omega)
  | littleEndian =>
    rw [swapdir, Bytes.get_ofFun _ (by omega), if_pos (by omega)]
    exact h _ (by omega)

theorem word_swapindir (b : Block) {i : ℕ} (hi : i < 128) : p.word (p.swapindir b) i = b.entry i := by
  cases p with
  | os161 => rfl
  | bigEndian => rfl
  | littleEndian =>
    have hget : ∀ k < 4, (swapindir littleEndian b).get (4 * i + k) = b.get (4 * i + (3 - k)) := fun k hk => by
      rw [swapindir, Bytes.get_ofFun _ (show 4 * i + k < 512 by omega)]
      congr 1
      omega
    have h0 := hget 0 (by omega)
    have h1 := hget 1 (by omega)
    have h2 := hget 2 (by omega)
    have h3 := hget 3 (by omega)
    simp only [word, Block.entry, Bytes.field, Buf.getBE, Nat.add_zero] at h0 h1 h2 h3 ⊢
    rw [h0, h1, h2, h3]
    norm_num
    omega

theorem sector_eq (b : ℕ) : p.sector b = (b + p.header) % 2 ^ 23 := by
  cases p <;> simp only [sector, seek, place, header] <;> unfold wcast <;> (try unfold wadd) <;> omega

theorem sector_le (b : ℕ) : p.sector b ≤ b + p.header := by
  rw [sector_eq]
  exact Nat.mod_le _ _

theorem mapOf_congr {f g : ℕ → Block} {sfi : Block} (h : g (p.sector sfi.sfiIndirect) = f (p.sector sfi.sfiIndirect))
    (i : ℕ) : p.mapOf g sfi i = p.mapOf f sfi i := by
  simp only [mapOf, h]

end Platform

/-! ### The disk -/

/-- The disk works, and holds `f`. -/
structure OnDisk (N : ℕ) (f : ℕ → Block) (t : Fsck) : Prop where
  ios : ∀ i, t.ios i = true
  nblocks : t.nblocks = N
  sectors : t.sectors = f

section Disk

variable {p : Platform} {N : ℕ} {f : ℕ → Block} {t : Fsck} {b : ℕ} {E : Exit → Fsck → Prop}

theorem onDisk_diskread {Q : Block → Fsck → Prop} (h : OnDisk N f t) (hb : p.sector b < N)
    (hQ : ∀ t', OnDisk N f t' → Q (f (p.sector b)) t') : Prog.wp (p.diskread b) Q E t := by
  obtain ⟨hios, rfl, rfl⟩ := h
  simp only [Platform.diskread, diskread, diskio, Prog.wp_bind, Prog.wp_get, Prog.wp_modify, Prog.wp_ite, Prog.wp_pure,
    Prog.wp_gets, Prog.wp_fail]
  exact ⟨fun _ => hQ _ ⟨fun i => hios (i + 1), rfl, rfl⟩, fun hc => absurd ⟨hios 0, hb⟩ hc⟩

theorem onDisk_diskwrite {Q : Unit → Fsck → Prop} {data : Block} (h : OnDisk N f t) (hb : p.sector b < N)
    (hQ : ∀ t', OnDisk N (Function.update f (p.sector b) data) t' → Q () t') :
    Prog.wp (p.diskwrite data b) Q E t := by
  obtain ⟨hios, rfl, rfl⟩ := h
  simp only [Platform.diskwrite, diskwrite, diskio, Prog.wp_bind, Prog.wp_get, Prog.wp_modify, Prog.wp_ite, Prog.wp_pure,
    Prog.wp_fail]
  exact ⟨fun _ => hQ _ ⟨fun i => hios (i + 1), rfl, rfl⟩, fun hc => absurd ⟨hios 0, hb⟩ hc⟩

theorem onDisk_bmap {sfi : Block} {i : ℕ} {Q : ℕ → Fsck → Prop} (h : OnDisk N f t)
    (hind : 15 ≤ i → p.sector sfi.sfiIndirect < N) (hQ : ∀ t', OnDisk N f t' → Q (p.mapOf f sfi i) t') :
    Prog.wp (p.bmap sfi i) Q E t := by
  unfold Platform.bmap Platform.ibmap sfsNdirect sfsDbperidb
  by_cases hi : i < 15
  · rw [if_pos hi]
    simpa [Platform.mapOf, hi] using hQ t h
  rw [if_neg hi]
  by_cases hi' : i < 143
  · rw [if_pos hi']
    by_cases hz : sfi.sfiIndirect = 0
    · rw [if_pos hz]
      simpa [Platform.mapOf, hi, hz] using hQ t h
    · rw [if_neg hz, Prog.wp_bind]
      refine onDisk_diskread h (hind (by omega)) fun t' ht' => ?_
      rw [assert, if_pos (by omega), p.word_swapindir _ (by omega), Nat.mod_eq_of_lt (by omega)]
      simpa [Platform.mapOf, hi, hi', hz] using hQ t' ht'
  · rw [if_neg hi']
    simpa [Platform.mapOf, hi, hi'] using hQ t h

end Disk

/-! ### The loops -/

theorem blockOf_congr {d e : ℕ → Dirent} (h : ∀ j < 8, d j = e j) : blockOf d = blockOf e := by
  refine Bytes.ext_get fun a ha => ?_
  rw [blockOf, blockOf, Bytes.get_ofFun _ ha, Bytes.get_ofFun _ ha, h (a / 64) (by omega)]

namespace Platform

variable (p : Platform) (f : ℕ → Block) (sfi : Block) (d : ℕ → Dirent) (nd : ℕ)

/-- The entries of block `i`, as they are on the disk. -/
def content (i : ℕ) : Block := blockOf fun j => p.swapdir (if i * 8 + j < nd then d (i * 8 + j) else Dirent.zeros)

/-- The sectors after the first `i` blocks were written over `f`. -/
def written : ℕ → ℕ → Block
  | 0 => f
  | i + 1 => Function.update (written i) (p.sector (p.mapOf f sfi i)) (p.content d nd i)

/-- No block of the directory goes to the sector of the indirect block. -/
def Apart : Prop :=
  15 < dirBlocks nd → ∀ i < dirBlocks nd, p.sector (p.mapOf f sfi i) ≠ p.sector sfi.sfiIndirect

variable {p f sfi d nd}

theorem direntOf_content {i j : ℕ} (hj : j < 8) :
    direntOf (p.content d nd i) j = p.swapdir (if i * 8 + j < nd then d (i * 8 + j) else Dirent.zeros) :=
  direntOf_blockOf _ hj

theorem written_of_ne {i c : ℕ} (h : ∀ j < i, c ≠ p.sector (p.mapOf f sfi j)) : p.written f sfi d nd i c = f c := by
  induction i with
  | zero => rfl
  | succ i ih =>
    rw [written, Function.update_of_ne (h i (by omega))]
    exact ih fun j hj => h j (by omega)

/-- A sector that was written holds the last block that went there. -/
theorem written_of_eq (d : ℕ → Dirent) (nd : ℕ) {i c : ℕ} (h : ∃ j < i, c = p.sector (p.mapOf f sfi j)) :
    ∃ j < i, c = p.sector (p.mapOf f sfi j) ∧ p.written f sfi d nd i c = p.content d nd j := by
  induction i with
  | zero =>
    obtain ⟨j, hj, -⟩ := h
    omega
  | succ i ih =>
    by_cases hc : c = p.sector (p.mapOf f sfi i)
    · exact ⟨i, by omega, hc, by rw [written, hc, Function.update_self]⟩
    · obtain ⟨j, hj, hcj⟩ := h
      have hji : j ≠ i := fun he => hc (he ▸ hcj)
      obtain ⟨k, hk, hck, hw⟩ := ih ⟨j, by omega, hcj⟩
      exact ⟨k, by omega, hck, by rw [written, Function.update_of_ne hc, hw]⟩

theorem mapOf_written (h : p.Apart f sfi nd) {n i : ℕ} (hn : n ≤ dirBlocks nd) (hi : i < dirBlocks nd) :
    p.mapOf (p.written f sfi d nd n) sfi i = p.mapOf f sfi i := by
  by_cases h15 : i < 15
  · simp [mapOf, h15]
  · exact p.mapOf_congr (written_of_ne fun j hj => (h (by omega) j (by omega)).symm) i

end Platform

section Loops

variable {p : Platform} {N : ℕ} {f : ℕ → Block} {t : Fsck} {sfi : Block} {d : ℕ → Dirent} {nd : ℕ}
  {E : Exit → Fsck → Prop}

theorem sfsRoundup_eq (h : dirBlocks nd ≤ 143) : sfsRoundup nd 8 / 8 = dirBlocks nd := by
  unfold dirBlocks at h
  rw [sfsRoundup, wadd_of_lt (by omega), Nat.mul_div_cancel _ (by omega)]
  rfl

theorem writedirblock_wp {b : ℕ} {Q : (ℕ → Dirent) → Fsck → Prop} (h : OnDisk N f t) (hb : b ≠ 0) (hN : p.sector b < N)
    (hQ : ∀ t', OnDisk N (Function.update f (p.sector b) (blockOf fun j => p.swapdir (d j))) t' →
      Q (fun j => p.swapdir (d j)) t') :
    Prog.wp (p.sfsWritedirblock d b) Q E t := by
  rw [Platform.sfsWritedirblock, if_pos hb, Prog.wp_bind]
  exact onDisk_diskwrite h hN hQ

theorem readdirblock_wp {b : ℕ} {Q : (ℕ → Dirent) → Fsck → Prop} (h : OnDisk N f t) (hb : b ≠ 0) (hN : p.sector b < N)
    (hQ : ∀ t', OnDisk N f t' → Q (fun j => p.swapdir (direntOf (f (p.sector b)) j)) t') :
    Prog.wp (p.sfsReaddirblock b) Q E t := by
  rw [Platform.sfsReaddirblock, if_pos hb, Prog.wp_bind]
  exact onDisk_diskread h hN hQ

/-- **The loop of `sfs_writedir`**: an invariant of the disk that the write of
block `i` of the directory carries on. -/
theorem writedir_loop {I : ℕ → Fsck → Prop} (hn : dirBlocks nd ≤ 143) (h0 : I 0 t)
    (hstep : ∀ i < dirBlocks nd, ∀ t, I i t → Prog.wp (p.bmap sfi i) (fun b t' => ∀ e : ℕ → Dirent,
      (∀ j < 8, e j = if i * 8 + j < nd then d (i * 8 + j) else Dirent.zeros) →
        Prog.wp (p.sfsWritedirblock e b) (fun _ => I (i + 1)) E t') E t) :
    Prog.wp (p.sfsWritedir sfi d nd) (fun _ => I (dirBlocks nd)) E t := by
  have hle : nd ≤ 8 * dirBlocks nd := by
    unfold dirBlocks
    omega
  rw [Platform.sfsWritedir, sfsRoundup_eq hn, Prog.wp_bind]
  -- what is still to be written is in the buffer as it was
  refine Prog.wp_mono (Prog.wp_foldUp (I := fun i x t' => I i t' ∧ x.2 = nd - 8 * i ∧ ∀ k, i * 8 ≤ k → x.1 k = d k)
    ⟨h0, rfl, fun _ _ => rfl⟩ fun i hi x t' hx => ?_) (fun x t' hx => ?_) fun _ _ he => he
  · obtain ⟨ht, hleft, hbuf⟩ := hx
    rw [Platform.sfsWritedirStep, Prog.wp_bind]
    refine Prog.wp_mono (hstep i hi t' ht) (fun b t' hb => ?_) fun _ _ he => he
    by_cases h8 : x.2 < 8
    · rw [if_pos h8, Prog.wp_bind]
      refine Prog.wp_mono (hb _ fun j hj => ?_) (fun _ t' ht => ⟨ht, by simp; omega, fun k hk => hbuf k (by omega)⟩)
        fun _ _ he => he
      by_cases hj' : j < x.2
      · rw [if_pos hj', if_pos (by omega), hbuf _ (by omega)]
      · rw [if_neg hj', if_neg (by omega)]
    · rw [if_neg h8, Prog.wp_bind]
      refine Prog.wp_mono (hb _ fun j hj => ?_) (fun _ t' ht => ⟨ht, by simp; omega, fun k hk => ?_⟩) fun _ _ he => he
      · rw [if_pos (by omega), hbuf _ (by omega)]
      · simp only
        rw [if_neg (by omega), hbuf k (by omega)]
  · rw [assert, if_pos (by omega)]
    exact hx.1

/-- What `sfs_writedir` leaves on the disk while the map of the directory stays as it is. -/
theorem writedir_wp (h : OnDisk N f t) (hn : dirBlocks nd ≤ 143) (hmap : ∀ i < dirBlocks nd, p.mapOf f sfi i ≠ 0)
    (hN : ∀ i < dirBlocks nd, p.sector (p.mapOf f sfi i) < N) (hind : 15 < dirBlocks nd → p.sector sfi.sfiIndirect < N)
    (hapart : p.Apart f sfi nd) :
    Prog.wp (p.sfsWritedir sfi d nd) (fun _ => OnDisk N (p.written f sfi d nd (dirBlocks nd))) E t := by
  refine writedir_loop (I := fun i => OnDisk N (p.written f sfi d nd i)) hn h fun i hi t ht => ?_
  refine onDisk_bmap ht (fun h15 => hind (by omega)) fun t' ht e he => ?_
  rw [Platform.mapOf_written hapart (by omega) hi]
  refine writedirblock_wp ht (hmap i hi) (hN i hi) fun t'' ht => ?_
  rw [blockOf_congr fun j hj => by rw [he j hj]] at ht
  exact ht

/-- What `sfs_readdir` reads. -/
theorem readdir_wp {g : ℕ → Block} (h : OnDisk N g t) (hn : dirBlocks nd ≤ 143)
    (hmap : ∀ i < dirBlocks nd, p.mapOf g sfi i ≠ 0) (hN : ∀ i < dirBlocks nd, p.sector (p.mapOf g sfi i) < N)
    (hind : 15 < dirBlocks nd → p.sector sfi.sfiIndirect < N) :
    Prog.wp (p.sfsReaddir sfi d nd) (fun e t' => OnDisk N g t' ∧
      ∀ k < nd, e k = p.swapdir (direntOf (g (p.sector (p.mapOf g sfi (k / 8)))) (k % 8))) E t := by
  have hle : nd ≤ 8 * dirBlocks nd := by
    unfold dirBlocks
    omega
  rw [Platform.sfsReaddir, sfsRoundup_eq hn, Prog.wp_bind]
  refine Prog.wp_mono (Prog.wp_foldUp (I := fun i x t' => OnDisk N g t' ∧ x.2 = nd - 8 * i ∧ ∀ k < nd, k < 8 * i →
    x.1 k = p.swapdir (direntOf (g (p.sector (p.mapOf g sfi (k / 8)))) (k % 8))) ⟨h, rfl, fun _ _ hk => by omega⟩
    fun i hi x t' hx => ?_) (fun x t' hx => ?_) fun _ _ he => he
  · obtain ⟨ht, hleft, hbuf⟩ := hx
    rw [Platform.sfsReaddirStep, Prog.wp_bind]
    refine onDisk_bmap ht (fun h15 => hind (by omega)) fun t' ht => ?_
    rw [Prog.wp_bind]
    refine readdirblock_wp ht (hmap i hi) (hN i hi) fun t'' ht => ⟨ht, by simp; omega, fun k hk hki => ?_⟩
    simp only
    by_cases h8 : i * 8 ≤ k
    · rw [if_pos (by omega), show k / 8 = i by omega, show k % 8 = k - i * 8 by omega]
    · rw [if_neg (by omega)]
      exact hbuf k hk (by omega)
  · rw [assert, if_pos (by omega)]
    exact ⟨hx.1, fun k hk => hx.2.2 k hk (by omega)⟩

/-- A write to any block: it fails, or the sector of the block is the only one to change. -/
theorem writedirblock_any (h : OnDisk N f t) (b : ℕ) :
    Prog.wp (p.sfsWritedirblock d b) (fun _ t' => ∃ g, OnDisk N g t' ∧ (g = f ∨
      g = Function.update f (p.sector b) (blockOf fun j => p.swapdir (d j)))) (fun _ _ => True) t := by
  by_cases hb : b = 0
  · rw [Platform.sfsWritedirblock, if_neg (by simpa using hb)]
    simp only [Prog.wp_ite, Prog.wp_bind, Prog.wp_pure, complain, setbadness, warnx, Prog.wp_modify]
    exact ⟨fun _ => ⟨f, ⟨h.ios, h.nblocks, h.sectors⟩, Or.inl rfl⟩, fun _ => ⟨f, h, Or.inl rfl⟩⟩
  · by_cases hN : p.sector b < N
    · exact writedirblock_wp h hb hN fun t' ht => ⟨_, ht, Or.inr rfl⟩
    · rw [Platform.sfsWritedirblock, if_pos hb]
      simp only [Platform.diskwrite, diskwrite, diskio, Prog.wp_bind, Prog.wp_get, Prog.wp_modify, Prog.wp_ite,
        Prog.wp_fail, implies_true, and_true]
      exact fun hc => absurd (h.nblocks ▸ hc.2) hN

/-- A read of any block. -/
theorem readdirblock_any (h : OnDisk N f t) (b : ℕ) :
    Prog.wp (p.sfsReaddirblock b) (fun y t' => OnDisk N f t' ∧ (b = 0 → ∀ j, y j = Dirent.zeros)) (fun _ _ => True) t := by
  by_cases hb : b = 0
  · rw [Platform.sfsReaddirblock, if_neg (by simpa using hb), Prog.wp_bind, warnx, Prog.wp_modify]
    exact ⟨⟨h.ios, h.nblocks, h.sectors⟩, fun _ _ => rfl⟩
  · by_cases hN : p.sector b < N
    · exact readdirblock_wp h hb hN fun t' ht => ⟨ht, fun hz => absurd hz hb⟩
    · rw [Platform.sfsReaddirblock, if_pos hb]
      simp only [Platform.diskread, diskread, diskio, Prog.wp_bind, Prog.wp_get, Prog.wp_modify, Prog.wp_ite,
        Prog.wp_fail, implies_true, and_true]
      exact fun hc => absurd (h.nblocks ▸ hc.2) hN

/-- Block 15 of a directory whose indirect block begins with 0 reads as zeros. -/
theorem readdir_hole (h : OnDisk N f t) (hn : dirBlocks nd ≤ 143) (h15 : 15 < dirBlocks nd)
    (hind : p.sector sfi.sfiIndirect < N) (hhole : p.mapOf f sfi 15 = 0) :
    Prog.wp (p.sfsReaddir sfi d nd) (fun e _ => e 120 = Dirent.zeros) (fun _ _ => True) t := by
  have hnd := mul_lt_of_lt_dirBlocks h15
  rw [Platform.sfsReaddir, sfsRoundup_eq hn, Prog.wp_bind]
  refine Prog.wp_mono (Prog.wp_foldUp (I := fun i x t' => OnDisk N f t' ∧ x.2 = nd - 8 * i ∧
    (15 < i → x.1 120 = Dirent.zeros)) ⟨h, rfl, fun hi => by omega⟩ fun i hi x t' hx => ?_) (fun x t' hx => ?_)
    fun _ _ he => he
  · obtain ⟨ht, hleft, hbuf⟩ := hx
    rw [Platform.sfsReaddirStep, Prog.wp_bind]
    refine onDisk_bmap ht (fun _ => hind) fun t' ht => ?_
    rw [Prog.wp_bind]
    refine Prog.wp_mono (readdirblock_any ht _) (fun y t' hy => ⟨hy.1, by simp; omega, fun h15 => ?_⟩) fun _ _ he => he
    simp only
    by_cases hi15 : i = 15
    · rw [if_pos (by omega)]
      exact hy.2 (by rw [hi15, hhole]) _
    · rw [if_neg (by omega)]
      exact hbuf (by omega)
  · rw [assert]
    split
    · exact hx.2.2 h15
    · trivial

end Loops

/-! ### OS/161

On OS/161 the functions are those of the passes, which take entries as values. -/

section Native

variable {sfi : Block} {nd : ℕ} {s : Fsck} {E : Exit → Fsck → Prop}

theorem direntOf_zeros (j : ℕ) : direntOf Block.zeros j = Dirent.zeros := rfl

theorem wp_sfsReaddirStep_os161 {i : ℕ} {x : (ℕ → Dirent) × ℕ} {Q : (ℕ → Dirent) × ℕ → Fsck → Prop} :
    Prog.wp (Platform.os161.sfsReaddirStep sfi i x) Q E s ↔ Prog.wp (sfsReaddirStep sfi i x) Q E s := by
  rw [Platform.sfsReaddirStep, sfsReaddirStep, Prog.wp_bind, Prog.wp_bind]
  refine iff_of_eq (congrArg (fun R => Prog.wp (bmap sfi i) R E s) (funext fun b => funext fun t => propext ?_))
  by_cases hb : b ≠ 0
  · simp only [Platform.sfsReaddirblock, sfsReaddirblock, if_pos hb, Prog.wp_bind, Prog.wp_pure]
    rfl
  · simp only [Platform.sfsReaddirblock, sfsReaddirblock, if_neg hb, Prog.wp_bind, Prog.wp_pure, direntOf_zeros]

/-- `sfs_readdir`. -/
theorem wp_sfsReaddir_os161 {Q : (ℕ → Dirent) → Fsck → Prop} :
    Prog.wp (Platform.os161.sfsReaddir sfi (fun _ => Dirent.zeros) nd) Q E s ↔ Prog.wp (sfsReaddir sfi nd) Q E s := by
  rw [Platform.sfsReaddir, sfsReaddir, Prog.wp_bind, Prog.wp_bind]
  exact Prog.wp_foldUp_map id fun i x Q t => wp_sfsReaddirStep_os161

theorem wp_sfsWritedirblock_os161 {d e : ℕ → Dirent} (hde : ∀ j < 8, d j = e j) {b : ℕ}
    {Q : (ℕ → Dirent) → Fsck → Prop} :
    Prog.wp (Platform.os161.sfsWritedirblock d b) Q E s ↔
      Prog.wp (sfsWritedirblock (blockOf e) b) (fun _ => Q d) E s := by
  rw [← blockOf_congr hde, Platform.sfsWritedirblock, sfsWritedirblock]
  by_cases hb : b ≠ 0
  · rw [if_pos hb, if_pos hb, Prog.wp_bind]
    rfl
  · rw [if_neg hb, if_neg hb]
    split_ifs
    · rw [Prog.wp_bind]
      rfl
    · rfl

theorem wp_sfsWritedirStep_os161 {i left : ℕ} {d : ℕ → Dirent} {Q : (ℕ → Dirent) × ℕ → Fsck → Prop} :
    Prog.wp (Platform.os161.sfsWritedirStep sfi i (d, left)) Q E s ↔
      Prog.wp (sfsWritedirStep sfi d i left) (fun left' => Q (d, left')) E s := by
  rw [Platform.sfsWritedirStep, sfsWritedirStep, Prog.wp_bind, Prog.wp_bind]
  refine iff_of_eq (congrArg (fun R => Prog.wp (bmap sfi i) R E s) (funext fun b => funext fun t => propext ?_))
  by_cases hl : left < 8
  · rw [if_pos hl, Prog.wp_bind, Prog.wp_bind, min_eq_left hl.le]
    exact wp_sfsWritedirblock_os161 fun j hj => rfl
  · -- the whole block is put back into the buffer as it was
    have hback : ∀ k, (if i * 8 ≤ k ∧ k < i * 8 + 8 then d (i * 8 + (k - i * 8)) else d k) = d k := fun k => by
      split_ifs with hk
      · rw [Nat.add_sub_of_le hk.1]
      · rfl
    rw [if_neg hl, Prog.wp_bind, Prog.wp_bind, min_eq_right (by omega)]
    refine (wp_sfsWritedirblock_os161 (e := fun j => if j < 8 then d (i * 8 + j) else Dirent.zeros)
      fun j hj => (if_pos hj).symm).trans ?_
    simp only [Prog.wp_pure, hback]

/-- `sfs_writedir`: nothing is swapped in the buffer. -/
theorem wp_sfsWritedir_os161 {d : ℕ → Dirent} {Q : (ℕ → Dirent) → Fsck → Prop} :
    Prog.wp (Platform.os161.sfsWritedir sfi d nd) Q E s ↔ Prog.wp (sfsWritedir sfi d nd) (fun _ => Q d) E s := by
  rw [Platform.sfsWritedir, sfsWritedir, Prog.wp_bind, Prog.wp_bind]
  refine (Prog.wp_foldUp_map (fun left => (d, left)) fun i left Q t => wp_sfsWritedirStep_os161).trans ?_
  simp only [Prog.wp_bind, Prog.wp_pure]

end Native

/-! ### Writing and reading back -/

namespace DirMapped

variable {p : Platform} {s : Fsck} {sfi : Block} {nd : ℕ}

theorem dirBlocks_le (h : DirMapped p s sfi nd) : dirBlocks nd ≤ 143 := by
  by_contra hlt
  exact h.mapped 143 (by omega) (by simp [Platform.mapOf])

theorem onDisk (h : DirMapped p s sfi nd) : OnDisk s.nblocks s.sectors s := ⟨h.ios, rfl, rfl⟩

theorem sector_lt (h : DirMapped p s sfi nd) {i : ℕ} (hi : i < dirBlocks nd) :
    p.sector (p.mapOf s.sectors sfi i) < s.nblocks :=
  (p.sector_le _).trans_lt (h.inside i hi)

theorem sector_indirect_lt (h : DirMapped p s sfi nd) (hn : 15 < dirBlocks nd) :
    p.sector sfi.sfiIndirect < s.nblocks :=
  (p.sector_le _).trans_lt (h.indirect hn)

/-- The run while the map of the directory stays as it is. -/
theorem run (h : DirMapped p s sfi nd) (hapart : p.Apart s.sectors sfi nd) (d : ℕ → Dirent) :
    Prog.wp (do p.sfsReaddir sfi (← p.sfsWritedir sfi d nd) nd)
      (fun e t => t.sectors = p.written s.sectors sfi d nd (dirBlocks nd) ∧ ∀ k < nd, e k = p.swapdir (direntOf
        (p.written s.sectors sfi d nd (dirBlocks nd) (p.sector (p.mapOf s.sectors sfi (k / 8)))) (k % 8)))
      (fun _ _ => False) s := by
  rw [Prog.wp_bind]
  refine Prog.wp_mono (writedir_wp h.onDisk h.dirBlocks_le h.mapped (fun i hi => h.sector_lt hi) h.sector_indirect_lt
    hapart) (fun d' t ht => ?_) fun _ _ he => he
  have hkeep : ∀ i < dirBlocks nd, p.mapOf (p.written s.sectors sfi d nd (dirBlocks nd)) sfi i =
      p.mapOf s.sectors sfi i := fun i hi => Platform.mapOf_written hapart le_rfl hi
  have hmap : ∀ i < dirBlocks nd, p.mapOf (p.written s.sectors sfi d nd (dirBlocks nd)) sfi i ≠ 0 := fun i hi => by
    rw [hkeep i hi]
    exact h.mapped i hi
  have hin : ∀ i < dirBlocks nd,
      p.sector (p.mapOf (p.written s.sectors sfi d nd (dirBlocks nd)) sfi i) < s.nblocks := fun i hi => by
    rw [hkeep i hi]
    exact h.sector_lt hi
  refine Prog.wp_mono (readdir_wp ht h.dirBlocks_le hmap hin h.sector_indirect_lt)
    (fun e t' he => ⟨he.1.sectors, fun k hk => ?_⟩) fun _ _ he => he
  rw [he.2 k hk, hkeep (k / 8) (lt_dirBlocks hk)]

/-- The blocks are where they belong and apart. -/
theorem roundTrip (h : DirMapped p s sfi nd) (hlow : ∀ i < dirBlocks nd, p.mapOf s.sectors sfi i + p.header < 2 ^ 23)
    (hapart : p.Apart s.sectors sfi nd) (d : ℕ → Dirent) : RoundTrip p s sfi nd d := by
  have hsector : ∀ i < dirBlocks nd, p.sector (p.mapOf s.sectors sfi i) = p.mapOf s.sectors sfi i + p.header :=
    fun i hi => by rw [p.sector_eq, Nat.mod_eq_of_lt (hlow i hi)]
  have hwritten : ∀ i < dirBlocks nd, p.written s.sectors sfi d nd (dirBlocks nd)
      (p.sector (p.mapOf s.sectors sfi i)) = p.content d nd i := fun i hi => by
    obtain ⟨j, hj, hij, hw⟩ := Platform.written_of_eq d nd ⟨i, hi, rfl⟩
    rw [hsector i hi, hsector j hj] at hij
    rw [hw, h.distinct i hi j hj (by omega)]
  refine Prog.wp_mono (h.run hapart d) (fun e t he => ⟨fun k hk => ?_, fun k hk hk' => ?_, fun c hc => ?_⟩)
    fun _ _ he => he
  · rw [he.2 k hk, hwritten _ (lt_dirBlocks hk), Platform.direntOf_content (by omega), if_pos (by omega),
      p.swapdir_swapdir]
    congr 1
    omega
  · have hi : k / 8 < dirBlocks nd := by omega
    rw [he.1, ← hsector _ hi, hwritten _ hi, Platform.direntOf_content (by omega), if_neg (by omega), p.swapdir_zeros]
  · rw [he.1, Platform.written_of_ne fun j hj => by rw [hsector j hj]; exact hc j hj]

/-- A block too far up: it is written over another sector. -/
theorem not_roundTrip_of_wraps (h : DirMapped p s sfi nd) (hapart : p.Apart s.sectors sfi nd) {i : ℕ}
    (hi : i < dirBlocks nd) (hup : 2 ^ 23 ≤ p.mapOf s.sectors sfi i + p.header) : ∃ d, ¬ RoundTrip p s sfi nd d := by
  have hmod := p.sector_eq (p.mapOf s.sectors sfi i)
  have hlt : (p.mapOf s.sectors sfi i + p.header) % 2 ^ 23 < 2 ^ 23 := Nat.mod_lt _ (by norm_num)
  by_cases hc : ∃ j < dirBlocks nd, p.sector (p.mapOf s.sectors sfi i) = p.mapOf s.sectors sfi j + p.header
  · -- the sector is another block of the directory, and both are read from it
    obtain ⟨j, hj, hij⟩ := hc
    have hne : j ≠ i := by
      rintro rfl
      omega
    have hsame : p.sector (p.mapOf s.sectors sfi j) = p.sector (p.mapOf s.sectors sfi i) := by
      rw [hij, p.sector_eq, Nat.mod_eq_of_lt (by omega)]
    refine ⟨fun k => if k / 8 = i then stale else Dirent.zeros, fun hr => ?_⟩
    refine Prog.wp_absurd (Prog.wp_and (h.run hapart _) hr) (fun e' t ht => ?_) fun _ _ ht => ht.1
    have heq : e' (i * 8) = e' (j * 8) := by
      rw [ht.1.2 _ (mul_lt_of_lt_dirBlocks hi), ht.1.2 _ (mul_lt_of_lt_dirBlocks hj), Nat.mul_div_cancel _ (by omega),
        Nat.mul_div_cancel _ (by omega), Nat.mul_mod_left, Nat.mul_mod_left, hsame]
    rw [ht.2.1 _ (mul_lt_of_lt_dirBlocks hi), ht.2.1 _ (mul_lt_of_lt_dirBlocks hj)] at heq
    simp [hne, stale_ne_zeros] at heq
  · -- the sector is outside the directory
    push Not at hc
    obtain ⟨e, he⟩ := exists_dirent_ne (direntOf (s.sectors (p.sector (p.mapOf s.sectors sfi i))) 0)
    refine ⟨fun _ => p.swapdir e, fun hr => ?_⟩
    refine Prog.wp_absurd (Prog.wp_and (h.run hapart _) hr) (fun e' t ht => ?_) fun _ _ ht => ht.1
    have hsame := ht.2.2.2 _ hc
    obtain ⟨j, hj, hij, hw⟩ := Platform.written_of_eq (fun _ => p.swapdir e) nd ⟨i, hi, rfl⟩
    rw [ht.1.1, hw] at hsame
    refine he ?_
    rw [← hsame, Platform.direntOf_content (by omega), if_pos (by have := mul_lt_of_lt_dirBlocks hj; omega),
      p.swapdir_swapdir]

/-- What the indirect block is on the sectors `g` once the first `i` blocks of
the directory are written: what it was, or, if one of them went over it, a
block that begins with 0. -/
structure Overwritten (p : Platform) (s : Fsck) (sfi : Block) (i : ℕ) (g : ℕ → Block) : Prop where
  before : (∀ j < i, p.sector (p.mapOf s.sectors sfi j) ≠ p.sector sfi.sfiIndirect) →
    g (p.sector sfi.sfiIndirect) = s.sectors (p.sector sfi.sfiIndirect)
  after : (∃ j < i, p.sector (p.mapOf s.sectors sfi j) = p.sector sfi.sfiIndirect) →
    (g (p.sector sfi.sfiIndirect)).entry 0 = 0

/-- The write of a block that begins with 0. -/
theorem Overwritten.step (h : DirMapped p s sfi nd) {i : ℕ} (hi : i < dirBlocks nd) {g : ℕ → Block} {t : Fsck}
    (hg : Overwritten p s sfi i g) (ht : OnDisk s.nblocks g t) {e : ℕ → Dirent}
    (he : (blockOf fun j => p.swapdir (e j)).entry 0 = 0) :
    Prog.wp (p.sfsWritedirblock e (p.mapOf g sfi i))
      (fun _ t' => ∃ g', OnDisk s.nblocks g' t' ∧ Overwritten p s sfi (i + 1) g') (fun _ _ => True) t := by
  by_cases hbefore : ∃ j < i, p.sector (p.mapOf s.sectors sfi j) = p.sector sfi.sfiIndirect
  · -- the map is gone, and the block goes anywhere
    obtain ⟨j, hj, hjc⟩ := hbefore
    refine Prog.wp_mono (writedirblock_any ht _) (fun _ t' ht' => ?_) fun _ _ he => he
    obtain ⟨g', ht', hg'⟩ := ht'
    refine ⟨g', ht', fun hno => absurd hjc (hno j (by omega)), fun _ => ?_⟩
    rcases hg' with rfl | rfl
    · exact hg.after ⟨j, hj, hjc⟩
    · by_cases hc : p.sector sfi.sfiIndirect = p.sector (p.mapOf g sfi i)
      · rw [hc, Function.update_self, he]
      · rw [Function.update_of_ne hc, hg.after ⟨j, hj, hjc⟩]
  · push Not at hbefore
    rw [p.mapOf_congr (hg.before hbefore)]
    refine writedirblock_wp ht (h.mapped i hi) (h.sector_lt hi) fun t' ht' => ⟨_, ht', fun hno => ?_, fun hyes => ?_⟩
    · rw [Function.update_of_ne (hno i (by omega)).symm, hg.before hbefore]
    · obtain ⟨j, hj, hjc⟩ := hyes
      obtain rfl : j = i := by
        by_contra hne
        exact hbefore j (by omega) hjc
      rw [← hjc, Function.update_self, he]

/-- A block over the indirect block: block 15 of the directory is lost. -/
theorem not_roundTrip_of_overlap (h : DirMapped p s sfi nd) (hapart : ¬ p.Apart s.sectors sfi nd) :
    ¬ RoundTrip p s sfi nd fun k => if k = 120 then stale else Dirent.zeros := by
  unfold Platform.Apart at hapart
  push Not at hapart
  obtain ⟨h15, i, hi, hover⟩ := hapart
  have hind : sfi.sfiIndirect ≠ 0 := fun hz => h.mapped 15 h15 (by simp [Platform.mapOf, hz])
  set d : ℕ → Dirent := fun k => if k = 120 then stale else Dirent.zeros with hd
  -- no entry has an inode number, so every block that is written begins with 0
  have hword : ∀ i (e : ℕ → Dirent), (∀ j < 8, e j = if i * 8 + j < nd then d (i * 8 + j) else Dirent.zeros) →
      (blockOf fun j => p.swapdir (e j)).entry 0 = 0 := fun i e he => by
    rw [entry_blockOf, he 0 (by omega)]
    refine p.sfdIno_swapdir fun a ha => ?_
    simp only [hd]
    split_ifs
    · exact (get_stale (by omega)).trans (if_neg (by omega))
    · rfl
    · rfl
  have hwrite : Prog.wp (p.sfsWritedir sfi d nd)
      (fun _ t => ∃ g, OnDisk s.nblocks g t ∧ Overwritten p s sfi (dirBlocks nd) g) (fun _ _ => True) s := by
    refine writedir_loop (I := fun i t => ∃ g, OnDisk s.nblocks g t ∧ Overwritten p s sfi i g) h.dirBlocks_le
      ⟨s.sectors, h.onDisk, fun _ => rfl, fun hj => by omega⟩ fun i hi t ht => ?_
    obtain ⟨g, ht, hg⟩ := ht
    exact onDisk_bmap ht (fun _ => h.sector_indirect_lt h15) fun t ht e he => hg.step h hi ht (hword i e he)
  have hlost : Prog.wp (do p.sfsReaddir sfi (← p.sfsWritedir sfi d nd) nd) (fun e _ => e 120 = Dirent.zeros)
      (fun _ _ => True) s := by
    rw [Prog.wp_bind]
    refine Prog.wp_mono hwrite (fun d' t ht => ?_) fun _ _ he => he
    obtain ⟨g, ht, hg⟩ := ht
    have hhole : p.mapOf g sfi 15 = 0 := by simp [Platform.mapOf, hind, hg.after ⟨i, hi, hover⟩]
    exact readdir_hole ht h.dirBlocks_le h15 (h.sector_indirect_lt h15) hhole
  intro hr
  refine Prog.wp_absurd (Prog.wp_and hlost hr) (fun e t he => ?_) fun _ _ he => he.2
  have h120 := he.2.1 120 (mul_lt_of_lt_dirBlocks h15)
  rw [he.1] at h120
  exact stale_ne_zeros h120.symm

end DirMapped

/-- **A directory is read back as it was written, and nothing else is touched,
exactly if** none of its blocks is `2 ^ 23` sectors or more into the image and,
where the indirect block is used, none of them is where that is read from. -/
theorem sfs_writedir_readdir_iff {p : Platform} {s : Fsck} {sfi : Block} {nd : ℕ} (h : DirMapped p s sfi nd) :
    (∀ d, RoundTrip p s sfi nd d) ↔ (∀ i < dirBlocks nd, p.mapOf s.sectors sfi i + p.header < 2 ^ 23) ∧
      (15 < dirBlocks nd → ∀ i < dirBlocks nd,
        p.mapOf s.sectors sfi i + p.header ≠ (sfi.sfiIndirect + p.header) % 2 ^ 23) := by
  have hapart : (∀ i < dirBlocks nd, p.mapOf s.sectors sfi i + p.header < 2 ^ 23) → (p.Apart s.sectors sfi nd ↔
      (15 < dirBlocks nd → ∀ i < dirBlocks nd,
        p.mapOf s.sectors sfi i + p.header ≠ (sfi.sfiIndirect + p.header) % 2 ^ 23)) := fun hlow =>
    forall_congr' fun _ => forall₂_congr fun i hi => by rw [p.sector_eq, p.sector_eq, Nat.mod_eq_of_lt (hlow i hi)]
  constructor
  · intro hr
    have hap : p.Apart s.sectors sfi nd := by
      by_contra hap
      exact h.not_roundTrip_of_overlap hap (hr _)
    have hlow : ∀ i < dirBlocks nd, p.mapOf s.sectors sfi i + p.header < 2 ^ 23 := by
      intro i hi
      by_contra hup
      obtain ⟨d, hd⟩ := h.not_roundTrip_of_wraps hap hi (by omega)
      exact hd (hr d)
    exact ⟨hlow, (hapart hlow).mp hap⟩
  · rintro ⟨hlow, hap⟩ d
    exact h.roundTrip hlow ((hapart hlow).mpr hap) d

/-- A directory of one block. -/
def oneBlock (b : ℕ) : Block := Block.zeros.setDirect 0 b

theorem mapOf_oneBlock (p : Platform) (f : ℕ → Block) {b : ℕ} (hb : b < 2 ^ 32) : p.mapOf f (oneBlock b) 0 = b :=
  (Bytes.field_setField_same _ _ (by omega)).trans (Nat.mod_eq_of_lt (by simpa using hb))

theorem dirMapped_oneBlock {p : Platform} {s : Fsck} {b : ℕ} (hb : b < 2 ^ 32) (h0 : b ≠ 0) (hs : b + p.header < s.nblocks)
    (hios : ∀ i, s.ios i = true) : DirMapped p s (oneBlock b) 1 := by
  have hzero : ∀ i < dirBlocks 1, i = 0 := fun i hi => by
    unfold dirBlocks at hi
    omega
  refine ⟨fun i hi => ?_, fun i hi => ?_, fun i hi j hj _ => ?_, fun h15 => ?_, hios⟩
  · rwa [hzero i hi, mapOf_oneBlock p _ hb]
  · rwa [hzero i hi, mapOf_oneBlock p _ hb]
  · rw [hzero i hi, hzero j hj]
  · exact absurd h15 (by decide)

/-- On a little-endian host, a directory in block 5 of a volume of 98 blocks. -/
theorem sfs_writedir_readdir_five :
    DirMapped .littleEndian (start (fun _ => Block.zeros) 99 (fun _ => true) fun _ => true) (oneBlock 5) 1 ∧
      ∀ d, RoundTrip .littleEndian (start (fun _ => Block.zeros) 99 (fun _ => true) fun _ => true) (oneBlock 5) 1 d := by
  have h : DirMapped .littleEndian (start (fun _ => Block.zeros) 99 (fun _ => true) fun _ => true) (oneBlock 5) 1 :=
    dirMapped_oneBlock (by norm_num) (by norm_num) (by simp [start, Platform.header]) fun _ => rfl
  refine ⟨h, (sfs_writedir_readdir_iff h).mpr ⟨fun i hi => ?_, fun h15 => absurd h15 (by decide)⟩⟩
  obtain rfl : i = 0 := by
    unfold dirBlocks at hi
    omega
  rw [mapOf_oneBlock _ _ (by norm_num)]
  simp [Platform.header]

/-- On OS/161, a directory in block `2 ^ 23`: its entry is written over the
superblock. -/
theorem sfs_writedir_over_superblock :
    DirMapped .os161 (start (fun _ => Block.zeros) (2 ^ 23 + 1) (fun _ => true) fun _ => true) (oneBlock (2 ^ 23)) 1 ∧
      ¬ RoundTrip .os161 (start (fun _ => Block.zeros) (2 ^ 23 + 1) (fun _ => true) fun _ => true) (oneBlock (2 ^ 23)) 1
        (fun _ => stale) := by
  set s := start (fun _ => Block.zeros) (2 ^ 23 + 1) (fun _ => true) fun _ => true with hs
  have hb : (2 : ℕ) ^ 23 < 2 ^ 32 := by norm_num
  have h : DirMapped .os161 s (oneBlock (2 ^ 23)) 1 :=
    dirMapped_oneBlock hb (by norm_num) (Nat.lt_succ_self _) fun _ => rfl
  have hsector : Platform.os161.sector (Platform.os161.mapOf s.sectors (oneBlock (2 ^ 23)) 0) = 0 := by
    rw [mapOf_oneBlock _ _ hb, Platform.sector_eq]
    simp [Platform.header]
  refine ⟨h, fun hr => ?_⟩
  refine Prog.wp_absurd (Prog.wp_and (h.run (fun h15 => absurd h15 (by decide)) _) hr) (fun e t ht => ?_)
    fun _ _ ht => ht.1
  have hsame : t.sectors 0 = Block.zeros := ht.2.2.2 0 fun i hi => by
    obtain rfl : i = 0 := by
      unfold dirBlocks at hi
      omega
    rw [mapOf_oneBlock _ _ hb]
    simp [Platform.header]
  have hover : t.sectors 0 = Platform.os161.content (fun _ => stale) 1 0 := by
    rw [ht.1.1, show dirBlocks 1 = 1 from rfl, Platform.written, hsector, Function.update_self]
  have hentry : direntOf (Platform.os161.content (fun _ => stale) 1 0) 0 = stale := direntOf_blockOf _ (by omega)
  rw [← hover, hsame] at hentry
  exact stale_ne_zeros hentry.symm

end Sfsck

end Os161
