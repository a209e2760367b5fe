/-
# How the block routines end

The specifications of the block routines and of `sfs_bmap` for one file of a
volume (`OneFile`) over a disk that may report errors: what holds when they
return and when they fail. A read is right whatever the card reported; a write
is stored if there was no media error (`Lhd.Steady`), since one that fails is
not retried (`sfsWriteblock_media`). All of them stop only if the card calls an
address of its own invalid, which `S` stands for throughout.
-/
import Os161.Sfs.OneFile
import Os161.Lib.Wlp

namespace Os161

open Volume

variable {S : Prop}

/-- The card reports no media error. -/
def Lhd.Steady (l : Lhd) : Prop := ∀ i, l.status i ≠ .media

/-- If the card calls a sector invalid, on which `sfs_rwblock` panics, then `S`. -/
def Lhd.Panics (S : Prop) (l : Lhd) : Prop := ∀ i, l.status i = .invsect → S

/-- Some operations later on a disk of the same size. -/
structure Lhd.Later (l l' : Lhd) : Prop where
  dBlocks : l'.dBlocks = l.dBlocks
  status : ∃ n, l'.status = fun i => l.status (i + n)

theorem Lhd.Later.refl (l : Lhd) : l.Later l := ⟨rfl, 0, rfl⟩

theorem Lhd.Later.steady {l l' : Lhd} (h : l.Later l') (hs : l.Steady) : l'.Steady := by
  obtain ⟨n, hn⟩ := h.status
  intro i
  rw [hn]
  exact hs (i + n)

theorem Lhd.Later.panics {l l' : Lhd} (h : l.Later l') (hs : l.Panics S) : l'.Panics S := by
  obtain ⟨n, hn⟩ := h.status
  intro i hi
  rw [hn] at hi
  exact hs (i + n) hi

/-! ### Blocks -/

/-- What a read leaves behind, however it ends. -/
def ReadDone (l : Lhd) (l' : Lhd) : Prop := l'.sectors = l.sectors ∧ l.Later l'

theorem ReadDone.next {l l' : Lhd} (h : ReadDone { l with status := fun i => l.status (i + 1) } l') : ReadDone l l' := by
  obtain ⟨hs, hd, n, hn⟩ := h
  refine ⟨hs, hd, n + 1, ?_⟩
  rw [hn]
  rfl

/-- How a read ends that fails: the card reported a media error. -/
def ReadFailed (l : Lhd) (l' : Lhd) : Prop := ReadDone l l' ∧ ∃ i, l.status i = .media

/-- One turn of the retries of a read. -/
theorem sfsRwblockTry_read_ends {more : Prog Errno (Lhd × Uio) Unit} {l : Lhd} {b : ℕ} (hb : l.InRange b)
    (hS : l.Panics S) (hmore : l.status 0 = .media → Prog.wlp S more
      (fun _ t => Bytes.ofFun t.2.mem = l.sectors b ∧ ReadDone l t.1) (fun _ t => ReadFailed l t.1)
      ({ l with status := fun i => l.status (i + 1) }, sfsUioRead b)) :
    Prog.wlp S (sfsRwblockTry more) (fun _ t => Bytes.ofFun t.2.mem = l.sectors b ∧ ReadDone l t.1)
      (fun _ t => ReadFailed l t.1) (l, sfsUioRead b) := by
  cases h : l.status 0 with
  | ok =>
    obtain ⟨u, hio, hmem⟩ := devopIo_read_ok hb h
    exact (Prog.wlp_ok (sfsRwblockTry_ok hio)).mpr ⟨hmem, rfl, rfl, 1, rfl⟩
  | media =>
    unfold Prog.wlp
    rw [sfsRwblockTry_eio (devopIo_read_error hb (congrArg lhdCodeToErrno h))]
    exact hmore h
  | invsect =>
    exact (Prog.wlp_stop_run (sfsRwblockTry_einval (devopIo_read_error hb (congrArg lhdCodeToErrno h)))).mpr (hS 0 h)

theorem sfsRwblockLoop_read_ends {b : ℕ} (n : ℕ) : ∀ {l : Lhd}, l.InRange b → l.Panics S →
    Prog.wlp S (sfsRwblockLoop n) (fun _ t => Bytes.ofFun t.2.mem = l.sectors b ∧ ReadDone l t.1)
      (fun _ t => ReadFailed l t.1) (l, sfsUioRead b) := by
  induction n with
  | zero => exact fun hb hS => sfsRwblockTry_read_ends hb hS fun h => ⟨⟨rfl, rfl, 1, rfl⟩, 0, h⟩
  | succ n ih =>
    intro l hb hS
    refine sfsRwblockTry_read_ends hb hS fun _ => Prog.wlp_mono
      (ih (l := { l with status := fun i => l.status (i + 1) }) hb fun i => hS (i + 1))
      (fun _ t ht => ⟨ht.1, ht.2.next⟩) fun _ t ht => ⟨ht.1.next, ht.2.elim fun i hi => ⟨i + 1, hi⟩⟩

/-- **`sfs_readblock`** reads the sector or fails, and changes nothing. -/
theorem sfsReadblock_ends {l : Lhd} {b : ℕ} (hb : l.InRange b) (hS : l.Panics S) :
    Prog.wlp S (sfsReadblock b) (fun d l' => d = l.sectors b ∧ ReadDone l l') (fun _ l' => ReadFailed l l') l := by
  have h := sfsRwblockLoop_read_ends 10 hb hS
  unfold Prog.wlp at h ⊢
  unfold sfsReadblock sfsRwblock
  rw [← sfsUioRead]
  cases hr : sfsRwblockLoop 10 (l, sfsUioRead b) with
  | ok a t => rw [hr] at h; exact h
  | fail e t => rw [hr] at h; exact h
  | stop => rw [hr] at h; exact h

/-- **`sfs_writeblock`** stores the block or loses it, and does not fail. -/
theorem sfsWriteblock_ends {l : Lhd} {b : ℕ} (hb : l.InRange b) (hS : l.Panics S) (data : Block) :
    Prog.wlp S (sfsWriteblock b data) (fun _ l' => l.Later l' ∧ (l'.sectors = Function.update l.sectors b data ∨
      l.status 0 = .media ∧ l'.sectors = l.sectors)) (fun _ _ => False) l := by
  cases h : l.status 0 with
  | ok =>
    obtain ⟨l', hw, hsec, hd, hst⟩ := sfsWriteblock_ok data hb h
    exact (Prog.wlp_ok hw).mpr ⟨⟨hd, 1, hst⟩, Or.inl hsec⟩
  | media =>
    obtain ⟨l', hw, hsec, hd, hst⟩ := sfsWriteblock_media data hb h
    exact (Prog.wlp_ok hw).mpr ⟨⟨hd, 1, hst⟩, Or.inr ⟨rfl, hsec⟩⟩
  | invsect => exact (Prog.wlp_stop_run (sfsWriteblock_invsect data hb h)).mpr (hS 0 h)

/-! ### A volume on the disk -/

/-- The state `s` holds the volume `v`; the disk is large enough, and the
freemap covers the volume. -/
structure On (S : Prop) (s : SfsFs Lhd) (v : Volume) : Prop where
  volume : s.volume = v
  dblocks : v.nblocks ≤ s.sfsDevice.dBlocks
  dblocks_lt : s.sfsDevice.dBlocks < 2 ^ 32
  nbits8 : s.sfsFreemap.nbits % 8 = 0
  covers : v.nblocks ≤ s.sfsFreemap.nbits
  panics : s.sfsDevice.Panics S

/-- The same on a disk without media errors. -/
structure Calm (S : Prop) (s : SfsFs Lhd) (v : Volume) : Prop extends On S s v where
  steady : s.sfsDevice.Steady

variable {s : SfsFs Lhd} {v : Volume} {ino : ℕ}

namespace On

variable {t : SfsFs Lhd} {w : Volume}

theorem of_volume (h : On S s v) (hw : t.volume = w) (hnb : w.nblocks = v.nblocks)
    (hd : s.sfsDevice.Later t.sfsDevice) (hbits : t.sfsFreemap.nbits = s.sfsFreemap.nbits) : On S t w :=
  ⟨hw, by rw [hnb, hd.dBlocks]; exact h.dblocks, by rw [hd.dBlocks]; exact h.dblocks_lt, by rw [hbits]; exact h.nbits8,
    by rw [hnb, hbits]; exact h.covers, hd.panics h.panics⟩

theorem inode (h : On S s v) (hv : ino ∈ v.vnodes) : (s.sv ino).svI = v.inode ino := by
  rw [inode_loaded hv, ← h.volume]
  rfl

theorem sbNblocks (h : On S s v) : s.sbNblocks = v.nblocks := by
  rw [← h.volume]
  rfl

theorem sectors (h : On S s v) : s.sfsDevice.sectors = v.sec := by
  rw [← h.volume]
  rfl

theorem inRange (h : On S s v) {b : ℕ} (hb : b < v.nblocks) : s.sfsDevice.InRange b :=
  Lhd.inRange_of_lt (lt_of_lt_of_le hb h.dblocks) h.dblocks_lt

theorem bit_of_lt (h : On S s v) {b : ℕ} (hb : b < s.sfsFreemap.nbits) : s.sfsFreemap.bit b = v.marks b := by
  rw [← h.volume]
  simp [SfsFs.volume, Nat.not_le.mpr hb]

theorem bit (h : On S s v) {b : ℕ} (hb : b < v.nblocks) : s.sfsFreemap.bit b = v.marks b :=
  h.bit_of_lt (lt_of_lt_of_le hb h.covers)

/-- After operations of the disk that left the sectors `sec`. -/
theorem disk (h : On S s v) {l : Lhd} {sec : ℕ → Block} (hl : s.sfsDevice.Later l) (hsec : l.sectors = sec) :
    On S { s with sfsDevice := l } { v with sec := sec } := by
  refine h.of_volume ?_ rfl hl rfl
  rw [← h.volume]
  simp only [SfsFs.volume, hsec]

theorem setInode (h : On S s v) (f : Block → Block) : On S (s.setInode ino f) (v.setInode ino f) := by
  refine h.of_volume ?_ rfl (.refl _) rfl
  rw [← h.volume]
  rfl

end On

theorem Calm.setInode (h : Calm S s v) (ino : ℕ) (f : Block → Block) : Calm S (s.setInode ino f) (v.setInode ino f) :=
  ⟨h.toOn.setInode f, h.steady⟩

/-- **A block read**, whatever the card reports. -/
theorem sfsReadblock_on (h : On S s v) {b : ℕ} (hb : b < v.nblocks) :
    Prog.wlp S (Sfs.dev (sfsReadblock b)) (fun d t => d = v.sec b ∧ On S t v ∧ s.sfsDevice.Later t.sfsDevice)
      (fun _ t => On S t v ∧ s.sfsDevice.Later t.sfsDevice ∧ ¬ s.sfsDevice.Steady) s := by
  unfold Sfs.dev
  rw [Prog.wlp_zoom]
  refine Prog.wlp_mono (sfsReadblock_ends (h.inRange hb) h.panics) (fun d l hd => ?_) fun e l hd => ?_
  · obtain ⟨rfl, hsec, hl⟩ := hd
    exact ⟨by rw [h.sectors], h.disk hl (hsec.trans h.sectors), hl⟩
  · obtain ⟨⟨hsec, hl⟩, i, hi⟩ := hd
    exact ⟨h.disk hl (hsec.trans h.sectors), hl, fun hs => hs i hi⟩

/-- **A block write** with no media error. -/
theorem sfsWriteblock_calm (h : Calm S s v) {b : ℕ} (hb : b < v.nblocks) (data : Block) :
    Prog.wlp S (Sfs.dev (sfsWriteblock b data)) (fun _ t => Calm S t (v.store b data)) (fun _ _ => False) s := by
  unfold Sfs.dev
  rw [Prog.wlp_zoom]
  refine Prog.wlp_mono (sfsWriteblock_ends (h.inRange hb) h.panics data) (fun _ l hd => ?_) fun _ _ hf => hf
  obtain ⟨hl, hsec | ⟨hm, -⟩⟩ := hd
  · rw [h.sectors] at hsec
    exact ⟨h.disk hl hsec, hl.steady h.steady⟩
  · exact absurd hm (h.steady 0)

theorem sfsReadblock_calm (h : Calm S s v) {b : ℕ} (hb : b < v.nblocks) :
    Prog.wlp S (Sfs.dev (sfsReadblock b)) (fun d t => d = v.sec b ∧ Calm S t v) (fun _ _ => False) s :=
  Prog.wlp_mono (sfsReadblock_on h.toOn hb) (fun _ _ hd => ⟨hd.1, hd.2.1, hd.2.2.steady h.steady⟩)
    fun _ _ hd => hd.2.2 h.steady

/-! ### The freemap -/

/-- **`sfs_bused`.** -/
theorem sfsBused_on (h : On S s v) {b : ℕ} (hb : b < v.nblocks) :
    sfsBused b s = .ok (v.marks b) s := by
  have hlt : b < s.sbNblocks := by
    rw [h.sbNblocks]
    exact hb
  unfold sfsBused
  rw [Prog.gets_bind, Prog.bind_of_ok (Prog.assert_run hlt)]
  exact congrArg (fun x => Outcome.ok x s) (h.bit hb)

theorem sfsBmapCheck_on (h : On S s v) {b : ℕ} (hb : b ≠ 0 → b < v.nblocks ∧ v.marks b = true) :
    sfsBmapCheck b s = .ok b s := by
  unfold sfsBmapCheck
  split_ifs with h0
  · rw [Prog.bind_of_ok (sfsBused_on h (hb h0).1), Prog.bind_of_ok (Prog.assert_run (hb h0).2)]
    rfl
  · rfl

/-- **`sfs_balloc`** with no media error: a block that was free, cleared, or
`ENOSPC` when there is none. -/
theorem sfsBalloc_calm (h : Calm S s v) (hpast : ∀ b, v.marks b = false → b < v.nblocks) :
    Prog.wlp S sfsBalloc (fun b t => v.marks b = false ∧ Calm S t (v.alloc b))
      (fun e t => e = .enospc ∧ (∀ b, v.marks b = true) ∧ t = s) s := by
  unfold sfsBalloc
  simp only [Sfs.freemap, Prog.wlp_bind, Prog.wlp_zoom, Prog.wlp_modify, Prog.wlp_gets, Prog.wlp_assert,
    Prog.wlp_attempt]
  refine Prog.wlp_mono (Prog.wlp_of_wp (bitmapAlloc_wp h.nbits8)) (fun b c hc => ?_) fun e c hc => ?_
  · obtain ⟨hbits, hbit, hsize, hall⟩ := hc
    have hmark : v.marks b = false := (h.bit_of_lt hbits).symm.trans hbit
    have hlt : b < v.nblocks := hpast b hmark
    refine ⟨fun _ => ?_, fun hge => absurd (h.sbNblocks.symm ▸ hlt) hge⟩
    set t : SfsFs Lhd := { s with sfsFreemap := c, sfsFreemapdirty := true } with ht
    have hon : On S t { v with marks := Function.update v.marks b true } := by
      refine h.toOn.of_volume ?_ rfl (.refl _) hsize
      rw [← h.volume]
      simp only [SfsFs.volume, ht, Volume.mk.injEq, true_and, and_true]
      funext d
      rw [hsize, hall]
      by_cases hd : d = b
      · simp [hd]
      · simp [hd]
    have hcalm : Calm S t { v with marks := Function.update v.marks b true } := ⟨hon, h.steady⟩
    unfold sfsClearblock
    refine Prog.wlp_mono (sfsWriteblock_calm hcalm hlt Block.zeros) (fun _ t' ht' => ?_) fun _ _ hf => hf.elim
    exact ⟨hmark, ht'⟩
  · obtain ⟨rfl, rfl, hall⟩ := hc
    refine ⟨rfl, fun b => Bool.eq_true_of_not_eq_false fun hb => ?_, rfl⟩
    have hlt := hpast b hb
    rw [← h.bit hlt, hall b (lt_of_lt_of_le hlt h.covers)] at hb
    cases hb

/-! ### Block mapping -/

/-- The index of a file block behind the direct ones. -/
theorem sfsBmap_indirect (ino : ℕ) {j : ℕ} (hj : j < 128) (doalloc : Bool) :
    sfsBmap (δ := Lhd) ino (15 + j) doalloc = sfsBmapIndirect ino j doalloc := by
  have h1 : ¬ 15 + j < 15 := by omega
  have h2 : ¬ 1 ≤ (15 + j - 15) / 128 := by omega
  have h3 : (15 + j - 15) % 128 = j := by omega
  unfold sfsBmap sfsNdirect sfsDbperidb
  rw [if_neg h1, if_neg h2, h3]

theorem sfsBmap_direct (ino : ℕ) {k : ℕ} (hk : k < 15) (doalloc : Bool) :
    sfsBmap (δ := Lhd) ino k doalloc = sfsBmapDirect ino k doalloc := if_pos hk

/-- **Past the largest file** `sfs_bmap` fails at once. -/
theorem sfsBmap_efbig {δ : Type} [DevOps δ] (x : SfsFs δ) (ino : ℕ) {k : ℕ} (hk : 143 ≤ k) (doalloc : Bool) :
    sfsBmap ino k doalloc x = .fail .efbig x := by
  have h1 : ¬ k < 15 := by omega
  have h2 : 1 ≤ (k - 15) / 128 := by omega
  unfold sfsBmap sfsNdirect sfsDbperidb
  rw [if_neg h1, if_pos h2]
  rfl

/-- **`sfs_bmap` that allocates nothing**: the block of the file, or the read of
the indirect block failed. -/
theorem sfsBmap_mapped (h : On S s v) (hf : OneFile v ino) {k : ℕ} (hk : k < 143) {doalloc : Bool}
    (hb : v.fileBlock ino k ≠ 0 ∨ doalloc = false) :
    Prog.wlp S (sfsBmap ino k doalloc) (fun b t => b = v.fileBlock ino k ∧ On S t v ∧ s.sfsDevice.Later t.sfsDevice)
      (fun _ t => On S t v ∧ s.sfsDevice.Later t.sfsDevice ∧ ¬ s.sfsDevice.Steady) s := by
  have hcheck : ∀ {t : SfsFs Lhd}, On S t v → sfsBmapCheck (v.fileBlock ino k) t = .ok (v.fileBlock ino k) t :=
    fun ht => sfsBmapCheck_on ht fun h0 => hf.block_used h0
  have hnot : ¬ (v.fileBlock ino k = 0 ∧ doalloc = true) := fun hc => by
    rcases hb with hb | hb
    · exact hb hc.1
    · rw [hb] at hc
      cases hc.2
  have hrefl := Lhd.Later.refl s.sfsDevice
  by_cases hdir : k < 15
  · have hblock : (s.sv ino).svI.sfiDirect k = v.fileBlock ino k := by
      rw [h.inode hf.loaded, fileBlock_direct _ hdir]
    rw [sfsBmap_direct ino hdir]
    unfold sfsBmapDirect
    rw [Prog.wlp_bind, Prog.wlp_gets, hblock, if_neg hnot]
    exact (Prog.wlp_ok (hcheck h)).mpr ⟨rfl, h, hrefl⟩
  · obtain ⟨j, rfl⟩ : ∃ j, k = 15 + j := ⟨k - 15, by omega⟩
    have hj : j < 128 := by omega
    rw [sfsBmap_indirect ino hj]
    unfold sfsBmapIndirect
    rw [Prog.wlp_bind, Prog.wlp_gets, h.inode hf.loaded]
    split_ifs with hid
    · exact ⟨(fileBlock_no_indirect (by omega) hid.1).symm, h, hrefl⟩
    · have hid0 : (v.inode ino).sfiIndirect ≠ 0 := fun h0 => by
        have hz : v.fileBlock ino (15 + j) = 0 := fileBlock_no_indirect (by omega) h0
        exact hid ⟨h0, hb.resolve_left fun hne => hne hz⟩
      unfold sfsBmapIdblock
      rw [Prog.wlp_bind, if_neg hid0, Prog.wlp_bind]
      refine Prog.wlp_mono (sfsReadblock_on h (hf.used .indirect hid0).1) (fun d t hd => ?_) fun _ _ hd => hd
      obtain ⟨rfl, ht, hl⟩ := hd
      have hentry : (v.sec (v.inode ino).sfiIndirect).entry j = v.fileBlock ino (15 + j) := by
        rw [fileBlock_indirect (by omega) (by omega) hid0, Nat.add_sub_cancel_left]
      rw [Prog.wlp_pure]
      dsimp only
      rw [hentry, if_neg hnot]
      exact (Prog.wlp_ok (hcheck ht)).mpr ⟨rfl, ht, hl⟩

/-- How `sfs_bmap` ends when it fills a hole. -/
def Filled (S : Prop) (v : Volume) (ino k : ℕ) (b : ℕ) (t : SfsFs Lhd) : Prop :=
  ∃ w, Calm S t w ∧ Extended v w ino ∧ w.fileBlock ino k = b ∧ b ≠ 0

/-- There is no block `k`: the file cannot be so large, or the volume is full. -/
def NoBlock (v : Volume) (ino k : ℕ) (e : Errno) : Prop :=
  e = .efbig ∧ 143 ≤ k ∨ e = .enospc ∧ v.fileBlock ino k = 0 ∧ ∀ b, v.marks b = true

/-- How it ends when it does not. -/
def Unfilled (S : Prop) (v : Volume) (ino k : ℕ) (e : Errno) (t : SfsFs Lhd) : Prop :=
  ∃ w, Calm S t w ∧ Extended v w ino ∧ NoBlock w ino k e

/-- A block of the file passes the check. -/
theorem sfsBmapCheck_file (h : On S s v) (hf : OneFile v ino) {k b : ℕ} (hb : v.fileBlock ino k = b) :
    sfsBmapCheck b s = .ok b s :=
  sfsBmapCheck_on h fun h0 => hb ▸ hf.block_used (hb ▸ h0)

theorem sfsBmapDirect_hole (h : Calm S s v) (hf : OneFile v ino) {k : ℕ} (hk : k < 15) (hzero : v.fileBlock ino k = 0) :
    Prog.wlp S (sfsBmapDirect ino k true) (Filled S v ino k) (Unfilled S v ino k) s := by
  have hblock : (s.sv ino).svI.sfiDirect k = 0 := by
    rw [h.inode hf.loaded, ← fileBlock_direct _ hk, hzero]
  unfold sfsBmapDirect
  rw [Prog.wlp_bind, Prog.wlp_gets, hblock, if_pos ⟨rfl, rfl⟩]
  simp only [Prog.wlp_bind, Prog.wlp_modify]
  refine Prog.wlp_mono (sfsBalloc_calm h hf.past) (fun b t hb => ?_) fun e t he => ?_
  · obtain ⟨hfree, ht⟩ := hb
    obtain ⟨hext, hself⟩ := hf.attach_direct hfree hk hzero
    have ht' := ht.setInode ino fun i => i.setDirect k b
    exact (Prog.wlp_ok (sfsBmapCheck_file ht'.toOn hext.file hself)).mpr ⟨_, ht', hext, hself, hf.free_ne_zero hfree⟩
  · obtain ⟨rfl, hfull, rfl⟩ := he
    exact ⟨v, h, .refl hf, Or.inr ⟨rfl, hzero, hfull⟩⟩

/-- An empty entry of the indirect block. -/
theorem sfsBmapEntry_hole (h : Calm S s v) (hf : OneFile v ino) {j : ℕ} (hj : j < 128)
    (hid : (v.inode ino).sfiIndirect ≠ 0) (hzero : v.fileBlock ino (15 + j) = 0) :
    Prog.wlp S (do
        let block ← sfsBalloc
        Sfs.dev (sfsWriteblock (v.inode ino).sfiIndirect ((v.sec (v.inode ino).sfiIndirect).setEntry j block))
        sfsBmapCheck block)
      (Filled S v ino (15 + j)) (Unfilled S v ino (15 + j)) s := by
  simp only [Prog.wlp_bind]
  refine Prog.wlp_mono (sfsBalloc_calm h hf.past) (fun b t hb => ?_) fun e t he => ?_
  · obtain ⟨hfree, ht⟩ := hb
    obtain ⟨hext, hself⟩ := hf.attach_entry hfree hj hid hzero
    refine Prog.wlp_mono (sfsWriteblock_calm ht (hf.used .indirect hid).1 _) (fun _ t' ht' => ?_) fun _ _ hf => hf.elim
    exact (Prog.wlp_ok (sfsBmapCheck_file ht'.toOn hext.file hself)).mpr ⟨_, ht', hext, hself, hf.free_ne_zero hfree⟩
  · obtain ⟨rfl, hfull, rfl⟩ := he
    exact ⟨v, h, .refl hf, Or.inr ⟨rfl, hzero, hfull⟩⟩

theorem sfsBmapIndirect_hole (h : Calm S s v) (hf : OneFile v ino) {j : ℕ} (hj : j < 128)
    (hzero : v.fileBlock ino (15 + j) = 0) :
    Prog.wlp S (sfsBmapIndirect ino j true) (Filled S v ino (15 + j)) (Unfilled S v ino (15 + j)) s := by
  have hnot : ¬ ((v.inode ino).sfiIndirect = 0 ∧ true = false) := fun hc => Bool.noConfusion hc.2
  unfold sfsBmapIndirect sfsBmapIdblock
  rw [Prog.wlp_bind, Prog.wlp_gets, h.inode hf.loaded, if_neg hnot, Prog.wlp_bind]
  by_cases hid : (v.inode ino).sfiIndirect = 0
  · -- both the indirect block and the data block are new
    rw [if_pos hid]
    rw [Prog.wlp_bind]
    refine Prog.wlp_mono (sfsBalloc_calm h hf.past) (fun b t hb => ?_) fun e t he => ?_
    · rw [Prog.wlp_bind, Prog.wlp_modify, Prog.wlp_pure]
      dsimp only
      have hfree := hb.1
      have hext := (hf.attach_indirect hfree hid).1
      have hself := (hf.attach_indirect hfree hid).2
      have ht' := hb.2.setInode ino fun i => i.setIndirect b
      rw [Block.entry_zeros, if_pos ⟨rfl, rfl⟩]
      set w := (v.alloc b).setInode ino fun i => i.setIndirect b with hw
      have hne : (w.inode ino).sfiIndirect ≠ 0 := by
        rw [hself]
        exact hf.free_ne_zero hfree
      have hsec : w.sec (w.inode ino).sfiIndirect = Block.zeros := by
        rw [hself]
        exact alloc_sec_self b
      have hz : w.fileBlock ino (15 + j) = 0 := by
        rw [fileBlock_indirect (by omega) (by omega) hne, hsec, Block.entry_zeros]
      have hentry := sfsBmapEntry_hole ht' hext.file hj hne hz
      rw [hsec, hself] at hentry
      refine Prog.wlp_mono hentry (fun c t'' hc => ?_) fun e t'' he => ?_
      · obtain ⟨x, hx, hext', hxb, hc0⟩ := hc
        exact ⟨x, hx, hext.trans hext', hxb, hc0⟩
      · obtain ⟨x, hx, hext', he⟩ := he
        exact ⟨x, hx, hext.trans hext', he⟩
    · obtain ⟨rfl, hfull, rfl⟩ := he
      exact ⟨v, h, .refl hf, Or.inr ⟨rfl, hzero, hfull⟩⟩
  · rw [if_neg hid, Prog.wlp_bind]
    refine Prog.wlp_mono (sfsReadblock_calm h (hf.used .indirect hid).1) (fun d t hd => ?_) fun _ _ hf => hf.elim
    obtain ⟨rfl, ht⟩ := hd
    have hentry : (v.sec (v.inode ino).sfiIndirect).entry j = 0 := by
      rw [← hzero, fileBlock_indirect (by omega) (by omega) hid, Nat.add_sub_cancel_left]
    rw [Prog.wlp_pure]
    dsimp only
    rw [hentry, if_pos ⟨rfl, rfl⟩]
    exact sfsBmapEntry_hole ht hf hj hid hzero

/-- **`sfs_bmap` for a write**, with no media error: a block of the file, which
is otherwise the same, or a failure with the same file. -/
theorem sfsBmap_calm (h : Calm S s v) (hf : OneFile v ino) (k : ℕ) :
    Prog.wlp S (sfsBmap ino k true) (Filled S v ino k) (Unfilled S v ino k) s := by
  by_cases hbig : 143 ≤ k
  · exact (Prog.wlp_fail_run (sfsBmap_efbig s ino hbig true)).mpr ⟨v, h, .refl hf, Or.inl ⟨rfl, hbig⟩⟩
  by_cases hb : v.fileBlock ino k = 0
  · by_cases hk : k < 15
    · rw [sfsBmap_direct ino hk]
      exact sfsBmapDirect_hole h hf hk hb
    · obtain ⟨j, rfl⟩ : ∃ j, k = 15 + j := ⟨k - 15, by omega⟩
      rw [sfsBmap_indirect ino (by omega)]
      exact sfsBmapIndirect_hole h hf (by omega) hb
  · refine Prog.wlp_mono (sfsBmap_mapped h.toOn hf (by omega) (Or.inl hb)) (fun b t ht => ?_) fun _ t ht => ?_
    · obtain ⟨rfl, ht, hl⟩ := ht
      exact ⟨v, ⟨ht, hl.steady h.steady⟩, .refl hf, rfl, hb⟩
    · exact absurd h.steady ht.2.2

end Os161
