/-
# Transfers that change nothing

Three kinds of calls of `sfs_io` should leave the volume as it is.

* A write past the largest file. `sfs_bmap` refuses it, but gets the block
  number in 32 bits: the write is refused if and only if the number that is left
  is too large (`sfsIo_efbig_iff`).
* A read, which is `sfs_bmap` without allocation and reads of the disk.
* A write of nothing. It asks for the block of its offset all the same, so in a
  hole it takes one (`sfsIo_untouched`).
-/
import Os161.Sfs.Progress

namespace Os161

open Volume

/-! ### Refused at the first block -/

section Refused

variable {δ : Type} [DevOps δ] {s : SfsFs δ} {u : Uio} {sv : ℕ} {e : Errno}

theorem sfsPartialio_of_bmap_fail (hw : u.uioRw = .write) {skip len : ℕ} (hfit : skip + len ≤ 512)
    (hb : sfsBmap sv (wcast (u.uioOffset / 512)) true s = .fail e s) :
    sfsPartialio sv skip len (s, u) = .fail e (s, u) := by
  have hb' : Sfs.fs (sfsBmap sv (wcast (u.uioOffset / 512)) (decide (u.uioRw = .write))) (s, u) = .fail e (s, u) := by
    rw [hw]
    exact Prog.zoom_of_fail hb
  unfold sfsPartialio
  rw [Prog.gets_bind, Prog.bind_of_ok (Prog.assert_run hfit), Prog.bind_of_fail hb']

theorem sfsBlockio_of_bmap_fail (hw : u.uioRw = .write) (hb : sfsBmap sv (wcast (u.uioOffset / 512)) true s = .fail e s) :
    sfsBlockio sv (s, u) = .fail e (s, u) := by
  have hb' : Sfs.fs (sfsBmap sv (wcast (u.uioOffset / 512)) (decide (u.uioRw = .write))) (s, u) = .fail e (s, u) := by
    rw [hw]
    exact Prog.zoom_of_fail hb
  unfold sfsBlockio
  rw [Prog.gets_bind, Prog.bind_of_fail hb']

/-- **A write whose first block cannot be had** fails with nothing changed. -/
theorem sfsIo_of_bmap_fail (hw : u.uioRw = .write) (hpos : 0 < u.uioResid)
    (hb : sfsBmap sv (wcast (u.uioOffset / 512)) true s = .fail e s) : sfsIo sv (s, u) = .fail e (s, u) := by
  refine sfsIo_of_fail hw ?_ rfl
  have hpure : (pure () : Prog Errno (SfsFs δ × Uio) Unit) (s, u) = .ok () (s, u) := rfl
  unfold sfsIoBody
  rw [Prog.gets_bind]
  dsimp only
  by_cases h0 : u.uioOffset % 512 = 0
  · rw [if_neg (not_not.mpr h0), Prog.bind_of_ok hpure, Prog.gets_bind, if_neg hpos.ne',
      Prog.bind_of_ok (Prog.assert_run h0)]
    by_cases hblock : 512 ≤ u.uioResid
    · obtain ⟨n, hn⟩ : ∃ n, u.uioResid / 512 = n + 1 := ⟨u.uioResid / 512 - 1, by omega⟩
      have hfirst : sfsBlockio sv (s, u) = .fail e (s, u) := sfsBlockio_of_bmap_fail hw hb
      have hloop : Prog.forUp (n + 1) (fun _ => sfsBlockio sv) (s, u) = .fail e (s, u) := Prog.forUp_of_fail n hfirst
      rw [hn, Prog.bind_of_fail hloop]
    · have hzero : u.uioResid / 512 = 0 := by omega
      have hlast : sfsPartialio sv 0 u.uioResid (s, u) = .fail e (s, u) := sfsPartialio_of_bmap_fail hw (by omega) hb
      rw [hzero, Prog.forUp_zero, Prog.bind_of_ok hpure, Prog.gets_bind,
        Prog.bind_of_ok (Prog.assert_run (Nat.lt_of_not_le hblock)), if_pos hpos, hlast]
  · rw [if_pos h0, Prog.bind_of_fail (sfsPartialio_of_bmap_fail hw (by omega) hb)]

/-- `bitmap_alloc` on a map without a clear bit. -/
theorem bitmapAlloc_full {b : Freemap} (h8 : b.nbits % 8 = 0) (hfull : ∀ k < b.nbits, b.bit k = true) :
    bitmapAlloc b = .fail .enospc b := by
  have hwp := bitmapAlloc_wp h8
  cases h : bitmapAlloc b with
  | ok k c =>
    obtain ⟨hlt, hclear, -⟩ := Prog.wp_ok hwp h
    rw [hfull k hlt] at hclear
    cases hclear
  | fail err c =>
    obtain ⟨rfl, rfl, -⟩ := Prog.wp_failed hwp h
    rfl
  | stop => exact absurd h (Prog.wp_ne_stop hwp)

theorem sfsBalloc_full (h8 : s.sfsFreemap.nbits % 8 = 0) (hfull : ∀ k < s.sfsFreemap.nbits, s.sfsFreemap.bit k = true) :
    sfsBalloc s = .fail .enospc s := by
  have h : (Sfs.freemap bitmapAlloc : Prog Errno (SfsFs δ) ℕ) s = .fail .enospc s :=
    Prog.zoom_of_fail (bitmapAlloc_full h8 hfull)
  unfold sfsBalloc
  rw [Prog.bind_of_fail h]

/-- An empty file on a volume of eight blocks that are all in use. -/
def noSpaceFs (d : δ) : SfsFs δ :=
  ⟨8, d, [], ⟨8, fun _ => BitVec.allOnes 8⟩, false, fun _ => ⟨Block.zeros, false, 1⟩, fun _ => true⟩

theorem noSpaceFs_balloc (d : δ) : sfsBalloc (noSpaceFs d) = .fail .enospc (noSpaceFs d) :=
  sfsBalloc_full (Nat.mod_self 8) fun k _ => Bitmap.bit_allOnes (by decide) k

theorem noSpaceFs_bmap (d : δ) (sv : ℕ) {k : ℕ} (hk : k < 143) :
    sfsBmap sv k true (noSpaceFs d) = .fail .enospc (noSpaceFs d) := by
  unfold sfsBmap sfsNdirect sfsDbperidb
  by_cases hk15 : k < 15
  · have hzero : ((noSpaceFs d).sv sv).svI.sfiDirect k = 0 := Block.field_zeros _ _
    rw [if_pos hk15]
    unfold sfsBmapDirect
    rw [Prog.gets_bind, hzero, if_pos ⟨rfl, rfl⟩, Prog.bind_of_fail (noSpaceFs_balloc d)]
  · have hone : ¬ 1 ≤ (k - 15) / 128 := by omega
    have hzero : ((noSpaceFs d).sv sv).svI.sfiIndirect = 0 := Block.field_zeros _ _
    have hid : sfsBmapIdblock sv 0 (noSpaceFs d) = .fail .enospc (noSpaceFs d) := by
      unfold sfsBmapIdblock
      rw [if_pos rfl, Prog.bind_of_fail (noSpaceFs_balloc d)]
    rw [if_neg hk15, if_neg hone]
    unfold sfsBmapIndirect
    rw [Prog.gets_bind, hzero, if_neg fun hc => Bool.noConfusion hc.2, Prog.bind_of_fail hid]

/-- **A write is refused as too large**, whatever the volume and the file, if and
only if the block number that is left of its offset in 32 bits is past the
largest file. -/
theorem sfsIo_efbig_iff (δ : Type) [DevOps δ] [Nonempty δ] (offset len : ℕ) (hlen : 0 < len) :
    (∀ (s : SfsFs δ) (sv : ℕ) (u : Uio), u.uioRw = .write → u.uioOffset = offset → u.uioResid = len →
      sfsIo sv (s, u) = .fail .efbig (s, u)) ↔ 143 ≤ wcast (offset / 512) := by
  constructor
  · intro h
    obtain ⟨d⟩ := ‹Nonempty δ›
    by_contra hk
    have hno := sfsIo_of_bmap_fail (u := uioKinit (fun _ => 0) 0 len offset .write) rfl hlen
      (noSpaceFs_bmap d 0 (Nat.lt_of_not_le hk))
    have hbig := h (noSpaceFs d) 0 (uioKinit (fun _ => 0) 0 len offset .write) rfl rfl rfl
    exact absurd (hno.symm.trans hbig) (by simp)
  · intro hk s sv u hw hoff hres
    subst hoff hres
    exact sfsIo_of_bmap_fail hw hlen (sfsBmap_efbig s sv hk true)

/-- A byte at 2^41 is written to the first block of the file. -/
theorem sfsIo_past_largest : ∃ x, sfsIo 5 (tinyFs (tinyDisk fun _ => .ok), tinyUio (2 ^ 41)) = .ok () x ∧
    143 * 512 ≤ (tinyUio (2 ^ 41)).uioOffset ∧
    ((tinyFs (tinyDisk fun _ => .ok)).sfsDevice.sectors 3).get 0 = 0 ∧ (x.1.sfsDevice.sectors 3).get 0 = 1 := by
  have hk : wcast (2 ^ 41 / 512) = 0 := by
    unfold wcast
    norm_num
  obtain ⟨l', x, hio, hout, -, hsec⟩ := tinyFs_io (l := tinyDisk fun _ => .ok) rfl rfl (fun h => nomatch h) hk
  obtain ⟨data, hdata, hbyte⟩ := hsec rfl
  refine ⟨x, hio, by norm_num [tinyUio, uioKinit], rfl, ?_⟩
  have hdev : x.1.sfsDevice = l' := by
    obtain ⟨-, rfl⟩ := Outcome.ok.inj hout
    dsimp only
    split_ifs <;> rfl
  have hmod : 2 ^ 41 % 512 = 0 := by norm_num
  rw [hmod] at hbyte
  rw [hdev, hdata, Function.update_self, hbyte]

theorem sfsIo_efbig_just_past : sfsIo 5 (tinyFs (tinyDisk fun _ => .ok), tinyUio (143 * 512)) =
    .fail .efbig (tinyFs (tinyDisk fun _ => .ok), tinyUio (143 * 512)) := by
  have : Nonempty Lhd := ⟨tinyDisk fun _ => .ok⟩
  have hk : 143 ≤ wcast (143 * 512 / 512) := by
    unfold wcast
    norm_num
  exact (sfsIo_efbig_iff Lhd (143 * 512) 1 one_pos).mpr hk _ _ _ rfl rfl rfl

end Refused

/-! ### Reads -/

section Reads

theorem moveSeg_rw (base pos size : ℕ) (u : Uio) (b : Buf) :
    Prog.wlp True (moveSeg base pos size) (fun _ y => y.1.uioRw = u.uioRw) (fun _ y => y.1.uioRw = u.uioRw) (u, b) := by
  obtain ⟨iov, off, resid, seg, rw, mem, mapped⟩ := u
  unfold Prog.wlp moveSeg
  dsimp only
  generalize copyout b pos mem mapped base size = o
  generalize copyin mem mapped base b pos size = i
  obtain ⟨_ | _, _⟩ := o <;> obtain ⟨_ | _, _⟩ := i <;> cases seg <;> cases rw <;> rfl

/-- A move keeps the direction of the uio. -/
theorem uiomoveLoop_rw (iov : List Iovec) : ∀ (pos n : ℕ) (u : Uio) (b : Buf),
    Prog.wlp True (uiomoveLoop iov pos n) (fun _ y => y.1.uioRw = u.uioRw) (fun _ y => y.1.uioRw = u.uioRw) (u, b) := by
  induction iov with
  | nil =>
    intro pos n u b
    unfold Prog.wlp uiomoveLoop
    by_cases h : n = 0 ∨ u.uioResid = 0
    · simp only [if_pos h]
    · simp only [if_neg h]
  | cons v rest ih =>
    intro pos n u b
    have hseg := moveSeg_rw v.iovBase pos (min v.iovLen n) u b
    unfold Prog.wlp at hseg ⊢
    unfold uiomoveLoop
    dsimp only
    by_cases h : n = 0 ∨ u.uioResid = 0
    · simp only [if_pos h]
    rw [if_neg h]
    by_cases hsize : min v.iovLen n = 0
    · rw [if_pos hsize]
      by_cases hrest : rest = []
      · simp only [if_pos hrest]
      · rw [if_neg hrest]
        exact ih pos n u b
    · rw [if_neg hsize]
      cases hm : moveSeg v.iovBase pos (min v.iovLen n) (u, b) with
      | stop => trivial
      | fail e y =>
        rw [hm] at hseg
        exact hseg
      | ok r y =>
        rw [hm] at hseg
        dsimp only
        split_ifs
        · exact hseg
        · trivial
        · have hrw : (y.1.advance (min v.iovLen n)).uioRw = u.uioRw := hseg
          rw [← hrw]
          exact ih _ _ _ _

theorem uiomove_rw (n : ℕ) (u : Uio) (b : Buf) :
    Prog.wlp True (uiomove n) (fun _ y => y.1.uioRw = u.uioRw) (fun _ y => y.1.uioRw = u.uioRw) (u, b) :=
  uiomoveLoop_rw u.uioIov 0 n u b

theorem uiomoveBuf_rw (b : Buf) (n : ℕ) (u : Uio) :
    Prog.wlp True (uiomoveBuf b n) (fun _ u' => u'.uioRw = u.uioRw) (fun _ u' => u'.uioRw = u.uioRw) u := by
  have h := uiomove_rw n u b
  unfold Prog.wlp at h ⊢
  unfold uiomoveBuf
  cases hm : uiomove n (u, b) with
  | stop => trivial
  | fail e y => rw [hm] at h; exact h
  | ok r y => rw [hm] at h; exact h

theorem uiomoveBlock_rw (iobuf : Block) (skip len : ℕ) (u : Uio) :
    Prog.wlp True (uiomoveBlock iobuf skip len) (fun _ u' => u'.uioRw = u.uioRw) (fun _ u' => u'.uioRw = u.uioRw) u := by
  unfold uiomoveBlock
  rw [Prog.wlp_bind]
  exact uiomoveBuf_rw _ len u

theorem uiomovezeros_rw (n : ℕ) (u : Uio) :
    Prog.wlp True (uiomovezeros n) (fun _ u' => u'.uioRw = u.uioRw) (fun _ u' => u'.uioRw = u.uioRw) u := by
  unfold uiomovezeros
  rw [Prog.wlp_bind, Prog.wlp_get, Prog.wlp_bind, Prog.wlp_assert]
  refine ⟨fun _ => ?_, fun _ => trivial⟩
  refine Prog.wlp_forUp (I := fun _ (u' : Uio) => u'.uioRw = u.uioRw) rfl fun i _ u' hu' => ?_
  rw [Prog.wlp_bind, ← hu']
  exact uiomoveBuf_rw _ _ u'

/-- What a read keeps: the sectors, and that it is a read. -/
def Reading (sec : ℕ → Block) (y : Lhd × Uio) : Prop := y.1.sectors = sec ∧ y.2.uioRw = .read

variable {sec : ℕ → Block}

theorem lhdMove_reading {y : Lhd × Uio} (h : Reading sec y) :
    Prog.wlp True lhdMove (fun _ => Reading sec) (fun _ => Reading sec) y := by
  unfold lhdMove
  rw [Prog.wlp_zoom]
  exact Prog.wlp_mono (uiomove_rw 512 y.2 y.1.lhBuf) (fun _ _ hz => ⟨h.1, hz.trans h.2⟩) fun _ _ hz => ⟨h.1, hz.trans h.2⟩

theorem lhdSector_reading (b : ℕ) {y : Lhd × Uio} (h : Reading sec y) :
    Prog.wlp True (lhdSector .read b) (fun _ => Reading sec) (fun _ => Reading sec) y := by
  have hop : Prog.wlp True (Prog.zoom Prod.fst (fun l s => (l, s.2)) (lhdOperation .read b))
      (fun _ => Reading sec) (fun _ => Reading sec) y := by
    rw [Prog.wlp_zoom]
    unfold Prog.wlp lhdOperation
    dsimp only
    cases lhdCodeToErrno (y.1.status 0) with
    | error e => exact h
    | ok r => exact h
  have hseq := (Prog.wlp_bind (S := True) (Q := fun _ => Reading sec) (E := fun _ => Reading sec) (s := y)
    (Prog.zoom Prod.fst (fun l s => (l, s.2)) (lhdOperation .read b)) fun _ => lhdMove).mpr
    (Prog.wlp_mono hop (fun _ _ hz => lhdMove_reading hz) fun _ _ hz => hz)
  rw [lhdSector_read]
  exact hseq

/-- **A read of the disk** leaves its sectors. -/
theorem lhdIo_reading {y : Lhd × Uio} (h : Reading sec y) :
    Prog.wlp True lhdIo (fun _ => Reading sec) (fun _ => Reading sec) y := by
  obtain ⟨l, u⟩ := y
  have hrw : u.uioRw = .read := h.2
  rw [Prog.wlp_congr (lhdIo_eq l u), hrw, Prog.wlp_ite, Prog.wlp_ite]
  refine ⟨fun _ => h, fun _ => ⟨fun _ => h, fun _ => ?_⟩⟩
  exact Prog.wlp_forUp (I := fun _ => Reading sec) h fun i _ z hz => lhdSector_reading _ hz

theorem sfsRwblockTry_reading {more : Prog Errno (Lhd × Uio) Unit} {y : Lhd × Uio} (h : Reading sec y)
    (hmore : ∀ z, Reading sec z → Prog.wlp True more (fun _ => Reading sec) (fun _ => Reading sec) z) :
    Prog.wlp True (sfsRwblockTry more) (fun _ => Reading sec) (fun _ => Reading sec) y := by
  unfold sfsRwblockTry
  rw [Prog.wlp_bind, Prog.wlp_attempt]
  refine Prog.wlp_mono (lhdIo_reading h) (fun _ z hz => hz) fun e z hz => ?_
  cases e <;> first | exact hz | exact hmore z hz | trivial

theorem sfsRwblock_reading {y : Lhd × Uio} (h : Reading sec y) :
    Prog.wlp True sfsRwblock (fun _ => Reading sec) (fun _ => Reading sec) y := by
  have hloop : ∀ n z, Reading sec z → Prog.wlp True (sfsRwblockLoop n) (fun _ => Reading sec) (fun _ => Reading sec) z := by
    intro n
    induction n with
    | zero => exact fun z hz => sfsRwblockTry_reading hz fun _ hw => hw
    | succ n ih => exact fun z hz => sfsRwblockTry_reading hz ih
  exact hloop 10 y h

theorem sfsReadblock_sectors (b : ℕ) (l : Lhd) :
    Prog.wlp True (sfsReadblock b) (fun _ l' => l'.sectors = l.sectors) (fun _ l' => l'.sectors = l.sectors) l := by
  have h : Prog.wlp True sfsRwblock (fun _ => Reading l.sectors) (fun _ => Reading l.sectors)
      (l, sfsUio (fun _ => 0) b .read) := sfsRwblock_reading ⟨rfl, rfl⟩
  unfold Prog.wlp at h ⊢
  unfold sfsReadblock
  cases hr : sfsRwblock (l, sfsUio (fun _ => 0) b .read) with
  | stop => trivial
  | fail e z => rw [hr] at h; exact h.1
  | ok r z => rw [hr] at h; exact h.1

variable {v : Volume}

theorem sfsReadblock_volume (b : ℕ) {s : SfsFs Lhd} (h : s.volume = v) :
    Prog.wlp True (Sfs.dev (sfsReadblock b)) (fun _ t => t.volume = v) (fun _ t => t.volume = v) s := by
  have hdisk : ∀ l : Lhd, l.sectors = s.sfsDevice.sectors → ({ s with sfsDevice := l } : SfsFs Lhd).volume = v := by
    intro l hl
    rw [← h]
    simp only [SfsFs.volume, hl]
  unfold Sfs.dev
  rw [Prog.wlp_zoom]
  exact Prog.wlp_mono (sfsReadblock_sectors b s.sfsDevice) (fun _ l hl => hdisk l hl) fun _ l hl => hdisk l hl

theorem sfsBmapCheck_volume (b : ℕ) {s : SfsFs Lhd} (h : s.volume = v) :
    Prog.wlp True (sfsBmapCheck b) (fun _ t => t.volume = v) (fun _ t => t.volume = v) s := by
  unfold sfsBmapCheck sfsBused
  simp only [Prog.wlp_ite, Prog.wlp_bind, Prog.wlp_gets, Prog.wlp_assert, Prog.wlp_pure, implies_true, and_true]
  exact ⟨fun _ _ _ => h, fun _ => h⟩

/-- **`sfs_bmap` without allocation** changes nothing. -/
theorem sfsBmap_volume (sv k : ℕ) {s : SfsFs Lhd} (h : s.volume = v) :
    Prog.wlp True (sfsBmap sv k false) (fun _ t => t.volume = v) (fun _ t => t.volume = v) s := by
  have hnot : ∀ b, ¬ (b = 0 ∧ false = true) := fun b hc => Bool.noConfusion hc.2
  unfold sfsBmap
  rw [Prog.wlp_ite, Prog.wlp_ite, Prog.wlp_fail]
  refine ⟨fun _ => ?_, fun _ => ⟨fun _ => h, fun _ => ?_⟩⟩
  · unfold sfsBmapDirect
    rw [Prog.wlp_bind, Prog.wlp_gets, if_neg (hnot _)]
    exact sfsBmapCheck_volume _ h
  · unfold sfsBmapIndirect sfsBmapIdblock
    rw [Prog.wlp_bind, Prog.wlp_gets]
    by_cases hid : (s.sv sv).svI.sfiIndirect = 0
    · rw [if_pos ⟨hid, rfl⟩]
      exact h
    · rw [if_neg fun hc => hid hc.1, if_neg hid, Prog.wlp_bind, Prog.wlp_bind]
      refine Prog.wlp_mono (sfsReadblock_volume _ h) (fun d t ht => ?_) fun _ _ ht => ht
      rw [Prog.wlp_pure]
      dsimp only
      rw [if_neg (hnot _)]
      exact sfsBmapCheck_volume _ ht

/-- What a read keeps: the volume, and that it is a read. -/
def ReadingFile (v : Volume) (x : SfsFs Lhd × Uio) : Prop := x.1.volume = v ∧ x.2.uioRw = .read

variable {x : SfsFs Lhd × Uio}

theorem sfsPartialio_reading (sv skip len : ℕ) (h : ReadingFile v x) :
    Prog.wlp True (sfsPartialio sv skip len) (fun _ => ReadingFile v) (fun _ => ReadingFile v) x := by
  obtain ⟨s, u⟩ := x
  obtain ⟨hvol, hrw⟩ := h
  have hmove : ∀ (iobuf : Block) (t : SfsFs Lhd), t.volume = v →
      Prog.wlp True (Sfs.uio (uiomoveBlock iobuf skip len)) (fun _ => ReadingFile v) (fun _ => ReadingFile v) (t, u) := by
    intro iobuf t ht
    unfold Sfs.uio
    rw [Prog.wlp_zoom]
    exact Prog.wlp_mono (uiomoveBlock_rw iobuf skip len u) (fun _ _ hu => ⟨ht, hu.trans hrw⟩)
      fun _ _ hu => ⟨ht, hu.trans hrw⟩
  unfold sfsPartialio
  rw [Prog.wlp_bind, Prog.wlp_gets, Prog.wlp_bind, Prog.wlp_assert]
  refine ⟨fun _ => ?_, fun _ => trivial⟩
  have hnot : ¬ u.uioRw = .write := fun hc => by
    rw [hrw] at hc
    cases hc
  dsimp only
  rw [decide_eq_false hnot, Prog.wlp_bind]
  unfold Sfs.fs
  rw [Prog.wlp_zoom]
  refine Prog.wlp_mono (sfsBmap_volume sv _ hvol) (fun b t ht => ?_) fun _ _ ht => ⟨ht, hrw⟩
  have hbuf : Prog.wlp True (if b = 0 then do
        Prog.assert (u.uioRw = .read)
        pure Block.zeros
      else Prog.zoom Prod.fst (fun t s => (t, s.2)) (Sfs.dev (sfsReadblock b)) : Prog Errno (SfsFs Lhd × Uio) Block)
      (fun _ y => y.1.volume = v ∧ y.2 = u) (fun _ => ReadingFile v) (t, u) := by
    rw [Prog.wlp_ite, Prog.wlp_bind, Prog.wlp_assert_of hrw, Prog.wlp_zoom]
    exact ⟨fun _ => ⟨ht, rfl⟩, fun _ => Prog.wlp_mono (sfsReadblock_volume b ht) (fun _ _ ht' => ⟨ht', rfl⟩)
      fun _ _ ht' => ⟨ht', hrw⟩⟩
  rw [Prog.wlp_bind]
  refine Prog.wlp_mono hbuf (fun iobuf y hy => ?_) fun _ _ hy => hy
  obtain ⟨t', u'⟩ := y
  obtain ⟨ht', rfl⟩ : t'.volume = v ∧ u' = u := hy
  rw [Prog.wlp_bind]
  refine Prog.wlp_mono (hmove iobuf t' ht') (fun d z hz => ?_) fun _ _ hz => hz
  rw [if_neg hnot]
  exact hz

theorem sfsBlockio_reading (sv : ℕ) (h : ReadingFile v x) :
    Prog.wlp True (sfsBlockio sv) (fun _ => ReadingFile v) (fun _ => ReadingFile v) x := by
  obtain ⟨s, u⟩ := x
  obtain ⟨hvol, hrw⟩ := h
  have hnot : ¬ u.uioRw = .write := fun hc => by
    rw [hrw] at hc
    cases hc
  unfold sfsBlockio
  rw [Prog.wlp_bind, Prog.wlp_gets]
  dsimp only
  rw [decide_eq_false hnot, Prog.wlp_bind]
  unfold Sfs.fs
  rw [Prog.wlp_zoom]
  refine Prog.wlp_mono (sfsBmap_volume sv _ hvol) (fun b t ht => ?_) fun _ _ ht => ⟨ht, hrw⟩
  rw [Prog.wlp_ite, Prog.wlp_bind, Prog.wlp_assert_of hrw]
  refine ⟨fun _ => ?_, fun _ => ?_⟩
  · unfold Sfs.uio
    rw [Prog.wlp_zoom]
    exact Prog.wlp_mono (uiomovezeros_rw 512 u) (fun _ _ hu => ⟨ht, hu.trans hrw⟩) fun _ _ hu => ⟨ht, hu.trans hrw⟩
  · rw [Prog.wlp_bind, Prog.wlp_assert]
    refine ⟨fun _ => ?_, fun _ => trivial⟩
    unfold Sfs.uio Sfs.io
    simp only [Prog.wlp_bind, Prog.wlp_zoom, Prog.wlp_modify, Prog.wlp_attempt]
    have hback : ∀ y : Lhd × Uio, Reading t.sfsDevice.sectors y → ∀ u'' : Uio, u''.uioRw = y.2.uioRw →
        ReadingFile v ({ t with sfsDevice := y.1 }, u'') := by
      intro y hy u'' hu''
      refine ⟨?_, hu''.trans hy.2⟩
      rw [← ht]
      simp only [SfsFs.volume, hy.1]
    have hstart : ∀ w : Uio, w.uioRw = .read → Reading t.sfsDevice.sectors (t.sfsDevice, w) := fun _ hw => ⟨rfl, hw⟩
    refine Prog.wlp_mono (sfsRwblock_reading (hstart _ hrw)) (fun _ y hy => ?_) fun _ y hy => ?_
    · exact hback y hy _ rfl
    · exact hback y hy _ rfl

theorem sfsIoBody_reading (sv : ℕ) (h : ReadingFile v x) :
    Prog.wlp True (sfsIoBody sv) (fun _ => ReadingFile v) (fun _ => ReadingFile v) x := by
  unfold sfsIoBody
  rw [Prog.wlp_bind, Prog.wlp_gets]
  dsimp only
  have hfirst : Prog.wlp True (if x.2.uioOffset % 512 ≠ 0 then
        sfsPartialio sv (x.2.uioOffset % 512) (min (512 - x.2.uioOffset % 512) x.2.uioResid) else pure ())
      (fun _ => ReadingFile v) (fun _ => ReadingFile v) x := by
    rw [Prog.wlp_ite]
    exact ⟨fun _ => sfsPartialio_reading sv _ _ h, fun _ => h⟩
  rw [Prog.wlp_bind]
  refine Prog.wlp_mono hfirst (fun _ y hy => ?_) fun _ _ hy => hy
  rw [Prog.wlp_bind, Prog.wlp_gets, Prog.wlp_ite]
  refine ⟨fun _ => hy, fun _ => ?_⟩
  rw [Prog.wlp_bind, Prog.wlp_assert]
  refine ⟨fun _ => ?_, fun _ => trivial⟩
  rw [Prog.wlp_bind]
  refine Prog.wlp_mono (Prog.wlp_forUp (I := fun _ => ReadingFile v) hy fun _ _ z hz => sfsBlockio_reading sv hz)
    (fun _ z hz => ?_) fun _ _ hz => hz
  rw [Prog.wlp_bind, Prog.wlp_gets, Prog.wlp_bind, Prog.wlp_assert]
  refine ⟨fun _ => ?_, fun _ => trivial⟩
  rw [Prog.wlp_ite]
  exact ⟨fun _ => sfsPartialio_reading sv _ _ hz, fun _ => hz⟩

/-- **A read of a file** changes nothing of the volume, however it ends. -/
theorem sfsIo_reading (sv : ℕ) (h : ReadingFile v x) :
    Prog.wlp True (sfsIo sv) (fun _ => ReadingFile v) (fun _ => ReadingFile v) x := by
  have hout : ∀ (r extra : ℕ) (y : SfsFs Lhd × Uio), ReadingFile v y →
      Prog.wlp True (sfsIoOut sv r extra) (fun _ => ReadingFile v) (fun _ => ReadingFile v) y := by
    intro r extra y hy
    unfold sfsIoOut
    rw [Prog.wlp_modify]
    dsimp only
    rw [if_neg fun hc => nomatch hc.2.1.symm.trans hy.2]
    exact hy
  unfold sfsIo Sfs.uio
  simp only [Prog.wlp_bind, Prog.wlp_gets, Prog.wlp_ite, Prog.wlp_zoom, Prog.wlp_modify, Prog.wlp_attempt,
    Prog.wlp_assert, Prog.wlp_pure]
  refine ⟨fun _ => h, fun _ => ⟨fun _ => ?_, fun _ => trivial⟩⟩
  refine Prog.wlp_mono (sfsIoBody_reading (v := v) sv ⟨h.1, h.2⟩) (fun _ y hy => ?_) fun e y hy => ?_
  · exact hout _ _ y hy
  · exact hout _ _ y hy

end Reads

/-! ### Writes of nothing -/

section Nothing

variable {u : Uio} {ino : ℕ}

theorem uiomove_zero (u : Uio) (b : Buf) : uiomove 0 (u, b) = .ok () (u, b) := by
  obtain ⟨iov, off, resid, seg, rw, mem, mapped⟩ := u
  unfold uiomove
  cases iov with
  | nil =>
    unfold uiomoveLoop
    exact if_pos (Or.inl rfl)
  | cons v rest =>
    unfold uiomoveLoop
    exact if_pos (Or.inl rfl)

theorem uiomoveBlock_zero (iobuf : Block) (skip : ℕ) (u : Uio) : uiomoveBlock iobuf skip 0 u = .ok iobuf u := by
  have hbuf : uiomoveBuf (fun a => iobuf.get (skip + a)) 0 u = .ok (fun a => iobuf.get (skip + a)) u := by
    unfold uiomoveBuf
    rw [uiomove_zero]
  unfold uiomoveBlock
  rw [Prog.bind_of_ok hbuf, Buf.blit_zero, Bytes.ofFun_get]
  rfl

/-- **A write of nothing** is at most the leading partial block. -/
theorem sfsIo_nothing {S : Prop} {Q : SfsFs Lhd → Prop} {s : SfsFs Lhd} (hw : u.uioRw = .write) (hr : u.uioResid = 0)
    (hfirst : u.uioOffset % 512 ≠ 0 → Prog.wlp S (sfsPartialio ino (u.uioOffset % 512) 0)
      (fun _ x => Q x.1 ∧ x.2 = u) (fun _ x => Q x.1 ∧ x.2 = u) (s, u))
    (hnone : u.uioOffset % 512 = 0 → Q s) :
    Prog.wlp S (sfsIo ino) (fun _ x => Q x.1 ∧ x.2 = u) (fun _ x => Q x.1 ∧ x.2 = u) (s, u) := by
  have hbody : Prog.wlp S (sfsIoBody ino) (fun _ x => Q x.1 ∧ x.2 = u) (fun _ x => Q x.1 ∧ x.2 = u) (s, u) := by
    have hif : Prog.wlp S (if u.uioOffset % 512 ≠ 0 then
          sfsPartialio ino (u.uioOffset % 512) (min (512 - u.uioOffset % 512) u.uioResid) else pure ())
        (fun _ x => Q x.1 ∧ x.2 = u) (fun _ x => Q x.1 ∧ x.2 = u) (s, u) := by
      rw [Prog.wlp_ite, hr, Nat.min_zero]
      exact ⟨hfirst, fun h0 => ⟨hnone (not_not.mp h0), rfl⟩⟩
    unfold sfsIoBody
    rw [Prog.wlp_bind, Prog.wlp_gets]
    dsimp only
    rw [Prog.wlp_bind]
    refine Prog.wlp_mono hif (fun _ x hx => ?_) fun _ _ hx => hx
    rw [Prog.wlp_bind, Prog.wlp_gets, if_pos (by rw [hx.2, hr])]
    exact hx
  have hout : ∀ x : SfsFs Lhd × Uio, x.2 = u → sfsIoOut ino u.uioResid 0 x = .ok () x :=
    fun x hx => sfsIoOut_same (by rw [hx])
  rw [Prog.wlp_congr (sfsIo_of_write hw), Prog.wlp_bind, Prog.wlp_attempt]
  refine Prog.wlp_mono hbody (fun _ x hx => ?_) fun e x hx => ?_
  · rw [Prog.wlp_bind]
    exact (Prog.wlp_ok (hout x hx.2)).mpr hx
  · rw [Prog.wlp_bind]
    exact (Prog.wlp_ok (hout x hx.2)).mpr hx

/-- A partial block of nothing is read and written back. -/
theorem sfsPartialio_zero {S : Prop} {Q : SfsFs Lhd → Prop} {s : SfsFs Lhd} (hw : u.uioRw = .write) {skip : ℕ}
    (hskip : skip ≤ 512) (hbmap : Prog.wlp S (sfsBmap ino (wcast (u.uioOffset / 512)) true)
      (fun b t => b ≠ 0 ∧ Prog.wlp S (Sfs.dev (sfsReadblock b))
        (fun d => Prog.wlp S (Sfs.dev (sfsWriteblock b d)) (fun _ => Q) fun _ => Q) (fun _ => Q) t) (fun _ => Q) s) :
    Prog.wlp S (sfsPartialio ino skip 0) (fun _ x => Q x.1 ∧ x.2 = u) (fun _ x => Q x.1 ∧ x.2 = u) (s, u) := by
  have hfit : skip + 0 ≤ 512 := hskip
  unfold sfsPartialio Sfs.fs Sfs.uio
  rw [Prog.wlp_bind, Prog.wlp_gets, Prog.wlp_bind, Prog.wlp_assert_of hfit, Prog.wlp_bind, Prog.wlp_zoom]
  dsimp only
  rw [decide_eq_true hw]
  refine Prog.wlp_mono hbmap (fun b t hb => ?_) fun _ t ht => ⟨ht, rfl⟩
  rw [if_neg hb.1, Prog.wlp_bind, Prog.wlp_zoom]
  refine Prog.wlp_mono hb.2 (fun d t' hd => ?_) fun _ t' ht' => ⟨ht', rfl⟩
  rw [Prog.wlp_bind, Prog.wlp_zoom]
  refine (Prog.wlp_ok (uiomoveBlock_zero d skip u)).mpr ?_
  rw [if_pos hw, Prog.wlp_zoom]
  exact Prog.wlp_mono hd (fun _ t'' ht'' => ⟨ht'', rfl⟩) fun _ t'' ht'' => ⟨ht'', rfl⟩

variable {v : Volume} {s : SfsFs Lhd}

/-- Writing back what is there changes nothing, stored or lost. -/
theorem sfsWriteblock_back (h : On True s v) {b : ℕ} (hb : b < v.nblocks) :
    Prog.wlp True (Sfs.dev (sfsWriteblock b (v.sec b))) (fun _ t => t.volume = v) (fun _ t => t.volume = v) s := by
  unfold Sfs.dev
  rw [Prog.wlp_zoom]
  refine Prog.wlp_mono (sfsWriteblock_ends (h.inRange hb) h.panics _) (fun _ l hl => ?_) fun _ _ hc => hc.elim
  have hsec : l.sectors = v.sec := by
    rcases hl.2 with hsec | ⟨-, hsec⟩
    · rw [hsec, h.sectors, Function.update_eq_self]
    · rw [hsec, h.sectors]
  exact (h.disk hl.1 hsec).volume

/-- `sfs_bmap` for a hole on a full volume. -/
theorem sfsBmap_full (h : On True s v) (hf : OneFile v ino) (hfull : ∀ b, v.marks b = true) {k : ℕ} (hk : k < 143)
    (hole : v.fileBlock ino k = 0) :
    Prog.wlp True (sfsBmap ino k true) (fun _ _ => False) (fun _ t => t.volume = v) s := by
  have hbits : ∀ {t : SfsFs Lhd}, On True t v → sfsBalloc t = .fail .enospc t := fun ht =>
    sfsBalloc_full ht.nbits8 fun k hlt => (ht.bit_of_lt hlt).trans (hfull k)
  by_cases hk15 : k < 15
  · have hblock : (s.sv ino).svI.sfiDirect k = 0 := by
      rw [h.inode hf.loaded, ← fileBlock_direct _ hk15, hole]
    rw [sfsBmap_direct ino hk15]
    unfold sfsBmapDirect
    rw [Prog.wlp_bind, Prog.wlp_gets, hblock, if_pos ⟨rfl, rfl⟩, Prog.wlp_bind]
    exact (Prog.wlp_fail_run (hbits h)).mpr h.volume
  · obtain ⟨j, rfl⟩ : ∃ j, k = 15 + j := ⟨k - 15, by omega⟩
    rw [sfsBmap_indirect ino (by omega)]
    unfold sfsBmapIndirect sfsBmapIdblock
    rw [Prog.wlp_bind, Prog.wlp_gets, h.inode hf.loaded, if_neg fun hc => Bool.noConfusion hc.2, Prog.wlp_bind]
    by_cases hid : (v.inode ino).sfiIndirect = 0
    · rw [if_pos hid, Prog.wlp_bind]
      exact (Prog.wlp_fail_run (hbits h)).mpr h.volume
    · rw [if_neg hid, Prog.wlp_bind]
      refine Prog.wlp_mono (sfsReadblock_on h (hf.used .indirect hid).1) (fun d t hd => ?_) fun _ _ hd => hd.1.volume
      obtain ⟨rfl, ht, -⟩ := hd
      have hentry : (v.sec (v.inode ino).sfiIndirect).entry j = 0 := by
        rw [← hole, fileBlock_indirect (by omega) (by omega) hid, Nat.add_sub_cancel_left]
      rw [Prog.wlp_pure]
      dsimp only
      rw [hentry, if_pos ⟨rfl, rfl⟩, Prog.wlp_bind]
      exact (Prog.wlp_fail_run (hbits ht)).mpr ht.volume

/-- When a write of nothing leaves the volume: it starts a block, or there is no
such block, or the block is there, or there is none to be had. -/
def CanStay (v : Volume) (ino offset : ℕ) : Prop :=
  offset % 512 = 0 ∨ 143 ≤ wcast (offset / 512) ∨ v.fileBlock ino (wcast (offset / 512)) ≠ 0 ∨ ∀ b, v.marks b = true

/-- Such a write, whatever the card reports. -/
theorem sfsPartialio_stays (h : On True s v) (hf : OneFile v ino) (hw : u.uioRw = .write) {skip : ℕ} (hskip : skip ≤ 512)
    (hstay : 143 ≤ wcast (u.uioOffset / 512) ∨ v.fileBlock ino (wcast (u.uioOffset / 512)) ≠ 0 ∨ ∀ b, v.marks b = true) :
    Prog.wlp True (sfsPartialio ino skip 0) (fun _ x => x.1.volume = v ∧ x.2 = u) (fun _ x => x.1.volume = v ∧ x.2 = u)
      (s, u) := by
  refine sfsPartialio_zero (Q := fun t => t.volume = v) hw hskip ?_
  set k := wcast (u.uioOffset / 512) with hk
  by_cases hbig : 143 ≤ k
  · exact (Prog.wlp_fail_run (sfsBmap_efbig s ino hbig true)).mpr h.volume
  by_cases hole : v.fileBlock ino k = 0
  · have hfull := (hstay.resolve_left hbig).resolve_left fun hc => hc hole
    exact Prog.wlp_mono (sfsBmap_full h hf hfull (by omega) hole) (fun _ _ hc => hc.elim) fun _ _ ht => ht
  · refine Prog.wlp_mono (sfsBmap_mapped h hf (by omega) (Or.inl hole)) (fun b t ht => ?_) fun _ t ht => ht.1.volume
    obtain ⟨rfl, ht, -⟩ := ht
    have hlt := (hf.block_used hole).1
    refine ⟨hole, Prog.wlp_mono (sfsReadblock_on ht hlt) (fun d t' hd => ?_) fun _ t' hd => hd.1.volume⟩
    obtain ⟨rfl, ht', -⟩ := hd
    exact sfsWriteblock_back ht' hlt

/-- In a hole, with a block to be had, such a write takes one. -/
theorem sfsPartialio_takes (h : Calm False s v) (hf : OneFile v ino) (hw : u.uioRw = .write) {skip : ℕ} (hskip : skip ≤ 512)
    (hk : wcast (u.uioOffset / 512) < 143) (hole : v.fileBlock ino (wcast (u.uioOffset / 512)) = 0) {c : ℕ}
    (hfree : v.marks c = false) :
    Prog.wlp False (sfsPartialio ino skip 0) (fun _ x => x.1.volume.marks ≠ v.marks ∧ x.2 = u)
      (fun _ x => x.1.volume.marks ≠ v.marks ∧ x.2 = u) (s, u) := by
  refine sfsPartialio_zero (Q := fun t => t.volume.marks ≠ v.marks) hw hskip ?_
  refine Prog.wlp_mono (sfsBmap_calm h hf _) (fun b t hb => ?_) fun e t ht => ?_
  · obtain ⟨w, ht, hext, rfl, hb0⟩ := hb
    set b := w.fileBlock ino (wcast (u.uioOffset / 512)) with hb
    obtain ⟨hlt, hused⟩ := hext.file.block_used hb0
    have hwas : v.marks b = false := (hext.fresh _ hb0).resolve_left fun he => hb0 (he.trans hole)
    have hmarks : w.marks ≠ v.marks := fun he => by
      rw [he, hwas] at hused
      cases hused
    refine ⟨hb0, Prog.wlp_mono (sfsReadblock_calm ht hlt) (fun d t' hd => ?_) fun _ _ hc => hc.elim⟩
    refine Prog.wlp_mono (sfsWriteblock_calm hd.2 hlt d) (fun _ t'' ht'' => ?_) fun _ _ hc => hc.elim
    rw [ht''.volume]
    exact hmarks
  · obtain ⟨w, ht, -, ⟨-, hbig⟩ | ⟨-, -, hfull⟩⟩ := ht
    · omega
    · rw [ht.volume]
      intro he
      rw [← he, hfull] at hfree
      cases hfree

/-- **A write of nothing leaves the volume**, whatever the card reports, if and
only if it `CanStay`. -/
theorem sfsIo_nothing_iff (h : On True s s.volume) (hf : OneFile s.volume ino) (hw : u.uioRw = .write) (hr : u.uioResid = 0) :
    (∀ status : ℕ → LhdStatus, Prog.wlp True (sfsIo ino) (fun _ x => x.1.volume = s.volume)
      (fun _ x => x.1.volume = s.volume) ({ s with sfsDevice := { s.sfsDevice with status := status } }, u)) ↔
    CanStay s.volume ino u.uioOffset := by
  have hmod : u.uioOffset % 512 ≤ 512 := (Nat.mod_lt _ (by decide)).le
  constructor
  · intro hall
    by_contra hnot
    simp only [CanStay, not_or, not_le, not_not, not_forall] at hnot
    obtain ⟨h0, hk, hole, c, hfree⟩ := hnot
    -- a card that works
    set t : SfsFs Lhd := { s with sfsDevice := { s.sfsDevice with status := fun _ => .ok } } with ht
    have hcalm : Calm False t s.volume :=
      ⟨⟨rfl, h.dblocks, h.dblocks_lt, h.nbits8, h.covers, fun _ hc => (nomatch hc)⟩, fun _ hc => nomatch hc⟩
    have htakes := sfsIo_nothing (Q := fun x => x.volume.marks ≠ s.volume.marks) hw hr
      (fun _ => sfsPartialio_takes hcalm hf hw hmod hk hole (Bool.eq_false_of_not_eq_true hfree)) fun hc => absurd hc h0
    have hsame := hall fun _ => .ok
    unfold Prog.wlp at htakes hsame
    cases hrun : sfsIo ino (t, u) with
    | stop =>
      rw [hrun] at htakes
      exact htakes
    | fail e x =>
      rw [hrun] at htakes hsame
      exact htakes.1 (congrArg Volume.marks hsame)
    | ok r x =>
      rw [hrun] at htakes hsame
      exact htakes.1 (congrArg Volume.marks hsame)
  · intro hstay status
    have hon : On True ({ s with sfsDevice := { s.sfsDevice with status := status } } : SfsFs Lhd) s.volume :=
      ⟨rfl, h.dblocks, h.dblocks_lt, h.nbits8, h.covers, fun _ _ => trivial⟩
    refine Prog.wlp_mono (sfsIo_nothing (Q := fun x => x.volume = s.volume) hw hr (fun h0 => ?_) fun _ => rfl)
      (fun _ _ hx => hx.1) fun _ _ hx => hx.1
    exact sfsPartialio_stays hon hf hw hmod (hstay.resolve_left h0)

/-- **Transfers of nothing change nothing**: a read of any file in any state, and
a write of no bytes exactly if it `CanStay`. -/
theorem sfsIo_untouched (s : SfsFs Lhd) (ino : ℕ) (u : Uio) :
    (u.uioRw = .read →
      Prog.wlp True (sfsIo ino) (fun _ x => x.1.volume = s.volume) (fun _ x => x.1.volume = s.volume) (s, u)) ∧
    (On True s s.volume → OneFile s.volume ino → u.uioRw = .write → u.uioResid = 0 →
      ((∀ status : ℕ → LhdStatus, Prog.wlp True (sfsIo ino) (fun _ x => x.1.volume = s.volume)
        (fun _ x => x.1.volume = s.volume) ({ s with sfsDevice := { s.sfsDevice with status := status } }, u)) ↔
      CanStay s.volume ino u.uioOffset)) := by
  refine ⟨fun hu => ?_, fun h hf hw hr => sfsIo_nothing_iff h hf hw hr⟩
  exact Prog.wlp_mono (sfsIo_reading ino ⟨rfl, hu⟩) (fun _ _ hx => hx.1) fun _ _ hx => hx.1

/-- A volume of eight blocks of which block 3 is free, with the empty file 5. -/
def roomFs : SfsFs Lhd :=
  ⟨8, tinyDisk fun _ => .ok, [5], ⟨8, fun _ => 0xF7#8⟩, false, fun _ => ⟨Block.zeros, false, 1⟩, fun _ => true⟩

/-- No bytes to `offset`. -/
def noBytes (offset : ℕ) : Uio := uioKinit (fun _ => 0) 0 0 offset .write

theorem roomFs_calm : Calm False roomFs roomFs.volume :=
  ⟨⟨rfl, le_rfl, by norm_num [roomFs, tinyDisk], Nat.mod_self 8, le_rfl, fun _ h => (nomatch h)⟩, fun _ h => nomatch h⟩

theorem roomFs_fileBlock (k : ℕ) : roomFs.volume.fileBlock 5 k = 0 := by
  by_cases hk : k < 15
  · rw [fileBlock_direct _ hk]
    exact Block.field_zeros _ _
  · exact fileBlock_no_indirect (by omega) (Block.field_zeros _ _)

theorem roomFs_oneFile : OneFile roomFs.volume 5 := by
  have hptr : ∀ p, roomFs.volume.ptr 5 p = 0 := fun p => by
    cases p with
    | indirect => exact Block.field_zeros _ _
    | data k => exact roomFs_fileBlock k
  refine ⟨List.mem_singleton.mpr rfl, by norm_num [roomFs, SfsFs.volume], rfl, fun b hb => ?_,
    fun p hp => absurd (hptr p) hp, fun p _ hp => absurd (hptr p) hp⟩
  by_contra hge
  have hmark : roomFs.volume.marks b = true := by
    show (decide (8 ≤ b) || _) = true
    have h8 : 8 ≤ b := Nat.le_of_not_lt hge
    rw [decide_eq_true h8, Bool.true_or]
  rw [hmark] at hb
  cases hb

/-- No bytes at position 1 of an empty file: the call returns, and a block that
was free is in use. -/
theorem sfsIo_takes_block : Prog.wp (sfsIo 5) (fun _ x => x.1.volume.marks ≠ roomFs.volume.marks)
    (fun _ x => x.1.volume.marks ≠ roomFs.volume.marks) (roomFs, noBytes 1) := by
  have hk : wcast (1 / 512) = 0 := wcast_of_lt (by norm_num)
  have hw : (noBytes 1).uioRw = .write := rfl
  have htakes : Prog.wlp False (sfsIo 5) (fun _ x => x.1.volume.marks ≠ roomFs.volume.marks ∧ x.2 = noBytes 1)
      (fun _ x => x.1.volume.marks ≠ roomFs.volume.marks ∧ x.2 = noBytes 1) (roomFs, noBytes 1) :=
    sfsIo_nothing (Q := fun x => x.volume.marks ≠ roomFs.volume.marks) hw rfl
      (fun _ => sfsPartialio_takes roomFs_calm roomFs_oneFile hw (by decide) (hk.trans_lt (by decide)) (roomFs_fileBlock _)
        (show roomFs.volume.marks 3 = false from rfl)) fun hc => absurd hc (by decide)
  exact Prog.wlp_mono htakes (fun _ _ hx => hx.1) fun _ _ hx => hx.1

/-- No bytes at the start of a block of the same file, on a card that always
fails. -/
theorem sfsIo_untouched_start :
    Prog.wlp True (sfsIo 5) (fun _ x => x.1.volume = roomFs.volume) (fun _ x => x.1.volume = roomFs.volume)
      ({ roomFs with sfsDevice := tinyDisk fun _ => .media }, noBytes 512) := by
  have hon : On True roomFs roomFs.volume :=
    ⟨rfl, le_rfl, by norm_num [roomFs, tinyDisk], Nat.mod_self 8, le_rfl, fun _ _ => trivial⟩
  exact ((sfsIo_untouched roomFs 5 (noBytes 512)).2 hon roomFs_oneFile rfl rfl).mpr (Or.inl rfl) fun _ => .media

end Nothing

end Os161
