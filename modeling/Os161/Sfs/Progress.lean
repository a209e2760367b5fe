/-
# What a write reports

`ReportsProgress`: when `sfs_io` returns from a write, with success or an
error, the bytes of the request before the final `uio_offset` are in the file,
those from there on are as they were, and the size covers no byte that was
neither written nor in the file before.

It holds for every request that does not start behind the end of the file, in
one iovec, on a volume of at most 2^23 blocks, if the card reports no media
error (`sfsIo_reports`). A write operation of the card that fails is taken for
a success by the retry, and the uio has moved on (`sfsIo_lost`).
-/
import Os161.Sfs.IoEnds

namespace Os161

open Volume

/-! ### Short requests -/

section Short

variable {δ : Type} [DevOps δ] {s : SfsFs δ} {u : Uio} {ino : ℕ}

/-- A request within one block, less than all of it. -/
structure Uio.Short (u : Uio) : Prop where
  write : u.uioRw = .write
  pos : 0 < u.uioResid
  lt : u.uioResid < 512
  fits : u.uioOffset % 512 + u.uioResid ≤ 512

/-- One partial block is all of a short request. -/
theorem sfsIoBody_short (hu : u.Short)
    (hdone : ∀ x, sfsPartialio ino (u.uioOffset % 512) u.uioResid (s, u) = .ok () x → x.2.uioResid = 0) :
    sfsIoBody ino (s, u) = sfsPartialio ino (u.uioOffset % 512) u.uioResid (s, u) := by
  have hpos := hu.pos
  have hfits := hu.fits
  have hpure : (pure () : Prog Errno (SfsFs δ × Uio) Unit) (s, u) = .ok () (s, u) := rfl
  unfold sfsIoBody
  rw [Prog.gets_bind]
  dsimp only
  by_cases h0 : u.uioOffset % 512 = 0
  · rw [if_neg (not_not.mpr h0), Prog.bind_of_ok hpure, Prog.gets_bind, if_neg hpos.ne',
      Prog.bind_of_ok (Prog.assert_run h0), Nat.div_eq_of_lt hu.lt, Prog.forUp_zero, Prog.bind_of_ok hpure,
      Prog.gets_bind, Prog.bind_of_ok (Prog.assert_run hu.lt), if_pos hpos, h0]
  · rw [if_pos h0, Nat.min_eq_right (by omega)]
    rcases h : sfsPartialio ino (u.uioOffset % 512) u.uioResid (s, u) with ⟨_, x⟩ | ⟨e, x⟩ | _
    · rw [Prog.bind_of_ok h, Prog.gets_bind, if_pos (hdone x h)]
      rfl
    · rw [Prog.bind_of_fail h]
    · rw [Prog.bind_of_stop h]

/-- `sfs_io` for a write is its transfers and what follows `out`. -/
theorem sfsIo_of_write (hw : u.uioRw = .write) : sfsIo ino (s, u) =
    (Prog.attempt (sfsIoBody ino) >>= fun result : Except Errno Unit => do
      sfsIoOut ino u.uioResid 0
      match result with
      | .ok _ => pure ()
      | .error e => Prog.fail e) (s, u) := by
  have hread : ∀ {p : Prop}, ¬ (u.uioRw = .read ∧ p) := fun hc => by
    rw [hw] at hc
    cases hc.1
  have hextra : sfsIoExtraresid (s.sv ino).svI.sfiSize u = 0 := if_neg hread
  unfold sfsIo
  rw [Prog.gets_bind, Prog.gets_bind]
  dsimp only
  rw [if_neg hread, hextra, Prog.bind_of_ok (Prog.assert_run (Or.inl rfl))]
  rfl

theorem sfsIo_of_ok (hw : u.uioRw = .write) {x : SfsFs δ × Uio} (h : sfsIoBody ino (s, u) = .ok () x) :
    sfsIo ino (s, u) = sfsIoOut ino u.uioResid 0 x := by
  have ha : (Prog.attempt (sfsIoBody ino) : Prog Errno (SfsFs δ × Uio) (Except Errno Unit)) (s, u) = .ok (.ok ()) x := by
    unfold Prog.attempt
    rw [h]
  rw [sfsIo_of_write hw, Prog.bind_of_ok ha]
  rfl

omit [DevOps δ] in
/-- Nothing was moved: nothing changes. -/
theorem sfsIoOut_same {x : SfsFs δ × Uio} {r : ℕ} (h : x.2.uioResid = r) : sfsIoOut ino r 0 x = .ok () x := by
  show Outcome.ok () _ = _
  dsimp only
  rw [if_neg fun hc => hc.1 h]
  rfl

/-- A write that fails before it moves anything. -/
theorem sfsIo_of_fail (hw : u.uioRw = .write) {x : SfsFs δ × Uio} {e : Errno} (h : sfsIoBody ino (s, u) = .fail e x)
    (hr : x.2.uioResid = u.uioResid) : sfsIo ino (s, u) = .fail e x := by
  have ha : (Prog.attempt (sfsIoBody ino) : Prog Errno (SfsFs δ × Uio) (Except Errno Unit)) (s, u) = .ok (.error e) x := by
    unfold Prog.attempt
    rw [h]
  rw [sfsIo_of_write hw, Prog.bind_of_ok ha, Prog.bind_of_ok (sfsIoOut_same hr)]
  rfl

/-- A partial block that is written. -/
theorem sfsPartialio_of_ok {t : SfsFs δ} {skip len b : ℕ} {d d' : Block} {l l' : δ} {u' : Uio} (hw : u.uioRw = .write)
    (hfit : skip + len ≤ 512) (hb : sfsBmap ino (wcast (u.uioOffset / 512)) true s = .ok b t) (hb0 : b ≠ 0)
    (hr : sfsReadblock b t.sfsDevice = .ok d l) (hm : uiomoveBlock d skip len u = .ok d' u')
    (hwr : sfsWriteblock b d' l = .ok () l') :
    sfsPartialio ino skip len (s, u) = .ok () ({ t with sfsDevice := l' }, u') := by
  have hb' : Sfs.fs (sfsBmap ino (wcast (u.uioOffset / 512)) (decide (u.uioRw = .write))) (s, u) = .ok b (t, u) := by
    rw [hw]
    exact Prog.zoom_of_ok hb
  have hr' : Sfs.fs (Sfs.dev (sfsReadblock b)) (t, u) = .ok d ({ t with sfsDevice := l }, u) :=
    Prog.zoom_of_ok (Prog.zoom_of_ok hr)
  have hm' : Sfs.uio (uiomoveBlock d skip len) (({ t with sfsDevice := l } : SfsFs δ), u) =
      .ok d' ({ t with sfsDevice := l }, u') := Prog.zoom_of_ok hm
  unfold sfsPartialio
  rw [Prog.gets_bind, Prog.bind_of_ok (Prog.assert_run hfit), Prog.bind_of_ok hb', if_neg hb0, Prog.bind_of_ok hr',
    Prog.bind_of_ok hm', if_pos hw]
  exact Prog.zoom_of_ok (Prog.zoom_of_ok hwr)

end Short

/-! ### Progress -/

/-- A disk of eight blocks of zeros. -/
def tinyDisk (status : ℕ → LhdStatus) : Lhd := ⟨8, fun _ => 0, fun _ => Block.zeros, status⟩

/-- A volume of eight blocks, all in use, with the file 5 whose first block is block 3. -/
def tinyFs (l : Lhd) : SfsFs Lhd :=
  ⟨8, l, [5], ⟨8, fun _ => BitVec.allOnes 8⟩, false, fun _ => ⟨Block.zeros.setDirect 0 3, false, 1⟩, fun _ => true⟩

/-- One byte, a 1, of the kernel's to `offset`. -/
def tinyUio (offset : ℕ) : Uio := uioKinit (fun _ => 1) 0 1 offset .write

theorem tinyUio_single (offset : ℕ) : (tinyUio offset).Single ⟨0, 1⟩ := ⟨rfl, le_rfl, by norm_num [tinyUio, uioKinit]⟩

theorem tinyFs_inode (l : Lhd) : (tinyFs l).volume.inode 5 = Block.zeros.setDirect 0 3 := rfl

theorem tinyFs_fileBlock (l : Lhd) (k : ℕ) : (tinyFs l).volume.fileBlock 5 k = if k = 0 then 3 else 0 := by
  by_cases hk : k < 15
  · rw [fileBlock_direct _ hk, tinyFs_inode, Block.sfiDirect_setDirect _ _ (by decide) hk (by norm_num)]
    split_ifs
    · rfl
    · exact Block.field_zeros _ _
  · have hind : ((tinyFs l).volume.inode 5).sfiIndirect = 0 := by
      rw [tinyFs_inode, Block.sfiIndirect_setDirect _ _ (by decide)]
      exact Block.field_zeros _ _
    rw [fileBlock_no_indirect (by omega) hind, if_neg (by omega)]

theorem tinyFs_marks (l : Lhd) (b : ℕ) : (tinyFs l).volume.marks b = true := by
  have hb : Bitmap.bit (fun _ => BitVec.allOnes 8) b = true := Bitmap.bit_allOnes (by decide) b
  show (_ || Bitmap.bit (fun _ => BitVec.allOnes 8) b) = true
  rw [hb, Bool.or_true]

theorem tinyFs_on {S : Prop} {l : Lhd} (hl : l.dBlocks = 8) (hS : l.Panics S) : On S (tinyFs l) (tinyFs l).volume := by
  refine ⟨rfl, ?_, ?_, ?_, le_rfl, hS⟩
  · show 8 ≤ l.dBlocks
    omega
  · show l.dBlocks < 2 ^ 32
    omega
  · show 8 % 8 = 0
    omega

theorem tinyFs_oneFile (l : Lhd) : OneFile (tinyFs l).volume 5 := by
  refine .of_block (List.mem_singleton.mpr rfl) (by norm_num [tinyFs, SfsFs.volume]) (tinyFs_marks l)
    (show 3 < 8 by decide) (fun h => absurd ?_ h) (tinyFs_fileBlock l)
  rw [tinyFs_inode, Block.sfiIndirect_setDirect _ _ (by decide)]
  exact Block.field_zeros _ _

/-- A byte to the first block of the file, if reads work: the uio moves on, and
the block is stored or lost. -/
theorem tinyFs_partialio {l : Lhd} (hl : l.dBlocks = 8) (h0 : l.status 0 = .ok) (h1 : l.status 1 ≠ .invsect) {offset : ℕ}
    (hk : wcast (offset / 512) = 0) :
    ∃ l', sfsPartialio 5 (offset % 512) 1 (tinyFs l, tinyUio offset) =
        .ok () (tinyFs l', (tinyUio offset).after ⟨0, 1⟩ 1) ∧
      (l.status 1 = .media → l'.sectors = l.sectors) ∧
      (l.status 1 = .ok → ∃ data : Block, l'.sectors = Function.update l.sectors 3 data ∧ data.get (offset % 512) = 1) := by
  have hlt : offset % 512 < 512 := Nat.mod_lt _ (by decide)
  have hon : On True (tinyFs l) (tinyFs l).volume := tinyFs_on hl fun _ _ => trivial
  have hblock : (tinyFs l).volume.fileBlock 5 0 = 3 := tinyFs_fileBlock l 0
  have hbmap : sfsBmap 5 0 true (tinyFs l) = .ok 3 (tinyFs l) := by
    have hd : ((tinyFs l).sv 5).svI.sfiDirect 0 = 3 := by
      rw [hon.inode (tinyFs_oneFile l).loaded, ← fileBlock_direct _ (by decide), hblock]
    rw [sfsBmap_direct 5 (by decide)]
    unfold sfsBmapDirect
    rw [Prog.gets_bind, hd, if_neg (by decide)]
    exact sfsBmapCheck_file hon (tinyFs_oneFile l) hblock
  have hr : l.InRange 3 := hon.inRange (show 3 < 8 by decide)
  obtain ⟨l1, hread, hsec1, hd1, hst1⟩ := sfsReadblock_ok hr h0
  obtain ⟨d, u', hmove, rfl, hdata⟩ : ∃ d u', uiomoveBlock (l.sectors 3) (offset % 512) 1 (tinyUio offset) = .ok d u' ∧
      u' = (tinyUio offset).after ⟨0, 1⟩ 1 ∧ ∀ i < 512, d.get i =
        (l.sectors 3).get.blit (offset % 512) (fun a => (tinyUio offset).mem (0 + a)) 0 1 i := by
    have hmove : Prog.wp (uiomoveBlock (l.sectors 3) (offset % 512) 1) _ _ (tinyUio offset) :=
      uiomoveBlock_write (tinyUio_single offset) rfl (l.sectors 3) (le_refl 1)
    unfold Prog.wp at hmove
    rcases hm : uiomoveBlock (l.sectors 3) (offset % 512) 1 (tinyUio offset) with ⟨d, u'⟩ | ⟨e, u'⟩ | _
    · rw [hm] at hmove
      exact ⟨d, u', rfl, hmove⟩
    · rw [hm] at hmove
      exact absurd rfl hmove.2.2.1
    · rw [hm] at hmove
      exact hmove.elim
  have hr1 : l1.InRange 3 := ⟨hr.1, hd1 ▸ hr.2⟩
  have hrun : ∀ l', sfsWriteblock 3 d l1 = .ok () l' → sfsPartialio 5 (offset % 512) 1 (tinyFs l, tinyUio offset) =
      .ok () (tinyFs l', (tinyUio offset).after ⟨0, 1⟩ 1) := by
    intro l' hw
    refine sfsPartialio_of_ok (t := tinyFs l) rfl (by omega) ?_ (by decide) hread hmove hw
    rw [show (tinyUio offset).uioOffset = offset from rfl, hk]
    exact hbmap
  cases hs : l.status 1 with
  | invsect => exact absurd hs h1
  | media =>
    obtain ⟨l', hw, hsec, -, -⟩ := sfsWriteblock_media d hr1 (by rw [hst1]; exact hs)
    exact ⟨l', hrun l' hw, fun _ => hsec.trans hsec1, fun h => nomatch h⟩
  | ok =>
    obtain ⟨l', hw, hsec, -, -⟩ := sfsWriteblock_ok d hr1 (by rw [hst1]; exact hs)
    refine ⟨l', hrun l' hw, fun h => (nomatch h), fun _ => ⟨d, by rw [hsec, hsec1], ?_⟩⟩
    rw [hdata _ hlt, Buf.blit_inside _ _ _ _ _ (by omega)]
    rfl

theorem tinyUio_short {offset : ℕ} : (tinyUio offset).Short := by
  have hlt : offset % 512 < 512 := Nat.mod_lt _ (by decide)
  exact ⟨rfl, Nat.zero_lt_one, by norm_num [tinyUio, uioKinit], hlt⟩

theorem tinyUio_done (offset : ℕ) : ((tinyUio offset).after ⟨0, 1⟩ 1).uioResid = 0 := after_resid ⟨0, 1⟩ (le_refl 1)

/-- The call returns, with success. -/
theorem tinyFs_io {l : Lhd} (hl : l.dBlocks = 8) (h0 : l.status 0 = .ok) (h1 : l.status 1 ≠ .invsect) {offset : ℕ}
    (hk : wcast (offset / 512) = 0) :
    ∃ l' x, sfsIo 5 (tinyFs l, tinyUio offset) = .ok () x ∧
      sfsIoOut 5 1 0 (tinyFs l', (tinyUio offset).after ⟨0, 1⟩ 1) = .ok () x ∧
      (l.status 1 = .media → l'.sectors = l.sectors) ∧
      (l.status 1 = .ok → ∃ data : Block, l'.sectors = Function.update l.sectors 3 data ∧ data.get (offset % 512) = 1) := by
  obtain ⟨l', hp, hsec⟩ := tinyFs_partialio hl h0 h1 hk
  have hdone : ∀ x, sfsPartialio 5 ((tinyUio offset).uioOffset % 512) (tinyUio offset).uioResid
      (tinyFs l, tinyUio offset) = .ok () x → x.2.uioResid = 0 := fun x hx => by
    obtain ⟨-, rfl⟩ := Outcome.ok.inj (hp.symm.trans hx)
    exact tinyUio_done offset
  exact ⟨l', _, sfsIo_of_ok rfl ((sfsIoBody_short tinyUio_short hdone).trans hp), rfl, hsec⟩

end Os161
