/-
# How a write to a file ends

`sfs_io` moves the data block by block, and can fail at each: no block left,
past the largest file, a fault in the caller's buffer. With no media error and
a uio of one iovec, on a volume whose blocks the byte offset of a 32-bit word
reaches, it has then written exactly the bytes it says it has
(`sfsIo_write`): those from the old `uio_offset` to the new one are the
caller's, the others are as they were.

`Written v w ino off n src`: the file of `w` is that of `v` with `n` bytes of
`src` at `off`.
-/
import Os161.Sfs.BmapEnds

namespace Os161

open Volume

/-- The file of `w` is that of `v` with `n` bytes of `src` at `off`. -/
structure Written (v w : Volume) (ino off n : ℕ) (src : Buf) : Prop extends Grown v w ino where
  header : SameHeader (v.inode ino) (w.inode ino)
  byte : ∀ pos, w.byte ino pos = Buf.blit (v.byte ino) off src 0 n pos
  limit : n = 0 ∨ off + n ≤ 143 * 512

variable {S : Prop} {v w x : Volume} {ino off n : ℕ} {src : Buf}

theorem Extended.written (h : Extended v w ino) (off : ℕ) (src : Buf) : Written v w ino off 0 src :=
  ⟨h.toGrown, h.header, fun pos => by rw [h.byte, Buf.blit_zero], Or.inl rfl⟩

theorem Written.trans {m : ℕ} (h : Written v w ino off n src)
    (h' : Written w x ino (off + n) m fun a => src (n + a)) : Written v x ino off (n + m) src := by
  refine ⟨h.toGrown.trans h'.toGrown, h.header.trans h'.header, fun pos => ?_, ?_⟩
  · rw [h'.byte]
    unfold Buf.blit
    split_ifs with h1 h2 h2
    · simp only [Nat.zero_add]
      congr 1
      omega
    · omega
    · rw [h.byte, Buf.blit_inside _ _ _ _ _ (by omega)]
    · rw [h.byte, Buf.blit_outside _ _ _ _ _ (by omega)]
  · rcases h'.limit with h0 | h0
    · rw [h0]
      exact h.limit
    · exact Or.inr (by omega)

/-- **A block of the file rewritten.** -/
theorem OneFile.store (h : OneFile v ino) {k : ℕ} (hk : v.fileBlock ino k ≠ 0) (data : Block) :
    Grown v (v.store (v.fileBlock ino k) data) ino ∧
      (v.store (v.fileBlock ino k) data).inode ino = v.inode ino ∧
      ∀ pos, (v.store (v.fileBlock ino k) data).byte ino pos =
        if pos / 512 = k then data.get (pos % 512) else v.byte ino pos := by
  set w := v.store (v.fileBlock ino k) data with hw
  have hi : w.inode ino = v.inode ino := by
    rw [inode_loaded h.loaded, inode_loaded (show ino ∈ w.vnodes from h.loaded)]
    rfl
  have hblock : ∀ j, w.fileBlock ino j = v.fileBlock ino j := by
    refine fileBlock_congr (by rw [hi]; exact .refl _) fun _ => ?_
    exact store_sec (h.block_ne_indirect hk).symm
  have hptr : ∀ p, w.ptr ino p = v.ptr ino p := fun p => by
    cases p with
    | indirect => exact congrArg Block.sfiIndirect hi
    | data j => exact hblock j
  refine ⟨⟨⟨h.loaded, h.word, h.zero, h.past, fun p hp => ?_, fun p q hp he => ?_⟩, rfl, fun k _ => hblock k,
    fun _ hb => hb, fun k _ => Or.inl (hblock k)⟩, hi, fun pos => ?_⟩
  · rw [hptr] at hp ⊢
    exact h.used p hp
  · rw [hptr] at hp he
    rw [hptr] at he
    exact h.inj p q hp he
  · unfold byte
    rw [hblock]
    by_cases hpos : pos / 512 = k
    · rw [if_pos hpos, hpos, if_neg hk]
      exact congrArg (fun d : Block => d.get (pos % 512)) (Function.update_self _ _ _)
    · rw [if_neg hpos]
      split_ifs with h0
      · rfl
      · have hne : v.fileBlock ino (pos / 512) ≠ v.fileBlock ino k := fun he => hpos (h.block_inj h0 he)
        exact congrArg (fun d : Block => d.get (pos % 512)) (store_sec hne)

/-- `len` bytes at `skip` of block `k` rewritten. -/
theorem OneFile.written (h : OneFile v ino) {k skip len : ℕ} (hk : v.fileBlock ino k ≠ 0) (hlen : skip + len ≤ 512)
    {data : Block} (hdata : ∀ i < 512, data.get i =
      (v.sec (v.fileBlock ino k)).get.blit skip src 0 len i) :
    Written v (v.store (v.fileBlock ino k) data) ino (k * 512 + skip) len src := by
  obtain ⟨hgrown, hi, hbyte⟩ := h.store hk data
  refine ⟨hgrown, by rw [hi]; exact .refl _, fun pos => ?_, Or.inr ?_⟩
  · have hpos : pos % 512 < 512 := Nat.mod_lt _ (by decide)
    rw [hbyte]
    by_cases hp : pos / 512 = k
    · rw [if_pos hp, hdata _ hpos]
      unfold Buf.blit
      split_ifs with h1 h2 h2
      · congr 1
        omega
      · omega
      · omega
      · unfold byte
        rw [hp, if_neg hk]
    · rw [if_neg hp, Buf.blit_outside _ _ _ _ _ (by omega)]
  · have := lt_of_fileBlock_ne_zero hk
    omega

/-! ### The uio -/

/-- The uio of one iovec after `n` bytes. -/
def Uio.after (u : Uio) (iv : Iovec) (n : ℕ) : Uio := { u.advance n with uioIov := [⟨iv.iovBase + n, iv.iovLen - n⟩] }

variable {u : Uio} {iv : Iovec}

theorem after_resid (iv : Iovec) (hn : n ≤ u.uioResid) : (u.after iv n).uioResid = u.uioResid - n := advance_resid u hn

theorem after_zero (hu : u.Single iv) : u.after iv 0 = u := by
  have h := congrArg (fun x : Uio => { x with uioIov := [iv] }) (advance_zero u)
  obtain ⟨iov, o, r, seg, rw, mem, mapped⟩ := u
  obtain rfl : iov = [iv] := hu.iov
  exact h

theorem Uio.Single.after (hu : u.Single iv) (hn : n ≤ u.uioResid) :
    (u.after iv n).Single ⟨iv.iovBase + n, iv.iovLen - n⟩ := by
  have hr := after_resid iv hn
  refine ⟨rfl, ?_, ?_⟩
  · rw [hr]
    exact Nat.sub_le_sub_right hu.len n
  · rw [hr]
    exact lt_of_le_of_lt (Nat.sub_le _ _) hu.resid

theorem after_after (iv : Iovec) {m : ℕ} (hn : n + m ≤ u.uioResid) :
    (u.after iv n).after ⟨iv.iovBase + n, iv.iovLen - n⟩ m = u.after iv (n + m) := by
  have h1 : (u.after iv n).uioResid = u.uioResid - n := after_resid iv (by omega)
  have h2 : ((u.after iv n).after ⟨iv.iovBase + n, iv.iovLen - n⟩ m).uioResid = (u.after iv n).uioResid - m :=
    after_resid _ (by omega)
  have h3 : (u.after iv (n + m)).uioResid = u.uioResid - (n + m) := after_resid iv hn
  have hres : wsub (u.after iv n).uioResid m = wsub u.uioResid (n + m) := by
    change ((u.after iv n).after ⟨iv.iovBase + n, iv.iovLen - n⟩ m).uioResid = (u.after iv (n + m)).uioResid
    omega
  show (⟨[⟨iv.iovBase + n + m, iv.iovLen - n - m⟩], u.uioOffset + n + m, wsub (u.after iv n).uioResid m, u.uioSegflg,
    u.uioRw, u.mem, u.mapped⟩ : Uio) = ⟨[⟨iv.iovBase + (n + m), iv.iovLen - (n + m)⟩], u.uioOffset + (n + m),
    wsub u.uioResid (n + m), u.uioSegflg, u.uioRw, u.mem, u.mapped⟩
  rw [hres, Nat.add_assoc, Nat.add_assoc, Nat.sub_sub]

/-- Moving the caller's bytes into a block: all of them, or a fault. -/
theorem uiomoveBlock_write (hu : u.Single iv) (hw : u.uioRw = .write) (iobuf : Block) {skip len : ℕ}
    (hlen : len ≤ u.uioResid) :
    Prog.wp (uiomoveBlock iobuf skip len)
      (fun d u' => u' = u.after iv len ∧
        ∀ i < 512, d.get i = iobuf.get.blit skip (fun a => u.mem (iv.iovBase + a)) 0 len i)
      (fun _ u' => u' = u ∧ 0 < len ∧ u.Faults iv.iovBase len) u := by
  unfold uiomoveBlock
  rw [Prog.wp_bind]
  unfold Prog.wp uiomoveBuf
  rcases uiomove_single hu (fun a => iobuf.get (skip + a)) hlen with h | ⟨hpos, hseg, mem', b', h, hmem⟩
  · rw [h]
    have hm : moved u (fun a => iobuf.get (skip + a)) iv.iovBase len =
        (u, Buf.blit (fun a => iobuf.get (skip + a)) 0 u.mem iv.iovBase len) := by
      unfold moved
      rw [hw]
    rw [hm]
    refine ⟨rfl, fun i hi => ?_⟩
    rw [Bytes.get_ofFun _ hi]
    dsimp only
    by_cases hin : skip ≤ i ∧ i < skip + len
    · rw [Buf.blit_inside _ _ _ _ _ hin, Buf.blit_inside _ _ _ _ _ hin, Buf.blit_inside _ _ _ _ _ (by omega),
        Nat.zero_add, Nat.sub_zero]
    · rw [Buf.blit_outside _ _ _ _ _ hin, Buf.blit_outside _ _ _ _ _ hin]
  · rw [h]
    simp only
    rw [hmem hw]
    exact ⟨rfl, hpos, hseg⟩

/-! ### Transfers -/

/-- The state holds the file with the first `n` bytes of the request written,
and the uio says so. -/
def Progress (S : Prop) (v : Volume) (ino : ℕ) (u : Uio) (iv : Iovec) (n : ℕ) (x : SfsFs Lhd × Uio) : Prop :=
  ∃ w, Calm S x.1 w ∧ Written v w ino u.uioOffset n (fun a => u.mem (iv.iovBase + a)) ∧ x.2 = u.after iv n

/-- The next block of a request cannot be written: there is none, or the bytes
for it fault. -/
def Hindered (w : Volume) (ino : ℕ) (u : Uio) (iv : Iovec) (n : ℕ) (e : Errno) : Prop :=
  NoBlock w ino ((u.uioOffset + n) / 512) e ∨ ∃ m, 0 < m ∧ m ≤ 512 ∧ n + m ≤ u.uioResid ∧ u.Faults (iv.iovBase + n) m

/-- The same with the transfer failed, and why. -/
def Refused (S : Prop) (v : Volume) (ino : ℕ) (u : Uio) (iv : Iovec) (n : ℕ) (e : Errno) (x : SfsFs Lhd × Uio) : Prop :=
  ∃ w, Calm S x.1 w ∧ Written v w ino u.uioOffset n (fun a => u.mem (iv.iovBase + a)) ∧ x.2 = u.after iv n ∧
    Hindered w ino u iv n e

variable {s : SfsFs Lhd} {e : Errno}

theorem Unfilled.refused {t : SfsFs Lhd} (h : Unfilled S v ino (u.uioOffset / 512) e t) (hu : u.Single iv) :
    Refused S v ino u iv 0 e (t, u) := by
  obtain ⟨w, hw, hext, he⟩ := h
  exact ⟨w, hw, hext.written _ _, (after_zero hu).symm, Or.inl he⟩

theorem Refused.fault {t : SfsFs Lhd} (ht : Calm S t w) (hext : Extended v w ino) (hu : u.Single iv) {m : ℕ}
    (h0 : 0 < m) (h512 : m ≤ 512) (hm : m ≤ u.uioResid) (hf : u.Faults iv.iovBase m) : Refused S v ino u iv 0 e (t, u) :=
  ⟨w, ht, hext.written _ _, (after_zero hu).symm, Or.inr ⟨m, h0, h512, by omega, hf⟩⟩

/-- **A partial block.** -/
theorem sfsPartialio_write (h : Calm S s v) (hf : OneFile v ino) (hu : u.Single iv) (hw : u.uioRw = .write)
    (hoff : u.uioOffset < 2 ^ 41) {len : ℕ} (hlen : len ≤ u.uioResid) (hskip : u.uioOffset % 512 + len ≤ 512) :
    Prog.wlp S (sfsPartialio ino (u.uioOffset % 512) len) (fun _ => Progress S v ino u iv len)
      (Refused S v ino u iv 0) (s, u) := by
  have hk : wcast (u.uioOffset / 512) = u.uioOffset / 512 := wcast_of_lt (by omega)
  unfold sfsPartialio Sfs.fs Sfs.uio
  simp only [Prog.wlp_bind, Prog.wlp_gets, Prog.wlp_assert_of hskip, Prog.wlp_zoom, Prog.wlp_ite, Prog.wlp_pure, hk, hw,
    decide_true, not_true_eq_false, true_implies, false_implies, and_true]
  refine Prog.wlp_mono (sfsBmap_calm h hf _) (fun b t hb => ?_) fun _ t ht => ht.refused hu
  obtain ⟨w, ht, hext, rfl, hb0⟩ := hb
  refine ⟨fun h0 => absurd h0 hb0, fun _ => ?_⟩
  refine Prog.wlp_mono (sfsReadblock_calm ht (hext.file.block_used hb0).1) (fun d t' hd => ?_) fun _ _ hf => hf.elim
  obtain ⟨rfl, ht'⟩ := hd
  refine Prog.wlp_mono (Prog.wlp_of_wp (uiomoveBlock_write hu hw _ hlen)) (fun d u' hd => ?_) fun _ u' hu' => ?_
  · obtain ⟨rfl, hd⟩ := hd
    refine Prog.wlp_mono (sfsWriteblock_calm ht' (hext.file.block_used hb0).1 d) (fun _ t'' ht'' => ?_)
      fun _ _ hf => hf.elim
    have hwr := hext.file.written hb0 hskip hd
    rw [show u.uioOffset / 512 * 512 + u.uioOffset % 512 = u.uioOffset from Nat.div_add_mod' _ _] at hwr
    refine ⟨_, ht'', ?_, rfl⟩
    have := (hext.written u.uioOffset fun a => u.mem (iv.iovBase + a)).trans
      (m := len) (x := w.store (w.fileBlock ino (u.uioOffset / 512)) d) (by simpa only [Nat.zero_add, Nat.add_zero] using hwr)
    rwa [Nat.zero_add] at this
  · obtain ⟨rfl, hpos, hfault⟩ := hu'
    exact .fault ht' hext hu hpos (by omega) hlen hfault

theorem sfsRwblockTry_efault {δ : Type} [DevOps δ] {more : Prog Errno (δ × Uio) Unit} {y z : δ × Uio}
    (h : DevOps.devopIo y = .fail .efault z) : sfsRwblockTry more y = .fail .efault z := by
  show Prog.andThen (Prog.attempt _) _ y = _
  simp only [Prog.andThen, Prog.attempt, h]
  rfl

/-- **One sector from the caller's buffer**, with no media error: it is stored,
or the move faulted. -/
theorem sfsRwblock_write {l : Lhd} {b : ℕ} (hl : l.Steady) (hS : l.Panics S) (hb : l.InRange b) (hu : u.Single iv)
    (hw : u.uioRw = .write) (hoff : u.uioOffset = b * 512) (hres : u.uioResid = 512) :
    Prog.wlp S sfsRwblock
      (fun _ y => l.Later y.1 ∧ y.2 = u.after iv 512 ∧
        y.1.sectors = Function.update l.sectors b (Bytes.ofFun fun a => u.mem (iv.iovBase + a)))
      (fun _ y => l.Later y.1 ∧ y.2 = u ∧ y.1.sectors = l.sectors ∧ u.Faults iv.iovBase 512) (l, u) := by
  have hsector : (DevOps.devopIo (l, u) : Outcome Errno (Lhd × Uio) Unit) = lhdSector .write b (l, u) := by
    rw [← hw]
    exact lhdIo_sector hoff hres hb
  rw [lhdSector_write] at hsector
  simp only [Prog.andThen, lhdMove] at hsector
  unfold sfsRwblock sfsRwblockLoop
  rcases uiomove_single hu l.lhBuf (le_of_eq hres.symm) with h | ⟨-, hf, mem', b', h, hmem⟩
  · have hm : moved u l.lhBuf iv.iovBase 512 = (u, l.lhBuf.blit 0 u.mem iv.iovBase 512) := by
      unfold moved
      rw [hw]
    rw [hm] at h
    simp only [Prog.zoom, h] at hsector
    cases hst : l.status 0 with
    | ok =>
      simp only [lhdOperation, hst, lhdCodeToErrno] at hsector
      refine (Prog.wlp_ok (sfsRwblockTry_ok hsector)).mpr ⟨⟨rfl, 1, rfl⟩, rfl, ?_⟩
      refine congrArg (Function.update l.sectors b) (Bytes.ext_get fun i hi => ?_)
      rw [Bytes.get_ofFun _ hi, Bytes.get_ofFun _ hi, Buf.blit_inside _ _ _ _ _ (by omega), Nat.sub_zero]
    | media => exact absurd hst (hl 0)
    | invsect =>
      simp only [lhdOperation, hst, lhdCodeToErrno] at hsector
      exact (Prog.wlp_stop_run (sfsRwblockTry_einval hsector)).mpr (hS 0 hst)
  · simp only [Prog.zoom, h, hmem hw] at hsector
    exact (Prog.wlp_fail_run (sfsRwblockTry_efault hsector)).mpr ⟨⟨rfl, 0, rfl⟩, rfl, rfl, hf⟩

/-- **A whole block**, on a volume whose byte offsets fit 32 bits. -/
theorem sfsBlockio_write (h : Calm S s v) (hf : OneFile v ino) (hn : v.nblocks ≤ 2 ^ 23) (hu : u.Single iv)
    (hw : u.uioRw = .write) (hoff : u.uioOffset < 2 ^ 41) (halign : u.uioOffset % 512 = 0) (hlen : 512 ≤ u.uioResid) :
    Prog.wlp S (sfsBlockio ino) (fun _ => Progress S v ino u iv 512) (Refused S v ino u iv 0) (s, u) := by
  have hk : wcast (u.uioOffset / 512) = u.uioOffset / 512 := wcast_of_lt (by omega)
  unfold sfsBlockio Sfs.fs Sfs.uio Sfs.io
  simp only [Prog.wlp_bind, Prog.wlp_gets, Prog.wlp_assert_of hlen, Prog.wlp_zoom, Prog.wlp_ite, Prog.wlp_modify,
    Prog.wlp_attempt, hk, hw, decide_true]
  refine Prog.wlp_mono (sfsBmap_calm h hf _) (fun b t hb => ?_) fun _ t ht => ht.refused hu
  obtain ⟨w, ht, hext, rfl, hb0⟩ := hb
  refine ⟨fun h0 => absurd h0 hb0, fun _ => ?_⟩
  have hlt := (hext.file.block_used hb0).1
  set b := w.fileBlock ino (u.uioOffset / 512) with hb
  have hcast : wcast (b * 512) = b * 512 := by
    rw [hext.nblocks] at hlt
    exact wcast_of_lt (by omega)
  have hwsub : ∀ {r : ℕ}, 512 ≤ r → wsub r 512 = r - 512 := fun h => wsub_of_le h
  have hsingle : (⟨u.uioIov, b * 512, 512, u.uioSegflg, .write, u.mem, u.mapped⟩ : Uio).Single iv :=
    ⟨hu.iov, hlen.trans hu.len, by norm_num⟩
  rw [hcast]
  refine Prog.wlp_mono (sfsRwblock_write ht.steady ht.panics (ht.inRange hlt) hsingle rfl rfl rfl) (fun _ y hy => ?_)
    fun _ y hy => ?_
  · obtain ⟨hl, hy, hsec⟩ := hy
    rw [ht.sectors] at hsec
    refine ⟨w.store b _, ⟨ht.disk hl hsec, hl.steady ht.steady⟩, ?_, ?_⟩
    · have hwr : Written w (w.store b (Bytes.ofFun fun a => u.mem (iv.iovBase + a))) ino (u.uioOffset / 512 * 512 + 0) 512
          fun a => u.mem (iv.iovBase + a) := by
        refine hext.file.written hb0 (le_refl 512) fun i hi => ?_
        rw [Bytes.get_ofFun _ hi, Buf.blit_inside _ _ _ _ _ (by omega), Nat.zero_add, Nat.sub_zero]
      rw [show u.uioOffset / 512 * 512 + 0 = u.uioOffset by omega] at hwr
      have := (hext.written u.uioOffset fun a => u.mem (iv.iovBase + a)).trans
        (by simpa only [Nat.zero_add, Nat.add_zero] using hwr)
      rwa [Nat.zero_add] at this
    · rw [hy]
      simp only [Uio.after, Uio.advance, Uio.mk.injEq, hw, hwsub hlen, hwsub (le_refl 512), true_and, and_true]
      omega
  · obtain ⟨hl, hy, hsec, hfault⟩ := hy
    have huio : (⟨y.2.uioIov, y.2.uioOffset - b * 512 + u.uioOffset, u.uioResid - (512 - y.2.uioResid), y.2.uioSegflg,
        y.2.uioRw, y.2.mem, y.2.mapped⟩ : Uio) = u := by
      rw [hy]
      obtain ⟨iov, o, r, seg, rw, mem, mapped⟩ := u
      simp only [Uio.mk.injEq, Nat.sub_self, Nat.zero_add, Nat.sub_zero, true_and, and_true]
      exact hw.symm
    rw [huio]
    exact .fault ⟨ht.disk hl (hsec.trans ht.sectors), hl.steady ht.steady⟩ hext hu (by decide) le_rfl hlen hfault

/-! ### The whole request -/

/-- A transfer after the first `n` bytes. -/
theorem Progress.next {m : ℕ} {y : SfsFs Lhd × Uio} (hle : n + m ≤ u.uioResid)
    (hwr : Written v w ino u.uioOffset n fun a => u.mem (iv.iovBase + a))
    (h : Progress S w ino (u.after iv n) ⟨iv.iovBase + n, iv.iovLen - n⟩ m y) : Progress S v ino u iv (n + m) y := by
  obtain ⟨x, hc, hwr', hy⟩ := h
  refine ⟨x, hc, hwr.trans ?_, hy.trans (after_after iv hle)⟩
  have hsrc : (fun a => (u.after iv n).mem (iv.iovBase + n + a)) = fun a => u.mem (iv.iovBase + (n + a)) :=
    funext fun a => by rw [Nat.add_assoc]; rfl
  rw [← hsrc]
  exact hwr'

/-- The same for a transfer that failed. -/
theorem Refused.next {y : SfsFs Lhd × Uio} (hle : n ≤ u.uioResid)
    (hwr : Written v w ino u.uioOffset n fun a => u.mem (iv.iovBase + a))
    (h : Refused S w ino (u.after iv n) ⟨iv.iovBase + n, iv.iovLen - n⟩ 0 e y) : Refused S v ino u iv n e y := by
  obtain ⟨x, hc, hwr', hy, he⟩ := h
  have hr := after_resid (u := u) iv hle
  obtain ⟨x', hc', hwr'', hy'⟩ := Progress.next (m := 0) (by omega) hwr ⟨x, hc, hwr', hy⟩
  obtain rfl : x = x' := hc.volume.symm.trans hc'.volume
  refine ⟨x, hc, hwr'', hy', he.imp id fun hm => ?_⟩
  obtain ⟨m, h0, h512, hm, hf⟩ := hm
  exact ⟨m, h0, h512, by omega, hf⟩

theorem Progress.partialio {x : SfsFs Lhd × Uio} (h : Progress S v ino u iv n x) (hu : u.Single iv)
    (hw : u.uioRw = .write) (hoff : u.uioOffset + u.uioResid < 2 ^ 41) (len : ℕ) (hlen : n + len ≤ u.uioResid)
    (hskip : (u.uioOffset + n) % 512 + len ≤ 512) :
    Prog.wlp S (sfsPartialio ino (x.2.uioOffset % 512) len) (fun _ => Progress S v ino u iv (n + len))
      (Refused S v ino u iv n) x := by
  obtain ⟨w, hc, hwr, hx⟩ := h
  obtain ⟨t, u'⟩ := x
  obtain rfl : u' = u.after iv n := hx
  have hr := after_resid (u := u) iv (show n ≤ u.uioResid by omega)
  refine Prog.wlp_mono (sfsPartialio_write hc hwr.file (hu.after (by omega)) hw ?_ (by omega) hskip)
    (fun _ y hy => hy.next hlen hwr) fun _ y hy => hy.next (by omega) hwr
  show u.uioOffset + n < 2 ^ 41
  omega

theorem Progress.blockio {x : SfsFs Lhd × Uio} (h : Progress S v ino u iv n x) (hn : v.nblocks ≤ 2 ^ 23) (hu : u.Single iv)
    (hw : u.uioRw = .write) (hoff : u.uioOffset + u.uioResid < 2 ^ 41) (halign : (u.uioOffset + n) % 512 = 0)
    (hlen : n + 512 ≤ u.uioResid) :
    Prog.wlp S (sfsBlockio ino) (fun _ => Progress S v ino u iv (n + 512)) (Refused S v ino u iv n) x := by
  obtain ⟨w, hc, hwr, hx⟩ := h
  obtain ⟨t, u'⟩ := x
  obtain rfl : u' = u.after iv n := hx
  have hr := after_resid (u := u) iv (show n ≤ u.uioResid by omega)
  refine Prog.wlp_mono (sfsBlockio_write hc hwr.file (hwr.nblocks ▸ hn) (hu.after (by omega)) hw ?_ halign (by omega))
    (fun _ y hy => hy.next hlen hwr) fun _ y hy => hy.next (by omega) hwr
  show u.uioOffset + n < 2 ^ 41
  omega

/-- Where a request can stop: at its start or between two blocks. -/
def Uio.Stops (u : Uio) (n : ℕ) : Prop := n = 0 ∨ n < u.uioResid ∧ (u.uioOffset + n) % 512 = 0

/-- **The transfers of a request.** -/
theorem sfsIoBody_write (h : Calm S s v) (hf : OneFile v ino) (hn : v.nblocks ≤ 2 ^ 23) (hu : u.Single iv)
    (hw : u.uioRw = .write) (hoff : u.uioOffset + u.uioResid < 2 ^ 41) :
    Prog.wlp S (sfsIoBody ino) (fun _ => Progress S v ino u iv u.uioResid)
      (fun e x => ∃ n, u.Stops n ∧ Refused S v ino u iv n e x) (s, u) := by
  have hstart : Progress S v ino u iv 0 (s, u) := ⟨v, h, (Extended.refl hf).written _ _, (after_zero hu).symm⟩
  have hmod : u.uioOffset % 512 < 512 := Nat.mod_lt _ (by decide)
  unfold sfsIoBody
  rw [Prog.wlp_bind, Prog.wlp_gets]
  dsimp only
  rw [Prog.wlp_bind]
  -- the leading partial block
  have hfirst : Prog.wlp S (if u.uioOffset % 512 ≠ 0 then
        sfsPartialio ino (u.uioOffset % 512) (min (512 - u.uioOffset % 512) u.uioResid) else pure ())
      (fun _ y => ∃ n ≤ u.uioResid, (n = u.uioResid ∨ (u.uioOffset + n) % 512 = 0) ∧ Progress S v ino u iv n y)
      (fun e x => ∃ n, u.Stops n ∧ Refused S v ino u iv n e x) (s, u) := by
    rw [Prog.wlp_ite]
    refine ⟨fun _ => ?_, fun h0 => ⟨0, Nat.zero_le _, Or.inr (not_not.mp h0), hstart⟩⟩
    refine Prog.wlp_mono (hstart.partialio hu hw hoff (min (512 - u.uioOffset % 512) u.uioResid) ?_ ?_)
      (fun _ y hy => ⟨_, ?_, ?_, hy⟩) fun _ y hy => ⟨0, Or.inl rfl, hy⟩
    · omega
    · rw [Nat.add_zero]
      omega
    · omega
    · omega
  refine Prog.wlp_mono hfirst (fun _ x hx => ?_) fun _ _ hx => hx
  obtain ⟨n, hle, halign, hx⟩ := hx
  rw [Prog.wlp_bind, Prog.wlp_gets, Prog.wlp_ite]
  have hxu : x.2 = u.after iv n := hx.elim fun _ h => h.2.2
  have hres : x.2.uioResid = u.uioResid - n := by
    rw [hxu]
    exact after_resid iv hle
  refine ⟨fun h0 => ?_, fun h0 => ?_⟩
  · obtain rfl : n = u.uioResid := by omega
    exact hx
  · have halign : (u.uioOffset + n) % 512 = 0 := halign.resolve_left (by omega)
    have hassert : x.2.uioOffset % 512 = 0 := by
      rw [hxu]
      exact halign
    rw [Prog.wlp_bind, Prog.wlp_assert_of hassert, Prog.wlp_bind]
    -- the whole blocks
    refine Prog.wlp_mono (Prog.wlp_forUp (I := fun i => Progress S v ino u iv (n + 512 * i)) hx fun i hi y hy => ?_)
      (fun _ y hy => ?_) fun _ _ hy => hy
    · have hlen : n + 512 * i + 512 ≤ u.uioResid := by omega
      rw [show n + 512 * (i + 1) = n + 512 * i + 512 by omega]
      exact Prog.wlp_mono (hy.blockio hn hu hw hoff (by omega) hlen) (fun _ _ hy => hy)
        fun _ _ hy => ⟨_, Or.inr (by omega), hy⟩
    · set m := n + 512 * (x.2.uioResid / 512) with hm
      have hmle : m ≤ u.uioResid := by omega
      have hyu : y.2 = u.after iv m := hy.elim fun _ h => h.2.2
      have hyres : y.2.uioResid = u.uioResid - m := by
        rw [hyu]
        exact after_resid iv hmle
      rw [Prog.wlp_bind, Prog.wlp_gets, Prog.wlp_bind, Prog.wlp_assert_of (by omega), Prog.wlp_ite]
      refine ⟨fun hpos => ?_, fun hpos => ?_⟩
      · -- the trailing partial block
        have hskip : y.2.uioOffset % 512 = 0 := by
          rw [hyu]
          show (u.uioOffset + m) % 512 = 0
          omega
        have hlast := hy.partialio hu hw hoff y.2.uioResid (by omega) (by omega)
        rw [hskip, show m + y.2.uioResid = u.uioResid by omega] at hlast
        exact Prog.wlp_mono hlast (fun _ _ hy => hy) fun _ _ hy => ⟨_, Or.inr (by omega), hy⟩
      · obtain hmr : m = u.uioResid := by omega
        rw [← hmr]
        exact hy

/-- How a call of `sfs_io` for a write leaves the file: `n` bytes of the
request are written, and the size reaches to the last of them. -/
structure Wrote (S : Prop) (v : Volume) (ino : ℕ) (u : Uio) (iv : Iovec) (n : ℕ) (x : SfsFs Lhd × Uio) : Prop where
  le : n ≤ u.uioResid
  uio : x.2 = u.after iv n
  calm : Calm S x.1 x.1.volume
  grown : Grown v x.1.volume ino
  byte : ∀ pos, x.1.volume.byte ino pos = Buf.blit (v.byte ino) u.uioOffset (fun a => u.mem (iv.iovBase + a)) 0 n pos
  size : (x.1.volume.inode ino).sfiSize =
    if n = 0 then (v.inode ino).sfiSize else max (v.inode ino).sfiSize (u.uioOffset + n)
  limit : n = 0 ∨ u.uioOffset + n ≤ 143 * 512

/-- The same blocks of the file and the same freemap. -/
def SameMap (v w : Volume) (ino : ℕ) : Prop := (∀ k, w.fileBlock ino k = v.fileBlock ino k) ∧ w.marks = v.marks

theorem Hindered.congr (h : Hindered v ino u iv n e) (hm : SameMap v w ino) : Hindered w ino u iv n e := by
  refine h.imp_left fun h => h.imp_right fun ⟨he, hz, hfull⟩ => ⟨he, ?_, ?_⟩
  · rw [hm.1, hz]
  · rw [hm.2]
    exact hfull

/-- A new size is all that `out` changes. -/
theorem OneFile.setSize (h : OneFile v ino) {m : ℕ} (hm : m < 2 ^ 32) :
    Grown v (v.setInode ino fun i => i.setSize m) ino ∧
      ((v.setInode ino fun i => i.setSize m).inode ino).sfiSize = m ∧
      (v.setInode ino fun i => i.setSize m).byte ino = v.byte ino ∧
      SameMap v (v.setInode ino fun i => i.setSize m) ino := by
  set w := v.setInode ino fun i => i.setSize m with hw
  have hi : w.inode ino = (v.inode ino).setSize m := inode_setInode_self _ h.loaded
  have hfile : (∀ p, w.ptr ino p = v.ptr ino p) ∧ w.byte ino = v.byte ino :=
    file_congr (by rw [hi]; exact Block.setSize_ptrs _ _) fun _ _ => rfl
  have hblock : ∀ k, w.fileBlock ino k = v.fileBlock ino k :=
    fileBlock_congr (by rw [hi]; exact Block.setSize_ptrs _ _) fun _ => rfl
  refine ⟨⟨⟨h.loaded, h.word, h.zero, h.past, fun p hp => ?_, fun p q hp he => ?_⟩, rfl, fun k _ => hblock k,
    fun _ hb => hb, fun k _ => Or.inl (hblock k)⟩, ?_, hfile.2, hblock, rfl⟩
  · rw [hfile.1] at hp ⊢
    exact h.used p hp
  · rw [hfile.1] at hp he
    rw [hfile.1] at he
    exact h.inj p q hp he
  · rw [hi]
    exact Block.sfiSize_setSize _ _ hm

/-- From `out` on. -/
theorem Progress.out {x : SfsFs Lhd × Uio} (h : Progress S v ino u iv n x) (hle : n ≤ u.uioResid) (hw : u.uioRw = .write) :
    Prog.wlp S (sfsIoOut ino u.uioResid 0) (fun _ y => Wrote S v ino u iv n y ∧ SameMap x.1.volume y.1.volume ino)
      (fun _ _ => False) x := by
  obtain ⟨w, hc, hwr, hx⟩ := h
  obtain ⟨t, u'⟩ := x
  obtain rfl : u' = u.after iv n := hx
  have hr := after_resid (u := u) iv hle
  have hvol : t.volume = w := hc.volume
  have hsize : (t.sv ino).svI.sfiSize = (v.inode ino).sfiSize := by
    rw [hc.inode hwr.file.loaded]
    exact hwr.header.size
  unfold sfsIoOut
  rw [Prog.wlp_modify]
  have hcond : ((u.after iv n).uioResid ≠ u.uioResid ∧ (u.after iv n).uioRw = .write ∧
      (t.sv ino).svI.sfiSize < (u.after iv n).uioOffset) ↔ n ≠ 0 ∧ (v.inode ino).sfiSize < u.uioOffset + n := by
    rw [hr, hsize]
    refine and_congr (by omega) (and_iff_right hw)
  dsimp only
  by_cases hgrow : n ≠ 0 ∧ (v.inode ino).sfiSize < u.uioOffset + n
  · rw [if_pos (hcond.mpr hgrow)]
    have hlim := hwr.limit.resolve_left hgrow.1
    obtain ⟨hgrown, hsz, hbyte, hmap⟩ := hwr.file.setSize (m := u.uioOffset + n) (by omega)
    have hc' := hc.setInode ino fun i => i.setSize (u.uioOffset + n)
    have hvol' : (t.setInode ino fun i => i.setSize (u.uioOffset + n)).volume =
        w.setInode ino fun i => i.setSize (u.uioOffset + n) := hc'.volume
    refine ⟨⟨hle, rfl, ⟨hvol'.symm ▸ hc'.toOn, hc'.steady⟩, ?_, fun pos => ?_, ?_, hwr.limit⟩, ?_⟩
    · exact hvol'.symm ▸ hwr.toGrown.trans hgrown
    · exact (congrFun (congrFun (congrArg Volume.byte hvol') ino) pos).trans ((congrFun hbyte pos).trans (hwr.byte pos))
    · refine (congrArg (fun y : Volume => (y.inode ino).sfiSize) hvol').trans (hsz.trans ?_)
      rw [if_neg hgrow.1, max_eq_right hgrow.2.le]
    · exact hvol.symm ▸ hvol'.symm ▸ hmap
  · rw [if_neg fun hh => hgrow (hcond.mp hh)]
    refine ⟨⟨hle, rfl, ⟨hvol.symm ▸ hc.toOn, hc.steady⟩, hvol.symm ▸ hwr.toGrown, fun pos => ?_, ?_, hwr.limit⟩,
      fun _ => rfl, rfl⟩
    · exact (congrFun (congrFun (congrArg Volume.byte hvol) ino) pos).trans (hwr.byte pos)
    · refine (congrArg (fun y : Volume => (y.inode ino).sfiSize) hvol).trans (hwr.header.size.trans ?_)
      split_ifs with h0
      · rfl
      · exact (max_eq_left (by omega)).symm

/-- How a call that fails leaves it: between two blocks, and for what reason. -/
def WroteUntil (S : Prop) (v : Volume) (ino : ℕ) (u : Uio) (iv : Iovec) (e : Errno) (x : SfsFs Lhd × Uio) : Prop :=
  ∃ n, Wrote S v ino u iv n x ∧ u.Stops n ∧ Hindered x.1.volume ino u iv n e

/-- **`sfs_io` for a write**, however it ends: it has written what it says. -/
theorem sfsIo_write (h : Calm S s v) (hf : OneFile v ino) (hn : v.nblocks ≤ 2 ^ 23) (hu : u.Single iv)
    (hw : u.uioRw = .write) (hoff : u.uioOffset + u.uioResid < 2 ^ 41) :
    Prog.wlp S (sfsIo ino) (fun _ => Wrote S v ino u iv u.uioResid) (WroteUntil S v ino u iv) (s, u) := by
  have hread : ∀ {p : Prop}, ¬ (u.uioRw = .read ∧ p) := fun hc => by
    rw [hw] at hc
    cases hc.1
  have hextra : sfsIoExtraresid (s.sv ino).svI.sfiSize u = 0 := if_neg hread
  unfold sfsIo Sfs.uio
  simp only [Prog.wlp_bind, Prog.wlp_gets, Prog.wlp_ite, Prog.wlp_zoom, Prog.wlp_modify, Prog.wlp_attempt, hextra,
    Nat.sub_zero]
  refine ⟨fun hc => absurd hc hread, fun _ => (Prog.wlp_assert_of (Or.inl hextra)).mpr ?_⟩
  refine Prog.wlp_mono (sfsIoBody_write h hf hn hu hw hoff) (fun _ x hx => ?_) fun e x hx => ?_
  · exact Prog.wlp_mono (hx.out le_rfl hw) (fun _ y hy => hy.1) fun _ _ hf => hf.elim
  · obtain ⟨n, hstop, w, hc, hwr, hx, he⟩ := hx
    have hle : n ≤ u.uioResid := by
      rcases hstop with rfl | hlt
      · exact Nat.zero_le _
      · exact hlt.1.le
    refine Prog.wlp_mono (Progress.out ⟨w, hc, hwr, hx⟩ hle hw) (fun _ y hy => ⟨n, hy.1, hstop, ?_⟩) fun _ _ hf => hf.elim
    exact he.congr (hc.volume ▸ hy.2)

end Os161
