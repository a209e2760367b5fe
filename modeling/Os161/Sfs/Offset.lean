/-
# How far the offset goes

`sfs_read` and `sfs_write` take the block of an `off_t` offset modulo `2 ^ 32`,
and `sfs_bmap` refuses all but the first 143. So a transfer that succeeds
starts far below the largest offset: `sfs_io` from an offset below `2 ^ 63`
returns with one (`sfsIo_offset`), whatever is on the volume and whatever the
disk reports.

`Uio.Onward o r m u`: the uio, of one iovec, has moved on from offset `o` with
residue `r` and `m` bytes in the iovec.
-/
import Os161.Sfs.BmapEnds

namespace Os161

/-- A uio of one iovec that has moved on from offset `o` with residue `r` and at
least `m` bytes in the iovec. -/
structure Uio.Onward (o r m : ℕ) (u : Uio) : Prop where
  single : ∃ v, u.Single v ∧ o + m ≤ u.uioOffset + v.iovLen
  sum : u.uioOffset + u.uioResid = o + r
  le : o ≤ u.uioOffset

variable {o r m n : ℕ} {u : Uio}

theorem Uio.Onward.start {v : Iovec} (h : u.Single v) (hm : m ≤ v.iovLen) : u.Onward u.uioOffset u.uioResid m :=
  ⟨⟨v, h, Nat.add_le_add_left hm _⟩, rfl, le_rfl⟩

/-! ### Moves -/

/-- A move goes on by its length, or faults and goes nowhere. -/
theorem uiomove_onward (h : u.Onward o r m) (hn : n ≤ u.uioResid) (b : Buf) :
    Prog.wp (uiomove n) (fun _ x => x.1.Onward o r m ∧ x.1.uioOffset = u.uioOffset + n)
      (fun _ x => x.1.Onward o r m ∧ x.1.uioOffset = u.uioOffset) (u, b) := by
  obtain ⟨⟨v, hv, hroom⟩, hsum, hle⟩ := h
  have hlen := hv.len
  have hword := hv.resid
  rcases uiomove_single hv b hn with hm | ⟨-, -, mem, b', hm, -⟩
  · have hkept : (moved u b v.iovBase n).1 = { u with mem := (moved u b v.iovBase n).1.mem } := by
      unfold moved
      split <;> rfl
    rw [Prog.wp, hm]
    dsimp only
    rw [hkept]
    have hres : wsub u.uioResid n = u.uioResid - n := wsub_of_le hn
    refine ⟨⟨⟨_, ⟨rfl, ?_, ?_⟩, ?_⟩, ?_, ?_⟩, rfl⟩
    · show wsub u.uioResid n ≤ v.iovLen - n
      omega
    · show wsub u.uioResid n < 2 ^ 32
      omega
    · show o + m ≤ u.uioOffset + n + (v.iovLen - n)
      omega
    · show u.uioOffset + n + wsub u.uioResid n = o + r
      omega
    · show o ≤ u.uioOffset + n
      omega
  · rw [Prog.wp, hm]
    exact ⟨⟨⟨v, ⟨hv.iov, hlen, hword⟩, hroom⟩, hsum, hle⟩, rfl⟩

theorem uiomoveBuf_onward (h : u.Onward o r m) (hn : n ≤ u.uioResid) (b : Buf) :
    Prog.wp (uiomoveBuf b n) (fun _ x => x.Onward o r m ∧ x.uioOffset = u.uioOffset + n) (fun _ _ => True) u := by
  have hm := uiomove_onward h hn b
  unfold Prog.wp uiomoveBuf
  unfold Prog.wp at hm
  cases hrun : uiomove n (u, b) with
  | ok a x => rw [hrun] at hm; exact hm
  | fail e x => trivial
  | stop => rw [hrun] at hm; exact hm

/-- Zeros go sixteen at a time. -/
theorem uiomovezeros_onward (h : u.Onward o r m) (hn : n ≤ u.uioResid) :
    Prog.wlp True (uiomovezeros n) (fun _ x => x.Onward o r m ∧ x.uioOffset = u.uioOffset + n) (fun _ _ => True) u := by
  unfold uiomovezeros
  simp only [Prog.wlp_bind, Prog.wlp_get, Prog.wlp_assert]
  refine ⟨fun _ => ?_, fun _ => trivial⟩
  have hloop := Prog.wlp_forUp (S := True) (n := (n + 15) / 16)
    (f := fun i => uiomoveBuf (fun _ => 0) (min 16 (n - 16 * i)) >>= fun _ => (pure () : Prog Errno Uio Unit))
    (I := fun i (x : Uio) => x.Onward o r m ∧ x.uioOffset = u.uioOffset + min n (16 * i)) (E := fun _ _ => True) (s := u)
    ⟨h, by simp⟩ fun i hi x hx => ?_
  · refine Prog.wlp_mono hloop (fun _ x hx => ⟨hx.1, ?_⟩) fun _ _ h => h
    rw [hx.2]
    omega
  · rw [Prog.wlp_bind]
    have hsum := hx.1.sum
    have hsum0 := h.sum
    have hoff := hx.2
    refine Prog.wlp_mono (Prog.wlp_of_wp (uiomoveBuf_onward hx.1 (by omega) _)) (fun _ y hy => ?_) fun _ _ h => h
    rw [Prog.wlp_pure]
    refine ⟨hy.1, ?_⟩
    rw [hy.2, hoff]
    omega

/-! ### The disk -/

theorem lhdMove_onward {l : Lhd} (h : u.Onward o r m) (hn : 512 ≤ u.uioResid) :
    Prog.wp lhdMove (fun _ x => x.2.Onward o r m ∧ x.2.uioOffset = u.uioOffset + 512) (fun _ x => x.2.Onward o r m) (l, u) := by
  unfold lhdMove
  rw [Prog.wp_zoom]
  exact Prog.wp_mono (uiomove_onward h hn l.lhBuf) (fun _ _ h => h) fun _ _ h => h.1

theorem lhdSector_onward {l : Lhd} (h : u.Onward o r m) (hn : 512 ≤ u.uioResid) (rw : UioRw) (b : ℕ) :
    Prog.wlp True (lhdSector rw b) (fun _ x => x.2.Onward o r m ∧ x.2.uioOffset = u.uioOffset + 512)
      (fun _ x => x.2.Onward o r m) (l, u) := by
  have hop : ∀ (k : Lhd) (w : Uio) (Q : Uio → Prop), Q w →
      Prog.wlp True (Prog.zoom Prod.fst (fun l (s : Lhd × Uio) => (l, s.2)) (lhdOperation rw b)) (fun _ x => Q x.2)
        (fun _ x => Q x.2) (k, w) := by
    intro k w Q hw
    rw [Prog.wlp_zoom]
    unfold Prog.wlp
    cases lhdOperation rw b k with
    | ok _ _ => exact hw
    | fail _ _ => exact hw
    | stop => trivial
  cases rw with
  | write =>
    rw [lhdSector_write]
    refine (Prog.wlp_bind _ _).mpr (Prog.wlp_mono (Prog.wlp_of_wp (lhdMove_onward h hn)) (fun _ x hx => ?_) fun _ _ h => h)
    have hx' := hop x.1 x.2 (fun w => w.Onward o r m ∧ w.uioOffset = u.uioOffset + 512) hx
    exact Prog.wlp_mono hx' (fun _ _ h => h) fun _ _ h => h.1
  | read =>
    rw [lhdSector_read]
    refine (Prog.wlp_bind _ _).mpr (Prog.wlp_mono (hop l u (· = u) rfl) (fun _ x hx => ?_) fun _ x hx => ?_)
    · obtain ⟨k, w⟩ := x
      obtain rfl : w = u := hx
      exact Prog.wlp_of_wp (lhdMove_onward h hn)
    · rw [hx]
      exact h

/-- **`lhd_io`** goes on, whatever the card reports. -/
theorem lhdIo_onward {l : Lhd} (h : u.Onward o r m) :
    Prog.wlp True lhdIo (fun _ x => x.2.Onward o r m) (fun _ x => x.2.Onward o r m) (l, u) := by
  refine (Prog.wlp_congr (lhdIo_eq l u)).mpr ?_
  simp only [Prog.wlp_ite, Prog.wlp_fail]
  refine ⟨fun _ => h, fun _ => ⟨fun _ => h, fun _ => ?_⟩⟩
  have hloop := Prog.wlp_forUp (S := True) (n := u.uioResid / 512)
    (f := fun i => lhdSector u.uioRw (wadd (wcast (u.uioOffset / 512)) i))
    (I := fun i (x : Lhd × Uio) => x.2.Onward o r m ∧ x.2.uioOffset = u.uioOffset + 512 * i)
    (E := fun _ (x : Lhd × Uio) => x.2.Onward o r m) (s := (l, u)) ⟨h, rfl⟩ fun i hi x hx => ?_
  · exact Prog.wlp_mono hloop (fun _ _ hx => hx.1) fun _ _ h => h
  · have hsum := hx.1.sum
    have hsum0 := h.sum
    have hoff := hx.2
    refine Prog.wlp_mono (lhdSector_onward (l := x.1) hx.1 (by omega) _ _) (fun _ y hy => ⟨hy.1, ?_⟩) fun _ _ h => h
    rw [hy.2, hoff]
    ring

theorem sfsRwblockTry_onward {more : Prog Errno (Lhd × Uio) Unit} {x : Lhd × Uio} (h : x.2.Onward o r m)
    (hmore : ∀ y : Lhd × Uio, y.2.Onward o r m →
      Prog.wlp True more (fun _ z => z.2.Onward o r m) (fun _ z => z.2.Onward o r m) y) :
    Prog.wlp True (sfsRwblockTry more) (fun _ z => z.2.Onward o r m) (fun _ z => z.2.Onward o r m) x := by
  unfold sfsRwblockTry
  rw [Prog.wlp_bind, Prog.wlp_attempt]
  refine Prog.wlp_mono (lhdIo_onward h) (fun _ y hy => hy) fun e y hy => ?_
  cases e <;> first | exact trivial | exact hmore y hy | exact hy

/-- The retries go on from where the last try left off. -/
theorem sfsRwblock_onward {l : Lhd} (h : u.Onward o r m) :
    Prog.wlp True sfsRwblock (fun _ x => x.2.Onward o r m) (fun _ x => x.2.Onward o r m) (l, u) := by
  have hloop : ∀ n (x : Lhd × Uio), x.2.Onward o r m →
      Prog.wlp True (sfsRwblockLoop n) (fun _ y => y.2.Onward o r m) (fun _ y => y.2.Onward o r m) x := by
    intro n
    induction n with
    | zero =>
      intro x hx
      exact sfsRwblockTry_onward hx fun _ hy => hy
    | succ n ih =>
      intro x hx
      exact sfsRwblockTry_onward hx ih
  exact hloop 10 (l, u) h

/-! ### Blocks of a file -/

/-- One transfer of `sfs_io`, which got its block from `sfs_bmap`. -/
structure Transferred (u u' : Uio) : Prop where
  onward : u'.Onward u.uioOffset u.uioResid u.uioResid
  le : u'.uioOffset ≤ u.uioOffset + 512
  block : wcast (u.uioOffset / 512) < 143

variable {s : SfsFs Lhd} {ino : ℕ} {v : Iovec}

theorem sfsBmap_wlp (k : ℕ) (doalloc : Bool) :
    Prog.wlp True (Sfs.fs (sfsBmap ino k doalloc)) (fun _ x => x.2 = u ∧ k < 143) (fun _ _ => True) (s, u) := by
  unfold Sfs.fs
  rw [Prog.wlp_zoom]
  by_cases hk : 143 ≤ k
  · exact (Prog.wlp_fail_run (sfsBmap_efbig s ino hk doalloc)).mpr trivial
  · unfold Prog.wlp
    cases sfsBmap ino k doalloc s with
    | ok b t => exact ⟨rfl, by omega⟩
    | fail _ _ => trivial
    | stop => trivial

theorem fs_wlp {α : Type} (m : Prog Errno (SfsFs Lhd) α) (Q : Uio → Prop) (x : SfsFs Lhd × Uio) (h : Q x.2) :
    Prog.wlp True (Sfs.fs m) (fun _ y => Q y.2) (fun _ _ => True) x := by
  unfold Sfs.fs
  rw [Prog.wlp_zoom]
  unfold Prog.wlp
  cases m x.1 with
  | ok _ _ => exact h
  | fail _ _ => trivial
  | stop => trivial

/-- **`sfs_partialio`.** -/
theorem sfsPartialio_transferred (hu : u.Single v) {skip len : ℕ} (hlen : len ≤ u.uioResid) :
    Prog.wlp True (sfsPartialio ino skip len) (fun _ x => Transferred u x.2) (fun _ _ => True) (s, u) := by
  unfold sfsPartialio
  simp only [Prog.wlp_bind, Prog.wlp_gets, Prog.wlp_assert]
  refine ⟨fun hfit => ?_, fun _ => trivial⟩
  refine Prog.wlp_mono (sfsBmap_wlp _ _) (fun b x hx => ?_) fun _ _ h => h
  obtain ⟨t, w⟩ := x
  obtain ⟨hw, hblock⟩ := hx
  obtain rfl : w = u := hw
  have hload : Prog.wlp True (if b = 0 then do
        Prog.assert (w.uioRw = .read)
        pure Block.zeros
      else Sfs.fs (Sfs.dev (sfsReadblock b)) : Prog Errno (SfsFs Lhd × Uio) Block)
      (fun _ y => y.2 = w) (fun _ _ => True) (t, w) := by
    simp only [Prog.wlp_ite, Prog.wlp_bind, Prog.wlp_assert, Prog.wlp_pure]
    exact ⟨fun _ => ⟨fun _ => trivial, fun _ => trivial⟩, fun _ => fs_wlp _ (· = w) (t, w) rfl⟩
  refine Prog.wlp_mono hload (fun iobuf y hy => ?_) fun _ _ h => h
  obtain ⟨t', w'⟩ := y
  obtain rfl : w' = w := hy
  have hmove : Prog.wlp True (Sfs.uio (uiomoveBlock iobuf skip len)) (fun _ z => Transferred w' z.2) (fun _ _ => True)
      (t', w') := by
    unfold Sfs.uio uiomoveBlock
    simp only [Prog.wlp_zoom, Prog.wlp_bind, Prog.wlp_pure]
    refine Prog.wlp_mono (Prog.wlp_of_wp (uiomoveBuf_onward (.start hu hu.len) hlen _)) (fun _ z hz => ?_) fun _ _ h => h
    exact ⟨hz.1, by rw [hz.2]; omega, hblock⟩
  refine Prog.wlp_mono hmove (fun _ z hz => ?_) fun _ _ h => h
  rw [Prog.wlp_ite]
  exact ⟨fun _ => fs_wlp _ (Transferred w') z hz, fun _ => hz⟩

/-- **`sfs_blockio`.** -/
theorem sfsBlockio_transferred (hu : u.Single v) (hres : 512 ≤ u.uioResid) :
    Prog.wlp True (sfsBlockio ino) (fun _ x => Transferred u x.2) (fun _ _ => True) (s, u) := by
  unfold sfsBlockio
  simp only [Prog.wlp_bind, Prog.wlp_gets]
  refine Prog.wlp_mono (sfsBmap_wlp _ _) (fun b x hx => ?_) fun _ _ h => h
  obtain ⟨t, w⟩ := x
  obtain ⟨hw, hblock⟩ := hx
  obtain rfl : w = u := hw
  simp only [Prog.wlp_ite, Prog.wlp_bind, Prog.wlp_assert]
  refine ⟨fun _ => ⟨fun _ => ?_, fun _ => trivial⟩, fun _ => ⟨fun _ => ?_, fun _ => trivial⟩⟩
  · unfold Sfs.uio
    rw [Prog.wlp_zoom]
    refine Prog.wlp_mono (uiomovezeros_onward (.start hu hu.len) hres) (fun _ z hz => ?_) fun _ _ h => h
    exact ⟨hz.1, by rw [hz.2], hblock⟩
  · unfold Sfs.uio Sfs.io
    simp only [Prog.wlp_zoom, Prog.wlp_modify, Prog.wlp_attempt]
    -- the offset is the device's for the time of the transfer
    have hdev : ({ w with uioOffset := wcast (b * 512), uioResid := 512 } : Uio).Onward (wcast (b * 512)) 512 v.iovLen :=
      ⟨⟨v, ⟨hu.iov, le_trans hres hu.len, by norm_num⟩, le_rfl⟩, rfl, le_rfl⟩
    refine Prog.wlp_mono (sfsRwblock_onward (l := t.sfsDevice) hdev) (fun _ z hz => ?_) fun _ _ _ => trivial
    obtain ⟨⟨v', hv', hroom⟩, hsum, hle⟩ := hz
    have hlen := hu.len
    have hword := hu.resid
    rw [Prog.wlp_pure]
    refine ⟨⟨⟨v', ⟨hv'.iov, ?_, ?_⟩, ?_⟩, ?_, ?_⟩, ?_, hblock⟩ <;> dsimp only <;> omega

/-! ### The whole transfer -/

/-- A uio of one iovec at an offset that an `off_t` can hold. -/
def Uio.Holds (u : Uio) : Prop := (∃ v, u.Single v) ∧ u.uioOffset < 2 ^ 63

/-- A block among the first 143, taken modulo `2 ^ 32`, ends below `2 ^ 63`. -/
theorem Transferred.holds {u' : Uio} (h : Transferred u u') (hoff : u.uioOffset < 2 ^ 63) : u'.Holds := by
  obtain ⟨⟨⟨v', hv', -⟩, -, -⟩, hle, hblock⟩ := h
  unfold wcast at hblock
  exact ⟨⟨v', hv'⟩, by omega⟩

theorem sfsIoBody_holds (h : u.Holds) :
    Prog.wlp True (sfsIoBody ino) (fun _ x => x.2.Holds) (fun _ _ => True) (s, u) := by
  obtain ⟨⟨v, hv⟩, hoff⟩ := h
  unfold sfsIoBody
  simp only [Prog.wlp_bind, Prog.wlp_gets]
  have hfirst : Prog.wlp True (if u.uioOffset % 512 ≠ 0 then
        sfsPartialio ino (u.uioOffset % 512) (min (512 - u.uioOffset % 512) u.uioResid)
      else pure () : Prog Errno (SfsFs Lhd × Uio) Unit) (fun _ x => x.2.Holds) (fun _ _ => True) (s, u) := by
    rw [Prog.wlp_ite, Prog.wlp_pure]
    refine ⟨fun _ => ?_, fun _ => ⟨⟨v, hv⟩, hoff⟩⟩
    exact Prog.wlp_mono (sfsPartialio_transferred hv (min_le_right _ _)) (fun _ x hx => hx.holds hoff) fun _ _ h => h
  refine Prog.wlp_mono hfirst (fun _ x hx => ?_) fun _ _ h => h
  simp only [Prog.wlp_ite, Prog.wlp_pure, Prog.wlp_bind, Prog.wlp_assert, Prog.wlp_gets]
  refine ⟨fun _ => hx, fun _ => ⟨fun _ => ?_, fun _ => trivial⟩⟩
  have hloop := Prog.wlp_forUp (S := True) (n := x.2.uioResid / 512) (f := fun _ => sfsBlockio ino)
    (I := fun i (y : SfsFs Lhd × Uio) => y.2.Holds ∧ x.2.uioResid ≤ y.2.uioResid + 512 * i) (E := fun _ _ => True)
    (s := x) ⟨hx, by omega⟩ fun i hi y hy => ?_
  · refine Prog.wlp_mono hloop (fun _ y hy => ?_) fun _ _ h => h
    refine ⟨fun _ => ⟨fun _ => ?_, fun _ => hy.1⟩, fun _ => trivial⟩
    obtain ⟨⟨⟨w, hw⟩, hy63⟩, -⟩ := hy
    exact Prog.wlp_mono (sfsPartialio_transferred (s := y.1) hw le_rfl) (fun _ z hz => hz.holds hy63) fun _ _ h => h
  · obtain ⟨⟨⟨w, hw⟩, hy63⟩, hleft⟩ := hy
    refine Prog.wlp_mono (sfsBlockio_transferred (s := y.1) hw (by omega)) (fun _ z hz => ⟨hz.holds hy63, ?_⟩)
      fun _ _ h => h
    have hsum := hz.onward.sum
    have hle := hz.le
    omega

/-- **`sfs_io`** from an offset that an `off_t` can hold returns with one. -/
theorem sfsIo_offset (h : u.Holds) :
    Prog.wlp True (sfsIo ino) (fun _ x => x.2.uioOffset < 2 ^ 63) (fun _ _ => True) (s, u) := by
  unfold sfsIo sfsIoOut
  simp only [Prog.wlp_bind, Prog.wlp_gets, Prog.wlp_ite, Prog.wlp_pure, Prog.wlp_assert]
  refine ⟨fun _ => h.2, fun _ => ⟨fun _ => ?_, fun _ => trivial⟩⟩
  unfold Sfs.uio
  simp only [Prog.wlp_zoom, Prog.wlp_modify, Prog.wlp_attempt]
  have hcut : ({ u with uioResid := u.uioResid - sfsIoExtraresid (s.sv ino).svI.sfiSize u } : Uio).Holds := by
    obtain ⟨⟨v, hv⟩, hoff⟩ := h
    exact ⟨⟨v, hv.iov, (Nat.sub_le _ _).trans hv.len, (Nat.sub_le _ _).trans_lt hv.resid⟩, hoff⟩
  exact Prog.wlp_mono (sfsIoBody_holds hcut) (fun _ x hx => hx.2) fun _ _ _ => trivial

end Os161
