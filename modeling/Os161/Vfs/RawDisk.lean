/-
# Transfers of the raw disk stay on the disk

`dev_read` and `dev_write` of `kern/vfs/device.c` over `lhd_io`. The driver
here is that of `Dev/Lhd.lean` with the numbers it writes to `LHD_REG_SECT`
recorded beside the state; without the record it is the same program
(`devIoLogged_maps`).

`dev_tryseek` keeps the first sector on the disk, and `lhd_io` compares the end
of the request with `d_blocks` in 32 bits. The comparison misses exactly the
requests whose end wraps (`EndWraps`): these run over the end of the disk and
on to its first sectors.
-/
import Os161.Vfs.Seekable
import Os161.Kern.Moves
import Os161.Lib.Commute

namespace Os161

/-- The sectors commanded so far, the disk and the uio. -/
abbrev LoggedDisk := List ℕ × (Lhd × Uio)

/-- A step of the driver that commands nothing. -/
def Logged.onDisk (m : Prog Errno (Lhd × Uio) Unit) : Prog Errno LoggedDisk Unit :=
  Prog.zoom Prod.snd (fun x s => (s.1, x)) m

/-- `lhdOperation`, with the sector recorded. -/
def lhdOperationLogged (rw : UioRw) (sector : ℕ) : Prog Errno LoggedDisk Unit :=
  Prog.zoom Prod.snd (fun x s => (s.1 ++ [sector], x))
    (Prog.zoom Prod.fst (fun l s => (l, s.2)) (lhdOperation rw sector))

/-- `lhdSector`, with the sector recorded. -/
def lhdSectorLogged (rw : UioRw) (sector : ℕ) : Prog Errno LoggedDisk Unit := do
  if rw = .write then Logged.onDisk lhdMove
  lhdOperationLogged rw sector
  if rw = .read then Logged.onDisk lhdMove

/-- `lhdIo`, with the sectors recorded. -/
def lhdIoLogged : Prog Errno LoggedDisk Unit := do
  let s ← Prog.get
  let u := s.2.2
  let sector := wcast (u.uioOffset / 512)
  let len := u.uioResid / 512
  if u.uioOffset % 512 ≠ 0 ∨ u.uioResid % 512 ≠ 0 then Prog.fail .einval
  else if s.2.1.dBlocks < wadd sector len then Prog.fail .einval
  else Prog.forUp len fun i => lhdSectorLogged u.uioRw (wadd sector i)

/-- `devIo` on the disk's own `d_blocks`, with the sectors recorded. -/
def devIoLogged (rw : UioRw) : Prog Errno LoggedDisk Unit := do
  let s ← Prog.get
  devTryseek s.2.1.dBlocks 512 s.2.2.uioOffset
  Prog.assert (s.2.2.uioRw = rw)
  lhdIoLogged

section Maps

open Prog (Maps)

/-- A program over the disk does the same beside a record. -/
theorem zoom_snd_maps (g : List ℕ → List ℕ) (m : Prog Errno (Lhd × Uio) Unit) :
    Maps Prod.snd (Prog.zoom Prod.snd (fun x s => (g s.1, x)) m) m := by
  intro s
  unfold Prog.zoom
  cases m s.2 <;> rfl

theorem lhdSectorLogged_maps (rw : UioRw) (b : ℕ) : Maps Prod.snd (lhdSectorLogged rw b) (lhdSector rw b) := by
  have hmove := zoom_snd_maps id lhdMove
  have hrest := Maps.bind (zoom_snd_maps (· ++ [b]) (Prog.zoom Prod.fst (fun l s => (l, s.2)) (lhdOperation rw b))) fun _ =>
    Maps.ite (rw = .read) (fun _ => hmove) fun _ => Maps.pure ()
  exact Maps.ite (rw = .write) (fun _ => Maps.bind hmove fun _ => hrest) fun _ => hrest

theorem lhdIoLogged_maps : Maps Prod.snd lhdIoLogged lhdIo := by
  rintro ⟨log, l, u⟩
  refine Maps.ite (u.uioOffset % 512 ≠ 0 ∨ u.uioResid % 512 ≠ 0) (fun _ => Maps.fail _) (fun _ => ?_) (log, l, u)
  refine Maps.ite (l.dBlocks < wadd (wcast (u.uioOffset / 512)) (u.uioResid / 512)) (fun _ => Maps.fail _) fun _ => ?_
  exact Maps.forUp (fun i => lhdSectorLogged_maps _ _) _

theorem devTryseek_maps (d size pos : ℕ) : Maps (Prod.snd : LoggedDisk → Lhd × Uio) (devTryseek d size pos) (devTryseek d size pos) := by
  unfold devTryseek
  refine Maps.ite (0 < d) (fun _ => ?_) fun _ => Maps.pure _
  exact Maps.ite (pos % size ≠ 0) (fun _ => Maps.fail _) fun _ =>
    Maps.ite (d ≤ pos / size) (fun _ => Maps.fail _) fun _ => Maps.pure _

/-- **Without the record it is the same program.** -/
theorem devIoLogged_maps (rw : UioRw) (s : LoggedDisk) :
    devIo rw s.2.1.dBlocks s.2 = (devIoLogged rw s).map Prod.snd :=
  Maps.bind (devTryseek_maps s.2.1.dBlocks 512 s.2.2.uioOffset)
    (fun _ => Maps.bind (Maps.assert (s.2.2.uioRw = rw)) fun _ => lhdIoLogged_maps) s

end Maps

/-! ### Moves -/

section Room

variable {iov : List Iovec} {n : ℕ}

theorem iovTotal_cons (v : Iovec) (rest : List Iovec) : iovTotal (v :: rest) = v.iovLen + iovTotal rest := List.sum_cons

/-- What is left of the iovecs after `n` bytes. -/
theorem iovTotal_dropIov (h : n ≤ iovTotal iov) : iovTotal (dropIov iov n) = iovTotal iov - n := by
  induction iov generalizing n with
  | nil => exact (Nat.zero_sub n).symm
  | cons v rest ih =>
    rw [iovTotal_cons] at h ⊢
    rcases Nat.eq_zero_or_pos n with rfl | h0
    · rw [dropIov_zero, iovTotal_cons, Nat.sub_zero]
    rcases Nat.lt_or_ge v.iovLen n with hlt | hge
    · rw [dropIov_past rest hlt, ih (by omega)]
      omega
    · rw [dropIov_within rest h0 hge, iovTotal_cons]
      show v.iovLen - n + _ = _
      omega

theorem iovLen_dropIov (h : ∀ v ∈ iov, v.iovLen < 2 ^ 32) : ∀ v ∈ dropIov iov n, v.iovLen < 2 ^ 32 := by
  induction iov generalizing n with
  | nil => simp [dropIov]
  | cons v rest ih =>
    obtain ⟨hv, hrest⟩ := List.forall_mem_cons.mp h
    unfold dropIov
    split_ifs
    · exact h
    · exact List.forall_mem_cons.mpr ⟨show v.iovLen - n < 2 ^ 32 by omega, hrest⟩
    · exact ih hrest

/-- Kernel memory can be touched. -/
theorem reaches_sysspace {u : Uio} (hseg : u.uioSegflg = .sysspace) (h : n ≤ iovTotal iov) : u.Reaches iov n := by
  induction iov generalizing n with
  | nil => exact Nat.le_zero.mp h
  | cons v rest ih =>
    rw [iovTotal_cons] at h
    refine ⟨Or.inl hseg, ?_⟩
    rcases Nat.lt_or_ge v.iovLen n with hlt | hge
    · exact Or.inr (ih (by omega))
    · exact Or.inl hge

/-- The iovecs have room for `uio_resid` bytes. -/
structure Uio.Room (u : Uio) : Prop where
  lens : ∀ v ∈ u.uioIov, v.iovLen < 2 ^ 32
  total : u.uioResid ≤ iovTotal u.uioIov

/-- **A move of one sector**: it ends, and fails only on a user's memory. -/
theorem lhdMove_wp {l : Lhd} {u : Uio} (h : u.Room) (hres : 512 ≤ u.uioResid) :
    Prog.wp lhdMove
      (fun _ x => x.2.Room ∧ x.2.uioResid = u.uioResid - 512 ∧ x.2.uioSegflg = u.uioSegflg ∧ x.1.status = l.status)
      (fun _ _ => u.uioSegflg ≠ .sysspace) (l, u) := by
  have hmoves := uiomove_moves h.lens h.total (Or.inl hres) l.lhBuf
  have htotal := h.total
  unfold lhdMove
  rw [Prog.wp_zoom]
  unfold Prog.wp
  dsimp only
  cases hrun : uiomove 512 (u, l.lhBuf) with
  | ok a x =>
    rw [hrun] at hmoves
    have hx : x = _ := hmoves
    rw [Nat.min_eq_left hres] at hx
    have hadv : (u.advance 512).uioResid = u.uioResid - 512 := advance_resid u hres
    subst hx
    refine ⟨⟨iovLen_dropIov h.lens, ?_⟩, hadv, rfl, rfl⟩
    show (u.advance 512).uioResid ≤ iovTotal (dropIov u.uioIov 512)
    rw [hadv, iovTotal_dropIov (by omega)]
    omega
  | fail e x =>
    rw [hrun] at hmoves
    obtain ⟨-, hreach, -⟩ := hmoves
    rw [Nat.min_eq_left hres] at hreach
    exact fun hseg => hreach (reaches_sysspace hseg (by omega))
  | stop =>
    rw [hrun] at hmoves
    exact hmoves

end Room

/-! ### Sectors -/

/-- Nothing can fail: the card reports success, and the memory is the kernel's. -/
structure Faultless (l : Lhd) (u : Uio) : Prop where
  status : ∀ i, l.status i = .ok
  seg : u.uioSegflg = .sysspace

section Sectors

variable {log : List ℕ} {l : Lhd} {u : Uio}

theorem onDisk_move_wp (h : u.Room) (hres : 512 ≤ u.uioResid) :
    Prog.wp (Logged.onDisk lhdMove)
      (fun _ s => s.1 = log ∧ s.2.2.Room ∧ s.2.2.uioResid = u.uioResid - 512 ∧ (Faultless l u → Faultless s.2.1 s.2.2))
      (fun _ s => s.1 = log ∧ ¬ Faultless l u) (log, l, u) := by
  unfold Logged.onDisk
  rw [Prog.wp_zoom]
  refine Prog.wp_mono (lhdMove_wp h hres) (fun _ x hx => ?_) fun _ x hx => ⟨rfl, fun hc => hx hc.seg⟩
  obtain ⟨hroom, hres', hseg, hstatus⟩ := hx
  exact ⟨rfl, hroom, hres', fun hc => ⟨fun i => by rw [hstatus, hc.status], hseg.trans hc.seg⟩⟩

/-- **An operation** commands its sector and leaves the uio alone. -/
theorem lhdOperationLogged_wp (rw : UioRw) (b : ℕ) :
    Prog.wp (lhdOperationLogged rw b) (fun _ s => s.1 = log ++ [b] ∧ s.2.2 = u ∧ (Faultless l u → Faultless s.2.1 u))
      (fun _ s => s.1 = log ++ [b] ∧ ¬ Faultless l u) (log, l, u) := by
  unfold lhdOperationLogged
  rw [Prog.wp_zoom, Prog.wp_zoom]
  unfold Prog.wp lhdOperation
  dsimp only
  cases hs : l.status 0 with
  | ok => cases rw <;> exact ⟨rfl, rfl, fun hc => ⟨fun i => hc.status (i + 1), hc.seg⟩⟩
  | invsect => exact ⟨rfl, fun hc => by simp [hc.status] at hs⟩
  | media => exact ⟨rfl, fun hc => by simp [hc.status] at hs⟩

/-- **One turn of the loop** commands its sector, unless the move before it fails. -/
theorem lhdSectorLogged_wp (rw : UioRw) (b : ℕ) (h : u.Room) (hres : 512 ≤ u.uioResid) :
    Prog.wp (lhdSectorLogged rw b)
      (fun _ s => s.1 = log ++ [b] ∧ s.2.2.Room ∧ s.2.2.uioResid = u.uioResid - 512 ∧ (Faultless l u → Faultless s.2.1 s.2.2))
      (fun _ s => (s.1 = log ∨ s.1 = log ++ [b]) ∧ ¬ Faultless l u) (log, l, u) := by
  unfold lhdSectorLogged
  cases rw with
  | write =>
    simp only [if_true, reduceCtorEq, if_false, Prog.wp_bind, Prog.wp_pure]
    refine Prog.wp_mono (onDisk_move_wp h hres) (fun _ s hs => ?_) fun _ s hs => ⟨Or.inl hs.1, hs.2⟩
    obtain ⟨rfl, hroom, hres', hcalm⟩ := hs
    refine Prog.wp_mono (lhdOperationLogged_wp .write b) (fun _ t ht => ?_) fun _ t ht => ⟨Or.inr ht.1, fun hc => ht.2 (hcalm hc)⟩
    obtain ⟨hlog, hu, hcalm'⟩ := ht
    rw [hu]
    exact ⟨hlog, hroom, hres', fun hc => hcalm' (hcalm hc)⟩
  | read =>
    simp only [if_true, reduceCtorEq, if_false, Prog.wp_bind]
    refine Prog.wp_mono (lhdOperationLogged_wp .read b) (fun _ s hs => ?_) fun _ s hs => ⟨Or.inr hs.1, hs.2⟩
    obtain ⟨hlog, hu, hcalm⟩ := hs
    refine Prog.wp_mono (onDisk_move_wp (hu ▸ h) (hu ▸ hres)) (fun _ t ht => ?_) fun _ t ht => ?_
    · obtain ⟨hlog', hroom, hres', hcalm'⟩ := ht
      exact ⟨hlog'.trans hlog, hroom, hu ▸ hres', fun hc => hcalm' (hu.symm ▸ hcalm hc)⟩
    · exact ⟨Or.inr (ht.1.trans hlog), fun hc => ht.2 (hu.symm ▸ hcalm hc)⟩

/-- **The loop** commands the sectors one after the other, up to a failure. -/
theorem lhdLoop_wp (rw : UioRw) (f : ℕ → ℕ) {n : ℕ} (h : u.Room) (hres : 512 * n ≤ u.uioResid) :
    Prog.wp (Prog.forUp n fun i => lhdSectorLogged rw (f i)) (fun _ s => s.1 = (List.range n).map f)
      (fun _ s => (∃ k ≤ n, s.1 = (List.range k).map f) ∧ ¬ Faultless l u) ([], l, u) := by
  have hsnoc : ∀ k, (List.range k).map f ++ [f k] = (List.range (k + 1)).map f := fun k => by
    rw [List.range_succ, List.map_append, List.map_singleton]
  have hloop := Prog.wp_forUp (n := n) (f := fun i => lhdSectorLogged rw (f i))
    (I := fun i (s : LoggedDisk) => s.1 = (List.range i).map f ∧ s.2.2.Room ∧ s.2.2.uioResid = u.uioResid - 512 * i ∧
      (Faultless l u → Faultless s.2.1 s.2.2))
    (E := fun _ (s : LoggedDisk) => (∃ k ≤ n, s.1 = (List.range k).map f) ∧ ¬ Faultless l u) (s := ([], l, u))
    ⟨rfl, h, rfl, id⟩ fun i hi s hs => ?_
  · exact Prog.wp_mono hloop (fun _ s hs => hs.1) fun _ _ he => he
  · obtain ⟨hlog, hroom, hres', hcalm⟩ := hs
    have hleft : 512 ≤ s.2.2.uioResid := by
      rw [hres']
      omega
    refine Prog.wp_mono (lhdSectorLogged_wp rw (f i) hroom hleft) (fun _ t ht => ?_) fun _ t ht => ?_
    · obtain ⟨hlog', hroom', hres'', hcalm'⟩ := ht
      exact ⟨by rw [hlog', hlog, hsnoc], hroom', by rw [hres'', hres']; omega, fun hc => hcalm' (hcalm hc)⟩
    · refine ⟨?_, fun hc => ht.2 (hcalm hc)⟩
      rcases ht.1 with h1 | h1
      · exact ⟨i, hi.le, h1.trans hlog⟩
      · exact ⟨i + 1, hi, by rw [h1, hlog, hsnoc]⟩

end Sectors

/-! ### Requests -/

/-- The sectors commanded are the `n` from the start of the request on, and lie on the disk. -/
def CommandsFirst (l : Lhd) (u : Uio) (n : ℕ) (log : List ℕ) : Prop :=
  log = List.range' (u.uioOffset / 512) n ∧ ∀ b ∈ log, b < l.dBlocks

/-- The call commands the sectors of the request, each once and in increasing
order, all of them if it succeeds and the first of them if it fails; or it
returns `EINVAL` and commands nothing. -/
def StaysOnDisk (rw : UioRw) (l : Lhd) (u : Uio) : Prop :=
  Prog.wp (devIoLogged rw) (fun _ s => CommandsFirst l u (u.uioResid / 512) s.1)
    (fun e s => e = .einval ∧ s.1 = [] ∨ ∃ n ≤ u.uioResid / 512, CommandsFirst l u n s.1) ([], l, u)

/-- The request is accepted by `dev_tryseek` and by `lhd_io`, whose sum wraps. -/
def EndWraps (d off resid : ℕ) : Prop :=
  off % 512 = 0 ∧ resid % 512 = 0 ∧
    if d = 0 then 0 < resid / 512 ∧ (off / 512 + resid / 512) % 2 ^ 32 = 0
    else off / 512 < d ∧ 2 ^ 32 ≤ off / 512 + resid / 512

instance decidableEndWraps (d off resid : ℕ) : Decidable (EndWraps d off resid) := by
  unfold EndWraps
  infer_instance

theorem wcast_wadd (k len : ℕ) : wadd (wcast k) len = (k + len) % 2 ^ 32 := by
  unfold wadd wcast
  exact Nat.mod_add_mod k _ len

section Requests

variable {l : Lhd} {u : Uio} {rw : UioRw}

variable {Q : Unit → LoggedDisk → Prop} {E : Errno → LoggedDisk → Prop}

/-- The checks of `dev_tryseek` and of `lhd_io`. -/
def Accepted (l : Lhd) (u : Uio) : Prop :=
  u.uioOffset % 512 = 0 ∧ u.uioResid % 512 = 0 ∧ (0 < l.dBlocks → u.uioOffset / 512 < l.dBlocks) ∧
    (u.uioOffset / 512 + u.uioResid / 512) % 2 ^ 32 ≤ l.dBlocks

/-- `dev_tryseek` and `lhd_io` refuse the request, or the loop runs. -/
theorem devIoLogged_wp (hrw : u.uioRw = rw) (hbad : ¬ Accepted l u → E .einval ([], l, u))
    (hgo : Accepted l u → Prog.wp (Prog.forUp (u.uioResid / 512) fun i =>
      lhdSectorLogged u.uioRw (wadd (wcast (u.uioOffset / 512)) i)) Q E ([], l, u)) :
    Prog.wp (devIoLogged rw) Q E ([], l, u) := by
  have hio : (0 < l.dBlocks → u.uioOffset / 512 < l.dBlocks) → Prog.wp lhdIoLogged Q E ([], l, u) := by
    intro hk
    unfold lhdIoLogged
    rw [Prog.wp_bind, Prog.wp_get]
    dsimp only
    rw [wcast_wadd, Prog.wp_ite, Prog.wp_ite]
    refine ⟨fun hal => hbad fun ha => ?_, fun hal => ⟨fun hlt => hbad fun ha => ?_, fun hle => hgo ?_⟩⟩
    · exact hal.elim (fun h => h ha.1) fun h => h ha.2.1
    · exact absurd ha.2.2.2 (Nat.not_le.mpr hlt)
    · exact ⟨by omega, by omega, hk, Nat.le_of_not_lt hle⟩
  unfold devIoLogged devTryseek
  simp only [Prog.wp_bind, Prog.wp_get, Prog.wp_ite, Prog.wp_fail, Prog.wp_pure, Prog.wp_assert]
  refine ⟨fun hpos => ⟨fun hal => hbad fun ha => hal ha.1, fun _ => ⟨fun hle => hbad fun ha => ?_, fun hlt => ?_⟩⟩, fun h0 => ?_⟩
  · exact absurd (ha.2.2.1 hpos) (Nat.not_lt.mpr hle)
  · exact ⟨hrw, hio fun _ => Nat.lt_of_not_le hlt⟩
  · exact ⟨hrw, hio fun hpos => absurd hpos h0⟩

/-- **The end wraps** exactly when a request is accepted that has a sector past
the end of the disk. -/
theorem endWraps_iff (hd : l.dBlocks < 2 ^ 32) (hres : u.uioResid < 2 ^ 32) :
    EndWraps l.dBlocks u.uioOffset u.uioResid ↔
      Accepted l u ∧ 0 < u.uioResid / 512 ∧ l.dBlocks < u.uioOffset / 512 + u.uioResid / 512 := by
  unfold EndWraps Accepted
  split_ifs with h0
  · rw [h0]
    omega
  · omega

/-- A request whose end does not wrap. -/
theorem staysOnDisk (hd : l.dBlocks < 2 ^ 32) (hres : u.uioResid < 2 ^ 32) (hroom : u.Room) (hrw : u.uioRw = rw)
    (h : ¬ EndWraps l.dBlocks u.uioOffset u.uioResid) : StaysOnDisk rw l u := by
  refine devIoLogged_wp hrw (fun _ => Or.inl ⟨rfl, rfl⟩) fun ha => ?_
  have hend : u.uioResid / 512 = 0 ∨ u.uioOffset / 512 + u.uioResid / 512 ≤ l.dBlocks := by
    by_contra hnot
    exact h ((endWraps_iff hd hres).mpr ⟨ha, by omega, by omega⟩)
  have hsectors : ∀ n ≤ u.uioResid / 512, CommandsFirst l u n
      ((List.range n).map fun i => wadd (wcast (u.uioOffset / 512)) i) := by
    intro n hn
    have hmap : ((List.range n).map fun i => wadd (wcast (u.uioOffset / 512)) i) = List.range' (u.uioOffset / 512) n := by
      rw [List.range'_eq_map_range]
      refine List.map_congr_left fun i hi => ?_
      have := List.mem_range.mp hi
      rw [wcast_wadd, Nat.mod_eq_of_lt (by omega)]
    refine ⟨hmap, fun b hb => ?_⟩
    rw [hmap, List.mem_range'_1] at hb
    omega
  refine Prog.wp_mono (lhdLoop_wp u.uioRw _ hroom (by omega)) (fun _ s hs => ?_) fun e s hs => ?_
  · exact hs.symm ▸ hsectors _ le_rfl
  · obtain ⟨⟨n, hn, hlog⟩, -⟩ := hs
    exact Or.inr ⟨n, hn, hlog.symm ▸ hsectors n hn⟩

/-- A request whose end wraps goes through on a disk that works, past its end. -/
theorem not_staysOnDisk (hd : l.dBlocks < 2 ^ 32) (hres : u.uioResid < 2 ^ 32) (hroom : u.Room) (hrw : u.uioRw = rw)
    (hf : Faultless l u) (h : EndWraps l.dBlocks u.uioOffset u.uioResid) : ¬ StaysOnDisk rw l u := by
  obtain ⟨ha, hlen, hpast⟩ := (endWraps_iff hd hres).mp h
  intro hstays
  have hruns : Prog.wp (devIoLogged rw) (fun _ _ => True) (fun _ _ => False) ([], l, u) :=
    devIoLogged_wp hrw (fun hna => hna ha) fun _ =>
      Prog.wp_mono (lhdLoop_wp u.uioRw _ hroom (by omega)) (fun _ _ _ => trivial) fun _ _ he => he.2 hf
  have hboth := Prog.wp_and hstays hruns
  unfold Prog.wp at hboth
  cases hrun : devIoLogged rw ([], l, u) with
  | ok a s =>
    rw [hrun] at hboth
    obtain ⟨⟨hlog, hon⟩, -⟩ := hboth
    -- the last sector of the request
    have hlast : u.uioOffset / 512 + (u.uioResid / 512 - 1) ∈ s.1 := by
      rw [hlog, List.mem_range'_1]
      omega
    have := hon _ hlast
    omega
  | fail e s =>
    rw [hrun] at hboth
    exact hboth.2
  | stop =>
    rw [hrun] at hboth
    exact hboth

end Requests

/-- **Transfers of the raw disk stay on it exactly while the end of the request
does not wrap in 32 bits.** For a request of `resid` bytes at `off` on a disk of
`d` sectors, whatever the card reports and wherever the data goes. -/
theorem raw_disk_stays_iff {d off resid : ℕ} (hd : d < 2 ^ 32) (hres : resid < 2 ^ 32) :
    (∀ rw l u, l.dBlocks = d → u.uioOffset = off → u.uioResid = resid → u.Room → u.uioRw = rw → StaysOnDisk rw l u) ↔
      ¬ EndWraps d off resid := by
  constructor
  · intro h hwraps
    let l : Lhd := ⟨d, fun _ => 0, fun _ => Bytes.ofFun fun _ => 0, fun _ => .ok⟩
    let u : Uio := uioKinit (fun _ => 0) 0 resid off .read
    have hroom : u.Room := ⟨by simpa [u, uioKinit] using hres, by simp [u, uioKinit, iovTotal]⟩
    exact not_staysOnDisk (l := l) (u := u) hd hres hroom rfl ⟨fun _ => rfl, rfl⟩ hwraps
      (h .read l u rfl rfl rfl hroom rfl)
  · rintro h rw l u rfl rfl rfl hroom hrw
    exact staysOnDisk hd hres hroom hrw h

/-- **Two sectors at the end of the largest disk.** The second one is not on
the disk, and the request is accepted. -/
theorem raw_disk_past_end :
    ¬ StaysOnDisk .read ⟨2 ^ 32 - 1, fun _ => 0, fun _ => Bytes.ofFun fun _ => 0, fun _ => .ok⟩
      (uioKinit (fun _ => 0) 0 1024 ((2 ^ 32 - 2) * 512) .read) := by
  refine not_staysOnDisk (by norm_num) (by norm_num [uioKinit]) ⟨?_, ?_⟩ rfl ⟨fun _ => rfl, rfl⟩ ?_
  · simp [uioKinit]
  · simp [uioKinit, iovTotal]
  · norm_num [EndWraps, uioKinit]

/-- A disk of a hundred sectors, and two of them. -/
theorem raw_disk_stays_hundred : ¬ EndWraps 100 0 1024 ∧
    StaysOnDisk .read ⟨100, fun _ => 0, fun _ => Bytes.ofFun fun _ => 0, fun _ => .ok⟩
      (uioKinit (fun _ => 0) 0 1024 0 .read) := by
  have h : ¬ EndWraps 100 0 1024 := by decide
  refine ⟨h, (raw_disk_stays_iff (by norm_num) (by norm_num)).mpr h .read _ _ rfl rfl rfl ⟨?_, ?_⟩ rfl⟩
  · simp [uioKinit]
  · simp [uioKinit, iovTotal]

end Os161
