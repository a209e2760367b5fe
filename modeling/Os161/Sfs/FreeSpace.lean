/-
# The free space of a new volume

`mksfs` and the kernel on the same volume: the freemap one of them writes,
the other mounts and allocates from (`sfs_balloc`, `sfs_bfree`).

A run allocates and frees in any order, on a disk that may report errors. A
block it has allocated and not freed is in `allocated`. What is asked of every
state of a run is `FreeState.Exact`; of the volume, `FreeSpace`.

The size of the freemap is computed in 32 bits by both programs, and a volume
of more than `2 ^ 32 - 4096` blocks gets a freemap of no blocks. `mksfs`
accepts it; the kernel finds no space on it (`mksfs_freeSpace_iff`).
-/
import Os161.Sfs.Mksfs
import Os161.Lib.Run

namespace Os161

/-- The first block after the freemap of a volume of `n` blocks. -/
def sfsFirstFree (n : ℕ) : ℕ := sfsFreemapStart + sfsFreemapblocks n

/-- A call of the allocator and what it returned. -/
inductive FreeCall
  | balloc (result : Except Errno ℕ)
  | bfree (block : ℕ)

/-- A mounted volume and the blocks that are allocated. -/
structure FreeState where
  fs : SfsFs Lhd
  allocated : Finset ℕ

/-- A call that returns. -/
inductive FreeStep : FreeState → FreeCall → FreeState → Prop
  | balloc {s : FreeState} {b : ℕ} {t : SfsFs Lhd} : sfsBalloc s.fs = .ok b t →
      FreeStep s (.balloc (.ok b)) ⟨t, insert b s.allocated⟩
  | refused {s : FreeState} {e : Errno} {t : SfsFs Lhd} : sfsBalloc s.fs = .fail e t →
      FreeStep s (.balloc (.error e)) ⟨t, s.allocated⟩
  | bfree {s : FreeState} {b : ℕ} {t : SfsFs Lhd} : b ∈ s.allocated → sfsBfree b s.fs = .ok () t →
      FreeStep s (.bfree b) ⟨t, s.allocated.erase b⟩

/-- What the next call does: `sfs_balloc` returns a block of the volume that
is not allocated, it fails exactly when there is none and then with `ENOSPC`,
and it stops the machine only if the card refuses the sector. `sfs_bfree`
takes every allocated block. -/
structure FreeState.Exact (n : ℕ) (s : FreeState) : Prop where
  balloc : ∀ b t, sfsBalloc s.fs = .ok b t → sfsFirstFree n ≤ b ∧ b < n ∧ b ∉ s.allocated
  enospc : (∃ t, sfsBalloc s.fs = .fail .enospc t) ↔ s.allocated.card = n - sfsFirstFree n
  errors : ∀ e t, sfsBalloc s.fs = .fail e t → e = .enospc
  stops : sfsBalloc s.fs = .stop → s.fs.sfsDevice.status 0 = .invsect
  bfree : ∀ b ∈ s.allocated, ∃ t, sfsBfree b s.fs = .ok () t

/-- **`mksfs` and the kernel agree** on the free space of the volume of `n`
blocks in `D`. -/
structure FreeSpace (n : ℕ) (D : ℕ → Block) : Prop where
  image : ∀ b < sfsFreemapbits n, freemapBit D b = true ↔
    b = sfsSuperBlock ∨ b = sfsRootdirIno ∨ sfsFreemapStart ≤ b ∧ b < sfsFirstFree n ∨ n ≤ b
  mounts : ∀ m : SfsMount Lhd, m.fs.sfsDevice.sectors = D → Works n m.fs → ∃ t, sfsDomount 512 m = .ok () t
  runs : ∀ (dBlocksize : ℕ) (m t : SfsMount Lhd) (calls : List FreeCall) (s : FreeState),
    m.fs.sfsDevice.sectors = D → m.fs.sfsDevice.dBlocks = n → sfsDomount dBlocksize m = .ok () t →
    Run FreeStep ⟨t.fs, ∅⟩ calls s → s.Exact n

/-! ### The invariant of a run -/

/-- The freemap marks the system blocks, the bits past the end and what is
allocated. -/
structure FreeInv (n : ℕ) (s : FreeState) : Prop where
  sbNblocks : s.fs.sbNblocks = n
  dBlocks : s.fs.sfsDevice.dBlocks = n
  nbits : s.fs.sfsFreemap.nbits = sfsFreemapbits n
  bits : ∀ b < sfsFreemapbits n, s.fs.sfsFreemap.bit b = decide (b < sfsFirstFree n ∨ n ≤ b ∨ b ∈ s.allocated)
  allocated : s.allocated ⊆ Finset.Ico (sfsFirstFree n) n

variable {n : ℕ} {s : FreeState}

theorem le_sfsFreemapbits (h : n + 4095 < 2 ^ 32) : n ≤ sfsFreemapbits n := by
  rw [sfsFreemapbits_eq, sfsFreemapblocks_of_lt h]
  omega

/-- The freemap is full: nothing changes. -/
theorem sfsBalloc_of_full {fs : SfsFs Lhd} (ha : bitmapAlloc fs.sfsFreemap = .fail .enospc fs.sfsFreemap) :
    sfsBalloc fs = .fail .enospc fs := by
  show Prog.andThen (Sfs.freemap bitmapAlloc) _ fs = _
  simp only [Prog.andThen, Sfs.freemap, Prog.zoom, ha]

/-- A bit is found: the rest of `sfs_balloc` clears the block. -/
theorem sfsBalloc_of_alloc {fs : SfsFs Lhd} {b : ℕ} {c : Freemap} (ha : bitmapAlloc fs.sfsFreemap = .ok b c)
    (hb : b < fs.sbNblocks) (hrange : fs.sfsDevice.InRange b) :
    (∃ l', sfsBalloc fs = .ok b { fs with sfsFreemap := c, sfsFreemapdirty := true, sfsDevice := l' } ∧
      l'.dBlocks = fs.sfsDevice.dBlocks) ∨ (sfsBalloc fs = .stop ∧ fs.sfsDevice.status 0 = .invsect) := by
  obtain ⟨f, hf, hrun⟩ : ∃ f : Except Errno Unit → Prog Errno (SfsFs Lhd) ℕ, f (.ok ()) = pure b ∧
      sfsBalloc fs = (Prog.attempt (sfsClearblock b) >>= f) { fs with sfsFreemap := c, sfsFreemapdirty := true } := by
    refine ⟨fun result => result.casesOn (fun e => Sfs.freemap (bitmapUnmark b) >>= fun _ => Prog.fail e)
      fun _ => pure b, rfl, ?_⟩
    show Prog.andThen (Sfs.freemap bitmapAlloc) _ fs = _
    simp only [Prog.andThen, Sfs.freemap, Prog.zoom, ha]
    show Prog.andThen (Prog.assert (b < fs.sbNblocks)) _ _ = _
    simp only [Prog.andThen, Prog.assert, hb, if_true]
    refine congrFun (congrArg (Prog.attempt (sfsClearblock b) >>= ·) (funext fun result => ?_)) _
    cases result <;> rfl
  rw [hrun]
  show (∃ l', Prog.andThen _ f _ = _ ∧ _) ∨ Prog.andThen _ f _ = _ ∧ _
  obtain ⟨l', hw, hd, -⟩ | ⟨hw, hst⟩ := sfsWriteblock_cases Block.zeros hrange
  · refine Or.inl ⟨l', ?_, hd⟩
    simp only [Prog.andThen, Prog.attempt, sfsClearblock, Sfs.dev, Prog.zoom, hw, hf]
    rfl
  · refine Or.inr ⟨?_, hst⟩
    simp only [Prog.andThen, Prog.attempt, sfsClearblock, Sfs.dev, Prog.zoom, hw]

/-- A block the freemap does not mark is free. -/
theorem FreeInv.free (h : FreeInv n s) {b : ℕ} (hb : b < sfsFreemapbits n) (hbit : s.fs.sfsFreemap.bit b = false) :
    b ∈ Finset.Ico (sfsFirstFree n) n ∧ b ∉ s.allocated := by
  have hfree : ¬ (b < sfsFirstFree n ∨ n ≤ b ∨ b ∈ s.allocated) :=
    of_decide_eq_false ((h.bits b hb).symm.trans hbit)
  refine ⟨Finset.mem_Ico.mpr ⟨by omega, by omega⟩, fun hm => hfree (Or.inr (Or.inr hm))⟩

/-- If the freemap is full, all the space is allocated. -/
theorem FreeInv.full (h : FreeInv n s) (hn : n + 4095 < 2 ^ 32)
    (hfull : ∀ b < s.fs.sfsFreemap.nbits, s.fs.sfsFreemap.bit b = true) :
    s.allocated = Finset.Ico (sfsFirstFree n) n := by
  refine h.allocated.antisymm fun b hb => ?_
  obtain ⟨hlo, hhi⟩ := Finset.mem_Ico.mp hb
  have hlt : b < sfsFreemapbits n := hhi.trans_le (le_sfsFreemapbits hn)
  rcases of_decide_eq_true ((h.bits b hlt).symm.trans (hfull b (h.nbits ▸ hlt))) with h1 | h1 | h1
  · exact absurd h1 (Nat.not_lt.mpr hlo)
  · exact absurd h1 (Nat.not_le.mpr hhi)
  · exact h1

/-- **The three things `sfs_balloc` can do.** -/
theorem sfsBalloc_cases (hn : n + 4095 < 2 ^ 32) (h : FreeInv n s) :
    (∃ b t, sfsBalloc s.fs = .ok b t ∧ b ∈ Finset.Ico (sfsFirstFree n) n ∧ b ∉ s.allocated ∧
      FreeInv n ⟨t, insert b s.allocated⟩) ∨
    (sfsBalloc s.fs = .fail .enospc s.fs ∧ s.allocated = Finset.Ico (sfsFirstFree n) n) ∨
    (sfsBalloc s.fs = .stop ∧ s.fs.sfsDevice.status 0 = .invsect ∧ s.allocated ≠ Finset.Ico (sfsFirstFree n) n) := by
  have h8 : s.fs.sfsFreemap.nbits % 8 = 0 := by
    rw [h.nbits, sfsFreemapbits_eq]
    omega
  have hspec := bitmapAlloc_wp h8
  unfold Prog.wp at hspec
  cases ha : bitmapAlloc s.fs.sfsFreemap with
  | stop => rw [ha] at hspec; exact absurd hspec id
  | fail e c =>
    rw [ha] at hspec
    obtain ⟨rfl, rfl, hfull⟩ := hspec
    exact Or.inr (Or.inl ⟨sfsBalloc_of_full ha, h.full hn hfull⟩)
  | ok b c =>
    rw [ha] at hspec
    obtain ⟨hb, hclear, hnb, hbits⟩ := hspec
    obtain ⟨hmem, hnot⟩ := h.free (h.nbits ▸ hb) hclear
    have hlt : b < n := (Finset.mem_Ico.mp hmem).2
    have hrange : s.fs.sfsDevice.InRange b :=
      Lhd.inRange_of_lt (hlt.trans_eq h.dBlocks.symm) (by rw [h.dBlocks]; omega)
    obtain ⟨l', hrun, hd⟩ | ⟨hrun, hst⟩ := sfsBalloc_of_alloc ha (hlt.trans_eq h.sbNblocks.symm) hrange
    · refine Or.inl ⟨b, _, hrun, hmem, hnot, h.sbNblocks, hd.trans h.dBlocks, hnb.trans h.nbits, fun j hj => ?_,
        Finset.insert_subset hmem h.allocated⟩
      show c.bit j = _
      rw [hbits, h.bits j hj, ← Bool.decide_or]
      refine decide_eq_decide.mpr ?_
      rw [Finset.mem_insert]
      tauto
    · exact Or.inr (Or.inr ⟨hrun, hst, fun heq => hnot (heq ▸ hmem)⟩)

/-- `sfs_bfree` of an allocated block. -/
theorem sfsBfree_ok (hn : n + 4095 < 2 ^ 32) (h : FreeInv n s) {b : ℕ} (hb : b ∈ s.allocated) :
    ∃ t, sfsBfree b s.fs = .ok () t ∧ FreeInv n ⟨t, s.allocated.erase b⟩ := by
  obtain ⟨hlo, hhi⟩ := Finset.mem_Ico.mp (h.allocated hb)
  have hlt : b < sfsFreemapbits n := hhi.trans_le (le_sfsFreemapbits hn)
  have hset : s.fs.sfsFreemap.bit b = true := (h.bits b hlt).trans (decide_eq_true (Or.inr (Or.inr hb)))
  have hspec := bitmapUnmark_wp (h.nbits ▸ hlt) hset
  unfold Prog.wp at hspec
  cases hu : bitmapUnmark b s.fs.sfsFreemap with
  | stop => rw [hu] at hspec; exact absurd hspec id
  | fail e c => rw [hu] at hspec; exact absurd hspec id
  | ok a c =>
    rw [hu] at hspec
    obtain ⟨hnb, hbits⟩ := hspec
    refine ⟨{ s.fs with sfsFreemap := c, sfsFreemapdirty := true }, ?_, h.sbNblocks, h.dBlocks, hnb.trans h.nbits,
      fun j hj => ?_, (Finset.erase_subset _ _).trans h.allocated⟩
    · show Prog.andThen (Sfs.freemap (bitmapUnmark b)) _ s.fs = _
      simp only [Prog.andThen, Sfs.freemap, Prog.zoom, hu]
      rfl
    · show c.bit j = _
      rw [hbits, h.bits j hj, ← decide_not, ← Bool.decide_and]
      refine decide_eq_decide.mpr ?_
      rw [Finset.mem_erase]
      constructor
      · tauto
      · rintro (h1 | h1 | h1)
        · exact ⟨Or.inl h1, by omega⟩
        · exact ⟨Or.inr (Or.inl h1), by omega⟩
        · exact ⟨Or.inr (Or.inr h1.2), h1.1⟩

theorem FreeInv.step {c : FreeCall} {t : FreeState} (hn : n + 4095 < 2 ^ 32) (h : FreeInv n s)
    (hst : FreeStep s c t) : FreeInv n t := by
  cases hst with
  | balloc hr =>
    obtain ⟨b, u, hu, -, -, hinv⟩ | ⟨hf, -⟩ | ⟨hs, -⟩ := sfsBalloc_cases hn h
    · rw [hr] at hu
      cases hu
      exact hinv
    · rw [hr] at hf; cases hf
    · rw [hr] at hs; cases hs
  | refused hr =>
    obtain ⟨b, u, hu, -, -, -⟩ | ⟨hf, -⟩ | ⟨hs, -⟩ := sfsBalloc_cases hn h
    · rw [hr] at hu; cases hu
    · rw [hr] at hf
      cases hf
      exact h
    · rw [hr] at hs; cases hs
  | bfree hb hr =>
    obtain ⟨u, hu, hinv⟩ := sfsBfree_ok hn h hb
    rw [hr] at hu
    cases hu
    exact hinv

theorem FreeInv.exact (hn : n + 4095 < 2 ^ 32) (h : FreeInv n s) : s.Exact n := by
  have hcard : s.allocated = Finset.Ico (sfsFirstFree n) n ↔ s.allocated.card = n - sfsFirstFree n := by
    rw [← Nat.card_Ico]
    exact ⟨congrArg Finset.card, fun hc => Finset.eq_of_subset_of_card_le h.allocated hc.ge⟩
  have hfree := fun b hb => (sfsBfree_ok hn h (b := b) hb).imp fun _ ht => ht.1
  obtain ⟨b, u, hu, hmem, hnot, -⟩ | ⟨hf, hall⟩ | ⟨hs, hst, hne⟩ := sfsBalloc_cases hn h
  · obtain ⟨hlo, hhi⟩ := Finset.mem_Ico.mp hmem
    refine ⟨?_, ?_, ?_, ?_, hfree⟩ <;> simp only [hu, reduceCtorEq, exists_false, false_iff, IsEmpty.forall_iff, implies_true]
    · rintro _ _ ⟨⟩
      exact ⟨hlo, hhi, hnot⟩
    · exact fun hc => hnot (hcard.mpr hc ▸ hmem)
  · refine ⟨?_, ?_, ?_, ?_, hfree⟩ <;> simp only [hf, reduceCtorEq, IsEmpty.forall_iff, implies_true]
    · exact ⟨fun _ => hcard.mp hall, fun _ => ⟨_, rfl⟩⟩
    · rintro _ _ ⟨⟩
      rfl
  · refine ⟨?_, ?_, ?_, ?_, hfree⟩ <;> simp only [hs, reduceCtorEq, exists_false, false_iff, IsEmpty.forall_iff, implies_true]
    · exact fun hc => hne (hcard.mpr hc)
    · exact fun _ => hst

/-! ### The volume `mksfs` made -/

variable {D : ℕ → Block}

theorem Made.mounts (h : Made n D) (hn : n < 2 ^ 32) (hroom : sfsFirstFree n ≤ n) {m : SfsMount Lhd}
    (hD : m.fs.sfsDevice.sectors = D) (hw : Works n m.fs) : ∃ t, sfsDomount 512 m = .ok () t := by
  have hnb : (m.fs.sfsDevice.sectors 0).sbNblocks = n := hD ▸ h.nblocks
  have hok := sfsDomount_ok hw hn (hD ▸ h.magic) (by rw [hnb]; exact hroom)
  unfold Prog.wp at hok
  cases hm : sfsDomount 512 m with
  | ok a t => exact ⟨t, rfl⟩
  | fail e t => rw [hm] at hok; exact absurd hok id
  | stop => rw [hm] at hok; exact absurd hok id

theorem Made.mounted (h : Made n D) (hn : n < 2 ^ 32) (hroom : sfsFirstFree n ≤ n) {m t : SfsMount Lhd} {dBlocksize : ℕ}
    (hD : m.fs.sfsDevice.sectors = D) (hd : m.fs.sfsDevice.dBlocks = n) (hm : sfsDomount dBlocksize m = .ok () t) :
    Mounting m.fs.sfsDevice n (sfsFreemapblocks n) t.fs := by
  have hnb : (m.fs.sfsDevice.sectors 0).sbNblocks = n := hD ▸ h.nblocks
  have hret := sfsDomount_returns (hd.trans_lt hn) (by rw [hnb, hd]; exact hroom) () t hm
  rwa [hnb] at hret

theorem Made.freeInv (h : Made n D) (hn : n < 2 ^ 32) (hroom : sfsFirstFree n ≤ n) {m t : SfsMount Lhd} {dBlocksize : ℕ}
    (hD : m.fs.sfsDevice.sectors = D) (hd : m.fs.sfsDevice.dBlocks = n) (hm : sfsDomount dBlocksize m = .ok () t) :
    FreeInv n ⟨t.fs, ∅⟩ := by
  have hmount := h.mounted hn hroom hD hd hm
  refine ⟨hmount.sbNblocks, hmount.dBlocks.trans hd, hmount.nbits, fun b hb => ?_, Finset.empty_subset _⟩
  have hb' : b < sfsFreemapblocks n * 4096 := by
    rwa [sfsFreemapbits_eq] at hb
  refine (hmount.freemap.bit hb').trans ?_
  rw [hD, h.freemap b hb]
  simp only [Finset.notMem_empty, or_false]
  rfl

/-- **The volume is exact** if the size of its freemap does not wrap. -/
theorem Made.freeSpace (h : Made n D) (hn : n + 4095 < 2 ^ 32) (hroom : sfsFirstFree n ≤ n) : FreeSpace n D where
  image := by
    intro b hb
    rw [h.freemap b hb, decide_eq_true_iff]
    unfold sfsFirstFree sfsSuperBlock sfsRootdirIno sfsFreemapStart
    omega
  mounts := fun m hD hw => h.mounts (by omega) hroom hD hw
  runs := by
    intro dBlocksize m t calls s hD hd hm hrun
    have h0 := h.freeInv (by omega) hroom hD hd hm
    exact (hrun.invariant h0 fun _ _ _ hi hst => hi.step hn hst).exact hn

/-- A freemap of no blocks. -/
theorem sfsFreemapblocks_wrapped (hn : n < 2 ^ 32) (hwrap : 2 ^ 32 ≤ n + 4095) : sfsFreemapblocks n = 0 := by
  rw [sfsFreemapblocks_eq, wadd]
  omega

theorem sfsBalloc_no_freemap {fs : SfsFs Lhd} (h : fs.sfsFreemap.nbits = 0) : sfsBalloc fs = .fail .enospc fs := by
  refine sfsBalloc_of_full ?_
  unfold bitmapAlloc
  rw [h]
  rfl

/-- A disk that works, with `D` on it. -/
def workingMount (n : ℕ) (D : ℕ → Block) : SfsMount Lhd where
  fs :=
    { sbNblocks := 0
      sfsDevice := { dBlocks := n, lhBuf := fun _ => 0, sectors := D, status := fun _ => .ok }
      sfsVnodes := []
      sfsFreemap := bitmapCreate 0
      sfsFreemapdirty := false
      sv := fun _ => ⟨Block.zeros, false, 0⟩
      kmallocs := fun _ => true }
  sfsSb := Block.zeros
  sfsSuperdirty := false

theorem workingMount_works (n : ℕ) (D : ℕ → Block) : Works n (workingMount n D).fs :=
  ⟨fun _ => rfl, fun _ => rfl, rfl⟩

/-- **A volume without a freemap** is mounted, and there is no space on it. -/
theorem Made.wrapped (h : Made n D) (hn : n < 2 ^ 32) (hwrap : 2 ^ 32 ≤ n + 4095) :
    ∃ t, sfsDomount 512 (workingMount n D) = .ok () t ∧ sfsBalloc t.fs = .fail .enospc t.fs := by
  have hroom : sfsFirstFree n ≤ n := by
    unfold sfsFirstFree sfsFreemapStart
    rw [sfsFreemapblocks_wrapped hn hwrap]
    omega
  obtain ⟨t, ht⟩ := h.mounts hn hroom rfl (workingMount_works n D)
  refine ⟨t, ht, sfsBalloc_no_freemap ?_⟩
  rw [(h.mounted hn hroom rfl rfl ht).nbits, sfsFreemapbits_eq, sfsFreemapblocks_wrapped hn hwrap, Nat.zero_mul]

theorem mksfs_made {volname stem : List UInt8} (hname : mksfsVolname volname = some stem)
    (hlen : stem.length < sfsVolnameSize) (hn : n < 2 ^ 32) (hmax : sfsFreemapblocks n ≤ maxFreemapblocks)
    (hroom : sfsFirstFree n ≤ n) : ∃ m, mksfs volname n ⟨fun _ => 0, D⟩ = .ok () m ∧ Made n m.disk := by
  have hzero : ∀ k, Bitmap.bit (fun _ => 0 : ℕ → BitVec 8) k = false := fun k => BitVec.getLsbD_zero
  have hspec := mksfs_wp (E := fun _ _ => False) (m := ⟨fun _ => 0, D⟩) hname hlen hzero hn hmax hroom
  unfold Prog.wp at hspec
  cases hm : mksfs volname n ⟨fun _ => 0, D⟩ with
  | fail e t => rw [hm] at hspec; exact absurd hspec id
  | stop => rw [hm] at hspec; exact absurd hspec id
  | ok a m =>
    rw [hm] at hspec
    exact ⟨m, rfl, hspec⟩

/-- **`mksfs` and the kernel agree on the free space** of a volume of `n`
blocks, for every `n` that `mksfs` accepts, exactly when `n` rounded up to
whole sectors of the freemap fits in 32 bits. -/
theorem mksfs_freeSpace_iff (volname stem : List UInt8) (n : ℕ) (D : ℕ → Block) (hname : mksfsVolname volname = some stem)
    (hlen : stem.length < sfsVolnameSize) (hn : n < 2 ^ 32) (hmax : sfsFreemapblocks n ≤ maxFreemapblocks)
    (hroom : sfsFirstFree n ≤ n) :
    ∃ m, mksfs volname n ⟨fun _ => 0, D⟩ = .ok () m ∧ (FreeSpace n m.disk ↔ n + 4095 < 2 ^ 32) := by
  obtain ⟨m, hm, hmade⟩ := mksfs_made (D := D) hname hlen hn hmax hroom
  refine ⟨m, hm, fun hspace => ?_, fun hfit => hmade.freeSpace hfit hroom⟩
  by_contra hwrap
  rw [Nat.not_lt] at hwrap
  obtain ⟨t, ht, hfull⟩ := hmade.wrapped hn hwrap
  have hexact := hspace.runs 512 (workingMount n m.disk) t [] ⟨t.fs, ∅⟩ rfl rfl ht Run.nil
  have hcard := hexact.enospc.mp ⟨t.fs, hfull⟩
  rw [Finset.card_empty, sfsFirstFree, sfsFreemapStart, sfsFreemapblocks_wrapped hn hwrap] at hcard
  omega

/-- A volume `sfs:` of four blocks has one free block. -/
theorem mksfs_freeSpace_four : sfsFirstFree 4 = 3 ∧
    ∃ m, mksfs [115, 102, 115, 58] 4 ⟨fun _ => 0, fun _ => Block.zeros⟩ = .ok () m ∧ FreeSpace 4 m.disk := by
  have hfb : sfsFreemapblocks 4 = 1 := by
    rw [sfsFreemapblocks_of_lt (by decide)]
  have hfirst : sfsFirstFree 4 = 3 := by
    unfold sfsFirstFree
    rw [hfb]
    rfl
  obtain ⟨m, hm, hiff⟩ := mksfs_freeSpace_iff [115, 102, 115, 58] [115, 102, 115] 4 (fun _ => Block.zeros) (by decide)
    (by decide) (by decide) (by rw [hfb]; decide) (by rw [hfirst]; decide)
  exact ⟨hfirst, m, hm, hiff.mpr (by decide)⟩

/-- `mksfs` makes a volume of `2 ^ 32 - 1` blocks, the kernel mounts it, and
the first `sfs_balloc` reports `ENOSPC` although no block is allocated. -/
theorem mksfs_huge_no_space : ∃ m t, mksfs [] (2 ^ 32 - 1) ⟨fun _ => 0, fun _ => Block.zeros⟩ = .ok () m ∧
    sfsDomount 512 (workingMount (2 ^ 32 - 1) m.disk) = .ok () t ∧ sfsBalloc t.fs = .fail .enospc t.fs ∧
    (∅ : Finset ℕ).card ≠ 2 ^ 32 - 1 - sfsFirstFree (2 ^ 32 - 1) := by
  have hn : 2 ^ 32 - 1 < 2 ^ 32 := by omega
  have hwrap : 2 ^ 32 ≤ 2 ^ 32 - 1 + 4095 := by omega
  generalize 2 ^ 32 - 1 = n at hn hwrap ⊢
  have hfb := sfsFreemapblocks_wrapped hn hwrap
  have hroom : sfsFirstFree n = 2 := congrArg (sfsFreemapStart + ·) hfb
  obtain ⟨m, hm, hmade⟩ := mksfs_made (D := fun _ => Block.zeros) (rfl : mksfsVolname [] = some []) (by decide) hn
    (hfb.trans_le (Nat.zero_le _)) (hroom.trans_le (by omega))
  obtain ⟨t, ht, hfull⟩ := hmade.wrapped hn hwrap
  refine ⟨m, t, hm, ht, hfull, ?_⟩
  rw [Finset.card_empty, hroom]
  omega

end Os161
