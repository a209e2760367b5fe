/-
# One file of a volume

What a transfer on one file needs to know of the volume: the file is loaded,
its pointers name blocks of the volume that the freemap marks, each block once,
and the superblock and what is past the end are marked (`OneFile`). Nothing is
asked of the other files, and nothing of the size of the volume.

`Grown v w ino`: `w` has the file with all its blocks and at most new ones, which
were free, where `v` has holes. `Extended v w ino`: the new ones are blocks of
zeros, so the file reads the same. The three ways to get one are
`OneFile.attach_direct`, `OneFile.attach_indirect` and `OneFile.attach_entry`.
-/
import Os161.Sfs.Blocks

namespace Os161

open Volume

/-- The pointers of the loaded file `ino` name marked blocks, each one once. -/
structure OneFile (v : Volume) (ino : ℕ) : Prop where
  loaded : ino ∈ v.vnodes
  word : v.nblocks < 2 ^ 32
  zero : v.marks 0 = true
  past : ∀ b, v.marks b = false → b < v.nblocks
  used : ∀ p, v.ptr ino p ≠ 0 → v.ptr ino p < v.nblocks ∧ v.marks (v.ptr ino p) = true
  inj : ∀ p q, v.ptr ino p ≠ 0 → v.ptr ino p = v.ptr ino q → p = q

/-- The file keeps its blocks; where it had holes it may have blocks that were
free. -/
structure Grown (v w : Volume) (ino : ℕ) : Prop where
  file : OneFile w ino
  nblocks : w.nblocks = v.nblocks
  block : ∀ k, v.fileBlock ino k ≠ 0 → w.fileBlock ino k = v.fileBlock ino k
  marks : ∀ b, v.marks b = true → w.marks b = true
  fresh : ∀ k, w.fileBlock ino k ≠ 0 → w.fileBlock ino k = v.fileBlock ino k ∨ v.marks (w.fileBlock ino k) = false

/-- The same file, at most with holes filled by blocks of zeros. -/
structure Extended (v w : Volume) (ino : ℕ) : Prop extends Grown v w ino where
  header : SameHeader (v.inode ino) (w.inode ino)
  byte : w.byte ino = v.byte ino

section Grown

variable {u v w : Volume} {ino : ℕ}

theorem Grown.refl (h : OneFile v ino) : Grown v v ino :=
  ⟨h, rfl, fun _ _ => rfl, fun _ hb => hb, fun _ _ => Or.inl rfl⟩

theorem Grown.trans (h : Grown u v ino) (h' : Grown v w ino) : Grown u w ino := by
  refine ⟨h'.file, h'.nblocks.trans h.nblocks, fun k hk => ?_, fun b hb => h'.marks b (h.marks b hb), fun k hk => ?_⟩
  · have hv := h.block k hk
    exact (h'.block k (by rw [hv]; exact hk)).trans hv
  · rcases h'.fresh k hk with he | hfree
    · rw [he] at hk ⊢
      exact h.fresh k hk
    · exact Or.inr (Bool.eq_false_of_not_eq_true fun ht => by
        rw [h.marks _ ht] at hfree
        cases hfree)

/-- On a full volume no hole is filled. -/
theorem Grown.full (h : Grown v w ino) (hfull : ∀ b, v.marks b = true) (k : ℕ) :
    w.fileBlock ino k = v.fileBlock ino k := by
  by_cases hk : w.fileBlock ino k = 0
  · by_contra hne
    have hv : v.fileBlock ino k ≠ 0 := fun h0 => hne (hk.trans h0.symm)
    exact hne (h.block k hv)
  · refine (h.fresh k hk).resolve_right fun hfree => ?_
    rw [hfull] at hfree
    cases hfree

theorem SameHeader.trans {i j k : Block} (h : SameHeader i j) (h' : SameHeader j k) : SameHeader i k :=
  ⟨h'.size.trans h.size, h'.type.trans h.type, h'.links.trans h.links⟩

theorem Extended.refl (h : OneFile v ino) : Extended v v ino := ⟨.refl h, .refl _, rfl⟩

theorem Extended.trans (h : Extended u v ino) (h' : Extended v w ino) : Extended u w ino :=
  ⟨h.toGrown.trans h'.toGrown, h.header.trans h'.header, h'.byte.trans h.byte⟩

end Grown

namespace OneFile

variable {v w : Volume} {ino b : ℕ} (h : OneFile v ino)

include h

theorem block_used {k : ℕ} (hk : v.fileBlock ino k ≠ 0) :
    v.fileBlock ino k < v.nblocks ∧ v.marks (v.fileBlock ino k) = true :=
  h.used (.data ⟨k, lt_of_fileBlock_ne_zero hk⟩) hk

theorem block_inj {k k' : ℕ} (hk : v.fileBlock ino k ≠ 0) (he : v.fileBlock ino k = v.fileBlock ino k') : k = k' := by
  have hk' : v.fileBlock ino k' ≠ 0 := he ▸ hk
  have := h.inj (.data ⟨k, lt_of_fileBlock_ne_zero hk⟩) (.data ⟨k', lt_of_fileBlock_ne_zero hk'⟩) hk he
  simpa using this

/-- The indirect block is no data block. -/
theorem block_ne_indirect {k : ℕ} (hk : v.fileBlock ino k ≠ 0) : v.fileBlock ino k ≠ (v.inode ino).sfiIndirect :=
  fun he => nomatch h.inj (.data ⟨k, lt_of_fileBlock_ne_zero hk⟩) .indirect hk he

theorem ptr_ne_free (hb : v.marks b = false) {p : FilePtr} (hp : v.ptr ino p ≠ 0) : v.ptr ino p ≠ b := by
  rintro rfl
  rw [(h.used p hp).2] at hb
  cases hb

theorem free_ne_zero (hb : v.marks b = false) : b ≠ 0 := by
  rintro rfl
  rw [h.zero] at hb
  cases hb

theorem free_word (hb : v.marks b = false) : b < 2 ^ 32 := (h.past b hb).trans h.word

/-- **A new block for an empty pointer.** -/
theorem attach (hnb : w.nblocks = v.nblocks) (hvn : w.vnodes = v.vnodes)
    (hmarks : w.marks = Function.update v.marks b true) (hhdr : SameHeader (v.inode ino) (w.inode ino)) {p : FilePtr}
    (hzero : v.ptr ino p = 0) (hfree : v.marks b = false) (hptr : w.ptr ino p = b)
    (hptrs : ∀ q, q ≠ p → w.ptr ino q = v.ptr ino q)
    (hsec : ∀ k, v.fileBlock ino k ≠ 0 → w.sec (v.fileBlock ino k) = v.sec (v.fileBlock ino k))
    (hnew : p ≠ .indirect → w.sec b = Block.zeros) : Extended v w ino := by
  have hmono : ∀ c, v.marks c = true → w.marks c = true := fun c hc => by
    have hne : c ≠ b := by
      rintro rfl
      rw [hfree] at hc
      cases hc
    rw [hmarks, Function.update_of_ne hne, hc]
  have hblock : ∀ k, v.fileBlock ino k ≠ 0 → w.fileBlock ino k = v.fileBlock ino k := fun k hk => by
    refine hptrs (.data ⟨k, lt_of_fileBlock_ne_zero hk⟩) ?_
    rintro rfl
    exact hk hzero
  refine ⟨⟨⟨hvn ▸ h.loaded, hnb ▸ h.word, hmono 0 h.zero, fun c hc => ?_, fun q hq => ?_, fun q r hq he => ?_⟩,
    hnb, hblock, hmono, fun k hk => ?_⟩, hhdr, funext fun pos => ?_⟩
  · have hcv : v.marks c = false := Bool.eq_false_of_not_eq_true fun ht => by
      rw [hmono c ht] at hc
      cases hc
    exact hnb ▸ h.past c hcv
  · by_cases hqp : q = p
    · rw [hqp, hptr, hnb, hmarks, Function.update_self]
      exact ⟨h.past b hfree, rfl⟩
    · rw [hptrs q hqp] at hq ⊢
      exact ⟨hnb ▸ (h.used q hq).1, hmono _ (h.used q hq).2⟩
  · -- the new block is none of the old ones
    by_cases hqp : q = p
    · by_cases hrp : r = p
      · rw [hqp, hrp]
      · rw [hqp, hptr, hptrs r hrp] at he
        exact absurd he.symm (h.ptr_ne_free hfree (by rw [← he]; exact h.free_ne_zero hfree))
    · rw [hptrs q hqp] at hq he
      by_cases hrp : r = p
      · rw [hrp, hptr] at he
        exact absurd he (h.ptr_ne_free hfree hq)
      · rw [hptrs r hrp] at he
        exact h.inj q r hq he
  · by_cases hp : FilePtr.data ⟨k, lt_of_fileBlock_ne_zero hk⟩ = p
    · have hself : w.fileBlock ino k = b := by
        rw [← hptr, ← hp]
        rfl
      rw [hself]
      exact Or.inr hfree
    · exact Or.inl (hptrs _ hp)
  · by_cases hk : v.fileBlock ino (pos / 512) = 0
    · -- a hole of `v` is a hole or a block of zeros
      rw [show v.byte ino pos = 0 from if_pos hk]
      unfold byte
      split_ifs with h0
      · rfl
      · have hlt := lt_of_fileBlock_ne_zero h0
        obtain rfl : FilePtr.data ⟨pos / 512, hlt⟩ = p := by
          by_contra hne
          exact h0 ((hptrs (.data ⟨pos / 512, hlt⟩) hne).trans hk)
        rw [show w.fileBlock ino (pos / 512) = b from hptr, hnew (by simp)]
        rfl
    · unfold byte
      rw [hblock _ hk, if_neg hk, if_neg hk, hsec _ hk]

theorem inode_alloc_setInode (f : Block → Block) : ((v.alloc b).setInode ino f).inode ino = f (v.inode ino) := by
  rw [inode_setInode_self f (show ino ∈ (v.alloc b).vnodes from h.loaded), inode_loaded h.loaded]
  rw [inode_loaded (show ino ∈ (v.alloc b).vnodes from h.loaded)]
  rfl

/-- **A new direct block.** -/
theorem attach_direct (hb : v.marks b = false) {k : ℕ} (hk : k < 15) (hzero : v.fileBlock ino k = 0) :
    Extended v ((v.alloc b).setInode ino fun i => i.setDirect k b) ino ∧
      ((v.alloc b).setInode ino fun i => i.setDirect k b).fileBlock ino k = b := by
  set w := (v.alloc b).setInode ino fun i => i.setDirect k b with hw
  have hi : w.inode ino = (v.inode ino).setDirect k b := h.inode_alloc_setInode _
  have hind : (w.inode ino).sfiIndirect = (v.inode ino).sfiIndirect := by
    rw [hi]
    exact Block.sfiIndirect_setDirect _ _ hk
  have hself : w.fileBlock ino k = b := by
    rw [fileBlock_direct _ hk, hi, Block.sfiDirect_setDirect _ _ hk hk (h.free_word hb), if_pos rfl]
  refine ⟨h.attach (p := .data ⟨k, by omega⟩) rfl rfl rfl ?_ hzero hb hself (fun q hq => ?_) (fun k' hk' => ?_)
    fun _ => alloc_sec_self b, hself⟩
  · rw [hi]
    exact Block.setDirect_header _ _ hk
  · cases q with
    | indirect => exact hind
    | data k' =>
      have hne : (k' : ℕ) ≠ k := fun he => hq (by congr; exact Fin.ext he)
      show w.fileBlock ino k' = v.fileBlock ino k'
      unfold fileBlock
      rw [hind]
      split_ifs with h1 h2 h3
      · rw [hi, Block.sfiDirect_setDirect _ _ hk h1 (h.free_word hb), if_neg hne]
      · rfl
      · exact congrArg (fun d : Block => d.entry (k' - 15)) (alloc_sec (h.ptr_ne_free (p := .indirect) hb h3))
      · rfl
  · exact alloc_sec (h.ptr_ne_free (p := .data ⟨k', lt_of_fileBlock_ne_zero hk'⟩) hb hk')

/-- **A new indirect block.** -/
theorem attach_indirect (hb : v.marks b = false) (hzero : (v.inode ino).sfiIndirect = 0) :
    Extended v ((v.alloc b).setInode ino fun i => i.setIndirect b) ino ∧
      (((v.alloc b).setInode ino fun i => i.setIndirect b).inode ino).sfiIndirect = b := by
  set w := (v.alloc b).setInode ino fun i => i.setIndirect b with hw
  have hi : w.inode ino = (v.inode ino).setIndirect b := h.inode_alloc_setInode _
  have hind : (w.inode ino).sfiIndirect = b := by
    rw [hi]
    exact Block.sfiIndirect_setIndirect _ _ (h.free_word hb)
  refine ⟨h.attach (p := .indirect) rfl rfl rfl ?_ hzero hb hind (fun q hq => ?_) (fun k' hk' => ?_)
    fun hne => absurd rfl hne, hind⟩
  · rw [hi]
    exact Block.setIndirect_header _ _
  · cases q with
    | indirect => exact absurd rfl hq
    | data k' =>
      show w.fileBlock ino k' = v.fileBlock ino k'
      unfold fileBlock
      rw [hind, if_neg (h.free_ne_zero hb), if_pos hzero, show w.sec b = Block.zeros from alloc_sec_self b]
      split_ifs with h1 h2
      · rw [hi]
        exact Block.sfiDirect_setIndirect _ _ h1
      · -- the new indirect block holds zeros
        exact Block.entry_zeros _
      · rfl
  · exact alloc_sec (h.ptr_ne_free (p := .data ⟨k', lt_of_fileBlock_ne_zero hk'⟩) hb hk')

/-- **A new entry of the indirect block.** -/
theorem attach_entry (hb : v.marks b = false) {j : ℕ} (hj : j < 128) (hid : (v.inode ino).sfiIndirect ≠ 0)
    (hzero : v.fileBlock ino (15 + j) = 0) :
    Extended v ((v.alloc b).store (v.inode ino).sfiIndirect ((v.sec (v.inode ino).sfiIndirect).setEntry j b)) ino ∧
      ((v.alloc b).store (v.inode ino).sfiIndirect
        ((v.sec (v.inode ino).sfiIndirect).setEntry j b)).fileBlock ino (15 + j) = b := by
  set idb := (v.inode ino).sfiIndirect with hidb
  set w := (v.alloc b).store idb ((v.sec idb).setEntry j b) with hw
  have hi : w.inode ino = v.inode ino := by
    rw [inode_loaded h.loaded, inode_loaded (show ino ∈ w.vnodes from h.loaded)]
    rfl
  have hsecid : w.sec idb = (v.sec idb).setEntry j b := Function.update_self _ _ _
  have hentry : ∀ k, 15 ≤ k → k < 143 → w.fileBlock ino k = if k = 15 + j then b else v.fileBlock ino k := by
    intro k h15 h143
    have hk : k - 15 < 128 := by omega
    rw [fileBlock_indirect h15 h143 (by rw [hi]; exact hid), fileBlock_indirect h15 h143 hid, hi, ← hidb, hsecid,
      Block.entry_setEntry _ _ hj hk (h.free_word hb)]
    exact if_congr (by omega) rfl rfl
  have hself : w.fileBlock ino (15 + j) = b := (hentry (15 + j) (by omega) (by omega)).trans (if_pos rfl)
  have hbid : b ≠ idb := (h.ptr_ne_free (p := .indirect) hb hid).symm
  refine ⟨h.attach (p := .data ⟨15 + j, by omega⟩) rfl rfl rfl ?_ hzero hb hself (fun q hq => ?_) (fun k' hk' => ?_)
    fun _ => (store_sec hbid).trans (alloc_sec_self b), hself⟩
  · rw [hi]
    exact .refl _
  · cases q with
    | indirect => exact congrArg Block.sfiIndirect hi
    | data k' =>
      by_cases hk' : (k' : ℕ) < 15
      · show w.fileBlock ino k' = v.fileBlock ino k'
        rw [fileBlock_direct _ hk', fileBlock_direct _ hk', hi]
      · refine (hentry k' (by omega) k'.isLt).trans (if_neg fun he => hq ?_)
        congr
        exact Fin.ext he
  · have hne := h.block_ne_indirect hk'
    exact (store_sec hne).trans (alloc_sec (h.ptr_ne_free (p := .data ⟨k', lt_of_fileBlock_ne_zero hk'⟩) hb hk'))

end OneFile

/-- A file of one block on a full volume. -/
theorem OneFile.of_block {v : Volume} {ino k b : ℕ} (hloaded : ino ∈ v.vnodes) (hword : v.nblocks < 2 ^ 32)
    (hfull : ∀ c, v.marks c = true) (hb : b < v.nblocks)
    (hind : (v.inode ino).sfiIndirect ≠ 0 → (v.inode ino).sfiIndirect < v.nblocks ∧ (v.inode ino).sfiIndirect ≠ b)
    (hblock : ∀ j, v.fileBlock ino j = if j = k then b else 0) : OneFile v ino := by
  have hdata : ∀ {j : Fin 143}, v.ptr ino (.data j) ≠ 0 → (j : ℕ) = k ∧ v.ptr ino (.data j) = b := fun {j} hj => by
    have hjk : (j : ℕ) = k := by
      by_contra hne
      exact hj ((hblock j).trans (if_neg hne))
    exact ⟨hjk, (hblock j).trans (if_pos hjk)⟩
  change v.ptr ino .indirect ≠ 0 → v.ptr ino .indirect < v.nblocks ∧ v.ptr ino .indirect ≠ b at hind
  refine ⟨hloaded, hword, hfull 0, fun c hc => ?_, fun p hp => ?_, fun p q hp he => ?_⟩
  · rw [hfull] at hc
    cases hc
  · refine ⟨?_, hfull _⟩
    cases p with
    | indirect => exact (hind hp).1
    | data j => exact (hdata hp).2 ▸ hb
  · cases p with
    | indirect =>
      cases q with
      | indirect => rfl
      | data j => exact absurd (he.trans (hdata (he ▸ hp)).2) (hind hp).2
    | data i =>
      cases q with
      | indirect => exact absurd (he.symm.trans (hdata hp).2) (hind (he ▸ hp)).2
      | data j => exact congrArg FilePtr.data (Fin.ext ((hdata hp).1.trans (hdata (he ▸ hp)).1.symm))

end Os161
