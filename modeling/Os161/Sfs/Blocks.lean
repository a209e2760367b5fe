/-
# Fields of an inode and blocks of a file

What a change of one field of an inode does to the others, and when two
volumes give a file the same blocks.
-/
import Os161.Sfs.View

namespace Os161

/-! ### Fields of an inode -/

/-- The two inodes differ in their pointers at most. -/
structure SameHeader (i j : Block) : Prop where
  size : j.sfiSize = i.sfiSize
  type : j.sfiType = i.sfiType
  links : j.sfiLinkcount = i.sfiLinkcount

/-- The two inodes have the same pointers. -/
structure SamePtrs (i j : Block) : Prop where
  direct : ∀ k < 15, j.sfiDirect k = i.sfiDirect k
  indirect : j.sfiIndirect = i.sfiIndirect

theorem SameHeader.refl (i : Block) : SameHeader i i := ⟨rfl, rfl, rfl⟩

theorem SamePtrs.refl (i : Block) : SamePtrs i i := ⟨fun _ _ => rfl, rfl⟩

namespace Block

variable (i : Block) (v : ℕ)

theorem setDirect_header {k : ℕ} (hk : k < 15) : SameHeader i (i.setDirect k v) := by
  constructor <;> apply Bytes.field_setField_of_disjoint <;> omega

theorem setIndirect_header : SameHeader i (i.setIndirect v) := by
  constructor <;> apply Bytes.field_setField_of_disjoint <;> omega

theorem setSize_ptrs : SamePtrs i (i.setSize v) := by
  constructor
  · intro k hk
    apply Bytes.field_setField_of_disjoint <;> omega
  · apply Bytes.field_setField_of_disjoint <;> omega

theorem sfiSize_setSize (hv : v < 2 ^ 32) : (i.setSize v).sfiSize = v :=
  (Bytes.field_setField_same _ _ (by omega)).trans (Nat.mod_eq_of_lt (by simpa using hv))

theorem sfiDirect_setDirect {k k' : ℕ} (hk : k < 15) (hk' : k' < 15) (hv : v < 2 ^ 32) :
    (i.setDirect k v).sfiDirect k' = if k' = k then v else i.sfiDirect k' := by
  by_cases h : k' = k
  · subst h
    rw [if_pos rfl]
    exact (Bytes.field_setField_same _ _ (by omega)).trans (Nat.mod_eq_of_lt (by simpa using hv))
  · rw [if_neg h]
    apply Bytes.field_setField_of_disjoint <;> omega

theorem sfiIndirect_setDirect {k : ℕ} (hk : k < 15) : (i.setDirect k v).sfiIndirect = i.sfiIndirect := by
  apply Bytes.field_setField_of_disjoint <;> omega

theorem sfiDirect_setIndirect {k : ℕ} (hk : k < 15) : (i.setIndirect v).sfiDirect k = i.sfiDirect k := by
  apply Bytes.field_setField_of_disjoint <;> omega

theorem sfiIndirect_setIndirect (hv : v < 2 ^ 32) : (i.setIndirect v).sfiIndirect = v :=
  (Bytes.field_setField_same _ _ (by omega)).trans (Nat.mod_eq_of_lt (by simpa using hv))

theorem entry_setEntry {j j' : ℕ} (hj : j < 128) (hj' : j' < 128) (hv : v < 2 ^ 32) :
    (i.setEntry j v).entry j' = if j' = j then v else i.entry j' := by
  by_cases h : j' = j
  · subst h
    rw [if_pos rfl]
    exact (Bytes.field_setField_same _ _ (by omega)).trans (Nat.mod_eq_of_lt (by simpa using hv))
  · rw [if_neg h]
    apply Bytes.field_setField_of_disjoint <;> omega

theorem field_zeros (off n : ℕ) : Bytes.field Block.zeros off n = 0 := Buf.getBE_zero fun _ _ => rfl

theorem entry_zeros (j : ℕ) : Block.zeros.entry j = 0 := field_zeros _ _

end Block

/-! ### The blocks of a file -/

namespace Volume

variable {v w : Volume}

theorem inode_loaded {i : ℕ} (h : i ∈ v.vnodes) : v.inode i = (v.sv i).svI := if_pos h

theorem fileBlock_direct (ino : ℕ) {k : ℕ} (hk : k < 15) : v.fileBlock ino k = (v.inode ino).sfiDirect k := if_pos hk

theorem fileBlock_indirect {ino k : ℕ} (h15 : 15 ≤ k) (h143 : k < 143) (hid : (v.inode ino).sfiIndirect ≠ 0) :
    v.fileBlock ino k = (v.sec (v.inode ino).sfiIndirect).entry (k - 15) := by
  unfold fileBlock
  rw [if_neg (by omega), if_pos h143, if_neg hid]

theorem fileBlock_no_indirect {ino k : ℕ} (h15 : 15 ≤ k) (hid : (v.inode ino).sfiIndirect = 0) :
    v.fileBlock ino k = 0 := by
  unfold fileBlock
  rw [if_neg (by omega), if_pos hid]
  exact ite_self 0

theorem fileBlock_of_ge (ino : ℕ) {k : ℕ} (hk : 143 ≤ k) : v.fileBlock ino k = 0 := by
  unfold fileBlock
  rw [if_neg (by omega), if_neg (by omega)]

/-- A block of a file that is not a hole is one of its pointers. -/
theorem lt_of_fileBlock_ne_zero {ino k : ℕ} (h : v.fileBlock ino k ≠ 0) : k < 143 := by
  by_contra hk
  exact h (fileBlock_of_ge ino (Nat.le_of_not_lt hk))

/-- The blocks of a file depend on its pointers and its indirect block. -/
theorem fileBlock_congr {ino : ℕ} (hp : SamePtrs (v.inode ino) (w.inode ino))
    (hind : (v.inode ino).sfiIndirect ≠ 0 → w.sec (v.inode ino).sfiIndirect = v.sec (v.inode ino).sfiIndirect) (k : ℕ) :
    w.fileBlock ino k = v.fileBlock ino k := by
  unfold fileBlock
  rw [hp.indirect]
  split_ifs with h1 h2 h3
  · exact hp.direct k h1
  · rfl
  · exact congrArg (fun d : Block => d.entry (k - 15)) (hind h3)
  · rfl

/-- An inode with the same pointers, all of whose blocks are as they were. -/
theorem file_congr {ino : ℕ} (hp : SamePtrs (v.inode ino) (w.inode ino))
    (hsec : ∀ p, v.ptr ino p ≠ 0 → w.sec (v.ptr ino p) = v.sec (v.ptr ino p)) :
    (∀ p, w.ptr ino p = v.ptr ino p) ∧ w.byte ino = v.byte ino := by
  have hblock : ∀ k, w.fileBlock ino k = v.fileBlock ino k := fileBlock_congr hp (hsec .indirect)
  refine ⟨fun p => ?_, ?_⟩
  · cases p with
    | indirect => exact hp.indirect
    | data k => exact hblock k
  · funext pos
    unfold byte
    rw [hblock]
    split_ifs with h0
    · rfl
    · have hk := lt_of_fileBlock_ne_zero h0
      have hd := hsec (.data ⟨pos / 512, hk⟩) h0
      exact congrArg (fun d : Block => d.get (pos % 512)) hd

end Volume

end Os161
