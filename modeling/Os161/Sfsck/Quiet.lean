/-
# `sfsck`: what its routines leave alone

`Quiet`: the inode table, the records of the directories gone through and the
size of the volume are the same, and the badness did not get better. All
routines are quiet but `inode_add`, `inode_sorttable` and the two that mark
inodes in pass 2, and what calls these. `Dry` is for the quiet routines that
write nothing to the disk either and unmark no block.
-/
import Os161.Sfsck.Passes

namespace Os161

namespace Sfsck

/-- Nothing happened to the inode table. -/
structure Quiet (s t : Fsck) : Prop where
  total : sbTotalblocks t = sbTotalblocks s
  inodes : t.inodes = s.inodes
  sorted : t.inodesSorted = s.inodesSorted
  dirs1 : t.dirs1 = s.dirs1
  dirs2 : t.dirs2 = s.dirs2
  badness : s.badness ≤ t.badness

/-- Nothing was written, and no block became unmarked. -/
structure Dry (s t : Fsck) : Prop extends Quiet s t where
  sectors : t.sectors = s.sectors
  bits : ∀ b, Bitmap.bit s.freemapdata b = true → Bitmap.bit t.freemapdata b = true

instance quietPreorder : IsPreorder Fsck Quiet where
  refl _ := ⟨rfl, rfl, rfl, rfl, rfl, le_rfl⟩
  trans _ _ _ h1 h2 := ⟨h2.total.trans h1.total, h2.inodes.trans h1.inodes, h2.sorted.trans h1.sorted,
    h2.dirs1.trans h1.dirs1, h2.dirs2.trans h1.dirs2, h1.badness.trans h2.badness⟩

instance dryPreorder : IsPreorder Fsck Dry where
  refl s := ⟨refl_of Quiet s, rfl, fun _ h => h⟩
  trans _ _ _ h1 h2 := ⟨trans_of Quiet h1.toQuiet h2.toQuiet, h2.sectors.trans h1.sectors, fun b h => h2.bits b (h1.bits b h)⟩

open Prog (Keeps)

-- an instance for a program is as large as the program
set_option synthInstance.maxSize 4000

variable {S : Prop} {α : Type}

instance quiet_of_dry (m : FsckM α) [h : Keeps Dry S m] : Keeps Quiet S m := h.mono fun _ _ => Dry.toQuiet

/-! ### Updates of the other variables -/

section Updates

instance quiet_sectors (f : Fsck → ℕ → Block) :
    Keeps Quiet S (Prog.modify fun s => { s with sectors := f s } : FsckM Unit) :=
  Keeps.modify fun _ => ⟨rfl, rfl, rfl, rfl, rfl, le_rfl⟩

instance dry_ios (f : Fsck → ℕ → Bool) : Keeps Dry S (Prog.modify fun s => { s with ios := f s } : FsckM Unit) :=
  Keeps.modify fun _ => ⟨⟨rfl, rfl, rfl, rfl, rfl, le_rfl⟩, rfl, fun _ h => h⟩

instance dry_mallocs (f : Fsck → ℕ → Bool) :
    Keeps Dry S (Prog.modify fun s => { s with mallocs := f s } : FsckM Unit) :=
  Keeps.modify fun _ => ⟨⟨rfl, rfl, rfl, rfl, rfl, le_rfl⟩, rfl, fun _ h => h⟩

instance dry_uniquecounter (f : Fsck → ℕ) :
    Keeps Dry S (Prog.modify fun s => { s with uniquecounter := f s } : FsckM Unit) :=
  Keeps.modify fun _ => ⟨⟨rfl, rfl, rfl, rfl, rfl, le_rfl⟩, rfl, fun _ h => h⟩

instance dry_blocksinuse (f : Fsck → ℕ) :
    Keeps Dry S (Prog.modify fun s => { s with blocksinuse := f s } : FsckM Unit) :=
  Keeps.modify fun _ => ⟨⟨rfl, rfl, rfl, rfl, rfl, le_rfl⟩, rfl, fun _ h => h⟩

instance dry_mark (block : ℕ) :
    Keeps Dry S (Prog.modify fun s =>
      { s with freemapdata := Bitmap.mark s.freemapdata (block / 8) (block % 8) } : FsckM Unit) := by
  refine Keeps.modify fun s => ⟨⟨rfl, rfl, rfl, rfl, rfl, le_rfl⟩, rfl, fun b h => ?_⟩
  rw [Bitmap.bit_mark (Nat.mod_lt _ (by decide)), h, Bool.true_or]

instance dry_tofreedata (f : Fsck → ℕ → BitVec 8) :
    Keeps Dry S (Prog.modify fun s => { s with tofreedata := f s } : FsckM Unit) :=
  Keeps.modify fun _ => ⟨⟨rfl, rfl, rfl, rfl, rfl, le_rfl⟩, rfl, fun _ h => h⟩

instance quiet_clearMaps : Keeps Quiet S clearMaps := Keeps.modify fun _ => ⟨rfl, rfl, rfl, rfl, rfl, le_rfl⟩

instance dry_countDirs (f : Fsck → ℕ) :
    Keeps Dry S (Prog.modify fun s => { s with countDirs := f s } : FsckM Unit) :=
  Keeps.modify fun _ => ⟨⟨rfl, rfl, rfl, rfl, rfl, le_rfl⟩, rfl, fun _ h => h⟩

instance dry_countFiles (f : Fsck → ℕ) :
    Keeps Dry S (Prog.modify fun s => { s with countFiles := f s } : FsckM Unit) :=
  Keeps.modify fun _ => ⟨⟨rfl, rfl, rfl, rfl, rfl, le_rfl⟩, rfl, fun _ h => h⟩

instance dry_warnx (w : Warning) : Keeps Dry S (warnx w) :=
  Keeps.modify fun _ => ⟨⟨rfl, rfl, rfl, rfl, rfl, le_rfl⟩, rfl, fun _ h => h⟩

instance dry_setbadness (code : ℕ) : Keeps Dry S (setbadness code) := by
  refine Keeps.modify fun s => ⟨⟨rfl, rfl, rfl, rfl, rfl, ?_⟩, rfl, fun _ h => h⟩
  change s.badness ≤ if s.badness < code then code else s.badness
  split_ifs <;> omega

end Updates

/-! ### `utils.c`, `disk.c`, `sb.c` -/

instance dry_complain (code : ℕ) (w : Warning) : Keeps Dry S (complain code w) := by
  unfold complain
  infer_instance

instance dry_assert (p : Prop) [Decidable p] : Keeps Dry S (assert p) := by
  unfold assert
  infer_instance

instance dry_domalloc : Keeps Dry S domalloc := by
  unfold domalloc
  infer_instance

instance dry_uniqueid : Keeps Dry S uniqueid := by
  unfold uniqueid
  infer_instance

instance dry_diskio (block : ℕ) : Keeps Dry S (diskio block) := by
  unfold diskio
  infer_instance

instance dry_diskread (block : ℕ) : Keeps Dry S (diskread block) := by
  unfold diskread
  infer_instance

instance quiet_diskwrite (data : Block) (block : ℕ) : Keeps Quiet S (diskwrite data block) := by
  unfold diskwrite
  infer_instance

/-! ### `sfs.c` and `freemap.c` -/

instance dry_bmap (sfi : Block) (fileblock : ℕ) : Keeps Dry S (bmap sfi fileblock) := by
  unfold bmap ibmap
  infer_instance

instance dry_sfsReaddirblock (diskblock : ℕ) : Keeps Dry S (sfsReaddirblock diskblock) := by
  unfold sfsReaddirblock
  infer_instance

instance dry_sfsReaddirStep (sfi : Block) (i : ℕ) (x : (ℕ → Dirent) × ℕ) : Keeps Dry S (sfsReaddirStep sfi i x) := by
  unfold sfsReaddirStep
  infer_instance

instance dry_sfsReaddir (sfi : Block) (nd : ℕ) : Keeps Dry S (sfsReaddir sfi nd) := by
  unfold sfsReaddir
  infer_instance

instance quiet_sfsWritedirblock (d : Block) (diskblock : ℕ) : Keeps Quiet S (sfsWritedirblock d diskblock) := by
  unfold sfsWritedirblock
  infer_instance

instance quiet_sfsWritedirStep (sfi : Block) (d : ℕ → Dirent) (i left : ℕ) :
    Keeps Quiet S (sfsWritedirStep sfi d i left) := by
  unfold sfsWritedirStep
  infer_instance

instance quiet_sfsWritedir (sfi : Block) (d : ℕ → Dirent) (nd : ℕ) : Keeps Quiet S (sfsWritedir sfi d nd) := by
  unfold sfsWritedir
  infer_instance

instance dry_sfsdirSort (d : ℕ → Dirent) (nd : ℕ) : Keeps Dry S (sfsdirSort d nd) := by
  unfold sfsdirSort
  split <;> infer_instance

instance dry_freemapBlockinuse (block : ℕ) (how : BlockUsage) (howdesc : ℕ) :
    Keeps Dry S (freemapBlockinuse block how howdesc) := by
  unfold freemapBlockinuse
  infer_instance

instance dry_freemapBlockfree (block : ℕ) : Keeps Dry S (freemapBlockfree block) := by
  unfold freemapBlockfree
  infer_instance

instance quiet_freemapSetup : Keeps Quiet S freemapSetup := by
  unfold freemapSetup
  infer_instance

instance quiet_freemapCheckByte (i j : ℕ) (x : FreemapCheck) : Keeps Quiet S (freemapCheckByte i j x) := by
  unfold freemapCheckByte reportfreemap
  dsimp only
  infer_instance

instance quiet_freemapCheck : Keeps Quiet S freemapCheck := by
  unfold freemapCheck freemapCheckBlock
  dsimp only
  infer_instance

/-! ### The passes -/

instance quiet_inodeAdjustFilelinks : Keeps Quiet S inodeAdjustFilelinks := by
  unfold inodeAdjustFilelinks inodeAdjust
  infer_instance

instance dry_checkPointer (ibs : Ibstate) (curfileblock block : ℕ) :
    Keeps Dry S (checkPointer ibs curfileblock block) := by
  unfold checkPointer
  infer_instance

instance dry_checkSlot (get : Block → ℕ → ℕ) (set : Block → ℕ → ℕ → Block) (base : ℕ) (ibs : Ibstate) (i : ℕ)
    (x : Checked) : Keeps Dry S (checkSlot get set base ibs i x) := by
  unfold checkSlot
  infer_instance

instance dry_checkDirect (ibs : Ibstate) (i : ℕ) (x : Checked) : Keeps Dry S (checkDirect ibs i x) := by
  unfold checkDirect
  infer_instance

instance dry_checkEntry (ibs : Ibstate) (i : ℕ) (x : Checked) : Keeps Dry S (checkEntry ibs i x) := by
  unfold checkEntry
  infer_instance

instance quiet_checkIndirectBlock (ibs : Ibstate) (x : Checked) : Keeps Quiet S (checkIndirectBlock ibs x) := by
  unfold checkIndirectBlock
  dsimp only
  infer_instance

instance quiet_checkInodeBlocks (ino : ℕ) (sfi : Block) (isdir : Bool) :
    Keeps Quiet S (checkInodeBlocks ino sfi isdir) := by
  unfold checkInodeBlocks
  dsimp only
  infer_instance

instance dry_pass1Waste (ino : ℕ) (sfi : Block) (alreadychanged : Bool) :
    Keeps Dry S (pass1Waste ino sfi alreadychanged) := by
  unfold pass1Waste
  infer_instance

instance quiet_pass1Check (ino : ℕ) (sfi : Block) (alreadychanged : Bool) :
    Keeps Quiet S (pass1Check ino sfi alreadychanged) := by
  unfold pass1Check
  dsimp only
  infer_instance

instance dry_pass1Fix (fixed : Dirent × Bool) (w : Warning) : Keeps Dry S (pass1Fix fixed w) := by
  unfold pass1Fix
  infer_instance

instance dry_pass1Name (path : Name) (index : ℕ) (sfd : Dirent) : Keeps Dry S (pass1Name path index sfd) := by
  unfold pass1Name
  infer_instance

instance dry_pass1Rename (path : Name) (index : ℕ) (sfd : Dirent) :
    Keeps Dry S (pass1Rename path index sfd) := by
  unfold pass1Rename
  infer_instance

instance dry_pass1Direntry (path : Name) (index : ℕ) (sfd : Dirent) :
    Keeps Dry S (pass1Direntry path index sfd) := by
  unfold pass1Direntry
  infer_instance

instance dry_removeInvalid (path : Name) (type i : ℕ) (x : (ℕ → Dirent) × Bool) :
    Keeps Dry S (removeInvalid path type i x) := by
  unfold removeInvalid
  infer_instance

instance dry_pass1Size (path : Name) (sfi : Block) : Keeps Dry S (pass1Size path sfi) := by
  unfold pass1Size
  infer_instance

instance quiet_pass1Roottype : Keeps Quiet S pass1Roottype := by
  unfold pass1Roottype
  infer_instance

instance quiet_pass2Compare (path : Name) (k1 : ℕ) (d1 d2 : Dirent) (x : (ℕ → Dirent) × Bool) :
    Keeps Quiet S (pass2Compare path k1 d1 d2 x) := by
  unfold pass2Compare
  infer_instance

instance quiet_pass2Dots (ino parentino : ℕ) (path : Name) (i : ℕ) (x : Dots) :
    Keeps Quiet S (pass2Dots ino parentino path i x) := by
  unfold pass2Dots pass2Retarget
  infer_instance

instance quiet_pass2Insert (maxdirentries : ℕ) (name : Name) (ino : ℕ) (warn : Bool → Warning) (seen : Bool)
    (x : Pass2) : Keeps Quiet S (pass2Insert maxdirentries name ino warn seen x) := by
  unfold pass2Insert
  split
  · infer_instance
  · split
    · infer_instance
    · split <;> infer_instance

instance quiet_pass2Names (ino parentino : ℕ) (path : Name) (sfi : Block) (ndirentries maxdirentries : ℕ) :
    Keeps Quiet S (pass2Names ino parentino path sfi ndirentries maxdirentries) := by
  unfold pass2Names pass2Pair
  infer_instance

instance quiet_pass2Finish (ino : ℕ) (path : Name) (x : Pass2) (subdircount : ℕ) :
    Keeps Quiet S (pass2Finish ino path x subdircount) := by
  unfold pass2Finish pass2Linkcount
  dsimp only
  infer_instance

/-! ### `sb_check` -/

theorem quiet_sbFix {fixed : Block → Block × Bool} (h : ∀ sb, (fixed sb).1.field 4 4 = sb.field 4 4) (w : Warning)
    (schanged : Bool) : Keeps Quiet S (sbFix fixed w schanged) := by
  have hmod : Keeps Quiet S (Prog.modify fun s => { s with sb := (fixed s.sb).1 } : FsckM Unit) :=
    Keeps.modify fun s => ⟨h s.sb, rfl, rfl, rfl, rfl, le_rfl⟩
  unfold sbFix
  infer_instance

section Strings

variable {N : ℕ} [NeZero N] (buf : Bytes N) {off maxlen a n : ℕ}

/-- The string checks change nothing in front of their field. -/
theorem field_checknullstring (hmax : 0 < maxlen) (hN : off + maxlen ≤ N) (h : a + n ≤ off) :
    (checknullstring buf off maxlen).1.field a n = buf.field a n := by
  unfold checknullstring
  split_ifs
  · rfl
  · exact Bytes.field_setField_of_disjoint _ _ (by omega) (by omega)

theorem field_checkbadstring (hN : off ≤ N) (h : a + n ≤ off) :
    (checkbadstring buf off maxlen).1.field a n = buf.field a n := by
  refine Buf.getBE_congr fun i hi => ?_
  unfold checkbadstring
  rw [Bytes.get_ofFun _ (by omega), if_neg (by omega)]

theorem field_checkzeroed (hN : off ≤ N) (h : a + n ≤ off) :
    (checkzeroed buf off maxlen).1.field a n = buf.field a n := by
  refine Buf.getBE_congr fun i hi => ?_
  unfold checkzeroed
  rw [Bytes.get_ofFun _ (by omega), if_neg (by omega)]

end Strings

instance quiet_sbCheck : Keeps Quiet S sbCheck := by
  have h1 : ∀ b, Keeps Quiet S (sbFix (fun sb => checknullstring sb 8 sfsVolnameSize) .volnameNotTerminated b) :=
    quiet_sbFix (fun sb => field_checknullstring sb (by decide) (by decide) (by decide)) _
  have h2 : ∀ b, Keeps Quiet S (sbFix (fun sb => checkbadstring sb 8 sfsVolnameSize) .volnameIllegal b) :=
    quiet_sbFix (fun sb => field_checkbadstring sb (by decide) (by decide)) _
  have h3 : ∀ b, Keeps Quiet S (sbFix (fun sb => checkzeroed sb 40 472) .reservedNotZeroed b) :=
    quiet_sbFix (fun sb => field_checkzeroed sb (by decide) (by decide)) _
  unfold sbCheck
  infer_instance

end Sfsck

end Os161
