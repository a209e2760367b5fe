/-
# `sfsck`: the volume on disk

`sfs.c` and `freemap.c`. The fields of a block are read big-endian, which is
what the byte swapping comes to. `SFS_NDINDIRECT` and `SFS_NTINDIRECT` are 0,
so that an inode has one indirect block of one level. The entries of a
directory in memory are a function from slots to entries.
-/
import Os161.Sfsck.Utils
import Os161.Libc.Qsort

namespace Os161

namespace Sfsck

/-- `SFS_ROUNDUP`, in 32 bits. -/
def sfsRoundup (a b : ℕ) : ℕ := wadd a (b - 1) / b * b

/-! ### `struct sfs_direntry` -/

instance neZero64 : NeZero 64 := ⟨by decide⟩

/-- A directory entry. -/
abbrev Dirent := Bytes 64

namespace Dirent

variable (d : Dirent)

def sfdIno : ℕ := d.field 0 4

/-- The name; one that fills its field ends there. -/
def sfdName : Name := ((List.range sfsNamelen).map fun i => d.get (4 + i)).takeWhile fun c => c ≠ 0

def setIno (v : ℕ) : Dirent := d.setField 0 4 v

/-- `sfd_name[0] = 0`. -/
def clearName : Dirent := d.setField 4 1 0

/-- `strcpy` or `snprintf` into the name. -/
def setName (name : Name) : Dirent := Bytes.ofFun (d.get.blit 4 (fun i => name.getD i 0) 0 (name.length + 1))

/-- An entry of zeros. -/
def zeros : Dirent := fun _ => 0

end Dirent

/-- Entry `j` of a block of a directory. -/
def direntOf (b : Block) (j : ℕ) : Dirent := Bytes.ofFun fun a => b.get (64 * j + a)

/-- The block of the entries `d 0` to `d 7`. -/
def blockOf (d : ℕ → Dirent) : Block := Bytes.ofFun fun a => (d (a / 64)).get (a % 64)

/-- `"FSCK.%lu.%lu"`. -/
def fsckName (ino id : ℕ) : Name :=
  (("FSCK.".toList ++ Nat.toDigits 10 ino) ++ '.' :: Nat.toDigits 10 id).map fun c => UInt8.ofNat c.toNat

/-- `"."` and `".."`. -/
def dot : Name := [46]
@[inherit_doc dot] def dotdot : Name := [46, 46]

/-- `strcmp`. -/
def strcmp : Name → Name → ℤ
  | [], [] => 0
  | [], _ :: _ => -1
  | _ :: _, [] => 1
  | a :: as, b :: bs => if a = b then strcmp as bs else if b < a then 1 else -1

/-! ### `bmap` -/

/-- `ibmap`, of one level. -/
def ibmap (iblock offset : ℕ) : FsckM ℕ := do
  if iblock = 0 then pure 0
  else do
    let entries ← diskread iblock
    assert (offset < sfsDbperidb)
    pure (entries.entry offset)

/-- `bmap`. -/
def bmap (sfi : Block) (fileblock : ℕ) : FsckM ℕ :=
  if fileblock < sfsNdirect then pure (sfi.sfiDirect fileblock)
  else if fileblock < sfsNdirect + sfsDbperidb then ibmap sfi.sfiIndirect ((fileblock - sfsNdirect) % sfsDbperidb)
  else pure 0

/-! ### Directories -/

/-- `sfs_readdirblock`. -/
def sfsReaddirblock (diskblock : ℕ) : FsckM Block := do
  if diskblock ≠ 0 then diskread diskblock
  else do
    warnx .sparseDirectory
    pure Block.zeros

/-- The body of the loop of `sfs_readdir`; `x` is the buffer and `left`. -/
def sfsReaddirStep (sfi : Block) (i : ℕ) (x : (ℕ → Dirent) × ℕ) : FsckM ((ℕ → Dirent) × ℕ) := do
  let diskblock ← bmap sfi i
  let b ← sfsReaddirblock diskblock
  pure (fun k => if i * 8 ≤ k ∧ k < i * 8 + min x.2 8 then direntOf b (k - i * 8) else x.1 k, x.2 - min x.2 8)

/-- `sfs_readdir`. -/
def sfsReaddir (sfi : Block) (nd : ℕ) : FsckM (ℕ → Dirent) := do
  let x ← Prog.foldUp (sfsRoundup nd 8 / 8) (sfsReaddirStep sfi) (fun _ => Dirent.zeros, nd)
  assert (x.2 = 0)
  pure x.1

/-- The loop over the entries in `sfs_writedirblock`. -/
def holdsEntry (d : Block) : Bool :=
  (List.range 8).any fun j => decide ((direntOf d j).sfdIno ≠ 0) || decide ((direntOf d j).get 4 ≠ 0)

/-- `sfs_writedirblock`. -/
def sfsWritedirblock (d : Block) (diskblock : ℕ) : FsckM Unit := do
  if diskblock ≠ 0 then diskwrite d diskblock
  else if holdsEntry d = true then complain exitUnrecov .writeToSparse
  else pure ()

/-- The body of the loop of `sfs_writedir`. -/
def sfsWritedirStep (sfi : Block) (d : ℕ → Dirent) (i left : ℕ) : FsckM ℕ := do
  let diskblock ← bmap sfi i
  sfsWritedirblock (blockOf fun j => if j < min left 8 then d (i * 8 + j) else Dirent.zeros) diskblock
  pure (left - min left 8)

/-- `sfs_writedir`. -/
def sfsWritedir (sfi : Block) (d : ℕ → Dirent) (nd : ℕ) : FsckM Unit := do
  let left ← Prog.foldUp (sfsRoundup nd 8 / 8) (sfsWritedirStep sfi d) nd
  assert (left = 0)

/-- `dirsortfunc`. -/
def dirsortfunc (d : ℕ → Dirent) (a b : ℕ) : Option ℤ :=
  if (d a).sfdIno = 0 ∧ (d b).sfdIno = 0 then some 0
  else if (d a).sfdIno = 0 then some 1
  else if (d b).sfdIno = 0 then some (-1)
  else some (strcmp (d a).sfdName (d b).sfdName)

/-- `sfsdir_sort`. -/
def sfsdirSort (d : ℕ → Dirent) (nd : ℕ) : FsckM (ℕ → ℕ) :=
  match qsort (dirsortfunc d) nd (List.range nd) with
  | some vector => pure fun i => vector.getD i 0
  | none => Prog.fail .assertion

/-- `sfsdir_tryadd`; none is a failure. -/
def sfsdirTryadd (d : ℕ → Dirent) (nd : ℕ) (name : Name) (ino : ℕ) : Option (ℕ → Dirent) :=
  ((List.range nd).find? fun i => (d i).sfdIno = 0).map fun i => Function.update d i (((d i).setIno ino).setName name)

/-! ### `freemap.c` -/

/-- `freemap_blockinuse`. -/
def freemapBlockinuse (block : ℕ) (how : BlockUsage) (howdesc : ℕ) : FsckM Unit := do
  let s ← Prog.get
  if Bitmap.bit s.tofreedata block = true then
    -- really using the block, don't free it
    Prog.modify fun s => { s with tofreedata := Bitmap.unmark s.tofreedata (block / 8) (block % 8) }
  if Bitmap.bit s.freemapdata block = true then complain exitUnrecov (.alreadyInUse block how howdesc)
  Prog.modify fun s => { s with freemapdata := Bitmap.mark s.freemapdata (block / 8) (block % 8) }
  if how ≠ .pastend then Prog.modify fun s => { s with blocksinuse := s.blocksinuse + 1 }

/-- `freemap_blockfree`. -/
def freemapBlockfree (block : ℕ) : FsckM Unit := do
  let s ← Prog.get
  if Bitmap.bit s.tofreedata block = true then pure ()
  -- block is used elsewhere, ignore
  else if Bitmap.bit s.freemapdata block = true then pure ()
  else Prog.modify fun s => { s with tofreedata := Bitmap.mark s.tofreedata (block / 8) (block % 8) }

/-- The maps of `freemap_setup` at first. -/
def clearMaps : FsckM Unit := Prog.modify fun s => { s with freemapdata := fun _ => 0, tofreedata := fun _ => 0 }

/-- `freemap_setup`. -/
def freemapSetup : FsckM Unit := do
  domalloc
  domalloc
  clearMaps
  let s ← Prog.get
  Prog.forUp (sbFreemapblocks s * 4096 - sbTotalblocks s) fun i => freemapBlockinuse (sbTotalblocks s + i) .pastend 0
  freemapBlockinuse sfsSuperBlock .superblock 0
  Prog.forUp (sbFreemapblocks s) fun i => freemapBlockinuse (sfsFreemapStart + i) .freemapblock i

/-- `countbits`. -/
def countbits (val : BitVec 8) : ℕ := ((List.range 8).filter fun y => val.getLsbD y).length

/-- `reportfreemap`. -/
def reportfreemap (mapblock byte : ℕ) (val : BitVec 8) (what : ℕ → Warning) : FsckM Unit :=
  Prog.forUp 8 fun y => if val.getLsbD y = true then warnx (what (mapblock * 4096 + byte * 8 + y)) else pure ()

/-- The local variables of `freemap_check`. -/
structure FreemapCheck where
  actual : Block
  alloccount : ℕ
  freecount : ℕ
  bchanged : Bool

/-- The body of the inner loop of `freemap_check`, on byte `j` of freemap block `i`. -/
def freemapCheckByte (i j : ℕ) (x : FreemapCheck) : FsckM FreemapCheck := do
  let s ← Prog.get
  let expected := s.freemapdata (i * 512 + j)
  let tofree := s.tofreedata (i * 512 + j)
  let actual := (x.actual.get j).toBitVec
  let fixed : Block := Bytes.ofFun (Function.update x.actual.get j (UInt8.ofBitVec expected))
  -- we shouldn't have blocks marked both ways
  assert (expected &&& tofree = 0)
  if actual = expected then pure x
  -- what's there is what should be there modulo frees
  else if actual = expected ||| tofree then pure { x with actual := fixed, bchanged := true }
  else do
    let short := expected &&& ~~~ (actual &&& ~~~ tofree)
    let extra := (actual &&& ~~~ tofree) &&& ~~~ expected
    reportfreemap i j short .shownFree
    reportfreemap i j extra .shownAllocated
    pure
      { actual := fixed
        alloccount := x.alloccount + countbits short
        freecount := x.freecount + countbits extra
        bchanged := true }

/-- The body of the loop of `freemap_check`; `counts` are `alloccount` and `freecount`. -/
def freemapCheckBlock (i : ℕ) (counts : ℕ × ℕ) : FsckM (ℕ × ℕ) := do
  let actual ← diskread (sfsFreemapStart + i)
  let x ← Prog.foldUp 512 (freemapCheckByte i) ⟨actual, counts.1, counts.2, false⟩
  if x.bchanged = true then diskwrite x.actual (sfsFreemapStart + i)
  pure (x.alloccount, x.freecount)

/-- `freemap_check`. -/
def freemapCheck : FsckM Unit := do
  let s ← Prog.get
  let counts ← Prog.foldUp (sbFreemapblocks s) freemapCheckBlock (0, 0)
  if 0 < counts.1 then complain exitRecov (.countShownFree counts.1)
  if 0 < counts.2 then complain exitRecov (.countShownUsed counts.2)

end Sfsck

end Os161
