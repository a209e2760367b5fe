/-
# `sfsck`: the passes

`inode.c`, `pass1.c`, `pass2.c` and `main`. The recursions over directories
carry a bound on their depth (`fuel`), at which the model stops. Nothing else
in it stops: a failed `assert` is an `Exit`.

A structure that the code changes through a pointer is passed in and handed
back: the inode `sfi`, and the entries of a directory with `dchanged`.
-/
import Os161.Sfsck.Sfs

namespace Os161

namespace Sfsck

/-! ### `inode.c` -/

/-- `inode_add`: whether the inode was there already. -/
def inodeAdd (ino type : ℕ) : FsckM Bool := do
  let s ← Prog.get
  match s.inodes.find? fun inf => inf.ino = ino with
  | some inf => do
    assert (inf.linkcount = 0)
    assert (inf.type = type)
    pure true
  | none => do
    Prog.modify fun s => { s with inodes := s.inodes ++ [⟨ino, 0, false, type⟩], inodesSorted := false }
    pure false

/-- `inode_compare`, of two different elements. -/
def inodeCompare (a b : Inodeinfo) : Option ℤ :=
  if a.ino < b.ino then some (-1) else if b.ino < a.ino then some 1 else none

/-- `inode_sorttable`. -/
def inodeSorttable : FsckM Unit := do
  let s ← Prog.get
  match qsort inodeCompare s.inodes.length s.inodes with
  | some inodes => Prog.modify fun s => { s with inodes := inodes, inodesSorted := true }
  | none => Prog.fail .assertion

/-- The loop of `inode_find`. -/
def inodeSearch (inodes : List Inodeinfo) (ino min max : ℕ) : Option ℕ :=
  if min < max then
    match inodes[min + (max - min) / 2]? with
    | none => none
    | some inf =>
      if inf.ino < ino then inodeSearch inodes ino (min + (max - min) / 2 + 1) max
      else if ino < inf.ino then inodeSearch inodes ino min (min + (max - min) / 2)
      else some (min + (max - min) / 2)
  else none
termination_by max - min

/-- `inode_find`: the index in the table and what is there. -/
def inodeFind (ino : ℕ) : FsckM (ℕ × Inodeinfo) := do
  let s ← Prog.get
  assert (s.inodesSorted = true)
  assert (0 < s.inodes.length)
  match inodeSearch s.inodes ino 0 s.inodes.length with
  | none => Prog.fail (.inodeNotFound ino)
  | some i => pure (i, s.inodes.getD i ⟨0, 0, false, 0⟩)

/-- Store an element of the table. -/
def setInode (i : ℕ) (inf : Inodeinfo) : FsckM Unit := Prog.modify fun s => { s with inodes := s.inodes.set i inf }

/-- `inode_visitdir`. -/
def inodeVisitdir (ino : ℕ) : FsckM Bool := do
  let x ← inodeFind ino
  assert (x.2.type = sfsTypeDir)
  assert (x.2.linkcount = 0)
  if x.2.visited = true then pure true
  else do
    setInode x.1 { x.2 with visited := true }
    pure false

/-- `inode_addlink`. -/
def inodeAddlink (ino : ℕ) : FsckM Unit := do
  let x ← inodeFind ino
  assert (x.2.type = sfsTypeFile)
  assert (x.2.visited = false)
  setInode x.1 { x.2 with linkcount := wadd x.2.linkcount 1 }

/-- The body of the loop of `inode_adjust_filelinks`. -/
def inodeAdjust (inf : Inodeinfo) : FsckM Unit := do
  if inf.type = sfsTypeDir then pure ()
  else do
    assert (inf.type = sfsTypeFile)
    -- because we've seen it, there must be at least one link
    assert (0 < inf.linkcount)
    let sfi ← diskread inf.ino
    assert (sfi.sfiType = sfsTypeFile)
    if sfi.sfiLinkcount ≠ inf.linkcount then do
      complain exitRecov (.fileLinkcount inf.ino sfi.sfiLinkcount inf.linkcount)
      diskwrite (sfi.setLinkcount inf.linkcount) inf.ino

/-- `inode_adjust_filelinks`. -/
def inodeAdjustFilelinks : FsckM Unit := do
  let s ← Prog.get
  Prog.forUp s.inodes.length fun i => inodeAdjust (s.inodes.getD i ⟨0, 0, false, 0⟩)

/-! ### `pass1.c` -/

/-- `struct ibstate`, without the current block. -/
structure Ibstate where
  ino : ℕ
  fileblocks : ℕ
  volblocks : ℕ
  usagetype : BlockUsage

/-- A pointer for block `curfileblock` of the file: outside of the volume or
past EOF it is dropped. The value is the pointer to keep, and how many blocks
past EOF were found. -/
def checkPointer (ibs : Ibstate) (curfileblock block : ℕ) : FsckM (ℕ × ℕ) := do
  if ibs.volblocks ≤ block then do
    complain exitRecov (.directOutside ibs.ino curfileblock block)
    pure (0, 0)
  else if block ≠ 0 then
    if curfileblock < ibs.fileblocks then do
      freemapBlockinuse block ibs.usagetype ibs.ino
      pure (block, 0)
    else do
      setbadness exitRecov
      freemapBlockfree block
      pure (0, 1)
  else pure (0, 0)

/-- What the loops over pointers change: the block they are in, whether it was
changed, and `pasteofcount`. -/
structure Checked where
  block : Block
  changed : Bool
  pasteofcount : ℕ

/-- Pointer `i` of a block, read by `get` and stored by `set`, which is for file
block `base + i`. -/
def checkSlot (get : Block → ℕ → ℕ) (set : Block → ℕ → ℕ → Block) (base : ℕ) (ibs : Ibstate) (i : ℕ) (x : Checked) :
    FsckM Checked := do
  let r ← checkPointer ibs (base + i) (get x.block i)
  if r.1 ≠ get x.block i then pure ⟨set x.block i r.1, true, x.pasteofcount + r.2⟩
  else pure x

/-- Entry `i` of an indirect block. -/
def checkEntry : Ibstate → ℕ → Checked → FsckM Checked := checkSlot Block.entry Block.setEntry sfsNdirect

/-- Direct block `i` of an inode. -/
def checkDirect : Ibstate → ℕ → Checked → FsckM Checked := checkSlot Block.sfiDirect Block.setDirect 0

/-- `check_indirect_block`, of level 1: the inode `x.block` and its pointer
`sfi_indirect`. -/
def checkIndirectBlock (ibs : Ibstate) (x : Checked) : FsckM Checked := do
  if 0 < x.block.sfiIndirect ∧ x.block.sfiIndirect < ibs.volblocks then do
    let entries ← diskread x.block.sfiIndirect
    freemapBlockinuse x.block.sfiIndirect .iblock ibs.ino
    let y ← Prog.foldUp sfsDbperidb (checkEntry ibs) ⟨entries, false, x.pasteofcount⟩
    if ∀ i < sfsDbperidb, y.block.entry i = 0 then do
      setbadness exitRecov
      freemapBlockfree x.block.sfiIndirect
      pure ⟨x.block.setIndirect 0, true, y.pasteofcount⟩
    else do
      if y.changed = true then diskwrite y.block x.block.sfiIndirect
      pure { x with pasteofcount := y.pasteofcount }
  else if ibs.volblocks ≤ x.block.sfiIndirect then do
    complain exitRecov (.indirectOutside ibs.ino sfsNdirect x.block.sfiIndirect)
    pure { x with block := x.block.setIndirect 0, changed := true }
  else pure x

/-- `check_inode_blocks`: the inode and whether it was changed. -/
def checkInodeBlocks (ino : ℕ) (sfi : Block) (isdir : Bool) : FsckM (Block × Bool) := do
  let s ← Prog.get
  let ibs : Ibstate := ⟨ino, sfsRoundup sfi.sfiSize 512 / 512, sbTotalblocks s, if isdir then .dirdata else .data⟩
  let x ← Prog.foldUp sfsNdirect (checkDirect ibs) ⟨sfi, false, 0⟩
  let x ← checkIndirectBlock ibs x
  if 0 < x.pasteofcount then complain exitRecov (.afterEof ino x.pasteofcount)
  pure (x.block, x.changed)

/-- `sfi_waste` is zeroed; the value is the inode and `changed`. -/
def pass1Waste (ino : ℕ) (sfi : Block) (alreadychanged : Bool) : FsckM (Block × Bool) := do
  if (checkzeroed sfi 72 440).2 = true then do
    complain exitRecov (.wasteNotZeroed ino)
    pure ((checkzeroed sfi 72 440).1, true)
  else pure (sfi, alreadychanged)

/-- `pass1_inode` on an inode that is new; the value is the inode. -/
def pass1Check (ino : ℕ) (sfi : Block) (alreadychanged : Bool) : FsckM Block := do
  freemapBlockinuse ino .inode ino
  let w ← pass1Waste ino sfi alreadychanged
  let x ← checkInodeBlocks ino w.1 (sfi.sfiType = sfsTypeDir)
  if w.2 = true ∨ x.2 = true then diskwrite x.1 ino
  pure x.1

/-- `pass1_inode`: whether it has been seen before, and the inode. -/
def pass1Inode (ino : ℕ) (sfi : Block) (alreadychanged : Bool) : FsckM (Bool × Block) := do
  let seen ← inodeAdd ino sfi.sfiType
  if seen = true then do
    -- Already been here.
    assert (alreadychanged = false)
    pure (true, sfi)
  else do
    let sfi ← pass1Check ino sfi alreadychanged
    pure (false, sfi)

/-- A check of `utils.c` on a name; `fixed` is what it hands back. -/
def pass1Fix (fixed : Dirent × Bool) (w : Warning) : FsckM (Dirent × Bool) := do
  if fixed.2 = true then do
    complain exitRecov w
    pure fixed
  else pure fixed

/-- The end of `pass1_direntry`, on an entry with a name and a file. -/
def pass1Name (path : Name) (index : ℕ) (sfd : Dirent) : FsckM (Dirent × Bool) := do
  let a ← pass1Fix (checknullstring sfd 4 sfsNamelen) (.nameNotTerminated path index)
  let b ← pass1Fix (checkbadstring a.1 4 sfsNamelen) (.nameIllegal path index)
  pure (b.1, a.2 || b.2)

/-- A file without a name gets one. -/
def pass1Rename (path : Name) (index : ℕ) (sfd : Dirent) : FsckM Dirent := do
  let id ← uniqueid
  complain exitRecov (.fileNoName path index (fsckName sfd.sfdIno id))
  pure (sfd.setName (fsckName sfd.sfdIno id))

/-- `pass1_direntry`: the entry and whether it was changed. -/
def pass1Direntry (path : Name) (index : ℕ) (sfd : Dirent) : FsckM (Dirent × Bool) := do
  let s ← Prog.get
  if sfd.sfdIno = 0 then
    if sfd.get 4 ≠ 0 then do
      complain exitRecov (.nameNoFile path index)
      pure (sfd.clearName, true)
    else pure (sfd, false)
  else if sbTotalblocks s ≤ sfd.sfdIno then do
    complain exitRecov (.inodeOutOfRange path index)
    pure ((sfd.setIno 0).clearName, true)
  else if sfd.get 4 = 0 then do
    let sfd ← pass1Rename path index sfd
    let x ← pass1Name path index sfd
    pure (x.1, true)
  else pass1Name path index sfd

/-- The first loop of `pass1_dir`. -/
def pass1Slot (path : Name) (i : ℕ) (x : (ℕ → Dirent) × Bool) : FsckM ((ℕ → Dirent) × Bool) := do
  let r ← pass1Direntry path i (x.1 i)
  pure (Function.update x.1 i r.1, x.2 || r.2)

/-- An entry that is followed: it names a file, and is not one of `.` and `..`. -/
def followed (d : Dirent) : Prop := d.sfdIno ≠ 0 ∧ d.sfdName ≠ dot ∧ d.sfdName ≠ dotdot

instance decidableFollowed (d : Dirent) : Decidable (followed d) := inferInstanceAs (Decidable (_ ∧ _ ∧ _))

/-- An entry for an object of an invalid type is removed. -/
def removeInvalid (path : Name) (type i : ℕ) (x : (ℕ → Dirent) × Bool) : FsckM ((ℕ → Dirent) × Bool) := do
  complain exitRecov (.invalidType path type)
  pure (Function.update x.1 i ((x.1 i).setIno 0).clearName, true)

/-- The second loop of `pass1_dir`; `dir` is the recursive call. -/
def pass1Sub (dir : ℕ → Name → FsckM Unit) (path : Name) (i : ℕ) (x : (ℕ → Dirent) × Bool) :
    FsckM ((ℕ → Dirent) × Bool) := do
  if followed (x.1 i) then do
    let subsfi ← diskread (x.1 i).sfdIno
    if subsfi.sfiType = sfsTypeFile then do
      let r ← pass1Inode (x.1 i).sfdIno subsfi false
      if r.1 = false then Prog.modify fun s => { s with countFiles := s.countFiles + 1 }
      pure x
    else if subsfi.sfiType = sfsTypeDir then do
      dir (x.1 i).sfdIno (path ++ 47 :: (x.1 i).sfdName)
      pure x
    else removeInvalid (path ++ 47 :: (x.1 i).sfdName) subsfi.sfiType i x
  else pure x

/-- `pass1_dir` from where the directory's inode has been checked. -/
def pass1Entries (dir : ℕ → Name → FsckM Unit) (ino : ℕ) (sfi : Block) (path : Name) : FsckM Unit := do
  domalloc
  Prog.modify fun s => { s with dirs1 := ino :: s.dirs1 }
  let direntries ← sfsReaddir sfi (sfi.sfiSize / 64)
  let x ← Prog.foldUp (sfi.sfiSize / 64) (pass1Slot path) (direntries, false)
  let y ← Prog.foldUp (sfi.sfiSize / 64) (pass1Sub dir path) x
  if y.2 = true then sfsWritedir sfi y.1 (sfi.sfiSize / 64)

/-- The size check at the start of `pass1_dir`: the inode and `ichanged`. -/
def pass1Size (path : Name) (sfi : Block) : FsckM (Block × Bool) := do
  if sfi.sfiSize % 64 ≠ 0 then do
    complain exitRecov (.illegalSize path sfi.sfiSize)
    pure (sfi.setSize (sfsRoundup sfi.sfiSize 64), true)
  else pure (sfi, false)

/-- `pass1_dir`. -/
def pass1Dir : ℕ → ℕ → Name → FsckM Unit
  | 0, _, _ => Prog.stop
  | fuel + 1, ino, path => do
    let sfi ← diskread ino
    let a ← pass1Size path sfi
    Prog.modify fun s => { s with countDirs := s.countDirs + 1 }
    let r ← pass1Inode ino a.1 a.2
    -- been here before; crosslinked dir, sort it out in pass 2
    if r.1 = true then pure ()
    else pass1Entries (pass1Dir fuel) ino r.2 path

/-- The check of the type in `pass1_rootdir`. -/
def pass1Roottype : FsckM Unit := do
  let sfi ← diskread sfsRootdirIno
  if sfi.sfiType ≠ sfsTypeDir then do
    warnx (if sfi.sfiType = sfsTypeFile then .rootIsFile else .rootInvalidType sfi.sfiType)
    setbadness exitRecov
    diskwrite (sfi.setType sfsTypeDir) sfsRootdirIno

/-- `pass1`. -/
def pass1 (fuel : ℕ) : FsckM Unit := do
  pass1Roottype
  let s ← Prog.get
  pass1Dir fuel sfsRootdirIno (sbVolname s ++ [58])

/-! ### `pass2.c` -/

/-- The entries of a directory, `dchanged`, and the inode with `ichanged`. -/
structure Pass2 where
  direntries : ℕ → Dirent
  dchanged : Bool
  ndirentries : ℕ
  sfi : Block
  ichanged : Bool

/-- The entries `d1`, in slot `k1`, and `d2`, next to each other in the order of
names. -/
def pass2Compare (path : Name) (k1 : ℕ) (d1 d2 : Dirent) (x : (ℕ → Dirent) × Bool) : FsckM ((ℕ → Dirent) × Bool) := do
  -- sfsdir_sort puts these last
  if d1.sfdIno = 0 ∨ d2.sfdIno = 0 then pure x
  else if d1.sfdName = d2.sfdName then
    if d1.sfdIno = d2.sfdIno then do
      complain exitRecov (.duplicateEntries path d1.sfdName)
      pure (Function.update x.1 k1 (d1.setIno 0).clearName, true)
    else do
      let id ← uniqueid
      complain exitRecov (.duplicateNames path d2.sfdName (fsckName d1.sfdIno id))
      pure (Function.update x.1 k1 (d1.setName (fsckName d1.sfdIno id)), true)
  else pure x

/-- The loop over entries that the sort put next to each other. -/
def pass2Pair (path : Name) (sortvector : ℕ → ℕ) (i : ℕ) (x : (ℕ → Dirent) × Bool) :
    FsckM ((ℕ → Dirent) × Bool) := do
  assert (sortvector i ≠ sortvector (i + 1))
  pass2Compare path (sortvector i) (x.1 (sortvector i)) (x.1 (sortvector (i + 1))) x

/-- What the search for `.` and `..` changes. -/
structure Dots where
  direntries : ℕ → Dirent
  dchanged : Bool
  dotseen : Bool
  dotdotseen : Bool

/-- An entry `.` or `..` that should name `ino`. -/
def pass2Retarget (ino : ℕ) (w : Warning) (i : ℕ) (x : (ℕ → Dirent) × Bool) : FsckM ((ℕ → Dirent) × Bool) := do
  if (x.1 i).sfdIno ≠ ino then do
    complain exitRecov w
    pure (Function.update x.1 i ((x.1 i).setIno ino), true)
  else pure x

/-- One entry in the search for `.` and `..`. -/
def pass2Dots (ino parentino : ℕ) (path : Name) (i : ℕ) (x : Dots) : FsckM Dots := do
  if (x.direntries i).sfdName = dot then do
    let y ← pass2Retarget ino (.incorrectDot path) i (x.direntries, x.dchanged)
    -- duplicates are checked above -> only one . here
    assert (x.dotseen = false)
    pure ⟨y.1, y.2, true, x.dotdotseen⟩
  else if (x.direntries i).sfdName = dotdot then do
    let y ← pass2Retarget parentino (.incorrectDotdot path) i (x.direntries, x.dchanged)
    -- duplicates are checked above -> only one .. here
    assert (x.dotdotseen = false)
    pure ⟨y.1, y.2, x.dotseen, true⟩
  else pure x

/-- If there is no `.` or `..` entry, try to insert one; `maxdirentries` is the
number of slots of the buffer. -/
def pass2Insert (maxdirentries : ℕ) (name : Name) (ino : ℕ) (warn : Bool → Warning) (seen : Bool) (x : Pass2) :
    FsckM Pass2 :=
  if seen = true then pure x
  else
    match sfsdirTryadd x.direntries x.ndirentries name ino with
    | some d => do
      complain exitRecov (warn true)
      pure { x with direntries := d, dchanged := true }
    | none =>
      match sfsdirTryadd x.direntries maxdirentries name ino with
      | some d => do
        complain exitRecov (warn true)
        pure
          { direntries := d
            dchanged := true
            ndirentries := x.ndirentries + 1
            sfi := x.sfi.setSize (x.sfi.sfiSize + 64)
            ichanged := true }
      | none => do
        complain exitUnrecov (warn false)
        pure x

/-- The entries after the sort and the search for `.` and `..`; there are
`ndirentries` of them, in a buffer for `maxdirentries`. -/
def pass2Names (ino parentino : ℕ) (path : Name) (sfi : Block) (ndirentries maxdirentries : ℕ) : FsckM Pass2 := do
  domalloc
  domalloc
  -- dirsize is computed in 32 bits
  if wcast (maxdirentries * 64) < ndirentries * 64 then Prog.fail .overrun
  else do
    let direntries ← sfsReaddir sfi ndirentries
    let sortvector ← sfsdirSort direntries ndirentries
    let x ← Prog.foldUp (ndirentries - 1) (pass2Pair path sortvector)
      (fun i => if i < ndirentries then direntries i else Dirent.zeros, false)
    let y ← Prog.foldUp ndirentries (pass2Dots ino parentino path) ⟨x.1, x.2, false, false⟩
    let z ← pass2Insert maxdirentries dot ino (.noDot path) y.dotseen ⟨y.direntries, y.dchanged, ndirentries, sfi, false⟩
    pass2Insert maxdirentries dotdot parentino (.noDotdot path) y.dotdotseen z

/-- The loop that follows the entries; `subdircount` is counted along. -/
def pass2Sub (dir : ℕ → ℕ → Name → FsckM Bool) (ino : ℕ) (path : Name) (i : ℕ) (x : ((ℕ → Dirent) × Bool) × ℕ) :
    FsckM (((ℕ → Dirent) × Bool) × ℕ) := do
  if followed (x.1.1 i) then do
    let subsfi ← diskread (x.1.1 i).sfdIno
    if subsfi.sfiType = sfsTypeFile then do
      inodeAddlink (x.1.1 i).sfdIno
      pure x
    else if subsfi.sfiType = sfsTypeDir then do
      let crosslinked ← dir (x.1.1 i).sfdIno ino (path ++ 47 :: (x.1.1 i).sfdName)
      if crosslinked = true then do
        complain exitRecov (.crosslink (path ++ 47 :: (x.1.1 i).sfdName))
        pure ((Function.update x.1.1 i ((x.1.1 i).setIno 0).clearName, true), x.2)
      else pure (x.1, x.2 + 1)
    else do
      let y ← removeInvalid (path ++ 47 :: (x.1.1 i).sfdName) subsfi.sfiType i x.1
      pure (y, x.2)
  else pure x

/-- The link count of a directory is corrected. -/
def pass2Linkcount (path : Name) (sfi : Block) (subdircount : ℕ) : FsckM (Block × Bool) := do
  if sfi.sfiLinkcount ≠ subdircount + 2 then do
    complain exitRecov (.dirLinkcount path sfi.sfiLinkcount (subdircount + 2))
    pure (sfi.setLinkcount (subdircount + 2), true)
  else pure (sfi, false)

/-- The end of `pass2_dir`: the link count is corrected, and what changed is
written back. -/
def pass2Finish (ino : ℕ) (path : Name) (x : Pass2) (subdircount : ℕ) : FsckM Unit := do
  let y ← pass2Linkcount path x.sfi subdircount
  if x.dchanged = true then sfsWritedir y.1 x.direntries x.ndirentries
  if x.ichanged = true ∨ y.2 = true then diskwrite y.1 ino

/-- `pass2_dir`: whether the parent is to remove the entry. -/
def pass2Dir : ℕ → ℕ → ℕ → Name → FsckM Bool
  | 0, _, _, _ => Prog.stop
  | fuel + 1, ino, parentino, path => do
    let visited ← inodeVisitdir ino
    -- crosslinked dir; tell parent to remove the entry
    if visited = true then pure true
    else do
      Prog.modify fun s => { s with dirs2 := ino :: s.dirs2 }
      let sfi ← diskread ino
      let x ← pass2Names ino parentino path sfi (sfi.sfiSize / 64) (sfsRoundup (sfi.sfiSize / 64) 8)
      let y ← Prog.foldUp x.ndirentries (pass2Sub (pass2Dir fuel) ino path) ((x.direntries, x.dchanged), 0)
      pass2Finish ino path { x with direntries := y.1.1, dchanged := y.1.2 } y.2
      pure false

/-- `pass2`. -/
def pass2 (fuel : ℕ) : FsckM Unit := do
  let s ← Prog.get
  let _ ← pass2Dir fuel sfsRootdirIno sfsRootdirIno (sbVolname s ++ [58])

/-! ### `main` -/

/-- `main` up to the end of pass 1. -/
def sfsckPass1 (fuel : ℕ) : FsckM Unit := do
  sbLoad
  sbCheck
  freemapSetup
  pass1 fuel

/-- The static variables of a program that starts on a disk of `nblocks` blocks. -/
def start (sectors : ℕ → Block) (nblocks : ℕ) (ios mallocs : ℕ → Bool) : Fsck where
  sectors := sectors
  nblocks := nblocks
  ios := ios
  badness := exitClean
  uniquecounter := 0
  mallocs := mallocs
  warnings := []
  sb := Block.zeros
  blocksinuse := 0
  freemapdata := fun _ => 0
  tofreedata := fun _ => 0
  inodes := []
  inodesSorted := false
  countDirs := 0
  countFiles := 0
  dirs1 := []
  dirs2 := []

/-- `main`; the value is the exit code. -/
def sfsck (fuel : ℕ) : FsckM ℕ := do
  sfsckPass1 fuel
  freemapCheck
  inodeSorttable
  pass2 fuel
  inodeAdjustFilelinks
  let s ← Prog.get
  assert (s.badness ≤ exitUnrecov)
  pure s.badness

end Sfsck

end Os161
