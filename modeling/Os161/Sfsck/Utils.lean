/-
# `sfsck`: its state, the disk and the superblock

`userland/sbin/sfsck`: `main.c`, `utils.c`, `sb.c`, and `disk.c` of `mksfs`,
which it shares. The state is the disk and the static variables of all files.
Whether each coming disk operation and each `malloc` succeeds is part of it.

`sfsck` ends early (`Exit`) on an error of the disk, by `errx`, or by a failed
`assert`; it then hands back the state it was in. What it prints is a list of
`Warning`s. `dirs1` and `dirs2` record which directories' entries each pass has
gone through, in order; the code does not read them.
-/
import Os161.Sfs.Mksfs
import Os161.Lib.Keeps

namespace Os161

/-- A C string: the bytes before its terminator. -/
abbrev Name := List UInt8

/-- `blockusage_t`. -/
inductive BlockUsage
  | superblock
  | freemapblock
  | inode
  | iblock
  | dirdata
  | data
  | pastend
  deriving DecidableEq

namespace Sfsck

/-- `EXIT_CLEAN`, `EXIT_RECOV`, `EXIT_UNRECOV` and `EXIT_FATAL`. -/
def exitClean : ℕ := 0
@[inherit_doc exitClean] def exitRecov : ℕ := 1
@[inherit_doc exitClean] def exitUnrecov : ℕ := 2
@[inherit_doc exitClean] def exitFatal : ℕ := 3

/-- How a run ends early. -/
inductive Exit
  -- "unexpected EOF in mid-sector" and other errors of the disk
  | err
  -- "Out of memory"
  | outOfMemory
  -- "Not an sfs filesystem"
  | notSfs
  -- "FATAL: inode %u wasn't found in my inode table"
  | inodeNotFound (ino : ℕ)
  -- a failed assert
  | assertion
  -- the entries of a directory do not fit the buffer for them
  | overrun
  deriving DecidableEq

/-- What `warnx` is called with. -/
inductive Warning
  -- sb.c
  | volnameNotTerminated
  | volnameIllegal
  | reservedNotZeroed
  -- freemap.c
  | alreadyInUse (block : ℕ) (how : BlockUsage) (howdesc : ℕ)
  | shownFree (block : ℕ)
  | shownAllocated (block : ℕ)
  | countShownFree (count : ℕ)
  | countShownUsed (count : ℕ)
  -- sfs.c
  | sparseDirectory
  | writeToSparse
  -- pass1.c
  | indirectOutside (ino curfileblock block : ℕ)
  | directOutside (ino curfileblock block : ℕ)
  | afterEof (ino count : ℕ)
  | wasteNotZeroed (ino : ℕ)
  | nameNoFile (path : Name) (index : ℕ)
  | inodeOutOfRange (path : Name) (index : ℕ)
  | fileNoName (path : Name) (index : ℕ) (name : Name)
  | nameNotTerminated (path : Name) (index : ℕ)
  | nameIllegal (path : Name) (index : ℕ)
  | illegalSize (path : Name) (size : ℕ)
  | invalidType (path : Name) (type : ℕ)
  | rootIsFile
  | rootInvalidType (type : ℕ)
  -- pass2.c
  | duplicateEntries (path name : Name)
  | duplicateNames (path name newname : Name)
  | incorrectDot (path : Name)
  | incorrectDotdot (path : Name)
  | noDot (path : Name) (added : Bool)
  | noDotdot (path : Name) (added : Bool)
  | crosslink (path : Name)
  | dirLinkcount (path : Name) (linkcount expected : ℕ)
  -- inode.c
  | fileLinkcount (ino linkcount expected : ℕ)

/-- `struct inodeinfo`. -/
structure Inodeinfo where
  ino : ℕ
  linkcount : ℕ
  visited : Bool
  type : ℕ
  deriving DecidableEq

end Sfsck

open Sfsck in
/-- The disk and the static variables. -/
structure Fsck where
  -- disk.c
  sectors : ℕ → Block
  nblocks : ℕ
  ios : ℕ → Bool
  -- main.c, utils.c
  badness : ℕ
  uniquecounter : ℕ
  mallocs : ℕ → Bool
  warnings : List Warning
  -- sb.c
  sb : Block
  -- freemap.c
  blocksinuse : ℕ
  freemapdata : ℕ → BitVec 8
  tofreedata : ℕ → BitVec 8
  -- inode.c
  inodes : List Inodeinfo
  inodesSorted : Bool
  -- pass1.c
  countDirs : ℕ
  countFiles : ℕ
  dirs1 : List ℕ
  -- pass2.c
  dirs2 : List ℕ

namespace Sfsck

/-- A run of a part of `sfsck`. -/
abbrev FsckM (α : Type) := Prog Exit Fsck α

/-! ### `main.c` and `utils.c` -/

/-- `setbadness`. -/
def setbadness (code : ℕ) : FsckM Unit :=
  Prog.modify fun s => { s with badness := if s.badness < code then code else s.badness }

/-- `warnx`. -/
def warnx (w : Warning) : FsckM Unit := Prog.modify fun s => { s with warnings := s.warnings ++ [w] }

/-- `setbadness` and `warnx`. -/
def complain (code : ℕ) (w : Warning) : FsckM Unit := do
  setbadness code
  warnx w

/-- `assert`. -/
def assert (p : Prop) [Decidable p] : FsckM Unit := if p then pure () else Prog.fail .assertion

/-- `domalloc`, for its outcome. -/
def domalloc : FsckM Unit := do
  let s ← Prog.get
  Prog.modify fun s => { s with mallocs := fun i => s.mallocs (i + 1) }
  if s.mallocs 0 then pure () else Prog.fail .outOfMemory

/-- `uniqueid`. -/
def uniqueid : FsckM ℕ := do
  let s ← Prog.get
  Prog.modify fun s => { s with uniquecounter := wadd s.uniquecounter 1 }
  pure s.uniquecounter

section Strings

variable {N : ℕ} [NeZero N] (buf : Bytes N) (off maxlen : ℕ)

/-- The length of the string in the field of `maxlen` bytes at `off`. -/
def strlen : ℕ := ((List.range maxlen).takeWhile fun i => buf.get (off + i) ≠ 0).length

/-- `checknullstring` on the field of `maxlen` bytes at `off`. -/
@[irreducible] def checknullstring : Bytes N × Bool :=
  if ∃ i < maxlen, buf.get (off + i) = 0 then (buf, false) else (buf.setField (off + maxlen - 1) 1 0, true)

/-- `checkbadstring`: colons and slashes become underscores. -/
@[irreducible] def checkbadstring : Bytes N × Bool :=
  (Bytes.ofFun fun a =>
      if off ≤ a ∧ a < off + strlen buf off maxlen ∧ (buf.get a = 58 ∨ buf.get a = 47) then 95 else buf.get a,
    decide (∃ i < strlen buf off maxlen, buf.get (off + i) = 58 ∨ buf.get (off + i) = 47))

/-- `checkzeroed`. -/
@[irreducible] def checkzeroed : Bytes N × Bool :=
  (Bytes.ofFun fun a => if off ≤ a ∧ a < off + maxlen then 0 else buf.get a,
    decide (∃ i < maxlen, buf.get (off + i) ≠ 0))

end Strings

/-! ### `disk.c` -/

/-- The sector that `lseek` goes to: the offset of the block is computed in 32 bits. -/
def seek (block : ℕ) : ℕ := wcast (block * 512) / 512

/-- The next disk operation is on this block. -/
def diskio (block : ℕ) : FsckM Unit := do
  let s ← Prog.get
  Prog.modify fun s => { s with ios := fun i => s.ios (i + 1) }
  if s.ios 0 = true ∧ seek block < s.nblocks then pure () else Prog.fail .err

/-- `diskread`. -/
def diskread (block : ℕ) : FsckM Block := do
  diskio block
  Prog.gets fun s => s.sectors (seek block)

/-- `diskwrite`. -/
def diskwrite (data : Block) (block : ℕ) : FsckM Unit := do
  diskio block
  Prog.modify fun s => { s with sectors := Function.update s.sectors (seek block) data }

/-! ### `sb.c` -/

/-- `sb_totalblocks`. -/
def sbTotalblocks (s : Fsck) : ℕ := s.sb.field 4 4

/-- `sb_freemapblocks`. -/
def sbFreemapblocks (s : Fsck) : ℕ := sfsFreemapblocks (sbTotalblocks s)

/-- `sb_volname`. -/
def sbVolname (s : Fsck) : Name := ((List.range sfsVolnameSize).map fun i => s.sb.get (8 + i)).takeWhile fun c => c ≠ 0

/-- `sb_load`. -/
def sbLoad : FsckM Unit := do
  let sb ← diskread sfsSuperBlock
  Prog.modify fun s => { s with sb := sb }
  if sb.field 0 4 ≠ sfsMagic then Prog.fail .notSfs
  let s ← Prog.get
  assert (0 < sbTotalblocks s)
  assert (0 < sbFreemapblocks s)

/-- One check of `sb_check`: `fixed` is the superblock and whether it was changed. -/
def sbFix (fixed : Block → Block × Bool) (w : Warning) (schanged : Bool) : FsckM Bool := do
  let s ← Prog.get
  if (fixed s.sb).2 then do
    Prog.modify fun s => { s with sb := (fixed s.sb).1 }
    complain exitRecov w
    pure true
  else pure schanged

/-- `sb_check`. -/
def sbCheck : FsckM Unit := do
  let schanged ← sbFix (fun sb => checknullstring sb 8 sfsVolnameSize) .volnameNotTerminated false
  let schanged ← sbFix (fun sb => checkbadstring sb 8 sfsVolnameSize) .volnameIllegal schanged
  let schanged ← sbFix (fun sb => checkzeroed sb 40 472) .reservedNotZeroed schanged
  if schanged then do
    let s ← Prog.get
    diskwrite s.sb sfsSuperBlock

end Sfsck

end Os161
