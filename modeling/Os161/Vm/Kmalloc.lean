/-
# The kernel heap

`kern/vm/kmalloc.c` with its debugging options off: pages of equal blocks
with a free list in the free blocks, pagerefs that describe the pages, on two
linked lists, and the bitmap allocator of the pagerefs themselves.

Addresses are natural numbers with 0 the null pointer. The pagerefs are a map
from their addresses, the words of the heap pages another (`mem`, by the
address of the word). Calls are one at a time, so the spinlock is left out.

`alloc_kpages` is a parameter: what it will return is a stream in the state
(`oracle`), 0 for failure. A stream that returns a page in use, or one that
is not a page, is no behaviour of `alloc_kpages`; a run that meets one fails
here and is left out of every statement. A failed assertion, a panic, or a
walk that does not end stops the machine.
-/
import Os161.Lib.Prog
import Os161.Lib.Word
import Os161.Lib.Linked
import Os161.Lib.Bitmap

namespace Os161

/-- `PAGE_SIZE`. -/
def pageSize : ℕ := 4096

/-- `NSIZES`. -/
def nsizes : ℕ := 8

/-- `sizes`. -/
def sizes (i : ℕ) : ℕ := [16, 32, 64, 128, 256, 512, 1024, 2048].getD i 0

/-- `LARGEST_SUBPAGE_SIZE`. -/
def largestSubpageSize : ℕ := 2048

/-- `INVALID_OFFSET`. -/
def invalidOffset : ℕ := 0xffff

/-- `NPAGEREFS_PER_PAGE`, a pageref being 16 bytes. -/
def npagerefsPerPage : ℕ := 256

/-- `NUM_PAGEREFPAGES`. -/
def numPagerefpages : ℕ := 16

/-- `TOTAL_PAGEREFS`. -/
def totalPagerefs : ℕ := numPagerefpages * npagerefsPerPage

/-- `struct pageref`. -/
structure Pageref where
  nextSamesize : ℕ
  nextAll : ℕ
  pageaddrAndBlocktype : ℕ
  freelistOffset : ℕ
  nfree : ℕ

/-- `PR_PAGEADDR`. -/
def Pageref.pageaddr (pr : Pageref) : ℕ := pr.pageaddrAndBlocktype / pageSize * pageSize

/-- `PR_BLOCKTYPE`. -/
def Pageref.blocktype (pr : Pageref) : ℕ := pr.pageaddrAndBlocktype % pageSize

/-- `MKPAB`. -/
def mkpab (pa blk : ℕ) : ℕ := pa / pageSize * pageSize + blk % pageSize

/-- `struct kheap_root`. -/
structure KheapRoot where
  page : ℕ
  pagerefsInuse : ℕ → BitVec 32
  numinuse : ℕ

/-- The allocator's variables, the memory it manages, the regions in use
(their addresses and numbers of pages) and what `alloc_kpages` returns next. -/
structure Kheap where
  kheaproots : ℕ → KheapRoot
  refs : ℕ → Pageref
  sizebases : ℕ → ℕ
  allbase : ℕ
  mem : ℕ → ℕ
  kpages : List (ℕ × ℕ)
  oracle : ℕ → ℕ

namespace Kheap

/-- The heap at boot. -/
def init (oracle : ℕ → ℕ) : Kheap where
  kheaproots := fun _ => ⟨0, fun _ => 0, 0⟩
  refs := fun _ => ⟨0, 0, 0, 0, 0⟩
  sizebases := fun _ => 0
  allbase := 0
  mem := fun _ => 0
  kpages := []
  oracle := oracle

/-- Two regions of pages have no page in common. -/
def DisjointPages (a n b m : ℕ) : Prop := a + n * pageSize ≤ b ∨ b + m * pageSize ≤ a

instance (a n b m : ℕ) : Decidable (DisjointPages a n b m) := inferInstanceAs (Decidable (_ ∨ _))

/-- `n` pages at `a` are whole pages of the address space and not in use. -/
def FreePages (s : Kheap) (a n : ℕ) : Prop :=
  a % pageSize = 0 ∧ a + n * pageSize < 2 ^ 32 ∧ a + pageSize < 2 ^ 32 ∧
    ∀ r ∈ s.kpages, DisjointPages a n r.1 r.2

instance (s : Kheap) (a n : ℕ) : Decidable (s.FreePages a n) :=
  inferInstanceAs (Decidable (_ ∧ _ ∧ _ ∧ _))

def setRef (p : ℕ) (r : Pageref) (s : Kheap) : Kheap := { s with refs := Function.update s.refs p r }

def setRoot (i : ℕ) (r : KheapRoot) (s : Kheap) : Kheap :=
  { s with kheaproots := Function.update s.kheaproots i r }

def setWord (a w : ℕ) (s : Kheap) : Kheap := { s with mem := Function.update s.mem a w }

end Kheap

/-- `alloc_kpages`. -/
def allocKpages (npages : ℕ) : Prog Unit Kheap ℕ := fun s =>
  let a := s.oracle 0
  let s' := { s with oracle := fun i => s.oracle (i + 1) }
  if a = 0 then .ok 0 s'
  else if s.FreePages a npages then .ok a { s' with kpages := (a, npages) :: s.kpages }
  else .fail () s

/-- `free_kpages`. -/
def freeKpages (va : ℕ) : Prog Unit Kheap Unit :=
  Prog.modify fun s => { s with kpages := s.kpages.filter fun r => r.1 ≠ va }

/-! ### Pagerefs -/

/-- `allocpagerefpage`. The caller's root has no page. -/
def allocpagerefpage (whichroot : ℕ) : Prog Unit Kheap Unit := do
  let root ← Prog.gets fun s => s.kheaproots whichroot
  Prog.assert (root.page = 0)
  let va ← allocKpages 1
  if va = 0 then pure ()
  else do
    Prog.assert (va % pageSize = 0)
    let root ← Prog.gets fun s => s.kheaproots whichroot
    if root.page ≠ 0 then freeKpages va
    else Prog.modify fun s => s.setRoot whichroot { s.kheaproots whichroot with page := va }

/-- `pagerefs_inuse[i] |= k`, `k` being bit `j`. -/
def KheapRoot.mark (i j : ℕ) (root : KheapRoot) : KheapRoot :=
  { root with
    pagerefsInuse := Bitmap.mark root.pagerefsInuse i j
    numinuse := root.numinuse + 1 }

/-- `pagerefs_inuse[i] &= ~k`. -/
def KheapRoot.unmark (i j : ℕ) (root : KheapRoot) : KheapRoot :=
  { root with
    pagerefsInuse := Bitmap.unmark root.pagerefsInuse i j
    numinuse := root.numinuse - 1 }

/-- The loop of `allocpageref` over the roots. -/
def allocpagerefFrom : List ℕ → Prog Unit Kheap ℕ
  | [] => pure 0
  | whichroot :: rest => do
    let root ← Prog.gets fun s => s.kheaproots whichroot
    if npagerefsPerPage ≤ root.numinuse then allocpagerefFrom rest
    else
      match Bitmap.findClear root.pagerefsInuse 8 with
      | none => allocpagerefFrom rest
      | some none => Prog.stop
      | some (some (i, j)) => do
        Prog.modify fun s => s.setRoot whichroot (root.mark i j)
        if root.page = 0 then do
          allocpagerefpage whichroot
          let root' ← Prog.gets fun s => s.kheaproots whichroot
          if root'.page = 0 then pure 0 else pure (root'.page + 16 * (i * 32 + j))
        else pure (root.page + 16 * (i * 32 + j))

/-- `allocpageref`. -/
def allocpageref : Prog Unit Kheap ℕ := allocpagerefFrom (List.range numPagerefpages)

/-- The loop of `freepageref` over the roots. -/
def freepagerefFrom (p : ℕ) : List ℕ → Prog Unit Kheap Unit
  | [] => Prog.stop
  | whichroot :: rest => do
    let root ← Prog.gets fun s => s.kheaproots whichroot
    if root.page = 0 then do
      Prog.assert (root.numinuse = 0)
      freepagerefFrom p rest
    else
      let j := wsub p root.page / 16
      if j < npagerefsPerPage then do
        Prog.assert ((root.pagerefsInuse (j / 32)).getLsbD (j % 32))
        Prog.assert (0 < root.numinuse)
        Prog.modify fun s => s.setRoot whichroot (root.unmark (j / 32) (j % 32))
      else freepagerefFrom p rest

/-- `freepageref`. -/
def freepageref (p : ℕ) : Prog Unit Kheap Unit := freepagerefFrom p (List.range numPagerefpages)

/-- The first walk of `remove_lists`, with its pointer to a pointer. -/
def unlinkSamesize (pr blktype : ℕ) : Prog Unit Kheap Unit := fun s =>
  match findLink (fun p => (s.refs p).nextSamesize) pr (totalPagerefs + 1) none (s.sizebases blktype) with
  | none => .stop
  | some none => .ok () s
  | some (some none) =>
    .ok () { s with sizebases := Function.update s.sizebases blktype (s.refs pr).nextSamesize }
  | some (some (some q)) => .ok () (s.setRef q { s.refs q with nextSamesize := (s.refs pr).nextSamesize })

/-- The second walk. -/
def unlinkAll (pr : ℕ) : Prog Unit Kheap Unit := fun s =>
  match findLink (fun p => (s.refs p).nextAll) pr (totalPagerefs + 1) none s.allbase with
  | none => .stop
  | some none => .ok () s
  | some (some none) => .ok () { s with allbase := (s.refs pr).nextAll }
  | some (some (some q)) => .ok () (s.setRef q { s.refs q with nextAll := (s.refs pr).nextAll })

/-- `remove_lists`. -/
def removeLists (pr blktype : ℕ) : Prog Unit Kheap Unit := do
  Prog.assert (blktype < nsizes)
  unlinkSamesize pr blktype
  unlinkAll pr

/-! ### Blocks -/

/-- `blocktype`. -/
def blocktype (clientsz : ℕ) : Prog Unit Kheap ℕ :=
  match (List.range nsizes).find? fun i => clientsz ≤ sizes i with
  | some i => pure i
  | none => Prog.stop

/-- The walk of `subpage_kmalloc` over the pages of one size; 0 if none has a
free block. -/
def findPage (blktype : ℕ) : ℕ → ℕ → Prog Unit Kheap ℕ
  | 0, _ => Prog.stop
  | n + 1, pr =>
    if pr = 0 then pure 0
    else do
      let r ← Prog.gets fun s => s.refs pr
      Prog.assert (r.blocktype = blktype)
      if 0 < r.nfree then pure pr else findPage blktype n r.nextSamesize

/-- From `doalloc`: take the first block of the free list. -/
def doalloc (pr : ℕ) : Prog Unit Kheap ℕ := do
  let r ← Prog.gets fun s => s.refs pr
  Prog.assert (r.freelistOffset < pageSize)
  let prpage := r.pageaddr
  let fla := prpage + r.freelistOffset
  let fl ← Prog.gets fun s => s.mem fla
  let nfree := r.nfree - 1
  Prog.assert (if fl ≠ 0 then 0 < nfree ∧ wsub fl prpage < pageSize else nfree = 0)
  Prog.modify fun s =>
    s.setRef pr { r with nfree, freelistOffset := if fl ≠ 0 then wsub fl prpage else invalidOffset }
  pure fla

/-- The free list of a new page: each block links to the one before it. -/
def initFreelist (prpage blksize nfree : ℕ) : Prog Unit Kheap Unit := do
  Prog.modify fun s => s.setWord prpage 0
  Prog.forUp (nfree - 1) fun i => do
    Prog.modify fun s => s.setWord (prpage + (i + 1) * blksize) (prpage + i * blksize)
    Prog.assert (prpage + (i + 1) * blksize ≠ prpage + i * blksize)

/-- `subpage_kmalloc`. -/
def subpageKmalloc (sz : ℕ) : Prog Unit Kheap ℕ := do
  let blktype ← blocktype sz
  let base ← Prog.gets fun s => s.sizebases blktype
  let pr ← findPage blktype (totalPagerefs + 1) base
  if pr ≠ 0 then doalloc pr
  else do
    let prpage ← allocKpages 1
    if prpage = 0 then pure 0
    else do
      Prog.assert (prpage % pageSize = 0)
      let pr ← allocpageref
      if pr = 0 then do
        freeKpages prpage
        pure 0
      else do
        let nfree := pageSize / sizes blktype
        Prog.modify fun s =>
          s.setRef pr { s.refs pr with pageaddrAndBlocktype := mkpab prpage blktype, nfree }
        initFreelist prpage (sizes blktype) nfree
        let offset := (nfree - 1) * sizes blktype
        Prog.modify fun s => s.setRef pr { s.refs pr with freelistOffset := offset }
        Prog.modify fun s =>
          { s.setRef pr { s.refs pr with nextSamesize := s.sizebases blktype } with
            sizebases := Function.update s.sizebases blktype pr }
        Prog.modify fun s => { s.setRef pr { s.refs pr with nextAll := s.allbase } with allbase := pr }
        doalloc pr

/-- The walk of `subpage_kfree` for the page of an address; 0 if it is on none. -/
def findRef (ptraddr : ℕ) : ℕ → ℕ → Prog Unit Kheap ℕ
  | 0, _ => Prog.stop
  | n + 1, pr =>
    if pr = 0 then pure 0
    else do
      let r ← Prog.gets fun s => s.refs pr
      Prog.assert (r.blocktype < nsizes)
      if r.pageaddr ≤ ptraddr ∧ ptraddr < wadd r.pageaddr pageSize then pure pr
      else findRef ptraddr n r.nextAll

/-- `fill_deadbeef`. -/
def fillDeadbeef (ptr len : ℕ) : Prog Unit Kheap Unit :=
  Prog.modify fun s => { s with mem := fun a => if ptr ≤ a ∧ a < ptr + len then 0xdeadbeef else s.mem a }

/-- `subpage_kfree`; `false` is the result -1. -/
def subpageKfree (ptr : ℕ) : Prog Unit Kheap Bool := do
  let base ← Prog.gets fun s => s.allbase
  let pr ← findRef ptr (totalPagerefs + 1) base
  if pr = 0 then pure false
  else do
    let r ← Prog.gets fun s => s.refs pr
    let prpage := r.pageaddr
    let blktype := r.blocktype
    let offset := ptr - prpage
    -- "kfree: subpage free of invalid addr"
    Prog.assert (¬ (pageSize ≤ offset ∨ offset % sizes blktype ≠ 0))
    fillDeadbeef ptr (sizes blktype)
    let fla := prpage + offset
    let next := if r.freelistOffset = invalidOffset then 0 else prpage + r.freelistOffset
    Prog.modify fun s => s.setWord fla next
    -- only the head of the free list is compared
    Prog.assert (r.freelistOffset ≠ invalidOffset → fla ≠ next)
    let nfree := r.nfree + 1
    Prog.modify fun s => s.setRef pr { r with freelistOffset := offset, nfree }
    Prog.assert (nfree ≤ pageSize / sizes blktype)
    (if nfree = pageSize / sizes blktype then do
      removeLists pr blktype
      freepageref pr
      freeKpages prpage
    else pure () : Prog Unit Kheap Unit)
    pure true

/-- `kmalloc`. -/
def kmalloc (sz : ℕ) : Prog Unit Kheap ℕ := do
  if largestSubpageSize ≤ sz then do
    let npages := wadd sz (pageSize - 1) / pageSize
    let address ← allocKpages npages
    if address = 0 then pure 0
    else do
      Prog.assert (address % pageSize = 0)
      pure address
  else subpageKmalloc sz

/-- `kfree`. -/
def kfree (ptr : ℕ) : Prog Unit Kheap Unit := do
  if ptr = 0 then pure ()
  else do
    let found ← subpageKfree ptr
    if found then pure ()
    else do
      Prog.assert (ptr % pageSize = 0)
      freeKpages ptr

end Os161
