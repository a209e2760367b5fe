/-
# The invariant of the kernel heap

`HeapInv s live pages`: what the variables of `kmalloc.c` are between two
calls, `live` being the blocks handed out with their requested sizes and
`pages` the pagerefs of the heap pages in the order of `allbase`. Every page
is on its two lists, its free list runs through its free blocks, the bitmaps
mark the pagerefs in use, and everything lies in regions that `alloc_kpages`
gave out for it alone.
-/
import Os161.Vm.Pagerefs

namespace Os161

/-- `a` is a block of the page at `page`, cut into blocks of `size`. -/
def IsBlock (page size a : ℕ) : Prop := ∃ i < pageSize / size, a = page + i * size

namespace Pageref

/-- The block size of the page. -/
def size (r : Pageref) : ℕ := sizes r.blocktype

/-- The number of blocks of the page. -/
def nblocks (r : Pageref) : ℕ := pageSize / r.size

/-- The first block of the free list. -/
def head (r : Pageref) : ℕ := if r.freelistOffset = invalidOffset then 0 else r.pageaddr + r.freelistOffset

/-- Two pagerefs that differ in their links at most. -/
structure SamePage (r r' : Pageref) : Prop where
  addr : r'.pageaddrAndBlocktype = r.pageaddrAndBlocktype
  offset : r'.freelistOffset = r.freelistOffset
  nfree : r'.nfree = r.nfree

namespace SamePage

variable {r r' : Pageref}

theorem refl (r : Pageref) : SamePage r r := ⟨rfl, rfl, rfl⟩

theorem trans {r'' : Pageref} (h : SamePage r r') (h' : SamePage r' r'') : SamePage r r'' :=
  ⟨h'.addr.trans h.addr, h'.offset.trans h.offset, h'.nfree.trans h.nfree⟩

theorem pageaddr (h : SamePage r r') : r'.pageaddr = r.pageaddr := by simp only [Pageref.pageaddr, h.addr]

theorem blocktype (h : SamePage r r') : r'.blocktype = r.blocktype := by simp only [Pageref.blocktype, h.addr]

theorem size (h : SamePage r r') : r'.size = r.size := by simp only [Pageref.size, h.blocktype]

theorem head (h : SamePage r r') : r'.head = r.head := by simp only [Pageref.head, h.pageaddr, h.offset]

end SamePage

end Pageref

/-- The free list of a page: it ends, holds exactly the blocks that are not
handed out, and has the length `nfree`. -/
structure FreeList (mem : ℕ → ℕ) (live : ℕ → Option ℕ) (r : Pageref) (fl : List ℕ) : Prop where
  linked : Linked mem r.head fl
  length : fl.length = r.nfree
  block : ∀ a ∈ fl, IsBlock r.pageaddr r.size a
  free : ∀ a, IsBlock r.pageaddr r.size a → (a ∈ fl ↔ live a = none)

/-- A page of the heap. -/
structure PageInv (mem : ℕ → ℕ) (live : ℕ → Option ℕ) (r : Pageref) : Prop where
  blocktype : r.blocktype < nsizes
  freelist : ∃ fl, FreeList mem live r fl

/-- **The invariant of the heap.** -/
structure HeapInv (s : Kheap) (live : ℕ → Option ℕ) (pages : List ℕ) : Prop where
  all : Linked (fun p => (s.refs p).nextAll) s.allbase pages
  same : ∀ b < nsizes, Linked (fun p => (s.refs p).nextSamesize) (s.sizebases b)
    (pages.filter fun p => (s.refs p).blocktype = b)
  page : ∀ p ∈ pages, PageInv s.mem live (s.refs p)
  pagerefs : PagerefInv s.kheaproots s.kpages pages
  regions : RegionsInv s.kpages
  pageRegion : ∀ p ∈ pages, ((s.refs p).pageaddr, 1) ∈ s.kpages
  pageInj : ∀ p ∈ pages, ∀ q ∈ pages, (s.refs p).pageaddr = (s.refs q).pageaddr → p = q
  pageRoot : ∀ p ∈ pages, ∀ r < numPagerefpages, (s.refs p).pageaddr ≠ (s.kheaproots r).page
  live : ∀ a sz, live a = some sz →
    (∃ p ∈ pages, IsBlock (s.refs p).pageaddr (s.refs p).size a ∧ sz ≤ (s.refs p).size) ∨
    (∃ n, (a, n) ∈ s.kpages ∧ sz ≤ n * pageSize ∧ (∀ p ∈ pages, (s.refs p).pageaddr ≠ a) ∧
      ∀ r < numPagerefpages, (s.kheaproots r).page ≠ a)
  oracle : ∀ i, s.oracle i ≠ 0

/-! ### Sizes and blocks -/

theorem sizes_spec {b : ℕ} (hb : b < nsizes) : 16 ≤ sizes b ∧ sizes b ∣ pageSize ∧ sizes b ≤ 2048 := by
  unfold nsizes at hb
  interval_cases b <;> decide

section Blocks

variable {page size a c : ℕ}

theorem IsBlock.le (h : IsBlock page size a) : page ≤ a := by
  obtain ⟨i, -, rfl⟩ := h
  exact Nat.le_add_right _ _

/-- A block ends before its page does. -/
theorem IsBlock.end_le (h : IsBlock page size a) : a + size ≤ page + pageSize := by
  obtain ⟨i, hi, rfl⟩ := h
  have h1 : (i + 1) * size ≤ pageSize := (Nat.mul_le_mul_right _ hi).trans (Nat.div_mul_le_self _ _)
  have h2 : (i + 1) * size = i * size + size := by ring
  omega

/-- Two blocks of a page do not overlap. -/
theorem IsBlock.disjoint (ha : IsBlock page size a) (hc : IsBlock page size c) (hne : a ≠ c) :
    a + size ≤ c ∨ c + size ≤ a := by
  obtain ⟨i, -, rfl⟩ := ha
  obtain ⟨j, -, rfl⟩ := hc
  rcases Nat.lt_trichotomy i j with hij | rfl | hij
  · left
    have : (i + 1) * size ≤ j * size := Nat.mul_le_mul_right _ hij
    have h2 : (i + 1) * size = i * size + size := by ring
    omega
  · exact absurd rfl hne
  · right
    have : (j + 1) * size ≤ i * size := Nat.mul_le_mul_right _ hij
    have h2 : (j + 1) * size = j * size + size := by ring
    omega

/-- A page has no more blocks than fit. -/
theorem blocks_length {l : List ℕ} (hnd : l.Nodup) (h : ∀ a ∈ l, IsBlock page size a) :
    l.length ≤ pageSize / size := by
  have hsub : l.toFinset ⊆ (Finset.range (pageSize / size)).image fun i => page + i * size := by
    intro a ha
    obtain ⟨i, hi, rfl⟩ := h a (List.mem_toFinset.mp ha)
    exact Finset.mem_image.mpr ⟨i, Finset.mem_range.mpr hi, rfl⟩
  calc l.length = l.toFinset.card := (List.toFinset_card_of_nodup hnd).symm
    _ ≤ ((Finset.range (pageSize / size)).image fun i => page + i * size).card := Finset.card_le_card hsub
    _ ≤ pageSize / size := Finset.card_image_le.trans (Finset.card_range _).le

end Blocks

theorem pageaddr_mod (r : Pageref) : r.pageaddr % pageSize = 0 := Nat.mul_mod_left _ _

theorem mkpab_pageaddr {pa blk : ℕ} (hpa : pa % pageSize = 0) : mkpab pa blk / pageSize * pageSize = pa := by
  unfold mkpab pageSize at *
  omega

theorem mkpab_blocktype {pa blk : ℕ} (hb : blk < nsizes) : mkpab pa blk % pageSize = blk := by
  unfold mkpab pageSize nsizes at *
  omega

/-! ### Frames -/

/-- A page is as it was if its links and the state of its blocks are. -/
theorem PageInv.congr {mem mem' : ℕ → ℕ} {live live' : ℕ → Option ℕ} {r r' : Pageref} (h : PageInv mem live r)
    (hr : r.SamePage r') (hlive : ∀ a, IsBlock r.pageaddr r.size a → (live' a = none ↔ live a = none))
    (hmem : ∀ a, IsBlock r.pageaddr r.size a → live a = none → mem' a = mem a) : PageInv mem' live' r' := by
  obtain ⟨hb, fl, hfl⟩ := h
  refine ⟨hr.blocktype ▸ hb, fl, ?_, hr.nfree ▸ hfl.length, ?_, ?_⟩
  · rw [hr.head]
    exact hfl.linked.congr fun a ha => hmem a (hfl.block a ha) ((hfl.free a (hfl.block a ha)).mp ha)
  · rw [hr.pageaddr, hr.size]
    exact hfl.block
  · rw [hr.pageaddr, hr.size]
    intro a ha
    rw [hfl.free a ha, hlive a ha]

/-- Blocks of different pages are different. -/
theorem IsBlock.ne_of_page {page page' size size' a : ℕ} (hp : page % pageSize = 0) (hp' : page' % pageSize = 0)
    (hne : page ≠ page') (hs : 0 < size) (hs' : 0 < size') (h : IsBlock page size a) : ¬ IsBlock page' size' a := by
  intro h'
  have h1 := h.le
  have h2 := h.end_le
  have h3 := h'.le
  have h4 := h'.end_le
  unfold pageSize at *
  omega

namespace HeapInv

variable {s : Kheap} {live : ℕ → Option ℕ} {pages : List ℕ}

theorem size_pos (h : HeapInv s live pages) {p : ℕ} (hp : p ∈ pages) : 16 ≤ (s.refs p).size :=
  (sizes_spec (h.page p hp).blocktype).1

/-- A block of one page is not a block of another. -/
theorem block_page (h : HeapInv s live pages) {p q a : ℕ} (hp : p ∈ pages) (hq : q ∈ pages)
    (ha : IsBlock (s.refs p).pageaddr (s.refs p).size a) (hne : q ≠ p) :
    ¬ IsBlock (s.refs q).pageaddr (s.refs q).size a := by
  have h1 := h.size_pos hp
  have h2 := h.size_pos hq
  exact ha.ne_of_page (pageaddr_mod _) (pageaddr_mod _) (fun he => hne (h.pageInj p hp q hq he).symm)
    (by omega) (by omega)

/-- The pagerefs fit in the pages of pagerefs. -/
theorem length_le (h : HeapInv s live pages) : pages.length ≤ totalPagerefs := by
  have hsub : pages.toFinset ⊆ (Finset.range numPagerefpages ×ˢ Finset.range npagerefsPerPage).image
      fun x => (s.kheaproots x.1).page + 16 * x.2 := by
    intro p hp
    obtain ⟨r, hr, j, hj, -, rfl⟩ := h.pagerefs.cover p (List.mem_toFinset.mp hp)
    exact Finset.mem_image.mpr ⟨(r, j), Finset.mem_product.mpr ⟨Finset.mem_range.mpr hr, Finset.mem_range.mpr hj⟩, rfl⟩
  calc pages.length = pages.toFinset.card := (List.toFinset_card_of_nodup h.all.nodup).symm
    _ ≤ _ := Finset.card_le_card hsub
    _ ≤ (Finset.range numPagerefpages ×ˢ Finset.range npagerefsPerPage).card := Finset.card_image_le
    _ = totalPagerefs := by simp [totalPagerefs]

/-- A heap page lies in the address space. -/
theorem page_lt (h : HeapInv s live pages) {p : ℕ} (hp : p ∈ pages) : (s.refs p).pageaddr + pageSize < 2 ^ 32 := by
  have := (h.regions.pages _ (h.pageRegion p hp)).2.2.2
  simpa using this

/-- A block handed out lies in a region, and no block of another region is it. -/
theorem live_region (h : HeapInv s live pages) {a sz : ℕ} (ha : live a = some sz) :
    ∃ x ∈ s.kpages, x.1 ≤ a ∧ a < x.1 + x.2 * pageSize ∧ a + sz ≤ x.1 + x.2 * pageSize := by
  rcases h.live a sz ha with ⟨p, hp, hb, hsz⟩ | ⟨n, hn, hsz, -⟩
  · have h1 := hb.le
    have h2 := hb.end_le
    have h3 := h.size_pos hp
    exact ⟨_, h.pageRegion p hp, h1, by simp only; omega, by simp only; omega⟩
  · have h1 := (h.regions.pages _ hn).2.2.1
    refine ⟨_, hn, le_rfl, ?_, ?_⟩
    · simp only [pageSize] at *
      omega
    · simp only
      omega

/-- A block handed out on a heap page is a block of that page. -/
theorem live_on_page (h : HeapInv s live pages) {a sz p : ℕ} (ha : live a = some sz) (hp : p ∈ pages)
    (h1 : (s.refs p).pageaddr ≤ a) (h2 : a < (s.refs p).pageaddr + pageSize) :
    IsBlock (s.refs p).pageaddr (s.refs p).size a ∧ sz ≤ (s.refs p).size := by
  rcases h.live a sz ha with ⟨q, hq, hb, hsz⟩ | ⟨n, hn, -, hnp, -⟩
  · obtain rfl : q = p := by
      by_contra hne
      have h3 := h.regions.apart (h.pageRegion q hq) (h.pageRegion p hp) fun he => hne (h.pageInj q hq p hp he)
      have h4 := hb.le
      have h5 := hb.end_le
      have h6 := h.size_pos hq
      unfold Kheap.DisjointPages at h3
      omega
    exact ⟨hb, hsz⟩
  · have h3 := h.regions.apart (h.pageRegion p hp) hn (hnp p hp)
    have h4 := (h.regions.pages _ hn).2.2.1
    unfold Kheap.DisjointPages pageSize at *
    simp only at h3 h4
    omega

/-- No block of a region not in use is handed out. -/
theorem live_fresh (h : HeapInv s live pages) {P n a : ℕ} (hfree : s.FreePages P n) (h1 : P ≤ a)
    (h2 : a < P + n * pageSize) : live a = none := by
  by_contra hne
  obtain ⟨sz, hsz⟩ := Option.ne_none_iff_exists'.mp hne
  obtain ⟨x, hx, hx1, hx2, -⟩ := h.live_region hsz
  have := hfree.2.2.2 x hx
  unfold Kheap.DisjointPages at this
  omega

/-- A region taken from the free pages. -/
theorem allocRegion (h : HeapInv s live pages) {a n : ℕ} (hfree : s.FreePages a n) (ha : a ≠ 0) (hn : 0 < n) :
    HeapInv { s with oracle := fun i => s.oracle (i + 1), kpages := (a, n) :: s.kpages } live pages where
  all := h.all
  same := h.same
  page := h.page
  pagerefs := h.pagerefs.mono fun x hx => List.mem_cons_of_mem _ hx
  regions := h.regions.alloc hfree ha hn
  pageRegion p hp := List.mem_cons_of_mem _ (h.pageRegion p hp)
  pageInj := h.pageInj
  pageRoot := h.pageRoot
  live c sz hc := by
    rcases h.live c sz hc with hl | ⟨m, hm, hr⟩
    · exact Or.inl hl
    · exact Or.inr ⟨m, List.mem_cons_of_mem _ hm, hr⟩
  oracle i := h.oracle _

/-- **A change of one page**: its pageref keeps its links and its page, and
what changes of the memory and of the blocks handed out is on that page. -/
theorem setPage (h : HeapInv s live pages) {p : ℕ} (hp : p ∈ pages) {r' : Pageref} {mem' : ℕ → ℕ}
    {live' : ℕ → Option ℕ} (hab : r'.pageaddrAndBlocktype = (s.refs p).pageaddrAndBlocktype)
    (hsame : r'.nextSamesize = (s.refs p).nextSamesize) (hall : r'.nextAll = (s.refs p).nextAll)
    (hpage : PageInv mem' live' r')
    (hmem : ∀ a, a < (s.refs p).pageaddr ∨ (s.refs p).pageaddr + pageSize ≤ a → mem' a = s.mem a)
    (hlive : ∀ a, ¬ IsBlock (s.refs p).pageaddr (s.refs p).size a → live' a = live a)
    (hsz : ∀ a sz, IsBlock (s.refs p).pageaddr (s.refs p).size a → live' a = some sz → sz ≤ (s.refs p).size) :
    HeapInv { s with refs := Function.update s.refs p r', mem := mem' } live' pages := by
  have hrefs : ∀ {β : Type} (f : Pageref → β), f r' = f (s.refs p) →
      ∀ q, f (Function.update s.refs p r' q) = f (s.refs q) := by
    intro β f hf q
    by_cases hq : q = p
    · rw [hq, Function.update_self, hf]
    · rw [Function.update_of_ne hq]
  have hpa := hrefs Pageref.pageaddr (by simp only [Pageref.pageaddr, hab])
  have hbt := hrefs Pageref.blocktype (by simp only [Pageref.blocktype, hab])
  have hsize := hrefs Pageref.size (by simp only [Pageref.size, Pageref.blocktype, hab])
  refine ⟨?_, fun b hb => ?_, fun q hq => ?_, h.pagerefs, h.regions, fun q hq => ?_, fun q hq q' hq' => ?_,
    fun q hq r hr => ?_, fun a sz ha => ?_, h.oracle⟩
  · simpa only [hrefs Pageref.nextAll hall] using h.all
  · simpa only [hrefs Pageref.nextSamesize hsame, hbt] using h.same b hb
  · by_cases hqp : q = p
    · subst hqp
      simpa only [Function.update_self] using hpage
    · simp only [Function.update_of_ne hqp]
      -- the blocks of another page are not on this one
      refine (h.page q hq).congr (Pageref.SamePage.refl _) (fun a ha => ?_) fun a ha _ => hmem a ?_
      · rw [hlive a (h.block_page hq hp ha (Ne.symm hqp))]
      · have h1 := h.regions.apart (h.pageRegion q hq) (h.pageRegion p hp) fun he => hqp (h.pageInj q hq p hp he)
        have h2 := ha.le
        have h3 := ha.end_le
        have h4 := h.size_pos hq
        unfold Kheap.DisjointPages at h1
        omega
  · simpa only [hpa] using h.pageRegion q hq
  · simpa only [hpa] using h.pageInj q hq q' hq'
  · simpa only [hpa] using h.pageRoot q hq r hr
  · simp only [hpa, hsize]
    by_cases hb : IsBlock (s.refs p).pageaddr (s.refs p).size a
    · exact Or.inl ⟨p, hp, hb, hsz a sz hb ha⟩
    · rw [hlive a hb] at ha
      exact h.live a sz ha

end HeapInv

/-- **Blocks handed out do not overlap.** -/
theorem HeapInv.live_disjoint {s : Kheap} {live : ℕ → Option ℕ} {pages : List ℕ} (h : HeapInv s live pages)
    {a b sza szb : ℕ} (ha : live a = some sza) (hb : live b = some szb) (hne : a ≠ b) :
    a + sza ≤ b ∨ b + szb ≤ a := by
  have hregions : ∀ {x y : ℕ × ℕ}, x ∈ s.kpages → y ∈ s.kpages → x.1 ≠ y.1 → a + sza ≤ x.1 + x.2 * pageSize →
      x.1 ≤ a → b + szb ≤ y.1 + y.2 * pageSize → y.1 ≤ b → a + sza ≤ b ∨ b + szb ≤ a := by
    intro x y hx hy hxy h1 h2 h3 h4
    have := h.regions.apart hx hy hxy
    unfold Kheap.DisjointPages at this
    omega
  rcases h.live a sza ha with ⟨p, hp, hpa, hps⟩ | ⟨n, hn, hns, hnp, -⟩ <;>
    rcases h.live b szb hb with ⟨q, hq, hqb, hqs⟩ | ⟨m, hm, hms, hmp, -⟩
  · by_cases hpq : p = q
    · subst hpq
      have := hpa.disjoint hqb hne
      omega
    · have h1 := hpa.end_le
      have h2 := hqb.end_le
      exact hregions (h.pageRegion p hp) (h.pageRegion q hq) (fun he => hpq (h.pageInj p hp q hq he))
        (by simp only; omega) hpa.le (by simp only; omega) hqb.le
  · have h1 := hpa.end_le
    exact hregions (h.pageRegion p hp) hm (hmp p hp) (by simp only; omega) hpa.le (by simp only; omega) le_rfl
  · have h1 := hqb.end_le
    exact hregions hn (h.pageRegion q hq) (hnp q hq).symm (by simp only; omega) le_rfl (by simp only; omega) hqb.le
  · exact hregions hn hm hne (by simp only; omega) le_rfl (by simp only; omega) le_rfl

end Os161
