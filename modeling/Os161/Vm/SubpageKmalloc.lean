/-
# Allocating a block

`subpage_kmalloc`: a block of a page that has one (`doalloc_page`), or of a
new page whose free list has just been built (`initFreelist_wp`,
`HeapInv.addPage`). In both cases the block returned was not handed out, is
large enough, and the heap keeps its invariant with the block handed out.
-/
import Os161.Vm.HeapInv

namespace Os161

variable {s : Kheap} {live : ℕ → Option ℕ} {pages : List ℕ}

theorem blocktype_wp {sz : ℕ} (h : sz < largestSubpageSize) (Q : ℕ → Kheap → Prop) (E : Unit → Kheap → Prop)
    (hQ : ∀ b < nsizes, sz ≤ sizes b → (List.range nsizes).find? (fun i => sz ≤ sizes i) = some b → Q b s) :
    Prog.wp (blocktype sz) Q E s := by
  unfold blocktype
  cases hf : (List.range nsizes).find? fun i => decide (sz ≤ sizes i) with
  | none =>
    rw [List.find?_eq_none] at hf
    have h7 : ¬ sz ≤ sizes 7 := by simpa using hf 7 (by decide)
    have : sizes 7 = 2048 := by decide
    unfold largestSubpageSize at h
    omega
  | some b => exact hQ b (List.mem_range.mp (List.mem_of_find?_eq_some hf)) (by simpa using List.find?_some hf) hf

/-- The walk returns a page of the size with a free block, if there is one. -/
theorem findPage_wp {b : ℕ} : ∀ {xs : List ℕ} {n h : ℕ}, Linked (fun p => (s.refs p).nextSamesize) h xs →
    xs.length < n → (∀ p ∈ xs, (s.refs p).blocktype = b) →
    Prog.wp (findPage b n h) (fun pr t => t = s ∧ (pr ≠ 0 → pr ∈ xs ∧ 0 < (s.refs pr).nfree) ∧
      (pr = 0 → ∀ p ∈ xs, (s.refs p).nfree = 0)) (fun _ _ => True) s
  | [], n + 1, h, hl, _, _ => by
    obtain rfl : h = 0 := hl
    rw [findPage, if_pos rfl]
    exact ⟨rfl, fun h => absurd rfl h, fun _ p hp => nomatch hp⟩
  | x :: xs, n + 1, h, hl, hn, hb => by
    obtain ⟨rfl, h0, hl⟩ := hl
    rw [findPage, if_neg h0]
    simp only [Prog.wp_bind, Prog.wp_gets, Prog.wp_assert, Prog.wp_ite, Prog.wp_pure]
    refine ⟨hb h List.mem_cons_self, fun hf => ⟨trivial, fun _ => ⟨List.mem_cons_self, hf⟩, fun hz => absurd hz h0⟩,
      fun hfull => ?_⟩
    refine Prog.wp_mono (findPage_wp hl (by simpa using hn) fun p hp => hb p (List.mem_cons_of_mem _ hp))
      (fun pr t ht => ⟨ht.1, fun hne => ?_, fun hz p hp => ?_⟩) fun _ _ h => h
    · exact ⟨List.mem_cons_of_mem _ (ht.2.1 hne).1, (ht.2.1 hne).2⟩
    · rcases List.mem_cons.mp hp with rfl | hp
      · exact Nat.eq_zero_of_not_pos hfull
      · exact ht.2.2 hz p hp

/-- The free list without its first block. -/
theorem FreeList.pop {mem : ℕ → ℕ} {r r' : Pageref} {a : ℕ} {fl : List ℕ} (h : FreeList mem live r (a :: fl))
    (hab : r'.pageaddrAndBlocktype = r.pageaddrAndBlocktype) (hhead : r'.head = mem a) (hn : r'.nfree = r.nfree - 1)
    (sz : ℕ) : FreeList mem (Function.update live a (some sz)) r' fl := by
  have hpa : r'.pageaddr = r.pageaddr := by simp only [Pageref.pageaddr, hab]
  have hsz : r'.size = r.size := by simp only [Pageref.size, Pageref.blocktype, hab]
  have hnd := List.nodup_cons.mp h.linked.nodup
  have hlen := h.length
  refine ⟨hhead ▸ h.linked.2.2, ?_, ?_, ?_⟩
  · simp only [List.length_cons] at hlen
    omega
  · rw [hpa, hsz]
    exact fun c hc => h.block c (List.mem_cons_of_mem _ hc)
  · rw [hpa, hsz]
    intro c hc
    by_cases hca : c = a
    · subst hca
      simp [hnd.1]
    · rw [Function.update_of_ne hca, ← h.free c hc, List.mem_cons]
      simp [hca]

/-- **`doalloc`** takes the first block of the free list. -/
theorem doalloc_page {pr : ℕ} (hpage : PageInv s.mem live (s.refs pr)) (hfree : 0 < (s.refs pr).nfree) :
    Prog.wp (doalloc pr) (fun a t => IsBlock (s.refs pr).pageaddr (s.refs pr).size a ∧ live a = none ∧
      ∃ r', t = s.setRef pr r' ∧ r'.pageaddrAndBlocktype = (s.refs pr).pageaddrAndBlocktype ∧
        r'.nextSamesize = (s.refs pr).nextSamesize ∧ r'.nextAll = (s.refs pr).nextAll ∧
        ∀ sz, PageInv s.mem (Function.update live a (some sz)) r') (fun _ _ => True) s := by
  obtain ⟨hbt, fl, hfl⟩ := hpage
  have hsz := (sizes_spec hbt).1
  -- every block of the list starts on the page
  have hon : ∀ a ∈ fl, (s.refs pr).pageaddr ≤ a ∧ a < (s.refs pr).pageaddr + pageSize := by
    intro a ha
    have h1 := (hfl.block a ha).le
    have h2 := (hfl.block a ha).end_le
    unfold Pageref.size at h2
    omega
  cases fl with
  | nil =>
    have := hfl.length
    simp only [List.length_nil] at this
    omega
  | cons a fl =>
    have hlen := hfl.length
    rw [List.length_cons] at hlen
    obtain ⟨hhead, h0, htail⟩ := hfl.linked
    have hoff : (s.refs pr).freelistOffset ≠ invalidOffset := by
      intro he
      rw [Pageref.head, if_pos he] at hhead
      exact h0 hhead.symm
    rw [Pageref.head, if_neg hoff] at hhead
    have ha := hon a List.mem_cons_self
    unfold doalloc
    simp only [Prog.wp_bind, Prog.wp_gets, Prog.wp_assert, Prog.wp_modify, Prog.wp_pure, hhead]
    have hbl := hfl.block a List.mem_cons_self
    refine ⟨by omega, ?_, hbl, (hfl.free a hbl).mp List.mem_cons_self, _, rfl, rfl, rfl, rfl,
      fun sz => ⟨hbt, fl, hfl.pop ?_ ?_ ?_ sz⟩⟩
    · split_ifs with hn
      · cases fl with
        | nil => exact absurd htail hn
        | cons b fl =>
          have hb := hon b (by simp)
          rw [← htail.1] at hb
          rw [wsub_of_le hb.1]
          exact ⟨by simp only [List.length_cons] at hlen; omega, by omega⟩
      · have := (not_not.mp hn ▸ htail).head_zero
        subst this
        simp only [List.length_nil] at hlen
        omega
    · rfl
    · by_cases hn : s.mem a = 0
      · simp [Pageref.head, hn]
      · have hb : (s.refs pr).pageaddr ≤ s.mem a ∧ s.mem a < (s.refs pr).pageaddr + pageSize := by
          cases fl with
          | nil => exact absurd htail hn
          | cons b fl => exact htail.1 ▸ hon b (by simp)
        have hne : s.mem a - (s.refs pr).pageaddr ≠ invalidOffset := by
          unfold invalidOffset pageSize at *
          omega
        simp only [Pageref.head, ne_eq, hn, not_false_eq_true, if_true, wsub_of_le hb.1, if_neg hne]
        show (s.refs pr).pageaddr + _ = _
        omega
    · rfl

/-! ### A new page -/

/-- The blocks of a page from the last to the first. -/
def freshList (page size : ℕ) : ℕ → List ℕ
  | 0 => []
  | n + 1 => (page + n * size) :: freshList page size n

theorem mem_freshList {page size a : ℕ} : ∀ {n : ℕ}, a ∈ freshList page size n ↔ ∃ i < n, a = page + i * size
  | 0 => by simp [freshList]
  | n + 1 => by
    rw [freshList, List.mem_cons, mem_freshList]
    constructor
    · rintro (h | ⟨i, hi, h⟩)
      · exact ⟨n, by omega, h⟩
      · exact ⟨i, by omega, h⟩
    · rintro ⟨i, hi, h⟩
      rcases Nat.lt_succ_iff_lt_or_eq.mp hi with hi | rfl
      · exact Or.inr ⟨i, hi, h⟩
      · exact Or.inl h

theorem length_freshList {page size : ℕ} : ∀ n : ℕ, (freshList page size n).length = n
  | 0 => rfl
  | n + 1 => by rw [freshList, List.length_cons, length_freshList n]

/-- **The free list of a new page** runs through all its blocks. -/
theorem initFreelist_wp {page size n : ℕ} (hp : page ≠ 0) (hs : 0 < size) (hn : 0 < n) (hfit : n * size ≤ pageSize) :
    Prog.wp (initFreelist page size n) (fun _ t => ∃ mem, t = { s with mem } ∧
      (∀ a, a < page ∨ page + pageSize ≤ a → mem a = s.mem a) ∧
      Linked mem (page + (n - 1) * size) (freshList page size n)) (fun _ _ => True) s := by
  unfold initFreelist
  simp only [Prog.wp_bind, Prog.wp_modify]
  refine Prog.wp_mono (Prog.wp_forUp (I := fun i t => ∃ mem, t = { s with mem } ∧
      (∀ a, a < page ∨ page + pageSize ≤ a → mem a = s.mem a) ∧
      Linked mem (page + i * size) (freshList page size (i + 1))) ?_ ?_) (fun _ t ht => ?_) fun _ _ h => h
  · have hpos : 0 < pageSize := by decide
    refine ⟨_, rfl, fun a ha => Function.update_of_ne (by omega) _ _, ?_⟩
    rw [Nat.zero_mul, Nat.add_zero]
    refine ⟨by simp, by simpa using hp, ?_⟩
    show Function.update s.mem page 0 _ = 0
    simp
  · rintro i hi _ ⟨mem, rfl, hoff, hl⟩
    have hlt : (i + 1) * size + size ≤ pageSize := by
      have : (i + 1 + 1) * size ≤ n * size := Nat.mul_le_mul_right _ (by omega)
      rw [Nat.add_mul (i + 1), Nat.one_mul] at this
      omega
    have hne : (i + 1) * size = i * size + size := by ring
    simp only [Prog.wp_bind, Prog.wp_modify, Prog.wp_assert]
    refine ⟨by omega, _, rfl, fun a ha => ?_, ?_⟩
    · rw [← hoff a ha]
      exact Function.update_of_ne (by omega) _ _
    · rw [freshList]
      refine hl.push (by omega) (Function.update_self _ _ _) fun y hy => Function.update_of_ne ?_ _ _
      obtain ⟨k, hk, rfl⟩ := mem_freshList.mp hy
      have : k * size ≤ i * size := Nat.mul_le_mul_right _ (by omega)
      omega
  · simpa only [show n - 1 + 1 = n by omega] using ht

/-- The pageref of a new page of block type `b`. -/
def newPageref (t : Kheap) (page b : ℕ) : Pageref where
  nextSamesize := t.sizebases b
  nextAll := t.allbase
  pageaddrAndBlocktype := mkpab page b
  freelistOffset := (pageSize / sizes b - 1) * sizes b
  nfree := pageSize / sizes b

section NewPage

variable {t : Kheap} {page b : ℕ}

theorem newPageref_pageaddr (hp : page % pageSize = 0) : (newPageref t page b).pageaddr = page := mkpab_pageaddr hp

theorem newPageref_blocktype (hb : b < nsizes) : (newPageref t page b).blocktype = b := mkpab_blocktype hb

theorem newPageref_size (hb : b < nsizes) : (newPageref t page b).size = sizes b := by
  rw [Pageref.size, newPageref_blocktype hb]

/-- The new page is a page of the heap with all its blocks free. -/
theorem newPageref_page {mem : ℕ → ℕ} (hp : page % pageSize = 0) (hb : b < nsizes)
    (hl : Linked mem (page + (pageSize / sizes b - 1) * sizes b) (freshList page (sizes b) (pageSize / sizes b)))
    (hlive : ∀ a, page ≤ a → a < page + pageSize → live a = none) : PageInv mem live (newPageref t page b) := by
  have hsz := sizes_spec hb
  have hoff : (newPageref t page b).freelistOffset ≠ invalidOffset := by
    have h1 : (pageSize / sizes b - 1) * sizes b ≤ pageSize / sizes b * sizes b := Nat.mul_le_mul_right _ (Nat.sub_le _ _)
    have h2 := Nat.div_mul_le_self pageSize (sizes b)
    unfold newPageref invalidOffset
    simp only [pageSize] at *
    omega
  refine ⟨by rwa [newPageref_blocktype hb], freshList page (sizes b) (pageSize / sizes b), ?_, ?_, ?_, ?_⟩
  · rw [Pageref.head, if_neg hoff, newPageref_pageaddr hp]
    exact hl
  · exact length_freshList _
  · rw [newPageref_pageaddr hp, newPageref_size hb]
    exact fun a ha => mem_freshList.mp ha
  · rw [newPageref_pageaddr hp, newPageref_size hb]
    intro a ha
    have h1 := ha.le
    have h2 := ha.end_le
    exact ⟨fun _ => hlive a h1 (by omega), fun _ => mem_freshList.mpr ha⟩

/-- The heap with a new page put on its lists. -/
def addPage (t : Kheap) (p page b : ℕ) (mem : ℕ → ℕ) : Kheap :=
  { t with
    refs := Function.update t.refs p (newPageref t page b)
    mem
    sizebases := Function.update t.sizebases b p
    allbase := p }

/-- **A new page**: a region of its own, a pageref of its own, all its blocks
free. -/
theorem HeapInv.addPage (h : HeapInv s live pages) {p : ℕ} {mem : ℕ → ℕ} (ht : PagerefAlloc s pages p t) (hb : b < nsizes)
    (hreg : (page, 1) ∈ s.kpages) (hpage : ∀ q ∈ pages, (s.refs q).pageaddr ≠ page)
    (hroot : ∀ r < numPagerefpages, (s.kheaproots r).page ≠ page)
    (hlive : ∀ a, page ≤ a → a < page + pageSize → live a = none)
    (hmem : ∀ a, a < page ∨ page + pageSize ≤ a → mem a = s.mem a)
    (hl : Linked mem (page + (pageSize / sizes b - 1) * sizes b) (freshList page (sizes b) (pageSize / sizes b))) :
    HeapInv (addPage t p page b mem) live (p :: pages) := by
  have hrefs : t.refs = s.refs := by rw [ht.frame]
  have hbases : t.sizebases = s.sizebases := by rw [ht.frame]
  have hbase : t.allbase = s.allbase := by rw [ht.frame]
  have hmod : page % pageSize = 0 := (h.regions.pages _ hreg).2.1
  have hnew : (Os161.addPage t p page b mem).refs p = newPageref t page b := Function.update_self _ _ _
  have hold : ∀ q ∈ pages, (Os161.addPage t p page b mem).refs q = s.refs q := by
    intro q hq
    rw [← hrefs]
    exact Function.update_of_ne (fun he : q = p => ht.notMem (he ▸ hq)) _ _
  have hfilter : ∀ c, pages.filter (fun q => ((Os161.addPage t p page b mem).refs q).blocktype = c) =
      pages.filter fun q => (s.refs q).blocktype = c :=
    fun c => List.filter_congr fun q hq => by rw [hold q hq]
  -- a page of pagerefs is at no address that was in use before
  have hpr : ∀ r < numPagerefpages, ∀ x ∈ s.kpages, (s.kheaproots r).page ≠ x.1 → (t.kheaproots r).page ≠ x.1 := by
    intro r hr x hx hne
    rcases ht.pages r hr with he | hfresh
    · rwa [he]
    · exact (hfresh x hx).symm
  refine ⟨?_, fun c hc => ?_, fun q hq => ?_, ht.inv, ht.regions, fun q hq => ?_, fun q hq q' hq' he => ?_,
    fun q hq r hr => ?_, fun a sz ha => ?_, ht.oracle⟩
  · show Linked _ p (p :: pages)
    refine h.all.push ht.ne_zero ?_ fun q hq => by rw [hold q hq]
    rw [hnew]
    exact hbase
  · rw [List.filter_cons]
    by_cases hcb : c = b
    · subst hcb
      rw [if_pos (by simp [hnew, newPageref_blocktype hb]), hfilter]
      have hhead : (Os161.addPage t p page c mem).sizebases c = p := Function.update_self _ _ _
      rw [hhead]
      refine (h.same c hc).push ht.ne_zero ?_ fun q hq => by rw [hold q (List.mem_of_mem_filter hq)]
      rw [hnew, ← hbases]
      rfl
    · rw [if_neg (by simpa [hnew, newPageref_blocktype hb] using Ne.symm hcb), hfilter]
      have hhead : (Os161.addPage t p page b mem).sizebases c = s.sizebases c := by
        rw [← hbases]
        exact Function.update_of_ne hcb _ _
      rw [hhead]
      exact (h.same c hc).congr fun q hq => by rw [hold q (List.mem_of_mem_filter hq)]
  · rcases List.mem_cons.mp hq with rfl | hq
    · rw [hnew]
      exact newPageref_page hmod hb hl hlive
    · rw [hold q hq]
      refine (h.page q hq).congr (Pageref.SamePage.refl _) (fun _ _ => Iff.rfl) fun a ha _ => hmem a ?_
      have h1 := h.regions.apart (h.pageRegion q hq) hreg (hpage q hq)
      have h2 := ha.le
      have h3 := ha.end_le
      have h4 := h.size_pos hq
      unfold Kheap.DisjointPages at h1
      omega
  · rcases List.mem_cons.mp hq with rfl | hq
    · rw [hnew, newPageref_pageaddr hmod]
      exact ht.keep _ hreg
    · rw [hold q hq]
      exact ht.keep _ (h.pageRegion q hq)
  · rcases List.mem_cons.mp hq with rfl | h1 <;> rcases List.mem_cons.mp hq' with rfl | h2
    · rfl
    · rw [hnew, newPageref_pageaddr hmod, hold q' h2] at he
      exact absurd he.symm (hpage q' h2)
    · rw [hnew, newPageref_pageaddr hmod, hold q h1] at he
      exact absurd he (hpage q h1)
    · rw [hold q h1, hold q' h2] at he
      exact h.pageInj q h1 q' h2 he
  · rcases List.mem_cons.mp hq with rfl | hq
    · rw [hnew, newPageref_pageaddr hmod]
      exact (hpr r hr _ hreg (hroot r hr)).symm
    · rw [hold q hq]
      exact (hpr r hr _ (h.pageRegion q hq) (h.pageRoot q hq r hr).symm).symm
  · rcases h.live a sz ha with ⟨q, hq, hbl⟩ | ⟨n, hn, hsz, hnp, hnr⟩
    · exact Or.inl ⟨q, List.mem_cons_of_mem _ hq, by rwa [hold q hq]⟩
    · refine Or.inr ⟨n, ht.keep _ hn, hsz, fun q hq => ?_, fun r hr => hpr r hr _ hn (hnr r hr)⟩
      rcases List.mem_cons.mp hq with rfl | hq
      · rw [hnew, newPageref_pageaddr hmod]
        rintro rfl
        have h1 : live page = none := hlive page le_rfl (by unfold pageSize; omega)
        rw [ha] at h1
        cases h1
      · rw [hold q hq]
        exact hnp q hq

end NewPage

/-! ### The whole function -/

/-- `doalloc` on a page of the heap. -/
theorem doalloc_wp {pr sz : ℕ} (h : HeapInv s live pages) (hpr : pr ∈ pages) (hfree : 0 < (s.refs pr).nfree)
    (hsz : sz ≤ (s.refs pr).size) :
    Prog.wp (doalloc pr) (fun a t => a ≠ 0 ∧ live a = none ∧ HeapInv t (Function.update live a (some sz)) pages)
      (fun _ _ => True) s := by
  refine Prog.wp_mono (doalloc_page (h.page pr hpr) hfree) (fun a t => ?_) fun _ _ h => h
  rintro ⟨hbl, hnone, r', rfl, hab, hsame, hall, hpage⟩
  have h0 := (h.regions.pages _ (h.pageRegion pr hpr)).1
  have hle := hbl.le
  refine ⟨by simp only at h0; omega, hnone, ?_⟩
  refine h.setPage hpr hab hsame hall (hpage sz) (fun _ _ => rfl) (fun c hc => ?_) fun c sz' hcb hc' => ?_
  · exact Function.update_of_ne (fun he : c = a => hc (he ▸ hbl)) _ _
  · by_cases hca : c = a
    · rw [hca, Function.update_self] at hc'
      cases hc'
      exact hsz
    · rw [Function.update_of_ne hca] at hc'
      have h1 := hcb.end_le
      have h2 := h.size_pos hpr
      exact (h.live_on_page hc' hpr hcb.le (by omega)).2

/-- What a successful or refused allocation leaves. -/
def AllocPost (live : ℕ → Option ℕ) (sz a : ℕ) (t : Kheap) : Prop :=
  ∃ pages, (a = 0 ∧ HeapInv t live pages) ∨
    (a ≠ 0 ∧ live a = none ∧ HeapInv t (Function.update live a (some sz)) pages)

/-- The part of `subpage_kmalloc` that makes a page and its pageref a page of
the heap, and takes a block of it. -/
def newPage (pr prpage blktype : ℕ) : Prog Unit Kheap ℕ := do
  let nfree := pageSize / sizes blktype
  Prog.modify fun s => s.setRef pr { s.refs pr with pageaddrAndBlocktype := mkpab prpage blktype, nfree }
  initFreelist prpage (sizes blktype) nfree
  let offset := (nfree - 1) * sizes blktype
  Prog.modify fun s => s.setRef pr { s.refs pr with freelistOffset := offset }
  Prog.modify fun s =>
    { s.setRef pr { s.refs pr with nextSamesize := s.sizebases blktype } with
      sizebases := Function.update s.sizebases blktype pr }
  Prog.modify fun s => { s.setRef pr { s.refs pr with nextAll := s.allbase } with allbase := pr }
  doalloc pr

theorem subpageKmalloc_eq (sz : ℕ) : subpageKmalloc sz = (do
    let blktype ← blocktype sz
    let base ← Prog.gets fun s => s.sizebases blktype
    let pr ← findPage blktype (totalPagerefs + 1) base
    if pr ≠ 0 then doalloc pr
    else do
      let prpage ← allocKpages 1
      if prpage = 0 then pure 0
      else do
        Prog.assert (prpage % pageSize = 0)
        let pr ← allocpageref
        if pr = 0 then do
          freeKpages prpage
          pure 0
        else newPage pr prpage blktype) := rfl

/-- **A page just taken**, with the pageref `p`, gives a block. -/
theorem newPage_wp {t u : Kheap} {p page b sz : ℕ} (h : HeapInv t live pages) (hpage : page ≠ 0) (hfree : t.FreePages page 1)
    (hb : b < nsizes) (hsz : sz ≤ sizes b)
    (hu : PagerefAlloc { t with oracle := fun i => t.oracle (i + 1), kpages := (page, 1) :: t.kpages } pages p u) :
    Prog.wp (newPage p page b) (fun a w => a ≠ 0 ∧ live a = none ∧
      HeapInv w (Function.update live a (some sz)) (p :: pages)) (fun _ _ => True) u := by
  have h1 := h.allocRegion hfree hpage (by omega)
  have hsb := sizes_spec hb
  have hdiv : 0 < pageSize / sizes b := Nat.div_pos (Nat.le_of_dvd (by decide) hsb.2.1) (by omega)
  unfold newPage
  simp only [Prog.wp_bind, Prog.wp_modify]
  refine Prog.wp_mono (initFreelist_wp hpage (by omega) hdiv (Nat.div_mul_le_self _ _)) (fun _ v => ?_)
    fun _ _ h => h
  rintro ⟨mem, rfl, hoff, hlinked⟩
  have hmem : ∀ a, a < page ∨ page + pageSize ≤ a → mem a = t.mem a := by
    intro a ha
    rw [hoff a ha]
    show u.mem a = _
    rw [hu.frame]
  have hadd := h1.addPage hu hb List.mem_cons_self
    (fun q hq => h.regions.fresh hfree (by omega) (h.pageRegion q hq))
    (fun r hr he => h.regions.fresh hfree (by omega) (h.pagerefs.region r hr (he ▸ hpage)) he)
    (fun a ha1 ha2 => h.live_fresh hfree ha1 (by omega)) hmem hlinked
  have hnfree : 0 < ((addPage u p page b mem).refs p).nfree := by
    simpa [addPage, newPageref] using hdiv
  have hsize : ((addPage u p page b mem).refs p).size = sizes b := by
    simpa [addPage] using newPageref_size hb
  have hwp := doalloc_wp hadd List.mem_cons_self hnfree (hsize ▸ hsz)
  -- the pageref is filled in field by field
  refine (congrArg (Prog.wp (doalloc p) _ fun _ _ => True) (?_ : _ = addPage u p page b mem)).mpr hwp
  simp [addPage, newPageref, Kheap.setRef]

/-- **`subpage_kmalloc`.** -/
theorem subpageKmalloc_wp {sz : ℕ} (h : HeapInv s live pages) (hsz : sz < largestSubpageSize) :
    Prog.wp (subpageKmalloc sz) (AllocPost live sz) (fun _ _ => True) s := by
  rw [subpageKmalloc_eq, Prog.wp_bind]
  refine blocktype_wp hsz _ _ fun b hb hszb _ => ?_
  simp only [Prog.wp_bind, Prog.wp_gets]
  have hlen : (pages.filter fun p => (s.refs p).blocktype = b).length < totalPagerefs + 1 :=
    Nat.lt_succ_of_le ((List.length_filter_le _ _).trans h.length_le)
  refine Prog.wp_mono (findPage_wp (h.same b hb) hlen fun p hp => by simpa using (List.mem_filter.mp hp).2)
    (fun pr t => ?_) fun _ _ h => h
  rintro ⟨rfl, hfound, -⟩
  rw [Prog.wp_ite]
  refine ⟨fun hne => ?_, fun _ => ?_⟩
  · obtain ⟨hmem, hfree⟩ := hfound hne
    obtain ⟨hp, hbt⟩ := List.mem_filter.mp hmem
    have hsize : (t.refs pr).size = sizes b := by rw [Pageref.size, of_decide_eq_true hbt]
    refine Prog.wp_mono (doalloc_wp h hp hfree (hsize ▸ hszb)) (fun a u hu => ⟨pages, Or.inr hu⟩) fun _ _ h => h
  · rw [Prog.wp_bind]
    refine Prog.wp_mono (allocKpages_wp h.oracle) (fun page t1 => ?_) fun _ _ h => h
    rintro ⟨hpage, hfree, rfl⟩
    have h1 := h.allocRegion hfree hpage (by omega)
    simp only [Prog.wp_ite, Prog.wp_pure, Prog.wp_bind, Prog.wp_assert]
    refine ⟨fun h => absurd h hpage, fun _ => ⟨hfree.1, ?_⟩⟩
    refine Prog.wp_mono (allocpageref_wp h1.pagerefs h1.regions h1.oracle) (fun p u => ?_) fun _ _ h => h
    rintro (⟨rfl, rfl⟩ | hu)
    · -- no pageref left: the page is given back
      refine ⟨fun _ => ⟨pages, Or.inl ⟨rfl, ?_⟩⟩, fun h => absurd rfl h⟩
      have hfilter : ((page, 1) :: t.kpages).filter (fun r => r.1 ≠ page) = t.kpages :=
        filter_fresh fun x hx => h.regions.fresh hfree (by omega) hx
      simp only [hfilter]
      exact { h with oracle := fun i => h.oracle _ }
    · refine ⟨fun h => absurd h hu.ne_zero, fun _ => ?_⟩
      exact Prog.wp_mono (newPage_wp h hpage hfree hb hszb hu) (fun a w hw => ⟨p :: pages, Or.inr hw⟩) fun _ _ h => h

end Os161
