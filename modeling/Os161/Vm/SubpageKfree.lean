/-
# Freeing a block

`subpage_kfree`: the block goes in front of the free list of its page
(`FreeList.push`), and a page whose blocks are then all free leaves its two
lists, its pageref and its region (`HeapInv.removePage`).
-/
import Os161.Vm.HeapInv

namespace Os161

variable {s : Kheap} {live : ℕ → Option ℕ} {pages : List ℕ}

/-- The walk returns the page an address is on, or null if it is on none. -/
theorem findRef_wp (h : HeapInv s live pages) {ptr : ℕ} : ∀ {xs : List ℕ} {n hd : ℕ},
    Linked (fun p => (s.refs p).nextAll) hd xs → xs.length < n → (∀ p ∈ xs, p ∈ pages) →
    Prog.wp (findRef ptr n hd) (fun pr t => t = s ∧
      ((pr = 0 ∧ ∀ p ∈ xs, ¬ ((s.refs p).pageaddr ≤ ptr ∧ ptr < (s.refs p).pageaddr + pageSize)) ∨
        (pr ≠ 0 ∧ pr ∈ xs ∧ (s.refs pr).pageaddr ≤ ptr ∧ ptr < (s.refs pr).pageaddr + pageSize))) (fun _ _ => True) s
  | [], n + 1, hd, hl, _, _ => by
    obtain rfl : hd = 0 := hl
    rw [findRef, if_pos rfl]
    exact ⟨rfl, Or.inl ⟨rfl, fun p hp => nomatch hp⟩⟩
  | x :: xs, n + 1, hd, hl, hn, hsub => by
    obtain ⟨rfl, h0, hl⟩ := hl
    have hx := hsub hd List.mem_cons_self
    rw [findRef, if_neg h0]
    simp only [Prog.wp_bind, Prog.wp_gets, Prog.wp_assert, Prog.wp_ite, Prog.wp_pure, wadd_of_lt (h.page_lt hx)]
    refine ⟨(h.page hd hx).blocktype, fun hon => ⟨trivial, Or.inr ⟨h0, List.mem_cons_self, hon⟩⟩, fun hoff => ?_⟩
    refine Prog.wp_mono (findRef_wp h hl (by simpa using hn) fun p hp => hsub p (List.mem_cons_of_mem _ hp))
      (fun pr t => ?_) fun _ _ h => h
    rintro ⟨rfl, ⟨rfl, hnone⟩ | ⟨hne, hmem, hon⟩⟩
    · refine ⟨rfl, Or.inl ⟨rfl, fun p hp => ?_⟩⟩
      rcases List.mem_cons.mp hp with rfl | hp
      · exact hoff
      · exact hnone p hp
    · exact ⟨rfl, Or.inr ⟨hne, List.mem_cons_of_mem _ hmem, hon⟩⟩

/-- The free list with a block put in front. -/
theorem FreeList.push {mem mem' : ℕ → ℕ} {r r' : Pageref} {a sz : ℕ} {fl : List ℕ} (h : FreeList mem live r fl)
    (ha : IsBlock r.pageaddr r.size a) (h0 : a ≠ 0) (hlive : live a = some sz)
    (hab : r'.pageaddrAndBlocktype = r.pageaddrAndBlocktype) (hhead : r'.head = a) (hn : r'.nfree = r.nfree + 1)
    (hnext : mem' a = r.head) (hmem : ∀ c, IsBlock r.pageaddr r.size c → c ≠ a → mem' c = mem c) :
    FreeList mem' (Function.update live a none) r' (a :: fl) := by
  have hpa : r'.pageaddr = r.pageaddr := by simp only [Pageref.pageaddr, hab]
  have hsz : r'.size = r.size := by simp only [Pageref.size, Pageref.blocktype, hab]
  have hnot : a ∉ fl := by
    intro hmem
    rw [(h.free a ha).mp hmem] at hlive
    cases hlive
  refine ⟨?_, ?_, ?_, ?_⟩
  · rw [hhead]
    exact h.linked.push h0 hnext fun c hc => hmem c (h.block c hc) fun he => hnot (he ▸ hc)
  · rw [List.length_cons, h.length, hn]
  · rw [hpa, hsz]
    intro c hc
    rcases List.mem_cons.mp hc with rfl | hc
    · exact ha
    · exact h.block c hc
  · rw [hpa, hsz]
    intro c hc
    by_cases hca : c = a
    · subst hca
      simp
    · rw [Function.update_of_ne hca, ← h.free c hc, List.mem_cons]
      simp [hca]

/-- A page with as many free blocks as it has blocks has none handed out. -/
theorem PageInv.all_free {mem : ℕ → ℕ} {r : Pageref} (h : PageInv mem live r) (hn : r.nfree = pageSize / r.size) {a : ℕ}
    (ha : IsBlock r.pageaddr r.size a) : live a = none := by
  obtain ⟨-, fl, hfl⟩ := h
  by_contra hne
  have hnot : a ∉ fl := fun hmem => hne ((hfl.free a ha).mp hmem)
  have hblocks : ∀ c ∈ a :: fl, IsBlock r.pageaddr r.size c := by
    intro c hc
    rcases List.mem_cons.mp hc with rfl | hc
    · exact ha
    · exact hfl.block c hc
  have hlen := blocks_length (List.nodup_cons.mpr ⟨hnot, hfl.linked.nodup⟩) hblocks
  rw [List.length_cons, hfl.length] at hlen
  omega

/-! ### Taking a page off its lists -/

/-- The pages of one size, without a page of that size. -/
theorem filter_split {f : ℕ → ℕ} {b p : ℕ} (hp : f p = b) (as ys : List ℕ) :
    (as ++ p :: ys).filter (fun x => f x = b) =
      as.filter (fun x => f x = b) ++ p :: ys.filter fun x => f x = b := by
  rw [List.filter_append, List.filter_cons_of_pos (by simpa using hp)]

/-- The pages of another size. -/
theorem filter_skip {f : ℕ → ℕ} {c p : ℕ} (hp : f p ≠ c) (as ys : List ℕ) :
    (as ++ p :: ys).filter (fun x => f x = c) = (as ++ ys).filter fun x => f x = c := by
  rw [List.filter_append, List.filter_cons_of_neg (by simpa using hp), List.filter_append]

section Remove

variable {as ys : List ℕ} {p : ℕ}

/-- The first walk takes the page off the list of its size and changes no
other. -/
theorem unlinkSamesize_wp (h : HeapInv s live (as ++ p :: ys)) :
    Prog.wp (unlinkSamesize p (s.refs p).blocktype) (fun _ t => ∃ refs sizebases, t = { s with refs, sizebases } ∧
      (∀ x, (s.refs x).SamePage (refs x) ∧ (refs x).nextAll = (s.refs x).nextAll) ∧
      ∀ c < nsizes, Linked (fun x => (refs x).nextSamesize) (sizebases c)
        ((as ++ ys).filter fun x => (s.refs x).blocktype = c)) (fun _ _ => True) s := by
  have hb : (s.refs p).blocktype < nsizes := (h.page p (by simp)).blocktype
  have hl := h.same _ hb
  rw [filter_split (f := fun x => (s.refs x).blocktype) rfl] at hl
  have hlen : (as.filter fun x => (s.refs x).blocktype = (s.refs p).blocktype).length < totalPagerefs + 1 := by
    have h1 := h.length_le
    have h2 := List.length_filter_le (fun x => decide ((s.refs x).blocktype = (s.refs p).blocktype)) as
    simp only [List.length_append] at h1
    omega
  have hother : ∀ c < nsizes, c ≠ (s.refs p).blocktype → Linked (fun x => (s.refs x).nextSamesize) (s.sizebases c)
      ((as ++ ys).filter fun x => (s.refs x).blocktype = c) := by
    intro c hc hne
    rw [← filter_skip (f := fun x => (s.refs x).blocktype) hne.symm]
    exact h.same c hc
  unfold Prog.wp unlinkSamesize
  rw [findLink_mem hl hlen, Option.or_none]
  cases hq : (as.filter fun x => (s.refs x).blocktype = (s.refs p).blocktype).getLast? with
  | none =>
    rw [List.getLast?_eq_none_iff] at hq
    rw [hq] at hl
    refine ⟨_, _, rfl, fun x => ⟨Pageref.SamePage.refl _, rfl⟩, fun c hc => ?_⟩
    by_cases hcb : c = (s.refs p).blocktype
    · subst hcb
      rw [Function.update_self, List.filter_append, hq]
      exact hl.2.2
    · rw [Function.update_of_ne hcb]
      exact hother c hc hcb
  | some q =>
    have hqb : (s.refs q).blocktype = (s.refs p).blocktype := by
      simpa using (List.mem_filter.mp (List.mem_of_getLast? hq)).2
    refine ⟨_, _, rfl, fun x => ?_, fun c hc => ?_⟩
    · by_cases hx : x = q
      · subst hx
        rw [Function.update_self]
        exact ⟨⟨rfl, rfl, rfl⟩, rfl⟩
      · rw [Function.update_of_ne hx]
        exact ⟨Pageref.SamePage.refl _, rfl⟩
    · by_cases hcb : c = (s.refs p).blocktype
      · subst hcb
        rw [List.filter_append]
        exact (hl.unlink hq).congr fun x _ => Function.apply_update (fun _ => Pageref.nextSamesize) s.refs q _ x
      · refine (hother c hc hcb).congr fun x hx => ?_
        have hxc : (s.refs x).blocktype = c := by simpa using (List.mem_filter.mp hx).2
        rw [Function.update_of_ne]
        rintro rfl
        exact hcb (hxc.symm.trans hqb)

/-- The second walk takes it off the list of all pages. -/
theorem unlinkAll_wp (hl : Linked (fun x => (s.refs x).nextAll) s.allbase (as ++ p :: ys))
    (hlen : as.length < totalPagerefs + 1) :
    Prog.wp (unlinkAll p) (fun _ t => ∃ refs allbase, t = { s with refs, allbase } ∧
      (∀ x, (s.refs x).SamePage (refs x) ∧ (refs x).nextSamesize = (s.refs x).nextSamesize) ∧
      Linked (fun x => (refs x).nextAll) allbase (as ++ ys)) (fun _ _ => True) s := by
  unfold Prog.wp unlinkAll
  rw [findLink_mem hl hlen, Option.or_none]
  cases hq : as.getLast? with
  | none =>
    rw [List.getLast?_eq_none_iff] at hq
    subst hq
    exact ⟨_, _, rfl, fun x => ⟨Pageref.SamePage.refl _, rfl⟩, hl.2.2⟩
  | some q =>
    refine ⟨_, _, rfl, fun x => ?_, ?_⟩
    · by_cases hx : x = q
      · subst hx
        rw [Function.update_self]
        exact ⟨⟨rfl, rfl, rfl⟩, rfl⟩
      · rw [Function.update_of_ne hx]
        exact ⟨Pageref.SamePage.refl _, rfl⟩
    · exact (hl.unlink hq).congr fun x _ => Function.apply_update (fun _ => Pageref.nextAll) s.refs q _ x

/-- **A page leaves the heap**: its blocks are all free, its pageref and its
region are given back. -/
theorem HeapInv.removePage (h : HeapInv s live (as ++ p :: ys))
    (hfree : ∀ a, IsBlock (s.refs p).pageaddr (s.refs p).size a → live a = none) {refs : ℕ → Pageref}
    {sizebases : ℕ → ℕ} {allbase : ℕ} {roots : ℕ → KheapRoot}
    (hrefs : ∀ x, (s.refs x).SamePage (refs x))
    (hsame : ∀ c < nsizes, Linked (fun x => (refs x).nextSamesize) (sizebases c)
      ((as ++ ys).filter fun x => (s.refs x).blocktype = c))
    (hall : Linked (fun x => (refs x).nextAll) allbase (as ++ ys)) (hroots : PagerefInv roots s.kpages (as ++ ys))
    (hpages : ∀ r, (roots r).page = (s.kheaproots r).page) :
    HeapInv
      { s with
        refs, sizebases, allbase
        kheaproots := roots
        kpages := s.kpages.filter fun x => x.1 ≠ (s.refs p).pageaddr }
      live (as ++ ys) := by
  have hp : p ∈ as ++ p :: ys := by simp
  have hsub : ∀ q ∈ as ++ ys, q ∈ as ++ p :: ys := by
    intro q hq
    simp only [List.mem_append, List.mem_cons] at hq ⊢
    tauto
  have hne : ∀ q ∈ as ++ ys, q ≠ p := by
    rintro q hq rfl
    have hnd := h.all.nodup
    rw [List.nodup_middle] at hnd
    exact (List.nodup_cons.mp hnd).1 hq
  have hkeep : ∀ {a n : ℕ}, (a, n) ∈ s.kpages → a ≠ (s.refs p).pageaddr →
      (a, n) ∈ s.kpages.filter fun x => x.1 ≠ (s.refs p).pageaddr := by
    intro a n hm ha
    exact List.mem_filter.mpr ⟨hm, by simpa using ha⟩
  refine ⟨hall, ?_, fun q hq => ?_, ?_, h.regions.free _, fun q hq => ?_, fun q hq q' hq' => ?_, fun q hq r hr => ?_,
    fun a sz ha => ?_, h.oracle⟩
  · simpa only [(hrefs _).blocktype] using hsame
  · exact (h.page q (hsub q hq)).congr (hrefs q) (fun _ _ => Iff.rfl) fun _ _ _ => rfl
  · refine { hroots with region := fun r hr hz => hkeep (hroots.region r hr hz) ?_ }
    rw [hpages]
    exact (h.pageRoot p hp r hr).symm
  · simp only [(hrefs _).pageaddr]
    exact hkeep (h.pageRegion q (hsub q hq)) fun he => hne q hq (h.pageInj q (hsub q hq) p hp he)
  · simpa only [(hrefs _).pageaddr] using h.pageInj q (hsub q hq) q' (hsub q' hq')
  · simpa only [(hrefs _).pageaddr, hpages] using h.pageRoot q (hsub q hq) r hr
  · simp only [(hrefs _).pageaddr, (hrefs _).size, hpages]
    rcases h.live a sz ha with ⟨q, hq, hbl, hle⟩ | ⟨n, hn, hle, hnp, hnr⟩
    · have hqp : q ≠ p := by
        rintro rfl
        rw [hfree a hbl] at ha
        cases ha
      refine Or.inl ⟨q, ?_, hbl, hle⟩
      simp only [List.mem_append, List.mem_cons] at hq ⊢
      tauto
    · exact Or.inr ⟨n, hkeep hn (hnp p hp).symm, hle, fun q hq => hnp q (hsub q hq), hnr⟩

/-- **An empty page leaves the heap**: `remove_lists`, `freepageref` and
`free_kpages`. -/
theorem emptyPage_wp {pages : List ℕ} (h : HeapInv s live pages) (hp : p ∈ pages)
    (hfree : ∀ a, IsBlock (s.refs p).pageaddr (s.refs p).size a → live a = none) {page b : ℕ}
    (hpage : page = (s.refs p).pageaddr) (hb : b = (s.refs p).blocktype) :
    Prog.wp (do removeLists p b; freepageref p; freeKpages page)
      (fun _ t => ∃ pages', HeapInv t live pages') (fun _ _ => True) s := by
  subst hpage hb
  have hbt := (h.page p hp).blocktype
  obtain ⟨as, ys, rfl⟩ := List.append_of_mem hp
  have hlen : as.length < totalPagerefs + 1 := by
    have h1 := h.length_le
    simp only [List.length_append] at h1
    omega
  unfold removeLists
  simp only [Prog.wp_bind, Prog.wp_assert]
  refine ⟨hbt, Prog.wp_mono (unlinkSamesize_wp h) (fun _ t => ?_) fun _ _ h => h⟩
  rintro ⟨refs, sizebases, rfl, hrefs, hsame⟩
  have hall : Linked (fun x => (refs x).nextAll) s.allbase (as ++ p :: ys) :=
    h.all.congr fun x _ => (hrefs x).2
  refine Prog.wp_mono (unlinkAll_wp hall hlen) (fun _ t => ?_) fun _ _ h => h
  rintro ⟨refs', allbase, rfl, hrefs', hall'⟩
  have hused : ∀ q, q ∈ as ++ ys ↔ q ∈ as ++ p :: ys ∧ q ≠ p := by
    intro q
    have hnd := h.all.nodup
    rw [List.nodup_middle] at hnd
    have hnot := (List.nodup_cons.mp hnd).1
    constructor
    · intro hq
      refine ⟨?_, fun he => hnot (he ▸ hq)⟩
      simp only [List.mem_append, List.mem_cons] at hq ⊢
      tauto
    · rintro ⟨hq, hne⟩
      simp only [List.mem_append, List.mem_cons] at hq ⊢
      tauto
  have hpr : PagerefInv s.kheaproots s.kpages (as ++ p :: ys) := h.pagerefs
  have hreg : RegionsInv s.kpages := h.regions
  refine Prog.wp_mono (freepageref_wp ‹_› ‹_› hp hused) (fun _ t => ?_) fun _ _ h => h
  rintro ⟨ht, hroots, hpages⟩
  have hsame' : ∀ c < nsizes, Linked (fun x => (refs' x).nextSamesize) (sizebases c)
      ((as ++ ys).filter fun x => (s.refs x).blocktype = c) :=
    fun c hc => (hsame c hc).congr fun x _ => (hrefs' x).2
  refine ⟨as ++ ys, ?_⟩
  rw [ht]
  exact h.removePage hfree (fun x => (hrefs x).1.trans (hrefs' x).1) hsame' hall' hroots hpages

end Remove

/-! ### The whole function -/

/-- The pageref once the block at `ptr` is free. -/
def Pageref.freed (r : Pageref) (ptr : ℕ) : Pageref :=
  { r with freelistOffset := ptr - r.pageaddr, nfree := r.nfree + 1 }

/-- The memory once the block at `ptr` is filled and linked. -/
def freedMem (mem : ℕ → ℕ) (r : Pageref) (ptr : ℕ) : ℕ → ℕ :=
  Function.update (fun a => if ptr ≤ a ∧ a < ptr + r.size then 0xdeadbeef else mem a) ptr r.head

section Free

variable {ptr sz pr : ℕ} (h : HeapInv s live pages) (hpr : pr ∈ pages)
  (hbl : IsBlock (s.refs pr).pageaddr (s.refs pr).size ptr) (hlive : live ptr = some sz)

include h hpr hbl

/-- A block is no null pointer, and its offset is no mark. -/
theorem HeapInv.block_ne_zero : ptr ≠ 0 ∧ ptr - (s.refs pr).pageaddr < pageSize := by
  have h0 := (h.regions.pages _ (h.pageRegion pr hpr)).1
  have h1 := hbl.le
  have h2 := hbl.end_le
  have h3 := h.size_pos hpr
  simp only at h0
  omega

include hlive

/-- The page with the block put on its free list. -/
theorem HeapInv.freed_page : PageInv (freedMem s.mem (s.refs pr) ptr) (Function.update live ptr none)
    ((s.refs pr).freed ptr) := by
  obtain ⟨hbt, fl, hfl⟩ := h.page pr hpr
  obtain ⟨h0, hlt⟩ := h.block_ne_zero hpr hbl
  refine ⟨hbt, ptr :: fl, hfl.push hbl h0 hlive rfl ?_ rfl (Function.update_self _ _ _) fun c hc hne => ?_⟩
  · have hinv : ((s.refs pr).freed ptr).freelistOffset ≠ invalidOffset := by
      show ptr - (s.refs pr).pageaddr ≠ invalidOffset
      unfold invalidOffset pageSize at *
      omega
    rw [Pageref.head, if_neg hinv]
    exact Nat.add_sub_cancel' hbl.le
  · rw [freedMem, Function.update_of_ne hne]
    have := hbl.disjoint hc hne.symm
    exact if_neg (by omega)

/-- **A freed block**: the heap with the block on the free list of its page. -/
theorem HeapInv.freeBlock :
    HeapInv
      { s with
        refs := Function.update s.refs pr ((s.refs pr).freed ptr)
        mem := freedMem s.mem (s.refs pr) ptr }
      (Function.update live ptr none) pages := by
  refine h.setPage hpr rfl rfl rfl (h.freed_page hpr hbl hlive) (fun a ha => ?_)
    (fun a ha => Function.update_of_ne (fun he : a = ptr => ha (he ▸ hbl)) _ _) fun a sz' ha hl => ?_
  · have h1 := hbl.le
    have h2 := hbl.end_le
    have h3 := h.size_pos hpr
    rw [freedMem, Function.update_of_ne (by omega)]
    exact if_neg (by omega)
  · by_cases hap : a = ptr
    · rw [hap, Function.update_self] at hl
      cases hl
    · rw [Function.update_of_ne hap] at hl
      have h1 := ha.end_le
      have h3 := h.size_pos hpr
      exact (h.live_on_page hl hpr ha.le (by omega)).2

/-- The block is not the first of the free list. -/
theorem HeapInv.head_ne : (s.refs pr).head ≠ ptr := by
  obtain ⟨-, fl, hfl⟩ := h.page pr hpr
  have hnot : ptr ∉ fl := by
    intro hin
    rw [(hfl.free ptr hbl).mp hin] at hlive
    cases hlive
  intro he
  cases fl with
  | nil => exact (h.block_ne_zero hpr hbl).1 (he.symm.trans hfl.linked)
  | cons a fl => exact hnot (hfl.linked.1.symm.trans he ▸ List.mem_cons_self)

end Free

/-- **`subpage_kfree`** frees a block of the heap, and tells a block that is
on none of its pages. -/
theorem subpageKfree_wp {ptr sz : ℕ} (h : HeapInv s live pages) (hlive : live ptr = some sz) :
    Prog.wp (subpageKfree ptr) (fun found t =>
      (found = true ∧ ∃ pages', HeapInv t (Function.update live ptr none) pages') ∨
      (found = false ∧ t = s ∧ ∀ p ∈ pages, ¬ ((s.refs p).pageaddr ≤ ptr ∧ ptr < (s.refs p).pageaddr + pageSize)))
      (fun _ _ => True) s := by
  unfold subpageKfree
  simp only [Prog.wp_bind, Prog.wp_gets]
  refine Prog.wp_mono (findRef_wp h h.all (Nat.lt_succ_of_le h.length_le) fun _ hp => hp) (fun pr t => ?_) fun _ _ h => h
  rintro ⟨rfl, ⟨rfl, hnone⟩ | ⟨hne, hpr, hle, hlt⟩⟩
  · exact Or.inr ⟨rfl, rfl, hnone⟩
  rw [if_neg hne]
  simp only [Prog.wp_bind, Prog.wp_gets]
  obtain ⟨hbl, -⟩ := h.live_on_page hlive hpr hle hlt
  have hnew := h.freeBlock hpr hbl hlive
  have hpage := h.freed_page hpr hbl hlive
  have hoff : (ptr - (t.refs pr).pageaddr) % (t.refs pr).size = 0 := by
    obtain ⟨i, -, rfl⟩ := hbl
    rw [Nat.add_sub_cancel_left, Nat.mul_mod_left]
  have hcount : (t.refs pr).nfree + 1 ≤ pageSize / (t.refs pr).size := by
    obtain ⟨-, fl, hfl⟩ := hpage
    exact hfl.length.symm.le.trans (blocks_length hfl.linked.nodup hfl.block)
  unfold fillDeadbeef
  simp only [Prog.wp_assert, Prog.wp_modify, Nat.add_sub_cancel' hle]
  refine ⟨fun hor => ?_, fun hh he => ?_, hcount, ?_⟩
  · rcases hor with hor | hor
    · omega
    · exact hor hoff
  · exact h.head_ne hpr hbl hlive he.symm
  · rw [Prog.wp_ite]
    refine ⟨fun hfull => ?_, fun _ => Or.inl ⟨rfl, pages, hnew⟩⟩
    refine Prog.wp_mono (emptyPage_wp hnew hpr (fun a ha => ?_) ?_ ?_) (fun _ u hu => Or.inl ⟨rfl, hu⟩) fun _ _ h => h
    · simp only [Function.update_self] at ha
      exact hpage.all_free hfull ha
    · simp [Pageref.pageaddr, Pageref.freed]
    · simp [Pageref.blocktype, Pageref.freed]

end Os161
