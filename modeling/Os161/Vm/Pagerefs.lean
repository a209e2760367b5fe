/-
# The pagerefs and the regions in use

Every page of pagerefs has a bitmap of its 256 pagerefs (`struct kheap_root`).
`PagerefInv roots kpages used`: the bitmaps mark exactly the pagerefs `used`,
their counts are the numbers of marks, and the pages of pagerefs are regions
of their own. `allocpageref` adds a pageref to those used and `freepageref`
takes one away.
-/
import Os161.Vm.Kmalloc

namespace Os161

/-- Bit `k` of the bitmap of a root. -/
def KheapRoot.bit (root : KheapRoot) (k : ℕ) : Bool := Bitmap.bit root.pagerefsInuse k

/-- The pagerefs of a root that are in use. -/
def KheapRoot.marked (root : KheapRoot) : Finset ℕ := (Finset.range npagerefsPerPage).filter fun k => root.bit k = true

/-- The regions in use are whole pages and have none in common. -/
structure RegionsInv (kpages : List (ℕ × ℕ)) : Prop where
  disjoint : kpages.Pairwise fun x y => Kheap.DisjointPages x.1 x.2 y.1 y.2
  pages : ∀ x ∈ kpages, x.1 ≠ 0 ∧ x.1 % pageSize = 0 ∧ 0 < x.2 ∧ x.1 + x.2 * pageSize < 2 ^ 32

/-- The pagerefs in use are those the bitmaps mark, the counts are the numbers
of marks, and the pages of pagerefs are regions of their own. -/
structure PagerefInv (roots : ℕ → KheapRoot) (kpages : List (ℕ × ℕ)) (used : List ℕ) : Prop where
  bits : ∀ r < numPagerefpages, ∀ j < npagerefsPerPage,
    ((roots r).bit j = true ↔ (roots r).page ≠ 0 ∧ (roots r).page + 16 * j ∈ used)
  cover : ∀ p ∈ used, ∃ r < numPagerefpages, ∃ j < npagerefsPerPage,
    (roots r).page ≠ 0 ∧ p = (roots r).page + 16 * j
  count : ∀ r < numPagerefpages, (roots r).numinuse = (roots r).marked.card
  region : ∀ r < numPagerefpages, (roots r).page ≠ 0 → ((roots r).page, 1) ∈ kpages
  inj : ∀ r < numPagerefpages, ∀ r' < numPagerefpages, (roots r).page ≠ 0 →
    (roots r).page = (roots r').page → r = r'

/-! ### Regions -/

theorem DisjointPages.symm {a n b m : ℕ} (h : Kheap.DisjointPages a n b m) : Kheap.DisjointPages b m a n := Or.symm h

namespace RegionsInv

variable {l : List (ℕ × ℕ)} {s : Kheap} {a n : ℕ}

/-- Two regions at different addresses have no page in common. -/
theorem apart (h : RegionsInv l) {x y : ℕ × ℕ} (hx : x ∈ l) (hy : y ∈ l) (hne : x.1 ≠ y.1) :
    Kheap.DisjointPages x.1 x.2 y.1 y.2 := by
  have : Std.Symm fun x y : ℕ × ℕ => Kheap.DisjointPages x.1 x.2 y.1 y.2 := ⟨fun _ _ => DisjointPages.symm⟩
  exact h.disjoint.forall hx hy fun he => hne (congrArg Prod.fst he)

theorem alloc (h : RegionsInv s.kpages) (hfree : s.FreePages a n) (ha : a ≠ 0) (hn : 0 < n) :
    RegionsInv ((a, n) :: s.kpages) := by
  refine ⟨List.pairwise_cons.mpr ⟨fun x hx => hfree.2.2.2 x hx, h.disjoint⟩, fun x hx => ?_⟩
  rcases List.mem_cons.mp hx with rfl | hx
  · exact ⟨ha, hfree.1, hn, hfree.2.1⟩
  · exact h.pages x hx

/-- A new region is at none of the addresses in use. -/
theorem fresh (h : RegionsInv s.kpages) (hfree : s.FreePages a n) (hn : 0 < n) {x : ℕ × ℕ} (hx : x ∈ s.kpages) :
    x.1 ≠ a := by
  intro he
  have h1 := hfree.2.2.2 _ hx
  have h2 := (h.pages _ hx).2.2.1
  unfold Kheap.DisjointPages pageSize at h1
  omega

theorem free (h : RegionsInv l) (a : ℕ) : RegionsInv (l.filter fun r => r.1 ≠ a) :=
  ⟨h.disjoint.filter _, fun x hx => h.pages x (List.mem_filter.mp hx).1⟩

end RegionsInv

/-- Giving back a region just taken leaves the regions as they were. -/
theorem filter_fresh {l : List (ℕ × ℕ)} {a n : ℕ} (h : ∀ x ∈ l, x.1 ≠ a) :
    ((a, n) :: l).filter (fun r => r.1 ≠ a) = l := by
  rw [List.filter_cons_of_neg (by simp)]
  exact List.filter_eq_self.mpr fun x hx => by simpa using h x hx

/-- What `alloc_kpages` does when it does not fail. -/
theorem allocKpages_wp {s : Kheap} {n : ℕ} (ho : ∀ i, s.oracle i ≠ 0) :
    Prog.wp (allocKpages n) (fun a t => a ≠ 0 ∧ s.FreePages a n ∧
      t = { s with oracle := fun i => s.oracle (i + 1), kpages := (a, n) :: s.kpages }) (fun _ _ => True) s := by
  unfold Prog.wp allocKpages
  simp only [if_neg (ho 0)]
  by_cases hf : s.FreePages (s.oracle 0) n
  · rw [if_pos hf]
    exact ⟨ho 0, hf, rfl⟩
  · rw [if_neg hf]
    trivial

/-! ### Bitmaps -/

namespace KheapRoot

variable {root : KheapRoot} {i j k : ℕ}

theorem bit_mark (hj : j < 32) : (root.mark i j).bit k = (root.bit k || decide (k = i * 32 + j)) := Bitmap.bit_mark hj

theorem bit_unmark (hj : j < 32) : (root.unmark i j).bit k = (root.bit k && !decide (k = i * 32 + j)) :=
  Bitmap.bit_unmark hj

theorem marked_mark (hj : j < 32) (hi : i < 8) : (root.mark i j).marked = insert (i * 32 + j) root.marked := by
  ext k
  simp only [marked, Finset.mem_filter, Finset.mem_range, Finset.mem_insert, bit_mark hj, Bool.or_eq_true,
    decide_eq_true_eq, npagerefsPerPage]
  constructor
  · rintro ⟨h1, h2 | h2⟩
    · exact Or.inr ⟨h1, h2⟩
    · exact Or.inl h2
  · rintro (h | ⟨h1, h2⟩)
    · exact ⟨by omega, Or.inr h⟩
    · exact ⟨h1, Or.inl h2⟩

theorem marked_unmark (hj : j < 32) : (root.unmark i j).marked = root.marked.erase (i * 32 + j) := by
  ext k
  simp only [marked, Finset.mem_filter, Finset.mem_range, Finset.mem_erase, bit_unmark hj, Bool.and_eq_true,
    Bool.not_eq_true', decide_eq_false_iff_not]
  tauto

end KheapRoot

/-- A root that counts fewer than 256 pagerefs has a clear bit. -/
theorem findClear_of_lt {root : KheapRoot} (hc : root.marked.card < npagerefsPerPage) :
    ∃ i < 8, ∃ j < 32, Bitmap.findClear root.pagerefsInuse 8 = some (some (i, j)) ∧
      root.bit (i * 32 + j) = false := by
  rcases Bitmap.findClear_spec root.pagerefsInuse 8 with ⟨-, hfull⟩ | ⟨i, hi, j, hj, hf, hbit, -⟩
  · have hall : root.marked = Finset.range npagerefsPerPage :=
      Finset.filter_true_of_mem fun k hk => hfull k (Finset.mem_range.mp hk)
    rw [hall, Finset.card_range] at hc
    omega
  · exact ⟨i, hi, j, hj, hf, hbit⟩

/-! ### Taking and giving back a pageref -/

/-- A pageref is on one page, at one index. -/
theorem pageref_unique {l : List (ℕ × ℕ)} (h : RegionsInv l) {P P' j j' : ℕ} (hP : (P, 1) ∈ l) (hP' : (P', 1) ∈ l)
    (hj : j < npagerefsPerPage) (hj' : j' < npagerefsPerPage) (he : P + 16 * j = P' + 16 * j') : P = P' ∧ j = j' := by
  have hPP : P = P' := by
    by_contra hne
    have := h.apart hP hP' hne
    unfold Kheap.DisjointPages pageSize npagerefsPerPage at *
    omega
  exact ⟨hPP, by omega⟩

namespace PagerefInv

variable {roots : ℕ → KheapRoot} {kpages kpages' : List (ℕ × ℕ)} {used : List ℕ} {r i j page : ℕ}

theorem mono (h : PagerefInv roots kpages used) (hsub : ∀ x ∈ kpages, x ∈ kpages') : PagerefInv roots kpages' used :=
  { h with region := fun r hr hne => hsub _ (h.region r hr hne) }

/-- The page and index of a pageref in use on a page that is, or becomes, the
page of root `r`. -/
theorem mem_used (h : PagerefInv roots kpages used) (hreg : RegionsInv kpages') (hsub : ∀ x ∈ kpages, x ∈ kpages')
    (hpage : (page, 1) ∈ kpages') (hother : ∀ r' < numPagerefpages, r' ≠ r → (roots r').page ≠ page) {k : ℕ}
    (hk : k < npagerefsPerPage) (hu : page + 16 * k ∈ used) : (roots r).page = page ∧ (roots r).bit k = true := by
  obtain ⟨r', hr', k', hk', hne, he⟩ := h.cover _ hu
  obtain ⟨rfl, rfl⟩ := pageref_unique hreg hpage (hsub _ (h.region r' hr' hne)) hk hk' he
  obtain rfl : r' = r := by
    by_contra hr
    exact hother r' hr' hr rfl
  exact ⟨rfl, (h.bits r' hr' k hk).mpr ⟨hne, hu⟩⟩

/-- Marking a clear bit adds its pageref to those used; a root without a page
gets one. -/
theorem mark (h : PagerefInv roots kpages used) (hreg : RegionsInv kpages') (hsub : ∀ x ∈ kpages, x ∈ kpages')
    (hr : r < numPagerefpages) (hi : i < 8) (hj : j < 32) (hbit : (roots r).bit (i * 32 + j) = false)
    (h0 : page ≠ 0) (hpage : (page, 1) ∈ kpages') (hsame : (roots r).page ≠ 0 → page = (roots r).page)
    (hother : ∀ r' < numPagerefpages, r' ≠ r → (roots r').page ≠ page) :
    page + 16 * (i * 32 + j) ∉ used ∧
    PagerefInv (Function.update roots r { (roots r).mark i j with page }) kpages' ((page + 16 * (i * 32 + j)) :: used) := by
  have hij : i * 32 + j < npagerefsPerPage := by unfold npagerefsPerPage; omega
  have hnew : page + 16 * (i * 32 + j) ∉ used := by
    intro hu
    rw [(h.mem_used hreg hsub hpage hother hij hu).2] at hbit
    exact absurd hbit (by decide)
  refine ⟨hnew, ?_, ?_, ?_, ?_, ?_⟩
  · intro r' hr' k hk
    by_cases hrr : r' = r
    · subst hrr
      have hb : ({ (roots r').mark i j with page } : KheapRoot).bit k = ((roots r').mark i j).bit k := rfl
      rw [Function.update_self, hb, KheapRoot.bit_mark hj, Bool.or_eq_true, decide_eq_true_eq, List.mem_cons]
      constructor
      · rintro (hb | rfl)
        · obtain ⟨h1, h2⟩ := (h.bits r' hr' k hk).mp hb
          exact ⟨h0, Or.inr (hsame h1 ▸ h2)⟩
        · exact ⟨h0, Or.inl rfl⟩
      · rintro ⟨-, he | hu⟩
        · exact Or.inr (by simp only at he; omega)
        · exact Or.inl (h.mem_used hreg hsub hpage hother hk hu).2
    · rw [Function.update_of_ne hrr, h.bits r' hr' k hk, List.mem_cons]
      refine and_congr_right fun hne => ⟨Or.inr, ?_⟩
      rintro (he | hu)
      · exact absurd (pageref_unique hreg (hsub _ (h.region r' hr' hne)) hpage hk hij he).1 (hother r' hr' hrr)
      · exact hu
  · intro p hp
    rcases List.mem_cons.mp hp with rfl | hp
    · exact ⟨r, hr, _, hij, by simpa using h0, by simp⟩
    · obtain ⟨r', hr', k, hk, hne, rfl⟩ := h.cover p hp
      refine ⟨r', hr', k, hk, ?_⟩
      by_cases hrr : r' = r
      · subst hrr
        simpa [hsame hne] using hne
      · rw [Function.update_of_ne hrr]
        exact ⟨hne, rfl⟩
  · intro r' hr'
    by_cases hrr : r' = r
    · subst hrr
      have hm : ({ (roots r').mark i j with page } : KheapRoot).marked = ((roots r').mark i j).marked := rfl
      have hn : i * 32 + j ∉ (roots r').marked := by simp [KheapRoot.marked, hbit]
      rw [Function.update_self, hm, KheapRoot.marked_mark hj hi, Finset.card_insert_of_notMem hn, ← h.count r' hr']
      rfl
    · rw [Function.update_of_ne hrr]
      exact h.count r' hr'
  · intro r' hr' hne
    by_cases hrr : r' = r
    · subst hrr
      simpa using hpage
    · rw [Function.update_of_ne hrr] at hne ⊢
      exact hsub _ (h.region r' hr' hne)
  · intro r1 h1 r2 h2 hne he
    by_cases hr1 : r1 = r <;> by_cases hr2 : r2 = r
    · rw [hr1, hr2]
    · subst hr1
      rw [Function.update_self, Function.update_of_ne hr2] at he
      exact absurd he.symm (hother r2 h2 hr2)
    · subst hr2
      rw [Function.update_self, Function.update_of_ne hr1] at he
      exact absurd he (hother r1 h1 hr1)
    · rw [Function.update_of_ne hr1] at hne he
      rw [Function.update_of_ne hr2] at he
      exact h.inj r1 h1 r2 h2 hne he

/-- Clearing a bit takes its pageref from those used. -/
theorem unmark (h : PagerefInv roots kpages used) (hreg : RegionsInv kpages) (hr : r < numPagerefpages)
    (hj : j < npagerefsPerPage) (h0 : (roots r).page ≠ 0) (hmem : (roots r).page + 16 * j ∈ used) {used' : List ℕ}
    (hused : ∀ q, q ∈ used' ↔ q ∈ used ∧ q ≠ (roots r).page + 16 * j) :
    PagerefInv (Function.update roots r ((roots r).unmark (j / 32) (j % 32))) kpages used' := by
  have hj' : j / 32 * 32 + j % 32 = j := by omega
  have hm32 : j % 32 < 32 := Nat.mod_lt _ (by omega)
  have hpg : ∀ r', (Function.update roots r ((roots r).unmark (j / 32) (j % 32)) r').page = (roots r').page := by
    intro r'
    by_cases hrr : r' = r
    · subst hrr
      rw [Function.update_self]
      rfl
    · rw [Function.update_of_ne hrr]
  refine ⟨?_, ?_, ?_, ?_, ?_⟩
  · intro r' hr' k hk
    rw [hpg, hused]
    by_cases hrr : r' = r
    · subst hrr
      rw [Function.update_self, KheapRoot.bit_unmark hm32, hj', Bool.and_eq_true, h.bits r' hr' k hk]
      simp only [Bool.not_eq_true', decide_eq_false_iff_not, ne_eq]
      have : (roots r').page + 16 * k = (roots r').page + 16 * j ↔ k = j := by omega
      rw [this, and_assoc]
    · rw [Function.update_of_ne hrr, h.bits r' hr' k hk]
      refine and_congr_right fun hne => ⟨fun hu => ⟨hu, fun he => hrr ?_⟩, And.left⟩
      exact h.inj r' hr' r hr hne (pageref_unique hreg (h.region r' hr' hne) (h.region r hr h0) hk hj he).1
  · intro p hp
    obtain ⟨r', hr', k, hk, hne, he⟩ := h.cover p ((hused p).mp hp).1
    exact ⟨r', hr', k, hk, by rwa [hpg], by rwa [hpg]⟩
  · intro r' hr'
    by_cases hrr : r' = r
    · subst hrr
      have hn : j ∈ (roots r').marked :=
        Finset.mem_filter.mpr ⟨Finset.mem_range.mpr hj, (h.bits r' hr' j hj).mpr ⟨h0, hmem⟩⟩
      rw [Function.update_self, KheapRoot.marked_unmark hm32, hj', Finset.card_erase_of_mem hn, ← h.count r' hr']
      rfl
    · rw [Function.update_of_ne hrr]
      exact h.count r' hr'
  · intro r' hr' hne
    rw [hpg] at hne ⊢
    exact h.region r' hr' hne
  · intro r1 h1 r2 h2 hne he
    rw [hpg] at hne he
    rw [hpg] at he
    exact h.inj r1 h1 r2 h2 hne he

end PagerefInv

/-- `allocpageref` returned the pageref `p`: it was not in use and now is, and
at most a new page of pagerefs has been taken. -/
structure PagerefAlloc (s : Kheap) (used : List ℕ) (p : ℕ) (t : Kheap) : Prop where
  ne_zero : p ≠ 0
  notMem : p ∉ used
  frame : t = { s with kheaproots := t.kheaproots, kpages := t.kpages, oracle := t.oracle }
  inv : PagerefInv t.kheaproots t.kpages (p :: used)
  regions : RegionsInv t.kpages
  keep : ∀ x ∈ s.kpages, x ∈ t.kpages
  pages : ∀ r < numPagerefpages, (t.kheaproots r).page = (s.kheaproots r).page ∨
    ∀ x ∈ s.kpages, x.1 ≠ (t.kheaproots r).page
  oracle : ∀ i, t.oracle i ≠ 0

section Spec

variable {s : Kheap} {used : List ℕ}

/-- A root with a page hands out one of its own pagerefs. -/
theorem PagerefAlloc.ofRoot {r i j : ℕ} (h : PagerefInv s.kheaproots s.kpages used) (hreg : RegionsInv s.kpages)
    (ho : ∀ i, s.oracle i ≠ 0) (hr : r < numPagerefpages) (hi : i < 8) (hj : j < 32)
    (hbit : (s.kheaproots r).bit (i * 32 + j) = false) (h0 : (s.kheaproots r).page ≠ 0) :
    PagerefAlloc s used ((s.kheaproots r).page + 16 * (i * 32 + j)) (s.setRoot r ((s.kheaproots r).mark i j)) := by
  obtain ⟨hnew, hinv⟩ := h.mark hreg (fun _ hx => hx) hr hi hj hbit h0 (h.region r hr h0) (fun _ => rfl)
    fun r' hr' hne he => hne (h.inj r hr r' hr' h0 he.symm).symm
  refine ⟨by omega, hnew, rfl, hinv, hreg, fun _ hx => hx, fun r' _ => Or.inl ?_, ho⟩
  by_cases hrr : r' = r
  · subst hrr
    simp [Kheap.setRoot, KheapRoot.mark]
  · simp [Kheap.setRoot, Function.update_of_ne hrr]

/-- A root without one takes a new page. -/
theorem PagerefAlloc.ofPage {r i j a : ℕ} (h : PagerefInv s.kheaproots s.kpages used) (hreg : RegionsInv s.kpages)
    (ho : ∀ i, s.oracle i ≠ 0) (hr : r < numPagerefpages) (hi : i < 8) (hj : j < 32)
    (hbit : (s.kheaproots r).bit (i * 32 + j) = false) (h0 : (s.kheaproots r).page = 0) (ha : a ≠ 0)
    (hfree : s.FreePages a 1) :
    PagerefAlloc s used (a + 16 * (i * 32 + j))
      { s with
        kheaproots := Function.update s.kheaproots r { (s.kheaproots r).mark i j with page := a }
        oracle := fun i => s.oracle (i + 1)
        kpages := (a, 1) :: s.kpages } := by
  have hother : ∀ r' < numPagerefpages, r' ≠ r → (s.kheaproots r').page ≠ a := by
    intro r' hr' _ he
    exact hreg.fresh hfree (by omega) (h.region r' hr' (he ▸ ha)) he
  obtain ⟨hnew, hinv⟩ := h.mark (hreg.alloc hfree ha (by omega)) (fun _ hx => List.mem_cons_of_mem _ hx) hr hi hj hbit ha
    List.mem_cons_self (fun hne => absurd h0 hne) hother
  refine ⟨by omega, hnew, rfl, hinv, hreg.alloc hfree ha (by omega), fun _ hx => List.mem_cons_of_mem _ hx,
    fun r' _ => ?_, fun i => ho _⟩
  by_cases hrr : r' = r
  · subst hrr
    right
    intro x hx
    simpa using hreg.fresh hfree (by omega) hx
  · left
    simp [Function.update_of_ne hrr]

/-- The loop returns a new pageref or, when all its roots are full, null. -/
theorem allocpagerefFrom_wp (h : PagerefInv s.kheaproots s.kpages used) (hreg : RegionsInv s.kpages)
    (ho : ∀ i, s.oracle i ≠ 0) :
    ∀ rs : List ℕ, (∀ r ∈ rs, r < numPagerefpages) →
      Prog.wp (allocpagerefFrom rs) (fun p t => (p = 0 ∧ t = s) ∨ PagerefAlloc s used p t) (fun _ _ => True) s
  | [], _ => Or.inl ⟨rfl, rfl⟩
  | r :: rs, hrs => by
    have hr : r < numPagerefpages := hrs r List.mem_cons_self
    have hrest := allocpagerefFrom_wp h hreg ho rs fun r' h' => hrs r' (List.mem_cons_of_mem _ h')
    rw [allocpagerefFrom]
    simp only [Prog.wp_bind, Prog.wp_gets, Prog.wp_ite]
    refine ⟨fun _ => hrest, fun hfull => ?_⟩
    obtain ⟨i, hi, j, hj, hf, hbit⟩ := findClear_of_lt (h.count r hr ▸ Nat.lt_of_not_le hfull)
    simp only [hf, Prog.wp_bind, Prog.wp_modify, Prog.wp_ite, Prog.wp_pure]
    refine ⟨fun h0 => ?_, fun h0 => Or.inr (PagerefAlloc.ofRoot h hreg ho hr hi hj hbit h0)⟩
    have hpage : ((s.setRoot r ((s.kheaproots r).mark i j)).kheaproots r).page = 0 := by
      simpa [Kheap.setRoot, KheapRoot.mark] using h0
    unfold allocpagerefpage
    simp only [Prog.wp_bind, Prog.wp_gets, Prog.wp_assert, hpage, true_and]
    refine Prog.wp_mono (allocKpages_wp ho) (fun a t => ?_) fun _ _ _ => trivial
    rintro ⟨ha, hfree, rfl⟩
    simp only [Prog.wp_ite, Prog.wp_bind, Prog.wp_assert, Prog.wp_gets, Prog.wp_modify, Prog.wp_pure, hpage]
    refine ⟨fun h => absurd h ha, fun _ => ⟨hfree.1, fun h => absurd rfl h, fun _ => ?_⟩⟩
    have hnew := PagerefAlloc.ofPage h hreg ho hr hi hj hbit h0 ha hfree
    refine ⟨fun h => ?_, fun _ => Or.inr ?_⟩
    · exact absurd h (by simpa [Kheap.setRoot] using ha)
    · simpa [Kheap.setRoot] using hnew

/-- **Taking a pageref.** -/
theorem allocpageref_wp (h : PagerefInv s.kheaproots s.kpages used) (hreg : RegionsInv s.kpages)
    (ho : ∀ i, s.oracle i ≠ 0) :
    Prog.wp allocpageref (fun p t => (p = 0 ∧ t = s) ∨ PagerefAlloc s used p t) (fun _ _ => True) s :=
  allocpagerefFrom_wp h hreg ho _ fun _ hr => List.mem_range.mp hr

/-- A root without a page counts no pagerefs. -/
theorem PagerefInv.numinuse_eq_zero {r : ℕ} {roots : ℕ → KheapRoot} {l : List (ℕ × ℕ)} (h : PagerefInv roots l used)
    (hr : r < numPagerefpages) (h0 : (roots r).page = 0) : (roots r).numinuse = 0 := by
  rw [h.count r hr, Finset.card_eq_zero]
  refine Finset.filter_false_of_mem fun k hk hb => ?_
  exact ((h.bits r hr k (Finset.mem_range.mp hk)).mp hb).1 h0

/-- The index that `freepageref` computes is an index only on the pageref's own
page. -/
theorem index_of_pageref {P P' j : ℕ} (hreg : RegionsInv s.kpages) (hP : (P, 1) ∈ s.kpages) (hP' : (P', 1) ∈ s.kpages)
    (hj : j < npagerefsPerPage) (hlt : wsub (P + 16 * j) P' / 16 < npagerefsPerPage) :
    P' = P := by
  by_contra hne
  have h1 := hreg.apart hP' hP hne
  have h2 := hreg.pages _ hP'
  unfold wsub at hlt
  unfold Kheap.DisjointPages pageSize npagerefsPerPage at *
  split_ifs at hlt <;> omega

/-- The loop finds the root of a pageref in use. -/
theorem freepagerefFrom_wp {r j : ℕ} (h : PagerefInv s.kheaproots s.kpages used) (hreg : RegionsInv s.kpages)
    (hr : r < numPagerefpages) (hj : j < npagerefsPerPage) (h0 : (s.kheaproots r).page ≠ 0)
    (hmem : (s.kheaproots r).page + 16 * j ∈ used) :
    ∀ rs : List ℕ, (∀ r ∈ rs, r < numPagerefpages) → r ∈ rs →
      Prog.wp (freepagerefFrom ((s.kheaproots r).page + 16 * j) rs)
        (fun _ t => t = s.setRoot r ((s.kheaproots r).unmark (j / 32) (j % 32))) (fun _ _ => True) s
  | [], _, hin => nomatch hin
  | r' :: rs, hrs, hin => by
    have hr' : r' < numPagerefpages := hrs r' List.mem_cons_self
    have hrest : r' ≠ r → _ := fun hne => freepagerefFrom_wp h hreg hr hj h0 hmem rs
      (fun x hx => hrs x (List.mem_cons_of_mem _ hx)) ((List.mem_cons.mp hin).resolve_left hne.symm)
    rw [freepagerefFrom]
    simp only [Prog.wp_bind, Prog.wp_gets, Prog.wp_ite, Prog.wp_assert, Prog.wp_modify]
    refine ⟨fun hz => ⟨h.numinuse_eq_zero hr' hz, hrest ?_⟩, fun hz => ⟨fun hlt => ?_, fun hge => hrest ?_⟩⟩
    · rintro rfl
      exact h0 hz
    · obtain rfl : r' = r := h.inj r' hr' r hr hz
        (index_of_pageref hreg (h.region r hr h0) (h.region r' hr' hz) hj hlt)
      have hidx : wsub ((s.kheaproots r').page + 16 * j) (s.kheaproots r').page / 16 = j := by
        rw [wsub_of_le (Nat.le_add_right _ _)]
        omega
      have hb : (s.kheaproots r').bit j = true := (h.bits r' hr j hj).mpr ⟨h0, hmem⟩
      rw [hidx]
      refine ⟨hb, ?_, rfl⟩
      rw [h.count r' hr]
      exact Finset.card_pos.mpr ⟨j, Finset.mem_filter.mpr ⟨Finset.mem_range.mpr hj, hb⟩⟩
    · rintro rfl
      apply hge
      rw [wsub_of_le (Nat.le_add_right _ _)]
      omega

/-- **Giving back a pageref.** -/
theorem freepageref_wp {p : ℕ} (h : PagerefInv s.kheaproots s.kpages used) (hreg : RegionsInv s.kpages)
    (hp : p ∈ used) {used' : List ℕ} (hused : ∀ q, q ∈ used' ↔ q ∈ used ∧ q ≠ p) :
    Prog.wp (freepageref p) (fun _ t => t = { s with kheaproots := t.kheaproots } ∧
      PagerefInv t.kheaproots s.kpages used' ∧ ∀ r, (t.kheaproots r).page = (s.kheaproots r).page)
      (fun _ _ => True) s := by
  obtain ⟨r, hr, j, hj, h0, rfl⟩ := h.cover p hp
  refine Prog.wp_mono (freepagerefFrom_wp h hreg hr hj h0 hp _ (fun _ hx => List.mem_range.mp hx)
    (List.mem_range.mpr hr)) (fun _ t ht => ?_) fun _ _ h => h
  subst ht
  refine ⟨rfl, h.unmark hreg hr hj h0 hp hused, fun r' => ?_⟩
  by_cases hrr : r' = r
  · subst hrr
    simp [Kheap.setRoot, KheapRoot.unmark]
  · simp [Kheap.setRoot, Function.update_of_ne hrr]

end Spec

end Os161
