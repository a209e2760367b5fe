/-
# Runs of the kernel heap

`kmalloc` and `kfree` keep the invariant of the heap (`kmalloc_wp`,
`kfree_wp`), and so do the stores of its clients into their blocks. A run of
such calls from boot therefore has every block it handed out for itself, and
no assertion of `kmalloc.c` fails (`heap_run`), as long as no size wraps when
it is rounded up to whole pages.

One that does wrap asks `alloc_kpages` for no pages at all. The address it
gets back is still free, becomes a page of the heap, and freeing it frees a
block of that page (`heap_wrap`).
-/
import Os161.Lib.Run
import Os161.Vm.SubpageKmalloc
import Os161.Vm.SubpageKfree

namespace Os161

variable {s : Kheap} {live : ℕ → Option ℕ} {pages : List ℕ}

/-! ### Large blocks -/

/-- No address off the heap pages is a block of one. -/
theorem HeapInv.not_block (h : HeapInv s live pages) {a n : ℕ} (ha : (a, n) ∈ s.kpages) {p : ℕ} (hp : p ∈ pages)
    (hne : (s.refs p).pageaddr ≠ a) : ¬ IsBlock (s.refs p).pageaddr (s.refs p).size a := by
  intro hb
  have h1 := h.regions.apart (h.pageRegion p hp) ha hne
  have h2 := (h.regions.pages _ ha).2.2.1
  have h3 := hb.le
  have h4 := hb.end_le
  have h5 := h.size_pos hp
  unfold Kheap.DisjointPages pageSize at *
  simp only at h1 h2
  omega

/-- A region of its own is handed out. -/
theorem HeapInv.allocBlock (h : HeapInv s live pages) {a n sz : ℕ} (ha : (a, n) ∈ s.kpages) (hsz : sz ≤ n * pageSize)
    (hpage : ∀ p ∈ pages, (s.refs p).pageaddr ≠ a) (hroot : ∀ r < numPagerefpages, (s.kheaproots r).page ≠ a) :
    HeapInv s (Function.update live a (some sz)) pages where
  all := h.all
  same := h.same
  page p hp := by
    refine (h.page p hp).congr (Pageref.SamePage.refl _) (fun c hc => ?_) fun _ _ _ => rfl
    rw [Function.update_of_ne]
    rintro rfl
    exact h.not_block ha hp (hpage p hp) hc
  pagerefs := h.pagerefs
  regions := h.regions
  pageRegion := h.pageRegion
  pageInj := h.pageInj
  pageRoot := h.pageRoot
  live c sz' hc := by
    by_cases hca : c = a
    · subst hca
      rw [Function.update_self] at hc
      cases hc
      exact Or.inr ⟨n, ha, hsz, hpage, hroot⟩
    · rw [Function.update_of_ne hca] at hc
      exact h.live c sz' hc
  oracle := h.oracle

/-- A region of its own is given back. -/
theorem HeapInv.freeRegion (h : HeapInv s live pages) {a n : ℕ} (ha : (a, n) ∈ s.kpages)
    (hpage : ∀ p ∈ pages, (s.refs p).pageaddr ≠ a) (hroot : ∀ r < numPagerefpages, (s.kheaproots r).page ≠ a) :
    HeapInv { s with kpages := s.kpages.filter fun x => x.1 ≠ a } (Function.update live a none) pages where
  all := h.all
  same := h.same
  page p hp := by
    refine (h.page p hp).congr (Pageref.SamePage.refl _) (fun c hc => ?_) fun _ _ _ => rfl
    rw [Function.update_of_ne]
    rintro rfl
    exact h.not_block ha hp (hpage p hp) hc
  pagerefs :=
    { h.pagerefs with
      region := fun r hr hz => List.mem_filter.mpr ⟨h.pagerefs.region r hr hz, by simpa using hroot r hr⟩ }
  regions := h.regions.free a
  pageRegion p hp := List.mem_filter.mpr ⟨h.pageRegion p hp, by simpa using hpage p hp⟩
  pageInj := h.pageInj
  pageRoot := h.pageRoot
  live c sz hc := by
    by_cases hca : c = a
    · rw [hca, Function.update_self] at hc
      cases hc
    · rw [Function.update_of_ne hca] at hc
      rcases h.live c sz hc with hl | ⟨m, hm, hr⟩
      · exact Or.inl hl
      · exact Or.inr ⟨m, List.mem_filter.mpr ⟨hm, by simpa using hca⟩, hr⟩
  oracle := h.oracle

/-! ### The calls -/

/-- Whole pages just taken are a block. -/
theorem HeapInv.bigBlock (h : HeapInv s live pages) {a sz : ℕ} (hfree : s.FreePages a ((sz + (pageSize - 1)) / pageSize))
    (ha : a ≠ 0) (hn : 0 < (sz + (pageSize - 1)) / pageSize) :
    live a = none ∧ HeapInv { s with
        oracle := fun i => s.oracle (i + 1)
        kpages := (a, (sz + (pageSize - 1)) / pageSize) :: s.kpages } (Function.update live a (some sz)) pages := by
  refine ⟨h.live_fresh hfree le_rfl (by unfold pageSize at *; omega), ?_⟩
  refine (h.allocRegion hfree ha hn).allocBlock List.mem_cons_self ?_
    (fun p hp => h.regions.fresh hfree hn (h.pageRegion p hp))
    fun r hr he => h.regions.fresh hfree hn (h.pagerefs.region r hr (he ▸ ha)) he
  unfold pageSize
  omega

/-- **`kmalloc`** of a size that does not wrap when it is rounded up to pages. -/
theorem kmalloc_wp (h : HeapInv s live pages) {sz : ℕ} (hsz : sz + (pageSize - 1) < 2 ^ 32) :
    Prog.wp (kmalloc sz) (AllocPost live sz) (fun _ _ => True) s := by
  unfold kmalloc
  rw [Prog.wp_ite]
  refine ⟨fun hbig => ?_, fun hsmall => subpageKmalloc_wp h (by omega)⟩
  have hn : 0 < (sz + (pageSize - 1)) / pageSize := by
    unfold largestSubpageSize pageSize at *
    omega
  rw [wadd_of_lt hsz, Prog.wp_bind]
  refine Prog.wp_mono (allocKpages_wp h.oracle) (fun a t => ?_) fun _ _ h => h
  rintro ⟨ha, hfree, rfl⟩
  simp only [Prog.wp_ite, Prog.wp_pure, Prog.wp_bind, Prog.wp_assert]
  exact ⟨fun h => absurd h ha, fun _ => ⟨hfree.1, pages, Or.inr ⟨ha, h.bigBlock hfree ha hn⟩⟩⟩

/-- **`kfree`** of a block handed out. -/
theorem kfree_wp (h : HeapInv s live pages) {ptr sz : ℕ} (hlive : live ptr = some sz) :
    Prog.wp (kfree ptr) (fun _ t => ∃ pages', HeapInv t (Function.update live ptr none) pages') (fun _ _ => True) s := by
  unfold kfree
  simp only [Prog.wp_ite, Prog.wp_bind, Prog.wp_pure, Prog.wp_assert]
  have hptr : ptr ≠ 0 := by
    rintro rfl
    obtain ⟨x, hx, hx0, -⟩ := h.live_region hlive
    have := (h.regions.pages x hx).1
    omega
  refine ⟨fun h => absurd h hptr, fun _ => ?_⟩
  refine Prog.wp_mono (subpageKfree_wp h hlive) (fun found t => ?_) fun _ _ h => h
  rintro (⟨rfl, hinv⟩ | ⟨rfl, rfl, hoff⟩)
  · exact ⟨fun _ => hinv, fun hf => absurd rfl hf⟩
  · refine ⟨fun hf => absurd hf Bool.false_ne_true, fun _ => ?_⟩
    rcases h.live ptr sz hlive with ⟨p, hp, hb, -⟩ | ⟨n, hn, -, hpage, hroot⟩
    · have h1 := hb.end_le
      have h2 := h.size_pos hp
      exact absurd ⟨hb.le, by omega⟩ (hoff p hp)
    · exact ⟨(h.regions.pages _ hn).2.1, pages, h.freeRegion hn hpage hroot⟩

/-- **A client's store** into its block. -/
theorem HeapInv.store (h : HeapInv s live pages) {c sz a w : ℕ} (hlive : live c = some sz) (h1 : c ≤ a)
    (h2 : a < c + sz) : HeapInv (s.setWord a w) live pages := by
  refine { h with page := fun p hp => ?_ }
  refine (h.page p hp).congr (Pageref.SamePage.refl _) (fun _ _ => Iff.rfl) fun b hb hnone => ?_
  refine Function.update_of_ne ?_ _ _
  rintro rfl
  -- the block of the store and the free block would overlap
  have h3 := hb.le
  have h4 := hb.end_le
  have h5 := h.size_pos hp
  rcases h.live c sz hlive with ⟨q, hq, hqb, hqs⟩ | ⟨n, hn, hle, hnp, -⟩
  · by_cases hqp : q = p
    · subst hqp
      have hne : c ≠ b := by
        rintro rfl
        rw [hnone] at hlive
        cases hlive
      have := hqb.disjoint hb hne
      omega
    · have h6 := h.regions.apart (h.pageRegion q hq) (h.pageRegion p hp) fun he => hqp (h.pageInj q hq p hp he)
      have h7 := hqb.le
      have h8 := hqb.end_le
      unfold Kheap.DisjointPages at h6
      omega
  · have h6 := h.regions.apart (h.pageRegion p hp) hn (hnp p hp)
    unfold Kheap.DisjointPages at h6
    simp only at h6
    omega

/-! ### Runs -/

/-- The heap and the blocks its clients hold, with the sizes they asked for. -/
structure HeapState where
  heap : Kheap
  live : List (ℕ × ℕ)

/-- What the clients of the heap do. -/
inductive HeapOp
  | kmalloc (sz : ℕ)
  | kfree (ptr : ℕ)
  | store (a w : ℕ)

/-- The clients call `kmalloc` with any 32-bit size, free what they hold or the
null pointer, and store into what they hold. -/
inductive HeapStep : HeapState → HeapOp → HeapState → Prop
  | kmalloc {s : HeapState} {sz a : ℕ} {t : Kheap} (hsz : sz < 2 ^ 32) (h : kmalloc sz s.heap = .ok a t) :
      HeapStep s (.kmalloc sz) ⟨t, if a = 0 then s.live else (a, sz) :: s.live⟩
  | kfreeNull {s : HeapState} {t : Kheap} (h : kfree 0 s.heap = .ok () t) : HeapStep s (.kfree 0) ⟨t, s.live⟩
  | kfree {s : HeapState} {ptr sz : ℕ} {t : Kheap} (hlive : (ptr, sz) ∈ s.live) (h : kfree ptr s.heap = .ok () t) :
      HeapStep s (.kfree ptr) ⟨t, s.live.erase (ptr, sz)⟩
  | store {s : HeapState} {c sz a w : ℕ} (hlive : (c, sz) ∈ s.live) (h1 : c ≤ a) (h2 : a < c + sz) :
      HeapStep s (.store a w) ⟨s.heap.setWord a w, s.live⟩

/-- A `kmalloc` that returns a block. -/
theorem HeapStep.kmallocBlock {s t : Kheap} {l : List (ℕ × ℕ)} {sz a : ℕ} (hsz : sz < 2 ^ 32)
    (h : Os161.kmalloc sz s = .ok a t) (ha : a ≠ 0) : HeapStep ⟨s, l⟩ (.kmalloc sz) ⟨t, (a, sz) :: l⟩ := by
  have hstep := HeapStep.kmalloc (s := ⟨s, l⟩) hsz h
  rwa [if_neg ha] at hstep

/-- The size asked for does not wrap when it is rounded up to whole pages. -/
def NoWrap (_ : HeapState) : HeapOp → Prop
  | .kmalloc sz => sz + (pageSize - 1) < 2 ^ 32
  | _ => True

/-- Two blocks at different addresses that do not overlap. -/
def Apart (x y : ℕ × ℕ) : Prop := x.1 ≠ y.1 ∧ (x.1 + x.2 ≤ y.1 ∨ y.1 + y.2 ≤ x.1)

/-- What the heap promises: its invariant, blocks that do not overlap, and that
no call its clients may make next stops the machine. -/
structure HeapOk (s : HeapState) : Prop where
  inv : ∃ pages, HeapInv s.heap (fun a => s.live.lookup a) pages
  apart : s.live.Pairwise Apart
  kmalloc : ∀ sz, NoWrap s (.kmalloc sz) → Os161.kmalloc sz s.heap ≠ .stop
  kfree : ∀ x ∈ s.live, Os161.kfree x.1 s.heap ≠ .stop

section Lookup

variable {l : List (ℕ × ℕ)} {a sz : ℕ}

theorem lookup_cons (a sz : ℕ) (l : List (ℕ × ℕ)) :
    (fun c => ((a, sz) :: l).lookup c) = Function.update (fun c => l.lookup c) a (some sz) := by
  funext c
  by_cases hc : c = a
  · subst hc
    simp
  · rw [Function.update_of_ne hc, List.lookup_cons, show (c == a) = false by simpa using hc]

theorem lookup_of_mem (hnd : (l.map Prod.fst).Nodup) (h : (a, sz) ∈ l) : l.lookup a = some sz := by
  induction l with
  | nil => cases h
  | cons x l ih =>
    rw [List.map_cons, List.nodup_cons] at hnd
    rcases List.mem_cons.mp h with rfl | h
    · simp
    · have hne : a ≠ x.1 := fun he => hnd.1 (he ▸ List.mem_map_of_mem h)
      rw [List.lookup_cons, show (a == x.1) = false by simpa using hne]
      exact ih hnd.2 h

theorem mem_of_lookup (h : l.lookup a = some sz) : (a, sz) ∈ l := by
  induction l with
  | nil => cases h
  | cons x l ih =>
    by_cases hc : a = x.1
    · subst hc
      rw [List.lookup_cons, BEq.rfl] at h
      cases h
      exact List.mem_cons_self
    · rw [List.lookup_cons, show (a == x.1) = false by simpa using hc] at h
      exact List.mem_cons_of_mem _ (ih h)

theorem lookup_eq_none (h : l.lookup a = none) : a ∉ l.map Prod.fst := by
  induction l with
  | nil => simp
  | cons x l ih =>
    by_cases hc : a = x.1
    · subst hc
      rw [List.lookup_cons, BEq.rfl] at h
      cases h
    · rw [List.lookup_cons, show (a == x.1) = false by simpa using hc] at h
      simpa [hc] using ih h

theorem lookup_erase (hnd : (l.map Prod.fst).Nodup) (h : (a, sz) ∈ l) :
    (fun c => (l.erase (a, sz)).lookup c) = Function.update (fun c => l.lookup c) a none := by
  have hnd' : ((l.erase (a, sz)).map Prod.fst).Nodup := hnd.sublist (List.erase_sublist.map _)
  have hl : l.Nodup := hnd.of_map _
  funext c
  by_cases hc : c = a
  · subst hc
    rw [Function.update_self]
    cases he : (l.erase (c, sz)).lookup c with
    | none => rfl
    | some z =>
      have hm := mem_of_lookup he
      have hz := lookup_of_mem hnd (List.mem_of_mem_erase hm)
      rw [lookup_of_mem hnd h] at hz
      cases hz
      exact absurd hm hl.not_mem_erase
  · rw [Function.update_of_ne hc]
    cases he : l.lookup c with
    | none =>
      cases he' : (l.erase (a, sz)).lookup c with
      | none => rfl
      | some z =>
        rw [lookup_of_mem hnd (List.mem_of_mem_erase (mem_of_lookup he'))] at he
        cases he
    | some z => exact lookup_of_mem hnd' ((List.mem_erase_of_ne fun h => hc (congrArg Prod.fst h)).mpr (mem_of_lookup he))

end Lookup

/-- The invariant of the runs. -/
def HeapRunInv (s : HeapState) : Prop :=
  (∃ pages, HeapInv s.heap (fun a => s.live.lookup a) pages) ∧ (s.live.map Prod.fst).Nodup

theorem HeapRunInv.ok {s : HeapState} (h : HeapRunInv s) : HeapOk s := by
  obtain ⟨⟨pages, hinv⟩, hnd⟩ := h
  refine ⟨⟨pages, hinv⟩, ?_, fun sz hsz => Prog.wp_ne_stop (kmalloc_wp hinv hsz), fun x hx => ?_⟩
  · refine (List.pairwise_map.mp hnd).imp_of_mem fun {x y} hx hy hne => ⟨hne, ?_⟩
    exact hinv.live_disjoint (lookup_of_mem hnd hx) (lookup_of_mem hnd hy) hne
  · exact Prog.wp_ne_stop (kfree_wp hinv (lookup_of_mem hnd hx))

/-- The heap at boot. -/
theorem heapInv_init {o : ℕ → ℕ} (ho : ∀ i, o i ≠ 0) : HeapInv (Kheap.init o) (fun _ => none) [] where
  all := rfl
  same _ _ := rfl
  page _ hp := nomatch hp
  pagerefs :=
    { bits := fun r _ j _ => by simp [Kheap.init, KheapRoot.bit, Bitmap.bit]
      cover := fun _ hp => nomatch hp
      count := fun r _ => by simp [Kheap.init, KheapRoot.marked, KheapRoot.bit, Bitmap.bit]
      region := fun r _ h => absurd rfl h
      inj := fun r _ r' _ h => absurd rfl h }
  regions := ⟨List.Pairwise.nil, fun _ hx => nomatch hx⟩
  pageRegion _ hp := nomatch hp
  pageInj _ hp := nomatch hp
  pageRoot _ hp := nomatch hp
  live _ _ h := nomatch h
  oracle := ho

/-- **A step** of the clients keeps the invariant. -/
theorem heap_step {s t : HeapState} {op : HeapOp} (h : HeapRunInv s) (hs : Restrict HeapStep NoWrap s op t) :
    HeapRunInv t := by
  obtain ⟨⟨pages, hinv⟩, hnd⟩ := h
  obtain ⟨hstep, hwrap⟩ := hs
  cases hstep with
  | kmalloc hsz hrun =>
    obtain ⟨pages', ⟨rfl, hinv'⟩ | ⟨ha, hnone, hinv'⟩⟩ := Prog.wp_ok (kmalloc_wp hinv hwrap) hrun
    · exact ⟨⟨pages', hinv'⟩, hnd⟩
    · rw [if_neg ha]
      refine ⟨⟨pages', ?_⟩, ?_⟩
      · rwa [lookup_cons]
      · exact List.nodup_cons.mpr ⟨lookup_eq_none hnone, hnd⟩
  | kfreeNull hrun =>
    cases hrun
    exact ⟨⟨pages, hinv⟩, hnd⟩
  | kfree hlive hrun =>
    obtain ⟨pages', hinv'⟩ := Prog.wp_ok (kfree_wp hinv (lookup_of_mem hnd hlive)) hrun
    refine ⟨⟨pages', ?_⟩, hnd.sublist (List.erase_sublist.map _)⟩
    rwa [lookup_erase hnd hlive]
  | store hlive h1 h2 => exact ⟨⟨pages, hinv.store (lookup_of_mem hnd hlive) h1 h2⟩, hnd⟩

/-- **The heap keeps its promises** in every run from boot whose sizes do not
wrap, `alloc_kpages` not failing. -/
theorem heap_run {o : ℕ → ℕ} (ho : ∀ i, o i ≠ 0) {ops : List HeapOp} {t : HeapState}
    (h : Run (Restrict HeapStep NoWrap) ⟨Kheap.init o, []⟩ ops t) : HeapOk t := by
  have h0 : HeapRunInv ⟨Kheap.init o, []⟩ := ⟨⟨[], heapInv_init ho⟩, List.nodup_nil⟩
  exact (h.invariant h0 fun _ _ _ => heap_step).ok

/-- Pages one after the other. -/
def pagesUp (i : ℕ) : ℕ := 0x80001000 + i * 4096

/-- A block is allocated, written to and freed. -/
theorem heap_run_block : ∃ t, Run (Restrict HeapStep NoWrap) ⟨Kheap.init pagesUp, []⟩
    [.kmalloc 2000, .store 0x80001804 7, .kfree 0x80001800] t ∧ HeapOk t := by
  have hv : Prog.value (do
      let p ← kmalloc 2000
      Prog.modify fun s => s.setWord 0x80001804 7
      kfree 0x80001800
      pure p) (Kheap.init pagesUp) = some 0x80001800 := by
    decide +kernel
  obtain ⟨t, ht⟩ := Prog.value_eq_some.mp hv
  simp only [Prog.bind_eq_ok, Prog.modify_run, Prog.pure_run] at ht
  obtain ⟨p, t1, h1, _, t2, he, _, t3, h3, hp⟩ := ht
  cases he
  cases hp
  have hrun : Run (Restrict HeapStep NoWrap) ⟨Kheap.init pagesUp, []⟩
      [.kmalloc 2000, .store 0x80001804 7, .kfree 0x80001800] ⟨t, []⟩ := by
    have hmem : ((0x80001800, 2000) : ℕ × ℕ) ∈ [(0x80001800, 2000)] := List.mem_singleton_self _
    have s1 := HeapStep.kmallocBlock (l := []) (by decide) h1 (by decide)
    have s2 : HeapStep ⟨t1, _⟩ (.store 0x80001804 7) _ := HeapStep.store hmem (by decide) (by decide)
    have s3 := HeapStep.kfree (s := ⟨t1.setWord 0x80001804 7, _⟩) hmem h3
    rw [List.erase_cons_head] at s3
    have hsz : 2000 + (pageSize - 1) < 2 ^ 32 := by decide
    exact Run.cons ⟨s1, hsz⟩ (Run.cons ⟨s2, trivial⟩ (Run.single ⟨s3, trivial⟩))
  refine ⟨_, hrun, heap_run (fun i => ?_) hrun⟩
  unfold pagesUp
  omega

/-- The first page twice: a request for no pages leaves it free. -/
def pagesTwice (i : ℕ) : ℕ := 0x80001000 + (i - 1) % 2 * 4096

/-- **A size that wraps.** The block for it is a page that is still free. Once
that page is a heap page, freeing the block frees the whole page, with another
block of it in use, and the next allocation returns that block again. -/
theorem heap_wrap : ∃ t, (∀ i, pagesTwice i ≠ 0) ∧ Run HeapStep ⟨Kheap.init pagesTwice, []⟩
    [.kmalloc 0xffffffff, .kmalloc 1000, .kfree 0x80001000, .kmalloc 1000] t ∧
    t.live = [(0x80001c00, 1000), (0x80001c00, 1000)] ∧ ¬ HeapOk t := by
  have hv : Prog.value (do
      let x ← kmalloc 0xffffffff
      let p ← kmalloc 1000
      kfree 0x80001000
      let q ← kmalloc 1000
      pure (x, p, q)) (Kheap.init pagesTwice) = some (0x80001000, 0x80001c00, 0x80001c00) := by
    decide +kernel
  obtain ⟨t, ht⟩ := Prog.value_eq_some.mp hv
  simp only [Prog.bind_eq_ok, Prog.pure_run] at ht
  obtain ⟨x, t1, h1, p, t2, h2, _, t3, h3, q, t4, h4, he⟩ := ht
  cases he
  refine ⟨⟨t, [(0x80001c00, 1000), (0x80001c00, 1000)]⟩, fun i => by unfold pagesTwice; omega, ?_, rfl, fun hok => ?_⟩
  · have s1 := HeapStep.kmallocBlock (l := []) (by decide) h1 (by decide)
    have s2 := HeapStep.kmallocBlock (l := [(0x80001000, 0xffffffff)]) (by decide) h2 (by decide)
    have hmem : ((0x80001000, 0xffffffff) : ℕ × ℕ) ∈ [(0x80001c00, 1000), (0x80001000, 0xffffffff)] := by decide
    have s3 := HeapStep.kfree (s := ⟨t2, _⟩) hmem h3
    rw [List.erase_cons_tail (by decide), List.erase_cons_head] at s3
    have s4 := HeapStep.kmallocBlock (l := [(0x80001c00, 1000)]) (by decide) h4 (by decide)
    exact Run.cons s1 (Run.cons s2 (Run.cons s3 (Run.single s4)))
  · have := hok.apart
    simp [Apart] at this

end Os161
