/-
# Failed allocations

The heap under any pattern of `alloc_kpages` failures. The invariant of the
heap says that `alloc_kpages` will not fail; what is left of it when it may is
the invariant of the heap with its failures taken out (`Kheap.patched`).
`kfree` does not look at them (`kfree_commutes`), and neither does `kmalloc`
once it has its pages.

A `kmalloc` that returns null leaves no trace, with one exception: `allocpageref`
marks a pageref and then asks for the page that is to hold it, and when that is
refused the mark stays (`RefusedPagerefs`). In the runs that avoid this the heap keeps
its invariant, whatever else fails.
-/
import Os161.Lib.Commute
import Os161.Vm.HeapRun

namespace Os161

/-- The same heap, with an `alloc_kpages` that does not fail. -/
def Kheap.patched (s : Kheap) : Kheap := { s with oracle := fun i => if s.oracle i = 0 then 1 else s.oracle i }

theorem Kheap.patched_oracle (s : Kheap) (i : ℕ) : s.patched.oracle i ≠ 0 := by
  show (if s.oracle i = 0 then 1 else s.oracle i) ≠ 0
  split_ifs with h
  · exact one_ne_zero
  · exact h

/-! ### What does not depend on the failures -/

section Commutes

open Prog

theorem doalloc_commutes (pr : ℕ) : Commutes Kheap.patched (doalloc pr) :=
  .bind (.gets fun _ => rfl) fun _ => .bind (.assert _) fun _ => .bind (.gets fun _ => rfl) fun _ =>
    .bind (.assert _) fun _ => .bind (.modify fun _ => rfl) fun _ => .pure _

theorem newPage_commutes (pr page b : ℕ) : Commutes Kheap.patched (newPage pr page b) := by
  have hinit : ∀ size n, Commutes Kheap.patched (initFreelist page size n) := by
    refine fun size n => .bind (.modify fun _ => rfl) fun _ => .forUp (fun i => ?_) _
    exact .bind (.modify fun _ => rfl) fun _ => .assert _
  exact .bind (.modify fun _ => rfl) fun _ => .bind (hinit _ _) fun _ => .bind (.modify fun _ => rfl) fun _ =>
    .bind (.modify fun _ => rfl) fun _ => .bind (.modify fun _ => rfl) fun _ => doalloc_commutes pr

theorem findRef_commutes (ptr : ℕ) : ∀ n pr, Commutes Kheap.patched (findRef ptr n pr)
  | 0, _ => .stop
  | n + 1, pr => by
    rw [findRef]
    refine .ite _ (fun _ => .pure _) fun _ => .bind (.gets fun _ => rfl) fun r => .bind (.assert _) fun _ => ?_
    exact .ite _ (fun _ => .pure _) fun _ => findRef_commutes ptr n _

theorem removeLists_commutes (pr b : ℕ) : Commutes Kheap.patched (removeLists pr b) := by
  refine .bind (.assert _) fun _ => .bind (fun s => ?_) fun _ s => ?_
  · show unlinkSamesize pr b { s with oracle := _ } = _
    unfold unlinkSamesize
    split <;> rename_i h <;> simp only [h] <;> rfl
  · show unlinkAll pr { s with oracle := _ } = _
    unfold unlinkAll
    split <;> rename_i h <;> simp only [h] <;> rfl

theorem freepagerefFrom_commutes (p : ℕ) : ∀ rs, Commutes Kheap.patched (freepagerefFrom p rs)
  | [] => .stop
  | r :: rs => by
    rw [freepagerefFrom]
    refine .bind (.gets fun _ => rfl) fun root => .ite _ (fun _ => ?_) fun _ => .ite _ (fun _ => ?_) fun _ => ?_
    · exact .bind (.assert _) fun _ => freepagerefFrom_commutes p rs
    · exact .bind (.assert _) fun _ => .bind (.assert _) fun _ => .modify fun _ => rfl
    · exact freepagerefFrom_commutes p rs

/-- **`kfree` does not depend on the failures.** -/
theorem kfree_commutes (ptr : ℕ) : Commutes Kheap.patched (kfree ptr) := by
  have hpages : ∀ va, Commutes Kheap.patched (freeKpages va) := fun _ => .modify fun _ => rfl
  have hsub : Commutes Kheap.patched (subpageKfree ptr) := by
    refine .bind (.gets fun _ => rfl) fun base => .bind (findRef_commutes ptr _ _) fun pr =>
      .ite _ (fun _ => .pure _) fun _ => .bind (.gets fun _ => rfl) fun r => ?_
    refine .bind (.assert _) fun _ => .bind (.modify fun _ => rfl) fun _ => .bind (.modify fun _ => rfl) fun _ =>
      .bind (.assert _) fun _ => .bind (.modify fun _ => rfl) fun _ => .bind (.assert _) fun _ => .bind ?_ fun _ => .pure _
    refine .ite _ (fun _ => ?_) fun _ => .pure _
    exact .bind (removeLists_commutes pr _) fun _ => .bind (freepagerefFrom_commutes pr _) fun _ => hpages _
  exact .ite _ (fun _ => .pure _) fun _ => .bind hsub fun found =>
    .ite _ (fun _ => .pure _) fun _ => .bind (.assert _) fun _ => hpages _

end Commutes

/-! ### What does -/

/-- The heap is as before: the marks and counts of the pagerefs, the pagerefs
with their lists, the free lists and the regions in use. -/
structure NoTrace (s t : Kheap) : Prop where
  roots : t.kheaproots = s.kheaproots
  refs : t.refs = s.refs
  sizebases : t.sizebases = s.sizebases
  allbase : t.allbase = s.allbase
  mem : t.mem = s.mem
  kpages : t.kpages = s.kpages

/-- The first of the roots `rs` that counts fewer pagerefs than it has has no
page. -/
def NeedsRoot (s : Kheap) (rs : List ℕ) : Prop :=
  ∃ r, rs.find? (fun r => (s.kheaproots r).numinuse < npagerefsPerPage) = some r ∧ (s.kheaproots r).page = 0

/-- No page of the blocks for the size `sz` has a free one. -/
def NeedsPage (s : Kheap) (sz : ℕ) : Prop :=
  ∀ b xs, (List.range nsizes).find? (fun i => sz ≤ sizes i) = some b →
    Linked (fun p => (s.refs p).nextSamesize) (s.sizebases b) xs → ∀ p ∈ xs, (s.refs p).nfree = 0

/-- A `kmalloc` that needs a page and a page of pagerefs and is refused the
second. -/
def RefusedPagerefs (s : Kheap) (sz : ℕ) : Prop :=
  sz < largestSubpageSize ∧ NeedsPage s sz ∧ NeedsRoot s (List.range numPagerefpages) ∧ s.oracle 0 ≠ 0 ∧ s.oracle 1 = 0

variable {s t : Kheap} {live : ℕ → Option ℕ} {pages : List ℕ}

/-- The invariant speaks of nothing else. -/
theorem NoTrace.heapInv (hs : NoTrace s t) (h : HeapInv s.patched live pages) : HeapInv t.patched live pages := by
  obtain ⟨roots, refs, sizebases, allbase, mem, kpages, oracle⟩ := t
  obtain ⟨rfl, rfl, rfl, rfl, rfl, rfl⟩ := hs
  exact { h with oracle := Kheap.patched_oracle _ }

theorem allocKpages_cases (n : ℕ) :
    Prog.wp (allocKpages n) (fun a t =>
      (a = 0 ∧ s.oracle 0 = 0 ∧ t = { s with oracle := fun i => s.oracle (i + 1) }) ∨
      (a ≠ 0 ∧ s.oracle 0 ≠ 0 ∧ s.FreePages a n ∧
        t = { s with oracle := fun i => s.oracle (i + 1), kpages := (a, n) :: s.kpages })) (fun _ _ => True) s := by
  unfold Prog.wp allocKpages
  by_cases h0 : s.oracle 0 = 0
  · simp only [if_pos h0]
    exact Or.inl ⟨trivial, h0, trivial⟩
  · simp only [if_neg h0]
    by_cases hf : s.FreePages (s.oracle 0) n
    · rw [if_pos hf]
      exact Or.inr ⟨h0, h0, hf, rfl⟩
    · rw [if_neg hf]
      trivial

/-- The pageref of a root without a page is marked before the page is there. -/
theorem allocpagerefFrom_cases {used : List ℕ} (h : PagerefInv s.kheaproots s.kpages used)
    (hreg : RegionsInv s.kpages) : ∀ rs : List ℕ, (∀ r ∈ rs, r < numPagerefpages) →
      Prog.wp (allocpagerefFrom rs) (fun p t => (p = 0 ∧ t = s ∧ ¬ NeedsRoot s rs) ∨
        PagerefAlloc s.patched used p t.patched ∨
        (p = 0 ∧ t.kheaproots ≠ s.kheaproots ∧ NeedsRoot s rs ∧ s.oracle 0 = 0)) (fun _ _ => True) s
  | [], _ => Or.inl ⟨rfl, rfl, fun ⟨r, hr, _⟩ => by cases hr⟩
  | r :: rs, hrs => by
    have hr : r < numPagerefpages := hrs r List.mem_cons_self
    have hrest := allocpagerefFrom_cases h hreg rs fun r' h' => hrs r' (List.mem_cons_of_mem _ h')
    rw [allocpagerefFrom]
    simp only [Prog.wp_bind, Prog.wp_gets, Prog.wp_ite]
    refine ⟨fun hfull => ?_, fun hfull => ?_⟩
    · have hskip : NeedsRoot s (r :: rs) ↔ NeedsRoot s rs := by
        unfold NeedsRoot
        rw [List.find?_cons_of_neg (by simpa using hfull)]
      rw [hskip]
      exact hrest
    have hneed : NeedsRoot s (r :: rs) ↔ (s.kheaproots r).page = 0 := by
      unfold NeedsRoot
      rw [List.find?_cons_of_pos (by simpa using hfull)]
      simp
    obtain ⟨i, hi, j, hj, hf, hbit⟩ := findClear_of_lt (h.count r hr ▸ Nat.lt_of_not_le hfull)
    simp only [hf, Prog.wp_bind, Prog.wp_modify, Prog.wp_ite, Prog.wp_pure]
    refine ⟨fun h0 => ?_, fun h0 => Or.inr (Or.inl ?_)⟩
    swap
    · exact PagerefAlloc.ofRoot (s := s.patched) h hreg s.patched_oracle hr hi hj hbit h0
    have hpage : ((s.setRoot r ((s.kheaproots r).mark i j)).kheaproots r).page = 0 := by
      simpa [Kheap.setRoot, KheapRoot.mark] using h0
    unfold allocpagerefpage
    simp only [Prog.wp_bind, Prog.wp_gets, Prog.wp_assert, hpage, true_and]
    refine Prog.wp_mono (allocKpages_cases 1) (fun a t => ?_) fun _ _ _ => trivial
    rintro (⟨rfl, ho, rfl⟩ | ⟨ha, -, hfree, rfl⟩)
    · -- refused: the mark is not taken back
      simp only [Prog.wp_ite, Prog.wp_pure, Prog.wp_bind, Prog.wp_gets, hpage]
      refine ⟨fun _ => ⟨fun _ => Or.inr (Or.inr ⟨fun he => ?_, hneed.mpr h0, ho⟩), fun h => absurd trivial h⟩,
        fun h => absurd trivial h⟩
      have hcount := congrArg (fun roots => (roots r).numinuse) he
      simp [Kheap.setRoot, KheapRoot.mark] at hcount
    · simp only [Prog.wp_ite, Prog.wp_bind, Prog.wp_assert, Prog.wp_gets, Prog.wp_modify, Prog.wp_pure, hpage]
      refine ⟨fun h => absurd h ha, fun _ => ⟨hfree.1, fun h => absurd rfl h, fun _ => ?_⟩⟩
      have hnew := PagerefAlloc.ofPage (s := s.patched) h hreg s.patched_oracle hr hi hj hbit h0 ha hfree
      refine ⟨fun h => ?_, fun _ => Or.inr (Or.inl ?_)⟩
      · exact absurd h (by simpa [Kheap.setRoot] using ha)
      · simpa [Kheap.setRoot, Kheap.patched] using hnew

/-- What `kmalloc` leaves when `alloc_kpages` may fail. -/
def MayFail (s : Kheap) (live : ℕ → Option ℕ) (sz a : ℕ) (t : Kheap) : Prop :=
  (a ≠ 0 ∧ live a = none ∧ ∃ pages, HeapInv t.patched (Function.update live a (some sz)) pages) ∨
  (a = 0 ∧ NoTrace s t ∧ ¬ RefusedPagerefs s sz) ∨ (a = 0 ∧ ¬ NoTrace s t ∧ RefusedPagerefs s sz)

/-- **`subpage_kmalloc`** when `alloc_kpages` may fail. -/
theorem subpageKmalloc_cases {sz : ℕ} (h : HeapInv s.patched live pages) (hsz : sz < largestSubpageSize) :
    Prog.wp (subpageKmalloc sz) (MayFail s live sz) (fun _ _ => True) s := by
  rw [subpageKmalloc_eq, Prog.wp_bind]
  refine blocktype_wp hsz _ _ fun b hb hszb hfind => ?_
  simp only [Prog.wp_bind, Prog.wp_gets]
  have hsame : Linked (fun p => (s.refs p).nextSamesize) (s.sizebases b)
      (pages.filter fun p => (s.refs p).blocktype = b) := h.same b hb
  have hlen : (pages.filter fun p => (s.refs p).blocktype = b).length < totalPagerefs + 1 :=
    Nat.lt_succ_of_le ((List.length_filter_le _ _).trans h.length_le)
  refine Prog.wp_mono (findPage_wp hsame hlen fun p hp => by simpa using (List.mem_filter.mp hp).2)
    (fun pr t => ?_) fun _ _ h => h
  rintro ⟨rfl, hfound, hfull⟩
  rw [Prog.wp_ite]
  refine ⟨fun hne => ?_, fun hz => ?_⟩
  · obtain ⟨hmem, hfree⟩ := hfound hne
    obtain ⟨hp, hbt⟩ := List.mem_filter.mp hmem
    have hsize : (t.refs pr).size = sizes b := by rw [Pageref.size, of_decide_eq_true hbt]
    have hwp := (doalloc_commutes pr).wp_iff.mp (doalloc_wp h hp hfree (hsize ▸ hszb))
    exact Prog.wp_mono hwp (fun a u hu => Or.inl ⟨hu.1, hu.2.1, pages, hu.2.2⟩) fun _ _ h => h
  have hneeds : NeedsPage t sz := by
    intro b' xs hb' hxs
    obtain rfl : b = b' := Option.some.inj (hfind.symm.trans hb')
    rw [hxs.unique hsame]
    exact hfull (not_not.mp hz)
  rw [Prog.wp_bind]
  refine Prog.wp_mono (allocKpages_cases 1) (fun page t1 => ?_) fun _ _ h => h
  simp only [Prog.wp_ite, Prog.wp_pure, Prog.wp_bind, Prog.wp_assert]
  rintro (⟨rfl, ho, rfl⟩ | ⟨hpage, ho, hfree, rfl⟩)
  · refine ⟨fun _ => Or.inr (Or.inl ⟨rfl, ⟨rfl, rfl, rfl, rfl, rfl, rfl⟩, fun hr => hr.2.2.2.1 ho⟩), fun h => absurd rfl h⟩
  refine ⟨fun h => absurd h hpage, fun _ => ⟨hfree.1, ?_⟩⟩
  have h1 := h.allocRegion (a := page) hfree hpage (by omega)
  have hpages := allocpagerefFrom_cases
    (s := { t with oracle := fun i => t.oracle (i + 1), kpages := (page, 1) :: t.kpages }) h1.pagerefs h1.regions
    (List.range numPagerefpages) fun _ hr => List.mem_range.mp hr
  refine Prog.wp_mono hpages (fun p u => ?_) fun _ _ h => h
  have hback : ((page, 1) :: t.kpages).filter (fun r => r.1 ≠ page) = t.kpages :=
    filter_fresh fun x hx => h.regions.fresh hfree (by omega) hx
  rintro (⟨rfl, rfl, hroot⟩ | hu | ⟨rfl, hmark, hroot, ho'⟩)
  · refine ⟨fun _ => Or.inr (Or.inl ⟨rfl, ⟨rfl, rfl, rfl, rfl, rfl, hback⟩, fun hr => hroot hr.2.2.1⟩),
      fun h => absurd rfl h⟩
  · refine ⟨fun h => absurd h hu.ne_zero, fun _ => ?_⟩
    have hwp := (newPage_commutes p page b).wp_iff.mp (newPage_wp h hpage hfree hb hszb hu)
    exact Prog.wp_mono hwp (fun a w hw => Or.inl ⟨hw.1, hw.2.1, _, hw.2.2⟩) fun _ _ h => h
  · refine ⟨fun _ => Or.inr (Or.inr ⟨rfl, fun hn => hmark hn.roots, hsz, hneeds, hroot, ho, ho'⟩), fun h => absurd rfl h⟩

/-- **`kmalloc`** when `alloc_kpages` may fail. -/
theorem kmalloc_cases {sz : ℕ} (h : HeapInv s.patched live pages) (hsz : sz + (pageSize - 1) < 2 ^ 32) :
    Prog.wp (kmalloc sz) (MayFail s live sz) (fun _ _ => True) s := by
  unfold kmalloc
  rw [Prog.wp_ite]
  refine ⟨fun hbig => ?_, fun hsmall => subpageKmalloc_cases h (by omega)⟩
  have hn : 0 < (sz + (pageSize - 1)) / pageSize := by
    unfold largestSubpageSize pageSize at *
    omega
  rw [wadd_of_lt hsz, Prog.wp_bind]
  refine Prog.wp_mono (allocKpages_cases _) (fun a t => ?_) fun _ _ h => h
  simp only [Prog.wp_ite, Prog.wp_pure, Prog.wp_bind, Prog.wp_assert]
  rintro (⟨rfl, -, rfl⟩ | ⟨ha, -, hfree, rfl⟩)
  · refine ⟨fun _ => Or.inr (Or.inl ⟨rfl, ⟨rfl, rfl, rfl, rfl, rfl, rfl⟩, fun hr => ?_⟩), fun h => absurd rfl h⟩
    exact absurd hr.1 (Nat.not_lt.mpr hbig)
  · exact ⟨fun h => absurd h ha, fun _ => ⟨hfree.1, Or.inl ⟨ha, (h.bigBlock hfree ha hn).1, pages, (h.bigBlock hfree ha hn).2⟩⟩⟩

/-- **A `kmalloc` that returns null**, of any size. -/
theorem kmalloc_null {sz : ℕ} (h : HeapInv s.patched live pages) (hrun : kmalloc sz s = .ok 0 t) :
    NoTrace s t ↔ ¬ RefusedPagerefs s sz := by
  by_cases hbig : largestSubpageSize ≤ sz
  · have hnot : ¬ RefusedPagerefs s sz := fun hr => absurd hr.1 (Nat.not_lt.mpr hbig)
    refine iff_of_true ?_ hnot
    unfold kmalloc at hrun
    rw [if_pos hbig, Prog.bind_eq_ok] at hrun
    obtain ⟨a, u, ha, hrest⟩ := hrun
    rcases Prog.wp_ok (allocKpages_cases _) ha with ⟨rfl, -, rfl⟩ | ⟨hne, -⟩
    · cases hrest
      exact ⟨rfl, rfl, rfl, rfl, rfl, rfl⟩
    · rw [if_neg hne, Prog.bind_eq_ok] at hrest
      obtain ⟨_, v, -, hv⟩ := hrest
      cases hv
      exact absurd rfl hne
  · unfold kmalloc at hrun
    rw [if_neg hbig] at hrun
    rcases Prog.wp_ok (subpageKmalloc_cases h (Nat.lt_of_not_le hbig)) hrun with ⟨h0, -⟩ | ⟨-, hn, hr⟩ | ⟨-, hn, hr⟩
    · exact absurd rfl h0
    · exact iff_of_true hn hr
    · exact iff_of_false hn (not_not.mpr hr)

/-! ### Runs -/

/-- The calls whose size does not wrap and that are not refused a page of
pagerefs. -/
def Unrefused (s : HeapState) (op : HeapOp) : Prop := NoWrap s op ∧ ∀ sz, op = .kmalloc sz → ¬ RefusedPagerefs s.heap sz

/-- The same state, with an `alloc_kpages` that does not fail. -/
def HeapState.patched (s : HeapState) : HeapState := ⟨s.heap.patched, s.live⟩

/-- What failed allocations leave of the heap: one that returns null leaves no
trace unless it is refused a page of pagerefs, a root without a page counts no
pagerefs, and no call its clients may make next stops the machine. -/
structure HeapSound (s : HeapState) : Prop where
  null : ∀ sz t, Os161.kmalloc sz s.heap = .ok 0 t → (NoTrace s.heap t ↔ ¬ RefusedPagerefs s.heap sz)
  roots : ∀ r < numPagerefpages, (s.heap.kheaproots r).page = 0 → (s.heap.kheaproots r).numinuse = 0
  kmalloc : ∀ sz, NoWrap s (.kmalloc sz) → Os161.kmalloc sz s.heap ≠ .stop
  kfree : ∀ x ∈ s.live, Os161.kfree x.1 s.heap ≠ .stop

theorem HeapRunInv.sound {s : HeapState} (h : HeapRunInv s.patched) : HeapSound s := by
  obtain ⟨⟨pages, hinv⟩, hnd⟩ := h
  refine ⟨fun sz t => kmalloc_null hinv, fun r => hinv.pagerefs.numinuse_eq_zero, fun sz hsz => ?_, fun x hx => ?_⟩
  · exact Prog.wp_ne_stop (kmalloc_cases hinv hsz)
  · exact Prog.wp_ne_stop ((kfree_commutes x.1).wp_iff.mp (kfree_wp hinv (lookup_of_mem hnd hx)))

/-- **A step** with failures. -/
theorem heap_step_unrefused {s t : HeapState} {op : HeapOp} (h : HeapRunInv s.patched)
    (hs : Restrict HeapStep Unrefused s op t) : HeapRunInv t.patched := by
  obtain ⟨hstep, hwrap, hroot⟩ := hs
  cases hstep with
  | kmalloc hsz hrun =>
    obtain ⟨⟨pages, hinv⟩, hnd⟩ := h
    rcases Prog.wp_ok (kmalloc_cases hinv hwrap) hrun with ⟨ha, hnone, pages', hinv'⟩ | ⟨rfl, hn, -⟩ | ⟨-, -, hr⟩
    · rw [if_neg ha]
      refine ⟨⟨pages', ?_⟩, List.nodup_cons.mpr ⟨lookup_eq_none hnone, hnd⟩⟩
      show HeapInv _ (fun c => List.lookup c (_ :: _)) _
      rwa [lookup_cons]
    · exact ⟨⟨pages, hn.heapInv hinv⟩, hnd⟩
    · exact absurd hr (hroot _ rfl)
  | kfreeNull hrun => exact heap_step h ⟨.kfreeNull ((kfree_commutes 0).run_ok hrun), hwrap⟩
  | kfree hlive hrun => exact heap_step h ⟨.kfree hlive ((kfree_commutes _).run_ok hrun), hwrap⟩
  | store hlive h1 h2 => exact heap_step h ⟨.store hlive h1 h2, hwrap⟩

/-- **Failed allocations leave no trace** in every run from boot none of whose
sizes wraps and none of whose calls is refused a page of pagerefs, whatever
else `alloc_kpages` refuses. -/
theorem heap_run_sound {o : ℕ → ℕ} {ops : List HeapOp} {t : HeapState}
    (h : Run (Restrict HeapStep Unrefused) ⟨Kheap.init o, []⟩ ops t) : HeapSound t := by
  have h0 : HeapRunInv (HeapState.patched ⟨Kheap.init o, []⟩) :=
    ⟨⟨[], heapInv_init (Kheap.patched_oracle (Kheap.init o))⟩, List.nodup_nil⟩
  exact (h.invariant (I := fun s => HeapRunInv s.patched) h0 fun _ _ _ => heap_step_unrefused).sound

/-- Two pages, and no more. -/
def twoPages (i : ℕ) : ℕ := if i < 2 then 0x80001000 + i * 4096 else 0

/-- A block, and a failure that leaves no trace. -/
theorem heap_run_sound_twoPages : ∃ t, Run (Restrict HeapStep Unrefused) ⟨Kheap.init twoPages, []⟩
    [.kmalloc 100, .kmalloc 2000] t ∧ t.live = [(0x80001f80, 100)] ∧ HeapSound t := by
  have hv : Prog.value (do
      let p ← kmalloc 100
      let o ← Prog.gets fun s => s.oracle 0
      let q ← kmalloc 2000
      pure (p, o, q)) (Kheap.init twoPages) = some (0x80001f80, 0, 0) := by
    decide +kernel
  obtain ⟨t, ht⟩ := Prog.value_eq_some.mp hv
  simp only [Prog.bind_eq_ok, Prog.pure_run] at ht
  obtain ⟨p, t1, h1, o, t2, h2, q, t3, h3, he⟩ := ht
  cases he
  have h2' : t2 = t1 ∧ t1.oracle 0 = 0 := by
    injection h2 with ho ht
    exact ⟨ht.symm, ho⟩
  obtain ⟨rfl, ho⟩ := h2'
  have hrun : Run (Restrict HeapStep Unrefused) ⟨Kheap.init twoPages, []⟩ [.kmalloc 100, .kmalloc 2000]
      ⟨t, [(0x80001f80, 100)]⟩ := by
    have s1 := HeapStep.kmallocBlock (l := []) (by decide) h1 (by decide)
    have s2 := HeapStep.kmalloc (s := ⟨t2, [(0x80001f80, 100)]⟩) (by decide) h3
    have hw1 : 100 + (pageSize - 1) < 2 ^ 32 := by decide
    have hw2 : 2000 + (pageSize - 1) < 2 ^ 32 := by decide
    refine Run.cons ⟨s1, hw1, fun sz _ hr => ?_⟩ (Run.single ⟨s2, hw2, fun sz _ hr => hr.2.2.2.1 ho⟩)
    exact absurd hr.2.2.2.2 (by decide)
  exact ⟨_, hrun, rfl, heap_run_sound hrun⟩

/-- A page for a block whenever one is asked for, and none for the pagerefs of
the first 256. -/
def noPagerefs (i : ℕ) : ℕ := if i % 2 = 0 then 0x80001000 else if i < 512 then 0 else 0x80002000

/-- Allocations that return null, one after the other. -/
def nulls (n sz : ℕ) : Prog Unit Kheap Unit :=
  Prog.forUp n fun _ => do
    let a ← kmalloc sz
    if a = 0 then pure () else Prog.fail ()

theorem run_nulls {sz : ℕ} {l : List (ℕ × ℕ)} (hsz : sz < 2 ^ 32) : ∀ {n : ℕ} {t : Kheap}, nulls n sz s = .ok () t →
    Run HeapStep ⟨s, l⟩ (List.replicate n (.kmalloc sz)) ⟨t, l⟩
  | 0, t, h => by
    rw [nulls, Prog.forUp_zero] at h
    cases h
    exact Run.nil
  | n + 1, t, h => by
    rw [nulls, Prog.forUp, Prog.bind_eq_ok] at h
    obtain ⟨_, u, hu, h⟩ := h
    rw [Prog.bind_eq_ok] at h
    obtain ⟨a, v, ha, h⟩ := h
    by_cases h0 : a = 0
    · rw [if_pos h0] at h
      cases h
      have hstep := HeapStep.kmalloc (s := ⟨u, l⟩) hsz ha
      rw [if_pos h0] at hstep
      rw [List.replicate_succ']
      exact Run.snoc _ (run_nulls hsz hu) hstep
    · rw [if_neg h0] at h
      cases h

/-- **Failures add up.** The first leaves a pageref marked that no page holds.
After 256 of them the first root is full and has no page; the next block is of
the second root, and freeing it fails an assertion. -/
theorem failures_add_up :
    (∃ t, kmalloc 100 (Kheap.init noPagerefs) = .ok 0 t ∧ ¬ NoTrace (Kheap.init noPagerefs) t) ∧
    ∃ t, Run HeapStep ⟨Kheap.init noPagerefs, []⟩ (List.replicate 256 (.kmalloc 100) ++ [.kmalloc 100]) t ∧
      ∃ x ∈ t.live, kfree x.1 t.heap = .stop := by
  constructor
  · have hv : Prog.value (do
        let p ← kmalloc 100
        let n ← Prog.gets fun s => (s.kheaproots 0).numinuse
        pure (p, n)) (Kheap.init noPagerefs) = some (0, 1) := by
      decide +kernel
    obtain ⟨t, ht⟩ := Prog.value_eq_some.mp hv
    simp only [Prog.bind_eq_ok, Prog.pure_run] at ht
    obtain ⟨p, t1, h1, n, t2, h2, he⟩ := ht
    cases he
    refine ⟨t1, h1, fun hn => ?_⟩
    injection h2 with hcount _
    have h0 := congrArg (fun roots => (roots 0).numinuse) hn.roots
    exact absurd (hcount.symm.trans h0) (by decide)
  · have hv : Prog.value (do
        nulls 256 100
        let p ← kmalloc 100
        let b ← Prog.gets fun s => Prog.stops (kfree p) s
        pure (p, b)) (Kheap.init noPagerefs) = some (0x80001f80, true) := by
      decide +kernel
    obtain ⟨t, ht⟩ := Prog.value_eq_some.mp hv
    simp only [Prog.bind_eq_ok, Prog.pure_run] at ht
    obtain ⟨_, t1, h1, p, t2, h2, b, t3, h3, he⟩ := ht
    cases he
    have hstep := HeapStep.kmallocBlock (l := []) (by decide) h2 (by decide)
    refine ⟨_, Run.snoc _ (run_nulls (by decide) h1) hstep, _, List.mem_singleton_self _, ?_⟩
    injection h3 with hstop _
    exact Prog.stops_iff.mp hstop

end Os161
