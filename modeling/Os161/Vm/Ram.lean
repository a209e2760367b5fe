/-
# Where the kernel's pages come from

`ram_stealmem` (`kern/arch/mips/vm/ram.c`) hands out physical memory from
`firstpaddr` up to `lastpaddr` and never takes any back; `getppages` and
`alloc_kpages` (`dumbvm.c`) call it, and `kmalloc` takes its pages from
`alloc_kpages`. Page counts are multiplied and added in 32 bits: a request
that wraps can be granted with less memory than it asks for, and can move
`firstpaddr` back (`ram_wraps`).

The heap of `Os161/Vm/Kmalloc.lean` is told by a stream what `alloc_kpages`
returns. Here the stream is what `ram_stealmem` gives it. All the requests of
one call of `kmalloc` are for the same number of pages, and there are at most
two; from then on the stream is numbered, so that what is left of it tells how
many pages the call took.

`page_source_run`: in every run whose requests do not wrap, no memory is handed
out twice.
-/
import Os161.Lib.Run
import Os161.Vm.SubpageKmalloc

namespace Os161

/-- `firstpaddr` and `lastpaddr`, and the regions that `ram_stealmem` has
handed out, with their numbers of pages. -/
structure Ram where
  firstpaddr : ℕ
  lastpaddr : ℕ
  stolen : List (ℕ × ℕ)

/-- `MIPS_KSEG0`, where physical memory is mapped one to one, and the end of it. -/
def mipsKseg0 : ℕ := 0x80000000
@[inherit_doc mipsKseg0] def mipsKseg1 : ℕ := 0xa0000000

/-- `PADDR_TO_KVADDR`. -/
def paddrToKvaddr (paddr : ℕ) : ℕ := wadd paddr mipsKseg0

/-- `ram_stealmem`: the result and the variables after it. -/
def ramStealmem (npages : ℕ) (r : Ram) : ℕ × Ram :=
  let size := wcast (npages * pageSize)
  if r.lastpaddr < wadd r.firstpaddr size then (0, r)
  else
    let paddr := r.firstpaddr
    (paddr, { r with
      firstpaddr := wadd r.firstpaddr size
      stolen := if paddr = 0 then r.stolen else (paddr, npages) :: r.stolen })

/-- `getppages`. -/
def getppages (npages : ℕ) (r : Ram) : ℕ × Ram := ramStealmem npages r

/-- `alloc_kpages` of `dumbvm.c`. -/
def dumbvmAllocKpages (npages : ℕ) (r : Ram) : ℕ × Ram :=
  let (pa, r') := getppages npages r
  if pa = 0 then (0, r') else (paddrToKvaddr pa, r')

/-- The variables after `k` calls of `alloc_kpages`. -/
def Ram.after (npages : ℕ) (r : Ram) : ℕ → Ram
  | 0 => r
  | k + 1 => (dumbvmAllocKpages npages (r.after npages k)).2

/-- What `alloc_kpages` returns to one call of `kmalloc`, then numbers. -/
def Ram.kpages (npages : ℕ) (r : Ram) (i : ℕ) : ℕ :=
  if i < 2 then (dumbvmAllocKpages npages (r.after npages i)).1 else 2 ^ 32 + i

/-- The number of pages that `kmalloc` asks `alloc_kpages` for each time. -/
def kmallocPages (sz : ℕ) : ℕ := if largestSubpageSize ≤ sz then wadd sz (pageSize - 1) / pageSize else 1

/-- The page source, the heap, and the blocks it has handed out. -/
structure RamState where
  ram : Ram
  heap : Kheap
  blocks : List (ℕ × ℕ)

/-- `kmalloc` on the pages of `ram_stealmem`. -/
def ramKmalloc (sz : ℕ) : Prog Unit RamState ℕ := fun s =>
  match kmalloc sz { s.heap with oracle := s.ram.kpages (kmallocPages sz) } with
  | .ok a t => .ok a
      { ram := s.ram.after (kmallocPages sz) (t.oracle 2 - (2 ^ 32 + 2))
        heap := t
        blocks := if a = 0 then s.blocks else (a, sz) :: s.blocks }
  | .fail e t => .fail e { s with heap := t }
  | .stop => .stop

/-- The requests. -/
inductive RamOp
  | steal (npages : ℕ)
  | kmalloc (sz : ℕ)

/-- `ram_stealmem` of any page count and `kmalloc` of any size. -/
inductive RamStep : RamState → RamOp → RamState → Prop
  | steal {s : RamState} {npages : ℕ} (hn : npages < 2 ^ 32) :
      RamStep s (.steal npages) { s with ram := (ramStealmem npages s.ram).2 }
  | kmalloc {s t : RamState} {sz a : ℕ} (hsz : sz < 2 ^ 32) (h : ramKmalloc sz s = .ok a t) :
      RamStep s (.kmalloc sz) t

/-- Nothing has been handed out. -/
def ramInit (firstpaddr lastpaddr : ℕ) : RamState := ⟨⟨firstpaddr, lastpaddr, []⟩, Kheap.init fun _ => 0, []⟩

/-! ### The page source -/

/-- The request does not wrap, or is refused although it does; at address 0
what is granted counts as refused. -/
def Ram.NoWrap (npages : ℕ) (r : Ram) : Prop :=
  r.firstpaddr = 0 ∨ r.firstpaddr + npages * pageSize < 2 ^ 32 ∨
    r.lastpaddr < (r.firstpaddr + npages * pageSize) % 2 ^ 32

/-- What has been handed out lies between `f` and `firstpaddr`, each region
above those before it. -/
structure RamInv (f l : ℕ) (r : Ram) : Prop where
  last : r.lastpaddr = l
  first : f ≤ r.firstpaddr ∧ r.firstpaddr ≤ l
  inside : ∀ x ∈ r.stolen, f ≤ x.1 ∧ x.1 + x.2 * pageSize ≤ r.firstpaddr
  apart : r.stolen.Pairwise fun x y => y.1 + y.2 * pageSize ≤ x.1
  aligned : f % pageSize = 0 → r.firstpaddr % pageSize = 0 ∧ ∀ x ∈ r.stolen, x.1 % pageSize = 0

/-- `r'` has handed out no less than `r`. -/
structure Ram.Le (r r' : Ram) : Prop where
  first : r.firstpaddr ≤ r'.firstpaddr
  stolen : ∀ x ∈ r.stolen, x ∈ r'.stolen

theorem Ram.Le.refl (r : Ram) : r.Le r := ⟨le_rfl, fun _ h => h⟩

theorem Ram.Le.trans {r r' r'' : Ram} (h : r.Le r') (h' : r'.Le r'') : r.Le r'' :=
  ⟨h.first.trans h'.first, fun x hx => h'.stolen x (h.stolen x hx)⟩

section Source

variable {f l n : ℕ} {r : Ram}

theorem wadd_wcast (a b : ℕ) : wadd a (wcast b) = (a + b) % 2 ^ 32 := by
  unfold wadd wcast
  rw [Nat.add_mod_mod]

/-- A request that is granted. -/
theorem RamInv.grant (h : RamInv f l r) (hle : r.firstpaddr + n * pageSize ≤ l) :
    RamInv f l { r with
      firstpaddr := r.firstpaddr + n * pageSize
      stolen := if r.firstpaddr = 0 then r.stolen else (r.firstpaddr, n) :: r.stolen } := by
  have hin : ∀ x ∈ (r.firstpaddr, n) :: r.stolen, f ≤ x.1 ∧ x.1 + x.2 * pageSize ≤ r.firstpaddr + n * pageSize := by
    intro x hx
    rcases List.mem_cons.mp hx with rfl | hx
    · exact ⟨h.first.1, le_rfl⟩
    · exact ⟨(h.inside x hx).1, (h.inside x hx).2.trans (Nat.le_add_right _ _)⟩
  have hsub : ∀ x ∈ (if r.firstpaddr = 0 then r.stolen else (r.firstpaddr, n) :: r.stolen),
      x ∈ (r.firstpaddr, n) :: r.stolen := by
    intro x hx
    split_ifs at hx
    · exact List.mem_cons_of_mem _ hx
    · exact hx
  refine ⟨h.last, ⟨h.first.1.trans (Nat.le_add_right _ _), hle⟩, fun x hx => hin x (hsub x hx), ?_, fun hf => ?_⟩
  · split_ifs
    · exact h.apart
    · exact List.pairwise_cons.mpr ⟨fun y hy => (h.inside y hy).2, h.apart⟩
  · obtain ⟨h1, h2⟩ := h.aligned hf
    refine ⟨(Nat.add_mul_mod_self_right _ _ _).trans h1, fun x hx => ?_⟩
    rcases List.mem_cons.mp (hsub x hx) with rfl | hx
    · exact h1
    · exact h2 x hx

/-- At address 0 nothing is handed out, and `firstpaddr` goes up. -/
theorem RamInv.grant_zero (h : RamInv f l r) (h0 : r.firstpaddr = 0) {a : ℕ} (ha : a ≤ l)
    (halign : a % pageSize = 0) : RamInv f l { r with firstpaddr := a } := by
  have hf : f = 0 := by have := h.first.1; omega
  refine ⟨h.last, ⟨by omega, ha⟩, fun x hx => ?_, h.apart, fun hf => ⟨halign, (h.aligned hf).2⟩⟩
  have hx' := h.inside x hx
  exact ⟨hx'.1, by show _ ≤ a; omega⟩

/-- **`ram_stealmem`** of a request that does not wrap. -/
theorem ramStealmem_spec (h : RamInv f l r) (hl : l < 2 ^ 32) (hn : r.NoWrap n) :
    RamInv f l (ramStealmem n r).2 ∧ r.Le (ramStealmem n r).2 ∧
      ((ramStealmem n r).1 ≠ 0 → ((ramStealmem n r).1, n) ∈ (ramStealmem n r).2.stolen) := by
  obtain rfl := h.last
  unfold ramStealmem
  simp only [wadd_wcast]
  split_ifs with hlt h0
  · exact ⟨h, Ram.Le.refl r, fun h => absurd rfl h⟩
  · rw [h0, Nat.zero_add] at hlt
    have halign : n * pageSize % 2 ^ 32 % pageSize = 0 := by unfold pageSize; omega
    rw [h0, Nat.zero_add]
    refine ⟨h.grant_zero h0 (by omega) halign, ⟨?_, fun _ hx => hx⟩, fun h => absurd rfl h⟩
    rw [h0]
    exact Nat.zero_le _
  · have hno : r.firstpaddr + n * pageSize < 2 ^ 32 := by
      rcases hn with h | h | h
      · exact absurd h h0
      · exact h
      · exact absurd h hlt
    rw [Nat.mod_eq_of_lt hno] at hlt ⊢
    have hg := h.grant (n := n) (by omega)
    rw [if_neg h0] at hg
    exact ⟨hg, ⟨Nat.le_add_right _ _, fun _ hx => List.mem_cons_of_mem _ hx⟩, fun _ => List.mem_cons_self⟩

/-- `alloc_kpages` returns the address of what `ram_stealmem` hands out. -/
theorem dumbvmAllocKpages_fst (n : ℕ) (r : Ram) :
    (dumbvmAllocKpages n r).1 = if (ramStealmem n r).1 = 0 then 0 else paddrToKvaddr (ramStealmem n r).1 := by
  unfold dumbvmAllocKpages getppages
  simp only
  split_ifs <;> rfl

theorem dumbvmAllocKpages_snd (n : ℕ) (r : Ram) : (dumbvmAllocKpages n r).2 = (ramStealmem n r).2 := by
  unfold dumbvmAllocKpages getppages
  simp only
  split_ifs <;> rfl

end Source

/-! ### The heap on top

Without `kfree`, what the heap needs is little: a page that still has free
blocks is a page `alloc_kpages` gave it, with its free list in order. -/

/-- Every page with free blocks is one of the heap's own, and no other's. -/
structure Shelved (s : Kheap) : Prop where
  page : ∀ p, 0 < (s.refs p).nfree → ∃ live, PageInv s.mem live (s.refs p)
  region : ∀ p, 0 < (s.refs p).nfree → ((s.refs p).pageaddr, 1) ∈ s.kpages
  inj : ∀ p q, 0 < (s.refs p).nfree → 0 < (s.refs q).nfree → (s.refs p).pageaddr = (s.refs q).pageaddr → p = q

/-- From `s` to `t` the first `k` results of `alloc_kpages` were used, for
requests of `n` pages. -/
structure Took (n k : ℕ) (s t : Kheap) : Prop where
  oracle : t.oracle = fun i => s.oracle (i + k)
  kpages : ∀ x ∈ t.kpages, x ∈ s.kpages ∨ ∃ i < k, x = (s.oracle i, n) ∧ s.oracle i ≠ 0

namespace Took

variable {n k m : ℕ} {s t u : Kheap}

theorem none (h1 : t.oracle = s.oracle) (h2 : ∀ x ∈ t.kpages, x ∈ s.kpages) : Took n 0 s t :=
  ⟨h1, fun x hx => Or.inl (h2 x hx)⟩

theorem trans (h : Took n k s t) (h' : Took n m t u) : Took n (k + m) s u := by
  refine ⟨?_, fun x hx => ?_⟩
  · rw [h'.oracle, h.oracle]
    funext i
    exact congrArg s.oracle (by omega)
  · rcases h'.kpages x hx with hx | ⟨i, hi, rfl, h0⟩
    · rcases h.kpages x hx with hx | ⟨i, hi, rfl, h0⟩
      · exact Or.inl hx
      · exact Or.inr ⟨i, by omega, rfl, h0⟩
    · rw [h.oracle] at h0 ⊢
      exact Or.inr ⟨i + k, by omega, rfl, h0⟩

end Took

section Heap

variable {s t : Kheap} {n : ℕ}

/-- `alloc_kpages` as the heap sees it. -/
theorem allocKpages_returns (n : ℕ) (s : Kheap) : Prog.Returns (allocKpages n) (fun a t => Took n 1 s t ∧
    ((a = 0 ∧ t = { s with oracle := t.oracle }) ∨
      (a ≠ 0 ∧ s.FreePages a n ∧ t = { s with oracle := t.oracle, kpages := (a, n) :: s.kpages }))) s := by
  intro a t h
  unfold allocKpages at h
  simp only at h
  by_cases h0 : s.oracle 0 = 0
  · rw [if_pos h0] at h
    cases h
    exact ⟨⟨rfl, fun x hx => Or.inl hx⟩, Or.inl ⟨rfl, rfl⟩⟩
  · rw [if_neg h0] at h
    by_cases hf : s.FreePages (s.oracle 0) n
    · rw [if_pos hf] at h
      cases h
      refine ⟨⟨rfl, fun x hx => ?_⟩, Or.inr ⟨h0, hf, rfl⟩⟩
      rcases List.mem_cons.mp hx with rfl | hx
      · exact Or.inr ⟨0, Nat.one_pos, rfl, h0⟩
      · exact Or.inl hx
    · rw [if_neg hf] at h
      cases h

/-- A page that is taken is not one of the heap's. -/
theorem Shelved.fresh (h : Shelved s) {a p : ℕ} (hfree : s.FreePages a 1) (hp : 0 < (s.refs p).nfree) :
    (s.refs p).pageaddr ≠ a := by
  intro he
  have h1 := hfree.2.2.2 _ (h.region p hp)
  unfold Kheap.DisjointPages pageSize at h1
  simp only at h1
  omega

/-- More regions. -/
theorem Shelved.mono (h : Shelved s) (href : t.refs = s.refs) (hmem : t.mem = s.mem)
    (hk : ∀ p, 0 < (s.refs p).nfree → ((s.refs p).pageaddr, 1) ∈ s.kpages → ((s.refs p).pageaddr, 1) ∈ t.kpages) :
    Shelved t := by
  refine ⟨?_, ?_, ?_⟩
  · rw [href, hmem]
    exact h.page
  · rw [href]
    exact fun p hp => hk p hp (h.region p hp)
  · rw [href]
    exact h.inj

/-- The roots may change, and pages may be taken for pagerefs. -/
structure TookRefs (k : ℕ) (s t : Kheap) : Prop where
  took : Took 1 k s t
  frame : t = { s with kheaproots := t.kheaproots, kpages := t.kpages, oracle := t.oracle }
  keep : ∀ x ∈ s.kpages, x ∈ t.kpages

/-- The loop of `allocpageref` takes at most one page. -/
theorem allocpagerefFrom_returns : ∀ (rs : List ℕ) (s : Kheap),
    Prog.Returns (allocpagerefFrom rs) (fun _ t => ∃ k ≤ 1, TookRefs k s t) s
  | [], s => by
    rw [allocpagerefFrom, Prog.returns_pure]
    exact ⟨0, Nat.zero_le _, Took.none rfl fun _ h => h, rfl, fun _ h => h⟩
  | r :: rs, s => by
    have hrest := allocpagerefFrom_returns rs s
    rw [allocpagerefFrom]
    simp only [Prog.returns_bind, Prog.returns_gets, Prog.returns_ite]
    refine ⟨fun _ => hrest, fun _ => ?_⟩
    cases hf : Bitmap.findClear (s.kheaproots r).pagerefsInuse 8 with
    | none => exact hrest
    | some x =>
      cases x with
      | none => simp only [Prog.returns_stop]
      | some ij =>
        obtain ⟨i, j⟩ := ij
        simp only [Prog.returns_bind, Prog.returns_modify, Prog.returns_ite, Prog.returns_pure]
        refine ⟨fun h0 => ?_, fun _ => ⟨0, Nat.zero_le _, Took.none rfl fun _ h => h, rfl, fun _ h => h⟩⟩
        unfold allocpagerefpage
        simp only [Prog.returns_bind, Prog.returns_gets, Prog.returns_assert]
        intro hpage
        refine Prog.returns_mono (allocKpages_returns 1 _) fun a t => ?_
        rintro ⟨htook, ⟨rfl, ht⟩ | ⟨ha, -, ht⟩⟩
        · simp only [Prog.returns_pure, if_pos]
          have hk : t.kpages = s.kpages := by rw [ht]; rfl
          refine ⟨fun _ => ⟨1, le_rfl, ⟨htook.oracle, fun x hx => Or.inl (hk ▸ hx)⟩, ?_, fun x hx => hk ▸ hx⟩, fun _ =>
            ⟨1, le_rfl, ⟨htook.oracle, fun x hx => Or.inl (hk ▸ hx)⟩, ?_, fun x hx => hk ▸ hx⟩⟩
          · rw [ht]; rfl
          · rw [ht]; rfl
        · have hroot : t.kheaproots = (s.setRoot r ((s.kheaproots r).mark i j)).kheaproots := by rw [ht]
          have hk : t.kpages = (a, 1) :: s.kpages := by rw [ht]; rfl
          simp only [Prog.returns_ite, Prog.returns_bind, Prog.returns_assert, Prog.returns_gets, Prog.returns_modify,
            Prog.returns_pure]
          refine ⟨fun h => absurd h ha, fun _ _ => ⟨fun hne => absurd (hroot ▸ hpage) hne, fun _ => ?_⟩⟩
          have hdone : ∃ k ≤ 1, TookRefs k s (t.setRoot r { t.kheaproots r with page := a }) := by
            refine ⟨1, le_rfl, ⟨htook.oracle, htook.kpages⟩, ?_, fun x hx => ?_⟩
            · rw [ht]; rfl
            · show x ∈ t.kpages
              rw [hk]
              exact List.mem_cons_of_mem _ hx
          exact ⟨fun _ => hdone, fun _ => hdone⟩

/-- The walk finds a page of the size with a free block, if it finds one. -/
theorem findPage_returns {b : ℕ} : ∀ (n pr : ℕ) (s : Kheap), Prog.Returns (findPage b n pr)
    (fun q t => t = s ∧ (q ≠ 0 → (s.refs q).blocktype = b ∧ 0 < (s.refs q).nfree)) s
  | 0, _, s => by rw [findPage, Prog.returns_stop]; trivial
  | n + 1, pr, s => by
    rw [findPage]
    simp only [Prog.returns_ite, Prog.returns_pure, Prog.returns_bind, Prog.returns_gets, Prog.returns_assert]
    refine ⟨fun _ => ⟨trivial, fun h => absurd rfl h⟩, fun _ hb => ⟨fun hf => ⟨trivial, fun _ => ⟨hb, hf⟩⟩, fun _ => ?_⟩⟩
    exact findPage_returns n _ s

/-- What `kmalloc` returns: a block of at least the size on a region of the
heap, or null. -/
structure Got (n k sz : ℕ) (s : Kheap) (a : ℕ) (t : Kheap) : Prop where
  took : Took n k s t
  shelved : Shelved t
  block : a ≠ 0 → ∃ x ∈ t.kpages, x.1 ≤ a ∧ a + sz ≤ x.1 + x.2 * pageSize

/-- **`doalloc`** takes a block of a page. -/
theorem doalloc_returns {pr sz : ℕ} (h : Shelved s) (hfree : 0 < (s.refs pr).nfree) (hsz : sz ≤ (s.refs pr).size) :
    Prog.Returns (doalloc pr) (fun a t => Got 1 0 sz s a t) s := by
  obtain ⟨live, hpage⟩ := h.page pr hfree
  refine Prog.returns_mono (Prog.wp_returns (doalloc_page hpage hfree)) fun a t => ?_
  rintro ⟨hbl, -, r', rfl, hab, -, -, hpage'⟩
  have haddr : r'.pageaddr = (s.refs pr).pageaddr := by unfold Pageref.pageaddr; rw [hab]
  have href : ∀ p, ((s.setRef pr r').refs p).pageaddr = (s.refs p).pageaddr := by
    intro p
    by_cases hp : p = pr
    · rw [hp]
      exact (congrArg Pageref.pageaddr (Function.update_self _ _ _)).trans haddr
    · exact congrArg Pageref.pageaddr (Function.update_of_ne hp _ _)
  -- a page that has free blocks now had some before
  have hold : ∀ p, 0 < ((s.setRef pr r').refs p).nfree → 0 < (s.refs p).nfree := by
    intro p hp
    by_cases hpp : p = pr
    · rw [hpp]
      exact hfree
    · rwa [show (s.setRef pr r').refs p = s.refs p from Function.update_of_ne hpp _ _] at hp
  refine ⟨Took.none rfl fun _ h => h, ⟨fun p hp => ?_, fun p hp => ?_, fun p q hp hq => ?_⟩, fun _ => ?_⟩
  · by_cases hpp : p = pr
    · rw [hpp, show (s.setRef pr r').refs pr = r' from Function.update_self _ _ _]
      exact ⟨_, hpage' sz⟩
    · rw [show (s.setRef pr r').refs p = s.refs p from Function.update_of_ne hpp _ _]
      exact h.page p (hold p hp)
  · rw [href]
    exact h.region p (hold p hp)
  · rw [href, href]
    exact h.inj p q (hold p hp) (hold q hq)
  · refine ⟨_, h.region pr hfree, hbl.le, ?_⟩
    have := hbl.end_le
    simp only
    omega

/-- The heap with a new page. -/
theorem Shelved.addPage {page p b : ℕ} {mem : ℕ → ℕ} (h : Shelved s) (hfree : s.FreePages page 1) (hb : b < nsizes)
    (hframe : t = { s with kheaproots := t.kheaproots, kpages := t.kpages, oracle := t.oracle })
    (hkeep : ∀ x ∈ s.kpages, x ∈ t.kpages) (hpage : (page, 1) ∈ t.kpages)
    (hmem : ∀ a, a < page ∨ page + pageSize ≤ a → mem a = s.mem a)
    (hl : Linked mem (page + (pageSize / sizes b - 1) * sizes b) (freshList page (sizes b) (pageSize / sizes b))) :
    Shelved (Os161.addPage t p page b mem) := by
  have hself : (Os161.addPage t p page b mem).refs p = newPageref t page b := Function.update_self _ _ _
  have hother : ∀ q, q ≠ p → (Os161.addPage t p page b mem).refs q = s.refs q := by
    intro q hq
    refine (Function.update_of_ne hq _ _).trans ?_
    rw [hframe]
  have haddr : (newPageref t page b).pageaddr = page := newPageref_pageaddr hfree.1
  refine ⟨fun q hq => ?_, fun q hq => ?_, fun q q' hq hq' he => ?_⟩
  · by_cases hqp : q = p
    · rw [hqp, hself]
      exact ⟨fun _ => none, newPageref_page hfree.1 hb hl fun _ _ _ => rfl⟩
    · rw [hother q hqp] at hq ⊢
      obtain ⟨live, hp⟩ := h.page q hq
      refine ⟨live, hp.congr (Pageref.SamePage.refl _) (fun _ _ => Iff.rfl) fun a ha _ => hmem a ?_⟩
      have h1 := hfree.2.2.2 _ (h.region q hq)
      have h2 := ha.le
      have h3 := ha.end_le
      have h4 := (sizes_spec hp.blocktype).1
      unfold Kheap.DisjointPages at h1
      unfold Pageref.size at h3
      simp only [Nat.one_mul] at h1
      omega
  · by_cases hqp : q = p
    · rw [hqp, hself, haddr]
      exact hpage
    · rw [hother q hqp] at hq ⊢
      exact hkeep _ (h.region q hq)
  · by_cases hqp : q = p <;> by_cases hqp' : q' = p
    · rw [hqp, hqp']
    · rw [hqp, hself, haddr, hother q' hqp'] at he
      rw [hother q' hqp'] at hq'
      exact absurd he.symm (h.fresh hfree hq')
    · rw [hqp', hself, haddr, hother q hqp] at he
      rw [hother q hqp] at hq
      exact absurd he (h.fresh hfree hq)
    · rw [hother q hqp] at hq he
      rw [hother q' hqp'] at hq' he
      exact h.inj q q' hq hq' he

/-- `subpage_kmalloc` when no page of the size has a free block and `page` has
been taken. -/
theorem newPage_returns {page b sz : ℕ} (h : Shelved s) (hfree : s.FreePages page 1) (hpage : page ≠ 0) (hb : b < nsizes)
    (hsz : sz ≤ sizes b) (ht : Took 1 1 s t) (hframe : t = { s with oracle := t.oracle, kpages := (page, 1) :: s.kpages })
    {p : ℕ} {u : Kheap} (hu : ∃ k ≤ 1, TookRefs k t u) :
    Prog.Returns (do
      if p = 0 then do
        freeKpages page
        pure 0
      else do
        let nfree := pageSize / sizes b
        Prog.modify fun s => s.setRef p { s.refs p with pageaddrAndBlocktype := mkpab page b, nfree }
        initFreelist page (sizes b) nfree
        let offset := (nfree - 1) * sizes b
        Prog.modify fun s => s.setRef p { s.refs p with freelistOffset := offset }
        Prog.modify fun s =>
          { s.setRef p { s.refs p with nextSamesize := s.sizebases b } with
            sizebases := Function.update s.sizebases b p }
        Prog.modify fun s => { s.setRef p { s.refs p with nextAll := s.allbase } with allbase := p }
        doalloc p : Prog Unit Kheap ℕ) (fun a t => ∃ k ≤ 2, Got 1 k sz s a t) u := by
  obtain ⟨k, hk, hu⟩ := hu
  have htook := ht.trans hu.took
  have hkp : ∀ x ∈ s.kpages, x ∈ u.kpages := fun x hx => hu.keep x (by rw [hframe]; exact List.mem_cons_of_mem _ hx)
  have hframe' : u = { s with kheaproots := u.kheaproots, kpages := u.kpages, oracle := u.oracle } := by
    rw [hu.frame, hframe]
  rw [Prog.returns_ite]
  refine ⟨fun _ => ?_, fun _ => ?_⟩
  · unfold freeKpages
    simp only [Prog.returns_bind, Prog.returns_modify, Prog.returns_pure]
    refine ⟨1 + k, by omega, ⟨htook.oracle, fun x hx => htook.kpages x (List.mem_filter.mp hx).1⟩, ?_, fun h => absurd rfl h⟩
    refine h.mono ?_ ?_ fun q hq hreg => List.mem_filter.mpr ⟨hkp _ hreg, ?_⟩
    · show u.refs = s.refs
      rw [hframe']
    · show u.mem = s.mem
      rw [hframe']
    · simpa using h.fresh hfree hq
  · have hsb := sizes_spec hb
    have hdiv : 0 < pageSize / sizes b := Nat.div_pos (Nat.le_of_dvd (by decide) hsb.2.1) (by omega)
    simp only [Prog.returns_bind, Prog.returns_modify]
    refine Prog.returns_mono (Prog.wp_returns (initFreelist_wp hpage (by omega) hdiv (Nat.div_mul_le_self _ _)))
      fun _ v => ?_
    rintro ⟨mem, rfl, hoff, hlinked⟩
    have hmem : ∀ a, a < page ∨ page + pageSize ≤ a → mem a = s.mem a := by
      intro a ha
      rw [hoff a ha]
      show u.mem a = _
      rw [hframe']
    have hadd := h.addPage (p := p) hfree hb hframe' hkp
      (hu.keep _ (by rw [hframe]; exact List.mem_cons_self)) hmem hlinked
    have hnfree : 0 < ((addPage u p page b mem).refs p).nfree := by
      simpa [addPage, newPageref] using hdiv
    have hsize : ((addPage u p page b mem).refs p).size = sizes b := by
      simpa [addPage] using newPageref_size hb
    -- the pageref is filled in field by field
    refine (congrArg (Prog.Returns (doalloc p) fun a t => ∃ k ≤ 2, Got 1 k sz s a t)
      (?_ : _ = addPage u p page b mem)).mpr (Prog.returns_mono (doalloc_returns hadd hnfree (hsize ▸ hsz))
        fun a w hw => ⟨1 + k + 0, by omega, ?_, hw.shelved, hw.block⟩)
    · simp [addPage, newPageref, Kheap.setRef]
    · exact Took.trans (t := addPage u p page b mem) ⟨htook.oracle, htook.kpages⟩ hw.took

/-- **`subpage_kmalloc`** takes at most two pages. -/
theorem subpageKmalloc_returns {sz : ℕ} (h : Shelved s) (hsz : sz < largestSubpageSize) :
    Prog.Returns (subpageKmalloc sz) (fun a t => ∃ k ≤ 2, Got 1 k sz s a t) s := by
  unfold subpageKmalloc
  rw [Prog.returns_bind]
  refine Prog.wp_returns (blocktype_wp hsz _ (fun _ _ => True) fun b hb hszb _ => ?_)
  simp only [Prog.returns_bind, Prog.returns_gets]
  refine Prog.returns_mono (findPage_returns _ _ s) fun pr t => ?_
  rintro ⟨rfl, hfound⟩
  rw [Prog.returns_ite]
  refine ⟨fun hne => ?_, fun _ => ?_⟩
  · obtain ⟨hbt, hfree⟩ := hfound hne
    have hsize : (t.refs pr).size = sizes b := by rw [Pageref.size, hbt]
    exact Prog.returns_mono (doalloc_returns h hfree (hsize ▸ hszb)) fun a u hu => ⟨0, Nat.zero_le _, hu⟩
  · rw [Prog.returns_bind]
    refine Prog.returns_mono (allocKpages_returns 1 t) fun page t1 => ?_
    rintro ⟨htook, ⟨rfl, ht1⟩ | ⟨hpage, hfree, ht1⟩⟩
    · simp only [if_pos, Prog.returns_pure]
      refine ⟨1, by omega, htook, h.mono (by rw [ht1]) (by rw [ht1]) fun _ _ hx => by rw [ht1]; exact hx, fun h => absurd rfl h⟩
    · simp only [if_neg hpage, Prog.returns_bind, Prog.returns_assert]
      intro _
      refine Prog.returns_mono (allocpagerefFrom_returns _ t1) fun p u hu => ?_
      exact newPage_returns h hfree hpage hb hszb htook ht1 hu

/-- **`kmalloc`** of a size that does not wrap when it is rounded up. -/
theorem kmalloc_returns {sz : ℕ} (h : Shelved s) (hsz : sz + (pageSize - 1) < 2 ^ 32) :
    Prog.Returns (kmalloc sz) (fun a t => ∃ k ≤ 2, (largestSubpageSize ≤ sz → k ≤ 1) ∧ Got (kmallocPages sz) k sz s a t) s := by
  unfold kmalloc kmallocPages
  rw [Prog.returns_ite]
  refine ⟨fun hbig => ?_, fun hsmall => ?_⟩
  · rw [if_pos hbig, Prog.returns_bind]
    refine Prog.returns_mono (allocKpages_returns _ s) fun a t => ?_
    rintro ⟨htook, ⟨rfl, ht⟩ | ⟨ha, -, ht⟩⟩
    · simp only [if_pos, Prog.returns_pure]
      exact ⟨1, by omega, fun _ => le_rfl, htook, h.mono (by rw [ht]) (by rw [ht]) fun _ _ hx => by rw [ht]; exact hx,
        fun h => absurd rfl h⟩
    · simp only [if_neg ha, Prog.returns_bind, Prog.returns_assert, Prog.returns_pure]
      refine fun _ => ⟨1, by omega, fun _ => le_rfl, htook, h.mono (by rw [ht]) (by rw [ht]) fun _ _ hx => ?_, fun _ => ?_⟩
      · rw [ht]
        exact List.mem_cons_of_mem _ hx
      · refine ⟨_, by rw [ht]; exact List.mem_cons_self, le_rfl, ?_⟩
        rw [wadd_of_lt hsz]
        unfold pageSize
        simp only
        omega
  · rw [if_neg hsmall]
    refine Prog.returns_mono (subpageKmalloc_returns h (by omega)) fun a t => ?_
    rintro ⟨k, hk, hgot⟩
    exact ⟨k, hk, fun hb => absurd hb hsmall, hgot⟩

end Heap

/-! ### Runs -/

/-- No request of the step wraps, and the memory that `kmalloc` hands out can
be reached through kseg0. -/
def RamState.NoWrap (s : RamState) : RamOp → Prop
  | .steal npages => s.ram.NoWrap npages
  | .kmalloc sz => sz + (pageSize - 1) < 2 ^ 32 ∧ s.ram.NoWrap (kmallocPages sz) ∧ s.ram.lastpaddr ≤ mipsKseg1 - mipsKseg0

/-- `n` pages at `x` and `m` pages at `y` have no byte in common. -/
def PagesApart (x y : ℕ × ℕ) : Prop := x.1 + x.2 * pageSize ≤ y.1 ∨ y.1 + y.2 * pageSize ≤ x.1

/-- What the page source promises, started at `f` with memory up to `l`: what
`ram_stealmem` has returned lies inside and does not overlap, and every block
of `kmalloc` lies in memory of its own kind, in kseg0. -/
structure PagesOk (f l : ℕ) (s : RamState) : Prop where
  inside : ∀ x ∈ s.ram.stolen, f ≤ x.1 ∧ x.1 + x.2 * pageSize ≤ l
  apart : s.ram.stolen.Pairwise PagesApart
  aligned : f % pageSize = 0 → ∀ x ∈ s.ram.stolen, x.1 % pageSize = 0
  blocks : ∀ b ∈ s.blocks, ∃ x ∈ s.ram.stolen, mipsKseg0 + x.1 ≤ b.1 ∧ b.1 + b.2 ≤ mipsKseg0 + x.1 + x.2 * pageSize ∧
    b.1 + b.2 ≤ mipsKseg1

/-- The invariant of the runs. -/
structure RamRunInv (f l : ℕ) (s : RamState) : Prop where
  ram : RamInv f l s.ram
  shelved : Shelved s.heap
  kpages : ∀ x ∈ s.heap.kpages, ∃ pa, (pa, x.2) ∈ s.ram.stolen ∧ x.1 = paddrToKvaddr pa
  blocks : ∀ b ∈ s.blocks, ∃ x ∈ s.ram.stolen, mipsKseg0 + x.1 ≤ b.1 ∧ b.1 + b.2 ≤ mipsKseg0 + x.1 + x.2 * pageSize ∧
    b.1 + b.2 ≤ mipsKseg1

section Run

variable {f l : ℕ} {s t : RamState}

theorem RamRunInv.ok (h : RamRunInv f l s) : PagesOk f l s where
  inside x hx := ⟨(h.ram.inside x hx).1, (h.ram.inside x hx).2.trans h.ram.first.2⟩
  apart := h.ram.apart.imp fun h => Or.inr h
  aligned hf := (h.ram.aligned hf).2
  blocks := h.blocks

/-- More has been stolen. -/
theorem RamRunInv.steal {r : Ram} (h : RamRunInv f l s) (hr : RamInv f l r) (hle : s.ram.Le r) :
    RamRunInv f l { s with ram := r } where
  ram := hr
  shelved := h.shelved
  kpages x hx := by
    obtain ⟨pa, hpa, he⟩ := h.kpages x hx
    exact ⟨pa, hle.stolen _ hpa, he⟩
  blocks b hb := by
    obtain ⟨x, hx, hbx⟩ := h.blocks b hb
    exact ⟨x, hle.stolen _ hx, hbx⟩

/-- The calls of `alloc_kpages` that one `kmalloc` makes: `k` of them, none of
which wraps. -/
theorem after_spec {r : Ram} {n : ℕ} (hl : l < 2 ^ 32) : ∀ {k : ℕ}, RamInv f l r → (∀ i < k, (r.after n i).NoWrap n) →
    RamInv f l (r.after n k) ∧ r.Le (r.after n k) ∧
      ∀ i < k, (dumbvmAllocKpages n (r.after n i)).1 ≠ 0 →
        ∃ pa, (pa, n) ∈ (r.after n k).stolen ∧ (dumbvmAllocKpages n (r.after n i)).1 = paddrToKvaddr pa
  | 0, h, _ => ⟨h, Ram.Le.refl r, fun i hi => absurd hi (Nat.not_lt_zero i)⟩
  | k + 1, h, hn => by
    obtain ⟨h1, h2, h3⟩ := after_spec hl (k := k) h fun i hi => hn i (by omega)
    obtain ⟨g1, g2, g3⟩ := ramStealmem_spec h1 hl (hn k (by omega))
    have hs : r.after n (k + 1) = (ramStealmem n (r.after n k)).2 := dumbvmAllocKpages_snd n _
    rw [hs]
    refine ⟨g1, h2.trans g2, fun i hi hne => ?_⟩
    rcases Nat.lt_succ_iff_lt_or_eq.mp hi with hi | rfl
    · obtain ⟨pa, hpa, he⟩ := h3 i hi hne
      exact ⟨pa, g2.stolen _ hpa, he⟩
    · rw [dumbvmAllocKpages_fst] at hne ⊢
      split_ifs at hne ⊢ with h0
      · exact absurd rfl hne
      · exact ⟨_, g3 h0, rfl⟩

/-- Requests of one page do not wrap where kseg0 reaches all memory. -/
theorem RamInv.noWrap_one {r : Ram} (h : RamInv f l r) (hl : l ≤ mipsKseg1 - mipsKseg0) : r.NoWrap 1 := by
  have h1 := h.first.2
  unfold mipsKseg1 mipsKseg0 at hl
  refine Or.inr (Or.inl ?_)
  unfold pageSize
  omega

/-- None of the requests of a `kmalloc` wraps. -/
theorem RamInv.noWrap_after {r : Ram} {sz k : ℕ} (h : RamInv f l r) (hl : l ≤ mipsKseg1 - mipsKseg0)
    (hn : r.NoWrap (kmallocPages sz)) (hk : k ≤ 2) (hbig : largestSubpageSize ≤ sz → k ≤ 1) :
    ∀ i < k, (r.after (kmallocPages sz) i).NoWrap (kmallocPages sz) := by
  have hl' : l < 2 ^ 32 := by unfold mipsKseg1 mipsKseg0 at hl; omega
  intro i hi
  obtain rfl | rfl : i = 0 ∨ i = 1 := by omega
  · exact hn
  · -- a second request is for one page
    have hsmall : ¬ largestSubpageSize ≤ sz := fun hb => by have := hbig hb; omega
    have hone : kmallocPages sz = 1 := if_neg hsmall
    rw [hone] at hn ⊢
    exact (after_spec hl' (k := 1) h fun i hi => by obtain rfl : i = 0 := by omega
                                                    exact hn).1.noWrap_one hl

/-- The address of a region in kseg0. -/
theorem RamInv.kvaddr {r : Ram} {x : ℕ × ℕ} (h : RamInv f l r) (hl : l ≤ mipsKseg1 - mipsKseg0) (hx : x ∈ r.stolen) :
    paddrToKvaddr x.1 = mipsKseg0 + x.1 ∧ mipsKseg0 + x.1 + x.2 * pageSize ≤ mipsKseg1 := by
  have h1 := (h.inside x hx).2
  have h2 := h.first.2
  unfold mipsKseg1 mipsKseg0 at hl
  unfold paddrToKvaddr mipsKseg1 mipsKseg0
  rw [wadd_of_lt (by omega)]
  exact ⟨Nat.add_comm _ _, by omega⟩

/-- **`kmalloc`** on the page source. -/
theorem ramKmalloc_step {sz a : ℕ} (h : RamRunInv f l s) (hn : s.NoWrap (.kmalloc sz)) (hrun : ramKmalloc sz s = .ok a t) :
    RamRunInv f l t ∧ s.ram.Le t.ram := by
  obtain ⟨hsz, hwrap, hkseg⟩ := hn
  rw [h.ram.last] at hkseg
  have hl : l < 2 ^ 32 := by unfold mipsKseg1 mipsKseg0 at hkseg; omega
  unfold ramKmalloc at hrun
  cases hm : kmalloc sz { s.heap with oracle := s.ram.kpages (kmallocPages sz) } with
  | fail e u => rw [hm] at hrun; cases hrun
  | stop => rw [hm] at hrun; cases hrun
  | ok b u =>
    rw [hm] at hrun
    cases hrun
    have hshelf : Shelved { s.heap with oracle := s.ram.kpages (kmallocPages sz) } :=
      h.shelved.mono rfl rfl fun _ _ h => h
    obtain ⟨k, hk, hbig, hgot⟩ := kmalloc_returns hshelf hsz _ _ hm
    -- the numbered part of the stream tells how many pages were taken
    have hcount : u.oracle 2 - (2 ^ 32 + 2) = k := by
      rw [hgot.took.oracle]
      show s.ram.kpages (kmallocPages sz) (2 + k) - _ = k
      unfold Ram.kpages
      rw [if_neg (by omega)]
      omega
    obtain ⟨hram, hle, htaken⟩ := after_spec hl h.ram (h.ram.noWrap_after hkseg hwrap hk hbig)
    rw [hcount]
    have hkp : ∀ x ∈ u.kpages, ∃ pa, (pa, x.2) ∈ (s.ram.after (kmallocPages sz) k).stolen ∧ x.1 = paddrToKvaddr pa := by
      intro x hx
      rcases hgot.took.kpages x hx with hx | ⟨i, hi, rfl, h0⟩
      · obtain ⟨pa, hpa, he⟩ := h.kpages x hx
        exact ⟨pa, hle.stolen _ hpa, he⟩
      · have hi2 : s.ram.kpages (kmallocPages sz) i = (dumbvmAllocKpages (kmallocPages sz) (s.ram.after (kmallocPages sz) i)).1 :=
          if_pos (by omega)
        simp only [hi2] at h0 ⊢
        exact htaken i hi h0
    refine ⟨⟨hram, hgot.shelved, hkp, fun b' hb' => ?_⟩, hle⟩
    have hold : ∀ b' ∈ s.blocks, _ := fun b' hb' => (h.steal hram hle).blocks b' hb'
    simp only at hb'
    split_ifs at hb' with ha
    · exact hold b' hb'
    · rcases List.mem_cons.mp hb' with rfl | hb'
      · obtain ⟨x, hx, hlo, hhi⟩ := hgot.block ha
        obtain ⟨pa, hpa, he⟩ := hkp x hx
        obtain ⟨hk1, hk2⟩ := hram.kvaddr hkseg hpa
        rw [he, hk1] at hlo hhi
        exact ⟨_, hpa, hlo, hhi, hhi.trans hk2⟩
      · exact hold b' hb'

/-- **A request** that does not wrap. -/
theorem ram_step {op : RamOp} (hl : l < 2 ^ 32) (h : RamRunInv f l s) (hs : Restrict RamStep RamState.NoWrap s op t) :
    RamRunInv f l t ∧ s.ram.Le t.ram := by
  obtain ⟨hstep, hn⟩ := hs
  cases hstep with
  | steal hnp =>
    obtain ⟨h1, h2, -⟩ := ramStealmem_spec h.ram hl hn
    exact ⟨h.steal h1 h2, h2⟩
  | kmalloc hsz hrun => exact ramKmalloc_step h hn hrun

end Run

/-- **No memory is handed out twice**, and `firstpaddr` never decreases, in
every run whose requests do not wrap. -/
theorem page_source_run {f l : ℕ} (hfl : f ≤ l) (hl : l < 2 ^ 32) {ops ops' : List RamOp} {s t : RamState}
    (h : Run (Restrict RamStep RamState.NoWrap) (ramInit f l) ops s)
    (h' : Run (Restrict RamStep RamState.NoWrap) s ops' t) :
    PagesOk f l s ∧ s.ram.firstpaddr ≤ t.ram.firstpaddr := by
  have h0 : RamRunInv f l (ramInit f l) :=
    { ram := ⟨rfl, ⟨le_rfl, hfl⟩, (fun _ hx => nomatch hx), List.Pairwise.nil, fun hf => ⟨hf, fun _ hx => nomatch hx⟩⟩
      shelved := ⟨fun p hp => absurd hp (Nat.lt_irrefl 0), fun p hp => absurd hp (Nat.lt_irrefl 0),
        fun p q hp => absurd hp (Nat.lt_irrefl 0)⟩
      kpages := fun _ hx => nomatch hx
      blocks := fun _ hx => nomatch hx }
  have hs : RamRunInv f l s := h.invariant h0 fun _ _ _ hi hs => (ram_step hl hi hs).1
  refine ⟨hs.ok, ?_⟩
  have ht : RamRunInv f l t ∧ s.ram.Le t.ram := h'.invariant (I := fun t => RamRunInv f l t ∧ s.ram.Le t.ram)
    ⟨hs, Ram.Le.refl _⟩ fun u op v hi hv => ⟨(ram_step hl hi.1 hv).1, hi.2.trans (ram_step hl hi.1 hv).2⟩
  exact ht.2.first

/-- Two pages are stolen, then a block of 100 bytes is allocated. -/
theorem page_source_run_block : ∃ s, Run (Restrict RamStep RamState.NoWrap) (ramInit 0x1000 0x100000)
    [.steal 2, .kmalloc 100] s ∧ PagesOk 0x1000 0x100000 s := by
  have hram : (ramStealmem 2 (ramInit 0x1000 0x100000).ram).2 = ⟨0x3000, 0x100000, [(0x1000, 2)]⟩ := by
    unfold ramStealmem
    simp only [wadd_wcast]
    rfl
  have hv : Prog.value (ramKmalloc 100)
      { ramInit 0x1000 0x100000 with ram := (ramStealmem 2 (ramInit 0x1000 0x100000).ram).2 } = some 0x80003f80 := by
    decide +kernel
  obtain ⟨s, hs⟩ := Prog.value_eq_some.mp hv
  have hrun : Run (Restrict RamStep RamState.NoWrap) (ramInit 0x1000 0x100000) [.steal 2, .kmalloc 100] s := by
    refine Run.cons ⟨RamStep.steal (by decide), Or.inr (Or.inl (by decide))⟩
      (Run.single ⟨RamStep.kmalloc (by decide) hs, by decide, ?_, ?_⟩)
    · rw [hram]
      exact Or.inr (Or.inl (by decide))
    · rw [hram]
      decide
  exact ⟨s, hrun, (page_source_run (by decide) (by decide) hrun Run.nil).1⟩

/-- **A request that wraps.** After one page at 0x2000, a request for 0xfffff
pages is granted and moves `firstpaddr` back, and the next page is the one at
0x2000 again. -/
theorem ram_wraps : ∃ s, Run RamStep (ramInit 0x2000 0x100000) [.steal 1, .steal 0xfffff, .steal 1] s ∧
    s.ram.stolen = [(0x2000, 1), (0x3000, 0xfffff), (0x2000, 1)] ∧ ¬ PagesOk 0x2000 0x100000 s := by
  have hram : (ramStealmem 1 (ramStealmem 0xfffff (ramStealmem 1 (ramInit 0x2000 0x100000).ram).2).2).2.stolen =
      [(0x2000, 1), (0x3000, 0xfffff), (0x2000, 1)] := by
    decide +kernel
  refine ⟨_, Run.cons (RamStep.steal (by decide)) (Run.cons (RamStep.steal (by decide))
    (Run.single (RamStep.steal (by decide)))), hram, fun hok => ?_⟩
  have := (hok.inside (0x3000, 0xfffff) (by rw [hram]; decide)).2
  exact absurd this (by decide)

end Os161
