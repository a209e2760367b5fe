/-
# The blocks of the `File`s

`open` (`kern/syscall/file.c`) and `open2` (`kern/proc/proc.c`) ask `kmalloc`
for `sizeof(struct File *)` bytes, 4, and get a block of 16. A `struct File`
has 24: its `offset` lies behind the block. So no `File` is ever inside its
block (`filesFit_iff`), and setting the offset of one overwrites the vnode of
the one before it (`offset_overwrites`).

A history is any sequence of what these functions, `close` and the users of a
`File` do to the heap, with anything at all in between from the rest of the
kernel. The statements therefore hold of a heap in any state, also one that
earlier `File`s have overwritten.
-/
import Os161.Vm.HeapRun

namespace Os161

/-! ### The layout -/

/-- The fields of `struct File`. -/
inductive FileField
  | vPtr | openFlags | references | flock | offset
  deriving DecidableEq

/-- Where a field starts, `off_t` being aligned to 8. -/
def FileField.start : FileField → ℕ
  | .vPtr => 0
  | .openFlags => 4
  | .references => 8
  | .flock => 12
  | .offset => 16

/-- `sizeof` of a field. -/
def FileField.bytes : FileField → ℕ
  | .offset => 8
  | _ => 4

/-- `sizeof(struct File)`. -/
def sizeofFile : ℕ := FileField.offset.start + FileField.offset.bytes

/-- `sizeof(struct File *)`. -/
def sizeofPointer : ℕ := 4

/-! ### Stores -/

/-- Word `i` of a pageref overwritten. -/
def Pageref.poke (i w : ℕ) (r : Pageref) : Pageref :=
  match i with
  | 0 => { r with nextSamesize := w }
  | 1 => { r with nextAll := w }
  | 2 => { r with pageaddrAndBlocktype := w }
  | _ => { r with freelistOffset := w / 2 ^ 16, nfree := w % 2 ^ 16 }

/-- A store of a word at any address: what is there may be a pageref. -/
def Kheap.poke (a w : ℕ) (s : Kheap) : Kheap :=
  (s.setWord a w).setRef (a / 16 * 16) ((s.refs (a / 16 * 16)).poke (a % 16 / 4) w)

/-- A field of the `File` at `p` set; an `off_t` is two words, the high one
first. -/
def storeField (p : ℕ) (f : FileField) (v : ℕ) (s : Kheap) : Kheap :=
  match f with
  | .offset => (s.poke (p + f.start) (v / 2 ^ 32)).poke (p + f.start + 4) (v % 2 ^ 32)
  | _ => s.poke (p + f.start) v

/-! ### Blocks -/

/-- The pageref of the page that `subpage_kmalloc` takes its block from. -/
def servedBy (sz : ℕ) : Prog Unit Kheap ℕ := do
  let blktype ← blocktype sz
  let base ← Prog.gets fun s => s.sizebases blktype
  let pr ← findPage blktype (totalPagerefs + 1) base
  if pr ≠ 0 then pure pr
  else do
    let prpage ← allocKpages 1
    if prpage = 0 then pure 0 else allocpageref

/-- The heap and the live `File`s: their addresses and the sizes of the blocks
they were given. -/
structure FileHeap where
  heap : Kheap
  files : List (ℕ × ℕ)

/-- What happens to the heap. -/
inductive FileHeapOp
  | kmalloc
  | store (p : ℕ) (f : FileField) (v : ℕ)
  | kfree (p : ℕ)
  | other

/-- `kmalloc(sizeof(struct File *))` in `open` and `open2`, the fields of a live
`File` set there or later, `kfree` of one in `close` or after a failed open, and
the rest of the kernel. -/
inductive FileHeapStep : FileHeap → FileHeapOp → FileHeap → Prop
  | kmalloc {s : FileHeap} {a pr : ℕ} {t u : Kheap} (h : kmalloc sizeofPointer s.heap = .ok a t) (ha : a ≠ 0)
      (hpr : servedBy sizeofPointer s.heap = .ok pr u) :
      FileHeapStep s .kmalloc ⟨t, (a, (t.refs pr).size) :: s.files⟩
  | store {s : FileHeap} {p n : ℕ} (hp : (p, n) ∈ s.files) (f : FileField) (v : ℕ) :
      FileHeapStep s (.store p f v) ⟨storeField p f v s.heap, s.files⟩
  | kfree {s : FileHeap} {p n : ℕ} {t : Kheap} (hp : (p, n) ∈ s.files) (h : kfree p s.heap = .ok () t) :
      FileHeapStep s (.kfree p) ⟨t, s.files.erase (p, n)⟩
  | other {s : FileHeap} (t : Kheap) : FileHeapStep s .other ⟨t, s.files⟩

/-- Every live `File` is inside its block, and setting a field of it changes
nothing outside the block. -/
structure FilesFit (s : FileHeap) : Prop where
  bytes : ∀ x ∈ s.files, ∀ a, x.1 ≤ a → a < x.1 + sizeofFile → a < x.1 + x.2
  stores : ∀ x ∈ s.files, ∀ f v a, a < x.1 ∨ x.1 + x.2 ≤ a → (storeField x.1 f v s.heap).mem a = s.heap.mem a

/-! ### The size of the block -/

variable {s t u : Kheap} {pr a b sz : ℕ}

theorem findPage_blocktype : ∀ n h, Prog.Returns (findPage b n h)
    (fun pr t => t = s ∧ (pr ≠ 0 → (s.refs pr).blocktype = b)) s
  | 0, h => by
    rw [findPage, Prog.returns_stop]
    trivial
  | n + 1, h => by
    rw [findPage]
    simp only [Prog.returns_ite, Prog.returns_pure, Prog.returns_bind, Prog.returns_gets, Prog.returns_assert]
    refine ⟨fun _ => ⟨trivial, fun hne => absurd rfl hne⟩, fun _ hb => ⟨fun _ => ⟨trivial, fun _ => hb⟩, fun _ => ?_⟩⟩
    exact findPage_blocktype n _

/-- `doalloc` does not change the kind of the page. -/
theorem doalloc_blocktype : Prog.Returns (doalloc pr) (fun _ t => (t.refs pr).blocktype = (s.refs pr).blocktype) s := by
  unfold doalloc
  simp only [Prog.returns_bind, Prog.returns_gets, Prog.returns_assert, Prog.returns_modify, Prog.returns_pure]
  intro _ _
  simp [Kheap.setRef, Pageref.blocktype]

theorem initFreelist_refs (page size n : ℕ) : Prog.Returns (initFreelist page size n) (fun _ t => t.refs = s.refs) s := by
  unfold initFreelist
  simp only [Prog.returns_bind, Prog.returns_modify]
  refine Prog.returns_forUp (I := fun _ (t : Kheap) => t.refs = s.refs) rfl fun i _ t ht => ?_
  simp only [Prog.returns_bind, Prog.returns_modify, Prog.returns_assert]
  exact fun _ => ht

theorem newPage_blocktype (pr page : ℕ) (hb : b < nsizes) :
    Prog.Returns (newPage pr page b) (fun _ t => (t.refs pr).blocktype = b) s := by
  unfold newPage
  simp only [Prog.returns_bind, Prog.returns_modify]
  refine Prog.returns_mono (initFreelist_refs _ _ _) fun _ t ht => ?_
  refine Prog.returns_mono doalloc_blocktype fun _ u hu => hu.trans ?_
  simp [Kheap.setRef, ht, Pageref.blocktype, mkpab_blocktype hb]

theorem assert_state {p : Prop} [Decidable p] {x : Unit} (h : (Prog.assert p : Prog Unit Kheap Unit) s = .ok x t) :
    t = s := by
  unfold Prog.assert at h
  split_ifs at h
  cases h
  rfl

/-- **The block of a small size** comes from a page of its size class. -/
theorem subpageKmalloc_blocktype (h : subpageKmalloc sz s = .ok a t) (ha : a ≠ 0) (hpr : servedBy sz s = .ok pr u)
    (hfind : (List.range nsizes).find? (fun i => sz ≤ sizes i) = some b) : (t.refs pr).blocktype = b := by
  have hb : b < nsizes := List.mem_range.mp (List.mem_of_find?_eq_some hfind)
  have htype : blocktype sz = pure b := by
    unfold blocktype
    rw [hfind]
  rw [subpageKmalloc_eq, htype] at h
  rw [servedBy, htype] at hpr
  change (findPage b (totalPagerefs + 1) (s.sizebases b) >>= _) s = _ at h
  change (findPage b (totalPagerefs + 1) (s.sizebases b) >>= _) s = _ at hpr
  -- both go through the same walk
  rw [Prog.bind_eq_ok] at h hpr
  obtain ⟨q, s1, hq, h⟩ := h
  obtain ⟨q', s1', hq', hpr⟩ := hpr
  rw [hq] at hq'
  cases hq'
  obtain ⟨rfl, hqb⟩ := findPage_blocktype _ _ _ _ hq
  by_cases hne : q ≠ 0
  · rw [if_pos hne] at h hpr
    cases hpr
    exact (doalloc_blocktype _ _ h).trans (hqb hne)
  · rw [if_neg hne, Prog.bind_eq_ok] at h hpr
    obtain ⟨page, s2, hp, h⟩ := h
    obtain ⟨page', s2', hp', hpr⟩ := hpr
    rw [hp] at hp'
    cases hp'
    by_cases hz : page = 0
    · rw [if_pos hz] at h
      cases h
      exact absurd rfl ha
    · rw [if_neg hz, Prog.bind_eq_ok] at h
      rw [if_neg hz] at hpr
      obtain ⟨_, s3, hassert, h⟩ := h
      obtain rfl : s3 = s2 := assert_state hassert
      rw [Prog.bind_eq_ok] at h
      obtain ⟨q', s4, hq', h⟩ := h
      rw [hpr] at hq'
      cases hq'
      by_cases hpz : pr = 0
      · rw [if_pos hpz, Prog.bind_eq_ok] at h
        obtain ⟨_, s5, -, h⟩ := h
        cases h
        exact absurd rfl ha
      · rw [if_neg hpz] at h
        exact newPage_blocktype pr page hb _ _ h

/-! ### Histories -/

/-- Every live `File` was given a block of 16 bytes. -/
def SmallBlocks (s : FileHeap) : Prop := ∀ x ∈ s.files, x.2 = 16

theorem fileHeap_step {s t : FileHeap} {op : FileHeapOp} (h : SmallBlocks s) (hs : FileHeapStep s op t) :
    SmallBlocks t := by
  cases hs with
  | kmalloc hrun ha hpr =>
    intro x hx
    rcases List.mem_cons.mp hx with rfl | hx
    · have hsmall : ¬ largestSubpageSize ≤ sizeofPointer := by decide
      rw [kmalloc, if_neg hsmall] at hrun
      have hb := subpageKmalloc_blocktype (b := 0) hrun ha hpr (by decide)
      show sizes _ = 16
      rw [hb]
      rfl
    · exact h x hx
  | store hp f v => exact h
  | kfree hp hrun => exact fun x hx => h x (List.mem_of_mem_erase hx)
  | other u => exact h

/-- **No `File` fits its block**: in every history, from any heap, the `File`s
are inside their blocks only while there are none. -/
theorem filesFit_iff {s : Kheap} {ops : List FileHeapOp} {t : FileHeap} (h : Run FileHeapStep ⟨s, []⟩ ops t) :
    FilesFit t ↔ t.files = [] := by
  have hsmall : SmallBlocks t := h.invariant (fun x hx => by cases hx) fun _ _ _ => fileHeap_step
  constructor
  · intro hfit
    refine List.eq_nil_iff_forall_not_mem.mpr fun x hx => ?_
    -- the first byte of the offset
    have h16 := hfit.bytes x hx (x.1 + 16) (by omega) (Nat.add_lt_add_left (by decide) _)
    rw [hsmall x hx] at h16
    omega
  · intro hnil
    constructor
    · intro x hx
      rw [hnil] at hx
      cases hx
    · intro x hx
      rw [hnil] at hx
      cases hx

/-- `kmalloc(sizeof(struct File *))` and the size of the block. -/
def kmallocFile : Prog Unit Kheap (ℕ × ℕ) := fun s =>
  match servedBy sizeofPointer s with
  | .ok pr _ =>
    (do let a ← kmalloc sizeofPointer
        let n ← Prog.gets fun t => (t.refs pr).size
        pure (a, n) : Prog Unit Kheap (ℕ × ℕ)) s
  | _ => .stop

theorem FileHeapStep.kmallocFile {s t : Kheap} {l : List (ℕ × ℕ)} {a n : ℕ} (h : kmallocFile s = .ok (a, n) t)
    (ha : a ≠ 0) : FileHeapStep ⟨s, l⟩ .kmalloc ⟨t, (a, n) :: l⟩ := by
  unfold Os161.kmallocFile at h
  split at h
  · rename_i pr u hpr
    simp only [Prog.bind_eq_ok, Prog.pure_run] at h
    obtain ⟨b, v, hb, m, w, hm, he⟩ := h
    cases hm
    cases he
    exact .kmalloc (s := ⟨s, l⟩) hb ha hpr
  · cases h

/-- One `File` from boot. -/
theorem filesFit_iff_one : ∃ t, Run FileHeapStep ⟨Kheap.init pagesUp, []⟩ [.kmalloc] t ∧ ¬ FilesFit t := by
  have hv : Prog.value kmallocFile (Kheap.init pagesUp) = some (0x80001ff0, 16) := by
    decide +kernel
  obtain ⟨t, ht⟩ := Prog.value_eq_some.mp hv
  have hrun := Run.single (FileHeapStep.kmallocFile (l := []) ht (by decide))
  exact ⟨_, hrun, fun hfit => absurd ((filesFit_iff hrun).mp hfit) (List.cons_ne_nil _ _)⟩

/-- **The offset of one `File` overwrites the vnode of another**: the second
`File` is right below the first. -/
theorem offset_overwrites : ∃ t u, Run FileHeapStep ⟨Kheap.init pagesUp, []⟩
      [.kmalloc, .store 0x80001ff0 .vPtr 0x80003000, .kmalloc] t ∧
    FileHeapStep t (.store 0x80001fe0 .offset 0) u ∧ t.files = [(0x80001fe0, 16), (0x80001ff0, 16)] ∧
    t.heap.mem 0x80001ff0 = 0x80003000 ∧ u.heap.mem 0x80001ff0 = 0 ∧ ¬ FilesFit t := by
  have hv : Prog.value (do
      let x ← kmallocFile
      Prog.modify (storeField 0x80001ff0 .vPtr 0x80003000)
      let y ← kmallocFile
      let v ← Prog.gets fun s => s.mem 0x80001ff0
      pure (x, y, v)) (Kheap.init pagesUp) = some ((0x80001ff0, 16), (0x80001fe0, 16), 0x80003000) := by
    decide +kernel
  obtain ⟨t, ht⟩ := Prog.value_eq_some.mp hv
  simp only [Prog.bind_eq_ok, Prog.modify_run, Prog.pure_run] at ht
  obtain ⟨x, s1, h1, _, s2, h2, y, s3, h3, v, s4, h4, he⟩ := ht
  cases he
  cases h2
  injection h4 with hv4 _
  have hmem : ((0x80001ff0, 16) : ℕ × ℕ) ∈ [(0x80001ff0, 16)] := List.mem_singleton_self _
  have hfit : ¬ FilesFit ⟨s3, [(0x80001fe0, 16), (0x80001ff0, 16)]⟩ := by
    intro hfit
    have h16 := hfit.bytes (0x80001fe0, 16) List.mem_cons_self 0x80001ff0 (by decide) (by decide)
    exact absurd h16 (by decide)
  refine ⟨⟨s3, _⟩, _, ?_, .store List.mem_cons_self .offset 0, rfl, hv4, rfl, hfit⟩
  have e1 := FileHeapStep.kmallocFile (l := []) h1 (by decide)
  have e2 := FileHeapStep.store (s := ⟨s1, _⟩) hmem .vPtr 0x80003000
  have e3 := FileHeapStep.kmallocFile (l := [(0x80001ff0, 16)]) h3 (by decide)
  exact Run.cons e1 (Run.cons e2 (Run.single e3))

end Os161
