/-
# `malloc`

The heap of a program: blocks one after the other from `__heapbase` to
`__heaptop`, each with a header of 8 bytes in front that holds the sizes of
this block and of the one before it, in units of 8 bytes. The memory is seen
as headers at multiples of 8. `sbrk` fails or extends the heap by what was
asked for, within the user's half of the address space.

Sizes are computed in 32 bits. A request of more than `2 ^ 32 - 8` bytes is
rounded up to 0, and one for which more than `2 ^ 32 - 4096` bytes would have
to be added to the heap is rounded up to 0 pages; in both cases `malloc` hands
out a pointer to too little memory. All others are served properly, and a
request that finds no room and no memory gets `NULL` (`malloc_serves_iff`).
-/
import Os161.Lib.Prog
import Os161.Lib.Word

namespace Os161

namespace Malloc

/-! ### Headers and state -/

/-- `struct mheader`. -/
structure Mheader where
  prevblock : ℕ
  pad : ℕ
  magic1 : ℕ
  nextblock : ℕ
  inuse : Bool
  magic2 : ℕ

/-- `MMAGIC`. -/
def mmagic : ℕ := 2

namespace Mheader

variable (h : Mheader)

/-- `M_NEXTOFF`. -/
def nextoff : ℕ := h.nextblock * 8

/-- `M_PREVOFF`. -/
def prevoff : ℕ := h.prevblock * 8

/-- `M_SIZE`. -/
def size : ℕ := wsub h.nextoff 8

/-- `M_OK`. -/
def Ok : Prop := h.magic1 = mmagic ∧ h.magic2 = mmagic

instance : Decidable h.Ok := inferInstanceAs (Decidable (_ ∧ _))

end Mheader

/-- `M_MKFIELD`. -/
def mkfield (off : ℕ) : ℕ := off / 8

/-- `USERSPACETOP`. -/
def userspacetop : ℕ := 2 ^ 31

/-- The memory of the program, its static variables, and the kernel: where the
heap ends and which of the next calls of `sbrk` find memory. -/
structure Heap where
  mem : ℕ → Mheader
  heapbase : ℕ
  heaptop : ℕ
  brk : ℕ
  grants : ℕ → Bool

/-- An exit through `err` or `errx`. -/
inductive Exit
  | err
  | errx

/-- A call. -/
abbrev HeapM := Prog Exit Heap

/-! ### The code -/

/-- A store to the header at `mh`. -/
def setHeader (mh : ℕ) (f : Mheader → Mheader) : HeapM Unit :=
  Prog.modify fun s => { s with mem := Function.update s.mem mh (f (s.mem mh)) }

/-- `sbrk`, with the end of the heap as it was. -/
def sbrk (n : ℕ) : HeapM (Option ℕ) := do
  let s ← Prog.get
  if s.grants 0 = true ∧ s.brk + n ≤ userspacetop then do
    Prog.modify fun s => { s with grants := fun i => s.grants (i + 1), brk := s.brk + n }
    pure (some s.brk)
  else do
    Prog.modify fun s => { s with grants := fun i => s.grants (i + 1) }
    pure none

/-- `__malloc_init`. -/
def mallocInit : HeapM Unit := do
  let s ← Prog.get
  if s.heapbase ≠ 0 ∨ s.heaptop ≠ 0 then Prog.fail .errx
  else do
    match ← sbrk 0 with
    | none => Prog.fail .err
    | some x =>
      if x = 0 then Prog.fail .errx
      else if x % 8 = 0 then Prog.modify fun s => { s with heapbase := x, heaptop := x }
      else do
        match ← sbrk (8 - x % 8) with
        | none => Prog.fail .err
        | some y =>
          if y ≠ x then Prog.fail .err
          else Prog.modify fun s => { s with heapbase := wadd x (8 - x % 8), heaptop := wadd x (8 - x % 8) }

/-- `__malloc_sbrk`. -/
def mallocSbrk (size : ℕ) : HeapM (Option ℕ) := do
  match ← sbrk size with
  | none => pure none
  | some x => do
    let s ← Prog.get
    if x ≠ s.heaptop then Prog.fail .errx
    else do
      Prog.modify fun s => { s with heaptop := wadd s.heaptop size }
      pure (some x)

/-- `__malloc_split`. -/
def mallocSplit (mh size : ℕ) : HeapM Unit := do
  if size % 8 ≠ 0 then Prog.fail .errx
  else do
    let s ← Prog.get
    if wsub (s.mem mh).size size < 16 then pure ()
    else do
      let mhnext := wadd mh (s.mem mh).nextoff
      let oldsize := (s.mem mh).size
      setHeader mh fun h => { h with nextblock := mkfield (wadd size 8) }
      let mhnew ← Prog.gets fun s => wadd mh (s.mem mh).nextoff
      if mhnew = mhnext then Prog.fail .errx
      else do
        setHeader mhnew fun _ => ⟨mkfield (wadd size 8), 0, mmagic, mkfield (wsub oldsize size), false, mmagic⟩
        let nextblock ← Prog.gets fun s => (s.mem mhnew).nextblock
        if mhnext ≠ s.heaptop then setHeader mhnext fun h => { h with prevblock := nextblock }
        else pure ()

/-- How the search ends: at a block, or at the top with the last block, if
there is one, and its size. -/
inductive Search
  | found (mh : ℕ)
  | top (mh : Option ℕ) (rightprevblock : ℕ)

/-- The first-fit search from the header at `i` on. -/
def search (size : ℕ) : ℕ → ℕ → ℕ → Option ℕ → HeapM Search
  | 0, _, _, _ => Prog.stop
  | fuel + 1, i, rightprevblock, mh => do
    let s ← Prog.get
    if i < s.heaptop then
      if ¬ (s.mem i).Ok then Prog.fail .errx
      else if (s.mem i).prevblock ≠ rightprevblock then Prog.fail .errx
      else if (s.mem i).inuse = true ∨ (s.mem i).size < size then
        search size fuel (wadd i (s.mem i).nextoff) (s.mem i).nextblock (some i)
      else pure (.found i)
    else if i ≠ s.heaptop then Prog.fail .errx
    else pure (.top mh rightprevblock)

/-- `size` rounded up to whole blocks, in 32 bits. -/
def roundSize (size : ℕ) : ℕ := 8 * (wadd size 7 / 8)

/-- The space rounded up to whole pages, in 32 bits. -/
def roundPages (morespace : ℕ) : ℕ := 4096 * (wadd morespace 4095 / 4096)

/-- The free block at the top that can be expanded. -/
def freeTop (mh : Option ℕ) : HeapM (Option ℕ) := Prog.gets fun s => mh.filter fun a => !(s.mem a).inuse

/-- The end of `malloc`, when no block was found. -/
def expand (size : ℕ) (mh : Option ℕ) (rightprevblock : ℕ) : HeapM (Option ℕ) := do
  match ← freeTop mh with
  | some mh => do
    let h ← Prog.gets fun s => s.mem mh
    Prog.assert (h.size < size)
    let morespace := roundPages (wsub size h.size)
    match ← mallocSbrk morespace with
    | none => pure none
    | some _ => do
      setHeader mh fun h => { h with nextblock := mkfield (wadd h.nextoff morespace), inuse := true }
      mallocSplit mh size
      pure (some (wadd mh 8))
  | none => do
    let morespace := roundPages (wadd 8 size)
    match ← mallocSbrk morespace with
    | none => pure none
    | some p => do
      setHeader p fun _ => ⟨rightprevblock, 0, mmagic, mkfield morespace, true, mmagic⟩
      mallocSplit p size
      pure (some (wadd p 8))

/-- `malloc`; the result is `NULL` or a pointer. -/
def malloc (size : ℕ) : HeapM (Option ℕ) := do
  let s ← Prog.get
  if s.heapbase = 0 then mallocInit else pure ()
  let s ← Prog.get
  if s.heapbase = 0 ∨ s.heaptop = 0 ∨ s.heaptop < s.heapbase then Prog.fail .errx
  else do
    match ← search (roundSize size) (s.heaptop + 1) s.heapbase 0 none with
    | .found mh => do
      mallocSplit mh (roundSize size)
      setHeader mh fun h => { h with inuse := true }
      pure (some (wadd mh 8))
    | .top mh rightprevblock => expand (roundSize size) mh rightprevblock

/-! ### Heaps as lists of blocks

A block is its size with the header, in units of 8 bytes, and whether it is in
use. -/

/-- The size of some blocks. -/
def total (bs : List (ℕ × Bool)) : ℕ := (bs.map Prod.fst).sum

/-- The size of the last block, or `p` if there is none. -/
def lastSize (p : ℕ) : List (ℕ × Bool) → ℕ
  | [] => p
  | b :: bs => lastSize b.1 bs

/-- A header of the code's making. -/
def header (prev k : ℕ) (inuse : Bool) : Mheader := ⟨prev, 0, mmagic, k, inuse, mmagic⟩

/-- The headers of the blocks follow each other from `a` on, after a block of size `prev`. -/
def Tiles (mem : ℕ → Mheader) : ℕ → ℕ → List (ℕ × Bool) → Prop
  | _, _, [] => True
  | a, prev, b :: bs => 0 < b.1 ∧ mem a = header prev b.1 b.2 ∧ Tiles mem (a + 8 * b.1) b.1 bs

@[simp] theorem total_nil : total [] = 0 := rfl

@[simp] theorem total_cons (b : ℕ × Bool) (bs : List (ℕ × Bool)) : total (b :: bs) = b.1 + total bs := by
  simp [total]

@[simp] theorem total_append (xs ys : List (ℕ × Bool)) : total (xs ++ ys) = total xs + total ys := by
  simp [total]

theorem lastSize_append (p : ℕ) (xs ys : List (ℕ × Bool)) : lastSize p (xs ++ ys) = lastSize (lastSize p xs) ys := by
  induction xs generalizing p with
  | nil => rfl
  | cons b xs ih => exact ih b.1

section Tiles

variable {mem mem' : ℕ → Mheader} {a p : ℕ} {bs pre mid mid' post : List (ℕ × Bool)}

theorem tiles_append : Tiles mem a p (pre ++ post) ↔
    Tiles mem a p pre ∧ Tiles mem (a + 8 * total pre) (lastSize p pre) post := by
  induction pre generalizing a p with
  | nil => simp [Tiles, lastSize]
  | cons b pre ih =>
    simp only [List.cons_append, Tiles, ih, total_cons, lastSize, and_assoc]
    rw [show a + 8 * b.1 + 8 * total pre = a + 8 * (b.1 + total pre) by omega]

/-- The blocks' own memory is all that matters. -/
theorem Tiles.congr (h : Tiles mem a p bs) (hm : ∀ x, a ≤ x → x < a + 8 * total bs → mem' x = mem x) :
    Tiles mem' a p bs := by
  induction bs generalizing a p with
  | nil => trivial
  | cons b bs ih =>
    obtain ⟨hb, hhead, hrest⟩ := h
    rw [total_cons] at hm
    exact ⟨hb, (hm a le_rfl (by omega)).trans hhead, ih hrest fun x hx hx' => hm x (by omega) (by omega)⟩

/-- The first block is told the size of a new block before it. -/
theorem Tiles.after {q : ℕ} (h : Tiles mem a p bs) (hhead : bs ≠ [] → mem' a = { mem a with prevblock := q })
    (hm : ∀ x, a < x → mem' x = mem x) : Tiles mem' a q bs := by
  cases bs with
  | nil => trivial
  | cons b bs =>
    obtain ⟨hb, hmem, hrest⟩ := h
    refine ⟨hb, ?_, hrest.congr fun x hx _ => hm x (by omega)⟩
    rw [hhead (by simp), hmem]
    rfl

/-- **Some blocks in the middle are replaced** by others of the same size. -/
theorem Tiles.replace (h : Tiles mem a p (pre ++ (mid ++ post))) (htotal : total mid' = total mid)
    (hbelow : ∀ x, x < a + 8 * total pre → mem' x = mem x)
    (hmid : Tiles mem' (a + 8 * total pre) (lastSize p pre) mid')
    (hhead : post ≠ [] → mem' (a + 8 * total pre + 8 * total mid) =
      { mem (a + 8 * total pre + 8 * total mid) with prevblock := lastSize (lastSize p pre) mid' })
    (habove : ∀ x, a + 8 * total pre + 8 * total mid < x → mem' x = mem x) :
    Tiles mem' a p (pre ++ (mid' ++ post)) := by
  rw [tiles_append, tiles_append] at h ⊢
  rw [htotal]
  exact ⟨h.1.congr fun x _ hx => hbelow x hx, hmid, h.2.2.after hhead habove⟩

theorem Tiles.length_le (h : Tiles mem a p bs) : bs.length ≤ total bs := by
  induction bs generalizing a p with
  | nil => simp
  | cons b bs ih =>
    obtain ⟨hb, -, hrest⟩ := h
    have := ih hrest
    simp only [List.length_cons, total_cons]
    omega

end Tiles

/-- **The heap consists of the blocks `bs`**, from one end to the other. -/
structure Heap.Holds (s : Heap) (bs : List (ℕ × Bool)) : Prop where
  base : 0 < s.heapbase ∧ s.heapbase % 8 = 0
  top : s.heaptop = s.heapbase + 8 * total bs
  brk : s.brk = s.heaptop
  user : s.heaptop ≤ userspacetop
  tiles : Tiles s.mem s.heapbase 0 bs

/-- The address of the block after `pre`. -/
def Heap.addr (s : Heap) (pre : List (ℕ × Bool)) : ℕ := s.heapbase + 8 * total pre

namespace Heap.Holds

variable {s : Heap} {pre post : List (ℕ × Bool)} {k : ℕ} {u : Bool}

theorem block (h : s.Holds (pre ++ (k, u) :: post)) :
    0 < k ∧ s.mem (s.addr pre) = header (lastSize 0 pre) k u ∧ s.addr pre + 8 * k + 8 * total post = s.heaptop ∧
      s.heaptop ≤ 2 ^ 31 := by
  obtain ⟨-, hk, hmem, -⟩ := tiles_append.mp h.tiles
  have htop := h.top
  rw [total_append, total_cons] at htop
  refine ⟨hk, hmem, ?_, h.user⟩
  unfold Heap.addr
  omega

/-- Blocks are replaced, with stores to their own memory and to the header
after them. -/
theorem replace (mid mid' : List (ℕ × Bool)) (h : s.Holds (pre ++ (mid ++ post))) (htotal : total mid' = total mid)
    {mem' : ℕ → Mheader}
    (hbelow : ∀ x, x < s.addr pre → mem' x = s.mem x)
    (hmid : Tiles mem' (s.addr pre) (lastSize 0 pre) mid')
    (hhead : post ≠ [] → mem' (s.addr pre + 8 * total mid) =
      { s.mem (s.addr pre + 8 * total mid) with prevblock := lastSize (lastSize 0 pre) mid' })
    (habove : ∀ x, s.addr pre + 8 * total mid < x → mem' x = s.mem x) :
    { s with mem := mem' }.Holds (pre ++ (mid' ++ post)) where
  base := h.base
  top := by
    have htop := h.top
    simp only [total_append, htotal] at htop ⊢
    exact htop
  brk := h.brk
  user := h.user
  tiles := h.tiles.replace htotal hbelow hmid hhead habove

/-- The header after some blocks knows the last one's size. -/
theorem head_post (mid : List (ℕ × Bool)) (h : s.Holds (pre ++ (mid ++ post))) (hpost : post ≠ []) :
    s.mem (s.addr pre + 8 * total mid) =
      { s.mem (s.addr pre + 8 * total mid) with prevblock := lastSize (lastSize 0 pre) mid } := by
  obtain ⟨-, -, hrest⟩ : _ ∧ _ ∧ _ := by
    have htiles := h.tiles
    rwa [tiles_append, tiles_append] at htiles
  cases post with
  | nil => exact absurd rfl hpost
  | cons b post =>
    rw [show s.addr pre + 8 * total mid = s.heapbase + 8 * total pre + 8 * total mid from rfl, hrest.2.1]
    rfl

/-- Nothing follows exactly the last block. -/
theorem post_eq_nil_iff (h : s.Holds (pre ++ (k, u) :: post)) : s.addr pre + 8 * k = s.heaptop ↔ post = [] := by
  obtain ⟨-, -, htop, -⟩ := h.block
  constructor
  · intro he
    have htiles := (tiles_append.mp h.tiles).2.2.2.length_le
    exact List.eq_nil_of_length_eq_zero (by omega)
  · rintro rfl
    simpa using htop

theorem setInuse (h : s.Holds (pre ++ (k, u) :: post)) (v : Bool) :
    { s with mem := Function.update s.mem (s.addr pre) { s.mem (s.addr pre) with inuse := v } }.Holds
      (pre ++ (k, v) :: post) := by
  obtain ⟨hk, hmem, -, -⟩ := h.block
  refine replace [(k, u)] [(k, v)] h rfl (fun x hx => Function.update_of_ne (by omega) _ _)
    ⟨hk, ?_, trivial⟩ (fun hpost => ?_) fun x hx => Function.update_of_ne (by omega) _ _
  · rw [Function.update_self, hmem]
    rfl
  · rw [Function.update_of_ne (by simp; omega)]
    exact head_post [(k, u)] h hpost

end Heap.Holds

/-- What a block of `k` units is split into when `n` units of data are asked for. -/
def carve (k n : ℕ) (u : Bool) : List (ℕ × Bool) :=
  (if n + 3 ≤ k then n + 1 else k, u) :: if n + 3 ≤ k then [(k - n - 1, false)] else []

section Split

variable {s : Heap} {bs pre post : List (ℕ × Bool)} {k n : ℕ} {u : Bool} {E : Exit → Heap → Prop}

theorem size_header {prev : ℕ} (hk : 0 < k) : (header prev k u).size = 8 * (k - 1) := by
  have hle : 8 ≤ k * 8 := by omega
  calc (header prev k u).size = wsub (k * 8) 8 := rfl
    _ = 8 * (k - 1) := by
        rw [wsub_of_le hle]
        omega

/-- The stores of a split. -/
theorem Heap.Holds.split (h : s.Holds (pre ++ (k, u) :: post)) (hn : n + 3 ≤ k) {mem' : ℕ → Mheader}
    (hold : mem' (s.addr pre) = header (lastSize 0 pre) (n + 1) u)
    (hnew : mem' (s.addr pre + 8 * (n + 1)) = header (n + 1) (k - n - 1) false)
    (hnext : post ≠ [] → mem' (s.addr pre + 8 * k) = { s.mem (s.addr pre + 8 * k) with prevblock := k - n - 1 })
    (hrest : ∀ x, x ≠ s.addr pre → x ≠ s.addr pre + 8 * (n + 1) → x ≠ s.addr pre + 8 * k → mem' x = s.mem x) :
    { s with mem := mem' }.Holds (pre ++ (carve k n u ++ post)) := by
  rw [carve, if_pos hn, if_pos hn]
  refine Heap.Holds.replace [(k, u)] _ h (by simp; omega) (fun x hx => hrest x (by omega) (by omega) (by omega))
    ⟨by omega, hold, by simp only; omega, hnew, trivial⟩ (fun hpost => hnext hpost) fun x hx => ?_
  have hx : s.addr pre + 8 * k < x := hx
  exact hrest x (by omega) (by omega) (by omega)

theorem mallocSplit_wp {Q : Unit → Heap → Prop} (h : s.Holds (pre ++ (k, u) :: post)) {mh : ℕ} (hmh : mh = s.addr pre)
    (hn : n + 1 ≤ k)
    (hQ : ∀ mem', { s with mem := mem' }.Holds (pre ++ (carve k n u ++ post)) → Q () { s with mem := mem' }) :
    Prog.wp (mallocSplit mh (8 * n)) Q E s := by
  subst hmh
  obtain ⟨hk, hmem, htop, huser⟩ := h.block
  have hroom : wsub (8 * (k - 1)) (8 * n) = 8 * (k - 1 - n) := by
    rw [wsub_of_le (by omega)]
    omega
  rw [mallocSplit, if_neg (by omega)]
  simp only [Prog.wp_bind, Prog.wp_get, hmem, size_header hk, hroom]
  by_cases hsmall : 8 * (k - 1 - n) < 16
  · rw [if_pos hsmall]
    refine hQ s.mem ?_
    rw [carve, if_neg (by omega), if_neg (by omega)]
    exact h
  · have hnext : wadd (s.addr pre) (k * 8) = s.addr pre + 8 * k := by
      rw [wadd_of_lt (by omega), Nat.mul_comm]
    have hfield : mkfield (wadd (8 * n) 8) = n + 1 := by
      rw [mkfield, wadd_of_lt (by omega)]
      omega
    have hnew : wadd (s.addr pre) ((n + 1) * 8) = s.addr pre + 8 * (n + 1) := by
      rw [wadd_of_lt (by omega), Nat.mul_comm]
    have hrest : mkfield (8 * (k - 1 - n)) = k - n - 1 := by
      rw [mkfield]
      omega
    have hne : s.addr pre + 8 * (n + 1) ≠ s.addr pre + 8 * k := by omega
    rw [if_neg hsmall]
    simp only [setHeader, Prog.wp_bind, Prog.wp_modify, Prog.wp_gets, hmem, hfield, hrest, Function.update_self,
      Mheader.nextoff, header, hnew, hnext, if_neg hne]
    by_cases hpost : post = []
    · rw [if_neg (not_not_intro (h.post_eq_nil_iff.mpr hpost))]
      refine hQ _ (h.split (by omega) ?_ ?_ (fun hc => absurd hpost hc) fun x hx hx' _ => ?_)
      · rw [Function.update_of_ne (by omega), Function.update_self, header]
      · rw [Function.update_self, header]
      · rw [Function.update_of_ne hx', Function.update_of_ne hx]
    · rw [if_pos (fun he => hpost (h.post_eq_nil_iff.mp he)), Prog.wp_modify]
      simp only [Function.update_of_ne hne.symm, Function.update_of_ne (show s.addr pre + 8 * k ≠ s.addr pre by omega)]
      refine hQ _ (h.split (by omega) ?_ ?_ (fun _ => ?_) fun x hx hx' hx'' => ?_)
      · rw [Function.update_of_ne (by omega), Function.update_of_ne (by omega), Function.update_self, header]
      · rw [Function.update_of_ne hne, Function.update_self, header]
      · rw [Function.update_self]
      · rw [Function.update_of_ne hx'', Function.update_of_ne hx', Function.update_of_ne hx]

end Split

/-! ### The search -/

/-- A free block with room for `size` bytes. -/
def Fits (size : ℕ) (b : ℕ × Bool) : Prop := b.2 = false ∧ size ≤ 8 * (b.1 - 1)

/-- The address of the last block, or `mh` if there is none. -/
def lastAddr (a : ℕ) (mh : Option ℕ) : List (ℕ × Bool) → Option ℕ
  | [] => mh
  | b :: bs => lastAddr (a + 8 * b.1) (some a) bs

theorem lastAddr_concat (a : ℕ) (mh : Option ℕ) (bs : List (ℕ × Bool)) (b : ℕ × Bool) :
    lastAddr a mh (bs ++ [b]) = some (a + 8 * total bs) := by
  induction bs generalizing a mh with
  | nil => rfl
  | cons c bs ih =>
    rw [List.cons_append, lastAddr, ih, total_cons]
    congr 1
    omega

theorem addr_concat (s : Heap) (pre : List (ℕ × Bool)) (b : ℕ × Bool) :
    s.addr (pre ++ [b]) = s.addr pre + 8 * b.1 := by
  simp [Heap.addr]
  omega

section Search

variable {s : Heap} {E : Exit → Heap → Prop} {size : ℕ}

/-- **The search** finds the first block with room, or the top. -/
theorem search_wp {Q : Search → Heap → Prop} {rest pre : List (ℕ × Bool)} {fuel : ℕ} {mh : Option ℕ}
    (h : s.Holds (pre ++ rest)) (hf : rest.length < fuel)
    (hfound : ∀ mid k post, rest = mid ++ (k, false) :: post → size ≤ 8 * (k - 1) →
      Q (.found (s.addr (pre ++ mid))) s)
    (htop : (∀ b ∈ rest, ¬ Fits size b) → Q (.top (lastAddr (s.addr pre) mh rest) (lastSize (lastSize 0 pre) rest)) s) :
    Prog.wp (search size fuel (s.addr pre) (lastSize 0 pre) mh) Q E s := by
  induction rest generalizing pre fuel mh with
  | nil =>
    obtain ⟨fuel, rfl⟩ := Nat.exists_eq_succ_of_ne_zero (Nat.ne_zero_of_lt hf)
    have hend : s.addr pre = s.heaptop := by simpa [Heap.addr] using h.top.symm
    rw [search, Prog.wp_bind, Prog.wp_get, if_neg (by omega), if_neg (not_not_intro hend)]
    exact htop (by simp)
  | cons b rest ih =>
    obtain ⟨fuel, rfl⟩ := Nat.exists_eq_succ_of_ne_zero (Nat.ne_zero_of_lt hf)
    obtain ⟨k, u⟩ := b
    obtain ⟨hk, hmem, hend, huser⟩ := h.block
    have hnext : wadd (s.addr pre) (header (lastSize 0 pre) k u).nextoff = s.addr (pre ++ [(k, u)]) := by
      rw [addr_concat, show (header (lastSize 0 pre) k u).nextoff = k * 8 from rfl, wadd_of_lt (by omega), Nat.mul_comm]
    rw [search, Prog.wp_bind, Prog.wp_get, if_pos (by omega), hmem, size_header hk, hnext]
    rw [if_neg (not_not_intro ⟨rfl, rfl⟩),
      if_neg (show ¬ (header (lastSize 0 pre) k u).prevblock ≠ lastSize 0 pre from not_not_intro rfl)]
    by_cases hfit : Fits size (k, u)
    · obtain ⟨rfl, hsize⟩ : u = false ∧ size ≤ 8 * (k - 1) := hfit
      rw [if_neg (by simp [header]; omega)]
      simpa using hfound [] k rest rfl hsize
    · have hskip : (header (lastSize 0 pre) k u).inuse = true ∨ 8 * (k - 1) < size := by
        by_contra hno
        push Not at hno
        exact hfit ⟨by simpa [header] using hno.1, hno.2⟩
      rw [if_pos hskip]
      have hsize : lastSize 0 (pre ++ [(k, u)]) = k := by simp [lastSize_append, lastSize]
      have hrec : Prog.wp (search size fuel (s.addr (pre ++ [(k, u)])) (lastSize 0 (pre ++ [(k, u)]))
          (some (s.addr pre))) Q E s := by
        refine ih (by simpa using h) (by simpa using hf) (fun mid j post he hj => ?_) fun hno => ?_
        · simpa using hfound ((k, u) :: mid) j post (by simp [he]) hj
        · rw [addr_concat, hsize]
          exact htop fun c hc => (List.mem_cons.mp hc).elim (fun he => he ▸ hfit) (hno c)
      rwa [hsize] at hrec

end Search

/-! ### The allocation -/

/-- A block with `n` units of data at `p` is taken out of a free block `old`
among the blocks `bs`, or out of new memory at the top that a free block
there, if there is one, was joined with. -/
def Placed (base : ℕ) (bs : List (ℕ × Bool)) (n p : ℕ) (bs' : List (ℕ × Bool)) : Prop :=
  ∃ pre old post k, bs = pre ++ (old ++ post) ∧ (∀ b ∈ old, b.2 = false) ∧
    (old = [(k, false)] ∨ (post = [] ∧ 2 ≤ k)) ∧ n + 1 ≤ k ∧ bs' = pre ++ (carve k n true ++ post) ∧
      p = base + 8 * total pre + 8

/-- The call gave `NULL` and left the blocks as they were, or it placed a block of `n` units. -/
def Allocated (s : Heap) (bs : List (ℕ × Bool)) (n : ℕ) (r : Option ℕ) (s' : Heap) : Prop :=
  s'.heapbase = s.heapbase ∧
    match r with
    | none => s'.Holds bs
    | some p => ∃ bs', s'.Holds bs' ∧ Placed s.heapbase bs n p bs'

/-- Whether `sbrk` finds memory. -/
def Heap.Grants (s : Heap) (n : ℕ) : Prop := s.grants 0 = true ∧ s.heaptop + n ≤ userspacetop

/-- What has to be added to the heap for `size` bytes. -/
def needed (size : ℕ) (bs : List (ℕ × Bool)) : ℕ :=
  match bs.getLast? with
  | some (k, false) => size - 8 * (k - 1)
  | _ => size + 8

/-- The space that `malloc` asks for, in 32 bits. -/
def asked (size : ℕ) (bs : List (ℕ × Bool)) : ℕ := roundPages (wcast (needed size bs))

section Allocation

variable {s : Heap} {bs pre : List (ℕ × Bool)} {k n : ℕ} {E : Exit → Heap → Prop}

theorem mallocSbrk_wp {Q : Option ℕ → Heap → Prop} (h : s.Holds bs) {g : ℕ}
    (hno : ¬ s.Grants g → Q none { s with grants := fun i => s.grants (i + 1), brk := s.heaptop })
    (hyes : s.Grants g → Q (some s.heaptop)
      { s with grants := fun i => s.grants (i + 1), brk := s.heaptop + g, heaptop := s.heaptop + g }) :
    Prog.wp (mallocSbrk g) Q E s := by
  have hbrk := h.brk
  by_cases hg : s.grants 0 = true ∧ s.heaptop + g ≤ userspacetop
  · have hlt : s.heaptop + g < 2 ^ 32 := hg.2.trans_lt (by norm_num [userspacetop])
    simp only [mallocSbrk, sbrk, Prog.wp_bind, Prog.wp_get, hbrk, if_pos hg, Prog.wp_modify, Prog.wp_pure, ne_eq,
      not_true_eq_false, if_false, wadd_of_lt hlt]
    exact hyes hg
  · simp only [mallocSbrk, sbrk, Prog.wp_bind, Prog.wp_get, hbrk, if_neg hg, Prog.wp_modify, Prog.wp_pure]
    exact hno hg

/-- Whole pages that are not too many to count. -/
theorem roundPages_eq {m : ℕ} (h0 : 0 < m) (hm : m ≤ 2 ^ 32 - 4096) :
    ∃ q, roundPages m = 8 * (512 * q) ∧ 0 < q ∧ m ≤ 8 * (512 * q) := by
  refine ⟨(m + 4095) / 4096, ?_, by omega, by omega⟩
  rw [roundPages, wadd_of_lt (by omega)]
  omega

/-- A block at the top of a heap that grew. -/
theorem Heap.Holds.grown (h : s.Holds bs) {old : List (ℕ × Bool)} {q : ℕ} {mem' : ℕ → Mheader}
    (hbs : bs = pre ++ old) (hk : k = total old + q) (hpos : 0 < k) (huser : s.heaptop + 8 * q ≤ userspacetop)
    (hmem : mem' (s.addr pre) = header (lastSize 0 pre) k true) (hbelow : ∀ x, x < s.addr pre → mem' x = s.mem x)
    (grants' : ℕ → Bool) :
    Heap.Holds ⟨mem', s.heapbase, s.heaptop + 8 * q, s.heaptop + 8 * q, grants'⟩ (pre ++ [(k, true)]) := by
  subst hbs
  have htop := h.top
  rw [total_append] at htop
  refine ⟨h.base, by simp; omega, rfl, huser, tiles_append.mpr ⟨?_, hpos, hmem, trivial⟩⟩
  exact (tiles_append.mp h.tiles).1.congr fun x _ hx => hbelow x hx

theorem Heap.Holds.denied (h : s.Holds bs) :
    ({ s with grants := fun i => s.grants (i + 1), brk := s.heaptop } : Heap).Holds bs :=
  ⟨h.base, h.top, rfl, h.user, h.tiles⟩

/-- **The heap grows, or not**: the blocks `old` at the top, a free one or
none, become one block with the new memory, which is then split. -/
theorem expand_of_sbrk {Q : Option ℕ → Heap → Prop} (h : s.Holds bs) (hno : ∀ b ∈ bs, ¬ Fits (8 * n) b)
    (hn : 8 * n < 2 ^ 32)
    (hdenied : ¬ s.Grants (asked (8 * n) bs) →
      Q none { s with grants := fun i => s.grants (i + 1), brk := s.heaptop })
    (hgranted : s.Grants (asked (8 * n) bs) → ∀ pre old, bs = pre ++ old → (∀ b ∈ old, b.2 = false) →
      0 < needed (8 * n) bs → needed (8 * n) bs + 8 * total old = 8 * n + 8 → Prog.wp (mallocSplit (s.addr pre) (8 * n))
        (fun _ s' => Q (some (s.addr pre + 8)) s') E
        ⟨Function.update s.mem (s.addr pre) (header (lastSize 0 pre) (total old + asked (8 * n) bs / 8) true),
          s.heapbase, s.heaptop + asked (8 * n) bs, s.heaptop + asked (8 * n) bs, fun i => s.grants (i + 1)⟩) :
    Prog.wp (expand (8 * n) (lastAddr s.heapbase none bs) (lastSize 0 bs)) Q E s := by
  have hlow : s.heaptop + 8 < 2 ^ 32 := by
    have := h.user
    unfold userspacetop at this
    omega
  -- nothing to join with
  have hnew : (lastAddr s.heapbase none bs).filter (fun a => !(s.mem a).inuse) = none →
      needed (8 * n) bs = 8 * n + 8 →
      Prog.wp (expand (8 * n) (lastAddr s.heapbase none bs) (lastSize 0 bs)) Q E s := by
    intro hfree hneed
    have hasked : roundPages (wadd 8 (8 * n)) = asked (8 * n) bs := by
      rw [asked, hneed, Nat.add_comm, wadd, wcast]
    have htop : s.heaptop = s.addr bs := h.top
    rw [expand, Prog.wp_bind, freeTop, Prog.wp_gets, hfree, hasked]
    simp only [Prog.wp_bind]
    refine mallocSbrk_wp h hdenied fun hg => ?_
    have hgo := hgranted hg bs [] (by simp) (by simp) (by omega) (by simp [hneed])
    simp only [setHeader, Prog.wp_bind, Prog.wp_modify, Prog.wp_pure, wadd_of_lt hlow, mkfield]
    rw [← htop] at hgo
    simpa [header] using hgo
  rcases List.eq_nil_or_concat' bs with hbs | ⟨pre, ⟨j, u⟩, hbs⟩
  · exact hnew (by simp [hbs, lastAddr]) (by simp [hbs, needed])
  · subst hbs
    obtain ⟨hj, hmem, htop, huser⟩ := h.block
    have hlast : lastAddr s.heapbase none (pre ++ [(j, u)]) = some (s.addr pre) := lastAddr_concat _ _ _ _
    cases u with
    | true => exact hnew (by simp [hlast, hmem, header]) (by simp [needed])
    | false =>
      have hfree : (some (s.addr pre)).filter (fun a => !(s.mem a).inuse) = some (s.addr pre) := by simp [hmem, header]
      have hfit : 8 * (j - 1) < 8 * n := by
        have := hno (j, false) (by simp)
        simpa [Fits] using this
      have hneed : needed (8 * n) (pre ++ [(j, false)]) = 8 * n - 8 * (j - 1) := by simp [needed]
      have hasked : roundPages (wsub (8 * n) (8 * (j - 1))) = asked (8 * n) (pre ++ [(j, false)]) := by
        rw [asked, hneed, wsub_of_le hfit.le, wcast_of_lt (by omega)]
      rw [hlast, expand, Prog.wp_bind, freeTop, Prog.wp_gets, hfree]
      simp only [Prog.wp_bind, Prog.wp_gets, Prog.wp_assert, hmem, size_header hj, hasked]
      refine ⟨hfit, mallocSbrk_wp h hdenied fun hg => ?_⟩
      have hfield : mkfield (wadd (header (lastSize 0 pre) j false).nextoff (asked (8 * n) (pre ++ [(j, false)]))) =
          j + asked (8 * n) (pre ++ [(j, false)]) / 8 := by
        have hle := hg.2
        unfold userspacetop at hle
        rw [show (header (lastSize 0 pre) j false).nextoff = j * 8 from rfl, mkfield, wadd_of_lt (by omega)]
        omega
      have hgo := hgranted hg pre [(j, false)] rfl (by simp) (by omega) (by simp; omega)
      simp only [setHeader, Prog.wp_bind, Prog.wp_modify, Prog.wp_pure, wadd_of_lt (show s.addr pre + 8 < 2 ^ 32 by omega),
        hmem, hfield]
      simpa [header] using hgo

/-- **The heap grows** by as many pages as are needed. -/
theorem expand_wp (h : s.Holds bs) (hno : ∀ b ∈ bs, ¬ Fits (8 * n) b) (hn : 8 * n < 2 ^ 32)
    (hneed : needed (8 * n) bs ≤ 2 ^ 32 - 4096) :
    Prog.wp (expand (8 * n) (lastAddr s.heapbase none bs) (lastSize 0 bs)) (Allocated s bs n) E s := by
  refine expand_of_sbrk h hno hn (fun _ => ⟨rfl, h.denied⟩) fun hg pre old hbs hfree hpos hold => ?_
  obtain ⟨q, hq, hq0, hle⟩ := roundPages_eq hpos hneed
  rw [asked, wcast_of_lt (by omega), hq] at hg ⊢
  have hgrown := h.grown (k := total old + 512 * q) hbs rfl (by omega) hg.2
    (Function.update_self _ _ s.mem) (fun x hx => Function.update_of_ne (Nat.ne_of_lt hx) _ _) fun i => s.grants (i + 1)
  rw [Nat.mul_div_cancel_left _ (by omega)]
  refine mallocSplit_wp hgrown rfl (by omega) fun mem' hmem' => ⟨rfl, _, hmem', ?_⟩
  exact ⟨pre, old, [], total old + 512 * q, by simpa using hbs, hfree, Or.inr ⟨rfl, by omega⟩, by omega, rfl, rfl⟩

/-- What is done with the block that the search found. -/
theorem found_wp {post : List (ℕ × Bool)} (h : s.Holds (pre ++ (k, false) :: post)) (hn : n + 1 ≤ k) :
    Prog.wp (do
      mallocSplit (s.addr pre) (8 * n)
      setHeader (s.addr pre) fun h => { h with inuse := true }
      pure (some (wadd (s.addr pre) 8))) (Allocated s (pre ++ (k, false) :: post) n) E s := by
  obtain ⟨hk, -, htop, huser⟩ := h.block
  rw [Prog.wp_bind]
  refine mallocSplit_wp h rfl hn fun mem' hmem' => ?_
  rw [Prog.wp_bind, setHeader, Prog.wp_modify, wadd_of_lt (by omega)]
  exact ⟨rfl, _, hmem'.setInuse true, pre, [(k, false)], post, k, rfl, by simp, Or.inl rfl, hn, rfl, rfl⟩

/-- `malloc` once the heap is set up: the search, and what follows. -/
theorem malloc_of_search {Q : Option ℕ → Heap → Prop} {size : ℕ} (h : s.Holds bs)
    (hfound : ∀ pre k post, bs = pre ++ (k, false) :: post → roundSize size ≤ 8 * (k - 1) → Prog.wp (do
      mallocSplit (s.addr pre) (roundSize size)
      setHeader (s.addr pre) fun h => { h with inuse := true }
      pure (some (wadd (s.addr pre) 8))) Q E s)
    (htop : (∀ b ∈ bs, ¬ Fits (roundSize size) b) →
      Prog.wp (expand (roundSize size) (lastAddr s.heapbase none bs) (lastSize 0 bs)) Q E s) :
    Prog.wp (malloc size) Q E s := by
  have hbase := h.base.1
  have hle : s.heapbase ≤ s.heaptop := by
    have := h.top
    omega
  have hfuel : bs.length < s.heaptop + 1 := by
    have := h.tiles.length_le
    have := h.top
    omega
  simp only [malloc, Prog.wp_bind, Prog.wp_get, if_neg hbase.ne']
  rw [if_neg (by omega), Prog.wp_bind]
  have hstart : s.addr [] = s.heapbase := rfl
  rw [← hstart]
  exact search_wp (by simpa using h) hfuel hfound htop

/-- **A request that fits or can be made to fit.** -/
theorem malloc_wp {size : ℕ} (h : s.Holds bs) (hn : roundSize size = 8 * n)
    (hlt : 8 * n < 2 ^ 32) (hroom : (∃ b ∈ bs, Fits (8 * n) b) ∨ needed (8 * n) bs ≤ 2 ^ 32 - 4096) :
    Prog.wp (malloc size) (Allocated s bs n) E s := by
  refine malloc_of_search h (fun pre k post hbs hk => ?_) fun hno => ?_
  · subst hbs
    have hpos := h.block.1
    rw [hn] at hk ⊢
    exact found_wp h (by omega)
  · rw [hn] at hno ⊢
    refine expand_wp h hno hlt (hroom.resolve_left ?_)
    rintro ⟨b, hb, hfit⟩
    exact hno b hb hfit

end Allocation

/-! ### Live blocks -/

/-- The blocks in use: where the data begins, and the size with the header, in units of 8. -/
def live (a : ℕ) : List (ℕ × Bool) → List (ℕ × ℕ)
  | [] => []
  | b :: bs => if b.2 then (a + 8, b.1) :: live (a + 8 * b.1) bs else live (a + 8 * b.1) bs

/-- The data of the two blocks does not overlap. -/
def Apart (x y : ℕ × ℕ) : Prop := x.1 + 8 * (x.2 - 1) ≤ y.1 ∨ y.1 + 8 * (y.2 - 1) ≤ x.1

/-- No two blocks next to each other are free. -/
def Separated (bs : List (ℕ × Bool)) : Prop := bs.IsChain fun x y => x.2 = true ∨ y.2 = true

section Live

variable {a k n : ℕ} {bs pre post : List (ℕ × Bool)}

theorem live_append (a : ℕ) (xs ys : List (ℕ × Bool)) : live a (xs ++ ys) = live a xs ++ live (a + 8 * total xs) ys := by
  induction xs generalizing a with
  | nil => simp [live]
  | cons b xs ih =>
    rw [List.cons_append, live, live, ih, total_cons, show a + 8 * b.1 + 8 * total xs = a + 8 * (b.1 + total xs) by omega]
    split <;> simp

theorem live_of_free (a : ℕ) (h : ∀ b ∈ bs, b.2 = false) : live a bs = [] := by
  induction bs generalizing a with
  | nil => rfl
  | cons b bs ih => simp [live, h b List.mem_cons_self, ih _ fun c hc => h c (List.mem_cons_of_mem b hc)]

theorem total_carve {u : Bool} : total (carve k n u) = k := by
  unfold carve
  split <;> simp
  omega

theorem live_carve (a : ℕ) : live a (carve k n true) = [(a + 8, if n + 3 ≤ k then n + 1 else k)] := by
  unfold carve
  split <;> simp [live]

/-- A live block lies in the heap. -/
theorem mem_live {x : ℕ × ℕ} (h : x ∈ live a bs) : a + 8 ≤ x.1 ∧ x.1 + 8 * x.2 ≤ a + 8 * total bs + 8 := by
  induction bs generalizing a with
  | nil => cases h
  | cons b bs ih =>
    rw [live] at h
    rw [total_cons]
    split at h
    · rcases List.mem_cons.mp h with rfl | h
      · simp only
        omega
      · have := ih h
        omega
    · have := ih h
      omega

theorem pos_of_mem_live {x : ℕ × ℕ} (h : x ∈ live a bs) (hpos : ∀ b ∈ bs, 0 < b.1) : 0 < x.2 := by
  induction bs generalizing a with
  | nil => cases h
  | cons b bs ih =>
    have hrest : ∀ c ∈ bs, 0 < c.1 := fun c hc => hpos c (List.mem_cons_of_mem b hc)
    rw [live] at h
    split at h
    · rcases List.mem_cons.mp h with rfl | h
      · exact hpos b List.mem_cons_self
      · exact ih h hrest
    · exact ih h hrest

theorem live_pairwise (hpos : ∀ b ∈ bs, 0 < b.1) : (live a bs).Pairwise fun x y => x.1 + 8 * (x.2 - 1) ≤ y.1 := by
  induction bs generalizing a with
  | nil => exact List.Pairwise.nil
  | cons b bs ih =>
    have hb := hpos b List.mem_cons_self
    have hrest := ih (a := a + 8 * b.1) fun c hc => hpos c (List.mem_cons_of_mem b hc)
    rw [live]
    split
    · refine List.pairwise_cons.mpr ⟨fun y hy => ?_, hrest⟩
      have := mem_live hy
      simp only
      omega
    · exact hrest

theorem Tiles.pos {mem : ℕ → Mheader} {p : ℕ} (h : Tiles mem a p bs) : ∀ b ∈ bs, 0 < b.1 := by
  induction bs generalizing a p with
  | nil => simp
  | cons b bs ih =>
    intro c hc
    rcases List.mem_cons.mp hc with rfl | hc
    · exact h.1
    · exact ih h.2.2 c hc

theorem Placed.separated {base p : ℕ} {bs' : List (ℕ × Bool)} (h : Placed base bs n p bs') (hs : Separated bs) :
    Separated bs' := by
  obtain ⟨pre, old, post, k, rfl, hfree, hold, -, rfl, -⟩ := h
  unfold Separated at hs ⊢
  rw [List.isChain_append] at hs ⊢
  refine ⟨hs.1, ?_, fun x _ y hy => Or.inr ?_⟩
  · rcases hold with rfl | ⟨rfl, -⟩
    · have hpost := List.isChain_cons.mp hs.2.1
      unfold carve
      split
      · exact List.isChain_cons_cons.mpr ⟨Or.inl rfl, List.isChain_cons.mpr ⟨fun y hy => hpost.1 y hy, hpost.2⟩⟩
      · exact List.isChain_cons.mpr ⟨fun _ _ => Or.inl rfl, hpost.2⟩
    · unfold carve
      split <;> simp
  · unfold carve at hy
    simp only [List.cons_append, List.head?_cons, Option.mem_some_iff] at hy
    rw [← hy]

end Live

/-- What is promised of `malloc (size)`: `NULL` and the heap as it was, or a
pointer to at least `size` bytes that are apart from all live blocks, which
stay as they are, in a heap that is in order. -/
def Served (s : Heap) (bs : List (ℕ × Bool)) (size : ℕ) (r : Option ℕ) (s' : Heap) : Prop :=
  match r with
  | none => s'.Holds bs
  | some p => ∃ bs' k l₁ l₂, s'.Holds bs' ∧ (Separated bs → Separated bs') ∧ live s.heapbase bs = l₁ ++ l₂ ∧
      live s'.heapbase bs' = l₁ ++ (p, k) :: l₂ ∧ size ≤ 8 * (k - 1) ∧ ∀ b ∈ l₁ ++ l₂, Apart (p, k) b

/-- The promise for all that `sbrk` can do. -/
def MallocServes (s : Heap) (bs : List (ℕ × Bool)) (size : ℕ) : Prop :=
  Prog.wp (malloc size) (Served s bs size) (fun _ _ => False) s

section Serving

variable {s s' : Heap} {bs : List (ℕ × Bool)} {n size : ℕ} {r : Option ℕ}

theorem Allocated.served (h : Allocated s bs n r s') (hn : size ≤ 8 * n) : Served s bs size r s' := by
  obtain ⟨hbase, h⟩ := h
  cases r with
  | none => exact h
  | some p =>
    obtain ⟨bs', hs', hplaced⟩ := h
    refine ⟨bs', ?_⟩
    obtain ⟨pre, old, post, k, hbs, hfree, hold, hk, hbs', hp⟩ := id hplaced
    have hlive : live s.heapbase bs = live s.heapbase pre ++ live (s.heapbase + 8 * (total pre + total old)) post := by
      rw [hbs, ← List.append_assoc, live_append, live_append, live_of_free _ hfree, List.append_nil, total_append]
    have hlive' : live s'.heapbase bs' = live s.heapbase pre ++ (p, if n + 3 ≤ k then n + 1 else k) ::
        live (s.heapbase + 8 * (total pre + total old)) post := by
      rw [hbase, hbs', live_append, live_append, live_carve, total_carve, hp]
      rcases hold with rfl | ⟨rfl, -⟩
      · simp [Nat.mul_add, Nat.add_assoc]
      · simp [live]
    refine ⟨_, _, _, hs', hplaced.separated, hlive, hlive', ?_, fun b hb => ?_⟩
    · split <;> omega
    · have hpair := live_pairwise (a := s'.heapbase) hs'.tiles.pos
      rw [hlive'] at hpair
      rcases List.mem_append.mp hb with hb | hb
      · exact Or.inr (List.pairwise_append.mp hpair |>.2.2 b hb _ List.mem_cons_self)
      · exact Or.inl ((List.pairwise_cons.mp (List.pairwise_append.mp hpair).2.1).1 b hb)

/-- A pointer that was promised `size` bytes has them below the top of the heap. -/
theorem Served.le {p : ℕ} (h : Served s bs size (some p) s') : p + size ≤ s'.heaptop ∧ s'.heaptop ≤ 2 ^ 31 := by
  obtain ⟨bs', k, l₁, l₂, hs', -, -, hlive, hsize, -⟩ := h
  have hmem : (p, k) ∈ live s'.heapbase bs' := by
    rw [hlive]
    simp
  have hpos : 0 < k := pos_of_mem_live hmem hs'.tiles.pos
  have hend : p + 8 * k ≤ s'.heapbase + 8 * total bs' + 8 := (mem_live hmem).2
  have htop := hs'.top
  exact ⟨by omega, hs'.user⟩

/-- Splits only touch headers. -/
theorem mallocSplit_frame (mh size : ℕ) (s : Heap) : Prog.wp (mallocSplit mh size)
    (fun _ s' => s'.heapbase = s.heapbase ∧ s'.heaptop = s.heaptop) (fun _ _ => True) s := by
  simp only [mallocSplit, setHeader, Prog.wp_ite, Prog.wp_bind, Prog.wp_get, Prog.wp_gets, Prog.wp_modify, Prog.wp_pure,
    Prog.wp_fail]
  simp

theorem roundSize_eq (h : size ≤ 2 ^ 32 - 8) : roundSize size = 8 * ((size + 7) / 8) := by
  rw [roundSize, wadd_of_lt (by omega)]

theorem roundSize_lt (size : ℕ) : roundSize size < 2 ^ 32 := by
  unfold roundSize wadd
  omega

theorem needed_le (size : ℕ) (bs : List (ℕ × Bool)) : needed size bs ≤ size + 8 := by
  unfold needed
  split <;> omega

/-- Too much space to ask for becomes none at all. -/
theorem asked_eq_zero (h : 2 ^ 32 - 4096 < needed size bs) (hle : needed size bs ≤ 2 ^ 32) : asked size bs = 0 := by
  unfold asked roundPages wcast wadd
  omega

/-- A block that was found, or memory that was granted, gives a pointer. With
what `malloc` asked for, the pointer is as far below the top as is still
missing. -/
theorem malloc_some (h : s.Holds bs) (hn : roundSize size = 8 * n)
    (hsome : (∃ b ∈ bs, Fits (8 * n) b) ∨ s.Grants (asked (8 * n) bs)) :
    Prog.wp (malloc size) (fun r s' => ∃ p, r = some p ∧ ((∃ b ∈ bs, Fits (8 * n) b) ∨
      s'.heaptop = s.heaptop + asked (8 * n) bs ∧ p + (8 * n + 8) = s.heaptop + 8 + needed (8 * n) bs)) (fun _ _ => True)
      s := by
  refine malloc_of_search h (fun pre k post hbs hk => ?_) fun hno => ?_
  · have hfit : ∃ b ∈ bs, Fits (8 * n) b := ⟨(k, false), by simp [hbs], rfl, hn ▸ hk⟩
    rw [Prog.wp_bind]
    refine Prog.wp_mono (mallocSplit_frame _ _ s) (fun _ s' _ => ?_) fun _ _ he => he
    exact ⟨_, rfl, Or.inl hfit⟩
  · have hlt := roundSize_lt size
    rw [hn] at hno hlt ⊢
    have hg := hsome.resolve_left fun hc => hc.elim fun b hb => hno b hb.1 hb.2
    refine expand_of_sbrk h hno hlt (fun hc => absurd hg hc) fun _ pre old hbs _ _ hold => ?_
    refine Prog.wp_mono (mallocSplit_frame _ _ _) (fun _ s' hs' => ⟨_, rfl, Or.inr ⟨hs'.2, ?_⟩⟩) fun _ _ he => he
    have htop := h.top
    rw [hbs, total_append] at htop
    unfold Heap.addr
    omega

/-- **`malloc` keeps its promise exactly if** the request is not one of the
last 7 below `2 ^ 32` and some free block has room for it or what is missing is
at most `2 ^ 32 - 4096` bytes, or else if there is neither a block nor memory. -/
theorem malloc_serves_iff (h : s.Holds bs) (hsize : size < 2 ^ 32) :
    MallocServes s bs size ↔
      size ≤ 2 ^ 32 - 8 ∧ ((∃ b ∈ bs, Fits (roundSize size) b) ∨ needed (roundSize size) bs ≤ 2 ^ 32 - 4096) ∨
      ((∀ b ∈ bs, ¬ Fits (roundSize size) b) ∧ ¬ s.Grants (asked (roundSize size) bs)) := by
  have hn : roundSize size = 8 * (wadd size 7 / 8) := rfl
  have hlt := roundSize_lt size
  rw [hn] at hlt ⊢
  constructor
  · intro hserves
    by_contra hc
    push Not at hc
    obtain ⟨hbig, hmem⟩ := hc
    have hsome : (∃ b ∈ bs, Fits (8 * (wadd size 7 / 8)) b) ∨ s.Grants (asked (8 * (wadd size 7 / 8)) bs) := by
      by_cases hfit : ∃ b ∈ bs, Fits (8 * (wadd size 7 / 8)) b
      · exact Or.inl hfit
      · push Not at hfit
        exact Or.inr (hmem hfit)
    refine Prog.wp_absurd (Prog.wp_and (malloc_some h hn hsome) hserves) (fun r s' hr => ?_) fun _ _ he => he.2
    obtain ⟨⟨p, rfl, hp⟩, hserved⟩ := hr
    obtain ⟨hle, huser⟩ := hserved.le
    by_cases hsmall : size ≤ 2 ^ 32 - 8
    · -- the space asked for wrapped to nothing
      obtain ⟨hfit, hneed⟩ := hbig hsmall
      obtain ⟨htop, hp⟩ := hp.resolve_left fun hc => hc.elim fun b hb => hfit b hb.1 hb.2
      have hround := roundSize_eq hsmall
      have hasked := asked_eq_zero hneed ((needed_le _ _).trans (by omega))
      omega
    · omega
  · rintro (⟨hsmall, hroom⟩ | ⟨hno, hg⟩)
    · refine Prog.wp_mono (malloc_wp h hn hlt hroom) (fun r s' hr => hr.served ?_) fun _ _ he => he
      have hround := roundSize_eq hsmall
      omega
    · refine malloc_of_search h (fun pre k post hbs hk => ?_) fun _ => ?_
      · exact absurd ⟨rfl, hk⟩ (hno (k, false) (by simp [hbs]))
      · exact expand_of_sbrk h hno hlt (fun _ => h.denied) fun hc => absurd hc hg

/-- A heap that was just set up. -/
def emptyHeap : Heap := ⟨fun _ => header 0 0 false, 4096, 4096, 4096, fun _ => true⟩

theorem emptyHeap_holds : emptyHeap.Holds [] :=
  ⟨by simp [emptyHeap], rfl, rfl, by simp [emptyHeap, userspacetop], trivial⟩

theorem malloc_serves_hundred : emptyHeap.Holds [] ∧ MallocServes emptyHeap [] 100 := by
  refine ⟨emptyHeap_holds, (malloc_serves_iff emptyHeap_holds (by norm_num)).mpr (Or.inl ⟨by norm_num, Or.inr ?_⟩)⟩
  exact (needed_le _ _).trans (by rw [roundSize_eq (by norm_num)]; norm_num)

/-- `malloc (SIZE_MAX)` on an empty heap adds one page and returns a pointer to it. -/
theorem malloc_size_max : Prog.wp (malloc (2 ^ 32 - 1)) (fun r s' => r = some 4104 ∧ s'.heaptop = 8192)
    (fun _ _ => False) emptyHeap ∧ ¬ MallocServes emptyHeap [] (2 ^ 32 - 1) := by
  have hn : roundSize (2 ^ 32 - 1) = 8 * 0 := by
    unfold roundSize wadd
    norm_num
  have hneed : needed (8 * 0) [] = 8 := rfl
  have hasked : asked (8 * 0) [] = 4096 := by
    rw [asked, hneed, wcast_of_lt (by norm_num), roundPages, wadd_of_lt (by norm_num)]
  have hgrants : emptyHeap.Grants (asked (8 * 0) []) := by
    rw [hasked]
    simp [Heap.Grants, emptyHeap, userspacetop]
  have hsome := malloc_some emptyHeap_holds hn (Or.inr hgrants)
  have hplaced := malloc_wp (E := fun _ _ => False) emptyHeap_holds hn (by norm_num) (Or.inr (by norm_num [hneed]))
  refine ⟨Prog.wp_mono (Prog.wp_and hsome hplaced) (fun r s' hr => ?_) fun _ _ he => he.2, fun hserves => ?_⟩
  · obtain ⟨⟨p, rfl, hp⟩, -⟩ := hr
    obtain ⟨htop, hp⟩ := hp.resolve_left (by simp)
    rw [hasked] at htop
    rw [hneed] at hp
    refine ⟨congrArg some ?_, htop⟩
    simp only [emptyHeap] at hp
    omega
  · refine Prog.wp_absurd (Prog.wp_and hsome hserves) (fun r s' hr => ?_) fun _ _ he => he.2
    obtain ⟨⟨p, rfl, -⟩, hserved⟩ := hr
    have := hserved.le
    omega

end Serving

end Malloc

end Os161
