/-
# Dynamic arrays of the kernel

`kern/lib/array.c` and `array_add` of `array.h`: an array of pointers grows by
doubling its capacity until it reaches the size asked for, in 32-bit
arithmetic, and the bytes of the new block are again counted in 32 bits. What
comes out is right as long as some doubling of the capacity reaches the size
below `2 ^ 30`, the first capacity whose bytes wrap (`DoublesTo`). Past that the
block handed back is too small, or the loop never ends.
-/
import Os161.Kern.Uio
import Os161.Lib.Word

namespace Os161

/-- A block of `size` bytes, with the pointers stored in it. -/
structure Storage where
  size : ℕ
  elem : ℕ → ℕ

/-- `struct array`; the null pointer is a block of no bytes. -/
structure Karray where
  v : Storage
  num : ℕ
  max : ℕ

/-- `array_init`. -/
def arrayInit : Karray := ⟨⟨0, fun _ => 0⟩, 0, 0⟩

/-- The loop of `array_preallocate`; `none` if it has not ended after `fuel` turns. -/
def growMax : ℕ → ℕ → ℕ → Option ℕ
  | 0, _, _ => none
  | fuel + 1, num, newmax =>
    if num > newmax then growMax fuel num (if newmax ≠ 0 then wcast (newmax * 2) else 4) else some newmax

/-- `array_preallocate`. A loop that has not ended is a call that does not return. -/
def arrayPreallocate (fuel : ℕ) (kmalloc : ℕ → Option Storage) (num : ℕ) : Prog Errno Karray Unit := do
  let a ← Prog.get
  if num > a.max then
    match growMax fuel num a.max with
    | none => Prog.stop
    | some newmax =>
      match kmalloc (wcast (newmax * 4)) with
      | none => Prog.fail .enomem
      | some newptr =>
        -- memcpy of the pointers in use
        let elem := fun i => if 4 * i < wcast (a.num * 4) then a.v.elem i else newptr.elem i
        Prog.modify fun a => { a with v := { newptr with elem }, max := newmax }

/-- `array_setsize`. -/
def arraySetsize (fuel : ℕ) (kmalloc : ℕ → Option Storage) (num : ℕ) : Prog Errno Karray Unit := do
  arrayPreallocate fuel kmalloc num
  Prog.modify fun a => { a with num }

/-- `array_add`, which hands back the index. -/
def arrayAdd (fuel : ℕ) (kmalloc : ℕ → Option Storage) (val : ℕ) : Prog Errno Karray ℕ := do
  let index ← Prog.gets Karray.num
  arraySetsize fuel kmalloc (wadd index 1)
  Prog.modify fun a => { a with v := { a.v with elem := Function.update a.v.elem index val } }
  return index

/-- The calls that can make an array grow. -/
inductive ArrayOp
  | preallocate (num : ℕ)
  | setsize (num : ℕ)
  | add (val : ℕ)

namespace ArrayOp

/-- The call. -/
def run (fuel : ℕ) (kmalloc : ℕ → Option Storage) : ArrayOp → Prog Errno Karray Unit
  | preallocate num => arrayPreallocate fuel kmalloc num
  | setsize num => arraySetsize fuel kmalloc num
  | add val => do
    let _ ← arrayAdd fuel kmalloc val

/-- The size it asks for. -/
def request (a : Karray) : ArrayOp → ℕ
  | preallocate num => num
  | setsize num => num
  | add _ => a.num + 1

end ArrayOp

/-- The storage holds what the capacity promises. -/
structure Karray.Ok (a : Karray) : Prop where
  num : a.num ≤ a.max
  size : a.max * 4 ≤ a.v.size
  word : a.v.size < 2 ^ 32

/-- An allocator that hands out at least what it is asked for, or nothing. -/
def KmallocOk (kmalloc : ℕ → Option Storage) : Prop :=
  ∀ n s, kmalloc n = some s → n ≤ s.size

/-- `b` is `a` with room for `num` elements. -/
structure GrownTo (a : Karray) (num : ℕ) (b : Karray) : Prop where
  room : num ≤ b.max
  size : b.max * 4 ≤ b.v.size
  elem : ∀ i < a.num, b.v.elem i = a.v.elem i

/-- The call returns, whatever the allocator does; on success the array has
room for the size asked for, and on `ENOMEM` it is unchanged. -/
def GrowsSafely (op : ArrayOp) (a : Karray) : Prop :=
  ∀ kmalloc, KmallocOk kmalloc → ∃ fuel,
    Prog.wp (op.run fuel kmalloc) (fun _ b => GrownTo a (op.request a) b) (fun e b => e = .enomem ∧ b = a) a

/-- The capacity, doubled from 4 if there is none, reaches `num` below `2 ^ 30`. -/
def DoublesTo (max num : ℕ) : Prop :=
  num ≤ max ∨ ∃ k, num ≤ (if max = 0 then 4 else max) * 2 ^ k ∧ (if max = 0 then 4 else max) * 2 ^ k < 2 ^ 30

/-! ### The loop -/

section Loop

variable {num base r : ℕ}

/-- Doubling that does not wrap before it reaches `num`. -/
theorem growMax_reaches (hb : 0 < base) (k : ℕ) (hk : num ≤ base * 2 ^ k) (hlt : base * 2 ^ k < 2 ^ 30) :
    ∃ r, growMax (k + 1) num base = some r ∧ num ≤ r ∧ r < 2 ^ 30 := by
  induction k generalizing base with
  | zero =>
    rw [pow_zero, Nat.mul_one] at hk hlt
    exact ⟨base, if_neg (by omega), hk, hlt⟩
  | succ k ih =>
    rw [growMax]
    split_ifs with hmore hpos
    · rw [pow_succ'] at hk hlt
      have hpow : 1 ≤ 2 ^ k := Nat.one_le_two_pow
      have hle : base * 2 ≤ base * (2 * 2 ^ k) := Nat.mul_le_mul_left _ (by omega)
      rw [wcast_of_lt (by omega)]
      exact ih (by omega) (by rw [Nat.mul_assoc]; exact hk) (by rw [Nat.mul_assoc]; exact hlt)
    · omega
    · refine ⟨base, rfl, by omega, ?_⟩
      have hle : base * 1 ≤ base * 2 ^ (k + 1) := Nat.mul_le_mul_left _ Nat.one_le_two_pow
      omega

/-- Where the loop ends, no doubling has wrapped, or `num` is past half the range. -/
theorem growMax_some {fuel m k : ℕ} (hm : m = base * 2 ^ k ∨ 2 ^ 31 < num) (hb : 0 < base) (h : growMax fuel num m = some r) :
    num ≤ r ∧ ((∃ j, r = base * 2 ^ j) ∨ 2 ^ 31 < num) := by
  induction fuel generalizing m k with
  | zero => cases h
  | succ fuel ih =>
    rw [growMax] at h
    by_cases hmore : num > m
    · rw [if_pos hmore] at h
      by_cases hbig : 2 ^ 31 < num
      · exact ih (k := 0) (Or.inr hbig) h
      · have hmk := hm.resolve_right hbig
        have hpos : m ≠ 0 := by
          rw [hmk]
          positivity
        rw [if_pos hpos, wcast_of_lt (by omega)] at h
        exact ih (k := k + 1) (Or.inl (by rw [hmk, pow_succ, Nat.mul_assoc])) h
    · rw [if_neg hmore] at h
      cases h
      exact ⟨by omega, hm.imp_left fun hm => ⟨k, hm⟩⟩

/-- The loop from no capacity starts at 4. -/
theorem growMax_zero {fuel : ℕ} (h : 0 < num) : growMax (fuel + 1) num 0 = growMax fuel num 4 := by
  rw [growMax, if_pos h]
  rfl

theorem growMax_of_doublesTo {max : ℕ} (hlt : max < num) (h : DoublesTo max num) :
    ∃ fuel r, growMax fuel num max = some r ∧ num ≤ r ∧ r < 2 ^ 30 := by
  obtain ⟨k, hk, hk'⟩ := h.resolve_left (by omega)
  rcases Nat.eq_zero_or_pos max with rfl | hpos
  · rw [if_pos rfl] at hk hk'
    obtain ⟨r, hr⟩ := growMax_reaches (by omega) k hk hk'
    exact ⟨k + 2, r, (growMax_zero hlt).trans hr.1, hr.2⟩
  · rw [if_neg (by omega)] at hk hk'
    obtain ⟨r, hr⟩ := growMax_reaches hpos k hk hk'
    exact ⟨k + 1, r, hr⟩

theorem reaches_of_growMax {fuel max : ℕ} (hlt : max < num) (h : growMax fuel num max = some r) (hr : r < 2 ^ 30) :
    DoublesTo max num := by
  have hdone : num ≤ r ∧ ((∃ j, r = (if max = 0 then 4 else max) * 2 ^ j) ∨ 2 ^ 31 < num) := by
    rcases Nat.eq_zero_or_pos max with rfl | hpos
    · cases fuel with
      | zero => cases h
      | succ fuel =>
        rw [growMax_zero hlt] at h
        rw [if_pos rfl]
        exact growMax_some (k := 0) (Or.inl rfl) (by omega) h
    · rw [if_neg (by omega)]
      exact growMax_some (k := 0) (Or.inl (by omega)) hpos h
  obtain ⟨hle, ⟨j, hj⟩ | hbig⟩ := hdone
  · exact Or.inr ⟨j, hj ▸ hle, hj ▸ hr⟩
  · omega

end Loop

/-! ### The calls -/

section Calls

variable {a : Karray} {kmalloc : ℕ → Option Storage} {num : ℕ}

/-- What `array_preallocate` leaves when it returns. -/
theorem arrayPreallocate_wp (h : a.Ok) (hk : KmallocOk kmalloc) (hr : DoublesTo a.max num) :
    ∃ fuel, Prog.wp (arrayPreallocate fuel kmalloc num) (fun _ b => GrownTo a num b ∧ b.num = a.num)
      (fun e b => e = .enomem ∧ b = a) a := by
  have hsize := h.size
  have hword := h.word
  by_cases hlt : a.max < num
  · obtain ⟨fuel, r, hgrow, hle, hr⟩ := growMax_of_doublesTo hlt hr
    refine ⟨fuel, ?_⟩
    simp only [arrayPreallocate, Prog.wp_bind, Prog.wp_get, if_pos hlt, hgrow]
    rw [wcast_of_lt (by omega)]
    cases hnew : kmalloc (r * 4) with
    | none => exact ⟨rfl, rfl⟩
    | some newptr =>
      have hbytes := hk _ _ hnew
      refine ⟨⟨hle, hbytes, fun i hi => if_pos ?_⟩, rfl⟩
      have hnum := h.num
      rw [wcast_of_lt (by omega)]
      omega
  · refine ⟨0, ?_⟩
    simp only [arrayPreallocate, Prog.wp_bind, Prog.wp_get, if_neg hlt]
    exact ⟨⟨by omega, hsize, fun _ _ => rfl⟩, rfl⟩

/-- An allocator that hands out exactly what it is asked for. -/
def exactly (n : ℕ) : Option Storage := some ⟨n, fun _ => 0⟩

/-- With that allocator, a call that grows and returns has found a capacity,
and the block has its bytes, counted in 32 bits. -/
theorem arrayPreallocate_exactly {fuel : ℕ} {Q : Unit → Karray → Prop} {E : Errno → Karray → Prop} (hlt : a.max < num)
    (h : Prog.wp (arrayPreallocate fuel exactly num) Q E a) :
    ∃ r b, growMax fuel num a.max = some r ∧ Q () b ∧ b.max = r ∧ b.v.size = wcast (r * 4) := by
  simp only [arrayPreallocate, Prog.wp_bind, Prog.wp_get, if_pos hlt, exactly] at h
  cases hgrow : growMax fuel num a.max with
  | none =>
    rw [hgrow] at h
    exact h.elim
  | some r =>
    rw [hgrow] at h
    exact ⟨r, _, rfl, h, rfl, rfl⟩

/-- A capacity whose bytes fit its block. -/
theorem lt_of_bytes {r : ℕ} (h : r * 4 ≤ wcast (r * 4)) : r < 2 ^ 30 := by
  unfold wcast at h
  have := Nat.mod_lt (r * 4) (show 0 < 2 ^ 32 by omega)
  omega

end Calls

/-- **Arrays grow safely exactly while the capacity reaches the size asked for
below `2 ^ 30`.** Otherwise the loop never ends, or the bytes of the new
capacity wrap and the block is too small for it. -/
theorem array_grows_safely_iff {a : Karray} (h : a.Ok) (op : ArrayOp) :
    GrowsSafely op a ↔ DoublesTo a.max (op.request a) := by
  have hsize := h.size
  have hword := h.word
  have hnum := h.num
  have hadd : wadd a.num 1 = a.num + 1 := wadd_of_lt (by omega)
  constructor
  · intro hsafe
    by_cases hlt : a.max < op.request a
    · obtain ⟨fuel, hwp⟩ := hsafe exactly fun n s hs => by cases hs; exact le_rfl
      have hgrow : ∃ r, growMax fuel (op.request a) a.max = some r ∧ r * 4 ≤ wcast (r * 4) := by
        cases op with
        | preallocate num =>
          obtain ⟨r, b, hr, hb, rfl, hv⟩ := arrayPreallocate_exactly hlt hwp
          exact ⟨b.max, hr, hv ▸ hb.size⟩
        | setsize num =>
          simp only [ArrayOp.run, arraySetsize, Prog.wp_bind, Prog.wp_modify] at hwp
          obtain ⟨r, b, hr, hb, rfl, hv⟩ := arrayPreallocate_exactly hlt hwp
          exact ⟨b.max, hr, hv ▸ hb.size⟩
        | add val =>
          simp only [ArrayOp.run, arrayAdd, arraySetsize, Prog.wp_bind, Prog.wp_modify, Prog.wp_gets, Prog.wp_pure,
            hadd] at hwp
          obtain ⟨r, b, hr, hb, rfl, hv⟩ := arrayPreallocate_exactly hlt hwp
          exact ⟨b.max, hr, hv ▸ hb.size⟩
      obtain ⟨r, hr, hbytes⟩ := hgrow
      exact reaches_of_growMax hlt hr (lt_of_bytes hbytes)
    · exact Or.inl (by omega)
  · intro hr kmalloc hk
    obtain ⟨fuel, hwp⟩ := arrayPreallocate_wp h hk hr
    refine ⟨fuel, ?_⟩
    cases op with
    | preallocate num => exact Prog.wp_mono hwp (fun _ b hb => hb.1) fun _ _ he => he
    | setsize num =>
      simp only [ArrayOp.run, arraySetsize, Prog.wp_bind, Prog.wp_modify]
      exact Prog.wp_mono hwp (fun _ b hb => ⟨hb.1.room, hb.1.size, hb.1.elem⟩) fun _ _ he => he
    | add val =>
      simp only [ArrayOp.run, arrayAdd, arraySetsize, Prog.wp_bind, Prog.wp_modify, Prog.wp_gets, Prog.wp_pure, hadd]
      refine Prog.wp_mono hwp (fun _ b hb => ⟨hb.1.room, hb.1.size, fun i hi => ?_⟩) fun _ _ he => he
      -- the new element is stored past the old ones
      exact (Function.update_of_ne (by omega) _ _).trans (hb.1.elem i hi)

/-- **More than `2 ^ 29` elements.** The capacity becomes `2 ^ 30`, whose bytes
are 0 in 32 bits, and the array believes in it. -/
theorem array_preallocate_wraps : arrayInit.Ok ∧
    Prog.wp (arrayPreallocate 40 exactly (2 ^ 29 + 1)) (fun _ b => b.max = 2 ^ 30 ∧ b.v.size = 0) (fun _ _ => False)
      arrayInit := by
  refine ⟨⟨le_rfl, le_rfl, by norm_num [arrayInit]⟩, ?_⟩
  have hgrow : growMax 40 (2 ^ 29 + 1) 0 = some (2 ^ 30) := by
    simp [growMax, wcast]
  have hbytes : wcast (2 ^ 30 * 4) = 0 := by
    simp [wcast]
  simp only [arrayPreallocate, Prog.wp_bind, Prog.wp_get, arrayInit, exactly]
  rw [if_pos (by norm_num), hgrow]
  exact ⟨rfl, hbytes⟩

/-- An array of four grows to a hundred. -/
theorem array_grows_safely_hundred : GrowsSafely (.setsize 100) ⟨⟨16, fun i => i⟩, 4, 4⟩ :=
  (array_grows_safely_iff ⟨le_rfl, le_rfl, by norm_num⟩ (.setsize 100)).mpr (Or.inr ⟨5, by decide, by decide⟩)

end Os161
