/-
# `memmove`

`common/libc/string/memmove.c` and `memcpy.c`, over a memory of bytes. Four
loops copy, by words or by bytes, upwards or downwards; `copyUnit` is one turn,
which reads all of its unit before it writes. Upwards is right if the
destination does not start above the source (`copyUp_apply`), downwards if it
does not start below it (`copyDown_apply`), in units of any size, and
`memmove` takes the one that is.
-/
import Mathlib.Tactic

namespace Os161

/-- The bytes of the memory. -/
abbrev Memory := ℕ → UInt8

/-- `*(T *)d = *(const T *)s` for a type of `w` bytes. -/
def copyUnit (w d s : ℕ) (m : Memory) : Memory := fun a => if d ≤ a ∧ a < d + w then m (s + (a - d)) else m a

/-- `for (i=0; i<n; i++) d[i] = s[i]`. -/
def copyUp (w d s : ℕ) : ℕ → Memory → Memory
  | 0, m => m
  | n + 1, m => copyUnit w (d + n * w) (s + n * w) (copyUp w d s n m)

/-- `for (i=n; i>0; i--) d[i-1] = s[i-1]`. -/
def copyDown (w d s : ℕ) : ℕ → Memory → Memory
  | 0, m => m
  | n + 1, m => copyDown w d s n (copyUnit w (d + n * w) (s + n * w) m)

/-- `sizeof(long)`. -/
def sizeofLong : ℕ := 4

/-- `memcpy`, with the pointer it returns. -/
def memcpy (dst src len : ℕ) (m : Memory) : ℕ × Memory :=
  if dst % sizeofLong = 0 ∧ src % sizeofLong = 0 ∧ len % sizeofLong = 0 then
    (dst, copyUp sizeofLong dst src (len / sizeofLong) m)
  else (dst, copyUp 1 dst src len m)

/-- `memmove`, with the pointer it returns. -/
def memmove (dst src len : ℕ) (m : Memory) : ℕ × Memory :=
  if dst < src then memcpy dst src len m
  else if dst % sizeofLong = 0 ∧ src % sizeofLong = 0 ∧ len % sizeofLong = 0 then
    (dst, copyDown sizeofLong dst src (len / sizeofLong) m)
  else (dst, copyDown 1 dst src len m)

/-- The memory with `len` bytes from `src` on, as they are in `m`, at `dst`. -/
def afterMove (dst src len : ℕ) (m : Memory) : Memory :=
  fun a => if dst ≤ a ∧ a < dst + len then m (src + (a - dst)) else m a

variable {dst src : ℕ}

/-- **Upwards**: what a turn reads has not been written, since all that was
written lies below it. -/
theorem copyUp_apply (w : ℕ) (h : dst ≤ src) (n : ℕ) (m : Memory) : copyUp w dst src n m = afterMove dst src (n * w) m := by
  induction n with
  | zero =>
    funext a
    rw [copyUp, afterMove, if_neg (by omega)]
  | succ n ih =>
    have hw : (n + 1) * w = n * w + w := Nat.succ_mul n w
    funext a
    rw [copyUp, ih, copyUnit, hw]
    unfold afterMove
    by_cases hunit : dst + n * w ≤ a ∧ a < dst + n * w + w
    · rw [if_pos hunit, if_neg (by omega), if_pos (by omega)]
      exact congrArg m (by omega)
    · rw [if_neg hunit]
      exact if_congr (by omega) rfl rfl

/-- **Downwards**: what is left to be read lies below all that was written. -/
theorem copyDown_apply (w : ℕ) (h : src ≤ dst) (n : ℕ) (m : Memory) :
    copyDown w dst src n m = afterMove dst src (n * w) m := by
  induction n generalizing m with
  | zero =>
    funext a
    rw [copyDown, afterMove, if_neg (by omega)]
  | succ n ih =>
    have hw : (n + 1) * w = n * w + w := Nat.succ_mul n w
    funext a
    rw [copyDown, ih, hw]
    unfold afterMove copyUnit
    by_cases hlow : dst ≤ a ∧ a < dst + n * w
    · rw [if_pos hlow, if_neg (by omega), if_pos (by omega)]
    · rw [if_neg hlow]
      by_cases hunit : dst + n * w ≤ a ∧ a < dst + n * w + w
      · rw [if_pos hunit, if_pos (by omega)]
        exact congrArg m (by omega)
      · rw [if_neg hunit, if_neg (by omega)]

/-- `memcpy` moves towards lower addresses. -/
theorem memcpy_eq_afterMove (h : dst ≤ src) (len : ℕ) (m : Memory) : memcpy dst src len m = (dst, afterMove dst src len m) := by
  unfold memcpy
  split_ifs with hword
  · rw [copyUp_apply _ h, Nat.div_mul_cancel (Nat.dvd_of_mod_eq_zero hword.2.2)]
  · rw [copyUp_apply _ h, Nat.mul_one]

/-- **`memmove` is correct for every overlap**: whatever the addresses, their
alignment and the length, the destination holds the bytes that the source
held, and no other byte changes. -/
theorem memmove_eq_afterMove (dst src len : ℕ) (m : Memory) : memmove dst src len m = (dst, afterMove dst src len m) := by
  unfold memmove
  split_ifs with hlt hword
  · exact memcpy_eq_afterMove hlt.le len m
  · rw [copyDown_apply _ (by omega), Nat.div_mul_cancel (Nat.dvd_of_mod_eq_zero hword.2.2)]
  · rw [copyDown_apply _ (by omega), Nat.mul_one]

end Os161
