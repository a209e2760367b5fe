/-
# Bytes stored one by one

`Buf.scatter addr src n m`: the memory `m` after `src 0`, …, `src (n - 1)` have
been stored, in this order, at `addr 0`, …, `addr (n - 1)`. The addresses may
repeat. A contiguous copy is a scatter (`Buf.blit_eq_scatter`), and a scatter can
be cut in two anywhere (`Buf.scatter_add`).
-/
import Os161.Lib.Bytes

namespace Buf

/-- `src i` stored at `addr i`, for `i = 0, …, n - 1`. -/
def scatter (addr : ℕ → ℕ) (src : Buf) : ℕ → Buf → Buf
  | 0, m => m
  | n + 1, m => Function.update (scatter addr src n m) (addr n) (src n)

variable {addr addr' : ℕ → ℕ} {src src' : Buf} {n : ℕ} (m : Buf)

theorem scatter_congr (ha : ∀ i < n, addr i = addr' i) (hs : ∀ i < n, src i = src' i) :
    scatter addr src n m = scatter addr' src' n m := by
  induction n with
  | zero => rfl
  | succ n ih =>
    rw [scatter, scatter, ih (fun i hi => ha i (by omega)) fun i hi => hs i (by omega), ha n (by omega), hs n (by omega)]

theorem scatter_add (addr : ℕ → ℕ) (src : Buf) (a c : ℕ) :
    scatter addr src (a + c) m =
      scatter (fun i => addr (a + i)) (fun i => src (a + i)) c (scatter addr src a m) := by
  induction c with
  | zero => rfl
  | succ c ih =>
    rw [← Nat.add_assoc, scatter, scatter, ih]

theorem blit_eq_scatter (base : ℕ) (b : Buf) (pos n : ℕ) :
    m.blit base b pos n = scatter (fun i => base + i) (fun i => b (pos + i)) n m := by
  induction n with
  | zero => rw [blit_zero, scatter]
  | succ n ih =>
    rw [scatter, ← ih]
    funext x
    by_cases hx : x = base + n
    · rw [hx, Function.update_self, blit_inside _ _ _ _ _ (by omega), Nat.add_sub_cancel_left]
    · rw [Function.update_of_ne hx]
      by_cases hin : base ≤ x ∧ x < base + n
      · rw [blit_inside _ _ _ _ _ hin, blit_inside _ _ _ _ _ (by omega)]
      · rw [blit_outside _ _ _ _ _ hin, blit_outside _ _ _ _ _ (by omega)]

/-- One byte. -/
theorem blit_one (base : ℕ) (b : Buf) (pos : ℕ) : m.blit base b pos 1 = Function.update m base (b pos) :=
  blit_eq_scatter m base b pos 1

end Buf
