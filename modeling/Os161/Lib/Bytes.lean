/-
# Bytes in memory and in fixed-size records

Memory is a function from addresses to bytes; `blit` is the copy of a region.
A record of `N` bytes (`Bytes N`) is read at an offset by `Bytes.get` and
built from a function by `Bytes.ofFun`. Its numeric fields are big-endian:
`Bytes.field b off n` is the number in the `n` bytes at `off`,
`Bytes.setField` stores one, cut to `n` bytes. A field read back is the one
stored (`field_setField_same`), and storing one leaves a disjoint one as it
was (`field_setField_of_disjoint`).
-/
import Mathlib.Tactic

/-- The bytes from an address on. -/
abbrev Buf := ℕ → UInt8

namespace Buf

/-- `n` bytes of `src` from `s` on, copied to `d`. -/
def blit (dst : Buf) (d : ℕ) (src : Buf) (s n : ℕ) : Buf := fun a =>
  if d ≤ a ∧ a < d + n then src (s + (a - d)) else dst a

theorem blit_inside (dst : Buf) (d : ℕ) (src : Buf) (s n : ℕ) {a : ℕ} (h : d ≤ a ∧ a < d + n) :
    blit dst d src s n a = src (s + (a - d)) := if_pos h

theorem blit_outside (dst : Buf) (d : ℕ) (src : Buf) (s n : ℕ) {a : ℕ} (h : ¬ (d ≤ a ∧ a < d + n)) :
    blit dst d src s n a = dst a := if_neg h

@[simp] theorem blit_zero (dst : Buf) (d : ℕ) (src : Buf) (s : ℕ) : blit dst d src s 0 = dst := by
  funext a
  exact blit_outside _ _ _ _ _ (by omega)

/-- Two copies of adjoining regions are one copy. -/
theorem blit_blit (dst : Buf) (d : ℕ) (src : Buf) (s n k : ℕ) :
    blit (blit dst d src s n) (d + n) src (s + n) k = blit dst d src s (n + k) := by
  funext a
  unfold blit
  split_ifs with h1 h2 h2 h3 h3 <;> first | omega | rfl | (congr 1; omega)

/-- The number in the `n` bytes at `off`, the most significant first. -/
def getBE (b : Buf) (off : ℕ) : ℕ → ℕ
  | 0 => 0
  | n + 1 => getBE b off n * 256 + (b (off + n)).toNat

/-- Store `v` in the `n` bytes at `off`, the most significant first. -/
def putBE (b : Buf) (off n v : ℕ) : Buf := fun a =>
  if off ≤ a ∧ a < off + n then UInt8.ofNat (v / 256 ^ (off + n - 1 - a)) else b a

/-- A field depends on its own bytes only. -/
theorem getBE_congr {b c : Buf} {off : ℕ} : ∀ {n : ℕ}, (∀ i < n, b (off + i) = c (off + i)) →
    getBE b off n = getBE c off n
  | 0, _ => rfl
  | n + 1, h => by
    rw [getBE, getBE, getBE_congr fun i hi => h i (by omega), h n (by omega)]

theorem getBE_zero {b : Buf} {off n : ℕ} (h : ∀ i < n, b (off + i) = 0) : getBE b off n = 0 := by
  rw [getBE_congr (c := fun _ => 0) h]
  clear h
  induction n with
  | zero => rfl
  | succ n ih => simp [getBE, ih]

/-- The leading `n` bytes of a stored field of `n + k` bytes. -/
theorem getBE_putBE_prefix (b : Buf) (off v k : ℕ) : ∀ n,
    getBE (putBE b off (n + k) v) off n = v / 256 ^ k % 256 ^ n
  | 0 => by simp [getBE, Nat.mod_one]
  | n + 1 => by
    have ih := getBE_putBE_prefix b off v (k + 1) n
    rw [show n + 1 + k = n + (k + 1) by omega, getBE, ih]
    have hb : putBE b off (n + (k + 1)) v (off + n) = UInt8.ofNat (v / 256 ^ k) := by
      unfold putBE
      rw [if_pos (by omega)]
      congr 3
      omega
    rw [hb, pow_succ 256 k, ← Nat.div_div_eq_div_mul, UInt8.toNat_ofNat', pow_succ 256 n]
    generalize v / 256 ^ k = w
    rw [show (2 : ℕ) ^ 8 = 256 by norm_num, mul_comm (256 ^ n) 256, Nat.mod_mul, mul_comm]
    omega

theorem getBE_putBE_same (b : Buf) (off n v : ℕ) : getBE (putBE b off n v) off n = v % 256 ^ n := by
  simpa using getBE_putBE_prefix b off v 0 n

theorem getBE_putBE_of_disjoint (b : Buf) {off n off' n' : ℕ} (v : ℕ)
    (h : off' + n' ≤ off ∨ off + n ≤ off') : getBE (putBE b off n v) off' n' = getBE b off' n' := by
  refine getBE_congr fun i hi => ?_
  unfold putBE
  exact if_neg (by omega)

end Buf

/-- A record of `N` bytes. -/
abbrev Bytes (N : ℕ) := Fin N → UInt8

namespace Bytes

variable {N : ℕ} [NeZero N]

/-- The byte at offset `i`, modulo the size. -/
def get (b : Bytes N) : Buf := fun i => b (Fin.ofNat N i)

/-- The record whose bytes are those of `f`. -/
def ofFun (f : Buf) : Bytes N := fun i => f i

theorem get_ofFun (f : Buf) {i : ℕ} (h : i < N) : (ofFun f : Bytes N).get i = f i := by
  simp [get, ofFun, Fin.ofNat, Nat.mod_eq_of_lt h]

/-- Two records with the same bytes are equal. -/
theorem ext_get {b c : Bytes N} (h : ∀ i < N, b.get i = c.get i) : b = c := by
  funext i
  have := h i i.isLt
  simpa [get, Fin.ofNat, Nat.mod_eq_of_lt i.isLt] using this

@[simp] theorem ofFun_get (b : Bytes N) : ofFun b.get = b :=
  ext_get fun _ hi => get_ofFun _ hi

/-- The number in the `n` bytes at `off`. -/
def field (b : Bytes N) (off n : ℕ) : ℕ := b.get.getBE off n

/-- Store a number in the `n` bytes at `off`. -/
def setField (b : Bytes N) (off n v : ℕ) : Bytes N := ofFun (b.get.putBE off n v)

theorem field_ofFun (f : Buf) {off n : ℕ} (h : off + n ≤ N) :
    (ofFun f : Bytes N).field off n = f.getBE off n :=
  Buf.getBE_congr fun _ _ => get_ofFun _ (by omega)

theorem field_setField_same (b : Bytes N) {off n : ℕ} (v : ℕ) (h : off + n ≤ N) :
    (b.setField off n v).field off n = v % 256 ^ n := by
  rw [setField, field_ofFun _ h, Buf.getBE_putBE_same]

theorem field_setField_of_disjoint (b : Bytes N) {off n off' n' : ℕ} (v : ℕ) (h' : off' + n' ≤ N)
    (h : off' + n' ≤ off ∨ off + n ≤ off') : (b.setField off n v).field off' n' = b.field off' n' := by
  rw [setField, field_ofFun _ h', Buf.getBE_putBE_of_disjoint _ _ h, field]

end Bytes
