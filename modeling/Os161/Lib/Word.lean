/-
# Unsigned 32-bit arithmetic on natural numbers

A 32-bit unsigned variable is a natural number below `2 ^ 32`; `wadd`, `wsub`
and `wcast` wrap as the machine does. They are irreducible: the lemmas say
what they compute while nothing wraps.
-/
import Mathlib.Tactic

/-- A number stored in a 32-bit variable. -/
@[irreducible] def wcast (a : ℕ) : ℕ := a % 2 ^ 32

/-- `a + b` in 32 bits. -/
@[irreducible] def wadd (a b : ℕ) : ℕ := (a + b) % 2 ^ 32

/-- `a - b` in 32 bits. -/
@[irreducible] def wsub (a b : ℕ) : ℕ := if b ≤ a then a - b else 2 ^ 32 + a - b

theorem wcast_of_lt {a : ℕ} (h : a < 2 ^ 32) : wcast a = a := by
  unfold wcast
  exact Nat.mod_eq_of_lt h

theorem wadd_of_lt {a b : ℕ} (h : a + b < 2 ^ 32) : wadd a b = a + b := by
  unfold wadd
  exact Nat.mod_eq_of_lt h

theorem wadd_zero {a : ℕ} (h : a < 2 ^ 32) : wadd a 0 = a := wadd_of_lt h

theorem wsub_of_le {a b : ℕ} (h : b ≤ a) : wsub a b = a - b := by
  unfold wsub
  exact if_pos h
