/-
# Counting over threads

`total w f` adds up the weight `w` of the local states `f t` of finitely many
threads. When one thread changes its state the total changes by that thread's
weights alone (`total_update`); invariants of counters and semaphores are
equations between a shared number and such totals.
-/
import Mathlib.Tactic

namespace Census

variable {T α : Type*} [Fintype T]

/-- Two sums that differ at one place. -/
theorem sum_change {M : Type*} [AddCommMonoid M] [DecidableEq T] {f g : T → M} (t : T) (h : ∀ u, u ≠ t → f u = g u) :
    ∑ u, f u + g t = ∑ u, g u + f t := by
  have hrest : ∑ u ∈ Finset.univ.erase t, f u = ∑ u ∈ Finset.univ.erase t, g u :=
    Finset.sum_congr rfl fun u hu => h u (Finset.ne_of_mem_erase hu)
  rw [← Finset.add_sum_erase _ f (Finset.mem_univ t), ← Finset.add_sum_erase _ g (Finset.mem_univ t), hrest]
  ac_rfl

/-- The weights of all threads' states. -/
def total (w : α → ℕ) (f : T → α) : ℕ := ∑ t, w (f t)

variable {w : α → ℕ} {f : T → α}

theorem le_total (t : T) : w (f t) ≤ total w f :=
  Finset.single_le_sum (f := fun t => w (f t)) (fun _ _ => Nat.zero_le _) (Finset.mem_univ t)

theorem total_eq_zero : total w f = 0 ↔ ∀ t, w (f t) = 0 := by
  simp [total]

theorem total_of_forall_zero (h : ∀ t, w (f t) = 0) : total w f = 0 := total_eq_zero.mpr h

theorem exists_of_total_pos (h : 0 < total w f) : ∃ t, 0 < w (f t) := by
  by_contra hno
  have h0 : ∀ t, w (f t) = 0 := fun t => Nat.eq_zero_of_not_pos fun ht => hno ⟨t, ht⟩
  have := total_of_forall_zero h0
  omega

variable [DecidableEq T]

/-- The total without one thread, and that thread. -/
theorem total_eq_erase (t : T) : total w f = w (f t) + ∑ u ∈ Finset.univ.erase t, w (f u) :=
  (Finset.add_sum_erase _ (fun u => w (f u)) (Finset.mem_univ t)).symm

theorem add_le_total {t u : T} (h : t ≠ u) : w (f t) + w (f u) ≤ total w f := by
  rw [total_eq_erase t]
  refine Nat.add_le_add_left ?_ _
  exact Finset.single_le_sum (f := fun u => w (f u)) (fun _ _ => Nat.zero_le _)
    (Finset.mem_erase.mpr ⟨h.symm, Finset.mem_univ u⟩)

/-- What only one thread has. -/
theorem total_le_one (hone : ∀ t, w (f t) ≤ 1) (h : ∀ t u, w (f t) ≠ 0 → w (f u) ≠ 0 → t = u) : total w f ≤ 1 := by
  by_cases hno : ∀ t, w (f t) = 0
  · rw [total_of_forall_zero hno]
    exact Nat.zero_le 1
  · push Not at hno
    obtain ⟨t, ht⟩ := hno
    have hrest : ∑ u ∈ Finset.univ.erase t, w (f u) = 0 :=
      Finset.sum_eq_zero fun u hu => not_not.mp fun hu0 => Finset.ne_of_mem_erase hu (h u t hu0 ht)
    rw [total_eq_erase t, hrest]
    exact hone t

/-- What at most one thread can have, two do not have together. -/
theorem add_le_one {n : ℕ} (hone : n + total w f = 1) {t u : T} (h : t ≠ u) : w (f t) + w (f u) ≤ 1 := by
  have hle := add_le_total (w := w) (f := f) h
  omega

/-- **One thread changes its state.** -/
theorem total_update (t : T) (x : α) : total w (Function.update f t x) + w (f t) = total w f + w x := by
  have hchange := sum_change (f := fun u => w (Function.update f t x u)) (g := fun u => w (f u)) t
    fun u hu => by rw [Function.update_of_ne hu]
  rwa [Function.update_self] at hchange

/-- A change that keeps the thread's weight keeps the total. -/
theorem total_update_same {t : T} {x : α} (h : w x = w (f t)) : total w (Function.update f t x) = total w f := by
  have := total_update (w := w) (f := f) t x
  omega

end Census
