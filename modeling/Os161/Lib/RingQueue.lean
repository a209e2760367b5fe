/-
# A ring of slots

A queue in `n` slots between two indices: `head` is the next slot to fill,
`tail` the next one to take. It is empty when they are equal, so that one slot
stays free: it is full with `n - 1` elements.

A store and an advance of an index are separate operations, as they are where
a producer and a consumer share the ring without a lock. The elements are
changed only by the advances (`RingQueue.contents_advance`, `RingQueue.contents_remove`);
a store at `head` leaves them as they are (`RingQueue.contents_store`).
-/
import Mathlib.Tactic

/-- The slots and the two indices. -/
structure RingQueue (α : Type*) where
  slots : ℕ → α
  head : ℕ
  tail : ℕ

namespace RingQueue

variable {α : Type*} (n : ℕ)

/-- The slot after `i`. -/
def next (i : ℕ) : ℕ := (i + 1) % n

/-- The number of elements. -/
def count (r : RingQueue α) : ℕ := (r.head + n - r.tail) % n

/-- The elements, from `tail` on. -/
def contents (r : RingQueue α) : List α := (List.range (r.count n)).map fun k => r.slots ((r.tail + k) % n)

/-- The indices are indices of slots. -/
structure Ok (r : RingQueue α) : Prop where
  head : r.head < n
  tail : r.tail < n

/-- `r` with `c` in the slot `i`. -/
def store (r : RingQueue α) (i : ℕ) (c : α) : RingQueue α := { r with slots := Function.update r.slots i c }

variable {n} {r : RingQueue α}

theorem length_contents : (r.contents n).length = r.count n := by
  simp [contents]

theorem next_eq {i : ℕ} (h : i < n) : next n i = if i + 1 = n then 0 else i + 1 := by
  unfold next
  split_ifs with he
  · rw [he, Nat.mod_self]
  · exact Nat.mod_eq_of_lt (by omega)

theorem next_injective {i j : ℕ} (hi : i < n) (hj : j < n) (h : next n i = next n j) : i = j := by
  rw [next_eq hi, next_eq hj] at h
  split_ifs at h <;> omega

theorem next_lt {i : ℕ} (h : i < n) : next n i < n := Nat.mod_lt _ (by omega)

namespace Ok

variable (h : r.Ok n)
include h

theorem count_eq : r.count n = if r.tail ≤ r.head then r.head - r.tail else r.head + n - r.tail := by
  have hh := h.head
  have ht := h.tail
  unfold count
  split_ifs with hle
  · have : r.head + n - r.tail = (r.head - r.tail) + n := by omega
    rw [this, Nat.add_mod_right, Nat.mod_eq_of_lt (by omega)]
  · exact Nat.mod_eq_of_lt (by omega)

theorem count_lt : r.count n < n := Nat.mod_lt _ (Nat.zero_lt_of_lt h.head)

/-- The ring is full exactly if the slot after `head` is `tail`. -/
theorem next_head_eq_tail_iff : next n r.head = r.tail ↔ r.count n = n - 1 := by
  have hh := h.head
  have ht := h.tail
  rw [next_eq hh, h.count_eq]
  split_ifs <;> omega

theorem store (i : ℕ) (c : α) : (r.store i c).Ok n := ⟨h.head, h.tail⟩

theorem advance : ({ r with head := next n r.head } : RingQueue α).Ok n := ⟨next_lt h.head, h.tail⟩

theorem remove : ({ r with tail := next n r.tail } : RingQueue α).Ok n := ⟨h.head, next_lt h.tail⟩

theorem count_advance (hfull : next n r.head ≠ r.tail) :
    ({ r with head := next n r.head } : RingQueue α).count n = r.count n + 1 := by
  have hh := h.head
  have ht := h.tail
  rw [h.advance.count_eq, h.count_eq]
  show (if r.tail ≤ next n r.head then next n r.head - r.tail else next n r.head + n - r.tail) = _
  revert hfull
  rw [next_eq hh]
  split_ifs <;> omega

theorem count_remove (hne : r.count n ≠ 0) :
    ({ r with tail := next n r.tail } : RingQueue α).count n + 1 = r.count n := by
  have hh := h.head
  have ht := h.tail
  revert hne
  rw [h.remove.count_eq, h.count_eq]
  show _ → (if next n r.tail ≤ r.head then r.head - next n r.tail else r.head + n - next n r.tail) + 1 = _
  rw [next_eq ht]
  split_ifs <;> omega

/-- The slot of the `k`-th element. -/
theorem slot_eq {k : ℕ} (hk : k ≤ r.count n) : (r.tail + k) % n = r.head ↔ k = r.count n := by
  have hh := h.head
  have ht := h.tail
  have hc := h.count_eq
  by_cases hlt : r.tail + k < n
  · rw [Nat.mod_eq_of_lt hlt]
    split_ifs at hc <;> omega
  · have hmod : (r.tail + k) % n = r.tail + k - n := by
      rw [Nat.mod_eq_sub_mod (not_lt.mp hlt), Nat.mod_eq_of_lt]
      have := h.count_lt
      omega
    rw [hmod]
    split_ifs at hc <;> omega

/-- **A store at `head`** does not touch the elements. -/
theorem contents_store (c : α) : (r.store r.head c).contents n = r.contents n := by
  unfold contents
  refine List.map_congr_left fun k hk => ?_
  have hk' : k < r.count n := List.mem_range.mp hk
  have hne : (r.tail + k) % n ≠ r.head := fun he => hk'.ne ((h.slot_eq hk'.le).mp he)
  exact Function.update_of_ne hne _ _

/-- **An advance of `head`** adds the element in its slot. -/
theorem contents_advance (hfull : next n r.head ≠ r.tail) :
    ({ r with head := next n r.head } : RingQueue α).contents n = r.contents n ++ [r.slots r.head] := by
  have hslot : (r.tail + r.count n) % n = r.head := (h.slot_eq le_rfl).mpr rfl
  unfold contents
  rw [h.count_advance hfull, List.range_succ, List.map_append, List.map_singleton, hslot]

/-- **An advance of `tail`** takes the first element. -/
theorem contents_remove (hne : r.count n ≠ 0) :
    r.contents n = r.slots r.tail :: ({ r with tail := next n r.tail } : RingQueue α).contents n := by
  have hcount := h.count_remove hne
  unfold contents
  rw [← hcount, List.range_succ_eq_map, List.map_cons, List.map_map, Nat.add_zero, Nat.mod_eq_of_lt h.tail]
  congr 1
  refine List.map_congr_left fun k _ => ?_
  show r.slots ((r.tail + (k + 1)) % n) = r.slots ((next n r.tail + k) % n)
  unfold next
  rw [Nat.mod_add_mod]
  congr 2
  omega

end Ok

end RingQueue
