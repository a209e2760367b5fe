/-
# `qsort`

`userland/lib/libc/stdlib/qsort.c` on an array of elements of any type. An
element is moved as a whole, so its size plays no role. A comparison function
may itself fail an assertion (`none`), and then the sort does not return.
-/
import Mathlib.Tactic

namespace Os161

namespace Qsort

variable {α : Type} (f : α → α → Option ℤ)

/-- `COMPARE`. -/
def compare (data : List α) (aa bb : ℕ) : Option ℤ :=
  if aa = bb then some 0 else
    match data[aa]?, data[bb]? with
    | some a, some b => f a b
    | _, _ => none

/-- `EXCHANGE`. -/
def exchange (data : List α) (aa bb : ℕ) : List α :=
  match data[aa]?, data[bb]? with
  | some a, some b => (data.set aa b).set bb a
  | _, _ => data

/-- The array and the indices of the partition loop. -/
structure Part (α : Type) where
  data : List α
  pivot : ℕ
  head : ℕ
  tail : ℕ

/-- Step 2: the values up to the pivot value go to the front. -/
def shift (p : Part α) : Option (Part α) :=
  if p.head < p.tail then
    match compare f p.data p.head p.pivot with
    | none => none
    | some c =>
      if c ≤ 0 then shift { p with head := p.head + 1 }
      else
        match compare f p.data p.tail p.pivot with
        | none => none
        | some c =>
          if 0 < c then shift { p with tail := p.tail - 1 }
          else shift
            { data := exchange p.data p.head p.tail
              pivot := if p.pivot = p.head then p.tail else if p.pivot = p.tail then p.head else p.pivot
              head := p.head + 1
              tail := p.tail - 1 }
  else some p
termination_by p.tail - p.head

/-- The loop of step 4: equal values at the end are in place. -/
def lop (data : List α) : (tail : ℕ) → Option { t : ℕ // t ≤ tail }
  | 0 => some ⟨0, le_rfl⟩
  | t + 1 =>
    match compare f data t (t + 1) with
    | none => none
    | some c => if c = 0 then (lop data t).map fun r => ⟨r.1, r.2.trans (Nat.le_succ t)⟩ else some ⟨t + 1, le_rfl⟩

variable {f}

theorem exchange_perm (data : List α) (aa bb : ℕ) : (exchange data aa bb).Perm data := by
  unfold exchange
  split
  · next a b ha hb =>
    obtain ⟨ha', rfl⟩ := List.getElem?_eq_some_iff.mp ha
    obtain ⟨hb', rfl⟩ := List.getElem?_eq_some_iff.mp hb
    exact List.set_set_perm ha' hb'
  · exact List.Perm.refl data

theorem perm_of_ite (p : Part α) (last : ℕ) (c : ℤ) :
    (if 0 < c then exchange p.data p.pivot last else p.data).Perm p.data := by
  split_ifs
  · exact exchange_perm _ _ _
  · exact List.Perm.refl _

theorem shift_perm {p q : Part α} (h : shift f p = some q) : q.data.Perm p.data := by
  fun_induction shift f p with
  | case1 | case3 => cases h
  | case2 _ _ _ _ _ ih | case4 _ _ _ _ _ _ _ _ ih => exact ih h
  | case5 _ _ _ _ _ _ _ _ ih => exact (ih h).trans (exchange_perm _ _ _)
  | case6 => cases h; exact List.Perm.refl _

end Qsort

open Qsort in
/-- `qsort` on the first `num` elements, which are all of `data`. -/
def qsort {α : Type} (f : α → α → Option ℤ) (num : ℕ) (data : List α) : Option (List α) :=
  if num ≤ 1 then some data
  else
    match if num = 2 then compare f data 0 1 else some 0 with
    | none => none
    | some c =>
      if 0 < c then some (exchange data 0 1)
      else
        match shift f { data := data, pivot := num / 2, head := 0, tail := num - 1 } with
        | none => none
        | some p =>
          match if p.tail < p.head then some 0 else compare f p.data p.head p.pivot with
          | none => none
          | some c =>
            let tail := if c ≤ 0 then p.tail + 1 else p.tail
            if tail = num then
              match if p.pivot < num - 1 then compare f p.data p.pivot (num - 1) else some 0 with
              | none => none
              | some c =>
                let data := if 0 < c then exchange p.data p.pivot (num - 1) else p.data
                match lop f data (num - 1) with
                | none => none
                | some ⟨tail, _⟩ =>
                  if 0 < tail then (qsort f tail (data.take tail)).map (· ++ data.drop tail) else some data
            else if 0 < tail ∧ tail < num then
              match qsort f tail (p.data.take tail) with
              | none => none
              | some front => (qsort f (num - tail) (p.data.drop tail)).map (front ++ ·)
            -- assert(tail > 0 && tail < num)
            else none
termination_by num
decreasing_by all_goals omega

open Qsort in
/-- **The result is a permutation of the array.** -/
theorem qsort_perm {α : Type} {f : α → α → Option ℤ} {num : ℕ} {data r : List α} (h : qsort f num data = some r) :
    r.Perm data := by
  fun_induction qsort f num data generalizing r with
  | case1 => cases h; exact List.Perm.refl _
  | case2 | case4 | case5 | case6 | case7 | case10 | case12 => cases h
  | case3 => cases h; exact exchange_perm _ _ _
  | case8 =>
    rename_i p _ _ _ c tail _ _ _ hshift _ data _ _ ih
    obtain ⟨front, hfront, rfl⟩ := Option.map_eq_some_iff.mp h
    refine ((ih hfront).append_right _).trans ?_
    rw [List.take_append_drop]
    exact (perm_of_ite p _ c).trans (shift_perm hshift)
  | case9 =>
    rename_i p _ _ _ c _ _ _ _ hshift _ data _ _
    cases h
    exact (perm_of_ite p _ c).trans (shift_perm hshift)
  | case11 =>
    rename_i p hshift _ _ tail _ _ front hfront ih1 ih2
    obtain ⟨back, hback, rfl⟩ := Option.map_eq_some_iff.mp h
    refine ((ih1 hfront).append (ih2 hback)).trans ?_
    rw [List.take_append_drop]
    exact shift_perm hshift

end Os161
