/-
# `qsort` sorts

The partition loop keeps the pivot's value `v` in sight while the pivot moves
(`Parted`): what is before `head` is at most `v`, what is after `tail` is
greater, and `v` itself is where `pivot` says. So `v` is never in the back
part, which is why the front part is not empty and the assertion holds; and if
the back part is empty, `v` is a greatest element, which step 4 brings to the
end.
-/
import Os161.Libc.Qsort

namespace Os161

namespace Qsort

variable {α : Type} (f : α → α → Option ℤ)

/-- `a` compares less than or equal to `b`. -/
def Le (a b : α) : Prop := ∃ c : ℤ, f a b = some c ∧ c ≤ 0

/-- The comparison function returns, the sign of its result changes when the
arguments are exchanged, and the order is transitive. -/
structure TotalPreorder : Prop where
  returns : ∀ a b, ∃ c, f a b = some c
  swap : ∀ {a b c d}, f a b = some c → f b a = some d → (c ≤ 0 ↔ 0 ≤ d)
  trans : ∀ {a b c}, Le f a b → Le f b c → Le f a c

variable {f}

namespace TotalPreorder

theorem le_iff (h : TotalPreorder f) {a b : α} {c : ℤ} (hc : f a b = some c) :
    (c ≤ 0 ↔ Le f a b) ∧ (0 ≤ c ↔ Le f b a) := by
  obtain ⟨d, hd⟩ := h.returns b a
  have hsign := h.swap hd hc
  refine ⟨⟨fun hle => ⟨c, hc, hle⟩, ?_⟩, ⟨fun hle => ⟨d, hd, hsign.mpr hle⟩, ?_⟩⟩
  · rintro ⟨c', hc', hle⟩
    rw [hc] at hc'
    cases hc'
    exact hle
  · rintro ⟨d', hd', hle⟩
    rw [hd] at hd'
    cases hd'
    exact hsign.mp hle

theorem total (h : TotalPreorder f) (a b : α) : Le f a b ∨ Le f b a := by
  obtain ⟨c, hc⟩ := h.returns a b
  rcases le_total c 0 with hle | hle
  · exact Or.inl ((h.le_iff hc).1.mp hle)
  · exact Or.inr ((h.le_iff hc).2.mp hle)

theorem refl (h : TotalPreorder f) (a : α) : Le f a a := (h.total a a).elim id id

end TotalPreorder

theorem compare_spec (h : TotalPreorder f) {data : List α} {i j : ℕ} {a b : α} (hi : data[i]? = some a)
    (hj : data[j]? = some b) :
    ∃ c, compare f data i j = some c ∧ (c ≤ 0 ↔ Le f a b) ∧ (0 ≤ c ↔ Le f b a) := by
  unfold compare
  by_cases hij : i = j
  · subst hij
    rw [hi] at hj
    cases hj
    exact ⟨0, by simp, by simp [h.refl a], by simp [h.refl a]⟩
  · obtain ⟨c, hc⟩ := h.returns a b
    refine ⟨c, ?_, h.le_iff hc⟩
    rw [if_neg hij, hi, hj]
    exact hc

theorem exchange_length (data : List α) (i j : ℕ) : (exchange data i j).length = data.length :=
  (exchange_perm data i j).length_eq

/-- The elements after an exchange. -/
theorem getElem?_exchange {data : List α} {i j : ℕ} {a b : α} (hi : data[i]? = some a) (hj : data[j]? = some b) (k : ℕ) :
    (exchange data i j)[k]? = if k = j then some a else if k = i then some b else data[k]? := by
  have hilt : i < data.length := (List.getElem?_eq_some_iff.mp hi).1
  have hjlt : j < data.length := (List.getElem?_eq_some_iff.mp hj).1
  unfold exchange
  simp only [hi, hj, List.getElem?_set, List.length_set]
  split_ifs <;> first | rfl | omega

/-- The loop invariant of the partition of `num` elements around the value
`v`. -/
structure Parted (f : α → α → Option ℤ) (num : ℕ) (v : α) (p : Part α) : Prop where
  length : p.data.length = num
  pivot : p.data[p.pivot]? = some v
  order : p.head ≤ p.tail + 1
  tail : p.tail < num
  front : ∀ i x, i < p.head → p.data[i]? = some x → Le f x v
  back : ∀ i x, p.tail < i → p.data[i]? = some x → ¬ Le f x v

namespace Parted

variable {num : ℕ} {v : α} {p : Part α}

/-- An index below `num` has an element. -/
theorem get (hp : Parted f num v p) {i : ℕ} (hi : i < num) : ∃ x, p.data[i]? = some x :=
  ⟨_, List.getElem?_eq_getElem (hp.length.symm ▸ hi)⟩

/-- The element at `head` is at most `v`. -/
theorem advance (hp : Parted f num v p) (hlt : p.head < p.tail) {x : α} (hx : p.data[p.head]? = some x)
    (hle : Le f x v) : Parted f num v { p with head := p.head + 1 } where
  length := hp.length
  pivot := hp.pivot
  order := by show p.head + 1 ≤ p.tail + 1; omega
  tail := hp.tail
  front i y hi hy := by
    rcases Nat.lt_succ_iff_lt_or_eq.mp hi with hi | rfl
    · exact hp.front i y hi hy
    · rw [hx] at hy
      cases hy
      exact hle
  back := hp.back

/-- The element at `tail` is greater. -/
theorem retreat (hp : Parted f num v p) (hlt : p.head < p.tail) {x : α} (hx : p.data[p.tail]? = some x)
    (hgt : ¬ Le f x v) : Parted f num v { p with tail := p.tail - 1 } where
  length := hp.length
  pivot := hp.pivot
  order := by show p.head ≤ p.tail - 1 + 1; omega
  tail := by show p.tail - 1 < num; have := hp.tail; omega
  front := hp.front
  back i y hi hy := by
    by_cases hit : p.tail < i
    · exact hp.back i y hit hy
    · have hi' : i = p.tail := by
        have : p.tail - 1 < i := hi
        omega
      subst hi'
      rw [hx] at hy
      cases hy
      exact hgt

/-- The elements at `head` and `tail` change places, and the pivot with them. -/
theorem swap (h : TotalPreorder f) (hp : Parted f num v p) (hlt : p.head < p.tail) {x y : α}
    (hx : p.data[p.head]? = some x) (hgt : ¬ Le f x v) (hy : p.data[p.tail]? = some y) (hle : Le f y v) :
    Parted f num v
      { data := exchange p.data p.head p.tail
        pivot := if p.pivot = p.head then p.tail else if p.pivot = p.tail then p.head else p.pivot
        head := p.head + 1
        tail := p.tail - 1 } := by
  have hget := getElem?_exchange hx hy
  have hpivot : p.pivot ≠ p.head := by
    intro heq
    have := hp.pivot
    rw [heq, hx] at this
    cases this
    exact hgt (h.refl v)
  refine ⟨(exchange_length ..).trans hp.length, ?_, ?_, ?_, fun i z hi hz => ?_, fun i z hi hz => ?_⟩
  · show (exchange p.data p.head p.tail)[if p.pivot = p.head then p.tail else if p.pivot = p.tail then p.head else p.pivot]? =
      some v
    rw [if_neg hpivot, hget]
    have hv := hp.pivot
    by_cases ht : p.pivot = p.tail
    · rw [ht, hy] at hv
      rw [if_pos ht, if_neg hlt.ne, if_pos rfl, hv]
    · rw [if_neg ht, if_neg ht, if_neg hpivot, hv]
  · show p.head + 1 ≤ p.tail - 1 + 1
    omega
  · show p.tail - 1 < num
    have := hp.tail
    omega
  · have hi' : i < p.head + 1 := hi
    have hz' : (exchange p.data p.head p.tail)[i]? = some z := hz
    rw [hget, if_neg (by omega)] at hz'
    split_ifs at hz' with hih
    · cases hz'
      exact hle
    · exact hp.front i z (by omega) hz'
  · have hi' : p.tail - 1 < i := hi
    have hz' : (exchange p.data p.head p.tail)[i]? = some z := hz
    rw [hget] at hz'
    split_ifs at hz' with hit hih
    · cases hz'
      exact hgt
    · omega
    · exact hp.back i z (by omega) hz'

end Parted

/-- The partition loop returns, with its indices met. -/
theorem shift_spec (h : TotalPreorder f) {num : ℕ} {v : α} {p : Part α} (hp : Parted f num v p) :
    ∃ q, shift f p = some q ∧ Parted f num v q ∧ ¬ q.head < q.tail := by
  fun_induction shift f p with
  | case1 p hlt hnone =>
    obtain ⟨x, hx⟩ := hp.get (hlt.trans hp.tail)
    obtain ⟨c, hc, -⟩ := compare_spec h hx hp.pivot
    rw [hnone] at hc
    cases hc
  | case2 p hlt c hc hle ih =>
    obtain ⟨x, hx⟩ := hp.get (hlt.trans hp.tail)
    obtain ⟨d, hd, hsign, -⟩ := compare_spec h hx hp.pivot
    rw [hc] at hd
    cases hd
    exact ih (hp.advance hlt hx (hsign.mp hle))
  | case3 p hlt c hc hle hnone =>
    obtain ⟨y, hy⟩ := hp.get hp.tail
    obtain ⟨d, hd, -⟩ := compare_spec h hy hp.pivot
    rw [hnone] at hd
    cases hd
  | case4 p hlt c hc hle d hd hgt ih =>
    obtain ⟨y, hy⟩ := hp.get hp.tail
    obtain ⟨d', hd', hsign, -⟩ := compare_spec h hy hp.pivot
    rw [hd] at hd'
    cases hd'
    exact ih (hp.retreat hlt hy fun hley => absurd (hsign.mpr hley) (not_le.mpr hgt))
  | case5 p hlt c hc hle d hd hgt ih =>
    obtain ⟨x, hx⟩ := hp.get (hlt.trans hp.tail)
    obtain ⟨y, hy⟩ := hp.get hp.tail
    obtain ⟨c', hc', hsign, -⟩ := compare_spec h hx hp.pivot
    obtain ⟨d', hd', hsign', -⟩ := compare_spec h hy hp.pivot
    rw [hc] at hc'
    cases hc'
    rw [hd] at hd'
    cases hd'
    exact ih (hp.swap h hlt hx (fun hlex => hle (hsign.mpr hlex)) hy (hsign'.mp (not_lt.mp hgt)))
  | case6 p hlt => exact ⟨p, rfl, hp, hlt⟩

/-- Step 3: where the back part begins. -/
theorem Parted.split (h : TotalPreorder f) {num : ℕ} {v : α} {p : Part α} (hp : Parted f num v p)
    (hmet : ¬ p.head < p.tail) :
    ∃ c, (if p.tail < p.head then some 0 else compare f p.data p.head p.pivot) = some c ∧
      ∃ t, t = (if c ≤ 0 then p.tail + 1 else p.tail) ∧ 0 < t ∧ t ≤ num ∧
        (∀ i x, i < t → p.data[i]? = some x → Le f x v) ∧ (∀ i x, t ≤ i → p.data[i]? = some x → ¬ Le f x v) := by
  have htail := hp.tail
  by_cases hcross : p.tail < p.head
  · refine ⟨0, if_pos hcross, p.tail + 1, rfl, by omega, by omega, fun i x hi => ?_, fun i x hi => ?_⟩
    · exact hp.front i x (by omega)
    · exact hp.back i x (by omega)
  · have heq : p.head = p.tail := by omega
    obtain ⟨x, hx⟩ := hp.get htail
    rw [← heq] at hx
    obtain ⟨c, hc, hsign, -⟩ := compare_spec h hx hp.pivot
    refine ⟨c, by rw [if_neg hcross, hc], ?_⟩
    by_cases hle : c ≤ 0
    · refine ⟨p.tail + 1, (if_pos hle).symm, by omega, by omega, fun i y hi hy => ?_, fun i y hi => ?_⟩
      · rcases Nat.lt_succ_iff_lt_or_eq.mp hi with hi | rfl
        · exact hp.front i y (by omega) hy
        · rw [← heq, hx] at hy
          cases hy
          exact hsign.mp hle
      · exact hp.back i y (by omega)
    · have hgt : ¬ Le f x v := fun hlex => hle (hsign.mpr hlex)
      -- the pivot is not at `tail` and not after it
      have hpivot : p.pivot < p.tail := by
        by_contra hno
        rcases Nat.lt_or_eq_of_le (not_lt.mp hno) with hlt | hpt
        · exact hp.back p.pivot v hlt hp.pivot (h.refl v)
        · have hv := hp.pivot
          rw [← hpt, ← heq, hx] at hv
          cases hv
          exact hgt (h.refl v)
      refine ⟨p.tail, (if_neg hle).symm, by omega, by omega, fun i y hi => ?_, fun i y hi hy => ?_⟩
      · exact hp.front i y (by omega)
      · rcases Nat.lt_or_eq_of_le hi with hi | rfl
        · exact hp.back i y hi hy
        · rw [← heq, hx] at hy
          cases hy
          exact hgt

/-- The elements that step 4 leaves at the end are equal to the last. -/
theorem lop_spec (h : TotalPreorder f) {data : List α} :
    ∀ {tail : ℕ} {m : α}, data[tail]? = some m →
      ∃ t, lop f data tail = some t ∧ ∀ i x, t.1 ≤ i → i ≤ tail → data[i]? = some x → Le f m x := by
  intro tail
  induction tail with
  | zero =>
    intro m hm
    refine ⟨⟨0, le_rfl⟩, rfl, fun i x _ hi hx => ?_⟩
    rw [Nat.le_zero.mp hi, hm] at hx
    cases hx
    exact h.refl m
  | succ t ih =>
    intro m hm
    have hlt : t < data.length := Nat.lt_of_succ_lt (List.getElem?_eq_some_iff.mp hm).1
    have ha : data[t]? = some data[t] := List.getElem?_eq_getElem hlt
    obtain ⟨c, hc, -, hge⟩ := compare_spec h ha hm
    simp only [lop, hc]
    have hlast : ∀ x, data[t + 1]? = some x → Le f m x := by
      intro x hx
      rw [hm] at hx
      cases hx
      exact h.refl m
    by_cases h0 : c = 0
    · obtain ⟨r, hr, hall⟩ := ih ha
      refine ⟨⟨r.1, r.2.trans (Nat.le_succ t)⟩, by rw [if_pos h0, hr]; rfl, fun i x hri hi hx => ?_⟩
      rcases Nat.lt_or_eq_of_le hi with hi | rfl
      · exact h.trans (hge.mp h0.ge) (hall i x hri (Nat.lt_succ_iff.mp hi) hx)
      · exact hlast x hx
    · refine ⟨⟨t + 1, le_rfl⟩, if_neg h0, fun i x hti hi hx => ?_⟩
      obtain rfl : i = t + 1 := le_antisymm hi hti
      exact hlast x hx

/-- Elements by their index in the first part or the rest of the array. -/
theorem mem_take_iff {data : List α} {t : ℕ} {x : α} : x ∈ data.take t ↔ ∃ i < t, data[i]? = some x := by
  rw [List.mem_iff_getElem?]
  constructor
  · rintro ⟨i, hi⟩
    rw [List.getElem?_take] at hi
    split_ifs at hi with hlt
    exact ⟨i, hlt, hi⟩
  · rintro ⟨i, hlt, hi⟩
    exact ⟨i, by rw [List.getElem?_take, if_pos hlt, hi]⟩

@[inherit_doc mem_take_iff]
theorem mem_drop_iff {data : List α} {t : ℕ} {x : α} : x ∈ data.drop t ↔ ∃ i, t ≤ i ∧ data[i]? = some x := by
  rw [List.mem_iff_getElem?]
  constructor
  · rintro ⟨i, hi⟩
    rw [List.getElem?_drop] at hi
    exact ⟨t + i, by omega, hi⟩
  · rintro ⟨i, hle, hi⟩
    exact ⟨i - t, by rw [List.getElem?_drop, Nat.add_sub_cancel' hle, hi]⟩

/-- Two sorted parts, the first at most the second. -/
theorem pairwise_parts {front back l r : List α} (hl : l.Pairwise (Le f)) (hr : r.Pairwise (Le f)) (hpl : l.Perm front)
    (hpr : r.Perm back) (hle : ∀ x ∈ front, ∀ y ∈ back, Le f x y) : (l ++ r).Pairwise (Le f) := by
  rw [List.pairwise_append]
  exact ⟨hl, hr, fun x hx y hy => hle x (hpl.mem_iff.mp hx) y (hpr.mem_iff.mp hy)⟩

/-- Step 4 leaves a greatest element at the end. -/
theorem max_last (h : TotalPreorder f) {data : List α} {num : ℕ} {pivot : ℕ} {v : α} (hlen : data.length = num)
    (hnum : 0 < num) (hpivot : data[pivot]? = some v) :
    ∃ c, (if pivot < num - 1 then compare f data pivot (num - 1) else some 0) = some c ∧
      ∃ m, (if 0 < c then exchange data pivot (num - 1) else data)[num - 1]? = some m ∧ Le f v m := by
  have hpl : pivot < num := hlen ▸ (List.getElem?_eq_some_iff.mp hpivot).1
  have hl : num - 1 < data.length := by omega
  have hlast : data[num - 1]? = some data[num - 1] := List.getElem?_eq_getElem hl
  by_cases hlt : pivot < num - 1
  · obtain ⟨c, hc, hsign, -⟩ := compare_spec h hpivot hlast
    refine ⟨c, by rw [if_pos hlt, hc], ?_⟩
    by_cases hpos : 0 < c
    · refine ⟨v, ?_, h.refl v⟩
      rw [if_pos hpos, getElem?_exchange hpivot hlast, if_pos rfl]
    · exact ⟨_, by rw [if_neg hpos, hlast], hsign.mp (not_lt.mp hpos)⟩
  · have heq : pivot = num - 1 := by omega
    refine ⟨0, if_neg hlt, v, ?_, h.refl v⟩
    rw [if_neg (lt_irrefl 0), ← heq, hpivot]

/-- The first two lines of the sort: an array of two in the wrong order. -/
theorem pair_spec (h : TotalPreorder f) {num : ℕ} {data : List α} (hlen : data.length = num) :
    ∃ c, (if num = 2 then compare f data 0 1 else some 0) = some c ∧
      (0 < c → (exchange data 0 1).Pairwise (Le f)) := by
  by_cases h2 : num = 2
  · obtain ⟨a, b, rfl⟩ := List.length_eq_two.mp (hlen.trans h2)
    obtain ⟨c, hc, -, hge⟩ := compare_spec h (show [a, b][0]? = some a from rfl) (show [a, b][1]? = some b from rfl)
    refine ⟨c, by rw [if_pos h2, hc], fun hpos => ?_⟩
    have hle : Le f b a := hge.mp hpos.le
    simpa [exchange] using hle
  · exact ⟨0, if_neg h2, fun hpos => absurd hpos (lt_irrefl 0)⟩

/-- The parts of step 5, sorted. -/
theorem parts_sorted (h : TotalPreorder f) {data l r : List α} {t : ℕ} {v : α}
    (hfront : ∀ i x, i < t → data[i]? = some x → Le f x v) (hback : ∀ i x, t ≤ i → data[i]? = some x → ¬ Le f x v)
    (hl : l.Pairwise (Le f)) (hr : r.Pairwise (Le f)) (hpl : l.Perm (data.take t)) (hpr : r.Perm (data.drop t)) :
    (l ++ r).Pairwise (Le f) := by
  refine pairwise_parts hl hr hpl hpr fun x hx y hy => ?_
  obtain ⟨i, hi, hx⟩ := mem_take_iff.mp hx
  obtain ⟨j, hj, hy⟩ := mem_drop_iff.mp hy
  exact h.trans (hfront i x hi hx) ((h.total v y).resolve_right (hback j y hj hy))

/-- The front part and the greatest elements of step 4. -/
theorem lopped_sorted (h : TotalPreorder f) {data l : List α} {t : ℕ} {m : α} (hmax : ∀ x ∈ data, Le f x m)
    (heq : ∀ i x, t ≤ i → data[i]? = some x → Le f m x) (hl : l.Pairwise (Le f)) (hpl : l.Perm (data.take t)) :
    (l ++ data.drop t).Pairwise (Le f) := by
  have hdrop : ∀ x ∈ data, ∀ y ∈ data.drop t, Le f x y := by
    intro x hx y hy
    obtain ⟨j, hj, hy⟩ := mem_drop_iff.mp hy
    exact h.trans (hmax x hx) (heq j y hj hy)
  refine pairwise_parts hl ?_ hpl (List.Perm.refl _) fun x hx y hy => hdrop x (List.mem_of_mem_take hx) y hy
  exact List.pairwise_of_forall_mem_list fun x hx y hy => hdrop x (List.mem_of_mem_drop hx) y hy

/-- The sort returns, and its result is sorted. -/
theorem qsort_spec (h : TotalPreorder f) (num : ℕ) : ∀ data : List α, data.length = num →
    ∃ r, qsort f num data = some r ∧ r.Pairwise (Le f) := by
  induction num using Nat.strong_induction_on with
  | _ num ih =>
    intro data hlen
    rw [qsort]
    by_cases h1 : num ≤ 1
    · refine ⟨data, if_pos h1, ?_⟩
      match data, hlen with
      | [], _ => exact List.Pairwise.nil
      | [a], _ => exact List.pairwise_singleton _ a
      | a :: b :: l, hlen =>
        simp only [List.length_cons] at hlen
        omega
    rw [if_neg h1]
    obtain ⟨c₀, hc₀, hpair⟩ := pair_spec h hlen
    simp only [hc₀]
    by_cases hpos : 0 < c₀
    · exact ⟨_, if_pos hpos, hpair hpos⟩
    rw [if_neg hpos]
    have hmid : num / 2 < data.length := by omega
    have hstart : Parted f num data[num / 2] { data := data, pivot := num / 2, head := 0, tail := num - 1 } := by
      refine ⟨hlen, List.getElem?_eq_getElem hmid, Nat.zero_le _, ?_, fun i x hi => absurd hi (Nat.not_lt_zero i),
        fun i x hi hx => ?_⟩
      · show num - 1 < num
        omega
      · have hi' : num - 1 < i := hi
        have := (List.getElem?_eq_some_iff.mp hx).1
        have : i < data.length := this
        omega
    obtain ⟨p, hshift, hp, hmet⟩ := shift_spec h hstart
    obtain ⟨c, hc, t, ht, htpos, htnum, hfront, hback⟩ := hp.split h hmet
    simp only [hshift, hc, ← ht]
    by_cases hall : t = num
    · rw [if_pos hall]
      have hmax : ∀ x ∈ p.data, Le f x data[num / 2] := by
        intro x hx
        obtain ⟨i, hi⟩ := List.mem_iff_getElem?.mp hx
        have hlt : i < p.data.length := (List.getElem?_eq_some_iff.mp hi).1
        exact hfront i x (by rw [hall, ← hp.length]; exact hlt) hi
      obtain ⟨c', hc', m, hm, hvm⟩ := max_last h hp.length (by omega) hp.pivot
      simp only [hc']
      set data' := if 0 < c' then exchange p.data p.pivot (num - 1) else p.data with hdata'
      have hperm : data'.Perm p.data := perm_of_ite p (num - 1) c'
      have hlen' : data'.length = num := hperm.length_eq.trans hp.length
      obtain ⟨⟨t', htle⟩, hlop, heq⟩ := lop_spec h hm
      simp only [hlop]
      have hmax' : ∀ x ∈ data', Le f x m := fun x hx => h.trans (hmax x (hperm.mem_iff.mp hx)) hvm
      have heq' : ∀ i x, t' ≤ i → data'[i]? = some x → Le f m x := by
        intro i x hi hx
        have := (List.getElem?_eq_some_iff.mp hx).1
        exact heq i x hi (by omega) hx
      by_cases ht' : 0 < t'
      · rw [if_pos ht']
        obtain ⟨l, hl, hsl⟩ := ih t' (by omega) (data'.take t') (by rw [List.length_take, hlen']; omega)
        rw [hl]
        exact ⟨_, rfl, lopped_sorted h hmax' heq' hsl (qsort_perm hl)⟩
      · rw [if_neg ht']
        obtain rfl : t' = 0 := by omega
        exact ⟨data', rfl, lopped_sorted h hmax' heq' List.Pairwise.nil (List.Perm.refl _)⟩
    · have htlt : t < num := by omega
      rw [if_neg hall, if_pos ⟨htpos, htlt⟩]
      obtain ⟨l, hl, hsl⟩ := ih t htlt (p.data.take t) (by rw [List.length_take, hp.length]; omega)
      obtain ⟨r, hr, hsr⟩ := ih (num - t) (by omega) (p.data.drop t) (by rw [List.length_drop, hp.length])
      simp only [hl, hr, Option.map_some]
      exact ⟨_, rfl, parts_sorted h hfront hback hsl hsr (qsort_perm hl) (qsort_perm hr)⟩

end Qsort

open Qsort in
/-- **`qsort` sorts.** For every comparison function that is a total preorder
and every array, the sort returns: no assertion fails in any of its calls. The
result is a permutation of the array in which each element compares less than
or equal to every later one. -/
theorem qsort_sorts {α : Type} {f : α → α → Option ℤ} (h : TotalPreorder f) (data : List α) :
    ∃ r, qsort f data.length data = some r ∧ r.Perm data ∧ r.Pairwise (Le f) := by
  obtain ⟨r, hr, hsorted⟩ := qsort_spec h data.length data rfl
  exact ⟨r, hr, qsort_perm hr, hsorted⟩

open Qsort in
/-- Integers, compared by their difference. -/
theorem qsort_sorts_integers :
    ∃ r, qsort (fun a b : ℤ => some (a - b)) 5 [3, 1, 2, 3, 0] = some r ∧ r.Perm [3, 1, 2, 3, 0] ∧
      r.Pairwise (Le fun a b : ℤ => some (a - b)) := by
  refine qsort_sorts ⟨fun a b => ⟨a - b, rfl⟩, ?_, ?_⟩ [3, 1, 2, 3, 0]
  · intro a b c d hc hd
    cases hc
    cases hd
    omega
  · rintro a b c ⟨x, hx, hx0⟩ ⟨y, hy, hy0⟩
    cases hx
    cases hy
    exact ⟨a - c, rfl, by omega⟩

end Os161
