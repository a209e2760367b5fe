/-
# Tables of objects, and how often each is freed

Objects that are allocated and freed over and over are told apart by the
number of their allocation. A `Ledger` says that everything allocated so far
is either live and not freed, or has been freed once.

What points to what is a function to `Option ℕ`. `Referenced ptr flag` says that
`ptr` points exactly at what `flag` marks, at each of those from one place;
`Owned ptr next freed`, that what `ptr` points at are the live objects of a
ledger, each in one place.

Live objects are kept in tables. A `SlotTable` is an array of slots, some
empty, that is filled first-fit; a `Keyed` list is an array without holes,
searched by a key. Both are used through their contents, a function to
`Option`, and each operation is an update of that function at one point
(`SlotTable.slot_set`, `SlotTable.slot_insert`, `Keyed.get_append`,
`Keyed.get_modify`, `Keyed.get_remove`).
-/
import Mathlib.Tactic

/-- Of the objects numbered below `next`, those in `live` are not freed and
the others are freed once. -/
structure Ledger (live : ℕ → Prop) (next : ℕ) (freed : List ℕ) : Prop where
  lt_next : ∀ i, live i → i < next
  live_not_freed : ∀ i, live i → i ∉ freed
  freed_of_not_live : ∀ i < next, ¬ live i → i ∈ freed
  freed_lt : ∀ i ∈ freed, i < next
  nodup : freed.Nodup

namespace Ledger

variable {live live' : ℕ → Prop} {next i : ℕ} {freed : List ℕ}

theorem empty (h : ∀ i, ¬ live i) : Ledger live 0 [] :=
  ⟨fun i hi => absurd hi (h i), fun i hi => absurd hi (h i), by simp, by simp, List.nodup_nil⟩

/-- An allocation. -/
theorem alloc (h : Ledger live next freed) (hl : ∀ i, live' i ↔ live i ∨ i = next) :
    Ledger live' (next + 1) freed where
  lt_next i hi := by
    rcases (hl i).mp hi with h1 | rfl
    · exact (h.lt_next i h1).trans (Nat.lt_succ_self _)
    · exact Nat.lt_succ_self _
  live_not_freed i hi := by
    rcases (hl i).mp hi with h1 | rfl
    · exact h.live_not_freed i h1
    · exact fun hf => Nat.lt_irrefl _ (h.freed_lt _ hf)
  freed_of_not_live i hi hn := by
    have hne : i ≠ next := fun he => hn ((hl i).mpr (Or.inr he))
    exact h.freed_of_not_live i (by omega) fun h1 => hn ((hl i).mpr (Or.inl h1))
  freed_lt i hi := (h.freed_lt i hi).trans (Nat.lt_succ_self _)
  nodup := h.nodup

/-- A live object is freed. -/
theorem free (h : Ledger live next freed) (hi : live i) (hl : ∀ j, live' j ↔ live j ∧ j ≠ i) :
    Ledger live' next (i :: freed) where
  lt_next j hj := h.lt_next j ((hl j).mp hj).1
  live_not_freed j hj := by
    obtain ⟨h1, hne⟩ := (hl j).mp hj
    exact List.not_mem_cons_of_ne_of_not_mem hne (h.live_not_freed j h1)
  freed_of_not_live j hj hn := by
    by_cases hne : j = i
    · exact hne ▸ List.mem_cons_self
    · exact List.mem_cons_of_mem _ (h.freed_of_not_live j hj fun h1 => hn ((hl j).mpr ⟨h1, hne⟩))
  freed_lt j hj := by
    rcases List.mem_cons.mp hj with rfl | hj
    · exact h.lt_next _ hi
    · exact h.freed_lt j hj
  nodup := List.nodup_cons.mpr ⟨h.live_not_freed i hi, h.nodup⟩

/-- An object that is allocated and freed again. -/
theorem alloc_free (h : Ledger live next freed) : Ledger live (next + 1) (next :: freed) := by
  have hne : ∀ i, live i → i ≠ next := fun i hi he => Nat.lt_irrefl _ (he ▸ h.lt_next i hi)
  have hnew : Ledger (fun i => live i ∨ i = next) (next + 1) freed := h.alloc fun _ => Iff.rfl
  refine hnew.free (i := next) (Or.inr rfl) fun j => ?_
  exact ⟨fun hj => ⟨Or.inl hj, hne j hj⟩, fun hj => hj.1.resolve_right hj.2⟩

/-- How often an object has been freed. -/
theorem count_freed (h : Ledger live next freed) (hi : i < next) :
    (live i → freed.count i = 0) ∧ (¬ live i → freed.count i = 1) := by
  refine ⟨fun hl => List.count_eq_zero.mpr (h.live_not_freed i hl), fun hn => ?_⟩
  exact List.count_eq_one_of_mem h.nodup (h.freed_of_not_live i hi hn)

end Ledger

/-! ### Pointers -/

section Update

variable {ptr : ℕ → Option ℕ} {u v n k : ℕ}

theorem update_none_eq_some : Function.update ptr u none v = some k ↔ v ≠ u ∧ ptr v = some k := by
  rcases eq_or_ne v u with rfl | h
  · simp
  · simp [h]

theorem update_some_eq_some :
    Function.update ptr u (some n) v = some k ↔ (v = u ∧ n = k) ∨ (v ≠ u ∧ ptr v = some k) := by
  rcases eq_or_ne v u with rfl | h
  · simp
  · simp [h]

theorem ne_of_none (hu : ptr u = none) (hv : ptr v = some k) : v ≠ u := by
  rintro rfl
  rw [hu] at hv
  cases hv

end Update

/-- `ptr` points at what `flag` marks, at each from one place. -/
structure Referenced (ptr : ℕ → Option ℕ) (flag : ℕ → Bool) : Prop where
  hit : ∀ u n, ptr u = some n → flag n = true
  inj : ∀ u u' n, ptr u = some n → ptr u' = some n → u = u'
  onto : ∀ n, flag n = true → ∃ u, ptr u = some n

namespace Referenced

variable {ptr : ℕ → Option ℕ} {flag : ℕ → Bool} {u n : ℕ}

theorem empty (hptr : ∀ u, ptr u = none) (hflag : ∀ n, flag n = false) : Referenced ptr flag := by
  refine ⟨fun u n hu => ?_, fun u v n hu => ?_, fun n hn => ?_⟩
  · rw [hptr u] at hu
    cases hu
  · rw [hptr u] at hu
    cases hu
  · rw [hflag n] at hn
    cases hn

theorem not_of_flag (h : Referenced ptr flag) (hn : flag n = false) (u : ℕ) : ptr u ≠ some n := by
  intro hu
  rw [h.hit u n hu] at hn
  cases hn

/-- A mark says exactly whether something points there. -/
theorem marks (h : Referenced ptr flag) (n : ℕ) :
    (flag n = true ↔ ∃! u, ptr u = some n) ∧ (flag n = false ↔ ∀ u, ptr u ≠ some n) := by
  refine ⟨⟨fun hn => ?_, fun hu => ?_⟩, fun hn => h.not_of_flag hn, fun hu => ?_⟩
  · obtain ⟨u, hu⟩ := h.onto n hn
    exact ⟨u, hu, fun v hv => h.inj v u n hv hu⟩
  · obtain ⟨u, hu, -⟩ := hu
    exact h.hit u n hu
  · by_contra hn
    rw [Bool.not_eq_false] at hn
    obtain ⟨u, hu'⟩ := h.onto n hn
    exact hu u hu'

/-- A new pointer at something unmarked. -/
theorem add (h : Referenced ptr flag) (hu : ptr u = none) (hn : flag n = false) :
    Referenced (Function.update ptr u (some n)) (Function.update flag n true) := by
  have hne := h.not_of_flag hn
  refine ⟨fun v k hv => ?_, fun v w k hv hw => ?_, fun k hk => ?_⟩
  · rcases update_some_eq_some.mp hv with ⟨-, rfl⟩ | ⟨-, hv⟩
    · exact Function.update_self _ _ _
    · have hkn : k ≠ n := fun he => hne v (he ▸ hv)
      rw [Function.update_of_ne hkn]
      exact h.hit v k hv
  · rcases update_some_eq_some.mp hv with ⟨rfl, rfl⟩ | ⟨-, hv'⟩ <;>
      rcases update_some_eq_some.mp hw with ⟨rfl, hk⟩ | ⟨-, hw'⟩
    · rfl
    · exact absurd hw' (hne w)
    · exact absurd (hk ▸ hv') (hne v)
    · exact h.inj v w k hv' hw'
  · rcases eq_or_ne k n with rfl | hkn
    · exact ⟨u, Function.update_self _ _ _⟩
    · rw [Function.update_of_ne hkn] at hk
      obtain ⟨v, hv⟩ := h.onto k hk
      exact ⟨v, update_some_eq_some.mpr (Or.inr ⟨ne_of_none hu hv, hv⟩)⟩

/-- A pointer is cleared, and with it the mark. -/
theorem drop (h : Referenced ptr flag) (hu : ptr u = some n) :
    Referenced (Function.update ptr u none) (Function.update flag n false) := by
  refine ⟨fun v k hv => ?_, fun v w k hv hw => ?_, fun k hk => ?_⟩
  · obtain ⟨hvu, hv⟩ := update_none_eq_some.mp hv
    have hkn : k ≠ n := fun he => hvu (h.inj v u k hv (he ▸ hu))
    rw [Function.update_of_ne hkn]
    exact h.hit v k hv
  · exact h.inj v w k (update_none_eq_some.mp hv).2 (update_none_eq_some.mp hw).2
  · have hkn : k ≠ n := by
      rintro rfl
      simp at hk
    rw [Function.update_of_ne hkn] at hk
    obtain ⟨v, hv⟩ := h.onto k hk
    refine ⟨v, update_none_eq_some.mpr ⟨?_, hv⟩⟩
    rintro rfl
    exact hkn (Option.some.inj (hv.symm.trans hu))

end Referenced

/-- What `ptr` points at is live, each object in one place. -/
structure Owned (ptr : ℕ → Option ℕ) (next : ℕ) (freed : List ℕ) : Prop where
  ledger : Ledger (fun i => ∃ u, ptr u = some i) next freed
  inj : ∀ u u' i, ptr u = some i → ptr u' = some i → u = u'

namespace Owned

variable {ptr : ℕ → Option ℕ} {next u i : ℕ} {freed : List ℕ}

theorem empty (h : ∀ u, ptr u = none) : Owned ptr 0 [] := by
  refine ⟨Ledger.empty fun i ⟨u, hu⟩ => ?_, fun u v i hu => ?_⟩
  · rw [h u] at hu
    cases hu
  · rw [h u] at hu
    cases hu

/-- What is not allocated has no place. -/
theorem fresh (h : Owned ptr next freed) (u : ℕ) : ptr u ≠ some next :=
  fun hu => Nat.lt_irrefl _ (h.ledger.lt_next next ⟨u, hu⟩)

/-- A new object in an empty place. -/
theorem alloc (h : Owned ptr next freed) (hu : ptr u = none) :
    Owned (Function.update ptr u (some next)) (next + 1) freed := by
  refine ⟨h.ledger.alloc fun i => ⟨?_, ?_⟩, fun v w i hv hw => ?_⟩
  · rintro ⟨v, hv⟩
    rcases update_some_eq_some.mp hv with ⟨-, rfl⟩ | ⟨-, hv⟩
    · exact Or.inr rfl
    · exact Or.inl ⟨v, hv⟩
  · rintro (⟨v, hv⟩ | rfl)
    · exact ⟨v, update_some_eq_some.mpr (Or.inr ⟨ne_of_none hu hv, hv⟩)⟩
    · exact ⟨u, Function.update_self _ _ _⟩
  · rcases update_some_eq_some.mp hv with ⟨rfl, rfl⟩ | ⟨-, hv'⟩ <;>
      rcases update_some_eq_some.mp hw with ⟨rfl, hi⟩ | ⟨-, hw'⟩
    · rfl
    · exact absurd hw' (h.fresh w)
    · exact absurd (hi ▸ hv') (h.fresh v)
    · exact h.inj v w i hv' hw'

/-- The object in a place is freed. -/
theorem free (h : Owned ptr next freed) (hu : ptr u = some i) :
    Owned (Function.update ptr u none) next (i :: freed) := by
  refine ⟨h.ledger.free ⟨u, hu⟩ fun j => ⟨?_, ?_⟩, fun v w j hv hw => ?_⟩
  · rintro ⟨v, hv⟩
    obtain ⟨hvu, hv⟩ := update_none_eq_some.mp hv
    exact ⟨⟨v, hv⟩, fun he => hvu (h.inj v u i (he ▸ hv) hu)⟩
  · rintro ⟨⟨v, hv⟩, hji⟩
    refine ⟨v, update_none_eq_some.mpr ⟨?_, hv⟩⟩
    rintro rfl
    exact hji (Option.some.inj (hv.symm.trans hu))
  · exact h.inj v w j (update_none_eq_some.mp hv).2 (update_none_eq_some.mp hw).2

/-- An object that never gets a place. -/
theorem alloc_free (h : Owned ptr next freed) : Owned ptr (next + 1) (next :: freed) :=
  ⟨h.ledger.alloc_free, h.inj⟩

end Owned

/-! ### Tables -/

/-- An array of slots, some of them empty. -/
abbrev SlotTable (α : Type*) := List (Option α)

namespace SlotTable

variable {α : Type*} {t : SlotTable α} {i : ℕ} {a : α}

/-- What is in slot `i`. -/
def slot (t : SlotTable α) (i : ℕ) : Option α := t[i]?.join

/-- The first empty slot, or the number of slots. -/
def firstEmpty (t : SlotTable α) : ℕ := t.findIdx Option.isNone

/-- Use slot `i`, the first behind the end if there is no such slot. -/
def put (t : SlotTable α) (i : ℕ) (a : α) : SlotTable α := if i < t.length then t.set i (some a) else t ++ [some a]

theorem lt_length_of_slot (h : slot t i = some a) : i < t.length := by
  by_contra hlt
  unfold slot at h
  rw [List.getElem?_eq_none (Nat.not_lt.mp hlt)] at h
  cases h

theorem slot_set (x : Option α) (h : i < t.length) : slot (t.set i x) = Function.update (slot t) i x := by
  funext j
  unfold slot
  by_cases hj : j = i
  · subst hj
    simp [h]
  · rw [Function.update_of_ne hj, List.getElem?_set_ne (Ne.symm hj)]

theorem slot_append (t : SlotTable α) (x : Option α) :
    slot (t ++ [x]) = Function.update (slot t) t.length x := by
  funext j
  unfold slot
  by_cases hj : j = t.length
  · subst hj
    simp
  · rw [Function.update_of_ne hj]
    rcases Nat.lt_or_gt_of_ne hj with hlt | hgt
    · rw [List.getElem?_append_left hlt]
    · rw [List.getElem?_eq_none (by simpa using hgt), List.getElem?_eq_none hgt.le]

theorem firstEmpty_le (t : SlotTable α) : firstEmpty t ≤ t.length := List.findIdx_le_length

theorem slot_firstEmpty (t : SlotTable α) : slot t (firstEmpty t) = none := by
  unfold slot
  rcases Nat.lt_or_ge (firstEmpty t) t.length with hlt | hge
  · rw [List.getElem?_eq_getElem hlt]
    have hnone : (t[firstEmpty t]).isNone = true := List.findIdx_getElem (w := hlt)
    simpa using hnone
  · rw [List.getElem?_eq_none hge]
    rfl

/-- **First fit.** -/
theorem slot_put (a : α) : slot (put t (firstEmpty t) a) = Function.update (slot t) (firstEmpty t) (some a) := by
  unfold put
  split_ifs with h
  · exact slot_set _ h
  · rw [slot_append, le_antisymm (firstEmpty_le t) (Nat.not_lt.mp h)]

theorem length_put_le (a : α) : (put t i a).length ≤ t.length + 1 := by
  unfold put
  split_ifs <;> simp

end SlotTable

/-! ### Lists with keys -/

namespace Keyed

variable {α : Type*} {key : α → ℕ} {l : List α} {k : ℕ} {a : α}

/-- The element with key `k`. -/
def get (key : α → ℕ) (l : List α) (k : ℕ) : Option α := l.find? fun a => key a = k

theorem key_of_get (h : get key l k = some a) : key a = k := by
  simpa using List.find?_some h

theorem mem_of_get (h : get key l k = some a) : a ∈ l := List.mem_of_find?_eq_some h

theorem get_of_mem (hn : (l.map key).Nodup) (h : a ∈ l) : get key l (key a) = some a := by
  unfold get
  induction l with
  | nil => cases h
  | cons b l ih =>
    rw [List.map_cons, List.nodup_cons] at hn
    rcases List.mem_cons.mp h with rfl | hl
    · simp
    · have hne : key b ≠ key a := fun he => hn.1 (he ▸ List.mem_map_of_mem hl)
      rw [List.find?_cons_of_neg (by simpa using hne)]
      exact ih hn.2 hl

theorem get_eq_none_iff : get key l k = none ↔ k ∉ l.map key := by
  unfold get
  simp [List.find?_eq_none]

/-- A new element at the end. -/
theorem get_append (h : key a ∉ l.map key) : get key (l ++ [a]) = Function.update (get key l) (key a) (some a) := by
  funext j
  unfold get
  rw [List.find?_append]
  by_cases hj : j = key a
  · subst hj
    have hnone : get key l (key a) = none := get_eq_none_iff.mpr h
    unfold get at hnone
    simp [hnone]
  · have hne : ¬ key a = j := fun he => hj he.symm
    simp [hne, hj]

theorem nodup_append (hn : (l.map key).Nodup) (h : key a ∉ l.map key) : ((l ++ [a]).map key).Nodup := by
  rw [List.map_append]
  refine List.Nodup.append hn (List.nodup_singleton _) ?_
  rw [List.disjoint_comm]
  simpa using h

/-- Change the element with key `k`. -/
def modify (key : α → ℕ) (k : ℕ) (f : α → α) (l : List α) : List α := l.map fun a => if key a = k then f a else a

section Modify

variable {f : α → α} (hf : ∀ a, key (f a) = key a)

include hf

theorem key_modify (a : α) : key (if key a = k then f a else a) = key a := by
  split_ifs
  · exact hf a
  · rfl

theorem map_modify : (modify key k f l).map key = l.map key := by
  unfold modify
  rw [List.map_map]
  exact List.map_congr_left fun a _ => key_modify hf a

theorem get_modify : get key (modify key k f l) = Function.update (get key l) k ((get key l k).map f) := by
  funext j
  have hmap : get key (modify key k f l) j = (get key l j).map fun a => if key a = k then f a else a := by
    unfold get modify
    rw [List.find?_map]
    congr 2
    funext a
    exact congrArg (fun x => decide (x = j)) (key_modify hf a)
  rw [hmap]
  cases hg : get key l j with
  | none =>
    by_cases hj : j = k
    · subst hj
      rw [Function.update_self, hg]
      rfl
    · rw [Function.update_of_ne hj, hg]
      rfl
  | some a =>
    have hk := key_of_get hg
    by_cases hj : j = k
    · subst hj
      rw [Function.update_self, hg, Option.map_some, Option.map_some, if_pos hk]
    · rw [Function.update_of_ne hj, hg, Option.map_some, if_neg fun he => hj (hk.symm.trans he)]

end Modify

/-- Remove the element with key `k`. -/
def remove (key : α → ℕ) (k : ℕ) (l : List α) : List α := l.eraseP fun a => key a = k

theorem get_remove (hn : (l.map key).Nodup) : get key (remove key k l) = Function.update (get key l) k none := by
  funext j
  unfold get remove
  induction l with
  | nil => by_cases hj : j = k <;> simp [Function.update, hj]
  | cons b l ih =>
    rw [List.map_cons, List.nodup_cons] at hn
    by_cases hb : key b = k
    · rw [List.eraseP_cons_of_pos (by simpa using hb)]
      by_cases hj : j = k
      · subst hj
        rw [Function.update_self, ← hb]
        exact get_eq_none_iff.mpr hn.1
      · rw [Function.update_of_ne hj, List.find?_cons_of_neg (by simpa [hb] using Ne.symm hj)]
    · rw [List.eraseP_cons_of_neg (by simpa using hb)]
      by_cases hj : key b = j
      · have hjk : j ≠ k := fun he => hb (hj.trans he)
        rw [Function.update_of_ne hjk, List.find?_cons_of_pos (by simpa using hj), List.find?_cons_of_pos (by simpa using hj)]
      · rw [List.find?_cons_of_neg (by simpa using hj), ih hn.2]
        by_cases hjk : j = k
        · subst hjk
          rw [Function.update_self, Function.update_self]
        · rw [Function.update_of_ne hjk, Function.update_of_ne hjk, List.find?_cons_of_neg (by simpa using hj)]

theorem nodup_remove (hn : (l.map key).Nodup) : ((remove key k l).map key).Nodup :=
  hn.sublist (List.eraseP_sublist.map key)

end Keyed
