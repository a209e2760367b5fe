/-
# Doubly linked lists

`LinkedBoth next prev l`: the nodes of `l`, in order, are linked to each other
in both directions. What the first node has behind it and the last one after
it is not said, so sentinels are nodes like any other.

A node is put between two neighbours (`LinkedBoth.link`) and taken out from
between them (`LinkedBoth.unlink`) by four stores; what is not one of the
three nodes does not see it (`LinkedBoth.congr`).
-/
import Mathlib.Tactic

variable {α : Type*}

/-- The nodes of the list are linked in both directions. -/
def LinkedBoth (next prev : α → Option α) (l : List α) : Prop :=
  l.IsChain fun x y => next x = some y ∧ prev y = some x

namespace LinkedBoth

variable {next prev next' prev' : α → Option α} {l a m : List α} {x y z : α}

theorem split : LinkedBoth next prev (a ++ x :: m) ↔ LinkedBoth next prev (a ++ [x]) ∧ LinkedBoth next prev (x :: m) :=
  List.isChain_split

theorem cons_cons :
    LinkedBoth next prev (x :: y :: m) ↔ (next x = some y ∧ prev y = some x) ∧ LinkedBoth next prev (y :: m) :=
  List.isChain_cons_cons

/-- Neighbours point at each other. -/
theorem neighbours (h : LinkedBoth next prev (a ++ x :: y :: m)) : next x = some y ∧ prev y = some x :=
  (cons_cons.mp (split.mp h).2).1

/-- The links a list does not use: those forward from its last node and those
back from its first. -/
theorem congr_left (h : LinkedBoth next prev (a ++ [x])) (hn : ∀ u ∈ a, next' u = next u)
    (hp : ∀ u ∈ a ++ [x], prev' u = prev u) : LinkedBoth next' prev' (a ++ [x]) := by
  induction a with
  | nil => exact List.isChain_singleton x
  | cons u a ih =>
    obtain ⟨v, b, hb⟩ : ∃ v b, a ++ [x] = v :: b := List.exists_cons_of_ne_nil (by simp)
    have hrest := ih
    rw [List.cons_append, hb] at h ⊢
    rw [hb] at hrest
    obtain ⟨⟨h1, h2⟩, h3⟩ := cons_cons.mp h
    have hv : v ∈ u :: a ++ [x] := by
      rw [List.cons_append, hb]
      simp
    refine cons_cons.mpr ⟨⟨(hn u List.mem_cons_self).trans h1, (hp v hv).trans h2⟩, ?_⟩
    exact hrest h3 (fun w hw => hn w (List.mem_cons_of_mem u hw)) fun w hw => hp w (by
      rw [List.cons_append, hb]
      exact List.mem_cons_of_mem u hw)

@[inherit_doc congr_left]
theorem congr_right (h : LinkedBoth next prev (y :: m)) (hn : ∀ u ∈ y :: m, next' u = next u)
    (hp : ∀ u ∈ m, prev' u = prev u) : LinkedBoth next' prev' (y :: m) := by
  induction m generalizing y with
  | nil => exact List.isChain_singleton y
  | cons v m ih =>
    obtain ⟨⟨h1, h2⟩, h3⟩ := cons_cons.mp h
    refine cons_cons.mpr ⟨⟨(hn y List.mem_cons_self).trans h1, (hp v List.mem_cons_self).trans h2⟩, ?_⟩
    exact ih h3 (fun w hw => hn w (List.mem_cons_of_mem y hw)) fun w hw => hp w (List.mem_cons_of_mem v hw)

/-- A list uses the links of its own nodes only. -/
theorem congr (h : LinkedBoth next prev l) (hn : ∀ u ∈ l, next' u = next u) (hp : ∀ u ∈ l, prev' u = prev u) :
    LinkedBoth next' prev' l := by
  cases l with
  | nil => exact List.isChain_nil
  | cons y m => exact congr_right h hn fun u hu => hp u (List.mem_cons_of_mem y hu)

/-- The nodes of a list without repetition, seen from two neighbours. -/
theorem ne_of_nodup (h : (a ++ x :: y :: m).Nodup) :
    x ≠ y ∧ (∀ u ∈ a, u ≠ x ∧ u ≠ y) ∧ ∀ u ∈ m, u ≠ x ∧ u ≠ y := by
  simp only [List.nodup_append, List.nodup_cons, List.mem_cons, not_or] at h
  obtain ⟨-, ⟨⟨hxy, hxm⟩, hym, -⟩, hdis⟩ := h
  refine ⟨hxy, fun u hu => ⟨hdis u hu x (Or.inl rfl), hdis u hu y (Or.inr (Or.inl rfl))⟩, fun u hu => ⟨?_, ?_⟩⟩
  · rintro rfl
    exact hxm hu
  · rintro rfl
    exact hym hu

end LinkedBoth

section Stores

variable [DecidableEq α]

/-- The links forward after `z` came between `x` and `y`. -/
def linkNext (next : α → Option α) (x z y : α) : α → Option α :=
  Function.update (Function.update next z (some y)) x (some z)

/-- The links back after `z` came between `x` and `y`. -/
def linkPrev (prev : α → Option α) (x z y : α) : α → Option α :=
  Function.update (Function.update prev z (some x)) y (some z)

/-- The links forward after `z` went from between `x` and `y`. -/
def unlinkNext (next : α → Option α) (x z y : α) : α → Option α :=
  Function.update (Function.update next x (some y)) z none

/-- The links back after `z` went from between `x` and `y`. -/
def unlinkPrev (prev : α → Option α) (x z y : α) : α → Option α :=
  Function.update (Function.update prev y (some x)) z none

variable {next prev : α → Option α} {a m : List α} {x y z u : α}

theorem linkNext_of_ne (hx : u ≠ x) (hz : u ≠ z) : linkNext next x z y u = next u := by
  simp [linkNext, hx, hz]

theorem linkPrev_of_ne (hy : u ≠ y) (hz : u ≠ z) : linkPrev prev x z y u = prev u := by
  simp [linkPrev, hy, hz]

theorem unlinkNext_of_ne (hx : u ≠ x) (hz : u ≠ z) : unlinkNext next x z y u = next u := by
  simp [unlinkNext, hx, hz]

theorem unlinkPrev_of_ne (hy : u ≠ y) (hz : u ≠ z) : unlinkPrev prev x z y u = prev u := by
  simp [unlinkPrev, hy, hz]

/-- **A node is put between two neighbours.** -/
theorem LinkedBoth.link (h : LinkedBoth next prev (a ++ x :: y :: m)) (hnd : (a ++ x :: y :: m).Nodup)
    (hz : z ∉ a ++ x :: y :: m) : LinkedBoth (linkNext next x z y) (linkPrev prev x z y) (a ++ x :: z :: y :: m) := by
  obtain ⟨hxy, ha, hm⟩ := LinkedBoth.ne_of_nodup hnd
  simp only [List.mem_append, List.mem_cons, not_or] at hz
  obtain ⟨hza, hzx, hzy, hzm⟩ := hz
  obtain ⟨hleft, hright⟩ := LinkedBoth.split.mp h
  refine LinkedBoth.split.mpr ⟨hleft.congr_left (fun u hu => ?_) (fun u hu => ?_), ?_⟩
  · exact linkNext_of_ne (ha u hu).1 fun he => hza (he ▸ hu)
  · rcases List.mem_append.mp hu with hu | hu
    · exact linkPrev_of_ne (ha u hu).2 fun he => hza (he ▸ hu)
    · rw [List.mem_singleton.mp hu]
      exact linkPrev_of_ne hxy (Ne.symm hzx)
  · refine LinkedBoth.cons_cons.mpr ⟨⟨by simp [linkNext], by simp [linkPrev, hzy]⟩, ?_⟩
    refine LinkedBoth.cons_cons.mpr ⟨⟨by simp [linkNext, hzx], by simp [linkPrev]⟩, ?_⟩
    refine (LinkedBoth.cons_cons.mp hright).2.congr_right (fun u hu => ?_) fun u hu => ?_
    · rcases List.mem_cons.mp hu with rfl | hu
      · exact linkNext_of_ne (Ne.symm hxy) (Ne.symm hzy)
      · exact linkNext_of_ne (hm u hu).1 fun he => hzm (he ▸ hu)
    · exact linkPrev_of_ne (hm u hu).2 fun he => hzm (he ▸ hu)

/-- **A node is taken out from between its neighbours.** -/
theorem LinkedBoth.unlink (h : LinkedBoth next prev (a ++ x :: z :: y :: m)) (hnd : (a ++ x :: y :: m).Nodup)
    (hz : z ∉ a ++ x :: y :: m) : LinkedBoth (unlinkNext next x z y) (unlinkPrev prev x z y) (a ++ x :: y :: m) := by
  obtain ⟨hxy, ha, hm⟩ := LinkedBoth.ne_of_nodup hnd
  simp only [List.mem_append, List.mem_cons, not_or] at hz
  obtain ⟨hza, hzx, hzy, hzm⟩ := hz
  obtain ⟨hleft, hright⟩ := LinkedBoth.split.mp h
  have hrest := (LinkedBoth.cons_cons.mp (LinkedBoth.cons_cons.mp hright).2).2
  refine LinkedBoth.split.mpr ⟨hleft.congr_left (fun u hu => ?_) (fun u hu => ?_), ?_⟩
  · exact unlinkNext_of_ne (ha u hu).1 fun he => hza (he ▸ hu)
  · rcases List.mem_append.mp hu with hu | hu
    · exact unlinkPrev_of_ne (ha u hu).2 fun he => hza (he ▸ hu)
    · rw [List.mem_singleton.mp hu]
      exact unlinkPrev_of_ne hxy (Ne.symm hzx)
  · refine LinkedBoth.cons_cons.mpr ⟨⟨by simp [unlinkNext, Ne.symm hzx], by simp [unlinkPrev, Ne.symm hzy]⟩, ?_⟩
    refine hrest.congr_right (fun u hu => ?_) fun u hu => ?_
    · rcases List.mem_cons.mp hu with rfl | hu
      · exact unlinkNext_of_ne (Ne.symm hxy) (Ne.symm hzy)
      · exact unlinkNext_of_ne (hm u hu).1 fun he => hzm (he ▸ hu)
    · exact unlinkPrev_of_ne (hm u hu).2 fun he => hzm (he ▸ hu)

end Stores
