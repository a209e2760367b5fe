/-
# Chains of pointers

A partial function `next` sends each node to at most one other. The walk from
a node ends if it is accessible (`Ends`); where every walk ends there is no
cycle (`Ends.not_cycle`). A new link keeps every walk finite unless its target
reaches its source (`ends_update`), and links that are taken away, or moved to
a node without one, do no harm (`ends_mono`, `ends_redirect`).
-/
import Mathlib.Tactic

namespace Chain

variable {α : Type*}

/-- `b` is the node after `a`. -/
def Link (next : α → Option α) (a b : α) : Prop := next a = some b

/-- The walk from `a` ends. -/
def Ends (next : α → Option α) (a : α) : Prop := Acc (fun b a => Link next a b) a

/-- `b` is on the walk from `a`. -/
def Reaches (next : α → Option α) : α → α → Prop := Relation.ReflTransGen (Link next)

/-- No walk comes back to its start. -/
def Acyclic (next : α → Option α) : Prop := ∀ a, ¬ Relation.TransGen (Link next) a a

variable {next next' : α → Option α} {a b : α}

/-- A walk that ends does not come back. -/
theorem Ends.not_cycle (h : Ends next a) : ¬ Relation.TransGen (Link next) a a := by
  induction h with
  | intro a _ ih =>
    intro hc
    obtain ⟨b, hab, hba⟩ := Relation.TransGen.head'_iff.mp hc
    exact ih b hab (Relation.TransGen.tail' hba hab)

theorem Ends.of_none (h : next a = none) : Ends next a :=
  Acc.intro a fun b hb => by
    unfold Link at hb
    rw [h] at hb
    cases hb

theorem Ends.cons (h : next a = some b) (hb : Ends next b) : Ends next a :=
  Acc.intro a fun c hc => by
    unfold Link at hc
    rw [h] at hc
    cases hc
    exact hb

/-- Fewer links. -/
theorem ends_mono (h : ∀ a b, next' a = some b → next a = some b) (ha : Ends next a) : Ends next' a :=
  Subrelation.accessible (fun {b a} hb => h a b hb) ha

/-- Links that change lead nowhere, or to a node without a link. -/
theorem ends_redirect (h : ∀ c, next' c = next c ∨ next' c = none ∨ ∃ d, next' c = some d ∧ next' d = none)
    (ha : Ends next a) : Ends next' a := by
  induction ha with
  | intro a _ ih =>
    rcases h a with hs | hn | ⟨d, hd, hn⟩
    · cases hb : next a with
      | none => exact Ends.of_none (hs.trans hb)
      | some b => exact Ends.cons (hs.trans hb) (ih b hb)
    · exact Ends.of_none hn
    · exact Ends.cons hd (Ends.of_none hn)

section Update

variable [DecidableEq α]

/-- A walk that does not meet the new link is as it was. -/
theorem ends_update_of_not_reaches (hc : Ends next b) {c : Option α} (h : ¬ Reaches next b a) :
    Ends (Function.update next a c) b := by
  induction hc with
  | intro b _ ih =>
    have hne : b ≠ a := by
      rintro rfl
      exact h Relation.ReflTransGen.refl
    have hs : Function.update next a c b = next b := Function.update_of_ne hne _ _
    cases hb : next b with
    | none => exact Ends.of_none (hs.trans hb)
    | some d => exact Ends.cons (hs.trans hb) (ih d hb fun hd => h (Relation.ReflTransGen.head hb hd))

/-- **A new link** from `a` to `b`, which does not reach `a`. -/
theorem ends_update (hall : ∀ c, Ends next c) (h : ¬ Reaches next b a) (c : α) :
    Ends (Function.update next a (some b)) c := by
  have hb := ends_update_of_not_reaches (c := some b) (hall b) h
  have ha : Ends (Function.update next a (some b)) a := Ends.cons (Function.update_self _ _ _) hb
  have hc := hall c
  induction hc with
  | intro c _ ih =>
    by_cases hca : c = a
    · rw [hca]
      exact ha
    · have hs : Function.update next a (some b) c = next c := Function.update_of_ne hca _ _
      cases hd : next c with
      | none => exact Ends.of_none (hs.trans hd)
      | some d => exact Ends.cons (hs.trans hd) (ih d hd)

/-- A walk to `a` is there with any link from `a`. -/
theorem Reaches.update (h : Reaches next b a) (c : Option α) : Reaches (Function.update next a c) b a := by
  induction h using Relation.ReflTransGen.head_induction_on with
  | refl => exact Relation.ReflTransGen.refl
  | @head b d hbd _ ih =>
    by_cases hba : b = a
    · rw [hba]
      exact Relation.ReflTransGen.refl
    · exact Relation.ReflTransGen.head ((Function.update_of_ne hba _ _).trans hbd) ih

/-- **A new link closes a cycle** exactly if its target reaches its source. -/
theorem acyclic_update_iff (hall : ∀ c, Ends next c) :
    Acyclic (Function.update next a (some b)) ↔ ¬ Reaches next b a := by
  constructor
  · intro hac hr
    exact hac a (Relation.TransGen.head' (Function.update_self _ _ _) (hr.update _))
  · exact fun h c => (ends_update hall h c).not_cycle

end Update

end Chain
