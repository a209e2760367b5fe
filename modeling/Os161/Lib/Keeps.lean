/-
# What a program keeps

`Keeps R S m`: whatever state `m` starts in, the states it returns or fails in
are related to the first by the preorder `R`; with `S` false it does not stop.
It is a class: a program built from others keeps what they keep, and the
instances put that together along the program's text.
-/
import Os161.Lib.Wlp

namespace Prog

universe u

variable {ε σ : Type*} {α β : Type u} {R : σ → σ → Prop}

/-- The state an outcome hands back, if any, is related to `s`; it is a stop
only if `S`. -/
def Related (R : σ → σ → Prop) (S : Prop) (s : σ) : Outcome ε σ α → Prop
  | .ok _ t => R s t
  | .fail _ t => R s t
  | .stop => S

/-- `m` keeps `R`, also when it fails, and stops only if `S`. -/
class Keeps (R : σ → σ → Prop) (S : Prop) (m : Prog ε σ α) : Prop where
  keeps : ∀ s, Related R S s (m s)

variable {S : Prop}

theorem Keeps.wp {m : Prog ε σ α} (h : Keeps R False m) (s : σ) : wp m (fun _ t => R s t) (fun _ t => R s t) s :=
  h.keeps s

section Instances

variable [IsPreorder σ R]

instance Keeps.pure (a : α) : Keeps R S (Pure.pure a : Prog ε σ α) := ⟨fun s => refl_of R s⟩

instance Keeps.fail (e : ε) : Keeps R S (Prog.fail e : Prog ε σ α) := ⟨fun s => refl_of R s⟩

instance Keeps.get : Keeps R S (Prog.get : Prog ε σ σ) := ⟨fun s => refl_of R s⟩

instance Keeps.gets (f : σ → α) : Keeps R S (Prog.gets f : Prog ε σ α) := ⟨fun s => refl_of R s⟩

omit [IsPreorder σ R] in
theorem Related.trans [IsTrans σ R] {s t : σ} (h : R s t) {o : Outcome ε σ α} (ho : Related R S t o) :
    Related R S s o := by
  cases o with
  | ok a u => exact trans_of R h ho
  | fail e u => exact trans_of R h ho
  | stop => exact ho

instance Keeps.bind (m : Prog ε σ β) (f : β → Prog ε σ α) [hm : Keeps R S m] [hf : ∀ b, Keeps R S (f b)] :
    Keeps R S (m >>= f) := by
  refine ⟨fun s => ?_⟩
  have hs := hm.keeps s
  change Related R S s (andThen m f s)
  unfold andThen
  cases h : m s with
  | ok b t =>
    rw [h] at hs
    exact Related.trans hs ((hf b).keeps t)
  | fail e t =>
    rw [h] at hs
    exact hs
  | stop =>
    rw [h] at hs
    exact hs

omit [IsPreorder σ R] in
instance Keeps.ite (p : Prop) [Decidable p] (m n : Prog ε σ α) [hm : Keeps R S m] [hn : Keeps R S n] :
    Keeps R S (if p then m else n) := by
  split_ifs
  · exact hm
  · exact hn

instance Keeps.forUp (n : ℕ) (f : ℕ → Prog ε σ Unit) [hf : ∀ i, Keeps R S (f i)] : Keeps R S (Prog.forUp n f) := by
  induction n with
  | zero =>
    rw [forUp_zero]
    infer_instance
  | succ n ih =>
    rw [Prog.forUp]
    infer_instance

instance Keeps.foldUp (n : ℕ) (f : ℕ → α → Prog ε σ α) (a : α) [hf : ∀ i a, Keeps R S (f i a)] :
    Keeps R S (Prog.foldUp n f a) := by
  induction n with
  | zero =>
    rw [Prog.foldUp]
    infer_instance
  | succ n ih =>
    rw [Prog.foldUp]
    infer_instance

end Instances

theorem Keeps.mono {R' : σ → σ → Prop} {m : Prog ε σ α} (h : Keeps R S m) (hR : ∀ s t, R s t → R' s t) :
    Keeps R' S m := by
  refine ⟨fun s => ?_⟩
  have hs := h.keeps s
  cases ho : m s with
  | ok a t =>
    rw [ho] at hs
    exact hR s t hs
  | fail e t =>
    rw [ho] at hs
    exact hR s t hs
  | stop =>
    rw [ho] at hs
    exact hs

theorem Keeps.modify {f : σ → σ} (h : ∀ s, R s (f s)) : Keeps R S (Prog.modify f : Prog ε σ Unit) := ⟨h⟩

end Prog
