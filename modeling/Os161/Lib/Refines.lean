/-
# Sequences of calls that refine an abstract machine

A machine hands back a reply to each call and goes on in a new state, or does
not allow the call (`none`). `Prog.each` runs calls of a program one after the
other, `eachStep` the machine. If every call that the machine allows gets the
machine's reply from the program and keeps a relation between the states, so
do all sequences of calls (`Prog.each_refines`).
-/
import Os161.Lib.Prog

variable {ι ρ σ A : Type} {ε : Type*}

/-- The calls on the abstract machine, one after the other. -/
def eachStep (step : A → ι → Option (ρ × A)) : A → List ι → Option (List ρ × A)
  | a, [] => some ([], a)
  | a, i :: is => do
    let x ← step a i
    let y ← eachStep step x.2 is
    return (x.1 :: y.1, y.2)

namespace Prog

/-- The calls of the program, one after the other. -/
def each (run : ι → Prog ε σ ρ) : List ι → Prog ε σ (List ρ)
  | [] => return []
  | i :: is => do
    let r ← run i
    let rs ← each run is
    return r :: rs

/-- **A relation kept by every call is kept by all sequences of calls**, with
the machine's replies. -/
theorem each_refines {run : ι → Prog ε σ ρ} {step : A → ι → Option (ρ × A)} {R : σ → A → Prop} {E : ε → σ → Prop}
    (h : ∀ s a i r b, R s a → step a i = some (r, b) → wp (run i) (fun x t => x = r ∧ R t b) E s) {s : σ} {a b : A}
    {is : List ι} {rs : List ρ} (hs : R s a) (his : eachStep step a is = some (rs, b)) :
    wp (each run is) (fun xs t => xs = rs ∧ R t b) E s := by
  induction is generalizing s a rs with
  | nil =>
    cases his
    exact ⟨rfl, hs⟩
  | cons i is ih =>
    simp only [eachStep, Option.bind_eq_bind, Option.bind_eq_some_iff, Option.pure_def, Option.some.injEq,
      Prod.mk.injEq] at his
    obtain ⟨x, hx, y, hy, rfl, rfl⟩ := his
    rw [each, wp_bind]
    refine wp_mono (h s a i x.1 x.2 hs hx) (fun r t ht => ?_) fun _ _ he => he
    obtain ⟨rfl, ht⟩ := ht
    rw [wp_bind]
    refine wp_mono (ih ht hy) (fun xs u hu => ?_) fun _ _ he => he
    obtain ⟨rfl, hu⟩ := hu
    exact ⟨rfl, hu⟩

end Prog
