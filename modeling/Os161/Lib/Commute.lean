/-
# Programs that do not look at a part of the state

A map `f` of the states stands for a change of the part that a program should
not depend on. `Prog.Commutes f m`: run from `f s` instead of `s`, `m` ends in
the same way, in a state changed by `f`. So `m` neither reads nor writes that
part. The rules follow the program's text; they are those of `Prog.Maps`, where
the two states may be of different types and the two programs different ones.

Key definitions: `Prog.Maps`, `Prog.Commutes`. Key theorem: `Prog.Maps.bind`.
-/
import Os161.Lib.Prog

/-- The outcome with its state mapped. -/
def Outcome.map {ε σ τ α : Type*} (f : σ → τ) : Outcome ε σ α → Outcome ε τ α
  | .ok a s => .ok a (f s)
  | .fail e s => .fail e (f s)
  | .stop => .stop

namespace Prog

universe u

variable {ε σ τ : Type*} {α β : Type u}

/-- Run from `f s`, `m'` does what `m` does from `s`. -/
def Maps (f : σ → τ) (m : Prog ε σ α) (m' : Prog ε τ α) : Prop := ∀ s, m' (f s) = (m s).map f

namespace Maps

variable {f : σ → τ}

theorem pure (a : α) : Maps f (Pure.pure a : Prog ε σ α) (Pure.pure a) := fun _ => rfl

theorem fail (e : ε) : Maps f (Prog.fail e : Prog ε σ α) (Prog.fail e) := fun _ => rfl

theorem stop : Maps f (Prog.stop : Prog ε σ α) Prog.stop := fun _ => rfl

theorem bind {m : Prog ε σ β} {m' : Prog ε τ β} {k : β → Prog ε σ α} {k' : β → Prog ε τ α} (hm : Maps f m m')
    (hk : ∀ b, Maps f (k b) (k' b)) : Maps f (m >>= k) (m' >>= k') := by
  intro s
  show andThen m' k' (f s) = (andThen m k s).map f
  unfold andThen
  rw [hm s]
  cases m s with
  | ok b t => exact hk b t
  | fail e t => rfl
  | stop => rfl

theorem gets {g : σ → α} {g' : τ → α} (h : ∀ s, g' (f s) = g s) :
    Maps f (Prog.gets g : Prog ε σ α) (Prog.gets g') := by
  intro s
  show Outcome.ok (g' (f s)) (f s) = _
  rw [h s]
  rfl

theorem modify {g : σ → σ} {g' : τ → τ} (h : ∀ s, g' (f s) = f (g s)) :
    Maps f (Prog.modify g : Prog ε σ Unit) (Prog.modify g') := by
  intro s
  show Outcome.ok () (g' (f s)) = _
  rw [h s]
  rfl

theorem assert (p : Prop) [Decidable p] : Maps f (Prog.assert p : Prog ε σ Unit) (Prog.assert p) := by
  intro s
  unfold Prog.assert
  split_ifs <;> rfl

theorem ite (p : Prop) [Decidable p] {m k : Prog ε σ α} {m' k' : Prog ε τ α} (hm : p → Maps f m m')
    (hk : ¬ p → Maps f k k') : Maps f (if p then m else k) (if p then m' else k') := by
  split_ifs with h
  · exact hm h
  · exact hk h

theorem forUp {g : ℕ → Prog ε σ Unit} {g' : ℕ → Prog ε τ Unit} (h : ∀ i, Maps f (g i) (g' i)) :
    ∀ n, Maps f (Prog.forUp n g) (Prog.forUp n g')
  | 0 => by
    unfold Prog.forUp
    exact Maps.pure ()
  | n + 1 => by
    unfold Prog.forUp
    exact Maps.bind (forUp h n) fun _ => h n

end Maps

variable {f : σ → σ}

/-- `m` does the same after a change of the state by `f`. -/
def Commutes (f : σ → σ) (m : Prog ε σ α) : Prop := ∀ s, m (f s) = (m s).map f

namespace Commutes

theorem pure (a : α) : Commutes f (Pure.pure a : Prog ε σ α) := Maps.pure a

theorem fail (e : ε) : Commutes f (Prog.fail e : Prog ε σ α) := Maps.fail e

theorem stop : Commutes f (Prog.stop : Prog ε σ α) := Maps.stop

theorem bind {m : Prog ε σ β} {k : β → Prog ε σ α} (hm : Commutes f m) (hk : ∀ b, Commutes f (k b)) :
    Commutes f (m >>= k) := Maps.bind hm hk

theorem gets {g : σ → α} (h : ∀ s, g (f s) = g s) : Commutes f (Prog.gets g : Prog ε σ α) := Maps.gets h

theorem modify {g : σ → σ} (h : ∀ s, g (f s) = f (g s)) : Commutes f (Prog.modify g : Prog ε σ Unit) := Maps.modify h

theorem assert (p : Prop) [Decidable p] : Commutes f (Prog.assert p : Prog ε σ Unit) := Maps.assert p

theorem ite (p : Prop) [Decidable p] {m k : Prog ε σ α} (hm : p → Commutes f m) (hk : ¬ p → Commutes f k) :
    Commutes f (if p then m else k) := Maps.ite p hm hk

theorem forUp {g : ℕ → Prog ε σ Unit} (h : ∀ i, Commutes f (g i)) (n : ℕ) : Commutes f (Prog.forUp n g) :=
  Maps.forUp h n

/-- A postcondition may be proved on the changed state. -/
theorem wp_iff {m : Prog ε σ α} {Q : α → σ → Prop} {E : ε → σ → Prop} {s : σ} (h : Commutes f m) :
    wp m Q E (f s) ↔ wp m (fun a t => Q a (f t)) (fun e t => E e (f t)) s := by
  unfold wp
  rw [h s]
  cases m s <;> rfl

theorem run_ok {m : Prog ε σ α} {s t : σ} {a : α} (h : Commutes f m) (hm : m s = .ok a t) : m (f s) = .ok a (f t) := by
  rw [h s, hm]
  rfl

/-- A program that starts by reading the state. -/
theorem get_bind {σ : Type u} {f : σ → σ} {k : σ → Prog ε σ α} (h : ∀ s, k (f s) (f s) = (k s s).map f) :
    Commutes f (Prog.get >>= k) := h

end Commutes

end Prog
