/-
# Programs that return, fail or stop

A call of C code over a state `σ` returns, returns an error code, or stops
the machine (a failed assertion). `Prog ε σ α` is such a call: a failed call
hands back the state it left, as C code that returns an error half way does,
and a stopped one hands back nothing.

`wp m Q E s` says that `m` run from `s` does not stop, ends in `Q` when it
returns and in `E` when it fails. Every rule below is an equivalence or the
monotonicity of `wp`, so a proof about a program follows the program's text:
the `wp_*` lemmas take it apart statement by statement, and a call is replaced
by its specification with `wp_mono`.

Key definitions: `Prog`, `Prog.wp`, `Prog.forUp`, `Prog.zoom`.
Key theorems: `Prog.wp_bind`, `Prog.wp_mono`, `Prog.wp_forUp`, `Prog.wp_foldUp`.
-/
import Mathlib.Tactic

/-- How a run ends. -/
inductive Outcome (ε σ α : Type*)
  | ok (a : α) (s : σ)
  | fail (e : ε) (s : σ)
  | stop

/-- A call over the state `σ` with error codes `ε`. -/
def Prog (ε σ α : Type*) := σ → Outcome ε σ α

namespace Prog

universe u

variable {ε ε' σ τ : Type*} {α β : Type u}

/-- Run `m`, then `f` on its value. -/
def andThen (m : Prog ε σ α) (f : α → Prog ε σ β) : Prog ε σ β := fun s =>
  match m s with
  | .ok a t => f a t
  | .fail e t => .fail e t
  | .stop => .stop

instance : Monad (Prog ε σ) where
  pure a := fun s => .ok a s
  bind := andThen

theorem andThen_pure (m : Prog ε σ α) : andThen m pure = m := by
  funext s
  unfold andThen
  cases m s <;> rfl

/-- Return the error code `e`. -/
def fail (e : ε) : Prog ε σ α := fun s => .fail e s

/-- The machine stops. -/
def stop : Prog ε σ α := fun _ => .stop

/-- An assertion of the code: the machine stops unless `p`. -/
def assert (p : Prop) [Decidable p] : Prog ε σ Unit := fun s => if p then .ok () s else .stop

/-- The state. -/
def get : Prog ε σ σ := fun s => .ok s s

/-- A part of the state. -/
def gets (f : σ → α) : Prog ε σ α := fun s => .ok (f s) s

/-- Update the state. -/
def modify (f : σ → σ) : Prog ε σ Unit := fun s => .ok () (f s)

/-- Run `m` and hand back its result code instead of passing it on. -/
def attempt (m : Prog ε σ α) : Prog ε' σ (Except ε α) := fun s =>
  match m s with
  | .ok a t => .ok (.ok a) t
  | .fail e t => .ok (.error e) t
  | .stop => .stop

/-- Run a program over a part `σ` of the state `τ`, read by `g` and put back
by `p`. -/
def zoom (g : τ → σ) (p : σ → τ → τ) (m : Prog ε σ α) : Prog ε τ α := fun t =>
  match m (g t) with
  | .ok a s => .ok a (p s t)
  | .fail e s => .fail e (p s t)
  | .stop => .stop

/-- `f 0`, then `f 1`, up to `f (n - 1)`. -/
def forUp : ℕ → (ℕ → Prog ε σ Unit) → Prog ε σ Unit
  | 0, _ => pure ()
  | n + 1, f => forUp n f >>= fun _ => f n

/-- A loop with local variables `a`: `f 0`, then `f 1`, up to `f (n - 1)`. -/
def foldUp : ℕ → (ℕ → α → Prog ε σ α) → α → Prog ε σ α
  | 0, _, a => pure a
  | n + 1, f, a => foldUp n f a >>= f n

theorem forUp_zero (f : ℕ → Prog ε σ Unit) : forUp 0 f = pure () := rfl

theorem forUp_one (f : ℕ → Prog ε σ Unit) : forUp 1 f = f 0 := rfl

/-- `m` run from `s` does not stop, and ends in `Q` or, failing, in `E`. -/
def wp (m : Prog ε σ α) (Q : α → σ → Prop) (E : ε → σ → Prop) (s : σ) : Prop :=
  match m s with
  | .ok a t => Q a t
  | .fail e t => E e t
  | .stop => False

section Rules

variable {Q : α → σ → Prop} {E : ε → σ → Prop} {s : σ}

@[simp] theorem wp_pure (a : α) : wp (pure a : Prog ε σ α) Q E s ↔ Q a s := Iff.rfl

@[simp] theorem wp_bind (m : Prog ε σ β) (f : β → Prog ε σ α) :
    wp (m >>= f) Q E s ↔ wp m (fun a t => wp (f a) Q E t) E s := by
  show wp (andThen m f) Q E s ↔ _
  unfold wp andThen
  cases m s <;> rfl

@[simp] theorem wp_fail (e : ε) : wp (fail e : Prog ε σ α) Q E s ↔ E e s := Iff.rfl

@[simp] theorem wp_stop : wp (stop : Prog ε σ α) Q E s ↔ False := Iff.rfl

@[simp] theorem wp_assert (p : Prop) [Decidable p] (Q : Unit → σ → Prop) :
    wp (assert p : Prog ε σ Unit) Q E s ↔ p ∧ Q () s := by
  unfold wp assert
  split_ifs with h <;> simp [h]

@[simp] theorem wp_get (Q : σ → σ → Prop) : wp (get : Prog ε σ σ) Q E s ↔ Q s s := Iff.rfl

@[simp] theorem wp_gets (f : σ → α) : wp (gets f : Prog ε σ α) Q E s ↔ Q (f s) s := Iff.rfl

@[simp] theorem wp_modify (f : σ → σ) (Q : Unit → σ → Prop) :
    wp (modify f : Prog ε σ Unit) Q E s ↔ Q () (f s) := Iff.rfl

@[simp] theorem wp_ite (p : Prop) [Decidable p] (m n : Prog ε σ α) :
    wp (if p then m else n) Q E s ↔ (p → wp m Q E s) ∧ (¬ p → wp n Q E s) := by
  split_ifs with h <;> simp [h]

@[simp] theorem wp_attempt (m : Prog ε σ α) (Q : Except ε α → σ → Prop) (E' : ε' → σ → Prop) :
    wp (attempt m : Prog ε' σ (Except ε α)) Q E' s ↔
      wp m (fun a t => Q (.ok a) t) (fun e t => Q (.error e) t) s := by
  unfold wp attempt
  cases m s <;> rfl

@[simp] theorem wp_zoom (g : τ → σ) (p : σ → τ → τ) (m : Prog ε σ α) (Q : α → τ → Prop)
    (E : ε → τ → Prop) (t : τ) :
    wp (zoom g p m) Q E t ↔ wp m (fun a s => Q a (p s t)) (fun e s => E e (p s t)) (g t) := by
  unfold wp zoom
  cases m (g t) <;> rfl

/-- A weaker postcondition. -/
theorem wp_mono {m : Prog ε σ α} {Q' : α → σ → Prop} {E' : ε → σ → Prop} (h : wp m Q E s)
    (hQ : ∀ a t, Q a t → Q' a t) (hE : ∀ e t, E e t → E' e t) : wp m Q' E' s := by
  unfold wp at h ⊢
  cases hm : m s with
  | ok a t => rw [hm] at h; exact hQ a t h
  | fail e t => rw [hm] at h; exact hE e t h
  | stop => rw [hm] at h; exact h

/-- What a call established and what its caller needs, together. -/
theorem wp_and {m : Prog ε σ α} {Q' : α → σ → Prop} {E' : ε → σ → Prop} (h : wp m Q E s)
    (h' : wp m Q' E' s) : wp m (fun a t => Q a t ∧ Q' a t) (fun e t => E e t ∧ E' e t) s := by
  unfold wp at h h' ⊢
  cases hm : m s with
  | ok a t => rw [hm] at h h'; exact ⟨h, h'⟩
  | fail e t => rw [hm] at h h'; exact ⟨h, h'⟩
  | stop => rw [hm] at h; exact h

/-- No run ends nowhere. -/
theorem wp_absurd {m : Prog ε σ α} (h : wp m Q E s) (hQ : ∀ a t, ¬ Q a t) (hE : ∀ e t, ¬ E e t) : False := by
  unfold wp at h
  cases hm : m s with
  | ok a t => rw [hm] at h; exact hQ a t h
  | fail e t => rw [hm] at h; exact hE e t h
  | stop => rw [hm] at h; exact h

/-- **The loop rule.** `I i` holds before iteration `i`; an iteration keeps
it, or fails in `E`. -/
theorem wp_forUp {n : ℕ} {f : ℕ → Prog ε σ Unit} {I : ℕ → σ → Prop} (h0 : I 0 s)
    (hstep : ∀ i < n, ∀ t, I i t → wp (f i) (fun _ => I (i + 1)) E t) :
    wp (forUp n f) (fun _ => I n) E s := by
  induction n with
  | zero => exact h0
  | succ n ih =>
    rw [forUp, wp_bind]
    refine wp_mono (ih fun i hi => hstep i (by omega)) (fun _ t ht => ?_) fun _ _ h => h
    exact hstep n (by omega) t ht

/-- **The rule of a loop with local variables.** -/
theorem wp_foldUp {n : ℕ} {f : ℕ → α → Prog ε σ α} {I : ℕ → α → σ → Prop} {a : α} (h0 : I 0 a s)
    (hstep : ∀ i < n, ∀ b t, I i b t → wp (f i b) (I (i + 1)) E t) : wp (foldUp n f a) (I n) E s := by
  induction n with
  | zero => exact h0
  | succ n ih =>
    rw [foldUp, wp_bind]
    refine wp_mono (ih fun i hi => hstep i (by omega)) (fun b t ht => ?_) fun _ _ h => h
    exact hstep n (by omega) b t ht

/-- A loop whose variables are those of another loop, seen through `r`. -/
theorem wp_foldUp_map {n : ℕ} {f : ℕ → α → Prog ε σ α} {g : ℕ → β → Prog ε σ β} (r : β → α)
    (h : ∀ i b Q s, wp (f i (r b)) Q E s ↔ wp (g i b) (fun b' => Q (r b')) E s) {b : β} :
    wp (foldUp n f (r b)) Q E s ↔ wp (foldUp n g b) (fun b' => Q (r b')) E s := by
  induction n generalizing Q with
  | zero => exact Iff.rfl
  | succ n ih =>
    rw [foldUp, foldUp, wp_bind, wp_bind, ih]
    exact iff_of_eq (congrArg (fun R => wp (foldUp n g b) R E s) (funext fun b' => funext fun t => propext (h n b' Q t)))

end Rules

/-! ### Partial correctness -/

/-- If `m` run from `s` returns, it ends in `Q`. -/
def Returns (m : Prog ε σ α) (Q : α → σ → Prop) (s : σ) : Prop := ∀ a t, m s = .ok a t → Q a t

section Partial

variable {Q : α → σ → Prop} {s : σ}

theorem wp_returns {m : Prog ε σ α} {E : ε → σ → Prop} (h : wp m Q E s) : Returns m Q s := by
  intro a t hm
  unfold wp at h
  rwa [hm] at h

@[simp] theorem returns_pure (a : α) : Returns (pure a : Prog ε σ α) Q s ↔ Q a s :=
  ⟨fun h => h a s rfl, fun h b t hb => by cases hb; exact h⟩

@[simp] theorem returns_fail (e : ε) : Returns (fail e : Prog ε σ α) Q s ↔ True :=
  ⟨fun _ => trivial, fun _ b t hb => by cases hb⟩

@[simp] theorem returns_stop : Returns (stop : Prog ε σ α) Q s ↔ True :=
  ⟨fun _ => trivial, fun _ b t hb => by cases hb⟩

@[simp] theorem returns_gets (f : σ → α) : Returns (gets f : Prog ε σ α) Q s ↔ Q (f s) s :=
  ⟨fun h => h _ s rfl, fun h b t hb => by cases hb; exact h⟩

@[simp] theorem returns_get (Q : σ → σ → Prop) : Returns (get : Prog ε σ σ) Q s ↔ Q s s :=
  ⟨fun h => h s s rfl, fun h b t hb => by cases hb; exact h⟩

@[simp] theorem returns_modify (f : σ → σ) (Q : Unit → σ → Prop) :
    Returns (modify f : Prog ε σ Unit) Q s ↔ Q () (f s) :=
  ⟨fun h => h _ _ rfl, fun h b t hb => by cases hb; exact h⟩

@[simp] theorem returns_assert (p : Prop) [Decidable p] (Q : Unit → σ → Prop) :
    Returns (assert p : Prog ε σ Unit) Q s ↔ (p → Q () s) := by
  unfold Returns assert
  split_ifs with h
  · exact ⟨fun hq _ => hq () s rfl, fun hq b t hb => by cases hb; exact hq h⟩
  · exact ⟨fun _ hp => absurd hp h, fun _ b t hb => by cases hb⟩

@[simp] theorem returns_ite (p : Prop) [Decidable p] (m n : Prog ε σ α) :
    Returns (if p then m else n) Q s ↔ (p → Returns m Q s) ∧ (¬ p → Returns n Q s) := by
  split_ifs with h <;> simp [h]

@[simp] theorem returns_bind (m : Prog ε σ β) (f : β → Prog ε σ α) :
    Returns (m >>= f) Q s ↔ Returns m (fun a t => Returns (f a) Q t) s := by
  constructor
  · intro h a t hm b u hf
    refine h b u ?_
    show andThen m f s = _
    unfold andThen
    rw [hm]
    exact hf
  · intro h b u hb
    have hb' : andThen m f s = .ok b u := hb
    unfold andThen at hb'
    cases hm : m s with
    | ok a t => rw [hm] at hb'; exact h a t hm b u hb'
    | fail e t => rw [hm] at hb'; cases hb'
    | stop => rw [hm] at hb'; cases hb'

theorem returns_mono {m : Prog ε σ α} {Q' : α → σ → Prop} (h : Returns m Q s) (hQ : ∀ a t, Q a t → Q' a t) :
    Returns m Q' s := fun a t hm => hQ a t (h a t hm)

theorem returns_zoom {g : τ → σ} {p : σ → τ → τ} {m : Prog ε σ α} {Q : α → τ → Prop} {t : τ}
    (h : Returns m (fun a s => Q a (p s t)) (g t)) : Returns (zoom g p m) Q t := by
  intro a u hu
  unfold zoom at hu
  cases hm : m (g t) with
  | ok b s => rw [hm] at hu; cases hu; exact h _ _ hm
  | fail e s => rw [hm] at hu; cases hu
  | stop => rw [hm] at hu; cases hu

/-- The loop rule for runs that return. -/
theorem returns_forUp {n : ℕ} {f : ℕ → Prog ε σ Unit} {I : ℕ → σ → Prop} (h0 : I 0 s)
    (hstep : ∀ i < n, ∀ t, I i t → Returns (f i) (fun _ => I (i + 1)) t) : Returns (forUp n f) (fun _ => I n) s := by
  induction n with
  | zero => exact (returns_pure ()).mpr h0
  | succ n ih =>
    rw [forUp, returns_bind]
    exact returns_mono (ih fun i hi => hstep i (by omega)) fun _ t ht => hstep n (by omega) t ht

end Partial

-- a loop is reasoned about by its rule, never run by the elaborator
attribute [irreducible] forUp foldUp

section Results

variable {s t : σ} {a : α} {e : ε}

/-- A sequence returned: both parts did. -/
@[simp] theorem bind_eq_ok {m : Prog ε σ β} {f : β → Prog ε σ α} :
    (m >>= f) s = .ok a t ↔ ∃ b u, m s = .ok b u ∧ f b u = .ok a t := by
  show andThen m f s = _ ↔ _
  unfold andThen
  cases m s <;> simp

/-- A sequence failed: the first part did, or it returned and the second did. -/
@[simp] theorem bind_eq_fail {m : Prog ε σ β} {f : β → Prog ε σ α} :
    (m >>= f) s = .fail e t ↔ m s = .fail e t ∨ ∃ b u, m s = .ok b u ∧ f b u = .fail e t := by
  show andThen m f s = _ ↔ _
  unfold andThen
  cases m s <;> simp

@[simp] theorem pure_run (b : α) : (pure b : Prog ε σ α) s = .ok b s := rfl

@[simp] theorem fail_run : (fail e : Prog ε σ α) s = .fail e s := rfl

@[simp] theorem get_run : (get : Prog ε σ σ) s = .ok s s := rfl

@[simp] theorem modify_run (f : σ → σ) : (modify f : Prog ε σ PUnit) s = .ok () (f s) := rfl

theorem ite_run (p : Prop) [Decidable p] (m n : Prog ε σ α) :
    (if p then m else n) s = if p then m s else n s := by
  split_ifs <;> rfl

theorem modify_bind {α : Type} (f : σ → σ) (k : Unit → Prog ε σ α) : (modify f >>= k) s = k () (f s) := rfl

theorem get_bind {σ α : Type u} {s : σ} (k : σ → Prog ε σ α) : (get >>= k) s = k s s := rfl

/-- The value a run returns, if it returns. -/
def value (m : Prog ε σ α) (s : σ) : Option α :=
  match m s with
  | .ok a _ => some a
  | _ => none

theorem value_eq_some {m : Prog ε σ α} : value m s = some a ↔ ∃ t, m s = .ok a t := by
  unfold value
  cases m s <;> simp

/-- Whether a run stops the machine. -/
def stops (m : Prog ε σ α) (s : σ) : Bool :=
  match m s with
  | .stop => true
  | _ => false

theorem stops_iff {m : Prog ε σ α} : stops m s = true ↔ m s = .stop := by
  unfold stops
  cases m s <;> simp

end Results

/-- What a run that returned says, from its specification. -/
theorem wp_ok {m : Prog ε σ α} {Q : α → σ → Prop} {E : ε → σ → Prop} {s t : σ} {a : α}
    (h : wp m Q E s) (hm : m s = .ok a t) : Q a t := by
  unfold wp at h
  rwa [hm] at h

/-- What a run that failed says, from its specification. -/
theorem wp_failed {m : Prog ε σ α} {Q : α → σ → Prop} {E : ε → σ → Prop} {s t : σ} {e : ε}
    (h : wp m Q E s) (hm : m s = .fail e t) : E e t := by
  unfold wp at h
  rwa [hm] at h

/-- A specified run does not stop the machine. -/
theorem wp_ne_stop {m : Prog ε σ α} {Q : α → σ → Prop} {E : ε → σ → Prop} {s : σ}
    (h : wp m Q E s) : m s ≠ .stop := by
  intro hm
  unfold wp at h
  rw [hm] at h
  exact h

end Prog
