/-
# However a program ends

`Prog.wlp S m Q E s`: run from `s`, `m` returns in `Q` or fails in `E`, and it
stops only if `S`. With `S` false it is `Prog.wp`; with `S` true it says what
holds if the call returns to its caller. One proof over any `S` gives both: `S`
is what the panics of the program are put down to.

Key definition: `Prog.wlp`. Key theorems: `Prog.wlp_bind`, `Prog.wlp_forUp`.
-/
import Os161.Lib.Prog

namespace Prog

universe u

variable {ε ε' σ τ : Type*} {α β : Type u}

/-- `m` run from `s` ends in `Q` or, failing, in `E`; it stops only if `S`. -/
def wlp (S : Prop) (m : Prog ε σ α) (Q : α → σ → Prop) (E : ε → σ → Prop) (s : σ) : Prop :=
  match m s with
  | .ok a t => Q a t
  | .fail e t => E e t
  | .stop => S

variable {S : Prop} {Q : α → σ → Prop} {E : ε → σ → Prop} {s : σ}

theorem wlp_ok {m : Prog ε σ α} {a : α} {t : σ} (h : m s = .ok a t) : wlp S m Q E s ↔ Q a t := by
  unfold wlp
  rw [h]

theorem wlp_fail_run {m : Prog ε σ α} {e : ε} {t : σ} (h : m s = .fail e t) : wlp S m Q E s ↔ E e t := by
  unfold wlp
  rw [h]

theorem wlp_stop_run {m : Prog ε σ α} (h : m s = .stop) : wlp S m Q E s ↔ S := by
  unfold wlp
  rw [h]

/-- A run that neither returns nor fails stops. -/
theorem stop_iff_wlp {m : Prog ε σ α} : m s = .stop ↔ wlp True m (fun _ _ => False) (fun _ _ => False) s := by
  unfold wlp
  cases m s <;> simp

theorem wlp_congr {m m' : Prog ε σ α} {s' : σ} (h : m s = m' s') : wlp S m Q E s ↔ wlp S m' Q E s' := by
  unfold wlp
  rw [h]

/-- Without panics it is the weakest precondition. -/
theorem wlp_false {m : Prog ε σ α} : wlp False m Q E s ↔ wp m Q E s := Iff.rfl

theorem wlp_of_wp {m : Prog ε σ α} (h : wp m Q E s) : wlp S m Q E s := by
  unfold wlp
  cases hm : m s with
  | ok a t => exact (wp_ok h hm : Q a t)
  | fail e t => exact (wp_failed h hm : E e t)
  | stop => exact absurd hm (wp_ne_stop h)

@[simp] theorem wlp_pure (a : α) : wlp S (pure a : Prog ε σ α) Q E s ↔ Q a s := Iff.rfl

@[simp] theorem wlp_bind (m : Prog ε σ β) (f : β → Prog ε σ α) :
    wlp S (m >>= f) Q E s ↔ wlp S m (fun a t => wlp S (f a) Q E t) E s := by
  show wlp S (andThen m f) Q E s ↔ _
  unfold wlp andThen
  cases m s <;> rfl

@[simp] theorem wlp_fail (e : ε) : wlp S (fail e : Prog ε σ α) Q E s ↔ E e s := Iff.rfl

@[simp] theorem wlp_stop : wlp S (stop : Prog ε σ α) Q E s ↔ S := Iff.rfl

@[simp] theorem wlp_assert (p : Prop) [Decidable p] (Q : Unit → σ → Prop) :
    wlp S (assert p : Prog ε σ Unit) Q E s ↔ (p → Q () s) ∧ (¬ p → S) := by
  unfold wlp assert
  split_ifs with h <;> simp [h]

/-- Two assertions are one. -/
theorem assert_and_iff {p q X : Prop} :
    (p → (q → X) ∧ (¬ q → S)) ∧ (¬ p → S) ↔ (p ∧ q → X) ∧ (¬ (p ∧ q) → S) := by
  by_cases hp : p <;> simp [hp]

theorem wlp_assert_of {p : Prop} [Decidable p] {Q : Unit → σ → Prop} (h : p) :
    wlp S (assert p : Prog ε σ Unit) Q E s ↔ Q () s := wlp_ok (if_pos h)

@[simp] theorem wlp_get (Q : σ → σ → Prop) : wlp S (get : Prog ε σ σ) Q E s ↔ Q s s := Iff.rfl

@[simp] theorem wlp_gets (f : σ → α) : wlp S (gets f : Prog ε σ α) Q E s ↔ Q (f s) s := Iff.rfl

@[simp] theorem wlp_modify (f : σ → σ) (Q : Unit → σ → Prop) :
    wlp S (modify f : Prog ε σ Unit) Q E s ↔ Q () (f s) := Iff.rfl

@[simp] theorem wlp_ite (p : Prop) [Decidable p] (m n : Prog ε σ α) :
    wlp S (if p then m else n) Q E s ↔ (p → wlp S m Q E s) ∧ (¬ p → wlp S n Q E s) := by
  split_ifs with h <;> simp [h]

@[simp] theorem wlp_attempt (m : Prog ε σ α) (Q : Except ε α → σ → Prop) (E' : ε' → σ → Prop) :
    wlp S (attempt m : Prog ε' σ (Except ε α)) Q E' s ↔
      wlp S m (fun a t => Q (.ok a) t) (fun e t => Q (.error e) t) s := by
  unfold wlp attempt
  cases m s <;> rfl

@[simp] theorem wlp_zoom (g : τ → σ) (p : σ → τ → τ) (m : Prog ε σ α) (Q : α → τ → Prop)
    (E : ε → τ → Prop) (t : τ) :
    wlp S (zoom g p m) Q E t ↔ wlp S m (fun a s => Q a (p s t)) (fun e s => E e (p s t)) (g t) := by
  unfold wlp zoom
  cases m (g t) <;> rfl

/-- A weaker postcondition. -/
theorem wlp_mono {m : Prog ε σ α} {Q' : α → σ → Prop} {E' : ε → σ → Prop} (h : wlp S m Q E s)
    (hQ : ∀ a t, Q a t → Q' a t) (hE : ∀ e t, E e t → E' e t) : wlp S m Q' E' s := by
  unfold wlp at h ⊢
  cases hm : m s with
  | ok a t => rw [hm] at h; exact hQ a t h
  | fail e t => rw [hm] at h; exact hE e t h
  | stop => rw [hm] at h; exact h

/-- **The loop rule.** `I i` holds before iteration `i`; an iteration keeps
it or fails in `E`. -/
theorem wlp_forUp {n : ℕ} {f : ℕ → Prog ε σ Unit} {I : ℕ → σ → Prop} (h0 : I 0 s)
    (hstep : ∀ i < n, ∀ t, I i t → wlp S (f i) (fun _ => I (i + 1)) E t) :
    wlp S (forUp n f) (fun _ => I n) E s := by
  induction n with
  | zero =>
    rw [forUp_zero, wlp_pure]
    exact h0
  | succ n ih =>
    rw [forUp, wlp_bind]
    refine wlp_mono (ih fun i hi => hstep i (by omega)) (fun _ t ht => ?_) fun _ _ h => h
    exact hstep n (by omega) t ht

/-! ### The first step of a sequence -/

theorem gets_bind (g : σ → β) (f : β → Prog ε σ α) : (gets g >>= f) s = f (g s) s := rfl

theorem bind_of_ok {m : Prog ε σ β} {b : β} {t : σ} (h : m s = .ok b t) (f : β → Prog ε σ α) : (m >>= f) s = f b t := by
  show andThen m f s = _
  simp only [andThen, h]

theorem bind_of_fail {m : Prog ε σ β} {e : ε} {t : σ} (h : m s = .fail e t) (f : β → Prog ε σ α) :
    (m >>= f) s = .fail e t := by
  show andThen m f s = _
  simp only [andThen, h]

theorem bind_of_stop {m : Prog ε σ β} (h : m s = .stop) (f : β → Prog ε σ α) : (m >>= f) s = .stop := by
  show andThen m f s = _
  simp only [andThen, h]

theorem zoom_of_ok {g : τ → σ} {p : σ → τ → τ} {m : Prog ε σ α} {a : α} {x : τ} {t : σ} (h : m (g x) = .ok a t) :
    zoom g p m x = .ok a (p t x) := by
  unfold zoom
  rw [h]

theorem zoom_of_fail {g : τ → σ} {p : σ → τ → τ} {m : Prog ε σ α} {e : ε} {x : τ} {t : σ} (h : m (g x) = .fail e t) :
    (zoom g p m : Prog ε τ α) x = .fail e (p t x) := by
  unfold zoom
  rw [h]

/-- A loop whose first turn fails. -/
theorem forUp_of_fail (n : ℕ) {f : ℕ → Prog ε σ Unit} {e : ε} {t : σ} (h : f 0 s = .fail e t) :
    forUp (n + 1) f s = .fail e t := by
  induction n with
  | zero => rwa [Nat.zero_add, forUp_one]
  | succ n ih =>
    rw [forUp]
    exact bind_of_fail ih _

/-- A loop whose first turn stops. -/
theorem forUp_of_stop (n : ℕ) {f : ℕ → Prog ε σ Unit} (h : f 0 s = .stop) : forUp (n + 1) f s = .stop := by
  induction n with
  | zero => rwa [Nat.zero_add, forUp_one]
  | succ n ih =>
    rw [forUp]
    exact bind_of_stop ih _

theorem assert_run {p : Prop} [Decidable p] (h : p) : (assert p : Prog ε σ Unit) s = .ok () s := if_pos h

theorem pure_then (b : β) (f : β → Prog ε σ α) : (pure b >>= f) = f b := rfl

section Cleanup

variable {ε σ α : Type}

/-- `m`, then `r` whether or not `m` failed; the result is that of `m`. -/
def ensure (m : Prog ε σ α) (r : Prog ε σ Unit) : Prog ε σ α := do
  let result : Except ε α ← attempt m
  r
  match result with
  | .ok a => pure a
  | .error e => fail e

/-- `m`, then `r` if `m` failed. -/
def onFail (m : Prog ε σ α) (r : Prog ε σ Unit) : Prog ε σ α := do
  let result : Except ε α ← attempt m
  match result with
  | .ok a => pure a
  | .error e => do
    r
    fail e

variable {Q : α → σ → Prop} {E : ε → σ → Prop} {s : σ} (m : Prog ε σ α) (r : Prog ε σ Unit)

@[simp] theorem wlp_ensure : wlp S (ensure m r) Q E s ↔
    wlp S m (fun a t => wlp S r (fun _ u => Q a u) E t) (fun e t => wlp S r (fun _ u => E e u) E t) s := by
  unfold ensure
  rw [wlp_bind, wlp_attempt]
  simp only [wlp_bind, wlp_pure, wlp_fail]

@[simp] theorem wlp_onFail : wlp S (onFail m r) Q E s ↔ wlp S m Q (fun e t => wlp S r (fun _ u => E e u) E t) s := by
  unfold onFail
  rw [wlp_bind, wlp_attempt]
  simp only [wlp_bind, wlp_pure, wlp_fail]

end Cleanup

end Prog
