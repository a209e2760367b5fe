/-
# Calls that change a quantity

What a call adds to a quantity of the state if it returns and if it fails
(arbitrary if it does not). The rules follow the program's text.
-/
import Os161.Lib.Wlp

namespace Prog

variable {ε σ α β G : Type} [AddCommGroup G] {c : σ → G} {m : Prog ε σ α} {g k : α → G} {d e : G}

/-- `m` adds `g a` to `c` if it returns `a`, and `e` if it fails. -/
def Adds (c : σ → G) (m : Prog ε σ α) (g : α → G) (e : G) : Prop :=
  ∀ s, wlp True m (fun a t => c t = c s + g a) (fun _ t => c t = c s + e) s

theorem adds_pure {a : α} (h : g a = 0) : Adds c (pure a : Prog ε σ α) g e := fun s => by simp [h]

theorem adds_fail {x : ε} (h : e = 0) : Adds c (fail x : Prog ε σ α) g e := fun s => by simp [h]

theorem Adds.congr (h : Adds c m g e) (hg : ∀ a, g a = k a) (he : e = d) : Adds c m k d := by
  obtain rfl : g = k := funext hg
  exact he ▸ h

theorem adds_gets {x : σ → β} {f : β → Prog ε σ α} (h : ∀ b, Adds c (f b) g e) : Adds c (gets x >>= f) g e :=
  fun s => h (x s) s

/-- One call after the other. -/
theorem Adds.bind {f : α → Prog ε σ β} {k : β → G} (hm : Adds c m g e)
    (hf : ∀ a, Adds c (f a) (fun b => k b + -g a) (e + -g a)) : Adds c (m >>= f) k e := by
  intro s
  rw [wlp_bind]
  refine wlp_mono (hm s) (fun a t ht => ?_) fun _ _ he => he
  refine wlp_mono (hf a t) (fun b u hu => ?_) fun _ u hu => ?_ <;> simp only [hu, ht] <;> abel

theorem Adds.andThen {f : α → Prog ε σ β} {k : β → G} (hm : Adds c m (fun _ => 0) e) (hf : ∀ a, Adds c (f a) k e) :
    Adds c (m >>= f) k e := hm.bind fun a => (hf a).congr (by simp) (by simp)

/-- Clean-up after a call. -/
theorem Adds.ensure {r : Prog ε σ Unit} (hm : Adds c m g e) (hr : ∀ e, Adds c r (fun _ => d) e) :
    Adds c (Prog.ensure m r) (fun a => g a + d) (e + d) := by
  intro s
  rw [wlp_ensure]
  refine wlp_mono (hm s) (fun a t ht => ?_) fun x t ht => ?_
  · refine wlp_mono (hr (e + d - g a) t) (fun _ u hu => ?_) fun _ u hu => ?_ <;> simp only [hu, ht] <;> abel
  · refine wlp_mono (hr d t) (fun _ u hu => ?_) fun _ u hu => ?_ <;> simp only [hu, ht] <;> abel

/-- Clean-up after a call that failed. -/
theorem Adds.onFail {r : Prog ε σ Unit} (hm : Adds c m g e) (hr : ∀ e, Adds c r (fun _ => d) e) :
    Adds c (Prog.onFail m r) g (e + d) := by
  intro s
  rw [wlp_onFail]
  refine wlp_mono (hm s) (fun a t ht => ht) fun x t ht => ?_
  refine wlp_mono (hr d t) (fun _ u hu => ?_) fun _ u hu => ?_ <;> simp only [hu, ht] <;> abel

end Prog
