/-
# The deadlock detector

`kern/thread/hangman.c`: an actor (a processor) waits for at most one lockable
(a spinlock), a lockable is held by at most one actor, and `hangman_check`
follows the chain from a lockable to its holder, to what the holder waits for,
and so on. It keeps no record of where it has been, so it comes to an end only
if the chain does.

The calls are serialized by `hangman_lock`, whose own lockable they leave
alone. A `panic` is a failure that names its reason; a loop that has not ended
after `n` turns stops.

Actors and lockables are of any types. `hangman_exact`: as long as no deadlock
has been reported there is no cycle, so every check ends, and a wait is
reported exactly if it would close one.
-/
import Os161.Lib.Prog
import Os161.Lib.Run
import Os161.Lib.Chain

namespace Os161

/-- Why `hangman.c` panics. -/
inductive HangmanPanic
  | deadlock
  | alreadyWaiting
  | notWaiting
  | stillHeld
  | waiting
  | notHolder
  deriving DecidableEq

/-- The fields `a_waiting` of the actors and `l_holding` of the lockables, and
the lockable of `hangman_lock`. -/
structure Hangman (A L : Type) where
  aWaiting : A → Option L
  lHolding : L → Option A
  splkHangman : L

/-- After `HANGMAN_ACTORINIT` and `HANGMAN_LOCKABLEINIT`. -/
def hangmanInit (A : Type) {L : Type} (splkHangman : L) : Hangman A L := ⟨fun _ => none, fun _ => none, splkHangman⟩

variable {A L : Type} [DecidableEq A] [DecidableEq L]

namespace Hangman

def setWaiting (a : A) (l : Option L) (s : Hangman A L) : Hangman A L :=
  { s with aWaiting := Function.update s.aWaiting a l }

def setHolding (l : L) (a : Option A) (s : Hangman A L) : Hangman A L :=
  { s with lHolding := Function.update s.lHolding l a }

omit [DecidableEq A] [DecidableEq L] in
/-- The actor that `a` waits for: the holder of what `a` waits for. -/
def waitsFor (s : Hangman A L) (a : A) : Option A := (s.aWaiting a).bind s.lHolding

end Hangman

/-- The loop of `hangman_check`, for at most `n` turns: is `target` found? -/
def hangmanCheckFrom (s : Hangman A L) (target : A) : ℕ → Option A → Option Bool
  | 0, _ => none
  | _ + 1, none => some false
  | n + 1, some cur =>
    if cur = target then some true
    else
      match s.aWaiting cur with
      | none => some false
      | some l => hangmanCheckFrom s target n (s.lHolding l)

/-- `hangman_check`. -/
def hangmanCheck (n : ℕ) (start : L) (target : A) : Prog HangmanPanic (Hangman A L) Unit := fun s =>
  match hangmanCheckFrom s target n (s.lHolding start) with
  | none => .stop
  | some true => .fail .deadlock s
  | some false => .ok () s

/-- `hangman_wait`. -/
def hangmanWait (n : ℕ) (a : A) (l : L) : Prog HangmanPanic (Hangman A L) Unit := do
  let s ← Prog.get
  if l = s.splkHangman then pure ()
  else if (s.aWaiting a).isSome then Prog.fail .alreadyWaiting
  else do
    hangmanCheck n l a
    Prog.modify (Hangman.setWaiting a (some l))

/-- `hangman_acquire`. -/
def hangmanAcquire (a : A) (l : L) : Prog HangmanPanic (Hangman A L) Unit := do
  let s ← Prog.get
  if l = s.splkHangman then pure ()
  else if s.aWaiting a ≠ some l then Prog.fail .notWaiting
  else if (s.lHolding l).isSome then Prog.fail .stillHeld
  else do
    Prog.modify (Hangman.setHolding l (some a))
    Prog.modify (Hangman.setWaiting a none)

/-- `hangman_release`. -/
def hangmanRelease (a : A) (l : L) : Prog HangmanPanic (Hangman A L) Unit := do
  let s ← Prog.get
  if l = s.splkHangman then pure ()
  else if (s.aWaiting a).isSome then Prog.fail .waiting
  else if s.lHolding l ≠ some a then Prog.fail .notHolder
  else Prog.modify (Hangman.setHolding l none)

/-- The calls. -/
inductive HangmanCall (A L : Type)
  | wait (a : A) (l : L)
  | acquire (a : A) (l : L)
  | release (a : A) (l : L)

/-- A call that returns. -/
inductive HangmanStep : Hangman A L → HangmanCall A L → Hangman A L → Prop
  | wait {s t : Hangman A L} {n : ℕ} {a : A} {l : L} (h : hangmanWait n a l s = .ok () t) : HangmanStep s (.wait a l) t
  | acquire {s t : Hangman A L} {a : A} {l : L} (h : hangmanAcquire a l s = .ok () t) : HangmanStep s (.acquire a l) t
  | release {s t : Hangman A L} {a : A} {l : L} (h : hangmanRelease a l s = .ok () t) : HangmanStep s (.release a l) t

open Chain

/-! ### The walk of `hangman_check` -/

section Check

variable {s : Hangman A L} {a target : A} {l : L}

omit [DecidableEq L] in
/-- The loop on a chain that ends: enough turns tell whether `target` is on it. -/
theorem hangmanCheckFrom_spec (target : A) (h : Ends s.waitsFor a) :
    ∃ N, ∃ b, (∀ n ≥ N, hangmanCheckFrom s target n (some a) = some b) ∧ (b = true ↔ Reaches s.waitsFor a target) := by
  induction h with
  | intro a _ ih =>
    by_cases hat : a = target
    · refine ⟨1, true, fun n hn => ?_, by simp [hat, Reaches, Relation.ReflTransGen.refl]⟩
      obtain ⟨m, rfl⟩ := Nat.exists_eq_add_of_le' hn
      exact if_pos hat
    · -- the holder of what `a` waits for is the next actor of the loop
      have hreach : Reaches s.waitsFor a target ↔ ∃ b, s.waitsFor a = some b ∧ Reaches s.waitsFor b target :=
        Relation.ReflTransGen.cases_head_iff.trans ⟨fun h => h.resolve_left hat, Or.inr⟩
      have hend : s.waitsFor a = none → ∃ N, ∀ n ≥ N, hangmanCheckFrom s target n (some a) = some false := by
        intro hw
        refine ⟨2, fun n hn => ?_⟩
        obtain ⟨m, rfl⟩ := Nat.exists_eq_add_of_le' hn
        unfold hangmanCheckFrom
        rw [if_neg hat]
        unfold Hangman.waitsFor at hw
        cases ha : s.aWaiting a with
        | none => rfl
        | some l =>
          rw [ha, Option.bind_some] at hw
          simp only [hw]
          rfl
      cases hw : s.waitsFor a with
      | none =>
        obtain ⟨N, hN⟩ := hend hw
        exact ⟨N, false, hN, by simp [hreach, hw]⟩
      | some c =>
        obtain ⟨N, b, hN, hb⟩ := ih c hw
        refine ⟨N + 1, b, fun n hn => ?_, by simp [hreach, hw, hb]⟩
        obtain ⟨m, rfl⟩ := Nat.exists_eq_add_of_le' (show 1 ≤ n by omega)
        unfold hangmanCheckFrom
        rw [if_neg hat]
        unfold Hangman.waitsFor at hw
        obtain ⟨l, hl, hc⟩ := Option.bind_eq_some_iff.mp hw
        simp only [hl, hc]
        exact hN m (by omega)

omit [DecidableEq L] in
/-- More turns do not change what the loop has found. -/
theorem hangmanCheckFrom_mono {b : Bool} : ∀ {n m : ℕ} {c : Option A}, hangmanCheckFrom s target n c = some b → n ≤ m →
    hangmanCheckFrom s target m c = some b
  | 0, _, _, h, _ => by cases h
  | n + 1, 0, _, _, hm => by omega
  | n + 1, m + 1, none, h, _ => h
  | n + 1, m + 1, some c, h, hm => by
    unfold hangmanCheckFrom at h ⊢
    by_cases hc : c = target
    · rwa [if_pos hc] at h ⊢
    · rw [if_neg hc] at h ⊢
      cases hw : s.aWaiting c with
      | none =>
        rw [hw] at h
        exact h
      | some l =>
        rw [hw] at h
        exact hangmanCheckFrom_mono h (by omega)

omit [DecidableEq L] in
/-- **`hangman_check`** ends, and reports a deadlock exactly if `target` is on
the chain from the holder of `start`. -/
theorem hangmanCheck_spec (hall : ∀ a, Ends s.waitsFor a) (start : L) (target : A) :
    ∃ N, (∀ n ≥ N, hangmanCheck n start target s = .fail .deadlock s) ∧
        (∃ b, s.lHolding start = some b ∧ Reaches s.waitsFor b target) ∨
      (∀ n ≥ N, hangmanCheck n start target s = .ok () s) ∧
        ¬ ∃ b, s.lHolding start = some b ∧ Reaches s.waitsFor b target := by
  cases hs : s.lHolding start with
  | none =>
    refine ⟨1, Or.inr ⟨fun n hn => ?_, by simp⟩⟩
    obtain ⟨m, rfl⟩ := Nat.exists_eq_add_of_le' hn
    unfold hangmanCheck
    rw [hs]
    rfl
  | some c =>
    obtain ⟨N, b, hN, hb⟩ := hangmanCheckFrom_spec target (hall c)
    refine ⟨N, ?_⟩
    cases b with
    | true =>
      refine Or.inl ⟨fun n hn => ?_, c, rfl, hb.mp rfl⟩
      unfold hangmanCheck
      rw [hs, hN n hn]
    | false =>
      refine Or.inr ⟨fun n hn => ?_, ?_⟩
      · unfold hangmanCheck
        rw [hs, hN n hn]
      · rintro ⟨d, hd, hr⟩
        cases hd
        exact absurd (hb.mpr hr) Bool.false_ne_true

end Check

/-! ### Every chain ends -/

section Steps

variable {s t : Hangman A L} {a : A} {l : L} {n : ℕ}

omit [DecidableEq L] in
/-- A wait adds the link to the holder. -/
theorem waitsFor_setWaiting (a : A) (l : L) (s : Hangman A L) :
    (s.setWaiting a (some l)).waitsFor = Function.update s.waitsFor a (s.lHolding l) := by
  funext b
  by_cases hb : b = a
  · subst hb
    simp [Hangman.waitsFor, Hangman.setWaiting]
  · simp [Hangman.waitsFor, Hangman.setWaiting, Function.update_of_ne hb]

/-- A call of `hangman_wait` that returns has checked the chain from the holder. -/
theorem hangmanWait_ok (h : hangmanWait n a l s = .ok () t) :
    t = s ∨ s.aWaiting a = none ∧ hangmanCheck n l a s = .ok () s ∧ t = s.setWaiting a (some l) := by
  unfold hangmanWait at h
  simp only [Prog.bind_eq_ok, Prog.get_run] at h
  obtain ⟨s', _, hs, h⟩ := h
  cases hs
  by_cases hl : l = s.splkHangman
  · rw [if_pos hl] at h
    cases h
    exact Or.inl rfl
  · rw [if_neg hl] at h
    cases ha : s.aWaiting a with
    | some m =>
      rw [ha, Option.isSome_some, if_pos rfl] at h
      cases h
    | none =>
      rw [ha, Option.isSome_none, if_neg Bool.false_ne_true] at h
      simp only [Prog.bind_eq_ok, Prog.modify_run] at h
      obtain ⟨_, s1, hc, ht⟩ := h
      have hs1 : s1 = s := by
        unfold hangmanCheck at hc
        split at hc <;> cases hc
        rfl
      subst hs1
      cases ht
      exact Or.inr ⟨rfl, hc, rfl⟩

omit [DecidableEq L] in
/-- A check that returns has found no way from the holder to `target`. -/
theorem not_reaches_of_check (hall : ∀ a, Ends s.waitsFor a) (h : hangmanCheck n l a s = .ok () s) {b : A}
    (hb : s.lHolding l = some b) : ¬ Reaches s.waitsFor b a := by
  intro hr
  obtain ⟨N, c, hN, hc⟩ := hangmanCheckFrom_spec a (hall b)
  obtain rfl := hc.mpr hr
  unfold hangmanCheck at h
  rw [hb] at h
  cases hx : hangmanCheckFrom s a n (some b) with
  | none => rw [hx] at h; cases h
  | some x =>
    have h1 := hangmanCheckFrom_mono hx (Nat.le_max_left n N)
    rw [hN _ (Nat.le_max_right n N)] at h1
    cases h1
    rw [hx] at h
    cases h

/-- `hangman_wait` adds a link that closes no cycle. -/
theorem ends_hangmanWait (hall : ∀ a, Ends s.waitsFor a) (h : hangmanWait n a l s = .ok () t) (c : A) :
    Ends t.waitsFor c := by
  rcases hangmanWait_ok h with rfl | ⟨-, hcheck, rfl⟩
  · exact hall c
  rw [waitsFor_setWaiting]
  cases hb : s.lHolding l with
  | none =>
    refine ends_mono (fun x y hxy => ?_) (hall c)
    by_cases hx : x = a
    · rw [hx, Function.update_self] at hxy
      cases hxy
    · rwa [Function.update_of_ne hx] at hxy
  | some b => exact ends_update hall (not_reaches_of_check hall hcheck hb) c

/-- `hangman_acquire` turns the links of those who wait for `l` to `a`, which
waits for nothing. -/
theorem ends_hangmanAcquire (hall : ∀ a, Ends s.waitsFor a) (h : hangmanAcquire a l s = .ok () t) (c : A) :
    Ends t.waitsFor c := by
  unfold hangmanAcquire at h
  simp only [Prog.bind_eq_ok, Prog.get_run, Prog.ite_run, Prog.pure_run, Prog.fail_run] at h
  obtain ⟨_, _, hs, h⟩ := h
  cases hs
  split_ifs at h with h1 h2 h3
  · cases h
    exact hall c
  cases h
  refine ends_redirect (fun d => ?_) (hall c)
  have ha : ((s.setHolding l (some a)).setWaiting a none).waitsFor a = none := by
    simp [Hangman.waitsFor, Hangman.setWaiting]
  by_cases hd : d = a
  · rw [hd]
    exact Or.inr (Or.inl ha)
  by_cases hl : s.aWaiting d = some l
  · refine Or.inr (Or.inr ⟨a, ?_, ha⟩)
    simp [Hangman.waitsFor, Hangman.setWaiting, Hangman.setHolding, Function.update_of_ne hd, hl]
  · left
    simp only [Hangman.waitsFor, Hangman.setWaiting, Hangman.setHolding, Function.update_of_ne hd]
    cases hm : s.aWaiting d with
    | none => rfl
    | some m =>
      have hne : m ≠ l := fun he => hl (he ▸ hm)
      simp [Function.update_of_ne hne]

/-- `hangman_release` takes links away. -/
theorem ends_hangmanRelease (hall : ∀ a, Ends s.waitsFor a) (h : hangmanRelease a l s = .ok () t) (c : A) :
    Ends t.waitsFor c := by
  unfold hangmanRelease at h
  simp only [Prog.bind_eq_ok, Prog.get_run, Prog.ite_run, Prog.pure_run, Prog.fail_run, Prog.modify_run] at h
  obtain ⟨_, _, hs, h⟩ := h
  cases hs
  split_ifs at h with h1 h2 h3
  · cases h
    exact hall c
  cases h
  refine ends_mono (fun x y hxy => ?_) (hall c)
  obtain ⟨m, hm, hy⟩ := Option.bind_eq_some_iff.mp hxy
  have hne : m ≠ l := by
    rintro rfl
    simp [Hangman.setHolding] at hy
  refine Option.bind_eq_some_iff.mpr ⟨m, hm, ?_⟩
  simpa [Hangman.setHolding, Function.update_of_ne hne] using hy

/-- **A call** that returns keeps every chain finite. -/
theorem hangman_step {c : HangmanCall A L} (hall : ∀ a, Ends s.waitsFor a) (h : HangmanStep s c t) (a : A) :
    Ends t.waitsFor a := by
  cases h with
  | wait h => exact ends_hangmanWait hall h a
  | acquire h => exact ends_hangmanAcquire hall h a
  | release h => exact ends_hangmanRelease hall h a

end Steps

/-! ### Runs -/

/-- In every run every chain is finite. -/
theorem hangman_ends {splk : L} {calls : List (HangmanCall A L)} {s : Hangman A L}
    (h : Run HangmanStep (hangmanInit A splk) calls s) (a : A) : Ends s.waitsFor a :=
  h.invariant (I := fun s => ∀ a, Ends s.waitsFor a) (fun _ => Ends.of_none rfl) (fun _ _ _ hall hs => hangman_step hall hs) a

/-- What `hangman_wait` does when every chain ends, given enough turns. -/
theorem hangmanWait_spec {s : Hangman A L} (hall : ∀ a, Ends s.waitsFor a) (a : A) (l : L) :
    ∃ N, ∀ n ≥ N, hangmanWait n a l s ≠ .stop ∧
      ((∃ t, hangmanWait n a l s = .fail .deadlock t) ↔
        l ≠ s.splkHangman ∧ s.aWaiting a = none ∧ ¬ Acyclic (s.setWaiting a (some l)).waitsFor) := by
  -- a cycle of the new graph is a way from the holder of `l` to `a`
  have hcycle : ¬ Acyclic (s.setWaiting a (some l)).waitsFor ↔ ∃ b, s.lHolding l = some b ∧ Reaches s.waitsFor b a := by
    rw [waitsFor_setWaiting]
    cases hb : s.lHolding l with
    | none =>
      simp only [reduceCtorEq, false_and, exists_false, iff_false, not_not]
      intro c
      refine Ends.not_cycle (ends_mono (fun x y hxy => ?_) (hall c))
      by_cases hx : x = a
      · rw [hx, Function.update_self] at hxy
        cases hxy
      · rwa [Function.update_of_ne hx] at hxy
    | some b =>
      rw [acyclic_update_iff hall, not_not]
      simp
  obtain ⟨N, hN⟩ := hangmanCheck_spec hall l a
  refine ⟨N, fun n hn => ?_⟩
  rw [hcycle]
  have hrun : hangmanWait n a l s =
      if l = s.splkHangman then .ok () s
      else if (s.aWaiting a).isSome then .fail .alreadyWaiting s
      else (hangmanCheck n l a >>= fun _ => Prog.modify (Hangman.setWaiting a (some l))) s := by
    show (if l = s.splkHangman then _ else _ : Prog HangmanPanic (Hangman A L) Unit) s = _
    rw [Prog.ite_run, Prog.ite_run]
    rfl
  rw [hrun]
  by_cases hl : l = s.splkHangman
  · simp [hl]
  cases ha : s.aWaiting a with
  | some m => simp [hl]
  | none =>
    rcases hN with ⟨hcheck, hr⟩ | ⟨hcheck, hr⟩
    · have hf : (hangmanCheck n l a >>= fun _ => Prog.modify (Hangman.setWaiting a (some l))) s = .fail .deadlock s :=
        Prog.bind_eq_fail.mpr (Or.inl (hcheck n hn))
      simp [hl, hf, hr]
    · have hf : (hangmanCheck n l a >>= fun _ => Prog.modify (Hangman.setWaiting a (some l))) s =
          .ok () (s.setWaiting a (some l)) := Prog.bind_eq_ok.mpr ⟨(), s, hcheck n hn, rfl⟩
      simp only [hl, hf, if_false, Option.isSome_none, Bool.false_eq_true, hr, and_false, iff_false]
      simp

/-- **The detector is exact.** As long as no deadlock has been reported the
waits-for relation has no cycle, the loop of `hangman_check` ends, and a wait
is reported exactly if it would close a cycle. -/
theorem hangman_exact {splk : L} {calls : List (HangmanCall A L)} {s : Hangman A L}
    (h : Run HangmanStep (hangmanInit A splk) calls s) :
    Acyclic s.waitsFor ∧ ∀ a l, ∃ N, ∀ n ≥ N, hangmanWait n a l s ≠ .stop ∧
      ((∃ t, hangmanWait n a l s = .fail .deadlock t) ↔
        l ≠ s.splkHangman ∧ s.aWaiting a = none ∧ ¬ Acyclic (s.setWaiting a (some l)).waitsFor) :=
  ⟨fun a => (hangman_ends h a).not_cycle, fun a l => hangmanWait_spec (hangman_ends h) a l⟩

/-- Two actors with a lockable each; the first waits for the second's. -/
theorem hangman_exact_two : ∃ s : Hangman (Fin 2) (Fin 3),
    Run HangmanStep (hangmanInit (Fin 2) (2 : Fin 3))
      [.wait 0 0, .acquire 0 0, .wait 1 1, .acquire 1 1, .wait 0 1] s ∧
    (∃ t, hangmanWait 3 1 0 s = .fail .deadlock t) ∧ Acyclic s.waitsFor ∧ ∀ a l, ∃ N, ∀ n ≥ N,
      hangmanWait n a l s ≠ .stop ∧ ((∃ t, hangmanWait n a l s = .fail .deadlock t) ↔
        l ≠ s.splkHangman ∧ s.aWaiting a = none ∧ ¬ Acyclic (s.setWaiting a (some l)).waitsFor) := by
  have hrun : Run HangmanStep (hangmanInit (Fin 2) (2 : Fin 3)) [.wait 0 0, .acquire 0 0, .wait 1 1, .acquire 1 1, .wait 0 1] _ :=
    .cons (.wait (n := 1) rfl) (.cons (.acquire rfl) (.cons (.wait (n := 1) rfl) (.cons (.acquire rfl)
      (.single (.wait (n := 3) rfl)))))
  exact ⟨_, hrun, ⟨_, rfl⟩, hangman_exact hrun⟩

end Os161
