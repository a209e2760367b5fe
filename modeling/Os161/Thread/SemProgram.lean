/-
# Programs over semaphores

Threads that run code with `P` and `V` on a family of semaphores and, in
between, steps of their own on shared data. Whatever the code is, a thread
waits only on the semaphore its next `P` is on (`SemProgram.Inv`), and a sleeper
with a positive count has a thread that was woken and is not asleep
(`exists_awake`).

What a program over semaphores counts is said by a conservation law (`Law`):
a value for a unit of each semaphore, for a thread's position, for the shared
data and for each event. It is enough to look at one call of `P`, one call of
`V` and one step of the code to know that the value of the whole state
changes by the events alone (`Law.run`).
-/
import Os161.Thread.SemUse
import Os161.Lib.Census

namespace Os161

/-- A call of `P` or `V`, and where the thread goes on after it. -/
inductive SemOp (Sem Pc : Type)
  | p (x : Sem) (next : Pc)
  | v (x : Sem) (next : Pc)

namespace SemOp

variable {Sem Pc : Type}

/-- Where the thread goes on. -/
def next : SemOp Sem Pc → Pc
  | .p _ next => next
  | .v _ next => next

/-- The semaphore called. -/
def sem : SemOp Sem Pc → Sem
  | .p x _ => x
  | .v x _ => x

/-- What the thread gets: a unit from `P`, it gives one to `V`. -/
def sign : SemOp Sem Pc → ℤ
  | .p _ _ => 1
  | .v _ _ => -1

end SemOp

/-- The code of threads `T` over the semaphores `Sem` and shared data `Sh`:
the semaphore call a position is at, and the other steps, each with its event.
A step of the code may look at where the other threads are. -/
structure SemProgram (T Sem Sh Pc Ev : Type) where
  op : Pc → Option (SemOp Sem Pc)
  act : (T → Pc) → Sh → T → Ev → Pc → Sh → Prop

/-- The semaphores, the shared data and the threads' positions. -/
structure SemState (T Sem Sh Pc : Type) where
  sem : Sem → Semaphore T
  shared : Sh
  pc : T → Pc

/-- A section of `P` or `V` by a thread, or a step of its code. -/
inductive SemLabel (T Ev : Type)
  | sem (t : T)
  | act (t : T) (e : Ev)

variable {T Sem Sh Pc Ev : Type} [DecidableEq T] [DecidableEq Sem]

/-- One step of one thread. A `P` that finds no unit leaves the thread where
it is, asleep. -/
inductive SemProgram.Step (M : SemProgram T Sem Sh Pc Ev) :
    SemState T Sem Sh Pc → SemLabel T Ev → SemState T Sem Sh Pc → Prop
  | p {s : SemState T Sem Sh Pc} {t : T} {x : Sem} {next : Pc} {m : Semaphore T} :
      M.op (s.pc t) = some (.p x next) → SemP (s.sem x) t true m →
      M.Step s (.sem t) { s with sem := Function.update s.sem x m, pc := Function.update s.pc t next }
  | sleep {s : SemState T Sem Sh Pc} {t : T} {x : Sem} {next : Pc} {m : Semaphore T} :
      M.op (s.pc t) = some (.p x next) → SemP (s.sem x) t false m →
      M.Step s (.sem t) { s with sem := Function.update s.sem x m }
  | v {s : SemState T Sem Sh Pc} {t : T} {x : Sem} {next : Pc} {m : Semaphore T} :
      M.op (s.pc t) = some (.v x next) → semV (s.sem x) = .ok () m →
      M.Step s (.sem t) { s with sem := Function.update s.sem x m, pc := Function.update s.pc t next }
  | act {s : SemState T Sem Sh Pc} {t : T} {e : Ev} {next : Pc} {sh : Sh} :
      M.op (s.pc t) = none → M.act s.pc s.shared t e next sh →
      M.Step s (.act t e) { s with shared := sh, pc := Function.update s.pc t next }

omit [DecidableEq T] [DecidableEq Sem] in
/-- The thread sleeps in a `P`. -/
def SemState.Asleep (s : SemState T Sem Sh Pc) (t : T) : Prop := ∃ x, t ∈ (s.sem x).semWchan.wcThreads

variable {M : SemProgram T Sem Sh Pc Ev} {s s' : SemState T Sem Sh Pc} {a : SemLabel T Ev}

/-! ### Who waits where -/

omit [DecidableEq T] [DecidableEq Sem] in
/-- What holds of the semaphores of every program: a thread waits only on the
one its `P` is on. -/
structure SemProgram.Inv (M : SemProgram T Sem Sh Pc Ev) (s : SemState T Sem Sh Pc) : Prop where
  ok : ∀ x, SemOk (s.sem x)
  waits : ∀ x t, (s.sem x).Waits t → ∃ next, M.op (s.pc t) = some (.p x next)

namespace SemProgram

omit [DecidableEq T] [DecidableEq Sem] in
theorem inv_init {n : Sem → UInt32} (hs : ∀ x, s.sem x = semCreate T (n x)) : M.Inv s := by
  refine ⟨fun x => ?_, fun x t h => ?_⟩
  · rw [hs]
    exact semOk_create _
  · rw [hs] at h
    exact absurd h (not_waits_create _ t)

/-- A section on the semaphore `x` by a thread that waits on no other one. -/
theorem Inv.update (h : M.Inv s) {t : T} {x : Sem} {m : Semaphore T} (pc' : Pc) (hok : SemOk m)
    (hothers : ∀ u, u ≠ t → m.Waits u → (s.sem x).Waits u)
    (hself : m.Waits t → ∃ next, M.op pc' = some (.p x next)) (hwaits : ∀ y, y ≠ x → ¬ (s.sem y).Waits t) :
    M.Inv { s with sem := Function.update s.sem x m, pc := Function.update s.pc t pc' } := by
  refine ⟨fun y => ?_, fun y u hu => ?_⟩
  · by_cases hy : y = x
    · rw [hy]
      simpa using hok
    · simpa [hy] using h.ok y
  · change (Function.update s.sem x m y).Waits u at hu
    show ∃ next, M.op (Function.update s.pc t pc' u) = _
    by_cases hut : u = t
    · rw [hut, Function.update_self]
      rw [hut] at hu
      by_cases hy : y = x
      · rw [hy, Function.update_self] at hu
        rw [hy]
        exact hself hu
      · rw [Function.update_of_ne hy] at hu
        exact absurd hu (hwaits y hy)
    · rw [Function.update_of_ne hut]
      by_cases hy : y = x
      · rw [hy, Function.update_self] at hu
        rw [hy]
        exact h.waits x u (hothers u hut hu)
      · rw [Function.update_of_ne hy] at hu
        exact h.waits y u hu

omit [DecidableEq T] [DecidableEq Sem] in
/-- A thread at a call on `x` waits on no other semaphore. -/
theorem Inv.not_waits (h : M.Inv s) {t : T} {y : Sem} (hop : ∀ next, M.op (s.pc t) ≠ some (.p y next)) :
    ¬ (s.sem y).Waits t := by
  intro hw
  obtain ⟨next, hnext⟩ := h.waits y t hw
  exact hop next hnext

/-- A step keeps the invariant. -/
theorem Step.inv (h : M.Inv s) (hst : M.Step s a s') : M.Inv s' := by
  cases hst with
  | @p t x next m hop hp =>
    have hspec := hp.spec (h.ok x)
    refine h.update _ hspec.ok hspec.others (fun hw => absurd hw (hspec.through rfl)) fun y hy => h.not_waits ?_
    intro next' he
    rw [hop] at he
    injection he with he
    injection he with he
    exact hy he.symm
  | @sleep t x next m hop hp =>
    have hspec := hp.spec (h.ok x)
    have hinv := h.update (s.pc t) hspec.ok hspec.others (fun _ => ⟨next, hop⟩) fun y hy => h.not_waits ?_
    · rwa [Function.update_eq_self] at hinv
    · intro next' he
      rw [hop] at he
      injection he with he
      injection he with he
      exact hy he.symm
  | @v t x next m hop hv =>
    obtain ⟨hok, -, hwaits⟩ := semV_spec (h.ok x) hv
    have hno : ∀ y, ¬ (s.sem y).Waits t := fun y => h.not_waits (by simp [hop])
    exact h.update _ hok (fun u _ hu => hwaits u hu) (fun hw => absurd (hwaits t hw) (hno x)) fun y _ => hno y
  | @act t e next sh hop _ =>
    refine ⟨h.ok, fun x u hu => ?_⟩
    have hut : u ≠ t := fun he => h.not_waits (by simp [hop]) (he ▸ hu)
    show ∃ next', M.op (Function.update s.pc t next u) = _
    rw [Function.update_of_ne hut]
    exact h.waits x u hu

/-- **Assertions at positions.** Each thread's assertion is about the shared
data: its own steps lead from one to the next, and no step of another thread
makes it false. -/
theorem Step.assertions {A : T → Pc → Sh → Prop}
    (hp : ∀ t pc x next sh, A t pc sh → M.op pc = some (.p x next) → A t next sh)
    (hv : ∀ t pc x next sh, A t pc sh → M.op pc = some (.v x next) → A t next sh)
    (hact : ∀ t e next sh, A t (s.pc t) s.shared → M.act s.pc s.shared t e next sh → A t next sh)
    (hothers : ∀ t u e next sh, t ≠ u → A u (s.pc u) s.shared → M.act s.pc s.shared t e next sh → A u (s.pc u) sh)
    (h : ∀ t, A t (s.pc t) s.shared) (hst : M.Step s a s') (t : T) : A t (s'.pc t) s'.shared := by
  have hupdate : ∀ {u : T} {next : Pc} {sh : Sh}, A u next sh → (t ≠ u → A t (s.pc t) sh) →
      A t (Function.update s.pc u next t) sh := by
    intro u next sh hself hother
    by_cases htu : t = u
    · subst htu
      rwa [Function.update_self]
    · rw [Function.update_of_ne htu]
      exact hother htu
  cases hst with
  | p hop _ => exact hupdate (hp _ _ _ _ _ (h _) hop) fun _ => h t
  | sleep _ _ => exact h t
  | v hop _ => exact hupdate (hv _ _ _ _ _ (h _) hop) fun _ => h t
  | act _ ha => exact hupdate (hact _ _ _ _ (h _) ha) fun htu => hothers _ t _ _ _ (Ne.symm htu) (h t) ha

/-- **What each thread's position keeps.** -/
theorem Step.forall_pc {Q : Pc → Prop} (hp : ∀ pc x next, Q pc → M.op pc = some (.p x next) → Q next)
    (hv : ∀ pc x next, Q pc → M.op pc = some (.v x next) → Q next)
    (hact : ∀ t e next sh, Q (s.pc t) → M.act s.pc s.shared t e next sh → Q next) (h : ∀ t, Q (s.pc t))
    (hst : M.Step s a s') (t : T) : Q (s'.pc t) :=
  hst.assertions (A := fun _ pc _ => Q pc) (fun _ pc x next _ => hp pc x next) (fun _ pc x next _ => hv pc x next) hact
    (fun _ _ _ _ _ _ hu _ => hu) h t

omit [DecidableEq T] [DecidableEq Sem] in
theorem Inv.asleep (h : M.Inv s) {t : T} (ht : s.Asleep t) :
    ∃ x next, M.op (s.pc t) = some (.p x next) ∧ t ∈ (s.sem x).semWchan.wcThreads := by
  obtain ⟨x, hx⟩ := ht
  obtain ⟨next, hnext⟩ := h.waits x t (Or.inl hx)
  exact ⟨x, next, hnext, hx⟩

omit [DecidableEq T] [DecidableEq Sem] in
/-- **Nobody sleeps alone with a unit**: some thread at `P` of the semaphore
is awake. -/
theorem Inv.exists_awake (h : M.Inv s) {t : T} {x : Sem} (ht : t ∈ (s.sem x).semWchan.wcThreads)
    (hpos : (s.sem x).semCount.toNat ≠ 0) : ∃ u next, M.op (s.pc u) = some (.p x next) ∧ ¬ s.Asleep u := by
  have hcard := (h.ok x).claimed (List.ne_nil_of_mem ht)
  obtain ⟨u, hu⟩ := Finset.card_pos.mp (show 0 < (s.sem x).semWchan.woken.card by omega)
  obtain ⟨next, hnext⟩ := h.waits x u (Or.inr hu)
  refine ⟨u, next, hnext, fun hasleep => ?_⟩
  obtain ⟨y, next', hop, hy⟩ := h.asleep hasleep
  rw [hnext] at hop
  injection hop with hop
  injection hop with hxy
  exact (h.ok x).valid.disjoint u (hxy ▸ hy) hu

end SemProgram

/-! ### Conservation laws -/

/-- What a unit of a semaphore, a position, the shared data and an event are
worth. -/
structure Law (T Sem Sh Pc Ev : Type) where
  unit : Sem → ℤ
  pos : Pc → ℤ
  data : Sh → ℤ
  event : T → Ev → ℤ

namespace Law

/-- What a step adds. -/
def label (L : Law T Sem Sh Pc Ev) : SemLabel T Ev → ℤ
  | .sem _ => 0
  | .act t e => L.event t e

variable [Fintype T] [Fintype Sem]

/-- The value of a state. -/
def value (L : Law T Sem Sh Pc Ev) (s : SemState T Sem Sh Pc) : ℤ :=
  ∑ x, L.unit x * (s.sem x).semCount.toNat + ∑ t, L.pos (s.pc t) + L.data s.shared

/-- The code keeps the law: `P` takes what its unit is worth into the
thread's position and `V` gives it back, and a step of the code, from a state
with `I`, adds its event. -/
structure Kept (L : Law T Sem Sh Pc Ev) (M : SemProgram T Sem Sh Pc Ev) (I : SemState T Sem Sh Pc → Prop) : Prop where
  p : ∀ pc x next, M.op pc = some (.p x next) → L.pos next = L.pos pc + L.unit x
  v : ∀ pc x next, M.op pc = some (.v x next) → L.pos next + L.unit x = L.pos pc
  act : ∀ s t e next sh, I s → M.op (s.pc t) = none → M.act s.pc s.shared t e next sh →
    L.pos next + L.data sh = L.pos (s.pc t) + L.data s.shared + L.event t e

variable {L : Law T Sem Sh Pc Ev} {I : SemState T Sem Sh Pc → Prop}

omit [DecidableEq T] [DecidableEq Sem] [Fintype T] [Fintype Sem] in
/-- The calls of `P` and `V` together. -/
theorem Kept.of_op (hop : ∀ pc op, M.op pc = some op → L.pos op.next = L.pos pc + op.sign * L.unit op.sem)
    (hact : ∀ s t e next sh, I s → M.op (s.pc t) = none → M.act s.pc s.shared t e next sh →
      L.pos next + L.data sh = L.pos (s.pc t) + L.data s.shared + L.event t e) : L.Kept M I := by
  refine ⟨fun pc x next h => ?_, fun pc x next h => ?_, hact⟩
  · simpa [SemOp.next, SemOp.sign, SemOp.sem] using hop _ _ h
  · have hv := hop _ _ h
    simp only [SemOp.next, SemOp.sign, SemOp.sem] at hv
    linarith

omit [DecidableEq Sem] [Fintype Sem] in
theorem sum_pos_update (t : T) (next : Pc) :
    ∑ u, L.pos (Function.update s.pc t next u) + L.pos (s.pc t) = ∑ u, L.pos (s.pc u) + L.pos next := by
  have hchange := Census.sum_change (f := fun u => L.pos (Function.update s.pc t next u))
    (g := fun u => L.pos (s.pc u)) t fun u hu => by rw [Function.update_of_ne hu]
  rwa [Function.update_self] at hchange

omit [Fintype T] [DecidableEq T] in
theorem sum_unit_update (x : Sem) (m : Semaphore T) :
    ∑ y, L.unit y * (Function.update s.sem x m y).semCount.toNat + L.unit x * (s.sem x).semCount.toNat =
      ∑ y, L.unit y * (s.sem y).semCount.toNat + L.unit x * m.semCount.toNat := by
  have hchange := Census.sum_change (f := fun y => L.unit y * ((Function.update s.sem x m y).semCount.toNat : ℤ))
    (g := fun y => L.unit y * ((s.sem y).semCount.toNat : ℤ)) x fun y hy => by rw [Function.update_of_ne hy]
  rwa [Function.update_self] at hchange

/-- **A step adds its event.** -/
theorem Kept.step (hL : L.Kept M I) (hinv : M.Inv s) (hI : I s) (hst : M.Step s a s') :
    L.value s' = L.value s + L.label a := by
  unfold value label
  cases hst with
  | @p t x next m hop hp =>
    have hcount : (m.semCount.toNat : ℤ) + 1 = (s.sem x).semCount.toNat := by
      exact_mod_cast (hp.spec (hinv.ok x)).count
    have hunits := sum_unit_update (L := L) (s := s) x m
    have hpos := sum_pos_update (L := L) (s := s) t next
    rw [← hcount] at hunits
    linarith [hL.p _ _ _ hop]
  | @sleep t x next m hop hp =>
    have hcount : m.semCount.toNat = (s.sem x).semCount.toNat := (hp.spec (hinv.ok x)).count
    have hunits := sum_unit_update (L := L) (s := s) x m
    rw [hcount] at hunits
    linarith
  | @v t x next m hop hv =>
    have hcount : (m.semCount.toNat : ℤ) = (s.sem x).semCount.toNat + 1 := by
      exact_mod_cast (semV_spec (hinv.ok x) hv).2.1
    have hunits := sum_unit_update (L := L) (s := s) x m
    have hpos := sum_pos_update (L := L) (s := s) t next
    rw [hcount] at hunits
    linarith [hL.v _ _ _ hop]
  | @act t e next sh hop hact =>
    have hpos := sum_pos_update (L := L) (s := s) t next
    linarith [hL.act _ _ _ _ _ hI hop hact]

/-- **The value of a run's last state**, when `I` holds along it. -/
theorem Kept.run (hL : L.Kept M I) {as : List (SemLabel T Ev)} (hinv : M.Inv s)
    (hI : ∀ bs u, Run M.Step s bs u → I u) (h : Run M.Step s as s') :
    L.value s' = L.value s + (as.map L.label).sum := by
  induction h with
  | nil => simp
  | snoc a h hst ih =>
    have hinv' := Run.invariant hinv (fun _ _ _ h hst => hst.inv h) h
    rw [hL.step hinv' (hI _ _ h) hst, ih, List.map_append, List.sum_append]
    simp [add_assoc]

/-- Where no event is worth anything positive, the value does not grow. -/
theorem Kept.run_le (hL : L.Kept M I) (hevent : ∀ t e, L.event t e ≤ 0) {as : List (SemLabel T Ev)} (hinv : M.Inv s)
    (hI : ∀ bs u, Run M.Step s bs u → I u) (h : Run M.Step s as s') : L.value s' ≤ L.value s := by
  induction h with
  | nil => exact le_rfl
  | snoc a h hst ih =>
    have hlabel : L.label a ≤ 0 := by
      cases a with
      | sem t => exact le_rfl
      | act t e => exact hevent t e
    have hstep := hL.step (Run.invariant hinv (fun _ _ _ h hst => hst.inv h) h) (hI _ _ h) hst
    omega

/-- A law that counts the units of one semaphore. -/
def count (x : Sem) (w : Pc → ℕ) (k : Sh → ℕ) (g : T → Ev → ℤ) : Law T Sem Sh Pc Ev :=
  ⟨fun y => if y = x then 1 else 0, fun pc => w pc, fun sh => k sh, g⟩

omit [DecidableEq T] in
theorem value_count (x : Sem) (w : Pc → ℕ) (k : Sh → ℕ) (g : T → Ev → ℤ) :
    (count x w k g).value s = ((s.sem x).semCount.toNat + Census.total w s.pc + k s.shared : ℕ) := by
  simp [value, count, Census.total]

/-- **What a semaphore counts**: its units, those with the threads and those
in the shared data stay as many as they were. -/
theorem Kept.count_run {x : Sem} {w : Pc → ℕ} {k : Sh → ℕ} (hL : (count x w k fun _ _ => 0).Kept M I)
    {as : List (SemLabel T Ev)} (hinv : M.Inv s) (hI : ∀ bs u, Run M.Step s bs u → I u) (h : Run M.Step s as s') :
    (s'.sem x).semCount.toNat + Census.total w s'.pc + k s'.shared =
      (s.sem x).semCount.toNat + Census.total w s.pc + k s.shared := by
  have hzero : (as.map (count x w k fun (_ : T) (_ : Ev) => 0).label).sum = 0 := by
    refine List.sum_eq_zero fun v hv => ?_
    obtain ⟨a, -, rfl⟩ := List.mem_map.mp hv
    cases a <;> rfl
  have hrun := hL.run hinv hI h
  rw [hzero, add_zero, value_count, value_count] at hrun
  exact_mod_cast hrun

end Law

end Os161
