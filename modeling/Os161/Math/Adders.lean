/-
# The adders

`asst1/math.c`: `maths` forks `NADDERS` threads that count to `NADDS`
together, waits for them and prints what they did. A step is a section of `P`
or `V`, or one read or write of `counter` or of an entry of `adder_counters`;
any thread may go between two steps. A position is where a thread is in the
code, with its local variables.

`lock_cnt` makes the increments exclusive (`lock_total`), so what a thread has
read of the counter is the counter as long as it holds the lock (`Knows`). An
increment that is not yet in the statistics is with the thread that made it
(`counter_eq`), and `finished` counts the threads that are through
(`finished_total`).
-/
import Os161.Thread.SemProgram

namespace Os161

namespace Adders

/-- The semaphores of `maths`. -/
inductive Sem
  | lockCnt
  | finished
  deriving DecidableEq

instance : Fintype Sem := ⟨{.lockCnt, .finished}, fun x => by cases x <;> decide⟩

/-- Where a thread is. -/
inductive Pc
  -- `maths`
  | forking (index : ℕ)
  | waiting (index : ℕ)
  | printing
  | summing (printed : UInt32) (index : ℕ) (sum : UInt32)
  | returned (printed sum : UInt32)
  -- `adder`
  | unforked
  | enter
  | readA
  | test (a : UInt32)
  | readCounter (a : UInt32)
  | writeCounter (a v : UInt32)
  | readB (a : UInt32)
  | readStat (a b : UInt32)
  | writeStat (a b v : UInt32)
  | check (a b : UInt32)
  | leave (flag : Bool)
  | loop (flag : Bool)
  | signal
  | exited
  deriving DecidableEq

/-- A step, and whether it is the one that reports `a + 1 != b`. -/
inductive Ev
  | step
  | insane (a b : UInt32)
  deriving DecidableEq

/-- `counter` and `adder_counters`. -/
structure Shared (nadders : ℕ) where
  counter : UInt32
  adderCounters : Fin nadders → UInt32

/-- The thread of `maths` is `none`. -/
abbrev Thread (nadders : ℕ) := Option (Fin nadders)

variable {nadders : ℕ}

/-- The calls of `P` and `V`. -/
def op (nadders : ℕ) : Pc → Option (SemOp Sem Pc)
  | .waiting index => if index < nadders then some (.p .finished (.waiting (index + 1))) else none
  | .enter => some (.p .lockCnt .readA)
  | .leave flag => some (.v .lockCnt (.loop flag))
  | .signal => some (.v .finished .exited)
  | _ => none

/-- `maths` has forked the adder `i`. -/
def Pc.forked (i : Fin nadders) : Pc → Bool
  | .forking index => i.val < index
  | _ => true

/-- The other steps of `adder`. -/
def adder (nadds : UInt32) (main : Pc) (i : Fin nadders) (sh : Shared nadders) : Pc → Option (Ev × Pc × Shared nadders)
  | .unforked => if main.forked i then some (.step, .enter, sh) else none
  | .readA => some (.step, .test sh.counter, sh)
  | .test a => some (.step, if a < nadds then .readCounter a else .leave false, sh)
  -- `counter = counter + 1`
  | .readCounter a => some (.step, .writeCounter a sh.counter, sh)
  | .writeCounter a v => some (.step, .readB a, { sh with counter := v + 1 })
  | .readB a => some (.step, .readStat a sh.counter, sh)
  -- `adder_counters[addernumber]++`
  | .readStat a b => some (.step, .writeStat a b (sh.adderCounters i), sh)
  | .writeStat a b v =>
    some (.step, .check a b, { sh with adderCounters := Function.update sh.adderCounters i (v + 1) })
  | .check a b => some (if a + 1 ≠ b then .insane a b else .step, .leave true, sh)
  | .loop flag => some (.step, if flag then .enter else .signal, sh)
  | _ => none

/-- The other steps of `maths`. -/
def maths (sh : Shared nadders) : Pc → Option (Ev × Pc × Shared nadders)
  | .forking index => some (.step, if index < nadders then .forking (index + 1) else .waiting 0, sh)
  | .waiting index => if index < nadders then none else some (.step, .printing, sh)
  | .printing => some (.step, .summing sh.counter 0 0, sh)
  | .summing printed index sum =>
    if h : index < nadders then some (.step, .summing printed (index + 1) (sum + sh.adderCounters ⟨index, h⟩), sh)
    else some (.step, .returned printed sum, sh)
  | _ => none

/-- The program. -/
def program (nadders : ℕ) (nadds : UInt32) : SemProgram (Thread nadders) Sem (Shared nadders) Pc Ev where
  op := op nadders
  act pcs sh t e next sh' :=
    match t with
    | none => maths sh (pcs none) = some (e, next, sh')
    | some i => adder nadds (pcs none) i sh (pcs (some i)) = some (e, next, sh')

/-- Before the first fork; the counters are 0. -/
def start (nadders : ℕ) : SemState (Thread nadders) Sem (Shared nadders) Pc where
  sem
    | .lockCnt => semCreate _ 1
    | .finished => semCreate _ 0
  shared := ⟨0, fun _ => 0⟩
  pc
    | none => .forking 0
    | some _ => .unforked

/-! ### Positions -/

/-- A position of `maths`. -/
def Pc.OfMaths (nadders : ℕ) : Pc → Prop
  | .forking index | .waiting index | .summing _ index _ => index ≤ nadders
  | .printing | .returned _ _ => True
  | _ => False

/-- A position of `adder`. -/
def Pc.OfAdder : Pc → Prop
  | .forking _ | .waiting _ | .printing | .summing _ _ _ | .returned _ _ => False
  | _ => True

/-- A position of the thread's own code. -/
def Role (nadders : ℕ) : Thread nadders → Pc → Prop
  | none, pc => pc.OfMaths nadders
  | some _, pc => pc.OfAdder

variable {nadds : UInt32} {s s' : SemState (Thread nadders) Sem (Shared nadders) Pc} {a : SemLabel (Thread nadders) Ev}

theorem role_op {t : Thread nadders} {pc : Pc} {o : SemOp Sem Pc} (h : Role nadders t pc) (ho : op nadders pc = some o) :
    Role nadders t o.next := by
  unfold op at ho
  split at ho
  · split_ifs at ho with hlt
    cases ho
    cases t with
    | none => exact hlt
    | some i => exact absurd h id
  all_goals cases ho
  all_goals
    cases t with
    | none => exact absurd h id
    | some i => trivial

theorem role_act {t : Thread nadders} {e : Ev} {next : Pc} {sh : Shared nadders} (h : Role nadders t (s.pc t))
    (ha : (program nadders nadds).act s.pc s.shared t e next sh) : Role nadders t next := by
  cases t with
  | none =>
    have ha' : maths s.shared (s.pc none) = some (e, next, sh) := ha
    unfold maths at ha'
    split at ha' <;> rename_i hpc
    · rw [hpc] at h
      cases ha'
      split_ifs with hlt
      · exact hlt
      · exact Nat.zero_le _
    · split_ifs at ha'
      cases ha'
      trivial
    · cases ha'
      exact Nat.zero_le _
    · split_ifs at ha' with hlt
      · cases ha'
        exact hlt
      · cases ha'
        trivial
    · cases ha'
  | some i =>
    have ha' : adder nadds (s.pc none) i s.shared (s.pc (some i)) = some (e, next, sh) := ha
    unfold adder at ha'
    split at ha'
    · split_ifs at ha'
      cases ha'
      trivial
    all_goals cases ha'
    all_goals first | trivial | (split_ifs <;> trivial)

theorem role_step (h : ∀ t, Role nadders t (s.pc t)) (hst : (program nadders nadds).Step s a s') (t : Thread nadders) :
    Role nadders t (s'.pc t) :=
  hst.assertions (A := fun t pc _ => Role nadders t pc) (fun _ _ x next _ h ho => role_op (o := .p x next) h ho)
    (fun _ _ x next _ h ho => role_op (o := .v x next) h ho) (fun _ _ _ _ h ha => role_act h ha) (fun _ _ _ _ _ _ h _ => h) h t

theorem role_run {as : List (SemLabel (Thread nadders) Ev)} (h : Run (program nadders nadds).Step (start nadders) as s) :
    ∀ t, Role nadders t (s.pc t) := by
  refine Run.invariant (I := fun s => ∀ t, Role nadders t (s.pc t)) ?_ (fun _ _ _ hi hst => role_step hi hst) h
  intro t
  cases t with
  | none => exact Nat.zero_le _
  | some i => trivial

/-! ### The semaphores count -/

/-- The thread is between its `P` and its `V` of `lock_cnt`. -/
def Pc.locked : Pc → ℕ
  | .readA | .test _ | .readCounter _ | .writeCounter _ _ | .readB _ | .readStat _ _ | .writeStat _ _ _ | .check _ _
  | .leave _ => 1
  | _ => 0

/-- What a thread takes from `finished` or still owes it. -/
def Pc.signals (nadders : ℕ) : Pc → ℕ
  | .forking _ => 0
  | .waiting index => index
  | .printing | .summing _ _ _ | .returned _ _ => nadders
  | .exited => 0
  | _ => 1

section Weights

variable {main pc next : Pc} {i : Fin nadders} {sh sh' : Shared nadders} {e : Ev}

theorem maths_locked (h : maths sh pc = some (e, next, sh')) : next.locked = pc.locked := by
  unfold maths at h
  split at h
  · cases h
    split_ifs <;> rfl
  · split_ifs at h
    cases h
    rfl
  · cases h
    rfl
  · split_ifs at h
    all_goals cases h
    all_goals rfl
  · cases h

theorem adder_locked (h : adder nadds main i sh pc = some (e, next, sh')) : next.locked = pc.locked := by
  unfold adder at h
  split at h
  · split_ifs at h
    cases h
    rfl
  all_goals cases h
  all_goals first | rfl | (split_ifs <;> rfl)

theorem maths_signals (hpc : pc.OfMaths nadders) (h : maths sh pc = some (e, next, sh')) :
    next.signals nadders = pc.signals nadders := by
  unfold maths at h
  split at h
  · cases h
    split_ifs <;> rfl
  · split_ifs at h with hlt
    cases h
    exact le_antisymm (not_lt.mp hlt) hpc
  · cases h
    rfl
  · split_ifs at h
    all_goals cases h
    all_goals rfl
  · cases h

theorem adder_signals (h : adder nadds main i sh pc = some (e, next, sh')) :
    next.signals nadders = pc.signals nadders := by
  unfold adder at h
  split at h
  · split_ifs at h
    cases h
    rfl
  all_goals cases h
  all_goals first | rfl | (split_ifs <;> rfl)

end Weights

/-- A count that the steps of the code leave alone. -/
theorem count_kept {x : Sem} {w : Pc → ℕ} {I : SemState (Thread nadders) Sem (Shared nadders) Pc → Prop}
    (hop : ∀ pc o, op nadders pc = some o → (w o.next : ℤ) = w pc + o.sign * if o.sem = x then 1 else 0)
    (hmaths : ∀ s e next sh, I s → maths s.shared (s.pc none) = some (e, next, sh) → w next = w (s.pc none))
    (hadder : ∀ main (i : Fin nadders) sh pc e next sh', adder nadds main i sh pc = some (e, next, sh') →
      w next = w pc) :
    (Law.count x w (fun _ => 0) fun _ _ => 0 : Law (Thread nadders) Sem (Shared nadders) Pc Ev).Kept
      (program nadders nadds) I := by
  refine Law.Kept.of_op hop fun s t e next sh hI _ ha => ?_
  have hw : w next = w (s.pc t) := by
    cases t with
    | none => exact hmaths s e next sh hI ha
    | some i => exact hadder _ i _ _ e next sh ha
  simp [Law.count, hw]

theorem lock_op {pc : Pc} {o : SemOp Sem Pc} (h : op nadders pc = some o) :
    (o.next.locked : ℤ) = pc.locked + o.sign * if o.sem = .lockCnt then 1 else 0 := by
  unfold op at h
  split at h
  · split_ifs at h
    cases h
    rfl
  all_goals cases h
  all_goals rfl

theorem finished_op {pc : Pc} {o : SemOp Sem Pc} (h : op nadders pc = some o) :
    (o.next.signals nadders : ℤ) = pc.signals nadders + o.sign * if o.sem = .finished then 1 else 0 := by
  unfold op at h
  split at h
  · rename_i index
    split_ifs at h
    cases h
    show ((index + 1 : ℕ) : ℤ) = index + 1 * 1
    push_cast
    ring
  all_goals cases h
  all_goals rfl

section Runs

variable {as : List (SemLabel (Thread nadders) Ev)} (h : Run (program nadders nadds).Step (start nadders) as s)
include h

theorem inv_run : (program nadders nadds).Inv s := by
  refine Run.invariant (SemProgram.inv_init (n := fun x => if x = .lockCnt then 1 else 0) fun x => ?_)
    (fun _ _ _ hi hst => hst.inv hi) h
  cases x <;> rfl

/-- **One thread at a time.** -/
theorem lock_total : (s.sem .lockCnt).semCount.toNat + Census.total Pc.locked s.pc = 1 := by
  have hop : ∀ pc o, op nadders pc = some o →
      (o.next.locked : ℤ) = pc.locked + o.sign * if o.sem = .lockCnt then 1 else 0 := fun _ _ => lock_op
  have hL : (Law.count .lockCnt Pc.locked _ _).Kept (program nadders nadds) fun _ => True :=
    count_kept hop (fun _ _ _ _ _ => maths_locked) fun _ _ _ _ _ _ _ => adder_locked
  have hrun := hL.count_run (inv_run Run.nil) (fun _ _ _ => trivial) h
  have hzero : Census.total Pc.locked (start nadders).pc = 0 := by
    refine Census.total_of_forall_zero fun t => ?_
    cases t <;> rfl
  have hone : ((start nadders).sem .lockCnt).semCount.toNat = 1 := rfl
  omega

/-- **What `finished` counts.** -/
theorem finished_total : (s.sem .finished).semCount.toNat + Census.total (Pc.signals nadders) s.pc = nadders := by
  have hop : ∀ pc o, op nadders pc = some o →
      (o.next.signals nadders : ℤ) = pc.signals nadders + o.sign * if o.sem = .finished then 1 else 0 :=
    fun _ _ => finished_op
  have hL : (Law.count .finished (Pc.signals nadders) _ _).Kept (program nadders nadds)
      fun s => ∀ t, Role nadders t (s.pc t) :=
    count_kept hop (fun _ _ _ _ hI => maths_signals (hI none)) fun _ _ _ _ _ _ _ => adder_signals
  have hrun := hL.count_run (inv_run Run.nil) (fun _ _ hr => role_run hr) h
  have htotal : Census.total (Pc.signals nadders) (start nadders).pc = nadders := by
    unfold Census.total
    rw [Fintype.sum_option]
    show 0 + ∑ _ : Fin nadders, 1 = nadders
    simp
  have hzero : ((start nadders).sem .finished).semCount.toNat = 0 := rfl
  omega

/-- Two threads do not hold the lock. -/
theorem locked_unique {t u : Thread nadders} (ht : (s.pc t).locked = 1) (htu : t ≠ u) : (s.pc u).locked = 0 := by
  have := Census.add_le_one (lock_total h) htu
  omega

/-- Once `maths` has all its units, every adder is through. -/
theorem exited_of_signals (hmain : (s.pc none).signals nadders = nadders) (i : Fin nadders) :
    s.pc (some i) = .exited := by
  have htotal := finished_total h
  have hsum := Census.add_le_total (w := Pc.signals nadders) (f := s.pc) (show (none : Thread nadders) ≠ some i by simp)
  have hzero : (s.pc (some i)).signals nadders = 0 := by omega
  have hrole : (s.pc (some i)).OfAdder := role_run h (some i)
  revert hzero hrole
  generalize s.pc (some i) = pc
  intro hzero hrole
  cases pc <;> first | rfl | exact absurd hzero one_ne_zero | exact hrole.elim

end Runs

/-! ### What a thread knows -/

/-- What a thread that holds the lock has read is still so; a thread that
leaves its loop has seen the limit reached. -/
def Knows (nadds : UInt32) (t : Thread nadders) (sh : Shared nadders) : Pc → Prop
  | .test a => a = sh.counter
  | .readCounter a => a = sh.counter ∧ a < nadds
  | .writeCounter a v => a = sh.counter ∧ v = a ∧ a < nadds
  | .readB a => sh.counter = a + 1
  | .readStat a b => sh.counter = a + 1 ∧ b = a + 1
  | .writeStat a b v => b = a + 1 ∧ ∃ i, t = some i ∧ v = sh.adderCounters i
  | .check a b => b = a + 1
  | .leave flag | .loop flag => flag = false → nadds ≤ sh.counter
  | .signal | .exited => nadds ≤ sh.counter
  | .summing printed index sum => printed = sh.counter ∧
    sum.toNat = ∑ i : Fin nadders, if i.val < index then (sh.adderCounters i).toNat else 0
  | .returned printed sum => printed = sh.counter ∧ sum.toNat = ∑ i, (sh.adderCounters i).toNat
  | _ => True

/-- The thread has counted and is not yet in the statistics. -/
def Pc.pending : Pc → ℕ
  | .readB _ | .readStat _ _ | .writeStat _ _ _ => 1
  | _ => 0

/-- What a step of an adder can change. -/
inductive Wrote (i : Fin nadders) (sh : Shared nadders) (pc next : Pc) : Shared nadders → Prop
  | nothing (h : next.pending = pc.pending) : Wrote i sh pc next sh
  | counter (a v : UInt32) (hpc : pc = .writeCounter a v) (hnext : next = .readB a) :
    Wrote i sh pc next { sh with counter := v + 1 }
  | stat (a b v : UInt32) (hpc : pc = .writeStat a b v) (hnext : next = .check a b) :
    Wrote i sh pc next { sh with adderCounters := Function.update sh.adderCounters i (v + 1) }

section Acts

variable {main pc next : Pc} {i : Fin nadders} {sh sh' : Shared nadders} {e : Ev}

theorem adder_wrote (h : adder nadds main i sh pc = some (e, next, sh')) : Wrote i sh pc next sh' := by
  unfold adder at h
  split at h
  · split_ifs at h
    cases h
    exact .nothing rfl
  · cases h
    exact .nothing rfl
  · cases h
    refine .nothing ?_
    split_ifs <;> rfl
  · cases h
    exact .nothing rfl
  · cases h
    exact .counter _ _ rfl rfl
  · cases h
    exact .nothing rfl
  · cases h
    exact .nothing rfl
  · cases h
    exact .stat _ _ _ rfl rfl
  · cases h
    exact .nothing rfl
  · cases h
    refine .nothing ?_
    split_ifs <;> rfl
  · cases h

/-- `maths` only reads. -/
theorem maths_shared (h : maths sh pc = some (e, next, sh')) : sh' = sh ∧ next.pending = pc.pending := by
  unfold maths at h
  split at h
  · cases h
    refine ⟨rfl, ?_⟩
    split_ifs <;> rfl
  · split_ifs at h
    cases h
    exact ⟨rfl, rfl⟩
  · cases h
    exact ⟨rfl, rfl⟩
  · split_ifs at h
    all_goals cases h
    all_goals exact ⟨rfl, rfl⟩
  · cases h

theorem toNat_succ_of_lt {a b : UInt32} (h : a < b) : (a + 1).toNat = a.toNat + 1 := by
  have ha : a.toNat < b.toNat := UInt32.lt_iff_toNat_lt.mp h
  have hb := b.toNat_lt
  rw [UInt32.toNat_add, Nat.mod_eq_of_lt]
  · rfl
  · show a.toNat + 1 < 2 ^ 32
    omega

/-- What an adder knows after its step. -/
theorem adder_knows (hk : Knows nadds (some i) sh pc) (h : adder nadds main i sh pc = some (e, next, sh')) :
    Knows nadds (some i) sh' next := by
  unfold adder at h
  split at h
  · split_ifs at h
    cases h
    trivial
  · cases h
    rfl
  · cases h
    split_ifs with hlt
    · exact ⟨hk, hlt⟩
    · intro _
      rw [← (hk : _ = sh.counter)]
      exact UInt32.not_lt.mp hlt
  · cases h
    exact ⟨hk.1, hk.1.symm, hk.2⟩
  · cases h
    show _ + 1 = _ + 1
    rw [hk.2.1]
  · cases h
    exact ⟨hk, hk⟩
  · cases h
    exact ⟨hk.2, i, rfl, rfl⟩
  · cases h
    exact hk.1
  · cases h
    intro hf
    cases hf
  · cases h
    split_ifs with hflag
    · trivial
    · exact hk (by simpa using hflag)
  · cases h

/-- The sum of the first entries, with one more. -/
theorem sum_below_succ (f : Fin nadders → ℕ) {index : ℕ} (h : index < nadders) :
    (∑ i : Fin nadders, if i.val < index + 1 then f i else 0) =
      (∑ i : Fin nadders, if i.val < index then f i else 0) + f ⟨index, h⟩ := by
  have hsplit : ∀ i : Fin nadders, (if i.val < index + 1 then f i else 0) =
      (if i.val < index then f i else 0) + if i = ⟨index, h⟩ then f i else 0 := by
    intro i
    rcases lt_trichotomy i.val index with hlt | heq | hgt
    · have hne : i ≠ ⟨index, h⟩ := fun he => hlt.ne (congrArg Fin.val he)
      simp [hlt, hne, Nat.lt_succ_of_lt hlt]
    · have he : i = ⟨index, h⟩ := Fin.ext heq
      simp [he]
    · have hne : i ≠ ⟨index, h⟩ := fun he => hgt.ne' (congrArg Fin.val he)
      have h1 : ¬ i.val < index + 1 := by omega
      have h2 : ¬ i.val < index := by omega
      simp [h1, h2, hne]
  rw [Finset.sum_congr rfl fun i _ => hsplit i, Finset.sum_add_distrib, Finset.sum_ite_eq']
  simp

theorem sum_below_le (f : Fin nadders → ℕ) (index : ℕ) :
    (∑ i : Fin nadders, if i.val < index then f i else 0) ≤ ∑ i, f i :=
  Finset.sum_le_sum fun i _ => by split_ifs <;> omega

/-- What `maths` knows after its step. -/
theorem maths_knows (hsum : ∑ i, (sh.adderCounters i).toNat ≤ sh.counter.toNat) (hk : Knows nadds none sh pc)
    (h : maths sh pc = some (e, next, sh')) : Knows nadds none sh' next := by
  unfold maths at h
  split at h
  · cases h
    split_ifs <;> trivial
  · split_ifs at h
    cases h
    trivial
  · cases h
    exact ⟨rfl, by simp⟩
  · rename_i printed index sum
    split_ifs at h with hlt
    · cases h
      refine ⟨hk.1, ?_⟩
      have hle := sum_below_le (fun i => (sh.adderCounters i).toNat) (index + 1)
      have hnext := sum_below_succ (fun i => (sh.adderCounters i).toNat) hlt
      have hmax := sh.counter.toNat_lt
      have hk2 : sum.toNat = ∑ i : Fin nadders, if i.val < index then (sh.adderCounters i).toNat else 0 := hk.2
      rw [hnext, UInt32.toNat_add, Nat.mod_eq_of_lt (by omega), hk2]
    · cases h
      refine ⟨hk.1, hk.2.trans (Finset.sum_congr rfl fun i _ => if_pos ?_)⟩
      omega
  · cases h

end Acts

/-! ### The law of the run -/

/-- What holds in every state. -/
structure Counted (nadds : UInt32) (s : SemState (Thread nadders) Sem (Shared nadders) Pc) : Prop where
  le : s.shared.counter ≤ nadds
  knows : ∀ t, Knows nadds t s.shared (s.pc t)
  sum : s.shared.counter.toNat = ∑ i, (s.shared.adderCounters i).toNat + Census.total Pc.pending s.pc

theorem knows_op {t : Thread nadders} {pc : Pc} {o : SemOp Sem Pc} {sh : Shared nadders} (hk : Knows nadds t sh pc)
    (h : op nadders pc = some o) : Knows nadds t sh o.next := by
  unfold op at h
  split at h
  · split_ifs at h
    cases h
    trivial
  · cases h
    trivial
  · cases h
    exact hk
  · cases h
    exact hk
  · cases h

theorem pending_op {pc : Pc} {o : SemOp Sem Pc} (h : op nadders pc = some o) : o.next.pending = pc.pending := by
  unfold op at h
  split at h
  · split_ifs at h
    cases h
    rfl
  all_goals cases h
  all_goals rfl

/-- What a thread without the lock knows of the shared data, unless it is
`maths` adding up. -/
theorem Knows.frame {u : Thread nadders} {sh sh' : Shared nadders} {pc : Pc} (hk : Knows nadds u sh pc)
    (hrole : Role nadders u pc) (hlock : pc.locked = 0)
    (hmain : u = none → pc.signals nadders ≠ nadders) (hmono : nadds ≤ sh.counter → nadds ≤ sh'.counter) :
    Knows nadds u sh' pc := by
  cases pc with
  | loop flag => exact fun hf => hmono (hk hf)
  | signal => exact hmono hk
  | exited => exact hmono hk
  | summing printed index sum | returned printed sum =>
    cases u with
    | none => exact absurd rfl (hmain rfl)
    | some i => exact absurd hrole id
  | forking _ | waiting _ | printing | unforked | enter => trivial
  | _ => exact absurd hlock Nat.one_ne_zero

/-- What one thread knows is not changed by the step of another: only the
holder of the lock writes, and no adder moves once `maths` adds up. -/
theorem knows_others {as : List (SemLabel (Thread nadders) Ev)}
    (h : Run (program nadders nadds).Step (start nadders) as s) (hc : Counted nadds s) {t u : Thread nadders} {e : Ev}
    {next : Pc} {sh : Shared nadders} (htu : t ≠ u) (ha : (program nadders nadds).act s.pc s.shared t e next sh) :
    Knows nadds u sh (s.pc u) := by
  cases t with
  | none =>
    rw [(maths_shared ha).1]
    exact hc.knows u
  | some i =>
    have hi := hc.knows (some i)
    have hlocked : (s.pc (some i)).locked = 1 → (nadds ≤ s.shared.counter → nadds ≤ sh.counter) →
        Knows nadds u sh (s.pc u) := by
      intro hl hmono
      refine (hc.knows u).frame (role_run h u) (locked_unique h hl htu) ?_ hmono
      rintro rfl hs
      rw [exited_of_signals h hs i] at hl
      cases hl
    cases adder_wrote ha with
    | nothing => exact hc.knows u
    | counter a v hpc =>
      refine hlocked (by rw [hpc]; rfl) fun hle => ?_
      rw [hpc] at hi
      exact absurd (hi.1 ▸ hi.2.2) (UInt32.not_lt.mpr hle)
    | stat a b v hpc => exact hlocked (by rw [hpc]; rfl) id

/-- **A step of the code.** -/
theorem Counted.act (hc : Counted nadds s) {t : Thread nadders} {e : Ev} {next : Pc} {sh : Shared nadders}
    (ha : (program nadders nadds).act s.pc s.shared t e next sh) :
    sh.counter ≤ nadds ∧
      sh.counter.toNat = ∑ i, (sh.adderCounters i).toNat + Census.total Pc.pending (Function.update s.pc t next) := by
  have hupdate := Census.total_update (w := Pc.pending) (f := s.pc) t next
  have hsum := hc.sum
  cases t with
  | none =>
    obtain ⟨rfl, hsame⟩ := maths_shared ha
    exact ⟨hc.le, by omega⟩
  | some i =>
    have hi := hc.knows (some i)
    cases adder_wrote ha with
    | nothing hsame => exact ⟨hc.le, by omega⟩
    | counter a v hpc hnext =>
      rw [hpc] at hi
      obtain ⟨hac, hva, hlt⟩ := hi
      have hv : (v + 1).toNat = s.shared.counter.toNat + 1 := by
        rw [hva, toNat_succ_of_lt hlt, hac]
      have hlt' : a.toNat < nadds.toNat := UInt32.lt_iff_toNat_lt.mp hlt
      have hp0 : (s.pc (some i)).pending = 0 := by rw [hpc]; rfl
      have hp1 : next.pending = 1 := by rw [hnext]; rfl
      refine ⟨?_, ?_⟩
      · rw [UInt32.le_iff_toNat_le]
        show (v + 1).toNat ≤ nadds.toNat
        rw [hv, ← hac]
        exact hlt'
      · show (v + 1).toNat = ∑ i, (s.shared.adderCounters i).toNat + _
        omega
    | stat a b v hpc hnext =>
      rw [hpc] at hi
      obtain ⟨-, j, hj, hv⟩ := hi
      cases hj
      have hp1 : (s.pc (some i)).pending = 1 := by rw [hpc]; rfl
      have hp0 : next.pending = 0 := by rw [hnext]; rfl
      have hpos := Census.le_total (w := Pc.pending) (f := s.pc) (some i)
      have hle : (s.shared.adderCounters i).toNat ≤ ∑ j, (s.shared.adderCounters j).toNat :=
        Finset.single_le_sum (f := fun j => (s.shared.adderCounters j).toNat) (fun _ _ => Nat.zero_le _)
          (Finset.mem_univ i)
      have hmax := s.shared.counter.toNat_lt
      have hv1 : (v + 1).toNat = (s.shared.adderCounters i).toNat + 1 := by
        rw [hv, UInt32.toNat_add, Nat.mod_eq_of_lt]
        · rfl
        · show (s.shared.adderCounters i).toNat + 1 < 2 ^ 32
          omega
      have hchange := Census.sum_change (f := fun j => (Function.update s.shared.adderCounters i (v + 1) j).toNat)
        (g := fun j => (s.shared.adderCounters j).toNat) i fun j hj => by rw [Function.update_of_ne hj]
      simp only [Function.update_self] at hchange
      refine ⟨hc.le, ?_⟩
      show s.shared.counter.toNat = ∑ j, (Function.update s.shared.adderCounters i (v + 1) j).toNat + _
      omega

/-- A step keeps what holds in every state. -/
theorem Counted.step {as : List (SemLabel (Thread nadders) Ev)}
    (h : Run (program nadders nadds).Step (start nadders) as s) (hc : Counted nadds s)
    (hst : (program nadders nadds).Step s a s') : Counted nadds s' := by
  have hstats : ∑ i, (s.shared.adderCounters i).toNat ≤ s.shared.counter.toNat := by
    have := hc.sum
    omega
  have hknows := hst.assertions (A := fun t pc sh => Knows nadds t sh pc)
    (fun _ _ x next _ hk ho => knows_op (o := .p x next) hk ho)
    (fun _ _ x next _ hk ho => knows_op (o := .v x next) hk ho)
    (fun t e next sh hk ha => by
      cases t with
      | none => exact maths_knows hstats hk ha
      | some i => exact adder_knows hk ha)
    (fun _ _ _ _ _ htu _ ha => knows_others h hc htu ha) hc.knows
  cases hst with
  | @p t x next m ho _ =>
    have hsame := Census.total_update_same (f := s.pc) (t := t) (pending_op (o := .p x next) ho)
    exact ⟨hc.le, hknows, hc.sum.trans (congrArg _ hsame.symm)⟩
  | sleep => exact ⟨hc.le, hknows, hc.sum⟩
  | @v t x next m ho _ =>
    have hsame := Census.total_update_same (f := s.pc) (t := t) (pending_op (o := .v x next) ho)
    exact ⟨hc.le, hknows, hc.sum.trans (congrArg _ hsame.symm)⟩
  | act _ ha =>
    obtain ⟨hle, hsum⟩ := hc.act ha
    exact ⟨hle, hknows, hsum⟩

/-- **Every state of every run.** -/
theorem counted_run {as : List (SemLabel (Thread nadders) Ev)}
    (h : Run (program nadders nadds).Step (start nadders) as s) : Counted nadds s := by
  induction h with
  | nil =>
    refine ⟨UInt32.zero_le, fun t => ?_, ?_⟩
    · cases t <;> trivial
    · have hzero : Census.total Pc.pending (start nadders).pc = 0 := by
        refine Census.total_of_forall_zero fun t => ?_
        cases t <;> rfl
      rw [hzero]
      simp [start]
  | snoc a h hst ih => exact ih.step h hst

theorem adder_sane {main pc next : Pc} {i : Fin nadders} {sh sh' : Shared nadders} {e : Ev}
    (hk : Knows nadds (some i) sh pc) (h : adder nadds main i sh pc = some (e, next, sh')) : e = .step := by
  unfold adder at h
  split at h
  · split_ifs at h
    cases h
    rfl
  · cases h; rfl
  · cases h; rfl
  · cases h; rfl
  · cases h; rfl
  · cases h; rfl
  · cases h; rfl
  · cases h; rfl
  · cases h
    exact if_neg fun hne => hne hk.symm
  · cases h; rfl
  · cases h

theorem maths_sane {pc next : Pc} {sh sh' : Shared nadders} {e : Ev} (h : maths sh pc = some (e, next, sh')) :
    e = .step := by
  unfold maths at h
  split at h
  · cases h; rfl
  · split_ifs at h
    cases h
    rfl
  · cases h; rfl
  · split_ifs at h
    all_goals cases h
    all_goals rfl
  · cases h

/-- No step reports `a + 1 != b`. -/
theorem sane_run {as : List (SemLabel (Thread nadders) Ev)}
    (h : Run (program nadders nadds).Step (start nadders) as s) : ∀ t x y, SemLabel.act t (.insane x y) ∉ as := by
  induction h with
  | nil =>
    intro t x y hmem
    cases hmem
  | snoc a h hst ih =>
    intro t x y hmem
    rcases List.mem_append.mp hmem with hmem | hmem
    · exact ih t x y hmem
    · cases List.mem_singleton.mp hmem
      cases hst with
      | act _ ha =>
        cases t with
        | none => cases maths_sane ha
        | some i => cases adder_sane ((counted_run h).knows (some i)) ha

/-- The adders are through. -/
theorem exited_total {as : List (SemLabel (Thread nadders) Ev)}
    (h : Run (program nadders nadds).Step (start nadders) as s) (hn : nadders ≠ 0)
    (hall : ∀ i, s.pc (some i) = .exited) :
    s.shared.counter = nadds ∧ ∑ i, (s.shared.adderCounters i).toNat = nadds.toNat := by
  have hc := counted_run h
  have hge : nadds ≤ s.shared.counter := by
    have hk := hc.knows (some ⟨0, Nat.pos_of_ne_zero hn⟩)
    rwa [hall] at hk
  have heq : s.shared.counter = nadds := UInt32.le_antisymm hc.le hge
  have hpending : Census.total Pc.pending s.pc = 0 := by
    refine Census.total_of_forall_zero fun t => ?_
    cases t with
    | none =>
      have hrole : (s.pc none).OfMaths nadders := role_run h none
      revert hrole
      cases s.pc none <;> simp [Pc.OfMaths, Pc.pending]
    | some i => rw [hall i]; rfl
  have hsum := hc.sum
  rw [hpending, heq, add_zero] at hsum
  exact ⟨heq, hsum.symm⟩

/-- **The adders count exactly.** In every state of every run the counter is
at most the limit, and no thread has seen `a + 1 != b`. Once every adder has
exited, the counter and the sum of the statistics are the limit, and so are
the two numbers that `maths` prints. (An array has at least one entry.) -/
theorem adders_count_exactly (nadders : ℕ) (nadds : UInt32) {as : List (SemLabel (Thread nadders) Ev)}
    {s : SemState (Thread nadders) Sem (Shared nadders) Pc}
    (h : Run (program nadders nadds).Step (start nadders) as s) :
    s.shared.counter ≤ nadds ∧
    (∀ t a b, SemLabel.act t (.insane a b) ∉ as) ∧
    (nadders ≠ 0 → (∀ i, s.pc (some i) = .exited) →
      s.shared.counter = nadds ∧ ∑ i, (s.shared.adderCounters i).toNat = nadds.toNat) ∧
    (nadders ≠ 0 → ∀ printed sum, s.pc none = .returned printed sum → printed = nadds ∧ sum = nadds) := by
  refine ⟨(counted_run h).le, sane_run h, exited_total h, fun hn printed sum hpc => ?_⟩
  have hsignals : (s.pc none).signals nadders = nadders := by
    rw [hpc]
    rfl
  obtain ⟨hcounter, htotal⟩ := exited_total h hn (exited_of_signals h hsignals)
  have hk := (counted_run h).knows none
  rw [hpc] at hk
  refine ⟨hk.1.trans hcounter, UInt32.toNat_inj.mp ?_⟩
  rw [← htotal]
  exact hk.2

/-- One adder that counts to 1, with `maths` to its end. -/
theorem one_adder_run : ∃ as s, Run (program 1 1).Step (start 1) as s ∧ s.pc none = .returned 1 1 ∧
    ∀ i, s.pc (some i) = .exited := by
  have cons : ∀ {s t a}, (program 1 1).Step s a t →
      (∃ as u, Run (program 1 1).Step t as u ∧ u.pc none = .returned 1 1 ∧ ∀ i, u.pc (some i) = .exited) →
      ∃ as u, Run (program 1 1).Step s as u ∧ u.pc none = .returned 1 1 ∧ ∀ i, u.pc (some i) = .exited := by
    intro s t a hst hr
    obtain ⟨as, u, hr, hu⟩ := hr
    exact ⟨a :: as, u, Run.cons hst hr, hu⟩
  have act : ∀ (t : Thread 1) {s : SemState (Thread 1) Sem (Shared 1) Pc} {e next sh}, op 1 (s.pc t) = none →
      (program 1 1).act s.pc s.shared t e next sh →
      (program 1 1).Step s (.act t e) { s with shared := sh, pc := Function.update s.pc t next } :=
    fun _ _ _ _ _ ho ha => .act ho ha
  -- `maths` forks the adder, which starts and gets the lock
  refine cons (act none rfl rfl) <| cons (act none rfl rfl) <| cons (act (some 0) rfl rfl) ?_
  refine cons (.p (t := some 0) rfl (semP_through ⟨List.not_mem_nil, Finset.notMem_empty _⟩ (by decide))) ?_
  -- it reads 0, writes 1, reads 1, counts itself and is content
  refine cons (act (some 0) rfl rfl) <| cons (act (some 0) rfl rfl) <| cons (act (some 0) rfl rfl) ?_
  refine cons (act (some 0) rfl rfl) <| cons (act (some 0) rfl rfl) <| cons (act (some 0) rfl rfl) ?_
  refine cons (act (some 0) rfl rfl) <| cons (act (some 0) rfl rfl) ?_
  refine cons (.v (t := some 0) rfl (semV_of_ne (by decide))) <| cons (act (some 0) rfl rfl) ?_
  -- the second time it finds the limit
  refine cons (.p (t := some 0) rfl (semP_through ⟨List.not_mem_nil, Finset.notMem_empty _⟩ (by decide))) ?_
  refine cons (act (some 0) rfl rfl) <| cons (act (some 0) rfl rfl) ?_
  refine cons (.v (t := some 0) rfl (semV_of_ne (by decide))) <| cons (act (some 0) rfl rfl) ?_
  refine cons (.v (t := some 0) rfl (semV_of_ne (by decide))) ?_
  -- `maths` has its unit of `finished`, and adds up
  refine cons (.p (t := none) rfl (semP_through ⟨List.not_mem_nil, Finset.notMem_empty _⟩ (by decide))) ?_
  refine cons (act none rfl rfl) <| cons (act none rfl rfl) <| cons (act none rfl rfl) <| cons (act none rfl rfl) ?_
  refine ⟨[], _, Run.nil, rfl, fun i => ?_⟩
  rw [Subsingleton.elim i 0]
  rfl

/-- The statement at that run. -/
theorem adders_count_exactly_one : ∃ as s, Run (program 1 1).Step (start 1) as s ∧ s.pc none = .returned 1 1 ∧
    s.shared.counter = 1 ∧ ∑ i, (s.shared.adderCounters i).toNat = 1 := by
  obtain ⟨as, s, h, hmain, hall⟩ := one_adder_run
  exact ⟨as, s, h, hmain, (adders_count_exactly 1 1 h).2.2.1 Nat.one_ne_zero hall⟩

end Adders

end Os161
