/-
# Filling an order

`fill_order` of `asst1/paintshop.c`, run by any number of staff threads. A
thread takes `tints_mutex`, then the semaphores of the can's colours one after
another, gives the mutex up, mixes, and gives the tints back without the
mutex. A step is a section of `P` or `V`, one turn of a loop on a colour 0, or
the return of `mix`.

A can is the list of its requested colours, all below `NCOLOURS`. The loops
over it are at a position: the colours before it and those from it on.

A tint is never in two hands (`tint_exclusion`). The threads in `fill_order`
are never all asleep if and only if no can asks for a tint twice
(`fill_order_never_stuck_iff`): such a can waits for the unit that it holds.
-/
import Os161.Thread.SemProgram

namespace Os161

/-- `requested_colours` of a `paint_can`. -/
abbrev PaintCan (ncolours : ℕ) := List (Fin ncolours)

/-- Where a staff thread is in `fill_order`: not in it, at `P(tints_mutex)`,
in the first loop with the colours before and from its position on, in
`mix()`, or in the second loop with the colours from its position on. -/
inductive FillPc (ncolours : ℕ)
  | out
  | lock (can : PaintCan ncolours)
  | acquire (got rest : PaintCan ncolours)
  | mixing (can : PaintCan ncolours)
  | release (rest : PaintCan ncolours)

/-- The semaphores `tints_mutex` and `access_specific_tints`. -/
inductive FillSem (ncolours : ℕ)
  | tintsMutex
  | accessSpecificTints (c : Fin ncolours)
  deriving DecidableEq, Fintype

/-- The steps of `fill_order` between its calls of `P` and `V`. -/
inductive FillEvent (ncolours : ℕ)
  | call (can : PaintCan ncolours)
  | skip
  | mixed
  | done

section Code

variable {ncolours : ℕ} [NeZero ncolours]

/-- The call of `P` or `V` that `fill_order` is at. -/
def fillOp : FillPc ncolours → Option (SemOp (FillSem ncolours) (FillPc ncolours))
  | .lock can => some (.p .tintsMutex (.acquire [] can))
  | .acquire got (c :: rest) =>
    if c ≠ 0 then some (.p (.accessSpecificTints c) (.acquire (got ++ [c]) rest)) else none
  | .acquire got [] => some (.v .tintsMutex (.mixing got))
  | .release (c :: rest) => if c ≠ 0 then some (.v (.accessSpecificTints c) (.release rest)) else none
  | _ => none

/-- Its other steps, called with one of the cans `cans`. -/
inductive FillAct (cans : Set (PaintCan ncolours)) : FillPc ncolours → FillEvent ncolours → FillPc ncolours → Prop
  | call {can : PaintCan ncolours} : can ∈ cans → FillAct cans .out (.call can) (.lock can)
  | skip {got rest : PaintCan ncolours} :
      FillAct cans (.acquire got (0 :: rest)) .skip (.acquire (got ++ [0]) rest)
  | mixed {can : PaintCan ncolours} : FillAct cans (.mixing can) .mixed (.release can)
  | skipRelease {rest : PaintCan ncolours} : FillAct cans (.release (0 :: rest)) .skip (.release rest)
  | done : FillAct cans (.release []) .done .out

/-- `fill_order`, called by staff threads with any of the cans `cans`. -/
def fillOrder (T : Type) (cans : Set (PaintCan ncolours)) :
    SemProgram T (FillSem ncolours) Unit (FillPc ncolours) (FillEvent ncolours) where
  op := fillOp
  act := fun pc _ t e next _ => FillAct cans (pc t) e next

/-- The calls of `P`. -/
theorem fillOp_p {pc next : FillPc ncolours} {x : FillSem ncolours} (h : fillOp pc = some (.p x next)) :
    (∃ can, pc = .lock can ∧ x = .tintsMutex ∧ next = .acquire [] can) ∨
      ∃ got c rest, c ≠ 0 ∧ pc = .acquire got (c :: rest) ∧ x = .accessSpecificTints c ∧
        next = .acquire (got ++ [c]) rest := by
  unfold fillOp at h
  split at h
  · cases h
    exact Or.inl ⟨_, rfl, rfl, rfl⟩
  · split_ifs at h with hc
    cases h
    exact Or.inr ⟨_, _, _, hc, rfl, rfl, rfl⟩
  · cases h
  · split_ifs at h
    cases h
  · cases h

/-- The calls of `V`. -/
theorem fillOp_v {pc next : FillPc ncolours} {x : FillSem ncolours} (h : fillOp pc = some (.v x next)) :
    (∃ got, pc = .acquire got [] ∧ x = .tintsMutex ∧ next = .mixing got) ∨
      ∃ c rest, c ≠ 0 ∧ pc = .release (c :: rest) ∧ x = .accessSpecificTints c ∧ next = .release rest := by
  unfold fillOp at h
  split at h
  · cases h
  · split_ifs at h
    cases h
  · cases h
    exact Or.inl ⟨_, rfl, rfl, rfl⟩
  · split_ifs at h with hc
    cases h
    exact Or.inr ⟨_, _, hc, rfl, rfl, rfl⟩
  · cases h

end Code

/-- The staff threads and the tints' semaphores. -/
abbrev Fill (T : Type) (ncolours : ℕ) := SemState T (FillSem ncolours) Unit (FillPc ncolours)

/-- `init_semaphore`, with all staff outside. -/
def fillInit (T : Type) (ncolours : ℕ) : Fill T ncolours where
  sem := fun _ => semCreate T 1
  shared := ()
  pc := fun _ => .out

variable {T : Type} [DecidableEq T] {ncolours : ℕ} [NeZero ncolours]

/-! ### Who holds what -/

namespace FillPc

/-- Holds `tints_mutex`. -/
def holdsMutex : FillPc ncolours → ℕ
  | .acquire _ _ => 1
  | _ => 0

/-- The units of the tint `c` that the colours `can` take. -/
def units (c : Fin ncolours) (can : PaintCan ncolours) : ℕ := if c = 0 then 0 else can.count c

/-- The units of the tint `c` that the thread has taken. -/
def holds (c : Fin ncolours) : FillPc ncolours → ℕ
  | .acquire got _ => units c got
  | .mixing can => units c can
  | .release rest => units c rest
  | _ => 0

theorem units_cons (c d : Fin ncolours) (can : PaintCan ncolours) :
    units c (d :: can) = units c can + if c = d ∧ d ≠ 0 then 1 else 0 := by
  unfold units
  by_cases hc : c = 0
  · rw [if_pos hc, if_pos hc, if_neg fun h => h.2 (h.1 ▸ hc)]
  · rw [if_neg hc, if_neg hc, List.count_cons]
    by_cases hcd : c = d
    · rw [if_pos (by simp [hcd]), if_pos ⟨hcd, hcd ▸ hc⟩]
    · rw [if_neg (by simpa using Ne.symm hcd), if_neg fun h => hcd h.1]

theorem units_snoc (c d : Fin ncolours) (can : PaintCan ncolours) :
    units c (can ++ [d]) = units c can + if c = d ∧ d ≠ 0 then 1 else 0 := by
  rw [← units_cons]
  unfold units
  rw [List.perm_append_singleton d can |>.count_eq c]

@[simp]
theorem units_nil (c : Fin ncolours) : units c [] = 0 := by
  simp [units]

theorem units_pos {c : Fin ncolours} (hc : c ≠ 0) {can : PaintCan ncolours} : 0 < units c can ↔ c ∈ can := by
  rw [units, if_neg hc, List.count_pos_iff]

end FillPc

section Laws

variable [Fintype T] {cans : Set (PaintCan ncolours)}

omit [DecidableEq T] [Fintype T] in
/-- The unit of `tints_mutex` is in the semaphore or with a thread in the
first loop. -/
theorem mutex_kept : (Law.count .tintsMutex FillPc.holdsMutex (fun _ => 0) fun _ _ => 0).Kept (fillOrder T cans)
    fun _ => True := by
  refine ⟨fun pc x next hop => ?_, fun pc x next hop => ?_, fun s t e next sh _ _ hact => ?_⟩
  · rcases fillOp_p hop with ⟨can, rfl, rfl, rfl⟩ | ⟨got, c, rest, -, rfl, rfl, rfl⟩
    · simp [Law.count, FillPc.holdsMutex]
    · simp [Law.count, FillPc.holdsMutex]
  · rcases fillOp_v hop with ⟨got, rfl, rfl, rfl⟩ | ⟨c, rest, -, rfl, rfl, rfl⟩
    · simp [Law.count, FillPc.holdsMutex]
    · simp [Law.count, FillPc.holdsMutex]
  · change FillAct cans (s.pc t) e next at hact
    generalize s.pc t = pc at hact
    cases hact <;> simp [Law.count, FillPc.holdsMutex]

omit [DecidableEq T] [Fintype T] in
/-- The unit of a tint is in its semaphore or with a thread that took it. -/
theorem tint_kept (c : Fin ncolours) :
    (Law.count (.accessSpecificTints c) (FillPc.holds c) (fun _ => 0) fun _ _ => 0).Kept (fillOrder T cans)
      fun _ => True := by
  refine ⟨fun pc x next hop => ?_, fun pc x next hop => ?_, fun s t e next sh _ _ hact => ?_⟩
  · rcases fillOp_p hop with ⟨can, rfl, rfl, rfl⟩ | ⟨got, d, rest, hd, rfl, rfl, rfl⟩
    · simp [Law.count, FillPc.holds]
    · simp [Law.count, FillPc.holds, FillPc.units_snoc, hd, eq_comm]
  · rcases fillOp_v hop with ⟨got, rfl, rfl, rfl⟩ | ⟨d, rest, hd, rfl, rfl, rfl⟩
    · simp [Law.count, FillPc.holds]
    · simp [Law.count, FillPc.holds, FillPc.units_cons, hd, eq_comm]
  · change FillAct cans (s.pc t) e next at hact
    generalize s.pc t = pc at hact
    cases hact <;> simp [Law.count, FillPc.holds, FillPc.units_snoc, FillPc.units_cons]

/-- **The invariant**: each semaphore's count and the units held make 1, and
a thread waits only where it is. -/
structure FillInv (cans : Set (PaintCan ncolours)) (s : Fill T ncolours) : Prop where
  inv : (fillOrder T cans).Inv s
  mutex : (s.sem .tintsMutex).semCount.toNat + Census.total FillPc.holdsMutex s.pc = 1
  tint : ∀ c, (s.sem (.accessSpecificTints c)).semCount.toNat + Census.total (FillPc.holds c) s.pc = 1

variable {evs : List (SemLabel T (FillEvent ncolours))} {s : Fill T ncolours}

/-- **The invariant holds along every run.** -/
theorem fillInv_run (h : Run (fillOrder T cans).Step (fillInit T ncolours) evs s) : FillInv cans s := by
  have h0 : (fillOrder T cans).Inv (fillInit T ncolours) := SemProgram.inv_init fun _ => rfl
  refine ⟨Run.invariant h0 (fun _ _ _ h hst => hst.inv h) h, ?_, fun c => ?_⟩
  · have hrun := mutex_kept.count_run h0 (fun _ _ _ => trivial) h
    rwa [Census.total_of_forall_zero (f := (fillInit T ncolours).pc) fun _ => rfl] at hrun
  · have hrun := (tint_kept c).count_run h0 (fun _ _ _ => trivial) h
    rwa [Census.total_of_forall_zero (f := (fillInit T ncolours).pc) fun _ => rfl] at hrun

end Laws

/-! ### Nobody is stuck -/

/-- Some threads are in `fill_order`, and all of them are asleep. -/
def Fill.Stuck (s : Fill T ncolours) : Prop := (∃ t, s.pc t ≠ .out) ∧ ∀ t, s.pc t ≠ .out → s.Asleep t

/-- The can asks for no tint twice. -/
def PaintCan.NoRepeat (can : PaintCan ncolours) : Prop := ∀ c, c ≠ 0 → can.count c ≤ 1

/-- The thread's can asks for no tint twice. -/
def FillPc.NoRepeat : FillPc ncolours → Prop
  | .lock can => PaintCan.NoRepeat can
  | .acquire got rest => PaintCan.NoRepeat (got ++ rest)
  | _ => True

/-- When no can asks for a tint twice, no thread's can does. -/
theorem noRepeat_run {cans : Set (PaintCan ncolours)} (hcans : ∀ can ∈ cans, PaintCan.NoRepeat can)
    {evs : List (SemLabel T (FillEvent ncolours))} {s : Fill T ncolours}
    (h : Run (fillOrder T cans).Step (fillInit T ncolours) evs s) (t : T) : (s.pc t).NoRepeat := by
  refine Run.invariant (I := fun s => ∀ t, (s.pc t).NoRepeat) (fun _ => trivial) (fun s a s' hs hst => ?_) h t
  refine hst.forall_pc (fun pc x next hpc hop => ?_) (fun pc x next _ hop => ?_) (fun u e next _ hpc hact => ?_) hs
  · rcases fillOp_p hop with ⟨can, rfl, rfl, rfl⟩ | ⟨got, c, rest, -, rfl, rfl, rfl⟩
    · exact hpc
    · simpa [FillPc.NoRepeat] using hpc
  · rcases fillOp_v hop with ⟨got, rfl, rfl, rfl⟩ | ⟨c, rest, -, rfl, rfl, rfl⟩
    · exact trivial
    · exact trivial
  · change FillAct cans (s.pc u) e next at hact
    generalize s.pc u = pc at hpc hact
    cases hact with
    | call hcan => exact hcans _ hcan
    | skip => simpa [FillPc.NoRepeat] using hpc
    | mixed | skipRelease | done => exact trivial

section Stuck

variable [Fintype T] {cans : Set (PaintCan ncolours)} {s : Fill T ncolours} {t : T}

omit [DecidableEq T] in
/-- A thread of a stuck state sleeps at the `P` it is at, and no unit is left
there. -/
theorem FillInv.stuck_at (h : FillInv cans s) (hs : s.Stuck) (ht : s.pc t ≠ .out) :
    ∃ x next, fillOp (s.pc t) = some (.p x next) ∧ (s.sem x).semCount.toNat = 0 := by
  obtain ⟨x, next, hop, hx⟩ := h.inv.asleep (hs.2 t ht)
  refine ⟨x, next, hop, not_not.mp fun hpos => ?_⟩
  obtain ⟨u, next', hu, hawake⟩ := h.inv.exists_awake hx hpos
  refine hawake (hs.2 u fun hout => ?_)
  rw [hout] at hu
  cases hu

omit [DecidableEq T] in
/-- A thread with a tint and without the mutex is awake. -/
theorem FillInv.awake_of_holds (h : FillInv cans s) (hs : s.Stuck) {c : Fin ncolours} (ht : 0 < (s.pc t).holds c) :
    (s.pc t).holdsMutex = 1 := by
  have hin : s.pc t ≠ .out := fun hout => by simp [hout, FillPc.holds] at ht
  obtain ⟨x, next, hop, -⟩ := h.stuck_at hs hin
  rcases fillOp_p hop with ⟨can, hpc, -, -⟩ | ⟨got, d, rest, -, hpc, -, -⟩
  · simp [hpc, FillPc.holds] at ht
  · rw [hpc]
    rfl

/-- With cans that ask for no tint twice, no state is stuck. -/
theorem FillInv.not_stuck (h : FillInv cans s) (hrep : ∀ t, (s.pc t).NoRepeat) : ¬ s.Stuck := by
  intro hs
  obtain ⟨t, ht⟩ := hs.1
  -- a thread with the mutex: the one found, or the one that keeps it from the mutex
  have hholder : ∃ u, 0 < (s.pc u).holdsMutex := by
    obtain ⟨x, next, hop, hzero⟩ := h.stuck_at hs ht
    rcases fillOp_p hop with ⟨can, -, rfl, -⟩ | ⟨got, c, rest, -, hpc, -, -⟩
    · have hmutex := h.mutex
      exact Census.exists_of_total_pos (by omega)
    · exact ⟨t, by rw [hpc]; exact Nat.one_pos⟩
  obtain ⟨u, hu⟩ := hholder
  have hin : s.pc u ≠ .out := fun hout => by simp [hout, FillPc.holdsMutex] at hu
  obtain ⟨x, next, hop, hzero⟩ := h.stuck_at hs hin
  rcases fillOp_p hop with ⟨can, hpc, -, -⟩ | ⟨got, c, rest, hc, hpc, rfl, -⟩
  · simp [hpc, FillPc.holdsMutex] at hu
  · -- it waits for a tint that somebody has
    have htint := h.tint c
    obtain ⟨v, hv⟩ := Census.exists_of_total_pos (w := FillPc.holds c) (f := s.pc) (by omega)
    have hvu : v = u := by
      by_contra hne
      have hboth := Census.add_le_total (w := FillPc.holdsMutex) (f := s.pc) hne
      have hmutex := h.mutex
      have hvm := h.awake_of_holds hs hv
      omega
    rw [hvu, hpc] at hv
    have hmem : c ∈ got := (FillPc.units_pos hc).mp hv
    have hle : (got ++ c :: rest).count c ≤ 1 := by
      have hnr := hrep u
      rw [hpc] at hnr
      exact hnr c hc
    rw [List.count_append, List.count_cons_self] at hle
    have hpos := List.count_pos_iff.mpr hmem
    omega

/-- The thread `t` is alone in `fill_order`, at `pc`, and nobody waits. -/
structure Fill.Alone (s : Fill T ncolours) (t : T) (pc : FillPc ncolours) : Prop where
  pc : s.pc = Function.update (fun _ => .out) t pc
  calm : ∀ x u, ¬ (s.sem x).Waits u

omit [Fintype T] [NeZero ncolours] in
theorem Fill.Alone.at {pc : FillPc ncolours} (h : s.Alone t pc) : s.pc t = pc := by
  rw [h.pc, Function.update_self]

/-- An alone thread has the units that are not in the semaphore. -/
theorem Fill.Alone.tint {pc : FillPc ncolours} (h : s.Alone t pc) (hinv : FillInv cans s) (c : Fin ncolours) :
    (s.sem (.accessSpecificTints c)).semCount.toNat + pc.holds c = 1 := by
  have htotal := Census.total_update (w := FillPc.holds c) (f := fun _ : T => .out) t pc
  have hout : Census.total (FillPc.holds c) (fun _ : T => FillPc.out) = 0 := Census.total_of_forall_zero fun _ => rfl
  have htint := hinv.tint c
  have hzero : FillPc.holds c .out = 0 := rfl
  rw [h.pc] at htint
  omega

variable (cans) in
omit [Fintype T] in
/-- It moves on by itself. -/
theorem Fill.Alone.act {pc next : FillPc ncolours} {e : FillEvent ncolours} (h : s.Alone t pc)
    (hop : fillOp pc = none) (hact : FillAct cans pc e next) :
    ∃ s' : Fill T ncolours, (fillOrder T cans).Step s (.act t e) s' ∧ s'.Alone t next := by
  have hstep : (fillOrder T cans).Step s (.act t e) { s with shared := (), pc := Function.update s.pc t next } :=
    .act (by rw [h.at]; exact hop) (by rw [← h.at] at hact; exact hact)
  refine ⟨_, hstep, ?_, h.calm⟩
  show Function.update s.pc t next = _
  rw [h.pc, Function.update_idem]

variable (cans) in
omit [Fintype T] in
/-- It takes a unit that is there. -/
theorem Fill.Alone.p {pc : FillPc ncolours} (h : s.Alone t pc) (x : FillSem ncolours) (next : FillPc ncolours)
    (hop : fillOp pc = some (.p x next)) (hpos : (s.sem x).semCount.toNat ≠ 0) :
    ∃ s' : Fill T ncolours, (fillOrder T cans).Step s (.sem t) s' ∧ s'.Alone t next := by
  have hout : (s.sem x).semWchan.Outside t := not_or.mp (h.calm x t)
  refine ⟨_, .p (by rw [h.at]; exact hop) (semP_through hout hpos), ?_, fun y u hu => ?_⟩
  · show Function.update s.pc t next = _
    rw [h.pc, Function.update_idem]
  · refine h.calm y u ?_
    by_cases hy : y = x
    · rw [hy] at hu ⊢
      simpa [Semaphore.Waits] using hu
    · simpa [Semaphore.Waits, hy] using hu

/-- **One thread alone** gets through the first loop as far as no tint comes
a second time. -/
theorem alone_run {can : PaintCan ncolours} (hcan : can ∈ cans) (t : T) (got rest : PaintCan ncolours)
    (hsplit : can = got ++ rest) (hgot : PaintCan.NoRepeat got) :
    ∃ evs s, Run (fillOrder T cans).Step (fillInit T ncolours) evs s ∧ Fill.Alone s t (.acquire got rest) := by
  induction got using List.reverseRecOn generalizing rest with
  | nil =>
    have h0 : (fillInit T ncolours).Alone t .out :=
      ⟨(Function.update_eq_self t _).symm, fun _ => not_waits_create 1⟩
    obtain ⟨s1, hst1, h1⟩ := h0.act cans rfl (.call hcan)
    have hmutex := (fillInv_run (Run.single hst1)).mutex
    rw [h1.pc, Census.total_of_forall_zero] at hmutex
    · obtain ⟨s2, hst2, h2⟩ := h1.p cans .tintsMutex _ rfl (by omega)
      rw [hsplit] at h2
      exact ⟨_, s2, Run.snoc _ (Run.single hst1) hst2, h2⟩
    · intro u
      by_cases hut : u = t
      · rw [hut, Function.update_self]
        rfl
      · rw [Function.update_of_ne hut]
        rfl
  | append_singleton got c ih =>
    have hgot' : PaintCan.NoRepeat got := fun d hd => by
      have hle := hgot d hd
      rw [List.count_append] at hle
      omega
    obtain ⟨evs, s, hrun, halone⟩ := ih (c :: rest) (by simpa using hsplit) hgot'
    by_cases hc : c = 0
    · subst hc
      obtain ⟨s', hst, halone'⟩ := halone.act cans (by simp [fillOp]) .skip
      exact ⟨_, s', Run.snoc _ hrun hst, halone'⟩
    · -- the tint is not among those taken, so its unit is there
      have hnot : FillPc.units c got = 0 := by
        have hle := hgot c hc
        rw [List.count_append, List.count_singleton_self] at hle
        rw [FillPc.units, if_neg hc]
        omega
      have htint := halone.tint (fillInv_run hrun) c
      obtain ⟨s', hst, halone'⟩ := halone.p cans (.accessSpecificTints c) (.acquire (got ++ [c]) rest)
        (by simp [fillOp, hc]) (by simp only [FillPc.holds] at htint; omega)
      exact ⟨_, s', Run.snoc _ hrun hst, halone'⟩

theorem exists_first_repeat {can : PaintCan ncolours} (h : ¬ PaintCan.NoRepeat can) :
    ∃ got c rest, can = got ++ c :: rest ∧ c ≠ 0 ∧ c ∈ got ∧ PaintCan.NoRepeat got := by
  induction can using List.reverseRecOn with
  | nil => exact absurd (fun c _ => by simp) h
  | append_singleton can d ih =>
    by_cases hcan : PaintCan.NoRepeat can
    · unfold PaintCan.NoRepeat at h
      push Not at h
      obtain ⟨c, hc, hlt⟩ := h
      have hle := hcan c hc
      rw [List.count_append, List.count_singleton] at hlt
      split_ifs at hlt with hcd
      · have hdc : d = c := by simpa using hcd
        exact ⟨can, d, [], rfl, hdc ▸ hc, List.count_pos_iff.mp (by rw [hdc]; omega), hcan⟩
      · omega
    · obtain ⟨got, c, rest, rfl, hc, hmem, hgot⟩ := ih hcan
      exact ⟨got, c, rest ++ [d], by simp, hc, hmem, hgot⟩

/-- A can that asks for a tint twice gets a thread stuck. -/
theorem exists_stuck [Nonempty T] {can : PaintCan ncolours} (hcan : can ∈ cans) (hrep : ¬ PaintCan.NoRepeat can) :
    ∃ evs s, Run (fillOrder T cans).Step (fillInit T ncolours) evs s ∧ Fill.Stuck s := by
  obtain ⟨t⟩ := ‹Nonempty T›
  obtain ⟨got, c, rest, hsplit, hc, hmem, hgot⟩ := exists_first_repeat hrep
  obtain ⟨evs, s, hrun, halone⟩ := alone_run hcan t got (c :: rest) hsplit hgot
  have hpos := (FillPc.units_pos hc).mpr hmem
  have htint := halone.tint (fillInv_run hrun) c
  have hsleep := semP_sleeps (t := t) (not_or.mp (halone.calm (.accessSpecificTints c) t))
    (by simp only [FillPc.holds] at htint; omega)
  have hop : (fillOrder T cans).op (s.pc t) = some (.p (.accessSpecificTints c) (.acquire (got ++ [c]) rest)) := by
    rw [halone.at]
    simp [fillOrder, fillOp, hc]
  have hstep := SemProgram.Step.sleep hop hsleep
  refine ⟨_, _, Run.snoc _ hrun hstep, ⟨t, by simp [halone.at]⟩, fun u hu => ?_⟩
  have hut : u = t := by
    by_contra hne
    refine hu ?_
    show s.pc u = .out
    rw [halone.pc, Function.update_of_ne hne]
  exact ⟨.accessSpecificTints c, by simp [hut, wchanSleep]⟩

/-- **The threads in `fill_order` are never all asleep, if and only if no can
asks for a tint twice.** -/
theorem fill_order_never_stuck_iff [Nonempty T] (cans : Set (PaintCan ncolours)) :
    (∀ evs s, Run (fillOrder T cans).Step (fillInit T ncolours) evs s → ¬ Fill.Stuck s) ↔
      ∀ can ∈ cans, PaintCan.NoRepeat can := by
  refine ⟨fun h can hcan => not_not.mp fun hrep => ?_, fun h evs s hrun => ?_⟩
  · obtain ⟨evs, s, hrun, hstuck⟩ := exists_stuck (T := T) hcan hrep
    exact h evs s hrun hstuck
  · exact (fillInv_run hrun).not_stuck (noRepeat_run h hrun)

end Stuck

/-- One thread, a can with the tint 1 twice. -/
theorem fill_order_stuck_twice : ∃ evs s, Run (fillOrder (Fin 1) {([1, 1] : PaintCan 2)}).Step (fillInit (Fin 1) 2) evs s ∧
    Fill.Stuck s :=
  exists_stuck rfl fun h => absurd (h 1 (by decide)) (by decide)

/-- Three threads, a can of the tints 1 and 2. -/
theorem fill_order_never_stuck_two_tints : PaintCan.NoRepeat ([1, 2, 0] : PaintCan 3) ∧
    ∀ evs s, Run (fillOrder (Fin 3) {([1, 2, 0] : PaintCan 3)}).Step (fillInit (Fin 3) 3) evs s → ¬ Fill.Stuck s := by
  have hnone : PaintCan.NoRepeat ([1, 2, 0] : PaintCan 3) := fun c hc => by
    revert c
    decide
  refine ⟨hnone, (fill_order_never_stuck_iff _).mpr fun can hcan => ?_⟩
  rw [Set.mem_singleton_iff.mp hcan]
  exact hnone

/-! ### Tints are not shared -/

section Exclusion

variable [Fintype T] {cans : Set (PaintCan ncolours)} {s : Fill T ncolours} {t u : T}

/-- Two threads do not hold one tint. -/
theorem FillInv.not_both (h : FillInv cans s) {c : Fin ncolours} (htu : t ≠ u) (ht : 0 < (s.pc t).holds c) :
    (s.pc u).holds c = 0 := by
  have hle := Census.add_le_total (w := FillPc.holds c) (f := s.pc) htu
  have htint := h.tint c
  omega

/-- **Tints are used by one thread at a time, and given back.** -/
theorem tint_exclusion {evs : List (SemLabel T (FillEvent ncolours))}
    (h : Run (fillOrder T cans).Step (fillInit T ncolours) evs s) :
    (∀ t u can can', t ≠ u → s.pc t = .mixing can → s.pc u = .mixing can' →
      ∀ c, c ≠ 0 → c ∈ can → c ∉ can') ∧
    ((∀ t, s.pc t = .out) → ∀ x, (s.sem x).semCount = 1) := by
  have hinv := fillInv_run h
  refine ⟨fun t u can can' htu ht hu c hc hcan hcan' => ?_, fun hout x => ?_⟩
  · have hheld : 0 < (s.pc t).holds c := by
      rw [ht]
      exact (FillPc.units_pos hc).mpr hcan
    have hnot := hinv.not_both htu hheld
    rw [hu] at hnot
    exact ((FillPc.units_pos hc).mpr hcan').ne' hnot
  · -- no thread holds a unit, so it is in the semaphore
    have hone : (s.sem x).semCount.toNat = 1 := by
      cases x with
      | tintsMutex =>
        have hmutex := hinv.mutex
        rwa [Census.total_of_forall_zero fun t => by rw [hout t]; rfl] at hmutex
      | accessSpecificTints c =>
        have htint := hinv.tint c
        rwa [Census.total_of_forall_zero fun t => by rw [hout t]; rfl] at htint
    exact UInt32.toNat_inj.mp hone

end Exclusion

/-- Two threads and a can of the tints 1 and 2: once a thread has got through
the first loop and mixes, the other one mixes no can with the tint 1. -/
theorem tint_exclusion_mixing : ∃ evs s, Run (fillOrder (Fin 2) {([1, 2] : PaintCan 3)}).Step (fillInit (Fin 2) 3) evs s ∧
    s.pc 0 = .mixing [1, 2] ∧ ∀ can, s.pc 1 = .mixing can → 1 ∉ can := by
  have hcan : ([1, 2] : PaintCan 3) ∈ ({[1, 2]} : Set (PaintCan 3)) := rfl
  obtain ⟨evs, s, hrun, halone⟩ := alone_run hcan (0 : Fin 2) [1, 2] [] rfl (by intro c hc; revert c; decide)
  have hmutex := (fillInv_run hrun).mutex
  have hheld := Census.le_total (w := FillPc.holdsMutex) (f := s.pc) 0
  rw [halone.at] at hheld
  simp only [FillPc.holdsMutex] at hheld
  have hcount : (s.sem .tintsMutex).semCount = 0 := UInt32.toNat_inj.mp (by rw [UInt32.toNat_zero]; omega)
  have hv := semV_of_ne (s := s.sem .tintsMutex) (by rw [hcount]; decide)
  have hop : (fillOrder (Fin 2) {([1, 2] : PaintCan 3)}).op (s.pc 0) = some (.v .tintsMutex (.mixing [1, 2])) := by
    rw [halone.at]
    rfl
  have hrun' := Run.snoc _ hrun (.v hop hv)
  refine ⟨_, _, hrun', by simp, fun can hcan => ?_⟩
  exact (tint_exclusion hrun').1 0 1 [1, 2] can (by decide) (by simp) hcan 1 (by decide) (by decide)

end Os161
