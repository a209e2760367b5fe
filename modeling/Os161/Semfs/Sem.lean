/-
# The user-level semaphores of semfs

`semfs_read`, `semfs_write` and `semfs_truncate` of
`kern/fs/semfs/semfs_vnops.c` on one semaphore, over any type of threads. All
three run under `sems_lock`, so what a thread does from the time it gets the
lock until it gives it up, by returning or in `cv_wait`, is one step.

`semfs_wakeup` signals nobody when the old count is positive, on the ground
that then there are no sleepers. There can be: a reader that was signalled
and has not yet run leaves the count positive while others sleep. A count
raised at that point can end up positive with readers asleep and nobody woken
(`semfs_lost_wakeup`). `Covered` is what it takes to avoid that, no less
(`semfs_run`): a raise from a positive count stays within what the woken
readers will take.
-/
import Os161.Lib.Prog
import Os161.Lib.Run
import Os161.Kern.Uio
import Os161.Thread.Cv

namespace Os161

variable {T : Type*} [DecidableEq T]

/-- `struct semfs_sem`, with the residue of each thread's uio. -/
structure SemfsSem (T : Type*) where
  semsCount : UInt32
  semsCv : Cv T
  uioResid : T → UInt32

/-- A new semaphore. -/
def semfsSemCreate (T : Type*) : SemfsSem T := ⟨0, ⟨∅, ∅⟩, fun _ => 0⟩

/-- `semfs_wakeup`. -/
def SemfsWakeup (count newcount : UInt32) (cv cv' : Cv T) : Prop :=
  if 0 < count ∨ newcount = 0 then cv' = cv
  else if newcount = 1 then CvSignal cv cv'
  else cv' = cvBroadcast cv

/-- `sems_count -= consume` and the uio's residue with it. -/
def SemfsSem.consume (t : T) (s : SemfsSem T) : SemfsSem T :=
  let consume := if s.semsCount < s.uioResid t then s.semsCount else s.uioResid t
  { s with
    semsCount := s.semsCount - consume
    uioResid := Function.update s.uioResid t (s.uioResid t - consume) }

/-- The loop of `semfs_read`, up to its end (`true`) or to `cv_wait` (`false`);
`n` bounds its turns. -/
def semfsReadLoop (t : T) : ℕ → Prog Empty (SemfsSem T) Bool
  | 0 => Prog.stop
  | n + 1 => fun s =>
    if s.uioResid t = 0 then .ok true s
    else
      let s1 := if 0 < s.semsCount then s.consume t else s
      if s1.uioResid t = 0 then .ok true s1
      else if s1.semsCount = 0 then .ok false { s1 with semsCv := cvWait t s1.semsCv }
      else semfsReadLoop t n s1

/-- `semfs_read` from where the thread has the lock. A turn that does not end
in `cv_wait` takes at least one unit, so the residue bounds the turns. -/
def semfsRead (t : T) : Prog Empty (SemfsSem T) Bool := fun s =>
  semfsReadLoop t ((s.uioResid t).toNat + 1) s

/-- The new count of `semfs_write`. -/
def semfsWriteCount (count resid : UInt32) : Except Errno UInt32 :=
  if count + resid < count then .error .efbig else .ok (count + resid)

/-- The new count of `semfs_truncate`. -/
def semfsTruncateCount (len : ℤ) : Except Errno UInt32 :=
  if len < 0 then .error .einval
  else if 4294967295 < len then .error .efbig
  else .ok (UInt32.ofNat len.toNat)

/-- `semfs_wakeup(sem, newcount); sem->sems_count = newcount`. -/
def SemfsSet (newcount : UInt32) (s s' : SemfsSem T) : Prop :=
  ∃ cv', SemfsWakeup s.semsCount newcount s.semsCv cv' ∧ s' = { s with semsCount := newcount, semsCv := cv' }

/-- What a thread does with the lock. -/
inductive SemfsEvent (T : Type*)
  | read (t : T) (resid : UInt32)
  | resume (t : T)
  | write (resid : UInt32)
  | truncate (len : ℤ)

/-- The count that `semfs_write` or `semfs_truncate` stores, if it stores one:
the loop of `semfs_write` is not entered with nothing to write. -/
def semfsNewcount (count : UInt32) : SemfsEvent T → Option UInt32
  | .write resid => if resid = 0 then none else (semfsWriteCount count resid).toOption
  | .truncate len => (semfsTruncateCount len).toOption
  | _ => none

/-- One step of a thread that has the lock. -/
inductive SemfsStep : SemfsSem T → SemfsEvent T → SemfsSem T → Prop
  | read {s s' : SemfsSem T} {t : T} {resid : UInt32} {d : Bool} : s.semsCv.Outside t →
      semfsRead t { s with uioResid := Function.update s.uioResid t resid } = .ok d s' →
      SemfsStep s (.read t resid) s'
  | resume {s s' : SemfsSem T} {t : T} {d : Bool} : t ∈ s.semsCv.woken →
      semfsRead t { s with semsCv := cvReturn t s.semsCv } = .ok d s' → SemfsStep s (.resume t) s'
  | set {s s' : SemfsSem T} {e : SemfsEvent T} {n : UInt32} :
      semfsNewcount s.semsCount e = some n → SemfsSet n s s' → SemfsStep s e s'
  | writeNothing {s : SemfsSem T} : SemfsStep s (.write 0) s
  | writeOverflow {s : SemfsSem T} {resid : UInt32} {e : Errno} :
      semfsWriteCount s.semsCount resid = .error e → SemfsStep s (.write resid) s
  | truncateError {s : SemfsSem T} {len : ℤ} {e : Errno} :
      semfsTruncateCount len = .error e → SemfsStep s (.truncate len) s

/-- The count is not positive while readers sleep and none is woken. -/
def SemfsSem.NoLostWakeup (s : SemfsSem T) : Prop :=
  ¬ (0 < s.semsCount ∧ s.semsCv.sleeping.Nonempty ∧ s.semsCv.woken = ∅)

/-- What the woken readers have still to take. -/
def SemfsSem.demand (s : SemfsSem T) : ℕ := ∑ t ∈ s.semsCv.woken, (s.uioResid t).toNat

/-- The step does not raise a positive count above the demand of the woken
readers while others sleep. -/
def Covered (s : SemfsSem T) (e : SemfsEvent T) : Prop :=
  ∀ c, semfsNewcount s.semsCount e = some c → 0 < s.semsCount → s.semsCv.sleeping.Nonempty →
    s.semsCount < c → c.toNat ≤ s.demand

/-! ### A turn of a reader -/

section Read

variable {s : SemfsSem T} {t : T}

theorem sub_ne_zero_of_lt {a b : UInt32} (h : a < b) : b - a ≠ 0 := by
  intro h0
  have h1 := congrArg UInt32.toNat h0
  rw [UInt32.toNat_sub_of_le _ _ (UInt32.le_of_lt h)] at h1
  have h2 := UInt32.lt_iff_toNat_lt.mp h
  simp only [UInt32.reduceToNat] at h1
  omega

/-- A reader finds as much as it wants and is done. -/
theorem semfsRead_done (h : s.uioResid t ≤ s.semsCount) : semfsRead t s =
    .ok true { s with semsCount := s.semsCount - s.uioResid t, uioResid := Function.update s.uioResid t 0 } := by
  unfold semfsRead semfsReadLoop
  by_cases h0 : s.uioResid t = 0
  · have hu : Function.update s.uioResid t 0 = s.uioResid := by rw [← h0, Function.update_eq_self]
    rw [if_pos h0, hu, h0, UInt32.sub_zero]
  · have hpos : 0 < s.semsCount := UInt32.lt_of_lt_of_le (UInt32.pos_iff_ne_zero.mpr h0) h
    have hc : s.consume t =
        { s with semsCount := s.semsCount - s.uioResid t, uioResid := Function.update s.uioResid t 0 } := by
      simp only [SemfsSem.consume, if_neg (UInt32.not_lt.mpr h), UInt32.sub_self]
    rw [if_neg h0]
    simp only [if_pos hpos, hc, Function.update_self, if_true]

/-- A reader takes what there is and goes to sleep for the rest. -/
theorem semfsRead_sleeps (h : s.semsCount < s.uioResid t) : semfsRead t s =
    .ok false ⟨0, cvWait t s.semsCv, Function.update s.uioResid t (s.uioResid t - s.semsCount)⟩ := by
  have hne := sub_ne_zero_of_lt h
  have h0 : s.uioResid t ≠ 0 := fun h0 => UInt32.not_lt_zero (h0 ▸ h)
  unfold semfsRead semfsReadLoop
  rw [if_neg h0]
  by_cases hpos : 0 < s.semsCount
  · have hc : s.consume t = { s with
        semsCount := 0, uioResid := Function.update s.uioResid t (s.uioResid t - s.semsCount) } := by
      simp only [SemfsSem.consume, if_pos h, UInt32.sub_self]
    simp only [if_pos hpos, hc, Function.update_self, if_neg hne, if_true]
  · have hz : s.semsCount = 0 := UInt32.not_lt.mp hpos |> UInt32.le_zero_iff.mp
    obtain ⟨c, cv, r⟩ := s
    subst hz
    simp [h0]

end Read

/-! ### The invariant -/

/-- While readers sleep, the woken ones will take all of the count. -/
structure SemfsInv (s : SemfsSem T) : Prop where
  disjoint : ∀ t ∈ s.semsCv.sleeping, t ∉ s.semsCv.woken
  waits : ∀ t ∈ s.semsCv.sleeping, s.uioResid t ≠ 0
  claimed : s.semsCv.sleeping.Nonempty → s.semsCount.toNat ≤ s.demand

omit [DecidableEq T] in
theorem SemfsInv.noLostWakeup {s : SemfsSem T} (hi : SemfsInv s) : s.NoLostWakeup := by
  rintro ⟨hpos, hsl, hw⟩
  have h1 := hi.claimed hsl
  have h2 := UInt32.lt_iff_toNat_lt.mp hpos
  simp only [SemfsSem.demand, hw, Finset.sum_empty, UInt32.reduceToNat] at h1 h2
  omega

omit [DecidableEq T] in
theorem semfsInv_create : SemfsInv (semfsSemCreate T) :=
  ⟨by simp [semfsSemCreate], by simp [semfsSemCreate], by simp [semfsSemCreate]⟩

/-- The demand of the woken does not depend on anybody else's residue. -/
theorem demand_update (s : SemfsSem T) {t : T} (ht : t ∉ s.semsCv.woken) (c r : UInt32) :
    SemfsSem.demand ⟨c, s.semsCv, Function.update s.uioResid t r⟩ = s.demand := by
  refine Finset.sum_congr rfl fun x hx => ?_
  have hne : x ≠ t := fun h => ht (h ▸ hx)
  simp only [Function.update_of_ne hne]

/-- A reader's turn keeps the invariant, when the sleepers are short of at
most its own demand. -/
theorem semfsRead_inv {s s' : SemfsSem T} {t : T} {done : Bool} (hout : s.semsCv.Outside t)
    (hd : ∀ x ∈ s.semsCv.sleeping, x ∉ s.semsCv.woken) (hw : ∀ x ∈ s.semsCv.sleeping, s.uioResid x ≠ 0)
    (hc : s.semsCv.sleeping.Nonempty → s.semsCount.toNat ≤ s.demand + (s.uioResid t).toNat)
    (h : semfsRead t s = .ok done s') : SemfsInv s' := by
  by_cases hle : s.uioResid t ≤ s.semsCount
  · rw [semfsRead_done hle] at h
    injection h with _ hs
    subst hs
    refine ⟨hd, fun x hx => ?_, fun hne => ?_⟩
    · have hxt : x ≠ t := fun h => hout.1 (h ▸ hx)
      simp only [Function.update_of_ne hxt]
      exact hw x hx
    · rw [demand_update s hout.2, UInt32.toNat_sub_of_le _ _ hle]
      have := hc hne
      omega
  · have hlt : s.semsCount < s.uioResid t := UInt32.not_le.mp hle
    rw [semfsRead_sleeps hlt] at h
    injection h with _ hs
    subst hs
    refine ⟨fun x hx => ?_, fun x hx => ?_, fun _ => Nat.zero_le _⟩
    · rcases Finset.mem_insert.mp hx with rfl | hx
      · exact hout.2
      · exact hd x hx
    · rcases Finset.mem_insert.mp hx with rfl | hx
      · simp only [Function.update_self]
        exact sub_ne_zero_of_lt hlt
      · have hxt : x ≠ t := fun h => hout.1 (h ▸ hx)
        simp only [Function.update_of_ne hxt]
        exact hw x hx

/-- Storing a count keeps the invariant, if a raise from a positive count is
covered. -/
theorem semfsSet_inv {s s' : SemfsSem T} {c : UInt32} (hi : SemfsInv s)
    (hcov : 0 < s.semsCount → s.semsCv.sleeping.Nonempty → s.semsCount < c → c.toNat ≤ s.demand)
    (h : SemfsSet c s s') : SemfsInv s' := by
  obtain ⟨cv', hwake, rfl⟩ := h
  unfold SemfsWakeup at hwake
  split_ifs at hwake with hnone hone
  · -- nobody is woken: the old count was positive, or the new one is 0
    subst hwake
    refine ⟨hi.disjoint, hi.waits, fun hne => ?_⟩
    rcases hnone with hpos | rfl
    · by_cases hlt : s.semsCount < c
      · exact hcov hpos hne hlt
      · have := UInt32.le_iff_toNat_le.mp (UInt32.not_lt.mp hlt)
        exact this.trans (hi.claimed hne)
    · exact Nat.zero_le _
  · rcases hwake with ⟨hempty, rfl⟩ | ⟨t, ht, rfl⟩
    · exact ⟨hi.disjoint, hi.waits, fun hne => absurd hempty hne.ne_empty⟩
    · -- the one sleeper that is woken wants at least the one unit
      refine ⟨fun x hx hw => ?_, fun x hx => hi.waits x (Finset.mem_of_mem_erase hx), fun _ => ?_⟩
      · rcases Finset.mem_insert.mp hw with rfl | hw
        · exact absurd hx (Finset.notMem_erase _ _)
        · exact hi.disjoint x (Finset.mem_of_mem_erase hx) hw
      · have hone' : 1 ≤ (s.uioResid t).toNat :=
          Nat.one_le_iff_ne_zero.mpr fun h0 => hi.waits t ht (UInt32.toNat_inj.mp h0)
        show c.toNat ≤ ∑ x ∈ insert t s.semsCv.woken, (s.uioResid x).toNat
        rw [Finset.sum_insert (hi.disjoint t ht), hone]
        exact hone'.trans (Nat.le_add_right _ _)
  · subst hwake
    exact ⟨by simp [cvBroadcast], by simp [cvBroadcast], by simp [cvBroadcast]⟩

/-- A covered step keeps the invariant. -/
theorem SemfsStep.inv {s s' : SemfsSem T} {e : SemfsEvent T} (hi : SemfsInv s) (hcov : Covered s e)
    (h : SemfsStep s e s') : SemfsInv s' := by
  cases h with
  | @read _ t resid _ hout h =>
    refine semfsRead_inv (s := { s with uioResid := Function.update s.uioResid t resid }) hout hi.disjoint
      (fun x hx => ?_) (fun hne => ?_) h
    · have hxt : x ≠ t := fun h => hout.1 (h ▸ hx)
      simp only [Function.update_of_ne hxt]
      exact hi.waits x hx
    · rw [demand_update s hout.2]
      exact (hi.claimed hne).trans (Nat.le_add_right _ _)
  | @resume _ t _ hw h =>
    have hout : (cvReturn t s.semsCv).Outside t :=
      ⟨fun hs => hi.disjoint t hs hw, Finset.notMem_erase _ _⟩
    refine semfsRead_inv (s := { s with semsCv := cvReturn t s.semsCv }) hout
      (fun x hx hm => hi.disjoint x hx (Finset.mem_of_mem_erase hm)) hi.waits (fun hne => ?_) h
    show s.semsCount.toNat ≤ (∑ x ∈ s.semsCv.woken.erase t, (s.uioResid x).toNat) + (s.uioResid t).toNat
    rw [Finset.sum_erase_add _ _ hw]
    exact hi.claimed hne
  | set hc h => exact semfsSet_inv hi (hcov _ hc) h
  | writeNothing => exact hi
  | writeOverflow _ => exact hi
  | truncateError _ => exact hi

/-! ### Runs -/

/-- Once the count exceeds what the woken readers want, they all run, and the
sleepers are left with the rest. -/
theorem semfs_drain (n : ℕ) : ∀ s : SemfsSem T, s.semsCv.woken.card = n → s.semsCv.sleeping.Nonempty →
    s.demand < s.semsCount.toNat → ∃ evs u, Run SemfsStep s evs u ∧ ¬ u.NoLostWakeup := by
  induction n with
  | zero =>
    intro s hcard hsl hlt
    refine ⟨[], s, Run.nil, fun hno => hno ⟨?_, hsl, Finset.card_eq_zero.mp hcard⟩⟩
    exact UInt32.lt_iff_toNat_lt.mpr (Nat.zero_le _ |>.trans_lt hlt)
  | succ n ih =>
    intro s hcard hsl hlt
    obtain ⟨t, ht⟩ : s.semsCv.woken.Nonempty := Finset.card_pos.mp (by omega)
    have hsum : (∑ x ∈ s.semsCv.woken.erase t, (s.uioResid x).toNat) + (s.uioResid t).toNat = s.demand :=
      Finset.sum_erase_add _ _ ht
    have hle : s.uioResid t ≤ s.semsCount := UInt32.le_iff_toNat_le.mpr (by omega)
    set s0 : SemfsSem T := { s with semsCv := cvReturn t s.semsCv } with hs0
    have hread := semfsRead_done (s := s0) (t := t) hle
    have hout : t ∉ s0.semsCv.woken := Finset.notMem_erase _ _
    have hcard1 : s0.semsCv.woken.card = n := by
      show (s.semsCv.woken.erase t).card = n
      rw [Finset.card_erase_of_mem ht]
      omega
    have hlt1 : SemfsSem.demand ⟨s0.semsCount - s0.uioResid t, s0.semsCv, Function.update s0.uioResid t 0⟩ <
        (s0.semsCount - s0.uioResid t).toNat := by
      rw [demand_update s0 hout, UInt32.toNat_sub_of_le _ _ hle]
      show (∑ x ∈ s.semsCv.woken.erase t, (s.uioResid x).toNat) < s.semsCount.toNat - (s.uioResid t).toNat
      omega
    obtain ⟨evs, u, hrun, hu⟩ :=
      ih ⟨s0.semsCount - s0.uioResid t, s0.semsCv, Function.update s0.uioResid t 0⟩ hcard1 hsl hlt1
    exact ⟨_, u, Run.cons (SemfsStep.resume ht hread) hrun, hu⟩

/-- A step that is not covered lets a wakeup be lost. -/
theorem semfs_not_covered {s s' : SemfsSem T} {e : SemfsEvent T} (h : SemfsStep s e s') (hcov : ¬ Covered s e) :
    ∃ evs u, Run SemfsStep s' evs u ∧ ¬ u.NoLostWakeup := by
  unfold Covered at hcov
  push Not at hcov
  obtain ⟨c, hc, hpos, hsl, hlt, hdem⟩ := hcov
  have hset : s' = { s with semsCount := c } := by
    cases h with
    | read => cases hc
    | resume => cases hc
    | set hc' h =>
      obtain rfl := Option.some.inj (hc.symm.trans hc')
      obtain ⟨cv', hwake, rfl⟩ := h
      unfold SemfsWakeup at hwake
      rw [if_pos (Or.inl hpos)] at hwake
      rw [hwake]
    | writeNothing => simp [semfsNewcount] at hc
    | writeOverflow herr =>
      simp only [semfsNewcount, herr] at hc
      split_ifs at hc
      cases hc
    | truncateError herr =>
      simp only [semfsNewcount, herr] at hc
      cases hc
  subst hset
  exact semfs_drain _ { s with semsCount := c } rfl hsl hdem

/-- **When semfs loses no wakeup.** In every run all of whose steps are
covered, no state has a positive count with readers asleep and none woken;
and a step that is not covered can be followed by steps into such a state. -/
theorem semfs_run {evs : List (SemfsEvent T)} {s : SemfsSem T}
    (h : Run (Restrict SemfsStep Covered) (semfsSemCreate T) evs s) :
    s.NoLostWakeup ∧ ∀ e s', SemfsStep s e s' → ¬ Covered s e →
      ∃ evs' u, Run SemfsStep s' evs' u ∧ ¬ u.NoLostWakeup := by
  have hi : SemfsInv s := Run.invariant semfsInv_create (fun _ _ _ hi hst => hst.1.inv hi hst.2) h
  exact ⟨hi.noLostWakeup, fun e s' hst hcov => semfs_not_covered hst hcov⟩

/-- A read of one on a new semaphore. -/
theorem semfs_first_sleeps :
    SemfsStep (semfsSemCreate ℕ) (.read 0 1) ⟨0, ⟨{0}, ∅⟩, Function.update (fun _ => 0) 0 1⟩ := by
  refine .read (d := false) ⟨by decide, by decide⟩ ?_
  rw [semfsRead_sleeps (by decide)]
  simp [semfsSemCreate, cvWait]

/-- Two readers sleep; the first of two writes signals one of them, the second
nobody. When the signalled reader has taken its unit, the other sleeps on a
positive count. -/
theorem semfs_lost_wakeup : ¬ ∀ evs (s : SemfsSem ℕ), Run SemfsStep (semfsSemCreate ℕ) evs s → s.NoLostWakeup := by
  intro hall
  have h1 := semfs_first_sleeps
  have h2 : SemfsStep ⟨0, ⟨{0}, ∅⟩, Function.update (fun _ => 0) 0 1⟩ (.read 1 1)
      ⟨0, ⟨{1, 0}, ∅⟩, Function.update (Function.update (fun _ => 0) 0 1) 1 1⟩ :=
    .read (d := false) ⟨by decide, by decide⟩ (by
      rw [semfsRead_sleeps (by decide)]
      simp [cvWait])
  set r : ℕ → UInt32 := Function.update (Function.update (fun _ => 0) 0 1) 1 1 with hr
  have h3 : SemfsStep ⟨0, ⟨{1, 0}, ∅⟩, r⟩ (.write 1) ⟨1, ⟨{1}, {0}⟩, r⟩ :=
    .set (n := 1) (by decide)
      ⟨_, by unfold SemfsWakeup; rw [if_neg (by decide), if_pos rfl]; exact Or.inr ⟨0, by decide, rfl⟩, rfl⟩
  have h4 : SemfsStep ⟨1, ⟨{1}, {0}⟩, r⟩ (.write 1) ⟨2, ⟨{1}, {0}⟩, r⟩ :=
    .set (n := 2) (by decide) ⟨_, by unfold SemfsWakeup; rw [if_pos (by decide)], rfl⟩
  have h5 : SemfsStep ⟨2, ⟨{1}, {0}⟩, r⟩ (.resume 0) ⟨1, ⟨{1}, ∅⟩, Function.update r 0 0⟩ :=
    .resume (d := true) (by decide) (by
      rw [semfsRead_done (by decide)]
      simp [cvReturn, hr])
  have hrun := ((((Run.single h1).snoc _ h2).snoc _ h3).snoc _ h4).snoc _ h5
  exact hall _ _ hrun ⟨by decide, ⟨1, by decide⟩, rfl⟩

/-- A run with covered steps in which a reader sleeps and is woken. -/
theorem semfs_run_handoff : ∃ s : SemfsSem ℕ,
    Run (Restrict SemfsStep Covered) (semfsSemCreate ℕ) [.read 0 1, .write 1] s ∧ s.NoLostWakeup := by
  have h1 := semfs_first_sleeps
  set r : ℕ → UInt32 := Function.update (fun _ => 0) 0 1 with hr
  have h2 : SemfsStep ⟨0, ⟨{0}, ∅⟩, r⟩ (.write 1) ⟨1, ⟨∅, {0}⟩, r⟩ :=
    .set (n := 1) (by decide)
      ⟨_, by unfold SemfsWakeup; rw [if_neg (by decide), if_pos rfl]; exact Or.inr ⟨0, by decide, rfl⟩, rfl⟩
  have hc1 : Covered (semfsSemCreate ℕ) (.read 0 1) := fun _ h => by cases h
  have hc2 : Covered (⟨0, ⟨{0}, ∅⟩, r⟩ : SemfsSem ℕ) (.write 1) := fun _ _ h => absurd h (by decide)
  have hrun : Run (Restrict SemfsStep Covered) _ [_, _] _ := Run.cons ⟨h1, hc1⟩ (Run.single ⟨h2, hc2⟩)
  exact ⟨_, hrun, (semfs_run hrun).1⟩

end Os161
