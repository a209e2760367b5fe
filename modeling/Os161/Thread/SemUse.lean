/-
# Semaphores in a program

What a program with many threads and semaphores needs to know of one of them:
how a section of `P` or `V` changes its count and who waits on it
(`SemP.spec`, `semV_spec`), and that a sleeper is not left alone with a
positive count (`SemOk.claimed`).
-/
import Os161.Thread.Synch

namespace Os161

variable {T : Type*} [DecidableEq T]

omit [DecidableEq T] in
/-- The thread is asleep on the semaphore or on its way back. -/
def Semaphore.Waits (s : Semaphore T) (t : T) : Prop := t ∈ s.semWchan.wcThreads ∨ t ∈ s.semWchan.woken

omit [DecidableEq T] in
/-- What holds of a semaphore whatever was done with it. -/
structure SemOk (s : Semaphore T) : Prop where
  valid : s.semWchan.Valid
  claimed : s.semWchan.wcThreads ≠ [] → s.semCount.toNat ≤ s.semWchan.woken.card

omit [DecidableEq T] in
theorem semOk_create (n : UInt32) : SemOk (semCreate T n) :=
  ⟨(semInv_create n).valid, (semInv_create n).claimed⟩

omit [DecidableEq T] in
theorem not_waits_create (n : UInt32) (t : T) : ¬ (semCreate T n).Waits t := by
  simp [Semaphore.Waits, semCreate]

omit [DecidableEq T] in
theorem SemOk.inv {s : Semaphore T} (h : SemOk s) : SemInv s.semCount.toNat [] s := ⟨h.valid, rfl, h.claimed⟩

/-- A section keeps what holds of a semaphore, and changes the count by what
it is. -/
theorem SemOk.step {s s' : Semaphore T} {e : SemEvent T} (h : SemOk s) (hst : SemStep s e s') :
    SemOk s' ∧ s'.semCount.toNat + e.completesP.toNat = s.semCount.toNat + e.isV.toNat := by
  have hi := hst.inv h.inv
  have hu := hi.units
  rw [completedPs_append, numVs_append] at hu
  refine ⟨⟨hi.valid, hi.claimed⟩, ?_⟩
  simpa [completedPs, numVs] using hu

/-- A section of `P` by `t`: the first one, or one after it was woken. -/
inductive SemP (s : Semaphore T) (t : T) (done : Bool) (s' : Semaphore T) : Prop
  | first (h : SemStep s (.p t done) s')
  | again (h : SemStep s (.resume t done) s')

/-- What a section of `P` by `t` does. -/
structure SemPSpec (s : Semaphore T) (t : T) (done : Bool) (s' : Semaphore T) : Prop where
  ok : SemOk s'
  count : s'.semCount.toNat + done.toNat = s.semCount.toNat
  others : ∀ u, u ≠ t → s'.Waits u → s.Waits u
  through : done = true → ¬ s'.Waits t
  asleep : done = false → t ∈ s'.semWchan.wcThreads

omit [DecidableEq T] in
/-- The body of `P` from a state in which `t` does not wait. -/
theorem semP_spec {s s' : Semaphore T} {t : T} {done : Bool} (hout : s.semWchan.Outside t)
    (h : semP t s = .ok done s') : (∀ u, u ≠ t → s'.Waits u → s.Waits u) ∧ (done = true → ¬ s'.Waits t) ∧
      (done = false → t ∈ s'.semWchan.wcThreads) := by
  by_cases h0 : s.semCount = 0
  · rw [semP_of_zero h0] at h
    injection h with hd hs
    subst hd hs
    refine ⟨fun u hu hw => ?_, fun hd => (by cases hd), fun _ => List.mem_append_right _ (List.mem_singleton_self t)⟩
    rcases hw with hw | hw
    · rcases List.mem_append.mp hw with hw | hw
      · exact Or.inl hw
      · exact absurd (List.mem_singleton.mp hw) hu
    · exact Or.inr hw
  · rw [semP_of_ne h0] at h
    injection h with hd hs
    subst hd hs
    exact ⟨fun u _ hw => hw, fun _ hw => hw.elim hout.1 hout.2, fun hd => by cases hd⟩

/-- **A section of `P`.** -/
theorem SemP.spec {s s' : Semaphore T} {t : T} {done : Bool} (hs : SemOk s) (h : SemP s t done s') :
    SemPSpec s t done s' := by
  cases h with
  | first h =>
    obtain ⟨hok, hcount⟩ := hs.step h
    cases h with
    | p hout hp =>
      obtain ⟨h1, h2, h3⟩ := semP_spec hout hp
      exact ⟨hok, hcount, h1, h2, h3⟩
  | again h =>
    obtain ⟨hok, hcount⟩ := hs.step h
    cases h with
    | resume hw hp =>
      obtain ⟨h1, h2, h3⟩ := semP_spec (s := { s with semWchan := wchanReturn t s.semWchan })
        (hs.valid.outside_return hw) hp
      refine ⟨hok, hcount, fun u hu hw' => ?_, h2, h3⟩
      rcases h1 u hu hw' with hl | hl
      · exact Or.inl hl
      · exact Or.inr (Finset.mem_of_mem_erase hl)

/-- **`V`.** -/
theorem semV_spec {s s' : Semaphore T} (hs : SemOk s) (h : semV s = .ok () s') :
    SemOk s' ∧ s'.semCount.toNat = s.semCount.toNat + 1 ∧ ∀ u, s'.Waits u → s.Waits u := by
  obtain ⟨hok, hcount⟩ := hs.step (SemStep.v h)
  refine ⟨hok, hcount, fun u hu => ?_⟩
  rw [semV_eq] at h
  split_ifs at h
  injection h with _ h
  subst h
  obtain ⟨count, ⟨threads, woken⟩⟩ := s
  cases threads with
  | nil => exact hu
  | cons target rest =>
    rcases hu with hu | hu
    · exact Or.inl (List.mem_cons_of_mem _ hu)
    · rcases Finset.mem_insert.mp hu with rfl | hu
      · exact Or.inl List.mem_cons_self
      · exact Or.inr hu

/-- `V` adds a unit unless the count would overflow. -/
theorem semV_of_ne {s : Semaphore T} (h : s.semCount + 1 ≠ 0) :
    semV s = .ok () ⟨s.semCount + 1, wchanWakeone s.semWchan⟩ :=
  semV_eq.trans (if_neg h)

/-- A `P` that can take a unit at once does. -/
theorem semP_through {s : Semaphore T} {t : T} (hout : s.semWchan.Outside t) (h : s.semCount.toNat ≠ 0) :
    SemP s t true { s with semCount := s.semCount - 1 } := by
  refine .first (.p hout (semP_of_ne fun h0 => h ?_))
  rw [h0]
  rfl

/-- A `P` that finds no unit sleeps. -/
theorem semP_sleeps {s : Semaphore T} {t : T} (hout : s.semWchan.Outside t) (h : s.semCount.toNat = 0) :
    SemP s t false { s with semWchan := wchanSleep t s.semWchan } :=
  .first (.p hout (semP_of_zero (UInt32.toNat_inj.mp h)))

end Os161
