/-
# Wait channels and semaphores

`wchan_sleep` and `wchan_wakeone` of `kern/thread/thread.c` and the semaphores
of `kern/thread/synch.c`, over an arbitrary type of threads. A section under the semaphore's spinlock is one step: `P` runs from
`spinlock_acquire` to `spinlock_release`, or to `wchan_sleep`, which gives the
lock up; a thread that was woken runs the same section again, from where
`wchan_sleep` takes the lock back. `V` can come from any thread and from an
interrupt handler, so its step names no thread.

A woken thread is handed nothing: `P` calls that come in between can take the
unit, and it goes back to sleep. What keeps a unit from being lost is the
invariant `SemInv`: while somebody sleeps, each unit of the count has a woken
thread of its own on its way to the count (`sem_run`).
-/
import Os161.Lib.Prog
import Os161.Lib.Run

namespace Os161

variable {T : Type*}

/-- `struct wchan`: the threads asleep on it, in order, and those that were
woken and have not yet run again. -/
structure Wchan (T : Type*) where
  wcThreads : List T
  woken : Finset T

/-- The thread is neither asleep on the channel nor on its way back from it. -/
def Wchan.Outside (wc : Wchan T) (t : T) : Prop := t ∉ wc.wcThreads ∧ t ∉ wc.woken

/-- `wchan_sleep` up to the switch: the thread joins the tail of the list. -/
def wchanSleep (t : T) (wc : Wchan T) : Wchan T :=
  { wc with wcThreads := wc.wcThreads ++ [t] }

/-- The return from the switch of `wchan_sleep`. -/
def wchanReturn [DecidableEq T] (t : T) (wc : Wchan T) : Wchan T :=
  { wc with woken := wc.woken.erase t }

/-- `wchan_wakeone`: the head of the list becomes runnable. -/
def wchanWakeone [DecidableEq T] (wc : Wchan T) : Wchan T :=
  match wc.wcThreads with
  | [] => wc
  | target :: rest => ⟨rest, insert target wc.woken⟩

/-- A thread is on the list at most once, and not while it is runnable. -/
structure Wchan.Valid (wc : Wchan T) : Prop where
  nodup : wc.wcThreads.Nodup
  disjoint : ∀ t ∈ wc.wcThreads, t ∉ wc.woken

theorem Wchan.Valid.sleep {wc : Wchan T} (h : wc.Valid) {t : T} (ht : wc.Outside t) :
    (wchanSleep t wc).Valid := by
  refine ⟨?_, ?_⟩
  · exact List.Nodup.append h.nodup (List.nodup_singleton t) (by simpa using ht.1)
  · intro x hx
    rcases List.mem_append.mp hx with hx | hx
    · exact h.disjoint x hx
    · rw [List.mem_singleton.mp hx]
      exact ht.2

theorem Wchan.Valid.comeBack [DecidableEq T] {wc : Wchan T} (h : wc.Valid) (t : T) : (wchanReturn t wc).Valid :=
  ⟨h.nodup, fun x hx hw => h.disjoint x hx (Finset.mem_of_mem_erase hw)⟩

/-- A thread that came back is outside. -/
theorem Wchan.Valid.outside_return [DecidableEq T] {wc : Wchan T} (h : wc.Valid) {t : T} (ht : t ∈ wc.woken) :
    (wchanReturn t wc).Outside t :=
  ⟨fun hl => h.disjoint t hl ht, Finset.notMem_erase t _⟩

theorem Wchan.Valid.wakeone [DecidableEq T] {wc : Wchan T} (h : wc.Valid) : (wchanWakeone wc).Valid := by
  obtain ⟨l, w⟩ := wc
  cases l with
  | nil => exact h
  | cons target rest =>
    obtain ⟨hnot, hnd⟩ := List.nodup_cons.mp h.nodup
    refine ⟨hnd, fun x hx hw => ?_⟩
    rcases Finset.mem_insert.mp hw with rfl | hw
    · exact hnot hx
    · exact h.disjoint x (List.mem_cons_of_mem _ hx) hw

/-- Waking one of some sleepers puts one more thread on its way. -/
theorem Wchan.Valid.card_wakeone [DecidableEq T] {wc : Wchan T} (h : wc.Valid) (hne : wc.wcThreads ≠ []) :
    (wchanWakeone wc).woken.card = wc.woken.card + 1 := by
  obtain ⟨l, w⟩ := wc
  cases l with
  | nil => exact absurd rfl hne
  | cons target rest => exact Finset.card_insert_of_notMem (h.disjoint target List.mem_cons_self)

/-! ### Semaphores -/

/-- `struct semaphore`. -/
structure Semaphore (T : Type*) where
  semCount : UInt32
  semWchan : Wchan T

/-- `sem_create`. -/
def semCreate (T : Type*) (initialCount : UInt32) : Semaphore T := ⟨initialCount, ⟨[], ∅⟩⟩

/-- The body of `P` under the spinlock, up to its end or to `wchan_sleep`;
the value says whether the thread is through. -/
def semP (t : T) : Prog Empty (Semaphore T) Bool := do
  let count ← Prog.gets Semaphore.semCount
  if count = 0 then
    Prog.modify fun s => { s with semWchan := wchanSleep t s.semWchan }
    pure false
  else
    Prog.assert (0 < count)
    Prog.modify fun s => { s with semCount := s.semCount - 1 }
    pure true

/-- The same section entered by a thread coming back from `wchan_sleep`. -/
def semResume [DecidableEq T] (t : T) : Prog Empty (Semaphore T) Bool := do
  Prog.modify fun s => { s with semWchan := wchanReturn t s.semWchan }
  semP t

/-- `V`. -/
def semV [DecidableEq T] : Prog Empty (Semaphore T) Unit := do
  Prog.modify fun s => { s with semCount := s.semCount + 1 }
  let count ← Prog.gets Semaphore.semCount
  Prog.assert (0 < count)
  Prog.modify fun s => { s with semWchan := wchanWakeone s.semWchan }

/-- A section under the spinlock; `done` says whether a `P` is through. -/
inductive SemEvent (T : Type*)
  | p (t : T) (done : Bool)
  | resume (t : T) (done : Bool)
  | v
  deriving DecidableEq

/-- One section by some thread. -/
inductive SemStep [DecidableEq T] : Semaphore T → SemEvent T → Semaphore T → Prop
  | p {s s' : Semaphore T} {t : T} {done : Bool} :
      s.semWchan.Outside t → semP t s = .ok done s' → SemStep s (.p t done) s'
  | resume {s s' : Semaphore T} {t : T} {done : Bool} :
      t ∈ s.semWchan.woken → semResume t s = .ok done s' → SemStep s (.resume t done) s'
  | v {s s' : Semaphore T} : semV s = .ok () s' → SemStep s .v s'

/-- Is the event the end of a `P`? -/
def SemEvent.completesP : SemEvent T → Bool
  | .p _ done => done
  | .resume _ done => done
  | .v => false

/-- Is the event a `V`? -/
def SemEvent.isV : SemEvent T → Bool
  | .v => true
  | _ => false

/-- The `P`s completed in a run. -/
def completedPs (evs : List (SemEvent T)) : ℕ := evs.countP SemEvent.completesP

/-- The `V`s of a run. -/
def numVs (evs : List (SemEvent T)) : ℕ := evs.countP SemEvent.isV

theorem completedPs_append (evs : List (SemEvent T)) (e : SemEvent T) :
    completedPs (evs ++ [e]) = completedPs evs + e.completesP.toNat := by
  simp only [completedPs, List.countP_append, List.countP_singleton]
  cases e.completesP <;> rfl

theorem numVs_append (evs : List (SemEvent T)) (e : SemEvent T) :
    numVs (evs ++ [e]) = numVs evs + e.isV.toNat := by
  simp only [numVs, List.countP_append, List.countP_singleton]
  cases e.isV <;> rfl

/-- What holds of a semaphore created with `n` after the sections `evs`: each
unit is accounted for, and while a thread sleeps there are as many threads on
their way as the count says. -/
structure SemInv (n : ℕ) (evs : List (SemEvent T)) (s : Semaphore T) : Prop where
  valid : s.semWchan.Valid
  units : s.semCount.toNat + completedPs evs = n + numVs evs
  claimed : s.semWchan.wcThreads ≠ [] → s.semCount.toNat ≤ s.semWchan.woken.card

section Sections

variable {s : Semaphore T} {t : T}

/-- `P` finds the count at 0 and the thread goes to sleep. -/
theorem semP_of_zero (h : s.semCount = 0) :
    semP t s = .ok false { s with semWchan := wchanSleep t s.semWchan } := by
  show (if s.semCount = 0 then _ else _ : Prog Empty (Semaphore T) Bool) s = _
  rw [if_pos h]
  rfl

/-- `P` finds a unit and takes it; its assertion holds. -/
theorem semP_of_ne (h : s.semCount ≠ 0) : semP t s = .ok true { s with semCount := s.semCount - 1 } := by
  show (if s.semCount = 0 then _ else _ : Prog Empty (Semaphore T) Bool) s = _
  rw [if_neg h]
  show Prog.andThen (Prog.assert _) _ s = _
  simp only [Prog.andThen, Prog.assert, if_pos (UInt32.pos_iff_ne_zero.mpr h)]
  rfl

/-- The assertion of `P` holds. -/
theorem semP_ne_stop : semP t s ≠ .stop := by
  by_cases h : s.semCount = 0
  · simp [semP_of_zero h]
  · simp [semP_of_ne h]

theorem toNat_ne_zero {c : UInt32} (h : c ≠ 0) : c.toNat ≠ 0 := fun h0 => h (UInt32.toNat_inj.mp h0)

theorem toNat_succ {c : UInt32} (h : c + 1 ≠ 0) : (c + 1).toNat = c.toNat + 1 := by
  have h1 := toNat_ne_zero h
  have h2 := UInt32.toNat_lt c
  rw [UInt32.toNat_add] at h1 ⊢
  simp only [UInt32.reduceToNat] at h1 ⊢
  omega

/-- `V` stops the machine on the largest count and adds a unit on every other. -/
theorem semV_eq [DecidableEq T] : semV s =
    if s.semCount + 1 = 0 then .stop else .ok () ⟨s.semCount + 1, wchanWakeone s.semWchan⟩ := by
  show Prog.andThen (Prog.assert (0 < s.semCount + 1)) _ { s with semCount := s.semCount + 1 } = _
  by_cases h : s.semCount + 1 = 0
  · simp [Prog.andThen, Prog.assert, h]
  · simp only [Prog.andThen, Prog.assert, if_pos (UInt32.pos_iff_ne_zero.mpr h), if_neg h]
    rfl

/-- `P` keeps the invariant, for a newcomer as for a thread that has just come
back: the sleepers may be short of one thread on its way. -/
theorem semP_inv {n : ℕ} {evs : List (SemEvent T)} {e : SemEvent T} {done : Bool} {s' : Semaphore T}
    (hv : s.semWchan.Valid) (hout : s.semWchan.Outside t)
    (hu : s.semCount.toNat + completedPs evs = n + numVs evs)
    (hc : s.semWchan.wcThreads ≠ [] → s.semCount.toNat ≤ s.semWchan.woken.card + 1)
    (he : e.completesP = done) (hnv : e.isV = false) (h : semP t s = .ok done s') :
    SemInv n (evs ++ [e]) s' := by
  by_cases h0 : s.semCount = 0
  · rw [semP_of_zero h0] at h
    injection h with hd hs
    subst hd hs
    refine ⟨hv.sleep hout, ?_, ?_⟩
    · rw [completedPs_append, numVs_append, he, hnv]
      simpa using hu
    · intro _
      simp [h0]
  · have h1 : 1 ≤ s.semCount.toNat := Nat.one_le_iff_ne_zero.mpr (toNat_ne_zero h0)
    have hsub : (s.semCount - 1).toNat = s.semCount.toNat - 1 :=
      UInt32.toNat_sub_of_le _ _ (UInt32.le_iff_toNat_le.mpr h1)
    rw [semP_of_ne h0] at h
    injection h with hd hs
    subst hd hs
    refine ⟨hv, ?_, ?_⟩
    · rw [completedPs_append, numVs_append, he, hnv, hsub]
      simp only [Bool.toNat_true, Bool.toNat_false]
      omega
    · intro hne
      have := hc hne
      show (s.semCount - 1).toNat ≤ s.semWchan.woken.card
      omega

/-- `V` keeps the invariant: the new unit is announced to one sleeper. -/
theorem semV_inv [DecidableEq T] {n : ℕ} {evs : List (SemEvent T)} {s' : Semaphore T} (hi : SemInv n evs s)
    (h : semV s = .ok () s') : SemInv n (evs ++ [.v]) s' := by
  rw [semV_eq] at h
  by_cases h0 : s.semCount + 1 = 0
  · rw [if_pos h0] at h
    cases h
  · rw [if_neg h0] at h
    injection h with _ hs
    subst hs
    have hadd := toNat_succ h0
    refine ⟨hi.valid.wakeone, ?_, ?_⟩
    · have := hi.units
      rw [completedPs_append, numVs_append, hadd]
      simp only [SemEvent.completesP, SemEvent.isV, Bool.toNat_true, Bool.toNat_false]
      omega
    · intro hne
      have hold : s.semWchan.wcThreads ≠ [] := by
        intro hnil
        exact hne (by simp [wchanWakeone, hnil])
      have := hi.claimed hold
      rw [hadd, hi.valid.card_wakeone hold]
      omega

end Sections

theorem semInv_create (n : UInt32) : SemInv n.toNat [] (semCreate T n) :=
  ⟨⟨List.nodup_nil, by simp [semCreate]⟩, rfl, fun h => absurd rfl h⟩

/-- A section keeps the invariant. -/
theorem SemStep.inv [DecidableEq T] {n : ℕ} {evs : List (SemEvent T)} {s s' : Semaphore T} {e : SemEvent T}
    (hi : SemInv n evs s) (h : SemStep s e s') : SemInv n (evs ++ [e]) s' := by
  cases h with
  | p hout h =>
    exact semP_inv hi.valid hout hi.units (fun hne => (hi.claimed hne).trans (Nat.le_succ _)) rfl rfl h
  | @resume _ t _ hw h =>
    -- the thread gives up its place among the woken before it looks at the count
    refine semP_inv (s := { s with semWchan := wchanReturn t s.semWchan }) (hi.valid.comeBack t)
      (hi.valid.outside_return hw) hi.units ?_ rfl rfl h
    intro hne
    show s.semCount.toNat ≤ (s.semWchan.woken.erase t).card + 1
    rw [Finset.card_erase_add_one hw]
    exact hi.claimed hne
  | v h => exact semV_inv hi h

/-- **Semaphores lose and invent nothing.** In every run from a new semaphore
the completed `P`s are at most the initial count and the `V`s, the count is
the difference, and while a thread sleeps there are at least as many woken
threads on their way to the count as it has units. The assertions of `P` and
`V` hold, that of `V` while fewer than `2 ^ 32` units are outstanding. -/
theorem sem_run [DecidableEq T] {n : UInt32} {evs : List (SemEvent T)} {s : Semaphore T}
    (h : Run SemStep (semCreate T n) evs s) :
    completedPs evs ≤ n.toNat + numVs evs ∧
    s.semCount.toNat = n.toNat + numVs evs - completedPs evs ∧
    (s.semWchan.wcThreads ≠ [] → s.semCount.toNat ≤ s.semWchan.woken.card) ∧
    (∀ t, semP t s ≠ .stop ∧ semResume t s ≠ .stop) ∧
    (n.toNat + numVs evs - completedPs evs + 1 < 2 ^ 32 → semV s ≠ .stop) := by
  have hi : SemInv n.toNat evs s :=
    Run.history (J := SemInv n.toNat) (semInv_create n) (fun _ _ _ _ hi hst => hst.inv hi) h
  have hu := hi.units
  refine ⟨by omega, by omega, hi.claimed, fun t => ⟨semP_ne_stop, semP_ne_stop⟩, ?_⟩
  intro hlt
  have hne : s.semCount + 1 ≠ 0 := by
    intro h0
    have h1 := congrArg UInt32.toNat h0
    rw [UInt32.toNat_add] at h1
    simp only [UInt32.reduceToNat] at h1
    omega
  rw [semV_eq, if_neg hne]
  simp

/-- A thread sleeps on an empty semaphore, is woken by a `V`, and goes on. -/
theorem sem_run_handoff :
    Run SemStep (semCreate ℕ 0) [.p 0 false, .v, .resume 0 true] (semCreate ℕ 0) ∧
    (semCreate ℕ 0).semCount.toNat = (0 : UInt32).toNat + 1 - 1 := by
  have hrun : Run SemStep (semCreate ℕ 0) [.p 0 false, .v, .resume 0 true] (semCreate ℕ 0) := by
    refine Run.cons (SemStep.p (by simp [semCreate, Wchan.Outside]) rfl) ?_
    refine Run.cons (SemStep.v (by rw [semV_eq]; rfl)) ?_
    refine Run.single (SemStep.resume (by decide) rfl)
  exact ⟨hrun, (sem_run hrun).2.1⟩

end Os161
