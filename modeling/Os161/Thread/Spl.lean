/-
# Interrupt levels across context switches

`kern/thread/spl.c` and `kern/thread/spinlock.c`, on any number of
processors, with what `thread_fork`, `thread_switch` and `thread_startup` of
`kern/thread/thread.c` do to interrupt levels and spinlocks, and the interrupt
entry of `kern/arch/mips/locore/trap.c`. A call of `splx`, `spinlock_acquire`
or `spinlock_release` is one step; a spinlock is taken when it is free. Which
thread is switched to is left open: any that has been switched away from.

A thread is at a place in `thread_switch` (`SplPos`), or outside it. The
processor holds a run queue's lock while it switches, and another thread
releases it than the one that acquired it: the one it switches to.

`Irqs.Exact` is the relation of `t_iplhigh_count`, the spinlocks and
`t_curspl`. An exited thread never comes back to release a run queue's lock,
and its count stays one too high (`exited_count_two`).
-/
import Os161.Lib.Prog
import Os161.Lib.Run

namespace Os161

/-- `IPL_NONE` and `IPL_HIGH`. -/
inductive Ipl
  | none
  | high
  deriving DecidableEq

/-- The number of the level. -/
def Ipl.level : Ipl → ℕ
  | .none => 0
  | .high => 1

/-- What `thread_switch` is called for; a sleeper gives up the lock `lk`. -/
inductive NewState (K : Type)
  | ready
  | sleep (lk : K)
  | zombie

/-- Where a thread is, with the local variable `spl` of `thread_switch`. -/
inductive SplPos (K : Type)
  -- no thread yet, or its structure has been destroyed
  | unused
  -- thread_fork
  | created
  | fresh
  -- not in thread_switch
  | outside
  -- thread_switch
  | entered (spl : Ipl) (newstate : NewState K)
  | locked (spl : Ipl) (newstate : NewState K)
  | queued (spl : Ipl) (exits : Bool)
  | idling (spl : Ipl) (exits : Bool)
  | away (spl : Ipl)
  | resumed (spl : Ipl)
  | leaving (spl : Ipl)
  | exited
  -- thread_startup
  | born
  | starting

/-- The threads, the processors and the spinlocks. `acquired t` are the
spinlocks that calls of `spinlock_acquire` of thread `t` got and that it has
still to release, `frames t` the interrupts it has still to return from. -/
structure Irqs (T C K : Type) where
  tCurspl : T → Ipl
  tIplhighCount : T → ℤ
  cCurthread : C → T
  cIsidle : C → Bool
  cSpinlocks : C → ℕ
  irq : C → Bool
  splkHolder : K → Option C
  pos : T → SplPos K
  acquired : T → Multiset K
  frames : T → ℕ

variable {T C K : Type} [DecidableEq T] [DecidableEq C] [DecidableEq K]

/-! ### `spl.c` -/

def cpuIrqoff (c : C) : Prog Empty (Irqs T C K) Unit :=
  Prog.modify fun s => { s with irq := Function.update s.irq c false }

def cpuIrqon (c : C) : Prog Empty (Irqs T C K) Unit :=
  Prog.modify fun s => { s with irq := Function.update s.irq c true }

/-- Add to `t_iplhigh_count` of the current thread. -/
def addCount (c : C) (d : ℤ) : Prog Empty (Irqs T C K) Unit := Prog.modify fun s =>
  { s with tIplhighCount := Function.update s.tIplhighCount (s.cCurthread c) (s.tIplhighCount (s.cCurthread c) + d) }

def setCurspl (c : C) (spl : Ipl) : Prog Empty (Irqs T C K) Unit :=
  Prog.modify fun s => { s with tCurspl := Function.update s.tCurspl (s.cCurthread c) spl }

/-- `splraise`. -/
def splraise (c : C) (oldspl newspl : Ipl) : Prog Empty (Irqs T C K) Unit := do
  Prog.assert (oldspl = .none)
  Prog.assert (newspl = .high)
  let s ← Prog.get
  if s.tIplhighCount (s.cCurthread c) = 0 then cpuIrqoff c
  addCount c 1

/-- `spllower`. -/
def spllower (c : C) (oldspl newspl : Ipl) : Prog Empty (Irqs T C K) Unit := do
  Prog.assert (oldspl = .high)
  Prog.assert (newspl = .none)
  addCount c (-1)
  let s ← Prog.get
  if s.tIplhighCount (s.cCurthread c) = 0 then cpuIrqon c

/-- `splx`. `splhigh()` is `splx(IPL_HIGH)` and `spl0()` is `splx(IPL_NONE)`. -/
def splx (c : C) (spl : Ipl) : Prog Empty (Irqs T C K) Ipl := do
  let s ← Prog.get
  let ret := s.tCurspl (s.cCurthread c)
  if ret.level < spl.level then do
    splraise c ret spl
    setCurspl c spl
    pure ret
  else if spl.level < ret.level then do
    setCurspl c spl
    spllower c ret spl
    pure ret
  else pure spl

/-! ### `spinlock.c` -/

/-- `spinlock_acquire`, when the lock is free. -/
def spinlockAcquire (c : C) (splk : K) : Prog Empty (Irqs T C K) Unit := do
  splraise c .none .high
  let s ← Prog.get
  -- "Deadlock on spinlock"
  Prog.assert (s.splkHolder splk ≠ some c)
  Prog.modify fun s =>
    { s with
      cSpinlocks := Function.update s.cSpinlocks c (s.cSpinlocks c + 1)
      splkHolder := Function.update s.splkHolder splk (some c) }

/-- `spinlock_release`. -/
def spinlockRelease (c : C) (splk : K) : Prog Empty (Irqs T C K) Unit := do
  let s ← Prog.get
  Prog.assert (s.splkHolder splk = some c)
  Prog.assert (0 < s.cSpinlocks c)
  Prog.modify fun s =>
    { s with
      cSpinlocks := Function.update s.cSpinlocks c (s.cSpinlocks c - 1)
      splkHolder := Function.update s.splkHolder splk none }
  spllower c .high .none

/-! ### `trap.c` -/

/-- An interrupt, up to the call of `mainbus_interrupt`: the processor has
turned interrupts off. The result is `doadjust`. -/
def mipsInterrupt (c : C) : Prog Empty (Irqs T C K) Bool := do
  cpuIrqoff c
  let s ← Prog.get
  if s.tCurspl (s.cCurthread c) = .none then do
    Prog.assert (s.tIplhighCount (s.cCurthread c) = 0)
    setCurspl c .high
    addCount c 1
    pure true
  else pure false

/-- From the end of `mainbus_interrupt` to the return from the interrupt, which
turns interrupts on, if `doadjust`. -/
def mipsInterruptReturn (c : C) : Prog Empty (Irqs T C K) Unit := do
  let s ← Prog.get
  Prog.assert (s.tCurspl (s.cCurthread c) = .high)
  Prog.assert (s.tIplhighCount (s.cCurthread c) = 1)
  addCount c (-1)
  setCurspl c .none
  cpuIrqon c

/-! ### Steps -/

namespace SplPos

/-- The places from which spl and spinlock calls are made: outside
`thread_switch`, on the way out of it (`exorcise`), and in the handlers of
interrupts that end `cpu_idle`. -/
def Calls : SplPos K → Prop
  | outside | idling _ _ | leaving _ | starting => True
  | _ => False

/-- In `cpu_idle`. -/
def Idle : SplPos K → Prop
  | idling _ _ => True
  | _ => False

/-- On a processor. -/
def Running : SplPos K → Prop
  | outside | entered _ _ | locked _ _ | queued _ _ | idling _ _ | resumed _ | leaving _ | born | starting => True
  | _ => False

/-- The run queue's lock that the thread will release: the one it holds in
`thread_switch`, or the one it comes back with. -/
def carried : SplPos K → ℕ
  | locked _ _ | queued _ _ | away _ | resumed _ | fresh | born => 1
  | _ => 0

end SplPos

/-- A thread goes to another place. -/
def Irqs.goto (t : T) (p : SplPos K) (s : Irqs T C K) : Irqs T C K := { s with pos := Function.update s.pos t p }

/-- What a processor's current thread does; `rq c` is the lock of the run
queue of processor `c`. -/
inductive SplStep (rq : C → K) (c : C) : Irqs T C K → Irqs T C K → Prop
  | splx {s s' : Irqs T C K} {spl ret : Ipl} : (s.pos (s.cCurthread c)).Calls → splx c spl s = .ok ret s' →
      SplStep rq c s s'
  | acquire {s s' : Irqs T C K} {k : K} : (s.pos (s.cCurthread c)).Calls → s.splkHolder k = none →
      spinlockAcquire c k s = .ok () s' →
      SplStep rq c s { s' with acquired := Function.update s.acquired (s.cCurthread c) (k ::ₘ s.acquired (s.cCurthread c)) }
  | release {s s' : Irqs T C K} {k : K} : (s.pos (s.cCurthread c)).Calls → k ∈ s.acquired (s.cCurthread c) →
      spinlockRelease c k s = .ok () s' →
      SplStep rq c s { s' with acquired := Function.update s.acquired (s.cCurthread c) ((s.acquired (s.cCurthread c)).erase k) }
  -- an interrupt and the return from it
  | interrupt {s s' : Irqs T C K} {doadjust : Bool} : (s.pos (s.cCurthread c)).Calls →
      ¬ (s.pos (s.cCurthread c)).Idle → s.irq c = true → mipsInterrupt c s = .ok doadjust s' →
      SplStep rq c s { s' with
        frames := Function.update s.frames (s.cCurthread c) (s.frames (s.cCurthread c) + doadjust.toNat) }
  | interruptReturn {s s' : Irqs T C K} : (s.pos (s.cCurthread c)).Calls → 0 < s.frames (s.cCurthread c) →
      mipsInterruptReturn c s = .ok () s' →
      SplStep rq c s { s' with frames := Function.update s.frames (s.cCurthread c) (s.frames (s.cCurthread c) - 1) }
  -- thread_fork
  | create {s : Irqs T C K} {t : T} : (s.pos (s.cCurthread c)).Calls → s.pos t = .unused →
      SplStep rq c s ({ s with
        tCurspl := Function.update s.tCurspl t .high
        tIplhighCount := Function.update s.tIplhighCount t 1
        acquired := Function.update s.acquired t 0
        frames := Function.update s.frames t 0 }.goto t .created)
  | fork {s : Irqs T C K} {t : T} : (s.pos (s.cCurthread c)).Calls → s.pos t = .created →
      SplStep rq c s ({ s with
        tIplhighCount := Function.update s.tIplhighCount t (s.tIplhighCount t + 1) }.goto t .fresh)
  -- thread_switch
  | enter {s s' : Irqs T C K} {spl : Ipl} {newstate : NewState K} : s.pos (s.cCurthread c) = .outside →
      s.cIsidle c = false → splx c .high s = .ok spl s' → SplStep rq c s (s'.goto (s.cCurthread c) (.entered spl newstate))
  | enterIdle {s s1 s2 : Irqs T C K} {spl ret : Ipl} : (s.pos (s.cCurthread c)).Calls → s.cIsidle c = true →
      splx c .high s = .ok spl s1 → splx c spl s1 = .ok ret s2 → SplStep rq c s s2
  | lock {s s' : Irqs T C K} {spl : Ipl} {newstate : NewState K} : s.pos (s.cCurthread c) = .entered spl newstate →
      s.splkHolder (rq c) = none → spinlockAcquire c (rq c) s = .ok () s' →
      SplStep rq c s (s'.goto (s.cCurthread c) (.locked spl newstate))
  | nothingToDo {s s' : Irqs T C K} {spl : Ipl} : s.pos (s.cCurthread c) = .locked spl .ready →
      spinlockRelease c (rq c) s = .ok () s' → SplStep rq c s (s'.goto (s.cCurthread c) (.leaving spl))
  | ready {s : Irqs T C K} {spl : Ipl} : s.pos (s.cCurthread c) = .locked spl .ready →
      SplStep rq c s ({ s with cIsidle := Function.update s.cIsidle c true }.goto (s.cCurthread c) (.queued spl false))
  | sleep {s s' : Irqs T C K} {spl : Ipl} {lk : K} : s.pos (s.cCurthread c) = .locked spl (.sleep lk) →
      lk ∈ s.acquired (s.cCurthread c) → spinlockRelease c lk s = .ok () s' →
      SplStep rq c s ({ s' with
        acquired := Function.update s.acquired (s.cCurthread c) ((s.acquired (s.cCurthread c)).erase lk)
        cIsidle := Function.update s.cIsidle c true }.goto (s.cCurthread c) (.queued spl false))
  | exit {s : Irqs T C K} {spl : Ipl} : s.pos (s.cCurthread c) = .locked spl .zombie →
      SplStep rq c s ({ s with cIsidle := Function.update s.cIsidle c true }.goto (s.cCurthread c) (.queued spl true))
  | idle {s s' : Irqs T C K} {spl : Ipl} {exits : Bool} : s.pos (s.cCurthread c) = .queued spl exits →
      spinlockRelease c (rq c) s = .ok () s' → SplStep rq c s (s'.goto (s.cCurthread c) (.idling spl exits))
  -- cpu_idle turns interrupts on and off; the handlers leave spl as they found it
  | irqonoff {s : Irqs T C K} {b : Bool} : (s.pos (s.cCurthread c)).Idle →
      SplStep rq c s { s with irq := Function.update s.irq c b }
  | unidle {s s' : Irqs T C K} {spl : Ipl} {exits : Bool} : s.pos (s.cCurthread c) = .idling spl exits →
      s.tCurspl (s.cCurthread c) = .high → s.splkHolder (rq c) = none →
      spinlockAcquire c (rq c) { s with irq := Function.update s.irq c false } = .ok () s' →
      SplStep rq c s (s'.goto (s.cCurthread c) (.queued spl exits))
  | switch {s : Irqs T C K} {spl spl' : Ipl} {exits : Bool} {next : T} : s.pos (s.cCurthread c) = .queued spl exits →
      s.pos next = .away spl' →
      SplStep rq c s (({ s with
        cIsidle := Function.update s.cIsidle c false
        cCurthread := Function.update s.cCurthread c next }.goto (s.cCurthread c) (if exits then .exited else .away spl)).goto
          next (.resumed spl'))
  | switchFresh {s : Irqs T C K} {spl : Ipl} {exits : Bool} {next : T} : s.pos (s.cCurthread c) = .queued spl exits →
      s.pos next = .fresh →
      SplStep rq c s (({ s with
        cIsidle := Function.update s.cIsidle c false
        cCurthread := Function.update s.cCurthread c next }.goto (s.cCurthread c) (if exits then .exited else .away spl)).goto
          next .born)
  | switchSelf {s : Irqs T C K} {spl : Ipl} : s.pos (s.cCurthread c) = .queued spl false →
      SplStep rq c s ({ s with cIsidle := Function.update s.cIsidle c false }.goto (s.cCurthread c) (.resumed spl))
  | unlock {s s' : Irqs T C K} {spl : Ipl} : s.pos (s.cCurthread c) = .resumed spl →
      spinlockRelease c (rq c) s = .ok () s' → SplStep rq c s (s'.goto (s.cCurthread c) (.leaving spl))
  | leave {s s' : Irqs T C K} {spl ret : Ipl} : s.pos (s.cCurthread c) = .leaving spl → splx c spl s = .ok ret s' →
      SplStep rq c s (s'.goto (s.cCurthread c) .outside)
  -- thread_startup
  | startup {s s' : Irqs T C K} : s.pos (s.cCurthread c) = .born → spinlockRelease c (rq c) s = .ok () s' →
      SplStep rq c s (s'.goto (s.cCurthread c) .starting)
  | start {s s' : Irqs T C K} {ret : Ipl} : s.pos (s.cCurthread c) = .starting → splx c .none s = .ok ret s' →
      SplStep rq c s (s'.goto (s.cCurthread c) .outside)
  -- exorcise
  | destroy {s : Irqs T C K} {t : T} : (s.pos (s.cCurthread c)).Calls → s.pos t = .exited →
      SplStep rq c s (s.goto t .unused)

/-- Every processor runs a thread of its own, with interrupts off; there are
no other threads. -/
structure Irqs.Boot (s : Irqs T C K) : Prop where
  cur : Function.Injective s.cCurthread
  pos : ∀ c, s.pos (s.cCurthread c) = .outside
  unused : ∀ t, (∀ c, s.cCurthread c ≠ t) → s.pos t = .unused
  curspl : ∀ c, s.tCurspl (s.cCurthread c) = .high
  count : ∀ c, s.tIplhighCount (s.cCurthread c) = 1
  acquired : ∀ t, s.acquired t = 0
  frames : ∀ t, s.frames t = 0
  isidle : ∀ c, s.cIsidle c = false
  spinlocks : ∀ c, s.cSpinlocks c = 0
  irq : ∀ c, s.irq c = false
  holder : ∀ k, s.splkHolder k = none

/-! ### What the calls change -/

/-- A call on processor `c` takes the current thread to the level `spl` and
adds `d` to its count, and turns the processor's interrupts on or off with it. -/
structure Called (c : C) (d : ℤ) (spl : Ipl) (s r : Irqs T C K) : Prop where
  cur : r.cCurthread = s.cCurthread
  pos : r.pos = s.pos
  acquired : r.acquired = s.acquired
  curspl : r.tCurspl = Function.update s.tCurspl (s.cCurthread c) spl
  count : r.tIplhighCount = Function.update s.tIplhighCount (s.cCurthread c) (s.tIplhighCount (s.cCurthread c) + d)
  irq : ∀ b ≠ c, r.irq b = s.irq b
  sync : 0 ≤ s.tIplhighCount (s.cCurthread c) → 0 ≤ s.tIplhighCount (s.cCurthread c) + d →
    (s.irq c = true ↔ s.tIplhighCount (s.cCurthread c) = 0) → (r.irq c = true ↔ s.tIplhighCount (s.cCurthread c) + d = 0)

variable {c : C} {s r : Irqs T C K}

omit [DecidableEq K] in
theorem splraise_returns (old new : Ipl) :
    Prog.Returns (splraise c old new) (fun _ => Called c 1 (s.tCurspl (s.cCurthread c)) s) s := by
  unfold splraise cpuIrqoff addCount
  simp only [Prog.returns_bind, Prog.returns_assert, Prog.returns_get, Prog.returns_ite, Prog.returns_modify]
  intro _ _
  refine ⟨fun h0 => ⟨rfl, rfl, rfl, (Function.update_eq_self _ _).symm, rfl, fun b hb => Function.update_of_ne hb _ _, ?_⟩,
    fun h0 => ⟨rfl, rfl, rfl, (Function.update_eq_self _ _).symm, rfl, fun _ _ => rfl, ?_⟩⟩
  · intro hc _ _
    simp only [Function.update_self, Bool.false_eq_true, false_iff]
    omega
  · intro hc _ hs
    simp only [hs]
    omega

omit [DecidableEq K] in
theorem spllower_returns (old new : Ipl) :
    Prog.Returns (spllower c old new) (fun _ => Called c (-1) (s.tCurspl (s.cCurthread c)) s) s := by
  unfold spllower cpuIrqon addCount
  simp only [Prog.returns_bind, Prog.returns_assert, Prog.returns_get, Prog.returns_ite, Prog.returns_modify,
    Prog.returns_pure, Function.update_self]
  intro _ _
  refine ⟨fun h0 => ⟨rfl, rfl, rfl, (Function.update_eq_self _ _).symm, rfl, fun b hb => Function.update_of_ne hb _ _, ?_⟩,
    fun h0 => ⟨rfl, rfl, rfl, (Function.update_eq_self _ _).symm, rfl, fun _ _ => rfl, ?_⟩⟩
  · intro _ _ _
    simpa using h0
  · intro hc hc' hs
    simp only [hs]
    omega

omit [DecidableEq C] [DecidableEq K] in
/-- The level is set after the call. -/
theorem Called.setCurspl {d : ℤ} {old : Ipl} (h : Called c d old s r) (spl : Ipl) :
    Called c d spl s { r with tCurspl := Function.update r.tCurspl (r.cCurthread c) spl } := by
  refine ⟨h.cur, h.pos, h.acquired, ?_, h.count, h.irq, h.sync⟩
  rw [h.curspl, h.cur, Function.update_idem]

omit [DecidableEq C] [DecidableEq K] in
/-- The level is set before the call. -/
theorem Called.of_setCurspl {d : ℤ} {old spl : Ipl}
    (h : Called c d old { s with tCurspl := Function.update s.tCurspl (s.cCurthread c) spl } r) (hold : old = spl) :
    Called c d spl s r := by
  refine ⟨h.cur, h.pos, h.acquired, ?_, h.count, h.irq, h.sync⟩
  rw [h.curspl, hold, Function.update_idem]

omit [DecidableEq K] in
/-- **`splx`.** -/
theorem splx_returns (spl : Ipl) : Prog.Returns (splx c spl)
    (fun ret r => ret = s.tCurspl (s.cCurthread c) ∧
      Called c ((spl.level : ℤ) - ((s.tCurspl (s.cCurthread c)).level : ℤ)) spl s r) s := by
  unfold splx
  simp only [Prog.returns_bind, Prog.returns_get, Prog.returns_ite, Prog.returns_pure]
  refine ⟨fun hlt => ?_, fun hle => ⟨fun hgt => ?_, fun hge => ?_⟩⟩
  · have hold : s.tCurspl (s.cCurthread c) = .none := by
      cases h : s.tCurspl (s.cCurthread c) <;> cases spl <;> simp_all [Ipl.level]
    have hspl : spl = .high := by
      cases spl <;> simp_all [Ipl.level]
    refine Prog.returns_mono (splraise_returns _ _) fun _ r hr => ?_
    rw [Os161.setCurspl, Prog.returns_modify]
    refine ⟨trivial, ?_⟩
    have hd : (spl.level : ℤ) - ((s.tCurspl (s.cCurthread c)).level : ℤ) = 1 := by
      rw [hold, hspl]
      rfl
    rw [hd]
    exact hr.setCurspl spl
  · have hold : s.tCurspl (s.cCurthread c) = .high := by
      cases h : s.tCurspl (s.cCurthread c) <;> cases spl <;> simp_all [Ipl.level]
    have hspl : spl = .none := by
      cases spl <;> simp_all [Ipl.level]
    rw [Os161.setCurspl, Prog.returns_modify]
    refine Prog.returns_mono (spllower_returns _ _) fun _ r hr => ⟨trivial, ?_⟩
    have hd : (spl.level : ℤ) - ((s.tCurspl (s.cCurthread c)).level : ℤ) = -1 := by
      rw [hold, hspl]
      rfl
    rw [hd]
    exact hr.of_setCurspl (Function.update_self _ _ _)
  · have heq : s.tCurspl (s.cCurthread c) = spl := by
      cases h : s.tCurspl (s.cCurthread c) <;> cases spl <;> simp_all [Ipl.level]
    refine ⟨heq.symm, rfl, rfl, rfl, (Function.update_eq_self_iff.mpr heq.symm).symm, ?_, fun _ _ => rfl, ?_⟩
    · rw [heq, sub_self, add_zero, Function.update_eq_self]
    · rw [heq, sub_self, add_zero]
      exact fun _ _ hs => hs

/-- **`spinlock_acquire`.** -/
theorem spinlockAcquire_returns (k : K) :
    Prog.Returns (spinlockAcquire c k) (fun _ => Called c 1 (s.tCurspl (s.cCurthread c)) s) s := by
  unfold spinlockAcquire
  rw [Prog.returns_bind]
  refine Prog.returns_mono (splraise_returns _ _) fun _ r hr => ?_
  simp only [Prog.returns_bind, Prog.returns_assert, Prog.returns_get, Prog.returns_modify]
  exact fun _ => ⟨hr.cur, hr.pos, hr.acquired, hr.curspl, hr.count, hr.irq, hr.sync⟩

/-- **`spinlock_release`.** -/
theorem spinlockRelease_returns (k : K) :
    Prog.Returns (spinlockRelease c k) (fun _ => Called c (-1) (s.tCurspl (s.cCurthread c)) s) s := by
  unfold spinlockRelease
  simp only [Prog.returns_bind, Prog.returns_assert, Prog.returns_get, Prog.returns_modify]
  intro _ _
  refine Prog.returns_mono (spllower_returns _ _) fun _ r hr => ?_
  exact ⟨hr.cur, hr.pos, hr.acquired, hr.curspl, hr.count, hr.irq, hr.sync⟩

omit [DecidableEq K] in
theorem mipsInterrupt_returns : Prog.Returns (mipsInterrupt c)
    (fun doadjust r => (doadjust = true ∧ s.tCurspl (s.cCurthread c) = .none ∧ Called c 1 .high s r) ∨
      (doadjust = false ∧ s.tCurspl (s.cCurthread c) = .high ∧ r = { s with irq := Function.update s.irq c false })) s := by
  unfold mipsInterrupt cpuIrqoff setCurspl addCount
  simp only [Prog.returns_bind, Prog.returns_get, Prog.returns_ite, Prog.returns_assert, Prog.returns_modify,
    Prog.returns_pure]
  refine ⟨fun hspl _ => Or.inl ⟨trivial, hspl, rfl, rfl, rfl, rfl, rfl, fun b hb => Function.update_of_ne hb _ _, ?_⟩,
    fun hspl => Or.inr ⟨trivial, ?_, trivial⟩⟩
  · intro hc _ _
    simp only [Function.update_self, Bool.false_eq_true, false_iff]
    omega
  · cases h : s.tCurspl (s.cCurthread c) with
    | none => exact absurd h hspl
    | high => rfl

omit [DecidableEq K] in
theorem mipsInterruptReturn_returns : Prog.Returns (mipsInterruptReturn c)
    (fun _ r => s.tCurspl (s.cCurthread c) = .high ∧ Called c (-1) .none s r) s := by
  unfold mipsInterruptReturn cpuIrqon setCurspl addCount
  simp only [Prog.returns_bind, Prog.returns_get, Prog.returns_assert, Prog.returns_modify]
  refine fun hspl hcount => ⟨hspl, rfl, rfl, rfl, rfl, rfl, fun b hb => Function.update_of_ne hb _ _, ?_⟩
  intro _ _ _
  simp only [Function.update_self, true_iff, hcount]
  rfl

omit [DecidableEq C] [DecidableEq K] in
/-- No call. -/
theorem called_isidle (c : C) (s : Irqs T C K) (idle : C → Bool) :
    Called c 0 (s.tCurspl (s.cCurthread c)) s { s with cIsidle := idle } := by
  refine ⟨rfl, rfl, rfl, (Function.update_eq_self _ _).symm, ?_, fun _ _ => rfl, fun _ _ hs => ?_⟩
  · rw [add_zero, Function.update_eq_self]
  · rw [add_zero]
    exact hs

/-! ### The invariant -/

namespace SplPos

/-- As `carried`; an exited thread has acquired a run queue's lock as well. -/
def owed : SplPos K → ℕ
  | exited => 1
  | p => p.carried

end SplPos

/-- **The invariant**: a thread is running if it is some processor's, the
counts are what they should be, and interrupts are on where the count is 0. -/
structure Irqs.Inv (s : Irqs T C K) : Prop where
  inj : Function.Injective s.cCurthread
  running : ∀ c, (s.pos (s.cCurthread c)).Running
  current : ∀ t, (s.pos t).Running → ∃ c, s.cCurthread c = t
  count : ∀ t, s.pos t ≠ .unused →
    s.tIplhighCount t = (s.acquired t).card + (s.pos t).owed + (s.tCurspl t).level
  irq : ∀ c, ¬ (s.pos (s.cCurthread c)).Idle → (s.irq c = true ↔ s.tIplhighCount (s.cCurthread c) = 0)

namespace Irqs.Inv

omit [DecidableEq C] [DecidableEq K] in
/-- The current thread of one processor changes. -/
theorem update {p : SplPos K} (h : s.Inv) (hcur : r.cCurthread = s.cCurthread)
    (hpos : r.pos = Function.update s.pos (s.cCurthread c) p) (hp : p.Running)
    (hcount : ∀ t ≠ s.cCurthread c, r.tIplhighCount t = s.tIplhighCount t)
    (hcurspl : ∀ t ≠ s.cCurthread c, r.tCurspl t = s.tCurspl t)
    (hacq : ∀ t ≠ s.cCurthread c, r.acquired t = s.acquired t)
    (hmine : r.tIplhighCount (s.cCurthread c) = (r.acquired (s.cCurthread c)).card + p.owed + (r.tCurspl (s.cCurthread c)).level)
    (hirq : ∀ b ≠ c, r.irq b = s.irq b)
    (hsync : ¬ p.Idle → (r.irq c = true ↔ r.tIplhighCount (s.cCurthread c) = 0)) : r.Inv := by
  have hposne : ∀ t ≠ s.cCurthread c, r.pos t = s.pos t := fun t ht => by rw [hpos, Function.update_of_ne ht]
  have hposeq : r.pos (s.cCurthread c) = p := by rw [hpos, Function.update_self]
  refine ⟨hcur ▸ h.inj, fun b => ?_, fun t ht => ?_, fun t ht => ?_, fun b hb => ?_⟩
  · rw [hcur]
    rcases eq_or_ne (s.cCurthread b) (s.cCurthread c) with he | hne
    · rw [he, hposeq]
      exact hp
    · rw [hposne _ hne]
      exact h.running b
  · rcases eq_or_ne t (s.cCurthread c) with rfl | hne
    · exact ⟨c, congrFun hcur c⟩
    · rw [hposne t hne] at ht
      obtain ⟨b, hb⟩ := h.current t ht
      exact ⟨b, (congrFun hcur b).trans hb⟩
  · rcases eq_or_ne t (s.cCurthread c) with rfl | hne
    · rw [hposeq]
      exact hmine
    · rw [hposne t hne] at ht ⊢
      rw [hcount t hne, hcurspl t hne, hacq t hne]
      exact h.count t ht
  · rw [hcur] at hb ⊢
    rcases eq_or_ne b c with rfl | hbc
    · rw [hposeq] at hb
      exact hsync hb
    · have hne : s.cCurthread b ≠ s.cCurthread c := fun he => hbc (h.inj he)
      rw [hposne _ hne] at hb
      rw [hirq b hbc, hcount _ hne]
      exact h.irq b hb

omit [DecidableEq T] [DecidableEq C] [DecidableEq K] in
theorem not_unused (h : s.Inv) (c : C) : s.pos (s.cCurthread c) ≠ .unused := by
  intro he
  have := h.running c
  rw [he] at this
  exact this

/-- What a step does besides its call. -/
structure After (c : C) (p : SplPos K) (a : Multiset K) (s q r : Irqs T C K) : Prop where
  cur : r.cCurthread = q.cCurthread
  count : r.tIplhighCount = q.tIplhighCount
  curspl : r.tCurspl = q.tCurspl
  irq : r.irq = q.irq
  pos : r.pos = Function.update s.pos (s.cCurthread c) p
  acquired : r.acquired = Function.update s.acquired (s.cCurthread c) a

omit [DecidableEq C] [DecidableEq K] in
/-- **A step with one call**: the spinlocks to release, the level and the count
change alike. -/
theorem called {q : Irqs T C K} {d : ℤ} {spl : Ipl} {p : SplPos K} {a : Multiset K} (h : s.Inv) (hcall : Called c d spl s q)
    (hr : After c p a s q r) (hp : p.Running)
    (hsync : ¬ p.Idle → (s.irq c = true ↔ s.tIplhighCount (s.cCurthread c) = 0))
    (hbal : ((s.acquired (s.cCurthread c)).card + (s.pos (s.cCurthread c)).owed + (s.tCurspl (s.cCurthread c)).level : ℤ) + d =
      a.card + p.owed + spl.level) : r.Inv := by
  have hcount := h.count _ (h.not_unused c)
  have hne : ∀ {α : Type} (f : T → α) (x : α), ∀ t ≠ s.cCurthread c, Function.update f (s.cCurthread c) x t = f t :=
    fun f x t ht => Function.update_of_ne ht _ _
  refine h.update (c := c) (hr.cur.trans hcall.cur) hr.pos hp ?_ ?_ ?_ ?_ ?_ ?_
  · rw [hr.count, hcall.count]
    exact hne _ _
  · rw [hr.curspl, hcall.curspl]
    exact hne _ _
  · rw [hr.acquired]
    exact hne _ _
  · rw [hr.count, hcall.count, hr.curspl, hcall.curspl, hr.acquired, Function.update_self, Function.update_self,
      Function.update_self, hcount]
    exact hbal
  · intro b hb
    rw [hr.irq]
    exact hcall.irq b hb
  · intro hpi
    rw [hr.irq, hr.count, hcall.count, Function.update_self]
    refine hcall.sync ?_ ?_ (hsync hpi)
    · rw [hcount]
      positivity
    · rw [hcount, hbal]
      positivity

omit [DecidableEq C] [DecidableEq K] in
/-- A call at a place that the thread does not leave. -/
theorem call {q : Irqs T C K} {d : ℤ} {spl : Ipl} (h : s.Inv) (hcall : Called c d spl s q)
    (hd : ((s.tCurspl (s.cCurthread c)).level : ℤ) + d = spl.level) : q.Inv := by
  refine h.called hcall (p := s.pos (s.cCurthread c)) (a := s.acquired (s.cCurthread c))
    ⟨rfl, rfl, rfl, rfl, ?_, ?_⟩ (h.running c) (h.irq c) (by omega)
  · rw [hcall.pos, Function.update_eq_self]
  · rw [hcall.acquired, Function.update_eq_self]

omit [DecidableEq C] [DecidableEq K] in
/-- A call on the way from one place to the next. -/
theorem goto {q : Irqs T C K} {d : ℤ} {spl : Ipl} {p p' : SplPos K} (h : s.Inv) (hpos : s.pos (s.cCurthread c) = p)
    (hcall : Called c d spl s q) (hp' : p'.Running) (hidle : ¬ p.Idle)
    (hbal : (p.owed + (s.tCurspl (s.cCurthread c)).level : ℤ) + d = p'.owed + spl.level) :
    (q.goto (s.cCurthread c) p').Inv := by
  subst hpos
  refine h.called hcall (a := s.acquired (s.cCurthread c)) ⟨rfl, rfl, rfl, rfl, ?_, ?_⟩ hp' (fun _ => h.irq c hidle)
    (by omega)
  · rw [Irqs.goto, hcall.pos]
  · exact hcall.acquired.trans (Function.update_eq_self _ _).symm

omit [DecidableEq K] in
theorem goto_splx {q : Irqs T C K} {spl ret : Ipl} {p p' : SplPos K} (h : s.Inv) (hpos : s.pos (s.cCurthread c) = p)
    (hr : splx c spl s = .ok ret q) (hp' : p'.Running) (hidle : ¬ p.Idle) (howed : p'.owed = p.owed) :
    (q.goto (s.cCurthread c) p').Inv :=
  h.goto hpos (splx_returns _ _ _ hr).2 hp' hidle (by omega)

theorem goto_acquire {q : Irqs T C K} {k : K} {p p' : SplPos K} (h : s.Inv) (hpos : s.pos (s.cCurthread c) = p)
    (hr : spinlockAcquire c k s = .ok () q) (hp' : p'.Running) (hidle : ¬ p.Idle) (howed : p'.owed = p.owed + 1) :
    (q.goto (s.cCurthread c) p').Inv :=
  h.goto hpos (spinlockAcquire_returns _ _ _ hr) hp' hidle (by omega)

theorem goto_release {q : Irqs T C K} {k : K} {p p' : SplPos K} (h : s.Inv) (hpos : s.pos (s.cCurthread c) = p)
    (hr : spinlockRelease c k s = .ok () q) (hp' : p'.Running) (hidle : ¬ p.Idle) (howed : p.owed = p'.owed + 1) :
    (q.goto (s.cCurthread c) p').Inv :=
  h.goto hpos (spinlockRelease_returns _ _ _ hr) hp' hidle (by omega)

omit [DecidableEq C] [DecidableEq K] in
theorem goto_isidle {idle : C → Bool} {p p' : SplPos K} (h : s.Inv) (hpos : s.pos (s.cCurthread c) = p)
    (hp' : p'.Running) (hidle : ¬ p.Idle) (howed : p'.owed = p.owed) :
    ({ s with cIsidle := idle }.goto (s.cCurthread c) p').Inv :=
  h.goto hpos (called_isidle c s idle) hp' hidle (by omega)

omit [DecidableEq K] in
/-- In `cpu_idle` interrupts may be on or off. -/
theorem irqonoff {b : Bool} (h : s.Inv) (hidle : (s.pos (s.cCurthread c)).Idle) :
    { s with irq := Function.update s.irq c b }.Inv := by
  refine h.update (c := c) rfl (Function.update_eq_self _ _).symm (h.running c) (fun _ _ => rfl) (fun _ _ => rfl)
    (fun _ _ => rfl) (h.count _ (h.not_unused c)) (fun a ha => Function.update_of_ne ha _ _) fun hn => absurd hidle hn

omit [DecidableEq C] [DecidableEq K] in
/-- A thread that runs on no processor changes. -/
theorem other {t : T} {p : SplPos K} (h : s.Inv) (ht : ¬ (s.pos t).Running) (hp : ¬ p.Running)
    (hcur : r.cCurthread = s.cCurthread) (hirq : r.irq = s.irq) (hpos : r.pos = Function.update s.pos t p)
    (hcount : ∀ u ≠ t, r.tIplhighCount u = s.tIplhighCount u) (hcurspl : ∀ u ≠ t, r.tCurspl u = s.tCurspl u)
    (hacq : ∀ u ≠ t, r.acquired u = s.acquired u)
    (hmine : p ≠ .unused → r.tIplhighCount t = (r.acquired t).card + p.owed + (r.tCurspl t).level) : r.Inv := by
  have hne : ∀ c, s.cCurthread c ≠ t := fun c he => ht (he ▸ h.running c)
  have hposne : ∀ u ≠ t, r.pos u = s.pos u := fun u hu => by rw [hpos, Function.update_of_ne hu]
  have hposeq : r.pos t = p := by rw [hpos, Function.update_self]
  refine ⟨hcur ▸ h.inj, fun b => ?_, fun u hu => ?_, fun u hu => ?_, fun b hb => ?_⟩
  · rw [hcur, hposne _ (hne b)]
    exact h.running b
  · rcases eq_or_ne u t with rfl | hut
    · rw [hposeq] at hu
      exact absurd hu hp
    · rw [hposne u hut] at hu
      obtain ⟨b, hb⟩ := h.current u hu
      exact ⟨b, (congrFun hcur b).trans hb⟩
  · rcases eq_or_ne u t with rfl | hut
    · rw [hposeq] at hu ⊢
      exact hmine hu
    · rw [hposne u hut] at hu ⊢
      rw [hcount u hut, hcurspl u hut, hacq u hut]
      exact h.count u hu
  · rw [hcur, hposne _ (hne b)] at hb
    rw [hirq, hcur, hcount _ (hne b)]
    exact h.irq b hb

omit [DecidableEq K] in
/-- **`switchframe_switch`**: the lock of the run queue is held before it by
one thread and after it by the other. -/
theorem switch {next : T} {p p' : SplPos K} {idle : C → Bool} (h : s.Inv) (howed : (s.pos (s.cCurthread c)).owed = 1)
    (hidle : ¬ (s.pos (s.cCurthread c)).Idle) (hnext : ¬ (s.pos next).Running) (hnu : s.pos next ≠ .unused)
    (hnowed : (s.pos next).owed = 1) (hp : ¬ p.Running) (hpowed : p.owed = 1) (hp' : p'.Running) (hpowed' : p'.owed = 1) :
    (({ s with
      cIsidle := idle
      cCurthread := Function.update s.cCurthread c next }.goto (s.cCurthread c) p).goto next p').Inv := by
  have hne : ∀ b, s.cCurthread b ≠ next := fun b he => hnext (he ▸ h.running b)
  have hold := h.count _ (h.not_unused c)
  have hnew := h.count _ hnu
  -- where the threads are now
  have hpnext : Function.update (Function.update s.pos (s.cCurthread c) p) next p' next = p' := Function.update_self ..
  have hpcur : Function.update (Function.update s.pos (s.cCurthread c) p) next p' (s.cCurthread c) = p := by
    rw [Function.update_of_ne (hne c), Function.update_self]
  have hpother : ∀ u, u ≠ next → u ≠ s.cCurthread c →
      Function.update (Function.update s.pos (s.cCurthread c) p) next p' u = s.pos u := fun u h1 h2 => by
    rw [Function.update_of_ne h1, Function.update_of_ne h2]
  have hcurne : ∀ b ≠ c, Function.update s.cCurthread c next b = s.cCurthread b := fun b hb => Function.update_of_ne hb _ _
  have hbne : ∀ b ≠ c, s.cCurthread b ≠ s.cCurthread c := fun b hb he => hb (h.inj he)
  refine ⟨fun a b hab => ?_, fun b => ?_, fun u hu => ?_, fun u hu => ?_, fun b hb => ?_⟩
  · change Function.update s.cCurthread c next a = Function.update s.cCurthread c next b at hab
    rcases eq_or_ne a c with rfl | ha <;> rcases eq_or_ne b a with rfl | hba
    · rfl
    · rw [Function.update_self, hcurne b hba] at hab
      exact absurd hab.symm (hne b)
    · rfl
    · rcases eq_or_ne b c with rfl | hb
      · rw [Function.update_self, hcurne a ha] at hab
        exact absurd hab (hne a)
      · rw [hcurne a ha, hcurne b hb] at hab
        exact h.inj hab
  · change (Function.update (Function.update s.pos (s.cCurthread c) p) next p'
      (Function.update s.cCurthread c next b)).Running
    rcases eq_or_ne b c with rfl | hb
    · rw [Function.update_self, hpnext]
      exact hp'
    · rw [hcurne b hb, hpother _ (hne b) (hbne b hb)]
      exact h.running b
  · change (Function.update (Function.update s.pos (s.cCurthread c) p) next p' u).Running at hu
    rcases eq_or_ne u next with rfl | h1
    · exact ⟨c, Function.update_self ..⟩
    · rcases eq_or_ne u (s.cCurthread c) with rfl | h2
      · rw [hpcur] at hu
        exact absurd hu hp
      · rw [hpother u h1 h2] at hu
        obtain ⟨b, hb⟩ := h.current u hu
        refine ⟨b, ?_⟩
        have hbc : b ≠ c := fun he => h2 (by rw [← hb, he])
        exact (hcurne b hbc).trans hb
  · change Function.update (Function.update s.pos (s.cCurthread c) p) next p' u ≠ .unused at hu
    change s.tIplhighCount u = ((s.acquired u).card : ℤ) +
      ((Function.update (Function.update s.pos (s.cCurthread c) p) next p' u).owed : ℤ) + ((s.tCurspl u).level : ℤ)
    rcases eq_or_ne u next with rfl | h1
    · rw [hpnext, hpowed', hnew, hnowed]
    · rcases eq_or_ne u (s.cCurthread c) with rfl | h2
      · rw [hpcur, hpowed, hold, howed]
      · rw [hpother u h1 h2] at hu ⊢
        exact h.count u hu
  · change ¬ (Function.update (Function.update s.pos (s.cCurthread c) p) next p'
      (Function.update s.cCurthread c next b)).Idle at hb
    change s.irq b = true ↔ s.tIplhighCount (Function.update s.cCurthread c next b) = 0
    rcases eq_or_ne b c with rfl | hbc
    · -- interrupts are off, and neither count is 0
      rw [Function.update_self, h.irq b hidle, hold, hnew, howed, hnowed]
      constructor <;> intro hz <;> omega
    · rw [hcurne b hbc, hpother _ (hne b) (hbne b hbc)] at hb
      rw [hcurne b hbc]
      exact h.irq b hb

/-- **One step.** -/
theorem step {rq : C → K} (h : s.Inv) (hstep : SplStep rq c s r) : r.Inv := by
  have hacq : ∀ {k : K}, k ∈ s.acquired (s.cCurthread c) →
      ((s.acquired (s.cCurthread c)).card : ℤ) = ((s.acquired (s.cCurthread c)).erase k).card + 1 := fun hk => by
    rw [← Multiset.cons_erase hk, Multiset.card_cons, Multiset.erase_cons_head]
    rfl
  cases hstep with
  | splx _ hr => exact h.call (splx_returns _ _ _ hr).2 (by omega)
  | acquire _ _ hr =>
    have hcall := spinlockAcquire_returns _ _ _ hr
    refine h.called hcall ⟨rfl, rfl, rfl, rfl, ?_, rfl⟩ (h.running c) (h.irq c) ?_
    · rw [Function.update_eq_self]
      exact hcall.pos
    · rw [Multiset.card_cons]
      push_cast
      ring
  | release _ hk hr =>
    have hcall := spinlockRelease_returns _ _ _ hr
    refine h.called hcall ⟨rfl, rfl, rfl, rfl, ?_, rfl⟩ (h.running c) (h.irq c) ?_
    · rw [Function.update_eq_self]
      exact hcall.pos
    · rw [hacq hk]
      ring
  | interrupt hcalls hnidle hirq hr =>
    rcases mipsInterrupt_returns _ _ hr with ⟨_, hspl, hcall⟩ | ⟨_, hspl, rfl⟩
    · have hq := h.call hcall (by rw [hspl]; rfl)
      exact ⟨hq.inj, hq.running, hq.current, hq.count, hq.irq⟩
    · -- interrupts were on, so the count was 0 and the level low
      have h0 := (h.irq c hnidle).mp hirq
      rw [h.count _ (h.not_unused c), hspl] at h0
      simp only [Ipl.level] at h0
      omega
  | interruptReturn _ _ hr =>
    obtain ⟨hspl, hcall⟩ := mipsInterruptReturn_returns _ _ hr
    have hq := h.call hcall (by rw [hspl]; rfl)
    exact ⟨hq.inj, hq.running, hq.current, hq.count, hq.irq⟩
  | create _ ht =>
    refine h.other (ht ▸ id) id rfl rfl rfl (fun u hu => Function.update_of_ne hu _ _)
      (fun u hu => Function.update_of_ne hu _ _) (fun u hu => Function.update_of_ne hu _ _) fun _ => ?_
    simp only [Irqs.goto, Function.update_self, Multiset.card_zero]
    rfl
  | @fork t _ ht =>
    refine h.other (ht ▸ id) id rfl rfl rfl (fun u hu => Function.update_of_ne hu _ _) (fun _ _ => rfl) (fun _ _ => rfl)
      fun _ => ?_
    have hcount := h.count t (ht ▸ nofun)
    rw [ht] at hcount
    simp only [Irqs.goto, Function.update_self, hcount]
    simp only [SplPos.owed, SplPos.carried]
    omega
  | enter hpos _ hr => exact h.goto_splx hpos hr trivial id rfl
  | enterIdle _ _ hr1 hr2 =>
    have h1 := h.call (splx_returns _ _ _ hr1).2 (by omega)
    exact h1.call (splx_returns _ _ _ hr2).2 (by omega)
  | lock hpos _ hr => exact h.goto_acquire hpos hr trivial id rfl
  | nothingToDo hpos hr => exact h.goto_release hpos hr trivial id rfl
  | ready hpos => exact h.goto_isidle hpos trivial id rfl
  | @sleep _ spl _ hpos hk hr =>
    have hcall := spinlockRelease_returns _ _ _ hr
    refine h.called hcall (p := .queued spl false) ⟨rfl, rfl, rfl, rfl, ?_, rfl⟩ trivial (fun _ => h.irq c (hpos ▸ id)) ?_
    · rw [Irqs.goto, hcall.pos]
    · rw [hacq hk, hpos]
      simp only [SplPos.owed, SplPos.carried]
      ring
  | exit hpos => exact h.goto_isidle hpos trivial id rfl
  | idle hpos hr => exact h.goto_release hpos hr trivial id rfl
  | irqonoff hidle => exact h.irqonoff hidle
  | @unidle _ spl exits hpos hspl _ hr =>
    have hidle : (s.pos (s.cCurthread c)).Idle := hpos ▸ trivial
    have hcall := spinlockAcquire_returns _ _ _ hr
    refine (h.irqonoff hidle).called hcall (p := .queued spl exits) (a := s.acquired (s.cCurthread c))
      ⟨rfl, rfl, rfl, rfl, ?_, ?_⟩ trivial ?_ ?_
    · rw [Irqs.goto, hcall.pos]
    · exact hcall.acquired.trans (Function.update_eq_self _ _).symm
    · -- cpu_idle turned interrupts off, and the level is high
      intro _
      have hcount := h.count _ (h.not_unused c)
      rw [hspl] at hcount
      simp only [Function.update_self, Bool.false_eq_true, false_iff, hcount, Ipl.level]
      omega
    · simp only [hpos, SplPos.owed, SplPos.carried]
      omega
  | @switch spl spl' exits next hpos hnext =>
    refine h.switch (hpos ▸ rfl) (hpos ▸ id) (hnext ▸ id) (hnext ▸ nofun) (hnext ▸ rfl) ?_ ?_ trivial rfl
    · cases exits <;> exact id
    · cases exits <;> rfl
  | @switchFresh spl exits next hpos hnext =>
    refine h.switch (hpos ▸ rfl) (hpos ▸ id) (hnext ▸ id) (hnext ▸ nofun) (hnext ▸ rfl) ?_ ?_ trivial rfl
    · cases exits <;> exact id
    · cases exits <;> rfl
  | switchSelf hpos => exact h.goto_isidle hpos trivial id rfl
  | unlock hpos hr => exact h.goto_release hpos hr trivial id rfl
  | leave hpos hr => exact h.goto_splx hpos hr trivial id rfl
  | startup hpos hr => exact h.goto_release hpos hr trivial id rfl
  | start hpos hr => exact h.goto_splx hpos hr trivial id rfl
  | destroy _ ht =>
    exact h.other (ht ▸ id) id rfl rfl rfl (fun _ _ => rfl) (fun _ _ => rfl) (fun _ _ => rfl) fun hu => absurd rfl hu

omit [DecidableEq T] [DecidableEq C] [DecidableEq K] in
theorem of_boot (h : s.Boot) : s.Inv := by
  refine ⟨h.cur, fun c => ?_, fun t ht => ?_, fun t ht => ?_, fun c _ => ?_⟩
  · rw [h.pos]
    trivial
  · by_contra hne
    push Not at hne
    rw [h.unused t hne] at ht
    exact ht
  · obtain ⟨c, rfl⟩ : ∃ c, s.cCurthread c = t := by
      by_contra hne
      push Not at hne
      exact ht (h.unused t hne)
    rw [h.count, h.acquired, h.pos, h.curspl]
    rfl
  · rw [h.irq, h.count]
    decide

end Irqs.Inv

/-! ### Every run -/

/-- **Interrupt masking is exact.** A thread's count is the number of spinlocks
it has to release, and one for its level; an exited thread's is one more, for
the lock of the run queue that its successor releases. Interrupts are on at a
processor outside `cpu_idle` where the count is 0. -/
structure Irqs.Exact (s : Irqs T C K) : Prop where
  count : ∀ t, s.pos t ≠ .unused → s.pos t ≠ .exited →
    s.tIplhighCount t = (s.acquired t).card + (s.pos t).carried + (s.tCurspl t).level
  exited : ∀ t, s.pos t = .exited → s.tIplhighCount t = (s.acquired t).card + 1 + (s.tCurspl t).level
  nonneg : ∀ t, s.pos t ≠ .unused → 0 ≤ s.tIplhighCount t
  irq : ∀ c, ¬ (s.pos (s.cCurthread c)).Idle → (s.irq c = true ↔ s.tIplhighCount (s.cCurthread c) = 0)

omit [DecidableEq T] [DecidableEq C] [DecidableEq K] in
theorem Irqs.Inv.exact (h : s.Inv) : s.Exact := by
  refine ⟨fun t hu he => ?_, fun t he => ?_, fun t hu => ?_, h.irq⟩
  · rw [h.count t hu]
    cases hp : s.pos t <;> first | rfl | exact absurd hp he
  · rw [h.count t (he ▸ nofun), he]
    rfl
  · rw [h.count t hu]
    positivity

/-- **Every run** of the processors from boot. -/
theorem spl_exact_run {rq : C → K} {s' : Irqs T C K} {cs : List C} (hboot : s.Boot)
    (hrun : Run (fun s c s' => SplStep rq c s s') s cs s') : s'.Exact := by
  have hinv : s'.Inv := hrun.invariant (Irqs.Inv.of_boot hboot) fun _ _ _ h hstep => h.step hstep
  exact hinv.exact

/-- One processor and its first thread. -/
def bootIrqs : Irqs (Fin 2) Unit Unit where
  tCurspl _ := .high
  tIplhighCount _ := 1
  cCurthread _ := ⟨0, Nat.two_pos⟩
  cIsidle _ := false
  cSpinlocks _ := 0
  irq _ := false
  splkHolder _ := none
  pos t := if t = ⟨0, Nat.two_pos⟩ then .outside else .unused
  acquired _ := 0
  frames _ := 0

theorem bootIrqs_boot : bootIrqs.Boot := by
  refine ⟨fun _ _ _ => rfl, fun _ => rfl, fun t ht => ?_, fun _ => rfl, fun _ => rfl, fun _ => rfl, fun _ => rfl,
    fun _ => rfl, fun _ => rfl, fun _ => rfl, fun _ => rfl⟩
  exact if_neg fun h0 => ht () h0.symm

/-- The first thread starts another one and exits. -/
theorem bootIrqs_exit : ∃ s' : Irqs (Fin 2) Unit Unit,
    Run (fun s c s' => SplStep (fun _ => ()) c s s') bootIrqs [(), (), (), (), (), ()] s' ∧ s'.pos 0 = .exited ∧
      s'.tIplhighCount 0 = 2 ∧ (s'.acquired 0).card + (s'.pos 0).carried + (s'.tCurspl 0).level = 1 := by
  refine ⟨_, Run.cons (.create (t := 1) trivial rfl) <| Run.cons (.fork (t := 1) trivial rfl) <|
    Run.cons (@SplStep.enter _ _ _ _ _ _ _ _ _ _ _ .zombie rfl rfl rfl) <| Run.cons (.lock rfl rfl rfl) <|
    Run.cons (.exit rfl) <| Run.single (@SplStep.switchFresh _ _ _ _ _ _ _ _ _ _ _ 1 rfl rfl), rfl, rfl, rfl⟩

theorem spl_exact_run_exit : ∃ s' : Irqs (Fin 2) Unit Unit,
    Run (fun s c s' => SplStep (fun _ => ()) c s s') bootIrqs [(), (), (), (), (), ()] s' ∧ s'.Exact := by
  obtain ⟨s', hrun, _⟩ := bootIrqs_exit
  exact ⟨s', hrun, spl_exact_run bootIrqs_boot hrun⟩

/-- **An exited thread's count is one too many**: nobody releases a lock for it. -/
theorem exited_count_two : ∃ s s' : Irqs (Fin 2) Unit Unit, s.Boot ∧
    (∃ cs, Run (fun s c s' => SplStep (fun _ => ()) c s s') s cs s') ∧ s'.pos 0 = .exited ∧ s'.tIplhighCount 0 = 2 ∧
      (s'.acquired 0).card + (s'.pos 0).carried + (s'.tCurspl 0).level = 1 := by
  obtain ⟨s', hrun, hrest⟩ := bootIrqs_exit
  exact ⟨bootIrqs, s', bootIrqs_boot, ⟨_, hrun⟩, hrest⟩

end Os161
