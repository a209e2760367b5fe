/-
# The states of threads

What a thread's place says of its `t_state` and `t_cpu`, along every run of
the thread system: `thread_places`.

The invariant (`Fits`) has, besides a line for each kind of place, what a
processor in the middle of the code knows of the thread it is handling
(`CpuPc.Knows`). A thread that falls asleep is on its wait channel before its
`t_state` says so, and may already be in the hands of a waker: but the waker
does not get past `spinlock_acquire` of the run queue lock that the falling
thread's processor holds.
-/
import Os161.Thread.Places

namespace Os161

variable {n : ℕ} {W L T : Type}

namespace CpuPc

/-- The thread taken off a wait channel and not yet locked. -/
def wakingHand : CpuPc n W T → Option T
  | .gathered t _ | .runnable t _ => some t
  | _ => none

/-- The new thread that `thread_fork` makes runnable. -/
def forkHand : CpuPc n W T → Option T
  | .runnable t .fork | .ready t _ .fork | .enqueue t _ .fork => some t
  | _ => none

/-- The current thread is on a wait channel and not yet `S_SLEEP`. -/
def falling : CpuPc n W T → Bool
  | .unlockWc _ | .setState .sleep => true
  | _ => false

/-- The current thread is on its processor and not yet, or no longer,
`S_RUN`. -/
def rising : CpuPc n W T → Bool
  | .setRun | .enqueueCur => true
  | _ => false

end CpuPc

/-- On its way off a wait channel, before its run queue is locked. -/
def Machine.Waking (s : Machine n W L T) (loc : T → Option (Place n W)) (t : T) : Prop :=
  (∃ w, loc t = some (.list (.wchan w))) ∨ (∃ c, loc t = some (.list (.wakeList c))) ∨ ∃ c, (s.pc c).wakingHand = some t

/-- What the processor `d` knows of the thread it is handling. -/
def CpuPc.Knows (s : Machine n W L T) (loc : T → Option (Place n W)) (d : Fin n) : CpuPc n W T → Prop
  | .enqueueCur => s.tState (s.cur d) = .ready
  | .unlockWc _ => s.Waking loc (s.cur d)
  | .setState .ready => loc (s.cur d) = some (.list (.runqueue d))
  | .setState .sleep => s.Waking loc (s.cur d)
  | .setState .zombie => loc (s.cur d) = some (.list (.zombies d))
  | .setState .run => False
  | .picked t | .switchTo t | .taking t _ _ _ | .sendHand t _ _ _ | .putting t => s.tState t = .ready ∧ s.tCpu t = d
  | .sent t c _ _ | .enqueue t c _ => s.tState t = .ready ∧ s.tCpu t = c
  | .ready t c _ => s.tCpu t = c
  | _ => True

/-- **The invariant.** -/
structure Fits (s : Machine n W L T) (loc : T → Option (Place n W)) : Prop where
  knows : ∀ d, (s.pc d).Knows s loc d
  cur : ∀ c, s.tCpu (s.cur c) = c
  known : ∀ c, loc (s.cur c) ≠ none ∧ loc (s.cur c) ≠ some (.list .born)
  runqueue : ∀ t c, loc t = some (.list (.runqueue c)) → s.tState t = .ready ∧ s.tCpu t = c
  victims : ∀ t c, loc t = some (.list (.victims c)) → s.tState t = .ready ∧ s.tCpu t = c
  zombies : ∀ t c, loc t = some (.list (.zombies c)) →
    s.tCpu t = c ∧ (s.tState t = .zombie ∨ (s.cur c = t ∧ s.pc c = .setState .zombie))
  wchan : ∀ t w, loc t = some (.list (.wchan w)) →
    s.tState t = .sleep ∨ ∃ c, s.cur c = t ∧ (s.pc c).falling = true
  onCpu : ∀ t c, loc t = some (.cpu c) → s.forked t = true → s.tState t = .run ∨ (s.pc c).rising = true
  forked : ∀ t, s.forked t = true → loc t ≠ none ∧ loc t ≠ some (.list .born)
  newHand : ∀ c t, (s.pc c).forkHand = some t → s.forked t = false

variable [DecidableEq W] [DecidableEq L] [DecidableEq T] {lk : W → L} {s : Machine n W L T} {d : Fin n}
  {e : CpuEffect n W L T} {pc pc' : CpuPc n W T} {loc : T → Option (Place n W)} {t : T}

/-! ### What a step touches -/

omit [DecidableEq W] [DecidableEq L] [DecidableEq T] in
/-- Where a `t_state` is written. -/
theorem CpuStep.state_effect {st : ThreadState} (h : CpuStep lk s d pc (.state t st) pc') :
    (t = s.cur d ∧ pc = .setState st ∧ pc' = .setIdle) ∨
    (t = s.cur d ∧ ((pc = .place .ready ∧ st = .ready ∧ pc' = .enqueueCur) ∨ (pc = .setRun ∧ st = .run ∧ pc' = .unlockRq))) ∨
    ∃ c k, pc = .ready t c k ∧ st = .ready ∧ pc' = .enqueue t c k := by
  cases h with
  | setState => exact Or.inl ⟨rfl, rfl, rfl⟩
  | placeReady _ _ => exact Or.inr (Or.inl ⟨rfl, Or.inl ⟨rfl, rfl, rfl⟩⟩)
  | setRun => exact Or.inr (Or.inl ⟨rfl, Or.inr ⟨rfl, rfl, rfl⟩⟩)
  | setReady => exact Or.inr (Or.inr ⟨_, _, rfl, rfl, rfl⟩)

omit [DecidableEq W] [DecidableEq L] [DecidableEq T] in
/-- Where a `t_cpu` is written. -/
theorem CpuStep.cpu_effect {c : Fin n} (h : CpuStep lk s d pc (.cpu t c) pc') :
    ∃ toSend share, pc = .sendHand t c toSend share ∧ pc' = .sent t c toSend share ∧ t ≠ s.cur d := by
  cases h with
  | moveCpu hne => exact ⟨_, _, rfl, rfl, hne⟩

omit [DecidableEq W] [DecidableEq L] [DecidableEq T] in
/-- Where the processor switches. -/
theorem CpuStep.current_effect (h : CpuStep lk s d pc (.current t) pc') : pc = .switchTo t ∧ pc' = .setRun := by
  cases h
  exact ⟨rfl, rfl⟩

omit [DecidableEq W] [DecidableEq L] [DecidableEq T] in
/-- A line at which the current thread is not `S_RUN` puts it on a list or
makes it so. -/
theorem CpuStep.rising_effect (h : CpuStep lk s d pc e pc') (hpc : pc.rising = true) :
    e = .state (s.cur d) .run ∨ ∃ q new, e = .put (s.cur d) q new := by
  cases h with
  | setRun => exact Or.inl rfl
  | enqueueCur => exact Or.inr ⟨_, _, rfl⟩
  | _ => cases hpc

omit [DecidableEq W] [DecidableEq L] [DecidableEq T] in
/-- The current thread is on its processor. -/
theorem Located.cur (h : Located s loc) (hlocks : Locks lk s) (haway : (s.pc d).away = false)
    (hflag : (s.pc d).idleFlag = some false) : loc (s.cur d) = some (.cpu d) :=
  (h.at_iff (.cpu d) _).mp (at_cpu_iff.mpr ⟨⟨haway, hlocks.idle d false hflag⟩, rfl⟩)

/-- **What a step writes**: the fields of a new thread, of the one in the
processor's hands, of the current one. -/
theorem Located.untouched (h : Located s loc) (hlocks : Locks lk s) (hst : CpuStep lk s d (s.pc d) e pc') (t : T) :
    ((s.after d e pc').tState t = s.tState t ∧ (s.after d e pc').tCpu t = s.tCpu t) ∨ loc t = none ∨
      loc t = some (.hand d) ∨ (loc t = some (.cpu d) ∧ ∃ st, e = .state t st) ∨
      (t = s.cur d ∧ ∃ st, s.pc d = .setState st ∧ e = .state t st ∧ pc' = .setIdle) := by
  cases e with
  | state u st =>
    by_cases htu : t = u
    · subst htu
      rcases hst.state_effect with ⟨hcur, hpc, hpc'⟩ | ⟨hcur, hpc⟩ | ⟨c, k, hpc, -, -⟩
      · exact Or.inr (Or.inr (Or.inr (Or.inr ⟨hcur, st, hpc, rfl, hpc'⟩)))
      · refine Or.inr (Or.inr (Or.inr (Or.inl ⟨?_, st, rfl⟩)))
        rw [hcur]
        rcases hpc with ⟨hpc, -, -⟩ | ⟨hpc, -, -⟩
        · exact h.cur hlocks (by rw [hpc]; rfl) (by rw [hpc]; rfl)
        · exact h.cur hlocks (by rw [hpc]; rfl) (by rw [hpc]; rfl)
      · exact Or.inr (Or.inr (Or.inl ((h.at_iff (.hand d) t).mp (by rw [Machine.At, hpc]; rfl))))
    · exact Or.inl ⟨Function.update_of_ne htu _ _, rfl⟩
  | cpu u c =>
    by_cases htu : t = u
    · subst htu
      obtain ⟨_, _, hpc, -, -⟩ := hst.cpu_effect
      exact Or.inr (Or.inr (Or.inl ((h.at_iff (.hand d) t).mp (by rw [Machine.At, hpc]; rfl))))
    · exact Or.inl ⟨rfl, Function.update_of_ne htu _ _⟩
  | create u =>
    by_cases htu : t = u
    · subst htu
      have hfresh := (hst.moves (hlocks.idle d)).1
      refine Or.inr (Or.inl (not_not.mp fun hne => ?_))
      rw [(h.alive t).mpr hne] at hfresh
      cases hfresh
    · exact Or.inl ⟨Function.update_of_ne htu _ _, Function.update_of_ne htu _ _⟩
  | _ => exact Or.inl ⟨rfl, rfl⟩

omit [DecidableEq W] [DecidableEq L] [DecidableEq T] in
/-- What is put on a list. -/
theorem CpuStep.put_knows {q : ListId n W} {new : List T} (h : CpuStep lk s d pc (.put t q new) pc')
    (hk : pc.Knows s loc d) :
    match q with
    | .runqueue c | .victims c => s.tState t = .ready ∧ s.tCpu t = c
    | .zombies c => c = d ∧ t = s.cur d ∧ pc' = .setState .zombie
    | .wchan w => t = s.cur d ∧ pc' = .unlockWc w
    | .wakeList c => c = d
    | .born => False := by
  cases h with
  | enqueueCur => exact ⟨hk, rfl⟩
  | placeSleep => exact ⟨rfl, rfl⟩
  | placeZombie => exact ⟨rfl, rfl, rfl⟩
  | gathered => rfl
  | enqueue _ | victim | keepCur _ | sent | putting => exact hk

omit [DecidableEq W] [DecidableEq L] [DecidableEq T] in
/-- A new thread goes to a run queue. -/
theorem CpuStep.fork_knows {q : ListId n W} {new : List T} (h : CpuStep lk s d pc (.fork t q new) pc')
    (hk : pc.Knows s loc d) : (∃ c, q = .runqueue c ∧ s.tState t = .ready ∧ s.tCpu t = c) ∧ pc.hand = some t := by
  cases h with
  | enqueueNew => exact ⟨⟨_, rfl, hk⟩, rfl⟩

omit [DecidableEq W] [DecidableEq L] [DecidableEq T] in
/-- What is taken off a list, and by whom. -/
theorem CpuStep.take_knows {p : ListId n W} {rest : List T} (h : CpuStep lk s d pc (.take t p rest) pc') :
    match p with
    | .runqueue c | .victims c => c = d
    | .wakeList c => c = d ∧ pc'.wakingHand = some t
    | .wchan _ | .born => pc'.wakingHand = some t
    | .zombies _ => False := by
  cases h with
  | wakeNext _ => exact ⟨rfl, rfl⟩
  | _ => rfl

omit [DecidableEq W] [DecidableEq L] [DecidableEq T] in
/-- What is destroyed, and by whom. -/
theorem CpuStep.destroy_knows {p : ListId n W} {rest : List T} (h : CpuStep lk s d pc (.destroy t p rest) pc') :
    (p = .zombies d ∧ pc = .exorcise) ∨ p = .born := by
  cases h with
  | exorcise _ => exact Or.inl ⟨rfl, rfl⟩
  | forkFails _ _ => exact Or.inr rfl

omit [DecidableEq W] [DecidableEq L] in
/-- Where a thread is after a step. -/
theorem CpuEffect.loc_cases (d : Fin n) (loc : T → Option (Place n W)) (e : CpuEffect n W L T) (t : T) :
    e.loc d loc t = loc t ∨
    (∃ p rest, e = .take t p rest ∧ e.loc d loc t = some (.hand d)) ∨
    (∃ q new, (e = .put t q new ∨ e = .fork t q new) ∧ e.loc d loc t = some (.list q)) ∨
    (e = .current t ∧ e.loc d loc t = some (.cpu d)) ∨
    (e = .create t ∧ e.loc d loc t = some (.list .born)) ∨
    ∃ p rest, e = .destroy t p rest ∧ e.loc d loc t = none := by
  cases e with
  | take u p rest =>
    by_cases hu : t = u
    · subst hu
      exact Or.inr (Or.inl ⟨p, rest, rfl, Function.update_self _ _ _⟩)
    · exact Or.inl (Function.update_of_ne hu _ _)
  | put u q new =>
    by_cases hu : t = u
    · subst hu
      exact Or.inr (Or.inr (Or.inl ⟨q, new, Or.inl rfl, Function.update_self _ _ _⟩))
    · exact Or.inl (Function.update_of_ne hu _ _)
  | fork u q new =>
    by_cases hu : t = u
    · subst hu
      exact Or.inr (Or.inr (Or.inl ⟨q, new, Or.inr rfl, Function.update_self _ _ _⟩))
    · exact Or.inl (Function.update_of_ne hu _ _)
  | current u =>
    by_cases hu : t = u
    · subst hu
      exact Or.inr (Or.inr (Or.inr (Or.inl ⟨rfl, Function.update_self _ _ _⟩)))
    · exact Or.inl (Function.update_of_ne hu _ _)
  | create u =>
    by_cases hu : t = u
    · subst hu
      exact Or.inr (Or.inr (Or.inr (Or.inr (Or.inl ⟨rfl, Function.update_self _ _ _⟩))))
    · exact Or.inl (Function.update_of_ne hu _ _)
  | destroy u p rest =>
    by_cases hu : t = u
    · subst hu
      exact Or.inr (Or.inr (Or.inr (Or.inr (Or.inr ⟨p, rest, rfl, Function.update_self _ _ _⟩))))
    · exact Or.inl (Function.update_of_ne hu _ _)
  | _ => exact Or.inl rfl

omit [DecidableEq W] [DecidableEq L] in
/-- Who is on a list after a step was there before, or has been put there. -/
theorem CpuEffect.loc_list {q : ListId n W} (h : e.loc d loc t = some (.list q)) :
    loc t = some (.list q) ∨ (∃ new, e = .put t q new ∨ e = .fork t q new) ∨ (e = .create t ∧ q = .born) := by
  rcases e.loc_cases d loc t with hs | ⟨_, _, _, hs⟩ | ⟨q', new, he, hs⟩ | ⟨_, hs⟩ | ⟨he, hs⟩ | ⟨_, _, _, hs⟩
  · exact Or.inl (hs ▸ h)
  · rw [hs] at h
    cases h
  · rw [hs] at h
    cases h
    exact Or.inr (Or.inl ⟨new, he⟩)
  · rw [hs] at h
    cases h
  · rw [hs] at h
    cases h
    exact Or.inr (Or.inr ⟨he, rfl⟩)
  · rw [hs] at h
    cases h

/-! ### A step keeps the invariant -/

omit [DecidableEq W] [DecidableEq L] [DecidableEq T] in
theorem CpuPc.hand_of_wakingHand (h : pc.wakingHand = some t) : pc.hand = some t := by
  cases pc <;> first | exact h | cases h

omit [DecidableEq W] [DecidableEq L] [DecidableEq T] in
theorem CpuPc.hand_of_forkHand (h : pc.forkHand = some t) : pc.hand = some t := by
  cases pc with
  | runnable _ k | ready _ _ k | enqueue _ _ k => cases k <;> first | exact h | cases h
  | _ => cases h

theorem after_pc_self : (s.after d e pc').pc d = pc' := Function.update_self _ _ _

theorem after_pc_of_ne {c : Fin n} (hc : c ≠ d) : (s.after d e pc').pc c = s.pc c := Function.update_of_ne hc _ _

theorem after_cur_of_ne {c : Fin n} (hc : c ≠ d) : (s.after d e pc').cur c = s.cur c := by
  cases e <;> first | rfl | exact Function.update_of_ne hc _ _

/-- Who has been forked after a step. -/
theorem after_forked (hforked : (s.after d e pc').forked t = true) :
    (s.forked t = true ∧ ∀ p rest, e ≠ .destroy t p rest) ∨ ∃ q new, e = .fork t q new := by
  cases e with
  | fork u q new =>
    by_cases hu : t = u
    · exact Or.inr ⟨q, new, by rw [hu]⟩
    · refine Or.inl ⟨(Function.update_of_ne hu _ _).symm.trans hforked, fun p rest he => ?_⟩
      cases he
  | destroy u p rest =>
    by_cases hu : t = u
    · subst hu
      simp [Machine.after] at hforked
    · refine Or.inl ⟨(Function.update_of_ne hu _ _).symm.trans hforked, fun p rest he => ?_⟩
      cases he
      exact hu rfl
  | _ =>
    refine Or.inl ⟨hforked, fun p rest he => ?_⟩
    cases he

omit [DecidableEq W] [DecidableEq L] [DecidableEq T] in
/-- Where the thread that is made runnable for `thread_fork` comes from. -/
theorem CpuStep.forkHand (h : CpuStep lk s d pc e pc') (hpc' : pc'.forkHand = some t) :
    (pc.forkHand = some t ∧ ∀ q new, e ≠ .fork t q new) ∨ ∃ rest, e = .take t .born rest := by
  cases h with
  | fork _ _ => cases hpc'; exact Or.inr ⟨_, rfl⟩
  | @makeRunnable target k => cases k <;> cases hpc'; exact Or.inl ⟨rfl, fun _ _ he => by cases he⟩
  | @setReady target c k => cases k <;> cases hpc'; exact Or.inl ⟨rfl, fun _ _ he => by cases he⟩
  | @release c k => cases k <;> cases hpc'
  | _ => cases hpc'

section Step

variable (h : Fits s loc) (hl : Located s loc) (hlocks : Locks lk s) (hst : CpuStep lk s d (s.pc d) e pc')

include h

omit [DecidableEq W] [DecidableEq L] [DecidableEq T] in
/-- No two processors have the same current thread. -/
theorem Fits.cur_inj {c c' : Fin n} (heq : s.cur c = s.cur c') : c = c' := by
  rw [← h.cur c, heq, h.cur c']

include hl

omit [DecidableEq W] [DecidableEq L] [DecidableEq T] in
/-- Where the current thread has been put when its `t_state` is written. -/
theorem Fits.placed {st : ThreadState} (hpc : s.pc d = .setState st) :
    (st = .ready ∧ loc (s.cur d) = some (.list (.runqueue d))) ∨
    (st = .zombie ∧ loc (s.cur d) = some (.list (.zombies d))) ∨
    (st = .sleep ∧ ((∃ w, loc (s.cur d) = some (.list (.wchan w))) ∨ (∃ c, loc (s.cur d) = some (.list (.wakeList c))) ∨
      ∃ c, loc (s.cur d) = some (.hand c) ∧ (s.pc c).wakingHand = some (s.cur d))) := by
  have hk := h.knows d
  rw [hpc] at hk
  cases st with
  | run => exact hk.elim
  | ready => exact Or.inl ⟨rfl, hk⟩
  | zombie => exact Or.inr (Or.inl ⟨rfl, hk⟩)
  | sleep =>
    refine Or.inr (Or.inr ⟨rfl, hk.imp_right (Or.imp_right ?_)⟩)
    rintro ⟨c, hc⟩
    exact ⟨c, (hl.at_iff (.hand c) _).mp (CpuPc.hand_of_wakingHand hc), hc⟩

include hlocks hst

/-- A thread on a list: only the processor that just put it there may still
write its `t_state`. -/
theorem Fits.on_list {q : ListId n W} (hloc : loc t = some (.list q)) :
    (s.after d e pc').tCpu t = s.tCpu t ∧ ((s.after d e pc').tState t = s.tState t ∨ (t = s.cur d ∧
      (((s.after d e pc').tState t = .ready ∧ q = .runqueue d) ∨ ((s.after d e pc').tState t = .zombie ∧ q = .zombies d) ∨
        ((s.after d e pc').tState t = .sleep ∧ ((∃ w, q = .wchan w) ∨ ∃ c, q = .wakeList c))))) := by
  rcases hl.untouched hlocks hst t with ⟨hstate, hcpu⟩ | hn | hn | hn | ⟨rfl, st, hpc, rfl, -⟩
  · exact ⟨hcpu, Or.inl hstate⟩
  · simp [hloc] at hn
  · simp [hloc] at hn
  · simp [hloc] at hn
  · have hstate : (s.after d (.state (s.cur d) st) pc').tState (s.cur d) = st := Function.update_self _ _ _
    refine ⟨rfl, Or.inr ⟨rfl, ?_⟩⟩
    rw [hstate]
    simpa [hloc] using h.placed hl hpc

/-- A thread that a processor has locked. -/
theorem Fits.in_hand {u : Fin n} (hu : u ≠ d) (hhand : (s.pc u).hand = some t) (hwaking : (s.pc u).wakingHand = none) :
    (s.after d e pc').tState t = s.tState t ∧ (s.after d e pc').tCpu t = s.tCpu t := by
  have hloc : loc t = some (.hand u) := (hl.at_iff (.hand u) t).mp hhand
  rcases hl.untouched hlocks hst t with hsame | hn | hn | hn | ⟨rfl, st, hpc, -, -⟩
  · exact hsame
  · simp [hloc] at hn
  · simp [hloc, hu] at hn
  · simp [hloc] at hn
  · -- a falling thread is not locked by its waker
    have hplaced := h.placed hl hpc
    simp [hloc, hwaking] at hplaced

/-- Run queues and victims. -/
theorem Fits.step_ready {c : Fin n} {q : ListId n W} (hq : q = .runqueue c ∨ q = .victims c)
    (hloc : e.loc d loc t = some (.list q)) :
    (s.after d e pc').tState t = .ready ∧ (s.after d e pc').tCpu t = c := by
  rcases CpuEffect.loc_list hloc with hold | ⟨new, rfl | rfl⟩ | ⟨-, rfl⟩
  · have hready : s.tState t = .ready ∧ s.tCpu t = c := by
      rcases hq with rfl | rfl
      · exact h.runqueue t c hold
      · exact h.victims t c hold
    obtain ⟨hcpu, hstate | ⟨rfl, ⟨hstate, -⟩ | ⟨-, rfl⟩ | ⟨-, ⟨w, rfl⟩ | ⟨u, rfl⟩⟩⟩⟩ := h.on_list hl hlocks hst hold
    · exact ⟨hstate.trans hready.1, hcpu.trans hready.2⟩
    · exact ⟨hstate, hcpu.trans hready.2⟩
    · simp at hq
    · simp at hq
    · simp at hq
  · have hk := hst.put_knows (h.knows d)
    rcases hq with rfl | rfl <;> exact hk
  · obtain ⟨⟨c', rfl, hk⟩, -⟩ := hst.fork_knows (h.knows d)
    rcases hq with hq | hq <;> cases hq
    exact hk
  · simp at hq

/-- Zombies. -/
theorem Fits.step_zombie {c : Fin n} (hloc : e.loc d loc t = some (.list (.zombies c))) :
    (s.after d e pc').tCpu t = c ∧ ((s.after d e pc').tState t = .zombie ∨
      ((s.after d e pc').cur c = t ∧ (s.after d e pc').pc c = .setState .zombie)) := by
  rcases CpuEffect.loc_list hloc with hold | ⟨new, rfl | rfl⟩ | ⟨-, hq⟩
  · obtain ⟨hc, hz⟩ := h.zombies t c hold
    obtain ⟨hcpu, hstate | ⟨rfl, ⟨-, hq⟩ | ⟨hstate, -⟩ | ⟨-, ⟨w, hq⟩ | ⟨u, hq⟩⟩⟩⟩ := h.on_list hl hlocks hst hold
    · refine ⟨hcpu.trans hc, ?_⟩
      rcases hz with hz | ⟨rfl, hpc⟩
      · exact Or.inl (hstate.trans hz)
      · by_cases hcd : c = d
        · subst hcd
          -- the line that writes `S_ZOMBIE`
          rw [hpc] at hst
          cases hst
          exact Or.inl (Function.update_self _ _ _)
        · exact Or.inr ⟨after_cur_of_ne hcd, (Function.update_of_ne hcd _ _).trans hpc⟩
    · cases hq
    · exact ⟨hcpu.trans hc, Or.inl hstate⟩
    · cases hq
    · cases hq
  · obtain ⟨rfl, rfl, rfl⟩ := hst.put_knows (h.knows d)
    exact ⟨h.cur c, Or.inr ⟨rfl, Function.update_self _ _ _⟩⟩
  · obtain ⟨⟨c', hq, -⟩, -⟩ := hst.fork_knows (h.knows d)
    cases hq
  · cases hq

/-- Wait channels. -/
theorem Fits.step_wchan {w : W} (hloc : e.loc d loc t = some (.list (.wchan w))) :
    (s.after d e pc').tState t = .sleep ∨
      ∃ c, (s.after d e pc').cur c = t ∧ ((s.after d e pc').pc c).falling = true := by
  rcases CpuEffect.loc_list hloc with hold | ⟨new, rfl | rfl⟩ | ⟨-, hq⟩
  · obtain ⟨-, hstate | ⟨rfl, ⟨-, hq⟩ | ⟨-, hq⟩ | ⟨hstate, -⟩⟩⟩ := h.on_list hl hlocks hst hold
    · rcases h.wchan t w hold with hsleep | ⟨c, rfl, hfall⟩
      · exact Or.inl (hstate.trans hsleep)
      · by_cases hcd : c = d
        · subst hcd
          generalize hpc : s.pc c = pc at hst hfall
          cases hst with
          | unlockWc => exact Or.inr ⟨c, rfl, by simp [Machine.after, CpuPc.falling]⟩
          | @setState st =>
            cases st with
            | sleep => exact Or.inl (Function.update_self _ _ _)
            | _ => cases hfall
          | _ => cases hfall
        · refine Or.inr ⟨c, after_cur_of_ne hcd, ?_⟩
          rw [after_pc_of_ne hcd]
          exact hfall
    · cases hq
    · cases hq
    · exact Or.inl hstate
  · obtain ⟨rfl, rfl⟩ := hst.put_knows (h.knows d)
    exact Or.inr ⟨d, rfl, by simp [Machine.after, CpuPc.falling]⟩
  · obtain ⟨⟨c', hq, -⟩, -⟩ := hst.fork_knows (h.knows d)
    cases hq
  · cases hq

/-- A processor that executes a thread. -/
theorem Fits.step_onCpu {c : Fin n} (hloc : e.loc d loc t = some (.cpu c))
    (hforked : (s.after d e pc').forked t = true) :
    (s.after d e pc').tState t = .run ∨ ((s.after d e pc').pc c).rising = true := by
  rcases e.loc_cases d loc t with hs | ⟨_, _, _, hs⟩ | ⟨_, _, _, hs⟩ | ⟨rfl, hs⟩ | ⟨_, hs⟩ | ⟨_, _, _, hs⟩ <;>
    rw [hs] at hloc
  · have hold : s.tState t = .run ∨ (s.pc c).rising = true := by
      refine h.onCpu t c hloc ?_
      rcases after_forked hforked with ⟨hforked, -⟩ | ⟨q, new, rfl⟩
      · exact hforked
      · simp [CpuEffect.loc, hloc] at hs
    have hcur : s.cur c = t := ((hl.at_iff (.cpu c) t).mpr hloc).2
    by_cases hwrites : ∃ st, e = .state t st
    · obtain ⟨st, rfl⟩ := hwrites
      rcases hst.state_effect with ⟨rfl, hpc, -⟩ | ⟨rfl, ⟨-, -, rfl⟩ | ⟨-, rfl, -⟩⟩ | ⟨c', k, hpc, -, -⟩
      · have hplaced := h.placed hl hpc
        simp [hloc] at hplaced
      · rw [h.cur_inj hcur]
        exact Or.inr (by simp [Machine.after, CpuPc.rising])
      · exact Or.inl (Function.update_self _ _ _)
      · have hhand : loc t = some (.hand d) := (hl.at_iff (.hand d) t).mp (by rw [Machine.At, hpc]; rfl)
        simp [hloc] at hhand
    · rcases hl.untouched hlocks hst t with ⟨hstate, -⟩ | hn | hn | ⟨-, hn⟩ | ⟨-, st, -, hn, -⟩
      · rw [hstate]
        refine hold.imp_right fun hrise => ?_
        by_cases hcd : c = d
        · subst hcd
          rcases hst.rising_effect hrise with rfl | ⟨q, new, rfl⟩
          · exact absurd ⟨.run, by rw [hcur]⟩ hwrites
          · simp [CpuEffect.loc, hcur, hloc] at hs
        · rw [after_pc_of_ne hcd]
          exact hrise
      · simp [hloc] at hn
      · simp [hloc] at hn
      · exact absurd hn hwrites
      · exact absurd ⟨st, hn⟩ hwrites
  · cases hloc
  · cases hloc
  · cases hloc
    obtain ⟨-, rfl⟩ := hst.current_effect
    exact Or.inr (by simp [Machine.after, CpuPc.rising])
  · cases hloc
  · cases hloc

omit [DecidableEq W] [DecidableEq L] [DecidableEq T] hl hlocks in
/-- A thread that has been moved to another processor's run queue is the
current thread of no processor. -/
theorem Fits.cpu_effect_ne {c : Fin n} (he : e = .cpu t c) (u : Fin n) : t ≠ s.cur u := by
  subst he
  obtain ⟨toSend, share, hpc, -, hne⟩ := hst.cpu_effect
  have hk := h.knows d
  rw [hpc] at hk
  rintro rfl
  have hu : u = d := (h.cur u).symm.trans hk.2
  exact hne (by rw [hu])

/-- Current threads belong to their processors. -/
theorem Fits.step_cur (c : Fin n) : (s.after d e pc').tCpu ((s.after d e pc').cur c) = c := by
  cases e with
  | cpu t u =>
    have hne : s.cur c ≠ t := fun heq => h.cpu_effect_ne hst rfl c heq.symm
    exact (Function.update_of_ne hne _ _).trans (h.cur c)
  | current t =>
    by_cases hcd : c = d
    · subst hcd
      have hk := h.knows c
      rw [(hst.current_effect).1] at hk
      rw [show (s.after c (.current t) pc').cur c = t from Function.update_self _ _ _]
      exact hk.2
    · rw [show (s.after d (.current t) pc').cur c = s.cur c from Function.update_of_ne hcd _ _]
      exact h.cur c
  | create t =>
    have hne : s.cur c ≠ t := by
      rintro rfl
      have halive := (hl.alive _).mpr (h.known c).1
      rw [(hst.moves (hlocks.idle d)).1] at halive
      cases halive
    exact (Function.update_of_ne hne _ _).trans (h.cur c)
  | _ => exact h.cur c

omit [DecidableEq L] [DecidableEq T] in
/-- **No current thread is destroyed.** -/
theorem Fits.destroy_ne {p : ListId n W} {rest : List T} (he : e = .destroy t p rest) (c : Fin n) : t ≠ s.cur c := by
  subst he
  have hperm := (hst.moves (hlocks.idle d)).1
  have hloc : loc t = some (.list p) := (hl.list_take hperm).1
  rintro rfl
  rcases hst.destroy_knows with ⟨rfl, hpc⟩ | rfl
  · have hc : c = d := (h.cur c).symm.trans (h.zombies _ _ hloc).1
    subst hc
    rw [hl.cur hlocks (by rw [hpc]; rfl) (by rw [hpc]; rfl)] at hloc
    cases hloc
  · exact (h.known c).2 hloc

/-- Current threads exist. -/
theorem Fits.step_known (c : Fin n) : e.loc d loc ((s.after d e pc').cur c) ≠ none ∧
    e.loc d loc ((s.after d e pc').cur c) ≠ some (.list .born) := by
  have hcur : (s.after d e pc').cur c = s.cur c ∨ e = .current ((s.after d e pc').cur c) := by
    cases e with
    | current t =>
      by_cases hcd : c = d
      · subst hcd
        exact Or.inr (by simp [Machine.after])
      · exact Or.inl (Function.update_of_ne hcd _ _)
    | _ => exact Or.inl rfl
  rcases hcur with hcur | hcur
  · rw [hcur]
    rcases e.loc_cases d loc (s.cur c) with hs | ⟨_, _, _, hs⟩ | ⟨q, new, he, hs⟩ | ⟨_, hs⟩ | ⟨rfl, hs⟩ | ⟨_, _, he, hs⟩
    · rw [hs]
      exact h.known c
    · simp [hs]
    · refine ⟨by simp [hs], ?_⟩
      rw [hs]
      rintro heq
      cases heq
      rcases he with rfl | rfl
      · exact hst.put_knows (h.knows d)
      · obtain ⟨⟨c', hq, -⟩, -⟩ := hst.fork_knows (h.knows d)
        cases hq
    · simp [hs]
    · have halive := (hl.alive _).mpr (h.known c).1
      rw [(hst.moves (hlocks.idle d)).1] at halive
      cases halive
    · exact absurd rfl (h.destroy_ne hl hlocks hst he c)
  · generalize (s.after d e pc').cur c = t at hcur
    subst hcur
    simp [CpuEffect.loc]

/-- Forked threads exist. -/
theorem Fits.step_forked (hforked : (s.after d e pc').forked t = true) :
    e.loc d loc t ≠ none ∧ e.loc d loc t ≠ some (.list .born) := by
  rcases after_forked hforked with ⟨hold, hdestroy⟩ | ⟨q, new, rfl⟩
  · rcases e.loc_cases d loc t with hs | ⟨_, _, _, hs⟩ | ⟨q, new, he, hs⟩ | ⟨_, hs⟩ | ⟨rfl, -⟩ | ⟨p, rest, he, -⟩
    · rw [hs]
      exact h.forked t hold
    · simp [hs]
    · rw [hs]
      refine ⟨by simp, fun heq => ?_⟩
      cases heq
      rcases he with rfl | rfl
      · exact hst.put_knows (h.knows d)
      · obtain ⟨⟨c', hq, -⟩, -⟩ := hst.fork_knows (h.knows d)
        cases hq
    · simp [hs]
    · have halive := (hl.alive _).mpr (h.forked t hold).1
      rw [(hst.moves (hlocks.idle d)).1] at halive
      cases halive
    · exact absurd he (hdestroy p rest)
  · obtain ⟨⟨c', rfl, -⟩, -⟩ := hst.fork_knows (h.knows d)
    simp [CpuEffect.loc]

/-- The thread that `thread_fork` makes runnable. -/
theorem Fits.step_newHand (c : Fin n) (hhand : ((s.after d e pc').pc c).forkHand = some t) :
    (s.after d e pc').forked t = false := by
  refine Bool.eq_false_of_not_eq_true fun hforked => ?_
  by_cases hcd : c = d
  · subst hcd
    rw [after_pc_self] at hhand
    rcases hst.forkHand hhand with ⟨hold, hne⟩ | ⟨rest, rfl⟩
    · rcases after_forked hforked with ⟨hold', -⟩ | ⟨q, new, he⟩
      · rw [h.newHand c t hold] at hold'
        cases hold'
      · exact hne q new he
    · exact (h.forked t hforked).2 (hl.list_take (hst.moves (hlocks.idle c)).1).1
  · rw [after_pc_of_ne hcd] at hhand
    rcases after_forked hforked with ⟨hold', -⟩ | ⟨q, new, rfl⟩
    · rw [h.newHand c t hhand] at hold'
      cases hold'
    · have hloc : loc t = some (.hand d) := (hl.at_iff (.hand d) t).mp (hst.fork_knows (h.knows d)).2
      rw [(hl.at_iff (.hand c) t).mp (CpuPc.hand_of_forkHand hhand)] at hloc
      cases hloc
      exact hcd rfl

/-- What the processor that makes the step knows after it. -/
theorem Fits.knows_self : pc'.Knows (s.after d e pc') (e.loc d loc) d := by
  have hk := h.knows d
  have hmoves := hst.moves (hlocks.idle d)
  generalize hpc : s.pc d = pc at hst hk hmoves
  cases hst with
  | placeReady _ _ => exact Function.update_self _ _ _
  | enqueueCur =>
    refine (Function.update_self _ _ _).trans ?_
    rw [h.cur d]
  | placeSleep => exact Or.inl ⟨_, Function.update_self _ _ _⟩
  | placeZombie => exact Function.update_self _ _ _
  | unlockWc =>
    refine Or.imp_right (Or.imp_right ?_) hk
    rintro ⟨c, hc⟩
    have hcd : c ≠ d := by
      rintro rfl
      rw [hpc] at hc
      cases hc
    refine ⟨c, ?_⟩
    rw [after_pc_of_ne hcd]
    exact hc
  | pick _ | takeVictim _ _ => exact h.runqueue _ _ (hl.list_take hmoves.1).1
  | sendNext _ _ _ | putBack _ => exact h.victims _ _ (hl.list_take hmoves.1).1
  | picked => exact hk
  | makeRunnable => rfl
  | setReady => exact ⟨Function.update_self _ _ _, hk⟩
  | moveCpu _ => exact ⟨hk.1, Function.update_self _ _ _⟩
  | @release c k => cases k <;> trivial
  | _ => trivial

omit [DecidableEq L] h in
/-- How a thread leaves a list. -/
theorem Located.leaves_list {q : ListId n W} (hloc : loc t = some (.list q)) :
    e.loc d loc t = some (.list q) ∨ (∃ rest, e = .take t q rest) ∨ ∃ rest, e = .destroy t q rest := by
  have hmoves := hst.moves (hlocks.idle d)
  have hhand : (s.pc d).hand ≠ some t := fun hh => by
    have hloc' := (hl.at_iff (.hand d) t).mp hh
    rw [hloc] at hloc'
    cases hloc'
  have hput : ∀ q new, e = .put t q new ∨ e = .fork t q new → False := by
    rintro q new (rfl | rfl)
    all_goals
      rcases hmoves.2.2 with ⟨hh, -⟩ | ⟨-, rfl, haway, hidle, -⟩
      · exact hhand hh
      · have hcpu := (hl.at_iff (.cpu d) _).mp (at_cpu_iff.mpr ⟨⟨haway, hidle⟩, rfl⟩)
        rw [hloc] at hcpu
        cases hcpu
  rcases e.loc_cases d loc t with hs | ⟨p, rest, rfl, -⟩ | ⟨q, new, he, -⟩ | ⟨rfl, -⟩ | ⟨rfl, -⟩ | ⟨p, rest, rfl, -⟩
  · exact Or.inl (hs.trans hloc)
  · have hp := (hl.list_take hmoves.1).1
    rw [hloc] at hp
    cases hp
    exact Or.inr (Or.inl ⟨rest, rfl⟩)
  · exact (hput q new he).elim
  · exact absurd hmoves.1 hhand
  · have halive := (hl.alive t).mpr (by simp [hloc])
    rw [hmoves.1] at halive
    cases halive
  · have hp := (hl.list_take hmoves.1).1
    rw [hloc] at hp
    cases hp
    exact Or.inr (Or.inr ⟨rest, rfl⟩)

/-- A falling thread that another processor wakes is not locked by it. -/
theorem Fits.step_waking (hfree : s.Free e) {u : Fin n} (hu : u ≠ d) (hheld : (s.pc u).heldRq u = some u)
    (hk : s.Waking loc (s.cur u)) : (s.after d e pc').Waking (e.loc d loc) (s.cur u) := by
  rcases hk with ⟨w, hk⟩ | ⟨c, hk⟩ | ⟨c, hk⟩
  · rcases hl.leaves_list hlocks hst hk with hs | ⟨rest, rfl⟩ | ⟨rest, rfl⟩
    · exact Or.inl ⟨w, hs⟩
    · exact Or.inr (Or.inr ⟨d, by rw [after_pc_self]; exact hst.take_knows⟩)
    · rcases hst.destroy_knows with ⟨hp, -⟩ | hp <;> cases hp
  · rcases hl.leaves_list hlocks hst hk with hs | ⟨rest, rfl⟩ | ⟨rest, rfl⟩
    · exact Or.inr (Or.inl ⟨c, hs⟩)
    · exact Or.inr (Or.inr ⟨d, by rw [after_pc_self]; exact hst.take_knows.2⟩)
    · rcases hst.destroy_knows with ⟨hp, -⟩ | hp <;> cases hp
  · by_cases hcd : c = d
    · subst hcd
      generalize s.pc c = pc at hst hk
      cases hst with
      | gathered =>
        cases hk
        exact Or.inr (Or.inl ⟨c, Function.update_self _ _ _⟩)
      | makeRunnable =>
        -- the run queue lock of the falling thread's processor is held
        cases hk
        have hlock : s.rqLock (s.tCpu (s.cur u)) = none := hfree
        rw [h.cur u, (hlocks.rq u u).mpr hheld] at hlock
        cases hlock
      | _ => cases hk
    · refine Or.inr (Or.inr ⟨c, ?_⟩)
      rw [after_pc_of_ne hcd]
      exact hk

/-- What the other processors know. -/
theorem Fits.knows_other (hfree : s.Free e) {u : Fin n} (hu : u ≠ d) :
    (s.pc u).Knows (s.after d e pc') (e.loc d loc) u := by
  have hk := h.knows u
  have hcur : (s.after d e pc').cur u = s.cur u := after_cur_of_ne hu
  have hhand := fun t => h.in_hand hl hlocks hst (t := t) hu
  have hwaking := h.step_waking hl hlocks hst hfree hu
  cases hpc : s.pc u with
  | enqueueCur =>
    rw [hpc] at hk
    have hloc : loc (s.cur u) = some (.cpu u) := hl.cur hlocks (by rw [hpc]; rfl) (by rw [hpc]; rfl)
    rw [CpuPc.Knows, hcur]
    rcases hl.untouched hlocks hst (s.cur u) with ⟨hstate, -⟩ | hn | hn | ⟨hn, -⟩ | ⟨hn, -⟩
    · exact hstate.trans hk
    · simp [hloc] at hn
    · simp [hloc] at hn
    · simp [hloc, hu] at hn
    · exact absurd (h.cur_inj hn) hu
  | unlockWc w =>
    rw [hpc] at hk
    rw [CpuPc.Knows, hcur]
    exact hwaking (by rw [hpc]; rfl) hk
  | setState st =>
    rw [hpc] at hk
    cases st with
    | run => exact hk.elim
    | sleep =>
      rw [CpuPc.Knows, hcur]
      exact hwaking (by rw [hpc]; rfl) hk
    | ready =>
      rw [CpuPc.Knows, hcur]
      rcases hl.leaves_list hlocks hst hk with hs | ⟨rest, rfl⟩ | ⟨rest, rfl⟩
      · exact hs
      · exact absurd hst.take_knows hu
      · rcases hst.destroy_knows with ⟨hp, -⟩ | hp <;> cases hp
    | zombie =>
      rw [CpuPc.Knows, hcur]
      rcases hl.leaves_list hlocks hst hk with hs | ⟨rest, rfl⟩ | ⟨rest, rfl⟩
      · exact hs
      · exact hst.take_knows.elim
      · rcases hst.destroy_knows with ⟨hp, -⟩ | hp <;> cases hp
        exact absurd rfl hu
  | ready t c k =>
    rw [hpc] at hk
    exact (hhand t (by rw [hpc]; rfl) (by rw [hpc]; rfl)).2.trans hk
  | picked t | switchTo t | taking t _ _ _ | sendHand t _ _ _ | putting t | sent t _ _ _ | enqueue t _ _ =>
    rw [hpc] at hk
    obtain ⟨hstate, hcpu⟩ := hhand t (by rw [hpc]; rfl) (by rw [hpc]; rfl)
    exact ⟨hstate.trans hk.1, hcpu.trans hk.2⟩
  | _ => trivial

theorem Fits.step_knows (hfree : s.Free e) (c : Fin n) :
    ((s.after d e pc').pc c).Knows (s.after d e pc') (e.loc d loc) c := by
  by_cases hc : c = d
  · subst hc
    rw [after_pc_self]
    exact h.knows_self hl hlocks hst
  · rw [after_pc_of_ne hc]
    exact h.knows_other hl hlocks hst hfree hc

/-- **A step keeps the invariant.** -/
theorem Fits.step (hfree : s.Free e) : Fits (s.after d e pc') (e.loc d loc) where
  knows := h.step_knows hl hlocks hst hfree
  cur := h.step_cur hl hlocks hst
  known := h.step_known hl hlocks hst
  runqueue _ _ hloc := h.step_ready hl hlocks hst (Or.inl rfl) hloc
  victims _ _ hloc := h.step_ready hl hlocks hst (Or.inr rfl) hloc
  zombies _ _ hloc := h.step_zombie hl hlocks hst hloc
  wchan _ _ hloc := h.step_wchan hl hlocks hst hloc
  onCpu _ _ hloc hforked := h.step_onCpu hl hlocks hst hloc hforked
  forked _ hforked := h.step_forked hl hlocks hst hforked
  newHand c _ hhand := h.step_newHand hl hlocks hst c hhand

end Step

/-! ### Runs -/

section Init

variable {boot : Fin n → T} {cpuOf : T → Fin n}

omit [DecidableEq W] [DecidableEq L] in
/-- Nobody holds a lock at the start. -/
theorem locks_init : Locks lk (machineInit W L boot cpuOf) where
  rq _ _ := by simp [machineInit, CpuPc.heldRq]
  wc _ _ hw := by cases hw
  idle _ _ hb := by cases hb

/-- At the start the boot threads are on their processors. -/
def bootLoc (W : Type) (boot : Fin n → T) (cpuOf : T → Fin n) (t : T) : Option (Place n W) :=
  if ∃ c, boot c = t then some (.cpu (cpuOf t)) else none

omit [DecidableEq W] [DecidableEq L] in
theorem bootLoc_eq_cpu (hboot : ∀ c, cpuOf (boot c) = c) {c : Fin n} :
    bootLoc W boot cpuOf t = some (.cpu c) ↔ boot c = t := by
  unfold bootLoc
  by_cases ht : ∃ c, boot c = t
  · obtain ⟨c', rfl⟩ := ht
    rw [if_pos ⟨c', rfl⟩, hboot c']
    refine ⟨fun heq => ?_, fun heq => ?_⟩
    · cases heq
      rfl
    · rw [← hboot c', ← heq, hboot c]
  · rw [if_neg ht]
    exact iff_of_false (by simp) fun heq => ht ⟨c, heq⟩

omit [DecidableEq W] in
theorem bootLoc_ne {l : Place n W} (hl : ∀ c, l ≠ .cpu c) : bootLoc W boot cpuOf t ≠ some l := by
  unfold bootLoc
  split
  · intro heq
    injection heq with heq
    exact hl _ heq.symm
  · simp

omit [DecidableEq W] [DecidableEq L] in
theorem located_init (hboot : ∀ c, cpuOf (boot c) = c) :
    Located (machineInit W L boot cpuOf) (bootLoc W boot cpuOf) where
  at_iff l t := by
    cases l with
    | list p => exact iff_of_false List.not_mem_nil (bootLoc_ne (by simp))
    | hand c => exact iff_of_false (by simp [Machine.At, machineInit, CpuPc.hand]) (bootLoc_ne (by simp))
    | cpu c =>
      rw [bootLoc_eq_cpu hboot]
      simp [Machine.At, Machine.busy, machineInit, CpuPc.away]
  nodup _ := List.nodup_nil
  alive t := by simp [machineInit, bootLoc]

omit [DecidableEq W] [DecidableEq L] in
theorem fits_init (hboot : ∀ c, cpuOf (boot c) = c) :
    Fits (machineInit W L boot cpuOf) (bootLoc W boot cpuOf) where
  knows _ := trivial
  cur := hboot
  known c := by
    have hloc := (bootLoc_eq_cpu (W := W) hboot).mpr (rfl : boot c = boot c)
    simp [machineInit, hloc]
  runqueue _ _ hloc := absurd hloc (bootLoc_ne (by simp))
  victims _ _ hloc := absurd hloc (bootLoc_ne (by simp))
  zombies _ _ hloc := absurd hloc (bootLoc_ne (by simp))
  wchan _ _ hloc := absurd hloc (bootLoc_ne (by simp))
  onCpu _ _ _ hforked := by cases hforked
  forked _ hforked := by cases hforked
  newHand _ _ hhand := by cases hhand

/-- **Every run keeps the invariant.** -/
theorem machine_run (hboot : ∀ c, cpuOf (boot c) = c) {es : List (Fin n × CpuEffect n W L T)}
    (hrun : Run (MachineStep lk) (machineInit W L boot cpuOf) es s) :
    Locks lk s ∧ ∃ loc, Located s loc ∧ Fits s loc := by
  refine Run.invariant (I := fun s => Locks lk s ∧ ∃ loc, Located s loc ∧ Fits s loc)
    ⟨locks_init, _, located_init hboot, fits_init hboot⟩ (fun t a u => ?_) hrun
  rintro ⟨hlocks, loc, hl, hfits⟩ hst
  cases hst with
  | step hfree hst =>
    exact ⟨hlocks.step hfree hst, _, hl.step hlocks hst, hfits.step hl hlocks hst hfree⟩

end Init

section Quiet

variable (hlocks : Locks lk s) (hquiet : ∀ c, s.rqLock c = none)

include hlocks hquiet

omit [DecidableEq W] [DecidableEq L] [DecidableEq T] in
/-- Between critical sections no processor is in one. -/
theorem Locks.heldRq_eq_none (c : Fin n) : (s.pc c).heldRq c = none := by
  cases hheld : (s.pc c).heldRq c with
  | none => rfl
  | some c' =>
    have hlock := (hlocks.rq c' c).mpr hheld
    rw [hquiet c'] at hlock
    cases hlock

omit [DecidableEq W] [DecidableEq L] [DecidableEq T] in
theorem Locks.not_falling (c : Fin n) : (s.pc c).falling = false := by
  have hheld := hlocks.heldRq_eq_none hquiet c
  generalize s.pc c = pc at hheld
  cases pc <;> first | rfl | cases hheld

omit [DecidableEq W] [DecidableEq L] [DecidableEq T] in
theorem Locks.not_rising (c : Fin n) : (s.pc c).rising = false := by
  have hheld := hlocks.heldRq_eq_none hquiet c
  generalize s.pc c = pc at hheld
  cases pc <;> first | rfl | cases hheld

omit [DecidableEq W] [DecidableEq L] [DecidableEq T] in
/-- Between critical sections only new threads are in a processor's hands. -/
theorem Locks.forkHand_of_hand (hwc : ∀ l, s.wcLock l = none) {c : Fin n} (hhand : (s.pc c).hand = some t) :
    (s.pc c).forkHand = some t := by
  have hheld := hlocks.heldRq_eq_none hquiet c
  have hused : (s.pc c).usedWc = none := by
    cases hused : (s.pc c).usedWc with
    | none => rfl
    | some w =>
      have hlock := hlocks.wc c w hused
      rw [hwc] at hlock
      cases hlock
  generalize s.pc c = pc at hheld hused hhand
  cases pc with
  | runnable u k =>
    cases k with
    | fork => exact hhand
    | _ => cases hused
  | gathered => cases hused
  | _ => cases hhand <;> cases hheld

end Quiet

/-- **Every thread is in exactly one place.** On any number of processors, in
every run of the thread system, a thread is on at most one list and there
once. Whenever no run queue lock and no wait channel lock is held, a forked
thread that is on no list is the current thread of exactly one processor that
is not idle, with state `S_RUN`; on a run queue a thread is `S_READY` and the
queue is that of its `t_cpu`, on a wait channel it is `S_SLEEP`, as a zombie
`S_ZOMBIE`. No two processors have the same current thread, and no step
destroys a current thread. -/
theorem thread_places {boot : Fin n → T} {cpuOf : T → Fin n} (hboot : ∀ c, cpuOf (boot c) = c)
    {es : List (Fin n × CpuEffect n W L T)} (hrun : Run (MachineStep lk) (machineInit W L boot cpuOf) es s) :
    ((∀ t p q, t ∈ s.lists p → t ∈ s.lists q → p = q) ∧ ∀ p, (s.lists p).Nodup) ∧
    ((∀ c, s.rqLock c = none) → (∀ l, s.wcLock l = none) →
      (∀ t, s.forked t = true → (∀ p, t ∉ s.lists p) →
        (∃! c, s.isIdle c = false ∧ s.cur c = t) ∧ s.tState t = .run) ∧
      (∀ t c, t ∈ s.lists (.runqueue c) → s.tState t = .ready ∧ s.tCpu t = c) ∧
      (∀ t w, t ∈ s.lists (.wchan w) → s.tState t = .sleep) ∧
      ∀ t c, t ∈ s.lists (.zombies c) → s.tState t = .zombie) ∧
    (∀ c c', s.cur c = s.cur c' → c = c') ∧
    ∀ d t p rest s', MachineStep lk s (d, .destroy t p rest) s' → ∀ c, t ≠ s.cur c := by
  obtain ⟨hlocks, loc, hl, hfits⟩ := machine_run hboot hrun
  have hlist : ∀ {t p}, t ∈ s.lists p → loc t = some (.list p) := fun ht => (hl.at_iff (.list _) _).mp ht
  refine ⟨⟨fun t p q hp hq => ?_, hl.nodup⟩, fun hrq hwc => ⟨fun t hforked hno => ?_, fun t c ht => ?_,
    fun t w ht => ?_, fun t c ht => ?_⟩, fun c c' => hfits.cur_inj, fun d t p rest s' hst c => ?_⟩
  · have hloc := hlist hp
    rw [hlist hq] at hloc
    cases hloc
    rfl
  · cases hloc : loc t with
    | none => exact absurd hloc (hfits.forked t hforked).1
    | some l =>
      have hat := (hl.at_iff l t).mpr hloc
      cases l with
      | list p => exact absurd hat (hno p)
      | hand c =>
        have hnew := hfits.newHand c t (hlocks.forkHand_of_hand hrq hwc hat)
        rw [hforked] at hnew
        cases hnew
      | cpu c =>
        obtain ⟨⟨-, hidle⟩, hcur⟩ := at_cpu_iff.mp hat
        refine ⟨⟨c, ⟨hidle, hcur⟩, fun c' hc' => hfits.cur_inj (hc'.2.trans hcur.symm)⟩, ?_⟩
        refine (hfits.onCpu t c hloc hforked).resolve_right ?_
        simp [hlocks.not_rising hrq c]
  · exact hfits.runqueue t c (hlist ht)
  · refine (hfits.wchan t w (hlist ht)).resolve_right ?_
    rintro ⟨c, -, hfall⟩
    simp [hlocks.not_falling hrq c] at hfall
  · refine (hfits.zombies t c (hlist ht)).2.resolve_right ?_
    rintro ⟨-, hpc⟩
    have hheld := hlocks.heldRq_eq_none hrq c
    rw [hpc] at hheld
    cases hheld
  · cases hst with
    | step hfree hst => exact hfits.destroy_ne hl hlocks hst rfl c

/-- Two processors that run their boot threads. -/
def twoCpus : Machine 2 Unit Unit ℕ := machineInit Unit Unit Fin.val (Fin.ofNat 2)

/-- The first of them after `thread_fork`. -/
def twoCpusForked : Machine 2 Unit Unit ℕ :=
  let s1 := twoCpus.after 0 (.create 2) .base
  let s2 := s1.after 0 (.take 2 .born []) (.runnable 2 .fork)
  let s3 := s2.after 0 (.acquireRq 0) (.ready 2 0 .fork)
  let s4 := s3.after 0 (.state 2 .ready) (.enqueue 2 0 .fork)
  let s5 := s4.after 0 (.fork 2 (.runqueue 0) [2]) (.release 0 .fork)
  s5.after 0 (.releaseRq 0) .base

theorem twoCpusForked_run : ∃ es, Run (MachineStep id) twoCpus es twoCpusForked := by
  refine ⟨[(0, .create 2), (0, .take 2 .born []), (0, .acquireRq 0), (0, .state 2 .ready),
    (0, .fork 2 (.runqueue 0) [2]), (0, .releaseRq 0)], ?_⟩
  refine Run.cons (.step trivial (.create rfl rfl)) ?_
  refine Run.cons (.step trivial (.fork rfl (List.Perm.refl [2]))) ?_
  refine Run.cons (.step rfl .makeRunnable) ?_
  refine Run.cons (.step trivial .setReady) ?_
  refine Run.cons (.step trivial .enqueueNew) ?_
  exact Run.single (.step trivial .release)

/-- Its new thread waits on its run queue. -/
theorem thread_places_forked : twoCpusForked.forked 2 = true ∧ 2 ∈ twoCpusForked.lists (.runqueue 0) ∧
    twoCpusForked.tState 2 = .ready ∧ twoCpusForked.tCpu 2 = 0 := by
  obtain ⟨es, hrun⟩ := twoCpusForked_run
  obtain ⟨-, hquiet, -⟩ := thread_places (by decide) hrun
  obtain ⟨-, hready, -⟩ := hquiet (by decide) (fun _ => rfl)
  have hmem : 2 ∈ twoCpusForked.lists (.runqueue 0) := List.mem_cons_self
  exact ⟨rfl, hmem, hready 2 0 hmem⟩

end Os161
