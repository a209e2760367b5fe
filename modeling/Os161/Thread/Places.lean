/-
# Every thread is in one place

A thread that exists is on one list, in the hands of one processor between
two lists, or on the processor that executes it: `Located s loc` says that the
lists and the processors of `s` agree with the map `loc`. Each step of the
code moves at most one thread (`CpuEffect.loc`), and the run queue locks keep a
thread's processor from being disturbed while it switches.
-/
import Os161.Thread.Switch

namespace Os161

variable {n : ℕ} {W L T : Type}

namespace CpuPc

/-- The thread in the processor's hands: taken off a list and not yet on
another one, or chosen to run. -/
def hand : CpuPc n W T → Option T
  | .picked t | .switchTo t | .runnable t _ | .ready t _ _ | .enqueue t _ _ | .gathered t _ | .taking t _ _ _
  | .sendHand t _ _ _ | .sent t _ _ _ | .putting t => some t
  | _ => none

/-- In `thread_switch`, the current thread is already on a list. -/
def away : CpuPc n W T → Bool
  | .unlockWc _ | .setState _ | .setIdle | .switchTo _ => true
  | _ => false

/-- The run queue lock that the processor `d` holds. -/
def heldRq (d : Fin n) : CpuPc n W T → Option (Fin n)
  | .place _ | .enqueueCur | .unlockWc _ | .setState _ | .setIdle | .pick | .picked _ | .switchTo _ | .setRun
  | .unlockRq | .take _ _ _ | .taking _ _ _ _ | .putBack | .putting _ => some d
  | .ready _ c _ | .enqueue _ c _ | .release c _ | .counting c _ _ | .sending c _ _ | .sendHand _ c _ _
  | .sent _ c _ _ => some c
  | _ => none

/-- The wait channel that the processor is using, with its lock. -/
def usedWc : CpuPc n W T → Option W
  | .place (.sleep w) | .unlockWc w | .gather w | .gathered _ w | .wakeAll w => some w
  | .runnable _ k | .ready _ _ k | .enqueue _ _ k | .release _ k =>
    match k with
    | .fork => none
    | .wakeone w | .wakeall w => some w
  | _ => none

/-- What `c_isidle` is. -/
def idleFlag : CpuPc n W T → Option Bool
  | .place _ | .enqueueCur | .unlockWc _ | .setState _ | .setIdle | .switchTo _ | .setRun | .unlockRq
  | .exorcise => some false
  | .pick | .picked _ => some true
  | _ => none

end CpuPc

/-- The processor executes its current thread, which is on no list. -/
def Machine.busy (s : Machine n W L T) (c : Fin n) : Bool := !(s.pc c).away && !s.isIdle c

/-- A place for a thread. -/
inductive Place (n : ℕ) (W : Type)
  | list (p : ListId n W)
  | hand (c : Fin n)
  | cpu (c : Fin n)

variable [DecidableEq W] [DecidableEq L] [DecidableEq T] {lk : W → L} {s : Machine n W L T} {d : Fin n}
  {e : CpuEffect n W L T} {pc pc' : CpuPc n W T}

/-! ### Locks -/

omit [DecidableEq W] [DecidableEq L] [DecidableEq T] in
/-- A line of the code holds the run queue lock that it holds before it, or
takes one or gives it back. -/
theorem CpuStep.heldRq (h : CpuStep lk s d pc e pc') :
    match e with
    | .acquireRq c => pc.heldRq d = none ∧ pc'.heldRq d = some c
    | .releaseRq c => pc.heldRq d = some c ∧ pc'.heldRq d = none
    | _ => pc'.heldRq d = pc.heldRq d := by
  cases h with
  | @release c k => cases k <;> exact ⟨rfl, rfl⟩
  | _ => first | exact ⟨rfl, rfl⟩ | rfl

/-- It uses a wait channel only with the lock, and leaves such locks alone
while it does. -/
theorem CpuStep.usedWc (h : CpuStep lk s d pc e pc') {w : W} (hw : pc'.usedWc = some w) :
    (pc.usedWc = some w ∨ s.wcLock (lk w) = some d) ∧ (s.after d e pc').wcLock = s.wcLock := by
  cases h with
  | sleep _ hl _ => cases hw; exact ⟨Or.inr hl, rfl⟩
  | wakeone hl _ => cases hw; exact ⟨Or.inr hl, rfl⟩
  | wakeall hl => cases hw; exact ⟨Or.inr hl, rfl⟩
  | @release c k => cases k <;> first | exact ⟨Or.inl hw, rfl⟩ | cases hw
  | _ => first | exact ⟨Or.inl hw, rfl⟩ | cases hw

omit [DecidableEq W] [DecidableEq L] [DecidableEq T] in
/-- It gives back a lock that it holds. -/
theorem CpuStep.releaseWc {l : L} (h : CpuStep lk s d pc (.releaseWc l) pc') :
    s.wcLock l = some d ∨ ∃ w, pc.usedWc = some w ∧ l = lk w := by
  cases h with
  | freeWc h => exact Or.inl h
  | unlockWc => exact Or.inr ⟨_, rfl, rfl⟩

omit [DecidableEq W] [DecidableEq L] [DecidableEq T] in
/-- `c_isidle` is what the line of code expects. -/
theorem CpuStep.idleFlag (h : CpuStep lk s d pc e pc') {b : Bool} (hb : pc'.idleFlag = some b) :
    match e with
    | .idle b' => b' = b
    | _ => pc.idleFlag = some b ∨ s.isIdle d = b := by
  cases h with
  | @release c k => cases k <;> cases hb
  | yield hi | sleep hi _ _ | exit hi | unidle hi => cases hb; exact Or.inr hi
  | _ => first | exact Or.inl hb | cases hb <;> rfl

/-- The locks are held by the processors that need them. -/
structure Locks (lk : W → L) (s : Machine n W L T) : Prop where
  rq : ∀ c d, s.rqLock c = some d ↔ (s.pc d).heldRq d = some c
  wc : ∀ d w, (s.pc d).usedWc = some w → s.wcLock (lk w) = some d
  idle : ∀ d b, (s.pc d).idleFlag = some b → s.isIdle d = b

/-- A step keeps the locks. -/
theorem Locks.step (h : Locks lk s) (hfree : s.Free e) (hst : CpuStep lk s d (s.pc d) e pc') :
    Locks lk (s.after d e pc') := by
  refine ⟨fun c u => ?_, fun u w hw => ?_, fun u b hb => ?_⟩
  · have hrq := hst.heldRq
    have hold := h.rq c
    have hown := h.rq
    show (s.after d e pc').rqLock c = some u ↔ (Function.update s.pc d pc' u).heldRq u = some c
    by_cases hu : u = d
    · subst hu
      rw [Function.update_self]
      cases e with
      | acquireRq k =>
        obtain ⟨hnone, hsome⟩ := hrq
        have hfree' : s.rqLock k = none := hfree
        show Function.update s.rqLock k (some u) c = some u ↔ _
        by_cases hc : c = k
        · simp [hc, hsome]
        · rw [Function.update_of_ne hc, hsome, hold u, hnone]
          simp [Ne.symm hc]
      | releaseRq k =>
        obtain ⟨hsome, hnone⟩ := hrq
        show Function.update s.rqLock k none c = some u ↔ _
        by_cases hc : c = k
        · simp [hc, hnone]
        · rw [Function.update_of_ne hc, hnone, hold u, hsome]
          simp [Ne.symm hc]
      | _ =>
        rw [show pc'.heldRq u = (s.pc u).heldRq u from hrq]
        exact hold u
    · rw [Function.update_of_ne hu]
      cases e with
      | acquireRq k =>
        have hfree' : s.rqLock k = none := hfree
        show Function.update s.rqLock k (some d) c = some u ↔ _
        by_cases hc : c = k
        · rw [hc, Function.update_self, ← hown k u, hfree']
          simp [Ne.symm hu]
        · rw [Function.update_of_ne hc]
          exact hold u
      | releaseRq k =>
        have hk : s.rqLock k = some d := (hown k d).mpr hrq.1
        show Function.update s.rqLock k none c = some u ↔ _
        by_cases hc : c = k
        · rw [hc, Function.update_self, ← hown k u, hk]
          simp [Ne.symm hu]
        · rw [Function.update_of_ne hc]
          exact hold u
      | _ => exact hold u
  · change (Function.update s.pc d pc' u).usedWc = some w at hw
    by_cases hu : u = d
    · subst hu
      rw [Function.update_self] at hw
      obtain ⟨hor, hsame⟩ := hst.usedWc hw
      rw [hsame]
      exact hor.elim (h.wc u w) id
    · rw [Function.update_of_ne hu] at hw
      have hold := h.wc u w hw
      cases e with
      | acquireWc l =>
        have hne : lk w ≠ l := fun heq => by
          rw [heq, show s.wcLock l = none from hfree] at hold
          cases hold
        exact (Function.update_of_ne hne _ _).trans hold
      | releaseWc l =>
        have hl : s.wcLock l = some d := by
          rcases hst.releaseWc with hl | ⟨w', hw', rfl⟩
          · exact hl
          · exact h.wc d w' hw'
        have hne : lk w ≠ l := fun heq => by
          rw [heq, hl] at hold
          injection hold with hold
          exact hu hold.symm
        exact (Function.update_of_ne hne _ _).trans hold
      | _ => exact hold
  · change (Function.update s.pc d pc' u).idleFlag = some b at hb
    by_cases hu : u = d
    · subst hu
      rw [Function.update_self] at hb
      have hflag := hst.idleFlag hb
      cases e with
      | idle b' =>
        show Function.update s.isIdle u b' u = b
        rw [Function.update_self]
        exact hflag
      | _ => exact hflag.elim (h.idle u b) id
    · rw [Function.update_of_ne hu] at hb
      have hold := h.idle u b hb
      cases e with
      | idle b' => exact (Function.update_of_ne hu _ _).trans hold
      | _ => exact hold

/-! ### Places -/

/-- The thread is at the place. -/
def Machine.At (s : Machine n W L T) : Place n W → T → Prop
  | .list p, t => t ∈ s.lists p
  | .hand c, t => (s.pc c).hand = some t
  | .cpu c, t => s.busy c = true ∧ s.cur c = t

/-- The threads are where `loc` says, once. -/
structure Located (s : Machine n W L T) (loc : T → Option (Place n W)) : Prop where
  at_iff : ∀ l t, s.At l t ↔ loc t = some l
  nodup : ∀ p, (s.lists p).Nodup
  alive : ∀ t, s.alive t = true ↔ loc t ≠ none

/-- Where a step of the processor `d` moves a thread. -/
def CpuEffect.loc (d : Fin n) (loc : T → Option (Place n W)) : CpuEffect n W L T → T → Option (Place n W)
  | .take t _ _ => Function.update loc t (some (.hand d))
  | .put t q _ | .fork t q _ => Function.update loc t (some (.list q))
  | .current t => Function.update loc t (some (.cpu d))
  | .create t => Function.update loc t (some (.list .born))
  | .destroy t _ _ => Function.update loc t none
  | _ => loc

omit [DecidableEq W] [DecidableEq L] [DecidableEq T] in
/-- What the code does with the threads on the lists, in its hands and on its
processor. -/
theorem CpuStep.moves (h : CpuStep lk s d pc e pc') (hidle : ∀ b, pc.idleFlag = some b → s.isIdle d = b) :
    match e with
    | .take t p rest => (s.lists p).Perm (t :: rest) ∧ pc.hand = none ∧ pc'.hand = some t ∧ pc'.away = pc.away
    | .put t q new | .fork t q new => new.Perm (t :: s.lists q) ∧ pc'.hand = none ∧
        ((pc.hand = some t ∧ pc'.away = pc.away) ∨
          (pc.hand = none ∧ t = s.cur d ∧ pc.away = false ∧ s.isIdle d = false ∧ pc'.away = true))
    | .create t => s.alive t = false ∧ pc'.hand = pc.hand ∧ pc'.away = pc.away
    | .destroy t p rest => (s.lists p).Perm (t :: rest) ∧ pc'.hand = pc.hand ∧ pc'.away = pc.away
    | .current t => pc.hand = some t ∧ pc'.hand = none ∧ pc.away = true ∧ s.isIdle d = false ∧ pc'.away = false
    | .idle b => pc'.hand = pc.hand ∧ ((pc.away = true ∧ b = true) ∨ (s.isIdle d = true ∧ pc'.away = true))
    | _ => pc'.hand = pc.hand ∧ pc'.away = pc.away := by
  cases h with
  | @release c k => cases k <;> exact ⟨rfl, rfl⟩
  | enqueueCur => exact ⟨List.perm_append_singleton _ _, rfl, Or.inr ⟨rfl, rfl, rfl, hidle false rfl, rfl⟩⟩
  | placeSleep => exact ⟨List.perm_append_singleton _ _, rfl, Or.inr ⟨rfl, rfl, rfl, hidle false rfl, rfl⟩⟩
  | placeZombie => exact ⟨List.perm_append_singleton _ _, rfl, Or.inr ⟨rfl, rfl, rfl, hidle false rfl, rfl⟩⟩
  | setIdle => exact ⟨rfl, Or.inl ⟨rfl, rfl⟩⟩
  | picked => exact ⟨rfl, Or.inr ⟨hidle true rfl, rfl⟩⟩
  | switchTo => exact ⟨rfl, rfl, rfl, hidle false rfl, rfl⟩
  | pick hl | wakeone _ hl | gather hl | wakeNext hl | sendNext _ _ hl | putBack hl =>
    exact ⟨by rw [hl], rfl, rfl, rfl⟩
  | takeVictim _ hl => exact ⟨by rw [hl]; exact List.perm_append_singleton _ _, rfl, rfl, rfl⟩
  | fork _ hl => exact ⟨hl, rfl, rfl, rfl⟩
  | forkFails _ hl => exact ⟨hl, rfl, rfl⟩
  | exorcise hl => exact ⟨by rw [hl], rfl, rfl⟩
  | create _ ha => exact ⟨ha, rfl, rfl⟩
  | enqueueNew | enqueue _ | gathered | keepCur _ | sent | putting =>
    exact ⟨List.perm_append_singleton _ _, rfl, Or.inl ⟨rfl, rfl⟩⟩
  | victim => exact ⟨List.Perm.refl _, rfl, Or.inl ⟨rfl, rfl⟩⟩
  | _ => exact ⟨rfl, rfl⟩

section After

variable {c : Fin n} {u : T}

theorem at_hand_of_ne (hc : c ≠ d) : (s.after d e pc').At (.hand c) u ↔ s.At (.hand c) u := by
  show (Function.update s.pc d pc' c).hand = some u ↔ _
  rw [Function.update_of_ne hc]
  rfl

theorem at_hand_self : (s.after d e pc').At (.hand d) u ↔ pc'.hand = some u := by
  show (Function.update s.pc d pc' d).hand = some u ↔ _
  rw [Function.update_self]

theorem at_cpu_of_ne (hc : c ≠ d) : (s.after d e pc').At (.cpu c) u ↔ s.At (.cpu c) u := by
  have hpc : (s.after d e pc').pc c = s.pc c := Function.update_of_ne hc _ _
  have hidle : (s.after d e pc').isIdle c = s.isIdle c := by
    cases e <;> first | rfl | exact Function.update_of_ne hc _ _
  have hcur : (s.after d e pc').cur c = s.cur c := by
    cases e <;> first | rfl | exact Function.update_of_ne hc _ _
  simp only [Machine.At, Machine.busy, hpc, hidle, hcur]

theorem at_cpu_self : (s.after d e pc').At (.cpu d) u ↔
    (pc'.away = false ∧ (s.after d e pc').isIdle d = false) ∧ (s.after d e pc').cur d = u := by
  have hpc : (s.after d e pc').pc d = pc' := Function.update_self _ _ _
  simp [Machine.At, Machine.busy, hpc]

omit [DecidableEq W] [DecidableEq L] [DecidableEq T] in
theorem at_cpu_iff : s.At (.cpu c) u ↔ ((s.pc c).away = false ∧ s.isIdle c = false) ∧ s.cur c = u := by
  simp [Machine.At, Machine.busy]

omit [DecidableEq W] [DecidableEq L] in
/-- One thread goes to another place. -/
theorem Located.relocate {s' : Machine n W L T} {loc : T → Option (Place n W)} (h : Located s loc) {t : T}
    {l' : Option (Place n W)} (hother : ∀ l u, u ≠ t → (s'.At l u ↔ s.At l u)) (hself : ∀ l, s'.At l t ↔ l' = some l)
    (hnodup : ∀ p, (s'.lists p).Nodup) (halive : ∀ u, s'.alive u = if u = t then l'.isSome else s.alive u) :
    Located s' (Function.update loc t l') := by
  refine ⟨fun l u => ?_, hnodup, fun u => ?_⟩
  · by_cases hu : u = t
    · rw [hu, Function.update_self]
      exact hself l
    · rw [Function.update_of_ne hu, hother l u hu]
      exact h.at_iff l u
  · rw [halive u]
    by_cases hu : u = t
    · rw [if_pos hu, hu, Function.update_self, Option.isSome_iff_ne_none]
    · rw [if_neg hu, Function.update_of_ne hu]
      exact h.alive u

omit [DecidableEq W] [DecidableEq L] [DecidableEq T] in
/-- No thread goes to another place. -/
theorem Located.same {s' : Machine n W L T} {loc : T → Option (Place n W)} (h : Located s loc)
    (hat : ∀ l u, s'.At l u ↔ s.At l u) (hlists : s'.lists = s.lists) (halive : s'.alive = s.alive) :
    Located s' loc :=
  ⟨fun l u => (hat l u).trans (h.at_iff l u), fun p => hlists ▸ h.nodup p, fun t => halive ▸ h.alive t⟩

end After

section Step

variable {loc : T → Option (Place n W)}

/-- A step that moves no thread. -/
theorem Located.after_same (h : Located s loc) (hlists : (s.after d e pc').lists = s.lists)
    (halive : (s.after d e pc').alive = s.alive) (hhand : pc'.hand = (s.pc d).hand)
    (hcpu : ∀ u, (s.after d e pc').At (.cpu d) u ↔ s.At (.cpu d) u) : Located (s.after d e pc') loc := by
  refine h.same (fun l u => ?_) hlists halive
  cases l with
  | list p =>
    show u ∈ (s.after d e pc').lists p ↔ u ∈ s.lists p
    rw [hlists]
  | hand c =>
    by_cases hc : c = d
    · subst hc
      rw [at_hand_self, hhand]
      rfl
    · exact at_hand_of_ne hc
  | cpu c =>
    by_cases hc : c = d
    · subst hc
      exact hcpu u
    · exact at_cpu_of_ne hc

theorem at_cpu_same {u : T} (haway : pc'.away = (s.pc d).away) (hidle : (s.after d e pc').isIdle = s.isIdle)
    (hcur : (s.after d e pc').cur = s.cur) : (s.after d e pc').At (.cpu d) u ↔ s.At (.cpu d) u := by
  rw [at_cpu_self, at_cpu_iff, haway, hidle, hcur]

omit [DecidableEq T] in
/-- The other threads on a list from which `t` was taken. -/
theorem mem_update_take {lists : ListId n W → List T} {t u : T} {p r : ListId n W} {rest : List T}
    (hperm : (lists p).Perm (t :: rest)) (hu : u ≠ t) : u ∈ Function.update lists p rest r ↔ u ∈ lists r := by
  by_cases hr : r = p
  · rw [hr, Function.update_self, hperm.mem_iff, List.mem_cons]
    exact ⟨Or.inr, fun h => h.resolve_left hu⟩
  · rw [Function.update_of_ne hr]

omit [DecidableEq T] in
/-- The other threads on a list to which `t` was added. -/
theorem mem_update_put {lists : ListId n W → List T} {t u : T} {q r : ListId n W} {new : List T}
    (hperm : new.Perm (t :: lists q)) (hu : u ≠ t) : u ∈ Function.update lists q new r ↔ u ∈ lists r := by
  by_cases hr : r = q
  · rw [hr, Function.update_self, hperm.mem_iff, List.mem_cons]
    exact ⟨fun h => h.resolve_left hu, Or.inr⟩
  · rw [Function.update_of_ne hr]

omit [DecidableEq L] [DecidableEq T] in
/-- A thread leaves a list. -/
theorem Located.list_take (h : Located s loc) {t : T} {p : ListId n W} {rest : List T}
    (hperm : (s.lists p).Perm (t :: rest)) :
    loc t = some (.list p) ∧ (∀ r, t ∉ Function.update s.lists p rest r) ∧ ∀ r, (Function.update s.lists p rest r).Nodup := by
  have hloc : loc t = some (.list p) := (h.at_iff (.list p) t).mp (hperm.mem_iff.mpr List.mem_cons_self)
  have hnodup := List.nodup_cons.mp (hperm.nodup_iff.mp (h.nodup p))
  refine ⟨hloc, fun r hr => ?_, fun r => ?_⟩
  · by_cases hrp : r = p
    · rw [hrp, Function.update_self] at hr
      exact hnodup.1 hr
    · rw [Function.update_of_ne hrp] at hr
      rw [(h.at_iff (.list r) t).mp hr] at hloc
      injection hloc with hloc
      injection hloc with hloc
      exact hrp hloc
  · by_cases hrp : r = p
    · rw [hrp, Function.update_self]
      exact hnodup.2
    · rw [Function.update_of_ne hrp]
      exact h.nodup r

omit [DecidableEq L] [DecidableEq T] in
/-- A thread that was on no list joins one. -/
theorem Located.list_put (h : Located s loc) {t : T} {q : ListId n W} {new : List T}
    (hperm : new.Perm (t :: s.lists q)) (hloc : ∀ p, loc t ≠ some (.list p)) :
    (∀ r, t ∈ Function.update s.lists q new r ↔ r = q) ∧ ∀ r, (Function.update s.lists q new r).Nodup := by
  have hno : ∀ r, t ∉ s.lists r := fun r hr => hloc r ((h.at_iff (.list r) t).mp hr)
  refine ⟨fun r => ?_, fun r => ?_⟩
  · by_cases hrq : r = q
    · rw [hrq, Function.update_self]
      exact ⟨fun _ => rfl, fun _ => hperm.mem_iff.mpr List.mem_cons_self⟩
    · rw [Function.update_of_ne hrq]
      exact ⟨fun hr => absurd hr (hno r), fun hr => absurd hr hrq⟩
  · by_cases hrq : r = q
    · rw [hrq, Function.update_self]
      exact hperm.nodup_iff.mpr (List.nodup_cons.mpr ⟨hno q, h.nodup q⟩)
    · rw [Function.update_of_ne hrq]
      exact h.nodup r

/-- A step of the processor `d` that moves a thread between its own hands, its
own processor and the lists. -/
theorem Located.relocate_after (h : Located s loc) {t : T} {l' : Option (Place n W)}
    (hlist : ∀ r u, u ≠ t → (u ∈ (s.after d e pc').lists r ↔ u ∈ s.lists r))
    (hlist' : ∀ r, t ∈ (s.after d e pc').lists r ↔ l' = some (.list r))
    (hhand : ∀ u, u ≠ t → (pc'.hand = some u ↔ (s.pc d).hand = some u)) (hhand' : pc'.hand = some t ↔ l' = some (.hand d))
    (hcpu : ∀ u, u ≠ t → ((s.after d e pc').At (.cpu d) u ↔ s.At (.cpu d) u))
    (hcpu' : (s.after d e pc').At (.cpu d) t ↔ l' = some (.cpu d))
    (hsrc : ∀ c, c ≠ d → loc t ≠ some (.hand c) ∧ loc t ≠ some (.cpu c))
    (htgt : ∀ c, c ≠ d → l' ≠ some (.hand c) ∧ l' ≠ some (.cpu c)) (hnodup : ∀ r, ((s.after d e pc').lists r).Nodup)
    (halive : ∀ u, (s.after d e pc').alive u = if u = t then l'.isSome else s.alive u) :
    Located (s.after d e pc') (Function.update loc t l') := by
  refine h.relocate (fun l u hu => ?_) (fun l => ?_) hnodup halive
  · cases l with
    | list r => exact hlist r u hu
    | hand c =>
      by_cases hc : c = d
      · subst hc
        exact at_hand_self.trans (hhand u hu)
      · exact at_hand_of_ne hc
    | cpu c =>
      by_cases hc : c = d
      · subst hc
        exact hcpu u hu
      · exact at_cpu_of_ne hc
  · cases l with
    | list r => exact hlist' r
    | hand c =>
      by_cases hc : c = d
      · subst hc
        exact at_hand_self.trans hhand'
      · rw [at_hand_of_ne hc, h.at_iff]
        exact iff_of_false (hsrc c hc).1 (htgt c hc).1
    | cpu c =>
      by_cases hc : c = d
      · subst hc
        exact hcpu'
      · rw [at_cpu_of_ne hc, h.at_iff]
        exact iff_of_false (hsrc c hc).2 (htgt c hc).2

/-- A processor takes a thread off a list. -/
theorem Located.take (h : Located s loc) {t : T} {p : ListId n W} {rest : List T} (hperm : (s.lists p).Perm (t :: rest))
    (hnone : (s.pc d).hand = none) (hsome : pc'.hand = some t) (haway : pc'.away = (s.pc d).away) :
    Located (s.after d (.take t p rest) pc') (Function.update loc t (some (.hand d))) := by
  obtain ⟨hloc, hgone, hnodup⟩ := h.list_take hperm
  refine h.relocate_after (fun r u hu => mem_update_take hperm hu) (fun r => ?_) (fun u hu => ?_) ?_
    (fun u _ => at_cpu_same haway rfl rfl) ?_ (fun c _ => ?_) (fun c hc => ?_) hnodup fun u => ?_
  · exact iff_of_false (hgone r) (by simp)
  · simp [hsome, hnone, Ne.symm hu]
  · simp [hsome]
  · rw [at_cpu_same haway rfl rfl, h.at_iff, hloc]
    simp
  · simp [hloc]
  · simp [Ne.symm hc]
  · show s.alive u = _
    by_cases hu : u = t
    · rw [if_pos hu, hu]
      exact (h.alive t).mpr (by simp [hloc])
    · rw [if_neg hu]

/-- A processor puts the thread in its hands on a list. -/
theorem Located.put (h : Located s loc) {t : T} {q : ListId n W} {new : List T} {e : CpuEffect n W L T}
    (hlists : (s.after d e pc').lists = Function.update s.lists q new) (halive : (s.after d e pc').alive = s.alive)
    (hcpu : ∀ u, (s.after d e pc').At (.cpu d) u ↔ s.At (.cpu d) u) (hperm : new.Perm (t :: s.lists q))
    (hsome : (s.pc d).hand = some t) (hnone : pc'.hand = none) :
    Located (s.after d e pc') (Function.update loc t (some (.list q))) := by
  have hloc : loc t = some (.hand d) := (h.at_iff (.hand d) t).mp hsome
  obtain ⟨hin, hnodup⟩ := h.list_put hperm (by simp [hloc])
  refine h.relocate_after (fun r u hu => ?_) (fun r => ?_) (fun u hu => ?_) ?_ (fun u _ => hcpu u) ?_ (fun c hc => ?_)
    (fun c _ => ?_) (fun r => ?_) fun u => ?_
  · rw [hlists]
    exact mem_update_put hperm hu
  · rw [hlists, hin r]
    simp [eq_comm]
  · simp [hsome, hnone, Ne.symm hu]
  · simp [hnone]
  · rw [hcpu, h.at_iff, hloc]
    simp
  · simp [hloc, Ne.symm hc]
  · simp
  · rw [hlists]
    exact hnodup r
  · rw [halive]
    by_cases hu : u = t
    · rw [if_pos hu, hu]
      exact (h.alive t).mpr (by simp [hloc])
    · rw [if_neg hu]

/-- The current thread goes to a list. -/
theorem Located.putCur (h : Located s loc) {q : ListId n W} {new : List T} {e : CpuEffect n W L T}
    (hlists : (s.after d e pc').lists = Function.update s.lists q new) (halive : (s.after d e pc').alive = s.alive)
    (hperm : new.Perm (s.cur d :: s.lists q)) (hhand : (s.pc d).hand = none) (hnone : pc'.hand = none)
    (haway : (s.pc d).away = false) (hidle : s.isIdle d = false) (haway' : pc'.away = true) :
    Located (s.after d e pc') (Function.update loc (s.cur d) (some (.list q))) := by
  have hat : s.At (.cpu d) (s.cur d) := at_cpu_iff.mpr ⟨⟨haway, hidle⟩, rfl⟩
  have hloc : loc (s.cur d) = some (.cpu d) := (h.at_iff (.cpu d) _).mp hat
  obtain ⟨hin, hnodup⟩ := h.list_put hperm (by simp [hloc])
  refine h.relocate_after (fun r u hu => ?_) (fun r => ?_) (fun u _ => ?_) ?_ (fun u hu => ?_) ?_ (fun c hc => ?_)
    (fun c _ => ?_) (fun r => ?_) fun u => ?_
  · rw [hlists]
    exact mem_update_put hperm hu
  · rw [hlists, hin r]
    simp [eq_comm]
  · simp [hhand, hnone]
  · simp [hnone]
  · rw [at_cpu_self, at_cpu_iff, haway']
    simp [Ne.symm hu]
  · rw [at_cpu_self, haway']
    simp
  · simp [hloc, Ne.symm hc]
  · simp
  · rw [hlists]
    exact hnodup r
  · rw [halive]
    by_cases hu : u = s.cur d
    · rw [if_pos hu, hu]
      exact (h.alive _).mpr (by simp [hloc])
    · rw [if_neg hu]

/-- A new thread. -/
theorem Located.create (h : Located s loc) {t : T} (hfresh : s.alive t = false) (hhand : pc'.hand = (s.pc d).hand)
    (haway : pc'.away = (s.pc d).away) :
    Located (s.after d (.create t) pc') (Function.update loc t (some (.list .born))) := by
  have hloc : loc t = none := not_not.mp fun hne => by
    rw [(h.alive t).mpr hne] at hfresh
    cases hfresh
  have hperm : (t :: s.lists .born).Perm (t :: s.lists .born) := List.Perm.refl _
  obtain ⟨hin, hnodup⟩ := h.list_put hperm (by simp [hloc])
  refine h.relocate_after (fun r u hu => mem_update_put hperm hu) (fun r => ?_) (fun u _ => by rw [hhand]) ?_
    (fun u _ => at_cpu_same haway rfl rfl) ?_ (fun c _ => by simp [hloc]) (fun c _ => by simp) hnodup fun u => ?_
  · exact (hin r).trans (by simp [eq_comm])
  · rw [hhand, show ((s.pc d).hand = some t ↔ loc t = some (.hand d)) from h.at_iff (.hand d) t, hloc]
    simp
  · rw [at_cpu_same haway rfl rfl, h.at_iff, hloc]
    simp
  · by_cases hu : u = t
    · rw [if_pos hu, hu]
      exact Function.update_self _ _ _
    · rw [if_neg hu]
      exact Function.update_of_ne hu _ _

/-- A thread is destroyed. -/
theorem Located.destroy (h : Located s loc) {t : T} {p : ListId n W} {rest : List T}
    (hperm : (s.lists p).Perm (t :: rest)) (hhand : pc'.hand = (s.pc d).hand) (haway : pc'.away = (s.pc d).away) :
    Located (s.after d (.destroy t p rest) pc') (Function.update loc t none) := by
  obtain ⟨hloc, hgone, hnodup⟩ := h.list_take hperm
  refine h.relocate_after (fun r u hu => mem_update_take hperm hu) (fun r => ?_) (fun u _ => by rw [hhand]) ?_
    (fun u _ => at_cpu_same haway rfl rfl) ?_ (fun c _ => by simp [hloc]) (fun c _ => by simp) hnodup fun u => ?_
  · exact iff_of_false (hgone r) (by simp)
  · rw [hhand, show ((s.pc d).hand = some t ↔ loc t = some (.hand d)) from h.at_iff (.hand d) t, hloc]
    simp
  · rw [at_cpu_same haway rfl rfl, h.at_iff, hloc]
    simp
  · by_cases hu : u = t
    · rw [if_pos hu, hu]
      exact Function.update_self _ _ _
    · rw [if_neg hu]
      exact Function.update_of_ne hu _ _

/-- The processor switches to the thread in its hands. -/
theorem Located.current (h : Located s loc) {t : T} (hsome : (s.pc d).hand = some t) (hnone : pc'.hand = none)
    (haway : (s.pc d).away = true) (hidle : s.isIdle d = false) (haway' : pc'.away = false) :
    Located (s.after d (.current t) pc') (Function.update loc t (some (.cpu d))) := by
  have hloc : loc t = some (.hand d) := (h.at_iff (.hand d) t).mp hsome
  have hcur : (s.after d (.current t) pc').cur d = t := Function.update_self _ _ _
  refine h.relocate_after (fun r u _ => Iff.rfl) (fun r => ?_) (fun u hu => ?_) ?_ (fun u hu => ?_) ?_
    (fun c hc => by simp [hloc, Ne.symm hc]) (fun c hc => by simp [Ne.symm hc]) h.nodup fun u => ?_
  · exact (h.at_iff (.list r) t).trans (by simp [hloc])
  · simp [hsome, hnone, Ne.symm hu]
  · simp [hnone]
  · rw [at_cpu_self, at_cpu_iff, haway, hcur]
    simp [Ne.symm hu]
  · rw [at_cpu_self, haway', hcur]
    simpa [Machine.after] using hidle
  · show s.alive u = _
    by_cases hu : u = t
    · rw [if_pos hu, hu]
      exact (h.alive t).mpr (by simp [hloc])
    · rw [if_neg hu]

/-- **A step moves at most one thread**: where `CpuEffect.loc` says. -/
theorem Located.step (h : Located s loc) (hlocks : Locks lk s) (hst : CpuStep lk s d (s.pc d) e pc') :
    Located (s.after d e pc') (e.loc d loc) := by
  have hmoves := hst.moves (hlocks.idle d)
  cases e with
  | take t p rest =>
    obtain ⟨hperm, hnone, hsome, haway⟩ := hmoves
    exact h.take hperm hnone hsome haway
  | put t q new =>
    obtain ⟨hperm, hnone, ⟨hsome, haway⟩ | ⟨hhand, rfl, haway, hidle, haway'⟩⟩ := hmoves
    · exact h.put rfl rfl (fun u => at_cpu_same haway rfl rfl) hperm hsome hnone
    · exact h.putCur rfl rfl hperm hhand hnone haway hidle haway'
  | fork t q new =>
    obtain ⟨hperm, hnone, ⟨hsome, haway⟩ | ⟨hhand, rfl, haway, hidle, haway'⟩⟩ := hmoves
    · exact h.put rfl rfl (fun u => at_cpu_same haway rfl rfl) hperm hsome hnone
    · exact h.putCur rfl rfl hperm hhand hnone haway hidle haway'
  | create t =>
    obtain ⟨hfresh, hhand, haway⟩ := hmoves
    exact h.create hfresh hhand haway
  | destroy t p rest =>
    obtain ⟨hperm, hhand, haway⟩ := hmoves
    exact h.destroy hperm hhand haway
  | current t =>
    obtain ⟨hsome, hnone, haway, hidle, haway'⟩ := hmoves
    exact h.current hsome hnone haway hidle haway'
  | idle b =>
    obtain ⟨hhand, hor⟩ := hmoves
    refine h.after_same rfl rfl hhand fun u => ?_
    rw [at_cpu_self, at_cpu_iff]
    rcases hor with ⟨haway, rfl⟩ | ⟨hidle, haway'⟩
    · simp [haway, Machine.after]
    · simp [hidle, haway']
  | _ => exact h.after_same rfl rfl hmoves.1 fun u => at_cpu_same hmoves.2 rfl rfl

end Step

end Os161
