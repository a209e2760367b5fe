/-
# The system-wide limit on open files

`NUM_OPEN_FILES` goes up in `sys_open` and down in `close`, and `sys_open`
refuses at `MAX_SYSTEM_OPEN_FILES`. The console descriptors were never
counted, and neither is what `dup2` makes, but closing either takes one off.
So the counter drifts below the number of open descriptors, never above and
never back (`drift_step`): it is right exactly after runs that close no
console descriptor and duplicate nothing (`open_limit_iff`).
-/
import Os161.Syscall.Refcount

namespace Os161

variable {P : Type} [DecidableEq P]

/-- The state with the descriptors open through `sys_open` and `sys_dup2`. -/
structure Counting (P : Type) where
  sys : FileState P
  opened : Finset (P × ℕ)

/-- The open descriptors after a call with the effect. -/
def openedAfter (opened : Finset (P × ℕ)) : Effect P → Finset (P × ℕ)
  | .keep => opened
  | .install p fd => insert (p, fd) opened
  | .clear p fd => opened.erase (p, fd)
  | .dup p _ newfd => insert (p, newfd) opened

/-- A call, with the descriptors it opened or closed. -/
inductive CountingStep : Counting P → Call P × Except Errno ℤ → Counting P → Prop
  | mk {s s' : FileState P} {o : Finset (P × ℕ)} {ev : Call P × Except Errno ℤ} :
      SysStep s ev s' → CountingStep ⟨s, o⟩ ev ⟨s', openedAfter o (effectOf ev)⟩

/-- `fd` is an open descriptor of `p`. -/
def FileState.ValidFd (s : FileState P) (p : P) (fd : ℤ) : Prop :=
  0 ≤ fd ∧ fd < maxProcessOpenFiles ∧ s.fileTable p fd.toNat ≠ none

/-- The call closes no console descriptor and duplicates nothing. -/
def Quiet (t : Counting P) : Call P × Except Errno ℤ → Prop
  | (.close p fd, _) => t.sys.ValidFd p fd → (p, fd.toNat) ∈ t.opened
  | (.dup2 p oldfd newfd, _) =>
    t.sys.ValidFd p oldfd → 0 ≤ newfd → newfd < maxProcessOpenFiles → oldfd = newfd
  | _ => True

section Drift

variable {v w : View P} {o : Finset (P × ℕ)}

/-- The opened descriptors are open. -/
def OpenIn (o : Finset (P × ℕ)) (v : View P) : Prop :=
  ∀ x ∈ o, x.2 < maxProcessOpenFiles ∧ v.table x.1 x.2 ≠ none

/-- Setting slot `fd` and adding it to the opened ones keeps them open. -/
theorem OpenIn.set {p : P} {fd a : ℕ} (h : OpenIn o v) (hfd : fd < maxProcessOpenFiles)
    (ht : w.table = Function.update v.table p (Function.update (v.table p) fd (some a))) :
    OpenIn (insert (p, fd) o) w := by
  intro x hx
  rcases Finset.mem_insert.mp hx with rfl | hx
  · exact ⟨hfd, by simp [ht]⟩
  · obtain ⟨hlt, hne⟩ := h x hx
    refine ⟨hlt, ?_⟩
    rw [ht]
    by_cases hp : x.1 = p
    · by_cases hd : x.2 = fd
      · rw [hp, hd]
        simp
      · rw [hp, Function.update_self, Function.update_of_ne hd, ← hp]
        exact hne
    · rw [Function.update_of_ne hp]
      exact hne

/-- Clearing slot `fd` and taking it off the opened ones keeps them open. -/
theorem OpenIn.clear (p : P) (fd a : ℕ) (r : ℤ) (h : OpenIn o v) : OpenIn (o.erase (p, fd)) (v.clear p fd a r) := by
  intro x hx
  obtain ⟨hne, hx⟩ := Finset.mem_erase.mp hx
  obtain ⟨hlt, hopen⟩ := h x hx
  refine ⟨hlt, ?_⟩
  show Function.update v.table p (Function.update (v.table p) fd none) x.1 x.2 ≠ none
  by_cases hp : x.1 = p
  · have hd : x.2 ≠ fd := fun hd => hne (Prod.ext hp hd)
    rw [hp, Function.update_self, Function.update_of_ne hd, ← hp]
    exact hopen
  · rw [Function.update_of_ne hp]
    exact hopen

/-- The effect makes the counter wrong: a console descriptor is closed, or
something duplicated. -/
def Loud (o : Finset (P × ℕ)) : Effect P → Prop
  | .clear p fd => (p, fd) ∉ o
  | .dup _ _ _ => True
  | _ => False

/-- **The drift.** A loud effect leaves the counter further below the number
of opened descriptors, every other one leaves the difference as it is. -/
theorem drift_step {eff : Effect P} (ho : OpenIn o v) (hl : v.num ≤ maxSystemOpenFiles) (h : ViewStep v eff w) :
    OpenIn (openedAfter o eff) w ∧ w.num ≤ maxSystemOpenFiles ∧
      (Loud o eff → w.num - (openedAfter o eff).card < v.num - o.card) ∧
      (¬ Loud o eff → w.num - (openedAfter o eff).card = v.num - o.card) := by
  have hnotin : ∀ {p : P} {fd : ℕ}, v.table p fd = none → (p, fd) ∉ o := fun hnone hm => (ho _ hm).2 hnone
  cases h with
  | keep => exact ⟨ho, hl, fun h => h.elim, fun _ => rfl⟩
  | @install p fd a h3 hfd hnone ha hlim =>
    refine ⟨ho.set hfd rfl, ?_, fun h => h.elim, fun _ => ?_⟩
    · show v.num + 1 ≤ _
      omega
    · show v.num + 1 - ((insert (p, fd) o).card : ℤ) = _
      rw [Finset.card_insert_of_notMem (hnotin hnone)]
      push_cast
      omega
  | @clear p fd a r hfd ht hr =>
    refine ⟨ho.clear _ _ _ _, ?_, fun hloud => ?_, fun hquiet => ?_⟩
    · show v.num - 1 ≤ _
      omega
    · show v.num - 1 - ((o.erase (p, fd)).card : ℤ) < _
      rw [Finset.erase_eq_of_notMem hloud]
      omega
    · have hm : (p, fd) ∈ o := by
        by_contra hm
        exact hquiet hm
      have := Finset.card_erase_add_one hm
      show v.num - 1 - ((o.erase (p, fd)).card : ℤ) = _
      omega
  | @dupFree p oldfd newfd a r hne hold hnew ht hnone hr =>
    refine ⟨ho.set hnew rfl, hl, fun _ => ?_, fun h => absurd trivial h⟩
    show v.num - ((insert (p, newfd) o).card : ℤ) < _
    rw [Finset.card_insert_of_notMem (hnotin hnone)]
    push_cast
    omega
  | @dupBusy p oldfd newfd a b q r hne hold hnew ht hb hq hr =>
    refine ⟨?_, ?_, fun _ => ?_, fun h => absurd trivial h⟩
    · have h1 := (ho.clear p newfd b q).set (w := (v.clear p newfd b q).share p newfd a r)
        hnew rfl
      have hset : insert (p, newfd) (o.erase (p, newfd)) = insert (p, newfd) o := by
        ext x
        by_cases hx : x = (p, newfd) <;> simp [hx]
      rwa [hset] at h1
    · show v.num - 1 ≤ _
      omega
    · have := Finset.card_le_card (Finset.subset_insert (p, newfd) o)
      show v.num - 1 - ((insert (p, newfd) o).card : ℤ) < _
      omega

end Drift

omit [DecidableEq P] in
/-- A descriptor that `close` refuses is not open. -/
theorem lookupFd_valid {s s' : FileState P} {p : P} {fd : ℤ} {e : Errno} (h : lookupFd p fd s = .fail e s') :
    ¬ s.ValidFd p fd := by
  rintro ⟨h0, hlt, hne⟩
  unfold lookupFd at h
  rw [if_neg (by omega)] at h
  cases ht : s.fileTable p fd.toNat with
  | none => exact hne ht
  | some a => simp [ht] at h

theorem closeFile_fail_valid {s s' : FileState P} {p : P} {fd : ℤ} {e : Errno} (h : closeFile p fd s = .fail e s') :
    ¬ s.ValidFd p fd := by
  unfold closeFile at h
  simp [Prog.bind_eq_fail, derefFile_eq_ok, Prog.modify_run] at h
  exact lookupFd_valid h

/-- `dup2` refuses only what its test at the head refuses. -/
theorem sysDup2_fail_valid {s s' : FileState P} {p : P} {oldfd newfd : ℤ} {e : Errno}
    (h : sysDup2 p oldfd newfd s = .fail e s') :
    ¬ (s.ValidFd p oldfd ∧ 0 ≤ newfd ∧ newfd < maxProcessOpenFiles) := by
  rintro ⟨hold, h0, hlt⟩
  unfold sysDup2 at h
  rw [Prog.ite_run, if_neg (by omega), Prog.bind_eq_fail] at h
  rcases h with h | ⟨a, s1, hl, h⟩
  · exact lookupFd_valid h hold
  obtain ⟨rfl, -, -, -⟩ := lookupFd_ok hl
  by_cases heq : oldfd = newfd
  · rw [if_pos heq] at h
    cases h
  rw [if_neg heq] at h
  simp only [Prog.bind_eq_fail, Prog.get_run, reduceCtorEq, false_or, Outcome.ok.injEq, Prog.modify_run,
    derefFile_ne_fail, and_false, exists_const] at h
  obtain ⟨_, _, ⟨rfl, rfl⟩, h | ⟨_, _, _, _, _, _, _, h⟩⟩ := h
  · by_cases hslot : (s.fileTable p newfd.toNat).isSome
    · rw [if_pos hslot] at h
      exact closeFile_fail_valid h ⟨h0, hlt, Option.isSome_iff_ne_none.mp hslot⟩
    · rw [if_neg hslot] at h
      cases h
  · exact h.elim

/-- A call is quiet exactly when its effect is not loud. -/
theorem quiet_iff {s s' : FileState P} {o : Finset (P × ℕ)} {ev : Call P × Except Errno ℤ} (h : SysStep s ev s') :
    Quiet ⟨s, o⟩ ev ↔ ¬ Loud o (effectOf ev) := by
  cases h with
  | @ok _ c r hf h =>
    cases c with
    | openAt p env flags => exact ⟨fun _ h => h, fun _ => trivial⟩
    | close p fd =>
      obtain ⟨_, _, hc, -⟩ := Prog.bind_eq_ok.mp h
      obtain ⟨a, f, hlt, h0, ht, -, -⟩ := closeFile_ok hc
      have hvalid : s.ValidFd p fd := ⟨h0, by omega, by simp [ht]⟩
      simp only [Quiet, effectOf, Loud, not_not]
      exact ⟨fun h => h hvalid, fun h _ => h⟩
    | read p fd vop => exact ⟨fun _ h => h, fun _ => trivial⟩
    | write p fd vop => exact ⟨fun _ h => h, fun _ => trivial⟩
    | dup2 p oldfd newfd =>
      obtain ⟨_, _, hc, -⟩ := Prog.bind_eq_ok.mp h
      by_cases heq : oldfd = newfd
      · simp [Quiet, effectOf, heq, Loud]
      · obtain ⟨a, f, t, h0, h0', -, hlt, hlt', hold, -, -, -⟩ := sysDup2_ok hc heq
        have hvalid : s.ValidFd p oldfd := ⟨h0, by omega, by simp [hold]⟩
        simp only [effectOf, if_neg heq, Loud, not_true_eq_false, iff_false]
        exact fun hq => heq (hq hvalid h0' (by omega))
    | lseek p fd pos env => exact ⟨fun _ h => h, fun _ => trivial⟩
  | @fail _ c e hf h =>
    have hkeep : effectOf (c, .error e) = .keep := by cases c <;> rfl
    rw [hkeep]
    refine ⟨fun _ h => h, fun _ => ?_⟩
    cases c with
    | close p fd =>
      rcases Prog.bind_eq_fail.mp h with h | ⟨_, _, _, h⟩
      · exact fun hv => absurd hv (closeFile_fail_valid h)
      · cases h
    | dup2 p oldfd newfd =>
      rcases Prog.bind_eq_fail.mp h with h | ⟨_, _, _, h⟩
      · exact fun hv h0 hlt => absurd ⟨hv, h0, hlt⟩ (sysDup2_fail_valid h)
      · cases h
    | _ => trivial

/-! ### Runs -/

/-- What holds along every run. -/
structure DriftInv (t : Counting P) : Prop where
  heap : t.sys.HeapOk
  isOpen : OpenIn t.opened t.sys.view
  limit : t.sys.numOpenFiles ≤ maxSystemOpenFiles
  le : t.sys.numOpenFiles ≤ t.opened.card

/-- A call keeps the invariant; it keeps the counter right if it is quiet, and
makes it wrong for good if not. -/
theorem CountingStep.inv {t t' : Counting P} {ev : Call P × Except Errno ℤ} (hi : DriftInv t)
    (h : CountingStep t ev t') : DriftInv t' ∧
      (Quiet t ev → t'.sys.numOpenFiles - t'.opened.card = t.sys.numOpenFiles - t.opened.card) ∧
      (¬ Quiet t ev → t'.sys.numOpenFiles - t'.opened.card < t.sys.numOpenFiles - t.opened.card) := by
  obtain @⟨s, s', o, _, hs⟩ := h
  obtain ⟨hheap, hv⟩ := sysStep_effect hi.heap hs
  obtain ⟨hopen, hlim, hloud, hquiet⟩ := drift_step hi.isOpen hi.limit hv
  have hle : s.view.num ≤ o.card := hi.le
  rw [quiet_iff hs, not_not]
  refine ⟨⟨hheap, hopen, hlim, ?_⟩, hquiet, hloud⟩
  show s'.view.num ≤ (openedAfter o (effectOf ev)).card
  by_cases hl : Loud o (effectOf ev)
  · have := hloud hl
    dsimp only at this
    omega
  · have := hquiet hl
    dsimp only at this
    omega

end Os161
