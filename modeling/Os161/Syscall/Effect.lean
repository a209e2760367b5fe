/-
# What the file calls do to the tables

`sysStep_effect`: whatever a call of `Os161/Syscall/File.lean` does to the
reference counts, the tables and the counter of open files (its `View`) is
one of four effects, and the call and its result say which. All that follows
about reference counts and the open file limit is proved of the effects.
-/
import Os161.Syscall.File

namespace Os161

/-! ### Calls and their effects on the tables -/

section Effects

variable {P : Type}

variable {s s' : FileState P} {p : P} {fd : ℤ} {e : Errno}

@[simp] theorem derefFile_eq_ok {a : ℕ} {f : File} : derefFile a s = .ok f s' ↔ s.files a = some f ∧ s = s' := by
  unfold derefFile
  cases s.files a <;> simp

@[simp] theorem derefFile_ne_fail {a : ℕ} : derefFile a s ≠ .fail e s' := by
  unfold derefFile
  cases s.files a <;> simp

theorem lookupFd_ok {a : ℕ} (h : lookupFd p fd s = .ok a s') :
    s = s' ∧ 0 ≤ fd ∧ fd.toNat < maxProcessOpenFiles ∧ s.fileTable p fd.toNat = some a := by
  unfold lookupFd at h
  split_ifs at h with hr
  cases ht : s.fileTable p fd.toNat with
  | none => simp [ht] at h
  | some b =>
    simp only [ht] at h
    injection h with ha hs
    subst ha hs
    exact ⟨rfl, by omega, by omega, rfl⟩

theorem lookupFd_fail (h : lookupFd p fd s = .fail e s') : s' = s := by
  unfold lookupFd at h
  split_ifs at h with hr
  · injection h with _ hs
    exact hs.symm
  · cases ht : s.fileTable p fd.toNat with
    | none =>
      simp only [ht] at h
      injection h with _ hs
      exact hs.symm
    | some b => simp [ht] at h

theorem transfer_fail {m : UInt32} {vop : Except Errno Int64} (h : transfer m p fd vop s = .fail e s') : s = s' := by
  unfold transfer at h
  simp only [Prog.bind_eq_fail, derefFile_eq_ok, derefFile_ne_fail, false_or] at h
  rcases h with h | ⟨a, s1, hl, f, _, ⟨hf, rfl⟩, h⟩
  · exact (lookupFd_fail h).symm
  obtain ⟨rfl, -, -, -⟩ := lookupFd_ok hl
  by_cases hm : f.openFlags &&& oAccmode = m
  · rw [if_pos hm] at h
    injection h
  rw [if_neg hm] at h
  cases vop with
  | error e => injection h
  | ok o => simp at h

theorem seekTo_fail {a : ℕ} {f : File} {o : Int64} (h : seekTo a f o s = .fail e s') : s = s' := by
  unfold seekTo at h
  by_cases h0 : o < 0
  · rw [if_pos h0] at h
    injection h
  · rw [if_neg h0] at h
    simp at h

theorem lseekFd_ok {a : ℕ} (h : lseekFd p fd s = .ok a s') : s = s' := by
  unfold lseekFd at h
  split_ifs at h
  · cases h1 : s.par p <;> simp [h1] at h
    exact h.2
  · cases h1 : s.fileTable p fd.toNat <;> simp [h1] at h
    exact h.2

theorem lseekFd_fail (h : lseekFd p fd s = .fail e s') : s = s' := by
  unfold lseekFd at h
  split_ifs at h
  · injection h
  · cases h1 : s.par p <;> simp [h1] at h
    exact h.2
  · cases h1 : s.fileTable p fd.toNat <;> simp [h1] at h
    exact h.2

theorem sysLseek_fail {pos : Int64} {env : LseekEnv} (h : sysLseek p fd pos env s = .fail e s') : s = s' := by
  unfold sysLseek at h
  simp only [Prog.bind_eq_fail, derefFile_eq_ok, derefFile_ne_fail, false_or] at h
  rcases h with h | ⟨a, s1, hl, f, _, ⟨hf, rfl⟩, h⟩
  · exact lseekFd_fail h
  obtain rfl := lseekFd_ok hl
  split_ifs at h
  · injection h
  · rcases hstat : env.stat with es | size
    · rw [hstat] at h
      injection h
    · rcases hw : env.whence with ew | whence
      · rw [hstat, hw] at h
        injection h
      · simp only [hstat, hw] at h
        split_ifs at h
        · exact seekTo_fail h
        · exact seekTo_fail h
        · exact seekTo_fail h
        · injection h

/-- What reference counting is about: the count of each live `File`, the
tables and the counter. -/
structure View (P : Type) where
  refs : ℕ → Option ℤ
  table : P → ℕ → Option ℕ
  num : ℤ

def FileState.view (s : FileState P) : View P :=
  ⟨fun a => (s.files a).map File.references, s.fileTable, s.numOpenFiles⟩

/-- Every live `File` is a block of the kernel heap. -/
def FileState.HeapOk (s : FileState P) : Prop := ∀ a, (s.files a).isSome → s.kheap a = true

/-- No live `File`, table or counter differs. -/
structure FileState.Same (s s' : FileState P) : Prop where
  files : s'.files = s.files
  table : s'.fileTable = s.fileTable
  num : s'.numOpenFiles = s.numOpenFiles
  heap : ∀ a, (s.files a).isSome → s'.kheap a = s.kheap a

/-- A block not in use holds no `File`. -/
theorem FileState.HeapOk.free {s : FileState P} (h : s.HeapOk) {a : ℕ} (ha : s.kheap a = false) :
    s.files a = none := by
  by_contra hne
  have := h a (Option.isSome_iff_ne_none.mpr hne)
  simp [ha] at this

theorem FileState.HeapOk.setFile (hs : s.HeapOk) {a : ℕ} {f g : File} (hf : s.files a = some f) :
    (s.setFile a (some g)).HeapOk := by
  intro x hx
  by_cases hxa : x = a
  · subst hxa
    exact hs x (by rw [hf]; rfl)
  · refine hs x ?_
    simpa [FileState.setFile, Function.update_of_ne hxa] using hx

theorem FileState.Same.refl (s : FileState P) : s.Same s := ⟨rfl, rfl, rfl, fun _ _ => rfl⟩

theorem FileState.Same.trans {s s' s'' : FileState P} (h1 : s.Same s') (h2 : s'.Same s'') : s.Same s'' :=
  ⟨h2.files.trans h1.files, h2.table.trans h1.table, h2.num.trans h1.num,
    fun a ha => (h2.heap a (by rw [h1.files]; exact ha)).trans (h1.heap a ha)⟩

theorem FileState.Same.view_eq {s s' : FileState P} (h : s.Same s') : s'.view = s.view := by
  simp only [FileState.view, h.files, h.table, h.num]

theorem FileState.Same.heapOk {s s' : FileState P} (h : s.Same s') (hs : s.HeapOk) : s'.HeapOk := by
  intro a ha
  rw [h.files] at ha
  rw [h.heap a ha]
  exact hs a ha

/-- A block that holds no `File` is marked used or free. -/
theorem FileState.same_kheap {k : ℕ} (b : Bool) (hk : s.files k = none) :
    s.Same { s with kheap := Function.update s.kheap k b } := by
  refine ⟨rfl, rfl, rfl, fun a ha => Function.update_of_ne ?_ _ _⟩
  rintro rfl
  simp [hk] at ha

variable [DecidableEq P]

/-- A call of one of the processes. -/
inductive Call (P : Type)
  | openAt (p : P) (env : OpenEnv) (flags : UInt32)
  | close (p : P) (fd : ℤ)
  | read (p : P) (fd : ℤ) (vop : Except Errno Int64)
  | write (p : P) (fd : ℤ) (vop : Except Errno Int64)
  | dup2 (p : P) (oldfd newfd : ℤ)
  | lseek (p : P) (fd : ℤ) (pos : Int64) (env : LseekEnv)

/-- The code of a call. -/
def Call.run : Call P → Prog Errno (FileState P) ℤ
  | .openAt p env flags => sysOpen p env flags
  | .close p fd => do
    sysClose p fd
    pure 0
  | .read p fd vop => sysRead p fd vop
  | .write p fd vop => sysWrite p fd vop
  | .dup2 p oldfd newfd => do
    sysDup2 p oldfd newfd
    pure 0
  | .lseek p fd pos env => sysLseek p fd pos env

/-- `kmalloc` hands out blocks that are not in use. -/
structure OpenEnv.Fresh (env : OpenEnv) (s : FileState P) : Prop where
  path : ∀ k, env.kfilename = some k → s.kheap k = false
  file : ∀ a stale, env.file = some (a, stale) → s.kheap a = false ∧ env.kfilename ≠ some a

/-- The outcomes the call is given are possible ones. -/
def Call.Fresh : Call P → FileState P → Prop
  | .openAt _ env _, s => env.Fresh s
  | _, _ => True

/-- A call with its result. -/
inductive SysStep : FileState P → Call P × Except Errno ℤ → FileState P → Prop
  | ok {s s' : FileState P} {c : Call P} {r : ℤ} : c.Fresh s → c.run s = .ok r s' → SysStep s (c, .ok r) s'
  | fail {s s' : FileState P} {c : Call P} {e : Errno} :
      c.Fresh s → c.run s = .fail e s' → SysStep s (c, .error e) s'

namespace View

/-- A new `File` at `a` in slot `fd`. -/
def install (p : P) (fd a : ℕ) (v : View P) : View P :=
  ⟨Function.update v.refs a (some 1), Function.update v.table p (Function.update (v.table p) fd (some a)), v.num + 1⟩

/-- Slot `fd`, which holds the `File` at `a` with count `r`, is cleared. -/
def clear (p : P) (fd a : ℕ) (r : ℤ) (v : View P) : View P :=
  ⟨Function.update v.refs a (if r - 1 ≤ 0 then none else some (r - 1)),
    Function.update v.table p (Function.update (v.table p) fd none), v.num - 1⟩

/-- The `File` at `a` with count `r` is put into slot `fd` as well. -/
def share (p : P) (fd a : ℕ) (r : ℤ) (v : View P) : View P :=
  ⟨Function.update v.refs a (some (r + 1)), Function.update v.table p (Function.update (v.table p) fd (some a)), v.num⟩

end View

/-- What a call did to the tables. -/
inductive Effect (P : Type)
  | keep
  | install (p : P) (fd : ℕ)
  | clear (p : P) (fd : ℕ)
  | dup (p : P) (oldfd newfd : ℕ)

/-- The effect of a call that had the result. -/
def effectOf : Call P × Except Errno ℤ → Effect P
  | (.openAt p _ _, .ok fd) => .install p fd.toNat
  | (.close p fd, .ok _) => .clear p fd.toNat
  | (.dup2 p oldfd newfd, .ok _) => if oldfd = newfd then .keep else .dup p oldfd.toNat newfd.toNat
  | _ => .keep

/-- The effects as steps of the view. -/
inductive ViewStep : View P → Effect P → View P → Prop
  | keep {v : View P} : ViewStep v .keep v
  | install {v : View P} {p : P} {fd a : ℕ} : 3 ≤ fd → fd < maxProcessOpenFiles → v.table p fd = none →
      v.refs a = none → v.num < maxSystemOpenFiles → ViewStep v (.install p fd) (v.install p fd a)
  | clear {v : View P} {p : P} {fd a : ℕ} {r : ℤ} : fd < maxProcessOpenFiles → v.table p fd = some a →
      v.refs a = some r → ViewStep v (.clear p fd) (v.clear p fd a r)
  | dupFree {v : View P} {p : P} {oldfd newfd a : ℕ} {r : ℤ} : oldfd ≠ newfd → oldfd < maxProcessOpenFiles →
      newfd < maxProcessOpenFiles → v.table p oldfd = some a → v.table p newfd = none → v.refs a = some r →
      ViewStep v (.dup p oldfd newfd) (v.share p newfd a r)
  | dupBusy {v : View P} {p : P} {oldfd newfd a b : ℕ} {q r : ℤ} : oldfd ≠ newfd → oldfd < maxProcessOpenFiles →
      newfd < maxProcessOpenFiles → v.table p oldfd = some a → v.table p newfd = some b → v.refs b = some q →
      (v.clear p newfd b q).refs a = some r →
      ViewStep v (.dup p oldfd newfd) ((v.clear p newfd b q).share p newfd a r)

/-! ### What each call does -/

/-- The state after `close` of slot `fd`, which held the `File` `f` at `a`. -/
def FileState.closed (p : P) (fd a : ℕ) (f : File) (s : FileState P) : FileState P :=
  let s1 := (s.setSlot p fd none).setFile a (some { f with references := f.references - 1 })
  let s2 := if f.references - 1 ≤ 0 then s1.destroy a f else s1
  { s2 with numOpenFiles := s.numOpenFiles - 1 }

/-- **`close`** clears the slot of an open descriptor. -/
theorem closeFile_ok {u : Unit} (h : closeFile p fd s = .ok u s') :
    ∃ a f, fd.toNat < maxProcessOpenFiles ∧ 0 ≤ fd ∧ s.fileTable p fd.toNat = some a ∧ s.files a = some f ∧
      s' = s.closed p fd.toNat a f := by
  unfold closeFile at h
  simp only [Prog.bind_eq_ok, derefFile_eq_ok, Prog.modify_run, Outcome.ok.injEq] at h
  obtain ⟨a, _, hl, f, _, ⟨hf, rfl⟩, _, _, ⟨-, rfl⟩, _, _, ⟨-, rfl⟩, _, _, ⟨-, rfl⟩, -, rfl⟩ := h
  obtain ⟨rfl, h0, hlt, ht⟩ := lookupFd_ok hl
  refine ⟨a, f, hlt, h0, ht, hf, ?_⟩
  unfold FileState.closed
  split_ifs <;> rfl

theorem closeFile_fail (h : closeFile p fd s = .fail e s') : s' = s := by
  unfold closeFile at h
  simp [Prog.bind_eq_fail, derefFile_eq_ok, Prog.modify_run] at h
  exact lookupFd_fail h

/-- **`open` that fails** changes no live `File` and no table. -/
theorem openFile_fail {env : OpenEnv} {flags : UInt32} {d : ℕ}
    (hfree : ∀ a stale, env.file = some (a, stale) → s.files a = none)
    (h : openFile p env flags d s = .fail e s') : s.Same s' := by
  unfold openFile at h
  cases hfile : env.file with
  | none =>
    simp only [hfile, Prog.fail_run, Outcome.fail.injEq] at h
    rw [← h.2]
    exact .refl s
  | some b =>
    obtain ⟨a, stale⟩ := b
    have ha := hfree a stale hfile
    have hfiles : Function.update (Function.update s.files a (some stale)) a none = s.files := by
      rw [Function.update_idem, ← ha, Function.update_eq_self]
    have hheap : ∀ x, (s.files x).isSome →
        Function.update (Function.update s.kheap a true) a false x = s.kheap x := by
      intro x hx
      have hne : x ≠ a := by
        rintro rfl
        simp [ha] at hx
      rw [Function.update_of_ne hne, Function.update_of_ne hne]
    cases hv : env.vfsOpen with
    | error ev =>
      simp [hfile, hv] at h
      rw [← h.2]
      exact ⟨hfiles, rfl, rfl, hheap⟩
    | ok vn =>
      cases hl : env.flock with
      | none =>
        simp [hfile, hv, hl] at h
        rw [← h.2]
        exact ⟨hfiles, rfl, rfl, hheap⟩
      | some lk => simp [hfile, hv, hl] at h

/-- **`open` that succeeds** puts a new `File` into the slot. -/
theorem openFile_ok {env : OpenEnv} {flags : UInt32} {d : ℕ} {u : Unit} (h : openFile p env flags d s = .ok u s') :
    ∃ a stale vn lk, env.file = some (a, stale) ∧
      s'.files = Function.update s.files a (some ⟨vn, flags, 1, lk, 0⟩) ∧
      s'.fileTable = Function.update s.fileTable p (Function.update (s.fileTable p) d (some a)) ∧
      s'.numOpenFiles = s.numOpenFiles ∧ s'.kheap = Function.update s.kheap a true := by
  unfold openFile at h
  cases hfile : env.file with
  | none => simp [hfile] at h
  | some b =>
    obtain ⟨a, stale⟩ := b
    cases hv : env.vfsOpen with
    | error ev => simp [hfile, hv] at h
    | ok vn =>
      cases hl : env.flock with
      | none => simp [hfile, hv, hl] at h
      | some lk =>
        simp [hfile, hv, hl] at h
        refine ⟨a, stale, vn, lk, rfl, ?_, ?_, ?_, ?_⟩ <;> rw [← h]
        · exact Function.update_idem _ _ _
        all_goals rfl

theorem freeSlot_some {table : ℕ → Option ℕ} {d : ℕ} (h : freeSlot table = some d) :
    3 ≤ d ∧ d < maxProcessOpenFiles ∧ table d = none := by
  unfold freeSlot at h
  have hmem := List.mem_of_find?_eq_some h
  have hp := List.find?_some h
  rw [List.mem_range'_1] at hmem
  refine ⟨hmem.1, ?_, by simpa using hp⟩
  have := hmem.2
  unfold maxProcessOpenFiles at this ⊢
  omega

/-- The state with block `k` marked used or free. -/
def FileState.mark (k : ℕ) (b : Bool) (s : FileState P) : FileState P :=
  { s with kheap := Function.update s.kheap k b }

/-- `sys_open` once it has the path and a slot. -/
theorem sysOpen_at {env : OpenEnv} {flags : UInt32} {k d : ℕ} (hnull : env.filenameNull = false)
    (hpath : env.kfilename = some k) (hc : env.copyinstr = .ok ()) (hslot : freeSlot (s.fileTable p) = some d) :
    sysOpen p env flags s =
      if maxSystemOpenFiles ≤ s.numOpenFiles then .fail .enfile ((s.mark k true).mark k false)
      else match openFile p env flags d (s.mark k true) with
        | .ok _ t => .ok (d : ℤ) { t with numOpenFiles := t.numOpenFiles + 1 }
        | .fail e t => .fail e (t.mark k false)
        | .stop => .stop := by
  unfold sysOpen
  simp only [hnull, hpath, hc, Bool.false_eq_true, if_false]
  rw [Prog.modify_bind, Prog.get_bind]
  simp only [hslot]
  by_cases hlim : maxSystemOpenFiles ≤ s.numOpenFiles
  · rw [if_pos hlim, if_pos hlim]
    rfl
  · rw [if_neg hlim, if_neg hlim]
    show Prog.andThen (Prog.attempt (openFile p env flags d)) _ (s.mark k true) = _
    simp only [Prog.andThen, Prog.attempt]
    cases openFile p env flags d (s.mark k true) <;> rfl

/-- `open` returns or fails. -/
theorem openFile_ne_stop {env : OpenEnv} {flags : UInt32} {d : ℕ} : openFile p env flags d s ≠ .stop := by
  unfold openFile
  rcases env.file with _ | ⟨a, stale⟩
  · exact fun h => nomatch h
  · rcases env.vfsOpen with ev | vn
    · exact fun h => nomatch h
    · rcases env.flock with _ | lk <;> exact fun h => nomatch h

theorem view_install {t : FileState P} {d a : ℕ} {f : File} (hr : f.references = 1)
    (hfiles : t.files = Function.update s.files a (some f))
    (htable : t.fileTable = Function.update s.fileTable p (Function.update (s.fileTable p) d (some a)))
    (hnum : t.numOpenFiles = s.numOpenFiles + 1) : t.view = s.view.install p d a := by
  have hrefs : (fun x => (t.files x).map File.references) =
      Function.update (fun x => (s.files x).map File.references) a (some 1) := by
    funext x
    rw [hfiles]
    by_cases hx : x = a
    · subst hx
      simp [hr]
    · simp [Function.update_of_ne hx]
  simp only [FileState.view, View.install, hrefs, htable, hnum]

/-- **`sys_open`** fails without a change to a live `File`, a table or the
counter, or installs a new `File` in a free slot. -/
theorem sysOpen_cases (p : P) {env : OpenEnv} (flags : UInt32) (hs : s.HeapOk) (hf : env.Fresh s) :
    (∃ e t, sysOpen p env flags s = .fail e t ∧ s.Same t) ∨
    ∃ (d : ℕ) (t : FileState P), sysOpen p env flags s = .ok (d : ℤ) t ∧ t.HeapOk ∧
      ViewStep s.view (.install p d) t.view := by
  by_cases hnull : env.filenameNull
  · exact Or.inl ⟨.efault, s, by simp [sysOpen, hnull], .refl s⟩
  rw [Bool.not_eq_true] at hnull
  cases hpath : env.kfilename with
  | none => exact Or.inl ⟨.enfile, s, by simp [sysOpen, hnull, hpath], .refl s⟩
  | some k =>
    have hk : s.files k = none := hs.free (hf.path k hpath)
    have hsame1 : s.Same (s.mark k true) := FileState.same_kheap true hk
    -- every way out frees the path buffer
    have hout : ∀ t, (s.mark k true).Same t → s.Same (t.mark k false) := fun t ht =>
      (hsame1.trans ht).trans (FileState.same_kheap false (by rw [(hsame1.trans ht).files]; exact hk))
    cases hc : env.copyinstr with
    | error ec =>
      refine Or.inl ⟨ec, (s.mark k true).mark k false, ?_, hout _ (.refl _)⟩
      simp only [sysOpen, hnull, hpath, hc]
      rfl
    | ok _ =>
      cases hslot : freeSlot (s.fileTable p) with
      | none =>
        refine Or.inl ⟨.emfile, (s.mark k true).mark k false, ?_, hout _ (.refl _)⟩
        simp only [sysOpen, hnull, hpath, hc, Bool.false_eq_true, if_false]
        rw [Prog.modify_bind, Prog.get_bind]
        simp only [hslot]
        rfl
      | some d =>
        rw [sysOpen_at hnull hpath hc hslot]
        by_cases hlim : maxSystemOpenFiles ≤ s.numOpenFiles
        · exact Or.inl ⟨.enfile, _, if_pos hlim, hout _ (.refl _)⟩
        rw [if_neg hlim]
        have hfree : ∀ a stale, env.file = some (a, stale) → (s.mark k true).files a = none :=
          fun a stale ha => hs.free (hf.file a stale ha).1
        cases ho : openFile p env flags d (s.mark k true) with
        | stop => exact absurd ho openFile_ne_stop
        | fail e t => exact Or.inl ⟨e, _, rfl, hout t (openFile_fail hfree ho)⟩
        | ok u t =>
          obtain ⟨a, stale, vn, lk, hfile, hfiles, htable, hnum, hheap⟩ := openFile_ok ho
          obtain ⟨h3, h16, hnone⟩ := freeSlot_some hslot
          refine Or.inr ⟨d, _, rfl, ?_, ?_⟩
          · intro x hx
            show t.kheap x = true
            change (t.files x).isSome at hx
            rw [hfiles] at hx
            rw [hheap]
            by_cases hxa : x = a
            · rw [hxa, Function.update_self]
            · rw [Function.update_of_ne hxa] at hx ⊢
              exact hsame1.heapOk hs x hx
          · have hview : FileState.view { t with numOpenFiles := t.numOpenFiles + 1 } = s.view.install p d a :=
              view_install rfl hfiles htable (by rw [hnum]; rfl)
            rw [hview]
            refine .install h3 h16 hnone ?_ (Int.not_le.mp hlim)
            simp only [FileState.view, hs.free (hf.file a stale hfile).1, Option.map_none]

section Closed

variable {d a : ℕ} {f : File}

theorem closed_files : (s.closed p d a f).files = Function.update s.files a
    (if f.references - 1 ≤ 0 then none else some { f with references := f.references - 1 }) := by
  unfold FileState.closed
  split_ifs
  · exact Function.update_idem _ _ _
  · rfl

theorem closed_table : (s.closed p d a f).fileTable =
    Function.update s.fileTable p (Function.update (s.fileTable p) d none) := by
  unfold FileState.closed
  split_ifs <;> rfl

theorem closed_kheap : (s.closed p d a f).kheap =
    if f.references - 1 ≤ 0 then Function.update s.kheap a false else s.kheap := by
  unfold FileState.closed
  split_ifs <;> rfl

theorem closed_vnRefs : (s.closed p d a f).vnRefs =
    if f.references - 1 ≤ 0 then Function.update s.vnRefs f.vPtr (s.vnRefs f.vPtr - 1) else s.vnRefs := by
  unfold FileState.closed
  split_ifs <;> rfl

theorem closed_locks : (s.closed p d a f).locks =
    if f.references - 1 ≤ 0 then Function.update s.locks f.flock false else s.locks := by
  unfold FileState.closed
  split_ifs <;> rfl

/-- A `File` that `close` ends is given back. -/
theorem closed_destroy {b : ℕ} {g : File} (hf : s.files a = some f) (hg : s.files b = some g)
    (hgone : (s.closed p d b g).files a = none) :
    (s.closed p d b g).vnRefs f.vPtr = s.vnRefs f.vPtr - 1 ∧ (s.closed p d b g).locks f.flock = false ∧
      (s.closed p d b g).kheap a = false := by
  rw [closed_files] at hgone
  have hab : a = b := by
    by_contra hne
    rw [Function.update_of_ne hne, hf] at hgone
    cases hgone
  subst hab
  obtain rfl : f = g := Option.some.inj (hf.symm.trans hg)
  rw [Function.update_self] at hgone
  have h0 : f.references - 1 ≤ 0 := by
    by_contra h0
    rw [if_neg h0] at hgone
    cases hgone
  rw [closed_vnRefs, closed_locks, closed_kheap, if_pos h0, if_pos h0, if_pos h0]
  simp

theorem view_closed : (s.closed p d a f).view = s.view.clear p d a f.references := by
  have hrefs : (fun x => ((s.closed p d a f).files x).map File.references) =
      Function.update (fun x => (s.files x).map File.references) a
        (if f.references - 1 ≤ 0 then none else some (f.references - 1)) := by
    funext x
    rw [closed_files]
    by_cases hx : x = a
    · subst hx
      simp only [Function.update_self]
      split_ifs <;> rfl
    · simp only [Function.update_of_ne hx]
  simp only [FileState.view, View.clear, hrefs, closed_table]
  rfl

theorem FileState.HeapOk.closed (hs : s.HeapOk) (hf : s.files a = some f) : (s.closed p d a f).HeapOk := by
  intro x hx
  rw [closed_files] at hx
  rw [closed_kheap]
  by_cases hxa : x = a
  · subst hxa
    rw [Function.update_self] at hx
    by_cases h0 : f.references - 1 ≤ 0
    · rw [if_pos h0] at hx
      cases hx
    · rw [if_neg h0]
      exact hs x (by rw [hf]; rfl)
  · rw [Function.update_of_ne hxa] at hx
    split_ifs
    · rw [Function.update_of_ne hxa]
      exact hs x hx
    · exact hs x hx

end Closed

theorem view_share {d a : ℕ} {f : File} :
    ((s.setSlot p d (some a)).setFile a (some { f with references := f.references + 1 })).view =
      s.view.share p d a f.references := by
  have hrefs : (fun x => (((s.setSlot p d (some a)).setFile a
      (some { f with references := f.references + 1 })).files x).map File.references) =
      Function.update (fun x => (s.files x).map File.references) a (some (f.references + 1)) := by
    funext x
    by_cases hx : x = a
    · subst hx
      simp [FileState.setFile]
    · simp [FileState.setFile, FileState.setSlot, Function.update_of_ne hx]
  simp only [FileState.view, View.share, hrefs]
  rfl

/-- The state after `sys_dup2` put the `File` `f` at `a` into slot `fd`. -/
def FileState.shared (p : P) (fd a : ℕ) (f : File) (s : FileState P) : FileState P :=
  (s.setSlot p fd (some a)).setFile a (some { f with references := f.references + 1 })

/-- **`sys_dup2`** of a descriptor onto another one closes that one, if it is
open, and shares the `File`. -/
theorem sysDup2_ok {oldfd newfd : ℤ} {u : Unit} (h : sysDup2 p oldfd newfd s = .ok u s') (hne : oldfd ≠ newfd) :
    ∃ a f t, 0 ≤ oldfd ∧ 0 ≤ newfd ∧ oldfd.toNat ≠ newfd.toNat ∧ oldfd.toNat < maxProcessOpenFiles ∧ newfd.toNat < maxProcessOpenFiles ∧
      s.fileTable p oldfd.toNat = some a ∧
      (s.fileTable p newfd.toNat = none ∧ t = s ∨ ∃ b g, s.fileTable p newfd.toNat = some b ∧
        s.files b = some g ∧ t = s.closed p newfd.toNat b g) ∧
      t.files a = some f ∧ s' = t.shared p newfd.toNat a f := by
  unfold sysDup2 at h
  rw [Prog.ite_run] at h
  by_cases hnew : newfd < 0 ∨ (maxProcessOpenFiles : ℤ) ≤ newfd
  · rw [if_pos hnew] at h
    cases h
  rw [if_neg hnew] at h
  simp only [Prog.bind_eq_ok] at h
  obtain ⟨a, _, hl, h⟩ := h
  obtain ⟨rfl, h0, hlt, hold⟩ := lookupFd_ok hl
  rw [if_neg hne] at h
  simp only [Prog.bind_eq_ok, Prog.get_run, Outcome.ok.injEq, Prog.modify_run, derefFile_eq_ok] at h
  obtain ⟨_, _, ⟨rfl, rfl⟩, _, t, hclose, _, _, ⟨-, rfl⟩, f, _, ⟨hf, rfl⟩, -, rfl⟩ := h
  refine ⟨a, f, t, h0, by omega, by omega, hlt, by omega, hold, ?_, hf, rfl⟩
  cases hslot : s.fileTable p newfd.toNat with
  | none =>
    simp only [hslot, Option.isSome_none, Bool.false_eq_true, if_false, Prog.pure_run, Outcome.ok.injEq] at hclose
    exact Or.inl ⟨rfl, hclose.2.symm⟩
  | some b =>
    simp only [hslot, Option.isSome_some, if_true] at hclose
    obtain ⟨b', g, _, _, hb, hg, rfl⟩ := closeFile_ok hclose
    obtain rfl : b = b' := Option.some.inj (hslot.symm.trans hb)
    exact Or.inr ⟨b, g, rfl, hg, rfl⟩

theorem sysDup2_same {oldfd newfd : ℤ} {u : Unit} (h : sysDup2 p oldfd newfd s = .ok u s')
    (heq : oldfd = newfd) : s = s' := by
  unfold sysDup2 at h
  rw [Prog.ite_run] at h
  by_cases hnew : newfd < 0 ∨ (maxProcessOpenFiles : ℤ) ≤ newfd
  · rw [if_pos hnew] at h
    cases h
  rw [if_neg hnew] at h
  simp only [Prog.bind_eq_ok] at h
  obtain ⟨a, _, hl, h⟩ := h
  obtain ⟨rfl, -, -, -⟩ := lookupFd_ok hl
  rw [if_pos heq] at h
  injection h

theorem sysDup2_effect {oldfd newfd : ℤ} {u : Unit} (hs : s.HeapOk) (h : sysDup2 p oldfd newfd s = .ok u s') :
    s'.HeapOk ∧ ViewStep s.view (if oldfd = newfd then .keep else .dup p oldfd.toNat newfd.toNat) s'.view := by
  by_cases heq : oldfd = newfd
  · rw [if_pos heq]
    obtain rfl := sysDup2_same h heq
    exact ⟨hs, .keep⟩
  rw [if_neg heq]
  obtain ⟨a, f, t, -, -, hne, hlt, hlt', hold, ht, hf, rfl⟩ := sysDup2_ok h heq
  have hrefs : t.view.refs a = some f.references := by simp [FileState.view, hf]
  rcases ht with ⟨hnone, rfl⟩ | ⟨b, g, hb, hg, rfl⟩
  · refine ⟨FileState.HeapOk.setFile (s := t.setSlot p newfd.toNat (some a)) hs hf, ?_⟩
    rw [FileState.shared, view_share]
    exact .dupFree hne hlt hlt' hold hnone hrefs
  · refine ⟨FileState.HeapOk.setFile (s := (s.closed p newfd.toNat b g).setSlot p newfd.toNat (some a))
      (hs.closed hg) hf, ?_⟩
    rw [view_closed] at hrefs
    rw [FileState.shared, view_share, view_closed]
    exact .dupBusy hne hlt hlt' hold hb (by simp [FileState.view, hg]) hrefs

theorem sysDup2_fail {oldfd newfd : ℤ} (h : sysDup2 p oldfd newfd s = .fail e s') : s = s' := by
  unfold sysDup2 at h
  rw [Prog.ite_run] at h
  by_cases hnew : newfd < 0 ∨ (maxProcessOpenFiles : ℤ) ≤ newfd
  · rw [if_pos hnew] at h
    injection h
  rw [if_neg hnew, Prog.bind_eq_fail] at h
  rcases h with h | ⟨a, s1, hl, h⟩
  · exact (lookupFd_fail h).symm
  obtain ⟨rfl, -, -, -⟩ := lookupFd_ok hl
  by_cases heq : oldfd = newfd
  · rw [if_pos heq] at h
    cases h
  rw [if_neg heq] at h
  simp only [Prog.bind_eq_fail, Prog.get_run, reduceCtorEq, false_or, Outcome.ok.injEq, Prog.modify_run,
    derefFile_ne_fail, and_false, exists_const] at h
  obtain ⟨_, _, ⟨rfl, rfl⟩, h | ⟨_, _, _, _, _, _, _, h⟩⟩ := h
  · by_cases hslot : (s.fileTable p newfd.toNat).isSome
    · rw [if_pos hslot] at h
      exact (closeFile_fail h).symm
    · rw [if_neg hslot] at h
      cases h
  · exact h.elim

/-- An update of the offset of an open `File` is no effect. -/
theorem setOffset_keep {a : ℕ} {f : File} (hs : s.HeapOk) (hf : s.files a = some f) (o : Int64) :
    (s.setFile a (some { f with offset := o })).HeapOk ∧
      ViewStep s.view .keep (s.setFile a (some { f with offset := o })).view := by
  have hrefs : (fun x => ((s.setFile a (some { f with offset := o })).files x).map File.references) =
      fun x => (s.files x).map File.references := by
    funext x
    by_cases hx : x = a
    · subst hx
      simp [FileState.setFile, hf]
    · simp [FileState.setFile, Function.update_of_ne hx]
  have hview : (s.setFile a (some { f with offset := o })).view = s.view := by
    simp only [FileState.view, hrefs]
    rfl
  exact ⟨hs.setFile hf, hview ▸ .keep⟩

theorem transfer_ok {m : UInt32} {vop : Except Errno Int64} {r : ℤ} (hs : s.HeapOk)
    (h : transfer m p fd vop s = .ok r s') : s'.HeapOk ∧ ViewStep s.view .keep s'.view := by
  unfold transfer at h
  simp only [Prog.bind_eq_ok, derefFile_eq_ok] at h
  obtain ⟨a, s1, hl, f, _, ⟨hf, rfl⟩, h⟩ := h
  obtain ⟨rfl, -, -, -⟩ := lookupFd_ok hl
  by_cases hm : f.openFlags &&& oAccmode = m
  · rw [if_pos hm] at h
    cases h
  rw [if_neg hm] at h
  cases vop with
  | error e => cases h
  | ok o =>
    simp only [Prog.bind_eq_ok, Prog.modify_run, Outcome.ok.injEq, Prog.pure_run] at h
    obtain ⟨_, _, ⟨-, rfl⟩, -, rfl⟩ := h
    exact setOffset_keep hs hf o

theorem seekTo_ok {a : ℕ} {f : File} {o : Int64} {r : ℤ} (hs : s.HeapOk) (hf : s.files a = some f)
    (h : seekTo a f o s = .ok r s') : s'.HeapOk ∧ ViewStep s.view .keep s'.view := by
  unfold seekTo at h
  by_cases h0 : o < 0
  · rw [if_pos h0] at h
    cases h
  · rw [if_neg h0] at h
    simp only [Prog.bind_eq_ok, Prog.modify_run, Outcome.ok.injEq, Prog.pure_run] at h
    obtain ⟨_, _, ⟨-, rfl⟩, -, rfl⟩ := h
    exact setOffset_keep hs hf o

theorem sysLseek_ok {pos : Int64} {env : LseekEnv} {r : ℤ} (hs : s.HeapOk)
    (h : sysLseek p fd pos env s = .ok r s') : s'.HeapOk ∧ ViewStep s.view .keep s'.view := by
  unfold sysLseek at h
  simp only [Prog.bind_eq_ok, derefFile_eq_ok] at h
  obtain ⟨a, s1, hl, f, _, ⟨hf, rfl⟩, h⟩ := h
  obtain rfl := lseekFd_ok hl
  split_ifs at h
  · cases h
  · rcases hstat : env.stat with es | size
    · rw [hstat] at h
      cases h
    · rcases hw : env.whence with ew | whence
      · rw [hstat, hw] at h
        cases h
      · simp only [hstat, hw] at h
        split_ifs at h
        · exact seekTo_ok hs hf h
        · exact seekTo_ok hs hf h
        · exact seekTo_ok hs hf h
        · cases h

/-- **What a call does to the tables** is the effect named by the call and
its result, and `File`s stay blocks of the heap. -/
theorem sysStep_effect {ev : Call P × Except Errno ℤ} (hs : s.HeapOk) (h : SysStep s ev s') :
    s'.HeapOk ∧ ViewStep s.view (effectOf ev) s'.view := by
  cases h with
  | @ok _ c r hf h =>
    cases c with
    | openAt p env flags =>
      rcases sysOpen_cases p flags hs hf with ⟨e, t, ho, -⟩ | ⟨d, t, ho, hh, hv⟩
      · cases ho.symm.trans h
      · obtain ⟨rfl, rfl⟩ := Outcome.ok.inj (ho.symm.trans h)
        exact ⟨hh, hv⟩
    | close p fd =>
      obtain ⟨_, _, hc, h⟩ := Prog.bind_eq_ok.mp h
      obtain ⟨-, rfl⟩ := Outcome.ok.inj h
      obtain ⟨a, f, hlt, -, ht, hf, rfl⟩ := closeFile_ok hc
      refine ⟨hs.closed hf, ?_⟩
      rw [view_closed]
      exact .clear hlt ht (by simp [FileState.view, hf])
    | read p fd vop => exact transfer_ok hs h
    | write p fd vop => exact transfer_ok hs h
    | dup2 p oldfd newfd =>
      obtain ⟨_, _, hc, h⟩ := Prog.bind_eq_ok.mp h
      obtain ⟨-, rfl⟩ := Outcome.ok.inj h
      exact sysDup2_effect hs hc
    | lseek p fd pos env => exact sysLseek_ok hs h
  | @fail _ c e hf h =>
    have hsame : s.Same s' := by
      cases c with
      | openAt p env flags =>
        rcases sysOpen_cases p flags hs hf with ⟨e', t, ho, hsame⟩ | ⟨d, t, ho, -, -⟩
        · obtain ⟨rfl, rfl⟩ := Outcome.fail.inj (ho.symm.trans h)
          exact hsame
        · cases ho.symm.trans h
      | close p fd =>
        rcases Prog.bind_eq_fail.mp h with h | ⟨_, _, _, h⟩
        · rw [closeFile_fail h]
          exact .refl s
        · cases h
      | read p fd vop => exact transfer_fail h ▸ .refl s
      | write p fd vop => exact transfer_fail h ▸ .refl s
      | dup2 p oldfd newfd =>
        rcases Prog.bind_eq_fail.mp h with h | ⟨_, _, _, h⟩
        · exact sysDup2_fail h ▸ .refl s
        · cases h
      | lseek p fd pos env => exact sysLseek_fail h ▸ .refl s
    have hkeep : effectOf (c, .error e) = .keep := by cases c <;> rfl
    rw [hkeep, hsame.view_eq]
    exact ⟨hsame.heapOk hs, .keep⟩

end Effects

end Os161
