/-
# When `sys_open` is atomic

A call of `sys_open` takes a path buffer, a block for the `File`, a reference
to the vnode and a lock, and has to give back what it took when it fails. It
does on every way out but one: when `lock_create` fails, `open` closes the
vnode that the new block's `v_ptr` happens to hold. And when it succeeds the
path buffer stays allocated.

`sysOpen_atomic_iff`: the call is atomic exactly when it fails before there is
a lock to create, or `lock_create` fails and `v_ptr` happened to be the vnode.
-/
import Os161.Syscall.Effect

namespace Os161

variable {P : Type} [DecidableEq P]

/-- The tables, the counter, the references to vnodes and the heap are as in `s`. -/
structure FileState.Unchanged (s t : FileState P) : Prop where
  table : t.fileTable = s.fileTable
  num : t.numOpenFiles = s.numOpenFiles
  vnRefs : t.vnRefs = s.vnRefs
  kheap : t.kheap = s.kheap
  locks : t.locks = s.locks

/-- The lowest free slot from 3 upward holds a new `File`, and the heap has
grown by it and its lock. -/
structure FileState.Opened (p : P) (fd : ℤ) (s t : FileState P) : Prop where
  range : 3 ≤ fd ∧ fd < maxProcessOpenFiles
  free : s.fileTable p fd.toNat = none
  lowest : ∀ d, 3 ≤ d → d < fd.toNat → s.fileTable p d ≠ none
  file : ∃ a f, s.kheap a = false ∧ t.files a = some f ∧ f.offset = 0 ∧ f.references = 1 ∧
    t.fileTable = Function.update s.fileTable p (Function.update (s.fileTable p) fd.toNat (some a)) ∧
    t.kheap = Function.update s.kheap a true ∧ t.locks = Function.update s.locks f.flock true

/-- A call of `sys_open` that fails leaves everything as it was, and one that
succeeds adds the `File` and its lock. -/
def OpenAtomic (p : P) (env : OpenEnv) (flags : UInt32) (s : FileState P) : Prop :=
  match sysOpen p env flags s with
  | .ok fd t => s.Opened p fd t
  | .fail _ t => s.Unchanged t
  | .stop => True

/-- The call fails before `lock_create`. -/
def OpenEnv.FailsEarly (env : OpenEnv) (p : P) (s : FileState P) : Prop :=
  env.filenameNull = true ∨ env.kfilename = none ∨ (∃ e, env.copyinstr = .error e) ∨
    freeSlot (s.fileTable p) = none ∨ maxSystemOpenFiles ≤ s.numOpenFiles ∨ env.file = none ∨
    ∃ e, env.vfsOpen = .error e

/-- `lock_create` fails, and `v_ptr` of the new block is the vnode already. -/
def OpenEnv.StaleVnode (env : OpenEnv) : Prop :=
  env.flock = none ∧ ∀ a stale vn, env.file = some (a, stale) → env.vfsOpen = .ok vn → stale.vPtr = vn

variable {s : FileState P} {p : P} {env : OpenEnv} {flags : UInt32}

omit [DecidableEq P] in
theorem FileState.Unchanged.refl (s : FileState P) : s.Unchanged s := ⟨rfl, rfl, rfl, rfl, rfl⟩

omit [DecidableEq P] in
/-- The path buffer is taken and freed again. -/
theorem FileState.Unchanged.path {t : FileState P} {k : ℕ} (hk : s.kheap k = false) (h : (s.mark k true).Unchanged t) :
    s.Unchanged (t.mark k false) := by
  refine ⟨h.table, h.num, h.vnRefs, ?_, h.locks⟩
  show Function.update t.kheap k false = _
  rw [h.kheap]
  show Function.update (Function.update s.kheap k true) k false = _
  rw [Function.update_idem, ← hk, Function.update_eq_self]

/-- `open` that gets no block or no vnode. -/
theorem openFile_early (d : ℕ) (hfresh : ∀ a stale, env.file = some (a, stale) → s.kheap a = false)
    (h : env.file = none ∨ ∃ e, env.vfsOpen = .error e) :
    ∃ e t, openFile p env flags d s = .fail e t ∧ s.Unchanged t := by
  unfold openFile
  rcases hfile : env.file with _ | ⟨a, stale⟩
  · exact ⟨.enfile, s, rfl, .refl s⟩
  · obtain ⟨e, he⟩ := h.resolve_left (by rw [hfile]; exact Option.some_ne_none _)
    simp only [he]
    refine ⟨e, _, rfl, rfl, rfl, rfl, ?_, rfl⟩
    show Function.update (Function.update s.kheap a true) a false = _
    rw [Function.update_idem, ← hfresh a stale hfile, Function.update_eq_self]

/-- `open` that gets no lock closes the vnode in the new block's `v_ptr`. -/
theorem openFile_no_lock (p : P) (flags : UInt32) (d : ℕ) {a vn : ℕ} {stale : File} (hfile : env.file = some (a, stale)) (hv : env.vfsOpen = .ok vn)
    (hl : env.flock = none) (ha : s.kheap a = false) :
    ∃ t, openFile p env flags d s = .fail .enfile t ∧ t.fileTable = s.fileTable ∧ t.numOpenFiles = s.numOpenFiles ∧
      t.kheap = s.kheap ∧ t.locks = s.locks ∧
      t.vnRefs = FileState.vnRefs (FileState.vfsClose stale.vPtr
        { s with vnRefs := Function.update s.vnRefs vn (s.vnRefs vn + 1) }) := by
  unfold openFile
  simp only [hfile, hv, hl]
  refine ⟨_, rfl, rfl, rfl, ?_, rfl, rfl⟩
  show Function.update (Function.update s.kheap a true) a false = _
  rw [Function.update_idem, ← ha, Function.update_eq_self]

omit [DecidableEq P] in
/-- A reference taken to one vnode and given back to another. -/
theorem vfsClose_unchanged_iff (vn w : ℕ) : FileState.vnRefs (FileState.vfsClose w
    { s with vnRefs := Function.update s.vnRefs vn (s.vnRefs vn + 1) }) = s.vnRefs ↔ w = vn := by
  show Function.update (Function.update s.vnRefs vn (s.vnRefs vn + 1)) w
    (Function.update s.vnRefs vn (s.vnRefs vn + 1) w - 1) = _ ↔ _
  constructor
  · intro h
    by_contra hne
    have := congrFun h vn
    rw [Function.update_of_ne (Ne.symm hne), Function.update_self] at this
    omega
  · rintro rfl
    rw [Function.update_self, Function.update_idem, Int.add_sub_cancel, Function.update_eq_self]

/-- The state after `open` or `open2` made the `File` `f` at `a` for slot `fd`. -/
def FileState.installed (p : P) (fd a : ℕ) (f : File) (s : FileState P) : FileState P :=
  { s with
    files := Function.update s.files a (some f)
    fileTable := Function.update s.fileTable p (Function.update (s.fileTable p) fd (some a))
    kheap := Function.update s.kheap a true
    locks := Function.update s.locks f.flock true
    vnRefs := Function.update s.vnRefs f.vPtr (s.vnRefs f.vPtr + 1) }

/-- `open` that gets all it asks for. -/
theorem openFile_installed (p : P) (flags : UInt32) (d : ℕ) (s : FileState P) {a vn lk : ℕ} {stale : File}
    (hfile : env.file = some (a, stale)) (hv : env.vfsOpen = .ok vn) (hl : env.flock = some lk) :
    openFile p env flags d s = .ok () (s.installed p d a ⟨vn, flags, 1, lk, 0⟩) := by
  unfold openFile FileState.installed
  simp [hfile, hv, hl, FileState.setFile, FileState.setSlot]

/-- A call that fails early. -/
theorem sysOpen_early (flags : UInt32) (hf : env.Fresh s) (h : env.FailsEarly p s) :
    ∃ e t, sysOpen p env flags s = .fail e t ∧ s.Unchanged t := by
  by_cases hnull : env.filenameNull = true
  · exact ⟨.efault, s, by simp [sysOpen, hnull], .refl s⟩
  rcases hpath : env.kfilename with _ | k
  · exact ⟨.enfile, s, by simp [sysOpen, hnull, hpath], .refl s⟩
  have hk := hf.path k hpath
  rw [Bool.not_eq_true] at hnull
  rcases hc : env.copyinstr with e | _
  · refine ⟨e, (s.mark k true).mark k false, ?_, .path hk (.refl _)⟩
    simp only [sysOpen, hnull, hpath, hc]
    rfl
  rcases hslot : freeSlot (s.fileTable p) with _ | d
  · refine ⟨.emfile, (s.mark k true).mark k false, ?_, .path hk (.refl _)⟩
    simp only [sysOpen, hnull, hpath, hc, Bool.false_eq_true, if_false]
    rw [Prog.modify_bind, Prog.get_bind]
    simp only [hslot]
    rfl
  rw [sysOpen_at hnull hpath hc hslot]
  by_cases hlim : maxSystemOpenFiles ≤ s.numOpenFiles
  · exact ⟨.enfile, _, if_pos hlim, .path hk (.refl _)⟩
  rw [if_neg hlim]
  have hrest : env.file = none ∨ ∃ e, env.vfsOpen = .error e := by
    simpa [OpenEnv.FailsEarly, hnull, hpath, hc, hslot, hlim] using h
  have hfresh : ∀ a stale, env.file = some (a, stale) → (s.mark k true).kheap a = false := fun a stale ha => by
    have hne : a ≠ k := fun hak => (hf.file a stale ha).2 (hak ▸ hpath)
    exact (Function.update_of_ne hne _ _).trans (hf.file a stale ha).1
  obtain ⟨e, t, ho, ht⟩ := openFile_early d hfresh hrest
  exact ⟨e, t.mark k false, by rw [ho], .path hk ht⟩

omit [DecidableEq P] in
/-- A call that gets as far as `lock_create`. -/
theorem OpenEnv.late (h : ¬ env.FailsEarly p s) : env.filenameNull = false ∧ env.copyinstr = .ok () ∧
    ¬ maxSystemOpenFiles ≤ s.numOpenFiles ∧ ∃ k d a stale vn, env.kfilename = some k ∧
      freeSlot (s.fileTable p) = some d ∧ env.file = some (a, stale) ∧ env.vfsOpen = .ok vn := by
  simp only [OpenEnv.FailsEarly, not_or, not_exists, Bool.not_eq_true] at h
  obtain ⟨hnull, hpath, hc, hslot, hlim, hfile, hv⟩ := h
  obtain ⟨k, hpath⟩ := Option.ne_none_iff_exists'.mp hpath
  obtain ⟨d, hslot⟩ := Option.ne_none_iff_exists'.mp hslot
  obtain ⟨⟨a, stale⟩, hfile⟩ := Option.ne_none_iff_exists'.mp hfile
  rcases hvn : env.vfsOpen with e | vn
  · exact absurd hvn (hv e)
  rcases hcopy : env.copyinstr with e | _
  · exact absurd hcopy (hc e)
  exact ⟨hnull, rfl, hlim, k, d, a, stale, vn, hpath, hslot, hfile, rfl⟩

/-- A call that gets no lock gives back the vnode if `v_ptr` happened to be it. -/
theorem sysOpen_no_lock (flags : UInt32) (hf : env.Fresh s) (h : ¬ env.FailsEarly p s) (hl : env.flock = none) :
    ∃ t, sysOpen p env flags s = .fail .enfile t ∧ (s.Unchanged t ↔ env.StaleVnode) := by
  obtain ⟨hnull, hcopy, hlim, k, d, a, stale, vn, hpath, hslot, hfile, hv⟩ := OpenEnv.late h
  obtain ⟨ha, hne⟩ := hf.file a stale hfile
  have hak : a ≠ k := fun h => hne (h ▸ hpath)
  obtain ⟨t, ho, htable, hnum, hheap, hlocks, hrefs⟩ := openFile_no_lock p flags d (s := s.mark k true) hfile hv hl
    ((Function.update_of_ne hak _ _).trans ha)
  have hstale := vfsClose_unchanged_iff (s := s.mark k true) vn stale.vPtr
  rw [← hrefs] at hstale
  refine ⟨t.mark k false, by rw [sysOpen_at hnull hpath hcopy hslot, if_neg hlim, ho], ?_, ?_⟩
  · intro h
    refine ⟨hl, fun a' stale' vn' hfile' hv' => ?_⟩
    obtain ⟨-, rfl⟩ := Prod.mk.inj (Option.some.inj (hfile.symm.trans hfile'))
    obtain rfl := Except.ok.inj (hv.symm.trans hv')
    exact hstale.mp h.vnRefs
  · intro h
    exact .path (hf.path k hpath) ⟨htable, hnum, hstale.mpr (h.2 a stale vn hfile hv), hheap, hlocks⟩

/-- A call that gets all it asks for: the path buffer stays in use. -/
theorem sysOpen_installed (flags : UInt32) (h : ¬ env.FailsEarly p s) {lk : ℕ} (hl : env.flock = some lk) :
    ∃ k d a stale vn, env.kfilename = some k ∧ freeSlot (s.fileTable p) = some d ∧ env.file = some (a, stale) ∧
      sysOpen p env flags s = .ok (d : ℤ) { (s.mark k true).installed p d a ⟨vn, flags, 1, lk, 0⟩ with
        numOpenFiles := s.numOpenFiles + 1 } := by
  obtain ⟨hnull, hcopy, hlim, k, d, a, stale, vn, hpath, hslot, hfile, hv⟩ := OpenEnv.late h
  refine ⟨k, d, a, stale, vn, hpath, hslot, hfile, ?_⟩
  rw [sysOpen_at hnull hpath hcopy hslot, if_neg hlim, openFile_installed p flags d (s.mark k true) hfile hv hl]
  rfl

/-- **When `sys_open` is atomic.** -/
theorem sysOpen_atomic_iff (p : P) (env : OpenEnv) (flags : UInt32) (s : FileState P) (hf : env.Fresh s) :
    OpenAtomic p env flags s ↔ env.FailsEarly p s ∨ env.StaleVnode := by
  unfold OpenAtomic
  by_cases hearly : env.FailsEarly p s
  · obtain ⟨e, t, ho, ht⟩ := sysOpen_early flags hf hearly
    rw [ho]
    exact ⟨fun _ => Or.inl hearly, fun _ => ht⟩
  rw [or_iff_right hearly]
  rcases hl : env.flock with _ | lk
  · -- the only way out that is not clean
    obtain ⟨t, ho, hiff⟩ := sysOpen_no_lock flags hf hearly hl
    rw [ho]
    exact hiff
  · obtain ⟨k, d, a, stale, vn, hpath, -, hfile, ho⟩ := sysOpen_installed flags hearly hl
    rw [ho]
    constructor
    · -- the path buffer is still in use
      intro h
      obtain ⟨b, f, -, -, -, -, htable, hheap, -⟩ := h.file
      have hb : a = b := by
        have := congrFun (congrFun htable p) d
        simpa [FileState.installed, FileState.mark] using this
      subst hb
      have hak : k ≠ a := fun h => (hf.file a stale hfile).2 (h ▸ hpath)
      have := congrFun hheap k
      rw [Function.update_of_ne hak, hf.path k hpath] at this
      simp [FileState.installed, FileState.mark, Function.update_of_ne hak] at this
    · intro h
      rw [h.1] at hl
      cases hl

/-- No process has a file open, and nothing is allocated. -/
def nothingOpen : FileState Unit where
  files := fun _ => none
  fileTable := fun _ _ => none
  par := fun _ => none
  numOpenFiles := 0
  kheap := fun _ => false
  locks := fun _ => false
  vnRefs := fun _ => 0

/-- The call gets a path buffer, a block, vnode 7 and, if asked for, a lock. -/
def openVnode (flock : Option ℕ) (vPtr : ℕ) : OpenEnv :=
  ⟨false, some 0, .ok (), some (1, ⟨vPtr, 0, 0, 0, 0⟩), .ok 7, flock⟩

theorem openVnode_fresh (flock : Option ℕ) (vPtr : ℕ) : (openVnode flock vPtr).Fresh nothingOpen := by
  refine ⟨fun _ _ => rfl, fun a stale h => ⟨rfl, fun h' => ?_⟩⟩
  obtain ⟨rfl, -⟩ := Prod.mk.inj (Option.some.inj h)
  exact absurd (Option.some.inj h') (by decide)

/-- **A call that succeeds** is not atomic: the path buffer is left over. -/
theorem sysOpen_leaks : ¬ OpenAtomic () (openVnode (some 0) 0) 0 nothingOpen ∧
    ∃ t, sysOpen () (openVnode (some 0) 0) 0 nothingOpen = .ok 3 t ∧ t.kheap 0 = true := by
  refine ⟨fun h => ?_, _, rfl, rfl⟩
  obtain ⟨a, f, -, hf, -, -, -, hheap, -⟩ := h.file
  have h0 : a = 0 := by
    by_contra hne
    have := congrFun hheap 0
    rw [Function.update_of_ne (Ne.symm hne)] at this
    exact absurd this (by decide)
  subst h0
  exact Option.some_ne_none f (show (none : Option File) = some f from hf).symm

theorem sysOpen_atomic_iff_no_lock :
    (openVnode none 7).Fresh nothingOpen ∧ OpenAtomic () (openVnode none 7) 0 nothingOpen := by
  refine ⟨openVnode_fresh none 7, ?_⟩
  rw [sysOpen_atomic_iff () (openVnode none 7) 0 nothingOpen (openVnode_fresh none 7)]
  refine Or.inr ⟨rfl, fun a stale vn hfile hv => ?_⟩
  obtain ⟨-, rfl⟩ := Prod.mk.inj (Option.some.inj hfile)
  exact Except.ok.inj hv

end Os161
