/-
# Which descriptors the file calls accept

Each of the calls that takes a descriptor has a test of its own for it. That
of `sys_lseek` lets one more value pass, 16, and reads the word behind the
table (`lseekFd`). `UniformFd p fd`: whatever call `fd` is given to, the call
does not depend on what is behind the table, it returns `EBADF` with nothing
changed if `fd` is not a descriptor of `p`, and does not if it is one. For the
second argument of `sys_dup2` a descriptor is any slot of the table, for all
others an open one.

`uniformFd_iff`: that is so for every value but 16.
-/
import Os161.Lib.Commute
import Os161.Lib.Wlp
import Os161.Syscall.OpenLimit

namespace Os161

variable {P : Type}

/-- The same files with the words `w` behind the tables. -/
def FileState.withBehind (w : P → ℕ → Option ℕ) (s : FileState P) : FileState P :=
  { s with
    fileTable := fun p fd => if fd < maxProcessOpenFiles then s.fileTable p fd else w p fd
    par := fun p => w p maxProcessOpenFiles }

/-- A call that is given a descriptor, with its other arguments. `dup2From` is
`sys_dup2` with the descriptor as `oldfd`, `dup2To` with it as `newfd`. -/
inductive FdCall
  | close
  | read (vop : Except Errno Int64)
  | write (vop : Except Errno Int64)
  | lseek (pos : Int64) (env : LseekEnv)
  | dup2From (newfd : ℤ)
  | dup2To (oldfd : ℤ)

namespace FdCall

/-- The call. -/
def call (p : P) (fd : ℤ) : FdCall → Call P
  | .close => .close p fd
  | .read vop => .read p fd vop
  | .write vop => .write p fd vop
  | .lseek pos env => .lseek p fd pos env
  | .dup2From newfd => .dup2 p fd newfd
  | .dup2To oldfd => .dup2 p oldfd fd

/-- `fd` is a slot of the table. -/
def InTable (fd : ℤ) : Prop := 0 ≤ fd ∧ fd < maxProcessOpenFiles

/-- `fd` is a descriptor that the call should accept. -/
def Valid (s : FileState P) (p : P) (fd : ℤ) : FdCall → Prop
  | .dup2To _ => InTable fd
  | _ => s.ValidFd p fd

/-- Nothing but the descriptor makes the call return `EBADF`: the mode of the
file allows the transfer, the vnode operations return another code, and the
other descriptor is right. -/
def Willing (s : FileState P) (p : P) (fd : ℤ) : FdCall → Prop
  | .close => True
  | .read vop => vop ≠ .error .ebadf ∧
      ∀ a f, s.fileTable p fd.toNat = some a → s.files a = some f → f.openFlags &&& oAccmode ≠ oWronly
  | .write vop => vop ≠ .error .ebadf ∧
      ∀ a f, s.fileTable p fd.toNat = some a → s.files a = some f → f.openFlags &&& oAccmode ≠ oRdonly
  | .lseek _ env => env.stat ≠ .error .ebadf ∧ env.whence ≠ .error .ebadf
  | .dup2From newfd => InTable newfd
  | .dup2To oldfd => s.ValidFd p oldfd

end FdCall

/-- Every call treats `fd` alike. -/
structure UniformFd [DecidableEq P] (p : P) (fd : ℤ) : Prop where
  inside : ∀ (c : FdCall) (w : P → ℕ → Option ℕ), Prog.Commutes (FileState.withBehind w) (c.call p fd).run
  refused : ∀ (c : FdCall) (s : FileState P), ¬ c.Valid s p fd → (c.call p fd).run s = .fail .ebadf s
  accepted : ∀ (c : FdCall) (s t : FileState P), c.Valid s p fd → c.Willing s p fd → (c.call p fd).run s ≠ .fail .ebadf t

/-! ### The tests -/

section Tests

variable {s : FileState P} {p : P} {fd : ℤ} {w : P → ℕ → Option ℕ}

/-- What the test refuses, -/
theorem lookupFd_refused (h : ¬ s.ValidFd p fd) : lookupFd p fd s = .fail .ebadf s := by
  unfold lookupFd
  split_ifs with hr
  · rfl
  · cases ht : s.fileTable p fd.toNat with
    | none => rfl
    | some a => exact absurd ⟨by omega, by omega, by simp [ht]⟩ h

/-- and what it accepts. -/
theorem lookupFd_accepted (h : s.ValidFd p fd) : ∃ a, s.fileTable p fd.toNat = some a ∧ lookupFd p fd s = .ok a s := by
  obtain ⟨h0, hlt, hne⟩ := h
  obtain ⟨a, ha⟩ := Option.ne_none_iff_exists'.mp hne
  have hr : ¬ (fd < 0 ∨ (maxProcessOpenFiles : ℤ) ≤ fd) := by omega
  refine ⟨a, ha, ?_⟩
  unfold lookupFd
  rw [if_neg hr, ha]

theorem withBehind_slot {k : ℕ} (h : k < maxProcessOpenFiles) : (s.withBehind w).fileTable p k = s.fileTable p k :=
  if_pos h

theorem lookupFd_commutes (p : P) (fd : ℤ) : Prog.Commutes (FileState.withBehind w) (lookupFd p fd) := by
  intro s
  unfold lookupFd
  split_ifs with hr
  · rfl
  · have hk : fd.toNat < maxProcessOpenFiles := by omega
    rw [withBehind_slot hk]
    cases s.fileTable p fd.toNat with
    | none => rfl
    | some a => rfl

/-- The test of `sys_lseek` is the same but for one value. -/
theorem lseekFd_eq (h : fd ≠ maxProcessOpenFiles) : lseekFd (P := P) p fd = lookupFd p fd := by
  funext s
  unfold lseekFd lookupFd
  have hiff : (fd < 0 ∨ (maxProcessOpenFiles : ℤ) < fd) ↔ (fd < 0 ∨ (maxProcessOpenFiles : ℤ) ≤ fd) := by omega
  simp only [hiff, if_neg h]

theorem derefFile_commutes (a : ℕ) : Prog.Commutes (FileState.withBehind w) (derefFile (P := P) a) := by
  intro s
  unfold derefFile
  rw [show (s.withBehind w).files a = s.files a from rfl]
  cases s.files a with
  | none => rfl
  | some f => rfl

theorem setFile_commutes (a : ℕ) (f : Option File) :
    Prog.Commutes (FileState.withBehind w) (Prog.modify (FileState.setFile a f) : Prog Errno (FileState P) Unit) :=
  .modify fun _ => rfl

theorem setSlot_commutes [DecidableEq P] (p : P) {k : ℕ} (hk : k < maxProcessOpenFiles) (a : Option ℕ) :
    Prog.Commutes (FileState.withBehind w) (Prog.modify (FileState.setSlot p k a) : Prog Errno (FileState P) Unit) := by
  refine .modify fun s => ?_
  unfold FileState.setSlot FileState.withBehind
  simp only [FileState.mk.injEq, true_and, and_true]
  funext q j
  by_cases hq : q = p
  · subst hq
    by_cases hj : j = k
    · subst hj
      simp [hk]
    · simp [hj]
  · simp [hq]

end Tests

/-! ### The calls -/

section Calls

variable {s : FileState P} {p : P} {fd : ℤ} {w : P → ℕ → Option ℕ}

theorem transfer_commutes (m : UInt32) (p : P) (fd : ℤ) (vop : Except Errno Int64) :
    Prog.Commutes (FileState.withBehind w) (transfer m p fd vop) := by
  unfold transfer
  refine .bind (lookupFd_commutes p fd) fun a => .bind (derefFile_commutes a) fun f => .ite _ (fun _ => .fail _) fun _ => ?_
  cases vop with
  | error e => exact .fail e
  | ok o => exact .bind (setFile_commutes _ _) fun _ => .pure _

theorem seekTo_commutes (a : ℕ) (f : File) (o : Int64) :
    Prog.Commutes (FileState.withBehind w) (seekTo (P := P) a f o) := by
  unfold seekTo
  exact .ite _ (fun _ => .fail _) fun _ => .bind (setFile_commutes _ _) fun _ => .pure _

theorem sysLseek_commutes (p : P) (h : fd ≠ maxProcessOpenFiles) (pos : Int64) (env : LseekEnv) :
    Prog.Commutes (FileState.withBehind w) (sysLseek p fd pos env) := by
  unfold sysLseek
  rw [lseekFd_eq h]
  refine .bind (lookupFd_commutes p fd) fun a => .bind (derefFile_commutes a) fun f => .ite _ (fun _ => .fail _) fun _ => ?_
  cases env.stat with
  | error e => exact .fail e
  | ok size =>
    cases env.whence with
    | error e => exact .fail e
    | ok whence =>
      exact .ite _ (fun _ => seekTo_commutes _ _ _) fun _ => .ite _ (fun _ => seekTo_commutes _ _ _) fun _ =>
        .ite _ (fun _ => seekTo_commutes _ _ _) fun _ => .fail _

/-- A transfer on an open descriptor, the mode and the vnode operation allowing it. -/
theorem transfer_accepted {m : UInt32} {vop : Except Errno Int64} {t : FileState P} (hv : s.ValidFd p fd)
    (hvop : vop ≠ .error .ebadf)
    (hmode : ∀ a f, s.fileTable p fd.toNat = some a → s.files a = some f → f.openFlags &&& oAccmode ≠ m) :
    transfer m p fd vop s ≠ .fail .ebadf t := by
  obtain ⟨a, ha, hl⟩ := lookupFd_accepted hv
  unfold transfer
  rw [Prog.bind_of_ok hl]
  intro h
  obtain h | ⟨f, _, hd, h⟩ := Prog.bind_eq_fail.mp h
  · exact derefFile_ne_fail h
  obtain ⟨hf, rfl⟩ := derefFile_eq_ok.mp hd
  rw [if_neg (hmode a f ha hf)] at h
  cases vop with
  | error e =>
    cases h
    exact hvop rfl
  | ok o => cases h

theorem seekTo_ne_ebadf {a : ℕ} {f : File} {o : Int64} {t : FileState P} : seekTo a f o s ≠ .fail .ebadf t := by
  unfold seekTo
  rw [Prog.ite_run]
  split_ifs <;> exact fun h => nomatch h

theorem sysLseek_accepted {pos : Int64} {env : LseekEnv} {t : FileState P} (h : fd ≠ maxProcessOpenFiles)
    (hv : s.ValidFd p fd) (hstat : env.stat ≠ .error .ebadf) (hwhence : env.whence ≠ .error .ebadf) :
    sysLseek p fd pos env s ≠ .fail .ebadf t := by
  obtain ⟨a, ha, hl⟩ := lookupFd_accepted hv
  rw [← lseekFd_eq h] at hl
  unfold sysLseek
  rw [Prog.bind_of_ok hl]
  intro h
  obtain h | ⟨f, _, hd, h⟩ := Prog.bind_eq_fail.mp h
  · exact derefFile_ne_fail h
  obtain ⟨hf, rfl⟩ := derefFile_eq_ok.mp hd
  split_ifs at h
  · cases h
  cases hst : env.stat with
  | error e =>
    rw [hst] at h
    cases h
    exact hstat hst
  | ok size =>
    cases hwh : env.whence with
    | error e =>
      rw [hst, hwh] at h
      cases h
      exact hwhence hwh
    | ok whence =>
      simp only [hst, hwh] at h
      split_ifs at h
      · exact seekTo_ne_ebadf h
      · exact seekTo_ne_ebadf h
      · exact seekTo_ne_ebadf h
      · cases h

variable [DecidableEq P]

theorem closeFile_refused (h : ¬ s.ValidFd p fd) : closeFile p fd s = .fail .ebadf s :=
  Prog.bind_of_fail (lookupFd_refused h) _

theorem closeFile_commutes (p : P) (fd : ℤ) : Prog.Commutes (FileState.withBehind w) (closeFile p fd) := by
  by_cases hin : FdCall.InTable fd
  · have hk : fd.toNat < maxProcessOpenFiles := by
      obtain ⟨h0, hlt⟩ := hin
      omega
    unfold closeFile
    refine .bind (lookupFd_commutes p fd) fun a => .bind (derefFile_commutes a) fun f => .bind (setSlot_commutes p hk _) fun _ =>
      .bind (setFile_commutes _ _) fun _ => .bind (.modify fun s => ?_) fun _ => .modify fun _ => rfl
    split_ifs <;> rfl
  · intro s
    have hnot : ∀ t : FileState P, ¬ t.ValidFd p fd := fun t ht => hin ⟨ht.1, ht.2.1⟩
    rw [closeFile_refused (hnot _), closeFile_refused (hnot _)]
    rfl

theorem sysDup2_commutes (p : P) (oldfd newfd : ℤ) :
    Prog.Commutes (FileState.withBehind w) (sysDup2 p oldfd newfd) := by
  unfold sysDup2
  refine .ite _ (fun _ => .fail _) fun hin => .bind (lookupFd_commutes p oldfd) fun a => .ite _ (fun _ => .pure _) fun _ =>
    .get_bind fun s => ?_
  have hk : newfd.toNat < maxProcessOpenFiles := by omega
  rw [withBehind_slot hk]
  refine Prog.Commutes.bind (.ite _ (fun _ => closeFile_commutes p newfd) fun _ => .pure _) (fun _ => ?_) s
  exact .bind (setSlot_commutes p hk _) fun _ => .bind (derefFile_commutes a) fun f => setFile_commutes _ _

theorem sysDup2_refused {oldfd newfd : ℤ} (h : ¬ (s.ValidFd p oldfd ∧ FdCall.InTable newfd)) :
    sysDup2 p oldfd newfd s = .fail .ebadf s := by
  unfold sysDup2
  rw [Prog.ite_run]
  by_cases hin : newfd < 0 ∨ (maxProcessOpenFiles : ℤ) ≤ newfd
  · rw [if_pos hin]
    rfl
  · have hnew : FdCall.InTable newfd := ⟨by omega, by omega⟩
    rw [if_neg hin]
    exact Prog.bind_of_fail (lookupFd_refused fun hold => h ⟨hold, hnew⟩) _

end Calls

/-! ### All of them -/

section Uniform

variable [DecidableEq P] {s : FileState P} {p : P} {fd : ℤ}

theorem FdCall.commutes (c : FdCall) (p : P) (h : fd ≠ maxProcessOpenFiles) (w : P → ℕ → Option ℕ) :
    Prog.Commutes (FileState.withBehind w) (c.call p fd).run := by
  cases c with
  | close => exact .bind (closeFile_commutes p fd) fun _ => .pure _
  | read vop => exact transfer_commutes _ p fd vop
  | write vop => exact transfer_commutes _ p fd vop
  | lseek pos env => exact sysLseek_commutes p h pos env
  | dup2From newfd => exact .bind (sysDup2_commutes p fd newfd) fun _ => .pure _
  | dup2To oldfd => exact .bind (sysDup2_commutes p oldfd fd) fun _ => .pure _

theorem FdCall.run_refused (c : FdCall) (h : fd ≠ maxProcessOpenFiles) (hv : ¬ c.Valid s p fd) :
    (c.call p fd).run s = .fail .ebadf s := by
  cases c with
  | close => exact Prog.bind_of_fail (closeFile_refused hv) _
  | read vop => exact Prog.bind_of_fail (lookupFd_refused hv) _
  | write vop => exact Prog.bind_of_fail (lookupFd_refused hv) _
  | lseek pos env =>
    have hl : lseekFd p fd s = .fail .ebadf s := by
      rw [lseekFd_eq h]
      exact lookupFd_refused hv
    exact Prog.bind_of_fail hl _
  | dup2From newfd => exact Prog.bind_of_fail (sysDup2_refused fun hc => hv hc.1) _
  | dup2To oldfd => exact Prog.bind_of_fail (sysDup2_refused fun hc => hv hc.2) _

theorem FdCall.run_accepted (c : FdCall) (h : fd ≠ maxProcessOpenFiles) (hv : c.Valid s p fd) (hw : c.Willing s p fd)
    (t : FileState P) : (c.call p fd).run s ≠ .fail .ebadf t := by
  cases c with
  | close =>
    intro hrun
    obtain hc | ⟨_, _, _, hc⟩ := Prog.bind_eq_fail.mp hrun
    · exact closeFile_fail_valid hc hv
    · cases hc
  | read vop => exact transfer_accepted hv hw.1 hw.2
  | write vop => exact transfer_accepted hv hw.1 hw.2
  | lseek pos env => exact sysLseek_accepted h hv hw.1 hw.2
  | dup2From newfd =>
    intro hrun
    obtain hc | ⟨_, _, _, hc⟩ := Prog.bind_eq_fail.mp hrun
    · exact sysDup2_fail_valid hc ⟨hv, hw.1, hw.2⟩
    · cases hc
  | dup2To oldfd =>
    intro hrun
    obtain hc | ⟨_, _, _, hc⟩ := Prog.bind_eq_fail.mp hrun
    · exact sysDup2_fail_valid hc ⟨hw, hv.1, hv.2⟩
    · cases hc

/-- No `File`, and null pointers everywhere. -/
def noFiles (P : Type) : FileState P where
  files := fun _ => none
  fileTable := fun _ _ => none
  par := fun _ => none
  numOpenFiles := 0
  kheap := fun _ => false
  locks := fun _ => false
  vnRefs := fun _ => 0

/-- **Every value but 16** is treated alike by all the calls. -/
theorem uniformFd_iff (p : P) (fd : ℤ) : UniformFd p fd ↔ fd ≠ maxProcessOpenFiles := by
  constructor
  · rintro h rfl
    -- `sys_lseek` follows the word behind the table if it is not null
    have hcomm := h.inside (.lseek 0 ⟨true, .ok 0, .ok 0⟩) (fun _ _ => some 0) (noFiles P)
    cases hcomm
  · intro h
    exact ⟨fun c w => c.commutes p h w, fun c s hv => c.run_refused h hv, fun c s t hv hw => c.run_accepted h hv hw t⟩

end Uniform

/-- A process with no open file, and a live `File` at the address that is in
the word behind its table. -/
def fileBehind : FileState Unit :=
  { noFiles Unit with
    files := Function.update (fun _ => none) 7 (some ⟨2, oRdonly, 1, 0, 0⟩)
    par := fun _ => some 7 }

/-- **The descriptor 16**: `sys_read` returns `EBADF`, `sys_lseek` returns the
position 5 and sets the offset of that `File`. -/
theorem lseek_behind : sysRead () 16 (.ok 0) fileBehind = .fail .ebadf fileBehind ∧
    ∃ t, sysLseek () 16 5 ⟨true, .ok 0, .ok 0⟩ fileBehind = .ok 5 t ∧ t.files 7 = some ⟨2, oRdonly, 1, 0, 5⟩ ∧
      ¬ UniformFd () (16 : ℤ) :=
  ⟨rfl, _, rfl, rfl, fun h =>
    nomatch h.refused (.lseek 5 ⟨true, .ok 0, .ok 0⟩) fileBehind fun hv => absurd hv.2.1 (by decide)⟩

end Os161
