/-
# Seeking

`sys_lseek` tests the sign of a 64-bit sum that may have wrapped. The test is
right because what is added to, the offset or the size, is not negative: then a
sum is negative in 64 bits exactly when it is out of range (`add_lt_zero_iff`).
That the offset is not negative is an invariant of the calls (`Offsets`):
`sys_lseek` keeps it by its test, `sys_read` and `sys_write` because no vnode
that can be sought takes the offset to `2 ^ 63` (`Os161/Vfs/Seekable.lean`).

`lseek_exact`: so in every history the call is exact.
-/
import Os161.Lib.Run
import Os161.Vfs.Seekable
import Os161.Syscall.Dispatch
import Os161.Syscall.Position

namespace Os161

/-! ### Sums of 64 bits -/

/-- A sum with a number that is not negative is negative only if it is out of
range, and is exact if not. -/
theorem toInt_add_of_range {x y : Int64} (h1 : 0 ≤ x.toInt + y.toInt) (h2 : x.toInt + y.toInt < 2 ^ 63) :
    (x + y).toInt = x.toInt + y.toInt := by
  rw [Int64.toInt_add, Int.bmod_def, Int.emod_eq_of_lt h1 (by norm_num; omega), if_pos (by norm_num; omega)]

theorem add_lt_zero_iff {x y : Int64} (hx : 0 ≤ x.toInt) :
    x + y < 0 ↔ ¬ (0 ≤ x.toInt + y.toInt ∧ x.toInt + y.toInt < 2 ^ 63) := by
  have hx2 := x.toInt_lt
  have hy1 := y.le_toInt
  have hy2 := y.toInt_lt
  rw [Int64.lt_iff_toInt_lt, Int64.toInt_zero, Int64.toInt_add, Int.bmod_def]
  push_cast
  split_ifs <;> omega

/-! ### The call -/

variable {P : Type}

/-- What `whence` adds to: nothing, the offset or the size. -/
def seekBase (f : File) (size : Int64) (whence : ℤ) : Option ℤ :=
  if whence = 0 then some 0
  else if whence = 1 then some f.offset.toInt
  else if whence = 2 then some size.toInt
  else none

/-- The call is exact: with the sum in range, the sum is the result and the
offset; otherwise the call returns `EINVAL` and changes nothing. -/
def LseekExact (s : FileState P) (p : P) (fd : ℤ) (a : ℕ) (f : File) (pos : Int64) (env : LseekEnv) (size : Int64)
    (whence : ℤ) : Prop :=
  (∀ base, seekBase f size whence = some base → 0 ≤ base + pos.toInt → base + pos.toInt < 2 ^ 63 →
    ∃ offset : Int64, offset.toInt = base + pos.toInt ∧
      sysLseek p fd pos env s = .ok (base + pos.toInt) (s.setFile a (some { f with offset }))) ∧
  ((∀ base, seekBase f size whence = some base → ¬ (0 ≤ base + pos.toInt ∧ base + pos.toInt < 2 ^ 63)) →
    sysLseek p fd pos env s = .fail .einval s)

/-- The offset of a file is never negative. -/
def Offsets (s : FileState P) : Prop := ∀ a f, s.files a = some f → 0 ≤ f.offset.toInt

theorem seekTo_exact {s : FileState P} {a : ℕ} {f : File} {base : Int64} (pos : Int64) (hb : 0 ≤ base.toInt) :
    (0 ≤ base.toInt + pos.toInt → base.toInt + pos.toInt < 2 ^ 63 → (base + pos).toInt = base.toInt + pos.toInt ∧
      seekTo a f (base + pos) s = .ok (base.toInt + pos.toInt) (s.setFile a (some { f with offset := base + pos }))) ∧
    (¬ (0 ≤ base.toInt + pos.toInt ∧ base.toInt + pos.toInt < 2 ^ 63) → seekTo a f (base + pos) s = .fail .einval s) := by
  refine ⟨fun h1 h2 => ?_, fun h => ?_⟩
  · have hto := toInt_add_of_range h1 h2
    have hneg : ¬ base + pos < 0 := fun hlt => (add_lt_zero_iff hb).mp hlt ⟨h1, h2⟩
    refine ⟨hto, ?_⟩
    unfold seekTo
    rw [if_neg hneg, ← hto]
    rfl
  · unfold seekTo
    rw [if_pos ((add_lt_zero_iff hb).mpr h)]
    rfl

/-- **`sys_lseek` is exact** where the offset and the size are not negative. -/
theorem sysLseek_exact {s : FileState P} {p : P} {fd : ℤ} {a : ℕ} {f : File} (h : s.Names p fd a f)
    (hf : 0 ≤ f.offset.toInt) {env : LseekEnv} (hseek : env.isseekable = true) {size : Int64} (hstat : env.stat = .ok size)
    (hsize : 0 ≤ size.toInt) {whence : ℤ} (hw : env.whence = .ok whence) (pos : Int64) :
    LseekExact s p fd a f pos env size whence := by
  have hlook : lseekFd p fd s = .ok a s := by
    have h1 := h.nonneg
    have h2 := h.lt
    have hne : fd ≠ maxProcessOpenFiles := by omega
    unfold lseekFd
    rw [if_neg (by omega), if_neg hne, h.slot]
  have hfile : derefFile a s = .ok f s := by
    unfold derefFile
    rw [h.file]
  have hcall : sysLseek p fd pos env s =
      (if whence = 0 then seekTo a f pos else if whence = 1 then seekTo a f (f.offset + pos)
        else if whence = 2 then seekTo a f (size + pos) else Prog.fail .einval) s := by
    unfold sysLseek
    rw [Prog.bind_of_ok hlook, Prog.bind_of_ok hfile, hseek, hstat, hw]
    rfl
  -- the three cases of the `switch` are one, with the base as a number of 64 bits
  have hcase : ∀ base : Int64, 0 ≤ base.toInt → seekBase f size whence = some base.toInt →
      sysLseek p fd pos env s = seekTo a f (base + pos) s → LseekExact s p fd a f pos env size whence := by
    intro base hb hbase hrun
    obtain ⟨hin, hout⟩ := seekTo_exact (s := s) (a := a) (f := f) pos hb
    refine ⟨fun base' hbase' h1 h2 => ?_, fun hno => ?_⟩
    · obtain rfl : base.toInt = base' := Option.some.inj (hbase.symm.trans hbase')
      obtain ⟨hto, hok⟩ := hin h1 h2
      exact ⟨base + pos, hto, hrun.trans hok⟩
    · exact hrun.trans (hout (hno _ hbase))
  by_cases h0 : whence = 0
  · refine hcase 0 le_rfl (if_pos h0) ?_
    rw [hcall, if_pos h0, Int64.zero_add]
  · by_cases h1 : whence = 1
    · refine hcase f.offset hf ?_ ?_
      · unfold seekBase
        rw [if_neg h0, if_pos h1]
      · rw [hcall, if_neg h0, if_pos h1]
    · by_cases h2 : whence = 2
      · refine hcase size hsize ?_ ?_
        · unfold seekBase
          rw [if_neg h0, if_neg h1, if_pos h2]
        · rw [hcall, if_neg h0, if_neg h1, if_pos h2]
      · have hnone : seekBase f size whence = none := by
          unfold seekBase
          rw [if_neg h0, if_neg h1, if_neg h2]
        refine ⟨fun base hbase => ?_, fun _ => ?_⟩
        · rw [hnone] at hbase
          cases hbase
        · rw [hcall, if_neg h0, if_neg h1, if_neg h2]
          rfl

/-! ### Histories -/

/-- A call of a history, or what else happens to the objects and the memory. -/
inductive SeekOp (P : Type)
  | lseek (p : P) (fd : ℤ) (pos : Int64) (env : LseekEnv)
  | read (p : P) (fd : ℤ) (buf size : ℕ)
  | write (p : P) (fd : ℤ) (buf size : ℕ)
  | other

/-- A call returned, with success or an error. -/
def Ended {ε σ α : Type} (r : Outcome ε σ α) (t : σ) : Prop := (∃ a, r = .ok a t) ∨ ∃ e, r = .fail e t

/-- The calls by any process on files whose vnodes are those of `kind`; sizes are
below `2 ^ 32`, both those of a transfer and those that `VOP_STAT` gives. -/
inductive SeekStep (kind : ℕ → SeekVnode) : CallState P SeekObjects → SeekOp P → CallState P SeekObjects → Prop
  | lseek {s : CallState P SeekObjects} {p : P} {fd : ℤ} {pos : Int64} {env : LseekEnv} {t : FileState P}
      (hsize : ∀ size, env.stat = .ok size → 0 ≤ size.toInt ∧ size.toInt < 2 ^ 32)
      (h : Ended (sysLseek p fd pos env s.files) t) : SeekStep kind s (.lseek p fd pos env) { s with files := t }
  | read {s t : CallState P SeekObjects} {p : P} {fd : ℤ} {buf size : ℕ} (hsize : size < 2 ^ 32)
      (h : Ended (sysReadVop (fun vn => (kind vn).read) p fd buf size s) t) : SeekStep kind s (.read p fd buf size) t
  | write {s t : CallState P SeekObjects} {p : P} {fd : ℤ} {buf size : ℕ} (hsize : size < 2 ^ 32)
      (h : Ended (sysWriteVop (fun vn => (kind vn).write) p fd buf size s) t) : SeekStep kind s (.write p fd buf size) t
  | other {s : CallState P SeekObjects} (object : SeekObjects) (mem : Buf) (mapped : ℕ → Bool) :
      SeekStep kind s .other { s with object, mem, mapped }

theorem Offsets.setFile {s : FileState P} {a : ℕ} {f : File} (h : Offsets s) (hf : 0 ≤ f.offset.toInt) :
    Offsets (s.setFile a (some f)) := by
  intro b g hb
  by_cases hba : b = a
  · subst hba
    obtain rfl : f = g := by simpa [FileState.setFile] using hb
    exact hf
  · exact h b g (by simpa [FileState.setFile, Function.update_of_ne hba] using hb)

/-- `sys_lseek` stores no negative offset. -/
theorem sysLseek_offsets {s t : FileState P} {p : P} {fd : ℤ} {pos : Int64} {env : LseekEnv} (h : Offsets s)
    (hrun : Ended (sysLseek p fd pos env s) t) : Offsets t := by
  have hseek : ∀ {a : ℕ} {f : File} {o : Int64} {n : ℤ}, seekTo a f o s = .ok n t → Offsets t := by
    intro a f o n hok
    unfold seekTo at hok
    by_cases ho : o < 0
    · rw [if_pos ho] at hok
      cases hok
    · rw [if_neg ho] at hok
      cases hok
      refine h.setFile ?_
      rw [Int64.lt_iff_toInt_lt, Int64.toInt_zero] at ho
      exact Int.not_lt.mp ho
  rcases hrun with ⟨n, hok⟩ | ⟨e, hfail⟩
  · unfold sysLseek at hok
    simp only [Prog.bind_eq_ok, derefFile_eq_ok] at hok
    obtain ⟨a, s1, hl, f, _, ⟨hf, rfl⟩, hok⟩ := hok
    obtain rfl := lseekFd_ok hl
    split_ifs at hok
    · cases hok
    · cases hs : env.stat with
      | error e =>
        rw [hs] at hok
        cases hok
      | ok size =>
        cases hw : env.whence with
        | error e =>
          rw [hs, hw] at hok
          cases hok
        | ok whence =>
          rw [hs, hw] at hok
          dsimp only at hok
          split_ifs at hok
          · exact hseek hok
          · exact hseek hok
          · exact hseek hok
          · cases hok
  · obtain rfl := sysLseek_fail hfail
    exact h

/-- `sys_read` and `sys_write` store no negative offset. -/
theorem sysTransfer_offsets {s : CallState P SeekObjects} {refused : UInt32} {rw : UioRw}
    {vop : ℕ → Prog Errno (SeekObjects × Uio) Unit} {p : P} {fd : ℤ} {buf size : ℕ} (hs : Offsets s.files)
    (hsize : size < 2 ^ 32) (hvop : ∀ vn o u, u.Holds →
      Prog.wlp True (vop vn) (fun _ y => y.2.uioOffset < 2 ^ 63) (fun _ _ => True) (o, u)) :
    Prog.wlp True (sysTransfer refused rw vop p fd buf size) (fun _ t => Offsets t.files) (fun _ t => Offsets t.files) s := by
  unfold sysTransfer onFiles callVop
  simp only [Prog.wlp_bind, Prog.wlp_zoom, Prog.wlp_ite, Prog.wlp_fail, Prog.wlp_modify, Prog.wlp_pure, Prog.wlp_gets]
  have hlook : Prog.wlp True (lookupFd p fd) (fun _ t => t = s.files) (fun _ t => t = s.files) s.files := by
    unfold Prog.wlp
    cases h : lookupFd p fd s.files with
    | ok a t => exact (lookupFd_ok h).1.symm
    | fail e t => exact lookupFd_fail h
    | stop => trivial
  refine Prog.wlp_mono hlook (fun a t ht => ?_) fun e t ht => ht ▸ hs
  subst ht
  have hfile : Prog.wlp True (derefFile a) (fun f t => t = s.files ∧ s.files.files a = some f) (fun _ t => t = s.files)
      s.files := by
    unfold Prog.wlp
    cases h : derefFile a s.files with
    | ok f t => exact ⟨(derefFile_eq_ok.mp h).2.symm, (derefFile_eq_ok.mp h).1⟩
    | fail e t => exact absurd h derefFile_ne_fail
    | stop => trivial
  refine Prog.wlp_mono hfile (fun f t ht => ?_) fun e t ht => ht ▸ hs
  obtain ⟨rfl, hf⟩ := ht
  refine ⟨fun _ => hs, fun _ => ?_⟩
  have hoff := hs a f hf
  have hlt := f.offset.toInt_lt
  have hholds : (s.uio f buf size rw).Holds := by
    refine ⟨⟨⟨buf, size⟩, rfl, le_rfl, hsize⟩, ?_⟩
    show f.offset.toInt.toNat < 2 ^ 63
    omega
  refine Prog.wlp_mono (hvop f.vPtr s.object _ hholds) (fun _ y hy => ?_) fun _ _ _ => hs
  refine hs.setFile ?_
  show 0 ≤ (Int64.ofNat y.2.uioOffset).toInt
  rw [Int64.toInt_ofNat_of_lt hy]
  exact Int.natCast_nonneg _

theorem Ended.of_wlp {ε σ α : Type} {m : Prog ε σ α} {I : σ → Prop} {s t : σ}
    (hm : Prog.wlp True m (fun _ => I) (fun _ => I) s) (h : Ended (m s) t) : I t := by
  rcases h with ⟨a, h⟩ | ⟨e, h⟩
  · exact (Prog.wlp_ok h).mp hm
  · exact (Prog.wlp_fail_run h).mp hm

theorem seek_step {kind : ℕ → SeekVnode} (hkind : ∀ vn, (kind vn).isseekable = true) {s t : CallState P SeekObjects}
    {op : SeekOp P} (h : Offsets s.files) (hs : SeekStep kind s op t) : Offsets t.files := by
  cases hs with
  | lseek _ hrun => exact sysLseek_offsets h hrun
  | read hsize hrun =>
    exact hrun.of_wlp (I := fun t => Offsets t.files)
      (sysTransfer_offsets h hsize fun vn o u hu => SeekVnode.read_offset (hkind vn) hu o)
  | write hsize hrun =>
    exact hrun.of_wlp (I := fun t => Offsets t.files)
      (sysTransfer_offsets h hsize fun vn o u hu => SeekVnode.write_offset (hkind vn) hu o)
  | other o mem mapped => exact h

/-- **Seeking is exact**: over every history of the calls on files that can be
sought, no offset is negative, and the next `sys_lseek` succeeds exactly when
the sum is in range, with the sum as result and offset. -/
theorem lseek_exact {kind : ℕ → SeekVnode} (hkind : ∀ vn, (kind vn).isseekable = true) {s t : CallState P SeekObjects}
    {ops : List (SeekOp P)} (h0 : Offsets s.files) (h : Run (SeekStep kind) s ops t) :
    Offsets t.files ∧ ∀ p fd a f pos env size whence, t.files.Names p fd a f →
      env.isseekable = (kind f.vPtr).isseekable → env.stat = .ok size → 0 ≤ size.toInt → size.toInt < 2 ^ 32 →
      env.whence = .ok whence → LseekExact t.files p fd a f pos env size whence := by
  have hoff : Offsets t.files := h.invariant (I := fun t => Offsets t.files) h0 fun _ _ _ => seek_step hkind
  refine ⟨hoff, fun p fd a f pos env size whence hn hseek hstat hsize _ hw => ?_⟩
  exact sysLseek_exact hn (hoff a f hn.file) (hseek.trans (hkind _)) hstat hsize hw pos

/-- A disk of eight sectors open as descriptor 3. -/
def diskOpen : CallState Unit SeekObjects where
  files := oneFile
  object :=
    { volumes := fun _ => fullFs 0
      emus := fun _ => ⟨0, 0, 0, fun _ => 0, fun _ => ⟨.success, 0, 0, fun _ => 0⟩⟩
      disks := fun _ => ⟨8, fun _ => 0, fun _ => Block.zeros, fun _ => .ok⟩ }
  mem := fun _ => 0
  mapped := fun _ => true

/-- A seek to the second sector, and the sector read. -/
theorem lseek_exact_disk : ∃ t, Run (SeekStep fun _ => .device 0 8) diskOpen
      [.lseek () 3 512 ⟨true, .ok 4096, .ok 0⟩, .read () 3 0x1000 512] t ∧
    Offsets t.files ∧ (t.files.files 100).map File.offset = some 1024 := by
  have hseek : Prog.value (sysLseek () 3 512 ⟨true, .ok 4096, .ok 0⟩) diskOpen.files = some 512 := by decide
  obtain ⟨t1, h1⟩ := Prog.value_eq_some.mp hseek
  have hread : Prog.value (do
      let _ ← onFiles (sysLseek () 3 512 ⟨true, .ok 4096, .ok 0⟩)
      let n ← sysReadVop (fun _ => (SeekVnode.device 0 8).read) () 3 0x1000 512
      let o ← Prog.gets fun s => (s.files.files 100).map File.offset
      pure (n, o)) diskOpen = some (512, some 1024) := by
    decide +kernel
  obtain ⟨t, ht⟩ := Prog.value_eq_some.mp hread
  simp only [Prog.bind_eq_ok, Prog.pure_run] at ht
  obtain ⟨_, s1, hs1, n, s2, hs2, o, s3, hs3, he⟩ := ht
  have hzoom : (onFiles (sysLseek () 3 512 ⟨true, .ok 4096, .ok 0⟩) : Prog Errno (CallState Unit SeekObjects) ℤ) diskOpen =
      .ok 512 { diskOpen with files := t1 } := Prog.zoom_of_ok h1
  rw [hzoom] at hs1
  cases hs1
  cases he
  injection hs3 with hoffset _
  have hsize : ∀ size, (Except.ok 4096 : Except Errno Int64) = .ok size → 0 ≤ size.toInt ∧ size.toInt < 2 ^ 32 := by
    intro size hs
    cases hs
    decide
  have e1 : SeekStep (fun _ => .device 0 8) diskOpen (.lseek () 3 512 ⟨true, .ok 4096, .ok 0⟩) _ :=
    .lseek hsize (Or.inl ⟨_, h1⟩)
  have e2 : SeekStep (fun _ => .device 0 8) _ (.read () 3 0x1000 512) s2 := .read (by norm_num) (Or.inl ⟨_, hs2⟩)
  have hrun := Run.cons e1 (Run.single e2)
  refine ⟨s2, hrun, (lseek_exact (fun _ => rfl) (fun a f hf => ?_) hrun).1, hoffset⟩
  change (if a = 100 then some _ else none) = some f at hf
  split_ifs at hf
  cases hf
  decide

end Os161
