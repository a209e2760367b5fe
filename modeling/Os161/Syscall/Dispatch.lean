/-
# The system call dispatcher

`syscall()` of `kern/arch/mips/syscall/syscall.c`: arguments in the registers
of the trapframe, the result in `v0` (and `v1` if it has 64 bits), an error
code in `v0`, and `a3` to tell which. What the calls get from elsewhere is a
parameter, as in `Os161/Syscall/File.lean`.

`sys_lseek` is handed the address of the 32-bit `retval` for its 64-bit result,
and the dispatcher returns `retval64`, which nothing sets, with the two words
the wrong way round. So the stack frame is modelled: its words, and where the
compiler put the locals. Storing the offset at `retval` sets that word and the
next one, whatever it is; `retval64` holds what was on the stack before.
`syscall_lseek` says when the registers hold the offset all the same. The
assertions on the interrupt level are about the thread and left out.
-/
import Os161.Syscall.File

namespace Os161

/-- The error codes of `kern/errno.h`. -/
def Errno.code : Errno → UInt32
  | .enosys => 1
  | .enomem => 3
  | .eagain => 4
  | .efault => 6
  | .enametoolong => 7
  | .einval => 8
  | .enoexec => 13
  | .enotdir => 17
  | .eisdir => 18
  | .enoent => 19
  | .eexist => 22
  | .exdev => 24
  | .enodev => 25
  | .enxio => 26
  | .ebusy => 27
  | .emfile => 28
  | .enfile => 29
  | .ebadf => 30
  | .eio => 32
  | .espipe => 33
  | .enospc => 36
  | .efbig => 38

/-- The system call numbers of `kern/syscall.h`. -/
def sysOpenNo : UInt32 := 45
@[inherit_doc sysOpenNo] def sysDup2No : UInt32 := 48
@[inherit_doc sysOpenNo] def sysCloseNo : UInt32 := 49
@[inherit_doc sysOpenNo] def sysReadNo : UInt32 := 50
@[inherit_doc sysOpenNo] def sysWriteNo : UInt32 := 55
@[inherit_doc sysOpenNo] def sysLseekNo : UInt32 := 59
@[inherit_doc sysOpenNo] def sysTimeNo : UInt32 := 113
@[inherit_doc sysOpenNo] def sysRebootNo : UInt32 := 119

/-- The registers of `struct trapframe` that the dispatcher uses. -/
structure Trapframe where
  tfV0 : UInt32
  tfV1 : UInt32
  tfA0 : UInt32
  tfA1 : UInt32
  tfA2 : UInt32
  tfA3 : UInt32
  tfSp : UInt32
  tfEpc : UInt32
  deriving DecidableEq

/-- Where the locals of `syscall` are in its stack frame, in words. `retval64`
has two, the high one first. -/
structure SyscallFrame where
  retval : ℕ
  retval64 : ℕ
  callno : ℕ
  retval_ne_callno : retval ≠ callno
  retval64_ne_retval : retval64 ≠ retval ∧ retval64 + 1 ≠ retval
  retval64_ne_callno : retval64 ≠ callno ∧ retval64 + 1 ≠ callno

/-- The words of the stack. -/
abbrev Stack := ℕ → UInt32

/-- `lo | ((off_t) hi << 32)`: the position in a pair of registers. -/
def offOfPair (hi lo : UInt32) : Int64 := (lo.toUInt64 ||| hi.toUInt64 <<< 32).toInt64

/-- The high word of an `off_t`. -/
def hiWord (pos : Int64) : UInt32 := (pos.toUInt64 >>> 32).toUInt32

/-- The low word. -/
def loWord (pos : Int64) : UInt32 := pos.toUInt64.toUInt32

/-- What the code that the calls use returns. `sys_read` and `sys_write` get
`uio_offset` after the transfer, `sys_lseek` the word at `sp + 16`. -/
structure SyscallEnv where
  reboot : Except Errno Unit
  time : Except Errno Unit
  openEnv : OpenEnv
  vop : Except Errno Int64
  lseek : LseekEnv

variable {P : Type} [DecidableEq P]

/-- A call that returns an error code and may store a value through the
pointer it was given. -/
def sysCall {α : Type} (m : Prog Errno (FileState P) α) (store : α → Stack → Stack) (stack : Stack) :
    Prog Empty (FileState P) (Option Errno × Stack) := do
  match ← Prog.attempt m with
  | .ok a => pure (none, store a stack)
  | .error e => pure (some e, stack)

/-- A call of code that is a parameter. -/
def sysOutside (r : Except Errno Unit) (stack : Stack) : Option Errno × Stack :=
  match r with
  | .ok _ => (none, stack)
  | .error e => (some e, stack)

/-- `*ret = value` through an `int *` to `retval`. -/
def SyscallFrame.storeInt (fr : SyscallFrame) (value : ℤ) (stack : Stack) : Stack :=
  Function.update stack fr.retval (UInt32.ofInt value)

/-- `*ret = pos` through an `off_t *` that is the address of `retval`. -/
def SyscallFrame.storeOff (fr : SyscallFrame) (pos : ℤ) (stack : Stack) : Stack :=
  Function.update (Function.update stack fr.retval (hiWord (Int64.ofInt pos))) (fr.retval + 1) (loWord (Int64.ofInt pos))

/-- The `switch` of `syscall`: the error code and the stack after the call. -/
def dispatch (fr : SyscallFrame) (env : SyscallEnv) (p : P) (tf : Trapframe) (stack : Stack) :
    Prog Empty (FileState P) (Option Errno × Stack) :=
  let fd := tf.tfA0.toInt32.toInt
  if tf.tfV0 = sysRebootNo then pure (sysOutside env.reboot stack)
  else if tf.tfV0 = sysTimeNo then pure (sysOutside env.time stack)
  else if tf.tfV0 = sysOpenNo then sysCall (sysOpen p env.openEnv tf.tfA1) fr.storeInt stack
  else if tf.tfV0 = sysCloseNo then sysCall (sysClose p fd) (fun _ st => st) stack
  else if tf.tfV0 = sysWriteNo then sysCall (sysWrite p fd env.vop) fr.storeInt stack
  else if tf.tfV0 = sysReadNo then sysCall (sysRead p fd env.vop) fr.storeInt stack
  else if tf.tfV0 = sysDup2No then do
    let (err, stack) ← sysCall (sysDup2 p fd tf.tfA1.toInt32.toInt) (fun _ st => st) stack
    pure (err, fr.storeInt tf.tfA1.toInt32.toInt stack)
  else if tf.tfV0 = sysLseekNo then
    sysCall (sysLseek p fd (offOfPair tf.tfA2 tf.tfA3) env.lseek) fr.storeOff stack
  else pure (some .enosys, stack)

/-- The registers after the call. -/
def SyscallFrame.finish (fr : SyscallFrame) (tf : Trapframe) (err : Option Errno) (stack : Stack) : Trapframe :=
  match err with
  | some e => { tf with tfV0 := e.code, tfA3 := 1, tfEpc := tf.tfEpc + 4 }
  | none =>
    if stack fr.callno = sysLseekNo then
      -- `(int32_t) retval64` and `(int32_t) (retval64 >> 32)`
      { tf with tfV0 := stack (fr.retval64 + 1), tfV1 := stack fr.retval64, tfA3 := 0, tfEpc := tf.tfEpc + 4 }
    else { tf with tfV0 := stack fr.retval, tfA3 := 0, tfEpc := tf.tfEpc + 4 }

/-- `syscall`, with what is on the stack when it starts. -/
def syscall (fr : SyscallFrame) (stack : Stack) (env : SyscallEnv) (p : P) (tf : Trapframe) :
    Prog Empty (FileState P) Trapframe := do
  -- `callno = tf->tf_v0` and `retval = 0`
  let stack := Function.update (Function.update stack fr.callno tf.tfV0) fr.retval 0
  let (err, stack) ← dispatch fr env p tf stack
  pure (fr.finish tf err stack)

/-! ### Positions in register pairs -/

theorem toNat_offOfPair (hi lo : UInt32) : (offOfPair hi lo).toUInt64.toNat = hi.toNat * 2 ^ 32 + lo.toNat := by
  have hlo : lo.toNat < 2 ^ 32 := lo.toNat_lt
  have hhi : hi.toNat < 2 ^ 32 := hi.toNat_lt
  have hshift : (hi.toUInt64 <<< 32).toNat = hi.toNat <<< 32 := by
    rw [UInt64.toNat_shiftLeft]
    simp only [UInt32.toNat_toUInt64, UInt64.reduceToNat, Nat.reduceMod]
    rw [Nat.shiftLeft_eq]
    exact Nat.mod_eq_of_lt (by omega)
  show (lo.toUInt64 ||| hi.toUInt64 <<< 32).toNat = _
  rw [UInt64.toNat_or, hshift, UInt32.toNat_toUInt64, Nat.or_comm, ← Nat.shiftLeft_add_eq_or_of_lt hlo, Nat.shiftLeft_eq]

theorem toNat_hiWord (pos : Int64) : (hiWord pos).toNat = pos.toUInt64.toNat / 2 ^ 32 := by
  have h : pos.toUInt64.toNat < 2 ^ 64 := pos.toUInt64.toNat_lt
  unfold hiWord
  rw [UInt64.toNat_toUInt32, UInt64.toNat_shiftRight, Nat.shiftRight_eq_div_pow]
  simp only [UInt64.reduceToNat, Nat.reduceMod]
  omega

theorem toNat_loWord (pos : Int64) : (loWord pos).toNat = pos.toUInt64.toNat % 2 ^ 32 := by
  unfold loWord
  rw [UInt64.toNat_toUInt32]

theorem int64_ext_iff {a b : Int64} : a = b ↔ a.toUInt64 = b.toUInt64 := by
  refine ⟨congrArg Int64.toUInt64, fun h => ?_⟩
  cases a
  cases b
  cases h
  rfl

/-- A pair holds a position if it holds its two words. -/
theorem offOfPair_eq_iff {hi lo : UInt32} {pos : Int64} : offOfPair hi lo = pos ↔ hi = hiWord pos ∧ lo = loWord pos := by
  have hlo : lo.toNat < 2 ^ 32 := lo.toNat_lt
  rw [int64_ext_iff, ← UInt64.toNat_inj, toNat_offOfPair, ← UInt32.toNat_inj, ← UInt32.toNat_inj, toNat_hiWord,
    toNat_loWord]
  omega

/-! ### The result of `lseek` -/

/-- What was on the stack before the call is such that `v0` and `v1` get the
offset `pos`: where `callno` comes right after `retval` the store overwrites
it, and where `retval64` does, its first word. -/
def StaleRight (fr : SyscallFrame) (stack : Stack) (tf : Trapframe) (pos : Int64) : Prop :=
  if fr.retval + 1 = fr.callno ∧ loWord pos ≠ sysLseekNo then tf.tfV1 = loWord pos
  else stack (fr.retval64 + 1) = hiWord pos ∧ (fr.retval + 1 = fr.retval64 ∨ stack fr.retval64 = loWord pos)

section Lseek

variable {fr : SyscallFrame} {stack : Stack} {env : SyscallEnv} {p : P} {tf : Trapframe} {s s' : FileState P}

omit [DecidableEq P] in
theorem sysCall_ok {α : Type} {m : Prog Errno (FileState P) α} {store : α → Stack → Stack} {a : α}
    (h : m s = .ok a s') : sysCall m store stack s = .ok (none, store a stack) s' := by
  have hatt : (Prog.attempt m : Prog Empty (FileState P) _) s = .ok (.ok a) s' := by
    unfold Prog.attempt
    rw [h]
  exact Prog.bind_eq_ok.mpr ⟨_, _, hatt, rfl⟩

omit [DecidableEq P] in
theorem sysCall_fail {α : Type} {m : Prog Errno (FileState P) α} {store : α → Stack → Stack} {e : Errno}
    (h : m s = .fail e s') : sysCall m store stack s = .ok (some e, stack) s' := by
  have hatt : (Prog.attempt m : Prog Empty (FileState P) _) s = .ok (.error e) s' := by
    unfold Prog.attempt
    rw [h]
  exact Prog.bind_eq_ok.mpr ⟨_, _, hatt, rfl⟩

/-- The dispatcher sends the call number 59 to `sys_lseek`. -/
theorem dispatch_lseek (hcall : tf.tfV0 = sysLseekNo) :
    dispatch fr env p tf stack =
      sysCall (sysLseek p tf.tfA0.toInt32.toInt (offOfPair tf.tfA2 tf.tfA3) env.lseek) fr.storeOff stack := by
  unfold dispatch
  rw [hcall]
  rfl

/-- The frame when `sys_lseek` has stored `pos`. -/
theorem finish_storeOff (hcall : tf.tfV0 = sysLseekNo) (pos : ℤ) :
    (fr.finish tf none (fr.storeOff pos (Function.update (Function.update stack fr.callno tf.tfV0) fr.retval 0))).tfA3 = 0 ∧
    (offOfPair
      (fr.finish tf none (fr.storeOff pos (Function.update (Function.update stack fr.callno tf.tfV0) fr.retval 0))).tfV0
      (fr.finish tf none (fr.storeOff pos (Function.update (Function.update stack fr.callno tf.tfV0) fr.retval 0))).tfV1 =
        Int64.ofInt pos ↔ StaleRight fr stack tf (Int64.ofInt pos)) := by
  obtain ⟨r, q, c, h1, ⟨h2, h2'⟩, h3, h3'⟩ := fr
  rw [offOfPair_eq_iff]
  unfold SyscallFrame.finish SyscallFrame.storeOff StaleRight
  simp only
  by_cases hc : r + 1 = c
  · subst hc
    have hne : r + 1 ≠ q := fun h => h3 h.symm
    by_cases hlo : loWord (Int64.ofInt pos) = sysLseekNo
    · simp [hlo, hne, h2, h2', h3]
    · simp [hlo]
  · have hc' : c ≠ r + 1 := fun h => hc h.symm
    have hc1 : c ≠ r := h1.symm
    by_cases hq1 : r + 1 = q
    · subst hq1
      simp [hc, hc', hc1, hcall, h2', h3']
    · have hq2 : q ≠ r + 1 := fun h => hq1 h.symm
      simp [hc, hc', hc1, hcall, h2, h2', h3, h3', hq1, hq2]

/-- **`lseek` through the registers.** When `sys_lseek` has stored the offset
`pos`, `a3` is 0 and the pair `v0`, `v1` holds `pos`, read as the dispatcher
reads the pair `a2`, `a3`, exactly if the stack happened to be right; when it
fails, `a3` is 1 and `v0` the error code. -/
theorem syscall_lseek (fr : SyscallFrame) (stack : Stack) (env : SyscallEnv) (p : P) (tf : Trapframe) (s : FileState P)
    (hcall : tf.tfV0 = sysLseekNo) :
    (∀ pos s', sysLseek p tf.tfA0.toInt32.toInt (offOfPair tf.tfA2 tf.tfA3) env.lseek s = .ok pos s' →
      ∃ tf', syscall fr stack env p tf s = .ok tf' s' ∧ tf'.tfA3 = 0 ∧
        (offOfPair tf'.tfV0 tf'.tfV1 = Int64.ofInt pos ↔ StaleRight fr stack tf (Int64.ofInt pos))) ∧
    ∀ e s', sysLseek p tf.tfA0.toInt32.toInt (offOfPair tf.tfA2 tf.tfA3) env.lseek s = .fail e s' →
      ∃ tf', syscall fr stack env p tf s = .ok tf' s' ∧ tf'.tfA3 = 1 ∧ tf'.tfV0 = e.code := by
  constructor
  · intro pos s' h
    have hd : dispatch fr env p tf (Function.update (Function.update stack fr.callno tf.tfV0) fr.retval 0) s = _ :=
      (congrFun (dispatch_lseek hcall) s).trans (sysCall_ok h)
    exact ⟨_, Prog.bind_eq_ok.mpr ⟨_, _, hd, rfl⟩, finish_storeOff hcall pos⟩
  · intro e s' h
    have hd : dispatch fr env p tf (Function.update (Function.update stack fr.callno tf.tfV0) fr.retval 0) s = _ :=
      (congrFun (dispatch_lseek hcall) s).trans (sysCall_fail h)
    exact ⟨_, Prog.bind_eq_ok.mpr ⟨_, _, hd, rfl⟩, rfl, rfl⟩

end Lseek

/-- One file is open, as descriptor 3. -/
def oneFile : FileState Unit where
  files := fun a => if a = 100 then some ⟨7, oRdonly, 1, 200, 0⟩ else none
  fileTable := fun _ fd => if fd = 3 then some 100 else none
  par := fun _ => none
  numOpenFiles := 1
  kheap := fun a => a = 100
  locks := fun a => a = 200
  vnRefs := fun v => if v = 7 then 1 else 0

/-- The locals one after the other, a word between `retval` and `retval64`. -/
def plainFrame : SyscallFrame := ⟨0, 2, 4, by decide, by decide, by decide⟩

/-- `lseek(3, 5, SEEK_SET)` of a seekable file. -/
def seekFive : Trapframe := ⟨sysLseekNo, 0, 3, 0, 0, 5, 0, 0⟩

@[inherit_doc seekFive]
def seekEnv : SyscallEnv := ⟨.ok (), .ok (), ⟨false, none, .ok (), none, .error .enoent, none⟩, .ok 0, ⟨true, .ok 0, .ok 0⟩⟩

/-- **The offset does not come back.** On a stack of zeros `lseek(3, 5,
SEEK_SET)` stores 5 and returns 0. -/
theorem lseek_returns_stale : ∃ tf' s', sysLseek () 3 (offOfPair 0 5) seekEnv.lseek oneFile = .ok 5 s' ∧
    syscall plainFrame (fun _ => 0) seekEnv () seekFive oneFile = .ok tf' s' ∧ tf'.tfA3 = 0 ∧
    offOfPair tf'.tfV0 tf'.tfV1 ≠ 5 :=
  ⟨⟨0, 0, 3, 0, 0, 0, 0, 4⟩, _, rfl, rfl, rfl, by decide⟩

theorem syscall_lseek_five : seekFive.tfV0 = sysLseekNo ∧ ∃ tf' s',
    syscall plainFrame (fun i => if i = 2 then 5 else 0) seekEnv () seekFive oneFile = .ok tf' s' ∧ tf'.tfA3 = 0 ∧
    offOfPair tf'.tfV0 tf'.tfV1 = 5 := by
  obtain ⟨tf', hrun, ha3, hpos⟩ := (syscall_lseek plainFrame (fun i => if i = 2 then 5 else 0) seekEnv () seekFive oneFile
    rfl).1 5 _ rfl
  refine ⟨rfl, tf', _, hrun, ha3, hpos.mpr ?_⟩
  unfold StaleRight
  decide

end Os161
