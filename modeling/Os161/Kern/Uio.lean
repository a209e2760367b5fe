/-
# Moving data through a `struct uio`

`kern/lib/uio.c` and the user copies under it (`kern/vm/copyinout.c`). A
`Uio` carries the memory its iovecs point into (`mem`), with the addresses
that can be touched without a fault (`mapped`, read for user space only).
The kernel buffer at the other end of a transfer is a `Buf` of its own: the
callers' buffers are static ones or the disk's on-card buffer and overlap no
iovec.

`uio_resid` is a `size_t` and wraps; `uio_offset` is an `off_t` that the
callers keep nonnegative, so it is a natural number. The assertion on
`uio_space` compares address spaces, which are not modelled.

What the transfers of this kernel rest on is `uiomove_single`: through one
iovec, a move of `n` bytes with `n` no larger than the iovec and the residue
either moves all of them or faults with the uio's counters as they were.
-/
import Os161.Lib.Prog
import Os161.Lib.Bytes
import Os161.Lib.Word

namespace Os161

/-- The error codes of `kern/errno.h` that the modelled code returns. -/
inductive Errno
  | enomem | eagain | ebusy | eexist | enotdir | eisdir | enoent | einval | efault | enametoolong
  | enosys | ebadf | emfile | enfile | espipe | eio | enospc | efbig | enxio | enodev | enoexec | exdev
  deriving DecidableEq, Repr

/-- `enum uio_rw`: `read` moves from the kernel to the iovecs. -/
inductive UioRw
  | read | write
  deriving DecidableEq, Repr

/-- `enum uio_seg`. -/
inductive UioSeg
  | userispace | userspace | sysspace
  deriving DecidableEq, Repr

/-- `struct iovec`. -/
structure Iovec where
  iovBase : ℕ
  iovLen : ℕ
  deriving DecidableEq, Repr

/-- `struct uio`; `uio_iovcnt` is the length of the list. -/
structure Uio where
  uioIov : List Iovec
  uioOffset : ℕ
  uioResid : ℕ
  uioSegflg : UioSeg
  uioRw : UioRw
  mem : Buf
  mapped : ℕ → Bool

/-- The first kernel address. -/
def userspacetop : ℕ := 0x80000000

/-- `copycheck`: the number of bytes of the region that lie in user space. -/
def copycheck (userptr len : ℕ) : Except Errno ℕ :=
  let top := wsub (wadd userptr len) 1
  if top < userptr then .error .efault
  else if userspacetop ≤ userptr then .error .efault
  else if userspacetop ≤ top then .ok (userspacetop - userptr)
  else .ok len

/-- How many of the `n` addresses from `p` on come before one that faults. -/
def mappedPrefix (mapped : ℕ → Bool) (p : ℕ) : ℕ → ℕ
  | 0 => 0
  | n + 1 => if mapped p then mappedPrefix mapped (p + 1) n + 1 else 0

/-- `copyin` to position `pos` of the kernel buffer: the result and the
buffer, which a fault leaves partly overwritten. -/
def copyin (mem : Buf) (mapped : ℕ → Bool) (usersrc : ℕ) (buf : Buf) (pos len : ℕ) :
    Except Errno Unit × Buf :=
  match copycheck usersrc len with
  | .error e => (.error e, buf)
  | .ok stoplen =>
    if stoplen ≠ len then (.error .efault, buf)
    else
      let k := mappedPrefix mapped usersrc len
      (if k = len then .ok () else .error .efault, buf.blit pos mem usersrc k)

/-- `copyout` from position `pos` of the kernel buffer: the result and the
user memory. -/
def copyout (buf : Buf) (pos : ℕ) (mem : Buf) (mapped : ℕ → Bool) (userdest len : ℕ) :
    Except Errno Unit × Buf :=
  match copycheck userdest len with
  | .error e => (.error e, mem)
  | .ok stoplen =>
    if stoplen ≠ len then (.error .efault, mem)
    else
      let k := mappedPrefix mapped userdest len
      (if k = len then .ok () else .error .efault, mem.blit userdest buf pos k)

/-- The `switch` of `uiomove`: `size` bytes between position `pos` of the
buffer and address `base`. -/
def moveSeg (base pos size : ℕ) : Prog Errno (Uio × Buf) Unit := fun (u, b) =>
  match u.uioSegflg, u.uioRw with
  | .sysspace, .read => .ok () ({ u with mem := u.mem.blit base b pos size }, b)
  | .sysspace, .write => .ok () (u, b.blit pos u.mem base size)
  | _, .read =>
    match copyout b pos u.mem u.mapped base size with
    | (.ok _, mem) => .ok () ({ u with mem }, b)
    | (.error e, mem) => .fail e ({ u with mem }, b)
  | _, .write =>
    match copyin u.mem u.mapped base b pos size with
    | (.ok _, b') => .ok () (u, b')
    | (.error e, b') => .fail e (u, b')

/-- The counters after `size` bytes: `uio_resid -= size; uio_offset += size`. -/
def Uio.advance (u : Uio) (size : ℕ) : Uio :=
  { u with uioResid := wsub u.uioResid size, uioOffset := u.uioOffset + size }

/-- The loop of `uiomove`, at position `pos` of the buffer with `n` bytes to
go. Two turns of the loop are one here: the move out of the first iovec, and,
if there is more to move, the turn that finds it empty and goes on to the
next. -/
def uiomoveLoop : List Iovec → ℕ → ℕ → Prog Errno (Uio × Buf) Unit
  | [], _, n => fun (u, b) => if n = 0 ∨ u.uioResid = 0 then .ok () (u, b) else .stop
  | v :: rest, pos, n => fun (u, b) =>
    if n = 0 ∨ u.uioResid = 0 then .ok () ({ u with uioIov := v :: rest }, b)
    else
      let size := min v.iovLen n
      if size = 0 then
        -- "uiomove: ran out of buffers"
        if rest = [] then .stop else uiomoveLoop rest pos n (u, b)
      else
        match moveSeg v.iovBase pos size (u, b) with
        | .stop => .stop
        | .fail e (u', b') => .fail e ({ u' with uioIov := v :: rest }, b')
        | .ok _ (u', b') =>
          let u'' := u'.advance size
          if n - size = 0 ∨ u''.uioResid = 0 then
            .ok () ({ u'' with uioIov := ⟨v.iovBase + size, v.iovLen - size⟩ :: rest }, b')
          else if rest = [] then .stop
          else uiomoveLoop rest (pos + size) (n - size) (u'', b')

/-- `uiomove(ptr, n, uio)`, `ptr` being the start of the buffer. -/
def uiomove (n : ℕ) : Prog Errno (Uio × Buf) Unit := fun (u, b) => uiomoveLoop u.uioIov 0 n (u, b)

/-- `uiomove` with a buffer of the caller's own, handed back. -/
def uiomoveBuf (b : Buf) (n : ℕ) : Prog Errno Uio Buf := fun u =>
  match uiomove n (u, b) with
  | .ok _ (u', b') => .ok b' u'
  | .fail e (u', _) => .fail e u'
  | .stop => .stop

/-- `uiomovezeros`: sixteen zero bytes at a time. -/
def uiomovezeros (n : ℕ) : Prog Errno Uio Unit := do
  let u ← Prog.get
  Prog.assert (u.uioRw = .read)
  Prog.forUp ((n + 15) / 16) fun i => do
    let _ ← uiomoveBuf (fun _ => 0) (min 16 (n - 16 * i))
    pure ()

/-- `uio_kinit`. -/
def uioKinit (mem : Buf) (kbuf len pos : ℕ) (rw : UioRw) : Uio where
  uioIov := [⟨kbuf, len⟩]
  uioOffset := pos
  uioResid := len
  uioSegflg := .sysspace
  uioRw := rw
  mem := mem
  mapped := fun _ => true

/-- `uio_uinit`. -/
def uioUinit (mem : Buf) (mapped : ℕ → Bool) (buf len pos : ℕ) (rw : UioRw) : Uio where
  uioIov := [⟨buf, len⟩]
  uioOffset := pos
  uioResid := len
  uioSegflg := .userspace
  uioRw := rw
  mem := mem
  mapped := mapped

/-! ### One iovec -/

@[simp] theorem advance_offset (u : Uio) (n : ℕ) : (u.advance n).uioOffset = u.uioOffset + n := rfl

theorem advance_resid (u : Uio) {n : ℕ} (h : n ≤ u.uioResid) :
    (u.advance n).uioResid = u.uioResid - n := wsub_of_le h

theorem advance_zero (u : Uio) : u.advance 0 = u := by
  have h := advance_resid u (Nat.zero_le _)
  obtain ⟨iov, off, resid, seg, rw, mem, mapped⟩ := u
  simp only [Uio.advance, Nat.add_zero] at h ⊢
  rw [h, Nat.sub_zero]

/-- A uio whose one iovec holds at least the residue: what `uio_kinit`,
`uio_uinit` and `load_segment` set up. -/
structure Uio.Single (u : Uio) (v : Iovec) : Prop where
  iov : u.uioIov = [v]
  len : u.uioResid ≤ v.iovLen
  resid : u.uioResid < 2 ^ 32

theorem copycheck_error {p n : ℕ} {e : Errno} (h : copycheck p n = .error e) : e = .efault := by
  unfold copycheck at h
  simp only at h
  split_ifs at h <;> simp_all

/-- Some of the `len` bytes from `p` on lie outside user space or fault. -/
def userFault (mapped : ℕ → Bool) (p len : ℕ) : Prop := copycheck p len ≠ .ok len ∨ mappedPrefix mapped p len ≠ len

/-- A region of mapped addresses in user space does not fault. -/
theorem not_userFault {mapped : ℕ → Bool} {p len : ℕ} (h0 : 0 < len) (htop : p + len ≤ userspacetop)
    (hm : ∀ a, p ≤ a → a < p + len → mapped a = true) : ¬ userFault mapped p len := by
  have htop' : wsub (wadd p len) 1 = p + len - 1 := by
    unfold userspacetop at htop
    rw [wadd_of_lt (by omega), wsub_of_le (by omega)]
  have hsame : ∀ n q, (∀ a, q ≤ a → a < q + n → mapped a = true) → mappedPrefix mapped q n = n := by
    intro n
    induction n with
    | zero => exact fun _ _ => rfl
    | succ n ih =>
      intro q hq
      have hrest := ih (q + 1) fun a h1 h2 => hq a (by omega) (by omega)
      rw [mappedPrefix, if_pos (hq q le_rfl (by omega)), hrest]
  rintro (h | h)
  · refine h ?_
    unfold copycheck
    dsimp only
    rw [htop', if_neg (by omega), if_neg (by omega), if_neg (by omega)]
  · exact h (hsame len p hm)

/-- `copyin` copies all of the region or faults. -/
theorem copyin_cases (mem : Buf) (mapped : ℕ → Bool) (usersrc : ℕ) (buf : Buf) (pos len : ℕ) :
    copyin mem mapped usersrc buf pos len = (.ok (), buf.blit pos mem usersrc len) ∨
    userFault mapped usersrc len ∧ ∃ b', copyin mem mapped usersrc buf pos len = (.error .efault, b') := by
  unfold copyin userFault
  cases hc : copycheck usersrc len with
  | error e => exact Or.inr ⟨Or.inl (by simp), buf, by rw [copycheck_error hc]⟩
  | ok stoplen =>
    simp only
    by_cases hs : stoplen ≠ len
    · exact Or.inr ⟨Or.inl (by simpa using hs), buf, by rw [if_pos hs]⟩
    · rw [if_neg hs]
      by_cases hk : mappedPrefix mapped usersrc len = len
      · exact Or.inl (by rw [if_pos hk, hk])
      · exact Or.inr ⟨Or.inr hk, _, by rw [if_neg hk]⟩

/-- `copyout` copies all of the region or faults. -/
theorem copyout_cases (buf : Buf) (pos : ℕ) (mem : Buf) (mapped : ℕ → Bool) (userdest len : ℕ) :
    copyout buf pos mem mapped userdest len = (.ok (), mem.blit userdest buf pos len) ∨
    userFault mapped userdest len ∧ ∃ mem', copyout buf pos mem mapped userdest len = (.error .efault, mem') := by
  unfold copyout userFault
  cases hc : copycheck userdest len with
  | error e => exact Or.inr ⟨Or.inl (by simp), mem, by rw [copycheck_error hc]⟩
  | ok stoplen =>
    simp only
    by_cases hs : stoplen ≠ len
    · exact Or.inr ⟨Or.inl (by simpa using hs), mem, by rw [if_pos hs]⟩
    · rw [if_neg hs]
      by_cases hk : mappedPrefix mapped userdest len = len
      · exact Or.inl (by rw [if_pos hk, hk])
      · exact Or.inr ⟨Or.inr hk, _, by rw [if_neg hk]⟩

/-- What a move of `size` bytes does to the memories when it succeeds: `mem`
changes on a read, the buffer on a write. -/
def moved (u : Uio) (b : Buf) (base size : ℕ) : Uio × Buf :=
  match u.uioRw with
  | .read => ({ u with mem := u.mem.blit base b 0 size }, b)
  | .write => (u, b.blit 0 u.mem base size)

theorem moved_zero (u : Uio) (b : Buf) (base : ℕ) : moved u b base 0 = (u, b) := by
  obtain ⟨iov, off, resid, seg, rw, mem, mapped⟩ := u
  cases rw <;> simp [moved]

/-- A move of `size` bytes at `base` faults: only user moves do. -/
def Uio.Faults (u : Uio) (base size : ℕ) : Prop := u.uioSegflg ≠ .sysspace ∧ userFault u.mapped base size

/-- The kernel's own memory does not fault. A user move that faults leaves
the counters and, on a write, the memory. -/
theorem moveSeg_cases (u : Uio) (b : Buf) (base size : ℕ) :
    moveSeg base 0 size (u, b) = .ok () (moved u b base size) ∨
    u.Faults base size ∧ ∃ mem' b', moveSeg base 0 size (u, b) = .fail .efault ({ u with mem := mem' }, b') ∧
      (u.uioRw = .write → mem' = u.mem) := by
  obtain ⟨iov, off, resid, seg, rw, mem, mapped⟩ := u
  have hin := copyin_cases mem mapped base b 0 size
  have hout := copyout_cases b 0 mem mapped base size
  cases rw with
  | read =>
    by_cases hs : seg = .sysspace
    · subst hs
      exact Or.inl rfl
    · have hm : moveSeg base 0 size (⟨iov, off, resid, seg, .read, mem, mapped⟩, b) =
          match copyout b 0 mem mapped base size with
          | (.ok _, mem') => .ok () (⟨iov, off, resid, seg, .read, mem', mapped⟩, b)
          | (.error e, mem') => .fail e (⟨iov, off, resid, seg, .read, mem', mapped⟩, b) := by
        cases seg with
        | sysspace => exact absurd rfl hs
        | userispace => rfl
        | userspace => rfl
      rcases hout with h | ⟨hf, mem', h⟩
      · left
        rw [hm, h]
        rfl
      · right
        rw [hm, h]
        exact ⟨⟨hs, hf⟩, mem', b, rfl, fun h => by cases h⟩
  | write =>
    by_cases hs : seg = .sysspace
    · subst hs
      exact Or.inl rfl
    · have hm : moveSeg base 0 size (⟨iov, off, resid, seg, .write, mem, mapped⟩, b) =
          match copyin mem mapped base b 0 size with
          | (.ok _, b') => .ok () (⟨iov, off, resid, seg, .write, mem, mapped⟩, b')
          | (.error e, b') => .fail e (⟨iov, off, resid, seg, .write, mem, mapped⟩, b') := by
        cases seg with
        | sysspace => exact absurd rfl hs
        | userispace => rfl
        | userspace => rfl
      rcases hin with h | ⟨hf, b', h⟩
      · left
        rw [hm, h]
        rfl
      · right
        rw [hm, h]
        exact ⟨⟨hs, hf⟩, mem, b', rfl, fun _ => rfl⟩

/-- **A move through one iovec.** All `n` bytes are moved, or the move faults
and the counters and the iovec are as before. -/
theorem uiomove_single {u : Uio} {v : Iovec} (hu : u.Single v) (b : Buf) {n : ℕ} (hn : n ≤ u.uioResid) :
    uiomove n (u, b) = .ok () ({ (moved u b v.iovBase n).1.advance n with
        uioIov := [⟨v.iovBase + n, v.iovLen - n⟩] }, (moved u b v.iovBase n).2) ∨
    0 < n ∧ u.Faults v.iovBase n ∧ ∃ mem' b', uiomove n (u, b) = .fail .efault ({ u with mem := mem' }, b') ∧
      (u.uioRw = .write → mem' = u.mem) := by
  obtain ⟨hiov, hlen, hres⟩ := hu
  unfold uiomove
  simp only [hiov]
  unfold uiomoveLoop
  simp only
  by_cases h0 : n = 0 ∨ u.uioResid = 0
  · obtain rfl : n = 0 := by omega
    left
    rw [if_pos h0, moved_zero, advance_zero]
    rfl
  · have hmin : min v.iovLen n = n := by omega
    have hpos : n ≠ 0 := by omega
    rw [if_neg h0, hmin, if_neg hpos]
    rcases moveSeg_cases u b v.iovBase n with h | ⟨hseg, mem', b', h, hmem⟩
    · left
      rw [h]
      simp
    · right
      rw [h]
      refine ⟨Nat.pos_of_ne_zero hpos, hseg, mem', b', ?_, hmem⟩
      simp only [← hiov]

end Os161
