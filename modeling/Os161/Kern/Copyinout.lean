/-
# Copies across the user boundary

`copyin`, `copyout` and `copyinstr` of `kern/vm/copyinout.c` with every page of
user space mapped. `copycheck` works with the last byte of the region in 32
bits: a region of no bytes has none, and one that goes past the end of the
address space wraps. So a copy of no bytes is refused wherever it is, and a
string is refused if its buffer is so long that the region wraps, even if the
string itself ends in time. Apart from these two cases the checks are exact
(`copiesExactly_iff`).
-/
import Os161.Kern.Uio
import Os161.Lib.Scatter

namespace Os161

/-! ### Strings -/

/-- The loop of `copystr` at position `i` with `n` bytes to go: the length found,
if there is a NUL. A read of a page that is not mapped ends the copy. -/
def copystrLoop (mem : Buf) (mapped : ℕ → Bool) (src : ℕ) : ℕ → ℕ → Buf → Except Errno (Option ℕ) × Buf
  | 0, _, dest => (.ok none, dest)
  | n + 1, i, dest =>
    if mapped (src + i) = false then (.error .efault, dest)
    else
      let dest := Function.update dest i (mem (src + i))
      if mem (src + i) = 0 then (.ok (some (i + 1)), dest) else copystrLoop mem mapped src n (i + 1) dest

/-- `copystr` from user space: the length with the NUL, and the kernel buffer. -/
def copystr (mem : Buf) (mapped : ℕ → Bool) (src maxlen stoplen : ℕ) (dest : Buf) : Except Errno ℕ × Buf :=
  match copystrLoop mem mapped src (min maxlen stoplen) 0 dest with
  | (.error e, d) => (.error e, d)
  | (.ok (some gotlen), d) => (.ok gotlen, d)
  | (.ok none, d) => (if stoplen < maxlen then .error .efault else .error .enametoolong, d)

/-- `copyinstr`. -/
def copyinstr (mem : Buf) (mapped : ℕ → Bool) (usersrc : ℕ) (dest : Buf) (len : ℕ) : Except Errno ℕ × Buf :=
  match copycheck usersrc len with
  | .error e => (.error e, dest)
  | .ok stoplen => copystr mem mapped usersrc len stoplen dest

/-! ### What the copies should do -/

/-- The bytes `[ptr, ptr + len)` are in user space. -/
def InUserspace (ptr len : ℕ) : Prop := ∀ a, ptr ≤ a → a < ptr + len → a < userspacetop

/-- The string at `ptr` ends at byte `i`. -/
def EndsAt (mem : Buf) (ptr i : ℕ) : Prop := mem (ptr + i) = 0 ∧ ∀ j < i, mem (ptr + j) ≠ 0

/-- User space ends at byte `i` of the string at `ptr`, before its NUL. -/
def CutAt (mem : Buf) (ptr i : ℕ) : Prop :=
  userspacetop ≤ ptr + i ∧ ∀ j < i, ptr + j < userspacetop ∧ mem (ptr + j) ≠ 0

/-- The three copies at `ptr` with length `len` do exactly what they should. -/
structure CopiesExactly (mem : Buf) (mapped : ℕ → Bool) (ptr len : ℕ) : Prop where
  copyin : ∀ (buf : Buf) (pos : ℕ), InUserspace ptr len → copyin mem mapped ptr buf pos len = (.ok (), buf.blit pos mem ptr len)
  copyinRefused : ∀ (buf : Buf) (pos : ℕ), ¬ InUserspace ptr len → Os161.copyin mem mapped ptr buf pos len = (.error .efault, buf)
  copyout : ∀ (buf : Buf) (pos : ℕ), InUserspace ptr len →
    copyout buf pos mem mapped ptr len = (.ok (), mem.blit ptr buf pos len)
  copyoutRefused : ∀ (buf : Buf) (pos : ℕ), ¬ InUserspace ptr len →
    Os161.copyout buf pos mem mapped ptr len = (.error .efault, mem)
  string : ∀ (dest : Buf) (i : ℕ), i < len → ptr + i < userspacetop → EndsAt mem ptr i →
    copyinstr mem mapped ptr dest len = (.ok (i + 1), dest.blit 0 mem ptr (i + 1))
  cut : ∀ (dest : Buf) (i : ℕ), i < len → CutAt mem ptr i → (copyinstr mem mapped ptr dest len).1 = .error .efault
  long : ∀ dest : Buf, (∀ i < len, ptr + i < userspacetop ∧ mem (ptr + i) ≠ 0) →
    (copyinstr mem mapped ptr dest len).1 = .error .enametoolong

/-! ### The check -/

section Check

variable {p len : ℕ}

/-- The last byte of the region, in 32 bits. -/
theorem copycheck_top (hp : p < 2 ^ 32) (hlen : len ≠ 0) (hle : p + len ≤ 2 ^ 32) :
    wsub (wadd p len) 1 = p + len - 1 := by
  unfold wsub wadd
  split_ifs <;> omega

theorem copycheck_empty (hp : p < 2 ^ 32) : copycheck p 0 ≠ .ok 0 := by
  rcases Nat.eq_zero_or_pos p with rfl | h0
  · have htop : wsub (wadd 0 0) 1 = 2 ^ 32 - 1 := by
      unfold wsub wadd
      norm_num
    unfold copycheck
    rw [htop]
    simp [userspacetop]
  · have htop : wsub (wadd p 0) 1 < p := by
      rw [wadd_zero hp, wsub_of_le h0]
      omega
    rw [show copycheck p 0 = .error .efault from if_pos htop]
    exact fun h => nomatch h

theorem copycheck_wraps (hp : p < 2 ^ 32) (hlen : len < 2 ^ 32) (h : 2 ^ 32 < p + len) : copycheck p len = .error .efault := by
  have htop : wsub (wadd p len) 1 < p := by
    unfold wsub wadd
    split_ifs <;> omega
  exact if_pos htop

theorem copycheck_kernel (hp : userspacetop ≤ p) : copycheck p len = .error .efault := by
  unfold copycheck
  simp only [if_pos hp, ite_self]

theorem copycheck_cut (hp : p < userspacetop) (hover : userspacetop < p + len) (hle : p + len ≤ 2 ^ 32) :
    copycheck p len = .ok (userspacetop - p) := by
  have hp' : p < 2 ^ 32 := hp.trans (by decide)
  have htop := copycheck_top hp' (by omega) hle
  have h1 : ¬ p + len - 1 < p := by omega
  have h2 : userspacetop ≤ p + len - 1 := by omega
  unfold copycheck
  rw [htop, if_neg h1, if_neg (Nat.not_le.mpr hp), if_pos h2]

theorem copycheck_inside (hlen : len ≠ 0) (h : p + len ≤ userspacetop) : copycheck p len = .ok len := by
  have htop' : userspacetop < 2 ^ 32 := by decide
  have htop := copycheck_top (p := p) (by omega) hlen (by omega)
  have h1 : ¬ p + len - 1 < p := by omega
  have h2 : ¬ userspacetop ≤ p := by omega
  have h3 : ¬ userspacetop ≤ p + len - 1 := by omega
  unfold copycheck
  rw [htop, if_neg h1, if_neg h2, if_neg h3]

/-- A region that leaves user space is refused or cut. -/
theorem copycheck_outside (hp : p < 2 ^ 32) (hlen : len < 2 ^ 32) (h : userspacetop < p + len) :
    copycheck p len ≠ .ok len := by
  rcases Nat.lt_or_ge p userspacetop with hu | hu
  · rcases Nat.lt_or_ge (2 ^ 32) (p + len) with hw | hw
    · rw [copycheck_wraps hp hlen hw]
      exact fun h => nomatch h
    · rw [copycheck_cut hu h hw]
      intro he
      injection he with he
      omega
  · rw [copycheck_kernel hu]
    exact fun h => nomatch h

end Check

/-! ### The loop over the string -/

section Strings

variable {mem : Buf} {mapped : ℕ → Bool} {src : ℕ}

/-- The loop stops behind the first NUL. -/
theorem copystrLoop_found {n : ℕ} : ∀ {k d : ℕ} (dest : Buf), (∀ j ≤ d, mapped (src + k + j) = true) → d < n →
    mem (src + k + d) = 0 → (∀ j < d, mem (src + k + j) ≠ 0) →
    copystrLoop mem mapped src n k dest = (.ok (some (k + d + 1)), dest.blit k mem (src + k) (d + 1)) := by
  induction n with
  | zero => exact fun _ _ h => absurd h (Nat.not_lt_zero _)
  | succ n ih =>
    intro k d dest hm hd hz hne
    have hmap : ¬ mapped (src + k) = false := by
      rw [show mapped (src + k) = true from hm 0 (Nat.zero_le _)]
      decide
    rw [copystrLoop, if_neg hmap]
    dsimp only
    rw [← Buf.blit_one dest k mem (src + k)]
    cases d with
    | zero => exact if_pos hz
    | succ d =>
      have h0 : mem (src + k) ≠ 0 := hne 0 (Nat.succ_pos d)
      have hshift : ∀ j, src + (k + 1) + j = src + k + (j + 1) := fun j => by omega
      have hrest := ih (k := k + 1) (d := d) (dest.blit k mem (src + k) 1)
        (fun j hj => by rw [hshift]; exact hm (j + 1) (by omega)) (by omega) (by rw [hshift]; exact hz)
        fun j hj => by rw [hshift]; exact hne (j + 1) (by omega)
      rw [if_neg h0, hrest, ← Nat.add_assoc src k 1, Buf.blit_blit, Nat.add_comm 1 (d + 1)]
      congr 3
      omega

/-- Without a NUL it goes on to its end. -/
theorem copystrLoop_none {n : ℕ} : ∀ {k : ℕ} (dest : Buf), (∀ j < n, mapped (src + k + j) = true) →
    (∀ j < n, mem (src + k + j) ≠ 0) → (copystrLoop mem mapped src n k dest).1 = .ok none := by
  induction n with
  | zero => exact fun _ _ _ => rfl
  | succ n ih =>
    intro k dest hm hne
    have hmap : ¬ mapped (src + k) = false := by
      rw [show mapped (src + k) = true from hm 0 (Nat.succ_pos n)]
      decide
    have h0 : mem (src + k) ≠ 0 := hne 0 (Nat.succ_pos n)
    have hshift : ∀ j, src + (k + 1) + j = src + k + (j + 1) := fun j => by omega
    rw [copystrLoop, if_neg hmap]
    dsimp only
    rw [if_neg h0]
    exact ih _ (fun j hj => by rw [hshift]; exact hm (j + 1) (by omega)) fun j hj => by
      rw [hshift]
      exact hne (j + 1) (by omega)

theorem copystr_none {maxlen stoplen : ℕ} (dest : Buf) (hm : ∀ j < min maxlen stoplen, mapped (src + j) = true)
    (hne : ∀ j < min maxlen stoplen, mem (src + j) ≠ 0) :
    (copystr mem mapped src maxlen stoplen dest).1 = if stoplen < maxlen then .error .efault else .error .enametoolong := by
  have hloop := copystrLoop_none (k := 0) dest hm hne
  unfold copystr
  generalize copystrLoop mem mapped src (min maxlen stoplen) 0 dest = r at hloop
  obtain ⟨x, d⟩ := r
  obtain rfl : x = .ok none := hloop
  rfl

end Strings

/-! ### The copies -/

section Copies

variable {mem : Buf} {mapped : ℕ → Bool} {ptr len : ℕ}

theorem copyin_refused (h : copycheck ptr len ≠ .ok len) (buf : Buf) (pos : ℕ) :
    copyin mem mapped ptr buf pos len = (.error .efault, buf) := by
  unfold copyin
  cases hc : copycheck ptr len with
  | error e => rw [copycheck_error hc]
  | ok stoplen =>
    have hne : stoplen ≠ len := fun he => h (he ▸ hc)
    exact if_pos hne

theorem copyout_refused (h : copycheck ptr len ≠ .ok len) (buf : Buf) (pos : ℕ) :
    copyout buf pos mem mapped ptr len = (.error .efault, mem) := by
  unfold copyout
  cases hc : copycheck ptr len with
  | error e => rw [copycheck_error hc]
  | ok stoplen =>
    have hne : stoplen ≠ len := fun he => h (he ▸ hc)
    exact if_pos hne

theorem inUserspace_iff (h0 : len ≠ 0) : InUserspace ptr len ↔ ptr + len ≤ userspacetop := by
  constructor
  · intro h
    have hlast := h (ptr + len - 1) (by omega) (by omega)
    omega
  · intro h a h1 h2
    omega

/-- The string is found if the check lets its NUL pass. -/
theorem copyinstr_found (hm : ∀ a < userspacetop, mapped a = true) {i stoplen : ℕ} (hc : copycheck ptr len = .ok stoplen)
    (hlen : i < len) (hstop : i < stoplen) (htop : ptr + i < userspacetop) (h : EndsAt mem ptr i) (dest : Buf) :
    copyinstr mem mapped ptr dest len = (.ok (i + 1), dest.blit 0 mem ptr (i + 1)) := by
  have hloop : copystrLoop mem mapped ptr (min len stoplen) 0 dest =
      (.ok (some (0 + i + 1)), dest.blit 0 mem (ptr + 0) (i + 1)) :=
    copystrLoop_found dest (fun j hj => hm _ (by omega)) (by omega) h.1 h.2
  unfold copyinstr copystr
  rw [hc]
  dsimp only
  rw [hloop, Nat.zero_add]
  rfl

/-- **The checks are exact** unless there are no bytes to copy, or the region
of a string wraps and the string ends in user space. -/
theorem copiesExactly_iff (hm : ∀ a < userspacetop, mapped a = true) (hptr : ptr < 2 ^ 32) (hlen : len < 2 ^ 32) :
    CopiesExactly mem mapped ptr len ↔
      len ≠ 0 ∧ (ptr + len ≤ 2 ^ 32 ∨ ∀ i, ptr + i < userspacetop → mem (ptr + i) ≠ 0) := by
  have htop : userspacetop < 2 ^ 32 := by decide
  constructor
  · intro h
    have h0 : len ≠ 0 := by
      rintro rfl
      have hok := h.copyin (fun _ => 0) 0 fun a h1 h2 => by omega
      rw [copyin_refused (copycheck_empty hptr)] at hok
      cases hok
    refine ⟨h0, ?_⟩
    by_contra! hc
    obtain ⟨hwrap, hnul⟩ := hc
    -- the first NUL of the string
    have hfirst := Nat.find_spec hnul
    set i := Nat.find hnul with hi
    have hends : EndsAt mem ptr i := ⟨hfirst.2, fun j hj hz => Nat.find_min hnul hj ⟨by omega, hz⟩⟩
    have hok := h.string (fun _ => 0) i (by omega) hfirst.1 hends
    unfold copyinstr at hok
    rw [copycheck_wraps hptr hlen hwrap] at hok
    cases hok
  · rintro ⟨h0, hstr⟩
    have hinside : InUserspace ptr len → ¬ userFault mapped ptr len := fun hin => by
      have hle := (inUserspace_iff h0).mp hin
      exact not_userFault (Nat.pos_of_ne_zero h0) hle fun a _ h2 => hm a (by omega)
    have houtside : ¬ InUserspace ptr len → copycheck ptr len ≠ .ok len := fun hout =>
      copycheck_outside hptr hlen (Nat.lt_of_not_le fun hle => hout ((inUserspace_iff h0).mpr hle))
    refine ⟨fun buf pos hin => ?_, fun buf pos hout => copyin_refused (houtside hout) buf pos, fun buf pos hin => ?_,
      fun buf pos hout => copyout_refused (houtside hout) buf pos, fun dest i hi hiu hends => ?_, fun dest i hi hcut => ?_,
      fun dest hall => ?_⟩
    · exact (copyin_cases mem mapped ptr buf pos len).resolve_right fun hf => hinside hin hf.1
    · exact (copyout_cases buf pos mem mapped ptr len).resolve_right fun hf => hinside hin hf.1
    · rcases Nat.lt_or_ge userspacetop (ptr + len) with hover | hin
      · have hle : ptr + len ≤ 2 ^ 32 := hstr.resolve_right fun hnone => hnone i hiu hends.1
        exact copyinstr_found hm (copycheck_cut (by omega) hover hle) hi (by omega) hiu hends dest
      · exact copyinstr_found hm (copycheck_inside h0 hin) hi hi hiu hends dest
    · obtain ⟨hend, hbefore⟩ := hcut
      unfold copyinstr
      rcases Nat.lt_or_ge ptr userspacetop with hu | hu
      · rcases Nat.lt_or_ge (2 ^ 32) (ptr + len) with hw | hw
        · rw [copycheck_wraps hptr hlen hw]
        · have hstop : userspacetop - ptr < len := by omega
          rw [copycheck_cut hu (by omega) hw]
          dsimp only
          rw [copystr_none dest (fun j hj => hm _ (by omega)) fun j hj => (hbefore j (by omega)).2, if_pos hstop]
      · rw [copycheck_kernel hu]
    · have hle : ptr + len ≤ userspacetop := by
        have hlast := (hall (len - 1) (by omega)).1
        omega
      unfold copyinstr
      rw [copycheck_inside h0 hle]
      dsimp only
      rw [copystr_none dest (fun j hj => hm _ (by omega)) fun j hj => (hall j (by omega)).2, if_neg (lt_irrefl len)]

/-- A user page of `a`s with a NUL behind them. -/
def userString : Buf := fun a => if a = 0x1003 then 0 else 97

/-- **No bytes at a user address** are refused, and so is the string at `0x1000`
if its buffer has `0xffffffff` bytes. -/
theorem copies_refused : (copyin userString (fun _ => true) 0x1000 (fun _ => 0) 0 0).1 = .error .efault ∧
    (copyinstr userString (fun _ => true) 0x1000 (fun _ => 0) 0xffffffff).1 = .error .efault ∧
    ¬ CopiesExactly userString (fun _ => true) 0x1000 0 ∧ ¬ CopiesExactly userString (fun _ => true) 0x1000 0xffffffff := by
  have hempty : copyin userString (fun _ => true) 0x1000 (fun _ => 0) 0 0 = (.error .efault, fun _ => 0) :=
    copyin_refused (copycheck_empty (by norm_num)) _ 0
  have hwrap : copyinstr userString (fun _ => true) 0x1000 (fun _ => 0) 0xffffffff = (.error .efault, fun _ => 0) := by
    unfold copyinstr
    rw [copycheck_wraps (by norm_num) (by norm_num) (by norm_num)]
  refine ⟨by rw [hempty], by rw [hwrap], fun h => ?_, fun h => ?_⟩
  · have hok := h.copyin (fun _ => 0) 0 fun a h1 h2 => by omega
    rw [hempty] at hok
    cases hok
  · have hends : EndsAt userString 0x1000 3 := ⟨by decide, by decide⟩
    have hok := h.string (fun _ => 0) 3 (by norm_num) (by decide) hends
    rw [hwrap] at hok
    cases hok

/-- The same string with a buffer of 16 bytes. -/
theorem copiesExactly_iff_short : CopiesExactly userString (fun _ => true) 0x1000 16 :=
  (copiesExactly_iff (fun _ _ => rfl) (by norm_num) (by norm_num)).mpr ⟨by norm_num, Or.inl (by norm_num)⟩

end Copies

end Os161
