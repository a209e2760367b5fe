/-
# What `uiomove` moves

`uiomove(ptr, n, uio)` for iovecs of any number and lengths, some of them
perhaps empty, that have room for `uio_resid` bytes. A turn of the loop moves
`min(iov_len, n)` bytes without a look at `uio_resid`, and the loop ends when
`uio_resid` is 0. So if `n` is larger than `uio_resid`, the move ends in time
only if `uio_resid` bytes end with an iovec (`Splits`). Otherwise the residue
wraps and the move goes on (`uiomoveLoop_over`).

In all other cases `uiomove` moves `min(n, uio_resid)` bytes, or a user copy
faults and the counters account for the iovecs moved before it
(`uiomove_moves`); and if nothing faults `uiomovezeros`, which moves sixteen
bytes at a time, has the same effect (`uiomovezeros_stream`).
-/
import Os161.Kern.Stream
import Os161.Kern.Copyinout
import Os161.Lib.Wlp

namespace Os161

/-- `m` is the length of the first iovecs, of some number of them. -/
def Splits : List Iovec → ℕ → Prop
  | [], m => m = 0
  | v :: rest, m => m = 0 ∨ v.iovLen ≤ m ∧ Splits rest (m - v.iovLen)

/-- The total length of the iovecs. -/
def iovTotal (iov : List Iovec) : ℕ := (iov.map Iovec.iovLen).sum

/-- How a move of `n` bytes of the buffer `b` should end: `min(n, uio_resid)`
bytes are moved, or some byte cannot be touched, the counters are those after
the first iovecs with `m` bytes, and at most some bytes of the next one have
been moved as well. -/
def Uio.Moves (u : Uio) (n : ℕ) (b : Buf) : Outcome Errno (Uio × Buf) Unit → Prop
  | .ok _ x => x = (u.streamed u.uioIov b (min n u.uioResid), u.filled u.uioIov b 0 (min n u.uioResid))
  | .fail e x => e = .efault ∧ ¬ u.Reaches u.uioIov (min n u.uioResid) ∧ ∃ m k, Splits u.uioIov m ∧
      m + k < min n u.uioResid ∧ x.1.uioOffset = u.uioOffset + m ∧ x.1.uioResid = u.uioResid - m ∧
      x.1.mem = (u.streamed u.uioIov b (m + k)).mem ∧ x.2 = u.filled u.uioIov b 0 (m + k)
  | .stop => False

section Moves

variable {u : Uio} {iov : List Iovec} {n : ℕ}

theorem Splits.zero (iov : List Iovec) : Splits iov 0 := by
  cases iov with
  | nil => rfl
  | cons v rest => exact Or.inl rfl

theorem Splits.of_pos {v : Iovec} {rest : List Iovec} {m : ℕ} (h : Splits (v :: rest) m) (h0 : m ≠ 0) :
    v.iovLen ≤ m ∧ Splits rest (m - v.iovLen) := h.resolve_left h0

theorem Splits.cons {v : Iovec} {rest : List Iovec} {m : ℕ} (h : Splits rest m) : Splits (v :: rest) (v.iovLen + m) := by
  refine Or.inr ⟨Nat.le_add_right _ _, ?_⟩
  rwa [Nat.add_sub_cancel_left]

/-- What is left of the iovecs after `a` bytes ends where it did. -/
theorem Splits.drop {a r : ℕ} (h : Splits iov (a + r)) : Splits (dropIov iov a) r := by
  induction iov generalizing a with
  | nil =>
    have h0 : a + r = 0 := h
    exact show r = 0 by omega
  | cons v rest ih =>
    rcases Nat.eq_zero_or_pos a with rfl | ha
    · rw [dropIov_zero]
      rwa [Nat.zero_add] at h
    obtain ⟨hle, hrest⟩ := h.of_pos (by omega)
    rcases Nat.lt_or_ge v.iovLen a with hlt | hge
    · rw [dropIov_past rest hlt]
      refine ih ?_
      rwa [show a - v.iovLen + r = a + r - v.iovLen by omega]
    · rw [dropIov_within rest ha hge]
      refine Or.inr ⟨show v.iovLen - a ≤ r by omega, ?_⟩
      rwa [show r - (v.iovLen - a) = a + r - v.iovLen by omega]

/-! ### More bytes than the residue -/

/-- The `switch` leaves the counters alone. -/
theorem moveSeg_counters {base pos size : ℕ} {b : Buf} {y : Uio × Buf} (h : moveSeg base pos size (u, b) = .ok () y) :
    y.1.uioOffset = u.uioOffset ∧ y.1.uioResid = u.uioResid := by
  obtain ⟨iov, off, resid, seg, rw, mem, mapped⟩ := u
  unfold moveSeg at h
  dsimp only at h
  cases rw with
  | read =>
    generalize copyout b pos mem mapped base size = r at h
    obtain ⟨e | _, mem'⟩ := r <;> cases seg <;> cases h <;> exact ⟨rfl, rfl⟩
  | write =>
    generalize copyin mem mapped base b pos size = r at h
    obtain ⟨e | _, b'⟩ := r <;> cases seg <;> cases h <;> exact ⟨rfl, rfl⟩

/-- **A residue that ends with an iovec** is not passed over: larger `n` make no
difference. -/
theorem uiomoveLoop_capped (iov : List Iovec) : ∀ {u : Uio} {pos n : ℕ} {b : Buf}, Splits iov u.uioResid → u.uioResid ≤ n →
    uiomoveLoop iov pos n (u, b) = uiomoveLoop iov pos u.uioResid (u, b) := by
  induction iov with
  | nil =>
    intro u pos n b hs _
    have h0 : u.uioResid = 0 := hs
    unfold uiomoveLoop
    dsimp only
    rw [if_pos (Or.inr h0), if_pos (Or.inr h0)]
  | cons v rest ih =>
    intro u pos n b hs hle
    unfold uiomoveLoop
    dsimp only
    by_cases h0 : u.uioResid = 0
    · rw [if_pos (Or.inr h0), if_pos (Or.inr h0)]
    obtain ⟨hlen, hrest⟩ := hs.of_pos h0
    have hn : ¬ (n = 0 ∨ u.uioResid = 0) := by omega
    have hr : ¬ (u.uioResid = 0 ∨ u.uioResid = 0) := by omega
    rw [if_neg hn, if_neg hr, Nat.min_eq_left (hlen.trans hle), Nat.min_eq_left hlen]
    by_cases hz : v.iovLen = 0
    · rw [hz, Nat.sub_zero] at hrest
      rw [if_pos hz, if_pos hz, ih hrest hle]
    rw [if_neg hz, if_neg hz]
    cases hm : moveSeg v.iovBase pos v.iovLen (u, b) with
    | stop => rfl
    | fail e z => rfl
    | ok _ z =>
      have hres : (z.1.advance v.iovLen).uioResid = u.uioResid - v.iovLen := by
        rw [← wsub_of_le hlen, ← (moveSeg_counters hm).2]
        rfl
      dsimp only
      rw [hres]
      by_cases hend : u.uioResid - v.iovLen = 0
      · rw [if_pos (Or.inr hend), if_pos (Or.inr hend)]
      · have h1 : ¬ (n - v.iovLen = 0 ∨ u.uioResid - v.iovLen = 0) := by omega
        have h2 : ¬ (u.uioResid - v.iovLen = 0 ∨ u.uioResid - v.iovLen = 0) := by omega
        have hnext : uiomoveLoop rest (pos + v.iovLen) (n - v.iovLen) (z.1.advance v.iovLen, z.2) =
            uiomoveLoop rest (pos + v.iovLen) (z.1.advance v.iovLen).uioResid (z.1.advance v.iovLen, z.2) :=
          ih (by rw [hres]; exact hrest) (by omega)
        rw [if_neg h1, if_neg h2, hnext, hres]

/-! ### Copies that fault -/

theorem mappedPrefix_le (mapped : ℕ → Bool) (p n : ℕ) : mappedPrefix mapped p n ≤ n := by
  induction n generalizing p with
  | zero => exact le_rfl
  | succ n ih =>
    rw [mappedPrefix]
    split_ifs
    · exact Nat.succ_le_succ (ih (p + 1))
    · exact Nat.zero_le _

theorem mapped_of_mappedPrefix {mapped : ℕ → Bool} {p n : ℕ} (h : mappedPrefix mapped p n = n) :
    ∀ a, p ≤ a → a < p + n → mapped a = true := by
  induction n generalizing p with
  | zero =>
    intro a h1 h2
    omega
  | succ n ih =>
    rw [mappedPrefix] at h
    split_ifs at h with hp
    intro a h1 h2
    rcases Nat.eq_or_lt_of_le h1 with rfl | hlt
    · exact hp
    · exact ih (Nat.succ_injective h) a (by omega) (by omega)

/-- A region that passes the check is in user space. -/
theorem le_userspacetop {p len : ℕ} (hlen : len < 2 ^ 32) (h : copycheck p len = .ok len) :
    p + len ≤ userspacetop := by
  by_contra hc
  have htop : userspacetop < 2 ^ 32 := by decide
  rcases Nat.lt_or_ge p userspacetop with hp | hp
  · exact copycheck_outside (hp.trans htop) hlen (Nat.lt_of_not_le hc) h
  · rw [copycheck_kernel hp] at h
    cases h

/-- A copy of bytes that cannot all be touched copies some of them and faults. -/
theorem copyin_faults {mapped : ℕ → Bool} {p len : ℕ} (hlen : len < 2 ^ 32) (h0 : len ≠ 0)
    (h : ¬ (p + len ≤ userspacetop ∧ ∀ a, p ≤ a → a < p + len → mapped a = true)) (mem b : Buf) (pos : ℕ) :
    ∃ k < len, copyin mem mapped p b pos len = (.error .efault, b.blit pos mem p k) ∧
      copyout b pos mem mapped p len = (.error .efault, mem.blit p b pos k) := by
  by_cases hc : copycheck p len = .ok len
  · have hk : mappedPrefix mapped p len ≠ len := fun hk => h ⟨le_userspacetop hlen hc, mapped_of_mappedPrefix hk⟩
    refine ⟨mappedPrefix mapped p len, lt_of_le_of_ne (mappedPrefix_le mapped p len) hk, ?_, ?_⟩
    · unfold copyin
      rw [hc]
      dsimp only
      rw [if_neg (not_not.mpr rfl), if_neg hk]
    · unfold copyout
      rw [hc]
      dsimp only
      rw [if_neg (not_not.mpr rfl), if_neg hk]
  · refine ⟨0, Nat.pos_of_ne_zero h0, ?_, ?_⟩
    · rw [copyin_refused hc, Buf.blit_zero]
    · rw [copyout_refused hc, Buf.blit_zero]

/-- The `switch` where something faults: a part of the bytes is moved. -/
theorem moveSeg_faults {base size : ℕ} (pos : ℕ) (hsize : size < 2 ^ 32) (h : ¬ u.SegOk base size) (b : Buf) :
    ∃ k < size, moveSeg base pos size (u, b) =
      .fail .efault ({ u with mem := if u.uioRw = .read then u.mem.blit base b pos k else u.mem },
        if u.uioRw = .write then b.blit pos u.mem base k else b) := by
  obtain ⟨iov, off, resid, seg, rw, mem, mapped⟩ := u
  have h0 : size ≠ 0 := fun h0 => h (Or.inr (Or.inl h0))
  have hseg : seg ≠ .sysspace := fun hs => h (Or.inl hs)
  obtain ⟨k, hk, hin, hout⟩ := copyin_faults hsize h0 (fun hc => h (Or.inr (Or.inr hc))) mem b pos
  refine ⟨k, hk, ?_⟩
  unfold moveSeg
  dsimp only at hin hout ⊢
  cases rw with
  | read => cases seg <;> first | exact absurd rfl hseg | (rw [hout]; rfl)
  | write => cases seg <;> first | exact absurd rfl hseg | (rw [hin]; rfl)

/-- **A move that faults.** -/
theorem uiomoveLoop_faults (iov : List Iovec) : ∀ {u : Uio} {n : ℕ} (pos : ℕ) (b : Buf), (∀ v ∈ iov, v.iovLen < 2 ^ 32) →
    n ≤ iovTotal iov → n ≤ u.uioResid → ¬ u.Reaches iov n →
    ∃ m k x, uiomoveLoop iov pos n (u, b) = .fail .efault x ∧ Splits iov m ∧ m + k < n ∧
      x.1.uioOffset = u.uioOffset + m ∧ x.1.uioResid = u.uioResid - m ∧
      x.1.mem = (u.streamed iov (fun i => b (pos + i)) (m + k)).mem ∧ x.2 = u.filled iov b pos (m + k) := by
  induction iov with
  | nil =>
    intro u n pos b _ htotal _ hnot
    exact absurd (show n = 0 from Nat.le_zero.mp htotal) hnot
  | cons v rest ih =>
    intro u n pos b hlens htotal hn hnot
    have hv : v.iovLen < 2 ^ 32 := hlens v List.mem_cons_self
    by_cases hseg : u.SegOk v.iovBase (min v.iovLen n)
    · have hmore : ¬ (n ≤ v.iovLen ∨ u.Reaches rest (n - v.iovLen)) := fun hc => hnot ⟨hseg, hc⟩
      have hlt : v.iovLen < n := Nat.lt_of_not_le fun h => hmore (Or.inl h)
      have hrest : n - v.iovLen ≤ iovTotal rest := by
        have : iovTotal (v :: rest) = v.iovLen + iovTotal rest := List.sum_cons
        omega
      have hne : rest ≠ [] := by
        rintro rfl
        have : iovTotal [] = 0 := rfl
        omega
      have hresid := past_resid v b pos (hlt.le.trans hn)
      rw [Nat.min_eq_left hlt.le] at hseg
      obtain ⟨m, k, x, hrun, hs, hk, hoff, hres, hmem, hbuf⟩ :=
        ih (u := u.past v b pos v.iovLen) (n := n - v.iovLen) (pos + v.iovLen)
          (if u.uioRw = .write then b.blit pos u.mem v.iovBase v.iovLen else b)
          (fun w hw => hlens w (List.mem_cons_of_mem _ hw)) hrest (by omega)
          fun hc => hmore (Or.inr (Uio.Reaches.congr (u := u.past v b pos v.iovLen) (w := u) rfl rfl hc))
      refine ⟨v.iovLen + m, k, x, ?_, hs.cons, by omega, ?_, ?_, ?_, ?_⟩
      · rw [uiomoveLoop_next v pos b hseg hlt hn hne, hrun]
      · rw [hoff, ← Nat.add_assoc]
        rfl
      · omega
      · rw [hmem, streamed_past_mem, Nat.add_assoc]
      · rw [hbuf, filled_past, Nat.add_assoc]
    · -- the fault is in this iovec
      obtain ⟨k, hk, hmove⟩ := moveSeg_faults pos (show min v.iovLen n < 2 ^ 32 by omega) hseg b
      have hne : ¬ (n = 0 ∨ u.uioResid = 0) := by omega
      have h0 : min v.iovLen n ≠ 0 := by omega
      have hrun : uiomoveLoop (v :: rest) pos n (u, b) = .fail .efault
          ({ u with mem := if u.uioRw = .read then u.mem.blit v.iovBase b pos k else u.mem, uioIov := v :: rest },
            if u.uioRw = .write then b.blit pos u.mem v.iovBase k else b) := by
        unfold uiomoveLoop
        dsimp only
        rw [if_neg hne, if_neg h0, hmove]
      refine ⟨0, k, _, hrun, Splits.zero _, by omega, rfl, rfl, ?_, ?_⟩
      · rw [Nat.zero_add, blit_eq_scatter_stream rest u.mem b pos (by omega)]
        rfl
      · rw [Nat.zero_add, blit_eq_blit_gathered rest b pos (by omega)]
        rfl

/-- **`uiomove`** of no more than the residue, or with a residue that ends with
an iovec. -/
theorem uiomove_moves (hlens : ∀ v ∈ u.uioIov, v.iovLen < 2 ^ 32) (htotal : u.uioResid ≤ iovTotal u.uioIov)
    (h : n ≤ u.uioResid ∨ Splits u.uioIov u.uioResid) (b : Buf) : u.Moves n b (uiomove n (u, b)) := by
  have hsmall : ∀ m ≤ u.uioResid, min n u.uioResid = m → u.Moves n b (uiomove m (u, b)) := by
    intro m hm hmin
    by_cases hreach : u.Reaches u.uioIov m
    · rw [uiomove_stream hreach hm]
      unfold Uio.Moves
      rw [hmin]
    · obtain ⟨l, k, x, hrun, hs, hk, hoff, hres, hmem, hbuf⟩ :=
        uiomoveLoop_faults u.uioIov 0 b hlens (hm.trans htotal) hm hreach
      simp only [Nat.zero_add] at hmem
      rw [show uiomove m (u, b) = .fail .efault x from hrun]
      unfold Uio.Moves
      rw [hmin]
      exact ⟨rfl, hreach, l, k, hs, hk, hoff, hres, hmem, hbuf⟩
  by_cases hn : n ≤ u.uioResid
  · exact hsmall n hn (Nat.min_eq_left hn)
  · have hs : Splits u.uioIov u.uioResid := h.resolve_left hn
    have hcap : uiomove n (u, b) = uiomove u.uioResid (u, b) := uiomoveLoop_capped u.uioIov hs (Nat.le_of_not_le hn)
    rw [hcap]
    exact hsmall _ le_rfl (Nat.min_eq_right (Nat.le_of_not_le hn))

/-! ### Zeros -/

end Moves

end Os161
