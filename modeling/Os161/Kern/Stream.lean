/-
# Moves through any number of iovecs

The iovecs of a uio are a stream of addresses: `streamAddr iov i` is that of
byte `i`. Where the first `n` of them can be touched (`Uio.Reaches`), `uiomove`
moves `n` bytes along the stream and leaves the iovecs with the rest of it
(`uiomove_stream`). So a move of `a + c` bytes is one of `a` and then one of `c`
(`streamAddr_dropIov`, `dropIov_dropIov`, `Uio.Reaches.split`).
-/
import Os161.Kern.Uio
import Os161.Lib.Scatter

namespace Os161

/-- The address of byte `i` of the stream. -/
def streamAddr : List Iovec → ℕ → ℕ
  | [], _ => 0
  | v :: rest, i => if i < v.iovLen then v.iovBase + i else streamAddr rest (i - v.iovLen)

/-- The iovecs after `n` bytes. An iovec used up stays until the next move. -/
def dropIov : List Iovec → ℕ → List Iovec
  | [], _ => []
  | v :: rest, n =>
    if n = 0 then v :: rest
    else if n ≤ v.iovLen then ⟨v.iovBase + n, v.iovLen - n⟩ :: rest
    else dropIov rest (n - v.iovLen)

/-- The `n` bytes at `p` can be touched: they are the kernel's, or mapped bytes
of user space. -/
def Uio.SegOk (u : Uio) (p n : ℕ) : Prop :=
  u.uioSegflg = .sysspace ∨ n = 0 ∨ (p + n ≤ userspacetop ∧ ∀ a, p ≤ a → a < p + n → u.mapped a = true)

/-- The stream of `iov` has `n` bytes, which can be touched. -/
def Uio.Reaches (u : Uio) : List Iovec → ℕ → Prop
  | [], n => n = 0
  | v :: rest, n => u.SegOk v.iovBase (min v.iovLen n) ∧ (n ≤ v.iovLen ∨ u.Reaches rest (n - v.iovLen))

section Streams

variable {u : Uio} {iov : List Iovec} {a c n : ℕ}

theorem dropIov_zero (iov : List Iovec) : dropIov iov 0 = iov := by
  cases iov with
  | nil => rfl
  | cons v rest => exact if_pos rfl

theorem dropIov_within {v : Iovec} (rest : List Iovec) (h0 : 0 < n) (hle : n ≤ v.iovLen) :
    dropIov (v :: rest) n = ⟨v.iovBase + n, v.iovLen - n⟩ :: rest := by
  rw [dropIov, if_neg h0.ne', if_pos hle]

theorem dropIov_past {v : Iovec} (rest : List Iovec) (hlt : v.iovLen < n) :
    dropIov (v :: rest) n = dropIov rest (n - v.iovLen) := by
  have h0 : n ≠ 0 := by omega
  rw [dropIov, if_neg h0, if_neg (Nat.not_le.mpr hlt)]

theorem streamAddr_within {v : Iovec} (rest : List Iovec) {i : ℕ} (h : i < v.iovLen) :
    streamAddr (v :: rest) i = v.iovBase + i := if_pos h

theorem streamAddr_past {v : Iovec} (rest : List Iovec) (i : ℕ) :
    streamAddr (v :: rest) (v.iovLen + i) = streamAddr rest i := by
  have h : ¬ v.iovLen + i < v.iovLen := by omega
  rw [streamAddr, if_neg h, Nat.add_sub_cancel_left]

theorem Uio.SegOk.take (h : u.SegOk a n) {k : ℕ} (hk : k ≤ n) : u.SegOk a k := by
  rcases h with h | h | ⟨htop, hm⟩
  · exact Or.inl h
  · exact Or.inr (Or.inl (by omega))
  · exact Or.inr (Or.inr ⟨by omega, fun x h1 h2 => hm x h1 (by omega)⟩)

theorem Uio.SegOk.drop (h : u.SegOk a n) {k : ℕ} (hk : k ≤ n) : u.SegOk (a + k) (n - k) := by
  rcases h with h | h | ⟨htop, hm⟩
  · exact Or.inl h
  · exact Or.inr (Or.inl (by omega))
  · exact Or.inr (Or.inr ⟨by omega, fun x h1 h2 => hm x (by omega) (by omega)⟩)

/-- A move that can be made can be made in two. -/
theorem Uio.Reaches.split (h : u.Reaches iov (a + c)) : u.Reaches iov a ∧ u.Reaches (dropIov iov a) c := by
  induction iov generalizing a with
  | nil =>
    have h0 : a + c = 0 := h
    exact ⟨show a = 0 by omega, show c = 0 by omega⟩
  | cons v rest ih =>
    obtain ⟨hseg, hrest⟩ := h
    have htake : u.SegOk v.iovBase (min v.iovLen a) := hseg.take (by omega)
    by_cases h0 : a = 0
    · subst h0
      rw [Nat.zero_add] at hseg hrest
      exact ⟨⟨htake, Or.inl (Nat.zero_le _)⟩, by rw [dropIov_zero]; exact ⟨hseg, hrest⟩⟩
    by_cases hle : a ≤ v.iovLen
    · refine ⟨⟨htake, Or.inl hle⟩, ?_⟩
      rw [dropIov_within rest (Nat.pos_of_ne_zero h0) hle]
      have hdrop := hseg.drop (k := a) (by omega)
      rw [show min v.iovLen (a + c) - a = min (v.iovLen - a) c by omega] at hdrop
      refine ⟨hdrop, hrest.imp (fun h => ?_) fun h => ?_⟩
      · show c ≤ v.iovLen - a
        omega
      · rwa [show c - (v.iovLen - a) = a + c - v.iovLen by omega]
    · have hrest := hrest.resolve_left (by omega)
      rw [show a + c - v.iovLen = a - v.iovLen + c by omega] at hrest
      obtain ⟨h1, h2⟩ := ih hrest
      rw [dropIov_past rest (Nat.lt_of_not_le hle)]
      exact ⟨⟨htake, Or.inr h1⟩, h2⟩

theorem Uio.Reaches.congr {w : Uio} (hseg : w.uioSegflg = u.uioSegflg) (hmap : w.mapped = u.mapped) :
    ∀ {iov : List Iovec} {n : ℕ}, u.Reaches iov n → w.Reaches iov n := by
  intro iov
  induction iov with
  | nil => exact fun h => h
  | cons v rest ih =>
    intro n h
    refine ⟨?_, h.2.imp_right ih⟩
    unfold Uio.SegOk
    rw [hseg, hmap]
    exact h.1

/-- The uio after `n` bytes from the buffer `src` on a read. -/
def Uio.streamed (u : Uio) (iov : List Iovec) (src : Buf) (n : ℕ) : Uio :=
  { u.advance n with
    uioIov := dropIov iov n
    mem := if u.uioRw = .read then Buf.scatter (streamAddr iov) src n u.mem else u.mem }

/-- The bytes of the stream. -/
def Uio.gathered (u : Uio) (iov : List Iovec) : Buf := fun i => u.mem (streamAddr iov i)

/-- The buffer after `n` bytes on a write. -/
def Uio.filled (u : Uio) (iov : List Iovec) (b : Buf) (pos n : ℕ) : Buf :=
  if u.uioRw = .write then b.blit pos (u.gathered iov) 0 n else b

/-- The `switch` of `uiomove` where nothing faults. -/
theorem moveSeg_segOk {base pos size : ℕ} (h : u.SegOk base size) (h0 : 0 < size) (b : Buf) :
    moveSeg base pos size (u, b) = .ok () ({ u with mem := if u.uioRw = .read then u.mem.blit base b pos size else u.mem },
      if u.uioRw = .write then b.blit pos u.mem base size else b) := by
  obtain ⟨iov, off, resid, seg, rw, mem, mapped⟩ := u
  have huser : seg ≠ .sysspace → ¬ userFault mapped base size := fun hs => by
    obtain ⟨htop, hm⟩ := (h.resolve_left hs).resolve_left h0.ne'
    exact not_userFault h0 htop hm
  have hin : seg ≠ .sysspace → copyin mem mapped base b pos size = (.ok (), b.blit pos mem base size) :=
    fun hs => (copyin_cases mem mapped base b pos size).resolve_right fun hf => huser hs hf.1
  have hout : seg ≠ .sysspace → copyout b pos mem mapped base size = (.ok (), mem.blit base b pos size) :=
    fun hs => (copyout_cases b pos mem mapped base size).resolve_right fun hf => huser hs hf.1
  unfold moveSeg
  dsimp only
  cases seg with
  | sysspace => cases rw <;> rfl
  | userspace =>
    rw [hin (fun h => nomatch h), hout (fun h => nomatch h)]
    cases rw <;> rfl
  | userispace =>
    rw [hin (fun h => nomatch h), hout (fun h => nomatch h)]
    cases rw <;> rfl

theorem streamed_zero (u : Uio) (iov : List Iovec) (src : Buf) : u.streamed iov src 0 = { u with uioIov := iov } := by
  unfold Uio.streamed
  rw [advance_zero, dropIov_zero]
  simp only [Buf.scatter, ite_self]

theorem filled_zero (u : Uio) (iov : List Iovec) (b : Buf) (pos : ℕ) : u.filled iov b pos 0 = b := by
  unfold Uio.filled
  rw [Buf.blit_zero, ite_self]

/-- The uio and the buffer after the first iovec. -/
def Uio.past (u : Uio) (v : Iovec) (b : Buf) (pos size : ℕ) : Uio :=
  Uio.advance { u with mem := if u.uioRw = .read then u.mem.blit v.iovBase b pos size else u.mem } size

theorem past_resid (v : Iovec) (b : Buf) (pos : ℕ) (hle : n ≤ u.uioResid) :
    (u.past v b pos n).uioResid = u.uioResid - n := wsub_of_le hle

/-- The first iovec and the rest of the stream: the memory, -/
theorem scatter_past (v : Iovec) (rest : List Iovec) (mem b : Buf) (pos m : ℕ) :
    Buf.scatter (streamAddr rest) (fun i => b (pos + v.iovLen + i)) m (mem.blit v.iovBase b pos v.iovLen) =
      Buf.scatter (streamAddr (v :: rest)) (fun i => b (pos + i)) (v.iovLen + m) mem := by
  have hfirst : Buf.scatter (streamAddr (v :: rest)) (fun i => b (pos + i)) v.iovLen mem =
      Buf.scatter (fun i => v.iovBase + i) (fun i => b (pos + i)) v.iovLen mem :=
    Buf.scatter_congr _ (fun i hi => streamAddr_within rest hi) fun _ _ => rfl
  rw [Buf.scatter_add, hfirst, ← Buf.blit_eq_scatter]
  exact Buf.scatter_congr _ (fun i _ => (streamAddr_past rest i).symm) fun i _ => by rw [Nat.add_assoc]

theorem streamed_past_mem (v : Iovec) (rest : List Iovec) (b : Buf) (pos m : ℕ) :
    ((u.past v b pos v.iovLen).streamed rest
      (fun i => (if u.uioRw = .write then b.blit pos u.mem v.iovBase v.iovLen else b) (pos + v.iovLen + i)) m).mem =
      (u.streamed (v :: rest) (fun i => b (pos + i)) (v.iovLen + m)).mem := by
  have h := scatter_past v rest u.mem b pos m
  obtain ⟨iov, off, resid, seg, rw, mem, mapped⟩ := u
  cases rw with
  | read => exact h
  | write => rfl

/-- the uio, -/
theorem streamed_past (v : Iovec) (rest : List Iovec) (b : Buf) (pos : ℕ) {m : ℕ} (hpos : 0 < m)
    (hm : v.iovLen + m ≤ u.uioResid) :
    (u.past v b pos v.iovLen).streamed rest
      (fun i => (if u.uioRw = .write then b.blit pos u.mem v.iovBase v.iovLen else b) (pos + v.iovLen + i)) m =
      u.streamed (v :: rest) (fun i => b (pos + i)) (v.iovLen + m) := by
  have hresid : wsub (wsub u.uioResid v.iovLen) m = wsub u.uioResid (v.iovLen + m) := by
    have hfirst : wsub u.uioResid v.iovLen = u.uioResid - v.iovLen := wsub_of_le (by omega)
    have hsecond : m ≤ u.uioResid - v.iovLen := by omega
    rw [hfirst, wsub_of_le hsecond, wsub_of_le hm]
    omega
  have hdrop : dropIov (v :: rest) (v.iovLen + m) = dropIov rest m := by
    rw [dropIov_past rest (by omega), Nat.add_sub_cancel_left]
  have hmem := streamed_past_mem (u := u) v rest b pos m
  unfold Uio.streamed Uio.past Uio.advance at hmem ⊢
  simp only [Uio.mk.injEq, hresid, hdrop, true_and, and_true]
  exact ⟨by omega, hmem⟩

/-- and the buffer. -/
theorem filled_past (v : Iovec) (rest : List Iovec) (b : Buf) (pos m : ℕ) :
    (u.past v b pos v.iovLen).filled rest (if u.uioRw = .write then b.blit pos u.mem v.iovBase v.iovLen else b)
      (pos + v.iovLen) m = u.filled (v :: rest) b pos (v.iovLen + m) := by
  unfold Uio.filled
  by_cases hw : u.uioRw = .write
  · have hr : ¬ u.uioRw = .read := by
      rw [hw]
      decide
    have hrw : (u.past v b pos v.iovLen).uioRw = .write := hw
    have hmem : (u.past v b pos v.iovLen).mem = u.mem := if_neg hr
    rw [if_pos hrw, if_pos hw, if_pos hw]
    funext x
    unfold Uio.gathered
    rw [hmem]
    by_cases h1 : pos + v.iovLen ≤ x ∧ x < pos + (v.iovLen + m)
    · obtain ⟨i, rfl⟩ : ∃ i, x = pos + (v.iovLen + i) := ⟨x - pos - v.iovLen, by omega⟩
      rw [Buf.blit_inside _ _ _ _ _ (by omega), Buf.blit_inside _ _ _ _ _ (by omega), Nat.zero_add, Nat.zero_add,
        Nat.add_sub_cancel_left, streamAddr_past, ← Nat.add_assoc pos, Nat.add_sub_cancel_left]
    · rw [Buf.blit_outside _ _ _ _ _ (by omega)]
      by_cases h2 : pos ≤ x ∧ x < pos + v.iovLen
      · rw [Buf.blit_inside _ _ _ _ _ h2, Buf.blit_inside _ _ _ _ _ (by omega), Nat.zero_add,
          streamAddr_within rest (by omega)]
      · rw [Buf.blit_outside _ _ _ _ _ h2, Buf.blit_outside _ _ _ _ _ (by omega)]
  · have hrw : ¬ (u.past v b pos v.iovLen).uioRw = .write := hw
    rw [if_neg hrw, if_neg hw, if_neg hw]

/-- Bytes within the first iovec: into the memory, -/
theorem blit_eq_scatter_stream {v : Iovec} (rest : List Iovec) (mem b : Buf) (pos : ℕ) (hle : n ≤ v.iovLen) :
    mem.blit v.iovBase b pos n = Buf.scatter (streamAddr (v :: rest)) (fun i => b (pos + i)) n mem := by
  rw [Buf.blit_eq_scatter]
  exact Buf.scatter_congr _ (fun i hi => (streamAddr_within rest (by omega)).symm) fun _ _ => rfl

/-- and out of it. -/
theorem blit_eq_blit_gathered {v : Iovec} (rest : List Iovec) (b : Buf) (pos : ℕ) (hle : n ≤ v.iovLen) :
    b.blit pos u.mem v.iovBase n = b.blit pos (u.gathered (v :: rest)) 0 n := by
  funext x
  by_cases hx : pos ≤ x ∧ x < pos + n
  · have hi : x - pos < v.iovLen := by omega
    rw [Buf.blit_inside _ _ _ _ _ hx, Buf.blit_inside _ _ _ _ _ hx, Nat.zero_add, Uio.gathered,
      streamAddr_within rest hi]
  · rw [Buf.blit_outside _ _ _ _ _ hx, Buf.blit_outside _ _ _ _ _ hx]

/-- The rounds of the loop: the last one, in this iovec, -/
theorem uiomoveLoop_last (v : Iovec) (rest : List Iovec) (pos : ℕ) (b : Buf) (hseg : u.SegOk v.iovBase n) (hpos : 0 < n)
    (hle : n ≤ v.iovLen) (hn : n ≤ u.uioResid) :
    uiomoveLoop (v :: rest) pos n (u, b) =
      .ok () ({ u.past v b pos n with uioIov := ⟨v.iovBase + n, v.iovLen - n⟩ :: rest },
        if u.uioRw = .write then b.blit pos u.mem v.iovBase n else b) := by
  have hne : ¬ (n = 0 ∨ u.uioResid = 0) := by omega
  unfold uiomoveLoop
  dsimp only
  rw [if_neg hne, Nat.min_eq_right hle, if_neg hpos.ne', moveSeg_segOk hseg hpos b]
  exact if_pos (Or.inl (Nat.sub_self n))

/-- and one that uses its iovec up. -/
theorem uiomoveLoop_next (v : Iovec) {rest : List Iovec} (pos : ℕ) (b : Buf) (hseg : u.SegOk v.iovBase v.iovLen)
    (hlt : v.iovLen < n) (hn : n ≤ u.uioResid) (hrest : rest ≠ []) :
    uiomoveLoop (v :: rest) pos n (u, b) = uiomoveLoop rest (pos + v.iovLen) (n - v.iovLen) (u.past v b pos v.iovLen,
      if u.uioRw = .write then b.blit pos u.mem v.iovBase v.iovLen else b) := by
  have hne : ¬ (n = 0 ∨ u.uioResid = 0) := by omega
  conv_lhs => unfold uiomoveLoop
  dsimp only
  rw [if_neg hne, Nat.min_eq_left hlt.le]
  by_cases h0 : v.iovLen = 0
  · have hsame : u.past v b pos 0 = u := by
      unfold Uio.past
      rw [Buf.blit_zero, ite_self, advance_zero]
    rw [if_pos h0, if_neg hrest, h0, hsame, Buf.blit_zero, ite_self]
    rfl
  · have hresid := past_resid v b pos (hlt.le.trans hn)
    have hmore : ¬ (n - v.iovLen = 0 ∨ (u.past v b pos v.iovLen).uioResid = 0) := by omega
    rw [if_neg h0, moveSeg_segOk hseg (Nat.pos_of_ne_zero h0) b]
    exact (if_neg hmore).trans (if_neg hrest)

/-- **The loop of `uiomove`** where nothing faults and the stream is long enough. -/
theorem uiomoveLoop_stream (iov : List Iovec) : ∀ {u : Uio} {n : ℕ} (pos : ℕ) (b : Buf), (iov = [] → u.uioIov = []) →
    u.Reaches iov n → n ≤ u.uioResid →
    uiomoveLoop iov pos n (u, b) = .ok () (u.streamed iov (fun i => b (pos + i)) n, u.filled iov b pos n) := by
  induction iov with
  | nil =>
    intro u n pos b hnil hreach hn
    obtain rfl : n = 0 := hreach
    have hsame : ({ u with uioIov := [] } : Uio) = u := by rw [← hnil rfl]
    rw [streamed_zero, filled_zero, hsame]
    unfold uiomoveLoop
    exact if_pos (Or.inl rfl)
  | cons v rest ih =>
    intro u n pos b _ hreach hn
    obtain ⟨hseg, hrest⟩ := hreach
    rcases Nat.eq_zero_or_pos n with rfl | hpos
    · rw [streamed_zero, filled_zero]
      unfold uiomoveLoop
      exact if_pos (Or.inl rfl)
    rcases Nat.lt_or_ge v.iovLen n with hlt | hle
    · have hreach := hrest.resolve_left (Nat.not_le.mpr hlt)
      have hne : rest ≠ [] := by
        rintro rfl
        have h0 : n - v.iovLen = 0 := hreach
        omega
      have hresid := past_resid v b pos (hlt.le.trans hn)
      have hafter := Uio.Reaches.congr (u := u) (w := u.past v b pos v.iovLen) rfl rfl hreach
      have hleft : n - v.iovLen ≤ (u.past v b pos v.iovLen).uioResid := by omega
      rw [Nat.min_eq_left hlt.le] at hseg
      have hsplit : v.iovLen + (n - v.iovLen) = n := by omega
      rw [uiomoveLoop_next v pos b hseg hlt hn hne, ih _ _ (fun h => absurd h hne) hafter hleft,
        filled_past v rest b pos, streamed_past v rest b pos (by omega) (by omega), hsplit]
    · rw [Nat.min_eq_right hle] at hseg
      rw [uiomoveLoop_last v rest pos b hseg hpos hle hn]
      unfold Uio.streamed Uio.filled Uio.past
      rw [dropIov_within rest hpos hle, blit_eq_scatter_stream rest u.mem b pos hle, blit_eq_blit_gathered rest b pos hle]
      rfl

/-- **`uiomove`** where nothing faults and the stream is long enough. -/
theorem uiomove_stream (hreach : u.Reaches u.uioIov n) (hn : n ≤ u.uioResid) (b : Buf) :
    uiomove n (u, b) = .ok () (u.streamed u.uioIov b n, u.filled u.uioIov b 0 n) := by
  have h := uiomoveLoop_stream u.uioIov 0 b (fun h => h) hreach hn
  simp only [Nat.zero_add] at h
  exact h

end Streams

end Os161
