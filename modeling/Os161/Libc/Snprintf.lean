/-
# `vsnprintf`

`common/libc/printf/snprintf.c`: `__vprintf` into a buffer. The callback stores
characters while there is room and ignores the rest, and a NUL goes behind what
was stored.

The buffer is memory from `buf` on, of which only the first `len` bytes are the
caller's. The format and the arguments are not in it.
-/
import Os161.Libc.PrintfOutput

namespace Os161

namespace Printf

/-- `SNP`. -/
structure Snp where
  buf : ℕ → UInt8
  buflen : ℕ
  bufpos : ℕ

/-- The body of the loop of `__snprintf_send`. -/
def Snp.put (snp : Snp) (c : UInt8) : Snp :=
  if snp.bufpos < snp.buflen then
    { snp with buf := Function.update snp.buf snp.bufpos c, bufpos := snp.bufpos + 1 }
  else snp

/-- `__snprintf_send`. -/
def snprintfSend (snp : Snp) (data : Text) : Snp := data.foldl Snp.put snp

/-- `vsnprintf`: the result and the memory at `buf`. -/
def vsnprintf {A : Type} (va : VaList A) (buf : ℕ → UInt8) (len : ℕ) (fmt : Text) (ap : A) : Option (ℤ × (ℕ → UInt8)) :=
  match vprintf snprintfSend va ⟨buf, if len = 0 then 0 else len - 1, 0⟩ fmt ap with
  | none => none
  | some (chars, snp) => some (chars, if 0 < len then Function.update snp.buf snp.bufpos 0 else snp.buf)

/-- Memory with a text at its start. -/
def overlay (buf : ℕ → UInt8) (txt : Text) (i : ℕ) : UInt8 := txt.getD i (buf i)

theorem overlay_nil (buf : ℕ → UInt8) : overlay buf [] = buf := by
  funext i
  rfl

theorem overlay_of_le {buf : ℕ → UInt8} {txt : Text} {i : ℕ} (h : txt.length ≤ i) : overlay buf txt i = buf i := by
  simp [overlay, h]

/-- A character stored behind the text. -/
theorem overlay_snoc (buf : ℕ → UInt8) (txt : Text) (c : UInt8) :
    Function.update (overlay buf txt) txt.length c = overlay buf (txt ++ [c]) := by
  funext i
  unfold overlay
  rcases lt_trichotomy i txt.length with h | h | h
  · rw [Function.update_of_ne h.ne]
    simp [List.getElem?_append_left h]
  · subst h
    simp
  · rw [Function.update_of_ne h.ne']
    have h1 : txt.length ≤ i := h.le
    have h2 : (txt ++ [c]).length ≤ i := by
      simp
      omega
    simp [List.getElem?_eq_none h1, List.getElem?_eq_none h2]

/-- What the callback makes of a text: its first characters are stored. -/
theorem snprintfSend_eq (buf : ℕ → UInt8) (buflen : ℕ) (out : Text) :
    snprintfSend ⟨buf, buflen, 0⟩ out = ⟨overlay buf (out.take buflen), buflen, (out.take buflen).length⟩ := by
  induction out using List.reverseRecOn with
  | nil => simp [snprintfSend, overlay_nil]
  | append_singleton out c ih =>
    have hstep : snprintfSend ⟨buf, buflen, 0⟩ (out ++ [c]) = (snprintfSend ⟨buf, buflen, 0⟩ out).put c := by
      simp [snprintfSend]
    rw [hstep, ih]
    unfold Snp.put
    by_cases hroom : out.length < buflen
    · have htake : out.take buflen = out := List.take_of_length_le hroom.le
      have htake' : (out ++ [c]).take buflen = out ++ [c] := List.take_of_length_le (by simpa using hroom)
      rw [htake, htake', if_pos hroom]
      simp only [overlay_snoc, List.length_append, List.length_singleton]
    · have htake : (out ++ [c]).take buflen = out.take buflen := List.take_append_of_le_length (not_lt.mp hroom)
      rw [htake, if_neg (by simp; omega)]

section Truncates

variable {A : Type} (va : VaList A)

/-- The output of a format. -/
def output (fmt : Text) (ap : A) : Text :=
  match vprintf keep va [] fmt ap with
  | some (_, out) => out
  | none => []

/-- `__vprintf` sends `output`, and counts it. -/
theorem vprintf_output (fmt : Text) (ap : A) :
    vprintf keep va [] fmt ap = some (toInt (output va fmt ap).length, output va fmt ap) := by
  obtain ⟨out, hout⟩ := vprintf_returns va fmt ap
  unfold output
  rw [hout]

/-- `vsnprintf` on any format, arguments and buffer. -/
theorem vsnprintf_eq (buf : ℕ → UInt8) (len : ℕ) (fmt : Text) (ap : A) :
    vsnprintf va buf len fmt ap = some (toInt (output va fmt ap).length,
      if 0 < len then overlay buf ((output va fmt ap).take (len - 1) ++ [0]) else buf) := by
  have hcopy : ∀ d txt, snprintfSend ⟨buf, if len = 0 then 0 else len - 1, 0⟩ (keep d txt) =
      snprintfSend (snprintfSend ⟨buf, if len = 0 then 0 else len - 1, 0⟩ d) txt := fun d txt => List.foldl_append
  have hmaps := vprintf_maps hcopy va [] fmt ap
  have hnil : snprintfSend ⟨buf, if len = 0 then 0 else len - 1, 0⟩ [] = ⟨buf, if len = 0 then 0 else len - 1, 0⟩ := rfl
  rw [vprintf_output, hnil] at hmaps
  unfold vsnprintf
  rw [hmaps, Option.map_some, snprintfSend_eq]
  by_cases hlen : 0 < len
  · simp only [if_pos hlen, if_neg hlen.ne', overlay_snoc]
  · have hzero : len = 0 := by omega
    simp [hzero, overlay_nil]

/-- **`vsnprintf` truncates faithfully.** For every format, arguments and
buffer, it returns the length of the output; it changes no byte from `len` on,
and nothing at all if `len` is 0; otherwise it stores the first `len - 1`
characters of the output, or all of them if they are fewer, and a NUL. So what
is stored for one length begins what is stored for any greater one. -/
theorem vsnprintf_truncates (buf : ℕ → UInt8) (len : ℕ) (fmt : Text) (ap : A)
    (htotal : (output va fmt ap).length < 2 ^ 31) :
    ∃ mem, vsnprintf va buf len fmt ap = some (((output va fmt ap).length : ℤ), mem) ∧
      (∀ i, len ≤ i → mem i = buf i) ∧
      (0 < len → mem = overlay buf ((output va fmt ap).take (len - 1) ++ [0])) ∧
      (len = 0 → mem = buf) ∧
      (∀ len', len ≤ len' → (output va fmt ap).take (len - 1) <+: (output va fmt ap).take (len' - 1)) := by
  rw [vsnprintf_eq, toInt_of_lt (by omega) (by exact_mod_cast htotal)]
  refine ⟨_, rfl, fun i hi => ?_, fun hlen => if_pos hlen, fun hlen => if_neg (by omega), fun len' hle => ?_⟩
  · split_ifs with hlen
    · refine overlay_of_le ?_
      simp only [List.length_append, List.length_take, List.length_singleton]
      omega
    · rfl
  · exact List.take_prefix_take_left (by omega)

/-- No arguments. -/
def noArgs : VaList Unit := ⟨fun _ => (0, ()), fun _ => (0, ()), fun _ => (none, ())⟩

/-- "%3s", with a null pointer, into four bytes: "(nu". -/
theorem vsnprintf_truncates_null :
    ∃ mem, vsnprintf noArgs (fun _ => 7) 4 [percent, 51, charS] () = some (6, mem) ∧ mem = overlay (fun _ => 7) [40, 110, 117, 0] := by
  obtain ⟨mem, hrun, -, hmem, -⟩ := vsnprintf_truncates noArgs (fun _ => 7) 4 [percent, 51, charS] () (by decide +kernel)
  have hout : output noArgs [percent, 51, charS] () = nullText := by decide +kernel
  rw [hout] at hrun hmem
  exact ⟨mem, hrun, hmem (by decide)⟩

end Truncates

end Printf

end Os161
