/-
# Reading integer fields back

`readBack` drops the spaces of a field and reads the sign, the base prefix and
the digits of the rest.

With both `-` and `0` the field is filled on the right, with zeros, and these
are read as digits: the field then reads back only if there is nothing to fill
or the value is 0 (`printf_field_reads_back_iff`).
-/
import Os161.Libc.PrintfField

namespace Os161

namespace Printf

/-- The value of a digit in a base. -/
def digitValue (base : ℕ) (c : UInt8) : Option ℕ :=
  let d := if zero ≤ c ∧ c ≤ nine then c.toNat - 48 else if 97 ≤ c ∧ c ≤ 102 then c.toNat - 87 else base
  if d < base then some d else none

/-- The value of digits after `n`. -/
def parseDigits (base : ℕ) : ℕ → Text → Option ℕ
  | n, [] => some n
  | n, c :: cs => (digitValue base c).bind fun d => parseDigits base (n * base + d) cs

/-- An unsigned number, in base 16 with or without `0x`. -/
def parseUnsigned (base : ℕ) (txt : Text) : Option ℕ :=
  let body := if base = 16 ∧ txt.take 2 = [zero, charX] then txt.drop 2 else txt
  if body = [] then none else parseDigits base 0 body

/-- A number with or without a sign. -/
def parseInteger (base : ℕ) (txt : Text) : Option ℤ :=
  if txt.head? = some minus then (parseUnsigned base txt.tail).map fun n => -(n : ℤ)
  else (parseUnsigned base txt).map fun n => (n : ℤ)

/-- A field without its spaces, read in a base. -/
def readBack (base : ℕ) (field : Text) : Option ℤ := parseInteger base (field.filter (· ≠ space))

section Parse

theorem digitValue_digit {base d : ℕ} (hb : base ≤ 16) (hd : d < base) : digitValue base (digit d) = some d := by
  have h16 : ∀ d < 16, (if zero ≤ digit d ∧ digit d ≤ nine then (digit d).toNat - 48
      else if 97 ≤ digit d ∧ digit d ≤ 102 then (digit d).toNat - 87 else base) = d := by
    intro d hd
    interval_cases d <;> rfl
  unfold digitValue
  simp only [h16 d (by omega), hd, if_true]

theorem digit_ne : ∀ d < 16, digit d ≠ space ∧ digit d ≠ minus ∧ digit d ≠ charX := by
  decide

theorem parseDigits_digits {base : ℕ} (hb : base ≤ 16) (ds : List ℕ) : ∀ n, (∀ d ∈ ds, d < base) →
    parseDigits base n (ds.map digit) = some (readDigits base n ds) := by
  induction ds with
  | nil => exact fun n _ => rfl
  | cons d ds ih =>
    intro n hds
    rw [List.map_cons, parseDigits, digitValue_digit hb (hds d List.mem_cons_self), Option.bind_some,
      ih _ fun d hd => hds d (List.mem_cons_of_mem _ hd)]
    rfl

/-- Digits without a prefix: the second is no `x`. -/
theorem parseUnsigned_plain {base : ℕ} (hb : base ≤ 16) {ds : List ℕ} (hne : ds ≠ []) (hds : ∀ d ∈ ds, d < base) :
    parseUnsigned base (ds.map digit) = some (readDigits base 0 ds) := by
  have hmap : ds.map digit ≠ [] := by simpa using hne
  have hx : (ds.map digit).take 2 ≠ [zero, charX] := by
    intro h
    have hmem : charX ∈ ds.map digit := List.mem_of_mem_take (h ▸ by simp : charX ∈ (ds.map digit).take 2)
    obtain ⟨d, hd, hch⟩ := List.mem_map.mp hmem
    exact (digit_ne d ((hds d hd).trans_le hb)).2.2 hch
  unfold parseUnsigned
  simp only [hx, and_false, if_false, hmap]
  exact parseDigits_digits hb ds 0 hds

/-- A base prefix is skipped, or read as a digit 0. -/
theorem parseUnsigned_digits {base : ℕ} (hb : base ≤ 16) {ds : List ℕ} (hne : ds ≠ []) (hds : ∀ d ∈ ds, d < base)
    (alt : Bool) : parseUnsigned base (basePrefix alt base ++ ds.map digit) = some (readDigits base 0 ds) := by
  unfold basePrefix
  split_ifs with h16 h8
  · have hmap : ds.map digit ≠ [] := by simpa using hne
    unfold parseUnsigned
    simp [h16.2, hmap, h16.2 ▸ parseDigits_digits hb ds 0 hds]
  · have hzero : [zero] ++ ds.map digit = (0 :: ds).map digit := rfl
    have hds' : ∀ d ∈ 0 :: ds, d < base := by
      intro d hd
      rcases List.mem_cons.mp hd with rfl | hd
      · omega
      · exact hds d hd
    rw [hzero, parseUnsigned_plain hb (List.cons_ne_nil _ _) hds']
    simp [readDigits]
  · exact parseUnsigned_plain hb hne hds

theorem parseInteger_digits {base : ℕ} (hb : base ≤ 16) {ds : List ℕ} (hne : ds ≠ []) (hds : ∀ d ∈ ds, d < base)
    (sign alt : Bool) :
    parseInteger base (signPrefix sign ++ basePrefix alt base ++ ds.map digit) =
      some (if sign then -(readDigits base 0 ds : ℤ) else readDigits base 0 ds) := by
  have hun := parseUnsigned_digits hb hne hds alt
  unfold parseInteger
  cases sign with
  | true => simp [signPrefix, hun]
  | false =>
    have hhead : (signPrefix false ++ basePrefix alt base ++ ds.map digit).head? ≠ some minus := by
      obtain ⟨d, rest, rfl⟩ := List.exists_cons_of_ne_nil hne
      have hd : d < 16 := (hds d List.mem_cons_self).trans_le hb
      unfold basePrefix
      split_ifs <;> simp [signPrefix, zero, minus]
      exact (digit_ne d hd).2.1
    rw [if_neg hhead]
    simp [signPrefix, hun]

/-- Zeros before the digits do not count. -/
theorem readDigits_zeros (base k : ℕ) (ds : List ℕ) :
    readDigits base 0 (List.replicate k 0 ++ ds) = readDigits base 0 ds := by
  induction k with
  | zero => rfl
  | succ k ih =>
    rw [List.replicate_succ, List.cons_append, ← ih]
    simp [readDigits]

/-- Zeros after the digits do. -/
theorem readDigits_append_zeros (base n k : ℕ) (ds : List ℕ) :
    readDigits base n (ds ++ List.replicate k 0) = readDigits base n ds * base ^ k := by
  induction k with
  | zero => simp
  | succ k ih =>
    rw [List.replicate_succ', ← List.append_assoc]
    unfold readDigits at *
    rw [List.foldl_append, ih, List.foldl_cons, List.foldl_nil, pow_succ]
    ring

/-- The digits of a number. -/
def numDigits (base n : ℕ) : List ℕ := if n = 0 then [0] else (Nat.digits base n).reverse

theorem numText_eq (base n : ℕ) : numText base n = (numDigits base n).map digit := by
  unfold numText numDigits
  split_ifs <;> rfl

theorem numDigits_ne_nil (base n : ℕ) : numDigits base n ≠ [] := by
  unfold numDigits
  split_ifs with h0
  · simp
  · simpa using Nat.digits_ne_nil_iff_ne_zero.mpr h0

theorem numDigits_lt {base : ℕ} (hb : 8 ≤ base) (n : ℕ) : ∀ d ∈ numDigits base n, d < base := by
  unfold numDigits
  split_ifs with h0
  · intro d hd
    rw [List.mem_singleton] at hd
    omega
  · exact fun d hd => Nat.digits_lt_base (by omega) (List.mem_reverse.mp hd)

theorem readDigits_numDigits (base n : ℕ) : readDigits base 0 (numDigits base n) = n := by
  unfold numDigits
  split_ifs with h0
  · simp [readDigits, h0]
  · exact readDigits_digits base n

end Parse

section Field

theorem base_le (c : Conv) : c.base ≤ 16 := by
  cases c <;> simp [Conv.base]

theorem filter_digits {ds : List ℕ} (hds : ∀ d ∈ ds, d < 16) :
    (ds.map digit).filter (· ≠ space) = ds.map digit := by
  rw [List.filter_eq_self]
  intro c hc
  obtain ⟨d, hd, rfl⟩ := List.mem_map.mp hc
  simpa using (digit_ne d (hds d hd)).1

theorem filter_prefixes (f : Spec) (v : ℤ) : (f.prefixes v).filter (· ≠ space) = f.prefixes v := by
  have hs : ∀ sign, (signPrefix sign).filter (· ≠ space) = signPrefix sign := by decide
  have hb : (basePrefix (Flag.alt ∈ f.flags) f.conv.base).filter (· ≠ space) =
      basePrefix (Flag.alt ∈ f.flags) f.conv.base := by
    unfold basePrefix
    split_ifs <;> decide
  rw [Spec.prefixes, List.filter_append, hs, hb]

/-- The digits of a field with the zeros it is filled with. -/
def Spec.filled (f : Spec) (v : ℤ) : List ℕ :=
  let ds := numDigits f.conv.base v.natAbs
  if Flag.zero ∈ f.flags then
    if Flag.left ∈ f.flags then ds ++ List.replicate (f.pad v) 0 else List.replicate (f.pad v) 0 ++ ds
  else ds

theorem Spec.filled_lt (f : Spec) (v : ℤ) : ∀ d ∈ f.filled v, d < f.conv.base := by
  have hb := eight_le_base f.conv
  have hnum := numDigits_lt hb v.natAbs
  have hzero : ∀ d ∈ List.replicate (f.pad v) 0, d < f.conv.base := by
    intro d hd
    rw [(List.mem_replicate.mp hd).2]
    omega
  unfold Spec.filled
  split_ifs
  · exact fun d hd => (List.mem_append.mp hd).elim (hnum d) (hzero d)
  · exact fun d hd => (List.mem_append.mp hd).elim (hzero d) (hnum d)
  · exact hnum

theorem Spec.filled_ne_nil (f : Spec) (v : ℤ) : f.filled v ≠ [] := by
  have hne := numDigits_ne_nil f.conv.base v.natAbs
  unfold Spec.filled
  split_ifs <;> simp [hne]

/-- The field without its spaces. -/
theorem Spec.filter_out (f : Spec) (v : ℤ) :
    (f.out v).filter (· ≠ space) = f.prefixes v ++ (f.filled v).map digit := by
  have hb := base_le f.conv
  have hb8 := eight_le_base f.conv
  have hnum := filter_digits fun d hd => (numDigits_lt hb8 v.natAbs d hd).trans_le hb
  have hpre := filter_prefixes f v
  have hfill : (List.replicate (f.pad v) f.fill).filter (· ≠ space) =
      (List.replicate (if Flag.zero ∈ f.flags then f.pad v else 0) 0).map digit := by
    unfold Spec.fill
    by_cases hz : Flag.zero ∈ f.flags
    · have hd : zero = digit 0 := rfl
      simp [hz, hd, (digit_ne 0 (by decide)).1]
    · simp [hz]
  unfold Spec.out Spec.filled Spec.text
  rw [numText_eq]
  split_ifs with hl hz hz <;>
    simp only [List.filter_append, hpre, hnum, hfill, hz, if_true, if_false, List.map_append, List.append_assoc,
      List.replicate_zero, List.map_nil, List.append_nil, List.nil_append]

/-- The value of these digits. -/
theorem Spec.readDigits_filled (f : Spec) (v : ℤ) : readDigits f.conv.base 0 (f.filled v) =
    v.natAbs * f.conv.base ^ (if Flag.left ∈ f.flags ∧ Flag.zero ∈ f.flags then f.pad v else 0) := by
  have hnum := readDigits_numDigits f.conv.base v.natAbs
  unfold Spec.filled
  split_ifs with hz hl h h h
  · rw [readDigits_append_zeros, hnum]
  · exact absurd ⟨hl, hz⟩ h
  · exact absurd h.1 hl
  · rw [readDigits_zeros, hnum, pow_zero, mul_one]
  · exact absurd h.2 hz
  · rw [hnum, pow_zero, mul_one]

/-- **What a field reads back as.** -/
theorem Spec.readBack_out (f : Spec) (v : ℤ) : readBack f.conv.base (f.out v) =
    some (v * f.conv.base ^ (if Flag.left ∈ f.flags ∧ Flag.zero ∈ f.flags then f.pad v else 0)) := by
  unfold readBack
  rw [f.filter_out v, Spec.prefixes, parseInteger_digits (base_le f.conv) (f.filled_ne_nil v) (f.filled_lt v),
    f.readDigits_filled v]
  congr 1
  push_cast
  by_cases hv : v < 0
  · rw [if_pos (by simpa using hv), abs_of_neg hv]
    ring
  · rw [if_neg (by simpa using hv), abs_of_nonneg (by omega)]

theorem Spec.length_out (f : Spec) (v : ℤ) : (f.out v).length = max f.width (f.text v).length := by
  have hlen : (f.out v).length = f.pad v + (f.text v).length := by
    unfold Spec.out Spec.text
    split_ifs <;> simp only [List.length_append, List.length_replicate] <;> omega
  rw [hlen]
  unfold Spec.pad
  omega

/-- The parts of a field in order. -/
theorem Spec.out_layout (f : Spec) (v : ℤ) : ∃ before between after fill, f.out v =
    List.replicate before fill ++ signPrefix (v < 0) ++ basePrefix (Flag.alt ∈ f.flags) f.conv.base ++
      List.replicate between fill ++ numText f.conv.base v.natAbs ++ List.replicate after fill := by
  unfold Spec.out Spec.text Spec.prefixes
  split_ifs
  · exact ⟨0, 0, f.pad v, f.fill, by simp⟩
  · exact ⟨0, f.pad v, 0, f.fill, by simp⟩
  · exact ⟨f.pad v, 0, 0, f.fill, by simp⟩

/-- **An integer field.** It is printed without overrunning the buffer of the
digits, in the order padding, sign, base prefix and digits, as wide as asked for
or as it needs; without its spaces it reads back as the argument, unless it is
filled with zeros on the right. -/
theorem printf_field_reads_back_iff {A : Type} (va : VaList A) (f : Spec) (hw : f.width < 2 ^ 31) (ap : A) :
    ∃ out : Text, vprintf keep va [] f.format ap = some ((out.length : ℤ), out) ∧
      (∃ before between after fill, out =
        List.replicate before fill ++ signPrefix (f.value va ap < 0) ++
          basePrefix (Flag.alt ∈ f.flags) f.conv.base ++ List.replicate between fill ++
          numText f.conv.base (f.value va ap).natAbs ++ List.replicate after fill) ∧
      out.length = max f.width (f.text (f.value va ap)).length ∧
      (readBack f.conv.base out = some (f.value va ap) ↔
        ¬ (Flag.left ∈ f.flags ∧ Flag.zero ∈ f.flags ∧ (f.text (f.value va ap)).length < f.width ∧
          f.value va ap ≠ 0)) := by
  generalize hv : f.value va ap = v
  have hsize : v.natAbs < 2 ^ 64 := by
    rw [← hv, ← (arg_value va f ap).1]
    exact argNum_lt va f.conv.char f.size ap
  have htext := f.text_length_le hsize
  have hlen := f.length_out v
  refine ⟨f.out v, ?_, f.out_layout v, hlen, ?_⟩
  · rw [output_field va f hw ap, hv, toInt_of_lt (by omega) (by omega)]
  · rw [f.readBack_out v, Option.some_inj]
    have hb := eight_le_base f.conv
    split_ifs with h
    · -- filled on the right: the value is multiplied by a power of the base
      have hone : (f.conv.base : ℤ) ^ f.pad v = 1 ↔ f.pad v = 0 := by
        rw [← Nat.cast_pow, Nat.cast_eq_one]
        constructor
        · intro hpow
          by_contra hpad
          have := Nat.one_lt_pow hpad (show 1 < f.conv.base by omega)
          omega
        · intro hpad
          rw [hpad, pow_zero]
      have hpad : f.pad v = 0 ↔ ¬ (f.text v).length < f.width := by
        unfold Spec.pad
        omega
      rw [mul_right_eq_self₀, hone, hpad]
      tauto
    · simp only [pow_zero, mul_one, true_iff]
      tauto

/-- An argument list of words. -/
def wordArgs : VaList (List UInt32) :=
  ⟨fun ws => (ws.headD 0, ws.tail), fun ws => ((ws.headD 0).toUInt64, ws.tail), fun ws => (none, ws.tail)⟩

/-- "%-05d" of 3 is "30000". -/
theorem printf_field_left_zero :
    vprintf keep wordArgs [] [percent, minus, zero, 53, charD] [3] = some (5, [51, 48, 48, 48, 48]) ∧
      readBack 10 [51, 48, 48, 48, 48] = some 30000 := by
  decide +kernel

/-- "%#06x" of 255 is "0x00ff". -/
theorem printf_field_reads_back_ff : ∃ out : Text,
    vprintf keep wordArgs [] [percent, hash, zero, 54, charX] [255] = some (6, out) ∧ readBack 16 out = some 255 := by
  obtain ⟨out, hrun, -, hlen, hback⟩ := printf_field_reads_back_iff wordArgs ⟨[.alt, .zero], 6, .intsz, .x⟩
    (by decide) [255]
  have hformat : Spec.format ⟨[.alt, .zero], 6, .intsz, .x⟩ = [percent, hash, zero, 54, charX] := by decide +kernel
  have hvalue : Spec.value wordArgs ⟨[.alt, .zero], 6, .intsz, .x⟩ [255] = 255 := by decide +kernel
  have htext : (Spec.text ⟨[.alt, .zero], 6, .intsz, .x⟩ 255).length = 4 := by decide +kernel
  rw [hvalue, htext] at hlen
  rw [hformat, hlen] at hrun
  rw [hvalue] at hback
  exact ⟨out, hrun, hback.mpr (by decide)⟩

end Field

end Printf

end Os161
