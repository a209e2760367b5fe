/-
# Integer fields of printf

An integer field of `printf` from its format: any of the flags `#`, `-` and
`0` in any number and order, a width, a length modifier and a conversion. The
state machine collects them (`vprintfLoop_flags`, `vprintfLoop_width`,
`vprintfLoop_size`), and the conversion prints the field in the layout of
`PrintfOutput` (`output_field`).
-/
import Os161.Libc.PrintfOutput

namespace Os161

namespace Printf

open Prog

/-- The flags. -/
inductive Flag
  | alt | left | zero
  deriving DecidableEq

/-- The characters `#`, `-` and `0`. -/
def Flag.char : Flag → UInt8
  | .alt => hash
  | .left => minus
  | .zero => Printf.zero

/-- The conversions of integers. -/
inductive Conv
  | d | u | o | x
  deriving DecidableEq

/-- The characters of the conversions. -/
def Conv.char : Conv → UInt8
  | .d => charD
  | .u => charU
  | .o => charO
  | .x => charX

/-- The length modifiers. -/
def Size.text : Size → Text
  | .intsz => []
  | .longsz => [charL]
  | .llongsz => [charL, charL]
  | .sizetsz => [charZ]

/-- An integer field of a format; a width of 0 is no width. -/
structure Spec where
  flags : List Flag
  width : ℕ
  size : Size
  conv : Conv

/-- The width as it is written. -/
def widthText (w : ℕ) : Text := if w = 0 then [] else numText 10 w

/-- The field as it is written in a format. -/
def Spec.format (f : Spec) : Text :=
  percent :: (f.flags.map Flag.char ++ (widthText f.width ++ (f.size.text ++ [f.conv.char])))

/-- The base of the conversion. -/
def Conv.base : Conv → ℕ
  | .d | .u => 10
  | .o => 8
  | .x => 16

section Collect

variable {A : Type} (va : VaList A)

/-- A modifier inside a field. -/
theorem pfSend_modifier {pf : Pf A Text} {ch : UInt8} (hin : pf.inPct = true) (hm : isModifier ch = true) :
    pfSend keep va ch pf = pfModifier ch pf := by
  have hch : ch ≠ 0 := by
    rintro rfl
    revert hm
    decide
  unfold pfSend
  rw [bind_of_ok (assert_run hch), gets_bind, hin]
  simp [hm]

theorem vprintfLoop_modifier {pf pf' : Pf A Text} {ch : UInt8} (hin : pf.inPct = true) (hm : isModifier ch = true)
    (hrun : pfModifier ch pf = .ok () pf') (rest : Text) :
    vprintfLoop keep va (ch :: rest) pf = vprintfLoop keep va rest pf' := by
  have hch : ch ≠ 0 := by
    rintro rfl
    revert hm
    decide
  have hsend : pfSend keep va ch pf = .ok () pf' := (pfSend_modifier va hin hm).trans hrun
  rw [vprintfLoop, if_neg hch, bind_of_ok hsend]

/-- The state after some flags. -/
def Pf.withFlags (pf : Pf A Text) (flags : List Flag) : Pf A Text :=
  { pf with
    altformat := pf.altformat || decide (Flag.alt ∈ flags), rightspc := pf.rightspc || decide (Flag.left ∈ flags),
    fillchar := if Flag.zero ∈ flags then zero else pf.fillchar }

/-- **The flags.** -/
theorem vprintfLoop_flags (flags : List Flag) (rest : Text) : ∀ pf : Pf A Text, pf.inPct = true → pf.spacing = 0 →
    vprintfLoop keep va (flags.map Flag.char ++ rest) pf = vprintfLoop keep va rest (pf.withFlags flags) := by
  induction flags with
  | nil =>
    intro pf _ _
    simp [Pf.withFlags]
  | cons f flags ih =>
    intro pf hin hspace
    cases f with
    | alt =>
      have hrun : pfModifier hash pf = .ok () { pf with altformat := true } := rfl
      rw [List.map_cons, List.cons_append, Flag.char, vprintfLoop_modifier va hin (by decide) hrun,
        ih { pf with altformat := true } hin hspace]
      simp [Pf.withFlags]
    | left =>
      have hrun : pfModifier minus pf = .ok () { pf with rightspc := true } := rfl
      rw [List.map_cons, List.cons_append, Flag.char, vprintfLoop_modifier va hin (by decide) hrun,
        ih { pf with rightspc := true } hin hspace]
      simp [Pf.withFlags]
    | zero =>
      have hrun : pfModifier zero pf = .ok () { pf with fillchar := zero } := by
        have hno : ¬ 0 < pf.spacing := by omega
        unfold pfModifier
        simp [hash, minus, charL, charZ, zero, Prog.modify, hno]
      rw [List.map_cons, List.cons_append, Flag.char, vprintfLoop_modifier va hin (by decide) hrun,
        ih { pf with fillchar := zero } hin hspace]
      simp [Pf.withFlags]

/-- The value of digits after `n`. -/
def readDigits (base : ℕ) (n : ℕ) (ds : List ℕ) : ℕ := ds.foldl (fun n d => n * base + d) n

theorem le_readDigits {base : ℕ} (hb : 0 < base) (ds : List ℕ) : ∀ n, n ≤ readDigits base n ds := by
  induction ds with
  | nil => exact fun n => le_rfl
  | cons d ds ih =>
    intro n
    calc n ≤ n * base + d := by nlinarith
      _ ≤ readDigits base (n * base + d) ds := ih _

omit va in
/-- A digit of the width. -/
theorem pfModifier_digit {pf : Pf A Text} {n d : ℕ} (hd : d < 10) (hn : 0 < n ∨ d ≠ 0) (hspace : pf.spacing = n)
    (hmax : n * 10 + d < 2 ^ 31) :
    isModifier (digit d) = true ∧ pfModifier (digit d) pf = .ok () { pf with spacing := (n * 10 + d : ℕ) } := by
  have hint : toInt ((n * 10 + d : ℕ) : ℤ) = (n * 10 + d : ℕ) := toInt_of_lt (by omega) (by exact_mod_cast hmax)
  by_cases h0 : d = 0
  · subst h0
    have hpos : 0 < pf.spacing := by omega
    refine ⟨by decide, ?_⟩
    unfold pfModifier
    rw [if_neg (by decide), if_neg (by decide), if_neg (by decide), if_neg (by decide), if_pos (by decide)]
    have hten : toInt (pf.spacing * 10) = (n * 10 + 0 : ℕ) := by
      rw [← hint, hspace]
      push_cast
      ring_nf
    show Outcome.ok () (if 0 < pf.spacing then _ else _) = _
    rw [if_pos hpos, hten]
  · have hmod : isModifier (digit d) = true ∧ digit d ≠ hash ∧ digit d ≠ minus ∧ digit d ≠ charL ∧ digit d ≠ charZ ∧
        digit d ≠ zero ∧ (zero < digit d ∧ digit d ≤ nine) ∧ (digit d).toNat = 48 + d := by
      interval_cases d
      · exact absurd rfl h0
      all_goals decide
    obtain ⟨hm, h1, h2, h3, h4, h5, h6, hval⟩ := hmod
    refine ⟨hm, ?_⟩
    unfold pfModifier
    rw [if_neg h1, if_neg h2, if_neg h3, if_neg h4, if_neg h5, bind_of_ok (assert_run h6)]
    have hten : toInt (pf.spacing * 10 + ((digit d).toNat - zero.toNat)) = (n * 10 + d : ℕ) := by
      have hz : zero.toNat = 48 := rfl
      rw [← hint, hspace, hval, hz]
      push_cast
      ring_nf
    show Outcome.ok () { pf with spacing := toInt (pf.spacing * 10 + ((digit d).toNat - zero.toNat)) } = _
    rw [hten]

/-- **The width.** -/
theorem vprintfLoop_digits (rest : Text) (ds : List ℕ) : ∀ {n : ℕ} {pf : Pf A Text}, (∀ d ∈ ds, d < 10) →
    (0 < n ∨ ds.head? ≠ some 0) → readDigits 10 n ds < 2 ^ 31 → pf.inPct = true → pf.spacing = n →
    vprintfLoop keep va (ds.map digit ++ rest) pf =
      vprintfLoop keep va rest { pf with spacing := readDigits 10 n ds } := by
  induction ds with
  | nil =>
    intro n pf _ _ _ _ hspace
    simp [readDigits, ← hspace]
  | cons d ds ih =>
    intro n pf hds hhead hmax hin hspace
    have hd : d < 10 := hds d List.mem_cons_self
    have hpos : 0 < n ∨ d ≠ 0 := hhead.imp_right fun h h0 => h (by simp [h0])
    have hmax' : n * 10 + d < 2 ^ 31 := (le_readDigits (by norm_num) ds (n * 10 + d)).trans_lt hmax
    obtain ⟨hm, hrun⟩ := pfModifier_digit hd hpos hspace hmax'
    rw [List.map_cons, List.cons_append, vprintfLoop_modifier va hin hm hrun]
    exact ih (n := n * 10 + d) (fun d hd => hds d (List.mem_cons_of_mem _ hd)) (Or.inl (by omega)) hmax hin rfl

/-- The digits of a number, most significant first, give the number. -/
theorem readDigits_digits (base : ℕ) (n : ℕ) : readDigits base 0 (Nat.digits base n).reverse = n := by
  unfold readDigits
  rw [List.foldl_reverse]
  conv_rhs => rw [← Nat.ofDigits_digits base n, Nat.ofDigits_eq_foldr]
  congr 1
  funext x y
  simp
  ring

theorem vprintfLoop_width (rest : Text) {w : ℕ} (hw : w < 2 ^ 31) {pf : Pf A Text} (hin : pf.inPct = true)
    (hspace : pf.spacing = 0) :
    vprintfLoop keep va (widthText w ++ rest) pf = vprintfLoop keep va rest { pf with spacing := w } := by
  unfold widthText numText
  by_cases h0 : w = 0
  · simp [h0, ← hspace]
  · rw [if_neg h0, if_neg h0]
    have hne : Nat.digits 10 w ≠ [] := Nat.digits_ne_nil_iff_ne_zero.mpr h0
    have hhead : (Nat.digits 10 w).reverse.head? ≠ some 0 := by
      rw [List.head?_reverse, List.getLast?_eq_getLast_of_ne_nil hne]
      intro h
      exact Nat.getLast_digit_ne_zero 10 h0 (Option.some_injective _ h)
    have hread := readDigits_digits 10 w
    rw [vprintfLoop_digits va rest (Nat.digits 10 w).reverse (n := 0)
      (fun d hd => Nat.digits_lt_base (by norm_num) (List.mem_reverse.mp hd)) (Or.inr hhead) (by rw [hread]; exact hw)
      hin (by simpa using hspace), hread]

/-- **The length modifier.** -/
theorem vprintfLoop_size (rest : Text) (size : Size) {pf : Pf A Text} (hin : pf.inPct = true) (hsize : pf.size = .intsz) :
    vprintfLoop keep va (size.text ++ rest) pf = vprintfLoop keep va rest { pf with size := size } := by
  have hl : ∀ q : Pf A Text, pfModifier charL q =
      .ok () { q with size := if q.size = .longsz then .llongsz else .longsz } := fun _ => rfl
  cases size with
  | intsz => simp [Size.text, ← hsize]
  | longsz =>
    rw [Size.text, List.singleton_append, vprintfLoop_modifier va hin (by decide) (hl pf), hsize]
    rfl
  | llongsz =>
    rw [Size.text, List.cons_append, vprintfLoop_modifier va hin (by decide) (hl pf), List.singleton_append,
      vprintfLoop_modifier va (by exact hin) (by decide) (hl _), hsize]
    rfl
  | sizetsz =>
    have hrun : pfModifier charZ pf = .ok () { pf with size := .sizetsz } := rfl
    rw [Size.text, List.singleton_append, vprintfLoop_modifier va hin (by decide) hrun]

/-- The value of the argument. -/
def Spec.value (f : Spec) (ap : A) : ℤ :=
  match f.conv with
  | .d => (signedArg va f.size ap).1
  | _ => (unsignedArg va f.size ap).1

/-- The sign, the base prefix and the digits. -/
def Spec.prefixes (f : Spec) (v : ℤ) : Text := signPrefix (v < 0) ++ basePrefix (Flag.alt ∈ f.flags) f.conv.base

@[inherit_doc Spec.prefixes]
def Spec.text (f : Spec) (v : ℤ) : Text := f.prefixes v ++ numText f.conv.base v.natAbs

/-- The character that the field is filled with. -/
def Spec.fill (f : Spec) : UInt8 := if Flag.zero ∈ f.flags then zero else space

/-- How many of them. -/
def Spec.pad (f : Spec) (v : ℤ) : ℕ := f.width - (f.text v).length

/-- The field of a value. -/
def Spec.out (f : Spec) (v : ℤ) : Text :=
  let pad := List.replicate (f.pad v) f.fill
  if Flag.left ∈ f.flags then f.text v ++ pad
  else if Flag.zero ∈ f.flags then f.prefixes v ++ pad ++ numText f.conv.base v.natAbs
  else pad ++ f.text v

theorem signedArg_ge (size : Size) (ap : A) : -2 ^ 63 ≤ (signedArg va size ap).1 := by
  unfold signedArg
  split_ifs
  · have := BitVec.le_toInt (x := (va.longlong ap).1.toBitVec)
    simpa using this
  · have := BitVec.le_toInt (x := (va.word ap).1.toBitVec)
    refine le_trans ?_ this
    norm_num

/-- The number and the sign of the argument are those of its value. -/
theorem arg_value (f : Spec) (ap : A) :
    argNum va f.conv.char f.size ap = (f.value va ap).natAbs ∧
      argSign va f.conv.char f.size ap = decide (f.value va ap < 0) := by
  have hge := signedArg_ge va f.size ap
  cases hc : f.conv with
  | d =>
    unfold argNum argSign Spec.value
    simp only [hc, Conv.char]
    have hne : charD ≠ charP := by decide
    simp only [hne, if_false, if_true, ne_eq, not_false_eq_true, true_and]
    refine ⟨?_, trivial⟩
    split_ifs with hneg
    · rw [Int.emod_eq_of_lt (by omega) (by omega)]
      omega
    · omega
  | u =>
    unfold argNum argSign Spec.value
    simp [hc, Conv.char, charU, charP, charD]
  | o =>
    unfold argNum argSign Spec.value
    simp [hc, Conv.char, charO, charP, charD]
  | x =>
    unfold argNum argSign Spec.value
    simp [hc, Conv.char, charX, charP, charD]

omit va in
theorem numText_length_le {base n : ℕ} (hb : 8 ≤ base) (hn : n < 2 ^ 64) : (numText base n).length ≤ 22 := by
  unfold numText
  split_ifs
  · simp
  · rw [List.length_map, List.length_reverse, Nat.digits_length_le_iff (by omega)]
    calc n < 2 ^ 64 := hn
      _ ≤ 8 ^ 22 := by norm_num
      _ ≤ base ^ 22 := Nat.pow_le_pow_left hb 22

theorem eight_le_base (c : Conv) : 8 ≤ c.base := by
  cases c <;> simp [Conv.base]

omit va in
theorem prefixes_length_le (f : Spec) (v : ℤ) : (f.prefixes v).length ≤ 3 := by
  have hs : (signPrefix (v < 0)).length ≤ 1 := by
    unfold signPrefix
    split_ifs <;> simp
  have hb : (basePrefix (Flag.alt ∈ f.flags) f.conv.base).length ≤ 2 := by
    unfold basePrefix
    split_ifs <;> simp
  unfold Spec.prefixes
  rw [List.length_append]
  omega

omit va in
theorem Spec.text_length_le (f : Spec) {v : ℤ} (hv : v.natAbs < 2 ^ 64) : (f.text v).length ≤ 25 := by
  have hpre := prefixes_length_le f v
  have hnum := numText_length_le (eight_le_base f.conv) hv
  rw [Spec.text, List.length_append]
  omega

/-- The layout of `__pf_printstuff` for the field. -/
theorem field_eq (f : Spec) {v : ℤ} (hv : v.natAbs < 2 ^ 64) :
    field f.width (Flag.left ∈ f.flags) f.fill (signPrefix (v < 0)) (basePrefix (Flag.alt ∈ f.flags) f.conv.base)
      (numText f.conv.base v.natAbs) = f.out v := by
  have hlen : (f.text v).length = (signPrefix (v < 0)).length +
      (basePrefix (Flag.alt ∈ f.flags) f.conv.base).length + (numText f.conv.base v.natAbs).length := by
    simp [Spec.text, Spec.prefixes, add_assoc]
  have hsmall := f.text_length_le hv
  have hint : toInt ((signPrefix (v < 0)).length + (basePrefix (Flag.alt ∈ f.flags) f.conv.base).length +
      (numText f.conv.base v.natAbs).length) = ((f.text v).length : ℤ) := by
    rw [hlen]
    push_cast
    exact toInt_of_lt (by omega) (by omega)
  have hpad : ((f.width : ℤ) - (f.text v).length).toNat = f.pad v := by
    unfold Spec.pad
    omega
  have hfill : f.fill = zero ↔ Flag.zero ∈ f.flags := by
    unfold Spec.fill
    by_cases hz : Flag.zero ∈ f.flags
    · simp [hz]
    · simp [hz, space, zero]
  unfold field Spec.out
  rw [hint, hpad]
  simp only [decide_eq_true_eq, hfill, Spec.text, Spec.prefixes, List.append_assoc]

theorem conv_spec (c : Conv) :
    isInteger c.char = true ∧ baseOf c.char = c.base ∧ c.char ≠ charP ∧ c.char ≠ 0 ∧ isModifier c.char = false := by
  cases c <;> decide

/-- The conversion ends the field. -/
theorem vprintfLoop_conv (c : Conv) {pf : Pf A Text} (hin : pf.inPct = true) :
    ∃ pf', vprintfLoop keep va [c.char] pf = .ok () pf' ∧
      pf'.clientdata = pf.clientdata ++ field pf.spacing pf.rightspc pf.fillchar
        (signPrefix (pf.sign || argSign va c.char pf.size pf.ap)) (basePrefix ( pf.baseprefix || pf.altformat) c.base)
        (numText c.base (argNum va c.char pf.size pf.ap)) := by
  obtain ⟨hint, hbase, hp, h0, hmod⟩ := conv_spec c
  have hrun := pfInteger_run va pf hint
  have hsend : pfSend keep va c.char pf = (do
      pfGetnum va c.char
      pfSetbase c.char
      pfPrintnum keep
      pfEndfield : Prog Empty (Pf A Text) Unit) pf := by
    unfold pfSend
    rw [bind_of_ok (assert_run h0), gets_bind, hin]
    simp [hmod, hint]
  rw [hrun] at hsend
  refine ⟨_, by rw [vprintfLoop, if_neg h0, bind_of_ok hsend]; rfl, ?_⟩
  rw [← hbase]
  simp only [hp, decide_false, Bool.or_false]
  rfl

/-- The state before the conversion. -/
def Spec.collected (f : Spec) (ap : A) : Pf A Text :=
  { ({ Pf.init ([] : Text) ap with inPct := true } : Pf A Text).withFlags f.flags with
    spacing := f.width, size := f.size }

omit va in
theorem Spec.collected_inPct (f : Spec) (ap : A) : (f.collected ap).inPct = true := rfl

/-- The characters before the conversion. -/
theorem vprintfLoop_collected (f : Spec) (hw : f.width < 2 ^ 31) (ap : A) :
    vprintfLoop keep va f.format (Pf.init [] ap) = vprintfLoop keep va [f.conv.char] (f.collected ap) := by
  have hpercent : ∀ rest : Text, vprintfLoop keep va (percent :: rest) (Pf.init [] ap) =
      vprintfLoop keep va rest { Pf.init ([] : Text) ap with inPct := true } := fun rest => rfl
  unfold Spec.format
  rw [hpercent, vprintfLoop_flags va f.flags _ _ rfl rfl, vprintfLoop_width va _ hw (by rfl) (by rfl),
    vprintfLoop_size va _ f.size (by rfl) (by rfl)]
  rfl

/-- **The output of a field.** -/
theorem output_field (f : Spec) (hw : f.width < 2 ^ 31) (ap : A) :
    vprintf keep va [] f.format ap =
      some (toInt (f.out (f.value va ap)).length, f.out (f.value va ap)) := by
  obtain ⟨hnum, hsign⟩ := arg_value va f ap
  obtain ⟨out, hout⟩ := vprintf_returns va f.format ap
  suffices h : out = f.out (f.value va ap) by rw [hout, h]
  obtain ⟨pf', hrun, hdata⟩ := vprintfLoop_conv va f.conv (f.collected_inPct ap)
  unfold vprintf at hout
  rw [vprintfLoop_collected va f hw ap, hrun] at hout
  have hpf' : pf'.clientdata = out := congrArg Prod.snd (Option.some_injective _ hout)
  rw [← hpf', hdata, ← field_eq f (hnum ▸ argNum_lt va f.conv.char f.size ap), ← hnum, ← hsign]
  simp [Spec.collected, Pf.withFlags, Pf.init, Spec.fill]

end Collect

end Printf

end Os161
