/-
# What `printf` emits

A callback that keeps all of the text makes the output visible: each function
of `__printf.c` appends to it (`Pf.emit`), and whatever other callback is used
gets the same text in the same pieces (`vprintf_maps`).

`field` is the layout of `__pf_printstuff` and `numText` the text of
`__pf_printnum`. A number of 64 bits in base 8 or more fits into the digit
buffer (`pfDigits_isSome`), so no run of `__vprintf` stops
(`vprintf_returns`).
-/
import Mathlib.Data.Nat.Digits.Lemmas
import Os161.Libc.Printf
import Os161.Lib.Commute
import Os161.Lib.Wlp

namespace Os161

namespace Printf

open Prog

/-! ### `int` -/

theorem toInt_add (x y : ℤ) : toInt (toInt x + y) = toInt (x + y) := Int.bmod_add_bmod

theorem toInt_of_lt {x : ℤ} (h0 : 0 ≤ x) (h : x < 2 ^ 31) : toInt x = x := by
  refine Int.bmod_eq_of_le_mul_two ?_ ?_
  · omega
  · omega

section Maps

variable {A C D : Type} {send : D → Text → D} {send' : C → Text → C} {φ : D → C}

/-- The same state with other client data. -/
def Pf.map (φ : D → C) (pf : Pf A D) : Pf A C :=
  ⟨φ pf.clientdata, pf.ap, pf.charcount, pf.inPct, pf.size, pf.num, pf.sign, pf.spacing, pf.rightspc, pf.fillchar,
    pf.base, pf.baseprefix, pf.altformat⟩

theorem pfEndfield_maps : Maps (Pf.map φ) (pfEndfield : Prog Empty (Pf A D) Unit) pfEndfield := Maps.modify fun _ => rfl

theorem pfModifier_maps (ch : UInt8) : Maps (Pf.map φ) (pfModifier ch : Prog Empty (Pf A D) Unit) (pfModifier ch) := by
  unfold pfModifier
  refine Maps.ite _ (fun _ => Maps.modify fun _ => rfl) fun _ => Maps.ite _ (fun _ => Maps.modify fun _ => rfl) fun _ =>
    Maps.ite _ (fun _ => Maps.modify fun _ => rfl) fun _ => Maps.ite _ (fun _ => Maps.modify fun _ => rfl) fun _ =>
    Maps.ite _ (fun _ => Maps.modify fun pf => ?_) fun _ => Maps.bind (Maps.assert _) fun _ => Maps.modify fun _ => rfl
  show (if 0 < pf.spacing then _ else _) = Pf.map φ (if 0 < pf.spacing then _ else _)
  split_ifs <;> rfl

theorem pfGetnum_maps (va : VaList A) (ch : UInt8) :
    Maps (Pf.map φ) (pfGetnum va ch : Prog Empty (Pf A D) Unit) (pfGetnum va ch) := by
  unfold pfGetnum
  refine Maps.ite _ (fun _ => Maps.modify fun _ => rfl) fun _ => Maps.ite _ (fun _ => Maps.modify fun pf => ?_) fun _ =>
    Maps.modify fun _ => rfl
  show (if (signedArg va pf.size pf.ap).1 < 0 then _ else _) =
    Pf.map φ (if (signedArg va pf.size pf.ap).1 < 0 then _ else _)
  split_ifs <;> rfl

theorem pfSetbase_maps (ch : UInt8) : Maps (Pf.map φ) (pfSetbase ch : Prog Empty (Pf A D) Unit) (pfSetbase ch) :=
  Maps.modify fun _ => rfl

variable (hφ : ∀ d txt, φ (send d txt) = send' (φ d) txt)
include hφ

theorem pfPrint_maps (txt : Text) :
    Maps (Pf.map φ) (pfPrint send txt : Prog Empty (Pf A D) Unit) (pfPrint send' txt) := by
  refine Maps.modify fun pf => ?_
  unfold Pf.map
  rw [hφ]

theorem pfFill_maps (spc : ℤ) : Maps (Pf.map φ) (pfFill send spc : Prog Empty (Pf A D) Unit) (pfFill send' spc) :=
  Maps.bind (Maps.gets fun _ => rfl) fun _ => Maps.forUp (fun _ => pfPrint_maps hφ _) _

theorem pfPrintstuff_maps (pre pre2 stuff : Text) :
    Maps (Pf.map φ) (pfPrintstuff send pre pre2 stuff : Prog Empty (Pf A D) Unit) (pfPrintstuff send' pre pre2 stuff) := by
  unfold pfPrintstuff
  refine Maps.bind (Maps.gets fun _ => rfl) fun spacing => Maps.bind (Maps.gets fun _ => rfl) fun rightspc =>
    Maps.bind (Maps.gets fun _ => rfl) fun fillchar => ?_
  refine Maps.bind (Maps.ite _ (fun _ => pfFill_maps hφ _) fun _ => Maps.pure _) fun _ =>
    Maps.bind (pfPrint_maps hφ _) fun _ => Maps.bind (pfPrint_maps hφ _) fun _ =>
    Maps.bind (Maps.ite _ (fun _ => pfFill_maps hφ _) fun _ => Maps.pure _) fun _ =>
    Maps.bind (pfPrint_maps hφ _) fun _ => Maps.ite _ (fun _ => pfFill_maps hφ _) fun _ => Maps.pure _

theorem pfPrintnum_maps : Maps (Pf.map φ) (pfPrintnum send : Prog Empty (Pf A D) Unit) (pfPrintnum send') := by
  intro pf
  unfold pfPrintnum
  rw [get_bind, get_bind]
  cases hd : pfDigits pf.base (numberBufSize - 1) pf.num [] with
  | none =>
    have hd' : pfDigits (pf.map φ).base (numberBufSize - 1) (pf.map φ).num [] = none := hd
    rw [hd']
    rfl
  | some x =>
    have hd' : pfDigits (pf.map φ).base (numberBufSize - 1) (pf.map φ).num [] = some x := hd
    rw [hd']
    exact pfPrintstuff_maps hφ _ _ _ pf

theorem pfSend_maps (va : VaList A) (ch : UInt8) :
    Maps (Pf.map φ) (pfSend send va ch : Prog Empty (Pf A D) Unit) (pfSend send' va ch) := by
  unfold pfSend
  refine Maps.bind (Maps.assert _) fun _ => Maps.bind (Maps.gets fun _ => rfl) fun inPct => ?_
  refine Maps.ite _ (fun _ => pfPrint_maps hφ _) fun _ => Maps.ite _ (fun _ => Maps.modify fun _ => rfl) fun _ =>
    Maps.ite _ (fun _ => pfModifier_maps ch) fun _ => Maps.ite _ (fun _ => ?_) fun _ =>
    Maps.ite _ (fun _ => ?_) fun _ => ?_
  · exact Maps.bind (pfGetnum_maps va ch) fun _ => Maps.bind (pfSetbase_maps ch) fun _ =>
      Maps.bind (pfPrintnum_maps hφ) fun _ => pfEndfield_maps
  · exact Maps.bind (Maps.gets fun _ => rfl) fun _ => Maps.bind (Maps.modify fun _ => rfl) fun _ =>
      Maps.bind (pfPrintstuff_maps hφ _ _ _) fun _ => pfEndfield_maps
  · exact Maps.bind (Maps.gets fun _ => rfl) fun _ =>
      Maps.bind (Maps.ite _ (fun _ => Maps.modify fun _ => rfl) fun _ => Maps.pure _) fun _ =>
      Maps.bind (pfPrintstuff_maps hφ _ _ _) fun _ => pfEndfield_maps

theorem vprintfLoop_maps (va : VaList A) (format : Text) :
    Maps (Pf.map φ) (vprintfLoop send va format : Prog Empty (Pf A D) Unit) (vprintfLoop send' va format) := by
  induction format with
  | nil => exact Maps.pure ()
  | cons ch format ih =>
    unfold vprintfLoop
    exact Maps.ite _ (fun _ => Maps.pure _) fun _ => Maps.bind (pfSend_maps hφ va ch) fun _ => ih

/-- **The callback does not matter.** A callback that does to the data `φ d`
what another does to `d` ends with `φ` of what the other ends with, and the
count is the same. -/
theorem vprintf_maps (va : VaList A) (d : D) (format : Text) (ap : A) :
    vprintf send' va (φ d) format ap = (vprintf send va d format ap).map fun x => (x.1, φ x.2) := by
  have h := vprintfLoop_maps hφ va format (Pf.init d ap)
  unfold vprintf
  have hinit : Pf.map φ (Pf.init d ap) = Pf.init (φ d) ap := rfl
  rw [← hinit, h]
  cases vprintfLoop send va format (Pf.init d ap) <;> rfl

end Maps

/-! ### The text -/

section Emit

variable {A : Type}

/-- A callback that keeps all of the text. -/
def keep (out txt : Text) : Text := out ++ txt

/-- `pf` after `txt` was sent. -/
def Pf.emit (pf : Pf A Text) (txt : Text) : Pf A Text :=
  { pf with clientdata := pf.clientdata ++ txt, charcount := toInt (pf.charcount + txt.length) }

theorem emit_emit (pf : Pf A Text) (a b : Text) : (pf.emit a).emit b = pf.emit (a ++ b) := by
  unfold Pf.emit
  simp only [List.append_assoc, List.length_append, toInt_add, Nat.cast_add, add_assoc]

theorem pfPrint_run (pf : Pf A Text) (txt : Text) : pfPrint keep txt pf = .ok () (pf.emit txt) := rfl

/-- A loop that sends one character. -/
theorem forUp_print (c : UInt8) (n : ℕ) (pf : Pf A Text) :
    Prog.forUp (n + 1) (fun _ => pfPrint keep [c]) pf = .ok () (pf.emit (List.replicate (n + 1) c)) := by
  induction n with
  | zero => rw [Nat.zero_add, Prog.forUp_one, pfPrint_run, List.replicate_one]
  | succ n ih =>
    rw [Prog.forUp, bind_of_ok ih, pfPrint_run, emit_emit]
    simp [List.replicate_succ']

theorem pfFill_run {spc : ℤ} (h : 0 < spc) (pf : Pf A Text) :
    pfFill keep spc pf = .ok () (pf.emit (List.replicate spc.toNat pf.fillchar)) := by
  obtain ⟨n, hn⟩ : ∃ n, spc.toNat = n + 1 := ⟨spc.toNat - 1, by omega⟩
  unfold pfFill
  rw [gets_bind, hn]
  exact forUp_print pf.fillchar n pf

/-- The layout of `__pf_printstuff`. -/
def field (spacing : ℤ) (rightspc : Bool) (fillchar : UInt8) (pre pre2 stuff : Text) : Text :=
  let pad := List.replicate (spacing - toInt (pre.length + pre2.length + stuff.length)).toNat fillchar
  if rightspc then pre ++ pre2 ++ stuff ++ pad
  else if fillchar = zero then pre ++ pre2 ++ pad ++ stuff
  else pad ++ pre ++ pre2 ++ stuff

theorem pfPrintstuff_run (pf : Pf A Text) (pre pre2 stuff : Text) :
    pfPrintstuff keep pre pre2 stuff pf =
      .ok () (pf.emit (field pf.spacing pf.rightspc pf.fillchar pre pre2 stuff)) := by
  unfold pfPrintstuff field
  simp only [gets_bind]
  set len := toInt (pre.length + pre2.length + stuff.length)
  -- the three sends of the text itself, from any state
  have hprint : ∀ (q : Pf A Text) (k : Unit → Prog Empty (Pf A Text) Unit) (txt : Text),
      (pfPrint keep txt >>= k) q = k () (q.emit txt) := fun q k txt => rfl
  by_cases hlen : len < pf.spacing
  · have hpos : 0 < pf.spacing - len := by omega
    have hfill : ∀ (q : Pf A Text) (k : Unit → Prog Empty (Pf A Text) Unit), q.fillchar = pf.fillchar →
        (pfFill keep (pf.spacing - len) >>= k) q =
          k () (q.emit (List.replicate (pf.spacing - len).toNat pf.fillchar)) := by
      intro q k hq
      rw [bind_of_ok (pfFill_run hpos q), hq]
    simp only [if_pos hlen, hpos, true_and]
    cases hr : pf.rightspc with
    | true =>
      simp only [reduceCtorEq, false_and, if_false, pure_then, hprint, if_true]
      rw [pfFill_run hpos]
      simp only [emit_emit, List.append_assoc]
      rfl
    | false =>
      by_cases hz : pf.fillchar = zero
      · simp only [hz, ne_eq, not_true_eq_false, and_false, if_false, pure_then, hprint, true_and, if_true,
          reduceCtorEq] at hfill ⊢
        rw [hfill ((pf.emit pre).emit pre2) _ hz]
        simp only [hprint, pure_run, emit_emit, List.append_assoc]
      · simp only [hz, ne_eq, not_false_eq_true, and_self, if_true, and_false, if_false, pure_then, reduceCtorEq]
        rw [hfill _ _ rfl]
        simp only [hprint, pure_run, emit_emit, List.append_assoc]
  · have hzero : (pf.spacing - len).toNat = 0 := by omega
    simp only [if_neg hlen, lt_irrefl, false_and, if_false, hzero, List.replicate_zero, List.append_nil,
      List.nil_append, ite_self, pure_then, hprint, pure_run, emit_emit, List.append_assoc]

/-- A number in a base, without leading zeros. -/
def numText (base n : ℕ) : Text := if n = 0 then [digit 0] else ((Nat.digits base n).reverse).map digit

/-- The digit loop, when there is room. -/
theorem pfDigits_eq {base : ℕ} (hb : 2 ≤ base) : ∀ (x n : ℕ) (text : Text), (Nat.digits base n).length ≤ x → 0 < x →
    pfDigits base x n text = some (numText base n ++ text) := by
  intro x
  induction x with
  | zero => intro n text _ hx; omega
  | succ x ih =>
    intro n text hlen _
    unfold pfDigits
    by_cases hn : n = 0
    · subst hn
      rw [if_neg (by simp)]
      simp [numText]
    · have hdigits : Nat.digits base n = n % base :: Nat.digits base (n / base) :=
        Nat.digits_def' hb (Nat.pos_of_ne_zero hn)
      rw [hdigits, List.length_cons] at hlen
      by_cases hdiv : 0 < n / base
      · have hpos : 0 < (Nat.digits base (n / base)).length :=
          List.length_pos_of_ne_nil (Nat.digits_ne_nil_iff_ne_zero.mpr hdiv.ne')
        rw [if_pos hdiv, ih _ _ (by omega) (by omega)]
        simp [numText, hn, hdiv.ne', hdigits]
      · have hzero : n / base = 0 := Nat.eq_zero_of_not_pos hdiv
        rw [if_neg hdiv]
        simp [numText, hn, hdigits, hzero]

/-- **The digit buffer is not overrun.** -/
theorem pfDigits_numText {base n : ℕ} (hb : 8 ≤ base) (hn : n < 2 ^ 64) :
    pfDigits base (numberBufSize - 1) n [] = some (numText base n) := by
  have hlen : (Nat.digits base n).length ≤ numberBufSize - 1 := by
    rw [Nat.digits_length_le_iff (by omega)]
    calc n < 2 ^ 64 := hn
      _ ≤ 8 ^ 22 := by norm_num
      _ ≤ base ^ 22 := Nat.pow_le_pow_left hb 22
  rw [pfDigits_eq (by omega) _ _ _ hlen (by decide), List.append_nil]

/-- The base prefix and the sign. -/
def basePrefix ( baseprefix : Bool) (base : ℕ) : Text :=
  if baseprefix ∧ base = 16 then [zero, charX] else if baseprefix ∧ base = 8 then [zero] else []

@[inherit_doc basePrefix]
def signPrefix (sign : Bool) : Text := if sign then [minus] else []

theorem pfPrintnum_run (pf : Pf A Text) (hb : 8 ≤ pf.base) (hn : pf.num < 2 ^ 64) :
    pfPrintnum keep pf = .ok () (pf.emit (field pf.spacing pf.rightspc pf.fillchar (signPrefix pf.sign)
      (basePrefix pf.baseprefix pf.base) (numText pf.base pf.num))) := by
  unfold pfPrintnum
  rw [get_bind, pfDigits_numText hb hn]
  exact pfPrintstuff_run pf _ _ _

/-- The count is the length of the text, as an `int`. -/
def Counts (pf : Pf A Text) : Prop := pf.charcount = toInt pf.clientdata.length

theorem Counts.emit {pf : Pf A Text} (h : Counts pf) (txt : Text) : Counts (pf.emit txt) := by
  show toInt (pf.charcount + txt.length) = toInt (pf.clientdata ++ txt).length
  rw [show pf.charcount = _ from h, toInt_add, List.length_append, Nat.cast_add]

/-- A modifier changes flags only. -/
theorem pfModifier_run {pf : Pf A Text} {ch : UInt8} (h : isModifier ch = true) (hc : Counts pf) :
    ∃ pf', pfModifier ch pf = .ok () pf' ∧ Counts pf' := by
  unfold pfModifier
  split_ifs with h1 h2 h3 h4 h5
  · exact ⟨_, rfl, hc⟩
  · exact ⟨_, rfl, hc⟩
  · exact ⟨_, rfl, hc⟩
  · exact ⟨_, rfl, hc⟩
  · refine ⟨_, rfl, ?_⟩
    beta_reduce
    split_ifs <;> exact hc
  · have hd : zero < ch ∧ ch ≤ nine := by
      simp only [isModifier, h1, h2, h3, h4, false_or, decide_eq_true_eq] at h
      exact ⟨UInt8.lt_of_le_of_ne h.1 (Ne.symm h5), h.2⟩
    rw [bind_of_ok (assert_run hd)]
    exact ⟨_, rfl, hc⟩

/-- `pf` at the end of its field. -/
def Pf.endfield (pf : Pf A Text) : Pf A Text :=
  { pf with
    inPct := false, size := .intsz, num := 0, sign := false, spacing := 0, rightspc := false, fillchar := space,
    base := 0, baseprefix := false, altformat := false }

/-- The number of an argument. -/
def argNum (va : VaList A) (ch : UInt8) (size : Size) (ap : A) : ℕ :=
  if ch = charP then (va.word ap).1.toNat
  else if ch = charD then
    if (signedArg va size ap).1 < 0 then ((-(signedArg va size ap).1) % 2 ^ 64).toNat else (signedArg va size ap).1.toNat
  else (unsignedArg va size ap).1

theorem toBitVec_toInt_lt (x : UInt64) : x.toBitVec.toInt < 2 ^ 63 := by
  have := BitVec.toInt_lt (x := x.toBitVec)
  simpa using this

theorem argNum_lt (va : VaList A) (ch : UInt8) (size : Size) (ap : A) : argNum va ch size ap < 2 ^ 64 := by
  have hword : ∀ x : UInt32, x.toNat < 2 ^ 64 := fun x => x.toNat_lt.trans (by norm_num)
  have hlong : ∀ x : UInt64, x.toNat < 2 ^ 64 := fun x => x.toNat_lt
  unfold argNum
  split_ifs with h1 h2 h3
  · exact hword _
  · have := Int.emod_lt_of_pos (-(signedArg va size ap).1) (show (0 : ℤ) < 2 ^ 64 by norm_num)
    omega
  · have hlt : (signedArg va size ap).1 < 2 ^ 63 := by
      unfold signedArg
      split_ifs
      · exact toBitVec_toInt_lt _
      · have := BitVec.toInt_lt (x := (va.word ap).1.toBitVec)
        refine lt_trans this ?_
        norm_num
    omega
  · unfold unsignedArg
    split_ifs
    · exact hlong _
    · exact hword _

/-- The sign of an argument, and the arguments after it. -/
def argSign (va : VaList A) (ch : UInt8) (size : Size) (ap : A) : Bool :=
  ch ≠ charP ∧ ch = charD ∧ (signedArg va size ap).1 < 0

@[inherit_doc argSign]
def argRest (va : VaList A) (ch : UInt8) (size : Size) (ap : A) : A :=
  if ch = charP then (va.word ap).2 else if ch = charD then (signedArg va size ap).2 else (unsignedArg va size ap).2

/-- `pf` with its argument. -/
def Pf.withArg (pf : Pf A Text) (va : VaList A) (ch : UInt8) : Pf A Text :=
  { pf with
    num := argNum va ch pf.size pf.ap, sign := pf.sign || argSign va ch pf.size pf.ap,
    ap := argRest va ch pf.size pf.ap }

theorem pfGetnum_run (va : VaList A) (pf : Pf A Text) (ch : UInt8) : pfGetnum va ch pf = .ok () (pf.withArg va ch) := by
  unfold pfGetnum Pf.withArg argNum argSign argRest
  by_cases hp : ch = charP
  · simp [hp, Prog.modify]
  · by_cases hd : ch = charD
    · by_cases hneg : (signedArg va pf.size pf.ap).1 < 0
      · simp [hd, Prog.modify, hneg, charD, charP]
      · simp [hd, Prog.modify, hneg, charD, charP]
    · simp [hp, hd, Prog.modify]

/-- The base of a conversion. -/
def baseOf (ch : UInt8) : ℕ := if ch = charD ∨ ch = charU then 10 else if ch = charX ∨ ch = charP then 16 else 8

/-- `pf` with its argument and base. -/
def Pf.withBase (pf : Pf A Text) (ch : UInt8) : Pf A Text :=
  { pf with base := baseOf ch, baseprefix := pf.baseprefix || pf.altformat || ch = charP }

theorem pfSetbase_run (pf : Pf A Text) {ch : UInt8} (h : isInteger ch = true) :
    pfSetbase ch pf = .ok () (pf.withBase ch) := by
  have hbase : (if ch = charD ∨ ch = charU then 10 else if ch = charX ∨ ch = charP then 16
      else if ch = charO then 8 else pf.base) = baseOf ch := by
    unfold baseOf
    split_ifs with h1 h2 h3
    · rfl
    · rfl
    · rfl
    · simp only [isInteger, decide_eq_true_eq] at h
      tauto
  unfold pfSetbase Pf.withBase
  rw [← hbase]
  rfl

theorem eight_le_baseOf (ch : UInt8) : 8 ≤ baseOf ch := by
  unfold baseOf
  split_ifs <;> norm_num

/-- **An integer field.** -/
theorem pfInteger_run (va : VaList A) (pf : Pf A Text) {ch : UInt8} (h : isInteger ch = true) :
    (do
      pfGetnum va ch
      pfSetbase ch
      pfPrintnum keep
      pfEndfield : Prog Empty (Pf A Text) Unit) pf =
    .ok () ((((pf.withArg va ch).withBase ch).emit (field pf.spacing pf.rightspc pf.fillchar
      (signPrefix (pf.sign || argSign va ch pf.size pf.ap))
      (basePrefix ( pf.baseprefix || pf.altformat || ch = charP) (baseOf ch))
      (numText (baseOf ch) (argNum va ch pf.size pf.ap)))).endfield) := by
  rw [bind_of_ok (pfGetnum_run va pf ch), bind_of_ok (pfSetbase_run (pf.withArg va ch) h),
    bind_of_ok (pfPrintnum_run ((pf.withArg va ch).withBase ch) (eight_le_baseOf ch) (argNum_lt va ch pf.size pf.ap))]
  rfl

/-- **No character of a format stops the run.** -/
theorem pfSend_run (va : VaList A) {pf : Pf A Text} {ch : UInt8} (hch : ch ≠ 0) (hc : Counts pf) :
    ∃ pf', pfSend keep va ch pf = .ok () pf' ∧ Counts pf' := by
  unfold pfSend
  rw [bind_of_ok (assert_run hch), gets_bind]
  split_ifs with h1 h2 h3 h4 h5
  · exact ⟨_, rfl, hc.emit _⟩
  · exact ⟨_, rfl, hc⟩
  · exact pfModifier_run h3 hc
  · exact ⟨_, pfInteger_run va pf h4, Counts.emit (show Counts ((pf.withArg va ch).withBase ch) from hc) _⟩
  · rw [gets_bind, modify_bind, bind_of_ok (pfPrintstuff_run _ _ _ _)]
    exact ⟨_, rfl, Counts.emit (show Counts { pf with ap := (va.string pf.ap).2 } from hc) _⟩
  · rw [gets_bind, modify_bind, bind_of_ok (pfPrintstuff_run _ _ _ _)]
    exact ⟨_, rfl, Counts.emit (show Counts { pf with ap := (va.word pf.ap).2 } from hc) _⟩
  · rw [gets_bind, pure_then, bind_of_ok (pfPrintstuff_run _ _ _ _)]
    exact ⟨_, rfl, hc.emit _⟩

theorem vprintfLoop_run (va : VaList A) (format : Text) : ∀ {pf : Pf A Text}, Counts pf →
    ∃ pf', vprintfLoop keep va format pf = .ok () pf' ∧ Counts pf' := by
  induction format with
  | nil => exact fun hc => ⟨_, rfl, hc⟩
  | cons ch format ih =>
    intro pf hc
    unfold vprintfLoop
    by_cases hch : ch = 0
    · exact ⟨pf, by rw [if_pos hch]; rfl, hc⟩
    · obtain ⟨pf', hrun, hc'⟩ := pfSend_run va hch hc
      rw [if_neg hch, bind_of_ok hrun]
      exact ih hc'

/-- **`__vprintf` returns**, with the length of its output as an `int`. -/
theorem vprintf_returns (va : VaList A) (format : Text) (ap : A) :
    ∃ out : Text, vprintf keep va [] format ap = some (toInt out.length, out) := by
  have hinit : Counts (Pf.init ([] : Text) ap) := by
    simp [Counts, Pf.init, toInt]
  obtain ⟨pf, hrun, hc⟩ := vprintfLoop_run va format hinit
  refine ⟨pf.clientdata, ?_⟩
  unfold vprintf
  have hcount : pf.charcount = toInt pf.clientdata.length := hc
  rw [hrun, ← hcount]

end Emit

end Printf

end Os161
