/-
# The guts of `printf`

`common/libc/printf/__printf.c`: a state machine that takes the format
character by character and sends its output in pieces to a callback. The
callback `send` and its data, of any type, are those of the caller; the
arguments are read through `VaList`, also of any type.

`int` is 32 bits and wraps. `buf` of `__pf_printnum` has `numberBufSize` bytes,
and a store before its first byte stops the run. A `%s` argument is the string
that the pointer leads to, and a run does not change it.
-/
import Os161.Lib.Prog

namespace Os161

namespace Printf

/-- Text, as bytes. -/
abbrev Text := List UInt8

/-- Reading the arguments: `va_arg` for the types of 32 bits, for `long long`,
and for a string (`none` is `NULL`). -/
structure VaList (A : Type) where
  word : A → UInt32 × A
  longlong : A → UInt64 × A
  string : A → Option Text × A

/-- `size` of `PF`. -/
inductive Size
  | intsz | longsz | llongsz | sizetsz
  deriving DecidableEq

/-- `PF`. -/
structure Pf (A C : Type) where
  clientdata : C
  ap : A
  charcount : ℤ
  inPct : Bool
  size : Size
  num : ℕ
  sign : Bool
  spacing : ℤ
  rightspc : Bool
  fillchar : UInt8
  base : ℕ
  baseprefix : Bool
  altformat : Bool

/-- The value that an `int` keeps. -/
def toInt (x : ℤ) : ℤ := x.bmod (2 ^ 32)

/-- `NUMBER_BUF_SIZE`. -/
def numberBufSize : ℕ := 8 * 8 / 3 + 2

/-- The characters that the code names. -/
def hash : UInt8 := 35
@[inherit_doc hash] def percent : UInt8 := 37
@[inherit_doc hash] def minus : UInt8 := 45
@[inherit_doc hash] def zero : UInt8 := 48
@[inherit_doc hash] def nine : UInt8 := 57
@[inherit_doc hash] def space : UInt8 := 32
@[inherit_doc hash] def charC : UInt8 := 99
@[inherit_doc hash] def charD : UInt8 := 100
@[inherit_doc hash] def charL : UInt8 := 108
@[inherit_doc hash] def charO : UInt8 := 111
@[inherit_doc hash] def charP : UInt8 := 112
@[inherit_doc hash] def charS : UInt8 := 115
@[inherit_doc hash] def charU : UInt8 := 117
@[inherit_doc hash] def charX : UInt8 := 120
@[inherit_doc hash] def charZ : UInt8 := 122

/-- `digits[n]`: "0123456789abcdef". -/
def digit (n : ℕ) : UInt8 := if n < 10 then 48 + n.toUInt8 else 87 + n.toUInt8

/-- "(null)". -/
def nullText : Text := [40, 110, 117, 108, 108, 41]

variable {A C : Type} (send : C → Text → C)

/-- `__pf_print`. -/
def pfPrint (txt : Text) : Prog Empty (Pf A C) Unit :=
  Prog.modify fun pf =>
    { pf with clientdata := send pf.clientdata txt, charcount := toInt (pf.charcount + txt.length) }

/-- `__pf_endfield`. -/
def pfEndfield : Prog Empty (Pf A C) Unit :=
  Prog.modify fun pf =>
    { pf with
      inPct := false, size := .intsz, num := 0, sign := false, spacing := 0, rightspc := false, fillchar := space,
      base := 0, baseprefix := false, altformat := false }

/-- `__pf_modifier`. -/
def pfModifier (ch : UInt8) : Prog Empty (Pf A C) Unit :=
  if ch = hash then Prog.modify fun pf => { pf with altformat := true }
  else if ch = minus then Prog.modify fun pf => { pf with rightspc := true }
  else if ch = charL then
    Prog.modify fun pf => { pf with size := if pf.size = .longsz then .llongsz else .longsz }
  else if ch = charZ then Prog.modify fun pf => { pf with size := .sizetsz }
  else if ch = zero then
    Prog.modify fun pf =>
      if 0 < pf.spacing then { pf with spacing := toInt (pf.spacing * 10) } else { pf with fillchar := zero }
  else do
    Prog.assert (zero < ch ∧ ch ≤ nine)
    Prog.modify fun pf => { pf with spacing := toInt (pf.spacing * 10 + (ch.toNat - zero.toNat)) }

/-- The argument for an unsigned conversion. -/
def unsignedArg (va : VaList A) (size : Size) (ap : A) : ℕ × A :=
  if size = .llongsz then ((va.longlong ap).1.toNat, (va.longlong ap).2) else ((va.word ap).1.toNat, (va.word ap).2)

/-- The argument for a signed conversion. -/
def signedArg (va : VaList A) (size : Size) (ap : A) : ℤ × A :=
  if size = .llongsz then ((va.longlong ap).1.toBitVec.toInt, (va.longlong ap).2)
  else ((va.word ap).1.toBitVec.toInt, (va.word ap).2)

/-- `__pf_getnum`. The negative of the least `long long` is itself, and as an
`unsigned long long` it is the right one. -/
def pfGetnum (va : VaList A) (ch : UInt8) : Prog Empty (Pf A C) Unit :=
  if ch = charP then Prog.modify fun pf => { pf with num := (va.word pf.ap).1.toNat, ap := (va.word pf.ap).2 }
  else if ch = charD then
    Prog.modify fun pf =>
      let arg := signedArg va pf.size pf.ap
      if arg.1 < 0 then { pf with sign := true, num := ((-arg.1) % 2 ^ 64).toNat, ap := arg.2 }
      else { pf with num := arg.1.toNat, ap := arg.2 }
  else
    Prog.modify fun pf =>
      let arg := unsignedArg va pf.size pf.ap
      { pf with num := arg.1, ap := arg.2 }

/-- `__pf_setbase`. -/
def pfSetbase (ch : UInt8) : Prog Empty (Pf A C) Unit :=
  Prog.modify fun pf =>
    { pf with
      base := if ch = charD ∨ ch = charU then 10 else if ch = charX ∨ ch = charP then 16
        else if ch = charO then 8 else pf.base
      baseprefix := pf.baseprefix || pf.altformat || ch = charP }

/-- `__pf_fill`. -/
def pfFill (spc : ℤ) : Prog Empty (Pf A C) Unit := do
  let f ← Prog.gets Pf.fillchar
  Prog.forUp spc.toNat fun _ => pfPrint send [f]

/-- `__pf_printstuff`. -/
def pfPrintstuff (pre pre2 stuff : Text) : Prog Empty (Pf A C) Unit := do
  let len := toInt (pre.length + pre2.length + stuff.length)
  let spacing ← Prog.gets Pf.spacing
  let rightspc ← Prog.gets Pf.rightspc
  let fillchar ← Prog.gets Pf.fillchar
  let spc := if len < spacing then spacing - len else 0
  (if 0 < spc ∧ rightspc = false ∧ fillchar ≠ zero then pfFill send spc else pure () : Prog Empty (Pf A C) Unit)
  pfPrint send pre
  pfPrint send pre2
  (if 0 < spc ∧ rightspc = false ∧ fillchar = zero then pfFill send spc else pure () : Prog Empty (Pf A C) Unit)
  pfPrint send stuff
  if 0 < spc ∧ rightspc = true then pfFill send spc else pure ()

/-- The digit loop of `__pf_printnum`: `x` bytes of `buf` are left of the
`text` so far. -/
def pfDigits (base : ℕ) : (x : ℕ) → (xnum : ℕ) → (text : Text) → Option Text
  | 0, _, _ => none
  | x + 1, xnum, text =>
    if 0 < xnum / base then pfDigits base x (xnum / base) (digit (xnum % base) :: text)
    else some (digit (xnum % base) :: text)

/-- `__pf_printnum`. -/
def pfPrintnum : Prog Empty (Pf A C) Unit := do
  let pf ← Prog.get
  -- the last byte of `buf` is for the NUL
  match pfDigits pf.base (numberBufSize - 1) pf.num [] with
  | none => Prog.stop
  | some x =>
    let bprefix := if pf.baseprefix ∧ pf.base = 16 then [zero, charX] else if pf.baseprefix ∧ pf.base = 8 then [zero] else []
    let sprefix := if pf.sign then [minus] else []
    pfPrintstuff send sprefix bprefix x

/-- The characters of "#-lz0123456789". -/
def isModifier (ch : UInt8) : Bool := ch = hash ∨ ch = minus ∨ ch = charL ∨ ch = charZ ∨ (zero ≤ ch ∧ ch ≤ nine)

/-- The characters of "doupx". -/
def isInteger (ch : UInt8) : Bool := ch = charD ∨ ch = charO ∨ ch = charU ∨ ch = charP ∨ ch = charX

/-- `__pf_send`. -/
def pfSend (va : VaList A) (ch : UInt8) : Prog Empty (Pf A C) Unit := do
  Prog.assert (ch ≠ 0)
  let inPct ← Prog.gets Pf.inPct
  if inPct = false ∧ ch ≠ percent then pfPrint send [ch]
  else if inPct = false then Prog.modify fun pf => { pf with inPct := true }
  else if isModifier ch then pfModifier ch
  else if isInteger ch then do
    pfGetnum va ch
    pfSetbase ch
    pfPrintnum send
    pfEndfield
  else if ch = charS then do
    let str ← Prog.gets fun pf => (va.string pf.ap).1
    Prog.modify fun pf => { pf with ap := (va.string pf.ap).2 }
    pfPrintstuff send [] [] (str.getD nullText)
    pfEndfield
  else do
    let arg ← Prog.gets fun pf => (va.word pf.ap).1.toUInt8
    (if ch = charC then Prog.modify fun pf => { pf with ap := (va.word pf.ap).2 } else pure () :
      Prog Empty (Pf A C) Unit)
    -- a string of one character, or of none if it is NUL
    let x := if ch = charC then arg else ch
    pfPrintstuff send [] [] (if x = 0 then [] else [x])
    pfEndfield

/-- The loop over the format, up to its NUL. -/
def vprintfLoop (va : VaList A) : Text → Prog Empty (Pf A C) Unit
  | [] => pure ()
  | ch :: format => if ch = 0 then pure () else do
    pfSend send va ch
    vprintfLoop va format

/-- The state that `__vprintf` starts with. -/
def Pf.init (clientdata : C) (ap : A) : Pf A C :=
  ⟨clientdata, ap, 0, false, .intsz, 0, false, 0, false, space, 0, false, false⟩

/-- `__vprintf`: the count, and what the callback made of its data. -/
def vprintf (va : VaList A) (clientdata : C) (format : Text) (ap : A) : Option (ℤ × C) :=
  match vprintfLoop send va format (Pf.init clientdata ap) with
  | .ok _ pf => some (pf.charcount, pf.clientdata)
  | _ => none

end Printf

end Os161
