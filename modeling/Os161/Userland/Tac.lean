/-
# `tac`

`tac` copies its input files one after the other into one scratch file, notes
for each line where it begins and how long it is in a second one, and then
reads the notes backwards. Positions are offsets in the scratch file; in the
index file they are counted in records. A read of a scratch file gives what is
there, up to the amount asked for.

`readfile` starts each file at position 0, not at the end of what is already
in the scratch file, so the lines of every file but the first are looked for
among those of the first. No read comes up short, and the output is right
exactly if every file is how the whole input begins (`tac_reverses_iff`).
-/
import Os161.Lib.Prog

namespace Os161

namespace Tac

/-! ### Scratch files -/

/-- A file with its seek position. -/
structure Scratch (α : Type) where
  contents : List α
  pos : ℕ

namespace Scratch

variable {α : Type} (f : Scratch α)

/-- `write`. -/
def write (xs : List α) : Scratch α where
  contents := f.contents.take f.pos ++ xs ++ f.contents.drop (f.pos + xs.length)
  pos := f.pos + xs.length

/-- `read` of `n`, and what it gives. -/
def read (n : ℕ) : List α × Scratch α :=
  ((f.contents.drop f.pos).take n, { f with pos := f.pos + ((f.contents.drop f.pos).take n).length })

/-- `lseek` from the start. -/
def lseek (pos : ℕ) : Scratch α := { f with pos := pos }

end Scratch

/-- `struct indexentry`. -/
structure Indexentry where
  pos : ℕ
  len : ℕ
  deriving DecidableEq

/-- The scratch files and what was written to the standard output. -/
structure Files where
  data : Scratch UInt8
  index : Scratch Indexentry
  stdout : List UInt8

/-- How the program exits early. -/
inductive Exit
  | shortIndex
  | shortData

/-- A part of the program. -/
abbrev TacM := Prog Exit Files

/-- What one `read` of an input file gives, before the end of the file. -/
structure Chunk where
  bytes : List UInt8
  nonempty : bytes ≠ []
  length_le : bytes.length ≤ 4096

/-! ### The program -/

/-- `memchr`: where the byte is. -/
def memchr (ch : UInt8) : List UInt8 → Option ℕ
  | [] => none
  | b :: rest => if b = ch then some 0 else (memchr ch rest).map (· + 1)

/-- What `memchr` finds. -/
theorem memchr_eq_some {ch : UInt8} {l : List UInt8} {i : ℕ} (h : memchr ch l = some i) :
    ∃ u v, l = u ++ ch :: v ∧ ch ∉ u ∧ u.length = i := by
  induction l generalizing i with
  | nil => cases h
  | cons b rest ih =>
    rw [memchr] at h
    split_ifs at h with hb
    · cases h
      exact ⟨[], rest, by simp [hb], by simp, rfl⟩
    · obtain ⟨j, hj, rfl⟩ := Option.map_eq_some_iff.mp h
      obtain ⟨u, v, rfl, hu, rfl⟩ := ih hj
      exact ⟨b :: u, v, rfl, by simp [hu, Ne.symm hb], rfl⟩

theorem memchr_eq_none {ch : UInt8} {l : List UInt8} (h : memchr ch l = none) : ch ∉ l := by
  induction l with
  | nil => simp
  | cons b rest ih =>
    rw [memchr] at h
    split_ifs at h with hb
    simp [Ne.symm hb, ih (Option.map_eq_none_iff.mp h)]

def writeIndex (x : Indexentry) : TacM Unit := Prog.modify fun s => { s with index := s.index.write [x] }

def writeData (bytes : List UInt8) : TacM Unit := Prog.modify fun s => { s with data := s.data.write bytes }

/-- The loop over the lines of one chunk. -/
def scan (x : Indexentry) (rest : List UInt8) : TacM Indexentry :=
  match h : memchr 10 rest with
  | some i => do
    writeIndex { x with len := x.len + (i + 1) }
    scan { pos := x.pos + (x.len + (i + 1)), len := 0 } (rest.drop (i + 1))
  | none => pure { x with len := x.len + rest.length }
termination_by rest.length
decreasing_by
  obtain ⟨u, v, rfl, -, rfl⟩ := memchr_eq_some h
  simp
  omega

/-- The loop over the chunks of a file. -/
def readChunks (x : Indexentry) : List Chunk → TacM Indexentry
  | [] => pure x
  | c :: cs => do
    let x ← scan x c.bytes
    writeData c.bytes
    readChunks x cs

/-- `readfile`. -/
def readfile (file : List Chunk) : TacM Unit := do
  let x ← readChunks { pos := 0, len := 0 } file
  if 0 < x.len then writeIndex x else pure ()

/-- `doread` from the data file. -/
def readData (n : ℕ) : TacM (List UInt8) := do
  let got ← Prog.gets fun s => (s.data.read n).1
  Prog.modify fun s => { s with data := (s.data.read n).2 }
  pure got

/-- The copy of one line to the standard output; `left` is `x.len - done`. -/
def copyLine (left : ℕ) : TacM Unit :=
  if left = 0 then pure ()
  else do
    let amount := min 4096 left
    let got ← readData amount
    if got.length ≠ amount then Prog.fail .shortData
    else do
      Prog.modify fun s => { s with stdout := s.stdout ++ got }
      copyLine (left - amount)
termination_by left
decreasing_by omega

/-- The loop of `dumpdata`. -/
def dumpFrom : ℕ → TacM Unit
  | 0 => pure ()
  | pos + 1 => do
    Prog.modify fun s => { s with index := s.index.lseek pos }
    let got ← Prog.gets fun s => (s.index.read 1).1
    Prog.modify fun s => { s with index := (s.index.read 1).2 }
    match got with
    | [x] => do
      Prog.modify fun s => { s with data := s.data.lseek x.pos }
      copyLine x.len
      dumpFrom pos
    | _ => Prog.fail .shortIndex

/-- `dumpdata`. -/
def dumpdata : TacM Unit := do
  let indexsize ← Prog.gets fun s => s.index.pos
  dumpFrom indexsize

/-- `main`, after `openfiles`. -/
def readfiles : List (List Chunk) → TacM Unit
  | [] => pure ()
  | f :: fs => do
    readfile f
    readfiles fs

@[inherit_doc readfiles]
def main (files : List (List Chunk)) : TacM Unit := do
  readfiles files
  dumpdata

/-- The scratch files as `openfiles` leaves them. -/
def opened : Files := ⟨⟨[], 0⟩, ⟨[], 0⟩, []⟩

/-! ### What it is for -/

/-- The contents of a file. -/
def fileBytes (file : List Chunk) : List UInt8 := file.flatMap Chunk.bytes

/-- The lines of a text, each with its newline; a last piece without one is a line too. -/
def lines : List UInt8 → List (List UInt8)
  | [] => []
  | b :: rest =>
    if b = 10 then [b] :: lines rest
    else
      match lines rest with
      | [] => [[b]]
      | l :: ls => (b :: l) :: ls

/-- All lines of all files, last line first. -/
def reversed (files : List (List Chunk)) : List UInt8 :=
  (files.flatMap fun f => lines (fileBytes f)).reverse.flatten

/-- The program runs to its end without a short read, and its output is the input backwards. -/
def Reverses (files : List (List Chunk)) : Prop :=
  Prog.wp (main files) (fun _ s => s.stdout = reversed files) (fun _ _ => False) opened

/-! ### Lines -/

theorem lines_cons {u : List UInt8} (h : 10 ∉ u) (v : List UInt8) : lines (u ++ 10 :: v) = (u ++ [10]) :: lines v := by
  induction u with
  | nil => simp [lines]
  | cons b u ih =>
    simp only [List.mem_cons, not_or] at h
    simp [lines, Ne.symm h.1, ih h.2]

theorem lines_of_not_mem {w : List UInt8} (h : 10 ∉ w) : lines w = if w = [] then [] else [w] := by
  induction w with
  | nil => simp [lines]
  | cons b w ih =>
    simp only [List.mem_cons, not_or] at h
    rw [lines, if_neg (Ne.symm h.1), ih h.2]
    by_cases hw : w = [] <;> simp [hw]

/-- The text is cut into whole lines and the beginning of one more. -/
structure Cut (text : List UInt8) (L : List (List UInt8)) (w : List UInt8) : Prop where
  eq : text = L.flatten ++ w
  tail : 10 ∉ w
  full : ∀ l ∈ L, ∃ u, l = u ++ [10] ∧ 10 ∉ u

namespace Cut

variable {text w u : List UInt8} {L : List (List UInt8)}

theorem line (h : Cut text L w) (hu : 10 ∉ u) : Cut (text ++ (u ++ [10])) (L ++ [w ++ u ++ [10]]) [] where
  eq := by simp [h.eq]
  tail := by simp
  full l hl := by
    rcases List.mem_append.mp hl with hl | hl
    · exact h.full l hl
    · exact ⟨w ++ u, List.mem_singleton.mp hl, by simp [h.tail, hu]⟩

theorem more (h : Cut text L w) (hu : 10 ∉ u) : Cut (text ++ u) L (w ++ u) :=
  ⟨by simp [h.eq], by simp [h.tail, hu], h.full⟩

theorem lines_eq (h : Cut text L w) : lines text = L ++ if w = [] then [] else [w] := by
  obtain ⟨rfl, hw, hL⟩ := h
  induction L with
  | nil => exact lines_of_not_mem hw
  | cons l L ih =>
    obtain ⟨u, rfl, hu⟩ := hL l List.mem_cons_self
    have hrest := ih fun l hl => hL l (List.mem_cons_of_mem _ hl)
    simp [lines_cons hu, hrest]

end Cut

theorem flatten_lines (text : List UInt8) : (lines text).flatten = text := by
  induction text with
  | nil => rfl
  | cons b rest ih =>
    rw [lines]
    split_ifs with hb
    · simp [ih]
    · cases hl : lines rest with
      | nil =>
        rw [hl] at ih
        simp [← ih]
      | cons l ls =>
        rw [hl] at ih
        simp [← ih]

/-- The notes on lines that follow each other from position `p` on. -/
def entriesOf (p : ℕ) : List (List UInt8) → List Indexentry
  | [] => []
  | l :: ls => ⟨p, l.length⟩ :: entriesOf (p + l.length) ls

theorem entriesOf_append (p : ℕ) (A B : List (List UInt8)) :
    entriesOf p (A ++ B) = entriesOf p A ++ entriesOf (p + A.flatten.length) B := by
  induction A generalizing p with
  | nil => simp [entriesOf]
  | cons l A ih => simp [entriesOf, ih, Nat.add_assoc]

theorem le_of_mem_entriesOf {p : ℕ} {ls : List (List UInt8)} {e : Indexentry} (h : e ∈ entriesOf p ls) :
    e.pos + e.len ≤ p + ls.flatten.length := by
  induction ls generalizing p with
  | nil => simp [entriesOf] at h
  | cons l ls ih =>
    rw [List.flatten_cons, List.length_append]
    rcases List.mem_cons.mp h with rfl | h
    · simp only
      omega
    · have := ih h
      omega

/-! ### Reading the files -/

/-- A scratch file that is written to at its end. -/
def atEnd {α : Type} (xs : List α) : Scratch α := ⟨xs, xs.length⟩

theorem write_atEnd {α : Type} (xs ys : List α) : (atEnd xs).write ys = atEnd (xs ++ ys) := by
  simp [atEnd, Scratch.write]

section Reading

variable {D o : List UInt8} {I : List Indexentry} {E : Exit → Files → Prop}

/-- **One chunk.** The notes are those on the whole lines so far, and `x` is
the note on the line that has begun. -/
theorem scan_wp (rest : List UInt8) {text w : List UInt8} {L : List (List UInt8)} (h : Cut text L w) :
    Prog.wp (scan ⟨L.flatten.length, w.length⟩ rest) (fun x s => ∃ L' w', Cut (text ++ rest) L' w' ∧
      x = ⟨L'.flatten.length, w'.length⟩ ∧ s = ⟨atEnd D, atEnd (I ++ entriesOf 0 L'), o⟩) E
      ⟨atEnd D, atEnd (I ++ entriesOf 0 L), o⟩ := by
  induction hn : rest.length using Nat.strong_induction_on generalizing rest text w L with
  | _ n ih =>
    subst hn
    rw [scan]
    split
    · rename_i i hi
      obtain ⟨u, v, rfl, hu, rfl⟩ := memchr_eq_some hi
      have hx : (⟨(L ++ [w ++ u ++ [10]]).flatten.length, ([] : List UInt8).length⟩ : Indexentry) =
          ⟨L.flatten.length + (w.length + (u.length + 1)), 0⟩ := by simp
      have hnote : entriesOf 0 (L ++ [w ++ u ++ [10]]) =
          entriesOf 0 L ++ [⟨L.flatten.length, w.length + (u.length + 1)⟩] := by
        simp [entriesOf_append, entriesOf]
      have hdrop : (u ++ 10 :: v).drop (u.length + 1) = v := by simp
      have hnext := ih v.length (by simp; omega) v (h.line hu) rfl
      rw [hx, hnote, ← List.append_assoc] at hnext
      simp only [writeIndex, Prog.wp_bind, Prog.wp_modify, write_atEnd, hdrop]
      simpa using hnext
    · rename_i hnone
      exact ⟨L, w ++ rest, h.more (memchr_eq_none hnone), by simp, rfl⟩

theorem readChunks_wp (cs : List Chunk) {text w : List UInt8} {L : List (List UInt8)} (h : Cut text L w) :
    Prog.wp (readChunks ⟨L.flatten.length, w.length⟩ cs) (fun x s => ∃ L' w', Cut (text ++ fileBytes cs) L' w' ∧
      x = ⟨L'.flatten.length, w'.length⟩ ∧ s = ⟨atEnd (D ++ fileBytes cs), atEnd (I ++ entriesOf 0 L'), o⟩) E
      ⟨atEnd D, atEnd (I ++ entriesOf 0 L), o⟩ := by
  induction cs generalizing D text w L with
  | nil => exact ⟨L, w, by simpa [fileBytes] using h, rfl, by simp [fileBytes]⟩
  | cons c cs ih =>
    rw [readChunks, Prog.wp_bind]
    refine Prog.wp_mono (scan_wp c.bytes h) (fun x s hs => ?_) fun _ _ he => he
    obtain ⟨L', w', hcut, rfl, rfl⟩ := hs
    have hrest := ih (D := D ++ c.bytes) hcut
    simp only [writeData, Prog.wp_bind, Prog.wp_modify, write_atEnd]
    simpa [fileBytes] using hrest

/-- **One file.** It is copied, and its lines are noted as if they began at
position 0. -/
theorem readfile_wp (file : List Chunk) : Prog.wp (readfile file)
    (fun _ s => s = ⟨atEnd (D ++ fileBytes file), atEnd (I ++ entriesOf 0 (lines (fileBytes file))), o⟩) E
    ⟨atEnd D, atEnd I, o⟩ := by
  have hstart : Cut [] [] [] := ⟨rfl, by simp, by simp⟩
  have hrun := readChunks_wp (D := D) (I := I) (o := o) (E := E) file hstart
  simp only [entriesOf, List.append_nil, List.nil_append] at hrun
  rw [readfile, Prog.wp_bind]
  refine Prog.wp_mono hrun (fun x s hs => ?_) fun _ _ he => he
  obtain ⟨L, w, hcut, rfl, rfl⟩ := hs
  rw [hcut.lines_eq]
  by_cases hw : w = []
  · simp [hw]
  · have hpos : 0 < w.length := List.length_pos_of_ne_nil hw
    simp [hpos, hw, writeIndex, write_atEnd, entriesOf_append, entriesOf]

theorem readfiles_wp (files : List (List Chunk)) : Prog.wp (readfiles files)
    (fun _ s => s = ⟨atEnd (D ++ files.flatMap fileBytes),
      atEnd (I ++ files.flatMap fun f => entriesOf 0 (lines (fileBytes f))), o⟩) E ⟨atEnd D, atEnd I, o⟩ := by
  induction files generalizing D I with
  | nil => simp [readfiles]
  | cons f fs ih =>
    rw [readfiles, Prog.wp_bind]
    refine Prog.wp_mono (readfile_wp f) (fun _ s hs => ?_) fun _ _ he => he
    rw [hs]
    simpa using ih (D := D ++ fileBytes f) (I := I ++ entriesOf 0 (lines (fileBytes f)))

end Reading

/-! ### Reading backwards -/

/-- The part of the data that a note points at. -/
def slice (D : List UInt8) (e : Indexentry) : List UInt8 := (D.drop e.pos).take e.len

section Dumping

variable {D o : List UInt8} {I : List Indexentry} {E : Exit → Files → Prop}

/-- A line that is there is copied in pieces of at most 4096 bytes. -/
theorem copyLine_wp {index : Scratch Indexentry} (left : ℕ) {p : ℕ} (h : p + left ≤ D.length) :
    Prog.wp (copyLine left) (fun _ s => s = ⟨⟨D, p + left⟩, index, o ++ slice D ⟨p, left⟩⟩) E ⟨⟨D, p⟩, index, o⟩ := by
  induction hn : left using Nat.strong_induction_on generalizing left p o with
  | _ n ih =>
    subst hn
    rw [copyLine]
    by_cases h0 : left = 0
    · simp [h0, slice]
    · set amount := min 4096 left with hamount
      have hlen : ((D.drop p).take amount).length = amount := by simp; omega
      have hnext := ih (left - amount) (by omega) (left - amount) (p := p + amount)
        (o := o ++ (D.drop p).take amount) (by omega) rfl
      have hslice : slice D ⟨p, left⟩ = (D.drop p).take amount ++ slice D ⟨p + amount, left - amount⟩ := by
        simp only [slice]
        rw [show left = amount + (left - amount) by omega, List.take_add, List.drop_drop]
        simp
      rw [hslice, if_neg h0]
      simp only [readData, Scratch.read, Prog.wp_bind, Prog.wp_gets, Prog.wp_modify, Prog.wp_pure, Prog.wp_ite, hlen,
        ne_eq, not_true_eq_false, false_implies, not_false_eq_true, true_implies, true_and]
      rwa [show p + amount + (left - amount) = p + left by omega, List.append_assoc] at hnext

/-- The notes are followed from the last to the first. -/
theorem dumpFrom_wp {n : ℕ} (hn : n ≤ I.length) (hI : ∀ e ∈ I, e.pos + e.len ≤ D.length) {k p : ℕ} :
    Prog.wp (dumpFrom n) (fun _ s => s.stdout = o ++ (I.take n).reverse.flatMap (slice D)) E
      ⟨⟨D, p⟩, ⟨I, k⟩, o⟩ := by
  induction n generalizing k p o with
  | zero => simp [dumpFrom]
  | succ n ih =>
    have hread : (I.drop n).take 1 = [I[n]] := by
      rw [List.drop_eq_getElem_cons (by omega)]
      rfl
    have htake : I.take (n + 1) = I.take n ++ [I[n]] := by simp
    have hmem : I[n] ∈ I := List.getElem_mem _
    simp only [dumpFrom, Scratch.lseek, Scratch.read, Prog.wp_bind, Prog.wp_modify, Prog.wp_gets, hread]
    refine Prog.wp_mono (copyLine_wp _ (hI _ hmem)) (fun _ s hs => ?_) fun _ _ he => he
    rw [hs, htake]
    refine Prog.wp_mono (ih (by omega)) (fun _ s' hs' => ?_) fun _ _ he => he
    rw [hs', List.reverse_concat, List.flatMap_cons, List.append_assoc]

end Dumping

/-! ### The output -/

/-- The notes on all files. -/
def notes (files : List (List Chunk)) : List Indexentry := files.flatMap fun f => entriesOf 0 (lines (fileBytes f))

/-- **What the program writes.** Nothing comes up short. -/
theorem main_wp (files : List (List Chunk)) : Prog.wp (main files)
    (fun _ s => s.stdout = (notes files).reverse.flatMap (slice (files.flatMap fileBytes))) (fun _ _ => False) opened := by
  have hread := readfiles_wp (D := []) (I := []) (o := []) (E := fun _ _ => False) files
  simp only [List.nil_append] at hread
  rw [main, Prog.wp_bind]
  refine Prog.wp_mono hread (fun _ s hs => ?_) fun _ _ he => he
  have hin : ∀ e ∈ notes files, e.pos + e.len ≤ (files.flatMap fileBytes).length := by
    intro e he
    obtain ⟨f, hf, he⟩ := List.mem_flatMap.mp he
    have hle := le_of_mem_entriesOf he
    rw [flatten_lines] at hle
    have hsub := (List.sublist_flatten_of_mem (List.mem_map_of_mem (f := fileBytes) hf)).length_le
    rw [← List.flatMap_def] at hsub
    omega
  rw [dumpdata, Prog.wp_bind, Prog.wp_gets, hs]
  refine Prog.wp_mono (dumpFrom_wp (I := notes files) le_rfl hin) (fun _ s' hs' => ?_) fun _ _ he => he
  rw [hs', List.take_length, List.nil_append]

theorem length_slice {D : List UInt8} {e : Indexentry} (h : e.pos + e.len ≤ D.length) : (slice D e).length = e.len := by
  simp [slice]
  omega

theorem flatten_slices {D : List UInt8} {ls : List (List UInt8)} {p : ℕ} (h : p + ls.flatten.length ≤ D.length) :
    ((entriesOf p ls).map (slice D)).flatten = (D.drop p).take ls.flatten.length := by
  induction ls generalizing p with
  | nil => simp [entriesOf]
  | cons l ls ih =>
    rw [List.flatten_cons, List.length_append] at h
    rw [entriesOf, List.map_cons, List.flatten_cons, ih (by omega), List.flatten_cons, List.length_append, List.take_add,
      List.drop_drop]
    rfl

theorem lengths_slices {D : List UInt8} {ls : List (List UInt8)} {p : ℕ} (h : p + ls.flatten.length ≤ D.length) :
    ((entriesOf p ls).map (slice D)).map List.length = ls.map List.length := by
  induction ls generalizing p with
  | nil => rfl
  | cons l ls ih =>
    rw [List.flatten_cons, List.length_append] at h
    rw [entriesOf, List.map_cons, List.map_cons, ih (by omega), length_slice (by simp only; omega), List.map_cons]

/-- Pieces of the same lengths are read off what they are put together to. -/
theorem flatten_eq_flatten_iff {A B : List (List UInt8)} (h : A.map List.length = B.map List.length) :
    A.flatten = B.flatten ↔ A = B :=
  ⟨fun he => List.eq_iff_flatten_eq.mpr ⟨he, h⟩, fun he => he ▸ rfl⟩

/-- The parts of the data that the notes on a file point at. -/
def pieces (D : List UInt8) (f : List Chunk) : List (List UInt8) := (entriesOf 0 (lines (fileBytes f))).map (slice D)

theorem reverses_iff (files : List (List Chunk)) :
    Reverses files ↔ (files.flatMap (pieces (files.flatMap fileBytes))).reverse.flatten = reversed files := by
  have hslices : (notes files).reverse.flatMap (slice (files.flatMap fileBytes)) =
      (files.flatMap (pieces (files.flatMap fileBytes))).reverse.flatten := by
    rw [List.flatMap_def, List.map_reverse, notes, List.map_flatMap]
    rfl
  constructor
  · intro h
    by_contra hne
    refine Prog.wp_absurd (Prog.wp_and (main_wp files) h) (fun _ s hs => hne ?_) fun _ _ he => he.1
    rw [← hslices, ← hs.1, hs.2]
  · intro h
    refine Prog.wp_mono (main_wp files) (fun _ s hs => ?_) fun _ _ he => he
    rw [hs, hslices, h]

theorem flatten_flatMap_eq {g : List Chunk → List (List UInt8)} {h : List Chunk → List UInt8} {files : List (List Chunk)}
    (hgh : ∀ f ∈ files, (g f).flatten = h f) : (files.flatMap g).flatten = (files.map h).flatten := by
  rw [List.flatMap_def, List.flatten_flatten, List.map_map]
  exact congrArg List.flatten (List.map_congr_left hgh)

/-- **`tac` reverses its input exactly if every file is how the whole input
begins**: the notes on its lines are followed from the start of the data. -/
theorem tac_reverses_iff (files : List (List Chunk)) :
    Reverses files ↔ ∀ f ∈ files, fileBytes f <+: files.flatMap fileBytes := by
  set D := files.flatMap fileBytes with hD
  have hlen : ∀ f ∈ files, (fileBytes f).length ≤ D.length := fun f hf => by
    rw [hD, List.flatMap_def]
    exact (List.sublist_flatten_of_mem (List.mem_map_of_mem hf)).length_le
  have hin : ∀ f ∈ files, 0 + (lines (fileBytes f)).flatten.length ≤ D.length := fun f hf => by
    rw [flatten_lines, Nat.zero_add]
    exact hlen f hf
  -- what is written has the right lengths, so it can be compared piece by piece
  have hlens : (files.flatMap (pieces D)).map List.length = (files.flatMap fun f => lines (fileBytes f)).map List.length := by
    rw [List.map_flatMap, List.map_flatMap]
    exact List.flatMap_congr fun f hf => lengths_slices (hin f hf)
  have hflat : (files.flatMap (pieces D)).flatten = (files.map fun f => D.take (fileBytes f).length).flatten :=
    flatten_flatMap_eq fun f hf => by rw [pieces, flatten_slices (hin f hf), flatten_lines, List.drop_zero]
  have hflat' : (files.flatMap fun f => lines (fileBytes f)).flatten = (files.map fileBytes).flatten :=
    flatten_flatMap_eq fun f _ => flatten_lines _
  calc Reverses files
    _ ↔ (files.flatMap (pieces D)).reverse.flatten = (files.flatMap fun f => lines (fileBytes f)).reverse.flatten :=
        reverses_iff files
    _ ↔ (files.flatMap (pieces D)).reverse = (files.flatMap fun f => lines (fileBytes f)).reverse :=
        flatten_eq_flatten_iff (by rw [List.map_reverse, List.map_reverse, hlens])
    _ ↔ (files.flatMap (pieces D)).flatten = (files.flatMap fun f => lines (fileBytes f)).flatten := by
        rw [List.reverse_inj, flatten_eq_flatten_iff hlens]
    _ ↔ (files.map fun f => D.take (fileBytes f).length) = files.map fileBytes := by
        rw [hflat, hflat']
        refine flatten_eq_flatten_iff ?_
        rw [List.map_map, List.map_map]
        exact List.map_congr_left fun f hf => by simpa using hlen f hf
    _ ↔ ∀ f ∈ files, fileBytes f <+: D := by
        rw [List.map_inj_left]
        exact forall₂_congr fun f _ => by rw [List.prefix_iff_eq_take, eq_comm]

/-- `tac` of a file `a` and a file `b`, of one line each: the first line comes twice. -/
theorem tac_two_files :
    Prog.wp (main [[⟨[97, 10], by decide, by decide⟩], [⟨[98, 10], by decide, by decide⟩]])
      (fun _ s => s.stdout = [97, 10, 97, 10]) (fun _ _ => False) opened ∧
    reversed [[⟨[97, 10], by decide, by decide⟩], [⟨[98, 10], by decide, by decide⟩]] = [98, 10, 97, 10] := by
  refine ⟨Prog.wp_mono (main_wp _) (fun _ s hs => ?_) fun _ _ he => he, by decide⟩
  rw [hs]
  decide

end Tac

end Os161
