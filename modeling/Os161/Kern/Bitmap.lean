/-
# Kernel bitmaps

`kern/lib/bitmap.c`: `nbits` bits in bytes. `bitmap_alloc` takes the first
clear bit; marking a set bit, unmarking a clear one or going past the end
stops the machine.

What the callers use is the set of bits (`Freemap.bit`): `bitmapAlloc_wp`,
`bitmapUnmark_wp`.
-/
import Os161.Kern.Uio
import Os161.Lib.Bitmap

namespace Os161

/-- `struct bitmap`. -/
structure Freemap where
  nbits : ℕ
  v : ℕ → BitVec 8

/-- Bit `k`. -/
def Freemap.bit (b : Freemap) (k : ℕ) : Bool := Bitmap.bit b.v k

/-- `bitmap_create`: the bits past the end, in the last byte, are marked. -/
def bitmapCreate (nbits : ℕ) : Freemap :=
  let words := wadd nbits 7 / 8
  let ix := words - 1
  let overbits := nbits - ix * 8
  { nbits
    v := fun i =>
      if nbits / 8 < words ∧ i = ix then
        (List.range' overbits (8 - overbits)).foldl (fun w j => w ||| BitVec.twoPow 8 j) 0
      else 0 }

/-- `bitmap_alloc`. -/
def bitmapAlloc : Prog Errno Freemap ℕ := fun b =>
  match Bitmap.findClear b.v ((b.nbits + 7) / 8) with
  | none => .fail .enospc b
  | some none => .stop
  | some (some (ix, offset)) =>
    let index := ix * 8 + offset
    if index < b.nbits then .ok index { b with v := Bitmap.mark b.v ix offset } else .stop

/-- `bitmap_mark`. -/
def bitmapMark (index : ℕ) : Prog Errno Freemap Unit := do
  let b ← Prog.get
  Prog.assert (index < b.nbits)
  Prog.assert (b.bit index = false)
  Prog.modify fun b => { b with v := Bitmap.mark b.v (index / 8) (index % 8) }

/-- `bitmap_unmark`. -/
def bitmapUnmark (index : ℕ) : Prog Errno Freemap Unit := do
  let b ← Prog.get
  Prog.assert (index < b.nbits)
  Prog.assert (b.bit index = true)
  Prog.modify fun b => { b with v := Bitmap.unmark b.v (index / 8) (index % 8) }

/-- `bitmap_isset`. -/
def bitmapIsset (b : Freemap) (index : ℕ) : Bool := b.bit index

/-- **`bitmap_alloc`** takes a clear bit, or finds that there is none. -/
theorem bitmapAlloc_wp {b : Freemap} (h8 : b.nbits % 8 = 0) :
    Prog.wp bitmapAlloc
      (fun k c => k < b.nbits ∧ b.bit k = false ∧ c.nbits = b.nbits ∧ ∀ j, c.bit j = (b.bit j || decide (j = k)))
      (fun e c => e = .enospc ∧ c = b ∧ ∀ k < b.nbits, b.bit k = true) b := by
  unfold Prog.wp bitmapAlloc
  rcases Bitmap.findClear_spec b.v ((b.nbits + 7) / 8) with ⟨hf, hfull⟩ | ⟨i, hi, j, hj, hf, hbit, -⟩
  · rw [hf]
    refine ⟨rfl, rfl, fun k hk => hfull k (by omega)⟩
  · rw [hf]
    have hlt : i * 8 + j < b.nbits := by omega
    simp only [if_pos hlt]
    exact ⟨hlt, hbit, trivial, fun k => Bitmap.bit_mark hj⟩

/-- **`bitmap_unmark`** clears a set bit. -/
theorem bitmapUnmark_wp {b : Freemap} {k : ℕ} (hk : k < b.nbits) (hbit : b.bit k = true) :
    Prog.wp (bitmapUnmark k) (fun _ c => c.nbits = b.nbits ∧ ∀ j, c.bit j = (b.bit j && !decide (j = k)))
      (fun _ _ => False) b := by
  unfold bitmapUnmark
  simp only [Prog.wp_bind, Prog.wp_get, Prog.wp_assert, Prog.wp_modify]
  refine ⟨hk, hbit, trivial, fun j => ?_⟩
  have hm : k % 8 < 8 := Nat.mod_lt _ (by omega)
  have hk8 : k / 8 * 8 + k % 8 = k := by omega
  calc Bitmap.bit (Bitmap.unmark b.v (k / 8) (k % 8)) j
      = (Bitmap.bit b.v j && !decide (j = k / 8 * 8 + k % 8)) := Bitmap.bit_unmark hm
    _ = (b.bit j && !decide (j = k)) := by rw [hk8]; rfl

end Os161
