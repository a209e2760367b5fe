/-
# Bitmaps in words

A bitmap is an array of words of `w` bits; bit `k` is bit `k % w` of word
`k / w`. `findClear v n` is the search of an allocator over the first `n`
words: the first word that is not full and its first clear bit. It fails only
if all the bits are set (`findClear_spec`).
-/
import Mathlib.Tactic

namespace Bitmap

variable {w : ℕ} {v : ℕ → BitVec w} {i j k n : ℕ}

/-- Bit `k`. -/
def bit (v : ℕ → BitVec w) (k : ℕ) : Bool := (v (k / w)).getLsbD (k % w)

/-- Set bit `j` of word `i`. -/
def mark (v : ℕ → BitVec w) (i j : ℕ) : ℕ → BitVec w := Function.update v i (v i ||| BitVec.twoPow w j)

/-- Clear bit `j` of word `i`. -/
def unmark (v : ℕ → BitVec w) (i j : ℕ) : ℕ → BitVec w := Function.update v i (v i &&& ~~~ BitVec.twoPow w j)

/-- The word and the bit of the first clear bit: `some none` if the first word
that is not full has no clear bit, `none` if all words are full. -/
def findClear (v : ℕ → BitVec w) (n : ℕ) : Option (Option (ℕ × ℕ)) :=
  match (List.range n).find? fun i => v i ≠ BitVec.allOnes w with
  | none => none
  | some i => some (((List.range w).find? fun j => !(v i).getLsbD j).map fun j => (i, j))

theorem bit_allOnes (hw : 0 < w) (k : ℕ) : bit (fun _ => BitVec.allOnes w) k = true := by
  rw [bit, BitVec.getLsbD_allOnes]
  exact decide_eq_true (Nat.mod_lt _ hw)

theorem index_iff (hj : j < w) : k = i * w + j ↔ k / w = i ∧ k % w = j := by
  have hw : 0 < w := by omega
  constructor
  · rintro rfl
    rw [Nat.mul_comm, Nat.mul_add_div hw, Nat.mul_add_mod, Nat.div_eq_of_lt hj, Nat.mod_eq_of_lt hj]
    simp
  · rintro ⟨rfl, rfl⟩
    rw [Nat.mul_comm]
    exact (Nat.div_add_mod k w).symm

theorem bit_mark (hj : j < w) : bit (mark v i j) k = (bit v k || decide (k = i * w + j)) := by
  have hd : decide (k = i * w + j) = decide (k / w = i ∧ k % w = j) := decide_eq_decide.mpr (index_iff hj)
  unfold bit mark
  rw [hd]
  by_cases hk : k / w = i
  · subst hk
    simp [BitVec.getLsbD_twoPow, hj, eq_comm]
  · simp [hk]

theorem bit_unmark (hj : j < w) : bit (unmark v i j) k = (bit v k && !decide (k = i * w + j)) := by
  have hd : decide (k = i * w + j) = decide (k / w = i ∧ k % w = j) := decide_eq_decide.mpr (index_iff hj)
  have hm : k % w < w := Nat.mod_lt _ (by omega)
  unfold bit unmark
  rw [hd]
  by_cases hk : k / w = i
  · subst hk
    simp [hm, eq_comm]
  · simp [hk]

/-- The bits of a full word are set. -/
theorem bit_of_full (hw : 0 < w) (h : v (k / w) = BitVec.allOnes w) : bit v k = true := by
  rw [bit, h, BitVec.getLsbD_allOnes]
  exact decide_eq_true (Nat.mod_lt _ hw)

/-- **The search** finds the first clear bit unless all are set. -/
theorem findClear_spec (v : ℕ → BitVec w) (n : ℕ) :
    (findClear v n = none ∧ ∀ k < n * w, bit v k = true) ∨
    ∃ i < n, ∃ j < w, findClear v n = some (some (i, j)) ∧ bit v (i * w + j) = false ∧
      ∀ k < i * w + j, bit v k = true := by
  unfold findClear
  cases hw : (List.range n).find? fun i => v i ≠ BitVec.allOnes w with
  | none =>
    left
    refine ⟨rfl, fun k hk => ?_⟩
    have hpos : 0 < w := Nat.pos_of_mul_pos_left (Nat.zero_lt_of_lt hk)
    rw [List.find?_eq_none] at hw
    refine bit_of_full hpos ?_
    simpa using hw (k / w) (List.mem_range.mpr ((Nat.div_lt_iff_lt_mul hpos).mpr hk))
  | some i =>
    right
    obtain ⟨hp, hi, hbefore⟩ := List.find?_range_eq_some.mp hw
    have hi : i < n := List.mem_range.mp hi
    have hne : v i ≠ BitVec.allOnes w := by simpa using hp
    cases hb : (List.range w).find? fun j => !(v i).getLsbD j with
    | none =>
      -- a word of ones is the full word
      rw [List.find?_eq_none] at hb
      refine absurd (BitVec.eq_of_getLsbD_eq fun j hj => ?_) hne
      have h1 : (v i).getLsbD j = true := by simpa using hb j (List.mem_range.mpr hj)
      rw [h1, BitVec.getLsbD_allOnes, decide_eq_true hj]
    | some j =>
      obtain ⟨hp, hj, hlower⟩ := List.find?_range_eq_some.mp hb
      have hj : j < w := List.mem_range.mp hj
      refine ⟨i, hi, j, hj, ?_, ?_, fun k hk => ?_⟩
      · simp only [hb, Option.map_some]
      · obtain ⟨hd, hm⟩ := (index_iff hj).mp rfl
        rw [bit, hd, hm]
        simpa using hp
      · -- a word before is full, and so are the bits before in the same word
        have hpos : 0 < w := Nat.zero_lt_of_lt hj
        have hdm := Nat.div_add_mod' k w
        rcases Nat.lt_or_ge (k / w) i with hlt | hge
        · exact bit_of_full hpos (by simpa using hbefore _ hlt)
        · have hle : k / w ≤ i := by
            by_contra hgt
            have := Nat.mul_le_mul_right w (show i + 1 ≤ k / w by omega)
            rw [Nat.add_mul] at this
            omega
          have hd : k / w = i := by omega
          rw [hd] at hdm
          rw [bit, hd]
          simpa using hlower (k % w) (by omega)

end Bitmap
