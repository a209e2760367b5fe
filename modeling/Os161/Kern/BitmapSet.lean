/-
# A bitmap is a finite set

The bits below `nbits` are a set of indices: `bitmap_alloc` adds the smallest
index that is missing, `bitmap_mark` and `bitmap_unmark` add and remove one,
`bitmap_isset` asks for one. `BitmapOp.onSet` is that set, `BitmapOp.run` the
code, and a bitmap stands for a set (`Holds`) as long as the bits past the
end, which `bitmap_create` sets, stay set: that is what keeps the search of
`bitmap_alloc` below `nbits`.
-/
import Os161.Kern.Bitmap
import Os161.Lib.Refines
import Os161.Lib.Word

namespace Os161

/-- A call on a bitmap. -/
inductive BitmapOp
  | alloc
  | mark (index : ℕ)
  | unmark (index : ℕ)
  | isset (index : ℕ)

/-- What a call hands back. -/
inductive BitmapReply
  | index (k : ℕ)
  | enospc
  | done
  | set (b : Bool)
  deriving DecidableEq

/-- `bitmap_create` with its assertions, once it has its memory. -/
def bitmapCreateAsserts (nbits : ℕ) : Prog Errno Unit Freemap := do
  let words := wadd nbits 7 / 8
  if nbits / 8 < words then
    let ix := wsub words 1
    let overbits := wsub nbits (wcast (ix * 8))
    Prog.assert (nbits / 8 = wsub words 1)
    Prog.assert (0 < overbits ∧ overbits < 8)
  return bitmapCreate nbits

namespace BitmapOp

/-- The call of the code. -/
def run : BitmapOp → Prog Errno Freemap BitmapReply
  | alloc => do
    match ← Prog.attempt bitmapAlloc with
    | .ok k => return .index k
    | .error _ => return .enospc
  | mark k => do
    bitmapMark k
    return .done
  | unmark k => do
    bitmapUnmark k
    return .done
  | isset k => do
    let b ← Prog.get
    return .set (bitmapIsset b k)

/-- The call on a set of indices below `n`. A caller may mark what is not in
the set, unmark what is in it, and ask below `n`. -/
def onSet (n : ℕ) (S : Finset ℕ) : BitmapOp → Option (BitmapReply × Finset ℕ)
  | alloc =>
    match (List.range n).find? (· ∉ S) with
    | some k => some (.index k, insert k S)
    | none => some (.enospc, S)
  | mark k => if k < n ∧ k ∉ S then some (.done, insert k S) else none
  | unmark k => if k < n ∧ k ∈ S then some (.done, S.erase k) else none
  | isset k => if k < n then some (.set (k ∈ S), S) else none

end BitmapOp

/-- The bitmap stands for the set `S` of indices below `n`. -/
structure Freemap.Holds (b : Freemap) (n : ℕ) (S : Finset ℕ) : Prop where
  nbits : b.nbits = n
  below : ∀ k ∈ S, k < n
  bits : ∀ k < n, b.bit k = decide (k ∈ S)
  padding : ∀ k, n ≤ k → k < (n + 7) / 8 * 8 → b.bit k = true

namespace Freemap.Holds

variable {b c : Freemap} {n k : ℕ} {S : Finset ℕ}

/-- A bit is clear where the set has a gap below `n`. -/
theorem clear_iff (h : b.Holds n S) (hk : k < (n + 7) / 8 * 8) : b.bit k = false ↔ k < n ∧ k ∉ S := by
  rcases Nat.lt_or_ge k n with hlt | hge
  · simp [h.bits k hlt, hlt]
  · simp [h.padding k hge hk, Nat.not_lt.mpr hge]

/-- One more bit. -/
theorem insert (h : b.Holds n S) (hk : k < n) (hn : c.nbits = b.nbits) (hc : ∀ j, c.bit j = (b.bit j || decide (j = k))) :
    c.Holds n (insert k S) := by
  refine ⟨hn.trans h.nbits, ?_, fun j hj => ?_, fun j hj hj' => ?_⟩
  · intro j hj
    rcases Finset.mem_insert.mp hj with rfl | hj
    · exact hk
    · exact h.below j hj
  · rw [hc, h.bits j hj]
    simp [Finset.mem_insert, Bool.or_comm]
  · rw [hc, h.padding j hj hj', Bool.true_or]

/-- One bit less. -/
theorem erase (h : b.Holds n S) (hk : k < n) (hn : c.nbits = b.nbits)
    (hc : ∀ j, c.bit j = (b.bit j && !decide (j = k))) : c.Holds n (S.erase k) := by
  refine ⟨hn.trans h.nbits, fun j hj => h.below j (Finset.mem_of_mem_erase hj), fun j hj => ?_, fun j hj hj' => ?_⟩
  · rw [hc, h.bits j hj]
    simp [Finset.mem_erase, Bool.and_comm]
  · rw [hc, h.padding j hj hj', decide_eq_false (by omega)]
    rfl

end Freemap.Holds

/-! ### `bitmap_create` -/

/-- Bits marked one after the other. -/
theorem getLsbD_foldl_twoPow (l : List ℕ) (w : BitVec 8) {i : ℕ} (hi : i < 8) :
    (l.foldl (fun w j => w ||| BitVec.twoPow 8 j) w).getLsbD i = (w.getLsbD i || decide (i ∈ l)) := by
  induction l generalizing w with
  | nil => simp
  | cons j l ih =>
    rw [List.foldl_cons, ih]
    simp [hi, Bool.or_assoc]

/-- A new bitmap has the bits past the end set and no others. -/
theorem bit_bitmapCreate {n k : ℕ} (hn : n + 7 < 2 ^ 32) (hk : k < (n + 7) / 8 * 8) :
    (bitmapCreate n).bit k = decide (n ≤ k) := by
  have hmod : k % 8 < 8 := Nat.mod_lt _ (by omega)
  unfold Freemap.bit Bitmap.bit bitmapCreate
  rw [wadd_of_lt hn]
  dsimp only
  split_ifs with hlast
  · obtain ⟨hlt, hix⟩ := hlast
    rw [getLsbD_foldl_twoPow _ _ hmod, hix.symm]
    simp only [BitVec.ofNat_eq_ofNat, BitVec.getLsbD_zero, Bool.false_or, List.mem_range'_1, decide_eq_decide]
    omega
  · rw [BitVec.ofNat_eq_ofNat, BitVec.getLsbD_zero]
    exact (decide_eq_false (by omega)).symm

/-- **A new bitmap is the empty set.** -/
theorem bitmapCreate_holds {n : ℕ} (hn : n + 7 < 2 ^ 32) : (bitmapCreate n).Holds n ∅ := by
  refine ⟨rfl, by simp, fun k hk => ?_, fun k hk hk' => ?_⟩
  · rw [bit_bitmapCreate hn (by omega)]
    simpa using hk
  · rw [bit_bitmapCreate hn hk']
    simpa using hk

/-- The assertions of `bitmap_create` hold. -/
theorem bitmapCreateAsserts_wp {n : ℕ} (hn : n + 7 < 2 ^ 32) :
    Prog.wp (bitmapCreateAsserts n) (fun b _ => b = bitmapCreate n) (fun _ _ => False) () := by
  unfold bitmapCreateAsserts
  rw [wadd_of_lt hn]
  simp only [Prog.wp_ite, Prog.wp_bind, Prog.wp_assert, Prog.wp_pure]
  refine ⟨fun hlt => ?_, fun _ => trivial⟩
  have hix : wsub ((n + 7) / 8) 1 = n / 8 := by
    rw [wsub_of_le (by omega)]
    omega
  have hover : wsub n (wcast (n / 8 * 8)) = n % 8 := by
    rw [wcast_of_lt (by omega), wsub_of_le (by omega)]
    omega
  rw [hix, hover]
  exact ⟨rfl, ⟨by omega, by omega⟩, trivial⟩

/-! ### The calls -/

namespace BitmapOp

variable {b : Freemap} {n : ℕ} {S T : Finset ℕ} {r : BitmapReply}

/-- **`bitmap_alloc`** takes the smallest index that is not in the set. -/
theorem alloc_wp (h : b.Holds n S) (hset : onSet n S alloc = some (r, T)) :
    Prog.wp alloc.run (fun x c => x = r ∧ c.Holds n T) (fun _ _ => False) b := by
  have hrun : Prog.wp bitmapAlloc
      (fun k c => (k < n ∧ k ∉ S) ∧ (∀ j < k, ¬ (j < n ∧ j ∉ S)) ∧ c.Holds n (insert k S))
      (fun _ c => (∀ j, ¬ (j < n ∧ j ∉ S)) ∧ c = b) b := by
    unfold Prog.wp bitmapAlloc
    rw [h.nbits]
    rcases Bitmap.findClear_spec b.v ((n + 7) / 8) with ⟨hf, hfull⟩ | ⟨i, hi, j, hj, hf, hbit, hlow⟩
    · rw [hf]
      refine ⟨fun k hk => ?_, rfl⟩
      have hset : b.bit k = true := hfull k (by omega)
      rw [← h.clear_iff (by omega), hset] at hk
      exact absurd hk (by simp)
    · have hgap := (h.clear_iff (by omega)).mp hbit
      rw [hf]
      simp only [if_pos hgap.1]
      refine ⟨hgap, fun k hk hk' => ?_, h.insert hgap.1 h.nbits.symm fun k => Bitmap.bit_mark hj⟩
      have hset : b.bit k = true := hlow k hk
      rw [← h.clear_iff (by omega), hset] at hk'
      exact absurd hk' (by simp)
  simp only [onSet] at hset
  simp only [run, Prog.wp_bind, Prog.wp_attempt]
  refine Prog.wp_mono hrun (fun k c hc => ?_) fun e c hc => ?_
  · obtain ⟨hgap, hlow, hc⟩ := hc
    have hfind : (List.range n).find? (· ∉ S) = some k := by
      refine List.find?_range_eq_some.mpr ⟨by simpa using hgap.2, List.mem_range.mpr hgap.1, fun j hj => ?_⟩
      simpa using fun hS => hlow j hj ⟨by omega, hS⟩
    rw [hfind] at hset
    cases hset
    exact ⟨rfl, hc⟩
  · obtain ⟨hfull, rfl⟩ := hc
    have hfind : (List.range n).find? (· ∉ S) = none := by
      refine List.find?_eq_none.mpr fun j hj => ?_
      simpa using fun hS => hfull j ⟨List.mem_range.mp hj, hS⟩
    rw [hfind] at hset
    cases hset
    exact ⟨rfl, h⟩

/-- **One call** does to the bitmap what it does to the set. -/
theorem run_wp (h : b.Holds n S) {op : BitmapOp} (hset : op.onSet n S = some (r, T)) :
    Prog.wp op.run (fun x c => x = r ∧ c.Holds n T) (fun _ _ => False) b := by
  cases op with
  | alloc => exact alloc_wp h hset
  | mark k =>
    simp only [onSet, Option.ite_none_right_eq_some, Option.some.injEq, Prod.mk.injEq] at hset
    obtain ⟨⟨hk, hgap⟩, rfl, rfl⟩ := hset
    have hbit : b.bit k = false := (h.clear_iff (by omega)).mpr ⟨hk, hgap⟩
    simp only [run, bitmapMark, Prog.wp_bind, Prog.wp_get, Prog.wp_assert, Prog.wp_modify, Prog.wp_pure]
    refine ⟨h.nbits.symm ▸ hk, hbit, trivial, h.insert hk rfl fun j => ?_⟩
    have hm : k % 8 < 8 := Nat.mod_lt _ (by omega)
    refine (Bitmap.bit_mark hm).trans ?_
    rw [Nat.div_add_mod']
    rfl
  | unmark k =>
    simp only [onSet, Option.ite_none_right_eq_some, Option.some.injEq, Prod.mk.injEq] at hset
    obtain ⟨⟨hk, hmem⟩, rfl, rfl⟩ := hset
    have hbit : b.bit k = true := by simpa [h.bits k hk] using hmem
    simp only [run, Prog.wp_bind, Prog.wp_pure]
    refine Prog.wp_mono (bitmapUnmark_wp (h.nbits.symm ▸ hk) hbit) (fun _ c hc => ?_) fun _ _ hf => hf
    exact ⟨trivial, h.erase hk hc.1 hc.2⟩
  | isset k =>
    simp only [onSet, Option.ite_none_right_eq_some, Option.some.injEq, Prod.mk.injEq] at hset
    obtain ⟨hk, rfl, rfl⟩ := hset
    simp only [run, bitmapIsset, Prog.wp_bind, Prog.wp_get, Prog.wp_pure]
    exact ⟨congrArg _ (h.bits k hk), h⟩

end BitmapOp

/-- **The bitmap refines a finite set.** From `bitmap_create` on, whatever the
calls, as long as the caller marks what is clear, unmarks what is set and asks
below `n`: no assertion fails, every call answers as the set does, and the
bitmap stands for the set, the bits past the end being set. -/
theorem bitmap_refines_set {n : ℕ} (hn : n + 7 < 2 ^ 32) {ops : List BitmapOp} {rs : List BitmapReply} {S : Finset ℕ}
    (h : eachStep (BitmapOp.onSet n) ∅ ops = some (rs, S)) :
    Prog.wp (bitmapCreateAsserts n)
      (fun b _ => Prog.wp (Prog.each BitmapOp.run ops) (fun xs c => xs = rs ∧ c.Holds n S) (fun _ _ => False) b)
      (fun _ _ => False) () := by
  refine Prog.wp_mono (bitmapCreateAsserts_wp hn) (fun b _ hb => ?_) fun _ _ hf => hf
  subst hb
  exact Prog.each_refines (R := fun (b : Freemap) S => b.Holds n S) (fun b S op r T hb hset => BitmapOp.run_wp hb hset)
    (bitmapCreate_holds hn) h

/-- Three bits: all are taken, one is given back and taken again. -/
theorem bitmap_refines_set_three :
    Prog.wp (bitmapCreateAsserts 3)
      (fun b _ => Prog.wp (Prog.each BitmapOp.run [.mark 1, .alloc, .alloc, .alloc, .unmark 1, .isset 1, .alloc])
        (fun xs c => xs = [.done, .index 0, .index 2, .enospc, .done, .set false, .index 1] ∧ c.Holds 3 {0, 1, 2})
        (fun _ _ => False) b)
      (fun _ _ => False) () :=
  bitmap_refines_set (by norm_num) (by decide)

end Os161
