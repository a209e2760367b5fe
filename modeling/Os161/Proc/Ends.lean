/-
# What a process leaves behind

`proc_destroy` gives back the current directory and nothing else, so the
files a process has open at its end are never closed. `Held` says what is
held on a process's behalf: the `File`s in its table, each with a count of
its slots, one reference to its vnode and its lock.

`proc_files_end`: for a process made over memory that held an empty file table,
after any calls none of which loses a vnode (`sysOpen_atomic_iff`), the `File`s,
the references to vnodes and the locks are after `proc_destroy` what they were
before the process was made exactly when it has closed all its descriptors.
-/
import Os161.Proc.Proc
import Os161.Syscall.OpenAtomic

namespace Os161

variable {P : Type} {p : P} {s s' s0 : FileState P} {own : Finset ℕ} {base : ℕ → ℤ} {a : ℕ} {f : File}

/-- The slots of `p` that point to the `File` at `a`. -/
def FileState.slotsOf (s : FileState P) (p : P) (a : ℕ) : Finset ℕ :=
  (Finset.range maxProcessOpenFiles).filter fun fd => s.fileTable p fd = some a

/-- Since `s0`, the `File`s at `own` were made for `p`, with the references to
vnodes counted from `base` on. -/
structure Held (p : P) (s0 : FileState P) (base : ℕ → ℤ) (s : FileState P) (own : Finset ℕ) : Prop where
  heap : s.HeapOk
  other : ∀ a ∉ own, s.files a = s0.files a
  new : ∀ a ∈ own, s0.files a = none
  file : ∀ a ∈ own, ∃ f, s.files a = some f ∧ f.references = (s.slotsOf p a).card ∧ s0.locks f.flock = false
  used : ∀ a ∈ own, (s.slotsOf p a).Nonempty
  table : ∀ fd < maxProcessOpenFiles, ∀ a, s.fileTable p fd = some a → a ∈ own
  vnRefs : ∀ v, s.vnRefs v = base v + ∑ a ∈ own, if (s.files a).map File.vPtr = some v then 1 else 0
  locks : ∀ l, s.locks l = true ↔ s0.locks l = true ∨ ∃ a ∈ own, (s.files a).map File.flock = some l
  lockInj : ∀ a ∈ own, ∀ b ∈ own, (s.files a).map File.flock = (s.files b).map File.flock → a = b

namespace Held

theorem start (hheap : s.HeapOk) (hfiles : s.files = s0.files) (hlocks : s.locks = s0.locks)
    (hnone : ∀ fd < maxProcessOpenFiles, s.fileTable p fd = none) : Held p s0 s.vnRefs s ∅ where
  heap := hheap
  other _ _ := congrFun hfiles _
  new _ h := absurd h (Finset.notMem_empty _)
  file _ h := absurd h (Finset.notMem_empty _)
  used _ h := absurd h (Finset.notMem_empty _)
  table fd hfd a h := absurd ((hnone fd hfd).symm.trans h) (Option.some_ne_none a).symm
  vnRefs v := by simp
  locks l := by simp [hlocks]
  lockInj _ h := absurd h (Finset.notMem_empty _)

/-- Nothing is held once the table is empty. -/
theorem finish (h : Held p s0 base s own) (hnone : ∀ fd < maxProcessOpenFiles, s.fileTable p fd = none) :
    s.files = s0.files ∧ s.vnRefs = base ∧ s.locks = s0.locks := by
  have hown : own = ∅ := by
    refine Finset.eq_empty_of_forall_notMem fun a ha => ?_
    obtain ⟨fd, hfd⟩ := h.used a ha
    obtain ⟨hlt, ht⟩ := Finset.mem_filter.mp hfd
    rw [hnone fd (Finset.mem_range.mp hlt)] at ht
    cases ht
  subst hown
  refine ⟨funext fun a => h.other a (Finset.notMem_empty a), funext fun v => ?_, funext fun l => ?_⟩
  · simpa using h.vnRefs v
  · have := h.locks l
    simp only [Finset.notMem_empty, false_and, exists_const, or_false] at this
    exact Bool.eq_iff_iff.mpr this

end Held

variable [DecidableEq P]

/-- The slots after slot `fd` is set. -/
theorem slotsOf_update {fd : ℕ} {x : Option ℕ} (hfd : fd < maxProcessOpenFiles)
    (ht : s'.fileTable = Function.update s.fileTable p (Function.update (s.fileTable p) fd x)) (b : ℕ) :
    s'.slotsOf p b = if x = some b then insert fd (s.slotsOf p b) else (s.slotsOf p b).erase fd := by
  ext d
  unfold FileState.slotsOf
  rw [ht, Function.update_self]
  rcases eq_or_ne d fd with rfl | hne
  · split_ifs with hx <;> simp [hfd, hx]
  · split_ifs with hx <;> simp [hne]

namespace Held

/-- A new `File` in a free slot. -/
theorem add (h : Held p s0 base s own) {fd : ℕ} (hfd : fd < maxProcessOpenFiles) (hslot : s.fileTable p fd = none)
    (ha : s.files a = none) (hlock : s.locks f.flock = false) (hrefs : f.references = 1) (hheap : s'.HeapOk)
    (hfiles : s'.files = Function.update s.files a (some f))
    (htable : s'.fileTable = Function.update s.fileTable p (Function.update (s.fileTable p) fd (some a)))
    (hvn : s'.vnRefs = Function.update s.vnRefs f.vPtr (s.vnRefs f.vPtr + 1))
    (hlocks : s'.locks = Function.update s.locks f.flock true) : Held p s0 base s' (insert a own) := by
  have hown : a ∉ own := fun hmem => by
    obtain ⟨g, hg, -⟩ := h.file a hmem
    rw [ha] at hg
    cases hg
  have hself : s'.files a = some f := by rw [hfiles, Function.update_self]
  have hsame : ∀ b ∈ own, s'.files b = s.files b := fun b hb => by
    have hne : b ≠ a := fun he => hown (he ▸ hb)
    rw [hfiles, Function.update_of_ne hne]
  have hs0 : s0.locks f.flock = false := Bool.eq_false_of_not_eq_true fun ht => by
    rw [(h.locks _).mpr (Or.inl ht)] at hlock
    cases hlock
  have hslots : ∀ b, s'.slotsOf p b = if some a = some b then insert fd (s.slotsOf p b) else s.slotsOf p b := by
    intro b
    have hnot : fd ∉ s.slotsOf p b := fun hmem => by
      rw [(Finset.mem_filter.mp hmem).2] at hslot
      cases hslot
    rw [slotsOf_update hfd htable, Finset.erase_eq_of_notMem hnot]
  have hnone : s.slotsOf p a = ∅ := Finset.eq_empty_of_forall_notMem fun d hd => by
    obtain ⟨hlt, ht⟩ := Finset.mem_filter.mp hd
    exact hown (h.table d (Finset.mem_range.mp hlt) a ht)
  have hslotsa : s'.slotsOf p a = {fd} := by rw [hslots, if_pos rfl, hnone]; rfl
  have hslotsb : ∀ b ∈ own, s'.slotsOf p b = s.slotsOf p b := fun b hb => by
    have hne : a ≠ b := fun he => hown (he ▸ hb)
    rw [hslots, if_neg fun he => hne (Option.some.inj he)]
  refine ⟨hheap, fun b hb => ?_, fun b hb => ?_, fun b hb => ?_, fun b hb => ?_, fun d hd b hb => ?_, fun v => ?_,
    fun l => ?_, fun b hb c hc hbc => ?_⟩
  · rw [Finset.mem_insert, not_or] at hb
    rw [hfiles, Function.update_of_ne hb.1]
    exact h.other b hb.2
  · rcases Finset.mem_insert.mp hb with rfl | hb
    · rw [← h.other b hown, ha]
    · exact h.new b hb
  · rcases Finset.mem_insert.mp hb with rfl | hb
    · exact ⟨f, hself, by rw [hslotsa, hrefs]; rfl, hs0⟩
    · rw [hsame b hb, hslotsb b hb]
      exact h.file b hb
  · rcases Finset.mem_insert.mp hb with rfl | hb
    · rw [hslotsa]
      exact Finset.singleton_nonempty fd
    · rw [hslotsb b hb]
      exact h.used b hb
  · rw [htable, Function.update_self] at hb
    rcases eq_or_ne d fd with rfl | hne
    · rw [Function.update_self] at hb
      exact Finset.mem_insert.mpr (Or.inl (Option.some.inj hb).symm)
    · rw [Function.update_of_ne hne] at hb
      exact Finset.mem_insert_of_mem (h.table d hd b hb)
  · rw [Finset.sum_insert hown, hself, Finset.sum_congr rfl fun b hb => by rw [hsame b hb], hvn]
    rcases eq_or_ne v f.vPtr with rfl | hne
    · rw [Function.update_self, h.vnRefs]
      simp
      ring
    · rw [Function.update_of_ne hne, h.vnRefs]
      simp [hne.symm]
  · rw [hlocks]
    rcases eq_or_ne l f.flock with rfl | hne
    · rw [Function.update_self]
      exact ⟨fun _ => Or.inr ⟨a, Finset.mem_insert_self a own, by rw [hself]; rfl⟩, fun _ => rfl⟩
    · rw [Function.update_of_ne hne, h.locks]
      refine or_congr_right ⟨?_, ?_⟩
      · rintro ⟨b, hb, hl⟩
        exact ⟨b, Finset.mem_insert_of_mem hb, by rw [hsame b hb]; exact hl⟩
      · rintro ⟨b, hb, hl⟩
        rcases Finset.mem_insert.mp hb with rfl | hb
        · rw [hself] at hl
          exact absurd (Option.some.inj hl).symm hne
        · exact ⟨b, hb, by rw [← hsame b hb]; exact hl⟩
  · -- the new lock is nobody's
    have hfresh : ∀ b ∈ own, (s'.files b).map File.flock ≠ some f.flock := fun b hb hl => by
      rw [hsame b hb] at hl
      rw [(h.locks _).mpr (Or.inr ⟨b, hb, hl⟩)] at hlock
      cases hlock
    rcases Finset.mem_insert.mp hb with hba | hbo <;> rcases Finset.mem_insert.mp hc with hca | hco
    · exact hba.trans hca.symm
    · rw [hba, hself] at hbc
      exact absurd hbc.symm (hfresh c hco)
    · rw [hca, hself] at hbc
      exact absurd hbc (hfresh b hbo)
    · rw [hsame b hbo, hsame c hco] at hbc
      exact h.lockInj b hbo c hco hbc

omit [DecidableEq P] in
/-- The count of a `File` follows its slots. -/
theorem recount (h : Held p s0 base s own) (hown : a ∈ own) (hf : s.files a = some f) {g : File}
    (hptr : g.vPtr = f.vPtr) (hlk : g.flock = f.flock) (hheap : s'.HeapOk)
    (hfiles : s'.files = Function.update s.files a (some g)) (hvn : s'.vnRefs = s.vnRefs) (hlocks : s'.locks = s.locks)
    (hslots : ∀ b, b ≠ a → s'.slotsOf p b = s.slotsOf p b) (hcount : g.references = (s'.slotsOf p a).card)
    (hused : (s'.slotsOf p a).Nonempty)
    (htable : ∀ fd < maxProcessOpenFiles, ∀ b, s'.fileTable p fd = some b → b ∈ own) : Held p s0 base s' own := by
  have hself : s'.files a = some g := by rw [hfiles, Function.update_self]
  have hsame : ∀ b, b ≠ a → s'.files b = s.files b := fun b hne => by rw [hfiles, Function.update_of_ne hne]
  have hmap : ∀ b, (s'.files b).map File.vPtr = (s.files b).map File.vPtr ∧
      (s'.files b).map File.flock = (s.files b).map File.flock := fun b => by
    rcases eq_or_ne b a with rfl | hne
    · rw [hself, hf]
      exact ⟨congrArg some hptr, congrArg some hlk⟩
    · rw [hsame b hne]
      exact ⟨rfl, rfl⟩
  refine ⟨hheap, fun b hb => ?_, h.new, fun b hb => ?_, fun b hb => ?_, htable, fun v => ?_, fun l => ?_,
    fun b hb c hc hbc => ?_⟩
  · have hne : b ≠ a := fun he => hb (he ▸ hown)
    rw [hsame b hne]
    exact h.other b hb
  · rcases eq_or_ne b a with rfl | hne
    · obtain ⟨f', hf', -, hfree⟩ := h.file b hb
      obtain rfl := Option.some.inj (hf.symm.trans hf')
      exact ⟨g, hself, hcount, hlk ▸ hfree⟩
    · rw [hsame b hne, hslots b hne]
      exact h.file b hb
  · rcases eq_or_ne b a with rfl | hne
    · exact hused
    · rw [hslots b hne]
      exact h.used b hb
  · rw [hvn, h.vnRefs]
    simp only [(hmap _).1]
  · rw [hlocks, h.locks]
    simp only [(hmap _).2]
  · rw [(hmap b).2, (hmap c).2] at hbc
    exact h.lockInj b hb c hc hbc

omit [DecidableEq P] in
/-- A `File` in no slot any more is given back. -/
theorem remove (h : Held p s0 base s own) (hown : a ∈ own) (hf : s.files a = some f) (hheap : s'.HeapOk)
    (hfiles : s'.files = Function.update s.files a none)
    (hvn : s'.vnRefs = Function.update s.vnRefs f.vPtr (s.vnRefs f.vPtr - 1))
    (hlocks : s'.locks = Function.update s.locks f.flock false)
    (hslots : ∀ b, b ≠ a → s'.slotsOf p b = s.slotsOf p b)
    (htable : ∀ fd < maxProcessOpenFiles, ∀ b, s'.fileTable p fd = some b → b ∈ own.erase a) :
    Held p s0 base s' (own.erase a) := by
  obtain ⟨f', hf', -, hfree⟩ := h.file a hown
  obtain rfl := Option.some.inj (hf.symm.trans hf')
  have hsame : ∀ b, b ≠ a → s'.files b = s.files b := fun b hne => by rw [hfiles, Function.update_of_ne hne]
  refine ⟨hheap, fun b hb => ?_, fun b hb => h.new b (Finset.mem_of_mem_erase hb), fun b hb => ?_, fun b hb => ?_,
    htable, fun v => ?_, fun l => ?_, fun b hb c hc hbc => ?_⟩
  · rcases eq_or_ne b a with rfl | hne
    · rw [hfiles, Function.update_self, h.new b hown]
    · rw [hsame b hne]
      exact h.other b fun hmem => hb (Finset.mem_erase.mpr ⟨hne, hmem⟩)
  · obtain ⟨hne, hb⟩ := Finset.mem_erase.mp hb
    rw [hsame b hne, hslots b hne]
    exact h.file b hb
  · obtain ⟨hne, hb⟩ := Finset.mem_erase.mp hb
    rw [hslots b hne]
    exact h.used b hb
  · have hsum := Finset.add_sum_erase own (fun b => if (s.files b).map File.vPtr = some v then (1 : ℤ) else 0) hown
    have hv := h.vnRefs v
    rw [Finset.sum_congr rfl fun b hb => by rw [hsame b (Finset.ne_of_mem_erase hb)], hvn]
    simp only [hf, Option.map_some, Option.some.injEq] at hsum
    rcases eq_or_ne v f.vPtr with rfl | hne
    · rw [if_pos rfl] at hsum
      rw [Function.update_self]
      linarith
    · rw [if_neg hne.symm] at hsum
      rw [Function.update_of_ne hne]
      linarith
  · rw [hlocks]
    rcases eq_or_ne l f.flock with rfl | hne
    · rw [Function.update_self]
      refine iff_of_false Bool.false_ne_true ?_
      rintro (hl | ⟨b, hb, hl⟩)
      · rw [hfree] at hl
        exact Bool.false_ne_true hl
      · obtain ⟨hne, hb⟩ := Finset.mem_erase.mp hb
        rw [hsame b hne] at hl
        exact absurd (h.lockInj b hb a hown (hl.trans (by rw [hf]; rfl))) hne
    · rw [Function.update_of_ne hne, h.locks]
      refine or_congr_right ⟨?_, ?_⟩
      · rintro ⟨b, hb, hl⟩
        have hba : b ≠ a := by
          rintro rfl
          rw [hf] at hl
          exact hne (Option.some.inj hl).symm
        exact ⟨b, Finset.mem_erase.mpr ⟨hba, hb⟩, by rw [hsame b hba]; exact hl⟩
      · rintro ⟨b, hb, hl⟩
        obtain ⟨hba, hb⟩ := Finset.mem_erase.mp hb
        exact ⟨b, hb, by rw [← hsame b hba]; exact hl⟩
  · obtain ⟨hba, hb⟩ := Finset.mem_erase.mp hb
    obtain ⟨hca, hc⟩ := Finset.mem_erase.mp hc
    rw [hsame b hba, hsame c hca] at hbc
    exact h.lockInj b hb c hc hbc

/-- `close` of one of its slots. -/
theorem close (h : Held p s0 base s own) {fd : ℕ} (hfd : fd < maxProcessOpenFiles) (hslot : s.fileTable p fd = some a)
    (hf : s.files a = some f) : ∃ own', Held p s0 base (s.closed p fd a f) own' := by
  have hown := h.table fd hfd a hslot
  obtain ⟨g, hg, hcount, hfree⟩ := h.file a hown
  obtain rfl : f = g := Option.some.inj (hf.symm.trans hg)
  have hmem : fd ∈ s.slotsOf p a := Finset.mem_filter.mpr ⟨Finset.mem_range.mpr hfd, hslot⟩
  have hslots : ∀ b, (s.closed p fd a f).slotsOf p b = (s.slotsOf p b).erase fd := fun b => by
    rw [slotsOf_update hfd closed_table, if_neg (Option.some_ne_none b).symm]
  have hslotsb : ∀ b, b ≠ a → (s.closed p fd a f).slotsOf p b = s.slotsOf p b := fun b hne => by
    rw [hslots, Finset.erase_eq_of_notMem]
    intro hb
    exact hne (Option.some.inj ((Finset.mem_filter.mp hb).2.symm.trans hslot))
  have hsame : ∀ b, b ≠ a → (s.closed p fd a f).files b = s.files b := fun b hne => by
    rw [closed_files, Function.update_of_ne hne]
  have hcard : ((s.slotsOf p a).erase fd).card + 1 = (s.slotsOf p a).card := Finset.card_erase_add_one hmem
  have htable : ∀ d < maxProcessOpenFiles, ∀ b, (s.closed p fd a f).fileTable p d = some b →
      b ∈ own ∧ d ∈ (s.slotsOf p b).erase fd := fun d hd b hb => by
    rw [closed_table, Function.update_self] at hb
    have hne : d ≠ fd := by
      rintro rfl
      rw [Function.update_self] at hb
      cases hb
    rw [Function.update_of_ne hne] at hb
    exact ⟨h.table d hd b hb, Finset.mem_erase.mpr ⟨hne, Finset.mem_filter.mpr ⟨Finset.mem_range.mpr hd, hb⟩⟩⟩
  by_cases hlast : f.references - 1 ≤ 0
  · have hempty : (s.slotsOf p a).erase fd = ∅ := Finset.card_eq_zero.mp (by omega)
    refine ⟨own.erase a, h.remove hown hf (h.heap.closed hf) ?_ ?_ ?_ hslotsb fun d hd b hb => ?_⟩
    · rw [closed_files, if_pos hlast]
    · rw [closed_vnRefs, if_pos hlast]
    · rw [closed_locks, if_pos hlast]
    · obtain ⟨hb, hd⟩ := htable d hd b hb
      refine Finset.mem_erase.mpr ⟨?_, hb⟩
      rintro rfl
      rw [hempty] at hd
      exact absurd hd (Finset.notMem_empty d)
  · refine ⟨own, h.recount hown hf (g := { f with references := f.references - 1 }) rfl rfl (h.heap.closed hf)
      ?_ ?_ ?_ hslotsb ?_ ?_ fun d hd b hb => (htable d hd b hb).1⟩
    · rw [closed_files, if_neg hlast]
    · rw [closed_vnRefs, if_neg hlast]
    · rw [closed_locks, if_neg hlast]
    · rw [hslots]
      show f.references - 1 = _
      omega
    · rw [hslots]
      exact Finset.card_pos.mp (by omega)

/-- `sys_dup2` puts one of its `File`s into another slot. -/
theorem share (h : Held p s0 base s own) {fd : ℕ} (hfd : fd < maxProcessOpenFiles) (hslot : s.fileTable p fd = none)
    (hown : a ∈ own) (hf : s.files a = some f) : Held p s0 base (s.shared p fd a f) own := by
  obtain ⟨f', hf', hcount, -⟩ := h.file a hown
  obtain rfl := Option.some.inj (hf.symm.trans hf')
  have htable : (s.shared p fd a f).fileTable =
    Function.update s.fileTable p (Function.update (s.fileTable p) fd (some a)) := rfl
  have hnot : ∀ b, fd ∉ s.slotsOf p b := fun b hmem => by
    rw [(Finset.mem_filter.mp hmem).2] at hslot
    cases hslot
  have hslots : ∀ b, (s.shared p fd a f).slotsOf p b =
      if some a = some b then insert fd (s.slotsOf p b) else s.slotsOf p b := fun b => by
    rw [slotsOf_update hfd htable, Finset.erase_eq_of_notMem (hnot b)]
  refine h.recount hown hf (g := { f with references := f.references + 1 }) rfl rfl
    (FileState.HeapOk.setFile (s := s.setSlot p fd (some a)) h.heap hf) rfl rfl rfl (fun b hne => ?_) ?_ ?_
    fun d hd b hb => ?_
  · rw [hslots, if_neg fun he => hne (Option.some.inj he).symm]
  · rw [hslots, if_pos rfl, Finset.card_insert_of_notMem (hnot a)]
    show f.references + 1 = _
    rw [hcount]
    exact (Nat.cast_succ _).symm
  · rw [hslots, if_pos rfl]
    exact Finset.insert_nonempty fd _
  · rw [htable, Function.update_self] at hb
    rcases eq_or_ne d fd with rfl | hne
    · rw [Function.update_self] at hb
      exact Option.some.inj hb ▸ hown
    · rw [Function.update_of_ne hne] at hb
      exact h.table d hd b hb

omit [DecidableEq P] in
/-- What else there is does not matter. -/
theorem congr (h : Held p s0 base s own) (hheap : s'.HeapOk) (hfiles : s'.files = s.files)
    (htable : s'.fileTable = s.fileTable) (hvn : s'.vnRefs = s.vnRefs) (hlocks : s'.locks = s.locks) :
    Held p s0 base s' own := by
  have hslots : ∀ a, s'.slotsOf p a = s.slotsOf p a := fun a => by
    unfold FileState.slotsOf
    rw [htable]
  refine ⟨hheap, ?_, h.new, ?_, ?_, ?_, ?_, ?_, ?_⟩
  · simpa only [hfiles] using h.other
  · simpa only [hfiles, hslots] using h.file
  · simpa only [hslots] using h.used
  · simpa only [htable] using h.table
  · simpa only [hfiles, hvn] using h.vnRefs
  · simpa only [hfiles, hlocks] using h.locks
  · simpa only [hfiles] using h.lockInj

end Held

/-! ### `open` and `open2` -/

theorem Held.installed (h : Held p s0 base s own) {fd : ℕ} (hfd : fd < maxProcessOpenFiles)
    (hslot : s.fileTable p fd = none) (ha : s.kheap a = false) (hlock : s.locks f.flock = false)
    (hrefs : f.references = 1) : Held p s0 base (s.installed p fd a f) (insert a own) := by
  refine h.add hfd hslot (h.heap.free ha) hlock hrefs (fun b hb => ?_) rfl rfl rfl rfl
  show Function.update s.kheap a true b = true
  rcases eq_or_ne b a with rfl | hne
  · exact Function.update_self _ _ _
  · rw [Function.update_of_ne hne]
    refine h.heap b ?_
    change (Function.update s.files a (some f) b).isSome at hb
    rwa [Function.update_of_ne hne] at hb

/-- `open2` that returns 0 got all it asked for. -/
theorem open2_ok {env : Open2Env} {flags : UInt32} {d : ℕ} (h : open2 p env flags d s = .ok () s') :
    ∃ a stale vn lk, env.file = some (a, stale) ∧ env.vfsOpen = .ok vn ∧ env.flock = some lk ∧
      s' = s.installed p d a ⟨vn, flags, 1, lk, 0⟩ := by
  unfold open2 at h
  rcases hfile : env.file with _ | ⟨a, stale⟩
  · rw [hfile] at h
    cases h
  rcases hv : env.vfsOpen with e | vn
  · simp [hfile, hv] at h
  rcases hl : env.flock with _ | lk
  · simp [hfile, hv, hl] at h
  refine ⟨a, stale, vn, lk, rfl, rfl, rfl, ?_⟩
  simp [hfile, hv, hl, FileState.setFile, FileState.setSlot, FileState.vopIncref] at h
  exact h.symm

/-! ### The calls of a process -/

/-- A call that `p` makes on its table. -/
def Call.Of (p : P) : Call P → Prop
  | .openAt q _ _ => q = p
  | .close q _ => q = p
  | .dup2 q _ _ => q = p
  | _ => False

/-- `lock_create` hands out a lock that is not in use. -/
def Call.FreshLock : Call P → FileState P → Prop
  | .openAt _ env _, s => ∀ lk, env.flock = some lk → s.locks lk = false
  | _, _ => True

/-- A call of `sys_open`, `sys_close` or `sys_dup2` by `p`. -/
def ProcStep (p : P) (s : FileState P) (ev : Call P × Except Errno ℤ) (s' : FileState P) : Prop :=
  SysStep s ev s' ∧ ev.1.Of p ∧ ev.1.FreshLock s

/-- If it is a `sys_open` that gets no lock, it fails before that or `v_ptr` of
the new block is the vnode already. -/
def LosesNoVnode (s : FileState P) (ev : Call P × Except Errno ℤ) : Prop :=
  ∀ p env flags, ev.1 = .openAt p env flags → env.flock = none → env.FailsEarly p s ∨ env.StaleVnode

namespace Held

/-- **`sys_open`** of the process. -/
theorem sysOpen (h : Held p s0 base s own) {env : OpenEnv} (flags : UInt32) (hf : env.Fresh s)
    (hlock : ∀ lk, env.flock = some lk → s.locks lk = false)
    (hkeep : env.flock = none → env.FailsEarly p s ∨ env.StaleVnode) :
    (∃ e t, Os161.sysOpen p env flags s = .fail e t ∧ Held p s0 base t own) ∨
    ∃ d t own', Os161.sysOpen p env flags s = .ok d t ∧ Held p s0 base t own' := by
  -- a call that changes nothing but the heap
  have hout : ∀ e t, Os161.sysOpen p env flags s = .fail e t → s.Unchanged t → Held p s0 base t own :=
    fun e t ho ht => by
      rcases sysOpen_cases p flags h.heap hf with ⟨e', t', ho', hsame⟩ | ⟨d, t', ho', -, -⟩
      · obtain ⟨-, rfl⟩ := Outcome.fail.inj (ho'.symm.trans ho)
        exact h.congr (hsame.heapOk h.heap) hsame.files hsame.table ht.vnRefs ht.locks
      · cases ho'.symm.trans ho
  by_cases hearly : env.FailsEarly p s
  · obtain ⟨e, t, ho, ht⟩ := sysOpen_early flags hf hearly
    exact Or.inl ⟨e, t, ho, hout e t ho ht⟩
  rcases hl : env.flock with _ | lk
  · obtain ⟨t, ho, hiff⟩ := sysOpen_no_lock flags hf hearly hl
    exact Or.inl ⟨.enfile, t, ho, hout _ t ho (hiff.mpr ((hkeep hl).resolve_left hearly))⟩
  · obtain ⟨k, d, a, stale, vn, hpath, hslot, hfile, ho⟩ := sysOpen_installed flags hearly hl
    obtain ⟨-, hlt, hnone⟩ := freeSlot_some hslot
    obtain ⟨ha, hne⟩ := hf.file a stale hfile
    have hak : a ≠ k := fun he => hne (he ▸ hpath)
    have hmark : Held p s0 base (s.mark k true) own :=
      h.congr ((FileState.same_kheap true (h.heap.free (hf.path k hpath))).heapOk h.heap) rfl rfl rfl rfl
    have hin := hmark.installed (f := ⟨vn, flags, 1, lk, 0⟩) hlt hnone
      ((Function.update_of_ne hak _ _).trans ha) (hlock lk hl) rfl
    exact Or.inr ⟨d, _, _, ho, hin.congr hin.heap rfl rfl rfl rfl⟩

/-- **`sys_dup2`** of the process. -/
theorem sysDup2 (h : Held p s0 base s own) {oldfd newfd : ℤ} (hd : Os161.sysDup2 p oldfd newfd s = .ok () s') :
    ∃ own', Held p s0 base s' own' := by
  by_cases heq : oldfd = newfd
  · exact ⟨own, sysDup2_same hd heq ▸ h⟩
  obtain ⟨a, f, t, -, -, hne, hold, hnew, hslot, ht, hf, rfl⟩ := sysDup2_ok hd heq
  rcases ht with ⟨hnone, rfl⟩ | ⟨b, g, hb, hg, rfl⟩
  · exact ⟨own, h.share hnew hnone (h.table _ hold a hslot) hf⟩
  · obtain ⟨own', h'⟩ := h.close hnew hb hg
    refine ⟨own', h'.share hnew ?_ (h'.table _ hold a ?_) hf⟩
    · rw [closed_table, Function.update_self, Function.update_self]
    · rw [closed_table, Function.update_self, Function.update_of_ne hne, hslot]

/-- **One call** of the process. -/
theorem step (h : Held p s0 base s own) {ev : Call P × Except Errno ℤ} (hst : ProcStep p s ev s')
    (hkeep : LosesNoVnode s ev) : ∃ own', Held p s0 base s' own' := by
  obtain ⟨hst, hof, hlock⟩ := hst
  cases hst with
  | @ok _ c r hf hr =>
    cases c with
    | openAt q env flags =>
      obtain rfl : q = p := hof
      rcases h.sysOpen flags hf hlock (hkeep q env flags rfl) with ⟨e, t, ho, -⟩ | ⟨d, t, own', ho, ht⟩
      · cases ho.symm.trans hr
      · obtain ⟨-, rfl⟩ := Outcome.ok.inj (ho.symm.trans hr)
        exact ⟨own', ht⟩
    | close q fd =>
      obtain rfl : q = p := hof
      obtain ⟨_, _, hc, hr⟩ := Prog.bind_eq_ok.mp hr
      obtain ⟨-, rfl⟩ := Outcome.ok.inj hr
      obtain ⟨a, f, hlt, -, hslot, hfile, rfl⟩ := closeFile_ok hc
      exact h.close hlt hslot hfile
    | dup2 q oldfd newfd =>
      obtain rfl : q = p := hof
      obtain ⟨_, _, hd, hr⟩ := Prog.bind_eq_ok.mp hr
      obtain ⟨-, rfl⟩ := Outcome.ok.inj hr
      exact h.sysDup2 hd
    | read | write | lseek => exact hof.elim
  | @fail _ c e hf hr =>
    refine ⟨own, ?_⟩
    cases c with
    | openAt q env flags =>
      obtain rfl : q = p := hof
      rcases h.sysOpen flags hf hlock (hkeep q env flags rfl) with ⟨e', t, ho, ht⟩ | ⟨d, t, own', ho, -⟩
      · obtain ⟨-, rfl⟩ := Outcome.fail.inj (ho.symm.trans hr)
        exact ht
      · cases ho.symm.trans hr
    | close q fd =>
      rcases Prog.bind_eq_fail.mp hr with hr | ⟨_, _, _, hr⟩
      · exact closeFile_fail hr ▸ h
      · cases hr
    | dup2 q oldfd newfd =>
      rcases Prog.bind_eq_fail.mp hr with hr | ⟨_, _, _, hr⟩
      · exact sysDup2_fail hr ▸ h
      · cases hr
    | read | write | lseek => exact hof.elim

end Held

/-! ### From creation to end -/

/-- `kmalloc` and `lock_create` hand out what is not in use. -/
structure Open2Env.Fresh (env : Open2Env) (s : FileState P) : Prop where
  file : ∀ a stale, env.file = some (a, stale) → s.kheap a = false
  flock : ∀ lk, env.flock = some lk → s.locks lk = false

/-- The same for the three opens of the console. -/
structure ProcEnv.Fresh (env : ProcEnv) (s : FileState P) : Prop where
  console : ∀ d < 3, (env.console d).Fresh s
  file : ∀ d < 3, ∀ e < 3, ∀ a x y, (env.console d).file = some (a, x) → (env.console e).file = some (a, y) → d = e
  flock : ∀ d < 3, ∀ e < 3, ∀ lk, (env.console d).flock = some lk → (env.console e).flock = some lk → d = e

/-- The `File`s, the references to vnodes and the locks in use are the same. -/
structure FileState.SameHoldings (s t : FileState P) : Prop where
  files : t.files = s.files
  vnRefs : t.vnRefs = s.vnRefs
  locks : t.locks = s.locks

theorem Open2Env.Fresh.installed {env : Open2Env} (h : env.Fresh s) (d : ℕ) (ha : ∀ stale, env.file ≠ some (a, stale))
    (hl : env.flock ≠ some f.flock) : env.Fresh (s.installed p d a f) := by
  refine ⟨fun b stale hb => ?_, fun lk hlk => ?_⟩
  · have hne : b ≠ a := fun he => ha stale (he ▸ hb)
    exact (Function.update_of_ne hne _ _).trans (h.file b stale hb)
  · have hne : lk ≠ f.flock := fun he => hl (he ▸ hlk)
    exact (Function.update_of_ne hne _ _).trans (h.flock lk hlk)

/-- An empty console slot is opened. -/
theorem openConsole_ok {env : Open2Env} {flags : UInt32} {d : ℕ} (hnone : s.fileTable p d = none)
    (h : openConsole p env flags d s = .ok () s') :
    ∃ a stale vn lk, env.file = some (a, stale) ∧ env.vfsOpen = .ok vn ∧ env.flock = some lk ∧
      s' = s.installed p d a ⟨vn, flags, 1, lk, 0⟩ := by
  unfold openConsole at h
  rw [Prog.get_bind, if_pos hnone] at h
  obtain ⟨r, t, ha, h⟩ := Prog.bind_eq_ok.mp h
  unfold Prog.attempt at ha
  rcases ho : open2 p env flags d s with ⟨_, t'⟩ | ⟨e, t'⟩ | _
  · rw [ho] at ha
    obtain ⟨rfl, rfl⟩ := Outcome.ok.inj ha
    obtain rfl : t' = s' := by simpa [Prog.assert, Except.isOk, Except.toBool] using h
    exact open2_ok ho
  · rw [ho] at ha
    obtain ⟨rfl, rfl⟩ := Outcome.ok.inj ha
    simp [Prog.assert, Except.isOk, Except.toBool] at h
  · rw [ho] at ha
    cases ha

omit [DecidableEq P] in
theorem files_ok {m : Prog Errno (FileState P) Unit} {x y : ProcState P} (h : ProcState.files m x = .ok () y) :
    m x.fs = .ok () y.fs ∧ y.pCwd = x.pCwd := by
  unfold ProcState.files Prog.zoom at h
  rcases hm : m x.fs with ⟨_, t⟩ | ⟨e, t⟩ | _
  · rw [hm] at h
    obtain ⟨-, rfl⟩ := Outcome.ok.inj h
    exact ⟨rfl, rfl⟩
  · rw [hm] at h
    cases h
  · rw [hm] at h
    cases h

/-- The new process before its console is opened: it holds the current
directory, if there is one, and its table is what the memory held. -/
structure Begun (p : P) (env : ProcEnv) (x y : ProcState P) : Prop where
  files : y.fs.files = x.fs.files
  locks : y.fs.locks = x.fs.locks
  kheap : y.fs.kheap = x.fs.kheap
  table : y.fs.fileTable p = env.fileTable
  cwd : y.pCwd p = none ∧ y.fs.vnRefs = x.fs.vnRefs ∨ ∃ cwd, y.pCwd p = some cwd ∧
    y.fs.vnRefs = Function.update x.fs.vnRefs cwd (x.fs.vnRefs cwd + 1)

/-- **`proc_create_runprogram`** begins the process and opens the console. -/
theorem procCreateRunprogram_ok {curproc : P} {env : ProcEnv} {x y : ProcState P}
    (h : procCreateRunprogram curproc p env x = .ok () y) :
    ∃ z t1 t2, Begun p env x z ∧ openConsole p (env.console 0) oRdonly 0 z.fs = .ok () t1 ∧
      openConsole p (env.console 1) oWronly 1 t1 = .ok () t2 ∧
      openConsole p (env.console 2) oWronly 2 t2 = .ok () y.fs ∧ y.pCwd = z.pCwd := by
  unfold procCreateRunprogram at h
  simp only [Prog.bind_eq_ok] at h
  obtain ⟨_, w, hw, _, z, hz, _, t1, h1, _, t2, h2, h3⟩ := h
  obtain ⟨h1, hc1⟩ := files_ok h1
  obtain ⟨h2, hc2⟩ := files_ok h2
  obtain ⟨h3, hc3⟩ := files_ok h3
  refine ⟨z, t1.fs, t2.fs, ?_, h1, h2, h3, hc3.trans (hc2.trans hc1)⟩
  unfold procCreate at hw
  by_cases hmem : env.kmalloc = false ∨ env.kstrdup = false
  · rw [if_pos hmem] at hw
    cases hw
  rw [if_neg hmem] at hw
  obtain ⟨-, rfl⟩ := Outcome.ok.inj hw
  unfold procCopyCwd at hz
  rw [Prog.get_bind] at hz
  rcases hcwd : Function.update x.pCwd p none curproc with _ | cwd
  · simp only [hcwd] at hz
    obtain ⟨-, rfl⟩ := Outcome.ok.inj hz
    exact ⟨rfl, rfl, rfl, Function.update_self _ _ _, Or.inl ⟨Function.update_self _ _ _, rfl⟩⟩
  · simp only [hcwd] at hz
    obtain ⟨-, rfl⟩ := Outcome.ok.inj hz
    exact ⟨rfl, rfl, rfl, Function.update_self _ _ _, Or.inr ⟨cwd, Function.update_self _ _ _, rfl⟩⟩

/-- **`proc_destroy`** gives back the current directory and nothing else. -/
theorem procDestroy_ok (p : P) (y : ProcState P) : ∃ z, procDestroy p y = .ok () z ∧
    z.fs.files = y.fs.files ∧ z.fs.locks = y.fs.locks ∧ z.fs.fileTable = y.fs.fileTable ∧
    (y.pCwd p = none ∧ z.fs.vnRefs = y.fs.vnRefs ∨ ∃ cwd, y.pCwd p = some cwd ∧
      z.fs.vnRefs = Function.update y.fs.vnRefs cwd (y.fs.vnRefs cwd - 1)) := by
  unfold procDestroy
  rw [Prog.get_bind]
  rcases hcwd : y.pCwd p with _ | cwd
  · exact ⟨y, rfl, rfl, rfl, rfl, Or.inl ⟨rfl, rfl⟩⟩
  · exact ⟨_, rfl, rfl, rfl, rfl, Or.inr ⟨cwd, rfl, rfl⟩⟩

/-- The console slots from `k` on are empty, and what their opens get is not in use. -/
def ConsoleReady (p : P) (env : ProcEnv) (k : ℕ) (s : FileState P) : Prop :=
  ∀ d < 3, k ≤ d → s.fileTable p d = none ∧ (env.console d).Fresh s

/-- One console slot. -/
theorem Held.console {env : ProcEnv} {k : ℕ} {flags : UInt32} (h : Held p s0 base s own) (hfresh : env.Fresh s0)
    (hready : ConsoleReady p env k s) (hk : k < 3) (ho : openConsole p (env.console k) flags k s = .ok () s') :
    ∃ own', Held p s0 base s' own' ∧ ConsoleReady p env (k + 1) s' := by
  obtain ⟨hnone, hf⟩ := hready k hk le_rfl
  obtain ⟨a, x, vn, lk, hfile, -, hl, rfl⟩ := openConsole_ok hnone ho
  have hlt : k < maxProcessOpenFiles := hk.trans (by decide)
  refine ⟨_, h.installed (f := ⟨vn, flags, 1, lk, 0⟩) hlt hnone (hf.file a x hfile) (hf.flock lk hl) rfl,
    fun d hd hkd => ?_⟩
  obtain ⟨hnone', hf'⟩ := hready d hd (by omega)
  have hne : d ≠ k := by omega
  refine ⟨?_, hf'.installed k (fun y hy => hne (hfresh.file d hd k hk a y x hy hfile))
    fun hlk => hne (hfresh.flock d hd k hk lk hlk hl)⟩
  show Function.update s.fileTable p (Function.update (s.fileTable p) k (some a)) p d = none
  rw [Function.update_self, Function.update_of_ne hne, hnone']

/-- **The files of a process end with it** exactly when it has closed them all.
The process is made over memory that holds an empty file table, and none of its
calls of `sys_open` loses a vnode. -/
theorem proc_files_end (curproc p : P) (env : ProcEnv) (x y : ProcState P) (hheap : x.fs.HeapOk)
    (hfresh : env.Fresh x.fs) (hempty : ∀ fd < maxProcessOpenFiles, env.fileTable fd = none)
    (hcreate : procCreateRunprogram curproc p env x = .ok () y) (evs : List (Call P × Except Errno ℤ))
    (t : FileState P) (hrun : Run (Restrict (ProcStep p) LosesNoVnode) y.fs evs t) :
    ∃ z, procDestroy p { y with fs := t } = .ok () z ∧
      (x.fs.SameHoldings z.fs ↔ ∀ fd < maxProcessOpenFiles, t.fileTable p fd = none) := by
  obtain ⟨w, t1, t2, hw, h1, h2, h3, hcwd⟩ := procCreateRunprogram_ok hcreate
  have hnone : ∀ fd < maxProcessOpenFiles, w.fs.fileTable p fd = none := fun fd hfd => by
    rw [hw.table]
    exact hempty fd hfd
  have hheapw : w.fs.HeapOk := fun a ha => by
    rw [hw.kheap]
    rw [hw.files] at ha
    exact hheap a ha
  have hready : ConsoleReady p env 0 w.fs := fun d hd _ => by
    refine ⟨hnone d (hd.trans (by decide)), ?_, ?_⟩
    · rw [hw.kheap]
      exact (hfresh.console d hd).file
    · rw [hw.locks]
      exact (hfresh.console d hd).flock
  have held : Held p x.fs w.fs.vnRefs w.fs ∅ := .start hheapw hw.files hw.locks hnone
  obtain ⟨_, held, hready⟩ := held.console hfresh hready (by decide) h1
  obtain ⟨_, held, hready⟩ := held.console hfresh hready (by decide) h2
  obtain ⟨own, held, -⟩ := held.console hfresh hready (by decide) h3
  obtain ⟨own, held⟩ : ∃ own, Held p x.fs w.fs.vnRefs t own :=
    hrun.invariant (I := fun t => ∃ own, Held p x.fs w.fs.vnRefs t own) ⟨own, held⟩
      fun _ _ _ hi hst => hi.elim fun _ hi => hi.step hst.1 hst.2
  obtain ⟨z, hz, hfiles, hlocks, htable, hrefs⟩ := procDestroy_ok p { y with fs := t }
  refine ⟨z, hz, fun h => ?_, fun h => ?_⟩
  · intro fd hfd
    by_contra hne
    obtain ⟨a, ha⟩ := Option.ne_none_iff_exists'.mp hne
    have hown := held.table fd hfd a ha
    obtain ⟨f, hf, -⟩ := held.file a hown
    have := congrFun (hfiles.symm.trans h.files) a
    rw [held.new a hown] at this
    exact Option.some_ne_none f (hf.symm.trans this)
  · obtain ⟨hf, hv, hl⟩ := held.finish h
    refine ⟨hfiles.trans hf, ?_, hlocks.trans hl⟩
    -- the current directory's reference
    rcases hw.cwd with ⟨hc, hb⟩ | ⟨cwd, hc, hb⟩ <;> rcases hrefs with ⟨hc', hr⟩ | ⟨cwd', hc', hr⟩
    · exact hr.trans (hv.trans hb)
    · exact absurd ((congrFun hcwd p).trans hc ▸ hc') (Option.some_ne_none cwd').symm
    · exact absurd (hc' ▸ (congrFun hcwd p).trans hc) (Option.some_ne_none cwd).symm
    · obtain rfl : cwd = cwd' := Option.some.inj (hc.symm.trans ((congrFun hcwd p).symm.trans hc'))
      rw [hr]
      show Function.update t.vnRefs cwd (t.vnRefs cwd - 1) = _
      rw [hv, hb, Function.update_self, Function.update_idem, Int.add_sub_cancel, Function.update_eq_self]

/-- The kernel's process, `false`, with vnode 9 as its directory, and nothing open. -/
def bareKernel : ProcState Bool where
  fs := ⟨fun _ => none, fun _ _ => none, fun _ => none, 0, fun _ => false, fun _ => false, fun _ => 0⟩
  pCwd := fun q => if q then none else some 9

/-- Zeroed memory, and the console is vnode 7. -/
def bareEnv : ProcEnv :=
  ⟨true, true, fun _ => none, none, fun d => ⟨some (d, ⟨0, 0, 0, 0, 0⟩), .ok 7, some d⟩⟩

/-- **A process that ends at once** leaves its three console files behind. -/
theorem proc_files_leak : ∃ y z, procCreateRunprogram false true bareEnv bareKernel = .ok () y ∧
    procDestroy true y = .ok () z ∧ ¬ bareKernel.fs.SameHoldings z.fs ∧ z.fs.vnRefs 7 = 3 ∧
    ∀ a < 3, (z.fs.files a).isSome ∧ z.fs.locks a = true := by
  refine ⟨_, _, rfl, rfl, fun h => ?_, rfl, by decide⟩
  exact absurd (congrFun h.vnRefs 7) (by decide)

theorem bareEnv_fresh : bareEnv.Fresh bareKernel.fs := by
  refine ⟨fun d _ => ⟨fun _ _ _ => rfl, fun _ _ => rfl⟩, fun d _ e _ a x y hx hy => ?_, fun d _ e _ lk hx hy => ?_⟩
  · exact (Prod.mk.inj (Option.some.inj hx)).1.trans (Prod.mk.inj (Option.some.inj hy)).1.symm
  · exact (Option.some.inj hx).trans (Option.some.inj hy).symm

/-- It closes its descriptors first. -/
theorem proc_files_end_closed : ∃ y t z, procCreateRunprogram false true bareEnv bareKernel = .ok () y ∧
    Run (Restrict (ProcStep true) LosesNoVnode) y.fs
      [(.close true 0, .ok 0), (.close true 1, .ok 0), (.close true 2, .ok 0)] t ∧
    procDestroy true { y with fs := t } = .ok () z ∧ bareKernel.fs.SameHoldings z.fs := by
  have hstep : ∀ {s s' : FileState Bool} {fd : ℤ}, Call.run (.close true fd) s = .ok 0 s' →
      Restrict (ProcStep true) LosesNoVnode s (.close true fd, .ok 0) s' :=
    fun h => ⟨⟨.ok trivial h, rfl, trivial⟩, fun _ _ _ he => nomatch he⟩
  obtain ⟨y, hy, t, hrun, hnone⟩ : ∃ y, procCreateRunprogram false true bareEnv bareKernel = .ok () y ∧
      ∃ t, Run (Restrict (ProcStep true) LosesNoVnode) y.fs
        [(.close true 0, .ok 0), (.close true 1, .ok 0), (.close true 2, .ok 0)] t ∧
        ∀ fd < maxProcessOpenFiles, t.fileTable true fd = none :=
    ⟨_, rfl, _, .cons (hstep rfl) (.cons (hstep rfl) (.single (hstep rfl))), by decide⟩
  obtain ⟨z, hz, hiff⟩ := proc_files_end false true bareEnv bareKernel y (fun _ h => nomatch h) bareEnv_fresh
    (fun _ _ => rfl) hy _ t hrun
  exact ⟨y, t, z, hy, hrun, hz, hiff.mpr hnone⟩

end Os161
