/-
# Reference counts of open files

Every `File` counts the table slots that point to it, and lives as long as
there is one; two slots share a `File` exactly when their descriptors are
related by `dup2` (`file_refcounts`).

A descriptor is named here by how it came about (`Desc`): a console
descriptor, or the `n`th one made by `sys_open` or `sys_dup2`. `Origins`
records which descriptor sits in each slot and which one `dup2` made out of
which.
-/
import Os161.Syscall.Effect

namespace Os161

variable {P : Type}

/-- The slots that point to the `File` at `a`. -/
def View.slots (v : View P) (a : ℕ) : Set (P × ℕ) :=
  {x | x.2 < maxProcessOpenFiles ∧ v.table x.1 x.2 = some a}

/-- Counts are right, and no slot points to a `File` that is gone. -/
structure Counted (v : View P) : Prop where
  refs : ∀ a r, v.refs a = some r → 0 < r ∧ (v.slots a).encard = r.toNat
  live : ∀ a, v.refs a = none → v.slots a = ∅

section Steps

variable {v w : View P} {p : P} {fd : ℕ}

/-- A slot that is not `fd` of `p`'s is not touched by its removal. -/
theorem slots_sdiff {a : ℕ} (h : v.table p fd ≠ some a) : v.slots a \ {(p, fd)} = v.slots a := by
  refine Set.sdiff_singleton_eq_self ?_
  exact fun hm => h hm.2

variable [DecidableEq P]

/-- The slots after slot `fd` of `p` was set to `x`. -/
theorem slots_update (hfd : fd < maxProcessOpenFiles) (x : Option ℕ)
    (ht : w.table = Function.update v.table p (Function.update (v.table p) fd x)) (a : ℕ) :
    w.slots a = if x = some a then insert (p, fd) (v.slots a) else v.slots a \ {(p, fd)} := by
  ext ⟨q, d⟩
  by_cases hq : (q, d) = (p, fd)
  · obtain ⟨rfl, rfl⟩ := Prod.mk.inj hq
    split_ifs with hx <;> simp [View.slots, ht, hx, hfd]
  · have hsame : w.table q d = v.table q d := by
      rw [ht]
      by_cases hqp : q = p
      · subst hqp
        have hd : d ≠ fd := fun h => hq (by rw [h])
        rw [Function.update_self, Function.update_of_ne hd]
      · rw [Function.update_of_ne hqp]
    split_ifs with hx <;> simp [View.slots, hsame, hq]

theorem Counted.install {a : ℕ} (hc : Counted v) (hfd : fd < maxProcessOpenFiles) (hnone : v.table p fd = none)
    (ha : v.refs a = none) : Counted (v.install p fd a) := by
  have hslots := fun b => slots_update (w := v.install p fd a) hfd (some a) rfl b
  have hkeep : ∀ b, b ≠ a → (v.install p fd a).slots b = v.slots b := by
    intro b hb
    rw [hslots, if_neg (by simpa using hb.symm), slots_sdiff (by simp [hnone])]
  refine ⟨fun b r hr => ?_, fun b hb => ?_⟩
  · by_cases hba : b = a
    · subst hba
      obtain rfl : 1 = r := by simpa [View.install] using hr
      rw [hslots, if_pos rfl, hc.live b ha]
      simp
    · rw [hkeep b hba]
      exact hc.refs b r (by simpa [View.install, Function.update_of_ne hba] using hr)
  · have hba : b ≠ a := by
      rintro rfl
      simp [View.install] at hb
    rw [hkeep b hba]
    exact hc.live b (by simpa [View.install, Function.update_of_ne hba] using hb)

theorem Counted.clear {a : ℕ} {r : ℤ} (hc : Counted v) (hfd : fd < maxProcessOpenFiles)
    (ht : v.table p fd = some a) (hr : v.refs a = some r) : Counted (v.clear p fd a r) := by
  have hslots := fun b => slots_update (w := v.clear p fd a r) hfd none rfl b
  have hkeep : ∀ b, b ≠ a → (v.clear p fd a r).slots b = v.slots b := by
    intro b hb
    rw [hslots, if_neg (by simp), slots_sdiff (by simpa [ht] using hb.symm)]
  have hless : (v.clear p fd a r).slots a = v.slots a \ {(p, fd)} := by rw [hslots, if_neg (by simp)]
  obtain ⟨hpos, hcard⟩ := hc.refs a r hr
  have hcard' : ((v.clear p fd a r).slots a).encard + 1 = r.toNat := by
    rw [hless, Set.encard_sdiff_singleton_add_one (show (p, fd) ∈ v.slots a from ⟨hfd, ht⟩), hcard]
  have hone : ((v.clear p fd a r).slots a).encard = (r - 1).toNat := by
    refine ENat.add_left_injective_of_ne_top ENat.one_ne_top ?_
    show _ + 1 = _ + 1
    rw [hcard']
    exact_mod_cast (by omega : r.toNat = (r - 1).toNat + 1)
  refine ⟨fun b q hq => ?_, fun b hb => ?_⟩
  · by_cases hba : b = a
    · subst hba
      by_cases h0 : r - 1 ≤ 0
      · simp [View.clear, h0] at hq
      · obtain rfl : r - 1 = q := by simpa [View.clear, h0] using hq
        exact ⟨by omega, hone⟩
    · rw [hkeep b hba]
      exact hc.refs b q (by simpa [View.clear, Function.update_of_ne hba] using hq)
  · by_cases hba : b = a
    · subst hba
      have h0 : r - 1 ≤ 0 := by
        by_contra h0
        simp [View.clear, h0] at hb
      rw [← Set.encard_eq_zero, hone]
      exact_mod_cast (by omega : (r - 1).toNat = 0)
    · rw [hkeep b hba]
      exact hc.live b (by simpa [View.clear, Function.update_of_ne hba] using hb)

theorem Counted.share {a : ℕ} {r : ℤ} (hc : Counted v) (hfd : fd < maxProcessOpenFiles)
    (hnone : v.table p fd = none) (hr : v.refs a = some r) : Counted (v.share p fd a r) := by
  have hslots := fun b => slots_update (w := v.share p fd a r) hfd (some a) rfl b
  have hkeep : ∀ b, b ≠ a → (v.share p fd a r).slots b = v.slots b := by
    intro b hb
    rw [hslots, if_neg (by simpa using hb.symm), slots_sdiff (by simp [hnone])]
  obtain ⟨hpos, hcard⟩ := hc.refs a r hr
  refine ⟨fun b q hq => ?_, fun b hb => ?_⟩
  · by_cases hba : b = a
    · subst hba
      obtain rfl : r + 1 = q := by simpa [View.share] using hq
      have hnot : (p, fd) ∉ v.slots b := fun hm => by
        have := hm.2
        simp [hnone] at this
      refine ⟨by omega, ?_⟩
      rw [hslots, if_pos rfl, Set.encard_insert_of_notMem hnot, hcard]
      exact_mod_cast (by omega : r.toNat + 1 = (r + 1).toNat)
    · rw [hkeep b hba]
      exact hc.refs b q (by simpa [View.share, Function.update_of_ne hba] using hq)
  · have hba : b ≠ a := by
      rintro rfl
      simp [View.share] at hb
    rw [hkeep b hba]
    exact hc.live b (by simpa [View.share, Function.update_of_ne hba] using hb)

/-- Every effect keeps the counts right. -/
theorem Counted.step {eff : Effect P} (hc : Counted v) (h : ViewStep v eff w) : Counted w := by
  cases h with
  | keep => exact hc
  | install _ hfd hnone ha _ => exact hc.install hfd hnone ha
  | clear hfd ht hr => exact hc.clear hfd ht hr
  | dupFree _ _ hnew _ hnone hr => exact hc.share hnew hnone hr
  | dupBusy _ _ hnew _ ht hq hr => exact (hc.clear hnew ht hq).share hnew (by simp [View.clear]) hr

end Steps

/-! ### Descriptors and `dup2` -/

/-- A descriptor, by how it came about. -/
inductive Desc (P : Type)
  | console (p : P) (fd : ℕ)
  | made (n : ℕ)
  deriving DecidableEq

/-- The descriptor last put into each slot, and what `dup2` made it of. -/
structure Origins (P : Type) where
  desc : P → ℕ → Desc P
  dupOf : Desc P → Option (Desc P)
  next : ℕ

namespace Origins

variable [DecidableEq P]

/-- Only console descriptors. -/
def start : Origins P := ⟨.console, fun _ => none, 0⟩

/-- A new descriptor in slot `fd` of `p`, made of `d` if any. -/
def make (p : P) (fd : ℕ) (d : Option (Desc P)) (o : Origins P) : Origins P where
  desc := Function.update o.desc p (Function.update (o.desc p) fd (.made o.next))
  dupOf := Function.update o.dupOf (.made o.next) d
  next := o.next + 1

/-- The record after a call with the effect. -/
def after (o : Origins P) : Effect P → Origins P
  | .keep => o
  | .install p fd => o.make p fd none
  | .clear _ _ => o
  | .dup p oldfd newfd => o.make p newfd (some (o.desc p oldfd))

/-- One descriptor was made out of the other through a chain of `dup2` calls,
in either direction or from a common one. -/
def DupChain (o : Origins P) : Desc P → Desc P → Prop :=
  Relation.EqvGen fun x y => o.dupOf x = some y

/-- The descriptor is not one still to be made. -/
def Old (o : Origins P) : Desc P → Prop
  | .console _ _ => True
  | .made n => n < o.next

omit [DecidableEq P] in
theorem Old.ne_next {o : Origins P} {d : Desc P} (h : o.Old d) : d ≠ .made o.next := by
  rintro rfl
  exact Nat.lt_irrefl _ h

theorem Old.make {o : Origins P} {d : Desc P} (h : o.Old d) (p : P) (fd : ℕ) (x : Option (Desc P)) :
    (o.make p fd x).Old d := by
  cases d with
  | console _ _ => trivial
  | made n => exact Nat.lt_succ_of_lt h

end Origins

/-- `root` leads each descriptor to the one that `dup2` made it of in the end,
and tells the `File`s of the open slots apart. -/
structure Rooted [DecidableEq P] (v : View P) (o : Origins P) (root : Desc P → Desc P) : Prop where
  dup : ∀ x y, o.dupOf x = some y → root x = root y ∧ o.Old x ∧ o.Old y
  reach : ∀ x, o.DupChain x (root x)
  old : ∀ x, o.Old x → o.Old (root x)
  desc_old : ∀ a, ∀ x ∈ v.slots a, o.Old (o.desc x.1 x.2)
  share : ∀ a b, ∀ x ∈ v.slots a, ∀ y ∈ v.slots b, (a = b ↔ root (o.desc x.1 x.2) = root (o.desc y.1 y.2))

section Roots

variable [DecidableEq P] {v w : View P} {o : Origins P} {root : Desc P → Desc P} {p : P} {fd : ℕ}

theorem Rooted.mono (h : Rooted v o root) (hs : ∀ a, w.slots a ⊆ v.slots a) : Rooted w o root :=
  ⟨h.dup, h.reach, h.old, fun a x hx => h.desc_old a x (hs a hx),
    fun a b x hx y hy => h.share a b x (hs a hx) y (hs b hy)⟩

theorem Rooted.root_eq (h : Rooted v o root) {x y : Desc P} (hc : o.DupChain x y) : root x = root y := by
  induction hc with
  | rel x y hxy => exact (h.dup x y hxy).1
  | refl => rfl
  | symm _ _ _ ih => exact ih.symm
  | trans _ _ _ _ _ ih1 ih2 => exact ih1.trans ih2

/-- Two open slots share a `File` exactly when `dup2` relates their descriptors. -/
theorem Rooted.dupChain_iff (h : Rooted v o root) {a b : ℕ} {x y : P × ℕ} (hx : x ∈ v.slots a)
    (hy : y ∈ v.slots b) : a = b ↔ o.DupChain (o.desc x.1 x.2) (o.desc y.1 y.2) := by
  rw [h.share a b x hx y hy]
  exact ⟨fun he => (h.reach _).trans _ _ _ (he ▸ (h.reach _).symm _ _), h.root_eq⟩

/-- A new descriptor in a slot: `r` is where it leads. -/
theorem Rooted.make (h : Rooted v o root) {a : ℕ} {d : Option (Desc P)} {r : Desc P}
    (hfd : fd < maxProcessOpenFiles)
    (ht : w.table = Function.update v.table p (Function.update (v.table p) fd (some a)))
    (hr : d = none ∧ r = .made o.next ∨ ∃ x, d = some x ∧ o.Old x ∧ r = root x)
    (hnew : ∀ b, ∀ y ∈ v.slots b, y ≠ (p, fd) → (a = b ↔ r = root (o.desc y.1 y.2))) :
    Rooted w (o.make p fd d) (Function.update root (.made o.next) r) := by
  have hroot : ∀ x, x ≠ .made o.next → Function.update root (.made o.next) r x = root x :=
    fun x hx => Function.update_of_ne hx _ _
  have hsub : ∀ x y, o.dupOf x = some y → (o.make p fd d).dupOf x = some y := by
    intro x y hxy
    show Function.update o.dupOf (.made o.next) d x = some y
    rw [Function.update_of_ne (h.dup x y hxy).2.1.ne_next]
    exact hxy
  have hreach : ∀ x, (o.make p fd d).DupChain x (root x) := fun x => Relation.EqvGen.mono hsub _ _ (h.reach x)
  have hnext : (o.make p fd d).Old (.made o.next) := Nat.lt_succ_self _
  -- the slots: the new one, and those there were
  have hcases : ∀ b, ∀ y ∈ w.slots b, y = (p, fd) ∧ a = b ∨ y ≠ (p, fd) ∧ y ∈ v.slots b := by
    intro b y hy
    rw [slots_update hfd (some a) ht] at hy
    by_cases hyp : y = (p, fd)
    · refine Or.inl ⟨hyp, ?_⟩
      by_contra hne
      rw [if_neg (by simpa using hne)] at hy
      exact hy.2 hyp
    · refine Or.inr ⟨hyp, ?_⟩
      split_ifs at hy
      · exact (Set.mem_insert_iff.mp hy).resolve_left hyp
      · exact hy.1
  have hdesc : (o.make p fd d).desc p fd = .made o.next := by simp [Origins.make]
  have hdesc' : ∀ y : P × ℕ, y ≠ (p, fd) → (o.make p fd d).desc y.1 y.2 = o.desc y.1 y.2 := by
    intro y hy
    show Function.update o.desc p (Function.update (o.desc p) fd (.made o.next)) y.1 y.2 = _
    by_cases hp : y.1 = p
    · have hd : y.2 ≠ fd := fun hd => hy (Prod.ext hp hd)
      rw [hp, Function.update_self, Function.update_of_ne hd]
    · rw [Function.update_of_ne hp]
  refine ⟨fun x y hxy => ?_, fun x => ?_, fun x hx => ?_, fun b y hy => ?_, fun b c x hx y hy => ?_⟩
  · by_cases hx : x = .made o.next
    · subst hx
      have hd : d = some y := by simpa [Origins.make] using hxy
      rcases hr with ⟨hnone, -⟩ | ⟨z, hz, hold, rfl⟩
      · cases hnone.symm.trans hd
      · obtain rfl : z = y := Option.some.inj (hz.symm.trans hd)
        rw [Function.update_self, hroot z hold.ne_next]
        exact ⟨rfl, hnext, hold.make _ _ _⟩
    · have hxy' : o.dupOf x = some y := by simpa [Origins.make, Function.update_of_ne hx] using hxy
      obtain ⟨he, hxo, hyo⟩ := h.dup x y hxy'
      rw [hroot x hx, hroot y hyo.ne_next]
      exact ⟨he, hxo.make _ _ _, hyo.make _ _ _⟩
  · by_cases hx : x = .made o.next
    · subst hx
      rw [Function.update_self]
      rcases hr with ⟨-, rfl⟩ | ⟨z, rfl, -, rfl⟩
      · exact .refl _
      · exact .trans _ z _ (.rel _ _ (by simp [Origins.make])) (hreach z)
    · rw [hroot x hx]
      exact hreach x
  · by_cases hxn : x = .made o.next
    · subst hxn
      rw [Function.update_self]
      rcases hr with ⟨-, rfl⟩ | ⟨z, -, hz, rfl⟩
      · exact hnext
      · exact (h.old z hz).make _ _ _
    · rw [hroot x hxn]
      refine (h.old x ?_).make _ _ _
      cases x with
      | console _ _ => trivial
      | made n =>
        have h1 : n < o.next + 1 := hx
        have h2 : n ≠ o.next := fun he => hxn (by rw [he])
        exact (by omega : n < o.next)
  · rcases hcases b y hy with ⟨rfl, -⟩ | ⟨hne, hy⟩
    · rw [hdesc]
      exact hnext
    · rw [hdesc' y hne]
      exact (h.desc_old b y hy).make _ _ _
  · rcases hcases b x hx with ⟨rfl, rfl⟩ | ⟨hxne, hx⟩ <;> rcases hcases c y hy with ⟨rfl, rfl⟩ | ⟨hyne, hy⟩
    · simp
    · rw [hdesc, hdesc' y hyne, Function.update_self, hroot _ (h.desc_old c y hy).ne_next]
      exact hnew c y hy hyne
    · rw [hdesc, hdesc' x hxne, Function.update_self, hroot _ (h.desc_old b x hx).ne_next, eq_comm,
        hnew b x hx hxne, eq_comm]
    · rw [hdesc' x hxne, hdesc' y hyne, hroot _ (h.desc_old b x hx).ne_next,
        hroot _ (h.desc_old c y hy).ne_next]
      exact h.share b c x hx y hy

/-- Every effect keeps descriptors and `File`s in step. -/
theorem Rooted.step {eff : Effect P} (hc : Counted v) (h : Rooted v o root) (hst : ViewStep v eff w) :
    ∃ root', Rooted w (o.after eff) root' := by
  have hclear : ∀ {a : ℕ} {r : ℤ} {fd : ℕ} {p : P}, fd < maxProcessOpenFiles → Rooted (v.clear p fd a r) o root := by
    intro a r fd p hfd
    refine h.mono fun b => ?_
    rw [slots_update (w := v.clear p fd a r) hfd none rfl, if_neg (by simp)]
    exact Set.sdiff_subset
  cases hst with
  | keep => exact ⟨root, h⟩
  | @install p fd a _ hfd hnone ha _ =>
    refine ⟨_, h.make (d := none) (r := .made o.next) hfd rfl (Or.inl ⟨rfl, rfl⟩) fun b y hy _ => ?_⟩
    constructor
    · rintro rfl
      rw [hc.live a ha] at hy
      exact hy.elim
    · intro he
      exact absurd he.symm (h.old _ (h.desc_old b y hy)).ne_next
  | clear hfd _ _ => exact ⟨root, hclear hfd⟩
  | @dupFree p oldfd newfd a r hne hold hnew ht hnone hr =>
    have hx : (p, oldfd) ∈ v.slots a := ⟨hold, ht⟩
    refine ⟨_, h.make hnew rfl (Or.inr ⟨_, rfl, h.desc_old a _ hx, rfl⟩) fun b y hy _ => ?_⟩
    exact h.share a b _ hx y hy
  | @dupBusy p oldfd newfd a b q r hne hold hnew ht hb hq hr =>
    have hc := hclear (a := b) (r := q) (p := p) hnew
    have hx : (p, oldfd) ∈ (v.clear p newfd b q).slots a := by
      rw [slots_update (w := v.clear p newfd b q) hnew none rfl, if_neg (by simp)]
      exact ⟨⟨hold, ht⟩, fun he => hne (Prod.mk.inj he).2⟩
    refine ⟨_, hc.make hnew rfl (Or.inr ⟨_, rfl, hc.desc_old a _ hx, rfl⟩) fun b y hy _ => ?_⟩
    exact hc.share a b _ hx y hy

end Roots

/-! ### Runs of calls -/

/-- The kernel's state with the record of descriptors. -/
structure Traced (P : Type) where
  sys : FileState P
  origins : Origins P

/-- A call, with its effect entered in the record. -/
inductive TracedStep [DecidableEq P] : Traced P → Call P × Except Errno ℤ → Traced P → Prop
  | mk {s s' : FileState P} {o : Origins P} {ev : Call P × Except Errno ℤ} :
      SysStep s ev s' → TracedStep ⟨s, o⟩ ev ⟨s', o.after (effectOf ev)⟩

/-- Every process has its three console entries and nothing else is open. -/
structure ConsoleOnly (s : FileState P) : Prop where
  console : ∀ p, ∀ fd < 3, ∃ a f, s.fileTable p fd = some a ∧ s.files a = some f ∧ f.references = 1
  rest : ∀ p, ∀ fd < maxProcessOpenFiles, 3 ≤ fd → s.fileTable p fd = none
  distinct : ∀ p q, ∀ fd < 3, ∀ d < 3, s.fileTable p fd = s.fileTable q d → p = q ∧ fd = d
  only : ∀ a f, s.files a = some f → ∃ p, ∃ fd < 3, s.fileTable p fd = some a
  heap : s.HeapOk

/-- The slots that point to the `File` at `a`. -/
def FileState.slots (s : FileState P) (a : ℕ) : Set (P × ℕ) := s.view.slots a

theorem view_refs_some {s : FileState P} {a : ℕ} {f : File} (h : s.files a = some f) :
    s.view.refs a = some f.references := by
  simp [FileState.view, h]

theorem view_refs_none {s : FileState P} {a : ℕ} : s.view.refs a = none ↔ s.files a = none := by
  simp [FileState.view]

namespace ConsoleOnly

variable {s : FileState P}

theorem slot_lt (h : ConsoleOnly s) {a : ℕ} {x : P × ℕ} (hx : x ∈ s.slots a) : x.2 < 3 := by
  by_contra h3
  have := h.rest x.1 x.2 hx.1 (by omega)
  cases this.symm.trans hx.2

theorem slots_eq (h : ConsoleOnly s) {p : P} {fd a : ℕ} (hfd : fd < 3) (ht : s.fileTable p fd = some a) :
    s.slots a = {(p, fd)} := by
  ext x
  constructor
  · intro hx
    obtain ⟨hp, hd⟩ := h.distinct x.1 p x.2 (h.slot_lt hx) fd hfd (hx.2.trans ht.symm)
    exact Prod.ext hp hd
  · rintro rfl
    exact ⟨by unfold maxProcessOpenFiles; omega, ht⟩

theorem counted (h : ConsoleOnly s) : Counted s.view := by
  refine ⟨fun a r hr => ?_, fun a ha => ?_⟩
  · obtain ⟨f, hf, rfl⟩ : ∃ f, s.files a = some f ∧ f.references = r := by
      simpa [FileState.view] using hr
    obtain ⟨p, fd, hfd, ht⟩ := h.only a f hf
    obtain ⟨b, g, hb, hg, h1⟩ := h.console p fd hfd
    obtain rfl : a = b := Option.some.inj (ht.symm.trans hb)
    obtain rfl : f = g := Option.some.inj (hf.symm.trans hg)
    have hs : s.view.slots a = {(p, fd)} := h.slots_eq hfd ht
    rw [hs, h1]
    simp
  · by_contra hne
    obtain ⟨x, hx⟩ := Set.nonempty_iff_ne_empty.mpr hne
    obtain ⟨b, f, hb, hf, -⟩ := h.console x.1 x.2 (h.slot_lt hx)
    obtain rfl : a = b := Option.some.inj (hx.2.symm.trans hb)
    cases (view_refs_none.mp ha).symm.trans hf

theorem rooted [DecidableEq P] (h : ConsoleOnly s) : Rooted s.view Origins.start id := by
  refine ⟨fun x y hxy => (nomatch hxy), fun x => .refl x, fun x hx => hx, fun a x _ => trivial, ?_⟩
  intro a b x hx y hy
  constructor
  · rintro rfl
    obtain ⟨hp, hd⟩ := h.distinct x.1 y.1 x.2 (h.slot_lt hx) y.2 (h.slot_lt hy) (hx.2.trans hy.2.symm)
    rw [hp, hd]
  · intro he
    obtain ⟨hp, hd⟩ := Desc.console.inj he
    have h1 := hx.2
    rw [hp, hd] at h1
    exact Option.some.inj (h1.symm.trans hy.2)

end ConsoleOnly

section Runs

variable [DecidableEq P]

/-- What holds along every run: counts are right, and descriptors and `File`s
are in step. -/
structure FilesInv (t : Traced P) : Prop where
  heap : t.sys.HeapOk
  counted : Counted t.sys.view
  rooted : ∃ root, Rooted t.sys.view t.origins root

theorem ConsoleOnly.filesInv {s : FileState P} (h : ConsoleOnly s) : FilesInv ⟨s, Origins.start⟩ :=
  ⟨h.heap, h.counted, id, h.rooted⟩

theorem TracedStep.inv {t t' : Traced P} {ev : Call P × Except Errno ℤ} (hi : FilesInv t)
    (h : TracedStep t ev t') : FilesInv t' := by
  obtain ⟨hs⟩ := h
  obtain ⟨hh, hv⟩ := sysStep_effect hi.heap hs
  obtain ⟨root, hr⟩ := hi.rooted
  exact ⟨hh, hi.counted.step hv, hr.step hi.counted hv⟩

/-- A `File` that a call ends was given back: its vnode reference dropped, its
lock destroyed, its block freed. -/
theorem sysStep_destroy {s s' : FileState P} {ev : Call P × Except Errno ℤ} {a : ℕ} {f : File} (hs : s.HeapOk)
    (h : SysStep s ev s') (hf : s.files a = some f) (hgone : s'.files a = none) :
    s'.vnRefs f.vPtr = s.vnRefs f.vPtr - 1 ∧ s'.locks f.flock = false ∧ s'.kheap a = false := by
  obtain ⟨-, hv⟩ := sysStep_effect hs h
  have hlive : s.view.refs a = some f.references := view_refs_some hf
  have hdead : s'.view.refs a = none := view_refs_none.mpr hgone
  -- a call without `close` in it ends no `File`
  have hkeep : effectOf ev ≠ .keep := fun he => by
    rw [he] at hv
    generalize s'.view = w at hv hdead
    cases hv
    cases hlive.symm.trans hdead
  have hinstall : ∀ p fd, effectOf ev ≠ .install p fd := fun p fd he => by
    rw [he] at hv
    generalize s'.view = w at hv hdead
    cases hv with
    | @install _ _ b _ _ _ hb _ =>
      by_cases hab : a = b
      · subst hab
        cases hlive.symm.trans hb
      · simp only [View.install, Function.update_of_ne hab] at hdead
        cases hlive.symm.trans hdead
  obtain ⟨c, r⟩ := ev
  cases h with
  | @ok _ _ r _ h =>
    cases c with
    | openAt p env flags => exact absurd rfl (hinstall _ _)
    | close p fd =>
      obtain ⟨_, _, hc, h⟩ := Prog.bind_eq_ok.mp h
      obtain ⟨-, rfl⟩ := Outcome.ok.inj h
      obtain ⟨b, g, -, -, -, hg, rfl⟩ := closeFile_ok hc
      exact closed_destroy hf hg hgone
    | read p fd vop => exact absurd rfl hkeep
    | write p fd vop => exact absurd rfl hkeep
    | dup2 p oldfd newfd =>
      obtain ⟨_, _, hc, h⟩ := Prog.bind_eq_ok.mp h
      obtain ⟨-, rfl⟩ := Outcome.ok.inj h
      have hne : oldfd ≠ newfd := fun he => hkeep (if_pos he)
      obtain ⟨b, g, t, -, -, -, -, -, -, ht, hg, rfl⟩ := sysDup2_ok hc hne
      have hab : a ≠ b := by
        rintro rfl
        simp [FileState.shared, FileState.setFile] at hgone
      have hgone' : t.files a = none := by
        simpa [FileState.shared, FileState.setFile, FileState.setSlot, Function.update_of_ne hab] using hgone
      rcases ht with ⟨-, rfl⟩ | ⟨d, k, -, hk, rfl⟩
      · cases hf.symm.trans hgone'
      · exact closed_destroy hf hk hgone'
    | lseek p fd pos env => exact absurd rfl hkeep
  | fail _ h => exact absurd (by cases c <;> rfl) hkeep

/-- **Reference counts.** Processes start with their console entries only.
After any calls, every live `File` counts the slots that point to it, a
`File` is alive exactly while there is such a slot, a call that clears the
last one gives the `File` back, and two slots share a `File` exactly when
their descriptors are related by `dup2`. -/
theorem file_refcounts {s : FileState P} (h0 : ConsoleOnly s) {evs : List (Call P × Except Errno ℤ)} {t : Traced P}
    (h : Run TracedStep ⟨s, Origins.start⟩ evs t) :
    (∀ a f, t.sys.files a = some f → 0 < f.references ∧ (t.sys.slots a).encard = f.references.toNat) ∧
    (∀ a, t.sys.files a = none ↔ t.sys.slots a = ∅) ∧
    (∀ ev t', TracedStep t ev t' → ∀ a f, t.sys.files a = some f → t'.sys.slots a = ∅ →
      t'.sys.files a = none ∧ t'.sys.vnRefs f.vPtr = t.sys.vnRefs f.vPtr - 1 ∧
      t'.sys.locks f.flock = false ∧ t'.sys.kheap a = false) ∧
    (∀ a b, ∀ x ∈ t.sys.slots a, ∀ y ∈ t.sys.slots b,
      (a = b ↔ t.origins.DupChain (t.origins.desc x.1 x.2) (t.origins.desc y.1 y.2))) := by
  have hi : FilesInv t := Run.invariant h0.filesInv (fun _ _ _ hi hst => hst.inv hi) h
  have hlive : ∀ {u : Traced P}, FilesInv u → ∀ a, u.sys.files a = none ↔ u.sys.slots a = ∅ := by
    intro u hu a
    refine ⟨fun hn => hu.counted.live a (view_refs_none.mpr hn), fun he => ?_⟩
    by_contra hne
    obtain ⟨f, hf⟩ := Option.ne_none_iff_exists'.mp hne
    obtain ⟨hpos, hcard⟩ := hu.counted.refs a _ (view_refs_some hf)
    rw [show u.sys.view.slots a = ∅ from he, Set.encard_empty] at hcard
    have : f.references.toNat = 0 := by exact_mod_cast hcard.symm
    omega
  refine ⟨fun a f hf => hi.counted.refs a _ (view_refs_some hf), hlive hi, ?_, ?_⟩
  · intro ev t' hst a f hf hslots
    have hgone := (hlive (hst.inv hi) a).mpr hslots
    obtain ⟨hs⟩ := hst
    exact ⟨hgone, sysStep_destroy hi.heap hs hf hgone⟩
  · intro a b x hx y hy
    obtain ⟨root, hr⟩ := hi.rooted
    exact hr.dupChain_iff hx hy

end Runs

/-- One process with its console entries at addresses 0, 1 and 2. -/
def consoleStart : FileState Unit where
  files := fun a => if a < 3 then some ⟨a, if a = 0 then oRdonly else oWronly, 1, a, 0⟩ else none
  fileTable := fun _ fd => if fd < 3 then some fd else none
  par := fun _ => none
  numOpenFiles := 0
  kheap := fun a => a < 3
  locks := fun a => a < 3
  vnRefs := fun a => if a < 3 then 1 else 0

theorem consoleStart_consoleOnly : ConsoleOnly consoleStart := by
  refine ⟨fun p fd hfd => ?_, fun p fd _ h3 => ?_, fun p q fd hfd d hd he => ?_, fun a f hf => ?_, fun a ha => ?_⟩
  · exact ⟨fd, _, if_pos hfd, if_pos hfd, rfl⟩
  · exact if_neg (by omega)
  · refine ⟨rfl, ?_⟩
    simpa [consoleStart, hfd, hd] using he
  · have ha : a < 3 := by
      by_contra hn
      simp [consoleStart, hn] at hf
    exact ⟨(), a, ha, if_pos ha⟩
  · have ha : a < 3 := by
      by_contra hn
      simp [consoleStart, hn] at ha
    simp [consoleStart, ha]

/-- After `dup2(1, 5)` the two descriptors share a `File`. -/
theorem file_refcounts_dup2 : ∃ t : Traced Unit,
    Run TracedStep ⟨consoleStart, Origins.start⟩ [(.dup2 () 1 5, .ok 0)] t ∧
    t.origins.DupChain (t.origins.desc () 5) (t.origins.desc () 1) := by
  have hstep : ∃ s', SysStep consoleStart (.dup2 () 1 5, .ok 0) s' ∧
      s'.fileTable () 5 = some 1 ∧ s'.fileTable () 1 = some 1 := ⟨_, .ok trivial rfl, rfl, rfl⟩
  obtain ⟨s', hst, h5, h1⟩ := hstep
  have hrun : Run TracedStep ⟨consoleStart, Origins.start⟩ [(.dup2 () 1 5, .ok 0)] ⟨s', _⟩ := Run.single (.mk hst)
  refine ⟨_, hrun, ?_⟩
  exact ((file_refcounts consoleStart_consoleOnly hrun).2.2.2 1 1 ((), 5) ⟨by decide, h5⟩ ((), 1)
    ⟨by decide, h1⟩).mp rfl

end Os161
