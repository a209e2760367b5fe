/-
# The lifetime of a vnode: every reference is counted

The invariant of the steps in `Os161/Sfs/Lifetime.lean`: a vnode's count is
the number of references held and on their way to `sfs_reclaim`, the table
holds the vnodes that exist apart from one being taken down, and a thread past
the check of `sfs_reclaim` has the last reference. No assertion fails along
any run (`vnode_lifetime`).
-/
import Os161.Sfs.Lifetime

namespace Os161

open Life

variable {T V : Type}

/-- The thread is inside a section under the big lock. -/
def LifePc.Locked : LifePc V → Prop
  | .found _ | .check _ | .destroy _ | .cleanup _ | .leave => True
  | _ => False

/-- The thread is past the check of `sfs_reclaim` for `v`. -/
def LifePc.Last (v : V) : LifePc V → Prop
  | .destroy w | .cleanup w => w = v
  | _ => False

theorem LifePc.Last.locked {v : V} {x : LifePc V} (h : x.Last v) : x.Locked := by
  cases x <;> first | exact h.elim | trivial

/-- The vnode exists. -/
def Life.Alive (s : Life T V) (v : V) : Prop := s.created v = true ∧ s.destroyed v = 0

variable [DecidableEq V]

/-- The references to `v` that a thread at `x` passes to `sfs_reclaim`. -/
def LifePc.transit (v : V) : LifePc V → ℕ
  | .reclaim w | .check w | .destroy w | .cleanup w => if w = v then 1 else 0
  | _ => 0

theorem LifePc.Last.transit {v : V} {x : LifePc V} (h : x.Last v) : x.transit v = 1 := by
  cases x with
  | destroy w => exact if_pos h
  | cleanup w => exact if_pos h
  | _ => exact h.elim

variable [Fintype T]

/-- The references to `v` that threads hold. -/
def Life.heldTotal (s : Life T V) (v : V) : ℕ := Census.total (fun h : V → ℕ => h v) s.held

/-- The references to `v` on their way. -/
def Life.transitTotal (s : Life T V) (v : V) : ℕ := Census.total (LifePc.transit v) s.pc

/-- **The invariant**: the count of an existing vnode is the number of
references to it, and there are none to others. -/
structure LifeInv (s : Life T V) : Prop where
  lock : ∀ t, (s.pc t).Locked → s.biglock = some t
  depth : s.biglock ≠ none → 0 < s.biglockDepth
  once : ∀ v, s.destroyed v ≤ 1 ∧ (s.destroyed v = 1 → s.created v = true)
  count : ∀ v, s.Alive v → s.vnRefcount v = s.heldTotal v + s.transitTotal v
  dead : ∀ v, ¬ s.Alive v → s.heldTotal v + s.transitTotal v = 0
  table : ∀ v, v ∈ s.sfsVnodes ↔ s.Alive v ∧ ∀ t, s.pc t ≠ .cleanup v
  nodup : s.sfsVnodes.Nodup
  inj : ∀ v w, s.Alive v → s.Alive w → s.svIno v = s.svIno w → v = w
  found : ∀ t v, s.pc t = .found v → v ∈ s.sfsVnodes
  last : ∀ t v, (s.pc t).Last v → s.vnRefcount v = 1

namespace LifeInv

variable {s : Life T V} {t : T} {v : V}

/-- Only one thread is in a section under the big lock. -/
theorem eq_of_locked (h : LifeInv s) {u : T} (ht : s.biglock = some t) (hu : (s.pc u).Locked) : u = t :=
  Option.some.inj ((h.lock u hu).symm.trans ht)

theorem alive_of_held (h : LifeInv s) (ht : 0 < s.held t v) : s.Alive v := by
  by_contra hd
  have h1 := h.dead v hd
  have h2 : s.held t v ≤ s.heldTotal v := Census.le_total (w := fun h : V → ℕ => h v) t
  omega

theorem transit_le (t : T) : (s.pc t).transit v ≤ s.transitTotal v := Census.le_total (w := LifePc.transit v) t

theorem alive_of_transit (h : LifeInv s) (ht : (s.pc t).transit v = 1) : s.Alive v := by
  by_contra hd
  have h1 := h.dead v hd
  have h2 : (s.pc t).transit v ≤ s.transitTotal v := transit_le t
  omega

/-- A vnode of which a reference is held is not past the check. -/
theorem not_last_of_held (h : LifeInv s) (ht : 0 < s.held t v) (u : T) : ¬ (s.pc u).Last v := by
  intro hl
  have h1 := h.count v (h.alive_of_held ht)
  have h2 := h.last u v hl
  have h3 : (s.pc u).transit v ≤ s.transitTotal v := transit_le u
  have h4 : s.held t v ≤ s.heldTotal v := Census.le_total (w := fun h : V → ℕ => h v) t
  rw [hl.transit] at h3
  omega

variable [DecidableEq T]

omit [DecidableEq V] [Fintype T] in
theorem pc_goto (x : LifePc V) (u : T) : Function.update s.pc t x u = if u = t then x else s.pc u :=
  Function.update_apply _ _ _ _

theorem heldTotal_setHeld (n : ℕ) : (s.setHeld t v n).heldTotal v + s.held t v = s.heldTotal v + n := by
  have := Census.total_update (w := fun h : V → ℕ => h v) (f := s.held) t (Function.update (s.held t) v n)
  rwa [Function.update_self] at this

theorem heldTotal_setHeld_of_ne (n : ℕ) {w : V} (hw : w ≠ v) : (s.setHeld t v n).heldTotal w = s.heldTotal w := by
  refine Census.total_update_same (w := fun h : V → ℕ => h w) ?_
  exact Function.update_of_ne hw _ _

/-- A thread moves to a place with the same references on their way. -/
theorem move (h : LifeInv s) {x : LifePc V} (hlock : x.Locked → s.biglock = some t)
    (htransit : ∀ v, x.transit v = (s.pc t).transit v) (hfrom : ∀ v, s.pc t ≠ .cleanup v) (hto : ∀ v, x ≠ .cleanup v)
    (hfound : ∀ v, x = .found v → v ∈ s.sfsVnodes) (hlast : ∀ v, x.Last v → s.vnRefcount v = 1) :
    LifeInv { s with pc := Function.update s.pc t x } := by
  have htot : ∀ v, Census.total (LifePc.transit v) (Function.update s.pc t x) = s.transitTotal v :=
    fun v => Census.total_update_same (htransit v)
  refine ⟨fun u hu => ?_, h.depth, h.once, fun v hv => ?_, fun v hv => ?_, fun v => ?_, h.nodup, h.inj,
    fun u v hu => ?_, fun u v hu => ?_⟩
  · simp only [pc_goto] at hu
    split_ifs at hu with hut
    · rw [hut]
      exact hlock hu
    · exact h.lock u hu
  · exact (h.count v hv).trans (congrArg (s.heldTotal v + ·) (htot v).symm)
  · exact (congrArg (s.heldTotal v + ·) (htot v)).trans (h.dead v hv)
  · refine (h.table v).trans (and_congr_right fun _ => forall_congr' fun u => ?_)
    simp only [pc_goto]
    split_ifs with hut
    · rw [hut]
      exact iff_of_true (hfrom v) (hto v)
    · rfl
  · simp only [pc_goto] at hu
    split_ifs at hu with hut
    · exact hfound v hu
    · exact h.found u v hu
  · simp only [pc_goto] at hu
    split_ifs at hu with hut
    · exact hlast v hu
    · exact h.last u v hu

omit [DecidableEq T] in
/-- **`vfs_biglock_acquire`.** -/
theorem acquire (h : LifeInv s) (ht : s.Acquirable t) :
    LifeInv { s with biglock := some t, biglockDepth := s.biglockDepth + 1 } := by
  refine ⟨fun u hu => ?_, fun _ => Nat.succ_pos _, h.once, h.count, h.dead, h.table, h.nodup, h.inj, h.found, h.last⟩
  have hb := h.lock u hu
  rcases ht with ht | ht
  · rw [ht] at hb
    cases hb
  · exact ht.symm.trans hb

omit [DecidableEq T] in
/-- **`vfs_biglock_release`** by a thread that is in no section. -/
theorem release (h : LifeInv s) (ht : s.biglock = some t) (hpc : ¬ (s.pc t).Locked) :
    LifeInv { s with
      biglock := if s.biglockDepth = 1 then none else s.biglock
      biglockDepth := s.biglockDepth - 1 } := by
  refine ⟨fun u hu => ?_, fun hb => ?_, h.once, h.count, h.dead, h.table, h.nodup, h.inj, h.found, h.last⟩
  · exact absurd (h.eq_of_locked ht hu ▸ hu) hpc
  · have h0 := h.depth (by rw [ht]; simp)
    by_cases h1 : s.biglockDepth = 1
    · exact absurd (if_pos h1) hb
    · show 0 < s.biglockDepth - 1
      omega

/-- **`vnode_incref`** of a vnode that nobody is taking down. -/
theorem incref (h : LifeInv s) (hv : s.Alive v) (hlast : ∀ u, ¬ (s.pc u).Last v) :
    LifeInv ((s.setRefcount v (s.vnRefcount v + 1)).setHeld t v (s.held t v + 1)) := by
  have htot := heldTotal_setHeld (s := s) (t := t) (v := v) (s.held t v + 1)
  refine ⟨h.lock, h.depth, h.once, fun w hw => ?_, fun w hw => ?_, h.table, h.nodup, h.inj, h.found, fun u w hu => ?_⟩
  · by_cases hwv : w = v
    · subst hwv
      have h1 := h.count w hv
      show Function.update s.vnRefcount w (s.vnRefcount w + 1) w = (s.setHeld t w _).heldTotal w + s.transitTotal w
      rw [Function.update_self]
      omega
    · show Function.update s.vnRefcount v (s.vnRefcount v + 1) w = (s.setHeld t v _).heldTotal w + s.transitTotal w
      rw [Function.update_of_ne hwv, heldTotal_setHeld_of_ne _ hwv]
      exact h.count w hw
  · have hwv : w ≠ v := fun he => hw (he ▸ hv)
    show (s.setHeld t v _).heldTotal w + s.transitTotal w = 0
    rw [heldTotal_setHeld_of_ne _ hwv]
    exact h.dead w hw
  · have hwv : w ≠ v := fun he => hlast u (he ▸ hu)
    exact (Function.update_of_ne hwv _ _).trans (h.last u w hu)

/-- **`vnode_decref`** of a vnode with other references. -/
theorem decref (h : LifeInv s) (ht : 0 < s.held t v) (hv : 1 < s.vnRefcount v) :
    LifeInv ((s.setHeld t v (s.held t v - 1)).setRefcount v (s.vnRefcount v - 1)) := by
  have hal := h.alive_of_held ht
  have htot := heldTotal_setHeld (s := s) (t := t) (v := v) (s.held t v - 1)
  refine ⟨h.lock, h.depth, h.once, fun w hw => ?_, fun w hw => ?_, h.table, h.nodup, h.inj, h.found, fun u w hu => ?_⟩
  · by_cases hwv : w = v
    · subst hwv
      have h1 := h.count w hal
      show Function.update s.vnRefcount w (s.vnRefcount w - 1) w = (s.setHeld t w _).heldTotal w + s.transitTotal w
      rw [Function.update_self]
      omega
    · show Function.update s.vnRefcount v (s.vnRefcount v - 1) w = (s.setHeld t v _).heldTotal w + s.transitTotal w
      rw [Function.update_of_ne hwv, heldTotal_setHeld_of_ne _ hwv]
      exact h.count w hw
  · have hwv : w ≠ v := fun he => hw (he ▸ hal)
    show (s.setHeld t v _).heldTotal w + s.transitTotal w = 0
    rw [heldTotal_setHeld_of_ne _ hwv]
    exact h.dead w hw
  · have hwv : w ≠ v := fun he => h.not_last_of_held ht u (he ▸ hu)
    exact (Function.update_of_ne hwv _ _).trans (h.last u w hu)

/-- **The last reference goes to `sfs_reclaim`.** -/
theorem handOver (h : LifeInv s) (hpc : s.pc t = .out) (ht : 0 < s.held t v) :
    LifeInv { s.setHeld t v (s.held t v - 1) with pc := Function.update s.pc t (.reclaim v) } := by
  have hal := h.alive_of_held ht
  have htot := heldTotal_setHeld (s := s) (t := t) (v := v) (s.held t v - 1)
  have htr : ∀ w, Census.total (LifePc.transit w) (Function.update s.pc t (.reclaim v)) =
      s.transitTotal w + if v = w then 1 else 0 := by
    intro w
    have := Census.total_update (w := LifePc.transit w) (f := s.pc) t (.reclaim v)
    rw [hpc] at this
    exact this
  have hcount : ∀ w, (s.setHeld t v (s.held t v - 1)).heldTotal w +
      Census.total (LifePc.transit w) (Function.update s.pc t (.reclaim v)) = s.heldTotal w + s.transitTotal w := by
    intro w
    rw [htr]
    by_cases hwv : w = v
    · subst hwv
      rw [if_pos rfl]
      omega
    · rw [heldTotal_setHeld_of_ne _ hwv, if_neg (Ne.symm hwv)]
      omega
  -- the other threads are where they were
  have hpc' : ∀ {u : T} {P : LifePc V → Prop}, P (Function.update s.pc t (.reclaim v) u) → ¬ P (.reclaim v) →
      P (s.pc u) := by
    intro u P hu hP
    simp only [pc_goto] at hu
    split_ifs at hu with hut
    · exact absurd hu hP
    · exact hu
  refine ⟨fun u hu => h.lock u (hpc' (P := LifePc.Locked) hu id), h.depth, h.once,
    fun w hw => (h.count w hw).trans (hcount w).symm, fun w hw => (hcount w).trans (h.dead w hw), fun w => ?_, h.nodup,
    h.inj, fun u w hu => h.found u w (hpc' (P := (· = .found w)) hu (by simp)),
    fun u w hu => h.last u w (hpc' (P := LifePc.Last w) hu id)⟩
  refine (h.table w).trans (and_congr_right fun _ => forall_congr' fun u => ?_)
  simp only [pc_goto]
  split_ifs with hut
  · rw [hut, hpc]
    simp
  · rfl

/-- A reference passes to another thread. -/
theorem pass (h : LifeInv s) {u : T} (ht : 0 < s.held t v) :
    LifeInv ((s.setHeld t v (s.held t v - 1)).setHeld u v ((s.setHeld t v (s.held t v - 1)).held u v + 1)) := by
  set s' := s.setHeld t v (s.held t v - 1) with hs'
  have hcount : ∀ w, (s'.setHeld u v (s'.held u v + 1)).heldTotal w = s.heldTotal w := by
    intro w
    by_cases hwv : w = v
    · subst hwv
      have h1 : s'.heldTotal w + s.held t w = s.heldTotal w + (s.held t w - 1) := heldTotal_setHeld _
      have h2 := heldTotal_setHeld (s := s') (t := u) (v := w) (s'.held u w + 1)
      omega
    · rw [heldTotal_setHeld_of_ne _ hwv, hs', heldTotal_setHeld_of_ne _ hwv]
  refine ⟨h.lock, h.depth, h.once, fun w hw => ?_, fun w hw => ?_, h.table, h.nodup, h.inj, h.found, h.last⟩
  · exact (h.count w hw).trans (congrArg (· + s.transitTotal w) (hcount w).symm)
  · exact (congrArg (· + s.transitTotal w) (hcount w)).trans (h.dead w hw)

omit [DecidableEq T] in
/-- The vnodes that exist are in the table unless one is being taken down,
which needs the big lock. -/
theorem mem_of_alive (h : LifeInv s) (ht : s.biglock = some t) (hpc : ∀ w, s.pc t ≠ .cleanup w) (hv : s.Alive v) :
    v ∈ s.sfsVnodes := by
  refine (h.table v).mpr ⟨hv, fun u hu => hpc v ?_⟩
  rw [← h.eq_of_locked ht (by rw [hu]; trivial)]
  exact hu

/-- **A new vnode** for an inode that has none. -/
theorem create (h : LifeInv s) (hpc : s.pc t = .out) (ht : s.biglock = some t) {ino : ℕ} (hnew : s.created v = false)
    (hino : ∀ w ∈ s.sfsVnodes, s.svIno w ≠ ino) :
    LifeInv { s.setHeld t v 1 with
      sfsVnodes := s.sfsVnodes ++ [v]
      svIno := Function.update s.svIno v ino
      vnRefcount := Function.update s.vnRefcount v 1
      created := Function.update s.created v true } := by
  have hno : ¬ s.Alive v := fun ha => by cases hnew.symm.trans ha.1
  have h0 := h.dead v hno
  have hdes : s.destroyed v = 0 := by
    have h1 := h.once v
    by_contra hd
    have := h1.2 (by omega)
    rw [hnew] at this
    cases this
  have hheld : s.held t v = 0 := by
    have : s.held t v ≤ s.heldTotal v := Census.le_total (w := fun h : V → ℕ => h v) t
    omega
  have hnopc : ∀ u, (s.pc u).transit v = 0 := by
    intro u
    have : (s.pc u).transit v ≤ s.transitTotal v := transit_le u
    omega
  have htot := heldTotal_setHeld (s := s) (t := t) (v := v) 1
  set s' : Life T V := { s.setHeld t v 1 with
      sfsVnodes := s.sfsVnodes ++ [v]
      svIno := Function.update s.svIno v ino
      vnRefcount := Function.update s.vnRefcount v 1
      created := Function.update s.created v true } with hs'
  have halive : ∀ w, s'.Alive w ↔ s.Alive w ∨ w = v := by
    intro w
    by_cases hw : w = v
    · subst hw
      simp [Alive, hs', setHeld, hdes]
    · simp [Alive, hs', setHeld, hw]
  have hmem : ∀ w, s.Alive w → w ∈ s.sfsVnodes := fun w hw =>
    h.mem_of_alive ht (fun x hx => by rw [hpc] at hx; cases hx) hw
  refine ⟨h.lock, h.depth, fun w => ⟨(h.once w).1, fun hw => ?_⟩, fun w hw => ?_, fun w hw => ?_, fun w => ?_, ?_,
    fun w x hw hx hwx => ?_, fun u w hu => List.mem_append_left _ (h.found u w hu), fun u w hu => ?_⟩
  · by_cases hwv : w = v
    · rw [hwv]
      exact Function.update_self _ _ _
    · exact (Function.update_of_ne hwv _ _).trans ((h.once w).2 hw)
  · show Function.update s.vnRefcount v 1 w = (s.setHeld t v 1).heldTotal w + s.transitTotal w
    rcases (halive w).mp hw with hw | rfl
    · have hwv : w ≠ v := fun he => hno (he ▸ hw)
      rw [Function.update_of_ne hwv, heldTotal_setHeld_of_ne _ hwv]
      exact h.count w hw
    · rw [Function.update_self]
      omega
  · have hw' := fun hc => hw ((halive w).mpr hc)
    show (s.setHeld t v 1).heldTotal w + s.transitTotal w = 0
    rw [heldTotal_setHeld_of_ne _ fun he => hw' (Or.inr he)]
    exact h.dead w fun hc => hw' (Or.inl hc)
  · show w ∈ s.sfsVnodes ++ [v] ↔ s'.Alive w ∧ ∀ u, s.pc u ≠ .cleanup w
    rw [List.mem_append, List.mem_singleton, halive, h.table]
    constructor
    · rintro (⟨hw, hu⟩ | rfl)
      · exact ⟨Or.inl hw, hu⟩
      · refine ⟨Or.inr rfl, fun u hu => ?_⟩
        have := hnopc u
        rw [hu] at this
        simp [LifePc.transit] at this
    · rintro ⟨hw | rfl, hu⟩
      · exact Or.inl ⟨hw, hu⟩
      · exact Or.inr rfl
  · refine List.Nodup.append h.nodup (List.nodup_singleton v) ?_
    rw [List.disjoint_singleton]
    exact fun hv => hno ((h.table v).mp hv).1
  · -- the table has no vnode for the inode
    have hold : ∀ y, s.Alive y → Function.update s.svIno v ino y = s.svIno y := by
      intro y hy
      refine Function.update_of_ne (fun he => ?_) _ _
      exact hno (he ▸ hy)
    have hself : Function.update s.svIno v ino v = ino := Function.update_self _ _ _
    change Function.update s.svIno v ino w = Function.update s.svIno v ino x at hwx
    rcases (halive w).mp hw with hw' | hw' <;> rcases (halive x).mp hx with hx' | hx'
    · rw [hold w hw', hold x hx'] at hwx
      exact h.inj w x hw' hx' hwx
    · rw [hold w hw', hx', hself] at hwx
      exact absurd hwx (hino w (hmem w hw'))
    · rw [hw', hself, hold x hx'] at hwx
      exact absurd hwx.symm (hino x (hmem x hx'))
    · rw [hw', hx']
  · have hwv : w ≠ v := by
      intro he
      have h1 : (s.pc u).transit w = 1 := LifePc.Last.transit hu
      rw [he, hnopc u] at h1
      cases h1
    exact (Function.update_of_ne hwv _ _).trans (h.last u w hu)

/-- A thread gives up its reference on the way, or moves on with it: the
totals of other vnodes are as before. -/
theorem transit_update (x : LifePc V) (w : V) :
    Census.total (LifePc.transit w) (Function.update s.pc t x) + (s.pc t).transit w = s.transitTotal w + x.transit w :=
  Census.total_update t x

/-- **`sfs_reclaim` finds the vnode picked up** and consumes the reference. -/
theorem busy (h : LifeInv s) (hpc : s.pc t = .check v) (hv : 1 < s.vnRefcount v) :
    LifeInv { s.setRefcount v (s.vnRefcount v - 1) with pc := Function.update s.pc t .leave } := by
  have hal : s.Alive v := h.alive_of_transit (t := t) (by rw [hpc]; exact if_pos rfl)
  have htr := transit_update (s := s) (t := t) LifePc.leave
  rw [hpc] at htr
  refine ⟨fun u hu => ?_, h.depth, h.once, fun w hw => ?_, fun w hw => ?_, fun w => ?_, h.nodup, h.inj,
    fun u w hu => ?_, fun u w hu => ?_⟩
  · simp only [pc_goto] at hu
    split_ifs at hu with hut
    · rw [hut]
      exact h.lock t (by rw [hpc]; trivial)
    · exact h.lock u hu
  · show Function.update s.vnRefcount v (s.vnRefcount v - 1) w = s.heldTotal w + Census.total _ (Function.update s.pc t .leave)
    have h1 := htr w
    have h2 := h.count w hw
    by_cases hwv : w = v
    · rw [hwv] at h1 h2 ⊢
      rw [Function.update_self]
      simp only [LifePc.transit, if_true] at h1
      omega
    · rw [Function.update_of_ne hwv]
      simp only [LifePc.transit, if_neg (Ne.symm hwv)] at h1
      omega
  · have h1 := htr w
    have h2 := h.dead w hw
    show s.heldTotal w + Census.total _ (Function.update s.pc t .leave) = 0
    simp only [LifePc.transit] at h1
    omega
  · refine (h.table w).trans (and_congr_right fun _ => forall_congr' fun u => ?_)
    simp only [pc_goto]
    split_ifs with hut
    · rw [hut, hpc]
      simp
    · rfl
  · simp only [pc_goto] at hu
    split_ifs at hu with hut
    exact h.found u w hu
  · simp only [pc_goto] at hu
    split_ifs at hu with hut
    · exact hu.elim
    · have hwv : w ≠ v := by
        intro he
        have := h.last u w hu
        rw [he] at this
        omega
      exact (Function.update_of_ne hwv _ _).trans (h.last u w hu)

/-- **`sfs_reclaim` takes the vnode out of the table.** -/
theorem remove (h : LifeInv s) (hpc : s.pc t = .destroy v) :
    LifeInv { s with
      sfsVnodes := s.sfsVnodes.erase v
      pc := Function.update s.pc t (.cleanup v) } := by
  have hlock : s.biglock = some t := h.lock t (by rw [hpc]; trivial)
  have hcount : ∀ w, Census.total (LifePc.transit w) (Function.update s.pc t (.cleanup v)) = s.transitTotal w :=
    fun w => Census.total_update_same (by rw [hpc]; rfl)
  refine ⟨fun u hu => ?_, h.depth, h.once, fun w hw => ?_, fun w hw => ?_, fun w => ?_, h.nodup.erase v, h.inj,
    fun u w hu => ?_, fun u w hu => ?_⟩
  · simp only [pc_goto] at hu
    split_ifs at hu with hut
    · rw [hut]
      exact hlock
    · exact h.lock u hu
  · exact (h.count w hw).trans (congrArg (s.heldTotal w + ·) (hcount w).symm)
  · exact (congrArg (s.heldTotal w + ·) (hcount w)).trans (h.dead w hw)
  · show w ∈ s.sfsVnodes.erase v ↔ s.Alive w ∧ ∀ u, Function.update s.pc t (.cleanup v) u ≠ .cleanup w
    rw [h.nodup.mem_erase_iff, h.table]
    constructor
    · rintro ⟨hwv, hw, hu⟩
      refine ⟨hw, fun u => ?_⟩
      rw [pc_goto]
      split_ifs
      · simpa using Ne.symm hwv
      · exact hu u
    · rintro ⟨hw, hu⟩
      have hwv : w ≠ v := by
        intro he
        apply hu t
        rw [he, Function.update_self]
      refine ⟨hwv, hw, fun u hc => ?_⟩
      -- only `t` holds the lock, and it is not there yet
      have hut := h.eq_of_locked hlock (u := u) (by rw [hc]; trivial)
      rw [hut, hpc] at hc
      cases hc
  · simp only [pc_goto] at hu
    split_ifs at hu with hut
    exact absurd (h.eq_of_locked hlock (u := u) (by rw [hu]; trivial)) hut
  · simp only [pc_goto] at hu
    split_ifs at hu with hut
    · exact h.last t w (by rw [hpc]; exact hu)
    · exact h.last u w hu

/-- **`vnode_cleanup`.** -/
theorem cleanup (h : LifeInv s) (hpc : s.pc t = .cleanup v) :
    LifeInv { s.setRefcount v 0 with
      destroyed := Function.update s.destroyed v (s.destroyed v + 1)
      pc := Function.update s.pc t .leave } := by
  have hlock : s.biglock = some t := h.lock t (by rw [hpc]; trivial)
  have hal : s.Alive v := h.alive_of_transit (t := t) (by rw [hpc]; exact if_pos rfl)
  have htr := transit_update (s := s) (t := t) LifePc.leave
  rw [hpc] at htr
  set s' : Life T V := { s.setRefcount v 0 with
      destroyed := Function.update s.destroyed v (s.destroyed v + 1)
      pc := Function.update s.pc t .leave } with hs'
  have hne : ∀ {w}, s'.Alive w → w ≠ v := by
    intro w hw he
    have := hw.2
    rw [he] at this
    simp [hs'] at this
  have halive : ∀ {w}, w ≠ v → (s'.Alive w ↔ s.Alive w) := by
    intro w hw
    simp [Alive, hs', setRefcount, hw]
  have hpc' : ∀ {u : T} {P : LifePc V → Prop}, P (s'.pc u) → ¬ P .leave → P (s.pc u) := by
    intro u P hu hP
    simp only [hs', pc_goto] at hu
    split_ifs at hu with hut
    · exact absurd hu hP
    · exact hu
  refine ⟨fun u hu => ?_, h.depth, fun w => ?_, fun w hw => ?_, fun w hw => ?_, fun w => ?_, h.nodup,
    fun w x hw hx => ?_, fun u w hu => h.found u w (hpc' (P := (· = .found w)) hu (by simp)), fun u w hu => ?_⟩
  · simp only [hs', pc_goto] at hu
    split_ifs at hu with hut
    · rw [hut]
      exact hlock
    · exact h.lock u hu
  · by_cases hwv : w = v
    · rw [hwv]
      simp [hs', setRefcount, hal.1, hal.2]
    · simpa [hs', setRefcount, hwv] using h.once w
  · have hwv := hne hw
    have h1 := htr w
    have h2 := h.count w ((halive hwv).mp hw)
    show Function.update s.vnRefcount v 0 w = s.heldTotal w + Census.total _ (Function.update s.pc t .leave)
    rw [Function.update_of_ne hwv]
    simp only [LifePc.transit, if_neg (Ne.symm hwv)] at h1
    omega
  · show s.heldTotal w + Census.total _ (Function.update s.pc t .leave) = 0
    have h1 := htr w
    by_cases hwv : w = v
    · have h2 := h.count v hal
      have h3 := h.last t v (by rw [hpc]; rfl)
      rw [hwv] at h1 ⊢
      simp only [LifePc.transit, if_true] at h1
      omega
    · have h2 := h.dead w fun hc => hw ((halive hwv).mpr hc)
      simp only [LifePc.transit, if_neg (Ne.symm hwv)] at h1
      omega
  · show w ∈ s.sfsVnodes ↔ s'.Alive w ∧ ∀ u, s'.pc u ≠ .cleanup w
    rw [h.table]
    constructor
    · rintro ⟨hw, hu⟩
      have hwv : w ≠ v := fun he => hu t (by rw [hpc, he])
      exact ⟨(halive hwv).mpr hw, fun u hc => hu u (hpc' (P := (· = .cleanup w)) hc (by simp))⟩
    · rintro ⟨hw, hu⟩
      have hwv := hne hw
      refine ⟨(halive hwv).mp hw, fun u hc => ?_⟩
      by_cases hut : u = t
      · rw [hut, hpc] at hc
        cases hc
        exact hwv rfl
      · refine hu u ?_
        simp only [hs', pc_goto, if_neg hut]
        exact hc
  · exact h.inj w x ((halive (hne hw)).mp hw) ((halive (hne hx)).mp hx)
  · have hl := hpc' (P := LifePc.Last w) hu id
    have hut := h.eq_of_locked hlock (u := u) hl.locked
    rw [hut] at hu
    simp [hs', LifePc.Last] at hu

end LifeInv

section Steps

variable [DecidableEq T] {s : Life T V}

theorem vfsBiglockRelease_wp (h : LifeInv s) {t : T} (ht : s.biglock = some t) {Q : Unit → Life T V → Prop}
    {E : Empty → Life T V → Prop}
    (hQ : Q () { s with
      biglock := if s.biglockDepth = 1 then none else s.biglock
      biglockDepth := s.biglockDepth - 1 }) : Prog.wp (vfsBiglockRelease t) Q E s := by
  unfold vfsBiglockRelease
  simp only [Prog.wp_bind, Prog.wp_get, Prog.wp_assert, Prog.wp_modify]
  exact ⟨ht, h.depth (by rw [ht]; simp), hQ⟩

/-- A step keeps the invariant and does not stop the machine. -/
theorem LifeAct.code_wp (h : LifeInv s) (a : LifeAct T V) (hr : s.Ready a) :
    Prog.wp a.code (fun _ => LifeInv) (fun _ _ => False) s := by
  cases a with
  | biglockAcquire t => exact h.acquire hr.2
  | biglockRelease t => exact vfsBiglockRelease_wp h hr.2 (h.release hr.2 (by rw [hr.1]; exact id))
  | loadvnode t ino new =>
    obtain ⟨hpc, ht, hnew⟩ := hr
    show Prog.wp (sfsLoadvnode t ino new) _ _ s
    unfold sfsLoadvnode
    rw [Prog.wp_bind, Prog.wp_get]
    cases hf : s.sfsVnodes.find? fun v => s.svIno v = ino with
    | some v =>
      refine h.move (fun _ => ht) (fun w => by rw [hpc]; rfl) (by simp [hpc]) (by simp) (fun w hw => ?_) (fun _ => False.elim)
      cases hw
      exact List.mem_of_find?_eq_some hf
    | none =>
      refine h.create hpc ht hnew fun w hw he => ?_
      have := List.find?_eq_none.mp hf w hw
      simp [he] at this
  | loadvnodeIncref t v =>
    have hpc : s.pc t = .found v := hr
    have hlock := h.lock t (by rw [hpc]; trivial)
    have hmem := h.found t v hpc
    have hnot : ∀ u, ¬ (s.pc u).Last v := by
      intro u hl
      have hut := h.eq_of_locked hlock hl.locked
      rw [hut, hpc] at hl
      exact hl
    have hi := h.incref (t := t) ((h.table v).mp hmem).1 hnot
    show Prog.wp (do vnodeIncref t v; goto t .out) _ _ s
    rw [Prog.wp_bind]
    refine hi.move (t := t) False.elim (fun w => ?_) (fun w => ?_) (by simp) (by simp) (fun _ => False.elim)
    · show _ = (s.pc t).transit w
      rw [hpc]
      rfl
    · show s.pc t ≠ _
      simp [hpc]
  | incref t v => exact h.incref (h.alive_of_held hr.2) (h.not_last_of_held hr.2)
  | decref t v =>
    obtain ⟨hpc, ht⟩ := hr
    have hc := h.count v (h.alive_of_held ht)
    have hle : s.held t v ≤ s.heldTotal v := Census.le_total (w := fun h : V → ℕ => h v) t
    show Prog.wp (vnodeDecref t v) _ _ s
    unfold vnodeDecref
    simp only [Prog.wp_bind, Prog.wp_get, Prog.wp_assert, Prog.wp_modify, Prog.wp_ite]
    exact ⟨by omega, fun h1 => h.decref ht h1, fun _ => h.handOver hpc ht⟩
  | pass t u v => exact h.pass hr.2
  | reclaim t v =>
    obtain ⟨hpc, ht⟩ := hr
    have hi := h.acquire ht
    show Prog.wp (do vfsBiglockAcquire t; goto t (.check v)) _ _ s
    rw [Prog.wp_bind]
    refine hi.move (t := t) (fun _ => rfl) (fun w => ?_) (fun w => ?_) (by simp) (by simp) (fun _ => False.elim)
    · show _ = (s.pc t).transit w
      rw [hpc]
      rfl
    · show s.pc t ≠ _
      simp [hpc]
  | reclaimCheck t v =>
    have hpc : s.pc t = .check v := hr
    have htr : (s.pc t).transit v = 1 := by rw [hpc]; exact if_pos rfl
    have hc := h.count v (h.alive_of_transit htr)
    have hle : (s.pc t).transit v ≤ s.transitTotal v := LifeInv.transit_le t
    show Prog.wp (sfsReclaimCheck t v) _ _ s
    unfold sfsReclaimCheck
    simp only [Prog.wp_bind, Prog.wp_get, Prog.wp_assert, Prog.wp_modify, Prog.wp_ite]
    refine ⟨fun h1 => ?_, fun h1 => ?_⟩
    · have h2 : 1 < s.vnRefcount v := by omega
      exact ⟨h2, h.busy hpc h2⟩
    · refine h.move (fun _ => h.lock t (by rw [hpc]; trivial)) (fun w => by rw [hpc]; rfl) (by simp [hpc]) (by simp)
        (by simp) fun w hw => ?_
      have hwv : v = w := hw
      rw [← hwv]
      exact not_not.mp h1
  | reclaimRemove t v =>
    have hpc : s.pc t = .destroy v := hr
    have hlock := h.lock t (by rw [hpc]; trivial)
    have hal : s.Alive v := h.alive_of_transit (t := t) (by rw [hpc]; exact if_pos rfl)
    show Prog.wp (sfsReclaimRemove t v) _ _ s
    unfold sfsReclaimRemove
    simp only [Prog.wp_bind, Prog.wp_get, Prog.wp_assert, Prog.wp_modify]
    exact ⟨h.mem_of_alive hlock (by simp [hpc]) hal, h.remove hpc⟩
  | reclaimCleanup t v =>
    have hpc : s.pc t = .cleanup v := hr
    show Prog.wp (vnodeCleanup t v) _ _ s
    unfold vnodeCleanup
    simp only [Prog.wp_bind, Prog.wp_get, Prog.wp_assert, Prog.wp_modify]
    exact ⟨h.last t v (by rw [hpc]; rfl), h.cleanup hpc⟩
  | reclaimLeave t =>
    have hpc : s.pc t = .leave := hr
    have hlock := h.lock t (by rw [hpc]; trivial)
    -- out of its section before the lock goes
    have hm : LifeInv { s with pc := Function.update s.pc t .out } :=
      h.move False.elim (fun w => by rw [hpc]; rfl) (by simp [hpc]) (by simp) (by simp) (fun _ => False.elim)
    show Prog.wp (do vfsBiglockRelease t; goto t .out) _ _ s
    rw [Prog.wp_bind]
    refine vfsBiglockRelease_wp h hlock ?_
    refine hm.release (t := t) hlock ?_
    show ¬ (Function.update s.pc t .out t).Locked
    rw [Function.update_self]
    exact id

omit [DecidableEq T] in
theorem lifeInv_init : LifeInv (lifeInit : Life T V) := by
  have h0 : ∀ v, (lifeInit : Life T V).heldTotal v + (lifeInit : Life T V).transitTotal v = 0 := fun v =>
    Nat.add_eq_zero_iff.mpr ⟨Census.total_of_forall_zero fun _ => rfl, Census.total_of_forall_zero fun _ => rfl⟩
  have hno : ∀ v, ¬ (lifeInit : Life T V).Alive v := fun v hv => by cases hv.1
  refine ⟨fun t => False.elim, fun hb => absurd rfl hb, fun v => ⟨Nat.zero_le _, fun h => by cases h⟩,
    fun v hv => absurd hv (hno v), fun v _ => h0 v, fun v => ⟨fun h => (by cases h), fun h => absurd h.1 (hno v)⟩,
    List.nodup_nil, fun v _ hv => absurd hv (hno v), fun t v h => (by cases h), fun t v => False.elim⟩

/-- **The lifetime of a vnode.** In every state that any number of threads
reach: an inode has at most one vnode; the count of a vnode is the number of
references held and of threads that pass one to `sfs_reclaim`; a vnode is
destroyed at most once, only while no reference to it is held, and none is
held afterwards; and no assertion of the steps fails, among them that the
count is 1 in `vnode_cleanup`. -/
theorem vnode_lifetime {as : List (LifeAct T V)} (h : Run LifeStep lifeInit as s) :
    (∀ v w, s.Alive v → s.Alive w → s.svIno v = s.svIno w → v = w) ∧
    (∀ v, s.Alive v → s.vnRefcount v = s.heldTotal v + s.transitTotal v) ∧
    (∀ v, s.destroyed v ≤ 1) ∧
    (∀ v t, s.pc t = .cleanup v → s.vnRefcount v = 1 ∧ ∀ u, s.held u v = 0) ∧
    (∀ v, s.destroyed v = 1 → ∀ u, s.held u v = 0 ∧ (s.pc u).transit v = 0) ∧
    ∀ a, s.Ready a → a.code s ≠ .stop := by
  have hi : LifeInv s := by
    refine Run.invariant lifeInv_init (fun t a u ht hst => ?_) h
    exact Prog.wp_ok (Q := fun _ => LifeInv) (a.code_wp ht hst.1) hst.2
  refine ⟨hi.inj, hi.count, fun v => (hi.once v).1, fun v t hpc => ?_, fun v hd u => ?_,
    fun a ha => Prog.wp_ne_stop (a.code_wp hi ha)⟩
  · have hlast : (s.pc t).Last v := by rw [hpc]; rfl
    refine ⟨hi.last t v hlast, fun u => ?_⟩
    by_contra hu
    exact hi.not_last_of_held (Nat.pos_of_ne_zero hu) t hlast
  · have h0 := hi.dead v fun ha => absurd (hd.symm.trans ha.2) one_ne_zero
    have h1 : s.held u v ≤ s.heldTotal v := Census.le_total (w := fun h : V → ℕ => h v) u
    have h2 : (s.pc u).transit v ≤ s.transitTotal v := LifeInv.transit_le u
    omega

end Steps

/-- A thread gives up the last reference to a vnode, another one looks the
vnode up before `sfs_reclaim` has the lock: the count is the other's. -/
theorem vnode_lifetime_race : ∃ as s, Run LifeStep (lifeInit : Life Bool ℕ) as s ∧
    s.Alive 0 ∧ s.pc true = .leave ∧ s.vnRefcount 0 = s.heldTotal 0 + s.transitTotal 0 := by
  have step {as s s'} (a : LifeAct Bool ℕ) (h : Run LifeStep lifeInit as s) (hr : s.Ready a)
      (hc : a.code s = .ok () s') : Run LifeStep lifeInit (as ++ [a]) s' := Run.snoc a h ⟨hr, hc⟩
  have h1 := step (.biglockAcquire true) Run.nil ⟨rfl, Or.inl rfl⟩ rfl
  have h2 := step (.loadvnode true 7 0) h1 ⟨rfl, rfl, rfl⟩ rfl
  have h3 := step (.biglockRelease true) h2 ⟨rfl, rfl⟩ rfl
  have h4 := step (.decref true 0) h3 ⟨rfl, Nat.one_pos⟩ rfl
  have h5 := step (.biglockAcquire false) h4 ⟨rfl, Or.inl rfl⟩ rfl
  have h6 := step (.loadvnode false 7 1) h5 ⟨rfl, rfl, rfl⟩ rfl
  have h7 := step (.loadvnodeIncref false 0) h6 rfl rfl
  have h8 := step (.biglockRelease false) h7 ⟨rfl, rfl⟩ rfl
  have h9 := step (.reclaim true 0) h8 ⟨rfl, Or.inl rfl⟩ rfl
  have h10 := step (.reclaimCheck true 0) h9 rfl rfl
  exact ⟨_, _, h10, ⟨rfl, rfl⟩, rfl, (vnode_lifetime h10).2.1 0 ⟨rfl, rfl⟩⟩

end Os161
