/-
# semfs_creat without memory

`semfs_creat` of `kern/fs/semfs/semfs_vnops.c` with the functions of
`semfs_obj.c` it calls, when any of its allocations can fail. The lock and the
condition variable of a semaphore and the name of a directory entry are
allocated on their own; `SemfsMem` keeps which of them are live, and freeing one
that is not stops the machine.

Where the directory entry cannot be made, `result` is still 0: the semaphore
is taken back, but the call returns success without a vnode
(`semfs_creat_atomic_iff`).
-/
import Os161.Semfs.Runs

namespace Os161

/-- The allocations of `semfs_creat`: the semaphore with its lock and its
condition variable, the directory entry with its name, the vnode, and what the
three arrays need to grow. -/
inductive CreatAlloc
  | sem | lock | cv | semarray | dent | name | dentarray | vnode | vnodearray
  deriving DecidableEq

/-- A part of an object, by the object it belongs to. -/
inductive SemfsPart
  | lock (sem : ℕ)
  | cv (sem : ℕ)
  | name (dent : ℕ)
  deriving DecidableEq

/-- A semfs, and the parts of its objects that are allocated. -/
structure SemfsMem where
  fs : Semfs
  parts : List SemfsPart

namespace SemfsMem

def onFs {α : Type} (m : Prog Errno Semfs α) : Prog Errno SemfsMem α :=
  Prog.zoom SemfsMem.fs (fun fs s => { s with fs := fs }) m

def allocPart (p : SemfsPart) : Prog Errno SemfsMem Unit := Prog.modify fun s => { s with parts := p :: s.parts }

def freePart (p : SemfsPart) : Prog Errno SemfsMem Unit := do
  let s ← Prog.get
  Prog.assert (p ∈ s.parts)
  Prog.modify fun s => { s with parts := s.parts.erase p }

section Creat

variable (fails : CreatAlloc → Bool)

/-- `semfs_sem_create`; `none` is `NULL`. -/
def semCreate : Prog Errno SemfsMem (Option SemEntry) :=
  if fails .sem then pure none
  else do
    let sem ← onFs Semfs.semCreate
    if fails .lock then do
      onFs (Semfs.semDestroy sem)
      pure none
    else do
      allocPart (.lock sem.id)
      if fails .cv then do
        freePart (.lock sem.id)
        onFs (Semfs.semDestroy sem)
        pure none
      else do
        allocPart (.cv sem.id)
        pure (some sem)

/-- `semfs_sem_destroy`. -/
def semDestroy (sem : SemEntry) : Prog Errno SemfsMem Unit := do
  freePart (.cv sem.id)
  freePart (.lock sem.id)
  onFs (Semfs.semDestroy sem)

/-- `semfs_sem_insert`. -/
def semInsert (sem : SemEntry) : Prog Errno SemfsMem ℕ := do
  let s ← Prog.get
  if s.fs.semfsSems.length = semfsRootdir then Prog.fail .enospc
  else if s.fs.semfsSems.firstEmpty = s.fs.semfsSems.length ∧ fails .semarray then Prog.fail .enomem
  else onFs (Semfs.semInsert sem)

/-- `semfs_direntry_create`; `none` is `NULL`. -/
def direntryCreate (name : String) (semnum : ℕ) : Prog Errno SemfsMem (Option SemfsDirentry) :=
  if fails .dent then pure none
  else do
    let dent ← onFs (Semfs.direntryCreate name semnum)
    if fails .name then do
      onFs (Semfs.direntryDestroy dent)
      pure none
    else do
      allocPart (.name dent.id)
      pure (some dent)

/-- `semfs_direntry_destroy`. -/
def direntryDestroy (dent : SemfsDirentry) : Prog Errno SemfsMem Unit := do
  freePart (.name dent.id)
  onFs (Semfs.direntryDestroy dent)

/-- `semfs_getvnode`. -/
def getvnode (semnum : ℕ) : Prog Errno SemfsMem ℕ := do
  let s ← Prog.get
  match s.fs.semfsVnodes.find? fun w => w.semvSemnum = semnum with
  | some _ => onFs (Semfs.getvnode semnum)
  | none =>
    if fails .vnode then Prog.fail .enomem
    else if fails .vnodearray then do
      onFs (Prog.modify fun s => { s with vnodeHeap := s.vnodeHeap.alloc })
      onFs (Semfs.vnodeDestroy ⟨s.fs.vnodeHeap.next, semnum, 1⟩)
      Prog.fail .enomem
    else onFs (Semfs.getvnode semnum)

/-- `fail_uninsert` and `fail_uncreate`. -/
def uninsert (sem : SemEntry) (semnum : ℕ) : Prog Errno SemfsMem Unit := do
  onFs (Semfs.semarraySet semnum none)
  semDestroy sem

/-- `semfs_creat`, from where there is a directory entry. -/
def creatEntry (sem : SemEntry) (semnum : ℕ) (dent : SemfsDirentry) : Prog Errno SemfsMem (Option ℕ) := do
  let s ← Prog.get
  let empty := s.fs.semfsDents.firstEmpty
  if empty = s.fs.semfsDents.length ∧ fails .dentarray then do
    direntryDestroy dent
    uninsert sem semnum
    Prog.fail .enomem
  else do
    onFs (Prog.modify fun s => { s with semfsDents := s.semfsDents.put empty dent })
    let result : Except Errno ℕ ← Prog.attempt (getvnode fails semnum)
    match result with
    | .error e => do
      onFs (Prog.modify fun s => { s with semfsDents := s.semfsDents.set empty none })
      direntryDestroy dent
      uninsert sem semnum
      Prog.fail e
    | .ok vn => do
      let sem ← onFs (Semfs.semarrayGet semnum)
      onFs (Semfs.semarraySet semnum (some { sem with semsLinked := true }))
      pure (some vn)

/-- `semfs_creat`, and what it has put into `*resultvn` where it returns 0. -/
def creat (name : String) (excl : Bool) : Prog Errno SemfsMem (Option ℕ) := do
  if name = "." ∨ name = ".." then Prog.fail .eexist
  else do
    let s ← Prog.get
    match Semfs.findDent name s.fs.semfsDents with
    | some (_, dent) =>
      if excl then Prog.fail .eexist
      else do
        let vn ← getvnode fails dent.semdSemnum
        pure (some vn)
    | none => do
      let sem : Option SemEntry ← semCreate fails
      match sem with
      | none => Prog.fail .enomem
      | some sem => do
        let result : Except Errno ℕ ← Prog.attempt (semInsert fails sem)
        match result with
        | .error e => do
          semDestroy sem
          Prog.fail e
        | .ok semnum => do
          let dent : Option SemfsDirentry ← direntryCreate fails name semnum
          match dent with
          | none => do
            -- `result` is 0 from `semfs_sem_insert`
            uninsert sem semnum
            pure none
          | some dent => creatEntry fails sem semnum dent

end Creat

/-! ### What the functions leave -/

/-- Nothing is left of a call: the tables are as before, and every object that
is not in one of them has been freed once. -/
structure Undone (s t : SemfsMem) : Prop where
  sem : t.fs.sem = s.fs.sem
  dent : t.fs.dent = s.fs.dent
  vnodes : t.fs.semfsVnodes = s.fs.semfsVnodes
  parts : t.parts = s.parts
  semHeap : FreedOnce (Option.map SemEntry.id ∘ t.fs.sem) t.fs.semHeap
  dentHeap : FreedOnce (Option.map SemfsDirentry.id ∘ t.fs.dent) t.fs.dentHeap
  vnodeHeap : FreedOnce (Option.map SemfsVnode.id ∘ t.fs.vnode) t.fs.vnodeHeap

/-- `v` is a vnode of a semaphore that is linked under the name. -/
def Linked (name : String) (v : ℕ) (t : SemfsMem) : Prop :=
  ∃ i d m vn, t.fs.dent i = some d ∧ d.semdName = name ∧ t.fs.sem d.semdSemnum = some m ∧ m.semsLinked = true ∧
    t.fs.vnode v = some vn ∧ vn.semvSemnum = d.semdSemnum

/-- A heap from which at most one object was taken, and given back. -/
def Spent (h h' : ObjHeap) : Prop := h' = h ∨ h' = h.alloc.free h.next

theorem Spent.freedOnce {ptr : ℕ → Option ℕ} {h h' : ObjHeap} (hs : Spent h h') (ho : Owned ptr h.next h.freed) :
    FreedOnce ptr h' := by
  rcases hs with rfl | rfl
  · exact FreedOnce.of_owned ho
  · exact FreedOnce.of_owned ho.alloc_free

variable {fails : CreatAlloc → Bool} {s t : SemfsMem} {held : ℕ → ℕ} {name : String}

theorem undone (h : s.fs.Good held) (hsem : t.fs.sem = s.fs.sem) (hdent : t.fs.dent = s.fs.dent)
    (hvnodes : t.fs.semfsVnodes = s.fs.semfsVnodes) (hparts : t.parts = s.parts)
    (hs : Spent s.fs.semHeap t.fs.semHeap) (hd : Spent s.fs.dentHeap t.fs.dentHeap)
    (hv : Spent s.fs.vnodeHeap t.fs.vnodeHeap) : Undone s t := by
  have hvnode : t.fs.vnode = s.fs.vnode := by
    unfold Semfs.vnode
    rw [hvnodes]
  refine ⟨hsem, hdent, hvnodes, hparts, ?_, ?_, ?_⟩
  · rw [hsem]
    exact hs.freedOnce h.inv.sems.sems
  · rw [hdent]
    exact hd.freedOnce h.inv.dents.dents
  · rw [hvnode]
    exact hv.freedOnce h.inv.vnodes.vnodes

section Rules

variable {α : Type} {Q : α → SemfsMem → Prop} {E : Errno → SemfsMem → Prop} {fs : Semfs} {ps : List SemfsPart}

@[simp] theorem wp_onFs (m : Prog Errno Semfs α) : Prog.wp (onFs m) Q E s ↔
    Prog.wp m (fun a fs => Q a { s with fs := fs }) (fun e fs => E e { s with fs := fs }) s.fs :=
  Prog.wp_zoom _ _ _ _ _ _

theorem freePart_wp {Q : Unit → SemfsMem → Prop} (p : SemfsPart) :
    Prog.wp (freePart p) Q E ⟨fs, p :: ps⟩ ↔ Q () ⟨fs, ps⟩ := by
  unfold freePart
  simp

theorem semDestroy_wp {Q : Unit → SemfsMem → Prop} (m : SemEntry) :
    Prog.wp (semDestroy m) Q E ⟨fs, .cv m.id :: .lock m.id :: ps⟩ ↔
      Q () ⟨{ fs with semHeap := fs.semHeap.free m.id }, ps⟩ := by
  unfold semDestroy
  rw [Prog.wp_bind, freePart_wp, Prog.wp_bind, freePart_wp, wp_onFs]
  rfl

theorem uninsert_wp {Q : Unit → SemfsMem → Prop} (m : SemEntry) (n : ℕ) :
    Prog.wp (uninsert m n) Q E ⟨fs, .cv m.id :: .lock m.id :: ps⟩ ↔
      Q () ⟨{ fs with semfsSems := fs.semfsSems.set n none, semHeap := fs.semHeap.free m.id }, ps⟩ := by
  unfold uninsert
  rw [Prog.wp_bind, wp_onFs]
  exact semDestroy_wp m

theorem direntryDestroy_wp {Q : Unit → SemfsMem → Prop} (d : SemfsDirentry) :
    Prog.wp (direntryDestroy d) Q E ⟨fs, .name d.id :: ps⟩ ↔
      Q () ⟨{ fs with dentHeap := fs.dentHeap.free d.id }, ps⟩ := by
  unfold direntryDestroy
  rw [Prog.wp_bind, freePart_wp, wp_onFs]
  rfl

/-- `semfs_sem_create`. -/
theorem semCreate_wp {Q : Option SemEntry → SemfsMem → Prop}
    (hnone : (fails .sem || fails .lock || fails .cv) = true → ∀ h, Spent s.fs.semHeap h →
      Q none ⟨{ s.fs with semHeap := h }, s.parts⟩)
    (hsome : (fails .sem || fails .lock || fails .cv) = false → Q (some ⟨s.fs.semHeap.next, false, false⟩)
      ⟨{ s.fs with semHeap := s.fs.semHeap.alloc }, .cv s.fs.semHeap.next :: .lock s.fs.semHeap.next :: s.parts⟩) :
    Prog.wp (semCreate fails) Q E s := by
  unfold semCreate Semfs.semCreate
  cases h1 : fails .sem with
  | true => exact hnone (by simp [h1]) _ (Or.inl rfl)
  | false =>
    simp only [Bool.false_eq_true, if_false, Prog.wp_bind, wp_onFs, Prog.wp_get, Prog.wp_modify, Prog.wp_pure]
    cases h2 : fails .lock with
    | true => exact hnone (by simp [h2]) _ (Or.inr rfl)
    | false =>
      simp only [Bool.false_eq_true, if_false, Prog.wp_bind, allocPart, Prog.wp_modify]
      cases h3 : fails .cv with
      | true =>
        simp only [if_true, Prog.wp_bind, freePart_wp, wp_onFs]
        exact hnone (by simp [h3]) _ (Or.inr rfl)
      | false => exact hsome (by simp [h1, h2, h3])

/-- `semfs_direntry_create`. -/
theorem direntryCreate_wp {Q : Option SemfsDirentry → SemfsMem → Prop} (n : ℕ)
    (hnone : (fails .dent || fails .name) = true → ∀ h, Spent s.fs.dentHeap h →
      Q none ⟨{ s.fs with dentHeap := h }, s.parts⟩)
    (hsome : (fails .dent || fails .name) = false → Q (some ⟨s.fs.dentHeap.next, name, n⟩)
      ⟨{ s.fs with dentHeap := s.fs.dentHeap.alloc }, .name s.fs.dentHeap.next :: s.parts⟩) :
    Prog.wp (direntryCreate fails name n) Q E s := by
  unfold direntryCreate Semfs.direntryCreate
  cases h1 : fails .dent with
  | true => exact hnone (by simp [h1]) _ (Or.inl rfl)
  | false =>
    simp only [Bool.false_eq_true, if_false, Prog.wp_bind, wp_onFs, Prog.wp_get, Prog.wp_modify, Prog.wp_pure]
    cases h2 : fails .name with
    | true => exact hnone (by simp [h2]) _ (Or.inr rfl)
    | false => exact hsome (by simp [h1, h2])

/-- `semfs_getvnode` that has to make one. -/
theorem getvnode_wp_none {Q : ℕ → SemfsMem → Prop} {n : ℕ}
    (hf : s.fs.semfsVnodes.find? (fun w => w.semvSemnum = n) = none)
    (hfail : ∀ h, Spent s.fs.vnodeHeap h → E .enomem ⟨{ s.fs with vnodeHeap := h }, s.parts⟩)
    (hok : Prog.wp (Semfs.getvnode n) (fun v fs => Q v { s with fs := fs }) (fun e fs => E e { s with fs := fs }) s.fs) :
    Prog.wp (getvnode fails n) Q E s := by
  unfold getvnode
  rw [Prog.wp_bind, Prog.wp_get, hf]
  cases fails .vnode with
  | true => exact hfail _ (Or.inl rfl)
  | false =>
    cases fails .vnodearray with
    | true =>
      simp only [Bool.false_eq_true, if_false, if_true, Prog.wp_bind, wp_onFs, Prog.wp_modify, Semfs.vnodeDestroy,
        Prog.wp_assert, Prog.wp_fail, true_and]
      exact hfail _ (Or.inr rfl)
    | false => exact (wp_onFs _).mpr hok

end Rules

/-! ### `semfs_creat` -/

/-- A vnode for a name that is in the directory. -/
theorem getvnode_linked (h : s.fs.Good held) {i : ℕ} {d : SemfsDirentry} (hi : s.fs.dent i = some d) :
    Prog.wp (getvnode fails d.semdSemnum) (fun v t => Linked d.semdName v t) (fun _ t => Undone s t) s := by
  obtain ⟨m, hm, -⟩ := h.sem_of_dent hi
  have hdents : Prog.wp (Semfs.getvnode d.semdSemnum) (fun _ fs => fs.semfsDents = s.fs.semfsDents) (fun _ _ => False)
      s.fs := by
    cases hf : s.fs.semfsVnodes.find? (fun w => w.semvSemnum = d.semdSemnum) with
    | some vn =>
      unfold Semfs.getvnode
      rw [Prog.wp_bind, Prog.wp_get, hf]
      rfl
    | none =>
      refine Prog.wp_mono (Semfs.getvnode_new hf hm (h.inv.sems.ne_root hm) (h.hasvnode_false hf hm)) ?_ fun _ _ he => he
      rintro v t ⟨-, rfl⟩
      rfl
  have hget : Prog.wp (Semfs.getvnode d.semdSemnum) (fun v fs => Linked d.semdName v { s with fs := fs })
      (fun _ fs => Undone s { s with fs := fs }) s.fs := by
    refine Prog.wp_mono (Prog.wp_and (Semfs.getvnode_wp (E := fun _ _ => False) h (Or.inr ⟨m, hm⟩)) hdents) ?_ fun _ _ he => he.2.elim
    rintro v fs ⟨hh, hsame⟩
    have hi' : fs.dent i = some d := by
      unfold Semfs.dent
      rw [hsame]
      exact hi
    obtain ⟨m', hm', hlinked⟩ := hh.good.sem_of_dent hi'
    obtain ⟨vn, hvn, hnum⟩ := hh.semnum
    exact ⟨i, d, m', vn, hi', rfl, hm', hlinked, hvn, hnum⟩
  cases hf : s.fs.semfsVnodes.find? (fun w => w.semvSemnum = d.semdSemnum) with
  | some vn =>
    unfold getvnode
    rw [Prog.wp_bind, Prog.wp_get, hf]
    exact (wp_onFs _).mpr hget
  | none => exact getvnode_wp_none hf (fun _ hs => undone h rfl rfl rfl rfl (Or.inl rfl) (Or.inl rfl) hs) hget

/-- An entry that is taken out again. -/
theorem slot_put_set {α : Type} (t : SlotTable α) (a : α) :
    SlotTable.slot ((t.put t.firstEmpty a).set t.firstEmpty none) = t.slot := by
  have hslot := congrFun (SlotTable.slot_put (t := t) a) t.firstEmpty
  rw [Function.update_self] at hslot
  rw [SlotTable.slot_set none (SlotTable.lt_length_of_slot hslot), SlotTable.slot_put, Function.update_idem]
  exact Function.update_eq_self_iff.mpr (SlotTable.slot_firstEmpty t).symm

/-- What `semfs_creat` leaves if it succeeds. -/
theorem linked_linkEntry (h : s.fs.Good held) (ps : List SemfsPart) :
    Linked name s.fs.vnodeHeap.next ⟨s.fs.linkEntry name, ps⟩ := by
  have hview := Semfs.view_linkEntry name h.fresh (Semfs.lt_addEntry name)
  refine ⟨s.fs.semfsDents.firstEmpty, ⟨s.fs.dentHeap.next, name, s.fs.semfsSems.firstEmpty⟩,
    ⟨s.fs.semHeap.next, true, true⟩, ⟨s.fs.vnodeHeap.next, s.fs.semfsSems.firstEmpty, 1⟩, ?_, rfl, ?_, rfl, ?_, rfl⟩
  · exact (congrFun (congrArg SemfsView.dent hview) _).trans (Function.update_self _ _ _)
  · exact (congrFun (congrArg SemfsView.sem hview) _).trans (Function.update_self _ _ _)
  · exact (congrFun (congrArg SemfsView.vnode hview) _).trans (Function.update_self _ _ _)

/-- A semaphore is in the table, and it has a directory entry that is in no
slot yet. -/
def withEntry (s : SemfsMem) : SemfsMem :=
  ⟨{ s.fs with
      semHeap := s.fs.semHeap.alloc
      semfsSems := s.fs.semfsSems.put s.fs.semfsSems.firstEmpty ⟨s.fs.semHeap.next, false, false⟩
      dentHeap := s.fs.dentHeap.alloc },
    .name s.fs.dentHeap.next :: .cv s.fs.semHeap.next :: .lock s.fs.semHeap.next :: s.parts⟩

/-- **From there on the call is atomic.** -/
theorem creatEntry_wp (h : s.fs.Good held) (hlen : s.fs.semfsSems.length ≠ semfsRootdir) :
    Prog.wp (creatEntry fails ⟨s.fs.semHeap.next, false, false⟩ s.fs.semfsSems.firstEmpty
        ⟨s.fs.dentHeap.next, name, s.fs.semfsSems.firstEmpty⟩)
      (fun r t => ∃ v, r = some v ∧ Linked name v t) (fun _ t => Undone s t) s.withEntry := by
  have hroot : s.fs.semfsSems.firstEmpty ≠ semfsRootdir := by
    have hle := SlotTable.firstEmpty_le s.fs.semfsSems
    have hsmall := h.small
    omega
  have hnone := h.no_vnode (SlotTable.slot_firstEmpty _) hroot
  unfold creatEntry withEntry
  rw [Prog.wp_bind, Prog.wp_get, Prog.wp_ite]
  refine ⟨fun _ => ?_, fun _ => ?_⟩
  · -- the array of directory entries does not grow
    rw [Prog.wp_bind, direntryDestroy_wp, Prog.wp_bind, uninsert_wp, Prog.wp_fail]
    exact undone h (slot_put_set _ _) rfl rfl rfl (Or.inr rfl) (Or.inr rfl) (Or.inl rfl)
  · rw [Prog.wp_bind, wp_onFs, Prog.wp_modify, Prog.wp_bind, Prog.wp_attempt]
    refine getvnode_wp_none hnone (fun hp hs => ?_) ?_
    · -- no vnode: `fail_undir` and the labels after it
      rw [Prog.wp_bind, wp_onFs, Prog.wp_modify, Prog.wp_bind, direntryDestroy_wp, Prog.wp_bind, uninsert_wp,
        Prog.wp_fail]
      exact undone h (slot_put_set _ _) (slot_put_set _ _) rfl rfl (Or.inr rfl) (Or.inr rfl) hs
    · have hrun : Prog.wp _ (fun v fs => v = s.fs.vnodeHeap.next ∧ fs = s.fs.linkEntry name) (fun _ _ => False)
          (s.fs.addEntry name) := Semfs.creat_new_run h hlen
      simp only [Prog.wp_bind, Prog.wp_pure] at hrun
      refine Prog.wp_mono hrun (fun v fs hv => ?_) fun _ _ he => he.elim
      simp only [Prog.wp_bind, wp_onFs, Prog.wp_pure]
      refine Prog.wp_mono hv (fun m fs hm => Prog.wp_mono hm ?_ fun _ _ he => he.elim) fun _ _ he => he.elim
      rintro - fs ⟨rfl, rfl⟩
      exact ⟨_, rfl, linked_linkEntry h _⟩

/-- `semfs_creat` gets as far as the directory entry and cannot make it. -/
def DirentryLost (fails : CreatAlloc → Bool) (name : String) (s : SemfsMem) : Prop :=
  (name ≠ "." ∧ name ≠ "..") ∧ (∀ i d, s.fs.dent i = some d → d.semdName ≠ name) ∧
    (fails .sem || fails .lock || fails .cv) = false ∧
    (s.fs.semfsSems.length ≠ semfsRootdir ∧
      ¬ (s.fs.semfsSems.firstEmpty = s.fs.semfsSems.length ∧ fails .semarray = true)) ∧
    (fails .dent || fails .name) = true

/-- **How `semfs_creat` ends.** -/
theorem creat_wp (h : s.fs.Good held) (excl : Bool) :
    Prog.wp (creat fails name excl)
      (fun r t => DirentryLost fails name s ∧ r = none ∨
        ¬ DirentryLost fails name s ∧ ∃ v, r = some v ∧ Linked name v t)
      (fun _ t => ¬ DirentryLost fails name s ∧ Undone s t) s := by
  have hrefl : Undone s s := undone h rfl rfl rfl rfl (Or.inl rfl) (Or.inl rfl) (Or.inl rfl)
  unfold creat
  rw [Prog.wp_ite]
  refine ⟨fun hdot => ⟨fun hl => ?_, hrefl⟩, fun hdot => ?_⟩
  · exact hdot.elim hl.1.1 hl.1.2
  rw [Prog.wp_bind, Prog.wp_get]
  cases hf : Semfs.findDent name s.fs.semfsDents with
  | some p =>
    obtain ⟨hi, hname⟩ := Semfs.findDent_some hf
    have hkept : ¬ DirentryLost fails name s := fun hl => hl.2.1 p.1 p.2 hi hname
    show Prog.wp (if excl = true then _ else _) _ _ s
    rw [Prog.wp_ite]
    refine ⟨fun _ => ⟨hkept, hrefl⟩, fun _ => ?_⟩
    rw [Prog.wp_bind]
    refine Prog.wp_mono (getvnode_linked h hi) (fun v t hv => ?_) fun _ _ he => ⟨hkept, he⟩
    exact Or.inr ⟨hkept, v, rfl, hname ▸ hv⟩
  | none =>
    rw [Prog.wp_bind]
    refine semCreate_wp (fun hsem hp hs => ⟨fun hl => ?_, ?_⟩) fun hsem => ?_
    · rw [hl.2.2.1] at hsem
      cases hsem
    · exact undone h rfl rfl rfl rfl hs (Or.inl rfl) (Or.inl rfl)
    show Prog.wp (Prog.attempt (semInsert fails _) >>= _) _ _ _
    unfold semInsert
    simp only [Prog.wp_bind, Prog.wp_attempt, Prog.wp_get, Prog.wp_ite, Prog.wp_fail, wp_onFs]
    refine ⟨fun hfull => ?_, fun hfull => ⟨fun hgrow => ?_, fun hgrow => ?_⟩⟩
    · rw [semDestroy_wp]
      exact ⟨fun hl => hl.2.2.2.1.1 hfull, undone h rfl rfl rfl rfl (Or.inr rfl) (Or.inl rfl) (Or.inl rfl)⟩
    · rw [semDestroy_wp]
      exact ⟨fun hl => hl.2.2.2.1.2 hgrow, undone h rfl rfl rfl rfl (Or.inr rfl) (Or.inl rfl) (Or.inl rfl)⟩
    refine Semfs.semInsert_wp.mpr ⟨fun hno => absurd hno hfull, fun _ => ?_⟩
    refine direntryCreate_wp _ (fun hdent hp hs => ?_) fun hdent => ?_
    · rw [Prog.wp_bind, uninsert_wp]
      exact Or.inl ⟨⟨not_or.mp hdot, fun _ _ => Semfs.findDent_none hf, hsem, ⟨hfull, hgrow⟩, hdent⟩, rfl⟩
    · have hkept : ¬ DirentryLost fails name s := by
        intro hl
        rw [hl.2.2.2.2] at hdent
        cases hdent
      refine Prog.wp_mono (creatEntry_wp h hfull) (fun r t hr => Or.inr ⟨hkept, hr⟩) fun _ _ he => ⟨hkept, he⟩

/-- **`semfs_creat` is atomic** exactly if it does not lose the directory
entry. -/
theorem semfs_creat_atomic_iff (fails : CreatAlloc → Bool) (name : String) (excl : Bool) (s : SemfsMem) (held : ℕ → ℕ)
    (h : s.fs.Good held) :
    Prog.wp (creat fails name excl) (fun r t => ∃ v, r = some v ∧ Linked name v t) (fun _ t => Undone s t) s ↔
      ¬ DirentryLost fails name s := by
  have hends : Prog.wp (creat fails name excl) _ _ s := creat_wp h excl
  constructor
  · intro hatomic hl
    have hboth := Prog.wp_and hatomic hends
    unfold Prog.wp at hboth
    cases hrun : creat fails name excl s with
    | ok r t =>
      rw [hrun] at hboth
      obtain ⟨⟨v, hv, -⟩, ⟨-, hnone⟩ | ⟨hk, -⟩⟩ := hboth
      · rw [hnone] at hv
        cases hv
      · exact hk hl
    | fail e t =>
      rw [hrun] at hboth
      exact hboth.2.1 hl
    | stop =>
      rw [hrun] at hboth
      exact hboth
  · intro hk
    refine Prog.wp_mono hends (fun r t hr => ?_) fun _ _ he => he.2
    rcases hr with ⟨hl, -⟩ | ⟨-, hv⟩
    · exact absurd hl hk
    · exact hv

/-- An empty semfs. -/
def fresh : SemfsMem := ⟨Semfs.create, []⟩

/-- The name of the entry cannot be copied: the call returns 0 and no vnode. -/
theorem semfs_creat_no_entry : ∃ t,
    creat (fun a => a = .name) "sem" false fresh = .ok none t ∧ t.fs.semfsDents = [] :=
  ⟨_, rfl, rfl⟩

/-- Without memory for the vnode the same call fails and leaves nothing. -/
theorem semfs_creat_atomic_vnode :
    Prog.wp (creat (fun a => a = .vnode) "sem" false)
      (fun r t => ∃ v, r = some v ∧ Linked "sem" v t) (fun _ t => Undone fresh t) fresh :=
  (semfs_creat_atomic_iff _ "sem" false fresh (fun _ => 0) Semfs.create_good).mpr fun hl => Bool.false_ne_true hl.2.2.2.2

end SemfsMem

end Os161
