/-
# The lifetime of semaphores, directory entries and vnodes

What the operations of `Os161/Semfs/Objects.lean` do to the three tables, seen
as functions from numbers to objects (`SemfsView`), and the invariant of any
sequence of them (`SemfsView.Inv`): the directory entries point exactly at the
semaphores that are marked as linked, the vnodes at those that are marked as
having one, a semaphore has one mark at least, and each kind of object is
accounted for.
-/
import Os161.Semfs.Objects
import Os161.Lib.Run

namespace Os161

/-! ### The semaphores -/

section SemTable

variable {sem : ℕ → Option SemEntry} {heap : ObjHeap} {n : ℕ} {m p : SemEntry}

/-- Which semaphores are marked as linked. -/
def semLinked (sem : ℕ → Option SemEntry) : ℕ → Bool := (fun o : Option SemEntry => o.any SemEntry.semsLinked) ∘ sem

/-- Which semaphores are marked as having a vnode. -/
def semHasvnode (sem : ℕ → Option SemEntry) : ℕ → Bool := (fun o : Option SemEntry => o.any SemEntry.semsHasvnode) ∘ sem

theorem semLinked_update (x : Option SemEntry) :
    semLinked (Function.update sem n x) = Function.update (semLinked sem) n (x.any SemEntry.semsLinked) :=
  Function.comp_update _ _ _ _

theorem semHasvnode_update (x : Option SemEntry) :
    semHasvnode (Function.update sem n x) = Function.update (semHasvnode sem) n (x.any SemEntry.semsHasvnode) :=
  Function.comp_update _ _ _ _

theorem semLinked_eq {x : Option SemEntry} (hn : sem n = x) : semLinked sem n = x.any SemEntry.semsLinked :=
  congrArg _ hn

theorem semHasvnode_eq {x : Option SemEntry} (hn : sem n = x) : semHasvnode sem n = x.any SemEntry.semsHasvnode :=
  congrArg _ hn

/-- A mark that does not change. -/
theorem semLinked_same (hn : sem n = some m) (hm : p.semsLinked = m.semsLinked) :
    semLinked (Function.update sem n (some p)) = semLinked sem := by
  rw [semLinked_update, Function.update_eq_self_iff, semLinked_eq hn]
  exact hm

theorem semHasvnode_same (hn : sem n = some m) (hm : p.semsHasvnode = m.semsHasvnode) :
    semHasvnode (Function.update sem n (some p)) = semHasvnode sem := by
  rw [semHasvnode_update, Function.update_eq_self_iff, semHasvnode_eq hn]
  exact hm

/-- Each semaphore is linked or has a vnode, and they are accounted for. -/
structure SemTable (sem : ℕ → Option SemEntry) (heap : ObjHeap) : Prop where
  kept : ∀ n m, sem n = some m → m.semsLinked = true ∨ m.semsHasvnode = true
  root : sem semfsRootdir = none
  sems : Owned (Option.map SemEntry.id ∘ sem) heap.next heap.freed

namespace SemTable

theorem ne_root (h : SemTable sem heap) (hn : sem n = some m) : n ≠ semfsRootdir := by
  rintro rfl
  rw [h.root] at hn
  cases hn

theorem kept_update {x : Option SemEntry} (h : SemTable sem heap)
    (hx : ∀ m, x = some m → m.semsLinked = true ∨ m.semsHasvnode = true) (k : ℕ) (m : SemEntry)
    (hk : Function.update sem n x k = some m) : m.semsLinked = true ∨ m.semsHasvnode = true := by
  rcases eq_or_ne k n with rfl | hne
  · exact hx m (by simpa using hk)
  · exact h.kept k m (by simpa [hne] using hk)

/-- The marks of a semaphore change, and one is left. -/
theorem setSem (h : SemTable sem heap) (hn : sem n = some m) (hid : p.id = m.id)
    (hkept : p.semsLinked = true ∨ p.semsHasvnode = true) : SemTable (Function.update sem n (some p)) heap := by
  refine ⟨h.kept_update fun m hm => ?_, ?_, ?_⟩
  · cases hm
    exact hkept
  · rw [Function.update_of_ne (h.ne_root hn).symm]
    exact h.root
  · rw [Function.comp_update, Function.update_eq_self_iff.mpr]
    · exact h.sems
    · show _ = (sem n).map SemEntry.id
      rw [hn, Option.map_some, Option.map_some, hid]

theorem newSem {b c : Bool} (h : SemTable sem heap) (hn : sem n = none) (hroot : n ≠ semfsRootdir)
    (hkept : b = true ∨ c = true) : SemTable (Function.update sem n (some ⟨heap.next, c, b⟩)) heap.alloc := by
  refine ⟨h.kept_update fun m hm => ?_, ?_, ?_⟩
  · cases hm
    exact hkept
  · rw [Function.update_of_ne hroot.symm]
    exact h.root
  · rw [Function.comp_update]
    exact h.sems.alloc (congrArg (Option.map SemEntry.id) hn)

theorem freeSem (h : SemTable sem heap) (hn : sem n = some m) :
    SemTable (Function.update sem n none) (heap.free m.id) := by
  refine ⟨h.kept_update fun m hm => ?_, ?_, ?_⟩
  · cases hm
  · rw [Function.update_of_ne (h.ne_root hn).symm]
    exact h.root
  · rw [Function.comp_update]
    exact h.sems.free (congrArg (Option.map SemEntry.id) hn)

end SemTable

end SemTable

/-! ### The directory -/

section DentTable

variable {dent : ℕ → Option SemfsDirentry} {heap : ObjHeap} {i n : ℕ} {d : SemfsDirentry}

/-- The semaphore of a slot of the directory. -/
def dentPtr (dent : ℕ → Option SemfsDirentry) : ℕ → Option ℕ := Option.map SemfsDirentry.semdSemnum ∘ dent

theorem dentPtr_update (x : Option SemfsDirentry) :
    dentPtr (Function.update dent i x) = Function.update (dentPtr dent) i (x.map SemfsDirentry.semdSemnum) :=
  Function.comp_update _ _ _ _

theorem dentPtr_eq {x : Option SemfsDirentry} (hi : dent i = x) : dentPtr dent i = x.map SemfsDirentry.semdSemnum :=
  congrArg _ hi

/-- No name is in the directory twice, and its entries are accounted for. -/
structure DentTable (dent : ℕ → Option SemfsDirentry) (heap : ObjHeap) : Prop where
  names : ∀ i j d e, dent i = some d → dent j = some e → d.semdName = e.semdName → i = j
  dents : Owned (Option.map SemfsDirentry.id ∘ dent) heap.next heap.freed

namespace DentTable

theorem newDent {name : String} (h : DentTable dent heap) (hi : dent i = none)
    (hname : ∀ j e, dent j = some e → e.semdName ≠ name) :
    DentTable (Function.update dent i (some ⟨heap.next, name, n⟩)) heap.alloc := by
  refine ⟨fun j k d e hj hk hde => ?_, ?_⟩
  · by_contra hjk
    rcases eq_or_ne j i with rfl | hji
    · obtain rfl : ⟨heap.next, name, n⟩ = d := by simpa using hj
      exact hname k e (by simpa [Ne.symm hjk] using hk) hde.symm
    · have hj' : dent j = some d := by simpa [hji] using hj
      rcases eq_or_ne k i with rfl | hki
      · obtain rfl : ⟨heap.next, name, n⟩ = e := by simpa using hk
        exact hname j d hj' hde
      · exact hjk (h.names j k d e hj' (by simpa [hki] using hk) hde)
  · rw [Function.comp_update]
    exact h.dents.alloc (congrArg (Option.map SemfsDirentry.id) hi)

theorem freeDent (h : DentTable dent heap) (hi : dent i = some d) :
    DentTable (Function.update dent i none) (heap.free d.id) := by
  have hold : ∀ j e, Function.update dent i none j = some e → dent j = some e := by
    intro j e hj
    rcases eq_or_ne j i with rfl | hne
    · simp at hj
    · simpa [hne] using hj
  refine ⟨fun j k d e hj hk => h.names j k d e (hold j d hj) (hold k e hk), ?_⟩
  rw [Function.comp_update]
  exact h.dents.free (congrArg (Option.map SemfsDirentry.id) hi)

end DentTable

end DentTable

/-! ### The vnodes -/

section VnodeTable

variable {held : ℕ → ℕ} {vnode : ℕ → Option SemfsVnode} {heap : ObjHeap} {v n : ℕ} {vn : SemfsVnode}

/-- The semaphore of a vnode, if it is not the root's. -/
def semnumOf (vn : Option SemfsVnode) : Option ℕ := (vn.map SemfsVnode.semvSemnum).filter (· ≠ semfsRootdir)

@[inherit_doc semnumOf] def vnodePtr (vnode : ℕ → Option SemfsVnode) : ℕ → Option ℕ := semnumOf ∘ vnode

theorem semnumOf_some (h : vn.semvSemnum ≠ semfsRootdir) : semnumOf (some vn) = some vn.semvSemnum := by
  simp [semnumOf, h]

theorem semnumOf_root (h : vn.semvSemnum = semfsRootdir) : semnumOf (some vn) = none := by
  simp [semnumOf, h]

theorem vnodePtr_update (x : Option SemfsVnode) :
    vnodePtr (Function.update vnode v x) = Function.update (vnodePtr vnode) v (semnumOf x) :=
  Function.comp_update _ _ _ _

theorem vnodePtr_eq {x : Option SemfsVnode} (hv : vnode v = x) : vnodePtr vnode v = semnumOf x := congrArg _ hv

/-- The vnodes are accounted for, and the users hold `held v` references to
vnode `v`. -/
structure VnodeTable (held : ℕ → ℕ) (vnode : ℕ → Option SemfsVnode) (heap : ObjHeap) : Prop where
  refs : ∀ v vn, vnode v = some vn → vn.id = v ∧ vn.vnRefcount = held v
  held : ∀ v, 0 < held v ↔ ∃ vn, vnode v = some vn
  vnodes : Owned (Option.map SemfsVnode.id ∘ vnode) heap.next heap.freed

namespace VnodeTable

theorem fresh (h : VnodeTable held vnode heap) : vnode heap.next = none := by
  cases hv : vnode heap.next with
  | none => rfl
  | some vn =>
    refine absurd ?_ (h.vnodes.fresh heap.next)
    show (vnode heap.next).map SemfsVnode.id = _
    rw [hv, Option.map_some, (h.refs _ _ hv).1]

/-- One vnode and the references to it change. -/
theorem refs_update {x : Option SemfsVnode} {c : ℕ} (h : VnodeTable held vnode heap)
    (hx : ∀ vn, x = some vn → vn.id = v ∧ vn.vnRefcount = c) (u : ℕ) (un : SemfsVnode)
    (hu : Function.update vnode v x u = some un) : un.id = u ∧ un.vnRefcount = Function.update held v c u := by
  rcases eq_or_ne u v with rfl | hne
  · rw [Function.update_self]
    exact hx un (by simpa using hu)
  · rw [Function.update_of_ne hne]
    exact h.refs u un (by simpa [hne] using hu)

theorem held_update {x : Option SemfsVnode} {c : ℕ} (h : VnodeTable held vnode heap) (hx : 0 < c ↔ ∃ vn, x = some vn)
    (u : ℕ) : 0 < Function.update held v c u ↔ ∃ vn, Function.update vnode v x u = some vn := by
  rcases eq_or_ne u v with rfl | hne
  · simpa using hx
  · simpa [hne] using h.held u

/-- The users' references to a vnode change with its count. -/
theorem setRefcount {c : ℕ} (h : VnodeTable held vnode heap) (hv : vnode v = some vn) (hc : 0 < c) :
    VnodeTable (Function.update held v c) (Function.update vnode v (some { vn with vnRefcount := c })) heap := by
  refine ⟨h.refs_update fun un hun => ?_, h.held_update ?_, ?_⟩
  · cases hun
    exact ⟨(h.refs v vn hv).1, rfl⟩
  · simp [hc]
  · rw [Function.comp_update, Function.update_eq_self_iff.mpr]
    · exact h.vnodes
    · exact (congrArg (Option.map SemfsVnode.id) hv).symm

theorem newVnode (h : VnodeTable held vnode heap) (n : ℕ) : VnodeTable (Function.update held heap.next 1)
    (Function.update vnode heap.next (some ⟨heap.next, n, 1⟩)) heap.alloc := by
  refine ⟨h.refs_update fun un hun => ?_, h.held_update ?_, ?_⟩
  · cases hun
    exact ⟨rfl, rfl⟩
  · simp
  · rw [Function.comp_update]
    exact h.vnodes.alloc (congrArg (Option.map SemfsVnode.id) h.fresh)

theorem freeVnode (h : VnodeTable held vnode heap) (hv : vnode v = some vn) :
    VnodeTable (Function.update held v 0) (Function.update vnode v none) (heap.free v) := by
  refine ⟨h.refs_update fun un hun => ?_, h.held_update ?_, ?_⟩
  · cases hun
  · simp
  · rw [Function.comp_update]
    refine h.vnodes.free ?_
    show (vnode v).map SemfsVnode.id = some v
    rw [hv, Option.map_some, (h.refs v vn hv).1]

end VnodeTable

end VnodeTable

/-! ### The invariant -/

/-- The tables and heaps of a semfs. -/
structure SemfsView where
  sem : ℕ → Option SemEntry
  dent : ℕ → Option SemfsDirentry
  vnode : ℕ → Option SemfsVnode
  semHeap : ObjHeap
  dentHeap : ObjHeap
  vnodeHeap : ObjHeap

def Semfs.view (s : Semfs) : SemfsView := ⟨s.sem, s.dent, s.vnode, s.semHeap, s.dentHeap, s.vnodeHeap⟩

namespace SemfsView

/-- **The invariant**, when the users hold `held v` references to vnode `v`. -/
structure Inv (held : ℕ → ℕ) (w : SemfsView) : Prop where
  links : Referenced (dentPtr w.dent) (semLinked w.sem)
  loads : Referenced (vnodePtr w.vnode) (semHasvnode w.sem)
  sems : SemTable w.sem w.semHeap
  dents : DentTable w.dent w.dentHeap
  vnodes : VnodeTable held w.vnode w.vnodeHeap

/-- A vnode's count changes. -/
def setRefcount (v : ℕ) (vn : SemfsVnode) (c : ℕ) (w : SemfsView) : SemfsView :=
  { w with vnode := Function.update w.vnode v (some { vn with vnRefcount := c }) }

/-- A new vnode of semaphore `n`. -/
def newVnode (n : ℕ) (w : SemfsView) : SemfsView :=
  { w with
    vnode := Function.update w.vnode w.vnodeHeap.next (some ⟨w.vnodeHeap.next, n, 1⟩)
    vnodeHeap := w.vnodeHeap.alloc }

/-- The vnode `v` is freed. -/
def freeVnode (v : ℕ) (w : SemfsView) : SemfsView :=
  { w with vnode := Function.update w.vnode v none, vnodeHeap := w.vnodeHeap.free v }

def setSem (n : ℕ) (m : SemEntry) (w : SemfsView) : SemfsView := { w with sem := Function.update w.sem n (some m) }

/-- A new semaphore with the given marks, as number `n`. -/
def newSem (n : ℕ) (hasvnode linked : Bool) (w : SemfsView) : SemfsView :=
  { w with sem := Function.update w.sem n (some ⟨w.semHeap.next, hasvnode, linked⟩), semHeap := w.semHeap.alloc }

/-- Semaphore `n`, the object `id`, is freed. -/
def freeSem (n id : ℕ) (w : SemfsView) : SemfsView :=
  { w with sem := Function.update w.sem n none, semHeap := w.semHeap.free id }

/-- A new directory entry in slot `i`. -/
def newDent (i : ℕ) (name : String) (n : ℕ) (w : SemfsView) : SemfsView :=
  { w with dent := Function.update w.dent i (some ⟨w.dentHeap.next, name, n⟩), dentHeap := w.dentHeap.alloc }

/-- The directory entry in slot `i`, the object `id`, is freed. -/
def freeDent (i id : ℕ) (w : SemfsView) : SemfsView :=
  { w with dent := Function.update w.dent i none, dentHeap := w.dentHeap.free id }

namespace Inv

variable {w : SemfsView} {held : ℕ → ℕ} {n i v : ℕ} {m : SemEntry} {d : SemfsDirentry} {vn : SemfsVnode}

/-- `vnode_incref`, and `vnode_decref` that leaves a reference. -/
theorem setRefcount {c : ℕ} (h : w.Inv held) (hv : w.vnode v = some vn) (hc : 0 < c) :
    (w.setRefcount v vn c).Inv (Function.update held v c) := by
  refine ⟨h.links, ?_, h.sems, h.dents, h.vnodes.setRefcount hv hc⟩
  show Referenced (vnodePtr (Function.update w.vnode v _)) _
  rw [vnodePtr_update, Function.update_eq_self_iff.mpr]
  · exact h.loads
  · exact (vnodePtr_eq hv).symm

/-- `semfs_getvnode` of the root. -/
theorem loadRoot (h : w.Inv held) : (w.newVnode semfsRootdir).Inv (Function.update held w.vnodeHeap.next 1) := by
  refine ⟨h.links, ?_, h.sems, h.dents, h.vnodes.newVnode _⟩
  show Referenced (vnodePtr (Function.update w.vnode _ _)) _
  rw [vnodePtr_update, Function.update_eq_self_iff.mpr]
  · exact h.loads
  · exact (semnumOf_root rfl).trans (vnodePtr_eq h.vnodes.fresh).symm

/-- A new vnode points at a semaphore. -/
theorem loads_newVnode {flag : ℕ → Bool} (h : w.Inv held) (hroot : n ≠ semfsRootdir)
    (hl : Referenced (vnodePtr w.vnode) flag) (hn : flag n = false) :
    Referenced (vnodePtr (w.newVnode n).vnode) (Function.update flag n true) := by
  show Referenced (vnodePtr (Function.update w.vnode _ _)) _
  rw [vnodePtr_update, semnumOf_some hroot]
  exact hl.add (vnodePtr_eq h.vnodes.fresh) hn

/-- `semfs_getvnode` of a semaphore without a vnode. -/
theorem load (h : w.Inv held) (hn : w.sem n = some m) (hm : m.semsHasvnode = false) :
    ((w.newVnode n).setSem n { m with semsHasvnode := true }).Inv (Function.update held w.vnodeHeap.next 1) := by
  refine ⟨?_, ?_, h.sems.setSem hn rfl (Or.inr rfl), h.dents, h.vnodes.newVnode n⟩
  · show Referenced _ (semLinked (Function.update w.sem n _))
    rw [semLinked_same (p := { m with semsHasvnode := true }) hn rfl]
    exact h.links
  · show Referenced _ (semHasvnode (Function.update w.sem n _))
    rw [semHasvnode_update]
    exact h.loads_newVnode (h.sems.ne_root hn) h.loads ((semHasvnode_eq hn).trans hm)

/-- `semfs_creat` of a new name. -/
theorem create (name : String) (h : w.Inv held) (hn : w.sem n = none) (hroot : n ≠ semfsRootdir) (hi : w.dent i = none)
    (hname : ∀ j e, w.dent j = some e → e.semdName ≠ name) :
    (((w.newSem n true true).newDent i name n).newVnode n).Inv (Function.update held w.vnodeHeap.next 1) := by
  refine ⟨?_, ?_, h.sems.newSem hn hroot (Or.inl rfl), h.dents.newDent hi hname, h.vnodes.newVnode n⟩
  · show Referenced (dentPtr (Function.update w.dent i _)) (semLinked (Function.update w.sem n _))
    rw [dentPtr_update, semLinked_update]
    exact h.links.add (dentPtr_eq hi) (semLinked_eq hn)
  · show Referenced _ (semHasvnode (Function.update w.sem n _))
    rw [semHasvnode_update]
    exact h.loads_newVnode hroot h.loads (semHasvnode_eq hn)

/-- `semfs_remove` of a semaphore that has a vnode. -/
theorem unlink (h : w.Inv held) (hi : w.dent i = some d) (hn : w.sem d.semdSemnum = some m) (hm : m.semsHasvnode = true) :
    ((w.setSem d.semdSemnum { m with semsLinked := false }).freeDent i d.id).Inv held := by
  refine ⟨?_, ?_, h.sems.setSem hn rfl (Or.inr hm), h.dents.freeDent hi, h.vnodes⟩
  · show Referenced (dentPtr (Function.update w.dent i _)) (semLinked (Function.update w.sem _ _))
    rw [dentPtr_update, semLinked_update]
    exact h.links.drop (dentPtr_eq hi)
  · show Referenced _ (semHasvnode (Function.update w.sem _ _))
    rw [semHasvnode_same (p := { m with semsLinked := false }) hn rfl]
    exact h.loads

/-- `semfs_remove` of a semaphore that has none. -/
theorem unlinkFree (h : w.Inv held) (hi : w.dent i = some d) (hn : w.sem d.semdSemnum = some m)
    (hm : m.semsHasvnode = false) : ((w.freeSem d.semdSemnum m.id).freeDent i d.id).Inv held := by
  refine ⟨?_, ?_, h.sems.freeSem hn, h.dents.freeDent hi, h.vnodes⟩
  · show Referenced (dentPtr (Function.update w.dent i _)) (semLinked (Function.update w.sem _ _))
    rw [dentPtr_update, semLinked_update]
    exact h.links.drop (dentPtr_eq hi)
  · show Referenced _ (semHasvnode (Function.update w.sem _ _))
    rw [semHasvnode_update, Function.update_eq_self_iff.mpr]
    · exact h.loads
    · exact ((semHasvnode_eq hn).trans hm).symm

/-- `semfs_reclaim` of the root's vnode. -/
theorem unloadRoot (h : w.Inv held) (hv : w.vnode v = some vn) (hroot : vn.semvSemnum = semfsRootdir) :
    (w.freeVnode v).Inv (Function.update held v 0) := by
  refine ⟨h.links, ?_, h.sems, h.dents, h.vnodes.freeVnode hv⟩
  show Referenced (vnodePtr (Function.update w.vnode v _)) _
  rw [vnodePtr_update, Function.update_eq_self_iff.mpr]
  · exact h.loads
  · exact ((vnodePtr_eq hv).trans (semnumOf_root hroot)).symm

/-- The vnode of a semaphore goes away. -/
theorem loads_freeVnode (h : w.Inv held) (hv : w.vnode v = some vn) (hroot : vn.semvSemnum ≠ semfsRootdir) :
    Referenced (vnodePtr (w.freeVnode v).vnode) (Function.update (semHasvnode w.sem) vn.semvSemnum false) := by
  show Referenced (vnodePtr (Function.update w.vnode v none)) _
  rw [vnodePtr_update]
  exact h.loads.drop ((vnodePtr_eq hv).trans (semnumOf_some hroot))

/-- `semfs_reclaim` of the vnode of a linked semaphore. -/
theorem unload (h : w.Inv held) (hv : w.vnode v = some vn) (hn : w.sem vn.semvSemnum = some m) (hm : m.semsLinked = true) :
    ((w.setSem vn.semvSemnum { m with semsHasvnode := false }).freeVnode v).Inv (Function.update held v 0) := by
  refine ⟨?_, ?_, h.sems.setSem hn rfl (Or.inl hm), h.dents, h.vnodes.freeVnode hv⟩
  · show Referenced _ (semLinked (Function.update w.sem _ _))
    rw [semLinked_same (p := { m with semsHasvnode := false }) hn rfl]
    exact h.links
  · show Referenced _ (semHasvnode (Function.update w.sem _ _))
    rw [semHasvnode_update]
    exact h.loads_freeVnode hv (h.sems.ne_root hn)

/-- `semfs_reclaim` of the vnode of an unlinked semaphore. -/
theorem unloadFree (h : w.Inv held) (hv : w.vnode v = some vn) (hn : w.sem vn.semvSemnum = some m)
    (hm : m.semsLinked = false) :
    ((w.freeSem vn.semvSemnum m.id).freeVnode v).Inv (Function.update held v 0) := by
  refine ⟨?_, ?_, h.sems.freeSem hn, h.dents, h.vnodes.freeVnode hv⟩
  · show Referenced _ (semLinked (Function.update w.sem _ _))
    rw [semLinked_update, Function.update_eq_self_iff.mpr]
    · exact h.links
    · exact ((semLinked_eq hn).trans hm).symm
  · show Referenced _ (semHasvnode (Function.update w.sem _ _))
    rw [semHasvnode_update]
    exact h.loads_freeVnode hv (h.sems.ne_root hn)

/-- `semfs_creat` that finds the table of semaphores full. -/
theorem refused (h : w.Inv held) : ({ w with semHeap := w.semHeap.alloc.free w.semHeap.next } : SemfsView).Inv held :=
  ⟨h.links, h.loads, ⟨h.sems.kept, h.sems.root, h.sems.sems.alloc_free⟩, h.dents, h.vnodes⟩

end Inv

end SemfsView

end Os161
