/-
# Runs of semfs

Any sequence of `semfs_creat`, `semfs_lookup`, `semfs_remove`, the root from
`semfs_getroot`, and releases of vnodes, from a new semfs. The users hold
references to vnodes; they pass a directory they hold, and release what they
hold.

`SemfsState.Exact` is what is asked of every state of a run, and `semfs_run`
that it holds.
-/
import Os161.Semfs.Lifetime

namespace Os161

/-- A semfs and the users' references to its vnodes. -/
structure SemfsState where
  fs : Semfs
  held : ℕ → ℕ

/-- A call of semfs; `dirvn` is the directory it is made in. -/
inductive SemfsCall
  | getroot
  | creat (dirvn : ℕ) (name : String) (excl : Bool)
  | lookup (dirvn : ℕ) (path : String)
  | remove (dirvn : ℕ) (name : String)
  | release (v : ℕ)

/-- The users hold the vnode `d` of the root. -/
def SemfsState.IsDir (s : SemfsState) (d : ℕ) : Prop :=
  0 < s.held d ∧ ∃ vn, s.fs.vnode d = some vn ∧ vn.semvSemnum = semfsRootdir

namespace SemfsCall

/-- What the users see to. -/
def Pre (s : SemfsState) : SemfsCall → Prop
  | .getroot => True
  | .creat d _ _ => s.IsDir d
  | .lookup d _ => s.IsDir d
  | .remove d _ => s.IsDir d
  | .release v => 0 < s.held v

/-- The call, with the vnode it hands out. -/
def run : SemfsCall → Prog Errno Semfs (Option ℕ)
  | .getroot => do
    let v ← Semfs.getvnode semfsRootdir
    pure (some v)
  | .creat _ name excl => do
    let v ← Semfs.creat name excl
    pure (some v)
  | .lookup d path => do
    let v ← Semfs.lookup d path
    pure (some v)
  | .remove _ name => do
    Semfs.remove name
    pure none
  | .release v => do
    Semfs.vnodeDecref v
    pure none

/-- The references after a call that returned. -/
def held (held : ℕ → ℕ) : SemfsCall → Option ℕ → ℕ → ℕ
  | .release v, _ => Function.update held v (held v - 1)
  | _, some v => Function.update held v (held v + 1)
  | _, none => held

end SemfsCall

/-- A call returns, with a result or an error. -/
inductive SemfsCalled : SemfsState → SemfsCall → SemfsState → Prop
  | ok {s : SemfsState} {c : SemfsCall} {r : Option ℕ} {t : Semfs} : c.Pre s → c.run s.fs = .ok r t →
      SemfsCalled s c ⟨t, c.held s.held r⟩
  | error {s : SemfsState} {c : SemfsCall} {e : Errno} {t : Semfs} : c.Pre s → c.run s.fs = .fail e t →
      SemfsCalled s c ⟨t, s.held⟩

namespace SemfsState

/-- Slot `i` of the directory links semaphore `n`. -/
def LinkedBy (s : SemfsState) (n i : ℕ) : Prop := ∃ d, s.fs.dent i = some d ∧ d.semdSemnum = n

/-- `v` is a loaded vnode of semaphore `n`. -/
def LoadedBy (s : SemfsState) (n v : ℕ) : Prop := ∃ vn, s.fs.vnode v = some vn ∧ vn.semvSemnum = n

end SemfsState

/-- The semaphore object behind vnode `v`. -/
def SemfsView.semOf (w : SemfsView) (v : ℕ) : Option ℕ :=
  (w.vnode v).bind fun vn => (w.sem vn.semvSemnum).map SemEntry.id

/-- Of the objects allocated so far, the live ones (`ptr` says where each is)
have not been freed, and the others have been freed once. -/
structure FreedOnce (ptr : ℕ → Option ℕ) (heap : ObjHeap) : Prop where
  place : ∀ i j id, ptr i = some id → ptr j = some id → i = j
  live : ∀ i id, ptr i = some id → id < heap.next ∧ heap.freed.count id = 0
  dead : ∀ id < heap.next, (∀ i, ptr i ≠ some id) → heap.freed.count id = 1

/-- What holds in every state of a run. -/
structure SemfsState.Exact (s : SemfsState) : Prop where
  slots : ∀ n < s.fs.semfsSems.length, (s.fs.sem n).isSome = true ↔ (∃! i, s.LinkedBy n i) ∨ ∃ v, s.LoadedBy n v
  linked : ∀ n m, s.fs.sem n = some m → (m.semsLinked = true ↔ ∃! i, s.LinkedBy n i) ∧
    (m.semsLinked = false ↔ ∀ i, ¬ s.LinkedBy n i)
  hasvnode : ∀ n m, s.fs.sem n = some m → (m.semsHasvnode = true ↔ ∃! v, s.LoadedBy n v) ∧
    (m.semsHasvnode = false ↔ ∀ v, ¬ s.LoadedBy n v)
  names : ∀ i j d e, s.fs.dent i = some d → s.fs.dent j = some e → d.semdName = e.semdName → i = j
  -- a name that is not in the directory gets a new semaphore, and no vnode held so far is one of it
  creat : ∀ name excl v t, (∀ i d, s.fs.dent i = some d → d.semdName ≠ name) → Semfs.creat name excl s.fs = .ok v t →
    ∃ id, t.view.semOf v = some id ∧ s.fs.semHeap.next ≤ id ∧
      ∀ u, 0 < s.held u → u ≠ v ∧ t.view.semOf u = s.fs.view.semOf u ∧ t.view.semOf u ≠ some id
  -- a semaphore held open stays the same
  stays : ∀ c t, SemfsCalled s c t → ∀ u, 0 < s.held u → 0 < t.held u → t.fs.view.semOf u = s.fs.view.semOf u
  sems : FreedOnce (Option.map SemEntry.id ∘ s.fs.sem) s.fs.semHeap
  dents : FreedOnce (Option.map SemfsDirentry.id ∘ s.fs.dent) s.fs.dentHeap
  vnodes : FreedOnce (Option.map SemfsVnode.id ∘ s.fs.vnode) s.fs.vnodeHeap
  -- no assertion fails
  runs : ∀ c : SemfsCall, c.Pre s → c.run s.fs ≠ .stop

/-! ### Vnodes keep their semaphore -/

namespace SemfsView

/-- A vnode that is in both has the same semaphore in both. -/
def Stable (w x : SemfsView) : Prop := ∀ u, w.vnode u ≠ none → x.vnode u ≠ none → x.semOf u = w.semOf u

variable {w x : SemfsView} {held : ℕ → ℕ} {n i v : ℕ} {m p : SemEntry} {d : SemfsDirentry} {vn : SemfsVnode}

theorem semOf_eq (hv : w.vnode v = some vn) : w.semOf v = (w.sem vn.semvSemnum).map SemEntry.id := by
  unfold semOf
  rw [hv]
  rfl

theorem Stable.of_eq (h : ∀ u un, w.vnode u = some un → x.vnode u ≠ none → ∃ un', x.vnode u = some un' ∧
    un'.semvSemnum = un.semvSemnum ∧ (x.sem un.semvSemnum).map SemEntry.id = (w.sem un.semvSemnum).map SemEntry.id) :
    Stable w x := by
  intro u hw hx
  obtain ⟨un, hu⟩ := Option.ne_none_iff_exists'.mp hw
  obtain ⟨un', hu', hn, hid⟩ := h u un hu hx
  rw [semOf_eq hu', semOf_eq hu, hn, hid]

theorem Stable.refl (w : SemfsView) : Stable w w := fun _ _ _ => rfl

/-- The vnode of a semaphore: it is the root's, or the semaphore is marked. -/
theorem Inv.root_or_hasvnode (h : w.Inv held) (hv : w.vnode v = some vn) :
    vn.semvSemnum = semfsRootdir ∨ semHasvnode w.sem vn.semvSemnum = true := by
  by_cases hroot : vn.semvSemnum = semfsRootdir
  · exact Or.inl hroot
  · exact Or.inr (h.loads.hit v _ ((vnodePtr_eq hv).trans (semnumOf_some hroot)))

theorem map_id_setSem (hn : w.sem n = some m) (hid : p.id = m.id) (k : ℕ) :
    ((w.setSem n p).sem k).map SemEntry.id = (w.sem k).map SemEntry.id := by
  rcases eq_or_ne k n with rfl | hne
  · simp [setSem, hn, hid]
  · simp [setSem, hne]

theorem stable_setRefcount {c : ℕ} (hv : w.vnode v = some vn) : Stable w (w.setRefcount v vn c) := by
  refine Stable.of_eq fun u un hu _ => ?_
  rcases eq_or_ne u v with rfl | hne
  · obtain rfl : un = vn := by simpa [hu] using hv
    exact ⟨{ un with vnRefcount := c }, Function.update_self _ _ _, rfl, rfl⟩
  · exact ⟨un, by simpa [setRefcount, hne] using hu, rfl, rfl⟩

/-- A new vnode; the semaphores of the others are as they were. -/
theorem Inv.stable_newVnode (h : w.Inv held) (hx : x.vnode = (w.newVnode n).vnode)
    (hsem : ∀ u un, w.vnode u = some un →
      (x.sem un.semvSemnum).map SemEntry.id = (w.sem un.semvSemnum).map SemEntry.id) : Stable w x := by
  refine Stable.of_eq fun u un hu _ => ?_
  have hne : u ≠ w.vnodeHeap.next := by
    rintro rfl
    rw [h.vnodes.fresh] at hu
    cases hu
  exact ⟨un, by simpa [hx, newVnode, hne] using hu, rfl, hsem u un hu⟩

theorem Inv.stable_create {name : String} (h : w.Inv held) (hn : w.sem n = none) (hroot : n ≠ semfsRootdir) :
    Stable w (((w.newSem n true true).newDent i name n).newVnode n) := by
  refine h.stable_newVnode rfl fun u un hu => ?_
  have hne : un.semvSemnum ≠ n := by
    rintro rfl
    rcases h.root_or_hasvnode hu with hr | hr
    · exact hroot hr
    · rw [semHasvnode_eq hn] at hr
      cases hr
  simp [newVnode, newDent, newSem, hne]

theorem Inv.stable_unlinkFree (h : w.Inv held) (hn : w.sem n = some m) (hm : m.semsHasvnode = false) (id : ℕ) :
    Stable w ((w.freeSem n m.id).freeDent i id) := by
  refine Stable.of_eq fun u un hu _ => ⟨un, hu, rfl, ?_⟩
  have hne : un.semvSemnum ≠ n := by
    rintro rfl
    rcases h.root_or_hasvnode hu with hr | hr
    · exact h.sems.ne_root hn hr
    · rw [semHasvnode_eq hn, Option.any_some, hm] at hr
      cases hr
  simp [freeDent, freeSem, hne]

theorem stable_freeVnode (hx : x.vnode = (w.freeVnode v).vnode) (hsem : ∀ u un, u ≠ v → w.vnode u = some un →
    (x.sem un.semvSemnum).map SemEntry.id = (w.sem un.semvSemnum).map SemEntry.id) : Stable w x := by
  refine Stable.of_eq fun u un hu hne => ?_
  have huv : u ≠ v := by
    rintro rfl
    simp [hx, freeVnode] at hne
  exact ⟨un, by simpa [hx, freeVnode, huv] using hu, rfl, hsem u un huv hu⟩

theorem Inv.stable_unloadFree (h : w.Inv held) (hv : w.vnode v = some vn) (hn : w.sem vn.semvSemnum = some m) :
    Stable w ((w.freeSem vn.semvSemnum m.id).freeVnode v) := by
  refine stable_freeVnode rfl fun u un huv hu => ?_
  have hne : un.semvSemnum ≠ vn.semvSemnum := by
    intro he
    have hroot := h.sems.ne_root hn
    have hpu : vnodePtr w.vnode u = some vn.semvSemnum :=
      (vnodePtr_eq hu).trans ((semnumOf_some (he ▸ hroot)).trans (congrArg some he))
    exact huv (h.loads.inj u v _ hpu ((vnodePtr_eq hv).trans (semnumOf_some hroot)))
  simp [freeVnode, freeSem, hne]

end SemfsView

/-! ### What the calls do -/

namespace Semfs

/-- The invariant of a semfs. -/
structure Good (held : ℕ → ℕ) (s : Semfs) : Prop where
  inv : s.view.Inv held
  keys : (s.semfsVnodes.map SemfsVnode.id).Nodup
  small : s.semfsSems.length ≤ semfsRootdir

variable {s : Semfs} {held : ℕ → ℕ} {n v : ℕ} {m : SemEntry} {vn : SemfsVnode} {E : Errno → Semfs → Prop}

theorem view_setVnodes (f : SemfsVnode → SemfsVnode) (hf : ∀ a, (f a).id = a.id) :
    ({ s with semfsVnodes := Keyed.modify SemfsVnode.id v f s.semfsVnodes } : Semfs).view =
      { s.view with vnode := Function.update s.vnode v ((s.vnode v).map f) } := by
  unfold view vnode
  rw [Keyed.get_modify hf]
  rfl

theorem view_setSem (x : Option SemEntry) (h : n < s.semfsSems.length) :
    ({ s with semfsSems := s.semfsSems.set n x } : Semfs).view = { s.view with sem := Function.update s.sem n x } := by
  unfold view sem
  rw [SlotTable.slot_set x h]
  rfl

theorem semarrayGet_wp {Q : SemEntry → Semfs → Prop} (h : s.sem n = some m) :
    Prog.wp (semarrayGet n) Q E s ↔ Q m s := by
  unfold semarrayGet
  rw [Prog.wp_bind, Prog.wp_get, h]
  rfl

theorem semInsert_wp {Q : ℕ → Semfs → Prop} : Prog.wp (semInsert m) Q E s ↔
    (s.semfsSems.length = semfsRootdir → E .enospc s) ∧ (s.semfsSems.length ≠ semfsRootdir →
      Q s.semfsSems.firstEmpty { s with semfsSems := s.semfsSems.put s.semfsSems.firstEmpty m }) := by
  unfold semInsert
  rw [Prog.wp_bind, Prog.wp_get, Prog.wp_ite]
  rfl

theorem lt_length (h : s.sem n = some m) : n < s.semfsSems.length := SlotTable.lt_length_of_slot h

/-- A vnode's count changes, with the references held. -/
theorem Good.setRefcount {c : ℕ} {f : SemfsVnode → SemfsVnode} (h : s.Good held) (hv : s.vnode v = some vn)
    (hf : ∀ a, (f a).id = a.id) (hc : f vn = { vn with vnRefcount := c }) (hpos : 0 < c) :
    Good (Function.update held v c) { s with semfsVnodes := Keyed.modify SemfsVnode.id v f s.semfsVnodes } ∧
      ({ s with semfsVnodes := Keyed.modify SemfsVnode.id v f s.semfsVnodes } : Semfs).view = s.view.setRefcount v vn c := by
  have hview : ({ s with semfsVnodes := Keyed.modify SemfsVnode.id v f s.semfsVnodes } : Semfs).view =
      s.view.setRefcount v vn c := by
    rw [view_setVnodes f hf, hv, Option.map_some, hc]
    rfl
  refine ⟨⟨?_, ?_, h.small⟩, hview⟩
  · rw [hview]
    exact h.inv.setRefcount hv hpos
  · show (List.map SemfsVnode.id (Keyed.modify SemfsVnode.id v f s.semfsVnodes)).Nodup
    rw [Keyed.map_modify hf]
    exact h.keys

/-- What a call that hands out a vnode of semaphore `n` has done. -/
structure Handed (held : ℕ → ℕ) (s : Semfs) (n v : ℕ) (t : Semfs) : Prop where
  good : t.Good (Function.update held v (held v + 1))
  semnum : ∃ vn, t.vnode v = some vn ∧ vn.semvSemnum = n
  stable : s.view.Stable t.view

theorem vnodeIncref_wp (h : s.Good held) (hv : s.vnode v = some vn) :
    Prog.wp (vnodeIncref v) (fun _ => Handed held s vn.semvSemnum v) E s := by
  unfold vnodeIncref
  rw [Prog.wp_modify]
  have hc : ({ vn with vnRefcount := vn.vnRefcount + 1 } : SemfsVnode) = { vn with vnRefcount := held v + 1 } := by
    rw [(h.inv.vnodes.refs v vn hv).2]
  obtain ⟨hg, hview⟩ := h.setRefcount hv (f := fun w => { w with vnRefcount := w.vnRefcount + 1 }) (fun _ => rfl) hc
    (Nat.succ_pos _)
  refine ⟨hg, ⟨{ vn with vnRefcount := held v + 1 }, ?_, rfl⟩, ?_⟩
  · exact (congrFun (congrArg SemfsView.vnode hview) v).trans (Function.update_self _ _ _)
  · rw [hview]
    exact SemfsView.stable_setRefcount hv

/-- The vnode that `semfs_getvnode` finds. -/
theorem Good.found (h : s.Good held) (hf : s.semfsVnodes.find? (fun w => w.semvSemnum = n) = some vn) :
    s.vnode vn.id = some vn ∧ vn.semvSemnum = n :=
  ⟨Keyed.get_of_mem h.keys (List.mem_of_find?_eq_some hf), by simpa using List.find?_some hf⟩

/-- It finds none. -/
theorem not_found (hf : s.semfsVnodes.find? (fun w => w.semvSemnum = n) = none) (hv : s.vnode v = some vn) :
    vn.semvSemnum ≠ n := by
  have := List.find?_eq_none.mp hf vn (Keyed.mem_of_get hv)
  simpa using this

/-- A semaphore without a vnode is not marked. -/
theorem Good.hasvnode_false (h : s.Good held) (hf : s.semfsVnodes.find? (fun w => w.semvSemnum = n) = none)
    (hn : s.sem n = some m) : m.semsHasvnode = false := by
  by_contra hm
  rw [Bool.not_eq_false] at hm
  obtain ⟨u, hu⟩ := h.inv.loads.onto n ((semHasvnode_eq hn).trans hm)
  have hu' : semnumOf (s.vnode u) = some n := hu
  cases hv : s.vnode u with
  | none => rw [hv] at hu'; cases hu'
  | some un =>
    rw [hv] at hu'
    by_cases hroot : un.semvSemnum = semfsRootdir
    · rw [semnumOf_root hroot] at hu'
      cases hu'
    · rw [semnumOf_some hroot] at hu'
      exact not_found hf hv (Option.some.inj hu')

/-- A new vnode in the table. -/
def addVnode (n : ℕ) (s : Semfs) : Semfs :=
  { s with vnodeHeap := s.vnodeHeap.alloc, semfsVnodes := s.semfsVnodes ++ [⟨s.vnodeHeap.next, n, 1⟩] }

theorem view_addVnode (hfresh : s.vnode s.vnodeHeap.next = none) : (s.addVnode n).view = s.view.newVnode n := by
  have hkey : SemfsVnode.id ⟨s.vnodeHeap.next, n, 1⟩ ∉ s.semfsVnodes.map SemfsVnode.id := Keyed.get_eq_none_iff.mp hfresh
  show SemfsView.mk s.sem s.dent (Keyed.get SemfsVnode.id (s.semfsVnodes ++ [⟨s.vnodeHeap.next, n, 1⟩])) _ _ _ = _
  rw [Keyed.get_append hkey]
  rfl

theorem keys_addVnode (hk : (s.semfsVnodes.map SemfsVnode.id).Nodup) (hfresh : s.vnode s.vnodeHeap.next = none) :
    ((s.addVnode n).semfsVnodes.map SemfsVnode.id).Nodup :=
  Keyed.nodup_append hk (Keyed.get_eq_none_iff.mp hfresh)

theorem getvnode_root (hf : s.semfsVnodes.find? (fun w => w.semvSemnum = semfsRootdir) = none) :
    Prog.wp (getvnode semfsRootdir) (fun v t => v = s.vnodeHeap.next ∧ t = s.addVnode semfsRootdir) E s := by
  unfold getvnode
  rw [Prog.wp_bind, Prog.wp_get, hf]
  exact ⟨rfl, rfl⟩

theorem getvnode_new (hf : s.semfsVnodes.find? (fun w => w.semvSemnum = n) = none) (hn : s.sem n = some m)
    (hroot : n ≠ semfsRootdir) (hm : m.semsHasvnode = false) :
    Prog.wp (getvnode n) (fun v t => v = s.vnodeHeap.next ∧ t = { s.addVnode n with
      semfsSems := s.semfsSems.set n (some { m with semsHasvnode := true }) }) E s := by
  have hsem : (s.addVnode n).sem n = some m := hn
  unfold getvnode
  rw [Prog.wp_bind, Prog.wp_get, hf]
  show Prog.wp (if n ≠ semfsRootdir then _ else _) _ _ (s.addVnode n)
  rw [if_pos hroot, Prog.wp_bind, semarrayGet_wp hsem, Prog.wp_bind, Prog.wp_assert]
  exact ⟨hm, rfl, rfl⟩

theorem Good.fresh (h : s.Good held) : s.vnode s.vnodeHeap.next = none := h.inv.vnodes.fresh

theorem Good.held_fresh (h : s.Good held) : held s.vnodeHeap.next = 0 := by
  by_contra hne
  obtain ⟨vn, hv⟩ := (h.inv.vnodes.held s.vnodeHeap.next).mp (Nat.pos_of_ne_zero hne)
  have hnone : s.view.vnode s.vnodeHeap.next = none := h.fresh
  rw [hnone] at hv
  cases hv

/-- What `semfs_getvnode` and `semfs_creat` leave when they make a vnode. -/
theorem Good.handed_new {t : Semfs} {w : SemfsView} (h : s.Good held) (hw : t.view = w.newVnode n)
    (hheap : w.vnodeHeap = s.vnodeHeap) (hinv : (w.newVnode n).Inv (Function.update held s.vnodeHeap.next 1))
    (hkeys : t.semfsVnodes = (s.addVnode n).semfsVnodes) (hsmall : t.semfsSems.length ≤ semfsRootdir)
    (hst : s.view.Stable (w.newVnode n)) : Handed held s n s.vnodeHeap.next t := by
  refine ⟨⟨?_, ?_, hsmall⟩, ⟨⟨s.vnodeHeap.next, n, 1⟩, ?_, rfl⟩, ?_⟩
  · rw [hw, h.held_fresh]
    exact hinv
  · rw [hkeys]
    exact keys_addVnode h.keys h.fresh
  · refine (congrFun (congrArg SemfsView.vnode hw) _).trans ?_
    show Function.update w.vnode w.vnodeHeap.next (some ⟨w.vnodeHeap.next, n, 1⟩) s.vnodeHeap.next = _
    rw [hheap, Function.update_self]
  · rw [hw]
    exact hst

/-- **`semfs_getvnode`** hands out the vnode of a semaphore or of the root. -/
theorem getvnode_wp (h : s.Good held) (hn : n = semfsRootdir ∨ ∃ m, s.sem n = some m) :
    Prog.wp (getvnode n) (Handed held s n) E s := by
  cases hf : s.semfsVnodes.find? (fun w => w.semvSemnum = n) with
  | some vn =>
    obtain ⟨hv, hsem⟩ := h.found hf
    unfold getvnode
    rw [Prog.wp_bind, Prog.wp_get, hf]
    show Prog.wp (vnodeIncref vn.id >>= fun _ => pure vn.id) _ _ s
    rw [Prog.wp_bind]
    exact Prog.wp_mono (vnodeIncref_wp h hv) (fun _ t ht => hsem ▸ ht) fun _ _ he => he
  | none =>
    rcases hn with rfl | ⟨m, hm⟩
    · refine Prog.wp_mono (getvnode_root hf) (fun v t ht => ?_) fun _ _ he => he
      obtain ⟨rfl, rfl⟩ := ht
      refine h.handed_new (w := s.view) (view_addVnode h.fresh) rfl h.inv.loadRoot rfl h.small ?_
      exact h.inv.stable_newVnode rfl fun _ _ _ => rfl
    · have hroot : n ≠ semfsRootdir := h.inv.sems.ne_root hm
      have hfalse := h.hasvnode_false hf hm
      refine Prog.wp_mono (getvnode_new hf hm hroot hfalse) (fun v t ht => ?_) fun _ _ he => he
      obtain ⟨rfl, rfl⟩ := ht
      refine h.handed_new (w := s.view.setSem n { m with semsHasvnode := true }) ?_ rfl (h.inv.load hm hfalse) rfl ?_ ?_
      · have hview := view_setSem (s := s.addVnode n) (some { m with semsHasvnode := true }) (lt_length hm)
        rw [view_addVnode h.fresh] at hview
        exact hview
      · exact (List.length_set).trans_le h.small
      · exact h.inv.stable_newVnode rfl fun u un _ => SemfsView.map_id_setSem (w := s.view) (p := { m with semsHasvnode := true }) hm rfl _

/-! ### Names -/

theorem findDent_some {name : String} {t : SlotTable SemfsDirentry} {i : ℕ} {d : SemfsDirentry}
    (h : findDent name t = some (i, d)) : t.slot i = some d ∧ d.semdName = name := by
  obtain ⟨j, -, hj⟩ := List.exists_of_findSome?_eq_some h
  cases hs : t.slot j with
  | none => simp [hs] at hj
  | some e =>
    simp only [hs, Option.ite_none_right_eq_some, Option.some.injEq, Prod.mk.injEq] at hj
    obtain ⟨hname, rfl, rfl⟩ := hj
    exact ⟨hs, hname⟩

theorem findDent_none {name : String} {t : SlotTable SemfsDirentry} (h : findDent name t = none) {i : ℕ}
    {d : SemfsDirentry} (hi : t.slot i = some d) : d.semdName ≠ name := by
  have hn := List.findSome?_eq_none_iff.mp h i (List.mem_range.mpr (SlotTable.lt_length_of_slot hi))
  simpa [hi] using hn

/-- A directory entry links a semaphore. -/
theorem Good.sem_of_dent {i : ℕ} {d : SemfsDirentry} (h : s.Good held) (hi : s.dent i = some d) :
    ∃ m, s.sem d.semdSemnum = some m ∧ m.semsLinked = true := by
  have hl : semLinked s.sem d.semdSemnum = true := h.inv.links.hit i _ (dentPtr_eq hi)
  cases hm : s.sem d.semdSemnum with
  | none =>
    rw [semLinked_eq hm] at hl
    cases hl
  | some m => exact ⟨m, rfl, (semLinked_eq hm).symm.trans hl⟩

/-- A vnode that is not the root's has a semaphore. -/
theorem Good.sem_of_vnode (h : s.Good held) (hv : s.vnode v = some vn) (hroot : vn.semvSemnum ≠ semfsRootdir) :
    ∃ m, s.sem vn.semvSemnum = some m ∧ m.semsHasvnode = true := by
  have hl : semHasvnode s.sem vn.semvSemnum = true := (h.inv.root_or_hasvnode hv).resolve_left hroot
  cases hm : s.sem vn.semvSemnum with
  | none =>
    rw [semHasvnode_eq hm] at hl
    cases hl
  | some m => exact ⟨m, rfl, (semHasvnode_eq hm).symm.trans hl⟩

/-- What a call that hands out nothing has done. -/
structure Left (held : ℕ → ℕ) (s t : Semfs) : Prop where
  good : t.Good held
  stable : s.view.Stable t.view

theorem Left.refl (h : s.Good held) : Left held s s := ⟨h, SemfsView.Stable.refl _⟩

/-- The state in which `semfs_creat` has a semaphore and an entry for it. -/
def addEntry (name : String) (s : Semfs) : Semfs :=
  { s with
    semHeap := s.semHeap.alloc
    semfsSems := s.semfsSems.put s.semfsSems.firstEmpty ⟨s.semHeap.next, false, false⟩
    dentHeap := s.dentHeap.alloc
    semfsDents := s.semfsDents.put s.semfsDents.firstEmpty ⟨s.dentHeap.next, name, s.semfsSems.firstEmpty⟩ }

theorem view_addEntry (name : String) : (s.addEntry name).view =
    (s.view.newSem s.semfsSems.firstEmpty false false).newDent s.semfsDents.firstEmpty name s.semfsSems.firstEmpty := by
  show SemfsView.mk (SlotTable.slot (SlotTable.put s.semfsSems _ _)) (SlotTable.slot (SlotTable.put s.semfsDents _ _)) _ _ _ _ = _
  rw [SlotTable.slot_put, SlotTable.slot_put]
  rfl

/-- No vnode is one of a free semaphore number. -/
theorem Good.no_vnode (h : s.Good held) (hn : s.sem n = none) (hroot : n ≠ semfsRootdir) :
    s.semfsVnodes.find? (fun w => w.semvSemnum = n) = none := by
  cases hf : s.semfsVnodes.find? (fun w => w.semvSemnum = n) with
  | none => rfl
  | some vn =>
    obtain ⟨hv, rfl⟩ := h.found hf
    rcases h.inv.root_or_hasvnode hv with hr | hr
    · exact absurd hr hroot
    · rw [semHasvnode_eq (show s.view.sem vn.semvSemnum = none from hn)] at hr
      cases hr

/-- What `semfs_creat` has done when it made a semaphore. -/
structure Created (held : ℕ → ℕ) (s : Semfs) (v : ℕ) (t : Semfs) : Prop where
  handed : ∃ n, Handed held s n v t
  vnode : v = s.vnodeHeap.next
  sem : t.view.semOf v = some s.semHeap.next

/-- The state that `semfs_creat` leaves. -/
def linkEntry (name : String) (s : Semfs) : Semfs :=
  { (s.addEntry name).addVnode s.semfsSems.firstEmpty with
    semfsSems := (s.addEntry name).semfsSems.set s.semfsSems.firstEmpty (some ⟨s.semHeap.next, true, true⟩) }

theorem view_linkEntry (name : String) (hfresh : s.vnode s.vnodeHeap.next = none)
    (hlt : s.semfsSems.firstEmpty < (s.addEntry name).semfsSems.length) : (s.linkEntry name).view =
      ((s.view.newSem s.semfsSems.firstEmpty true true).newDent s.semfsDents.firstEmpty name
        s.semfsSems.firstEmpty).newVnode s.semfsSems.firstEmpty := by
  have hview := view_setSem (s := (s.addEntry name).addVnode s.semfsSems.firstEmpty) (some ⟨s.semHeap.next, true, true⟩) hlt
  rw [view_addVnode (s := s.addEntry name) hfresh, view_addEntry] at hview
  refine hview.trans ?_
  have hsem : ((s.addEntry name).addVnode s.semfsSems.firstEmpty).sem =
      Function.update s.sem s.semfsSems.firstEmpty (some ⟨s.semHeap.next, false, false⟩) :=
    congrArg SemfsView.sem (view_addEntry name)
  rw [hsem, Function.update_idem]
  rfl

/-- `semfs_creat` from where the name has not been found. -/
theorem creat_new_run {name : String} (h : s.Good held) (hlen : s.semfsSems.length ≠ semfsRootdir) :
    Prog.wp (do
      let vn ← getvnode s.semfsSems.firstEmpty
      let sem ← semarrayGet s.semfsSems.firstEmpty
      semarraySet s.semfsSems.firstEmpty (some { sem with semsLinked := true })
      pure vn) (fun v t => v = s.vnodeHeap.next ∧ t = s.linkEntry name) E (s.addEntry name) := by
  set n := s.semfsSems.firstEmpty with hndef
  have hle : n ≤ s.semfsSems.length := SlotTable.firstEmpty_le _
  have hsmall := h.small
  have hroot : n ≠ semfsRootdir := by omega
  have hsem : (s.addEntry name).sem n = some ⟨s.semHeap.next, false, false⟩ :=
    (congrFun (congrArg SemfsView.sem (view_addEntry name)) n).trans (Function.update_self _ _ _)
  rw [Prog.wp_bind]
  refine Prog.wp_mono (getvnode_new (h.no_vnode (SlotTable.slot_firstEmpty _) hroot) hsem hroot rfl) (fun v t ht => ?_)
    fun _ _ he => he
  obtain ⟨rfl, rfl⟩ := ht
  have hsem2 : ({ (s.addEntry name).addVnode n with
      semfsSems := (s.addEntry name).semfsSems.set n (some ⟨s.semHeap.next, true, false⟩) } : Semfs).sem n =
      some ⟨s.semHeap.next, true, false⟩ :=
    (congrFun (SlotTable.slot_set _ (lt_length hsem)) n).trans (Function.update_self _ _ _)
  rw [Prog.wp_bind, semarrayGet_wp hsem2]
  show _ ∧ ({ (s.addEntry name).addVnode n with
      semfsSems := ((s.addEntry name).semfsSems.set n (some ⟨s.semHeap.next, true, false⟩)).set n
        (some ⟨s.semHeap.next, true, true⟩) } : Semfs) = s.linkEntry name
  rw [List.set_set]
  exact ⟨rfl, rfl⟩

/-- The new semaphore is in the table. -/
theorem lt_addEntry (name : String) : s.semfsSems.firstEmpty < (s.addEntry name).semfsSems.length :=
  lt_length ((congrFun (congrArg SemfsView.sem (view_addEntry name)) _).trans (Function.update_self _ _ _))

theorem Good.created {name : String} (h : s.Good held) (hname : ∀ i d, s.dent i = some d → d.semdName ≠ name)
    (hlen : s.semfsSems.length ≠ semfsRootdir) : Created held s s.vnodeHeap.next (s.linkEntry name) := by
  set n := s.semfsSems.firstEmpty with hndef
  have hn : s.sem n = none := SlotTable.slot_firstEmpty _
  have hle : n ≤ s.semfsSems.length := SlotTable.firstEmpty_le _
  have hsmall := h.small
  have hroot : n ≠ semfsRootdir := by omega
  have hview := view_linkEntry name h.fresh (lt_addEntry name)
  have hinv := h.inv.create name (i := s.semfsDents.firstEmpty) hn hroot (SlotTable.slot_firstEmpty _) hname
  refine ⟨⟨n, h.handed_new hview rfl hinv rfl ?_ (h.inv.stable_create hn hroot)⟩, rfl, ?_⟩
  · have hput := SlotTable.length_put_le (t := s.semfsSems) (i := n) (⟨s.semHeap.next, false, false⟩ : SemEntry)
    refine (List.length_set).trans_le (hput.trans ?_)
    omega
  · rw [hview, SemfsView.semOf_eq (Function.update_self _ _ _)]
    show Option.map SemEntry.id (Function.update s.sem n _ n) = _
    rw [Function.update_self]
    rfl

/-- **`semfs_creat` of a new name.** -/
theorem creat_wp_new {name : String} (h : s.Good held) (hname : ∀ i d, s.dent i = some d → d.semdName ≠ name)
    (excl : Bool) : Prog.wp (creat name excl) (Created held s) (fun _ t => Left held s t) s := by
  have hf : findDent name s.semfsDents = none := by
    cases hf : findDent name s.semfsDents with
    | none => rfl
    | some p => exact absurd (findDent_some hf).2 (hname p.1 p.2 (findDent_some hf).1)
  unfold creat
  rw [Prog.wp_ite]
  refine ⟨fun _ => Left.refl h, fun _ => ?_⟩
  rw [Prog.wp_bind, Prog.wp_get, hf]
  unfold semCreate
  simp only [Prog.wp_bind, Prog.wp_get, Prog.wp_modify, Prog.wp_pure, Prog.wp_attempt]
  refine semInsert_wp.mpr ⟨fun hlen => ?_, fun hlen => ?_⟩
  · -- the table of semaphores is full
    show Left held s { s with semHeap := s.semHeap.alloc.free s.semHeap.next }
    exact ⟨⟨h.inv.refused, h.keys, h.small⟩, fun _ _ _ => rfl⟩
  · have hcreated : ∀ v t, (v = s.vnodeHeap.next ∧ t = s.linkEntry name) → Created held s v t := by
      rintro v t ⟨rfl, rfl⟩
      exact h.created hname hlen
    have hnew : Prog.wp _ (Created held s) (fun _ t => Left held s t) _ :=
      Prog.wp_mono (creat_new_run h hlen) hcreated fun _ _ he => he
    simp only [Prog.wp_bind, Prog.wp_pure] at hnew
    exact hnew

/-- **`semfs_creat`.** -/
theorem creat_wp (h : s.Good held) (name : String) (excl : Bool) :
    Prog.wp (creat name excl) (fun v t => ∃ n, Handed held s n v t) (fun _ t => Left held s t) s := by
  cases hf : findDent name s.semfsDents with
  | none => exact Prog.wp_mono (creat_wp_new h (fun _ _ => findDent_none hf) excl) (fun _ _ ht => ht.handed) fun _ _ he => he
  | some p =>
    obtain ⟨m, hm, -⟩ := h.sem_of_dent (findDent_some hf).1
    unfold creat
    rw [Prog.wp_ite]
    refine ⟨fun _ => Left.refl h, fun _ => ?_⟩
    rw [Prog.wp_bind, Prog.wp_get, hf]
    show Prog.wp (if excl = true then _ else _) _ _ s
    rw [Prog.wp_ite]
    refine ⟨fun _ => Left.refl h, fun _ => ?_⟩
    exact Prog.wp_mono (getvnode_wp h (Or.inr ⟨m, hm⟩)) (fun _ _ ht => ⟨_, ht⟩) fun _ _ he => he

/-- **`semfs_lookup`.** -/
theorem lookup_wp (h : s.Good held) (hv : s.vnode v = some vn) (path : String) :
    Prog.wp (lookup v path) (fun u t => ∃ n, Handed held s n u t) (fun _ t => Left held s t) s := by
  unfold lookup
  rw [Prog.wp_ite]
  refine ⟨fun _ => ?_, fun _ => ?_⟩
  · rw [Prog.wp_bind]
    exact Prog.wp_mono (vnodeIncref_wp h hv) (fun _ _ ht => ⟨_, ht⟩) fun _ _ he => he
  · rw [Prog.wp_bind, Prog.wp_get]
    cases hf : findDent path s.semfsDents with
    | none => exact Left.refl h
    | some p =>
      obtain ⟨m, hm, -⟩ := h.sem_of_dent (findDent_some hf).1
      exact Prog.wp_mono (getvnode_wp h (Or.inr ⟨m, hm⟩)) (fun _ _ ht => ⟨_, ht⟩) fun _ _ he => he

theorem view_unlink {i : ℕ} (x : Option SemEntry) (sh dh : ObjHeap) (hn : n < s.semfsSems.length)
    (hi : i < s.semfsDents.length) :
    (⟨s.semfsVnodes, s.semfsSems.set n x, s.semfsDents.set i none, sh, dh, s.vnodeHeap⟩ : Semfs).view =
      ⟨Function.update s.sem n x, Function.update s.dent i none, s.vnode, sh, dh, s.vnodeHeap⟩ := by
  show SemfsView.mk (SlotTable.slot (s.semfsSems.set n x)) (SlotTable.slot (s.semfsDents.set i none)) _ _ _ _ = _
  rw [SlotTable.slot_set _ hn, SlotTable.slot_set _ hi]
  rfl

/-- **`semfs_remove`.** -/
theorem remove_wp (h : s.Good held) (name : String) :
    Prog.wp (remove name) (fun _ t => Left held s t) (fun _ t => Left held s t) s := by
  unfold remove
  rw [Prog.wp_ite]
  refine ⟨fun _ => Left.refl h, fun _ => ?_⟩
  rw [Prog.wp_bind, Prog.wp_get]
  cases hf : findDent name s.semfsDents with
  | none => exact Left.refl h
  | some p =>
    obtain ⟨i, d⟩ := p
    obtain ⟨hi, -⟩ := findDent_some hf
    obtain ⟨m, hm, hlinked⟩ := h.sem_of_dent hi
    have hlt := lt_length hm
    have hidx : i < s.semfsDents.length := SlotTable.lt_length_of_slot hi
    show Prog.wp (semarrayGet d.semdSemnum >>= _) _ _ s
    rw [Prog.wp_bind, semarrayGet_wp hm, Prog.wp_bind, Prog.wp_assert]
    refine ⟨hlinked, ?_⟩
    by_cases hvn : m.semsHasvnode = false
    · rw [if_pos hvn]
      simp only [Prog.wp_bind, Prog.wp_modify, semarraySet, semDestroy, direntryDestroy, List.set_set]
      have hview := view_unlink none (s.semHeap.free m.id) (s.dentHeap.free d.id) hlt hidx
      refine ⟨⟨?_, h.keys, (List.length_set).trans_le h.small⟩, ?_⟩
      · rw [hview]
        exact h.inv.unlinkFree hi hm hvn
      · rw [hview]
        exact h.inv.stable_unlinkFree hm hvn d.id
    · rw [if_neg hvn]
      simp only [Prog.wp_bind, Prog.wp_modify, semarraySet, direntryDestroy]
      have hview := view_unlink (some { m with semsLinked := false }) s.semHeap (s.dentHeap.free d.id) hlt hidx
      refine ⟨⟨?_, h.keys, (List.length_set).trans_le h.small⟩, ?_⟩
      · rw [hview]
        exact h.inv.unlink hi hm (Bool.not_eq_false _ ▸ hvn)
      · rw [hview]
        refine SemfsView.Stable.of_eq fun u un hu _ => ⟨un, hu, rfl, ?_⟩
        exact SemfsView.map_id_setSem (w := s.view) (p := { m with semsLinked := false }) hm rfl _

theorem view_unload (x : SlotTable SemEntry) (sh vh : ObjHeap) (hk : (s.semfsVnodes.map SemfsVnode.id).Nodup) :
    (⟨Keyed.remove SemfsVnode.id v s.semfsVnodes, x, s.semfsDents, sh, s.dentHeap, vh⟩ : Semfs).view =
      ⟨x.slot, s.dent, Function.update s.vnode v none, sh, s.dentHeap, vh⟩ := by
  show SemfsView.mk _ _ (Keyed.get SemfsVnode.id (Keyed.remove SemfsVnode.id v s.semfsVnodes)) _ _ _ = _
  rw [Keyed.get_remove hk]
  rfl

/-- What a call that takes back a reference to `v` has done. -/
structure Released (held : ℕ → ℕ) (s : Semfs) (v : ℕ) (t : Semfs) : Prop where
  good : t.Good (Function.update held v (held v - 1))
  stable : s.view.Stable t.view

/-- **`semfs_reclaim`**, called with the last reference. -/
theorem reclaim_wp (h : s.Good held) (hv : s.vnode v = some vn) (hlast : vn.vnRefcount = 1) :
    Prog.wp (reclaim vn) (fun _ => Released held s v) E s := by
  obtain ⟨hid, href⟩ := h.inv.vnodes.refs v vn hv
  have hheld : held v - 1 = 0 := by omega
  subst hid
  unfold reclaim
  rw [if_neg (by omega), Prog.wp_bind, Prog.wp_modify]
  have hkeys : ((Keyed.remove SemfsVnode.id vn.id s.semfsVnodes).map SemfsVnode.id).Nodup := Keyed.nodup_remove h.keys
  by_cases hroot : vn.semvSemnum = semfsRootdir
  · rw [if_neg (not_not.mpr hroot)]
    simp only [Prog.wp_bind, Prog.wp_modify, vnodeDestroy, Prog.wp_assert]
    have hview := view_unload (v := vn.id) s.semfsSems s.semHeap (s.vnodeHeap.free vn.id) h.keys
    refine ⟨hlast, ⟨?_, hkeys, h.small⟩, ?_⟩
    · rw [hview, hheld]
      exact h.inv.unloadRoot hv hroot
    · rw [hview]
      exact SemfsView.stable_freeVnode (v := vn.id) rfl fun _ _ _ _ => rfl
  · rw [if_pos hroot]
    obtain ⟨m, hm, hvn⟩ := h.sem_of_vnode hv hroot
    have hlt := lt_length hm
    have hm' : ({ s with semfsVnodes := Keyed.remove SemfsVnode.id vn.id s.semfsVnodes } : Semfs).sem vn.semvSemnum =
        some m := hm
    rw [Prog.wp_bind, semarrayGet_wp hm', Prog.wp_bind, Prog.wp_assert]
    refine ⟨hvn, ?_⟩
    by_cases hl : m.semsLinked = false
    · rw [if_pos hl]
      simp only [Prog.wp_bind, Prog.wp_modify, semarraySet, semDestroy, vnodeDestroy, Prog.wp_assert, List.set_set]
      have hview := view_unload (v := vn.id) (s.semfsSems.set vn.semvSemnum none) (s.semHeap.free m.id)
        (s.vnodeHeap.free vn.id) h.keys
      rw [SlotTable.slot_set _ hlt] at hview
      refine ⟨hlast, ⟨?_, hkeys, (List.length_set).trans_le h.small⟩, ?_⟩
      · rw [hview, hheld]
        exact h.inv.unloadFree hv hm hl
      · rw [hview]
        exact h.inv.stable_unloadFree hv hm
    · rw [if_neg hl]
      simp only [Prog.wp_bind, Prog.wp_modify, semarraySet, vnodeDestroy, Prog.wp_assert]
      have hview := view_unload (v := vn.id) (s.semfsSems.set vn.semvSemnum (some { m with semsHasvnode := false }))
        s.semHeap (s.vnodeHeap.free vn.id) h.keys
      rw [SlotTable.slot_set _ hlt] at hview
      refine ⟨hlast, ⟨?_, hkeys, (List.length_set).trans_le h.small⟩, ?_⟩
      · rw [hview, hheld]
        exact h.inv.unload hv hm (Bool.not_eq_false _ ▸ hl)
      · rw [hview]
        refine SemfsView.stable_freeVnode (v := vn.id) rfl fun u un _ _ => ?_
        exact SemfsView.map_id_setSem (w := s.view) (p := { m with semsHasvnode := false }) hm rfl _

/-- **`vnode_decref`** of a vnode that is held. -/
theorem vnodeDecref_wp (h : s.Good held) (hv : 0 < held v) : Prog.wp (vnodeDecref v) (fun _ => Released held s v) E s := by
  obtain ⟨vn, hvn⟩ := (h.inv.vnodes.held v).mp hv
  obtain ⟨hid, href⟩ := h.inv.vnodes.refs v vn hvn
  have hvn' : s.vnode v = some vn := hvn
  unfold vnodeDecref
  rw [Prog.wp_bind, Prog.wp_get, hvn']
  show Prog.wp (Prog.assert (0 < vn.vnRefcount) >>= _) _ _ s
  rw [Prog.wp_bind, Prog.wp_assert]
  refine ⟨by omega, ?_⟩
  rw [Prog.wp_ite]
  refine ⟨fun hgt => ?_, fun hle => ?_⟩
  · unfold vnodeDrop
    rw [Prog.wp_modify]
    have hc : ({ vn with vnRefcount := vn.vnRefcount - 1 } : SemfsVnode) = { vn with vnRefcount := held v - 1 } := by
      rw [href]
    obtain ⟨hg, hview⟩ := h.setRefcount hvn' (f := fun w => { w with vnRefcount := w.vnRefcount - 1 }) (fun _ => rfl) hc
      (by omega)
    refine ⟨hg, ?_⟩
    rw [hview]
    exact SemfsView.stable_setRefcount hvn'
  · rw [Prog.wp_bind, Prog.wp_attempt]
    exact Prog.wp_mono (reclaim_wp (E := fun _ _ => False) h hvn' (by omega)) (fun _ _ ht => ht) fun _ _ he => he.elim

end Semfs

/-! ### Runs -/

theorem Semfs.create_good : Semfs.create.Good fun _ => 0 where
  inv :=
    { links := Referenced.empty (fun _ => rfl) fun _ => rfl
      loads := Referenced.empty (fun _ => rfl) fun _ => rfl
      sems := ⟨fun _ _ h => (by cases h), rfl, Owned.empty fun _ => rfl⟩
      dents := ⟨fun _ _ _ _ h => (by cases h), Owned.empty fun _ => rfl⟩
      vnodes := ⟨fun _ _ h => (by cases h),
        fun _ => ⟨fun h => absurd h (Nat.lt_irrefl 0), fun ⟨_, h⟩ => (by cases h)⟩, Owned.empty fun _ => rfl⟩ }
  keys := List.nodup_nil
  small := Nat.zero_le _

variable {s : SemfsState}

/-- **One call** keeps the invariant, and every vnode its semaphore. -/
theorem SemfsCall.run_wp (c : SemfsCall) (h : s.fs.Good s.held) (hpre : c.Pre s) :
    Prog.wp c.run (fun r t => t.Good (c.held s.held r) ∧ s.fs.view.Stable t.view) (fun _ t => Semfs.Left s.held s.fs t)
      s.fs := by
  cases c with
  | getroot =>
    show Prog.wp (Semfs.getvnode semfsRootdir >>= _) _ _ s.fs
    rw [Prog.wp_bind]
    exact Prog.wp_mono (Semfs.getvnode_wp h (Or.inl rfl)) (fun _ _ ht => ⟨ht.good, ht.stable⟩) fun _ _ he => he
  | creat d name excl =>
    show Prog.wp (Semfs.creat name excl >>= _) _ _ s.fs
    rw [Prog.wp_bind]
    refine Prog.wp_mono (Semfs.creat_wp h name excl) (fun _ _ ht => ?_) fun _ _ he => he
    obtain ⟨n, ht⟩ := ht
    exact ⟨ht.good, ht.stable⟩
  | lookup d path =>
    obtain ⟨-, vn, hv, -⟩ := hpre
    show Prog.wp (Semfs.lookup d path >>= _) _ _ s.fs
    rw [Prog.wp_bind]
    refine Prog.wp_mono (Semfs.lookup_wp h hv path) (fun _ _ ht => ?_) fun _ _ he => he
    obtain ⟨n, ht⟩ := ht
    exact ⟨ht.good, ht.stable⟩
  | remove d name =>
    show Prog.wp (Semfs.remove name >>= _) _ _ s.fs
    rw [Prog.wp_bind]
    exact Prog.wp_mono (Semfs.remove_wp h name) (fun _ _ ht => ⟨ht.good, ht.stable⟩) fun _ _ he => he
  | release v =>
    show Prog.wp (Semfs.vnodeDecref v >>= _) _ _ s.fs
    rw [Prog.wp_bind]
    exact Prog.wp_mono (Semfs.vnodeDecref_wp h hpre) (fun _ _ ht => ⟨ht.good, ht.stable⟩) fun _ _ he => he

theorem SemfsCalled.good {c : SemfsCall} {t : SemfsState} (hst : SemfsCalled s c t) (h : s.fs.Good s.held) :
    t.fs.Good t.held ∧ s.fs.view.Stable t.fs.view := by
  cases hst with
  | ok hpre hr =>
    have hok := Prog.wp_ok (c.run_wp h hpre) hr
    exact hok
  | error hpre hr =>
    have hl := Prog.wp_failed (c.run_wp h hpre) hr
    exact ⟨hl.good, hl.stable⟩

theorem FreedOnce.of_owned {ptr : ℕ → Option ℕ} {heap : ObjHeap} (h : Owned ptr heap.next heap.freed) : FreedOnce ptr heap where
  place := h.inj
  live i id hi := ⟨h.ledger.lt_next id ⟨i, hi⟩, (h.ledger.count_freed (h.ledger.lt_next id ⟨i, hi⟩)).1 ⟨i, hi⟩⟩
  dead _ hlt hno := (h.ledger.count_freed hlt).2 fun ⟨i, hi⟩ => hno i hi

theorem SemfsState.linkedBy_iff {n i : ℕ} : s.LinkedBy n i ↔ dentPtr s.fs.dent i = some n :=
  Option.map_eq_some_iff.symm

theorem SemfsState.loadedBy_iff {n v : ℕ} (hn : n ≠ semfsRootdir) : s.LoadedBy n v ↔ vnodePtr s.fs.vnode v = some n := by
  show _ ↔ ((s.fs.vnode v).map SemfsVnode.semvSemnum).filter (· ≠ semfsRootdir) = some n
  rw [Option.filter_eq_some_iff, Option.map_eq_some_iff]
  simp [SemfsState.LoadedBy, hn]

/-- The semaphore behind a vnode is not one that is still to be allocated. -/
theorem Semfs.Good.semOf_ne_next {held : ℕ → ℕ} {fs : Semfs} (h : fs.Good held) (u : ℕ) :
    fs.view.semOf u ≠ some fs.semHeap.next := by
  intro hu
  obtain ⟨vn, -, hm⟩ := Option.bind_eq_some_iff.mp hu
  exact h.inv.sems.sems.fresh vn.semvSemnum hm

/-- A new semaphore is none of those held open. -/
theorem Semfs.Good.creat_fresh {held : ℕ → ℕ} {fs t : Semfs} {v : ℕ} (h : fs.Good held) (hc : Semfs.Created held fs v t) :
    ∃ id, t.view.semOf v = some id ∧ fs.semHeap.next ≤ id ∧
      ∀ u, 0 < held u → u ≠ v ∧ t.view.semOf u = fs.view.semOf u ∧ t.view.semOf u ≠ some id := by
  refine ⟨fs.semHeap.next, hc.sem, le_rfl, fun u hu => ?_⟩
  obtain ⟨n, ht⟩ := hc.handed
  have huv : u ≠ v := by
    rintro rfl
    rw [hc.vnode, h.held_fresh] at hu
    exact Nat.lt_irrefl 0 hu
  have hu' : 0 < Function.update held v (held v + 1) u := by
    rw [Function.update_of_ne huv]
    exact hu
  have hsame : t.view.semOf u = fs.view.semOf u :=
    ht.stable u (Option.ne_none_iff_exists'.mpr ((h.inv.vnodes.held u).mp hu))
      (Option.ne_none_iff_exists'.mpr ((ht.good.inv.vnodes.held u).mp hu'))
  exact ⟨huv, hsame, hsame ▸ h.semOf_ne_next u⟩

/-- The invariant says all that is asked. -/
theorem Semfs.Good.exact (h : s.fs.Good s.held) : s.Exact := by
  have hlinks : Referenced (dentPtr s.fs.dent) (semLinked s.fs.sem) := h.inv.links
  have hloads : Referenced (vnodePtr s.fs.vnode) (semHasvnode s.fs.sem) := h.inv.loads
  have hlinked : ∀ n, (semLinked s.fs.sem n = true ↔ ∃! i, s.LinkedBy n i) ∧
      (semLinked s.fs.sem n = false ↔ ∀ i, ¬ s.LinkedBy n i) := by
    intro n
    simp only [SemfsState.linkedBy_iff]
    exact hlinks.marks n
  have hloaded : ∀ n, n ≠ semfsRootdir → (semHasvnode s.fs.sem n = true ↔ ∃! v, s.LoadedBy n v) ∧
      (semHasvnode s.fs.sem n = false ↔ ∀ v, ¬ s.LoadedBy n v) := by
    intro n hn
    simp only [SemfsState.loadedBy_iff hn]
    exact hloads.marks n
  refine ⟨fun n hn => ⟨fun hsome => ?_, fun hor => ?_⟩, fun n m hm => ?_, fun n m hm => ?_, h.inv.dents.names, ?_, ?_,
    .of_owned h.inv.sems.sems, .of_owned h.inv.dents.dents, .of_owned h.inv.vnodes.vnodes,
    fun c hpre => Prog.wp_ne_stop (c.run_wp h hpre)⟩
  · obtain ⟨m, hm⟩ := Option.isSome_iff_exists.mp hsome
    have hroot : n ≠ semfsRootdir := h.inv.sems.ne_root hm
    rcases h.inv.sems.kept n m hm with hl | hv
    · exact Or.inl ((hlinked n).1.mp ((semLinked_eq hm).trans hl))
    · exact Or.inr ((hloaded n hroot).1.mp ((semHasvnode_eq hm).trans hv)).exists
  · have hroot : n ≠ semfsRootdir := by
      have := h.small
      omega
    cases hm : s.fs.sem n with
    | some m => rfl
    | none =>
      rcases hor with hl | ⟨v, hv⟩
      · have := (hlinked n).1.mpr hl
        rw [semLinked_eq hm] at this
        cases this
      · exact absurd hv ((hloaded n hroot).2.mp (semHasvnode_eq hm) v)
  · have he : semLinked s.fs.sem n = m.semsLinked := semLinked_eq hm
    rw [← he]
    exact hlinked n
  · have he : semHasvnode s.fs.sem n = m.semsHasvnode := semHasvnode_eq hm
    rw [← he]
    exact hloaded n (h.inv.sems.ne_root hm)
  · intro name excl v t hname hr
    exact h.creat_fresh (Prog.wp_ok (Semfs.creat_wp_new h hname excl) hr)
  · intro c t hst u hu hu'
    obtain ⟨ht, hstable⟩ := hst.good h
    exact hstable u (Option.ne_none_iff_exists'.mpr ((h.inv.vnodes.held u).mp hu))
      (Option.ne_none_iff_exists'.mpr ((ht.inv.vnodes.held u).mp hu'))

end Os161
