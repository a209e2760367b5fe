/-
# References to vnodes

The calls on paths over a file system that keeps count: what hands out a vnode
adds a reference to it, and what fails adds none. No call leaves a reference
behind, on any of its error paths, but those of the open files and the one of
the current directory (`references_kept`).
-/
import Os161.Lib.Account
import Os161.Vfs.Path

namespace Os161

open Prog

variable {σ V F : Type} [DecidableEq V]

/-- The reference that a pointer holds. -/
def held (o : Option V) : V → ℤ := fun v => o.toList.count v

/-- One reference to `v`. -/
abbrev one (v : V) : V → ℤ := held (some v)

/-- The references but that of `p_cwd`. -/
def Kernel.loose (refs : σ → V → ℤ) (s : Kernel σ V F) : V → ℤ := refs s.fss - held s.pCwd

abbrev Gains {α : Type} (refs : σ → V → ℤ) (m : Prog Errno (Kernel σ V F) α) (g : α → V → ℤ) (e : V → ℤ) : Prop :=
  Adds (Kernel.loose refs) m g e

/-- **A file system that keeps count** of the references: `refs` are the `vn_refcount`s. -/
structure VnodeOps.Counts (ops : VnodeOps σ V F) (refs : σ → V → ℤ) : Prop where
  incref : ∀ v, Adds refs (ops.incref v) (fun _ => one v) (one v)
  decref : ∀ v, Adds refs (ops.decref v) (fun _ => -one v) (-one v)
  getroot : ∀ f, Adds refs (ops.getroot f) one 0
  lookup : ∀ v path, Adds refs (ops.lookup v path) one 0
  lookparent : ∀ v path buflen, Adds refs (ops.lookparent v path buflen) (fun x => one x.1) 0
  creat : ∀ v name excl mode, Adds refs (ops.creat v name excl mode) one 0
  gettype : ∀ v, Adds refs (ops.gettype v) (fun _ => 0) 0
  eachopen : ∀ v openflags, Adds refs (ops.eachopen v openflags) (fun _ => 0) 0
  truncate : ∀ v len, Adds refs (ops.truncate v len) (fun _ => 0) 0
  link : ∀ dir name file, Adds refs (ops.link dir name file) (fun _ => 0) 0
  remove : ∀ dir name, Adds refs (ops.remove dir name) (fun _ => 0) 0
  rename : ∀ d₁ n₁ d₂ n₂, Adds refs (ops.rename d₁ n₁ d₂ n₂) (fun _ => 0) 0

section Counts

variable {ops : VnodeOps σ V F} {refs : σ → V → ℤ}

theorem adds_fs {α : Type} {m : Prog Errno σ α} {g : α → V → ℤ} {e : V → ℤ} (hm : Adds refs m g e) :
    Gains refs (Kernel.fs m : Prog Errno (Kernel σ V F) α) g e := by
  intro s
  rw [Kernel.wlp_fs]
  refine wlp_mono (hm s.fss) (fun a t ht => ?_) fun _ t ht => ?_ <;> simp only [Kernel.loose, ht] <;> abel

variable (h : ops.Counts refs)

include h

theorem adds_vopIncref (v : V) (e : V → ℤ) : Gains refs (vopIncref ops v) (fun _ => one v) e := by
  intro s
  rw [vopIncref, wlp_bind, wlp_attempt]
  exact adds_fs (h.incref v) s

theorem adds_vopDecref (v : V) (e : V → ℤ) : Gains refs (vopDecref ops v) (fun _ => -one v) e := by
  intro s
  rw [vopDecref, wlp_bind, wlp_attempt]
  exact adds_fs (h.decref v) s

/-- A reference to the vnode that a pointer of the kernel leads to. -/
theorem adds_share (o : Option V) : Gains refs (match o with
    | some v => do
      vopIncref ops v
      pure v
    | none => fail .enoent : Prog Errno (Kernel σ V F) V) one 0 := by
  cases o with
  | none => exact adds_fail rfl
  | some v => exact (adds_vopIncref h v 0).bind fun _ => adds_pure (add_neg_cancel _)

/-- Two references are given back after a call. -/
theorem adds_release {m : Prog Errno (Kernel σ V F) Unit} (v w : V) (hm : Gains refs m (fun _ => 0) 0) :
    Gains refs (Prog.ensure m (vopDecref ops w >>= fun _ => vopDecref ops v))
      (fun _ => 0 + -one v + -one w) (0 + -one v + -one w) := by
  have hr (e : V → ℤ) : Gains refs (vopDecref ops w >>= fun _ => vopDecref ops v)
      (fun _ => -one v + -one w) e :=
    (adds_vopDecref h w e).bind fun _ => (adds_vopDecref h v _).congr (fun _ => by abel) rfl
  exact (hm.ensure hr).congr (fun _ => by abel) (by abel)

theorem adds_getdevice (path : CStr) : Gains refs (getdevice ops path) (fun x => one x.2) 0 := by
  have hroot (name : CStr) : Gains refs (vfsGetrootVnode ops name) one 0 := by
    refine adds_gets fun kds => ?_
    split
    · exact adds_fs (h.getroot _)
    · exact adds_share h (some _)
    · exact adds_fail rfl
    · exact fun _ => trivial
  have hcwd : Gains refs (vfsGetcurdir ops) one 0 := adds_gets fun o => adds_share h o
  have hcur : Gains refs (curdirRoot ops) one 0 := by
    refine hcwd.bind fun vn => ?_
    split
    · exact fun _ => trivial
    · exact (adds_fs (h.getroot _)).ensure (adds_vopDecref h vn)
  have hboot : Gains refs (bootfsRoot ops) one 0 := adds_gets fun o => adds_share h o
  have hpair {m : Prog Errno (Kernel σ V F) V} (hm : Gains refs m one 0) (p : CStr) :
      Gains refs (m >>= fun v => pure (p, v)) (fun x => one x.2) 0 :=
    hm.bind fun v => adds_pure (add_neg_cancel (one v))
  unfold getdevice
  dsimp only
  split_ifs
  · exact adds_fail rfl
  · exact hpair hcwd _
  · exact hpair (hroot _) _
  · exact hpair hboot _
  · exact hpair hcur _

theorem adds_vfsLookparent (path : CStr) (n : ℕ) :
    Gains refs (vfsLookparent ops path n) (fun x => one x.1) 0 := by
  refine (adds_getdevice h path).bind fun x => Adds.ensure ?_ (adds_vopDecref h x.2)
  split
  · exact adds_fail rfl
  · exact adds_fs (h.lookparent _ _ _)

theorem adds_vfsLookup (path : CStr) : Gains refs (vfsLookup ops path) one 0 := by
  refine (adds_getdevice h path).bind fun x => ?_
  split
  · exact adds_pure (add_neg_cancel _)
  · exact (adds_fs (h.lookup _ _)).ensure (adds_vopDecref h x.2)

theorem adds_vfsOpen (path : CStr) (openflags mode : UInt32) :
    Gains refs (vfsOpen ops path openflags mode) one 0 := by
  have hvn : Gains refs (vfsOpenVnode ops path openflags mode) one 0 := by
    unfold vfsOpenVnode
    split
    · exact (adds_vfsLookparent h path _).bind fun x => (adds_fs (h.creat _ _ _ _)).ensure (adds_vopDecref h x.1)
    · exact adds_vfsLookup h path
  have htrunc (vn : V) : Gains refs (vfsOpenTrunc ops openflags vn) (fun _ => 0) 0 := by
    unfold vfsOpenTrunc
    split_ifs
    · exact adds_fail rfl
    · exact adds_fs (h.truncate vn 0)
    · exact adds_pure rfl
  unfold vfsOpen
  split
  · exact adds_fail rfl
  · refine hvn.bind fun vn => ((adds_fs (h.eachopen vn openflags)).onFail (adds_vopDecref h vn)).andThen fun _ => ?_
    exact ((htrunc vn).onFail (adds_vopDecref h vn)).andThen fun _ => adds_pure (add_neg_cancel _)

theorem adds_vfsSetcurdir (dir : V) : Gains refs (vfsSetcurdir ops dir) (fun _ => 0) 0 := by
  refine (adds_fs (h.gettype dir)).andThen fun vtype => ?_
  split
  · exact adds_fail rfl
  -- the new directory takes over the reference, and the old one's is given up
  · refine (adds_vopIncref h dir 0).bind fun _ s => ?_
    simp only [wlp_bind, wlp_gets, wlp_modify]
    cases hp : s.pCwd with
    | none => simp only [wlp_pure, Kernel.loose, hp, show held (none : Option V) = 0 from rfl]; abel
    | some v =>
      refine wlp_mono (adds_vopDecref h v (-one v) _) (fun a t ht => ht.trans ?_) fun _ t ht => ht.trans ?_ <;>
        simp only [Kernel.loose, hp] <;> abel

end Counts

/-! ### Whole runs -/

/-- The calls on paths. -/
inductive PathCall
  | open (path : CStr) (openflags mode : UInt32)
  | remove (path : CStr)
  | rename (oldpath newpath : CStr)
  | link (oldpath newpath : CStr)
  | chdir (path : CStr)

variable [DecidableEq F] (ops : VnodeOps σ V F)

/-- A call, with the vnode of the file if it opens one. -/
def PathCall.exec : PathCall → Prog Errno (Kernel σ V F) (Option V)
  | .open path openflags mode => vfsOpen ops path openflags mode >>= fun v => pure (some v)
  | .remove path => vfsRemove ops path >>= fun _ => pure none
  | .rename oldpath newpath => vfsRename ops oldpath newpath >>= fun _ => pure none
  | .link oldpath newpath => vfsLink ops oldpath newpath >>= fun _ => pure none
  | .chdir path => vfsChdir ops path >>= fun _ => pure none

/-- `vfs_close`. -/
def vfsClose (vn : V) : Prog Errno (Kernel σ V F) Unit := vopDecref ops vn

/-- **Calls one after the other**, whatever each of them gives, and the files that are open. -/
inductive PathRun (s : Kernel σ V F) : Kernel σ V F → List V → Prop
  | start : PathRun s s []
  | ok {t u l o} (h : PathRun s t l) (c : PathCall) (hrun : c.exec ops t = .ok o u) : PathRun s u (o.toList ++ l)
  | fail {t u l e} (h : PathRun s t l) (c : PathCall) (hrun : c.exec ops t = .fail e u) : PathRun s u l
  | close {t u l v} (h : PathRun s t l) (hv : v ∈ l) (hrun : vfsClose ops v t = .ok () u) : PathRun s u (l.erase v)

variable {ops} {refs : σ → V → ℤ}

theorem PathCall.adds_exec (h : ops.Counts refs) (c : PathCall) : Gains refs (c.exec ops) held 0 := by
  have hnone {m : Prog Errno (Kernel σ V F) Unit} (hm : Gains refs m (fun _ => 0) 0) :
      Gains refs (m >>= fun _ => pure none) held 0 := hm.andThen fun _ => adds_pure rfl
  cases c with
  | «open» path openflags mode => exact (adds_vfsOpen h _ _ _).bind fun v => adds_pure (add_neg_cancel (one v))
  | remove path =>
    refine hnone ((adds_vfsLookparent h path _).bind fun x => ?_)
    exact (adds_fs (h.remove _ _)).ensure (adds_vopDecref h x.1)
  | rename oldpath newpath =>
    refine hnone ((adds_vfsLookparent h oldpath _).bind fun x => ?_)
    refine ((adds_vfsLookparent h newpath _).onFail (adds_vopDecref h x.1)).bind fun y => adds_release h x.1 y.1 ?_
    split
    · exact adds_fs (h.rename _ _ _ _)
    · exact adds_fail rfl
  | link oldpath newpath =>
    refine hnone ((adds_vfsLookup h oldpath).bind fun x => ?_)
    refine ((adds_vfsLookparent h newpath _).onFail (adds_vopDecref h x)).bind fun y => adds_release h x y.1 ?_
    split
    · exact adds_fs (h.link _ _ _)
    · exact adds_fail rfl
  | chdir path =>
    refine hnone ((adds_vfsLookup h path).bind fun vn => ?_)
    exact (adds_vfsSetcurdir h vn).ensure (adds_vopDecref h vn)

/-- **No call leaves a reference behind**: apart from the current directory, each
vnode has as many more references than at the start as there are open files of it. -/
theorem references_kept (h : ops.Counts refs) {s t : Kernel σ V F} {l : List V} (hrun : PathRun ops s t l) (v : V) :
    t.loose refs v = s.loose refs v + l.count v := by
  induction hrun with
  | start => simp
  | @ok t u l o _ c hc ih =>
    rw [(wlp_ok hc).mp (c.adds_exec h t), Pi.add_apply, ih, List.count_append]
    simp only [held]
    omega
  | fail _ c hc ih =>
    rw [(wlp_fail_run hc).mp (c.adds_exec h _), add_zero, ih]
  | @close t u l w _ hw hc ih =>
    have hcount := (List.perm_cons_erase hw).count_eq v
    rw [← List.singleton_append, List.count_append] at hcount
    rw [(wlp_ok hc).mp (adds_vopDecref h w 0 t), Pi.add_apply, ih]
    simp only [held, Pi.neg_apply, Option.toList]
    omega

/-- A file system with nothing but a root directory. -/
def countedRoot : VnodeOps (Unit → ℤ) Unit Unit where
  vnFs _ := some ()
  kdVnode _ := ()
  incref v := Prog.modify (· + one v)
  decref v := Prog.modify (· - one v)
  volname _ := none
  getroot _ := Prog.modify (· + one ())
  lookup _ _ := fail .enoent
  lookparent _ _ _ := fail .enoent
  eachopen _ _ := pure ()
  gettype _ := pure sIfdir
  truncate _ _ := fail .einval
  creat _ _ _ _ := fail .einval
  link _ _ _ := fail .einval
  remove _ _ := fail .einval
  rename _ _ _ _ := fail .einval

theorem countedRoot_counts : countedRoot.Counts id := by
  constructor <;> intros <;> intro s <;> simp [countedRoot, sub_eq_add_neg]

/-- It is mounted on the device `a`. -/
def mountedRoot : Kernel (Unit → ℤ) Unit Unit := ⟨0, [⟨[97], none, some (), 0, .fs ()⟩], none, none⟩

theorem references_kept_root : ∃ t, PathRun countedRoot mountedRoot t [()] ∧
    t.loose id () = mountedRoot.loose id () + 1 := by
  have hrun : PathRun countedRoot mountedRoot { mountedRoot with fss := 0 + one () } [()] :=
    .ok (o := some ()) .start (.open [97, colon] 0 0) rfl
  exact ⟨_, hrun, references_kept countedRoot_counts hrun ()⟩

end Os161
