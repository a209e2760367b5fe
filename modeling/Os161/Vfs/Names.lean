/-
# Device names

An entry of the device table answers to its device name, its raw name and the
name of the volume mounted on it. `vfs_doadd` checks a new entry's names
against all of these (`badnames`); `vfs_mount` brings in a volume name without
a check. So the names stay unambiguous exactly as long as no volume that is
mounted has a name of another entry (`vfs_names_run`).
-/
import Os161.Vfs.Vfslist
import Os161.Lib.Run

namespace Os161

variable {F D : Type} [FsOps F]

/-! ### Names -/

/-- `n` is the device name, the raw name or the mounted volume's name of the
entry. -/
def Knowndev.Named (kd : Knowndev F D) (n : CStr) : Prop :=
  kd.kdName = n ∨ kd.kdRawname = some n ∨ kd.kdFs.volname = some n

/-- The entries have no name in common. -/
def Knowndev.Apart (a b : Knowndev F D) : Prop := ∀ n, a.Named n → ¬ b.Named n

theorem Knowndev.Apart.symm {a b : Knowndev F D} (h : a.Apart b) : b.Apart a := fun n hb ha => h n ha hb

/-- No string is a name of two different entries. -/
def Unambiguous (kds : List (Knowndev F D)) : Prop := kds.Pairwise Knowndev.Apart

/-- An entry answers to its names only. -/
theorem Knowndev.named_of_answer {kd : Knowndev F D} {n : CStr} {r : Outcome Errno Unit (Root F)}
    (h : kd.answer n = some r) : kd.Named n := by
  by_contra hn
  unfold Named at hn
  obtain ⟨h1, h2, h3⟩ : kd.kdName ≠ n ∧ kd.kdRawname ≠ some n ∧ kd.kdFs.volname ≠ some n := by tauto
  unfold answer at h
  cases hf : kd.kdFs with
  | fs f =>
    have h4 : FsOps.volname f ≠ some n := by rwa [hf] at h3
    simp [hf, h1, h2, h4] at h
  | none => simp [hf, h1, h2] at h
  | swap => simp [hf, h1, h2] at h

/-- In an unambiguous table the answer is that of the one entry that has it. -/
theorem findSome?_answer {kds : List (Knowndev F D)} (h : Unambiguous kds) {n : CStr}
    {r : Outcome Errno Unit (Root F)} :
    kds.findSome? (Knowndev.answer n) = some r ↔ ∃ kd ∈ kds, kd.answer n = some r := by
  induction kds with
  | nil => simp
  | cons kd rest ih =>
    obtain ⟨hkd, hrest⟩ := List.pairwise_cons.mp h
    rw [List.findSome?_cons]
    cases ha : kd.answer n with
    | none => simp [ih hrest, ha]
    | some r' =>
      -- the later entries do not answer
      have hlater : ∀ x ∈ rest, ∀ r, x.answer n ≠ some r := fun x hx r hr =>
        hkd x hx n (Knowndev.named_of_answer ha) (Knowndev.named_of_answer hr)
      simp only [List.mem_cons, exists_eq_or_imp, ha]
      constructor
      · exact Or.inl
      · rintro (h | ⟨x, hx, hr⟩)
        · exact h
        · exact absurd hr (hlater x hx r)

/-- **The order of an unambiguous table does not matter** to `vfs_getroot`. -/
theorem vfsGetroot_perm {kds kds' : List (Knowndev F D)} (h : Unambiguous kds) (hp : kds'.Perm kds) (n : CStr) :
    vfsGetroot n kds' = vfsGetroot n kds := by
  have h' : Unambiguous kds' := (hp.pairwise_iff fun hab => hab.symm).mpr h
  have hsame : kds'.findSome? (Knowndev.answer n) = kds.findSome? (Knowndev.answer n) := by
    ext r
    rw [findSome?_answer h', findSome?_answer h]
    constructor
    · rintro ⟨kd, hkd, hr⟩
      exact ⟨kd, hp.mem_iff.mp hkd, hr⟩
    · rintro ⟨kd, hkd, hr⟩
      exact ⟨kd, hp.mem_iff.mpr hkd, hr⟩
  unfold vfsGetroot
  rw [hsame]

omit [FsOps F] in
theorem samestring_iff {a : Option CStr} {n : Option CStr} : samestring a n = true ↔ ∃ x, a = some x ∧ n = some x := by
  unfold samestring
  cases a with
  | none => simp
  | some x =>
    simp only [Option.isSome_some, Bool.true_and, beq_iff_eq]
    constructor
    · intro h
      exact ⟨x, rfl, h.symm⟩
    · rintro ⟨y, hx, hn⟩
      exact hx.trans hn.symm

/-- A new entry that `badnames` lets pass has no name in common with the table. -/
theorem apart_of_badnames {kds : List (Knowndev F D)} {new : Knowndev F D}
    (h : badnames (some new.kdName) new.kdRawname new.kdFs.volname kds = false) : ∀ kd ∈ kds, kd.Apart new := by
  intro kd hkd n hn hnew
  unfold badnames at h
  rw [List.any_eq_false] at h
  have hno := h kd hkd
  -- a name of the old entry that is one of the new entry's is what `samestring3` looks for
  have hsame : ∀ a, a = some n → samestring3 a (some new.kdName) new.kdRawname new.kdFs.volname = true := by
    intro a ha
    simp only [samestring3, Bool.or_eq_true, samestring_iff]
    rcases hnew with h1 | h1 | h1
    · exact Or.inl (Or.inl ⟨n, ha, by rw [h1]⟩)
    · exact Or.inl (Or.inr ⟨n, ha, h1⟩)
    · exact Or.inr ⟨n, ha, h1⟩
  apply hno
  simp only [Bool.or_eq_true]
  rcases hn with h1 | h1 | h1
  · exact Or.inr (Or.inr (hsame _ (by rw [h1])))
  · exact Or.inr (Or.inl (hsame _ h1))
  · exact Or.inl (hsame _ h1)

/-! ### Operations -/

/-- A call that changes the table, with the results of the file system's own
operations. -/
inductive VfsOp (F D : Type)
  | adddev (devname : CStr) (dev : D) (mountable : Bool)
  | addfs (devname : CStr) (fs : F)
  | mount (devname : CStr) (mountfunc : D → Except Errno F)
  | unmount (devname : CStr) (rsync runmount : Except Errno Unit)
  | swapon (devname : CStr)
  | swapoff (devname : CStr)

/-- The call. -/
def VfsOp.run : VfsOp F D → Prog Errno (Vfs F D) Unit
  | .adddev devname dev mountable => vfsAdddev devname dev mountable
  | .addfs devname fs => vfsAddfs devname fs
  | .mount devname mountfunc => vfsMount devname mountfunc
  | .unmount devname rsync runmount => vfsUnmount devname rsync runmount
  | .swapon devname => vfsSwapon devname
  | .swapoff devname => vfsSwapoff devname

/-- A call returns, successfully or not. -/
def VfsStep (s : Vfs F D) (op : VfsOp F D) (t : Vfs F D) : Prop :=
  op.run s = .ok () t ∨ ∃ e, op.run s = .fail e t

/-- A file system that the call mounts has no name of another entry. -/
def NoClash (s : Vfs F D) : VfsOp F D → Prop
  | .mount devname mountfunc => ∀ x dev f, findmount devname s.knowndevs = some x → x.2.1.kdFs = .none →
      x.2.1.kdDevice = some dev → mountfunc dev = .ok f →
      ∀ n, FsOps.volname f = some n → ∀ kd ∈ x.1 ++ x.2.2, ¬ kd.Named n
  | _ => True

omit [FsOps F] in
/-- What can be mounted on has a device. -/
def Mountable (kds : List (Knowndev F D)) : Prop := ∀ kd ∈ kds, kd.kdRawname.isSome → kd.kdDevice.isSome

/-- What a call does to the table: nothing, a new entry that passed
`badnames`, an entry without a volume (any more), or a mount. -/
inductive VfsEffect (s : Vfs F D) (op : VfsOp F D) (t : Vfs F D) : Prop
  | same (hop : NoClash s op) (h : t.knowndevs = s.knowndevs)
  | added (hop : NoClash s op) (new : Knowndev F D) (hdev : new.kdRawname.isSome → new.kdDevice.isSome)
      (hnames : badnames (some new.kdName) new.kdRawname new.kdFs.volname s.knowndevs = false)
      (h : t.knowndevs = s.knowndevs ++ [new])
  | dropped (hop : NoClash s op) (pre : List (Knowndev F D)) (kd : Knowndev F D) (post : List (Knowndev F D))
      (fs : KdFs F) (hs : s.knowndevs = pre ++ kd :: post) (hfs : fs.volname = none)
      (h : t.knowndevs = pre ++ { kd with kdFs := fs } :: post)
  | mounted (pre : List (Knowndev F D)) (kd : Knowndev F D) (post : List (Knowndev F D)) (f : F)
      (hs : s.knowndevs = pre ++ kd :: post)
      (hop : NoClash s op ↔ ∀ n, FsOps.volname f = some n → ∀ x ∈ pre ++ post, ¬ x.Named n)
      (h : t.knowndevs = pre ++ { kd with kdFs := .fs f } :: post)

omit [FsOps F] in
theorem findmount_eq {devname : CStr} {kds : List (Knowndev F D)}
    {x : List (Knowndev F D) × Knowndev F D × List (Knowndev F D)} (h : findmount devname kds = some x) :
    kds = x.1 ++ x.2.1 :: x.2.2 ∧ x.2.1.kdRawname.isSome := by
  induction kds generalizing x with
  | nil => cases h
  | cons kd rest ih =>
    unfold findmount at h
    split_ifs at h with hkd
    · cases h
      exact ⟨rfl, hkd.1⟩
    · obtain ⟨y, hy, rfl⟩ := Option.map_eq_some_iff.mp h
      obtain ⟨h1, h2⟩ := ih hy
      exact ⟨congrArg (kd :: ·) h1, h2⟩

omit [FsOps F] in
@[simp] theorem Vfs.wp_kmalloc {Q : Unit → Vfs F D → Prop} {E : Errno → Vfs F D → Prop} {s : Vfs F D} :
    Prog.wp Vfs.kmalloc Q E s ↔
      (s.kmallocs 0 = true → Q () { s with kmallocs := fun i => s.kmallocs (i + 1) }) ∧
      (¬ s.kmallocs 0 = true → E .enomem { s with kmallocs := fun i => s.kmallocs (i + 1) }) := by
  unfold Prog.wp Vfs.kmalloc
  by_cases h : s.kmallocs 0 = true <;> simp [h]

omit [FsOps F] in
theorem findmountM_wp (devname : CStr) {Q : _ → Vfs F D → Prop} {E : Errno → Vfs F D → Prop} {s : Vfs F D}
    (hE : findmount devname s.knowndevs = none → E .enodev s) (hQ : ∀ x, findmount devname s.knowndevs = some x → Q x s) :
    Prog.wp (findmountM devname) Q E s := by
  unfold Prog.wp findmountM
  cases hf : findmount devname s.knowndevs with
  | none => exact hE hf
  | some x => exact hQ x hf

/-- **`vfs_doadd`** adds an entry that passed `badnames`, or nothing. -/
theorem vfsDoadd_wp {s : Vfs F D} {op : VfsOp F D} (hop : NoClash s op) (dname : CStr) (mountable : Bool)
    (dev : Option D) (fs : KdFs F) (hdev : mountable = true → dev.isSome) :
    Prog.wp (vfsDoadd dname mountable dev fs) (fun _ => VfsEffect s op) (fun _ => VfsEffect s op) s := by
  have hfail : ∀ (t : Vfs F D), t.knowndevs = s.knowndevs → VfsEffect s op t := fun t ht => .same hop ht
  unfold vfsDoadd
  cases mountable with
  | false =>
    simp only [Prog.wp_bind, Vfs.wp_kmalloc, Prog.wp_gets, Prog.wp_modify, Prog.wp_ite, Prog.wp_fail, Prog.wp_pure,
      Bool.false_eq_true, if_false]
    refine ⟨fun _ => ⟨fun _ => ⟨fun _ => ⟨fun _ => hfail _ rfl, fun hbad => ⟨fun _ => ?_, fun _ => hfail _ rfl⟩⟩,
      fun _ => hfail _ rfl⟩, fun _ => hfail _ rfl⟩, fun _ => hfail _ rfl⟩
    exact .added hop ⟨dname, none, dev, s.vnodes, fs⟩ (fun h => by cases h) (by simpa using hbad) rfl
  | true =>
    simp only [Prog.wp_bind, Vfs.wp_kmalloc, Prog.wp_gets, Prog.wp_modify, Prog.wp_ite, Prog.wp_fail, if_true]
    refine ⟨fun _ => ⟨fun _ => ⟨fun _ => ⟨fun _ => ⟨fun _ => hfail _ rfl, fun hbad => ⟨fun _ => ?_,
      fun _ => hfail _ rfl⟩⟩, fun _ => hfail _ rfl⟩, fun _ => hfail _ rfl⟩, fun _ => hfail _ rfl⟩, fun _ => hfail _ rfl⟩
    exact .added hop ⟨dname, some (mkrawname dname), dev, s.vnodes, fs⟩ (fun _ => hdev rfl) (by simpa using hbad) rfl

omit [FsOps F] in
/-- An entry that `findmount` finds has a device. -/
theorem device_of_findmount {s : Vfs F D} (hs : Mountable s.knowndevs) {devname : CStr}
    {x : List (Knowndev F D) × Knowndev F D × List (Knowndev F D)} (hx : findmount devname s.knowndevs = some x) :
    ∃ dev, x.2.1.kdDevice = some dev := by
  obtain ⟨heq, hraw⟩ := findmount_eq hx
  refine Option.isSome_iff_exists.mp (hs x.2.1 ?_ hraw)
  rw [heq]
  exact List.mem_append_right _ List.mem_cons_self

/-- **`vfs_mount`** mounts, or does nothing. -/
theorem vfsMount_wp {s : Vfs F D} (hs : Mountable s.knowndevs) (devname : CStr) (mountfunc : D → Except Errno F) :
    Prog.wp (vfsMount devname mountfunc) (fun _ => VfsEffect s (.mount devname mountfunc))
      (fun _ => VfsEffect s (.mount devname mountfunc)) s := by
  unfold vfsMount
  rw [Prog.wp_bind]
  refine findmountM_wp devname (fun hnone => ?_) fun x hx => ?_
  · refine .same (fun x _ _ hx => ?_) rfl
    rw [hnone] at hx
    cases hx
  · obtain ⟨heq, -⟩ := findmount_eq hx
    obtain ⟨dev, hdev⟩ := device_of_findmount hs hx
    -- an entry in use is not mounted on
    have hbusy : x.2.1.kdFs ≠ .none → VfsEffect s (.mount devname mountfunc) s := by
      intro hne
      refine .same (fun y _ _ hy hfs => ?_) rfl
      rw [hx] at hy
      cases hy
      exact absurd hfs hne
    cases hfs : x.2.1.kdFs with
    | swap => exact hbusy (by simp [hfs])
    | fs f => exact hbusy (by simp [hfs])
    | none =>
      simp only [hdev]
      cases hm : mountfunc dev with
      | error e =>
        refine .same (fun y d f hy _ hd hf => ?_) rfl
        rw [hx] at hy
        cases hy
        rw [hdev] at hd
        cases hd
        rw [hm] at hf
        cases hf
      | ok f =>
        refine .mounted x.1 x.2.1 x.2.2 f heq ⟨fun hop => hop x dev f hx hfs hdev hm, fun hall => ?_⟩ rfl
        intro y d f' hy _ hd hf
        rw [hx] at hy
        cases hy
        rw [hdev] at hd
        cases hd
        rw [hm] at hf
        cases hf
        exact hall

/-- **`vfs_swapon`** attaches swap, or does nothing. -/
theorem vfsSwaponName_wp {s t : Vfs F D} {op : VfsOp F D} (hop : NoClash s op) (ht : t.knowndevs = s.knowndevs)
    (hs : Mountable s.knowndevs) (devname : CStr) :
    Prog.wp (vfsSwaponName devname) (fun _ => VfsEffect s op) (fun _ => VfsEffect s op) t := by
  unfold vfsSwaponName
  rw [Prog.wp_bind]
  refine findmountM_wp devname (fun _ => .same hop ht) fun x hx => ?_
  obtain ⟨dev, hdev⟩ := device_of_findmount (ht ▸ hs) hx
  cases hfs : x.2.1.kdFs with
  | swap => exact .same hop ht
  | fs f => exact .same hop ht
  | none =>
    simp only [hdev]
    exact .dropped hop x.1 x.2.1 x.2.2 .swap (ht ▸ (findmount_eq hx).1) rfl rfl

theorem vfsSwapon_wp {s : Vfs F D} (hs : Mountable s.knowndevs) (devname : CStr) :
    Prog.wp (vfsSwapon devname) (fun _ => VfsEffect s (.swapon devname)) (fun _ => VfsEffect s (.swapon devname)) s := by
  have hop : NoClash s (.swapon devname) := trivial
  unfold vfsSwapon
  split_ifs
  · rw [Prog.wp_bind, Vfs.wp_kmalloc]
    exact ⟨fun _ => vfsSwaponName_wp hop (by rfl) hs _, fun _ => .same hop rfl⟩
  · exact vfsSwaponName_wp hop rfl hs _

/-- **`vfs_unmount`** drops the file system, or does nothing. -/
theorem vfsUnmount_wp {s : Vfs F D} (devname : CStr) (rsync runmount : Except Errno Unit) :
    Prog.wp (vfsUnmount devname rsync runmount) (fun _ => VfsEffect s (.unmount devname rsync runmount))
      (fun _ => VfsEffect s (.unmount devname rsync runmount)) s := by
  have hsame : VfsEffect s (.unmount devname rsync runmount) s := .same trivial rfl
  unfold vfsUnmount
  rw [Prog.wp_bind]
  refine findmountM_wp devname (fun _ => hsame) fun x hx => ?_
  cases hfs : x.2.1.kdFs with
  | none => exact hsame
  | swap => exact hsame
  | fs f =>
    cases rsync with
    | error e => exact hsame
    | ok _ =>
      cases runmount with
      | error e => exact hsame
      | ok _ => exact .dropped trivial x.1 x.2.1 x.2.2 .none (findmount_eq hx).1 rfl rfl

/-- **`vfs_swapoff`** detaches swap, or does nothing. -/
theorem vfsSwapoff_wp {s : Vfs F D} (devname : CStr) :
    Prog.wp (vfsSwapoff devname) (fun _ => VfsEffect s (.swapoff devname)) (fun _ => VfsEffect s (.swapoff devname)) s := by
  have hsame : VfsEffect s (.swapoff devname) s := .same trivial rfl
  unfold vfsSwapoff
  rw [Prog.wp_bind]
  refine findmountM_wp devname (fun _ => hsame) fun x hx => ?_
  cases hfs : x.2.1.kdFs with
  | none => exact hsame
  | fs f => exact hsame
  | swap => exact .dropped trivial x.1 x.2.1 x.2.2 .none (findmount_eq hx).1 rfl rfl

theorem VfsOp.run_wp {s : Vfs F D} (hs : Mountable s.knowndevs) (op : VfsOp F D) :
    Prog.wp op.run (fun _ => VfsEffect s op) (fun _ => VfsEffect s op) s := by
  cases op with
  | adddev devname dev mountable =>
    have hop : NoClash s (.adddev devname dev mountable) := trivial
    exact vfsDoadd_wp hop devname mountable (some dev) .none fun _ => rfl
  | addfs devname fs =>
    have hop : NoClash s (.addfs devname fs) := trivial
    exact vfsDoadd_wp hop devname false none (.fs fs) fun h => by cases h
  | mount devname mountfunc => exact vfsMount_wp hs devname mountfunc
  | unmount devname rsync runmount => exact vfsUnmount_wp devname rsync runmount
  | swapon devname => exact vfsSwapon_wp hs devname
  | swapoff devname => exact vfsSwapoff_wp devname

theorem VfsStep.effect {s t : Vfs F D} {op : VfsOp F D} (hs : Mountable s.knowndevs) (h : VfsStep s op t) :
    VfsEffect s op t := by
  rcases h with h | ⟨e, h⟩
  · exact Prog.wp_ok (Q := fun _ => VfsEffect s op) (op.run_wp hs) h
  · exact Prog.wp_failed (E := fun _ => VfsEffect s op) (op.run_wp hs) h

/-! ### Runs -/

theorem unambiguous_middle {pre post : List (Knowndev F D)} {kd : Knowndev F D} :
    Unambiguous (pre ++ kd :: post) ↔ (∀ x ∈ pre ++ post, kd.Apart x) ∧ Unambiguous (pre ++ post) :=
  (List.perm_middle.pairwise_iff fun hab => hab.symm).trans List.pairwise_cons

/-- **A call keeps the names unambiguous** exactly if what it mounts has no
name of another entry. -/
theorem VfsEffect.unambiguous_iff {s t : Vfs F D} {op : VfsOp F D} (hs : Unambiguous s.knowndevs)
    (h : VfsEffect s op t) : Unambiguous t.knowndevs ↔ NoClash s op := by
  cases h with
  | same hop h =>
    rw [h]
    exact iff_of_true hs hop
  | added hop new _ hnames h =>
    rw [h]
    refine iff_of_true ?_ hop
    refine List.pairwise_append.mpr ⟨hs, List.pairwise_singleton _ _, fun a ha b hb => ?_⟩
    rw [List.mem_singleton.mp hb]
    exact apart_of_badnames hnames a ha
  | dropped hop pre kd post fs heq hfs h =>
    rw [heq, unambiguous_middle] at hs
    rw [h]
    refine iff_of_true (unambiguous_middle.mpr ⟨fun x hx n hn => hs.1 x hx n ?_, hs.2⟩) hop
    rcases hn with h1 | h1 | h1
    · exact Or.inl h1
    · exact Or.inr (Or.inl h1)
    · rw [hfs] at h1
      cases h1
  | mounted pre kd post f heq hop h =>
    rw [heq, unambiguous_middle] at hs
    rw [h, hop, unambiguous_middle]
    constructor
    · intro ht n hn x hx
      exact ht.1 x hx n (Or.inr (Or.inr hn))
    · intro hall
      refine ⟨fun x hx n hn => ?_, hs.2⟩
      rcases hn with h1 | h1 | h1
      · exact hs.1 x hx n (Or.inl h1)
      · exact hs.1 x hx n (Or.inr (Or.inl h1))
      · exact hall n h1 x hx

theorem VfsEffect.mountable {s t : Vfs F D} {op : VfsOp F D} (hs : Mountable s.knowndevs) (h : VfsEffect s op t) :
    Mountable t.knowndevs := by
  -- an entry that only changed `kd_fs` is as mountable as before
  have hset : ∀ (pre post : List (Knowndev F D)) (kd : Knowndev F D) (fs : KdFs F),
      Mountable (pre ++ kd :: post) → Mountable (pre ++ { kd with kdFs := fs } :: post) := by
    intro pre post kd fs hm x hx
    rcases List.mem_append.mp hx with hx | hx
    · exact hm x (List.mem_append_left _ hx)
    · rcases List.mem_cons.mp hx with rfl | hx
      · exact hm kd (List.mem_append_right _ List.mem_cons_self)
      · exact hm x (List.mem_append_right _ (List.mem_cons_of_mem _ hx))
  cases h with
  | same hop h => rw [h]; exact hs
  | added hop new hdev _ h =>
    rw [h]
    intro x hx
    rcases List.mem_append.mp hx with hx | hx
    · exact hs x hx
    · rw [List.mem_singleton.mp hx]
      exact hdev
  | dropped hop pre kd post fs heq hfs h =>
    rw [h]
    exact hset pre post kd fs (heq ▸ hs)
  | mounted pre kd post f heq hop h =>
    rw [h]
    exact hset pre post kd (.fs f) (heq ▸ hs)

omit [FsOps F] in
/-- The empty table of `vfs_bootstrap`. -/
def vfsBootstrap (kmallocs : ℕ → Bool) : Vfs F D := ⟨[], 0, kmallocs⟩

theorem mountable_run {kmallocs : ℕ → Bool} {ops : List (VfsOp F D)} {s : Vfs F D}
    (h : Run VfsStep (vfsBootstrap kmallocs) ops s) : Mountable s.knowndevs := by
  refine Run.invariant (I := fun s => Mountable s.knowndevs) ?_ (fun _ _ _ hs hst => (hst.effect hs).mountable hs) h
  intro kd hkd
  cases hkd

/-- **Device names.** In every run whose mounts bring in no name of another
entry, no string names two entries, and `vfs_getroot` gives the same result
for every order of the table. From a table reached so far without an
ambiguity, a call leads to an ambiguous one exactly if it mounts a volume
with a name of another entry. -/
theorem vfs_names_run {kmallocs : ℕ → Bool} {ops : List (VfsOp F D)} {s : Vfs F D} :
    (Run (Restrict VfsStep NoClash) (vfsBootstrap kmallocs) ops s →
      Unambiguous s.knowndevs ∧
      ∀ kds', kds'.Perm s.knowndevs → ∀ n, vfsGetroot n kds' = vfsGetroot n s.knowndevs) ∧
    (Run VfsStep (vfsBootstrap kmallocs) ops s → Unambiguous s.knowndevs →
      ∀ op t, VfsStep s op t → (Unambiguous t.knowndevs ↔ NoClash s op)) := by
  constructor
  · intro h
    have hinv : Mountable s.knowndevs ∧ Unambiguous s.knowndevs := by
      refine Run.invariant (I := fun s => Mountable s.knowndevs ∧ Unambiguous s.knowndevs) ?_ ?_ h
      · exact ⟨fun kd hkd => (by cases hkd), List.Pairwise.nil⟩
      · intro t op u ⟨hm, hu⟩ ⟨hst, hop⟩
        have he := hst.effect hm
        exact ⟨he.mountable hm, (he.unambiguous_iff hu).mpr hop⟩
    exact ⟨hinv.2, fun kds' hp n => vfsGetroot_perm hinv.2 hp n⟩
  · intro h hu op t hst
    exact (hst.effect (mountable_run h)).unambiguous_iff hu

/-- A file system known by a number, with a volume name. -/
structure NamedFs where
  num : ℕ
  name : CStr

instance fsOpsNamedFs : FsOps NamedFs := ⟨fun f => some f.name⟩

/-- Two disks, "a" and "b", and on each what is given. -/
def twoDisks (fs1 fs2 : KdFs NamedFs) : Vfs NamedFs Unit :=
  ⟨[⟨[97], some [97, 114, 97, 119], some (), 0, fs1⟩, ⟨[98], some [98, 114, 97, 119], some (), 1, fs2⟩], 2, fun _ => true⟩

theorem twoDisks_run : Run (Restrict VfsStep NoClash) (vfsBootstrap fun _ => true)
    [.adddev [97] () true, .adddev [98] () true, .mount [97] fun _ => .ok ⟨0, [118]⟩]
    (twoDisks (.fs ⟨0, [118]⟩) .none) := by
  refine Run.cons (t := ⟨[⟨[97], some [97, 114, 97, 119], some (), 0, .none⟩], 1, fun _ => true⟩) ⟨Or.inl rfl, trivial⟩ ?_
  refine Run.cons (t := twoDisks .none .none) ⟨Or.inl rfl, trivial⟩ ?_
  refine Run.single ⟨Or.inl rfl, fun x dev f hx _ _ hf n hn kd hkd => ?_⟩
  cases hx
  cases hf
  cases hn
  rw [List.mem_singleton.mp hkd]
  rintro (h | h | h) <;> revert h <;> decide

/-- A volume "v" on disk "a": the names are unambiguous, and stay so if "b"
gets a volume "w". -/
theorem vfs_names_two_volumes :
    Unambiguous (twoDisks (.fs ⟨0, [118]⟩) .none).knowndevs ∧
    Unambiguous (twoDisks (.fs ⟨0, [118]⟩) (.fs ⟨1, [119]⟩)).knowndevs := by
  have h1 := (vfs_names_run.1 twoDisks_run).1
  refine ⟨h1, ?_⟩
  refine (vfs_names_run.2 (twoDisks_run.mono fun _ _ _ h => h.1) h1 (.mount [98] fun _ => .ok ⟨1, [119]⟩) _
    (Or.inl rfl)).mpr fun x dev f hx _ _ hf n hn kd hkd => ?_
  cases hx
  cases hf
  cases hn
  rw [List.mem_singleton.mp hkd]
  rintro (h | h | h) <;> revert h <;> decide

/-- **Two volumes of one name.** Mounted on "a" and on "b", the volume "v" is
found on the disk that is first in the table. -/
theorem vfs_names_clash : ∃ ops s, Run VfsStep (vfsBootstrap fun _ => true : Vfs NamedFs Unit) ops s ∧
    ¬ Unambiguous s.knowndevs ∧
    ∃ kds', kds'.Perm s.knowndevs ∧ vfsGetroot [118] kds' ≠ vfsGetroot [118] s.knowndevs := by
  have hrun : Run VfsStep (vfsBootstrap fun _ => true) _ (twoDisks (.fs ⟨0, [118]⟩) .none) :=
    twoDisks_run.mono fun _ _ _ h => h.1
  refine ⟨_, twoDisks (.fs ⟨0, [118]⟩) (.fs ⟨1, [118]⟩),
    Run.snoc (.mount [98] fun _ => .ok ⟨1, [118]⟩) hrun (Or.inl rfl), fun hu => ?_, _, List.reverse_perm _, ?_⟩
  · -- both entries have the name "v"
    have hapart := (List.pairwise_cons.mp hu).1 _ List.mem_cons_self
    exact hapart [118] (Or.inr (Or.inr rfl)) (Or.inr (Or.inr rfl))
  · intro h
    injection h with h1
    injection h1 with h2
    injection h2 with h3
    cases h3

end Os161
