/-
# `sfsck` ends

Pass 1 goes through the entries of a directory only when `inode_add` has put
its inode into the table, and an inode number is put there once. The numbers
are 1 and those below the size of the volume, so the table grows to at most
that size, and the recursion is at most that deep. Pass 2 goes through the
entries of a directory when it has marked its inode visited, which it does once
for each inode of the table.

`sfsck_ends`: on every image and with every result of the disk operations and
allocations, with fuel beyond the size of the volume the model never stops at
its bound, and each pass goes through the entries of pairwise different
directories, at most as many as the volume has blocks.
-/
import Os161.Sfsck.Quiet

namespace Os161

namespace Sfsck

open Prog (Keeps)

variable {s t : Fsck} {n ino : ℕ} {α : Type}

/-- The numbers of the inodes in the table. -/
def inos (s : Fsck) : List ℕ := s.inodes.map Inodeinfo.ino

/-- An inode number that pass 1 looks at. -/
def Numbered (n ino : ℕ) : Prop := ino = sfsRootdirIno ∨ 0 < ino ∧ ino < n

/-- What each pass has gone through. -/
structure Once (n : ℕ) (s : Fsck) : Prop where
  nodup1 : s.dirs1.Nodup
  length1 : s.dirs1.length ≤ n
  nodup2 : s.dirs2.Nodup
  length2 : s.dirs2.length ≤ n

theorem wp_quiet {m : FsckM α} [h : Keeps Quiet False m] {Q : α → Fsck → Prop} {E : Exit → Fsck → Prop}
    (hQ : ∀ a t, Quiet s t → Q a t) (hE : ∀ e t, Quiet s t → E e t) : Prog.wp m Q E s :=
  Prog.wp_mono (h.wp s) hQ hE

theorem nodup_length_le {l : List ℕ} (hn : 0 < n) (hl : l.Nodup) (h : ∀ ino ∈ l, Numbered n ino) : l.length ≤ n := by
  have hsub : l.toFinset ⊆ Finset.Icc 1 n := fun ino hino => by
    rw [Finset.mem_Icc]
    rcases h ino (List.mem_toFinset.mp hino) with h1 | ⟨h0, h1⟩
    · rw [h1]
      exact ⟨le_rfl, hn⟩
    · exact ⟨h0, h1.le⟩
  calc l.length = l.toFinset.card := (List.toFinset_card_of_nodup hl).symm
    _ ≤ (Finset.Icc 1 n).card := Finset.card_le_card hsub
    _ = n := by rw [Nat.card_Icc, Nat.add_sub_cancel]

/-! ### Pass 1 -/

/-- The table in pass 1. -/
structure Table1 (n : ℕ) (s : Fsck) : Prop where
  pos : 0 < n
  total : sbTotalblocks s = n
  nodup : (inos s).Nodup
  range : ∀ ino ∈ inos s, Numbered n ino
  dirs : s.dirs1.Nodup
  sub : ∀ d ∈ s.dirs1, d ∈ inos s
  none2 : s.dirs2 = []

namespace Table1

theorem quiet (h : Table1 n s) (hq : Quiet s t) : Table1 n t := by
  have hinos : inos t = inos s := congrArg (List.map _) hq.inodes
  refine ⟨h.pos, hq.total.trans h.total, hinos ▸ h.nodup, hinos ▸ h.range, hq.dirs1 ▸ h.dirs, ?_, hq.dirs2.trans h.none2⟩
  rw [hinos, hq.dirs1]
  exact h.sub

theorem length_le (h : Table1 n s) : s.inodes.length ≤ n := by
  have := nodup_length_le h.pos h.nodup h.range
  rwa [inos, List.length_map] at this

theorem once (h : Table1 n s) : Once n s := by
  refine ⟨h.dirs, nodup_length_le h.pos h.dirs fun d hd => h.range d (h.sub d hd), ?_, ?_⟩
  · rw [h.none2]
    exact List.nodup_nil
  · rw [h.none2]
    exact Nat.zero_le _

/-- `inode_addtable`. -/
theorem add (h : Table1 n s) (hn : Numbered n ino) (hnew : ino ∉ inos s) (type : ℕ) (b : Bool) :
    Table1 n { s with inodes := s.inodes ++ [⟨ino, 0, false, type⟩], inodesSorted := b } := by
  have hinos : inos { s with inodes := s.inodes ++ [⟨ino, 0, false, type⟩], inodesSorted := b } = inos s ++ [ino] := by
    simp [inos]
  refine ⟨h.pos, h.total, ?_, ?_, h.dirs, ?_, h.none2⟩
  · rw [hinos]
    exact List.nodup_append.mpr ⟨h.nodup, List.nodup_singleton ino, fun a ha b hb => by
      rw [List.mem_singleton.mp hb]
      exact fun he => hnew (he ▸ ha)⟩
  · rw [hinos]
    intro a ha
    rcases List.mem_append.mp ha with ha | ha
    · exact h.range a ha
    · rw [List.mem_singleton.mp ha]
      exact hn
  · rw [hinos]
    exact fun d hd => List.mem_append_left _ (h.sub d hd)

/-- The entries of a directory are gone through. -/
theorem enter (h : Table1 n s) (hin : ino ∈ inos s) (hnew : ino ∉ s.dirs1) :
    Table1 n { s with dirs1 := ino :: s.dirs1 } := by
  refine ⟨h.pos, h.total, h.nodup, h.range, List.nodup_cons.mpr ⟨hnew, h.dirs⟩, ?_, h.none2⟩
  intro d hd
  rcases List.mem_cons.mp hd with rfl | hd
  · exact hin
  · exact h.sub d hd

end Table1

theorem inodeAdd_wp (ino type : ℕ) : Prog.wp (inodeAdd ino type)
    (fun seen t => seen = true ∧ t = s ∨ seen = false ∧ ino ∉ inos s ∧
      t = { s with inodes := s.inodes ++ [⟨ino, 0, false, type⟩], inodesSorted := false })
    (fun _ t => t = s) s := by
  unfold inodeAdd assert
  rw [Prog.wp_bind, Prog.wp_get]
  split
  · simp
  · next hnone =>
    simp only [Prog.wp_bind, Prog.wp_modify, Prog.wp_pure]
    refine Or.inr ⟨trivial, fun hin => ?_, trivial⟩
    obtain ⟨inf, hinf, rfl⟩ := List.mem_map.mp hin
    exact List.find?_eq_none.mp hnone inf hinf (decide_eq_true rfl)

/-- **`pass1_inode`** on a number of the volume. -/
theorem pass1Inode_wp (h : Table1 n s) (hn : Numbered n ino) (sfi : Block) (alreadychanged : Bool) :
    Prog.wp (pass1Inode ino sfi alreadychanged)
      (fun r t => Table1 n t ∧ t.dirs1 = s.dirs1 ∧ s.inodes.length ≤ t.inodes.length ∧
        (r.1 = false → ino ∉ inos s ∧ ino ∈ inos t ∧ s.inodes.length < t.inodes.length))
      (fun _ t => Table1 n t) s := by
  unfold pass1Inode
  rw [Prog.wp_bind]
  refine Prog.wp_mono (inodeAdd_wp ino sfi.sfiType) (fun seen u hu => ?_) fun _ t ht => ht ▸ h
  rcases hu with ⟨rfl, rfl⟩ | ⟨rfl, hnew, rfl⟩
  · simp only [if_true, Prog.wp_bind]
    refine wp_quiet (fun _ t hq => ?_) fun _ t hq => h.quiet hq
    exact ⟨h.quiet hq, hq.dirs1, hq.inodes ▸ le_rfl, fun hf => Bool.noConfusion hf⟩
  · simp only [Bool.false_eq_true, if_false, Prog.wp_bind]
    have hadd := h.add hn hnew sfi.sfiType false
    refine wp_quiet (fun _ t hq => ⟨hadd.quiet hq, hq.dirs1, ?_, fun _ => ⟨hnew, ?_, ?_⟩⟩) fun _ t hq => hadd.quiet hq
    · rw [hq.inodes, List.length_append]
      omega
    · rw [inos, hq.inodes]
      simp
    · rw [hq.inodes, List.length_append, List.length_singleton]
      omega

/-! The inode numbers in the entries. -/

theorem Dirent.sfdIno_congr {d e : Dirent} (h : ∀ i < 4, d.get i = e.get i) : d.sfdIno = e.sfdIno :=
  Buf.getBE_congr fun i hi => by rw [Nat.zero_add, h i hi]

@[simp] theorem Dirent.sfdIno_clearName (d : Dirent) : d.clearName.sfdIno = d.sfdIno :=
  Bytes.field_setField_of_disjoint _ _ (by decide) (by decide)

@[simp] theorem Dirent.sfdIno_setIno_zero (d : Dirent) : (d.setIno 0).sfdIno = 0 :=
  (Bytes.field_setField_same _ _ (by decide)).trans (Nat.zero_mod _)

@[simp] theorem Dirent.sfdIno_setName (d : Dirent) (name : Name) : (d.setName name).sfdIno = d.sfdIno := by
  refine Dirent.sfdIno_congr fun i hi => ?_
  rw [Dirent.setName, Bytes.get_ofFun _ (by omega), Buf.blit_outside _ _ _ _ _ (by omega)]

theorem pass1Fix_wp (fixed : Dirent × Bool) (w : Warning) :
    Prog.wp (pass1Fix fixed w) (fun r _ => r = fixed) (fun _ _ => True) s := by
  unfold pass1Fix complain setbadness warnx
  split <;> rfl

theorem pass1Name_wp (path : Name) (index : ℕ) (sfd : Dirent) :
    Prog.wp (pass1Name path index sfd) (fun r _ => r.1.sfdIno = sfd.sfdIno) (fun _ _ => True) s := by
  unfold pass1Name
  rw [Prog.wp_bind]
  refine Prog.wp_mono (pass1Fix_wp _ _) (fun a t ha => ?_) fun _ _ he => he
  rw [Prog.wp_bind]
  refine Prog.wp_mono (pass1Fix_wp _ _) (fun b u hb => ?_) fun _ _ he => he
  subst ha hb
  exact (field_checkbadstring _ (by decide) (by decide)).trans
    (field_checknullstring _ (by decide) (by decide) (by decide))

theorem pass1Rename_wp (path : Name) (index : ℕ) (sfd : Dirent) :
    Prog.wp (pass1Rename path index sfd) (fun d _ => d.sfdIno = sfd.sfdIno) (fun _ _ => True) s := by
  unfold pass1Rename uniqueid complain setbadness warnx
  simp only [Prog.wp_bind, Prog.wp_get, Prog.wp_modify, Prog.wp_pure, Dirent.sfdIno_setName]

/-- **`pass1_direntry`** leaves an inode number of the volume, or none. -/
theorem pass1Direntry_wp (path : Name) (index : ℕ) (sfd : Dirent) (hpos : 0 < n) (htotal : sbTotalblocks s = n) :
    Prog.wp (pass1Direntry path index sfd) (fun r _ => r.1.sfdIno < n) (fun _ _ => True) s := by
  have hname : ∀ d : Dirent, d.sfdIno < n → ∀ t,
      Prog.wp (pass1Name path index d) (fun r _ => r.1.sfdIno < n) (fun _ _ => True) t := fun d hd t =>
    Prog.wp_mono (pass1Name_wp path index d) (fun _ _ hr => hr.trans_lt hd) fun _ _ he => he
  unfold pass1Direntry
  rw [Prog.wp_bind, Prog.wp_get, htotal]
  split_ifs with h0 hname0 hrange hnoname
  · rw [Prog.wp_bind]
    refine wp_quiet (fun _ t _ => ?_) fun _ _ _ => trivial
    rw [Prog.wp_pure, Dirent.sfdIno_clearName, h0]
    exact hpos
  · rw [Prog.wp_pure, h0]
    exact hpos
  · rw [Prog.wp_bind]
    refine wp_quiet (fun _ t _ => ?_) fun _ _ _ => trivial
    rw [Prog.wp_pure, Dirent.sfdIno_clearName, Dirent.sfdIno_setIno_zero]
    exact hpos
  · rw [Prog.wp_bind]
    refine Prog.wp_mono (pass1Rename_wp path index sfd) (fun d t hd => ?_) fun _ _ he => he
    rw [Prog.wp_bind]
    exact Prog.wp_mono (hname d (hd.trans_lt (Nat.lt_of_not_le hrange)) t) (fun _ _ hr => hr) fun _ _ he => he
  · exact hname sfd (Nat.lt_of_not_le hrange) s

/-- The entries after the first loop of `pass1_dir`. -/
theorem pass1Slots_wp (hpos : 0 < n) (htotal : sbTotalblocks s = n) (path : Name) (d : ℕ → Dirent) (nd : ℕ) :
    Prog.wp (Prog.foldUp nd (pass1Slot path) (d, false))
      (fun x t => Quiet s t ∧ ∀ k < nd, (x.1 k).sfdIno < n) (fun _ t => Quiet s t) s := by
  refine Prog.wp_foldUp (I := fun i (x : (ℕ → Dirent) × Bool) t => Quiet s t ∧ ∀ k < i, (x.1 k).sfdIno < n)
    ⟨refl_of Quiet s, fun k hk => absurd hk (Nat.not_lt_zero k)⟩ fun i _ x t ⟨hq, hx⟩ => ?_
  unfold pass1Slot
  rw [Prog.wp_bind]
  have hd := pass1Direntry_wp (s := t) path i (x.1 i) hpos (hq.total.trans htotal)
  refine Prog.wp_mono (Prog.wp_and hd (Keeps.wp (quiet_of_dry (pass1Direntry path i (x.1 i))) t)) (fun r u hr => ?_)
    fun _ u hu => trans_of Quiet hq hu.2
  refine ⟨trans_of Quiet hq hr.2, fun k hk => ?_⟩
  rcases Nat.lt_succ_iff_lt_or_eq.mp hk with hk | rfl
  · dsimp only
    rw [Function.update_of_ne (Nat.ne_of_lt hk)]
    exact hx k hk
  · dsimp only
    rw [Function.update_self]
    exact hr.1

/-- What the recursive call does, with fuel `f`. -/
def DirWp (n f : ℕ) (dir : ℕ → Name → FsckM Unit) : Prop :=
  ∀ ino path s, Table1 n s → Numbered n ino → n < f + s.inodes.length →
    Prog.wp (dir ino path) (fun _ t => Table1 n t ∧ s.inodes.length ≤ t.inodes.length) (fun _ t => Table1 n t) s

/-- The entries during the second loop of `pass1_dir`. -/
structure Subs (n nd l : ℕ) (x : (ℕ → Dirent) × Bool) (s : Fsck) : Prop where
  table : Table1 n s
  length : l ≤ s.inodes.length
  entries : ∀ k < nd, (x.1 k).sfdIno < n

/-- One entry in the second loop of `pass1_dir`. -/
theorem pass1Sub_wp {f nd l : ℕ} {dir : ℕ → Name → FsckM Unit} (hdir : DirWp n f dir) (hf : n < f + l) {i : ℕ}
    (hi : i < nd) {x : (ℕ → Dirent) × Bool} (h : Subs n nd l x s) (path : Name) :
    Prog.wp (pass1Sub dir path i x) (fun y t => Subs n nd l y t) (fun _ t => Table1 n t) s := by
  unfold pass1Sub
  split
  · next hfollow =>
    have hnum : Numbered n (x.1 i).sfdIno := Or.inr ⟨Nat.pos_of_ne_zero hfollow.1, h.entries i hi⟩
    rw [Prog.wp_bind]
    refine wp_quiet (fun subsfi t hq => ?_) fun _ t hq => h.table.quiet hq
    have ht : Subs n nd l x t := ⟨h.table.quiet hq, hq.inodes ▸ h.length, h.entries⟩
    split_ifs with hfile hdirtype
    · rw [Prog.wp_bind]
      refine Prog.wp_mono (pass1Inode_wp ht.table hnum subsfi false) (fun r u hu => ?_) fun _ _ he => he
      have hquiet : Subs n nd l x u := ⟨hu.1, ht.length.trans hu.2.2.1, ht.entries⟩
      dsimp only
      split_ifs
      · rw [Prog.wp_bind]
        refine wp_quiet (fun _ v hv => ?_) fun _ v hv => hquiet.table.quiet hv
        exact ⟨hquiet.table.quiet hv, hv.inodes ▸ hquiet.length, hquiet.entries⟩
      · exact hquiet
    · rw [Prog.wp_bind]
      refine Prog.wp_mono (hdir _ _ t ht.table hnum (by have := ht.length; omega)) (fun _ u hu => ?_) fun _ _ he => he
      exact ⟨hu.1, ht.length.trans hu.2, ht.entries⟩
    · unfold removeInvalid
      rw [Prog.wp_bind]
      refine wp_quiet (fun _ u hu => ⟨ht.table.quiet hu, hu.inodes ▸ ht.length, fun k hk => ?_⟩)
        fun _ u hu => ht.table.quiet hu
      dsimp only
      rcases eq_or_ne k i with rfl | hne
      · rw [Function.update_self, Dirent.sfdIno_clearName, Dirent.sfdIno_setIno_zero]
        exact h.table.pos
      · rw [Function.update_of_ne hne]
        exact h.entries k hk
  · exact h

/-- `pass1_dir` on a directory that has just been entered into the table. -/
theorem pass1Entries_wp {f : ℕ} {dir : ℕ → Name → FsckM Unit} (hdir : DirWp n f dir) (h : Table1 n s)
    (hf : n < f + s.inodes.length) (hin : ino ∈ inos s) (hnew : ino ∉ s.dirs1) (sfi : Block) (path : Name) :
    Prog.wp (pass1Entries dir ino sfi path) (fun _ t => Table1 n t ∧ s.inodes.length ≤ t.inodes.length)
      (fun _ t => Table1 n t) s := by
  unfold pass1Entries
  rw [Prog.wp_bind]
  refine wp_quiet (fun _ t hq => ?_) fun _ t hq => h.quiet hq
  have ht := h.quiet hq
  have hinos : inos t = inos s := congrArg (List.map _) hq.inodes
  rw [Prog.wp_bind, Prog.wp_modify]
  have hu := ht.enter (hinos ▸ hin) (hq.dirs1 ▸ hnew)
  have hlength : s.inodes.length = t.inodes.length := by rw [hq.inodes]
  set u : Fsck := { t with dirs1 := ino :: t.dirs1 }
  rw [Prog.wp_bind]
  refine wp_quiet (fun d v hv => ?_) fun _ v hv => hu.quiet hv
  have hv' := hu.quiet hv
  rw [Prog.wp_bind]
  refine Prog.wp_mono (pass1Slots_wp hv'.pos hv'.total path d _) (fun x w hw => ?_) fun _ w hw => hv'.quiet hw
  have hx : Subs n (sfi.sfiSize / 64) s.inodes.length x w :=
    ⟨hv'.quiet hw.1, by rw [hw.1.inodes, hv.inodes, hlength], hw.2⟩
  rw [Prog.wp_bind]
  refine Prog.wp_mono (Prog.wp_foldUp (I := fun _ => Subs n (sfi.sfiSize / 64) s.inodes.length) hx
    fun i hi y z hy => pass1Sub_wp hdir hf hi hy path) (fun y z hy => ?_) fun _ _ he => he
  split_ifs
  · refine wp_quiet (fun _ z' hz => ⟨hy.table.quiet hz, ?_⟩) fun _ z' hz => hy.table.quiet hz
    rw [hz.inodes]
    exact hy.length
  · exact ⟨hy.table, hy.length⟩

/-- **`pass1_dir`** with enough fuel for what is left of the table. -/
theorem pass1Dir_wp (n : ℕ) : ∀ fuel, DirWp n fuel (pass1Dir fuel)
  | 0, _, _, _, h, _, hf => absurd h.length_le (by omega)
  | fuel + 1, ino, path, s, h, hn, hf => by
    rw [pass1Dir, Prog.wp_bind]
    refine wp_quiet (fun sfi t ht => ?_) fun _ t ht => h.quiet ht
    rw [Prog.wp_bind]
    refine wp_quiet (fun a u hu => ?_) fun _ u hu => (h.quiet ht).quiet hu
    have hsu : Quiet s u := trans_of Quiet ht hu
    rw [Prog.wp_bind]
    refine wp_quiet (fun _ v hv => ?_) fun _ v hv => (h.quiet hsu).quiet hv
    have hsv : Quiet s v := trans_of Quiet hsu hv
    rw [Prog.wp_bind]
    refine Prog.wp_mono (pass1Inode_wp (h.quiet hsv) hn a.1 a.2) (fun r w hw => ?_) fun _ _ he => he
    obtain ⟨htable, hdirs, hlen, hnew⟩ := hw
    rw [hsv.inodes] at hlen
    split_ifs with hseen
    · exact ⟨htable, hlen⟩
    · obtain ⟨hnotin, hin, hlt⟩ := hnew (Bool.eq_false_iff.mpr hseen)
      have hdirnew : ino ∉ w.dirs1 := fun hd => hnotin ((h.quiet hsv).sub ino (hdirs ▸ hd))
      rw [hsv.inodes] at hlt
      refine Prog.wp_mono (pass1Entries_wp (pass1Dir_wp n fuel) htable (by omega) hin hdirnew r.2 path)
        (fun _ _ hx => ⟨hx.1, by omega⟩) fun _ _ he => he

/-! ### Pass 2 -/

/-- The table in pass 2: it does not grow, and the directories gone through are
marked visited in it. -/
structure Table2 (n : ℕ) (s : Fsck) : Prop where
  pos : 0 < n
  nodup : (inos s).Nodup
  range : ∀ ino ∈ inos s, Numbered n ino
  nodup1 : s.dirs1.Nodup
  length1 : s.dirs1.length ≤ n
  nodup2 : s.dirs2.Nodup
  seen : ∀ d ∈ s.dirs2, ∃ inf ∈ s.inodes, inf.ino = d ∧ inf.visited = true

/-- The number of inodes not visited yet. -/
def unvisited (s : Fsck) : ℕ := s.inodes.countP fun inf => !inf.visited

namespace Table2

theorem quiet (h : Table2 n s) (hq : Quiet s t) : Table2 n t := by
  have hinos : inos t = inos s := congrArg (List.map _) hq.inodes
  refine ⟨h.pos, hinos ▸ h.nodup, hinos ▸ h.range, hq.dirs1 ▸ h.nodup1, hq.dirs1 ▸ h.length1, hq.dirs2 ▸ h.nodup2, ?_⟩
  rw [hq.dirs2, hq.inodes]
  exact h.seen

theorem once (h : Table2 n s) : Once n s := by
  refine ⟨h.nodup1, h.length1, h.nodup2, nodup_length_le h.pos h.nodup2 fun d hd => ?_⟩
  obtain ⟨inf, hinf, rfl, _⟩ := h.seen d hd
  exact h.range inf.ino (List.mem_map_of_mem hinf)

theorem unvisited_le (h : Table2 n s) : unvisited s ≤ n := by
  have hlen := nodup_length_le h.pos h.nodup h.range
  rw [inos, List.length_map] at hlen
  exact List.countP_le_length.trans hlen

/-- An element is replaced by one of the same number that is not less visited. -/
theorem set (h : Table2 n s) {i : ℕ} {inf inf' : Inodeinfo} (hi : s.inodes[i]? = some inf) (hino : inf'.ino = inf.ino)
    (hvis : inf.visited = true → inf'.visited = true) : Table2 n { s with inodes := s.inodes.set i inf' } := by
  have hinos : inos { s with inodes := s.inodes.set i inf' } = inos s := by
    obtain ⟨hlt, rfl⟩ := List.getElem?_eq_some_iff.mp hi
    rw [inos, inos, List.map_set, hino, ← List.getElem_map Inodeinfo.ino (h := by rwa [List.length_map])]
    exact List.set_getElem_self _
  refine ⟨h.pos, hinos ▸ h.nodup, hinos ▸ h.range, h.nodup1, h.length1, h.nodup2, fun d hd => ?_⟩
  obtain ⟨x, hx, hxd, hxv⟩ := h.seen d hd
  obtain ⟨j, hj⟩ := List.mem_iff_getElem?.mp hx
  rcases eq_or_ne j i with rfl | hne
  · have hxi : x = inf := Option.some.inj (hj.symm.trans hi)
    refine ⟨inf', ?_, hino.trans (hxi ▸ hxd), hvis (hxi ▸ hxv)⟩
    exact List.mem_set (List.getElem?_eq_some_iff.mp hi).1 inf'
  · refine ⟨x, List.mem_iff_getElem?.mpr ⟨j, ?_⟩, hxd, hxv⟩
    rw [List.getElem?_set_ne hne.symm]
    exact hj

/-- The entries of a directory that was not visited are gone through. -/
theorem visit (h : Table2 n s) {i : ℕ} {inf : Inodeinfo} (hi : s.inodes[i]? = some inf) (hvis : inf.visited = false) :
    inf.ino ∉ s.dirs2 ∧
      Table2 n { s with
        inodes := s.inodes.set i { inf with visited := true }
        dirs2 := inf.ino :: s.dirs2 } := by
  have hnew : inf.ino ∉ s.dirs2 := fun hd => by
    obtain ⟨x, hx, hxd, hxv⟩ := h.seen _ hd
    have : x = inf := List.inj_on_of_nodup_map h.nodup hx (List.mem_of_getElem? hi) hxd
    rw [this, hvis] at hxv
    exact Bool.noConfusion hxv
  have hset : Table2 n { s with inodes := s.inodes.set i { inf with visited := true } } :=
    h.set hi rfl fun _ => rfl
  refine ⟨hnew, hset.pos, hset.nodup, hset.range, hset.nodup1, hset.length1, List.nodup_cons.mpr ⟨hnew, h.nodup2⟩, ?_⟩
  intro d hd
  rcases List.mem_cons.mp hd with rfl | hd
  · exact ⟨_, List.mem_set (List.getElem?_eq_some_iff.mp hi).1 _, rfl, rfl⟩
  · exact hset.seen d hd

end Table2

theorem unvisited_set {i : ℕ} {inf : Inodeinfo} (hi : s.inodes[i]? = some inf) (inf' : Inodeinfo) :
    unvisited { s with inodes := s.inodes.set i inf' } + (if inf.visited then 0 else 1) =
      unvisited s + if inf'.visited then 0 else 1 := by
  obtain ⟨hlt, rfl⟩ := List.getElem?_eq_some_iff.mp hi
  have hcount := List.countP_set (p := fun inf : Inodeinfo => !inf.visited) (a := inf') hlt
  have hpos : s.inodes[i].visited = false → 0 < s.inodes.countP fun inf => !inf.visited := fun hv =>
    List.countP_pos_iff.mpr ⟨_, List.getElem_mem hlt, by rw [hv]; rfl⟩
  unfold unvisited
  dsimp only at hcount ⊢
  rw [hcount]
  cases h1 : s.inodes[i].visited with
  | true => cases inf'.visited <;> simp
  | false =>
    have := hpos h1
    cases inf'.visited <;> simp <;> omega

/-! `inode_find`. -/

theorem inodeSearch_spec {inodes : List Inodeinfo} {min max i : ℕ} (h : inodeSearch inodes ino min max = some i) :
    ∃ inf, inodes[i]? = some inf ∧ inf.ino = ino := by
  fun_induction inodeSearch inodes ino min max with
  | case1 => cases h
  | case2 _ _ _ _ _ _ ih | case3 _ _ _ _ _ _ _ ih => exact ih h
  | case4 _ _ _ inf hinf h1 h2 =>
    cases h
    exact ⟨inf, hinf, by omega⟩
  | case5 => cases h

theorem inodeFind_wp (ino : ℕ) : Prog.wp (inodeFind ino)
    (fun x t => t = s ∧ s.inodes[x.1]? = some x.2 ∧ x.2.ino = ino) (fun _ t => t = s) s := by
  unfold inodeFind assert
  rw [Prog.wp_bind, Prog.wp_get, Prog.wp_bind]
  split_ifs <;> simp only [Prog.wp_bind, Prog.wp_pure, Prog.wp_fail]
  split
  · rfl
  · next i hi =>
    obtain ⟨inf, hinf, hino⟩ := inodeSearch_spec hi
    rw [Prog.wp_pure]
    simp only [List.getD_eq_getElem?_getD, hinf, Option.getD_some]
    exact ⟨trivial, trivial, hino⟩

/-- **`inode_visitdir`**. -/
theorem inodeVisitdir_wp (ino : ℕ) : Prog.wp (inodeVisitdir ino)
    (fun visited t => visited = true ∧ t = s ∨ visited = false ∧ ∃ i inf, s.inodes[i]? = some inf ∧ inf.ino = ino ∧
      inf.visited = false ∧ t = { s with inodes := s.inodes.set i { inf with visited := true } })
    (fun _ t => t = s) s := by
  unfold inodeVisitdir assert setInode
  rw [Prog.wp_bind]
  refine Prog.wp_mono (inodeFind_wp ino) (fun x t hx => ?_) fun _ _ he => he
  obtain ⟨rfl, hinf, hino⟩ := hx
  rw [Prog.wp_bind]
  split_ifs <;> simp only [Prog.wp_bind, Prog.wp_pure, Prog.wp_fail, Prog.wp_modify]
  · exact Or.inl ⟨trivial, trivial⟩
  · next hvis => exact Or.inr ⟨trivial, x.1, x.2, hinf, hino, Bool.eq_false_iff.mpr hvis, rfl⟩

/-- **`inode_addlink`**. -/
theorem inodeAddlink_wp (h : Table2 n s) (ino : ℕ) : Prog.wp (inodeAddlink ino)
    (fun _ t => Table2 n t ∧ unvisited t = unvisited s) (fun _ t => t = s) s := by
  unfold inodeAddlink assert setInode
  rw [Prog.wp_bind]
  refine Prog.wp_mono (inodeFind_wp ino) (fun x t hx => ?_) fun _ _ he => he
  obtain ⟨rfl, hinf, hino⟩ := hx
  rw [Prog.wp_bind]
  split_ifs <;> simp only [Prog.wp_bind, Prog.wp_pure, Prog.wp_fail, Prog.wp_modify]
  refine ⟨h.set hinf rfl fun hv => hv, ?_⟩
  have := unvisited_set hinf { x.2 with linkcount := wadd x.2.linkcount 1 }
  exact Nat.add_right_cancel this

theorem unvisited_quiet (hq : Quiet s t) : unvisited t = unvisited s := by rw [unvisited, unvisited, hq.inodes]

/-- What the recursive call of pass 2 does, with fuel `f`. -/
def Dir2Wp (n f : ℕ) (dir : ℕ → ℕ → Name → FsckM Bool) : Prop :=
  ∀ ino parentino path s, Table2 n s → unvisited s < f →
    Prog.wp (dir ino parentino path) (fun _ t => Table2 n t ∧ unvisited t ≤ unvisited s) (fun _ t => Table2 n t) s

/-- One entry in the last loop of `pass2_dir`. -/
theorem pass2Sub_wp {f : ℕ} {dir : ℕ → ℕ → Name → FsckM Bool} (hdir : Dir2Wp n f dir) (h : Table2 n s)
    (hf : unvisited s < f) (ino : ℕ) (path : Name) (i : ℕ) (x : ((ℕ → Dirent) × Bool) × ℕ) :
    Prog.wp (pass2Sub dir ino path i x) (fun _ t => Table2 n t ∧ unvisited t ≤ unvisited s) (fun _ t => Table2 n t) s := by
  unfold pass2Sub
  split
  · rw [Prog.wp_bind]
    refine wp_quiet (fun subsfi t hq => ?_) fun _ t hq => h.quiet hq
    have ht := h.quiet hq
    have hun := unvisited_quiet hq
    split_ifs
    · rw [Prog.wp_bind]
      refine Prog.wp_mono (inodeAddlink_wp ht _) (fun _ u hu => ?_) fun _ u hu => hu ▸ ht
      exact ⟨hu.1, (hu.2.trans hun).le⟩
    · rw [Prog.wp_bind]
      refine Prog.wp_mono (hdir _ _ _ t ht (hun ▸ hf)) (fun _ u hu => ?_) fun _ _ he => he
      have hle : unvisited u ≤ unvisited s := hu.2.trans hun.le
      split_ifs
      · rw [Prog.wp_bind]
        refine wp_quiet (fun _ v hv => ?_) fun _ v hv => hu.1.quiet hv
        exact ⟨hu.1.quiet hv, (unvisited_quiet hv).trans_le hle⟩
      · exact ⟨hu.1, hle⟩
    · rw [Prog.wp_bind]
      refine wp_quiet (fun _ v hv => ?_) fun _ v hv => ht.quiet hv
      exact ⟨ht.quiet hv, ((unvisited_quiet hv).trans hun).le⟩
  · exact ⟨h, le_rfl⟩

/-- **`pass2_dir`** with more fuel than inodes not visited. -/
theorem pass2Dir_wp (n : ℕ) : ∀ fuel, Dir2Wp n fuel (pass2Dir fuel)
  | 0, _, _, _, _, _, hf => absurd hf (Nat.not_lt_zero _)
  | fuel + 1, ino, parentino, path, s, h, hf => by
    rw [pass2Dir, Prog.wp_bind]
    refine Prog.wp_mono (inodeVisitdir_wp ino) (fun visited t ht => ?_) fun _ t ht => ht ▸ h
    rcases ht with ⟨rfl, rfl⟩ | ⟨rfl, i, inf, hi, rfl, hvis, rfl⟩
    · exact ⟨h, le_rfl⟩
    · have hun := unvisited_set hi { inf with visited := true }
      rw [hvis] at hun
      have hvisit := (h.visit hi hvis).2
      simp only [Bool.false_eq_true, if_false]
      rw [Prog.wp_bind, Prog.wp_modify]
      set u : Fsck := { s with
        inodes := s.inodes.set i { inf with visited := true }
        dirs2 := inf.ino :: s.dirs2 }
      have hu : unvisited u + 1 = unvisited s := hun
      rw [Prog.wp_bind]
      refine wp_quiet (fun sfi v hv => ?_) fun _ v hv => hvisit.quiet hv
      rw [Prog.wp_bind]
      refine wp_quiet (fun x w hw => ?_) fun _ w hw => (hvisit.quiet hv).quiet hw
      have hq : Quiet u w := trans_of Quiet hv hw
      have hwun := unvisited_quiet hq
      rw [Prog.wp_bind]
      refine Prog.wp_mono (Prog.wp_foldUp (I := fun _ _ z => Table2 n z ∧ unvisited z ≤ unvisited w)
        ⟨hvisit.quiet hq, le_rfl⟩ fun k _ y z hz => ?_) (fun y z hz => ?_) fun _ _ he => he
      · refine Prog.wp_mono (pass2Sub_wp (pass2Dir_wp n fuel) hz.1 (by omega) inf.ino path k y)
          (fun _ _ hx => ⟨hx.1, hx.2.trans hz.2⟩) fun _ _ he => he
      · rw [Prog.wp_bind]
        refine wp_quiet (fun _ z' hz' => ⟨hz.1.quiet hz', ?_⟩) fun _ z' hz' => hz.1.quiet hz'
        have := unvisited_quiet hz'
        omega

/-! ### The whole run -/

theorem seek_of_lt {block : ℕ} (h : block < 2 ^ 23) : seek block = block := by
  rw [seek, wcast_of_lt (by omega), Nat.mul_div_cancel _ (by decide)]

theorem diskread_wp (block : ℕ) : Prog.wp (diskread block)
    (fun b t => b = s.sectors (seek block) ∧ t = { s with ios := fun i => s.ios (i + 1) })
    (fun _ t => t = { s with ios := fun i => s.ios (i + 1) }) s := by
  unfold diskread diskio
  simp only [Prog.wp_bind, Prog.wp_get, Prog.wp_modify, Prog.wp_ite, Prog.wp_pure, Prog.wp_fail, Prog.wp_gets]
  exact ⟨fun _ => ⟨trivial, trivial⟩, fun _ => trivial⟩

/-- **`sb_load`** at the start of a run. -/
theorem sbLoad_wp (sectors : ℕ → Block) (nblocks : ℕ) (ios mallocs : ℕ → Bool) :
    Prog.wp sbLoad (fun _ t => Table1 ((sectors 0).field 4 4) t) (fun _ t => t.dirs1 = [] ∧ t.dirs2 = [])
      (start sectors nblocks ios mallocs) := by
  unfold sbLoad assert
  rw [Prog.wp_bind]
  refine Prog.wp_mono (diskread_wp sfsSuperBlock) (fun sb t ht => ?_) fun _ t ht => ht ▸ ⟨rfl, rfl⟩
  obtain ⟨rfl, rfl⟩ := ht
  rw [seek_of_lt (by decide)]
  simp only [Prog.wp_bind, Prog.wp_modify, Prog.wp_ite, Prog.wp_fail, Prog.wp_get, Prog.wp_pure]
  refine ⟨fun _ => ⟨rfl, rfl⟩, fun _ => ⟨fun hpos => ⟨fun _ => ?_, fun _ => ⟨rfl, rfl⟩⟩, fun _ => ⟨rfl, rfl⟩⟩⟩
  exact ⟨hpos, rfl, List.nodup_nil, fun _ h => absurd h List.not_mem_nil, List.nodup_nil,
    fun _ h => absurd h List.not_mem_nil, rfl⟩

/-- `inode_sorttable` permutes the table. -/
theorem inodeSorttable_wp (h : Table1 n s) :
    Prog.wp inodeSorttable (fun _ t => Table2 n t) (fun _ t => t = s) s := by
  unfold inodeSorttable
  rw [Prog.wp_bind, Prog.wp_get]
  split
  · next inodes hsort =>
    have hperm : (inodes.map Inodeinfo.ino).Perm (inos s) := (qsort_perm hsort).map _
    rw [Prog.wp_modify]
    refine ⟨h.pos, hperm.nodup_iff.mpr h.nodup, fun ino hino => h.range ino (hperm.mem_iff.mp hino), h.once.nodup1,
      h.once.length1, h.once.nodup2, fun d hd => ?_⟩
    change d ∈ s.dirs2 at hd
    rw [h.none2] at hd
    exact absurd hd List.not_mem_nil
  · rfl

theorem Once.of_nil {s : Fsck} (h : s.dirs1 = [] ∧ s.dirs2 = []) (n : ℕ) : Once n s := by
  refine ⟨?_, ?_, ?_, ?_⟩ <;> simp [h.1, h.2]

/-- **The run of `sfsck` ends**, and each pass goes through the entries of
each directory at most once. -/
theorem sfsck_ends (sectors : ℕ → Block) (nblocks : ℕ) (ios mallocs : ℕ → Bool) {fuel : ℕ}
    (hfuel : (sectors 0).field 4 4 < fuel) :
    Prog.wp (sfsck fuel) (fun _ t => Once ((sectors 0).field 4 4) t) (fun _ t => Once ((sectors 0).field 4 4) t)
      (start sectors nblocks ios mallocs) := by
  generalize hn : (sectors 0).field 4 4 = n at hfuel ⊢
  unfold sfsck sfsckPass1 pass1 pass2
  simp only [Prog.wp_bind]
  refine Prog.wp_mono (hn ▸ sbLoad_wp sectors nblocks ios mallocs) (fun _ s1 h1 => ?_) fun _ t ht => Once.of_nil ht n
  refine wp_quiet (fun _ s2 q2 => ?_) fun _ t q => (h1.quiet q).once
  refine wp_quiet (fun _ s3 q3 => ?_) fun _ t q => ((h1.quiet q2).quiet q).once
  have h3 := (h1.quiet q2).quiet q3
  refine wp_quiet (fun _ s4 q4 => ?_) fun _ t q => (h3.quiet q).once
  rw [Prog.wp_get]
  refine Prog.wp_mono (pass1Dir_wp n fuel _ _ s4 (h3.quiet q4) (Or.inl rfl) (by omega)) (fun _ s5 h5 => ?_)
    fun _ t ht => ht.once
  refine wp_quiet (fun _ s6 q6 => ?_) fun _ t q => (h5.1.quiet q).once
  refine Prog.wp_mono (inodeSorttable_wp (h5.1.quiet q6)) (fun _ s7 h7 => ?_) fun _ t ht => ht ▸ (h5.1.quiet q6).once
  rw [Prog.wp_get]
  refine Prog.wp_mono (pass2Dir_wp n fuel _ _ _ s7 h7 (h7.unvisited_le.trans_lt hfuel)) (fun _ s8 h8 => ?_)
    fun _ t ht => ht.once
  rw [Prog.wp_pure]
  refine wp_quiet (fun _ s9 q9 => ?_) fun _ t q => (h8.1.quiet q).once
  rw [Prog.wp_get]
  refine wp_quiet (fun _ s10 q10 => ?_) fun _ t q => ((h8.1.quiet q9).quiet q).once
  exact ((h8.1.quiet q9).quiet q10).once

/-- A volume of 8 blocks whose root directory has itself as a subdirectory. -/
def selfImage : ℕ → Block
  | 0 => (Bytes.setField Block.zeros 0 4 sfsMagic).setField 4 4 8
  | 1 => ((Block.zeros.setSize 64).setType sfsTypeDir).setDirect 0 5
  | 5 => blockOf fun j => if j = 0 then (Dirent.zeros.setIno 1).setName [97] else Dirent.zeros
  | _ => Block.zeros

theorem sfsck_ends_self : (selfImage 0).field 4 4 = 8 ∧
    Prog.wp (sfsck 9) (fun _ t => Once ((selfImage 0).field 4 4) t) (fun _ t => Once ((selfImage 0).field 4 4) t)
      (start selfImage 8 (fun _ => true) fun _ => true) := by
  have h8 : (selfImage 0).field 4 4 = 8 := Bytes.field_setField_same _ 8 (by decide)
  exact ⟨h8, sfsck_ends selfImage 8 _ _ (by rw [h8]; decide)⟩

end Sfsck

end Os161
