/-
# Loading an executable

`load_elf` and `load_segment` (`kern/syscall/loadelf.c`) in a fresh address
space of `dumbvm`. The program headers are gone through twice: first each
loadable segment is defined as a region, then each is read into user memory,
where the copies fault the pages in. Nothing in between looks at what regions
were defined, but `vm_fault` asserts that there are two, neither of them at
page 0 nor empty. `load_elf` is safe for an executable exactly if its segments
make such an address space (`loadElf_safe_iff`); most others are not refused.

What the segments hold is not modelled, nor are the flags of a segment, which
`as_define_region` ignores.
-/
import Os161.Vm.Dumbvm
import Os161.Kern.Copyinout

namespace Os161

/-- An executable file. -/
structure Executable where
  size : ℕ
  byte : ℕ → ℕ
  byte_lt : ∀ i, byte i < 256

/-- A 16-bit field of the file, most significant byte first. -/
def Executable.half (f : Executable) (o : ℕ) : ℕ := f.byte o * 256 + f.byte (o + 1)

/-- A 32-bit field of the file. -/
def Executable.word (f : Executable) (o : ℕ) : ℕ := f.half o * 2 ^ 16 + f.half (o + 2)

/-- `Elf_Ehdr`, without what `load_elf` does not look at. -/
structure ElfEhdr where
  eIdent : List ℕ
  eType : ℕ
  eMachine : ℕ
  eVersion : ℕ
  eEntry : ℕ
  ePhoff : ℕ
  ePhentsize : ℕ
  ePhnum : ℕ

/-- `Elf_Phdr`, without what `load_elf` does not look at. -/
structure ElfPhdr where
  pType : ℕ
  pOffset : ℕ
  pVaddr : ℕ
  pFilesz : ℕ
  pMemsz : ℕ
  deriving DecidableEq

/-- The executable header; a short read is `ENOEXEC`. -/
def readEhdr (f : Executable) : Except Errno ElfEhdr :=
  if f.size < 52 then .error .enoexec
  else .ok
    { eIdent := (List.range 7).map f.byte
      eType := f.half 16
      eMachine := f.half 18
      eVersion := f.word 20
      eEntry := f.word 24
      ePhoff := f.word 28
      ePhentsize := f.half 42
      ePhnum := f.half 44 }

/-- A 32-bit most-significant-byte-first version-1 executable for MIPS. -/
def ElfEhdr.Accepted (eh : ElfEhdr) : Prop :=
  eh.eIdent = [0x7f, 0x45, 0x4c, 0x46, 1, 2, 1] ∧ eh.eVersion = 1 ∧ eh.eType = 2 ∧ eh.eMachine = 8

instance (eh : ElfEhdr) : Decidable eh.Accepted := by unfold ElfEhdr.Accepted; infer_instance

/-- `PT_NULL`, `PT_LOAD`, `PT_PHDR` and `PT_MIPS_REGINFO`. -/
def ptNull : ℕ := 0
@[inherit_doc ptNull] def ptLoad : ℕ := 1
@[inherit_doc ptNull] def ptPhdr : ℕ := 6
@[inherit_doc ptNull] def ptMipsReginfo : ℕ := 0x70000000

/-- The start of the body of both loops of `load_elf`: program header `i` if it
is one of a segment to load, `none` if it is to be skipped. -/
def segment (f : Executable) (eh : ElfEhdr) (i : ℕ) : Except Errno (Option ElfPhdr) :=
  let offset := wadd eh.ePhoff (wcast (i * eh.ePhentsize))
  if f.size < offset + 32 then .error .enoexec
  else
    let ph : ElfPhdr :=
      { pType := f.word offset
        pOffset := f.word (offset + 4)
        pVaddr := f.word (offset + 8)
        pFilesz := f.word (offset + 16)
        pMemsz := f.word (offset + 20) }
    if ph.pType = ptNull ∨ ph.pType = ptPhdr ∨ ph.pType = ptMipsReginfo then .ok none
    else if ph.pType = ptLoad then .ok (some ph)
    else .error .enoexec

/-- A store to user memory: a page that is not in the TLB faults. -/
def touch (addr : ℕ) : Prog Errno Vm Unit := do
  let s ← Prog.get
  if (List.range numTlb).any fun i => (s.tlb i).map Prod.fst = some (pageFrame addr) then pure ()
  else vmFault .write addr

/-- `copyout`, byte after byte; what is copied is not modelled. -/
def copyoutTouch (userdest len : ℕ) : Prog Errno Vm Unit :=
  match copycheck userdest len with
  | .error e => Prog.fail e
  | .ok stoplen => if stoplen ≠ len then Prog.fail .efault else Prog.forUp len fun i => touch (userdest + i)

/-- How a file system cuts the read of so many bytes from an offset into calls
of `uiomove`. -/
structure Cuts where
  split : ℕ → ℕ → List ℕ
  pos : ∀ offset n, ∀ c ∈ split offset n, 0 < c
  sum : ∀ offset n, (split offset n).sum = n

/-- The calls of `uiomove`, from an address on. -/
def uiomoves : List ℕ → ℕ → Prog Errno Vm Unit
  | [], _ => pure ()
  | c :: cs, base => do
    copyoutTouch base c
    uiomoves cs (wadd base c)

/-- The `filesize` of `load_segment`, after the comparison with `memsize`. -/
def ElfPhdr.filesize (ph : ElfPhdr) : ℕ := if ph.pMemsz < ph.pFilesz then ph.pMemsz else ph.pFilesz

/-- `load_segment`. -/
def loadSegment (cuts : Cuts) (f : Executable) (ph : ElfPhdr) : Prog Errno Vm Unit := do
  -- `VOP_READ` ends at the end of the file
  let n := min ph.filesize (f.size - ph.pOffset)
  uiomoves (cuts.split ph.pOffset n) ph.pVaddr
  if n ≠ ph.filesize then Prog.fail .enoexec else pure ()

/-- The first loop of `load_elf`. -/
def defineRegion (f : Executable) (eh : ElfEhdr) (i : ℕ) : Prog Errno Vm Unit := do
  match segment f eh i with
  | .error e => Prog.fail e
  | .ok none => pure ()
  | .ok (some ph) => do
    let s ← Prog.get
    match asDefineRegion s.as ph.pVaddr ph.pMemsz with
    | .error e => Prog.fail e
    | .ok as => Prog.modify fun s => { s with as := as }

/-- The second loop of `load_elf`. -/
def loadRegion (cuts : Cuts) (f : Executable) (eh : ElfEhdr) (i : ℕ) : Prog Errno Vm Unit :=
  match segment f eh i with
  | .error e => Prog.fail e
  | .ok none => pure ()
  | .ok (some ph) => loadSegment cuts f ph

/-- `load_elf`; the result is the entry point. -/
def loadElf (cuts : Cuts) (f : Executable) : Prog Errno Vm ℕ :=
  match readEhdr f with
  | .error e => Prog.fail e
  | .ok eh =>
    if eh.Accepted then do
      Prog.forUp eh.ePhnum (defineRegion f eh)
      asPrepareLoad
      Prog.forUp eh.ePhnum (loadRegion cuts f eh)
      pure eh.eEntry
    else Prog.fail .enoexec

/-! ### The regions of a list of segments -/

/-- The pages of a segment. -/
def ElfPhdr.pages (ph : ElfPhdr) : ℕ := regionPages ph.pVaddr ph.pMemsz

/-- The segments outside page 0. -/
def highs (l : List ElfPhdr) : List ElfPhdr := l.filter fun ph => pageSize ≤ ph.pVaddr

/-- The address space with the regions of these segments. -/
def defineAll (l : List ElfPhdr) : Except Errno Addrspace :=
  l.foldlM (fun as ph => asDefineRegion as ph.pVaddr ph.pMemsz) asCreate

/-- Two regions outside page 0, of which one is the last of all; neither is
empty. -/
def TwoLoads (l : List ElfPhdr) : Prop :=
  ∃ l0 a b, l = l0 ++ [b] ∧ highs l0 = [a] ∧ pageSize ≤ b.pVaddr ∧ a.pages ≠ 0 ∧ b.pages ≠ 0

/-- The address space that the segments make. A region at page 0 leaves its base
0, and the next one takes its place. -/
inductive Regions (l : List ElfPhdr) (as : Addrspace) : Prop
  | none (hl : highs l = []) (hv1 : as.asVbase1 = 0) (hv2 : as.asVbase2 = 0)
  | one (a : ElfPhdr) (hl : highs l = [a]) (hv1 : as.asVbase1 = pageFrame a.pVaddr) (hn1 : as.asNpages1 = a.pages)
      (hv2 : as.asVbase2 = 0)
  | two (l0 : List ElfPhdr) (a b : ElfPhdr) (hl : l = l0 ++ [b]) (hl0 : highs l0 = [a]) (hb : pageSize ≤ b.pVaddr)
      (hv1 : as.asVbase1 = pageFrame a.pVaddr) (hn1 : as.asNpages1 = a.pages)
      (hv2 : as.asVbase2 = pageFrame b.pVaddr) (hn2 : as.asNpages2 = b.pages)

section Define

variable {l : List ElfPhdr} {ph : ElfPhdr} {as as' : Addrspace}

theorem pageFrame_eq_zero_iff {a : ℕ} : pageFrame a = 0 ↔ a < pageSize := by
  unfold pageFrame pageSize
  omega

theorem highs_append_high (l : List ElfPhdr) (h : pageSize ≤ ph.pVaddr) : highs (l ++ [ph]) = highs l ++ [ph] := by
  simp [highs, h]

theorem highs_append_low (l : List ElfPhdr) (h : ¬ pageSize ≤ ph.pVaddr) : highs (l ++ [ph]) = highs l := by
  simp [highs, h]

theorem high_of_highs {a : ElfPhdr} (h : highs l = [a]) : pageFrame a.pVaddr ≠ 0 := by
  have ha : a ∈ highs l := by simp [h]
  have := of_decide_eq_true (List.mem_filter.mp ha).2
  rwa [ne_eq, pageFrame_eq_zero_iff, Nat.not_lt]

theorem defineAll_append (l : List ElfPhdr) (ph : ElfPhdr) :
    defineAll (l ++ [ph]) = (defineAll l).bind fun as => asDefineRegion as ph.pVaddr ph.pMemsz := by
  unfold defineAll
  rw [List.foldlM_append]
  refine congrArg _ (funext fun as => ?_)
  rw [List.foldlM_cons]
  cases asDefineRegion as ph.pVaddr ph.pMemsz <;> rfl

/-- One more segment. -/
theorem Regions.define (h : Regions l as) (hd : asDefineRegion as ph.pVaddr ph.pMemsz = .ok as') :
    Regions (l ++ [ph]) as' := by
  unfold asDefineRegion at hd
  have hlow : ¬ pageSize ≤ ph.pVaddr → pageFrame ph.pVaddr = 0 := fun h =>
    pageFrame_eq_zero_iff.mpr (Nat.not_le.mp h)
  cases h with
  | none hl hv1 hv2 =>
    rw [if_pos hv1] at hd
    obtain rfl := Except.ok.inj hd
    by_cases hph : pageSize ≤ ph.pVaddr
    · exact .one ph (by rw [highs_append_high l hph, hl]; rfl) rfl rfl hv2
    · exact .none (by rw [highs_append_low l hph, hl]) (hlow hph) hv2
  | one a hl hv1 hn1 hv2 =>
    rw [if_neg (hv1 ▸ high_of_highs hl), if_pos hv2] at hd
    obtain rfl := Except.ok.inj hd
    by_cases hph : pageSize ≤ ph.pVaddr
    · exact .two l a ph rfl hl hph hv1 hn1 rfl rfl
    · exact .one a (by rw [highs_append_low l hph, hl]) hv1 hn1 (hlow hph)
  | two l0 a b hl hl0 hb hv1 hn1 hv2 hn2 =>
    rw [if_neg (hv1 ▸ high_of_highs hl0), if_neg (by rw [hv2, pageFrame_eq_zero_iff]; omega)] at hd
    cases hd

theorem asDefineRegion_unloaded (h : as.Unloaded) (hd : asDefineRegion as ph.pVaddr ph.pMemsz = .ok as') :
    as'.Unloaded := by
  unfold asDefineRegion at hd
  split_ifs at hd <;> obtain rfl := Except.ok.inj hd <;> exact ⟨h.1, h.2, h.3⟩

theorem defineAll_regions : ∀ {l : List ElfPhdr} {as : Addrspace}, defineAll l = .ok as →
    Regions l as ∧ as.Unloaded := by
  intro l
  induction l using List.reverseRecOn with
  | nil =>
    intro as h
    obtain rfl := Except.ok.inj h
    exact ⟨.none rfl rfl rfl, ⟨rfl, rfl, rfl⟩⟩
  | append_singleton l ph ih =>
    intro as' h
    rw [defineAll_append] at h
    cases hl : defineAll l with
    | error e => rw [hl] at h; cases h
    | ok as =>
      rw [hl] at h
      exact ⟨(ih hl).1.define h, asDefineRegion_unloaded (ih hl).2 h⟩

/-- There is room for one more region exactly if at most one is outside page 0. -/
theorem Regions.room_iff (h : Regions l as) :
    (∃ as', asDefineRegion as ph.pVaddr ph.pMemsz = .ok as') ↔ (highs l).length ≤ 1 := by
  unfold asDefineRegion
  cases h with
  | none hl hv1 hv2 => simp [hl, hv1]
  | one a hl hv1 hn1 hv2 => simp [hl, hv1, hv2, high_of_highs hl]
  | two l0 a b hl hl0 hb hv1 hn1 hv2 hn2 =>
    have hb' : ¬ b.pVaddr < pageSize := Nat.not_lt.mpr hb
    simp [hl, highs_append_high l0 hb, hl0, hv1, hv2, high_of_highs hl0, pageFrame_eq_zero_iff, hb']

/-- **The segments that can be defined**: no more than one before the last is
outside page 0. -/
theorem defineAll_ok_iff : (∃ as, defineAll l = .ok as) ↔ (highs l.dropLast).length ≤ 1 := by
  induction l using List.reverseRecOn with
  | nil => simp [defineAll, highs]; exact ⟨_, rfl⟩
  | append_singleton l ph ih =>
    rw [defineAll_append, List.dropLast_concat]
    cases hl : defineAll l with
    | error e =>
      have hnot : ¬ (highs l.dropLast).length ≤ 1 := fun h => by
        obtain ⟨as, has⟩ := ih.mpr h
        rw [hl] at has
        cases has
      have hsub : (highs l.dropLast).length ≤ (highs l).length := ((List.dropLast_sublist l).filter _).length_le
      exact ⟨fun ⟨_, h⟩ => (by cases h), fun h => absurd (hsub.trans h) hnot⟩
    | ok as => exact (defineAll_regions hl).1.room_iff

/-- **The address spaces that can be used.** -/
theorem usable_iff (h : Regions l as) :
    (as.asVbase1 ≠ 0 ∧ as.asNpages1 ≠ 0 ∧ as.asVbase2 ≠ 0 ∧ as.asNpages2 ≠ 0) ↔ TwoLoads l := by
  have hlen : TwoLoads l → (highs l).length = 2 := by
    rintro ⟨l0, a, b, rfl, hl0, hb, -⟩
    rw [highs_append_high l0 hb, hl0]
    rfl
  cases h with
  | none hl hv1 hv2 => exact ⟨fun h => absurd hv1 h.1, fun h => by have := hlen h; simp [hl] at this⟩
  | one a hl hv1 hn1 hv2 => exact ⟨fun h => absurd hv2 h.2.2.1, fun h => by have := hlen h; simp [hl] at this⟩
  | two l0 a b hl hl0 hb hv1 hn1 hv2 hn2 =>
    constructor
    · rintro ⟨-, h1, -, h2⟩
      exact ⟨l0, a, b, hl, hl0, hb, hn1 ▸ h1, hn2 ▸ h2⟩
    · rintro ⟨l0', a', b', hl', hl0', -, h1, h2⟩
      obtain ⟨rfl, hbb⟩ := List.append_inj' (hl.symm.trans hl') rfl
      obtain rfl := List.singleton_inj.mp hbb
      obtain rfl := List.singleton_inj.mp (hl0.symm.trans hl0')
      refine ⟨hv1 ▸ high_of_highs hl0, hn1 ▸ h1, ?_, hn2 ▸ h2⟩
      rw [hv2, ne_eq, pageFrame_eq_zero_iff]
      omega

/-- The bases of the regions are those of pages. -/
theorem Regions.aligned (h : Regions l as) : as.asVbase1 % pageSize = 0 ∧ as.asVbase2 % pageSize = 0 := by
  cases h with
  | none hl hv1 hv2 => rw [hv1, hv2]; exact ⟨rfl, rfl⟩
  | one a hl hv1 hn1 hv2 => rw [hv1, hv2]; exact ⟨pageFrame_mod _, rfl⟩
  | two l0 a b hl hl0 hb hv1 hn1 hv2 hn2 => rw [hv1, hv2]; exact ⟨pageFrame_mod _, pageFrame_mod _⟩

end Define

/-! ### The program headers -/

/-- The segments to load among the first `n` program headers. -/
def loadsUpto (f : Executable) (eh : ElfEhdr) : ℕ → Except Errno (List ElfPhdr)
  | 0 => .ok []
  | n + 1 => (loadsUpto f eh n).bind fun l => (segment f eh n).map fun p => l ++ p.toList

/-- The segments to load of an executable that is not turned away for its
headers. -/
def loads (f : Executable) : Except Errno (List ElfPhdr) :=
  (readEhdr f).bind fun eh => if eh.Accepted then loadsUpto f eh eh.ePhnum else .error .enoexec

section Headers

variable {f : Executable} {eh : ElfEhdr} {s : Vm}

theorem loadsUpto_succ {n : ℕ} {l : List ElfPhdr} : loadsUpto f eh (n + 1) = .ok l ↔
    ∃ l' p, loadsUpto f eh n = .ok l' ∧ segment f eh n = .ok p ∧ l = l' ++ p.toList := by
  rw [loadsUpto]
  cases loadsUpto f eh n with
  | error e => simp [Except.bind]
  | ok l' =>
    cases segment f eh n with
    | error e => simp [Except.bind, Except.map]
    | ok p =>
      simp only [Except.bind, Except.map, Except.ok.injEq, exists_and_left, exists_eq_left', eq_comm]

/-- The segments of fewer program headers come first. -/
theorem loadsUpto_prefix {k n : ℕ} (hk : k ≤ n) : ∀ {l : List ElfPhdr}, loadsUpto f eh n = .ok l →
    ∃ l' l'', loadsUpto f eh k = .ok l' ∧ l = l' ++ l'' := by
  induction n, hk using Nat.le_induction with
  | base => exact fun h => ⟨_, [], h, by simp⟩
  | succ n _ ih =>
    intro l h
    obtain ⟨l1, p, h1, -, rfl⟩ := loadsUpto_succ.mp h
    obtain ⟨l', l'', h', rfl⟩ := ih h1
    exact ⟨l', l'' ++ p.toList, h', by simp⟩

theorem defineAll_prefix {l l' : List ElfPhdr} {as : Addrspace} (h : defineAll (l ++ l') = .ok as) :
    ∃ as', defineAll l = .ok as' := by
  induction l' using List.reverseRecOn generalizing as with
  | nil => exact ⟨as, by rwa [List.append_nil] at h⟩
  | append_singleton l' ph ih =>
    rw [← List.append_assoc, defineAll_append] at h
    cases hl : defineAll (l ++ l') with
    | error e => rw [hl] at h; cases h
    | ok as' => exact ih hl

/-- **The first loop** defines the regions of the segments, if there is room
for them. -/
theorem defineRegions_wp (f : Executable) (eh : ElfEhdr) (hs : s.as = asCreate) (n : ℕ) :
    Prog.wlp False (Prog.forUp n (defineRegion f eh))
      (fun _ t => ∃ l, loadsUpto f eh n = .ok l ∧ defineAll l = .ok t.as ∧ t.ram = s.ram ∧ t.tlb = s.tlb)
      (fun _ t => t.as.Unloaded ∧ ∀ l as, loadsUpto f eh n = .ok l → defineAll l ≠ .ok as) s := by
  refine Prog.wlp_forUp (I := fun k (t : Vm) => ∃ l, loadsUpto f eh k = .ok l ∧ defineAll l = .ok t.as ∧
    t.ram = s.ram ∧ t.tlb = s.tlb) ⟨[], rfl, by rw [hs]; rfl, rfl, rfl⟩ ?_
  rintro k hk t ⟨l, hl, hdef, hram, htlb⟩
  have hun := (defineAll_regions hdef).2
  unfold defineRegion
  cases hseg : segment f eh k with
  | error e =>
    refine ⟨hun, fun l' as hl' _ => ?_⟩
    obtain ⟨l1, -, h1, -⟩ := loadsUpto_prefix hk hl'
    obtain ⟨-, p, -, hp, -⟩ := loadsUpto_succ.mp h1
    rw [hseg] at hp
    cases hp
  | ok p =>
    have hsucc : loadsUpto f eh (k + 1) = .ok (l ++ p.toList) := loadsUpto_succ.mpr ⟨l, p, hl, hseg, rfl⟩
    cases p with
    | none => exact ⟨l, by simpa using hsucc, hdef, hram, htlb⟩
    | some ph =>
      have hadd : defineAll (l ++ [ph]) = asDefineRegion t.as ph.pVaddr ph.pMemsz := by
        rw [defineAll_append, hdef]
        rfl
      simp only [Prog.wlp_bind, Prog.wlp_get]
      cases has : asDefineRegion t.as ph.pVaddr ph.pMemsz with
      | error e =>
        refine ⟨hun, fun l' as hl' has' => ?_⟩
        obtain ⟨l1, l2, h1, rfl⟩ := loadsUpto_prefix hk hl'
        obtain rfl := Except.ok.inj (hsucc.symm.trans h1)
        obtain ⟨as', has''⟩ := defineAll_prefix has'
        rw [Option.toList_some, hadd, has] at has''
        cases has''
      | ok as => exact ⟨l ++ [ph], hsucc, hadd.trans has, hram, htlb⟩

end Headers

/-! ### The copies -/

/-- An address space and its memory. -/
def Keeps (as : Addrspace) (ram : Ram) (t : Vm) : Prop := t.as = as ∧ t.ram = ram

section Copies

variable {S : Prop} {as : Addrspace} {ram : Ram} {s : Vm} {f : Executable} (cuts : Cuts)

theorem vmFault_keeps (h : as.Sound ∨ S) (hs : Keeps as ram s) (addr : ℕ) :
    Prog.wlp S (vmFault .write addr) (fun _ => Keeps as ram) (fun _ => Keeps as ram) s := by
  rcases h with hsound | hS
  · refine Prog.wlp_mono (Prog.wlp_of_wp (vmFault_sound (hs.1 ▸ hsound) (.inr rfl) addr)) ?_ ?_
    · rintro - t ⟨i, frame, rfl, -⟩
      exact hs
    · rintro e t ⟨-, rfl⟩
      exact hs
  · simp only [vmFault, Prog.wlp_bind, Prog.wlp_get, assertAddrspace_wlp]
    refine ⟨fun _ => ?_, fun _ => hS⟩
    cases translate s.as (pageFrame addr) with
    | none => exact hs
    | some frame =>
      simp only [Prog.wlp_bind, Prog.wlp_assert, tlbFill, Prog.wlp_get]
      refine ⟨fun _ => ?_, fun _ => hS⟩
      cases (List.range numTlb).find? fun i => (s.tlb i).isNone with
      | none => exact hs
      | some i => exact hs

theorem touch_keeps (h : as.Sound ∨ S) (hs : Keeps as ram s) (addr : ℕ) :
    Prog.wlp S (touch addr) (fun _ => Keeps as ram) (fun _ => Keeps as ram) s := by
  unfold touch
  rw [Prog.wlp_bind, Prog.wlp_get, Prog.wlp_ite]
  exact ⟨fun _ => hs, fun _ => vmFault_keeps h hs addr⟩

theorem copyoutTouch_keeps (h : as.Sound ∨ S) (hs : Keeps as ram s) (userdest len : ℕ) :
    Prog.wlp S (copyoutTouch userdest len) (fun _ => Keeps as ram) (fun _ => Keeps as ram) s := by
  unfold copyoutTouch
  cases copycheck userdest len with
  | error e => exact hs
  | ok stoplen =>
    simp only [Prog.wlp_ite, Prog.wlp_fail]
    refine ⟨fun _ => hs, fun _ => ?_⟩
    exact Prog.wlp_forUp (I := fun _ => Keeps as ram) hs fun i _ t ht => touch_keeps h ht _

theorem uiomoves_keeps (h : as.Sound ∨ S) : ∀ (cs : List ℕ) (base : ℕ) {s : Vm}, Keeps as ram s →
    Prog.wlp S (uiomoves cs base) (fun _ => Keeps as ram) (fun _ => Keeps as ram) s
  | [], _, _, hs => hs
  | c :: cs, base, _, hs => by
    rw [uiomoves, Prog.wlp_bind]
    exact Prog.wlp_mono (copyoutTouch_keeps h hs base c) (fun _ _ ht => uiomoves_keeps h cs _ ht) fun _ _ ht => ht

/-- **The second loop** leaves the address space as it is. -/
theorem loadRegions_keeps (h : as.Sound ∨ S) (hs : Keeps as ram s) (eh : ElfEhdr) (n : ℕ) :
    Prog.wlp S (Prog.forUp n (loadRegion cuts f eh)) (fun _ => Keeps as ram) (fun _ => Keeps as ram) s := by
  refine Prog.wlp_forUp (I := fun _ => Keeps as ram) hs fun i _ t ht => ?_
  unfold loadRegion
  cases segment f eh i with
  | error e => exact ht
  | ok p =>
    cases p with
    | none => exact ht
    | some ph =>
      simp only [loadSegment, Prog.wlp_bind]
      refine Prog.wlp_mono (uiomoves_keeps h _ _ ht) (fun _ u hu => ?_) fun _ _ hu => hu
      rw [Prog.wlp_ite]
      exact ⟨fun _ => hu, fun _ => hu⟩

end Copies

/-! ### Copies into an address space that is not complete -/

/-- The read of the segment fails without a copy: its data starts at the end of
the file or behind it, or the first piece of it goes past the user addresses. -/
def Refuses (cuts : Cuts) (f : Executable) (ph : ElfPhdr) : Prop :=
  f.size ≤ ph.pOffset ∨
    ∃ c ∈ (cuts.split ph.pOffset (min ph.filesize (f.size - ph.pOffset))).head?, userspacetop < ph.pVaddr + c

/-- The first segment with data to copy is refused. -/
def CopyRefused (cuts : Cuts) (f : Executable) (l : List ElfPhdr) : Prop :=
  ∃ ph ∈ l.find? fun ph => ph.filesize ≠ 0, Refuses cuts f ph

section Incomplete

variable {s : Vm} {f : Executable} {cuts : Cuts}

/-- Nothing is in the TLB, and no fault can be served. -/
structure Bare (s : Vm) : Prop where
  tlb : ∀ i, s.tlb i = none
  notReady : ¬ s.as.Ready

theorem touch_stops (h : Bare s) (addr : ℕ) : touch addr s = .stop := by
  unfold touch
  rw [Prog.get_bind, if_neg (by simp [h.tlb])]
  exact vmFault_stops h.notReady (.inr rfl) addr

theorem copyoutTouch_bare (h : Bare s) {base c : ℕ} (hc : 0 < c) (hc' : c < 2 ^ 32) (hbase : base < 2 ^ 32) :
    copyoutTouch base c s = if userspacetop < base + c then .fail .efault s else .stop := by
  unfold copyoutTouch
  split_ifs with hover
  · have hne := copycheck_outside hbase hc' hover
    cases hcheck : copycheck base c with
    | error e => rw [copycheck_error hcheck]; rfl
    | ok stoplen =>
      have : stoplen ≠ c := fun h => hne (h ▸ hcheck)
      simp only [if_pos this]
      rfl
  · rw [copycheck_inside (by omega) (by omega)]
    simp only [ne_eq, not_true, if_false]
    obtain ⟨m, rfl⟩ : ∃ m, c = m + 1 := ⟨c - 1, by omega⟩
    exact Prog.forUp_of_stop m (touch_stops h _)

theorem split_zero (cuts : Cuts) (o : ℕ) : cuts.split o 0 = [] := by
  cases h : cuts.split o 0 with
  | nil => rfl
  | cons c cs =>
    have hpos := cuts.pos o 0 c (h ▸ List.mem_cons_self)
    have hsum := cuts.sum o 0
    rw [h, List.sum_cons] at hsum
    omega

theorem split_pos (cuts : Cuts) (o : ℕ) {n : ℕ} (hn : n ≠ 0) :
    ∃ c cs, cuts.split o n = c :: cs ∧ 0 < c ∧ c ≤ n := by
  have hsum := cuts.sum o n
  cases h : cuts.split o n with
  | nil => rw [h] at hsum; exact absurd hsum.symm hn
  | cons c cs =>
    rw [h, List.sum_cons] at hsum
    exact ⟨c, cs, rfl, cuts.pos o n c (h ▸ List.mem_cons_self), by omega⟩

/-- A segment with no data. -/
theorem loadSegment_empty {ph : ElfPhdr} (h : ph.filesize = 0) : loadSegment cuts f ph s = .ok () s := by
  simp only [loadSegment, h, Nat.zero_min, split_zero, uiomoves, ne_eq, not_true, if_false]
  rfl

/-- A segment with data is refused, or the copy of its first byte stops. -/
theorem loadSegment_bare (h : Bare s) {ph : ElfPhdr} (hph : ph.filesize ≠ 0) (hsize : ph.filesize < 2 ^ 32)
    (hv : ph.pVaddr < 2 ^ 32) :
    (Refuses cuts f ph ∧ ∃ e, loadSegment cuts f ph s = .fail e s) ∨
      (¬ Refuses cuts f ph ∧ loadSegment cuts f ph s = .stop) := by
  unfold loadSegment Refuses
  generalize hn : min ph.filesize (f.size - ph.pOffset) = n
  by_cases heof : f.size ≤ ph.pOffset
  · obtain rfl : n = 0 := by omega
    refine .inl ⟨.inl heof, .enoexec, ?_⟩
    simp only [split_zero, uiomoves]
    exact if_pos hph.symm ▸ rfl
  · obtain ⟨c, cs, hsplit, hc, hcn⟩ := split_pos cuts ph.pOffset (n := n) (by omega)
    have hcopy := copyoutTouch_bare h hc (by omega) hv
    simp only [heof, hsplit, uiomoves, List.head?_cons, Option.mem_some_iff, exists_eq_left', false_or]
    by_cases hover : userspacetop < ph.pVaddr + c
    · rw [if_pos hover] at hcopy
      exact .inl ⟨hover, .efault, Prog.bind_of_fail (Prog.bind_of_fail hcopy _) _⟩
    · rw [if_neg hover] at hcopy
      exact .inr ⟨hover, Prog.bind_of_stop (Prog.bind_of_stop hcopy _) _⟩

theorem Executable.half_lt (f : Executable) (o : ℕ) : f.half o < 2 ^ 16 := by
  have h1 := f.byte_lt o
  have h2 := f.byte_lt (o + 1)
  unfold Executable.half
  omega

theorem Executable.word_lt (f : Executable) (o : ℕ) : f.word o < 2 ^ 32 := by
  have h1 := f.half_lt o
  have h2 := f.half_lt (o + 2)
  unfold Executable.word
  omega

/-- The fields of a program header have 32 bits. -/
theorem segment_lt {eh : ElfEhdr} {i : ℕ} {ph : ElfPhdr} (h : segment f eh i = .ok (some ph)) :
    ph.pVaddr < 2 ^ 32 ∧ ph.filesize < 2 ^ 32 := by
  simp only [segment] at h
  split_ifs at h
  · simp at h
  · obtain rfl := Option.some.inj (Except.ok.inj h)
    refine ⟨f.word_lt _, ?_⟩
    unfold ElfPhdr.filesize
    split_ifs
    · exact f.word_lt _
    · exact f.word_lt _

/-- **The second loop in an address space that is not complete** ends at the
first segment with data: it is refused, or the machine stops. -/
theorem loadRegions_bare (h : Bare s) {eh : ElfEhdr} {n : ℕ} {l : List ElfPhdr} (hl : loadsUpto f eh n = .ok l) :
    Prog.wlp (¬ CopyRefused cuts f l) (Prog.forUp n (loadRegion cuts f eh))
      (fun _ t => ¬ CopyRefused cuts f l ∧ t.as = s.as) (fun _ _ => CopyRefused cuts f l) s := by
  have hloop : Prog.wlp (¬ CopyRefused cuts f l) (Prog.forUp n (loadRegion cuts f eh))
      (fun _ t => t = s ∧ ∃ l', loadsUpto f eh n = .ok l' ∧ ∀ ph ∈ l', ph.filesize = 0)
      (fun _ _ => CopyRefused cuts f l) s := by
    refine Prog.wlp_forUp
      (I := fun k (t : Vm) => t = s ∧ ∃ l', loadsUpto f eh k = .ok l' ∧ ∀ ph ∈ l', ph.filesize = 0)
      ⟨rfl, [], rfl, by simp⟩ ?_
    rintro k hk t ⟨rfl, l', hl', hzero⟩
    obtain ⟨l1, l2, h1, rfl⟩ := loadsUpto_prefix hk hl
    obtain ⟨l1', p, h1', hp, rfl⟩ := loadsUpto_succ.mp h1
    obtain rfl := Except.ok.inj (hl'.symm.trans h1')
    unfold loadRegion
    rw [hp]
    cases p with
    | none => exact ⟨rfl, l', by simpa using h1, hzero⟩
    | some ph =>
      by_cases hph : ph.filesize = 0
      · refine (Prog.wlp_ok (loadSegment_empty hph)).mpr ⟨rfl, _, h1, ?_⟩
        simpa using fun x hx => hx.elim (hzero x) fun hx => hx ▸ hph
      · have hfind : CopyRefused cuts f (l' ++ (some ph).toList ++ l2) ↔ Refuses cuts f ph := by
          have hnone : (l'.find? fun ph => ph.filesize ≠ 0) = none := by simpa using hzero
          have hfirst : ((l' ++ [ph] ++ l2).find? fun ph => ph.filesize ≠ 0) = some ph := by
            rw [List.append_assoc, List.find?_append, hnone]
            simp [hph]
          unfold CopyRefused
          rw [Option.toList_some, hfirst]
          simp
        obtain ⟨hv, hsize⟩ := segment_lt hp
        rw [hfind]
        rcases loadSegment_bare h hph hsize hv with ⟨hr, e, hrun⟩ | ⟨hr, hrun⟩
        · exact (Prog.wlp_fail_run hrun).mpr hr
        · exact (Prog.wlp_stop_run hrun).mpr hr
  refine Prog.wlp_mono hloop ?_ fun _ _ h => h
  rintro - t ⟨rfl, l', hl', hzero⟩
  obtain rfl := Except.ok.inj (hl.symm.trans hl')
  refine ⟨?_, rfl⟩
  rintro ⟨ph, hph, -⟩
  have := List.find?_some hph
  simp [hzero ph (List.mem_of_find?_eq_some hph)] at this

end Incomplete

/-! ### Which executables are safe -/

/-- The address space of a process about to load its executable. -/
def freshVm (ram : Ram) : Vm := ⟨asCreate, ram, fun _ => none⟩

/-- Every later fault maps a page that was obtained since the memory was `ram`,
or returns `EFAULT`. -/
def FaultsSafely (ram : Ram) (t : Vm) : Prop :=
  ∃ obtained, t.ram.stolen = obtained ++ ram.stolen ∧
    ∀ tlb faulttype addr, faulttype = .read ∨ faulttype = .write →
      FaultOk obtained faulttype addr { t with tlb := tlb }

/-- `load_elf` does not stop, nor does any fault after it. -/
def SafeLoad (cuts : Cuts) (f : Executable) (ram : Ram) : Prop :=
  Prog.wp (loadElf cuts f) (fun _ t => FaultsSafely ram t) (fun _ t => FaultsSafely ram t) (freshVm ram)

/-- `load_elf` does not stop, nor does any fault of the program it has loaded. -/
def SafeRun (cuts : Cuts) (f : Executable) (ram : Ram) : Prop :=
  Prog.wp (loadElf cuts f) (fun _ t => FaultsSafely ram t) (fun _ _ => True) (freshVm ram)

/-- The executable has two regions for `dumbvm`. -/
def TwoRegions (f : Executable) : Prop := ∃ l, loads f = .ok l ∧ TwoLoads l

/-- `load_elf` returns an error before its first copy: for the headers, for a
third region, or for the segment the copy is for. -/
def TurnedAway (cuts : Cuts) (f : Executable) : Prop :=
  ∀ l, loads f = .ok l → 2 ≤ (highs l.dropLast).length ∨ CopyRefused cuts f l

section Safe

variable {ram : Ram} {f : Executable} {s : Vm} (cuts : Cuts)

theorem not_faultsSafely (h : ¬ s.as.Ready) : ¬ FaultsSafely ram s := by
  rintro ⟨obtained, -, hf⟩
  exact Prog.wp_ne_stop (hf s.tlb .read 0 (.inl rfl)) (vmFault_stops h (.inl rfl) 0)

theorem faultsSafely (h : s.as.Sound) (hram : s.ram.stolen = s.as.pieces.reverse ++ ram.stolen) :
    FaultsSafely ram s := by
  refine ⟨_, hram, fun tlb ft addr hft => ?_⟩
  refine Prog.wp_mono (vmFault_sound (s := { s with tlb := tlb }) h hft addr) ?_ fun _ _ h => h
  rintro - t ⟨i, frame, ht, ⟨x, hx, hin⟩, hmod⟩
  exact ⟨i, frame, ht, ⟨x, List.mem_reverse.mpr hx, hin⟩, hmod⟩

theorem not_ready_of_unloaded {as : Addrspace} (h : as.Unloaded) : ¬ as.Ready := fun hr => hr.pbase1 h.pbase1

/-- An executable whose regions cannot be defined is turned away. -/
theorem loadElf_refused (ram : Ram) (h : ∀ l as, loads f = .ok l → defineAll l ≠ .ok as) :
    ∃ e t, loadElf cuts f (freshVm ram) = .fail e t ∧ t.as.Unloaded := by
  unfold loads at h
  unfold loadElf
  cases heh : readEhdr f with
  | error e => exact ⟨e, _, rfl, ⟨rfl, rfl, rfl⟩⟩
  | ok eh =>
    simp only [heh, Except.bind] at h
    by_cases hacc : eh.Accepted
    · simp only [if_pos hacc] at h ⊢
      have hloop := defineRegions_wp (s := freshVm ram) f eh rfl eh.ePhnum
      cases hrun : Prog.forUp eh.ePhnum (defineRegion f eh) (freshVm ram) with
      | ok _ t =>
        obtain ⟨l, hl, hdef, -⟩ := (Prog.wlp_ok hrun).mp hloop
        exact absurd hdef (h l t.as hl)
      | fail e t => exact ⟨e, t, Prog.bind_of_fail hrun _, ((Prog.wlp_fail_run hrun).mp hloop).1⟩
      | stop => exact ((Prog.wlp_stop_run hrun).mp hloop).elim
    · simp only [if_neg hacc]
      exact ⟨_, _, rfl, ⟨rfl, rfl, rfl⟩⟩

/-- Otherwise the second loop runs in the address space that was defined, with
pages of its own. -/
theorem loadElf_defined {l : List ElfPhdr} {as : Addrspace} (hl : loads f = .ok l) (hdef : defineAll l = .ok as)
    (hmem : ram.Provides as.total) :
    ∃ eh t, loadsUpto f eh eh.ePhnum = .ok l ∧ t.as = as.withPages ram.firstpaddr ∧ (∀ i, t.tlb i = none) ∧
      t.ram.stolen = t.as.pieces.reverse ++ ram.stolen ∧
      loadElf cuts f (freshVm ram) = (do Prog.forUp eh.ePhnum (loadRegion cuts f eh); pure eh.eEntry) t := by
  unfold loads at hl
  unfold loadElf
  cases heh : readEhdr f with
  | error e => simp [heh, Except.bind] at hl
  | ok eh =>
    simp only [heh, Except.bind] at hl
    by_cases hacc : eh.Accepted
    · simp only [if_pos hacc] at hl ⊢
      have hloop := defineRegions_wp (s := freshVm ram) f eh rfl eh.ePhnum
      cases hrun : Prog.forUp eh.ePhnum (defineRegion f eh) (freshVm ram) with
      | ok _ t =>
        obtain ⟨l', hl', hdef', hram, htlb⟩ := (Prog.wlp_ok hrun).mp hloop
        obtain rfl := Except.ok.inj (hl.symm.trans hl')
        obtain rfl := Except.ok.inj (hdef.symm.trans hdef')
        change t.ram = ram at hram
        obtain ⟨u, hprep, has, htlb', hstolen⟩ := asPrepareLoad_run (defineAll_regions hdef).2 (hram ▸ hmem)
        rw [hram] at has hstolen
        refine ⟨eh, u, hl, has, fun i => by rw [htlb', htlb]; rfl, by rw [has]; exact hstolen, ?_⟩
        rw [Prog.bind_of_ok hrun, Prog.bind_of_ok hprep]
      | fail e t => exact absurd hdef (((Prog.wlp_fail_run hrun).mp hloop).2 l as hl)
      | stop => exact ((Prog.wlp_stop_run hrun).mp hloop).elim
    · simp [if_neg hacc] at hl

section Defined

variable {l : List ElfPhdr} {as : Addrspace}

/-- Two regions are enough. -/
theorem safeLoad_of_twoLoads (hl : loads f = .ok l) (hdef : defineAll l = .ok as) (hmem : ram.Provides as.total)
    (htwo : TwoLoads l) : SafeLoad cuts f ram := by
  have hregions := (defineAll_regions hdef).1
  obtain ⟨h1, h2, h3, h4⟩ := (usable_iff hregions).mpr htwo
  obtain ⟨eh, t, -, has, -, hstolen, hrun⟩ := loadElf_defined cuts hl hdef hmem
  have hsound : t.as.Sound := by
    rw [has]
    exact withPages_sound h1 h2 h3 h4 hregions.aligned.1 hregions.aligned.2 hmem
  have hsafe : ∀ u, Keeps t.as t.ram u → FaultsSafely ram u := fun u hu =>
    faultsSafely (hu.1 ▸ hsound) (by rw [hu.1, hu.2, hstolen])
  unfold SafeLoad
  rw [← Prog.wlp_false, Prog.wlp_congr hrun, Prog.wlp_bind]
  refine Prog.wlp_mono (loadRegions_keeps cuts (.inl hsound) ⟨rfl, rfl⟩ eh _) ?_ ?_
  · exact fun _ u hu => hsafe u hu
  · exact fun _ u hu => hsafe u hu

theorem not_ready_of_not_twoLoads (hdef : defineAll l = .ok as) (htwo : ¬ TwoLoads l) (a : ℕ) :
    ¬ (as.withPages a).Ready := fun hr =>
  htwo ((usable_iff (defineAll_regions hdef).1).mp ⟨hr.vbase1, hr.npages1, hr.vbase2, hr.npages2⟩)

theorem not_safeLoad (hl : loads f = .ok l) (hdef : defineAll l = .ok as) (hmem : ram.Provides as.total)
    (htwo : ¬ TwoLoads l) : ¬ SafeLoad cuts f ram := by
  obtain ⟨eh, t, -, has, -, -, hrun⟩ := loadElf_defined cuts hl hdef hmem
  have hnot : ∀ u, Keeps t.as t.ram u → ¬ FaultsSafely ram u := fun u hu =>
    not_faultsSafely (by rw [hu.1, has]; exact not_ready_of_not_twoLoads hdef htwo _)
  have hkeeps : Prog.wlp True (loadElf cuts f) (fun _ => Keeps t.as t.ram) (fun _ => Keeps t.as t.ram)
      (freshVm ram) := by
    rw [Prog.wlp_congr hrun, Prog.wlp_bind]
    exact loadRegions_keeps cuts (.inr trivial) ⟨rfl, rfl⟩ eh _
  intro hsafe
  rw [SafeLoad, ← Prog.wlp_false] at hsafe
  cases hend : loadElf cuts f (freshVm ram) with
  | ok a u => exact hnot u ((Prog.wlp_ok hend).mp hkeeps) ((Prog.wlp_ok hend).mp hsafe)
  | fail e u => exact hnot u ((Prog.wlp_fail_run hend).mp hkeeps) ((Prog.wlp_fail_run hend).mp hsafe)
  | stop => exact (Prog.wlp_stop_run hend).mp hsafe

theorem safeRun_iff_copyRefused (hl : loads f = .ok l) (hdef : defineAll l = .ok as) (hmem : ram.Provides as.total)
    (htwo : ¬ TwoLoads l) : SafeRun cuts f ram ↔ CopyRefused cuts f l := by
  obtain ⟨eh, t, hupto, has, htlb, -, hrun⟩ := loadElf_defined cuts hl hdef hmem
  have hready : ¬ t.as.Ready := has ▸ not_ready_of_not_twoLoads hdef htwo _
  have hbare : Prog.wlp (¬ CopyRefused cuts f l) (loadElf cuts f)
      (fun _ u => ¬ CopyRefused cuts f l ∧ u.as = t.as) (fun _ _ => CopyRefused cuts f l) (freshVm ram) := by
    rw [Prog.wlp_congr hrun, Prog.wlp_bind]
    exact loadRegions_bare ⟨htlb, hready⟩ hupto
  unfold SafeRun
  rw [← Prog.wlp_false]
  cases hend : loadElf cuts f (freshVm ram) with
  | ok a u =>
    obtain ⟨hnot, hu⟩ := (Prog.wlp_ok hend).mp hbare
    rw [Prog.wlp_ok hend]
    exact ⟨fun h => absurd h (not_faultsSafely (hu ▸ hready)), fun h => absurd h hnot⟩
  | fail e u =>
    rw [Prog.wlp_fail_run hend]
    exact ⟨fun _ => (Prog.wlp_fail_run hend).mp hbare, fun _ => trivial⟩
  | stop =>
    rw [Prog.wlp_stop_run hend]
    exact ⟨False.elim, fun h => (Prog.wlp_stop_run hend).mp hbare h⟩

end Defined

theorem defineAll_of_twoLoads {l : List ElfPhdr} (h : TwoLoads l) : ∃ as, defineAll l = .ok as := by
  obtain ⟨l0, a, b, rfl, hl0, -⟩ := h
  exact defineAll_ok_iff.mpr (by rw [List.dropLast_concat, hl0]; rfl)

/-- **The executables that are safe to load.** No fault stops, during `load_elf`
or after it, exactly for those with two regions for `dumbvm`; counting only the
faults of a program that was loaded, also for those that `load_elf` refuses
before its first copy. -/
theorem loadElf_safe_iff (f : Executable) (ram : Ram)
    (hmem : ∀ l as, loads f = .ok l → defineAll l = .ok as → ram.Provides as.total) :
    (SafeLoad cuts f ram ↔ TwoRegions f) ∧ (SafeRun cuts f ram ↔ TwoRegions f ∨ TurnedAway cuts f) := by
  by_cases hdef : ∃ l as, loads f = .ok l ∧ defineAll l = .ok as
  · obtain ⟨l, as, hl, hdef⟩ := hdef
    have hram := hmem l as hl hdef
    have htwo : TwoRegions f ↔ TwoLoads l :=
      ⟨fun ⟨l', hl', h⟩ => Except.ok.inj (hl'.symm.trans hl) ▸ h, fun h => ⟨l, hl, h⟩⟩
    have haway : TurnedAway cuts f ↔ CopyRefused cuts f l := by
      have hfew := defineAll_ok_iff.mp ⟨as, hdef⟩
      constructor
      · exact fun h => (h l hl).resolve_left (by omega)
      · intro h l' hl'
        exact .inr (Except.ok.inj (hl.symm.trans hl') ▸ h)
    rw [htwo, haway]
    by_cases h : TwoLoads l
    · have hsafe := safeLoad_of_twoLoads cuts hl hdef hram h
      exact ⟨iff_of_true hsafe h, iff_of_true (Prog.wp_mono hsafe (fun _ _ h => h) fun _ _ _ => trivial) (.inl h)⟩
    · refine ⟨iff_of_false (not_safeLoad cuts hl hdef hram h) h, ?_⟩
      rw [safeRun_iff_copyRefused cuts hl hdef hram h, or_iff_right h]
  · have hno : ∀ l as, loads f = .ok l → defineAll l ≠ .ok as := fun l as hl has => hdef ⟨l, as, hl, has⟩
    obtain ⟨e, t, hrun, hun⟩ := loadElf_refused cuts ram hno
    constructor
    · rw [SafeLoad, ← Prog.wlp_false, Prog.wlp_fail_run hrun]
      refine iff_of_false (not_faultsSafely (not_ready_of_unloaded hun)) ?_
      rintro ⟨l, hl, htwo⟩
      obtain ⟨as, has⟩ := defineAll_of_twoLoads htwo
      exact hno l as hl has
    · refine iff_of_true ?_ (.inr fun l hl => .inl ?_)
      · rw [SafeRun, ← Prog.wlp_false, Prog.wlp_fail_run hrun]
        trivial
      · by_contra hfew
        obtain ⟨as, has⟩ := defineAll_ok_iff.mpr (Nat.le_of_lt_succ (Nat.not_le.mp hfew))
        exact hno l as hl has

end Safe

/-! ### Two files -/

/-- A number in 16 and in 32 bits, most significant byte first. -/
def halfBytes (n : ℕ) : List ℕ := [n / 256 % 256, n % 256]
@[inherit_doc halfBytes] def wordBytes (n : ℕ) : List ℕ := halfBytes (n / 2 ^ 16) ++ halfBytes n

/-- A program header at `PT_LOAD`, with its data at the start of the file. -/
def phdrBytes (vaddr filesz memsz : ℕ) : List ℕ :=
  [ptLoad, 0, vaddr, 0, filesz, memsz, 7, 0].flatMap wordBytes

/-- An executable with these program headers after its header. -/
def elfBytes (phdrs : List (List ℕ)) : List ℕ :=
  [0x7f, 0x45, 0x4c, 0x46, 1, 2, 1, 0, 0, 0, 0, 0, 0, 0, 0, 0] ++ halfBytes 2 ++ halfBytes 8 ++
    [1, 0x400000, 52, 0, 0].flatMap wordBytes ++ [52, 32, phdrs.length, 0, 0, 0].flatMap halfBytes ++ phdrs.flatten

/-- The file with these bytes. -/
def executable (bytes : List ℕ) : Executable where
  size := bytes.length
  byte i := bytes.getD i 0 % 256
  byte_lt _ := Nat.mod_lt _ (by decide)

/-- Every read in one piece. -/
def wholeCuts : Cuts where
  split _ n := if n = 0 then [] else [n]
  pos _ n c hc := by
    split_ifs at hc with hn
    · simp at hc
    · rw [List.mem_singleton.mp hc]
      exact Nat.pos_of_ne_zero hn
  sum _ n := by
    split_ifs with hn
    · exact hn.symm
    · simp

/-- A megabyte of free memory. -/
def megabyte : Ram := ⟨0x20000, 0x120000, []⟩

/-- A code and a data segment. -/
def twoSegments : Executable := executable (elfBytes [phdrBytes 0x400000 4 16, phdrBytes 0x10000000 4 16])

/-- One segment. -/
def oneSegment : Executable := executable (elfBytes [phdrBytes 0x400000 4 16])

theorem loads_twoSegments :
    loads twoSegments = .ok [⟨ptLoad, 0, 0x400000, 4, 16⟩, ⟨ptLoad, 0, 0x10000000, 4, 16⟩] := by
  decide +kernel

theorem loads_oneSegment : loads oneSegment = .ok [⟨ptLoad, 0, 0x400000, 4, 16⟩] := by decide +kernel

/-- There is memory for the regions of both. -/
theorem megabyte_provides {n : ℕ} (hn : n ≤ 256) : megabyte.Provides n where
  first := by decide
  aligned := by decide
  room := by
    simp only [megabyte, pageSize]
    omega
  last := by decide

theorem loadElf_safe_twoSegments : TwoRegions twoSegments ∧ SafeLoad wholeCuts twoSegments megabyte ∧
    SafeRun wholeCuts twoSegments megabyte := by
  have htwo : TwoRegions twoSegments :=
    ⟨_, loads_twoSegments, [⟨ptLoad, 0, 0x400000, 4, 16⟩], ⟨ptLoad, 0, 0x400000, 4, 16⟩,
      ⟨ptLoad, 0, 0x10000000, 4, 16⟩, rfl, by decide, by decide, by decide +kernel, by decide +kernel⟩
  have hmem : ∀ l as, loads twoSegments = .ok l → defineAll l = .ok as → megabyte.Provides as.total := by
    intro l as hl has
    obtain rfl := Except.ok.inj (loads_twoSegments.symm.trans hl)
    have hdef : defineAll [⟨ptLoad, 0, 0x400000, 4, 16⟩, ⟨ptLoad, 0, 0x10000000, 4, 16⟩] =
        .ok ⟨0x400000, 0, 1, 0x10000000, 0, 1, 0⟩ := by decide +kernel
    obtain rfl := Except.ok.inj (hdef.symm.trans has)
    exact megabyte_provides (by decide)
  obtain ⟨hload, hrun⟩ := loadElf_safe_iff wholeCuts twoSegments megabyte hmem
  exact ⟨htwo, hload.mpr htwo, hrun.mpr (.inl htwo)⟩

/-- **An executable that stops the machine.** Its header and its one segment
are in order and there is memory for it; the first byte copied stops. -/
theorem oneSegment_stops :
    (∀ l as, loads oneSegment = .ok l → defineAll l = .ok as → megabyte.Provides as.total) ∧
    loadElf wholeCuts oneSegment (freshVm megabyte) = .stop ∧ ¬ SafeLoad wholeCuts oneSegment megabyte ∧
    ¬ SafeRun wholeCuts oneSegment megabyte := by
  have hstop : loadElf wholeCuts oneSegment (freshVm megabyte) = .stop := Prog.stops_iff.mp (by decide +kernel)
  refine ⟨?_, hstop, fun h => Prog.wp_ne_stop h hstop, fun h => Prog.wp_ne_stop h hstop⟩
  intro l as hl has
  obtain rfl := Except.ok.inj (loads_oneSegment.symm.trans hl)
  have hdef : defineAll [⟨ptLoad, 0, 0x400000, 4, 16⟩] = .ok ⟨0x400000, 0, 1, 0, 0, 0, 0⟩ := by decide +kernel
  obtain rfl := Except.ok.inj (hdef.symm.trans has)
  exact megabyte_provides (by decide)

end Os161
