/-
# Listing the directory of semfs

`semfs_getdirentry` of `kern/fs/semfs/semfs_vnops.c`, called again and again
with the offset the last call left, until a call moves nothing. It takes
`uio_offset` for the number of a slot, but `uiomove` advances it by the length
of the name; and it does not look whether the slot is empty.

So a name of `n` bytes skips the `n - 1` slots after its own. The listing is
complete exactly if these are empty and a live slot comes next
(`semfs_listing_complete_iff`).
-/
import Os161.Semfs.Runs
import Os161.Lib.Wlp
import Mathlib.Data.List.ReduceOption

namespace Os161

namespace Semfs

/-- The bytes of a name. -/
def nameBytes (name : String) : List UInt8 := name.toUTF8.data.toList

/-- `semfs_getdirentry` at the slot `pos`; the name is a string of its own. -/
def direntryMove (s : Semfs) (pos : ℕ) : Prog Errno Uio Unit :=
  if s.semfsDents.length ≤ pos then pure ()
  else
    match s.dent pos with
    | none => Prog.stop
    | some dent => do
      let _ ← uiomoveBuf (fun i => (nameBytes dent.semdName).getD i 0) (nameBytes dent.semdName).length
      pure ()

/-- `semfs_getdirentry`. -/
def getdirentry (s : Semfs) : Prog Errno Uio Unit := do
  let u ← Prog.get
  direntryMove s (wcast u.uioOffset)

/-- A buffer of `len` bytes at `kbuf`. -/
structure DirBuf where
  mem : Buf
  kbuf : ℕ
  len : ℕ

/-- A call at an offset: the bytes it has put into the buffer, and the offset
it leaves. -/
def direntAt (s : Semfs) (b : DirBuf) (offset : ℕ) : Option (List UInt8 × ℕ) :=
  match getdirentry s (uioKinit b.mem b.kbuf b.len offset .read) with
  | .ok _ u => some ((List.range (b.len - u.uioResid)).map fun i => u.mem (b.kbuf + i), u.uioOffset)
  | _ => none

/-- The calls from an offset on return these names and then nothing. -/
inductive Lists (s : Semfs) (b : DirBuf) : ℕ → List (List UInt8) → Prop
  | eof {offset offset' : ℕ} : s.direntAt b offset = some ([], offset') → Lists s b offset []
  | name {offset offset' : ℕ} {bytes : List UInt8} {rest : List (List UInt8)} :
      s.direntAt b offset = some (bytes, offset') → bytes ≠ [] → Lists s b offset' rest →
      Lists s b offset (bytes :: rest)

/-- The names in a part of the directory. -/
def names (t : SlotTable SemfsDirentry) : List (List UInt8) := t.reduceOption.map fun d => nameBytes d.semdName

/-- The buffer holds any name of the directory, and slots and names are so few
that an offset fits into 32 bits. -/
structure Fits (s : Semfs) (b : DirBuf) : Prop where
  name : ∀ i d, s.dent i = some d → (nameBytes d.semdName).length ≤ b.len
  size : s.semfsDents.length + b.len < 2 ^ 32

/-- Each name of `n` bytes is followed by `n - 1` empty slots, or by fewer at
the end, and then by a name. -/
def Spaced : SlotTable SemfsDirentry → Prop
  | [] => True
  | none :: _ => False
  | some d :: rest =>
    nameBytes d.semdName ≠ [] ∧ (∀ x ∈ rest.take ((nameBytes d.semdName).length - 1), x = none) ∧
      Spaced (rest.drop ((nameBytes d.semdName).length - 1))
termination_by t => t.length
decreasing_by
  rw [List.length_drop, List.length_cons]
  omega

section Calls

variable {s : Semfs} {b : DirBuf} {offset : ℕ}

theorem getdirentry_kinit (hoff : offset < 2 ^ 32) : getdirentry s (uioKinit b.mem b.kbuf b.len offset .read) =
    direntryMove s offset (uioKinit b.mem b.kbuf b.len offset .read) := by
  show direntryMove s (wcast offset) _ = _
  rw [wcast_of_lt hoff]

/-- Past the last slot. -/
theorem direntAt_end (h : s.semfsDents.length ≤ offset) (hoff : offset < 2 ^ 32) :
    s.direntAt b offset = some ([], offset) := by
  have hrun : getdirentry s (uioKinit b.mem b.kbuf b.len offset .read) =
      .ok () (uioKinit b.mem b.kbuf b.len offset .read) := by
    rw [getdirentry_kinit hoff, direntryMove, if_pos h]
    rfl
  unfold direntAt
  rw [hrun]
  simp [uioKinit]

/-- An empty slot. -/
theorem direntAt_none (h : offset < s.semfsDents.length) (hoff : offset < 2 ^ 32) (hd : s.dent offset = none) :
    s.direntAt b offset = none := by
  have hrun : getdirentry s (uioKinit b.mem b.kbuf b.len offset .read) = .stop := by
    rw [getdirentry_kinit hoff, direntryMove, if_neg (by omega), hd]
    rfl
  unfold direntAt
  rw [hrun]

/-- A name is moved as a whole. -/
theorem uiomoveBuf_kinit (src : Buf) {n : ℕ} (hn : n ≤ b.len) :
    uiomoveBuf src n (uioKinit b.mem b.kbuf b.len offset .read) = .ok src
      { uioKinit (b.mem.blit b.kbuf src 0 n) (b.kbuf + n) (b.len - n) (offset + n) .read with
        uioIov := [⟨b.kbuf + n, b.len - n⟩] } := by
  by_cases h0 : n = 0
  · subst h0
    simp [uiomoveBuf, uiomove, uiomoveLoop, uioKinit]
  · have hlen : b.len ≠ 0 := by omega
    simp [uiomoveBuf, uiomove, uiomoveLoop, uioKinit, moveSeg, Uio.advance, h0, hlen, min_eq_right hn, wsub_of_le hn]

theorem direntAt_some {d : SemfsDirentry} (hoff : offset < 2 ^ 32) (hd : s.dent offset = some d)
    (hn : (nameBytes d.semdName).length ≤ b.len) :
    s.direntAt b offset = some (nameBytes d.semdName, offset + (nameBytes d.semdName).length) := by
  have hlt : offset < s.semfsDents.length := SlotTable.lt_length_of_slot hd
  set bytes := nameBytes d.semdName with hbytes
  have hrun : getdirentry s (uioKinit b.mem b.kbuf b.len offset .read) = .ok ()
      (uioKinit (b.mem.blit b.kbuf (fun i => bytes.getD i 0) 0 bytes.length) (b.kbuf + bytes.length)
        (b.len - bytes.length) (offset + bytes.length) .read) := by
    rw [getdirentry_kinit hoff, direntryMove, if_neg (by omega), hd]
    show (uiomoveBuf (fun i => bytes.getD i 0) bytes.length >>= fun _ => pure ()) _ = _
    rw [Prog.bind_of_ok (uiomoveBuf_kinit _ hn)]
    rfl
  unfold direntAt
  rw [hrun]
  have hcount : b.len - (b.len - bytes.length) = bytes.length := by omega
  simp only [uioKinit, hcount, Option.some.injEq, Prod.mk.injEq, and_true]
  refine List.ext_getElem (by simp) fun i hi _ => ?_
  have hi' : i < bytes.length := by simpa using hi
  simp [Buf.blit, hi']

end Calls

section Listing

variable {s : Semfs} {b : DirBuf} {offset : ℕ}

theorem names_cons (d : SemfsDirentry) (rest : SlotTable SemfsDirentry) (k : ℕ) :
    names (some d :: rest) = nameBytes d.semdName :: (names (rest.take k) ++ names (rest.drop k)) := by
  unfold names List.reduceOption
  rw [← List.map_append, ← List.filterMap_append, List.take_append_drop]
  rfl

theorem names_eq_nil_iff (t : SlotTable SemfsDirentry) : names t = [] ↔ ∀ x ∈ t, x = none := by
  simp [names, List.reduceOption, List.filterMap_eq_nil_iff]

/-- A slot, and the slots after the ones that its name skips. -/
theorem drop_eq_cons {d : SemfsDirentry} {n : ℕ} (hd : s.dent offset = some d) (hn : 0 < n) : ∃ rest,
    s.semfsDents.drop offset = some d :: rest ∧ rest.drop (n - 1) = s.semfsDents.drop (offset + n) := by
  have hlt : offset < s.semfsDents.length := SlotTable.lt_length_of_slot hd
  have hget : s.semfsDents[offset] = some d := by
    have hslot : s.semfsDents[offset]?.join = some d := hd
    rw [List.getElem?_eq_getElem hlt] at hslot
    exact hslot
  refine ⟨s.semfsDents.drop (offset + 1), ?_, ?_⟩
  · rw [List.drop_eq_getElem_cons hlt, hget]
  · rw [List.drop_drop]
    congr 1
    omega

theorem Fits.next {d : SemfsDirentry} (h : Fits s b) (hd : s.dent offset = some d) :
    offset + (nameBytes d.semdName).length < 2 ^ 32 := by
  have hlt : offset < s.semfsDents.length := SlotTable.lt_length_of_slot hd
  have hname := h.name offset d hd
  have hsize := h.size
  omega

/-- From a slot on, the names are listed in order. -/
theorem lists_of_spaced (h : Fits s b) (t : SlotTable SemfsDirentry) : ∀ offset, s.semfsDents.drop offset = t →
    offset < 2 ^ 32 → Spaced t → Lists s b offset (names t) := by
  induction t using Spaced.induct with
  | case1 =>
    intro offset ht hoff _
    exact Lists.eof (direntAt_end (List.drop_eq_nil_iff.mp ht) hoff)
  | case2 rest =>
    intro offset _ _ hsp
    rw [Spaced] at hsp
    exact hsp.elim
  | case3 d rest ih =>
    intro offset ht hoff hsp
    rw [Spaced] at hsp
    obtain ⟨hne, hskip, hsp⟩ := hsp
    have hd : s.dent offset = some d := by
      have h0 := congrArg (fun l : SlotTable SemfsDirentry => l[0]?) ht
      simp only [List.getElem?_drop, add_zero, List.getElem?_cons_zero] at h0
      show s.semfsDents[offset]?.join = some d
      rw [h0]
      rfl
    obtain ⟨rest', hcons, hdrop⟩ := drop_eq_cons hd (List.length_pos_iff.mpr hne)
    rw [ht] at hcons
    cases hcons
    rw [names_cons d rest ((nameBytes d.semdName).length - 1), (names_eq_nil_iff _).mpr hskip, List.nil_append]
    exact Lists.name (direntAt_some hoff hd (h.name offset d hd)) hne (ih _ hdrop.symm (h.next hd) hsp)

/-- A listing has at most the names from its slot on, and all of them only if
they are spaced. -/
theorem spaced_of_lists (h : Fits s b) {l : List (List UInt8)} (hl : Lists s b offset l) : offset < 2 ^ 32 →
    l.length ≤ (names (s.semfsDents.drop offset)).length ∧
      (l.length = (names (s.semfsDents.drop offset)).length → Spaced (s.semfsDents.drop offset)) := by
  induction hl with
  | @eof offset offset' hcall =>
    intro hoff
    refine ⟨Nat.zero_le _, fun hlen => ?_⟩
    have hall := (names_eq_nil_iff _).mp (List.length_eq_zero_iff.mp hlen.symm)
    rcases lt_or_ge offset s.semfsDents.length with hlt | hge
    · have hmem : s.semfsDents[offset] ∈ s.semfsDents.drop offset := by
        rw [List.drop_eq_getElem_cons hlt]
        exact List.mem_cons_self
      have hnone : s.dent offset = none := by
        show s.semfsDents[offset]?.join = none
        rw [List.getElem?_eq_getElem hlt, hall _ hmem]
        rfl
      rw [direntAt_none hlt hoff hnone] at hcall
      cases hcall
    · rw [List.drop_eq_nil_iff.mpr hge, Spaced]
      trivial
  | @name offset offset' bytes rest hcall hne _ ih =>
    intro hoff
    rcases lt_or_ge offset s.semfsDents.length with hlt | hge
    · cases hd : s.dent offset with
      | none =>
        rw [direntAt_none hlt hoff hd] at hcall
        cases hcall
      | some d =>
        rw [direntAt_some hoff hd (h.name offset d hd)] at hcall
        cases hcall
        obtain ⟨tail, hcons, hdrop⟩ := drop_eq_cons hd (List.length_pos_iff.mpr hne)
        obtain ⟨hle, hsp⟩ := ih (h.next hd)
        rw [hcons, names_cons d tail ((nameBytes d.semdName).length - 1), hdrop]
        simp only [List.length_cons, List.length_append]
        refine ⟨by omega, fun hlen => ?_⟩
        rw [Spaced, hdrop]
        refine ⟨hne, (names_eq_nil_iff _).mp (List.length_eq_zero_iff.mp (by omega)), hsp (by omega)⟩
    · rw [direntAt_end hge hoff] at hcall
      cases hcall
      exact absurd rfl hne

/-- **The listing of the directory** gives each live name once, and then
nothing, exactly if the names are spaced. -/
theorem semfs_listing_complete_iff (s : Semfs) (b : DirBuf) (h : Fits s b) :
    (∃ l, Lists s b 0 l ∧ l.Perm (names s.semfsDents)) ↔ Spaced s.semfsDents := by
  constructor
  · rintro ⟨l, hl, hperm⟩
    exact (spaced_of_lists h hl (by norm_num)).2 hperm.length_eq
  · intro hsp
    exact ⟨_, lists_of_spaced h s.semfsDents 0 rfl (by norm_num) hsp, List.Perm.refl _⟩

/-- A page. -/
def page : DirBuf := ⟨fun _ => 0, 0, 4096⟩

theorem fits_page {t : SlotTable SemfsDirentry} (ht : s.semfsDents = t) (hlen : t.length < 4096)
    (hname : ∀ x ∈ t.reduceOption, (nameBytes x.semdName).length < 4096) : Fits s page := by
  refine ⟨fun i d hd => ?_, ?_⟩
  · have hmem : some d ∈ s.semfsDents := by
      have hslot : s.semfsDents[i]?.join = some d := hd
      rw [Option.join_eq_some_iff] at hslot
      exact List.mem_of_getElem? hslot
    rw [ht] at hmem
    exact (hname d (List.reduceOption_mem_iff.mpr hmem)).le
  · rw [ht]
    show t.length + 4096 < 2 ^ 32
    omega

/-- "ab" and "cd" are made: the listing misses "cd". -/
theorem semfs_listing_misses : ∃ s : SemfsState,
    Run SemfsCalled ⟨Semfs.create, fun _ => 0⟩ [.getroot, .creat 0 "ab" true, .creat 0 "cd" true] s ∧
      Fits s.fs page ∧ ¬ ∃ l, Lists s.fs page 0 l ∧ l.Perm (names s.fs.semfsDents) := by
  obtain ⟨s, hrun, ht⟩ : ∃ s, Run SemfsCalled ⟨Semfs.create, fun _ => 0⟩
      [.getroot, .creat 0 "ab" true, .creat 0 "cd" true] s ∧
        s.fs.semfsDents = [some ⟨0, "ab", 0⟩, some ⟨1, "cd", 1⟩] :=
    ⟨_, Run.cons (.ok trivial rfl) (Run.cons (.ok ⟨by decide, _, rfl, rfl⟩ rfl)
      (Run.single (.ok ⟨by decide, _, rfl, rfl⟩ rfl))), rfl⟩
  have hfit := fits_page ht (by decide) (by decide)
  refine ⟨s, hrun, hfit, ?_⟩
  rintro ⟨l, hl, hperm⟩
  have hsp : Spaced s.fs.semfsDents := (spaced_of_lists hfit hl (by norm_num)).2 hperm.length_eq
  rw [ht, Spaced] at hsp
  cases hsp.2.1 (some ⟨1, "cd", 1⟩) List.mem_cons_self

/-- "a" and "b" are made: both are listed. -/
theorem semfs_listing_complete_single : ∃ s : SemfsState,
    Run SemfsCalled ⟨Semfs.create, fun _ => 0⟩ [.getroot, .creat 0 "a" true, .creat 0 "b" true] s ∧
      ∃ l, Lists s.fs page 0 l ∧ l.Perm [[97], [98]] := by
  obtain ⟨s, hrun, ht⟩ : ∃ s, Run SemfsCalled ⟨Semfs.create, fun _ => 0⟩
      [.getroot, .creat 0 "a" true, .creat 0 "b" true] s ∧
        s.fs.semfsDents = [some ⟨0, "a", 0⟩, some ⟨1, "b", 1⟩] :=
    ⟨_, Run.cons (.ok trivial rfl) (Run.cons (.ok ⟨by decide, _, rfl, rfl⟩ rfl)
      (Run.single (.ok ⟨by decide, _, rfl, rfl⟩ rfl))), rfl⟩
  have hfit := fits_page ht (by decide) (by decide)
  have hsp : Spaced [some ⟨0, "a", 0⟩, some ⟨1, "b", 1⟩] := by
    rw [Spaced]
    refine ⟨by decide, fun x hx => absurd hx List.not_mem_nil, ?_⟩
    show Spaced [some ⟨1, "b", 1⟩]
    rw [Spaced]
    refine ⟨by decide, fun x hx => absurd hx List.not_mem_nil, ?_⟩
    show Spaced []
    rw [Spaced]
    trivial
  have hlist := (semfs_listing_complete_iff s.fs page hfit).mpr (ht ▸ hsp)
  rw [ht] at hlist
  exact ⟨s, hrun, hlist⟩

end Listing

end Semfs

end Os161
