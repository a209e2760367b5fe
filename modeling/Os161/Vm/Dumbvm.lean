/-
# The address spaces of `dumbvm`

`kern/arch/mips/vm/dumbvm.c`: an address space is two regions and a stack, each
with its pages in one piece of physical memory. `vm_fault` asserts that all
three are there and puts the page of the fault in the TLB. What the pages hold
is not modelled, and so neither is `as_zero_region`; the assertions of
`dumbvm_can_sleep` are about the caller, a thread outside any interrupt.

`Addrspace.Sound` is what `vm_fault` needs: then a fault maps a page that
`as_prepare_load` got for this address space, or returns `EFAULT`
(`vmFault_sound`). Without it no fault gets past the assertions
(`vmFault_stops`).
-/
import Os161.Lib.Wlp
import Os161.Vm.Ram
import Os161.Kern.Uio

namespace Os161

/-- `struct addrspace`. -/
structure Addrspace where
  asVbase1 : ℕ
  asPbase1 : ℕ
  asNpages1 : ℕ
  asVbase2 : ℕ
  asPbase2 : ℕ
  asNpages2 : ℕ
  asStackpbase : ℕ
  deriving DecidableEq

/-- `NUM_TLB`. -/
def numTlb : ℕ := 64

/-- `DUMBVM_STACKPAGES`. -/
def dumbvmStackpages : ℕ := 18

/-- `USERSTACK`. -/
def userstack : ℕ := userspacetop

/-- The address space of the current process, the physical memory left and the
valid entries of the TLB: page and frame. -/
structure Vm where
  as : Addrspace
  ram : Ram
  tlb : ℕ → Option (ℕ × ℕ)

/-- `faulttype`; `other` is any value `vm_fault` does not know. -/
inductive FaultType
  | readonly | read | write | other
  deriving DecidableEq

/-- `addr & PAGE_FRAME`. -/
def pageFrame (addr : ℕ) : ℕ := addr / pageSize * pageSize

/-- `as_create`. -/
def asCreate : Addrspace := ⟨0, 0, 0, 0, 0, 0, 0⟩

/-- `npages` in `as_define_region`: the size with the part of the first page
before it, rounded up, in 32 bits. -/
def regionPages (vaddr sz : ℕ) : ℕ := wadd (wadd sz (vaddr % pageSize)) (pageSize - 1) / pageSize

/-- `as_define_region`. -/
def asDefineRegion (as : Addrspace) (vaddr sz : ℕ) : Except Errno Addrspace :=
  if as.asVbase1 = 0 then .ok { as with asVbase1 := pageFrame vaddr, asNpages1 := regionPages vaddr sz }
  else if as.asVbase2 = 0 then .ok { as with asVbase2 := pageFrame vaddr, asNpages2 := regionPages vaddr sz }
  else .error .enosys

/-- `getppages`, with its result stored by `store`; 0 is `ENOMEM`. -/
def getppagesInto (npages : ℕ) (store : ℕ → Addrspace → Addrspace) : Prog Errno Vm Unit := do
  let s ← Prog.get
  let x := getppages npages s.ram
  Prog.modify fun s => { s with as := store x.1 s.as, ram := x.2 }
  if x.1 = 0 then Prog.fail .enomem else pure ()

/-- `as_prepare_load`. -/
def asPrepareLoad : Prog Errno Vm Unit := do
  let s ← Prog.get
  Prog.assert (s.as.asPbase1 = 0)
  Prog.assert (s.as.asPbase2 = 0)
  Prog.assert (s.as.asStackpbase = 0)
  getppagesInto s.as.asNpages1 fun a as => { as with asPbase1 := a }
  getppagesInto s.as.asNpages2 fun a as => { as with asPbase2 := a }
  getppagesInto dumbvmStackpages fun a as => { as with asStackpbase := a }

/-- The assertions of `vm_fault` about the address space. -/
def assertAddrspace (as : Addrspace) : Prog Errno Vm Unit := do
  Prog.assert (as.asVbase1 ≠ 0)
  Prog.assert (as.asPbase1 ≠ 0)
  Prog.assert (as.asNpages1 ≠ 0)
  Prog.assert (as.asVbase2 ≠ 0)
  Prog.assert (as.asPbase2 ≠ 0)
  Prog.assert (as.asNpages2 ≠ 0)
  Prog.assert (as.asStackpbase ≠ 0)
  Prog.assert (pageFrame as.asVbase1 = as.asVbase1)
  Prog.assert (pageFrame as.asPbase1 = as.asPbase1)
  Prog.assert (pageFrame as.asVbase2 = as.asVbase2)
  Prog.assert (pageFrame as.asPbase2 = as.asPbase2)
  Prog.assert (pageFrame as.asStackpbase = as.asStackpbase)

/-- The physical address of a page; `none` is `EFAULT`. -/
def translate (as : Addrspace) (faultaddress : ℕ) : Option ℕ :=
  let vtop1 := wadd as.asVbase1 (wcast (as.asNpages1 * pageSize))
  let vtop2 := wadd as.asVbase2 (wcast (as.asNpages2 * pageSize))
  let stackbase := userstack - dumbvmStackpages * pageSize
  if as.asVbase1 ≤ faultaddress ∧ faultaddress < vtop1 then some (wadd (faultaddress - as.asVbase1) as.asPbase1)
  else if as.asVbase2 ≤ faultaddress ∧ faultaddress < vtop2 then some (wadd (faultaddress - as.asVbase2) as.asPbase2)
  else if stackbase ≤ faultaddress ∧ faultaddress < userstack then
    some (wadd (faultaddress - stackbase) as.asStackpbase)
  else none

/-- The loop of `vm_fault` over the TLB: the first entry that is not valid. -/
def tlbFill (faultaddress paddr : ℕ) : Prog Errno Vm Unit := do
  let s ← Prog.get
  match (List.range numTlb).find? fun i => (s.tlb i).isNone with
  | some i => Prog.modify fun s => { s with tlb := Function.update s.tlb i (some (faultaddress, paddr)) }
  -- "Ran out of TLB entries"
  | none => Prog.fail .efault

/-- `vm_fault`. -/
def vmFault (faulttype : FaultType) (faultaddress : ℕ) : Prog Errno Vm Unit := do
  match faulttype with
  -- "got VM_FAULT_READONLY"
  | .readonly => Prog.stop
  | .other => Prog.fail .einval
  | .read | .write => do
    let s ← Prog.get
    assertAddrspace s.as
    match translate s.as (pageFrame faultaddress) with
    | none => Prog.fail .efault
    | some paddr => do
      Prog.assert (pageFrame paddr = paddr)
      tlbFill (pageFrame faultaddress) paddr

/-! ### What a fault needs -/

/-- What `vm_fault` asserts. -/
structure Addrspace.Ready (as : Addrspace) : Prop where
  vbase1 : as.asVbase1 ≠ 0
  pbase1 : as.asPbase1 ≠ 0
  npages1 : as.asNpages1 ≠ 0
  vbase2 : as.asVbase2 ≠ 0
  pbase2 : as.asPbase2 ≠ 0
  npages2 : as.asNpages2 ≠ 0
  stackpbase : as.asStackpbase ≠ 0
  aligned1 : pageFrame as.asVbase1 = as.asVbase1 ∧ pageFrame as.asPbase1 = as.asPbase1
  aligned2 : pageFrame as.asVbase2 = as.asVbase2 ∧ pageFrame as.asPbase2 = as.asPbase2
  alignedStack : pageFrame as.asStackpbase = as.asStackpbase

/-- The pieces of physical memory of an address space. -/
def Addrspace.pieces (as : Addrspace) : List (ℕ × ℕ) :=
  [(as.asPbase1, as.asNpages1), (as.asPbase2, as.asNpages2), (as.asStackpbase, dumbvmStackpages)]

/-- An address space with all its pieces in the physical memory. -/
structure Addrspace.Sound (as : Addrspace) : Prop extends as.Ready where
  fits : ∀ x ∈ as.pieces, x.1 + x.2 * pageSize < 2 ^ 32

/-- A frame of one of the pieces. -/
def InPieces (pieces : List (ℕ × ℕ)) (frame : ℕ) : Prop :=
  ∃ x ∈ pieces, x.1 ≤ frame ∧ frame + pageSize ≤ x.1 + x.2 * pageSize

variable {s : Vm} {as : Addrspace} {addr : ℕ}

theorem pageFrame_mod (a : ℕ) : pageFrame a % pageSize = 0 := Nat.mul_mod_left _ _

theorem pageFrame_eq_iff {a : ℕ} : pageFrame a = a ↔ a % pageSize = 0 := by
  unfold pageFrame pageSize
  omega

theorem assertAddrspace_wlp {S : Prop} {Q : Unit → Vm → Prop} {E : Errno → Vm → Prop} :
    Prog.wlp S (assertAddrspace as) Q E s ↔ (as.Ready → Q () s) ∧ (¬ as.Ready → S) := by
  have hready : as.Ready ↔ as.asVbase1 ≠ 0 ∧ as.asPbase1 ≠ 0 ∧ as.asNpages1 ≠ 0 ∧ as.asVbase2 ≠ 0 ∧ as.asPbase2 ≠ 0 ∧
      as.asNpages2 ≠ 0 ∧ as.asStackpbase ≠ 0 ∧ pageFrame as.asVbase1 = as.asVbase1 ∧
      pageFrame as.asPbase1 = as.asPbase1 ∧ pageFrame as.asVbase2 = as.asVbase2 ∧
      pageFrame as.asPbase2 = as.asPbase2 ∧ pageFrame as.asStackpbase = as.asStackpbase :=
    ⟨fun h => ⟨h.1, h.2, h.3, h.4, h.5, h.6, h.7, h.8.1, h.8.2, h.9.1, h.9.2, h.10⟩,
      fun ⟨h1, h2, h3, h4, h5, h6, h7, h8, h9, h10, h11, h12⟩ =>
        ⟨h1, h2, h3, h4, h5, h6, h7, ⟨h8, h9⟩, ⟨h10, h11⟩, h12⟩⟩
  unfold assertAddrspace
  simp only [Prog.wlp_bind, Prog.wlp_assert, Prog.assert_and_iff]
  rw [hready]

/-- **Without a complete address space no fault gets past the assertions.** -/
theorem vmFault_stops (h : ¬ s.as.Ready) {ft : FaultType} (hft : ft = .read ∨ ft = .write) (addr : ℕ) :
    vmFault ft addr s = .stop := by
  rw [Prog.stop_iff_wlp]
  rcases hft with rfl | rfl <;> simp only [vmFault, Prog.wlp_bind, Prog.wlp_get, assertAddrspace_wlp]
  · exact ⟨fun h' => absurd h' h, fun _ => trivial⟩
  · exact ⟨fun h' => absurd h' h, fun _ => trivial⟩

/-- A page inside a region whose pages start at `pbase`. -/
theorem region_page {vbase pbase npages page : ℕ} (hv : vbase % pageSize = 0) (hp : pbase % pageSize = 0)
    (hpage : page % pageSize = 0) (hfits : pbase + npages * pageSize < 2 ^ 32) (hlo : vbase ≤ page)
    (hhi : page < wadd vbase (wcast (npages * pageSize))) :
    pbase ≤ wadd (page - vbase) pbase ∧ wadd (page - vbase) pbase + pageSize ≤ pbase + npages * pageSize ∧
      wadd (page - vbase) pbase % pageSize = 0 := by
  have hlt : page - vbase < npages * pageSize := by
    rw [wadd_wcast] at hhi
    have := Nat.mod_le (vbase + npages * pageSize) (2 ^ 32)
    omega
  rw [wadd_of_lt (by omega)]
  unfold pageSize at *
  omega

/-- **A page is translated to a frame of the address space.** -/
theorem translate_sound (h : as.Sound) {page frame : ℕ} (hpage : page % pageSize = 0)
    (ht : translate as page = some frame) : InPieces as.pieces frame ∧ frame % pageSize = 0 := by
  obtain ⟨⟨_, _, _, _, _, _, _, ⟨hv1, hp1⟩, ⟨hv2, hp2⟩, hps⟩, hfits⟩ := h
  rw [pageFrame_eq_iff] at hv1 hp1 hv2 hp2 hps
  simp only [Addrspace.pieces, List.forall_mem_cons, List.not_mem_nil, false_imp_iff, implies_true, and_true] at hfits
  obtain ⟨hf1, hf2, hfs⟩ := hfits
  simp only [translate] at ht
  split_ifs at ht with c1 c2 c3
  · obtain rfl := Option.some.inj ht
    obtain ⟨hlo, hhi, hmod⟩ := region_page hv1 hp1 hpage hf1 c1.1 c1.2
    exact ⟨⟨_, List.mem_cons_self, hlo, hhi⟩, hmod⟩
  · obtain rfl := Option.some.inj ht
    obtain ⟨hlo, hhi, hmod⟩ := region_page hv2 hp2 hpage hf2 c2.1 c2.2
    exact ⟨⟨_, List.mem_cons_of_mem _ List.mem_cons_self, hlo, hhi⟩, hmod⟩
  · obtain rfl := Option.some.inj ht
    have hbase : wadd (userstack - dumbvmStackpages * pageSize) (wcast (dumbvmStackpages * pageSize)) = userstack := by
      decide +kernel
    obtain ⟨hlo, hhi, hmod⟩ := region_page (by decide) hps hpage hfs c3.1 (hbase.symm ▸ c3.2)
    exact ⟨⟨_, List.mem_cons_of_mem _ (List.mem_cons_of_mem _ List.mem_cons_self), hlo, hhi⟩, hmod⟩

/-- What a fault may do: put a page of one of the pieces in the TLB, or return
`EFAULT`. -/
def FaultOk (pieces : List (ℕ × ℕ)) (faulttype : FaultType) (addr : ℕ) (s : Vm) : Prop :=
  Prog.wp (vmFault faulttype addr)
    (fun _ t => ∃ i frame, t = { s with tlb := Function.update s.tlb i (some (pageFrame addr, frame)) } ∧
      InPieces pieces frame ∧ frame % pageSize = 0)
    (fun e t => e = .efault ∧ t = s) s

/-- **A complete address space serves every fault.** -/
theorem vmFault_sound (h : s.as.Sound) {ft : FaultType} (hft : ft = .read ∨ ft = .write) (addr : ℕ) :
    FaultOk s.as.pieces ft addr s := by
  have hserve : ∀ page frame, translate s.as page = some frame → page = pageFrame addr →
      Prog.wlp False (do Prog.assert (pageFrame frame = frame); tlbFill page frame)
        (fun _ t => ∃ i frame, t = { s with tlb := Function.update s.tlb i (some (pageFrame addr, frame)) } ∧
          InPieces s.as.pieces frame ∧ frame % pageSize = 0)
        (fun e t => e = .efault ∧ t = s) s := by
    intro page frame ht hpage
    obtain ⟨hin, hmod⟩ := translate_sound h (hpage ▸ pageFrame_mod addr) ht
    rw [Prog.wlp_bind, Prog.wlp_assert_of (pageFrame_eq_iff.mpr hmod)]
    unfold tlbFill
    rw [Prog.wlp_bind, Prog.wlp_get]
    cases (List.range numTlb).find? fun i => (s.tlb i).isNone with
    | none => exact ⟨rfl, rfl⟩
    | some i => exact ⟨i, frame, hpage ▸ rfl, hin, hmod⟩
  unfold FaultOk
  rw [← Prog.wlp_false]
  rcases hft with rfl | rfl <;> simp only [vmFault, Prog.wlp_bind, Prog.wlp_get, assertAddrspace_wlp]
  all_goals
    refine ⟨fun _ => ?_, fun hn => hn h.toReady⟩
    cases ht : translate s.as (pageFrame addr) with
    | none => exact ⟨rfl, rfl⟩
    | some frame => exact hserve _ _ ht rfl

/-! ### The pages of an address space -/

/-- There is memory for `n` more pages. -/
structure Ram.Provides (r : Ram) (n : ℕ) : Prop where
  first : r.firstpaddr ≠ 0
  aligned : r.firstpaddr % pageSize = 0
  room : r.firstpaddr + n * pageSize ≤ r.lastpaddr
  last : r.lastpaddr < 2 ^ 32

/-- The memory after `n` pages have been handed out. -/
def Ram.granted (r : Ram) (n : ℕ) : Ram :=
  { r with firstpaddr := r.firstpaddr + n * pageSize, stolen := (r.firstpaddr, n) :: r.stolen }

theorem Ram.Provides.getppages {r : Ram} {n m : ℕ} (h : r.Provides (n + m)) :
    getppages n r = (r.firstpaddr, r.granted n) ∧ (r.granted n).Provides m := by
  obtain ⟨hfirst, haligned, hroom, hlast⟩ := h
  rw [Nat.add_mul] at hroom
  have hwadd : wadd r.firstpaddr (wcast (n * pageSize)) = r.firstpaddr + n * pageSize := by
    rw [wadd_wcast, Nat.mod_eq_of_lt (by omega)]
  constructor
  · simp only [Os161.getppages, ramStealmem, hwadd]
    rw [if_neg (by omega), if_neg hfirst]
    rfl
  · refine ⟨?_, ?_, ?_, hlast⟩
    · simp only [Ram.granted]
      omega
    · simp only [Ram.granted, Nat.add_mul_mod_self_right]
      exact haligned
    · simp only [Ram.granted]
      omega

theorem getppagesInto_run {n m : ℕ} {store : ℕ → Addrspace → Addrspace} (h : s.ram.Provides (n + m)) :
    getppagesInto n store s =
      .ok () { s with as := store s.ram.firstpaddr s.as, ram := s.ram.granted n } := by
  unfold getppagesInto
  rw [Prog.get_bind, h.getppages.1, Prog.modify_bind, if_neg h.first]
  rfl

/-- The address space with its pages from `a` on. -/
def Addrspace.withPages (as : Addrspace) (a : ℕ) : Addrspace :=
  { as with
    asPbase1 := a
    asPbase2 := a + as.asNpages1 * pageSize
    asStackpbase := a + as.asNpages1 * pageSize + as.asNpages2 * pageSize }

/-- The number of pages an address space takes. -/
def Addrspace.total (as : Addrspace) : ℕ := as.asNpages1 + as.asNpages2 + dumbvmStackpages

/-- No page has been asked for yet. -/
structure Addrspace.Unloaded (as : Addrspace) : Prop where
  pbase1 : as.asPbase1 = 0
  pbase2 : as.asPbase2 = 0
  stackpbase : as.asStackpbase = 0

/-- **`as_prepare_load` gets what it asks for**, where there is memory for it. -/
theorem asPrepareLoad_run (h : s.as.Unloaded) (hmem : s.ram.Provides s.as.total) :
    ∃ t, asPrepareLoad s = .ok () t ∧ t.as = s.as.withPages s.ram.firstpaddr ∧ t.tlb = s.tlb ∧
      t.ram.stolen = (s.as.withPages s.ram.firstpaddr).pieces.reverse ++ s.ram.stolen := by
  have h1 : s.ram.Provides (s.as.asNpages1 + (s.as.asNpages2 + (dumbvmStackpages + 0))) := by
    rwa [Nat.add_zero, ← Nat.add_assoc]
  have h2 := h1.getppages.2
  have h3 := h2.getppages.2
  unfold asPrepareLoad
  rw [Prog.get_bind, Prog.bind_of_ok (Prog.assert_run h.pbase1), Prog.bind_of_ok (Prog.assert_run h.pbase2),
    Prog.bind_of_ok (Prog.assert_run h.stackpbase), Prog.bind_of_ok (getppagesInto_run h1),
    Prog.bind_of_ok (getppagesInto_run h2)]
  exact ⟨_, getppagesInto_run h3, rfl, rfl, rfl⟩

/-- Two regions outside page 0, neither of them empty, and memory for them make
a complete address space. -/
theorem withPages_sound (h1 : as.asVbase1 ≠ 0) (h2 : as.asNpages1 ≠ 0) (h3 : as.asVbase2 ≠ 0) (h4 : as.asNpages2 ≠ 0)
    (hv1 : as.asVbase1 % pageSize = 0) (hv2 : as.asVbase2 % pageSize = 0) {r : Ram} (hmem : r.Provides as.total) :
    (as.withPages r.firstpaddr).Sound := by
  obtain ⟨hfirst, haligned, hroom, hlast⟩ := hmem
  rw [Addrspace.total, Nat.add_mul, Nat.add_mul] at hroom
  refine ⟨⟨h1, hfirst, h2, h3, ?_, h4, ?_, ⟨pageFrame_eq_iff.mpr hv1, pageFrame_eq_iff.mpr haligned⟩,
    ⟨pageFrame_eq_iff.mpr hv2, pageFrame_eq_iff.mpr ?_⟩, pageFrame_eq_iff.mpr ?_⟩, ?_⟩
  · simp only [Addrspace.withPages]
    omega
  · simp only [Addrspace.withPages]
    omega
  · simp only [Addrspace.withPages, Nat.add_mul_mod_self_right]
    exact haligned
  · simp only [Addrspace.withPages, Nat.add_mul_mod_self_right]
    exact haligned
  · simp only [Addrspace.pieces, Addrspace.withPages, List.forall_mem_cons, List.not_mem_nil, false_imp_iff,
      implies_true, and_true]
    exact ⟨by omega, by omega, by omega⟩

end Os161
