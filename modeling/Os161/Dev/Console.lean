/-
# Console input

`getch_intr` and `con_input` of `kern/dev/generic/console.c`: the interrupt
handler puts characters into a ring and posts `cs_rsem`; one reader takes them
out. There is no lock. A step is one read or write of `cs_gotchars`, of
`cs_gotchars_head` or of `cs_gotchars_tail`, or a section of `P` or `V`, and
the two sides may alternate in any way; the handler does not interrupt itself.

The semaphore has a unit for every character that is stored and not being
read (`Queue.units`). So the slot that the reader looks at is not the one that
the handler stores into, and what is accepted is what is returned, in its
order (`Queue.history`).
-/
import Os161.Thread.SemProgram
import Os161.Lib.RingQueue

namespace Os161

namespace Console

/-- `CONSOLE_INPUT_BUFFER_SIZE`. -/
def consoleInputBufferSize : ℕ := 32

/-- The reader and the interrupt handler. -/
inductive Side
  | reader
  | handler
  deriving DecidableEq

instance : Fintype Side := ⟨{.reader, .handler}, fun x => by cases x <;> decide⟩

/-- Where a side is. -/
inductive Pc
  -- `getch`
  | idle
  | wait
  | loadTail
  | loadChar (tail : ℕ)
  | reloadTail (ret : UInt8)
  | storeTail (ret : UInt8) (tail : ℕ)
  | returning (ret : UInt8)
  -- `con_input`
  | off
  | loadHead (ch : UInt32)
  | compare (ch : UInt32) (nexthead : ℕ)
  | reloadHead (ch : UInt32) (nexthead : ℕ)
  | storeChar (ch : UInt32) (nexthead head : ℕ)
  | storeHead (ch : UInt32) (nexthead : ℕ)
  | post
  deriving DecidableEq

/-- What a step is to the outside. -/
inductive Ev
  | step
  | interrupt (ch : UInt32)
  | accept (ch : UInt32)
  | drop (ch : UInt32)
  | getch
  | return (ret : UInt8)
  deriving DecidableEq

/-- `cs_gotchars` with its head and tail. -/
abbrev Softc := RingQueue UInt8

/-- The calls of `P` and `V`. -/
def op : Pc → Option (SemOp Unit Pc)
  | .wait => some (.p () .loadTail)
  | .post => some (.v () .off)
  | _ => none

/-- The other steps of `getch`. -/
def getch (cs : Softc) : Pc → Option (Ev × Pc × Softc)
  | .idle => some (.getch, .wait, cs)
  | .loadTail => some (.step, .loadChar cs.tail, cs)
  | .loadChar tail => some (.step, .reloadTail (cs.slots tail), cs)
  | .reloadTail ret => some (.step, .storeTail ret ((cs.tail + 1) % consoleInputBufferSize), cs)
  | .storeTail ret tail => some (.step, .returning ret, { cs with tail := tail })
  | .returning ret => some (.return ret, .idle, cs)
  | _ => none

/-- The other steps of `con_input`, called with any character. -/
inductive ConInput (cs : Softc) : Pc → Ev → Pc → Softc → Prop
  | interrupt (ch : UInt32) : ConInput cs .off (.interrupt ch) (.loadHead ch) cs
  | loadHead {ch : UInt32} :
    ConInput cs (.loadHead ch) .step (.compare ch ((cs.head + 1) % consoleInputBufferSize)) cs
  | drop {ch : UInt32} {nexthead : ℕ} (h : nexthead = cs.tail) : ConInput cs (.compare ch nexthead) (.drop ch) .off cs
  | accept {ch : UInt32} {nexthead : ℕ} (h : nexthead ≠ cs.tail) :
    ConInput cs (.compare ch nexthead) (.accept ch) (.reloadHead ch nexthead) cs
  | reloadHead {ch : UInt32} {nexthead : ℕ} :
    ConInput cs (.reloadHead ch nexthead) .step (.storeChar ch nexthead cs.head) cs
  | storeChar {ch : UInt32} {nexthead head : ℕ} :
    ConInput cs (.storeChar ch nexthead head) .step (.storeHead ch nexthead) (cs.store head ch.toUInt8)
  | storeHead {ch : UInt32} {nexthead : ℕ} :
    ConInput cs (.storeHead ch nexthead) .step .post { cs with head := nexthead }

/-- The program. -/
def program : SemProgram Side Unit Softc Pc Ev where
  op := op
  act pcs cs t e next cs' :=
    match t with
    | .reader => getch cs (pcs .reader) = some (e, next, cs')
    | .handler => ConInput cs (pcs .handler) e next cs'

/-- A console just configured; the slots hold anything. -/
def start (slots : ℕ → UInt8) : SemState Side Unit Softc Pc where
  sem _ := semCreate _ 0
  shared := ⟨slots, 0, 0⟩
  pc
    | .reader => .idle
    | .handler => .off

/-! ### What the two sides do together -/

/-- The character of a step that accepts one. -/
def acceptedChar : SemLabel Side Ev → Option UInt8
  | .act _ (.accept ch) => some ch.toUInt8
  | _ => none

/-- The character that a call of `getch` returns. -/
def returnedChar : SemLabel Side Ev → Option UInt8
  | .act _ (.return ret) => some ret
  | _ => none

/-- The characters accepted by `con_input`, in their order. -/
def accepted (as : List (SemLabel Side Ev)) : List UInt8 := as.filterMap acceptedChar

/-- The characters returned by `getch`, in their order. -/
def returned (as : List (SemLabel Side Ev)) : List UInt8 := as.filterMap returnedChar

/-- A read in progress: between `P` and the new tail. -/
def Pc.reading : Pc → ℕ
  | .loadTail | .loadChar _ | .reloadTail _ | .storeTail _ _ => 1
  | _ => 0

/-- A character stored and not yet posted. -/
def Pc.posting : Pc → ℕ
  | .post => 1
  | _ => 0

/-- The character taken out and not yet returned. -/
def Pc.inHand : Pc → List UInt8
  | .returning ret => [ret]
  | _ => []

/-- The character accepted and not yet stored. -/
def Pc.inFlight : Pc → List UInt8
  | .reloadHead ch _ | .storeChar ch _ _ | .storeHead ch _ => [ch.toUInt8]
  | _ => []

/-- The slot after `i`. -/
abbrev next (i : ℕ) : ℕ := RingQueue.next consoleInputBufferSize i

/-- What a side has read is still so. -/
def Knows (cs : Softc) : Side → Pc → Prop
  | .reader, .idle | .reader, .wait | .reader, .loadTail | .reader, .returning _ => True
  | .reader, .loadChar tail => tail = cs.tail
  | .reader, .reloadTail ret => ret = cs.slots cs.tail
  | .reader, .storeTail ret tail => ret = cs.slots cs.tail ∧ tail = next cs.tail
  | .reader, _ => False
  | .handler, .off | .handler, .loadHead _ | .handler, .post => True
  | .handler, .compare _ nexthead => nexthead = next cs.head
  | .handler, .reloadHead _ nexthead => nexthead = next cs.head ∧ nexthead ≠ cs.tail
  | .handler, .storeChar _ nexthead head => nexthead = next cs.head ∧ nexthead ≠ cs.tail ∧ head = cs.head
  | .handler, .storeHead ch nexthead =>
    nexthead = next cs.head ∧ nexthead ≠ cs.tail ∧ cs.slots cs.head = ch.toUInt8
  | .handler, _ => False

/-- What holds after every run. -/
structure Queue (as : List (SemLabel Side Ev)) (s : SemState Side Unit Softc Pc) : Prop where
  ok : s.shared.Ok consoleInputBufferSize
  knows : ∀ t, Knows s.shared t (s.pc t)
  units : (s.sem ()).semCount.toNat + (s.pc .reader).reading + (s.pc .handler).posting =
    s.shared.count consoleInputBufferSize
  history : accepted as = returned as ++
    ((s.pc .reader).inHand ++ (s.shared.contents consoleInputBufferSize ++ (s.pc .handler).inFlight))

section Steps

variable {as : List (SemLabel Side Ev)} {s s' : SemState Side Unit Softc Pc} {a : SemLabel Side Ev}

theorem accepted_snoc (as : List (SemLabel Side Ev)) (a : SemLabel Side Ev) :
    accepted (as ++ [a]) = accepted as ++ (acceptedChar a).toList := by
  unfold accepted
  rw [List.filterMap_append]
  cases ha : acceptedChar a <;> simp [ha]

theorem returned_snoc (as : List (SemLabel Side Ev)) (a : SemLabel Side Ev) :
    returned (as ++ [a]) = returned as ++ (returnedChar a).toList := by
  unfold returned
  rw [List.filterMap_append]
  cases ha : returnedChar a <;> simp [ha]

/-- While a read is in progress, a character is stored. -/
theorem Queue.count_ne_zero (h : Queue as s) (hr : (s.pc .reader).reading = 1) :
    s.shared.count consoleInputBufferSize ≠ 0 := by
  have := h.units
  omega

/-- So the handler's slot is not the reader's. -/
theorem Queue.head_ne_tail (h : Queue as s) (hr : (s.pc .reader).reading = 1) : s.shared.head ≠ s.shared.tail := by
  intro he
  apply h.count_ne_zero hr
  rw [h.ok.count_eq, he]
  simp

/-- A step of the reader, from what it changes. -/
theorem Queue.reader (h : Queue as s) {e : Ev} {pc : Pc} {cs : Softc} (hok : cs.Ok consoleInputBufferSize)
    (hreader : Knows cs .reader pc) (hhandler : Knows cs .handler (s.pc .handler))
    (hunits : pc.reading + s.shared.count consoleInputBufferSize =
      (s.pc .reader).reading + cs.count consoleInputBufferSize)
    (haccept : acceptedChar (.act .reader e) = none)
    (hhistory : (returnedChar (.act .reader e)).toList ++ (pc.inHand ++ cs.contents consoleInputBufferSize) =
      (s.pc .reader).inHand ++ s.shared.contents consoleInputBufferSize) :
    Queue (as ++ [.act .reader e]) { s with shared := cs, pc := Function.update s.pc .reader pc } := by
  have hother : Function.update s.pc .reader pc .handler = s.pc .handler := Function.update_of_ne (by decide) _ _
  refine ⟨hok, fun t => ?_, ?_, ?_⟩
  · cases t with
    | reader => simpa using hreader
    | handler => simpa [hother] using hhandler
  · have := h.units
    simp only [hother, Function.update_self]
    omega
  · rw [accepted_snoc, returned_snoc, haccept, h.history]
    simp only [hother, Function.update_self, Option.toList_none, List.append_nil]
    rw [List.append_assoc, ← List.append_assoc _ _ (s.pc .handler).inFlight, ← hhistory]
    simp only [List.append_assoc]

/-- A step of the handler, from what it changes. -/
theorem Queue.handler (h : Queue as s) {e : Ev} {pc : Pc} {cs : Softc} (hok : cs.Ok consoleInputBufferSize)
    (hreader : Knows cs .reader (s.pc .reader)) (hhandler : Knows cs .handler pc)
    (hunits : pc.posting + s.shared.count consoleInputBufferSize =
      (s.pc .handler).posting + cs.count consoleInputBufferSize)
    (hreturn : returnedChar (.act .handler e) = none)
    (hhistory : s.shared.contents consoleInputBufferSize ++ (s.pc .handler).inFlight ++
      (acceptedChar (.act .handler e)).toList = cs.contents consoleInputBufferSize ++ pc.inFlight) :
    Queue (as ++ [.act .handler e]) { s with shared := cs, pc := Function.update s.pc .handler pc } := by
  have hother : Function.update s.pc .handler pc .reader = s.pc .reader := Function.update_of_ne (by decide) _ _
  refine ⟨hok, fun t => ?_, ?_, ?_⟩
  · cases t with
    | reader => simpa [hother] using hreader
    | handler => simpa using hhandler
  · have := h.units
    simp only [hother, Function.update_self]
    omega
  · rw [accepted_snoc, returned_snoc, hreturn, h.history]
    simp only [hother, Function.update_self, Option.toList_none, List.append_nil]
    rw [← hhistory]
    simp only [List.append_assoc]

/-- What the handler knows stays true when the tail moves on. -/
theorem Queue.handler_knows (h : Queue as s) (hr : (s.pc .reader).reading = 1) :
    Knows { s.shared with tail := next s.shared.tail } .handler (s.pc .handler) := by
  have hk := h.knows .handler
  have hfull : next s.shared.head ≠ next s.shared.tail := fun he =>
    h.head_ne_tail hr (RingQueue.next_injective h.ok.head h.ok.tail he)
  generalize s.pc .handler = pc at hk
  cases pc with
  | reloadHead ch nexthead => exact ⟨hk.1, hk.1 ▸ hfull⟩
  | storeChar ch nexthead head => exact ⟨hk.1, hk.1 ▸ hfull, hk.2.2⟩
  | storeHead ch nexthead => exact ⟨hk.1, hk.1 ▸ hfull, hk.2.2⟩
  | _ => exact hk

/-- What the reader knows stays true when the handler fills its slot. -/
theorem Queue.reader_knows (h : Queue as s) (c : UInt8) :
    Knows (s.shared.store s.shared.head c) .reader (s.pc .reader) := by
  have hk := h.knows .reader
  have hslot : (s.pc .reader).reading = 1 → (s.shared.store s.shared.head c).slots s.shared.tail =
      s.shared.slots s.shared.tail := fun hr => Function.update_of_ne (h.head_ne_tail hr).symm _ _
  generalize s.pc .reader = pc at hk hslot
  cases pc with
  | reloadTail ret => exact hk.trans (hslot rfl).symm
  | storeTail ret tail => exact ⟨hk.1.trans (hslot rfl).symm, hk.2⟩
  | _ => exact hk

/-- **A step of `getch`.** -/
theorem Queue.getch (h : Queue as s) {e : Ev} {pc : Pc} {cs : Softc}
    (ha : Console.getch s.shared (s.pc .reader) = some (e, pc, cs)) :
    Queue (as ++ [.act .reader e]) { s with shared := cs, pc := Function.update s.pc .reader pc } := by
  have hk := h.knows .reader
  have hk' := h.knows .handler
  unfold Console.getch at ha
  split at ha
  · next hpc =>
    cases ha
    exact h.reader h.ok trivial hk' (by rw [hpc]; rfl) rfl (by rw [hpc]; rfl)
  · next hpc =>
    cases ha
    exact h.reader h.ok rfl hk' (by rw [hpc]; rfl) rfl (by rw [hpc]; rfl)
  · next tail hpc =>
    cases ha
    rw [hpc] at hk
    exact h.reader h.ok (congrArg _ hk) hk' (by rw [hpc]; rfl) rfl (by rw [hpc]; rfl)
  · next ret hpc =>
    cases ha
    rw [hpc] at hk
    exact h.reader h.ok ⟨hk, rfl⟩ hk' (by rw [hpc]; rfl) rfl (by rw [hpc]; rfl)
  · next ret tail hpc =>
    cases ha
    have hr : (s.pc .reader).reading = 1 := by
      rw [hpc]
      rfl
    have hne := h.count_ne_zero hr
    have hcount : (⟨s.shared.slots, s.shared.head, next s.shared.tail⟩ : Softc).count consoleInputBufferSize + 1 =
        s.shared.count consoleInputBufferSize := h.ok.count_remove hne
    rw [hpc] at hk
    obtain ⟨hret, rfl⟩ := hk
    refine h.reader h.ok.remove trivial (h.handler_knows hr) ?_ rfl ?_
    · rw [hpc]
      show 0 + _ = 1 + _
      omega
    · rw [hpc, hret]
      exact (h.ok.contents_remove hne).symm
  · next ret hpc =>
    cases ha
    exact h.reader h.ok trivial hk' (by rw [hpc]; rfl) rfl (by rw [hpc]; rfl)
  · cases ha

/-- **A step of `con_input`.** -/
theorem Queue.conInput (h : Queue as s) {e : Ev} {pc : Pc} {cs : Softc} (ha : ConInput s.shared (s.pc .handler) e pc cs) :
    Queue (as ++ [.act .handler e]) { s with shared := cs, pc := Function.update s.pc .handler pc } := by
  have hk := h.knows .handler
  have hk' := h.knows .reader
  generalize hpc : s.pc .handler = old at ha hk
  cases ha with
  | interrupt ch => exact h.handler h.ok hk' trivial (by rw [hpc]; rfl) rfl (by rw [hpc]; simp [acceptedChar, Pc.inFlight])
  | loadHead => exact h.handler h.ok hk' rfl (by rw [hpc]; rfl) rfl (by rw [hpc]; simp [acceptedChar, Pc.inFlight])
  | drop => exact h.handler h.ok hk' trivial (by rw [hpc]; rfl) rfl (by rw [hpc]; simp [acceptedChar, Pc.inFlight])
  | accept hne =>
    exact h.handler h.ok hk' ⟨hk, hne⟩ (by rw [hpc]; rfl) rfl (by rw [hpc]; simp [acceptedChar, Pc.inFlight])
  | reloadHead =>
    exact h.handler h.ok hk' ⟨hk.1, hk.2, rfl⟩ (by rw [hpc]; rfl) rfl (by rw [hpc]; simp [acceptedChar, Pc.inFlight])
  | @storeChar ch nexthead head =>
    obtain ⟨hnext, hfull, rfl⟩ := hk
    refine h.handler (h.ok.store _ _) (h.reader_knows _) ⟨hnext, hfull, ?_⟩ (by rw [hpc]; rfl) rfl ?_
    · exact Function.update_self _ _ _
    · rw [hpc, h.ok.contents_store]
      simp [acceptedChar, Pc.inFlight]
  | @storeHead ch nexthead =>
    obtain ⟨rfl, hfull, hslot⟩ := hk
    have hcount : (⟨s.shared.slots, next s.shared.head, s.shared.tail⟩ : Softc).count consoleInputBufferSize =
        s.shared.count consoleInputBufferSize + 1 := h.ok.count_advance hfull
    refine h.handler h.ok.advance ?_ trivial ?_ rfl ?_
    · generalize s.pc .reader = pc at hk'
      cases pc <;> exact hk'
    · rw [hpc]
      show 1 + _ = 0 + _
      omega
    · rw [hpc, h.ok.contents_advance hfull, hslot]
      simp [acceptedChar, Pc.inFlight]

/-- `P` is where `getch` waits, `V` where `con_input` ends. -/
theorem op_p {pc next : Pc} {x : Unit} (h : program.op pc = some (.p x next)) : pc = .wait ∧ next = .loadTail := by
  have h' : op pc = some (.p x next) := h
  unfold op at h'
  split at h' <;> cases h'
  exact ⟨rfl, rfl⟩

@[inherit_doc op_p]
theorem op_v {pc next : Pc} {x : Unit} (h : program.op pc = some (.v x next)) : pc = .post ∧ next = .off := by
  have h' : op pc = some (.v x next) := h
  unfold op at h'
  split at h' <;> cases h'
  exact ⟨rfl, rfl⟩

/-- **A step.** -/
theorem Queue.step (hinv : program.Inv s) (h : Queue as s) (hst : program.Step s a s') : Queue (as ++ [a]) s' := by
  have hsem : ∀ t, accepted (as ++ [.sem t]) = accepted as ∧ returned (as ++ [.sem t]) = returned as := fun t =>
    ⟨by rw [accepted_snoc]; simp [acceptedChar], by rw [returned_snoc]; simp [returnedChar]⟩
  cases hst with
  | @p t x next m hop hp =>
    have hcount : m.semCount.toNat + 1 = (s.sem x).semCount.toNat := (hp.spec (hinv.ok x)).count
    cases t with
    | reader =>
      obtain ⟨hpc, rfl⟩ := op_p hop
      have hother : Function.update s.pc .reader .loadTail .handler = s.pc .handler :=
        Function.update_of_ne (by decide) _ _
      refine ⟨h.ok, fun t => ?_, ?_, ?_⟩
      · cases t with
        | reader => trivial
        | handler => simpa [hother] using h.knows .handler
      · have := h.units
        rw [hpc] at this
        simp only [hother, Function.update_self]
        show m.semCount.toNat + 1 + _ = _
        rw [hcount]
        exact this
      · rw [(hsem .reader).1, (hsem .reader).2, h.history, hpc]
        simp only [hother, Function.update_self]
        rfl
    | handler =>
      have hk := h.knows .handler
      rw [(op_p hop).1] at hk
      exact absurd hk id
  | @sleep t x next m hop hp =>
    have hcount : m.semCount.toNat = (s.sem x).semCount.toNat := (hp.spec (hinv.ok x)).count
    refine ⟨h.ok, h.knows, ?_, ?_⟩
    · show (Function.update s.sem x m ()).semCount.toNat + _ + _ = _
      rw [Function.update_self, hcount]
      exact h.units
    · rw [(hsem t).1, (hsem t).2]
      exact h.history
  | @v t x next m hop hv =>
    have hcount : m.semCount.toNat = (s.sem x).semCount.toNat + 1 := (semV_spec (hinv.ok x) hv).2.1
    cases t with
    | reader =>
      have hk := h.knows .reader
      rw [(op_v hop).1] at hk
      exact absurd hk id
    | handler =>
      obtain ⟨hpc, rfl⟩ := op_v hop
      have hother : Function.update s.pc .handler .off .reader = s.pc .reader :=
        Function.update_of_ne (by decide) _ _
      refine ⟨h.ok, fun t => ?_, ?_, ?_⟩
      · cases t with
        | reader => simpa [hother] using h.knows .reader
        | handler => trivial
      · have := h.units
        rw [hpc] at this
        simp only [hother, Function.update_self]
        show m.semCount.toNat + _ + 0 = _
        rw [hcount, ← this]
        show _ = (s.sem x).semCount.toNat + _ + 1
        omega
      · rw [(hsem .handler).1, (hsem .handler).2, h.history, hpc]
        simp only [hother, Function.update_self]
        rfl
  | @act t e next cs hop ha =>
    cases t with
    | reader => exact h.getch ha
    | handler => exact h.conInput ha

theorem inv_run {slots : ℕ → UInt8} (h : Run program.Step (start slots) as s) : program.Inv s :=
  Run.invariant (SemProgram.inv_init (n := fun _ => 0) fun _ => rfl) (fun _ _ _ hi hst => hst.inv hi) h

/-- **Every run.** -/
theorem queue_run {slots : ℕ → UInt8} (h : Run program.Step (start slots) as s) : Queue as s := by
  induction h with
  | nil =>
    have hpos : 0 < consoleInputBufferSize := by decide
    have hnone : (start slots).shared.count consoleInputBufferSize = 0 := by
      simp [RingQueue.count, start]
    refine ⟨⟨hpos, hpos⟩, fun t => ?_, hnone.symm, ?_⟩
    · cases t <;> trivial
    · unfold RingQueue.contents
      rw [hnone]
      rfl
  | snoc a h hst ih => exact ih.step (inv_run h) hst

/-- A character is dropped at a full buffer. -/
theorem Queue.of_drop (h : Queue as s) {ch : UInt32} (hst : program.Step s (.act .handler (.drop ch)) s') :
    s.shared.count consoleInputBufferSize = consoleInputBufferSize - 1 := by
  have hk := h.knows .handler
  cases hst with
  | act _ ha =>
    have ha' : ConInput s.shared (s.pc .handler) (.drop ch) _ _ := ha
    generalize s.pc .handler = pc at ha' hk
    cases ha' with
    | drop htail =>
      have hk' : _ = next s.shared.head := hk
      exact h.ok.next_head_eq_tail_iff.mp (hk'.symm.trans htail)

end Steps

/-- **Console input is a queue.** After every run of the handler and one
reader, from a console with anything in its slots: what was accepted is what
was returned, then the character that the reader is about to return, the
characters stored, and the one about to be stored; a character is dropped only
when all slots but one are taken; and while the handler does not run, the count
of the semaphore and the read in progress are the characters stored. -/
theorem console_input_queue (slots : ℕ → UInt8) {as : List (SemLabel Side Ev)} {s : SemState Side Unit Softc Pc}
    (h : Run program.Step (start slots) as s) :
    returned as <+: accepted as ∧
    accepted as = returned as ++
      ((s.pc .reader).inHand ++ (s.shared.contents consoleInputBufferSize ++ (s.pc .handler).inFlight)) ∧
    (∀ ch s', program.Step s (.act .handler (.drop ch)) s' →
      (s.shared.contents consoleInputBufferSize).length = consoleInputBufferSize - 1) ∧
    (s.pc .handler = .off → (s.sem ()).semCount.toNat + (s.pc .reader).reading =
      (s.shared.contents consoleInputBufferSize).length) := by
  have hq := queue_run h
  refine ⟨⟨_, hq.history.symm⟩, hq.history, fun ch s' hst => ?_, fun hoff => ?_⟩
  · rw [RingQueue.length_contents]
    exact hq.of_drop hst
  · have hunits := hq.units
    rw [hoff] at hunits
    rw [RingQueue.length_contents]
    exact hunits

/-- A character comes in and is read. -/
theorem one_char_run : ∃ as s, Run program.Step (start fun _ => 0) as s ∧ [] ++ returned as = [65] ∧
    s.pc .handler = .off := by
  have cons : ∀ {s t a} {l : List UInt8}, program.Step s a t →
      (∃ as u, Run program.Step t as u ∧ l ++ (returnedChar a).toList ++ returned as = [65] ∧ u.pc .handler = .off) →
      ∃ as u, Run program.Step s as u ∧ l ++ returned as = [65] ∧ u.pc .handler = .off := by
    intro s t a l hst hr
    obtain ⟨as, u, hr, hret, hu⟩ := hr
    refine ⟨a :: as, u, Run.cons hst hr, ?_, hu⟩
    unfold returned at hret ⊢
    rw [← hret]
    cases ha : returnedChar a <;> simp [ha]
  have input : ∀ {s : SemState Side Unit Softc Pc} {e pc cs}, op (s.pc .handler) = none →
      ConInput s.shared (s.pc .handler) e pc cs →
      program.Step s (.act .handler e) { s with shared := cs, pc := Function.update s.pc .handler pc } :=
    fun ho ha => .act (t := Side.handler) ho ha
  have get : ∀ {s : SemState Side Unit Softc Pc} {e pc cs}, op (s.pc .reader) = none →
      getch s.shared (s.pc .reader) = some (e, pc, cs) →
      program.Step s (.act .reader e) { s with shared := cs, pc := Function.update s.pc .reader pc } :=
    fun ho ha => .act (t := Side.reader) ho ha
  -- the handler stores `A` and posts
  refine cons (input rfl (.interrupt 65)) <| cons (input rfl .loadHead) ?_
  refine cons (input rfl (.accept (by decide))) <| cons (input rfl .reloadHead) ?_
  refine cons (input rfl .storeChar) <| cons (input rfl .storeHead) ?_
  refine cons (.v (t := Side.handler) (x := ()) rfl (semV_of_ne (by decide))) ?_
  -- the reader waits, looks and takes it
  refine cons (get rfl rfl) ?_
  refine cons (.p (t := Side.reader) (x := ()) rfl
    (semP_through ⟨List.not_mem_nil, Finset.notMem_empty _⟩ (by decide))) ?_
  refine cons (get rfl rfl) <| cons (get rfl rfl) <| cons (get rfl rfl) <| cons (get rfl rfl) ?_
  exact cons (get rfl rfl) ⟨[], _, Run.nil, rfl, rfl⟩

/-- The statement at that run. -/
theorem console_input_queue_one : ∃ as s, Run program.Step (start fun _ => 0) as s ∧ returned as = [65] ∧
    [65] <+: accepted as ∧ (s.sem ()).semCount.toNat + (s.pc .reader).reading =
      (s.shared.contents consoleInputBufferSize).length := by
  obtain ⟨as, s, h, hret, hoff⟩ := one_char_run
  have hq := console_input_queue _ h
  exact ⟨as, s, h, hret, hret ▸ hq.1, hq.2.2.2 hoff⟩

end Console

end Os161
