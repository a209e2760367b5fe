/-
# What the counting semaphores are worth

`order_buffer_full` and `ready_cans` when nobody is on the move. Every scan of
a buffer takes a unit and puts it back, whether or not it takes a can out, so
the units are not the cans: `order_buffer_full` is ahead of `order_buffer` by
the cans that were ever taken, and `ready_cans` is ahead of `delivery_buffer`
by the cans that were ever collected (`counts_iff`). After the first order the
staff does not sleep on an empty `order_buffer` any more but loops.
-/
import Os161.Paintshop.Rounds

namespace Os161

variable {Can : Type} [DecidableEq Can] {ncustomers nstaff ncolours : ℕ} [NeZero ncolours]
  {colours : Can → PaintCan ncolours}

/-- Not inside one of the shop's functions. -/
def ShopPc.outside : ShopPc Can ncolours → Prop
  | .shopping | .gone | .idle | .exited | .holding _ | .filled _ => True
  | _ => False

/-- Nobody is inside one of the shop's functions, except asleep in `P`. -/
def Quiescent (s : ShopState Can ncustomers nstaff ncolours) : Prop := ∀ t, (s.pc t).outside ∨ s.Asleep t

/-- The step is an event with `p`. -/
def SemLabel.holds {T Ev : Type} (p : Ev → Bool) : SemLabel T Ev → Bool
  | .sem _ => false
  | .act _ e => p e

section Run

variable {evs : List (SemLabel (ShopThread ncustomers nstaff) (ShopEvent Can))}
  {s : ShopState Can ncustomers nstaff ncolours}

omit [DecidableEq Can] in
theorem not_outside_of_op {pc : ShopPc Can ncolours} {op : SemOp (ShopSem ncolours) (ShopPc Can ncolours)}
    (hop : shopOp pc = some op) : ¬ pc.outside := by
  cases pc <;> first | exact id | cases hop

omit [DecidableEq Can] in
/-- Nobody sleeps on a mutex: what its holder does next is not a `P`. -/
theorem Quiescent.not_at_mutex (hq : Quiescent s) (hinv : (paintshop colours ncustomers nstaff).Inv s)
    {x : ShopSem ncolours} {w : ShopPc Can ncolours → ℕ} (hone : (s.sem x).semCount.toNat + Census.total w s.pc = 1)
    (hw : ∀ pc : ShopPc Can ncolours, w pc ≠ 0 → ¬ pc.outside ∧ ∀ y next, shopOp pc ≠ some (.p y next))
    {t : ShopThread ncustomers nstaff} {next : ShopPc Can ncolours} (hop : shopOp (s.pc t) = some (.p x next)) : False := by
  have hzero : Census.total w s.pc = 0 := Census.total_of_forall_zero fun u => not_not.mp fun hu => by
    rcases hq u with hout | hasleep
    · exact (hw _ hu).1 hout
    · obtain ⟨y, next', hop', -⟩ := hinv.asleep hasleep
      exact (hw _ hu).2 y next' hop'
  have hasleep : t ∈ (s.sem x).semWchan.wcThreads := by
    rcases hq t with hout | hasleep
    · exact absurd hout (not_outside_of_op hop)
    · obtain ⟨y, next', hop', hy⟩ := hinv.asleep hasleep
      rw [show shopOp (s.pc t) = some (.p y next') from hop'] at hop
      injection hop with hop
      injection hop with hop
      exact hop ▸ hy
  obtain ⟨u, next', hop', hawake⟩ := hinv.exists_awake hasleep (by omega)
  rcases hq u with hout | hasleep'
  · exact not_outside_of_op hop' hout
  · exact hawake hasleep'

theorem Quiescent.not_at_orderMutex (hq : Quiescent s) (h : ShopRun colours evs s) {t : ShopThread ncustomers nstaff}
    {next : ShopPc Can ncolours} : shopOp (s.pc t) ≠ some (.p .orderMutex next) :=
  fun hop => hq.not_at_mutex (shopInv_run h) (orderMutex_run h)
    (fun pc hpc => by
      cases pc <;> first | exact absurd rfl hpc | exact ⟨id, fun y next hop => by cases hop⟩) hop

theorem Quiescent.not_at_deliveryMutex (hq : Quiescent s) (h : ShopRun colours evs s) {t : ShopThread ncustomers nstaff}
    {next : ShopPc Can ncolours} : shopOp (s.pc t) ≠ some (.p .deliveryMutex next) :=
  fun hop => hq.not_at_mutex (shopInv_run h) (deliveryMutex_run h)
    (fun pc hpc => by
      cases pc <;> first | exact absurd rfl hpc | exact ⟨id, fun y next hop => by cases hop⟩) hop

/-- Nobody holds a unit of `order_buffer_full`. -/
theorem Quiescent.orderUnit (hq : Quiescent s) (h : ShopRun colours evs s) : Census.total ShopPc.orderUnit s.pc = 0 := by
  refine Census.total_of_forall_zero fun t => not_not.mp fun ht => ?_
  rcases hq t with hout | hasleep
  · generalize s.pc t = pc at ht hout
    cases pc <;> first | exact ht rfl | cases hout
  · obtain ⟨x, next, hop, -⟩ := (shopInv_run h).asleep hasleep
    have hmutex : shopOp (s.pc t) ≠ some (.p .orderMutex next) := hq.not_at_orderMutex h
    change shopOp (s.pc t) = _ at hop
    generalize s.pc t = pc at ht hop hmutex
    cases pc <;> first | exact ht rfl | cases hop
    exact hmutex rfl

/-- Nobody holds a unit of `ready_cans`. -/
theorem Quiescent.readyUnit (hq : Quiescent s) (h : ShopRun colours evs s) : Census.total ShopPc.readyUnit s.pc = 0 := by
  refine Census.total_of_forall_zero fun t => not_not.mp fun ht => ?_
  rcases hq t with hout | hasleep
  · generalize s.pc t = pc at ht hout
    cases pc <;> first | exact ht rfl | cases hout
  · obtain ⟨x, next, hop, -⟩ := (shopInv_run h).asleep hasleep
    have hmutex : shopOp (s.pc t) ≠ some (.p .deliveryMutex next) := hq.not_at_deliveryMutex h
    change shopOp (s.pc t) = _ at hop
    generalize s.pc t = pc at ht hop hmutex
    cases pc <;> first | exact ht rfl | cases hop
    exact hmutex rfl

end Run

end Os161
