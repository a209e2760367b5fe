/-
# What the shop's semaphores count

The conservation laws of `asst1/paintshop.c`: the mutexes, the free slots of
both buffers, the orders and the cans ready, the cans themselves, and the
customers who are still there.
-/
import Os161.Paintshop.Shop

namespace Os161

variable {Can : Type} {ncustomers nstaff ncolours : ℕ}

namespace ShopPc

/-- Between `P(order_mutex)` and `V(order_mutex)`. -/
def inOrders : ShopPc Can ncolours → ℕ
  | .placing _ _ | .orderUnlock _ | .scanning _ | .takeUnlock _ => 1
  | _ => 0

/-- Between `P(delivery_mutex)` and `V(delivery_mutex)`. -/
def inDeliveries : ShopPc Can ncolours → ℕ
  | .searching _ _ | .deliveryUnlock _ _ | .serving _ _ | .serveUnlock _ => 1
  | _ => 0

/-- Between `P` and `V` of `remaining_customers_mutex`. -/
def inRemaining : ShopPc Can ncolours → ℕ
  | .homeRead | .homeWrite _ | .homeUnlock => 1
  | _ => 0

/-- Has a slot of `order_buffer` that is not in `order_buffer_empty`: to fill
it, or after it was cleared. -/
def orderSlot : ShopPc Can ncolours → ℕ
  | .orderLock _ | .placing _ _ | .takeUnlock (some _) | .fullRepost (some _) | .emptyRepost _ => 1
  | _ => 0

/-- Has a slot of `delivery_buffer` that is not in `delivery_buffer_empty`. -/
def deliverySlot : ShopPc Can ncolours → ℕ
  | .serveLock _ | .serving _ _ | .deliveryUnlock _ true | .readyPost _ true | .emptyPost _ => 1
  | _ => 0

/-- Has a unit of `order_buffer_full`, or is to add one. -/
def orderUnit : ShopPc Can ncolours → ℕ
  | .orderUnlock _ | .fullPost _ | .takeLock | .scanning _ | .takeUnlock _ | .fullRepost _ => 1
  | _ => 0

/-- Has a unit of `ready_cans`, or is to add one. -/
def readyUnit : ShopPc Can ncolours → ℕ
  | .serveUnlock _ | .servePost | .deliveryLock _ | .searching _ _ | .deliveryUnlock _ _ | .readyPost _ _ => 1
  | _ => 0

/-- How far the order of the can in a thread's hands is. -/
inductive Stage
  | wanted
  | unmixed
  | mixed
  | collected
  deriving DecidableEq

/-- The can in the thread's hands: a customer's until it is placed and again
once it is collected, a staff thread's in between. -/
def carries : ShopPc Can ncolours → Option (Can × Stage)
  | .emptyWait can | .orderLock can | .placing can _ => some (can, .wanted)
  | .takeUnlock can | .fullRepost can => can.map (·, .unmixed)
  | .emptyRepost can | .holding can => some (can, .unmixed)
  | .filling can (.release _) => some (can, .mixed)
  | .filling can _ => some (can, .unmixed)
  | .filled can | .serveWait can | .serveLock can | .serving can _ => some (can, .mixed)
  | .deliveryUnlock can true | .readyPost can true | .emptyPost can | .returning can => some (can, .collected)
  | _ => none

/-- The thread has the can `c`. -/
def has [DecidableEq Can] (c : Can) (pc : ShopPc Can ncolours) : ℕ := if pc.carries.map Prod.fst = some c then 1 else 0

/-- The thread is in `order_paint` with the can `c`. -/
def wants [DecidableEq Can] (c : Can) (pc : ShopPc Can ncolours) : ℕ := if pc.orders = some c then 1 else 0

/-- A customer who has not yet been taken off `remaining_customers`. -/
def present : ShopPc Can ncolours → ℕ
  | .shopping | .homeLock | .homeRead | .homeWrite _ => 1
  | pc => if pc.orders.isSome then 1 else 0

end ShopPc

/-- The slots of a buffer with a can. -/
def numCans (buffer : Fin ncustomers → Option Can) : ℕ := Census.total (fun o => if o.isSome then 1 else 0) buffer

theorem numCans_put {buffer : Fin ncustomers → Option Can} {i : Fin ncustomers} (h : buffer i = none) (can : Can) :
    numCans (Function.update buffer i (some can)) = numCans buffer + 1 := by
  have htotal := Census.total_update (w := fun o : Option Can => if o.isSome then 1 else 0) (f := buffer) i (some can)
  simpa [numCans, h] using htotal

theorem numCans_clear {buffer : Fin ncustomers → Option Can} {i : Fin ncustomers} {can : Can} (h : buffer i = some can) :
    numCans (Function.update buffer i none) + 1 = numCans buffer := by
  have htotal := Census.total_update (w := fun o : Option Can => if o.isSome then 1 else 0) (f := buffer) i none
  simpa [numCans, h] using htotal

variable [DecidableEq Can]

/-- The slots of a buffer with the can `c`. -/
def numOf (c : Can) (buffer : Fin ncustomers → Option Can) : ℕ :=
  Census.total (fun o => if o = some c then 1 else 0) buffer

theorem numOf_put {buffer : Fin ncustomers → Option Can} {i : Fin ncustomers} (h : buffer i = none) (c can : Can) :
    numOf c (Function.update buffer i (some can)) = numOf c buffer + if can = c then 1 else 0 := by
  have htotal := Census.total_update (w := fun o : Option Can => if o = some c then 1 else 0) (f := buffer) i (some can)
  simpa [numOf, h] using htotal

theorem numOf_clear {buffer : Fin ncustomers → Option Can} {i : Fin ncustomers} {can : Can} (h : buffer i = some can)
    (c : Can) : numOf c (Function.update buffer i none) + (if can = c then 1 else 0) = numOf c buffer := by
  have htotal := Census.total_update (w := fun o : Option Can => if o = some c then 1 else 0) (f := buffer) i none
  simpa [numOf, h] using htotal

/-- What is counted. -/
inductive ShopAccount (Can : Type)
  | orderMutex
  | deliveryMutex
  | remainingMutex
  | orderSlots
  | deliverySlots
  | orderUnits
  | readyUnits
  | orders
  | deliveries
  | can (c : Can)
  | customers

/-- The laws of the shop. An event is worth what it puts in. -/
def shopLaw (ncustomers nstaff ncolours : ℕ) : ShopAccount Can →
    Law (ShopThread ncustomers nstaff) (ShopSem ncolours) (Shop Can ncustomers) (ShopPc Can ncolours) (ShopEvent Can)
  | .orderMutex => Law.count .orderMutex ShopPc.inOrders (fun _ => 0) fun _ _ => 0
  | .deliveryMutex => Law.count .deliveryMutex ShopPc.inDeliveries (fun _ => 0) fun _ _ => 0
  | .remainingMutex => Law.count .remainingCustomersMutex ShopPc.inRemaining (fun _ => 0) fun _ _ => 0
  | .orderSlots => Law.count .orderBufferEmpty ShopPc.orderSlot (fun sh => numCans sh.orderBuffer) fun _ e =>
      match e with
      | .noOrderSlot _ => -1
      | _ => 0
  | .deliverySlots => Law.count .deliveryBufferEmpty ShopPc.deliverySlot (fun sh => numCans sh.deliveryBuffer) fun _ e =>
      match e with
      | .noDeliverySlot _ => -1
      | _ => 0
  | .orderUnits => Law.count .orderBufferFull ShopPc.orderUnit (fun _ => 0) fun _ e =>
      match e with
      | .placed _ | .noOrderSlot _ => 1
      | _ => 0
  | .readyUnits => Law.count .readyCans ShopPc.readyUnit (fun _ => 0) fun _ e =>
      match e with
      | .served _ | .noDeliverySlot _ => 1
      | _ => 0
  | .orders => ⟨fun _ => 0, fun _ => 0, fun sh => numCans sh.orderBuffer, fun _ e =>
      match e with
      | .placed _ => 1
      | .taken _ => -1
      | _ => 0⟩
  | .deliveries => ⟨fun _ => 0, fun _ => 0, fun sh => numCans sh.deliveryBuffer, fun _ e =>
      match e with
      | .served _ => 1
      | .collected _ => -1
      | _ => 0⟩
  | .can c => ⟨fun _ => 0, fun pc => (pc.has c : ℤ) - pc.wants c,
      fun sh => (numOf c sh.orderBuffer : ℤ) + numOf c sh.deliveryBuffer, fun _ e =>
      match e with
      | .noOrderSlot can | .noDeliverySlot can => if can = c then -1 else 0
      | _ => 0⟩
  | .customers => ⟨fun _ => 0, fun pc => -(pc.present : ℤ), fun sh => sh.remainingCustomers, fun _ _ => 0⟩

variable [NeZero ncolours]

omit [DecidableEq Can] in
/-- `P` and `V` move no can. -/
theorem shopOp_carries {pc : ShopPc Can ncolours} {op : SemOp (ShopSem ncolours) (ShopPc Can ncolours)}
    (hop : shopOp pc = some op) : op.next.carries = pc.carries ∧ op.next.orders = pc.orders := by
  cases pc
  case filling can pc =>
    obtain ⟨op', hop', rfl⟩ := Option.map_eq_some_iff.mp hop
    cases op' with
    | p x next => rcases fillOp_p hop' with ⟨_, rfl, rfl, rfl⟩ | ⟨_, _, _, -, rfl, rfl, rfl⟩ <;> exact ⟨rfl, rfl⟩
    | v x next => rcases fillOp_v hop' with ⟨_, rfl, rfl, rfl⟩ | ⟨_, _, -, rfl, rfl, rfl⟩ <;> exact ⟨rfl, rfl⟩
  case deliveryUnlock can found => cases hop; cases found <;> exact ⟨rfl, rfl⟩
  case readyPost can found => cases hop; cases found <;> exact ⟨rfl, rfl⟩
  case takeUnlock can => cases hop; exact ⟨rfl, rfl⟩
  case fullRepost can => cases hop; cases can <;> exact ⟨rfl, rfl⟩
  all_goals cases hop <;> exact ⟨rfl, rfl⟩

/-- What an event does with the cans: from the can in the thread's hands and
the one it is ordering to those after it. -/
inductive Moves (ordered : Set Can) (sh : Shop Can ncustomers) :
    Option (Can × ShopPc.Stage) → Option Can → ShopEvent Can → Option (Can × ShopPc.Stage) → Option Can →
      Shop Can ncustomers → Prop
  | order {can : Can} : can ∉ ordered → Moves ordered sh none none (.order can) (some (can, .wanted)) (some can) sh
  | placed {can : Can} {i : Fin ncustomers} : sh.orderBuffer i = none →
      Moves ordered sh (some (can, .wanted)) (some can) (.placed can) none (some can)
        { sh with orderBuffer := Function.update sh.orderBuffer i (some can) }
  | noOrderSlot {can : Can} :
      Moves ordered sh (some (can, .wanted)) (some can) (.noOrderSlot can) none (some can) sh
  | taken {can : Can} {i : Fin ncustomers} : sh.orderBuffer i = some can →
      Moves ordered sh none none (.taken can) (some (can, .unmixed)) none
        { sh with orderBuffer := Function.update sh.orderBuffer i none }
  | mixed {can : Can} : Moves ordered sh (some (can, .unmixed)) none (.mixed can) (some (can, .mixed)) none sh
  | served {can : Can} {i : Fin ncustomers} : sh.deliveryBuffer i = none →
      Moves ordered sh (some (can, .mixed)) none (.served can) none none
        { sh with deliveryBuffer := Function.update sh.deliveryBuffer i (some can) }
  | noDeliverySlot {can : Can} : Moves ordered sh (some (can, .mixed)) none (.noDeliverySlot can) none none sh
  | collected {can : Can} {i : Fin ncustomers} : sh.deliveryBuffer i = some can →
      Moves ordered sh none (some can) (.collected can) (some (can, .collected)) (some can)
        { sh with deliveryBuffer := Function.update sh.deliveryBuffer i none }
  | returned {can : Can} : Moves ordered sh (some (can, .collected)) (some can) (.returned can) none none sh
  | step {x : Option (Can × ShopPc.Stage)} {y : Option Can} {n : ℤ} :
      Moves ordered sh x y .step x y { sh with remainingCustomers := n }

omit [DecidableEq Can] in
/-- The code moves the cans so. -/
theorem ShopAct.moves {colours : Can → PaintCan ncolours} {ordered : Set Can} {sh sh' : Shop Can ncustomers}
    {pc next : ShopPc Can ncolours} {e : ShopEvent Can} (hact : ShopAct colours ordered sh pc e next sh') :
    Moves ordered sh pc.carries pc.orders e next.carries next.orders sh' := by
  cases hact with
  | order h => exact .order h
  | place h => exact .placed h
  | placeEnd _ => exact .noOrderSlot
  | find h => exact .collected h
  | orderReturn => exact .returned
  | take h => exact .taken h
  | fillSkip h => cases h <;> exact .step
  | mix h => cases h; exact .mixed
  | fillDone h => cases h; exact .step
  | serve h => exact .served h
  | serveEnd _ => exact .noDeliverySlot
  | _ => exact .step

/-- The calls of `P` and `V` keep every law. -/
theorem shopOp_kept (a : ShopAccount Can) {pc : ShopPc Can ncolours} {op : SemOp (ShopSem ncolours) (ShopPc Can ncolours)}
    (hop : shopOp pc = some op) : (shopLaw ncustomers nstaff ncolours a).pos op.next =
      (shopLaw ncustomers nstaff ncolours a).pos pc + op.sign * (shopLaw ncustomers nstaff ncolours a).unit op.sem := by
  cases a with
  | can c =>
    obtain ⟨hcarries, horders⟩ := shopOp_carries hop
    simp only [shopLaw, ShopPc.has, ShopPc.wants, mul_zero, add_zero]
    rw [hcarries, horders]
  | _ =>
    cases pc
    case filling can pc =>
      obtain ⟨op', -, rfl⟩ := Option.map_eq_some_iff.mp hop
      cases op' <;> rfl
    case deliveryUnlock can found => cases hop; cases found <;> rfl
    case readyPost can found => cases hop; cases found <;> rfl
    case takeUnlock can => cases hop; cases can <;> rfl
    case fullRepost can => cases hop; cases can <;> rfl
    all_goals cases hop <;> rfl

/-- The other steps keep every law. -/
theorem shopAct_kept (a : ShopAccount Can) {colours : Can → PaintCan ncolours} {ordered : Set Can}
    {sh sh' : Shop Can ncustomers} {pc next : ShopPc Can ncolours} {e : ShopEvent Can} (t : ShopThread ncustomers nstaff)
    (hread : a = .customers → ∀ v, pc = .homeWrite v → v = sh.remainingCustomers) (hact : ShopAct colours ordered sh pc e next sh') :
    (shopLaw ncustomers nstaff ncolours a).pos next + (shopLaw ncustomers nstaff ncolours a).data sh' =
      (shopLaw ncustomers nstaff ncolours a).pos pc + (shopLaw ncustomers nstaff ncolours a).data sh +
        (shopLaw ncustomers nstaff ncolours a).event t e := by
  cases a with
  | orderMutex | deliveryMutex | remainingMutex | orderUnits | readyUnits => cases hact <;> rfl
  | orderSlots =>
    cases hact with
    | place h => simp [shopLaw, Law.count, ShopPc.orderSlot, numCans_put h]; ring
    | placeEnd _ => simp [shopLaw, Law.count, ShopPc.orderSlot]
    | take h => simp [shopLaw, Law.count, ShopPc.orderSlot, ← numCans_clear h]; ring
    | _ => rfl
  | deliverySlots =>
    cases hact with
    | serve h => simp [shopLaw, Law.count, ShopPc.deliverySlot, numCans_put h]; ring
    | serveEnd _ => simp [shopLaw, Law.count, ShopPc.deliverySlot]
    | find h => simp [shopLaw, Law.count, ShopPc.deliverySlot, ← numCans_clear h]; ring
    | _ => rfl
  | orders =>
    cases hact with
    | place h => simp [shopLaw, numCans_put h]
    | take h => simp [shopLaw, ← numCans_clear h]
    | _ => rfl
  | deliveries =>
    cases hact with
    | serve h => simp [shopLaw, numCans_put h]
    | find h => simp [shopLaw, ← numCans_clear h]
    | _ => rfl
  | can c =>
    have hmoves := hact.moves
    simp only [shopLaw, ShopPc.has, ShopPc.wants]
    generalize pc.carries = x at hmoves ⊢
    generalize pc.orders = y at hmoves ⊢
    generalize next.carries = x' at hmoves ⊢
    generalize next.orders = y' at hmoves ⊢
    cases hmoves with
    | placed h | served h => simp [numOf_put h]; ring
    | taken h | collected h => simp [← numOf_clear h]; ring
    | noOrderSlot | noDeliverySlot => simp; split_ifs <;> ring
    | order _ | mixed | returned | step => simp
  | customers =>
    cases hact with
    | @writeRemaining v =>
      show -(0 : ℤ) + (v - 1) = -1 + sh.remainingCustomers + 0
      rw [hread rfl v rfl]
      ring
    | _ => exact (add_zero _).symm

/-- **The shop keeps its laws**; that of the customers, when what a thread in
`go_home` has read is still so. -/
theorem shopLaw_kept (a : ShopAccount Can) (colours : Can → PaintCan ncolours)
    {I : ShopState Can ncustomers nstaff ncolours → Prop}
    (hI : a = .customers → ∀ s, I s → ∀ t v, s.pc t = .homeWrite v → v = s.shared.remainingCustomers) :
    (shopLaw ncustomers nstaff ncolours a).Kept (paintshop colours ncustomers nstaff) I :=
  .of_op (fun _ _ => shopOp_kept a) fun s t _ _ _ hs _ hact => shopAct_kept a t (fun ha => hI ha s hs t) hact

end Os161
