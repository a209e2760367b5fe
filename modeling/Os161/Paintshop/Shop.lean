/-
# The paint shop

`asst1/paintshop.c` with its customers and staff. A customer calls
`order_paint` again and again, with a can that no other customer is ordering,
and then `go_home` once; a staff thread loops over `take_order`, `fill_order`
and `serve_order` until `take_order` returns `NULL`. The drivers are not part
of the program; this is what they are assumed to do.

A step is a section of `P` or `V`, a look at one slot of a buffer, a read or a
write of `remaining_customers`, or a call or return. A position is where a
thread is in the code, with its local variables: the can, the loop index,
`is_found`.

The cans are pointers, of any type; `colours` gives their requested colours.
-/
import Os161.Paintshop.Fill

namespace Os161

/-- The semaphores of `init_semaphore`. -/
inductive ShopSem (ncolours : ℕ)
  | orderMutex
  | deliveryMutex
  | stuffExit
  | remainingCustomersMutex
  | readyCans
  | orderBufferFull
  | deliveryBufferEmpty
  | orderBufferEmpty
  | fill (x : FillSem ncolours)
  deriving DecidableEq, Fintype

/-- Where a thread is. -/
inductive ShopPc (Can : Type) (ncolours : ℕ)
  -- a customer between its calls, in `order_paint`, in `go_home`
  | shopping
  | emptyWait (can : Can)
  | orderLock (can : Can)
  | placing (can : Can) (i : ℕ)
  | orderUnlock (can : Can)
  | fullPost (can : Can)
  | readyWait (can : Can)
  | deliveryLock (can : Can)
  | searching (can : Can) (i : ℕ)
  | deliveryUnlock (can : Can) (found : Bool)
  | readyPost (can : Can) (found : Bool)
  | emptyPost (can : Can)
  | returning (can : Can)
  | homeLock
  | homeRead
  | homeWrite (v : ℤ)
  | homeUnlock
  | gone
  -- a staff thread in `take_order`
  | idle
  | check
  | exitLock
  | exitUnlock
  | exiting
  | exited
  | fullWait
  | takeLock
  | scanning (i : ℕ)
  | takeUnlock (can : Option Can)
  | fullRepost (can : Option Can)
  | emptyRepost (can : Can)
  -- with an order in its hands, in `fill_order`, in `serve_order`
  | holding (can : Can)
  | filling (can : Can) (pc : FillPc ncolours)
  | filled (can : Can)
  | serveWait (can : Can)
  | serveLock (can : Can)
  | serving (can : Can) (i : ℕ)
  | serveUnlock (can : Can)
  | servePost

/-- What a step of the code does, as far as the cans are concerned. -/
inductive ShopEvent (Can : Type)
  | order (can : Can)
  | placed (can : Can)
  | noOrderSlot (can : Can)
  | taken (can : Can)
  | mixed (can : Can)
  | served (can : Can)
  | noDeliverySlot (can : Can)
  | collected (can : Can)
  | returned (can : Can)
  | step
  deriving DecidableEq

/-- The buffers and `remaining_customers`. -/
structure Shop (Can : Type) (ncustomers : ℕ) where
  orderBuffer : Fin ncustomers → Option Can
  deliveryBuffer : Fin ncustomers → Option Can
  remainingCustomers : ℤ

/-- `NCUSTOMERS` customers and some staff. -/
abbrev ShopThread (ncustomers nstaff : ℕ) := Fin ncustomers ⊕ Fin nstaff

variable {Can : Type} {ncustomers nstaff ncolours : ℕ}

/-- The can that an event is about. -/
def ShopEvent.can : ShopEvent Can → Option Can
  | .order can | .placed can | .noOrderSlot can | .taken can | .mixed can | .served can | .noDeliverySlot can
  | .collected can | .returned can => some can
  | .step => none

/-- The can that the thread is in `order_paint` with. -/
def ShopPc.orders : ShopPc Can ncolours → Option Can
  | .emptyWait can | .orderLock can | .placing can _ | .orderUnlock can | .fullPost can | .readyWait can
  | .deliveryLock can | .searching can _ | .deliveryUnlock can _ | .readyPost can _ | .emptyPost can
  | .returning can => some can
  | _ => none

/-- The `P` or `V` that `fill_order` is at, called with `can`. -/
def SemOp.inShop (can : Can) : SemOp (FillSem ncolours) (FillPc ncolours) →
    SemOp (ShopSem ncolours) (ShopPc Can ncolours)
  | .p x next => .p (.fill x) (.filling can next)
  | .v x next => .v (.fill x) (.filling can next)

/-- The `P` or `V` that a thread is at. -/
def shopOp [NeZero ncolours] : ShopPc Can ncolours → Option (SemOp (ShopSem ncolours) (ShopPc Can ncolours))
  -- order_paint
  | .emptyWait can => some (.p .orderBufferEmpty (.orderLock can))
  | .orderLock can => some (.p .orderMutex (.placing can 0))
  | .orderUnlock can => some (.v .orderMutex (.fullPost can))
  | .fullPost can => some (.v .orderBufferFull (.readyWait can))
  | .readyWait can => some (.p .readyCans (.deliveryLock can))
  | .deliveryLock can => some (.p .deliveryMutex (.searching can 0))
  | .deliveryUnlock can found => some (.v .deliveryMutex (.readyPost can found))
  | .readyPost can found => some (.v .readyCans (if found then .emptyPost can else .readyWait can))
  | .emptyPost can => some (.v .deliveryBufferEmpty (.returning can))
  -- go_home
  | .homeLock => some (.p .remainingCustomersMutex .homeRead)
  | .homeUnlock => some (.v .remainingCustomersMutex .gone)
  -- take_order
  | .exitLock => some (.p .stuffExit .exitUnlock)
  | .exitUnlock => some (.v .stuffExit .exiting)
  | .fullWait => some (.p .orderBufferFull .takeLock)
  | .takeLock => some (.p .orderMutex (.scanning 0))
  | .takeUnlock can => some (.v .orderMutex (.fullRepost can))
  | .fullRepost can => some (.v .orderBufferFull (can.elim .check .emptyRepost))
  | .emptyRepost can => some (.v .orderBufferEmpty (.holding can))
  -- fill_order
  | .filling can pc => (fillOp pc).map (SemOp.inShop can)
  -- serve_order
  | .serveWait can => some (.p .deliveryBufferEmpty (.serveLock can))
  | .serveLock can => some (.p .deliveryMutex (.serving can 0))
  | .serveUnlock _ => some (.v .deliveryMutex .servePost)
  | .servePost => some (.v .readyCans .idle)
  | _ => none

/-- The other steps of a thread at a position. A call of `order_paint` is with
a can that nobody is ordering. -/
inductive ShopAct [NeZero ncolours] (colours : Can → PaintCan ncolours) (ordered : Set Can) (sh : Shop Can ncustomers) :
    ShopPc Can ncolours → ShopEvent Can → ShopPc Can ncolours → Shop Can ncustomers → Prop
  -- order_paint
  | order {can : Can} : can ∉ ordered → ShopAct colours ordered sh .shopping (.order can) (.emptyWait can) sh
  | place {can : Can} {i : Fin ncustomers} : sh.orderBuffer i = none →
      ShopAct colours ordered sh (.placing can i) (.placed can) (.orderUnlock can)
        { sh with orderBuffer := Function.update sh.orderBuffer i (some can) }
  | placeNext {can : Can} {i : Fin ncustomers} : sh.orderBuffer i ≠ none →
      ShopAct colours ordered sh (.placing can i) .step (.placing can (i + 1)) sh
  | placeEnd {can : Can} {i : ℕ} : ncustomers ≤ i →
      ShopAct colours ordered sh (.placing can i) (.noOrderSlot can) (.orderUnlock can) sh
  | find {can : Can} {i : Fin ncustomers} : sh.deliveryBuffer i = some can →
      ShopAct colours ordered sh (.searching can i) (.collected can) (.deliveryUnlock can true)
        { sh with deliveryBuffer := Function.update sh.deliveryBuffer i none }
  | findNext {can : Can} {i : Fin ncustomers} : sh.deliveryBuffer i ≠ some can →
      ShopAct colours ordered sh (.searching can i) .step (.searching can (i + 1)) sh
  | findEnd {can : Can} {i : ℕ} : ncustomers ≤ i →
      ShopAct colours ordered sh (.searching can i) .step (.deliveryUnlock can false) sh
  | orderReturn {can : Can} : ShopAct colours ordered sh (.returning can) (.returned can) .shopping sh
  -- go_home
  | goHome : ShopAct colours ordered sh .shopping .step .homeLock sh
  | readRemaining : ShopAct colours ordered sh .homeRead .step (.homeWrite sh.remainingCustomers) sh
  | writeRemaining {v : ℤ} :
      ShopAct colours ordered sh (.homeWrite v) .step .homeUnlock { sh with remainingCustomers := v - 1 }
  -- take_order
  | takeOrder : ShopAct colours ordered sh .idle .step .check sh
  | noneLeft : sh.remainingCustomers = 0 → ShopAct colours ordered sh .check .step .exitLock sh
  | someLeft : sh.remainingCustomers ≠ 0 → ShopAct colours ordered sh .check .step .fullWait sh
  | returnNull : ShopAct colours ordered sh .exiting .step .exited sh
  | take {can : Can} {i : Fin ncustomers} : sh.orderBuffer i = some can →
      ShopAct colours ordered sh (.scanning i) (.taken can) (.takeUnlock (some can))
        { sh with orderBuffer := Function.update sh.orderBuffer i none }
  | takeNext {i : Fin ncustomers} : sh.orderBuffer i = none →
      ShopAct colours ordered sh (.scanning i) .step (.scanning (i + 1)) sh
  | takeEnd {i : ℕ} : ncustomers ≤ i → ShopAct colours ordered sh (.scanning i) .step (.takeUnlock none) sh
  -- fill_order
  | fillOrder {can : Can} :
      ShopAct colours ordered sh (.holding can) .step (.filling can (.lock (colours can))) sh
  | fillSkip {can : Can} {pc next : FillPc ncolours} : FillAct ∅ pc .skip next →
      ShopAct colours ordered sh (.filling can pc) .step (.filling can next) sh
  | mix {can : Can} {pc next : FillPc ncolours} : FillAct ∅ pc .mixed next →
      ShopAct colours ordered sh (.filling can pc) (.mixed can) (.filling can next) sh
  | fillDone {can : Can} {pc next : FillPc ncolours} : FillAct ∅ pc .done next →
      ShopAct colours ordered sh (.filling can pc) .step (.filled can) sh
  -- serve_order
  | serveOrder {can : Can} : ShopAct colours ordered sh (.filled can) .step (.serveWait can) sh
  | serve {can : Can} {i : Fin ncustomers} : sh.deliveryBuffer i = none →
      ShopAct colours ordered sh (.serving can i) (.served can) (.serveUnlock can)
        { sh with deliveryBuffer := Function.update sh.deliveryBuffer i (some can) }
  | serveNext {can : Can} {i : Fin ncustomers} : sh.deliveryBuffer i ≠ none →
      ShopAct colours ordered sh (.serving can i) .step (.serving can (i + 1)) sh
  | serveEnd {can : Can} {i : ℕ} : ncustomers ≤ i →
      ShopAct colours ordered sh (.serving can i) (.noDeliverySlot can) (.serveUnlock can) sh

/-- The shop's threads. -/
def paintshop [NeZero ncolours] (colours : Can → PaintCan ncolours) (ncustomers nstaff : ℕ) :
    SemProgram (ShopThread ncustomers nstaff) (ShopSem ncolours) (Shop Can ncustomers) (ShopPc Can ncolours)
      (ShopEvent Can) where
  op := shopOp
  act := fun pcs sh t e next sh' => ShopAct colours { can | ∃ u, (pcs u).orders = some can } sh (pcs t) e next sh'

/-- A state of the shop. -/
abbrev ShopState (Can : Type) (ncustomers nstaff ncolours : ℕ) :=
  SemState (ShopThread ncustomers nstaff) (ShopSem ncolours) (Shop Can ncustomers) (ShopPc Can ncolours)

/-- The counts of `init_semaphore`. -/
def shopCount (ncustomers : ℕ) : ShopSem ncolours → UInt32
  | .readyCans | .orderBufferFull => 0
  | .deliveryBufferEmpty | .orderBufferEmpty => UInt32.ofNat ncustomers
  | _ => 1

/-- `paintshop_open`. -/
def paintshopOpen (Can : Type) (ncustomers nstaff ncolours : ℕ) : ShopState Can ncustomers nstaff ncolours where
  sem := fun x => semCreate _ (shopCount ncustomers x)
  shared := ⟨fun _ => none, fun _ => none, ncustomers⟩
  pc := Sum.elim (fun _ => .shopping) fun _ => .idle

end Os161
