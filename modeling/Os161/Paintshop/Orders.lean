/-
# Slots and places

Every run of the shop: a placement always finds a free slot (`slot_run`), and
a can that a customer is ordering is in one place (`onePlace_run`).

The slots a scan has passed stay as they were while the scanning thread has
the buffer's mutex, and so does `remaining_customers` between its read and its
write: these are assertions at positions (`ShopPc.seen`), and no thread can
interfere with another one's because of the mutexes.
-/
import Os161.Paintshop.Laws

namespace Os161

variable {Can : Type} [DecidableEq Can] {ncustomers nstaff ncolours : ℕ} [NeZero ncolours]
  {colours : Can → PaintCan ncolours}

/-- A run of the shop, from its opening. -/
abbrev ShopRun (colours : Can → PaintCan ncolours) (evs : List (SemLabel (ShopThread ncustomers nstaff) (ShopEvent Can)))
    (s : ShopState Can ncustomers nstaff ncolours) : Prop :=
  Run (paintshop colours ncustomers nstaff).Step (paintshopOpen Can ncustomers nstaff ncolours) evs s

section Run

variable {evs : List (SemLabel (ShopThread ncustomers nstaff) (ShopEvent Can))}
  {s : ShopState Can ncustomers nstaff ncolours}

omit [DecidableEq Can] in
theorem shopInv_open : (paintshop colours ncustomers nstaff).Inv (paintshopOpen Can ncustomers nstaff ncolours) :=
  SemProgram.inv_init fun _ => rfl

omit [DecidableEq Can] in
theorem shopInv_run (h : ShopRun colours evs s) : (paintshop colours ncustomers nstaff).Inv s :=
  Run.invariant shopInv_open (fun _ _ _ h hst => hst.inv h) h

/-- **The laws along a run.** -/
theorem shopLaw_run (h : ShopRun colours evs s) {a : ShopAccount Can} (ha : a ≠ .customers) :
    (shopLaw ncustomers nstaff ncolours a).value s =
      (shopLaw ncustomers nstaff ncolours a).value (paintshopOpen Can ncustomers nstaff ncolours) +
        (evs.map (shopLaw ncustomers nstaff ncolours a).label).sum :=
  (shopLaw_kept a colours (I := fun _ => True) fun h => absurd h ha).run shopInv_open (fun _ _ _ => trivial) h

omit [DecidableEq Can] [NeZero ncolours] in
/-- What neither a new customer nor new staff has. -/
theorem total_open {w : ShopPc Can ncolours → ℕ} (hcustomer : w .shopping = 0) (hstaff : w .idle = 0) :
    Census.total w (paintshopOpen Can ncustomers nstaff ncolours).pc = 0 := by
  refine Census.total_of_forall_zero fun t => ?_
  cases t with
  | inl _ => exact hcustomer
  | inr _ => exact hstaff

omit [DecidableEq Can] in
/-- A mutex has at most one thread in it. -/
theorem mutex_run (h : ShopRun colours evs s) {x : ShopSem ncolours} {w : ShopPc Can ncolours → ℕ}
    (hlaw : (Law.count x w (fun _ => 0) fun _ _ => 0).Kept (paintshop colours ncustomers nstaff) fun _ => True)
    (hcustomer : w .shopping = 0) (hstaff : w .idle = 0) (hone : shopCount ncustomers x = 1) :
    (s.sem x).semCount.toNat + Census.total w s.pc = 1 := by
  have hrun := hlaw.count_run shopInv_open (fun _ _ _ => trivial) h
  rw [total_open hcustomer hstaff] at hrun
  simpa [paintshopOpen, semCreate, hone] using hrun

theorem orderMutex_run (h : ShopRun colours evs s) :
    (s.sem .orderMutex).semCount.toNat + Census.total ShopPc.inOrders s.pc = 1 :=
  mutex_run h (shopLaw_kept .orderMutex colours fun h => by cases h) rfl rfl rfl

theorem deliveryMutex_run (h : ShopRun colours evs s) :
    (s.sem .deliveryMutex).semCount.toNat + Census.total ShopPc.inDeliveries s.pc = 1 :=
  mutex_run h (shopLaw_kept .deliveryMutex colours fun h => by cases h) rfl rfl rfl

theorem remainingMutex_run (h : ShopRun colours evs s) :
    (s.sem .remainingCustomersMutex).semCount.toNat + Census.total ShopPc.inRemaining s.pc = 1 :=
  mutex_run h (shopLaw_kept .remainingMutex colours fun h => by cases h) rfl rfl rfl

end Run

/-! ### What a thread has seen -/

/-- What a thread knows of the shared data where it is: the slots it has
passed have a can, the customers are as many as it read. -/
def ShopPc.seen : ShopPc Can ncolours → Shop Can ncustomers → Prop
  | .placing _ i, sh => ∀ j : Fin ncustomers, j.val < i → sh.orderBuffer j ≠ none
  | .serving _ i, sh => ∀ j : Fin ncustomers, j.val < i → sh.deliveryBuffer j ≠ none
  | .homeWrite v, sh => v = sh.remainingCustomers
  | _, _ => True

section Seen

variable {ordered : Set Can} {sh sh' : Shop Can ncustomers} {pc next : ShopPc Can ncolours} {e : ShopEvent Can}

omit [DecidableEq Can] in
theorem shopOp_seen (op : SemOp (ShopSem ncolours) (ShopPc Can ncolours)) (hop : shopOp pc = some op) :
    op.next.seen sh := by
  cases pc
  case orderLock can => cases hop; exact fun j hj => absurd hj (Nat.not_lt_zero _)
  case serveLock can => cases hop; exact fun j hj => absurd hj (Nat.not_lt_zero _)
  case filling can pc =>
    obtain ⟨op', -, rfl⟩ := Option.map_eq_some_iff.mp hop
    cases op' <;> exact trivial
  case readyPost can found => cases hop; cases found <;> exact trivial
  case fullRepost can => cases hop; cases can <;> exact trivial
  all_goals cases hop <;> exact trivial

omit [NeZero ncolours] [DecidableEq Can] in
/-- One more slot with a can. -/
theorem forall_lt_succ {buffer : Fin ncustomers → Option Can} {i : Fin ncustomers}
    (h : ∀ j : Fin ncustomers, j.val < i → buffer j ≠ none) (hi : buffer i ≠ none) (j : Fin ncustomers)
    (hj : j.val < i.val + 1) : buffer j ≠ none := by
  rcases Nat.lt_succ_iff_lt_or_eq.mp hj with hlt | heq
  · exact h j hlt
  · rwa [Fin.ext heq]

omit [DecidableEq Can] in
/-- A step of the code leads from what the thread has seen to the next. -/
theorem ShopAct.seen_next (hact : ShopAct colours ordered sh pc e next sh') (h : pc.seen sh) : next.seen sh' := by
  cases hact with
  | placeNext hi => exact forall_lt_succ h hi
  | serveNext hi => exact forall_lt_succ h hi
  | readRemaining => exact rfl
  | _ => exact trivial

omit [NeZero ncolours] [DecidableEq Can] in
theorem put_ne_none {buffer : Fin ncustomers → Option Can} {i j : Fin ncustomers} {can : Can} (h : buffer j ≠ none) :
    Function.update buffer i (some can) j ≠ none := by
  by_cases hj : j = i
  · rw [hj, Function.update_self]
    exact Option.some_ne_none can
  · rwa [Function.update_of_ne hj]

omit [DecidableEq Can] in
/-- **No interference**: a step leaves what a thread has seen that is not
under the same mutex. -/
theorem ShopAct.seen_other (hact : ShopAct colours ordered sh pc e next sh') {q : ShopPc Can ncolours} (h : q.seen sh)
    (horders : pc.inOrders + q.inOrders ≤ 1) (hdeliveries : pc.inDeliveries + q.inDeliveries ≤ 1)
    (hremaining : pc.inRemaining + q.inRemaining ≤ 1) : q.seen sh' := by
  cases q with
  | placing can i =>
    cases hact with
    | place _ => exact fun j hj => put_ne_none (h j hj)
    | take _ => exact absurd horders (by simp [ShopPc.inOrders])
    | _ => exact h
  | serving can i =>
    cases hact with
    | serve _ => exact fun j hj => put_ne_none (h j hj)
    | find _ => exact absurd hdeliveries (by simp [ShopPc.inDeliveries])
    | _ => exact h
  | homeWrite v =>
    cases hact with
    | writeRemaining => exact absurd hremaining (by simp [ShopPc.inRemaining])
    | _ => exact h
  | _ => exact trivial

end Seen

/-- What the threads have seen is so, along every run. -/
theorem seen_run {evs : List (SemLabel (ShopThread ncustomers nstaff) (ShopEvent Can))}
    {s : ShopState Can ncustomers nstaff ncolours} (h : ShopRun colours evs s) (t : ShopThread ncustomers nstaff) :
    (s.pc t).seen s.shared := by
  revert t
  induction h with
  | nil =>
    intro t
    cases t <;> exact trivial
  | snoc a h hst ih =>
    refine hst.assertions (A := fun _ => ShopPc.seen) (fun _ _ x next _ _ hop => shopOp_seen (.p x next) hop)
      (fun _ _ x next _ _ hop => shopOp_seen (.v x next) hop) (fun _ _ _ _ hself hact => ShopAct.seen_next hact hself)
      (fun t u _ _ _ htu hu hact => ?_) ih
    exact ShopAct.seen_other hact hu (Census.add_le_one (orderMutex_run h) htu)
      (Census.add_le_one (deliveryMutex_run h) htu) (Census.add_le_one (remainingMutex_run h) htu)

/-! ### Free slots -/

section Slots

variable {evs : List (SemLabel (ShopThread ncustomers nstaff) (ShopEvent Can))}
  {s : ShopState Can ncustomers nstaff ncolours}

omit [DecidableEq Can] [NeZero ncolours] in
theorem numCans_full {buffer : Fin ncustomers → Option Can} (h : ∀ j, buffer j ≠ none) : numCans buffer = ncustomers := by
  have hone : ∀ j, (if (buffer j).isSome then 1 else 0) = 1 := fun j => if_pos (Option.isSome_iff_ne_none.mpr (h j))
  simp [numCans, Census.total, hone]

omit [DecidableEq Can] in
/-- A law of free slots: the slots with threads and the cans are not more than
the customers. -/
theorem slots_run (h : ShopRun colours evs s) {x : ShopSem ncolours} {w : ShopPc Can ncolours → ℕ}
    {k : Shop Can ncustomers → ℕ} {g : ShopThread ncustomers nstaff → ShopEvent Can → ℤ}
    (hlaw : (Law.count x w k g).Kept (paintshop colours ncustomers nstaff) fun _ => True) (hg : ∀ t e, g t e ≤ 0)
    (hcustomer : w .shopping = 0) (hstaff : w .idle = 0) (hx : shopCount ncustomers x = UInt32.ofNat ncustomers)
    (hk : k (paintshopOpen Can ncustomers nstaff ncolours).shared = 0) :
    Census.total w s.pc + k s.shared ≤ ncustomers := by
  have hrun := hlaw.run_le hg shopInv_open (fun _ _ _ => trivial) h
  rw [Law.value_count, Law.value_count, total_open hcustomer hstaff, hk] at hrun
  have hinit : ((paintshopOpen Can ncustomers nstaff ncolours).sem x).semCount.toNat ≤ ncustomers := by
    show (shopCount ncustomers x).toNat ≤ ncustomers
    rw [hx]
    exact Nat.mod_le _ _
  omega

theorem orderSlots_run (h : ShopRun colours evs s) :
    Census.total ShopPc.orderSlot s.pc + numCans s.shared.orderBuffer ≤ ncustomers := by
  refine slots_run h (k := fun sh => numCans sh.orderBuffer) (shopLaw_kept .orderSlots colours fun h => by cases h)
    (fun _ e => ?_) rfl rfl rfl (Census.total_of_forall_zero fun _ => rfl)
  cases e <;> simp

theorem deliverySlots_run (h : ShopRun colours evs s) :
    Census.total ShopPc.deliverySlot s.pc + numCans s.shared.deliveryBuffer ≤ ncustomers := by
  refine slots_run h (k := fun sh => numCans sh.deliveryBuffer) (shopLaw_kept .deliverySlots colours fun h => by cases h)
    (fun _ e => ?_) rfl rfl rfl (Census.total_of_forall_zero fun _ => rfl)
  cases e <;> simp

omit [DecidableEq Can] in
/-- A scan for a free slot does not come to the end of the buffer. -/
theorem ShopAct.finds_slot {ordered : Set Can} {sh sh' : Shop Can ncustomers} {pc next : ShopPc Can ncolours}
    {e : ShopEvent Can} (hact : ShopAct colours ordered sh pc e next sh') (hseen : pc.seen sh)
    (horder : pc.orderSlot + numCans sh.orderBuffer ≤ ncustomers)
    (hdelivery : pc.deliverySlot + numCans sh.deliveryBuffer ≤ ncustomers) (can : Can) :
    e ≠ .noOrderSlot can ∧ e ≠ .noDeliverySlot can := by
  refine ⟨fun he => ?_, fun he => ?_⟩
  · subst he
    cases hact with
    | placeEnd hi =>
      rw [numCans_full fun j => hseen j (by omega)] at horder
      exact absurd horder (by simp [ShopPc.orderSlot])
  · subst he
    cases hact with
    | serveEnd hi =>
      rw [numCans_full fun j => hseen j (by omega)] at hdelivery
      exact absurd hdelivery (by simp [ShopPc.deliverySlot])

/-- **Every placement finds a free slot.** -/
theorem slot_run (h : ShopRun colours evs s) (t : ShopThread ncustomers nstaff) (can : Can) :
    .act t (.noOrderSlot can) ∉ evs ∧ .act t (.noDeliverySlot can) ∉ evs := by
  induction h with
  | nil => exact ⟨List.not_mem_nil, List.not_mem_nil⟩
  | @snoc _ s _ a h hst ih =>
    cases hst with
    | p _ _ | sleep _ _ | v _ _ => simpa using ih
    | @act u e next sh _ hact =>
      have horder := Census.le_total (w := ShopPc.orderSlot) (f := s.pc) u
      have hdelivery := Census.le_total (w := ShopPc.deliverySlot) (f := s.pc) u
      have horders := orderSlots_run h
      have hdeliveries := deliverySlots_run h
      have hslot := ShopAct.finds_slot hact (seen_run h u) (by omega) (by omega) can
      simp only [List.mem_append, List.mem_singleton, SemLabel.act.injEq, not_or, not_and]
      exact ⟨⟨ih.1, fun _ he => hslot.1 he.symm⟩, ih.2, fun _ he => hslot.2 he.symm⟩

end Slots

/-! ### A can is in one place -/

section Moves

variable {ordered : Set Can} {sh sh' : Shop Can ncustomers} {x x' : Option (Can × ShopPc.Stage)} {y y' : Option Can}
  {e : ShopEvent Can} {can : Can}

omit [DecidableEq Can] in
/-- A thread begins to order only what nobody orders. -/
theorem Moves.orders_new (h : Moves ordered sh x y e x' y' sh') (hy : y' = some can) : y = some can ∨ can ∉ ordered := by
  subst hy
  cases h with
  | order hnot => exact Or.inr hnot
  | placed _ | noOrderSlot | collected _ | step => exact Or.inl rfl

omit [DecidableEq Can] in
/-- A thread orders its can until it returns. -/
theorem Moves.orders_kept (h : Moves ordered sh x y e x' y' sh') (he : e ≠ .returned can) (hy : y = some can) :
    y' = some can := by
  subst hy
  cases h with
  | placed _ | noOrderSlot | collected _ | step => rfl
  | returned => exact absurd rfl he

omit [DecidableEq Can] in
/-- An event leaves the other cans where they are. -/
theorem Moves.other (h : Moves ordered sh x y e x' y' sh') (he : e.can ≠ some can) :
    (∀ st, x = some (can, st) → x' = some (can, st)) ∧ (y' = some can → y = some can) ∧
      (∀ i, sh.orderBuffer i = some can → sh'.orderBuffer i = some can) ∧
        ∀ i, sh.deliveryBuffer i = some can → sh'.deliveryBuffer i = some can := by
  have hput : ∀ {buffer : Fin ncustomers → Option Can} {i : Fin ncustomers} {c : Can}, buffer i = none → ∀ j,
      buffer j = some can → Function.update buffer i (some c) j = some can := by
    intro buffer i c hi j hj
    have hji : j ≠ i := fun hji => by rw [hji, hi] at hj; cases hj
    rwa [Function.update_of_ne hji]
  have hclear : ∀ {buffer : Fin ncustomers → Option Can} {i : Fin ncustomers} {c : Can}, buffer i = some c → c ≠ can →
      ∀ j, buffer j = some can → Function.update buffer i none j = some can := by
    intro buffer i c hi hc j hj
    have hji : j ≠ i := fun hji => by rw [hji, hi] at hj; injection hj with hj; exact hc hj
    rwa [Function.update_of_ne hji]
  have hne : ∀ {c : Can} {st st' : ShopPc.Stage}, e.can = some c → (some (c, st) : Option (Can × ShopPc.Stage)) ≠ some (can, st') := by
    intro c st st' hc heq
    injection heq with heq
    injection heq with heq
    exact he (heq ▸ hc)
  cases h with
  | order _ => exact ⟨fun _ h => (by cases h), fun h => absurd h he, fun _ => id, fun _ => id⟩
  | placed hi => exact ⟨fun _ h => absurd h (hne rfl), fun h => absurd h he, hput hi, fun _ => id⟩
  | noOrderSlot => exact ⟨fun _ h => absurd h (hne rfl), fun h => absurd h he, fun _ => id, fun _ => id⟩
  | taken hi => exact ⟨fun _ h => (by cases h), id, hclear hi fun h => he (h ▸ rfl), fun _ => id⟩
  | mixed => exact ⟨fun _ h => absurd h (hne rfl), id, fun _ => id, fun _ => id⟩
  | served hi => exact ⟨fun _ h => absurd h (hne rfl), id, fun _ => id, hput hi⟩
  | noDeliverySlot => exact ⟨fun _ h => absurd h (hne rfl), id, fun _ => id, fun _ => id⟩
  | collected hi => exact ⟨fun _ h => (by cases h), id, fun _ => id, hclear hi fun h => he (h ▸ rfl)⟩
  | returned => exact ⟨fun _ h => absurd h (hne rfl), fun h => (by cases h), fun _ => id, fun _ => id⟩
  | step => exact ⟨fun _ => id, id, fun _ => id, fun _ => id⟩

end Moves

section Places

variable {evs : List (SemLabel (ShopThread ncustomers nstaff) (ShopEvent Can))}
  {s s' : ShopState Can ncustomers nstaff ncolours} {a : SemLabel (ShopThread ncustomers nstaff) (ShopEvent Can)}

omit [DecidableEq Can] in
/-- What a step of the shop does with the cans. -/
theorem shopStep_moves (hst : (paintshop colours ncustomers nstaff).Step s a s') :
    (∃ t, a = .sem t ∧ s'.shared = s.shared ∧
      ∀ u, (s'.pc u).carries = (s.pc u).carries ∧ (s'.pc u).orders = (s.pc u).orders) ∨
    ∃ t e, a = .act t e ∧ (∀ u, u ≠ t → s'.pc u = s.pc u) ∧
      Moves { can | ∃ u, (s.pc u).orders = some can } s.shared (s.pc t).carries (s.pc t).orders e (s'.pc t).carries
        (s'.pc t).orders s'.shared := by
  have hcall : ∀ {t} op, shopOp (s.pc t) = some op → ∀ u,
      (Function.update s.pc t op.next u).carries = (s.pc u).carries ∧
        (Function.update s.pc t op.next u).orders = (s.pc u).orders := by
    intro t op hop u
    by_cases hut : u = t
    · rw [hut, Function.update_self]
      exact shopOp_carries hop
    · rw [Function.update_of_ne hut]
      exact ⟨rfl, rfl⟩
  cases hst with
  | @p t x next m hop _ => exact Or.inl ⟨t, rfl, rfl, hcall (.p x next) hop⟩
  | @sleep t x next m _ _ => exact Or.inl ⟨t, rfl, rfl, fun _ => ⟨rfl, rfl⟩⟩
  | @v t x next m hop _ => exact Or.inl ⟨t, rfl, rfl, hcall (.v x next) hop⟩
  | @act t e next sh _ hact =>
    refine Or.inr ⟨t, e, rfl, fun u hu => Function.update_of_ne hu _ _, ?_⟩
    show Moves _ _ _ _ _ (Function.update s.pc t next t).carries (Function.update s.pc t next t).orders _
    rw [Function.update_self]
    exact ShopAct.moves hact

omit [DecidableEq Can] in
/-- No two customers order one can. -/
theorem orders_inj_run (h : ShopRun colours evs s) {can : Can} {t u : ShopThread ncustomers nstaff}
    (ht : (s.pc t).orders = some can) (hu : (s.pc u).orders = some can) : t = u := by
  induction h generalizing t u with
  | nil => cases t <;> cases ht
  | @snoc _ s s' a h hst ih =>
    rcases shopStep_moves hst with ⟨v, -, -, hsame⟩ | ⟨v, e, -, hothers, hmoves⟩
    · exact ih ((hsame t).2 ▸ ht) ((hsame u).2 ▸ hu)
    · -- a thread that orders the can now did so before, or nobody did
      have hold : ∀ w, (s'.pc w).orders = some can → (s.pc w).orders = some can ∨
          (w = v ∧ ∀ w', (s.pc w').orders ≠ some can) := by
        intro w hw
        by_cases hwv : w = v
        · subst hwv
          rcases hmoves.orders_new hw with hold | hnot
          · exact Or.inl hold
          · exact Or.inr ⟨rfl, fun w' hw' => hnot ⟨w', hw'⟩⟩
        · rw [hothers w hwv] at hw
          exact Or.inl hw
      rcases hold t ht with ht' | ⟨rfl, hno⟩
      · rcases hold u hu with hu' | ⟨-, hno⟩
        · exact ih ht' hu'
        · exact absurd ht' (hno t)
      · rcases hold u hu with hu' | ⟨rfl, -⟩
        · exact absurd hu' (hno u)
        · rfl

/-- **A can is in as many places as there are customers ordering it.** -/
theorem can_run (h : ShopRun colours evs s) (can : Can) :
    Census.total (ShopPc.has can) s.pc + numOf can s.shared.orderBuffer + numOf can s.shared.deliveryBuffer =
      Census.total (ShopPc.wants can) s.pc := by
  have hrun := shopLaw_run h (a := .can can) (fun h => by cases h)
  have hlabels : (evs.map (shopLaw ncustomers nstaff ncolours (.can can)).label).sum = 0 := by
    refine List.sum_eq_zero fun v hv => ?_
    obtain ⟨a, ha, rfl⟩ := List.mem_map.mp hv
    cases a with
    | sem t => rfl
    | act t e =>
      cases e with
      | noOrderSlot c => exact absurd ha (slot_run h t c).1
      | noDeliverySlot c => exact absurd ha (slot_run h t c).2
      | _ => rfl
  have hvalue : ∀ s : ShopState Can ncustomers nstaff ncolours, (shopLaw ncustomers nstaff ncolours (.can can)).value s =
      (Census.total (ShopPc.has can) s.pc : ℤ) - Census.total (ShopPc.wants can) s.pc +
        (numOf can s.shared.orderBuffer + numOf can s.shared.deliveryBuffer) := by
    intro s
    simp [Law.value, shopLaw, Census.total]
  have hempty : numOf can (fun _ : Fin ncustomers => none) = 0 := Census.total_of_forall_zero fun _ => rfl
  rw [hlabels, hvalue, hvalue, total_open rfl rfl, total_open rfl rfl] at hrun
  simp only [paintshopOpen, hempty] at hrun
  omega

/-- Where the can `can` is: nowhere or, while one customer orders it, in one
place. -/
structure OnePlace (s : ShopState Can ncustomers nstaff ncolours) (can : Can) : Prop where
  orders : ∀ t u, (s.pc t).orders = some can → (s.pc u).orders = some can → t = u
  places : Census.total (ShopPc.has can) s.pc + numOf can s.shared.orderBuffer + numOf can s.shared.deliveryBuffer =
    Census.total (ShopPc.wants can) s.pc

theorem onePlace_run (h : ShopRun colours evs s) (can : Can) : OnePlace s can :=
  ⟨fun _ _ => orders_inj_run h, can_run h can⟩

namespace OnePlace

variable {can : Can} {t u : ShopThread ncustomers nstaff} {x y : ShopPc.Stage} {i j : Fin ncustomers}

omit [NeZero ncolours] in
theorem wants_le (h : OnePlace s can) : Census.total (ShopPc.wants can) s.pc ≤ 1 := by
  refine Census.total_le_one (fun t => ?_) fun t u ht hu => h.orders t u ?_ ?_
  · unfold ShopPc.wants
    split_ifs <;> omega
  · exact not_not.mp fun hne => ht (if_neg hne)
  · exact not_not.mp fun hne => hu (if_neg hne)

omit [NeZero ncolours] in
theorem has_eq_one (hx : (s.pc t).carries = some (can, x)) : (s.pc t).has can = 1 := by
  rw [ShopPc.has, hx]
  exact if_pos rfl

omit [NeZero ncolours] in
theorem one_le_numOf {buffer : Fin ncustomers → Option Can} (h : buffer i = some can) : 1 ≤ numOf can buffer := by
  have hle := Census.le_total (w := fun o : Option Can => if o = some can then 1 else 0) (f := buffer) i
  simpa [numOf, h] using hle

omit [NeZero ncolours] in
theorem carried (h : OnePlace s can) (ht : (s.pc t).carries = some (can, x)) (hu : (s.pc u).carries = some (can, y)) :
    t = u ∧ x = y := by
  have htu : t = u := by
    by_contra hne
    have hle := Census.add_le_total (w := ShopPc.has can) (f := s.pc) hne
    rw [has_eq_one ht, has_eq_one hu] at hle
    have hplaces := h.places
    have hwants := h.wants_le
    omega
  subst htu
  rw [ht] at hu
  injection hu with hu
  injection hu with _ hu
  exact ⟨rfl, hu⟩

omit [NeZero ncolours] in
theorem not_order_of_carried (h : OnePlace s can) (ht : (s.pc t).carries = some (can, x)) :
    s.shared.orderBuffer i ≠ some can := by
  intro hi
  have hle := Census.le_total (w := ShopPc.has can) (f := s.pc) t
  rw [has_eq_one ht] at hle
  have hnum := one_le_numOf hi
  have hplaces := h.places
  have hwants := h.wants_le
  omega

omit [NeZero ncolours] in
theorem not_delivery_of_carried (h : OnePlace s can) (ht : (s.pc t).carries = some (can, x)) :
    s.shared.deliveryBuffer i ≠ some can := by
  intro hi
  have hle := Census.le_total (w := ShopPc.has can) (f := s.pc) t
  rw [has_eq_one ht] at hle
  have hnum := one_le_numOf hi
  have hplaces := h.places
  have hwants := h.wants_le
  omega

omit [NeZero ncolours] in
theorem not_both_buffers (h : OnePlace s can) (hi : s.shared.orderBuffer i = some can) :
    s.shared.deliveryBuffer j ≠ some can := by
  intro hj
  have hnum := one_le_numOf hi
  have hnum' := one_le_numOf hj
  have hplaces := h.places
  have hwants := h.wants_le
  omega

omit [NeZero ncolours] in
/-- What nobody orders is nowhere. -/
theorem nowhere (h : OnePlace s can) (hno : ∀ t, (s.pc t).orders ≠ some can) :
    (∀ t x, (s.pc t).carries ≠ some (can, x)) ∧ (∀ i, s.shared.orderBuffer i ≠ some can) ∧
      ∀ i, s.shared.deliveryBuffer i ≠ some can := by
  have hzero : Census.total (ShopPc.wants can) s.pc = 0 := Census.total_of_forall_zero fun t => if_neg (hno t)
  have hplaces := h.places
  refine ⟨fun t x ht => ?_, fun i hi => ?_, fun i hi => ?_⟩
  · have hle := Census.le_total (w := ShopPc.has can) (f := s.pc) t
    rw [has_eq_one ht] at hle
    omega
  · have hnum := one_le_numOf hi
    omega
  · have hnum := one_le_numOf hi
    omega

end OnePlace

end Places

end Os161
