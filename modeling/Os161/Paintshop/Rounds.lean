/-
# Orders are conserved

The life of a can, as its customer and the staff see it (`CanStep`): it is
ordered, placed, taken, mixed and served by one staff thread, collected, and
`order_paint` returns. The events of a run of the shop that are about one can
are a run of this life (`life_run`), so they come in whole rounds and the
beginning of one more (`rounds_run`).
-/
import Os161.Paintshop.Orders

namespace Os161

variable {Can : Type} [DecidableEq Can] {ncustomers nstaff ncolours : ℕ} [NeZero ncolours]
  {colours : Can → PaintCan ncolours}

/-! ### The life of a can -/

/-- How far the order of a can is: its customer `t`, the staff thread `u`. -/
inductive CanState (T : Type)
  | home
  | wanted (t : T)
  | ordered (t : T)
  | taken (t u : T)
  | mixed (t u : T)
  | served (t u : T)
  | collected (t u : T)

/-- The events of an order, in their order. -/
inductive CanStep {T : Type} (can : Can) : CanState T → SemLabel T (ShopEvent Can) → CanState T → Prop
  | order (t : T) : CanStep can .home (.act t (.order can)) (.wanted t)
  | placed (t : T) : CanStep can (.wanted t) (.act t (.placed can)) (.ordered t)
  | taken (t u : T) : CanStep can (.ordered t) (.act u (.taken can)) (.taken t u)
  | mixed (t u : T) : CanStep can (.taken t u) (.act u (.mixed can)) (.mixed t u)
  | served (t u : T) : CanStep can (.mixed t u) (.act u (.served can)) (.served t u)
  | collected (t u : T) : CanStep can (.served t u) (.act t (.collected can)) (.collected t u)
  | returned (t u : T) : CanStep can (.collected t u) (.act t (.returned can)) .home

/-- The events of the current order. -/
def CanState.sofar {T : Type} (can : Can) : CanState T → List (SemLabel T (ShopEvent Can))
  | .home => []
  | .wanted t => [.act t (.order can)]
  | .ordered t => [.act t (.order can), .act t (.placed can)]
  | .taken t u => [.act t (.order can), .act t (.placed can), .act u (.taken can)]
  | .mixed t u => [.act t (.order can), .act t (.placed can), .act u (.taken can), .act u (.mixed can)]
  | .served t u => [.act t (.order can), .act t (.placed can), .act u (.taken can), .act u (.mixed can),
      .act u (.served can)]
  | .collected t u => [.act t (.order can), .act t (.placed can), .act u (.taken can), .act u (.mixed can),
      .act u (.served can), .act t (.collected can)]

/-- The events of a whole order by the customer `t`, filled by `u`. -/
def round {T : Type} (can : Can) (tu : T × T) : List (SemLabel T (ShopEvent Can)) :=
  [.act tu.1 (.order can), .act tu.1 (.placed can), .act tu.2 (.taken can), .act tu.2 (.mixed can),
    .act tu.2 (.served can), .act tu.1 (.collected can), .act tu.1 (.returned can)]

omit [DecidableEq Can] in
/-- A can's life is whole rounds and the beginning of one. -/
theorem canStep_rounds {T : Type} {can : Can} {log : List (SemLabel T (ShopEvent Can))} {st : CanState T}
    (h : Run (CanStep can) .home log st) : ∃ rounds : List (T × T), log = rounds.flatMap (round can) ++ st.sofar can := by
  induction h with
  | nil => exact ⟨[], rfl⟩
  | snoc a _ hst ih =>
    obtain ⟨rounds, hlog⟩ := ih
    rw [hlog]
    cases hst with
    | returned t u => exact ⟨rounds ++ [(t, u)], by simp [CanState.sofar, round]⟩
    | _ => exact ⟨rounds, by simp [CanState.sofar]⟩

/-! ### The shop leads cans through their lives -/

section Life

variable {s s' : ShopState Can ncustomers nstaff ncolours} {can : Can} {t u : ShopThread ncustomers nstaff}
  {st : CanState (ShopThread ncustomers nstaff)}

/-- Where the can is in the shop. -/
def CanState.At (s : ShopState Can ncustomers nstaff ncolours) (can : Can) :
    CanState (ShopThread ncustomers nstaff) → Prop
  | .home => ∀ t, (s.pc t).orders ≠ some can
  | .wanted t => (s.pc t).orders = some can ∧ (s.pc t).carries = some (can, .wanted)
  | .ordered t => (s.pc t).orders = some can ∧ ∃ i, s.shared.orderBuffer i = some can
  | .taken t u => (s.pc t).orders = some can ∧ (s.pc u).carries = some (can, .unmixed)
  | .mixed t u => (s.pc t).orders = some can ∧ (s.pc u).carries = some (can, .mixed)
  | .served t _ => (s.pc t).orders = some can ∧ ∃ i, s.shared.deliveryBuffer i = some can
  | .collected t _ => (s.pc t).orders = some can ∧ (s.pc t).carries = some (can, .collected)

omit [NeZero ncolours] in
/-- A can in a thread's hands. -/
theorem CanState.At.of_carried (h : st.At s can) (hone : OnePlace s can) {x : ShopPc.Stage}
    (hx : (s.pc u).carries = some (can, x)) :
    match x with
    | .wanted => st = .wanted u
    | .unmixed => ∃ t, st = .taken t u
    | .mixed => ∃ t, st = .mixed t u
    | .collected => ∃ v, st = .collected u v := by
  cases st with
  | home => exact absurd hx ((hone.nowhere h).1 u x)
  | wanted t =>
    obtain ⟨rfl, rfl⟩ := hone.carried h.2 hx
    exact rfl
  | ordered t =>
    obtain ⟨-, i, hi⟩ := h
    exact absurd hi (hone.not_order_of_carried hx)
  | taken t v =>
    obtain ⟨rfl, rfl⟩ := hone.carried h.2 hx
    exact ⟨t, rfl⟩
  | mixed t v =>
    obtain ⟨rfl, rfl⟩ := hone.carried h.2 hx
    exact ⟨t, rfl⟩
  | served t v =>
    obtain ⟨-, i, hi⟩ := h
    exact absurd hi (hone.not_delivery_of_carried hx)
  | collected t v =>
    obtain ⟨rfl, rfl⟩ := hone.carried h.2 hx
    exact ⟨v, rfl⟩

omit [NeZero ncolours] in
/-- A can in `order_buffer`. -/
theorem CanState.At.of_order (h : st.At s can) (hone : OnePlace s can) {i : Fin ncustomers}
    (hi : s.shared.orderBuffer i = some can) : ∃ t, st = .ordered t := by
  cases st with
  | home => exact absurd hi ((hone.nowhere h).2.1 i)
  | ordered t => exact ⟨t, rfl⟩
  | wanted t => exact absurd hi (hone.not_order_of_carried h.2)
  | taken t v => exact absurd hi (hone.not_order_of_carried h.2)
  | mixed t v => exact absurd hi (hone.not_order_of_carried h.2)
  | collected t v => exact absurd hi (hone.not_order_of_carried h.2)
  | served t v =>
    obtain ⟨-, j, hj⟩ := h
    exact absurd hj (hone.not_both_buffers hi)

omit [NeZero ncolours] in
/-- A can in `delivery_buffer`. -/
theorem CanState.At.of_delivery (h : st.At s can) (hone : OnePlace s can) {i : Fin ncustomers}
    (hi : s.shared.deliveryBuffer i = some can) : ∃ t u, st = .served t u := by
  cases st with
  | home => exact absurd hi ((hone.nowhere h).2.2 i)
  | served t u => exact ⟨t, u, rfl⟩
  | wanted t => exact absurd hi (hone.not_delivery_of_carried h.2)
  | taken t v => exact absurd hi (hone.not_delivery_of_carried h.2)
  | mixed t v => exact absurd hi (hone.not_delivery_of_carried h.2)
  | collected t v => exact absurd hi (hone.not_delivery_of_carried h.2)
  | ordered t =>
    obtain ⟨-, j, hj⟩ := h
    exact absurd hi (hone.not_both_buffers hj)

variable {e : ShopEvent Can} (hothers : ∀ u, u ≠ t → s'.pc u = s.pc u)
  (hmoves : Moves { can | ∃ u, (s.pc u).orders = some can } s.shared (s.pc t).carries (s.pc t).orders e (s'.pc t).carries
    (s'.pc t).orders s'.shared)

include hothers hmoves

omit [DecidableEq Can] [NeZero ncolours] in
theorem orders_kept (he : e ≠ .returned can) (hu : (s.pc u).orders = some can) : (s'.pc u).orders = some can := by
  by_cases hut : u = t
  · subst hut
    exact hmoves.orders_kept he hu
  · rwa [hothers u hut]

omit [DecidableEq Can] [NeZero ncolours] in
/-- An event about another can. -/
theorem CanState.At.other (h : st.At s can) (he : e.can ≠ some can) : st.At s' can := by
  obtain ⟨hcarries, horders, horder, hdelivery⟩ := hmoves.other he
  have hkept : ∀ {v}, (s.pc v).orders = some can → (s'.pc v).orders = some can :=
    orders_kept hothers hmoves fun hret => he (hret ▸ rfl)
  have hcarried : ∀ {v x}, (s.pc v).carries = some (can, x) → (s'.pc v).carries = some (can, x) := by
    intro v x hv
    by_cases hvt : v = t
    · subst hvt
      exact hcarries x hv
    · rwa [hothers v hvt]
  cases st with
  | home =>
    intro v hv
    by_cases hvt : v = t
    · subst hvt
      exact h v (horders hv)
    · rw [hothers v hvt] at hv
      exact h v hv
  | wanted v => exact ⟨hkept h.1, hcarried h.2⟩
  | ordered v => exact ⟨hkept h.1, h.2.choose, horder _ h.2.choose_spec⟩
  | taken v w => exact ⟨hkept h.1, hcarried h.2⟩
  | mixed v w => exact ⟨hkept h.1, hcarried h.2⟩
  | served v w => exact ⟨hkept h.1, h.2.choose, hdelivery _ h.2.choose_spec⟩
  | collected v w => exact ⟨hkept h.1, hcarried h.2⟩

omit [NeZero ncolours] in
/-- **An event about the can** is the next one of its life. -/
theorem CanState.At.event (h : st.At s can) (hone : OnePlace s can) (he : e.can = some can)
    (hslot : e ≠ .noOrderSlot can ∧ e ≠ .noDeliverySlot can) : ∃ st', CanStep can st (.act t e) st' ∧ st'.At s' can := by
  have hkept : e ≠ .returned can → ∀ {v}, (s.pc v).orders = some can → (s'.pc v).orders = some can :=
    fun hret => orders_kept hothers hmoves hret
  generalize hx : (s.pc t).carries = x at hmoves
  generalize hy : (s.pc t).orders = y at hmoves
  generalize hx' : (s'.pc t).carries = x' at hmoves
  generalize hy' : (s'.pc t).orders = y' at hmoves
  generalize hsh : s'.shared = sh' at hmoves
  cases hmoves with
  | order hnot =>
    injection he with he
    subst he
    have hhome : st = .home := by
      cases st with
      | home => rfl
      | _ => exact absurd ⟨_, h.1⟩ hnot
    subst hhome
    exact ⟨_, .order t, hy', hx'⟩
  | placed _ =>
    injection he with he
    subst he
    obtain rfl := h.of_carried hone hx
    exact ⟨_, .placed t, hy', _, by rw [hsh]; exact Function.update_self _ _ _⟩
  | noOrderSlot =>
    injection he with he
    exact absurd (he ▸ rfl) hslot.1
  | taken hi =>
    injection he with he
    subst he
    obtain ⟨v, rfl⟩ := h.of_order hone hi
    exact ⟨_, .taken v t, hkept (fun h => by cases h) h.1, hx'⟩
  | mixed =>
    injection he with he
    subst he
    obtain ⟨v, rfl⟩ := h.of_carried hone hx
    exact ⟨_, .mixed v t, hkept (fun h => by cases h) h.1, hx'⟩
  | served _ =>
    injection he with he
    subst he
    obtain ⟨v, rfl⟩ := h.of_carried hone hx
    exact ⟨_, .served v t, hkept (fun h => by cases h) h.1, _, by rw [hsh]; exact Function.update_self _ _ _⟩
  | noDeliverySlot =>
    injection he with he
    exact absurd (he ▸ rfl) hslot.2
  | collected hi =>
    injection he with he
    subst he
    obtain ⟨v, w, rfl⟩ := h.of_delivery hone hi
    obtain rfl := hone.orders v t h.1 hy
    exact ⟨_, .collected v w, hy', hx'⟩
  | returned =>
    injection he with he
    subst he
    obtain ⟨v, rfl⟩ := h.of_carried hone hx
    refine ⟨_, .returned t v, fun w hw => ?_⟩
    by_cases hwt : w = t
    · rw [hwt, hy'] at hw
      cases hw
    · rw [hothers w hwt] at hw
      exact hwt (hone.orders w t hw hy)
  | step => cases he

end Life

section Run

variable {evs : List (SemLabel (ShopThread ncustomers nstaff) (ShopEvent Can))}
  {s s' : ShopState Can ncustomers nstaff ncolours} {a : SemLabel (ShopThread ncustomers nstaff) (ShopEvent Can)}

/-- The step is an event about the can. -/
def SemLabel.about {T : Type} (can : Can) : SemLabel T (ShopEvent Can) → Bool
  | .sem _ => false
  | .act _ e => e.can = some can

/-- **The events about a can are a run of its life.** -/
theorem life_run (h : ShopRun colours evs s) (can : Can) :
    ∃ st, Run (CanStep can) .home (evs.filter (SemLabel.about can)) st ∧ st.At s can := by
  induction h with
  | nil => exact ⟨.home, Run.nil, fun t ht => by cases t <;> cases ht⟩
  | @snoc _ s s' a h hst ih =>
    obtain ⟨st, hlife, hat⟩ := ih
    have hslot := slot_run (Run.snoc a h hst)
    rw [List.filter_append]
    rcases shopStep_moves hst with ⟨t, rfl, hshared, hsame⟩ | ⟨t, e, rfl, hothers, hmoves⟩
    · rw [List.filter_cons_of_neg (by simp [SemLabel.about]), List.filter_nil, List.append_nil]
      refine ⟨st, hlife, ?_⟩
      cases st <;> simpa only [CanState.At, hshared, (hsame _).1, (hsame _).2] using hat
    · by_cases he : e.can = some can
      · rw [List.filter_cons_of_pos (by simp [SemLabel.about, he]), List.filter_nil]
        obtain ⟨st', hstep, hat'⟩ := hat.event hothers hmoves (onePlace_run h can) he
          ⟨fun h => (hslot t can).1 (by simp [h]), fun h => (hslot t can).2 (by simp [h])⟩
        exact ⟨st', Run.snoc _ hlife hstep, hat'⟩
      · rw [List.filter_cons_of_neg (by simp [SemLabel.about, he]), List.filter_nil, List.append_nil]
        exact ⟨st, hlife, hat.other hothers hmoves he⟩

/-! ### The staff leaves -/

/-- The customers who are still there are counted. -/
theorem customers_run (h : ShopRun colours evs s) :
    s.shared.remainingCustomers = Census.total ShopPc.present s.pc := by
  have hkept := shopLaw_kept (.customers : ShopAccount Can) colours
    (I := fun s : ShopState Can ncustomers nstaff ncolours => ∀ t, (s.pc t).seen s.shared)
    fun _ s hs t v hv => by
      have hseen := hs t
      rwa [hv] at hseen
  have hrun := hkept.run shopInv_open (fun _ _ => seen_run) h
  have hvalue : ∀ s : ShopState Can ncustomers nstaff ncolours, (shopLaw ncustomers nstaff ncolours .customers).value s =
      s.shared.remainingCustomers - Census.total ShopPc.present s.pc := by
    intro s
    simp [Law.value, shopLaw, Census.total]
    ring
  have hlabels : (evs.map (shopLaw ncustomers nstaff ncolours .customers).label).sum = 0 := by
    refine List.sum_eq_zero fun v hv => ?_
    obtain ⟨a, -, rfl⟩ := List.mem_map.mp hv
    cases a <;> rfl
  have hopen : Census.total ShopPc.present (paintshopOpen Can ncustomers nstaff ncolours).pc = ncustomers := by
    simp [Census.total, paintshopOpen, ShopPc.present, ShopPc.orders]
  rw [hlabels, hvalue, hvalue, hopen] at hrun
  simp only [paintshopOpen] at hrun
  omega

/-- The thread has seen that no customer is left. -/
def ShopPc.leaves : ShopPc Can ncolours → Prop
  | .exitLock | .exitUnlock | .exiting | .exited => True
  | _ => False

omit [DecidableEq Can] in
theorem shopOp_leaves {pc : ShopPc Can ncolours} (op : SemOp (ShopSem ncolours) (ShopPc Can ncolours))
    (hop : shopOp pc = some op) (h : op.next.leaves) : pc.leaves := by
  cases pc
  case exitLock => exact trivial
  case exitUnlock => exact trivial
  case filling can pc =>
    obtain ⟨op', -, rfl⟩ := Option.map_eq_some_iff.mp hop
    cases op' <;> cases h
  case readyPost can found => cases hop; cases found <;> cases h
  case fullRepost can => cases hop; cases can <;> cases h
  all_goals cases hop <;> cases h

omit [DecidableEq Can] in
theorem ShopAct.leaves {ordered : Set Can} {sh sh' : Shop Can ncustomers} {pc next : ShopPc Can ncolours}
    {e : ShopEvent Can} (hact : ShopAct colours ordered sh pc e next sh') (h : next.leaves) :
    pc.leaves ∨ sh.remainingCustomers = 0 := by
  cases hact with
  | noneLeft hzero => exact Or.inr hzero
  | returnNull => exact Or.inl trivial
  | _ => cases h

omit [DecidableEq Can] in
theorem ShopAct.present_zero {ordered : Set Can} {sh sh' : Shop Can ncustomers} {pc next : ShopPc Can ncolours}
    {e : ShopEvent Can} (hact : ShopAct colours ordered sh pc e next sh') (h : pc.present = 0) : next.present = 0 := by
  cases hact <;> first | exact absurd h Nat.one_ne_zero | rfl

theorem shopOp_present {pc : ShopPc Can ncolours} (op : SemOp (ShopSem ncolours) (ShopPc Can ncolours))
    (hop : shopOp pc = some op) : op.next.present = pc.present := by
  have hkept := @shopOp_kept Can 0 0 ncolours _ _ .customers pc op hop
  simp only [shopLaw] at hkept
  omega

/-- Once staff leaves, no customer is there. -/
theorem leaves_run (h : ShopRun colours evs s) {t : ShopThread ncustomers nstaff} (ht : (s.pc t).leaves)
    (u : ShopThread ncustomers nstaff) : (s.pc u).present = 0 := by
  induction h generalizing t u with
  | nil => cases t <;> cases ht
  | @snoc _ s s' a h hst ih =>
    have hback : (∃ v, (s.pc v).leaves) ∨ s.shared.remainingCustomers = 0 := by
      by_contra hno
      rw [not_or, not_exists] at hno
      refine hst.forall_pc (Q := fun pc => ¬ pc.leaves) (fun _ x next hpc hop hl => ?_) (fun _ x next hpc hop hl => ?_)
        (fun _ _ _ _ hpc hact hl => (ShopAct.leaves hact hl).elim hpc hno.2) hno.1 t ht
      · exact hpc (shopOp_leaves (.p x next) hop hl)
      · exact hpc (shopOp_leaves (.v x next) hop hl)
    have hzero : ∀ u, (s.pc u).present = 0 := by
      rcases hback with ⟨v, hleaves⟩ | hnone
      · exact ih hleaves
      · have htotal := customers_run h
        exact Census.total_eq_zero.mp (by omega)
    refine hst.forall_pc (Q := fun pc => pc.present = 0) (fun _ x next hpc hop => ?_) (fun _ x next hpc hop => ?_)
      (fun _ _ _ _ hpc hact => ShopAct.present_zero hact hpc) hzero u
    · exact (shopOp_present (.p x next) hop).trans hpc
    · exact (shopOp_present (.v x next) hop).trans hpc

omit [DecidableEq Can] [NeZero ncolours] in
theorem ShopPc.orders_of_present {pc : ShopPc Can ncolours} (h : pc.present = 0) : pc.orders = none := by
  cases pc <;> first | exact absurd h Nat.one_ne_zero | rfl

/-! ### Who does what -/

/-- A position of a staff thread. -/
def ShopPc.isStaff : ShopPc Can ncolours → Bool
  | .idle | .check | .exitLock | .exitUnlock | .exiting | .exited | .fullWait | .takeLock | .scanning _ | .takeUnlock _
  | .fullRepost _ | .emptyRepost _ | .holding _ | .filling _ _ | .filled _ | .serveWait _ | .serveLock _ | .serving _ _
  | .serveUnlock _ | .servePost => true
  | _ => false

omit [DecidableEq Can] in
theorem shopOp_isStaff {pc : ShopPc Can ncolours} (op : SemOp (ShopSem ncolours) (ShopPc Can ncolours))
    (hop : shopOp pc = some op) : op.next.isStaff = pc.isStaff := by
  cases pc
  case filling can pc =>
    obtain ⟨op', -, rfl⟩ := Option.map_eq_some_iff.mp hop
    cases op' <;> rfl
  case readyPost can found => cases hop; cases found <;> rfl
  case fullRepost can => cases hop; cases can <;> rfl
  all_goals cases hop <;> rfl

omit [DecidableEq Can] in
theorem ShopAct.isStaff {ordered : Set Can} {sh sh' : Shop Can ncustomers} {pc next : ShopPc Can ncolours}
    {e : ShopEvent Can} (hact : ShopAct colours ordered sh pc e next sh') : next.isStaff = pc.isStaff := by
  cases hact <;> rfl

omit [DecidableEq Can] in
theorem isStaff_run (h : ShopRun colours evs s) (t : ShopThread ncustomers nstaff) : (s.pc t).isStaff = t.isRight := by
  refine Run.invariant (I := fun s : ShopState Can ncustomers nstaff ncolours => ∀ t, (s.pc t).isStaff = t.isRight)
    (fun t => ?_) (fun s _ _ hs hst => ?_) h t
  · cases t <;> rfl
  · refine hst.assertions (A := fun t pc _ => pc.isStaff = t.isRight) (fun _ _ x next _ ht hop => ?_)
      (fun _ _ x next _ ht hop => ?_) (fun _ _ _ _ ht hact => (ShopAct.isStaff hact).trans ht)
      (fun _ _ _ _ _ _ hu _ => hu) hs
    · exact (shopOp_isStaff (.p x next) hop).trans ht
    · exact (shopOp_isStaff (.v x next) hop).trans ht

omit [DecidableEq Can] in
theorem ShopAct.who {ordered : Set Can} {sh sh' : Shop Can ncustomers} {pc next : ShopPc Can ncolours}
    {e : ShopEvent Can} (hact : ShopAct colours ordered sh pc e next sh') (can : Can) :
    (e = .order can → pc.isStaff = false) ∧ (e = .taken can → pc.isStaff = true) := by
  refine ⟨fun he => ?_, fun he => ?_⟩
  · subst he
    cases hact
    rfl
  · subst he
    cases hact
    rfl

omit [DecidableEq Can] in
/-- Customers order, staff takes. -/
theorem who_run (h : ShopRun colours evs s) (t : ShopThread ncustomers nstaff) (can : Can) :
    (.act t (.order can) ∈ evs → t.isLeft) ∧ (.act t (.taken can) ∈ evs → t.isRight) := by
  induction h with
  | nil => exact ⟨fun h => absurd h List.not_mem_nil, fun h => absurd h List.not_mem_nil⟩
  | @snoc _ s _ a h hst ih =>
    have hstaff := isStaff_run h
    simp only [List.mem_append, List.mem_singleton]
    cases hst with
    | p _ _ | sleep _ _ | v _ _ => simpa using ih
    | @act u e next sh _ hact =>
      obtain ⟨horder, htaken⟩ := ShopAct.who hact can
      rw [hstaff u] at horder htaken
      refine ⟨fun hmem => hmem.elim ih.1 fun heq => ?_, fun hmem => hmem.elim ih.2 fun heq => ?_⟩
      · injection heq with htu he
        rw [htu, ← Sum.not_isRight, horder he.symm]
        exact Bool.false_ne_true
      · injection heq with htu he
        rw [htu]
        exact htaken he.symm

/-- **Orders are conserved**: a placement always finds a free slot; the events
about a can are whole orders, each by a customer and filled by a staff thread,
and the beginning of one, and the can is where they say; and when `take_order`
returns `NULL` there is no can in a buffer or in anybody's hands. -/
theorem orders_conserved (h : ShopRun colours evs s) :
    (∀ t can, .act t (.noOrderSlot can) ∉ evs ∧ .act t (.noDeliverySlot can) ∉ evs) ∧
    (∀ t can, (.act t (.order can) ∈ evs → t.isLeft) ∧ (.act t (.taken can) ∈ evs → t.isRight)) ∧
    (∀ can, ∃ (rounds : List (ShopThread ncustomers nstaff × ShopThread ncustomers nstaff)) (st : CanState _),
      evs.filter (SemLabel.about can) = rounds.flatMap (round can) ++ st.sofar can ∧ st.At s can) ∧
    (∀ t, s.pc t = .exiting ∨ s.pc t = .exited → ∀ can, (∀ i, s.shared.orderBuffer i ≠ some can) ∧
      (∀ i, s.shared.deliveryBuffer i ≠ some can) ∧ ∀ u stage, (s.pc u).carries ≠ some (can, stage)) := by
  refine ⟨slot_run h, who_run h, fun can => ?_, fun t ht can => ?_⟩
  · obtain ⟨st, hlife, hat⟩ := life_run h can
    obtain ⟨rounds, hlog⟩ := canStep_rounds hlife
    exact ⟨rounds, st, hlog, hat⟩
  · have hleaves : (s.pc t).leaves := by
      rcases ht with ht | ht
      · rw [ht]
        exact trivial
      · rw [ht]
        exact trivial
    have hno : ∀ u, (s.pc u).orders ≠ some can := fun u hu => by
      rw [ShopPc.orders_of_present (leaves_run h hleaves u)] at hu
      cases hu
    obtain ⟨hcarried, horder, hdelivery⟩ := (onePlace_run h can).nowhere hno
    exact ⟨horder, hdelivery, hcarried⟩

end Run

/-! ### One customer and one staff thread -/

section Example

variable {evs : List (SemLabel (ShopThread ncustomers nstaff) (ShopEvent Can))}
  {s : ShopState Can ncustomers nstaff ncolours}

omit [DecidableEq Can] in
theorem ShopRun.p (h : ShopRun colours evs s) (t : ShopThread ncustomers nstaff) (x : ShopSem ncolours)
    (next : ShopPc Can ncolours) (hop : shopOp (s.pc t) = some (.p x next)) (hcalm : (s.sem x).semWchan = ⟨[], ∅⟩)
    (hpos : (s.sem x).semCount.toNat ≠ 0) : ShopRun colours (evs ++ [.sem t]) { s with
      sem := Function.update s.sem x { s.sem x with semCount := (s.sem x).semCount - 1 }
      pc := Function.update s.pc t next } := by
  refine Run.snoc _ h (.p hop (semP_through ?_ hpos))
  rw [hcalm]
  exact ⟨List.not_mem_nil, Finset.notMem_empty t⟩

omit [DecidableEq Can] in
theorem ShopRun.v (h : ShopRun colours evs s) (t : ShopThread ncustomers nstaff) (x : ShopSem ncolours)
    (next : ShopPc Can ncolours) (hop : shopOp (s.pc t) = some (.v x next)) (hne : (s.sem x).semCount + 1 ≠ 0) :
    ShopRun colours (evs ++ [.sem t]) { s with
      sem := Function.update s.sem x ⟨(s.sem x).semCount + 1, wchanWakeone (s.sem x).semWchan⟩
      pc := Function.update s.pc t next } :=
  Run.snoc _ h (.v hop (semV_of_ne hne))

omit [DecidableEq Can] in
theorem ShopRun.act (h : ShopRun colours evs s) (t : ShopThread ncustomers nstaff) (e : ShopEvent Can)
    {next : ShopPc Can ncolours} {sh : Shop Can ncustomers} (hop : shopOp (s.pc t) = none)
    (hact : ShopAct colours { can | ∃ u, (s.pc u).orders = some can } s.shared (s.pc t) e next sh) :
    ShopRun colours (evs ++ [.act t e]) { s with shared := sh, pc := Function.update s.pc t next } :=
  Run.snoc _ h (.act hop hact)

/-- A customer orders a can without colours and waits for it, and the staff
thread takes the order. -/
theorem firstOrder_run : ∃ evs, ∃ s : ShopState Unit 1 1 1, ShopRun (fun _ => []) evs s ∧
    .act (.inr 0) (.taken ()) ∈ evs ∧ s.pc (.inl 0) = .readyWait () ∧ s.pc (.inr 0) = .holding () ∧
    (s.sem .readyCans) = semCreate _ 0 ∧ (s.sem .orderBufferFull).semCount = 1 ∧ s.shared.orderBuffer 0 = none := by
  have h : ShopRun (fun _ : Unit => ([] : PaintCan 1)) [] (paintshopOpen Unit 1 1 1) := Run.nil
  have h := ShopRun.act h (.inl 0) (.order ()) rfl (.order fun ⟨u, hu⟩ => by cases u <;> cases hu)
  have h := ShopRun.p h (.inl 0) .orderBufferEmpty (.orderLock ()) rfl rfl (by decide)
  have h := ShopRun.p h (.inl 0) .orderMutex (.placing () 0) rfl rfl (by decide)
  have h := ShopRun.act h (.inl 0) (.placed ()) rfl (.place (i := 0) rfl)
  have h := ShopRun.v h (.inl 0) .orderMutex (.fullPost ()) rfl (by decide)
  have h := ShopRun.v h (.inl 0) .orderBufferFull (.readyWait ()) rfl (by decide)
  have h := ShopRun.act h (.inr 0) _ rfl .takeOrder
  have h := ShopRun.act h (.inr 0) _ rfl (.someLeft (by decide))
  have h := ShopRun.p h (.inr 0) .orderBufferFull .takeLock rfl rfl (by decide)
  have h := ShopRun.p h (.inr 0) .orderMutex (.scanning 0) rfl rfl (by decide)
  have h := ShopRun.act h (.inr 0) (.taken ()) rfl (.take (i := 0) rfl)
  have h := ShopRun.v h (.inr 0) .orderMutex (.fullRepost (some ())) rfl (by decide)
  have h := ShopRun.v h (.inr 0) .orderBufferFull (.emptyRepost ()) rfl (by decide)
  have h := ShopRun.v h (.inr 0) .orderBufferEmpty (.holding ()) rfl (by decide)
  exact ⟨_, _, h, by simp, rfl, rfl, rfl, rfl, rfl⟩

/-- The order that was just taken. -/
theorem orders_conserved_taken :
    ∃ evs, ∃ s : ShopState Unit 1 1 1, ShopRun (fun _ => []) evs s ∧
      .act (.inr 0) (.taken ()) ∈ evs ∧ ∃ (rounds : List (ShopThread 1 1 × ShopThread 1 1)) (st : CanState _),
        evs.filter (SemLabel.about ()) = rounds.flatMap (round ()) ++ st.sofar () ∧ st.At s () := by
  obtain ⟨evs, s, h, htaken, -⟩ := firstOrder_run
  exact ⟨evs, s, h, htaken, (orders_conserved h).2.2.1 ()⟩

end Example

end Os161
