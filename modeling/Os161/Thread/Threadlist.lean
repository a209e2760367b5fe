/-
# Thread lists

`kern/thread/threadlist.c`: doubly linked lists with two sentinel nodes each.
The node of a thread is part of the thread, so a thread is on one list at a
time. A pointer that is followed although it is null stops the machine, as a
failed assertion does.

What a list stands for is the sequence of its threads. `ThreadlistOp.run` is
the code, `ThreadlistOp.onDeques` the same call on sequences; `Holds` says that
the links are those of the sequences, and `threadlist_refines_deque` that they
stay so. `Shows` is what a walk through the links then finds.
-/
import Os161.Lib.DoublyLinked
import Os161.Lib.Refines

namespace Os161

/-- The list nodes of `n` lists and of the threads. -/
inductive ListNode (n : ℕ)
  | head (tl : Fin n)
  | tail (tl : Fin n)
  | thread (t : ℕ)
  deriving DecidableEq

/-- The `tln_next` and `tln_prev` of the nodes and the `tl_count` of the lists. -/
structure Threadlists (n : ℕ) where
  next : ListNode n → Option (ListNode n)
  prev : ListNode n → Option (ListNode n)
  count : Fin n → ℕ

/-- A call on the lists. -/
abbrev ThreadlistM (n : ℕ) := Prog Empty (Threadlists n)

variable {n : ℕ}

/-- `tln_self`. -/
def ListNode.self : ListNode n → Option ℕ
  | thread t => some t
  | _ => none

/-- Follow a pointer. -/
def follow (p : Option (ListNode n)) : ThreadlistM n (ListNode n) :=
  match p with
  | some x => pure x
  | none => Prog.stop

def setNext (x : ListNode n) (p : Option (ListNode n)) : ThreadlistM n Unit :=
  Prog.modify fun s => { s with next := Function.update s.next x p }

def setPrev (x : ListNode n) (p : Option (ListNode n)) : ThreadlistM n Unit :=
  Prog.modify fun s => { s with prev := Function.update s.prev x p }

/-- `threadlistnode_init`. -/
def threadlistnodeInit (t : ℕ) : ThreadlistM n Unit := do
  setNext (.thread t) none
  setPrev (.thread t) none

/-- `threadlist_init`. -/
def threadlistInit (tl : Fin n) : ThreadlistM n Unit := do
  setNext (.head tl) (some (.tail tl))
  setPrev (.head tl) none
  setNext (.tail tl) none
  setPrev (.tail tl) (some (.head tl))
  Prog.modify fun s => { s with count := Function.update s.count tl 0 }

/-- `threadlist_isempty`. -/
def threadlistIsempty (tl : Fin n) : ThreadlistM n Bool := Prog.gets fun s => s.count tl = 0

/-- The end of both insertions: `addee->tln_prev->tln_next = addee` and
`addee->tln_next->tln_prev = addee`. -/
def threadlistLink (addee : ListNode n) : ThreadlistM n Unit := do
  let before ← follow (← Prog.gets fun s => s.prev addee)
  setNext before (some addee)
  let after ← follow (← Prog.gets fun s => s.next addee)
  setPrev after (some addee)

/-- `threadlist_insertafternode`. -/
def threadlistInsertafternode (onlist : ListNode n) (t : ℕ) : ThreadlistM n Unit := do
  Prog.assert ((← Prog.gets fun s => s.prev (.thread t)) = none)
  Prog.assert ((← Prog.gets fun s => s.next (.thread t)) = none)
  setPrev (.thread t) (some onlist)
  setNext (.thread t) (← Prog.gets fun s => s.next onlist)
  threadlistLink (.thread t)

/-- `threadlist_insertbeforenode`. -/
def threadlistInsertbeforenode (t : ℕ) (onlist : ListNode n) : ThreadlistM n Unit := do
  Prog.assert ((← Prog.gets fun s => s.prev (.thread t)) = none)
  Prog.assert ((← Prog.gets fun s => s.next (.thread t)) = none)
  setPrev (.thread t) (← Prog.gets fun s => s.prev onlist)
  setNext (.thread t) (some onlist)
  threadlistLink (.thread t)

/-- `threadlist_removenode`. -/
def threadlistRemovenode (tln : ListNode n) : ThreadlistM n Unit := do
  let before ← follow (← Prog.gets fun s => s.prev tln)
  let after ← follow (← Prog.gets fun s => s.next tln)
  setNext before (some after)
  setPrev after (some before)
  setPrev tln none
  setNext tln none

/-- `tl->tl_count++`. -/
def countUp (tl : Fin n) : ThreadlistM n Unit :=
  Prog.modify fun s => { s with count := Function.update s.count tl (s.count tl + 1) }

/-- `DEBUGASSERT(tl->tl_count > 0)` and `tl->tl_count--`. -/
def countDown (tl : Fin n) : ThreadlistM n Unit := do
  Prog.assert (0 < (← Prog.gets fun s => s.count tl))
  Prog.modify fun s => { s with count := Function.update s.count tl (s.count tl - 1) }

/-- `threadlist_addhead`. -/
def threadlistAddhead (tl : Fin n) (t : ℕ) : ThreadlistM n Unit := do
  threadlistInsertafternode (.head tl) t
  countUp tl

/-- `threadlist_addtail`. -/
def threadlistAddtail (tl : Fin n) (t : ℕ) : ThreadlistM n Unit := do
  threadlistInsertbeforenode t (.tail tl)
  countUp tl

/-- `threadlist_remhead`. -/
def threadlistRemhead (tl : Fin n) : ThreadlistM n (Option ℕ) := do
  let tln ← follow (← Prog.gets fun s => s.next (.head tl))
  if (← Prog.gets fun s => s.next tln) = none then return none
  threadlistRemovenode tln
  countDown tl
  return tln.self

/-- `threadlist_remtail`. -/
def threadlistRemtail (tl : Fin n) : ThreadlistM n (Option ℕ) := do
  let tln ← follow (← Prog.gets fun s => s.prev (.tail tl))
  if (← Prog.gets fun s => s.prev tln) = none then return none
  threadlistRemovenode tln
  countDown tl
  return tln.self

/-- `threadlist_insertafter`. -/
def threadlistInsertafter (tl : Fin n) (onlist addee : ℕ) : ThreadlistM n Unit := do
  threadlistInsertafternode (.thread onlist) addee
  countUp tl

/-- `threadlist_insertbefore`. -/
def threadlistInsertbefore (tl : Fin n) (addee onlist : ℕ) : ThreadlistM n Unit := do
  threadlistInsertbeforenode addee (.thread onlist)
  countUp tl

/-- `threadlist_remove`. -/
def threadlistRemove (tl : Fin n) (t : ℕ) : ThreadlistM n Unit := do
  threadlistRemovenode (.thread t)
  countDown tl

/-- The walk of `THREADLIST_FORALL` and, with the other link,
`THREADLIST_FORALL_REV`: the threads from the node `x` on. -/
def walk (link : ListNode n → Option (ListNode n)) : ℕ → ListNode n → Option (List ℕ)
  | 0, _ => none
  | fuel + 1, x => do
    let y ← link x
    match y.self with
    | none => some []
    | some t => (walk link fuel y).map (t :: ·)

/-! ### Calls and sequences -/

/-- A call. -/
inductive ThreadlistOp (n : ℕ)
  | isempty (tl : Fin n)
  | addhead (tl : Fin n) (t : ℕ)
  | addtail (tl : Fin n) (t : ℕ)
  | remhead (tl : Fin n)
  | remtail (tl : Fin n)
  | insertafter (tl : Fin n) (onlist addee : ℕ)
  | insertbefore (tl : Fin n) (addee onlist : ℕ)
  | remove (tl : Fin n) (t : ℕ)

/-- What a call hands back. -/
inductive ThreadlistReply
  | done
  | empty (b : Bool)
  | thread (t : Option ℕ)
  deriving DecidableEq

/-- `t` right after `u`. -/
def insertAfter (u t : ℕ) : List ℕ → List ℕ
  | [] => []
  | x :: l => if x = u then x :: t :: l else x :: insertAfter u t l

/-- `t` right before `u`. -/
def insertBefore (u t : ℕ) : List ℕ → List ℕ
  | [] => []
  | x :: l => if x = u then t :: x :: l else x :: insertBefore u t l

namespace ThreadlistOp

/-- The call of the code. -/
def run : ThreadlistOp n → ThreadlistM n ThreadlistReply
  | isempty tl => do return .empty (← threadlistIsempty tl)
  | addhead tl t => do
    threadlistAddhead tl t
    return .done
  | addtail tl t => do
    threadlistAddtail tl t
    return .done
  | remhead tl => do return .thread (← threadlistRemhead tl)
  | remtail tl => do return .thread (← threadlistRemtail tl)
  | insertafter tl onlist addee => do
    threadlistInsertafter tl onlist addee
    return .done
  | insertbefore tl addee onlist => do
    threadlistInsertbefore tl addee onlist
    return .done
  | remove tl t => do
    threadlistRemove tl t
    return .done

/-- The call on sequences. A thread that is added is on no list, and a thread
that is named as a member is on the list. -/
def onDeques (L : Fin n → List ℕ) : ThreadlistOp n → Option (ThreadlistReply × (Fin n → List ℕ))
  | isempty tl => some (.empty (L tl).isEmpty, L)
  | addhead tl t => if ∀ k, t ∉ L k then some (.done, Function.update L tl (t :: L tl)) else none
  | addtail tl t => if ∀ k, t ∉ L k then some (.done, Function.update L tl (L tl ++ [t])) else none
  | remhead tl => some (.thread (L tl).head?, Function.update L tl (L tl).tail)
  | remtail tl => some (.thread (L tl).getLast?, Function.update L tl (L tl).dropLast)
  | insertafter tl u t =>
    if (∀ k, t ∉ L k) ∧ u ∈ L tl then some (.done, Function.update L tl (insertAfter u t (L tl))) else none
  | insertbefore tl t u =>
    if (∀ k, t ∉ L k) ∧ u ∈ L tl then some (.done, Function.update L tl (insertBefore u t (L tl))) else none
  | remove tl t => if t ∈ L tl then some (.done, Function.update L tl ((L tl).erase t)) else none

end ThreadlistOp

/-! ### The links of a sequence -/

/-- The nodes of a list, with its sentinels. -/
def nodes (tl : Fin n) (l : List ℕ) : List (ListNode n) := .head tl :: (l.map .thread ++ [.tail tl])

/-- The node before what comes after `p`. -/
def lastNode (tl : Fin n) (p : List ℕ) : ListNode n := (p.getLast?.map .thread).getD (.head tl)

/-- The first node of `q`, or the end of the list. -/
def firstNode (tl : Fin n) (q : List ℕ) : ListNode n := (q.head?.map .thread).getD (.tail tl)

/-- The links and counters are those of the sequences `L`. -/
structure Threadlists.Holds (s : Threadlists n) (L : Fin n → List ℕ) : Prop where
  links : ∀ tl, LinkedBoth s.next s.prev (nodes tl (L tl))
  first : ∀ tl, s.prev (.head tl) = none
  last : ∀ tl, s.next (.tail tl) = none
  off : ∀ t, (∀ tl, t ∉ L tl) → s.next (.thread t) = none ∧ s.prev (.thread t) = none
  count : ∀ tl, s.count tl = (L tl).length
  nodup : ∀ tl, (L tl).Nodup
  apart : ∀ k tl t, t ∈ L k → t ∈ L tl → k = tl

section Nodes

variable {tl k : Fin n} {l p q : List ℕ} {t : ℕ}

@[simp] theorem head_mem_nodes : ListNode.head k ∈ nodes tl l ↔ k = tl := by
  simp [nodes]

@[simp] theorem tail_mem_nodes : ListNode.tail k ∈ nodes tl l ↔ k = tl := by
  simp [nodes]

@[simp] theorem thread_mem_nodes : ListNode.thread t ∈ nodes tl l ↔ t ∈ l := by
  simp [nodes]

theorem nodes_nodup (h : l.Nodup) : (nodes tl l).Nodup := by
  have hmap : (l.map (ListNode.thread (n := n))).Nodup := h.map fun _ _ he => by cases he; rfl
  simp [nodes, List.nodup_append, hmap]

/-- A list taken apart between two neighbours. -/
theorem nodes_append (tl : Fin n) (p q : List ℕ) :
    ∃ a m, nodes tl (p ++ q) = a ++ lastNode tl p :: firstNode tl q :: m ∧
      ∀ t, nodes tl (p ++ t :: q) = a ++ lastNode tl p :: .thread t :: firstNode tl q :: m := by
  obtain ⟨a, ha⟩ : ∃ a, .head tl :: p.map .thread = a ++ [lastNode tl p] := by
    rcases List.eq_nil_or_concat p with rfl | ⟨p, u, rfl⟩
    · exact ⟨[], rfl⟩
    · exact ⟨.head tl :: p.map .thread, by simp [lastNode]⟩
  obtain ⟨m, hm⟩ : ∃ m, q.map .thread ++ [.tail tl] = firstNode tl q :: m := by
    cases q with
    | nil => exact ⟨[], rfl⟩
    | cons u q => exact ⟨q.map .thread ++ [.tail tl], rfl⟩
  refine ⟨a, m, ?_, fun t => ?_⟩
  · calc nodes tl (p ++ q) = (.head tl :: p.map .thread) ++ (q.map .thread ++ [.tail tl]) := by simp [nodes]
      _ = _ := by simp [ha, hm]
  · calc nodes tl (p ++ t :: q) = (.head tl :: p.map .thread) ++ .thread t :: (q.map .thread ++ [.tail tl]) := by
          simp [nodes]
      _ = _ := by simp [ha, hm]

theorem head_ne_firstNode : ListNode.head k ≠ firstNode tl q := by
  unfold firstNode
  cases q.head? <;> simp

theorem tail_ne_lastNode : ListNode.tail k ≠ lastNode tl p := by
  unfold lastNode
  cases p.getLast? <;> simp

theorem lastNode_ne_thread (h : t ∉ p) : lastNode tl p ≠ .thread t := by
  unfold lastNode
  cases hp : p.getLast? with
  | none => simp
  | some u =>
    have hu : u ∈ p := List.mem_of_getLast? hp
    simpa using fun he : u = t => h (he ▸ hu)

theorem lastNode_concat (tl : Fin n) (p : List ℕ) (u : ℕ) : lastNode tl (p ++ [u]) = .thread u := by
  simp [lastNode]

end Nodes

namespace Threadlists.Holds

variable {s s' : Threadlists n} {L : Fin n → List ℕ} {tl k : Fin n} {l p q : List ℕ} {t : ℕ}

/-- The nodes of two lists. -/
theorem nodes_apart (h : s.Holds L) (hk : k ≠ tl) {x : ListNode n} (hx : x ∈ nodes k (L k)) : x ∉ nodes tl (L tl) := by
  cases x with
  | head j =>
    rw [head_mem_nodes] at hx ⊢
    exact fun he => hk (hx.symm.trans he)
  | tail j =>
    rw [tail_mem_nodes] at hx ⊢
    exact fun he => hk (hx.symm.trans he)
  | thread t =>
    rw [thread_mem_nodes] at hx ⊢
    exact fun ht => hk (h.apart k tl t hx ht)

/-- **A change of one list**, of which the others see nothing. -/
theorem change (h : s.Holds L) (hmem : ∀ t ∈ l, ∀ k, k ≠ tl → t ∉ L k) (hnd : l.Nodup)
    (hlinks : LinkedBoth s'.next s'.prev (nodes tl l)) (hfirst : s'.prev (.head tl) = none)
    (hlast : s'.next (.tail tl) = none)
    (hsame : ∀ x, x ∉ nodes tl (L tl) → x ∉ nodes tl l → s'.next x = s.next x ∧ s'.prev x = s.prev x)
    (hoff : ∀ t ∈ L tl, t ∉ l → s'.next (.thread t) = none ∧ s'.prev (.thread t) = none)
    (hcount : s'.count = Function.update s.count tl l.length) : s'.Holds (Function.update L tl l) := by
  have hself : Function.update L tl l tl = l := Function.update_self _ _ _
  have hother : ∀ k, k ≠ tl → Function.update L tl l k = L k := fun k hk => Function.update_of_ne hk _ _
  -- a node of another list is neither on the old list nor on the new one
  have hkeep : ∀ k, k ≠ tl → ∀ x ∈ nodes k (L k), s'.next x = s.next x ∧ s'.prev x = s.prev x := by
    refine fun k hk x hx => hsame x (h.nodes_apart hk hx) fun hx' => ?_
    cases x with
    | head j => exact hk ((head_mem_nodes.mp hx).symm.trans (head_mem_nodes.mp hx'))
    | tail j => exact hk ((tail_mem_nodes.mp hx).symm.trans (tail_mem_nodes.mp hx'))
    | thread t => exact hmem t (thread_mem_nodes.mp hx') k hk (thread_mem_nodes.mp hx)
  refine ⟨fun k => ?_, fun k => ?_, fun k => ?_, fun t ht => ?_, fun k => ?_, fun k => ?_, fun j k t hj hk => ?_⟩
  · by_cases hk : k = tl
    · rwa [hk, hself]
    · rw [hother k hk]
      exact (h.links k).congr (fun x hx => (hkeep k hk x hx).1) fun x hx => (hkeep k hk x hx).2
  · by_cases hk : k = tl
    · rwa [hk]
    · exact (hkeep k hk _ (head_mem_nodes.mpr rfl)).2.trans (h.first k)
  · by_cases hk : k = tl
    · rwa [hk]
    · exact (hkeep k hk _ (tail_mem_nodes.mpr rfl)).1.trans (h.last k)
  · have htl : t ∉ l := hself ▸ ht tl
    by_cases hold : t ∈ L tl
    · exact hoff t hold htl
    · have hfree : ∀ k, t ∉ L k := fun k => by
        by_cases hk : k = tl
        · rwa [hk]
        · rw [← hother k hk]
          exact ht k
      obtain ⟨hn, hp⟩ := hsame (.thread t) (by simpa using hold) (by simpa using htl)
      rw [hn, hp]
      exact h.off t hfree
  · by_cases hk : k = tl
    · rw [hk, hself, hcount, Function.update_self]
    · rw [hother k hk, hcount, Function.update_of_ne hk]
      exact h.count k
  · by_cases hk : k = tl
    · rwa [hk, hself]
    · rw [hother k hk]
      exact h.nodup k
  · by_cases hjt : j = tl <;> by_cases hkt : k = tl
    · rw [hjt, hkt]
    · rw [hjt, hself] at hj
      rw [hother k hkt] at hk
      exact absurd hk (hmem t hj k hkt)
    · rw [hkt, hself] at hk
      rw [hother j hjt] at hj
      exact absurd hj (hmem t hk j hjt)
    · rw [hother j hjt] at hj
      rw [hother k hkt] at hk
      exact h.apart j k t hj hk

/-- Neighbours on a list. -/
theorem neighbours (h : s.Holds L) (hL : L tl = p ++ q) :
    s.next (lastNode tl p) = some (firstNode tl q) ∧ s.prev (firstNode tl q) = some (lastNode tl p) := by
  obtain ⟨a, m, hnodes, -⟩ := nodes_append tl p q
  have hlinks := h.links tl
  rw [hL, hnodes] at hlinks
  exact hlinks.neighbours

/-- The neighbours of a thread on a list. -/
theorem around (h : s.Holds L) (hL : L tl = p ++ t :: q) :
    s.prev (.thread t) = some (lastNode tl p) ∧ s.next (.thread t) = some (firstNode tl q) := by
  have h1 := (h.neighbours hL).2
  have h2 := (h.neighbours (show L tl = (p ++ [t]) ++ q by simp [hL])).1
  exact ⟨h1, lastNode_concat tl p t ▸ h2⟩

/-- **A thread is put on a list.** -/
theorem insert (h : s.Holds L) (hL : L tl = p ++ q) (ht : ∀ k, t ∉ L k)
    (hnext : s'.next = linkNext s.next (lastNode tl p) (.thread t) (firstNode tl q))
    (hprev : s'.prev = linkPrev s.prev (lastNode tl p) (.thread t) (firstNode tl q))
    (hcount : s'.count = Function.update s.count tl (s.count tl + 1)) :
    s'.Holds (Function.update L tl (p ++ t :: q)) := by
  obtain ⟨a, m, hnodes, hnodes'⟩ := nodes_append tl p q
  have hlinks := h.links tl
  have hnd := h.nodup tl
  have htl := ht tl
  have hnodup : (nodes tl (L tl)).Nodup := nodes_nodup hnd
  have hnew : ListNode.thread t ∉ nodes tl (L tl) := by simpa using htl
  rw [hL] at hlinks hnodup hnew hnd htl
  rw [hnodes] at hlinks hnodup hnew
  refine h.change (fun u hu k hk huk => ?_) (List.nodup_middle.mpr (List.nodup_cons.mpr ⟨htl, hnd⟩)) ?_ ?_ ?_
    (fun x hx hx' => ?_) (fun u hu hu' => ?_) ?_
  · rcases List.mem_cons.mp (List.perm_middle.mem_iff.mp hu) with rfl | hu
    · exact ht k huk
    · exact hk (h.apart k tl u huk (hL ▸ hu))
  · rw [hnext, hprev, hnodes' t]
    exact hlinks.link hnodup hnew
  · rw [hprev, linkPrev_of_ne head_ne_firstNode (by simp), h.first]
  · rw [hnext, linkNext_of_ne tail_ne_lastNode (by simp), h.last]
  · rw [hL, hnodes] at hx
    rw [hnodes'] at hx'
    simp only [List.mem_append, List.mem_cons, not_or] at hx hx'
    rw [hnext, hprev]
    exact ⟨linkNext_of_ne hx.2.1 hx'.2.2.1, linkPrev_of_ne hx.2.2.1 hx'.2.2.1⟩
  · rw [hL] at hu
    exact absurd (List.perm_middle.mem_iff.mpr (List.mem_cons_of_mem t hu)) hu'
  · rw [hcount, h.count, hL, List.perm_middle.length_eq]
    rfl

/-- **A thread is taken off a list.** -/
theorem remove (h : s.Holds L) (hL : L tl = p ++ t :: q)
    (hnext : s'.next = unlinkNext s.next (lastNode tl p) (.thread t) (firstNode tl q))
    (hprev : s'.prev = unlinkPrev s.prev (lastNode tl p) (.thread t) (firstNode tl q))
    (hcount : s'.count = Function.update s.count tl (s.count tl - 1)) :
    s'.Holds (Function.update L tl (p ++ q)) := by
  obtain ⟨a, m, hnodes, hnodes'⟩ := nodes_append tl p q
  have hlinks := h.links tl
  have hnd := h.nodup tl
  rw [hL] at hlinks hnd
  rw [hnodes'] at hlinks
  obtain ⟨htl, hnd'⟩ := List.nodup_cons.mp (List.nodup_middle.mp hnd)
  have hnodup : (nodes tl (p ++ q)).Nodup := nodes_nodup hnd'
  have hnew : ListNode.thread t ∉ nodes tl (p ++ q) := by simpa using htl
  rw [hnodes] at hnodup hnew
  refine h.change (fun u hu k hk huk => ?_) hnd' ?_ ?_ ?_ (fun x hx hx' => ?_) (fun u hu hu' => ?_) ?_
  · exact hk (h.apart k tl u huk (hL ▸ List.perm_middle.mem_iff.mpr (List.mem_cons_of_mem t hu)))
  · rw [hnext, hprev, hnodes]
    exact hlinks.unlink hnodup hnew
  · rw [hprev, unlinkPrev_of_ne head_ne_firstNode (by simp), h.first]
  · rw [hnext, unlinkNext_of_ne tail_ne_lastNode (by simp), h.last]
  · rw [hL, hnodes'] at hx
    simp only [List.mem_append, List.mem_cons, not_or] at hx
    rw [hnext, hprev]
    exact ⟨unlinkNext_of_ne hx.2.1 hx.2.2.1, unlinkPrev_of_ne hx.2.2.2.1 hx.2.2.1⟩
  · rw [hL] at hu
    obtain rfl : u = t := (List.mem_cons.mp (List.perm_middle.mem_iff.mp hu)).resolve_right hu'
    rw [hnext, hprev]
    exact ⟨Function.update_self _ _ _, Function.update_self _ _ _⟩
  · rw [hcount, h.count, hL, List.perm_middle.length_eq]
    rfl

end Threadlists.Holds

/-! ### The stores -/

section Stores

variable {s : Threadlists n} {x y : ListNode n} {t : ℕ} {Q : Unit → Threadlists n → Prop}
  {E : Empty → Threadlists n → Prop}

/-- The node of a thread on no list goes between two neighbours. -/
theorem insertafternode_wp (hz : s.next (.thread t) = none ∧ s.prev (.thread t) = none) (hxy : s.next x = some y)
    (hQ : Q () { s with next := linkNext s.next x (.thread t) y, prev := linkPrev s.prev x (.thread t) y }) :
    Prog.wp (threadlistInsertafternode x t) Q E s := by
  have hx : x ≠ .thread t := by
    rintro rfl
    rw [hz.1] at hxy
    cases hxy
  simp only [threadlistInsertafternode, threadlistLink, setNext, setPrev, Prog.wp_bind, Prog.wp_gets, Prog.wp_assert,
    Prog.wp_modify, hz, hxy, Function.update_self, follow, Prog.wp_pure, Function.update_of_ne (Ne.symm hx), true_and]
  exact hQ

@[inherit_doc insertafternode_wp]
theorem insertbeforenode_wp (hz : s.next (.thread t) = none ∧ s.prev (.thread t) = none) (hxy : s.prev y = some x)
    (hx : x ≠ .thread t)
    (hQ : Q () { s with next := linkNext s.next x (.thread t) y, prev := linkPrev s.prev x (.thread t) y }) :
    Prog.wp (threadlistInsertbeforenode t y) Q E s := by
  simp only [threadlistInsertbeforenode, threadlistLink, setNext, setPrev, Prog.wp_bind, Prog.wp_gets, Prog.wp_assert,
    Prog.wp_modify, hz, hxy, Function.update_self, follow, Prog.wp_pure, Function.update_of_ne (Ne.symm hx), true_and]
  exact hQ

/-- A node leaves its neighbours. -/
theorem removenode_wp {z : ListNode n} (hprev : s.prev z = some x) (hnext : s.next z = some y)
    (hQ : Q () { s with next := unlinkNext s.next x z y, prev := unlinkPrev s.prev x z y }) :
    Prog.wp (threadlistRemovenode z) Q E s := by
  simp only [threadlistRemovenode, setNext, setPrev, Prog.wp_bind, Prog.wp_gets, Prog.wp_modify, hprev, hnext, follow,
    Prog.wp_pure]
  exact hQ

end Stores

/-! ### The calls -/

section Calls

variable {s : Threadlists n} {L : Fin n → List ℕ} {tl : Fin n} {p q : List ℕ} {t u : ℕ}
  {E : Empty → Threadlists n → Prop}

theorem insertAfter_append (h : u ∉ p) : insertAfter u t (p ++ u :: q) = p ++ u :: t :: q := by
  induction p with
  | nil => simp [insertAfter]
  | cons x p ih =>
    simp only [List.mem_cons, not_or] at h
    simp [insertAfter, Ne.symm h.1, ih h.2]

theorem insertBefore_append (h : u ∉ p) : insertBefore u t (p ++ u :: q) = p ++ t :: u :: q := by
  induction p with
  | nil => simp [insertBefore]
  | cons x p ih =>
    simp only [List.mem_cons, not_or] at h
    simp [insertBefore, Ne.symm h.1, ih h.2]

/-- Insertion after a node of the list. -/
theorem insertafter_wp (h : s.Holds L) (hL : L tl = p ++ q) (ht : ∀ k, t ∉ L k) :
    Prog.wp (do threadlistInsertafternode (lastNode tl p) t; countUp tl)
      (fun _ s' => s'.Holds (Function.update L tl (p ++ t :: q))) E s := by
  rw [Prog.wp_bind]
  refine insertafternode_wp (h.off t ht) (h.neighbours hL).1 ?_
  rw [countUp, Prog.wp_modify]
  exact h.insert hL ht rfl rfl rfl

/-- Insertion before a node of the list. -/
theorem insertbefore_wp (h : s.Holds L) (hL : L tl = p ++ q) (ht : ∀ k, t ∉ L k) :
    Prog.wp (do threadlistInsertbeforenode t (firstNode tl q); countUp tl)
      (fun _ s' => s'.Holds (Function.update L tl (p ++ t :: q))) E s := by
  have htp : t ∉ p := fun hp => ht tl (hL ▸ List.mem_append_left q hp)
  rw [Prog.wp_bind]
  refine insertbeforenode_wp (h.off t ht) (h.neighbours hL).2 (lastNode_ne_thread htp) ?_
  rw [countUp, Prog.wp_modify]
  exact h.insert hL ht rfl rfl rfl

/-- Removal of a thread of the list. -/
theorem remove_wp {Q : Unit → Threadlists n → Prop} (h : s.Holds L) (hL : L tl = p ++ t :: q)
    (hQ : ∀ s', s'.Holds (Function.update L tl (p ++ q)) → Q () s') :
    Prog.wp (threadlistRemovenode (.thread t)) (fun _ s' => Prog.wp (countDown tl) Q E s') E s := by
  obtain ⟨hprev, hnext⟩ := h.around hL
  refine removenode_wp hprev hnext ?_
  simp only [countDown, Prog.wp_bind, Prog.wp_gets, Prog.wp_assert, Prog.wp_modify]
  refine ⟨?_, hQ _ (h.remove hL rfl rfl rfl)⟩
  rw [h.count, hL]
  simp

/-- `threadlist_remhead` and `threadlist_remtail` of an empty list change nothing. -/
theorem remove_empty (h : s.Holds L) (hL : L tl = []) :
    Prog.wp (threadlistRemhead tl) (fun r s' => r = none ∧ s' = s) E s ∧
      Prog.wp (threadlistRemtail tl) (fun r s' => r = none ∧ s' = s) E s := by
  obtain ⟨hnext, hprev⟩ := h.neighbours (show L tl = [] ++ [] from hL)
  have hnext : s.next (.head tl) = some (.tail tl) := hnext
  have hprev : s.prev (.tail tl) = some (.head tl) := hprev
  simp [threadlistRemhead, threadlistRemtail, hnext, hprev, follow, h.first, h.last]

theorem remhead_wp (h : s.Holds L) : Prog.wp (threadlistRemhead tl)
    (fun r s' => r = (L tl).head? ∧ s'.Holds (Function.update L tl (L tl).tail)) E s := by
  cases hL : L tl with
  | nil =>
    refine Prog.wp_mono (remove_empty h hL).1 (fun r s' hr => ⟨hr.1, ?_⟩) fun _ _ he => he
    rw [hr.2, List.tail_nil, ← hL, Function.update_eq_self]
    exact h
  | cons t q =>
    have hsplit : L tl = [] ++ t :: q := hL
    have hnext : s.next (.head tl) = some (.thread t) := (h.neighbours hsplit).1
    simp only [threadlistRemhead, Prog.wp_bind, Prog.wp_gets, hnext, follow, Prog.wp_pure, (h.around hsplit).2,
      reduceCtorEq, if_false]
    exact remove_wp h hsplit fun s' hs' => ⟨rfl, hs'⟩

theorem remtail_wp (h : s.Holds L) : Prog.wp (threadlistRemtail tl)
    (fun r s' => r = (L tl).getLast? ∧ s'.Holds (Function.update L tl (L tl).dropLast)) E s := by
  rcases List.eq_nil_or_concat (L tl) with hL | ⟨p, t, hL⟩
  · rw [hL]
    refine Prog.wp_mono (remove_empty h hL).2 (fun r s' hr => ⟨hr.1, ?_⟩) fun _ _ he => he
    rw [hr.2, List.dropLast_nil, ← hL, Function.update_eq_self]
    exact h
  · have hprev : s.prev (.tail tl) = some (.thread t) :=
      lastNode_concat tl p t ▸ (h.neighbours (show L tl = (p ++ [t]) ++ [] by simpa using hL)).2
    have hsplit : L tl = p ++ t :: [] := by simpa using hL
    simp only [threadlistRemtail, Prog.wp_bind, Prog.wp_gets, hprev, follow, Prog.wp_pure, (h.around hsplit).1,
      reduceCtorEq, if_false]
    refine remove_wp h hsplit fun s' hs' => ?_
    rw [hsplit, List.getLast?_concat, List.dropLast_concat]
    exact ⟨rfl, by simpa using hs'⟩

end Calls

/-- **One call.** It gives back what the call on the sequences does, and the
links are those of the new sequences. -/
theorem ThreadlistOp.run_wp {s : Threadlists n} {L L' : Fin n → List ℕ} {op : ThreadlistOp n} {r : ThreadlistReply}
    {E : Empty → Threadlists n → Prop} (h : s.Holds L) (hop : op.onDeques L = some (r, L')) :
    Prog.wp op.run (fun x s' => x = r ∧ s'.Holds L') E s := by
  cases op with
  | isempty tl =>
    cases hop
    have hcount := h.count tl
    refine ⟨congrArg ThreadlistReply.empty ?_, h⟩
    cases hL : L tl <;> simp [hcount, hL]
  | addhead tl t =>
    obtain ⟨ht, he⟩ := Option.ite_none_right_eq_some.mp hop
    cases he
    rw [run, Prog.wp_bind]
    exact Prog.wp_mono (insertafter_wp (p := []) h rfl ht) (fun _ _ hs => ⟨rfl, hs⟩) fun _ _ he => he
  | addtail tl t =>
    obtain ⟨ht, he⟩ := Option.ite_none_right_eq_some.mp hop
    cases he
    rw [run, Prog.wp_bind]
    exact Prog.wp_mono (insertbefore_wp (q := []) h (List.append_nil _).symm ht) (fun _ _ hs => ⟨rfl, hs⟩)
      fun _ _ he => he
  | remhead tl =>
    cases hop
    rw [run, Prog.wp_bind]
    exact Prog.wp_mono (remhead_wp h) (fun _ _ hr => ⟨congrArg ThreadlistReply.thread hr.1, hr.2⟩) fun _ _ he => he
  | remtail tl =>
    cases hop
    rw [run, Prog.wp_bind]
    exact Prog.wp_mono (remtail_wp h) (fun _ _ hr => ⟨congrArg ThreadlistReply.thread hr.1, hr.2⟩) fun _ _ he => he
  | insertafter tl u t =>
    obtain ⟨⟨ht, hu⟩, he⟩ := Option.ite_none_right_eq_some.mp hop
    cases he
    obtain ⟨p, q, hL, hup⟩ := List.eq_append_cons_of_mem hu
    have hsplit : L tl = (p ++ [u]) ++ q := by simpa using hL
    have hins := insertafter_wp (E := E) h hsplit ht
    rw [lastNode_concat] at hins
    rw [run, Prog.wp_bind]
    refine Prog.wp_mono hins (fun _ _ hs => ⟨rfl, ?_⟩) fun _ _ he => he
    rw [hL, insertAfter_append hup]
    simpa using hs
  | insertbefore tl t u =>
    obtain ⟨⟨ht, hu⟩, he⟩ := Option.ite_none_right_eq_some.mp hop
    cases he
    obtain ⟨p, q, hL, hup⟩ := List.eq_append_cons_of_mem hu
    have hins := insertbefore_wp (E := E) h hL ht
    rw [hL, insertBefore_append hup, run, Prog.wp_bind]
    exact Prog.wp_mono hins (fun _ _ hs => ⟨rfl, hs⟩) fun _ _ he => he
  | remove tl t =>
    obtain ⟨ht, he⟩ := Option.ite_none_right_eq_some.mp hop
    cases he
    obtain ⟨p, q, hL, htp⟩ := List.eq_append_cons_of_mem ht
    rw [hL, List.erase_append_right _ htp, List.erase_cons_head]
    simp only [run, threadlistRemove, Prog.wp_bind]
    exact remove_wp h hL fun s' hs => ⟨rfl, hs⟩

/-! ### The walks -/

/-- A walk along a chain of threads ends with the first node that is no thread. -/
theorem walk_eq_some {link : ListNode n → Option (ListNode n)} {e : ListNode n} (he : e.self = none) {fuel : ℕ}
    {l : List ℕ} {x : ListNode n} (h : (x :: (l.map .thread ++ [e])).IsChain fun x y => link x = some y)
    (hl : l.length < fuel) : walk link fuel x = some l := by
  induction l generalizing x fuel with
  | nil =>
    obtain ⟨fuel, rfl⟩ := Nat.exists_eq_succ_of_ne_zero (Nat.ne_of_gt hl)
    obtain ⟨hx, -⟩ := List.isChain_cons_cons.mp h
    simp [walk, hx, he]
  | cons t l ih =>
    obtain ⟨fuel, rfl⟩ := Nat.exists_eq_succ_of_ne_zero (Nat.ne_zero_of_lt hl)
    obtain ⟨hx, hrest⟩ := List.isChain_cons_cons.mp h
    simp [walk, hx, ListNode.self, ih hrest (Nat.lt_of_succ_lt_succ hl)]

/-- What the lists show of the sequences. -/
structure Threadlists.Shows (s : Threadlists n) (L : Fin n → List ℕ) : Prop where
  forward : ∀ tl fuel, (L tl).length < fuel → walk s.next fuel (.head tl) = some (L tl)
  backward : ∀ tl fuel, (L tl).length < fuel → walk s.prev fuel (.tail tl) = some (L tl).reverse
  count : ∀ tl, s.count tl = (L tl).length
  linked : ∀ t, (s.next (.thread t) ≠ none ↔ ∃ tl, t ∈ L tl) ∧ (s.prev (.thread t) ≠ none ↔ ∃ tl, t ∈ L tl)
  one : ∀ t, (∃ tl, t ∈ L tl) → ∃! tl, t ∈ L tl
  empty : ∀ tl, L tl = [] →
    Prog.wp (threadlistRemhead tl) (fun r s' => r = none ∧ s' = s) (fun _ _ => False) s ∧
      Prog.wp (threadlistRemtail tl) (fun r s' => r = none ∧ s' = s) (fun _ _ => False) s

theorem Threadlists.Holds.shows {s : Threadlists n} {L : Fin n → List ℕ} (h : s.Holds L) : s.Shows L where
  forward tl fuel hf := walk_eq_some rfl ((h.links tl).imp fun _ _ hxy => hxy.1) hf
  backward tl fuel hf := by
    have hrev : (nodes tl (L tl)).reverse = .tail tl :: ((L tl).reverse.map .thread ++ [.head tl]) := by
      simp [nodes]
    refine walk_eq_some (e := .head tl) rfl ?_ (by simpa using hf)
    rw [← hrev, List.isChain_reverse]
    exact (h.links tl).imp fun _ _ hxy => hxy.2
  count := h.count
  linked t := by
    have hon : (∃ tl, t ∈ L tl) → s.next (.thread t) ≠ none ∧ s.prev (.thread t) ≠ none := by
      rintro ⟨tl, ht⟩
      obtain ⟨p, q, hL⟩ := List.append_of_mem ht
      obtain ⟨hprev, hnext⟩ := h.around hL
      simp [hprev, hnext]
    have hoff : (¬ ∃ tl, t ∈ L tl) → s.next (.thread t) = none ∧ s.prev (.thread t) = none :=
      fun ht => h.off t (not_exists.mp ht)
    exact ⟨⟨fun hn => of_not_not fun ht => hn (hoff ht).1, fun ht => (hon ht).1⟩,
      ⟨fun hp => of_not_not fun ht => hp (hoff ht).2, fun ht => (hon ht).2⟩⟩
  one t ht := by
    obtain ⟨tl, ht⟩ := ht
    exact ⟨tl, ht, fun k hk => h.apart k tl t hk ht⟩
  empty tl hL := remove_empty h hL

/-- Lists after `threadlist_init`, and nodes after `threadlistnode_init`. -/
def Threadlists.initial : Threadlists n where
  next
    | .head tl => some (.tail tl)
    | _ => none
  prev
    | .tail tl => some (.head tl)
    | _ => none
  count _ := 0

theorem Threadlists.initial_holds : (initial : Threadlists n).Holds fun _ => [] where
  links _ := List.isChain_cons_cons.mpr ⟨⟨rfl, rfl⟩, List.isChain_singleton _⟩
  first _ := rfl
  last _ := rfl
  off _ _ := ⟨rfl, rfl⟩
  count _ := rfl
  nodup _ := List.nodup_nil
  apart _ _ _ ht := absurd ht List.not_mem_nil

/-- `threadlist_init` brings a list, and `threadlistnode_init` a node, to the
initial state whatever was in the memory before. -/
theorem Threadlists.initial_of_init {s : Threadlists n} {E : Empty → Threadlists n → Prop} :
    (∀ tl, Prog.wp (threadlistInit tl) (fun _ s' => s'.next (.head tl) = initial.next (.head tl) ∧
      s'.next (.tail tl) = initial.next (.tail tl) ∧ s'.prev (.head tl) = initial.prev (.head tl) ∧
      s'.prev (.tail tl) = initial.prev (.tail tl) ∧ s'.count tl = initial.count tl) E s) ∧
    ∀ t, Prog.wp (threadlistnodeInit t) (fun _ s' => s'.next (.thread t) = initial.next (.thread t) ∧
      s'.prev (.thread t) = initial.prev (.thread t)) E s := by
  refine ⟨fun tl => ?_, fun t => ?_⟩
  · simp [threadlistInit, setNext, setPrev, initial]
  · simp [threadlistnodeInit, setNext, setPrev, initial]

/-- **The lists are double-ended queues.** Every sequence of calls that adds
threads which are on no list and names members of their lists runs to its end
with the replies of the sequences, and the lists show the sequences. -/
theorem threadlist_refines_deque {ops : List (ThreadlistOp n)} {rs : List ThreadlistReply} {L : Fin n → List ℕ}
    (h : eachStep ThreadlistOp.onDeques (fun _ => []) ops = some (rs, L)) :
    Prog.wp (Prog.each ThreadlistOp.run ops) (fun xs s => xs = rs ∧ s.Shows L) (fun _ _ => False)
      Threadlists.initial := by
  have hrun := Prog.each_refines (E := fun _ _ => False) (R := fun (s : Threadlists n) L => s.Holds L)
    (fun _ _ _ _ _ hs hop => ThreadlistOp.run_wp hs hop) Threadlists.initial_holds h
  exact Prog.wp_mono hrun (fun _ _ hs => ⟨hs.1, hs.2.shows⟩) fun _ _ he => he

/-- Two lists: 5 goes on the first, 3 before it and 4 in between; 5 moves to
the second list, and one removal finds that list empty. -/
theorem threadlist_refines_deque_five :
    ∃ rs, ∃ L : Fin 2 → List ℕ, rs.getLast? = some (.thread none) ∧ L 0 = [3, 4] ∧ L 1 = [] ∧
      Prog.wp (Prog.each ThreadlistOp.run [.addtail 0 5, .addhead 0 3, .insertbefore 0 4 5, .remtail 0, .addhead 1 5,
        .remove 1 5, .remhead 1]) (fun xs s => xs = rs ∧ s.Shows L) (fun _ _ => False) Threadlists.initial :=
  ⟨_, _, by decide, by decide, by decide, threadlist_refines_deque rfl⟩

end Os161
