/-
# Migrating threads

`thread_consider_migration` of `kern/thread/thread.c`. The run queues are the
lists that `threadlist.c` keeps, and removing a thread from an empty list stops
the machine: the caller goes on to use the thread.

The call takes one run queue lock at a time. Before each lock section the other
CPUs can do something (`Others`); what they never do is take a thread from the
run queue of the calling CPU. So the thread counts may be out of date when they
are used, but a list that a thread is taken from is not empty (`consider_safe`).

If the other CPUs leave the queues alone, there is room for all the threads
that are taken: a queue that is longer than the average has others that are
shorter, by as much together (`le_room`). The calling CPU then keeps its share,
and its current thread if that was among the ones taken (`consider_balanced`).
-/
import Os161.Lib.Census
import Os161.Lib.Prog

namespace Os161

namespace Migration

/-- The run queues, `t_cpu` of each thread, `c_isidle` of each CPU, and the
CPUs that were sent `IPI_UNIDLE`. -/
structure Queues (C T : Type) where
  runqueue : C → List T
  tCpu : T → C
  cIsidle : C → Bool
  ipis : List C

/-- The lock sections of `thread_consider_migration`. -/
inductive Section (C : Type)
  | sample (c : C)
  | take
  | send (c : C)
  | back

variable {C T : Type} [DecidableEq C] [DecidableEq T]

/-- What the other CPUs do before a lock section. -/
abbrev Others (C T : Type) := Section C → Queues C T → Queues C T

/-- A queue changes. -/
def Queues.setQueue (s : Queues C T) (c : C) (q : List T) : Queues C T :=
  { s with runqueue := Function.update s.runqueue c q }

/-- `t` goes to the CPU `c`, which is woken if it is idle. -/
def Queues.send (s : Queues C T) (c : C) (t : T) : Queues C T :=
  { s with
    runqueue := Function.update s.runqueue c (s.runqueue c ++ [t])
    tCpu := Function.update s.tCpu t c
    ipis := if s.cIsidle c then c :: s.ipis else s.ipis }

section Code

variable (others : Others C T) (curcpu : C) (curthread : T)

/-- The first loop: `my_count` and `total_count`. -/
def sampleCounts : List C → ℕ → ℕ → Prog Empty (Queues C T) (ℕ × ℕ)
  | [], myCount, totalCount => pure (myCount, totalCount)
  | c :: cs, myCount, totalCount => do
    Prog.modify (others (.sample c))
    let s ← Prog.get
    let n := (s.runqueue c).length
    sampleCounts cs (if c = curcpu then n else myCount) (totalCount + n)

/-- The threads from the end of the own run queue. -/
def takeVictims : ℕ → List T → Prog Empty (Queues C T) (List T)
  | 0, victims => pure victims
  | toSend + 1, victims => do
    let s ← Prog.get
    match (s.runqueue curcpu).getLast? with
    | none => Prog.stop
    | some t => do
      Prog.modify fun s => s.setQueue curcpu (s.runqueue curcpu).dropLast
      takeVictims toSend (t :: victims)

/-- The inner loop: threads for the CPU `c`. -/
def sendTo (oneShare : ℕ) (c : C) : ℕ → List T → Prog Empty (Queues C T) (ℕ × List T)
  | 0, victims => pure (0, victims)
  | toSend + 1, victims => do
    let s ← Prog.get
    if (s.runqueue c).length < oneShare then
      match victims with
      | [] => Prog.stop
      | t :: rest =>
        if t = curthread then sendTo oneShare c toSend (rest ++ [t])
        else do
          Prog.modify fun s => s.send c t
          sendTo oneShare c toSend rest
    else pure (toSend + 1, victims)

/-- The loop over the CPUs. -/
def sendAll (oneShare : ℕ) : List C → ℕ → List T → Prog Empty (Queues C T) (ℕ × List T)
  | [], toSend, victims => pure (toSend, victims)
  | c :: cs, toSend, victims =>
    if toSend = 0 then pure (toSend, victims)
    else if c = curcpu then sendAll oneShare cs toSend victims
    else do
      Prog.modify (others (.send c))
      let r ← sendTo curthread oneShare c toSend victims
      sendAll oneShare cs r.1 r.2

/-- `thread_consider_migration`. -/
def threadConsiderMigration (allcpus : List C) : Prog Empty (Queues C T) Unit := do
  let counts ← sampleCounts others curcpu allcpus 0 0
  let oneShare := (counts.2 + allcpus.length - 1) / allcpus.length
  if counts.1 < oneShare then pure ()
  else do
    Prog.modify (others .take)
    let victims ← takeVictims curcpu (counts.1 - oneShare) []
    let r ← sendAll others curcpu curthread oneShare allcpus (counts.1 - oneShare) victims
    if r.2 = [] then pure ()
    else do
      Prog.modify (others .back)
      Prog.modify fun s => s.setQueue curcpu (s.runqueue curcpu ++ r.2)

end Code

/-! ### The loops -/

section Loops

variable {others : Others C T} {curcpu : C} {curthread : T} {s : Queues C T} {E : Empty → Queues C T → Prop}

omit [DecidableEq T] in
theorem setQueue_setQueue (s : Queues C T) (c : C) (q q' : List T) : (s.setQueue c q).setQueue c q' = s.setQueue c q' := by
  unfold Queues.setQueue
  rw [Function.update_idem]

omit [DecidableEq T] in
@[simp] theorem runqueue_setQueue (s : Queues C T) (c : C) (q : List T) : (s.setQueue c q).runqueue c = q := by
  simp [Queues.setQueue]

omit [DecidableEq T] in
/-- The threads that are taken are the last ones of the queue. -/
theorem takeVictims_run (l : List T) : ∀ {s : Queues C T} {q : List T} (victims : List T),
    s.runqueue curcpu = q ++ l → takeVictims curcpu l.length victims s =
      .ok (l ++ victims) (s.setQueue curcpu q) := by
  induction l using List.reverseRecOn with
  | nil =>
    intro s q victims hq
    have hset : s.setQueue curcpu q = s := by
      unfold Queues.setQueue
      rw [Function.update_eq_self_iff.mpr (by rw [hq, List.append_nil])]
    rw [hset]
    rfl
  | append_singleton l t ih =>
    intro s q victims hq
    rw [← List.append_assoc] at hq
    have hlast : (s.runqueue curcpu).getLast? = some t := by rw [hq, List.getLast?_concat]
    have hdrop : (s.runqueue curcpu).dropLast = q ++ l := by rw [hq, List.dropLast_concat]
    have hstep : takeVictims curcpu (l.length + 1) victims s =
        takeVictims curcpu l.length (t :: victims) (s.setQueue curcpu (q ++ l)) := by
      rw [takeVictims, Prog.get_bind, hlast]
      show takeVictims curcpu l.length (t :: victims) (s.setQueue curcpu (s.runqueue curcpu).dropLast) = _
      rw [hdrop]
    rw [List.length_append, List.length_singleton, hstep, ih _ (runqueue_setQueue _ _ _), setQueue_setQueue,
      List.append_assoc]
    rfl

omit [DecidableEq T] in
theorem takeVictims_wp {Q : List T → Queues C T → Prop} {k : ℕ} (hk : k ≤ (s.runqueue curcpu).length)
    (hQ : ∀ q l, s.runqueue curcpu = q ++ l → l.length = k → Q l (s.setQueue curcpu q)) :
    Prog.wp (takeVictims curcpu k []) Q E s := by
  have hsplit := (List.take_append_drop ((s.runqueue curcpu).length - k) (s.runqueue curcpu)).symm
  have hlen : (List.drop ((s.runqueue curcpu).length - k) (s.runqueue curcpu)).length = k := by
    rw [List.length_drop]
    omega
  have hrun := takeVictims_run (s := s) _ [] hsplit
  rw [hlen, List.append_nil] at hrun
  unfold Prog.wp
  rw [hrun]
  exact hQ _ _ hsplit hlen

/-- **The inner loop keeps an invariant** that says there are victims, and ends
with none to send or with the queue at its share. -/
theorem sendTo_wp {oneShare : ℕ} {c : C} {I : Queues C T → ℕ → List T → Prop} (hne : ∀ s k, ¬ I s (k + 1) [])
    (hskip : ∀ s k rest, (s.runqueue c).length < oneShare → I s (k + 1) (curthread :: rest) → I s k (rest ++ [curthread]))
    (hsend : ∀ s k t rest, (s.runqueue c).length < oneShare → t ≠ curthread → I s (k + 1) (t :: rest) →
      I (s.send c t) k rest) : ∀ (k : ℕ) {s : Queues C T} {victims : List T}, I s k victims →
    Prog.wp (sendTo curthread oneShare c k victims)
      (fun r s => I s r.1 r.2 ∧ (r.1 = 0 ∨ oneShare ≤ (s.runqueue c).length)) E s := by
  intro k
  induction k with
  | zero =>
    intro s victims h
    exact ⟨h, Or.inl rfl⟩
  | succ k ih =>
    intro s victims h
    unfold sendTo
    rw [Prog.wp_bind, Prog.wp_get, Prog.wp_ite]
    refine ⟨fun hlt => ?_, fun hlt => ⟨h, Or.inr (by omega)⟩⟩
    cases victims with
    | nil => exact absurd h (hne s k)
    | cons t rest =>
      show Prog.wp (if t = curthread then _ else _) _ _ s
      rw [Prog.wp_ite]
      refine ⟨fun ht => ?_, fun ht => ?_⟩
      · subst ht
        exact ih (hskip s k rest hlt h)
      · rw [Prog.wp_bind, Prog.wp_modify]
        exact ih (hsend s k t rest hlt ht h)

/-- **The loop over the CPUs**, with an invariant that speaks of the CPUs that
are left. -/
theorem sendAll_wp {oneShare : ℕ} {I : List C → Queues C T → ℕ → List T → Prop}
    (hne : ∀ cs s k, ¬ I cs s (k + 1) [])
    (hmine : ∀ cs s k v, I (curcpu :: cs) s k v → I cs s k v)
    (hothers : ∀ c cs s k v, I (c :: cs) s k v → I (c :: cs) (others (.send c) s) k v)
    (hskip : ∀ c cs s k rest, (s.runqueue c).length < oneShare → I (c :: cs) s (k + 1) (curthread :: rest) →
      I (c :: cs) s k (rest ++ [curthread]))
    (hsend : ∀ c cs s k t rest, c ≠ curcpu → (s.runqueue c).length < oneShare → t ≠ curthread →
      I (c :: cs) s (k + 1) (t :: rest) → I (c :: cs) (s.send c t) k rest)
    (hnext : ∀ c cs s k v, c ≠ curcpu → k = 0 ∨ oneShare ≤ (s.runqueue c).length → I (c :: cs) s k v → I cs s k v)
    (hzero : ∀ cs s v, I cs s 0 v → I [] s 0 v) :
    ∀ (cs : List C) {s : Queues C T} {k : ℕ} {victims : List T}, I cs s k victims →
    Prog.wp (sendAll others curcpu curthread oneShare cs k victims) (fun r s => I [] s r.1 r.2) E s := by
  intro cs
  induction cs with
  | nil => exact fun h => h
  | cons c cs ih =>
    intro s k victims h
    rw [sendAll, Prog.wp_ite]
    refine ⟨fun hk => ?_, fun _ => ?_⟩
    · subst hk
      exact hzero _ _ _ h
    · rw [Prog.wp_ite]
      refine ⟨fun hc => ?_, fun hc => ?_⟩
      · subst hc
        exact ih (hmine _ _ _ _ h)
      · rw [Prog.wp_bind, Prog.wp_modify, Prog.wp_bind]
        have hloop := sendTo_wp (E := E) (I := I (c :: cs)) (hne (c :: cs)) (hskip c cs)
          (fun s k t rest => hsend c cs s k t rest hc) k (hothers c cs s k victims h)
        exact Prog.wp_mono hloop (fun r t hr => ih (hnext c cs t r.1 r.2 hc hr.2 hr.1)) fun _ _ he => he

end Loops

/-! ### No list runs empty -/

/-- The other CPUs take no thread from the run queue of `curcpu`. -/
def Others.Spare (others : Others C T) (curcpu : C) : Prop :=
  ∀ sec s, (s.runqueue curcpu).length ≤ ((others sec s).runqueue curcpu).length

section Safe

variable {others : Others C T} {curcpu : C} {curthread : T} {E : Empty → Queues C T → Prop}

omit [DecidableEq T] in
/-- The own queue does not get shorter than it was seen. -/
theorem sampleCounts_le (h : others.Spare curcpu) (cs : List C) : ∀ {s : Queues C T} {myCount totalCount : ℕ},
    myCount ≤ (s.runqueue curcpu).length →
    Prog.wp (sampleCounts others curcpu cs myCount totalCount) (fun r s => r.1 ≤ (s.runqueue curcpu).length) E s := by
  induction cs with
  | nil => exact fun hle => hle
  | cons c cs ih =>
    intro s myCount totalCount hle
    rw [sampleCounts, Prog.wp_bind, Prog.wp_modify, Prog.wp_bind, Prog.wp_get]
    refine ih ?_
    split_ifs with hc
    · rw [hc]
    · exact hle.trans (h _ s)

theorem sendAll_safe {oneShare k : ℕ} {victims : List T} (cs : List C) (hk : k ≤ victims.length) (s : Queues C T) :
    Prog.wp (sendAll others curcpu curthread oneShare cs k victims) (fun r _ => r.1 ≤ r.2.length) E s :=
  sendAll_wp (I := fun _ _ k v => k ≤ v.length) (by simp) (fun _ _ _ _ hk => hk) (fun _ _ _ _ _ hk => hk)
    (fun _ _ _ _ rest _ hk => by simp at hk ⊢; omega) (fun _ _ _ _ _ _ _ _ _ hk => by simpa using hk)
    (fun _ _ _ _ _ _ _ hk => hk) (fun _ _ _ _ => Nat.zero_le _) cs hk

/-- **Whatever the other CPUs do** that takes nothing from the own queue, no
thread is taken from an empty list. -/
theorem consider_safe (h : others.Spare curcpu) (allcpus : List C) (s : Queues C T) :
    Prog.wp (threadConsiderMigration others curcpu curthread allcpus) (fun _ _ => True) E s := by
  unfold threadConsiderMigration
  rw [Prog.wp_bind]
  refine Prog.wp_mono (sampleCounts_le h allcpus (Nat.zero_le _)) (fun counts s hle => ?_) fun _ _ he => he
  rw [Prog.wp_ite]
  refine ⟨fun _ => trivial, fun _ => ?_⟩
  rw [Prog.wp_bind, Prog.wp_modify, Prog.wp_bind]
  refine takeVictims_wp ((Nat.sub_le _ _).trans (hle.trans (h .take s))) fun q l _ hl => ?_
  rw [Prog.wp_bind]
  refine Prog.wp_mono (sendAll_safe allcpus hl.ge _) (fun r s _ => ?_) fun _ _ he => he
  rw [Prog.wp_ite]
  exact ⟨fun _ => trivial, fun _ => trivial⟩

end Safe

/-! ### Balance -/

/-- The other CPUs do nothing. -/
def quiet : Others C T := fun _ s => s

/-- The average length of the run queues, rounded up. -/
def share [Fintype C] (s : Queues C T) : ℕ := (∑ c, (s.runqueue c).length + Fintype.card C - 1) / Fintype.card C

/-- A thread is in the queue of its CPU. -/
def Homed (s : Queues C T) : Prop := ∀ c, ∀ t ∈ s.runqueue c, s.tCpu t = c

/-- What the call does to the run queues. -/
structure Balanced [Fintype C] (curcpu : C) (curthread : T) (s t : Queues C T) : Prop where
  lengths : ∀ c, (t.runqueue c).length ≤ max (share s) (s.runqueue c).length
  own : (t.runqueue curcpu).length ≤ share s + if curthread ∈ s.runqueue curcpu then 1 else 0
  current : ∀ c, (t.runqueue c).count curthread = (s.runqueue c).count curthread
  threads : ∑ c, (t.runqueue c : Multiset T) = ∑ c, (s.runqueue c : Multiset T)
  homed : Homed t

/-- How many threads the CPUs `cs` can take until they have their share. -/
def room (oneShare : ℕ) (curcpu : C) (cs : List C) (s : Queues C T) : ℕ :=
  (cs.map fun c => if c = curcpu then 0 else oneShare - (s.runqueue c).length).sum

omit [DecidableEq T] in
theorem room_cons_of_ne {oneShare : ℕ} {c curcpu : C} (hc : c ≠ curcpu) {cs : List C} {s : Queues C T} :
    room oneShare curcpu (c :: cs) s = oneShare - (s.runqueue c).length + room oneShare curcpu cs s := by
  simp [room, hc]

omit [DecidableEq T] in
theorem room_congr {oneShare : ℕ} {curcpu : C} {cs : List C} {s t : Queues C T}
    (h : ∀ c ∈ cs, t.runqueue c = s.runqueue c) : room oneShare curcpu cs t = room oneShare curcpu cs s := by
  unfold room
  rw [List.map_congr_left fun c hc => by rw [h c hc]]

section Balance

variable [Fintype C] {curcpu : C} {curthread : T} {s : Queues C T} {E : Empty → Queues C T → Prop}

omit [DecidableEq T] [Fintype C] in
theorem sampleCounts_quiet (cs : List C) : ∀ myCount totalCount, sampleCounts quiet curcpu cs myCount totalCount s =
    .ok (if curcpu ∈ cs then (s.runqueue curcpu).length else myCount,
      totalCount + (cs.map fun c => (s.runqueue c).length).sum) s := by
  induction cs with
  | nil => exact fun _ _ => rfl
  | cons c cs ih =>
    intro myCount totalCount
    rw [sampleCounts, Prog.modify_bind, Prog.get_bind]
    refine (ih _ _).trans ?_
    rw [List.map_cons, List.sum_cons, add_assoc]
    by_cases hc : c = curcpu
    · simp [hc, quiet]
    · simp [hc, Ne.symm hc, quiet]

theorem sum_allcpus {allcpus : List C} (hcs : allcpus.Nodup) (hall : ∀ c, c ∈ allcpus) (f : C → ℕ) :
    (allcpus.map f).sum = ∑ c, f c := by
  rw [← List.sum_toFinset f hcs]
  exact Finset.sum_congr (Finset.eq_univ_iff_forall.mpr fun c => List.mem_toFinset.mpr (hall c)) fun _ _ => rfl

omit [DecidableEq T] in
/-- **There is room for what is over the share.** -/
theorem le_room {allcpus : List C} (hcs : allcpus.Nodup) (hall : ∀ c, c ∈ allcpus) :
    (s.runqueue curcpu).length - share s ≤ room (share s) curcpu allcpus s := by
  have hcard : 0 < Fintype.card C := Fintype.card_pos_iff.mpr ⟨curcpu⟩
  -- the share times the number of CPUs covers all the threads
  have hshare : ∑ c, (s.runqueue c).length ≤ Fintype.card C * share s := by
    have hdiv := Nat.div_add_mod (∑ c, (s.runqueue c).length + Fintype.card C - 1) (Fintype.card C)
    have hmod := Nat.mod_lt (∑ c, (s.runqueue c).length + Fintype.card C - 1) hcard
    have hdef : share s = (∑ c, (s.runqueue c).length + Fintype.card C - 1) / Fintype.card C := rfl
    rw [← hdef] at hdiv
    omega
  rcases le_total (s.runqueue curcpu).length (share s) with hle | hge
  · rw [Nat.sub_eq_zero_of_le hle]
    exact Nat.zero_le _
  have hsum : ∑ c : C, (share s + if c = curcpu then (s.runqueue curcpu).length - share s else 0) ≤
      ∑ c, ((if c = curcpu then 0 else share s - (s.runqueue c).length) + (s.runqueue c).length) := by
    refine Finset.sum_le_sum fun c _ => ?_
    by_cases hc : c = curcpu
    · subst hc
      simp [Nat.add_sub_cancel' hge]
    · simp only [hc, if_false]
      omega
  rw [Finset.sum_add_distrib, Finset.sum_add_distrib, Finset.sum_const, Finset.card_univ, smul_eq_mul,
    Finset.sum_ite_eq' Finset.univ curcpu, if_pos (Finset.mem_univ _), 
    ← sum_allcpus hcs hall fun c => if c = curcpu then 0 else _] at hsum
  unfold room
  omega

/-- **The invariant while threads are sent**, from the state `s₀` in which the
first of the own queue are `q`: `k` of the victims have not been looked at yet. -/
structure Sending (curcpu : C) (curthread : T) (s₀ : Queues C T) (q : List T) (cs : List C) (s : Queues C T) (k : ℕ)
    (victims : List T) : Prop where
  own : s.runqueue curcpu = q
  nodup : (q ++ victims).Nodup
  homed : Homed s
  taken : ∀ t ∈ victims, s.tCpu t = curcpu ∧ t ∈ s₀.runqueue curcpu
  threads : ∑ c, (s.runqueue c : Multiset T) + (victims : Multiset T) = ∑ c, (s₀.runqueue c : Multiset T)
  unseen : ∃ u j, victims = u ++ List.replicate j curthread ∧ u.length = k
  short : q.length + victims.length ≤ (s₀.runqueue curcpu).length
  count : (q ++ victims).count curthread = (s₀.runqueue curcpu).count curthread
  current : ∀ c ≠ curcpu, (s.runqueue c).count curthread = (s₀.runqueue c).count curthread
  lengths : ∀ c ≠ curcpu, (s.runqueue c).length ≤ max (share s₀) (s₀.runqueue c).length
  cpus : cs.Nodup
  fits : k ≤ room (share s₀) curcpu cs s

variable {s₀ : Queues C T} {q rest : List T} {cs : List C} {k : ℕ} {t : T} {c : C}

theorem Sending.ne_nil (h : Sending curcpu curthread s₀ q cs s (k + 1) []) : False := by
  obtain ⟨u, j, hu, hlen⟩ := h.unseen
  have : u = [] := (List.append_eq_nil_iff.mp hu.symm).1
  rw [this] at hlen
  cases hlen

/-- The next victim has not been looked at. -/
theorem Sending.unseen_cons (h : Sending curcpu curthread s₀ q cs s (k + 1) (t :: rest)) :
    ∃ u j, rest = u ++ List.replicate j curthread ∧ u.length = k := by
  obtain ⟨u, j, hu, hlen⟩ := h.unseen
  cases u with
  | nil => cases hlen
  | cons x u =>
    rw [List.cons_append, List.cons.injEq] at hu
    exact ⟨u, j, hu.2, by simpa using hlen⟩

/-- The current thread goes to the end. -/
theorem Sending.skip (h : Sending curcpu curthread s₀ q cs s (k + 1) (curthread :: rest)) :
    Sending curcpu curthread s₀ q cs s k (rest ++ [curthread]) := by
  have hperm : (rest ++ [curthread]).Perm (curthread :: rest) := List.perm_append_singleton curthread rest
  obtain ⟨u, j, hu, hlen⟩ := h.unseen_cons
  refine ⟨h.own, (hperm.append_left q).nodup_iff.mpr h.nodup, h.homed, fun x hx => h.taken x (hperm.mem_iff.mp hx), ?_,
    ⟨u, j + 1, ?_, hlen⟩, ?_, ?_, h.current, h.lengths, h.cpus, (Nat.le_succ k).trans h.fits⟩
  · rw [Multiset.coe_eq_coe.mpr hperm]
    exact h.threads
  · rw [hu, List.append_assoc, List.replicate_succ']
  · rw [hperm.length_eq]
    exact h.short
  · rw [(hperm.append_left q).count_eq]
    exact h.count

theorem Sending.not_mem (h : Sending curcpu curthread s₀ q cs s (k + 1) (t :: rest)) :
    t ∉ rest ∧ ∀ c, t ∉ s.runqueue c := by
  have hnodup := List.nodup_append.mp h.nodup
  refine ⟨(List.nodup_cons.mp hnodup.2.1).1, fun c hc => ?_⟩
  have hcpu : c = curcpu := (h.homed c t hc).symm.trans (h.taken t List.mem_cons_self).1
  rw [hcpu, h.own] at hc
  exact hnodup.2.2 t hc t List.mem_cons_self rfl

/-- A thread goes to another CPU. -/
theorem Sending.send (h : Sending curcpu curthread s₀ q (c :: cs) s (k + 1) (t :: rest)) (hc : c ≠ curcpu)
    (hlt : (s.runqueue c).length < share s₀) (ht : t ≠ curthread) :
    Sending curcpu curthread s₀ q (c :: cs) (s.send c t) k rest := by
  have hself : (s.send c t).runqueue c = s.runqueue c ++ [t] := Function.update_self _ _ _
  have hother : ∀ d, d ≠ c → (s.send c t).runqueue d = s.runqueue d := fun d hd => Function.update_of_ne hd _ _
  have hcpu : ∀ x, x ≠ t → (s.send c t).tCpu x = s.tCpu x := fun x hx => Function.update_of_ne hx _ _
  obtain ⟨hrest, hqueues⟩ := h.not_mem
  have hsub : (q ++ rest).Sublist (q ++ t :: rest) := (List.sublist_cons_self t rest).append_left q
  refine ⟨?_, h.nodup.sublist hsub, ?_, ?_, ?_, h.unseen_cons, ?_, ?_, ?_, ?_, h.cpus, ?_⟩
  · rw [hother curcpu hc.symm]
    exact h.own
  · intro d x hx
    by_cases hxt : x = t
    · subst hxt
      have hdc : d = c := by
        by_contra hdc
        rw [hother d hdc] at hx
        exact hqueues d hx
      rw [hdc]
      exact Function.update_self _ _ _
    · rw [hcpu x hxt]
      by_cases hdc : d = c
      · rw [hdc, hself, List.mem_append, List.mem_singleton] at hx
        rw [hdc]
        exact h.homed c x (hx.resolve_right hxt)
      · rw [hother d hdc] at hx
        exact h.homed d x hx
  · intro x hx
    have hxt : x ≠ t := by
      rintro rfl
      exact hrest hx
    rw [hcpu x hxt]
    exact h.taken x (List.mem_cons_of_mem _ hx)
  · have hsum := Census.sum_change (f := fun d => ((s.send c t).runqueue d : Multiset T))
      (g := fun d => (s.runqueue d : Multiset T)) c fun d hd => by rw [hother d hd]
    rw [hself, ← Multiset.coe_add] at hsum
    have hsent : ∑ d, ((s.send c t).runqueue d : Multiset T) = ∑ d, (s.runqueue d : Multiset T) + {t} := by
      refine add_right_cancel (hsum.trans ?_)
      rw [Multiset.coe_singleton, add_assoc, add_comm (s.runqueue c : Multiset T)]
    rw [hsent, ← h.threads, ← Multiset.cons_coe, ← Multiset.singleton_add, add_assoc]
  · have hshort := h.short
    rw [List.length_cons] at hshort
    omega
  · rw [← h.count, List.count_append, List.count_append, List.count_cons_of_ne ht]
  · intro d hd
    by_cases hdc : d = c
    · rw [hdc, hself, List.count_append, List.count_singleton, ← h.current c hc]
      simp [ht]
    · rw [hother d hdc]
      exact h.current d hd
  · intro d hd
    by_cases hdc : d = c
    · rw [hdc, hself, List.length_append, List.length_singleton]
      exact le_max_of_le_left hlt
    · rw [hother d hdc]
      exact h.lengths d hd
  · have hrooms := h.fits
    rw [room_cons_of_ne hc] at hrooms ⊢
    rw [room_congr fun d hd => hother d fun hdc => (List.nodup_cons.mp h.cpus).1 (hdc ▸ hd), hself, List.length_append,
      List.length_singleton]
    omega

theorem Sending.next (h : Sending curcpu curthread s₀ q (c :: cs) s k rest) (hc : c ≠ curcpu)
    (hk : k = 0 ∨ share s₀ ≤ (s.runqueue c).length) : Sending curcpu curthread s₀ q cs s k rest := by
  refine { h with cpus := (List.nodup_cons.mp h.cpus).2, fits := ?_ }
  have hrooms := h.fits
  rw [room_cons_of_ne hc] at hrooms
  omega

theorem Sending.mine (h : Sending curcpu curthread s₀ q (curcpu :: cs) s k rest) :
    Sending curcpu curthread s₀ q cs s k rest := by
  refine { h with cpus := (List.nodup_cons.mp h.cpus).2, fits := ?_ }
  simpa [room] using h.fits

theorem sendAll_sending (cs : List C) (h : Sending curcpu curthread s₀ q cs s k rest) :
    Prog.wp (sendAll quiet curcpu curthread (share s₀) cs k rest)
      (fun r s => Sending curcpu curthread s₀ q [] s r.1 r.2) E s :=
  sendAll_wp (I := Sending curcpu curthread s₀ q) (fun _ _ _ h => h.ne_nil) (fun _ _ _ _ h => h.mine)
    (fun _ _ _ _ _ h => h) (fun _ _ _ _ _ _ h => h.skip) (fun _ _ _ _ _ _ hc hlt ht h => h.send hc hlt ht)
    (fun _ _ _ _ _ hc hk h => h.next hc hk)
    (fun _ _ _ h => { h with cpus := List.nodup_nil, fits := Nat.zero_le _ }) cs h

/-- The start: the last threads of the own queue have been taken. -/
theorem Sending.start {l : List T} (hcs : cs.Nodup) (hall : ∀ c, c ∈ cs) (hhomed : Homed s₀)
    (hnodup : (s₀.runqueue curcpu).Nodup) (hq : s₀.runqueue curcpu = q ++ l)
    (hl : l.length = (s₀.runqueue curcpu).length - share s₀) :
    Sending curcpu curthread s₀ q cs (s₀.setQueue curcpu q) l.length l := by
  have hother : ∀ c, c ≠ curcpu → (s₀.setQueue curcpu q).runqueue c = s₀.runqueue c := fun c hc =>
    Function.update_of_ne hc _ _
  refine ⟨runqueue_setQueue _ _ _, hq ▸ hnodup, ?_, ?_, ?_, ⟨l, 0, by simp, rfl⟩, ?_, by rw [hq], ?_, ?_, hcs, ?_⟩
  · intro c x hx
    by_cases hc : c = curcpu
    · subst hc
      rw [runqueue_setQueue] at hx
      exact hhomed c x (hq ▸ List.mem_append_left _ hx)
    · rw [hother c hc] at hx
      exact hhomed c x hx
  · intro x hx
    have hmem : x ∈ s₀.runqueue curcpu := hq ▸ List.mem_append_right _ hx
    exact ⟨hhomed curcpu x hmem, hmem⟩
  · have hsum := Census.sum_change (f := fun d => ((s₀.setQueue curcpu q).runqueue d : Multiset T))
      (g := fun d => (s₀.runqueue d : Multiset T)) curcpu fun d hd => by rw [hother d hd]
    rw [runqueue_setQueue, hq, ← Multiset.coe_add] at hsum
    refine add_right_cancel (b := (q : Multiset T)) ?_
    rw [← hsum, add_assoc, add_comm (l : Multiset T)]
  · rw [hq, List.length_append]
  · intro c hc
    rw [hother c hc]
  · intro c hc
    rw [hother c hc]
    exact le_max_right _ _
  · rw [hl]
    refine (le_room hcs hall).trans_eq ?_
    unfold room
    congr 1
    refine List.map_congr_left fun c _ => ?_
    split_ifs with hc
    · rfl
    · rw [hother c hc]

/-- The end: what is left of the victims goes back to the own queue. -/
theorem Sending.balanced (h : Sending curcpu curthread s₀ q [] s k rest) (hq : q.length = share s₀) :
    Balanced curcpu curthread s₀ (s.setQueue curcpu (q ++ rest)) := by
  obtain ⟨u, j, hrest, hlen⟩ := h.unseen
  have hk : k = 0 := Nat.le_zero.mp h.fits
  obtain rfl : u = [] := List.length_eq_zero_iff.mp (hlen.trans hk)
  rw [List.nil_append] at hrest
  have hother : ∀ c, c ≠ curcpu → (s.setQueue curcpu (q ++ rest)).runqueue c = s.runqueue c := fun c hc =>
    Function.update_of_ne hc _ _
  have hone : rest.length ≤ if curthread ∈ s₀.runqueue curcpu then 1 else 0 := by
    have hnodup := (List.nodup_append.mp h.nodup).2.1
    rw [hrest, List.nodup_replicate] at hnodup
    rw [hrest, List.length_replicate]
    split_ifs with hmem
    · exact hnodup
    · by_contra hj
      have hin : curthread ∈ rest := by
        rw [hrest]
        exact List.mem_replicate.mpr ⟨by omega, rfl⟩
      exact hmem (h.taken curthread hin).2
  refine ⟨fun c => ?_, ?_, fun c => ?_, ?_, fun c x hx => ?_⟩
  · by_cases hc : c = curcpu
    · rw [hc, runqueue_setQueue, List.length_append]
      exact le_max_of_le_right h.short
    · rw [hother c hc]
      exact h.lengths c hc
  · rw [runqueue_setQueue, List.length_append, hq]
    omega
  · by_cases hc : c = curcpu
    · rw [hc, runqueue_setQueue]
      exact h.count
    · rw [hother c hc]
      exact h.current c hc
  · have hsum := Census.sum_change (f := fun d => ((s.setQueue curcpu (q ++ rest)).runqueue d : Multiset T))
      (g := fun d => (s.runqueue d : Multiset T)) curcpu fun d hd => by rw [hother d hd]
    rw [runqueue_setQueue, h.own, ← Multiset.coe_add] at hsum
    refine add_right_cancel (b := (q : Multiset T)) (hsum.trans ?_)
    rw [← h.threads, add_assoc, add_comm (q : Multiset T)]
  · by_cases hc : c = curcpu
    · subst hc
      rw [runqueue_setQueue, List.mem_append] at hx
      rcases hx with hx | hx
      · exact h.homed c x (h.own ▸ hx)
      · exact (h.taken x hx).1
    · rw [hother c hc] at hx
      exact h.homed c x hx

/-- **With the other CPUs quiet the load is balanced.** -/
theorem consider_balanced {allcpus : List C} (hcs : allcpus.Nodup) (hall : ∀ c, c ∈ allcpus) (hhomed : Homed s)
    (hnodup : (s.runqueue curcpu).Nodup) :
    Prog.wp (threadConsiderMigration quiet curcpu curthread allcpus) (fun _ t => Balanced curcpu curthread s t) E s := by
  have hlen : allcpus.length = Fintype.card C := by
    simpa using sum_allcpus hcs hall fun _ => 1
  have hcounts : sampleCounts quiet curcpu allcpus 0 0 s = _ := sampleCounts_quiet allcpus 0 0
  rw [if_pos (hall curcpu), zero_add, sum_allcpus hcs hall] at hcounts
  unfold threadConsiderMigration
  rw [Prog.wp_bind, Prog.wp, hcounts, hlen]
  show Prog.wp (if (s.runqueue curcpu).length < share s then _ else _) _ _ s
  rw [Prog.wp_ite]
  refine ⟨fun hlt => ?_, fun hge => ?_⟩
  · exact ⟨fun c => le_max_right _ _, by omega, fun _ => rfl, rfl, hhomed⟩
  rw [Prog.wp_bind, Prog.wp_modify, Prog.wp_bind]
  refine takeVictims_wp (Nat.sub_le _ _) fun q l hq hl => ?_
  have hqlen : q.length = share s := by
    have hboth := congrArg List.length hq
    rw [List.length_append] at hboth
    have hl' : l.length = (s.runqueue curcpu).length - share s := hl
    have hq' : (s.runqueue curcpu).length = q.length + l.length := hboth
    omega
  have hstart : Sending curcpu curthread s q allcpus (s.setQueue curcpu q) l.length l :=
    Sending.start hcs hall hhomed hnodup hq hl
  rw [hl] at hstart
  rw [Prog.wp_bind]
  refine Prog.wp_mono (sendAll_sending allcpus hstart) (fun r t hr => ?_) fun _ _ he => he
  have hbalanced := hr.balanced hqlen
  rw [Prog.wp_ite]
  refine ⟨fun hnil => ?_, fun _ => ?_⟩
  · have hset : t.setQueue curcpu (q ++ r.2) = t := by
      unfold Queues.setQueue
      rw [Function.update_eq_self_iff.mpr (by rw [hnil, List.append_nil, hr.own])]
    rw [hset] at hbalanced
    exact hbalanced
  · rw [← hr.own] at hbalanced
    exact hbalanced

/-- **`thread_consider_migration`.** On any number of CPUs with any run queues:
if the other CPUs leave the queues alone, the load is balanced; and if they only
take nothing from the queue of the calling CPU, no thread is taken from an empty
list. -/
theorem thread_consider_migration_balances (allcpus : List C) (hcs : allcpus.Nodup) (hall : ∀ c, c ∈ allcpus)
    (curcpu : C) (curthread : T) (s : Queues C T) :
    (Homed s → (s.runqueue curcpu).Nodup →
      ∃ t, threadConsiderMigration quiet curcpu curthread allcpus s = .ok () t ∧ Balanced curcpu curthread s t) ∧
    ∀ others : Others C T, others.Spare curcpu →
      threadConsiderMigration others curcpu curthread allcpus s ≠ .stop := by
  refine ⟨fun hhomed hnodup => ?_, fun others h => ?_⟩
  · have hwp : Prog.wp (threadConsiderMigration quiet curcpu curthread allcpus) _ (fun _ _ => False) s :=
      consider_balanced hcs hall hhomed hnodup
    unfold Prog.wp at hwp
    cases hrun : threadConsiderMigration quiet curcpu curthread allcpus s with
    | ok r t =>
      rw [hrun] at hwp
      exact ⟨t, rfl, hwp⟩
    | fail e t => exact e.elim
    | stop =>
      rw [hrun] at hwp
      exact hwp.elim
  · exact Prog.wp_ne_stop (consider_safe (E := fun _ _ => False) h allcpus s)

/-- Four threads on the CPU `false`, and none on the CPU `true`. -/
def fourThreads : Queues Bool ℕ := ⟨fun c => if c then [] else [1, 2, 3, 4], fun _ => false, fun c => c, []⟩

/-- The CPU `false`, whose current thread is the last on its queue, gives one
thread to the other CPU. -/
theorem thread_consider_migration_four : ∃ t, threadConsiderMigration quiet false 4 [false, true] fourThreads = .ok () t ∧
    Balanced false 4 fourThreads t := by
  refine (thread_consider_migration_balances [false, true] (by decide) (by decide) false 4 fourThreads).1 ?_ (by decide)
  intro c x hx
  cases c with
  | false => rfl
  | true => cases hx

end Balance

end Migration

end Os161
