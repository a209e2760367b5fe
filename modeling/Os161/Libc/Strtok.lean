/-
# `strtok_r` enumerates the tokens of a string

`common/libc/string/strtok_r.c`. The string is the list of its bytes with the
terminating 0, and a pointer into it is an index; a read or a write past the
end of the list stops the machine, so a call that returns touched nothing but
the string. A loop that has not ended after `fuel` turns counts as stopped
too.

The tokens of a string are the pieces between separators that are not empty
(`tokens`). Between two calls the context is where the part of the string
that is left begins (`Rest`); one call takes the first token of it
(`strtokR_next`), or finds that there is none.
-/
import Os161.Lib.Wlp

namespace Os161

/-- The string and the caller's context; the null pointer is `none`. -/
structure StrtokState where
  buf : List UInt8
  context : Option ℕ

/-- A call over the string. -/
abbrev StrtokM := Prog Empty StrtokState

/-- Read a byte. -/
def getc (i : ℕ) : StrtokM UInt8 := do
  match (← Prog.gets StrtokState.buf)[i]? with
  | some c => return c
  | none => Prog.stop

/-- Write a byte. -/
def setc (i : ℕ) (c : UInt8) : StrtokM Unit := do
  Prog.assert (i < (← Prog.gets StrtokState.buf).length)
  Prog.modify fun s => { s with buf := s.buf.set i c }

/-- `strchr` on a string without its terminating 0: whether the byte is found. -/
def strchr : List UInt8 → UInt8 → Bool
  | [], ch => ch == 0
  | c :: s, ch => c == ch || strchr s ch

/-- `while (*p && P(*p)) p++`. -/
def skipWhile (P : UInt8 → Bool) : ℕ → ℕ → StrtokM ℕ
  | 0, _ => Prog.stop
  | fuel + 1, p => do
    let c ← getc p
    if c ≠ 0 ∧ P c then skipWhile P fuel (p + 1) else return p

/-- `strtok_r`. -/
def strtokR (fuel : ℕ) (string : Option ℕ) (seps : List UInt8) : StrtokM (Option ℕ) := do
  if string.isSome then
    Prog.modify fun s => { s with context := string }
  match ← Prog.gets StrtokState.context with
  | none => return none
  | some head =>
    let head ← skipWhile (strchr seps) fuel head
    if (← getc head) = 0 then
      Prog.modify fun s => { s with context := none }
      return none
    else
      let tail ← skipWhile (fun c => !strchr seps c) fuel head
      if (← getc tail) = 0 then
        Prog.modify fun s => { s with context := none }
      else
        setc tail 0
        Prog.modify fun s => { s with context := some (tail + 1) }
      return some head

/-- A first call with the string, then `n` calls with the null pointer. -/
def strtokAll (fuel : ℕ) (seps : List UInt8) : ℕ → Option ℕ → StrtokM (List (Option ℕ))
  | 0, _ => return []
  | n + 1, string => do
    let r ← strtokR fuel string seps
    let rs ← strtokAll fuel seps n none
    return r :: rs

/-- The string at a pointer. -/
def cstr (buf : List UInt8) (p : ℕ) : List UInt8 := (buf.drop p).takeWhile (· ≠ 0)

/-! ### Tokens -/

section Tokens

variable {α : Type*} (P : α → Bool)

/-- The maximal nonempty runs without separators. -/
def tokens (s : List α) : List (List α) := (s.splitOnP P).filter (!·.isEmpty)

variable {P} {s w : List α} {c : α}

theorem tokens_cons_sep (hc : P c = true) : tokens P (c :: s) = tokens P s := by
  unfold tokens
  rw [List.splitOnP_cons_eq_if_modifyHead, if_pos hc]
  rfl

/-- Separators before a string. -/
theorem tokens_seps {pre : List α} (h : ∀ c ∈ pre, P c = true) : tokens P (pre ++ s) = tokens P s := by
  induction pre with
  | nil => rfl
  | cons c pre ih =>
    rw [List.cons_append, tokens_cons_sep (h c List.mem_cons_self)]
    exact ih fun d hd => h d (List.mem_cons_of_mem c hd)

/-- A token and a separator. -/
theorem tokens_word (hw : w ≠ []) (h : ∀ c ∈ w, P c = false) (hc : P c = true) :
    tokens P (w ++ c :: s) = w :: tokens P s := by
  unfold tokens
  rw [List.splitOnP_append_cons_of_forall_mem h c hc, List.filter_cons_of_pos (by simpa using hw)]

/-- A token at the end. -/
theorem tokens_last (hw : w ≠ []) (h : ∀ c ∈ w, P c = false) : tokens P w = [w] := by
  unfold tokens
  rw [List.splitOnP_eq_singleton h, List.filter_cons_of_pos (by simpa using hw), List.filter_nil]

/-- A string begins with a run without separators. -/
theorem split_word (P : α → Bool) (s : List α) : ∃ w tl, s = w ++ tl ∧ (∀ c ∈ w, P c = false) ∧
    (tl = [] ∨ ∃ c tl', tl = c :: tl' ∧ P c = true) := by
  induction s with
  | nil => exact ⟨[], [], rfl, by simp, Or.inl rfl⟩
  | cons c s ih =>
    cases hc : P c with
    | true => exact ⟨[], c :: s, rfl, by simp, Or.inr ⟨c, s, rfl, hc⟩⟩
    | false =>
      obtain ⟨w, tl, rfl, hw, htl⟩ := ih
      exact ⟨c :: w, tl, rfl, List.forall_mem_cons.mpr ⟨hc, hw⟩, htl⟩

/-- **A string is separators only, or has a first token.** -/
theorem split_token (P : α → Bool) (s : List α) : (∀ c ∈ s, P c = true) ∨
    ∃ pre c w tl, s = pre ++ (c :: w) ++ tl ∧ (∀ d ∈ pre, P d = true) ∧ (∀ d ∈ c :: w, P d = false) ∧
      (tl = [] ∨ ∃ c tl', tl = c :: tl' ∧ P c = true) := by
  induction s with
  | nil => exact Or.inl (by simp)
  | cons c s ih =>
    cases hc : P c with
    | true =>
      obtain h | ⟨pre, d, w, tl, rfl, hpre, hw, htl⟩ := ih
      · exact Or.inl (List.forall_mem_cons.mpr ⟨hc, h⟩)
      · exact Or.inr ⟨c :: pre, d, w, tl, rfl, List.forall_mem_cons.mpr ⟨hc, hpre⟩, hw, htl⟩
    | false =>
      obtain ⟨w, tl, rfl, hw, htl⟩ := split_word P s
      exact Or.inr ⟨[], c, w, tl, rfl, by simp, List.forall_mem_cons.mpr ⟨hc, hw⟩, htl⟩

end Tokens

theorem strchr_eq {seps : List UInt8} {c : UInt8} (hc : c ≠ 0) : strchr seps c = decide (c ∈ seps) := by
  induction seps with
  | nil => simpa [strchr] using hc
  | cons d seps ih =>
    rw [strchr, ih]
    by_cases h : c = d
    · simp [h]
    · simp [h, Ne.symm h]

/-! ### One call -/

section Call

variable {s : StrtokState} {p : ℕ} {c : UInt8} {E : Empty → StrtokState → Prop}

theorem getc_wp {tl : List UInt8} (h : s.buf.drop p = c :: tl) (Q : UInt8 → StrtokState → Prop) :
    Prog.wp (getc p) Q E s ↔ Q c s := by
  have hc : s.buf[p]? = some c := by
    have := congrArg (·[0]?) h
    simpa using this
  simp only [getc, Prog.wp_bind, Prog.wp_gets, hc, Prog.wp_pure]

theorem drop_add {l a b : List UInt8} (h : l.drop p = a ++ b) : l.drop (p + a.length) = b := by
  rw [← List.drop_drop, h, List.drop_left]

/-- A loop that skips bytes stops at the first one that is not to be skipped. -/
theorem skipWhile_wp {P : UInt8 → Bool} {fuel : ℕ} {pre tl : List UInt8} (hpre : ∀ d ∈ pre, d ≠ 0 ∧ P d = true)
    (hc : c = 0 ∨ P c = false) (h : s.buf.drop p = pre ++ c :: tl) (hfuel : pre.length < fuel)
    {Q : ℕ → StrtokState → Prop} (hQ : Q (p + pre.length) s) : Prog.wp (skipWhile P fuel p) Q E s := by
  induction pre generalizing p fuel with
  | nil =>
    obtain ⟨fuel, rfl⟩ : ∃ k, fuel = k + 1 := ⟨fuel - 1, by simp at hfuel; omega⟩
    rw [skipWhile, Prog.wp_bind, getc_wp h, Prog.wp_ite]
    refine ⟨fun hskip => ?_, fun _ => hQ⟩
    rcases hc with rfl | hc
    · exact absurd rfl hskip.1
    · exact absurd hskip.2 (by simp [hc])
  | cons d pre ih =>
    obtain ⟨fuel, rfl⟩ : ∃ k, fuel = k + 1 := ⟨fuel - 1, by simp at hfuel; omega⟩
    have hd := hpre d List.mem_cons_self
    have hnext : s.buf.drop (p + 1) = pre ++ c :: tl := by
      rw [← List.drop_drop, h]
      rfl
    rw [skipWhile, Prog.wp_bind, getc_wp h, Prog.wp_ite]
    refine ⟨fun _ => ?_, fun hn => absurd hd hn⟩
    refine ih (fun e he => hpre e (List.mem_cons_of_mem d he)) hnext (by simpa using hfuel) ?_
    rwa [List.length_cons, ← Nat.add_assoc, Nat.add_right_comm] at hQ

/-- The string `w` stands at `p`. -/
def StandsAt (buf : List UInt8) (p : ℕ) (w : List UInt8) : Prop := ∃ tl, buf.drop p = w ++ 0 :: tl

theorem StandsAt.cstr {buf w : List UInt8} (h : StandsAt buf p w) (hw : (0 : UInt8) ∉ w) : cstr buf p = w := by
  obtain ⟨tl, htl⟩ := h
  have hall : ∀ d ∈ w, (decide (d ≠ 0)) = true := fun d hd => decide_eq_true fun h0 => hw (h0 ▸ hd)
  rw [Os161.cstr, htl, List.takeWhile_append_of_pos hall]
  simp

/-- A string stays while its bytes do. -/
theorem StandsAt.congr {buf buf' w : List UInt8} (h : StandsAt buf p w)
    (hb : ∀ j < p + w.length + 1, buf'[j]? = buf[j]?) : StandsAt buf' p w := by
  obtain ⟨tl, htl⟩ := h
  refine ⟨(buf'.drop p).drop (w.length + 1), ?_⟩
  have htake : (buf'.drop p).take (w.length + 1) = w ++ [0] := by
    refine List.ext_getElem? fun j => ?_
    have hj : (buf.drop p)[j]? = (w ++ 0 :: tl)[j]? := by rw [htl]
    rw [List.getElem?_take, List.getElem?_drop]
    rw [List.getElem?_drop] at hj
    split_ifs with hlt
    · rw [hb _ (by omega), hj]
      rcases Nat.lt_or_ge j w.length with h1 | h1
      · rw [List.getElem?_append_left h1, List.getElem?_append_left h1]
      · have : j = w.length := by omega
        subst this
        simp
    · exact (List.getElem?_eq_none (by simp; omega)).symm
  calc buf'.drop p = (buf'.drop p).take (w.length + 1) ++ (buf'.drop p).drop (w.length + 1) :=
        (List.take_append_drop _ _).symm
    _ = w ++ 0 :: (buf'.drop p).drop (w.length + 1) := by rw [htake]; simp

/-- What is left to enumerate: the tokens of the string at the context, which
is past `lo`. -/
def Rest (fuel : ℕ) (seps : List UInt8) (ts : List (List UInt8)) (lo : ℕ) (s : StrtokState) : Prop :=
  match s.context with
  | none => ts = []
  | some q => lo ≤ q ∧ ∃ l, s.buf.drop q = l ++ [0] ∧ (0 : UInt8) ∉ l ∧ l.length < fuel ∧ tokens (· ∈ seps) l = ts

/-- What a call answers: the next token, standing past `lo`, or the null
pointer if there is none. -/
def Answer (fuel : ℕ) (seps : List UInt8) (ts : List (List UInt8)) (lo : ℕ) (r : Option ℕ) (s : StrtokState) : Prop :=
  match ts with
  | [] => r = none ∧ Rest fuel seps [] lo s
  | w :: ts => ∃ i, r = some i ∧ lo ≤ i ∧ (0 : UInt8) ∉ w ∧ StandsAt s.buf i w ∧
      Rest fuel seps ts (i + w.length + 1) s

/-- **One call** takes the first token that is left, and touches nothing before
the context. -/
theorem strtokR_next {fuel lo : ℕ} {seps : List UInt8} {ts : List (List UInt8)} (h : Rest fuel seps ts lo s) :
    Prog.wp (strtokR fuel none seps)
      (fun r t => (∀ j < lo, t.buf[j]? = s.buf[j]?) ∧ Answer fuel seps ts lo r t) E s := by
  simp only [strtokR, Option.isSome_none, Bool.false_eq_true, if_false, Prog.wp_bind, Prog.wp_gets]
  cases hctx : s.context with
  | none =>
    have hts : ts = [] := by simpa [Rest, hctx] using h
    subst hts
    exact ⟨fun _ _ => rfl, rfl, h⟩
  | some q =>
    obtain ⟨hlo, l, hl, h0, hfuel, rfl⟩ : lo ≤ q ∧ ∃ l, s.buf.drop q = l ++ [0] ∧ (0 : UInt8) ∉ l ∧ l.length < fuel ∧
        tokens (· ∈ seps) l = ts := by simpa [Rest, hctx] using h
    have hsep : ∀ d ∈ l, strchr seps d = decide (d ∈ seps) := fun d hd => strchr_eq fun hz => h0 (hz ▸ hd)
    have hnz : ∀ d ∈ l, d ≠ 0 := fun d hd hz => h0 (hz ▸ hd)
    rcases split_token (fun c => decide (c ∈ seps)) l with hall | ⟨pre, c, w, tl, rfl, hpre, hw, htl⟩
    · have htok : tokens (fun c => decide (c ∈ seps)) l = [] := by
        have := tokens_seps (s := []) hall
        rwa [List.append_nil] at this
      dsimp only
      rw [Prog.wp_bind]
      refine skipWhile_wp (fun d hd => ⟨hnz d hd, (hsep d hd).trans (hall d hd)⟩) (Or.inl rfl) hl hfuel ?_
      rw [Prog.wp_bind, getc_wp (drop_add hl), if_pos rfl, htok]
      exact ⟨fun _ _ => rfl, rfl, rfl⟩
    · simp only [List.append_assoc, List.cons_append, List.mem_append, List.mem_cons, List.length_append,
        List.length_cons] at hl hsep hnz hfuel
      have hc : c ≠ 0 := hnz c (Or.inr (Or.inl rfl))
      have hcsep : strchr seps c = false := (hsep c (Or.inr (Or.inl rfl))).trans (hw c List.mem_cons_self)
      have hhead := drop_add hl
      dsimp only
      rw [Prog.wp_bind]
      refine skipWhile_wp (fun d hd => ⟨hnz d (Or.inl hd), (hsep d (Or.inl hd)).trans (hpre d hd)⟩) (Or.inr hcsep) hl
        (by omega) ?_
      rw [Prog.wp_bind, getc_wp hhead, if_neg hc, Prog.wp_bind]
      have hrun : ∀ d ∈ c :: w, d ≠ 0 ∧ (!strchr seps d) = true := fun d hd => by
        have hd' := List.mem_cons.mp hd
        have hmem : d ∈ pre ∨ d = c ∨ d ∈ w ∨ d ∈ tl := Or.inr (hd'.imp_right Or.inl)
        exact ⟨hnz d hmem, by rw [hsep d hmem, hw d hd]; rfl⟩
      have h0w : (0 : UInt8) ∉ c :: w := fun hz => (hrun 0 hz).1 rfl
      obtain rfl | ⟨d, tl, rfl, hd⟩ := htl
      · -- the token ends the string
        have htok : tokens (fun c => decide (c ∈ seps)) (pre ++ (c :: w) ++ []) = [c :: w] := by
          rw [List.append_nil, tokens_seps hpre, tokens_last (by simp) hw]
        refine skipWhile_wp hrun (Or.inl rfl) hhead (by simp; omega) ?_
        rw [Prog.wp_bind, getc_wp (drop_add hhead), if_pos rfl, htok]
        exact ⟨fun _ _ => rfl, _, rfl, by omega, h0w, ⟨[], hhead⟩, rfl⟩
      · -- the separator after the token is overwritten
        have hmem : d ∈ pre ∨ d = c ∨ d ∈ w ∨ d ∈ d :: tl := Or.inr (Or.inr (Or.inr List.mem_cons_self))
        have htok : tokens (fun c => decide (c ∈ seps)) (pre ++ (c :: w) ++ d :: tl) =
            (c :: w) :: tokens (fun c => decide (c ∈ seps)) tl := by
          rw [List.append_assoc, tokens_seps hpre, tokens_word (by simp) hw hd]
        have htail := drop_add (show s.buf.drop _ = (c :: w) ++ (d :: tl ++ [0]) from hhead)
        refine skipWhile_wp hrun (Or.inr (by rw [hsep d hmem, hd]; rfl)) hhead (by simp; omega) ?_
        rw [Prog.wp_bind, getc_wp htail, if_neg (hnz d hmem), htok]
        simp only [setc, Prog.wp_bind, Prog.wp_gets, Prog.wp_assert, Prog.wp_modify, Prog.wp_pure]
        have hlen : q + pre.length + (c :: w).length < s.buf.length := by
          by_contra hge
          rw [List.drop_eq_nil_of_le (by omega)] at htail
          cases htail
        refine ⟨hlen, fun j hj => List.getElem?_set_ne (by omega), _, rfl, by omega, h0w, ⟨tl ++ [0], ?_⟩, by omega, tl, ?_,
          fun hz => h0 (by simp [hz]), by simp at hfuel; omega, rfl⟩
        · rw [List.drop_set, if_neg (by omega), hhead, Nat.add_sub_cancel_left]
          simp
        · rw [List.drop_set, if_pos (by omega)]
          exact drop_add (show _ = [d] ++ (tl ++ [0]) from htail)

end Call

/-! ### The calls -/

/-- **The sequence of calls**, read in the memory they leave. -/
theorem strtokAll_rest {fuel : ℕ} {seps : List UInt8} (n : ℕ) {ts : List (List UInt8)} {lo : ℕ} {s : StrtokState}
    (h : Rest fuel seps ts lo s) {E : Empty → StrtokState → Prop} :
    Prog.wp (strtokAll fuel seps n none)
      (fun rs t => (∀ j < lo, t.buf[j]? = s.buf[j]?) ∧ rs.map (Option.map (cstr t.buf)) = (List.range n).map (ts[·]?))
      E s := by
  induction n generalizing ts lo s with
  | zero => exact ⟨fun _ _ => rfl, rfl⟩
  | succ n ih =>
    rw [strtokAll, Prog.wp_bind]
    refine Prog.wp_mono (strtokR_next h) (fun r t ht => ?_) fun _ _ he => he
    obtain ⟨hkeep, hans⟩ := ht
    rw [Prog.wp_bind, List.range_succ_eq_map]
    cases ts with
    | nil =>
      obtain ⟨rfl, hrest⟩ := hans
      refine Prog.wp_mono (ih hrest) (fun rs u hu => ⟨fun j hj => (hu.1 j hj).trans (hkeep j hj), ?_⟩) fun _ _ he => he
      rw [List.map_cons, List.map_cons, List.map_map, hu.2]
      rfl
    | cons w ts =>
      obtain ⟨i, rfl, hi, h0, hw, hrest⟩ := hans
      refine Prog.wp_mono (ih hrest) (fun rs u hu => ⟨fun j hj => (hu.1 j (by omega)).trans (hkeep j hj), ?_⟩) fun _ _ he => he
      have hcstr : cstr u.buf i = w := (hw.congr hu.1).cstr h0
      rw [List.map_cons, List.map_cons, List.map_map, hu.2, Option.map_some, hcstr]
      rfl

/-- **`strtok_r` enumerates the tokens**: call number `k` answers with token
`k` of the original string, and with the null pointer once there are no more.
The calls stay inside the string, and the tokens handed out stay as they are. -/
theorem strtok_r_tokens {string seps : List UInt8} (hs : (0 : UInt8) ∉ string) {fuel : ℕ} (hfuel : string.length < fuel)
    (n : ℕ) (context : Option ℕ) :
    Prog.wp (strtokAll fuel seps n (some 0))
      (fun rs t => rs.map (Option.map (cstr t.buf)) = (List.range n).map ((tokens (· ∈ seps) string)[·]?))
      (fun _ _ => False) ⟨string ++ [0], context⟩ := by
  have hrest : Rest fuel seps (tokens (· ∈ seps) string) 0 ⟨string ++ [0], some 0⟩ :=
    ⟨le_rfl, string, rfl, hs, hfuel, rfl⟩
  cases n with
  | zero => rfl
  | succ n =>
    have hall := strtokAll_rest (n + 1) hrest (E := fun _ _ => False)
    exact Prog.wp_mono hall (fun rs t ht => ht.2) fun _ _ he => he

/-- Separators before, between and after the tokens. -/
theorem strtok_r_tokens_two :
    Prog.wp (strtokAll 10 [32] 4 (some 0))
      (fun rs t => rs.map (Option.map (cstr t.buf)) = [some [97], some [98, 99], none, none])
      (fun _ _ => False) ⟨[32, 97, 32, 32, 98, 99, 32] ++ [0], none⟩ :=
  strtok_r_tokens (show (0 : UInt8) ∉ [32, 97, 32, 32, 98, 99, 32] by decide) (by decide) 4 none

end Os161
