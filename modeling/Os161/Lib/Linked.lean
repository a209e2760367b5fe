/-
# Singly linked lists in memory

`Linked next h xs`: from the pointer `h`, the links `next` run through the
cells `xs` and end in the null pointer 0. A list that ends has no cycle
(`Linked.nodup`), is determined by its head (`Linked.unique`) and reads only
its own links (`Linked.congr`).

`findLink` is the walk `for (guy = &head; *guy; guy = &(*guy)->next)` that
looks for the pointer to a cell; the pointer is the head (`none`) or the link
of a cell. Redirecting what it finds takes the cell out (`Linked.unlink`).
-/
import Mathlib.Tactic

/-- The links `next` lead from `h` through `xs` to the null pointer. -/
def Linked (next : ℕ → ℕ) (h : ℕ) : List ℕ → Prop
  | [] => h = 0
  | x :: xs => h = x ∧ x ≠ 0 ∧ Linked next (next x) xs

namespace Linked

variable {next next' : ℕ → ℕ}

theorem head_zero {xs : List ℕ} (hl : Linked next 0 xs) : xs = [] := by
  cases xs with
  | nil => rfl
  | cons x xs => exact absurd hl.1.symm hl.2.1

/-- A list is determined by its head. -/
theorem unique : ∀ {xs ys : List ℕ} {h : ℕ}, Linked next h xs → Linked next h ys → xs = ys
  | [], ys, _, hx, hy => by
    subst hx
    exact (head_zero hy).symm
  | x :: xs, [], _, hx, hy => absurd (hx.1.symm.trans hy) hx.2.1
  | x :: xs, y :: ys, _, hx, hy => by
    obtain rfl : x = y := hx.1.symm.trans hy.1
    rw [unique hx.2.2 hy.2.2]

/-- The part of a list from one of its cells on. -/
theorem tail : ∀ {xs ys : List ℕ} {h x : ℕ}, Linked next h (xs ++ x :: ys) → Linked next x (x :: ys)
  | [], _, _, _, hl => ⟨rfl, hl.2⟩
  | _ :: _, _, _, _, hl => tail hl.2.2

/-- A list that ends has no cycle. -/
theorem nodup : ∀ {xs : List ℕ} {h : ℕ}, Linked next h xs → xs.Nodup
  | [], _, _ => List.nodup_nil
  | x :: xs, _, hl => by
    refine List.nodup_cons.mpr ⟨fun hx => ?_, nodup hl.2.2⟩
    -- the list would go on from `x` in two ways
    obtain ⟨as, bs, rfl⟩ := List.append_of_mem hx
    have h1 : Linked next x (x :: (as ++ x :: bs)) := ⟨rfl, hl.2⟩
    have h2 : Linked next x (x :: bs) := tail hl.2.2
    have := congrArg List.length (unique h1 h2)
    simp only [List.length_cons, List.length_append] at this
    omega

/-- A list reads its own links only. -/
theorem congr : ∀ {xs : List ℕ} {h : ℕ}, Linked next h xs → (∀ x ∈ xs, next' x = next x) → Linked next' h xs
  | [], _, hl, _ => hl
  | x :: xs, _, hl, hc => by
    refine ⟨hl.1, hl.2.1, ?_⟩
    rw [hc x List.mem_cons_self]
    exact congr hl.2.2 fun y hy => hc y (List.mem_cons_of_mem _ hy)

/-- A cell put in front. -/
theorem push {xs : List ℕ} {h x : ℕ} (hl : Linked next h xs) (hx : x ≠ 0) (hn : next' x = h)
    (hc : ∀ y ∈ xs, next' y = next y) : Linked next' x (x :: xs) :=
  ⟨rfl, hx, hn ▸ hl.congr hc⟩

/-- A cell taken out: the link of the cell before it, the last of `l`, is
redirected. -/
theorem unlink {x : ℕ} {ys : List ℕ} : ∀ {l : List ℕ} {h q : ℕ}, Linked next h (l ++ x :: ys) →
    l.getLast? = some q → Linked (Function.update next q (next x)) h (l ++ ys)
  | [], _, _, _, hq => nomatch hq
  | [a], _, q, hl, hq => by
    obtain rfl : a = q := by simpa using hq
    have hnd := hl.nodup
    obtain ⟨rfl, hne, -, -, hys⟩ := hl
    refine ⟨rfl, hne, ?_⟩
    rw [Function.update_self]
    refine hys.congr fun y hy => Function.update_of_ne ?_ _ _
    rintro rfl
    simp [hy] at hnd
  | a :: b :: as, h, q, hl, hq => by
    have hnd := hl.nodup
    obtain ⟨rfl, hne, hl⟩ := hl
    have hq' : (b :: as).getLast? = some q := by simpa using hq
    have haq : h ≠ q := fun he => (List.nodup_cons.mp hnd).1
      (List.mem_append_left _ (he ▸ List.mem_of_getLast? hq'))
    refine ⟨rfl, hne, ?_⟩
    rw [Function.update_of_ne haq]
    exact unlink (l := b :: as) hl hq'

end Linked

/-- The walk for the pointer to `x`: the head (`none`) or the link of the cell
before. `cur` is what the pointer `guy` points to; the fuel runs out (outer
`none`) only on a list longer than it. -/
def findLink (next : ℕ → ℕ) (x : ℕ) : ℕ → Option ℕ → ℕ → Option (Option (Option ℕ))
  | 0, _, _ => none
  | n + 1, guy, cur =>
    if cur = 0 then some none
    else if cur = x then some (some guy)
    else findLink next x n (some cur) (next cur)

/-- The walk finds the pointer to a cell of the list: the link of the cell
before it, or where the walk started. -/
theorem findLink_mem {next : ℕ → ℕ} {x : ℕ} {ys : List ℕ} :
    ∀ {as : List ℕ} {n : ℕ} {guy : Option ℕ} {cur : ℕ}, Linked next cur (as ++ x :: ys) → as.length < n →
      findLink next x n guy cur = some (some (as.getLast?.or guy))
  | [], n + 1, guy, cur, hl, _ => by
    obtain ⟨rfl, hne, -⟩ := hl
    rw [findLink, if_neg hne, if_pos rfl]
    rfl
  | a :: as, n + 1, guy, cur, hl, hn => by
    have hnd := hl.nodup
    obtain ⟨rfl, hne, hl⟩ := hl
    have hax : cur ≠ x := by
      rintro rfl
      simp at hnd
    rw [findLink, if_neg hne, if_neg hax, findLink_mem hl (by simpa using hn)]
    cases as with
    | nil => rfl
    | cons b bs =>
      obtain ⟨l, hlast⟩ := Option.isSome_iff_exists.mp (List.getLast?_isSome.mpr (List.cons_ne_nil b bs))
      simp [hlast]
