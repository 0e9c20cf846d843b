import Mathlib.Logic.Equiv.Basic
import Mathlib.Data.Finset.Card
import Mathlib.Data.Finset.Range

/-!
# Ownership

A heap of cells and variables that may hold a pointer to a cell each.  A cell that is
freed is never used again, so a pointer to it stays dangling.

The cells are owned when no two variables hold the same pointer and some variable holds
a pointer to every cell in use.  The rules say what keeps them owned and what the
variables point to then.
-/

namespace TryAndLearn

structure Owned {ι β : Type*} (heap : List (Option β)) (holds : ι → Option Nat) : Prop where
  unique : ∀ {i j p}, holds i = some p → holds j = some p → i = j
  bound : ∀ {i p}, holds i = some p → p < heap.length
  owner : ∀ {p b}, heap[p]? = some (some b) → ∃ i, holds i = some p

/-- What variable `i` points to. -/
def target {ι β : Type*} (heap : List (Option β)) (holds : ι → Option Nat) (i : ι) : Option β :=
  (holds i).bind fun p => heap[p]?.join

namespace Owned

variable {ι β : Type*} {heap : List (Option β)} {holds : ι → Option Nat} {i j : ι} {p : Nat}
  {b : β}

theorem target_of_holds (h : holds i = some p) : target heap holds i = heap[p]?.join := by
  rw [target, h]
  rfl

theorem target_eq_some_iff :
    target heap holds i = some b ↔ ∃ p, holds i = some p ∧ heap[p]? = some (some b) := by
  simp [target, Option.bind_eq_some_iff, Option.join_eq_some_iff]

theorem empty (h : ∀ i, holds i = none) : Owned ([] : List (Option β)) holds where
  unique hi := by simp [h] at hi
  bound hi := by simp [h] at hi
  owner hp := by simp at hp

/-- The variables may exchange what they hold. -/
theorem comp (h : Owned heap holds) (e : Equiv.Perm ι) : Owned heap (holds ∘ e) where
  unique hi hj := e.injective (h.unique hi hj)
  bound hi := h.bound hi
  owner hp := by
    obtain ⟨i, hi⟩ := h.owner hp
    exact ⟨e.symm i, by simpa using hi⟩

theorem free (h : Owned heap holds) (p : Nat) : Owned (heap.set p none) holds where
  unique := h.unique
  bound hi := by
    rw [List.length_set]
    exact h.bound hi
  owner {q b} hq := by
    by_cases hqp : p = q
    · subst hqp
      rw [List.getElem?_set_self'] at hq
      cases hp : heap[p]? <;> simp [hp] at hq
    · rw [List.getElem?_set_ne hqp] at hq
      exact h.owner hq

theorem store (h : Owned heap holds) (hi : holds i = some p) (b : β) :
    Owned (heap.set p (some b)) holds where
  unique := h.unique
  bound hk := by
    rw [List.length_set]
    exact h.bound hk
  owner {q c} hq := by
    by_cases hqp : p = q
    · exact ⟨i, by rw [hi, hqp]⟩
    · rw [List.getElem?_set_ne hqp] at hq
      exact h.owner hq

variable [DecidableEq ι]

/-- A variable that points to nothing may forget its pointer. -/
theorem forget (h : Owned heap holds) (hi : target heap holds i = none) :
    Owned heap (Function.update holds i none) where
  unique {k l q} hk hl := by
    by_cases hki : k = i
    · simp [hki] at hk
    · by_cases hli : l = i
      · simp [hli] at hl
      · rw [Function.update_of_ne hki] at hk
        rw [Function.update_of_ne hli] at hl
        exact h.unique hk hl
  bound {k q} hk := by
    by_cases hki : k = i
    · simp [hki] at hk
    · rw [Function.update_of_ne hki] at hk
      exact h.bound hk
  owner {q b} hq := by
    obtain ⟨k, hk⟩ := h.owner hq
    have hki : k ≠ i := by
      intro hki
      rw [hki] at hk
      have := target_eq_some_iff.mpr ⟨q, hk, hq⟩
      simp [hi] at this
    exact ⟨k, by rw [Function.update_of_ne hki, hk]⟩

/-- A variable that points to nothing may get a new cell. -/
theorem alloc (h : Owned heap holds) (hi : target heap holds i = none) (b : β) :
    Owned (heap ++ [some b]) (Function.update holds i (some heap.length)) where
  unique {k l q} hk hl := by
    by_cases hki : k = i <;> by_cases hli : l = i
    · rw [hki, hli]
    · rw [hki, Function.update_self] at hk
      rw [Function.update_of_ne hli] at hl
      have := h.bound hl
      simp only [Option.some.injEq] at hk
      omega
    · rw [hli, Function.update_self] at hl
      rw [Function.update_of_ne hki] at hk
      have := h.bound hk
      simp only [Option.some.injEq] at hl
      omega
    · rw [Function.update_of_ne hki] at hk
      rw [Function.update_of_ne hli] at hl
      exact h.unique hk hl
  bound {k q} hk := by
    rw [List.length_append]
    by_cases hki : k = i
    · rw [hki, Function.update_self] at hk
      simp only [Option.some.injEq] at hk
      simp only [List.length_singleton]
      omega
    · rw [Function.update_of_ne hki] at hk
      have := h.bound hk
      omega
  owner {q c} hq := by
    by_cases hlt : q < heap.length
    · rw [List.getElem?_append_left hlt] at hq
      obtain ⟨k, hk⟩ := (h.forget hi).owner hq
      have hki : k ≠ i := by
        intro hki
        simp [hki] at hk
      rw [Function.update_of_ne hki] at hk
      exact ⟨k, by rw [Function.update_of_ne hki, hk]⟩
    · have hlen : q < (heap ++ [some b]).length := by
        by_contra hge
        rw [List.getElem?_eq_none (by omega)] at hq
        cases hq
      rw [List.length_append, List.length_singleton] at hlen
      exact ⟨i, by rw [Function.update_self]; congr 1; omega⟩

/-! ## What the variables point to -/

theorem target_forget (heap : List (Option β)) (holds : ι → Option Nat) (i : ι) :
    target heap (Function.update holds i none) =
      Function.update (target heap holds) i none := by
  funext k
  by_cases hk : k = i
  · simp [target, hk]
  · simp [target, hk]

theorem target_alloc (h : Owned heap holds) (i : ι) (b : β) :
    target (heap ++ [some b]) (Function.update holds i (some heap.length)) =
      Function.update (target heap holds) i (some b) := by
  funext k
  by_cases hk : k = i
  · simp [target, hk]
  · rw [Function.update_of_ne hk, target, target, Function.update_of_ne hk]
    cases hp : holds k with
    | none => rfl
    | some p => simp [List.getElem?_append_left (h.bound hp)]

theorem target_set (h : Owned heap holds) (hi : holds i = some p) (x : Option β) :
    target (heap.set p x) holds = Function.update (target heap holds) i x := by
  funext k
  by_cases hk : k = i
  · rw [hk, Function.update_self, target_of_holds hi, List.getElem?_set_self (h.bound hi)]
    rfl
  · rw [Function.update_of_ne hk, target, target]
    cases hq : holds k with
    | none => rfl
    | some q =>
      have hpq : p ≠ q := by
        intro hpq
        rw [← hpq] at hq
        exact hk (h.unique hq hi)
      simp [List.getElem?_set_ne hpq]

/-- There are as many cells in use as there are variables that point to one. -/
theorem card_live {heap : List (Option β)} {holds : Nat → Option Nat} (h : Owned heap holds)
    {n : Nat} (hn : ∀ i, n ≤ i → holds i = none) :
    ((Finset.range heap.length).filter fun p => (heap[p]?.join).isSome).card =
      ((Finset.range n).filter fun i => (target heap holds i).isSome).card := by
  symm
  refine Finset.card_bij (fun i _ => (holds i).getD 0) ?_ ?_ ?_
  · intro i hi
    simp only [Finset.mem_filter, Finset.mem_range] at hi
    obtain ⟨b, hb⟩ := Option.isSome_iff_exists.mp hi.2
    obtain ⟨p, hp, hcell⟩ := target_eq_some_iff.mp hb
    rw [hp, Option.getD_some, Finset.mem_filter, Finset.mem_range, hcell]
    exact ⟨h.bound hp, rfl⟩
  · intro i hi j hj heq
    simp only [Finset.mem_filter, Finset.mem_range] at hi hj
    obtain ⟨b, hb⟩ := Option.isSome_iff_exists.mp hi.2
    obtain ⟨c, hc⟩ := Option.isSome_iff_exists.mp hj.2
    obtain ⟨p, hp, -⟩ := target_eq_some_iff.mp hb
    obtain ⟨q, hq, -⟩ := target_eq_some_iff.mp hc
    simp only [hp, hq, Option.getD_some] at heq
    exact h.unique hp (heq ▸ hq)
  · intro p hp
    simp only [Finset.mem_filter, Finset.mem_range] at hp
    obtain ⟨b, hb⟩ := Option.isSome_iff_exists.mp hp.2
    have hcell := Option.join_eq_some_iff.mp hb
    obtain ⟨i, hi⟩ := h.owner hcell
    have hlt : i < n := by
      by_contra hge
      simp [hn i (by omega)] at hi
    exact ⟨i, by simp [hlt, target_of_holds hi, hcell], by simp [hi]⟩

end Owned
end TryAndLearn
