/-
The container of `ThreadSafeQueue` and the critical section of `TryPop`.

The container is a list.  `std::queue` gives back the oldest value.
`std::priority_queue` gives back a maximal one, and which of several maximal values
is not specified, so a pop from it takes the index of the value as an argument.
Every member function holds `data_m_` for its whole body: a pop or a push is one
step of the thread that makes it.
-/
import Mathlib.Data.Multiset.Basic

namespace TryAndLearn

inductive QueueKind
  | queue
  | priorityQueue
  deriving DecidableEq, Repr

namespace ThreadSafeQueue

variable {τ : Type*} [LT τ] [DecidableLT τ] {kind : QueueKind} {choice : Nat} {q q' : List τ}
  {t : τ} {r : Option τ}

/-- No value of the queue is above `t`. -/
def Maximal (t : τ) (q : List τ) : Prop := ∀ u ∈ q, ¬ t < u

instance (t : τ) (q : List τ) : Decidable (Maximal t q) :=
  inferInstanceAs (Decidable (∀ u ∈ q, ¬ t < u))

/-- `detail::GetFrontAndPop` on a container that is not empty. -/
def getFrontAndPop (kind : QueueKind) (choice : Nat) (q : List τ) : Option (τ × List τ) :=
  match kind with
  | .queue => q.head?.map fun t => (t, q.tail)
  | .priorityQueue =>
    q[choice]?.bind fun t => if Maximal t q then some (t, q.eraseIdx choice) else none

/-- Which value of the container may come out next. -/
def order : QueueKind → List τ → Nat → Prop
  | .queue, _, i => i = 0
  | .priorityQueue, q, i => ∀ t ∈ q[i]?, Maximal t q

instance : (kind : QueueKind) → (q : List τ) → (i : Nat) → Decidable (order kind q i)
  | .queue, _, i => inferInstanceAs (Decidable (i = 0))
  | .priorityQueue, q, i => inferInstanceAs (Decidable (∀ t ∈ q[i]?, Maximal t q))

/-- The value popped, or none, and what is left in the queue. -/
def tryPop (kind : QueueKind) (choice : Nat) (q : List τ) : Option (Option τ × List τ) :=
  if q = [] then some (none, q)
  else (getFrontAndPop kind choice q).map fun (t, q) => (some t, q)

def push (q : List τ) (t : τ) : List τ := q ++ [t]

theorem getFrontAndPop_queue (h : getFrontAndPop .queue choice q = some (t, q')) :
    q = t :: q' := by
  cases q with
  | nil => simp [getFrontAndPop] at h
  | cons u rest =>
    simp only [getFrontAndPop, List.head?_cons, List.tail_cons, Option.map_some,
      Option.some.injEq, Prod.mk.injEq] at h
    obtain ⟨rfl, rfl⟩ := h
    rfl

theorem getFrontAndPop_priorityQueue (h : getFrontAndPop .priorityQueue choice q = some (t, q')) :
    q[choice]? = some t ∧ Maximal t q ∧ q' = q.eraseIdx choice := by
  obtain ⟨u, hu, h⟩ := Option.bind_eq_some_iff.mp h
  obtain ⟨hmax, h⟩ := Option.ite_none_right_eq_some.mp h
  obtain ⟨rfl, rfl⟩ := Prod.mk.inj (Option.some.inj h)
  exact ⟨hu, hmax, rfl⟩

/-- Either container gives back a value that is due and keeps the others. -/
theorem order_of_getFrontAndPop (h : getFrontAndPop kind choice q = some (t, q')) :
    ∃ i, order kind q i ∧ q[i]? = some t ∧ q' = q.eraseIdx i := by
  cases kind with
  | queue =>
    obtain rfl := getFrontAndPop_queue h
    exact ⟨0, rfl, rfl, rfl⟩
  | priorityQueue =>
    obtain ⟨ht, hmax, rfl⟩ := getFrontAndPop_priorityQueue h
    refine ⟨choice, fun u hu => ?_, ht, rfl⟩
    obtain rfl := Option.some.inj (ht.symm.trans hu)
    exact hmax

/-- Either container gives back a value it held and keeps the others. -/
theorem perm_of_getFrontAndPop (h : getFrontAndPop kind choice q = some (t, q')) :
    q.Perm (t :: q') := by
  cases kind with
  | queue => rw [getFrontAndPop_queue h]
  | priorityQueue =>
    obtain ⟨ht, _, rfl⟩ := getFrontAndPop_priorityQueue h
    obtain ⟨hlt, rfl⟩ := List.getElem?_eq_some_iff.mp ht
    exact (List.getElem_cons_eraseIdx_perm hlt).symm

theorem tryPop_cases (h : tryPop kind choice q = some (r, q')) :
    (q = [] ∧ r = none ∧ q' = []) ∨
      ∃ t, r = some t ∧ getFrontAndPop kind choice q = some (t, q') := by
  unfold tryPop at h
  split at h
  · rename_i hq
    obtain ⟨rfl, rfl⟩ := Prod.mk.inj (Option.some.inj h)
    exact .inl ⟨hq, rfl, hq⟩
  · obtain ⟨⟨t, q''⟩, hpop, h⟩ := Option.map_eq_some_iff.mp h
    obtain ⟨rfl, rfl⟩ := Prod.mk.inj h
    exact .inr ⟨t, rfl, hpop⟩

end ThreadSafeQueue
end TryAndLearn
