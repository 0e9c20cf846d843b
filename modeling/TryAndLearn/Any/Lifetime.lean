import TryAndLearn.Any.Contents

/-!
# The heap and the pointers of `any_cast`

An object on the heap has one `any` to which it belongs, so it is deleted once and not
forgotten.  A pointer of `any_cast` is to the object of the `any`, and no other `any` gives
that pointer.
-/

universe u

namespace TryAndLearn
namespace Any

variable {τ α : Type u}

namespace State

/-- The heap cells in use. -/
def allocated (s : State τ α) : Finset Nat :=
  (Finset.range s.heap.length).filter fun p => (s.heap[p]?.join).isSome

/-- The `any` objects that contain an object for which an allocation is required. -/
def onHeap (info : τ → TypeInfo) (s : State τ α) : Finset Nat :=
  (Finset.range s.anys.length).filter fun i =>
    (s.objects.content i).join.any fun o => (info o.type).requiresAllocation

end State

section

variable {info : τ → TypeInfo} {v : Slots τ} {c : Slots (Object τ α)} {s : State τ α} {i : Nat}

theorem Shows.target_isSome (h : Shows info v c s) (i : Nat) :
    (target s.heap s.pointer i).isSome =
      (c.content i).join.any fun o => (info o.type).requiresAllocation := by
  cases hc : c.content i with
  | none =>
    rw [← h.objects] at hc
    rw [target, State.pointer, Option.map_eq_none_iff.mp hc]
    rfl
  | some b =>
    cases b with
    | none =>
      rw [(h.place_of_content hc .raw).1]
      rfl
    | some o =>
      rcases h.storage_cases hc with ⟨hreq, p, hs, hp⟩ | ⟨hreq, hs⟩
      · rw [target_of_storage s.heap hs]
        simp [Storage.pointer, hp, hreq]
      · rw [target_of_storage s.heap hs]
        simp [Storage.pointer, hreq]

theorem Shows.card_onHeap (h : Shows info v s.objects s) :
    s.allocated.card = (s.onHeap info).card := by
  have hcard := h.sound.owned.card_live (n := s.anys.length) fun i hi => by
    rw [State.pointer, State.storage, State.get_of_length_le hi]
    rfl
  rw [State.allocated, hcard, State.onHeap]
  congr 1
  exact Finset.filter_congr fun i _ => by rw [h.target_isSome i]

variable [DecidableEq τ] {moved : α → α} {t : τ}

/-- At any time there are as many objects on the heap as there are `any` objects that
contain one for which an allocation is required. -/
theorem card_allocated (h : (machine info moved).Reachable AliveOperands s) :
    s.allocated.card = (s.onHeap info).card ∧
      ((∀ i, s.get i = none) → s.allocated = ∅) := by
  have hcard := Shows.card_onHeap (reachable_has h)
  refine ⟨hcard, fun hget => ?_⟩
  rw [← Finset.card_eq_zero, hcard, Finset.card_eq_zero]
  refine Finset.filter_eq_empty_iff.mpr fun i _ => ?_
  simp [State.objects, State.storage, hget i]

theorem card_allocated_numberAndArray :
    numberAndArray.allocated.card = (numberAndArray.onHeap twoTypes).card ∧
      ((∀ i, numberAndArray.get i = none) → numberAndArray.allocated = ∅) :=
  card_allocated numberAndArray_reachable

/-! ## `any_cast` -/

theorem Has.anyCastValue (h : Has info c s) {b : Option (Object τ α)}
    (hi : c.content i = some b) :
    (b.map Object.type ≠ some t ∧
      s.anyCastValue info t i = some (.error .badAnyCast)) ∨
    ∃ x, b = some ⟨t, x⟩ ∧ s.anyCastValue info t i = some (.ok x) := by
  by_cases htype : b.map Object.type = some t
  · right
    obtain ⟨o, rfl, rfl⟩ := Option.map_eq_some_iff.mp htype
    obtain ⟨p, hp, hload⟩ := h.anyCast hi
    refine ⟨o.value, rfl, ?_⟩
    rw [State.anyCastValue, hp]
    simp [hload]
  · left
    refine ⟨htype, ?_⟩
    rw [State.anyCastValue, h.anyCast_of_type_ne hi htype]

/-- Where the pointer points that `any` `i` gives. -/
theorem State.anyCast_eq {p : Address} (hp : s.anyCast info t (some i) = some p) :
    p = .inside i ∨ ∃ q, p = .heap q ∧ s.pointer i = some q := by
  rw [State.anyCast, Option.bind_some] at hp
  split at hp
  · rw [State.cast] at hp
    split at hp
    · right
      cases hs : s.storage i with
      | none => simp [hs] at hp
      | some x =>
        cases x with
        | raw => simp [hs] at hp
        | stack o => simp [hs] at hp
        | dynamic q =>
          rw [hs] at hp
          obtain ⟨q', rfl, rfl⟩ := Option.map_eq_some_iff.mp hp
          exact ⟨q', rfl, by rw [State.pointer, hs]; rfl⟩
    · exact .inl (Option.some.inj hp).symm
  · cases hp

theorem Shows.anyCast_injective {p : Address} {t' : τ} {j : Nat} (h : Shows info v c s)
    (hi : s.anyCast info t (some i) = some p) (hj : s.anyCast info t' (some j) = some p) :
    i = j := by
  rcases State.anyCast_eq hi with rfl | ⟨q, rfl, hq⟩
  · rcases State.anyCast_eq hj with heq | ⟨_, heq, _⟩
    · exact (Address.inside.inj heq)
    · cases heq
  · rcases State.anyCast_eq hj with heq | ⟨q', heq, hq'⟩
    · cases heq
    · obtain rfl := Address.heap.inj heq
      exact h.sound.owned.unique hq hq'

/-- `any_cast` to the type of the contained object gives its value, and to any other type
it throws.  A pointer is to the contained object and not one of another `any`. -/
theorem anyCast_iff (h : (machine info moved).Reachable AliveOperands s)
    {b : Option (Object τ α)} (hi : s.objects.content i = some b) (t : τ) :
    (∀ x, s.anyCastValue info t i = some (.ok x) ↔ b = some ⟨t, x⟩) ∧
      (s.anyCastValue info t i = some (.error .badAnyCast) ↔ b.map Object.type ≠ some t) ∧
      ((s.anyCast info t (some i)).isSome = true ↔ b.map Object.type = some t) ∧
      ∀ p, s.anyCast info t (some i) = some p → s.load t p = b ∧
        ∀ j t', s.anyCast info t' (some j) = some p → j = i := by
  have hhas := reachable_has h
  refine ⟨?_, ?_, ?_, ?_⟩
  · intro x
    rcases hhas.anyCastValue (t := t) hi with ⟨htype, hcast⟩ | ⟨y, rfl, hcast⟩
    · rw [hcast]
      refine ⟨fun hx => by simp at hx, fun hx => ?_⟩
      simp [hx] at htype
    · simp [hcast]
  · rcases hhas.anyCastValue (t := t) hi with ⟨htype, hcast⟩ | ⟨y, rfl, hcast⟩
    · simp [hcast, htype]
    · simp [hcast]
  · by_cases htype : b.map Object.type = some t
    · obtain ⟨o, rfl, rfl⟩ := Option.map_eq_some_iff.mp htype
      obtain ⟨p, hp, -⟩ := hhas.anyCast hi
      simp [hp]
    · simp [hhas.anyCast_of_type_ne hi htype, htype]
  · intro p hp
    refine ⟨?_, fun j t' hj => (Shows.anyCast_injective hhas hp hj).symm⟩
    by_cases htype : b.map Object.type = some t
    · obtain ⟨o, rfl, rfl⟩ := Option.map_eq_some_iff.mp htype
      obtain ⟨q, hq, hload⟩ := hhas.anyCast hi
      rw [hp] at hq
      obtain rfl : p = q := Option.some.inj hq
      exact hload
    · rw [hhas.anyCast_of_type_ne hi htype] at hp
      cases hp

theorem anyCast_iff_numberAndArray :
    (∀ x, numberAndArray.anyCastValue twoTypes true 1 = some (.ok x) ↔
      (some ⟨true, 2⟩ : Option (Object Bool Nat)) = some ⟨true, x⟩) ∧
    (numberAndArray.anyCastValue twoTypes true 1 = some (.error .badAnyCast) ↔
      (some ⟨true, 2⟩ : Option (Object Bool Nat)).map Object.type ≠ some true) ∧
    ((numberAndArray.anyCast twoTypes true (some 1)).isSome = true ↔
      (some ⟨true, 2⟩ : Option (Object Bool Nat)).map Object.type = some true) ∧
    ∀ p, numberAndArray.anyCast twoTypes true (some 1) = some p →
      numberAndArray.load true p = some ⟨true, 2⟩ ∧
      ∀ j t', numberAndArray.anyCast twoTypes t' (some j) = some p → j = 1 :=
  anyCast_iff numberAndArray_reachable rfl true

end

end Any
end TryAndLearn
