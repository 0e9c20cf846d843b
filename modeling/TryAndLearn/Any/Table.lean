import TryAndLearn.Any.Memory

/-!
# The functions of a table

The functions of the two kinds of table do the same to the objects: which kind a type has
is not seen, except in `swap`.  That function of `vtable_stack` moves an object out of its
storage and reads it there again when both storages are the same.
-/

universe u

namespace TryAndLearn
namespace Any
namespace Shows

variable {τ α : Type u} {info : τ → TypeInfo} {v : Slots τ} {c : Slots (Object τ α)}
  {s s' : State τ α} {i j : Nat} {o o' : Object τ α}

theorem nothrowMoveConstructible (hreq : (info o.type).requiresAllocation = false) :
    (info o.type).nothrowMoveConstructible = true := by
  simp only [TypeInfo.requiresAllocation, Bool.not_eq_false', Bool.and_eq_true] at hreq
  exact hreq.1.1

theorem newStack (h : Shows info v c s) (hc : c.content i = some none)
    (hreq : (info o.type).requiresAllocation = false) :
    ∃ s', s.newStack i o = some s' ∧ Shows info v (c.put i (some o)) s' := by
  obtain ⟨htarget, hplace⟩ := h.place_of_content hc (.stack o)
  refine ⟨_, hplace, h.setStorage (x := .stack o) htarget rfl fun o' ho' => ?_⟩
  cases ho'
  exact hreq

theorem moveDynamic (h : Shows info v c s) (hi : c.content i = some (some o))
    (hj : c.content j = some none) (hreq : (info o.type).requiresAllocation = true) :
    ∃ s', s.moveDynamic i j = some s' ∧ Shows info v (c.move i j) s' := by
  have hij : i ≠ j := by
    intro hij
    rw [hij, hj] at hi
    cases hi
  obtain ⟨p, hs, hp⟩ := h.storage_of_allocation hi hreq
  obtain ⟨y, hy, -⟩ := h.storage_of_content hj
  obtain ⟨-, hplace⟩ := h.place_of_content hj (.dynamic (some p))
  have hexchange := h.exchange hs hy
  have hempty : (c.exchange i j).content i = some none := by
    rw [Slots.content_exchange hi hj, Equiv.swap_apply_left, hj]
  have hmoved := hexchange.setStorage (i := i) (x := .dynamic none)
    (hexchange.place_of_content hempty .raw).1 rfl (by simp [Storage.inPlace])
  refine ⟨(s.setStorage j (.dynamic (some p))).setStorage i (.dynamic none), ?_, ?_⟩
  · rw [State.moveDynamic, hs]
    simp [hplace]
  · have hcontent : (c.exchange i j).put i none = c.move i j := by
      rw [Slots.exchange, Slots.move, hi, hj, Slots.put_comm hij, Slots.put_put]
    rw [← hcontent]
    refine hmoved.congr rfl (by simp [State.setStorage]) (funext fun k => ?_) (by simp)
    simp only [State.storage_setStorage]
    by_cases hk : i = k
    · subst hk
      simp [hs, Ne.symm hij]
    · simp [hk]

theorem doConstruct (h : Shows info v c s) (hc : c.content i = some none) :
    ∃ s', s.doConstruct info i o = some s' ∧ Shows info v (c.put i (some o)) s' := by
  rw [State.doConstruct]
  cases hreq : (info o.type).requiresAllocation with
  | true => exact h.newDynamic hc hreq
  | false => exact h.newStack hc hreq

theorem swapDynamic (h : Shows info v c s) (hi : c.content i = some (some o))
    (hj : c.content j = some (some o')) (hreq : (info o.type).requiresAllocation = true)
    (hreq' : (info o'.type).requiresAllocation = true) :
    ∃ s', s.swapDynamic i j = some s' ∧ Shows info v (c.exchange i j) s' := by
  obtain ⟨p, hp, -⟩ := h.storage_of_allocation hi hreq
  obtain ⟨q, hq, -⟩ := h.storage_of_allocation hj hreq'
  refine ⟨(s.setStorage i (.dynamic (some q))).setStorage j (.dynamic (some p)), ?_,
    h.exchange hp hq⟩
  rw [State.swapDynamic, hp, hq]

variable [DecidableEq τ]

theorem derefDynamic_eq {p : Nat} (hi : s.storage i = some (.dynamic (some p)))
    (hp : s.heap[p]? = some (some o)) : s.derefDynamic o.type i = some o := by
  simp [State.derefDynamic, hi, hp]

theorem derefStack_eq (hi : s.storage i = some (.stack o)) :
    s.derefStack o.type i = some o := by
  simp [State.derefStack, hi]

theorem deref (h : Shows info v c s) (hc : c.content i = some (some o)) :
    s.deref info o.type i = some o := by
  rw [State.deref]
  rcases h.storage_cases hc with ⟨hreq, p, hi, hp⟩ | ⟨hreq, hi⟩
  · rw [hreq, if_pos rfl, derefDynamic_eq hi hp]
  · rw [hreq, if_neg (by simp), derefStack_eq hi]

theorem destroyStack (h : Shows info v c s) (hi : s.storage i = some (.stack o)) :
    ∃ s', s.destroyStack o.type i = some s' ∧ Shows info v (c.put i none) s' := by
  refine ⟨s.setStorage i .raw, ?_, h.setStorage (x := .raw) ?_ rfl (by simp [Storage.inPlace])⟩
  · rw [State.destroyStack, derefStack_eq hi]
    rfl
  · rw [target_of_storage s.heap hi]
    rfl

theorem vtableDestroy (h : Shows info v c s) (hc : c.content i = some (some o)) :
    ∃ s', s.vtableDestroy info o.type i = some s' ∧ Shows info v (c.put i none) s' := by
  rw [State.vtableDestroy]
  rcases h.storage_cases hc with ⟨hreq, p, hi, hp⟩ | ⟨hreq, hi⟩
  · rw [hreq, if_pos rfl]
    refine ⟨{ s with heap := s.heap.set p none }, ?_, h.setHeap hi none (by simp)⟩
    simp [State.destroyDynamic, derefDynamic_eq hi hp, hi]
  · rw [hreq, if_neg (by simp)]
    exact h.destroyStack hi

theorem vtableCopy (h : Shows info v c s) (hi : c.content i = some (some o))
    (hj : c.content j = some none) :
    ∃ s', s.vtableCopy info o.type i j = some s' ∧ Shows info v (c.put j (some o)) s' := by
  rw [State.vtableCopy]
  rcases h.storage_cases hi with ⟨hreq, p, hs, hp⟩ | ⟨hreq, hs⟩
  · rw [hreq, if_pos rfl, State.copyDynamic, derefDynamic_eq hs hp]
    exact h.newDynamic hj hreq
  · rw [hreq, if_neg (by simp), State.copyStack, derefStack_eq hs]
    exact h.newStack hj hreq

theorem moveStack (h : Shows info v c s) (hi : c.content i = some (some o))
    (hj : c.content j = some none) (hreq : (info o.type).requiresAllocation = false) :
    ∃ s', s.moveStack info o.type i j = some s' ∧ Shows info v (c.move i j) s' := by
  have hij : i ≠ j := by
    intro hij
    rw [hij, hj] at hi
    cases hi
  obtain ⟨s₁, hs₁, h₁⟩ := h.newStack (o := o) hj hreq
  have hi₁ : (c.put j (some o)).content i = some (some o) := by
    rw [Slots.content_put_of_ne hij, hi]
  obtain ⟨s₂, hs₂, h₂⟩ := h₁.destroyStack (h₁.storage_of_inPlace hi₁ hreq)
  refine ⟨s₂, ?_, ?_⟩
  · rw [State.moveStack, derefStack_eq (h.storage_of_inPlace hi hreq)]
    simp [nothrowMoveConstructible hreq, hs₁, hs₂]
  · rw [Slots.move, hi]
    exact h₂

theorem vtableMove (h : Shows info v c s) (hi : c.content i = some (some o))
    (hj : c.content j = some none) :
    ∃ s', s.vtableMove info o.type i j = some s' ∧ Shows info v (c.move i j) s' := by
  rw [State.vtableMove]
  cases hreq : (info o.type).requiresAllocation with
  | true => exact h.moveDynamic hi hj hreq
  | false => exact h.moveStack hi hj hreq

theorem swapStack (h : Shows info v c s) (hij : i ≠ j) (hi : c.content i = some (some o))
    (hj : c.content j = some (some o')) (htype : o'.type = o.type)
    (hreq : (info o.type).requiresAllocation = false) :
    ∃ s', s.swapStack info o.type i j = some s' ∧ Shows info v (c.exchange i j) s' := by
  have hli := Nat.ne_of_lt (Slots.lt_size hi)
  have hlj := Nat.ne_of_lt (Slots.lt_size hj)
  have hreq' : (info o'.type).requiresAllocation = false := htype ▸ hreq
  have hlast : (c.push none).content c.size = some none := Slots.content_push_self
  have hj₀ : (c.push none).content j = some (some o') := Slots.content_push hj
  obtain ⟨s₁, hs₁, h₁⟩ := (h.push none).moveStack hj₀ hlast hreq'
  have hi₁ : ((c.push none).move j c.size).content i = some (some o) := by
    rw [Slots.content_move_of_ne hij hli, Slots.content_push hi]
  have hj₁ := Slots.content_move_src hj₀ c.size
  have hlast₁ := Slots.content_move_dest hlj hj₀ hlast
  obtain ⟨s₂, hs₂, h₂⟩ := h₁.moveStack hi₁ hj₁ hreq
  have hlast₂ := (Slots.content_move_of_ne (Ne.symm hli) (Ne.symm hlj)).trans hlast₁
  obtain ⟨s₃, hs₃, h₃⟩ := h₂.moveStack hlast₂ (Slots.content_move_src hi₁ j) hreq'
  refine ⟨s₃.pop, ?_, ?_⟩
  · rw [htype] at hs₁ hs₃
    simp [State.swapStack, h.size_eq, hs₁, hs₂, hs₃]
  · rw [← Slots.move_move_move hij hi hj, ← Slots.pop_push v none]
    refine h₃.pop fun x hx => ?_
    have hempty := Slots.content_move_src hlast₂ i
    simp only [Slots.size_move, Slots.size_push, Nat.add_sub_cancel] at hx
    rw [hempty] at hx
    cases hx

/-- An `any` with an object in its storage cannot be swapped with itself. -/
theorem swapStack_self (h : Shows info v c s) (hi : c.content i = some (some o))
    (hreq : (info o.type).requiresAllocation = false) :
    s.swapStack info o.type i i = none := by
  have hi₀ : (c.push none).content i = some (some o) := Slots.content_push hi
  obtain ⟨s₁, hs₁, h₁⟩ := (h.push none).moveStack hi₀ Slots.content_push_self hreq
  have hempty := Slots.content_move_src hi₀ c.size
  obtain ⟨x, hx, hobject⟩ := h₁.storage_of_content hempty
  have hmove : s₁.moveStack info o.type i i = none := by
    rw [State.moveStack, State.derefStack, hx]
    cases x with
    | raw => rfl
    | dynamic p => rfl
    | stack o => cases hobject
  simp [State.swapStack, h.size_eq, hs₁, hmove]

theorem vtableSwap (h : Shows info v c s) (hi : c.content i = some (some o))
    (hj : c.content j = some (some o')) (htype : o'.type = o.type)
    (hself : i = j → (info o.type).requiresAllocation = true) :
    ∃ s', s.vtableSwap info o.type i j = some s' ∧ Shows info v (c.exchange i j) s' := by
  rw [State.vtableSwap]
  cases hreq : (info o.type).requiresAllocation with
  | true => exact h.swapDynamic hi hj hreq (htype ▸ hreq)
  | false =>
    refine h.swapStack (fun hij => ?_) hi hj htype hreq
    simp [hself hij] at hreq

end Shows
end Any
end TryAndLearn
