import TryAndLearn.Any.Table

/-!
# The member functions

Between two calls the table of each `any` is the one of the object it contains.  A member
function may leave that for a while; each of them comes back to it.
-/

universe u

namespace TryAndLearn
namespace Any

variable {τ α : Type u}

/-- Each `any` has the table of the type of its object. -/
def Has (info : τ → TypeInfo) (c : Slots (Object τ α)) (s : State τ α) : Prop :=
  Shows info (c.map Object.type) c s

namespace Has

variable {info : τ → TypeInfo} {v : Slots τ} {c : Slots (Object τ α)} {s : State τ α}
  {i j : Nat} {a b : Option (Object τ α)}

theorem init : Has info {} ({} : State τ α) where
  sound :=
    { owned := Owned.empty fun _ => rfl
      allocated := fun h => by cases h
      inPlace := fun h => by cases h }
  vtables := Slots.ext rfl rfl
  objects := Slots.ext rfl rfl

theorem objects (h : Has info c s) : Has info s.objects s := by
  rwa [Shows.objects h]

theorem vtable_eq (h : Has info c s) (hi : c.content i = some b) :
    s.vtable i = some (b.map Object.type) := by
  rw [Shows.vtable_eq h, Slots.content_map, hi]
  rfl

theorem push (h : Has info c s) : Has info (c.push none) (s.push none) := by
  rw [Has, Slots.map_push]
  exact Shows.push h none

/-! ## Constructors -/

theorem construct (h : Has info c s) (o : Object τ α) (throws : Bool) :
    ∃ s', s.construct info o throws = some (s', !throws) ∧
      Has info (if throws then c else c.push (some o)) s' := by
  cases throws with
  | true => exact ⟨s, rfl, h⟩
  | false =>
    obtain ⟨s', hs', h'⟩ := (Shows.push h (some o.type)).doConstruct (o := o) (i := c.size)
      Slots.content_push_self
    refine ⟨s', by simp [State.construct, Shows.size_eq h, hs'], ?_⟩
    rw [Slots.push_put_self] at h'
    rw [Has]
    simpa using h'

variable [DecidableEq τ]

/-- An `any` that is empty does not throw. -/
theorem copyConstruct (h : Has info c s) (hi : c.content i = some b) (throws : Bool) :
    ∃ s', s.copyConstruct info i throws = some (s', b.isNone || !throws) ∧
      Has info (if b.isNone || !throws then c.push b else c) s' := by
  rw [State.copyConstruct, h.vtable_eq hi]
  cases b with
  | none => exact ⟨_, rfl, h.push⟩
  | some o =>
    have hderef : s.deref info o.type i = some o := Shows.deref h hi
    cases throws with
    | true => exact ⟨s, by simp [hderef], h⟩
    | false =>
      obtain ⟨s', hs', h'⟩ := (Shows.push h (some o.type)).vtableCopy (o := o) (i := i)
        (j := c.size) (Slots.content_push hi) Slots.content_push_self
      refine ⟨s', by simp [hderef, Shows.size_eq h, hs'], ?_⟩
      rw [Slots.push_put_self] at h'
      rw [Has]
      simpa using h'

theorem moveConstruct (h : Has info c s) (hi : c.content i = some b) :
    ∃ s', s.moveConstruct info i = some s' ∧ Has info ((c.put i none).push b) s' := by
  rw [State.moveConstruct, h.vtable_eq hi]
  cases b with
  | none =>
    rw [Slots.put_content hi]
    exact ⟨_, rfl, h.push⟩
  | some o =>
    have hi' : (c.push none).content i = some (some o) := Slots.content_push hi
    obtain ⟨s', hs', h'⟩ := (Shows.push h (some o.type)).vtableMove (o := o) (j := c.size)
      hi' Slots.content_push_self
    refine ⟨s'.setVtable i none, by simp [Shows.size_eq h, hs'], ?_⟩
    have hmove : (c.push none).move i c.size = (c.put i none).push (some o) := by
      rw [Slots.move, hi', ← Slots.push_put hi]
      exact congrArg (fun c => Slots.put c i none) (Slots.push_put_self c none (some o))
    have hput : ((c.map Object.type).push (some o.type)).put i none =
        ((c.put i none).push (some o)).map Object.type := by
      rw [← Slots.push_put hi]
      simp
    rw [hmove] at h'
    rw [Has, ← hput]
    exact h'.setVtable i none

/-! ## `clear` and the destructor -/

theorem clear (h : Has info c s) (hi : c.content i = some b) :
    ∃ s', s.clear info i = some s' ∧ Has info (c.put i none) s' := by
  rw [State.clear, h.vtable_eq hi]
  cases b with
  | none =>
    rw [Slots.put_content hi]
    exact ⟨s, rfl, h⟩
  | some o =>
    obtain ⟨s', hs', h'⟩ := Shows.vtableDestroy h hi
    refine ⟨s'.setVtable i none, by simp [hs'], ?_⟩
    rw [Has, Slots.map_put]
    exact h'.setVtable i none

theorem destruct (h : Has info c s) (hi : c.content i = some b) :
    ∃ s', s.destruct info i = some s' ∧ Has info (c.remove i) s' := by
  obtain ⟨s', hs', h'⟩ := h.clear hi
  refine ⟨s'.remove i, by simp [State.destruct, hs'], ?_⟩
  have hempty := Slots.content_put_self hi (b := none)
  rw [← Slots.remove_put c i none, Has, Slots.map_remove]
  exact h'.remove fun o ho => by simp [hempty] at ho

end Has

/-! ## `swap` -/

namespace Shows

variable {info : τ → TypeInfo} {v : Slots τ} {c : Slots (Object τ α)} {s : State τ α}
  {i j : Nat} {a b : Option (Object τ α)} [DecidableEq τ]

theorem moveIf (h : Shows info v c s) (hi : c.content i = some b)
    (hj : c.content j = some none) :
    ∃ s', s.moveIf info (b.map Object.type) i j = some s' ∧ Shows info v (c.move i j) s' := by
  cases b with
  | none =>
    rw [Slots.move_none hi hj]
    exact ⟨s, rfl, h⟩
  | some o => exact h.vtableMove hi hj

/-- By way of `tmp`, an `any` that is constructed by a move. -/
theorem swap_of_ne (h : Shows info (c.map Object.type) c s) (hi : c.content i = some a)
    (hj : c.content j = some b) (htype : a.map Object.type ≠ b.map Object.type) :
    ∃ s', s.swap info i j = some s' ∧
      Shows info ((c.exchange i j).map Object.type) (c.exchange i j) s' := by
  have hij : i ≠ j := by
    intro hij
    rw [hij, hj] at hi
    obtain rfl : b = a := Option.some.inj hi
    exact htype rfl
  have hlj := Nat.ne_of_lt (Slots.lt_size hj)
  have hi' : (c.put j none).content i = some a := (Slots.content_put_of_ne hij).trans hi
  obtain ⟨s₁, hs₁, h₁⟩ := Has.moveConstruct h hj
  have hi₁ : ((c.put j none).push b).content i = some a := Slots.content_push hi'
  have hj₁ : ((c.put j none).push b).content j = some none :=
    Slots.content_push (Slots.content_put_self hj)
  have hlast₁ : ((c.put j none).push b).content c.size = some b := Slots.content_push_self
  obtain ⟨s₂, hs₂, h₂⟩ := (h₁.setVtable j (a.map Object.type)).moveIf hi₁ hj₁
  have htmp : s₂.vtable c.size = some (b.map Object.type) := by
    rw [h₂.vtable_eq, Slots.content_put_of_ne (Ne.symm hlj), Slots.content_map, hlast₁]
    rfl
  have hlast₂ := (Slots.content_move_of_ne (Ne.symm (Nat.ne_of_lt (Slots.lt_size hi)))
    (Ne.symm hlj)).trans hlast₁
  obtain ⟨s₃, hs₃, h₃⟩ := (h₂.setVtable i (b.map Object.type)).moveIf hlast₂
    (Slots.content_move_src hi₁ j)
  rw [Slots.move_move_push hij hi hj] at h₃
  have htypes : (((((c.put j none).push b).map Object.type).put j (a.map Object.type)).put i
      (b.map Object.type)) = ((c.exchange i j).map Object.type).push (b.map Object.type) := by
    rw [← Slots.map_put, ← Slots.map_put, Slots.push_exchange hij hi hj, Slots.map_push]
  rw [htypes] at h₃
  have h₄ := h₃.setVtable c.size none
  have hclear : (s₃.setVtable c.size none).clear info c.size =
      some (s₃.setVtable c.size none) := by
    have hnull : (s₃.setVtable c.size none).vtable c.size = some none := by
      rw [h₄.vtable_eq]
      exact Slots.content_put_self Slots.content_push_self
    simp [State.clear, hnull]
  have hempty : (((c.exchange i j).push b).put c.size none).content c.size = some none :=
    Slots.content_put_self Slots.content_push_self
  have h₅ := (h₄.remove (i := c.size) (by simp [hempty])).pop (by simp [Slots.remove])
  refine ⟨((s₃.setVtable c.size none).remove c.size).pop, ?_, h₅.of_eq
    (Slots.pop_remove_put_push ((c.exchange i j).map Object.type) (b.map Object.type) none)
    (Slots.pop_remove_put_push (c.exchange i j) b none)⟩
  simp [State.swap, Has.vtable_eq h hi, Has.vtable_eq h hj, htype, h.size_eq, hs₁, hs₂, htmp,
    hs₃, State.destruct, hclear]

end Shows

namespace Has

variable {info : τ → TypeInfo} {c : Slots (Object τ α)} {s : State τ α} {i j : Nat}
  {a b : Option (Object τ α)} [DecidableEq τ]

/-- An `any` may be swapped with itself when what it contains is not in its storage. -/
theorem swap (h : Has info c s) (hi : c.content i = some a) (hj : c.content j = some b)
    (hself : i = j → ∀ o ∈ a, (info o.type).requiresAllocation = true) :
    ∃ s', s.swap info i j = some s' ∧ Has info (c.exchange i j) s' := by
  by_cases htype : a.map Object.type = b.map Object.type
  · have htypes := Slots.map_exchange hi hj htype
    cases a with
    | none =>
      obtain rfl : b = none := by simpa using htype.symm
      have hcontent : c.exchange i j = c := by
        rw [Slots.exchange, hi, hj]
        exact (congrArg (fun c => Slots.put c j none) (Slots.put_content hi)).trans
          (Slots.put_content hj)
      refine ⟨s, ?_, by rwa [hcontent]⟩
      simp [State.swap, h.vtable_eq hi, h.vtable_eq hj]
    | some o =>
      obtain ⟨o', rfl, htype'⟩ : ∃ o', b = some o' ∧ o'.type = o.type := by
        obtain ⟨o', ho', ht⟩ := Option.map_eq_some_iff.mp htype.symm
        exact ⟨o', ho', ht⟩
      obtain ⟨s', hs', h'⟩ := Shows.vtableSwap h hi hj htype' fun hij => hself hij o rfl
      refine ⟨s', ?_, ?_⟩
      · simp [State.swap, h.vtable_eq hi, h.vtable_eq hj, htype', hs']
      · rw [Has, htypes]
        exact h'
  · exact Shows.swap_of_ne h hi hj htype

/-- What the temporary contains is in `i` then. -/
theorem swapInto (h : Has info (c.push b) s) (hi : c.content i = some a) :
    ∃ s', s.swapInto info i = some s' ∧ Has info (c.put i b) s' := by
  have hli := Nat.ne_of_lt (Slots.lt_size hi)
  obtain ⟨s₁, hs₁, h₁⟩ := h.swap Slots.content_push_self (Slots.content_push hi)
    fun hij => absurd hij (Ne.symm hli)
  have hcontent : (c.push b).exchange c.size i = ((c.put i b).push b).put c.size a := by
    rw [Slots.exchange, Slots.content_push_self, Slots.content_push hi,
      Slots.put_comm (Ne.symm hli), Slots.push_put hi]
    rfl
  rw [hcontent] at h₁
  obtain ⟨s₂, hs₂, h₂⟩ := h₁.destruct (i := c.size) (Slots.content_put_self
    Slots.content_push_self)
  refine ⟨s₂.pop, ?_, ?_⟩
  · simp [State.swapInto, Shows.size_eq h, hs₁, hs₂]
  · have h₃ := Shows.pop h₂ (by simp [Slots.remove])
    rw [← Slots.map_pop] at h₃
    rw [Has, ← Slots.pop_remove_put_push (c.put i b) b a]
    exact h₃

/-! ## Assignments

Each of them is a swap with a temporary. -/

theorem copyAssign (h : Has info c s) (hi : c.content i = some a) (hj : c.content j = some b)
    (throws : Bool) :
    ∃ s', s.copyAssign info i j throws = some (s', b.isNone || !throws) ∧
      Has info (if b.isNone || !throws then c.put i b else c) s' := by
  obtain ⟨s₁, hs₁, h₁⟩ := h.copyConstruct hj throws
  cases hreturn : (b.isNone || !throws) with
  | false =>
    rw [hreturn] at hs₁ h₁
    exact ⟨s₁, by simp [State.copyAssign, hs₁], h₁⟩
  | true =>
    rw [hreturn] at hs₁ h₁
    obtain ⟨s₂, hs₂, h₂⟩ := swapInto h₁ hi
    exact ⟨s₂, by simp [State.copyAssign, hs₁, hs₂], h₂⟩

/-- An `any` that is moved to itself has its object again at the end. -/
theorem moveAssign (h : Has info c s) (hi : c.content i = some a) (hj : c.content j = some b) :
    ∃ s', s.moveAssign info i j = some s' ∧ Has info ((c.put j none).put i b) s' := by
  obtain ⟨s₁, hs₁, h₁⟩ := h.moveConstruct hj
  obtain ⟨a', hi'⟩ : ∃ a', (c.put j none).content i = some a' := by
    by_cases hij : i = j
    · subst hij
      exact ⟨none, Slots.content_put_self hi⟩
    · exact ⟨a, (Slots.content_put_of_ne hij).trans hi⟩
  obtain ⟨s₂, hs₂, h₂⟩ := h₁.swapInto hi'
  exact ⟨s₂, by simp [State.moveAssign, hs₁, hs₂], h₂⟩

theorem assign (h : Has info c s) (hi : c.content i = some a) (o : Object τ α)
    (throws : Bool) :
    ∃ s', s.assign info i o throws = some (s', !throws) ∧
      Has info (if throws then c else c.put i (some o)) s' := by
  obtain ⟨s₁, hs₁, h₁⟩ := h.construct o throws
  cases throws with
  | true => exact ⟨s₁, by simp [State.assign, hs₁], h₁⟩
  | false =>
    obtain ⟨s₂, hs₂, h₂⟩ := swapInto h₁ hi
    exact ⟨s₂, by simp [State.assign, hs₁, hs₂], h₂⟩

/-! ## `any_cast` -/

/-- The pointer to the object of `any` `i`. -/
theorem anyCast {o : Object τ α} (h : Has info c s) (hi : c.content i = some (some o)) :
    ∃ p, s.anyCast info o.type (some i) = some p ∧ s.load o.type p = some o := by
  have hvtable : s.vtable i = some (some o.type) := h.vtable_eq hi
  rw [State.anyCast, Option.bind_some, if_pos hvtable, State.cast]
  rcases Shows.storage_cases h hi with ⟨hreq, p, hs, hp⟩ | ⟨hreq, hs⟩
  · rw [hreq, if_pos rfl, hs]
    exact ⟨.heap p, rfl, by simp [State.load, hp]⟩
  · rw [hreq, if_neg (by simp)]
    exact ⟨.inside i, rfl, Shows.derefStack_eq hs⟩

theorem anyCast_of_type_ne (h : Has info c s) (hi : c.content i = some b) {t : τ}
    (htype : b.map Object.type ≠ some t) : s.anyCast info t (some i) = none := by
  rw [State.anyCast, Option.bind_some, h.vtable_eq hi, if_neg (by simpa using htype)]

theorem store {o : Object τ α} {p : Address} (h : Has info c s)
    (hi : c.content i = some (some o)) (hp : s.anyCast info o.type (some i) = some p) (x : α) :
    ∃ s', s.store o.type p x = some s' ∧
      Has info (c.put i (some { o with value := x })) s' := by
  have hvtable : s.vtable i = some (some o.type) := h.vtable_eq hi
  have htypes : (c.put i (some { o with value := x })).map Object.type = c.map Object.type := by
    rw [Slots.map_put]
    refine Slots.put_content ?_
    rw [Slots.content_map, hi]
    rfl
  rw [State.anyCast, Option.bind_some, if_pos hvtable, State.cast] at hp
  rcases Shows.storage_cases h hi with ⟨hreq, q, hs, hq⟩ | ⟨hreq, hs⟩
  · rw [hreq, if_pos rfl, hs] at hp
    obtain rfl : .heap q = p := Option.some.inj hp
    refine ⟨{ s with heap := s.heap.set q (some { o with value := x }) },
      by simp [State.store, State.load, hq], ?_⟩
    rw [Has, htypes]
    exact Shows.setHeap h hs _ fun o' ho' => by cases ho'; exact hreq
  · rw [hreq, if_neg (by simp)] at hp
    obtain rfl : .inside i = p := Option.some.inj hp
    refine ⟨s.setStorage i (.stack { o with value := x }), ?_, ?_⟩
    · simp [State.store, State.load, Shows.derefStack_eq hs]
    · rw [Has, htypes]
      refine Shows.setStorage (x := .stack _) h ?_ rfl fun o' ho' => by cases ho'; exact hreq
      rw [Shows.target_of_storage s.heap hs]
      rfl

end Has
end Any
end TryAndLearn
