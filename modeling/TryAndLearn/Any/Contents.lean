import TryAndLearn.Any.Members

/-!
# What a program sees of `any`

To a program an `any` is empty or contains an object, and a call changes what is
contained.  `Act.effect` is this meaning of the calls.  Every call has it, as long as the
objects it is given are alive, with the exception of one: an `any` that has its object in
its storage and is swapped with itself.
-/

universe u

namespace TryAndLearn
namespace Any

variable {τ α : Type u}

namespace Act

/-- The `any` objects that exist before the call. -/
def operands : Act τ α → List Nat
  | .default | .construct _ _ => []
  | .copyConstruct rhs _ | .moveConstruct rhs => [rhs]
  | .copyAssign this rhs _ | .moveAssign this rhs | .swap this rhs => [this, rhs]
  | .assign this _ _ => [this]
  | .clear i | .destruct i | .anyCastStore _ i _ | .anyCastMove _ i => [i]

def Alive (a : Act τ α) (c : Slots (Object τ α)) : Prop :=
  ∀ i ∈ a.operands, (c.content i).isSome = true

instance (a : Act τ α) (c : Slots (Object τ α)) : Decidable (a.Alive c) :=
  inferInstanceAs (Decidable (∀ i ∈ a.operands, (c.content i).isSome = true))

/-- `x.swap(x)`, where the object is in the storage of `x`. -/
def SwapsInPlace (info : τ → TypeInfo) (c : Slots (Object τ α)) : Act τ α → Prop
  | .swap this rhs => this = rhs ∧
    ∃ o, c.content this = some (some o) ∧ (info o.type).requiresAllocation = false
  | _ => False

variable [DecidableEq τ] (info : τ → TypeInfo) (moved : α → α)

/-- What the `any` objects contain after the call.  A call that throws changes nothing. -/
def effect (c : Slots (Object τ α)) : Act τ α → Slots (Object τ α)
  | .default => c.push none
  | .copyConstruct rhs throws =>
    if (c.content rhs).join.isNone || !throws then c.push (c.content rhs).join else c
  | .moveConstruct rhs => (c.put rhs none).push (c.content rhs).join
  | .construct o throws => if throws then c else c.push (some o)
  | .copyAssign this rhs throws =>
    if (c.content rhs).join.isNone || !throws then c.put this (c.content rhs).join else c
  | .moveAssign this rhs => (c.put rhs none).put this (c.content rhs).join
  | .assign this o throws => if throws then c else c.put this (some o)
  | .clear i => c.put i none
  | .swap this rhs => c.exchange this rhs
  | .destruct i => c.remove i
  | .anyCastStore t i v =>
    if (c.content i).join.map Object.type = some t then c.put i (some { type := t, value := v })
    else c
  | .anyCastMove t i =>
    match (c.content i).join with
    | none => c
    | some o =>
      if o.type = t ∧ (info t).moveConstructible then
        c.put i (some { o with value := moved o.value })
      else c

end Act

namespace Has

variable {info : τ → TypeInfo} {moved : α → α} {c : Slots (Object τ α)} {s s' : State τ α}
  {i : Nat} {t : τ} {a : Act τ α}

theorem alive (hi : i ∈ a.operands) (h : a.Alive c) :
    c.content i = some (c.content i).join := by
  obtain ⟨b, hb⟩ := Option.isSome_iff_exists.mp (h i hi)
  rw [hb]
  rfl

variable [DecidableEq τ]

theorem step_anyCastStore (h : Has info c s) (hi : c.content i = some (c.content i).join)
    (x : α) : ∃ s', step info moved s (.anyCastStore t i x) = some s' ∧
      Has info ((Act.anyCastStore t i x).effect info moved c) s' := by
  rw [step, State.anyCastStore, Act.effect]
  by_cases htype : (c.content i).join.map Object.type = some t
  · obtain ⟨o, ho, rfl⟩ := Option.map_eq_some_iff.mp htype
    rw [ho] at hi
    obtain ⟨p, hp, -⟩ := h.anyCast hi
    obtain ⟨s', hs', h'⟩ := h.store hi hp x
    rw [if_pos htype, hp]
    exact ⟨s', by simp [hs'], h'⟩
  · rw [if_neg htype, h.anyCast_of_type_ne hi htype]
    exact ⟨s, rfl, h⟩

theorem step_anyCastMove (h : Has info c s) (hi : c.content i = some (c.content i).join) :
    ∃ s', step info moved s (.anyCastMove t i) = some s' ∧
      Has info ((Act.anyCastMove t i).effect info moved c) s' := by
  rw [step, State.anyCastMove, Act.effect]
  cases hb : (c.content i).join with
  | none =>
    rw [hb] at hi
    rw [h.anyCast_of_type_ne hi (by simp)]
    exact ⟨s, rfl, h⟩
  | some o =>
    rw [hb] at hi
    by_cases htype : o.type = t
    · subst htype
      obtain ⟨p, hp, hload⟩ := h.anyCast hi
      rw [hp]
      cases hmove : (info o.type).moveConstructible with
      | true =>
        obtain ⟨s', hs', h'⟩ := h.store hi hp (moved o.value)
        exact ⟨s', by simp [hload, hs'], by simpa [hmove] using h'⟩
      | false => exact ⟨s, by simp [hload], by simpa [hmove] using h⟩
    · rw [h.anyCast_of_type_ne hi (by simpa using htype)]
      exact ⟨s, rfl, by simpa [htype] using h⟩

/-- Each call by itself. -/
theorem step_of_alive (h : Has info c s) (ha : a.Alive c) (hswap : ¬a.SwapsInPlace info c) :
    ∃ s', step info moved s a = some s' ∧ Has info (a.effect info moved c) s' := by
  cases a with
  | default => exact ⟨_, rfl, h.push⟩
  | copyConstruct rhs throws =>
    obtain ⟨s', hs', h'⟩ := h.copyConstruct (alive (i := rhs) (by simp [Act.operands]) ha) throws
    exact ⟨s', by simp [step, hs'], h'⟩
  | moveConstruct rhs => exact h.moveConstruct (alive (by simp [Act.operands]) ha)
  | construct o throws =>
    obtain ⟨s', hs', h'⟩ := h.construct o throws
    exact ⟨s', by simp [step, hs'], h'⟩
  | copyAssign this rhs throws =>
    obtain ⟨s', hs', h'⟩ := h.copyAssign (alive (i := this) (by simp [Act.operands]) ha)
      (alive (i := rhs) (by simp [Act.operands]) ha) throws
    exact ⟨s', by simp [step, hs'], h'⟩
  | moveAssign this rhs =>
    exact h.moveAssign (alive (i := this) (by simp [Act.operands]) ha)
      (alive (i := rhs) (by simp [Act.operands]) ha)
  | assign this o throws =>
    obtain ⟨s', hs', h'⟩ := h.assign (alive (i := this) (by simp [Act.operands]) ha) o throws
    exact ⟨s', by simp [step, hs'], h'⟩
  | clear i => exact h.clear (alive (by simp [Act.operands]) ha)
  | swap this rhs =>
    refine h.swap (alive (i := this) (by simp [Act.operands]) ha)
      (alive (i := rhs) (by simp [Act.operands]) ha) fun heq o ho => ?_
    by_contra hreq
    have hcontent := alive (i := this) (by simp [Act.operands]) ha
    rw [ho] at hcontent
    exact hswap ⟨heq, o, hcontent, by simpa using hreq⟩
  | destruct i => exact h.destruct (alive (by simp [Act.operands]) ha)
  | anyCastStore t i x => exact h.step_anyCastStore (alive (by simp [Act.operands]) ha) x
  | anyCastMove t i => exact h.step_anyCastMove (alive (by simp [Act.operands]) ha)

theorem step_of_swapsInPlace (h : Has info c s) (hswap : a.SwapsInPlace info c) :
    step info moved s a = none := by
  cases a with
  | swap this rhs =>
    obtain ⟨rfl, o, ho, hreq⟩ := hswap
    have hswap : s.vtableSwap info o.type this this = none := by
      rw [State.vtableSwap, hreq, if_neg (by simp)]
      exact Shows.swapStack_self h ho hreq
    simp [step, State.swap, h.vtable_eq ho, hswap]
  | _ => cases hswap

/-- A step that is taken has the meaning of its call. -/
theorem of_step (h : Has info c s) (ha : a.Alive c) (hs : step info moved s a = some s') :
    Has info (a.effect info moved c) s' := by
  by_cases hswap : a.SwapsInPlace info c
  · rw [h.step_of_swapsInPlace hswap] at hs
    cases hs
  · obtain ⟨t, ht, h'⟩ : ∃ t, step info moved s a = some t ∧ Has info (a.effect info moved c) t :=
      h.step_of_alive ha hswap
    rw [ht] at hs
    obtain rfl : t = s' := Option.some.inj hs
    exact h'

end Has

/-- The calls of a program get `any` objects that are alive. -/
def AliveOperands (s : State τ α) (a : Act τ α) : Prop := a.Alive s.objects

instance (s : State τ α) (a : Act τ α) : Decidable (AliveOperands s a) :=
  inferInstanceAs (Decidable (a.Alive s.objects))

section

variable [DecidableEq τ] {info : τ → TypeInfo} {moved : α → α} {s s' : State τ α}

theorem reachable_has (h : (machine info moved).Reachable AliveOperands s) :
    Has info s.objects s := by
  refine h.invariant (I := fun s => Has info s.objects s) ?_ ?_
  · intro s hs
    obtain rfl : s = {} := hs
    exact Has.init.objects
  · intro s t a _ ha hs hI
    exact (hI.of_step ha hs).objects

/-- A number, and an array of 16. -/
def twoTypes : Bool → TypeInfo
  | false => ⟨4, 4, true, true⟩
  | true => ⟨64, 4, true, true⟩

/-- An `any` of each type. -/
def numberAndArray : State Bool Nat :=
  { heap := [some ⟨true, 2⟩],
    anys := [some ⟨some false, .stack ⟨false, 1⟩⟩, some ⟨some true, .dynamic (some 0)⟩] }

theorem numberAndArray_reachable :
    (machine twoTypes id).Reachable AliveOperands numberAndArray :=
  Machine.reachable_of_exec [.construct ⟨true, 2⟩ false, .construct ⟨false, 1⟩ false, .swap 0 1]
    rfl (by decide)

/-- The behaviour of a program is defined as long as it does not swap an `any` that has its
object in its storage with itself, and not then. -/
theorem step_isSome_iff {a : Act τ α} (h : (machine info moved).Reachable AliveOperands s)
    (ha : AliveOperands s a) :
    (step info moved s a).isSome = true ↔ ¬a.SwapsInPlace info s.objects := by
  constructor
  · intro hs hswap
    rw [(reachable_has h).step_of_swapsInPlace hswap] at hs
    cases hs
  · intro hswap
    obtain ⟨s', hs', -⟩ : ∃ s', step info moved s a = some s' ∧
        Has info (a.effect info moved s.objects) s' := (reachable_has h).step_of_alive ha hswap
    rw [hs']
    rfl

theorem step_isSome_iff_numberAndArray :
    (step twoTypes id numberAndArray (.swap 0 0)).isSome = true ↔
      ¬(Act.swap 0 0).SwapsInPlace twoTypes numberAndArray.objects :=
  step_isSome_iff numberAndArray_reachable (by decide)

/-- A call changes what the `any` objects contain as its meaning says, also when it
throws, and each of them has the table of its object afterwards. -/
theorem objects_of_step {a : Act τ α} (h : (machine info moved).Reachable AliveOperands s)
    (ha : AliveOperands s a) (hs : step info moved s a = some s') :
    s'.objects = a.effect info moved s.objects ∧
      s'.vtables = s'.objects.map Object.type := by
  have h' := (reachable_has h).of_step ha hs
  exact ⟨Shows.objects h', (Shows.vtables h').trans (by rw [Shows.objects h'])⟩

theorem objects_of_step_numberAndArray :
    let s' : State Bool Nat :=
      { heap := [some ⟨true, 2⟩, some ⟨true, 2⟩],
        anys := [some ⟨some true, .dynamic (some 1)⟩, some ⟨some true, .dynamic (some 0)⟩] }
    s'.objects = (Act.copyAssign 0 1 false).effect twoTypes id numberAndArray.objects ∧
      s'.vtables = s'.objects.map Object.type :=
  objects_of_step (a := .copyAssign 0 1 false) numberAndArray_reachable (by decide) rfl

end

end Any
end TryAndLearn
