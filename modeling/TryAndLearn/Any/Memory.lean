import TryAndLearn.Any.Basic
import TryAndLearn.Machine.Ownership
import TryAndLearn.Machine.Slots

/-!
# What the storages contain

The object a storage contains is in the storage or in the heap cell to which it points.
`Shows` relates a state to the types and the objects that its `any` objects have, and the
functions of a table are what they do to these.

The contents of two storages are exchanged as their owners are, and to move an object on
the heap is to exchange its owner with one that points to nothing.
-/

universe u

namespace TryAndLearn
namespace Any

variable {τ α : Type u}

namespace Storage

def pointer : Storage τ α → Option Nat
  | .dynamic p => p
  | .raw | .stack _ => none

def inPlace : Storage τ α → Option (Object τ α)
  | .stack o => some o
  | .raw | .dynamic _ => none

def object (heap : List (Option (Object τ α))) : Storage τ α → Option (Object τ α)
  | .raw => none
  | .dynamic p => p.bind fun p => heap[p]?.join
  | .stack o => some o

end Storage

namespace State

def pointer (s : State τ α) (i : Nat) : Option Nat := (s.storage i).bind Storage.pointer

variable {s : State τ α} {i j k : Nat}

/-! ## Reading what has been written -/

theorem storage_setStorage (s : State τ α) (i : Nat) (x : Storage τ α) (k : Nat) :
    (s.setStorage i x).storage k =
      if i = k then (s.storage k).map fun _ => x else s.storage k := by
  by_cases h : i = k
  · subst h
    simp only [setStorage, storage, get, List.getElem?_modify_eq, if_true]
    cases s.anys[i]? with
    | none => rfl
    | some a => cases a <;> rfl
  · simp [setStorage, storage, get, h]

@[simp] theorem vtable_setStorage (s : State τ α) (i : Nat) (x : Storage τ α) :
    (s.setStorage i x).vtable = s.vtable := by
  funext k
  by_cases h : i = k
  · subst h
    simp only [setStorage, vtable, get, List.getElem?_modify_eq]
    cases s.anys[i]? with
    | none => rfl
    | some a => cases a <;> rfl
  · simp [setStorage, vtable, get, h]

theorem vtable_setVtable (s : State τ α) (i : Nat) (v : Option τ) (k : Nat) :
    (s.setVtable i v).vtable k = if i = k then (s.vtable k).map fun _ => v else s.vtable k := by
  by_cases h : i = k
  · subst h
    simp only [setVtable, vtable, get, List.getElem?_modify_eq, if_true]
    cases s.anys[i]? with
    | none => rfl
    | some a => cases a <;> rfl
  · simp [setVtable, vtable, get, h]

@[simp] theorem storage_setVtable (s : State τ α) (i : Nat) (v : Option τ) :
    (s.setVtable i v).storage = s.storage := by
  funext k
  by_cases h : i = k
  · subst h
    simp only [setVtable, storage, get, List.getElem?_modify_eq]
    cases s.anys[i]? with
    | none => rfl
    | some a => cases a <;> rfl
  · simp [setVtable, storage, get, h]

theorem get_push (s : State τ α) (v : Option τ) (k : Nat) :
    (s.push v).get k = if k = s.anys.length then some { vtable := v } else s.get k := by
  by_cases h : k = s.anys.length
  · simp [push, get, h]
  · by_cases hlt : k < s.anys.length
    · simp [push, get, h, List.getElem?_append_left hlt]
    · rw [if_neg h, push, get, get, List.getElem?_eq_none (by simp; omega),
        List.getElem?_eq_none (by omega)]

theorem get_pop (s : State τ α) (k : Nat) :
    s.pop.get k = if k = s.anys.length - 1 then none else s.get k := by
  simp only [pop, get, List.getElem?_dropLast]
  by_cases h : k = s.anys.length - 1
  · simp [h]
  · by_cases hlt : k < s.anys.length - 1
    · simp [h, hlt]
    · rw [if_neg hlt, if_neg h, List.getElem?_eq_none (by omega)]

theorem get_remove (s : State τ α) (i k : Nat) :
    (s.remove i).get k = if k = i then none else s.get k := by
  by_cases h : k = i
  · subst h
    simp only [remove, get, List.getElem?_set_self', if_true]
    cases s.anys[k]? <;> rfl
  · simp [remove, get, h, List.getElem?_set_ne (Ne.symm h)]

theorem get_of_length_le (h : s.anys.length ≤ i) : s.get i = none := by
  rw [get, List.getElem?_eq_none h]
  rfl

theorem place_heap (s : State τ α) (heap : List (Option (Object τ α))) (i : Nat)
    (x : Storage τ α) : ({ s with heap := heap } : State τ α).place i x =
      (s.place i x).map fun s => { s with heap := heap } := by
  have hs : ({ s with heap := heap } : State τ α).storage i = s.storage i := rfl
  rw [place, place, hs]
  cases s.storage i with
  | none => rfl
  | some y => cases y <;> rfl

/-! ## Types and objects -/

def vtables (s : State τ α) : Slots τ where
  size := s.anys.length
  content := s.vtable
  bound i hi := by
    rw [vtable, get_of_length_le hi]
    rfl

def objects (s : State τ α) : Slots (Object τ α) where
  size := s.anys.length
  content i := (s.storage i).map (Storage.object s.heap)
  bound i hi := by
    rw [storage, get_of_length_le hi]
    rfl

end State

/-- The objects on the heap are owned by storages, and each object is where its type wants
it to be. -/
structure Sound (info : τ → TypeInfo) (s : State τ α) : Prop where
  owned : Owned s.heap s.pointer
  allocated : ∀ {i o}, target s.heap s.pointer i = some o →
    (info o.type).requiresAllocation = true
  inPlace : ∀ {i o}, s.storage i = some (.stack o) → (info o.type).requiresAllocation = false

structure Shows (info : τ → TypeInfo) (vtables : Slots τ) (objects : Slots (Object τ α))
    (s : State τ α) : Prop where
  sound : Sound info s
  vtables : s.vtables = vtables
  objects : s.objects = objects

namespace Shows

variable {info : τ → TypeInfo} {v : Slots τ} {c : Slots (Object τ α)} {s s' : State τ α}
  {i j : Nat} {o o' : Object τ α} {x y : Storage τ α}

theorem size_eq (h : Shows info v c s) : s.anys.length = c.size := by
  rw [← h.objects]
  rfl

theorem vtable_eq (h : Shows info v c s) (i : Nat) : s.vtable i = v.content i := by
  rw [← h.vtables]
  rfl

theorem storage_of_content (h : Shows info v c s) {b : Option (Object τ α)}
    (hc : c.content i = some b) : ∃ x, s.storage i = some x ∧ x.object s.heap = b := by
  rw [← h.objects] at hc
  exact Option.map_eq_some_iff.mp hc

theorem of_eq {v' : Slots τ} {c' : Slots (Object τ α)} (h : Shows info v c s) (hv : v = v')
    (hc : c = c') : Shows info v' c' s := by
  subst hv hc
  exact h

/-- Nothing but the heap, the storages and the tables matters. -/
theorem congr (h : Shows info v c s) (hheap : s'.heap = s.heap)
    (hlength : s'.anys.length = s.anys.length) (hstorage : s'.storage = s.storage)
    (hvtable : s'.vtable = s.vtable) : Shows info v c s' where
  sound :=
    have hpointer : s'.pointer = s.pointer := by
      funext k
      rw [State.pointer, State.pointer, hstorage]
    { owned := by rw [hheap, hpointer]; exact h.sound.owned
      allocated := by rw [hheap, hpointer]; exact h.sound.allocated
      inPlace := by rw [hstorage]; exact h.sound.inPlace }
  vtables := by
    rw [← h.vtables]
    exact Slots.ext hlength hvtable
  objects := by
    rw [← h.objects]
    refine Slots.ext hlength (funext fun k => ?_)
    show (s'.storage k).map _ = (s.storage k).map _
    rw [hstorage, hheap]

/-! ## Storages -/

theorem target_of_storage (heap : List (Option (Object τ α))) (h : s.storage i = some x) :
    target heap s.pointer i = x.pointer.bind fun p => heap[p]?.join := by
  rw [target, State.pointer, h]
  rfl

theorem content_objects (s : State τ α) (k : Nat) : s.objects.content k =
    ((s.storage k).map Storage.inPlace).map fun q => q.or (target s.heap s.pointer k) := by
  show (s.storage k).map (Storage.object s.heap) = _
  cases hs : s.storage k with
  | none => rfl
  | some x =>
    rw [target_of_storage s.heap hs]
    cases x with
    | raw => rfl
    | dynamic p => rfl
    | stack o => rfl

/-- What one storage has, in itself or on the heap, has changed. -/
theorem update {p q : Option (Object τ α)} (h : Shows info v c s)
    (hlength : s'.anys.length = s.anys.length) (hvtable : s'.vtable = s.vtable)
    (howned : Owned s'.heap s'.pointer)
    (htarget : target s'.heap s'.pointer = Function.update (target s.heap s.pointer) i p)
    (hself : (s'.storage i).map Storage.inPlace = (s.storage i).map fun _ => q)
    (hother : ∀ k, k ≠ i → (s'.storage k).map Storage.inPlace =
      (s.storage k).map Storage.inPlace)
    (hp : ∀ o ∈ p, (info o.type).requiresAllocation = true)
    (hq : ∀ o ∈ q, (info o.type).requiresAllocation = false) :
    Shows info v (c.put i (q.or p)) s' := by
  refine ⟨⟨howned, ?_, ?_⟩, ?_, ?_⟩
  · intro k o hk
    rw [htarget] at hk
    by_cases hki : k = i
    · rw [hki, Function.update_self] at hk
      exact hp o hk
    · rw [Function.update_of_ne hki] at hk
      exact h.sound.allocated hk
  · intro k o hk
    have hin : (s'.storage k).map Storage.inPlace = some (some o) := by
      rw [hk]
      rfl
    by_cases hki : k = i
    · rw [hki, hself] at hin
      obtain ⟨-, -, hqo⟩ := Option.map_eq_some_iff.mp hin
      exact hq o hqo
    · rw [hother k hki] at hin
      obtain ⟨y, hy, hyo⟩ := Option.map_eq_some_iff.mp hin
      cases y with
      | raw => cases hyo
      | dynamic p => cases hyo
      | stack o' =>
        obtain rfl : o' = o := Option.some.inj hyo
        exact h.sound.inPlace hy
  · rw [← h.vtables]
    exact Slots.ext hlength hvtable
  · rw [← h.objects]
    refine Slots.ext hlength (funext fun k => ?_)
    show _ = Function.update s.objects.content i _ k
    rw [content_objects, htarget]
    by_cases hki : k = i
    · subst hki
      rw [hself, Function.update_self, Function.update_self, content_objects]
      simp only [Option.map_map]
      rfl
    · rw [hother k hki, Function.update_of_ne hki, Function.update_of_ne hki, content_objects]

/-- A storage from which no object on the heap is lost. -/
theorem setStorage (h : Shows info v c s) (hi : target s.heap s.pointer i = none)
    (hx : x.pointer = none)
    (hplace : ∀ o ∈ x.inPlace, (info o.type).requiresAllocation = false) :
    Shows info v (c.put i x.inPlace) (s.setStorage i x) := by
  have hpointer : (s.setStorage i x).pointer = Function.update s.pointer i none := by
    funext k
    rw [State.pointer, State.storage_setStorage]
    by_cases hk : i = k
    · subst hk
      cases hs : s.storage i <;> simp [hx]
    · rw [if_neg hk, Function.update_of_ne (Ne.symm hk)]
      rfl
  rw [← Option.or_none (o := x.inPlace)]
  refine h.update (by simp [State.setStorage]) (State.vtable_setStorage s i x) ?_ ?_ ?_ ?_
    (by simp) hplace
  · rw [hpointer]
    exact h.sound.owned.forget hi
  · rw [hpointer]
    exact Owned.target_forget s.heap s.pointer i
  · rw [State.storage_setStorage, if_pos rfl, Option.map_map]
    rfl
  · intro k hk
    rw [State.storage_setStorage, if_neg (Ne.symm hk)]

theorem storage_exchange (hi : s.storage i = some x) (hj : s.storage j = some y) :
    ((s.setStorage i y).setStorage j x).storage = s.storage ∘ Equiv.swap i j := by
  funext k
  rw [State.storage_setStorage, State.storage_setStorage, Function.comp_apply]
  by_cases hj' : j = k
  · subst hj'
    rw [if_pos rfl, Equiv.swap_apply_right, hi]
    by_cases hij : i = j
    · simp [hij, hj]
    · simp [hij, hj]
  · rw [if_neg hj']
    by_cases hi' : i = k
    · subst hi'
      rw [if_pos rfl, Equiv.swap_apply_left, hi, hj]
      rfl
    · rw [if_neg hi', Equiv.swap_apply_of_ne_of_ne (Ne.symm hi') (Ne.symm hj')]

theorem exchange (h : Shows info v c s) (hi : s.storage i = some x)
    (hj : s.storage j = some y) :
    Shows info v (c.exchange i j) ((s.setStorage i y).setStorage j x) := by
  have hstorage := storage_exchange hi hj
  have hpointer : ((s.setStorage i y).setStorage j x).pointer = s.pointer ∘ Equiv.swap i j := by
    funext k
    rw [State.pointer, hstorage]
    rfl
  refine ⟨⟨?_, ?_, ?_⟩, ?_, ?_⟩
  · rw [hpointer]
    exact h.sound.owned.comp _
  · intro k o hk
    rw [hpointer] at hk
    exact h.sound.allocated (i := Equiv.swap i j k) hk
  · intro k o hk
    rw [hstorage] at hk
    exact h.sound.inPlace hk
  · rw [← h.vtables]
    exact Slots.ext (by simp [State.vtables, State.setStorage]) (by simp [State.vtables])
  · rw [← h.objects]
    refine Slots.ext (by simp [State.objects, State.setStorage, Slots.exchange, Slots.put])
      (funext fun k => ?_)
    show (((s.setStorage i y).setStorage j x).storage k).map (Storage.object s.heap) = _
    have hx : s.objects.content i = some (x.object s.heap) := by simp [State.objects, hi]
    have hy : s.objects.content j = some (y.object s.heap) := by simp [State.objects, hj]
    rw [hstorage, Function.comp_apply, Slots.content_exchange hx hy]
    rfl

/-- What a storage with an object holds. -/
theorem storage_cases (h : Shows info v c s) (hc : c.content i = some (some o)) :
    ((info o.type).requiresAllocation = true ∧ ∃ p, s.storage i = some (.dynamic (some p)) ∧
      s.heap[p]? = some (some o)) ∨
    ((info o.type).requiresAllocation = false ∧ s.storage i = some (.stack o)) := by
  obtain ⟨x, hx, hobject⟩ := h.storage_of_content hc
  cases x with
  | raw => cases hobject
  | dynamic p =>
    left
    cases p with
    | none => cases hobject
    | some p =>
      have hcell : s.heap[p]?.join = some o := hobject
      refine ⟨h.sound.allocated (i := i) ?_, p, hx, Option.join_eq_some_iff.mp hcell⟩
      rw [target_of_storage s.heap hx]
      exact hcell
  | stack o' =>
    right
    obtain rfl : o' = o := Option.some.inj hobject
    exact ⟨h.sound.inPlace hx, hx⟩

theorem storage_of_allocation (h : Shows info v c s) (hc : c.content i = some (some o))
    (hreq : (info o.type).requiresAllocation = true) :
    ∃ p, s.storage i = some (.dynamic (some p)) ∧ s.heap[p]? = some (some o) := by
  rcases h.storage_cases hc with ⟨-, hp⟩ | ⟨hno, -⟩
  · exact hp
  · simp [hreq] at hno

theorem storage_of_inPlace (h : Shows info v c s) (hc : c.content i = some (some o))
    (hreq : (info o.type).requiresAllocation = false) : s.storage i = some (.stack o) := by
  rcases h.storage_cases hc with ⟨hyes, -⟩ | ⟨-, hs⟩
  · simp [hreq] at hyes
  · exact hs

/-- Nothing is lost with a storage that has no object, and it may be written to. -/
theorem place_of_content (h : Shows info v c s) (hc : c.content i = some none)
    (x : Storage τ α) :
    target s.heap s.pointer i = none ∧ s.place i x = some (s.setStorage i x) := by
  obtain ⟨y, hy, hobject⟩ := h.storage_of_content hc
  rw [target_of_storage s.heap hy, State.place, hy]
  cases y with
  | raw => exact ⟨rfl, rfl⟩
  | dynamic p => exact ⟨hobject, rfl⟩
  | stack o => cases hobject

/-! ## The heap -/

/-- Another object, or none, is where the pointer of storage `i` points. -/
theorem setHeap (h : Shows info v c s) {p : Nat} (hi : s.storage i = some (.dynamic (some p)))
    (b : Option (Object τ α)) (hb : ∀ o ∈ b, (info o.type).requiresAllocation = true) :
    Shows info v (c.put i b) { s with heap := s.heap.set p b } := by
  have hp : s.pointer i = some p := by
    rw [State.pointer, hi]
    rfl
  refine h.update (q := none) rfl rfl ?_ (h.sound.owned.target_set hp b) ?_ (fun _ _ => rfl) hb
    (by simp)
  · cases b with
    | none => exact h.sound.owned.free p
    | some o => exact h.sound.owned.store hp o
  · show (s.storage i).map _ = (s.storage i).map _
    rw [hi]
    rfl

theorem newDynamic (h : Shows info v c s) (hc : c.content i = some none)
    (hreq : (info o.type).requiresAllocation = true) :
    ∃ s', s.newDynamic i o = some s' ∧ Shows info v (c.put i (some o)) s' := by
  obtain ⟨htarget, hplace⟩ := h.place_of_content hc (.dynamic (some s.heap.length))
  obtain ⟨y, hy, -⟩ := h.storage_of_content hc
  let t : State τ α := { s with heap := s.heap ++ [some o] }
  have hstorage (k : Nat) : (t.setStorage i (.dynamic (some s.heap.length))).storage k =
      (s.setStorage i (.dynamic (some s.heap.length))).storage k := rfl
  have hpointer : (t.setStorage i (.dynamic (some s.heap.length))).pointer =
      Function.update s.pointer i (some s.heap.length) := by
    funext k
    rw [State.pointer, hstorage, State.storage_setStorage]
    by_cases hk : i = k
    · subst hk
      rw [if_pos rfl, Function.update_self, hy]
      rfl
    · rw [if_neg hk, Function.update_of_ne (Ne.symm hk)]
      rfl
  refine ⟨t.setStorage i (.dynamic (some s.heap.length)), ?_, ?_⟩
  · rw [State.newDynamic, State.place_heap, hplace]
    rfl
  · refine h.update (q := none) (by simp [State.setStorage, t]) (State.vtable_setStorage t i _)
      ?_ ?_ ?_ ?_ (fun o' ho' => by cases ho'; exact hreq) (by simp)
    · rw [hpointer]
      exact h.sound.owned.alloc htarget o
    · rw [hpointer]
      exact h.sound.owned.target_alloc i o
    · rw [hstorage, State.storage_setStorage, if_pos rfl, Option.map_map]
      rfl
    · intro k hk
      rw [hstorage, State.storage_setStorage, if_neg (Ne.symm hk)]

/-! ## `any` objects that begin and end -/

theorem push (h : Shows info v c s) (vtable : Option τ) :
    Shows info (v.push vtable) (c.push none) (s.push vtable) := by
  have hpointer : (s.push vtable).pointer = s.pointer := by
    funext k
    rw [State.pointer, State.pointer, State.storage, State.storage, State.get_push]
    by_cases hk : k = s.anys.length
    · rw [if_pos hk, State.get_of_length_le (by omega)]
      rfl
    · rw [if_neg hk]
  refine ⟨⟨?_, ?_, ?_⟩, ?_, ?_⟩
  · rw [hpointer]
    exact h.sound.owned
  · rw [hpointer]
    exact h.sound.allocated
  · intro k o hk
    rw [State.storage, State.get_push] at hk
    by_cases hlast : k = s.anys.length
    · simp [hlast] at hk
    · rw [if_neg hlast] at hk
      exact h.sound.inPlace hk
  · rw [← h.vtables]
    refine Slots.ext (by simp [State.vtables, State.push, Slots.push]) (funext fun k => ?_)
    show ((s.push vtable).get k).map _ = Function.update s.vtable s.anys.length _ k
    rw [State.get_push]
    by_cases hlast : k = s.anys.length
    · rw [if_pos hlast, hlast, Function.update_self]
      rfl
    · rw [if_neg hlast, Function.update_of_ne hlast]
      rfl
  · rw [← h.objects]
    refine Slots.ext (by simp [State.objects, State.push, Slots.push]) (funext fun k => ?_)
    show (((s.push vtable).get k).map _).map _ = Function.update s.objects.content _ _ k
    rw [State.get_push]
    by_cases hlast : k = s.anys.length
    · rw [if_pos hlast, hlast]
      exact (Function.update_self s.anys.length _ s.objects.content).symm
    · rw [if_neg hlast]
      exact (Function.update_of_ne (a := k) hlast _ s.objects.content).symm

/-- An `any` may end when no object is lost with it. -/
theorem drop (h : Shows info v c s) (hi : ∀ o, c.content i ≠ some (some o))
    (hheap : s'.heap = s.heap) (hget : ∀ k, s'.get k = if k = i then none else s.get k) :
    Sound info s' ∧ s'.vtable = Function.update s.vtable i none ∧
      s'.objects.content = Function.update s.objects.content i none := by
  have hstorage : s'.storage = Function.update s.storage i none := by
    funext k
    rw [State.storage, hget]
    by_cases hk : k = i
    · simp [hk]
    · rw [if_neg hk, Function.update_of_ne hk]
      rfl
  have hpointer : s'.pointer = Function.update s.pointer i none := by
    funext k
    rw [State.pointer, hstorage]
    by_cases hk : k = i
    · simp [hk]
    · rw [Function.update_of_ne hk, Function.update_of_ne hk]
      rfl
  have htarget : target s.heap s.pointer i = none := by
    cases hc : c.content i with
    | none =>
      rw [← h.objects] at hc
      rw [target, State.pointer, Option.map_eq_none_iff.mp hc]
      rfl
    | some b =>
      cases b with
      | none => exact (h.place_of_content hc .raw).1
      | some o => exact absurd hc (hi o)
  refine ⟨⟨?_, ?_, ?_⟩, ?_, ?_⟩
  · rw [hheap, hpointer]
    exact h.sound.owned.forget htarget
  · intro k o hk
    rw [hheap, hpointer, Owned.target_forget] at hk
    by_cases hki : k = i
    · simp [hki] at hk
    · rw [Function.update_of_ne hki] at hk
      exact h.sound.allocated hk
  · intro k o hk
    rw [hstorage] at hk
    by_cases hki : k = i
    · simp [hki] at hk
    · rw [Function.update_of_ne hki] at hk
      exact h.sound.inPlace hk
  · funext k
    rw [State.vtable, hget]
    by_cases hk : k = i
    · simp [hk]
    · rw [if_neg hk, Function.update_of_ne hk]
      rfl
  · funext k
    show (s'.storage k).map (Storage.object s'.heap) = _
    rw [hstorage, hheap]
    by_cases hk : k = i
    · simp [hk]
    · rw [Function.update_of_ne hk, Function.update_of_ne hk]
      rfl

theorem remove (h : Shows info v c s) (hi : ∀ o, c.content i ≠ some (some o)) :
    Shows info (v.remove i) (c.remove i) (s.remove i) := by
  have hheap : (s.remove i).heap = s.heap := rfl
  obtain ⟨hsound, hvtable, hobjects⟩ := h.drop hi hheap (s.get_remove i)
  refine ⟨hsound, ?_, ?_⟩
  · rw [← h.vtables]
    exact Slots.ext (by simp [State.vtables, State.remove]) hvtable
  · rw [← h.objects]
    exact Slots.ext (by simp [State.objects, State.remove]) hobjects

theorem pop (h : Shows info v c s) (hi : ∀ o, c.content (c.size - 1) ≠ some (some o)) :
    Shows info v.pop c.pop s.pop := by
  rw [← h.size_eq] at hi
  have hheap : s.pop.heap = s.heap := rfl
  obtain ⟨hsound, hvtable, hobjects⟩ := h.drop hi hheap s.get_pop
  refine ⟨hsound, ?_, ?_⟩
  · rw [← h.vtables]
    exact Slots.ext (by simp [State.vtables, State.pop]) hvtable
  · rw [← h.objects]
    exact Slots.ext (by simp [State.objects, State.pop]) hobjects

theorem setVtable (h : Shows info v c s) (i : Nat) (vtable : Option τ) :
    Shows info (v.put i vtable) c (s.setVtable i vtable) := by
  have hstorage := State.storage_setVtable s i vtable
  have hpointer : (s.setVtable i vtable).pointer = s.pointer := by
    funext k
    rw [State.pointer, hstorage]
    rfl
  refine ⟨⟨?_, ?_, ?_⟩, ?_, ?_⟩
  · rw [hpointer]
    exact h.sound.owned
  · rw [hpointer]
    exact h.sound.allocated
  · rw [hstorage]
    exact h.sound.inPlace
  · rw [← h.vtables]
    refine Slots.ext (by simp [State.vtables, State.setVtable]) (funext fun k => ?_)
    show (s.setVtable i vtable).vtable k = Function.update s.vtable i _ k
    rw [State.vtable_setVtable]
    by_cases hk : i = k
    · subst hk
      rw [if_pos rfl, Function.update_self]
      rfl
    · rw [if_neg hk, Function.update_of_ne (Ne.symm hk)]
  · rw [← h.objects]
    refine Slots.ext (by simp [State.objects, State.setVtable]) (funext fun k => ?_)
    show ((s.setVtable i vtable).storage k).map _ = (s.storage k).map _
    rw [hstorage]
    rfl

end Shows
end Any
end TryAndLearn
