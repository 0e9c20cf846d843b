import TryAndLearn.Machine.Run

/-!
# `any`

A program with `any` objects: the objects themselves, by number, and the heap on which
they may keep what they contain.  A heap cell is never used again after `delete`, and an
`any` is never alive again after its destructor.

The `union` and the table of functions are as in the source.  The functions of a table
get references to the storages of two `any` objects, which may be the same.  A function
that reads an object which is not alive, destroys it again, constructs an object where
another one is alive, or lets an exception out of a `noexcept` function does not go on:
its result is `none`.

An object is its type and its value.  To copy an object may throw, and so may the
construction of the contained object from a value; the argument `throws` says whether it
does.  A copy has the value of the original, and so has an object that is constructed
from an rvalue.  `moved` is what such a construction leaves of the original.
-/

universe u

namespace TryAndLearn

structure Object (τ α : Type u) where
  type : τ
  value : α
  deriving DecidableEq, Repr

namespace Any

/-- What the traits of the standard library say of a type. -/
structure TypeInfo where
  size : Nat
  alignment : Nat
  nothrowMoveConstructible : Bool
  moveConstructible : Bool
  deriving DecidableEq, Repr

def sizeofPointer : Nat := 8

def alignofPointer : Nat := 8

/-- `requires_allocation` -/
def TypeInfo.requiresAllocation (i : TypeInfo) : Bool :=
  !(i.nothrowMoveConstructible && decide (i.size ≤ 2 * sizeofPointer) &&
    decide (i.alignment ≤ alignofPointer))

/-- `storage_union`.  A storage is `raw` before an object is constructed in it and after
that object has been destroyed. -/
inductive Storage (τ α : Type u)
  | raw
  | dynamic (p : Option Nat)
  | stack (o : Object τ α)
  deriving DecidableEq, Repr

end Any

/-- There is one table of functions for each type. -/
structure Any (τ α : Type u) where
  vtable : Option τ := none
  storage : Any.Storage τ α := .raw
  deriving DecidableEq, Repr

namespace Any

variable {τ α : Type u}

structure State (τ α : Type u) where
  heap : List (Option (Object τ α)) := []
  anys : List (Option (Any τ α)) := []
  deriving DecidableEq, Repr

namespace State

def get (s : State τ α) (i : Nat) : Option (Any τ α) := s.anys[i]?.join

def vtable (s : State τ α) (i : Nat) : Option (Option τ) := (s.get i).map Any.vtable

def storage (s : State τ α) (i : Nat) : Option (Storage τ α) := (s.get i).map Any.storage

def setVtable (s : State τ α) (i : Nat) (vtable : Option τ) : State τ α :=
  { s with anys := s.anys.modify i (Option.map fun a => { a with vtable := vtable }) }

def setStorage (s : State τ α) (i : Nat) (storage : Storage τ α) : State τ α :=
  { s with anys := s.anys.modify i (Option.map fun a => { a with storage := storage }) }

/-- The next `any` begins. -/
def push (s : State τ α) (vtable : Option τ) : State τ α :=
  { s with anys := s.anys ++ [some { vtable := vtable }] }

/-- A temporary or a local of a member function ends, the last that has begun. -/
def pop (s : State τ α) : State τ α := { s with anys := s.anys.dropLast }

/-- The lifetime of an `any` ends. -/
def remove (s : State τ α) (i : Nat) : State τ α := { s with anys := s.anys.set i none }

/-- Write to a storage in which no object is alive. -/
def place (s : State τ α) (i : Nat) (x : Storage τ α) : Option (State τ α) :=
  match s.storage i with
  | some .raw | some (.dynamic _) => some (s.setStorage i x)
  | some (.stack _) | none => none

variable [DecidableEq τ]

/-! ## `vtable_dynamic` -/

/-- `*reinterpret_cast<T*>(storage.dynamic)` -/
def derefDynamic (s : State τ α) (t : τ) (i : Nat) : Option (Object τ α) :=
  match s.storage i with
  | some (.dynamic (some p)) => s.heap[p]?.join.filter fun o => o.type = t
  | _ => none

/-- `storage.dynamic = new T(...)` -/
def newDynamic (s : State τ α) (i : Nat) (o : Object τ α) : Option (State τ α) :=
  place { s with heap := s.heap ++ [some o] } i (.dynamic (some s.heap.length))

/-- `delete` of a null pointer does nothing. -/
def destroyDynamic (s : State τ α) (t : τ) (i : Nat) : Option (State τ α) :=
  match s.storage i with
  | some (.dynamic none) => some s
  | some (.dynamic (some p)) =>
    (s.derefDynamic t i).map fun _ => { s with heap := s.heap.set p none }
  | some .raw | some (.stack _) | none => none

def copyDynamic (s : State τ α) (t : τ) (src dest : Nat) : Option (State τ α) :=
  (s.derefDynamic t src).bind fun o => s.newDynamic dest o

def moveDynamic (s : State τ α) (src dest : Nat) : Option (State τ α) :=
  match s.storage src with
  | some (.dynamic p) => (s.place dest (.dynamic p)).map fun s => s.setStorage src (.dynamic none)
  | some .raw | some (.stack _) | none => none

def swapDynamic (s : State τ α) (lhs rhs : Nat) : Option (State τ α) :=
  match s.storage lhs, s.storage rhs with
  | some (.dynamic p), some (.dynamic q) =>
    some ((s.setStorage lhs (.dynamic q)).setStorage rhs (.dynamic p))
  | _, _ => none

/-! ## `vtable_stack` -/

/-- `reinterpret_cast<T&>(storage.stack)` -/
def derefStack (s : State τ α) (t : τ) (i : Nat) : Option (Object τ α) :=
  match s.storage i with
  | some (.stack o) => if o.type = t then some o else none
  | _ => none

/-- `new (&storage.stack) T(...)` -/
def newStack (s : State τ α) (i : Nat) (o : Object τ α) : Option (State τ α) :=
  s.place i (.stack o)

def destroyStack (s : State τ α) (t : τ) (i : Nat) : Option (State τ α) :=
  (s.derefStack t i).map fun _ => s.setStorage i .raw

def copyStack (s : State τ α) (t : τ) (src dest : Nat) : Option (State τ α) :=
  (s.derefStack t src).bind fun o => s.newStack dest o

variable (info : τ → TypeInfo)

/-- The move constructor of `T` must not throw here. -/
def moveStack (s : State τ α) (t : τ) (src dest : Nat) : Option (State τ α) := do
  let o ← s.derefStack t src
  if (info t).nothrowMoveConstructible then
    let s ← s.newStack dest o
    s.destroyStack t src
  else none

/-- `tmp_storage` is the storage of an `any` without a table. -/
def swapStack (s : State τ α) (t : τ) (lhs rhs : Nat) : Option (State τ α) := do
  let tmp := s.anys.length
  let s := s.push none
  let s ← s.moveStack info t rhs tmp
  let s ← s.moveStack info t lhs rhs
  let s ← s.moveStack info t tmp lhs
  return s.pop

/-! ## The table of a type -/

def vtableDestroy (s : State τ α) (t : τ) (i : Nat) : Option (State τ α) :=
  if (info t).requiresAllocation then s.destroyDynamic t i else s.destroyStack t i

def vtableCopy (s : State τ α) (t : τ) (src dest : Nat) : Option (State τ α) :=
  if (info t).requiresAllocation then s.copyDynamic t src dest else s.copyStack t src dest

def vtableMove (s : State τ α) (t : τ) (src dest : Nat) : Option (State τ α) :=
  if (info t).requiresAllocation then s.moveDynamic src dest else s.moveStack info t src dest

def vtableSwap (s : State τ α) (t : τ) (lhs rhs : Nat) : Option (State τ α) :=
  if (info t).requiresAllocation then s.swapDynamic lhs rhs else s.swapStack info t lhs rhs

/-- `do_construct` -/
def doConstruct (s : State τ α) (i : Nat) (o : Object τ α) : Option (State τ α) :=
  if (info o.type).requiresAllocation then s.newDynamic i o else s.newStack i o

/-- What the `copy` of a table copies. -/
def deref (s : State τ α) (t : τ) (i : Nat) : Option (Object τ α) :=
  if (info t).requiresAllocation then s.derefDynamic t i else s.derefStack t i

/-! ## The member functions

A constructor makes the `any` whose number is the next one.  If it throws, that `any` is
not there, and neither is the object that it was to contain. -/

/-- `any(const any& rhs)`, with whether it has returned. -/
def copyConstruct (s : State τ α) (rhs : Nat) (throws : Bool) : Option (State τ α × Bool) := do
  match ← s.vtable rhs with
  | none => return (s.push none, true)
  | some t =>
    let _ ← s.deref info t rhs
    if throws then return (s, false)
    let s ← (s.push (some t)).vtableCopy info t rhs s.anys.length
    return (s, true)

/-- `any(any&& rhs)` -/
def moveConstruct (s : State τ α) (rhs : Nat) : Option (State τ α) := do
  match ← s.vtable rhs with
  | none => return s.push none
  | some t =>
    let s ← (s.push (some t)).vtableMove info t rhs s.anys.length
    return s.setVtable rhs none

/-- `any(ValueType&& value)` -/
def construct (s : State τ α) (o : Object τ α) (throws : Bool) : Option (State τ α × Bool) :=
  if throws then some (s, false)
  else ((s.push (some o.type)).doConstruct info s.anys.length o).map fun s => (s, true)

def clear (s : State τ α) (i : Nat) : Option (State τ α) := do
  match ← s.vtable i with
  | none => return s
  | some t =>
    let s ← s.vtableDestroy info t i
    return s.setVtable i none

/-- `~any()` -/
def destruct (s : State τ α) (i : Nat) : Option (State τ α) :=
  (s.clear info i).map fun s => s.remove i

/-- The move of a table that may be null. -/
def moveIf (s : State τ α) (vtable : Option τ) (src dest : Nat) : Option (State τ α) :=
  match vtable with
  | none => some s
  | some t => s.vtableMove info t src dest

def swap (s : State τ α) (this rhs : Nat) : Option (State τ α) := do
  let vtable ← s.vtable this
  if vtable ≠ (← s.vtable rhs) then
    let tmp := s.anys.length
    let s ← s.moveConstruct info rhs
    let s := s.setVtable rhs vtable
    let s ← s.moveIf info vtable this rhs
    let vtable ← s.vtable tmp
    let s := s.setVtable this vtable
    let s ← s.moveIf info vtable tmp this
    let s := s.setVtable tmp none
    return (← s.destruct info tmp).pop
  else
    match vtable with
    | none => return s
    | some t => s.vtableSwap info t this rhs

/-- `.swap(*this)` of the temporary that has begun last, and its end. -/
def swapInto (s : State τ α) (this : Nat) : Option (State τ α) := do
  let tmp := s.anys.length - 1
  let s ← s.swap info tmp this
  return (← s.destruct info tmp).pop

/-- `operator=(const any& rhs)` -/
def copyAssign (s : State τ α) (this rhs : Nat) (throws : Bool) :
    Option (State τ α × Bool) := do
  let (s, returned) ← s.copyConstruct info rhs throws
  if returned then return (← s.swapInto info this, true) else return (s, false)

/-- `operator=(any&& rhs)` -/
def moveAssign (s : State τ α) (this rhs : Nat) : Option (State τ α) := do
  let s ← s.moveConstruct info rhs
  s.swapInto info this

/-- `operator=(ValueType&& value)` -/
def assign (s : State τ α) (this : Nat) (o : Object τ α) (throws : Bool) :
    Option (State τ α × Bool) := do
  let (s, returned) ← s.construct info o throws
  if returned then return (← s.swapInto info this, true) else return (s, false)

/-! ## `any_cast` -/

end State

/-- What a pointer from `any_cast` points to: a heap cell, or the storage of an `any`. -/
inductive Address
  | heap (p : Nat)
  | inside (i : Nat)
  deriving DecidableEq, Repr

namespace State

variable [DecidableEq τ] (info : τ → TypeInfo)

/-- `cast<T>()` of `any` `i`. -/
def cast (s : State τ α) (t : τ) (i : Nat) : Option Address :=
  if (info t).requiresAllocation then
    match s.storage i with
    | some (.dynamic p) => p.map .heap
    | _ => none
  else some (.inside i)

/-- `any_cast<T>(any* operand)`, where `none` is a null pointer. -/
def anyCast (s : State τ α) (t : τ) (operand : Option Nat) : Option Address :=
  operand.bind fun i => if s.vtable i = some (some t) then s.cast info t i else none

/-- The object a pointer to `T` points to. -/
def load (s : State τ α) (t : τ) : Address → Option (Object τ α)
  | .heap p => s.heap[p]?.join.filter fun o => o.type = t
  | .inside i => s.derefStack t i

/-- Give the object another value. -/
def store (s : State τ α) (t : τ) (p : Address) (v : α) : Option (State τ α) :=
  (s.load t p).map fun o =>
    match p with
    | .heap p => { s with heap := s.heap.set p (some { o with value := v }) }
    | .inside i => s.setStorage i (.stack { o with value := v })

end State

inductive BadAnyCast
  | badAnyCast
  deriving DecidableEq, Repr

namespace State

variable [DecidableEq τ] (info : τ → TypeInfo)

/-- `any_cast<T>(const any& operand)` -/
def anyCastValue (s : State τ α) (t : τ) (i : Nat) : Option (Except BadAnyCast α) :=
  match s.anyCast info t (some i) with
  | none => some (.error .badAnyCast)
  | some p => (s.load t p).map fun o => .ok o.value

/-- `any_cast<T&>(any& operand) = v` -/
def anyCastStore (s : State τ α) (t : τ) (i : Nat) (v : α) :
    Option (Except BadAnyCast (State τ α)) :=
  match s.anyCast info t (some i) with
  | none => some (.error .badAnyCast)
  | some p => (s.store t p v).map .ok

/-- `any_cast<T>(any&& operand)`, with the value it returns. -/
def anyCastMove (moved : α → α) (s : State τ α) (t : τ) (i : Nat) :
    Option (Except BadAnyCast (α × State τ α)) :=
  match s.anyCast info t (some i) with
  | none => some (.error .badAnyCast)
  | some p =>
    (s.load t p).bind fun o =>
      if (info t).moveConstructible then
        (s.store t p (moved o.value)).map fun s => .ok (o.value, s)
      else some (.ok (o.value, s))

end State

/-! ## Programs -/

/-- `AnyContainer::Set` is `assign`, `Get` and `GetLref` are casts. -/
inductive Act (τ α : Type u)
  | default
  | copyConstruct (rhs : Nat) (throws : Bool)
  | moveConstruct (rhs : Nat)
  | construct (o : Object τ α) (throws : Bool)
  | copyAssign (this rhs : Nat) (throws : Bool)
  | moveAssign (this rhs : Nat)
  | assign (this : Nat) (o : Object τ α) (throws : Bool)
  | clear (i : Nat)
  | swap (this rhs : Nat)
  | destruct (i : Nat)
  | anyCastStore (t : τ) (i : Nat) (v : α)
  | anyCastMove (t : τ) (i : Nat)
  deriving DecidableEq, Repr

section

variable [DecidableEq τ] (info : τ → TypeInfo) (moved : α → α)

/-- A call that throws leaves the state it has come to. -/
def step (s : State τ α) : Act τ α → Option (State τ α)
  | .default => some (s.push none)
  | .copyConstruct rhs throws => (s.copyConstruct info rhs throws).map Prod.fst
  | .moveConstruct rhs => s.moveConstruct info rhs
  | .construct o throws => (s.construct info o throws).map Prod.fst
  | .copyAssign this rhs throws => (s.copyAssign info this rhs throws).map Prod.fst
  | .moveAssign this rhs => s.moveAssign info this rhs
  | .assign this o throws => (s.assign info this o throws).map Prod.fst
  | .clear i => s.clear info i
  | .swap this rhs => s.swap info this rhs
  | .destruct i => s.destruct info i
  | .anyCastStore t i v => (s.anyCastStore info t i v).map fun
      | .ok s => s
      | .error _ => s
  | .anyCastMove t i => (s.anyCastMove info moved t i).map fun
      | .ok (_, s) => s
      | .error _ => s

/-- A program without any `any`, to begin with. -/
def machine : Machine (State τ α) (Act τ α) where
  init s := s = {}
  step := step info moved

end

end Any
end TryAndLearn
