import Mathlib.Data.List.FinRange
import Mathlib.Logic.Function.Basic

/-!
# `Signal` with the policy `SYNC`

The objects of the caller are a store, and an argument is an expression that names one
of them.  `operator()`, `Run` and `Exec` take their arguments by forwarding reference
and hand them on with `std::forward`.  The parameters of the `std::function` are the
first that may be objects of their own: a parameter by value is one, and so is the
temporary that a reference to const is bound to when the argument has another type.  To
make such an object from an rvalue may move from the object of the caller, and which
parameter comes first is up to the implementation.

The values of all types are in `τ`, and `moved v` is what is left of `v` in an object
moved from.  An exception, of a callable or of an empty `std::function`, ends the loop.
-/

namespace TryAndLearn
namespace SigSlot

/-! ## Arguments -/

inductive Category
  | lvalue
  | rvalue
  | constRvalue
  deriving DecidableEq, Repr

structure Arg where
  object : Nat
  category : Category
  deriving DecidableEq, Repr

/-- What `RArgs` is deduced to. -/
inductive Deduced
  | lvalueRef
  | nonConst
  | const
  deriving DecidableEq, Repr

/-- A parameter `RArgs&& args` of a template. -/
structure RArg where
  object : Nat
  type : Deduced
  deriving DecidableEq, Repr

def Arg.deduce (e : Arg) : RArg :=
  ⟨e.object, match e.category with
    | .lvalue => .lvalueRef
    | .rvalue => .nonConst
    | .constRvalue => .const⟩

/-- `std::forward<RArgs>(args)` -/
def RArg.forward (p : RArg) : Arg :=
  ⟨p.object, match p.type with
    | .lvalueRef => .lvalue
    | .nonConst => .rvalue
    | .const => .constRvalue⟩

@[simp] theorem Arg.forward_deduce (e : Arg) : e.deduce.forward = e := by
  obtain ⟨_, category⟩ := e
  cases category <;> rfl

/-! ## The call of a `std::function` -/

inductive Passing
  | value
  | constRef
  deriving DecidableEq, Repr

/-- An implicit conversion.  `takesOver` says that it moves from an rvalue, as the one
from `std::unique_ptr` to `std::shared_ptr` does. -/
structure Conversion (τ : Type*) where
  value : τ → τ
  takesOver : Bool

/-- One of `Args`, with the conversion from the type of its argument where that is
another one. -/
structure ArgType (τ : Type*) where
  passing : Passing
  conversion : Option (Conversion τ) := none

/-- A parameter of the callable. -/
inductive Param (τ : Type*)
  | object (v : τ)
  | ref (object : Nat)
  deriving DecidableEq, Repr

/-- The objects of the caller and the parameters initialised so far. -/
structure Frame (n : Nat) (τ : Type*) where
  objects : Nat → τ
  params : Fin n → Option (Param τ) := fun _ => none

/-- An order in which the parameters may be initialised. -/
structure Order (n : Nat) where
  positions : List (Fin n)
  nodup : positions.Nodup
  mem (i : Fin n) : i ∈ positions

/-- The callables that were called, each with the values it found in its parameters, and
whether an exception is on its way to the caller. -/
structure World (φ : Type*) (n : Nat) (τ : Type*) where
  objects : Nat → τ
  calls : List (φ × (Fin n → Option τ)) := []
  thrown : Bool := false

section Call

variable {φ τ : Type*} {n : Nat}

namespace ArgType

/-- The parameter is a reference to the object of the caller. -/
def binds (a : ArgType τ) : Bool := a.passing = .constRef && a.conversion.isNone

/-- What the parameter's own object is made from an object that holds `v`. -/
def make (a : ArgType τ) (v : τ) : τ := (a.conversion.map (·.value)).getD id v

/-- To initialise the parameter moves from its argument.  Nothing moves from an lvalue or
from an rvalue that is const. -/
def takes (a : ArgType τ) (category : Category) : Bool :=
  category = .rvalue && (a.conversion.map (·.takesOver)).getD (a.passing = .value)

end ArgType

/-- Parameter `i` is initialised from the argument `args i`. -/
def Frame.init (moved : τ → τ) (types : Fin n → ArgType τ) (args : Fin n → Arg) (f : Frame n τ)
    (i : Fin n) : Frame n τ :=
  let o := (args i).object
  { objects :=
      if (types i).takes (args i).category then
        Function.update f.objects o (moved (f.objects o))
      else f.objects,
    params := Function.update f.params i (some
      (if (types i).binds then .ref o else .object ((types i).make (f.objects o)))) }

/-- What the callable reads in parameter `i`. -/
def Frame.seen (f : Frame n τ) (i : Fin n) : Option τ :=
  (f.params i).map fun
    | .object v => v
    | .ref o => f.objects o

/-- `func_(...)`.  The callable gets its own parameters from those of the
`std::function`, and what it does with them stays with it.  An empty `std::function`
throws `std::bad_function_call`. -/
def invoke (moved : τ → τ) (types : Fin n → ArgType τ) (order : Order n)
    (throws : φ → (Fin n → Option τ) → Bool) (func : Option φ) (args : Fin n → Arg)
    (w : World φ n τ) : World φ n τ :=
  let f := order.positions.foldl (Frame.init moved types args) { objects := w.objects }
  match func with
  | none => { w with objects := f.objects, thrown := true }
  | some func =>
    { objects := f.objects, calls := w.calls ++ [(func, f.seen)], thrown := throws func f.seen }

/-! ## Slot and Signal -/

/-- `Slot::Exec` -/
def exec (moved : τ → τ) (types : Fin n → ArgType τ) (order : Order n)
    (throws : φ → (Fin n → Option τ) → Bool) (func : Option φ) (args : Fin n → RArg)
    (w : World φ n τ) : World φ n τ :=
  invoke moved types order throws func (fun i => (args i).forward) w

/-- `SlotBase::Run` -/
def run (moved : τ → τ) (types : Fin n → ArgType τ) (order : Order n)
    (throws : φ → (Fin n → Option τ) → Bool) (func : Option φ) (args : Fin n → RArg)
    (w : World φ n τ) : World φ n τ :=
  exec moved types order throws func (fun i => (args i).forward.deduce) w

/-- The loop of `operator()`, at slot `k`.  Each call has an order of its own, and each
may throw. -/
def emitLoop (moved : τ → τ) (types : Fin n → ArgType τ) (orders : Nat → Order n)
    (throws : Nat → φ → (Fin n → Option τ) → Bool) (args : Fin n → RArg) :
    Nat → List (Option φ) → World φ n τ → World φ n τ
  | _, [], w => w
  | k, func :: rest, w =>
    let w := run moved types (orders k) (throws k) func (fun i => (args i).forward.deduce) w
    if w.thrown then w else emitLoop moved types orders throws args (k + 1) rest w

end Call

/-- A slot is its `func_`, `none` where that is empty. -/
structure Signal (φ : Type*) where
  slots : List (Option φ) := []
  deriving DecidableEq, Repr

namespace Signal

variable {φ τ : Type*} {n : Nat}

def bind (s : Signal φ) (func : Option φ) : Signal φ := { s with slots := s.slots ++ [func] }

/-- `operator()` -/
def emit (s : Signal φ) (moved : τ → τ) (types : Fin n → ArgType τ) (orders : Nat → Order n)
    (throws : Nat → φ → (Fin n → Option τ) → Bool) (args : Fin n → Arg) (w : World φ n τ) :
    World φ n τ :=
  emitLoop moved types orders throws (fun i => (args i).deduce) 0 s.slots w

/-- The slots are kept in the order of the calls of `Bind`. -/
theorem slots_bindAll (funcs : List (Option φ)) : (funcs.foldl bind {}).slots = funcs := by
  have hfrom (s : Signal φ) : (funcs.foldl bind s).slots = s.slots ++ funcs := by
    induction funcs generalizing s with
    | nil => simp
    | cons func rest ih => simp [ih, bind]
  exact hfrom {}

end Signal

end SigSlot
end TryAndLearn
