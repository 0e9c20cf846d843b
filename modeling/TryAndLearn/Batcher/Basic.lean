import TryAndLearn.Machine.Trace

/-!
# `Batcher`

`AddItem` holds `m_` for its whole body, `Emit` included, so calls of it from several
threads happen one after the other.  `SetNotifier` and `SetBatchSize` take no lock; they
are called between calls of `AddItem`.

`std::async` copies `cache_` before it returns, and the future it returns is destroyed at
the end of the statement, which waits for the notification.  `cache_` is cleared after
that.
-/

namespace TryAndLearn

/-- A null `std::function` is `none`. -/
structure Batcher (ν α : Type*) where
  cache : List α := []
  notifier : Option ν := none
  batchSize : UInt32 := 0
  deriving DecidableEq, Repr

/-- What `Emit` does with a batch: it calls a notifier with it, or says that it has
none. -/
inductive Effect (ν α : Type*)
  | async (notifier : ν) (batch : List α)
  | print (text : String)
  deriving DecidableEq, Repr

namespace Batcher

variable {ν α : Type*}

/-- `cache_.emplace_back(item)` -/
def emplaceBack (b : Batcher ν α) (item : α) : Batcher ν α :=
  { b with cache := b.cache ++ [item] }

/-- `cache_.size() >= batch_size_` -/
def full (b : Batcher ν α) : Bool := decide (b.batchSize.toNat ≤ b.cache.length)

/-- `if (notifier_) ... else ...` in `Emit`. -/
def notification (b : Batcher ν α) : Effect ν α :=
  match b.notifier with
  | some notifier => .async notifier b.cache
  | none => .print "Batcher donot have notifier, do nothing"

/-- `cache_.clear()` -/
def clear (b : Batcher ν α) : Batcher ν α := { b with cache := [] }

def emit (b : Batcher ν α) : Batcher ν α × Effect ν α := (b.clear, b.notification)

/-- The batcher after the call, and what `Emit` did if it was called. -/
def addItem (b : Batcher ν α) (item : α) : Batcher ν α × Option (Effect ν α) :=
  let b := b.emplaceBack item
  if b.full then (b.emit.1, some b.emit.2) else (b, none)

def setNotifier (b : Batcher ν α) (notifier : Option ν) : Batcher ν α :=
  { b with notifier := notifier }

/-- `cache_.reserve(bs)` changes no item. -/
def setBatchSize (b : Batcher ν α) (bs : UInt32) : Batcher ν α := { b with batchSize := bs }

/-! ## Sequences of calls -/

inductive Call (ν α : Type*)
  | addItem (item : α)
  | setNotifier (notifier : Option ν)
  | setBatchSize (bs : UInt32)
  deriving DecidableEq, Repr

/-- What happens to a batcher.  `emitted batch effect` is the end of `Emit`: `batch` is
what `cache_.clear()` takes out of `cache_`, and `effect` what was done with it. -/
inductive Event (ν α : Type*)
  | called (c : Call ν α)
  | emitted (batch : List α) (effect : Effect ν α)
  deriving DecidableEq, Repr

def apply (b : Batcher ν α) : Call ν α → Batcher ν α
  | .addItem item => (b.addItem item).1
  | .setNotifier notifier => b.setNotifier notifier
  | .setBatchSize bs => b.setBatchSize bs

def emission (b : Batcher ν α) : Call ν α → Option (Event ν α)
  | .addItem item => (b.addItem item).2.map (.emitted (b.emplaceBack item).cache)
  | .setNotifier _ | .setBatchSize _ => none

def see (b : Batcher ν α) (c : Call ν α) (_ : Batcher ν α) : List (Event ν α) :=
  .called c :: (b.emission c).toList

/-- A new batcher and any sequence of calls. -/
def machine : Machine (Batcher ν α) (Call ν α) where
  init b := b = {}
  step b c := some (b.apply c)

/-! ## The call as cases -/

inductive Moved (b : Batcher ν α) : Batcher ν α → List (Event ν α) → Prop
  | cached {item} (h : b.cache.length + 1 < b.batchSize.toNat) :
      Moved b (b.emplaceBack item) [.called (.addItem item)]
  | emitted {item} (h : b.batchSize.toNat ≤ b.cache.length + 1) :
      Moved b b.clear
        [.called (.addItem item),
          .emitted (b.cache ++ [item]) (b.emplaceBack item).notification]
  | setNotifier {notifier} : Moved b (b.setNotifier notifier) [.called (.setNotifier notifier)]
  | setBatchSize {bs} : Moved b (b.setBatchSize bs) [.called (.setBatchSize bs)]

theorem full_emplaceBack (b : Batcher ν α) (item : α) :
    (b.emplaceBack item).full = true ↔ b.batchSize.toNat ≤ b.cache.length + 1 := by
  simp [full, emplaceBack]

theorem addItem_of_full {b : Batcher ν α} {item : α}
    (h : b.batchSize.toNat ≤ b.cache.length + 1) :
    b.addItem item = (b.clear, some (b.emplaceBack item).notification) :=
  if_pos ((full_emplaceBack b item).mpr h)

theorem addItem_of_room {b : Batcher ν α} {item : α}
    (h : b.cache.length + 1 < b.batchSize.toNat) : b.addItem item = (b.emplaceBack item, none) := by
  refine if_neg ?_
  rw [full_emplaceBack]
  omega

theorem moved_of_step {b b' : Batcher ν α} {c : Call ν α} (hs : machine.step b c = some b') :
    Moved b b' (see b c b') := by
  obtain rfl : b.apply c = b' := Option.some.inj hs
  cases c with
  | setNotifier notifier => exact .setNotifier
  | setBatchSize bs => exact .setBatchSize
  | addItem item =>
    by_cases h : b.batchSize.toNat ≤ b.cache.length + 1
    · simp only [apply, see, emission, addItem_of_full h]
      exact .emitted h
    · have hroom : b.cache.length + 1 < b.batchSize.toNat := by omega
      simp only [apply, see, emission, addItem_of_room hroom]
      exact .cached hroom

end Batcher
end TryAndLearn
