import TryAndLearn.Machine.Tally
import TryAndLearn.Batcher.Basic

/-!
# Threads that share a `Batcher`

Any number of threads call `AddItem`.  `std::async` with `std::launch::async` runs the
notifier on a thread of its own, and the future that `Emit` discards waits in its
destructor until that thread has ended, all of it while `AddItem` holds `m_`.  A
notifier may call `AddItem` of the same batcher, any finite number of times, and then
returns.

`SetNotifier` and `SetBatchSize` take no lock and are called while no thread is inside
`AddItem`; beside one they would be a data race.
-/

namespace TryAndLearn
namespace BatcherThreads

variable {ν α : Type*}

/-- Where a thread is.  `locking` is `AddItem` before it has `m_`; `waiting` is the
destructor of the future, with the thread it waits for; `returned` is the end of a
notifier call. -/
inductive Pc (α : Type*)
  | outside
  | locking (item : α)
  | adding (item : α)
  | emitting
  | waiting (task : Nat)
  | clearing
  | unlocking
  | returned
  deriving DecidableEq, Repr

/-- `todo` is what a notifier call has still to add.  A thread that adds items on its own
account has none. -/
structure Thread (α : Type*) where
  pc : Pc α := .outside
  todo : Option (List α) := none
  deriving DecidableEq, Repr

/-- `mutex` is the thread that holds `m_`. -/
structure State (ν α : Type*) where
  batcher : Batcher ν α := {}
  mutex : Option Nat := none
  threads : List (Thread α)
  deriving DecidableEq, Repr

/-- `launch` is `std::async` with a notifier call that is going to add `adds`. -/
inductive Act (ν α : Type*)
  | call (i : Nat) (item : α)
  | next (i : Nat)
  | lock (i : Nat)
  | emplace (i : Nat)
  | launch (i : Nat) (adds : List α)
  | print (i : Nat)
  | join (i : Nat)
  | clear (i : Nat)
  | unlock (i : Nat)
  | finish (i : Nat)
  | setNotifier (notifier : Option ν)
  | setBatchSize (bs : UInt32)
  deriving DecidableEq, Repr

def Thread.inAddItem (th : Thread α) : Bool :=
  match th.pc with
  | .locking _ | .adding _ | .emitting | .waiting _ | .clearing | .unlocking => true
  | .outside | .returned => false

namespace State

def goto (s : State ν α) (i : Nat) (th : Thread α) : State ν α :=
  { s with threads := s.threads.set i th }

/-- No thread is inside `AddItem`. -/
def quiet (s : State ν α) : Bool := s.threads.all fun th => !th.inAddItem

end State

/-- `none` where thread `i` is not at the action, or has to wait for it. -/
def step (s : State ν α) : Act ν α → Option (State ν α)
  | .call i item =>
    s.threads[i]?.bind fun th =>
      match th.pc, th.todo with
      | .outside, none => some (s.goto i { th with pc := .locking item })
      | _, _ => none
  | .next i =>
    s.threads[i]?.bind fun th =>
      match th.pc, th.todo with
      | .outside, some (item :: rest) =>
        some (s.goto i { pc := .locking item, todo := some rest })
      | _, _ => none
  | .lock i =>
    s.threads[i]?.bind fun th =>
      match th.pc, s.mutex with
      | .locking item, none => some { s.goto i { th with pc := .adding item } with mutex := some i }
      | _, _ => none
  | .emplace i =>
    s.threads[i]?.bind fun th =>
      match th.pc with
      | .adding item =>
        let b := s.batcher.emplaceBack item
        some { s.goto i { th with pc := if b.full then .emitting else .unlocking } with
          batcher := b }
      | _ => none
  | .launch i adds =>
    s.threads[i]?.bind fun th =>
      match th.pc, s.batcher.notifier with
      | .emitting, some _ =>
        some { s with threads := s.threads.set i { th with pc := .waiting s.threads.length } ++
                                  [{ todo := some adds }] }
      | _, _ => none
  | .print i =>
    s.threads[i]?.bind fun th =>
      match th.pc, s.batcher.notifier with
      | .emitting, none => some (s.goto i { th with pc := .clearing })
      | _, _ => none
  | .join i =>
    s.threads[i]?.bind fun th =>
      match th.pc with
      | .waiting task =>
        s.threads[task]?.bind fun th' =>
          match th'.pc with
          | .returned => some (s.goto i { th with pc := .clearing })
          | _ => none
      | _ => none
  | .clear i =>
    s.threads[i]?.bind fun th =>
      match th.pc with
      | .clearing =>
        some { s.goto i { th with pc := .unlocking } with batcher := s.batcher.clear }
      | _ => none
  | .unlock i =>
    s.threads[i]?.bind fun th =>
      match th.pc with
      | .unlocking => some { s.goto i { th with pc := .outside } with mutex := none }
      | _ => none
  | .finish i =>
    s.threads[i]?.bind fun th =>
      match th.pc, th.todo with
      | .outside, some [] => some (s.goto i { th with pc := .returned })
      | _, _ => none
  | .setNotifier notifier =>
    if s.quiet then some { s with batcher := s.batcher.setNotifier notifier } else none
  | .setBatchSize bs =>
    if s.quiet then some { s with batcher := s.batcher.setBatchSize bs } else none

/-- `n` threads and a new batcher. -/
def machine : Machine (State ν α) (Act ν α) where
  init s := ∃ n, s = { threads := List.replicate n {} }
  step := step

/-! ## The step as cases -/

inductive Moved (s : State ν α) : Act ν α → State ν α → Prop
  | call {i item th} (h : s.threads[i]? = some th) (hpc : th.pc = .outside)
      (htodo : th.todo = none) : Moved s (.call i item) (s.goto i { th with pc := .locking item })
  | next {i item rest th} (h : s.threads[i]? = some th) (hpc : th.pc = .outside)
      (htodo : th.todo = some (item :: rest)) :
      Moved s (.next i) (s.goto i { pc := .locking item, todo := some rest })
  | lock {i item th} (h : s.threads[i]? = some th) (hpc : th.pc = .locking item)
      (hfree : s.mutex = none) :
      Moved s (.lock i) { s.goto i { th with pc := .adding item } with mutex := some i }
  | cached {i item th} (h : s.threads[i]? = some th) (hpc : th.pc = .adding item)
      (hroom : (s.batcher.emplaceBack item).full = false) :
      Moved s (.emplace i)
        { s.goto i { th with pc := .unlocking } with batcher := s.batcher.emplaceBack item }
  | filled {i item th} (h : s.threads[i]? = some th) (hpc : th.pc = .adding item)
      (hfull : (s.batcher.emplaceBack item).full = true) :
      Moved s (.emplace i)
        { s.goto i { th with pc := .emitting } with batcher := s.batcher.emplaceBack item }
  | launch {i adds notifier th} (h : s.threads[i]? = some th) (hpc : th.pc = .emitting)
      (hnotifier : s.batcher.notifier = some notifier) :
      Moved s (.launch i adds)
        { s with threads := s.threads.set i { th with pc := .waiting s.threads.length } ++
                            [{ todo := some adds }] }
  | print {i th} (h : s.threads[i]? = some th) (hpc : th.pc = .emitting)
      (hnotifier : s.batcher.notifier = none) :
      Moved s (.print i) (s.goto i { th with pc := .clearing })
  | join {i task th th'} (h : s.threads[i]? = some th) (hpc : th.pc = .waiting task)
      (h' : s.threads[task]? = some th') (hpc' : th'.pc = .returned) :
      Moved s (.join i) (s.goto i { th with pc := .clearing })
  | clear {i th} (h : s.threads[i]? = some th) (hpc : th.pc = .clearing) :
      Moved s (.clear i)
        { s.goto i { th with pc := .unlocking } with batcher := s.batcher.clear }
  | unlock {i th} (h : s.threads[i]? = some th) (hpc : th.pc = .unlocking) :
      Moved s (.unlock i) { s.goto i { th with pc := .outside } with mutex := none }
  | finish {i th} (h : s.threads[i]? = some th) (hpc : th.pc = .outside)
      (htodo : th.todo = some []) : Moved s (.finish i) (s.goto i { th with pc := .returned })
  | setNotifier {notifier} (hquiet : s.quiet = true) :
      Moved s (.setNotifier notifier) { s with batcher := s.batcher.setNotifier notifier }
  | setBatchSize {bs} (hquiet : s.quiet = true) :
      Moved s (.setBatchSize bs) { s with batcher := s.batcher.setBatchSize bs }

theorem moved_of_step {s t : State ν α} {a : Act ν α} (hs : step s a = some t) : Moved s a t := by
  cases a with
  | setNotifier notifier | setBatchSize bs =>
    obtain ⟨hquiet, hs⟩ := Option.ite_none_right_eq_some.mp hs
    obtain rfl := Option.some.inj hs
    constructor
    exact hquiet
  | emplace i =>
    obtain ⟨th, hth, hs⟩ := Option.bind_eq_some_iff.mp hs
    split at hs
    · rename_i item hpc
      obtain rfl := Option.some.inj hs
      cases hfull : (s.batcher.emplaceBack item).full
      · exact .cached hth hpc hfull
      · exact .filled hth hpc hfull
    · cases hs
  | join i =>
    obtain ⟨th, hth, hs⟩ := Option.bind_eq_some_iff.mp hs
    split at hs
    · rename_i task hpc
      obtain ⟨th', hth', hs⟩ := Option.bind_eq_some_iff.mp hs
      split at hs
      · rename_i hpc'
        obtain rfl := Option.some.inj hs
        exact .join hth hpc hth' hpc'
      · cases hs
    · cases hs
  | _ =>
    obtain ⟨th, hth, hs⟩ := Option.bind_eq_some_iff.mp hs
    split at hs
    · obtain rfl := Option.some.inj hs
      constructor <;> assumption
    · cases hs

/-! ## The mutex -/

/-- In `AddItem` with `m_`. -/
def Pc.holds : Pc α → Bool
  | .adding _ | .emitting | .waiting _ | .clearing | .unlocking => true
  | .outside | .locking _ | .returned => false

/-- A thread that is where `m_` is held is the one that holds it. -/
def Exclusive (s : State ν α) : Prop :=
  ∀ i th, s.threads[i]? = some th → th.pc.holds = true → s.mutex = some i

section

variable {s t : State ν α} {a : Act ν α} {i : Nat} {th th' : Thread α} {b : Batcher ν α}

/-- A step inside `AddItem`, or outside of it, does not concern `m_`. -/
theorem Exclusive.goto (hs : Exclusive s) (h : s.threads[i]? = some th)
    (hpc : th'.pc.holds = true → th.pc.holds = true) :
    Exclusive { s.goto i th' with batcher := b } := by
  intro j tj hj hholds
  rcases getElem?_set_cases hj with ⟨rfl, rfl⟩ | ⟨_, hj⟩
  · exact hs j th h (hpc hholds)
  · exact hs j tj hj hholds

/-- A notifier call starts outside `AddItem`. -/
theorem Exclusive.launch (hs : Exclusive s) {todo : Option (List α)} :
    Exclusive { s with threads := s.threads ++ [{ todo := todo }] } := by
  intro j tj hj hholds
  rcases getElem?_append_cases hj with ⟨_, rfl⟩ | hj
  · cases hholds
  · exact hs j tj hj hholds

theorem exclusive_step (h : Moved s a t) (hs : Exclusive s) : Exclusive t := by
  cases h with
  | call h hpc _ | next h hpc _ | finish h hpc _ =>
    exact hs.goto h (by simp [Pc.holds])
  | cached h hpc _ | filled h hpc _ | print h hpc _ | join h hpc _ _ | clear h hpc =>
    exact hs.goto h (by simp [Pc.holds, hpc])
  | @launch i adds notifier th h hpc _ =>
    have hgoto : Exclusive (s.goto i { th with pc := .waiting s.threads.length }) :=
      hs.goto h (by simp [Pc.holds, hpc])
    exact hgoto.launch
  | @lock i item th h hpc hfree =>
    intro j tj hj hholds
    rcases getElem?_set_cases hj with ⟨rfl, rfl⟩ | ⟨_, hj⟩
    · rfl
    · have hmutex := hs j tj hj hholds
      rw [hfree] at hmutex
      cases hmutex
  | @unlock i th h hpc =>
    intro j tj hj hholds
    rcases getElem?_set_cases hj with ⟨rfl, rfl⟩ | ⟨hne, hj⟩
    · cases hholds
    · have hmutex := (hs j tj hj hholds).symm.trans (hs i th h (by rw [hpc]; rfl))
      exact absurd (Option.some.inj hmutex) hne
  | setNotifier _ | setBatchSize _ => exact hs

theorem reachable_exclusive {ok : State ν α → Act ν α → Prop} (h : machine.Reachable ok s) :
    Exclusive s := by
  refine h.invariant (fun s₀ h₀ => ?_) fun _ _ hs hI => exclusive_step (moved_of_step hs) hI
  obtain ⟨n, rfl⟩ := h₀
  intro i th hi hholds
  obtain rfl := (List.mem_replicate.mp (List.mem_of_getElem? hi)).2
  cases hholds

end

end BatcherThreads
end TryAndLearn
