import TryAndLearn.Machine.Tally
import TryAndLearn.Machine.Trace
import TryAndLearn.ThreadSafeQueue.Basic

/-!
# Threads on one `ThreadSafeQueue`

Any number of threads call `Push`, `Emplace`, `TryPop` and `WaitAndTryPop`.  A step is
one section of `data_m_` or one wake-up.  `Push` and `Emplace` notify before they
release `data_m_`, so the notification is part of their section.

`wait_for` with a predicate evaluates it under `data_m_` and parks if it is false.  A
woken thread evaluates it again, and if that was false after a time-out the call gives
up; otherwise it parks again.  A time-out may come at any moment, as a spurious wake-up
may.
-/

namespace TryAndLearn
namespace QueueThreads

open ThreadSafeQueue (tryPop tryPop_cases getFrontAndPop)

inductive Wake
  | notified
  | spurious
  | timedOut
  deriving DecidableEq, Repr

/-- A woken thread has still to take `data_m_` and evaluate its predicate. -/
inductive Pc
  | outside
  | parked
  | woken (why : Wake)
  deriving DecidableEq, Repr

structure State (τ : Type*) where
  queue : List τ := []
  threads : List Pc := []
  deriving DecidableEq, Repr

/-- `target` is the parked thread a notification reaches, `choice` the value a priority
queue gives back. -/
inductive Act (τ : Type*)
  | push (i : Nat) (v : τ) (target : Option Nat)
  | emplace (i : Nat) (v : τ) (target : Option Nat)
  | tryPop (i choice : Nat)
  | waitAndTryPop (i choice : Nat)
  | spuriousWake (i : Nat)
  | timeOut (i : Nat)
  | recheck (i choice : Nat)
  deriving DecidableEq, Repr

/-- What a section does that a client can tell: a value goes in, a call returns a value
and leaves others behind, or a `WaitAndTryPop` returns without one. -/
inductive Event (τ : Type*)
  | pushed (v : τ)
  | popped (v : τ) (rest : List τ)
  | gaveUp (queue : List τ)
  deriving DecidableEq, Repr

variable {τ : Type*} [LT τ] [DecidableLT τ]

/-- `notify_one` wakes some parked thread, or nobody when none is parked. -/
def notifyOne (threads : List Pc) : Option Nat → Option (List Pc)
  | some j => if threads[j]? = some .parked then some (threads.set j (.woken .notified)) else none
  | none => if .parked ∈ threads then none else some threads

namespace State

omit [LT τ] [DecidableLT τ] in
/-- Thread `i` goes from `pc` on. -/
def guardAt (s : State τ) (i : Nat) (pc : Pc) (t : Option (State τ)) : Option (State τ) :=
  if s.threads[i]? = some pc then t else none

def enqueue (s : State τ) (v : τ) (target : Option Nat) : Option (State τ) :=
  (notifyOne s.threads target).map fun threads =>
    { queue := ThreadSafeQueue.push s.queue v, threads := threads }

/-- Take a value and return, or go on to `onEmpty`. -/
def dequeue (s : State τ) (kind : QueueKind) (i choice : Nat) (onEmpty : Pc) : Option (State τ) :=
  (tryPop kind choice s.queue).map fun
    | (some _, queue) => { queue := queue, threads := s.threads.set i .outside }
    | (none, queue) => { queue := queue, threads := s.threads.set i onEmpty }

end State

def step (kind : QueueKind) (s : State τ) : Act τ → Option (State τ)
  | .push i v target => s.guardAt i .outside (s.enqueue v target)
  | .emplace i v target => s.guardAt i .outside (s.enqueue v target)
  | .tryPop i choice => s.guardAt i .outside (s.dequeue kind i choice .outside)
  | .waitAndTryPop i choice => s.guardAt i .outside (s.dequeue kind i choice .parked)
  | .spuriousWake i =>
    s.guardAt i .parked (some { s with threads := s.threads.set i (.woken .spurious) })
  | .timeOut i =>
    s.guardAt i .parked (some { s with threads := s.threads.set i (.woken .timedOut) })
  | .recheck i choice =>
    match s.threads[i]? with
    | some (.woken .timedOut) => s.dequeue kind i choice .outside
    | some (.woken _) => s.dequeue kind i choice .parked
    | _ => none

/-- What a `TryPop` of the queue returns.  `onEmpty` is what a call does that finds it
empty. -/
def popEvents (kind : QueueKind) (choice : Nat) (q : List τ) (onEmpty : List (Event τ)) :
    List (Event τ) :=
  match tryPop kind choice q with
  | some (some v, rest) => [.popped v rest]
  | _ => onEmpty

def see (kind : QueueKind) (s : State τ) (a : Act τ) (_ : State τ) : List (Event τ) :=
  match a with
  | .push _ v _ | .emplace _ v _ => [.pushed v]
  | .tryPop _ choice | .waitAndTryPop _ choice => popEvents kind choice s.queue []
  | .recheck i choice =>
    popEvents kind choice s.queue
      (if s.threads[i]? = some (.woken .timedOut) then [.gaveUp s.queue] else [])
  | .spuriousWake _ | .timeOut _ => []

/-- An empty queue and any number of threads. -/
def machine (kind : QueueKind) : Machine (State τ) (Act τ) where
  init s := ∃ n, s = { threads := List.replicate n .outside }
  step := step kind

/-! ## The step as cases -/

/-- The steps with what they show. -/
inductive Moved (kind : QueueKind) (s : State τ) : State τ → List (Event τ) → Prop
  | notify {v j} (hj : s.threads[j]? = some .parked) :
      Moved kind s
        { queue := s.queue ++ [v], threads := s.threads.set j (.woken .notified) } [.pushed v]
  | notifyNobody {v} (hnone : .parked ∉ s.threads) :
      Moved kind s { s with queue := s.queue ++ [v] } [.pushed v]
  | pop {i pc choice v rest} (hi : s.threads[i]? = some pc) (hpc : pc ≠ .parked)
      (hpop : getFrontAndPop kind choice s.queue = some (v, rest)) :
      Moved kind s { queue := rest, threads := s.threads.set i .outside } [.popped v rest]
  | park {i pc} (hi : s.threads[i]? = some pc) (hpc : pc ≠ .parked) (hempty : s.queue = []) :
      Moved kind s { s with threads := s.threads.set i .parked } []
  | returnNone {i} (hi : s.threads[i]? = some .outside) (hempty : s.queue = []) :
      Moved kind s { s with threads := s.threads.set i .outside } []
  | giveUp {i} (hi : s.threads[i]? = some (.woken .timedOut)) (hempty : s.queue = []) :
      Moved kind s { s with threads := s.threads.set i .outside } [.gaveUp s.queue]
  | wake {i why} (hi : s.threads[i]? = some .parked) (hwhy : why ≠ .notified) :
      Moved kind s { s with threads := s.threads.set i (.woken why) } []

section Inversion

variable {kind : QueueKind} {s t : State τ} {a : Act τ} {i choice : Nat} {pc : Pc} {v : τ}

theorem moved_of_enqueue {target : Option Nat} (hs : s.enqueue v target = some t) :
    Moved kind s t [.pushed v] := by
  obtain ⟨threads, hn, rfl⟩ := Option.map_eq_some_iff.mp hs
  cases target with
  | some j =>
    obtain ⟨hj, hn⟩ := Option.ite_none_right_eq_some.mp hn
    obtain rfl := Option.some.inj hn
    exact .notify hj
  | none =>
    obtain ⟨hnone, hn⟩ := Option.ite_none_left_eq_some.mp hn
    obtain rfl := Option.some.inj hn
    exact .notifyNobody hnone

theorem moved_of_dequeue {onEmpty : Pc} {shown : List (Event τ)} (hi : s.threads[i]? = some pc)
    (hpc : pc ≠ .parked) (hs : s.dequeue kind i choice onEmpty = some t)
    (hempty : s.queue = [] →
      Moved kind s { s with threads := s.threads.set i onEmpty } shown) :
    Moved kind s t (popEvents kind choice s.queue shown) := by
  obtain ⟨⟨r, queue⟩, hpop, rfl⟩ := Option.map_eq_some_iff.mp hs
  unfold popEvents
  rw [hpop]
  rcases tryPop_cases hpop with ⟨hq, rfl, rfl⟩ | ⟨u, rfl, hfront⟩
  · have := hempty hq
    rw [hq] at this
    exact this
  · exact .pop hi hpc hfront

theorem moved_of_step (hs : step kind s a = some t) : Moved kind s t (see kind s a t) := by
  cases a with
  | push i v target | emplace i v target =>
    obtain ⟨_, hs⟩ := Option.ite_none_right_eq_some.mp hs
    exact moved_of_enqueue hs
  | tryPop i choice =>
    obtain ⟨hi, hs⟩ := Option.ite_none_right_eq_some.mp hs
    exact moved_of_dequeue hi (by simp) hs fun hq => .returnNone hi hq
  | waitAndTryPop i choice =>
    obtain ⟨hi, hs⟩ := Option.ite_none_right_eq_some.mp hs
    exact moved_of_dequeue hi (by simp) hs fun hq => .park hi (by simp) hq
  | spuriousWake i =>
    obtain ⟨hi, hs⟩ := Option.ite_none_right_eq_some.mp hs
    obtain rfl := Option.some.inj hs
    exact .wake hi (by simp)
  | timeOut i =>
    obtain ⟨hi, hs⟩ := Option.ite_none_right_eq_some.mp hs
    obtain rfl := Option.some.inj hs
    exact .wake hi (by simp)
  | recheck i choice =>
    simp only [step] at hs
    split at hs
    · rename_i hi
      rw [see, if_pos hi]
      exact moved_of_dequeue hi (by simp) hs fun hq => .giveUp hi hq
    · rename_i why hwhy hi
      have hne : s.threads[i]? ≠ some (.woken .timedOut) := by
        rw [hi]
        simpa using hwhy
      rw [see, if_neg hne]
      exact moved_of_dequeue hi (by simp) hs fun hq => .park hi (by simp) hq
    · exact absurd hs (by simp)

end Inversion

end QueueThreads
end TryAndLearn
