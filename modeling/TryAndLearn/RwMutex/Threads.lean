import TryAndLearn.Machine.Tally
import TryAndLearn.Machine.Run
import TryAndLearn.RwMutex.Basic

/-!
# Threads calling one `RwMutex`

Any number of threads call `ReadLock`, `ReadUnlock`, `WriteLock` and `WriteUnlock`
on one `RwMutex`.  `ReadLockGuard` and `WriteLockGuard` add nothing to this: their
constructors are the lock calls and their destructors the unlock calls.

A step is one critical section of `mutex_`, one wake-up of a parked thread, or one
notification.  An unlock decides on its notification under `mutex_` and issues it
after `lock.unlock()`, so the two are separate steps with a program point between
them.  A notification of `write_cv_` wakes one parked writer of the scheduler's
choice, or nobody if none is parked.
-/

namespace TryAndLearn
namespace RwThreads

/-- Where a thread is.  `enterRead` is inside `ReadLock` before `mutex_` is taken;
a parked thread sleeps on its condition variable; a woken one has still to take
`mutex_` and evaluate its predicate. -/
inductive Pc
  | outside
  | enterRead
  | parkedRead
  | wokenRead
  | enterWrite
  | parkedWrite
  | wokenWrite
  | notifyWriter
  | notifyReaders
  deriving DecidableEq, Repr

/-- `reads` and `writes` count the locks the thread holds: its calls of `ReadLock`
and `WriteLock` that have returned and are not unlocked yet. -/
structure Thread where
  pc : Pc := .outside
  reads : Nat := 0
  writes : Nat := 0
  deriving DecidableEq, Repr

structure State where
  mutex : RwMutex
  threads : List Thread
  deriving DecidableEq, Repr

inductive Act
  | callReadLock (i : Nat)
  | readLock (i : Nat)
  | wakeReader (i : Nat)
  | recheckRead (i : Nat)
  | readUnlock (i : Nat)
  | callWriteLock (i : Nat)
  | writeLock (i : Nat)
  | wakeWriter (i : Nat)
  | recheckWrite (i : Nat)
  | writeUnlock (i : Nat)
  | notifyOne (i : Nat) (target : Option Nat)
  | notifyAll (i : Nat)
  deriving DecidableEq, Repr

def Thread.waitsRead (th : Thread) : Nat :=
  match th.pc with
  | .parkedRead | .wokenRead => 1
  | _ => 0

def Thread.waitsWrite (th : Thread) : Nat :=
  match th.pc with
  | .parkedWrite | .wokenWrite => 1
  | _ => 0

def Thread.at (pc : Pc) (th : Thread) : Nat := (decide (th.pc = pc)).toNat

/-- `read_cv_.notify_all()` as one thread sees it. -/
def Thread.unparkRead (th : Thread) : Thread :=
  if th.pc = .parkedRead then { th with pc := .wokenRead } else th

/-- Where an unlock goes on after `lock.unlock()`. -/
def afterUnlock : Notify → Pc
  | .nobody => .outside
  | .oneWriter => .notifyWriter
  | .allReaders => .notifyReaders

namespace State

/-- Thread `i`, if it is at `pc`. -/
def threadAt (s : State) (i : Nat) (pc : Pc) : Option Thread :=
  s.threads[i]?.filter fun th => th.pc = pc

theorem threadAt_eq_some {s : State} {i : Nat} {pc : Pc} {th : Thread} :
    s.threadAt i pc = some th ↔ s.threads[i]? = some th ∧ th.pc = pc := by
  simp [threadAt]

def setThread (s : State) (i : Nat) (th : Thread) : State :=
  { s with threads := s.threads.set i th }

/-- Evaluate the predicate of `ReadLock`'s wait under `mutex_`: return from it and
finish `ReadLock`, or park. -/
def waitRead (s : State) (i : Nat) (th : Thread) (m : RwMutex) : State :=
  if m.readReady then
    { mutex := (m.readLockAdmit none).1,
      threads := s.threads.set i { th with pc := .outside, reads := th.reads + 1 } }
  else { mutex := m, threads := s.threads.set i { th with pc := .parkedRead } }

def waitWrite (s : State) (i : Nat) (th : Thread) (m : RwMutex) : State :=
  if m.writeReady then
    { mutex := m.writeLockAdmit,
      threads := s.threads.set i { th with pc := .outside, writes := th.writes + 1 } }
  else { mutex := m, threads := s.threads.set i { th with pc := .parkedWrite } }

end State

def step (s : State) : Act → Option State
  | .callReadLock i =>
    (s.threadAt i .outside).map fun th => s.setThread i { th with pc := .enterRead }
  | .readLock i =>
    (s.threadAt i .enterRead).map fun th => s.waitRead i th (s.mutex.readLockEnter none).1
  | .wakeReader i =>
    (s.threadAt i .parkedRead).map fun th => s.setThread i { th with pc := .wokenRead }
  | .recheckRead i =>
    (s.threadAt i .wokenRead).map fun th => s.waitRead i th s.mutex
  | .readUnlock i =>
    (s.threadAt i .outside).map fun th =>
      let r := s.mutex.readUnlock none none
      { mutex := r.mutex,
        threads := s.threads.set i { th with pc := afterUnlock r.notify, reads := th.reads - 1 } }
  | .callWriteLock i =>
    (s.threadAt i .outside).map fun th => s.setThread i { th with pc := .enterWrite }
  | .writeLock i =>
    (s.threadAt i .enterWrite).map fun th => s.waitWrite i th (s.mutex.writeLockEnter none).1
  | .wakeWriter i =>
    (s.threadAt i .parkedWrite).map fun th => s.setThread i { th with pc := .wokenWrite }
  | .recheckWrite i =>
    (s.threadAt i .wokenWrite).map fun th => s.waitWrite i th s.mutex
  | .writeUnlock i =>
    (s.threadAt i .outside).map fun th =>
      let r := s.mutex.writeUnlock none
      { mutex := r.mutex,
        threads := s.threads.set i { th with pc := afterUnlock r.notify, writes := th.writes - 1 } }
  | .notifyOne i none =>
    (s.threadAt i .notifyWriter).bind fun th =>
      if tally (Thread.at .parkedWrite) s.threads = 0 then
        some (s.setThread i { th with pc := .outside })
      else none
  | .notifyOne i (some j) =>
    (s.threadAt i .notifyWriter).bind fun th =>
      (s.threadAt j .parkedWrite).map fun w =>
        (s.setThread i { th with pc := .outside }).setThread j { w with pc := .wokenWrite }
  | .notifyAll i =>
    (s.threadAt i .notifyReaders).map fun th =>
      { s with threads := (s.threads.set i { th with pc := .outside }).map Thread.unparkRead }

def start (reader : Bool) (n : Nat) : State :=
  { mutex := { reader := reader }, threads := List.replicate n {} }

/-- `n` threads and a fresh `RwMutex(reader)`. -/
def machine (reader : Bool) : Machine State Act where
  init s := ∃ n, s = start reader n
  step := step

/-- A thread unlocks only what it has locked. -/
def Matched (s : State) : Act → Prop
  | .readUnlock i => ∃ th ∈ s.threads[i]?, 0 < th.reads
  | .writeUnlock i => ∃ th ∈ s.threads[i]?, 0 < th.writes
  | _ => True

instance (s : State) : (a : Act) → Decidable (Matched s a)
  | .readUnlock i => inferInstanceAs (Decidable (∃ th ∈ s.threads[i]?, 0 < th.reads))
  | .writeUnlock i => inferInstanceAs (Decidable (∃ th ∈ s.threads[i]?, 0 < th.writes))
  | .callReadLock _ | .readLock _ | .callWriteLock _ | .writeLock _ | .recheckRead _
  | .recheckWrite _ | .wakeReader _ | .wakeWriter _ | .notifyOne _ _ | .notifyAll _ =>
    inferInstanceAs (Decidable True)

/-! ## The step as cases

`Moved` lists what a step can do, with `ReadLock` and `WriteLock` split into the
case in which the predicate lets the thread in and the case in which it parks. -/

inductive Moved (s : State) : Act → State → Prop
  | callRead {i th} (h : s.threads[i]? = some th) (hpc : th.pc = .outside) :
      Moved s (.callReadLock i) (s.setThread i { th with pc := .enterRead })
  | callWrite {i th} (h : s.threads[i]? = some th) (hpc : th.pc = .outside) :
      Moved s (.callWriteLock i) (s.setThread i { th with pc := .enterWrite })
  | enterRead {i th} (h : s.threads[i]? = some th) (hpc : th.pc = .enterRead) :
      Moved s (.readLock i) (s.waitRead i th (s.mutex.readLockEnter none).1)
  | enterWrite {i th} (h : s.threads[i]? = some th) (hpc : th.pc = .enterWrite) :
      Moved s (.writeLock i) (s.waitWrite i th (s.mutex.writeLockEnter none).1)
  | wakeReader {i th} (h : s.threads[i]? = some th) (hpc : th.pc = .parkedRead) :
      Moved s (.wakeReader i) (s.setThread i { th with pc := .wokenRead })
  | wakeWriter {i th} (h : s.threads[i]? = some th) (hpc : th.pc = .parkedWrite) :
      Moved s (.wakeWriter i) (s.setThread i { th with pc := .wokenWrite })
  | recheckRead {i th} (h : s.threads[i]? = some th) (hpc : th.pc = .wokenRead) :
      Moved s (.recheckRead i) (s.waitRead i th s.mutex)
  | recheckWrite {i th} (h : s.threads[i]? = some th) (hpc : th.pc = .wokenWrite) :
      Moved s (.recheckWrite i) (s.waitWrite i th s.mutex)
  | readUnlock {i th} (h : s.threads[i]? = some th) (hpc : th.pc = .outside) :
      Moved s (.readUnlock i)
        { mutex := (s.mutex.readUnlock none none).mutex,
          threads := s.threads.set i
            { th with
              pc := afterUnlock (s.mutex.readUnlock none none).notify, reads := th.reads - 1 } }
  | writeUnlock {i th} (h : s.threads[i]? = some th) (hpc : th.pc = .outside) :
      Moved s (.writeUnlock i)
        { mutex := (s.mutex.writeUnlock none).mutex,
          threads := s.threads.set i
            { th with
              pc := afterUnlock (s.mutex.writeUnlock none).notify, writes := th.writes - 1 } }
  | notifyNobody {i th} (h : s.threads[i]? = some th) (hpc : th.pc = .notifyWriter)
      (hnone : tally (Thread.at .parkedWrite) s.threads = 0) :
      Moved s (.notifyOne i none) (s.setThread i { th with pc := .outside })
  | notifyOne {i j th w} (h : s.threads[i]? = some th) (hpc : th.pc = .notifyWriter)
      (hj : s.threads[j]? = some w) (hw : w.pc = .parkedWrite) :
      Moved s (.notifyOne i (some j))
        ((s.setThread i { th with pc := .outside }).setThread j { w with pc := .wokenWrite })
  | notifyAll {i th} (h : s.threads[i]? = some th) (hpc : th.pc = .notifyReaders) :
      Moved s (.notifyAll i)
        { s with threads := (s.threads.set i { th with pc := .outside }).map Thread.unparkRead }

theorem moved_of_step {s t : State} {a : Act} (hs : step s a = some t) : Moved s a t := by
  cases a with
  | notifyOne i target =>
    cases target with
    | none =>
      obtain ⟨th, hth, hs⟩ := Option.bind_eq_some_iff.mp hs
      obtain ⟨hth, hpc⟩ := State.threadAt_eq_some.mp hth
      obtain ⟨hnone, hs⟩ := Option.ite_none_right_eq_some.mp hs
      obtain rfl := Option.some.inj hs
      exact .notifyNobody hth hpc hnone
    | some j =>
      obtain ⟨th, hth, hs⟩ := Option.bind_eq_some_iff.mp hs
      obtain ⟨hth, hpc⟩ := State.threadAt_eq_some.mp hth
      obtain ⟨w, hw, rfl⟩ := Option.map_eq_some_iff.mp hs
      obtain ⟨hw, hpc'⟩ := State.threadAt_eq_some.mp hw
      exact .notifyOne hth hpc hw hpc'
  | _ =>
    obtain ⟨th, hth, rfl⟩ := Option.map_eq_some_iff.mp hs
    obtain ⟨hth, hpc⟩ := State.threadAt_eq_some.mp hth
    constructor <;> assumption

/-! ## A notification can be given -/

theorem exists_of_tally_at {s : State} {pc : Pc} (h : tally (Thread.at pc) s.threads ≠ 0) :
    ∃ (i : Nat) (th : Thread), s.threads[i]? = some th ∧ th.pc = pc := by
  obtain ⟨i, th, hi, hpos⟩ := exists_of_tally_pos (Nat.pos_of_ne_zero h)
  refine ⟨i, th, hi, ?_⟩
  by_contra hne
  simp [Thread.at, hne] at hpos

/-- The thread that notifies one writer finds one that is parked or nobody, and is outside
then. -/
theorem exists_notifyOne {s : State} {i : Nat} {th : Thread} (h : s.threads[i]? = some th)
    (hpc : th.pc = .notifyWriter) :
    ∃ target t, step s (.notifyOne i target) = some t ∧ t.mutex = s.mutex ∧
      t.threads[i]? = some { th with pc := .outside } := by
  have hat := State.threadAt_eq_some.mpr ⟨h, hpc⟩
  by_cases hnone : tally (Thread.at .parkedWrite) s.threads = 0
  · refine ⟨none, s.setThread i { th with pc := .outside }, ?_, rfl, getElem?_set_of_some h _⟩
    rw [step, hat, Option.bind_some, if_pos hnone]
  · obtain ⟨j, w, hj, hw⟩ := exists_of_tally_at hnone
    have hij : j ≠ i := by
      rintro rfl
      obtain rfl := Option.some.inj (h.symm.trans hj)
      exact absurd (hpc.symm.trans hw) (by decide)
    refine ⟨some j, (s.setThread i { th with pc := .outside }).setThread j
      { w with pc := .wokenWrite }, ?_, rfl, ?_⟩
    · rw [step, hat, Option.bind_some, State.threadAt_eq_some.mpr ⟨hj, hw⟩, Option.map_some]
    · show ((s.threads.set i _).set j _)[i]? = _
      rw [List.getElem?_set_ne hij, getElem?_set_of_some h]

end RwThreads
end TryAndLearn
