/-
`SpinLock` and the guards that use it.

A step is one atomic operation on `lock_` or on the `is_locked` of a guard: an exchange,
a load or a store, taken as sequentially consistent.  Any number of guards are
constructed on one lock.  A guard is used by one thread, so its program counter is
where that thread is in the member function it calls.

`SpinLock::Lock` is the loop of `exchange` and `spin`: it exchanges until it gets back
false, and between two tries it loads until it reads false.
-/
import TryAndLearn.Machine.Run
import TryAndLearn.Machine.Tally

namespace TryAndLearn
namespace SpinLock

/-- What a guard does next.  `set` and `clear` are the stores to `is_locked`, `unlock`
and `destroyUnlock` the store of false to `lock_`. -/
inductive Pc
  | idle
  | lockTest
  | exchange
  | spin
  | set
  | unlockTest
  | unlock
  | clear
  | destroyTest
  | destroyUnlock
  | gone
  deriving DecidableEq, Repr

/-- The constructor of a guard calls `lock_.Lock()`.  `holds` records that the guard has
exchanged successfully and not stored false to `lock_` since.  The code does not have
it. -/
structure Guard where
  pc : Pc := .exchange
  isLocked : Bool := false
  holds : Bool := false
  deriving DecidableEq, Repr

structure State where
  lock : Bool := false
  guards : List Guard := []
  deriving DecidableEq, Repr

/-- The member functions of a guard that may be called after its constructor. -/
inductive Method
  | lock
  | unlock
  | destroy
  deriving DecidableEq, Repr

inductive Act
  | construct
  | call (g : Nat) (method : Method)
  | exec (g : Nat)
  deriving DecidableEq, Repr

/-- Each member function first loads `is_locked`. -/
def Method.entry : Method → Pc
  | .lock => .lockTest
  | .unlock => .unlockTest
  | .destroy => .destroyTest

namespace State

def setGuard (s : State) (g : Nat) (x : Guard) : State := { s with guards := s.guards.set g x }

/-- `lock_.store(false)` -/
def release (s : State) (g : Nat) (x : Guard) (next : Pc) : State :=
  { lock := false, guards := s.guards.set g { x with pc := next, holds := false } }

def exec (s : State) (g : Nat) (x : Guard) : Option State :=
  match x.pc with
  | .idle => none
  | .lockTest => some (s.setGuard g { x with pc := if x.isLocked then .idle else .exchange })
  | .exchange =>
    -- `exchange(true)` leaves true behind whatever it finds
    if s.lock then some { lock := true, guards := s.guards.set g { x with pc := .spin } }
    else some { lock := true, guards := s.guards.set g { x with pc := .set, holds := true } }
  | .spin => some (s.setGuard g { x with pc := if s.lock then .spin else .exchange })
  | .set => some (s.setGuard g { x with pc := .idle, isLocked := true })
  | .unlockTest => some (s.setGuard g { x with pc := if x.isLocked then .unlock else .idle })
  | .unlock => some (s.release g x .clear)
  | .clear => some (s.setGuard g { x with pc := .idle, isLocked := false })
  | .destroyTest =>
    some (s.setGuard g { x with pc := if x.isLocked then .destroyUnlock else .gone })
  | .destroyUnlock => some (s.release g x .gone)
  | .gone => none

end State

def step (s : State) : Act → Option State
  | .construct => some { s with guards := s.guards ++ [{}] }
  | .call g method =>
    s.guards[g]?.bind fun x =>
      if x.pc = .idle then some (s.setGuard g { x with pc := method.entry }) else none
  | .exec g => s.guards[g]?.bind (s.exec g)

/-- A lock that nobody has used. -/
def machine : Machine State Act where
  init s := s = {}
  step := step

/-! ## The step as cases -/

/-- A step of a guard that leaves `lock_` alone. -/
inductive Goto (s : State) (x : Guard) : Guard → Prop
  | lockLocked (h : x.pc = .lockTest) (hl : x.isLocked = true) : Goto s x { x with pc := .idle }
  | lockFree (h : x.pc = .lockTest) (hl : x.isLocked = false) :
      Goto s x { x with pc := .exchange }
  | retry (h : x.pc = .exchange) (hl : s.lock = true) : Goto s x { x with pc := .spin }
  | spin (h : x.pc = .spin) : Goto s x { x with pc := if s.lock then .spin else .exchange }
  | set (h : x.pc = .set) : Goto s x { x with pc := .idle, isLocked := true }
  | unlockLocked (h : x.pc = .unlockTest) (hl : x.isLocked = true) :
      Goto s x { x with pc := .unlock }
  | unlockFree (h : x.pc = .unlockTest) (hl : x.isLocked = false) : Goto s x { x with pc := .idle }
  | clear (h : x.pc = .clear) : Goto s x { x with pc := .idle, isLocked := false }
  | destroyLocked (h : x.pc = .destroyTest) (hl : x.isLocked = true) :
      Goto s x { x with pc := .destroyUnlock }
  | destroyFree (h : x.pc = .destroyTest) (hl : x.isLocked = false) :
      Goto s x { x with pc := .gone }

theorem Goto.not_acquires {s : State} {x x' : Guard} (h : Goto s x x') :
    ¬(x.pc = .exchange ∧ s.lock = false) := by
  rintro ⟨hx, hfree⟩
  cases h with
  | retry _ hl => exact absurd (hfree.symm.trans hl) (by decide)
  | lockLocked hpc _ | lockFree hpc _ | unlockLocked hpc _ | unlockFree hpc _
  | destroyLocked hpc _ | destroyFree hpc _ | spin hpc | set hpc | clear hpc =>
    exact absurd (hpc.symm.trans hx) (by decide)

inductive Moved (s : State) : Act → State → Prop
  | construct : Moved s .construct { s with guards := s.guards ++ [{}] }
  | call {g x method} (h : s.guards[g]? = some x) (hpc : x.pc = .idle) :
      Moved s (.call g method) (s.setGuard g { x with pc := method.entry })
  | goto {g x x'} (h : s.guards[g]? = some x) (hgo : Goto s x x') :
      Moved s (.exec g) (s.setGuard g x')
  | acquire {g x} (h : s.guards[g]? = some x) (hpc : x.pc = .exchange) (hfree : s.lock = false) :
      Moved s (.exec g)
        { lock := true, guards := s.guards.set g { x with pc := .set, holds := true } }
  | release {g x next} (h : s.guards[g]? = some x)
      (hpc : x.pc = .unlock ∧ next = .clear ∨ x.pc = .destroyUnlock ∧ next = .gone) :
      Moved s (.exec g) (s.release g x next)

theorem moved_of_exec {s t : State} {g : Nat} {x : Guard} (h : s.guards[g]? = some x)
    (hs : s.exec g x = some t) : Moved s (.exec g) t := by
  unfold State.exec at hs
  split at hs <;> rename_i hpc
  case h_1 => exact absurd hs (by simp)
  case h_2 =>
    obtain rfl := Option.some.inj hs
    split
    · rename_i hl
      exact .goto h (.lockLocked hpc hl)
    · rename_i hl
      exact .goto h (.lockFree hpc (Bool.eq_false_iff.mpr hl))
  case h_3 =>
    split at hs <;> rename_i hl <;> obtain rfl := Option.some.inj hs
    · rw [← hl]
      exact .goto h (.retry hpc hl)
    · exact .acquire h hpc (Bool.eq_false_iff.mpr hl)
  case h_4 =>
    obtain rfl := Option.some.inj hs
    exact .goto h (.spin hpc)
  case h_5 =>
    obtain rfl := Option.some.inj hs
    exact .goto h (.set hpc)
  case h_6 =>
    obtain rfl := Option.some.inj hs
    split
    · rename_i hl
      exact .goto h (.unlockLocked hpc hl)
    · rename_i hl
      exact .goto h (.unlockFree hpc (Bool.eq_false_iff.mpr hl))
  case h_7 =>
    obtain rfl := Option.some.inj hs
    exact .release h (.inl ⟨hpc, rfl⟩)
  case h_8 =>
    obtain rfl := Option.some.inj hs
    exact .goto h (.clear hpc)
  case h_9 =>
    obtain rfl := Option.some.inj hs
    split
    · rename_i hl
      exact .goto h (.destroyLocked hpc hl)
    · rename_i hl
      exact .goto h (.destroyFree hpc (Bool.eq_false_iff.mpr hl))
  case h_10 =>
    obtain rfl := Option.some.inj hs
    exact .release h (.inr ⟨hpc, rfl⟩)
  case h_11 => exact absurd hs (by simp)

theorem moved_of_step {s t : State} {a : Act} (hs : step s a = some t) : Moved s a t := by
  cases a with
  | construct =>
    obtain rfl := Option.some.inj hs
    exact .construct
  | call g method =>
    obtain ⟨x, hx, hs⟩ := Option.bind_eq_some_iff.mp hs
    obtain ⟨hpc, hs⟩ := Option.ite_none_right_eq_some.mp hs
    obtain rfl := Option.some.inj hs
    exact .call hx hpc
  | exec g =>
    obtain ⟨x, hx, hs⟩ := Option.bind_eq_some_iff.mp hs
    exact moved_of_exec hx hs

end SpinLock
end TryAndLearn
