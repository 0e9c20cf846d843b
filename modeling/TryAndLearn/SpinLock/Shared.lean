import TryAndLearn.Machine.Trace
import TryAndLearn.SpinLock.Basic

/-!
# Guards that threads share

`is_locked` of a `SpinLockGuard` is atomic, so `Lock` and `Unlock` of one guard may be
called by several threads.  Here the program counter belongs to the thread, and the
guard keeps `is_locked` only.  What a member function does in one atomic operation is
what it does for a guard with a thread of its own.

A guard is there for other threads once its constructor has returned.  Its destructor
runs when no thread is inside it, and no call of it starts afterwards.
-/

namespace TryAndLearn
namespace SharedGuards

open SpinLock (Pc Method Guard Goto)

inductive Life
  | constructing
  | alive
  | destroyed
  deriving DecidableEq, Repr

structure SharedGuard where
  isLocked : Bool := false
  life : Life := .constructing
  deriving DecidableEq, Repr

/-- A thread and the guard whose member function it is in. -/
structure Thread where
  pc : Pc := .idle
  guard : Nat := 0
  deriving DecidableEq, Repr

structure State where
  lock : Bool := false
  guards : List SharedGuard := []
  threads : List Thread
  deriving DecidableEq, Repr

inductive Act
  | construct (i : Nat)
  | call (i g : Nat) (method : Method)
  | exec (i : Nat)
  deriving DecidableEq, Repr

/-- One atomic operation of a member function on `lock_` and the `is_locked` it sees. -/
def operate (lock : Bool) (x : Guard) : Option (Bool × Guard) :=
  ((SpinLock.State.mk lock [x]).exec 0 x).bind fun s => s.guards[0]?.map fun y => (s.lock, y)

/-- The guard as a thread inside it sees it. -/
def Thread.view (th : Thread) (x : SharedGuard) : Guard := { pc := th.pc, isLocked := x.isLocked }

/-- The last operation of the constructor is its store to `is_locked`. -/
def Life.after (life : Life) (pc : Pc) : Life := if pc = .set then .alive else life

/-- A thread that has left the destructor may go on with other guards. -/
def back (pc : Pc) : Pc := if pc = .gone then .idle else pc

namespace State

/-- Thread `i` after an operation that has left `lock` and `y`. -/
def put (s : State) (i : Nat) (th : Thread) (x : SharedGuard) (lock : Bool) (y : Guard) : State :=
  { lock := lock,
    guards := s.guards.set th.guard { isLocked := y.isLocked, life := x.life.after th.pc },
    threads := s.threads.set i { th with pc := back y.pc } }

/-- No thread is inside guard `g`. -/
def Empty (s : State) (g : Nat) : Prop := ∀ th ∈ s.threads, th.guard = g → th.pc = .idle

instance (s : State) (g : Nat) : Decidable (s.Empty g) :=
  inferInstanceAs (Decidable (∀ th ∈ s.threads, th.guard = g → th.pc = .idle))

/-- The destructor of a guard is called once, when nobody is inside. -/
def enter (s : State) (i g : Nat) (x : SharedGuard) (method : Method) : Option State :=
  match method with
  | .lock | .unlock => some { s with threads := s.threads.set i ⟨method.entry, g⟩ }
  | .destroy =>
    if s.Empty g then
      some { s with guards := s.guards.set g { x with life := .destroyed },
                    threads := s.threads.set i ⟨method.entry, g⟩ }
    else none

end State

def step (s : State) : Act → Option State
  | .construct i =>
    s.threads[i]?.bind fun th =>
      if th.pc = .idle then
        some { s with guards := s.guards ++ [{}],
                      threads := s.threads.set i ⟨.exchange, s.guards.length⟩ }
      else none
  | .call i g method =>
    s.threads[i]?.bind fun th => s.guards[g]?.bind fun x =>
      if th.pc = .idle ∧ x.life = .alive then s.enter i g x method else none
  | .exec i =>
    s.threads[i]?.bind fun th => s.guards[th.guard]?.bind fun x =>
      (operate s.lock (th.view x)).map fun (lock, y) => s.put i th x lock y

/-- `n` threads and a lock that nobody has used. -/
def machine : Machine State Act where
  init s := ∃ n, s = { threads := List.replicate n {} }
  step := step

/-- The operations on `lock_` that matter: an exchange by the guard that got back false,
and a store of false by the guard. -/
inductive Event
  | exchanged (g : Nat)
  | stored (g : Nat)
  deriving DecidableEq, Repr

def see (s : State) (a : Act) (_ : State) : List Event :=
  match a with
  | .construct _ | .call _ _ _ => []
  | .exec i =>
    match s.threads[i]? with
    | some th =>
      if th.pc = .exchange ∧ s.lock = false then [.exchanged th.guard]
      else if th.pc = .unlock ∨ th.pc = .destroyUnlock then [.stored th.guard]
      else []
    | none => []

/-! ## The step as cases -/

inductive Operated (lock : Bool) (x : Guard) : Bool → Guard → Prop
  | goto {y} (h : Goto ⟨lock, [x]⟩ x y) : Operated lock x lock y
  | acquire (hpc : x.pc = .exchange) (hfree : lock = false) :
      Operated lock x true { x with pc := .set, holds := true }
  | release {next}
      (hpc : x.pc = .unlock ∧ next = .clear ∨ x.pc = .destroyUnlock ∧ next = .gone) :
      Operated lock x false { x with pc := next, holds := false }

theorem operated_of_operate {lock lock' : Bool} {x y : Guard}
    (ho : operate lock x = some (lock', y)) : Operated lock x lock' y := by
  obtain ⟨s, hs, hmap⟩ := Option.bind_eq_some_iff.mp ho
  obtain ⟨y', hy, hpair⟩ := Option.map_eq_some_iff.mp hmap
  obtain ⟨rfl, rfl⟩ := Prod.mk.inj hpair
  have hx : (SpinLock.State.mk lock [x]).guards[0]? = some x := rfl
  have hmoved := SpinLock.moved_of_exec hx hs
  clear ho hmap hpair hs
  cases hmoved with
  | goto h hgo =>
    obtain rfl := Option.some.inj (hx.symm.trans h)
    obtain rfl := Option.some.inj hy
    exact .goto hgo
  | acquire h hpc hfree =>
    obtain rfl := Option.some.inj (hx.symm.trans h)
    obtain rfl := Option.some.inj hy
    exact .acquire hpc hfree
  | release h hpc =>
    obtain rfl := Option.some.inj (hx.symm.trans h)
    obtain rfl := Option.some.inj hy
    exact .release hpc

inductive Moved (s : State) : Act → State → List Event → Prop
  | construct {i th} (h : s.threads[i]? = some th) (hpc : th.pc = .idle) :
      Moved s (.construct i)
        { s with guards := s.guards ++ [{}],
                 threads := s.threads.set i ⟨.exchange, s.guards.length⟩ } []
  | call {i g th x method} (h : s.threads[i]? = some th) (hpc : th.pc = .idle)
      (hx : s.guards[g]? = some x) (halive : x.life = .alive) (hmethod : method ≠ .destroy) :
      Moved s (.call i g method) { s with threads := s.threads.set i ⟨method.entry, g⟩ } []
  | destroy {i g th x} (h : s.threads[i]? = some th) (hpc : th.pc = .idle)
      (hx : s.guards[g]? = some x) (halive : x.life = .alive) (hempty : s.Empty g) :
      Moved s (.call i g .destroy)
        { s with guards := s.guards.set g { x with life := .destroyed },
                 threads := s.threads.set i ⟨.destroyTest, g⟩ } []
  | goto {i th x y} (h : s.threads[i]? = some th) (hx : s.guards[th.guard]? = some x)
      (hgo : Goto ⟨s.lock, [th.view x]⟩ (th.view x) y) :
      Moved s (.exec i) (s.put i th x s.lock y) []
  | acquire {i th x} (h : s.threads[i]? = some th) (hx : s.guards[th.guard]? = some x)
      (hpc : th.pc = .exchange) (hfree : s.lock = false) :
      Moved s (.exec i) (s.put i th x true { th.view x with pc := .set, holds := true })
        [.exchanged th.guard]
  | release {i th x next} (h : s.threads[i]? = some th) (hx : s.guards[th.guard]? = some x)
      (hpc : th.pc = .unlock ∧ next = .clear ∨ th.pc = .destroyUnlock ∧ next = .gone) :
      Moved s (.exec i) (s.put i th x false { th.view x with pc := next, holds := false })
        [.stored th.guard]

/-- A step that leaves `lock_` alone shows nothing. -/
theorem see_of_goto {s t : State} {i : Nat} {th : Thread} {x : SharedGuard} {y : Guard}
    (h : s.threads[i]? = some th) (hgo : Goto ⟨s.lock, [th.view x]⟩ (th.view x) y) :
    see s (.exec i) t = [] := by
  have hexchange : ¬ (th.pc = .exchange ∧ s.lock = false) := hgo.not_acquires
  have hstore : ¬ (th.pc = .unlock ∨ th.pc = .destroyUnlock) := by
    intro hpc
    cases hgo with
    | lockLocked h _ | lockFree h _ | retry h _ | spin h | set h | unlockLocked h _
    | unlockFree h _ | clear h | destroyLocked h _ | destroyFree h _ =>
      rcases hpc with hpc | hpc <;> exact absurd (hpc.symm.trans h) (by decide)
  simp only [see, h, if_neg hexchange, if_neg hstore]

theorem moved_of_step {s t : State} {a : Act} (hs : step s a = some t) :
    Moved s a t (see s a t) := by
  cases a with
  | construct i =>
    obtain ⟨th, hth, hs⟩ := Option.bind_eq_some_iff.mp hs
    obtain ⟨hpc, hs⟩ := Option.ite_none_right_eq_some.mp hs
    obtain rfl := Option.some.inj hs
    exact .construct hth hpc
  | call i g method =>
    obtain ⟨th, hth, hs⟩ := Option.bind_eq_some_iff.mp hs
    obtain ⟨x, hx, hs⟩ := Option.bind_eq_some_iff.mp hs
    obtain ⟨⟨hpc, halive⟩, hs⟩ := Option.ite_none_right_eq_some.mp hs
    cases method with
    | lock | unlock =>
      obtain rfl := Option.some.inj hs
      exact .call hth hpc hx halive (by decide)
    | destroy =>
      obtain ⟨hempty, hs⟩ := Option.ite_none_right_eq_some.mp hs
      obtain rfl := Option.some.inj hs
      exact .destroy hth hpc hx halive hempty
  | exec i =>
    obtain ⟨th, hth, hs⟩ := Option.bind_eq_some_iff.mp hs
    obtain ⟨x, hx, hs⟩ := Option.bind_eq_some_iff.mp hs
    obtain ⟨⟨lock, y⟩, ho, rfl⟩ := Option.map_eq_some_iff.mp hs
    generalize hview : th.view x = v at ho
    cases operated_of_operate ho with
    | goto hgo =>
      subst hview
      rw [see_of_goto hth hgo]
      exact .goto hth hx hgo
    | acquire hpc hfree =>
      subst hview
      have hsee : see s (.exec i) (s.put i th x true { th.view x with pc := .set, holds := true }) =
          [.exchanged th.guard] := by
        simp only [see, hth]
        exact if_pos ⟨hpc, hfree⟩
      rw [hsee]
      exact .acquire hth hx hpc hfree
    | @release next hpc =>
      subst hview
      have hsee : see s (.exec i) (s.put i th x false
          { th.view x with pc := next, holds := false }) = [.stored th.guard] := by
        have hne : ¬ (th.pc = .exchange ∧ s.lock = false) := by
          rintro ⟨hpc', _⟩
          rcases hpc with ⟨h, _⟩ | ⟨h, _⟩ <;> exact absurd (hpc'.symm.trans h) (by decide)
        simp only [see, hth, if_neg hne]
        exact if_pos (hpc.imp And.left And.left)
      rw [hsee]
      exact .release hth hx hpc

end SharedGuards
end TryAndLearn
