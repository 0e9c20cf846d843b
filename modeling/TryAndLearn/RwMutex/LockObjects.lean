import TryAndLearn.Machine.Tally
import TryAndLearn.Machine.Run
import TryAndLearn.RwMutex.Basic

/-!
# `UniqueReadLock`, `UniqueWriteLock` and `UniqueRwLock`

A lock object owns a pointer to a mutex and its own share of the mutex's counters.
Its methods are short programs: calls on the mutex, each one critical section, and
steps on the object's own fields.  A method call loads the program into `todo` and
`exec` runs one instruction of it, so sections of other objects come in between.

An object whose lock call has to wait stays on that instruction.  It may evaluate
its predicate again at any step: a condition variable may wake spuriously, so the
notifications add no behaviour to this system and are left to `RwThreads`.

The counters of the object are those the source passes by address: `count_` of a
`UniqueReadLock` is `readCount`, that of a `UniqueWriteLock` is `writeCount`.
-/

namespace TryAndLearn
namespace RwObjects

inductive LockClass
  | uniqueReadLock
  | uniqueWriteLock
  | uniqueRwLock
  deriving DecidableEq, Repr

/-- `releaseRead` and `releaseWrite` are the guarded releases of a move assignment,
`if (count_ > 0) mutex_->ReadUnlock(&count_, &reading_count_, true)` and its
counterpart.  `swap src` is what the assignment does with the fields of both
objects, and `free` ends the destructor. -/
inductive Instr
  | readLock
  | readUnlock (release : Bool)
  | writeLock
  | writeUnlock (release : Bool)
  | releaseRead
  | releaseWrite
  | swap (src : Nat)
  | free
  deriving DecidableEq, Repr

inductive Method
  | readLock
  | readUnlock
  | writeLock
  | writeUnlock
  | assign (src : Nat)
  | destroy
  deriving DecidableEq, Repr

/-- The methods of each class.  `Lock` and `Unlock` of a `UniqueReadLock` are its
`readLock` and `readUnlock`. -/
def LockClass.body : LockClass → Method → Option (List Instr)
  | .uniqueReadLock, .readLock => some [.readLock]
  | .uniqueReadLock, .readUnlock => some [.readUnlock false]
  | .uniqueReadLock, .assign src => some [.releaseRead, .swap src]
  | .uniqueReadLock, .destroy => some [.readUnlock true, .free]
  | .uniqueWriteLock, .writeLock => some [.writeLock]
  | .uniqueWriteLock, .writeUnlock => some [.writeUnlock false]
  | .uniqueWriteLock, .assign src => some [.releaseWrite, .swap src]
  | .uniqueWriteLock, .destroy => some [.writeUnlock true, .free]
  | .uniqueRwLock, .readLock => some [.readLock]
  | .uniqueRwLock, .readUnlock => some [.readUnlock false]
  | .uniqueRwLock, .writeLock => some [.writeLock]
  | .uniqueRwLock, .writeUnlock => some [.writeUnlock false]
  | .uniqueRwLock, .assign src => some [.releaseRead, .releaseWrite, .swap src]
  | .uniqueRwLock, .destroy => some [.readUnlock true, .writeUnlock true, .free]
  | _, _ => none

/-- What the constructor does with the mutex.  Only `UniqueRwLock` has the
parameter `read_lock`. -/
def LockClass.onConstruct : LockClass → (readLock defer : Bool) → List Instr
  | _, _, true => []
  | .uniqueReadLock, _, false => [.readLock]
  | .uniqueWriteLock, _, false => [.writeLock]
  | .uniqueRwLock, true, false => [.readLock]
  | .uniqueRwLock, false, false => [.writeLock]

/-- `holdsRead` and `holdsWrite` record that a lock call of the object has returned
and no unlock of it has run since.  The code does not read them. -/
structure LockObj where
  cls : LockClass
  mutex : Option Nat
  readCount : Nat := 0
  readingCount : Nat := 0
  writeCount : Nat := 0
  todo : List Instr := []
  waiting : Bool := false
  alive : Bool := true
  holdsRead : Bool := false
  holdsWrite : Bool := false
  deriving DecidableEq, Repr

structure State where
  mutexes : List RwMutex
  objs : List LockObj
  deriving DecidableEq, Repr

inductive Act
  | construct (cls : LockClass) (mutex : Nat) (readLock defer : Bool)
  | moveConstruct (src : Nat)
  | call (o : Nat) (method : Method)
  | exec (o : Nat)
  deriving DecidableEq, Repr

namespace LockObj

/-- The object is alive and no method of it is running. -/
def Idle (x : LockObj) : Prop := x.alive = true ∧ x.todo = []

instance (x : LockObj) : Decidable x.Idle := inferInstanceAs (Decidable (_ ∧ _))

/-- What a move leaves of its source. -/
def moved (x : LockObj) : LockObj :=
  { x with mutex := none, readCount := 0, readingCount := 0, writeCount := 0,
           holdsRead := false, holdsWrite := false }

/-- The fields a move carries over. -/
def takeFrom (x y : LockObj) : LockObj :=
  { x with mutex := y.mutex, readCount := y.readCount, readingCount := y.readingCount,
           writeCount := y.writeCount, holdsRead := y.holdsRead, holdsWrite := y.holdsWrite }

/-- The releases of a move assignment that find nothing to release. -/
def skips (x : LockObj) : Instr → Bool
  | .releaseRead => x.readCount == 0
  | .releaseWrite => x.writeCount == 0
  | _ => false

/-! One critical section of `x` on its mutex `m`, with `rest` left to do. -/

def readLockOn (x : LockObj) (rest : List Instr) (m : RwMutex) : RwMutex × LockObj :=
  let (m, count) :=
    if x.waiting then (m, some x.readCount) else m.readLockEnter (some x.readCount)
  if m.readReady then
    let (m, reading) := m.readLockAdmit (some x.readingCount)
    (m, { x with readCount := count.getD 0, readingCount := reading.getD 0, todo := rest,
                 waiting := false, holdsRead := true })
  else (m, { x with readCount := count.getD 0, waiting := true })

def writeLockOn (x : LockObj) (rest : List Instr) (m : RwMutex) : RwMutex × LockObj :=
  let (m, count) :=
    if x.waiting then (m, some x.writeCount) else m.writeLockEnter (some x.writeCount)
  if m.writeReady then
    (m.writeLockAdmit, { x with writeCount := count.getD 0, todo := rest, waiting := false,
                                holdsWrite := true })
  else (m, { x with writeCount := count.getD 0, waiting := true })

def readUnlockOn (x : LockObj) (rest : List Instr) (release : Bool) (m : RwMutex) :
    RwMutex × LockObj :=
  let u := m.readUnlock (some x.readCount) (some x.readingCount) release
  (u.mutex, { x with readCount := u.count.getD 0, readingCount := u.reading.getD 0,
                     todo := rest, holdsRead := false })

def writeUnlockOn (x : LockObj) (rest : List Instr) (release : Bool) (m : RwMutex) :
    RwMutex × LockObj :=
  let u := m.writeUnlock (some x.writeCount) release
  (u.mutex, { x with writeCount := u.count.getD 0, todo := rest, holdsWrite := false })

/-- The section an instruction runs, if it is a call on the mutex. -/
def runOn (x : LockObj) (rest : List Instr) : Instr → Option (RwMutex → RwMutex × LockObj)
  | .readLock => some (x.readLockOn rest)
  | .readUnlock release => some (x.readUnlockOn rest release)
  | .writeLock => some (x.writeLockOn rest)
  | .writeUnlock release => some (x.writeUnlockOn rest release)
  | .releaseRead => some (x.readUnlockOn rest true)
  | .releaseWrite => some (x.writeUnlockOn rest true)
  | .swap _ => none
  | .free => none

end LockObj

namespace State

def setObj (s : State) (o : Nat) (x : LockObj) : State := { s with objs := s.objs.set o x }

/-- The fields of `x` and of its source `src` after `swap`, with the source reset.
Assigned to itself an object loses its mutex. -/
def swap (s : State) (o : Nat) (x : LockObj) (src : Nat) (rest : List Instr) : Option State :=
  if src = o then some (s.setObj o { x with todo := rest }.moved)
  else
    s.objs[src]?.bind fun y =>
      if y.Idle ∧ y.cls = x.cls then
        some ((s.setObj o ({ x with todo := rest }.takeFrom y)).setObj src y.moved)
      else none

/-- A call on the mutex needs `mutex_` to point to one: through a null `mutex_` the
step is not possible. -/
def runSection (s : State) (o : Nat) (x : LockObj) (run : RwMutex → RwMutex × LockObj) :
    Option State :=
  x.mutex.bind fun k =>
    s.mutexes[k]?.map fun m =>
      { mutexes := s.mutexes.set k (run m).1, objs := s.objs.set o (run m).2 }

def exec (s : State) (o : Nat) (x : LockObj) : Option State :=
  match x.todo with
  | [] => none
  | .free :: rest => some (s.setObj o { x with todo := rest, alive := false })
  | .swap src :: rest => s.swap o x src rest
  | i :: rest =>
    if x.skips i then some (s.setObj o { x with todo := rest })
    else (x.runOn rest i).bind (s.runSection o x)

end State

def step (s : State) : Act → Option State
  | .construct cls k readLock defer =>
    if k < s.mutexes.length then
      some { s with objs := s.objs ++
        [{ cls := cls, mutex := some k, todo := cls.onConstruct readLock defer }] }
    else none
  | .moveConstruct src =>
    s.objs[src]?.bind fun y =>
      if y.Idle then some { s with objs := s.objs.set src y.moved ++ [y] } else none
  | .call o method =>
    s.objs[o]?.bind fun x =>
      if x.Idle then (x.cls.body method).map fun body => s.setObj o { x with todo := body }
      else none
  | .exec o => s.objs[o]?.bind (s.exec o)

/-! ## The step as cases -/

inductive Moved (s : State) : Act → State → Prop
  | construct {cls k readLock defer} (hk : k < s.mutexes.length) :
      Moved s (.construct cls k readLock defer)
        { s with objs := s.objs ++
          [{ cls := cls, mutex := some k, todo := cls.onConstruct readLock defer }] }
  | moveConstruct {src y} (h : s.objs[src]? = some y) (hidle : y.Idle) :
      Moved s (.moveConstruct src) { s with objs := s.objs.set src y.moved ++ [y] }
  | call {o x method body} (h : s.objs[o]? = some x) (hidle : x.Idle)
      (hbody : x.cls.body method = some body) :
      Moved s (.call o method) (s.setObj o { x with todo := body })
  | free {o x rest} (h : s.objs[o]? = some x) (htodo : x.todo = .free :: rest) :
      Moved s (.exec o) (s.setObj o { x with todo := rest, alive := false })
  | swapSelf {o x rest} (h : s.objs[o]? = some x) (htodo : x.todo = .swap o :: rest) :
      Moved s (.exec o) (s.setObj o { x with todo := rest }.moved)
  | swap {o x src y rest} (h : s.objs[o]? = some x) (htodo : x.todo = .swap src :: rest)
      (hne : src ≠ o) (hsrc : s.objs[src]? = some y) (hidle : y.Idle) (hcls : y.cls = x.cls) :
      Moved s (.exec o)
        ((s.setObj o ({ x with todo := rest }.takeFrom y)).setObj src y.moved)
  | skip {o x i rest} (h : s.objs[o]? = some x) (htodo : x.todo = i :: rest)
      (hskip : x.skips i = true) :
      Moved s (.exec o) (s.setObj o { x with todo := rest })
  | onMutex {o x i rest run k m} (h : s.objs[o]? = some x) (htodo : x.todo = i :: rest)
      (hrun : x.runOn rest i = some run) (hmutex : x.mutex = some k)
      (hm : s.mutexes[k]? = some m) :
      Moved s (.exec o)
        { mutexes := s.mutexes.set k (run m).1, objs := s.objs.set o (run m).2 }

theorem moved_of_exec {s t : State} {o : Nat} {x : LockObj} (h : s.objs[o]? = some x)
    (hs : s.exec o x = some t) : Moved s (.exec o) t := by
  unfold State.exec at hs
  split at hs
  · exact absurd hs (by simp)
  · rename_i rest htodo
    obtain rfl := Option.some.inj hs
    exact .free h htodo
  · rename_i src rest htodo
    unfold State.swap at hs
    split at hs
    · rename_i hself
      subst hself
      obtain rfl := Option.some.inj hs
      exact .swapSelf h htodo
    · rename_i hne
      obtain ⟨y, hy, hs⟩ := Option.bind_eq_some_iff.mp hs
      obtain ⟨⟨hidle, hcls⟩, hs⟩ := Option.ite_none_right_eq_some.mp hs
      obtain rfl := Option.some.inj hs
      exact .swap h htodo hne hy hidle hcls
  · rename_i i rest _ _ htodo
    split at hs
    · rename_i hskip
      obtain rfl := Option.some.inj hs
      exact .skip h htodo hskip
    · obtain ⟨run, hrun, hs⟩ := Option.bind_eq_some_iff.mp hs
      obtain ⟨k, hk, hs⟩ := Option.bind_eq_some_iff.mp hs
      obtain ⟨m, hm, rfl⟩ := Option.map_eq_some_iff.mp hs
      exact .onMutex h htodo hrun hk hm

theorem moved_of_step {s t : State} {a : Act} (hs : step s a = some t) : Moved s a t := by
  cases a with
  | construct cls k readLock defer =>
    obtain ⟨hk, hs⟩ := Option.ite_none_right_eq_some.mp hs
    obtain rfl := Option.some.inj hs
    exact .construct hk
  | moveConstruct src =>
    obtain ⟨y, hy, hs⟩ := Option.bind_eq_some_iff.mp hs
    obtain ⟨hidle, hs⟩ := Option.ite_none_right_eq_some.mp hs
    obtain rfl := Option.some.inj hs
    exact .moveConstruct hy hidle
  | call o method =>
    obtain ⟨x, hx, hs⟩ := Option.bind_eq_some_iff.mp hs
    obtain ⟨hidle, hs⟩ := Option.ite_none_right_eq_some.mp hs
    obtain ⟨body, hbody, rfl⟩ := Option.map_eq_some_iff.mp hs
    exact .call hx hidle hbody
  | exec o =>
    obtain ⟨x, hx, hs⟩ := Option.bind_eq_some_iff.mp hs
    exact moved_of_exec hx hs

/-- Any number of fresh mutexes, in either mode, and no lock object. -/
def machine : Machine State Act where
  init s := ∃ modes : List Bool,
    s = { mutexes := modes.map fun reader => { reader := reader }, objs := [] }
  step := step

end RwObjects
end TryAndLearn
