import TryAndLearn.Machine.Run
import TryAndLearn.RwMutex.Basic
import TryAndLearn.ThreadSafeQueue.Basic

/-!
# `ThreadPool`

The pool with everything that runs on it: the worker threads started by `SetThread`,
the calls of `Push` and `VoidPush`, and the threads that call `Resize`, `Stop`,
`ClearQueue` and `Pop`.  One step is one access to shared data: a section of
`task_q_`, one atomic load or store, one lock or unlock of `mutex_`, one
notification, one `join`.  The destructor is a call of `Stop(true)`.

`threads_` and `flags_` hold pointers.  A `std::thread` is named by the number of its
worker, a flag by the number of its cell in `cells`, and a null entry is `none`.
A step that would follow a null or missing entry does not exist.

`wait` evaluates its predicate in up to three steps under `mutex_`, `TryPop`, the
load of `is_done_` and the load of the flag, and parking is a step of its own.
-/

namespace TryAndLearn
namespace ThreadPool

/-- `func` names the call of `Push` whose callable it runs. -/
structure Task where
  func : Nat
  priority : Int
  deriving DecidableEq, Repr

instance : LT Task := ⟨fun a b => a.priority < b.priority⟩

instance : DecidableLT Task := fun a b => inferInstanceAs (Decidable (a.priority < b.priority))

/-! ## Threads -/

/-- `predPop` is the `TryPop` of the predicate, for the first time or after the
worker was unparked.  `haveTask` and `leave` follow a predicate that is true, with
and without a task, and still hold `mutex_`. -/
inductive WorkerPc
  | init
  | firstPop
  | run
  | running
  | testFlag
  | nextPop
  | lock
  | predPop (unparked : Bool)
  | predDone
  | predFlag
  | park
  | parked
  | unparked
  | haveTask
  | leave
  | exited
  deriving DecidableEq, Repr

/-- `hand` is the local `t` while its `func` is set, and `flag` the cell `tmp_flag`
points to. -/
structure Worker where
  flag : Nat
  pc : WorkerPc := .init
  hand : Option Task := none
  joinable : Bool := true
  deriving DecidableEq, Repr

inductive PushPc
  | called
  | enqueued
  | locked
  | notified
  | returned
  deriving DecidableEq, Repr

structure Push where
  task : Task
  pc : PushPc := .called
  deriving DecidableEq, Repr

inductive Op
  | resize (n : Nat)
  | stop (waitAllTaskDone : Bool)
  | clearQueue
  | pop
  deriving DecidableEq, Repr

/-- Where a thread is in the call it makes.  `stopped` is `idle` after a `Stop` that
has returned. -/
inductive CallerPc
  | idle
  | resizeIfStop (n : Nat)
  | resizeIfDone (n : Nat)
  | resizeVectors (n : Nat)
  | growFlag (n i : Nat)
  | growThread (n i : Nat)
  | shrinkFlag (n i : Nat)
  | shrinkDetach (n i : Nat)
  | shrinkLock (n : Nat)
  | shrinkNotify (n : Nat)
  | shrinkUnlock (n : Nat)
  | shrinkErase (n : Nat)
  | stopIfDone
  | stopIfStop (wait : Bool)
  | stopSet (wait : Bool)
  | stopSize
  | stopFlag (i n : Nat)
  | stopClear
  | stopNotify
  | stopJoin (i : Nat)
  | joining (i w : Nat)
  | stopDrain
  | stopErase
  | stopped
  | clearQueue
  | pop
  deriving DecidableEq, Repr

/-- `began` is `threads_` as it was when the thread made its call.  The code does not
have it. -/
structure Caller where
  pc : CallerPc := .idle
  began : List (Option Nat) := []
  deriving DecidableEq, Repr

inductive Owner
  | worker (w : Nat)
  | push (p : Nat)
  | caller (c : Nat)
  deriving DecidableEq, Repr

/-- Who took a task off the queue without running it.  `stop` is the `ClearQueue`
inside `Stop`. -/
inductive Remover
  | pop
  | clearQueue
  | stop
  deriving DecidableEq, Repr

/-! ## The state -/

/-- `taken`, `finished`, `removed` and `joins` record what has happened: which worker
took which task and which it ran to its end, which tasks were removed, and which
threads a `join` was called on. -/
structure State where
  queue : List Task := []
  threads : List (Option Nat) := []
  flags : List (Option Nat) := []
  cells : List Bool := []
  isDone : Bool := false
  isStop : Bool := false
  nWaiting : Int := 0
  mutex : Option Owner := none
  workers : List Worker := []
  pushes : List Push := []
  callers : List Caller := []
  taken : List (Nat × Task) := []
  finished : List (Nat × Task) := []
  removed : List (Remover × Task) := []
  joins : List Nat := []
  deriving DecidableEq, Repr

/-- `push` begins a call of `Push` or `VoidPush`.  The argument `target` of a
notification is the parked worker it reaches, `choice` the value a priority queue
gives back. -/
inductive Act
  | push (priority : Int)
  | pushStep (p : Nat) (target : Option Nat)
  | worker (w choice : Nat)
  | wake (w : Nat)
  | call (c : Nat) (op : Op)
  | caller (c choice : Nat)
  deriving DecidableEq, Repr

/-- `notify_all` for one worker. -/
def Worker.unpark (x : Worker) : Worker :=
  if x.pc = .parked then { x with pc := .unparked } else x

/-- `std::vector::resize` of a vector of pointers. -/
def resizeTo (l : List (Option Nat)) (n : Nat) : List (Option Nat) :=
  l.take n ++ List.replicate (n - l.length) none

namespace State

def setWorker (s : State) (w : Nat) (x : Worker) : State := { s with workers := s.workers.set w x }

def setPush (s : State) (p : Nat) (x : Push) : State := { s with pushes := s.pushes.set p x }

def setCaller (s : State) (c : Nat) (x : Caller) : State := { s with callers := s.callers.set c x }

/-- The value of a flag. -/
def flag (s : State) (f : Nat) : Bool := s.cells.getD f false

def notifyAll (s : State) : State := { s with workers := s.workers.map Worker.unpark }

/-! ## Push and VoidPush -/

/-- `notify_one` wakes some parked worker, or nobody when none is parked. -/
def notifyOne (s : State) : Option Nat → Option State
  | some w => s.workers[w]?.bind fun x =>
      if x.pc = .parked then some (s.setWorker w { x with pc := .unparked }) else none
  | none => if ∀ x ∈ s.workers, x.pc ≠ .parked then some s else none

def pushStep (s : State) (p : Nat) (x : Push) (target : Option Nat) : Option State :=
  match x.pc with
  | .called =>
    some { s.setPush p { x with pc := .enqueued } with
      queue := ThreadSafeQueue.push s.queue x.task }
  | .enqueued =>
    if s.mutex = none then
      some { s.setPush p { x with pc := .locked } with mutex := some (.push p) }
    else none
  | .locked => (s.setPush p { x with pc := .notified }).notifyOne target
  | .notified => some { s.setPush p { x with pc := .returned } with mutex := none }
  | .returned => none

/-! ## SetThread -/

def workerPop (s : State) (kind : QueueKind) (w : Nat) (x : Worker) (choice : Nat)
    (onTask onEmpty : WorkerPc) : Option State :=
  (ThreadSafeQueue.tryPop kind choice s.queue).map fun
    | (some t, queue) =>
      { s.setWorker w { x with pc := onTask, hand := some t } with
        queue := queue, taken := (w, t) :: s.taken }
    | (none, queue) => { s.setWorker w { x with pc := onEmpty } with queue := queue }

def workerLock (s : State) (w : Nat) (x : Worker) (next : WorkerPc) (n : Int) : Option State :=
  if s.mutex = none then
    some { s.setWorker w { x with pc := next } with
      mutex := some (.worker w), nWaiting := s.nWaiting + n }
  else none

def workerUnlock (s : State) (w : Nat) (x : Worker) (next : WorkerPc) (n : Int) : State :=
  { s.setWorker w { x with pc := next } with mutex := none, nWaiting := s.nWaiting + n }

/-- The thread function of a worker, after `thread_init_func_` in `init`. -/
def workerStep (s : State) (kind : QueueKind) (w : Nat) (x : Worker) (choice : Nat) :
    Option State :=
  match x.pc with
  | .init => some (s.setWorker w { x with pc := .firstPop })
  | .firstPop => s.workerPop kind w x choice .run .lock
  | .run => some (s.setWorker w { x with pc := .running })
  | .running =>
    some { s.setWorker w { x with pc := .testFlag, hand := none } with
      finished := x.hand.toList.map (fun t => (w, t)) ++ s.finished }
  | .testFlag =>
    some (s.setWorker w { x with pc := if s.flag x.flag then .exited else .nextPop })
  | .nextPop => s.workerPop kind w x choice .run .lock
  | .lock => s.workerLock w x (.predPop false) 1
  | .predPop _ => s.workerPop kind w x choice .haveTask .predDone
  | .predDone => some (s.setWorker w { x with pc := if s.isDone then .leave else .predFlag })
  | .predFlag =>
    some (s.setWorker w { x with pc := if s.flag x.flag then .leave else .park })
  | .park => some (s.workerUnlock w x .parked 0)
  | .parked => none
  | .unparked => s.workerLock w x (.predPop true) 0
  | .haveTask => some (s.workerUnlock w x .run (-1))
  | .leave => some (s.workerUnlock w x .exited (-1))
  | .exited => none

/-! ## Resize, Stop, ClearQueue and Pop -/

def goto (s : State) (c : Nat) (x : Caller) (pc : CallerPc) : State :=
  s.setCaller c { x with pc := pc }

/-- `flags_[i]->store(true)` -/
def setFlag (s : State) (i : Nat) : Option State :=
  s.flags[i]?.bind fun entry =>
    entry.map fun f => { s with cells := s.cells.set f true }

/-- `threads_[i]`, where it is not null. -/
def thread (s : State) (i : Nat) : Option Nat := s.threads[i]?.bind id

/-- A `TryPop` of `ClearQueue` or `Pop`. -/
def callerPop (s : State) (kind : QueueKind) (c : Nat) (x : Caller) (choice : Nat)
    (who : Remover) (onTask onEmpty : CallerPc) : Option State :=
  (ThreadSafeQueue.tryPop kind choice s.queue).map fun
    | (some t, queue) =>
      { s.goto c x onTask with queue := queue, removed := (who, t) :: s.removed }
    | (none, queue) => { s.goto c x onEmpty with queue := queue }

def resizeStep (s : State) (c : Nat) (x : Caller) : CallerPc → Option State
  | .resizeIfStop n => some (s.goto c x (if s.isStop then .idle else .resizeIfDone n))
  | .resizeIfDone n => some (s.goto c x (if s.isDone then .idle else .resizeVectors n))
  | .resizeVectors n =>
    let old := s.threads.length
    if old ≤ n then
      some { s.goto c x (.growFlag n old) with
        threads := resizeTo s.threads n, flags := resizeTo s.flags n }
    else some (s.goto c x (.shrinkFlag n (old - 1)))
  | .growFlag n i =>
    if i < n then
      if i < s.flags.length then
        some { s.goto c x (.growThread n i) with
          flags := s.flags.set i (some s.cells.length), cells := s.cells ++ [false] }
      else none
    else some (s.goto c x .idle)
  | .growThread n i =>
    -- `SetThread(i)`: the worker copies the pointer to its flag
    (s.flags[i]?.bind id).bind fun f =>
      if i < s.threads.length then
        some { s.goto c x (.growFlag n (i + 1)) with
          threads := s.threads.set i (some s.workers.length),
          workers := s.workers ++ [{ flag := f }] }
      else none
  | .shrinkFlag n i =>
    if n ≤ i then (s.goto c x (.shrinkDetach n i)).setFlag i
    else some (s.goto c x (.shrinkLock n))
  | .shrinkDetach n i =>
    (s.thread i).bind fun w => s.workers[w]?.bind fun y =>
      if y.joinable then
        some ((s.goto c x (.shrinkFlag n (sizeDec i))).setWorker w { y with joinable := false })
      else none
  | .shrinkLock n =>
    if s.mutex = none then
      some { s.goto c x (.shrinkNotify n) with mutex := some (.caller c) }
    else none
  | .shrinkNotify n => some (s.goto c x (.shrinkUnlock n)).notifyAll
  | .shrinkUnlock n => some { s.goto c x (.shrinkErase n) with mutex := none }
  | .shrinkErase n =>
    some { s.goto c x .idle with
      threads := resizeTo s.threads n, flags := resizeTo s.flags n }
  | _ => none

def stopStep (s : State) (kind : QueueKind) (c : Nat) (x : Caller) (choice : Nat) :
    CallerPc → Option State
  | .stopIfDone => some (s.goto c x (if s.isDone then .stopped else .stopIfStop true))
  | .stopIfStop wait => some (s.goto c x (if s.isStop then .stopped else .stopSet wait))
  | .stopSet true => some { s.goto c x .stopNotify with isDone := true }
  | .stopSet false => some { s.goto c x .stopSize with isStop := true }
  | .stopSize => some (s.goto c x (.stopFlag 0 s.threads.length))
  | .stopFlag i n =>
    if i < n then (s.goto c x (.stopFlag (i + 1) n)).setFlag i
    else some (s.goto c x .stopClear)
  | .stopClear => s.callerPop kind c x choice .stop .stopClear .stopNotify
  | .stopNotify => some (s.goto c x (.stopJoin 0)).notifyAll
  | .stopJoin i =>
    if i < s.threads.length then
      (s.thread i).bind fun w => s.workers[w]?.map fun y =>
        if y.joinable then { s.goto c x (.joining i w) with joins := w :: s.joins }
        else s.goto c x (.stopJoin (i + 1))
    else some (s.goto c x .stopDrain)
  | .joining i w =>
    s.workers[w]?.bind fun y =>
      if y.pc = .exited then
        some ((s.goto c x (.stopJoin (i + 1))).setWorker w { y with joinable := false })
      else none
  | .stopDrain => s.callerPop kind c x choice .stop .stopDrain .stopErase
  | .stopErase => some { s.goto c x .stopped with threads := [], flags := [] }
  | _ => none

def callerStep (s : State) (kind : QueueKind) (c : Nat) (x : Caller) (choice : Nat) :
    Option State :=
  match x.pc with
  | .idle | .stopped => none
  | .clearQueue => s.callerPop kind c x choice .clearQueue .clearQueue .idle
  | .pop => s.callerPop kind c x choice .pop .idle .idle
  | .resizeIfStop _ | .resizeIfDone _ | .resizeVectors _ | .growFlag _ _ | .growThread _ _
  | .shrinkFlag _ _ | .shrinkDetach _ _ | .shrinkLock _ | .shrinkNotify _ | .shrinkUnlock _
  | .shrinkErase _ => s.resizeStep c x x.pc
  | _ => s.stopStep kind c x choice x.pc

end State

/-- Where a call starts.  `Stop(false)` tests only `is_stop_`. -/
def Op.entry : Op → CallerPc
  | .resize n => .resizeIfStop n
  | .stop true => .stopIfDone
  | .stop false => .stopIfStop false
  | .clearQueue => .clearQueue
  | .pop => .pop

def step (kind : QueueKind) (s : State) : Act → Option State
  | .push priority =>
    some { s with pushes := s.pushes ++ [{ task := ⟨s.pushes.length, priority⟩ }] }
  | .pushStep p target => s.pushes[p]?.bind fun x => s.pushStep p x target
  | .worker w choice => s.workers[w]?.bind fun x => s.workerStep kind w x choice
  | .wake w => s.workers[w]?.bind fun x =>
      if x.pc = .parked then some (s.setWorker w { x with pc := .unparked }) else none
  | .call c op => s.callers[c]?.bind fun x =>
      if x.pc = .idle ∨ x.pc = .stopped then
        some (s.setCaller c { pc := op.entry, began := s.threads })
      else none
  | .caller c choice => s.callers[c]?.bind fun x => s.callerStep kind c x choice

/-- An empty pool and `n` threads that may call it. -/
def start (n : Nat) : State := { callers := List.replicate n {} }

/-- The constructor with `n_threads`, a call of `Resize` on the empty pool that nothing
interrupts. -/
def construct (nThreads : Nat) : List Act :=
  .call 0 (.resize nThreads) :: List.replicate (2 * nThreads + 4) (.caller 0 0)

def machine (kind : QueueKind) : Machine State Act where
  init s := ∃ n, s = start n
  step := step kind

end ThreadPool
end TryAndLearn
