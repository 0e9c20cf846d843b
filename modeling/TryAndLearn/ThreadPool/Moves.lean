import TryAndLearn.Machine.Tally
import TryAndLearn.ThreadPool.Basic

/-!
# What a step of the pool can do

`Moved` lists the steps with their effect, one constructor for each effect on the
shared state.  A step that only changes the program counter of its thread is a
`goto`: `WorkerGoto` and `CallerGoto` say when.  Every invariant of the pool is
proved from `Moved`.
-/

namespace TryAndLearn
namespace ThreadPool

open ThreadSafeQueue (getFrontAndPop tryPop_cases)

/-- Where a `TryPop` of the worker leads, with a task and without one. -/
def WorkerPc.pops : WorkerPc → Option (WorkerPc × WorkerPc)
  | .firstPop | .nextPop => some (.run, .lock)
  | .predPop _ => some (.haveTask, .predDone)
  | _ => none

theorem WorkerPc.of_pops {pc onTask onEmpty : WorkerPc} (h : pc.pops = some (onTask, onEmpty)) :
    (onTask = .run ∨ onTask = .haveTask) ∧ (onEmpty = .lock ∨ onEmpty = .predDone) := by
  cases pc <;> simp only [WorkerPc.pops, Option.some.injEq, Prod.mk.injEq, reduceCtorEq] at h <;>
    obtain ⟨rfl, rfl⟩ := h <;> simp

/-- Where a `TryPop` of `ClearQueue` or `Pop` leads, and for whom it is made. -/
def CallerPc.removes : CallerPc → Option (Remover × CallerPc × CallerPc)
  | .clearQueue => some (.clearQueue, .clearQueue, .idle)
  | .pop => some (.pop, .idle, .idle)
  | .stopClear => some (.stop, .stopClear, .stopNotify)
  | .stopDrain => some (.stop, .stopDrain, .stopErase)
  | _ => none

inductive WorkerGoto (s : State) (x : Worker) : WorkerPc → Prop
  | init (h : x.pc = .init) : WorkerGoto s x .firstPop
  | run (h : x.pc = .run) : WorkerGoto s x .running
  | quit (h : x.pc = .testFlag) (hf : s.flag x.flag = true) : WorkerGoto s x .exited
  | stay (h : x.pc = .testFlag) (hf : s.flag x.flag = false) : WorkerGoto s x .nextPop
  | seenDone (h : x.pc = .predDone) (hd : s.isDone = true) : WorkerGoto s x .leave
  | notDone (h : x.pc = .predDone) (hd : s.isDone = false) : WorkerGoto s x .predFlag
  | seenFlag (h : x.pc = .predFlag) (hf : s.flag x.flag = true) : WorkerGoto s x .leave
  | notFlag (h : x.pc = .predFlag) (hf : s.flag x.flag = false) : WorkerGoto s x .park

inductive CallerGoto (s : State) (pc : CallerPc) : CallerPc → Prop
  | resizeStopped {n} (h : pc = .resizeIfStop n) (hs : s.isStop = true) : CallerGoto s pc .idle
  | resizeNotStopped {n} (h : pc = .resizeIfStop n) (hs : s.isStop = false) :
      CallerGoto s pc (.resizeIfDone n)
  | resizeDone {n} (h : pc = .resizeIfDone n) (hd : s.isDone = true) : CallerGoto s pc .idle
  | resizeNotDone {n} (h : pc = .resizeIfDone n) (hd : s.isDone = false) :
      CallerGoto s pc (.resizeVectors n)
  | shrink {n} (h : pc = .resizeVectors n) (hn : n < s.threads.length) :
      CallerGoto s pc (.shrinkFlag n (s.threads.length - 1))
  | grown {n i} (h : pc = .growFlag n i) (hn : n ≤ i) : CallerGoto s pc .idle
  | shrunk {n i} (h : pc = .shrinkFlag n i) (hn : i < n) : CallerGoto s pc (.shrinkLock n)
  | stopDone (h : pc = .stopIfDone) (hd : s.isDone = true) : CallerGoto s pc .stopped
  | stopNotDone (h : pc = .stopIfDone) (hd : s.isDone = false) :
      CallerGoto s pc (.stopIfStop true)
  | stopStopped {wait} (h : pc = .stopIfStop wait) (hs : s.isStop = true) :
      CallerGoto s pc .stopped
  | stopNotStopped {wait} (h : pc = .stopIfStop wait) (hs : s.isStop = false) :
      CallerGoto s pc (.stopSet wait)
  | stopSize (h : pc = .stopSize) : CallerGoto s pc (.stopFlag 0 s.threads.length)
  | flagged {i n} (h : pc = .stopFlag i n) (hn : n ≤ i) : CallerGoto s pc .stopClear
  | joinSkip {i w y} (h : pc = .stopJoin i) (ht : s.threads[i]? = some (some w))
      (hw : s.workers[w]? = some y) (hj : y.joinable = false) : CallerGoto s pc (.stopJoin (i + 1))
  | joinedAll {i} (h : pc = .stopJoin i) (hn : s.threads.length ≤ i) : CallerGoto s pc .stopDrain

inductive Moved (kind : QueueKind) (s : State) : Act → State → Prop
  | push {priority} :
      Moved kind s (.push priority)
        { s with pushes := s.pushes ++ [{ task := ⟨s.pushes.length, priority⟩ }] }
  | enqueue {p x target} (h : s.pushes[p]? = some x) (hpc : x.pc = .called) :
      Moved kind s (.pushStep p target)
        { s.setPush p { x with pc := .enqueued } with
          queue := ThreadSafeQueue.push s.queue x.task }
  | pushLock {p x target} (h : s.pushes[p]? = some x) (hpc : x.pc = .enqueued)
      (hfree : s.mutex = none) :
      Moved kind s (.pushStep p target)
        { s.setPush p { x with pc := .locked } with mutex := some (.push p) }
  | notifyOne {p x w y} (h : s.pushes[p]? = some x) (hpc : x.pc = .locked)
      (hw : s.workers[w]? = some y) (hparked : y.pc = .parked) :
      Moved kind s (.pushStep p (some w))
        ((s.setPush p { x with pc := .notified }).setWorker w { y with pc := .unparked })
  | notifyNobody {p x} (h : s.pushes[p]? = some x) (hpc : x.pc = .locked)
      (hnone : ∀ y ∈ s.workers, y.pc ≠ .parked) :
      Moved kind s (.pushStep p none) (s.setPush p { x with pc := .notified })
  | pushReturn {p x target} (h : s.pushes[p]? = some x) (hpc : x.pc = .notified) :
      Moved kind s (.pushStep p target)
        { s.setPush p { x with pc := .returned } with mutex := none }
  | workerGoto {w x pc choice} (h : s.workers[w]? = some x) (hgo : WorkerGoto s x pc) :
      Moved kind s (.worker w choice) (s.setWorker w { x with pc := pc })
  | take {w x choice onTask onEmpty t queue} (h : s.workers[w]? = some x)
      (hpc : x.pc.pops = some (onTask, onEmpty))
      (hpop : getFrontAndPop kind choice s.queue = some (t, queue)) :
      Moved kind s (.worker w choice)
        { s.setWorker w { x with pc := onTask, hand := some t } with
          queue := queue, taken := (w, t) :: s.taken }
  | takeNone {w x choice onTask onEmpty} (h : s.workers[w]? = some x)
      (hpc : x.pc.pops = some (onTask, onEmpty)) (hempty : s.queue = []) :
      Moved kind s (.worker w choice) (s.setWorker w { x with pc := onEmpty })
  | finish {w x choice} (h : s.workers[w]? = some x) (hpc : x.pc = .running) :
      Moved kind s (.worker w choice)
        { s.setWorker w { x with pc := .testFlag, hand := none } with
          finished := x.hand.toList.map (fun t => (w, t)) ++ s.finished }
  | lock {w x choice pc n} (h : s.workers[w]? = some x) (hfree : s.mutex = none)
      (hpc : (x.pc = .lock ∧ pc = .predPop false ∧ n = 1) ∨
        (x.pc = .unparked ∧ pc = .predPop true ∧ n = 0)) :
      Moved kind s (.worker w choice)
        { s.setWorker w { x with pc := pc } with
          mutex := some (.worker w), nWaiting := s.nWaiting + n }
  | unlock {w x choice pc n} (h : s.workers[w]? = some x)
      (hpc : (x.pc = .park ∧ pc = .parked ∧ n = 0) ∨ (x.pc = .haveTask ∧ pc = .run ∧ n = -1) ∨
        (x.pc = .leave ∧ pc = .exited ∧ n = -1)) :
      Moved kind s (.worker w choice) (s.workerUnlock w x pc n)
  | wake {w x} (h : s.workers[w]? = some x) (hpc : x.pc = .parked) :
      Moved kind s (.wake w) (s.setWorker w { x with pc := .unparked })
  | call {c x op} (h : s.callers[c]? = some x) (hpc : x.pc = .idle ∨ x.pc = .stopped) :
      Moved kind s (.call c op) (s.setCaller c { pc := op.entry, began := s.threads })
  | callerGoto {c x pc choice} (h : s.callers[c]? = some x) (hgo : CallerGoto s x.pc pc) :
      Moved kind s (.caller c choice) (s.goto c x pc)
  | remove {c x choice who onTask onEmpty t queue} (h : s.callers[c]? = some x)
      (hpc : x.pc.removes = some (who, onTask, onEmpty))
      (hpop : getFrontAndPop kind choice s.queue = some (t, queue)) :
      Moved kind s (.caller c choice)
        { s.goto c x onTask with queue := queue, removed := (who, t) :: s.removed }
  | removeNone {c x choice who onTask onEmpty} (h : s.callers[c]? = some x)
      (hpc : x.pc.removes = some (who, onTask, onEmpty)) (hempty : s.queue = []) :
      Moved kind s (.caller c choice) (s.goto c x onEmpty)
  | grow {c x choice n} (h : s.callers[c]? = some x) (hpc : x.pc = .resizeVectors n)
      (hn : s.threads.length ≤ n) :
      Moved kind s (.caller c choice)
        { s.goto c x (.growFlag n s.threads.length) with
          threads := resizeTo s.threads n, flags := resizeTo s.flags n }
  | growFlag {c x choice n i} (h : s.callers[c]? = some x) (hpc : x.pc = .growFlag n i)
      (hn : i < n) (hi : i < s.flags.length) :
      Moved kind s (.caller c choice)
        { s.goto c x (.growThread n i) with
          flags := s.flags.set i (some s.cells.length), cells := s.cells ++ [false] }
  | growThread {c x choice n i f} (h : s.callers[c]? = some x) (hpc : x.pc = .growThread n i)
      (hf : s.flags[i]? = some (some f)) (hi : i < s.threads.length) :
      Moved kind s (.caller c choice)
        { s.goto c x (.growFlag n (i + 1)) with
          threads := s.threads.set i (some s.workers.length),
          workers := s.workers ++ [{ flag := f }] }
  | setFlag {c x choice i f pc} (h : s.callers[c]? = some x)
      (hpc : (∃ n, x.pc = .shrinkFlag n i ∧ n ≤ i ∧ pc = .shrinkDetach n i) ∨
        ∃ n, x.pc = .stopFlag i n ∧ i < n ∧ pc = .stopFlag (i + 1) n)
      (hf : s.flags[i]? = some (some f)) :
      Moved kind s (.caller c choice) { s.goto c x pc with cells := s.cells.set f true }
  | detach {c x choice n i w y} (h : s.callers[c]? = some x) (hpc : x.pc = .shrinkDetach n i)
      (ht : s.threads[i]? = some (some w)) (hw : s.workers[w]? = some y)
      (hj : y.joinable = true) :
      Moved kind s (.caller c choice)
        ((s.goto c x (.shrinkFlag n (sizeDec i))).setWorker w { y with joinable := false })
  | shrinkLock {c x choice n} (h : s.callers[c]? = some x) (hpc : x.pc = .shrinkLock n)
      (hfree : s.mutex = none) :
      Moved kind s (.caller c choice)
        { s.goto c x (.shrinkNotify n) with mutex := some (.caller c) }
  | notifyAll {c x choice pc} (h : s.callers[c]? = some x)
      (hpc : (∃ n, x.pc = .shrinkNotify n ∧ pc = .shrinkUnlock n) ∨
        (x.pc = .stopNotify ∧ pc = .stopJoin 0)) :
      Moved kind s (.caller c choice) (s.goto c x pc).notifyAll
  | shrinkUnlock {c x choice n} (h : s.callers[c]? = some x) (hpc : x.pc = .shrinkUnlock n) :
      Moved kind s (.caller c choice) { s.goto c x (.shrinkErase n) with mutex := none }
  | shrinkErase {c x choice n} (h : s.callers[c]? = some x) (hpc : x.pc = .shrinkErase n) :
      Moved kind s (.caller c choice)
        { s.goto c x .idle with threads := resizeTo s.threads n, flags := resizeTo s.flags n }
  | setDone {c x choice} (h : s.callers[c]? = some x) (hpc : x.pc = .stopSet true) :
      Moved kind s (.caller c choice) { s.goto c x .stopNotify with isDone := true }
  | setStop {c x choice} (h : s.callers[c]? = some x) (hpc : x.pc = .stopSet false) :
      Moved kind s (.caller c choice) { s.goto c x .stopSize with isStop := true }
  | join {c x choice i w y} (h : s.callers[c]? = some x) (hpc : x.pc = .stopJoin i)
      (ht : s.threads[i]? = some (some w)) (hw : s.workers[w]? = some y)
      (hj : y.joinable = true) :
      Moved kind s (.caller c choice) { s.goto c x (.joining i w) with joins := w :: s.joins }
  | joined {c x choice i w y} (h : s.callers[c]? = some x) (hpc : x.pc = .joining i w)
      (hw : s.workers[w]? = some y) (hexit : y.pc = .exited) :
      Moved kind s (.caller c choice)
        ((s.goto c x (.stopJoin (i + 1))).setWorker w { y with joinable := false })
  | stopErase {c x choice} (h : s.callers[c]? = some x) (hpc : x.pc = .stopErase) :
      Moved kind s (.caller c choice) { s.goto c x .stopped with threads := [], flags := [] }

section Inversion

variable {kind : QueueKind} {s t : State} {choice : Nat}

theorem moved_of_workerPop {w : Nat} {x : Worker} {onTask onEmpty : WorkerPc}
    (h : s.workers[w]? = some x) (hpc : x.pc.pops = some (onTask, onEmpty))
    (hs : s.workerPop kind w x choice onTask onEmpty = some t) :
    Moved kind s (.worker w choice) t := by
  obtain ⟨⟨r, queue⟩, hpop, rfl⟩ := Option.map_eq_some_iff.mp hs
  rcases tryPop_cases hpop with ⟨hempty, rfl, rfl⟩ | ⟨u, rfl, hfront⟩
  · simp only [← hempty]
    exact .takeNone h hpc hempty
  · exact .take h hpc hfront

theorem moved_of_workerLock {w : Nat} {x : Worker} {pc : WorkerPc} {n : Int}
    (h : s.workers[w]? = some x)
    (hpc : (x.pc = .lock ∧ pc = .predPop false ∧ n = 1) ∨
      (x.pc = .unparked ∧ pc = .predPop true ∧ n = 0))
    (hs : s.workerLock w x pc n = some t) : Moved kind s (.worker w choice) t := by
  obtain ⟨hfree, hs⟩ := Option.ite_none_right_eq_some.mp hs
  obtain rfl := Option.some.inj hs
  exact .lock h hfree hpc

theorem moved_of_workerStep {w : Nat} {x : Worker} (h : s.workers[w]? = some x)
    (hs : s.workerStep kind w x choice = some t) : Moved kind s (.worker w choice) t := by
  unfold State.workerStep at hs
  split at hs <;> rename_i hpc
  case h_1 =>
    obtain rfl := Option.some.inj hs
    exact .workerGoto h (.init hpc)
  case h_2 => exact moved_of_workerPop h (by rw [hpc]; rfl) hs
  case h_3 =>
    obtain rfl := Option.some.inj hs
    exact .workerGoto h (.run hpc)
  case h_4 =>
    obtain rfl := Option.some.inj hs
    exact .finish h hpc
  case h_5 =>
    obtain rfl := Option.some.inj hs
    split
    · rename_i hf
      exact .workerGoto h (.quit hpc hf)
    · rename_i hf
      exact .workerGoto h (.stay hpc (Bool.eq_false_iff.mpr hf))
  case h_6 => exact moved_of_workerPop h (by rw [hpc]; rfl) hs
  case h_7 => exact moved_of_workerLock h (.inl ⟨hpc, rfl, rfl⟩) hs
  case h_8 => exact moved_of_workerPop h (by rw [hpc]; rfl) hs
  case h_9 =>
    obtain rfl := Option.some.inj hs
    split
    · rename_i hd
      exact .workerGoto h (.seenDone hpc hd)
    · rename_i hd
      exact .workerGoto h (.notDone hpc (Bool.eq_false_iff.mpr hd))
  case h_10 =>
    obtain rfl := Option.some.inj hs
    split
    · rename_i hf
      exact .workerGoto h (.seenFlag hpc hf)
    · rename_i hf
      exact .workerGoto h (.notFlag hpc (Bool.eq_false_iff.mpr hf))
  case h_11 =>
    obtain rfl := Option.some.inj hs
    exact .unlock h (.inl ⟨hpc, rfl, rfl⟩)
  case h_12 => exact absurd hs (by simp)
  case h_13 => exact moved_of_workerLock h (.inr ⟨hpc, rfl, rfl⟩) hs
  case h_14 =>
    obtain rfl := Option.some.inj hs
    exact .unlock h (.inr (.inl ⟨hpc, rfl, rfl⟩))
  case h_15 =>
    obtain rfl := Option.some.inj hs
    exact .unlock h (.inr (.inr ⟨hpc, rfl, rfl⟩))
  case h_16 => exact absurd hs (by simp)

theorem moved_of_pushStep {p : Nat} {x : Push} {target : Option Nat}
    (h : s.pushes[p]? = some x) (hs : s.pushStep p x target = some t) :
    Moved kind s (.pushStep p target) t := by
  unfold State.pushStep at hs
  split at hs <;> rename_i hpc
  case h_1 =>
    obtain rfl := Option.some.inj hs
    exact .enqueue h hpc
  case h_2 =>
    obtain ⟨hfree, hs⟩ := Option.ite_none_right_eq_some.mp hs
    obtain rfl := Option.some.inj hs
    exact .pushLock h hpc hfree
  case h_3 =>
    cases target with
    | some w =>
      obtain ⟨y, hy, hs⟩ := Option.bind_eq_some_iff.mp hs
      obtain ⟨hparked, hs⟩ := Option.ite_none_right_eq_some.mp hs
      obtain rfl := Option.some.inj hs
      exact .notifyOne h hpc hy hparked
    | none =>
      obtain ⟨hnone, hs⟩ := Option.ite_none_right_eq_some.mp hs
      obtain rfl := Option.some.inj hs
      exact .notifyNobody h hpc hnone
  case h_4 =>
    obtain rfl := Option.some.inj hs
    exact .pushReturn h hpc
  case h_5 => exact absurd hs (by simp)

variable {c : Nat} {x : Caller}

theorem moved_of_callerPop {who : Remover} {onTask onEmpty : CallerPc}
    (h : s.callers[c]? = some x) (hpc : x.pc.removes = some (who, onTask, onEmpty))
    (hs : s.callerPop kind c x choice who onTask onEmpty = some t) :
    Moved kind s (.caller c choice) t := by
  obtain ⟨⟨r, queue⟩, hpop, rfl⟩ := Option.map_eq_some_iff.mp hs
  rcases tryPop_cases hpop with ⟨hempty, rfl, rfl⟩ | ⟨u, rfl, hfront⟩
  · simp only [← hempty]
    exact .removeNone h hpc hempty
  · exact .remove h hpc hfront

theorem setFlag_eq_some {i : Nat} (hs : s.setFlag i = some t) :
    ∃ f, s.flags[i]? = some (some f) ∧ t = { s with cells := s.cells.set f true } := by
  obtain ⟨entry, hentry, hs⟩ := Option.bind_eq_some_iff.mp hs
  obtain ⟨f, rfl, rfl⟩ := Option.map_eq_some_iff.mp hs
  exact ⟨f, hentry, rfl⟩

theorem thread_eq_some {i w : Nat} (h : s.thread i = some w) : s.threads[i]? = some (some w) := by
  obtain ⟨entry, hentry, rfl⟩ := Option.bind_eq_some_iff.mp h
  exact hentry

theorem moved_of_resizeStep (h : s.callers[c]? = some x) (hs : s.resizeStep c x x.pc = some t) :
    Moved kind s (.caller c choice) t := by
  unfold State.resizeStep at hs
  split at hs <;> rename_i hpc
  case h_1 n =>
    obtain rfl := Option.some.inj hs
    split
    · rename_i hstop
      exact .callerGoto h (.resizeStopped hpc hstop)
    · rename_i hstop
      exact .callerGoto h (.resizeNotStopped hpc (Bool.eq_false_iff.mpr hstop))
  case h_2 n =>
    obtain rfl := Option.some.inj hs
    split
    · rename_i hdone
      exact .callerGoto h (.resizeDone hpc hdone)
    · rename_i hdone
      exact .callerGoto h (.resizeNotDone hpc (Bool.eq_false_iff.mpr hdone))
  case h_3 n =>
    dsimp only at hs
    split at hs <;> rename_i hn <;> obtain rfl := Option.some.inj hs
    · exact .grow h hpc hn
    · exact .callerGoto h (.shrink hpc (by omega))
  case h_4 n i =>
    split at hs <;> rename_i hn
    · obtain ⟨hi, hs⟩ := Option.ite_none_right_eq_some.mp hs
      obtain rfl := Option.some.inj hs
      exact .growFlag h hpc hn hi
    · obtain rfl := Option.some.inj hs
      exact .callerGoto h (.grown hpc (by omega))
  case h_5 n i =>
    obtain ⟨f, hf, hs⟩ := Option.bind_eq_some_iff.mp hs
    obtain ⟨entry, hentry, rfl⟩ := Option.bind_eq_some_iff.mp hf
    obtain ⟨hi, hs⟩ := Option.ite_none_right_eq_some.mp hs
    obtain rfl := Option.some.inj hs
    exact .growThread h hpc hentry hi
  case h_6 n i =>
    split at hs <;> rename_i hn
    · obtain ⟨f, hf, rfl⟩ := setFlag_eq_some hs
      exact .setFlag h (.inl ⟨n, hpc, hn, rfl⟩) hf
    · obtain rfl := Option.some.inj hs
      exact .callerGoto h (.shrunk hpc (by omega))
  case h_7 n i =>
    obtain ⟨w, hw, hs⟩ := Option.bind_eq_some_iff.mp hs
    obtain ⟨y, hy, hs⟩ := Option.bind_eq_some_iff.mp hs
    obtain ⟨hj, hs⟩ := Option.ite_none_right_eq_some.mp hs
    obtain rfl := Option.some.inj hs
    exact .detach h hpc (thread_eq_some hw) hy hj
  case h_8 n =>
    obtain ⟨hfree, hs⟩ := Option.ite_none_right_eq_some.mp hs
    obtain rfl := Option.some.inj hs
    exact .shrinkLock h hpc hfree
  case h_9 n =>
    obtain rfl := Option.some.inj hs
    exact .notifyAll h (.inl ⟨n, hpc, rfl⟩)
  case h_10 n =>
    obtain rfl := Option.some.inj hs
    exact .shrinkUnlock h hpc
  case h_11 n =>
    obtain rfl := Option.some.inj hs
    exact .shrinkErase h hpc
  case h_12 => exact absurd hs (by simp)

theorem moved_of_stopStep (h : s.callers[c]? = some x)
    (hs : s.stopStep kind c x choice x.pc = some t) : Moved kind s (.caller c choice) t := by
  unfold State.stopStep at hs
  split at hs <;> rename_i hpc
  case h_1 =>
    obtain rfl := Option.some.inj hs
    split
    · rename_i hdone
      exact .callerGoto h (.stopDone hpc hdone)
    · rename_i hdone
      exact .callerGoto h (.stopNotDone hpc (Bool.eq_false_iff.mpr hdone))
  case h_2 wait =>
    obtain rfl := Option.some.inj hs
    split
    · rename_i hstop
      exact .callerGoto h (.stopStopped hpc hstop)
    · rename_i hstop
      exact .callerGoto h (.stopNotStopped hpc (Bool.eq_false_iff.mpr hstop))
  case h_3 =>
    obtain rfl := Option.some.inj hs
    exact .setDone h hpc
  case h_4 =>
    obtain rfl := Option.some.inj hs
    exact .setStop h hpc
  case h_5 =>
    obtain rfl := Option.some.inj hs
    exact .callerGoto h (.stopSize hpc)
  case h_6 i n =>
    split at hs <;> rename_i hn
    · obtain ⟨f, hf, rfl⟩ := setFlag_eq_some hs
      exact .setFlag h (.inr ⟨n, hpc, hn, rfl⟩) hf
    · obtain rfl := Option.some.inj hs
      exact .callerGoto h (.flagged hpc (by omega))
  case h_7 => exact moved_of_callerPop h (by rw [hpc]; rfl) hs
  case h_8 =>
    obtain rfl := Option.some.inj hs
    exact .notifyAll h (.inr ⟨hpc, rfl⟩)
  case h_9 i =>
    split at hs <;> rename_i hn
    · obtain ⟨w, hw, hs⟩ := Option.bind_eq_some_iff.mp hs
      obtain ⟨y, hy, hs⟩ := Option.map_eq_some_iff.mp hs
      split at hs <;> rename_i hj <;> subst hs
      · exact .join h hpc (thread_eq_some hw) hy hj
      · exact .callerGoto h (.joinSkip hpc (thread_eq_some hw) hy (Bool.eq_false_iff.mpr hj))
    · obtain rfl := Option.some.inj hs
      exact .callerGoto h (.joinedAll hpc (by omega))
  case h_10 i w =>
    obtain ⟨y, hy, hs⟩ := Option.bind_eq_some_iff.mp hs
    obtain ⟨hexit, hs⟩ := Option.ite_none_right_eq_some.mp hs
    obtain rfl := Option.some.inj hs
    exact .joined h hpc hy hexit
  case h_11 => exact moved_of_callerPop h (by rw [hpc]; rfl) hs
  case h_12 =>
    obtain rfl := Option.some.inj hs
    exact .stopErase h hpc
  case h_13 => exact absurd hs (by simp)

theorem moved_of_callerStep (h : s.callers[c]? = some x)
    (hs : s.callerStep kind c x choice = some t) : Moved kind s (.caller c choice) t := by
  unfold State.callerStep at hs
  split at hs
  case h_1 | h_2 => exact absurd hs (by simp)
  case h_3 hpc => exact moved_of_callerPop h (by rw [hpc]; rfl) hs
  case h_4 hpc => exact moved_of_callerPop h (by rw [hpc]; rfl) hs
  case h_16 => exact moved_of_stopStep h hs
  all_goals exact moved_of_resizeStep h hs

theorem moved_of_step {a : Act} (hs : step kind s a = some t) : Moved kind s a t := by
  cases a with
  | push priority =>
    obtain rfl := Option.some.inj hs
    exact .push
  | pushStep p target =>
    obtain ⟨x, hx, hs⟩ := Option.bind_eq_some_iff.mp hs
    exact moved_of_pushStep hx hs
  | worker w choice =>
    obtain ⟨x, hx, hs⟩ := Option.bind_eq_some_iff.mp hs
    exact moved_of_workerStep hx hs
  | wake w =>
    obtain ⟨x, hx, hs⟩ := Option.bind_eq_some_iff.mp hs
    obtain ⟨hpc, hs⟩ := Option.ite_none_right_eq_some.mp hs
    obtain rfl := Option.some.inj hs
    exact .wake hx hpc
  | call c op =>
    obtain ⟨x, hx, hs⟩ := Option.bind_eq_some_iff.mp hs
    obtain ⟨hpc, hs⟩ := Option.ite_none_right_eq_some.mp hs
    obtain rfl := Option.some.inj hs
    exact .call hx hpc
  | caller c choice =>
    obtain ⟨x, hx, hs⟩ := Option.bind_eq_some_iff.mp hs
    exact moved_of_callerStep hx hs

end Inversion

/-! ## One thread of a step -/

/-- What a step does to one worker. -/
inductive WorkerStep (s : State) (x : Worker) : Worker → Prop
  | same : WorkerStep s x x
  | goto {pc} (h : WorkerGoto s x pc) : WorkerStep s x { x with pc := pc }
  | take {onTask onEmpty t} (h : x.pc.pops = some (onTask, onEmpty)) :
      WorkerStep s x { x with pc := onTask, hand := some t }
  | takeNone {onTask onEmpty} (h : x.pc.pops = some (onTask, onEmpty)) (hempty : s.queue = []) :
      WorkerStep s x { x with pc := onEmpty }
  | finish (h : x.pc = .running) : WorkerStep s x { x with pc := .testFlag, hand := none }
  | lock (h : x.pc = .lock) : WorkerStep s x { x with pc := .predPop false }
  | relock (h : x.pc = .unparked) : WorkerStep s x { x with pc := .predPop true }
  | park (h : x.pc = .park) : WorkerStep s x { x with pc := .parked }
  | unpark (h : x.pc = .parked) : WorkerStep s x { x with pc := .unparked }
  | start (h : x.pc = .haveTask) : WorkerStep s x { x with pc := .run }
  | exit (h : x.pc = .leave) : WorkerStep s x { x with pc := .exited }
  | release : WorkerStep s x { x with joinable := false }

section Threads

variable {kind : QueueKind} {s t : State} {a : Act} {w : Nat} {x y : Worker}

theorem workerStep_unpark (s : State) (x : Worker) : WorkerStep s x x.unpark := by
  unfold Worker.unpark
  split
  · rename_i h
    exact .unpark h
  · exact .same

/-- The worker at an index was there before or has just been started. -/
theorem Moved.worker_prev (h : Moved kind s a t) (hw : t.workers[w]? = some y) :
    (∃ x, s.workers[w]? = some x ∧ WorkerStep s x y) ∨
      (w = s.workers.length ∧ ∃ f, y = { flag := f }) := by
  have hset {v : Nat} {x x' : Worker} (hx : s.workers[v]? = some x) (hstep : WorkerStep s x x')
      (hw : (s.workers.set v x')[w]? = some y) :
      (∃ x, s.workers[w]? = some x ∧ WorkerStep s x y) ∨
        (w = s.workers.length ∧ ∃ f, y = { flag := f }) := by
    rcases getElem?_set_cases hw with ⟨rfl, rfl⟩ | ⟨_, hy⟩
    · exact .inl ⟨x, hx, hstep⟩
    · exact .inl ⟨y, hy, .same⟩
  cases h with
  | notifyOne _ _ hv hparked => exact hset hv (.unpark hparked) hw
  | workerGoto hv hgo => exact hset hv (.goto hgo) hw
  | take hv hpc _ => exact hset hv (.take hpc) hw
  | takeNone hv hpc hempty => exact hset hv (.takeNone hpc hempty) hw
  | finish hv hpc => exact hset hv (.finish hpc) hw
  | lock hv _ hpc =>
    rcases hpc with ⟨hpc, rfl, _⟩ | ⟨hpc, rfl, _⟩
    · exact hset hv (.lock hpc) hw
    · exact hset hv (.relock hpc) hw
  | unlock hv hpc =>
    rcases hpc with ⟨hpc, rfl, _⟩ | ⟨hpc, rfl, _⟩ | ⟨hpc, rfl, _⟩
    · exact hset hv (.park hpc) hw
    · exact hset hv (.start hpc) hw
    · exact hset hv (.exit hpc) hw
  | wake hv hpc => exact hset hv (.unpark hpc) hw
  | detach _ _ _ hv _ => exact hset hv .release hw
  | joined _ _ hv _ => exact hset hv .release hw
  | notifyAll _ _ =>
    obtain ⟨x, hx, rfl⟩ : ∃ x, s.workers[w]? = some x ∧ x.unpark = y := by
      simpa [State.notifyAll, State.goto, State.setCaller] using hw
    exact .inl ⟨x, hx, workerStep_unpark s x⟩
  | growThread _ _ _ _ =>
    rcases getElem?_append_cases hw with ⟨rfl, rfl⟩ | hy
    · exact .inr ⟨rfl, _, rfl⟩
    · exact .inl ⟨y, hy, .same⟩
  | _ => exact .inl ⟨y, hw, .same⟩

theorem Moved.workers_length_le (h : Moved kind s a t) :
    s.workers.length ≤ t.workers.length := by
  cases h with
  | growThread _ _ _ _ => simp
  | _ =>
    simp [State.setWorker, State.setPush, State.setCaller, State.goto, State.workerUnlock,
      State.notifyAll]

/-- A worker stays in the table. -/
theorem Moved.worker_next (h : Moved kind s a t) (hw : s.workers[w]? = some x) :
    ∃ y, t.workers[w]? = some y ∧ WorkerStep s x y := by
  have hlt := (List.getElem?_eq_some_iff.mp hw).1
  have hle := h.workers_length_le
  obtain ⟨y, hy⟩ : ∃ y, t.workers[w]? = some y := ⟨_, List.getElem?_eq_getElem (by omega)⟩
  rcases h.worker_prev hy with ⟨x', hx', hstep⟩ | ⟨rfl, _⟩
  · obtain rfl := Option.some.inj (hw.symm.trans hx')
    exact ⟨y, hy, hstep⟩
  · omega

/-- What a step does to one call of `Push`. -/
inductive PushStep (s : State) (x : Push) : Push → Prop
  | same : PushStep s x x
  | enqueue (h : x.pc = .called) : PushStep s x { x with pc := .enqueued }
  | lock (h : x.pc = .enqueued) (hfree : s.mutex = none) : PushStep s x { x with pc := .locked }
  | notify (h : x.pc = .locked) : PushStep s x { x with pc := .notified }
  | ret (h : x.pc = .notified) : PushStep s x { x with pc := .returned }

theorem PushStep.task_eq {x y : Push} (h : PushStep s x y) : y.task = x.task := by
  cases h <;> rfl

theorem Moved.push_next {p : Nat} {x : Push} (h : Moved kind s a t) (hp : s.pushes[p]? = some x) :
    ∃ y, t.pushes[p]? = some y ∧ PushStep s x y := by
  have hset {q : Nat} {z z' : Push} (hz : s.pushes[q]? = some z) (hstep : PushStep s z z') :
      ∃ y, (s.pushes.set q z')[p]? = some y ∧ PushStep s x y := by
    by_cases hpq : p = q
    · subst hpq
      obtain rfl := Option.some.inj (hp.symm.trans hz)
      exact ⟨z', getElem?_set_of_some hz z', hstep⟩
    · exact ⟨x, by rwa [List.getElem?_set_ne (Ne.symm hpq)], .same⟩
  cases h with
  | push =>
    have hlt := (List.getElem?_eq_some_iff.mp hp).1
    exact ⟨x, by rwa [List.getElem?_append_left hlt], .same⟩
  | enqueue hq hpc => exact hset hq (.enqueue hpc)
  | pushLock hq hpc hfree => exact hset hq (.lock hpc hfree)
  | notifyOne hq hpc _ _ => exact hset hq (.notify hpc)
  | notifyNobody hq hpc _ => exact hset hq (.notify hpc)
  | pushReturn hq hpc => exact hset hq (.ret hpc)
  | _ => exact ⟨x, hp, .same⟩

/-- The call of `Push` at an index was there before or has just begun. -/
theorem Moved.push_prev {p : Nat} {y : Push} (h : Moved kind s a t)
    (hp : t.pushes[p]? = some y) :
    (∃ x, s.pushes[p]? = some x ∧ PushStep s x y) ∨
      (p = s.pushes.length ∧ ∃ n, y = { task := ⟨s.pushes.length, n⟩ }) := by
  cases hx : s.pushes[p]? with
  | some x =>
    obtain ⟨y', hy', hstep⟩ := h.push_next hx
    obtain rfl := Option.some.inj (hp.symm.trans hy')
    exact .inl ⟨x, rfl, hstep⟩
  | none =>
    have hge := List.getElem?_eq_none_iff.mp hx
    have hlt := (List.getElem?_eq_some_iff.mp hp).1
    cases h with
    | push =>
      rcases getElem?_append_cases hp with ⟨rfl, rfl⟩ | hp'
      · exact .inr ⟨rfl, _, rfl⟩
      · exact absurd (hx.symm.trans hp') (by simp)
    | enqueue | pushLock | notifyOne | notifyNobody | pushReturn =>
      simp only [State.setPush, State.setWorker, List.length_set] at hlt
      omega
    | _ => exact absurd (hx.symm.trans hp) (by simp)

end Threads

end ThreadPool
end TryAndLearn
