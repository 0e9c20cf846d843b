import TryAndLearn.ThreadPool.Mutex

/-!
# No task is left behind while a worker sleeps

While a worker is parked, every task in the queue has somebody on the way to it: its
`Push` has not notified yet, or a worker was unparked and has not looked at the queue
since.  A worker that is about to park has seen an empty queue under the lock, so what
the queue holds at that moment belongs to calls of `Push` that wait for the lock
(`queue_le_pending`).  From there on each step moves both sides together.
-/

namespace TryAndLearn
namespace ThreadPool

def Worker.sleeps (x : Worker) : Nat := if x.pc = .parked then 1 else 0

/-- Unparked and before the `TryPop` of the predicate. -/
def Worker.rechecks (x : Worker) : Nat :=
  if x.pc = .unparked ∨ x.pc = .predPop true then 1 else 0

/-- Enqueued and before `notify_one`. -/
def Push.notifies (x : Push) : Nat := if x.pc = .enqueued ∨ x.pc = .locked then 1 else 0

namespace State

def sleeping (s : State) : Nat := tally Worker.sleeps s.workers

def rechecking (s : State) : Nat := tally Worker.rechecks s.workers

def notifying (s : State) : Nat := tally Push.notifies s.pushes

end State

/-! ## A parking worker leaves no task behind -/

section Queue

variable {kind : QueueKind} {ok : State → Act → Prop} {s : State}

theorem queue_le_enqueued (h : (machine kind).Reachable ok s) :
    (s.queue : Multiset Task) ≤ s.enqueued := by
  have hb : s.enqueued = s.queue + s.inHand + s.run + _ := (reachable_balanced h).submitted
  rw [hb, add_assoc, add_assoc]
  exact Multiset.le_add_right _ _

theorem queue_nodup (h : (machine kind).Reachable ok s) : s.queue.Nodup :=
  Multiset.coe_nodup.mp (Multiset.nodup_of_le (queue_le_enqueued h) (reachable_numbered h).nodup)

/-- A queued task is the task of the `Push` it is named after. -/
theorem push_of_mem_queue (h : (machine kind).Reachable ok s) {u : Task} (hu : u ∈ s.queue) :
    ∃ x, s.pushes[u.func]? = some x ∧ x.task = u ∧ x.pc ≠ .called := by
  have hmem : u ∈ s.enqueued := Multiset.mem_of_le (queue_le_enqueued h) hu
  rw [enqueued_eq_filter, Multiset.mem_coe] at hmem
  obtain ⟨x, hx, rfl⟩ := List.mem_map.mp hmem
  obtain ⟨hx, hpc⟩ := List.mem_filter.mp hx
  obtain ⟨p, hp⟩ := List.getElem?_of_mem hx
  exact ⟨x, reachable_numbered h p x hp ▸ hp, rfl, by simpa using hpc⟩

theorem notifying_eq_countP (s : State) :
    s.notifying = s.pushes.countP fun x => x.pc = .enqueued ∨ x.pc = .locked := by
  unfold State.notifying
  induction s.pushes with
  | nil => rfl
  | cons x rest ih =>
    rw [tally_cons, List.countP_cons, ih, Push.notifies, add_comm]
    simp

theorem queue_le_pending (h : (machine kind).Reachable ok s) {w : Nat} {x : Worker}
    (hw : s.workers[w]? = some x) (hsaw : x.pc.sawEmpty = true) :
    s.queue.length ≤ s.notifying := by
  have hsub : s.queue ⊆ (s.pushes.filter fun y => y.pc = .enqueued).map Push.task := by
    intro u hu
    obtain ⟨y, hy, hpc⟩ := reachable_seen h w x hw hsaw u hu
    obtain ⟨y', hy', htask, _⟩ := push_of_mem_queue h hu
    obtain rfl := Option.some.inj (hy.symm.trans hy')
    refine List.mem_map.mpr ⟨y, List.mem_filter.mpr ⟨List.mem_of_getElem? hy, ?_⟩, htask⟩
    simpa using hpc
  have hle := (List.subperm_of_subset (queue_nodup h) hsub).length_le
  rw [List.length_map, ← List.countP_eq_length_filter] at hle
  rw [notifying_eq_countP]
  refine hle.trans (List.countP_mono_left fun y _ hy => ?_)
  simp only [decide_eq_true_eq] at hy ⊢
  exact .inl hy

end Queue

/-! ## The step -/

/-- While a worker sleeps, the queue is no longer than what is on its way to it. -/
def Attended (s : State) : Prop := 0 < s.sleeping → s.queue.length ≤ s.notifying + s.rechecking

section Step

variable {kind : QueueKind} {s t : State} {a : Act}

theorem WorkerGoto.sleeps_eq {x : Worker} {pc : WorkerPc} (h : WorkerGoto s x pc) :
    Worker.sleeps { x with pc := pc } = x.sleeps ∧
      Worker.rechecks { x with pc := pc } = x.rechecks := by
  cases h with
  | init h | run h | quit h _ | stay h _ | seenDone h _ | notDone h _ | seenFlag h _
  | notFlag h _ => simp [Worker.sleeps, Worker.rechecks, h]

/-- A `TryPop` of a worker takes it off the list of those that recheck. -/
theorem WorkerPc.sleeps_of_pops {x y : Worker} {onTask onEmpty : WorkerPc}
    (h : x.pc.pops = some (onTask, onEmpty)) (hy : y.pc = onTask ∨ y.pc = onEmpty) :
    x.sleeps = 0 ∧ x.rechecks ≤ 1 ∧ y.sleeps = 0 ∧ y.rechecks = 0 := by
  have hx : x.rechecks ≤ 1 := by
    unfold Worker.rechecks
    split <;> omega
  cases hpc : x.pc <;> rw [hpc] at h <;>
    simp only [WorkerPc.pops, Option.some.injEq, Prod.mk.injEq, reduceCtorEq] at h <;>
    obtain ⟨rfl, rfl⟩ := h <;> rcases hy with hy | hy <;>
    exact ⟨by simp [Worker.sleeps, hpc], hx, by simp [Worker.sleeps, hy],
      by simp [Worker.rechecks, hy]⟩

theorem Attended.of_eq (hs : Attended s) (hq : t.queue.length ≤ s.queue.length)
    (hp : t.notifying = s.notifying) (hw : t.sleeping = s.sleeping)
    (hr : t.rechecking = s.rechecking) : Attended t := by
  unfold Attended at *
  omega

/-- A worker whose weights stay. -/
theorem Attended.setWorker {w : Nat} {x x' : Worker} (hs : Attended s)
    (h : s.workers[w]? = some x) (ht : t.workers = s.workers.set w x')
    (hp : t.pushes = s.pushes) (hq : t.queue = s.queue) (hw : x'.sleeps = x.sleeps)
    (hr : x'.rechecks = x.rechecks) : Attended t := by
  refine hs.of_eq (by rw [hq]) (by rw [State.notifying, hp]; rfl) ?_ ?_
  · rw [State.sleeping, ht]
    exact tally_set_of_eq h hw
  · rw [State.rechecking, ht]
    exact tally_set_of_eq h hr

theorem attended_notifyOne {p w : Nat} {x : Push} {y : Worker} (h : s.pushes[p]? = some x)
    (hpc : x.pc = .locked) (hw : s.workers[w]? = some y) (hparked : y.pc = .parked)
    (hs : Attended s) :
    Attended ((s.setPush p { x with pc := .notified }).setWorker w { y with pc := .unparked }) := by
  have h1 := tally_set h Push.notifies { x with pc := .notified }
  have h2 := tally_set hw Worker.sleeps { y with pc := .unparked }
  have h3 := tally_set hw Worker.rechecks { y with pc := .unparked }
  simp only [Push.notifies, hpc, Worker.sleeps, Worker.rechecks, hparked, reduceCtorEq, or_true,
    or_false, or_self, if_true, if_false] at h1 h2 h3
  simp only [Attended, State.sleeping, State.rechecking, State.notifying, State.setWorker,
    State.setPush] at *
  omega

/-- `notify_all` leaves no worker asleep. -/
theorem sleeping_notifyAll (s : State) : s.notifyAll.sleeping = 0 := by
  simp only [State.sleeping, State.notifyAll, tally_map]
  refine tally_eq_zero_iff.mpr fun x _ => ?_
  unfold Worker.unpark Worker.sleeps
  split <;> simp_all

theorem attended_step (hseen : ∀ (w : Nat) (x : Worker), s.workers[w]? = some x →
      x.pc.sawEmpty = true → s.queue.length ≤ s.notifying)
    (h : Moved kind s a t) (hs : Attended s) : Attended t := by
  cases h with
  | push =>
    refine hs.of_eq (by simp) ?_ rfl rfl
    simp [State.notifying, Push.notifies]
  | @enqueue p x _ h hpc =>
    have h1 := tally_set h Push.notifies { x with pc := .enqueued }
    simp only [Push.notifies, hpc, reduceCtorEq, true_or, or_self, if_true, if_false] at h1
    simp only [Attended, State.sleeping, State.rechecking, State.notifying, State.setPush,
      ThreadSafeQueue.push, List.length_append, List.length_singleton] at *
    omega
  | pushLock h hpc _ =>
    exact hs.of_eq le_rfl (tally_set_of_eq h (by simp [Push.notifies, hpc])) rfl rfl
  | pushReturn h hpc =>
    exact hs.of_eq le_rfl (tally_set_of_eq h (by simp [Push.notifies, hpc])) rfl rfl
  | notifyOne h hpc hw hparked => exact attended_notifyOne h hpc hw hparked hs
  | notifyNobody _ _ hnone =>
    intro hpos
    have hzero : s.sleeping = 0 :=
      tally_eq_zero_iff.mpr fun y hy => if_neg (hnone y hy)
    exact absurd hzero (by simpa [State.sleeping, State.setPush] using Nat.ne_of_gt hpos)
  | workerGoto h hgo =>
    exact hs.setWorker h rfl rfl rfl hgo.sleeps_eq.1 hgo.sleeps_eq.2
  | @take w x _ onTask onEmpty u queue h hpc hfront =>
    have hlen := (ThreadSafeQueue.perm_of_getFrontAndPop hfront).length_eq
    obtain ⟨h1, h2, h3, h4⟩ := WorkerPc.sleeps_of_pops
      (y := { x with pc := onTask, hand := some u }) hpc (.inl rfl)
    have h5 := tally_set h Worker.sleeps { x with pc := onTask, hand := some u }
    have h6 := tally_set h Worker.rechecks { x with pc := onTask, hand := some u }
    simp only [Attended, State.sleeping, State.rechecking, State.notifying, State.setWorker,
      List.length_cons] at *
    omega
  | takeNone _ _ hempty =>
    intro _
    simp [State.setWorker, hempty]
  | finish h hpc =>
    exact hs.setWorker h rfl rfl rfl (by simp [Worker.sleeps, hpc]) (by simp [Worker.rechecks, hpc])
  | lock h _ hpc =>
    rcases hpc with ⟨hpc, rfl, _⟩ | ⟨hpc, rfl, _⟩ <;>
      exact hs.setWorker h rfl rfl rfl (by simp [Worker.sleeps, hpc])
        (by simp [Worker.rechecks, hpc])
  | @unlock w x _ pc n h hpc =>
    rcases hpc with ⟨hpc, rfl, _⟩ | ⟨hpc, rfl, _⟩ | ⟨hpc, rfl, _⟩
    · -- the worker parks on a queue it has seen empty
      intro _
      have hle := hseen w x h (by rw [hpc]; rfl)
      simp only [State.workerUnlock, State.setWorker, State.notifying] at hle ⊢
      omega
    · exact hs.setWorker h rfl rfl rfl (by simp [Worker.sleeps, hpc])
        (by simp [Worker.rechecks, hpc])
    · exact hs.setWorker h rfl rfl rfl (by simp [Worker.sleeps, hpc])
        (by simp [Worker.rechecks, hpc])
  | @wake w x h hpc =>
    have h1 := tally_set h Worker.sleeps { x with pc := .unparked }
    have h2 := tally_set h Worker.rechecks { x with pc := .unparked }
    simp only [Worker.sleeps, Worker.rechecks, hpc, reduceCtorEq, or_self, true_or, if_true,
      if_false] at h1 h2
    simp only [Attended, State.sleeping, State.rechecking, State.notifying, State.setWorker] at *
    omega
  | remove _ _ hfront =>
    have hlen := (ThreadSafeQueue.perm_of_getFrontAndPop hfront).length_eq
    exact hs.of_eq (by rw [hlen]; simp) rfl rfl rfl
  | growThread _ _ _ _ =>
    refine hs.of_eq le_rfl rfl ?_ ?_
    · simp [State.sleeping, Worker.sleeps]
    · simp [State.rechecking, Worker.rechecks]
  | detach _ _ _ hw _ => exact hs.setWorker hw rfl rfl rfl rfl rfl
  | joined _ _ hw _ => exact hs.setWorker hw rfl rfl rfl rfl rfl
  | notifyAll _ _ =>
    intro hpos
    rw [sleeping_notifyAll] at hpos
    exact absurd hpos (by simp)
  | _ => exact hs

end Step

/-- No queued task is left behind while a worker sleeps, whatever the callers do. -/
theorem queue_attended (kind : QueueKind) {s : State}
    (h : (machine kind).Reachable Machine.anyStep s) (hpos : 0 < s.sleeping) :
    s.queue.length ≤ s.notifying + s.rechecking := by
  refine h.invariant (I := Attended) (fun s₀ h₀ => ?_) (fun hr _ hs hI => ?_) hpos
  · obtain ⟨n, rfl⟩ := h₀
    intro hpos
    simp [State.sleeping, start] at hpos
  · exact attended_step (fun _ _ => queue_le_pending hr) (moved_of_step hs) hI

/-- Two workers sleep.  Task 0 is in the queue and its `Push` has yet to notify, the
`Push` of task 1 has woken worker 0. -/
def dozing : State :=
  { queue := [⟨0, 2⟩, ⟨1, 4⟩], threads := [some 0, some 1, some 2],
    flags := [some 0, some 1, some 2], cells := [false, false, false], nWaiting := 3,
    workers := [{ flag := 0, pc := .unparked }, { flag := 1, pc := .parked },
      { flag := 2, pc := .parked }],
    pushes := [{ task := ⟨0, 2⟩, pc := .enqueued }, { task := ⟨1, 4⟩, pc := .returned }],
    callers := [{}] }

theorem dozing_reachable : (machine .priorityQueue).Reachable Machine.anyStep dozing :=
  Machine.reachable_of_exec
    (List.flatten [construct 3, List.replicate 7 (.worker 0 0), List.replicate 7 (.worker 1 0),
      List.replicate 7 (.worker 2 0), [.push 2, .pushStep 0 none, .push 4, .pushStep 1 none,
      .pushStep 1 none, .pushStep 1 (some 0), .pushStep 1 none]])
    ⟨1, rfl⟩ (by decide)

theorem queue_attended_dozing : dozing.queue.length ≤ dozing.notifying + dozing.rechecking :=
  queue_attended .priorityQueue dozing_reachable (by decide)

end ThreadPool
end TryAndLearn
