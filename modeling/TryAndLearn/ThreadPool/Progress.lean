import TryAndLearn.Machine.Inevitable
import TryAndLearn.ThreadPool.Drain
import TryAndLearn.ThreadPool.ResizeStages
import TryAndLearn.ThreadPool.Sleepers
import TryAndLearn.ThreadPool.Teardown
import TryAndLearn.ThreadPool.Unlock

/-!
# The pool comes to rest

When nobody calls the pool any more, the calls that are under way return, every task in
the queue is run or removed, and the workers come to wait, whatever the scheduler does
and without a spurious wake-up.  A notification reaches one worker only, and that may be
one a `Resize` has told to leave: it takes one task and goes.  What keeps the others from
sleeping over the rest is `Attended`.

A call takes a bounded number of steps, a task in the queue is taken once, and a worker
without a task has a bounded way to its wait, so these three are a measure.
-/

namespace TryAndLearn
namespace ThreadPool

/-! ## The measure -/

/-- A step of a worker, of a `Push` or of a `Resize`. -/
def State.Works (s : State) : Act → Prop
  | .pushStep _ _ | .worker _ _ => True
  | .caller c _ => ∃ x ∈ s.callers[c]?, x.pc.kind = .resize
  | .push _ | .wake _ | .call _ _ => False

/-- The threads go on with what they do, and none is woken without a notification. -/
def Serves (_ : State) : Act → Prop
  | .pushStep _ _ | .worker _ _ | .caller _ _ => True
  | .push _ | .wake _ | .call _ _ => False

theorem State.Works.serves {s : State} {a : Act} (h : s.Works a) : Serves s a := by
  cases a <;> trivial

theorem Serves.quiet {s : State} {a : Act} (h : Serves s a) : Quiet s a := by
  cases a <;> trivial

theorem Serves.oneController {s : State} {a : Act} (h : Serves s a) : OneController s a := by
  cases a <;> trivial

/-- The steps of a `Push` still to come. -/
def Push.rest (x : Push) : Nat :=
  match x.pc with
  | .called => 4
  | .enqueued => 3
  | .locked => 2
  | .notified => 1
  | .returned => 0

/-- A bound on the steps of a worker before it waits, leaves or takes another task. -/
def Worker.rest (x : Worker) : Nat :=
  match x.pc with
  | .haveTask => 10
  | .run => 9
  | .running => 8
  | .testFlag | .init => 7
  | .firstPop | .nextPop => 6
  | .lock | .unparked => 5
  | .predPop _ => 4
  | .predDone => 3
  | .predFlag => 2
  | .park | .leave => 1
  | .parked | .exited => 0

/-- A bound on the steps of a call still to come on a pool of `len` workers, without those
that take a task off the queue. -/
def Caller.rest (len : Nat) (x : Caller) : Nat :=
  match x.pc with
  | .idle | .stopped => 0
  | .clearQueue | .pop | .stopErase | .shrinkErase _ => 1
  | .stopDrain | .shrinkUnlock _ => 2
  | .shrinkNotify _ => 3
  | .shrinkLock _ => 4
  | .shrinkDetach n i => 2 * (i + 1 - n) + 4
  | .shrinkFlag n i => 2 * (i + 1 - n) + 5
  | .growThread n i => 2 * (n - i)
  | .growFlag n i => 2 * (n - i) + 1
  | .resizeVectors n => 2 * (n - len) + 2 * (len - n) + 6
  | .resizeIfDone n => 2 * (n - len) + 2 * (len - n) + 7
  | .resizeIfStop n => 2 * (n - len) + 2 * (len - n) + 8
  | .stopJoin i => 2 * (len - i) + 3
  | .joining i _ => 2 * (len - (i + 1)) + 4
  | .stopNotify => 2 * len + 4
  | .stopClear => 2 * len + 5
  | .stopFlag i n => n - i + 2 * len + 6
  | .stopSize => 3 * len + 7
  | .stopSet _ => 3 * len + 8
  | .stopIfStop _ => 3 * len + 9
  | .stopIfDone => 3 * len + 10

def State.callsToCome (s : State) : Nat :=
  tally Push.rest s.pushes + tally (Caller.rest s.threads.length) s.callers

def State.work (s : State) : Nat × Nat × Nat :=
  (s.callsToCome, s.queue.length, tally Worker.rest s.workers)

section Measure

variable {kind : QueueKind} {s t : State} {a : Act}

theorem WorkerGoto.rest_lt {x : Worker} {pc : WorkerPc} (h : WorkerGoto s x pc) :
    Worker.rest { x with pc := pc } < x.rest := by
  cases h with
  | init h | run h | quit h _ | stay h _ | seenDone h _ | notDone h _ | seenFlag h _
  | notFlag h _ => simp [Worker.rest, h]

theorem WorkerPc.rest_of_pops {x : Worker} {onTask onEmpty : WorkerPc}
    (h : x.pc.pops = some (onTask, onEmpty)) : Worker.rest { x with pc := onEmpty } < x.rest := by
  cases hpc : x.pc <;> rw [hpc] at h <;>
    simp only [WorkerPc.pops, Option.some.injEq, Prod.mk.injEq, reduceCtorEq] at h <;>
    obtain ⟨_, rfl⟩ := h <;> simp [Worker.rest, hpc]

theorem CallerGoto.rest_lt {x : Caller} {pc : CallerPc} (h : CallerGoto s x.pc pc) :
    Caller.rest s.threads.length { x with pc := pc } < x.rest s.threads.length := by
  cases h with
  | resizeStopped h _ | resizeNotStopped h _ | resizeDone h _ | resizeNotDone h _ | shrink h _
  | grown h _ | shrunk h _ | stopDone h _ | stopNotDone h _ | stopStopped h _
  | stopNotStopped h _ | stopSize h | flagged h _ | joinedAll h _ =>
    simp only [Caller.rest, h]
    omega
  | joinSkip h ht _ _ =>
    have hlt := (List.getElem?_eq_some_iff.mp ht).1
    simp only [Caller.rest, h]
    omega

theorem CallerPc.rest_of_removes (len : Nat) {x : Caller} {onTask onEmpty : CallerPc}
    {who : Remover} (h : x.pc.removes = some (who, onTask, onEmpty)) :
    Caller.rest len { x with pc := onTask } ≤ x.rest len ∧
      Caller.rest len { x with pc := onEmpty } < x.rest len := by
  cases hpc : x.pc <;> rw [hpc] at h <;>
    simp only [CallerPc.removes, Option.some.injEq, Prod.mk.injEq, reduceCtorEq] at h <;>
    obtain ⟨_, rfl, rfl⟩ := h <;> simp [Caller.rest, hpc]

theorem Caller.rest_of_kind {x : Caller} (h : x.pc.kind = .other) (len len' : Nat) :
    x.rest len = x.rest len' := by
  cases hpc : x.pc <;> rw [hpc] at h <;> simp only [Caller.rest, hpc] <;>
    exact absurd h (by simp [CallerPc.kind])

theorem less_setPush {p : Nat} {x x' : Push} (h : s.pushes[p]? = some x)
    (hp : t.pushes = s.pushes.set p x') (hc : t.callers = s.callers)
    (ht : t.threads = s.threads) (hlt : x'.rest < x.rest) : Less t.work s.work := by
  have := tally_set h Push.rest x'
  refine less_iff.mpr (.inl ?_)
  rw [State.callsToCome, State.callsToCome, hp, hc, ht]
  omega

theorem less_setWorker {w : Nat} {x x' : Worker} (h : s.workers[w]? = some x)
    (hw : t.workers = s.workers.set w x') (hp : t.pushes = s.pushes)
    (hc : t.callers = s.callers) (ht : t.threads = s.threads) (hq : t.queue = s.queue)
    (hlt : x'.rest < x.rest) : Less t.work s.work := by
  have := tally_set h Worker.rest x'
  refine less_iff.mpr (.inr ⟨?_, .inr ⟨by rw [hq], ?_⟩⟩)
  · rw [State.callsToCome, State.callsToCome, hp, hc, ht]
  · rw [hw]
    omega

theorem less_setCaller {c : Nat} {x x' : Caller} (hseq : Sequential s)
    (h : s.callers[c]? = some x) (hc : t.callers = s.callers.set c x')
    (hp : t.pushes = s.pushes) (hk : x.pc.kind ≠ .other ∨ t.threads = s.threads)
    (hlt : x'.rest t.threads.length < x.rest s.threads.length) : Less t.work s.work := by
  -- what the others have to do does not depend on the vectors
  have hothers : tally (Caller.rest t.threads.length) (s.callers.set c {}) =
      tally (Caller.rest s.threads.length) (s.callers.set c {}) := by
    rcases hk with hk | ht
    · refine tally_congr fun y hy => ?_
      obtain ⟨d, hd⟩ := List.getElem?_of_mem hy
      rcases getElem?_set_cases hd with ⟨_, rfl⟩ | ⟨hne, hd⟩
      · rfl
      · exact Caller.rest_of_kind (hseq c d x y h hd (Ne.symm hne) hk) _ _
    · rw [ht]
  have hidle (len : Nat) : tally (Caller.rest len) (s.callers.set c {}) + x.rest len =
      tally (Caller.rest len) s.callers := tally_set h (Caller.rest len) {}
  have hnew := tally_set h (Caller.rest t.threads.length) x'
  have hold := hidle s.threads.length
  have hrest := hidle t.threads.length
  refine less_iff.mpr (.inl ?_)
  rw [State.callsToCome, State.callsToCome, hp, hc]
  omega

theorem less_caller {c : Nat} {x x' : Caller} (hseq : Sequential s)
    (h : s.callers[c]? = some x) (hc : t.callers = s.callers.set c x')
    (hp : t.pushes = s.pushes) (ht : t.threads = s.threads)
    (hlt : x'.rest s.threads.length < x.rest s.threads.length) : Less t.work s.work :=
  less_setCaller hseq h hc hp (.inr ht) (by rw [ht]; exact hlt)

/-- A task comes out of the queue. -/
theorem less_front {choice : Nat} {u : Task} {queue : List Task}
    (h : ThreadSafeQueue.getFrontAndPop kind choice s.queue = some (u, queue))
    (hq : t.queue = queue) (hle : t.callsToCome ≤ s.callsToCome) : Less t.work s.work := by
  have hlen := (ThreadSafeQueue.perm_of_getFrontAndPop h).length_eq
  rw [List.length_cons] at hlen
  rw [State.work, State.work, less_iff, hq]
  omega

theorem less_step (hseq : Sequential s) (hp : ∀ y ∈ s.callers, Placed s y.pc)
    (hok : Serves s a) (h : Moved kind s a t) : Less t.work s.work := by
  cases h with
  | push | wake | call => exact hok.elim
  | enqueue h hpc | pushLock h hpc _ | notifyNobody h hpc _ | pushReturn h hpc =>
    exact less_setPush h rfl rfl rfl (by simp [Push.rest, hpc])
  | notifyOne h hpc _ _ => exact less_setPush h rfl rfl rfl (by simp [Push.rest, hpc])
  | workerGoto h hgo => exact less_setWorker h rfl rfl rfl rfl rfl hgo.rest_lt
  | take _ _ hfront => exact less_front hfront rfl (Nat.le_refl _)
  | takeNone h hpc _ => exact less_setWorker h rfl rfl rfl rfl rfl (WorkerPc.rest_of_pops hpc)
  | finish h hpc => exact less_setWorker h rfl rfl rfl rfl rfl (by simp [Worker.rest, hpc])
  | lock h _ hpc =>
    rcases hpc with ⟨hpc, rfl, _⟩ | ⟨hpc, rfl, _⟩ <;>
      exact less_setWorker h rfl rfl rfl rfl rfl (by simp [Worker.rest, hpc])
  | unlock h hpc =>
    rcases hpc with ⟨hpc, rfl, _⟩ | ⟨hpc, rfl, _⟩ | ⟨hpc, rfl, _⟩ <;>
      exact less_setWorker h rfl rfl rfl rfl rfl (by simp [Worker.rest, hpc])
  | callerGoto h hgo => exact less_caller hseq h rfl rfl rfl hgo.rest_lt
  | @remove c x _ _ onTask _ _ _ h hpc hfront =>
    have hset := tally_set h (Caller.rest s.threads.length) { x with pc := onTask }
    have hrest := (CallerPc.rest_of_removes s.threads.length hpc).1
    refine less_front hfront rfl ?_
    show tally Push.rest s.pushes + tally (Caller.rest s.threads.length)
      (s.callers.set c { x with pc := onTask }) ≤ s.callsToCome
    rw [State.callsToCome]
    omega
  | removeNone h hpc _ =>
    exact less_caller hseq h rfl rfl rfl (CallerPc.rest_of_removes _ hpc).2
  | setFlag h hpc _ =>
    refine less_caller hseq h rfl rfl rfl ?_
    rcases hpc with ⟨n, hpc, hn, rfl⟩ | ⟨n, hpc, hn, rfl⟩ <;> simp only [Caller.rest, hpc] <;>
      omega
  | notifyAll h hpc =>
    refine less_caller hseq h rfl rfl rfl ?_
    rcases hpc with ⟨n, hpc, rfl⟩ | ⟨hpc, rfl⟩ <;> simp only [Caller.rest, hpc] <;> omega
  | join h hpc ht _ _ =>
    have hlt := (List.getElem?_eq_some_iff.mp ht).1
    refine less_caller hseq h rfl rfl rfl ?_
    simp only [Caller.rest, hpc]
    omega
  | growFlag h hpc _ _ | shrinkLock h hpc _ | shrinkUnlock h hpc | setDone h hpc
  | setStop h hpc | joined h hpc _ _ =>
    refine less_caller hseq h rfl rfl rfl ?_
    simp only [Caller.rest, hpc]
    omega
  | grow h hpc _ | shrinkErase h hpc | stopErase h hpc =>
    refine less_setCaller hseq h rfl rfl (.inl (by simp [hpc, CallerPc.kind])) ?_
    simp only [Caller.rest, hpc]
    omega
  | growThread h hpc _ hi =>
    have hx := hp _ (List.mem_of_getElem? h)
    rw [hpc] at hx
    have hlen := hx.2.1
    refine less_setCaller hseq h rfl rfl (.inl (by simp [hpc, CallerPc.kind])) ?_
    simp only [Caller.rest, hpc]
    omega
  | detach h hpc _ _ _ =>
    have hx := hp _ (List.mem_of_getElem? h)
    rw [hpc] at hx
    obtain ⟨_, hpos, hle, _⟩ := hx
    refine less_caller hseq h rfl rfl rfl ?_
    simp only [Caller.rest, hpc, sizeDec_of_pos (Nat.lt_of_lt_of_le hpos hle)]
    omega

end Measure

/-! ## Somebody can go on -/

section Steps

variable {kind : QueueKind} {s : State}

theorem exists_step_of_worker {w : Nat} {x : Worker} (h : s.workers[w]? = some x)
    (hpc : x.pc ≠ .parked ∧ x.pc ≠ .exited)
    (hfree : x.pc = .lock ∨ x.pc = .unparked → s.mutex = none) :
    ∃ a t, s.Works a ∧ step kind s a = some t := by
  have hof (choice : Nat) {t : State} (ht : s.workerStep kind w x choice = some t) :
      ∃ a t, s.Works a ∧ step kind s a = some t :=
    ⟨.worker w choice, t, trivial, by rw [step, h, Option.bind_some, ht]⟩
  have hpop (onTask onEmpty : WorkerPc) :
      ∃ choice t, s.workerPop kind w x choice onTask onEmpty = some t := by
    obtain ⟨choice, r, hr⟩ := exists_tryPop kind s.queue
    exact ⟨choice, _, by rw [State.workerPop, hr]; rfl⟩
  cases hx : x.pc with
  | parked => exact absurd hx hpc.1
  | exited => exact absurd hx hpc.2
  | firstPop | nextPop | predPop b =>
    obtain ⟨choice, t, ht⟩ := hpop _ _
    exact hof choice (by rw [State.workerStep, hx]; exact ht)
  | lock =>
    exact hof 0 (by
      rw [State.workerStep, hx]; exact if_pos (hfree (.inl hx)))
  | unparked =>
    exact hof 0 (by
      rw [State.workerStep, hx]; exact if_pos (hfree (.inr hx)))
  | _ => exact hof 0 (by rw [State.workerStep, hx])

theorem exists_step_of_push {p : Nat} {x : Push} (h : s.pushes[p]? = some x)
    (hpc : x.pc ≠ .returned) (hfree : x.pc = .enqueued → s.mutex = none) :
    ∃ a t, s.Works a ∧ step kind s a = some t := by
  have hof (target : Option Nat) {t : State} (ht : s.pushStep p x target = some t) :
      ∃ a t, s.Works a ∧ step kind s a = some t :=
    ⟨.pushStep p target, t, trivial, by rw [step, h, Option.bind_some, ht]⟩
  cases hx : x.pc with
  | returned => exact absurd hx hpc
  | called | notified => exact hof none (by rw [State.pushStep, hx])
  | enqueued =>
    exact hof none (by rw [State.pushStep, hx]; exact if_pos (hfree hx))
  | locked =>
    by_cases hparked : ∃ y ∈ s.workers, y.pc = .parked
    · obtain ⟨y, hy, hpark⟩ := hparked
      obtain ⟨w, hw⟩ := List.getElem?_of_mem hy
      obtain ⟨t, ht⟩ : ∃ t, (s.setPush p { x with pc := .notified }).notifyOne (some w) = some t :=
        ⟨_, by simp only [State.notifyOne, State.setPush, hw, Option.bind_some, if_pos hpark]; rfl⟩
      exact hof (some w) (by rw [State.pushStep, hx]; exact ht)
    · obtain ⟨t, ht⟩ : ∃ t, (s.setPush p { x with pc := .notified }).notifyOne none = some t :=
        ⟨_, if_pos fun y hy hpark => hparked ⟨y, hy, hpark⟩⟩
      exact hof none (by rw [State.pushStep, hx]; exact ht)

/-- Whoever holds `mutex_` needs nobody else to give it back. -/
theorem exists_step_of_locks {o : Owner} (h : s.Locks o) :
    ∃ a t, s.Works a ∧ step kind s a = some t := by
  cases o with
  | worker w =>
    obtain ⟨x, hx, hl⟩ := h
    have hne (pc : WorkerPc) (hpc : pc.locks = false) : x.pc ≠ pc :=
      fun heq => absurd (hpc.symm.trans (heq ▸ hl)) Bool.false_ne_true
    exact exists_step_of_worker hx ⟨hne _ rfl, hne _ rfl⟩ fun heq =>
      (heq.elim (hne _ rfl) (hne _ rfl)).elim
  | push p =>
    obtain ⟨x, hx, hl⟩ := h
    have hne (pc : PushPc) (hpc : pc.locks = false) : x.pc ≠ pc :=
      fun heq => absurd (hpc.symm.trans (heq ▸ hl)) Bool.false_ne_true
    exact exists_step_of_push hx (hne _ rfl) fun heq => (hne _ rfl heq).elim
  | caller c =>
    obtain ⟨x, hx, hl⟩ := h
    have hof {t : State} (hk : x.pc.kind = .resize) (ht : s.resizeStep c x x.pc = some t) :
        ∃ a t, s.Works a ∧ step kind s a = some t :=
      ⟨.caller c 0, t, ⟨x, hx, hk⟩, (step_resize hx hk).trans ht⟩
    cases hpc : x.pc with
    | shrinkNotify | shrinkUnlock => exact hof (by rw [hpc]; rfl) (by rw [hpc, State.resizeStep])
    | _ =>
      rw [hpc] at hl
      exact absurd hl Bool.false_ne_true

/-- When no worker, no `Push` and no `Resize` can go on, `mutex_` is free, the workers
sleep or have left and every `Push` has returned. -/
theorem asleep_of_stuck (hheld : Held s) (hstuck : ¬∃ a t, s.Works a ∧ step kind s a = some t) :
    s.mutex = none ∧ (∀ x ∈ s.pushes, x.pc = .returned) ∧
      ∀ x ∈ s.workers, x.pc = .parked ∨ x.pc = .exited := by
  have hfree : s.mutex = none := by
    by_contra hne
    obtain ⟨o, ho⟩ := Option.ne_none_iff_exists'.mp hne
    exact hstuck (exists_step_of_locks (hheld o ho))
  refine ⟨hfree, fun x hx => ?_, fun x hx => ?_⟩
  · obtain ⟨p, hp⟩ := List.getElem?_of_mem hx
    by_contra hpc
    exact hstuck (exists_step_of_push hp hpc fun _ => hfree)
  · obtain ⟨w, hw⟩ := List.getElem?_of_mem hx
    by_contra hpc
    exact hstuck (exists_step_of_worker hw (not_or.mp hpc) fun _ => hfree)

theorem exists_step_of_caller {c : Nat} {x : Caller} (h : s.callers[c]? = some x)
    (hk : x.pc.kind = .other) (hpc : x.pc ≠ .idle ∧ x.pc ≠ .stopped) :
    ∃ choice t, step kind s (.caller c choice) = some t := by
  obtain ⟨choice, r, hr⟩ := exists_tryPop kind s.queue
  have hof {t : State} (ht : s.callerStep kind c x choice = some t) :
      ∃ choice t, step kind s (.caller c choice) = some t :=
    ⟨choice, t, by rw [step, h, Option.bind_some, ht]⟩
  have hpop (who : Remover) (onTask onEmpty : CallerPc) :
      ∃ t, s.callerPop kind c x choice who onTask onEmpty = some t :=
    ⟨_, by rw [State.callerPop, hr]; rfl⟩
  cases hx : x.pc with
  | idle => exact absurd hx hpc.1
  | stopped => exact absurd hx hpc.2
  | clearQueue | pop =>
    obtain ⟨t, ht⟩ := hpop _ _ _
    exact hof (t := t) (by rw [State.callerStep, hx]; exact ht)
  | _ => exact absurd (hx ▸ hk) (by simp [CallerPc.kind])

end Steps

/-! ## What comes of it -/

/-- Every call has returned, the workers wait or have left, and each task was run unless
`Pop` or `ClearQueue` took it. -/
structure Served (s : State) : Prop where
  pushes : ∀ x ∈ s.pushes, x.pc = .returned
  callers : ∀ y ∈ s.callers, y.pc = .idle
  workers : ∀ x ∈ s.workers, x.pc = .parked ∨ x.pc = .exited
  queue : s.queue = []
  run : s.enqueued = s.run + s.handedOut + s.discarded

/-- A pool with a worker that nobody resizes or stops. -/
structure Serving (kind : QueueKind) (s : State) : Prop where
  reachable : (machine kind).Reachable ResizeAlone s
  rest : AtRest s
  threads : s.threads ≠ []

section Serving

variable {kind : QueueKind} {s t : State} {a : Act}

theorem sequential_of_other (h : ∀ y ∈ s.callers, y.pc.kind = .other) : Sequential s :=
  fun _ _ x _ hx _ _ hk => absurd (h x (List.mem_of_getElem? hx)) hk

/-- A `Stop` that has returned has left its order. -/
theorem AtRest.ne_stopped {ok : State → Act → Prop} (hrest : AtRest s)
    (h : (machine kind).Reachable ok s) {y : Caller} (hy : y ∈ s.callers) : y.pc ≠ .stopped := by
  intro hstopped
  have hsent := reachable_sent h y hy
  rw [hstopped] at hsent
  exact hrest.running.not_ordered hsent

theorem AtRest.next (hrest : AtRest s) (hok : Serves s a) (h : Moved kind s a t) :
    AtRest t ∧ t.threads = s.threads := by
  have hnone {c : Nat} {x : Caller} (h : s.callers[c]? = some x) {P : Prop}
      (hk : x.pc.kind = .stop) : P :=
    absurd ((hrest.callers x (List.mem_of_getElem? h)).symm.trans hk) (by decide)
  refine ⟨⟨?_, ?_⟩, ?_⟩
  · cases h with
    | setDone h hpc | setStop h hpc => exact hnone h (by rw [hpc]; rfl)
    | _ => exact hrest.running
  · rcases h.callers_cases with heq | ⟨c, x, pc, hx, heq, hkind⟩ | ⟨_, _, _, rfl, _⟩
    · exact heq ▸ hrest.callers
    · rw [heq]
      refine forall_mem_set hrest.callers ?_
      rcases hkind with hkind | hkind
      · exact hkind.trans (hrest.callers x (List.mem_of_getElem? hx))
      · exact hkind
    · exact hok.elim
  · have hdrains (y : Caller) (hy : y ∈ s.callers) := drains_of_kind (hrest.callers y hy)
    refine (h.of_drains hdrains hok.quiet).2.2.2.resolve_right ?_
    rintro ⟨y, hy, hpc⟩
    exact absurd (hrest.callers y hy) (by rw [hpc]; decide)

theorem Serving.next (h : Serving kind s) (hok : Serves s a) (hs : step kind s a = some t) :
    Serving kind t := by
  obtain ⟨hrest, hthreads⟩ := h.rest.next hok (moved_of_step hs)
  exact ⟨h.reachable.next hok.quiet.resizeAlone hs, hrest, hthreads ▸ h.threads⟩

theorem reachable_attended {ok : State → Act → Prop} (h : (machine kind).Reachable ok s) :
    Attended s := by
  refine h.invariant (fun s₀ h₀ => ?_) fun hr _ hs hI =>
    attended_step (fun _ _ => queue_le_pending hr) (moved_of_step hs) hI
  obtain ⟨n, rfl⟩ := h₀
  intro hpos
  simp [State.sleeping, start] at hpos

/-- The worker of the first entry has no order to leave. -/
theorem Serving.sleeping_pos (h : Serving kind s)
    (hworkers : ∀ x ∈ s.workers, x.pc = .parked ∨ x.pc = .exited) : 0 < s.sleeping := by
  obtain ⟨w, y, _, hy, _, _, hunset⟩ :=
    (h.rest.whole h.reachable).entry 0 (List.length_pos_of_ne_nil h.threads)
  have hparked : y.pc = .parked := by
    refine (hworkers y (List.mem_of_getElem? hy)).resolve_right fun hexit => ?_
    rcases reachable_dismissed h.reachable w y hy (.inr hexit) with hd | hset
    · exact absurd (h.rest.running.1.symm.trans hd) (by decide)
    · exact absurd (hunset.symm.trans hset) (by decide)
  have hle := le_tally (w := Worker.sleeps) hy
  rw [Worker.sleeps, if_pos hparked] at hle
  exact hle

theorem Serving.served (h : Serving kind s) (hpushes : ∀ x ∈ s.pushes, x.pc = .returned)
    (hcallers : ∀ y ∈ s.callers, y.pc = .idle)
    (hworkers : ∀ x ∈ s.workers, x.pc = .parked ∨ x.pc = .exited) : Served s := by
  have hqueue : s.queue = [] := by
    have hle := reachable_attended h.reachable (h.sleeping_pos hworkers)
    have hnotify : s.notifying = 0 :=
      tally_eq_zero_iff.mpr fun x hx => if_neg (by simp [hpushes x hx])
    have hrecheck : s.rechecking = 0 := by
      refine tally_eq_zero_iff.mpr fun x hx => if_neg ?_
      rcases hworkers x hx with hpc | hpc <;> simp [hpc]
    exact List.length_eq_zero_iff.mp (by omega)
  have hhand : s.inHand = 0 := by
    refine List.sum_eq_zero fun m hm => ?_
    obtain ⟨x, hx, rfl⟩ := List.mem_map.mp hm
    obtain ⟨w, hw⟩ := List.getElem?_of_mem hx
    have hnone : x.hand = none :=
      (reachable_handed h.reachable w x hw).hand_eq_none
        (by rcases hworkers x hx with hpc | hpc <;> rw [hpc] <;> rfl)
    rw [Worker.held, hnone]
    rfl
  refine ⟨hpushes, hcallers, hworkers, hqueue, ?_⟩
  have hsub : s.enqueued = s.queue + s.inHand + s.run + _ :=
    (reachable_balanced h.reachable).submitted
  rw [hsub, hqueue, hhand, show s.ledger.removed = _ from s.removed_eq, Multiset.coe_nil, add_zero,
    zero_add, add_assoc]

theorem Serving.exists_step (h : Serving kind s) (hserved : ¬Served s) :
    ∃ a t, Serves s a ∧ step kind s a = some t := by
  by_contra hnone
  have hother := h.rest.callers
  obtain ⟨_, hpushes, hworkers⟩ := asleep_of_stuck (reachable_held h.reachable)
    fun ⟨a, t, ha, hs⟩ => hnone ⟨a, t, ha.serves, hs⟩
  refine hserved (h.served hpushes (fun y hy => ?_) hworkers)
  obtain ⟨c, hc⟩ := List.getElem?_of_mem hy
  by_contra hpc
  obtain ⟨choice, t, hs⟩ := exists_step_of_caller hc (hother y hy)
    ⟨hpc, h.rest.ne_stopped h.reachable hy⟩
  exact hnone ⟨.caller c choice, t, trivial, hs⟩

end Serving

/-- When the pool has a worker and nobody calls it any more, every `Push` returns and
every task that `Pop` and `ClearQueue` leave is run, whatever the scheduler does. -/
theorem inevitable_served (kind : QueueKind) {s : State}
    (h : (machine kind).Reachable ResizeAlone s) (hrest : AtRest s) (hthreads : s.threads ≠ []) :
    (machine kind).Inevitable Serves Served s := by
  refine Machine.Inevitable.of_measure (I := Serving kind) wellFounded_less State.work
    (fun h hserved => h.exists_step hserved) (fun h _ hok hs => ?_) ⟨h, hrest, hthreads⟩
  exact ⟨h.next hok hs, less_step (sequential_of_other h.rest.callers)
    (reachable_placed h.reachable) hok (moved_of_step hs)⟩

theorem inevitable_served_loaded : (machine .priorityQueue).Inevitable Serves Served loaded :=
  inevitable_served .priorityQueue (loaded_reachable.mono fun _ _ hok => hok.1)
    ⟨⟨rfl, rfl⟩, by decide⟩ (by decide)

end ThreadPool
end TryAndLearn
