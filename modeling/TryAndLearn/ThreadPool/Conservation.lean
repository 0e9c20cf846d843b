import Mathlib.Algebra.Order.Group.Multiset
import Mathlib.Data.Multiset.Filter
import Mathlib.Data.List.Range
import TryAndLearn.Machine.Ledger
import TryAndLearn.ThreadPool.Moves

/-!
# The pool neither loses nor duplicates a task

A task is in `task_q_` from the section that enqueues it to the `TryPop` that returns
it, then in the hand of one worker until that worker has run it, unless `Pop` or
`ClearQueue` took it.  The pool simulates `Ledger.machine`, whatever its callers do:
`Resize` and `Stop` may run at any time and in any number.

What carries the simulation is that the local `t` of a worker is set exactly while
the worker is about to run a task: it is empty at each of the three `TryPop`s and in a
worker that has left its loop.
-/

namespace TryAndLearn
namespace ThreadPool

open ThreadSafeQueue (getFrontAndPop perm_of_getFrontAndPop)

/-! ## A worker and its task -/

def WorkerPc.hasTask : WorkerPc → Bool
  | .run | .running | .haveTask => true
  | _ => false

theorem WorkerPc.hasTask_of_pops {pc onTask onEmpty : WorkerPc}
    (h : pc.pops = some (onTask, onEmpty)) :
    pc.hasTask = false ∧ onTask.hasTask = true ∧ onEmpty.hasTask = false := by
  cases pc <;> simp only [WorkerPc.pops, Option.some.injEq, Prod.mk.injEq, reduceCtorEq] at h <;>
    obtain ⟨rfl, rfl⟩ := h <;> exact ⟨rfl, rfl, rfl⟩

theorem WorkerGoto.hasTask_eq {s : State} {x : Worker} {pc : WorkerPc} (h : WorkerGoto s x pc) :
    pc.hasTask = x.pc.hasTask := by
  cases h with
  | init h | run h | quit h _ | stay h _ | seenDone h _ | notDone h _ | seenFlag h _
  | notFlag h _ => rw [h]; rfl

/-- The worker has a task exactly where its program counter says so. -/
def Worker.Sound (x : Worker) : Prop := x.hand.isSome = x.pc.hasTask

theorem WorkerStep.sound {s : State} {x y : Worker} (h : WorkerStep s x y) (hx : x.Sound) :
    y.Sound := by
  unfold Worker.Sound at *
  cases h with
  | same | release => exact hx
  | goto hgo => rw [hgo.hasTask_eq]; exact hx
  | take hpc => exact (WorkerPc.hasTask_of_pops hpc).2.1.symm
  | takeNone hpc _ =>
    obtain ⟨hfrom, _, hto⟩ := WorkerPc.hasTask_of_pops hpc
    rw [hto, ← hfrom]
    exact hx
  | finish _ => rfl
  | lock h | relock h | park h | unpark h | start h | exit h => rw [h] at hx; exact hx

def Handed (s : State) : Prop := ∀ (w : Nat) (x : Worker), s.workers[w]? = some x → x.Sound

theorem handed_step {kind : QueueKind} {s t : State} {a : Act} (h : Moved kind s a t)
    (hh : Handed s) : Handed t := by
  intro w y hy
  rcases h.worker_prev hy with ⟨x, hx, hstep⟩ | ⟨_, f, rfl⟩
  · exact hstep.sound (hh w x hx)
  · rfl

theorem reachable_handed {kind : QueueKind} {ok : State → Act → Prop} {s : State}
    (h : (machine kind).Reachable ok s) : Handed s := by
  refine h.invariant (fun s₀ h₀ => ?_) fun _ _ hs hh => handed_step (moved_of_step hs) hh
  obtain ⟨n, rfl⟩ := h₀
  intro w x hw
  simp [start] at hw

theorem Worker.Sound.hand_eq_none {x : Worker} (h : x.Sound) (hpc : x.pc.hasTask = false) :
    x.hand = none := by
  rw [Worker.Sound, hpc] at h
  simpa using h

theorem Worker.Sound.exists_hand {x : Worker} (h : x.Sound) (hpc : x.pc.hasTask = true) :
    ∃ u, x.hand = some u := by
  rw [Worker.Sound, hpc] at h
  exact Option.isSome_iff_exists.mp h

/-! ## The ledger of the pool -/

def Worker.held (x : Worker) : Multiset Task := x.hand.toList

def Push.entered (x : Push) : Multiset Task := if x.pc = .called then 0 else {x.task}

namespace State

/-- The tasks whose `Push` or `VoidPush` has put them into the queue. -/
def enqueued (s : State) : Multiset Task := tally Push.entered s.pushes

def inHand (s : State) : Multiset Task := tally Worker.held s.workers

def run (s : State) : Multiset Task := s.finished.map Prod.snd

/-- The tasks that `Pop` returned. -/
def handedOut (s : State) : Multiset Task :=
  ((s.removed : Multiset (Remover × Task)).filter fun r => r.1 = .pop).map Prod.snd

/-- The tasks that `ClearQueue` dropped, called by itself or in `Stop`. -/
def discarded (s : State) : Multiset Task :=
  ((s.removed : Multiset (Remover × Task)).filter fun r => ¬ r.1 = .pop).map Prod.snd

def ledger (s : State) : Ledger Task where
  submitted := s.enqueued
  waiting := s.queue
  held := s.inHand
  finished := s.run
  removed := (s.removed.map Prod.snd : List Task)
  taken := (s.taken.map Prod.snd : List Task)

theorem removed_eq (s : State) :
    ((s.removed.map Prod.snd : List Task) : Multiset Task) = s.handedOut + s.discarded := by
  rw [handedOut, discarded, ← Multiset.map_add, Multiset.filter_add_not, Multiset.map_coe]

end State

section Simulation

variable {kind : QueueKind} {s t : State} {a : Act} {choice : Nat}

theorem ledger_eq (hp : t.enqueued = s.enqueued) (hw : t.inHand = s.inHand)
    (hq : t.queue = s.queue) (hf : t.finished = s.finished) (hr : t.removed = s.removed)
    (ht : t.taken = s.taken) : t.ledger = s.ledger := by
  unfold State.ledger State.run
  rw [hp, hw, hq, hf, hr, ht]

theorem coe_of_front {u : Task} {queue : List Task}
    (h : getFrontAndPop kind choice s.queue = some (u, queue)) :
    (s.queue : Multiset Task) = u ::ₘ (queue : Multiset Task) := by
  rw [Multiset.cons_coe]
  exact Multiset.coe_eq_coe.mpr (perm_of_getFrontAndPop h)

theorem Worker.held_unpark (x : Worker) : x.unpark.held = x.held := by
  unfold Worker.unpark
  split <;> rfl

/-- A step of a `Push` past its enqueue. -/
theorem enqueued_set {p : Nat} {x : Push} {pc : PushPc} (h : s.pushes[p]? = some x)
    (hx : x.pc ≠ .called) (hpc : pc ≠ .called) :
    tally Push.entered (s.pushes.set p { x with pc := pc }) = s.enqueued := by
  refine tally_set_of_eq h ?_
  rw [Push.entered, Push.entered, if_neg hx, if_neg hpc]

theorem shows_enqueue {p : Nat} {x : Push} (h : s.pushes[p]? = some x) (hpc : x.pc = .called) :
    Ledger.machine.step s.ledger (.submit x.task) =
      some (State.ledger { s.setPush p { x with pc := .enqueued } with
        queue := ThreadSafeQueue.push s.queue x.task }) := by
  have hset := tally_set h Push.entered { x with pc := .enqueued }
  rw [Push.entered, Push.entered, if_pos hpc, if_neg (by simp), add_zero, add_comm,
    Multiset.singleton_add] at hset
  have hq : ((ThreadSafeQueue.push s.queue x.task : List Task) : Multiset Task) =
      x.task ::ₘ (s.queue : Multiset Task) := by
    rw [ThreadSafeQueue.push, ← Multiset.coe_add, add_comm, Multiset.coe_singleton,
      Multiset.singleton_add]
  rw [State.ledger, Ledger.step_submit]
  simp only [State.ledger, hq]
  simp only [State.enqueued, State.setPush, hset]
  rfl

theorem shows_take {w : Nat} {x : Worker} {pc : WorkerPc} {u : Task} {queue : List Task}
    (h : s.workers[w]? = some x) (hx : x.hand = none)
    (hfront : getFrontAndPop kind choice s.queue = some (u, queue)) :
    Ledger.machine.step s.ledger (.take u) =
      some (State.ledger { s.setWorker w { x with pc := pc, hand := some u } with
        queue := queue, taken := (w, u) :: s.taken }) := by
  have hset := tally_set h Worker.held { x with pc := pc, hand := some u }
  rw [Worker.held, Worker.held, hx] at hset
  simp only [Option.toList_none, Option.toList_some, Multiset.coe_nil, Multiset.coe_singleton,
    add_zero] at hset
  rw [add_comm, Multiset.singleton_add] at hset
  rw [State.ledger, coe_of_front hfront, Ledger.step_take]
  simp only [State.ledger, State.inHand, State.setWorker, hset, List.map_cons, ← Multiset.cons_coe]
  rfl

theorem shows_finish {w : Nat} {x : Worker} {u : Task} (h : s.workers[w]? = some x)
    (hx : x.hand = some u) :
    Ledger.machine.step s.ledger (.finish u) =
      some (State.ledger { s.setWorker w { x with pc := .testFlag, hand := none } with
        finished := x.hand.toList.map (fun t => (w, t)) ++ s.finished }) := by
  have hset := tally_set h Worker.held { x with pc := .testFlag, hand := none }
  rw [Worker.held, Worker.held, hx] at hset
  simp only [Option.toList_none, Option.toList_some, Multiset.coe_nil, Multiset.coe_singleton,
    add_zero] at hset
  rw [add_comm, Multiset.singleton_add] at hset
  rw [State.ledger, State.inHand, ← hset, Ledger.step_finish]
  simp only [State.ledger, State.run, hx, Option.toList_some, List.map_cons, List.map_nil,
    List.singleton_append, ← Multiset.cons_coe]
  rfl

theorem shows_remove {c : Nat} {x : Caller} {pc : CallerPc} {who : Remover} {u : Task}
    {queue : List Task} (hfront : getFrontAndPop kind choice s.queue = some (u, queue)) :
    Ledger.machine.step s.ledger (.remove u) =
      some (State.ledger { s.goto c x pc with
        queue := queue, removed := (who, u) :: s.removed }) := by
  rw [State.ledger, coe_of_front hfront, Ledger.step_remove]
  simp only [State.ledger, List.map_cons, ← Multiset.cons_coe]
  rfl

theorem shows_of_moved (hh : Handed s) (h : Moved kind s a t) :
    t.ledger = s.ledger ∨ ∃ y, Ledger.machine.step s.ledger y = some t.ledger := by
  cases h with
  | enqueue h hpc => exact .inr ⟨_, shows_enqueue h hpc⟩
  | @take w x _ _ _ u queue h hpc hfront =>
    have hx := (hh w x h).hand_eq_none (WorkerPc.hasTask_of_pops hpc).1
    exact .inr ⟨_, shows_take h hx hfront⟩
  | @finish w x _ h hpc =>
    obtain ⟨u, hu⟩ := (hh w x h).exists_hand (by rw [hpc]; rfl)
    exact .inr ⟨_, shows_finish h hu⟩
  | remove _ _ hfront => exact .inr ⟨_, shows_remove hfront⟩
  | push =>
    refine .inl (ledger_eq ?_ rfl rfl rfl rfl rfl)
    simp [State.enqueued, Push.entered]
  | pushLock h hpc _ =>
    exact .inl (ledger_eq (enqueued_set h (by simp [hpc]) (by simp)) rfl rfl rfl rfl rfl)
  | notifyNobody h hpc _ =>
    exact .inl (ledger_eq (enqueued_set h (by simp [hpc]) (by simp)) rfl rfl rfl rfl rfl)
  | pushReturn h hpc =>
    exact .inl (ledger_eq (enqueued_set h (by simp [hpc]) (by simp)) rfl rfl rfl rfl rfl)
  | notifyOne h hpc hw _ =>
    exact .inl (ledger_eq (enqueued_set h (by simp [hpc]) (by simp)) (tally_set_of_eq hw rfl)
      rfl rfl rfl rfl)
  | workerGoto h _ | takeNone h _ _ | lock h _ _ | unlock h _ | wake h _ =>
    exact .inl (ledger_eq rfl (tally_set_of_eq h rfl) rfl rfl rfl rfl)
  | detach _ _ _ hw _ => exact .inl (ledger_eq rfl (tally_set_of_eq hw rfl) rfl rfl rfl rfl)
  | joined _ _ hw _ => exact .inl (ledger_eq rfl (tally_set_of_eq hw rfl) rfl rfl rfl rfl)
  | notifyAll _ _ =>
    refine .inl (ledger_eq rfl ?_ rfl rfl rfl rfl)
    simp only [State.inHand, State.notifyAll, tally_map, Worker.held_unpark]
    rfl
  | growThread _ _ _ _ =>
    refine .inl (ledger_eq rfl ?_ rfl rfl rfl rfl)
    simp [State.inHand, Worker.held]
  | _ => exact .inl rfl

end Simulation

/-- The pool keeps its ledger, in every run. -/
theorem simulates_ledger (kind : QueueKind) (ok : State → Act → Prop) :
    (machine kind).Simulates ok Ledger.machine State.ledger where
  init := by
    rintro _ ⟨n, rfl⟩
    simp [Ledger.machine, Ledger.empty, State.ledger, State.enqueued, State.inHand, State.run,
      start]
  step hr _ hs := shows_of_moved (reachable_handed hr) (moved_of_step hs)

theorem reachable_balanced {kind : QueueKind} {ok : State → Act → Prop} {s : State}
    (h : (machine kind).Reachable ok s) : s.ledger.Balanced :=
  Ledger.reachable_balanced ((simulates_ledger kind ok).reachable h)

/-! ## No task is enqueued twice -/

/-- A call of `Push` makes the task of its number. -/
def Numbered (s : State) : Prop :=
  ∀ (p : Nat) (x : Push), s.pushes[p]? = some x → x.task.func = p

theorem numbered_step {kind : QueueKind} {s t : State} {a : Act} (h : Moved kind s a t)
    (hn : Numbered s) : Numbered t := by
  intro p y hp
  rcases h.push_prev hp with ⟨x, hx, hstep⟩ | ⟨rfl, n, rfl⟩
  · rw [hstep.task_eq]
    exact hn p x hx
  · rfl

theorem reachable_numbered {kind : QueueKind} {ok : State → Act → Prop} {s : State}
    (h : (machine kind).Reachable ok s) : Numbered s := by
  refine h.invariant (fun s₀ h₀ => ?_) fun _ _ hs hn => numbered_step (moved_of_step hs) hn
  obtain ⟨n, rfl⟩ := h₀
  intro p x hp
  simp [start] at hp

theorem enqueued_eq_filter (s : State) :
    s.enqueued = ((s.pushes.filter fun x => x.pc ≠ .called).map Push.task : List Task) := by
  unfold State.enqueued
  induction s.pushes with
  | nil => rfl
  | cons x rest ih =>
    rw [tally_cons, ih, Push.entered]
    by_cases hpc : x.pc = .called <;> simp [hpc]

theorem mem_enqueued {s : State} {p : Nat} {x : Push} (hp : s.pushes[p]? = some x)
    (hpc : x.pc ≠ .called) : x.task ∈ s.enqueued := by
  rw [enqueued_eq_filter, Multiset.mem_coe]
  exact List.mem_map_of_mem (List.mem_filter.mpr ⟨List.mem_of_getElem? hp, by simpa using hpc⟩)

theorem Numbered.nodup {s : State} (hn : Numbered s) : s.enqueued.Nodup := by
  rw [enqueued_eq_filter, Multiset.coe_nodup]
  refine List.Nodup.of_map Task.func ?_
  have hrange : s.pushes.map (fun x => x.task.func) = List.range s.pushes.length := by
    refine List.ext_getElem (by simp) fun p h₁ h₂ => ?_
    simp only [List.getElem_map, List.getElem_range]
    exact hn p _ (List.getElem?_eq_getElem (by simpa using h₁))
  have hsub := (List.filter_sublist (p := fun x : Push => x.pc ≠ .called) (l := s.pushes)).map
    fun x => x.task.func
  rw [hrange] at hsub
  simpa [Function.comp_def] using hsub.nodup List.nodup_range

theorem taken_nodup {kind : QueueKind} {ok : State → Act → Prop} {s : State}
    (h : (machine kind).Reachable ok s) : (s.taken.map Prod.snd).Nodup := by
  have hb := reachable_balanced h
  have hle : s.inHand + s.run ≤ s.enqueued := by
    have hsub : s.enqueued = s.queue + s.inHand + s.run + _ := hb.submitted
    rw [hsub, add_assoc (s.queue : Multiset Task)]
    exact (Multiset.le_add_left _ _).trans (Multiset.le_add_right _ _)
  have htaken : ((s.taken.map Prod.snd : List Task) : Multiset Task) = s.inHand + s.run := hb.taken
  rw [← Multiset.coe_nodup, htaken]
  exact Multiset.nodup_of_le hle (reachable_numbered h).nodup

/-! ## Who took which task -/

/-- What worker `w` has in hand. -/
def State.handOf (s : State) (w : Nat) : Option Task := s.workers[w]?.bind Worker.hand

theorem handOf_set {s t : State} {w : Nat} {x x' : Worker} (h : s.workers[w]? = some x)
    (ht : t.workers = s.workers.set w x') (v : Nat) :
    t.handOf v = if v = w then x'.hand else s.handOf v := by
  rw [State.handOf, State.handOf, ht]
  by_cases hv : v = w
  · subst hv
    rw [if_pos rfl, getElem?_set_of_some h, Option.bind_some]
  · rw [if_neg hv, List.getElem?_set_ne (Ne.symm hv)]

theorem handOf_of_some {s : State} {w : Nat} {x : Worker} (h : s.workers[w]? = some x) :
    s.handOf w = x.hand := by
  rw [State.handOf, h, Option.bind_some]

theorem handOf_set_of_eq {s t : State} {w : Nat} {x x' : Worker} (h : s.workers[w]? = some x)
    (ht : t.workers = s.workers.set w x') (hx : x'.hand = x.hand) (v : Nat) :
    t.handOf v = s.handOf v := by
  rw [handOf_set h ht v]
  split
  · rename_i hv
    rw [hx, hv, handOf_of_some h]
  · rfl

/-- The tasks a worker has taken are those it has run and the one in its hand. -/
def Logged (s : State) : Prop :=
  ∀ (w : Nat) (u : Task), (w, u) ∈ s.taken ↔ (w, u) ∈ s.finished ∨ s.handOf w = some u

theorem Logged.of_eq {s t : State} (hl : Logged s) (ht : t.taken = s.taken)
    (hf : t.finished = s.finished) (hw : ∀ w, t.handOf w = s.handOf w) : Logged t := by
  intro w u
  rw [ht, hf, hw]
  exact hl w u

theorem logged_step {kind : QueueKind} {s t : State} {a : Act} (hh : Handed s)
    (h : Moved kind s a t) (hl : Logged s) : Logged t := by
  cases h with
  | @take w x _ _ _ u queue h hpc hfront =>
    have hx := (hh w x h).hand_eq_none (WorkerPc.hasTask_of_pops hpc).1
    intro v u'
    rw [handOf_set h rfl v]
    have hv := hl v u'
    by_cases hvw : v = w
    · subst hvw
      rw [handOf_of_some h, hx] at hv
      simp [State.setWorker, hv, or_comm, eq_comm]
    · rw [if_neg hvw]
      simp [State.setWorker, hvw, hv]
  | @finish w x _ h hpc =>
    intro v u'
    rw [handOf_set h rfl v]
    have hv := hl v u'
    by_cases hvw : v = w
    · subst hvw
      rw [handOf_of_some h] at hv
      simp [State.setWorker, hv, or_comm, eq_comm]
    · rw [if_neg hvw]
      simp [State.setWorker, Ne.symm hvw, hv]
  | workerGoto h _ | takeNone h _ _ | lock h _ _ | unlock h _ | wake h _ =>
    exact hl.of_eq rfl rfl (handOf_set_of_eq h rfl rfl)
  | notifyOne _ _ hw _ => exact hl.of_eq rfl rfl (handOf_set_of_eq hw rfl rfl)
  | detach _ _ _ hw _ => exact hl.of_eq rfl rfl (handOf_set_of_eq hw rfl rfl)
  | joined _ _ hw _ => exact hl.of_eq rfl rfl (handOf_set_of_eq hw rfl rfl)
  | notifyAll _ _ =>
    refine hl.of_eq rfl rfl fun w => ?_
    simp only [State.handOf, State.notifyAll, List.getElem?_map]
    cases hx : s.workers[w]? with
    | none => simp [State.goto, State.setCaller, hx]
    | some x =>
      simp only [State.goto, State.setCaller, hx, Option.map_some, Option.bind_some]
      unfold Worker.unpark
      split <;> rfl
  | growThread _ _ _ _ =>
    refine hl.of_eq rfl rfl fun w => ?_
    simp only [State.handOf]
    rcases Nat.lt_trichotomy w s.workers.length with hlt | rfl | hgt
    · rw [List.getElem?_append_left hlt]
    · simp
    · rw [List.getElem?_eq_none (by simp; omega), List.getElem?_eq_none (by omega)]
  | _ => exact hl

theorem reachable_logged {kind : QueueKind} {ok : State → Act → Prop} {s : State}
    (h : (machine kind).Reachable ok s) : Logged s := by
  refine h.invariant (fun s₀ h₀ => ?_) fun hr _ hs hl =>
    logged_step (reachable_handed hr) (moved_of_step hs) hl
  obtain ⟨n, rfl⟩ := h₀
  intro w u
  simp [start, State.handOf]

/-! ## Conservation -/

/-- In every reachable state each enqueued task is in one place: the queue, the hand
of a worker, run to its end, handed out by `Pop` or discarded.  A worker that has left
its loop holds none. -/
theorem conservation (kind : QueueKind) {s : State}
    (h : (machine kind).Reachable Machine.anyStep s) :
    s.enqueued = s.queue + s.inHand + s.run + s.handedOut + s.discarded ∧
      s.enqueued.Nodup ∧
      ∀ (w : Nat) (x : Worker), s.workers[w]? = some x → x.pc = .exited → x.hand = none := by
  refine ⟨?_, (reachable_numbered h).nodup, fun w x hw hexit => ?_⟩
  · rw [add_assoc _ s.handedOut, ← s.removed_eq]
    exact (reachable_balanced h).submitted
  · exact (reachable_handed h w x hw).hand_eq_none (by rw [hexit]; rfl)

/-- One worker and five tasks: task 0 was run, task 1 is about to be, task 2 was handed
out, task 3 discarded and task 4 waits. -/
def busy : State :=
  { queue := [⟨4, 7⟩], threads := [some 0], flags := [some 0], cells := [false],
    workers := [{ flag := 0, pc := .run, hand := some ⟨1, 5⟩ }],
    pushes := [{ task := ⟨0, 3⟩, pc := .enqueued }, { task := ⟨1, 5⟩, pc := .enqueued },
      { task := ⟨2, 0⟩, pc := .enqueued }, { task := ⟨3, 0⟩, pc := .enqueued },
      { task := ⟨4, 7⟩, pc := .enqueued }],
    callers := [{ began := [some 0] }],
    taken := [(0, ⟨1, 5⟩), (0, ⟨0, 3⟩)], finished := [(0, ⟨0, 3⟩)],
    removed := [(.clearQueue, ⟨3, 0⟩), (.pop, ⟨2, 0⟩)] }

theorem busy_reachable : (machine .queue).Reachable Machine.anyStep busy :=
  Machine.reachable_of_exec
    (List.flatten [construct 1, [.push 3, .pushStep 0 none], List.replicate 5 (.worker 0 0),
      [.push 5, .pushStep 1 none, .worker 0 0, .push 0, .pushStep 2 none, .call 0 .pop, .caller 0 0,
      .push 0, .pushStep 3 none, .call 0 .clearQueue, .caller 0 0, .caller 0 0, .push 7,
      .pushStep 4 none]])
    ⟨1, rfl⟩ (by decide)

theorem conservation_busy :
    busy.enqueued = busy.queue + busy.inHand + busy.run + busy.handedOut + busy.discarded :=
  (conservation .queue busy_reachable).1

end ThreadPool
end TryAndLearn
