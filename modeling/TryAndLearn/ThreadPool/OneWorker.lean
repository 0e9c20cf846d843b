import TryAndLearn.Machine.Channel
import TryAndLearn.Machine.Server
import TryAndLearn.ThreadPool.Conservation
import TryAndLearn.ThreadPool.Record
import TryAndLearn.ThreadPool.Vectors

/-!
# A pool of one

With its record the pool is a channel of tasks, whoever takes them off `task_q_`: the
one worker at any of its three `TryPop`s, `Pop`, or a `ClearQueue`.  And the one worker is
a server: it holds a task from the `TryPop` that returned it until it has run it.  Both
are simulations, and the order of tasks is what the channel and the server promise.
-/

namespace TryAndLearn
namespace ThreadPool

open ThreadSafeQueue (order order_of_getFrontAndPop perm_of_getFrontAndPop)

/-! ## One worker -/

/-- How many workers a `Resize` can still start. -/
def CallerPc.toStart : CallerPc → Nat
  | .resizeIfStop n | .resizeIfDone n | .resizeVectors n => n
  | .growFlag n i => n - i
  | .growThread n i => n - (i + 1) + 1
  | _ => 0

/-- The only `Resize` starts the only worker. -/
def OneWorker (s : State) : Act → Prop
  | .call _ (.resize n) => n = 1 ∧ s.workers = [] ∧ ∀ x ∈ s.callers, x.pc.kind ≠ .resize
  | _ => True

instance (s : State) : (a : Act) → Decidable (OneWorker s a)
  | .call _ (.resize n) => inferInstanceAs
      (Decidable (n = 1 ∧ s.workers = [] ∧ ∀ x ∈ s.callers, x.pc.kind ≠ .resize))
  | .call _ (.stop _) | .call _ .clearQueue | .call _ .pop | .push _ | .pushStep _ _ | .worker _ _
  | .wake _ | .caller _ _ => inferInstanceAs (Decidable True)

def State.toStart (s : State) : Nat := tally (fun x => x.pc.toStart) s.callers

section Single

variable {kind : QueueKind} {s t : State} {a : Act} {c : Nat} {x : Caller}

theorem toStart_of_kind {pc : CallerPc} (h : pc.kind ≠ .resize) : pc.toStart = 0 := by
  cases pc <;> first | rfl | exact absurd rfl h

theorem toStart_goto {pc pc' : CallerPc} (h : CallerGoto s pc pc') : pc'.toStart ≤ pc.toStart := by
  cases h <;> subst pc <;> simp [CallerPc.toStart]

theorem toStart_add (h : s.callers[c]? = some x) {x' : Caller}
    (hc : t.callers = s.callers.set c x') :
    t.toStart + x.pc.toStart = s.toStart + x'.pc.toStart := by
  unfold State.toStart
  rw [hc]
  exact tally_set h (fun x => x.pc.toStart) x'

/-- A caller moves and no worker is started. -/
theorem toStart_set (h : s.callers[c]? = some x) {x' : Caller}
    (hc : t.callers = s.callers.set c x') (hw : t.workers.length = s.workers.length)
    (hle : x'.pc.toStart ≤ x.pc.toStart) :
    t.workers.length + t.toStart ≤ s.workers.length + s.toStart := by
  have := toStart_add h hc
  omega

theorem toStart_step (hok : OneWorker s a) (h : Moved kind s a t)
    (hs : s.workers.length + s.toStart ≤ 1) : t.workers.length + t.toStart ≤ 1 := by
  have hmoved := h
  cases h with
  | push | enqueue | pushLock | notifyOne | notifyNobody | pushReturn | workerGoto | take
  | takeNone | finish | lock | unlock | wake =>
    have hsame := hmoved.sameWiring rfl
    unfold State.toStart at *
    rw [hsame.length, hsame.callers]
    exact hs
  | @call c x op h hpc =>
    by_cases hop : op.kind = .resize
    · cases op with
      | resize n =>
        -- nobody else is going to start a worker
        obtain ⟨rfl, hnone, hrest⟩ := hok
        have hzero : s.toStart = 0 :=
          tally_eq_zero_iff.mpr fun y hy => toStart_of_kind (hrest y hy)
        have hadd := toStart_add (t := s.setCaller c { pc := .resizeIfStop 1, began := s.threads })
          h rfl
        have hlen : s.workers.length = 0 := by rw [hnone]; rfl
        simp only [CallerPc.toStart] at hadd
        show s.workers.length + State.toStart (s.setCaller c _) ≤ 1
        simp only [Op.entry]
        omega
      | stop _ | clearQueue | pop => exact absurd hop (by simp [Op.kind])
    · refine le_trans (toStart_set h rfl rfl ?_) hs
      rw [toStart_of_kind (by rwa [op.kind_entry])]
      exact Nat.zero_le _
  | callerGoto h hgo => exact le_trans (toStart_set h rfl rfl (toStart_goto hgo)) hs
  | remove h hpc _ =>
    refine le_trans (toStart_set h rfl rfl ?_) hs
    rw [toStart_of_kind]
    · exact Nat.zero_le _
    · rw [(CallerPc.kind_of_removes hpc).1]
      exact CallerPc.not_resize_of_removes hpc
  | removeNone h hpc _ =>
    refine le_trans (toStart_set h rfl rfl ?_) hs
    rw [toStart_of_kind]
    · exact Nat.zero_le _
    · rw [(CallerPc.kind_of_removes hpc).2]
      exact CallerPc.not_resize_of_removes hpc
  | growFlag h hpc hn _ =>
    refine le_trans (toStart_set h rfl rfl ?_) hs
    rw [hpc]
    simp only [CallerPc.toStart]
    omega
  | @growThread c x _ n i f h hpc _ _ =>
    have hadd := toStart_add (t := s.goto c x (.growFlag n (i + 1))) h rfl
    rw [hpc] at hadd
    simp only [CallerPc.toStart] at hadd
    show (s.workers ++ [({ flag := f } : Worker)]).length + State.toStart (s.goto c x _) ≤ 1
    rw [List.length_append, List.length_singleton]
    omega
  | setFlag h hpc _ =>
    refine le_trans (toStart_set h rfl rfl ?_) hs
    rcases hpc with ⟨_, hpc, _, rfl⟩ | ⟨_, hpc, _, rfl⟩ <;> simp [CallerPc.toStart]
  | notifyAll h hpc =>
    refine le_trans
      (toStart_set h rfl (by simp [State.notifyAll, State.goto, State.setCaller]) ?_) hs
    rcases hpc with ⟨_, hpc, rfl⟩ | ⟨hpc, rfl⟩ <;> simp [CallerPc.toStart]
  | detach h hpc _ _ _ | joined h hpc _ _ =>
    exact le_trans (toStart_set h rfl List.length_set (by simp [CallerPc.toStart])) hs
  | grow h hpc _ =>
    refine le_trans (toStart_set h rfl rfl ?_) hs
    rw [hpc]
    exact Nat.sub_le _ _
  | shrinkLock h | shrinkUnlock h | shrinkErase h | setDone h | setStop h | join h | stopErase h =>
    exact le_trans (toStart_set h rfl rfl (by simp [CallerPc.toStart])) hs

theorem reachable_single (h : (machine kind).Reachable OneWorker s) : s.workers.length ≤ 1 := by
  have htotal : s.workers.length + s.toStart ≤ 1 := by
    refine h.invariant (I := fun s => s.workers.length + s.toStart ≤ 1) (fun s₀ h₀ => ?_)
      fun _ hok hs hI => toStart_step hok (moved_of_step hs) hI
    obtain ⟨n, rfl⟩ := h₀
    simp [start, State.toStart, CallerPc.toStart]
  omega

end Single

/-! ## What the record says of tasks -/

namespace Event

def entering : Event → Option Task
  | .enqueued u => some u
  | _ => none

def leaving : Event → Option (Departure Task)
  | .took _ u rest | .removed _ u rest => some ⟨u, rest⟩
  | _ => none

def job : Event → Option (Server.Event (Nat × Task))
  | .took w u _ => some (.took (w, u))
  | .began w u => some (.began (w, u))
  | .ended w u => some (.ended (w, u))
  | _ => none

end Event

/-- The tasks enqueued, in the order of the sections that did. -/
def entered (log : List Event) : List Task := log.filterMap Event.entering

/-- The tasks that have left `task_q_` for whatever reason, in order. -/
def departed (log : List Event) : List Task := (log.filterMap Event.leaving).map Departure.value

def channel (p : State × List Event) : Channel Task :=
  { entered := entered p.2, content := p.1.queue, departed := p.2.filterMap Event.leaving }

def Worker.phase (x : Worker) (w : Nat) : Server.Phase (Nat × Task) :=
  match x.hand with
  | none => .idle
  | some u => if x.pc = .running then .serving (w, u) else .holding (w, u)

/-- What the one worker is doing. -/
def State.phase (s : State) : Server.Phase (Nat × Task) :=
  s.workers[0]?.elim .idle fun x => x.phase 0

def server (p : State × List Event) : Server (Nat × Task) :=
  { phase := p.1.phase, log := p.2.filterMap Event.job }

/-! ## The queue -/

section Order

variable {kind : QueueKind} {s t : State} {a : Act} {log : List Event}

theorem filterMap_append_none {β : Type*} {f : Event → Option β} {shown : List Event}
    (h : ∀ e ∈ shown, f e = none) : (log ++ shown).filterMap f = log.filterMap f := by
  rw [List.filterMap_append, List.filterMap_eq_nil_iff.mpr h, List.append_nil]

/-- A step that moves no task. -/
theorem channel_same (hq : t.queue = s.queue) (ht : t.taken = s.taken)
    (hr : t.removed = s.removed)
    (hp : ∀ p target x, a = .pushStep p target → s.pushes[p]? = some x → x.pc ≠ .called) :
    channel (t, log ++ see s a t) = channel (s, log) := by
  have hsilent : ∀ e ∈ see s a t, e.entering = none ∧ e.leaving = none := by
    intro e he
    rcases mem_see he with ⟨p, target, x, ha, hx, he⟩ | ⟨_, _, _, _, _, he⟩ | ⟨_, _, _, _, _, he⟩
    · exact absurd (Push.mem_shows he).2 (hp p target x ha hx)
    · rcases Worker.mem_shows he with ⟨_, rfl, _⟩ | ⟨_, rfl, _⟩ | ⟨u, hu, rfl⟩
      · exact ⟨rfl, rfl⟩
      · exact ⟨rfl, rfl⟩
      · simp [ht] at hu
    · rcases CallerPc.mem_shows he with ⟨_, _, _, rfl, _⟩ | ⟨_, rfl, _⟩ | ⟨r, hr', rfl⟩
      · exact ⟨rfl, rfl⟩
      · exact ⟨rfl, rfl⟩
      · simp [hr] at hr'
  unfold channel entered
  simp only [hq, filterMap_append_none fun e he => (hsilent e he).1,
    filterMap_append_none fun e he => (hsilent e he).2]

theorem channel_step (h : Moved kind s a t) :
    channel (t, log ++ see s a t) = channel (s, log) ∨
      ∃ y, (Channel.machine (order kind)).step (channel (s, log)) y =
        some (channel (t, log ++ see s a t)) := by
  cases h with
  | @enqueue p x _ h hpc =>
    refine .inr ⟨.enter x.task, ?_⟩
    simp [channel, entered, Channel.step_enter, see, h, Push.shows, hpc, Event.entering,
      Event.leaving, ThreadSafeQueue.push]
  | @take w x choice onTask onEmpty u queue h hpc hpop =>
    obtain ⟨k, hk, hu, rfl⟩ := order_of_getFrontAndPop hpop
    refine .inr ⟨.leave k, ?_⟩
    cases hx : x.pc <;> simp [hx, WorkerPc.pops] at hpc <;>
      simp [channel, entered, Channel.step_leave hk hu, see, h, Worker.shows, hx, Event.entering,
        Event.leaving]
  | @remove c x choice who onTask onEmpty u queue h hpc hpop =>
    obtain ⟨k, hk, hu, rfl⟩ := order_of_getFrontAndPop hpop
    refine .inr ⟨.leave k, ?_⟩
    cases hx : x.pc <;> simp [hx, CallerPc.removes] at hpc <;>
      simp [channel, entered, Channel.step_leave hk hu, see, h, CallerPc.shows, hx, Event.entering,
        Event.leaving]
  | pushLock h hpc _ | notifyOne h hpc _ _ | notifyNobody h hpc _ | pushReturn h hpc =>
    refine .inl (channel_same rfl rfl rfl fun p target x ha hx => ?_)
    obtain ⟨rfl, _⟩ := Act.pushStep.inj ha
    obtain rfl := Option.some.inj (h.symm.trans hx)
    simp [hpc]
  | _ => exact .inl (channel_same rfl rfl rfl (by simp))

/-- The pool with its record implements a channel. -/
theorem simulates_channel {ok : State → Act → Prop} :
    ((machine kind).traced see).Simulates (Machine.lift ok) (Channel.machine (order kind))
      channel := by
  refine Machine.traced_simulates (fun s₀ h₀ => ?_) fun _ _ hs => channel_step (moved_of_step hs)
  obtain ⟨n, rfl⟩ := h₀
  rfl

end Order

/-! ## The worker -/

section Worker

variable {kind : QueueKind} {s t : State} {a : Act} {log : List Event} {w : Nat}
  {x x' : Worker}

theorem phase_of_hand {u : Task} (h : x.hand = some u) (hpc : x.pc ≠ .running) (w : Nat) :
    x.phase w = .holding (w, u) := by
  simp [Worker.phase, h, hpc]

theorem phase_of_running {u : Task} (h : x.hand = some u) (hpc : x.pc = .running) (w : Nat) :
    x.phase w = .serving (w, u) := by
  simp [Worker.phase, h, hpc]

theorem phase_of_none (h : x.hand = none) (w : Nat) : x.phase w = .idle := by
  simp [Worker.phase, h]

/-- Only to begin and to end a task changes what is done with it. -/
theorem phase_of_not_running {pc : WorkerPc} (hx : x.pc ≠ .running) (hpc : pc ≠ .running)
    (w : Nat) : Worker.phase { x with pc := pc } w = x.phase w := by
  unfold Worker.phase
  cases x.hand <;> simp [hx, hpc]

theorem phase_unpark (x : Worker) (w : Nat) : x.unpark.phase w = x.phase w := by
  unfold Worker.unpark
  split
  · rename_i hpc
    exact phase_of_not_running (by simp [hpc]) (by simp) w
  · rfl

/-- The worker that moves is the only one. -/
theorem phase_set (hone : s.workers.length ≤ 1) (hw : s.workers[w]? = some x)
    (ht : t.workers = s.workers.set w x') :
    s.phase = x.phase w ∧ t.phase = x'.phase w := by
  have hlt := (List.getElem?_eq_some_iff.mp hw).1
  obtain rfl : w = 0 := by omega
  unfold State.phase
  rw [ht, hw, getElem?_set_of_some hw]
  exact ⟨rfl, rfl⟩

/-- A step with which no task is taken, begun or ended. -/
theorem server_same (hphase : t.phase = s.phase) (ht : t.taken = s.taken)
    (hpc : ∀ w choice x, a = .worker w choice → s.workers[w]? = some x →
      x.pc ≠ .run ∧ x.pc ≠ .running) :
    server (t, log ++ see s a t) = server (s, log) := by
  have hsilent : ∀ e ∈ see s a t, e.job = none := by
    intro e he
    rcases mem_see he with ⟨_, _, _, _, _, he⟩ | ⟨w, choice, x, ha, hx, he⟩ | ⟨_, _, _, _, _, he⟩
    · rw [(Push.mem_shows he).1]
      rfl
    · rcases Worker.mem_shows he with ⟨_, _, hrun, _⟩ | ⟨_, _, hrun, _⟩ | ⟨u, hu, _⟩
      · exact absurd hrun (hpc w choice x ha hx).1
      · exact absurd hrun (hpc w choice x ha hx).2
      · simp [ht] at hu
    · rcases CallerPc.mem_shows he with ⟨_, _, _, rfl, _⟩ | ⟨_, rfl, _⟩ | ⟨_, _, rfl⟩ <;> rfl
  unfold server
  simp only [hphase, filterMap_append_none hsilent]

/-- The same where the entry of the worker changes. -/
theorem server_set (hone : s.workers.length ≤ 1) (hw : s.workers[w]? = some x)
    (ht : t.workers = s.workers.set w x') (hphase : x'.phase w = x.phase w)
    (htaken : t.taken = s.taken)
    (hpc : ∀ v choice z, a = .worker v choice → s.workers[v]? = some z →
      z.pc ≠ .run ∧ z.pc ≠ .running) :
    server (t, log ++ see s a t) = server (s, log) := by
  obtain ⟨hs, ht⟩ := phase_set hone hw ht
  exact server_same (ht.trans (hphase.trans hs.symm)) htaken hpc

/-- The step of a worker that is neither at the beginning nor at the end of a task. -/
theorem server_goto {choice : Nat} (hone : s.workers.length ≤ 1) (hw : s.workers[w]? = some x)
    (hrun : x.pc ≠ .run) (hrunning : x.pc ≠ .running) (hphase : x'.phase w = x.phase w)
    (ht : t.workers = s.workers.set w x') (htaken : t.taken = s.taken) :
    server (t, log ++ see s (.worker w choice) t) = server (s, log) := by
  refine server_set hone hw ht hphase htaken fun v choice' z ha hz => ?_
  obtain ⟨rfl, _⟩ := Act.worker.inj ha
  obtain rfl := Option.some.inj (hw.symm.trans hz)
  exact ⟨hrun, hrunning⟩

theorem server_step (hone : t.workers.length ≤ 1) (hh : Handed s) (h : Moved kind s a t) :
    server (t, log ++ see s a t) = server (s, log) ∨
      ∃ y, Server.machine.step (server (s, log)) y = some (server (t, log ++ see s a t)) := by
  have hbefore : s.workers.length ≤ 1 := h.workers_length_le.trans hone
  cases h with
  | @take w x choice onTask onEmpty u queue hw hpc hpop =>
    have hhand := (hh w x hw).hand_eq_none (WorkerPc.hasTask_of_pops hpc).1
    obtain ⟨hs, ht⟩ := phase_set (t := { s.setWorker w { x with pc := onTask, hand := some u } with
      queue := queue, taken := (w, u) :: s.taken }) hbefore hw rfl
    rw [phase_of_none hhand] at hs
    rw [phase_of_hand rfl (by rcases (WorkerPc.of_pops hpc).1 with rfl | rfl <;> simp)] at ht
    refine .inr ⟨.take (w, u), ?_⟩
    cases hx : x.pc <;> simp [hx, WorkerPc.pops] at hpc <;>
      simp [server, hs, ht, Server.step_take, see, hw, Worker.shows, hx, Event.job]
  | @workerGoto w x pc choice hw hgo =>
    cases hgo with
    | run hpc =>
      obtain ⟨u, hu⟩ := (hh w x hw).exists_hand (by rw [hpc]; rfl)
      obtain ⟨hs, ht⟩ := phase_set (t := s.setWorker w { x with pc := .running }) hbefore hw rfl
      rw [phase_of_hand hu (by simp [hpc])] at hs
      rw [phase_of_running (x := { x with pc := .running }) hu rfl] at ht
      refine .inr ⟨.start, ?_⟩
      unfold server
      rw [hs, ht, see_run hw hpc, hu]
      simp [Server.step_start, Event.job]
    | init hpc | quit hpc _ | stay hpc _ | seenDone hpc _ | notDone hpc _ | seenFlag hpc _
    | notFlag hpc _ =>
      exact .inl (server_goto hbefore hw (by simp [hpc]) (by simp [hpc])
        (phase_of_not_running (by simp [hpc]) (by simp) w) rfl rfl)
  | @finish w x choice hw hpc =>
    obtain ⟨u, hu⟩ := (hh w x hw).exists_hand (by rw [hpc]; rfl)
    obtain ⟨hs, ht⟩ := phase_set (t := { s.setWorker w { x with pc := .testFlag, hand := none } with
      finished := x.hand.toList.map (fun t => (w, t)) ++ s.finished }) hbefore hw rfl
    rw [phase_of_running hu hpc] at hs
    rw [phase_of_none rfl] at ht
    refine .inr ⟨.finish, ?_⟩
    unfold server
    rw [hs, ht, see_running hw hpc, hu]
    simp [Server.step_finish, Event.job]
  | @takeNone w x _ onTask onEmpty hw hpc _ =>
    have hempty := (WorkerPc.hasTask_of_pops hpc).1
    have hrun : x.pc ≠ .run := fun hx => by simp [hx, WorkerPc.hasTask] at hempty
    have hrunning : x.pc ≠ .running := fun hx => by simp [hx, WorkerPc.hasTask] at hempty
    refine .inl (server_goto hbefore hw hrun hrunning (phase_of_not_running hrunning ?_ _) rfl rfl)
    rcases (WorkerPc.of_pops hpc).2 with rfl | rfl <;> simp
  | lock hw _ hpc =>
    rcases hpc with ⟨hpc, rfl, _⟩ | ⟨hpc, rfl, _⟩ <;>
      exact .inl (server_goto hbefore hw (by simp [hpc]) (by simp [hpc])
        (phase_of_not_running (by simp [hpc]) (by simp) _) rfl rfl)
  | unlock hw hpc =>
    rcases hpc with ⟨hpc, rfl, _⟩ | ⟨hpc, rfl, _⟩ | ⟨hpc, rfl, _⟩ <;>
      exact .inl (server_goto hbefore hw (by simp [hpc]) (by simp [hpc])
        (phase_of_not_running (by simp [hpc]) (by simp) _) rfl rfl)
  | wake hw hpc | notifyOne _ _ hw hpc =>
    exact .inl (server_set hbefore hw rfl (phase_of_not_running (by simp [hpc]) (by simp) _) rfl
      (by simp))
  | detach _ _ _ hw _ | joined _ _ hw _ =>
    exact .inl (server_set hbefore hw rfl rfl rfl (by simp))
  | notifyAll _ _ =>
    refine .inl (server_same ?_ rfl (by simp))
    unfold State.phase
    simp only [State.notifyAll, State.goto, State.setCaller, List.getElem?_map]
    cases s.workers[0]? with
    | none => rfl
    | some x => exact phase_unpark x 0
  | @growThread c x _ n i f h hpc _ _ =>
    -- the worker is the first
    have hnone : s.workers = [] := by
      refine List.eq_nil_of_length_eq_zero ?_
      simp only [List.length_append, List.length_singleton] at hone
      omega
    refine .inl (server_same ?_ rfl (by simp))
    simp [State.phase, hnone, Worker.phase]
  | _ => exact .inl (server_same rfl rfl (by simp))

/-- The one worker with its record is a server. -/
theorem simulates_server :
    ((machine kind).traced see).Simulates (Machine.lift OneWorker) Server.machine server := by
  refine Machine.traced_simulates (fun s₀ h₀ => ?_) fun hr hok hs => ?_
  · obtain ⟨n, rfl⟩ := h₀
    rfl
  · exact server_step (reachable_single (hr.next hok hs)) (reachable_handed hr) (moved_of_step hs)

end Worker

/-! ## The order of tasks -/

/-- The tasks workers took, in order. -/
def takenInOrder (log : List Event) : List (Nat × Task) :=
  (log.filterMap Event.job).filterMap Server.Event.taken

/-- The tasks workers began, in order. -/
def begunInOrder (log : List Event) : List (Nat × Task) :=
  (log.filterMap Event.job).filterMap Server.Event.started

section Jobs

variable {kind : QueueKind} {s : State} {log : List Event}

theorem mem_of_job {w : Nat} {u : Task} (h : Server.Event.ended (w, u) ∈ log.filterMap Event.job) :
    .ended w u ∈ log := by
  obtain ⟨e, he, hjob⟩ := List.mem_filterMap.mp h
  cases e <;> simp only [Event.job, Option.some.injEq, reduceCtorEq, Server.Event.ended.injEq,
    Prod.mk.injEq] at hjob
  obtain ⟨rfl, rfl⟩ := hjob
  exact he

theorem mem_takenInOrder {e : Nat × Task} :
    e ∈ takenInOrder log ↔ ∃ rest, .took e.1 e.2 rest ∈ log := by
  unfold takenInOrder
  simp only [List.mem_filterMap]
  constructor
  · rintro ⟨_, ⟨e', he', hjob⟩, htaken⟩
    cases e' <;> simp only [Event.job, Option.some.injEq, reduceCtorEq] at hjob <;>
      subst hjob <;> simp only [Server.Event.taken, Option.some.injEq, reduceCtorEq] at htaken
    subst htaken
    exact ⟨_, he'⟩
  · rintro ⟨rest, hmem⟩
    exact ⟨.took e, ⟨_, hmem, rfl⟩, rfl⟩

theorem mem_begunInOrder {w : Nat} {u : Task} (h : .began w u ∈ log) :
    (w, u) ∈ begunInOrder log :=
  List.mem_filterMap.mpr ⟨.began (w, u), List.mem_filterMap.mpr ⟨_, h, rfl⟩, rfl⟩

theorem begun_prefix
    (h : ((machine kind).traced see).Reachable (Machine.lift OneWorker) (s, log)) :
    takenInOrder log = begunInOrder log ++ s.phase.held :=
  Server.reachable_started (simulates_server.reachable h)

/-- A worker takes tasks in the order in which they leave the queue. -/
theorem taken_sublist (log : List Event) :
    ((takenInOrder log).map Prod.snd).Sublist (departed log) := by
  induction log with
  | nil => exact .slnil
  | cons e log ih =>
    cases e with
    | took w u rest => exact ih.cons_cons u
    | removed who u rest => exact ih.cons u
    | enqueued _ | began _ _ | ended _ _ | stored _ | notifiedAll _ => exact ih

theorem ended_between
    (h : ((machine kind).traced see).Reachable (Machine.lift OneWorker) (s, log))
    {pre mid post : List Event} {v w : Nat} {u z : Task}
    (heq : log = (pre ++ .began v u :: mid) ++ .began w z :: post) : .ended v u ∈ mid := by
  refine mem_of_job ?_
  refine Server.ended_between (simulates_server.reachable h) (pre.filterMap Event.job) _
    (post.filterMap Event.job) (v, u) (w, z) ?_
  simp [server, heq, List.filterMap_append, Event.job]

/-- What leaves a priority queue has no priority below that of anything left behind. -/
theorem priority_of_took
    (h : ((machine .priorityQueue).traced see).Reachable (Machine.lift OneWorker) (s, log))
    {w : Nat} {u : Task} {rest : List Task} (hmem : .took w u rest ∈ log) :
    ∀ z ∈ rest, z.priority ≤ u.priority := by
  intro z hz
  have hmax := Channel.reachable_maximal (fun _ _ hmax => hmax) (simulates_channel.reachable h)
    ⟨u, rest⟩ (List.mem_filterMap.mpr ⟨_, hmem, rfl⟩) z hz
  exact Int.not_lt.mp hmax

end Jobs

/-- A pool of one runs one task at a time and in the order of its queue. -/
theorem one_worker_in_order (kind : QueueKind) {s : State} {log : List Event}
    (h : ((machine kind).traced see).Reachable (Machine.lift OneWorker) (s, log)) :
    (∀ pre mid post v w u z, log = (pre ++ .began v u :: mid) ++ .began w z :: post →
      .ended v u ∈ mid) ∧
      (∃ held, held.length ≤ 1 ∧ takenInOrder log = begunInOrder log ++ held) ∧
      ((begunInOrder log).map Prod.snd).Sublist (departed log) ∧
      (kind = .queue → entered log = departed log ++ s.queue) ∧
      (kind = .priorityQueue → ∀ w u, .began w u ∈ log →
        ∃ rest, .took w u rest ∈ log ∧ ∀ z ∈ rest, z.priority ≤ u.priority) := by
  have hbegun := begun_prefix h
  refine ⟨fun pre mid post v w u z heq => ended_between h heq,
    ⟨_, s.phase.length_held, hbegun⟩, ?_, ?_, ?_⟩
  · refine .trans ?_ (taken_sublist log)
    rw [hbegun, List.map_append]
    exact List.sublist_append_left _ _
  · rintro rfl
    exact Channel.reachable_first (fun _ _ hi => hi) (simulates_channel.reachable h)
  · rintro rfl w u hbegan
    have htaken : (w, u) ∈ takenInOrder log := by
      rw [hbegun]
      exact List.mem_append_left _ (mem_begunInOrder hbegan)
    obtain ⟨rest, hmem⟩ := mem_takenInOrder.mp htaken
    exact ⟨rest, hmem, priority_of_took h hmem⟩

/-- Both tasks were in the queue when the worker took the first. -/
def orderly : State :=
  { threads := [some 0], flags := [some 0], cells := [false],
    workers := [{ flag := 0, pc := .running, hand := some ⟨0, 3⟩ }],
    pushes := [{ task := ⟨0, 3⟩, pc := .enqueued }, { task := ⟨1, 5⟩, pc := .enqueued }],
    callers := [{}], taken := [(0, ⟨0, 3⟩), (0, ⟨1, 5⟩)], finished := [(0, ⟨1, 5⟩)] }

def orderlyLog : List Event :=
  [.enqueued ⟨0, 3⟩, .enqueued ⟨1, 5⟩, .took 0 ⟨1, 5⟩ [⟨0, 3⟩], .began 0 ⟨1, 5⟩, .ended 0 ⟨1, 5⟩,
    .took 0 ⟨0, 3⟩ [], .began 0 ⟨0, 3⟩]

theorem orderly_reachable :
    ((machine .priorityQueue).traced see).Reachable (Machine.lift OneWorker)
      (orderly, orderlyLog) :=
  Machine.reachable_of_exec (s := (start 1, []))
    (List.flatten [construct 1, [.push 3, .pushStep 0 none, .push 5, .pushStep 1 none, .worker 0 0,
      .worker 0 1], List.replicate 5 (.worker 0 0)])
    ⟨⟨1, rfl⟩, rfl⟩ (by decide)

theorem one_worker_in_order_orderly :
    ∃ rest, .took 0 ⟨1, 5⟩ rest ∈ orderlyLog ∧ ∀ z ∈ rest, z.priority ≤ 5 :=
  (one_worker_in_order .priorityQueue orderly_reachable).2.2.2.2 rfl 0 ⟨1, 5⟩ (by decide)

end ThreadPool
end TryAndLearn
