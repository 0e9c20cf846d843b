import TryAndLearn.ThreadPool.Conservation

/-!
# What `mutex_` protects

`mutex_` does not protect `task_q_`: `Push` enqueues before it locks.  What it does is
stop a `Push` between its enqueue and its notification while a worker looks at its
predicate.  So when a worker has found the queue empty and is about to park or to
leave, whatever is in the queue by then was enqueued since, and its `Push` has not yet
got the lock (`Seen`).
-/

namespace TryAndLearn
namespace ThreadPool

/-! ## Ownership -/

def WorkerPc.locks : WorkerPc → Bool
  | .predPop _ | .predDone | .predFlag | .park | .haveTask | .leave => true
  | _ => false

def PushPc.locks : PushPc → Bool
  | .locked | .notified => true
  | _ => false

def CallerPc.locks : CallerPc → Bool
  | .shrinkNotify _ | .shrinkUnlock _ => true
  | _ => false

/-- The program counter of the thread lies between its lock and its unlock. -/
def State.Locks (s : State) : Owner → Prop
  | .worker w => ∃ x, s.workers[w]? = some x ∧ x.pc.locks = true
  | .push p => ∃ x, s.pushes[p]? = some x ∧ x.pc.locks = true
  | .caller c => ∃ x, s.callers[c]? = some x ∧ x.pc.locks = true

def Owned (s : State) : Prop := ∀ o, s.Locks o → s.mutex = some o

section Ownership

variable {s t : State} {o me : Owner}

theorem Owned.keep (hs : Owned s) (hm : t.mutex = s.mutex) (h : ∀ o, t.Locks o → s.Locks o) :
    Owned t :=
  fun o ho => hm.trans (hs o (h o ho))

theorem Owned.acquire (hs : Owned s) (hfree : s.mutex = none) (hm : t.mutex = some me)
    (h : ∀ o, t.Locks o → o = me ∨ s.Locks o) : Owned t := by
  intro o ho
  rcases h o ho with rfl | ho
  · exact hm
  · exact absurd (hfree.symm.trans (hs o ho)) (by simp)

theorem Owned.release (hs : Owned s) (me : Owner) (hme : s.Locks me)
    (h : ∀ o, t.Locks o → o ≠ me ∧ s.Locks o) : Owned t := by
  intro o ho
  obtain ⟨hne, ho⟩ := h o ho
  exact absurd (Option.some.inj ((hs o ho).symm.trans (hs me hme))) hne

theorem locks_setWorker {w : Nat} {x' : Worker} (ho : t.Locks o)
    (hw : t.workers = s.workers.set w x') (hp : t.pushes = s.pushes)
    (hc : t.callers = s.callers) :
    (o = .worker w ∧ x'.pc.locks = true) ∨ (o ≠ .worker w ∧ s.Locks o) := by
  cases o with
  | worker v =>
    obtain ⟨y, hy, hl⟩ := ho
    rw [hw] at hy
    rcases getElem?_set_cases hy with ⟨rfl, rfl⟩ | ⟨hne, hy⟩
    · exact .inl ⟨rfl, hl⟩
    · exact .inr ⟨by simpa using hne, y, hy, hl⟩
  | push p => exact .inr ⟨by simp, by simpa only [State.Locks, hp] using ho⟩
  | caller c => exact .inr ⟨by simp, by simpa only [State.Locks, hc] using ho⟩

theorem locks_setPush {p : Nat} {x' : Push} (ho : t.Locks o) (hw : t.workers = s.workers)
    (hp : t.pushes = s.pushes.set p x') (hc : t.callers = s.callers) :
    (o = .push p ∧ x'.pc.locks = true) ∨ (o ≠ .push p ∧ s.Locks o) := by
  cases o with
  | worker w => exact .inr ⟨by simp, by simpa only [State.Locks, hw] using ho⟩
  | push q =>
    obtain ⟨y, hy, hl⟩ := ho
    rw [hp] at hy
    rcases getElem?_set_cases hy with ⟨rfl, rfl⟩ | ⟨hne, hy⟩
    · exact .inl ⟨rfl, hl⟩
    · exact .inr ⟨by simpa using hne, y, hy, hl⟩
  | caller c => exact .inr ⟨by simp, by simpa only [State.Locks, hc] using ho⟩

theorem locks_setCaller {c : Nat} {x' : Caller} (ho : t.Locks o) (hw : t.workers = s.workers)
    (hp : t.pushes = s.pushes) (hc : t.callers = s.callers.set c x') :
    (o = .caller c ∧ x'.pc.locks = true) ∨ (o ≠ .caller c ∧ s.Locks o) := by
  cases o with
  | worker w => exact .inr ⟨by simp, by simpa only [State.Locks, hw] using ho⟩
  | push p => exact .inr ⟨by simp, by simpa only [State.Locks, hp] using ho⟩
  | caller d =>
    obtain ⟨y, hy, hl⟩ := ho
    rw [hc] at hy
    rcases getElem?_set_cases hy with ⟨rfl, rfl⟩ | ⟨hne, hy⟩
    · exact .inl ⟨rfl, hl⟩
    · exact .inr ⟨by simpa using hne, y, hy, hl⟩

/-! A thread that keeps the lock, or stays without it, keeps the owner. -/

theorem Owned.setWorker {w : Nat} {x x' : Worker} (hs : Owned s) (h : s.workers[w]? = some x)
    (hm : t.mutex = s.mutex) (hw : t.workers = s.workers.set w x') (hp : t.pushes = s.pushes)
    (hc : t.callers = s.callers) (hl : x'.pc.locks = x.pc.locks) : Owned t := by
  refine hs.keep hm fun o ho => ?_
  rcases locks_setWorker ho hw hp hc with ⟨rfl, hx⟩ | ⟨_, ho⟩
  · exact ⟨x, h, hl ▸ hx⟩
  · exact ho

theorem Owned.setPush {p : Nat} {x x' : Push} (hs : Owned s) (h : s.pushes[p]? = some x)
    (hm : t.mutex = s.mutex) (hw : t.workers = s.workers) (hp : t.pushes = s.pushes.set p x')
    (hc : t.callers = s.callers) (hl : x'.pc.locks = x.pc.locks) : Owned t := by
  refine hs.keep hm fun o ho => ?_
  rcases locks_setPush ho hw hp hc with ⟨rfl, hx⟩ | ⟨_, ho⟩
  · exact ⟨x, h, hl ▸ hx⟩
  · exact ho

theorem Owned.setCaller {c : Nat} {x x' : Caller} (hs : Owned s) (h : s.callers[c]? = some x)
    (hm : t.mutex = s.mutex) (hw : t.workers = s.workers) (hp : t.pushes = s.pushes)
    (hc : t.callers = s.callers.set c x') (hl : x'.pc.locks = x.pc.locks) : Owned t := by
  refine hs.keep hm fun o ho => ?_
  rcases locks_setCaller ho hw hp hc with ⟨rfl, hx⟩ | ⟨_, ho⟩
  · exact ⟨x, h, hl ▸ hx⟩
  · exact ho

end Ownership

theorem WorkerGoto.locks_eq {s : State} {x : Worker} {pc : WorkerPc} (h : WorkerGoto s x pc) :
    pc.locks = x.pc.locks := by
  cases h with
  | init h | run h | quit h _ | stay h _ | seenDone h _ | notDone h _ | seenFlag h _
  | notFlag h _ => rw [h]; rfl

theorem WorkerPc.locks_of_pops {pc onTask onEmpty : WorkerPc}
    (h : pc.pops = some (onTask, onEmpty)) :
    onTask.locks = pc.locks ∧ onEmpty.locks = pc.locks := by
  cases pc <;> simp only [WorkerPc.pops, Option.some.injEq, Prod.mk.injEq, reduceCtorEq] at h <;>
    obtain ⟨rfl, rfl⟩ := h <;> exact ⟨rfl, rfl⟩

theorem CallerGoto.locks_eq {s : State} {pc pc' : CallerPc} (h : CallerGoto s pc pc') :
    pc'.locks = pc.locks := by
  cases h <;> subst pc <;> rfl

theorem CallerPc.not_locks_of_removes {pc onTask onEmpty : CallerPc} {who : Remover}
    (h : pc.removes = some (who, onTask, onEmpty)) :
    pc.locks = false ∧ onTask.locks = false ∧ onEmpty.locks = false := by
  cases pc <;> simp only [CallerPc.removes, Option.some.injEq, Prod.mk.injEq, reduceCtorEq] at h <;>
    obtain ⟨_, rfl, rfl⟩ := h <;> exact ⟨rfl, rfl, rfl⟩

theorem Op.not_locks_entry (op : Op) : op.entry.locks = false := by
  cases op with
  | stop wait => cases wait <;> rfl
  | _ => rfl

theorem Worker.locks_unpark (x : Worker) : x.unpark.pc.locks = x.pc.locks := by
  unfold Worker.unpark
  split
  · rename_i h
    rw [h]
    rfl
  · rfl

theorem owned_step {kind : QueueKind} {s t : State} {a : Act} (h : Moved kind s a t)
    (hs : Owned s) : Owned t := by
  cases h with
  | push =>
    refine hs.keep rfl fun o ho => ?_
    cases o with
    | worker w | caller c => exact ho
    | push p =>
      obtain ⟨y, hy, hl⟩ := ho
      rcases getElem?_append_cases hy with ⟨_, rfl⟩ | hy
      · exact absurd hl Bool.false_ne_true
      · exact ⟨y, hy, hl⟩
  | enqueue h hpc | notifyNobody h hpc _ =>
    exact hs.setPush h rfl rfl rfl rfl (by rw [hpc]; rfl)
  | @pushLock p x _ h hpc hfree =>
    refine hs.acquire hfree rfl fun o ho => ?_
    rcases locks_setPush (s := s) ho rfl rfl rfl with ⟨rfl, _⟩ | ⟨_, ho⟩
    · exact .inl rfl
    · exact .inr ho
  | @notifyOne p x w y h hpc hw hparked =>
    have hmid : Owned (s.setPush p { x with pc := .notified }) :=
      hs.setPush h rfl rfl rfl rfl (by rw [hpc]; rfl)
    exact hmid.setWorker hw rfl rfl rfl rfl (by rw [hparked]; rfl)
  | @pushReturn p x _ h hpc =>
    refine hs.release (.push p) ⟨x, h, by rw [hpc]; rfl⟩ fun o ho => ?_
    rcases locks_setPush (s := s) ho rfl rfl rfl with ⟨_, hl⟩ | ho
    · exact absurd hl Bool.false_ne_true
    · exact ho
  | workerGoto h hgo => exact hs.setWorker h rfl rfl rfl rfl hgo.locks_eq
  | take h hpc _ => exact hs.setWorker h rfl rfl rfl rfl (WorkerPc.locks_of_pops hpc).1
  | takeNone h hpc _ => exact hs.setWorker h rfl rfl rfl rfl (WorkerPc.locks_of_pops hpc).2
  | finish h hpc => exact hs.setWorker h rfl rfl rfl rfl (by rw [hpc]; rfl)
  | wake h hpc => exact hs.setWorker h rfl rfl rfl rfl (by rw [hpc]; rfl)
  | @lock w x _ pc n h hfree hpc =>
    refine hs.acquire hfree rfl fun o ho => ?_
    rcases locks_setWorker (s := s) ho rfl rfl rfl with ⟨rfl, _⟩ | ⟨_, ho⟩
    · exact .inl rfl
    · exact .inr ho
  | @unlock w x _ pc n h hpc =>
    have hold : x.pc.locks = true ∧ pc.locks = false := by
      rcases hpc with ⟨hpc, rfl, _⟩ | ⟨hpc, rfl, _⟩ | ⟨hpc, rfl, _⟩ <;> rw [hpc] <;>
        exact ⟨rfl, rfl⟩
    refine hs.release (.worker w) ⟨x, h, hold.1⟩ fun o ho => ?_
    rcases locks_setWorker (s := s) ho rfl rfl rfl with ⟨_, hl⟩ | ho
    · exact absurd (hold.2.symm.trans hl) (by decide)
    · exact ho
  | @call c x op h hpc =>
    refine hs.setCaller h rfl rfl rfl rfl ?_
    rw [op.not_locks_entry]
    rcases hpc with hpc | hpc <;> rw [hpc] <;> rfl
  | callerGoto h hgo => exact hs.setCaller h rfl rfl rfl rfl hgo.locks_eq
  | remove h hpc _ =>
    obtain ⟨hfrom, hto, _⟩ := CallerPc.not_locks_of_removes hpc
    exact hs.setCaller h rfl rfl rfl rfl (hto.trans hfrom.symm)
  | removeNone h hpc _ =>
    obtain ⟨hfrom, _, hto⟩ := CallerPc.not_locks_of_removes hpc
    exact hs.setCaller h rfl rfl rfl rfl (hto.trans hfrom.symm)
  | grow h hpc _ | growFlag h hpc _ _ | shrinkErase h hpc | setDone h hpc | setStop h hpc
  | join h hpc _ _ _ | stopErase h hpc =>
    exact hs.setCaller h rfl rfl rfl rfl (by rw [hpc]; rfl)
  | setFlag h hpc _ =>
    refine hs.setCaller h rfl rfl rfl rfl ?_
    rcases hpc with ⟨_, hpc, _, rfl⟩ | ⟨_, hpc, _, rfl⟩ <;> rw [hpc] <;> rfl
  | @growThread c x _ n i f h hpc _ _ =>
    have hmid : Owned (s.goto c x (.growFlag n (i + 1))) :=
      hs.setCaller h rfl rfl rfl rfl (by rw [hpc]; rfl)
    refine hmid.keep rfl fun o ho => ?_
    cases o with
    | worker w =>
      obtain ⟨y, hy, hl⟩ := ho
      rcases getElem?_append_cases hy with ⟨_, rfl⟩ | hy
      · exact absurd hl Bool.false_ne_true
      · exact ⟨y, hy, hl⟩
    | push p | caller c => exact ho
  | @detach c x _ n i w y h hpc _ hw _ =>
    have hmid : Owned (s.goto c x (.shrinkFlag n (sizeDec i))) :=
      hs.setCaller h rfl rfl rfl rfl (by rw [hpc]; rfl)
    exact hmid.setWorker hw rfl rfl rfl rfl rfl
  | @joined c x _ i w y h hpc hw _ =>
    have hmid : Owned (s.goto c x (.stopJoin (i + 1))) :=
      hs.setCaller h rfl rfl rfl rfl (by rw [hpc]; rfl)
    exact hmid.setWorker hw rfl rfl rfl rfl rfl
  | @shrinkLock c x _ n h hpc hfree =>
    refine hs.acquire hfree rfl fun o ho => ?_
    rcases locks_setCaller (s := s) ho rfl rfl rfl with ⟨rfl, _⟩ | ⟨_, ho⟩
    · exact .inl rfl
    · exact .inr ho
  | @notifyAll c x _ pc h hpc =>
    have hmid : Owned (s.goto c x pc) := by
      refine hs.setCaller h rfl rfl rfl rfl ?_
      rcases hpc with ⟨_, hpc, rfl⟩ | ⟨hpc, rfl⟩ <;> rw [hpc] <;> rfl
    refine hmid.keep rfl fun o ho => ?_
    cases o with
    | worker w =>
      obtain ⟨y, hy, hl⟩ := ho
      obtain ⟨x, hx, rfl⟩ : ∃ x, s.workers[w]? = some x ∧ x.unpark = y := by
        simpa [State.notifyAll, State.goto, State.setCaller] using hy
      exact ⟨x, hx, x.locks_unpark ▸ hl⟩
    | push p | caller c => exact ho
  | @shrinkUnlock c x _ n h hpc =>
    refine hs.release (.caller c) ⟨x, h, by rw [hpc]; rfl⟩ fun o ho => ?_
    rcases locks_setCaller (s := s) ho rfl rfl rfl with ⟨_, hl⟩ | ho
    · exact absurd hl Bool.false_ne_true
    · exact ho

theorem reachable_owned {kind : QueueKind} {ok : State → Act → Prop} {s : State}
    (h : (machine kind).Reachable ok s) : Owned s := by
  refine h.invariant (fun s₀ h₀ => ?_) fun _ _ hs ho => owned_step (moved_of_step hs) ho
  obtain ⟨n, rfl⟩ := h₀
  intro o ho
  cases o with
  | worker w | push p =>
    obtain ⟨x, hx, _⟩ := ho
    simp [start] at hx
  | caller c =>
    obtain ⟨x, hx, hl⟩ := ho
    obtain rfl := (List.mem_replicate.mp (List.mem_of_getElem? hx)).2
    exact absurd hl Bool.false_ne_true

/-! ## An empty queue seen under the lock -/

/-- The worker has found the queue empty in its predicate and not yet let go of the
lock. -/
def WorkerPc.sawEmpty : WorkerPc → Bool
  | .predDone | .predFlag | .park => true
  | _ => false

theorem WorkerPc.locks_of_sawEmpty {pc : WorkerPc} (h : pc.sawEmpty = true) :
    pc.locks = true := by
  cases pc <;> first | rfl | exact absurd h (by decide)

theorem WorkerPc.not_sawEmpty_of_hasTask {pc : WorkerPc} (h : pc.hasTask = true) :
    pc.sawEmpty = false := by
  cases pc <;> first | rfl | exact absurd h (by decide)

/-- A worker sees an empty queue by its own `TryPop` only. -/
theorem WorkerStep.sawEmpty {s : State} {x y : Worker} (h : WorkerStep s x y)
    (hy : y.pc.sawEmpty = true) : x.pc.sawEmpty = true ∨ s.queue = [] := by
  cases h with
  | same | release => exact .inl hy
  | takeNone _ hempty => exact .inr hempty
  | goto hgo =>
    cases hgo with
    | notDone h _ | notFlag h _ => exact .inl (by rw [h]; rfl)
    | _ => exact absurd hy Bool.false_ne_true
  | take hpc =>
    have hto := WorkerPc.not_sawEmpty_of_hasTask (WorkerPc.hasTask_of_pops hpc).2.1
    exact absurd (hto.symm.trans hy) Bool.false_ne_true
  | _ => exact absurd hy Bool.false_ne_true

/-- A task is in the queue already or its `Push` has just enqueued it. -/
theorem Moved.queue_prev {kind : QueueKind} {s t : State} {a : Act} (h : Moved kind s a t)
    {u : Task} (hu : u ∈ t.queue) :
    u ∈ s.queue ∨
      ∃ (p : Nat) (y : Push), t.pushes[p]? = some y ∧ y.pc = .enqueued ∧ y.task = u := by
  cases h with
  | @enqueue p x _ h hpc =>
    rcases List.mem_append.mp hu with hu | hu
    · exact .inl hu
    · obtain rfl := List.mem_singleton.mp hu
      exact .inr ⟨p, { x with pc := .enqueued }, getElem?_set_of_some h _, rfl, rfl⟩
  | take _ _ hfront | remove _ _ hfront =>
    have hperm := ThreadSafeQueue.perm_of_getFrontAndPop hfront
    exact .inl (hperm.mem_iff.mpr (List.mem_cons_of_mem _ hu))
  | _ => exact .inl hu

/-- While a worker acts on an empty queue, what is in the queue was enqueued by calls of
`Push` that have yet to lock `mutex_`. -/
def Seen (s : State) : Prop :=
  ∀ (w : Nat) (x : Worker), s.workers[w]? = some x → x.pc.sawEmpty = true →
    ∀ u ∈ s.queue, ∃ y, s.pushes[u.func]? = some y ∧ y.pc = .enqueued

theorem seen_step {kind : QueueKind} {s t : State} {a : Act} (ho : Owned s) (hn : Numbered t)
    (h : Moved kind s a t) (hs : Seen s) : Seen t := by
  intro w y hy hsaw u hu
  rcases h.queue_prev hu with hu | ⟨p, z, hz, hpc, rfl⟩
  · rcases h.worker_prev hy with ⟨x, hx, hstep⟩ | ⟨_, f, rfl⟩
    · rcases hstep.sawEmpty hsaw with hsaw | hempty
      · obtain ⟨z, hz, hpc⟩ := hs w x hx hsaw u hu
        obtain ⟨z', hz', hpush⟩ := h.push_next hz
        refine ⟨z', hz', ?_⟩
        cases hpush with
        | same => exact hpc
        | lock _ hfree =>
          -- the worker holds `mutex_`
          have hown := ho (.worker w) ⟨x, hx, WorkerPc.locks_of_sawEmpty hsaw⟩
          exact absurd (hfree.symm.trans hown) (by simp)
        | enqueue _ => rfl
        | notify h | ret h => exact absurd (hpc.symm.trans h) (by decide)
      · rw [hempty] at hu
        simp at hu
    · exact absurd hsaw Bool.false_ne_true
  · have hp := hn p z hz
    exact ⟨z, hp ▸ hz, hpc⟩

theorem reachable_seen {kind : QueueKind} {ok : State → Act → Prop} {s : State}
    (h : (machine kind).Reachable ok s) : Seen s := by
  refine h.invariant (fun s₀ h₀ => ?_) fun hr hok hs hseen =>
    seen_step (reachable_owned hr) (reachable_numbered (hr.next hok hs)) (moved_of_step hs) hseen
  obtain ⟨n, rfl⟩ := h₀
  intro w x hw
  simp [start] at hw

end ThreadPool
end TryAndLearn
