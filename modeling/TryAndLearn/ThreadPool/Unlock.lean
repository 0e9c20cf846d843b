import TryAndLearn.ThreadPool.Mutex
import TryAndLearn.ThreadPool.Vectors

/-!
# `mutex_` is let go of

Whoever owns `mutex_` stands between its lock and its unlock, and nothing it does there
waits for another thread: the sections of `mutex_` are a predicate evaluated once and a
notification.  So from every state in which a worker or a `Push` owns `mutex_` a run of
that thread alone gives it back.
-/

namespace TryAndLearn
namespace ThreadPool

open ThreadSafeQueue (tryPop getFrontAndPop)

/-! ## The owner stands in its section -/

def Held (s : State) : Prop := ∀ o, s.mutex = some o → s.Locks o

section Owner

variable {kind : QueueKind} {s t : State} {a : Act}

theorem Held.keep (hs : Held s) (hm : t.mutex = s.mutex) (h : ∀ o, s.Locks o → t.Locks o) :
    Held t :=
  fun o ho => h o (hs o (hm ▸ ho))

/-! A thread that keeps the lock, or stays without it, stays where its owner is.  The step
is read backwards, as one that puts the old entry back. -/

theorem Held.setWorker {w : Nat} {x x' : Worker} (hs : Held s) (h : s.workers[w]? = some x)
    (hm : t.mutex = s.mutex) (hw : t.workers = s.workers.set w x') (hp : t.pushes = s.pushes)
    (hc : t.callers = s.callers) (hl : x'.pc.locks = x.pc.locks) : Held t := by
  refine hs.keep hm fun o ho => ?_
  have hback : s.workers = t.workers.set w x := by rw [hw, set_set_of_some h]
  rcases locks_setWorker ho hback hp.symm hc.symm with ⟨rfl, hx⟩ | ⟨_, ho⟩
  · exact ⟨x', hw ▸ getElem?_set_of_some h x', hl.trans hx⟩
  · exact ho

theorem Held.setPush {p : Nat} {x x' : Push} (hs : Held s) (h : s.pushes[p]? = some x)
    (hm : t.mutex = s.mutex) (hw : t.workers = s.workers) (hp : t.pushes = s.pushes.set p x')
    (hc : t.callers = s.callers) (hl : x'.pc.locks = x.pc.locks) : Held t := by
  refine hs.keep hm fun o ho => ?_
  have hback : s.pushes = t.pushes.set p x := by rw [hp, set_set_of_some h]
  rcases locks_setPush ho hw.symm hback hc.symm with ⟨rfl, hx⟩ | ⟨_, ho⟩
  · exact ⟨x', hp ▸ getElem?_set_of_some h x', hl.trans hx⟩
  · exact ho

theorem Held.setCaller {c : Nat} {x x' : Caller} (hs : Held s) (h : s.callers[c]? = some x)
    (hm : t.mutex = s.mutex) (hw : t.workers = s.workers) (hp : t.pushes = s.pushes)
    (hc : t.callers = s.callers.set c x') (hl : x'.pc.locks = x.pc.locks) : Held t := by
  refine hs.keep hm fun o ho => ?_
  have hback : s.callers = t.callers.set c x := by rw [hc, set_set_of_some h]
  rcases locks_setCaller ho hw.symm hp.symm hback with ⟨rfl, hx⟩ | ⟨_, ho⟩
  · exact ⟨x', hc ▸ getElem?_set_of_some h x', hl.trans hx⟩
  · exact ho

/-- More threads. -/
theorem Held.append (hs : Held s) (hm : t.mutex = s.mutex) (ws : List Worker) (ps : List Push)
    (hw : t.workers = s.workers ++ ws) (hp : t.pushes = s.pushes ++ ps)
    (hc : t.callers = s.callers) : Held t := by
  refine hs.keep hm fun o ho => ?_
  cases o with
  | worker w =>
    obtain ⟨y, hy, hlocks⟩ := ho
    exact ⟨y, by rwa [hw, List.getElem?_append_left (List.getElem?_eq_some_iff.mp hy).1], hlocks⟩
  | push p =>
    obtain ⟨y, hy, hlocks⟩ := ho
    exact ⟨y, by rwa [hp, List.getElem?_append_left (List.getElem?_eq_some_iff.mp hy).1], hlocks⟩
  | caller c => simpa only [State.Locks, hc] using ho

theorem held_step (h : Moved kind s a t) (hs : Held s) : Held t := by
  have hnone {t : State} (hm : t.mutex = none) : Held t :=
    fun o ho => absurd (hm.symm.trans ho) (by simp)
  cases h with
  | push => exact hs.append rfl [] _ (List.append_nil _).symm rfl rfl
  | enqueue h hpc | notifyNobody h hpc _ =>
    exact hs.setPush h rfl rfl rfl rfl (by rw [hpc]; rfl)
  | @pushLock p x _ h hpc hfree =>
    intro o ho
    obtain rfl := Option.some.inj ho
    exact ⟨_, getElem?_set_of_some h _, rfl⟩
  | @notifyOne p x w y h hpc hw hparked =>
    have hmid : Held (s.setPush p { x with pc := .notified }) :=
      hs.setPush h rfl rfl rfl rfl (by rw [hpc]; rfl)
    exact hmid.setWorker hw rfl rfl rfl rfl (by rw [hparked]; rfl)
  | pushReturn _ _ | unlock _ _ | shrinkUnlock _ _ => exact hnone rfl
  | workerGoto h hgo => exact hs.setWorker h rfl rfl rfl rfl hgo.locks_eq
  | take h hpc _ => exact hs.setWorker h rfl rfl rfl rfl (WorkerPc.locks_of_pops hpc).1
  | takeNone h hpc _ => exact hs.setWorker h rfl rfl rfl rfl (WorkerPc.locks_of_pops hpc).2
  | finish h hpc => exact hs.setWorker h rfl rfl rfl rfl (by rw [hpc]; rfl)
  | wake h hpc => exact hs.setWorker h rfl rfl rfl rfl (by rw [hpc]; rfl)
  | @lock w x _ pc n h hfree hpc =>
    intro o ho
    obtain rfl := Option.some.inj ho
    refine ⟨_, getElem?_set_of_some h _, ?_⟩
    rcases hpc with ⟨_, rfl, _⟩ | ⟨_, rfl, _⟩ <;> rfl
  | @call c x op h hpc =>
    refine hs.setCaller h rfl rfl rfl rfl ?_
    rw [op.not_locks_entry]
    rcases hpc with hpc | hpc <;> rw [hpc] <;> rfl
  | callerGoto h hgo => exact hs.setCaller h rfl rfl rfl rfl hgo.locks_eq
  | remove h hpc _ =>
    obtain ⟨hfrom, hto, _⟩ := CallerPc.not_locks_of_removes hpc
    exact hs.setCaller h rfl rfl rfl rfl (hto.trans hfrom.symm)
  | removeNone h hpc _ =>
    obtain ⟨hfrom, _, hto⟩ := CallerPc.not_locks_of_removes hpc
    exact hs.setCaller h rfl rfl rfl rfl (hto.trans hfrom.symm)
  | grow h hpc _ | growFlag h hpc _ _ | shrinkErase h hpc | setDone h hpc | setStop h hpc
  | join h hpc _ _ _ | stopErase h hpc =>
    exact hs.setCaller h rfl rfl rfl rfl (by rw [hpc]; rfl)
  | setFlag h hpc _ =>
    refine hs.setCaller h rfl rfl rfl rfl ?_
    rcases hpc with ⟨_, hpc, _, rfl⟩ | ⟨_, hpc, _, rfl⟩ <;> rw [hpc] <;> rfl
  | @growThread c x _ n i f h hpc _ _ =>
    have hmid : Held (s.goto c x (.growFlag n (i + 1))) :=
      hs.setCaller h rfl rfl rfl rfl (by rw [hpc]; rfl)
    exact hmid.append rfl _ [] rfl (List.append_nil _).symm rfl
  | @detach c x _ n i w y h hpc _ hw _ =>
    have hmid : Held (s.goto c x (.shrinkFlag n (sizeDec i))) :=
      hs.setCaller h rfl rfl rfl rfl (by rw [hpc]; rfl)
    exact hmid.setWorker hw rfl rfl rfl rfl rfl
  | @joined c x _ i w y h hpc hw _ =>
    have hmid : Held (s.goto c x (.stopJoin (i + 1))) :=
      hs.setCaller h rfl rfl rfl rfl (by rw [hpc]; rfl)
    exact hmid.setWorker hw rfl rfl rfl rfl rfl
  | @shrinkLock c x _ n h hpc hfree =>
    intro o ho
    obtain rfl := Option.some.inj ho
    exact ⟨_, getElem?_set_of_some h _, rfl⟩
  | @notifyAll c x _ pc h hpc =>
    have hmid : Held (s.goto c x pc) := by
      refine hs.setCaller h rfl rfl rfl rfl ?_
      rcases hpc with ⟨_, hpc, rfl⟩ | ⟨hpc, rfl⟩ <;> rw [hpc] <;> rfl
    intro o ho
    have hold := hmid o ho
    cases o with
    | worker w =>
      obtain ⟨y, hy, hlocks⟩ := hold
      refine ⟨y.unpark, ?_, y.locks_unpark.trans hlocks⟩
      simp [State.notifyAll, hy]
    | push p | caller c => exact hold

theorem reachable_held {ok : State → Act → Prop} (h : (machine kind).Reachable ok s) :
    Held s := by
  refine h.invariant (fun s₀ h₀ => ?_) fun _ _ hs hI => held_step (moved_of_step hs) hI
  obtain ⟨n, rfl⟩ := h₀
  exact fun o ho => absurd ho (by simp [start])

end Owner

/-! ## The rest of a section -/

section Sections

variable {kind : QueueKind} {s : State}

theorem exists_maximal : ∀ {q : List Task}, q ≠ [] → ∃ (i : Nat) (u : Task),
    q[i]? = some u ∧ ThreadSafeQueue.Maximal u q
  | [u], _ => by
    refine ⟨0, u, rfl, fun y hy => ?_⟩
    obtain rfl := List.mem_singleton.mp hy
    exact Int.lt_irrefl _
  | u :: v :: q, _ => by
    obtain ⟨i, z, hz, hmax⟩ := exists_maximal (List.cons_ne_nil v q)
    rcases Int.lt_or_le z.priority u.priority with hlt | hle
    · refine ⟨0, u, rfl, fun y hy => ?_⟩
      rcases List.mem_cons.mp hy with rfl | hy
      · exact Int.lt_irrefl _
      · have hyz : ¬ z.priority < y.priority := hmax y hy
        show ¬ u.priority < y.priority
        omega
    · refine ⟨i + 1, z, hz, fun y hy => ?_⟩
      rcases List.mem_cons.mp hy with rfl | hy
      · exact Int.not_lt.mpr hle
      · exact hmax y hy

/-- A `TryPop` always returns. -/
theorem exists_tryPop (kind : QueueKind) (q : List Task) :
    ∃ choice r, tryPop kind choice q = some r := by
  unfold tryPop
  by_cases hq : q = []
  · exact ⟨0, (none, q), if_pos hq⟩
  · simp only [if_neg hq, Option.map_eq_some_iff]
    cases kind with
    | queue =>
      obtain ⟨u, rest, rfl⟩ := List.exists_cons_of_ne_nil hq
      exact ⟨0, _, (u, rest), rfl, rfl⟩
    | priorityQueue =>
      obtain ⟨i, u, hi, hmax⟩ := exists_maximal hq
      exact ⟨i, _, (u, q.eraseIdx i), by simp [getFrontAndPop, hi, hmax], rfl⟩

/-- How many steps a worker is from its unlock. -/
def WorkerPc.toUnlock : WorkerPc → Nat
  | .predPop _ => 4
  | .predDone => 3
  | .predFlag => 2
  | .park | .haveTask | .leave => 1
  | _ => 0

/-- The step of a thread that is neither in `Resize` nor in `Stop`. -/
def Threads (_ : State) (a : Act) : Prop := a.isCaller = false

variable (kind) in
/-- In its section a worker can always move, and gets nearer to its unlock. -/
theorem worker_advances {w : Nat} {x : Worker} (hw : s.workers[w]? = some x)
    (hl : x.pc.locks = true) :
    ∃ choice t, step kind s (.worker w choice) = some t ∧
      (t.mutex = none ∨ ∃ y, t.workers[w]? = some y ∧ y.pc.locks = true ∧
        y.pc.toUnlock < x.pc.toUnlock) := by
  have hstep (choice : Nat) : step kind s (.worker w choice) = s.workerStep kind w x choice := by
    simp [step, hw]
  have hset (y : Worker) : (s.setWorker w y).workers[w]? = some y := getElem?_set_of_some hw y
  cases hpc : x.pc <;> rw [hpc] at hl <;> try exact absurd hl Bool.false_ne_true
  case predPop b =>
    obtain ⟨choice, ⟨r, queue⟩, hpop⟩ := exists_tryPop kind s.queue
    refine ⟨choice, ?_⟩
    rw [hstep]
    simp only [State.workerStep, hpc, State.workerPop, hpop, Option.map_some, Option.some.injEq,
      exists_eq_left']
    right
    cases r with
    | none => exact ⟨_, hset _, rfl, by simp [WorkerPc.toUnlock]⟩
    | some u => exact ⟨_, hset _, rfl, by simp [WorkerPc.toUnlock]⟩
  case predDone | predFlag =>
    refine ⟨0, ?_⟩
    rw [hstep]
    simp only [State.workerStep, hpc, Option.some.injEq, exists_eq_left']
    refine .inr ⟨_, hset _, ?_, ?_⟩
    · split <;> rfl
    · simp only
      split <;> simp [WorkerPc.toUnlock]
  case park | haveTask | leave =>
    refine ⟨0, ?_⟩
    rw [hstep]
    simp only [State.workerStep, hpc, Option.some.injEq, exists_eq_left']
    exact .inl rfl

theorem worker_unlocks {w : Nat} {x : Worker} (hw : s.workers[w]? = some x)
    (hl : x.pc.locks = true) : ∃ t, (machine kind).Run Threads s t ∧ t.mutex = none := by
  induction hk : x.pc.toUnlock using Nat.strong_induction_on generalizing s x with
  | h k ih =>
    obtain ⟨choice, t, hs, hnext⟩ := worker_advances kind hw hl
    have hrun : (machine kind).Run Threads s t := .single (a := .worker w choice) rfl hs
    rcases hnext with hm | ⟨y, hy, hlocks, hlt⟩
    · exact ⟨t, hrun, hm⟩
    · obtain ⟨u, hrest, hm⟩ := ih _ (hk ▸ hlt) hy hlocks rfl
      exact ⟨u, hrun.trans hrest, hm⟩

theorem push_unlocks {p : Nat} {x : Push} (hp : s.pushes[p]? = some x)
    (hl : x.pc.locks = true) : ∃ t, (machine kind).Run Threads s t ∧ t.mutex = none := by
  have hreturn {s : State} {x : Push} (hp : s.pushes[p]? = some x) (hpc : x.pc = .notified) :
      ∃ t, (machine kind).Run Threads s t ∧ t.mutex = none :=
    ⟨{ s.setPush p { x with pc := .returned } with mutex := none },
      .single (a := .pushStep p none) rfl (by simp [machine, step, hp, State.pushStep, hpc]), rfl⟩
  cases hpc : x.pc <;> rw [hpc] at hl <;> try exact absurd hl Bool.false_ne_true
  case notified => exact hreturn hp hpc
  case locked =>
    have hset : (s.setPush p { x with pc := .notified }).pushes[p]? =
        some { x with pc := .notified } := getElem?_set_of_some hp _
    by_cases hparked : ∃ y ∈ s.workers, y.pc = .parked
    · obtain ⟨y, hy, hyp⟩ := hparked
      obtain ⟨w, hw⟩ := List.getElem?_of_mem hy
      obtain ⟨t, hrun, hm⟩ := hreturn (s := (s.setPush p { x with pc := .notified }).setWorker w
        { y with pc := .unparked }) hset rfl
      refine ⟨t, .trans (.single (a := .pushStep p (some w)) rfl ?_) hrun, hm⟩
      simp [machine, step, hp, State.pushStep, hpc, State.notifyOne, State.setPush, hw, hyp]
    · obtain ⟨t, hrun, hm⟩ := hreturn hset rfl
      refine ⟨t, .trans (.single (a := .pushStep p none) rfl ?_) hrun, hm⟩
      have hnone : ∀ y ∈ s.workers, y.pc ≠ .parked := fun y hy hyp => hparked ⟨y, hy, hyp⟩
      simp only [machine, step, hp, Option.bind_some, State.pushStep, hpc, State.notifyOne]
      exact if_pos hnone

variable (kind) in
/-- Unless a `Resize` owns `mutex_`, the other threads can give it back. -/
theorem mutex_released (hheld : Held s)
    (hrest : ∀ (c : Nat) (x : Caller), s.callers[c]? = some x → x.pc.locks = false) :
    ∃ t, (machine kind).Run Threads s t ∧ t.mutex = none := by
  cases hm : s.mutex with
  | none => exact ⟨s, .refl, hm⟩
  | some o =>
    have hlocks := hheld o hm
    cases o with
    | worker w =>
      obtain ⟨x, hx, hl⟩ := hlocks
      exact worker_unlocks hx hl
    | push p =>
      obtain ⟨x, hx, hl⟩ := hlocks
      exact push_unlocks hx hl
    | caller c =>
      obtain ⟨x, hx, hl⟩ := hlocks
      exact absurd ((hrest c x hx).symm.trans hl) Bool.false_ne_true

end Sections

end ThreadPool
end TryAndLearn
