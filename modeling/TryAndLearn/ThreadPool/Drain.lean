import TryAndLearn.ThreadPool.Mutex
import TryAndLearn.ThreadPool.Stop

/-!
# `Stop(true)` runs what is in the queue

A worker exits on `is_done_` after a `TryPop` of its predicate that found the queue
empty.  It holds `mutex_` in between, so no `Push` returns, and what the queue holds
when it reads `is_done_` was enqueued by calls that have yet to lock.  Every task
whose `Push` had returned before has been taken by then.

`Draining` follows the pool from the call of `Stop(true)` to its return: as soon as one
worker of the vector `T` found by the call leaves, the old tasks are out of the queue,
and the `ClearQueue` at the end of `Stop` comes after all of them have left.
-/

namespace TryAndLearn
namespace ThreadPool

/-- Nobody calls `Stop`. -/
def NoStop (_ : State) : Act → Prop
  | .call _ (.stop _) => False
  | _ => True

/-- Nobody calls `Resize` or `Stop`. -/
def Quiet (_ : State) : Act → Prop
  | .call _ (.resize _) | .call _ (.stop _) => False
  | _ => True

instance (s : State) : (a : Act) → Decidable (NoStop s a)
  | .call _ (.stop _) => inferInstanceAs (Decidable False)
  | .call _ (.resize _) | .call _ .clearQueue | .call _ .pop | .push _ | .pushStep _ _
  | .worker _ _ | .wake _ | .caller _ _ => inferInstanceAs (Decidable True)

instance (s : State) : (a : Act) → Decidable (Quiet s a)
  | .call _ (.resize _) | .call _ (.stop _) => inferInstanceAs (Decidable False)
  | .call _ .clearQueue | .call _ .pop | .push _ | .pushStep _ _ | .worker _ _ | .wake _
  | .caller _ _ => inferInstanceAs (Decidable True)

/-! ## Before the call -/

structure Unstopped (s : State) : Prop where
  running : s.Running
  callers : ∀ y ∈ s.callers, y.pc.kind ≠ .stop
  removed : ∀ u, (Remover.stop, u) ∉ s.removed

section Before

variable {kind : QueueKind} {s t : State} {a : Act}

theorem CallerPc.of_removes_stop {pc onTask onEmpty : CallerPc}
    (h : pc.removes = some (.stop, onTask, onEmpty)) : pc = .stopClear ∨ pc = .stopDrain := by
  cases pc <;> simp [CallerPc.removes] at h ⊢

theorem unstopped_step (hok : NoStop s a) (h : Moved kind s a t) (hs : Unstopped s) :
    Unstopped t := by
  have hcallers : ∀ y ∈ t.callers, y.pc.kind ≠ .stop := by
    rcases h.callers_cases with heq | ⟨c, x, pc, hx, heq, hkind⟩ | ⟨c, op, x, rfl, hx, _, rfl⟩
    · exact heq ▸ hs.callers
    · rw [heq]
      refine forall_mem_set hs.callers ?_
      rcases hkind with hkind | hkind
      · exact hkind ▸ hs.callers x (List.mem_of_getElem? hx)
      · rw [hkind]
        decide
    · refine forall_mem_set hs.callers ?_
      rw [op.kind_entry]
      cases op with
      | stop wait => exact hok.elim
      | _ => simp [Op.kind]
  have hnone {c : Nat} {x : Caller} (h : s.callers[c]? = some x) {P : Prop}
      (hk : x.pc.kind = .stop) : P := absurd hk (hs.callers x (List.mem_of_getElem? h))
  refine ⟨?_, hcallers, ?_⟩
  · cases h with
    | setDone h hpc | setStop h hpc => exact hnone h (by rw [hpc]; rfl)
    | _ => exact hs.running
  · cases h with
    | remove h hpc _ =>
      intro u hu
      rcases List.mem_cons.mp hu with heq | hu
      · obtain ⟨rfl, rfl⟩ := Prod.mk.inj heq
        rcases CallerPc.of_removes_stop hpc with hpc | hpc <;>
          exact hnone h (by rw [hpc]; rfl)
      · exact hs.removed u hu
    | _ => exact hs.removed

theorem reachable_unstopped (h : (machine kind).Reachable NoStop s) : Unstopped s := by
  refine h.invariant (fun s₀ h₀ => ?_) fun _ hok hs hI => unstopped_step hok (moved_of_step hs) hI
  obtain ⟨n, rfl⟩ := h₀
  refine ⟨⟨rfl, rfl⟩, fun y hy => ?_, fun u hu => absurd hu (by simp [start])⟩
  obtain rfl := (List.mem_replicate.mp hy).2
  decide

/-- A worker leaves its loop only on an order. -/
def Dismissed (s : State) : Prop :=
  ∀ (w : Nat) (x : Worker), s.workers[w]? = some x → x.pc = .leave ∨ x.pc = .exited →
    s.isDone = true ∨ s.flag x.flag = true

/-- A worker that leaves was leaving, or takes an order. -/
theorem WorkerStep.leaves {x y : Worker} (h : WorkerStep s x y)
    (hy : y.pc = .leave ∨ y.pc = .exited) :
    (x.pc = .leave ∨ x.pc = .exited) ∨ (x.pc = .predDone ∧ s.isDone = true) ∨
      s.flag x.flag = true := by
  cases h with
  | same | release => exact .inl hy
  | goto hgo =>
    cases hgo with
    | quit _ hf | seenFlag _ hf => exact .inr (.inr hf)
    | seenDone hpc hd => exact .inr (.inl ⟨hpc, hd⟩)
    | _ => simp at hy
  | take hpc => rcases (WorkerPc.of_pops hpc).1 with rfl | rfl <;> simp at hy
  | takeNone hpc _ => rcases (WorkerPc.of_pops hpc).2 with rfl | rfl <;> simp at hy
  | exit hpc => exact .inl (.inl hpc)
  | _ => simp at hy

theorem dismissed_step (h : Moved kind s a t) (hs : Dismissed s) : Dismissed t := by
  intro w y hy hleave
  rcases h.worker_prev hy with ⟨x, hx, hstep⟩ | ⟨_, f, rfl⟩
  · have horder : s.isDone = true ∨ s.flag x.flag = true := by
      rcases hstep.leaves hleave with hx' | ⟨_, hd⟩ | hf
      · exact hs w x hx hx'
      · exact .inl hd
      · exact .inr hf
    rw [hstep.flag_eq]
    exact horder.imp h.isDone_mono h.flag_mono
  · simp at hleave

theorem reachable_dismissed {ok : State → Act → Prop} (h : (machine kind).Reachable ok s) :
    Dismissed s := by
  refine h.invariant (fun s₀ h₀ => ?_) fun _ _ hs hI => dismissed_step (moved_of_step hs) hI
  obtain ⟨n, rfl⟩ := h₀
  intro w x hw
  simp [start] at hw

end Before

/-! ## From the call to the return -/

/-- Not in a `Resize`, nor on the way of `Stop(false)` to its notification. -/
def CallerPc.drains : CallerPc → Bool
  | .idle | .stopped | .clearQueue | .pop | .stopIfDone | .stopIfStop true | .stopSet true
  | .stopNotify | .stopJoin _ | .joining _ _ | .stopDrain | .stopErase => true
  | _ => false

/-- `T` is `threads_` at the call, and `old` are the calls of `Push` that had
returned. -/
structure Draining (T : List (Option Nat)) (old : Nat → Prop) (s : State) : Prop where
  callers : ∀ y ∈ s.callers, y.pc.drains = true
  threads : s.threads = T ∨ s.Gone T
  flags : ∀ (w : Nat) (y : Worker), some w ∈ T → s.workers[w]? = some y → s.flag y.flag = false
  returned : ∀ p, old p → ∃ y, s.pushes[p]? = some y ∧ y.pc = .returned
  queue : ∀ (w : Nat) (y : Worker), some w ∈ T → s.workers[w]? = some y →
    y.pc = .leave ∨ y.pc = .exited → ∀ u ∈ s.queue, ¬ old u.func
  removed : ∀ u, (Remover.stop, u) ∈ s.removed → ¬ old u.func

section Between

variable {kind : QueueKind} {s t : State} {a : Act} {T : List (Option Nat)} {old : Nat → Prop}

theorem CallerGoto.drains {pc pc' : CallerPc} (h : CallerGoto s pc pc') (hd : pc.drains = true) :
    pc'.drains = true := by
  cases h with
  | @stopNotStopped wait hpc _ =>
    subst hpc
    cases wait
    · exact absurd hd Bool.false_ne_true
    · rfl
  | _ => subst pc; first | rfl | exact absurd hd Bool.false_ne_true

theorem CallerPc.drains_of_removes {pc onTask onEmpty : CallerPc} {who : Remover}
    (h : pc.removes = some (who, onTask, onEmpty)) (hd : pc.drains = true) :
    onTask.drains = true ∧ onEmpty.drains = true := by
  cases pc <;> simp only [CallerPc.removes, Option.some.injEq, Prod.mk.injEq, reduceCtorEq] at h <;>
    obtain ⟨_, rfl, rfl⟩ := h <;> first | exact ⟨rfl, rfl⟩ | exact absurd hd Bool.false_ne_true

/-- What a step can do while `Stop(true)` is the only call beside `ClearQueue` and
`Pop`: of the vectors and flags it can only clear the vectors. -/
theorem Moved.of_drains (hd : ∀ y ∈ s.callers, y.pc.drains = true) (hok : Quiet s a)
    (h : Moved kind s a t) :
    (∀ y ∈ t.callers, y.pc.drains = true) ∧ t.cells = s.cells ∧
      t.workers.length = s.workers.length ∧
      (t.threads = s.threads ∨ ∃ y ∈ s.callers, y.pc = .stopErase) := by
  have hnone {c : Nat} {x : Caller} (h : s.callers[c]? = some x) {P : Prop}
      (hpc : x.pc.drains = false) : P :=
    absurd (hpc.symm.trans (hd x (List.mem_of_getElem? h))) (by decide)
  cases h with
  | push | enqueue | pushLock | notifyOne | notifyNobody | pushReturn | workerGoto | take
  | takeNone | finish | lock | unlock | wake =>
    refine ⟨hd, rfl, ?_, .inl rfl⟩
    simp [State.setWorker, State.setPush, State.workerUnlock]
  | @call c x op h hpc =>
    refine ⟨forall_mem_set hd ?_, rfl, rfl, .inl rfl⟩
    cases op with
    | resize n | stop wait => exact hok.elim
    | clearQueue | pop => rfl
  | callerGoto h hgo =>
    exact ⟨forall_mem_set hd (hgo.drains (hd _ (List.mem_of_getElem? h))), rfl, rfl, .inl rfl⟩
  | remove h hpc _ =>
    have hto := CallerPc.drains_of_removes hpc (hd _ (List.mem_of_getElem? h))
    exact ⟨forall_mem_set hd hto.1, rfl, rfl, .inl rfl⟩
  | removeNone h hpc _ =>
    have hto := CallerPc.drains_of_removes hpc (hd _ (List.mem_of_getElem? h))
    exact ⟨forall_mem_set hd hto.2, rfl, rfl, .inl rfl⟩
  | grow h hpc _ | growFlag h hpc _ _ | growThread h hpc _ _ | detach h hpc _ _ _
  | shrinkLock h hpc _ | shrinkUnlock h hpc | shrinkErase h hpc | setStop h hpc =>
    exact hnone h (by rw [hpc]; rfl)
  | setFlag h hpc _ =>
    rcases hpc with ⟨_, hpc, _⟩ | ⟨_, hpc, _⟩ <;> exact hnone h (by rw [hpc]; rfl)
  | notifyAll h hpc =>
    rcases hpc with ⟨_, hpc, _⟩ | ⟨_, rfl⟩
    · exact hnone h (by rw [hpc]; rfl)
    · exact ⟨forall_mem_set hd rfl, rfl, by simp [State.notifyAll, State.goto, State.setCaller],
        .inl rfl⟩
  | setDone h _ | join h _ _ _ _ => exact ⟨forall_mem_set hd rfl, rfl, rfl, .inl rfl⟩
  | joined h _ _ _ => exact ⟨forall_mem_set hd rfl, rfl, List.length_set, .inl rfl⟩
  | stopErase h hpc =>
    exact ⟨forall_mem_set hd rfl, rfl, rfl, .inr ⟨_, List.mem_of_getElem? h, hpc⟩⟩

/-- No worker is started, so a worker was there before. -/
theorem Moved.worker_of_drains (hd : ∀ y ∈ s.callers, y.pc.drains = true) (hok : Quiet s a)
    (h : Moved kind s a t) {w : Nat} {y : Worker} (hy : t.workers[w]? = some y) :
    ∃ x, s.workers[w]? = some x ∧ WorkerStep s x y := by
  rcases h.worker_prev hy with hx | ⟨rfl, _⟩
  · exact hx
  · have hlt := (List.getElem?_eq_some_iff.mp hy).1
    rw [(h.of_drains hd hok).2.2.1] at hlt
    exact absurd hlt (Nat.lt_irrefl _)

theorem Moved.returned_next (h : Moved kind s a t) {p : Nat} {y : Push}
    (hp : s.pushes[p]? = some y) (hpc : y.pc = .returned) : t.pushes[p]? = some y := by
  obtain ⟨z, hz, hstep⟩ := h.push_next hp
  cases hstep with
  | same => exact hz
  | enqueue h | lock h _ | notify h | ret h => exact absurd (hpc.symm.trans h) (by decide)

/-- The first worker of `T` to leave finds no old task in the queue, and none comes
back. -/
theorem draining_queue (hseen : Seen s) (hn : Numbered t) (hok : Quiet s a)
    (h : Moved kind s a t) (hs : Draining T old s) {w : Nat} {y : Worker} (hT : some w ∈ T)
    (hy : t.workers[w]? = some y) (hleave : y.pc = .leave ∨ y.pc = .exited) {u : Task}
    (hu : u ∈ t.queue) : ¬ old u.func := by
  intro hold
  rcases h.queue_prev hu with hu | ⟨p, z, hz, hpc, rfl⟩
  · obtain ⟨x, hx, hstep⟩ := h.worker_of_drains hs.callers hok hy
    rcases hstep.leaves hleave with hx' | ⟨hpc, _⟩ | hf
    · exact hs.queue w x hT hx hx' u hu hold
    · obtain ⟨z, hz, henq⟩ := hseen w x hx (by rw [hpc]; rfl) u hu
      obtain ⟨z', hz', hret⟩ := hs.returned u.func hold
      obtain rfl := Option.some.inj (hz.symm.trans hz')
      exact absurd (henq.symm.trans hret) (by decide)
    · exact absurd ((hs.flags w x hT hx).symm.trans hf) (by decide)
  · obtain ⟨z', hz', hret⟩ := hs.returned _ hold
    rw [hn p z hz] at hz'
    obtain rfl := Option.some.inj (hz.symm.trans (h.returned_next hz' hret))
    exact absurd (hpc.symm.trans hret) (by decide)

/-- When all workers of `T` have left, the queue holds no old task. -/
theorem Draining.queue_of_gone (hs : Draining T old s) (hT : ∃ w, some w ∈ T) (hgone : s.Gone T)
    {u : Task} (hu : u ∈ s.queue) : ¬ old u.func := by
  obtain ⟨w, hw⟩ := hT
  obtain ⟨y, hy, hexit⟩ := hgone (some w) hw w rfl
  exact hs.queue w y hw hy (.inr hexit) u hu

/-- The `ClearQueue` at the end of `Stop` comes when the join loop is over. -/
theorem draining_removed (hT : ∃ w, some w ∈ T) (hw : Wired s)
    (hphase : ∀ y ∈ s.callers, Phase s y.pc) (h : Moved kind s a t) (hs : Draining T old s)
    {u : Task} (hu : (Remover.stop, u) ∈ t.removed) : ¬ old u.func := by
  cases h with
  | @remove c x _ who onTask onEmpty _ queue h hpc hfront =>
    rcases List.mem_cons.mp hu with heq | hu
    · obtain ⟨rfl, rfl⟩ := Prod.mk.inj heq
      have hmem := List.mem_of_getElem? h
      rcases CallerPc.of_removes_stop hpc with hpc | hpc
      · have hd := hs.callers x hmem
        rw [hpc] at hd
        exact absurd hd Bool.false_ne_true
      · have hgone : s.Gone T :=
          hs.threads.elim (fun heq => heq ▸ gone_of_phase hw hphase hmem (.inl hpc)) id
        have hperm := ThreadSafeQueue.perm_of_getFrontAndPop hfront
        exact hs.queue_of_gone hT hgone (hperm.mem_iff.mpr List.mem_cons_self)
    · exact hs.removed u hu
  | _ => exact hs.removed u hu

theorem draining_step (hT : ∃ w, some w ∈ T) (hw : Wired s)
    (hphase : ∀ y ∈ s.callers, Phase s y.pc) (hseen : Seen s) (hn : Numbered t)
    (hok : Quiet s a) (h : Moved kind s a t) (hs : Draining T old s) : Draining T old t := by
  obtain ⟨hcallers, hcells, _, hthreads⟩ := h.of_drains hs.callers hok
  refine ⟨hcallers, ?_, fun w y hmem hy => ?_, fun p hp => ?_,
    fun w y hmem hy hleave u hu => draining_queue hseen hn hok h hs hmem hy hleave hu,
    fun u hu => draining_removed hT hw hphase h hs hu⟩
  · rcases hs.threads with heq | hgone
    · rcases hthreads with ht | ⟨y, hy, hpc⟩
      · exact .inl (ht.trans heq)
      · exact .inr ((heq ▸ gone_of_phase hw hphase hy (.inr hpc)).next h)
    · exact .inr (hgone.next h)
  · obtain ⟨x, hx, hstep⟩ := h.worker_of_drains hs.callers hok hy
    rw [State.flag, hcells, hstep.flag_eq]
    exact hs.flags w x hmem hx
  · obtain ⟨y, hy, hpc⟩ := hs.returned p hp
    exact ⟨y, h.returned_next hy hpc, hpc⟩

theorem Quiet.resizeAlone (h : Quiet s a) : ResizeAlone s a := by
  cases a with
  | call c op =>
    cases op with
    | resize n | stop wait => exact h.elim
    | clearQueue | pop => trivial
  | _ => trivial

theorem run_draining (hT : ∃ w, some w ∈ T) (hr : (machine kind).Reachable ResizeAlone s)
    (hrun : (machine kind).Run Quiet s t) (hs : Draining T old s) : Draining T old t := by
  refine hrun.invariant (fun hrun hok hstep hI => ?_) hs
  have hr := hr.run (hrun.mono fun _ _ => Quiet.resizeAlone)
  have hn := reachable_numbered (hr.next hok.resizeAlone hstep)
  exact draining_step hT (reachable_wired hr) (reachable_phase hr) (reachable_seen hr) hn hok
    (moved_of_step hstep) hI

theorem run_returned (hrun : (machine kind).Run Quiet s t) {p : Nat} {y : Push}
    (hp : s.pushes[p]? = some y) (hpc : y.pc = .returned) : t.pushes[p]? = some y :=
  hrun.invariant (I := fun s => s.pushes[p]? = some y)
    (fun _ _ hstep hI => (moved_of_step hstep).returned_next hI hpc) hp

/-- No other `Stop` begins. -/
theorem run_others {c : Nat} (hrun : (machine kind).Run Quiet s t)
    (hs : ∀ (d : Nat) (y : Caller), s.callers[d]? = some y → d ≠ c → y.pc.kind ≠ .stop) :
    ∀ (d : Nat) (y : Caller), t.callers[d]? = some y → d ≠ c → y.pc.kind ≠ .stop := by
  refine hrun.invariant (I := fun s => ∀ (d : Nat) (y : Caller), s.callers[d]? = some y →
    d ≠ c → y.pc.kind ≠ .stop) (fun _ hok hstep hI d y hd hne => ?_) hs
  rcases (moved_of_step hstep).callers_cases with heq | ⟨e, x, pc, hx, heq, hkind⟩ |
    ⟨e, op, x, rfl, hx, _, rfl⟩
  · exact hI d y (heq ▸ hd) hne
  · rw [heq] at hd
    rcases getElem?_set_cases hd with ⟨rfl, rfl⟩ | ⟨_, hd⟩
    · rcases hkind with hkind | hkind
      · exact hkind ▸ hI d x hx hne
      · rw [hkind]
        decide
    · exact hI d y hd hne
  · rcases getElem?_set_cases hd with ⟨rfl, rfl⟩ | ⟨_, hd⟩
    · rw [op.kind_entry]
      cases op with
      | resize n | stop wait => exact hok.elim
      | clearQueue | pop => decide
    · exact hI d y hd hne

end Between

/-! ## The call -/

section Call

variable {kind : QueueKind} {s t : State} {c : Nat}

theorem drains_of_kind {pc : CallerPc} (h : pc.kind = .other) : pc.drains = true := by
  cases pc <;> first | rfl | exact absurd h (by simp [CallerPc.kind])

/-- In a pool at rest the flags of the workers are not set. -/
theorem flag_of_threads (hf : Filled s) (hs : Unstopped s)
    (hrest : ∀ y ∈ s.callers, y.pc.kind ≠ .resize) {w : Nat} {y : Worker}
    (hmem : some w ∈ s.threads) (hy : s.workers[w]? = some y) : s.flag y.flag = false := by
  obtain ⟨j, hj⟩ := List.getElem?_of_mem hmem
  have hlt := (List.getElem?_eq_some_iff.mp hj).1
  obtain ⟨v, z, hv, hz, _, hflag⟩ := hf j ⟨hlt, fun y hy => by rwa [keep_of_kind (hrest y hy)]⟩
  obtain rfl := Option.some.inj (Option.some.inj (hj.symm.trans hv))
  obtain rfl := Option.some.inj (hy.symm.trans hz)
  exact hflag hs.running.2

theorem draining_call (hr : (machine kind).Reachable ResizeAlone s) (hs : Unstopped s)
    (hcall : ResizeAlone s (.call c (.stop true)))
    (hstep : step kind s (.call c (.stop true)) = some t) :
    Draining s.threads (fun p => ∃ y, s.pushes[p]? = some y ∧ y.pc = .returned) t := by
  have hother (y : Caller) (hy : y ∈ s.callers) : y.pc.kind = .other := by
    have hresize := hcall y hy
    have hstop := hs.callers y hy
    cases hk : y.pc.kind <;> simp_all
  have hflag {w : Nat} {y : Worker} (hmem : some w ∈ s.threads) (hy : s.workers[w]? = some y) :=
    flag_of_threads (reachable_filled hr) hs hcall hmem hy
  cases moved_of_step hstep with
  | call _ _ =>
    refine ⟨forall_mem_set (fun y hy => drains_of_kind (hother y hy)) rfl, .inl rfl,
      fun w y hmem hy => hflag hmem hy, fun p hp => hp, fun w y hmem hy hleave => ?_,
      fun u hu => absurd hu (hs.removed u)⟩
    rcases reachable_dismissed hr w y hy hleave with hd | hf
    · exact absurd (hs.running.1.symm.trans hd) (by decide)
    · exact absurd ((hflag hmem hy).symm.trans hf) (by decide)

theorem others_of_call (hs : Unstopped s) (hstep : step kind s (.call c (.stop true)) = some t)
    (d : Nat) (y : Caller) (hd : t.callers[d]? = some y) (hne : d ≠ c) : y.pc.kind ≠ .stop := by
  cases moved_of_step hstep with
  | call _ _ =>
    rcases getElem?_set_cases hd with ⟨hdc, _⟩ | ⟨_, hd⟩
    · exact absurd hdc hne
    · exact hs.callers y (List.mem_of_getElem? hd)

/-- The pool had a worker. -/
theorem exists_worker (hf : Filled s) (hrest : ∀ y ∈ s.callers, y.pc.kind ≠ .resize)
    (hne : s.threads ≠ []) : ∃ w, some w ∈ s.threads := by
  have hpos := List.length_pos_of_ne_nil hne
  obtain ⟨w, _, hw, _⟩ := hf 0 ⟨hpos, fun y hy => by rwa [keep_of_kind (hrest y hy)]⟩
  exact ⟨w, List.mem_of_getElem? hw⟩

/-- A `Stop` that has returned with no other at work has cleared the vectors. -/
theorem threads_of_stopped (hsent : ∀ y ∈ s.callers, Sent s y.pc) (hcleared : Cleared s)
    (hothers : ∀ (d : Nat) (y : Caller), s.callers[d]? = some y → d ≠ c → y.pc.kind ≠ .stop)
    {x : Caller} (hx : s.callers[c]? = some x) (hpc : x.pc = .stopped) : s.threads = [] := by
  have horder := hsent x (List.mem_of_getElem? hx)
  rw [hpc] at horder
  refine (hcleared horder).resolve_right ?_
  rintro ⟨y, hy, ho⟩
  obtain ⟨d, hd⟩ := List.getElem?_of_mem hy
  by_cases hdc : d = c
  · subst hdc
    obtain rfl := Option.some.inj (hx.symm.trans hd)
    rw [hpc] at ho
    exact absurd ho Bool.false_ne_true
  · exact hothers d y hd hdc (CallerPc.kind_of_ordered ho)

/-- A task that is neither in the queue nor removed has been taken. -/
theorem taken_of_enqueued {ok : State → Act → Prop} (hr : (machine kind).Reachable ok s)
    {u : Task} (hu : u ∈ s.enqueued) (hqueue : u ∉ s.queue) (hremoved : ∀ r, (r, u) ∉ s.removed) :
    ∃ w, (w, u) ∈ s.taken := by
  have hb := reachable_balanced hr
  have hsub : s.enqueued = s.queue + s.inHand + s.run + _ := hb.submitted
  have htaken : ((s.taken.map Prod.snd : List Task) : Multiset Task) = s.inHand + s.run := hb.taken
  rw [hsub, add_assoc (s.queue : Multiset Task), ← htaken, Multiset.mem_add, Multiset.mem_add,
    Multiset.mem_coe, Multiset.mem_coe] at hu
  rcases hu with (hu | hu) | hu
  · exact absurd hu hqueue
  · obtain ⟨⟨w, v⟩, hw, rfl⟩ := List.mem_map.mp hu
    exact ⟨w, hw⟩
  · obtain ⟨⟨r, v⟩, hv, rfl⟩ := List.mem_map.mp (Multiset.mem_coe.mp hu)
    exact absurd hv (hremoved r)

end Call

/-- When a `Stop(true)` has returned, a task whose `Push` had returned before the call, and
that no `Pop` and no other `ClearQueue` removed, was taken by one worker, which has run it
if it was in `threads_` at the call. -/
theorem stop_drains (kind : QueueKind) {s₁ s₂ s₃ : State} {c p : Nat} {x : Caller} {z : Push}
    (h₁ : (machine kind).Reachable (fun s a => ResizeAlone s a ∧ NoStop s a) s₁)
    (hthreads : s₁.threads ≠ []) (halone : ResizeAlone s₁ (.call c (.stop true)))
    (hcall : step kind s₁ (.call c (.stop true)) = some s₂)
    (hrun : (machine kind).Run Quiet s₂ s₃)
    (hx : s₃.callers[c]? = some x) (hpc : x.pc = .stopped)
    (hp : s₁.pushes[p]? = some z) (hret : z.pc = .returned)
    (hpop : (.pop, z.task) ∉ s₃.removed) (hclear : (.clearQueue, z.task) ∉ s₃.removed) :
    (∃! w, (w, z.task) ∈ s₃.taken) ∧
      (∀ w, (w, z.task) ∈ s₃.taken → some w ∈ s₁.threads → (w, z.task) ∈ s₃.finished) ∧
      (.stop, z.task) ∉ s₃.removed := by
  have hr₁ := h₁.mono fun _ _ hok => hok.1
  have hun := reachable_unstopped (h₁.mono fun _ _ hok => hok.2)
  have hr₂ := hr₁.next halone hcall
  have hr₃ := hr₂.run (hrun.mono fun _ _ => Quiet.resizeAlone)
  have hT := exists_worker (reachable_filled hr₁) halone hthreads
  have hdrained := run_draining hT hr₂ hrun (draining_call hr₁ hun halone hcall)
  -- all workers of the vector have left, since `Stop` has cleared it
  have hothers := run_others hrun (others_of_call hun hcall)
  have hnil := threads_of_stopped (reachable_sent hr₃) (reachable_cleared hr₃) hothers hx hpc
  have hgone : s₃.Gone s₁.threads :=
    hdrained.threads.resolve_left fun heq => hthreads (heq ▸ hnil)
  have hold : ∃ y, s₁.pushes[z.task.func]? = some y ∧ y.pc = .returned :=
    ⟨z, (reachable_numbered h₁ p z hp).symm ▸ hp, hret⟩
  have hstop : (.stop, z.task) ∉ s₃.removed := fun hu => hdrained.removed z.task hu hold
  have hqueue : z.task ∉ s₃.queue := fun hu => hdrained.queue_of_gone hT hgone hu hold
  have hp₃ := run_returned hrun ((moved_of_step hcall).returned_next hp hret) hret
  have hmem := mem_enqueued hp₃ (by rw [hret]; decide)
  obtain ⟨w, hw⟩ := taken_of_enqueued hr₃ hmem hqueue fun r => by cases r <;> assumption
  refine ⟨⟨w, hw, fun v hv => ?_⟩, fun v hv hmem => ?_, hstop⟩
  · have heq := List.inj_on_of_nodup_map (taken_nodup hr₃) hv hw rfl
    exact (Prod.mk.inj heq).1
  · -- a worker that has left has nothing in hand
    obtain ⟨y, hy, hexit⟩ := hgone (some v) hmem v rfl
    have hhand : y.hand = none :=
      (reachable_handed hr₃ v y hy).hand_eq_none (by rw [hexit]; rfl)
    refine ((reachable_logged hr₃ v z.task).mp hv).resolve_right ?_
    rw [handOf_of_some hy, hhand]
    simp

/-- Task 1 is running and task 0 waits in the queue. -/
def loaded : State :=
  { queue := [⟨0, 3⟩], threads := [some 0, some 1], flags := [some 0, some 1],
    cells := [false, false],
    workers := [{ flag := 0, pc := .running, hand := some ⟨1, 5⟩ }, { flag := 1 }],
    pushes := [{ task := ⟨0, 3⟩, pc := .returned }, { task := ⟨1, 5⟩, pc := .returned }],
    callers := [{}], taken := [(0, ⟨1, 5⟩)] }

theorem loaded_reachable :
    (machine .priorityQueue).Reachable (fun s a => ResizeAlone s a ∧ NoStop s a) loaded :=
  Machine.reachable_of_exec
    (List.flatten [construct 2, [.push 3, .pushStep 0 none, .push 5, .pushStep 1 none],
      List.replicate 3 (.worker 0 1), List.replicate 3 (.pushStep 0 none),
      List.replicate 3 (.pushStep 1 none)])
    ⟨1, rfl⟩ (by decide)

/-- `Stop(true)` has returned.  It discarded task 2, whose `Push` has not. -/
def drained : State :=
  { cells := [false, false], isDone := true,
    workers := [{ flag := 0, pc := .exited, joinable := false },
      { flag := 1, pc := .exited, joinable := false }],
    pushes := [{ task := ⟨0, 3⟩, pc := .returned }, { task := ⟨1, 5⟩, pc := .returned },
      { task := ⟨2, 1⟩, pc := .enqueued }],
    callers := [{ pc := .stopped, began := [some 0, some 1] }],
    taken := [(1, ⟨0, 3⟩), (0, ⟨1, 5⟩)], finished := [(0, ⟨1, 5⟩), (1, ⟨0, 3⟩)],
    removed := [(.stop, ⟨2, 1⟩)], joins := [1, 0] }

theorem run_drained :
    (machine .priorityQueue).Run Quiet
      { loaded with callers := [{ pc := .stopIfDone, began := [some 0, some 1] }] } drained :=
  Machine.run_of_exec
    (List.flatten [List.replicate 5 (.caller 0 0), List.replicate 10 (.worker 1 0),
      List.replicate 7 (.worker 0 0), [.push 1, .pushStep 2 none], List.replicate 7 (.caller 0 0)])
    (by decide)

theorem stop_drains_loaded :
    (∃! w, (w, ⟨0, 3⟩) ∈ drained.taken) ∧
      (∀ w, (w, ⟨0, 3⟩) ∈ drained.taken → some w ∈ loaded.threads →
        (w, ⟨0, 3⟩) ∈ drained.finished) ∧
      (Remover.stop, ⟨0, 3⟩) ∉ drained.removed :=
  stop_drains .priorityQueue (c := 0) (p := 0) (z := { task := ⟨0, 3⟩, pc := .returned })
    loaded_reachable (by decide) (by decide) rfl run_drained rfl rfl rfl rfl (by decide)
    (by decide)

end ThreadPool
end TryAndLearn
