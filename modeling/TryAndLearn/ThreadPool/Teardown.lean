import TryAndLearn.ThreadPool.Stop

/-!
# The workers left by a `Stop`

`Stop` joins the workers of `threads_`.  A worker that a shrinking `Resize` has
detached is not among them, and it leaves its loop only when it has run the task it has.
If every such worker has left when `Stop` is called, nothing of the pool runs once `Stop`
has returned, and nothing will (`NoneLeft`).
-/

namespace TryAndLearn
namespace ThreadPool

/-- One thread calls `Resize` and `Stop`, so that these calls follow one another. -/
def OneController (s : State) : Act → Prop
  | .call _ (.resize n) => 1 ≤ n ∧ ∀ x ∈ s.callers, x.pc.kind = .other
  | .call _ (.stop _) => ∀ x ∈ s.callers, x.pc.kind = .other
  | _ => True

instance (s : State) : (a : Act) → Decidable (OneController s a)
  | .call _ (.resize n) => inferInstanceAs (Decidable (1 ≤ n ∧ ∀ x ∈ s.callers, x.pc.kind = .other))
  | .call _ (.stop _) => inferInstanceAs (Decidable (∀ x ∈ s.callers, x.pc.kind = .other))
  | .call _ .clearQueue | .call _ .pop | .push _ | .pushStep _ _ | .worker _ _ | .wake _
  | .caller _ _ => inferInstanceAs (Decidable True)

/-- Every worker that is not in `threads_` has left its loop. -/
def State.RemovedLeft (s : State) : Prop :=
  ∀ w < s.workers.length, some w ∉ s.threads → ∀ y ∈ s.workers[w]?, y.pc = .exited

instance (s : State) : Decidable s.RemovedLeft :=
  inferInstanceAs (Decidable (∀ w < s.workers.length, some w ∉ s.threads →
    ∀ y ∈ s.workers[w]?, y.pc = .exited))

/-- `Stop` is called when the workers that `Resize` has removed have left. -/
def StopsLate (s : State) : Act → Prop
  | .call _ (.stop _) => s.RemovedLeft
  | _ => True

instance (s : State) : (a : Act) → Decidable (StopsLate s a)
  | .call _ (.stop _) => inferInstanceAs (Decidable s.RemovedLeft)
  | .call _ (.resize _) | .call _ .clearQueue | .call _ .pop | .push _ | .pushStep _ _
  | .worker _ _ | .wake _ | .caller _ _ => inferInstanceAs (Decidable True)

/-- Every worker ever started has left its loop. -/
def AllExited (s : State) : Prop := ∀ y ∈ s.workers, y.pc = .exited

instance (s : State) : Decidable (AllExited s) :=
  inferInstanceAs (Decidable (∀ y ∈ s.workers, y.pc = .exited))

/-- Once a `Stop` has returned no worker is left. -/
def NoneLeft (s : State) : Prop := ∀ x ∈ s.callers, x.pc = .stopped → AllExited s

instance (s : State) : Decidable (NoneLeft s) :=
  inferInstanceAs (Decidable (∀ x ∈ s.callers, x.pc = .stopped → AllExited s))

/-- Beside a `Resize` or a `Stop` there is no other. -/
def Sequential (s : State) : Prop := Solo (fun k => k ≠ .other) s

section Control

variable {kind : QueueKind} {s t : State} {a : Act}

theorem OneController.resizeAlone (h : OneController s a) : ResizeAlone s a := by
  cases a with
  | call c op =>
    cases op with
    | resize n => exact h
    | stop wait => exact fun x hx => by rw [h x hx]; decide
    | clearQueue | pop => trivial
  | _ => trivial

theorem sequential_step (hok : OneController s a) (h : Moved kind s a t) (hs : Sequential s) :
    Sequential t := by
  refine Solo.step (fun hne => hne rfl) (fun c op ha y hy => ?_) h hs
  subst ha
  cases op with
  | resize n => exact ⟨fun _ => hok.2 y hy, fun hne => absurd (hok.2 y hy) hne⟩
  | stop wait => exact ⟨fun _ => hok y hy, fun hne => absurd (hok y hy) hne⟩
  | clearQueue | pop => exact ⟨fun hne => absurd rfl hne, fun _ => rfl⟩

theorem reachable_sequential (h : (machine kind).Reachable OneController s) : Sequential s := by
  refine h.invariant (fun s₀ h₀ => ?_) fun _ hok hs hI => sequential_step hok (moved_of_step hs) hI
  obtain ⟨n, rfl⟩ := h₀
  exact solo_start (fun hne => hne rfl) n

end Control

section Teardown

variable {kind : QueueKind} {s t : State} {a : Act} {c : Nat} {x : Caller}

/-- After an order no worker is started. -/
theorem AllExited.next (hp : ∀ y ∈ s.callers, Placed s y.pc) (h : Moved kind s a t)
    (horder : s.Ordered) (hs : AllExited s) : AllExited t := by
  intro y hy
  obtain ⟨w, hw⟩ := List.getElem?_of_mem hy
  have hlt := (List.getElem?_eq_some_iff.mp hw).1
  rcases h.worker_prev hw with ⟨x, hx, hstep⟩ | ⟨rfl, _⟩
  · exact hstep.exited (hs x (List.mem_of_getElem? hx))
  · cases h with
    | growThread h hpc _ _ =>
      have hx := hp _ (List.mem_of_getElem? h)
      rw [hpc] at hx
      exact absurd horder (State.Running.not_ordered hx.1)
    | _ =>
      simp [State.setWorker, State.setPush, State.setCaller, State.goto, State.workerUnlock,
        State.notifyAll] at hlt

/-- A caller in a `Resize` or a `Stop` was in it before or begins it in this step. -/
theorem Moved.callers_prev (h : Moved kind s a t) {z : Caller} (hz : z ∈ t.callers)
    (hk : z.pc.kind ≠ .other) :
    (∃ x ∈ s.callers, x.pc.kind = z.pc.kind ∧ x.began = z.began) ∨
      ∃ c op, a = .call c op ∧ op.kind = z.pc.kind ∧ z.began = s.threads ∧
        t.threads = s.threads ∧ t.workers = s.workers := by
  rcases h.callers_cases with heq | ⟨c, x, pc, hx, heq, hkind⟩ | ⟨c, op, x, ha, hx, _, rfl⟩
  · exact .inl ⟨z, heq ▸ hz, rfl, rfl⟩
  · rw [heq] at hz
    rcases List.mem_or_eq_of_mem_set hz with hz | rfl
    · exact .inl ⟨z, hz, rfl, rfl⟩
    · rcases hkind with hkind | hkind
      · exact .inl ⟨x, List.mem_of_getElem? hx, hkind.symm, rfl⟩
      · exact absurd hkind hk
  · rcases List.mem_or_eq_of_mem_set hz with hz | rfl
    · exact .inl ⟨z, hz, rfl, rfl⟩
    · exact .inr ⟨c, op, ha, (op.kind_entry).symm, rfl, rfl, rfl⟩

/-- While a `Stop` is under way nobody starts a worker. -/
theorem State.RemovedLeft.next (hs : s.RemovedLeft) (ha : Alone s) (hx : x ∈ s.callers)
    (hk : x.pc.kind = .stop) (h : Moved kind s a t) (ht : t.threads = s.threads) :
    t.RemovedLeft := by
  intro w hlt hmem y hy
  rcases h.worker_prev hy with ⟨z, hz, hstep⟩ | ⟨rfl, _⟩
  · refine hstep.exited (hs w (List.getElem?_eq_some_iff.mp hz).1 (ht ▸ hmem) z hz)
  · cases h with
    | growThread hx' hpc _ _ =>
      exact absurd (by rw [hpc]; rfl) (ha.not_resize hx hk (List.mem_of_getElem? hx'))
    | _ =>
      simp [State.setWorker, State.setPush, State.setCaller, State.goto, State.workerUnlock,
        State.notifyAll] at hlt

/-- A `Stop` that was called in time has no removed worker beside it. -/
theorem removedLeft_step (hseq : Sequential s) (ha : Alone s) (hok : StopsLate s a)
    (h : Moved kind s a t) (hs : ∀ y ∈ s.callers, y.pc.kind = .stop → s.RemovedLeft) :
    ∀ z ∈ t.callers, z.pc.kind = .stop → t.RemovedLeft := by
  intro z hz hk
  rcases h.callers_prev hz (by rw [hk]; decide) with
    ⟨x, hx, hkind, _⟩ | ⟨c, op, rfl, hkind, _, ht, hw⟩
  · rw [hk] at hkind
    rcases h.threads_of_stop ha hx hkind with ht | ⟨c, choice, y, _, hy, hpc, rfl⟩
    · exact (hs x hx hkind).next ha hx hkind h ht
    · -- the `Stop` that clears the vectors is over, and there was no other
      obtain ⟨d, hd⟩ := List.getElem?_of_mem hz
      rcases getElem?_set_cases hd with ⟨_, rfl⟩ | ⟨hne, hd⟩
      · exact absurd hk (by simp [CallerPc.kind])
      · have hother := hseq c d y z hy hd (Ne.symm hne) (by rw [hpc]; decide)
        exact absurd (hk.symm.trans hother) (by decide)
  · cases op with
    | stop wait =>
      intro w hlt hmem y hy
      rw [hw] at hlt hy
      exact hok w hlt (ht ▸ hmem) y hy
    | resize n | clearQueue | pop => exact absurd (hkind.trans hk) (by simp [Op.kind])

/-- The workers of `threads_` have been joined, the others have left by themselves. -/
theorem allExited_of_joined (hjoined : Joined s s.threads.length) (hremoved : s.RemovedLeft) :
    AllExited s := by
  intro y hy
  obtain ⟨w, hw⟩ := List.getElem?_of_mem hy
  by_cases hmem : some w ∈ s.threads
  · obtain ⟨j, hj⟩ := List.getElem?_of_mem hmem
    exact hjoined j w y (List.getElem?_eq_some_iff.mp hj).1 hj hw
  · exact hremoved w (List.getElem?_eq_some_iff.mp hw).1 hmem y hw

/-- The guard of `Stop` turns the call away. -/
def State.refuses (s : State) : CallerPc → Bool
  | .stopIfDone => s.isDone
  | .stopIfStop _ => s.isStop
  | _ => false

theorem ordered_of_refuses {pc : CallerPc} (h : s.refuses pc = true) : s.Ordered := by
  cases pc <;> first | exact .inl h | exact .inr h | exact absurd h Bool.false_ne_true

theorem kind_of_refuses {pc : CallerPc} (h : s.refuses pc = true) : pc.kind = .stop := by
  cases pc <;> first | rfl | exact absurd h Bool.false_ne_true

theorem not_ordered_of_refuses {pc : CallerPc} (h : s.refuses pc = true) : pc.ordered = false := by
  cases pc <;> first | rfl | exact absurd h Bool.false_ne_true

/-- A caller that has stopped the pool was there before, or returns in this step: from
the guard of `Stop` or from its end. -/
theorem Moved.stopped_prev (h : Moved kind s a t) {z : Caller} (hz : z ∈ t.callers)
    (hpc : z.pc = .stopped) :
    z ∈ s.callers ∨
      (∃ c choice x, a = .caller c choice ∧ s.callers[c]? = some x ∧ s.refuses x.pc = true ∧
        z = { x with pc := .stopped } ∧ t = s.goto c x .stopped) ∨
      ∃ c choice x, a = .caller c choice ∧ s.callers[c]? = some x ∧ x.pc = .stopErase ∧
        z = { x with pc := .stopped } ∧
        t = { s.goto c x .stopped with threads := [], flags := [] } := by
  have hset {c : Nat} {x' : Caller} (hmine : x'.pc ≠ .stopped) (hz : z ∈ s.callers.set c x') :
      z ∈ s.callers := by
    rcases List.mem_or_eq_of_mem_set hz with hz | rfl
    · exact hz
    · exact absurd hpc hmine
  cases h with
  | push | enqueue | pushLock | notifyOne | notifyNobody | pushReturn | workerGoto | take
  | takeNone | finish | lock | unlock | wake => exact .inl hz
  | @call c x op h _ =>
    refine .inl (hset ?_ hz)
    cases op with
    | stop wait => cases wait <;> simp [Op.entry]
    | _ => simp [Op.entry]
  | @callerGoto c x pc choice h hgo =>
    by_cases hstop : pc = .stopped
    · subst hstop
      rcases List.mem_or_eq_of_mem_set hz with hz | rfl
      · exact .inl hz
      · refine .inr (.inl ⟨c, choice, x, rfl, h, ?_, rfl, rfl⟩)
        cases hgo with
        | stopDone hx hd => rw [hx]; exact hd
        | stopStopped hx hs => rw [hx]; exact hs
    · exact .inl (hset hstop hz)
  | remove _ hremoves _ | removeNone _ hremoves _ =>
    refine .inl (hset (fun hstop => ?_) hz)
    subst hstop
    simp only [CallerPc.removes] at hremoves
    split at hremoves <;> simp at hremoves
  | setFlag _ hpc' _ =>
    refine .inl (hset ?_ hz)
    rcases hpc' with ⟨_, _, _, rfl⟩ | ⟨_, _, _, rfl⟩ <;> simp
  | notifyAll _ hpc' =>
    refine .inl (hset ?_ hz)
    rcases hpc' with ⟨_, _, rfl⟩ | ⟨_, rfl⟩ <;> simp
  | @stopErase c x choice h hx =>
    rcases List.mem_or_eq_of_mem_set hz with hz | rfl
    · exact .inl hz
    · exact .inr (.inr ⟨c, choice, x, rfl, h, hx, rfl, rfl⟩)
  | _ => exact .inl (hset (by simp) hz)

/-- Nobody else is at work beside a `Stop` at its guard, so the pool has been emptied if
an order was given. -/
theorem Ended.allExited (hseq : Sequential s) (hs : Ended AllExited s)
    (h : s.callers[c]? = some x) (hrefused : s.refuses x.pc = true) : AllExited s := by
  rcases hs (ordered_of_refuses hrefused) with hexit | ⟨y, hy, hyo⟩
  · exact hexit
  · obtain ⟨d, hd⟩ := List.getElem?_of_mem hy
    have hne : c ≠ d := by
      rintro rfl
      obtain rfl := Option.some.inj (h.symm.trans hd)
      exact absurd ((not_ordered_of_refuses hrefused).symm.trans hyo) (by decide)
    have hother := hseq c d x y h hd hne (by rw [kind_of_refuses hrefused]; decide)
    exact absurd ((CallerPc.kind_of_ordered hyo).symm.trans hother) (by decide)

theorem allExited_of_stopErase (hphase : ∀ y ∈ s.callers, Phase s y.pc)
    (hremoved : ∀ y ∈ s.callers, y.pc.kind = .stop → s.RemovedLeft) (h : s.callers[c]? = some x)
    (hpc : x.pc = .stopErase) : AllExited s := by
  have hmem := List.mem_of_getElem? h
  have hx := hphase x hmem
  rw [hpc] at hx
  exact allExited_of_joined hx.2 (hremoved x hmem (by rw [hpc]; rfl))

theorem reachable_removedLeft
    (h : (machine kind).Reachable (fun s a => OneController s a ∧ StopsLate s a) s) :
    ∀ y ∈ s.callers, y.pc.kind = .stop → s.RemovedLeft := by
  refine h.invariant (I := fun s => ∀ y ∈ s.callers, y.pc.kind = .stop → s.RemovedLeft)
    (fun s₀ h₀ => ?_) fun hr hok hs hI => ?_
  · obtain ⟨n, rfl⟩ := h₀
    intro y hy hk
    obtain rfl := (List.mem_replicate.mp hy).2
    exact absurd hk (by decide)
  · have hone := hr.mono fun _ _ hok => hok.1
    exact removedLeft_step (reachable_sequential hone)
      (reachable_alone (hone.mono fun _ _ hok => hok.resizeAlone)) hok.2 (moved_of_step hs) hI

theorem ended_allExited_step (hp : ∀ y ∈ s.callers, Placed s y.pc)
    (hphase : ∀ y ∈ s.callers, Phase s y.pc)
    (hremoved : ∀ y ∈ s.callers, y.pc.kind = .stop → s.RemovedLeft) (h : Moved kind s a t)
    (hs : Ended AllExited s) : Ended AllExited t := by
  refine Ended.step h hs (AllExited.next hp h) fun c choice x ha hx hpc heq => ?_
  subst ha heq
  show AllExited s
  exact allExited_of_stopErase hphase hremoved hx hpc

theorem reachable_ended
    (h : (machine kind).Reachable (fun s a => OneController s a ∧ StopsLate s a) s) :
    Ended AllExited s := by
  refine h.invariant (fun s₀ h₀ => ?_) fun hr hok hs hI => ?_
  · obtain ⟨n, rfl⟩ := h₀
    exact ended_start _ n
  · have hr' := hr.mono fun _ _ hok => hok.1.resizeAlone
    exact ended_allExited_step (reachable_placed hr') (reachable_phase hr')
      (reachable_removedLeft hr) (moved_of_step hs) hI

theorem noneLeft_step (hseq : Sequential s) (hp : ∀ y ∈ s.callers, Placed s y.pc)
    (hsent : ∀ y ∈ s.callers, Sent s y.pc) (hphase : ∀ y ∈ s.callers, Phase s y.pc)
    (hremoved : ∀ y ∈ s.callers, y.pc.kind = .stop → s.RemovedLeft) (hended : Ended AllExited s)
    (h : Moved kind s a t) (hs : NoneLeft s) : NoneLeft t := by
  intro z hz hpc
  rcases h.stopped_prev hz hpc with hz | ⟨c, choice, x, _, hx, hrefused, _, rfl⟩ |
    ⟨c, choice, x, rfl, hx, hpc, _, rfl⟩
  · have horder := hsent z hz
    rw [hpc] at horder
    exact (hs z hz hpc).next hp h horder
  · show AllExited s
    exact hended.allExited hseq hx hrefused
  · show AllExited s
    exact allExited_of_stopErase hphase hremoved hx hpc

end Teardown

/-- No worker is left by a `Stop` as long as each `Stop` is called when the workers that
`Resize` has removed have left their loop. -/
theorem stop_leaves_none (kind : QueueKind) {s : State}
    (h : (machine kind).Reachable (fun s a => OneController s a ∧ StopsLate s a) s) :
    NoneLeft s := by
  refine h.invariant (fun s₀ h₀ => ?_) fun hr hok hs hI => ?_
  · obtain ⟨n, rfl⟩ := h₀
    intro x hx hpc
    obtain rfl := (List.mem_replicate.mp hx).2
    exact absurd hpc (by decide)
  · have hr' := hr.mono fun _ _ hok => hok.1.resizeAlone
    exact noneLeft_step (reachable_sequential (hr.mono fun _ _ hok => hok.1))
      (reachable_placed hr') (reachable_sent hr') (reachable_phase hr')
      (reachable_removedLeft hr) (reachable_ended hr) (moved_of_step hs) hI

/-- Worker 1 takes a task and is then removed by `Resize(1)`. -/
def shrinkWhileRunning : List Act :=
  construct 2 ++ [.push 1, .pushStep 0 none] ++ List.replicate 3 (.worker 1 0) ++
    List.replicate 3 (.pushStep 0 none) ++ [.call 0 (.resize 1)] ++
    List.replicate 10 (.caller 0 0)

/-- `Stop(true)` has returned.  Worker 1 ran its task and left before it was called. -/
def emptied : State :=
  { cells := [false, true], isDone := true,
    workers := [{ flag := 0, pc := .exited, joinable := false },
      { flag := 1, pc := .exited, joinable := false }],
    pushes := [{ task := ⟨0, 1⟩, pc := .returned }],
    callers := [{ pc := .stopped, began := [some 0] }],
    taken := [(1, ⟨0, 1⟩)], finished := [(1, ⟨0, 1⟩)], joins := [0] }

theorem emptied_reachable :
    (machine .queue).Reachable (fun s a => OneController s a ∧ StopsLate s a) emptied :=
  Machine.reachable_of_exec
    (List.flatten [shrinkWhileRunning, [.worker 1 0, .worker 1 0, .call 0 (.stop true)],
      List.replicate 5 (.caller 0 0), List.replicate 6 (.worker 0 0),
      List.replicate 4 (.caller 0 0)])
    ⟨1, rfl⟩ (by decide)

theorem stop_leaves_none_emptied : AllExited emptied :=
  stop_leaves_none .queue emptied_reachable _ (List.mem_singleton_self _) rfl

/-- Worker 1 runs its task and is not in `threads_` any more. -/
def shrunk : State :=
  { threads := [some 0], flags := [some 0], cells := [false, true],
    workers := [{ flag := 0 },
      { flag := 1, pc := .running, hand := some ⟨0, 1⟩, joinable := false }],
    pushes := [{ task := ⟨0, 1⟩, pc := .returned }],
    callers := [{ began := [some 0, some 1] }], taken := [(1, ⟨0, 1⟩)] }

theorem shrunk_reachable :
    (machine .queue).Reachable (fun s a => OneController s a ∧ StopsLate s a) shrunk :=
  Machine.reachable_of_exec shrinkWhileRunning ⟨1, rfl⟩ (by decide)

/-- `Stop(true)` has returned and worker 1 still runs its task. -/
def leftBehind : State :=
  { cells := [false, true], isDone := true,
    workers := [{ flag := 0, pc := .exited, joinable := false },
      { flag := 1, pc := .running, hand := some ⟨0, 1⟩, joinable := false }],
    pushes := [{ task := ⟨0, 1⟩, pc := .returned }],
    callers := [{ pc := .stopped, began := [some 0] }],
    taken := [(1, ⟨0, 1⟩)], joins := [0] }

theorem leftBehind_run : (machine .queue).Run OneController shrunk leftBehind :=
  Machine.run_of_exec
    (List.flatten [[.call 0 (.stop true)], List.replicate 5 (.caller 0 0),
      List.replicate 6 (.worker 0 0), List.replicate 4 (.caller 0 0)])
    (by decide)

/-- A `Stop` that is called while a removed worker runs its task leaves it behind. -/
theorem stop_leaves_none_fails :
    (¬ ∀ s, (machine .queue).Reachable OneController s → NoneLeft s) ∧
      ¬ StopsLate shrunk (.call 0 (.stop true)) := by
  have hreach : (machine .queue).Reachable OneController leftBehind :=
    (shrunk_reachable.mono fun _ _ hok => hok.1).run leftBehind_run
  exact ⟨fun h => absurd (h leftBehind hreach) (by decide), by decide⟩

end ThreadPool
end TryAndLearn
