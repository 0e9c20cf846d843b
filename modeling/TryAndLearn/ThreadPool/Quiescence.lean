import TryAndLearn.ThreadPool.Idle
import TryAndLearn.ThreadPool.StopReturns

/-!
# The pool at the end

When `Resize` and `Stop` are called one after the other and nobody calls the pool any more,
everything that is under way comes to its end, whatever the scheduler does: pushes,
`ClearQueue` and `Pop`, a `Resize` and a `Stop`.  What is left are the workers of `threads_`,
asleep over an empty queue.  The others have left, also those that a `Resize` has detached.
-/

namespace TryAndLearn
namespace ThreadPool

structure Quiescent (s : State) : Prop where
  pushes : ∀ x ∈ s.pushes, x.pc = .returned
  callers : ∀ y ∈ s.callers, y.pc = .idle ∨ y.pc = .stopped
  workers : ∀ (w : Nat) (x : Worker), s.workers[w]? = some x →
    x.pc = if some w ∈ s.threads then .parked else .exited
  idle : s.nWaiting = s.threads.length
  run : s.threads ≠ [] → s.queue = [] ∧ s.enqueued = s.run + s.handedOut + s.discarded

section Quiescence

variable {kind : QueueKind} {s : State}

/-- After an order the pool is empty when no call is under way. -/
theorem threads_of_ordered (h : (machine kind).Reachable ResizeAlone s)
    (hcallers : ∀ y ∈ s.callers, y.pc = .idle ∨ y.pc = .stopped) (ho : s.Ordered) :
    s.threads = [] := by
  refine (reachable_cleared h ho).resolve_right ?_
  rintro ⟨y, hy, hpc⟩
  rcases hcallers y hy with heq | heq <;> rw [heq] at hpc <;> exact absurd hpc (by decide)

theorem atRest_of_not_ordered (hcallers : ∀ y ∈ s.callers, y.pc = .idle ∨ y.pc = .stopped)
    (ho : ¬s.Ordered) : AtRest s := by
  refine ⟨⟨?_, ?_⟩, fun y hy => ?_⟩
  · exact Bool.eq_false_iff.mpr fun hdone => ho (.inl hdone)
  · exact Bool.eq_false_iff.mpr fun hstop => ho (.inr hstop)
  · rcases hcallers y hy with heq | heq <;> rw [heq] <;> rfl

/-- The workers that sleep when no call is under way are those of `threads_`. -/
theorem pc_of_asleep (h : (machine kind).Reachable ResizeAlone s)
    (hcallers : ∀ y ∈ s.callers, y.pc = .idle ∨ y.pc = .stopped) {w : Nat} {x : Worker}
    (hx : s.workers[w]? = some x) (hasleep : x.pc = .parked ∨ x.pc = .exited) :
    x.pc = if some w ∈ s.threads then .parked else .exited := by
  have hrunning (hmem : some w ∈ s.threads) : ¬s.Ordered := by
    intro ho
    rw [threads_of_ordered h hcallers ho] at hmem
    exact absurd hmem List.not_mem_nil
  rcases hasleep with hpc | hpc
  · -- whoever sleeps has not been told to leave
    have hunset : s.flag x.flag ≠ true := by
      intro hflag
      rcases reachable_disturbed h w x hx (.inr hpc) hflag with ⟨hstop, hmem⟩ | ⟨y, hy, hn⟩
      · exact hrunning hmem (.inr hstop)
      · rcases hcallers y hy with heq | heq <;> rw [heq] at hn <;> exact absurd hn (by decide)
    have hmem := (reachable_listed h w x hx).resolve_right
      (not_or.mpr ⟨hunset, by rw [hpc]; decide⟩)
    rw [hpc, if_pos hmem]
  · have hmem : some w ∉ s.threads := by
      intro hmem
      have hrest := atRest_of_not_ordered hcallers (hrunning hmem)
      obtain ⟨y, hy, hunset⟩ := (hrest.mem_threads_iff h).mp hmem
      obtain rfl := Option.some.inj (hx.symm.trans hy)
      rcases reachable_dismissed h w x hx (.inr hpc) with hdone | hflag
      · exact hrunning hmem (.inl hdone)
      · exact absurd (hunset.symm.trans hflag) (by decide)
    rw [hpc, if_neg hmem]

/-- When no call is under way and the workers sleep or have left, the pool is quiescent. -/
theorem quiescent_of_asleep (h : (machine kind).Reachable ResizeAlone s)
    (hpushes : ∀ x ∈ s.pushes, x.pc = .returned)
    (hcallers : ∀ y ∈ s.callers, y.pc = .idle ∨ y.pc = .stopped)
    (hworkers : ∀ x ∈ s.workers, x.pc = .parked ∨ x.pc = .exited) : Quiescent s where
  pushes := hpushes
  callers := hcallers
  workers w x hx := pc_of_asleep h hcallers hx (hworkers x (List.mem_of_getElem? hx))
  idle := by
    by_cases ho : s.Ordered
    · have hnil := threads_of_ordered h hcallers ho
      rw [nWaiting_eq h, hnil]
      refine congrArg _ (List.countP_eq_zero.mpr fun x hx => ?_)
      obtain ⟨w, hw⟩ := List.getElem?_of_mem hx
      have hpc := pc_of_asleep h hcallers hw (hworkers x hx)
      rw [hnil, if_neg List.not_mem_nil] at hpc
      rw [hpc]
      decide
    · exact (atRest_of_not_ordered hcallers ho).nWaiting_eq_size h hworkers
  run hne := by
    have hrest := atRest_of_not_ordered hcallers fun ho => hne (threads_of_ordered h hcallers ho)
    have hserving : Serving kind s := ⟨h, hrest, hne⟩
    have hserved := hserving.served hpushes
      (fun y hy => (hcallers y hy).resolve_right (hrest.ne_stopped h hy)) hworkers
    exact ⟨hserved.queue, hserved.run⟩

theorem exists_step_of_not_quiescent
    (h : (machine kind).Reachable (fun s a => OneController s a ∧ NoneParking s a) s)
    (hquiet : ¬Quiescent s) : ∃ a t, (Serves s a ∧ NoneParking s a) ∧ step kind s a = some t := by
  by_contra hnone
  have hr' := h.mono fun _ _ hok => And.intro hok.1.resizeAlone hok.2
  have hr := hr'.mono fun _ _ hok => hok.1
  have hready := reachable_ready (h.mono fun _ _ hok => hok.1)
  have hworks : ¬∃ a t, s.Works a ∧ step kind s a = some t :=
    fun ⟨a, t, ha, hs⟩ => hnone ⟨a, t, ⟨ha.serves, ha.noneParking⟩, hs⟩
  obtain ⟨hfree, hpushes, hasleep⟩ := asleep_of_stuck (reachable_held hr) hworks
  have hcaller (c : Nat) : ¬∃ choice t, step kind s (.caller c choice) = some t :=
    fun ⟨choice, t, hs⟩ =>
      hnone ⟨.caller c choice, t, ⟨trivial, noneParking_of_asleep hasleep⟩, hs⟩
  refine hquiet (quiescent_of_asleep hr hpushes (fun y hy => ?_) hasleep)
  obtain ⟨c, hc⟩ := List.getElem?_of_mem hy
  by_contra hpc
  cases hk : y.pc.kind with
  | other => exact hcaller c (exists_step_of_caller hc hk (not_or.mp hpc))
  | resize => exact hworks (exists_step_of_resize hr hc hk (hready y hy) hfree)
  | stop =>
    exact hcaller c (exists_step_of_stop hr hc hk (hready y hy)
      (exited_of_asleep hr' hasleep hy (hready y hy)))

end Quiescence

/-- When nobody calls a pool any more whose `Resize` and `Stop` were called one after the
other, it comes to rest, whatever the scheduler does, if no `Stop` notifies in a worker's
window. -/
theorem inevitable_quiescent (kind : QueueKind) {s : State}
    (h : (machine kind).Reachable (fun s a => OneController s a ∧ NoneParking s a) s) :
    (machine kind).Inevitable (fun s a => Serves s a ∧ NoneParking s a) Quiescent s := by
  refine Machine.Inevitable.of_measure
    (I := (machine kind).Reachable fun s a => OneController s a ∧ NoneParking s a)
    wellFounded_less State.work exists_step_of_not_quiescent (fun h _ hok hs => ?_) h
  have hr := h.mono fun _ _ hok => hok.1
  exact ⟨h.next ⟨Serves.oneController hok.1, hok.2⟩ hs, less_step (reachable_sequential hr)
    (reachable_placed (hr.mono fun _ _ hok => hok.resizeAlone)) hok.1 (moved_of_step hs)⟩

/-- All workers slept when a `Push` began and `Resize(1)` was called.  The task is in the
queue, worker 2 is detached and worker 1 told to leave. -/
def halfway : State :=
  { queue := [⟨0, 1⟩], threads := [some 0, some 1, some 2], flags := [some 0, some 1, some 2],
    cells := [false, true, true], nWaiting := 3,
    workers := [{ flag := 0, pc := .parked }, { flag := 1, pc := .parked },
      { flag := 2, pc := .parked, joinable := false }],
    pushes := [{ task := ⟨0, 1⟩, pc := .enqueued }],
    callers := [{ pc := .shrinkDetach 1 1, began := [some 0, some 1, some 2] }] }

theorem halfway_reachable :
    (machine .queue).Reachable (fun s a => OneController s a ∧ NoneParking s a) halfway :=
  Machine.reachable_of_exec
    (List.flatten [construct 3, List.replicate 7 (.worker 0 0), List.replicate 7 (.worker 1 0),
      List.replicate 7 (.worker 2 0), [.push 1, .pushStep 0 none, .call 0 (.resize 1)],
      List.replicate 6 (.caller 0 0)])
    ⟨1, rfl⟩ (by decide)

theorem inevitable_quiescent_halfway :
    (machine .queue).Inevitable (fun s a => Serves s a ∧ NoneParking s a) Quiescent halfway :=
  inevitable_quiescent .queue halfway_reachable

end ThreadPool
end TryAndLearn
