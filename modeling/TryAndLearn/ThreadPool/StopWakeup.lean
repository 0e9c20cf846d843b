import TryAndLearn.ThreadPool.Stop

/-!
# Whom the `notify_all` of `Stop` wakes

`Stop` gives its order and notifies without `mutex_`.  A worker that has read
`is_done_` and its flag before the order and parks after the notification sleeps on,
and the `join` waits for it.  `Resize` takes the lock around its `notify_all`, so its
notification never falls into that window.

`NoneParking` says that no worker of `threads_` is in the window when `Stop` notifies.
Then all of them stay awake until they are joined: whoever looks at its predicate from
now on finds the order.
-/

namespace TryAndLearn
namespace ThreadPool

/-- Past the `notify_all` of `Stop`. -/
def CallerPc.notified : CallerPc → Bool
  | .stopJoin _ | .joining _ _ | .stopDrain | .stopErase => true
  | _ => false

/-- In the join loop of `Stop`. -/
def CallerPc.joins : CallerPc → Bool
  | .stopJoin _ | .joining _ _ => true
  | _ => false

/-- `Stop` is joining, every `Push` has notified, and a worker of `threads_` is parked
with nobody left to wake it. -/
def Stranded (s : State) : Prop :=
  (∃ x ∈ s.callers, x.pc.joins = true) ∧
    (∀ p ∈ s.pushes, p.pc = .notified ∨ p.pc = .returned) ∧
    ∃ (w : Nat) (y : Worker), some w ∈ s.threads ∧ s.workers[w]? = some y ∧ y.pc = .parked

/-- The worker has found its predicate false, or will if its flag is not set. -/
def Parks (s : State) (y : Worker) : Prop :=
  y.pc = .park ∨ (y.pc = .predFlag ∧ s.flag y.flag = false)

instance (s : State) (y : Worker) : Decidable (Parks s y) := inferInstanceAs (Decidable (_ ∨ _))

/-- When `Stop` notifies, no worker of `threads_` is on its way from a false predicate to
its parking. -/
def NoneParking (s : State) : Act → Prop
  | .caller c _ => ∀ x ∈ s.callers[c]?, x.pc = .stopNotify →
      ∀ entry ∈ s.threads, ∀ w ∈ entry, ∀ y ∈ s.workers[w]?, ¬ Parks s y
  | _ => True

instance (s : State) : (a : Act) → Decidable (NoneParking s a)
  | .caller c _ => inferInstanceAs (Decidable (∀ x ∈ s.callers[c]?, x.pc = .stopNotify →
      ∀ entry ∈ s.threads, ∀ w ∈ entry, ∀ y ∈ s.workers[w]?, ¬ Parks s y))
  | .push _ | .pushStep _ _ | .worker _ _ | .wake _ | .call _ _ => inferInstanceAs (Decidable True)

/-- The worker is not parked and will not park by what it has seen. -/
def Wakeful (s : State) (y : Worker) : Prop := y.pc ≠ .parked ∧ ¬ Parks s y

def Awake (s : State) : Prop :=
  ∀ x ∈ s.callers, x.pc.notified = true → ∀ (w : Nat) (y : Worker), some w ∈ s.threads →
    s.workers[w]? = some y → Wakeful s y

section Wakefulness

variable {kind : QueueKind} {s t : State} {a : Act}

theorem told_of_notified {pc : CallerPc} (h : Phase s pc) (hn : pc.notified = true) : Told s := by
  cases pc <;> first | exact h.1 | exact absurd hn (by simp [CallerPc.notified])

theorem kind_of_notified {pc : CallerPc} (hn : pc.notified = true) : pc.kind = .stop := by
  cases pc <;> first | rfl | exact absurd hn (by simp [CallerPc.notified])

theorem notified_of_removes {pc onTask onEmpty : CallerPc} {who : Remover}
    (h : pc.removes = some (who, onTask, onEmpty)) :
    (onTask.notified = true → pc.notified = true) ∧
      (onEmpty.notified = true → pc.notified = true) := by
  cases pc <;> simp only [CallerPc.removes, Option.some.injEq, Prod.mk.injEq, reduceCtorEq] at h <;>
    obtain ⟨_, rfl, rfl⟩ := h <;> simp [CallerPc.notified]

/-- A worker that has an order and is awake stays awake. -/
theorem Wakeful.next {y z : Worker} (hy : Wakeful s y)
    (horder : s.isDone = true ∨ s.flag y.flag = true) (h : Moved kind s a t)
    (hstep : WorkerStep s y z) : Wakeful t z := by
  obtain ⟨hparked, hparks⟩ := hy
  have hmono := h.flag_mono (f := y.flag)
  cases hstep with
  | same | release =>
    refine ⟨hparked, fun hz => hparks ?_⟩
    refine hz.imp id fun ⟨hpc, hf⟩ => ⟨hpc, Bool.eq_false_iff.mpr fun hset => ?_⟩
    exact absurd (hf.symm.trans (hmono hset)) (by decide)
  | goto hgo =>
    cases hgo with
    | notDone hpc hdone =>
      rcases horder with horder | horder
      · exact absurd (hdone.symm.trans horder) (by decide)
      · refine ⟨by simp, fun hz => ?_⟩
        rcases hz with hz | ⟨_, hf⟩
        · exact absurd hz (by simp)
        · exact absurd (hf.symm.trans (hmono horder)) (by decide)
    | notFlag hpc hf => exact absurd (.inr ⟨hpc, hf⟩) hparks
    | _ => exact ⟨by simp, by simp [Parks]⟩
  | take hpc =>
    rcases (WorkerPc.of_pops hpc).1 with rfl | rfl <;> exact ⟨by simp, by simp [Parks]⟩
  | takeNone hpc _ =>
    rcases (WorkerPc.of_pops hpc).2 with rfl | rfl <;> exact ⟨by simp, by simp [Parks]⟩
  | park hpc => exact absurd (.inl hpc) hparks
  | _ => exact ⟨by simp, by simp [Parks]⟩

/-- A `Stop` past its notification was there before or has just notified. -/
theorem Moved.notified_prev (h : Moved kind s a t) {z : Caller} (hz : z ∈ t.callers)
    (hn : z.pc.notified = true) :
    (∃ x ∈ s.callers, x.pc.notified = true) ∨
      ∃ c choice x, a = .caller c choice ∧ s.callers[c]? = some x ∧ x.pc = .stopNotify ∧
        t = (s.goto c x (.stopJoin 0)).notifyAll := by
  have hset {c : Nat} {x x' : Caller} (hx : s.callers[c]? = some x)
      (hmine : x'.pc.notified = true → x.pc.notified = true) (hz : z ∈ s.callers.set c x') :
      ∃ x ∈ s.callers, x.pc.notified = true := by
    rcases List.mem_or_eq_of_mem_set hz with hz | rfl
    · exact ⟨z, hz, hn⟩
    · exact ⟨x, List.mem_of_getElem? hx, hmine hn⟩
  cases h with
  | push | enqueue | pushLock | notifyOne | notifyNobody | pushReturn | workerGoto | take
  | takeNone | finish | lock | unlock | wake => exact .inl ⟨z, hz, hn⟩
  | @call c x op h hpc =>
    refine .inl (hset h (fun hmine => ?_) hz)
    cases op with
    | stop wait => cases wait <;> exact absurd hmine (by simp [Op.entry, CallerPc.notified])
    | _ => exact absurd hmine (by simp [Op.entry, CallerPc.notified])
  | callerGoto h hgo =>
    refine .inl (hset h (fun hmine => ?_) hz)
    cases hgo with
    | joinSkip hpc _ _ _ | joinedAll hpc _ => rw [hpc]; rfl
    | _ => exact absurd hmine (by simp [CallerPc.notified])
  | remove h hpc _ => exact .inl (hset h (notified_of_removes hpc).1 hz)
  | removeNone h hpc _ => exact .inl (hset h (notified_of_removes hpc).2 hz)
  | setFlag h hpc _ =>
    refine .inl (hset h (fun hmine => ?_) hz)
    rcases hpc with ⟨_, _, _, rfl⟩ | ⟨_, _, _, rfl⟩ <;>
      exact absurd hmine (by simp [CallerPc.notified])
  | @notifyAll c x choice pc h hpc =>
    rcases hpc with ⟨n, _, rfl⟩ | ⟨hpc, rfl⟩
    · exact .inl (hset h (fun hmine => absurd hmine (by simp [CallerPc.notified])) hz)
    · exact .inr ⟨c, choice, x, rfl, h, hpc, rfl⟩
  | join h hpc _ _ _ | joined h hpc _ _ => exact .inl (hset h (fun _ => by rw [hpc]; rfl) hz)
  | grow h _ _ | growFlag h _ _ _ | growThread h _ _ _ | detach h _ _ _ _ | shrinkLock h _ _
  | shrinkUnlock h _ | shrinkErase h _ | setDone h _ | setStop h _ | stopErase h _ =>
    exact .inl (hset h (fun hmine => absurd hmine (by simp [CallerPc.notified])) hz)

theorem awake_step (ha : Alone s) (hw : Wired s) (hphase : ∀ y ∈ s.callers, Phase s y.pc)
    (hok : NoneParking s a) (h : Moved kind s a t) (hs : Awake s) : Awake t := by
  intro z hz hn w y hmem hy
  rcases h.notified_prev hz hn with ⟨x, hx, hxn⟩ | ⟨c, choice, x, rfl, hx, hpc, rfl⟩
  · have htold := told_of_notified (hphase x hx) hxn
    have hmem' : some w ∈ s.threads := by
      rcases h.threads_of_stop ha hx (kind_of_notified hxn) with
        ht | ⟨_, _, _, _, _, _, rfl⟩
      · exact ht ▸ hmem
      · exact absurd hmem List.not_mem_nil
    obtain ⟨j, hj⟩ := List.getElem?_of_mem hmem'
    obtain ⟨y₀, hy₀, _⟩ := hw.slot j w hj
    obtain ⟨y', hy', hstep⟩ := h.worker_next hy₀
    obtain rfl := Option.some.inj (hy.symm.trans hy')
    refine (hs x hx hxn w y₀ hmem' hy₀).next ?_ h hstep
    exact htold.imp id fun hf => hf j w y₀ (List.getElem?_eq_some_iff.mp hj).1 hj hy₀
  · obtain ⟨y₀, hy₀, rfl⟩ : ∃ y₀, s.workers[w]? = some y₀ ∧ y₀.unpark = y := by
      simpa [State.notifyAll, State.goto, State.setCaller] using hy
    have hnot : ¬ Parks s y₀ := hok x hx hpc (some w) hmem w rfl y₀ hy₀
    unfold Worker.unpark
    split
    · exact ⟨by simp, by simp [Parks]⟩
    · rename_i hparked
      exact ⟨hparked, hnot⟩

theorem reachable_awake
    (h : (machine kind).Reachable (fun s a => ResizeAlone s a ∧ NoneParking s a) s) :
    Awake s := by
  refine h.invariant (fun s₀ h₀ => ?_) fun hr hok hs hI => ?_
  · obtain ⟨n, rfl⟩ := h₀
    intro x hx hn
    obtain rfl := (List.mem_replicate.mp hx).2
    exact absurd hn (by decide)
  · have hr' := hr.mono fun _ _ hok => hok.1
    exact awake_step (reachable_alone hr') (reachable_wired hr') (reachable_phase hr') hok.2
      (moved_of_step hs) hI

theorem Awake.not_stranded (hs : Awake s) : ¬ Stranded s := by
  rintro ⟨⟨x, hx, hjoins⟩, _, w, y, hmem, hy, hparked⟩
  have hn : x.pc.notified = true := by
    cases hp : x.pc <;> rw [hp] at hjoins <;> first | rfl | exact absurd hjoins Bool.false_ne_true
  exact (hs x hx hn w y hmem hy).1 hparked

/-! ## What happens in the window -/

/-- A worker that has found its predicate false parks, whatever was notified since. -/
theorem run_of_parks (kind : QueueKind) {w : Nat} {y : Worker} (hy : s.workers[w]? = some y)
    (hparks : Parks s y) :
    ∃ u z, (machine kind).Run ResizeAlone s u ∧ u.workers[w]? = some z ∧ z.pc = .parked ∧
      u.threads = s.threads ∧ u.pushes = s.pushes ∧ u.callers = s.callers := by
  have hpark {s : State} {y : Worker} (hy : s.workers[w]? = some y) (hpc : y.pc = .park) :
      (machine kind).Run ResizeAlone s (s.workerUnlock w y .parked 0) := by
    refine .single (a := .worker w 0) trivial ?_
    simp [machine, step, hy, State.workerStep, hpc]
  rcases hparks with hpc | ⟨hpc, hf⟩
  · exact ⟨_, { y with pc := .parked }, hpark hy hpc, getElem?_set_of_some hy _, rfl, rfl, rfl, rfl⟩
  · have hstep : (machine kind).Run ResizeAlone s (s.setWorker w { y with pc := .park }) := by
      refine .single (a := .worker w 0) trivial ?_
      simp [machine, step, hy, State.workerStep, hpc, hf]
    have hy' : (s.setWorker w { y with pc := .park }).workers[w]? = some { y with pc := .park } :=
      getElem?_set_of_some hy _
    exact ⟨_, _, hstep.trans (hpark hy' rfl), getElem?_set_of_some hy' _, rfl, rfl, rfl, rfl⟩

/-- A `notify_all` in the window leads to a stranded worker, unless a `Push` still
notifies. -/
theorem stranded_of_parking (hs : step kind s a = some t) (hok : ¬ NoneParking s a)
    (hpushes : ∀ p ∈ s.pushes, p.pc = .notified ∨ p.pc = .returned) :
    ∃ u, (machine kind).Run ResizeAlone t u ∧ Stranded u := by
  cases a with
  | caller c choice =>
    simp only [NoneParking, not_forall, not_not] at hok
    obtain ⟨x, hx, hpc, _, hmem, w, rfl, y, hy, hparks⟩ := hok
    have hx : s.callers[c]? = some x := hx
    have hy : s.workers[w]? = some y := hy
    obtain rfl : t = (s.goto c x (.stopJoin 0)).notifyAll := by
      simpa [step, hx, State.callerStep, hpc, State.stopStep] using hs.symm
    have hawake : y.unpark = y := by
      refine if_neg fun hparked => ?_
      rcases hparks with h | ⟨h, _⟩ <;> exact absurd (hparked.symm.trans h) (by decide)
    have hy' : (s.goto c x (.stopJoin 0)).notifyAll.workers[w]? = some y := by
      simp [State.notifyAll, State.goto, State.setCaller, hy, hawake]
    obtain ⟨u, z, hrun, hz, hparked, ht, hp, hc⟩ := run_of_parks kind hy' hparks
    refine ⟨u, hrun, ⟨{ x with pc := .stopJoin 0 }, ?_, rfl⟩, ?_, w, z, ht ▸ hmem, hz, hparked⟩
    · exact hc ▸ mem_set_of_some hx _
    · exact hp ▸ hpushes
  | _ => exact absurd trivial hok

end Wakefulness

/-- No worker is stranded as long as no `notify_all` of `Stop` falls between a worker's
false predicate and its parking.  The first that does, with no `Push` to notify after it,
lets a worker be stranded. -/
theorem stop_wakes_all (kind : QueueKind) {s : State}
    (h : (machine kind).Reachable (fun s a => ResizeAlone s a ∧ NoneParking s a) s) :
    ¬ Stranded s ∧ ∀ a t, step kind s a = some t → ¬ NoneParking s a →
      (∀ p ∈ s.pushes, p.pc = .notified ∨ p.pc = .returned) →
      ∃ u, (machine kind).Run ResizeAlone t u ∧ Stranded u :=
  ⟨(reachable_awake h).not_stranded, fun _ _ => stranded_of_parking⟩

/-- `Stop(true)` has woken worker 0 and waits for it.  Worker 1 runs a task. -/
def roused : State :=
  { threads := [some 0, some 1], flags := [some 0, some 1], cells := [false, false],
    isDone := true, nWaiting := 1,
    workers := [{ flag := 0, pc := .unparked },
      { flag := 1, pc := .running, hand := some ⟨0, 1⟩ }],
    pushes := [{ task := ⟨0, 1⟩, pc := .returned }],
    callers := [{ pc := .joining 0 0, began := [some 0, some 1] }],
    taken := [(1, ⟨0, 1⟩)], joins := [0] }

theorem roused_reachable :
    (machine .queue).Reachable (fun s a => ResizeAlone s a ∧ NoneParking s a) roused :=
  Machine.reachable_of_exec
    (List.flatten [construct 2, List.replicate 7 (.worker 0 0), [.push 1, .pushStep 0 none],
      List.replicate 3 (.worker 1 0), [.pushStep 0 none, .pushStep 0 (some 0), .pushStep 0 none],
      List.replicate 5 (.worker 0 0), [.call 0 (.stop true)], List.replicate 5 (.caller 0 0)])
    ⟨1, rfl⟩ (by decide)

theorem stop_wakes_all_roused : ¬ Stranded roused :=
  (stop_wakes_all .queue roused_reachable).1

/-- The worker read `is_done_` and its flag before `Stop(true)` gave its order, and
parked after the notification. -/
def stranded : State :=
  { threads := [some 0], flags := [some 0], cells := [false], isDone := true, nWaiting := 1,
    workers := [{ flag := 0, pc := .parked }],
    callers := [{ pc := .joining 0 0, began := [some 0] }], joins := [0] }

theorem stranded_reachable : (machine .queue).Reachable ResizeAlone stranded :=
  Machine.reachable_of_exec
    (List.flatten [construct 1, List.replicate 6 (.worker 0 0), [.call 0 (.stop true)],
      List.replicate 4 (.caller 0 0), [.worker 0 0, .caller 0 0]])
    ⟨1, rfl⟩ (by decide)

theorem stop_wakes_all_fails :
    ¬ ∀ s, (machine .queue).Reachable ResizeAlone s → ¬ Stranded s := by
  refine fun h => h stranded stranded_reachable ⟨?_, ?_, 0, { flag := 0, pc := .parked }, ?_⟩
  · decide
  · decide
  · exact ⟨by decide, rfl, rfl⟩

end ThreadPool
end TryAndLearn
