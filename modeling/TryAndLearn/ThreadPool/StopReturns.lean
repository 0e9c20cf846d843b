import TryAndLearn.ThreadPool.Ready
import TryAndLearn.ThreadPool.Resize
import TryAndLearn.ThreadPool.StopWakeup

/-!
# `Stop` returns

A `Stop` that notifies while no worker of `threads_` is between a false predicate and its
parking comes to its end under any scheduler, once nobody pushes or calls the pool: the
workers it joins run what they have taken, and with `wait_all_task_done` also what is in
the queue, and leave.  The destructor is a call of `Stop(true)`.
-/

namespace TryAndLearn
namespace ThreadPool

/-- The `Stop` of `c` has returned, the vectors are empty and the workers it found have
left. -/
def Stopped (c : Nat) (T : List (Option Nat)) (s : State) : Prop :=
  (∃ x ∈ s.callers[c]?, x.pc = .stopped) ∧ (s.threads = [] ∧ s.flags = []) ∧ s.Gone T

/-- What holds where a `Stop` stands that found `T` and has the vectors to itself. -/
def Place (T : List (Option Nat)) (s : State) : CallerPc → Prop
  | .stopped => s.threads = [] ∧ s.Gone T
  | pc => s.threads = T ∧ pc.kind = .stop

/-- The `Stop` of `c` is under way beside no other and no `Resize`. -/
structure Stopping (kind : QueueKind) (c : Nat) (T : List (Option Nat)) (s : State) : Prop where
  reachable : (machine kind).Reachable (fun s a => ResizeAlone s a ∧ NoneParking s a) s
  alone : AloneAt c s
  ready : ∀ y ∈ s.callers, Ready s y.pc
  caller : ∃ x, s.callers[c]? = some x ∧ Place T s x.pc

section Place

variable {kind : QueueKind} {s t : State} {a : Act} {c : Nat} {x : Caller}
  {T : List (Option Nat)}

theorem Place.kind_cases {pc : CallerPc} (h : Place T s pc) : pc.kind = .stop ∨ pc = .stopped := by
  cases pc <;> simp [CallerPc.kind] <;> simp [Place, CallerPc.kind] at h

theorem Place.kind_ne {pc : CallerPc} (h : Place T s pc) : pc.kind ≠ .resize := by
  rcases h.kind_cases with hk | rfl
  · rw [hk]
    decide
  · decide

theorem Place.threads_eq {pc : CallerPc} (h : Place T s pc) (hk : pc.kind = .stop) :
    s.threads = T := by
  cases pc <;> first | exact h.1 | exact absurd hk (by simp [CallerPc.kind])

theorem Place.next {pc : CallerPc} (hs : Place T s pc) (h : Moved kind s a t)
    (ht : t.threads = s.threads) : Place T t pc := by
  cases pc <;> simp only [Place, ht] at hs ⊢ <;> first | exact hs | exact ⟨hs.1, hs.2.next h⟩

/-- The guard of a `Stop` that has the vectors to itself turns it away after an earlier
`Stop` has emptied the pool. -/
theorem place_refused (hcleared : Cleared s) (ha : AloneAt c s) (hx : s.callers[c]? = some x)
    (hrefused : s.refuses x.pc = true) (hT : s.threads = T) : Place T s .stopped := by
  have hnil : s.threads = [] := by
    refine (hcleared (ordered_of_refuses hrefused)).resolve_right ?_
    rintro ⟨y, hy, ho⟩
    obtain ⟨d, hd⟩ := List.getElem?_of_mem hy
    by_cases hdc : d = c
    · subst hdc
      obtain rfl := Option.some.inj (hx.symm.trans hd)
      exact absurd ((not_ordered_of_refuses hrefused).symm.trans ho) (by decide)
    · have hother := ha d y hd hdc
      exact absurd (hother.symm.trans (CallerPc.kind_of_ordered ho)) (by decide)
  refine ⟨hnil, ?_⟩
  rw [← hT, hnil]
  exact fun _ hentry => absurd hentry List.not_mem_nil

theorem place_goto {pc : CallerPc} (hcleared : Cleared s) (ha : AloneAt c s)
    (hx : s.callers[c]? = some x) (hplace : Place T s x.pc) (hgo : CallerGoto s x.pc pc) :
    Place T s pc := by
  have hk := hplace.kind_ne
  cases hgo with
  | resizeStopped h _ | resizeNotStopped h _ | resizeDone h _ | resizeNotDone h _ | shrink h _
  | grown h _ | shrunk h _ => exact absurd (by rw [h]; rfl) hk
  | stopDone h hd | stopStopped h hd =>
    have hT := hplace.threads_eq (by rw [h]; rfl)
    exact place_refused hcleared ha hx (by rw [h]; exact hd) hT
  | stopNotDone h _ | stopNotStopped h _ | stopSize h | flagged h _ | joinSkip h _ _ _
  | joinedAll h _ =>
    exact ⟨hplace.threads_eq (by rw [h]; rfl), rfl⟩

theorem place_of_removes {pc onTask onEmpty : CallerPc} {who : Remover}
    (h : pc.removes = some (who, onTask, onEmpty)) (hplace : Place T s pc) :
    Place T s onTask ∧ Place T s onEmpty := by
  cases pc <;> simp only [CallerPc.removes, Option.some.injEq, Prod.mk.injEq, reduceCtorEq] at h <;>
    obtain ⟨_, rfl, rfl⟩ := h
  · exact ⟨⟨hplace.1, rfl⟩, hplace.1, rfl⟩
  · exact ⟨⟨hplace.1, rfl⟩, hplace.1, rfl⟩
  · exact absurd hplace.2 (by decide)
  · exact absurd hplace.2 (by decide)

/-- The steps of the `Stop` itself. -/
theorem place_own {choice : Nat} (hr : (machine kind).Reachable ResizeAlone s)
    (ha : AloneAt c s) (hx : s.callers[c]? = some x) (hplace : Place T s x.pc)
    (h : Moved kind s (.caller c choice) t) :
    ∃ y, t.callers[c]? = some y ∧ Place T t y.pc := by
  have hmoved := h
  have hnone {x' : Caller} (h : s.callers[c]? = some x') {P : Prop}
      (hk : x'.pc.kind = .resize) : P := by
    obtain rfl := Option.some.inj (hx.symm.trans h)
    exact absurd hk hplace.kind_ne
  have hset {x' : Caller} {y : Caller} (h : s.callers[c]? = some x')
      (hc : t.callers = s.callers.set c y) (hy : Place T t y.pc) :
      ∃ y, t.callers[c]? = some y ∧ Place T t y.pc :=
    ⟨y, by rw [hc]; exact getElem?_set_of_some h y, hy⟩
  have hstop {x' : Caller} (h : s.callers[c]? = some x') (hk : x'.pc.kind = .stop) :
      s.threads = T := by
    obtain rfl := Option.some.inj (hx.symm.trans h)
    exact hplace.threads_eq hk
  cases h with
  | callerGoto h hgo =>
    obtain rfl := Option.some.inj (hx.symm.trans h)
    exact hset h rfl ((place_goto (reachable_cleared hr) ha hx hplace hgo).next hmoved rfl)
  | remove h hpc _ =>
    obtain rfl := Option.some.inj (hx.symm.trans h)
    exact hset h rfl ((place_of_removes hpc hplace).1.next hmoved rfl)
  | removeNone h hpc _ =>
    obtain rfl := Option.some.inj (hx.symm.trans h)
    exact hset h rfl ((place_of_removes hpc hplace).2.next hmoved rfl)
  | setFlag h hpc _ =>
    rcases hpc with ⟨_, hpc, _⟩ | ⟨n, hpc, hn, rfl⟩
    · exact hnone h (by rw [hpc]; rfl)
    · exact hset h rfl ⟨hstop h (by rw [hpc]; rfl), rfl⟩
  | notifyAll h hpc =>
    rcases hpc with ⟨_, hpc, _⟩ | ⟨hpc, rfl⟩
    · exact hnone h (by rw [hpc]; rfl)
    · exact hset h rfl ⟨hstop h (by rw [hpc]; rfl), rfl⟩
  | setDone h hpc | setStop h hpc => exact hset h rfl ⟨hstop h (by rw [hpc]; rfl), rfl⟩
  | join h hpc _ _ _ | joined h hpc _ _ => exact hset h rfl ⟨hstop h (by rw [hpc]; rfl), rfl⟩
  | stopErase h hpc =>
    refine hset h rfl ⟨rfl, ?_⟩
    rw [← hstop h (by rw [hpc]; rfl)]
    exact (gone_of_phase (reachable_wired hr) (reachable_phase hr) (List.mem_of_getElem? h)
      (.inr hpc)).next hmoved
  | grow h hpc _ | growFlag h hpc _ _ | growThread h hpc _ _ | detach h hpc _ _ _
  | shrinkLock h hpc _ | shrinkUnlock h hpc | shrinkErase h hpc =>
    exact hnone h (by rw [hpc]; rfl)

theorem Serves.during {c : Nat} (h : Serves s a) : During c s a := by
  cases a <;> trivial

theorem Stopping.next (h : Stopping kind c T s) (hok : Serves s a ∧ NoneParking s a)
    (hs : step kind s a = some t) : Stopping kind c T t := by
  have hr := h.reachable.mono fun _ _ hok => hok.1
  have hmoved := moved_of_step hs
  refine ⟨h.reachable.next ⟨hok.1.quiet.resizeAlone, hok.2⟩ hs,
    aloneAt_step hok.1.during hs h.alone, ready_step h.alone.sequential hr hmoved h.ready, ?_⟩
  obtain ⟨x, hx, hplace⟩ := h.caller
  by_cases hact : ∃ choice, a = .caller c choice
  · obtain ⟨choice, rfl⟩ := hact
    exact place_own hr h.alone hx hplace hmoved
  · have hsame := hmoved.sameVectors h.alone (fun choice ha => hact ⟨choice, ha⟩) fun op ha => by
      subst ha
      exact hok.1
    exact ⟨x, hsame.caller.trans hx, hplace.next hmoved hsame.threads⟩

end Place

/-! ## Somebody can go on -/

section Steps

variable {kind : QueueKind} {s : State} {c : Nat} {T : List (Option Nat)}

theorem State.Works.noneParking {a : Act} (h : s.Works a) : NoneParking s a := by
  cases a with
  | caller d choice =>
    obtain ⟨x, hx, hk⟩ := h
    intro y hy hpc
    obtain rfl := Option.some.inj (hx.symm.trans hy)
    rw [hpc] at hk
    exact absurd hk (by decide)
  | _ => trivial

/-- When all workers sleep or have left, none is in the window. -/
theorem noneParking_of_asleep {a : Act}
    (hasleep : ∀ y ∈ s.workers, y.pc = .parked ∨ y.pc = .exited) : NoneParking s a := by
  cases a with
  | caller d choice =>
    intro x _ _ entry _ w _ y hy hparks
    rcases hasleep y (List.mem_of_getElem? hy) with hpc | hpc <;>
      rcases hparks with hp | ⟨hp, _⟩ <;> exact absurd (hp.symm.trans hpc) (by decide)
  | _ => trivial

/-- A `Stop` that joins finds its worker gone when all workers sleep or have left. -/
theorem exited_of_asleep
    (h : (machine kind).Reachable (fun s a => ResizeAlone s a ∧ NoneParking s a) s)
    (hasleep : ∀ y ∈ s.workers, y.pc = .parked ∨ y.pc = .exited) {x : Caller}
    (hx : x ∈ s.callers) (hready : Ready s x.pc) (i w : Nat) (hpc : x.pc = .joining i w) :
    s.HasExited w := by
  rw [hpc] at hready
  obtain ⟨y, hy, _⟩ := (reachable_wired (h.mono fun _ _ hok => hok.1)).slot i w hready
  refine ⟨y, hy, (hasleep y (List.mem_of_getElem? hy)).resolve_left ?_⟩
  exact (reachable_awake h x hx (by rw [hpc]; rfl) w y (List.mem_of_getElem? hready) hy).1

theorem Stopping.exists_step (h : Stopping kind c T s) (hstopped : ¬Stopped c T s) :
    ∃ a t, (Serves s a ∧ NoneParking s a) ∧ step kind s a = some t := by
  by_contra hnone
  have hr := h.reachable.mono fun _ _ hok => hok.1
  obtain ⟨x, hx, hplace⟩ := h.caller
  have hmem := List.mem_of_getElem? hx
  obtain ⟨_, _, hasleep⟩ := asleep_of_stuck (reachable_held hr)
    fun ⟨a, t, ha, hs⟩ => hnone ⟨a, t, ⟨ha.serves, ha.noneParking⟩, hs⟩
  have hk : x.pc.kind = .stop := by
    refine hplace.kind_cases.resolve_right fun hpc => hstopped ⟨⟨x, hx, hpc⟩, ?_⟩
    rw [hpc] at hplace
    have hflags : s.flags = [] := by
      rw [← List.length_eq_zero_iff, reachable_length hr, hplace.1, List.length_nil]
    exact ⟨⟨hplace.1, hflags⟩, hplace.2⟩
  obtain ⟨choice, t, hs⟩ : ∃ choice t, step kind s (.caller c choice) = some t :=
    exists_step_of_stop hr hx hk (h.ready x hmem)
      (exited_of_asleep h.reachable hasleep hmem (h.ready x hmem))
  exact hnone ⟨.caller c choice, t, ⟨trivial, noneParking_of_asleep hasleep⟩, hs⟩

end Steps

/-- A `Stop` that nobody else's `Stop` or `Resize` runs beside returns, whatever the
scheduler does, if nobody pushes or calls any more, none is woken without a notification
and it does not notify in a worker's window. -/
theorem inevitable_stopped (kind : QueueKind) {s t : State} {c : Nat} {wait : Bool}
    (h : (machine kind).Reachable (fun s a => ResizeAlone s a ∧ NoneParking s a) s)
    (hother : ∀ y ∈ s.callers, y.pc.kind = .other)
    (hcall : step kind s (.call c (.stop wait)) = some t) :
    (machine kind).Inevitable (fun s a => Serves s a ∧ NoneParking s a)
      (Stopped c s.threads) t := by
  have hstart : Stopping kind c s.threads t := by
    refine ⟨h.next (a := .call c (.stop wait)) ⟨fun y hy => ?_, trivial⟩ hcall, ?_, ?_, ?_⟩
    · rw [hother y hy]
      decide
    · cases moved_of_step hcall with
      | call hx _ =>
        intro d y hd hne
        exact hother y (List.mem_of_getElem? (by rwa [State.setCaller,
          List.getElem?_set_ne (Ne.symm hne)] at hd))
    · exact ready_step (sequential_of_other hother) (h.mono fun _ _ hok => hok.1)
        (moved_of_step hcall) fun y hy => ready_of_kind (hother y hy)
    · cases moved_of_step hcall with
      | call hx _ =>
        refine ⟨_, getElem?_set_of_some hx _, ?_⟩
        cases wait <;> exact ⟨rfl, rfl⟩
  refine Machine.Inevitable.of_measure (I := Stopping kind c s.threads) wellFounded_less State.work
    (fun h hstopped => h.exists_step hstopped) (fun h _ hok hs => ?_) hstart
  exact ⟨h.next hok hs, less_step h.alone.sequential
    (reachable_placed (h.reachable.mono fun _ _ hok => hok.1)) hok.1 (moved_of_step hs)⟩

/-- Worker 0 waits and worker 1 runs a task. -/
def halfAsleep : State :=
  { threads := [some 0, some 1], flags := [some 0, some 1], cells := [false, false],
    nWaiting := 1,
    workers := [{ flag := 0, pc := .parked },
      { flag := 1, pc := .running, hand := some ⟨0, 1⟩ }],
    pushes := [{ task := ⟨0, 1⟩, pc := .returned }], callers := [{}], taken := [(1, ⟨0, 1⟩)] }

theorem halfAsleep_reachable :
    (machine .queue).Reachable (fun s a => ResizeAlone s a ∧ NoneParking s a) halfAsleep :=
  Machine.reachable_of_exec
    (List.flatten [construct 2, List.replicate 7 (.worker 0 0), [.push 1, .pushStep 0 none],
      List.replicate 3 (.worker 1 0), [.pushStep 0 none, .pushStep 0 (some 0), .pushStep 0 none],
      List.replicate 5 (.worker 0 0)])
    ⟨1, rfl⟩ (by decide)

theorem inevitable_stopped_halfAsleep :
    (machine .queue).Inevitable (fun s a => Serves s a ∧ NoneParking s a)
      (Stopped 0 [some 0, some 1])
      { halfAsleep with callers := [{ pc := .stopIfDone, began := [some 0, some 1] }] } :=
  inevitable_stopped .queue halfAsleep_reachable (by decide)
    (rfl : step .queue halfAsleep (.call 0 (.stop true)) = some _)

end ThreadPool
end TryAndLearn
