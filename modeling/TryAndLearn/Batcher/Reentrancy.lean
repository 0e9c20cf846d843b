import TryAndLearn.Batcher.Threads

/-!
# A notifier that uses its `Batcher`

The notification of a batch looks asynchronous and is not: the future of `std::async` is
a temporary, and its destructor waits for the notifier while `AddItem` holds `m_`.  So a
notifier call is under way only while the call of `AddItem` that launched it holds `m_`,
and an `AddItem` of its own never gets it.

`todo` says what a notifier call is going to add, so the condition `Silent` is on the
notifier, and a single call that adds an item is enough for the deadlock.
-/

namespace TryAndLearn
namespace BatcherThreads

variable {ν α : Type*}

/-- Thread `i` holds `m_` and waits for the notifier call on thread `j`, which waits for
`m_`. -/
structure Stuck (s : State ν α) (i j : Nat) : Prop where
  waits : ∃ th, s.threads[i]? = some th ∧ th.pc = .waiting j
  holds : s.mutex = some i
  blocked : ∃ th item, s.threads[j]? = some th ∧ th.pc = .locking item

def Deadlocked (s : State ν α) : Prop := ∃ i j, Stuck s i j

/-- Notifier calls add nothing. -/
def Silent (_ : State ν α) : Act ν α → Prop
  | .launch _ adds => adds = []
  | _ => True

instance (s : State ν α) : (a : Act ν α) → Decidable (Silent s a)
  | .launch _ adds => inferInstanceAs (Decidable (adds = []))
  | .call _ _ | .next _ | .lock _ | .emplace _ | .print _ | .join _ | .clear _ | .unlock _
  | .finish _ | .setNotifier _ | .setBatchSize _ => inferInstanceAs (Decidable True)

/-- A notifier call that has nothing to add is not in `AddItem`. -/
def Thread.Idles (th : Thread α) : Prop :=
  th.todo = none ∨ th.todo = some [] ∧ th.inAddItem = false

/-- What runs of silent notifiers keep: `AddItem` waits for notifier calls only, and these
are not in `AddItem`. -/
structure Idling (s : State ν α) : Prop where
  idles : ∀ th ∈ s.threads, th.Idles
  waits : ∀ (i : Nat) (th : Thread α) (task : Nat), s.threads[i]? = some th →
    th.pc = .waiting task → ∃ th', s.threads[task]? = some th' ∧ th'.todo = some []

section Step

variable {s t : State ν α} {a : Act ν α} {i j : Nat} {th th' : Thread α}

/-- A thread stays what it is, and waits for a notifier call if at all. -/
theorem Idling.goto (hs : Idling s) (hl : t.threads = s.threads.set i th')
    (h : s.threads[i]? = some th) (htodo : th'.todo = th.todo) (hidles : th'.Idles)
    (hpc : ∀ task, th'.pc = .waiting task →
      ∃ tt, s.threads[task]? = some tt ∧ tt.todo = some []) : Idling t where
  idles := by
    rw [hl]
    exact forall_mem_set hs.idles hidles
  waits k tk task hk hwaits := by
    rw [hl] at hk ⊢
    obtain ⟨tt, htt, hempty⟩ : ∃ tt, s.threads[task]? = some tt ∧ tt.todo = some [] := by
      rcases getElem?_set_cases hk with ⟨_, rfl⟩ | ⟨_, hk⟩
      · exact hpc task hwaits
      · exact hs.waits k tk task hk hwaits
    by_cases hti : task = i
    · subst hti
      obtain rfl := Option.some.inj (h.symm.trans htt)
      exact ⟨th', getElem?_set_of_some h th', htodo.trans hempty⟩
    · refine ⟨tt, ?_, hempty⟩
      rw [List.getElem?_set_ne (Ne.symm hti)]
      exact htt

/-- A silent notifier call starts. -/
theorem Idling.launch (hs : Idling s) :
    Idling { s with threads := s.threads ++ [{ todo := some [] }] } where
  idles th hth := by
    rcases List.mem_append.mp hth with hth | hth
    · exact hs.idles th hth
    · rw [List.mem_singleton.mp hth]
      exact .inr ⟨rfl, rfl⟩
  waits k tk task hk hwaits := by
    rcases getElem?_append_cases hk with ⟨_, rfl⟩ | hk
    · cases hwaits
    · obtain ⟨tt, htt, hempty⟩ := hs.waits k tk task hk hwaits
      refine ⟨tt, ?_, hempty⟩
      show (s.threads ++ _)[task]? = some tt
      rw [List.getElem?_append_left (List.getElem?_eq_some_iff.mp htt).1]
      exact htt

/-- A thread inside `AddItem` adds on its own account. -/
theorem Idling.todo_eq (hs : Idling s) (h : s.threads[i]? = some th)
    (hin : th.inAddItem = true) : th.todo = none := by
  rcases hs.idles th (List.mem_of_getElem? h) with hnone | ⟨_, hout⟩
  · exact hnone
  · rw [hin] at hout
    cases hout

theorem idling_step (hok : Silent s a) (h : Moved s a t) (hs : Idling s) : Idling t := by
  cases h with
  | @call i item th h hpc htodo => exact hs.goto rfl h rfl (.inl htodo) (by simp)
  | @next i item rest th h hpc htodo =>
    rcases hs.idles th (List.mem_of_getElem? h) with hnone | ⟨hempty, _⟩
    · rw [htodo] at hnone
      cases hnone
    · rw [htodo] at hempty
      cases hempty
  | @lock i item th h hpc _ | @cached i item th h hpc _ | @filled i item th h hpc _ =>
    have htodo := hs.todo_eq h (by simp [Thread.inAddItem, hpc])
    exact hs.goto rfl h rfl (.inl htodo) (by simp)
  | @print i th h hpc _ | @join i task th th'' h hpc _ _ | @clear i th h hpc
  | @unlock i th h hpc =>
    have htodo := hs.todo_eq h (by simp [Thread.inAddItem, hpc])
    exact hs.goto rfl h rfl (.inl htodo) (by simp)
  | @finish i th h hpc htodo => exact hs.goto rfl h rfl (.inr ⟨htodo, rfl⟩) (by simp)
  | @launch i adds notifier th h hpc _ =>
    obtain rfl : adds = [] := hok
    have htodo := hs.todo_eq h (by simp [Thread.inAddItem, hpc])
    have hlt := (List.getElem?_eq_some_iff.mp h).1
    have h' : (s.threads ++ [{ todo := some [] }])[i]? = some th := by
      rw [List.getElem?_append_left hlt]
      exact h
    refine hs.launch.goto (List.set_append_left i _ hlt).symm h' rfl (.inl htodo)
      fun task htask => ?_
    obtain rfl := Pc.waiting.inj htask
    exact ⟨_, List.getElem?_concat_length, rfl⟩
  | setNotifier _ | setBatchSize _ => exact ⟨hs.idles, hs.waits⟩

theorem reachable_idling (h : machine.Reachable Silent s) : Idling s := by
  refine h.invariant (fun s₀ h₀ => ?_) fun _ hok hs hI => idling_step hok (moved_of_step hs) hI
  obtain ⟨n, rfl⟩ := h₀
  refine ⟨fun th hth => ?_, fun i th task hi hpc => ?_⟩
  · rw [(List.mem_replicate.mp hth).2]
    exact .inl rfl
  · rw [(List.mem_replicate.mp (List.mem_of_getElem? hi)).2] at hpc
    cases hpc

theorem not_deadlocked (h : machine.Reachable Silent s) : ¬ Deadlocked s := by
  rintro ⟨i, j, hstuck⟩
  have hs := reachable_idling h
  obtain ⟨th, hth, hwaits⟩ := hstuck.waits
  obtain ⟨tj, item, htj, hpc⟩ := hstuck.blocked
  obtain ⟨tt, htt, hempty⟩ := hs.waits i th j hth hwaits
  obtain rfl := Option.some.inj (htj.symm.trans htt)
  have hnone := hs.todo_eq htj (by simp [Thread.inAddItem, hpc])
  rw [hempty] at hnone
  cases hnone

/-- A notifier call that is awaited by the holder of `m_` gets stuck as soon as it adds an
item. -/
theorem stuck_of_next {item : α} {rest : List α} (hth : s.threads[i]? = some th)
    (hwaits : th.pc = .waiting j) (hmutex : s.mutex = some i)
    (hj : s.threads[j]? = some ⟨.outside, some (item :: rest)⟩) :
    ∃ t, step s (.next j) = some t ∧ Stuck t i j := by
  have hij : j ≠ i := by
    rintro rfl
    obtain rfl := Option.some.inj (hth.symm.trans hj)
    cases hwaits
  refine ⟨s.goto j { pc := .locking item, todo := some rest }, ?_, ⟨th, ?_, hwaits⟩, hmutex,
    ⟨_, item, getElem?_set_of_some hj _, rfl⟩⟩
  · simp only [step, hj, Option.bind_some]
  · show (s.threads.set j _)[i]? = some th
    rw [List.getElem?_set_ne hij]
    exact hth

/-- After a launch the thread inside `AddItem` waits for the new notifier call. -/
theorem launched {adds : List α} (hs : step s (.launch i adds) = some t) :
    (∃ th, s.threads[i]? = some th ∧ th.pc = .emitting) ∧
      (∃ th, t.threads[i]? = some th ∧ th.pc = .waiting s.threads.length) ∧
      t.threads[s.threads.length]? = some ⟨.outside, some adds⟩ ∧ t.mutex = s.mutex := by
  cases moved_of_step hs with
  | @launch _ _ notifier th h hpc _ =>
    have hlength : (s.threads.set i { th with pc := .waiting s.threads.length }).length =
        s.threads.length := List.length_set
    have hlt := (List.getElem?_eq_some_iff.mp h).1
    refine ⟨⟨th, h, hpc⟩, ⟨{ th with pc := .waiting s.threads.length }, ?_, rfl⟩, ?_, rfl⟩
    · show (s.threads.set i _ ++ _)[i]? = _
      rw [List.getElem?_append_left (by omega)]
      exact getElem?_set_of_some h _
    · show (s.threads.set i _ ++ _)[s.threads.length]? = _
      rw [List.getElem?_append_right (by omega), hlength, Nat.sub_self]
      rfl

theorem deadlocked_of_launch {adds : List α} (h : machine.Reachable Silent s)
    (hs : step s (.launch i adds) = some t) (hadds : adds ≠ []) :
    ∃ u, machine.Run Silent t u ∧ Deadlocked u := by
  obtain ⟨item, rest, rfl⟩ := List.exists_cons_of_ne_nil hadds
  obtain ⟨⟨th, hth, hpc⟩, ⟨th', hth', hwaits⟩, hnew, hmutex⟩ := launched hs
  have hholder := reachable_exclusive h i th hth (by rw [hpc]; rfl)
  obtain ⟨u, hu, hstuck⟩ := stuck_of_next hth' hwaits (hmutex.trans hholder) hnew
  exact ⟨u, .single (a := .next s.threads.length) trivial hu, i, _, hstuck⟩

/-- Nobody gets out of it. -/
theorem stuck_step (hs : Exclusive s) (h : Moved s a t) (hstuck : Stuck s i j) : Stuck t i j := by
  obtain ⟨⟨ti, hti, hwaits⟩, hmutex, tj, item, htj, hpcj⟩ := hstuck
  have hkeep {k : Nat} {th th' : Thread α} {b : Batcher ν α} (h : s.threads[k]? = some th)
      (hi : th.pc ≠ .waiting j) (hj : th.pc ≠ .locking item) :
      Stuck { s.goto k th' with batcher := b } i j := by
    have hki : k ≠ i := by
      rintro rfl
      obtain rfl := Option.some.inj (h.symm.trans hti)
      exact hi hwaits
    have hkj : k ≠ j := by
      rintro rfl
      obtain rfl := Option.some.inj (h.symm.trans htj)
      exact hj hpcj
    refine ⟨⟨ti, ?_, hwaits⟩, hmutex, tj, item, ?_, hpcj⟩
    · show (s.threads.set k th')[i]? = some ti
      rw [List.getElem?_set_ne hki]
      exact hti
    · show (s.threads.set k th')[j]? = some tj
      rw [List.getElem?_set_ne hkj]
      exact htj
  cases h with
  | call h hpc _ | next h hpc _ | finish h hpc _ | cached h hpc _ | filled h hpc _
  | print h hpc _ | clear h hpc => exact hkeep h (by simp [hpc]) (by simp [hpc])
  | lock h hpc hfree =>
    rw [hmutex] at hfree
    cases hfree
  | @launch k adds notifier th h hpc _ =>
    have hstuck : Stuck (s.goto k { th with pc := .waiting s.threads.length }) i j :=
      hkeep h (by simp [hpc]) (by simp [hpc])
    obtain ⟨⟨ti, hti, hwaits⟩, hmutex, tj, item, htj, hpcj⟩ := hstuck
    refine ⟨⟨ti, ?_, hwaits⟩, hmutex, tj, item, ?_, hpcj⟩
    · exact (List.getElem?_append_left (List.getElem?_eq_some_iff.mp hti).1).trans hti
    · exact (List.getElem?_append_left (List.getElem?_eq_some_iff.mp htj).1).trans htj
  | @join k task th th' h hpc h' hpc' =>
    -- the awaited notifier call is the one that is blocked
    by_cases hki : k = i
    · subst hki
      obtain rfl := Option.some.inj (h.symm.trans hti)
      obtain rfl := Pc.waiting.inj (hpc.symm.trans hwaits)
      obtain rfl := Option.some.inj (h'.symm.trans htj)
      rw [hpcj] at hpc'
      cases hpc'
    · have hholder := hs k th h (by rw [hpc]; rfl)
      exact absurd (Option.some.inj (hholder.symm.trans hmutex)) hki
  | @unlock k th h hpc =>
    have hholder := hs k th h (by rw [hpc]; rfl)
    obtain rfl := Option.some.inj (hholder.symm.trans hmutex)
    obtain rfl := Option.some.inj (h.symm.trans hti)
    rw [hpc] at hwaits
    cases hwaits
  | setNotifier _ | setBatchSize _ => exact ⟨⟨ti, hti, hwaits⟩, hmutex, tj, item, htj, hpcj⟩

/-- The deadlock lasts, whatever the other threads do. -/
theorem deadlock_lasts {ok : State ν α → Act ν α → Prop} (h : machine.Reachable ok s)
    (hrun : machine.Run ok s t) (hstuck : Stuck s i j) : Stuck t i j := by
  refine hrun.invariant (I := fun t => Stuck t i j) ?_ hstuck
  exact fun hr _ hs hI => stuck_step (reachable_exclusive (h.run hr)) (moved_of_step hs) hI

end Step

/-- As long as notifier calls add nothing, no `AddItem` waits for a notifier call that
waits for it.  The first one that is going to add an item makes such a state reachable. -/
theorem notifier_may_add {s : State ν α} (h : machine.Reachable Silent s) :
    ¬ Deadlocked s ∧
      ∀ i adds t, step s (.launch i adds) = some t →
        ((∀ u, machine.Run Silent t u → ¬ Deadlocked u) ↔ adds = []) := by
  refine ⟨not_deadlocked h, fun i adds t hs => ⟨fun hnever => ?_, fun hadds u hrun => ?_⟩⟩
  · by_contra hadds
    obtain ⟨u, hrun, hdead⟩ := deadlocked_of_launch h hs hadds
    exact hnever u hrun hdead
  · have hnext : machine.Reachable Silent t := h.next (a := .launch i adds) hadds hs
    exact not_deadlocked (hnext.run hrun)

/-- Thread 0 has filled a batch and a silent notifier call has come and gone; thread 1
waits for `m_`. -/
def notified : State Nat Nat :=
  { batcher := { cache := [5], notifier := some 7 }, mutex := some 0,
    threads := [⟨.waiting 2, none⟩, ⟨.locking 6, none⟩, ⟨.returned, some []⟩] }

theorem notifier_may_add_silent : ¬ Deadlocked notified :=
  (notifier_may_add <|
    Machine.reachable_of_exec (s := { threads := List.replicate 2 {} })
      [.setNotifier (some 7), .call 0 5, .lock 0, .emplace 0, .call 1 6, .launch 0 [], .finish 2]
      ⟨2, rfl⟩ (by decide)).1

/-- The notifier adds one item to the batcher that calls it. -/
def reentered : State Nat Nat :=
  { batcher := { cache := [5], notifier := some 7 }, mutex := some 0,
    threads := [⟨.waiting 1, none⟩, ⟨.locking 6, some []⟩] }

theorem notifier_may_add_fails :
    machine.Reachable Machine.anyStep reentered ∧ Deadlocked reentered :=
  ⟨Machine.reachable_of_exec (s := { threads := List.replicate 1 {} })
      [.setNotifier (some 7), .call 0 5, .lock 0, .emplace 0, .launch 0 [6], .next 1]
      ⟨1, rfl⟩ (by decide),
    0, 1, ⟨_, rfl, rfl⟩, rfl, ⟨_, 6, rfl, rfl⟩⟩

end BatcherThreads
end TryAndLearn
