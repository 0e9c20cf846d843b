import TryAndLearn.Machine.Inevitable
import TryAndLearn.Batcher.Reentrancy

/-!
# Every `AddItem` returns

As long as notifiers leave their batcher alone, an `AddItem` waits for `m_` and for a
notifier call, and neither wait goes round in a circle: who holds `m_` waits for a
notifier call only, and a notifier call for nobody.  So once no new item is added, all
calls return and all notifier calls end.
-/

namespace TryAndLearn
namespace BatcherThreads

variable {ν α : Type*}

/-- The threads go on with what they do, and notifier calls add nothing. -/
def Completes (_ : State ν α) : Act ν α → Prop
  | .call _ _ | .setNotifier _ | .setBatchSize _ => False
  | .launch _ adds => adds = []
  | _ => True

theorem Completes.silent {s : State ν α} {a : Act ν α} (h : Completes s a) : Silent s a := by
  cases a with
  | launch i adds => exact h
  | _ => trivial

/-- Every `AddItem` has returned and every notifier call has ended. -/
structure Done (s : State ν α) : Prop where
  mutex : s.mutex = none
  threads : ∀ th ∈ s.threads, th.pc = .outside ∧ th.todo = none ∨ th.pc = .returned

/-- A bound on the steps the thread has before it, with those of the notifier call it is
going to launch. -/
def Thread.rest (th : Thread α) : Nat :=
  match th.pc with
  | .locking _ => 8
  | .adding _ => 7
  | .emitting => 6
  | .waiting _ => 4
  | .clearing => 3
  | .unlocking => 2
  | .outside => th.todo.isSome.toNat
  | .returned => 0

/-- `m_` is held by a thread that is inside `AddItem`. -/
def Held (s : State ν α) : Prop :=
  ∀ i, s.mutex = some i → ∃ th, s.threads[i]? = some th ∧ th.pc.holds = true

section Progress

variable {s t : State ν α} {a : Act ν α} {i : Nat} {th th' : Thread α}

/-! ## The mutex -/

theorem Held.goto (hs : Held s) (h : s.threads[i]? = some th) (hm : t.mutex = s.mutex)
    (hl : t.threads = s.threads.set i th') (hpc : th.pc.holds = true → th'.pc.holds = true) :
    Held t := by
  intro j hj
  obtain ⟨tj, htj, hholds⟩ := hs j (hm ▸ hj)
  rw [hl]
  by_cases hji : j = i
  · subst hji
    obtain rfl := Option.some.inj (h.symm.trans htj)
    exact ⟨th', getElem?_set_of_some h th', hpc hholds⟩
  · exact ⟨tj, by rwa [List.getElem?_set_ne (Ne.symm hji)], hholds⟩

theorem held_step (h : Moved s a t) (hs : Held s) : Held t := by
  cases h with
  | call h hpc _ | next h hpc _ | finish h hpc _ =>
    exact hs.goto h rfl rfl (by simp [Pc.holds, hpc])
  | cached h hpc _ | filled h hpc _ | print h hpc _ | join h hpc _ _ | clear h hpc =>
    exact hs.goto h rfl rfl fun _ => rfl
  | lock h hpc _ =>
    intro j hj
    obtain rfl := Option.some.inj hj
    exact ⟨_, getElem?_set_of_some h _, rfl⟩
  | unlock h hpc => exact fun j hj => by cases hj
  | @launch i adds notifier th h hpc _ =>
    intro j hj
    have hgoto : Held (s.goto i { th with pc := .waiting s.threads.length }) :=
      hs.goto h rfl rfl fun _ => rfl
    obtain ⟨tj, htj, hholds⟩ := hgoto j hj
    exact ⟨tj, (List.getElem?_append_left (List.getElem?_eq_some_iff.mp htj).1).trans htj, hholds⟩
  | setNotifier _ | setBatchSize _ => exact hs

theorem reachable_held {ok : State ν α → Act ν α → Prop} (h : machine.Reachable ok s) :
    Held s := by
  refine h.invariant (fun s₀ h₀ => ?_) fun _ _ hs hI => held_step (moved_of_step hs) hI
  obtain ⟨n, rfl⟩ := h₀
  exact fun i hi => by cases hi

/-! ## The measure -/

theorem less_goto (h : s.threads[i]? = some th) (hl : t.threads = s.threads.set i th')
    (hlt : th'.rest < th.rest) : tally Thread.rest t.threads < tally Thread.rest s.threads := by
  have := tally_set h Thread.rest th'
  rw [hl]
  omega

theorem less_step (hs : Idling s) (hok : Completes s a) (h : Moved s a t) :
    tally Thread.rest t.threads < tally Thread.rest s.threads := by
  cases h with
  | call | setNotifier | setBatchSize => exact hok.elim
  | next h hpc htodo =>
    rcases hs.idles _ (List.mem_of_getElem? h) with hnone | ⟨hempty, _⟩
    · exact absurd (hnone.symm.trans htodo) (by simp)
    · exact absurd (hempty.symm.trans htodo) (by simp)
  | lock h hpc _ | cached h hpc _ | filled h hpc _ | print h hpc _ | join h hpc _ _
  | clear h hpc => exact less_goto h rfl (by simp [Thread.rest, hpc])
  | finish h hpc htodo => exact less_goto h rfl (by simp [Thread.rest, hpc, htodo])
  | unlock h hpc =>
    refine less_goto h rfl ?_
    simp only [Thread.rest, hpc]
    exact Nat.lt_succ_of_le (Bool.toNat_le _)
  | @launch i adds notifier th h hpc _ =>
    have hset := tally_set h Thread.rest { th with pc := .waiting s.threads.length }
    simp only [tally_append, tally_cons, tally_nil, Thread.rest, hpc, Option.isSome_some,
      Bool.toNat_true] at hset ⊢
    omega

/-! ## Somebody can go on -/

/-- A notifier call that is awaited has ended or can end. -/
theorem exists_step_of_waiting {task : Nat} (hs : Idling s) (h : s.threads[i]? = some th)
    (hpc : th.pc = .waiting task) : ∃ a t, Completes s a ∧ step s a = some t := by
  obtain ⟨tt, htt, hempty⟩ := hs.waits i th task h hpc
  have hidles := hs.idles tt (List.mem_of_getElem? htt)
  have hout : tt.inAddItem = false := by
    rcases hidles with hnone | ⟨_, hout⟩
    · exact absurd (hnone.symm.trans hempty) (by simp)
    · exact hout
  cases hpc' : tt.pc with
  | outside =>
    exact ⟨.finish task, _, trivial, by rw [step, htt, Option.bind_some, hpc', hempty]⟩
  | returned =>
    refine ⟨.join i, s.goto i { th with pc := .clearing }, trivial, ?_⟩
    simp only [step, h, htt, hpc, hpc', Option.bind_some]
  | _ => simp [Thread.inAddItem, hpc'] at hout

theorem exists_step_of_holds (hs : Idling s) (h : s.threads[i]? = some th)
    (hholds : th.pc.holds = true) : ∃ a t, Completes s a ∧ step s a = some t := by
  cases hpc : th.pc with
  | outside | locking item | returned => simp [Pc.holds, hpc] at hholds
  | waiting task => exact exists_step_of_waiting hs h hpc
  | adding item => exact ⟨.emplace i, _, trivial, by rw [step, h, Option.bind_some, hpc]⟩
  | clearing => exact ⟨.clear i, _, trivial, by rw [step, h, Option.bind_some, hpc]⟩
  | unlocking => exact ⟨.unlock i, _, trivial, by rw [step, h, Option.bind_some, hpc]⟩
  | emitting =>
    cases hn : s.batcher.notifier with
    | none => exact ⟨.print i, _, trivial, by rw [step, h, Option.bind_some, hpc, hn]⟩
    | some notifier => exact ⟨.launch i [], _, rfl, by rw [step, h, Option.bind_some, hpc, hn]⟩

theorem exists_step (hs : Idling s) (hheld : Held s) (hdone : ¬Done s) :
    ∃ a t, Completes s a ∧ step s a = some t := by
  by_cases hfree : s.mutex = none
  · obtain ⟨th, hth, hrest⟩ :
        ∃ th ∈ s.threads, ¬(th.pc = .outside ∧ th.todo = none ∨ th.pc = .returned) := by
      by_contra hnone
      exact hdone ⟨hfree, fun th hth => by_contra fun hrest => hnone ⟨th, hth, hrest⟩⟩
    obtain ⟨i, h⟩ := List.getElem?_of_mem hth
    by_cases hholds : th.pc.holds = true
    · exact exists_step_of_holds hs h hholds
    · cases hpc : th.pc with
      | returned => exact absurd (.inr hpc) hrest
      | locking item => exact ⟨.lock i, _, trivial, by rw [step, h, Option.bind_some, hpc, hfree]⟩
      | outside =>
        rcases hs.idles th hth with hnone | ⟨hempty, _⟩
        · exact absurd (.inl ⟨hpc, hnone⟩) hrest
        · exact ⟨.finish i, _, trivial, by rw [step, h, Option.bind_some, hpc, hempty]⟩
      | _ => simp [Pc.holds, hpc] at hholds
  · obtain ⟨i, hi⟩ := Option.ne_none_iff_exists'.mp hfree
    obtain ⟨th, h, hholds⟩ := hheld i hi
    exact exists_step_of_holds hs h hholds

end Progress

/-- As long as notifier calls add nothing, every `AddItem` that is under way returns when
no new item is added, whatever the scheduler does. -/
theorem inevitable_done {s : State ν α} (h : machine.Reachable Silent s) :
    machine.Inevitable Completes Done s := by
  refine Machine.Inevitable.of_measure (I := machine.Reachable Silent) Nat.lt_wfRel.wf
    (fun s => tally Thread.rest s.threads)
    (fun h hdone => exists_step (reachable_idling h) (reachable_held h) hdone) ?_ h
  intro s t a h _ hok hs
  exact ⟨h.next hok.silent hs, less_step (reachable_idling h) hok (moved_of_step hs)⟩

theorem inevitable_done_notified : machine.Inevitable Completes Done notified :=
  inevitable_done <|
    Machine.reachable_of_exec (s := { threads := List.replicate 2 {} })
      [.setNotifier (some 7), .call 0 5, .lock 0, .emplace 0, .call 1 6, .launch 0 [], .finish 2]
      ⟨2, rfl⟩ (by decide)

end BatcherThreads
end TryAndLearn
