import TryAndLearn.Batcher.Partition
import TryAndLearn.Batcher.Threads

/-!
# Threads as a sequence of calls

With the record of its sections under `m_`, a `Batcher` that threads share is one that is
called in sequence.  An `AddItem` counts as made when it puts its item into `cache_`.
From there to `cache_.clear()` an emission is owed: the sequence has it already, the
record not yet.  Nobody else can do anything about the batcher in between.
-/

namespace TryAndLearn
namespace BatcherThreads

open Batcher (Event Partitioned)

variable {ν α : Type*}

/-- In `Emit`. -/
def Pc.emits : Pc α → Bool
  | .emitting | .waiting _ | .clearing => true
  | .outside | .locking _ | .adding _ | .unlocking | .returned => false

/-- A thread is in `Emit`. -/
def State.owes (s : State ν α) : Bool := s.threads.any fun th => th.pc.emits

/-- The emission that is to come. -/
def State.owed (s : State ν α) : Event ν α := .emitted s.batcher.cache s.batcher.notification

def see (s : State ν α) (a : Act ν α) (_ : State ν α) : List (Event ν α) :=
  match a with
  | .emplace i =>
    match s.threads[i]?.map Thread.pc with
    | some (.adding item) => [.called (.addItem item)]
    | _ => []
  | .clear _ => [s.owed]
  | .setNotifier notifier => [.called (.setNotifier notifier)]
  | .setBatchSize bs => [.called (.setBatchSize bs)]
  | .call _ _ | .next _ | .lock _ | .launch _ _ | .print _ | .join _ | .unlock _ | .finish _ => []

/-- The batcher and the record as a sequence of calls sees them. -/
def linearised (p : State ν α × List (Event ν α)) : Batcher ν α × List (Event ν α) :=
  if p.1.owes then (p.1.batcher.clear, p.2 ++ [p.1.owed]) else (p.1.batcher, p.2)

section Step

variable {s t : State ν α} {a : Act ν α} {i : Nat} {th th' : Thread α}
  {log : List (Event ν α)}

theorem owes_iff (s : State ν α) :
    s.owes = true ↔
      ∃ (i : Nat) (th : Thread α), s.threads[i]? = some th ∧ th.pc.emits = true := by
  rw [State.owes, List.any_eq_true]
  constructor
  · intro ⟨th, hmem, hemits⟩
    obtain ⟨i, hi⟩ := List.getElem?_of_mem hmem
    exact ⟨i, th, hi, hemits⟩
  · intro ⟨i, th, hi, hemits⟩
    exact ⟨th, List.mem_of_getElem? hi, hemits⟩

theorem holds_of_emits {pc : Pc α} (h : pc.emits = true) : pc.holds = true := by
  cases pc <;> simp_all [Pc.emits, Pc.holds]

/-- Only the thread that holds `m_` can be in `Emit`. -/
theorem owes_eq_of_holds (hs : Exclusive s) (h : s.threads[i]? = some th)
    (hholds : th.pc.holds = true) : s.owes = th.pc.emits := by
  rw [Bool.eq_iff_iff, owes_iff]
  constructor
  · intro ⟨j, tj, hj, hemits⟩
    have hmutex := (hs i th h hholds).symm.trans (hs j tj hj (holds_of_emits hemits))
    obtain rfl := Option.some.inj hmutex
    obtain rfl := Option.some.inj (h.symm.trans hj)
    exact hemits
  · intro hemits
    exact ⟨i, th, h, hemits⟩

theorem owes_goto (h : s.threads[i]? = some th) (hpc : th'.pc.emits = th.pc.emits)
    (hl : t.threads = s.threads.set i th') : t.owes = s.owes := by
  rw [Bool.eq_iff_iff, owes_iff, owes_iff, hl]
  constructor
  · intro ⟨j, tj, hj, hemits⟩
    rcases getElem?_set_cases hj with ⟨rfl, rfl⟩ | ⟨_, hj⟩
    · exact ⟨j, th, h, hpc.symm.trans hemits⟩
    · exact ⟨j, tj, hj, hemits⟩
  · intro ⟨j, tj, hj, hemits⟩
    by_cases hji : j = i
    · subst hji
      obtain rfl := Option.some.inj (h.symm.trans hj)
      exact ⟨j, th', getElem?_set_of_some h th', hpc.trans hemits⟩
    · refine ⟨j, tj, ?_, hemits⟩
      rw [List.getElem?_set_ne (Ne.symm hji)]
      exact hj

theorem owes_of_quiet (h : s.quiet = true) : s.owes = false := by
  rw [Bool.eq_false_iff, ne_eq, owes_iff]
  intro ⟨i, th, hi, hemits⟩
  have hout := List.all_eq_true.mp h th (List.mem_of_getElem? hi)
  obtain ⟨pc, todo⟩ := th
  cases pc <;> simp_all [Pc.emits, Thread.inAddItem]

theorem linearised_of_owes (h : s.owes = true) :
    linearised (s, log) = (s.batcher.clear, log ++ [s.owed]) := if_pos h

theorem linearised_of_not_owes (h : s.owes = false) : linearised (s, log) = (s.batcher, log) := by
  rw [linearised, h]
  rfl

/-- A step that leaves the batcher alone. -/
theorem linearised_same (howes : t.owes = s.owes) (hb : t.batcher = s.batcher) :
    linearised (t, log) = linearised (s, log) := by
  simp only [linearised, State.owed, howes, hb]

theorem owes_launch (h : s.threads[i]? = some th) (hpc : th'.pc.emits = th.pc.emits)
    {todo : Option (List α)} (hl : t.threads = s.threads.set i th' ++ [{ todo := todo }]) :
    t.owes = s.owes := by
  have hgoto : (s.goto i th').owes = s.owes := owes_goto h hpc rfl
  rw [← hgoto, State.owes, hl, List.any_append]
  exact Bool.or_false _

theorem traced_addItem_of_room {b : Batcher ν α} {item : α}
    (h : b.cache.length + 1 < b.batchSize.toNat) :
    (Batcher.machine.traced Batcher.see).step (b, log) (.addItem item) =
      some (b.emplaceBack item, log ++ [.called (.addItem item)]) := by
  refine Machine.traced_step.mpr ⟨congrArg some ?_, congrArg (log ++ ·) ?_⟩
  · simp only [Batcher.apply, Batcher.addItem_of_room h]
  · simp only [Batcher.see, Batcher.emission, Batcher.addItem_of_room h]
    rfl

theorem traced_addItem_of_full {b : Batcher ν α} {item : α}
    (h : b.batchSize.toNat ≤ b.cache.length + 1) :
    (Batcher.machine.traced Batcher.see).step (b, log) (.addItem item) =
      some (b.clear, log ++ [.called (.addItem item),
        .emitted (b.cache ++ [item]) (b.emplaceBack item).notification]) := by
  refine Machine.traced_step.mpr ⟨congrArg some ?_, congrArg (log ++ ·) ?_⟩
  · simp only [Batcher.apply, Batcher.addItem_of_full h]
  · simp only [Batcher.see, Batcher.emission, Batcher.addItem_of_full h]
    rfl

theorem see_emplace {item : α} (h : s.threads[i]? = some th) (hpc : th.pc = .adding item) :
    see s (.emplace i) t = [.called (.addItem item)] := by simp [see, h, hpc]

/-- A step of a thread is a call of the sequence, or none. -/
theorem linearised_step (hs : Exclusive s) (h : Moved s a t) :
    linearised (t, log ++ see s a t) = linearised (s, log) ∨
      ∃ c, (Batcher.machine.traced Batcher.see).step (linearised (s, log)) c =
        some (linearised (t, log ++ see s a t)) := by
  have ht : Exclusive t := exclusive_step h hs
  have hnone : log ++ ([] : List (Event ν α)) = log := List.append_nil log
  cases h with
  | @call i item th h hpc _ | @next i item rest th h hpc _ | @lock i item th h hpc _
  | @join i task th th' h hpc _ _ | @unlock i th h hpc | @finish i th h hpc _
  | @print i th h hpc _ =>
    left
    show linearised (_, log ++ []) = _
    rw [hnone]
    refine linearised_same (owes_goto h ?_ rfl) rfl
    rw [hpc]
    rfl
  | @launch i adds notifier th h hpc _ =>
    left
    show linearised (_, log ++ []) = _
    rw [hnone]
    have hemits : ({ th with pc := .waiting s.threads.length } : Thread α).pc.emits =
        th.pc.emits := by
      rw [hpc]
      rfl
    exact linearised_same (owes_launch h hemits rfl) rfl
  | @cached i item th h hpc hroom =>
    have hbefore : s.owes = false := by
      rw [owes_eq_of_holds hs h (by rw [hpc]; rfl), hpc]
      rfl
    have hafter := owes_eq_of_holds ht (getElem?_set_of_some h _) rfl
    refine .inr ⟨.addItem item, ?_⟩
    rw [see_emplace h hpc, linearised_of_not_owes hbefore, linearised_of_not_owes hafter]
    exact traced_addItem_of_room (by
      rw [← Bool.not_eq_true, Batcher.full_emplaceBack] at hroom
      omega)
  | @filled i item th h hpc hfull =>
    have hbefore : s.owes = false := by
      rw [owes_eq_of_holds hs h (by rw [hpc]; rfl), hpc]
      rfl
    have hafter := owes_eq_of_holds ht (getElem?_set_of_some h _) rfl
    refine .inr ⟨.addItem item, ?_⟩
    rw [see_emplace h hpc, linearised_of_not_owes hbefore, linearised_of_owes hafter,
      List.append_assoc]
    exact traced_addItem_of_full ((Batcher.full_emplaceBack s.batcher item).mp hfull)
  | @clear i th h hpc =>
    have hbefore : s.owes = true := by
      rw [owes_eq_of_holds hs h (by rw [hpc]; rfl), hpc]
      rfl
    have hafter := owes_eq_of_holds ht (getElem?_set_of_some h _) rfl
    left
    rw [linearised_of_owes hbefore, linearised_of_not_owes hafter]
    rfl
  | @setNotifier notifier hquiet =>
    have hbefore := owes_of_quiet hquiet
    have hafter : State.owes { s with batcher := s.batcher.setNotifier notifier } = false := hbefore
    refine .inr ⟨.setNotifier notifier, ?_⟩
    rw [linearised_of_not_owes hbefore, linearised_of_not_owes hafter]
    rfl
  | @setBatchSize bs hquiet =>
    have hbefore := owes_of_quiet hquiet
    have hafter : State.owes { s with batcher := s.batcher.setBatchSize bs } = false := hbefore
    refine .inr ⟨.setBatchSize bs, ?_⟩
    rw [linearised_of_not_owes hbefore, linearised_of_not_owes hafter]
    rfl

/-- Threads that share a batcher call it in sequence. -/
theorem simulates_sequence {ok : State ν α → Act ν α → Prop} :
    (machine.traced see).Simulates (Machine.lift ok) (Batcher.machine.traced Batcher.see)
      linearised := by
  refine Machine.traced_simulates (fun s₀ h₀ => ?_)
    fun hr _ hs => linearised_step (reachable_exclusive hr) (moved_of_step hs)
  obtain ⟨n, rfl⟩ := h₀
  have howes : ({ threads := List.replicate n {} } : State ν α).owes = false :=
    owes_of_quiet (by simp [State.quiet, Thread.inAddItem])
  rw [linearised_of_not_owes howes]
  exact ⟨rfl, rfl⟩

/-- Whenever `m_` is free, what the threads have done has cut the items into batches. -/
theorem threads_partition {ok : State ν α → Act ν α → Prop}
    (h : (machine.traced see).Reachable (Machine.lift ok) (s, log)) (hfree : s.mutex = none) :
    Partitioned s.batcher log := by
  have howes : s.owes = false := by
    rw [Bool.eq_false_iff, ne_eq, owes_iff]
    intro ⟨i, th, hi, hemits⟩
    have hmutex := reachable_exclusive (Machine.Reachable.untraced h) i th hi
      (holds_of_emits hemits)
    rw [hfree] at hmutex
    cases hmutex
  have hseq := simulates_sequence.reachable h
  rw [linearised_of_not_owes howes] at hseq
  exact (Batcher.reachable_partitioned (hseq.mono fun _ _ _ => trivial)).2

end Step

end BatcherThreads
end TryAndLearn
