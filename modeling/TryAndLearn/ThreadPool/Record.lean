import TryAndLearn.Machine.Trace
import TryAndLearn.ThreadPool.Moves

/-!
# The record of a run of the pool

What a run shows of the tasks and of `Resize`: when a task enters and leaves `task_q_`,
and with what left behind it, when a worker begins and ends a task, and the two steps of
a shrinking `Resize` that its workers notice.
-/

namespace TryAndLearn
namespace ThreadPool

inductive Event
  | enqueued (t : Task)
  | took (w : Nat) (t : Task) (rest : List Task)
  | removed (who : Remover) (t : Task) (rest : List Task)
  | began (w : Nat) (t : Task)
  | ended (w : Nat) (t : Task)
  | stored (f : Nat)
  | notifiedAll (c : Nat)
  deriving DecidableEq, Repr

/-- What a list that grows at its head has gained. -/
def gained {α : Type*} (old new : List α) : List α := new.take (new.length - old.length)

@[simp] theorem gained_self {α : Type*} (l : List α) : gained l l = [] := by
  simp [gained]

@[simp] theorem gained_cons {α : Type*} (a : α) (l : List α) : gained l (a :: l) = [a] := by
  simp [gained]

def Push.shows (x : Push) : List Event := if x.pc = .called then [.enqueued x.task] else []

def Worker.shows (x : Worker) (w : Nat) (s t : State) : List Event :=
  match x.pc with
  | .run => x.hand.toList.map (.began w)
  | .running => x.hand.toList.map (.ended w)
  | _ => (gained s.taken t.taken).map fun e => .took e.1 e.2 t.queue

def CallerPc.shows (pc : CallerPc) (c : Nat) (s t : State) : List Event :=
  match pc with
  | .shrinkFlag n i => if n ≤ i then (s.flags[i]?.bind id).toList.map .stored else []
  | .shrinkNotify _ => [.notifiedAll c]
  | _ => (gained s.removed t.removed).map fun e => .removed e.1 e.2 t.queue

/-- What the step from `s` to `t` adds to the record. -/
def see (s : State) (a : Act) (t : State) : List Event :=
  match a with
  | .pushStep p _ => s.pushes[p]?.elim [] Push.shows
  | .worker w _ => s.workers[w]?.elim [] fun x => x.shows w s t
  | .caller c _ => s.callers[c]?.elim [] fun x => x.pc.shows c s t
  | .push _ | .wake _ | .call _ _ => []

/-! ## The three kinds of threads -/

section Shows

variable {kind : QueueKind} {s t : State} {a : Act}

/-- Where an event comes from. -/
theorem mem_see {e : Event} (h : e ∈ see s a t) :
    (∃ p target x, a = .pushStep p target ∧ s.pushes[p]? = some x ∧ e ∈ x.shows) ∨
      (∃ w choice x, a = .worker w choice ∧ s.workers[w]? = some x ∧ e ∈ x.shows w s t) ∨
      ∃ c choice x, a = .caller c choice ∧ s.callers[c]? = some x ∧ e ∈ x.pc.shows c s t := by
  have helim {α : Type} {o : Option α} {f : α → List Event} (h : e ∈ o.elim [] f) :
      ∃ x, o = some x ∧ e ∈ f x := by
    cases o with
    | none => exact absurd h List.not_mem_nil
    | some x => exact ⟨x, rfl, h⟩
  cases a with
  | push _ | wake _ | call _ _ => exact absurd h List.not_mem_nil
  | pushStep p target =>
    obtain ⟨x, hx, he⟩ := helim h
    exact .inl ⟨p, target, x, rfl, hx, he⟩
  | worker w choice =>
    obtain ⟨x, hx, he⟩ := helim h
    exact .inr (.inl ⟨w, choice, x, rfl, hx, he⟩)
  | caller c choice =>
    obtain ⟨x, hx, he⟩ := helim h
    exact .inr (.inr ⟨c, choice, x, rfl, hx, he⟩)

theorem Push.mem_shows {x : Push} {e : Event} (h : e ∈ x.shows) :
    e = .enqueued x.task ∧ x.pc = .called := by
  unfold Push.shows at h
  split at h <;> rename_i hpc
  · exact ⟨List.mem_singleton.mp h, hpc⟩
  · exact absurd h List.not_mem_nil

theorem Worker.mem_shows {x : Worker} {w : Nat} {e : Event} (h : e ∈ x.shows w s t) :
    (∃ u, e = .began w u ∧ x.pc = .run ∧ x.hand = some u) ∨
      (∃ u, e = .ended w u ∧ x.pc = .running ∧ x.hand = some u) ∨
      ∃ u ∈ gained s.taken t.taken, e = .took u.1 u.2 t.queue := by
  unfold Worker.shows at h
  split at h <;> rename_i hpc <;> obtain ⟨u, hu, rfl⟩ := List.mem_map.mp h
  · exact .inl ⟨u, rfl, hpc, by simpa using hu⟩
  · exact .inr (.inl ⟨u, rfl, hpc, by simpa using hu⟩)
  · exact .inr (.inr ⟨u, hu, rfl⟩)

theorem CallerPc.mem_shows {pc : CallerPc} {c : Nat} {e : Event} (h : e ∈ pc.shows c s t) :
    (∃ n i f, e = .stored f ∧ pc = .shrinkFlag n i ∧ n ≤ i ∧ s.flags[i]? = some (some f)) ∨
      (∃ n, e = .notifiedAll c ∧ pc = .shrinkNotify n) ∨
      ∃ r ∈ gained s.removed t.removed, e = .removed r.1 r.2 t.queue := by
  unfold CallerPc.shows at h
  split at h
  · split at h <;> rename_i hn
    · obtain ⟨f, hf, rfl⟩ := List.mem_map.mp h
      exact .inl ⟨_, _, f, rfl, rfl, hn, by simpa [Option.bind_eq_some_iff] using hf⟩
    · exact absurd h List.not_mem_nil
  · exact .inr (.inl ⟨_, List.mem_singleton.mp h, rfl⟩)
  · obtain ⟨r, hr, rfl⟩ := List.mem_map.mp h
    exact .inr (.inr ⟨r, hr, rfl⟩)

theorem see_run {w choice : Nat} {x : Worker} (h : s.workers[w]? = some x) (hpc : x.pc = .run) :
    see s (.worker w choice) t = x.hand.toList.map (.began w) := by
  simp [see, Worker.shows, h, hpc]

theorem see_running {w choice : Nat} {x : Worker} (h : s.workers[w]? = some x)
    (hpc : x.pc = .running) : see s (.worker w choice) t = x.hand.toList.map (.ended w) := by
  simp [see, Worker.shows, h, hpc]

theorem see_caller {c choice : Nat} {x : Caller} (h : s.callers[c]? = some x) :
    see s (.caller c choice) t = x.pc.shows c s t := by
  simp [see, h]

end Shows

end ThreadPool
end TryAndLearn
