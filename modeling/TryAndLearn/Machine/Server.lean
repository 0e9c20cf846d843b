import TryAndLearn.Machine.Trace

/-!
# A server

One that takes jobs and serves one at a time, with nothing about where jobs come from.
It takes a job, starts it and ends it before it takes another, and keeps a log of all
three.  So no two jobs are served at a time, and they are started in the order in which
they were taken.
-/

namespace TryAndLearn

namespace Server

inductive Phase (τ : Type*)
  | idle
  | holding (t : τ)
  | serving (t : τ)

inductive Event (τ : Type*)
  | took (t : τ)
  | began (t : τ)
  | ended (t : τ)

inductive Act (τ : Type*)
  | take (t : τ)
  | start
  | finish

end Server

structure Server (τ : Type*) where
  phase : Server.Phase τ := .idle
  log : List (Server.Event τ) := []

namespace Server

variable {τ : Type*}

def step (s : Server τ) : Act τ → Option (Server τ)
  | .take t => match s.phase with
    | .idle => some ⟨.holding t, s.log ++ [.took t]⟩
    | _ => none
  | .start => match s.phase with
    | .holding t => some ⟨.serving t, s.log ++ [.began t]⟩
    | _ => none
  | .finish => match s.phase with
    | .serving t => some ⟨.idle, s.log ++ [.ended t]⟩
    | _ => none

def machine : Machine (Server τ) (Act τ) where
  init s := s = {}
  step := step

def Event.taken : Event τ → Option τ
  | .took t => some t
  | .began _ | .ended _ => none

def Event.started : Event τ → Option τ
  | .began t => some t
  | .took _ | .ended _ => none

/-- The job taken and not yet started. -/
def Phase.held : Phase τ → List τ
  | .holding t => [t]
  | .idle | .serving _ => []

theorem Phase.length_held (p : Phase τ) : p.held.length ≤ 1 := by
  cases p <;> simp [Phase.held]

/-! ## The step -/

inductive Moved (s : Server τ) : Act τ → Server τ → Prop
  | take {t} (h : s.phase = .idle) : Moved s (.take t) ⟨.holding t, s.log ++ [.took t]⟩
  | start {t} (h : s.phase = .holding t) : Moved s .start ⟨.serving t, s.log ++ [.began t]⟩
  | finish {t} (h : s.phase = .serving t) : Moved s .finish ⟨.idle, s.log ++ [.ended t]⟩

variable {s s' : Server τ} {a : Act τ} {ok : Server τ → Act τ → Prop}

theorem moved_of_step (hs : machine.step s a = some s') : Moved s a s' := by
  obtain ⟨phase, log⟩ := s
  cases a <;> cases phase <;> simp only [machine, step, reduceCtorEq] at hs <;>
    obtain rfl := Option.some.inj hs
  case take.idle => exact .take rfl
  case start.holding => exact .start rfl
  case finish.serving => exact .finish rfl

theorem step_take (log : List (Event τ)) (t : τ) :
    machine.step ⟨.idle, log⟩ (.take t) = some ⟨.holding t, log ++ [.took t]⟩ := rfl

theorem step_start (log : List (Event τ)) (t : τ) :
    machine.step ⟨.holding t, log⟩ .start = some ⟨.serving t, log ++ [.began t]⟩ := rfl

theorem step_finish (log : List (Event τ)) (t : τ) :
    machine.step ⟨.serving t, log⟩ .finish = some ⟨.idle, log ++ [.ended t]⟩ := rfl

/-! ## What the log shows -/

/-- Jobs are started in the order in which they were taken. -/
theorem reachable_started (h : machine.Reachable ok s) :
    s.log.filterMap Event.taken = s.log.filterMap Event.started ++ s.phase.held := by
  refine h.invariant
    (I := fun s => s.log.filterMap Event.taken = s.log.filterMap Event.started ++ s.phase.held)
    (fun s₀ h₀ => ?_) fun _ _ hs hI => ?_
  · obtain rfl : s₀ = {} := h₀
    rfl
  · cases moved_of_step hs with
    | take hphase | start hphase | finish hphase =>
      rw [hphase] at hI
      simpa [List.filterMap_cons, Event.taken, Event.started, Phase.held] using hI

/-- A job that has begun has ended since or is being served. -/
theorem ended_or_serving (h : machine.Reachable ok s) :
    ∀ pre mid t, s.log = pre ++ .began t :: mid → .ended t ∈ mid ∨ s.phase = .serving t := by
  refine h.invariant
    (I := fun s => ∀ pre mid t, s.log = pre ++ .began t :: mid →
      .ended t ∈ mid ∨ s.phase = .serving t)
    (fun s₀ h₀ => ?_) fun _ _ hs hI pre mid t heq => ?_
  · obtain rfl : s₀ = {} := h₀
    exact fun pre mid t heq => absurd heq (by simp)
  · cases moved_of_step hs with
    | take hphase =>
      rcases Machine.append_single_split heq with ⟨rest, hlog, rfl⟩ | ⟨_, hbegan, _⟩
      · refine .inl (List.mem_append_left _ ((hI pre rest t hlog).resolve_right ?_))
        simp [hphase]
      · exact absurd hbegan (by simp)
    | start hphase =>
      rcases Machine.append_single_split heq with ⟨rest, hlog, rfl⟩ | ⟨_, hbegan, _⟩
      · refine .inl (List.mem_append_left _ ((hI pre rest t hlog).resolve_right ?_))
        simp [hphase]
      · exact .inr (congrArg Phase.serving (Event.began.inj hbegan).symm)
    | finish hphase =>
      rcases Machine.append_single_split heq with ⟨rest, hlog, rfl⟩ | ⟨_, hbegan, _⟩
      · left
        rcases hI pre rest t hlog with hended | hserving
        · exact List.mem_append_left _ hended
        · obtain rfl := Phase.serving.inj (hphase.symm.trans hserving)
          exact List.mem_append_right _ (List.mem_singleton_self _)
      · exact absurd hbegan (by simp)

/-- Between the beginnings of two jobs the first has ended. -/
theorem ended_between (h : machine.Reachable ok s) :
    ∀ pre mid post t u, s.log = (pre ++ .began t :: mid) ++ .began u :: post → .ended t ∈ mid := by
  refine h.invariant
    (I := fun s => ∀ pre mid post t u, s.log = (pre ++ .began t :: mid) ++ .began u :: post →
      .ended t ∈ mid)
    (fun s₀ h₀ => ?_) fun hr _ hs hI pre mid post t u heq => ?_
  · obtain rfl : s₀ = {} := h₀
    exact fun pre mid post t u heq => absurd heq (by simp)
  · cases moved_of_step hs with
    | take hphase | finish hphase =>
      rcases Machine.append_single_split heq with ⟨rest, hlog, _⟩ | ⟨_, hbegan, _⟩
      · exact hI pre mid rest t u hlog
      · exact absurd hbegan (by simp)
    | start hphase =>
      rcases Machine.append_single_split heq with ⟨rest, hlog, _⟩ | ⟨hlog, _, _⟩
      · exact hI pre mid rest t u hlog
      · refine (ended_or_serving hr pre mid t hlog.symm).resolve_right ?_
        simp [hphase]

end Server
end TryAndLearn
