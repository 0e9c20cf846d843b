/-
Labelled machines, their runs and the rules for proving what holds along a run.

A machine is a partial step function: an action either leads to one next state
or is not possible.  Whatever a scheduler may choose is part of the action, so a
property of every run is a property of every interleaving.  A run carries a
condition `ok` on the steps it takes, which is how a client contract or the
precise hypothesis of a conditional result enters a statement.
-/
import Mathlib.Tactic.TypeStar

namespace TryAndLearn

structure Machine (σ α : Type*) where
  init : σ → Prop
  step : σ → α → Option σ

namespace Machine

variable {σ α τ β : Type*} {m : Machine σ α} {ok ok' : σ → α → Prop} {s t u : σ}

/-- Runs of `m` from one state to another, each step of which meets `ok`. -/
inductive Run (m : Machine σ α) (ok : σ → α → Prop) (s : σ) : σ → Prop
  | refl : Run m ok s s
  | tail {t u : σ} {a : α} (h : Run m ok s t) (hok : ok t a) (hs : m.step t a = some u) :
      Run m ok s u

/-- The states that some run from an initial state ends in. -/
def Reachable (m : Machine σ α) (ok : σ → α → Prop) (s : σ) : Prop :=
  ∃ s₀, m.init s₀ ∧ m.Run ok s₀ s

/-- The condition every step meets. -/
def anyStep (_ : σ) (_ : α) : Prop := True

instance (s : σ) (a : α) : Decidable (anyStep s a) := inferInstanceAs (Decidable True)

theorem Run.single {a : α} (hok : ok s a) (h : m.step s a = some t) : m.Run ok s t :=
  .tail .refl hok h

theorem Run.trans (h₁ : m.Run ok s t) (h₂ : m.Run ok t u) : m.Run ok s u := by
  induction h₂ with
  | refl => exact h₁
  | tail _ hok hs ih => exact .tail ih hok hs

theorem Run.mono (hle : ∀ s a, ok s a → ok' s a) (h : m.Run ok s t) : m.Run ok' s t := by
  induction h with
  | refl => exact .refl
  | tail _ hok hs ih => exact .tail ih (hle _ _ hok) hs

theorem Reachable.mono (hle : ∀ s a, ok s a → ok' s a) (h : m.Reachable ok s) :
    m.Reachable ok' s := by
  obtain ⟨s₀, hinit, hrun⟩ := h
  exact ⟨s₀, hinit, hrun.mono hle⟩

theorem Reachable.anyStep (h : m.Reachable ok s) : m.Reachable anyStep s :=
  h.mono fun _ _ _ => trivial

theorem Reachable.of_init (h : m.init s) : m.Reachable ok s := ⟨s, h, .refl⟩

theorem Reachable.run (h : m.Reachable ok s) (hrun : m.Run ok s t) : m.Reachable ok t := by
  obtain ⟨s₀, hinit, h⟩ := h
  exact ⟨s₀, hinit, h.trans hrun⟩

theorem Reachable.next {a : α} (h : m.Reachable ok s) (hok : ok s a)
    (hs : m.step s a = some t) : m.Reachable ok t :=
  h.run (.single hok hs)

/-! ## Invariants

Both rules hand the step its source state as one the run has already reached, so
an invariant proved earlier is at hand when the next one is proved. -/

theorem Run.invariant {I : σ → Prop} (h : m.Run ok s t)
    (hstep : ∀ {t u : σ} {a : α}, m.Run ok s t → ok t a → m.step t a = some u → I t → I u)
    (hs : I s) : I t := by
  induction h with
  | refl => exact hs
  | tail hrun hok hstep' ih => exact hstep hrun hok hstep' ih

theorem Reachable.invariant {I : σ → Prop} (h : m.Reachable ok s)
    (hinit : ∀ s, m.init s → I s)
    (hstep : ∀ {s t : σ} {a : α}, m.Reachable ok s → ok s a → m.step s a = some t → I s → I t) :
    I s := by
  obtain ⟨s₀, hs₀, hrun⟩ := h
  exact hrun.invariant (fun hrun hok hs hI => hstep ⟨s₀, hs₀, hrun⟩ hok hs hI) (hinit s₀ hs₀)

/-! ## Simulation -/

/-- `abs` maps the runs of `c` to runs of `a`: a step of `c` is a step of `a` or
leaves the abstract state alone. -/
structure Simulates (c : Machine σ α) (ok : σ → α → Prop) (a : Machine τ β) (abs : σ → τ) :
    Prop where
  init : ∀ s, c.init s → a.init (abs s)
  step : ∀ {s t : σ} {x : α}, c.Reachable ok s → ok s x → c.step s x = some t →
    abs t = abs s ∨ ∃ y, a.step (abs s) y = some (abs t)

/-- A state reached by `c` shows a state reached by `a`. -/
theorem Simulates.reachable {a : Machine τ β} {abs : σ → τ} (h : Simulates m ok a abs)
    (hs : m.Reachable ok s) : a.Reachable Machine.anyStep (abs s) := by
  refine hs.invariant (I := fun s => a.Reachable Machine.anyStep (abs s))
    (fun s₀ h₀ => .of_init (h.init s₀ h₀)) ?_
  intro s t x hs hok hstep ih
  rcases h.step hs hok hstep with heq | ⟨y, hy⟩
  · rw [heq]
    exact ih
  · exact ih.next trivial hy

/-! ## Executing a list of actions -/

/-- Take the listed actions in order, as long as each is possible and meets
`ok`. -/
def exec (m : Machine σ α) (ok : σ → α → Prop) [∀ s a, Decidable (ok s a)] :
    List α → σ → Option σ
  | [], s => some s
  | a :: rest, s => if ok s a then (m.step s a).bind (exec m ok rest) else none

theorem run_of_exec [∀ s a, Decidable (ok s a)] (acts : List α)
    (h : m.exec ok acts s = some t) : m.Run ok s t := by
  induction acts generalizing s with
  | nil =>
    obtain rfl : s = t := Option.some.inj h
    exact .refl
  | cons a rest ih =>
    rw [exec] at h
    split at h
    · rename_i hok
      obtain ⟨s', hs', hrest⟩ := Option.bind_eq_some_iff.mp h
      exact (Run.single hok hs').trans (ih hrest)
    · exact absurd h (by simp)

theorem reachable_of_exec [∀ s a, Decidable (ok s a)] (acts : List α) (hinit : m.init s)
    (h : m.exec ok acts s = some t) : m.Reachable ok t :=
  ⟨s, hinit, run_of_exec acts h⟩

end Machine
end TryAndLearn
