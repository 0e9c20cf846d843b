import Mathlib.Data.List.Basic
import TryAndLearn.Machine.Run

/-!
# Runs without an end

Where something is not inevitable there is a run that goes on without it.  A path that
comes back to where it started can be taken again and again, and each of its actions
recurs in that run.
-/

namespace TryAndLearn
namespace Machine

variable {σ α : Type*} {m : Machine σ α} {ok ok' : σ → α → Prop} {s t u : σ}
  {acts acts' : List α}

/-- The listed actions lead from one state to another. -/
inductive Path (m : Machine σ α) (ok : σ → α → Prop) : σ → List α → σ → Prop
  | nil {s : σ} : Path m ok s [] s
  | cons {s t u : σ} {a : α} {acts : List α} (hok : ok s a) (hs : m.step s a = some t)
      (h : Path m ok t acts u) : Path m ok s (a :: acts) u

theorem Path.append (h : m.Path ok s acts t) (h' : m.Path ok t acts' u) :
    m.Path ok s (acts ++ acts') u := by
  induction h with
  | nil => exact h'
  | cons hok hs _ ih => exact .cons hok hs (ih h')

theorem Path.mono (hle : ∀ s a, ok s a → ok' s a) (h : m.Path ok s acts t) :
    m.Path ok' s acts t := by
  induction h with
  | nil => exact .nil
  | cons hok hs _ ih => exact .cons (hle _ _ hok) hs ih

/-- The states a path comes through. -/
theorem Path.exists_states (h : m.Path ok s acts t) :
    ∃ state : Nat → σ, state 0 = s ∧ state acts.length = t ∧
      ∀ n a, acts[n]? = some a → ok (state n) a ∧ m.step (state n) a = some (state (n + 1)) := by
  induction h with
  | nil => exact ⟨fun _ => _, rfl, rfl, by simp⟩
  | @cons s t u a acts hok hs _ ih =>
    obtain ⟨state, hstart, hend, hstep⟩ := ih
    refine ⟨fun n => n.casesOn s state, rfl, hend, fun n b hb => ?_⟩
    cases n with
    | zero =>
      obtain rfl := Option.some.inj hb
      refine ⟨hok, ?_⟩
      show m.step s a = some (state 0)
      rw [hstart]
      exact hs
    | succ n => exact hstep n b hb

/-- A run that goes on forever. -/
structure Endless (m : Machine σ α) (ok : σ → α → Prop) (s : σ) where
  state : Nat → σ
  act : Nat → α
  start : state 0 = s
  ok : ∀ n, ok (state n) (act n)
  step : ∀ n, m.step (state n) (act n) = some (state (n + 1))

/-- The action is taken again and again. -/
def Endless.Recurs (r : m.Endless ok s) (a : α) : Prop := ∀ n, ∃ k, n ≤ k ∧ r.act k = a

def Endless.mono (hle : ∀ s a, ok s a → ok' s a) (r : m.Endless ok s) : m.Endless ok' s :=
  { r with ok := fun n => hle _ _ (r.ok n) }

theorem Endless.run (r : m.Endless ok s) (n : Nat) : m.Run ok s (r.state n) := by
  induction n with
  | zero =>
    rw [r.start]
    exact .refl
  | succ n ih => exact .tail ih (r.ok n) (r.step n)

/-- The place after the `n`-th in a list that is gone through again and again. -/
theorem add_one_mod (n : Nat) {len : Nat} (h : 0 < len) :
    (n + 1) % len = if n % len + 1 = len then 0 else n % len + 1 := by
  have hlt := Nat.mod_lt n h
  rw [← Nat.mod_add_mod n len 1]
  split
  · rename_i hend
    rw [hend, Nat.mod_self]
  · exact Nat.mod_eq_of_lt (by omega)

/-- A path back to where it started, taken forever. -/
theorem Path.exists_endless (h : m.Path ok s acts s) (hne : acts ≠ []) :
    ∃ r : m.Endless ok s, ∀ a ∈ acts, r.Recurs a := by
  obtain ⟨state, hstart, hend, hstep⟩ := h.exists_states
  have hlen : 0 < acts.length := List.length_pos_iff.mpr hne
  have hlt (n : Nat) : n % acts.length < acts.length := Nat.mod_lt n hlen
  have hact (n : Nat) : acts[n % acts.length]? = some (acts.get ⟨n % acts.length, hlt n⟩) :=
    List.getElem?_eq_getElem (hlt n)
  refine ⟨{ state := fun n => state (n % acts.length)
            act := fun n => acts.get ⟨n % acts.length, hlt n⟩
            start := ?_
            ok := fun n => (hstep _ _ (hact n)).1
            step := fun n => ?_ }, fun a ha n => ?_⟩
  · show state (0 % acts.length) = s
    rw [Nat.zero_mod, hstart]
  · have hs := (hstep _ _ (hact n)).2
    show m.step _ _ = some (state ((n + 1) % acts.length))
    rw [add_one_mod n hlen]
    split
    · rename_i hlast
      rw [hlast, hend] at hs
      rwa [hstart]
    · exact hs
  · obtain ⟨j, hj, rfl⟩ := List.getElem_of_mem ha
    refine ⟨n * acts.length + j, ?_, ?_⟩
    · exact Nat.le_add_right_of_le (Nat.le_mul_of_pos_right n hlen)
    · show acts.get ⟨(n * acts.length + j) % acts.length, hlt _⟩ = acts[j]
      simp only [Nat.mul_add_mod_of_lt hj, List.get_eq_getElem]

end Machine
end TryAndLearn
