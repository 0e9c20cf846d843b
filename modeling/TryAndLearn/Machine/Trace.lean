import TryAndLearn.Machine.Run

/-!
# Runs with a record

`traced m see` is the machine `m` with a record of its run: each step adds what `see`
makes of it.  The record does not take part in the run, so the traced machine has the
runs of `m` and no others.  A statement about the order of events in a run is a
statement about the record of a traced run.
-/

namespace TryAndLearn
namespace Machine

variable {σ α ε : Type*} {m : Machine σ α} {ok : σ → α → Prop} {see : σ → α → σ → List ε}
  {s t : σ} {log log' : List ε} {a : α}

def traced (m : Machine σ α) (see : σ → α → σ → List ε) : Machine (σ × List ε) α where
  init p := m.init p.1 ∧ p.2 = []
  step p a := (m.step p.1 a).map fun t => (t, p.2 ++ see p.1 a t)

/-- A condition on the steps of `m`, on those of a traced machine. -/
def lift (ok : σ → α → Prop) (p : σ × List ε) (a : α) : Prop := ok p.1 a

instance [∀ s a, Decidable (ok s a)] (p : σ × List ε) (a : α) : Decidable (lift ok p a) :=
  inferInstanceAs (Decidable (ok p.1 a))

/-- An event of a longer record was there before, or is one of those added. -/
theorem append_eq_split {shown pre post : List ε} {e : ε} (h : log ++ shown = pre ++ e :: post) :
    (∃ rest, log = pre ++ e :: rest ∧ post = rest ++ shown) ∨
      ∃ rest, pre = log ++ rest ∧ shown = rest ++ e :: post := by
  rcases List.append_eq_append_iff.mp h with ⟨rest, hpre, hshown⟩ | ⟨rest, hlog, hpost⟩
  · exact .inr ⟨rest, hpre, hshown⟩
  · cases rest with
    | nil => exact .inr ⟨[], by simpa using hlog.symm, hpost.symm⟩
    | cons e' rest =>
      obtain ⟨rfl, rfl⟩ := List.cons.inj hpost
      exact .inl ⟨rest, hlog, rfl⟩

theorem append_single_split {pre post : List ε} {e e' : ε} (h : log ++ [e'] = pre ++ e :: post) :
    (∃ rest, log = pre ++ e :: rest ∧ post = rest ++ [e']) ∨
      (pre = log ∧ e = e' ∧ post = []) := by
  rcases append_eq_split h with hold | ⟨rest, rfl, hnew⟩
  · exact .inl hold
  · rcases List.append_eq_singleton_iff.mp hnew.symm with ⟨rfl, hcons⟩ | ⟨_, hcons⟩
    · obtain ⟨rfl, rfl⟩ := List.cons.inj hcons
      exact .inr ⟨List.append_nil _, rfl, rfl⟩
    · exact absurd hcons (by simp)

theorem traced_step :
    (m.traced see).step (s, log) a = some (t, log') ↔
      m.step s a = some t ∧ log' = log ++ see s a t := by
  simp only [traced, Option.map_eq_some_iff, Prod.mk.injEq]
  constructor
  · rintro ⟨t, hs, rfl, rfl⟩
    exact ⟨hs, rfl⟩
  · rintro ⟨hs, rfl⟩
    exact ⟨t, hs, rfl, rfl⟩

theorem Run.untraced {p q : σ × List ε} (h : (m.traced see).Run (lift ok) p q) :
    m.Run ok p.1 q.1 := by
  induction h with
  | refl => exact .refl
  | tail _ hok hs ih => exact .tail ih hok (traced_step.mp hs).1

/-- Every run has a record, after any other. -/
theorem Run.traced (see : σ → α → σ → List ε) (h : m.Run ok s t) (log : List ε) :
    ∃ log', (m.traced see).Run (lift ok) (s, log) (t, log') := by
  induction h with
  | refl => exact ⟨log, .refl⟩
  | tail _ hok hs ih =>
    obtain ⟨log', hrun⟩ := ih
    exact ⟨_, hrun.tail hok (traced_step.mpr ⟨hs, rfl⟩)⟩

theorem Reachable.untraced (h : (m.traced see).Reachable (lift ok) (s, log)) :
    m.Reachable ok s := by
  obtain ⟨p, ⟨hinit, _⟩, hrun⟩ := h
  exact ⟨p.1, hinit, hrun.untraced⟩

/-- A property of the state and the record holds along a traced run from one state if
its steps keep it.  The step gets its source state as a state that the run of `m` has
reached. -/
theorem Run.traced_invariant {I : σ → List ε → Prop}
    (h : (m.traced see).Run (lift ok) (s, log) (t, log'))
    (hstep : ∀ {t u : σ} {log : List ε} {a : α}, m.Run ok s t → ok t a → m.step t a = some u →
      I t log → I u (log ++ see t a u))
    (hs : I s log) : I t log' := by
  refine h.invariant (I := fun p => I p.1 p.2) ?_ hs
  rintro ⟨t, l⟩ ⟨u, l'⟩ a hrun hok htraced hI
  obtain ⟨hu, rfl⟩ := traced_step.mp htraced
  exact hstep hrun.untraced hok hu hI

theorem Reachable.traced_invariant {I : σ → List ε → Prop}
    (h : (m.traced see).Reachable (lift ok) (s, log)) (hinit : ∀ s, m.init s → I s [])
    (hstep : ∀ {s t : σ} {log : List ε} {a : α}, m.Reachable ok s → ok s a →
      m.step s a = some t → I s log → I t (log ++ see s a t)) : I s log := by
  obtain ⟨⟨s₀, l⟩, ⟨h₀, rfl⟩, hrun⟩ := h
  exact hrun.traced_invariant (fun hr hok hs hI => hstep ⟨s₀, h₀, hr⟩ hok hs hI) (hinit s₀ h₀)

/-- A simulation that goes by the state and the record. -/
theorem traced_simulates {τ β : Type*} {m' : Machine τ β} {abs : σ × List ε → τ}
    (hinit : ∀ s, m.init s → m'.init (abs (s, [])))
    (hstep : ∀ {s t : σ} {log : List ε} {a : α}, m.Reachable ok s → ok s a → m.step s a = some t →
      abs (t, log ++ see s a t) = abs (s, log) ∨
        ∃ y, m'.step (abs (s, log)) y = some (abs (t, log ++ see s a t))) :
    (m.traced see).Simulates (lift ok) m' abs where
  init := by
    rintro ⟨s, log⟩ ⟨hs, hlog⟩
    obtain rfl : log = [] := hlog
    exact hinit s hs
  step := by
    rintro ⟨s, log⟩ ⟨t, log'⟩ a hr hok htraced
    obtain ⟨ht, rfl⟩ := traced_step.mp htraced
    exact hstep (Reachable.untraced hr) hok ht

end Machine
end TryAndLearn
