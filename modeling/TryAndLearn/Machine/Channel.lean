import Mathlib.Data.Multiset.AddSub
import TryAndLearn.Machine.Run

/-!
# A channel

What a queue owes those who use it, with nothing about locks or waiting: values enter,
and one of those inside leaves.  The discipline `may` says which one may leave.  The
channel keeps what has entered, in order, and what has left, in order and with what
was inside afterwards.

No value is lost or made up under any discipline.  If only the oldest value may leave,
values leave in the order in which they entered.  If only a maximal one may, none is
passed over for a smaller one.
-/

namespace TryAndLearn

/-- A value that left a channel, and what it left inside. -/
structure Departure (τ : Type*) where
  value : τ
  rest : List τ

structure Channel (τ : Type*) where
  entered : List τ := []
  content : List τ := []
  departed : List (Departure τ) := []

namespace Channel

variable {τ : Type*}

inductive Act (τ : Type*)
  | enter (t : τ)
  | leave (i : Nat)

section

variable (may : List τ → Nat → Prop) [∀ l i, Decidable (may l i)]

def step (c : Channel τ) : Act τ → Option (Channel τ)
  | .enter t => some { c with entered := c.entered ++ [t], content := c.content ++ [t] }
  | .leave i =>
    if may c.content i then
      c.content[i]?.map fun t =>
        { c with content := c.content.eraseIdx i,
                 departed := c.departed ++ [⟨t, c.content.eraseIdx i⟩] }
    else none

def machine : Machine (Channel τ) (Act τ) where
  init c := c = {}
  step := step may

end

/-- What has left, in order. -/
def left (c : Channel τ) : List τ := c.departed.map Departure.value

variable {may : List τ → Nat → Prop} [∀ l i, Decidable (may l i)] {ok : Channel τ → Act τ → Prop}
  {c c' : Channel τ} {a : Act τ}

/-! ## The step -/

theorem step_enter (e l : List τ) (d : List (Departure τ)) (t : τ) :
    (machine may).step ⟨e, l, d⟩ (.enter t) = some ⟨e ++ [t], l ++ [t], d⟩ := rfl

theorem step_leave {e l : List τ} {d : List (Departure τ)} {i : Nat} {t : τ} (hm : may l i)
    (ht : l[i]? = some t) :
    (machine may).step ⟨e, l, d⟩ (.leave i) =
      some ⟨e, l.eraseIdx i, d ++ [⟨t, l.eraseIdx i⟩]⟩ := by
  simp [machine, step, hm, ht]

inductive Moved (may : List τ → Nat → Prop) (c : Channel τ) : Act τ → Channel τ → Prop
  | enter {t} :
      Moved may c (.enter t) { c with entered := c.entered ++ [t], content := c.content ++ [t] }
  | leave {i t} (hm : may c.content i) (ht : c.content[i]? = some t) :
      Moved may c (.leave i)
        { c with content := c.content.eraseIdx i,
                 departed := c.departed ++ [⟨t, c.content.eraseIdx i⟩] }

theorem moved_of_step (hs : (machine may).step c a = some c') : Moved may c a c' := by
  cases a with
  | enter t =>
    obtain rfl := Option.some.inj hs
    exact .enter
  | leave i =>
    obtain ⟨hm, hs⟩ := Option.ite_none_right_eq_some.mp hs
    obtain ⟨t, ht, rfl⟩ := Option.map_eq_some_iff.mp hs
    exact .leave hm ht

/-! ## What holds under every discipline -/

theorem reachable_perm (h : (machine may).Reachable ok c) :
    c.entered.Perm (c.left ++ c.content) := by
  refine h.invariant (I := fun c => c.entered.Perm (c.left ++ c.content)) (fun c₀ h₀ => ?_)
    fun _ _ hs hp => ?_
  · obtain rfl : c₀ = {} := h₀
    exact .nil
  · cases moved_of_step hs with
    | enter =>
      rw [← List.append_assoc]
      exact hp.append_right _
    | @leave i t hm ht =>
      obtain ⟨hlt, rfl⟩ := List.getElem?_eq_some_iff.mp ht
      simp only [left, List.map_append, List.map_cons, List.map_nil, List.append_assoc,
        List.singleton_append] at hp ⊢
      exact hp.trans ((List.getElem_cons_eraseIdx_perm hlt).symm.append_left _)

/-- Every departure was one the discipline allows. -/
theorem reachable_departed (h : (machine may).Reachable ok c) :
    ∀ d ∈ c.departed, ∃ l i, may l i ∧ l[i]? = some d.value ∧ d.rest = l.eraseIdx i := by
  refine h.invariant
    (I := fun c => ∀ d ∈ c.departed, ∃ l i, may l i ∧ l[i]? = some d.value ∧ d.rest = l.eraseIdx i)
    (fun c₀ h₀ => ?_) fun _ _ hs hd => ?_
  · obtain rfl : c₀ = {} := h₀
    exact fun d hd => absurd hd List.not_mem_nil
  · cases moved_of_step hs with
    | enter => exact hd
    | leave hm ht =>
      intro d hmem
      rcases List.mem_append.mp hmem with hmem | hmem
      · exact hd d hmem
      · obtain rfl := List.mem_singleton.mp hmem
        exact ⟨_, _, hm, ht, rfl⟩

/-! ## Two disciplines -/

/-- First in, first out. -/
theorem reachable_first (hfirst : ∀ l i, may l i → i = 0) (h : (machine may).Reachable ok c) :
    c.entered = c.left ++ c.content := by
  refine h.invariant (I := fun c => c.entered = c.left ++ c.content) (fun c₀ h₀ => ?_)
    fun _ _ hs hp => ?_
  · obtain rfl : c₀ = {} := h₀
    rfl
  · cases moved_of_step hs with
    | enter =>
      simp only [left] at hp ⊢
      rw [hp, List.append_assoc]
    | @leave i t hm ht =>
      obtain rfl := hfirst _ _ hm
      obtain ⟨rest, hcontent⟩ := List.head?_eq_some_iff.mp (List.head?_eq_getElem?.trans ht)
      simp only [left, hcontent, List.map_append, List.map_cons, List.map_nil,
        List.append_assoc, List.singleton_append, List.eraseIdx_cons_zero] at hp ⊢
      exact hp

/-- Nothing is above what leaves. -/
theorem reachable_maximal [LT τ]
    (hmax : ∀ l i, may l i → ∀ t ∈ l[i]?, ∀ u ∈ l, ¬ t < u)
    (h : (machine may).Reachable ok c) : ∀ d ∈ c.departed, ∀ u ∈ d.rest, ¬ d.value < u := by
  intro d hd u hu
  obtain ⟨l, i, hm, hi, hrest⟩ := reachable_departed h d hd
  rw [hrest] at hu
  exact hmax l i hm d.value hi u (List.mem_of_mem_eraseIdx hu)

end Channel
end TryAndLearn
