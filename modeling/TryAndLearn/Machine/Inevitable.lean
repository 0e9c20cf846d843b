import Mathlib.Data.Prod.Lex
import Mathlib.Order.WellFounded
import TryAndLearn.Machine.Tally
import TryAndLearn.Machine.Trace

/-!
# What must come

`P` is inevitable from a state when every way to go on comes to a state with `P`: as long
as `P` does not hold some step is possible, and whichever is taken, the steps come to an
end.  A scheduler may choose freely but not stop.
-/

namespace TryAndLearn
namespace Machine

variable {σ α β : Type*} {m : Machine σ α} {ok : σ → α → Prop} {P : σ → Prop} {s t : σ}

inductive Inevitable (m : Machine σ α) (ok : σ → α → Prop) (P : σ → Prop) : σ → Prop
  | now {s : σ} (h : P s) : Inevitable m ok P s
  | later {s : σ} (hsome : ∃ a t, ok s a ∧ m.step s a = some t)
      (hall : ∀ a t, ok s a → m.step s a = some t → Inevitable m ok P t) : Inevitable m ok P s

/-- A step is possible until `P` holds, and each one that does not lead there makes `μ`
smaller. -/
theorem Inevitable.of_measure_until {I : σ → Prop} {r : β → β → Prop} (hwf : WellFounded r)
    (μ : σ → β) (hsome : ∀ {s}, I s → ¬P s → ∃ a t, ok s a ∧ m.step s a = some t)
    (hstep : ∀ {s t a}, I s → ¬P s → ¬P t → ok s a → m.step s a = some t → I t ∧ r (μ t) (μ s))
    (hs : I s) : m.Inevitable ok P s := by
  have hfrom : ∀ b, ∀ s, μ s = b → I s → m.Inevitable ok P s := by
    intro b
    induction b using hwf.induction with
    | h b ih =>
      rintro s rfl hs
      by_cases hP : P s
      · exact .now hP
      · refine .later (hsome hs hP) fun a t hok hst => ?_
        by_cases ht : P t
        · exact .now ht
        · obtain ⟨ht, hlt⟩ := hstep hs hP ht hok hst
          exact ih (μ t) hlt t rfl ht
  exact hfrom (μ s) s rfl hs

/-- A step is possible until `P` holds, and each one makes `μ` smaller. -/
theorem Inevitable.of_measure {I : σ → Prop} {r : β → β → Prop} (hwf : WellFounded r) (μ : σ → β)
    (hsome : ∀ {s}, I s → ¬P s → ∃ a t, ok s a ∧ m.step s a = some t)
    (hstep : ∀ {s t a}, I s → ¬P s → ok s a → m.step s a = some t → I t ∧ r (μ t) (μ s))
    (hs : I s) : m.Inevitable ok P s :=
  .of_measure_until hwf μ hsome (fun hs hP _ hok hst => hstep hs hP hok hst) hs

theorem Inevitable.mono {Q : σ → Prop} (h : m.Inevitable ok P s) (hPQ : ∀ s, P s → Q s) :
    m.Inevitable ok Q s := by
  induction h with
  | now hP => exact .now (hPQ _ hP)
  | later hsome _ ih => exact .later hsome ih

/-- What no step leaves and no `P` allows keeps `P` from being inevitable. -/
theorem Inevitable.not_of_invariant {I : σ → Prop}
    (hstep : ∀ {s t a}, I s → ok s a → m.step s a = some t → I t) (hnot : ∀ s, I s → ¬P s)
    (h : m.Inevitable ok P s) : ¬I s := by
  induction h with
  | now hP => exact fun hI => hnot _ hI hP
  | later hsome _ ih =>
    intro hI
    obtain ⟨a, t, hok, hst⟩ := hsome
    exact ih a t hok hst (hstep hI hok hst)

/-- What is inevitable is so with a record, together with all that the steps keep of it. -/
theorem Inevitable.traced {ε : Type*} (see : σ → α → σ → List ε) {I : σ → List ε → Prop}
    (hstep : ∀ {s t : σ} {log : List ε} {a : α}, ok s a → m.step s a = some t → I s log →
      I t (log ++ see s a t))
    (h : m.Inevitable ok P s) {log : List ε} (hs : I s log) :
    (m.traced see).Inevitable (lift ok) (fun p => P p.1 ∧ I p.1 p.2) (s, log) := by
  induction h generalizing log with
  | now hP => exact .now ⟨hP, hs⟩
  | later hsome _ ih =>
    obtain ⟨a, t, hok, hst⟩ := hsome
    refine .later ⟨a, _, hok, traced_step.mpr ⟨hst, rfl⟩⟩ ?_
    rintro a ⟨t, log'⟩ hok htraced
    obtain ⟨ht, rfl⟩ := traced_step.mp htraced
    exact ih a t hok ht (hstep hok ht hs)

/-- If a run ends with `P`, what is inevitable at its start is so all along it. -/
theorem Inevitable.run (hend : ∀ {s t a}, P s → ok s a → m.step s a ≠ some t)
    (h : m.Inevitable ok P s) (hrun : m.Run ok s t) : m.Inevitable ok P t := by
  induction hrun with
  | refl => exact h
  | tail _ hok hst ih =>
    cases ih with
    | now hP => exact absurd hst (hend hP hok)
    | later _ hall => exact hall _ _ hok hst

end Machine

/-! ## A measure of three numbers

The first that changes becomes smaller. -/

def Less : Nat × Nat × Nat → Nat × Nat × Nat → Prop :=
  Prod.Lex (· < ·) (Prod.Lex (· < ·) (· < ·))

theorem less_iff {a b c a' b' c' : Nat} :
    Less (a, b, c) (a', b', c') ↔ a < a' ∨ a = a' ∧ (b < b' ∨ b = b' ∧ c < c') := by
  simp only [Less, Prod.lex_def]

theorem wellFounded_less : WellFounded Less :=
  WellFounded.prod_lex Nat.lt_wfRel.wf (WellFounded.prod_lex Nat.lt_wfRel.wf Nat.lt_wfRel.wf)

/-- Three totals over a table, one entry of which has become smaller. -/
theorem less_tally_set {α : Type*} {u v w : α → Nat} {l : List α} {i : Nat} {a b : α}
    (h : l[i]? = some a) (hlt : Less (u b, v b, w b) (u a, v a, w a)) :
    Less (tally u (l.set i b), tally v (l.set i b), tally w (l.set i b))
      (tally u l, tally v l, tally w l) := by
  have hu := tally_set h u b
  have hv := tally_set h v b
  have hw := tally_set h w b
  rw [less_iff] at hlt ⊢
  omega

end TryAndLearn
