import Mathlib.Data.Multiset.AddSub
import TryAndLearn.Machine.Run

/-!
# A ledger of jobs

What a pool of workers owes its clients, with nothing about threads or queues: every
job that was submitted is waiting, held, finished or removed, and is in one of these
places only.  Jobs move from waiting to held to finished, or from waiting to
removed, and the ledger keeps a record of those that were taken.  An implementation
loses and duplicates no job if it simulates `Ledger.machine`.
-/

namespace TryAndLearn

structure Ledger (τ : Type*) where
  submitted : Multiset τ
  waiting : Multiset τ
  held : Multiset τ
  finished : Multiset τ
  removed : Multiset τ
  taken : Multiset τ

namespace Ledger

variable {τ : Type*}

inductive Act (τ : Type*)
  | submit (t : τ)
  | take (t : τ)
  | finish (t : τ)
  | remove (t : τ)

def empty : Ledger τ := ⟨0, 0, 0, 0, 0, 0⟩

/-- Every job is in one place, and those taken are held or finished. -/
structure Balanced (l : Ledger τ) : Prop where
  submitted : l.submitted = l.waiting + l.held + l.finished + l.removed
  taken : l.taken = l.held + l.finished

variable [DecidableEq τ]

def step (l : Ledger τ) : Act τ → Option (Ledger τ)
  | .submit t => some { l with submitted := t ::ₘ l.submitted, waiting := t ::ₘ l.waiting }
  | .take t =>
    if t ∈ l.waiting then
      some { l with waiting := l.waiting.erase t, held := t ::ₘ l.held, taken := t ::ₘ l.taken }
    else none
  | .finish t =>
    if t ∈ l.held then some { l with held := l.held.erase t, finished := t ::ₘ l.finished }
    else none
  | .remove t =>
    if t ∈ l.waiting then some { l with waiting := l.waiting.erase t, removed := t ::ₘ l.removed }
    else none

def machine : Machine (Ledger τ) (Act τ) where
  init l := l = empty
  step := step

theorem step_balanced {l l' : Ledger τ} {a : Act τ} (hs : l.step a = some l')
    (hb : l.Balanced) : l'.Balanced := by
  cases a with
  | submit t =>
    obtain rfl := Option.some.inj hs
    exact ⟨by simp only [hb.submitted, Multiset.cons_add], hb.taken⟩
  | take t =>
    obtain ⟨ht, hs⟩ := Option.ite_none_right_eq_some.mp hs
    obtain rfl := Option.some.inj hs
    obtain ⟨w, hw⟩ := Multiset.exists_cons_of_mem ht
    refine ⟨?_, by simp only [hb.taken, Multiset.cons_add]⟩
    simp only [hb.submitted, hw, Multiset.erase_cons_head, Multiset.cons_add, Multiset.add_cons]
  | finish t =>
    obtain ⟨ht, hs⟩ := Option.ite_none_right_eq_some.mp hs
    obtain rfl := Option.some.inj hs
    obtain ⟨k, hk⟩ := Multiset.exists_cons_of_mem ht
    refine ⟨?_, ?_⟩
    · simp only [hb.submitted, hk, Multiset.erase_cons_head, Multiset.cons_add, Multiset.add_cons]
    · simp only [hb.taken, hk, Multiset.erase_cons_head, Multiset.cons_add, Multiset.add_cons]
  | remove t =>
    obtain ⟨ht, hs⟩ := Option.ite_none_right_eq_some.mp hs
    obtain rfl := Option.some.inj hs
    obtain ⟨w, hw⟩ := Multiset.exists_cons_of_mem ht
    refine ⟨?_, hb.taken⟩
    simp only [hb.submitted, hw, Multiset.erase_cons_head, Multiset.cons_add, Multiset.add_cons]

theorem reachable_balanced {l : Ledger τ} {ok : Ledger τ → Act τ → Prop}
    (hr : machine.Reachable ok l) : l.Balanced := by
  refine hr.invariant (fun l₀ h₀ => ?_) fun _ _ hs hb => step_balanced hs hb
  obtain rfl : l₀ = empty := h₀
  exact ⟨by simp [empty], by simp [empty]⟩

/-! The moves as an implementation's simulation proof meets them. -/

variable {s w k f r h : Multiset τ}

theorem step_submit (t : τ) :
    machine.step ⟨s, w, k, f, r, h⟩ (.submit t) = some ⟨t ::ₘ s, t ::ₘ w, k, f, r, h⟩ := rfl

theorem step_take (t : τ) :
    machine.step ⟨s, t ::ₘ w, k, f, r, h⟩ (.take t) = some ⟨s, w, t ::ₘ k, f, r, t ::ₘ h⟩ := by
  simp [machine, step]

theorem step_finish (t : τ) :
    machine.step ⟨s, w, t ::ₘ k, f, r, h⟩ (.finish t) = some ⟨s, w, k, t ::ₘ f, r, h⟩ := by
  simp [machine, step]

theorem step_remove (t : τ) :
    machine.step ⟨s, t ::ₘ w, k, f, r, h⟩ (.remove t) = some ⟨s, w, k, f, t ::ₘ r, h⟩ := by
  simp [machine, step]

end Ledger
end TryAndLearn
