import TryAndLearn.Machine.Run

/-!
# Readers–writer exclusion

What a readers–writer lock is for, with nothing about how it is built: how many
locks are held for reading and how many for writing.  A lock for reading is
granted while none is held for writing, and a lock for writing while none is held
at all.  A lock implementation is shown exclusive by a simulation into
`Holders.machine`.
-/

namespace TryAndLearn

structure Holders where
  readers : Nat
  writers : Nat
  deriving DecidableEq, Repr

namespace Holders

inductive Act
  | acquireRead
  | releaseRead
  | acquireWrite
  | releaseWrite
  deriving DecidableEq, Repr

def free : Holders := ⟨0, 0⟩

def step (h : Holders) : Act → Option Holders
  | .acquireRead => if h.writers = 0 then some { h with readers := h.readers + 1 } else none
  | .releaseRead => if 0 < h.readers then some { h with readers := h.readers - 1 } else none
  | .acquireWrite =>
    if h.writers = 0 ∧ h.readers = 0 then some { h with writers := h.writers + 1 } else none
  | .releaseWrite => if 0 < h.writers then some { h with writers := h.writers - 1 } else none

def machine : Machine Holders Act where
  init h := h = free
  step := step

/-- At most one writer, and no reader beside it. -/
structure Exclusive (h : Holders) : Prop where
  one_writer : h.writers ≤ 1
  no_reader : 0 < h.writers → h.readers = 0

theorem free_exclusive : free.Exclusive := ⟨by decide, fun _ => rfl⟩

theorem step_exclusive {h h' : Holders} {a : Act} (hs : h.step a = some h')
    (he : h.Exclusive) : h'.Exclusive := by
  obtain ⟨hone, hno⟩ := he
  cases a <;> rw [step, Option.ite_none_right_eq_some, Option.some.injEq] at hs <;>
    obtain ⟨hguard, rfl⟩ := hs
  case acquireRead => exact ⟨hone, fun hw => by simp only at hw; omega⟩
  case releaseRead => exact ⟨hone, fun hw => by simp only at hw ⊢; have := hno hw; omega⟩
  case acquireWrite => exact ⟨by simp only; omega, fun _ => hguard.2⟩
  case releaseWrite => exact ⟨by simp only; omega, fun hw => by simp only at hw; omega⟩

theorem reachable_exclusive {h : Holders} {ok : Holders → Act → Prop}
    (hr : machine.Reachable ok h) : h.Exclusive := by
  refine hr.invariant (fun h₀ h₀_free => ?_) fun _ _ hs he => step_exclusive hs he
  obtain rfl : h₀ = free := h₀_free
  exact free_exclusive

/-! The four moves as an implementation's simulation proof meets them. -/

theorem step_acquireRead {r w : Nat} (hw : w = 0) :
    machine.step ⟨r, w⟩ .acquireRead = some ⟨r + 1, w⟩ := by
  simp [machine, step, hw]

theorem step_releaseRead {r w : Nat} :
    machine.step ⟨r + 1, w⟩ .releaseRead = some ⟨r, w⟩ := by
  simp [machine, step]

theorem step_acquireWrite {r w : Nat} (hr : r = 0) (hw : w = 0) :
    machine.step ⟨r, w⟩ .acquireWrite = some ⟨r, w + 1⟩ := by
  simp [machine, step, hr, hw]

theorem step_releaseWrite {r w : Nat} :
    machine.step ⟨r, w + 1⟩ .releaseWrite = some ⟨r, w⟩ := by
  simp [machine, step]

end Holders
end TryAndLearn
