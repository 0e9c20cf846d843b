import TryAndLearn.Machine.Exclusion
import TryAndLearn.SpinLock.Basic

/-!
# Mutual exclusion of `SpinLock`

`is_locked` of a guard runs behind `lock_`: it is set a step after the exchange and
cleared a step after the store of false.  Between the steps the two disagree, and the
program counter of the guard tells by how much (`Guard.owns`).  With that the lock is
true for as many guards as hold it (`Sound`), and it implements the abstract lock of
`Holders` with writers only.
-/

namespace TryAndLearn
namespace SpinLock

/-- Whether the guard holds the lock, told from its own fields. -/
def Guard.owns (x : Guard) : Bool :=
  match x.pc with
  | .idle | .lockTest | .unlockTest | .destroyTest => x.isLocked
  | .set | .unlock | .destroyUnlock => true
  | .exchange | .spin | .clear | .gone => false

/-- The next operation of the guard stores false to `lock_`. -/
def Guard.releases (x : Guard) : Prop := x.pc = .unlock ∨ x.pc = .destroyUnlock

def Guard.weight (x : Guard) : Nat := x.holds.toNat

def State.holders (s : State) : Holders := ⟨0, tally Guard.weight s.guards⟩

/-- Every guard knows whether it holds the lock, and the lock is true for one holder. -/
structure Sound (s : State) : Prop where
  guards : ∀ x ∈ s.guards, x.holds = x.owns
  lock : s.lock.toNat = s.holders.writers

section Step

variable {s t : State} {a : Act} {g : Nat} {x x' : Guard}

theorem Goto.holds_eq (h : Goto s x x') : x'.holds = x.holds := by
  cases h <;> rfl

theorem Goto.owns_eq (h : Goto s x x') : x'.owns = x.owns := by
  cases h with
  | spin hpc => by_cases hl : s.lock = true <;> simp [Guard.owns, hpc, hl]
  | lockLocked hpc hl | lockFree hpc hl | unlockLocked hpc hl | unlockFree hpc hl
  | destroyLocked hpc hl | destroyFree hpc hl => simp [Guard.owns, hpc, hl]
  | retry hpc _ | set hpc | clear hpc => simp [Guard.owns, hpc]

theorem Guard.owns_of_releases (h : x.releases) : x.owns = true := by
  rcases h with h | h <;> simp [Guard.owns, h]

/-- A guard that keeps what it holds. -/
theorem Sound.setGuard (hs : Sound s) (h : s.guards[g]? = some x) (hh : x'.holds = x.holds)
    (ho : x'.owns = x.owns) : Sound (s.setGuard g x') where
  guards := by
    refine forall_mem_set hs.guards ?_
    rw [hh, ho]
    exact hs.guards x (List.mem_of_getElem? h)
  lock := by
    show s.lock.toNat = tally Guard.weight (s.guards.set g x')
    rw [tally_set_of_eq h (by simp only [Guard.weight, hh])]
    exact hs.lock

/-- A guard whose exchange succeeds did not hold the lock, and does now. -/
theorem Sound.tally_acquire (hs : Sound s) (h : s.guards[g]? = some x) (hpc : x.pc = .exchange) :
    tally Guard.weight (s.guards.set g { x with pc := .set, holds := true }) =
      tally Guard.weight s.guards + 1 := by
  have hset := tally_set h Guard.weight { x with pc := .set, holds := true }
  have hx : x.holds = false := by
    rw [hs.guards x (List.mem_of_getElem? h), Guard.owns, hpc]
  simpa only [Guard.weight, hx, Bool.toNat_true, Bool.toNat_false, Nat.add_zero] using hset

/-- A guard that stores false held the lock, and no longer does. -/
theorem Sound.tally_release (hs : Sound s) (h : s.guards[g]? = some x) (hx : x.releases)
    (next : Pc) :
    tally Guard.weight (s.guards.set g { x with pc := next, holds := false }) + 1 =
      tally Guard.weight s.guards := by
  have hset := tally_set h Guard.weight { x with pc := next, holds := false }
  have hholds : x.holds = true := by
    rw [hs.guards x (List.mem_of_getElem? h)]
    exact Guard.owns_of_releases hx
  simpa only [Guard.weight, hholds, Bool.toNat_true, Bool.toNat_false, Nat.add_zero] using hset

theorem sound_step (h : Moved s a t) (hs : Sound s) : Sound t := by
  have hsum := hs.lock
  simp only [State.holders] at hsum
  cases h with
  | construct =>
    refine ⟨fun x hx => ?_, ?_⟩
    · rcases List.mem_append.mp hx with hx | hx
      · exact hs.guards x hx
      · obtain rfl := List.mem_singleton.mp hx
        rfl
    · simp [State.holders, Guard.weight, hsum]
  | @call g x method h hpc =>
    refine hs.setGuard h rfl ?_
    cases method <;> simp [Guard.owns, Method.entry, hpc]
  | goto h hgo => exact hs.setGuard h hgo.holds_eq hgo.owns_eq
  | acquire h hpc hfree =>
    refine ⟨forall_mem_set hs.guards rfl, ?_⟩
    show 1 = tally Guard.weight _
    rw [hs.tally_acquire h hpc, ← hsum, hfree]
    rfl
  | @release g x next h hpc =>
    have hset := hs.tally_release h (hpc.imp And.left And.left) next
    have hle := Bool.toNat_le s.lock
    refine ⟨forall_mem_set hs.guards ?_, ?_⟩
    · rcases hpc with ⟨_, rfl⟩ | ⟨_, rfl⟩ <;> rfl
    · show 0 = tally Guard.weight (s.guards.set g { x with pc := next, holds := false })
      omega

theorem reachable_sound {ok : State → Act → Prop} (h : machine.Reachable ok s) : Sound s := by
  refine h.invariant (fun s₀ h₀ => ?_) fun _ _ hs hI => sound_step (moved_of_step hs) hI
  obtain rfl : s₀ = {} := h₀
  exact ⟨by simp, rfl⟩

theorem shows_of_moved (hs : Sound s) (h : Moved s a t) :
    t.holders = s.holders ∨ ∃ y, Holders.machine.step s.holders y = some t.holders := by
  have hsum := hs.lock
  cases h with
  | construct =>
    left
    simp [State.holders, Guard.weight]
  | call h _ => exact .inl (congrArg (Holders.mk 0) (tally_set_of_eq h rfl))
  | goto h hgo =>
    have hw : Guard.weight _ = Guard.weight _ := congrArg Bool.toNat hgo.holds_eq
    exact .inl (congrArg (Holders.mk 0) (tally_set_of_eq h hw))
  | acquire h hpc hfree =>
    have hnone : tally Guard.weight s.guards = 0 := by
      rw [hfree] at hsum
      exact hsum.symm
    refine .inr ⟨.acquireWrite, ?_⟩
    rw [State.holders, Holders.step_acquireWrite rfl hnone, Option.some.injEq]
    exact congrArg (Holders.mk 0) (hs.tally_acquire h hpc).symm
  | @release g x next h hpc =>
    refine .inr ⟨.releaseWrite, ?_⟩
    rw [State.holders, ← hs.tally_release h (hpc.imp And.left And.left) next,
      Holders.step_releaseWrite]
    rfl

end Step

/-- `SpinLock` implements the abstract lock, held for writing only. -/
theorem simulates_holders {ok : State → Act → Prop} :
    machine.Simulates ok Holders.machine State.holders where
  init s hs := by
    obtain rfl : s = {} := hs
    rfl
  step hr _ hs := shows_of_moved (reachable_sound hr) (moved_of_step hs)

/-- One guard at most is between its exchange and its store of false, the lock is true
while there is one, and only that guard stores false. -/
theorem guard_exclusion {s : State} (h : machine.Reachable Machine.anyStep s) :
    (∀ (i j : Nat) (x y : Guard), s.guards[i]? = some x → s.guards[j]? = some y →
        x.holds = true → y.holds = true → i = j) ∧
      (s.lock = true ↔ ∃ x ∈ s.guards, x.holds = true) ∧
      ∀ (i j : Nat) (x y : Guard), s.guards[i]? = some x → s.guards[j]? = some y →
        x.releases → y.holds = true → i = j := by
  have hs := reachable_sound h
  have hone : s.holders.writers ≤ 1 :=
    (Holders.reachable_exclusive (simulates_holders.reachable h)).one_writer
  have hexcl (i j : Nat) (x y : Guard) (hi : s.guards[i]? = some x) (hj : s.guards[j]? = some y)
      (hx : x.holds = true) (hy : y.holds = true) : i = j := by
    by_contra hij
    have := add_le_tally (w := Guard.weight) hij hi hj
    simp only [Guard.weight, hx, hy, Bool.toNat_true] at this
    simp only [State.holders] at hone
    omega
  refine ⟨hexcl, ⟨fun hl => ?_, ?_⟩, fun i j x y hi hj hx hy => ?_⟩
  · have hpos : 0 < tally Guard.weight s.guards := by
      have := hs.lock
      rw [hl] at this
      simp only [State.holders, Bool.toNat_true] at this
      omega
    obtain ⟨i, x, hi, hx⟩ := exists_of_tally_pos hpos
    refine ⟨x, List.mem_of_getElem? hi, ?_⟩
    by_contra hne
    rw [Guard.weight, Bool.eq_false_iff.mpr hne] at hx
    exact absurd hx (by decide)
  · rintro ⟨x, hx, hholds⟩
    have hle := le_tally_of_mem (w := Guard.weight) hx
    have hlock := hs.lock
    simp only [Guard.weight, hholds, Bool.toNat_true, State.holders] at hle hlock
    by_contra hl
    rw [Bool.eq_false_iff.mpr hl, Bool.toNat_false] at hlock
    omega
  · refine hexcl i j x y hi hj ?_ hy
    rw [hs.guards x (List.mem_of_getElem? hi)]
    exact Guard.owns_of_releases hx

/-- Guard 0 has stored false and not cleared its `is_locked`.  Guard 1 has exchanged and
not set its own.  Guard 2 spins. -/
def changing : State :=
  { lock := true,
    guards := [{ pc := .clear, isLocked := true }, { pc := .set, holds := true },
      { pc := .spin }] }

theorem changing_reachable : machine.Reachable Machine.anyStep changing :=
  Machine.reachable_of_exec
    [.construct, .exec 0, .exec 0, .construct, .construct, .exec 1, .exec 2, .call 0 .unlock,
      .exec 0, .exec 0, .exec 1, .exec 1]
    rfl (by decide)

theorem guard_exclusion_changing : ∃ x ∈ changing.guards, x.holds = true :=
  (guard_exclusion changing_reachable).2.1.mp rfl

end SpinLock
end TryAndLearn
