import TryAndLearn.Machine.Endless
import TryAndLearn.SpinLock.Progress

/-!
# Spinning may last forever

A spin lock keeps no order.  A guard that gives the lock back and takes it again before
another one has looked at it leaves the others where they were, and so it may go on, also
when each of them gets its turn again and again.
-/

namespace TryAndLearn
namespace SpinLock

/-- `s` with another lock and another guard `g`. -/
def State.put (s : State) (g : Nat) (lock : Bool) (x : Guard) : State :=
  { lock := lock, guards := s.guards.set g x }

/-- A guard that is locked, and no thread is inside. -/
def Guard.locked : Guard := { pc := .idle, isLocked := true, holds := true }

/-- One `Unlock` and one `Lock` without anybody between the steps. -/
def relock (g : Nat) : List Act :=
  [.call g .unlock, .exec g, .exec g, .exec g, .call g .lock, .exec g, .exec g, .exec g]

/-- The other guards are as in `s`, and `g` calls `Lock` when the lock is free. -/
def Aside (s : State) (g : Nat) (t : State) (a : Act) : Prop :=
  (∀ k, k ≠ g → t.guards[k]? = s.guards[k]?) ∧ (a = .call g .lock → t.lock = false)

section Relock

variable {s : State} {g : Nat} {lock lock' : Bool} {x x' y : Guard} {a : Act}

theorem aside_put (ha : a = .call g .lock → lock = false) : Aside s g (s.put g lock x) a :=
  ⟨fun _ hk => List.getElem?_set_ne hk.symm, ha⟩

theorem call_put (method : Method) (hg : g < s.guards.length) (hpc : x.pc = .idle) :
    step (s.put g lock x) (.call g method) = some (s.put g lock { x with pc := method.entry }) := by
  have hx : (s.put g lock x).guards[g]? = some x := List.getElem?_set_self hg
  rw [step, hx, Option.bind_some, if_pos hpc]
  simp [State.setGuard, State.put]

theorem exec_put (hg : g < s.guards.length) (h : (s.put g lock x).exec g x =
      some { lock := lock', guards := (s.put g lock x).guards.set g x' }) :
    step (s.put g lock x) (.exec g) = some (s.put g lock' x') := by
  have hx : (s.put g lock x).guards[g]? = some x := List.getElem?_set_self hg
  rw [step, hx, Option.bind_some, h]
  simp [State.put]

theorem path_relock (hg : g < s.guards.length) :
    machine.Path (Aside s g) (s.put g true .locked) (relock g) (s.put g true .locked) := by
  refine .cons (aside_put nofun) (call_put .unlock hg rfl) ?_
  refine .cons (aside_put nofun) (exec_put hg rfl) ?_
  refine .cons (aside_put nofun) (exec_put hg rfl) ?_
  refine .cons (aside_put nofun) (exec_put hg rfl) ?_
  refine .cons (aside_put fun _ => rfl) (call_put .lock hg rfl) ?_
  refine .cons (aside_put nofun) (exec_put hg rfl) ?_
  refine .cons (aside_put nofun) (exec_put hg rfl) ?_
  exact .cons (aside_put nofun) (exec_put hg rfl) .nil

/-- Turns for guards that spin on a lock that is true. -/
theorem path_spin (hl : s.lock = true) {ks : List Nat}
    (hks : ∀ k ∈ ks, ∃ y, s.guards[k]? = some y ∧ y.pc = .spin) :
    machine.Path (Aside s g) s (ks.map .exec) s := by
  induction ks with
  | nil => exact .nil
  | cons k ks ih =>
    obtain ⟨y, hk, hpc⟩ := hks k List.mem_cons_self
    exact .cons ⟨fun _ _ => rfl, nofun⟩ (step_spin hk hpc hl)
      (ih fun k hk => hks k (List.mem_cons_of_mem _ hk))

/-- The guard that is locked holds the lock. -/
theorem put_self (hs : Sound s) (hg : s.guards[g]? = some x) (hpc : x.pc = .idle)
    (hlocked : x.isLocked = true) : s.lock = true ∧ s.put g true .locked = s := by
  have hholds : x.holds = true := by
    rw [hs.guards x (List.mem_of_getElem? hg), Guard.owns, hpc, hlocked]
  obtain rfl : x = .locked := by
    cases x
    simp_all [Guard.locked]
  have hlock : s.lock = true := by
    have hle := le_tally (w := Guard.weight) hg
    have hsum : s.lock.toNat = tally Guard.weight s.guards := hs.lock
    rw [← hsum] at hle
    cases hl : s.lock
    · rw [hl] at hle
      exact absurd hle (by decide)
    · rfl
  refine ⟨hlock, ?_⟩
  obtain ⟨hlt, hx⟩ := List.getElem?_eq_some_iff.mp hg
  rw [State.put, ← hx, List.set_getElem_self, ← hlock]

end Relock

/-- The guards in `s` that spin. -/
def State.spinners (s : State) : List Nat :=
  (List.range s.guards.length).filter fun k => s.guards[k]?.any fun y => y.pc = .spin

theorem mem_spinners {s : State} {k : Nat} :
    k ∈ s.spinners ↔ ∃ y, s.guards[k]? = some y ∧ y.pc = .spin := by
  rw [State.spinners, List.mem_filter, List.mem_range, Option.any_eq_true]
  constructor
  · rintro ⟨_, y, hy, hpc⟩
    exact ⟨y, hy, of_decide_eq_true hpc⟩
  · rintro ⟨y, hy, hpc⟩
    exact ⟨(List.getElem?_eq_some_iff.mp hy).1, y, hy, decide_eq_true hpc⟩

/-- A guard that is locked can go on without end so that every guard that spins has its
turn again and again and none of them gets the lock, although it is free again and again.
All other guards stay where they are. -/
theorem spinners_starve {s : State} {g : Nat} {x : Guard}
    (h : machine.Reachable Machine.anyStep s) (hg : s.guards[g]? = some x) (hpc : x.pc = .idle)
    (hlocked : x.isLocked = true) :
    ∃ r : machine.Endless Machine.anyStep s,
      (∀ k y, s.guards[k]? = some y → y.pc = .spin → r.Recurs (.exec k)) ∧
        (∀ n, ∃ k, n ≤ k ∧ (r.state k).lock = false) ∧
        ∀ n k, k ≠ g → (r.state n).guards[k]? = s.guards[k]? := by
  obtain ⟨hlock, hself⟩ := put_self (reachable_sound h) hg hpc hlocked
  have hrelock := path_relock (List.getElem?_eq_some_iff.mp hg).1
  rw [hself] at hrelock
  have hpath := (path_spin hlock fun k hk => mem_spinners.mp hk).append hrelock
  obtain ⟨r, hrecurs⟩ := hpath.exists_endless (by simp [relock])
  refine ⟨r.mono fun _ _ _ => trivial, fun k y hk hspin => ?_, fun n => ?_, fun n => (r.ok n).1⟩
  · have hmem := List.mem_map_of_mem (f := Act.exec) (mem_spinners.mpr ⟨y, hk, hspin⟩)
    exact hrecurs _ (List.mem_append_left _ hmem)
  · obtain ⟨k, hle, hact⟩ := hrecurs (.call g .lock) (by simp [relock]) n
    exact ⟨k, hle, (r.ok k).2 hact⟩

/-- Guard 0 is locked, guards 1 and 2 spin. -/
def crowded : State :=
  { lock := true, guards := [.locked, { pc := .spin }, { pc := .spin }] }

theorem crowded_reachable : machine.Reachable Machine.anyStep crowded :=
  Machine.reachable_of_exec
    [.construct, .exec 0, .exec 0, .construct, .construct, .exec 1, .exec 2] rfl (by decide)

theorem spinners_starve_crowded :
    ∃ r : machine.Endless Machine.anyStep crowded,
      (∀ k y, crowded.guards[k]? = some y → y.pc = .spin → r.Recurs (.exec k)) ∧
        (∀ n, ∃ k, n ≤ k ∧ (r.state k).lock = false) ∧
        ∀ n k, k ≠ 0 → (r.state n).guards[k]? = crowded.guards[k]? :=
  spinners_starve (g := 0) crowded_reachable rfl rfl rfl

end SpinLock
end TryAndLearn
