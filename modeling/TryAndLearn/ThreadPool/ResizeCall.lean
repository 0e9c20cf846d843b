import TryAndLearn.ThreadPool.Attached

/-!
# One call of `Resize`

A `Resize` that runs beside no other and beside no `Stop` has the two vectors, the flags
and the orders to itself: a step of anybody else leaves all of them as they are
(`SameVectors`), and of a worker whether it can be joined.
-/

namespace TryAndLearn
namespace ThreadPool

/-- Nobody but `c` is in a `Resize` or a `Stop`. -/
def AloneAt (c : Nat) (s : State) : Prop :=
  ∀ (d : Nat) (y : Caller), s.callers[d]? = some y → d ≠ c → y.pc.kind = .other

/-- What a step leaves to the `Resize` of `c`. -/
structure SameVectors (c : Nat) (s t : State) : Prop where
  threads : t.threads = s.threads
  flags : t.flags = s.flags
  cells : t.cells = s.cells
  isDone : t.isDone = s.isDone
  isStop : t.isStop = s.isStop
  caller : t.callers[c]? = s.callers[c]?
  length : t.workers.length = s.workers.length
  workers : ∀ (w : Nat) (x : Worker), s.workers[w]? = some x →
    ∃ y, t.workers[w]? = some y ∧ y.flag = x.flag ∧ y.joinable = x.joinable

section Beside

variable {kind : QueueKind} {s t : State} {a : Act} {c : Nat} {x : Caller}

theorem Alone.aloneAt (ha : Alone s) (hx : s.callers[c]? = some x) (hk : x.pc.kind = .resize) :
    AloneAt c s :=
  fun d y hd hne => ha c d x y hx hd (Ne.symm hne) hk

theorem CallerGoto.not_other {pc pc' : CallerPc} (h : CallerGoto s pc pc') :
    pc.kind ≠ .other := by
  cases h <;> subst pc <;> simp [CallerPc.kind]

theorem SameWiring.sameVectors (h : SameWiring s t) (c : Nat) : SameVectors c s t where
  threads := h.threads
  flags := h.flags
  cells := h.cells
  isDone := h.isDone
  isStop := h.isStop
  caller := by rw [h.callers]
  length := h.length
  workers w x hw := by
    obtain ⟨y, hy, hf, hj, _⟩ := h.workers w x hw
    exact ⟨y, hy, hf, hj⟩

/-- A step of a caller in neither `Resize` nor `Stop`. -/
theorem sameVectors_setCaller {d : Nat} {x' : Caller} (hne : d ≠ c)
    (hc : t.callers = s.callers.set d x') (ht : t.threads = s.threads) (hf : t.flags = s.flags)
    (hcells : t.cells = s.cells) (hd : t.isDone = s.isDone) (hs : t.isStop = s.isStop)
    (hw : t.workers = s.workers) : SameVectors c s t where
  threads := ht
  flags := hf
  cells := hcells
  isDone := hd
  isStop := hs
  caller := by rw [hc, List.getElem?_set_ne hne]
  length := by rw [hw]
  workers w x hx := ⟨x, hw ▸ hx, rfl, rfl⟩

/-- Who else moves leaves the vectors alone. -/
theorem Moved.sameVectors (h : Moved kind s a t) (ha : AloneAt c s)
    (hact : ∀ choice, a ≠ .caller c choice) (hcall : ∀ op, a ≠ .call c op) :
    SameVectors c s t := by
  have hother {d choice : Nat} {x : Caller} (heq : a = .caller d choice)
      (hd : s.callers[d]? = some x) : d ≠ c ∧ x.pc.kind = .other := by
    have hne : d ≠ c := by
      rintro rfl
      exact hact choice heq
    exact ⟨hne, ha d x hd hne⟩
  have habsurd {d choice : Nat} {x : Caller} {P : Prop} (heq : a = .caller d choice)
      (hd : s.callers[d]? = some x) (hk : x.pc.kind ≠ .other) : P :=
    absurd (hother heq hd).2 hk
  have hmoved := h
  cases h with
  | push | enqueue | pushLock | notifyOne | notifyNobody | pushReturn | workerGoto | take
  | takeNone | finish | lock | unlock | wake => exact (hmoved.sameWiring rfl).sameVectors c
  | @call d x op _ _ =>
    have hne : d ≠ c := by
      rintro rfl
      exact hcall op rfl
    exact sameVectors_setCaller hne rfl rfl rfl rfl rfl rfl rfl
  | callerGoto h hgo => exact habsurd rfl h hgo.not_other
  | remove h _ _ | removeNone h _ _ =>
    exact sameVectors_setCaller (hother rfl h).1 rfl rfl rfl rfl rfl rfl rfl
  | setFlag h hpc _ =>
    refine habsurd rfl h ?_
    rcases hpc with ⟨_, hpc, _⟩ | ⟨_, hpc, _⟩ <;> simp [hpc, CallerPc.kind]
  | notifyAll h hpc =>
    refine habsurd rfl h ?_
    rcases hpc with ⟨_, hpc, _⟩ | ⟨hpc, _⟩ <;> simp [hpc, CallerPc.kind]
  | grow h hpc | growFlag h hpc | growThread h hpc | detach h hpc | shrinkLock h hpc
  | shrinkUnlock h hpc | shrinkErase h hpc | setDone h hpc | setStop h hpc | join h hpc
  | joined h hpc | stopErase h hpc => exact habsurd rfl h (by simp [hpc, CallerPc.kind])

/-- A thread in a call makes no other. -/
theorem not_call_of_kind (hs : step kind s a = some t) (hx : s.callers[c]? = some x)
    (hk : x.pc.kind = .resize) (op : Op) : a ≠ .call c op := by
  rintro rfl
  cases moved_of_step hs with
  | call h hpc =>
    obtain rfl := Option.some.inj (hx.symm.trans h)
    rcases hpc with hpc | hpc <;> rw [hpc] at hk <;> exact absurd hk (by decide)

/-- The step of a thread in a `Resize`. -/
theorem step_resize {choice : Nat} (hx : s.callers[c]? = some x) (hk : x.pc.kind = .resize) :
    step kind s (.caller c choice) = s.resizeStep c x x.pc := by
  simp only [step, hx, Option.bind_some]
  cases hpc : x.pc <;> simp only [hpc, CallerPc.kind, reduceCtorEq] at hk <;>
    simp only [State.callerStep, hpc]

end Beside

end ThreadPool
end TryAndLearn
