import TryAndLearn.ThreadPool.Resize

/-!
# A growing `Resize` that throws

`Resize` gives both vectors their new length and then fills one entry after the other.
At each entry `std::make_shared` may throw, and so may the constructor of `std::thread`.
Nothing in `Resize` catches it, so the call ends there and the entries from that one up
stay null.

A caller that has caught the exception goes on with the pool.  The next `Resize` to one
worker less, or where that would be none the next `Stop`, follows a null entry.
-/

namespace TryAndLearn
namespace ThreadPool

namespace State

/-- The call of `c` throws where it makes the flag of an entry or starts its thread. -/
def throw (s : State) (c : Nat) : Option State :=
  s.callers[c]?.bind fun x =>
    match x.pc with
    | .growFlag n i => if i < n then some (s.goto c x .idle) else none
    | .growThread _ _ => some (s.goto c x .idle)
    | _ => none

def size (s : State) : Nat := s.threads.length

/-- The number of workers that `threads_` holds. -/
def attached (s : State) : Nat := s.threads.countP Option.isSome

/-- The next step of a call dereferences a null entry. -/
def NullDeref (s : State) : CallerPc → Prop
  | .shrinkFlag n i => n ≤ i ∧ s.flags[i]? = some none
  | .stopFlag i n => i < n ∧ s.flags[i]? = some none
  | .shrinkDetach _ i | .stopJoin i => s.threads[i]? = some none
  | _ => False

def NoNull (s : State) : Prop := none ∉ s.threads ∧ none ∉ s.flags

end State

/-- No later call dereferences a null entry. -/
def SafeLater (kind : QueueKind) (s : State) : Prop :=
  ∀ t, (machine kind).Run ResizeAlone s t → ∀ x ∈ t.callers, ¬ t.NullDeref x.pc

/-- What the pool is to be like after an exception. -/
structure Usable (kind : QueueKind) (s : State) : Prop where
  same_size : s.threads.length = s.flags.length
  no_null : s.NoNull
  size : s.size = s.attached
  later : SafeLater kind s

/-- The `Resize` of `c` that began in `called` throws at `pc`, in `t`. -/
structure Thrown (kind : QueueKind) (called : State) (c : Nat) (pc : CallerPc) (t u : State) :
    Prop where
  run : (machine kind).Run (During c) called t
  caller : ∃ x, t.callers[c]? = some x ∧ x.pc = pc
  throw : t.throw c = some u

section Deref

variable {kind : QueueKind} {s : State} {c choice : Nat} {x : Caller}

/-- There is no step that dereferences a null entry. -/
theorem step_of_nullDeref (hx : s.callers[c]? = some x) (h : s.NullDeref x.pc) :
    step kind s (.caller c choice) = none := by
  simp only [step, hx, Option.bind_some]
  cases hpc : x.pc <;> simp only [hpc, State.NullDeref] at h
  case shrinkFlag n i =>
    simp [State.callerStep, State.resizeStep, hpc, h.1, State.setFlag, State.goto,
      State.setCaller, h.2]
  case shrinkDetach n i =>
    simp [State.callerStep, State.resizeStep, hpc, State.thread, h]
  case stopFlag i n =>
    simp [State.callerStep, State.stopStep, hpc, h.1, State.setFlag, State.goto,
      State.setCaller, h.2]
  case stopJoin i =>
    have hlt := (List.getElem?_eq_some_iff.mp h).1
    have hthread : s.thread i = none := by rw [State.thread, h]; rfl
    simp [State.callerStep, State.stopStep, hpc, hlt, hthread]

end Deref

/-! ## Where the call can throw -/

section Stages

variable {kind : QueueKind} {s called t u : State} {c n k : Nat} {log : List CallerPc}
  {pc : CallerPc}

/-- A growing call is at the entry that its number of steps says. -/
theorem Stage.pc_of_length (h : Stage s n t log pc) (hm : s.threads.length ≤ k) (hk : k < n) :
    (log.length = 2 * (k - s.threads.length) + 3 → pc = .growFlag n k) ∧
      (log.length = 2 * (k - s.threads.length) + 4 → pc = .growThread n k) := by
  cases h with
  | ifStop _ hlog | ifDone _ hlog | vectors _ hlog =>
    rw [hlog.length]
    omega
  | @growFlag i hi _ _ hlog =>
    rw [hlog.length]
    refine ⟨fun heq => ?_, fun heq => by omega⟩
    obtain rfl : i = k := by omega
    rfl
  | @growThread i hi _ _ hlog =>
    rw [hlog.length]
    refine ⟨fun heq => by omega, fun heq => ?_⟩
    obtain rfl : i = k := by omega
    rfl
  | grown _ _ hlog =>
    rw [hlog.length]
    omega
  | shrinkFlag hm' _ _ _ _ | shrinkLock _ hm' _ _ | shrinkNotify _ hm' _ _
  | shrinkUnlock _ hm' _ _ | shrinkErase _ hm' _ _ | shrunk _ hm' _ _ _ _ _ _ => omega
  | shrinkDetach hn hi _ _ => omega

/-- A growing call that has returned has made all its steps. -/
theorem Stage.length_of_idle (h : Stage s n t log .idle) (hn : s.threads.length < n) :
    log.length = 2 * (n - s.threads.length) + 4 := by
  cases h with
  | grown _ _ hlog => exact hlog.length
  | shrunk _ hm _ _ _ _ _ _ => omega

/-- A growing call can make any number of its steps. -/
theorem staged_reaches (hs : Whole s) (hreach : (machine kind).Reachable Machine.anyStep called)
    (hstart : Staged s c n called []) (hn : s.threads.length < n) (j : Nat)
    (hj : j ≤ 2 * (n - s.threads.length) + 4) :
    ∃ t log, ((machine kind).traced (movesOf c)).Run (Machine.lift (During c)) (called, [])
      (t, log) ∧ Staged s c n t log ∧ log.length = j := by
  induction j with
  | zero => exact ⟨called, [], .refl, hstart, rfl⟩
  | succ j ih =>
    obtain ⟨t, log, hrun, ht, hlen⟩ := ih (by omega)
    rcases staged_forward hs (reachable_during hrun hreach) ht with ⟨x, hx, hidle⟩ |
      ⟨v, pc, hnext, hv | ⟨hzero, _⟩⟩
    · obtain ⟨y, hy, hstage⟩ := ht.stage
      obtain rfl := Option.some.inj (hx.symm.trans hy)
      rw [hidle] at hstage
      have := hstage.length_of_idle hn
      omega
    · exact ⟨v, log ++ [pc], hrun.trans hnext, hv, by rw [List.length_append, hlen]; rfl⟩
    · omega

/-- At either place nothing from entry `k` up is there yet, but maybe its flag. -/
theorem Stage.grown_of_pc (h : Stage s n t log pc)
    (hpc : pc = .growFlag n k ∨ pc = .growThread n k) :
    ∃ e, s.threads.length ≤ k ∧ k ≤ e ∧ e ≤ k + 1 ∧ Grown s n k e t := by
  rcases hpc with rfl | rfl
  · cases h with
    | growFlag hm _ h _ => exact ⟨k, hm, Nat.le_refl k, Nat.le_succ k, h⟩
  · cases h with
    | growThread hm _ h _ => exact ⟨k + 1, hm, Nat.le_succ k, Nat.le_refl _, h⟩

end Stages

/-! ## The pool after the exception -/

section Pool

variable {s u : State} {n k e : Nat}

/-- The entries from `k` up are null. -/
theorem Grown.null_from (h : Grown s n k e u) (hm : s.threads.length ≤ k) {j : Nat} (hj : k ≤ j)
    (hn : j < n) : u.threads[j]? = some none := by
  have hlen : (s.threads ++
      (List.range' s.workers.length (k - s.threads.length)).map some).length = k := by
    rw [List.length_append, List.length_map, List.length_range']
    omega
  rw [h.threads, List.getElem?_append_right (by omega), hlen, List.getElem?_replicate,
    if_pos (by omega)]

/-- The entries below `k`, and no others, hold a worker. -/
theorem Grown.attached (h : Grown s n k e u) (hs : Whole s) (hm : s.threads.length ≤ k) :
    u.attached = k := by
  have hold : s.threads.countP Option.isSome = s.threads.length := by
    refine List.countP_eq_length.mpr fun entry hentry => ?_
    obtain ⟨j, hj⟩ := List.mem_iff_getElem?.mp hentry
    obtain ⟨w, _, hw, _⟩ := hs.entry j (List.getElem?_eq_some_iff.mp hj).1
    rw [Option.some.inj (hj.symm.trans hw)]
    rfl
  have hnew (l : List Nat) : (l.map some).countP Option.isSome = l.length := by
    rw [List.countP_map]
    exact List.countP_eq_length.mpr fun _ _ => rfl
  have hnull (j : Nat) : (List.replicate j (none : Option Nat)).countP Option.isSome = 0 := by
    rw [List.countP_replicate]
    rfl
  rw [State.attached, h.threads, List.countP_append, List.countP_append, hold, hnew, hnull,
    List.length_range']
  omega

end Pool

/-! ## The next call -/

section Next

variable {kind : QueueKind} {u : State} {c n : Nat} {x : Caller}

/-- A pool on which `c` is in a call at `pc`. -/
def State.inCall (u : State) (c : Nat) (pc : CallerPc) : State :=
  u.setCaller c { pc := pc, began := u.threads }

theorem callers_inCall (hx : u.callers[c]? = some x) (pc : CallerPc) :
    (u.inCall c pc).callers[c]? = some { pc := pc, began := u.threads } :=
  getElem?_set_of_some hx _

theorem goto_inCall (pc pc' : CallerPc) :
    (u.inCall c pc).goto c { pc := pc, began := u.threads } pc' = u.inCall c pc' := by
  simp only [State.inCall, State.goto, State.setCaller, List.set_set]

theorem run_call (op : Op) (hx : u.callers[c]? = some x) (hpc : x.pc = .idle)
    (hok : ResizeAlone u (.call c op)) :
    (machine kind).Run ResizeAlone u (u.inCall c op.entry) :=
  .single hok (by simp [machine, step, hx, hpc, State.inCall])

/-- A thread in a call moves on. -/
theorem run_inCall {pc : CallerPc} {v : State} (hx : u.callers[c]? = some x)
    (hs : (u.inCall c pc).callerStep kind c { pc := pc, began := u.threads } 0 = some v) :
    (machine kind).Run ResizeAlone (u.inCall c pc) v :=
  .single (a := .caller c 0) trivial
    (by simpa only [machine, step, callers_inCall hx, Option.bind_some] using hs)

/-- `Resize` to one worker less. -/
theorem not_safe_resize (hx : u.callers[c]? = some x) (hpc : x.pc = .idle)
    (hothers : ∀ y ∈ u.callers, y.pc.kind = .other) (hrun : u.Running) (hn : 1 ≤ n)
    (hthreads : u.threads.length = n + 1) (hflags : u.flags.length = n + 1)
    (hnull : u.threads[n]? = some none) : ¬ SafeLater kind u := by
  intro hsafe
  have hcall : (machine kind).Run ResizeAlone u (u.inCall c (.resizeIfStop n)) :=
    run_call (.resize n) hx hpc ⟨hn, hothers⟩
  have hstop : (machine kind).Run ResizeAlone (u.inCall c (.resizeIfStop n))
      (u.inCall c (.resizeIfDone n)) := by
    refine run_inCall hx ?_
    simp only [State.callerStep, State.resizeStep, goto_inCall]
    rw [show (u.inCall c (.resizeIfStop n)).isStop = false from hrun.2]
    rfl
  have hdone : (machine kind).Run ResizeAlone (u.inCall c (.resizeIfDone n))
      (u.inCall c (.resizeVectors n)) := by
    refine run_inCall hx ?_
    simp only [State.callerStep, State.resizeStep, goto_inCall]
    rw [show (u.inCall c (.resizeIfDone n)).isDone = false from hrun.1]
    rfl
  have hvectors : (machine kind).Run ResizeAlone (u.inCall c (.resizeVectors n))
      (u.inCall c (.shrinkFlag n n)) := by
    refine run_inCall hx ?_
    have hlen : (u.inCall c (.resizeVectors n)).threads.length = n + 1 := hthreads
    simp only [State.callerStep, State.resizeStep, goto_inCall, hlen]
    rw [if_neg (by omega), Nat.add_sub_cancel]
  have hflag := ((hcall.trans hstop).trans hdone).trans hvectors
  obtain ⟨entry, hentry⟩ : ∃ entry, u.flags[n]? = some entry :=
    ⟨u.flags[n], List.getElem?_eq_getElem (by omega)⟩
  cases entry with
  | none =>
    exact hsafe _ hflag _ (List.mem_of_getElem? (callers_inCall hx _)) ⟨Nat.le_refl n, hentry⟩
  | some f =>
    -- that flag is there and is set, but not the thread
    have hstore : (machine kind).Run ResizeAlone (u.inCall c (.shrinkFlag n n))
        { u.inCall c (.shrinkDetach n n) with cells := u.cells.set f true } := by
      refine run_inCall hx ?_
      have hf : (u.inCall c (.shrinkDetach n n)).flags[n]? = some (some f) := hentry
      simp only [State.callerStep, State.resizeStep, goto_inCall, if_pos (Nat.le_refl n),
        State.setFlag, hf, Option.bind_some, Option.map_some]
      rfl
    exact hsafe _ (hflag.trans hstore) _ (List.mem_of_getElem? (callers_inCall hx _)) hnull

/-- `Stop(true)`, the destructor among them, where the first entry is null. -/
theorem not_safe_stop (hx : u.callers[c]? = some x) (hpc : x.pc = .idle)
    (hothers : ∀ y ∈ u.callers, y.pc.kind = .other) (hrun : u.Running)
    (hnull : u.threads[0]? = some none) : ¬ SafeLater kind u := by
  intro hsafe
  have hcall : (machine kind).Run ResizeAlone u (u.inCall c .stopIfDone) := by
    refine run_call (.stop true) hx hpc fun y hy => ?_
    rw [hothers y hy]
    decide
  have hdone : (machine kind).Run ResizeAlone (u.inCall c .stopIfDone)
      (u.inCall c (.stopIfStop true)) := by
    refine run_inCall hx ?_
    simp only [State.callerStep, State.stopStep, goto_inCall]
    rw [show (u.inCall c .stopIfDone).isDone = false from hrun.1]
    rfl
  have hstop : (machine kind).Run ResizeAlone (u.inCall c (.stopIfStop true))
      (u.inCall c (.stopSet true)) := by
    refine run_inCall hx ?_
    simp only [State.callerStep, State.stopStep, goto_inCall]
    rw [show (u.inCall c (.stopIfStop true)).isStop = false from hrun.2]
    rfl
  have hset : (machine kind).Run ResizeAlone (u.inCall c (.stopSet true))
      ({ u with isDone := true }.inCall c .stopNotify) := by
    refine run_inCall hx ?_
    simp only [State.callerStep, State.stopStep, goto_inCall]
    rfl
  have hnotify : (machine kind).Run ResizeAlone ({ u with isDone := true }.inCall c .stopNotify)
      ({ u with isDone := true }.inCall c (.stopJoin 0)).notifyAll := by
    refine run_inCall (u := { u with isDone := true }) hx ?_
    simp only [State.callerStep, State.stopStep, goto_inCall]
  have hjoin := (((hcall.trans hdone).trans hstop).trans hset).trans hnotify
  exact hsafe _ hjoin _
    (List.mem_of_getElem? (callers_inCall (u := { u with isDone := true }) hx _))
    hnull

end Next

section Throw

variable {kind : QueueKind} {s called t u : State} {c n k : Nat} {pc : CallerPc}

theorem throw_eq_some (h : t.throw c = some u) :
    ∃ x, t.callers[c]? = some x ∧ u = t.goto c x .idle := by
  obtain ⟨x, hx, hu⟩ := Option.bind_eq_some_iff.mp h
  refine ⟨x, hx, ?_⟩
  split at hu
  · split at hu
    · exact (Option.some.inj hu).symm
    · exact absurd hu (by simp)
  · exact (Option.some.inj hu).symm
  · exact absurd hu (by simp)

theorem throw_of_pc {x : Caller} (hx : t.callers[c]? = some x)
    (hpc : x.pc = .growFlag n k ∨ x.pc = .growThread n k) (hk : k < n) :
    t.throw c = some (t.goto c x .idle) := by
  rcases hpc with hpc | hpc
  · simp [State.throw, hx, hpc, hk]
  · simp [State.throw, hx, hpc]

theorem AloneAt.others {x : Caller} (h : AloneAt c t) (hx : t.callers[c]? = some x) :
    ∀ y ∈ (t.goto c x .idle).callers, y.pc.kind = .other := by
  intro y hy
  obtain ⟨d, hd⟩ := List.mem_iff_getElem?.mp hy
  rcases getElem?_set_cases hd with ⟨rfl, rfl⟩ | ⟨hne, hd⟩
  · rfl
  · exact h d y hd hne

/-- The call can come to either place of each new entry. -/
theorem exists_thrown (hs : Whole s) (hreach : (machine kind).Reachable Machine.anyStep called)
    (hstart : Staged s c n called []) (hm : s.threads.length ≤ k) (hk : k < n)
    (hpc : pc = .growFlag n k ∨ pc = .growThread n k) : ∃ t u, Thrown kind called c pc t u := by
  have hreaches (j : Nat) (hj : j ≤ 2 * (n - s.threads.length) + 4)
      (hat : ∀ t log pc', Stage s n t log pc' → log.length = j → pc' = pc) :
      ∃ t u, Thrown kind called c pc t u := by
    obtain ⟨t, log, hrun, ht, hlen⟩ := staged_reaches hs hreach hstart (by omega) j hj
    obtain ⟨x, hx, hstage⟩ := ht.stage
    have hx_pc : x.pc = pc := hat t log x.pc hstage hlen
    exact ⟨t, _, hrun.untraced, ⟨x, hx, hx_pc⟩, throw_of_pc hx (hx_pc ▸ hpc) hk⟩
  rcases hpc with rfl | rfl
  · exact hreaches (2 * (k - s.threads.length) + 3) (by omega) fun t log pc' h hlen =>
      (h.pc_of_length hm hk).1 hlen
  · exact hreaches (2 * (k - s.threads.length) + 4) (by omega) fun t log pc' h hlen =>
      (h.pc_of_length hm hk).2 hlen

/-- Both vectors have their new length then, and the workers that were there or have been
started by then are all there are. -/
theorem thrown_grown (hs : Whole s) (hstart : Staged s c n called []) (hk : k < n)
    (hpc : pc = .growFlag n k ∨ pc = .growThread n k) (h : Thrown kind called c pc t u) :
    ∃ e, s.threads.length ≤ k ∧ k ≤ e ∧ e ≤ k + 1 ∧ Grown s n k e u := by
  obtain ⟨log, hrun⟩ := h.run.traced (movesOf c) []
  have ht := run_staged hs (.inl (by omega)) hstart hrun
  obtain ⟨x, hx, hstage⟩ := ht.stage
  obtain ⟨y, hy, hy_pc⟩ := h.caller
  obtain rfl := Option.some.inj (hx.symm.trans hy)
  obtain ⟨e, hm, hle, hlt, hgrown⟩ := (hy_pc ▸ hstage).grown_of_pc hpc
  obtain ⟨z, hz, rfl⟩ := throw_eq_some h.throw
  exact ⟨e, hm, hle, hlt, hgrown.goto c z .idle⟩

theorem thrown_idle (hs : Whole s) (hstart : Staged s c n called []) (hn : 0 < n)
    (h : Thrown kind called c pc t u) :
    (∃ x, u.callers[c]? = some x ∧ x.pc = .idle) ∧ ∀ y ∈ u.callers, y.pc.kind = .other := by
  obtain ⟨log, hrun⟩ := h.run.traced (movesOf c) []
  have halone := (run_staged hs (.inl hn) hstart hrun).alone
  obtain ⟨x, hx, rfl⟩ := throw_eq_some h.throw
  exact ⟨⟨_, getElem?_set_of_some hx _, rfl⟩, halone.others hx⟩

end Throw

/-- Wherever a growing `Resize` throws, both vectors are as long as it was to make them,
with null entries that `Size` counts and that a later call follows. -/
theorem thrown_unusable (kind : QueueKind) {s called : State} {c n k : Nat} {pc : CallerPc}
    (h : (machine kind).Reachable ResizeAlone s) (hrest : AtRest s)
    (hcall : step kind s (.call c (.resize n)) = some called) (hm : s.threads.length ≤ k)
    (hk : k < n) (hpc : pc = .growFlag n k ∨ pc = .growThread n k) :
    (∃ t u, Thrown kind called c pc t u) ∧
      ∀ t u, Thrown kind called c pc t u → u.threads.length = u.flags.length ∧ ¬ u.NoNull ∧
        u.attached < u.size ∧ ¬ SafeLater kind u ∧ ¬ Usable kind u := by
  have hs := hrest.whole h
  have hstart := staged_call hs hrest hcall
  refine ⟨exists_thrown hs (h.anyStep.next (a := .call c (.resize n)) trivial hcall) hstart hm hk
    hpc, fun t u hthrown => ?_⟩
  obtain ⟨e, -, hle, hlt, hgrown⟩ := thrown_grown hs hstart hk hpc hthrown
  obtain ⟨⟨x, hx, hidle⟩, hothers⟩ := thrown_idle hs hstart (by omega) hthrown
  have hthreads : u.threads.length = n := by
    rw [hgrown.threads]
    exact length_extend rfl hm (Nat.le_of_lt hk)
  have hflags : u.flags.length = n := by
    rw [hgrown.flags]
    exact length_extend hs.length (by omega) (by omega)
  have hnull : ¬ u.NoNull := fun hnone =>
    hnone.1 (List.mem_of_getElem? (hgrown.null_from hm (Nat.le_refl k) hk))
  have hsafe : ¬ SafeLater kind u := by
    by_cases hone : n = 1
    · exact not_safe_stop hx hidle hothers hgrown.running
        (hgrown.null_from hm (j := 0) (by omega) (by omega))
    · obtain ⟨n, rfl⟩ : ∃ l, n = l + 1 := ⟨n - 1, by omega⟩
      exact not_safe_resize hx hidle hothers hgrown.running (by omega) hthreads hflags
        (hgrown.null_from hm (by omega) (Nat.lt_succ_self n))
  refine ⟨hthreads.trans hflags.symm, hnull, ?_, hsafe, fun husable => hnull husable.no_null⟩
  rw [hgrown.attached hs hm, State.size, hthreads]
  exact hk

theorem thrown_unusable_pair :
    (∃ t u, Thrown .queue (pairCalled 3) 0 (.growThread 3 2) t u) ∧
      ∀ t u, Thrown .queue (pairCalled 3) 0 (.growThread 3 2) t u →
        u.threads.length = u.flags.length ∧ ¬ u.NoNull ∧ u.attached < u.size ∧
          ¬ SafeLater .queue u ∧ ¬ Usable .queue u :=
  thrown_unusable .queue pair_reachable pair_atRest rfl (by decide) (by decide) (.inr rfl)

/-- `Resize(3)` on a pool of two where `std::thread` throws. -/
def thirdMissing : State :=
  { pair with
    threads := [some 0, some 1, none], flags := [some 0, some 1, some 2],
    cells := [false, false, false],
    callers := [{ pc := .growThread 3 2, began := [some 0, some 1] }] }

theorem thrown_usable_fails :
    ¬ ∀ (s called : State) (c n k : Nat) (pc : CallerPc) (t u : State),
      (machine .queue).Reachable ResizeAlone s → AtRest s →
      step .queue s (.call c (.resize n)) = some called → s.threads.length ≤ k → k < n →
      (pc = .growFlag n k ∨ pc = .growThread n k) → Thrown .queue called c pc t u →
      Usable .queue u := by
  intro h
  have hthrown : Thrown .queue (pairCalled 3) 0 (.growThread 3 2) thirdMissing
      (thirdMissing.goto 0 { pc := .growThread 3 2, began := [some 0, some 1] } .idle) :=
    ⟨Machine.run_of_exec (List.replicate 4 (.caller 0 0)) (by decide), ⟨_, rfl, rfl⟩, rfl⟩
  have husable := h pair (pairCalled 3) 0 3 2 (.growThread 3 2) _ _ pair_reachable pair_atRest rfl
    (by decide) (by decide) (.inr rfl) hthrown
  exact husable.no_null.1 (by decide)

end ThreadPool
end TryAndLearn
