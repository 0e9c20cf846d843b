import TryAndLearn.Machine.Trace
import TryAndLearn.ThreadPool.ResizeStages
import TryAndLearn.ThreadPool.Unlock

/-!
# `Resize` from its call to its return

The run starts with the call on a pool at rest and is recorded by the program counters
at which the caller moves.  Each step of the call leads from one stage to the next, and
those of the other threads keep the stage, so the record bounds the steps of the call and
tells what it has stored, detached and started.
-/

namespace TryAndLearn
namespace ThreadPool

/-! ## The call and its record -/

/-- Beside the `Resize` of `c` nobody calls `Resize` or `Stop`, and `c` calls nothing. -/
def During (c : Nat) (_ : State) : Act → Prop
  | .call d op => d ≠ c ∧ op.kind = .other
  | _ => True

instance (c : Nat) (s : State) : (a : Act) → Decidable (During c s a)
  | .call d op => inferInstanceAs (Decidable (d ≠ c ∧ op.kind = .other))
  | .push _ | .pushStep _ _ | .worker _ _ | .wake _ | .caller _ _ =>
    inferInstanceAs (Decidable True)

/-- The program counters at which `c` moves. -/
def movesOf (c : Nat) (s : State) (a : Act) (_ : State) : List CallerPc :=
  match a with
  | .caller d _ => if d = c then (s.callers[c]?.map Caller.pc).toList else []
  | _ => []

/-- What a `Resize(n)` that returns has done to the pool `s`. -/
structure Resized (s : State) (n : Nat) (t : State) (log : List CallerPc) : Prop where
  threads_length : t.threads.length = n
  flags_length : t.flags.length = n
  kept : ∀ j, j < n → j < s.threads.length →
    t.threads[j]? = s.threads[j]? ∧ t.flags[j]? = s.flags[j]?
  started : ∀ j, s.threads.length ≤ j → j < n →
    ∃ w, t.threads[j]? = some (some w) ∧ s.workers.length ≤ w
  unset : ∀ (j f : Nat), t.flags[j]? = some (some f) → t.flag f = false
  removed : ∀ (j w : Nat), n ≤ j → s.threads[j]? = some (some w) →
    ∃ y, t.workers[w]? = some y ∧ t.flag y.flag = true ∧ y.joinable = false
  stores : log.filterMap CallerPc.stores = (List.range' n (s.threads.length - n)).reverse
  detaches : log.filterMap CallerPc.detaches = (List.range' n (s.threads.length - n)).reverse
  starts : log.filterMap CallerPc.starts = List.range' s.threads.length (n - s.threads.length)

def Returned (c : Nat) (t : State) : Prop := ∃ x, t.callers[c]? = some x ∧ x.pc = .idle

/-- `Resize(n)`, called by `c` on the pool `s`, stays inside the vectors, makes a bounded
number of steps, can always come to its end, and has done what it is for when it has. -/
def ResizeEnds (kind : QueueKind) (s called : State) (c n : Nat) : Prop :=
  ∀ t log, ((machine kind).traced (movesOf c)).Run (Machine.lift (During c)) (called, []) (t, log) →
    (∀ x ∈ t.callers[c]?, ∀ i ∈ x.pc.index, i < max s.threads.length n) ∧
      log.length ≤ 2 * max s.threads.length n + 8 ∧
      (∃ u log', ((machine kind).traced (movesOf c)).Run (Machine.lift (During c)) (t, log)
        (u, log') ∧ Returned c u) ∧
      (Returned c t → Resized s n t log)

/-! ## The whole call -/

/-- `c` is at a stage of its `Resize` and nobody else is in one or in a `Stop`. -/
structure Staged (s : State) (c n : Nat) (t : State) (log : List CallerPc) : Prop where
  alone : AloneAt c t
  stage : ∃ x, t.callers[c]? = some x ∧ Stage s n t log x.pc

section Run

variable {kind : QueueKind} {s called t u : State} {a : Act} {c n : Nat} {x : Caller}
  {log log' : List CallerPc}

theorem aloneAt_step (hok : During c t a) (hs : step kind t a = some u) (h : AloneAt c t) :
    AloneAt c u := by
  intro d y hy hne
  rcases (moved_of_step hs).callers_cases with heq | ⟨e, z, pc, hz, heq, hkind⟩ |
    ⟨e, op, z, rfl, hz, _, rfl⟩
  · exact h d y (heq ▸ hy) hne
  · rw [heq] at hy
    rcases getElem?_set_cases hy with ⟨rfl, rfl⟩ | ⟨_, hy⟩
    · rcases hkind with hkind | hkind
      · exact hkind.trans (h d z hz hne)
      · exact hkind
    · exact h d y hy hne
  · rcases getElem?_set_cases hy with ⟨_, rfl⟩ | ⟨_, hy⟩
    · exact op.kind_entry.trans hok.2
    · exact h d y hy hne

/-- A step of anybody keeps the call at a stage, unless it is the one that wraps. -/
theorem staged_step (hs : Whole s) (hok : During c t a) (hstep : step kind t a = some u)
    (h : Staged s c n t log) :
    Staged s c n u (log ++ movesOf c t a u) ∨ (n = 0 ∧ 0 < s.threads.length ∧ Wrapped c u) := by
  have halone := aloneAt_step hok hstep h.alone
  obtain ⟨x, hx, hstage⟩ := h.stage
  by_cases hact : ∃ choice, a = .caller c choice
  · obtain ⟨choice, rfl⟩ := hact
    have hmoves : movesOf c t (.caller c choice) u = [x.pc] := by simp [movesOf, hx]
    rw [hmoves]
    rcases stage_next kind hs hx hstage choice with hidle | ⟨hpc, hm⟩ |
      ⟨v, pc, hv, hpc, hnext⟩ | ⟨hzero, hpos, v, hv, hwrap⟩
    · simp [step, hx, State.callerStep, hidle] at hstep
    · rw [step_resize hx (by rw [hpc]; rfl), hpc] at hstep
      simp [State.resizeStep, hm] at hstep
    · obtain rfl := Option.some.inj (hstep.symm.trans hv)
      exact .inl ⟨halone, _, hpc, hnext⟩
    · obtain rfl := Option.some.inj (hstep.symm.trans hv)
      exact .inr ⟨hzero, hpos, hwrap⟩
  · have hcall (op : Op) : a ≠ .call c op := by
      rintro rfl
      exact hok.1 rfl
    have hsame := (moved_of_step hstep).sameVectors h.alone (fun choice ha => hact ⟨choice, ha⟩)
      hcall
    have hmoves : movesOf c t a u = [] := by
      cases a with
      | caller d choice =>
        have hne : d ≠ c := by
          rintro rfl
          exact hact ⟨choice, rfl⟩
        simp [movesOf, hne]
      | _ => rfl
    rw [hmoves, List.append_nil]
    exact .inl ⟨halone, x, hsame.caller.trans hx, hstage.other hsame⟩

theorem staged_call (hs : Whole s) (hrest : AtRest s)
    (hcall : step kind s (.call c (.resize n)) = some called) : Staged s c n called [] := by
  cases moved_of_step hcall with
  | call h _ =>
    have hfound := hs.found hrest.running
    constructor
    · intro d y hy hne
      rcases getElem?_set_cases hy with ⟨heq, _⟩ | ⟨_, hy⟩
      · exact absurd heq hne
      · exact hrest.callers y (List.mem_of_getElem? hy)
    · refine ⟨_, getElem?_set_of_some h _, .ifStop ?_ ⟨rfl, rfl, rfl, rfl⟩⟩
      exact ⟨⟨hfound.running, rfl, rfl, rfl, hfound.flag, hfound.worker⟩, rfl, rfl⟩

theorem run_staged (hs : Whole s) (hn : 0 < n ∨ s.threads.length = 0)
    (hstart : Staged s c n t log)
    (hrun : ((machine kind).traced (movesOf c)).Run (Machine.lift (During c)) (t, log)
      (u, log')) : Staged s c n u log' := by
  refine hrun.traced_invariant (fun _ hok hstep hI => ?_) hstart
  rcases staged_step hs hok hstep hI with hnext | ⟨hzero, hpos, _⟩
  · exact hnext
  · omega

variable (c log) in
/-- The other threads move and the call does not. -/
theorem run_threads (hrun : (machine kind).Run Threads t u) :
    u.callers = t.callers ∧ ((machine kind).traced (movesOf c)).Run (Machine.lift (During c))
      (t, log) (u, log) := by
  induction hrun with
  | refl => exact ⟨rfl, .refl⟩
  | @tail v w a _ hok hs ih =>
    have hsame := (moved_of_step hs).sameWiring hok
    have hduring : During c v a := by
      cases a with
      | call d op => exact absurd hok (by simp [Threads, Act.isCaller])
      | _ => trivial
    have hmoves : movesOf c v a w = [] := by
      cases a with
      | caller d choice => exact absurd hok (by simp [Threads, Act.isCaller])
      | _ => rfl
    refine ⟨hsame.callers.trans ih.1, ih.2.tail hduring ?_⟩
    exact Machine.traced_step.mpr ⟨hs, by rw [hmoves, List.append_nil]⟩

theorem locks_of_kind {pc : CallerPc} (h : pc.kind = .other) : pc.locks = false := by
  cases pc <;> first | rfl | exact absurd h (by simp [CallerPc.kind])

theorem Stage.length_le {pc : CallerPc} (h : Stage s n t log pc) :
    log.length ≤ 2 * max s.threads.length n + 8 := by
  cases h with
  | ifStop _ hlog | ifDone _ hlog | vectors _ hlog | growFlag _ _ _ hlog | growThread _ _ _ hlog
  | grown _ _ hlog | shrinkFlag _ _ _ _ hlog | shrinkDetach _ _ _ hlog | shrinkLock _ _ _ hlog
  | shrinkNotify _ _ _ hlog | shrinkUnlock _ _ _ hlog | shrinkErase _ _ _ hlog =>
    rw [hlog.length]
    omega
  | shrunk _ _ _ _ _ _ _ hlog =>
    rw [hlog.length]
    omega

theorem Stage.index_lt {pc : CallerPc} (h : Stage s n t log pc) :
    ∀ i ∈ pc.index, i < max s.threads.length n := by
  intro i hi
  cases h with
  | growFlag | shrinkFlag =>
    obtain ⟨_, hi⟩ := Option.ite_none_right_eq_some.mp hi
    obtain rfl := Option.some.inj hi
    omega
  | growThread | shrinkDetach =>
    obtain rfl := Option.some.inj hi
    omega
  | _ => exact absurd hi (by simp [CallerPc.index])

/-- What the call may wait for can come. -/
theorem staged_unblocked (hs : Whole s) (hreach : (machine kind).Reachable Machine.anyStep t)
    (h : Staged s c n t log) (hx : t.callers[c]? = some x) (hpc : x.pc = .shrinkLock n) :
    ∃ u, ((machine kind).traced (movesOf c)).Run (Machine.lift (During c)) (t, log) (u, log) ∧
      Staged s c n u log ∧ u.mutex = none ∧ u.callers[c]? = some x := by
  have hlocks (d : Nat) (y : Caller) (hy : t.callers[d]? = some y) : y.pc.locks = false := by
    by_cases hd : d = c
    · subst hd
      obtain rfl := Option.some.inj (hx.symm.trans hy)
      rw [hpc]
      rfl
    · exact locks_of_kind (h.alone d y hy hd)
  have hn : 0 < n := by
    obtain ⟨y, hy, hstage⟩ := h.stage
    obtain rfl := Option.some.inj (hx.symm.trans hy)
    rw [hpc] at hstage
    cases hstage with
    | shrinkLock hn _ _ _ => exact hn
  obtain ⟨u, hrun, hm⟩ := mutex_released kind (reachable_held hreach) hlocks
  obtain ⟨hcallers, htraced⟩ := run_threads c log hrun
  exact ⟨u, htraced, run_staged hs (.inl hn) h htraced, hm, by rw [hcallers, hx]⟩

/-- At every stage but the last the call can get one step further. -/
theorem staged_forward (hs : Whole s) (hreach : (machine kind).Reachable Machine.anyStep t)
    (h : Staged s c n t log) :
    Returned c t ∨ ∃ v pc,
      ((machine kind).traced (movesOf c)).Run (Machine.lift (During c)) (t, log) (v, log ++ [pc]) ∧
      (Staged s c n v (log ++ [pc]) ∨ (n = 0 ∧ 0 < s.threads.length ∧ Wrapped c v)) := by
  -- whichever step it is, it is one of the call
  have hmove {t v : State} {x : Caller} (hx : t.callers[c]? = some x)
      (hv : step kind t (.caller c 0) = some v) :
      ((machine kind).traced (movesOf c)).Run (Machine.lift (During c)) (t, log)
        (v, log ++ [x.pc]) :=
    .single (a := .caller c 0) trivial
      (Machine.traced_step.mpr ⟨hv, by simp [movesOf, hx]⟩)
  have hnext {t : State} {x : Caller} (hx : t.callers[c]? = some x) (ha : AloneAt c t)
      (hadv : Advances kind s n t log c x 0 ∨ (n = 0 ∧ 0 < s.threads.length ∧
        ∃ u, step kind t (.caller c 0) = some u ∧ Wrapped c u)) :
      ∃ v pc, ((machine kind).traced (movesOf c)).Run (Machine.lift (During c)) (t, log)
          (v, log ++ [pc]) ∧
        (Staged s c n v (log ++ [pc]) ∨ (n = 0 ∧ 0 < s.threads.length ∧ Wrapped c v)) := by
    rcases hadv with ⟨v, pc, hv, hpc, hstage⟩ | ⟨hzero, hpos, v, hv, hwrap⟩
    · exact ⟨v, x.pc, hmove hx hv,
        .inl ⟨aloneAt_step (a := .caller c 0) trivial hv ha, _, hpc, hstage⟩⟩
    · exact ⟨v, x.pc, hmove hx hv, .inr ⟨hzero, hpos, hwrap⟩⟩
  obtain ⟨x, hx, hstage⟩ := h.stage
  rcases stage_next kind hs hx hstage 0 with hidle | ⟨hpc, _⟩ | hadv
  · exact .inl ⟨x, hx, hidle⟩
  · obtain ⟨u, hrun, hu, hm, hxu⟩ := staged_unblocked hs hreach h hx hpc
    obtain ⟨y, hy, hstage'⟩ := hu.stage
    obtain rfl := Option.some.inj (hxu.symm.trans hy)
    rcases stage_next kind hs hxu hstage' 0 with hidle | ⟨_, hblocked⟩ | hadv
    · exact absurd (hpc.symm.trans hidle) (by simp)
    · exact absurd hm hblocked
    · obtain ⟨v, pc, hlast, hend⟩ := hnext hxu hu.alone hadv
      exact .inr ⟨v, pc, hrun.trans hlast, hend⟩
  · exact .inr (hnext hx h.alone hadv)

theorem Staged.length_le (h : Staged s c n t log) :
    log.length ≤ 2 * max s.threads.length n + 8 := by
  obtain ⟨x, _, hstage⟩ := h.stage
  exact hstage.length_le

theorem reachable_during (hrun : ((machine kind).traced (movesOf c)).Run
      (Machine.lift (During c)) (t, log) (u, log'))
    (hreach : (machine kind).Reachable Machine.anyStep t) :
    (machine kind).Reachable Machine.anyStep u :=
  hreach.run ((Machine.Run.untraced hrun).mono fun _ _ _ => trivial)

/-- From every stage the call can come to its end, or before the beginning of the vectors. -/
theorem staged_ends (hs : Whole s) (hreach : (machine kind).Reachable Machine.anyStep t)
    (h : Staged s c n t log) :
    ∃ u log', ((machine kind).traced (movesOf c)).Run (Machine.lift (During c)) (t, log) (u, log') ∧
      ((Returned c u ∧ Staged s c n u log') ∨ (n = 0 ∧ 0 < s.threads.length ∧ Wrapped c u)) := by
  induction hk : 2 * max s.threads.length n + 8 - log.length using Nat.strong_induction_on
    generalizing t log with
  | h k ih =>
    rcases staged_forward hs hreach h with hdone | ⟨v, pc, hrun, hv | hwrap⟩
    · exact ⟨t, log, .refl, .inl ⟨hdone, h⟩⟩
    · have hle := hv.length_le
      rw [List.length_append, List.length_singleton] at hle
      have hless : 2 * max s.threads.length n + 8 - (log ++ [pc]).length < k := by
        rw [List.length_append, List.length_singleton]
        omega
      obtain ⟨u, log', hrest, hend⟩ := ih _ hless (reachable_during hrun hreach) hv rfl
      exact ⟨u, log', hrun.trans hrest, hend⟩
    · exact ⟨v, log ++ [pc], hrun, .inr hwrap⟩

/-! ### What a call that has returned has done -/

theorem flag_replicate (s : State) (f k : Nat) :
    (s.cells ++ List.replicate k false).getD f false = s.flag f := by
  refine flag_append s f _ fun i => ?_
  rw [List.getD_eq_getElem?_getD, List.getElem?_replicate]
  split <;> rfl

theorem Grown.resized (h : Grown s n n n t) (hs : Whole s) (hm : s.threads.length ≤ n)
    (hlog : Did log [] [] (List.range' s.threads.length (n - s.threads.length))
      (2 * (n - s.threads.length) + 4)) : Resized s n t log where
  threads_length := by rw [h.threads, length_extend rfl hm (Nat.le_refl n)]
  flags_length := by rw [h.flags, length_extend hs.length hm (Nat.le_refl n)]
  kept j _ hj := by
    have hjf : j < s.flags.length := by rwa [hs.length]
    rw [h.threads, h.flags, List.append_assoc, List.append_assoc, List.getElem?_append_left hj,
      List.getElem?_append_left hjf]
    exact ⟨rfl, rfl⟩
  started j hj hlt := by
    refine ⟨s.workers.length + (j - s.threads.length), ?_, Nat.le_add_right _ _⟩
    have hlen : j < (s.threads ++
        (List.range' s.workers.length (n - s.threads.length)).map some).length := by
      rw [List.length_append, List.length_map, List.length_range']
      omega
    rw [h.threads, List.getElem?_append_left hlen, List.getElem?_append_right hj,
      List.getElem?_map, List.getElem?_range' (by omega)]
    simp
  unset j f hj := by
    rw [State.flag, h.cells, flag_replicate]
    by_cases hlt : j < s.threads.length
    · obtain ⟨_, y, _, _, _, hf, hflag⟩ := hs.entry j hlt
      rw [h.flags, List.append_assoc, List.getElem?_append_left (by rwa [hs.length]), hf] at hj
      obtain rfl := Option.some.inj (Option.some.inj hj)
      exact hflag
    · -- a new flag is beyond the old ones
      have hnew : s.cells.length ≤ f := by
        rw [h.flags, Nat.sub_self, List.replicate_zero, List.append_nil,
          List.getElem?_append_right (by rw [hs.length]; omega), List.getElem?_map] at hj
        obtain ⟨g, hg, heq⟩ := Option.map_eq_some_iff.mp hj
        obtain rfl := Option.some.inj heq
        have := List.mem_range'_1.mp (List.mem_of_getElem? hg)
        omega
      rw [State.flag, List.getD_eq_getElem?_getD, List.getElem?_eq_none hnew]
      rfl
  removed j w hj hw := by
    have := (List.getElem?_eq_some_iff.mp hw).1
    omega
  stores := by rw [hlog.stores, Nat.sub_eq_zero_of_le hm]; rfl
  detaches := by rw [hlog.detaches, Nat.sub_eq_zero_of_le hm]; rfl
  starts := hlog.starts

theorem Shrunk.resized (h : Shrunk s n n u) (hs : Whole s) (hm : n < s.threads.length)
    (ht : t.threads = resizeTo u.threads n) (hf : t.flags = resizeTo u.flags n)
    (hc : t.cells = u.cells) (hw : ∀ (w : Nat) (y : Worker), u.workers[w]? = some y →
      ∃ z, t.workers[w]? = some z ∧ z.flag = y.flag ∧ z.joinable = y.joinable)
    (hlog : Did log (downFrom s.threads.length n) (downFrom s.threads.length n) []
      (2 * (s.threads.length - n) + 8)) : Resized s n t log where
  threads_length := by rw [ht, length_resizeTo]
  flags_length := by rw [hf, length_resizeTo]
  kept j hj hlt := by
    obtain ⟨w, y, hw, _, _, hflag, _⟩ := hs.entry j hlt
    rw [ht, hf, h.threads, h.flags, hw, hflag]
    exact ⟨getElem?_resizeTo.mpr ⟨hj, hw⟩, getElem?_resizeTo.mpr ⟨hj, hflag⟩⟩
  started j hj hlt := by omega
  unset j f hj := by
    rw [hf, h.flags] at hj
    obtain ⟨hlt, hj⟩ := getElem?_resizeTo.mp hj
    rw [State.flag, hc]
    exact (h.flag j f hj).trans (decide_eq_false (by omega))
  removed j w hj hjw := by
    obtain ⟨y, hy, hflag, hjoin⟩ := h.worker j w hjw
    obtain ⟨z, hz, hzf, hzj⟩ := hw w y hy
    refine ⟨z, hz, ?_, ?_⟩
    · rw [hzf, State.flag, hc]
      exact (h.flag j y.flag hflag).trans (decide_eq_true hj)
    · rw [hzj, hjoin, decide_eq_false (by omega)]
  stores := hlog.stores
  detaches := hlog.detaches
  starts := by rw [hlog.starts, Nat.sub_eq_zero_of_le (Nat.le_of_lt hm)]; rfl

theorem Staged.resized (hs : Whole s) (h : Staged s c n t log) (hdone : Returned c t) :
    Resized s n t log := by
  obtain ⟨x, hx, hstage⟩ := h.stage
  obtain ⟨y, hy, hidle⟩ := hdone
  obtain rfl := Option.some.inj (hx.symm.trans hy)
  rw [hidle] at hstage
  cases hstage with
  | grown hm h hlog => exact h.resized hs hm hlog
  | shrunk _ hm h ht hf hc hw hlog => exact h.resized hs hm ht hf hc hw hlog

end Run

/-- `Resize(n)` on a pool at rest does what it is for, unless it has to remove every
worker. -/
theorem resize_ends (kind : QueueKind) {s called : State} {c n : Nat}
    (h : (machine kind).Reachable ResizeAlone s) (hrest : AtRest s)
    (hsize : s.threads.length < UInt64.size)
    (hcall : step kind s (.call c (.resize n)) = some called) :
    ResizeEnds kind s called c n ↔ 0 < n ∨ s.threads.length = 0 := by
  have hs := hrest.whole h
  have hstart := staged_call hs hrest hcall
  have hreach : (machine kind).Reachable Machine.anyStep called :=
    h.anyStep.next (a := .call c (.resize n)) trivial hcall
  constructor
  · intro hends
    by_contra hbad
    obtain ⟨rfl, hpos⟩ : n = 0 ∧ 0 < s.threads.length := by omega
    obtain ⟨u, log, hrun, hend⟩ := staged_ends hs hreach hstart
    rcases hend with ⟨⟨x, hx, hidle⟩, hu⟩ | ⟨_, _, x, hx, hwrap⟩
    · -- no stage of this call is its last
      obtain ⟨y, hy, hstage⟩ := hu.stage
      obtain rfl := Option.some.inj (hx.symm.trans hy)
      rw [hidle] at hstage
      cases hstage with
      | grown hm _ _ => omega
      | shrunk hn _ _ _ _ _ _ _ => exact absurd hn (Nat.lt_irrefl 0)
    · have hbound := (hends u log hrun).1 x hx (sizeDec 0) (by rw [hwrap]; rfl)
      have hlast : sizeDec 0 = UInt64.size - 1 := rfl
      omega
  · intro hn t log hrun
    have hstaged := run_staged hs hn hstart hrun
    refine ⟨?_, hstaged.length_le, ?_, hstaged.resized hs⟩
    · obtain ⟨y, hy, hstage⟩ := hstaged.stage
      intro x hx
      obtain rfl := Option.some.inj (hy.symm.trans hx)
      exact hstage.index_lt
    · obtain ⟨u, log', hrest, hend⟩ := staged_ends hs (reachable_during hrun hreach) hstaged
      rcases hend with ⟨hdone, _⟩ | ⟨_, _, _⟩
      · exact ⟨u, log', hrest, hdone⟩
      · omega

/-- A pool of two. -/
def pair : State :=
  { threads := [some 0, some 1], flags := [some 0, some 1], cells := [false, false],
    workers := [{ flag := 0 }, { flag := 1 }], callers := [{ began := [] }] }

theorem pair_reachable : (machine .queue).Reachable ResizeAlone pair :=
  Machine.reachable_of_exec (construct 2) ⟨1, rfl⟩ (by decide)

def pairCalled (n : Nat) : State :=
  { pair with callers := [{ pc := .resizeIfStop n, began := [some 0, some 1] }] }

theorem pair_atRest : AtRest pair := ⟨⟨rfl, rfl⟩, by decide⟩

theorem resize_ends_pair :
    ResizeEnds .queue pair (pairCalled 1) 0 1 ↔ 0 < 1 ∨ pair.threads.length = 0 :=
  resize_ends .queue pair_reachable pair_atRest (by decide) rfl

/-- Both workers are gone and the loop of `Resize(0)` has gone on below entry 0. -/
def overrun : State :=
  { pair with
    cells := [true, true],
    workers := [{ flag := 0, joinable := false }, { flag := 1, joinable := false }],
    callers := [{ pc := .shrinkFlag 0 (UInt64.size - 1), began := [some 0, some 1] }] }

theorem run_overrun :
    ((machine .queue).traced (movesOf 0)).Run (Machine.lift (During 0)) (pairCalled 0, [])
      (overrun, [.resizeIfStop 0, .resizeIfDone 0, .resizeVectors 0, .shrinkFlag 0 1,
        .shrinkDetach 0 1, .shrinkFlag 0 0, .shrinkDetach 0 0]) :=
  Machine.run_of_exec (List.replicate 7 (.caller 0 0)) (by decide)

theorem resize_ends_fails :
    ¬ ∀ (s called : State) (c n : Nat), (machine .queue).Reachable ResizeAlone s → AtRest s →
      s.threads.length < UInt64.size → step .queue s (.call c (.resize n)) = some called →
      ResizeEnds .queue s called c n := by
  intro h
  have hends := h pair (pairCalled 0) 0 0 pair_reachable pair_atRest (by decide) rfl
  have hbound := (hends _ _ run_overrun).1 _ rfl (UInt64.size - 1) rfl
  exact absurd hbound (by decide)

end ThreadPool
end TryAndLearn
