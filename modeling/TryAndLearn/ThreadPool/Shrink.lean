import TryAndLearn.ThreadPool.Mutex
import TryAndLearn.ThreadPool.Record
import TryAndLearn.ThreadPool.ResizeCall
import TryAndLearn.ThreadPool.Stop

/-!
# The workers a shrinking `Resize` removes

A worker whose flag is set tests it after each task, so it begins one more task at most,
the one it is about to take or has taken already: `WorkerPc.mayBegin` bounds what it can
still begin, and no step makes that larger once the flag is set.

The notification comes after all the stores and under `mutex_`.  A worker that has read
its flag as not set holds `mutex_` until it is parked, so at the notification it is
parked, and woken, or has yet to read the flag.
-/

namespace TryAndLearn
namespace ThreadPool

/-- How many tasks a worker can still begin once its flag is set. -/
def WorkerPc.mayBegin : WorkerPc → Nat
  | .running | .testFlag | .predDone | .predFlag | .leave | .exited => 0
  | .init | .firstPop | .run | .nextPop | .lock | .predPop _ | .park | .parked | .unparked
  | .haveTask => 1

def Event.beginsOn (w : Nat) : Event → Bool
  | .began v _ => v = w
  | _ => false

/-- How many tasks worker `w` has begun. -/
def begins (w : Nat) (log : List Event) : Nat := log.countP (Event.beginsOn w)

section Begins

variable {kind : QueueKind} {s t : State} {a : Act} {log : List Event} {w f : Nat}
  {x y : Worker}

@[simp] theorem begins_append (w : Nat) (log shown : List Event) :
    begins w (log ++ shown) = begins w log + begins w shown :=
  List.countP_append

theorem WorkerPc.mayBegin_le (pc : WorkerPc) : pc.mayBegin ≤ 1 := by
  cases pc <;> simp [WorkerPc.mayBegin]

theorem WorkerStep.mayBegin_le (h : WorkerStep s x y) (hf : s.flag x.flag = true) :
    y.pc.mayBegin ≤ x.pc.mayBegin := by
  cases h with
  | same | release => exact Nat.le_refl _
  | goto hgo =>
    cases hgo with
    | stay _ hunset | notFlag _ hunset => exact absurd (hunset.symm.trans hf) (by decide)
    | init h | run h | quit h _ | seenDone h _ | notDone h _ | seenFlag h _ =>
      simp [h, WorkerPc.mayBegin]
  | take hpc | takeNone hpc _ =>
    have hone : x.pc.mayBegin = 1 := by
      cases hx : x.pc <;> simp [hx, WorkerPc.pops] at hpc <;> rfl
    rw [hone]
    exact WorkerPc.mayBegin_le _
  | finish h | lock h | relock h | park h | unpark h | start h | exit h =>
    simp [h, WorkerPc.mayBegin]

theorem begins_eq_zero (h : ∀ u, .began w u ∉ log) : begins w log = 0 := by
  refine List.countP_eq_zero.mpr fun e he hb => ?_
  cases e with
  | began v u =>
    obtain rfl : v = w := by simpa [Event.beginsOn] using hb
    exact h u he
  | _ => exact absurd hb Bool.false_ne_true

/-- A task begins where its worker stands before it. -/
theorem began_of_see {u : Task} (h : .began w u ∈ see s a t) :
    ∃ choice x, a = .worker w choice ∧ s.workers[w]? = some x ∧ x.pc = .run := by
  rcases mem_see h with ⟨_, _, x, _, _, he⟩ | ⟨v, choice, x, ha, hx, he⟩ | ⟨_, _, x, _, _, he⟩
  · exact absurd (Push.mem_shows he).1 (by simp)
  · rcases Worker.mem_shows he with ⟨u', heq, hpc, _⟩ | ⟨u', heq, _⟩ | ⟨_, _, heq⟩
    · obtain ⟨rfl, rfl⟩ := Event.began.inj heq
      exact ⟨choice, x, ha, hx, hpc⟩
    · exact absurd heq (by simp)
    · exact absurd heq (by simp)
  · rcases CallerPc.mem_shows he with ⟨_, _, _, heq, _⟩ | ⟨_, heq, _⟩ | ⟨_, _, heq⟩ <;>
      exact absurd heq (by simp)

/-- What a step begins on a worker was still to come. -/
theorem begins_see (hs : step kind s a = some t) (hx : s.workers[w]? = some x)
    (hy : t.workers[w]? = some y) (hf : s.flag x.flag = true) :
    begins w (see s a t) + y.pc.mayBegin ≤ x.pc.mayBegin := by
  by_cases hbegan : ∃ u, .began w u ∈ see s a t
  · obtain ⟨u, hu⟩ := hbegan
    obtain ⟨choice, x', rfl, hx', hpc⟩ := began_of_see hu
    obtain rfl := Option.some.inj (hx.symm.trans hx')
    have ht : t = s.setWorker w { x with pc := .running } := by
      simp only [step, hx, Option.bind_some, State.workerStep, hpc, Option.some.injEq] at hs
      exact hs.symm
    subst ht
    rw [State.setWorker, getElem?_set_of_some hx] at hy
    obtain rfl := Option.some.inj hy
    have hone :
        begins w (see s (.worker w choice) (s.setWorker w { x with pc := .running })) ≤ 1 := by
      rw [see_run hx hpc]
      cases x.hand <;> simp [begins, Event.beginsOn]
    rw [hpc]
    exact hone
  · have hzero : begins w (see s a t) = 0 :=
      begins_eq_zero fun u hu => hbegan ⟨u, hu⟩
    obtain ⟨y', hy', hstep⟩ := (moved_of_step hs).worker_next hx
    obtain rfl := Option.some.inj (hy.symm.trans hy')
    rw [hzero, Nat.zero_add]
    exact hstep.mayBegin_le hf

/-- A store is a step of the `Resize` that makes it. -/
theorem stored_of_see (h : .stored f ∈ see s a t) :
    ∃ c choice x n i, a = .caller c choice ∧ s.callers[c]? = some x ∧ x.pc = .shrinkFlag n i ∧
      n ≤ i ∧ s.flags[i]? = some (some f) := by
  rcases mem_see h with ⟨_, _, x, _, _, he⟩ | ⟨_, _, x, _, _, he⟩ | ⟨c, choice, x, ha, hx, he⟩
  · exact absurd (Push.mem_shows he).1 (by simp)
  · rcases Worker.mem_shows he with ⟨_, heq, _⟩ | ⟨_, heq, _⟩ | ⟨_, _, heq⟩ <;>
      exact absurd heq (by simp)
  · rcases CallerPc.mem_shows he with ⟨n, i, g, heq, hpc, hn, hg⟩ | ⟨_, heq, _⟩ | ⟨_, _, heq⟩
    · obtain rfl := Event.stored.inj heq
      exact ⟨c, choice, x, n, i, ha, hx, hpc, hn, hg⟩
    · exact absurd heq (by simp)
    · exact absurd heq (by simp)

theorem notifiedAll_of_see {c : Nat} (h : .notifiedAll c ∈ see s a t) :
    ∃ choice x n, a = .caller c choice ∧ s.callers[c]? = some x ∧ x.pc = .shrinkNotify n := by
  rcases mem_see h with ⟨_, _, x, _, _, he⟩ | ⟨_, _, x, _, _, he⟩ | ⟨d, choice, x, ha, hx, he⟩
  · exact absurd (Push.mem_shows he).1 (by simp)
  · rcases Worker.mem_shows he with ⟨_, heq, _⟩ | ⟨_, heq, _⟩ | ⟨_, _, heq⟩ <;>
      exact absurd heq (by simp)
  · rcases CallerPc.mem_shows he with ⟨_, _, _, heq, _⟩ | ⟨n, heq, hpc⟩ | ⟨_, _, heq⟩
    · exact absurd heq (by simp)
    · obtain rfl := Event.notifiedAll.inj heq
      exact ⟨choice, x, n, ha, hx, hpc⟩
    · exact absurd heq (by simp)

theorem flag_of_stored (hw : Wired s) (hs : step kind s a = some t)
    (h : .stored f ∈ see s a t) : t.flag f = true := by
  obtain ⟨c, choice, x, n, i, rfl, hc, hpc, hn, hf⟩ := stored_of_see h
  rw [step_resize hc (by rw [hpc]; rfl)] at hs
  simp only [hpc, State.resizeStep, if_pos hn] at hs
  obtain ⟨g, hg, rfl⟩ := setFlag_eq_some hs
  obtain rfl := Option.some.inj (Option.some.inj (hf.symm.trans hg))
  exact flag_set_self (hw.cells i f hf)

end Begins

/-! ## After the store -/

/-- A store to `f` has set it, and `w` has begun one task at most since. -/
structure Winding (w f : Nat) (t : State) (log : List Event) : Prop where
  set : .stored f ∈ log → t.flag f = true
  worker : ∃ y, t.workers[w]? = some y ∧ y.flag = f ∧
    ∀ pre post, log = pre ++ .stored f :: post → begins w post + y.pc.mayBegin ≤ 1

section Store

variable {kind : QueueKind} {s t : State} {a : Act} {log : List Event} {w f : Nat}

theorem winding_step (hw : Wired s) (hs : step kind s a = some t) (h : Winding w f s log) :
    Winding w f t (log ++ see s a t) := by
  obtain ⟨x, hx, rfl, hlog⟩ := h.worker
  obtain ⟨y, hy, hflag⟩ := (moved_of_step hs).worker_flag hx
  constructor
  · intro hmem
    rcases List.mem_append.mp hmem with hmem | hmem
    · exact (moved_of_step hs).flag_mono (h.set hmem)
    · exact flag_of_stored hw hs hmem
  · refine ⟨y, hy, hflag, fun pre post heq => ?_⟩
    rcases Machine.append_eq_split heq with ⟨rest, hrest, rfl⟩ | ⟨rest, rfl, hshown⟩
    · -- the store was made before, so the flag is set in `s`
      have hset : s.flag x.flag = true := h.set (hrest ▸ by simp)
      have hold := hlog pre rest hrest
      have hnew := begins_see hs hx hy hset
      rw [begins_append]
      omega
    · have hstored : .stored x.flag ∈ see s a t := hshown ▸ by simp
      obtain ⟨c, choice, _, _, _, ha, _⟩ := stored_of_see hstored
      have hnone : begins w post = 0 := by
        refine begins_eq_zero fun u hu => ?_
        have hbegan : .began w u ∈ see s a t := hshown ▸ by simp [hu]
        obtain ⟨_, _, ha', _⟩ := began_of_see hbegan
        exact absurd (ha.symm.trans ha') (by simp)
      have := y.pc.mayBegin_le
      omega

end Store

/-! ## After the notification -/

/-- How far the `Resize(n)` has come with entry `j`. -/
def Tells (n j : Nat) (told : Prop) : CallerPc → Prop
  | .resizeVectors m => m = n
  | .shrinkFlag m i => m = n ∧ (i < j → told)
  | .shrinkDetach m i => m = n ∧ (i ≤ j → told)
  | .shrinkLock m | .shrinkNotify m => m = n ∧ told
  | _ => False

/-- Until the notification the `Resize(n)` of `c` finds the vectors as they were in `s`. -/
structure Telling (s : State) (c n j f : Nat) (t : State) (log : List Event) : Prop where
  caller : ∃ x, t.callers[c]? = some x ∧ Tells n j (.stored f ∈ log) x.pc
  threads : t.threads = s.threads
  flags : t.flags = s.flags
  silent : .notifiedAll c ∉ log

/-- The worker has been told and is out of its wait, or on its way out. -/
structure Roused (w f : Nat) (t : State) (log : List Event) : Prop where
  told : .stored f ∈ log
  worker : ∃ y, t.workers[w]? = some y ∧ y.flag = f ∧ y.pc ≠ .park ∧ y.pc ≠ .parked

section Notification

variable {kind : QueueKind} {s t u : State} {a : Act} {log : List Event} {c n j w f : Nat}

theorem Tells.mono {told told' : Prop} {pc : CallerPc} (h : Tells n j told pc)
    (hle : told → told') : Tells n j told' pc := by
  cases pc <;> try exact h
  case shrinkFlag m i => exact ⟨h.1, fun hi => hle (h.2 hi)⟩
  case shrinkDetach m i => exact ⟨h.1, fun hi => hle (h.2 hi)⟩
  case shrinkLock m | shrinkNotify m => exact ⟨h.1, hle h.2⟩

theorem Tells.kind_eq {told : Prop} {pc : CallerPc} (h : Tells n j told pc) :
    pc.kind = .resize := by
  cases pc <;> first | rfl | exact h.elim

theorem roused_step (hs : step kind t a = some u) (hset : t.flag f = true)
    (h : Roused w f t log) : Roused w f u (log ++ see t a u) := by
  obtain ⟨x, hx, rfl, hpark, hparked⟩ := h.worker
  obtain ⟨y, hy, hstep⟩ := (moved_of_step hs).worker_next hx
  refine ⟨List.mem_append_left _ h.told, y, hy, hstep.flag_eq, ?_⟩
  cases hstep with
  | same | release => exact ⟨hpark, hparked⟩
  | goto hgo =>
    cases hgo with
    | notFlag _ hunset => exact absurd (hunset.symm.trans hset) (by decide)
    | _ => simp
  | take hpc => rcases (WorkerPc.of_pops hpc).1 with rfl | rfl <;> simp
  | takeNone hpc _ => rcases (WorkerPc.of_pops hpc).2 with rfl | rfl <;> simp
  | park hpc => exact absurd hpc hpark
  | _ => simp

theorem telling_other (ha : Alone t) (hs : step kind t a = some u)
    (hact : ∀ choice, a ≠ .caller c choice) (h : Telling s c n j f t log) :
    Telling s c n j f u (log ++ see t a u) := by
  obtain ⟨x, hx, htells⟩ := h.caller
  have hsame := (moved_of_step hs).sameVectors (ha.aloneAt hx htells.kind_eq) hact
    (not_call_of_kind hs hx htells.kind_eq)
  refine ⟨⟨x, hsame.caller.trans hx, htells.mono (List.mem_append_left _)⟩,
    hsame.threads.trans h.threads, hsame.flags.trans h.flags, fun hmem => ?_⟩
  rcases List.mem_append.mp hmem with hmem | hmem
  · exact h.silent hmem
  · obtain ⟨choice, _, _, heq, _⟩ := notifiedAll_of_see hmem
    exact hact choice heq

/-- The steps of the `Resize` itself. -/
theorem telling_own {choice : Nat} (hp : ∀ y ∈ t.callers, Placed t y.pc) (ho : Owned t)
    (hj : s.flags[j]? = some (some f)) (hlen : j < s.threads.length) (hnj : n ≤ j)
    (hw : ∃ y, t.workers[w]? = some y ∧ y.flag = f)
    (hs : step kind t (.caller c choice) = some u) (h : Telling s c n j f t log) :
    Telling s c n j f u (log ++ see t (.caller c choice) u) ∨
      Roused w f u (log ++ see t (.caller c choice) u) := by
  obtain ⟨x, hx, htells⟩ := h.caller
  have hplaced := hp x (List.mem_of_getElem? hx)
  have hset (pc : CallerPc) := getElem?_set_of_some hx { x with pc := pc }
  rw [step_resize hx htells.kind_eq] at hs
  rw [see_caller hx]
  have hsilent := h.silent
  cases hpc : x.pc <;> rw [hpc] at htells hs hplaced <;> try exact htells.elim
  case resizeVectors m =>
    obtain rfl : m = n := htells
    have hlt : ¬ t.threads.length ≤ m := by
      rw [h.threads]
      omega
    simp only [State.resizeStep, if_neg hlt, Option.some.injEq] at hs
    subst hs
    refine .inl ⟨⟨_, hset _, rfl, fun hi => ?_⟩, h.threads, h.flags, ?_⟩
    · rw [h.threads] at hi
      omega
    · simpa [CallerPc.shows, State.goto, State.setCaller] using hsilent
  case shrinkFlag m i =>
    obtain ⟨rfl, htold⟩ := htells
    by_cases hmi : m ≤ i
    · simp only [State.resizeStep, if_pos hmi] at hs
      obtain ⟨g, hg, rfl⟩ := setFlag_eq_some hs
      replace hg : t.flags[i]? = some (some g) := hg
      refine .inl ⟨⟨_, hset _, rfl, fun hij => ?_⟩, h.threads, h.flags, ?_⟩
      · rcases Nat.lt_or_eq_of_le hij with hlt | rfl
        · exact List.mem_append_left _ (htold hlt)
        · rw [h.flags, hj] at hg
          obtain rfl := Option.some.inj (Option.some.inj hg)
          refine List.mem_append_right _ ?_
          simp [CallerPc.shows, hmi, h.flags, hj]
      · simpa [CallerPc.shows, hmi, hg] using hsilent
    · simp only [State.resizeStep, if_neg hmi, Option.some.injEq] at hs
      subst hs
      refine .inl ⟨⟨_, hset _, rfl, List.mem_append_left _ (htold (by omega))⟩, h.threads,
        h.flags, ?_⟩
      simpa [CallerPc.shows, hmi] using hsilent
  case shrinkDetach m i =>
    obtain ⟨rfl, htold⟩ := htells
    simp only [State.resizeStep] at hs
    obtain ⟨v, _, hs⟩ := Option.bind_eq_some_iff.mp hs
    obtain ⟨y, _, hs⟩ := Option.bind_eq_some_iff.mp hs
    obtain ⟨_, hs⟩ := Option.ite_none_right_eq_some.mp hs
    obtain rfl := Option.some.inj hs
    obtain ⟨_, hpos, hmi, _⟩ := hplaced
    refine .inl ⟨⟨_, hset _, rfl, fun hi => ?_⟩, h.threads, h.flags, ?_⟩
    · rw [sizeDec_of_pos (by omega)] at hi
      exact List.mem_append_left _ (htold (by omega))
    · simpa [CallerPc.shows, State.goto, State.setCaller, State.setWorker] using hsilent
  case shrinkLock m =>
    obtain ⟨rfl, htold⟩ := htells
    simp only [State.resizeStep] at hs
    obtain ⟨_, hs⟩ := Option.ite_none_right_eq_some.mp hs
    obtain rfl := Option.some.inj hs
    refine .inl ⟨⟨_, hset _, rfl, List.mem_append_left _ htold⟩, h.threads, h.flags, ?_⟩
    simpa [CallerPc.shows, State.goto, State.setCaller] using hsilent
  case shrinkNotify m =>
    obtain ⟨rfl, htold⟩ := htells
    simp only [State.resizeStep, Option.some.injEq] at hs
    subst hs
    refine .inr ⟨List.mem_append_left _ htold, ?_⟩
    obtain ⟨y, hy, hflag⟩ := hw
    refine ⟨y.unpark, by simp [State.notifyAll, State.goto, State.setCaller, hy], ?_, ?_⟩
    · rw [(workerStep_unpark t y).flag_eq, hflag]
    · -- `c` holds `mutex_`, so no worker is between the test of its flag and its parking
      have hmine := ho (.caller c) ⟨x, hx, by rw [hpc]; rfl⟩
      have hpark : y.pc ≠ .park := by
        intro hpark
        have htheirs := ho (.worker w) ⟨y, hy, by rw [hpark]; rfl⟩
        exact absurd (hmine.symm.trans htheirs) (by simp)
      unfold Worker.unpark
      split
      · simp
      · rename_i hparked
        exact ⟨hpark, hparked⟩

end Notification

/-! ## The whole call -/

section Call

variable {kind : QueueKind} {s t : State} {log : List Event} {c n j w f : Nat} {x : Caller}

/-- A `Resize` that is about to look at the vectors finds a worker at every entry. -/
theorem entry_of_resize (h : (machine kind).Reachable ResizeAlone s)
    (hx : s.callers[c]? = some x) (hpc : x.pc = .resizeVectors n) (hj : j < s.threads.length) :
    ∃ w y, s.threads[j]? = some (some w) ∧ s.workers[w]? = some y ∧
      s.flags[j]? = some (some y.flag) := by
  have hsettled := settled_of_resize (reachable_alone h) hx (by rw [hpc]; rfl) hj
    (by rw [hpc]; exact hj)
  obtain ⟨w, _, hw, _⟩ := reachable_filled h j hsettled
  obtain ⟨y, hy, hf⟩ := (reachable_wired h).slot j w hw
  exact ⟨w, y, hw, hy, hf⟩

theorem winding_start (hw : ∃ y, s.workers[w]? = some y ∧ y.flag = f) : Winding w f s [] := by
  obtain ⟨y, hy, hflag⟩ := hw
  exact ⟨fun hmem => absurd hmem List.not_mem_nil, y, hy, hflag,
    fun pre post heq => absurd heq (by simp)⟩

theorem run_telling (h : (machine kind).Reachable ResizeAlone s)
    (hx : s.callers[c]? = some x) (hpc : x.pc = .resizeVectors n) (hnj : n ≤ j)
    (hj : s.flags[j]? = some (some f)) (hlen : j < s.threads.length)
    (hw : ∃ y, s.workers[w]? = some y ∧ y.flag = f)
    (hrun : ((machine kind).traced see).Run (Machine.lift ResizeAlone) (s, []) (t, log)) :
    Winding w f t log ∧ (Telling s c n j f t log ∨ Roused w f t log) := by
  refine hrun.traced_invariant
    (I := fun t log => Winding w f t log ∧ (Telling s c n j f t log ∨ Roused w f t log)) ?_ ?_
  · rintro t u log a hr hok hs ⟨hwinding, hI⟩
    have hreach := h.run hr
    refine ⟨winding_step (reachable_wired hreach) hs hwinding, ?_⟩
    rcases hI with htelling | hroused
    · by_cases hact : ∃ choice, a = .caller c choice
      · obtain ⟨choice, rfl⟩ := hact
        have hworker : ∃ y, t.workers[w]? = some y ∧ y.flag = f := by
          obtain ⟨y, hy, hflag, _⟩ := hwinding.worker
          exact ⟨y, hy, hflag⟩
        exact telling_own (reachable_placed hreach) (reachable_owned hreach) hj hlen hnj hworker
          hs htelling
      · exact .inl (telling_other (reachable_alone hreach) hs (fun choice ha => hact ⟨choice, ha⟩)
          htelling)
    · exact .inr (roused_step hs (hwinding.set hroused.told) hroused)
  · refine ⟨winding_start hw, .inl ⟨⟨x, hx, ?_⟩, rfl, rfl, List.not_mem_nil⟩⟩
    rw [hpc]
    rfl

end Call

/-- The workers that a shrinking `Resize` removes go away.  The run starts where
`Resize(n)` looks at the vectors and may go on for ever after. -/
theorem shrink_removes (kind : QueueKind) {s t : State} {log : List Event} {c n j : Nat}
    {x : Caller} (h : (machine kind).Reachable ResizeAlone s) (hx : s.callers[c]? = some x)
    (hpc : x.pc = .resizeVectors n) (hnj : n ≤ j) (hj : j < s.threads.length)
    (hrun : ((machine kind).traced see).Run (Machine.lift ResizeAlone) (s, []) (t, log)) :
    ∃ w y, s.threads[j]? = some (some w) ∧ t.workers[w]? = some y ∧
      (∀ pre post, log = pre ++ .stored y.flag :: post → begins w post ≤ 1) ∧
      (.notifiedAll c ∈ log → .stored y.flag ∈ log ∧ y.pc ≠ .park ∧ y.pc ≠ .parked) ∧
      (y.pc = .leave ∨ y.pc = .exited → y.hand = none) := by
  obtain ⟨w, y₀, hw, hy₀, hf⟩ := entry_of_resize h hx hpc hj
  obtain ⟨hwinding, hrest⟩ := run_telling h hx hpc hnj hf hj ⟨y₀, hy₀, rfl⟩ hrun
  obtain ⟨y, hy, hflag, hlog⟩ := hwinding.worker
  refine ⟨w, y, hw, hy, fun pre post heq => ?_, fun hnotified => ?_, fun hleft => ?_⟩
  · rw [hflag] at heq
    have := hlog pre post heq
    omega
  · rcases hrest with htelling | hroused
    · exact absurd hnotified htelling.silent
    · obtain ⟨y', hy', _, hpark, hparked⟩ := hroused.worker
      obtain rfl := Option.some.inj (hy.symm.trans hy')
      exact ⟨hflag ▸ hroused.told, hpark, hparked⟩
  · refine (reachable_handed (h.run hrun.untraced) w y hy).hand_eq_none ?_
    rcases hleft with hpc | hpc <;> rw [hpc] <;> rfl

/-- `Resize(1)` is about to look at a pool of two. -/
def trimming : State :=
  { threads := [some 0, some 1], flags := [some 0, some 1], cells := [false, false],
    workers := [{ flag := 0 }, { flag := 1 }],
    callers := [{ pc := .resizeVectors 1, began := [some 0, some 1] }] }

theorem trimming_reachable : (machine .queue).Reachable ResizeAlone trimming :=
  Machine.reachable_of_exec
    (List.flatten [construct 2, [.call 0 (.resize 1), .caller 0 0, .caller 0 0]])
    ⟨1, rfl⟩ (by decide)

/-- Worker 1 found its first task after its flag was set, ran it and left. -/
def trimmed : State :=
  { trimming with
    cells := [false, true], mutex := some (.caller 0),
    workers := [{ flag := 0 }, { flag := 1, pc := .exited, joinable := false }],
    pushes := [{ task := ⟨0, 3⟩, pc := .enqueued }],
    callers := [{ pc := .shrinkUnlock 1, began := [some 0, some 1] }],
    taken := [(1, ⟨0, 3⟩)], finished := [(1, ⟨0, 3⟩)] }

def trimmedLog : List Event :=
  [.enqueued ⟨0, 3⟩, .stored 1, .took 1 ⟨0, 3⟩ [], .began 1 ⟨0, 3⟩, .ended 1 ⟨0, 3⟩,
    .notifiedAll 0]

theorem run_trimmed :
    ((machine .queue).traced see).Run (Machine.lift ResizeAlone) (trimming, [])
      (trimmed, trimmedLog) :=
  Machine.run_of_exec
    (List.flatten [[.push 3, .pushStep 0 none, .caller 0 0, .caller 0 0],
      List.replicate 5 (.worker 1 0), List.replicate 4 (.caller 0 0)])
    (by decide)

theorem shrink_removes_trimmed : ∃ y, trimmed.workers[1]? = some y ∧ y.pc ≠ .parked := by
  obtain ⟨w, y, hw, hy, _, hparked, _⟩ := shrink_removes .queue (c := 0) (n := 1) (j := 1)
    trimming_reachable rfl rfl (Nat.le_refl 1) (by decide) run_trimmed
  obtain rfl : 1 = w := by simpa [trimming] using hw
  exact ⟨y, hy, (hparked (by decide)).2.2⟩

end ThreadPool
end TryAndLearn
