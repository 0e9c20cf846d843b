import TryAndLearn.ThreadPool.Attached

/-!
# How far a `Stop` has come

`Phase` says what a `Stop` has achieved at each of its steps: which flags it has set,
that every worker of `threads_` has been told to stop once it notifies, and which of
them have left their loop.  Another `Stop` may run at the same time; all it can do to
the first is clear the vectors, after which there is nothing left to be said.
-/

namespace TryAndLearn
namespace ThreadPool

/-- The flags of the first `i` workers are set. -/
def Flagged (s : State) (i : Nat) : Prop :=
  ∀ (j w : Nat) (x : Worker), j < i → s.threads[j]? = some (some w) → s.workers[w]? = some x →
    s.flag x.flag = true

/-- The first `i` workers have left their loop. -/
def Joined (s : State) (i : Nat) : Prop :=
  ∀ (j w : Nat) (x : Worker), j < i → s.threads[j]? = some (some w) → s.workers[w]? = some x →
    x.pc = .exited

def State.HasExited (s : State) (w : Nat) : Prop := ∃ y ∈ s.workers[w]?, y.pc = .exited

instance (s : State) (w : Nat) : Decidable (s.HasExited w) :=
  inferInstanceAs (Decidable (∃ y ∈ s.workers[w]?, y.pc = .exited))

/-- The workers of a vector have left their loop. -/
def State.Gone (s : State) (l : List (Option Nat)) : Prop :=
  ∀ entry ∈ l, ∀ w ∈ entry, s.HasExited w

instance (s : State) (l : List (Option Nat)) : Decidable (s.Gone l) :=
  inferInstanceAs (Decidable (∀ entry ∈ l, ∀ w ∈ entry, s.HasExited w))

/-- Every worker of `threads_` has an order to stop. -/
def Told (s : State) : Prop := s.isDone = true ∨ Flagged s s.threads.length

def Phase (s : State) : CallerPc → Prop
  | .stopFlag i n => s.threads.length ≤ n ∧ Flagged s i
  | .stopClear => Flagged s s.threads.length
  | .stopNotify => Told s
  | .stopJoin i => Told s ∧ Joined s i
  | .joining i w => Told s ∧ Joined s i ∧ (s.threads[i]? = some (some w) ∨ s.threads = [])
  | .stopDrain | .stopErase => Told s ∧ Joined s s.threads.length
  | _ => True

theorem phase_of_kind {s : State} {pc : CallerPc} (h : pc.kind ≠ .stop) : Phase s pc := by
  cases pc <;> trivial

section Phases

variable {kind : QueueKind} {s t : State} {a : Act} {c i : Nat} {x : Caller}

theorem Flagged.mono {k : Nat} (h : Flagged s i) (hk : k ≤ i) : Flagged s k :=
  fun j w y hj hw hy => h j w y (by omega) hw hy

theorem Joined.mono {k : Nat} (h : Joined s i) (hk : k ≤ i) : Joined s k :=
  fun j w y hj hw hy => h j w y (by omega) hw hy

theorem lt_length_of_flag {f : Nat} (h : s.flag f = true) : f < s.cells.length := by
  by_contra hge
  rw [State.flag, List.getD_eq_getElem?_getD, List.getElem?_eq_none (by omega)] at h
  exact absurd h (by decide)

theorem flag_set_self {f : Nat} (h : f < s.cells.length) :
    (s.cells.set f true).getD f false = true := by
  rw [List.getD_eq_getElem?_getD, List.getElem?_set_self h]
  rfl

/-- A flag stays set. -/
theorem Moved.flag_mono (h : Moved kind s a t) {f : Nat} (hf : s.flag f = true) :
    t.flag f = true := by
  cases h with
  | growFlag _ _ _ _ => exact (flag_append s f [false] fun k => by cases k <;> rfl).trans hf
  | @setFlag c x _ i g pc h hpc hg =>
    by_cases hfg : g = f
    · subst hfg
      exact flag_set_self (lt_length_of_flag hf)
    · exact (flag_set_of_ne s hfg).trans hf
  | _ => exact hf

/-- What is known of the workers of `threads_` stays known. -/
theorem Flagged.next (hs : Flagged s i) (hw : Wired s) (h : Moved kind s a t)
    (ht : ∀ j w : Nat, t.threads[j]? = some (some w) → s.threads[j]? = some (some w)) :
    Flagged t i := by
  intro j w y hj hjw hy
  obtain ⟨x, hx, _⟩ := hw.slot j w (ht j w hjw)
  obtain ⟨y', hy', hf⟩ := h.worker_flag hx
  obtain rfl := Option.some.inj (hy.symm.trans hy')
  rw [hf]
  exact h.flag_mono (hs j w x hj (ht j w hjw) hx)

theorem Joined.next (hs : Joined s i) (hw : Wired s) (h : Moved kind s a t)
    (ht : ∀ j w : Nat, t.threads[j]? = some (some w) → s.threads[j]? = some (some w)) :
    Joined t i := by
  intro j w y hj hjw hy
  obtain ⟨x, hx, _⟩ := hw.slot j w (ht j w hjw)
  obtain ⟨y', hy', hstep⟩ := h.worker_next hx
  obtain rfl := Option.some.inj (hy.symm.trans hy')
  exact hstep.exited (hs j w x hj (ht j w hjw) hx)

theorem Phase.next {pc : CallerPc} (hs : Phase s pc) (hw : Wired s) (h : Moved kind s a t)
    (ht : t.threads = s.threads ∨ t.threads = []) : Phase t pc := by
  have hentry (j w : Nat) (hj : t.threads[j]? = some (some w)) :
      s.threads[j]? = some (some w) := by
    rcases ht with ht | ht
    · exact ht ▸ hj
    · rw [ht] at hj
      simp at hj
  have hlen : t.threads.length ≤ s.threads.length := by
    rcases ht with ht | ht <;> simp [ht]
  have htold (hs : Told s) : Told t := by
    refine hs.imp h.isDone_mono fun hf => ?_
    exact (hf.next hw h hentry).mono hlen
  cases pc <;> try trivial
  case stopFlag i n => exact ⟨hlen.trans hs.1, hs.2.next hw h hentry⟩
  case stopClear => exact (Flagged.next hs hw h hentry).mono hlen
  case stopNotify => exact htold hs
  case stopJoin i => exact ⟨htold hs.1, hs.2.next hw h hentry⟩
  case joining i w =>
    refine ⟨htold hs.1, hs.2.1.next hw h hentry, ?_⟩
    rcases ht with ht | ht
    · rw [ht]
      exact hs.2.2
    · exact .inr ht
  case stopDrain | stopErase => exact ⟨htold hs.1, (hs.2.next hw h hentry).mono hlen⟩

theorem settled_of_stop (ha : Alone s) (hx : x ∈ s.callers) (hk : x.pc.kind = .stop)
    {j : Nat} (hj : j < s.threads.length) : Settled s j :=
  ⟨hj, fun y hy => by rwa [keep_of_kind (ha.not_resize hx hk hy)]⟩

theorem phase_goto {pc : CallerPc} (ha : Alone s) (hf : Filled s) (h : s.callers[c]? = some x)
    (hx : Phase s x.pc) (hgo : CallerGoto s x.pc pc) : Phase s pc := by
  cases hgo with
  | stopSize _ => exact ⟨le_rfl, fun j w y hj => absurd hj (Nat.not_lt_zero j)⟩
  | flagged hpc hn =>
    rw [hpc] at hx
    exact hx.2.mono (hx.1.trans hn)
  | @joinSkip i w y hpc ht hw hj =>
    rw [hpc] at hx
    refine ⟨hx.1, fun k v z hk hv hz => ?_⟩
    rcases Nat.lt_succ_iff_lt_or_eq.mp hk with hk | rfl
    · exact hx.2 k v z hk hv hz
    · -- a worker of `threads_` that cannot be joined has left its loop
      have hlt := (List.getElem?_eq_some_iff.mp ht).1
      have hset := settled_of_stop ha (List.mem_of_getElem? h) (by rw [hpc]; rfl) hlt
      obtain ⟨w', y', hw', hy', hgood, _⟩ := hf k hset
      obtain rfl := Option.some.inj (Option.some.inj (ht.symm.trans hw'))
      obtain rfl := Option.some.inj (Option.some.inj (ht.symm.trans hv))
      obtain rfl := Option.some.inj (hw.symm.trans hy')
      obtain rfl := Option.some.inj (hw.symm.trans hz)
      rcases hgood with hgood | hgood
      · exact absurd (hj.symm.trans hgood) (by decide)
      · exact hgood
  | joinedAll hpc hn =>
    rw [hpc] at hx
    exact ⟨hx.1, hx.2.mono hn⟩
  | stopStopped _ _ | stopNotStopped _ _ | stopDone _ _ | stopNotDone _ _ => trivial
  | _ => exact phase_of_kind (by simp [CallerPc.kind])

/-- The step of a `Resize` or of another call: the callers in a `Stop` are as before, or
there is none. -/
theorem phase_others (hw : Wired s) (h : Moved kind s a t)
    (ht : t.threads = s.threads ∨ t.threads = []) (hs : ∀ y ∈ s.callers, Phase s y.pc)
    {x' : Caller} (hc : t.callers = s.callers.set c x') (hx' : Phase t x'.pc) :
    ∀ y ∈ t.callers, Phase t y.pc := by
  rw [hc]
  exact forall_mem_set (fun y hy => (hs y hy).next hw h ht) hx'

theorem phase_resize (ha : Alone s) (h : s.callers[c]? = some x) (hk : x.pc.kind = .resize)
    {x' : Caller} (hc : t.callers = s.callers.set c x') (hx' : x'.pc.kind ≠ .stop) :
    ∀ y ∈ t.callers, Phase t y.pc := by
  intro y hy
  obtain ⟨d, hd⟩ := List.getElem?_of_mem hy
  rw [hc] at hd
  rcases getElem?_set_cases hd with ⟨rfl, rfl⟩ | ⟨hne, hd⟩
  · exact phase_of_kind hx'
  · refine phase_of_kind ?_
    rw [ha c d x y h hd (Ne.symm hne) hk]
    decide

theorem phase_of_removes {pc onTask onEmpty : CallerPc} {who : Remover}
    (h : pc.removes = some (who, onTask, onEmpty)) (hs : Phase s pc) :
    Phase s onTask ∧ Phase s onEmpty := by
  cases pc <;> simp only [CallerPc.removes, Option.some.injEq, Prod.mk.injEq, reduceCtorEq] at h <;>
    obtain ⟨_, rfl, rfl⟩ := h
  · exact ⟨hs, .inr hs⟩
  · exact ⟨hs, hs⟩
  · exact ⟨trivial, trivial⟩
  · exact ⟨trivial, trivial⟩

theorem phase_step (ha : Alone s) (hw : Wired s) (hf : Filled s) (h : Moved kind s a t)
    (hs : ∀ y ∈ s.callers, Phase s y.pc) : ∀ y ∈ t.callers, Phase t y.pc := by
  have hmoved := h
  cases h with
  | push | enqueue | pushLock | notifyOne | notifyNobody | pushReturn | workerGoto | take
  | takeNone | finish | lock | unlock | wake =>
    exact fun y hy => (hs y hy).next hw hmoved (.inl rfl)
  | @call c x op h hpc =>
    refine phase_others hw hmoved (.inl rfl) hs rfl ?_
    cases op with
    | stop wait => cases wait <;> trivial
    | _ => trivial
  | callerGoto h hgo =>
    have hx := hs _ (List.mem_of_getElem? h)
    exact phase_others hw hmoved (.inl rfl) hs rfl
      ((phase_goto ha hf h hx hgo).next hw hmoved (.inl rfl))
  | remove h hpc _ =>
    have hx := phase_of_removes hpc (hs _ (List.mem_of_getElem? h))
    exact phase_others hw hmoved (.inl rfl) hs rfl (hx.1.next hw hmoved (.inl rfl))
  | removeNone h hpc _ =>
    have hx := phase_of_removes hpc (hs _ (List.mem_of_getElem? h))
    exact phase_others hw hmoved (.inl rfl) hs rfl (hx.2.next hw hmoved (.inl rfl))
  | grow h hpc _ | growFlag h hpc _ _ | growThread h hpc _ _ | detach h hpc _ _ _
  | shrinkLock h hpc _ | shrinkUnlock h hpc | shrinkErase h hpc =>
    exact phase_resize ha h (by rw [hpc]; rfl) rfl (by simp [CallerPc.kind])
  | @setFlag c x _ i f pc h hpc hf' =>
    have hx := hs x (List.mem_of_getElem? h)
    rcases hpc with ⟨n, hpc, hn, rfl⟩ | ⟨n, hpc, hn, rfl⟩
    · exact phase_resize ha h (by rw [hpc]; rfl) rfl (by simp [CallerPc.kind])
    · rw [hpc] at hx
      refine phase_others hw hmoved (.inl rfl) hs rfl ⟨hx.1, fun j w y hj hjw hy => ?_⟩
      rcases Nat.lt_succ_iff_lt_or_eq.mp hj with hj | rfl
      · exact hmoved.flag_mono (hx.2 j w y hj hjw hy)
      · obtain ⟨y', hy', hslot⟩ := hw.slot j w hjw
        obtain rfl := Option.some.inj (hy.symm.trans hy')
        obtain rfl := Option.some.inj (Option.some.inj (hf'.symm.trans hslot))
        exact flag_set_self (hw.cells j _ hslot)
  | @notifyAll c x _ pc h hpc =>
    have hx := hs x (List.mem_of_getElem? h)
    rcases hpc with ⟨n, hpc, rfl⟩ | ⟨hpc, rfl⟩
    · exact phase_resize ha h (by rw [hpc]; rfl) rfl (by simp [CallerPc.kind])
    · rw [hpc] at hx
      refine phase_others hw hmoved (.inl rfl) hs rfl (Phase.next (s := s) ?_ hw hmoved (.inl rfl))
      exact ⟨hx, fun j w y hj => absurd hj (Nat.not_lt_zero j)⟩
  | setDone _ _ => exact phase_others hw hmoved (.inl rfl) hs rfl (.inl rfl)
  | setStop _ _ => exact phase_others hw hmoved (.inl rfl) hs rfl trivial
  | @join c x _ i w y h hpc ht hy hj =>
    have hx := hs x (List.mem_of_getElem? h)
    rw [hpc] at hx
    exact phase_others hw hmoved (.inl rfl) hs rfl ⟨hx.1, hx.2, .inl ht⟩
  | @joined c x _ i w y h hpc hy hexit =>
    have hx := hs x (List.mem_of_getElem? h)
    rw [hpc] at hx
    obtain ⟨htold, hjoined, hentry⟩ := hx
    refine phase_others hw hmoved (.inl rfl) hs rfl
      (Phase.next (s := s) ⟨htold, fun j v z hj hv hz => ?_⟩ hw hmoved (.inl rfl))
    rcases Nat.lt_succ_iff_lt_or_eq.mp hj with hj | rfl
    · exact hjoined j v z hj hv hz
    · rcases hentry with hentry | hnil
      · obtain rfl := Option.some.inj (Option.some.inj (hentry.symm.trans hv))
        obtain rfl := Option.some.inj (hy.symm.trans hz)
        exact hexit
      · rw [hnil] at hv
        simp at hv
  | stopErase _ _ => exact phase_others hw hmoved (.inr rfl) hs rfl trivial

theorem reachable_phase (h : (machine kind).Reachable ResizeAlone s) :
    ∀ y ∈ s.callers, Phase s y.pc :=
  reachable_callers h (fun _ => trivial) fun hr _ hs hI =>
    phase_step (reachable_alone hr) (reachable_wired hr) (reachable_filled hr) (moved_of_step hs) hI

theorem State.Gone.next {l : List (Option Nat)} (hs : s.Gone l) (h : Moved kind s a t) :
    t.Gone l := by
  intro entry hentry w hw
  obtain ⟨y, hy, hexit⟩ := hs entry hentry w hw
  obtain ⟨z, hz, hstep⟩ := h.worker_next hy
  exact ⟨z, hz, hstep.exited hexit⟩

theorem gone_of_joined (hw : Wired s) (hs : Joined s s.threads.length) : s.Gone s.threads := by
  rintro _ hentry w rfl
  obtain ⟨j, hj⟩ := List.getElem?_of_mem hentry
  obtain ⟨y, hy, _⟩ := hw.slot j w hj
  exact ⟨y, hy, hs j w y (List.getElem?_eq_some_iff.mp hj).1 hj hy⟩

/-- The join loop is over before the vectors are cleared. -/
theorem gone_of_phase (hw : Wired s) (hphase : ∀ y ∈ s.callers, Phase s y.pc)
    (hx : x ∈ s.callers) (hpc : x.pc = .stopDrain ∨ x.pc = .stopErase) : s.Gone s.threads := by
  have hx := hphase x hx
  rcases hpc with hpc | hpc <;> rw [hpc] at hx <;> exact gone_of_joined hw hx.2

/-- While a `Stop` is under way `threads_` changes only by being cleared. -/
theorem Moved.threads_of_stop (h : Moved kind s a t) (ha : Alone s) (hx : x ∈ s.callers)
    (hk : x.pc.kind = .stop) :
    t.threads = s.threads ∨ ∃ c choice y, a = .caller c choice ∧ s.callers[c]? = some y ∧
      y.pc = .stopErase ∧ t = { s.goto c y .stopped with threads := [], flags := [] } := by
  cases h with
  | grow h hpc _ | growThread h hpc _ _ | shrinkErase h hpc =>
    exact absurd (by rw [hpc]; rfl) (ha.not_resize hx hk (List.mem_of_getElem? h))
  | stopErase h hpc => exact .inr ⟨_, _, _, rfl, h, hpc, rfl⟩
  | _ => exact .inl rfl

/-! ## An order empties the pool -/

/-- Past the order and before the return. -/
def CallerPc.ordered : CallerPc → Bool
  | .stopSize | .stopFlag _ _ | .stopClear | .stopNotify | .stopJoin _ | .joining _ _
  | .stopDrain | .stopErase => true
  | _ => false

/-- One of the two orders has been given. -/
def State.Ordered (s : State) : Prop := s.isDone = true ∨ s.isStop = true

/-- Once an order was given, a `Stop` is at work or the pool is as `Q` says. -/
def Ended (Q : State → Prop) (s : State) : Prop :=
  s.Ordered → Q s ∨ ∃ y ∈ s.callers, y.pc.ordered = true

def Cleared (s : State) : Prop := Ended (fun s => s.threads = []) s

theorem State.Running.not_ordered (hr : s.Running) : ¬ s.Ordered := by
  rintro (h | h)
  · exact absurd (hr.1.symm.trans h) (by decide)
  · exact absurd (hr.2.symm.trans h) (by decide)

theorem CallerPc.kind_of_ordered {pc : CallerPc} (h : pc.ordered = true) : pc.kind = .stop := by
  cases pc <;> first | rfl | exact absurd h Bool.false_ne_true

theorem CallerGoto.ordered {pc pc' : CallerPc} (h : CallerGoto s pc pc')
    (ho : pc.ordered = true) : pc'.ordered = true := by
  cases h <;> subst pc <;> first | rfl | exact absurd ho (by simp [CallerPc.ordered])

theorem CallerPc.ordered_of_removes {pc onTask onEmpty : CallerPc} {who : Remover}
    (h : pc.removes = some (who, onTask, onEmpty)) (ho : pc.ordered = true) :
    onTask.ordered = true ∧ onEmpty.ordered = true := by
  cases pc <;> simp only [CallerPc.removes, Option.some.injEq, Prod.mk.injEq, reduceCtorEq] at h <;>
    obtain ⟨_, rfl, rfl⟩ := h <;> first | exact ⟨rfl, rfl⟩ | exact absurd ho (by decide)

/-- A `Stop` at work stays so until it clears the vectors. -/
theorem Moved.ordered_next (h : Moved kind s a t) {y : Caller} (hy : y ∈ s.callers)
    (ho : y.pc.ordered = true) :
    (∃ z ∈ t.callers, z.pc.ordered = true) ∨
      ∃ c choice x, a = .caller c choice ∧ s.callers[c]? = some x ∧ x.pc = .stopErase ∧
        t = { s.goto c x .stopped with threads := [], flags := [] } := by
  have hset {c : Nat} {x x' : Caller} (hx : s.callers[c]? = some x)
      (hmine : x.pc.ordered = true → x'.pc.ordered = true) :
      ∃ z ∈ s.callers.set c x', z.pc.ordered = true := by
    rcases mem_set_of_mem hx hy x' with rfl | hy
    · exact ⟨x', mem_set_of_some hx x', hmine ho⟩
    · exact ⟨y, hy, ho⟩
  cases h with
  | push | enqueue | pushLock | notifyOne | notifyNobody | pushReturn | workerGoto | take
  | takeNone | finish | lock | unlock | wake => exact .inl ⟨y, hy, ho⟩
  | call h hpc =>
    refine .inl (hset h fun ho => ?_)
    rcases hpc with hpc | hpc <;> rw [hpc] at ho <;> exact absurd ho (by decide)
  | callerGoto h hgo => exact .inl (hset h hgo.ordered)
  | remove h hpc _ => exact .inl (hset h fun ho => (CallerPc.ordered_of_removes hpc ho).1)
  | removeNone h hpc _ => exact .inl (hset h fun ho => (CallerPc.ordered_of_removes hpc ho).2)
  | grow h hpc _ | growFlag h hpc _ _ | growThread h hpc _ _ | detach h hpc _ _ _
  | shrinkLock h hpc _ | shrinkUnlock h hpc | shrinkErase h hpc =>
    refine .inl (hset h fun ho => ?_)
    rw [hpc] at ho
    exact absurd ho (by simp [CallerPc.ordered])
  | setFlag h hpc _ =>
    refine .inl (hset h fun ho => ?_)
    rcases hpc with ⟨_, hpc, _, rfl⟩ | ⟨_, hpc, _, rfl⟩
    · rw [hpc] at ho
      exact absurd ho (by simp [CallerPc.ordered])
    · rfl
  | notifyAll h hpc =>
    refine .inl (hset h fun ho => ?_)
    rcases hpc with ⟨_, hpc, rfl⟩ | ⟨hpc, rfl⟩
    · rw [hpc] at ho
      exact absurd ho (by simp [CallerPc.ordered])
    · rfl
  | setDone h _ | setStop h _ | join h _ _ _ _ | joined h _ _ _ =>
    exact .inl (hset h fun _ => rfl)
  | stopErase h hpc => exact .inr ⟨_, _, _, rfl, h, hpc, rfl⟩

/-- An order was given before or is given by a `Stop` that is now at work. -/
theorem Moved.ordered_prev (h : Moved kind s a t) (ht : t.Ordered) :
    s.Ordered ∨ ∃ y ∈ t.callers, y.pc.ordered = true := by
  cases h with
  | setDone h _ | setStop h _ =>
    exact .inr ⟨_, mem_set_of_some h _, rfl⟩
  | _ => exact .inl ht

/-- What is so once the last `Stop` has cleared the vectors stays so, if the steps after
an order keep it. -/
theorem Ended.step {Q : State → Prop} (h : Moved kind s a t) (hs : Ended Q s)
    (hkeep : s.Ordered → Q s → Q t)
    (herase : ∀ c choice x, a = .caller c choice → s.callers[c]? = some x → x.pc = .stopErase →
      t = { s.goto c x .stopped with threads := [], flags := [] } → Q t) : Ended Q t := by
  intro ht
  rcases h.ordered_prev ht with horder | hat
  · rcases hs horder with hq | ⟨y, hy, ho⟩
    · exact .inl (hkeep horder hq)
    · rcases h.ordered_next hy ho with hat | ⟨c, choice, x, ha, hx, hpc, heq⟩
      · exact .inr hat
      · exact .inl (herase c choice x ha hx hpc heq)
  · exact .inr hat

theorem ended_start (Q : State → Prop) (n : Nat) : Ended Q (start n) :=
  fun h => absurd h (by simp [State.Ordered, start])

theorem cleared_step (hp : ∀ y ∈ s.callers, Placed s y.pc) (h : Moved kind s a t)
    (hs : Cleared s) : Cleared t := by
  refine Ended.step h hs (fun horder hnil => ?_) fun _ _ _ _ _ _ heq => by rw [heq]
  cases h with
  | grow h hpc _ =>
    have hx := hp _ (List.mem_of_getElem? h)
    rw [hpc] at hx
    exact absurd horder (State.Running.not_ordered hx.2)
  | growThread h hpc _ _ | shrinkErase h hpc =>
    have hx := hp _ (List.mem_of_getElem? h)
    rw [hpc] at hx
    exact absurd horder (State.Running.not_ordered hx.1)
  | stopErase _ _ => rfl
  | _ => exact hnil

theorem reachable_cleared (h : (machine kind).Reachable ResizeAlone s) : Cleared s := by
  refine h.invariant (fun s₀ h₀ => ?_)
    fun hr _ hs hI => cleared_step (reachable_placed hr) (moved_of_step hs) hI
  obtain ⟨n, rfl⟩ := h₀
  exact ended_start _ n

end Phases

end ThreadPool
end TryAndLearn
