import TryAndLearn.ThreadPool.Teardown

/-!
# Two calls of `Stop` at the same time

`is_done_` and `is_stop_` are the order to the workers and the guard against a second
`Stop` at once, so a `Stop` that meets the guard returns while the other still joins.
`Stop(false)` does not look at `is_done_`, and two calls of which each gives its own order
go through the same `threads_`: they join one thread twice, and one clears the vectors the
other still goes through.

`Apart` says when a `Stop` may be called: when no other is under way, or when the guard
will turn it away and the workers of `threads_` have left.  Then all calls but one are on
their way out (`Orderly`), and that one has the vectors to itself.
-/

namespace TryAndLearn
namespace ThreadPool

/-- The worker a `Stop` waits for. -/
def CallerPc.joinee : CallerPc → Option Nat
  | .joining _ w => some w
  | _ => none

namespace State

/-- Some `Stop` waits for worker `w`. -/
def Joining (s : State) (w : Nat) : Prop := ∃ z ∈ s.callers, z.pc.joinee = some w

/-- The guard of `Stop` turns the call away, at once or at its second test. -/
def turnsAway (s : State) : CallerPc → Bool
  | .stopIfDone => s.isDone || s.isStop
  | .stopIfStop _ => s.isStop
  | _ => false

/-- The entry that the next step of a `Stop` follows is null or past the end, or the thread
it joins is not in `threads_` any more. -/
def Missing (s : State) : CallerPc → Prop
  | .stopFlag i n => i < n ∧ ∀ f ∈ s.flags[i]?, f = none
  | .stopJoin i => i < s.threads.length ∧ ∀ w ∈ s.threads[i]?, w = none
  | .joining i w => s.threads[i]? ≠ some (some w)
  | _ => False

instance (s : State) : (pc : CallerPc) → Decidable (s.Missing pc) := by
  intro pc
  unfold Missing
  split <;> infer_instance

end State

/-- A `Stop` is called while no other is under way, or when the guard will turn it away and
the workers of `threads_` have left. -/
def Apart (s : State) : Act → Prop
  | .call _ (.stop wait) => (∀ x ∈ s.callers, x.pc.kind ≠ .stop) ∨
      (s.turnsAway (Op.stop wait).entry = true ∧ s.Gone s.threads)
  | _ => True

instance (s : State) : (a : Act) → Decidable (Apart s a)
  | .call _ (.stop wait) => inferInstanceAs (Decidable ((∀ x ∈ s.callers, x.pc.kind ≠ .stop) ∨
      (s.turnsAway (Op.stop wait).entry = true ∧ s.Gone s.threads)))
  | .call _ (.resize _) | .call _ .clearQueue | .call _ .pop | .push _ | .pushStep _ _
  | .worker _ _ | .wake _ | .caller _ _ => inferInstanceAs (Decidable True)

/-- A `Stop` that has returned left no worker it found in `threads_`, and no thread was
joined twice. -/
def Unbroken (s : State) : Prop :=
  (∀ x ∈ s.callers, x.pc = .stopped → s.Gone x.began) ∧ s.joins.Nodup

/-! ## One call at most is not turned away -/

/-- Of two calls of `Stop` one is on its way out, and it leaves no worker. -/
structure Orderly (s : State) : Prop where
  lone : ∀ (c d : Nat) (x y : Caller), s.callers[c]? = some x → s.callers[d]? = some y → c ≠ d →
    x.pc.kind = .stop → y.pc.kind = .stop → s.turnsAway x.pc = true ∨ s.turnsAway y.pc = true
  gone : ∀ x ∈ s.callers, s.turnsAway x.pc = true → s.Gone s.threads

section Orderly

variable {kind : QueueKind} {s t : State} {a : Act} {c d : Nat} {x z : Caller}

theorem turnsAway_of_refuses {pc : CallerPc} (h : s.refuses pc = true) : s.turnsAway pc = true := by
  cases pc <;> simp_all [State.refuses, State.turnsAway]

theorem kind_of_turnsAway {pc : CallerPc} (h : s.turnsAway pc = true) : pc.kind = .stop := by
  cases pc <;> first | rfl | exact absurd h Bool.false_ne_true

theorem ordered_of_turnsAway {pc : CallerPc} (h : s.turnsAway pc = true) : s.Ordered := by
  cases pc <;> simp_all [State.turnsAway, State.Ordered]

theorem turnsAway_congr (pc : CallerPc) (hd : t.isDone = s.isDone) (hs : t.isStop = s.isStop) :
    t.turnsAway pc = s.turnsAway pc := by
  cases pc <;> simp only [State.turnsAway, hd, hs]

theorem Moved.turnsAway_mono (h : Moved kind s a t) {pc : CallerPc} (hpc : s.turnsAway pc = true) :
    t.turnsAway pc = true := by
  cases pc <;> simp only [State.turnsAway, Bool.or_eq_true, Bool.false_eq_true] at hpc ⊢
  · exact hpc.imp h.isDone_mono h.isStop_mono
  · exact h.isStop_mono hpc

theorem CallerGoto.turnsAway {pc pc' : CallerPc} (h : CallerGoto s pc pc')
    (hpc : s.turnsAway pc = true) : pc' = .stopped ∨ s.turnsAway pc' = true := by
  cases h with
  | stopDone _ _ | stopStopped _ _ => exact .inl rfl
  | stopNotDone h hd =>
    subst h
    exact .inr (by simpa [State.turnsAway, hd] using hpc)
  | stopNotStopped h hs =>
    subst h
    exact absurd (hs.symm.trans hpc) (by decide)
  | _ => subst pc; exact absurd hpc (by simp [State.turnsAway])

theorem CallerGoto.turnsAway_prev {pc pc' : CallerPc} (h : CallerGoto s pc pc')
    (hpc : s.turnsAway pc' = true) : s.turnsAway pc = true := by
  cases h with
  | stopNotDone h hd =>
    subst h
    simpa [State.turnsAway, hd] using hpc
  | _ => exact absurd hpc (by simp [State.turnsAway])

theorem CallerPc.turnsAway_of_removes {pc onTask onEmpty : CallerPc} {who : Remover}
    (h : pc.removes = some (who, onTask, onEmpty)) :
    s.turnsAway pc = false ∧ s.turnsAway onTask = false ∧ s.turnsAway onEmpty = false := by
  cases pc <;> simp only [CallerPc.removes, Option.some.injEq, Prod.mk.injEq, reduceCtorEq] at h <;>
    obtain ⟨_, rfl, rfl⟩ := h <;> exact ⟨rfl, rfl, rfl⟩

/-- A call that is turned away waits, or goes on to its end. -/
theorem Moved.turnsAway_next (h : Moved kind s a t) (hx : s.callers[c]? = some x)
    (hpc : s.turnsAway x.pc = true) :
    t.callers[c]? = some x ∨
      ∃ pc, CallerGoto s x.pc pc ∧ t.callers[c]? = some { x with pc := pc } := by
  have hset {d : Nat} {y y' : Caller} (hy : s.callers[d]? = some y)
      (hnot : s.turnsAway y.pc = false) (ht : t.callers = s.callers.set d y') :
      t.callers[c]? = some x := by
    have hne : d ≠ c := by
      rintro rfl
      obtain rfl := Option.some.inj (hx.symm.trans hy)
      exact absurd (hpc.symm.trans hnot) (by decide)
    rw [ht, List.getElem?_set_ne hne, hx]
  cases h with
  | push | enqueue | pushLock | notifyOne | notifyNobody | pushReturn | workerGoto | take
  | takeNone | finish | lock | unlock | wake => exact .inl hx
  | call h hidle =>
    refine .inl (hset h ?_ rfl)
    rcases hidle with hidle | hidle <;> rw [hidle] <;> rfl
  | @callerGoto d y pc _ h hgo =>
    by_cases hdc : d = c
    · subst hdc
      obtain rfl := Option.some.inj (hx.symm.trans h)
      exact .inr ⟨pc, hgo, getElem?_set_of_some h _⟩
    · exact .inl ((List.getElem?_set_ne hdc).trans hx)
  | remove h hpc' _ | removeNone h hpc' _ =>
    exact .inl (hset h (CallerPc.turnsAway_of_removes hpc').1 rfl)
  | setFlag h hpc' _ =>
    refine .inl (hset h ?_ rfl)
    rcases hpc' with ⟨_, hpc', _⟩ | ⟨_, hpc', _⟩ <;> rw [hpc'] <;> rfl
  | notifyAll h hpc' =>
    refine .inl (hset h ?_ rfl)
    rcases hpc' with ⟨_, hpc', _⟩ | ⟨hpc', _⟩ <;> rw [hpc'] <;> rfl
  | grow h hpc' | growFlag h hpc' | growThread h hpc' | detach h hpc' | shrinkLock h hpc'
  | shrinkUnlock h hpc' | shrinkErase h hpc' | setDone h hpc' | setStop h hpc' | join h hpc'
  | joined h hpc' | stopErase h hpc' => exact .inl (hset h (by rw [hpc']; rfl) rfl)

/-- A call is turned away because it was before, because it is called then, or because
another `Stop` gives its order. -/
theorem Moved.turnsAway_prev (h : Moved kind s a t) (hz : t.callers[d]? = some z)
    (hpc : t.turnsAway z.pc = true) :
    (∃ x, s.callers[d]? = some x ∧ s.turnsAway x.pc = true) ∨
      (∃ op, a = .call d op ∧ s.turnsAway op.entry = true) ∨
      ∃ c y, c ≠ d ∧ s.callers[c]? = some y ∧ s.callers[d]? = some z ∧ y.pc.kind = .stop ∧
        s.turnsAway y.pc = false := by
  have hset {c : Nat} {y : Caller} (ht : t.callers = s.callers.set c y)
      (hnot : t.turnsAway y.pc = false) (hd : t.isDone = s.isDone) (hs : t.isStop = s.isStop) :
      ∃ x, s.callers[d]? = some x ∧ s.turnsAway x.pc = true := by
    rw [ht] at hz
    rcases getElem?_set_cases hz with ⟨_, rfl⟩ | ⟨_, hz⟩
    · exact absurd (hpc.symm.trans hnot) (by decide)
    · exact ⟨z, hz, (turnsAway_congr z.pc hd hs).symm.trans hpc⟩
  have horder {c : Nat} {y y' : Caller} (hy : s.callers[c]? = some y)
      (hk : y.pc.kind = .stop) (hnot : s.turnsAway y.pc = false)
      (ht : t.callers = s.callers.set c y') (hnot' : t.turnsAway y'.pc = false) :
      ∃ c y, c ≠ d ∧ s.callers[c]? = some y ∧ s.callers[d]? = some z ∧ y.pc.kind = .stop ∧
        s.turnsAway y.pc = false := by
    rw [ht] at hz
    rcases getElem?_set_cases hz with ⟨_, rfl⟩ | ⟨hne, hz⟩
    · exact absurd (hpc.symm.trans hnot') (by decide)
    · exact ⟨c, y, Ne.symm hne, hy, hz, hk, hnot⟩
  cases h with
  | push | enqueue | pushLock | notifyOne | notifyNobody | pushReturn | workerGoto | take
  | takeNone | finish | lock | unlock | wake => exact .inl ⟨z, hz, hpc⟩
  | @call c x op h hidle =>
    rcases getElem?_set_cases hz with ⟨rfl, rfl⟩ | ⟨_, hz⟩
    · exact .inr (.inl ⟨op, rfl, hpc⟩)
    · exact .inl ⟨z, hz, hpc⟩
  | @callerGoto c y pc _ h hgo =>
    rcases getElem?_set_cases hz with ⟨rfl, rfl⟩ | ⟨_, hz⟩
    · exact .inl ⟨y, h, hgo.turnsAway_prev hpc⟩
    · exact .inl ⟨z, hz, hpc⟩
  | remove h hpc' _ => exact .inl (hset rfl (CallerPc.turnsAway_of_removes hpc').2.1 rfl rfl)
  | removeNone h hpc' _ => exact .inl (hset rfl (CallerPc.turnsAway_of_removes hpc').2.2 rfl rfl)
  | setFlag h hpc' _ =>
    refine .inl (hset rfl ?_ rfl rfl)
    rcases hpc' with ⟨_, _, _, rfl⟩ | ⟨_, _, _, rfl⟩ <;> rfl
  | notifyAll h hpc' =>
    refine .inl (hset rfl ?_ rfl rfl)
    rcases hpc' with ⟨_, _, rfl⟩ | ⟨_, rfl⟩ <;> rfl
  | grow h | growFlag h | growThread h | detach h | shrinkLock h | shrinkUnlock h
  | shrinkErase h | join h | joined h | stopErase h => exact .inl (hset rfl rfl rfl rfl)
  | setDone h hpc' | setStop h hpc' =>
    exact .inr (.inr (horder h (by rw [hpc']; rfl) (by rw [hpc']; rfl) rfl rfl))

/-- A caller in a `Stop` was in it before or has just called it. -/
theorem Moved.stop_prev (h : Moved kind s a t) (hz : t.callers[c]? = some z)
    (hk : z.pc.kind = .stop) :
    (∃ x, s.callers[c]? = some x ∧ x.pc.kind = .stop) ∨
      ∃ wait, a = .call c (.stop wait) ∧ z.pc = (Op.stop wait).entry := by
  rcases h.callers_cases with heq | ⟨d, x, pc, hx, heq, hkind⟩ | ⟨d, op, x, ha, hx, _, rfl⟩
  · exact .inl ⟨z, heq ▸ hz, hk⟩
  · rw [heq] at hz
    rcases getElem?_set_cases hz with ⟨rfl, rfl⟩ | ⟨_, hz⟩
    · refine .inl ⟨x, hx, ?_⟩
      rcases hkind with hkind | hkind
      · exact hkind.symm.trans hk
      · exact absurd (hkind.symm.trans hk) (by decide)
    · exact .inl ⟨z, hz, hk⟩
  · rcases getElem?_set_cases hz with ⟨rfl, rfl⟩ | ⟨_, hz⟩
    · cases op with
      | stop wait => exact .inr ⟨wait, ha, rfl⟩
      | resize n | clearQueue | pop => exact absurd hk (by simp [Op.entry, CallerPc.kind])
    · exact .inl ⟨z, hz, hk⟩

/-- Beside a `Stop` that is called another one is under way: the new one is turned away. -/
theorem turnsAway_of_apart {wait : Bool} (hok : Apart s (.call c (.stop wait)))
    (hx : x ∈ s.callers) (hk : x.pc.kind = .stop) :
    s.turnsAway (Op.stop wait).entry = true := by
  rcases hok with hnone | ⟨haway, _⟩
  · exact absurd hk (hnone x hx)
  · exact haway

theorem lone_step (hok : Apart s a) (h : Moved kind s a t) (hs : Orderly s) :
    ∀ (c d : Nat) (x y : Caller), t.callers[c]? = some x → t.callers[d]? = some y → c ≠ d →
      x.pc.kind = .stop → y.pc.kind = .stop →
        t.turnsAway x.pc = true ∨ t.turnsAway y.pc = true := by
  -- who is turned away stays so until it returns
  have hnext {c : Nat} {x x' : Caller} (hx : s.callers[c]? = some x)
      (hx' : t.callers[c]? = some x') (hk : x'.pc.kind = .stop) (haway : s.turnsAway x.pc = true) :
      t.turnsAway x'.pc = true := by
    rcases h.turnsAway_next hx haway with hsame | ⟨pc, hgo, hmoved⟩
    · obtain rfl := Option.some.inj (hx'.symm.trans hsame)
      exact h.turnsAway_mono haway
    · obtain rfl := Option.some.inj (hx'.symm.trans hmoved)
      refine h.turnsAway_mono ((hgo.turnsAway haway).resolve_left ?_)
      rintro rfl
      exact absurd hk (by simp [CallerPc.kind])
  intro c d x' y' hx' hy' hne hkx' hky'
  rcases h.stop_prev hx' hkx' with ⟨x, hx, hkx⟩ | ⟨wait, rfl, hpc⟩ <;>
    rcases h.stop_prev hy' hky' with ⟨y, hy, hky⟩ | ⟨wait', ha, hpc'⟩
  · exact (hs.lone c d x y hx hy hne hkx hky).imp (hnext hx hx' hkx') (hnext hy hy' hky')
  · subst ha
    rw [hpc']
    exact .inr (h.turnsAway_mono (turnsAway_of_apart hok (List.mem_of_getElem? hx) hkx))
  · rw [hpc]
    exact .inl (h.turnsAway_mono (turnsAway_of_apart hok (List.mem_of_getElem? hy) hky))
  · exact absurd (Act.call.inj ha).1 hne

/-- A `Stop` that is turned away finds the workers of `threads_` gone. -/
theorem gone_of_call {wait : Bool} (hcleared : Cleared s) (hok : Apart s (.call c (.stop wait)))
    (haway : s.turnsAway (Op.stop wait).entry = true) : s.Gone s.threads := by
  rcases hok with hnone | ⟨_, hgone⟩
  · have hnil : s.threads = [] := by
      refine (hcleared (ordered_of_turnsAway haway)).resolve_right ?_
      rintro ⟨y, hy, hordered⟩
      exact hnone y hy (CallerPc.kind_of_ordered hordered)
    rw [hnil]
    exact fun entry hentry => absurd hentry List.not_mem_nil
  · exact hgone

theorem gone_step (ha : Alone s) (hcleared : Cleared s) (hok : Apart s a) (h : Moved kind s a t)
    (hs : Orderly s) : ∀ z ∈ t.callers, t.turnsAway z.pc = true → t.Gone t.threads := by
  intro z hz haway
  obtain ⟨d, hd⟩ := List.getElem?_of_mem hz
  -- `threads_` is as it was, or empty
  have hthreads {x : Caller} (hx : x ∈ s.callers) (hk : x.pc.kind = .stop)
      (hgone : s.Gone s.threads) : t.Gone t.threads := by
    rcases h.threads_of_stop ha hx hk with ht | ⟨_, _, _, _, _, _, rfl⟩
    · rw [ht]
      exact hgone.next h
    · exact fun entry hentry => absurd hentry List.not_mem_nil
  rcases h.turnsAway_prev hd haway with ⟨x, hx, haway⟩ | ⟨op, rfl, haway⟩ |
    ⟨c, y, hne, hy, hz, hk, hnot⟩
  · have hmem := List.mem_of_getElem? hx
    exact hthreads hmem (kind_of_turnsAway haway) (hs.gone x hmem haway)
  · cases op with
    | stop wait =>
      have hgone := (gone_of_call hcleared hok haway).next h
      cases h with
      | call _ _ => exact hgone
    | resize n | clearQueue | pop => exact absurd haway (by simp [Op.entry, State.turnsAway])
  · have hmem := List.mem_of_getElem? hz
    have hkz := kind_of_turnsAway haway
    refine hthreads hmem hkz (hs.gone z hmem ?_)
    exact (hs.lone c d y z hy hz hne hk hkz).resolve_left (by rw [hnot]; decide)

theorem orderly_step (ha : Alone s) (hcleared : Cleared s) (hok : Apart s a)
    (h : Moved kind s a t) (hs : Orderly s) : Orderly t :=
  ⟨lone_step hok h hs, gone_step ha hcleared hok h hs⟩

theorem reachable_orderly
    (h : (machine kind).Reachable (fun s a => ResizeAlone s a ∧ Apart s a) s) : Orderly s := by
  refine h.invariant (fun s₀ h₀ => ?_) fun hr hok hs hI => ?_
  · obtain ⟨n, rfl⟩ := h₀
    refine ⟨fun c d x y hx _ _ hk _ => ?_, fun x hx haway => ?_⟩
    · obtain rfl := (List.mem_replicate.mp (List.mem_of_getElem? hx)).2
      exact absurd hk (by decide)
    · obtain rfl := (List.mem_replicate.mp hx).2
      exact absurd haway (by simp [State.turnsAway])
  · have hr' := hr.mono fun _ _ hok => hok.1
    exact orderly_step (reachable_alone hr') (reachable_cleared hr') hok.2 (moved_of_step hs) hI

end Orderly

/-! ## The vectors of the one that stops the pool -/

/-- A `Stop` that sets the flags goes by the size of `threads_`, and the thread it joins is
in its entry. -/
def Kept (s : State) : CallerPc → Prop
  | .stopFlag _ n => n = s.threads.length
  | .joining i w => s.threads[i]? = some (some w)
  | _ => True

section Kept

variable {kind : QueueKind} {s t : State} {a : Act} {c : Nat} {x : Caller}

theorem kept_of_kind {pc : CallerPc} (h : pc.kind ≠ .stop) : Kept s pc := by
  cases pc <;> trivial

theorem kept_of_turnsAway {pc : CallerPc} (h : s.turnsAway pc = true) : Kept t pc := by
  cases pc <;> trivial

theorem Kept.congr {pc : CallerPc} (h : Kept s pc) (ht : t.threads = s.threads) : Kept t pc := by
  cases pc <;> simp only [Kept, ht] at h ⊢ <;> exact h

theorem kept_goto {pc : CallerPc} (hgo : CallerGoto s x.pc pc) : Kept s pc := by
  cases hgo <;> first | rfl | trivial

theorem kept_of_removes {pc onTask onEmpty : CallerPc} {who : Remover}
    (h : pc.removes = some (who, onTask, onEmpty)) : Kept t onTask ∧ Kept t onEmpty := by
  cases pc <;> simp only [CallerPc.removes, Option.some.injEq, Prod.mk.injEq, reduceCtorEq] at h <;>
    obtain ⟨_, rfl, rfl⟩ := h <;> exact ⟨trivial, trivial⟩

theorem kept_step (ha : Alone s) (horderly : Orderly s) (h : Moved kind s a t)
    (hs : ∀ y ∈ s.callers, Kept s y.pc) : ∀ z ∈ t.callers, Kept t z.pc := by
  have hset {c : Nat} {x x' : Caller} (hx : s.callers[c]? = some x)
      (hc : t.callers = s.callers.set c x') (ht : t.threads = s.threads) (hx' : Kept t x'.pc) :
      ∀ z ∈ t.callers, Kept t z.pc := by
    rw [hc]
    exact forall_mem_set (fun y hy => (hs y hy).congr ht) hx'
  -- beside a `Resize` there is no `Stop`
  have hresize {c : Nat} {x x' : Caller} (hx : s.callers[c]? = some x)
      (hk : x.pc.kind = .resize) (hc : t.callers = s.callers.set c x') (hk' : x'.pc.kind ≠ .stop) :
      ∀ z ∈ t.callers, Kept t z.pc := by
    intro z hz
    obtain ⟨d, hd⟩ := List.getElem?_of_mem hz
    rw [hc] at hd
    rcases getElem?_set_cases hd with ⟨rfl, rfl⟩ | ⟨hne, hd⟩
    · exact kept_of_kind hk'
    · refine kept_of_kind ?_
      rw [ha c d x z hx hd (Ne.symm hne) hk]
      decide
  cases h with
  | push | enqueue | pushLock | notifyOne | notifyNobody | pushReturn | workerGoto | take
  | takeNone | finish | lock | unlock | wake => exact hs
  | @call c x op h _ =>
    refine hset h rfl rfl ?_
    cases op with
    | stop wait => cases wait <;> trivial
    | _ => trivial
  | callerGoto h hgo => exact hset h rfl rfl ((kept_goto hgo).congr rfl)
  | remove h hpc _ => exact hset h rfl rfl (kept_of_removes hpc).1
  | removeNone h hpc _ => exact hset h rfl rfl (kept_of_removes hpc).2
  | grow h hpc _ | growFlag h hpc _ _ | growThread h hpc _ _ | detach h hpc _ _ _
  | shrinkLock h hpc _ | shrinkUnlock h hpc | shrinkErase h hpc =>
    exact hresize h (by rw [hpc]; rfl) rfl (by simp [CallerPc.kind])
  | @setFlag c x _ i f pc h hpc hf =>
    have hx := hs x (List.mem_of_getElem? h)
    refine hset h rfl rfl ?_
    rcases hpc with ⟨n, hpc, _, rfl⟩ | ⟨n, hpc, _, rfl⟩
    · trivial
    · rw [hpc] at hx
      exact hx
  | notifyAll h hpc =>
    refine hset h rfl rfl ?_
    rcases hpc with ⟨_, _, rfl⟩ | ⟨_, rfl⟩ <;> trivial
  | setDone h _ | setStop h _ | joined h _ _ _ => exact hset h rfl rfl trivial
  | join h _ ht _ _ => exact hset h rfl rfl ht
  | @stopErase c x _ h hpc =>
    -- every other `Stop` is turned away
    intro z hz
    obtain ⟨d, hd⟩ := List.getElem?_of_mem hz
    rcases getElem?_set_cases hd with ⟨_, rfl⟩ | ⟨hne, hd⟩
    · trivial
    · by_cases hk : z.pc.kind = .stop
      · refine kept_of_turnsAway ((horderly.lone c d x z h hd (Ne.symm hne) (by rw [hpc]; rfl)
          hk).resolve_left ?_)
        rw [hpc]
        exact Bool.false_ne_true
      · exact kept_of_kind hk

theorem reachable_kept
    (h : (machine kind).Reachable (fun s a => ResizeAlone s a ∧ Apart s a) s) :
    ∀ y ∈ s.callers, Kept s y.pc := by
  refine h.invariant (I := fun s => ∀ y ∈ s.callers, Kept s y.pc) (fun s₀ h₀ => ?_)
    fun hr _ hs hI => ?_
  · obtain ⟨n, rfl⟩ := h₀
    intro y hy
    obtain rfl := (List.mem_replicate.mp hy).2
    trivial
  · exact kept_step (reachable_alone (hr.mono fun _ _ hok => hok.1)) (reachable_orderly hr)
      (moved_of_step hs) hI

/-- Every entry a `Stop` follows is there. -/
theorem not_missing (hr : (machine kind).Reachable ResizeAlone s) (hx : x ∈ s.callers)
    (hkept : Kept s x.pc) : ¬ s.Missing x.pc := by
  have hgood (hk : x.pc.kind = .stop) (j : Nat) (hj : j < s.threads.length) : Good s j :=
    reachable_filled hr j (settled_of_stop (reachable_alone hr) hx hk hj)
  cases hpc : x.pc with
  | stopFlag i n =>
    rw [hpc] at hkept
    rintro ⟨hi, hnull⟩
    obtain ⟨w, _, hw, _⟩ := hgood (by rw [hpc]; rfl) i (hkept ▸ hi)
    obtain ⟨y, _, hflag⟩ := (reachable_wired hr).slot i w hw
    exact absurd (hnull _ hflag) (by simp)
  | stopJoin i =>
    rintro ⟨hi, hnull⟩
    obtain ⟨w, _, hw, _⟩ := hgood (by rw [hpc]; rfl) i hi
    exact absurd (hnull _ hw) (by simp)
  | joining i w =>
    rw [hpc] at hkept
    exact fun hnot => hnot hkept
  | _ => exact id

end Kept

/-! ## The workers a call found -/

/-- While a `Stop` is under way `threads_` is as it was when the call began, or has been
cleared and its workers are gone. -/
def Began (s : State) : Prop :=
  ∀ x ∈ s.callers, x.pc.kind = .stop → x.began = s.threads ∨ (s.threads = [] ∧ s.Gone x.began)

section Guard

variable {kind : QueueKind} {s t : State} {a : Act} {c : Nat} {x : Caller}

theorem began_step (ha : Alone s) (hw : Wired s) (hphase : ∀ y ∈ s.callers, Phase s y.pc)
    (h : Moved kind s a t) (hs : Began s) : Began t := by
  intro z hz hk
  rcases h.callers_prev hz (by rw [hk]; decide) with
    ⟨x, hx, hkind, hbegan⟩ | ⟨_, _, _, _, hbegan, ht, _⟩
  · rw [hk] at hkind
    rcases hs x hx hkind with heq | ⟨hnil, hgone⟩ <;>
      rcases h.threads_of_stop ha hx hkind with ht | ⟨c, _, y, _, hy, hpc, rfl⟩
    · exact .inl (by rw [← hbegan, heq, ht])
    · refine .inr ⟨rfl, ?_⟩
      rw [← hbegan, heq]
      exact (gone_of_phase hw hphase (List.mem_of_getElem? hy) (.inr hpc)).next h
    · exact .inr ⟨ht.trans hnil, hbegan ▸ hgone.next h⟩
    · exact .inr ⟨rfl, hbegan ▸ hgone.next h⟩
  · exact .inl (hbegan.trans ht.symm)

theorem reachable_began (h : (machine kind).Reachable ResizeAlone s) : Began s := by
  refine h.invariant (fun s₀ h₀ => ?_) fun hr _ hs hI =>
    began_step (reachable_alone hr) (reachable_wired hr) (reachable_phase hr) (moved_of_step hs) hI
  obtain ⟨n, rfl⟩ := h₀
  intro x hx hk
  obtain rfl := (List.mem_replicate.mp hx).2
  exact absurd hk (by decide)

theorem Began.gone (hs : Began s) (hx : x ∈ s.callers) (hk : x.pc.kind = .stop)
    (hgone : s.Gone s.threads) : s.Gone x.began := by
  rcases hs x hx hk with heq | ⟨_, hgone⟩
  · exact heq ▸ hgone
  · exact hgone

/-- The call that returns in this step leaves no worker it found. -/
theorem stopped_gone_step (hw : Wired s) (hphase : ∀ y ∈ s.callers, Phase s y.pc)
    (hbegan : Began s) (horderly : Orderly s) (h : Moved kind s a t)
    (hs : ∀ x ∈ s.callers, x.pc = .stopped → s.Gone x.began) :
    ∀ x ∈ t.callers, x.pc = .stopped → t.Gone x.began := by
  intro z hz hpc
  refine State.Gone.next ?_ h
  rcases h.stopped_prev hz hpc with hz | ⟨c, choice, x, rfl, hx, hrefused, rfl, _⟩ |
    ⟨c, choice, x, rfl, hx, herase, rfl, _⟩
  · exact hs z hz hpc
  · have hgone := horderly.gone x (List.mem_of_getElem? hx) (turnsAway_of_refuses hrefused)
    exact hbegan.gone (x := x) (List.mem_of_getElem? hx) (kind_of_refuses hrefused) hgone
  · have hx := List.mem_of_getElem? hx
    exact hbegan.gone (x := x) hx (by rw [herase]; rfl) (gone_of_phase hw hphase hx (.inr herase))

end Guard

/-! ## The threads that were joined -/

/-- A join is in the record from its beginning, and once it is over the thread cannot be
joined again. -/
structure JoinLog (s : State) : Prop where
  joining : ∀ w, s.Joining w → w ∈ s.joins
  joined : ∀ w ∈ s.joins, s.Joining w ∨ ∃ y ∈ s.workers[w]?, y.joinable = false

section Joins

variable {kind : QueueKind} {s t : State} {a : Act} {c : Nat} {x : Caller}

theorem WorkerStep.released {y z : Worker} (h : WorkerStep s y z) (hy : y.joinable = false) :
    z.joinable = false := by
  cases h <;> first | exact hy | rfl

theorem CallerGoto.joinee_eq {pc pc' : CallerPc} (h : CallerGoto s pc pc') :
    pc'.joinee = pc.joinee := by
  cases h <;> subst pc <;> rfl

theorem CallerPc.joinee_of_removes {pc onTask onEmpty : CallerPc} {who : Remover}
    (h : pc.removes = some (who, onTask, onEmpty)) :
    onTask.joinee = pc.joinee ∧ onEmpty.joinee = pc.joinee := by
  cases pc <;> simp only [CallerPc.removes, Option.some.injEq, Prod.mk.injEq, reduceCtorEq] at h <;>
    obtain ⟨_, rfl, rfl⟩ := h <;> exact ⟨rfl, rfl⟩

theorem Op.joinee_entry : ∀ op : Op, op.entry.joinee = none
  | .resize _ | .stop true | .stop false | .clearQueue | .pop => rfl

theorem joining_prev {w : Nat} {x' : Caller} (ht : t.callers = s.callers.set c x')
    (hw : t.Joining w) : x'.pc.joinee = some w ∨ s.Joining w := by
  obtain ⟨z, hz, hw⟩ := hw
  rw [ht] at hz
  rcases List.mem_or_eq_of_mem_set hz with hz | rfl
  · exact .inr ⟨z, hz, hw⟩
  · exact .inl hw

theorem joining_next {w : Nat} {x' : Caller} (h : s.callers[c]? = some x)
    (ht : t.callers = s.callers.set c x') (hw : s.Joining w) :
    x.pc.joinee = some w ∨ t.Joining w := by
  obtain ⟨z, hz, hw⟩ := hw
  rcases mem_set_of_mem h hz x' with rfl | hz
  · exact .inl hw
  · exact .inr ⟨z, ht ▸ hz, hw⟩

theorem joining_self {w : Nat} {x' : Caller} (h : s.callers[c]? = some x)
    (ht : t.callers = s.callers.set c x') (hw : x'.pc.joinee = some w) : t.Joining w :=
  ⟨x', ht ▸ mem_set_of_some h x', hw⟩

theorem joining_set {x' : Caller} (h : s.callers[c]? = some x)
    (ht : t.callers = s.callers.set c x') (heq : x'.pc.joinee = x.pc.joinee) (w : Nat) :
    t.Joining w ↔ s.Joining w := by
  refine ⟨fun hw => ?_, fun hw => ?_⟩
  · exact (joining_prev ht hw).elim (fun hw => ⟨x, List.mem_of_getElem? h, heq ▸ hw⟩) id
  · exact (joining_next h ht hw).elim (fun hw => joining_self h ht (heq.trans hw)) id

/-- Only the beginning and the end of a join change which workers are joined. -/
theorem Moved.joins_cases (h : Moved kind s a t) :
    (t.joins = s.joins ∧ ∀ w, t.Joining w ↔ s.Joining w) ∨
      (∃ c choice x i w y, a = .caller c choice ∧ s.callers[c]? = some x ∧ x.pc = .stopJoin i ∧
        s.threads[i]? = some (some w) ∧ s.workers[w]? = some y ∧ y.joinable = true ∧
        t = { s.goto c x (.joining i w) with joins := w :: s.joins }) ∨
      ∃ c x i w y, s.callers[c]? = some x ∧ x.pc = .joining i w ∧ s.workers[w]? = some y ∧
        t = (s.goto c x (.stopJoin (i + 1))).setWorker w { y with joinable := false } := by
  cases h with
  | push | enqueue | pushLock | notifyOne | notifyNobody | pushReturn | workerGoto | take
  | takeNone | finish | lock | unlock | wake => exact .inl ⟨rfl, fun _ => Iff.rfl⟩
  | @call c x op h hpc =>
    refine .inl ⟨rfl, joining_set h rfl ?_⟩
    rw [op.joinee_entry]
    rcases hpc with hpc | hpc <;> rw [hpc] <;> rfl
  | callerGoto h hgo => exact .inl ⟨rfl, joining_set h rfl hgo.joinee_eq⟩
  | remove h hpc _ => exact .inl ⟨rfl, joining_set h rfl (CallerPc.joinee_of_removes hpc).1⟩
  | removeNone h hpc _ => exact .inl ⟨rfl, joining_set h rfl (CallerPc.joinee_of_removes hpc).2⟩
  | setFlag h hpc _ =>
    refine .inl ⟨rfl, joining_set h rfl ?_⟩
    rcases hpc with ⟨_, hpc, _, rfl⟩ | ⟨_, hpc, _, rfl⟩ <;> rw [hpc] <;> rfl
  | notifyAll h hpc =>
    refine .inl ⟨rfl, joining_set h rfl ?_⟩
    rcases hpc with ⟨_, hpc, rfl⟩ | ⟨hpc, rfl⟩ <;> rw [hpc] <;> rfl
  | grow h hpc | growFlag h hpc | growThread h hpc | detach h hpc | shrinkLock h hpc
  | shrinkUnlock h hpc | shrinkErase h hpc | setDone h hpc | setStop h hpc | stopErase h hpc =>
    exact .inl ⟨rfl, joining_set h rfl (by rw [hpc]; rfl)⟩
  | join h hpc ht hw hj => exact .inr (.inl ⟨_, _, _, _, _, _, rfl, h, hpc, ht, hw, hj, rfl⟩)
  | joined h hpc hw _ => exact .inr (.inr ⟨_, _, _, _, _, h, hpc, hw, rfl⟩)

theorem joinLog_step (h : Moved kind s a t) (hs : JoinLog s) : JoinLog t := by
  have hreleased (w : Nat) (hw : ∃ y ∈ s.workers[w]?, y.joinable = false) :
      ∃ y ∈ t.workers[w]?, y.joinable = false := by
    obtain ⟨y, hy, hj⟩ := hw
    obtain ⟨z, hz, hstep⟩ := h.worker_next hy
    exact ⟨z, hz, hstep.released hj⟩
  rcases h.joins_cases with ⟨hjoins, hjoining⟩ | ⟨c, _, x, i, w, y, _, hx, hpc, _, _, _, rfl⟩ |
    ⟨c, x, i, w, y, hx, hpc, hw, rfl⟩
  · refine ⟨fun w hw => ?_, fun w hw => ?_⟩
    · exact hjoins ▸ hs.joining w ((hjoining w).mp hw)
    · exact (hs.joined w (hjoins ▸ hw)).imp (hjoining w).mpr (hreleased w)
  · refine ⟨fun v hv => ?_, fun v hv => ?_⟩
    · rcases joining_prev (s := s) rfl hv with hv | hv
      · exact Option.some.inj hv ▸ List.mem_cons_self
      · exact List.mem_cons_of_mem _ (hs.joining v hv)
    · rcases List.mem_cons.mp hv with rfl | hv
      · exact .inl (joining_self hx rfl rfl)
      · refine (hs.joined v hv).imp (fun hv => ?_) (hreleased v)
        refine (joining_next hx rfl hv).resolve_left ?_
        rw [hpc]
        simp [CallerPc.joinee]
  · refine ⟨fun v hv => ?_, fun v hv => ?_⟩
    · rcases joining_prev (s := s) rfl hv with hv | hv
      · exact absurd hv (by simp [CallerPc.joinee])
      · exact hs.joining v hv
    · rcases hs.joined v hv with hjoin | hj
      · rcases joining_next (t := (s.goto c x (.stopJoin (i + 1))).setWorker w
          { y with joinable := false }) hx rfl hjoin with hv | hjoin
        · -- the join of `w` is over
          rw [hpc] at hv
          obtain rfl := Option.some.inj hv
          exact .inr ⟨_, getElem?_set_of_some hw _, rfl⟩
        · exact .inl hjoin
      · exact .inr (hreleased v hj)

theorem reachable_joinLog {ok : State → Act → Prop} (h : (machine kind).Reachable ok s) :
    JoinLog s := by
  refine h.invariant (fun s₀ h₀ => ?_) fun _ _ hs hI => joinLog_step (moved_of_step hs) hI
  obtain ⟨n, rfl⟩ := h₀
  refine ⟨?_, fun w hw => absurd hw (by simp [start])⟩
  rintro w ⟨z, hz, hw⟩
  obtain rfl := (List.mem_replicate.mp hz).2
  exact absurd hw (by simp [CallerPc.joinee])

/-- Beside a `Stop` in its join loop nobody joins. -/
theorem Orderly.not_joining (hs : Orderly s) (hx : s.callers[c]? = some x) {i : Nat}
    (hpc : x.pc = .stopJoin i) (w : Nat) : ¬ s.Joining w := by
  rintro ⟨z, hz, hw⟩
  obtain ⟨d, hd⟩ := List.getElem?_of_mem hz
  obtain ⟨j, hz⟩ : ∃ j, z.pc = .joining j w := by
    cases hzpc : z.pc <;> rw [hzpc] at hw <;>
      simp only [CallerPc.joinee, Option.some.injEq, reduceCtorEq] at hw
    subst hw
    exact ⟨_, rfl⟩
  have hne : c ≠ d := by
    rintro rfl
    obtain rfl := Option.some.inj (hx.symm.trans hd)
    exact absurd (hpc.symm.trans hz) (by simp)
  rcases hs.lone c d x z hx hd hne (by rw [hpc]; rfl) (by rw [hz]; rfl) with haway | haway
  · rw [hpc] at haway
    exact absurd haway Bool.false_ne_true
  · rw [hz] at haway
    exact absurd haway Bool.false_ne_true

theorem joins_nodup_step (hlog : JoinLog s) (horderly : Orderly s) (h : Moved kind s a t)
    (hs : s.joins.Nodup) : t.joins.Nodup := by
  rcases h.joins_cases with ⟨hjoins, _⟩ | ⟨c, _, x, i, w, y, rfl, hx, hpc, ht, hw, hj, rfl⟩ |
    ⟨c, x, i, w, y, _, _, _, rfl⟩
  · exact hjoins ▸ hs
  · refine List.nodup_cons.mpr ⟨fun hmem => ?_, hs⟩
    rcases hlog.joined w hmem with hjoin | ⟨y', hy', hj'⟩
    · exact horderly.not_joining hx hpc w hjoin
    · obtain rfl := Option.some.inj (hw.symm.trans hy')
      exact absurd (hj.symm.trans hj') (by decide)
  · exact hs

end Joins

/-- Both calls have come past the guard, and `Stop(false)` has read the size of the vectors
that `Stop(true)` clears. -/
example : ∃ s ∈ (machine .queue).exec ResizeAlone (List.flatten [construct 1,
      [.call 0 (.stop true), .caller 0 0, .caller 0 0, .call 1 (.stop false)],
      List.replicate 3 (.caller 1 0), List.replicate 3 (.caller 0 0),
      List.replicate 6 (.worker 0 0), List.replicate 4 (.caller 0 0)]) (start 2),
    ∃ x ∈ s.callers, s.Missing x.pc := by decide

/-- Worker 0 runs a task when `Stop(true)` is called and goes to join it. -/
def stopWhileRunning : List Act :=
  construct 1 ++ [.push 1, .pushStep 0 none] ++ List.replicate 3 (.worker 0 0) ++
    List.replicate 3 (.pushStep 0 none) ++ [.call 0 (.stop true)] ++ List.replicate 5 (.caller 0 0)

/-- A second `Stop(true)` came when the first had joined worker 0, and was turned away.
`Stop(false)` was called when both had returned. -/
def together : State :=
  { cells := [false], isDone := true, isStop := true,
    workers := [{ flag := 0, pc := .exited, joinable := false }],
    pushes := [{ task := ⟨0, 1⟩, pc := .returned }],
    callers := [{ pc := .stopped, began := [some 0] }, { pc := .stopped, began := [some 0] },
      { pc := .stopped }],
    taken := [(0, ⟨0, 1⟩)], finished := [(0, ⟨0, 1⟩)], joins := [0] }

theorem together_reachable :
    (machine .queue).Reachable (fun s a => ResizeAlone s a ∧ Apart s a) together :=
  Machine.reachable_of_exec
    (List.flatten [stopWhileRunning, List.replicate 7 (.worker 0 0), List.replicate 2 (.caller 0 0),
      [.call 1 (.stop true), .caller 1 0], List.replicate 2 (.caller 0 0),
      [.call 2 (.stop false)], List.replicate 9 (.caller 2 0)])
    ⟨3, rfl⟩ (by decide)

/-- The pool grows and keeps its size. -/
def NeverShrinks (s : State) : Act → Prop
  | .call _ (.resize n) => s.threads.length ≤ n
  | _ => True

instance (s : State) : (a : Act) → Decidable (NeverShrinks s a)
  | .call _ (.resize n) => inferInstanceAs (Decidable (s.threads.length ≤ n))
  | .call _ (.stop _) | .call _ .clearQueue | .call _ .pop | .push _ | .pushStep _ _
  | .worker _ _ | .wake _ | .caller _ _ => inferInstanceAs (Decidable True)

/-- The second `Stop(true)` has returned, and worker 0 still runs its task. -/
def turnedAway : State :=
  { threads := [some 0], flags := [some 0], cells := [false], isDone := true,
    workers := [{ flag := 0, pc := .running, hand := some ⟨0, 1⟩ }],
    pushes := [{ task := ⟨0, 1⟩, pc := .returned }],
    callers := [{ pc := .joining 0 0, began := [some 0] }, { pc := .stopped, began := [some 0] }],
    taken := [(0, ⟨0, 1⟩)], joins := [0] }

theorem turnedAway_reachable :
    (machine .queue).Reachable (fun s a => ResizeAlone s a ∧ NeverShrinks s a) turnedAway :=
  Machine.reachable_of_exec
    (List.flatten [stopWhileRunning, [.call 1 (.stop true), .caller 1 0]])
    ⟨2, rfl⟩ (by decide)

/-- `Stop(true)` and `Stop(false)` join worker 0 at the same time. -/
def joinedTwice : State :=
  { threads := [some 0], flags := [some 0], cells := [true], isDone := true, isStop := true,
    workers := [{ flag := 0, pc := .running, hand := some ⟨0, 1⟩ }],
    pushes := [{ task := ⟨0, 1⟩, pc := .returned }],
    callers := [{ pc := .joining 0 0, began := [some 0] },
      { pc := .joining 0 0, began := [some 0] }],
    taken := [(0, ⟨0, 1⟩)], joins := [0, 0] }

theorem joinedTwice_reachable :
    (machine .queue).Reachable (fun s a => ResizeAlone s a ∧ NeverShrinks s a) joinedTwice :=
  Machine.reachable_of_exec
    (List.flatten [stopWhileRunning, [.call 1 (.stop false)], List.replicate 8 (.caller 1 0)])
    ⟨2, rfl⟩ (by decide)

end ThreadPool
end TryAndLearn
