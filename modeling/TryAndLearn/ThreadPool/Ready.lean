import TryAndLearn.ThreadPool.Progress

/-!
# Where a `Resize` or a `Stop` can go on

A step that follows an entry of `threads_` or `flags_` needs the entry.  `Ready` says it is
there for a call that has the vectors to itself: the flag a new worker gets has been made,
the thread to be detached can be, and `Stop` goes through the vectors it has found.  So
`Resize` waits for `mutex_` only and `Stop` for the worker it joins.
-/

namespace TryAndLearn
namespace ThreadPool

def Ready (s : State) : CallerPc → Prop
  | .growThread _ i => ∃ f, s.flags[i]? = some (some f)
  | .shrinkDetach _ i => ∃ w y, s.threads[i]? = some (some w) ∧ s.workers[w]? = some y ∧
      y.joinable = true
  | .stopFlag _ n => n = s.threads.length
  | .joining i w => s.threads[i]? = some (some w)
  | _ => True

section Ready

variable {kind : QueueKind} {s t : State} {a : Act} {c : Nat} {x : Caller}

theorem ready_of_kind {pc : CallerPc} (h : pc.kind = .other) : Ready s pc := by
  cases pc <;> trivial

theorem ready_entry (op : Op) : Ready s op.entry := by
  cases op with
  | stop wait => cases wait <;> trivial
  | _ => trivial

theorem Ready.other {pc : CallerPc} (hs : Ready s pc) (h : SameVectors c s t) : Ready t pc := by
  cases pc with
  | growThread n i =>
    obtain ⟨f, hf⟩ := hs
    exact ⟨f, h.flags ▸ hf⟩
  | shrinkDetach n i =>
    obtain ⟨w, y, hw, hy, hj⟩ := hs
    obtain ⟨z, hz, _, hjz⟩ := h.workers w y hy
    exact ⟨w, z, h.threads ▸ hw, hz, hjz.trans hj⟩
  | stopFlag i n => exact hs.trans (by rw [h.threads])
  | joining i w =>
    show t.threads[i]? = _
    rw [h.threads]
    exact hs
  | _ => trivial

theorem ready_goto {pc : CallerPc} (hgo : CallerGoto s x.pc pc) (ht : t.threads = s.threads) :
    Ready t pc := by
  cases hgo with
  | stopSize _ => exact congrArg List.length ht.symm
  | _ => trivial

theorem ready_of_removes {pc onTask onEmpty : CallerPc} {who : Remover}
    (h : pc.removes = some (who, onTask, onEmpty)) : Ready t onTask ∧ Ready t onEmpty := by
  cases pc <;> simp only [CallerPc.removes, Option.some.injEq, Prod.mk.injEq, reduceCtorEq] at h <;>
    obtain ⟨_, rfl, rfl⟩ := h <;> exact ⟨trivial, trivial⟩

/-- Before the pool stops, a settled entry holds a thread that can be detached. -/
theorem joinable_of_settled (hr : (machine kind).Reachable ResizeAlone s) (hrun : s.Running)
    {j : Nat} (hj : Settled s j) :
    ∃ w y, s.threads[j]? = some (some w) ∧ s.workers[w]? = some y ∧ y.joinable = true := by
  obtain ⟨w, y, hw, hy, hjoin, hunset⟩ := reachable_filled hr j hj
  refine ⟨w, y, hw, hy, hjoin.resolve_right fun hexit => ?_⟩
  rcases reachable_dismissed hr w y hy (.inr hexit) with hdone | hset
  · exact absurd (.inl hdone) hrun.not_ordered
  · exact absurd ((hunset hrun.2).symm.trans hset) (by decide)

/-- The entry a shrinking `Resize` comes to next is as the calls before have left it. -/
theorem settled_of_shrinkFlag (hr : (machine kind).Reachable ResizeAlone s) {n i : Nat}
    (hx : s.callers[c]? = some x) (hpc : x.pc = .shrinkFlag n i) : Settled s i := by
  have hplaced := reachable_placed hr x (List.mem_of_getElem? hx)
  rw [hpc] at hplaced
  exact settled_of_resize (reachable_alone hr) hx (by rw [hpc]; rfl) hplaced.2.2.2
    (by rw [hpc]; exact Nat.lt_succ_self i)

/-- The steps of the call itself. -/
theorem ready_own {choice : Nat} (hr : (machine kind).Reachable ResizeAlone s)
    (hs : ∀ y ∈ s.callers, Ready s y.pc) (h : Moved kind s (.caller c choice) t) :
    ∃ y, t.callers[c]? = some y ∧ Ready t y.pc := by
  have hset {x y : Caller} (h : s.callers[c]? = some x) (hc : t.callers = s.callers.set c y)
      (hy : Ready t y.pc) : ∃ y, t.callers[c]? = some y ∧ Ready t y.pc :=
    ⟨y, by rw [hc]; exact getElem?_set_of_some h y, hy⟩
  cases h with
  | callerGoto h hgo => exact hset h rfl (ready_goto hgo rfl)
  | remove h hpc _ => exact hset h rfl (ready_of_removes hpc).1
  | removeNone h hpc _ => exact hset h rfl (ready_of_removes hpc).2
  | growFlag h hpc _ hi => exact hset h rfl ⟨_, List.getElem?_set_self hi⟩
  | @setFlag _ x _ i f pc h hpc _ =>
    refine hset h rfl ?_
    rcases hpc with ⟨n, hpc, hn, rfl⟩ | ⟨n, hpc, hn, rfl⟩
    · have hplaced := reachable_placed hr x (List.mem_of_getElem? h)
      rw [hpc] at hplaced
      exact joinable_of_settled hr hplaced.1 (settled_of_shrinkFlag hr h hpc)
    · have hx := hs x (List.mem_of_getElem? h)
      rw [hpc] at hx
      exact hx
  | join h hpc ht _ _ => exact hset h rfl ht
  | notifyAll h hpc =>
    rcases hpc with ⟨_, _, rfl⟩ | ⟨_, rfl⟩ <;> exact hset h rfl trivial
  | grow h | growThread h | detach h | shrinkLock h | shrinkUnlock h | shrinkErase h
  | setDone h | setStop h | joined h | stopErase h => exact hset h rfl trivial

theorem Sequential.aloneAt (hseq : Sequential s) (hx : s.callers[c]? = some x)
    (hk : x.pc.kind ≠ .other) : AloneAt c s :=
  fun d y hy hne => hseq c d x y hx hy (Ne.symm hne) hk

theorem AloneAt.sequential (ha : AloneAt c s) : Sequential s := by
  intro d e x y hx hy hne hk
  by_cases hd : d = c
  · exact ha e y hy fun he => hne (hd.trans he.symm)
  · exact absurd (ha d x hx hd) hk

theorem ready_step (hseq : Sequential s) (hr : (machine kind).Reachable ResizeAlone s)
    (h : Moved kind s a t) (hs : ∀ y ∈ s.callers, Ready s y.pc) :
    ∀ z ∈ t.callers, Ready t z.pc := by
  intro z hz
  obtain ⟨d, hd⟩ := List.getElem?_of_mem hz
  by_cases hk : z.pc.kind = .other
  · exact ready_of_kind hk
  by_cases hact : ∃ choice, a = .caller d choice
  · obtain ⟨choice, rfl⟩ := hact
    obtain ⟨y, hy, hready⟩ := ready_own hr hs h
    obtain rfl := Option.some.inj (hd.symm.trans hy)
    exact hready
  by_cases hcall : ∃ op, a = .call d op
  · obtain ⟨op, rfl⟩ := hcall
    cases h with
    | call hx _ =>
      obtain rfl := Option.some.inj (hd.symm.trans (getElem?_set_of_some hx _))
      exact ready_entry op
  -- the caller has not moved and has the vectors to itself
  obtain ⟨x, hx, hkx⟩ : ∃ x, s.callers[d]? = some x ∧ x.pc.kind ≠ .other := by
    rcases h.callers_cases with heq | ⟨c, x, pc, hx, heq, hkind⟩ | ⟨c, op, x, ha, _, _, rfl⟩
    · exact ⟨z, heq ▸ hd, hk⟩
    · rw [heq] at hd
      rcases getElem?_set_cases hd with ⟨rfl, rfl⟩ | ⟨_, hd⟩
      · refine ⟨x, hx, fun hother => hk ?_⟩
        exact hkind.elim (fun hsame => hsame.trans hother) id
      · exact ⟨z, hd, hk⟩
    · rcases getElem?_set_cases hd with ⟨rfl, _⟩ | ⟨_, hd⟩
      · exact absurd ⟨op, ha⟩ hcall
      · exact ⟨z, hd, hk⟩
  have hsame := h.sameVectors (hseq.aloneAt hx hkx) (fun choice ha => hact ⟨choice, ha⟩)
    fun op ha => hcall ⟨op, ha⟩
  obtain rfl := Option.some.inj (hx.symm.trans (hsame.caller.symm.trans hd))
  exact (hs x (List.mem_of_getElem? hx)).other hsame

theorem reachable_ready (h : (machine kind).Reachable OneController s) :
    ∀ y ∈ s.callers, Ready s y.pc :=
  reachable_callers h (fun _ => trivial) fun hr _ hs hI =>
    ready_step (reachable_sequential hr) (hr.mono fun _ _ hok => hok.resizeAlone)
      (moved_of_step hs) hI

end Ready

/-! ## A step of the call -/

section Steps

variable {kind : QueueKind} {s : State} {c : Nat} {x : Caller}

theorem exists_setFlag {i f : Nat} (hf : s.flags[i]? = some (some f)) :
    ∃ t, s.setFlag i = some t :=
  ⟨_, by rw [State.setFlag, hf]; rfl⟩

/-- A `Resize` can go on when `mutex_` is free. -/
theorem exists_step_of_resize (hr : (machine kind).Reachable ResizeAlone s)
    (hx : s.callers[c]? = some x) (hk : x.pc.kind = .resize) (hready : Ready s x.pc)
    (hfree : s.mutex = none) : ∃ a t, s.Works a ∧ step kind s a = some t := by
  have hplaced := reachable_placed hr x (List.mem_of_getElem? hx)
  have hlen := reachable_length hr
  have hof {t : State} (ht : s.resizeStep c x x.pc = some t) :
      ∃ a t, s.Works a ∧ step kind s a = some t :=
    ⟨.caller c 0, t, ⟨x, hx, hk⟩, (step_resize hx hk).trans ht⟩
  cases hpc : x.pc with
  | resizeIfStop n | resizeIfDone n | shrinkNotify n | shrinkUnlock n | shrinkErase n =>
    exact hof (by rw [hpc, State.resizeStep])
  | resizeVectors n =>
    by_cases hn : s.threads.length ≤ n
    · exact hof (by rw [hpc]; exact if_pos hn)
    · exact hof (by rw [hpc]; exact if_neg hn)
  | growFlag n i =>
    rw [hpc] at hplaced
    by_cases hi : i < n
    · have hlt : i < s.flags.length := by rwa [hlen, hplaced.2.1]
      exact hof (by rw [hpc, State.resizeStep, if_pos hi, if_pos hlt])
    · exact hof (by rw [hpc, State.resizeStep, if_neg hi])
  | growThread n i =>
    rw [hpc] at hready
    obtain ⟨f, hf⟩ := hready
    have hlt : i < s.threads.length := hlen ▸ (List.getElem?_eq_some_iff.mp hf).1
    exact hof (by rw [hpc, State.resizeStep, hf]; exact if_pos hlt)
  | shrinkFlag n i =>
    by_cases hn : n ≤ i
    · obtain ⟨w, _, hw, _⟩ := reachable_filled hr i (settled_of_shrinkFlag hr hx hpc)
      obtain ⟨y, _, hflag⟩ := (reachable_wired hr).slot i w hw
      obtain ⟨t, ht⟩ := exists_setFlag (s := s.goto c x (.shrinkDetach n i)) hflag
      exact hof (by rw [hpc, State.resizeStep, if_pos hn]; exact ht)
    · exact hof (by rw [hpc, State.resizeStep, if_neg hn])
  | shrinkDetach n i =>
    rw [hpc] at hready
    obtain ⟨w, y, hw, hy, hj⟩ := hready
    have hthread : s.thread i = some w := by rw [State.thread, hw]; rfl
    exact hof (by
      rw [hpc, State.resizeStep, hthread, Option.bind_some, hy]
      exact if_pos hj)
  | shrinkLock n => exact hof (by rw [hpc]; exact if_pos hfree)
  | _ => exact absurd (hpc ▸ hk) (by simp [CallerPc.kind])

/-- The step of a thread in a `Stop`. -/
theorem step_stop {choice : Nat} (hx : s.callers[c]? = some x) (hk : x.pc.kind = .stop) :
    step kind s (.caller c choice) = s.stopStep kind c x choice x.pc := by
  simp only [step, hx, Option.bind_some]
  cases hpc : x.pc <;> simp only [hpc, CallerPc.kind, reduceCtorEq] at hk <;>
    simp only [State.callerStep, hpc]

/-- A `Stop` can go on when the worker it joins has left. -/
theorem exists_step_of_stop (hr : (machine kind).Reachable ResizeAlone s)
    (hx : s.callers[c]? = some x) (hk : x.pc.kind = .stop) (hready : Ready s x.pc)
    (hexit : ∀ i w, x.pc = .joining i w → s.HasExited w) :
    ∃ choice t, step kind s (.caller c choice) = some t := by
  have hgood (j : Nat) (hj : j < s.threads.length) : Good s j :=
    reachable_filled hr j (settled_of_stop (reachable_alone hr) (List.mem_of_getElem? hx) hk hj)
  obtain ⟨choice, r, hpop⟩ := exists_tryPop kind s.queue
  have hof {t : State} (ht : s.stopStep kind c x choice x.pc = some t) :
      ∃ choice t, step kind s (.caller c choice) = some t :=
    ⟨choice, t, (step_stop hx hk).trans ht⟩
  have hremove (who : Remover) (onTask onEmpty : CallerPc) :
      ∃ t, s.callerPop kind c x choice who onTask onEmpty = some t :=
    ⟨_, by rw [State.callerPop, hpop]; rfl⟩
  cases hpc : x.pc with
  | stopClear | stopDrain =>
    obtain ⟨t, ht⟩ := hremove _ _ _
    exact hof (by rw [hpc]; exact ht)
  | stopSet wait => cases wait <;> exact hof (by rw [hpc, State.stopStep])
  | stopFlag i n =>
    rw [hpc] at hready
    by_cases hi : i < n
    · obtain ⟨w, _, hw, _⟩ := hgood i (hready ▸ hi)
      obtain ⟨_, _, hflag⟩ := (reachable_wired hr).slot i w hw
      obtain ⟨t, ht⟩ := exists_setFlag (s := s.goto c x (.stopFlag (i + 1) n)) hflag
      exact hof (by rw [hpc, State.stopStep, if_pos hi]; exact ht)
    · exact hof (by rw [hpc, State.stopStep, if_neg hi])
  | stopJoin i =>
    by_cases hi : i < s.threads.length
    · obtain ⟨w, y, hw, hy, _⟩ := hgood i hi
      have hthread : s.thread i = some w := by rw [State.thread, hw]; rfl
      exact hof (by rw [hpc, State.stopStep, if_pos hi, hthread, Option.bind_some, hy]; rfl)
    · exact hof (by rw [hpc, State.stopStep, if_neg hi])
  | joining i w =>
    obtain ⟨y, hy, hleft⟩ := hexit i w hpc
    exact hof (by
      rw [hpc, State.stopStep, show s.workers[w]? = some y from hy, Option.bind_some, if_pos hleft])
  | stopIfDone | stopIfStop | stopSize | stopNotify | stopErase =>
    exact hof (by rw [hpc, State.stopStep])
  | _ => exact absurd (hpc ▸ hk) (by simp [CallerPc.kind])

end Steps

end ThreadPool
end TryAndLearn
