import TryAndLearn.ThreadPool.Vectors

/-!
# The workers of a pool at rest

An entry that no `Resize` is working on holds a worker that can be joined, or has left
its loop, and whose flag is not set as long as no `Stop(false)` was called (`Good`).
While a `Resize` is under way this is so of the entries below `CallerPc.keep`; it is
what a `Stop` relies on when it goes through `threads_`.
-/

namespace TryAndLearn
namespace ThreadPool

/-! ## Orders -/

/-- A `Stop` that has given its order, or has returned, has left a mark. -/
def Sent (s : State) : CallerPc → Prop
  | .stopSize | .stopFlag _ _ | .stopClear => s.isStop = true
  | .stopNotify | .stopJoin _ | .joining _ _ | .stopDrain | .stopErase | .stopped =>
    s.isDone = true ∨ s.isStop = true
  | _ => True

section Orders

variable {kind : QueueKind} {s t : State} {a : Act} {c : Nat} {x : Caller}

theorem Moved.isDone_mono (h : Moved kind s a t) (hd : s.isDone = true) : t.isDone = true := by
  cases h <;> first | exact hd | rfl

theorem Moved.isStop_mono (h : Moved kind s a t) (hs : s.isStop = true) : t.isStop = true := by
  cases h <;> first | exact hs | rfl

theorem Sent.next {pc : CallerPc} (hs : Sent s pc) (h : Moved kind s a t) : Sent t pc := by
  have hstop := h.isStop_mono
  have hdone := h.isDone_mono
  cases pc <;> first | trivial | exact hstop hs | exact hs.imp hdone hstop

theorem sent_goto {pc : CallerPc} (hx : Sent s x.pc) (hgo : CallerGoto s x.pc pc) :
    Sent s pc := by
  cases hgo with
  | stopDone _ hd => exact .inl hd
  | stopStopped _ hs => exact .inr hs
  | stopSize h | flagged h _ | joinSkip h _ _ _ | joinedAll h _ => rw [h] at hx; exact hx
  | _ => trivial

theorem sent_of_removes {pc onTask onEmpty : CallerPc} {who : Remover}
    (h : pc.removes = some (who, onTask, onEmpty)) (hs : Sent s pc) :
    Sent s onTask ∧ Sent s onEmpty := by
  cases pc <;> simp only [CallerPc.removes, Option.some.injEq, Prod.mk.injEq, reduceCtorEq] at h <;>
    obtain ⟨_, rfl, rfl⟩ := h
  · exact ⟨hs, .inr hs⟩
  · exact ⟨hs, hs⟩
  · exact ⟨trivial, trivial⟩
  · exact ⟨trivial, trivial⟩

theorem sent_step (h : Moved kind s a t) (hs : ∀ y ∈ s.callers, Sent s y.pc) :
    ∀ y ∈ t.callers, Sent t y.pc := by
  have hnext (y : Caller) (hy : y ∈ s.callers) : Sent t y.pc := (hs y hy).next h
  have hset {c : Nat} {x' : Caller} (hx' : Sent t x'.pc) :
      ∀ y ∈ s.callers.set c x', Sent t y.pc := forall_mem_set hnext hx'
  have hmoved := h
  cases h with
  | push | enqueue | pushLock | notifyOne | notifyNobody | pushReturn | workerGoto | take
  | takeNone | finish | lock | unlock | wake => exact hnext
  | @call c x op _ _ =>
    refine hset ?_
    cases op with
    | stop wait => cases wait <;> trivial
    | _ => trivial
  | callerGoto h hgo =>
    exact hset ((sent_goto (hs _ (List.mem_of_getElem? h)) hgo).next hmoved)
  | remove h hpc _ =>
    exact hset ((sent_of_removes hpc (hs _ (List.mem_of_getElem? h))).1.next hmoved)
  | removeNone h hpc _ =>
    exact hset ((sent_of_removes hpc (hs _ (List.mem_of_getElem? h))).2.next hmoved)
  | @setFlag c x _ i f pc h hpc _ =>
    have hx := hs x (List.mem_of_getElem? h)
    refine hset ?_
    rcases hpc with ⟨n, _, _, rfl⟩ | ⟨n, hpc, _, rfl⟩
    · trivial
    · rw [hpc] at hx
      exact hx
  | @notifyAll c x _ pc h hpc =>
    have hx := hs x (List.mem_of_getElem? h)
    refine hset ?_
    rcases hpc with ⟨n, _, rfl⟩ | ⟨hpc, rfl⟩
    · trivial
    · rw [hpc] at hx
      exact hx
  | setDone _ _ => exact hset (.inl rfl)
  | setStop _ _ => exact hset rfl
  | join h hpc _ _ _ | joined h hpc _ _ | stopErase h hpc =>
    have hx := hs _ (List.mem_of_getElem? h)
    rw [hpc] at hx
    exact hset hx
  | _ => exact hset trivial

theorem reachable_sent {ok : State → Act → Prop} (h : (machine kind).Reachable ok s) :
    ∀ y ∈ s.callers, Sent s y.pc :=
  reachable_callers h (fun _ => trivial) fun _ _ hs hI => sent_step (moved_of_step hs) hI

end Orders

/-! ## Filled entries -/

/-- How many leading entries of a vector of length `len` a `Resize` has not touched or
has filled. -/
def CallerPc.keep (len : Nat) : CallerPc → Nat
  | .growFlag _ i | .growThread _ i => i
  | .shrinkFlag _ i => i + 1
  | .shrinkDetach _ i => i
  | .shrinkLock n | .shrinkNotify n | .shrinkUnlock n | .shrinkErase n => n
  | _ => len

/-- No `Resize` is working on entry `j`. -/
def Settled (s : State) (j : Nat) : Prop :=
  j < s.threads.length ∧ ∀ y ∈ s.callers, j < y.pc.keep s.threads.length

/-- Entry `j` holds a worker that can be joined or has left its loop, and has not been
told to stop unless `Stop(false)` was called. -/
def Good (s : State) (j : Nat) : Prop :=
  ∃ w x, s.threads[j]? = some (some w) ∧ s.workers[w]? = some x ∧
    (x.joinable = true ∨ x.pc = .exited) ∧ (s.isStop = false → s.flag x.flag = false)

def Filled (s : State) : Prop := ∀ j, Settled s j → Good s j

section Filling

variable {kind : QueueKind} {s t : State} {a : Act} {c j : Nat} {x : Caller}

theorem keep_of_kind {pc : CallerPc} (h : pc.kind ≠ .resize) (len : Nat) : pc.keep len = len := by
  cases pc <;> first | rfl | exact absurd rfl h

theorem settled_of_set (hj : Settled t j) (h : s.callers[c]? = some x) {x' : Caller}
    (hc : t.callers = s.callers.set c x') (ht : t.threads = s.threads)
    (hk : j < x'.pc.keep s.threads.length → j < x.pc.keep s.threads.length) : Settled s j := by
  obtain ⟨hlt, hall⟩ := hj
  rw [ht] at hlt hall
  rw [hc] at hall
  refine ⟨hlt, fun y hy => ?_⟩
  rcases mem_set_of_mem h hy x' with rfl | hy
  · exact hk (hall x' (mem_set_of_some h x'))
  · exact hall y hy

/-- The step of a `Resize` on a vector of changing length: the other callers keep all of
it. -/
theorem settled_of_resize (ha : Alone s) (h : s.callers[c]? = some x)
    (hk : x.pc.kind = .resize) (hlt : j < s.threads.length)
    (hx : j < x.pc.keep s.threads.length) : Settled s j := by
  refine ⟨hlt, fun y hy => ?_⟩
  obtain ⟨d, hd⟩ := List.getElem?_of_mem hy
  by_cases hdc : c = d
  · subst hdc
    obtain rfl := Option.some.inj (h.symm.trans hd)
    exact hx
  · rw [keep_of_kind (by rw [ha c d x y h hd hdc hk]; decide)]
    exact hlt

/-- A worker stays joinable until it is detached by a `Resize` or has left its loop. -/
theorem Moved.joinable_next (h : Moved kind s a t) {w : Nat} {y z : Worker}
    (hy : s.workers[w]? = some y) (hz : t.workers[w]? = some z)
    (hj : y.joinable = true ∨ y.pc = .exited) :
    (z.joinable = true ∨ z.pc = .exited) ∨
      ∃ (c : Nat) (u : Caller) (n i : Nat), s.callers[c]? = some u ∧ u.pc = .shrinkDetach n i ∧
        s.threads[i]? = some (some w) := by
  obtain ⟨z', hz', hstep⟩ := h.worker_next hy
  obtain rfl := Option.some.inj (hz.symm.trans hz')
  rcases hj with hj | hexit
  swap
  · exact .inl (.inr (hstep.exited hexit))
  have hmoved := h
  cases h with
  | push | enqueue | pushLock | notifyOne | notifyNobody | pushReturn | workerGoto | take
  | takeNone | finish | lock | unlock | wake =>
    obtain ⟨y', hy', _, hsame, _⟩ := (hmoved.sameWiring rfl).workers w y hy
    obtain rfl := Option.some.inj (hz.symm.trans hy')
    exact .inl (.inl (hsame.trans hj))
  | @detach c x _ n i v u h hpc ht hv hju =>
    by_cases hwv : w = v
    · subst hwv
      exact .inr ⟨c, x, n, i, h, hpc, ht⟩
    · rw [State.setWorker, List.getElem?_set_ne (Ne.symm hwv)] at hz
      obtain rfl := Option.some.inj (hy.symm.trans hz)
      exact .inl (.inl hj)
  | @joined c x _ i v u h hpc hv hexit =>
    by_cases hwv : w = v
    · subst hwv
      obtain rfl := Option.some.inj (hy.symm.trans hv)
      exact .inl (.inr (hstep.exited hexit))
    · rw [State.setWorker, List.getElem?_set_ne (Ne.symm hwv)] at hz
      obtain rfl := Option.some.inj (hy.symm.trans hz)
      exact .inl (.inl hj)
  | growThread h _ _ _ =>
    rw [List.getElem?_append_left (List.getElem?_eq_some_iff.mp hy).1] at hz
    obtain rfl := Option.some.inj (hy.symm.trans hz)
    exact .inl (.inl hj)
  | notifyAll _ _ =>
    obtain ⟨y', hy', rfl⟩ : ∃ x, s.workers[w]? = some x ∧ x.unpark = z := by
      simpa [State.notifyAll, State.goto, State.setCaller] using hz
    obtain rfl := Option.some.inj (hy.symm.trans hy')
    refine .inl (.inl ?_)
    unfold Worker.unpark
    split <;> exact hj
  | _ =>
    obtain rfl := Option.some.inj (hy.symm.trans hz)
    exact .inl (.inl hj)

/-- A good entry stays good if it stays in the vector, its worker is not the one a
`Resize` detaches, and its flag not the one that is set. -/
theorem Good.next (hg : Good s j) (h : Moved kind s a t)
    (ht : ∀ w, s.threads[j]? = some (some w) → t.threads[j]? = some (some w))
    (hdetach : ∀ (c : Nat) (x : Caller) (n i w : Nat), s.callers[c]? = some x →
      x.pc = .shrinkDetach n i → s.threads[i]? = some (some w) → s.threads[j]? ≠ some (some w))
    (hflag : ∀ (w : Nat) (x : Worker), s.threads[j]? = some (some w) → s.workers[w]? = some x →
      t.isStop = false → t.flag x.flag = s.flag x.flag) : Good t j := by
  obtain ⟨w, y, hj, hy, hjoin, hunset⟩ := hg
  obtain ⟨z, hz, hf⟩ := h.worker_flag hy
  refine ⟨w, z, ht w hj, hz, ?_, fun hstop => ?_⟩
  · rcases h.joinable_next hy hz hjoin with hz' | ⟨c, x, n, i, hc, hpc, hi⟩
    · exact hz'
    · exact absurd hj (hdetach c x n i w hc hpc hi)
  · have hs : s.isStop = false := by
      refine Bool.eq_false_iff.mpr fun hs => ?_
      exact absurd (hstop.symm.trans (h.isStop_mono hs)) (by decide)
    rw [hf, hflag w y hj hy hstop]
    exact hunset hs

/-- A settled entry is not the one a `Resize` detaches. -/
theorem Settled.not_detached (hw : Wired s) (hj : Settled s j) (d : Nat) (z : Caller)
    (n i w : Nat) (hd : s.callers[d]? = some z) (hpc : z.pc = .shrinkDetach n i)
    (hi : s.threads[i]? = some (some w)) : s.threads[j]? ≠ some (some w) := by
  intro hjw
  obtain rfl := hw.threads i j w hi hjw
  have := hj.2 z (List.mem_of_getElem? hd)
  rw [hpc] at this
  exact absurd this (Nat.lt_irrefl i)

theorem flag_append (s : State) (f : Nat) (b : List Bool)
    (hb : ∀ i, b.getD i false = false) : (s.cells ++ b).getD f false = s.flag f := by
  unfold State.flag
  rcases Nat.lt_or_ge f s.cells.length with hlt | hge
  · simp [List.getD_eq_getElem?_getD, List.getElem?_append_left hlt]
  · have := hb (f - s.cells.length)
    simp [List.getD_eq_getElem?_getD, List.getElem?_append_right hge,
      List.getElem?_eq_none hge] at this ⊢
    exact this

theorem flag_set_of_ne (s : State) {f g : Nat} (hne : f ≠ g) :
    (s.cells.set f true).getD g false = s.flag g := by
  simp [State.flag, List.getD_eq_getElem?_getD, List.getElem?_set_ne hne]

/-- A step of a caller that leaves the vectors and the flags as they are. -/
theorem Filled.goto (hs : Filled s) (hw : Wired s) (h : Moved kind s a t)
    (hx : s.callers[c]? = some x) {x' : Caller} (hc : t.callers = s.callers.set c x')
    (ht : t.threads = s.threads) (hcells : t.cells = s.cells)
    (hk : ∀ j, j < s.threads.length → j < x'.pc.keep s.threads.length →
      j < x.pc.keep s.threads.length) : Filled t := by
  intro j hj
  have hj' : Settled s j := settled_of_set hj hx hc ht (hk j (ht ▸ hj.1))
  refine (hs j hj').next h (fun w hw => ht ▸ hw) (hj'.not_detached hw) fun w y _ _ _ => ?_
  rw [State.flag, State.flag, hcells]

theorem filled_step (ha : Alone s) (hp : ∀ y ∈ s.callers, Placed s y.pc)
    (hsent : ∀ y ∈ s.callers, Sent s y.pc) (hw : Wired s) (h : Moved kind s a t)
    (hs : Filled s) : Filled t := by
  have hmoved := h
  cases h with
  | push | enqueue | pushLock | notifyOne | notifyNobody | pushReturn | workerGoto | take
  | takeNone | finish | lock | unlock | wake =>
    have hsame := hmoved.sameWiring rfl
    intro j hj
    have hj' : Settled s j := by
      unfold Settled at hj
      rwa [hsame.threads, hsame.callers] at hj
    refine (hs j hj').next hmoved (fun w hw => by rwa [hsame.threads]) (hj'.not_detached hw)
      fun w y _ _ _ => ?_
    rw [State.flag, State.flag, hsame.cells]
  | @call c x op h hpc =>
    refine hs.goto hw hmoved h rfl rfl rfl fun j hlt _ => ?_
    rcases hpc with hpc | hpc <;> rw [hpc] <;> exact hlt
  | @callerGoto c x pc _ h hgo =>
    have hx := hp x (List.mem_of_getElem? h)
    refine hs.goto hw hmoved h rfl rfl rfl fun j hlt hkeep => ?_
    cases hgo with
    | grown hpc hn =>
      rw [hpc] at hx ⊢
      simp only [CallerPc.keep]
      have := hx.2.1
      omega
    | shrunk hpc hn =>
      rw [hpc] at hx ⊢
      simp only [CallerPc.keep] at hkeep ⊢
      have := hx.2.2.1
      omega
    | resizeStopped hpc _ | resizeNotStopped hpc _ | resizeDone hpc _ | resizeNotDone hpc _
    | shrink hpc _ | stopDone hpc _ | stopNotDone hpc _ | stopStopped hpc _
    | stopNotStopped hpc _ | stopSize hpc | flagged hpc _ | joinSkip hpc _ _ _
    | joinedAll hpc _ => rw [hpc]; exact hlt
  | remove h hpc _ | removeNone h hpc _ =>
    refine hs.goto hw hmoved h rfl rfl rfl fun j hlt _ => ?_
    rwa [keep_of_kind (CallerPc.not_resize_of_removes hpc)]
  | @grow c x _ n h hpc hn =>
    intro j hj
    have hlt : j < s.threads.length :=
      hj.2 _ (mem_set_of_some h _)
    have hj' := settled_of_resize ha h (by rw [hpc]; rfl) hlt (by rw [hpc]; exact hlt)
    refine (hs j hj').next hmoved (fun w hw => getElem?_resizeTo.mpr ⟨by omega, hw⟩)
      (hj'.not_detached hw) fun _ _ _ _ _ => rfl
  | @growFlag c x _ n i h hpc hn hi =>
    intro j hj
    have hj' : Settled s j := settled_of_set hj h rfl rfl (by rw [hpc]; exact id)
    refine (hs j hj').next hmoved (fun w hw => hw) (hj'.not_detached hw) fun w y _ _ _ => ?_
    exact flag_append s _ [false] fun k => by cases k <;> rfl
  | @growThread c x _ n i f h hpc hf hi =>
    intro j hj
    have hlt : j < s.threads.length := by simpa using hj.1
    have hkeep : j < i + 1 := hj.2 _ (mem_set_of_some h _)
    have hx := hp x (List.mem_of_getElem? h)
    rw [hpc] at hx
    by_cases hji : j = i
    · subst hji
      exact ⟨s.workers.length, { flag := f }, List.getElem?_set_self hi,
        List.getElem?_concat_length, .inl rfl, fun _ => hx.2.2.2 f hf⟩
    · have hj' : Settled s j := settled_of_resize ha h (by rw [hpc]; rfl) hlt
        (by rw [hpc]; simp only [CallerPc.keep]; omega)
      refine (hs j hj').next hmoved (fun w hw => ?_) (hj'.not_detached hw) fun _ _ _ _ _ => rfl
      rwa [List.getElem?_set_ne (Ne.symm hji)]
  | @setFlag c x _ i f pc h hpc hf =>
    rcases hpc with ⟨n, hpc, hn, rfl⟩ | ⟨n, hpc, hn, rfl⟩
    · intro j hj
      have hji : j < i := hj.2 _ (mem_set_of_some h _)
      have hj' : Settled s j := settled_of_resize ha h (by rw [hpc]; rfl) hj.1
        (by rw [hpc]; simp only [CallerPc.keep]; omega)
      refine (hs j hj').next hmoved (fun w hw => hw) (hj'.not_detached hw) fun w y hjw hy _ => ?_
      -- two entries never share a flag
      obtain ⟨y', hy', hslot⟩ := hw.slot j w hjw
      obtain rfl := Option.some.inj (hy.symm.trans hy')
      refine flag_set_of_ne s ?_
      rintro rfl
      have := hw.flags i j _ hf hslot
      omega
    · have hstop : s.isStop = true := by
        have hx := hsent x (List.mem_of_getElem? h)
        rw [hpc] at hx
        exact hx
      intro j hj
      have hj' : Settled s j := settled_of_set hj h rfl rfl (by rw [hpc]; exact id)
      refine (hs j hj').next hmoved (fun w hw => hw) (hj'.not_detached hw) fun w y _ _ hrun => ?_
      exact absurd (hstop.symm.trans hrun) (by decide)
  | @detach c x _ n i w y h hpc _ _ _ =>
    have hx := hp x (List.mem_of_getElem? h)
    rw [hpc] at hx
    obtain ⟨_, hpos, hle, _⟩ := hx
    refine hs.goto hw hmoved h rfl rfl rfl fun j _ hkeep => ?_
    rw [hpc]
    simp only [CallerPc.keep] at hkeep ⊢
    rw [sizeDec_of_pos (by omega)] at hkeep
    omega
  | shrinkLock h hpc _ | shrinkUnlock h hpc =>
    exact hs.goto hw hmoved h rfl rfl rfl fun j _ hkeep => by rw [hpc]; exact hkeep
  | @notifyAll c x _ pc h hpc =>
    refine hs.goto hw hmoved h rfl rfl rfl fun j hlt hkeep => ?_
    rcases hpc with ⟨n, hpc, rfl⟩ | ⟨hpc, rfl⟩ <;> rw [hpc] <;> exact hkeep
  | @shrinkErase c x _ n h hpc =>
    have hx := hp x (List.mem_of_getElem? h)
    rw [hpc] at hx
    intro j hj
    have hjn : j < n := by
      have := hj.1
      rwa [length_resizeTo] at this
    have hj' : Settled s j := settled_of_resize ha h (by rw [hpc]; rfl)
      (Nat.lt_of_lt_of_le hjn hx.2.2) (by rw [hpc]; exact hjn)
    exact (hs j hj').next hmoved (fun w hw => getElem?_resizeTo.mpr ⟨hjn, hw⟩)
      (hj'.not_detached hw) fun _ _ _ _ _ => rfl
  | setDone h hpc | setStop h hpc | join h hpc _ _ _ =>
    exact hs.goto hw hmoved h rfl rfl rfl fun j _ hkeep => by rw [hpc]; exact hkeep
  | joined h hpc _ _ =>
    exact hs.goto hw hmoved h rfl rfl rfl fun j _ hkeep => by rw [hpc]; exact hkeep
  | stopErase _ _ => exact fun j hj => absurd hj.1 (by simp)

theorem reachable_filled (h : (machine kind).Reachable ResizeAlone s) : Filled s := by
  refine h.invariant (fun s₀ h₀ => ?_) fun hr _ hs hf =>
    filled_step (reachable_alone hr) (reachable_placed hr) (reachable_sent hr)
      (reachable_wired hr) (moved_of_step hs) hf
  obtain ⟨n, rfl⟩ := h₀
  intro j hj
  simp [Settled, start] at hj

end Filling

end ThreadPool
end TryAndLearn
