import Mathlib.Data.List.ReduceOption
import TryAndLearn.ThreadPool.Progress

/-!
# `IdleNumber` and `Size`

`n_waiting_` counts the workers that are in the wait of `SetThread`, from before they
evaluate the predicate to after it has come true.  Outside of `Resize` and `Stop` the
workers in `threads_` are those that have not been told to leave, and none of the others
sleeps, so in a pool that has come to rest `IdleNumber()` is `Size()`.
-/

namespace TryAndLearn
namespace ThreadPool

/-! ## What `n_waiting_` counts -/

/-- Between `++n_waiting_` and `--n_waiting_`. -/
def WorkerPc.waits : WorkerPc → Bool
  | .predPop _ | .predDone | .predFlag | .park | .parked | .unparked | .haveTask | .leave => true
  | _ => false

def Worker.waits (x : Worker) : Nat := if x.pc.waits then 1 else 0

def Waiting (s : State) : Prop := s.nWaiting = tally Worker.waits s.workers

section Waiting

variable {kind : QueueKind} {s t : State} {a : Act}

theorem WorkerGoto.waits_eq {x : Worker} {pc : WorkerPc} (h : WorkerGoto s x pc) :
    pc.waits = x.pc.waits := by
  cases h with
  | init h | run h | quit h _ | stay h _ | seenDone h _ | notDone h _ | seenFlag h _
  | notFlag h _ => rw [h]; rfl

theorem WorkerPc.waits_of_pops {pc onTask onEmpty : WorkerPc}
    (h : pc.pops = some (onTask, onEmpty)) :
    onTask.waits = pc.waits ∧ onEmpty.waits = pc.waits := by
  cases pc <;> simp only [WorkerPc.pops, Option.some.injEq, Prod.mk.injEq, reduceCtorEq] at h <;>
    obtain ⟨rfl, rfl⟩ := h <;> exact ⟨rfl, rfl⟩

theorem Waiting.setWorker {w : Nat} {x x' : Worker} (hs : Waiting s) (h : s.workers[w]? = some x)
    (hw : t.workers = s.workers.set w x')
    (hn : t.nWaiting + x.waits = s.nWaiting + x'.waits) : Waiting t := by
  have := tally_set h Worker.waits x'
  unfold Waiting at *
  rw [hw]
  omega

theorem Waiting.keep {w : Nat} {x x' : Worker} (hs : Waiting s) (h : s.workers[w]? = some x)
    (hw : t.workers = s.workers.set w x') (hn : t.nWaiting = s.nWaiting)
    (hpc : x'.pc.waits = x.pc.waits) : Waiting t :=
  hs.setWorker h hw (by simp only [Worker.waits, hpc, hn])

theorem waiting_step (h : Moved kind s a t) (hs : Waiting s) : Waiting t := by
  cases h with
  | notifyOne _ _ hw hparked => exact hs.keep hw rfl rfl (by rw [hparked]; rfl)
  | workerGoto h hgo => exact hs.keep h rfl rfl hgo.waits_eq
  | take h hpc _ => exact hs.keep h rfl rfl (WorkerPc.waits_of_pops hpc).1
  | takeNone h hpc _ => exact hs.keep h rfl rfl (WorkerPc.waits_of_pops hpc).2
  | finish h hpc => exact hs.keep h rfl rfl (by rw [hpc]; rfl)
  | wake h hpc => exact hs.keep h rfl rfl (by rw [hpc]; rfl)
  | detach _ _ _ hw _ => exact hs.keep hw rfl rfl rfl
  | joined _ _ hw _ => exact hs.keep hw rfl rfl rfl
  | lock h _ hpc =>
    rcases hpc with ⟨hpc, rfl, rfl⟩ | ⟨hpc, rfl, rfl⟩ <;>
      exact hs.setWorker h rfl (by simp [Worker.waits, WorkerPc.waits, hpc])
  | unlock h hpc =>
    rcases hpc with ⟨hpc, rfl, rfl⟩ | ⟨hpc, rfl, rfl⟩ | ⟨hpc, rfl, rfl⟩ <;>
      exact hs.setWorker h rfl (by simp [Worker.waits, WorkerPc.waits, State.workerUnlock, hpc])
  | growThread _ _ _ _ =>
    simpa [Waiting, State.goto, State.setCaller, Worker.waits, WorkerPc.waits] using hs
  | notifyAll _ _ =>
    have hunpark (x : Worker) : x.unpark.waits = x.waits := by
      unfold Worker.unpark
      split
      · rename_i hpc
        simp [Worker.waits, WorkerPc.waits, hpc]
      · rfl
    simpa [Waiting, State.notifyAll, State.goto, State.setCaller, tally_map, hunpark] using hs
  | _ => exact hs

theorem reachable_waiting {ok : State → Act → Prop} (h : (machine kind).Reachable ok s) :
    Waiting s := by
  refine h.invariant (fun s₀ h₀ => ?_) fun _ _ hs hI => waiting_step (moved_of_step hs) hI
  obtain ⟨n, rfl⟩ := h₀
  rfl

end Waiting

/-! ## Who is in `threads_` -/

/-- The workers from entry `k` on have been told to leave. -/
def ToldFrom (s : State) (k : Nat) : Prop :=
  ∀ (j w : Nat) (x : Worker), k ≤ j → s.threads[j]? = some (some w) → s.workers[w]? = some x →
    s.flag x.flag = true

/-- What a shrinking `Resize` has told the workers it removes. -/
def Cut (s : State) : CallerPc → Prop
  | .shrinkFlag _ i => ToldFrom s (i + 1)
  | .shrinkDetach _ i => ToldFrom s i
  | .shrinkLock n | .shrinkNotify n | .shrinkUnlock n | .shrinkErase n => ToldFrom s n
  | _ => True

/-- A worker that is not in `threads_` has been told to leave or has left. -/
def Listed (s : State) : Prop :=
  ∀ (w : Nat) (x : Worker), s.workers[w]? = some x →
    some w ∈ s.threads ∨ s.flag x.flag = true ∨ x.pc = .exited

section Listed

variable {kind : QueueKind} {s t : State} {a : Act} {c k : Nat} {x : Caller}

theorem cut_of_kind {pc : CallerPc} (h : pc.kind ≠ .resize) : Cut s pc := by
  cases pc <;> trivial

theorem ToldFrom.mono {l : Nat} (hs : ToldFrom s k) (h : k ≤ l) : ToldFrom s l :=
  fun j w y hj hw hy => hs j w y (by omega) hw hy

theorem ToldFrom.next (hs : ToldFrom s k) (hw : Wired s) (h : Moved kind s a t)
    (ht : t.threads = s.threads ∨ t.threads = []) : ToldFrom t k := by
  intro j w y hj hjw hy
  rcases ht with ht | ht
  · rw [ht] at hjw
    obtain ⟨x, hx, _⟩ := hw.slot j w hjw
    obtain ⟨y', hy', hf⟩ := h.worker_flag hx
    obtain rfl := Option.some.inj (hy.symm.trans hy')
    rw [hf]
    exact h.flag_mono (hs j w x hj hjw hx)
  · simp [ht] at hjw

theorem Cut.next {pc : CallerPc} (hs : Cut s pc) (hw : Wired s) (h : Moved kind s a t)
    (ht : t.threads = s.threads ∨ t.threads = []) : Cut t pc := by
  cases pc <;> first | trivial | exact ToldFrom.next hs hw h ht

/-- A step that starts no worker and removes none but all. -/
theorem cut_others (hw : Wired s) (h : Moved kind s a t)
    (ht : t.threads = s.threads ∨ t.threads = []) (hs : ∀ y ∈ s.callers, Cut s y.pc)
    {x' : Caller} (hc : t.callers = s.callers.set c x') (hx' : Cut t x'.pc) :
    ∀ y ∈ t.callers, Cut t y.pc := by
  rw [hc]
  exact forall_mem_set (fun y hy => (hs y hy).next hw h ht) hx'

/-- The step of a `Resize`: the other callers are in none. -/
theorem cut_resize (ha : Alone s) (h : s.callers[c]? = some x) (hk : x.pc.kind = .resize)
    {x' : Caller} (hc : t.callers = s.callers.set c x') (hx' : Cut t x'.pc) :
    ∀ y ∈ t.callers, Cut t y.pc := by
  intro y hy
  obtain ⟨d, hd⟩ := List.getElem?_of_mem hy
  rw [hc] at hd
  rcases getElem?_set_cases hd with ⟨rfl, rfl⟩ | ⟨hne, hd⟩
  · exact hx'
  · refine cut_of_kind ?_
    rw [ha c d x y h hd (Ne.symm hne) hk]
    decide

theorem cut_goto {pc : CallerPc} (hx : Cut s x.pc) (hgo : CallerGoto s x.pc pc) : Cut s pc := by
  cases hgo with
  | shrink _ _ =>
    intro j w y hj hjw _
    have := (List.getElem?_eq_some_iff.mp hjw).1
    omega
  | shrunk hpc hn =>
    rw [hpc] at hx
    exact ToldFrom.mono hx (by omega)
  | _ => trivial

theorem cut_step (ha : Alone s) (hw : Wired s) (hp : ∀ y ∈ s.callers, Placed s y.pc)
    (h : Moved kind s a t) (hs : ∀ y ∈ s.callers, Cut s y.pc) : ∀ y ∈ t.callers, Cut t y.pc := by
  have hmoved := h
  cases h with
  | push | enqueue | pushLock | notifyOne | notifyNobody | pushReturn | workerGoto | take
  | takeNone | finish | lock | unlock | wake =>
    exact fun y hy => (hs y hy).next hw hmoved (.inl rfl)
  | @call c x op h hpc =>
    refine cut_others hw hmoved (.inl rfl) hs rfl ?_
    cases op with
    | stop wait => cases wait <;> trivial
    | _ => trivial
  | callerGoto h hgo =>
    have hx := hs _ (List.mem_of_getElem? h)
    exact cut_others hw hmoved (.inl rfl) hs rfl ((cut_goto hx hgo).next hw hmoved (.inl rfl))
  | remove h hpc _ =>
    refine cut_others hw hmoved (.inl rfl) hs rfl (cut_of_kind ?_)
    rw [show _ = _ from (CallerPc.kind_of_removes hpc).1]
    exact CallerPc.not_resize_of_removes hpc
  | removeNone h hpc _ =>
    refine cut_others hw hmoved (.inl rfl) hs rfl (cut_of_kind ?_)
    rw [show _ = _ from (CallerPc.kind_of_removes hpc).2]
    exact CallerPc.not_resize_of_removes hpc
  | grow h hpc _ | growFlag h hpc _ _ | growThread h hpc _ _ | shrinkErase h hpc =>
    exact cut_resize ha h (by rw [hpc]; rfl) rfl trivial
  | setDone _ _ | setStop _ _ | join _ _ _ _ _ | joined _ _ _ _ =>
    exact cut_others hw hmoved (.inl rfl) hs rfl trivial
  | stopErase _ _ => exact cut_others hw hmoved (.inr rfl) hs rfl trivial
  | @setFlag c x _ i f pc h hpc hf =>
    have hx := hs x (List.mem_of_getElem? h)
    rcases hpc with ⟨n, hpc, hn, rfl⟩ | ⟨n, hpc, hn, rfl⟩
    · rw [hpc] at hx
      refine cut_resize ha h (by rw [hpc]; rfl) rfl fun j w y hj hjw hy => ?_
      rcases Nat.lt_or_eq_of_le hj with hlt | rfl
      · exact hmoved.flag_mono (hx j w y hlt hjw hy)
      · obtain ⟨y', hy', hslot⟩ := hw.slot i w hjw
        obtain rfl := Option.some.inj (hy.symm.trans hy')
        obtain rfl := Option.some.inj (Option.some.inj (hf.symm.trans hslot))
        exact flag_set_self (hw.cells i _ hslot)
    · exact cut_others hw hmoved (.inl rfl) hs rfl trivial
  | @detach c x _ n i w y h hpc _ _ _ =>
    have hx := hs x (List.mem_of_getElem? h)
    have hplaced := hp x (List.mem_of_getElem? h)
    rw [hpc] at hx hplaced
    obtain ⟨_, hpos, hle, _⟩ := hplaced
    refine cut_others hw hmoved (.inl rfl) hs rfl (Cut.next (s := s) ?_ hw hmoved (.inl rfl))
    show ToldFrom s (sizeDec i + 1)
    rw [sizeDec_of_pos (by omega), Nat.sub_add_cancel (by omega)]
    exact hx
  | shrinkLock h hpc _ | shrinkUnlock h hpc =>
    have hx := hs _ (List.mem_of_getElem? h)
    rw [hpc] at hx
    exact cut_others hw hmoved (.inl rfl) hs rfl (Cut.next (s := s) hx hw hmoved (.inl rfl))
  | @notifyAll c x _ pc h hpc =>
    have hx := hs x (List.mem_of_getElem? h)
    rcases hpc with ⟨n, hpc, rfl⟩ | ⟨hpc, rfl⟩
    · rw [hpc] at hx
      exact cut_others hw hmoved (.inl rfl) hs rfl (Cut.next (s := s) hx hw hmoved (.inl rfl))
    · exact cut_others hw hmoved (.inl rfl) hs rfl trivial

theorem reachable_cut (h : (machine kind).Reachable ResizeAlone s) :
    ∀ y ∈ s.callers, Cut s y.pc :=
  reachable_callers h (fun _ => trivial) fun hr _ hs hI =>
    cut_step (reachable_alone hr) (reachable_wired hr) (reachable_placed hr) (moved_of_step hs) hI

/-- A worker of a vector that is gone. -/
theorem State.Gone.exited {l : List (Option Nat)} (hs : s.Gone l) {w : Nat} {y : Worker}
    (hmem : some w ∈ l) (hy : s.workers[w]? = some y) : y.pc = .exited := by
  obtain ⟨z, hz, hexit⟩ := hs (some w) hmem w rfl
  obtain rfl := Option.some.inj (hy.symm.trans hz)
  exact hexit

/-- A worker in `threads_` stays there, unless it has been told to leave or has left. -/
theorem Moved.listed_next (hw : Wired s) (hp : ∀ y ∈ s.callers, Placed s y.pc)
    (hcut : ∀ y ∈ s.callers, Cut s y.pc) (hphase : ∀ y ∈ s.callers, Phase s y.pc)
    (h : Moved kind s a t) {w : Nat} {y : Worker} (hy : s.workers[w]? = some y)
    (hmem : some w ∈ s.threads) :
    some w ∈ t.threads ∨ s.flag y.flag = true ∨ y.pc = .exited := by
  obtain ⟨j, hj⟩ := List.getElem?_of_mem hmem
  cases h with
  | @grow c x _ n h hpc hn =>
    have hlt := (List.getElem?_eq_some_iff.mp hj).1
    exact .inl (List.mem_of_getElem? (getElem?_resizeTo.mpr ⟨by omega, hj⟩))
  | @growThread c x _ n i f h hpc hf hi =>
    have hplaced := hp x (List.mem_of_getElem? h)
    rw [hpc] at hplaced
    have hne : i ≠ j := by
      rintro rfl
      exact hplaced.2.2.1 i w (Nat.le_refl i) hj
    refine .inl (List.mem_of_getElem? (i := j) ?_)
    show (s.threads.set i _)[j]? = _
    rwa [List.getElem?_set_ne hne]
  | @shrinkErase c x _ n h hpc =>
    by_cases hjn : j < n
    · exact .inl (List.mem_of_getElem? (getElem?_resizeTo.mpr ⟨hjn, hj⟩))
    · have hx := hcut x (List.mem_of_getElem? h)
      rw [hpc] at hx
      exact .inr (.inl (hx j w y (by omega) hj hy))
  | stopErase h hpc =>
    have hgone := gone_of_phase hw hphase (List.mem_of_getElem? h) (.inr hpc)
    exact .inr (.inr (hgone.exited hmem hy))
  | _ => exact .inl hmem

theorem listed_step (hw : Wired s) (hp : ∀ y ∈ s.callers, Placed s y.pc)
    (hcut : ∀ y ∈ s.callers, Cut s y.pc) (hphase : ∀ y ∈ s.callers, Phase s y.pc)
    (h : Moved kind s a t) (hs : Listed s) : Listed t := by
  intro w y hy
  rcases h.worker_prev hy with ⟨x, hx, hstep⟩ | ⟨rfl, f, rfl⟩
  · rw [hstep.flag_eq]
    rcases hs w x hx with hmem | hflag | hexit
    · exact (h.listed_next hw hp hcut hphase hx hmem).imp_right (Or.imp h.flag_mono hstep.exited)
    · exact .inr (.inl (h.flag_mono hflag))
    · exact .inr (.inr (hstep.exited hexit))
  · cases h with
    | @growThread c x _ n i f h hpc hf hi =>
      exact .inl (List.mem_of_getElem? (i := i) (List.getElem?_set_self hi))
    | _ =>
      have hlt := (List.getElem?_eq_some_iff.mp hy).1
      simp [State.setWorker, State.setPush, State.setCaller, State.goto, State.workerUnlock,
        State.notifyAll] at hlt

theorem reachable_listed (h : (machine kind).Reachable ResizeAlone s) : Listed s := by
  refine h.invariant (fun s₀ h₀ => ?_) fun hr _ hs hI =>
    listed_step (reachable_wired hr) (reachable_placed hr) (reachable_cut hr) (reachable_phase hr)
      (moved_of_step hs) hI
  obtain ⟨n, rfl⟩ := h₀
  intro w x hw
  simp [start] at hw

end Listed

/-! ## Who sleeps -/

/-- In a `Resize` that has workers to notify. -/
def CallerPc.toNotify : CallerPc → Bool
  | .shrinkFlag _ _ | .shrinkDetach _ _ | .shrinkLock _ | .shrinkNotify _ => true
  | _ => false

/-- A worker that has been told to leave and sleeps all the same will be notified, or is in
`threads_` of a pool that stops. -/
def Disturbed (s : State) : Prop :=
  ∀ (w : Nat) (x : Worker), s.workers[w]? = some x → x.pc = .park ∨ x.pc = .parked →
    s.flag x.flag = true →
      (s.isStop = true ∧ some w ∈ s.threads) ∨ ∃ y ∈ s.callers, y.pc.toNotify = true

section Disturbed

variable {kind : QueueKind} {s t : State} {a : Act}

theorem WorkerStep.sleeps_prev {x y : Worker} (h : WorkerStep s x y)
    (hy : y.pc = .park ∨ y.pc = .parked) (hf : s.flag x.flag = true) :
    x.pc = .park ∨ x.pc = .parked := by
  cases h with
  | same | release => exact hy
  | goto hgo =>
    cases hgo with
    | notFlag _ hunset => exact absurd (hunset.symm.trans hf) (by decide)
    | _ => simp at hy
  | take hpc => rcases (WorkerPc.of_pops hpc).1 with rfl | rfl <;> simp at hy
  | takeNone hpc _ => rcases (WorkerPc.of_pops hpc).2 with rfl | rfl <;> simp at hy
  | park hpc => exact .inl hpc
  | _ => simp at hy

/-- The notification of a `Resize` leaves nobody asleep: it holds `mutex_`, so no worker is
about to park. -/
theorem awake_of_notifyAll (ho : Owned s) {c n : Nat} {x : Caller} (h : s.callers[c]? = some x)
    (hpc : x.pc = .shrinkNotify n) {w : Nat} {y : Worker} (hy : s.workers[w]? = some y)
    (hsleep : y.unpark.pc = .park ∨ y.unpark.pc = .parked) : False := by
  have hmine := ho (.caller c) ⟨x, h, by rw [hpc]; rfl⟩
  have hpark : y.pc ≠ .park := by
    intro hpark
    have htheirs := ho (.worker w) ⟨y, hy, by rw [hpark]; rfl⟩
    exact absurd (hmine.symm.trans htheirs) (by simp)
  unfold Worker.unpark at hsleep
  split at hsleep
  · simp at hsleep
  · rename_i hparked
    exact hsleep.elim hpark hparked

theorem CallerGoto.toNotify {pc pc' : CallerPc} (h : CallerGoto s pc pc')
    (hpc : pc.toNotify = true) : pc'.toNotify = true := by
  cases h <;> subst pc <;> first | rfl | exact absurd hpc Bool.false_ne_true

theorem CallerPc.kind_of_toNotify {pc : CallerPc} (h : pc.toNotify = true) :
    pc.kind = .resize := by
  cases pc <;> first | rfl | exact absurd h Bool.false_ne_true

/-- A `Resize` that has workers to notify still has them, unless it notifies. -/
theorem Moved.toNotify_next (h : Moved kind s a t) (hs : ∃ y ∈ s.callers, y.pc.toNotify = true) :
    (∃ z ∈ t.callers, z.pc.toNotify = true) ∨
      ∃ (c n : Nat) (x : Caller), s.callers[c]? = some x ∧ x.pc = .shrinkNotify n ∧
        t.workers = s.workers.map Worker.unpark := by
  obtain ⟨y, hy, hn⟩ := hs
  have hset {c : Nat} {x x' : Caller} (h : s.callers[c]? = some x)
      (hx' : x.pc.toNotify = true → x'.pc.toNotify = true) :
      ∃ z ∈ s.callers.set c x', z.pc.toNotify = true := by
    rcases mem_set_of_mem h hy x' with rfl | hy
    · exact ⟨x', mem_set_of_some h x', hx' hn⟩
    · exact ⟨y, hy, hn⟩
  cases h with
  | push | enqueue | pushLock | notifyOne | notifyNobody | pushReturn | workerGoto | take
  | takeNone | finish | lock | unlock | wake => exact .inl ⟨y, hy, hn⟩
  | call h hpc =>
    refine .inl (hset h fun hx => ?_)
    rcases hpc with hpc | hpc <;> rw [hpc] at hx <;> exact absurd hx Bool.false_ne_true
  | callerGoto h hgo => exact .inl (hset h hgo.toNotify)
  | remove h hpc _ | removeNone h hpc _ =>
    refine .inl (hset h fun hx => ?_)
    exact absurd (CallerPc.kind_of_toNotify hx) (CallerPc.not_resize_of_removes hpc)
  | setFlag h hpc _ =>
    refine .inl (hset h fun hx => ?_)
    rcases hpc with ⟨_, _, _, rfl⟩ | ⟨_, hpc, _, _⟩
    · rfl
    · rw [hpc] at hx
      exact absurd hx Bool.false_ne_true
  | @notifyAll c x _ pc h hpc =>
    rcases hpc with ⟨n, hpc, rfl⟩ | ⟨hpc, rfl⟩
    · exact .inr ⟨c, n, x, h, hpc, rfl⟩
    · refine .inl (hset h fun hx => ?_)
      rw [hpc] at hx
      exact absurd hx Bool.false_ne_true
  | detach h _ _ _ _ | shrinkLock h _ _ => exact .inl (hset h fun _ => rfl)
  | grow h hpc _ | growFlag h hpc _ _ | growThread h hpc _ _ | shrinkUnlock h hpc
  | shrinkErase h hpc | setDone h hpc | setStop h hpc | join h hpc _ _ _ | joined h hpc _ _
  | stopErase h hpc =>
    refine .inl (hset h fun hx => ?_)
    rw [hpc] at hx
    exact absurd hx Bool.false_ne_true

/-- Once `is_stop_` is set, `threads_` changes only by being cleared. -/
theorem Moved.threads_of_isStop (hp : ∀ y ∈ s.callers, Placed s y.pc) (h : Moved kind s a t)
    (hstop : s.isStop = true) :
    t.threads = s.threads ∨ ∃ y ∈ s.callers, y.pc = .stopErase := by
  have hrunning {P : Prop} (hrun : s.Running) : P :=
    absurd (.inr hstop) hrun.not_ordered
  cases h with
  | grow h hpc _ =>
    have hx := hp _ (List.mem_of_getElem? h)
    rw [hpc] at hx
    exact hrunning hx.2
  | growThread h hpc _ _ | shrinkErase h hpc =>
    have hx := hp _ (List.mem_of_getElem? h)
    rw [hpc] at hx
    exact hrunning hx.1
  | stopErase h hpc => exact .inr ⟨_, List.mem_of_getElem? h, hpc⟩
  | _ => exact .inl rfl

theorem disturbed_step (ho : Owned s) (hw : Wired s) (hp : ∀ y ∈ s.callers, Placed s y.pc)
    (hphase : ∀ y ∈ s.callers, Phase s y.pc) (hsent : ∀ y ∈ s.callers, Sent s y.pc)
    (hl : Listed s) (h : Moved kind s a t) (hs : Disturbed s) : Disturbed t := by
  intro w y hy hsleep hflag
  rcases h.worker_prev hy with ⟨x, hx, hstep⟩ | ⟨_, f, rfl⟩
  swap
  · simp at hsleep
  rw [hstep.flag_eq] at hflag
  have hexit : x.pc ≠ .exited := fun hexit => by
    rw [hstep.exited hexit] at hsleep
    simp at hsleep
  by_cases hf : s.flag x.flag = true
  · rcases hs w x hx (hstep.sleeps_prev hsleep hf) hf with ⟨hstop, hmem⟩ | hnotify
    · rcases h.threads_of_isStop hp hstop with ht | ⟨z, hz, hpc⟩
      · exact .inl ⟨h.isStop_mono hstop, ht ▸ hmem⟩
      · exact absurd ((gone_of_phase hw hphase hz (.inr hpc)).exited hmem hx) hexit
    · rcases h.toNotify_next hnotify with hz | ⟨c, n, z, hc, hpc, hw⟩
      · exact .inr hz
      · rw [hw, List.getElem?_map, hx, Option.map_some] at hy
        obtain rfl := Option.some.inj hy
        exact (awake_of_notifyAll ho hc hpc hx hsleep).elim
  · -- the flag is set in this step
    cases h with
    | @setFlag c z _ i g pc h hpc _ =>
      rcases hpc with ⟨n, _, _, rfl⟩ | ⟨n, hpc, _, rfl⟩
      · exact .inr ⟨_, mem_set_of_some h _, rfl⟩
      · have hz := hsent z (List.mem_of_getElem? h)
        rw [hpc] at hz
        exact .inl ⟨hz, (hl w x hx).resolve_right (not_or.mpr ⟨hf, hexit⟩)⟩
    | growFlag _ _ _ _ =>
      exact absurd ((flag_append s x.flag [false] fun k => by cases k <;> rfl).symm.trans hflag) hf
    | _ => exact absurd hflag hf

theorem reachable_disturbed (h : (machine kind).Reachable ResizeAlone s) : Disturbed s := by
  refine h.invariant (fun s₀ h₀ => ?_) fun hr _ hs hI =>
    disturbed_step (reachable_owned hr) (reachable_wired hr) (reachable_placed hr)
      (reachable_phase hr) (reachable_sent hr) (reachable_listed hr) (moved_of_step hs) hI
  obtain ⟨n, rfl⟩ := h₀
  intro w x hw
  simp [start] at hw

end Disturbed

/-! ## The two numbers -/

section Numbers

variable {kind : QueueKind} {s : State}

/-- Outside of `Resize` and `Stop` the entries of `threads_` are the workers that have not
been told to leave. -/
theorem AtRest.mem_threads_iff (hrest : AtRest s) (h : (machine kind).Reachable ResizeAlone s)
    {w : Nat} : some w ∈ s.threads ↔ ∃ x, s.workers[w]? = some x ∧ s.flag x.flag = false := by
  constructor
  · intro hmem
    obtain ⟨j, hj⟩ := List.getElem?_of_mem hmem
    obtain ⟨v, x, hv, hx, _, _, hunset⟩ :=
      (hrest.whole h).entry j (List.getElem?_eq_some_iff.mp hj).1
    obtain rfl := Option.some.inj (Option.some.inj (hj.symm.trans hv))
    exact ⟨x, hx, hunset⟩
  · rintro ⟨x, hx, hunset⟩
    rcases reachable_listed h w x hx with hmem | hflag | hexit
    · exact hmem
    · exact absurd (hunset.symm.trans hflag) (by decide)
    · rcases reachable_dismissed h w x hx (.inr hexit) with hdone | hflag
      · exact absurd (.inl hdone) hrest.running.not_ordered
      · exact absurd (hunset.symm.trans hflag) (by decide)

/-- `Size()` is the number of workers that have not been told to leave. -/
theorem AtRest.size_eq (hrest : AtRest s) (h : (machine kind).Reachable ResizeAlone s) :
    s.threads.length = s.workers.countP fun x => !s.flag x.flag := by
  have hentry (j : Nat) (hj : j < s.threads.length) : ∃ w, s.threads[j]? = some (some w) := by
    obtain ⟨w, _, hw, _⟩ := (hrest.whole h).entry j hj
    exact ⟨w, hw⟩
  have hsome : ∀ entry ∈ s.threads, entry.isSome := by
    intro entry hmem
    obtain ⟨j, hj⟩ := List.getElem?_of_mem hmem
    obtain ⟨w, hw⟩ := hentry j (List.getElem?_eq_some_iff.mp hj).1
    obtain rfl := Option.some.inj (hj.symm.trans hw)
    rfl
  have hnodup : s.threads.Nodup := by
    refine List.nodup_iff_getElem?_ne_getElem?.mpr fun i j hij hj heq => ?_
    obtain ⟨w, hw⟩ := hentry j hj
    exact absurd ((reachable_wired h).threads i j w (heq.trans hw) hw) (by omega)
  rw [← List.reduceOption_length_eq_iff.mpr hsome]
  refine length_eq_countP (hnodup.filterMap fun a b w ha hb => ?_) fun w => ?_
  · exact (Option.mem_def.mp ha).trans (Option.mem_def.mp hb).symm
  · rw [List.reduceOption_mem_iff, hrest.mem_threads_iff h]
    simp only [Bool.not_eq_true']

theorem nWaiting_eq {ok : State → Act → Prop} (h : (machine kind).Reachable ok s) :
    s.nWaiting = s.workers.countP fun x => x.pc.waits := by
  rw [reachable_waiting h, ← tally_indicator]
  rfl

/-- When all workers have come to wait or have left, those in `threads_` wait. -/
theorem AtRest.nWaiting_eq_size (hrest : AtRest s) (h : (machine kind).Reachable ResizeAlone s)
    (hworkers : ∀ x ∈ s.workers, x.pc = .parked ∨ x.pc = .exited) :
    s.nWaiting = s.threads.length := by
  rw [nWaiting_eq h, hrest.size_eq h]
  refine congrArg _ (List.countP_congr fun x hx => ?_)
  obtain ⟨w, hw⟩ := List.getElem?_of_mem hx
  rcases hworkers x hx with hpc | hpc
  · -- nobody sleeps who has been told to leave
    have hunset : s.flag x.flag ≠ true := by
      intro hflag
      rcases reachable_disturbed h w x hw (.inr hpc) hflag with ⟨hstop, _⟩ | ⟨y, hy, hn⟩
      · exact hrest.running.not_ordered (.inr hstop)
      · exact absurd ((hrest.callers y hy).symm.trans (CallerPc.kind_of_toNotify hn)) (by decide)
    simp [hpc, WorkerPc.waits, hunset]
  · have hflag := (reachable_dismissed h w x hw (.inr hpc)).resolve_left fun hd =>
      hrest.running.not_ordered (.inl hd)
    simp [hpc, WorkerPc.waits, hflag]

end Numbers

/-- `IdleNumber()` counts the workers in their wait and `Size()`, outside of `Resize` and
`Stop`, those that have not been told to leave.  When all workers have come to wait or
have left, the two are the same. -/
theorem idle_eq_size (kind : QueueKind) {s : State} (h : (machine kind).Reachable ResizeAlone s)
    (hrest : AtRest s) :
    s.nWaiting = s.workers.countP (fun x => x.pc.waits) ∧
      s.threads.length = s.workers.countP (fun x => !s.flag x.flag) ∧
      ((∀ x ∈ s.workers, x.pc = .parked ∨ x.pc = .exited) → s.nWaiting = s.threads.length) :=
  ⟨nWaiting_eq h, hrest.size_eq h, hrest.nWaiting_eq_size h⟩

/-- Both workers slept when `Resize(1)` removed worker 1.  Worker 0 was woken too and
sleeps again. -/
def thinned : State :=
  { threads := [some 0], flags := [some 0], cells := [false, true], nWaiting := 1,
    workers := [{ flag := 0, pc := .parked }, { flag := 1, pc := .exited, joinable := false }],
    callers := [{ began := [some 0, some 1] }] }

theorem thinned_reachable : (machine .queue).Reachable ResizeAlone thinned :=
  Machine.reachable_of_exec
    (List.flatten [construct 2, List.replicate 7 (.worker 0 0), List.replicate 7 (.worker 1 0),
      [.call 0 (.resize 1)], List.replicate 10 (.caller 0 0), List.replicate 5 (.worker 1 0),
      List.replicate 5 (.worker 0 0)])
    ⟨1, rfl⟩ (by decide)

theorem idle_eq_size_thinned : thinned.nWaiting = thinned.threads.length :=
  (idle_eq_size .queue thinned_reachable ⟨⟨rfl, rfl⟩, by decide⟩).2.2 (by decide)

end ThreadPool
end TryAndLearn
