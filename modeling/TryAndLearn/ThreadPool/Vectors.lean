import TryAndLearn.ThreadPool.Moves

/-!
# `threads_` and `flags_`

The two vectors are not protected by anything.  What `Resize` asks of its callers is
`ResizeAlone`: it runs beside no other `Resize` and beside no `Stop`.  Under it the
vectors are in step (`Wired`): a filled entry of `threads_` names a worker whose flag
is the entry of `flags_` at the same index, and no worker and no flag has two entries.

While a `Resize` is under way its entries are not all like that.  `CallerPc.keep` is
the number of leading entries it has not touched, or has already filled, and `Good`
holds of the entries below.
-/

namespace TryAndLearn
namespace ThreadPool

/-! ## The contract of `Resize` -/

inductive CallKind
  | other
  | resize
  | stop
  deriving DecidableEq, Repr

/-- Which call a program counter belongs to. -/
def CallerPc.kind : CallerPc → CallKind
  | .resizeIfStop _ | .resizeIfDone _ | .resizeVectors _ | .growFlag _ _ | .growThread _ _
  | .shrinkFlag _ _ | .shrinkDetach _ _ | .shrinkLock _ | .shrinkNotify _ | .shrinkUnlock _
  | .shrinkErase _ => .resize
  | .stopIfDone | .stopIfStop _ | .stopSet _ | .stopSize | .stopFlag _ _ | .stopClear
  | .stopNotify | .stopJoin _ | .joining _ _ | .stopDrain | .stopErase => .stop
  | .idle | .stopped | .clearQueue | .pop => .other

def Op.kind : Op → CallKind
  | .resize _ => .resize
  | .stop _ => .stop
  | .clearQueue | .pop => .other

/-- "should be called from one thread, otherwise be careful to not interleave, also with
this->stop()" -/
def ResizeAlone (s : State) : Act → Prop
  | .call _ (.resize n) => 1 ≤ n ∧ ∀ x ∈ s.callers, x.pc.kind = .other
  | .call _ (.stop _) => ∀ x ∈ s.callers, x.pc.kind ≠ .resize
  | _ => True

instance (s : State) : (a : Act) → Decidable (ResizeAlone s a)
  | .call _ (.resize n) => inferInstanceAs (Decidable (1 ≤ n ∧ ∀ x ∈ s.callers, x.pc.kind = .other))
  | .call _ (.stop _) => inferInstanceAs (Decidable (∀ x ∈ s.callers, x.pc.kind ≠ .resize))
  | .call _ .clearQueue | .call _ .pop | .push _ | .pushStep _ _ | .worker _ _ | .wake _
  | .caller _ _ => inferInstanceAs (Decidable True)

/-- Beside a call of a kind in `P` no `Resize` and no `Stop` is under way. -/
def Solo (P : CallKind → Prop) (s : State) : Prop :=
  ∀ (c d : Nat) (x y : Caller), s.callers[c]? = some x → s.callers[d]? = some y → c ≠ d →
    P x.pc.kind → y.pc.kind = .other

/-- A `Resize` under way is the only one, and no `Stop` is. -/
def Alone (s : State) : Prop := Solo (fun k => k = .resize) s

section Kinds

variable {kind : QueueKind} {s t : State} {a : Act}

theorem CallerGoto.kind_eq {pc pc' : CallerPc} (h : CallerGoto s pc pc') :
    pc'.kind = pc.kind ∨ pc'.kind = .other := by
  cases h <;> subst pc <;> first | exact .inl rfl | exact .inr rfl

theorem CallerPc.kind_of_removes {pc onTask onEmpty : CallerPc} {who : Remover}
    (h : pc.removes = some (who, onTask, onEmpty)) :
    onTask.kind = pc.kind ∧ onEmpty.kind = pc.kind := by
  cases pc <;> simp only [CallerPc.removes, Option.some.injEq, Prod.mk.injEq, reduceCtorEq] at h <;>
    obtain ⟨_, rfl, rfl⟩ := h <;> exact ⟨rfl, rfl⟩

theorem CallerPc.not_resize_of_removes {pc onTask onEmpty : CallerPc} {who : Remover}
    (h : pc.removes = some (who, onTask, onEmpty)) : pc.kind ≠ .resize := by
  cases pc <;> simp [CallerPc.removes, CallerPc.kind] at h ⊢

/-- One caller at most moves in a step.  It stays in its call or ends it, unless it
makes one. -/
theorem Moved.callers_cases (h : Moved kind s a t) :
    t.callers = s.callers ∨
      (∃ c x pc, s.callers[c]? = some x ∧ t.callers = s.callers.set c { x with pc := pc } ∧
        (pc.kind = x.pc.kind ∨ pc.kind = .other)) ∨
      ∃ c op x, a = .call c op ∧ s.callers[c]? = some x ∧ (x.pc = .idle ∨ x.pc = .stopped) ∧
        t = s.setCaller c { pc := op.entry, began := s.threads } := by
  cases h with
  | push | enqueue | pushLock | notifyOne | notifyNobody | pushReturn | workerGoto | take
  | takeNone | finish | lock | unlock | wake => exact .inl rfl
  | call h hpc => exact .inr (.inr ⟨_, _, _, rfl, h, hpc, rfl⟩)
  | callerGoto h hgo => exact .inr (.inl ⟨_, _, _, h, rfl, hgo.kind_eq⟩)
  | remove h hpc _ => exact .inr (.inl ⟨_, _, _, h, rfl, .inl (CallerPc.kind_of_removes hpc).1⟩)
  | removeNone h hpc _ =>
    exact .inr (.inl ⟨_, _, _, h, rfl, .inl (CallerPc.kind_of_removes hpc).2⟩)
  | setFlag h hpc _ =>
    refine .inr (.inl ⟨_, _, _, h, rfl, .inl ?_⟩)
    rcases hpc with ⟨_, hpc, _, rfl⟩ | ⟨_, hpc, _, rfl⟩ <;> rw [hpc] <;> rfl
  | notifyAll h hpc =>
    refine .inr (.inl ⟨_, _, _, h, rfl, .inl ?_⟩)
    rcases hpc with ⟨_, hpc, rfl⟩ | ⟨hpc, rfl⟩ <;> rw [hpc] <;> rfl
  | shrinkErase h _ | stopErase h _ => exact .inr (.inl ⟨_, _, _, h, rfl, .inr rfl⟩)
  | grow h hpc | growFlag h hpc | growThread h hpc | detach h hpc | shrinkLock h hpc
  | shrinkUnlock h hpc | setDone h hpc | setStop h hpc | join h hpc | joined h hpc =>
    exact .inr (.inl ⟨_, _, _, h, rfl, .inl (by rw [hpc]; rfl)⟩)

theorem Solo.set {P : CallKind → Prop} {c : Nat} {x' : Caller} (hs : Solo P s)
    (ht : t.callers = s.callers.set c x')
    (hmine : P x'.pc.kind →
      ∀ (d : Nat) (y : Caller), s.callers[d]? = some y → d ≠ c → y.pc.kind = .other)
    (htheirs : ∀ (d : Nat) (y : Caller), s.callers[d]? = some y → d ≠ c →
      P y.pc.kind → x'.pc.kind = .other) : Solo P t := by
  intro d e y z hy hz hne hres
  rw [ht] at hy hz
  rcases getElem?_set_cases hy with ⟨rfl, rfl⟩ | ⟨hd, hy'⟩
  · rcases getElem?_set_cases hz with ⟨rfl, rfl⟩ | ⟨he, hz'⟩
    · exact absurd rfl hne
    · exact hmine hres e z hz' he
  · rcases getElem?_set_cases hz with ⟨rfl, rfl⟩ | ⟨_, hz'⟩
    · exact htheirs d y hy' hd hres
    · exact hs d e y z hy' hz' hne hres

theorem Op.kind_entry : ∀ op : Op, op.entry.kind = op.kind
  | .resize _ | .stop true | .stop false | .clearQueue | .pop => rfl

/-- Only a call can end the solitude of another. -/
theorem Solo.step {P : CallKind → Prop} (hP : ¬ P .other)
    (hcall : ∀ c op, a = .call c op → ∀ y ∈ s.callers,
      (P op.kind → y.pc.kind = .other) ∧ (P y.pc.kind → op.kind = .other))
    (h : Moved kind s a t) (hs : Solo P s) : Solo P t := by
  rcases h.callers_cases with heq | ⟨c, x, pc, hx, heq, hkind⟩ | ⟨c, op, x, rfl, hx, _, rfl⟩
  · unfold Solo
    rw [heq]
    exact hs
  · refine hs.set heq (fun hmine d y hy hne => ?_) fun d y hy hne htheirs => ?_
    · rcases hkind with hkind | hkind
      · exact hs c d x y hx hy (Ne.symm hne) (hkind ▸ hmine)
      · exact absurd (hkind ▸ hmine) hP
    · rcases hkind with hkind | hkind
      · exact hkind ▸ hs d c y x hy hx hne htheirs
      · exact hkind
  · have hentry := op.kind_entry
    refine hs.set rfl (fun hmine d y hy _ => ?_) fun d y hy _ htheirs => ?_
    · exact (hcall c op rfl y (List.mem_of_getElem? hy)).1 (hentry ▸ hmine)
    · exact hentry.trans ((hcall c op rfl y (List.mem_of_getElem? hy)).2 htheirs)

theorem solo_start {P : CallKind → Prop} (hP : ¬ P .other) (n : Nat) : Solo P (start n) := by
  intro c d x y hx _ _ hmine
  obtain rfl := (List.mem_replicate.mp (List.mem_of_getElem? hx)).2
  exact absurd hmine hP

/-- What holds of a thread that makes no call, and is kept by every step, holds of the
program counters of all callers. -/
theorem reachable_callers {ok : State → Act → Prop} {P : State → CallerPc → Prop}
    (h : (machine kind).Reachable ok s) (hidle : ∀ s, P s .idle)
    (hstep : ∀ {s t : State} {a : Act}, (machine kind).Reachable ok s → ok s a →
      step kind s a = some t → (∀ y ∈ s.callers, P s y.pc) → ∀ y ∈ t.callers, P t y.pc) :
    ∀ y ∈ s.callers, P s y.pc := by
  refine h.invariant (I := fun s => ∀ y ∈ s.callers, P s y.pc) (fun s₀ h₀ => ?_) hstep
  obtain ⟨n, rfl⟩ := h₀
  intro y hy
  obtain rfl := (List.mem_replicate.mp hy).2
  exact hidle _

theorem alone_step (hok : ResizeAlone s a) (h : Moved kind s a t) (hs : Alone s) : Alone t := by
  refine Solo.step (by decide) (fun c op ha y hy => ?_) h hs
  subst ha
  cases op with
  | resize n => exact ⟨fun _ => hok.2 y hy, fun h => absurd ((hok.2 y hy).symm.trans h) (by decide)⟩
  | stop wait => exact ⟨fun h => absurd h (by simp [Op.kind]), fun h => absurd h (hok y hy)⟩
  | clearQueue | pop => exact ⟨fun h => absurd h (by decide), fun _ => rfl⟩

/-- Beside a `Stop` no `Resize` is at work. -/
theorem Alone.not_resize (ha : Alone s) {x y : Caller} (hx : x ∈ s.callers)
    (hk : x.pc.kind = .stop) (hy : y ∈ s.callers) : y.pc.kind ≠ .resize := by
  intro hres
  obtain ⟨c, hc⟩ := List.getElem?_of_mem hx
  obtain ⟨d, hd⟩ := List.getElem?_of_mem hy
  by_cases hdc : d = c
  · subst hdc
    obtain rfl := Option.some.inj (hc.symm.trans hd)
    exact absurd (hk.symm.trans hres) (by decide)
  · exact absurd (hk.symm.trans (ha d c y x hd hc hdc hres)) (by decide)

theorem reachable_alone (h : (machine kind).Reachable ResizeAlone s) : Alone s := by
  refine h.invariant (fun s₀ h₀ => ?_) fun _ hok hs ha => alone_step hok (moved_of_step hs) ha
  obtain ⟨n, rfl⟩ := h₀
  exact solo_start (by decide) n

end Kinds

/-! ## Steps that leave the wiring alone -/

/-- The step of a thread that is not a caller: no vector, flag or order changes, and of
a worker only what it does. -/
structure SameWiring (s t : State) : Prop where
  threads : t.threads = s.threads
  flags : t.flags = s.flags
  cells : t.cells = s.cells
  isDone : t.isDone = s.isDone
  isStop : t.isStop = s.isStop
  callers : t.callers = s.callers
  joins : t.joins = s.joins
  length : t.workers.length = s.workers.length
  workers : ∀ (w : Nat) (x : Worker), s.workers[w]? = some x →
    ∃ y, t.workers[w]? = some y ∧ y.flag = x.flag ∧ y.joinable = x.joinable ∧
      (x.pc = .exited → y.pc = .exited)

def Act.isCaller : Act → Bool
  | .call _ _ | .caller _ _ => true
  | _ => false

theorem Moved.sameWiring {kind : QueueKind} {s t : State} {a : Act} (h : Moved kind s a t)
    (ha : a.isCaller = false) : SameWiring s t := by
  have hset {w : Nat} {x x' : Worker} (hx : s.workers[w]? = some x) (hf : x'.flag = x.flag)
      (hj : x'.joinable = x.joinable) (hpc : x.pc ≠ .exited) (v : Nat) (z : Worker)
      (hz : s.workers[v]? = some z) :
      ∃ y, (s.workers.set w x')[v]? = some y ∧ y.flag = z.flag ∧ y.joinable = z.joinable ∧
        (z.pc = .exited → y.pc = .exited) := by
    by_cases hv : v = w
    · subst hv
      obtain rfl := Option.some.inj (hx.symm.trans hz)
      exact ⟨x', getElem?_set_of_some hx x', hf, hj, fun h => absurd h hpc⟩
    · exact ⟨z, by rwa [List.getElem?_set_ne (Ne.symm hv)], rfl, rfl, id⟩
  have hsame (v : Nat) (z : Worker) (hz : s.workers[v]? = some z) :
      ∃ y, s.workers[v]? = some y ∧ y.flag = z.flag ∧ y.joinable = z.joinable ∧
        (z.pc = .exited → y.pc = .exited) := ⟨z, hz, rfl, rfl, id⟩
  cases h with
  | push | enqueue | pushLock | notifyNobody | pushReturn =>
    exact ⟨rfl, rfl, rfl, rfl, rfl, rfl, rfl, rfl, hsame⟩
  | notifyOne _ _ hw hparked =>
    exact ⟨rfl, rfl, rfl, rfl, rfl, rfl, rfl, List.length_set,
      hset hw rfl rfl (by simp [hparked])⟩
  | workerGoto hw hgo =>
    refine ⟨rfl, rfl, rfl, rfl, rfl, rfl, rfl, List.length_set, hset hw rfl rfl ?_⟩
    cases hgo <;> simp_all
  | take hw hpc _ =>
    refine ⟨rfl, rfl, rfl, rfl, rfl, rfl, rfl, List.length_set, hset hw rfl rfl ?_⟩
    rintro hexit
    simp [hexit, WorkerPc.pops] at hpc
  | takeNone hw hpc _ =>
    refine ⟨rfl, rfl, rfl, rfl, rfl, rfl, rfl, List.length_set, hset hw rfl rfl ?_⟩
    rintro hexit
    simp [hexit, WorkerPc.pops] at hpc
  | finish hw hpc =>
    exact ⟨rfl, rfl, rfl, rfl, rfl, rfl, rfl, List.length_set, hset hw rfl rfl (by simp [hpc])⟩
  | lock hw _ hpc =>
    refine ⟨rfl, rfl, rfl, rfl, rfl, rfl, rfl, List.length_set, hset hw rfl rfl ?_⟩
    rcases hpc with ⟨hpc, _⟩ | ⟨hpc, _⟩ <;> simp [hpc]
  | unlock hw hpc =>
    refine ⟨rfl, rfl, rfl, rfl, rfl, rfl, rfl, List.length_set, hset hw rfl rfl ?_⟩
    rcases hpc with ⟨hpc, _⟩ | ⟨hpc, _⟩ | ⟨hpc, _⟩ <;> simp [hpc]
  | wake hw hpc =>
    exact ⟨rfl, rfl, rfl, rfl, rfl, rfl, rfl, List.length_set, hset hw rfl rfl (by simp [hpc])⟩
  | _ => exact absurd ha (by simp [Act.isCaller])

theorem WorkerStep.flag_eq {s : State} {x y : Worker} (h : WorkerStep s x y) :
    y.flag = x.flag := by
  cases h <;> rfl

theorem WorkerStep.exited {s : State} {x y : Worker} (h : WorkerStep s x y)
    (hx : x.pc = .exited) : y.pc = .exited := by
  cases h with
  | same | release => exact hx
  | goto hgo => cases hgo <;> simp_all
  | take h | takeNone h _ => simp [hx, WorkerPc.pops] at h
  | finish h | lock h | relock h | park h | unpark h | start h | exit h =>
    exact absurd (hx.symm.trans h) (by decide)

/-! ## Wired vectors -/

/-- A filled entry of `threads_` names a worker whose flag is the entry of `flags_`
beside it, and no entry is there twice. -/
structure Wired (s : State) : Prop where
  slot : ∀ (j w : Nat), s.threads[j]? = some (some w) →
    ∃ x, s.workers[w]? = some x ∧ s.flags[j]? = some (some x.flag)
  threads : ∀ (i j w : Nat), s.threads[i]? = some (some w) → s.threads[j]? = some (some w) → i = j
  flags : ∀ (i j f : Nat), s.flags[i]? = some (some f) → s.flags[j]? = some (some f) → i = j
  cells : ∀ (j f : Nat), s.flags[j]? = some (some f) → f < s.cells.length

theorem getElem?_resizeTo {l : List (Option Nat)} {n j w : Nat} :
    (resizeTo l n)[j]? = some (some w) ↔ j < n ∧ l[j]? = some (some w) := by
  unfold resizeTo
  rw [List.getElem?_append, List.length_take, List.getElem?_take, List.getElem?_replicate]
  by_cases hj : j < n
  · by_cases hl : j < l.length
    · rw [if_pos (by omega), if_pos hj]
      simp [hj]
    · rw [if_neg (by omega), List.getElem?_eq_none (by omega : l.length ≤ j)]
      simp
  · simp [hj]

theorem length_resizeTo {l : List (Option Nat)} {n : Nat} : (resizeTo l n).length = n := by
  unfold resizeTo
  simp
  omega

section Wiring

variable {kind : QueueKind} {s t : State} {a : Act}

theorem Moved.worker_flag (h : Moved kind s a t) {w : Nat} {x : Worker}
    (hw : s.workers[w]? = some x) : ∃ y, t.workers[w]? = some y ∧ y.flag = x.flag := by
  obtain ⟨y, hy, hstep⟩ := h.worker_next hw
  exact ⟨y, hy, hstep.flag_eq⟩

theorem Wired.frame (hs : Wired s) (h : Moved kind s a t) (ht : t.threads = s.threads)
    (hf : t.flags = s.flags) (hc : s.cells.length ≤ t.cells.length) : Wired t where
  slot j w hj := by
    obtain ⟨x, hx, hflag⟩ := hs.slot j w (ht ▸ hj)
    obtain ⟨y, hy, heq⟩ := h.worker_flag hx
    exact ⟨y, hy, by rw [hf, heq, hflag]⟩
  threads i j w hi hj := hs.threads i j w (ht ▸ hi) (ht ▸ hj)
  flags i j f hi hj := hs.flags i j f (hf ▸ hi) (hf ▸ hj)
  cells j f hj := Nat.lt_of_lt_of_le (hs.cells j f (hf ▸ hj)) hc

theorem Wired.resize (hs : Wired s) (n : Nat) (hw : t.workers = s.workers)
    (ht : t.threads = resizeTo s.threads n) (hf : t.flags = resizeTo s.flags n)
    (hc : t.cells = s.cells) : Wired t where
  slot j w hj := by
    rw [ht, getElem?_resizeTo] at hj
    obtain ⟨x, hx, hflag⟩ := hs.slot j w hj.2
    exact ⟨x, hw ▸ hx, by rw [hf, getElem?_resizeTo]; exact ⟨hj.1, hflag⟩⟩
  threads i j w hi hj := by
    rw [ht, getElem?_resizeTo] at hi hj
    exact hs.threads i j w hi.2 hj.2
  flags i j f hi hj := by
    rw [hf, getElem?_resizeTo] at hi hj
    exact hs.flags i j f hi.2 hj.2
  cells j f hj := by
    rw [hf, getElem?_resizeTo] at hj
    exact hc ▸ hs.cells j f hj.2

theorem Wired.growFlag (hs : Wired s) {i : Nat} (hnull : ∀ w, s.threads[i]? ≠ some (some w))
    (hw : t.workers = s.workers) (ht : t.threads = s.threads)
    (hf : t.flags = s.flags.set i (some s.cells.length)) (hc : t.cells = s.cells ++ [false]) :
    Wired t where
  slot j w hj := by
    rw [ht] at hj
    obtain ⟨x, hx, hflag⟩ := hs.slot j w hj
    have hne : i ≠ j := by
      rintro rfl
      exact hnull w hj
    exact ⟨x, hw ▸ hx, by rw [hf, List.getElem?_set_ne hne]; exact hflag⟩
  threads j k w hj hk := hs.threads j k w (ht ▸ hj) (ht ▸ hk)
  flags j k f hj hk := by
    rw [hf] at hj hk
    rcases getElem?_set_cases hj with ⟨rfl, hfj⟩ | ⟨_, hj'⟩ <;>
      rcases getElem?_set_cases hk with ⟨rfl, hfk⟩ | ⟨_, hk'⟩
    · rfl
    · have := hs.cells k f hk'
      simp only [Option.some.injEq] at hfj
      omega
    · have := hs.cells j f hj'
      simp only [Option.some.injEq] at hfk
      omega
    · exact hs.flags j k f hj' hk'
  cells j f hj := by
    rw [hf] at hj
    rw [hc, List.length_append, List.length_singleton]
    rcases getElem?_set_cases hj with ⟨_, hfj⟩ | ⟨_, hj⟩
    · simp only [Option.some.injEq] at hfj
      omega
    · have := hs.cells j f hj
      omega

theorem Wired.growThread (hs : Wired s) {i f : Nat} (hi : s.flags[i]? = some (some f))
    (hw : t.workers = s.workers ++ [{ flag := f }])
    (ht : t.threads = s.threads.set i (some s.workers.length)) (hf : t.flags = s.flags)
    (hc : t.cells = s.cells) : Wired t where
  slot j w hj := by
    rw [ht] at hj
    rw [hw, hf]
    rcases getElem?_set_cases hj with ⟨rfl, hwj⟩ | ⟨_, hj⟩
    · obtain rfl := Option.some.inj hwj
      exact ⟨{ flag := f }, List.getElem?_concat_length, hi⟩
    · obtain ⟨x, hx, hflag⟩ := hs.slot j w hj
      exact ⟨x, by rwa [List.getElem?_append_left (List.getElem?_eq_some_iff.mp hx).1], hflag⟩
  threads j k w hj hk := by
    rw [ht] at hj hk
    -- the new worker has no other entry
    have hold (m : Nat) (hm : s.threads[m]? = some (some s.workers.length)) : False := by
      obtain ⟨x, hx, _⟩ := hs.slot m _ hm
      have := (List.getElem?_eq_some_iff.mp hx).1
      omega
    rcases getElem?_set_cases hj with ⟨rfl, hwj⟩ | ⟨_, hj'⟩ <;>
      rcases getElem?_set_cases hk with ⟨rfl, hwk⟩ | ⟨_, hk'⟩
    · rfl
    · exact (hold k (Option.some.inj hwj ▸ hk')).elim
    · exact (hold j (Option.some.inj hwk ▸ hj')).elim
    · exact hs.threads j k w hj' hk'
  flags j k g hj hk := hs.flags j k g (hf ▸ hj) (hf ▸ hk)
  cells j g hj := hc ▸ hs.cells j g (hf ▸ hj)

end Wiring

/-! ## The entries a `Resize` is working on -/

/-- Neither order to stop has been given. -/
def State.Running (s : State) : Prop := s.isDone = false ∧ s.isStop = false

def State.NullFrom (s : State) (i : Nat) : Prop :=
  ∀ (j w : Nat), i ≤ j → s.threads[j]? ≠ some (some w)

/-- What holds where a `Resize` stands. -/
def Placed (s : State) : CallerPc → Prop
  | .resizeIfStop n => 1 ≤ n
  | .resizeIfDone n => 1 ≤ n ∧ s.isStop = false
  | .resizeVectors n => 1 ≤ n ∧ s.Running
  | .growFlag n i => s.Running ∧ s.threads.length = n ∧ s.NullFrom i
  | .growThread n i => s.Running ∧ s.threads.length = n ∧ s.NullFrom i ∧
      ∀ f, s.flags[i]? = some (some f) → s.flag f = false
  | .shrinkFlag n i => s.Running ∧ 1 ≤ n ∧ n ≤ i + 1 ∧ i < s.threads.length
  | .shrinkDetach n i => s.Running ∧ 1 ≤ n ∧ n ≤ i ∧ i < s.threads.length
  | .shrinkLock n | .shrinkNotify n | .shrinkUnlock n | .shrinkErase n =>
    s.Running ∧ 1 ≤ n ∧ n ≤ s.threads.length
  | _ => True

theorem placed_of_kind {s : State} {pc : CallerPc} (h : pc.kind ≠ .resize) : Placed s pc := by
  cases pc <;> trivial

theorem Placed.of_eq {s t : State} {pc : CallerPc} (h : Placed s pc)
    (hd : t.isDone = s.isDone) (hs : t.isStop = s.isStop) (ht : t.threads = s.threads)
    (hf : t.flags = s.flags) (hc : t.cells = s.cells) : Placed t pc := by
  cases pc <;>
    simp only [Placed, State.Running, State.NullFrom, State.flag, hd, hs, ht, hf, hc] at * <;>
    exact h

section Placement

variable {kind : QueueKind} {s t : State} {a : Act} {c : Nat} {x : Caller}

/-- The step of one caller that changes no vector and no order. -/
theorem placed_callers (hs : ∀ y ∈ s.callers, Placed s y.pc) {x' : Caller}
    (hc : t.callers = s.callers.set c x') (hpc : Placed s x'.pc)
    (hd : t.isDone = s.isDone) (hst : t.isStop = s.isStop) (ht : t.threads = s.threads)
    (hf : t.flags = s.flags) (hcells : t.cells = s.cells) : ∀ y ∈ t.callers, Placed t y.pc := by
  rw [hc]
  exact forall_mem_set (fun y hy => (hs y hy).of_eq hd hst ht hf hcells)
    (hpc.of_eq hd hst ht hf hcells)

/-- The step of a `Resize`: the other callers are in none. -/
theorem placed_resize (ha : Alone s) (h : s.callers[c]? = some x) (hk : x.pc.kind = .resize)
    {pc : CallerPc} (hc : t.callers = s.callers.set c { x with pc := pc }) (hpc : Placed t pc) :
    ∀ y ∈ t.callers, Placed t y.pc := by
  intro y hy
  obtain ⟨d, hd⟩ := List.getElem?_of_mem hy
  rw [hc] at hd
  rcases getElem?_set_cases hd with ⟨rfl, rfl⟩ | ⟨hne, hd⟩
  · exact hpc
  · refine placed_of_kind ?_
    rw [ha c d x y h hd (Ne.symm hne) hk]
    decide

/-- The step of a `Stop`: nobody is in a `Resize`. -/
theorem placed_stop (ha : Alone s) (h : s.callers[c]? = some x) (hk : x.pc.kind = .stop)
    {pc : CallerPc} (hc : t.callers = s.callers.set c { x with pc := pc })
    (hpc : pc.kind ≠ .resize) : ∀ y ∈ t.callers, Placed t y.pc := by
  rw [hc]
  refine forall_mem_set (fun y hy => placed_of_kind ?_) (placed_of_kind hpc)
  exact ha.not_resize (List.mem_of_getElem? h) hk hy

theorem placed_goto {pc : CallerPc} (hx : Placed s x.pc) (hgo : CallerGoto s x.pc pc) :
    Placed s pc := by
  cases hgo with
  | resizeNotStopped h hstop => rw [h] at hx; exact ⟨hx, hstop⟩
  | resizeNotDone h hdone => rw [h] at hx; exact ⟨hx.1, hdone, hx.2⟩
  | @shrink n h hn =>
    rw [h] at hx
    exact ⟨hx.2, hx.1, by omega, by omega⟩
  | @shrunk n i h hn =>
    rw [h] at hx
    obtain ⟨hrun, hpos, hle, hlt⟩ := hx
    exact ⟨hrun, hpos, by omega⟩
  | _ => exact placed_of_kind (by simp [CallerPc.kind])

theorem placed_step (ha : Alone s) (hok : ResizeAlone s a) (h : Moved kind s a t)
    (hs : ∀ y ∈ s.callers, Placed s y.pc) : ∀ y ∈ t.callers, Placed t y.pc := by
  have hmoved := h
  cases h with
  | push | enqueue | pushLock | notifyOne | notifyNobody | pushReturn | workerGoto | take
  | takeNone | finish | lock | unlock | wake =>
    have hw := hmoved.sameWiring rfl
    intro y hy
    rw [hw.callers] at hy
    exact (hs y hy).of_eq hw.isDone hw.isStop hw.threads hw.flags hw.cells
  | @call c x op h hpc =>
    refine placed_callers hs rfl ?_ rfl rfl rfl rfl rfl
    cases op with
    | resize n => exact hok.1
    | stop wait => exact placed_of_kind (by rw [Op.kind_entry]; simp [Op.kind])
    | clearQueue | pop => trivial
  | callerGoto h hgo =>
    have hpc := placed_goto (hs _ (List.mem_of_getElem? h)) hgo
    exact placed_callers hs rfl hpc rfl rfl rfl rfl rfl
  | remove h hpc _ =>
    refine placed_callers hs rfl (placed_of_kind ?_) rfl rfl rfl rfl rfl
    rw [(CallerPc.kind_of_removes hpc).1]
    exact CallerPc.not_resize_of_removes hpc
  | removeNone h hpc _ =>
    refine placed_callers hs rfl (placed_of_kind ?_) rfl rfl rfl rfl rfl
    rw [(CallerPc.kind_of_removes hpc).2]
    exact CallerPc.not_resize_of_removes hpc
  | @grow c x _ n h hpc hn =>
    have hx := hs x (List.mem_of_getElem? h)
    rw [hpc] at hx
    refine placed_resize ha h (by rw [hpc]; rfl) rfl ⟨hx.2, length_resizeTo, fun j w hj => ?_⟩
    intro hw
    have := (List.getElem?_eq_some_iff.mp (getElem?_resizeTo.mp hw).2).1
    omega
  | @growFlag c x _ n i h hpc hn hi =>
    have hx := hs x (List.mem_of_getElem? h)
    rw [hpc] at hx
    refine placed_resize ha h (by rw [hpc]; rfl) rfl ⟨hx.1, hx.2.1, hx.2.2, fun f hf => ?_⟩
    rw [List.getElem?_set_self hi] at hf
    obtain rfl := Option.some.inj (Option.some.inj hf)
    simp [State.flag]
  | @growThread c x _ n i f h hpc hf hi =>
    have hx := hs x (List.mem_of_getElem? h)
    rw [hpc] at hx
    obtain ⟨hrun, hlen, hnull, _⟩ := hx
    refine placed_resize ha h (by rw [hpc]; rfl) rfl
      ⟨hrun, by simpa using hlen, fun j w hj hw => ?_⟩
    rw [List.getElem?_set_ne (by omega)] at hw
    exact hnull j w (by omega) hw
  | @setFlag c x _ i f pc h hpc hf =>
    have hx := hs x (List.mem_of_getElem? h)
    rcases hpc with ⟨n, hpc, hn, rfl⟩ | ⟨n, hpc, hn, rfl⟩
    · rw [hpc] at hx
      exact placed_resize ha h (by rw [hpc]; rfl) rfl ⟨hx.1, hx.2.1, hn, hx.2.2.2⟩
    · exact placed_stop ha h (by rw [hpc]; rfl) rfl (by simp [CallerPc.kind])
  | @detach c x _ n i w y h hpc ht hw hj =>
    have hx := hs x (List.mem_of_getElem? h)
    rw [hpc] at hx
    obtain ⟨hrun, hpos, hle, hlt⟩ := hx
    refine placed_resize ha h (by rw [hpc]; rfl) rfl ⟨hrun, hpos, ?_, ?_⟩ <;>
      rw [sizeDec_of_pos (by omega)]
    · omega
    · exact Nat.lt_of_le_of_lt (Nat.sub_le i 1) hlt
  | shrinkLock h hpc _ | shrinkUnlock h hpc =>
    have hx := hs _ (List.mem_of_getElem? h)
    rw [hpc] at hx
    exact placed_callers hs rfl hx rfl rfl rfl rfl rfl
  | @notifyAll c x _ pc h hpc =>
    have hx := hs x (List.mem_of_getElem? h)
    refine placed_callers hs rfl ?_ rfl rfl rfl rfl rfl
    rcases hpc with ⟨n, hpc, rfl⟩ | ⟨hpc, rfl⟩
    · rw [hpc] at hx
      exact hx
    · trivial
  | shrinkErase h hpc => exact placed_resize ha h (by rw [hpc]; rfl) rfl trivial
  | setDone h hpc => exact placed_stop ha h (by rw [hpc]; rfl) rfl (by decide)
  | setStop h hpc => exact placed_stop ha h (by rw [hpc]; rfl) rfl (by decide)
  | join h hpc _ _ _ => exact placed_stop ha h (by rw [hpc]; rfl) rfl (by simp [CallerPc.kind])
  | joined h hpc _ _ => exact placed_stop ha h (by rw [hpc]; rfl) rfl (by simp [CallerPc.kind])
  | stopErase h hpc => exact placed_stop ha h (by rw [hpc]; rfl) rfl (by decide)

theorem reachable_placed (h : (machine kind).Reachable ResizeAlone s) :
    ∀ y ∈ s.callers, Placed s y.pc :=
  reachable_callers h (fun _ => trivial) fun hr hok hs hp =>
    placed_step (reachable_alone hr) hok (moved_of_step hs) hp

theorem wired_step (hp : ∀ y ∈ s.callers, Placed s y.pc) (h : Moved kind s a t) (hs : Wired s) :
    Wired t := by
  have hmoved := h
  cases h with
  | grow _ _ _ => exact hs.resize _ rfl rfl rfl rfl
  | shrinkErase _ _ => exact hs.resize _ rfl rfl rfl rfl
  | @growFlag c x _ n i h hpc hn hi =>
    have hx := hp x (List.mem_of_getElem? h)
    rw [hpc] at hx
    exact hs.growFlag (fun w => hx.2.2 i w le_rfl) rfl rfl rfl rfl
  | growThread _ _ hf _ => exact hs.growThread hf rfl rfl rfl rfl
  | setFlag _ _ _ => exact hs.frame hmoved rfl rfl (by simp)
  | stopErase _ _ =>
    refine ⟨fun j w hj => ?_, fun i j w hi => ?_, fun i j f hi => ?_, fun j f hj => ?_⟩
    · simp at hj
    · simp at hi
    · simp at hi
    · simp at hj
  | _ => exact hs.frame hmoved rfl rfl le_rfl

theorem reachable_wired (h : (machine kind).Reachable ResizeAlone s) : Wired s := by
  refine h.invariant (fun s₀ h₀ => ?_)
    fun hr _ hs hw => wired_step (reachable_placed hr) (moved_of_step hs) hw
  obtain ⟨n, rfl⟩ := h₀
  refine ⟨fun j w hj => ?_, fun i j w hi => ?_, fun i j f hi => ?_, fun j f hj => ?_⟩
  · simp [start] at hj
  · simp [start] at hi
  · simp [start] at hi
  · simp [start] at hj

end Placement

end ThreadPool
end TryAndLearn
