import Mathlib.Data.List.Range
import TryAndLearn.ThreadPool.Drain
import TryAndLearn.ThreadPool.ResizeCall

/-!
# The stages of a `Resize`

`Stage` says for each program counter of a `Resize` what the vectors and the flags are by
then and what the call has done.  A growing `Resize` has appended workers to the old ones
(`Grown`), a shrinking one has set the flags from some entry up and detached the threads
from there or from the next one up (`Shrunk`).

The shrinking loop counts its `size_t` index down to `n_threads` and stops below it.
Below 0 there is nothing, so for `n_threads == 0` it does not stop at entry 0.
-/

namespace TryAndLearn
namespace ThreadPool

/-! ## A pool at rest -/

/-- No `Resize` and no `Stop` is under way and none of the latter was called. -/
structure AtRest (s : State) : Prop where
  running : s.Running
  callers : ∀ x ∈ s.callers, x.pc.kind = .other

/-- Every entry holds a worker that can be joined, with its flag, which is not set. -/
structure Whole (s : State) : Prop where
  wired : Wired s
  length : s.flags.length = s.threads.length
  entry : ∀ j, j < s.threads.length → ∃ w y, s.threads[j]? = some (some w) ∧
    s.workers[w]? = some y ∧ y.joinable = true ∧ s.flags[j]? = some (some y.flag) ∧
    s.flag y.flag = false

section Rest

variable {kind : QueueKind} {s t : State} {a : Act}

theorem length_step (h : Moved kind s a t) (hs : s.flags.length = s.threads.length) :
    t.flags.length = t.threads.length := by
  cases h with
  | grow _ _ _ | shrinkErase _ _ => exact length_resizeTo.trans length_resizeTo.symm
  | growFlag _ _ _ _ | growThread _ _ _ _ => simpa [State.goto, State.setCaller] using hs
  | stopErase _ _ => rfl
  | _ => exact hs

theorem reachable_length {ok : State → Act → Prop} (h : (machine kind).Reachable ok s) :
    s.flags.length = s.threads.length := by
  refine h.invariant (I := fun s => s.flags.length = s.threads.length) (fun s₀ h₀ => ?_)
    fun _ _ hs hI => length_step (moved_of_step hs) hI
  obtain ⟨n, rfl⟩ := h₀
  rfl

theorem AtRest.whole (hrest : AtRest s) (h : (machine kind).Reachable ResizeAlone s) :
    Whole s where
  wired := reachable_wired h
  length := reachable_length h
  entry j hj := by
    obtain ⟨w, y, hw, hy, hjoin, hunset⟩ := reachable_filled h j
      ⟨hj, fun x hx => by rwa [keep_of_kind (by rw [hrest.callers x hx]; decide)]⟩
    have hflag := hunset hrest.running.2
    obtain ⟨y', hy', hf⟩ := (reachable_wired h).slot j w hw
    obtain rfl := Option.some.inj (hy.symm.trans hy')
    refine ⟨w, y, hw, hy, hjoin.resolve_right fun hexit => ?_, hf, hflag⟩
    -- nobody has told it to leave
    rcases reachable_dismissed h w y hy (.inr hexit) with hdone | hset
    · exact absurd (hrest.running.1.symm.trans hdone) (by decide)
    · exact absurd (hflag.symm.trans hset) (by decide)

end Rest

/-! ## Growing and shrinking -/

/-- Entries have been filled up to `i`, their flags up to `e`. -/
structure Grown (s : State) (n i e : Nat) (t : State) : Prop where
  running : t.Running
  threads : t.threads = s.threads ++
    (List.range' s.workers.length (i - s.threads.length)).map some ++ List.replicate (n - i) none
  flags : t.flags = s.flags ++
    (List.range' s.cells.length (e - s.threads.length)).map some ++ List.replicate (n - e) none
  cells : t.cells = s.cells ++ List.replicate (e - s.threads.length) false
  workers : t.workers.length = s.workers.length + (i - s.threads.length)

/-- The flags of the entries from `k` up have been set, and the threads of those from `d`
up detached. -/
structure Shrunk (s : State) (k d : Nat) (t : State) : Prop where
  running : t.Running
  threads : t.threads = s.threads
  flags : t.flags = s.flags
  cells : t.cells.length = s.cells.length
  flag : ∀ (j f : Nat), s.flags[j]? = some (some f) → t.flag f = decide (k ≤ j)
  worker : ∀ (j w : Nat), s.threads[j]? = some (some w) → ∃ y, t.workers[w]? = some y ∧
    s.flags[j]? = some (some y.flag) ∧ y.joinable = decide (j < d)

/-- The pool is as the call found it. -/
structure Found (s t : State) : Prop
    extends shrunk : Shrunk s s.threads.length s.threads.length t where
  cells_eq : t.cells = s.cells
  workers : t.workers.length = s.workers.length

section Vectors

variable {s t u : State} {c n i e k d : Nat} {x : Caller}

/-- The next null entry of a growing vector is filled. -/
theorem set_extend {l : List (Option Nat)} {m q : Nat} (hl : l.length = m) (hm : m ≤ i)
    (hi : i < n) :
    (l ++ (List.range' q (i - m)).map some ++ List.replicate (n - i) none).set i
        (some (q + (i - m))) =
      l ++ (List.range' q (i + 1 - m)).map some ++ List.replicate (n - (i + 1)) none := by
  have hlen : (l ++ (List.range' q (i - m)).map some).length = i := by
    rw [List.length_append, List.length_map, List.length_range', hl]
    omega
  have hrest : n - i = n - (i + 1) + 1 := by omega
  have hnext : i + 1 - m = i - m + 1 := by omega
  rw [List.set_append_right i _ (by omega), hlen, Nat.sub_self, hrest, List.replicate_succ,
    List.set_cons_zero, hnext, List.range'_1_concat, List.map_append]
  simp

theorem length_extend {l : List (Option Nat)} {m q : Nat} (hl : l.length = m) (hm : m ≤ i)
    (hi : i ≤ n) :
    (l ++ (List.range' q (i - m)).map some ++ List.replicate (n - i) none).length = n := by
  simp only [List.length_append, List.length_map, List.length_range', List.length_replicate, hl]
  omega

theorem resizeTo_of_le {l : List (Option Nat)} (h : l.length ≤ n) :
    resizeTo l n = l ++ List.replicate (n - l.length) none := by
  rw [resizeTo, List.take_of_length_le h]

theorem SameVectors.running (h : SameVectors c t u) (hrun : t.Running) : u.Running := by
  unfold State.Running
  rw [h.isDone, h.isStop]
  exact hrun

/-- A step of somebody else. -/
theorem Grown.other (h : Grown s n i e t) (hsame : SameVectors c t u) : Grown s n i e u where
  running := hsame.running h.running
  threads := hsame.threads.trans h.threads
  flags := hsame.flags.trans h.flags
  cells := hsame.cells.trans h.cells
  workers := hsame.length.trans h.workers

theorem Shrunk.other (h : Shrunk s k d t) (hsame : SameVectors c t u) : Shrunk s k d u where
  running := hsame.running h.running
  threads := hsame.threads.trans h.threads
  flags := hsame.flags.trans h.flags
  cells := by rw [hsame.cells, h.cells]
  flag j f hj := by
    rw [State.flag, hsame.cells]
    exact h.flag j f hj
  worker j w hj := by
    obtain ⟨y, hy, hf, hjoin⟩ := h.worker j w hj
    obtain ⟨z, hz, hflag, hsame⟩ := hsame.workers w y hy
    exact ⟨z, hz, hflag ▸ hf, hsame.trans hjoin⟩

theorem Shrunk.goto (h : Shrunk s k d t) (c : Nat) (x : Caller) (pc : CallerPc) :
    Shrunk s k d (t.goto c x pc) :=
  ⟨h.running, h.threads, h.flags, h.cells, h.flag, h.worker⟩

theorem Found.other (h : Found s t) (hsame : SameVectors c t u) : Found s u :=
  ⟨h.shrunk.other hsame, hsame.cells.trans h.cells_eq, hsame.length.trans h.workers⟩

theorem Found.goto (h : Found s t) (c : Nat) (x : Caller) (pc : CallerPc) :
    Found s (t.goto c x pc) :=
  ⟨h.shrunk.goto c x pc, h.cells_eq, h.workers⟩

theorem Grown.goto (h : Grown s n i e t) (c : Nat) (x : Caller) (pc : CallerPc) :
    Grown s n i e (t.goto c x pc) :=
  ⟨h.running, h.threads, h.flags, h.cells, h.workers⟩

theorem Whole.found (hs : Whole s) (hrun : s.Running) : Found s s where
  running := hrun
  threads := rfl
  flags := rfl
  cells := rfl
  cells_eq := rfl
  workers := rfl
  flag j f hj := by
    have hlt : j < s.threads.length := hs.length ▸ (List.getElem?_eq_some_iff.mp hj).1
    obtain ⟨_, y, _, _, _, hf, hflag⟩ := hs.entry j hlt
    obtain rfl := Option.some.inj (Option.some.inj (hj.symm.trans hf))
    rw [hflag, decide_eq_false (by omega)]
  worker j w hj := by
    have hlt := (List.getElem?_eq_some_iff.mp hj).1
    obtain ⟨v, y, hv, hy, hjoin, hf, _⟩ := hs.entry j hlt
    obtain rfl := Option.some.inj (Option.some.inj (hj.symm.trans hv))
    exact ⟨y, hy, hf, by rw [hjoin, decide_eq_true hlt]⟩

/-- The vectors get their new length. -/
theorem Found.grow (h : Found s t) (hs : Whole s) (hn : s.threads.length ≤ n) (c : Nat)
    (x : Caller) (pc : CallerPc) :
    Grown s n s.threads.length s.threads.length { t.goto c x pc with
      threads := resizeTo t.threads n, flags := resizeTo t.flags n } where
  running := h.running
  threads := by
    simp only [h.threads, resizeTo_of_le hn]
    simp
  flags := by
    have hlen := hs.length
    simp only [h.flags, resizeTo_of_le (hlen ▸ hn : s.flags.length ≤ n)]
    simp [hlen]
  cells := by simpa [State.goto, State.setCaller] using h.cells_eq
  workers := by simpa [State.goto, State.setCaller] using h.workers

theorem Grown.flag (h : Grown s n i i t) (hs : Whole s) (hm : s.threads.length ≤ i)
    (hi : i < n) (c : Nat) (x : Caller) (pc : CallerPc) :
    Grown s n i (i + 1) { t.goto c x pc with
      flags := t.flags.set i (some t.cells.length), cells := t.cells ++ [false] } where
  running := h.running
  threads := h.threads
  flags := by
    have hlen : t.cells.length = s.cells.length + (i - s.threads.length) := by simp [h.cells]
    simp only [hlen, h.flags]
    exact set_extend hs.length hm hi
  cells := by
    have hnext : i + 1 - s.threads.length = i - s.threads.length + 1 := by omega
    simp only [h.cells, hnext, List.replicate_succ', List.append_assoc]
  workers := h.workers

theorem Grown.thread (h : Grown s n i (i + 1) t) (hm : s.threads.length ≤ i) (hi : i < n)
    (c : Nat) (x : Caller) (pc : CallerPc) (y : Worker) :
    Grown s n (i + 1) (i + 1) { t.goto c x pc with
      threads := t.threads.set i (some t.workers.length), workers := t.workers ++ [y] } where
  running := h.running
  threads := by
    simp only [h.workers, h.threads]
    exact set_extend rfl hm hi
  flags := h.flags
  cells := h.cells
  workers := by
    simp only [List.length_append, List.length_singleton, h.workers]
    omega

/-- The flag of entry `i` is set. -/
theorem Shrunk.store {f : Nat} (h : Shrunk s (i + 1) d t) (hs : Wired s)
    (hf : s.flags[i]? = some (some f)) (c : Nat) (x : Caller) (pc : CallerPc) :
    Shrunk s i d { t.goto c x pc with cells := t.cells.set f true } where
  running := h.running
  threads := h.threads
  flags := h.flags
  cells := by simpa using h.cells
  flag j g hj := by
    show (t.cells.set f true).getD g false = decide (i ≤ j)
    by_cases hfg : f = g
    · subst hfg
      obtain rfl := hs.flags i j f hf hj
      rw [flag_set_self (h.cells ▸ hs.cells i f hf), decide_eq_true (Nat.le_refl i)]
    · have hij : i ≠ j := by
        rintro rfl
        exact hfg (Option.some.inj (Option.some.inj (hf.symm.trans hj)))
      rw [flag_set_of_ne t hfg, h.flag j g hj]
      exact decide_eq_decide.mpr (by omega)
  worker := h.worker

/-- The thread of entry `i` is detached. -/
theorem Shrunk.detach {w : Nat} {y : Worker} (h : Shrunk s k (i + 1) t) (hs : Wired s)
    (hw : s.threads[i]? = some (some w)) (hy : t.workers[w]? = some y) (c : Nat) (x : Caller)
    (pc : CallerPc) :
    Shrunk s k i ((t.goto c x pc).setWorker w { y with joinable := false }) where
  running := h.running
  threads := h.threads
  flags := h.flags
  cells := h.cells
  flag := h.flag
  worker j v hj := by
    obtain ⟨z, hz, hf, hjoin⟩ := h.worker j v hj
    by_cases hvw : v = w
    · subst hvw
      obtain rfl := hs.threads i j v hw hj
      obtain rfl := Option.some.inj (hy.symm.trans hz)
      exact ⟨_, getElem?_set_of_some hy _, hf, (decide_eq_false (Nat.lt_irrefl i)).symm⟩
    · have hij : i ≠ j := by
        rintro rfl
        exact hvw (Option.some.inj (Option.some.inj (hj.symm.trans hw)))
      refine ⟨z, (List.getElem?_set_ne (Ne.symm hvw)).trans hz, hf, hjoin.trans ?_⟩
      exact decide_eq_decide.mpr (by omega)

end Vectors

/-! ## The stages of the call -/

namespace CallerPc

/-- The entry of `threads_` or `flags_` that the next step of a `Resize` reads or writes. -/
def index : CallerPc → Option Nat
  | .growFlag n i => if i < n then some i else none
  | .shrinkFlag n i => if n ≤ i then some i else none
  | .growThread _ i | .shrinkDetach _ i => some i
  | _ => none

def stores : CallerPc → Option Nat
  | .shrinkFlag n i => if n ≤ i then some i else none
  | _ => none

def detaches : CallerPc → Option Nat
  | .shrinkDetach _ i => some i
  | _ => none

def starts : CallerPc → Option Nat
  | .growThread _ i => some i
  | _ => none

end CallerPc

/-- What a call has done by its record, and in how many steps. -/
structure Did (log : List CallerPc) (stored detached started : List Nat) (steps : Nat) : Prop where
  stores : log.filterMap CallerPc.stores = stored
  detaches : log.filterMap CallerPc.detaches = detached
  starts : log.filterMap CallerPc.starts = started
  length : log.length = steps

/-- The entries of a vector of length `m` from `k` up, from the last one down. -/
def downFrom (m k : Nat) : List Nat := (List.range' k (m - k)).reverse

inductive Stage (s : State) (n : Nat) (t : State) (log : List CallerPc) : CallerPc → Prop
  | ifStop (h : Found s t) (hlog : Did log [] [] [] 0) : Stage s n t log (.resizeIfStop n)
  | ifDone (h : Found s t) (hlog : Did log [] [] [] 1) : Stage s n t log (.resizeIfDone n)
  | vectors (h : Found s t) (hlog : Did log [] [] [] 2) : Stage s n t log (.resizeVectors n)
  | growFlag {i : Nat} (hm : s.threads.length ≤ i) (hi : i ≤ n) (h : Grown s n i i t)
      (hlog : Did log [] [] (List.range' s.threads.length (i - s.threads.length))
        (2 * (i - s.threads.length) + 3)) : Stage s n t log (.growFlag n i)
  | growThread {i : Nat} (hm : s.threads.length ≤ i) (hi : i < n) (h : Grown s n i (i + 1) t)
      (hlog : Did log [] [] (List.range' s.threads.length (i - s.threads.length))
        (2 * (i - s.threads.length) + 4)) : Stage s n t log (.growThread n i)
  | grown (hm : s.threads.length ≤ n) (h : Grown s n n n t)
      (hlog : Did log [] [] (List.range' s.threads.length (n - s.threads.length))
        (2 * (n - s.threads.length) + 4)) : Stage s n t log .idle
  | shrinkFlag {i : Nat} (hm : n < s.threads.length) (hn : n ≤ i + 1) (hi : i < s.threads.length)
      (h : Shrunk s (i + 1) (i + 1) t)
      (hlog : Did log (downFrom s.threads.length (i + 1)) (downFrom s.threads.length (i + 1)) []
        (2 * (s.threads.length - (i + 1)) + 3)) : Stage s n t log (.shrinkFlag n i)
  | shrinkDetach {i : Nat} (hn : n ≤ i) (hi : i < s.threads.length) (h : Shrunk s i (i + 1) t)
      (hlog : Did log (downFrom s.threads.length i) (downFrom s.threads.length (i + 1)) []
        (2 * (s.threads.length - (i + 1)) + 4)) : Stage s n t log (.shrinkDetach n i)
  | shrinkLock (hn : 0 < n) (hm : n < s.threads.length) (h : Shrunk s n n t)
      (hlog : Did log (downFrom s.threads.length n) (downFrom s.threads.length n) []
        (2 * (s.threads.length - n) + 4)) : Stage s n t log (.shrinkLock n)
  | shrinkNotify (hn : 0 < n) (hm : n < s.threads.length) (h : Shrunk s n n t)
      (hlog : Did log (downFrom s.threads.length n) (downFrom s.threads.length n) []
        (2 * (s.threads.length - n) + 5)) : Stage s n t log (.shrinkNotify n)
  | shrinkUnlock (hn : 0 < n) (hm : n < s.threads.length) (h : Shrunk s n n t)
      (hlog : Did log (downFrom s.threads.length n) (downFrom s.threads.length n) []
        (2 * (s.threads.length - n) + 6)) : Stage s n t log (.shrinkUnlock n)
  | shrinkErase (hn : 0 < n) (hm : n < s.threads.length) (h : Shrunk s n n t)
      (hlog : Did log (downFrom s.threads.length n) (downFrom s.threads.length n) []
        (2 * (s.threads.length - n) + 7)) : Stage s n t log (.shrinkErase n)
  | shrunk {u : State} (hn : 0 < n) (hm : n < s.threads.length) (h : Shrunk s n n u)
      (ht : t.threads = resizeTo u.threads n) (hf : t.flags = resizeTo u.flags n)
      (hc : t.cells = u.cells) (hw : ∀ (w : Nat) (y : Worker), u.workers[w]? = some y →
        ∃ z, t.workers[w]? = some z ∧ z.flag = y.flag ∧ z.joinable = y.joinable)
      (hlog : Did log (downFrom s.threads.length n) (downFrom s.threads.length n) []
        (2 * (s.threads.length - n) + 8)) : Stage s n t log .idle

/-- The index of the shrinking loop was 0 and has been decremented. -/
def Wrapped (c : Nat) (t : State) : Prop :=
  ∃ x, t.callers[c]? = some x ∧ x.pc = .shrinkFlag 0 (sizeDec 0)

section Stages

variable {kind : QueueKind} {s t u : State} {c n i : Nat} {x : Caller} {log : List CallerPc}

theorem Did.push {stored detached started stored' detached' started' : List Nat} {k k' : Nat}
    (h : Did log stored detached started k) {pc : CallerPc}
    (hs : stored ++ pc.stores.toList = stored') (hd : detached ++ pc.detaches.toList = detached')
    (hst : started ++ pc.starts.toList = started') (hk : k + 1 = k') :
    Did (log ++ [pc]) stored' detached' started' k' := by
  have hsingle (f : CallerPc → Option Nat) : [pc].filterMap f = (f pc).toList := by
    cases hpc : f pc <;> simp [hpc]
  subst hs hd hst hk
  constructor
  · rw [List.filterMap_append, h.stores, hsingle]
  · rw [List.filterMap_append, h.detaches, hsingle]
  · rw [List.filterMap_append, h.starts, hsingle]
  · rw [List.length_append, h.length, List.length_singleton]

/-- A step that stores, detaches and starts nothing. -/
theorem Did.silent {stored detached started : List Nat} {k k' : Nat}
    (h : Did log stored detached started k) {pc : CallerPc} (hs : pc.stores = none)
    (hd : pc.detaches = none) (hst : pc.starts = none) (hk : k + 1 = k') :
    Did (log ++ [pc]) stored detached started k' :=
  h.push (by simp [hs]) (by simp [hd]) (by simp [hst]) hk

theorem downFrom_push {m : Nat} (hi : i < m) : downFrom m (i + 1) ++ [i] = downFrom m i := by
  have hlen : m - i = m - (i + 1) + 1 := by omega
  rw [downFrom, downFrom, hlen, List.range'_succ, List.reverse_cons]

theorem Stage.other (h : Stage s n t log x.pc) (hsame : SameVectors c t u) :
    Stage s n u log x.pc := by
  generalize x.pc = pc at h
  cases h with
  | ifStop h hlog => exact .ifStop (h.other hsame) hlog
  | ifDone h hlog => exact .ifDone (h.other hsame) hlog
  | vectors h hlog => exact .vectors (h.other hsame) hlog
  | growFlag hm hi h hlog => exact .growFlag hm hi (h.other hsame) hlog
  | growThread hm hi h hlog => exact .growThread hm hi (h.other hsame) hlog
  | grown hm h hlog => exact .grown hm (h.other hsame) hlog
  | shrinkFlag hm hn hi h hlog => exact .shrinkFlag hm hn hi (h.other hsame) hlog
  | shrinkDetach hn hi h hlog => exact .shrinkDetach hn hi (h.other hsame) hlog
  | shrinkLock hn hm h hlog => exact .shrinkLock hn hm (h.other hsame) hlog
  | shrinkNotify hn hm h hlog => exact .shrinkNotify hn hm (h.other hsame) hlog
  | shrinkUnlock hn hm h hlog => exact .shrinkUnlock hn hm (h.other hsame) hlog
  | shrinkErase hn hm h hlog => exact .shrinkErase hn hm (h.other hsame) hlog
  | shrunk hn hm h ht hf hc hw hlog =>
    refine .shrunk hn hm h (hsame.threads.trans ht) (hsame.flags.trans hf)
      (hsame.cells.trans hc) (fun w y hy => ?_) hlog
    obtain ⟨z, hz, hflag, hjoin⟩ := hw w y hy
    obtain ⟨z', hz', hflag', hjoin'⟩ := hsame.workers w z hz
    exact ⟨z', hz', hflag'.trans hflag, hjoin'.trans hjoin⟩

/-- The next step of the call exists and leads to the next stage. -/
def Advances (kind : QueueKind) (s : State) (n : Nat) (t : State) (log : List CallerPc) (c : Nat)
    (x : Caller) (choice : Nat) : Prop :=
  ∃ u pc, step kind t (.caller c choice) = some u ∧ u.callers[c]? = some { x with pc := pc } ∧
    Stage s n u (log ++ [x.pc]) pc

theorem advances_of_step (hx : t.callers[c]? = some x) {pc : CallerPc} (hpc : x.pc = pc)
    (hk : pc.kind = .resize) (choice : Nat)
    (h : ∃ u pc', t.resizeStep c x pc = some u ∧ u.callers[c]? = some { x with pc := pc' } ∧
      Stage s n u (log ++ [pc]) pc') : Advances kind s n t log c x choice := by
  subst hpc
  obtain ⟨u, pc', hu, hcaller, hstage⟩ := h
  exact ⟨u, pc', (step_resize hx hk).trans hu, hcaller, hstage⟩

theorem advances_ifStop (hx : t.callers[c]? = some x) (hpc : x.pc = .resizeIfStop n)
    (h : Found s t) (hlog : Did log [] [] [] 0) (choice : Nat) :
    Advances kind s n t log c x choice := by
  refine advances_of_step hx hpc rfl choice ?_
  simp only [State.resizeStep, h.running.2, Bool.false_eq_true, if_false]
  exact ⟨_, _, rfl, getElem?_set_of_some hx _, .ifDone (h.goto c x _)
    (hlog.silent rfl rfl rfl rfl)⟩

theorem advances_ifDone (hx : t.callers[c]? = some x) (hpc : x.pc = .resizeIfDone n)
    (h : Found s t) (hlog : Did log [] [] [] 1) (choice : Nat) :
    Advances kind s n t log c x choice := by
  refine advances_of_step hx hpc rfl choice ?_
  simp only [State.resizeStep, h.running.1, Bool.false_eq_true, if_false]
  exact ⟨_, _, rfl, getElem?_set_of_some hx _, .vectors (h.goto c x _)
    (hlog.silent rfl rfl rfl rfl)⟩

theorem advances_vectors (hs : Whole s) (hx : t.callers[c]? = some x)
    (hpc : x.pc = .resizeVectors n) (h : Found s t) (hlog : Did log [] [] [] 2) (choice : Nat) :
    Advances kind s n t log c x choice := by
  refine advances_of_step hx hpc rfl choice ?_
  simp only [State.resizeStep, h.threads]
  by_cases hn : s.threads.length ≤ n
  · rw [if_pos hn]
    refine ⟨_, _, rfl, getElem?_set_of_some hx _, .growFlag (Nat.le_refl _) hn ?_ ?_⟩
    · have hgrown := h.grow hs hn c x (.growFlag n s.threads.length)
      rwa [h.threads] at hgrown
    · rw [Nat.sub_self]
      exact hlog.silent rfl rfl rfl rfl
  · rw [if_neg hn]
    have hlast : s.threads.length - 1 + 1 = s.threads.length := by omega
    have hnone : downFrom s.threads.length s.threads.length = [] := by simp [downFrom]
    refine ⟨_, _, rfl, getElem?_set_of_some hx _,
      .shrinkFlag (by omega) (by omega) (by omega) ?_ ?_⟩
    · rw [hlast]
      exact h.shrunk.goto c x _
    · rw [hlast, hnone]
      exact hlog.silent rfl rfl rfl (by omega)

theorem advances_growFlag {i : Nat} (hs : Whole s) (hx : t.callers[c]? = some x)
    (hpc : x.pc = .growFlag n i) (hm : s.threads.length ≤ i) (hi : i ≤ n) (h : Grown s n i i t)
    (hlog : Did log [] [] (List.range' s.threads.length (i - s.threads.length))
      (2 * (i - s.threads.length) + 3)) (choice : Nat) :
    Advances kind s n t log c x choice := by
  refine advances_of_step hx hpc rfl choice ?_
  simp only [State.resizeStep]
  by_cases hlt : i < n
  · have hlen : i < t.flags.length := by
      rw [h.flags, length_extend hs.length hm hi]
      exact hlt
    rw [if_pos hlt, if_pos hlen]
    refine ⟨_, _, rfl, getElem?_set_of_some hx _, .growThread hm hlt (h.flag hs hm hlt c x _) ?_⟩
    exact hlog.silent rfl rfl rfl (by omega)
  · obtain rfl : i = n := by omega
    rw [if_neg hlt]
    refine ⟨_, _, rfl, getElem?_set_of_some hx _, .grown hm (h.goto c x _) ?_⟩
    exact hlog.silent rfl rfl rfl (by omega)

/-- The flag of the entry that is being filled is there. -/
theorem Grown.flag_entry {i : Nat} (h : Grown s n i (i + 1) t) (hs : Whole s)
    (hm : s.threads.length ≤ i) :
    t.flags[i]? = some (some (s.cells.length + (i - s.threads.length))) := by
  have hlen := hs.length
  have hnext : i + 1 - s.threads.length = i - s.threads.length + 1 := by omega
  have hlt : i < (s.flags ++ (List.range' s.cells.length
      (i + 1 - s.threads.length)).map some).length := by
    rw [List.length_append, List.length_map, List.length_range', hlen]
    omega
  rw [h.flags, List.getElem?_append_left hlt, List.getElem?_append_right (by omega), hlen,
    List.getElem?_map, hnext, List.getElem?_range' (by omega)]
  simp

theorem advances_growThread {i : Nat} (hs : Whole s) (hx : t.callers[c]? = some x)
    (hpc : x.pc = .growThread n i) (hm : s.threads.length ≤ i) (hi : i < n)
    (h : Grown s n i (i + 1) t)
    (hlog : Did log [] [] (List.range' s.threads.length (i - s.threads.length))
      (2 * (i - s.threads.length) + 4)) (choice : Nat) :
    Advances kind s n t log c x choice := by
  refine advances_of_step hx hpc rfl choice ?_
  have hlen : i < t.threads.length := by
    rw [h.threads, length_extend rfl hm (Nat.le_of_lt hi)]
    exact hi
  have hnext : i + 1 - s.threads.length = i - s.threads.length + 1 := by omega
  simp only [State.resizeStep, h.flag_entry hs hm, Option.bind_some, id_eq, if_pos hlen]
  refine ⟨_, _, rfl, getElem?_set_of_some hx _, .growFlag (by omega) hi (h.thread hm hi c x _ _) ?_⟩
  refine hlog.push rfl rfl ?_ (by omega)
  rw [hnext, List.range'_1_concat, Nat.add_sub_cancel' hm]
  rfl

theorem advances_shrinkFlag {i : Nat} (hs : Whole s) (hx : t.callers[c]? = some x)
    (hpc : x.pc = .shrinkFlag n i) (hm : n < s.threads.length) (hn : n ≤ i + 1)
    (hi : i < s.threads.length)
    (h : Shrunk s (i + 1) (i + 1) t)
    (hlog : Did log (downFrom s.threads.length (i + 1)) (downFrom s.threads.length (i + 1)) []
      (2 * (s.threads.length - (i + 1)) + 3)) (choice : Nat) :
    Advances kind s n t log c x choice := by
  refine advances_of_step hx hpc rfl choice ?_
  simp only [State.resizeStep]
  by_cases hle : n ≤ i
  · obtain ⟨_, y, _, _, _, hf, _⟩ := hs.entry i hi
    have hentry : (t.goto c x (.shrinkDetach n i)).flags[i]? = some (some y.flag) := by
      show t.flags[i]? = some (some y.flag)
      rw [h.flags, hf]
    simp only [if_pos hle, State.setFlag, hentry, Option.bind_some, Option.map_some]
    refine ⟨_, _, rfl, getElem?_set_of_some hx _, .shrinkDetach hle hi
      (h.store hs.wired hf c x _) ?_⟩
    refine hlog.push ?_ (List.append_nil _) rfl rfl
    simpa [CallerPc.stores, hle] using downFrom_push hi
  · obtain rfl : n = i + 1 := by omega
    rw [if_neg hle]
    refine ⟨_, _, rfl, getElem?_set_of_some hx _, .shrinkLock (Nat.succ_pos i) hm
      (h.goto c x _) ?_⟩
    exact hlog.silent (if_neg hle) rfl rfl rfl

/-- After entry 0 the index of the loop is not an index. -/
theorem advances_shrinkDetach {i : Nat} (hs : Whole s) (hx : t.callers[c]? = some x)
    (hpc : x.pc = .shrinkDetach n i) (hn : n ≤ i) (hi : i < s.threads.length)
    (h : Shrunk s i (i + 1) t)
    (hlog : Did log (downFrom s.threads.length i) (downFrom s.threads.length (i + 1)) []
      (2 * (s.threads.length - (i + 1)) + 4)) (choice : Nat) :
    Advances kind s n t log c x choice ∨
      (n = 0 ∧ ∃ u, step kind t (.caller c choice) = some u ∧ Wrapped c u) := by
  obtain ⟨w, _, hw, _⟩ := hs.entry i hi
  obtain ⟨y, hy, _, hjoin⟩ := h.worker i w hw
  have hthread : t.thread i = some w := by simp [State.thread, h.threads, hw]
  have hjoinable : y.joinable = true := by rw [hjoin, decide_eq_true (Nat.lt_succ_self i)]
  have hstep : step kind t (.caller c choice) =
      some ((t.goto c x (.shrinkFlag n (sizeDec i))).setWorker w { y with joinable := false }) := by
    rw [step_resize hx (by rw [hpc]; rfl), hpc]
    simp only [State.resizeStep, hthread, Option.bind_some, hy, hjoinable, if_true]
  have hset (pc : CallerPc) := getElem?_set_of_some hx { x with pc := pc }
  cases i with
  | zero =>
    obtain rfl : n = 0 := by omega
    exact .inr ⟨rfl, _, hstep, _, hset _, rfl⟩
  | succ i =>
    refine .inl ⟨_, _, hstep, hset _, ?_⟩
    rw [sizeDec_succ]
    refine .shrinkFlag (by omega) hn (by omega) (h.detach hs.wired hw hy c x _) ?_
    rw [hpc]
    exact hlog.push (List.append_nil _) (downFrom_push hi) rfl (by omega)

theorem advances_shrinkLock (hx : t.callers[c]? = some x) (hpc : x.pc = .shrinkLock n)
    (hn : 0 < n) (hm : n < s.threads.length) (h : Shrunk s n n t) (hfree : t.mutex = none)
    (hlog : Did log (downFrom s.threads.length n) (downFrom s.threads.length n) []
      (2 * (s.threads.length - n) + 4)) (choice : Nat) :
    Advances kind s n t log c x choice := by
  refine advances_of_step hx hpc rfl choice ?_
  simp only [State.resizeStep, if_pos hfree]
  refine ⟨_, _, rfl, getElem?_set_of_some hx _, .shrinkNotify hn hm ?_ ?_⟩
  · exact ⟨h.running, h.threads, h.flags, h.cells, h.flag, h.worker⟩
  · exact hlog.silent rfl rfl rfl rfl

theorem advances_shrinkNotify (hx : t.callers[c]? = some x) (hpc : x.pc = .shrinkNotify n)
    (hn : 0 < n) (hm : n < s.threads.length) (h : Shrunk s n n t)
    (hlog : Did log (downFrom s.threads.length n) (downFrom s.threads.length n) []
      (2 * (s.threads.length - n) + 5)) (choice : Nat) :
    Advances kind s n t log c x choice := by
  refine advances_of_step hx hpc rfl choice ?_
  simp only [State.resizeStep]
  refine ⟨_, _, rfl, getElem?_set_of_some hx _, .shrinkUnlock hn hm ?_ ?_⟩
  · refine ⟨h.running, h.threads, h.flags, h.cells, h.flag, fun j w hj => ?_⟩
    obtain ⟨y, hy, hf, hjoin⟩ := h.worker j w hj
    refine ⟨y.unpark, by simp [State.notifyAll, State.goto, State.setCaller, hy], ?_, ?_⟩
    · rwa [(workerStep_unpark t y).flag_eq]
    · unfold Worker.unpark
      split <;> exact hjoin
  · exact hlog.silent rfl rfl rfl rfl

theorem advances_shrinkUnlock (hx : t.callers[c]? = some x) (hpc : x.pc = .shrinkUnlock n)
    (hn : 0 < n) (hm : n < s.threads.length) (h : Shrunk s n n t)
    (hlog : Did log (downFrom s.threads.length n) (downFrom s.threads.length n) []
      (2 * (s.threads.length - n) + 6)) (choice : Nat) :
    Advances kind s n t log c x choice := by
  refine advances_of_step hx hpc rfl choice ?_
  simp only [State.resizeStep]
  refine ⟨_, _, rfl, getElem?_set_of_some hx _, .shrinkErase hn hm ?_ ?_⟩
  · exact ⟨h.running, h.threads, h.flags, h.cells, h.flag, h.worker⟩
  · exact hlog.silent rfl rfl rfl rfl

theorem advances_shrinkErase (hx : t.callers[c]? = some x) (hpc : x.pc = .shrinkErase n)
    (hn : 0 < n) (hm : n < s.threads.length) (h : Shrunk s n n t)
    (hlog : Did log (downFrom s.threads.length n) (downFrom s.threads.length n) []
      (2 * (s.threads.length - n) + 7)) (choice : Nat) :
    Advances kind s n t log c x choice := by
  refine advances_of_step hx hpc rfl choice ?_
  simp only [State.resizeStep]
  refine ⟨_, _, rfl, getElem?_set_of_some hx _, .shrunk hn hm h rfl rfl rfl ?_ ?_⟩
  · exact fun w y hy => ⟨y, hy, rfl, rfl⟩
  · exact hlog.silent rfl rfl rfl rfl

variable (kind) in
/-- At every stage but the last the call can go on, unless it waits for `mutex_`. -/
theorem stage_next (hs : Whole s) (hx : t.callers[c]? = some x) (h : Stage s n t log x.pc)
    (choice : Nat) :
    x.pc = .idle ∨ (x.pc = .shrinkLock n ∧ t.mutex ≠ none) ∨
      Advances kind s n t log c x choice ∨
      (n = 0 ∧ 0 < s.threads.length ∧
        ∃ u, step kind t (.caller c choice) = some u ∧ Wrapped c u) := by
  generalize hpc : x.pc = pc at h
  cases h with
  | grown | shrunk => exact .inl rfl
  | ifStop h hlog => exact .inr (.inr (.inl (advances_ifStop hx hpc h hlog choice)))
  | ifDone h hlog => exact .inr (.inr (.inl (advances_ifDone hx hpc h hlog choice)))
  | vectors h hlog => exact .inr (.inr (.inl (advances_vectors hs hx hpc h hlog choice)))
  | growFlag hm hi h hlog =>
    exact .inr (.inr (.inl (advances_growFlag hs hx hpc hm hi h hlog choice)))
  | growThread hm hi h hlog =>
    exact .inr (.inr (.inl (advances_growThread hs hx hpc hm hi h hlog choice)))
  | shrinkFlag hm hn hi h hlog =>
    exact .inr (.inr (.inl (advances_shrinkFlag hs hx hpc hm hn hi h hlog choice)))
  | shrinkDetach hn hi h hlog =>
    rcases advances_shrinkDetach hs hx hpc hn hi h hlog choice with hnext | ⟨hzero, hwrap⟩
    · exact .inr (.inr (.inl hnext))
    · exact .inr (.inr (.inr ⟨hzero, by omega, hwrap⟩))
  | shrinkLock hn hm h hlog =>
    by_cases hfree : t.mutex = none
    · exact .inr (.inr (.inl (advances_shrinkLock hx hpc hn hm h hfree hlog choice)))
    · exact .inr (.inl ⟨rfl, hfree⟩)
  | shrinkNotify hn hm h hlog =>
    exact .inr (.inr (.inl (advances_shrinkNotify hx hpc hn hm h hlog choice)))
  | shrinkUnlock hn hm h hlog =>
    exact .inr (.inr (.inl (advances_shrinkUnlock hx hpc hn hm h hlog choice)))
  | shrinkErase hn hm h hlog =>
    exact .inr (.inr (.inl (advances_shrinkErase hx hpc hn hm h hlog choice)))

end Stages

end ThreadPool
end TryAndLearn
