import TryAndLearn.Machine.Trace
import TryAndLearn.RwMutex.Exclusion

/-!
# Unlocks of what is not locked

A thread may call an unlock of `RwMutex` without holding the lock.  `ReadUnlock` looks at
`read_count_` and `reading_count_` before it decrements them, `WriteUnlock` decrements
`write_count_` unseen.

The guards of `ReadUnlock` are one by one.  A reader that waits in `ReadLock` is counted
in `read_count_` and not yet in `reading_count_`; an extra unlock beside it takes it out
of the first, and when it gets in the second exceeds the first.  What `read_count_` is
short of `reading_count_` and the waiting readers (`Missing`) is the number of such
unlocks, and nothing makes up for it.
-/

namespace TryAndLearn
namespace RwThreads

/-- The section in which a call changes the counters, with the mutex before and after it
if it is an unlock. -/
inductive CallEvent
  | lock
  | unlock (before after : RwMutex)
  deriving DecidableEq, Repr

/-- Each call has one such section. -/
def callEvents (s : State) (a : Act) (t : State) : List CallEvent :=
  match a with
  | .readLock _ | .writeLock _ => [.lock]
  | .readUnlock _ | .writeUnlock _ => [.unlock s.mutex t.mutex]
  | .callReadLock _ | .wakeReader _ | .recheckRead _ | .callWriteLock _ | .wakeWriter _
  | .recheckWrite _ | .notifyOne _ _ | .notifyAll _ => []

/-- No decrement has wrapped a counter, and no more readers are counted as reading than
are counted. -/
structure Intact (s : State) (log : List CallEvent) : Prop where
  unwrapped : ∀ m m', .unlock m m' ∈ log →
    m'.readCount ≤ m.readCount ∧ m'.readingCount ≤ m.readingCount ∧ m'.writeCount ≤ m.writeCount
  ordered : s.mutex.readingCount ≤ s.mutex.readCount

/-- An unlock finds what it takes off: `WriteUnlock` a writer, `ReadUnlock` a reader that
has got in, unless it finds no reader at all and returns. -/
def Covered (s : State) : Act → Prop
  | .readUnlock _ => s.mutex.readCount = 0 ∨ 0 < s.mutex.readingCount
  | .writeUnlock _ => 0 < s.mutex.writeCount
  | _ => True

instance (s : State) : (a : Act) → Decidable (Covered s a)
  | .readUnlock _ =>
    inferInstanceAs (Decidable (s.mutex.readCount = 0 ∨ 0 < s.mutex.readingCount))
  | .writeUnlock _ => inferInstanceAs (Decidable (0 < s.mutex.writeCount))
  | .callReadLock _ | .readLock _ | .callWriteLock _ | .writeLock _ | .recheckRead _
  | .recheckWrite _ | .wakeReader _ | .wakeWriter _ | .notifyOne _ _ | .notifyAll _ =>
    inferInstanceAs (Decidable True)

/-- `read_count_` is `d` short of the readers that are counted as reading or wait. -/
def Missing (d : Nat) (s : State) : Prop :=
  s.mutex.readCount + d = s.mutex.readingCount + s.readWaiters

/-- No decrement has wrapped a counter, and none exceeds the number of calls. -/
structure Unwrapped (s : State) (log : List CallEvent) : Prop where
  unlocks : ∀ m m', .unlock m m' ∈ log →
    m'.readCount ≤ m.readCount ∧ m'.readingCount ≤ m.readingCount ∧ m'.writeCount ≤ m.writeCount
  readCount_le : s.mutex.readCount ≤ log.length
  writeCount_le : s.mutex.writeCount ≤ log.length

section Step

variable {s t : State} {a : Act} {i d d' : Nat} {th th' : Thread} {m m' : RwMutex}

theorem readUnlock_none_of_zero (h : m.readCount = 0) : (m.readUnlock none none).mutex = m := by
  simp [RwMutex.readUnlock, h]

/-- No `ReadUnlock` wraps a counter. -/
theorem readUnlock_none_le (m : RwMutex) :
    (m.readUnlock none none).mutex.readCount ≤ m.readCount ∧
      (m.readUnlock none none).mutex.readingCount ≤ m.readingCount ∧
      (m.readUnlock none none).mutex.writeCount = m.writeCount := by
  by_cases hz : m.readCount = 0
  · rw [readUnlock_none_of_zero hz]
    exact ⟨Nat.le_refl _, Nat.le_refl _, rfl⟩
  · rw [RwMutex.readUnlock_none_mutex (by omega)]
    exact ⟨Nat.sub_le _ _, Nat.sub_le _ _, rfl⟩

/-- A step that changes what is missing from `d` to `d'`. -/
theorem Missing.set (hs : Missing d s) (h : s.threads[i]? = some th)
    (hb : m'.readCount + d' + s.mutex.readingCount + th.waitsRead =
      s.mutex.readCount + d + m'.readingCount + th'.waitsRead) :
    Missing d' { mutex := m', threads := s.threads.set i th' } := by
  have hw := tally_set h Thread.waitsRead th'
  unfold Missing State.readWaiters at *
  show m'.readCount + d' = m'.readingCount + tally Thread.waitsRead (s.threads.set i th')
  omega

theorem Missing.setThread (hs : Missing d s) (h : s.threads[i]? = some th) (pc : Pc)
    (hw : { th with pc := pc }.waitsRead = th.waitsRead) :
    Missing d (s.setThread i { th with pc := pc }) := by
  refine hs.set h ?_
  rw [hw]

theorem missing_waitRead (hs : Missing d s) (h : s.threads[i]? = some th)
    (hread : m.readCount + th.waitsRead = s.mutex.readCount + 1)
    (hreading : m.readingCount = s.mutex.readingCount) : Missing d (s.waitRead i th m) := by
  unfold State.waitRead
  split
  · refine hs.set h ?_
    simp only [RwMutex.readLockAdmit, Thread.waitsRead] at *
    omega
  · refine hs.set h ?_
    simp only [Thread.waitsRead] at *
    omega

theorem missing_waitWrite (hs : Missing d s) (h : s.threads[i]? = some th)
    (hread : m.readCount = s.mutex.readCount) (hreading : m.readingCount = s.mutex.readingCount)
    (hw : th.waitsRead = 0) : Missing d (s.waitWrite i th m) := by
  unfold State.waitWrite
  split <;> refine hs.set h ?_ <;> simp only [RwMutex.writeLockAdmit, Thread.waitsRead] at * <;>
    omega

/-- A `ReadUnlock` changes what is missing by what it takes off one counter only. -/
theorem missing_readUnlock (hs : Missing d s) (h : s.threads[i]? = some th)
    (hpc : th.pc = .outside) (n : Notify)
    (hb : (s.mutex.readUnlock none none).mutex.readCount + d' + s.mutex.readingCount =
      s.mutex.readCount + d + (s.mutex.readUnlock none none).mutex.readingCount) :
    Missing d' { mutex := (s.mutex.readUnlock none none).mutex,
                 threads := s.threads.set i
                   { th with pc := afterUnlock n, reads := th.reads - 1 } } := by
  have hth : th.waitsRead = 0 := by simp [Thread.waitsRead, hpc]
  have hth' := (afterUnlock_waits n (th.reads - 1) th.writes).1
  refine hs.set h ?_
  rw [hth, hth']
  exact hb

theorem missing_step (hok : Covered s a) (h : Moved s a t) (hs : Missing d s) : Missing d t := by
  cases h with
  | callRead h hpc | callWrite h hpc | wakeReader h hpc | wakeWriter h hpc | notifyNobody h hpc _ =>
    exact hs.setThread h _ (by simp [Thread.waitsRead, hpc])
  | enterRead h hpc =>
    exact missing_waitRead hs h (by simp [RwMutex.readLockEnter, Thread.waitsRead, hpc]) rfl
  | recheckRead h hpc => exact missing_waitRead hs h (by simp [Thread.waitsRead, hpc]) rfl
  | enterWrite h hpc | recheckWrite h hpc =>
    exact missing_waitWrite hs h rfl rfl (by simp [Thread.waitsRead, hpc])
  | @readUnlock i th h hpc =>
    refine missing_readUnlock hs h hpc _ ?_
    by_cases hz : s.mutex.readCount = 0
    · rw [readUnlock_none_of_zero hz]
    · have hpos := hok.resolve_left hz
      rw [RwMutex.readUnlock_none_mutex (by omega)]
      show s.mutex.readCount - 1 + d + _ = _ + d + (s.mutex.readingCount - 1)
      omega
  | @writeUnlock i th h hpc =>
    have hth : th.waitsRead = 0 := by simp [Thread.waitsRead, hpc]
    have hpc' := (afterUnlock_waits (s.mutex.writeUnlock none).notify th.reads
      (th.writes - 1)).1
    refine hs.set h ?_
    rw [hth, hpc', RwMutex.writeUnlock_none_mutex hok]
  | @notifyOne i j th w h hpc hj hw =>
    have hij : i ≠ j := by
      rintro rfl
      obtain rfl : th = w := Option.some.inj (h.symm.trans hj)
      exact absurd (hpc.symm.trans hw) (by decide)
    have hs' := hs.setThread h .outside (by simp [Thread.waitsRead, hpc])
    exact hs'.setThread (by simpa [State.setThread, hij] using hj) _
      (by simp [Thread.waitsRead, hw])
  | notifyAll h hpc =>
    have hs' := hs.setThread h .outside (by simp [Thread.waitsRead, hpc])
    unfold Missing State.readWaiters at hs' ⊢
    simp only [tally_map, unparkRead_waitsRead] at hs' ⊢
    exact hs'

/-- A `ReadUnlock` that finds only waiting readers leaves one more missing. -/
theorem missing_uncovered (hnot : ¬ Covered s (.readUnlock i)) (h : Moved s (.readUnlock i) t)
    (hs : Missing d s) : Missing (d + 1) t := by
  have hcounts : 0 < s.mutex.readCount ∧ s.mutex.readingCount = 0 := by
    unfold Covered at hnot
    omega
  cases h with
  | @readUnlock _ th h hpc =>
    refine missing_readUnlock hs h hpc _ ?_
    rw [RwMutex.readUnlock_none_mutex hcounts.1]
    show s.mutex.readCount - 1 + (d + 1) + _ = _ + d + (s.mutex.readingCount - 1)
    omega

theorem waitRead_counts (s : State) (i : Nat) (th : Thread) (m : RwMutex) :
    (s.waitRead i th m).mutex.readCount = m.readCount ∧
      (s.waitRead i th m).mutex.writeCount = m.writeCount := by
  unfold State.waitRead
  split <;> exact ⟨rfl, rfl⟩

theorem waitWrite_counts (s : State) (i : Nat) (th : Thread) (m : RwMutex) :
    (s.waitWrite i th m).mutex.readCount = m.readCount ∧
      (s.waitWrite i th m).mutex.writeCount = m.writeCount := by
  unfold State.waitWrite
  split <;> exact ⟨rfl, rfl⟩

/-- A call counts one reader or one writer at most. -/
theorem counts_step (hok : Covered s a) (h : Moved s a t) :
    t.mutex.readCount ≤ s.mutex.readCount + (callEvents s a t).length ∧
      t.mutex.writeCount ≤ s.mutex.writeCount + (callEvents s a t).length := by
  cases h with
  | @enterRead i th h hpc =>
    obtain ⟨hr, hw⟩ := waitRead_counts s i th (s.mutex.readLockEnter none).1
    rw [hr, hw]
    exact ⟨Nat.le_refl _, Nat.le_add_right _ _⟩
  | @enterWrite i th h hpc =>
    obtain ⟨hr, hw⟩ := waitWrite_counts s i th (s.mutex.writeLockEnter none).1
    rw [hr, hw]
    exact ⟨Nat.le_add_right _ _, Nat.le_refl _⟩
  | @recheckRead i th h hpc =>
    obtain ⟨hr, hw⟩ := waitRead_counts s i th s.mutex
    rw [hr, hw]
    exact ⟨Nat.le_refl _, Nat.le_refl _⟩
  | @recheckWrite i th h hpc =>
    obtain ⟨hr, hw⟩ := waitWrite_counts s i th s.mutex
    rw [hr, hw]
    exact ⟨Nat.le_refl _, Nat.le_refl _⟩
  | readUnlock h hpc =>
    obtain ⟨hr, _, hw⟩ := readUnlock_none_le s.mutex
    show (s.mutex.readUnlock none none).mutex.readCount ≤ _ + 1 ∧
      (s.mutex.readUnlock none none).mutex.writeCount ≤ _ + 1
    omega
  | writeUnlock h hpc =>
    simp only [RwMutex.writeUnlock_none_mutex hok]
    omega
  | _ => exact ⟨Nat.le_refl _, Nat.le_refl _⟩

/-- An unlock that finds what it takes off wraps nothing. -/
theorem unwrapped_step (hok : Covered s a) (h : Moved s a t)
    (hm : .unlock m m' ∈ callEvents s a t) :
    m'.readCount ≤ m.readCount ∧ m'.readingCount ≤ m.readingCount ∧
      m'.writeCount ≤ m.writeCount := by
  cases h with
  | readUnlock h hpc =>
    obtain ⟨rfl, rfl⟩ := CallEvent.unlock.inj (List.mem_singleton.mp hm)
    obtain ⟨hr, hreading, hw⟩ := readUnlock_none_le s.mutex
    exact ⟨hr, hreading, Nat.le_of_eq hw⟩
  | writeUnlock h hpc =>
    obtain ⟨rfl, rfl⟩ := CallEvent.unlock.inj (List.mem_singleton.mp hm)
    rw [RwMutex.writeUnlock_none_mutex hok]
    exact ⟨Nat.le_refl _, Nat.le_refl _, Nat.sub_le _ _⟩
  | enterRead _ _ | enterWrite _ _ => exact absurd (List.mem_singleton.mp hm) (by simp)
  | _ => exact absurd hm List.not_mem_nil

/-- A `WriteUnlock` that finds no writer wraps `write_count_`. -/
theorem wrapped_uncovered (hnot : ¬ Covered s (.writeUnlock i)) (h : Moved s (.writeUnlock i) t) :
    s.mutex.writeCount < t.mutex.writeCount := by
  have hzero : s.mutex.writeCount = 0 := by
    unfold Covered at hnot
    omega
  cases h with
  | writeUnlock h hpc =>
    have hwrap : (s.mutex.writeUnlock none).mutex.writeCount = UInt64.size - 1 := by
      simp [RwMutex.writeUnlock, RwMutex.dropCount, hzero, sizeDec]
    show s.mutex.writeCount < (s.mutex.writeUnlock none).mutex.writeCount
    rw [hzero, hwrap]
    decide

end Step

section Reach

variable {reader : Bool} {s t : State} {a : Act} {log : List CallEvent} {d : Nat}

theorem run_missing (h : (machine reader).Run Covered s t) (hs : Missing d s) : Missing d t :=
  h.invariant (fun _ hok hstep hI => missing_step hok (moved_of_step hstep) hI) hs

theorem reachable_missing (h : (machine reader).Reachable Covered s) : Missing 0 s := by
  obtain ⟨s₀, ⟨n, rfl⟩, hrun⟩ := h
  refine run_missing hrun ?_
  simp [Missing, start, State.readWaiters, Thread.waitsRead]

/-- Threads that unlock only what they have locked cover their unlocks. -/
theorem covered_of_matched (h : (machine reader).Reachable Matched s) (hok : Matched s a) :
    Covered s a := by
  have hc := reachable_counted h
  have hreading := hc.reading
  have hwrite := hc.write
  cases a with
  | readUnlock i =>
    obtain ⟨th, hth, hheld⟩ := hok
    have hle := le_tally (w := Thread.reads) hth
    right
    unfold State.readerHolders at hreading
    omega
  | writeUnlock i =>
    obtain ⟨th, hth, hheld⟩ := hok
    have hle := le_tally (w := Thread.writes) hth
    show 0 < s.mutex.writeCount
    unfold State.writerHolders at hwrite
    omega
  | _ => trivial

theorem reachable_unwrapped
    (h : ((machine reader).traced callEvents).Reachable (Machine.lift Covered) (s, log)) :
    Unwrapped s log := by
  refine h.traced_invariant (I := Unwrapped) ?_ ?_
  · intro s₀ h₀
    obtain ⟨n, rfl⟩ := h₀
    exact ⟨fun _ _ hm => absurd hm List.not_mem_nil, Nat.le_refl 0, Nat.le_refl 0⟩
  · intro s t log a _ hok hs hI
    have hmoved := moved_of_step hs
    have hread := hI.readCount_le
    have hwrite := hI.writeCount_le
    obtain ⟨hr', hw'⟩ := counts_step hok hmoved
    refine ⟨fun m m' hm => ?_, ?_, ?_⟩
    · rcases List.mem_append.mp hm with hm | hm
      · exact hI.unlocks m m' hm
      · exact unwrapped_step hok hmoved hm
    · rw [List.length_append]
      omega
    · rw [List.length_append]
      omega

end Reach

/-! ## A run that shows what is missing

Once no writer is counted every reader can get in.  The thread that has called the unlock
can bring that about by itself. -/

/-- Thread `i` is outside the mutex. -/
def Outside (i : Nat) (s : State) : Prop := ∃ th, s.threads[i]? = some th ∧ th.pc = .outside

section Show

variable {s t : State} {a : Act} {i : Nat} {th : Thread} {log : List CallEvent} (reader : Bool)

/-- An unlock has its notification before it. -/
theorem run_outside {n : Notify} (h : s.threads[i]? = some th) (hpc : th.pc = afterUnlock n) :
    ∃ u, (machine reader).Run Covered s u ∧ u.mutex = s.mutex ∧ Outside i u := by
  cases n with
  | nobody => exact ⟨s, .refl, rfl, th, h, hpc⟩
  | allReaders =>
    have hat : s.threadAt i .notifyReaders = some th := State.threadAt_eq_some.mpr ⟨h, hpc⟩
    have hi : ((s.threads.set i { th with pc := .outside }).map Thread.unparkRead)[i]? =
        some { th with pc := .outside } := by
      rw [List.getElem?_map, getElem?_set_of_some h]
      rfl
    exact ⟨_, .single (a := .notifyAll i) trivial (congrArg (Option.map _) hat), rfl, _, hi, rfl⟩
  | oneWriter =>
    obtain ⟨target, t, hs, hm, hi⟩ := exists_notifyOne h hpc
    exact ⟨t, .single (a := .notifyOne i target) trivial hs, hm, _, hi, rfl⟩

/-- One thread can unlock for all writers that are counted. -/
theorem run_unlockAll (h : Outside i s)
    (hwriting : s.mutex.writing = true → 0 < s.mutex.writeCount) :
    ∃ u, (machine reader).Run Covered s u ∧ u.mutex.writing = false ∧ u.mutex.writeCount = 0 := by
  induction hn : s.mutex.writeCount generalizing s with
  | zero =>
    refine ⟨s, .refl, Bool.eq_false_iff.mpr fun hw => ?_, hn⟩
    have := hwriting hw
    omega
  | succ n ih =>
    obtain ⟨th, hi, hpc⟩ := h
    have hpos : 0 < s.mutex.writeCount := by omega
    let m' := (s.mutex.writeUnlock none).mutex
    have hm' : m' = { s.mutex with writing := false, writeCount := n } := by
      simp only [m', RwMutex.writeUnlock_none_mutex hpos, hn, Nat.add_sub_cancel]
    let s' : State := ⟨m', s.threads.set i
      { th with pc := afterUnlock (s.mutex.writeUnlock none).notify, writes := th.writes - 1 }⟩
    have hs : step s (.writeUnlock i) = some s' := by
      rw [step, State.threadAt_eq_some.mpr ⟨hi, hpc⟩, Option.map_some]
    obtain ⟨u, hrun, hu, hout⟩ := run_outside (s := s') reader
      (getElem?_set_of_some hi _) rfl
    have hu' : u.mutex = { s.mutex with writing := false, writeCount := n } := hu.trans hm'
    obtain ⟨v, hrun', hv⟩ := ih hout (by simp [hu']) (by rw [hu'])
    exact ⟨v, (Machine.Run.single (a := .writeUnlock i) hpos hs).trans (hrun.trans hrun'), hv⟩

/-- A woken reader gets in when no writer is counted. -/
theorem run_recheck (hw : s.mutex.writing = false) (hc : s.mutex.writeCount = 0)
    (h : s.threads[i]? = some th) (hpc : th.pc = .wokenRead) :
    ∃ u, (machine reader).Run Covered s u ∧ u.mutex.writing = false ∧
      u.mutex.writeCount = 0 ∧ u.readWaiters < s.readWaiters := by
  have hready : s.mutex.readReady = true := by
    cases hr : s.mutex.reader <;> simp [RwMutex.readReady, hr, hw, hc]
  have hs : step s (.recheckRead i) = some (s.waitRead i th s.mutex) := by
    rw [step, State.threadAt_eq_some.mpr ⟨h, hpc⟩, Option.map_some]
  rw [State.waitRead, if_pos hready] at hs
  refine ⟨_, .single (a := .recheckRead i) trivial hs, hw, hc, ?_⟩
  have hset := tally_set h Thread.waitsRead { th with pc := .outside, reads := th.reads + 1 }
  simp only [Thread.waitsRead, hpc] at hset
  show tally Thread.waitsRead (s.threads.set i _) < tally Thread.waitsRead s.threads
  omega

/-- So does one that is parked, once it is woken. -/
theorem run_admit (hw : s.mutex.writing = false) (hc : s.mutex.writeCount = 0)
    (h : s.threads[i]? = some th) (hwaits : 0 < th.waitsRead) :
    ∃ u, (machine reader).Run Covered s u ∧ u.mutex.writing = false ∧
      u.mutex.writeCount = 0 ∧ u.readWaiters < s.readWaiters := by
  cases hpc : th.pc with
  | wokenRead => exact run_recheck reader hw hc h hpc
  | parkedRead =>
    have hs : step s (.wakeReader i) = some (s.setThread i { th with pc := .wokenRead }) := by
      rw [step, State.threadAt_eq_some.mpr ⟨h, hpc⟩, Option.map_some]
    have hall : (s.setThread i { th with pc := .wokenRead }).readWaiters = s.readWaiters :=
      tally_set_of_eq h (by simp [Thread.waitsRead, hpc])
    obtain ⟨u, hrun, hw', hc', hlt⟩ :=
      run_recheck reader (s := s.setThread i { th with pc := .wokenRead }) hw hc
        (getElem?_set_of_some h _) rfl
    exact ⟨u, (Machine.Run.single (a := .wakeReader i) trivial hs).trans hrun, hw', hc',
      hall ▸ hlt⟩
  | _ => simp [Thread.waitsRead, hpc] at hwaits

theorem run_admitAll (hw : s.mutex.writing = false) (hc : s.mutex.writeCount = 0) :
    ∃ u, (machine reader).Run Covered s u ∧ u.readWaiters = 0 := by
  induction hn : s.readWaiters using Nat.strong_induction_on generalizing s with
  | h n ih =>
    rcases Nat.eq_zero_or_pos n with hz | hpos
    · exact ⟨s, .refl, hn.trans hz⟩
    · obtain ⟨i, th, hi, hwaits⟩ := exists_of_tally_pos (hn ▸ hpos)
      obtain ⟨u, hrun, hw', hc', hlt⟩ := run_admit reader hw hc hi hwaits
      obtain ⟨v, hrun', hv⟩ := ih u.readWaiters (hn ▸ hlt) hw' hc' rfl
      exact ⟨v, hrun.trans hrun', hv⟩

/-- What a `ReadUnlock` has taken from the waiting readers. -/
theorem Missing.shows {d : Nat} (hs : Missing (d + 1) s) (hnone : s.readWaiters = 0) :
    s.mutex.readCount < s.mutex.readingCount := by
  unfold Missing at hs
  omega

theorem readUnlock_leaves (h : Moved s (.readUnlock i) t) :
    ∃ th n, t.threads[i]? = some th ∧ th.pc = afterUnlock n ∧
      t.mutex.writing = s.mutex.writing ∧ t.mutex.writeCount = s.mutex.writeCount := by
  cases h with
  | readUnlock h hpc =>
    refine ⟨_, _, getElem?_set_of_some h _, rfl, ?_⟩
    by_cases hz : s.mutex.readCount = 0
    · simp only [readUnlock_none_of_zero hz, and_self]
    · simp only [RwMutex.readUnlock_none_mutex (Nat.pos_of_ne_zero hz), and_self]

variable {reader}

/-- The first unlock that does not find what it takes off wraps a counter, or leaves
`reading_count_` above `read_count_` as soon as no reader waits.  If nobody has unlocked
behind a writer's back, that is still to come. -/
theorem uncovered_breaks (h : (machine reader).Reachable Covered s) (hs : step s a = some t)
    (hnot : ¬ Covered s a) :
    ¬ Intact t (log ++ callEvents s a t) ∨
      (∀ u, (machine reader).Run Covered t u → u.readWaiters = 0 →
        u.mutex.readCount < u.mutex.readingCount) ∧
      ((s.mutex.writing = true → 0 < s.mutex.writeCount) →
        ∃ u, (machine reader).Run Covered t u ∧ u.mutex.readCount < u.mutex.readingCount) := by
  have hmoved := moved_of_step hs
  cases a with
  | readUnlock i =>
    have hmissing := missing_uncovered hnot hmoved (reachable_missing h)
    refine .inr ⟨fun u hrun hnone => (run_missing hrun hmissing).shows hnone, fun hwriting => ?_⟩
    obtain ⟨th, n, hi, hpc, hw, hc⟩ := readUnlock_leaves hmoved
    obtain ⟨u, hrun, hu, hout⟩ := run_outside reader hi hpc
    obtain ⟨v, hrun', hfree, hnone⟩ := run_unlockAll reader hout (by rwa [hu, hw, hc])
    obtain ⟨w, hrun'', hadmitted⟩ := run_admitAll reader hfree hnone
    have hall := hrun.trans (hrun'.trans hrun'')
    exact ⟨w, hall, (run_missing hall hmissing).shows hadmitted⟩
  | writeUnlock i =>
    refine .inl fun hintact => ?_
    have hwrap := wrapped_uncovered hnot hmoved
    have hle := (hintact.unwrapped s.mutex t.mutex
      (List.mem_append_right _ List.mem_cons_self)).2.2
    omega
  | _ => exact absurd trivial hnot

end Show

/-- While every unlock finds what it takes off, the counters survive any mixture of calls,
and none of them exceeds the number of calls.  The first other unlock breaks them: at once,
or as soon as no reader waits, and that can be brought about if nobody has unlocked behind
a writer's back. -/
theorem counters_survive (reader : Bool) {s : State} {log : List CallEvent}
    (h : ((machine reader).traced callEvents).Reachable (Machine.lift Covered) (s, log)) :
    Intact s log ∧ s.mutex.readCount ≤ log.length ∧ s.mutex.writeCount ≤ log.length ∧
      ∀ a t, step s a = some t → ¬ Covered s a →
        ¬ Intact t (log ++ callEvents s a t) ∨
          (∀ u, (machine reader).Run Covered t u → u.readWaiters = 0 →
            u.mutex.readCount < u.mutex.readingCount) ∧
          ((s.mutex.writing = true → 0 < s.mutex.writeCount) →
            ∃ u, (machine reader).Run Covered t u ∧
              u.mutex.readCount < u.mutex.readingCount) := by
  have hr := Machine.Reachable.untraced h
  have hmissing := reachable_missing hr
  have hcounts := reachable_unwrapped h
  refine ⟨⟨hcounts.unlocks, ?_⟩, hcounts.readCount_le, hcounts.writeCount_le,
    fun a t hs hnot => uncovered_breaks hr hs hnot⟩
  unfold Missing at hmissing
  omega

/-- A thread that holds nothing unlocks for the thread that reads, and that thread
unlocks as well. -/
theorem counters_survive_stranger :
    Intact { mutex := {}, threads := [{ reads := 1 }, {}] }
      [.lock, .unlock { readCount := 1, readingCount := 1 } {}] :=
  (counters_survive false <|
    Machine.reachable_of_exec (s := (start false 2, []))
      [.callReadLock 0, .readLock 0, .readUnlock 1] ⟨⟨2, rfl⟩, rfl⟩ (by decide)).1

/-- `WriteUnlock` of a mutex that nobody has locked. -/
def unlockedFresh : State :=
  { mutex := { reader := true, writeCount := UInt64.size - 1 },
    threads := [{ pc := .notifyWriter }] }

/-- `ReadUnlock` while a reader waits for a writer, which unlocks then and lets the reader
in. -/
def unlockedBeside : State :=
  { mutex := { readingCount := 1 },
    threads := [{ reads := 1 }, {}, { pc := .notifyWriter }] }

theorem counters_survive_fails :
    (((machine true).traced callEvents).Reachable (Machine.lift Machine.anyStep)
        (unlockedFresh, [.unlock { reader := true } unlockedFresh.mutex]) ∧
      ¬ Intact unlockedFresh [.unlock { reader := true } unlockedFresh.mutex]) ∧
    ∃ log, ((machine false).traced callEvents).Reachable (Machine.lift Machine.anyStep)
        (unlockedBeside, log) ∧ ¬ Intact unlockedBeside log := by
  refine ⟨⟨?_, fun hi => ?_⟩, [.lock, .lock,
    .unlock { readCount := 1, writeCount := 1, writing := true }
      { writeCount := 1, writing := true },
    .unlock { writeCount := 1, writing := true } {}], ?_, fun hi => ?_⟩
  · exact Machine.reachable_of_exec (s := (start true 1, [])) [.writeUnlock 0]
      ⟨⟨1, rfl⟩, rfl⟩ (by decide)
  · have := (hi.unwrapped _ _ List.mem_cons_self).2.2
    exact absurd this (by decide)
  · exact Machine.reachable_of_exec (s := (start false 3, []))
      [.callWriteLock 1, .writeLock 1, .callReadLock 0, .readLock 0, .readUnlock 2, .writeUnlock 1,
        .notifyAll 1, .recheckRead 0]
      ⟨⟨3, rfl⟩, rfl⟩ (by decide)
  · exact absurd hi.ordered (by decide)

end RwThreads
end TryAndLearn
