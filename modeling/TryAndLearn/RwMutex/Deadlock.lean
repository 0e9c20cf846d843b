import TryAndLearn.RwMutex.Progress
import TryAndLearn.RwMutex.SelfDeadlock

/-!
# All deadlocks of `RwMutex`

Threads may ask for locks while they hold others.  A thread that waits in a lock call
while it holds a lock waits forever: as long as it holds its lock, its predicate is false.
With `reader_` a thread that reads is never refused another read lock, and without it the
writer that it was refused for waits itself.

Nothing else blocks.  Whatever a scheduler does, all calls return and all locks are given
back if and only if no thread comes to wait while it holds a lock.
-/

namespace TryAndLearn
namespace RwThreads

/-- The thread waits in a lock call while it holds a lock. -/
def Thread.Blocked (th : Thread) : Prop :=
  (∃ mode, th.Waits mode) ∧ 0 < th.reads + th.writes

/-- Who waits to read while it reads would be refused. -/
def Refused (s : State) : Prop :=
  ∀ th ∈ s.threads, th.Waits .read → 0 < th.reads → s.mutex.readReady = false

section

variable {reader : Bool} {s t : State} {a : Act} {i : Nat} {th : Thread} {mode : Mode}

/-! ## A reader that has been refused -/

/-- Where nobody writes, nobody ends a call of `WriteLock`. -/
theorem writeCount_le (hc : Counted s) (hok : Matched s a) (hm : Moved s a t)
    (hnone : s.writerHolders = 0) : s.mutex.writeCount ≤ t.mutex.writeCount := by
  cases hm with
  | enterRead | recheckRead =>
    unfold State.waitRead
    split <;> exact Nat.le_refl _
  | enterWrite =>
    unfold State.waitWrite
    split <;> exact Nat.le_succ _
  | recheckWrite =>
    unfold State.waitWrite
    split <;> exact Nat.le_refl _
  | @readUnlock i th h _ =>
    obtain ⟨th', hth', hheld⟩ := hok
    obtain rfl := Option.some.inj (h.symm.trans hth')
    have hle := le_tally (w := Thread.reads) h
    have hread := hc.read
    rw [State.readerHolders] at hread
    rw [RwMutex.readUnlock_none_mutex (by omega)]
  | @writeUnlock i th h _ =>
    obtain ⟨th', hth', hheld⟩ := hok
    obtain rfl := Option.some.inj (h.symm.trans hth')
    have hle := le_tally (w := Thread.writes) h
    rw [State.writerHolders] at hnone
    omega
  | _ => exact Nat.le_refl _

/-- While a thread reads, a reader that is refused is so after the next step. -/
theorem not_readReady_next (hs : (machine reader).Reachable Matched s) (hok : Matched s a)
    (hstep : step s a = some t) (hi : s.threads[i]? = some th) (hheld : 0 < th.reads)
    (hready : s.mutex.readReady = false) : t.mutex.readReady = false := by
  have hwriting := not_writing_of_holder hs hi hheld
  have hmode := reachable_reader hs
  have hmode' := reachable_reader (hs.next hok hstep)
  have hle := writeCount_le (reachable_counted hs) hok (moved_of_step hstep)
    (writerHolders_of_holder (reachable_exclusive hs) hi hheld)
  cases reader with
  | true => simp [RwMutex.readReady, hmode, hwriting] at hready
  | false =>
    have hpos : s.mutex.writeCount ≠ 0 := by
      simpa [RwMutex.readReady, hmode] using hready
    have hne : t.mutex.writeCount ≠ 0 := by omega
    simp [RwMutex.readReady, hmode', hne]

theorem waits_of_unparkRead (h : th.unparkRead.Waits .read) : th.Waits .read := by
  unfold Thread.unparkRead at h
  split at h
  · rename_i hpc
    exact .inl hpc
  · exact h

theorem not_waits_afterUnlock (n : Notify) (r w : Nat) :
    ¬Thread.Waits .read { pc := afterUnlock n, reads := r, writes := w } := by
  cases n <;> simp [Thread.Waits, afterUnlock]

/-- A thread that waits to read did so before the step, or has just been refused. -/
theorem waits_prev {th' : Thread} (hm : Moved s a t) (hi : t.threads[i]? = some th')
    (hw : th'.Waits .read) :
    (∃ th, s.threads[i]? = some th ∧ th.Waits .read ∧ th.reads = th'.reads) ∨
      t.mutex.readReady = false := by
  have hset {j : Nat} {u' : Thread} (hi : (s.threads.set j u')[i]? = some th')
      (hown : ¬u'.Waits .read) :
      ∃ th, s.threads[i]? = some th ∧ th.Waits .read ∧ th.reads = th'.reads := by
    rcases getElem?_set_cases hi with ⟨rfl, rfl⟩ | ⟨_, hi⟩
    · exact absurd hw hown
    · exact ⟨th', hi, hw, rfl⟩
  have hrefuse {j : Nat} {u : Thread} {m : RwMutex}
      (hi : (s.waitRead j u m).threads[i]? = some th') :
      (∃ th, s.threads[i]? = some th ∧ th.Waits .read ∧ th.reads = th'.reads) ∨
        (s.waitRead j u m).mutex.readReady = false := by
    by_cases hready : m.readReady = true
    · rw [State.waitRead, if_pos hready] at hi
      exact .inl (hset hi (by simp [Thread.Waits]))
    · rw [State.waitRead, if_neg hready]
      exact .inr (Bool.eq_false_iff.mpr hready)
  cases hm with
  | callRead | callWrite | notifyNobody | wakeWriter =>
    exact .inl (hset hi (by simp [Thread.Waits]))
  | enterRead | recheckRead => exact hrefuse hi
  | enterWrite | recheckWrite =>
    unfold State.waitWrite at hi ⊢
    split at hi <;> exact .inl (hset hi (by simp [Thread.Waits]))
  | readUnlock | writeUnlock => exact .inl (hset hi (not_waits_afterUnlock _ _ _))
  | wakeReader hj hpc =>
    rcases getElem?_set_cases hi with ⟨rfl, rfl⟩ | ⟨_, hi⟩
    · exact .inl ⟨_, hj, .inl hpc, rfl⟩
    · exact .inl ⟨th', hi, hw, rfl⟩
  | notifyOne hj hpc hk hw' =>
    rcases getElem?_set_cases hi with ⟨rfl, rfl⟩ | ⟨_, hi⟩
    · simp [Thread.Waits] at hw
    · exact .inl (hset hi (by simp [Thread.Waits]))
  | notifyAll hj hpc =>
    rw [List.getElem?_map] at hi
    obtain ⟨v, hv, rfl⟩ := Option.map_eq_some_iff.mp hi
    rw [unparkRead_reads]
    have hv' := waits_of_unparkRead hw
    rcases getElem?_set_cases hv with ⟨rfl, rfl⟩ | ⟨_, hv⟩
    · simp [Thread.Waits] at hv'
    · exact .inl ⟨v, hv, hv', rfl⟩

theorem reachable_refused (h : (machine reader).Reachable Matched s) : Refused s := by
  refine h.invariant (I := Refused) ?_ ?_
  · rintro _ ⟨n, rfl⟩ th hth hw
    obtain rfl := List.eq_of_mem_replicate hth
    simp [Thread.Waits] at hw
  · intro s t a hs hok hstep ih th hth hw hheld
    obtain ⟨i, hi⟩ := List.getElem?_of_mem hth
    rcases waits_prev (moved_of_step hstep) hi hw with ⟨u, hu, huw, hreads⟩ | hready
    · rw [← hreads] at hheld
      exact not_readReady_next hs hok hstep hu hheld (ih u (List.mem_of_getElem? hu) huw hheld)
    · exact hready

/-! ## Blocked forever -/

/-- The predicate of the wait is false as long as the thread holds its lock. -/
theorem not_ready_of_held (hs : (machine reader).Reachable Matched s)
    (hi : s.threads[i]? = some th) (hw : th.Waits mode) (hheld : 0 < th.reads + th.writes) :
    mode.ready s.mutex = false := by
  have hc := reachable_counted hs
  by_cases hreads : 0 < th.reads
  · cases mode with
    | read => exact reachable_refused hs th (List.mem_of_getElem? hi) hw hreads
    | write => exact writeReady_of_holder hc hi hreads
  · have hle := le_tally (w := Thread.writes) hi
    have hwrite := hc.write
    have hwriting := hc.writing
    rw [State.writerHolders] at hwrite hwriting
    have hbusy : s.mutex.writing = true := by
      cases hb : s.mutex.writing
      · rw [hb, Bool.toNat_false] at hwriting
        omega
      · rfl
    have hne : s.mutex.writeCount ≠ 0 := by omega
    cases mode <;> simp [Mode.ready, RwMutex.readReady, RwMutex.writeReady, hbusy, hne]

theorem blocked_next (hs : (machine reader).Reachable Matched s) (hstep : step s a = some t)
    (h : ∃ th ∈ s.threads, th.Blocked) : ∃ th ∈ t.threads, th.Blocked := by
  obtain ⟨th, hth, ⟨mode, hw⟩, hheld⟩ := h
  obtain ⟨i, hi⟩ := List.getElem?_of_mem hth
  obtain ⟨th', hi', hreads, hwrites, hw'⟩ :=
    waits_next (moved_of_step hstep) hi hw (not_ready_of_held hs hi hw hheld)
  exact ⟨th', List.mem_of_getElem? hi', ⟨mode, hw'⟩, by rw [hreads, hwrites]; exact hheld⟩

theorem not_idle_of_blocked (h : ∃ th ∈ s.threads, th.Blocked) : ¬Idle s := by
  intro hidle
  obtain ⟨th, hth, _, hheld⟩ := h
  have := hidle th hth
  omega

/-- From an idle state nobody goes on without a new call. -/
theorem not_step_of_idle (hidle : Idle s) (hok : Goes s a) : step s a ≠ some t := by
  intro hstep
  have hpc {j : Nat} {u : Thread} {pc : Pc} (hu : s.threads[j]? = some u) (hpc : u.pc = pc) :
      pc = .outside := hpc.symm.trans (hidle u (List.mem_of_getElem? hu)).1
  cases moved_of_step hstep with
  | callRead | callWrite | wakeReader | wakeWriter => cases hok
  | enterRead hj hj' | enterWrite hj hj' | recheckRead hj hj' | recheckWrite hj hj'
  | notifyNobody hj hj' _ | notifyOne hj hj' _ _ | notifyAll hj hj' => cases hpc hj hj'
  | readUnlock hj hj' | writeUnlock hj hj' =>
    obtain ⟨u, hu, hheld⟩ := hok
    have := hidle u (List.mem_of_getElem? hu)
    omega

/-- When no new call is made, every call returns and every lock is given back whatever the
scheduler does, if and only if no thread comes to wait while it holds a lock. -/
theorem inevitable_idle_iff (h : (machine reader).Reachable Matched s) :
    (machine reader).Inevitable Goes Idle s ↔
      ∀ t, (machine reader).Run Goes s t → ∀ th ∈ t.threads, ¬th.Blocked := by
  have hreach : ∀ t, (machine reader).Run Goes s t → (machine reader).Reachable Matched t :=
    fun t hrun => h.run (hrun.mono fun _ _ hok => hok.single.matched)
  constructor
  · intro hidle t hrun th hth hblocked
    refine (hidle.run not_step_of_idle hrun).not_of_invariant
      (I := fun t => (machine reader).Reachable Matched t ∧ ∃ th ∈ t.threads, th.Blocked)
      (fun hI hok hstep => ?_) (fun _ hI => not_idle_of_blocked hI.2)
      ⟨hreach t hrun, th, hth, hblocked⟩
    exact ⟨hI.1.next hok.single.matched hstep, blocked_next hI.1 hstep hI.2⟩
  · intro hfree
    refine Machine.Inevitable.of_measure (I := (machine reader).Run Goes s) wellFounded_less
      State.work (fun {t} hrun hidle => ?_) (fun hrun _ hok hstep => ?_) .refl
    · rcases exists_step_or_parked (hreach t hrun) hidle with hstep | ⟨th, hth, hpc, hheld⟩
      · exact hstep
      · refine absurd ⟨?_, hheld⟩ (hfree t hrun th hth)
        exact hpc.elim (fun hpc => ⟨.read, .inl hpc⟩) fun hpc => ⟨.write, .inl hpc⟩
    · exact ⟨hrun.tail hok hstep, less_step hok (moved_of_step hstep)⟩

/-- Thread 0 reads and waits to write. -/
theorem inevitable_idle_iff_upgrading : ¬(machine true).Inevitable Goes Idle upgrading :=
  fun h => (inevitable_idle_iff upgrading_reachable).mp h upgrading .refl
    { pc := .parkedWrite, reads := 1 } List.mem_cons_self ⟨⟨.write, .inl rfl⟩, Nat.one_pos⟩

end

end RwThreads
end TryAndLearn
