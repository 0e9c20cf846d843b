import TryAndLearn.Machine.Exclusion
import TryAndLearn.RwMutex.Threads

/-!
# Mutual exclusion of `RwMutex`

The counters of the mutex are totals over the threads' program points
(`Counted`).  A step moves one thread and one mutex, so it keeps every total as
soon as it is balanced: what it adds to a counter it adds to the thread.

With the totals in hand, both admission predicates say that the abstract lock of
`Holders` may be acquired, and the thread system simulates it.
-/

namespace TryAndLearn
namespace RwThreads

namespace State

/-- The locks held for reading.  A thread that has called `ReadLock` twice holds
two. -/
def readerHolders (s : State) : Nat := tally Thread.reads s.threads

def writerHolders (s : State) : Nat := tally Thread.writes s.threads

/-- The threads waiting in `ReadLock`, parked or woken. -/
def readWaiters (s : State) : Nat := tally Thread.waitsRead s.threads

def writeWaiters (s : State) : Nat := tally Thread.waitsWrite s.threads

def holders (s : State) : Holders := ⟨s.readerHolders, s.writerHolders⟩

end State

/-- The counters of the mutex are the totals over the threads. -/
structure Counted (s : State) : Prop where
  reading : s.mutex.readingCount = s.readerHolders
  read : s.mutex.readCount = s.readerHolders + s.readWaiters
  write : s.mutex.writeCount = s.writerHolders + s.writeWaiters
  writing : s.mutex.writing.toNat = s.writerHolders

/-- A step from `m` and `th` to `m'` and `th'` adds to each counter what it adds to
the thread. -/
structure Balanced (m m' : RwMutex) (th th' : Thread) : Prop where
  reading : m'.readingCount + th.reads = m.readingCount + th'.reads
  read : m'.readCount + (th.reads + th.waitsRead) = m.readCount + (th'.reads + th'.waitsRead)
  write :
    m'.writeCount + (th.writes + th.waitsWrite) = m.writeCount + (th'.writes + th'.waitsWrite)
  writing : m'.writing.toNat + th.writes = m.writing.toNat + th'.writes

theorem Counted.set {s : State} {i : Nat} {th th' : Thread} {m' : RwMutex} (hc : Counted s)
    (h : s.threads[i]? = some th) (hb : Balanced s.mutex m' th th') :
    Counted { mutex := m', threads := s.threads.set i th' } := by
  have hr := tally_set h Thread.reads th'
  have hw := tally_set h Thread.writes th'
  have hrw := tally_set h Thread.waitsRead th'
  have hww := tally_set h Thread.waitsWrite th'
  obtain ⟨h1, h2, h3, h4⟩ := hc
  obtain ⟨b1, b2, b3, b4⟩ := hb
  constructor <;>
    simp only [State.readerHolders, State.writerHolders, State.readWaiters,
      State.writeWaiters] at * <;>
    omega

/-- A step that leaves the mutex and the thread's locks alone. -/
theorem Counted.setThread {s : State} {i : Nat} {th : Thread} (hc : Counted s)
    (h : s.threads[i]? = some th) (pc : Pc)
    (hr : { th with pc := pc }.waitsRead = th.waitsRead)
    (hw : { th with pc := pc }.waitsWrite = th.waitsWrite) :
    Counted (s.setThread i { th with pc := pc }) :=
  hc.set h ⟨rfl, by rw [hr], by rw [hw], rfl⟩

/-- The end of `ReadLock` is balanced whether the thread gets in or parks, once the
mutex already counts it among the waiting readers. -/
theorem counted_waitRead {s : State} {i : Nat} {th : Thread} {m : RwMutex} (hc : Counted s)
    (h : s.threads[i]? = some th) (hread : m.readCount + th.waitsRead = s.mutex.readCount + 1)
    (hrest : m = { s.mutex with readCount := m.readCount }) (hw : th.waitsWrite = 0) :
    Counted (s.waitRead i th m) := by
  unfold State.waitRead
  rw [hrest] at hread ⊢
  split
  · refine hc.set h ⟨?_, ?_, ?_, rfl⟩ <;>
      simp only [RwMutex.readLockAdmit, Thread.waitsRead, Thread.waitsWrite] at * <;> omega
  · refine hc.set h ⟨rfl, ?_, ?_, rfl⟩ <;>
      simp only [Thread.waitsRead, Thread.waitsWrite] at * <;> omega

theorem counted_waitWrite {s : State} {i : Nat} {th : Thread} {m : RwMutex} (hc : Counted s)
    (h : s.threads[i]? = some th)
    (hwrite : m.writeCount + th.waitsWrite = s.mutex.writeCount + 1)
    (hrest : m = { s.mutex with writeCount := m.writeCount }) (hr : th.waitsRead = 0) :
    Counted (s.waitWrite i th m) := by
  unfold State.waitWrite
  rw [hrest] at hwrite ⊢
  split
  · rename_i hready
    have hfree : s.mutex.writing = false := by
      simp only [RwMutex.writeReady, Bool.and_eq_true, Bool.not_eq_true'] at hready
      exact hready.2
    refine hc.set h ⟨rfl, ?_, ?_, ?_⟩ <;>
      simp only [RwMutex.writeLockAdmit, Thread.waitsRead, Thread.waitsWrite, hfree,
        Bool.toNat_true, Bool.toNat_false] at * <;> omega
  · refine hc.set h ⟨rfl, ?_, ?_, rfl⟩ <;>
      simp only [Thread.waitsRead, Thread.waitsWrite] at * <;> omega

@[simp] theorem unparkRead_reads (th : Thread) : th.unparkRead.reads = th.reads := by
  unfold Thread.unparkRead
  split <;> rfl

@[simp] theorem unparkRead_writes (th : Thread) : th.unparkRead.writes = th.writes := by
  unfold Thread.unparkRead
  split <;> rfl

@[simp] theorem unparkRead_waitsRead (th : Thread) : th.unparkRead.waitsRead = th.waitsRead := by
  unfold Thread.unparkRead
  split
  · rename_i h
    simp [Thread.waitsRead, h]
  · rfl

@[simp] theorem unparkRead_waitsWrite (th : Thread) :
    th.unparkRead.waitsWrite = th.waitsWrite := by
  unfold Thread.unparkRead
  split
  · rename_i h
    simp [Thread.waitsWrite, h]
  · rfl

theorem Counted.unpark {s : State} (hc : Counted s) :
    Counted { s with threads := s.threads.map Thread.unparkRead } := by
  obtain ⟨h1, h2, h3, h4⟩ := hc
  constructor <;>
    simp only [State.readerHolders, State.writerHolders, State.readWaiters,
      State.writeWaiters, tally_map, unparkRead_reads, unparkRead_writes, unparkRead_waitsRead,
      unparkRead_waitsWrite] at * <;>
    assumption

/-- After an unlock the thread waits for nothing. -/
theorem afterUnlock_waits (n : Notify) (r w : Nat) :
    (Thread.mk (afterUnlock n) r w).waitsRead = 0 ∧
      (Thread.mk (afterUnlock n) r w).waitsWrite = 0 := by
  cases n <;> exact ⟨rfl, rfl⟩

theorem counted_readUnlock {s : State} {i : Nat} {th : Thread} (hc : Counted s)
    (h : s.threads[i]? = some th) (hpc : th.pc = .outside) (hheld : 0 < th.reads) (n : Notify) :
    Counted
      { mutex := (s.mutex.readUnlock none none).mutex,
        threads := s.threads.set i { th with pc := afterUnlock n, reads := th.reads - 1 } } := by
  have hle := le_tally (w := Thread.reads) h
  have h1 := hc.reading
  have h2 := hc.read
  obtain ⟨ha, hb⟩ := afterUnlock_waits n (th.reads - 1) th.writes
  have hth : th.waitsRead = 0 ∧ th.waitsWrite = 0 := by
    simp [Thread.waitsRead, Thread.waitsWrite, hpc]
  simp only [State.readerHolders] at h1 h2
  rw [RwMutex.readUnlock_none_mutex (by omega)]
  refine hc.set h ⟨?_, ?_, ?_, rfl⟩ <;> simp only <;> omega

theorem counted_writeUnlock {s : State} {i : Nat} {th : Thread} (hc : Counted s)
    (h : s.threads[i]? = some th) (hpc : th.pc = .outside) (hheld : 0 < th.writes) (n : Notify) :
    Counted { mutex := (s.mutex.writeUnlock none).mutex,
              threads := s.threads.set i
                { th with pc := afterUnlock n, writes := th.writes - 1 } } := by
  have hle := le_tally (w := Thread.writes) h
  have h3 := hc.write
  have h4 := hc.writing
  obtain ⟨ha, hb⟩ := afterUnlock_waits n th.reads (th.writes - 1)
  have hth : th.waitsRead = 0 ∧ th.waitsWrite = 0 := by
    simp [Thread.waitsRead, Thread.waitsWrite, hpc]
  have hone := Bool.toNat_le s.mutex.writing
  simp only [State.writerHolders] at h3 h4
  rw [RwMutex.writeUnlock_none_mutex (by omega)]
  refine hc.set h ⟨rfl, ?_, ?_, ?_⟩ <;> simp only [Bool.toNat_false] <;> omega

theorem counted_step {s t : State} {a : Act} (hok : Matched s a) (h : Moved s a t)
    (hc : Counted s) : Counted t := by
  cases h with
  | callRead h hpc | callWrite h hpc | wakeReader h hpc | wakeWriter h hpc | notifyNobody h hpc _ =>
    exact hc.setThread h _ (by simp [Thread.waitsRead, hpc]) (by simp [Thread.waitsWrite, hpc])
  | enterRead h hpc =>
    exact counted_waitRead hc h (by simp [RwMutex.readLockEnter, Thread.waitsRead, hpc]) rfl
      (by simp [Thread.waitsWrite, hpc])
  | recheckRead h hpc =>
    exact counted_waitRead hc h (by simp [Thread.waitsRead, hpc]) rfl
      (by simp [Thread.waitsWrite, hpc])
  | enterWrite h hpc =>
    exact counted_waitWrite hc h (by simp [RwMutex.writeLockEnter, Thread.waitsWrite, hpc]) rfl
      (by simp [Thread.waitsRead, hpc])
  | recheckWrite h hpc =>
    exact counted_waitWrite hc h (by simp [Thread.waitsWrite, hpc]) rfl
      (by simp [Thread.waitsRead, hpc])
  | @readUnlock i th h hpc =>
    obtain ⟨th', hth', hheld⟩ := hok
    obtain rfl : th = th' := Option.some.inj (h.symm.trans hth')
    exact counted_readUnlock hc h hpc hheld _
  | @writeUnlock i th h hpc =>
    obtain ⟨th', hth', hheld⟩ := hok
    obtain rfl : th = th' := Option.some.inj (h.symm.trans hth')
    exact counted_writeUnlock hc h hpc hheld _
  | @notifyOne i j th w h hpc hj hw =>
    have hij : i ≠ j := by
      rintro rfl
      obtain rfl : th = w := Option.some.inj (h.symm.trans hj)
      exact absurd (hpc.symm.trans hw) (by decide)
    have hc' := hc.setThread h .outside (by simp [Thread.waitsRead, hpc])
      (by simp [Thread.waitsWrite, hpc])
    exact hc'.setThread (by simpa [State.setThread, hij] using hj) _
      (by simp [Thread.waitsRead, hw]) (by simp [Thread.waitsWrite, hw])
  | notifyAll h hpc =>
    exact (hc.setThread h .outside (by simp [Thread.waitsRead, hpc])
      (by simp [Thread.waitsWrite, hpc])).unpark

theorem counted_start (reader : Bool) (n : Nat) : Counted (start reader n) := by
  constructor <;>
    simp [start, State.readerHolders, State.writerHolders, State.readWaiters,
      State.writeWaiters, Thread.waitsRead, Thread.waitsWrite]

theorem reachable_counted {reader : Bool} {s : State}
    (h : (machine reader).Reachable Matched s) : Counted s := by
  refine h.invariant ?_ fun _ hok hs hc => counted_step hok (moved_of_step hs) hc
  rintro _ ⟨n, rfl⟩
  exact counted_start reader n

/-! ## The abstract lock -/

/-- In `reader_` mode a thread may read once no writer holds the mutex; otherwise
once no writer holds it or waits for it. -/
theorem no_writer_of_readReady {s : State} {m : RwMutex} (hc : Counted s)
    (hw : m.writing = s.mutex.writing) (hn : m.writeCount = s.mutex.writeCount)
    (hready : m.readReady = true) : s.writerHolders = 0 := by
  have h3 := hc.write
  have h4 := hc.writing
  simp only [RwMutex.readReady, Bool.or_eq_true, Bool.and_eq_true, Bool.not_eq_true',
    beq_iff_eq] at hready
  rcases hready with ⟨_, hfree⟩ | ⟨_, hzero⟩
  · rw [← hw, hfree] at h4
    exact h4.symm
  · omega

theorem free_of_writeReady {s : State} {m : RwMutex} (hc : Counted s)
    (hw : m.writing = s.mutex.writing) (hr : m.readCount = s.mutex.readCount)
    (hn : m.readingCount = s.mutex.readingCount) (hready : m.writeReady = true) :
    s.readerHolders = 0 ∧ s.writerHolders = 0 := by
  have h1 := hc.reading
  have h2 := hc.read
  have h4 := hc.writing
  simp only [RwMutex.writeReady, Bool.or_eq_true, Bool.and_eq_true, Bool.not_eq_true',
    beq_iff_eq] at hready
  obtain ⟨hcount, hfree⟩ := hready
  rw [← hw, hfree] at h4
  refine ⟨?_, h4.symm⟩
  rcases hcount with ⟨_, hzero⟩ | ⟨_, hzero⟩ <;> omega

/-- The holders after a step of thread `i`. -/
theorem holders_set {s : State} {i : Nat} {th : Thread} {r w : Nat}
    (h : s.threads[i]? = some th) (m' : RwMutex) (th' : Thread)
    (hr : r + th.reads = s.readerHolders + th'.reads)
    (hw : w + th.writes = s.writerHolders + th'.writes) :
    State.holders { mutex := m', threads := s.threads.set i th' } = ⟨r, w⟩ := by
  have h1 := tally_set h Thread.reads th'
  have h2 := tally_set h Thread.writes th'
  simp only [State.holders, State.readerHolders, State.writerHolders, Holders.mk.injEq] at *
  omega

theorem holders_set_of_eq {s : State} {i : Nat} {th : Thread} (h : s.threads[i]? = some th)
    (m' : RwMutex) (th' : Thread) (hr : th'.reads = th.reads) (hw : th'.writes = th.writes) :
    State.holders { mutex := m', threads := s.threads.set i th' } = s.holders :=
  holders_set h m' th' (by rw [hr]) (by rw [hw])

/-- `t` shows the abstract lock what `s` does, or one abstract step later. -/
def Shows (s t : State) : Prop :=
  t.holders = s.holders ∨ ∃ y, Holders.machine.step s.holders y = some t.holders

theorem shows_waitRead {s : State} {i : Nat} {th : Thread} {m : RwMutex} (hc : Counted s)
    (h : s.threads[i]? = some th) (hw : m.writing = s.mutex.writing)
    (hn : m.writeCount = s.mutex.writeCount) : Shows s (s.waitRead i th m) := by
  unfold State.waitRead
  split
  · rename_i hready
    have hfree := no_writer_of_readReady hc hw hn hready
    refine .inr ⟨.acquireRead, ?_⟩
    rw [State.holders, Holders.step_acquireRead hfree]
    refine congrArg some (Eq.symm ?_)
    exact holders_set h _ _ (by simp only; omega) rfl
  · exact .inl (holders_set_of_eq h _ _ rfl rfl)

theorem shows_waitWrite {s : State} {i : Nat} {th : Thread} {m : RwMutex} (hc : Counted s)
    (h : s.threads[i]? = some th) (hw : m.writing = s.mutex.writing)
    (hr : m.readCount = s.mutex.readCount) (hn : m.readingCount = s.mutex.readingCount) :
    Shows s (s.waitWrite i th m) := by
  unfold State.waitWrite
  split
  · rename_i hready
    obtain ⟨hnor, hnow⟩ := free_of_writeReady hc hw hr hn hready
    refine .inr ⟨.acquireWrite, ?_⟩
    rw [State.holders, Holders.step_acquireWrite hnor hnow]
    refine congrArg some (Eq.symm ?_)
    exact holders_set h _ _ rfl (by simp only; omega)
  · exact .inl (holders_set_of_eq h _ _ rfl rfl)

theorem shows_readUnlock {s : State} {i : Nat} {th : Thread} {m' : RwMutex} {pc : Pc}
    (h : s.threads[i]? = some th) (hheld : 0 < th.reads) :
    Shows s { mutex := m',
              threads := s.threads.set i { th with pc := pc, reads := th.reads - 1 } } := by
  have hle : th.reads ≤ s.readerHolders := le_tally h
  obtain ⟨r, hr⟩ : ∃ r, s.readerHolders = r + 1 := ⟨s.readerHolders - 1, by omega⟩
  refine .inr ⟨.releaseRead, ?_⟩
  rw [State.holders, hr, Holders.step_releaseRead]
  refine congrArg some (Eq.symm ?_)
  exact holders_set h _ _ (by simp only; omega) rfl

theorem shows_writeUnlock {s : State} {i : Nat} {th : Thread} {m' : RwMutex} {pc : Pc}
    (h : s.threads[i]? = some th) (hheld : 0 < th.writes) :
    Shows s { mutex := m',
              threads := s.threads.set i { th with pc := pc, writes := th.writes - 1 } } := by
  have hle : th.writes ≤ s.writerHolders := le_tally h
  obtain ⟨w, hw⟩ : ∃ w, s.writerHolders = w + 1 := ⟨s.writerHolders - 1, by omega⟩
  refine .inr ⟨.releaseWrite, ?_⟩
  rw [State.holders, hw, Holders.step_releaseWrite]
  refine congrArg some (Eq.symm ?_)
  exact holders_set h _ _ rfl (by simp only; omega)

theorem shows_of_moved {s t : State} {a : Act} (hc : Counted s) (hok : Matched s a)
    (h : Moved s a t) : Shows s t := by
  cases h with
  | callRead h _ | callWrite h _ | wakeReader h _ | wakeWriter h _ | notifyNobody h _ _ =>
    exact .inl (holders_set_of_eq h _ _ rfl rfl)
  | enterRead h _ | recheckRead h _ => exact shows_waitRead hc h rfl rfl
  | enterWrite h _ | recheckWrite h _ => exact shows_waitWrite hc h rfl rfl rfl
  | @readUnlock i th h _ =>
    obtain ⟨th', hth', hheld⟩ := hok
    obtain rfl : th = th' := Option.some.inj (h.symm.trans hth')
    exact shows_readUnlock h hheld
  | @writeUnlock i th h _ =>
    obtain ⟨th', hth', hheld⟩ := hok
    obtain rfl : th = th' := Option.some.inj (h.symm.trans hth')
    exact shows_writeUnlock h hheld
  | @notifyOne i j th w h hpc hj hw =>
    have hij : i ≠ j := by
      rintro rfl
      obtain rfl : th = w := Option.some.inj (h.symm.trans hj)
      exact absurd (hpc.symm.trans hw) (by decide)
    have hj' : (s.setThread i { th with pc := .outside }).threads[j]? = some w := by
      simpa [State.setThread, hij] using hj
    have hwoken := holders_set_of_eq hj' s.mutex { w with pc := .wokenWrite } rfl rfl
    exact .inl (hwoken.trans (holders_set_of_eq h _ _ rfl rfl))
  | notifyAll h _ =>
    left
    simp only [State.holders, State.readerHolders, State.writerHolders, tally_map,
      unparkRead_reads, unparkRead_writes]
    exact holders_set_of_eq h s.mutex _ rfl rfl

/-- `RwMutex` implements the abstract readers–writer lock. -/
theorem simulates_holders (reader : Bool) :
    (machine reader).Simulates Matched Holders.machine State.holders where
  init := by
    rintro _ ⟨n, rfl⟩
    simp [Holders.machine, State.holders, State.readerHolders, State.writerHolders, start,
      Holders.free]
  step := fun hr hok hs => shows_of_moved (reachable_counted hr) hok (moved_of_step hs)

theorem reachable_exclusive {reader : Bool} {s : State}
    (h : (machine reader).Reachable Matched s) : s.holders.Exclusive :=
  Holders.reachable_exclusive ((simulates_holders reader).reachable h)

/-- Two writers are one thread, and beside a writer nobody reads. -/
theorem exclusive_threads {s : State} (h : s.holders.Exclusive) {i j : Nat} {a b : Thread}
    (hi : s.threads[i]? = some a) (hj : s.threads[j]? = some b) (ha : 0 < a.writes) :
    (0 < b.writes → i = j) ∧ b.reads = 0 := by
  obtain ⟨hone, hno⟩ := h
  simp only [State.holders, State.readerHolders, State.writerHolders] at hone hno
  have hle := le_tally (w := Thread.writes) hi
  have hb := le_tally (w := Thread.reads) hj
  refine ⟨fun hbw => ?_, ?_⟩
  · by_contra hij
    have := add_le_tally (w := Thread.writes) hij hi hj
    omega
  · have := hno (by omega)
    omega

/-- Mutual exclusion and the meaning of the four counters, in both modes, for any
number of threads under any interleaving. -/
theorem mutual_exclusion (reader : Bool) {s : State}
    (h : (machine reader).Reachable Matched s) :
    (∀ (i j : Nat) (a b : Thread), s.threads[i]? = some a → s.threads[j]? = some b →
        0 < a.writes → (0 < b.writes → i = j) ∧ b.reads = 0) ∧
      s.writerHolders ≤ 1 ∧
      (s.mutex.writing = true ↔ 0 < s.writerHolders) ∧
      s.mutex.readingCount = s.readerHolders ∧
      s.mutex.readCount = s.readerHolders + s.readWaiters ∧
      s.mutex.writeCount = s.writerHolders + s.writeWaiters := by
  have hc := reachable_counted h
  have hx := reachable_exclusive h
  refine ⟨fun i j a b hi hj ha => exclusive_threads hx hi hj ha, hx.one_writer, ?_,
    hc.reading, hc.read, hc.write⟩
  rw [← hc.writing]
  cases s.mutex.writing <;> simp

/-- Two readers hold the mutex and a writer waits for it. -/
def contended : State :=
  { mutex := { readCount := 2, writeCount := 1, readingCount := 2 },
    threads := [{ reads := 1 }, { reads := 1 }, { pc := .parkedWrite }] }

theorem contended_reachable : (machine false).Reachable Matched contended :=
  Machine.reachable_of_exec
    [.callReadLock 0, .readLock 0, .callWriteLock 2, .callReadLock 1, .readLock 1, .writeLock 2]
    ⟨3, rfl⟩ (by decide)

theorem mutual_exclusion_contended :
    contended.mutex.readingCount = contended.readerHolders ∧
      contended.mutex.writeCount = contended.writerHolders + contended.writeWaiters := by
  obtain ⟨_, _, _, hreading, _, hwrite⟩ := mutual_exclusion false contended_reachable
  exact ⟨hreading, hwrite⟩

end RwThreads
end TryAndLearn
