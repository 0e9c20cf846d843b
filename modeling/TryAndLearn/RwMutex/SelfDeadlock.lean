import TryAndLearn.RwMutex.Preference
import TryAndLearn.RwMutex.Wakeup

/-!
# Threads that wait for themselves

A thread that holds the mutex for reading and calls `WriteLock` waits for its own
`ReadUnlock`, in either mode.  Without `reader_` a thread that holds it for reading and
calls `ReadLock` again does so too, once a writer waits: the writer waits for the first
lock of that thread, and the second call waits for the writer.
-/

namespace TryAndLearn
namespace RwThreads

/-- In the wait of a lock call, parked or woken. -/
def Thread.Waits : Mode → Thread → Prop
  | .read, th => th.pc = .parkedRead ∨ th.pc = .wokenRead
  | .write, th => th.pc = .parkedWrite ∨ th.pc = .wokenWrite

/-- The predicate of the wait. -/
def Mode.ready : Mode → RwMutex → Bool
  | .read, m => m.readReady
  | .write, m => m.writeReady

section

variable {reader : Bool} {s t : State} {a : Act} {i : Nat} {th : Thread} {mode : Mode}

theorem waits_unparkRead (h : th.Waits mode) :
    th.unparkRead.reads = th.reads ∧ th.unparkRead.writes = th.writes ∧
      th.unparkRead.Waits mode := by
  refine ⟨unparkRead_reads th, unparkRead_writes th, ?_⟩
  unfold Thread.unparkRead
  split
  · rename_i hpc
    cases mode with
    | read => exact .inr rfl
    | write => rcases h with h | h <;> simp [hpc] at h
  · exact h

/-- A thread goes on waiting as long as its predicate is false. -/
theorem waits_next (h : Moved s a t) (hi : s.threads[i]? = some th) (hw : th.Waits mode)
    (hready : mode.ready s.mutex = false) :
    ∃ th', t.threads[i]? = some th' ∧ th'.reads = th.reads ∧ th'.writes = th.writes ∧
      th'.Waits mode := by
  have hset {threads : List Thread} {j : Nat} {u : Thread} (u' : Thread)
      (hi : threads[i]? = some th) (hu : threads[j]? = some u)
      (hown : u.Waits mode → u'.reads = u.reads ∧ u'.writes = u.writes ∧ u'.Waits mode) :
      ∃ th', (threads.set j u')[i]? = some th' ∧ th'.reads = th.reads ∧ th'.writes = th.writes ∧
        th'.Waits mode := by
    by_cases hij : j = i
    · subst hij
      obtain rfl := Option.some.inj (hu.symm.trans hi)
      exact ⟨u', getElem?_set_of_some hu u', hown hw⟩
    · exact ⟨th, by rwa [List.getElem?_set_ne hij], rfl, rfl, hw⟩
  have hnot {u : Thread} (hu : u.pc ≠ .parkedRead ∧ u.pc ≠ .wokenRead ∧ u.pc ≠ .parkedWrite ∧
      u.pc ≠ .wokenWrite) : ¬u.Waits mode := by
    intro hwaits
    cases mode with
    | read => exact hwaits.elim hu.1 hu.2.1
    | write => exact hwaits.elim hu.2.2.1 hu.2.2.2
  cases h with
  | callRead hj hpc | callWrite hj hpc | readUnlock hj hpc | writeUnlock hj hpc
  | notifyNobody hj hpc _ =>
    exact hset _ hi hj fun hwaits => absurd hwaits (hnot (by simp [hpc]))
  | enterRead hj hpc | enterWrite hj hpc =>
    first | unfold State.waitRead | unfold State.waitWrite
    split <;> exact hset _ hi hj fun hwaits => absurd hwaits (hnot (by simp [hpc]))
  | wakeReader hj hpc =>
    refine hset _ hi hj fun hwaits => ⟨rfl, rfl, ?_⟩
    cases mode with
    | read => exact .inr rfl
    | write => simp [Thread.Waits, hpc] at hwaits
  | wakeWriter hj hpc =>
    refine hset _ hi hj fun hwaits => ⟨rfl, rfl, ?_⟩
    cases mode with
    | write => exact .inr rfl
    | read => simp [Thread.Waits, hpc] at hwaits
  | recheckRead hj hpc =>
    cases mode with
    | write =>
      unfold State.waitRead
      split <;> exact hset _ hi hj fun hwaits => by simp [Thread.Waits, hpc] at hwaits
    | read =>
      rw [State.waitRead, if_neg (by simpa [Mode.ready] using hready)]
      exact hset _ hi hj fun _ => ⟨rfl, rfl, .inl rfl⟩
  | recheckWrite hj hpc =>
    cases mode with
    | read =>
      unfold State.waitWrite
      split <;> exact hset _ hi hj fun hwaits => by simp [Thread.Waits, hpc] at hwaits
    | write =>
      rw [State.waitWrite, if_neg (by simpa [Mode.ready] using hready)]
      exact hset _ hi hj fun _ => ⟨rfl, rfl, .inl rfl⟩
  | @notifyOne j k u w hj hpc hk hw' =>
    have hji : j ≠ i := by
      rintro rfl
      obtain rfl := Option.some.inj (hj.symm.trans hi)
      exact hnot (by simp [hpc]) hw
    have hjk : j ≠ k := by
      rintro rfl
      obtain rfl := Option.some.inj (hj.symm.trans hk)
      exact absurd (hpc.symm.trans hw') (by decide)
    have hi' : (s.threads.set j { u with pc := .outside })[i]? = some th := by
      rwa [List.getElem?_set_ne hji]
    have hk' : (s.threads.set j { u with pc := .outside })[k]? = some w := by
      rwa [List.getElem?_set_ne hjk]
    refine hset _ hi' hk' fun hwaits => ⟨rfl, rfl, ?_⟩
    cases mode with
    | write => exact .inr rfl
    | read => simp [Thread.Waits, hw'] at hwaits
  | @notifyAll j u hj hpc =>
    obtain ⟨v, hv, hreads, hwrites, hwaits⟩ := hset { u with pc := .outside } hi hj
      fun hwaits => absurd hwaits (hnot (by simp [hpc]))
    obtain ⟨hreads', hwrites', hwaits'⟩ := waits_unparkRead hwaits
    exact ⟨v.unparkRead, by rw [List.getElem?_map, hv]; rfl, hreads'.trans hreads,
      hwrites'.trans hwrites, hwaits'⟩

/-! ## The predicates while a thread waits for itself -/

theorem writeReady_of_holder (hc : Counted s) (hi : s.threads[i]? = some th)
    (hheld : 0 < th.reads) : s.mutex.writeReady = false := by
  have hle := le_tally (w := Thread.reads) hi
  have hreading := hc.reading
  have hread := hc.read
  rw [State.readerHolders] at hreading hread
  have h1 : s.mutex.readingCount ≠ 0 := by omega
  have h2 : s.mutex.readCount ≠ 0 := by omega
  simp [RwMutex.writeReady, h1, h2]

theorem writeCount_of_waits (hc : Counted s) (hi : s.threads[i]? = some th)
    (hw : th.Waits .write) : 0 < s.mutex.writeCount := by
  have hle := le_tally (w := Thread.waitsWrite) hi
  have hwrite := hc.write
  rw [State.writeWaiters] at hwrite
  have hone : th.waitsWrite = 1 := by
    rcases hw with h | h <;> simp [Thread.waitsWrite, h]
  omega

theorem writerHolders_of_holder (hx : s.holders.Exclusive) (hi : s.threads[i]? = some th)
    (hheld : 0 < th.reads) : s.writerHolders = 0 := by
  have hle := le_tally (w := Thread.reads) hi
  have hno := hx.no_reader
  simp only [State.holders, State.readerHolders] at hno
  by_contra hpos
  have := hno (Nat.pos_of_ne_zero hpos)
  omega

theorem not_writing_of_holder (hs : (machine reader).Reachable Matched s)
    (hi : s.threads[i]? = some th) (hheld : 0 < th.reads) : s.mutex.writing = false := by
  have hnone := writerHolders_of_holder (reachable_exclusive hs) hi hheld
  have hwriting := (reachable_counted hs).writing
  rw [hnone] at hwriting
  simpa using hwriting

/-! ## A reader that asks for the write lock -/

theorem upgrade_waits (hs : (machine reader).Reachable Matched s)
    (hi : s.threads[i]? = some th) (hheld : 0 < th.reads) (hw : th.Waits .write)
    (hrun : (machine reader).Run Matched s t) :
    ∃ th', t.threads[i]? = some th' ∧ th'.reads = th.reads ∧ th'.Waits .write := by
  refine hrun.invariant (I := fun t => ∃ th', t.threads[i]? = some th' ∧
    th'.reads = th.reads ∧ th'.Waits .write) ?_ ⟨th, hi, rfl, hw⟩
  rintro t u a hrun hok hstep ⟨th', hi', hreads, hw'⟩
  have hready := writeReady_of_holder (reachable_counted (hs.run hrun)) hi' (hreads ▸ hheld)
  obtain ⟨th'', hi'', hreads', -, hw''⟩ := waits_next (moved_of_step hstep) hi' hw' hready
  exact ⟨th'', hi'', hreads'.trans hreads, hw''⟩

/-- A thread that reads and waits for the write lock waits forever, and as long as it does
no writer gets in.  Without `reader_` no reader gets in either. -/
theorem upgrade_never_returns (hs : (machine reader).Reachable Matched s)
    (hi : s.threads[i]? = some th) (hheld : 0 < th.reads) (hw : th.Waits .write)
    (hrun : (machine reader).Run Matched s t) :
    (∃ th', t.threads[i]? = some th' ∧ th'.reads = th.reads ∧ th'.Waits .write) ∧
      t.mutex.writing = false ∧
      (reader = false → ∀ a u, Matched t a → step t a = some u → ¬t.Admits u .read) := by
  obtain ⟨th', hi', hreads, hw'⟩ := upgrade_waits hs hi hheld hw hrun
  have ht := hs.run hrun
  refine ⟨⟨th', hi', hreads, hw'⟩, not_writing_of_holder ht hi' (hreads ▸ hheld), ?_⟩
  intro hmode a u hok hstep
  exact not_admits_read (reachable_counted ht) hok (moved_of_step hstep)
    ((reachable_reader ht).trans hmode) (writeCount_of_waits (reachable_counted ht) hi' hw')

/-- Thread 0 reads and has asked for the write lock.  Thread 1 waits for it too, and thread
2 is about to notify one of them: it has unlocked before thread 0 got in. -/
def upgrading : State :=
  { mutex := { reader := true, readCount := 1, writeCount := 2, readingCount := 1 },
    threads := [{ pc := .parkedWrite, reads := 1 }, { pc := .parkedWrite },
      { pc := .notifyWriter }] }

theorem upgrading_reachable : (machine true).Reachable Matched upgrading :=
  Machine.reachable_of_exec (s := start true 3)
    [.callReadLock 2, .readLock 2, .callWriteLock 1, .writeLock 1, .readUnlock 2, .callReadLock 0,
      .readLock 0, .callWriteLock 0, .writeLock 0] ⟨3, rfl⟩ (by decide)

/-- The notification has woken thread 0, which waits again. -/
def stillUpgrading : State :=
  { upgrading with
    threads := [{ pc := .parkedWrite, reads := 1 }, { pc := .parkedWrite }, {}] }

theorem upgrading_run : (machine true).Run Matched upgrading stillUpgrading :=
  Machine.run_of_exec [.notifyOne 2 (some 0), .recheckWrite 0] (by decide)

theorem upgrade_never_returns_upgrading :
    (∃ th', stillUpgrading.threads[0]? = some th' ∧ th'.reads = 1 ∧ th'.Waits .write) ∧
      stillUpgrading.mutex.writing = false ∧ (true = false → ∀ a u, Matched stillUpgrading a →
        step stillUpgrading a = some u → ¬stillUpgrading.Admits u .read) :=
  upgrade_never_returns upgrading_reachable
    (show upgrading.threads[0]? = some { pc := .parkedWrite, reads := 1 } from rfl)
    Nat.zero_lt_one (.inl rfl) upgrading_run

/-! ## A reader that asks for the read lock again -/

/-- Without `reader_`, thread `i` reads and waits in `ReadLock`, and thread `j` waits in
`WriteLock`. -/
structure Crossed (i j : Nat) (s : State) : Prop where
  reader : ∃ th, s.threads[i]? = some th ∧ 0 < th.reads ∧ th.Waits .read
  writer : ∃ w, s.threads[j]? = some w ∧ w.Waits .write

theorem crossed_next {j : Nat} (hs : (machine false).Reachable Matched s)
    (h : Crossed i j s) (hm : Moved s a t) : Crossed i j t := by
  have hc := reachable_counted hs
  obtain ⟨⟨th, hi, hheld, hwaits⟩, w, hj, hw⟩ := h
  have hpos := writeCount_of_waits hc hj hw
  have hbusy : s.mutex.readReady = false := by
    have hne : s.mutex.writeCount ≠ 0 := by omega
    simp [RwMutex.readReady, reachable_reader hs, hne]
  obtain ⟨th', hi', hreads, -, hwaits'⟩ := waits_next hm hi hwaits hbusy
  obtain ⟨w', hj', -, -, hw'⟩ := waits_next hm hj hw
    (writeReady_of_holder hc hi hheld)
  exact ⟨⟨th', hi', hreads ▸ hheld, hwaits'⟩, w', hj', hw'⟩

/-- Without `reader_` a thread that reads and waits in `ReadLock` while a writer waits
does so forever, and so does the writer.  Nobody else is admitted. -/
theorem recursive_read_never_returns {j : Nat} (hs : (machine false).Reachable Matched s)
    (h : Crossed i j s) (hrun : (machine false).Run Matched s t) :
    Crossed i j t ∧ t.mutex.writing = false ∧
      ∀ a u, Matched t a → step t a = some u → ¬t.Admits u .read ∧ ¬t.Admits u .write := by
  have hkeeps : ∀ u, (machine false).Run Matched s u → Crossed i j u := fun u hrun =>
    hrun.invariant (fun hrun _ hstep hI =>
      crossed_next (hs.run hrun) hI (moved_of_step hstep)) h
  have hfree : ∀ u, (machine false).Run Matched s u → u.mutex.writing = false := fun u hrun => by
    obtain ⟨th, hi, hheld, -⟩ := (hkeeps u hrun).reader
    exact not_writing_of_holder (hs.run hrun) hi hheld
  refine ⟨hkeeps t hrun, hfree t hrun, fun a u hok hstep => ⟨?_, ?_⟩⟩
  · obtain ⟨w, hj, hw⟩ := (hkeeps t hrun).writer
    have hc := reachable_counted (hs.run hrun)
    exact not_admits_read hc hok (moved_of_step hstep) (reachable_reader (hs.run hrun))
      (writeCount_of_waits hc hj hw)
  · rintro ⟨-, hwriting⟩
    simp [hfree u (hrun.tail hok hstep)] at hwriting

/-- Thread 0 reads and has called `ReadLock` again, after thread 1 has called `WriteLock`.
Thread 2, which wrote before them, is about to notify the readers. -/
def crossing : State :=
  { mutex := { readCount := 2, writeCount := 1, readingCount := 1 },
    threads := [{ pc := .parkedRead, reads := 1 }, { pc := .parkedWrite },
      { pc := .notifyReaders }] }

theorem crossing_reachable : (machine false).Reachable Matched crossing :=
  Machine.reachable_of_exec (s := start false 3)
    [.callWriteLock 2, .writeLock 2, .writeUnlock 2, .callReadLock 0, .readLock 0,
      .callWriteLock 1, .writeLock 1, .callReadLock 0, .readLock 0] ⟨3, rfl⟩ (by decide)

/-- The notification has woken thread 0, which waits again. -/
def stillCrossing : State :=
  { crossing with threads := [{ pc := .parkedRead, reads := 1 }, { pc := .parkedWrite }, {}] }

theorem crossing_run : (machine false).Run Matched crossing stillCrossing :=
  Machine.run_of_exec [.notifyAll 2, .recheckRead 0] (by decide)

theorem recursive_read_never_returns_crossing :
    Crossed 0 1 stillCrossing ∧ stillCrossing.mutex.writing = false ∧
      ∀ a u, Matched stillCrossing a → step stillCrossing a = some u →
        ¬stillCrossing.Admits u .read ∧ ¬stillCrossing.Admits u .write :=
  recursive_read_never_returns crossing_reachable
    ⟨⟨_, rfl, by decide, .inl rfl⟩, _, rfl, .inl rfl⟩ crossing_run

end

end RwThreads
end TryAndLearn
