import TryAndLearn.Machine.Endless
import TryAndLearn.RwMutex.Progress
import TryAndLearn.RwMutex.SelfDeadlock

/-!
# What the preference costs

While a call of the preferred kind is open, nobody of the other kind gets in, so the
locks of the other kind that are held are only given back and the preferred kind gets the
mutex.  New calls may come at any time: a thread that calls waits before it can call again.

The other kind has no such promise.  Two threads that take the preferred lock in turn, each
before the other gives it back, keep the mutex for themselves forever.
-/

namespace TryAndLearn
namespace RwThreads

def Mode.other : Mode → Mode
  | .read => .write
  | .write => .read

/-- `read_count_` or `write_count_`. -/
def State.counts (s : State) : Mode → Nat
  | .read => s.mutex.readCount
  | .write => s.mutex.writeCount

/-- Some thread has got the mutex. -/
def State.Held (s : State) : Mode → Prop
  | .read => 0 < s.mutex.readingCount
  | .write => s.mutex.writing = true

/-- No spurious wake-up. -/
def Prompt (s : State) : Act → Prop
  | .wakeReader _ | .wakeWriter _ => False
  | a => Single s a

theorem Goes.prompt {s : State} {a : Act} (h : Goes s a) : Prompt s a := by
  cases a <;> first | exact h | cases h

theorem Prompt.single {s : State} {a : Act} (h : Prompt s a) : Single s a := by
  cases a <;> first | exact h | cases h

/-! ## The preferred kind gets in -/

section Preferred

variable {reader : Bool} {s t : State} {a : Act} {i : Nat} {th : Thread} {m : RwMutex}

theorem counts_pos (hc : Counted s) {mode : Mode} (h : 0 < s.calls mode i) : 0 < s.counts mode := by
  obtain ⟨hread, hwrite⟩ := calls_le hc i
  cases mode
  · exact Nat.lt_of_lt_of_le h hread
  · exact Nat.lt_of_lt_of_le h hwrite

theorem not_admits_other (h : (machine reader).Reachable Matched s)
    (hpos : 0 < s.counts (preferred reader)) (hok : Matched s a) (hm : Moved s a t) :
    ¬s.Admits t (preferred reader).other := by
  have hc := reachable_counted h
  have hmode := reachable_reader h
  cases reader
  · exact not_admits_read hc hok hm hmode hpos
  · exact not_admits_write hc hok hm hmode hpos

/-- Only what is held can be unlocked. -/
theorem held_of_unlock {mode : Mode} (hc : Counted s) (hok : Matched s (mode.unlock i)) :
    s.Held mode := by
  cases mode with
  | read =>
    obtain ⟨th, hi, hheld⟩ := hok
    have hle := le_tally (w := Thread.reads) hi
    have hreading := hc.reading
    rw [State.readerHolders] at hreading
    show 0 < s.mutex.readingCount
    omega
  | write =>
    obtain ⟨th, hi, hheld⟩ := hok
    have hle := le_tally (w := Thread.writes) hi
    have hwriting := hc.writing
    rw [State.writerHolders] at hwriting
    show s.mutex.writing = true
    cases hw : s.mutex.writing
    · rw [hw, Bool.toNat_false] at hwriting
      omega
    · rfl

/-- A call stays open as long as nobody of its kind has got the mutex. -/
theorem calls_pos_of_not_held {mode : Mode} (hc : Counted s) (hok : Matched s a)
    (hm : Moved s a t) (hpos : 0 < s.calls mode i) (hnot : ¬s.Held mode) :
    0 < t.calls mode i := by
  refine calls_pos_next hok hm hpos ?_
  rintro ⟨rfl, -⟩
  exact hnot (held_of_unlock hc hok)

/-- The steps a thread can take before it waits, as long as it gets nothing. -/
def Thread.moves (th : Thread) : Nat :=
  match th.pc with
  | .outside => 2
  | .enterRead | .wokenRead | .enterWrite | .wokenWrite => 1
  | .parkedRead | .parkedWrite | .notifyWriter | .notifyReaders => 0

def Thread.held (th : Thread) : Nat := th.reads + th.writes

/-- The locks to give back, the notifications to come, and the calls there is room for. -/
def State.rest (s : State) : Nat × Nat × Nat :=
  (tally Thread.held s.threads, tally Thread.notifies s.threads, tally Thread.moves s.threads)

theorem rest_set {th' : Thread} {m' : RwMutex} (h : s.threads[i]? = some th)
    (hlt : Less (th'.held, th'.notifies, th'.moves) (th.held, th.notifies, th.moves)) :
    Less (State.rest { mutex := m', threads := s.threads.set i th' }) s.rest :=
  less_tally_set h hlt

/-- A reader that the step leaves waiting has been refused. -/
theorem rest_waitRead (hmode : s.mutex.reader = reader) (hpos : 0 < s.counts (preferred reader))
    (hr : m.reader = s.mutex.reader) (hw : m.writeCount = s.mutex.writeCount)
    (h : s.threads[i]? = some th) (hpc : th.pc = .enterRead ∨ th.pc = .wokenRead)
    (hnot : ¬(s.waitRead i th m).Held (preferred reader)) :
    Less (s.waitRead i th m).rest s.rest := by
  have hready : ¬m.readReady = true := by
    intro hready
    cases reader
    · have hne : s.mutex.writeCount ≠ 0 := Nat.ne_of_gt hpos
      simp [RwMutex.readReady, hr, hw, hmode, hne] at hready
    · rw [State.waitRead, if_pos hready] at hnot
      exact hnot (Nat.succ_pos _)
  rw [State.waitRead, if_neg hready]
  refine rest_set h (less_iff.mpr ?_)
  rcases hpc with hpc | hpc <;> simp [Thread.held, Thread.notifies, Thread.moves, hpc]

theorem rest_waitWrite (hmode : s.mutex.reader = reader) (hpos : 0 < s.counts (preferred reader))
    (hr : m.reader = s.mutex.reader) (hw : m.readCount = s.mutex.readCount)
    (h : s.threads[i]? = some th) (hpc : th.pc = .enterWrite ∨ th.pc = .wokenWrite)
    (hnot : ¬(s.waitWrite i th m).Held (preferred reader)) :
    Less (s.waitWrite i th m).rest s.rest := by
  have hready : ¬m.writeReady = true := by
    intro hready
    cases reader
    · rw [State.waitWrite, if_pos hready] at hnot
      exact hnot rfl
    · have hne : s.mutex.readCount ≠ 0 := Nat.ne_of_gt hpos
      simp [RwMutex.writeReady, hr, hw, hmode, hne] at hready
  rw [State.waitWrite, if_neg hready]
  refine rest_set h (less_iff.mpr ?_)
  rcases hpc with hpc | hpc <;> simp [Thread.held, Thread.notifies, Thread.moves, hpc]

theorem rest_step (hmode : s.mutex.reader = reader) (hpos : 0 < s.counts (preferred reader))
    (hok : Prompt s a) (hm : Moved s a t) (hnot : ¬t.Held (preferred reader)) :
    Less t.rest s.rest := by
  cases hm with
  | wakeReader | wakeWriter => cases hok
  | callRead h hpc | callWrite h hpc =>
    refine rest_set h (less_iff.mpr ?_)
    simp [Thread.held, Thread.notifies, Thread.moves, hpc]
  | enterRead h hpc => exact rest_waitRead hmode hpos rfl rfl h (.inl hpc) hnot
  | recheckRead h hpc => exact rest_waitRead hmode hpos rfl rfl h (.inr hpc) hnot
  | enterWrite h hpc => exact rest_waitWrite hmode hpos rfl rfl h (.inl hpc) hnot
  | recheckWrite h hpc => exact rest_waitWrite hmode hpos rfl rfl h (.inr hpc) hnot
  | readUnlock h hpc =>
    obtain ⟨th', hth', hheld⟩ := hok
    obtain rfl := Option.some.inj (h.symm.trans hth')
    refine rest_set h (less_iff.mpr (.inl ?_))
    simp only [Thread.held]
    omega
  | writeUnlock h hpc =>
    obtain ⟨th', hth', hheld⟩ := hok
    obtain rfl := Option.some.inj (h.symm.trans hth')
    refine rest_set h (less_iff.mpr (.inl ?_))
    simp only [Thread.held]
    omega
  | notifyNobody h hpc _ =>
    refine rest_set h (less_iff.mpr (.inr ⟨rfl, .inl ?_⟩))
    simp [Thread.notifies, hpc]
  | notifyOne h hpc hj hw =>
    refine less_iff.mpr (.inr ⟨?_, .inl (notifies_notifyOne h hpc hj hw)⟩)
    exact tally_notifyOne h hpc hj hw rfl rfl
  | notifyAll h hpc =>
    refine less_iff.mpr (.inr ⟨?_, .inl (notifies_notifyAll h hpc)⟩)
    exact tally_notifyAll h rfl fun u => by simp [Thread.held]

/-- Nobody in a call is idle. -/
theorem not_idle_of_calls {mode : Mode} (hpos : 0 < s.calls mode i) : ¬Idle s := by
  intro hidle
  cases hi : s.threads[i]? with
  | none => simp [State.calls, hi] at hpos
  | some th =>
    obtain ⟨hpc, hr, hw⟩ := hidle th (List.mem_of_getElem? hi)
    rw [calls_of_some hi] at hpos
    cases mode <;> simp [Thread.calls, Thread.waitsRead, Thread.waitsWrite, hpc, hr, hw] at hpos

/-- As long as a call of the preferred kind is open, its kind gets the mutex whatever the
scheduler does, however many calls of either kind are made meanwhile. -/
theorem inevitable_preferred (h : (machine reader).Reachable Single s)
    (hpos : 0 < s.calls (preferred reader) i) :
    (machine reader).Inevitable Prompt (fun t => t.Held (preferred reader)) s := by
  refine Machine.Inevitable.of_measure_until
    (I := fun t => (machine reader).Reachable Single t ∧ 0 < t.calls (preferred reader) i)
    wellFounded_less State.rest ?_ ?_ ⟨h, hpos⟩
  · rintro s ⟨h, hpos⟩ _
    obtain ⟨a, t, hgoes, hs⟩ := exists_step h (not_idle_of_calls hpos)
    exact ⟨a, t, hgoes.prompt, hs⟩
  · rintro s t a ⟨h, hpos⟩ hnot hnot' hok hs
    have hreach := h.mono fun _ _ => Single.matched
    have hc := reachable_counted hreach
    have hm := moved_of_step hs
    exact ⟨⟨h.next hok.single hs, calls_pos_of_not_held hc hok.single.matched hm hpos hnot⟩,
      rest_step (reachable_reader hreach) (counts_pos hc hpos) hok hm hnot'⟩

/-- Two threads read, a third waits to write and a fourth is about to call. -/
def outnumbered : State :=
  { mutex := { readCount := 2, writeCount := 1, readingCount := 2 },
    threads := [{ reads := 1 }, { reads := 1 }, { pc := .parkedWrite }, { pc := .enterRead }] }

theorem outnumbered_reachable : (machine false).Reachable Single outnumbered :=
  Machine.reachable_of_exec (s := start false 4)
    [.callReadLock 0, .readLock 0, .callReadLock 1, .readLock 1, .callWriteLock 2, .writeLock 2,
      .callReadLock 3] ⟨4, rfl⟩ (by decide)

theorem inevitable_preferred_outnumbered :
    (machine false).Inevitable Prompt (fun t => t.Held .write) outnumbered :=
  inevitable_preferred (i := 2) outnumbered_reachable Nat.one_pos

end Preferred

/-! ## The other kind may not -/

/-- A thread that holds one lock of the kind. -/
def Mode.holder : Mode → Thread
  | .read => { reads := 1 }
  | .write => { writes := 1 }

theorem Mode.holder_pc (mode : Mode) : mode.holder.pc = .outside := by
  cases mode <;> rfl

/-- The state of the mutex while somebody holds it in the preferred mode. -/
def Mode.Occupies : Mode → RwMutex → Prop
  | .read, m => m.reader = true ∧ 0 < m.readCount ∧ m.writing = false
  | .write, m => m.reader = false ∧ 0 < m.writeCount ∧ m.readingCount = 0 ∧ m.writing = true

/-- `s` with another mutex and other threads `i` and `k`. -/
def State.pair (s : State) (i k : Nat) (m : RwMutex) (x y : Thread) : State :=
  { mutex := m, threads := (s.threads.set i x).set k y }

/-- Thread `k` takes the lock before thread `i` gives it back. -/
def Mode.relay : Mode → Nat → Nat → List Act
  | .read, i, k => [.callReadLock k, .readLock k, .readUnlock i]
  | .write, i, k =>
    [.callWriteLock k, .writeLock k, .writeUnlock i, .notifyOne i (some k), .recheckWrite k]

/-- A step of the two threads, under which a call of the kind stays open. -/
def Relays (s : State) (i k : Nat) (mode : Mode) (t : State) (a : Act) : Prop :=
  Prompt t a ∧ 0 < t.counts mode ∧ ∀ j, j ≠ i → j ≠ k → t.threads[j]? = s.threads[j]?

section Pair

variable {s : State} {i k : Nat} {m : RwMutex} {x y : Thread}

theorem pair_comm (hik : i ≠ k) : s.pair i k m x y = s.pair k i m y x := by
  rw [State.pair, State.pair, List.set_comm _ _ hik]

theorem pair_left (hik : i ≠ k) (hi : i < s.threads.length) :
    (s.pair i k m x y).threads[i]? = some x := by
  simp [State.pair, hik.symm, hi]

theorem pair_right (hk : k < s.threads.length) : (s.pair i k m x y).threads[k]? = some y := by
  simp [State.pair, hk]

theorem pair_mutex : (s.pair i k m x y).mutex = m := rfl

theorem threadAt_left (hik : i ≠ k) (hi : i < s.threads.length) {pc : Pc} (hpc : x.pc = pc) :
    (s.pair i k m x y).threadAt i pc = some x :=
  State.threadAt_eq_some.mpr ⟨pair_left hik hi, hpc⟩

theorem threadAt_right (hk : k < s.threads.length) {pc : Pc} (hpc : y.pc = pc) :
    (s.pair i k m x y).threadAt k pc = some y :=
  State.threadAt_eq_some.mpr ⟨pair_right hk, hpc⟩

theorem pair_beside {j : Nat} (hi : j ≠ i) (hk : j ≠ k) :
    (s.pair i k m x y).threads[j]? = s.threads[j]? := by
  rw [State.pair, List.getElem?_set_ne hk.symm, List.getElem?_set_ne hi.symm]

theorem setThread_pair_right (m' : RwMutex) (y' : Thread) :
    State.mk m' ((s.pair i k m x y).threads.set k y') = s.pair i k m' x y' := by
  simp [State.pair]

theorem setThread_pair_left (hik : i ≠ k) (m' : RwMutex) (x' : Thread) :
    State.mk m' ((s.pair i k m x y).threads.set i x') = s.pair i k m' x' y := by
  simp only [State.pair]
  rw [List.set_comm _ _ hik.symm, List.set_set]

theorem pair_self (hi : s.threads[i]? = some x) (hk : s.threads[k]? = some y) :
    s.pair i k s.mutex x y = s := by
  obtain ⟨_, rfl⟩ := List.getElem?_eq_some_iff.mp hi
  obtain ⟨_, rfl⟩ := List.getElem?_eq_some_iff.mp hk
  simp [State.pair]

theorem relays_pair {mode : Mode} {a : Act} (hok : Prompt (s.pair i k m x y) a)
    (hpos : 0 < (s.pair i k m x y).counts mode) : Relays s i k mode (s.pair i k m x y) a :=
  ⟨hok, hpos, fun _ hi hk => pair_beside hi hk⟩

/-- In `reader_` mode the second reader is let in beside the first, and the first one's
unlock notifies nobody. -/
theorem path_relay_read {reader : Bool} (hik : i ≠ k) (hi : i < s.threads.length)
    (hk : k < s.threads.length) (hm : Mode.read.Occupies m) :
    (machine reader).Path (Relays s i k .read) (s.pair i k m Mode.read.holder {})
      (Mode.read.relay i k) (s.pair i k m {} Mode.read.holder) := by
  obtain ⟨hmode, hpos, hfree⟩ := hm
  let m' : RwMutex := { m with readCount := m.readCount + 1, readingCount := m.readingCount + 1 }
  have hready : (m.readLockEnter none).1.readReady = true := by
    simp [RwMutex.readReady, RwMutex.readLockEnter, hmode, hfree]
  have hback : (m'.readUnlock none none).mutex = m :=
    RwMutex.readUnlock_none_mutex (Nat.succ_pos _)
  have hnobody : (m'.readUnlock none none).notify = .nobody := by
    have hne : m.readCount ≠ 0 := Nat.ne_of_gt hpos
    simp [m', RwMutex.readUnlock, RwMutex.exceeds, RwMutex.dropCount, hmode, hne]
  have hcall : step (s.pair i k m Mode.read.holder {}) (.callReadLock k) =
      some (s.pair i k m Mode.read.holder { pc := .enterRead }) := by
    rw [step, threadAt_right hk rfl]
    exact congrArg some (setThread_pair_right m _)
  have hlock : step (s.pair i k m Mode.read.holder { pc := .enterRead }) (.readLock k) =
      some (s.pair i k m' Mode.read.holder Mode.read.holder) := by
    rw [step, threadAt_right hk rfl, Option.map_some, State.waitRead, pair_mutex, if_pos hready]
    exact congrArg some (setThread_pair_right m' _)
  have hunlock : step (s.pair i k m' Mode.read.holder Mode.read.holder) (.readUnlock i) =
      some (s.pair i k m {} Mode.read.holder) := by
    rw [step, threadAt_left hik hi Mode.read.holder_pc, Option.map_some, pair_mutex]
    dsimp only
    rw [hback, hnobody]
    exact congrArg some (setThread_pair_left hik m _)
  refine .cons (relays_pair ⟨_, pair_right hk, rfl, rfl⟩ hpos) hcall ?_
  refine .cons (relays_pair trivial hpos) hlock ?_
  exact .cons (relays_pair ⟨_, pair_left hik hi, Nat.one_pos⟩ (Nat.succ_pos _)) hunlock .nil

/-- Without `reader_` the second writer parks, and the first one's unlock wakes it. -/
theorem path_relay_write {reader : Bool} (hik : i ≠ k) (hi : i < s.threads.length)
    (hk : k < s.threads.length) (hm : Mode.write.Occupies m) :
    (machine reader).Path (Relays s i k .write) (s.pair i k m Mode.write.holder {})
      (Mode.write.relay i k) (s.pair i k m {} Mode.write.holder) := by
  obtain ⟨hmode, hpos, hnone, hbusy⟩ := hm
  let m' : RwMutex := { m with writeCount := m.writeCount + 1 }
  let m'' : RwMutex := { m with writing := false }
  have hwait : ¬(m.writeLockEnter none).1.writeReady = true := by
    simp [RwMutex.writeReady, RwMutex.writeLockEnter, hbusy]
  have hback : (m'.writeUnlock none).mutex = m'' :=
    RwMutex.writeUnlock_none_mutex (Nat.succ_pos _)
  have hone : (m'.writeUnlock none).notify = .oneWriter := by
    have hne : m.writeCount ≠ 0 := Nat.ne_of_gt hpos
    simp [m', RwMutex.writeUnlock, RwMutex.dropCount, hmode, hpos, hne]
  have hready : m''.writeReady = true := by
    simp [m'', RwMutex.writeReady, hmode, hnone]
  have hadmit : m''.writeLockAdmit = m := by
    show RwMutex.mk m.reader m.readCount m.writeCount m.readingCount true = m
    rw [← hbusy]
  have hcall : step (s.pair i k m Mode.write.holder {}) (.callWriteLock k) =
      some (s.pair i k m Mode.write.holder { pc := .enterWrite }) := by
    rw [step, threadAt_right hk rfl]
    exact congrArg some (setThread_pair_right m _)
  have hlock : step (s.pair i k m Mode.write.holder { pc := .enterWrite }) (.writeLock k) =
      some (s.pair i k m' Mode.write.holder { pc := .parkedWrite }) := by
    rw [step, threadAt_right hk rfl, Option.map_some, State.waitWrite, pair_mutex, if_neg hwait]
    exact congrArg some (setThread_pair_right m' _)
  have hunlock : step (s.pair i k m' Mode.write.holder { pc := .parkedWrite }) (.writeUnlock i) =
      some (s.pair i k m'' { pc := .notifyWriter } { pc := .parkedWrite }) := by
    rw [step, threadAt_left hik hi Mode.write.holder_pc, Option.map_some, pair_mutex]
    dsimp only
    rw [hback, hone]
    exact congrArg some (setThread_pair_left hik m'' _)
  have hnotify : step (s.pair i k m'' { pc := .notifyWriter } { pc := .parkedWrite })
      (.notifyOne i (some k)) = some (s.pair i k m'' {} { pc := .wokenWrite }) := by
    have hout : (s.pair i k m'' { pc := .notifyWriter } { pc := .parkedWrite }).setThread i {} =
        s.pair i k m'' {} { pc := .parkedWrite } := setThread_pair_left hik m'' _
    rw [step, threadAt_left hik hi rfl, Option.bind_some, threadAt_right hk rfl, Option.map_some]
    rw [hout]
    exact congrArg some (setThread_pair_right m'' _)
  have hrecheck : step (s.pair i k m'' {} { pc := .wokenWrite }) (.recheckWrite k) =
      some (s.pair i k m {} Mode.write.holder) := by
    rw [step, threadAt_right hk rfl, Option.map_some, State.waitWrite, pair_mutex, if_pos hready,
      hadmit]
    exact congrArg some (setThread_pair_right m _)
  refine .cons (relays_pair ⟨_, pair_right hk, rfl, rfl⟩ hpos) hcall ?_
  refine .cons (relays_pair trivial hpos) hlock ?_
  refine .cons (relays_pair ⟨_, pair_left hik hi, Nat.one_pos⟩ (Nat.succ_pos _)) hunlock ?_
  refine .cons (relays_pair trivial hpos) hnotify ?_
  exact .cons (relays_pair trivial hpos) hrecheck .nil

/-- The lock goes from thread `i` to thread `k`, and the mutex is as before. -/
theorem path_relay (reader : Bool) (hik : i ≠ k) (hi : i < s.threads.length)
    (hk : k < s.threads.length) (hm : (preferred reader).Occupies m) :
    (machine reader).Path (Relays s i k (preferred reader))
      (s.pair i k m (preferred reader).holder {}) ((preferred reader).relay i k)
      (s.pair i k m {} (preferred reader).holder) := by
  cases reader
  · exact path_relay_write hik hi hk hm
  · exact path_relay_read hik hi hk hm

/-- It comes back the same way. -/
theorem path_relay_back (reader : Bool) (hik : i ≠ k) (hi : i < s.threads.length)
    (hk : k < s.threads.length) (hm : (preferred reader).Occupies m) :
    (machine reader).Path (Relays s i k (preferred reader))
      (s.pair i k m (preferred reader).holder {})
      ((preferred reader).relay i k ++ (preferred reader).relay k i)
      (s.pair i k m (preferred reader).holder {}) := by
  have hback := path_relay reader hik.symm hk hi hm
  rw [pair_comm hik.symm, pair_comm hik.symm] at hback
  refine (path_relay reader hik hi hk hm).append (hback.mono ?_)
  exact fun _ _ h => ⟨h.1, h.2.1, fun j hi hk => h.2.2 j hk hi⟩

end Pair

theorem occupies_of_holder {reader : Bool} {s : State} {i : Nat}
    (h : (machine reader).Reachable Matched s)
    (hi : s.threads[i]? = some (preferred reader).holder) :
    (preferred reader).Occupies s.mutex := by
  have hc := reachable_counted h
  have hmode := reachable_reader h
  have hread := hc.read
  have hwrite := hc.write
  cases reader with
  | true =>
    have hle : 1 ≤ s.readerHolders := le_tally (w := Thread.reads) hi
    exact ⟨hmode, by omega, not_writing_of_holder h hi Nat.one_pos⟩
  | false =>
    have hle : 1 ≤ s.writerHolders := le_tally (w := Thread.writes) hi
    have hnone : s.readerHolders = 0 := (reachable_exclusive h).no_reader hle
    have hreading := hc.reading
    have hheld : s.Held .write := held_of_unlock (i := i) hc ⟨_, hi, Nat.one_pos⟩
    exact ⟨hmode, by omega, by omega, hheld⟩

/-- Thread `i` is outside with just the preferred lock, and thread `k` with none.  The two
can keep the mutex between them forever: each of them takes it and gives it back again and
again, nobody of the other kind gets in, and all other threads stay where they are. -/
theorem other_kind_starves (reader : Bool) {s : State} {i k : Nat}
    (h : (machine reader).Reachable Matched s)
    (hi : s.threads[i]? = some (preferred reader).holder) (hk : s.threads[k]? = some {}) :
    ∃ r : (machine reader).Endless Prompt s,
      r.Recurs ((preferred reader).unlock i) ∧ r.Recurs ((preferred reader).unlock k) ∧
        ∀ n, ¬(r.state n).Admits (r.state (n + 1)) (preferred reader).other ∧
          ∀ j, j ≠ i → j ≠ k → (r.state n).threads[j]? = s.threads[j]? := by
  have hik : i ≠ k := by
    rintro rfl
    have := Option.some.inj (hi.symm.trans hk)
    cases reader <;> simp [preferred, Mode.holder] at this
  have hpath := path_relay_back reader hik (List.getElem?_eq_some_iff.mp hi).1
    (List.getElem?_eq_some_iff.mp hk).1 (occupies_of_holder h hi)
  rw [pair_self hi hk] at hpath
  obtain ⟨r, hrecurs⟩ := hpath.exists_endless (by cases reader <;> simp [preferred, Mode.relay])
  refine ⟨r.mono fun _ _ h => h.1, ?_, ?_, fun n => ⟨?_, (r.ok n).2.2⟩⟩
  · exact hrecurs _ (by cases reader <;> simp [preferred, Mode.relay, Mode.unlock])
  · exact hrecurs _ (by cases reader <;> simp [preferred, Mode.relay, Mode.unlock])
  · have hrun : (machine reader).Run Matched s (r.state n) :=
      (r.run n).mono fun _ _ h => h.1.single.matched
    exact not_admits_other (h.run hrun) (r.ok n).2.1 (r.ok n).1.single.matched
      (moved_of_step (r.step n))

/-- Thread 0 writes, and thread 1 waits to read. -/
def occupied : State :=
  { mutex := { readCount := 1, writeCount := 1, writing := true },
    threads := [{ writes := 1 }, { pc := .parkedRead }, {}] }

theorem occupied_reachable : (machine false).Reachable Matched occupied :=
  Machine.reachable_of_exec (s := start false 3)
    [.callWriteLock 0, .writeLock 0, .callReadLock 1, .readLock 1] ⟨3, rfl⟩ (by decide)

theorem other_kind_starves_occupied :
    ∃ r : (machine false).Endless Prompt occupied,
      r.Recurs (.writeUnlock 0) ∧ r.Recurs (.writeUnlock 2) ∧
        ∀ n, ¬(r.state n).Admits (r.state (n + 1)) .read ∧
          ∀ j, j ≠ 0 → j ≠ 2 → (r.state n).threads[j]? = occupied.threads[j]? :=
  other_kind_starves false occupied_reachable rfl rfl

end RwThreads
end TryAndLearn
