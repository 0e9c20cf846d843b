import TryAndLearn.RwMutex.Exclusion

/-!
# No wake-up of `RwMutex` is lost

A thread may sleep on `write_cv_` although it could enter only while another writer
is awake or a notification is on its way, and a thread may sleep on `read_cv_`
although it could enter only while a `notify_all` is on its way.  Both statements
are invariants (`WritersCovered`, `ReadersCovered`).  A step of one thread keeps
them unless it takes away a cover, so each step has only to say which of three
reasons applies to it (`WritersCovered.set`, `ReadersCovered.set`).
-/

namespace TryAndLearn
namespace RwThreads

def State.count (s : State) (pc : Pc) : Nat := tally (Thread.at pc) s.threads

@[simp] theorem Thread.at_self (th : Thread) : Thread.at th.pc th = 1 := by
  simp [Thread.at]

theorem Thread.at_of_ne {th : Thread} {pc : Pc} (h : th.pc ≠ pc) : Thread.at pc th = 0 := by
  simp [Thread.at, h]

theorem Thread.at_of_eq {th : Thread} {pc : Pc} (h : th.pc = pc) : Thread.at pc th = 1 := by
  simp [Thread.at, h]

theorem count_set {s : State} {i : Nat} {th : Thread} (h : s.threads[i]? = some th)
    (m' : RwMutex) (th' : Thread) (pc : Pc) :
    State.count { mutex := m', threads := s.threads.set i th' } pc + Thread.at pc th =
      s.count pc + Thread.at pc th' :=
  tally_set h (Thread.at pc) th'

/-- A parked writer that could enter has an awake writer or a notification to
cover it. -/
def WritersCovered (s : State) : Prop :=
  s.mutex.writeReady = true → 0 < s.count .parkedWrite →
    0 < s.count .wokenWrite + s.count .notifyWriter

/-- A parked reader that could enter has a notification to cover it. -/
def ReadersCovered (s : State) : Prop :=
  s.mutex.readReady = true → 0 < s.count .parkedRead → 0 < s.count .notifyReaders

/-- Why a step of thread `th` to `th'` keeps the parked writers covered: it brings
a cover, or it takes none away, or nobody is parked. -/
def KeepsWriters (s : State) (th th' : Thread) : Prop :=
  th'.pc = .wokenWrite ∨ th'.pc = .notifyWriter ∨
    (th'.pc ≠ .parkedWrite ∧ s.count .parkedWrite = 0) ∨
    (th'.pc ≠ .parkedWrite ∧ s.mutex.writeReady = true ∧ th.pc ≠ .wokenWrite ∧
      th.pc ≠ .notifyWriter)

def KeepsReaders (s : State) (th th' : Thread) : Prop :=
  th'.pc = .notifyReaders ∨ (th'.pc ≠ .parkedRead ∧ s.count .parkedRead = 0) ∨
    (th'.pc ≠ .parkedRead ∧ s.mutex.readReady = true ∧ th.pc ≠ .notifyReaders)

theorem WritersCovered.set {s : State} {i : Nat} {th th' : Thread} {m' : RwMutex}
    (hc : WritersCovered s) (h : s.threads[i]? = some th)
    (hk : m'.writeReady = true → KeepsWriters s th th') :
    WritersCovered { mutex := m', threads := s.threads.set i th' } := by
  intro hready hparked
  have hp := count_set h m' th' .parkedWrite
  have hw := count_set h m' th' .wokenWrite
  have hn := count_set h m' th' .notifyWriter
  have hle : Thread.at .wokenWrite th ≤ s.count .wokenWrite := le_tally h
  have hle' : Thread.at .notifyWriter th ≤ s.count .notifyWriter := le_tally h
  rcases hk hready with hpc | hpc | ⟨hpc, hnone⟩ | ⟨hpc, hs, hnw, hnn⟩
  · rw [Thread.at_of_eq hpc] at hw
    omega
  · rw [Thread.at_of_eq hpc] at hn
    omega
  · rw [Thread.at_of_ne hpc, hnone] at hp
    omega
  · rw [Thread.at_of_ne hpc] at hp
    rw [Thread.at_of_ne hnw] at hw
    rw [Thread.at_of_ne hnn] at hn
    have := hc hs (by omega)
    omega

theorem ReadersCovered.set {s : State} {i : Nat} {th th' : Thread} {m' : RwMutex}
    (hc : ReadersCovered s) (h : s.threads[i]? = some th)
    (hk : m'.readReady = true → KeepsReaders s th th') :
    ReadersCovered { mutex := m', threads := s.threads.set i th' } := by
  intro hready hparked
  have hp := count_set h m' th' .parkedRead
  have hn := count_set h m' th' .notifyReaders
  have hle : Thread.at .notifyReaders th ≤ s.count .notifyReaders := le_tally h
  rcases hk hready with hpc | ⟨hpc, hnone⟩ | ⟨hpc, hs, hnn⟩
  · rw [Thread.at_of_eq hpc] at hn
    omega
  · rw [Thread.at_of_ne hpc, hnone] at hp
    omega
  · rw [Thread.at_of_ne hpc] at hp
    rw [Thread.at_of_ne hnn] at hn
    have := hc hs (by omega)
    omega

/-! ## Steps that leave the mutex alone -/

theorem keepsWriters_of_same {s : State} {th th' : Thread} (hready : s.mutex.writeReady = true)
    (hpc : th'.pc ≠ .parkedWrite) (hw : th.pc ≠ .wokenWrite) (hn : th.pc ≠ .notifyWriter) :
    KeepsWriters s th th' :=
  .inr (.inr (.inr ⟨hpc, hready, hw, hn⟩))

theorem keepsReaders_of_same {s : State} {th th' : Thread} (hready : s.mutex.readReady = true)
    (hpc : th'.pc ≠ .parkedRead) (hn : th.pc ≠ .notifyReaders) : KeepsReaders s th th' :=
  .inr (.inr ⟨hpc, hready, hn⟩)

/-! ## The two waits -/

/-- A reader that gets in or that is counted among the waiting readers makes it
harder for a writer to enter, never easier. -/
theorem writeReady_of_reader {m : RwMutex} (m' : RwMutex) (hmode : m'.reader = m.reader)
    (hwriting : m'.writing = m.writing) (hread : m.readCount ≤ m'.readCount)
    (hreading : m.readingCount ≤ m'.readingCount) (h : m'.writeReady = true) :
    m.writeReady = true := by
  simp only [RwMutex.writeReady, Bool.or_eq_true, Bool.and_eq_true, Bool.not_eq_true',
    beq_iff_eq, hmode, hwriting] at h ⊢
  obtain ⟨hcount, hfree⟩ := h
  refine ⟨?_, hfree⟩
  rcases hcount with ⟨hm, hz⟩ | ⟨hm, hz⟩
  · exact .inl ⟨hm, by omega⟩
  · exact .inr ⟨hm, by omega⟩

/-- A writer that gets in or that is counted among the waiting writers makes it
harder for a reader to enter, never easier. -/
theorem readReady_of_writer {m : RwMutex} (m' : RwMutex) (hmode : m'.reader = m.reader)
    (hwriting : m.writing = true → m'.writing = true) (hwrite : m.writeCount ≤ m'.writeCount)
    (h : m'.readReady = true) : m.readReady = true := by
  simp only [RwMutex.readReady, Bool.or_eq_true, Bool.and_eq_true, Bool.not_eq_true',
    beq_iff_eq, hmode] at h ⊢
  rcases h with ⟨hm, hfree⟩ | ⟨hm, hz⟩
  · refine .inl ⟨hm, ?_⟩
    cases hw : m.writing with
    | false => rfl
    | true => rw [hwriting hw] at hfree; exact absurd hfree (by decide)
  · exact .inr ⟨hm, by omega⟩

theorem covered_waitRead {s : State} {i : Nat} {th : Thread} {m : RwMutex}
    (hw : WritersCovered s) (hr : ReadersCovered s) (h : s.threads[i]? = some th)
    (hpc : th.pc = .enterRead ∨ th.pc = .wokenRead)
    (hm : m = { s.mutex with readCount := m.readCount })
    (hread : s.mutex.readCount ≤ m.readCount) :
    WritersCovered (s.waitRead i th m) ∧ ReadersCovered (s.waitRead i th m) := by
  have hpw : th.pc ≠ .wokenWrite := by rcases hpc with hpc | hpc <;> rw [hpc] <;> decide
  have hpn : th.pc ≠ .notifyWriter := by rcases hpc with hpc | hpc <;> rw [hpc] <;> decide
  have hpr : th.pc ≠ .notifyReaders := by rcases hpc with hpc | hpc <;> rw [hpc] <;> decide
  have hmode : m.reader = s.mutex.reader := by rw [hm]
  have hwriting : m.writing = s.mutex.writing := by rw [hm]
  have hwrite : m.writeCount = s.mutex.writeCount := by rw [hm]
  have hreading : m.readingCount = s.mutex.readingCount := by rw [hm]
  have hsame : m.readReady = s.mutex.readReady := by
    simp only [RwMutex.readReady, hmode, hwriting, hwrite]
  unfold State.waitRead
  split
  · rename_i hready
    refine ⟨hw.set h fun hready' => ?_, hr.set h fun _ => ?_⟩
    · have hback : s.mutex.writeReady = true :=
        writeReady_of_reader (m.readLockAdmit none).1 hmode hwriting hread
          (hreading ▸ Nat.le_succ _) hready'
      exact keepsWriters_of_same hback (by simp) hpw hpn
    · exact keepsReaders_of_same (hsame ▸ hready) (by simp) hpr
  · rename_i hready
    refine ⟨hw.set h fun hready' => ?_, hr.set h fun hready' => absurd hready' hready⟩
    exact keepsWriters_of_same (writeReady_of_reader m hmode hwriting hread (by omega) hready')
      (by simp) hpw hpn

theorem covered_waitWrite {s : State} {i : Nat} {th : Thread} {m : RwMutex}
    (hw : WritersCovered s) (hr : ReadersCovered s) (h : s.threads[i]? = some th)
    (hpc : th.pc = .enterWrite ∨ th.pc = .wokenWrite)
    (hm : m = { s.mutex with writeCount := m.writeCount })
    (hwrite : s.mutex.writeCount ≤ m.writeCount) :
    WritersCovered (s.waitWrite i th m) ∧ ReadersCovered (s.waitWrite i th m) := by
  have hpr : th.pc ≠ .notifyReaders := by rcases hpc with hpc | hpc <;> rw [hpc] <;> decide
  have hmode : m.reader = s.mutex.reader := by rw [hm]
  have hwriting : m.writing = s.mutex.writing := by rw [hm]
  unfold State.waitWrite
  split
  · -- the writer that gets in sets `writing_`, so nobody could enter afterwards
    refine ⟨hw.set h fun hready' => ?_, hr.set h fun hready' => ?_⟩
    · simp [RwMutex.writeReady, RwMutex.writeLockAdmit] at hready'
    · have hback : s.mutex.readReady = true :=
        readReady_of_writer m.writeLockAdmit hmode (fun _ => rfl) hwrite hready'
      exact keepsReaders_of_same hback (by simp) hpr
  · rename_i hready
    refine ⟨hw.set h fun hready' => absurd hready' hready, hr.set h fun hready' => ?_⟩
    exact keepsReaders_of_same
      (readReady_of_writer m hmode (fun he => hwriting.trans he) hwrite hready') (by simp) hpr

/-! ## The unlocks -/

theorem readWaiters_eq (s : State) :
    s.readWaiters = s.count .parkedRead + s.count .wokenRead := by
  rw [State.readWaiters, State.count, State.count, ← tally_add]
  refine tally_congr fun th _ => ?_
  cases hpc : th.pc <;> simp [Thread.at, Thread.waitsRead, hpc]

theorem writeWaiters_eq (s : State) :
    s.writeWaiters = s.count .parkedWrite + s.count .wokenWrite := by
  rw [State.writeWaiters, State.count, State.count, ← tally_add]
  refine tally_congr fun th _ => ?_
  cases hpc : th.pc <;> simp [Thread.at, Thread.waitsWrite, hpc]

theorem afterUnlock_ne (n : Notify) :
    afterUnlock n ≠ .parkedRead ∧ afterUnlock n ≠ .parkedWrite := by
  cases n <;> decide

theorem covered_readUnlock {s : State} {i : Nat} {th : Thread} (hc : Counted s)
    (hw : WritersCovered s) (hr : ReadersCovered s) (h : s.threads[i]? = some th)
    (hpc : th.pc = .outside) (hheld : 0 < th.reads) (r : Nat) :
    let u := s.mutex.readUnlock none none
    let t : State :=
      { mutex := u.mutex,
        threads := s.threads.set i { th with pc := afterUnlock u.notify, reads := r } }
    WritersCovered t ∧ ReadersCovered t := by
  intro u t
  have hpos : 0 < s.mutex.readCount := by
    have hle : th.reads ≤ s.readerHolders := le_tally h
    have := hc.read
    omega
  have hmutex : u.mutex = _ := RwMutex.readUnlock_none_mutex hpos
  obtain ⟨hner, hnew⟩ := afterUnlock_ne u.notify
  refine ⟨hw.set h fun hready => ?_, hr.set h fun hready => ?_⟩
  · rcases Nat.eq_zero_or_pos s.mutex.writeCount with hz | hwpos
    · have hwait := writeWaiters_eq s
      have := hc.write
      exact .inr (.inr (.inl ⟨hnew, by omega⟩))
    · have hn : u.notify = .oneWriter := RwMutex.readUnlock_none_notify hpos hwpos hready
      exact .inr (.inl (by simp [hn, afterUnlock]))
  · rw [hmutex] at hready
    exact keepsReaders_of_same hready hner (by rw [hpc]; decide)

theorem covered_writeUnlock {s : State} {i : Nat} {th : Thread} (hc : Counted s)
    (hw : WritersCovered s) (hr : ReadersCovered s) (h : s.threads[i]? = some th)
    (hheld : 0 < th.writes) (w : Nat) :
    let u := s.mutex.writeUnlock none
    let t : State :=
      { mutex := u.mutex,
        threads := s.threads.set i { th with pc := afterUnlock u.notify, writes := w } }
    WritersCovered t ∧ ReadersCovered t := by
  intro u t
  have hle : th.writes ≤ s.writerHolders := le_tally h
  have hwrite := hc.write
  have hpos : 0 < s.mutex.writeCount := by omega
  have hwaitR := readWaiters_eq s
  have hwaitW := writeWaiters_eq s
  obtain ⟨hner, hnew⟩ := afterUnlock_ne u.notify
  refine ⟨hw.set h fun hready => ?_, hr.set h fun hready => ?_⟩
  · rcases RwMutex.writeUnlock_none_writer hpos hready with hn | hone
    · exact .inr (.inl (by rw [show u.notify = .oneWriter from hn]; rfl))
    · exact .inr (.inr (.inl ⟨hnew, by omega⟩))
  · rcases RwMutex.writeUnlock_none_readers hpos hready with hn | hz
    · exact .inl (by rw [show u.notify = .allReaders from hn]; rfl)
    · have := hc.read
      exact .inr (.inl ⟨hner, by omega⟩)

/-! ## The notifications -/

theorem covered_notifyOne {s : State} {i j : Nat} {th w : Thread} (hr : ReadersCovered s)
    (h : s.threads[i]? = some th) (hpc : th.pc = .notifyWriter) (hj : s.threads[j]? = some w)
    (hw : w.pc = .parkedWrite) :
    let t := (s.setThread i { th with pc := .outside }).setThread j { w with pc := .wokenWrite }
    WritersCovered t ∧ ReadersCovered t := by
  intro t
  have hij : i ≠ j := by
    rintro rfl
    obtain rfl : th = w := Option.some.inj (h.symm.trans hj)
    exact absurd (hpc.symm.trans hw) (by decide)
  have hj' : (s.setThread i { th with pc := .outside }).threads[j]? = some w := by
    simpa [State.setThread, hij] using hj
  constructor
  · -- the woken writer itself is the cover
    intro _ _
    have hwoken := count_set hj' s.mutex { w with pc := .wokenWrite } .wokenWrite
    have hone : Thread.at .wokenWrite { w with pc := .wokenWrite } = 1 := rfl
    have hzero : Thread.at .wokenWrite w = 0 := Thread.at_of_ne (by rw [hw]; decide)
    have : 0 < t.count .wokenWrite := by
      show 0 < State.count { mutex := s.mutex, threads := _ } .wokenWrite
      simp only [State.setThread] at hwoken ⊢
      omega
    omega
  · have hmid : ReadersCovered (s.setThread i { th with pc := .outside }) :=
      hr.set h fun hready => keepsReaders_of_same hready (by simp) (by rw [hpc]; decide)
    exact hmid.set hj' fun hready => keepsReaders_of_same hready (by simp) (by rw [hw]; decide)

theorem unparkRead_pc (th : Thread) : th.unparkRead.pc ≠ .parkedRead := by
  unfold Thread.unparkRead
  split
  · simp
  · assumption

theorem unparkRead_at (pc : Pc) (hp : pc ≠ .parkedRead) (hw : pc ≠ .wokenRead) (th : Thread) :
    Thread.at pc th.unparkRead = Thread.at pc th := by
  unfold Thread.unparkRead
  split
  · rename_i h
    rw [Thread.at_of_ne (by exact hw.symm), Thread.at_of_ne (by rw [h]; exact hp.symm)]
  · rfl

theorem covered_unpark {s : State} (hw : WritersCovered s) :
    WritersCovered { s with threads := s.threads.map Thread.unparkRead } ∧
      ReadersCovered { s with threads := s.threads.map Thread.unparkRead } := by
  constructor
  · intro hready hparked
    simp only [State.count, tally_map,
      unparkRead_at .parkedWrite (by decide) (by decide),
      unparkRead_at .wokenWrite (by decide) (by decide),
      unparkRead_at .notifyWriter (by decide) (by decide)] at hparked ⊢
    exact hw hready hparked
  · intro _ hparked
    have hnone :
        State.count { s with threads := s.threads.map Thread.unparkRead } .parkedRead = 0 := by
      rw [State.count, tally_map]
      exact tally_eq_zero_iff.mpr fun th _ => Thread.at_of_ne (unparkRead_pc th)
    omega

theorem covered_step {s t : State} {a : Act} (hc : Counted s) (hok : Matched s a)
    (h : Moved s a t) (hw : WritersCovered s) (hr : ReadersCovered s) :
    WritersCovered t ∧ ReadersCovered t := by
  cases h with
  | callRead h hpc | callWrite h hpc | wakeReader h hpc =>
    exact ⟨hw.set h fun hready =>
        keepsWriters_of_same hready (by simp) (by rw [hpc]; decide) (by rw [hpc]; decide),
      hr.set h fun hready => keepsReaders_of_same hready (by simp) (by rw [hpc]; decide)⟩
  | wakeWriter h hpc =>
    exact ⟨hw.set h fun _ => .inl rfl,
      hr.set h fun hready => keepsReaders_of_same hready (by simp) (by rw [hpc]; decide)⟩
  | enterRead h hpc => exact covered_waitRead hw hr h (.inl hpc) rfl (Nat.le_succ _)
  | recheckRead h hpc => exact covered_waitRead hw hr h (.inr hpc) rfl (Nat.le_refl _)
  | enterWrite h hpc => exact covered_waitWrite hw hr h (.inl hpc) rfl (Nat.le_succ _)
  | recheckWrite h hpc => exact covered_waitWrite hw hr h (.inr hpc) rfl (Nat.le_refl _)
  | @readUnlock i th h hpc =>
    obtain ⟨th', hth', hheld⟩ := hok
    obtain rfl : th = th' := Option.some.inj (h.symm.trans hth')
    exact covered_readUnlock hc hw hr h hpc hheld _
  | @writeUnlock i th h hpc =>
    obtain ⟨th', hth', hheld⟩ := hok
    obtain rfl : th = th' := Option.some.inj (h.symm.trans hth')
    exact covered_writeUnlock hc hw hr h hheld _
  | notifyNobody h hpc hnone =>
    exact ⟨hw.set h fun _ => .inr (.inr (.inl ⟨by simp, hnone⟩)),
      hr.set h fun hready => keepsReaders_of_same hready (by simp) (by rw [hpc]; decide)⟩
  | notifyOne h hpc hj hwpc => exact covered_notifyOne hr h hpc hj hwpc
  | notifyAll h hpc =>
    exact covered_unpark (hw.set h fun hready =>
      keepsWriters_of_same hready (by simp) (by rw [hpc]; decide) (by rw [hpc]; decide))

theorem reachable_covered {reader : Bool} {s : State} (h : (machine reader).Reachable Matched s) :
    WritersCovered s ∧ ReadersCovered s := by
  refine h.invariant ?_ fun hreach hok hs hcov =>
    covered_step (reachable_counted hreach) hok (moved_of_step hs) hcov.1 hcov.2
  rintro _ ⟨n, rfl⟩
  constructor <;> intro _ hparked <;> simp [State.count, start, Thread.at] at hparked

/-! ## A thread inside a lock call -/

/-- Inside `ReadLock` or `WriteLock`. -/
def Thread.Locking (th : Thread) : Prop :=
  th.pc = .enterRead ∨ th.pc = .parkedRead ∨ th.pc = .wokenRead ∨
    th.pc = .enterWrite ∨ th.pc = .parkedWrite ∨ th.pc = .wokenWrite

/-- Inside `ReadLock` or `WriteLock`, not parked, and its predicate is true. -/
def Thread.CanEnter (m : RwMutex) (th : Thread) : Prop :=
  (th.pc = .enterRead ∨ th.pc = .wokenRead) ∧ m.readReady = true ∨
    (th.pc = .enterWrite ∨ th.pc = .wokenWrite) ∧ m.writeReady = true

theorem exists_of_count_pos {s : State} {pc : Pc} (h : 0 < s.count pc) :
    ∃ th ∈ s.threads, th.pc = pc := by
  obtain ⟨i, th, hi, hpc⟩ := exists_of_tally_at (Nat.pos_iff_ne_zero.mp h)
  exact ⟨th, List.mem_of_getElem? hi, hpc⟩

theorem count_pos_of_mem {s : State} {th : Thread} (h : th ∈ s.threads) : 0 < s.count th.pc := by
  have hle : Thread.at th.pc th ≤ s.count th.pc := le_tally_of_mem h
  rw [Thread.at_self] at hle
  omega

/-- When nobody holds the mutex and no notification is on its way, nobody is parked
and both predicates are true. -/
theorem nobody_parked {s : State} (hc : Counted s) (hw : WritersCovered s)
    (hr : ReadersCovered s) (hreaders : s.readerHolders = 0) (hwriters : s.writerHolders = 0)
    (hnw : s.count .notifyWriter = 0) (hnr : s.count .notifyReaders = 0)
    (hnone : ∀ th ∈ s.threads, ¬ th.CanEnter s.mutex) :
    s.mutex.readReady = true ∧ s.mutex.writeReady = true ∧ s.count .parkedRead = 0 ∧
      s.count .parkedWrite = 0 := by
  have hreading := hc.reading
  have hread := hc.read
  have hwrite := hc.write
  have hfree : s.mutex.writing = false := by
    have := hc.writing
    cases hwr : s.mutex.writing with
    | false => rfl
    | true => rw [hwr, Bool.toNat_true] at this; omega
  have hwaitR := readWaiters_eq s
  have hwaitW := writeWaiters_eq s
  -- a woken thread whose predicate is true would enter
  have hwokenR : s.mutex.readReady = true → s.count .wokenRead = 0 := by
    intro hready
    by_contra hpos
    obtain ⟨th, hth, hpc⟩ := exists_of_count_pos (Nat.pos_of_ne_zero hpos)
    exact hnone th hth (.inl ⟨.inr hpc, hready⟩)
  have hwokenW : s.mutex.writeReady = true → s.count .wokenWrite = 0 := by
    intro hready
    by_contra hpos
    obtain ⟨th, hth, hpc⟩ := exists_of_count_pos (Nat.pos_of_ne_zero hpos)
    exact hnone th hth (.inr ⟨.inr hpc, hready⟩)
  have hparkedR : s.mutex.readReady = true → s.count .parkedRead = 0 := by
    intro hready
    by_contra hpos
    have := hr hready (Nat.pos_of_ne_zero hpos)
    omega
  have hparkedW : s.mutex.writeReady = true → s.count .parkedWrite = 0 := by
    intro hready
    by_contra hpos
    have := hw hready (Nat.pos_of_ne_zero hpos)
    have := hwokenW hready
    omega
  cases hmode : s.mutex.reader with
  | false =>
    have hreadyW : s.mutex.writeReady = true := by
      simp [RwMutex.writeReady, hmode, hfree, hreading, hreaders]
    have hnoW : s.mutex.writeCount = 0 := by
      have := hwokenW hreadyW
      have := hparkedW hreadyW
      omega
    have hreadyR : s.mutex.readReady = true := by
      simp [RwMutex.readReady, hmode, hnoW]
    exact ⟨hreadyR, hreadyW, hparkedR hreadyR, hparkedW hreadyW⟩
  | true =>
    have hreadyR : s.mutex.readReady = true := by
      simp [RwMutex.readReady, hmode, hfree]
    have hnoR : s.mutex.readCount = 0 := by
      have := hwokenR hreadyR
      have := hparkedR hreadyR
      omega
    have hreadyW : s.mutex.writeReady = true := by
      simp [RwMutex.writeReady, hmode, hfree, hnoR]
    exact ⟨hreadyR, hreadyW, hparkedR hreadyR, hparkedW hreadyW⟩

/-- Whenever a thread is inside `ReadLock` or `WriteLock`, some thread holds the
mutex, or an unlock has still to issue its notification, or a thread inside one of
the two calls is awake and may enter. -/
theorem no_lost_wakeup (reader : Bool) {s : State} (h : (machine reader).Reachable Matched s)
    {th : Thread} (hth : th ∈ s.threads) (hin : th.Locking) :
    (∃ th' ∈ s.threads, 0 < th'.reads ∨ 0 < th'.writes) ∨
      (∃ th' ∈ s.threads, th'.pc = .notifyWriter ∨ th'.pc = .notifyReaders) ∨
      ∃ th' ∈ s.threads, th'.CanEnter s.mutex := by
  by_contra hstuck
  simp only [not_or, not_exists, not_and] at hstuck
  obtain ⟨hheld, hnotify, hnone⟩ := hstuck
  have hreaders : s.readerHolders = 0 :=
    tally_eq_zero_iff.mpr fun th hth => by have := (hheld th hth).1; omega
  have hwriters : s.writerHolders = 0 :=
    tally_eq_zero_iff.mpr fun th hth => by have := (hheld th hth).2; omega
  have hnw : s.count .notifyWriter = 0 :=
    tally_eq_zero_iff.mpr fun th hth => Thread.at_of_ne (hnotify th hth).1
  have hnr : s.count .notifyReaders = 0 :=
    tally_eq_zero_iff.mpr fun th hth => Thread.at_of_ne (hnotify th hth).2
  obtain ⟨hcovW, hcovR⟩ := reachable_covered h
  obtain ⟨hreadyR, hreadyW, hpr, hpw⟩ :=
    nobody_parked (reachable_counted h) hcovW hcovR hreaders hwriters hnw hnr hnone
  have hpos := count_pos_of_mem hth
  rcases hin with hpc | hpc | hpc | hpc | hpc | hpc
  · exact hnone th hth (.inl ⟨.inl hpc, hreadyR⟩)
  · rw [hpc] at hpos; omega
  · exact hnone th hth (.inl ⟨.inr hpc, hreadyR⟩)
  · exact hnone th hth (.inr ⟨.inl hpc, hreadyW⟩)
  · rw [hpc] at hpos; omega
  · exact hnone th hth (.inr ⟨.inr hpc, hreadyW⟩)

/-- The last reader has left and has still to notify the parked writer. -/
def handover : State :=
  { mutex := { writeCount := 1 },
    threads := [{}, { pc := .notifyWriter }, { pc := .parkedWrite }] }

theorem handover_reachable : (machine false).Reachable Matched handover :=
  contended_reachable.run
    (Machine.run_of_exec [.readUnlock 0, .readUnlock 1] (by decide))

theorem no_lost_wakeup_handover :
    (∃ th ∈ handover.threads, 0 < th.reads ∨ 0 < th.writes) ∨
      (∃ th ∈ handover.threads, th.pc = .notifyWriter ∨ th.pc = .notifyReaders) ∨
      ∃ th ∈ handover.threads, th.CanEnter handover.mutex :=
  no_lost_wakeup false handover_reachable
    (show ({ pc := .parkedWrite } : Thread) ∈ handover.threads by decide)
    (.inr (.inr (.inr (.inr (.inl rfl)))))

end RwThreads
end TryAndLearn
