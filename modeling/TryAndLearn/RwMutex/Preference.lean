import TryAndLearn.RwMutex.Exclusion

/-!
# Whom `reader_` prefers

`write_count_` counts a writer from the moment it calls `WriteLock`, whether it waits or
holds the mutex, and without `reader_` no reader is admitted while the count is not
zero.  With `reader_` it is the other way round.  So one call of the preferred kind
keeps out all calls of the other kind, for as long as it is open.

A call is open from the step that counts it until the matching unlock.  `Ends` is the
unlock that leaves its thread with no open call of that kind, which comes no earlier
than the matching one.
-/

namespace TryAndLearn
namespace RwThreads

inductive Mode
  | read
  | write
  deriving DecidableEq, Repr

/-- The section of `mutex_` in which a lock call begins. -/
def Mode.lock : Mode → Nat → Act
  | .read, i => .readLock i
  | .write, i => .writeLock i

def Mode.unlock : Mode → Nat → Act
  | .read, i => .readUnlock i
  | .write, i => .writeUnlock i

/-- The lock calls of a thread that have been counted and not been unlocked. -/
def Thread.calls : Mode → Thread → Nat
  | .read, th => th.reads + th.waitsRead
  | .write, th => th.writes + th.waitsWrite

/-- The mode that is preferred. -/
def preferred (reader : Bool) : Mode := if reader then .read else .write

namespace State

def calls (s : State) (mode : Mode) (i : Nat) : Nat :=
  (s.threads[i]?.map (Thread.calls mode)).getD 0

/-- The step from `s` to `t` admits a call of `ReadLock` or `WriteLock`. -/
def Admits (s t : State) : Mode → Prop
  | .read => s.mutex.readingCount < t.mutex.readingCount
  | .write => s.mutex.writing = false ∧ t.mutex.writing = true

end State

/-- Thread `i` unlocks the only call it has open. -/
def Ends (mode : Mode) (i : Nat) (s : State) (a : Act) : Prop :=
  a = mode.unlock i ∧ s.calls mode i = 1

instance (mode : Mode) (i : Nat) (s : State) (a : Act) : Decidable (Ends mode i s a) :=
  inferInstanceAs (Decidable (_ ∧ _))

/-! ## Open calls -/

section Calls

variable {s t : State} {a : Act} {i : Nat} {th : Thread} {mode : Mode}

theorem calls_of_some (h : s.threads[i]? = some th) :
    s.calls mode i = th.calls mode := by
  simp [State.calls, h]

theorem calls_of_pc {pc : Pc} (hr : Thread.waitsRead { th with pc := pc } = th.waitsRead)
    (hw : Thread.waitsWrite { th with pc := pc } = th.waitsWrite) :
    Thread.calls mode { th with pc := pc } = th.calls mode := by
  cases mode
  · show th.reads + _ = th.reads + _
    rw [hr]
  · show th.writes + _ = th.writes + _
    rw [hw]

variable (mode) in
/-- A step of one thread leaves it with the calls it had open and perhaps one more, or
unlocks one of them. -/
theorem calls_next (hok : Matched s a) (h : Moved s a t) (hi : s.threads[i]? = some th) :
    ∃ th', t.threads[i]? = some th' ∧
      (th.calls mode ≤ th'.calls mode ∨
        a = mode.unlock i ∧ th.calls mode = th'.calls mode + 1) := by
  have hset {threads : List Thread} {j : Nat} {u : Thread} (u' : Thread) (hu : threads[j]? = some u)
      (hi : threads[i]? = some th)
      (hle : u.calls mode ≤ u'.calls mode ∨ a = mode.unlock j ∧ u.calls mode = u'.calls mode + 1) :
      ∃ th', (threads.set j u')[i]? = some th' ∧
        (th.calls mode ≤ th'.calls mode ∨
          a = mode.unlock i ∧ th.calls mode = th'.calls mode + 1) := by
    by_cases hij : i = j
    · subst hij
      obtain rfl := Option.some.inj (hu.symm.trans hi)
      exact ⟨u', getElem?_set_of_some hu u', hle⟩
    · exact ⟨th, by rwa [List.getElem?_set_ne (Ne.symm hij)], .inl (Nat.le_refl _)⟩
  have hpc {j : Nat} {u : Thread} (hu : s.threads[j]? = some u) (pc : Pc)
      (hr : Thread.waitsRead { u with pc := pc } = u.waitsRead)
      (hw : Thread.waitsWrite { u with pc := pc } = u.waitsWrite) :=
    hset { u with pc := pc } hu hi (.inl (Nat.le_of_eq (calls_of_pc hr hw).symm))
  cases h with
  | callRead hj hj' | callWrite hj hj' | wakeReader hj hj' | wakeWriter hj hj'
  | notifyNobody hj hj' _ =>
    exact hpc hj _ (by simp [Thread.waitsRead, hj']) (by simp [Thread.waitsWrite, hj'])
  | enterRead hj hj' | recheckRead hj hj' =>
    unfold State.waitRead
    split <;> refine hset _ hj hi (.inl ?_) <;> cases mode <;>
      simp [Thread.calls, Thread.waitsRead, Thread.waitsWrite, hj']
  | enterWrite hj hj' | recheckWrite hj hj' =>
    unfold State.waitWrite
    split <;> refine hset _ hj hi (.inl ?_) <;> cases mode <;>
      simp [Thread.calls, Thread.waitsRead, Thread.waitsWrite, hj']
  | @readUnlock j u hj hj' =>
    obtain ⟨u', hu', hheld⟩ := hok
    obtain rfl := Option.some.inj (hj.symm.trans hu')
    obtain ⟨hr, hw⟩ :=
      afterUnlock_waits (s.mutex.readUnlock none none).notify (u.reads - 1) u.writes
    have hu : u.waitsRead = 0 ∧ u.waitsWrite = 0 := by
      simp [Thread.waitsRead, Thread.waitsWrite, hj']
    refine hset _ hj hi ?_
    cases mode with
    | read =>
      refine .inr ⟨rfl, ?_⟩
      simp only [Thread.calls, hr, hu.1]
      omega
    | write =>
      refine .inl (Nat.le_of_eq ?_)
      simp only [Thread.calls, hw, hu.2]
  | @writeUnlock j u hj hj' =>
    obtain ⟨u', hu', hheld⟩ := hok
    obtain rfl := Option.some.inj (hj.symm.trans hu')
    obtain ⟨hr, hw⟩ :=
      afterUnlock_waits (s.mutex.writeUnlock none).notify u.reads (u.writes - 1)
    have hu : u.waitsRead = 0 ∧ u.waitsWrite = 0 := by
      simp [Thread.waitsRead, Thread.waitsWrite, hj']
    refine hset _ hj hi ?_
    cases mode with
    | read =>
      refine .inl (Nat.le_of_eq ?_)
      simp only [Thread.calls, hr, hu.1]
    | write =>
      refine .inr ⟨rfl, ?_⟩
      simp only [Thread.calls, hw, hu.2]
      omega
  | @notifyOne j k u v hj hj' hk hk' =>
    obtain ⟨th', hth', hle⟩ :=
      hpc hj .outside (by simp [Thread.waitsRead, hj']) (by simp [Thread.waitsWrite, hj'])
    have hjk : j ≠ k := by
      rintro rfl
      obtain rfl := Option.some.inj (hj.symm.trans hk)
      exact absurd (hj'.symm.trans hk') (by decide)
    have hk'' : (s.threads.set j { u with pc := .outside })[k]? = some v := by
      rwa [List.getElem?_set_ne hjk]
    have hwoken : Thread.calls mode { v with pc := .wokenWrite } = v.calls mode :=
      calls_of_pc (by simp [Thread.waitsRead, hk']) (by simp [Thread.waitsWrite, hk'])
    by_cases hik : i = k
    · subst hik
      obtain rfl := Option.some.inj (hk''.symm.trans hth')
      obtain rfl := Option.some.inj (hk.symm.trans hi)
      exact ⟨_, getElem?_set_of_some hk'' _, .inl (Nat.le_of_eq hwoken.symm)⟩
    · exact ⟨th', by simpa [State.setThread, Ne.symm hik] using hth', hle⟩
  | @notifyAll j u hj hj' =>
    obtain ⟨th', hth', hle⟩ :=
      hpc hj .outside (by simp [Thread.waitsRead, hj']) (by simp [Thread.waitsWrite, hj'])
    have hth : Thread.calls mode th'.unparkRead = th'.calls mode := by
      cases mode <;> simp [Thread.calls]
    refine ⟨th'.unparkRead, ?_, by rwa [hth]⟩
    rw [List.getElem?_map]
    exact congrArg (Option.map Thread.unparkRead) hth'

/-- A call stays open until it ends. -/
theorem calls_pos_next (hok : Matched s a) (h : Moved s a t) (hpos : 0 < s.calls mode i)
    (hend : ¬ Ends mode i s a) : 0 < t.calls mode i := by
  cases hi : s.threads[i]? with
  | none => simp [State.calls, hi] at hpos
  | some th =>
    obtain ⟨th', hi', hle⟩ := calls_next mode hok h hi
    rw [calls_of_some hi] at hpos
    rw [calls_of_some hi']
    rcases hle with hle | ⟨rfl, heq⟩
    · omega
    · have : s.calls mode i ≠ 1 := fun h1 => hend ⟨rfl, h1⟩
      rw [calls_of_some hi] at this
      omega

/-- The section in which a call begins leaves it open. -/
theorem calls_pos_of_lock (h : Moved s (mode.lock i) t) : 0 < t.calls mode i := by
  cases mode with
  | read =>
    cases h with
    | enterRead hi hpc =>
      unfold State.waitRead
      split <;> rw [calls_of_some (getElem?_set_of_some hi _)] <;>
        simp [Thread.calls, Thread.waitsRead]
  | write =>
    cases h with
    | enterWrite hi hpc =>
      unfold State.waitWrite
      split <;> rw [calls_of_some (getElem?_set_of_some hi _)] <;>
        simp [Thread.calls, Thread.waitsWrite]

/-- The mutex counts every open call. -/
theorem calls_le (hc : Counted s) (i : Nat) :
    s.calls .read i ≤ s.mutex.readCount ∧ s.calls .write i ≤ s.mutex.writeCount := by
  cases hi : s.threads[i]? with
  | none => simp [State.calls, hi]
  | some th =>
    rw [calls_of_some hi, calls_of_some hi]
    have h1 := le_tally (w := Thread.reads) hi
    have h2 := le_tally (w := Thread.waitsRead) hi
    have h3 := le_tally (w := Thread.writes) hi
    have h4 := le_tally (w := Thread.waitsWrite) hi
    have hread := hc.read
    have hwrite := hc.write
    simp only [State.readerHolders, State.readWaiters, State.writerHolders,
      State.writeWaiters] at hread hwrite
    simp only [Thread.calls]
    omega

end Calls

/-! ## Admission -/

section Admission

variable {s t : State} {a : Act} {i : Nat}

theorem readUnlock_reader (m : RwMutex) (count reading : Option Nat) (release : Bool) :
    (m.readUnlock count reading release).mutex.reader = m.reader := by
  unfold RwMutex.readUnlock
  split <;> rfl

theorem writeUnlock_reader (m : RwMutex) (count : Option Nat) (release : Bool) :
    (m.writeUnlock count release).mutex.reader = m.reader := by
  unfold RwMutex.writeUnlock
  dsimp only
  split <;> rfl

theorem waitRead_reader (s : State) (i : Nat) (th : Thread) (m : RwMutex) :
    (s.waitRead i th m).mutex.reader = m.reader := by
  unfold State.waitRead
  split <;> rfl

theorem waitWrite_reader (s : State) (i : Nat) (th : Thread) (m : RwMutex) :
    (s.waitWrite i th m).mutex.reader = m.reader := by
  unfold State.waitWrite
  split <;> rfl

theorem reachable_reader {reader : Bool} {ok : State → Act → Prop}
    (h : (machine reader).Reachable ok s) : s.mutex.reader = reader := by
  refine h.invariant (I := fun s => s.mutex.reader = reader) (fun s₀ h₀ => ?_)
    fun _ _ hs hr => ?_
  · obtain ⟨n, rfl⟩ := h₀
    rfl
  · have hm := moved_of_step hs
    cases hm with
    | enterRead _ _ | recheckRead _ _ => exact (waitRead_reader _ _ _ _).trans hr
    | enterWrite _ _ | recheckWrite _ _ => exact (waitWrite_reader _ _ _ _).trans hr
    | readUnlock _ _ => exact (readUnlock_reader _ _ _ _).trans hr
    | writeUnlock _ _ => exact (writeUnlock_reader _ _ _).trans hr
    | _ => exact hr

/-- Without `reader_` a mutex that counts a writer admits no reader. -/
theorem not_admits_read (hc : Counted s) (hok : Matched s a) (h : Moved s a t)
    (hmode : s.mutex.reader = false) (hpos : 0 < s.mutex.writeCount) : ¬ s.Admits t .read := by
  have hbusy (m : RwMutex) (hr : m.reader = s.mutex.reader)
      (hw : m.writeCount = s.mutex.writeCount) : m.readReady = false := by
    have : m.writeCount ≠ 0 := by omega
    simp [RwMutex.readReady, hr, hmode, this]
  intro hadm
  change s.mutex.readingCount < t.mutex.readingCount at hadm
  cases h with
  | enterRead _ _ =>
    rw [State.waitRead, hbusy (s.mutex.readLockEnter none).1 rfl rfl] at hadm
    exact absurd hadm (Nat.lt_irrefl _)
  | recheckRead _ _ =>
    rw [State.waitRead, hbusy s.mutex rfl rfl] at hadm
    exact absurd hadm (Nat.lt_irrefl _)
  | enterWrite _ _ | recheckWrite _ _ =>
    unfold State.waitWrite at hadm
    split at hadm <;> exact absurd hadm (Nat.lt_irrefl _)
  | @readUnlock j u hj _ =>
    obtain ⟨u', hu', hheld⟩ := hok
    obtain rfl := Option.some.inj (hj.symm.trans hu')
    have hle := le_tally (w := Thread.reads) hj
    have hcount := hc.read
    rw [State.readerHolders] at hcount
    rw [RwMutex.readUnlock_none_mutex (by omega)] at hadm
    simp only at hadm
    omega
  | @writeUnlock j u hj _ =>
    rw [RwMutex.writeUnlock_none_mutex hpos] at hadm
    exact absurd hadm (Nat.lt_irrefl _)
  | _ => exact absurd hadm (Nat.lt_irrefl _)

/-- With `reader_` a mutex that counts a reader admits no writer. -/
theorem not_admits_write (hc : Counted s) (hok : Matched s a) (h : Moved s a t)
    (hmode : s.mutex.reader = true) (hpos : 0 < s.mutex.readCount) : ¬ s.Admits t .write := by
  have hbusy (m : RwMutex) (hr : m.reader = s.mutex.reader)
      (hw : m.readCount = s.mutex.readCount) : m.writeReady = false := by
    have : m.readCount ≠ 0 := by omega
    simp [RwMutex.writeReady, hr, hmode, this]
  rintro ⟨hfree, hadm⟩
  have hsame : s.mutex.writing ≠ true := by simp [hfree]
  cases h with
  | enterWrite _ _ =>
    rw [State.waitWrite, hbusy (s.mutex.writeLockEnter none).1 rfl rfl] at hadm
    exact hsame hadm
  | recheckWrite _ _ =>
    rw [State.waitWrite, hbusy s.mutex rfl rfl] at hadm
    exact hsame hadm
  | enterRead _ _ | recheckRead _ _ =>
    unfold State.waitRead at hadm
    split at hadm <;> exact hsame hadm
  | readUnlock _ _ =>
    rw [RwMutex.readUnlock_none_mutex hpos] at hadm
    exact hsame hadm
  | @writeUnlock j u hj _ =>
    obtain ⟨u', hu', hheld⟩ := hok
    obtain rfl := Option.some.inj (hj.symm.trans hu')
    have hle := le_tally (w := Thread.writes) hj
    have hcount := hc.write
    rw [State.writerHolders] at hcount
    rw [RwMutex.writeUnlock_none_mutex (by omega)] at hadm
    simp only [Bool.false_eq_true] at hadm
  | _ => exact hsame hadm

end Admission

/-- From the step that counts a call of the preferred kind until its thread has unlocked
it, no call of the other kind is admitted. -/
theorem strict_preference (reader : Bool) {i : Nat} {s₀ s₁ s t : State} {a : Act}
    (h : (machine reader).Reachable Matched s₀)
    (hcall : step s₀ ((preferred reader).lock i) = some s₁)
    (hrun : (machine reader).Run (fun s b => Matched s b ∧ ¬ Ends (preferred reader) i s b) s₁ s)
    (hok : Matched s a) (hs : step s a = some t) :
    (reader = false → ¬ s.Admits t .read) ∧ (reader = true → ¬ s.Admits t .write) := by
  have hmatched : Matched s₀ ((preferred reader).lock i) := by cases reader <;> trivial
  have h₁ : (machine reader).Reachable Matched s₁ := h.next hmatched hcall
  have hreach : (machine reader).Reachable Matched s := h₁.run (hrun.mono fun _ _ hok => hok.1)
  have hpos : 0 < s.calls (preferred reader) i := by
    refine hrun.invariant (I := fun s => 0 < s.calls (preferred reader) i) ?_
      (calls_pos_of_lock (moved_of_step hcall))
    exact fun _ hok hs hpos => calls_pos_next hok.1 (moved_of_step hs) hpos hok.2
  have hc := reachable_counted hreach
  have hmode := reachable_reader hreach
  have hle := calls_le hc i
  refine ⟨?_, ?_⟩
  · rintro rfl
    exact not_admits_read hc hok (moved_of_step hs) hmode (Nat.lt_of_lt_of_le hpos hle.2)
  · rintro rfl
    exact not_admits_write hc hok (moved_of_step hs) hmode (Nat.lt_of_lt_of_le hpos hle.1)

/-- Thread 0 reads and thread 1 is about to write. -/
def approached : State :=
  { mutex := { readCount := 1, readingCount := 1 },
    threads := [{ reads := 1 }, { pc := .enterWrite }, {}] }

/-- Thread 1 waits to write, and thread 2 has come to read and been woken for nothing. -/
def insistent : State :=
  { mutex := { readCount := 2, writeCount := 1, readingCount := 1 },
    threads := [{ reads := 1 }, { pc := .parkedWrite }, { pc := .wokenRead }] }

theorem approached_reachable : (machine false).Reachable Matched approached :=
  Machine.reachable_of_exec [.callReadLock 0, .readLock 0, .callWriteLock 1] ⟨3, rfl⟩ (by decide)

theorem strict_preference_insistent :
    ¬ insistent.Admits (insistent.waitRead 2 { pc := .wokenRead } insistent.mutex) .read :=
  (strict_preference false (i := 1) (a := .recheckRead 2) approached_reachable rfl
    (Machine.run_of_exec [.callReadLock 2, .readLock 2, .wakeReader 2] (by decide)) trivial
    rfl).1 rfl

end RwThreads
end TryAndLearn
