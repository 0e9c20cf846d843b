import TryAndLearn.Machine.Inevitable
import TryAndLearn.RwMutex.Wakeup

/-!
# The lock calls return

Threads that hold nothing when they call `ReadLock` or `WriteLock`, and give back what
they have got, all come to an end: when no new call is made, every call returns and
every lock is given back, whatever the scheduler does and without a spurious wake-up.
An unlock notifies at most once and a notification wakes each thread at most once, so the
open calls, the notifications to come and the threads that are awake are a measure.

A thread that asks for the write lock while it reads waits for itself.
-/

namespace TryAndLearn
namespace RwThreads

/-! ## Threads that hold nothing when they call -/

/-- A thread unlocks what it has locked, and calls a lock when it holds nothing. -/
def Single (s : State) : Act → Prop
  | .callReadLock i | .callWriteLock i => ∃ th ∈ s.threads[i]?, th.reads = 0 ∧ th.writes = 0
  | a => Matched s a

instance (s : State) : (a : Act) → Decidable (Single s a)
  | .callReadLock i | .callWriteLock i =>
    inferInstanceAs (Decidable (∃ th ∈ s.threads[i]?, th.reads = 0 ∧ th.writes = 0))
  | .readUnlock i => inferInstanceAs (Decidable (Matched s (.readUnlock i)))
  | .writeUnlock i => inferInstanceAs (Decidable (Matched s (.writeUnlock i)))
  | .readLock _ | .writeLock _ | .recheckRead _ | .recheckWrite _ | .wakeReader _ | .wakeWriter _
  | .notifyOne _ _ | .notifyAll _ => inferInstanceAs (Decidable True)

theorem Single.matched {s : State} {a : Act} (h : Single s a) : Matched s a := by
  cases a <;> first | exact h | trivial

/-- No new call, no spurious wake-up. -/
def Goes (s : State) : Act → Prop
  | .callReadLock _ | .callWriteLock _ | .wakeReader _ | .wakeWriter _ => False
  | a => Matched s a

theorem Goes.single {s : State} {a : Act} (h : Goes s a) : Single s a := by
  cases a <;> first | exact h | cases h

/-- A thread that holds something is outside of the calls, and it holds one lock. -/
def Thread.Settled (th : Thread) : Prop :=
  th.reads + th.writes ≤ 1 ∧ (th.pc ≠ .outside → th.reads + th.writes = 0)

theorem settled_unparkRead {th : Thread} (h : th.Settled) : th.unparkRead.Settled := by
  unfold Thread.unparkRead
  split
  · rename_i hpc
    have := h.2 (by simp [hpc])
    exact ⟨h.1, fun _ => this⟩
  · exact h

theorem settled_waitRead {s : State} {i : Nat} {th : Thread} {m : RwMutex}
    (hs : ∀ th ∈ s.threads, th.Settled) (h : s.threads[i]? = some th) (hpc : th.pc ≠ .outside) :
    ∀ u ∈ (s.waitRead i th m).threads, u.Settled := by
  have hzero := (hs th (List.mem_of_getElem? h)).2 hpc
  unfold State.waitRead
  split
  · exact forall_mem_set hs ⟨by show th.reads + 1 + th.writes ≤ 1; omega, by simp⟩
  · exact forall_mem_set hs ⟨by show th.reads + th.writes ≤ 1; omega, fun _ => hzero⟩

theorem settled_waitWrite {s : State} {i : Nat} {th : Thread} {m : RwMutex}
    (hs : ∀ th ∈ s.threads, th.Settled) (h : s.threads[i]? = some th) (hpc : th.pc ≠ .outside) :
    ∀ u ∈ (s.waitWrite i th m).threads, u.Settled := by
  have hzero := (hs th (List.mem_of_getElem? h)).2 hpc
  unfold State.waitWrite
  split
  · exact forall_mem_set hs ⟨by show th.reads + (th.writes + 1) ≤ 1; omega, by simp⟩
  · exact forall_mem_set hs ⟨by show th.reads + th.writes ≤ 1; omega, fun _ => hzero⟩

theorem settled_step {s t : State} {a : Act} (hok : Single s a) (h : Moved s a t)
    (hs : ∀ th ∈ s.threads, th.Settled) : ∀ th ∈ t.threads, th.Settled := by
  have hof {i : Nat} {th : Thread} (h : s.threads[i]? = some th) : th.Settled :=
    hs th (List.mem_of_getElem? h)
  cases h with
  | callRead h hpc | callWrite h hpc =>
    obtain ⟨th', hth', hr, hw⟩ := hok
    obtain rfl := Option.some.inj (h.symm.trans hth')
    exact forall_mem_set hs ⟨by simp [hr, hw], by simp [hr, hw]⟩
  | enterRead h hpc | recheckRead h hpc => exact settled_waitRead hs h (by simp [hpc])
  | enterWrite h hpc | recheckWrite h hpc => exact settled_waitWrite hs h (by simp [hpc])
  | wakeReader h hpc | wakeWriter h hpc =>
    have := (hof h).2 (by simp [hpc])
    exact forall_mem_set hs ⟨(hof h).1, fun _ => this⟩
  | @readUnlock i th h hpc =>
    obtain ⟨th', hth', hheld⟩ := hok
    obtain rfl := Option.some.inj (h.symm.trans hth')
    have := (hof h).1
    exact forall_mem_set hs ⟨by show th.reads - 1 + th.writes ≤ 1; omega,
      fun _ => by show th.reads - 1 + th.writes = 0; omega⟩
  | @writeUnlock i th h hpc =>
    obtain ⟨th', hth', hheld⟩ := hok
    obtain rfl := Option.some.inj (h.symm.trans hth')
    have := (hof h).1
    exact forall_mem_set hs ⟨by show th.reads + (th.writes - 1) ≤ 1; omega,
      fun _ => by show th.reads + (th.writes - 1) = 0; omega⟩
  | notifyNobody h hpc hnone => exact forall_mem_set hs ⟨(hof h).1, by simp⟩
  | notifyOne h hpc hj hw =>
    have := (hof hj).2 (by simp [hw])
    exact forall_mem_set (forall_mem_set hs ⟨(hof h).1, by simp⟩) ⟨(hof hj).1, fun _ => this⟩
  | @notifyAll i th h hpc =>
    intro u hu
    obtain ⟨v, hv, rfl⟩ := List.mem_map.mp hu
    have hset := forall_mem_set (i := i) (a := { th with pc := .outside }) hs
      ⟨(hof h).1, by simp⟩
    exact settled_unparkRead (hset v hv)

theorem reachable_settled {reader : Bool} {s : State}
    (h : (machine reader).Reachable Single s) : ∀ th ∈ s.threads, th.Settled := by
  refine h.invariant (I := fun s => ∀ th ∈ s.threads, th.Settled) ?_ fun _ hok hs hI =>
    settled_step hok (moved_of_step hs) hI
  rintro _ ⟨n, rfl⟩ th hth
  obtain rfl := List.eq_of_mem_replicate hth
  exact ⟨by simp, by simp⟩

/-! ## The measure -/

/-- Its calls that have not been unlocked, also those in which it still is. -/
def Thread.opened (th : Thread) : Nat :=
  th.reads + th.writes + match th.pc with
    | .enterRead | .parkedRead | .wokenRead | .enterWrite | .parkedWrite | .wokenWrite => 1
    | .outside | .notifyWriter | .notifyReaders => 0

def Thread.notifies (th : Thread) : Nat :=
  match th.pc with
  | .notifyWriter | .notifyReaders => 1
  | _ => 0

def Thread.awake (th : Thread) : Nat :=
  match th.pc with
  | .enterRead | .wokenRead | .enterWrite | .wokenWrite => 1
  | _ => 0

def State.work (s : State) : Nat × Nat × Nat :=
  (tally Thread.opened s.threads, tally Thread.notifies s.threads, tally Thread.awake s.threads)

theorem less_set {s : State} {i : Nat} {th th' : Thread} {m' : RwMutex}
    (h : s.threads[i]? = some th)
    (hlt : Less (th'.opened, th'.notifies, th'.awake) (th.opened, th.notifies, th.awake)) :
    Less (State.work { mutex := m', threads := s.threads.set i th' }) s.work :=
  less_tally_set h hlt

theorem less_waitRead {s : State} {i : Nat} {th : Thread} {m : RwMutex}
    (h : s.threads[i]? = some th) (hpc : th.pc = .enterRead ∨ th.pc = .wokenRead) :
    Less (s.waitRead i th m).work s.work := by
  unfold State.waitRead
  split
  all_goals
    refine less_set h (less_iff.mpr ?_)
    rcases hpc with hpc | hpc <;>
      simp [Thread.opened, Thread.notifies, Thread.awake, hpc] <;> omega

theorem less_waitWrite {s : State} {i : Nat} {th : Thread} {m : RwMutex}
    (h : s.threads[i]? = some th) (hpc : th.pc = .enterWrite ∨ th.pc = .wokenWrite) :
    Less (s.waitWrite i th m).work s.work := by
  unfold State.waitWrite
  split
  all_goals
    refine less_set h (less_iff.mpr ?_)
    rcases hpc with hpc | hpc <;>
      simp [Thread.opened, Thread.notifies, Thread.awake, hpc] <;> omega

theorem opened_afterUnlock (n : Notify) (r w : Nat) :
    Thread.opened { pc := afterUnlock n, reads := r, writes := w } = r + w := by
  cases n <;> rfl

@[simp] theorem unparkRead_opened (th : Thread) : th.unparkRead.opened = th.opened := by
  unfold Thread.unparkRead
  split
  · rename_i hpc
    simp [Thread.opened, hpc]
  · rfl

@[simp] theorem unparkRead_notifies (th : Thread) : th.unparkRead.notifies = th.notifies := by
  unfold Thread.unparkRead
  split
  · rename_i hpc
    simp [Thread.notifies, hpc]
  · rfl

/-- The thread that notifies is not the one it wakes. -/
theorem parked_beside {s : State} {i j : Nat} {th w : Thread} (h : s.threads[i]? = some th)
    (hpc : th.pc = .notifyWriter) (hj : s.threads[j]? = some w) (hw : w.pc = .parkedWrite)
    (th' : Thread) : (s.threads.set i th')[j]? = some w := by
  have hij : i ≠ j := by
    rintro rfl
    obtain rfl := Option.some.inj (h.symm.trans hj)
    exact absurd (hpc.symm.trans hw) (by decide)
  rwa [List.getElem?_set_ne hij]

/-- The two threads a notification moves, in a total that does not count the move. -/
theorem tally_notifyOne {s : State} {i j : Nat} {th w : Thread} {f : Thread → Nat}
    (h : s.threads[i]? = some th) (hpc : th.pc = .notifyWriter) (hj : s.threads[j]? = some w)
    (hw : w.pc = .parkedWrite) (hth : f { th with pc := .outside } = f th)
    (hf : f { w with pc := .wokenWrite } = f w) :
    tally f ((s.threads.set i { th with pc := .outside }).set j { w with pc := .wokenWrite }) =
      tally f s.threads := by
  rw [tally_set_of_eq (parked_beside h hpc hj hw _) hf, tally_set_of_eq h hth]

theorem notifies_notifyOne {s : State} {i j : Nat} {th w : Thread}
    (h : s.threads[i]? = some th) (hpc : th.pc = .notifyWriter) (hj : s.threads[j]? = some w)
    (hw : w.pc = .parkedWrite) :
    tally Thread.notifies
        ((s.threads.set i { th with pc := .outside }).set j { w with pc := .wokenWrite }) <
      tally Thread.notifies s.threads := by
  have hn := tally_set h Thread.notifies { th with pc := .outside }
  have hn' := tally_set (parked_beside h hpc hj hw { th with pc := .outside }) Thread.notifies
    { w with pc := .wokenWrite }
  have hone : th.notifies = 1 := by simp [Thread.notifies, hpc]
  have hout : Thread.notifies { th with pc := .outside } = 0 := rfl
  have hwoken : Thread.notifies { w with pc := .wokenWrite } = 0 := rfl
  omega

theorem tally_notifyAll {s : State} {i : Nat} {th : Thread} {f : Thread → Nat}
    (h : s.threads[i]? = some th) (hth : f { th with pc := .outside } = f th)
    (hf : ∀ u : Thread, f u.unparkRead = f u) :
    tally f ((s.threads.set i { th with pc := .outside }).map Thread.unparkRead) =
      tally f s.threads := by
  rw [tally_map]
  simp only [hf]
  exact tally_set_of_eq h hth

theorem notifies_notifyAll {s : State} {i : Nat} {th : Thread} (h : s.threads[i]? = some th)
    (hpc : th.pc = .notifyReaders) :
    tally Thread.notifies ((s.threads.set i { th with pc := .outside }).map Thread.unparkRead) <
      tally Thread.notifies s.threads := by
  have hn := tally_set h Thread.notifies { th with pc := .outside }
  have hone : th.notifies = 1 := by simp [Thread.notifies, hpc]
  have hout : Thread.notifies { th with pc := .outside } = 0 := rfl
  rw [tally_map]
  simp only [unparkRead_notifies]
  show tally Thread.notifies _ < _
  omega

theorem less_step {s t : State} {a : Act} (hok : Goes s a) (h : Moved s a t) :
    Less t.work s.work := by
  cases h with
  | callRead | callWrite | wakeReader | wakeWriter => cases hok
  | enterRead h hpc => exact less_waitRead h (.inl hpc)
  | recheckRead h hpc => exact less_waitRead h (.inr hpc)
  | enterWrite h hpc => exact less_waitWrite h (.inl hpc)
  | recheckWrite h hpc => exact less_waitWrite h (.inr hpc)
  | @readUnlock i th h hpc =>
    obtain ⟨th', hth', hheld⟩ := hok
    obtain rfl := Option.some.inj (h.symm.trans hth')
    refine less_set h (less_iff.mpr (.inl ?_))
    rw [opened_afterUnlock]
    simp only [Thread.opened, hpc]
    omega
  | @writeUnlock i th h hpc =>
    obtain ⟨th', hth', hheld⟩ := hok
    obtain rfl := Option.some.inj (h.symm.trans hth')
    refine less_set h (less_iff.mpr (.inl ?_))
    rw [opened_afterUnlock]
    simp only [Thread.opened, hpc]
    omega
  | notifyNobody h hpc _ =>
    refine less_set h (less_iff.mpr (.inr ⟨?_, .inl ?_⟩))
    · simp [Thread.opened, hpc]
    · simp [Thread.notifies, hpc]
  | notifyOne h hpc hj hw =>
    refine less_iff.mpr (.inr ⟨?_, .inl (notifies_notifyOne h hpc hj hw)⟩)
    exact tally_notifyOne h hpc hj hw (by simp [Thread.opened, hpc]) (by simp [Thread.opened, hw])
  | notifyAll h hpc =>
    refine less_iff.mpr (.inr ⟨?_, .inl (notifies_notifyAll h hpc)⟩)
    exact tally_notifyAll h (by simp [Thread.opened, hpc]) unparkRead_opened

/-! ## Somebody can go on -/

/-- Nobody is in a call, and nobody holds the mutex. -/
def Idle (s : State) : Prop :=
  ∀ th ∈ s.threads, th.pc = .outside ∧ th.reads = 0 ∧ th.writes = 0

/-- A thread that is neither outside nor parked can take a step. -/
theorem exists_step_of_awake {s : State} {i : Nat} {th : Thread} (h : s.threads[i]? = some th)
    (hpc : th.pc ≠ .outside ∧ th.pc ≠ .parkedRead ∧ th.pc ≠ .parkedWrite) :
    ∃ a t, Goes s a ∧ step s a = some t := by
  have hat {pc : Pc} (hth : th.pc = pc) : s.threadAt i pc = some th :=
    State.threadAt_eq_some.mpr ⟨h, hth⟩
  cases hth : th.pc with
  | outside => exact absurd hth hpc.1
  | parkedRead => exact absurd hth hpc.2.1
  | parkedWrite => exact absurd hth hpc.2.2
  | enterRead => exact ⟨.readLock i, _, trivial, by rw [step, hat hth]; rfl⟩
  | wokenRead => exact ⟨.recheckRead i, _, trivial, by rw [step, hat hth]; rfl⟩
  | enterWrite => exact ⟨.writeLock i, _, trivial, by rw [step, hat hth]; rfl⟩
  | wokenWrite => exact ⟨.recheckWrite i, _, trivial, by rw [step, hat hth]; rfl⟩
  | notifyReaders => exact ⟨.notifyAll i, _, trivial, by rw [step, hat hth]; rfl⟩
  | notifyWriter =>
    obtain ⟨target, t, hs, _⟩ := exists_notifyOne h hth
    exact ⟨.notifyOne i target, t, trivial, hs⟩

theorem exists_step_of_holder {s : State} {i : Nat} {th : Thread} (h : s.threads[i]? = some th)
    (hpc : th.pc = .outside) (hheld : 0 < th.reads ∨ 0 < th.writes) :
    ∃ a t, Goes s a ∧ step s a = some t := by
  have hat := State.threadAt_eq_some.mpr ⟨h, hpc⟩
  rcases hheld with hr | hw
  · exact ⟨.readUnlock i, _, ⟨th, h, hr⟩, by rw [step, hat]; rfl⟩
  · exact ⟨.writeUnlock i, _, ⟨th, h, hw⟩, by rw [step, hat]; rfl⟩

/-- A state that is not idle and in which nobody can go on has a thread that is parked
while it holds a lock. -/
theorem exists_step_or_parked {reader : Bool} {s : State}
    (h : (machine reader).Reachable Matched s) (hidle : ¬Idle s) :
    (∃ a t, Goes s a ∧ step s a = some t) ∨
      ∃ th ∈ s.threads, (th.pc = .parkedRead ∨ th.pc = .parkedWrite) ∧
        0 < th.reads + th.writes := by
  by_contra hnot
  obtain ⟨hnone, hparked⟩ := not_or.mp hnot
  have hpc : ∀ th ∈ s.threads, th.pc = .outside ∨ th.pc = .parkedRead ∨ th.pc = .parkedWrite := by
    intro th hth
    by_contra hne
    simp only [not_or] at hne
    obtain ⟨i, hi⟩ := List.mem_iff_getElem?.mp hth
    exact hnone (exists_step_of_awake hi hne)
  have hfree : ∀ th ∈ s.threads, th.reads = 0 ∧ th.writes = 0 := by
    intro th hth
    obtain ⟨i, hi⟩ := List.mem_iff_getElem?.mp hth
    by_contra hheld
    rcases hpc th hth with hout | hwaits
    · exact hnone (exists_step_of_holder hi hout (by omega))
    · exact hparked ⟨th, hth, hwaits, by omega⟩
  have hcount (pc : Pc) (hp : pc ≠ .outside ∧ pc ≠ .parkedRead ∧ pc ≠ .parkedWrite) :
      s.count pc = 0 := by
    refine tally_eq_zero_iff.mpr fun th hth => Thread.at_of_ne fun heq => ?_
    rw [← heq] at hp
    rcases hpc th hth with h | h | h
    · exact hp.1 h
    · exact hp.2.1 h
    · exact hp.2.2 h
  obtain ⟨hcovW, hcovR⟩ := reachable_covered h
  have hnobody := nobody_parked (reachable_counted h) hcovW hcovR
    (tally_eq_zero_iff.mpr fun th hth => (hfree th hth).1)
    (tally_eq_zero_iff.mpr fun th hth => (hfree th hth).2) (hcount _ (by decide))
    (hcount _ (by decide)) fun th hth hcan => by
      rcases hpc th hth with h | h | h <;> simp [Thread.CanEnter, h] at hcan
  refine hidle fun th hth => ⟨?_, hfree th hth⟩
  have hpos := count_pos_of_mem hth
  rcases hpc th hth with h | h | h
  · exact h
  · rw [h] at hpos
    omega
  · rw [h] at hpos
    omega

theorem exists_step {reader : Bool} {s : State} (h : (machine reader).Reachable Single s)
    (hidle : ¬Idle s) : ∃ a t, Goes s a ∧ step s a = some t := by
  rcases exists_step_or_parked (h.mono fun _ _ => Single.matched) hidle with
    hstep | ⟨th, hth, hpc, hheld⟩
  · exact hstep
  · have := (reachable_settled h th hth).2 (by rcases hpc with hpc | hpc <;> simp [hpc])
    omega

/-- When no new call is made, every call returns and every lock is given back, in either
mode and whatever the scheduler does. -/
theorem inevitable_idle (reader : Bool) {s : State}
    (h : (machine reader).Reachable Single s) :
    (machine reader).Inevitable Goes Idle s := by
  refine Machine.Inevitable.of_measure (I := (machine reader).Reachable Single)
    wellFounded_less State.work (fun h hidle => exists_step h hidle) ?_ h
  intro s t a h _ hok hs
  exact ⟨h.next hok.single hs, less_step hok (moved_of_step hs)⟩

theorem handover_single : (machine false).Reachable Single handover :=
  Machine.reachable_of_exec (s := start false 3)
    [.callReadLock 0, .readLock 0, .callReadLock 1, .readLock 1, .callWriteLock 2, .writeLock 2,
      .readUnlock 0, .readUnlock 1] ⟨3, rfl⟩ (by decide)

theorem inevitable_idle_handover : (machine false).Inevitable Goes Idle handover :=
  inevitable_idle false handover_single

end RwThreads
end TryAndLearn
