/-
The critical sections of `RwMutex`.

Every function of `RwMutex` runs under `mutex_`, so between two threads only whole
critical sections interleave.  `ReadLock` and `WriteLock` are cut at their
condition-variable wait: the part before it, the predicate of the wait, and the
part after it.  The pointer arguments `count` and `reading` are `none` for
`nullptr` and otherwise carry the counter of the lock object they point to.
-/
import Mathlib.Tactic.Common

namespace TryAndLearn

/-- `--x` on a `size_t`: zero wraps to the largest value.  `++x` is `x + 1`; no
counter of this development reaches `2 ^ 64` in fewer than `2 ^ 64` calls unless a
decrement has wrapped it first. -/
def sizeDec : Nat → Nat
  | 0 => UInt64.size - 1
  | n + 1 => n

@[simp] theorem sizeDec_succ (n : Nat) : sizeDec (n + 1) = n := rfl

theorem sizeDec_of_pos {n : Nat} (h : 0 < n) : sizeDec n = n - 1 := by
  obtain ⟨k, rfl⟩ : ∃ k, n = k + 1 := ⟨n - 1, by omega⟩
  rfl

/-- `if (a >= b) a -= b; else a = 0;` -/
def clampSub (a b : Nat) : Nat := if b ≤ a then a - b else 0

@[simp] theorem clampSub_eq (a b : Nat) : clampSub a b = a - b := by
  unfold clampSub
  split <;> omega

structure RwMutex where
  reader : Bool := false
  readCount : Nat := 0
  writeCount : Nat := 0
  readingCount : Nat := 0
  writing : Bool := false
  deriving DecidableEq, Repr

/-- The notification an unlock issues after it has released `mutex_`. -/
inductive Notify
  | nobody
  | oneWriter
  | allReaders
  deriving DecidableEq, Repr

/-- What an unlock leaves behind: the mutex, the two counters of the lock object
it was called for, and its notification. -/
structure Unlocked where
  mutex : RwMutex
  count : Option Nat
  reading : Option Nat := none
  notify : Notify := .nobody
  deriving DecidableEq, Repr

namespace RwMutex

/-! ## ReadLock and WriteLock -/

/-- `++read_count_; if (count) ++*count;` -/
def readLockEnter (m : RwMutex) (count : Option Nat) : RwMutex × Option Nat :=
  ({ m with readCount := m.readCount + 1 }, count.map (· + 1))

/-- The predicate `ReadLock` waits for on `read_cv_`. -/
def readReady (m : RwMutex) : Bool :=
  (m.reader && !m.writing) || (!m.reader && m.writeCount == 0)

/-- `++reading_count_; if (reading) ++*reading;` -/
def readLockAdmit (m : RwMutex) (reading : Option Nat) : RwMutex × Option Nat :=
  ({ m with readingCount := m.readingCount + 1 }, reading.map (· + 1))

/-- `++write_count_; if (count) ++*count;` -/
def writeLockEnter (m : RwMutex) (count : Option Nat) : RwMutex × Option Nat :=
  ({ m with writeCount := m.writeCount + 1 }, count.map (· + 1))

/-- The predicate `WriteLock` waits for on `write_cv_`. -/
def writeReady (m : RwMutex) : Bool :=
  ((m.reader && m.readCount == 0) || (!m.reader && m.readingCount == 0)) && !m.writing

/-- `writing_ = true;` -/
def writeLockAdmit (m : RwMutex) : RwMutex := { m with writing := true }

/-! ## ReadUnlock and WriteUnlock -/

/-- The decrement of `read_count_` or `write_count_` together with `*count`, which
both unlocks write out the same way.  A null `count` takes the `else` branch. -/
def dropCount (total : Nat) (count : Option Nat) (release : Bool) : Nat × Option Nat :=
  match count with
  | none => (sizeDec total, none)
  | some c => if release then (clampSub total c, some 0) else (sizeDec total, some (sizeDec c))

/-- The decrement of `reading_count_` together with `*reading`. -/
def dropReading (total : Nat) (reading : Option Nat) (release : Bool) : Nat × Option Nat :=
  match reading with
  | none => (if 0 < total then sizeDec total else total, none)
  | some r =>
    if release then (clampSub total r, some 0)
    else (if 0 < total then sizeDec total else total, some (if 0 < r then sizeDec r else r))

/-- `reading && *reading > *count`, where `count` is not null. -/
def exceeds (reading count : Option Nat) : Bool :=
  match reading, count with
  | some r, some c => decide (c < r)
  | _, _ => false

def readUnlock (m : RwMutex) (count reading : Option Nat) (release : Bool := false) : Unlocked :=
  if m.readCount = 0 ∨ count = some 0 ∨ exceeds reading count then
    { mutex := m, count := count, reading := reading }
  else
    let (readCount, count) := dropCount m.readCount count release
    let (readingCount, reading) := dropReading m.readingCount reading release
    let m := { m with readCount := readCount, readingCount := readingCount }
    let wake := ((m.reader && m.readCount == 0) || (!m.reader && m.readingCount == 0)) &&
      decide (0 < m.writeCount)
    { mutex := m, count := count, reading := reading,
      notify := if wake then .oneWriter else .nobody }

/-- `writing_` is cleared before `*count` is looked at. -/
def writeUnlock (m : RwMutex) (count : Option Nat) (release : Bool := false) : Unlocked :=
  let m := { m with writing := false }
  if count = some 0 then { mutex := m, count := count }
  else
    let (writeCount, count) := dropCount m.writeCount count release
    let m := { m with writeCount := writeCount }
    let notify :=
      if (m.reader && decide (0 < m.readCount)) || (!m.reader && m.writeCount == 0) then
        Notify.allReaders
      else if 0 < m.writeCount then .oneWriter
      else .nobody
    { mutex := m, count := count, notify := notify }

/-! ## The unlocks without a lock object -/

@[simp] theorem dropReading_none (total : Nat) (release : Bool) :
    dropReading total none release = (total - 1, none) := by
  unfold dropReading
  by_cases h : 0 < total
  · simp [h, sizeDec_of_pos h]
  · simp [h]
    omega

theorem readUnlock_none_mutex {m : RwMutex} (h : 0 < m.readCount) :
    (m.readUnlock none none).mutex =
      { m with readCount := m.readCount - 1, readingCount := m.readingCount - 1 } := by
  have hne : m.readCount ≠ 0 := by omega
  simp [readUnlock, exceeds, dropCount, hne, sizeDec_of_pos h]

theorem writeUnlock_none_mutex {m : RwMutex} (h : 0 < m.writeCount) :
    (m.writeUnlock none).mutex =
      { m with writing := false, writeCount := m.writeCount - 1 } := by
  simp [writeUnlock, dropCount, sizeDec_of_pos h]

/-- An unlock of a reader that lets a writer in notifies one, if any is there. -/
theorem readUnlock_none_notify {m : RwMutex} (h : 0 < m.readCount) (hw : 0 < m.writeCount)
    (hready : (m.readUnlock none none).mutex.writeReady = true) :
    (m.readUnlock none none).notify = .oneWriter := by
  have hne : m.readCount ≠ 0 := by omega
  rw [readUnlock_none_mutex h] at hready
  simp only [writeReady, Bool.and_eq_true] at hready
  simp [readUnlock, exceeds, dropCount, hne, sizeDec_of_pos h, hready.1, hw]

/-- An unlock of a writer that lets readers in notifies them, if any is there. -/
theorem writeUnlock_none_readers {m : RwMutex} (h : 0 < m.writeCount)
    (hready : (m.writeUnlock none).mutex.readReady = true) :
    (m.writeUnlock none).notify = .allReaders ∨ m.readCount = 0 := by
  rw [writeUnlock_none_mutex h] at hready
  rcases Nat.eq_zero_or_pos m.readCount with hz | hpos
  · exact .inr hz
  · left
    cases hm : m.reader <;> simp_all [readReady, writeUnlock, dropCount, sizeDec_of_pos]

/-- An unlock of a writer that lets a writer in notifies one, if any is left. -/
theorem writeUnlock_none_writer {m : RwMutex} (h : 0 < m.writeCount)
    (hready : (m.writeUnlock none).mutex.writeReady = true) :
    (m.writeUnlock none).notify = .oneWriter ∨ m.writeCount = 1 := by
  rw [writeUnlock_none_mutex h] at hready
  rcases Nat.lt_or_ge 1 m.writeCount with hlt | hle
  · left
    have hne : m.writeCount - 1 ≠ 0 := by omega
    have hpos : 0 < m.writeCount - 1 := by omega
    cases hm : m.reader <;>
      simp_all [writeReady, writeUnlock, dropCount, sizeDec_of_pos h]
  · exact .inr (by omega)

/-! ## The unlocks of a lock object

The object passes the addresses of its own counters, and what it gives back it has
put in: its counts are at most the mutex's.  `released` is the part an unlock takes
off, all of it in a destructor and one otherwise. -/

def released (c : Nat) (release : Bool) : Nat := if release then c else min c 1

theorem readUnlock_some {m : RwMutex} {c : Nat} (release : Bool) (hread : c ≤ m.readCount)
    (hreading : c ≤ m.readingCount) :
    (m.readUnlock (some c) (some c) release).mutex =
        { m with readCount := m.readCount - released c release,
                 readingCount := m.readingCount - released c release } ∧
      (m.readUnlock (some c) (some c) release).count = some (c - released c release) ∧
      (m.readUnlock (some c) (some c) release).reading = some (c - released c release) := by
  rcases Nat.eq_zero_or_pos c with rfl | hpos
  · cases release <;> simp [readUnlock, released]
  · have hne : m.readCount ≠ 0 := by omega
    have hc : c ≠ 0 := by omega
    have hone : min c 1 = 1 := by omega
    cases release <;>
      simp [readUnlock, released, exceeds, dropCount, dropReading, hne, hc, hone, hpos,
        sizeDec_of_pos hpos, sizeDec_of_pos (show 0 < m.readCount by omega),
        sizeDec_of_pos (show 0 < m.readingCount by omega), show 0 < m.readingCount by omega]

theorem writeUnlock_some {m : RwMutex} {c : Nat} (release : Bool) (hwrite : c ≤ m.writeCount) :
    (m.writeUnlock (some c) release).mutex =
        { m with writing := false, writeCount := m.writeCount - released c release } ∧
      (m.writeUnlock (some c) release).count = some (c - released c release) := by
  rcases Nat.eq_zero_or_pos c with rfl | hpos
  · cases release <;> simp [writeUnlock, released]
  · have hc : c ≠ 0 := by omega
    have hone : min c 1 = 1 := by omega
    cases release <;>
      simp [writeUnlock, released, dropCount, hc, hone, sizeDec_of_pos hpos,
        sizeDec_of_pos (show 0 < m.writeCount by omega)]

end RwMutex
end TryAndLearn
