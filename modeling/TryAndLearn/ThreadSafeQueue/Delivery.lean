import TryAndLearn.Machine.Channel
import TryAndLearn.ThreadSafeQueue.Threads

/-!
# What a `ThreadSafeQueue` delivers

With its record the queue is a channel: a push is a value that enters, a pop that
returns a value is one that leaves.  What the channel promises about the order of
values holds of the queue for both containers.

The other half is about waiting.  A notification is made while `data_m_` is held, so a
value that finds somebody parked has one thread woken for it.  A thread parks only on
an empty queue, and one that is woken takes a value away or finds none.  Whoever takes
a value out of turn makes the queue shorter and leaves the woken thread on its way.
-/

namespace TryAndLearn
namespace QueueThreads

open ThreadSafeQueue (order order_of_getFrontAndPop perm_of_getFrontAndPop)

variable {τ : Type*} [LT τ] [DecidableLT τ]

namespace Event

def entering : Event τ → Option τ
  | .pushed v => some v
  | .popped _ _ | .gaveUp _ => none

def leaving : Event τ → Option (Departure τ)
  | .popped v rest => some ⟨v, rest⟩
  | .pushed _ | .gaveUp _ => none

end Event

/-- The values pushed, in the order of the sections that pushed them. -/
def pushed (log : List (Event τ)) : List τ := log.filterMap Event.entering

/-- The values that calls have returned, in the order of their sections. -/
def popped (log : List (Event τ)) : List τ :=
  (log.filterMap Event.leaving).map Departure.value

/-- The queue and its record, as a channel. -/
def channel (p : State τ × List (Event τ)) : Channel τ :=
  { entered := pushed p.2, content := p.1.queue, departed := p.2.filterMap Event.leaving }

def Pc.parks (pc : Pc) : Nat := if pc = .parked then 1 else 0

/-- Woken for whatever reason and not yet at the queue again. -/
def Pc.wakes : Pc → Nat
  | .woken _ => 1
  | .outside | .parked => 0

/-- Woken by a notification and not yet at the queue again. -/
def Pc.notified (pc : Pc) : Nat := if pc = .woken .notified then 1 else 0

namespace State

def parked (s : State τ) : Nat := tally Pc.parks s.threads

def woken (s : State τ) : Nat := tally Pc.wakes s.threads

def notified (s : State τ) : Nat := tally Pc.notified s.threads

end State

/-! ## The order of values -/

section Order

variable {kind : QueueKind} {s t : State τ} {a : Act τ} {log shown : List (Event τ)}

theorem shows_of_moved (h : Moved kind s t shown) :
    channel (t, log ++ shown) = channel (s, log) ∨
      ∃ y, (Channel.machine (order kind)).step (channel (s, log)) y =
        some (channel (t, log ++ shown)) := by
  have hnone : channel (s, log ++ ([] : List (Event τ))) = channel (s, log) := by
    rw [List.append_nil]
  cases h with
  | @notify v j _ =>
    refine .inr ⟨.enter v, ?_⟩
    simp [channel, pushed, Channel.step_enter, Event.entering, Event.leaving]
  | @notifyNobody v _ =>
    refine .inr ⟨.enter v, ?_⟩
    simp [channel, pushed, Channel.step_enter, Event.entering, Event.leaving]
  | @pop i pc choice v rest hi hpc hpop =>
    obtain ⟨k, hk, hv, rfl⟩ := order_of_getFrontAndPop hpop
    refine .inr ⟨.leave k, ?_⟩
    simp [channel, pushed, Channel.step_leave hk hv, Event.entering, Event.leaving]
  | giveUp _ _ =>
    left
    simp [channel, pushed, Event.entering, Event.leaving]
  | park _ _ _ | returnNone _ _ | wake _ _ => exact .inl hnone

/-- A `ThreadSafeQueue` with its record implements a channel. -/
theorem simulates_channel {ok : State τ → Act τ → Prop} :
    ((machine kind).traced (see kind)).Simulates (Machine.lift ok) (Channel.machine (order kind))
      channel := by
  refine Machine.traced_simulates (fun s₀ h₀ => ?_) fun _ _ hs => shows_of_moved (moved_of_step hs)
  obtain ⟨n, rfl⟩ := h₀
  rfl

/-- A `WaitAndTryPop` gives up only on an empty queue. -/
theorem gaveUp_empty {ok : State τ → Act τ → Prop}
    (h : ((machine kind).traced (see kind)).Reachable (Machine.lift ok) (s, log)) :
    ∀ q, .gaveUp q ∈ log → q = [] := by
  refine h.traced_invariant (I := fun _ log => ∀ q : List τ, .gaveUp q ∈ log → q = []) ?_ ?_
  · exact fun _ _ q hq => absurd hq List.not_mem_nil
  · intro s t log a _ _ hs hI q hq
    have hm := moved_of_step hs
    rcases List.mem_append.mp hq with hq | hq
    · exact hI q hq
    · generalize see kind s a t = shown at hm hq
      cases hm with
      | giveUp _ hempty =>
        obtain ⟨rfl⟩ := List.mem_singleton.mp hq
        exact hempty
      | _ => simp at hq

end Order

/-! ## Waiting -/

/-- While a thread is parked, the queue is no longer than what others have been woken
for. -/
def Attended (s : State τ) : Prop := 0 < s.parked → s.queue.length ≤ s.notified

section Waiting

variable {kind : QueueKind} {s t : State τ} {shown : List (Event τ)}

omit [LT τ] [DecidableLT τ] in
theorem notified_le_woken (s : State τ) : s.notified ≤ s.woken := by
  refine tally_mono fun pc _ => ?_
  unfold Pc.notified Pc.wakes
  split
  · rename_i h
    rw [h]
  · omega

theorem attended_step (h : Moved kind s t shown) (hs : Attended s) : Attended t := by
  have hset {i : Nat} {pc : Pc} (hi : s.threads[i]? = some pc) (pc' : Pc) :=
    And.intro (tally_set hi Pc.parks pc') (tally_set hi Pc.notified pc')
  unfold Attended State.parked State.notified at *
  cases h with
  | @notify v j hj =>
    obtain ⟨hp, hn⟩ := hset hj (.woken .notified)
    simp only [Pc.parks, Pc.notified, reduceCtorEq, if_true, if_false] at hp hn
    simp only [List.length_append, List.length_singleton]
    omega
  | notifyNobody hnone =>
    intro hpos
    obtain ⟨j, pc, hj, hparks⟩ := exists_of_tally_pos hpos
    have hpc : pc = .parked := by
      by_contra hne
      simp [Pc.parks, hne] at hparks
    exact absurd (hpc ▸ List.mem_of_getElem? hj) hnone
  | @pop i pc choice v rest hi hpc hpop =>
    obtain ⟨hp, hn⟩ := hset hi .outside
    have hlen := (perm_of_getFrontAndPop hpop).length_eq
    have hle : pc.notified ≤ 1 := by
      unfold Pc.notified
      split <;> omega
    have hzero : pc.parks = 0 := if_neg hpc
    simp only [Pc.parks, Pc.notified, reduceCtorEq, if_false, List.length_cons] at hp hn hlen
    simp only [Pc.parks, Pc.notified] at hle hzero
    simp only
    omega
  | park _ _ hempty | giveUp _ hempty | returnNone _ hempty =>
    intro _
    simp [hempty]
  | @wake i why hi hwhy =>
    obtain ⟨hp, hn⟩ := hset hi (.woken why)
    have hwoken : Pc.notified (.woken why) = 0 := by simp [Pc.notified, hwhy]
    simp only [Pc.parks, Pc.notified, reduceCtorEq, if_true, if_false] at hp hn hwoken
    simp only
    omega

theorem reachable_attended {ok : State τ → Act τ → Prop} (h : (machine kind).Reachable ok s) :
    Attended s := by
  refine h.invariant (fun s₀ h₀ => ?_) fun _ _ hs hI => attended_step (moved_of_step hs) hI
  obtain ⟨n, rfl⟩ := h₀
  intro hpos
  simp [State.parked, Pc.parks] at hpos

end Waiting

/-- `ThreadSafeQueue` loses and duplicates nothing, gives values back in the order of its
container, and leaves no value lying while a thread is parked that nobody has been woken
for. -/
theorem queue_delivers (kind : QueueKind) {s : State τ} {log : List (Event τ)}
    (h : ((machine kind).traced (see kind)).Reachable (Machine.lift Machine.anyStep) (s, log)) :
    (pushed log : Multiset τ) = popped log + s.queue ∧
      (kind = .queue → pushed log = popped log ++ s.queue) ∧
      (kind = .priorityQueue → ∀ v rest, .popped v rest ∈ log → ∀ u ∈ rest, ¬ v < u) ∧
      (∀ q, .gaveUp q ∈ log → q = []) ∧
      (0 < s.parked → s.queue.length ≤ s.notified ∧ s.notified ≤ s.woken) := by
  have hch := simulates_channel.reachable h
  refine ⟨?_, ?_, ?_, gaveUp_empty h, fun hpos => ⟨?_, notified_le_woken s⟩⟩
  · rw [Multiset.coe_add]
    exact Multiset.coe_eq_coe.mpr (Channel.reachable_perm hch)
  · rintro rfl
    exact Channel.reachable_first (fun _ _ hi => hi) hch
  · rintro rfl v rest hmem
    refine Channel.reachable_maximal (fun _ _ hmax => hmax) hch ⟨v, rest⟩ ?_
    exact List.mem_filterMap.mpr ⟨_, hmem, rfl⟩
  · exact reachable_attended h.untraced hpos

/-- Thread 3 gave up once.  Then threads 0, 1 and 3 parked, two pushes of thread 2 woke
threads 0 and 1, and before they came thread 2 took the larger value away. -/
def contested : State Nat :=
  { queue := [4], threads := [.woken .notified, .woken .notified, .outside, .parked] }

def contestedLog : List (Event Nat) := [.gaveUp [], .pushed 4, .pushed 7, .popped 7 [4]]

theorem contested_reachable :
    ((machine .priorityQueue).traced (see .priorityQueue)).Reachable
      (Machine.lift Machine.anyStep) (contested, contestedLog) :=
  Machine.reachable_of_exec (s := ({ threads := List.replicate 4 .outside }, []))
    [.waitAndTryPop 3 0, .timeOut 3, .recheck 3 0, .waitAndTryPop 0 0, .waitAndTryPop 1 0,
      .waitAndTryPop 3 0, .push 2 4 (some 0), .push 2 7 (some 1), .tryPop 2 1]
    ⟨⟨4, rfl⟩, rfl⟩ (by decide)

theorem queue_delivers_contested : contested.queue.length ≤ contested.notified :=
  ((queue_delivers .priorityQueue contested_reachable).2.2.2.2 (by decide)).1

end QueueThreads
end TryAndLearn
