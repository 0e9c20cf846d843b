import TryAndLearn.Batcher.Basic

/-!
# What a `Batcher` emits

The batches cut the items into consecutive pieces, and none of them is empty or shorter
than the batch size.  Only a change of the batch size while items are cached makes a
batch longer than it: the next `AddItem` then emits all that is there.

The statements read the notifier and the batch size off the record of the calls, not off
the batcher.
-/

namespace TryAndLearn
namespace Batcher

variable {ν α : Type*}

def Event.call : Event ν α → Option (Call ν α)
  | .called c => some c
  | .emitted _ _ => none

def Event.batch : Event ν α → Option (List α)
  | .called _ => none
  | .emitted batch _ => some batch

def Call.item : Call ν α → Option α
  | .addItem item => some item
  | .setNotifier _ | .setBatchSize _ => none

/-- The notifier after a call, if it was `notifier` before. -/
def Call.notifierAfter (notifier : Option ν) : Call ν α → Option ν
  | .setNotifier notifier => notifier
  | .addItem _ | .setBatchSize _ => notifier

/-- The batch size after a call, if it was `bs` before. -/
def Call.batchSizeAfter (bs : UInt32) : Call ν α → UInt32
  | .setBatchSize bs => bs
  | .addItem _ | .setNotifier _ => bs

section Record

variable (log : List (Event ν α))

def calls : List (Call ν α) := log.filterMap Event.call

/-- The items in the order of addition. -/
def added : List α := (calls log).filterMap Call.item

/-- The batches in the order of emission. -/
def batches : List (List α) := log.filterMap Event.batch

def notifierIn : Option ν := (calls log).foldl Call.notifierAfter none

def batchSizeIn : UInt32 := (calls log).foldl Call.batchSizeAfter 0

/-- The batch size has not changed since the last emission, or since the start. -/
def Steady : Prop :=
  ∀ earlier since, log = earlier ++ since → batches since = [] →
    batchSizeIn earlier = batchSizeIn log

end Record

/-- What the emission of `batch` owes to what happened before it. -/
structure Proper (before : List (Event ν α)) (batch : List α) (effect : Effect ν α) : Prop where
  passed : ∀ notifier, notifierIn before = some notifier → effect = .async notifier batch
  dropped : notifierIn before = none →
    effect = .print "Batcher donot have notifier, do nothing"
  nonempty : batch ≠ []
  enough : (batchSizeIn before).toNat ≤ batch.length
  steady : Steady before → batch.length = max 1 (batchSizeIn before).toNat

structure Partitioned (b : Batcher ν α) (log : List (Event ν α)) : Prop where
  items : (batches log).flatten ++ b.cache = added log
  emissions : ∀ before batch effect after, log = before ++ .emitted batch effect :: after →
    Proper before batch effect
  room : ∀ item, (calls log).getLast? = some (.addItem item) →
    b.cache.length < max 1 b.batchSize.toNat

/-! ## The record of one more event -/

section Append

variable {log : List (Event ν α)} {c : Call ν α} {batch : List α} {effect : Effect ν α}

@[simp] theorem calls_append (log shown : List (Event ν α)) :
    calls (log ++ shown) = calls log ++ calls shown := List.filterMap_append

@[simp] theorem batches_append (log shown : List (Event ν α)) :
    batches (log ++ shown) = batches log ++ batches shown := List.filterMap_append

@[simp] theorem added_append (log shown : List (Event ν α)) :
    added (log ++ shown) = added log ++ added shown := by
  simp [added, List.filterMap_append]

@[simp] theorem calls_called (c : Call ν α) : calls [.called c] = [c] := rfl

@[simp] theorem batches_called (c : Call ν α) : batches [.called c] = [] := rfl

@[simp] theorem calls_emitted (batch : List α) (effect : Effect ν α) :
    calls [.emitted batch effect] = [] := rfl

theorem append_pair (log : List (Event ν α)) (e e' : Event ν α) :
    log ++ [e, e'] = log ++ [e] ++ [e'] := by simp

theorem notifierIn_called (log : List (Event ν α)) (c : Call ν α) :
    notifierIn (log ++ [.called c]) = c.notifierAfter (notifierIn log) := by
  simp [notifierIn, List.foldl_append]

theorem batchSizeIn_called (log : List (Event ν α)) (c : Call ν α) :
    batchSizeIn (log ++ [.called c]) = c.batchSizeAfter (batchSizeIn log) := by
  simp [batchSizeIn, List.foldl_append]

theorem notifierIn_emitted (log : List (Event ν α)) (batch : List α) (effect : Effect ν α) :
    notifierIn (log ++ [.emitted batch effect]) = notifierIn log := by
  simp [notifierIn]

theorem batchSizeIn_emitted (log : List (Event ν α)) (batch : List α) (effect : Effect ν α) :
    batchSizeIn (log ++ [.emitted batch effect]) = batchSizeIn log := by
  simp [batchSizeIn]

/-- A call after which the batch size is steady has not changed it. -/
theorem Steady.batchSizeIn_eq (h : Steady (log ++ [.called c])) :
    batchSizeIn log = batchSizeIn (log ++ [.called c]) := h log _ rfl rfl

theorem Steady.before (h : Steady (log ++ [.called c])) : Steady log := by
  intro earlier since hlog hnone
  rw [h.batchSizeIn_eq]
  refine h earlier (since ++ [.called c]) ?_ ?_
  · rw [hlog, List.append_assoc]
  · rw [batches_append, hnone]
    rfl

end Append

/-! ## The invariant -/

/-- The batcher is what its record says, and while the batch size is steady the cache is
short of a batch. -/
structure Agrees (b : Batcher ν α) (log : List (Event ν α)) : Prop where
  notifier : b.notifier = notifierIn log
  batchSize : b.batchSize = batchSizeIn log
  short : Steady log → b.cache.length < max 1 b.batchSize.toNat

section Step

variable {b b' : Batcher ν α} {log shown : List (Event ν α)}

theorem agrees_step (h : Moved b b' shown) (hb : Agrees b log) : Agrees b' (log ++ shown) := by
  cases h with
  | @cached item hroom =>
    refine ⟨?_, ?_, fun _ => ?_⟩
    · rw [notifierIn_called]
      exact hb.notifier
    · rw [batchSizeIn_called]
      exact hb.batchSize
    · simp only [emplaceBack, List.length_append, List.length_singleton]
      omega
  | @emitted item hfull =>
    refine ⟨?_, ?_, fun _ => ?_⟩
    · rw [append_pair, notifierIn_emitted, notifierIn_called]
      exact hb.notifier
    · rw [append_pair, batchSizeIn_emitted, batchSizeIn_called]
      exact hb.batchSize
    · show 0 < max 1 b.batchSize.toNat
      omega
  | @setNotifier notifier =>
    refine ⟨?_, ?_, fun hsteady => hb.short hsteady.before⟩
    · rw [notifierIn_called]
      rfl
    · rw [batchSizeIn_called]
      exact hb.batchSize
  | @setBatchSize bs =>
    have hbs : bs = batchSizeIn (log ++ [.called (.setBatchSize bs)]) := by
      rw [batchSizeIn_called]
      rfl
    refine ⟨?_, hbs, fun hsteady => ?_⟩
    · rw [notifierIn_called]
      exact hb.notifier
    · have hshort := hb.short hsteady.before
      rw [hb.batchSize, hsteady.batchSizeIn_eq, ← hbs] at hshort
      exact hshort

/-- The batch that an `AddItem` fills. -/
theorem proper_of_full (hb : Agrees b log) {item : α}
    (hfull : b.batchSize.toNat ≤ b.cache.length + 1) :
    Proper (log ++ [.called (.addItem item)]) (b.cache ++ [item])
      (b.emplaceBack item).notification := by
  have hnotifier : notifierIn (log ++ [.called (.addItem item)]) = b.notifier := by
    rw [notifierIn_called]
    exact hb.notifier.symm
  have hsize : batchSizeIn (log ++ [.called (.addItem item)]) = b.batchSize := by
    rw [batchSizeIn_called]
    exact hb.batchSize.symm
  have hlength : (b.cache ++ [item]).length = b.cache.length + 1 := by simp
  refine ⟨fun notifier hn => ?_, fun hn => ?_, by simp, ?_, fun hsteady => ?_⟩
  · rw [hnotifier] at hn
    simp [notification, emplaceBack, hn]
  · rw [hnotifier] at hn
    simp [notification, emplaceBack, hn]
  · rw [hsize, hlength]
    exact hfull
  · have hshort := hb.short hsteady.before
    rw [hsize, hlength]
    omega

theorem partitioned_step (h : Moved b b' shown) (hb : Agrees b log) (hp : Partitioned b log) :
    Partitioned b' (log ++ shown) := by
  have hitems := hp.items
  have hcalled {c : Call ν α} {before batch effect after}
      (heq : log ++ [.called c] = before ++ .emitted batch effect :: after) :
      Proper before batch effect := by
    rcases Machine.append_single_split heq with ⟨rest, hlog, _⟩ | ⟨_, habs, _⟩
    · exact hp.emissions before batch effect rest hlog
    · cases habs
  cases h with
  | @cached item hroom =>
    refine ⟨?_, fun _ _ _ _ => hcalled, fun _ _ => ?_⟩
    · rw [batches_append, added_append, ← hitems, batches_called, List.append_nil,
        List.append_assoc]
      rfl
    · simp only [emplaceBack, List.length_append, List.length_singleton]
      omega
  | @emitted item hfull =>
    refine ⟨?_, fun before batch effect after heq => ?_, fun _ _ => ?_⟩
    · rw [batches_append, added_append, ← hitems, List.append_assoc, List.flatten_append]
      show _ ++ [b.cache ++ [item]].flatten ++ [] = _ ++ (b.cache ++ [item])
      simp
    · rw [append_pair] at heq
      rcases Machine.append_single_split heq with ⟨rest, hlog, _⟩ | ⟨rfl, hlast, _⟩
      · exact hcalled hlog
      · obtain ⟨rfl, rfl⟩ := Event.emitted.inj hlast
        exact proper_of_full hb hfull
    · show 0 < max 1 b.batchSize.toNat
      omega
  | setNotifier | setBatchSize =>
    refine ⟨?_, fun _ _ _ _ => hcalled, fun _ hlast => ?_⟩
    · rw [batches_append, added_append, ← hitems, batches_called, List.append_nil]
      show _ = _ ++ []
      rw [List.append_nil]
      rfl
    · rw [calls_append, calls_called, List.getLast?_concat] at hlast
      cases hlast

theorem reachable_partitioned
    (h : (machine.traced see).Reachable (Machine.lift Machine.anyStep) (b, log)) :
    Agrees b log ∧ Partitioned b log := by
  refine h.traced_invariant (I := fun b log => Agrees b log ∧ Partitioned b log) ?_ ?_
  · intro b hb
    obtain rfl : b = {} := hb
    refine ⟨⟨rfl, rfl, fun _ => Nat.zero_lt_one⟩, rfl, fun before _ _ after heq => ?_,
      fun _ hlast => ?_⟩
    · exact absurd heq (by simp)
    · cases hlast
  · intro b b' log c _ _ hs hI
    have hm := moved_of_step hs
    exact ⟨agrees_step hm hI.1, partitioned_step hm hI.1 hI.2⟩

end Step

/-- The emitted batches and `cache_` are the items added, cut into pieces; each batch goes
whole to the notifier of its moment, and is as long as the batch size asks for. -/
theorem batcher_partitions {b : Batcher ν α} {log : List (Event ν α)}
    (h : (machine.traced see).Reachable (Machine.lift Machine.anyStep) (b, log)) :
    Partitioned b log :=
  (reachable_partitioned h).2

/-- The first item is dropped alone, and lowering the batch size to 2 with two items cached
makes the next batch one of three. -/
theorem batcher_partitions_lowered :
    Partitioned (⟨[5], some 7, 2⟩ : Batcher Nat Nat)
      [.called (.addItem 1), .emitted [1] (.print "Batcher donot have notifier, do nothing"),
        .called (.setBatchSize 4), .called (.setNotifier (some 7)), .called (.addItem 2),
        .called (.addItem 3), .called (.setBatchSize 2), .called (.addItem 4),
        .emitted [2, 3, 4] (.async 7 [2, 3, 4]), .called (.addItem 5)] :=
  batcher_partitions <|
    Machine.reachable_of_exec (s := (({} : Batcher Nat Nat), []))
      [.addItem 1, .setBatchSize 4, .setNotifier (some 7), .addItem 2, .addItem 3,
        .setBatchSize 2, .addItem 4, .addItem 5]
      ⟨rfl, rfl⟩ (by decide)

end Batcher
end TryAndLearn
