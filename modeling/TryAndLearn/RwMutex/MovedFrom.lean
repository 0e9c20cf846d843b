import TryAndLearn.Machine.Trace
import TryAndLearn.RwMutex.Release

/-!
# Destroying moved-from lock objects

A move leaves `mutex_ == nullptr` behind.  The move assignments look at their count
before they use `mutex_`, so they are at home on such an object, but no destructor
looks at `mutex_`: it calls `ReadUnlock` or `WriteUnlock` through the null pointer.
The model has no step for that, and `callsNull` is the state in which the code would
take it.

Each move leaves one object more without a mutex than it fills, so a sequence that has
moved anything and destroys every object destroys one without a mutex.  Without moves
nothing is called through a null pointer, and when the last object is gone the mutexes
are as they were made.
-/

namespace TryAndLearn
namespace RwObjects

/-- The next thing the object does is to call a member of `RwMutex` through a null
`mutex_`. -/
def LockObj.callsNull (x : LockObj) : Bool :=
  match x.todo with
  | [] => false
  | i :: rest => x.mutex.isNone && !x.skips i && (x.runOn rest i).isSome

/-- The destructor was called. -/
def LockObj.Destroyed (x : LockObj) : Prop := x.alive = false ∨ .free ∈ x.todo

instance (x : LockObj) : Decidable x.Destroyed := inferInstanceAs (Decidable (_ ∨ _))

/-- `Lock` and `Unlock`, in their read and write forms, are called on objects that own a
mutex. -/
def OwnersUsed (s : State) : Act → Prop
  | .call o .readLock | .call o .readUnlock | .call o .writeLock | .call o .writeUnlock =>
    ∀ x ∈ s.objs[o]?, x.mutex ≠ none
  | _ => True

instance (s : State) : (a : Act) → Decidable (OwnersUsed s a)
  | .call o .readLock | .call o .readUnlock | .call o .writeLock | .call o .writeUnlock =>
    inferInstanceAs (Decidable (∀ x ∈ s.objs[o]?, x.mutex ≠ none))
  | .construct _ _ _ _ | .moveConstruct _ | .exec _ | .call _ (.assign _) | .call _ .destroy =>
    inferInstanceAs (Decidable True)

/-- Move constructions and move assignments, and calls through a null `mutex_`. -/
inductive Event
  | move
  | nullCall
  deriving DecidableEq, Repr

def Act.moves : Act → Bool
  | .moveConstruct _ | .call _ (.assign _) => true
  | _ => false

def events (_ : State) (a : Act) (t : State) : List Event :=
  (if a.moves then [.move] else []) ++ if ∃ x ∈ t.objs, x.callsNull then [.nullCall] else []

/-- What a program with moves and destructions relies on. -/
structure SafelyDestroyed (s : State) (log : List Event) : Prop where
  no_null_call : .nullCall ∉ log
  released : (∀ x ∈ s.objs, x.alive = false) → ∀ m ∈ s.mutexes,
    m.readCount = 0 ∧ m.readingCount = 0 ∧ m.writeCount = 0 ∧ m.writing = false

/-! ## Objects without a mutex -/

/-- The instructions of a move assignment. -/
def Instr.assigns : Instr → Bool
  | .releaseRead | .releaseWrite | .swap _ => true
  | .readLock | .readUnlock _ | .writeLock | .writeUnlock _ | .free => false

/-- An object without a mutex is alive and in no method but a move assignment, or at the
beginning of its destructor. -/
def Orphan (x : LockObj) : Prop :=
  x.mutex = none → x.alive = true ∧
    ((∀ i ∈ x.todo, i.assigns = true) ∨ x.cls.body .destroy = some x.todo)

section Null

variable {x : LockObj} {m : RwMutex} {i : Instr} {rest : List Instr}

theorem assigns_of_body {cls : LockClass} {src : Nat} {body : List Instr}
    (h : cls.body (.assign src) = some body) : ∀ i ∈ body, i.assigns = true := by
  cases cls <;> simp only [LockClass.body, Option.some.injEq] at h <;> subst h <;>
    simp [Instr.assigns]

/-- The first instruction of every destructor is an unlock. -/
theorem callsNull_of_destroy (h : x.cls.body .destroy = some x.todo) (hm : x.mutex = none) :
    x.callsNull = true := by
  cases hcls : x.cls <;> simp only [hcls, LockClass.body, Option.some.injEq] at h <;>
    simp [LockObj.callsNull, ← h, hm, LockObj.skips, LockObj.runOn]

theorem mutex_of_callsNull (h : x.callsNull = true) : x.mutex = none := by
  unfold LockObj.callsNull at h
  split at h
  · exact absurd h (by decide)
  · simp only [Bool.and_eq_true, Option.isNone_iff_eq_none] at h
    exact h.1.1

theorem callsNull_of_assigns (hr : Releasing x) (h : ∀ i ∈ x.todo, i.assigns = true) :
    x.callsNull = false := by
  unfold LockObj.callsNull
  split
  · rfl
  · rename_i i rest htodo
    cases hm : x.mutex with
    | some k => rfl
    | none =>
      obtain ⟨hread, hwrite⟩ := hr.unowned hm
      have hassigns := h i (by simp [htodo])
      cases i <;> simp_all [Instr.assigns, LockObj.skips, LockObj.runOn]

/-- An object without a mutex that has nothing to release is in a move assignment. -/
theorem Orphan.assigns (h : Orphan x) (hm : x.mutex = none) (htodo : x.todo = i :: rest)
    (hskip : x.skips i = true) : ∀ j ∈ rest, j.assigns = true := by
  rcases (h hm).2 with hassigns | hbody
  · exact fun j hj => hassigns j (htodo ▸ List.mem_cons_of_mem i hj)
  · have hcalls := callsNull_of_destroy hbody hm
    simp [LockObj.callsNull, htodo, hskip] at hcalls

theorem orphan_step {s t : State} {a : Act} (hok : OwnersUsed s a)
    (hc : Counts s) (hr : ∀ x ∈ s.objs, Releasing x) (h : Moved s a t)
    (hs : ∀ x ∈ s.objs, Orphan x) : ∀ x ∈ t.objs, Orphan x := by
  have hnil (x : LockObj) (halive : x.alive = true) (htodo : x.todo = []) : Orphan x :=
    fun _ => ⟨halive, .inl fun i hi => by simp [htodo] at hi⟩
  have hbusy (x : LockObj) (i : Instr) (rest : List Instr) (hx : x ∈ s.objs)
      (htodo : x.todo = i :: rest) : x.alive = true := by
    cases halive : x.alive with
    | true => rfl
    | false => exact absurd (((hr x hx).dead halive).1.symm.trans htodo) (by simp)
  cases h with
  | construct _ =>
    intro x hx
    rcases List.mem_append.mp hx with hx | hx
    · exact hs x hx
    · obtain rfl := List.mem_singleton.mp hx
      exact fun hm => absurd hm (by simp)
  | @moveConstruct src y hsrc hidle =>
    intro x hx
    rcases List.mem_append.mp hx with hx | hx
    · exact forall_mem_set hs (hnil y.moved hidle.1 hidle.2) x hx
    · obtain rfl := List.mem_singleton.mp hx
      exact hnil x hidle.1 hidle.2
  | @call o x method body hx hidle hbody =>
    refine forall_mem_set hs fun hm => ⟨hidle.1, ?_⟩
    cases method with
    | assign src => exact .inl (assigns_of_body hbody)
    | destroy => exact .inr hbody
    | readLock | readUnlock | writeLock | writeUnlock => exact absurd hm (hok x hx)
  | @free o x rest hx htodo =>
    refine forall_mem_set hs fun hm => ?_
    have hmem := List.mem_of_getElem? hx
    -- the destructor did not come past its unlock
    rcases (hs x hmem hm).2 with hassigns | hbody
    · exact absurd (hassigns .free (htodo ▸ List.mem_cons_self)) (by decide)
    · have hcalls := callsNull_of_destroy hbody hm
      simp [LockObj.callsNull, htodo, LockObj.runOn] at hcalls
  | @skip o x i rest hx htodo hskip =>
    have hmem := List.mem_of_getElem? hx
    exact forall_mem_set hs fun hm =>
      ⟨hbusy x i rest hmem htodo, .inl ((hs x hmem).assigns hm htodo hskip)⟩
  | @swapSelf o x rest hx htodo =>
    have hmem := List.mem_of_getElem? hx
    obtain ⟨_, _, rfl⟩ := htodo ▸ (hr x hmem).clears
    exact forall_mem_set hs (hnil _ (hbusy x _ _ hmem htodo) rfl)
  | @swap o x src y rest hx htodo hne hsrc hidle hcls =>
    have hmem := List.mem_of_getElem? hx
    obtain ⟨_, _, rfl⟩ := htodo ▸ (hr x hmem).clears
    exact forall_mem_set (forall_mem_set hs (hnil _ (hbusy x _ _ hmem htodo) rfl))
      (hnil _ hidle.1 hidle.2)
  | @onMutex o x i rest run k m hx htodo hrun hmutex hm =>
    obtain ⟨hb, _⟩ := runOn_balanced (hc.objs x (List.mem_of_getElem? hx)) htodo hrun
      (hc.fits hx hmutex hm)
    exact forall_mem_set hs fun hn => absurd (hmutex.symm.trans (hb.mutex.symm.trans hn)) (by simp)

end Null

/-! ## What a move leaves -/

/-- The object has lost its mutex in a move, or is in a move assignment. -/
def Left (x : LockObj) : Prop := x.mutex = none ∨ ∃ src, .swap src ∈ x.todo

section Moves

variable {x : LockObj} {m : RwMutex} {i : Instr} {rest : List Instr} {s t : State} {a : Act}

theorem swap_mem_of_assign {cls : LockClass} {src : Nat} {body : List Instr}
    (h : cls.body (.assign src) = some body) : .swap src ∈ body := by
  cases cls <;> simp only [LockClass.body, Option.some.injEq] at h <;> subst h <;> simp

theorem swap_notMem_of_body {cls : LockClass} {method : Method} {body : List Instr}
    (h : cls.body method = some body) (hmoves : ∀ src, method ≠ .assign src) (src : Nat) :
    .swap src ∉ body := by
  cases method with
  | assign src => exact absurd rfl (hmoves src)
  | _ =>
    cases cls <;> simp only [LockClass.body, Option.some.injEq, reduceCtorEq] at h <;>
      subst h <;> simp

theorem swap_notMem_onConstruct (cls : LockClass) (readLock defer : Bool) (src : Nat) :
    .swap src ∉ cls.onConstruct readLock defer := by
  cases cls <;> cases readLock <;> cases defer <;> simp [LockClass.onConstruct]

/-- A section is over or waits. -/
theorem runOn_todo {run : RwMutex → RwMutex × LockObj} (hrun : x.runOn rest i = some run) :
    (run m).2.todo = rest ∨ (run m).2.todo = x.todo := by
  cases i with
  | readLock =>
    obtain rfl := Option.some.inj hrun
    unfold LockObj.readLockOn
    generalize (if x.waiting then (m, some x.readCount) else _) = entered
    dsimp only
    split
    · exact .inl rfl
    · exact .inr rfl
  | writeLock =>
    obtain rfl := Option.some.inj hrun
    unfold LockObj.writeLockOn
    generalize (if x.waiting then (m, some x.writeCount) else _) = entered
    dsimp only
    split
    · exact .inl rfl
    · exact .inr rfl
  | readUnlock _ | writeUnlock _ | releaseRead | releaseWrite =>
    obtain rfl := Option.some.inj hrun
    exact .inl rfl
  | swap _ | free => exact absurd hrun (by simp [LockObj.runOn])

/-- An object that does something else than `swap` stays what it is. -/
theorem left_rest (htodo : x.todo = i :: rest) (hi : ∀ src, i ≠ .swap src) {y : LockObj}
    (hmutex : y.mutex = x.mutex) (hy : y.todo = rest ∨ y.todo = x.todo) : Left y ↔ Left x := by
  have hswap (src : Nat) : .swap src ∈ y.todo ↔ .swap src ∈ x.todo := by
    rcases hy with hy | hy
    · rw [hy, htodo, List.mem_cons, or_iff_right (Ne.symm (hi src))]
    · rw [hy]
  simp only [Left, hmutex, hswap]

/-- One object becomes another that is as it was. -/
theorem exists_left_set {o : Nat} {y : LockObj} (hx : s.objs[o]? = some x)
    (hy : Left y ↔ Left x) : (∃ z ∈ s.objs.set o y, Left z) ↔ ∃ z ∈ s.objs, Left z := by
  constructor
  · rintro ⟨z, hz, hleft⟩
    rcases List.mem_or_eq_of_mem_set hz with hz | rfl
    · exact ⟨z, hz, hleft⟩
    · exact ⟨x, List.mem_of_getElem? hx, hy.mp hleft⟩
  · rintro ⟨z, hz, hleft⟩
    rcases mem_set_of_mem hx hz y with rfl | hz
    · exact ⟨y, mem_set_of_some hx y, hy.mpr hleft⟩
    · exact ⟨z, hz, hleft⟩

/-- Only a move leaves an object without a mutex, and then there is always one. -/
theorem exists_left_step (hc : Counts s) (h : Moved s a t) :
    (∃ x ∈ t.objs, Left x) ↔ a.moves = true ∨ ∃ x ∈ s.objs, Left x := by
  cases h with
  | @construct cls k readLock defer _ =>
    have hnew : ¬ Left { cls := cls, mutex := some k, todo := cls.onConstruct readLock defer } := by
      rintro (hm | ⟨src, hsrc⟩)
      · exact absurd hm (by simp)
      · exact swap_notMem_onConstruct cls readLock defer src hsrc
    simp [Act.moves, or_and_right, exists_or, hnew]
  | @moveConstruct src y hsrc hidle =>
    refine iff_of_true ⟨y.moved, List.mem_append_left _ (mem_set_of_some hsrc _), .inl rfl⟩ ?_
    exact .inl rfl
  | @call o x method body hx hidle hbody =>
    cases method with
    | assign src =>
      exact iff_of_true ⟨_, mem_set_of_some hx _, .inr ⟨src, swap_mem_of_assign hbody⟩⟩ (.inl rfl)
    | readLock | readUnlock | writeLock | writeUnlock | destroy =>
      have hswap := swap_notMem_of_body hbody (by simp)
      rw [State.setObj, exists_left_set hx (by simp [Left, hswap, hidle.2])]
      simp [Act.moves]
  | @free o x rest hx htodo =>
    have hleft : Left { x with todo := rest, alive := false } ↔ Left x :=
      left_rest htodo (by simp) rfl (.inl rfl)
    rw [State.setObj, exists_left_set hx hleft]
    simp [Act.moves]
  | @skip o x i rest hx htodo hskip =>
    have hi (src : Nat) : i ≠ .swap src := by
      rintro rfl
      exact absurd hskip (by simp [LockObj.skips])
    have hleft : Left { x with todo := rest } ↔ Left x := left_rest htodo hi rfl (.inl rfl)
    rw [State.setObj, exists_left_set hx hleft]
    simp [Act.moves]
  | @swapSelf o x rest hx htodo =>
    refine iff_of_true ⟨_, mem_set_of_some hx _, .inl rfl⟩ (.inr ⟨x, List.mem_of_getElem? hx, ?_⟩)
    exact .inr ⟨o, htodo ▸ List.mem_cons_self⟩
  | @swap o x src y rest hx htodo hne hsrc hidle hcls =>
    have hsrc' : (s.objs.set o ({ x with todo := rest }.takeFrom y))[src]? = some y := by
      rw [List.getElem?_set_ne (Ne.symm hne)]
      exact hsrc
    refine iff_of_true ⟨_, mem_set_of_some hsrc' _, .inl rfl⟩
      (.inr ⟨x, List.mem_of_getElem? hx, .inr ⟨src, htodo ▸ List.mem_cons_self⟩⟩)
  | @onMutex o x i rest run k m hx htodo hrun hmutex hm =>
    obtain ⟨hb, _⟩ := runOn_balanced (hc.objs x (List.mem_of_getElem? hx)) htodo hrun
      (hc.fits hx hmutex hm)
    have hi (src : Nat) : i ≠ .swap src := by
      rintro rfl
      exact absurd hrun (by simp [LockObj.runOn])
    rw [exists_left_set hx (left_rest htodo hi hb.mutex (runOn_todo hrun))]
    simp [Act.moves]

/-- A move assignment and a destructor are different methods. -/
theorem Clears.swap_notMem {todo : List Instr} {r w : Nat} (h : Clears todo r w)
    (hfree : .free ∈ todo) (src : Nat) : .swap src ∉ todo := by
  induction todo generalizing r w with
  | nil => simp
  | cons i rest ih =>
    cases i with
    | swap src' | free =>
      obtain ⟨_, _, rfl⟩ := h
      simp_all
    | readUnlock release | writeUnlock release =>
      have hrest : .free ∈ rest := by simpa using hfree
      cases release with
      | true => simpa using ih h hrest
      | false => simpa using ih (h r w) hrest
    | releaseRead | releaseWrite => simpa using ih h (by simpa using hfree)
    | readLock | writeLock => simpa using ih (h r w) (by simpa using hfree)

/-- An object that a move has left without a mutex does not come past the first call of its
destructor. -/
theorem callsNull_of_left (hr : Releasing x) (ho : Orphan x) (hleft : Left x)
    (hdestroyed : x.Destroyed) : x.callsNull = true := by
  rcases hleft with hm | ⟨src, hsrc⟩
  · obtain ⟨halive, hassigns | hbody⟩ := ho hm
    · rcases hdestroyed with hdead | hfree
      · exact absurd (halive.symm.trans hdead) (by decide)
      · exact absurd (hassigns .free hfree) (by decide)
    · exact callsNull_of_destroy hbody hm
  · rcases hdestroyed with hdead | hfree
    · rw [(hr.dead hdead).1] at hsrc
      exact absurd hsrc List.not_mem_nil
    · exact absurd hsrc (hr.clears.swap_notMem hfree src)

end Moves

/-! ## The flag of the writer -/

/-- Whoever set `writing_` is still counted as a writer. -/
def WriterCounted (m : RwMutex) : Prop := m.writing = true → 0 < m.writeCount

section Writer

variable {x : LockObj} {m : RwMutex} {i : Instr} {rest : List Instr}

theorem writeLockOn_writerCounted (hr : Releasing x) (htodo : x.todo = .writeLock :: rest)
    (hfit : x.Fits m) (hm : WriterCounted m) : WriterCounted (x.writeLockOn rest m).1 := by
  have hwaits := hr.waits
  rw [htodo] at hwaits
  have hle := hfit.write
  unfold LockObj.writeLockOn
  by_cases hwait : x.waiting = true
  · have hpos := hwaits hwait rfl
    simp only [hwait, if_true]
    split
    · exact fun _ => by simp only [RwMutex.writeLockAdmit]; omega
    · exact hm
  · simp only [hwait, if_false, Bool.false_eq_true]
    split
    · exact fun _ => by simp [RwMutex.writeLockAdmit, RwMutex.writeLockEnter]
    · exact fun _ => by simp [RwMutex.writeLockEnter]

theorem runOn_writerCounted {run : RwMutex → RwMutex × LockObj} (hr : Releasing x)
    (hx : x.WellFormed) (htodo : x.todo = i :: rest) (hrun : x.runOn rest i = some run)
    (hfit : x.Fits m) (hm : WriterCounted m) : WriterCounted (run m).1 := by
  have hread (hi : i ≠ .readLock) (hi' : i ≠ .writeLock) (release : Bool) :
      WriterCounted (x.readUnlockOn rest release m).1 := by
    have hw := LockObj.waiting_of_head hx htodo hi hi'
    have hcount := LockObj.reading_of_not_waiting hx hw
    obtain ⟨hmutex, _⟩ := RwMutex.readUnlock_some release hfit.read (hcount ▸ hfit.reading)
    unfold LockObj.readUnlockOn
    rw [← hcount]
    simp only [hmutex]
    exact hm
  have hwrite (release : Bool) : WriterCounted (x.writeUnlockOn rest release m).1 := by
    obtain ⟨hmutex, _⟩ := RwMutex.writeUnlock_some release hfit.write
    unfold LockObj.writeUnlockOn
    simp only [hmutex]
    exact fun hw => absurd hw (by simp)
  cases i with
  | readLock =>
    obtain rfl := Option.some.inj hrun
    unfold LockObj.readLockOn
    by_cases hwait : x.waiting = true
    · simp only [hwait, if_true]
      split <;> exact hm
    · simp only [hwait, if_false, Bool.false_eq_true]
      split <;> exact hm
  | writeLock =>
    obtain rfl := Option.some.inj hrun
    exact writeLockOn_writerCounted hr htodo hfit hm
  | readUnlock release =>
    obtain rfl := Option.some.inj hrun
    exact hread (by simp) (by simp) release
  | releaseRead =>
    obtain rfl := Option.some.inj hrun
    exact hread (by simp) (by simp) true
  | writeUnlock release =>
    obtain rfl := Option.some.inj hrun
    exact hwrite release
  | releaseWrite =>
    obtain rfl := Option.some.inj hrun
    exact hwrite true
  | swap src => exact absurd hrun (by simp [LockObj.runOn])
  | free => exact absurd hrun (by simp [LockObj.runOn])

theorem writerCounted_step {s t : State} {a : Act} (hc : Counts s)
    (hr : ∀ x ∈ s.objs, Releasing x) (h : Moved s a t)
    (hs : ∀ m ∈ s.mutexes, WriterCounted m) : ∀ m ∈ t.mutexes, WriterCounted m := by
  cases h with
  | onMutex hx htodo hrun hmutex hm =>
    have hmem := List.mem_of_getElem? hx
    exact forall_mem_set hs (runOn_writerCounted (hr _ hmem) (hc.objs _ hmem) htodo hrun
      (hc.fits hx hmutex hm) (hs _ (List.mem_of_getElem? hm)))
  | _ => exact hs

end Writer

/-! ## Runs -/

theorem reachable_writerCounted {ok : State → Act → Prop} {s : State}
    (h : machine.Reachable ok s) : ∀ m ∈ s.mutexes, WriterCounted m := by
  refine h.invariant (I := fun s => ∀ m ∈ s.mutexes, WriterCounted m) (fun s₀ h₀ m hm => ?_)
    fun hr _ hs hw => ?_
  · obtain ⟨reader, rfl⟩ := (fresh_of_init h₀).2 m hm
    exact fun hw => absurd hw (by simp)
  · obtain ⟨hc, hrel⟩ := reachable_counts hr
    exact writerCounted_step hc hrel (moved_of_step hs) hw

theorem reachable_orphan {s : State} (h : machine.Reachable OwnersUsed s) :
    ∀ x ∈ s.objs, Orphan x := by
  refine h.invariant (I := fun s => ∀ x ∈ s.objs, Orphan x) (fun s₀ h₀ => ?_)
    fun hr hok hs hh => ?_
  · simp [(fresh_of_init h₀).1]
  · obtain ⟨hc, hrel⟩ := reachable_counts hr
    exact orphan_step hok hc hrel (moved_of_step hs) hh

/-- A move assignment to a moved-from object is safe.  Only destructors call a member
through a null `mutex_`. -/
theorem destroying_of_callsNull {s : State} (h : machine.Reachable OwnersUsed s) {x : LockObj}
    (hx : x ∈ s.objs) (hcalls : x.callsNull = true) : x.cls.body .destroy = some x.todo := by
  have hr := (reachable_counts h).2 x hx
  refine ((reachable_orphan h x hx (mutex_of_callsNull hcalls)).2).resolve_left fun hassigns => ?_
  exact absurd (hcalls.symm.trans (callsNull_of_assigns hr hassigns)) (by decide)

/-- When the last object is gone no mutex counts anything. -/
theorem released_of_dead {ok : State → Act → Prop} {s : State} (h : machine.Reachable ok s)
    (hdead : ∀ x ∈ s.objs, x.alive = false) :
    ∀ m ∈ s.mutexes, m.readCount = 0 ∧ m.readingCount = 0 ∧ m.writeCount = 0 ∧
      m.writing = false := by
  intro m hm
  obtain ⟨hc, hr⟩ := reachable_counts h
  obtain ⟨k, hk⟩ := List.getElem?_of_mem hm
  have hzero (f : LockObj → Nat) (hf : ∀ x ∈ s.objs, f x = 0) : s.total k f = 0 := by
    refine tally_eq_zero_iff.mpr fun x hx => ?_
    rw [LockObj.on, hf x hx, ite_self]
  have hread : m.readCount = 0 :=
    (hc.read k m hk).trans (hzero _ fun x hx => ((hr x hx).dead (hdead x hx)).2.1)
  have hwrite : m.writeCount = 0 :=
    (hc.write k m hk).trans (hzero _ fun x hx => ((hr x hx).dead (hdead x hx)).2.2)
  have hreading : m.readingCount = 0 := by
    refine (hc.reading k m hk).trans (hzero _ fun x hx => ?_)
    have hle := (hc.objs x hx).reading
    have := ((hr x hx).dead (hdead x hx)).2.1
    omega
  refine ⟨hread, hreading, hwrite, Bool.eq_false_iff.mpr fun hw => ?_⟩
  have := reachable_writerCounted h m hm hw
  omega

/-! ## The record -/

section Record

variable {s t : State} {a : Act} {log : List Event}

theorem move_mem_events : .move ∈ events s a t ↔ a.moves = true := by
  unfold events
  split <;> split <;> simp [*]

theorem nullCall_mem_events :
    .nullCall ∈ events s a t ↔ ∃ x ∈ t.objs, x.callsNull = true := by
  unfold events
  split <;> split <;> simp [*]

/-- How the record and the objects agree. -/
structure Shown (s : State) (log : List Event) : Prop where
  move : .move ∈ log ↔ ∃ x ∈ s.objs, Left x
  nullCall : .nullCall ∈ log → .move ∈ log
  stuck : (∃ x ∈ s.objs, x.callsNull = true) → .nullCall ∈ log

theorem shown_step (hc : Counts s) (h : Moved s a t) (hs : Shown s log) :
    Shown t (log ++ events s a t) := by
  have hmove : .move ∈ log ++ events s a t ↔ ∃ x ∈ t.objs, Left x := by
    rw [List.mem_append, hs.move, move_mem_events, exists_left_step hc h, or_comm]
  refine ⟨hmove, fun hnull => ?_,
    fun hcalls => List.mem_append_right _ (nullCall_mem_events.mpr hcalls)⟩
  rcases List.mem_append.mp hnull with hnull | hnull
  · exact List.mem_append_left _ (hs.nullCall hnull)
  · obtain ⟨x, hx, hcalls⟩ := nullCall_mem_events.mp hnull
    exact hmove.mpr ⟨x, hx, .inl (mutex_of_callsNull hcalls)⟩

theorem reachable_shown
    (h : (machine.traced events).Reachable (Machine.lift OwnersUsed) (s, log)) : Shown s log := by
  refine h.traced_invariant (fun s₀ h₀ => ?_) fun hr _ hs hI => ?_
  · have hnil := (fresh_of_init h₀).1
    exact ⟨by simp [hnil], by simp, by simp [hnil]⟩
  · exact shown_step (reachable_counts hr).1 (moved_of_step hs) hI

end Record

/-- A run that destroys every object calls nothing through a null pointer, and leaves the
mutexes as they were made, if and only if it moves no object.  A run that has moved none is
safe at any time. -/
theorem destroyed_safely {s : State} {log : List Event}
    (h : (machine.traced events).Reachable (Machine.lift OwnersUsed) (s, log)) :
    ((∀ x ∈ s.objs, x.Destroyed) → (SafelyDestroyed s log ↔ .move ∉ log)) ∧
      (.move ∉ log → SafelyDestroyed s log) := by
  have hr := h.untraced
  have hshown := reachable_shown h
  have hsafe (hmove : .move ∉ log) : SafelyDestroyed s log :=
    ⟨fun hnull => hmove (hshown.nullCall hnull), released_of_dead hr⟩
  refine ⟨fun hall => ⟨fun hs hmove => ?_, hsafe⟩, hsafe⟩
  obtain ⟨x, hx, hleft⟩ := hshown.move.mp hmove
  exact hs.no_null_call (hshown.stuck ⟨x, hx, callsNull_of_left ((reachable_counts hr).2 x hx)
    (reachable_orphan hr x hx) hleft (hall x hx)⟩)

/-- A reader and a writer have used the mutex and were destroyed. -/
def allDestroyed : State :=
  { mutexes := [{}],
    objs := [{ cls := .uniqueReadLock, mutex := some 0, alive := false },
      { cls := .uniqueRwLock, mutex := some 0, alive := false }] }

theorem allDestroyed_reachable :
    (machine.traced events).Reachable (Machine.lift OwnersUsed) (allDestroyed, []) :=
  Machine.reachable_of_exec (s := ({ mutexes := [{}], objs := [] }, []))
    [.construct .uniqueReadLock 0 false false, .construct .uniqueRwLock 0 false false, .exec 0,
      .call 0 .destroy, .exec 1, .exec 0, .exec 0, .exec 1, .call 1 .destroy, .exec 1, .exec 1,
      .exec 1]
    ⟨⟨[false], rfl⟩, rfl⟩ (by decide)

theorem destroyed_safely_allDestroyed : SafelyDestroyed allDestroyed [] :=
  ((destroyed_safely allDestroyed_reachable).1 (by decide)).mpr (by decide)

/-- The destructor of object 0 has begun.  Its mutex went to object 1, which is gone. -/
def destroyedNull : State :=
  { mutexes := [{}],
    objs := [{ cls := .uniqueReadLock, mutex := none, todo := [.readUnlock true, .free] },
      { cls := .uniqueReadLock, mutex := some 0, alive := false }] }

theorem destroyed_safely_fails :
    ∃ log, (machine.traced events).Reachable (Machine.lift OwnersUsed) (destroyedNull, log) ∧
      (∀ x ∈ destroyedNull.objs, x.Destroyed) ∧ ¬ SafelyDestroyed destroyedNull log := by
  refine ⟨[.move, .nullCall], Machine.reachable_of_exec (s := ({ mutexes := [{}], objs := [] }, []))
    [.construct .uniqueReadLock 0 false true, .moveConstruct 0, .call 1 .destroy, .exec 1, .exec 1,
      .call 0 .destroy]
    ⟨⟨[false], rfl⟩, rfl⟩ (by decide), by decide, fun h => ?_⟩
  exact h.no_null_call (by decide)

end RwObjects
end TryAndLearn
