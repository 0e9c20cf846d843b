import TryAndLearn.Machine.Exclusion
import TryAndLearn.RwMutex.Counts

/-!
# Mutual exclusion of lock objects

`WriteUnlock` clears `writing_` before it looks at the object's count, so an object
that holds nothing takes the mutex away from the writer that holds it.  Both
classes of runs below reach such a step: a `UniqueWriteLock` that was never locked,
or unlocked before, still calls `WriteUnlock` in `Unlock` and in its destructor,
and the destructor of a `UniqueRwLock` that only reads calls it after it has let a
writer in.

Apart from that step the lock objects exclude one another.  `NoStrayRelease` is the
condition that a `WriteUnlock` of an object with nothing to unlock finds `writing_`
false, and under it each mutex simulates the abstract lock of `Holders`.
-/

namespace TryAndLearn
namespace RwObjects

namespace LockObj

def reads (x : LockObj) : Nat := x.holdsRead.toNat

def writes (x : LockObj) : Nat := x.holdsWrite.toNat

def waitsWrite (x : LockObj) : Nat :=
  if x.waiting = true ∧ x.todo.head? = some .writeLock then 1 else 0

def HoldsNothing (x : LockObj) : Prop := x.holdsRead = false ∧ x.holdsWrite = false

instance (x : LockObj) : Decidable x.HoldsNothing := inferInstanceAs (Decidable (_ ∧ _))

/-- The object is about to call `WriteUnlock` with nothing to unlock. -/
def strayRelease (x : LockObj) : Bool :=
  match x.todo with
  | .writeUnlock _ :: _ => x.writeCount == 0
  | _ => false

end LockObj

/-- No `WriteUnlock` of an object with `count_ == 0` runs while `writing_` is
true. -/
def NoStrayRelease (s : State) : Act → Prop
  | .exec o => ∀ x ∈ s.objs[o]?, ∀ k ∈ x.mutex, ∀ m ∈ s.mutexes[k]?,
      x.strayRelease = true → m.writing = false
  | _ => True

/-- No moves, and a lock call only on an object that holds nothing. -/
def Plain (s : State) : Act → Prop
  | .construct _ _ _ _ => True
  | .moveConstruct _ => False
  | .call _ (.assign _) => False
  | .call o .readLock => ∀ x ∈ s.objs[o]?, x.HoldsNothing
  | .call o .writeLock => ∀ x ∈ s.objs[o]?, x.HoldsNothing
  | .call _ _ => True
  | .exec _ => True

def Act.constructs : Act → Option LockClass
  | .construct cls _ _ _ => some cls
  | _ => none

/-- Objects of `UniqueReadLock` and `UniqueWriteLock`, each constructed locked or
deferred, then used by `Lock`, `Unlock` and the destructor.  `Lock` is called only
on an object that holds nothing. -/
def UniqueUse (s : State) (a : Act) : Prop :=
  Plain s a ∧ a.constructs ≠ some .uniqueRwLock

/-- Objects of `UniqueRwLock`, each constructed locked in one mode and destroyed. -/
def RwUse (_ : State) : Act → Prop
  | .construct cls _ _ defer => cls = .uniqueRwLock ∧ defer = false
  | .moveConstruct _ => False
  | .call _ method => method = .destroy
  | .exec _ => True

instance (s : State) : (a : Act) → Decidable (NoStrayRelease s a)
  | .exec o => inferInstanceAs (Decidable (∀ x ∈ s.objs[o]?, ∀ k ∈ x.mutex, ∀ m ∈ s.mutexes[k]?,
      x.strayRelease = true → m.writing = false))
  | .construct _ _ _ _ | .moveConstruct _ | .call _ _ => inferInstanceAs (Decidable True)

instance (s : State) : (a : Act) → Decidable (Plain s a)
  | .call o .readLock | .call o .writeLock =>
    inferInstanceAs (Decidable (∀ x ∈ s.objs[o]?, x.HoldsNothing))
  | .moveConstruct _ | .call _ (.assign _) => inferInstanceAs (Decidable False)
  | .construct _ _ _ _ | .exec _ | .call _ .readUnlock | .call _ .writeUnlock
  | .call _ .destroy => inferInstanceAs (Decidable True)

instance (s : State) (a : Act) : Decidable (UniqueUse s a) := inferInstanceAs (Decidable (_ ∧ _))

instance (s : State) : (a : Act) → Decidable (RwUse s a)
  | .construct cls _ _ defer =>
    inferInstanceAs (Decidable (cls = .uniqueRwLock ∧ defer = false))
  | .moveConstruct _ => inferInstanceAs (Decidable False)
  | .call _ method => inferInstanceAs (Decidable (method = .destroy))
  | .exec _ => inferInstanceAs (Decidable True)

theorem plain_of_rwUse {s : State} {a : Act} (h : RwUse s a) : Plain s a := by
  cases a with
  | call o method =>
    obtain rfl : method = .destroy := h
    trivial
  | moveConstruct => exact h
  | _ => trivial

/-! ## One section -/

/-- No move is left to do, and a lock call can only come first. -/
structure PlainTodo (todo : List Instr) : Prop where
  unmoved : ∀ i ∈ todo, i ≠ .releaseRead ∧ i ≠ .releaseWrite ∧ ∀ src, i ≠ .swap src
  single : ∀ i ∈ todo.tail, i ≠ .readLock ∧ i ≠ .writeLock

/-- An object outside moves: it reads what it holds, it counts as a writer what it
holds or waits for, and it is in a lock call only while it holds nothing. -/
structure Steady (x : LockObj) : Prop where
  todo : PlainTodo x.todo
  read : x.readingCount = x.reads
  write : x.writeCount = x.writes + x.waitsWrite
  locking : x.todo.head? = some .readLock ∨ x.todo.head? = some .writeLock → x.HoldsNothing

/-- What a section does to the holders of its mutex. -/
inductive HoldsStep (m : RwMutex) (x x' : LockObj) : Prop
  | same (hr : x'.reads = x.reads) (hw : x'.writes = x.writes)
  | acquireRead (hready : m.readReady = true) (hr : x'.reads = x.reads + 1)
      (hw : x'.writes = x.writes)
  | acquireWrite (hready : m.writeReady = true) (hr : x'.reads = x.reads)
      (hw : x'.writes = x.writes + 1)
  | releaseRead (hr : x'.reads + 1 = x.reads) (hw : x'.writes = x.writes)
  | releaseWrite (hr : x'.reads = x.reads) (hw : x'.writes + 1 = x.writes)

/-- A section keeps `writing_` true for as many holders as there are. -/
structure Exact (m m' : RwMutex) (x x' : LockObj) : Prop where
  holds : HoldsStep m x x'
  steady : Steady x'
  writing : m'.writing.toNat + x.writes = m.writing.toNat + x'.writes

theorem PlainTodo.rest {i : Instr} {rest : List Instr} (h : PlainTodo (i :: rest)) :
    PlainTodo rest where
  unmoved j hj := h.unmoved j (List.mem_cons_of_mem i hj)
  single j hj := h.single j (List.mem_of_mem_tail hj)

/-- After a section the rest of a plain program holds no lock call. -/
theorem PlainTodo.rest_head {i : Instr} {rest : List Instr} (h : PlainTodo (i :: rest)) :
    ¬ (rest.head? = some .readLock ∨ rest.head? = some .writeLock) := by
  rintro (hhead | hhead)
  · exact (h.single _ (List.mem_of_mem_head? hhead)).1 rfl
  · exact (h.single _ (List.mem_of_mem_head? hhead)).2 rfl

/-- An object that waits for nothing is steady in whatever plain program it starts
next, if it holds what it counts. -/
theorem steady_of_not_waiting {x : LockObj} (ht : PlainTodo x.todo) (hw : x.waiting = false)
    (hr : x.readingCount = x.reads) (hwr : x.writeCount = x.writes)
    (hl : x.todo.head? = some .readLock ∨ x.todo.head? = some .writeLock → x.HoldsNothing) :
    Steady x where
  todo := ht
  read := hr
  write := by
    rw [LockObj.waitsWrite, if_neg (by simp [hw])]
    exact hwr
  locking := hl

theorem Steady.write_of_not_waiting {x : LockObj} (h : Steady x) (hw : x.waiting = false) :
    x.writeCount = x.writes := by
  have := h.write
  rw [LockObj.waitsWrite, if_neg (by simp [hw])] at this
  exact this

section Sections

variable {x : LockObj} {m : RwMutex} {i : Instr} {rest : List Instr}

theorem readLockOn_exact (hs : Steady x) (htodo : x.todo = .readLock :: rest) :
    Exact m (x.readLockOn rest m).1 x (x.readLockOn rest m).2 := by
  obtain ⟨hnor, hnow⟩ := hs.locking (.inl (by rw [htodo]; rfl))
  have hread := hs.read
  have hwrite : x.writeCount = x.writes := by simpa [LockObj.waitsWrite, htodo] using hs.write
  have hplain := htodo ▸ hs.todo
  -- entering counts a reader, which the predicate of a reader does not look at
  have hready (b : Bool) :
      (if b then (m, some x.readCount) else m.readLockEnter (some x.readCount)).1.readReady =
        m.readReady := by cases b <;> rfl
  have hwriting (b : Bool) :
      (if b then (m, some x.readCount) else m.readLockEnter (some x.readCount)).1.writing =
        m.writing := by cases b <;> rfl
  unfold LockObj.readLockOn
  simp only [hready]
  split
  · rename_i hr
    refine ⟨.acquireRead hr (by simp [LockObj.reads, hnor]) rfl,
      steady_of_not_waiting hplain.rest rfl ?_ hwrite
        fun h => absurd h hplain.rest_head, ?_⟩
    · simp only [RwMutex.readLockAdmit, Option.map_some, Option.getD_some, hread]
      simp [LockObj.reads, hnor]
    · simp only [RwMutex.readLockAdmit, hwriting]
      rfl
  · refine ⟨.same rfl rfl, ⟨hs.todo, hread, ?_, hs.locking⟩, ?_⟩
    · simp only [LockObj.waitsWrite, htodo, List.head?_cons, Option.some.injEq, reduceCtorEq,
        and_false, if_false, Nat.add_zero]
      exact hwrite
    · simp only [hwriting]
      rfl

theorem writeLockOn_exact (hs : Steady x) (htodo : x.todo = .writeLock :: rest) :
    Exact m (x.writeLockOn rest m).1 x (x.writeLockOn rest m).2 := by
  obtain ⟨hnor, hnow⟩ := hs.locking (.inr (by rw [htodo]; rfl))
  have hread := hs.read
  have hwrite := hs.write
  have hplain := htodo ▸ hs.todo
  simp only [LockObj.waitsWrite, LockObj.writes, hnow, htodo, List.head?_cons, and_true,
    Bool.toNat_false, Nat.zero_add] at hwrite
  have hready (b : Bool) :
      (if b then (m, some x.writeCount) else m.writeLockEnter (some x.writeCount)).1.writeReady =
        m.writeReady := by cases b <;> rfl
  have hwriting (b : Bool) :
      (if b then (m, some x.writeCount) else m.writeLockEnter (some x.writeCount)).1.writing =
        m.writing := by cases b <;> rfl
  -- the object counts itself once, when it enters
  have hcount :
      (if x.waiting then (m, some x.writeCount)
        else m.writeLockEnter (some x.writeCount)).2.getD 0 = 1 := by
    cases hwait : x.waiting <;> simp [hwait] at hwrite <;> simp [RwMutex.writeLockEnter, hwrite]
  unfold LockObj.writeLockOn
  simp only [hready, hcount]
  split
  · rename_i hr
    have hfree : m.writing = false := by
      simp only [RwMutex.writeReady, Bool.and_eq_true, Bool.not_eq_true'] at hr
      exact hr.2
    refine ⟨.acquireWrite hr rfl (by simp [LockObj.writes, hnow]),
      steady_of_not_waiting hplain.rest rfl hread rfl fun h => absurd h hplain.rest_head, ?_⟩
    simp [RwMutex.writeLockAdmit, LockObj.writes, hnow, hfree]
  · refine ⟨.same rfl rfl, ⟨hs.todo, hread, ?_, hs.locking⟩, ?_⟩
    · simp [LockObj.waitsWrite, LockObj.writes, hnow, htodo]
    · simp only [hwriting]
      rfl

theorem released_of_le_one {c : Nat} (h : c ≤ 1) (release : Bool) :
    RwMutex.released c release = c := by
  unfold RwMutex.released
  split <;> omega

theorem readUnlockOn_exact (hs : Steady x) (hfit : x.Fits m) (hwait : x.waiting = false)
    (hcount : x.readCount = x.readingCount) (hplain : PlainTodo (i :: rest)) (release : Bool) :
    Exact m (x.readUnlockOn rest release m).1 x (x.readUnlockOn rest release m).2 := by
  have hread := hs.read
  have hle : x.readCount ≤ 1 := by
    rw [hcount, hread, LockObj.reads]
    exact Bool.toNat_le _
  obtain ⟨hfread, hfreading, _⟩ := hfit
  obtain ⟨hm, _, hreading⟩ := RwMutex.readUnlock_some release hfread (hcount ▸ hfreading)
  rw [released_of_le_one hle, Nat.sub_self] at hreading
  unfold LockObj.readUnlockOn
  rw [← hcount]
  simp only [hm, hreading, Option.getD_some]
  refine ⟨?_, steady_of_not_waiting hplain.rest hwait rfl (hs.write_of_not_waiting hwait)
    fun h => absurd h hplain.rest_head, rfl⟩
  cases hheld : x.holdsRead with
  | true => exact .releaseRead (by simp [LockObj.reads, hheld]) rfl
  | false => exact .same (by simp [LockObj.reads, hheld]) rfl

theorem writeUnlockOn_exact (hs : Steady x) (hfit : x.Fits m) (hwait : x.waiting = false)
    (hplain : PlainTodo (i :: rest)) (hw : x.writes ≤ m.writing.toNat)
    (hstray : x.writeCount = 0 → m.writing = false) (release : Bool) :
    Exact m (x.writeUnlockOn rest release m).1 x (x.writeUnlockOn rest release m).2 := by
  have hwrite := hs.write_of_not_waiting hwait
  have hle : x.writeCount ≤ 1 := by
    rw [hwrite, LockObj.writes]
    exact Bool.toNat_le _
  obtain ⟨hm, hcount⟩ := RwMutex.writeUnlock_some release hfit.write
  rw [released_of_le_one hle, Nat.sub_self] at hcount
  unfold LockObj.writeUnlockOn
  simp only [hm, hcount, Option.getD_some]
  have hsteady : Steady { x with writeCount := 0, todo := rest, holdsWrite := false } :=
    steady_of_not_waiting hplain.rest hwait hs.read rfl fun h => absurd h hplain.rest_head
  rw [LockObj.writes] at hw hwrite
  cases hheld : x.holdsWrite with
  | true =>
    refine ⟨.releaseWrite rfl (by simp [LockObj.writes, hheld]), hsteady, ?_⟩
    have hle' := Bool.toNat_le m.writing
    simp only [LockObj.writes, hheld, Bool.toNat_true, Bool.toNat_false] at hw ⊢
    omega
  | false =>
    have hfree := hstray (by rw [hwrite, hheld]; rfl)
    exact ⟨.same rfl (by simp [LockObj.writes, hheld]), hsteady,
      by simp [LockObj.writes, hheld, hfree]⟩

theorem runOn_exact {run : RwMutex → RwMutex × LockObj} (hs : Steady x) (hx : x.WellFormed)
    (htodo : x.todo = i :: rest) (hrun : x.runOn rest i = some run) (hfit : x.Fits m)
    (hw : x.writes ≤ m.writing.toNat) (hstray : x.strayRelease = true → m.writing = false) :
    Exact m (run m).1 x (run m).2 := by
  have hplain : PlainTodo (i :: rest) := htodo ▸ hs.todo
  obtain ⟨hnorr, hnorw, hnosw⟩ := hplain.unmoved i List.mem_cons_self
  cases i with
  | readLock =>
    obtain rfl := Option.some.inj hrun
    exact readLockOn_exact hs htodo
  | writeLock =>
    obtain rfl := Option.some.inj hrun
    exact writeLockOn_exact hs htodo
  | readUnlock release =>
    obtain rfl := Option.some.inj hrun
    have hwait := LockObj.waiting_of_head hx htodo (by simp) (by simp)
    exact readUnlockOn_exact hs hfit hwait (LockObj.reading_of_not_waiting hx hwait) hplain release
  | writeUnlock release =>
    obtain rfl := Option.some.inj hrun
    have hwait := LockObj.waiting_of_head hx htodo (by simp) (by simp)
    refine writeUnlockOn_exact hs hfit hwait hplain hw (fun hz => hstray ?_) release
    simp [LockObj.strayRelease, htodo, hz]
  | releaseRead => exact absurd rfl hnorr
  | releaseWrite => exact absurd rfl hnorw
  | swap src => exact absurd rfl (hnosw src)
  | free => exact absurd hrun (by simp [LockObj.runOn])

end Sections

/-! ## The abstract lock of each mutex -/

def State.holders (s : State) (k : Nat) : Holders :=
  ⟨s.total k LockObj.reads, s.total k LockObj.writes⟩

/-- The lock objects are steady, and `writing_` of a mutex tells how many of them
hold it for writing. -/
structure Disciplined (s : State) : Prop where
  counts : Counts s
  steady : ∀ x ∈ s.objs, Steady x
  writing : ∀ k m, s.mutexes[k]? = some m → m.writing.toNat = s.total k LockObj.writes

/-- What the steps of plain objects meet. -/
def Kept (s : State) (a : Act) : Prop := Plain s a ∧ NoStrayRelease s a

theorem plainTodo_of_body {cls : LockClass} {method : Method} {body : List Instr}
    (h : cls.body method = some body) (hne : ∀ src, method ≠ .assign src) : PlainTodo body := by
  cases method with
  | assign src => exact absurd rfl (hne src)
  | _ =>
    cases cls <;> simp only [LockClass.body, Option.some.injEq, reduceCtorEq] at h <;>
      subst h <;> exact ⟨by simp, by simp⟩

theorem plainTodo_of_onConstruct (cls : LockClass) (readLock defer : Bool) :
    PlainTodo (cls.onConstruct readLock defer) := by
  cases cls <;> cases readLock <;> cases defer <;>
    exact ⟨by simp [LockClass.onConstruct], by simp [LockClass.onConstruct]⟩

/-- A lock method is the only one whose program starts with a lock call. -/
theorem lockMethod_of_body {cls : LockClass} {method : Method} {body : List Instr}
    (h : cls.body method = some body)
    (hhead : body.head? = some .readLock ∨ body.head? = some .writeLock) :
    method = .readLock ∨ method = .writeLock := by
  cases cls <;> cases method <;> simp only [LockClass.body, Option.some.injEq, reduceCtorEq] at h
    <;> subst h <;> simp at hhead ⊢

theorem holdsNothing_of_lock {s : State} {o : Nat} {x : LockObj} {method : Method}
    (hp : Plain s (.call o method)) (hx : s.objs[o]? = some x)
    (hm : method = .readLock ∨ method = .writeLock) : x.HoldsNothing := by
  rcases hm with rfl | rfl <;> exact hp x hx

theorem swapsCleared_of_steady {s : State} (hs : ∀ x ∈ s.objs, Steady x) (a : Act) :
    SwapsCleared s a := by
  cases a with
  | exec o =>
    intro x hx src rest htodo
    have hsteady := hs x (List.mem_of_getElem? hx)
    have := hsteady.todo.unmoved (.swap src) (by rw [htodo]; exact List.mem_cons_self)
    exact absurd rfl (this.2.2 src)
  | _ => trivial

/-- A step that changes no mutex and nothing an object holds. -/
theorem Disciplined.of_totals {s : State} {objs : List LockObj} (hd : Disciplined s)
    (hc : Counts { s with objs := objs }) (hobjs : ∀ x ∈ objs, Steady x)
    (hw : ∀ k, tally (LockObj.on k LockObj.writes) objs = s.total k LockObj.writes) :
    Disciplined { s with objs := objs } where
  counts := hc
  steady := hobjs
  writing k m hm := (hd.writing k m hm).trans (hw k).symm

theorem Disciplined.setTodo {s : State} {o : Nat} {x : LockObj} {todo : List Instr}
    {alive : Bool} (hd : Disciplined s)
    (hc : Counts (s.setObj o { x with todo := todo, alive := alive }))
    (hx : s.objs[o]? = some x) (hw : x.waiting = false) (ht : PlainTodo todo)
    (hl : todo.head? = some .readLock ∨ todo.head? = some .writeLock → x.HoldsNothing) :
    Disciplined (s.setObj o { x with todo := todo, alive := alive }) := by
  have hs := hd.steady x (List.mem_of_getElem? hx)
  refine hd.of_totals hc (forall_mem_set hd.steady ?_) fun k => tally_set_of_eq hx rfl
  exact steady_of_not_waiting ht hw hs.read (hs.write_of_not_waiting hw) hl

/-- The weight of the other objects on a mutex stays. -/
theorem total_onMutex {s : State} {o : Nat} {x x' : LockObj} (h : s.objs[o]? = some x)
    (hm : x'.mutex = x.mutex) (ms : List RwMutex) (f : LockObj → Nat) {k : Nat}
    (hk : x.mutex = some k) :
    (State.mk ms (s.objs.set o x')).total k f + f x = s.total k f + f x' := by
  have hset := tally_set h (LockObj.on k f) x'
  rwa [LockObj.on_of_eq hk, LockObj.on_of_eq (hm.trans hk)] at hset

theorem total_onMutex_ne {s : State} {o : Nat} {x x' : LockObj} (h : s.objs[o]? = some x)
    (hm : x'.mutex = x.mutex) (ms : List RwMutex) (f : LockObj → Nat) {k : Nat}
    (hk : x.mutex ≠ some k) :
    (State.mk ms (s.objs.set o x')).total k f = s.total k f := by
  refine tally_set_of_eq h ?_
  rw [LockObj.on_of_ne hk, LockObj.on_of_ne (hm ▸ hk)]

theorem Disciplined.le_writing {s : State} {o k : Nat} {x : LockObj} {m : RwMutex}
    (hd : Disciplined s) (h : s.objs[o]? = some x) (hk : x.mutex = some k)
    (hm : s.mutexes[k]? = some m) : x.writes ≤ m.writing.toNat := by
  have := le_tally (w := LockObj.on k LockObj.writes) h
  rw [LockObj.on_of_eq hk] at this
  exact hd.writing k m hm ▸ this

/-- A section of a plain object, in a disciplined state. -/
theorem Disciplined.exact {s : State} {o k : Nat} {x : LockObj} {m : RwMutex} {i : Instr}
    {rest : List Instr} {run : RwMutex → RwMutex × LockObj} (hd : Disciplined s)
    (hn : NoStrayRelease s (.exec o)) (hx : s.objs[o]? = some x) (htodo : x.todo = i :: rest)
    (hrun : x.runOn rest i = some run) (hmutex : x.mutex = some k)
    (hm : s.mutexes[k]? = some m) : Exact m (run m).1 x (run m).2 := by
  have hmem := List.mem_of_getElem? hx
  exact runOn_exact (hd.steady x hmem) (hd.counts.objs x hmem) htodo hrun
    (hd.counts.fits hx hmutex hm) (hd.le_writing hx hmutex hm) (hn x hx k hmutex m hm)

theorem disciplined_step {s t : State} {a : Act} (hk : Kept s a) (h : Moved s a t)
    (hd : Disciplined s) : Disciplined t := by
  obtain ⟨hp, hn⟩ := hk
  have hc := counts_step (swapsCleared_of_steady hd.steady a) h hd.counts
  cases h with
  | @construct cls k readLock defer hk =>
    refine hd.of_totals hc (fun x hx => ?_) fun j => ?_
    swap
    · simp [State.total, LockObj.on, LockObj.writes]
    rcases List.mem_append.mp hx with hx | hx
    · exact hd.steady x hx
    · obtain rfl := List.mem_singleton.mp hx
      exact steady_of_not_waiting (plainTodo_of_onConstruct cls readLock defer) rfl rfl rfl
        fun _ => ⟨rfl, rfl⟩
  | moveConstruct _ _ => exact hp.elim
  | @call o x method body hx hidle hbody =>
    have hwait := LockObj.waiting_of_idle (hd.counts.objs x (List.mem_of_getElem? hx)) hidle
    have hne (src : Nat) : method ≠ .assign src := by
      rintro rfl
      exact hp
    exact hd.setTodo hc hx hwait (plainTodo_of_body hbody hne)
      fun hhead => holdsNothing_of_lock hp hx (lockMethod_of_body hbody hhead)
  | @free o x rest hx htodo =>
    have hmem := List.mem_of_getElem? hx
    have hplain : PlainTodo (.free :: rest) := htodo ▸ (hd.steady x hmem).todo
    have hwait := LockObj.waiting_of_head (hd.counts.objs x hmem) htodo (by simp) (by simp)
    exact hd.setTodo hc hx hwait hplain.rest fun hhead => absurd hhead hplain.rest_head
  | @swapSelf o x rest hx htodo =>
    have := (hd.steady x (List.mem_of_getElem? hx)).todo.unmoved (.swap o) (by simp [htodo])
    exact absurd rfl (this.2.2 o)
  | @swap o x src y rest hx htodo hne hsrc hidle hcls =>
    have := (hd.steady x (List.mem_of_getElem? hx)).todo.unmoved (.swap src) (by simp [htodo])
    exact absurd rfl (this.2.2 src)
  | @skip o x i rest hx htodo hskip =>
    obtain ⟨hnorr, hnorw, _⟩ :=
      (hd.steady x (List.mem_of_getElem? hx)).todo.unmoved i (by simp [htodo])
    cases i <;> simp [LockObj.skips] at hskip hnorr hnorw
  | @onMutex o x i rest run k m hx htodo hrun hmutex hm =>
    have he := hd.exact hn hx htodo hrun hmutex hm
    have hmem := List.mem_of_getElem? hx
    have hb := (runOn_balanced (hd.counts.objs x hmem) htodo hrun
      (hd.counts.fits hx hmutex hm)).1
    refine ⟨hc, forall_mem_set hd.steady he.steady, fun j n hn' => ?_⟩
    by_cases hj : j = k
    · subst hj
      have hlt : j < s.mutexes.length := (List.getElem?_eq_some_iff.mp hm).1
      obtain rfl : (run m).1 = n := by simpa [hlt] using hn'
      have htotal := total_onMutex hx hb.mutex (s.mutexes.set j (run m).1) LockObj.writes hmutex
      have hwriting := hd.writing j m hm
      have := he.writing
      omega
    · rw [List.getElem?_set_ne (Ne.symm hj)] at hn'
      have hne : x.mutex ≠ some j := fun e => hj (Option.some.inj (hmutex.symm.trans e)).symm
      rw [total_onMutex_ne hx hb.mutex _ _ hne]
      exact hd.writing j n hn'

theorem disciplined_init {s : State} (h : machine.init s) : Disciplined s := by
  obtain ⟨hobjs, hfresh⟩ := fresh_of_init h
  refine ⟨counts_init h, by simp [hobjs], fun k m hm => ?_⟩
  obtain ⟨reader, rfl⟩ := hfresh m (List.mem_of_getElem? hm)
  simp [State.total, hobjs]

theorem reachable_disciplined {s : State} (h : machine.Reachable Kept s) : Disciplined s :=
  h.invariant (fun _ => disciplined_init) fun _ hok hs hd =>
    disciplined_step hok (moved_of_step hs) hd

theorem no_writer_of_readReady {s : State} {k : Nat} {m : RwMutex} (hd : Disciplined s)
    (hm : s.mutexes[k]? = some m) (hready : m.readReady = true) :
    s.total k LockObj.writes = 0 := by
  have hwriting := hd.writing k m hm
  simp only [RwMutex.readReady, Bool.or_eq_true, Bool.and_eq_true, Bool.not_eq_true',
    beq_iff_eq] at hready
  rcases hready with ⟨_, hfree⟩ | ⟨_, hzero⟩
  · rw [← hwriting, hfree]
    rfl
  · -- a writer that holds the mutex is one it counts
    have hwrite := hd.counts.write k m hm
    have hle : s.total k LockObj.writes ≤ s.total k LockObj.writeCount := by
      refine tally_mono fun x hx => ?_
      have := (hd.steady x hx).write
      unfold LockObj.on
      split <;> omega
    omega

theorem free_of_writeReady {s : State} {k : Nat} {m : RwMutex} (hd : Disciplined s)
    (hm : s.mutexes[k]? = some m) (hready : m.writeReady = true) :
    s.total k LockObj.reads = 0 ∧ s.total k LockObj.writes = 0 := by
  have hwriting := hd.writing k m hm
  have hreading : m.readingCount = s.total k LockObj.reads := by
    rw [hd.counts.reading k m hm]
    refine tally_congr fun x hx => ?_
    rw [LockObj.on, LockObj.on, (hd.steady x hx).read]
  have hle : m.readingCount ≤ m.readCount := by
    rw [hd.counts.reading k m hm, hd.counts.read k m hm]
    refine tally_mono fun x hx => ?_
    have := (hd.counts.objs x hx).reading
    unfold LockObj.on
    split <;> omega
  simp only [RwMutex.writeReady, Bool.or_eq_true, Bool.and_eq_true, Bool.not_eq_true',
    beq_iff_eq] at hready
  obtain ⟨hcount, hfree⟩ := hready
  rw [hfree] at hwriting
  refine ⟨?_, hwriting.symm⟩
  rcases hcount with ⟨_, hzero⟩ | ⟨_, hzero⟩ <;> omega

/-- A section shows the abstract lock of its mutex one step or none. -/
theorem shows_of_holdsStep {s t : State} {k : Nat} {m : RwMutex} {x x' : LockObj}
    (hd : Disciplined s) (hm : s.mutexes[k]? = some m) (h : HoldsStep m x x')
    (hreads : t.total k LockObj.reads + x.reads = s.total k LockObj.reads + x'.reads)
    (hwrites : t.total k LockObj.writes + x.writes = s.total k LockObj.writes + x'.writes) :
    t.holders k = s.holders k ∨
      ∃ y, Holders.machine.step (s.holders k) y = some (t.holders k) := by
  unfold State.holders
  cases h with
  | same hr hw =>
    left
    rw [Holders.mk.injEq]
    omega
  | acquireRead hready hr hw =>
    refine .inr ⟨.acquireRead, ?_⟩
    rw [Holders.step_acquireRead (no_writer_of_readReady hd hm hready), Option.some.injEq,
      Holders.mk.injEq]
    omega
  | acquireWrite hready hr hw =>
    obtain ⟨hnor, hnow⟩ := free_of_writeReady hd hm hready
    refine .inr ⟨.acquireWrite, ?_⟩
    rw [Holders.step_acquireWrite hnor hnow, Option.some.injEq, Holders.mk.injEq]
    omega
  | releaseRead hr hw =>
    refine .inr ⟨.releaseRead, ?_⟩
    have hsucc : s.total k LockObj.reads = t.total k LockObj.reads + 1 := by omega
    rw [hsucc, Holders.step_releaseRead, Option.some.injEq, Holders.mk.injEq]
    omega
  | releaseWrite hr hw =>
    refine .inr ⟨.releaseWrite, ?_⟩
    have hsucc : s.total k LockObj.writes = t.total k LockObj.writes + 1 := by omega
    rw [hsucc, Holders.step_releaseWrite, Option.some.injEq, Holders.mk.injEq]
    omega

theorem shows_of_moved {s t : State} {a : Act} (k : Nat) (hk : Kept s a) (h : Moved s a t)
    (hd : Disciplined s) :
    t.holders k = s.holders k ∨
      ∃ y, Holders.machine.step (s.holders k) y = some (t.holders k) := by
  obtain ⟨hp, hn⟩ := hk
  cases h with
  | construct _ =>
    left
    simp [State.holders, State.total, LockObj.on, LockObj.reads, LockObj.writes]
  | moveConstruct _ _ => exact hp.elim
  | call hx _ _ | free hx _ | skip hx _ _ =>
    left
    rw [State.holders, State.holders, Holders.mk.injEq]
    exact ⟨tally_set_of_eq hx rfl, tally_set_of_eq hx rfl⟩
  | @swapSelf o x rest hx htodo =>
    have := (hd.steady x (List.mem_of_getElem? hx)).todo.unmoved (.swap o) (by simp [htodo])
    exact absurd rfl (this.2.2 o)
  | @swap o x src y rest hx htodo hne hsrc hidle hcls =>
    have := (hd.steady x (List.mem_of_getElem? hx)).todo.unmoved (.swap src) (by simp [htodo])
    exact absurd rfl (this.2.2 src)
  | @onMutex o x i rest run j m hx htodo hrun hmutex hm =>
    have he := hd.exact hn hx htodo hrun hmutex hm
    have hmem := List.mem_of_getElem? hx
    have hb := (runOn_balanced (hd.counts.objs x hmem) htodo hrun
      (hd.counts.fits hx hmutex hm)).1
    by_cases hj : j = k
    · subst hj
      exact shows_of_holdsStep hd hm he.holds (total_onMutex hx hb.mutex _ _ hmutex)
        (total_onMutex hx hb.mutex _ _ hmutex)
    · left
      have hne : x.mutex ≠ some k := fun e => hj (Option.some.inj (hmutex.symm.trans e))
      rw [State.holders, State.holders, Holders.mk.injEq]
      exact ⟨total_onMutex_ne hx hb.mutex _ _ hne, total_onMutex_ne hx hb.mutex _ _ hne⟩

/-- As long as no `WriteUnlock` strays, every mutex implements the abstract lock for
the lock objects on it. -/
theorem simulates_holders (k : Nat) :
    machine.Simulates Kept Holders.machine fun s => s.holders k where
  init s hs := by simp [Holders.machine, Holders.free, State.holders, State.total, fresh_of_init hs]
  step hr hok hs := shows_of_moved k hok (moved_of_step hs) (reachable_disciplined hr)

/-! ## Exclusion -/

/-- Among the objects on one mutex at most one holds it for writing, and beside it
none holds it for reading. -/
def Exclusion (s : State) : Prop :=
  ∀ (k i j : Nat) (x y : LockObj), s.objs[i]? = some x → s.objs[j]? = some y →
    x.mutex = some k → y.mutex = some k → x.holdsWrite = true →
      (y.holdsWrite = true → i = j) ∧ y.holdsRead = false

theorem exclusion_of_holders {s : State} (h : ∀ k, (s.holders k).Exclusive) : Exclusion s := by
  intro k i j x y hi hj hx hy hwrite
  obtain ⟨hone, hno⟩ := h k
  simp only [State.holders, State.total] at hone hno
  have hxw : LockObj.on k LockObj.writes x = 1 := by
    rw [LockObj.on_of_eq hx, LockObj.writes, hwrite, Bool.toNat_true]
  have hle := le_tally (w := LockObj.on k LockObj.writes) hi
  refine ⟨fun hyw => ?_, ?_⟩
  · by_contra hij
    have hyw : LockObj.on k LockObj.writes y = 1 := by
      rw [LockObj.on_of_eq hy, LockObj.writes, hyw, Bool.toNat_true]
    have := add_le_tally (w := LockObj.on k LockObj.writes) hij hi hj
    omega
  · have hyr := le_tally (w := LockObj.on k LockObj.reads) hj
    rw [LockObj.on_of_eq hy, LockObj.reads, hno (by omega)] at hyr
    cases hread : y.holdsRead with
    | false => rfl
    | true => simp [hread] at hyr

theorem reachable_exclusion {s : State} (h : machine.Reachable Kept s) : Exclusion s :=
  exclusion_of_holders fun k => Holders.reachable_exclusive ((simulates_holders k).reachable h)

/-- `UniqueReadLock` and `UniqueWriteLock` exclude one another as long as no
`WriteUnlock` of an object that counts nothing finds the mutex held by a writer. -/
theorem unique_exclusion {s : State}
    (h : machine.Reachable (fun s a => UniqueUse s a ∧ NoStrayRelease s a) s) : Exclusion s :=
  reachable_exclusion (h.mono fun _ _ hok => ⟨hok.1.1, hok.2⟩)

/-- Object 0 was unlocked before it was ever locked, at a time nobody wrote.  Object 1
writes and object 2 waits to read. -/
def idleUnlock : State :=
  { mutexes := [{ readCount := 1, writeCount := 1, writing := true }],
    objs := [{ cls := .uniqueWriteLock, mutex := some 0 },
      { cls := .uniqueWriteLock, mutex := some 0, writeCount := 1, holdsWrite := true },
      { cls := .uniqueReadLock, mutex := some 0, readCount := 1, todo := [.readLock],
        waiting := true }] }

theorem idleUnlock_reachable :
    machine.Reachable (fun s a => UniqueUse s a ∧ NoStrayRelease s a) idleUnlock :=
  Machine.reachable_of_exec
    [.construct .uniqueWriteLock 0 false true, .call 0 .writeUnlock, .exec 0,
      .construct .uniqueWriteLock 0 false false, .exec 1,
      .construct .uniqueReadLock 0 false false, .exec 2]
    ⟨[false], rfl⟩ (by decide)

theorem unique_exclusion_idleUnlock : Exclusion idleUnlock :=
  unique_exclusion idleUnlock_reachable

/-- Object 1 holds the mutex when object 0, which was never locked, is destroyed.
Then object 2 gets the mutex as well. -/
def deferredDestroyed : State :=
  { mutexes := [{ writeCount := 2, writing := true }],
    objs := [{ cls := .uniqueWriteLock, mutex := some 0, alive := false },
      { cls := .uniqueWriteLock, mutex := some 0, writeCount := 1, holdsWrite := true },
      { cls := .uniqueWriteLock, mutex := some 0, writeCount := 1, holdsWrite := true }] }

theorem unique_exclusion_fails :
    machine.Reachable UniqueUse deferredDestroyed ∧ ¬ Exclusion deferredDestroyed := by
  refine ⟨Machine.reachable_of_exec
    [.construct .uniqueWriteLock 0 false true, .construct .uniqueWriteLock 0 false false,
      .exec 1, .call 0 .destroy, .exec 0, .exec 0,
      .construct .uniqueWriteLock 0 false false, .exec 2]
    ⟨[false], rfl⟩ (by decide), fun h => ?_⟩
  exact absurd ((h 0 1 2 _ _ rfl rfl rfl rfl rfl).1 rfl) (by decide)

/-- `UniqueRwLock` objects used in one mode each exclude one another as long as no
destructor's `WriteUnlock` of a reader finds the mutex held by a writer. -/
theorem rw_exclusion {s : State}
    (h : machine.Reachable (fun s a => RwUse s a ∧ NoStrayRelease s a) s) : Exclusion s :=
  reachable_exclusion (h.mono fun _ _ hok => ⟨plain_of_rwUse hok.1, hok.2⟩)

/-- The reader, object 0, was destroyed before anybody wrote. -/
def readerGone : State :=
  { mutexes := [{ readCount := 1, writeCount := 1, writing := true }],
    objs := [{ cls := .uniqueRwLock, mutex := some 0, alive := false },
      { cls := .uniqueRwLock, mutex := some 0, writeCount := 1, holdsWrite := true },
      { cls := .uniqueRwLock, mutex := some 0, readCount := 1, todo := [.readLock],
        waiting := true }] }

theorem readerGone_reachable :
    machine.Reachable (fun s a => RwUse s a ∧ NoStrayRelease s a) readerGone :=
  Machine.reachable_of_exec
    [.construct .uniqueRwLock 0 true false, .exec 0, .call 0 .destroy, .exec 0, .exec 0, .exec 0,
      .construct .uniqueRwLock 0 false false, .exec 1,
      .construct .uniqueRwLock 0 true false, .exec 2]
    ⟨[false], rfl⟩ (by decide)

theorem rw_exclusion_readerGone : Exclusion readerGone :=
  rw_exclusion readerGone_reachable

/-- The writer, object 1, got the mutex between the two sections of the reader's
destructor.  The second section lets object 2 in beside it. -/
def readerLeaving : State :=
  { mutexes := [{ writeCount := 2, writing := true }],
    objs := [{ cls := .uniqueRwLock, mutex := some 0, todo := [.free] },
      { cls := .uniqueRwLock, mutex := some 0, writeCount := 1, holdsWrite := true },
      { cls := .uniqueRwLock, mutex := some 0, writeCount := 1, holdsWrite := true }] }

theorem rw_exclusion_fails :
    machine.Reachable RwUse readerLeaving ∧ ¬ Exclusion readerLeaving := by
  refine ⟨Machine.reachable_of_exec
    [.construct .uniqueRwLock 0 true false, .exec 0, .call 0 .destroy, .exec 0,
      .construct .uniqueRwLock 0 false false, .exec 1, .exec 0,
      .construct .uniqueRwLock 0 false false, .exec 2]
    ⟨[false], rfl⟩ (by decide), fun h => ?_⟩
  exact absurd ((h 0 1 2 _ _ rfl rfl rfl rfl rfl).1 rfl) (by decide)

end RwObjects
end TryAndLearn
