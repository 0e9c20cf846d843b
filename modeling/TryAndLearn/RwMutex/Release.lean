import TryAndLearn.RwMutex.Counts

/-!
# What a lock object gives back

A destructor and a move assignment take off the mutex everything the object counts
before the object goes away or its counters are overwritten.  `Clears` says this as a
precondition of the rest of a method's program, computed backwards over it: whatever
the object counts now, it counts nothing when the program comes to `swap` or `free`.
Every body of every class meets it.

With that a move assignment never overwrites a count that is not zero, and the mutexes
and the live objects agree on the counters in every reachable state.
-/

namespace TryAndLearn
namespace RwObjects

/-- What the read count and the write count have to be before a program.  A lock call
and an unlock of one lock may leave any counts behind. -/
def Clears : List Instr → (readCount writeCount : Nat) → Prop
  | [], _, _ => True
  | .readUnlock true :: rest, _, w | .releaseRead :: rest, _, w => Clears rest 0 w
  | .writeUnlock true :: rest, r, _ | .releaseWrite :: rest, r, _ => Clears rest r 0
  | .swap _ :: rest, r, w | .free :: rest, r, w => r = 0 ∧ w = 0 ∧ rest = []
  | .readLock :: rest, _, _ | .writeLock :: rest, _, _ | .readUnlock false :: rest, _, _
  | .writeUnlock false :: rest, _, _ => ∀ r w, Clears rest r w

/-- An object of a class with one kind of lock counts that kind only. -/
structure OneKind (cls : LockClass) (todo : List Instr) (r w : Nat) : Prop where
  read : cls = .uniqueReadLock → w = 0 ∧ .writeLock ∉ todo
  write : cls = .uniqueWriteLock → r = 0 ∧ .readLock ∉ todo

/-- The object gives back what it counts before it ends, and a dead one counts nothing. -/
structure Releasing (x : LockObj) : Prop where
  kind : OneKind x.cls x.todo x.readCount x.writeCount
  clears : Clears x.todo x.readCount x.writeCount
  dead : x.alive = false → x.todo = [] ∧ x.readCount = 0 ∧ x.writeCount = 0
  waits : x.waiting = true → x.todo.head? = some .writeLock → 0 < x.writeCount
  unowned : x.mutex = none → x.readCount = 0 ∧ x.writeCount = 0

section Bodies

variable {cls : LockClass} {r w : Nat}

theorem OneKind.rest {i : Instr} {rest : List Instr} (h : OneKind cls (i :: rest) r w) :
    OneKind cls rest r w where
  read hc := ⟨(h.read hc).1, fun hm => (h.read hc).2 (List.mem_cons_of_mem i hm)⟩
  write hc := ⟨(h.write hc).1, fun hm => (h.write hc).2 (List.mem_cons_of_mem i hm)⟩

theorem OneKind.mono {todo : List Instr} {r' w' : Nat} (h : OneKind cls todo r w)
    (hr : r = 0 → r' = 0) (hw : w = 0 → w' = 0) : OneKind cls todo r' w' where
  read hc := ⟨hw (h.read hc).1, (h.read hc).2⟩
  write hc := ⟨hr (h.write hc).1, (h.write hc).2⟩

theorem oneKind_of_body {method : Method} {body : List Instr}
    (hbody : cls.body method = some body) (h : OneKind cls [] r w) : OneKind cls body r w := by
  obtain ⟨hread, hwrite⟩ := h
  cases cls <;> cases method <;>
    simp only [LockClass.body, Option.some.injEq, reduceCtorEq] at hbody <;> subst hbody <;>
    exact ⟨fun hc => ⟨(hread hc).1, by simp_all⟩, fun hc => ⟨(hwrite hc).1, by simp_all⟩⟩

theorem clears_of_body {method : Method} {body : List Instr}
    (hbody : cls.body method = some body) (h : OneKind cls [] r w) : Clears body r w := by
  obtain ⟨hread, hwrite⟩ := h
  cases cls <;> cases method <;>
    simp only [LockClass.body, Option.some.injEq, reduceCtorEq] at hbody <;> subst hbody <;>
    simp_all [Clears]

theorem releasing_of_onConstruct (cls : LockClass) (k : Nat) (readLock defer : Bool) :
    Releasing { cls := cls, mutex := some k, todo := cls.onConstruct readLock defer } := by
  refine ⟨⟨?_, ?_⟩, ?_, by simp, by simp, by simp⟩
  · rintro rfl
    cases defer <;> simp [LockClass.onConstruct]
  · rintro rfl
    cases defer <;> simp [LockClass.onConstruct]
  · cases cls <;> cases readLock <;> cases defer <;> simp [LockClass.onConstruct, Clears]

/-- An object that waits for nothing, with its counters as they were. -/
theorem Releasing.setTodo {x : LockObj} (h : Releasing x) {todo : List Instr} {alive : Bool}
    (hk : OneKind x.cls todo x.readCount x.writeCount)
    (hc : Clears todo x.readCount x.writeCount) (hw : x.waiting = false)
    (hd : alive = false → todo = [] ∧ x.readCount = 0 ∧ x.writeCount = 0) :
    Releasing { x with todo := todo, alive := alive } :=
  ⟨hk, hc, hd, fun hwait => absurd (hw.symm.trans hwait) (by decide), h.unowned⟩

end Bodies

/-! ## One section -/

section Sections

variable {x x' : LockObj} {m : RwMutex} {i : Instr} {rest : List Instr} {k : Nat}

/-- An object in a section is alive and has a mutex. -/
theorem Releasing.ofSection (h : Releasing x) (htodo : x.todo = i :: rest)
    (hmutex : x.mutex = some k) (hcls : x'.cls = x.cls) (hm : x'.mutex = x.mutex)
    (ha : x'.alive = x.alive) (hk : OneKind x.cls x'.todo x'.readCount x'.writeCount)
    (hc : Clears x'.todo x'.readCount x'.writeCount)
    (hw : x'.waiting = true → x'.todo.head? = some .writeLock → 0 < x'.writeCount) :
    Releasing x' where
  kind := hcls ▸ hk
  clears := hc
  dead hd := absurd ((h.dead (ha.symm.trans hd)).1.symm.trans htodo) (by simp)
  waits := hw
  unowned hn := absurd (hmutex.symm.trans (hm.symm.trans hn)) (by simp)

theorem readLockOn_releasing (h : Releasing x) (htodo : x.todo = .readLock :: rest)
    (hmutex : x.mutex = some k) : Releasing (x.readLockOn rest m).2 := by
  have hclears := h.clears
  have hkind := h.kind
  rw [htodo] at hclears hkind
  have hone (r : Nat) : OneKind x.cls (.readLock :: rest) r x.writeCount :=
    ⟨hkind.read, fun hc => absurd List.mem_cons_self (hkind.write hc).2⟩
  unfold LockObj.readLockOn
  generalize (if x.waiting then (m, some x.readCount) else _) = entered
  obtain ⟨m', count⟩ := entered
  dsimp only
  split
  · exact h.ofSection htodo hmutex rfl rfl rfl (hone _).rest (hclears _ _)
      fun hwait => absurd hwait (by simp)
  · refine h.ofSection htodo hmutex rfl rfl rfl (htodo ▸ hone _) ?_ ?_
    · rw [htodo]
      exact hclears
    · simp [htodo]

theorem writeLockOn_releasing (h : Releasing x) (htodo : x.todo = .writeLock :: rest)
    (hmutex : x.mutex = some k) : Releasing (x.writeLockOn rest m).2 := by
  have hclears := h.clears
  have hkind := h.kind
  have hwaits := h.waits
  rw [htodo] at hclears hkind hwaits
  have hone (w : Nat) : OneKind x.cls (.writeLock :: rest) x.readCount w :=
    ⟨fun hc => absurd List.mem_cons_self (hkind.read hc).2, hkind.write⟩
  unfold LockObj.writeLockOn
  generalize hp : (if x.waiting then (m, some x.writeCount) else _) = entered
  obtain ⟨m', count⟩ := entered
  dsimp only
  split
  · exact h.ofSection htodo hmutex rfl rfl rfl (hone _).rest (hclears _ _)
      fun hwait => absurd hwait (by simp)
  · refine h.ofSection htodo hmutex rfl rfl rfl (htodo ▸ hone _) ?_ fun _ _ => ?_
    · rw [htodo]
      exact hclears
    · -- the object has counted itself, now or when it first came
      by_cases hwait : x.waiting = true
      · rw [if_pos hwait, Prod.mk.injEq] at hp
        simpa [← hp.2] using hwaits hwait rfl
      · rw [if_neg hwait, RwMutex.writeLockEnter, Prod.mk.injEq] at hp
        simp [← hp.2]

theorem readUnlockOn_releasing (h : Releasing x) (htodo : x.todo = i :: rest)
    (hmutex : x.mutex = some k) (hfit : x.Fits m) (hw : x.waiting = false)
    (hr : x.readCount = x.readingCount) (release : Bool)
    (hc : Clears rest (x.readCount - RwMutex.released x.readCount release) x.writeCount) :
    Releasing (x.readUnlockOn rest release m).2 := by
  have hkind := h.kind
  rw [htodo] at hkind
  obtain ⟨_, hcount, _⟩ := RwMutex.readUnlock_some release hfit.read (hr ▸ hfit.reading)
  unfold LockObj.readUnlockOn
  simp only [← hr, hcount, Option.getD_some]
  exact h.ofSection htodo hmutex rfl rfl rfl (hkind.rest.mono (fun hz => by simp [hz]) id) hc
    fun hwait => absurd (hw.symm.trans hwait) (by decide)

theorem writeUnlockOn_releasing (h : Releasing x) (htodo : x.todo = i :: rest)
    (hmutex : x.mutex = some k) (hfit : x.Fits m) (hw : x.waiting = false) (release : Bool)
    (hc : Clears rest x.readCount (x.writeCount - RwMutex.released x.writeCount release)) :
    Releasing (x.writeUnlockOn rest release m).2 := by
  have hkind := h.kind
  rw [htodo] at hkind
  obtain ⟨_, hcount⟩ := RwMutex.writeUnlock_some release hfit.write
  unfold LockObj.writeUnlockOn
  simp only [hcount, Option.getD_some]
  exact h.ofSection htodo hmutex rfl rfl rfl (hkind.rest.mono id fun hz => by simp [hz]) hc
    fun hwait => absurd (hw.symm.trans hwait) (by decide)

theorem released_all (c : Nat) : c - RwMutex.released c true = 0 := by
  simp [RwMutex.released]

theorem runOn_releasing {run : RwMutex → RwMutex × LockObj} (h : Releasing x)
    (hx : x.WellFormed) (htodo : x.todo = i :: rest) (hrun : x.runOn rest i = some run)
    (hmutex : x.mutex = some k) (hfit : x.Fits m) : Releasing (run m).2 := by
  have hclears := h.clears
  rw [htodo] at hclears
  have hquiet (hr : i ≠ .readLock) (hw : i ≠ .writeLock) : x.waiting = false ∧
      x.readCount = x.readingCount := by
    have hw := LockObj.waiting_of_head hx htodo hr hw
    exact ⟨hw, LockObj.reading_of_not_waiting hx hw⟩
  cases i with
  | readLock =>
    obtain rfl := Option.some.inj hrun
    exact readLockOn_releasing h htodo hmutex
  | writeLock =>
    obtain rfl := Option.some.inj hrun
    exact writeLockOn_releasing h htodo hmutex
  | readUnlock release =>
    obtain rfl := Option.some.inj hrun
    obtain ⟨hw, hr⟩ := hquiet (by simp) (by simp)
    refine readUnlockOn_releasing h htodo hmutex hfit hw hr release ?_
    cases release with
    | true => rwa [released_all]
    | false => exact hclears _ _
  | writeUnlock release =>
    obtain rfl := Option.some.inj hrun
    obtain ⟨hw, _⟩ := hquiet (by simp) (by simp)
    refine writeUnlockOn_releasing h htodo hmutex hfit hw release ?_
    cases release with
    | true => rwa [released_all]
    | false => exact hclears _ _
  | releaseRead =>
    obtain rfl := Option.some.inj hrun
    obtain ⟨hw, hr⟩ := hquiet (by simp) (by simp)
    refine readUnlockOn_releasing h htodo hmutex hfit hw hr true ?_
    rwa [released_all]
  | releaseWrite =>
    obtain rfl := Option.some.inj hrun
    obtain ⟨hw, _⟩ := hquiet (by simp) (by simp)
    refine writeUnlockOn_releasing h htodo hmutex hfit hw true ?_
    rwa [released_all]
  | swap src => exact absurd hrun (by simp [LockObj.runOn])
  | free => exact absurd hrun (by simp [LockObj.runOn])

end Sections

/-! ## Runs -/

section Runs

variable {ok : State → Act → Prop} {s t : State} {a : Act}

/-- The fields a move leaves behind, and those it carries over to an object that has
ended its assignment. -/
theorem Releasing.moved {x : LockObj} (h : Releasing x) (hidle : x.todo = [])
    (hw : x.waiting = false) : Releasing x.moved where
  kind := by
    rw [LockObj.moved, hidle]
    exact ⟨fun _ => ⟨rfl, by simp⟩, fun _ => ⟨rfl, by simp⟩⟩
  clears := by
    simp only [LockObj.moved, hidle]
    trivial
  dead hd := ⟨(h.dead hd).1, rfl, rfl⟩
  waits hwait := absurd (hw.symm.trans hwait) (by decide)
  unowned _ := ⟨rfl, rfl⟩

theorem Releasing.takeFrom {x y : LockObj} (hy : Releasing y) (hidle : y.todo = [])
    (hcls : y.cls = x.cls) (ha : x.alive = true) (hw : x.waiting = false) :
    Releasing (LockObj.takeFrom { x with todo := [] } y) where
  kind := hcls ▸ hidle ▸ hy.kind
  clears := trivial
  dead hd := absurd (ha.symm.trans hd) (by decide)
  waits hwait := absurd (hw.symm.trans hwait) (by decide)
  unowned := hy.unowned

theorem releasing_step (hwf : ∀ x ∈ s.objs, x.WellFormed)
    (hfit : ∀ x ∈ s.objs, ∀ k m, x.mutex = some k → s.mutexes[k]? = some m → x.Fits m)
    (h : Moved s a t) (hr : ∀ x ∈ s.objs, Releasing x) : ∀ x ∈ t.objs, Releasing x := by
  cases h with
  | @construct cls k readLock defer _ =>
    intro x hx
    rcases List.mem_append.mp hx with hx | hx
    · exact hr x hx
    · obtain rfl := List.mem_singleton.mp hx
      exact releasing_of_onConstruct cls k readLock defer
  | @moveConstruct src y hsrc hidle =>
    have hy := hr y (List.mem_of_getElem? hsrc)
    have hw := LockObj.waiting_of_idle (hwf y (List.mem_of_getElem? hsrc)) hidle
    intro x hx
    rcases List.mem_append.mp hx with hx | hx
    · exact forall_mem_set hr (hy.moved hidle.2 hw) x hx
    · obtain rfl := List.mem_singleton.mp hx
      exact hy
  | @call o x method body hx hidle hbody =>
    have hrx := hr x (List.mem_of_getElem? hx)
    have hw := LockObj.waiting_of_idle (hwf x (List.mem_of_getElem? hx)) hidle
    have hkind := hidle.2 ▸ hrx.kind
    exact forall_mem_set hr (hrx.setTodo (oneKind_of_body hbody hkind)
      (clears_of_body hbody hkind) hw fun hd => absurd (hidle.1.symm.trans hd) (by decide))
  | @free o x rest hx htodo =>
    have hrx := hr x (List.mem_of_getElem? hx)
    have hw := LockObj.waiting_of_head (hwf x (List.mem_of_getElem? hx)) htodo (by simp) (by simp)
    have hclears := htodo ▸ hrx.clears
    obtain ⟨hread, hwrite, rfl⟩ := hclears
    exact forall_mem_set hr (hrx.setTodo (htodo ▸ hrx.kind).rest trivial hw
      fun _ => ⟨rfl, hread, hwrite⟩)
  | @swapSelf o x rest hx htodo =>
    have hrx := hr x (List.mem_of_getElem? hx)
    have hw := LockObj.waiting_of_head (hwf x (List.mem_of_getElem? hx)) htodo (by simp) (by simp)
    obtain ⟨hread, hwrite, rfl⟩ := htodo ▸ hrx.clears
    have hrest : Releasing { x with todo := [] } :=
      hrx.setTodo (htodo ▸ hrx.kind).rest trivial hw fun hd =>
        absurd ((hrx.dead hd).1.symm.trans htodo) (by simp)
    exact forall_mem_set hr (hrest.moved rfl hw)
  | @swap o x src y rest hx htodo hne hsrc hidle hcls =>
    have hrx := hr x (List.mem_of_getElem? hx)
    have hry := hr y (List.mem_of_getElem? hsrc)
    have hw := LockObj.waiting_of_head (hwf x (List.mem_of_getElem? hx)) htodo (by simp) (by simp)
    have hwy := LockObj.waiting_of_idle (hwf y (List.mem_of_getElem? hsrc)) hidle
    obtain ⟨_, _, rfl⟩ := htodo ▸ hrx.clears
    have ha : x.alive = true := by
      refine Bool.of_not_eq_false fun hd => ?_
      exact absurd ((hrx.dead hd).1.symm.trans htodo) (by simp)
    exact forall_mem_set (forall_mem_set hr (hry.takeFrom hidle.2 hcls ha hw))
      (hry.moved hidle.2 hwy)
  | @skip o x i rest hx htodo hskip =>
    have hrx := hr x (List.mem_of_getElem? hx)
    have hclears := htodo ▸ hrx.clears
    have hkind := htodo ▸ hrx.kind
    have hw : x.waiting = false := LockObj.waiting_of_head (hwf x (List.mem_of_getElem? hx)) htodo
      (by rintro rfl; simp [LockObj.skips] at hskip)
      (by rintro rfl; simp [LockObj.skips] at hskip)
    have hlive : x.alive = false → rest = [] ∧ x.readCount = 0 ∧ x.writeCount = 0 := fun hd =>
      absurd ((hrx.dead hd).1.symm.trans htodo) (by simp)
    refine forall_mem_set hr (hrx.setTodo hkind.rest ?_ hw hlive)
    -- a release is skipped when there is nothing to release
    cases i <;> simp only [LockObj.skips, beq_iff_eq, Bool.false_eq_true] at hskip
    · rw [Clears, ← hskip] at hclears
      exact hclears
    · rw [Clears, ← hskip] at hclears
      exact hclears
  | @onMutex o x i rest run k m hx htodo hrun hmutex hm =>
    have hmem := List.mem_of_getElem? hx
    exact forall_mem_set hr (runOn_releasing (hr x hmem) (hwf x hmem) htodo hrun hmutex
      (hfit x hmem k m hmutex hm))

theorem swapsCleared_of_releasing (hwf : ∀ x ∈ s.objs, x.WellFormed)
    (hr : ∀ x ∈ s.objs, Releasing x) : ∀ a, SwapsCleared s a := by
  intro a
  cases a with
  | exec o =>
    intro x hx src rest htodo
    have hmem := List.mem_of_getElem? hx
    have hw := LockObj.waiting_of_head (hwf x hmem) htodo (by simp) (by simp)
    obtain ⟨hread, hwrite, _⟩ := htodo ▸ (hr x hmem).clears
    exact ⟨hread, LockObj.reading_of_not_waiting (hwf x hmem) hw ▸ hread, hwrite⟩
  | _ => trivial

/-- Whatever is done with the lock objects, the counters agree and no object leaves
with a count. -/
theorem reachable_counts (h : machine.Reachable ok s) :
    Counts s ∧ ∀ x ∈ s.objs, Releasing x := by
  refine h.invariant (I := fun s => Counts s ∧ ∀ x ∈ s.objs, Releasing x) (fun s₀ h₀ => ?_) ?_
  · exact ⟨counts_init h₀, by simp [(fresh_of_init h₀).1]⟩
  · rintro s t a _ _ hs ⟨hc, hr⟩
    refine ⟨counts_step (swapsCleared_of_releasing hc.objs hr a) (moved_of_step hs) hc,
      releasing_step hc.objs (fun x hx k m hk hm => ?_) (moved_of_step hs) hr⟩
    obtain ⟨o, ho⟩ := List.getElem?_of_mem hx
    exact hc.fits ho hk hm

end Runs

/-! ## The live objects -/

/-- The sum of a counter over the live objects on mutex `k`. -/
def State.live (s : State) (k : Nat) (f : LockObj → Nat) : Nat :=
  tally (LockObj.on k f) (s.objs.filter LockObj.alive)

theorem live_eq_total {s : State} {k : Nat} {f : LockObj → Nat}
    (h : ∀ x ∈ s.objs, x.alive = false → f x = 0) : s.live k f = s.total k f := by
  refine tally_filter fun x hx hd => ?_
  rw [LockObj.on, h x hx hd, ite_self]

/-- Each counter of a mutex is the sum of that counter over the live lock objects on
it, whatever is done with the objects. -/
theorem counts_agree {s : State} (h : machine.Reachable Machine.anyStep s) :
    (∀ k m, s.mutexes[k]? = some m →
      m.readCount = s.live k LockObj.readCount ∧
        m.readingCount = s.live k LockObj.readingCount ∧
        m.writeCount = s.live k LockObj.writeCount) ∧
      ∀ x ∈ s.objs, x.readingCount ≤ x.readCount := by
  obtain ⟨hc, hr⟩ := reachable_counts h
  have hle (x : LockObj) (hx : x ∈ s.objs) : x.readingCount ≤ x.readCount := by
    have := (hc.objs x hx).reading
    omega
  have hread (x : LockObj) (hx : x ∈ s.objs) (hd : x.alive = false) : x.readCount = 0 :=
    ((hr x hx).dead hd).2.1
  refine ⟨fun k m hm => ⟨?_, ?_, ?_⟩, hle⟩
  · rw [live_eq_total hread]
    exact hc.read k m hm
  · rw [live_eq_total fun x hx hd => by have := hle x hx; have := hread x hx hd; omega]
    exact hc.reading k m hm
  · rw [live_eq_total fun x hx hd => ((hr x hx).dead hd).2.2]
    exact hc.write k m hm

/-- Object 1 held mutex 1 until object 0, with two locks on mutex 0, was assigned to it.
Object 2 waits to write. -/
def handedOn : State :=
  { mutexes := [{ readCount := 2, writeCount := 1, readingCount := 2 }, { reader := true }],
    objs := [{ cls := .uniqueReadLock, mutex := none },
      { cls := .uniqueReadLock, mutex := some 0, readCount := 2, readingCount := 2,
        holdsRead := true },
      { cls := .uniqueWriteLock, mutex := some 0, writeCount := 1, todo := [.writeLock],
        waiting := true }] }

theorem handedOn_reachable : machine.Reachable Machine.anyStep handedOn :=
  Machine.reachable_of_exec
    [.construct .uniqueReadLock 0 false false, .exec 0, .call 0 .readLock, .exec 0,
      .construct .uniqueReadLock 1 false false, .exec 1,
      .construct .uniqueWriteLock 0 false false, .exec 2,
      .call 1 (.assign 0), .exec 1, .exec 1]
    ⟨[false, true], rfl⟩ (by decide)

theorem counts_agree_handedOn : 2 = handedOn.live 0 LockObj.readCount :=
  ((counts_agree handedOn_reachable).1 0 _ rfl).1

end RwObjects
end TryAndLearn
