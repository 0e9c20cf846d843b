import TryAndLearn.RwMutex.LockObjects

/-!
# The counters of a mutex and of its lock objects

Each counter of a mutex is the sum of that counter over the lock objects that point
to it.  One section on a mutex keeps the sum because it changes the mutex and the
object by the same amount (`runOn_balanced`).  That an unlock of one object never
runs into the clamps and early returns of `readUnlock` in a way that breaks the
balance rests on the sums themselves: no object counts more than its mutex.

A move assignment overwrites the counters of its target, so it keeps the sums only
if these are zero by then.  `SwapsCleared` states that on the step.
-/

namespace TryAndLearn
namespace RwObjects

namespace LockObj

/-- Waiting in `ReadLock`. -/
def waitsRead (x : LockObj) : Nat :=
  if x.waiting = true ∧ x.todo.head? = some .readLock then 1 else 0

/-- An object waits only in a lock call, and counts one reader more than it reads
exactly while it waits in `ReadLock`. -/
structure WellFormed (x : LockObj) : Prop where
  waits : x.waiting = true → x.todo.head? = some .readLock ∨ x.todo.head? = some .writeLock
  reading : x.readCount = x.readingCount + x.waitsRead

/-- `x` counts no more than its mutex `m`. -/
structure Fits (x : LockObj) (m : RwMutex) : Prop where
  read : x.readCount ≤ m.readCount
  reading : x.readingCount ≤ m.readingCount
  write : x.writeCount ≤ m.writeCount

/-- The weight of `x` in a sum over the objects on mutex `k`. -/
def on (k : Nat) (f : LockObj → Nat) (x : LockObj) : Nat := if x.mutex = some k then f x else 0

theorem on_of_eq {x : LockObj} {k : Nat} (h : x.mutex = some k) (f : LockObj → Nat) :
    on k f x = f x := if_pos h

theorem on_of_ne {x : LockObj} {k : Nat} (h : x.mutex ≠ some k) (f : LockObj → Nat) :
    on k f x = 0 := if_neg h

@[simp] theorem on_moved (k : Nat) (f : LockObj → Nat) (x : LockObj) : on k f x.moved = 0 :=
  on_of_ne (by simp [moved]) f

theorem waiting_of_head {x : LockObj} {i : Instr} {rest : List Instr} (hx : x.WellFormed)
    (htodo : x.todo = i :: rest) (hr : i ≠ .readLock) (hw : i ≠ .writeLock) :
    x.waiting = false := by
  cases hwait : x.waiting with
  | false => rfl
  | true => rcases hx.waits hwait with h | h <;> rw [htodo] at h <;> simp_all

theorem waiting_of_idle {x : LockObj} (hx : x.WellFormed) (h : x.Idle) : x.waiting = false := by
  cases hwait : x.waiting with
  | false => rfl
  | true => rcases hx.waits hwait with hw | hw <;> rw [h.2] at hw <;> simp at hw

/-- An object that waits for nothing reads all it counts. -/
theorem reading_of_not_waiting {x : LockObj} (hx : x.WellFormed) (h : x.waiting = false) :
    x.readCount = x.readingCount := by
  have := hx.reading
  rw [waitsRead, if_neg (by simp [h])] at this
  exact this

theorem wellFormed_of_not_waiting {x : LockObj} (hw : x.waiting = false)
    (hr : x.readCount = x.readingCount) : x.WellFormed :=
  ⟨fun h => absurd (hw.symm.trans h) (by decide),
    by rw [waitsRead, if_neg (by simp [hw])]; exact hr⟩

end LockObj

/-- A section changes the mutex and the object by the same amount. -/
structure Balanced (m m' : RwMutex) (x x' : LockObj) : Prop where
  mutex : x'.mutex = x.mutex
  read : m'.readCount + x.readCount = m.readCount + x'.readCount
  reading : m'.readingCount + x.readingCount = m.readingCount + x'.readingCount
  write : m'.writeCount + x.writeCount = m.writeCount + x'.writeCount

section Sections

variable {x : LockObj} {m : RwMutex} {i : Instr} {rest : List Instr}

theorem readLockOn_balanced (hx : x.WellFormed) (htodo : x.todo = .readLock :: rest) :
    Balanced m (x.readLockOn rest m).1 x (x.readLockOn rest m).2 ∧
      (x.readLockOn rest m).2.WellFormed := by
  have hreading := hx.reading
  simp only [LockObj.waitsRead, htodo, List.head?_cons, and_true] at hreading
  unfold LockObj.readLockOn RwMutex.readLockEnter
  by_cases hw : x.waiting = true
  · simp only [hw, if_true] at hreading ⊢
    split
    · refine ⟨⟨rfl, rfl, ?_, rfl⟩, LockObj.wellFormed_of_not_waiting rfl ?_⟩ <;>
        simp [RwMutex.readLockAdmit] <;> omega
    · refine ⟨⟨rfl, rfl, rfl, rfl⟩, fun _ => by simp [htodo], ?_⟩
      simp [LockObj.waitsRead, htodo]
      omega
  · simp only [hw, if_false, Bool.false_eq_true] at hreading ⊢
    split
    · refine ⟨⟨rfl, ?_, ?_, rfl⟩, LockObj.wellFormed_of_not_waiting rfl ?_⟩ <;>
        simp [RwMutex.readLockAdmit] <;> omega
    · refine ⟨⟨rfl, ?_, rfl, rfl⟩, fun _ => by simp [htodo], ?_⟩ <;>
        simp [LockObj.waitsRead, htodo] <;> omega

theorem writeLockOn_balanced (hx : x.WellFormed) (htodo : x.todo = .writeLock :: rest) :
    Balanced m (x.writeLockOn rest m).1 x (x.writeLockOn rest m).2 ∧
      (x.writeLockOn rest m).2.WellFormed := by
  have hreading := hx.reading
  simp only [LockObj.waitsRead, htodo, List.head?_cons] at hreading
  unfold LockObj.writeLockOn RwMutex.writeLockEnter
  by_cases hw : x.waiting = true
  · simp only [hw, if_true] at hreading ⊢
    split
    · exact ⟨⟨rfl, rfl, rfl, rfl⟩, LockObj.wellFormed_of_not_waiting rfl (by simpa using hreading)⟩
    · refine ⟨⟨rfl, rfl, rfl, rfl⟩, fun _ => by simp [htodo], ?_⟩
      simpa [LockObj.waitsRead, htodo] using hreading
  · simp only [hw, if_false, Bool.false_eq_true] at hreading ⊢
    split
    · refine ⟨⟨rfl, rfl, rfl, ?_⟩,
        LockObj.wellFormed_of_not_waiting rfl (by simpa using hreading)⟩
      simp [RwMutex.writeLockAdmit]
      omega
    · refine ⟨⟨rfl, rfl, rfl, ?_⟩, fun _ => by simp [htodo], ?_⟩
      · simp
        omega
      · simpa [LockObj.waitsRead, htodo] using hreading

theorem readUnlockOn_balanced (hfit : x.Fits m) (hw : x.waiting = false)
    (hr : x.readCount = x.readingCount) (release : Bool) :
    Balanced m (x.readUnlockOn rest release m).1 x (x.readUnlockOn rest release m).2 ∧
      (x.readUnlockOn rest release m).2.WellFormed := by
  have hle : RwMutex.released x.readCount release ≤ x.readCount := by
    unfold RwMutex.released
    split <;> omega
  obtain ⟨hread, hreading, _⟩ := hfit
  obtain ⟨hm, hcount, hreadingCount⟩ :=
    RwMutex.readUnlock_some release hread (hr ▸ hreading)
  unfold LockObj.readUnlockOn
  simp only [← hr, hm, hcount, hreadingCount, Option.getD_some]
  refine ⟨⟨rfl, ?_, ?_, rfl⟩, LockObj.wellFormed_of_not_waiting hw rfl⟩ <;> simp only <;> omega

theorem writeUnlockOn_balanced (hfit : x.Fits m) (hw : x.waiting = false)
    (hr : x.readCount = x.readingCount) (release : Bool) :
    Balanced m (x.writeUnlockOn rest release m).1 x (x.writeUnlockOn rest release m).2 ∧
      (x.writeUnlockOn rest release m).2.WellFormed := by
  have hle : RwMutex.released x.writeCount release ≤ x.writeCount := by
    unfold RwMutex.released
    split <;> omega
  obtain ⟨hm, hcount⟩ := RwMutex.writeUnlock_some release hfit.write
  have hfit' := hfit.write
  unfold LockObj.writeUnlockOn
  simp only [hm, hcount, Option.getD_some]
  refine ⟨⟨rfl, rfl, rfl, ?_⟩, LockObj.wellFormed_of_not_waiting hw hr⟩
  simp only
  omega

theorem runOn_balanced {run : RwMutex → RwMutex × LockObj} (hx : x.WellFormed)
    (htodo : x.todo = i :: rest) (hrun : x.runOn rest i = some run) (hfit : x.Fits m) :
    Balanced m (run m).1 x (run m).2 ∧ (run m).2.WellFormed := by
  cases i with
  | readLock =>
    obtain rfl := Option.some.inj hrun
    exact readLockOn_balanced hx htodo
  | writeLock =>
    obtain rfl := Option.some.inj hrun
    exact writeLockOn_balanced hx htodo
  | readUnlock release =>
    obtain rfl := Option.some.inj hrun
    have hw := LockObj.waiting_of_head hx htodo (by simp) (by simp)
    exact readUnlockOn_balanced hfit hw (LockObj.reading_of_not_waiting hx hw) release
  | writeUnlock release =>
    obtain rfl := Option.some.inj hrun
    have hw := LockObj.waiting_of_head hx htodo (by simp) (by simp)
    exact writeUnlockOn_balanced hfit hw (LockObj.reading_of_not_waiting hx hw) release
  | releaseRead =>
    obtain rfl := Option.some.inj hrun
    have hw := LockObj.waiting_of_head hx htodo (by simp) (by simp)
    exact readUnlockOn_balanced hfit hw (LockObj.reading_of_not_waiting hx hw) true
  | releaseWrite =>
    obtain rfl := Option.some.inj hrun
    have hw := LockObj.waiting_of_head hx htodo (by simp) (by simp)
    exact writeUnlockOn_balanced hfit hw (LockObj.reading_of_not_waiting hx hw) true
  | swap src => exact absurd hrun (by simp [LockObj.runOn])
  | free => exact absurd hrun (by simp [LockObj.runOn])

end Sections

/-! ## The sums -/

def State.total (s : State) (k : Nat) (f : LockObj → Nat) : Nat :=
  tally (LockObj.on k f) s.objs

structure Counts (s : State) : Prop where
  objs : ∀ x ∈ s.objs, x.WellFormed
  read : ∀ k m, s.mutexes[k]? = some m → m.readCount = s.total k LockObj.readCount
  reading : ∀ k m, s.mutexes[k]? = some m → m.readingCount = s.total k LockObj.readingCount
  write : ∀ k m, s.mutexes[k]? = some m → m.writeCount = s.total k LockObj.writeCount

/-- The target of a move assignment has nothing left to lose when the fields are
swapped. -/
def SwapsCleared (s : State) : Act → Prop
  | .exec o => ∀ x ∈ s.objs[o]?, ∀ src rest, x.todo = .swap src :: rest →
      x.readCount = 0 ∧ x.readingCount = 0 ∧ x.writeCount = 0
  | _ => True

theorem Counts.fits {s : State} {o k : Nat} {x : LockObj} {m : RwMutex} (hc : Counts s)
    (h : s.objs[o]? = some x) (hk : x.mutex = some k) (hm : s.mutexes[k]? = some m) :
    x.Fits m := by
  have hle (f : LockObj → Nat) : f x ≤ s.total k f := by
    have := le_tally (w := LockObj.on k f) h
    rwa [LockObj.on_of_eq hk] at this
  exact ⟨hc.read k m hm ▸ hle _, hc.reading k m hm ▸ hle _, hc.write k m hm ▸ hle _⟩

/-- A step that changes no mutex, no well-formedness and no weight. -/
theorem Counts.of_totals {s : State} {objs : List LockObj} (hc : Counts s)
    (hobjs : ∀ x ∈ objs, x.WellFormed)
    (htotal : ∀ k (f : LockObj → Nat),
      f = LockObj.readCount ∨ f = LockObj.readingCount ∨ f = LockObj.writeCount →
        tally (LockObj.on k f) objs = s.total k f) :
    Counts { s with objs := objs } where
  objs := hobjs
  read k m hm := (hc.read k m hm).trans (htotal k _ (.inl rfl)).symm
  reading k m hm := (hc.reading k m hm).trans (htotal k _ (.inr (.inl rfl))).symm
  write k m hm := (hc.write k m hm).trans (htotal k _ (.inr (.inr rfl))).symm

theorem Counts.setObj {s : State} {o : Nat} {x x' : LockObj} (hc : Counts s)
    (h : s.objs[o]? = some x) (hwf : x'.WellFormed)
    (hw : ∀ k (f : LockObj → Nat),
      f = LockObj.readCount ∨ f = LockObj.readingCount ∨ f = LockObj.writeCount →
        LockObj.on k f x' = LockObj.on k f x) :
    Counts (s.setObj o x') :=
  hc.of_totals (forall_mem_set hc.objs hwf) fun k f hf => tally_set_of_eq h (hw k f hf)

/-- An object that waits for nothing goes on to its next instruction. -/
theorem Counts.setTodo {s : State} {o : Nat} {x : LockObj} (hc : Counts s)
    (h : s.objs[o]? = some x) (hw : x.waiting = false) (todo : List Instr) (alive : Bool) :
    Counts (s.setObj o { x with todo := todo, alive := alive }) := by
  have hr := LockObj.reading_of_not_waiting (hc.objs x (List.mem_of_getElem? h)) hw
  exact hc.setObj h (LockObj.wellFormed_of_not_waiting hw hr)
    fun k f hf => by rcases hf with rfl | rfl | rfl <;> rfl

theorem counts_onMutex {s : State} {o k : Nat} {x x' : LockObj} {m m' : RwMutex}
    (hc : Counts s) (h : s.objs[o]? = some x) (hk : x.mutex = some k)
    (hm : s.mutexes[k]? = some m) (hb : Balanced m m' x x') (hwf : x'.WellFormed) :
    Counts { mutexes := s.mutexes.set k m', objs := s.objs.set o x' } := by
  have hk' : x'.mutex = some k := hb.mutex.trans hk
  have hklt : k < s.mutexes.length := (List.getElem?_eq_some_iff.mp hm).1
  -- the sum of mutex `k` moves with the object, every other sum stays
  have hsum (f : LockObj → Nat) (g : RwMutex → Nat) (hg : g m = s.total k f)
      (hrest : ∀ j n, s.mutexes[j]? = some n → g n = s.total j f)
      (hbal : g m' + f x = g m + f x') (j : Nat) (n : RwMutex)
      (hn : (s.mutexes.set k m')[j]? = some n) :
      g n = tally (LockObj.on j f) (s.objs.set o x') := by
    have hset := tally_set h (LockObj.on j f) x'
    have htotal : s.total j f = tally (LockObj.on j f) s.objs := rfl
    by_cases hj : j = k
    · subst hj
      obtain rfl : m' = n := by simpa [hklt] using hn
      rw [LockObj.on_of_eq hk, LockObj.on_of_eq hk'] at hset
      omega
    · rw [List.getElem?_set_ne (Ne.symm hj)] at hn
      have hne : some k ≠ some j := fun e => hj (Option.some.inj e).symm
      rw [LockObj.on_of_ne (hk ▸ hne), LockObj.on_of_ne (hk' ▸ hne)] at hset
      have := hrest j n hn
      omega
  exact
    { objs := forall_mem_set hc.objs hwf
      read := hsum _ _ (hc.read k m hm) hc.read hb.read
      reading := hsum _ _ (hc.reading k m hm) hc.reading hb.reading
      write := hsum _ _ (hc.write k m hm) hc.write hb.write }

theorem counts_step {s t : State} {a : Act} (hswap : SwapsCleared s a) (h : Moved s a t)
    (hc : Counts s) : Counts t := by
  cases h with
  | construct hk =>
    refine hc.of_totals (fun x hx => ?_) fun k f hf => ?_
    · rcases List.mem_append.mp hx with hx | hx
      · exact hc.objs x hx
      · obtain rfl := List.mem_singleton.mp hx
        exact LockObj.wellFormed_of_not_waiting rfl rfl
    · rcases hf with rfl | rfl | rfl <;> simp [LockObj.on, State.total]
  | @moveConstruct src y hsrc hidle =>
    have hwf := hc.objs y (List.mem_of_getElem? hsrc)
    have hw := LockObj.waiting_of_idle hwf hidle
    have hmoved : y.moved.WellFormed := LockObj.wellFormed_of_not_waiting hw rfl
    refine hc.of_totals (fun x hx => ?_) fun k f _ => ?_
    · rcases List.mem_append.mp hx with hx | hx
      · exact forall_mem_set hc.objs hmoved x hx
      · obtain rfl := List.mem_singleton.mp hx
        exact hwf
    · have := tally_set hsrc (LockObj.on k f) y.moved
      simp only [tally_append, tally_cons, tally_nil, LockObj.on_moved, State.total] at this ⊢
      omega
  | @call o x method body hx hidle hbody =>
    have hwf := hc.objs x (List.mem_of_getElem? hx)
    have hw := LockObj.waiting_of_idle hwf hidle
    exact hc.setTodo hx hw body _
  | @free o x rest hx htodo =>
    have hwf := hc.objs x (List.mem_of_getElem? hx)
    have hw := LockObj.waiting_of_head hwf htodo (by simp) (by simp)
    exact hc.setTodo hx hw rest _
  | @swapSelf o x rest hx htodo =>
    have hwf := hc.objs x (List.mem_of_getElem? hx)
    have hw := LockObj.waiting_of_head hwf htodo (by simp) (by simp)
    obtain ⟨hr, hg, hwr⟩ := hswap x hx o rest htodo
    refine hc.setObj hx (LockObj.wellFormed_of_not_waiting hw rfl) fun k f hf => ?_
    rcases hf with rfl | rfl | rfl <;> simp [LockObj.on, LockObj.moved, hr, hg, hwr]
  | @swap o x src y rest hx htodo hne hsrc hidle hcls =>
    have hwf := hc.objs x (List.mem_of_getElem? hx)
    have hwfy := hc.objs y (List.mem_of_getElem? hsrc)
    have hw := LockObj.waiting_of_head hwf htodo (by simp) (by simp)
    have hwy := LockObj.waiting_of_idle hwfy hidle
    obtain ⟨hr, hg, hwr⟩ := hswap x hx src rest htodo
    have hry := LockObj.reading_of_not_waiting hwfy hwy
    have htaken : (LockObj.takeFrom { x with todo := rest } y).WellFormed :=
      LockObj.wellFormed_of_not_waiting hw hry
    refine hc.of_totals (forall_mem_set (forall_mem_set hc.objs htaken)
      (LockObj.wellFormed_of_not_waiting hwy rfl)) fun k f hf => ?_
    have hsrc' : (s.objs.set o ({ x with todo := rest }.takeFrom y))[src]? = some y := by
      rwa [List.getElem?_set_ne hne.symm]
    have h1 := tally_set hx (LockObj.on k f) ({ x with todo := rest }.takeFrom y)
    have h2 := tally_set hsrc' (LockObj.on k f) y.moved
    have hlost : LockObj.on k f x = 0 := by
      rcases hf with rfl | rfl | rfl <;> simp [LockObj.on, hr, hg, hwr]
    have htake : LockObj.on k f ({ x with todo := rest }.takeFrom y) = LockObj.on k f y := by
      rcases hf with rfl | rfl | rfl <;> rfl
    rw [LockObj.on_moved] at h2
    simp only [State.total, State.setObj]
    omega
  | @skip o x i rest hx htodo hskip =>
    have hwf := hc.objs x (List.mem_of_getElem? hx)
    have hw : x.waiting = false := LockObj.waiting_of_head hwf htodo
      (by rintro rfl; simp [LockObj.skips] at hskip)
      (by rintro rfl; simp [LockObj.skips] at hskip)
    exact hc.setTodo hx hw rest _
  | @onMutex o x i rest run k m hx htodo hrun hmutex hm =>
    obtain ⟨hb, hwf⟩ := runOn_balanced (hc.objs x (List.mem_of_getElem? hx)) htodo hrun
      (hc.fits hx hmutex hm)
    exact counts_onMutex hc hx hmutex hm hb hwf

/-- A fresh mutex counts nothing. -/
theorem fresh_of_init {s : State} (h : machine.init s) :
    s.objs = [] ∧ ∀ m ∈ s.mutexes, ∃ reader, m = { reader := reader } := by
  obtain ⟨modes, rfl⟩ := h
  refine ⟨rfl, fun m hm => ?_⟩
  obtain ⟨reader, _, rfl⟩ := List.mem_map.mp hm
  exact ⟨reader, rfl⟩

theorem counts_init {s : State} (h : machine.init s) : Counts s := by
  obtain ⟨hobjs, hfresh⟩ := fresh_of_init h
  have hzero (k : Nat) (f : LockObj → Nat) : s.total k f = 0 := by simp [State.total, hobjs]
  refine ⟨by simp [hobjs], ?_, ?_, ?_⟩ <;> intro k m hm <;> rw [hzero] <;>
    obtain ⟨reader, rfl⟩ := hfresh m (List.mem_of_getElem? hm) <;> rfl

end RwObjects
end TryAndLearn
