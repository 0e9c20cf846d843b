import TryAndLearn.SpinLock.Shared

/-!
# Releases by shared guards

`Unlock` reads `is_locked`, stores false to `lock_` and clears `is_locked`, in three
operations.  A second `Unlock` of the same guard between the first and the last reads
that the guard is locked and releases as well, whatever has become of the lock.  If such
windows of one guard do not overlap, a guard releases what it has acquired and nothing
else, however its calls interleave otherwise.

A guard may then hold the lock without knowing it: a waiting `Lock` may get the lock
between the two stores of an `Unlock`, which clears `is_locked` behind it.
-/

namespace TryAndLearn
namespace SharedGuards

open SpinLock (Pc Method Guard Goto)

/-- The guard that made the latest successful exchange. -/
def latest (log : List Event) : Option Nat :=
  log.foldl (fun g e => match e with | .exchanged g => some g | .stored _ => g) none

/-- The guard that holds the lock: it has exchanged, and nobody has stored false since. -/
def holder (log : List Event) : Option Nat :=
  log.foldl (fun _ e => match e with | .exchanged g => some g | .stored _ => none) none

/-- A guard releases no more than it has acquired, and never what another one has. -/
structure Released (log : List Event) : Prop where
  counts : ∀ g, log.count (.stored g) ≤ log.count (.exchanged g)
  latest : ∀ before g after, log = before ++ .stored g :: after →
    ∀ g', latest before = some g' → g' = g

/-- Whether a thread is inside guard `g` at a place of `P`. -/
def Thread.weight (g : Nat) (P : Pc → Bool) (th : Thread) : Nat :=
  (decide (th.guard = g ∧ th.pc ≠ .idle) && P th.pc).toNat

def isAt (pc pc' : Pc) : Bool := decide (pc' = pc)

/-- In `Unlock`, after it has read that the guard is locked. -/
def releasing : Pc → Bool
  | .unlock | .clear => true
  | .idle | .lockTest | .exchange | .spin | .set | .unlockTest | .destroyTest | .destroyUnlock
  | .gone => false

/-- In the constructor, `Lock` or `Unlock`. -/
def working : Pc → Bool
  | .lockTest | .exchange | .spin | .set | .unlockTest | .unlock | .clear => true
  | .idle | .destroyTest | .destroyUnlock | .gone => false

/-- Where a thread knows something about the lock. -/
def telling : Pc → Bool
  | .set | .unlock | .clear | .destroyTest | .destroyUnlock => true
  | .idle | .lockTest | .exchange | .spin | .unlockTest | .gone => false

/-- The threads inside guard `g` at a place of `P`. -/
def State.inside (s : State) (g : Nat) (P : Pc → Bool) : Nat := tally (Thread.weight g P) s.threads

/-- An `Unlock` that is about to read that its guard is locked does so while no other
`Unlock` of the guard is between its own reading and the clearing. -/
def Apart (s : State) : Act → Prop
  | .exec i => ∀ th ∈ s.threads[i]?, th.pc = .unlockTest →
    ∀ x ∈ s.guards[th.guard]?, x.isLocked = true → s.inside th.guard releasing = 0
  | .construct _ | .call _ _ _ => True

instance (s : State) : (a : Act) → Decidable (Apart s a)
  | .exec i => inferInstanceAs (Decidable (∀ th ∈ s.threads[i]?, th.pc = .unlockTest →
    ∀ x ∈ s.guards[th.guard]?, x.isLocked = true → s.inside th.guard releasing = 0))
  | .construct _ | .call _ _ _ => inferInstanceAs (Decidable True)

/-! ## One guard

`n P` is the number of threads inside the guard at a place of `P`.  As long as the guard
is not destroyed nobody is in its destructor, and afterwards at most one thread is, and
nobody anywhere else. -/

structure InUse (held : Prop) (isLocked : Bool) (n : (Pc → Bool) → Nat) : Prop where
  undisturbed : n (isAt .destroyTest) = 0 ∧ n (isAt .destroyUnlock) = 0
  window : n (isAt .unlock) + n (isAt .clear) ≤ 1
  unlock : 0 < n (isAt .unlock) → held ∧ n (isAt .set) = 0
  set : 0 < n (isAt .set) → held ∧ n (isAt .set) ≤ 1 ∧ (isLocked = true → 0 < n (isAt .clear))
  locked : isLocked = true → held ∨ 0 < n (isAt .clear)

structure Leaving (held : Prop) (isLocked : Bool) (n : (Pc → Bool) → Nat) : Prop where
  empty : n working = 0
  alone : n (isAt .destroyTest) + n (isAt .destroyUnlock) ≤ 1
  destroyTest : 0 < n (isAt .destroyTest) → isLocked = true → held
  destroyUnlock : 0 < n (isAt .destroyUnlock) → held

/-- Who may be inside a guard, and what they know about the lock. -/
structure GuardSound (held : Prop) (x : SharedGuard) (n : (Pc → Bool) → Nat) : Prop where
  inUse : x.life ≠ .destroyed → InUse held x.isLocked n
  leaving : x.life = .destroyed → Leaving held x.isLocked n

/-- One thread inside the guard goes from `pc` to `pc'`. -/
def Moves (n n' : (Pc → Bool) → Nat) (pc pc' : Pc) : Prop :=
  ∀ P, P .idle = false → n' P + (P pc).toNat = n P + (P pc').toNat

section OneGuard

variable {held : Prop} {x : SharedGuard} {l : Bool} {n n' : (Pc → Bool) → Nat} {s : SpinLock.State}
  {th : Thread} {y : Guard} {pc pc' : Pc}

/-- A place that the thread neither leaves nor comes to. -/
theorem Moves.same (hm : Moves n n' pc pc') {P : Pc → Bool} (hidle : P .idle = false)
    (h : P pc = false) (h' : P pc' = false) : n' P = n P := by
  have hP := hm P hidle
  rw [h, h'] at hP
  exact hP

/-- The place the thread leaves. -/
theorem Moves.leave (hm : Moves n n' pc pc') {P : Pc → Bool} (hidle : P .idle = false)
    (h : P pc = true) (h' : P pc' = false) : n' P + 1 = n P := by
  have hP := hm P hidle
  rw [h, h'] at hP
  exact hP

/-- The place the thread comes to. -/
theorem Moves.arrive (hm : Moves n n' pc pc') {P : Pc → Bool} (hidle : P .idle = false)
    (h : P pc = false) (h' : P pc' = true) : n' P = n P + 1 := by
  have hP := hm P hidle
  rw [h, h'] at hP
  exact hP

/-- Nobody comes into the destructor. -/
theorem Moves.undisturbed (hm : Moves n n' pc pc')
    (h : n (isAt .destroyTest) = 0 ∧ n (isAt .destroyUnlock) = 0)
    (htest : isAt .destroyTest pc' = false) (hunlock : isAt .destroyUnlock pc' = false) :
    n' (isAt .destroyTest) = 0 ∧ n' (isAt .destroyUnlock) = 0 := by
  have htest' := hm (isAt .destroyTest) rfl
  have hunlock' := hm (isAt .destroyUnlock) rfl
  rw [htest, h.1] at htest'
  rw [hunlock, h.2] at hunlock'
  exact ⟨Nat.eq_zero_of_add_eq_zero_right htest', Nat.eq_zero_of_add_eq_zero_right hunlock'⟩

/-- Between two places that no clause speaks of. -/
theorem InUse.wander (hg : InUse held l n) (hm : Moves n n' pc pc') (hpc : telling pc = false)
    (hpc' : telling pc' = false) : InUse held l n' := by
  have heq (pc₀ : Pc) (h : telling pc₀ = true) (hidle : isAt pc₀ .idle = false) :
      n' (isAt pc₀) = n (isAt pc₀) := by
    have hne (pc₁ : Pc) (h₁ : telling pc₁ = false) : isAt pc₀ pc₁ = false := by
      refine decide_eq_false fun h₀ => ?_
      rw [h₀, h] at h₁
      cases h₁
    exact hm.same hidle (hne pc hpc) (hne pc' hpc')
  obtain ⟨h1, h2, h3, h4, h5⟩ := hg
  constructor <;> simp only [heq .unlock rfl rfl, heq .clear rfl rfl, heq .set rfl rfl,
    heq .destroyTest rfl rfl, heq .destroyUnlock rfl rfl] <;> assumption

theorem InUse.acquire (hg : InUse held l n) (hm : Moves n n' .exchange .set) (hfree : ¬ held) :
    InUse True l n' := by
  have hset : n (isAt .set) = 0 := by
    by_contra hne
    exact hfree (hg.set (by omega)).1
  have hset' : n' (isAt .set) = n (isAt .set) + 1 := hm.arrive rfl rfl rfl
  have hunlock : n' (isAt .unlock) = n (isAt .unlock) := hm.same rfl rfl rfl
  have hclear : n' (isAt .clear) = n (isAt .clear) := hm.same rfl rfl rfl
  have hwindow := hg.window
  have hundisturbed := hm.undisturbed hg.undisturbed rfl rfl
  refine ⟨hundisturbed, by omega, fun hpos => ?_, fun _ => ⟨trivial, by omega, fun hl => ?_⟩,
    fun _ => .inl trivial⟩
  · exact absurd (hg.unlock (by omega)).1 hfree
  · have := (hg.locked hl).resolve_left hfree
    omega

theorem InUse.release (hg : InUse held l n) (hm : Moves n n' .unlock .clear) :
    InUse False l n' := by
  have hunlock : n' (isAt .unlock) + 1 = n (isAt .unlock) := hm.leave rfl rfl rfl
  have hclear : n' (isAt .clear) = n (isAt .clear) + 1 := hm.arrive rfl rfl rfl
  have hset : n' (isAt .set) = n (isAt .set) := hm.same rfl rfl rfl
  have hwindow := hg.window
  have hundisturbed := hm.undisturbed hg.undisturbed rfl rfl
  have hnone := (hg.unlock (by omega)).2
  exact ⟨hundisturbed, by omega, fun _ => by omega, fun _ => by omega, fun _ => .inr (by omega)⟩

theorem InUse.store (hg : InUse held l n) (hm : Moves n n' .set .idle) :
    InUse held true n' := by
  have hset : n' (isAt .set) + 1 = n (isAt .set) := hm.leave rfl rfl rfl
  have hunlock : n' (isAt .unlock) = n (isAt .unlock) := hm.same rfl rfl rfl
  have hclear : n' (isAt .clear) = n (isAt .clear) := hm.same rfl rfl rfl
  have hwindow := hg.window
  have hundisturbed := hm.undisturbed hg.undisturbed rfl rfl
  obtain ⟨hheld, hone, _⟩ := hg.set (by omega)
  exact ⟨hundisturbed, by omega, fun _ => ⟨hheld, by omega⟩, fun _ => by omega, fun _ => .inl hheld⟩

/-- An `Unlock` that reads that the guard is locked, with no other one under way, knows
that the guard holds the lock. -/
theorem InUse.test (hg : InUse held l n) (hm : Moves n n' .unlockTest .unlock)
    (hl : l = true) (hapart : n (isAt .unlock) + n (isAt .clear) = 0) :
    InUse held l n' := by
  have hunlock : n' (isAt .unlock) = n (isAt .unlock) + 1 := hm.arrive rfl rfl rfl
  have hclear : n' (isAt .clear) = n (isAt .clear) := hm.same rfl rfl rfl
  have hset : n' (isAt .set) = n (isAt .set) := hm.same rfl rfl rfl
  have hundisturbed := hm.undisturbed hg.undisturbed rfl rfl
  have hheld : held := (hg.locked hl).resolve_right (by omega)
  have hnone : n (isAt .set) = 0 := by
    by_contra hne
    have := (hg.set (by omega)).2.2 hl
    omega
  exact ⟨hundisturbed, by omega, fun _ => ⟨hheld, by omega⟩, fun _ => by omega, fun _ => .inl hheld⟩

theorem InUse.clear (hg : InUse held l n) (hm : Moves n n' .clear .idle) :
    InUse held false n' := by
  have hclear : n' (isAt .clear) + 1 = n (isAt .clear) := hm.leave rfl rfl rfl
  have hunlock : n' (isAt .unlock) = n (isAt .unlock) := hm.same rfl rfl rfl
  have hset : n' (isAt .set) = n (isAt .set) := hm.same rfl rfl rfl
  have hwindow := hg.window
  have hundisturbed := hm.undisturbed hg.undisturbed rfl rfl
  refine ⟨hundisturbed, by omega, fun _ => by omega, fun hpos => ?_, fun hl => by cases hl⟩
  obtain ⟨hheld, hone, _⟩ := hg.set (by omega)
  exact ⟨hheld, by omega, fun hl => by cases hl⟩

/-- The destructor starts when nobody is inside. -/
theorem InUse.destroy (hg : InUse held l n) (hempty : ∀ P, P .idle = false → n P = 0)
    (hm : Moves n n' .idle .destroyTest) : Leaving held l n' := by
  have hworking : n' working = n working := hm.same rfl rfl rfl
  have htest : n' (isAt .destroyTest) = n (isAt .destroyTest) + 1 := hm.arrive rfl rfl rfl
  have hgone : n' (isAt .destroyUnlock) = n (isAt .destroyUnlock) := hm.same rfl rfl rfl
  have h1 := hempty working rfl
  have h2 := hempty (isAt .destroyTest) rfl
  have h3 := hempty (isAt .destroyUnlock) rfl
  have h4 := hempty (isAt .clear) rfl
  refine ⟨by omega, by omega, fun _ hl => ?_, fun _ => by omega⟩
  exact (hg.locked hl).resolve_right (by omega)

theorem Leaving.test (hg : Leaving held l n) (hm : Moves n n' .destroyTest .destroyUnlock)
    (hl : l = true) : Leaving held l n' := by
  have hworking : n' working = n working := hm.same rfl rfl rfl
  have htest : n' (isAt .destroyTest) + 1 = n (isAt .destroyTest) := hm.leave rfl rfl rfl
  have hgone : n' (isAt .destroyUnlock) = n (isAt .destroyUnlock) + 1 := hm.arrive rfl rfl rfl
  have hempty := hg.empty
  have halone := hg.alone
  have hheld := hg.destroyTest (by omega) hl
  exact ⟨by omega, by omega, fun _ _ => hheld, fun _ => hheld⟩

/-- The destructor ends, with or without a store of false. -/
theorem Leaving.leave (hg : Leaving held l n) (hm : Moves n n' pc .idle)
    (hpc : pc = .destroyTest ∨ pc = .destroyUnlock) (held' : Prop) : Leaving held' l n' := by
  have halone := hg.alone
  have hworking : n' working = n working := by
    rcases hpc with rfl | rfl <;> exact hm.same rfl rfl rfl
  have hzero : n' (isAt .destroyTest) + n' (isAt .destroyUnlock) = 0 := by
    rcases hpc with rfl | rfl
    · have htest : n' (isAt .destroyTest) + 1 = n (isAt .destroyTest) := hm.leave rfl rfl rfl
      have hgone : n' (isAt .destroyUnlock) = n (isAt .destroyUnlock) := hm.same rfl rfl rfl
      omega
    · have htest : n' (isAt .destroyTest) = n (isAt .destroyTest) := hm.same rfl rfl rfl
      have hgone : n' (isAt .destroyUnlock) + 1 = n (isAt .destroyUnlock) := hm.leave rfl rfl rfl
      omega
  exact ⟨by rw [hworking, hg.empty], by omega, fun _ => by omega, fun _ => by omega⟩

theorem GuardSound.of_inUse (hlife : x.life ≠ .destroyed) (h : InUse held x.isLocked n) :
    GuardSound held x n := ⟨fun _ => h, fun hd => absurd hd hlife⟩

theorem GuardSound.of_leaving (hlife : x.life = .destroyed) (h : Leaving held x.isLocked n) :
    GuardSound held x n := ⟨fun hd => absurd hlife hd, fun _ => h⟩

/-- Nobody works in a guard that is being destroyed. -/
theorem GuardSound.inUse_of_working (hg : GuardSound held x n) (hpos : 0 < n working) :
    x.life ≠ .destroyed ∧ InUse held x.isLocked n := by
  have hlife : x.life ≠ .destroyed := by
    intro h
    have := (hg.leaving h).empty
    omega
  exact ⟨hlife, hg.inUse hlife⟩

/-- Nobody is in the destructor of a guard that is not being destroyed. -/
theorem GuardSound.leaving_of_destroy (hg : GuardSound held x n)
    (hpos : 0 < n (isAt .destroyTest) + n (isAt .destroyUnlock)) :
    x.life = .destroyed ∧ Leaving held x.isLocked n := by
  have hlife : x.life = .destroyed := by
    by_contra h
    have := (hg.inUse h).undisturbed
    omega
  exact ⟨hlife, hg.leaving hlife⟩

/-- A thread inside the guard that leaves `lock_` alone. -/
theorem guardSound_goto (hg : GuardSound held x n) (hgo : Goto s (th.view x) y)
    (hm : Moves n n' th.pc (back y.pc)) (hthere : ∀ P, P .idle = false → (P th.pc).toNat ≤ n P)
    (hapart : th.pc = .unlockTest → x.isLocked = true →
      n (isAt .unlock) + n (isAt .clear) = 0) :
    GuardSound held ⟨y.isLocked, x.life.after th.pc⟩ n' := by
  have hworking := hthere working rfl
  have htest := hthere (isAt .destroyTest) rfl
  cases hgo with
  | lockLocked h _ | lockFree h _ | retry h _ | unlockFree h _ =>
    replace h : th.pc = _ := h
    rw [h] at hm hworking ⊢
    obtain ⟨hlife, hin⟩ := hg.inUse_of_working hworking
    exact .of_inUse hlife (hin.wander hm rfl rfl)
  | spin h =>
    replace h : th.pc = _ := h
    rw [h] at hm hworking ⊢
    obtain ⟨hlife, hin⟩ := hg.inUse_of_working hworking
    refine .of_inUse hlife (hin.wander hm rfl ?_)
    show telling (back (if s.lock then .spin else .exchange)) = false
    split <;> rfl
  | set h =>
    replace h : th.pc = _ := h
    rw [h] at hm hworking ⊢
    obtain ⟨hlife, hin⟩ := hg.inUse_of_working hworking
    exact .of_inUse Life.noConfusion (hin.store hm)
  | unlockLocked h hl =>
    replace h : th.pc = _ := h
    rw [h] at hm hworking ⊢
    obtain ⟨hlife, hin⟩ := hg.inUse_of_working hworking
    exact .of_inUse hlife (hin.test hm hl (hapart h hl))
  | clear h =>
    replace h : th.pc = _ := h
    rw [h] at hm hworking ⊢
    obtain ⟨hlife, hin⟩ := hg.inUse_of_working hworking
    exact .of_inUse hlife (hin.clear hm)
  | destroyLocked h hl =>
    replace h : th.pc = _ := h
    rw [h] at hm htest ⊢
    obtain ⟨hlife, hout⟩ := hg.leaving_of_destroy (Nat.add_pos_left htest _)
    exact .of_leaving hlife (hout.test hm hl)
  | destroyFree h _ =>
    replace h : th.pc = _ := h
    rw [h] at hm htest ⊢
    obtain ⟨hlife, hout⟩ := hg.leaving_of_destroy (Nat.add_pos_left htest _)
    exact .of_leaving hlife (hout.leave hm (.inl rfl) held)

theorem guardSound_acquire (hg : GuardSound held x n) (hm : Moves n n' .exchange .set)
    (hthere : 0 < n working) (hfree : ¬ held) : GuardSound True x n' := by
  obtain ⟨hlife, hin⟩ := hg.inUse_of_working hthere
  exact .of_inUse hlife (hin.acquire hm hfree)

/-- A guard that stores false to `lock_` holds the lock until then. -/
theorem guardSound_release (hg : GuardSound held x n) (hm : Moves n n' pc (back pc'))
    (hthere : ∀ P, P .idle = false → (P pc).toNat ≤ n P)
    (hpc : pc = .unlock ∧ pc' = .clear ∨ pc = .destroyUnlock ∧ pc' = .gone) :
    held ∧ GuardSound False x n' := by
  rcases hpc with ⟨rfl, rfl⟩ | ⟨rfl, rfl⟩
  · obtain ⟨hlife, hin⟩ := hg.inUse_of_working (hthere working rfl)
    exact ⟨(hin.unlock (hthere (isAt .unlock) rfl)).1, .of_inUse hlife (hin.release hm)⟩
  · have hpos := hthere (isAt .destroyUnlock) rfl
    obtain ⟨hlife, hout⟩ := hg.leaving_of_destroy (Nat.add_pos_right _ hpos)
    exact ⟨hout.destroyUnlock hpos, .of_leaving hlife (hout.leave hm (.inr rfl) False)⟩

end OneGuard

/-! ## All guards -/

/-- The record of a lock that is released only by its holder. -/
structure Tallied (log : List Event) : Prop where
  released : ∀ before g after, log = before ++ .stored g :: after → latest before = some g
  counts : ∀ g, log.count (.exchanged g) =
    log.count (.stored g) + if holder log = some g then 1 else 0
  latest : ∀ g, holder log = some g → latest log = some g

structure Sound (s : State) (log : List Event) : Prop where
  tallied : Tallied log
  lock : s.lock = (holder log).isSome
  inside : ∀ th ∈ s.threads, th.pc ≠ .idle → th.guard < s.guards.length
  guards : ∀ g x, s.guards[g]? = some x → GuardSound (holder log = some g) x (s.inside g)

section Record

variable {log : List Event} {g : Nat}

@[simp] theorem latest_exchanged : latest (log ++ [.exchanged g]) = some g := by
  simp [latest, List.foldl_append]

@[simp] theorem holder_exchanged : holder (log ++ [.exchanged g]) = some g := by
  simp [holder, List.foldl_append]

@[simp] theorem holder_stored : holder (log ++ [.stored g]) = none := by
  simp [holder, List.foldl_append]

theorem Tallied.exchanged (ht : Tallied log) (hfree : holder log = none) (g : Nat) :
    Tallied (log ++ [.exchanged g]) where
  released before g' after heq := by
    rcases Machine.append_single_split heq with ⟨rest, hlog, _⟩ | ⟨_, habs, _⟩
    · exact ht.released before g' rest hlog
    · cases habs
  counts g' := by
    have hc := ht.counts g'
    rw [hfree] at hc
    by_cases heq : g = g'
    · subst heq
      simp [List.count_append] at hc ⊢
      omega
    · simpa [List.count_append, List.count_singleton, heq] using hc
  latest g' h := by
    rw [holder_exchanged] at h
    rw [latest_exchanged, h]

theorem Tallied.stored (ht : Tallied log) (hheld : holder log = some g) :
    Tallied (log ++ [.stored g]) where
  released before g' after heq := by
    rcases Machine.append_single_split heq with ⟨rest, hlog, _⟩ | ⟨rfl, hlast, _⟩
    · exact ht.released before g' rest hlog
    · obtain rfl := Event.stored.inj hlast
      exact ht.latest g' hheld
  counts g' := by
    have hc := ht.counts g'
    rw [hheld] at hc
    by_cases heq : g = g'
    · subst heq
      simp [List.count_append] at hc ⊢
      omega
    · simpa [List.count_append, List.count_singleton, heq] using hc
  latest g' h := by
    rw [holder_stored] at h
    cases h

end Record

section Step

variable {s t : State} {log : List Event} {i g : Nat} {th : Thread} {x : SharedGuard} {y : Guard}
  {lock : Bool}

theorem weight_self (th : Thread) {P : Pc → Bool} (hP : P .idle = false) :
    th.weight th.guard P = (P th.pc).toNat := by
  by_cases h : th.pc = .idle <;> simp [Thread.weight, h, hP]

theorem weight_of_ne (th : Thread) (h : th.guard ≠ g) (P : Pc → Bool) : th.weight g P = 0 := by
  simp [Thread.weight, h]

theorem weight_of_idle (h : th.pc = .idle) (g : Nat) (P : Pc → Bool) : th.weight g P = 0 := by
  simp [Thread.weight, h]

/-- A thread that changes its place inside a guard. -/
theorem moves_put (h : s.threads[i]? = some th) :
    Moves (s.inside th.guard) ((s.put i th x lock y).inside th.guard) th.pc (back y.pc) := by
  intro P hP
  have hset := tally_set h (Thread.weight th.guard P) { th with pc := back y.pc }
  rw [weight_self th hP, weight_self { th with pc := back y.pc } hP] at hset
  exact hset

theorem inside_put_of_ne (h : s.threads[i]? = some th) (hne : th.guard ≠ g) :
    (s.put i th x lock y).inside g = s.inside g := by
  funext P
  refine tally_set_of_eq h ?_
  rw [weight_of_ne th hne, weight_of_ne { th with pc := back y.pc } hne]

theorem le_inside (h : s.threads[i]? = some th) (P : Pc → Bool) (hP : P .idle = false) :
    (P th.pc).toNat ≤ s.inside th.guard P := by
  have hle := le_tally (w := Thread.weight th.guard P) h
  rw [weight_self th hP] at hle
  exact hle

/-- A thread that enters guard `g`. -/
theorem moves_enter (h : s.threads[i]? = some th) (hpc : th.pc = .idle) (g : Nat) (pc : Pc)
    (guards : List SharedGuard) :
    Moves (s.inside g)
      (State.inside { s with guards := guards, threads := s.threads.set i ⟨pc, g⟩ } g)
      .idle pc := by
  intro P hP
  have hset := tally_set h (Thread.weight g P) ⟨pc, g⟩
  rw [weight_of_idle hpc, weight_self ⟨pc, g⟩ hP] at hset
  rw [hP]
  exact hset

theorem inside_enter_of_ne (h : s.threads[i]? = some th) (hpc : th.pc = .idle) {g g' : Nat}
    (hne : g ≠ g') (pc : Pc) (guards : List SharedGuard) :
    State.inside { s with guards := guards, threads := s.threads.set i ⟨pc, g⟩ } g' =
      s.inside g' := by
  funext P
  refine tally_set_of_eq h ?_
  rw [weight_of_idle hpc, weight_of_ne ⟨pc, g⟩ hne]

theorem inside_releasing (s : State) (g : Nat) :
    s.inside g releasing = s.inside g (isAt .unlock) + s.inside g (isAt .clear) := by
  show tally _ _ = tally _ _ + tally _ _
  rw [← tally_add]
  refine tally_congr fun th _ => ?_
  simp only [Thread.weight]
  cases th.pc <;> by_cases hg : th.guard = g <;> simp [releasing, isAt, hg]

/-- An empty guard has nobody at any place. -/
theorem inside_of_empty (h : s.Empty g) (P : Pc → Bool) : s.inside g P = 0 := by
  refine tally_eq_zero_iff.mpr fun th hth => ?_
  by_cases hg : th.guard = g
  · exact weight_of_idle (h th hth hg) g P
  · exact weight_of_ne th hg P

/-- Nobody is inside a guard that is not there yet. -/
theorem inside_of_none (hs : Sound s log) (hg : s.guards.length ≤ g) (P : Pc → Bool) :
    s.inside g P = 0 := by
  refine tally_eq_zero_iff.mpr fun th hth => ?_
  by_cases hpc : th.pc = .idle
  · exact weight_of_idle hpc g P
  · have hlt := hs.inside th hth hpc
    exact weight_of_ne th (by omega) P

/-- A thread inside a guard makes a step. -/
theorem sound_put {log' : List Event} (hs : Sound s log) (h : s.threads[i]? = some th)
    (hx : s.guards[th.guard]? = some x) (htallied : Tallied log')
    (hlock : lock = (holder log').isSome)
    (hother : ∀ g, th.guard ≠ g → (holder log' = some g ↔ holder log = some g))
    (hg : GuardSound (holder log' = some th.guard) ⟨y.isLocked, x.life.after th.pc⟩
      ((s.put i th x lock y).inside th.guard)) : Sound (s.put i th x lock y) log' where
  tallied := htallied
  lock := hlock
  inside := by
    refine forall_mem_set (fun th' hth' hpc => ?_) fun _ => ?_
    · show _ < (s.guards.set _ _).length
      rw [List.length_set]
      exact hs.inside th' hth' hpc
    · show _ < (s.guards.set _ _).length
      rw [List.length_set]
      exact (List.getElem?_eq_some_iff.mp hx).1
  guards g x' hx' := by
    rcases getElem?_set_cases hx' with ⟨rfl, rfl⟩ | ⟨hne, hx'⟩
    · exact hg
    · rw [inside_put_of_ne h (Ne.symm hne), propext (hother g (Ne.symm hne))]
      exact hs.guards g x' hx'

/-- A thread enters a guard. -/
theorem sound_enter (hs : Sound s log) (h : s.threads[i]? = some th) (hpc : th.pc = .idle)
    {guards : List SharedGuard} {pc : Pc} (hlength : s.guards.length ≤ guards.length)
    (hg : g < guards.length)
    (hguards : ∀ g' x', guards[g']? = some x' → g' ≠ g → s.guards[g']? = some x')
    (hsound : ∀ x', guards[g]? = some x' → GuardSound (holder log = some g) x'
      (State.inside { s with guards := guards, threads := s.threads.set i ⟨pc, g⟩ } g)) :
    Sound { s with guards := guards, threads := s.threads.set i ⟨pc, g⟩ } log where
  tallied := hs.tallied
  lock := hs.lock
  inside := by
    refine forall_mem_set (fun th' hth' hpc' => ?_) fun _ => hg
    exact Nat.lt_of_lt_of_le (hs.inside th' hth' hpc') hlength
  guards g' x' hx' := by
    by_cases hgg : g' = g
    · subst hgg
      exact hsound x' hx'
    · rw [inside_enter_of_ne h hpc (Ne.symm hgg)]
      exact hs.guards g' x' (hguards g' x' hx' hgg)

theorem sound_step {a : Act} {shown : List Event} (hok : Apart s a) (hm : Moved s a t shown)
    (hs : Sound s log) : Sound t (log ++ shown) := by
  cases hm with
  | @construct i th h hpc =>
    rw [List.append_nil]
    have hnobody := inside_of_none hs (Nat.le_refl s.guards.length)
    refine sound_enter hs h hpc (by simp) (by simp) (fun g' x' hx' hne => ?_) fun x' hx' => ?_
    · rcases getElem?_append_cases hx' with ⟨heq, _⟩ | hx'
      · exact absurd heq hne
      · exact hx'
    · obtain rfl : x' = {} := by simpa using hx'.symm
      have hmoves := moves_enter h hpc s.guards.length .exchange
        (s.guards ++ [({} : SharedGuard)])
      refine .of_inUse (by decide) (InUse.wander ⟨?_, ?_, ?_, ?_, ?_⟩ hmoves rfl rfl) <;>
        simp [hnobody]
  | @call i g th x method h hpc hx halive hmethod =>
    rw [List.append_nil]
    have hlife : x.life ≠ .destroyed := by
      rw [halive]
      decide
    refine sound_enter hs h hpc (Nat.le_refl _) (List.getElem?_eq_some_iff.mp hx).1
      (fun _ _ hx' _ => hx') fun x' hx' => ?_
    obtain rfl := Option.some.inj (hx.symm.trans hx')
    have hmoves := moves_enter h hpc g method.entry s.guards
    have hin := (hs.guards g x hx).inUse hlife
    cases method with
    | lock | unlock => exact .of_inUse hlife (hin.wander hmoves rfl rfl)
    | destroy => exact absurd rfl hmethod
  | @destroy i g th x h hpc hx halive hempty =>
    rw [List.append_nil]
    have hlife : x.life ≠ .destroyed := by
      rw [halive]
      decide
    refine sound_enter hs h hpc (by simp) (by simpa using (List.getElem?_eq_some_iff.mp hx).1)
      (fun g' x' hx' hne => ?_) fun x' hx' => ?_
    · rcases getElem?_set_cases hx' with ⟨heq, _⟩ | ⟨_, hx'⟩
      · exact absurd heq hne
      · exact hx'
    · obtain rfl := Option.some.inj ((getElem?_set_of_some hx _).symm.trans hx')
      have hmoves := moves_enter h hpc g .destroyTest
        (s.guards.set g { x with life := .destroyed })
      exact .of_leaving rfl (((hs.guards g x hx).inUse hlife).destroy
        (fun P _ => inside_of_empty hempty P) hmoves)
  | @goto i th x y h hx hgo =>
    rw [List.append_nil]
    refine sound_put hs h hx hs.tallied hs.lock (fun _ _ => Iff.rfl) ?_
    refine guardSound_goto (hs.guards _ x hx) hgo (moves_put h) (le_inside h) fun hpc hl => ?_
    rw [← inside_releasing]
    exact hok th h hpc x hx hl
  | @acquire i th x h hx hpc hfree =>
    have hnone : holder log = none := by
      have hlock := hs.lock
      rw [hfree] at hlock
      exact Option.isSome_eq_false_iff.mp hlock.symm |> Option.isNone_iff_eq_none.mp
    have hmoves : Moves (s.inside th.guard)
        ((s.put i th x true { th.view x with pc := .set, holds := true }).inside th.guard)
        th.pc .set := moves_put h
    rw [hpc] at hmoves
    have hthere := le_inside h working rfl
    rw [hpc] at hthere
    refine sound_put hs h hx (hs.tallied.exchanged hnone th.guard) (by simp) (fun g hne => ?_) ?_
    · rw [holder_exchanged, hnone]
      simp [hne]
    · have hg := guardSound_acquire (hs.guards _ x hx) hmoves hthere (by simp [hnone])
      simp only [holder_exchanged]
      simpa [Life.after, hpc, Thread.view] using hg
  | @release i th x next h hx hpc =>
    have hmoves : Moves (s.inside th.guard)
        ((s.put i th x false { th.view x with pc := next, holds := false }).inside th.guard)
        th.pc (back next) := moves_put h
    obtain ⟨hheld, hg⟩ := guardSound_release (hs.guards _ x hx) hmoves (le_inside h) hpc
    refine sound_put hs h hx (hs.tallied.stored hheld) (by simp) (fun g hne => ?_) ?_
    · rw [holder_stored, hheld]
      simp [hne]
    · have hlife : x.life.after th.pc = x.life := by
        rcases hpc with ⟨hpc, _⟩ | ⟨hpc, _⟩ <;> rw [hpc] <;> rfl
      simp only [holder_stored, reduceCtorEq]
      rw [hlife]
      exact hg

theorem reachable_sound (h : (machine.traced see).Reachable (Machine.lift Apart) (s, log)) :
    Sound s log := by
  refine h.traced_invariant (I := Sound) (fun s₀ h₀ => ?_)
    fun _ hok hs hI => sound_step hok (moved_of_step hs) hI
  obtain ⟨n, rfl⟩ := h₀
  refine ⟨⟨fun before g after heq => absurd heq (by simp), fun _ => rfl, fun _ hg => ?_⟩, rfl,
    fun th hth hpc => ?_, fun g x hx => ?_⟩
  · cases hg
  · rw [(List.mem_replicate.mp hth).2] at hpc
    exact absurd rfl hpc
  · cases hx

/-! ## The first overlap -/

/-- The guard has got the lock again since the other `Unlock` released it. -/
def Relocked (s : State) (log : List Event) : Act → Prop
  | .exec i => ∃ th, s.threads[i]? = some th ∧ holder log = some th.guard ∧
      s.inside th.guard (isAt .unlock) = 0
  | .construct _ | .call _ _ _ => False

theorem step_unlockTest (h : s.threads[i]? = some th) (hx : s.guards[th.guard]? = some x)
    (hpc : th.pc = .unlockTest) (hl : x.isLocked = true) :
    step s (.exec i) = some (s.put i th x s.lock { th.view x with pc := .unlock }) := by
  simp [step, h, hx, operate, SpinLock.State.exec, SpinLock.State.setGuard, Thread.view, hpc, hl]

theorem traced_unlock (log : List Event) (h : s.threads[i]? = some th)
    (hx : s.guards[th.guard]? = some x) (hpc : th.pc = .unlock) :
    (machine.traced see).step (s, log) (.exec i) =
      some (s.put i th x false { th.view x with pc := .clear, holds := false },
        log ++ [.stored th.guard]) := by
  refine Machine.traced_step.mpr ⟨?_, congrArg (log ++ ·) ?_⟩
  · simp [machine, step, h, hx, operate, SpinLock.State.exec, SpinLock.State.release,
      Thread.view, hpc]
  · simp [see, h, hpc]

theorem count_stored_self (g : Nat) : [Event.stored g].count (.stored g) = 1 :=
  List.count_singleton_self

theorem count_exchanged_stored (g g' : Nat) : [Event.stored g].count (.exchanged g') = 0 :=
  List.count_eq_zero_of_not_mem (by simp)

theorem put_other {j : Nat} {tj : Thread} (hne : j ≠ i) (hj : s.threads[j]? = some tj) :
    (s.put i th x lock y).threads[j]? = some tj := by
  show (s.threads.set i _)[j]? = some tj
  rw [List.getElem?_set_ne (Ne.symm hne)]
  exact hj

theorem length_put : (s.put i th x lock y).guards.length = s.guards.length := List.length_set

theorem unlock_of_weight (h : 0 < th.weight g (isAt .unlock)) :
    th.guard = g ∧ th.pc = .unlock := by
  by_cases hg : th.guard = g ∧ th.pc ≠ .idle
  · refine ⟨hg.1, ?_⟩
    by_contra hpc
    simp [Thread.weight, isAt, hpc] at h
  · simp [Thread.weight, hg] at h

theorem apart_of_unlock (h : s.threads[i]? = some th) (hpc : th.pc = .unlock) :
    Apart s (.exec i) := by
  intro th' hth' htest
  obtain rfl := Option.some.inj (h.symm.trans hth')
  exact absurd (hpc.symm.trans htest) (by decide)

/-- A store too many. -/
theorem store_breaks (h : s.threads[i]? = some th) (hpc : th.pc = .unlock)
    (hg : th.guard < s.guards.length)
    (hcount : log.count (.exchanged th.guard) ≤ log.count (.stored th.guard)) :
    ∃ u log', (machine.traced see).Run (Machine.lift Apart) (s, log) (u, log') ∧
      ¬ Released log' := by
  refine ⟨_, _, .single (apart_of_unlock h hpc)
    (traced_unlock log h (List.getElem?_eq_getElem hg) hpc), fun hr => ?_⟩
  have hle := hr.counts th.guard
  rw [List.count_append, List.count_append, count_stored_self, count_exchanged_stored] at hle
  omega

theorem stores_break {j : Nat} {tj : Thread} (hne : j ≠ i) (h : s.threads[i]? = some th)
    (hj : s.threads[j]? = some tj) (hpc : th.pc = .unlock) (hpcj : tj.pc = .unlock)
    (hguard : tj.guard = th.guard) (hg : th.guard < s.guards.length)
    (hcount : log.count (.exchanged th.guard) ≤ log.count (.stored th.guard) + 1) :
    ∃ u log', (machine.traced see).Run (Machine.lift Apart) (s, log) (u, log') ∧
      ¬ Released log' := by
  obtain ⟨x, hx⟩ : ∃ x, s.guards[tj.guard]? = some x :=
    ⟨_, List.getElem?_eq_getElem (hguard ▸ hg)⟩
  have hfirst := traced_unlock log hj hx hpcj
  have hstay : (s.put j tj x false { tj.view x with pc := .clear, holds := false }).threads[i]? =
      some th := put_other (Ne.symm hne) h
  have hcount' : (log ++ [Event.stored tj.guard]).count (.exchanged th.guard) ≤
      (log ++ [Event.stored tj.guard]).count (.stored th.guard) := by
    rw [hguard, List.count_append, List.count_append, count_stored_self, count_exchanged_stored]
    exact hcount
  obtain ⟨u, log', hrun, hbroken⟩ := store_breaks hstay hpc (by rw [length_put]; exact hg) hcount'
  have hok : Machine.lift Apart (s, log) (.exec j) := apart_of_unlock hj hpcj
  exact ⟨u, log', (Machine.Run.single hok hfirst).trans hrun, hbroken⟩

/-- Two `Unlock`s that have read that the guard is locked store false twice, with no
further overlap, unless the guard has got the lock in between. -/
theorem overlap_breaks {a : Act} (hs : Sound s log) (hstep : step s a = some t)
    (hnot : ¬ Apart s a) :
    Relocked s log a ∨ ∃ u log', (machine.traced see).Run (Machine.lift Apart)
      (t, log ++ see s a t) (u, log') ∧ ¬ Released log' := by
  cases a with
  | construct i => exact absurd trivial hnot
  | call i g method => exact absurd trivial hnot
  | exec i =>
    simp only [Apart, not_forall] at hnot
    obtain ⟨th, h, hpc, x, hx, hl, _⟩ := hnot
    have hlen := (List.getElem?_eq_some_iff.mp hx).1
    have hcount := hs.tallied.counts th.guard
    have hsee : see s (.exec i) t = [] := see_of_goto h (.unlockLocked hpc hl)
    obtain rfl := Option.some.inj ((step_unlockTest h hx hpc hl).symm.trans hstep)
    rw [hsee, List.append_nil]
    have hi : (s.put i th x s.lock { th.view x with pc := .unlock }).threads[i]? =
        some { th with pc := .unlock } := getElem?_set_of_some h _
    have hlen' : th.guard <
        (s.put i th x s.lock { th.view x with pc := .unlock }).guards.length := by
      rw [length_put]
      exact hlen
    by_cases hpos : 0 < s.inside th.guard (isAt .unlock)
    · obtain ⟨j, tj, hj, hw⟩ := exists_of_tally_pos hpos
      obtain ⟨hguard, hpcj⟩ := unlock_of_weight hw
      have hne : j ≠ i := by
        intro heq
        rw [heq, h] at hj
        rw [← Option.some.inj hj, hpc] at hpcj
        cases hpcj
      have hle : log.count (.exchanged th.guard) ≤ log.count (.stored th.guard) + 1 := by
        rw [hcount]
        split <;> omega
      exact .inr (stores_break hne hi (put_other hne hj) rfl hpcj hguard hlen' hle)
    · by_cases hheld : holder log = some th.guard
      · exact .inl ⟨th, h, hheld, by omega⟩
      · rw [if_neg hheld] at hcount
        exact .inr (store_breaks hi rfl hlen' (Nat.le_of_eq hcount))

end Step

/-- While no two `Unlock`s of a guard overlap, each guard releases at most what it has
acquired, and nothing that another guard has.  The first overlap may release too much
without any other, unless the guard has got the lock again before the second `Unlock`
reads that it is locked. -/
theorem guard_releases_own {s : State} {log : List Event}
    (h : (machine.traced see).Reachable (Machine.lift Apart) (s, log)) :
    Released log ∧ ∀ a t, step s a = some t → ¬ Apart s a →
      Relocked s log a ∨ ∃ u log', (machine.traced see).Run (Machine.lift Apart)
        (t, log ++ see s a t) (u, log') ∧ ¬ Released log' := by
  have hs := reachable_sound h
  have ht := hs.tallied
  refine ⟨⟨fun g => ?_, fun before g after hlog g' hg' => ?_⟩,
    fun a t hstep hnot => overlap_breaks hs hstep hnot⟩
  · have := ht.counts g
    omega
  · rw [ht.released before g after hlog] at hg'
    exact (Option.some.inj hg').symm

/-- Thread 1 unlocks the guard that thread 0 has constructed, and thread 0 the one that
thread 2 has. -/
theorem guard_releases_own_exchanged :
    Released [.exchanged 0, .stored 0, .exchanged 1, .stored 1] :=
  (guard_releases_own
    (s := { guards := [⟨false, .alive⟩, ⟨true, .alive⟩],
            threads := [⟨.clear, 1⟩, ⟨.idle, 0⟩, ⟨.idle, 1⟩] }) <|
    Machine.reachable_of_exec (s := ({ threads := List.replicate 3 {} }, []))
      [.construct 0, .exec 0, .exec 0, .construct 2, .call 1 0 .unlock, .exec 1, .exec 1,
        .exec 2, .exec 1, .exec 2, .call 0 1 .unlock, .exec 0, .exec 0]
      ⟨⟨3, rfl⟩, rfl⟩ (by decide)).1

/-- Two threads have unlocked guard 0, and guard 1 has lost the lock between them. -/
def snatched : State :=
  { guards := [⟨true, .alive⟩, ⟨false, .constructing⟩],
    threads := [⟨.set, 1⟩, ⟨.clear, 0⟩, ⟨.clear, 0⟩] }

theorem guard_releases_own_fails :
    (machine.traced see).Reachable (Machine.lift Machine.anyStep)
        (snatched, [.exchanged 0, .stored 0, .exchanged 1, .stored 0]) ∧
      ¬ Released [.exchanged 0, .stored 0, .exchanged 1, .stored 0] := by
  refine ⟨?_, fun hr => ?_⟩
  · exact Machine.reachable_of_exec (s := ({ threads := List.replicate 3 {} }, []))
      [.construct 0, .exec 0, .exec 0, .call 1 0 .unlock, .call 2 0 .unlock, .exec 1, .exec 2,
        .exec 1, .construct 0, .exec 0, .exec 2]
      ⟨⟨3, rfl⟩, rfl⟩ (by decide)
  · exact absurd (hr.counts 0) (by decide)

end SharedGuards
end TryAndLearn
