import TryAndLearn.Machine.Inevitable
import TryAndLearn.SpinLock.Exclusion

/-!
# Every guard gets the lock

A guard that spins while the lock is true changes nothing, so the steps that count are
the others.  Of these there are finitely many: once no new `Lock` is called and the guards
that are locked are unlocked or destroyed, every guard comes to rest.  The record of the
exchanges that succeed then has one for each `Lock` that was under way (`awaiting_step`).

An exchange that fails and the spinning after it may come again for each guard that gets
the lock in between.  So the measure counts first how far the guards are and then, by the
value of the lock, who has still to look at it.
-/

namespace TryAndLearn
namespace SpinLock

/-- No new `Lock`: what is called is `Unlock` or the destructor of a guard that is locked. -/
def Act.Ends (s : State) : Act → Prop
  | .construct => False
  | .call g method => method ≠ .lock ∧ ∀ x ∈ s.guards[g]?, x.isLocked = true
  | .exec _ => True

/-- A step that ends what is under way and is not wasted on spinning. -/
def Winds (s : State) (a : Act) : Prop := a.Ends s ∧ step s a ≠ some s

/-- The guard is not locked, and no thread is inside. -/
def Guard.Rests (x : Guard) : Prop := x.pc = .idle ∧ x.isLocked = false ∨ x.pc = .gone

def Settled (s : State) : Prop := s.lock = false ∧ ∀ x ∈ s.guards, x.Rests

/-! ## The measure -/

/-- The steps of the guard still to come, without those that wait for the lock. -/
def Guard.rest (x : Guard) : Nat :=
  match x.pc with
  | .lockTest => 8
  | .exchange | .spin => 7
  | .set => 6
  | .idle => if x.isLocked then 5 else 0
  | .unlockTest | .destroyTest => 4
  | .unlock | .destroyUnlock => 3
  | .clear => 1
  | .gone => 0

/-- Whether the guard has still to find out what the lock is. -/
def Guard.looks (lock : Bool) (x : Guard) : Nat :=
  match x.pc with
  | .exchange => if lock then 1 else 0
  | .spin => if lock then 0 else 1
  | _ => 0

def State.work (s : State) : Nat × Nat :=
  (tally Guard.rest s.guards, tally (Guard.looks s.lock) s.guards)

section Progress

variable {s t : State} {a : Act} {g : Nat} {x x' : Guard}

/-- A turn for a guard that spins on a lock that is true is a turn wasted. -/
theorem step_spin (h : s.guards[g]? = some x) (hpc : x.pc = .spin) (hl : s.lock = true) :
    step s (.exec g) = some s := by
  have hset : s.setGuard g { x with pc := if s.lock then .spin else .exchange } = s := by
    obtain ⟨hlt, hx⟩ := List.getElem?_eq_some_iff.mp h
    rw [if_pos hl, ← hpc, State.setGuard, ← hx, List.set_getElem_self]
  simp only [step, h, Option.bind_some, State.exec, hpc, hset]

theorem less_rest (h : s.guards[g]? = some x) (ht : t.guards = s.guards.set g x')
    (hlt : x'.rest < x.rest) : Prod.Lex (· < ·) (· < ·) t.work s.work := by
  have := tally_set h Guard.rest x'
  refine Prod.lex_def.mpr (.inl ?_)
  simp only [State.work, ht]
  omega

/-- The guard has looked at the lock, which is as it was. -/
theorem less_looks (h : s.guards[g]? = some x) (hrest : x'.rest = x.rest)
    (hlt : x'.looks s.lock < x.looks s.lock) :
    Prod.Lex (· < ·) (· < ·) (s.setGuard g x').work s.work := by
  have hsame := tally_set_of_eq h hrest
  have := tally_set h (Guard.looks s.lock) x'
  refine Prod.lex_def.mpr (.inr ⟨hsame, ?_⟩)
  simp only [State.work, State.setGuard]
  omega

theorem less_of_moved (hok : a.Ends s) (h : Moved s a t)
    (hspin : ∀ g x, a = .exec g → s.guards[g]? = some x → x.pc = .spin → s.lock = false) :
    Prod.Lex (· < ·) (· < ·) t.work s.work := by
  cases h with
  | construct => exact hok.elim
  | @call g x method h hpc =>
    refine less_rest h rfl ?_
    have hlocked := hok.2 x h
    cases method with
    | lock => exact absurd rfl hok.1
    | unlock | destroy => simp [Guard.rest, Method.entry, hpc, hlocked]
  | goto h hgo =>
    cases hgo with
    | retry hpc hl =>
      exact less_looks h (by simp [Guard.rest, hpc]) (by simp [Guard.looks, hpc, hl])
    | spin hpc =>
      have hl := hspin _ _ rfl h hpc
      exact less_looks h (by simp [Guard.rest, hpc, hl]) (by simp [Guard.looks, hpc, hl])
    | lockLocked hpc hl | lockFree hpc hl | unlockLocked hpc hl | unlockFree hpc hl
    | destroyLocked hpc hl | destroyFree hpc hl =>
      exact less_rest h rfl (by simp [Guard.rest, hpc, hl])
    | set hpc | clear hpc => exact less_rest h rfl (by simp [Guard.rest, hpc])
  | acquire h hpc _ => exact less_rest h rfl (by simp [Guard.rest, hpc])
  | release h hpc =>
    refine less_rest h rfl ?_
    rcases hpc with ⟨hpc, rfl⟩ | ⟨hpc, rfl⟩ <;> simp [Guard.rest, hpc]

theorem less_step (hok : Winds s a) (hs : step s a = some t) :
    Prod.Lex (· < ·) (· < ·) t.work s.work := by
  refine less_of_moved hok.1 (moved_of_step hs) fun g x ha h hpc => ?_
  subst ha
  exact Bool.eq_false_iff.mpr fun hl => hok.2 (step_spin h hpc hl)

/-- Every other step changes something. -/
theorem winds_of_step (hok : a.Ends s) (hs : step s a = some t)
    (hspin : ∀ g x, a = .exec g → s.guards[g]? = some x → x.pc = .spin → s.lock = false) :
    Winds s a := by
  have hless := less_of_moved hok (moved_of_step hs) hspin
  refine ⟨hok, fun hsame => ?_⟩
  obtain rfl := Option.some.inj (hs.symm.trans hsame)
  rcases Prod.lex_def.mp hless with hlt | ⟨_, hlt⟩ <;> exact absurd hlt (Nat.lt_irrefl _)

/-! ## Somebody can go on -/

theorem exists_exec (h : s.guards[g]? = some x) (hidle : x.pc ≠ .idle) (hgone : x.pc ≠ .gone) :
    ∃ t, step s (.exec g) = some t := by
  rw [step, h, Option.bind_some]
  cases hpc : x.pc with
  | idle => exact absurd hpc hidle
  | gone => exact absurd hpc hgone
  | exchange =>
    rw [State.exec, hpc]
    by_cases hl : s.lock = true
    · exact ⟨_, if_pos hl⟩
    · exact ⟨_, if_neg hl⟩
  | _ => exact ⟨_, by rw [State.exec, hpc]⟩

theorem exists_step_of_guard (h : s.guards[g]? = some x) (hx : ¬x.Rests)
    (hspin : x.pc = .spin → s.lock = false) : ∃ a t, Winds s a ∧ step s a = some t := by
  by_cases hidle : x.pc = .idle
  · have hlocked : x.isLocked = true := by
      by_contra hne
      exact hx (.inl ⟨hidle, Bool.eq_false_iff.mpr hne⟩)
    have hstep : step s (.call g .unlock) = some (s.setGuard g { x with pc := .unlockTest }) := by
      rw [step, h, Option.bind_some, if_pos hidle]
      rfl
    refine ⟨.call g .unlock, _, winds_of_step ⟨by decide, fun y hy => ?_⟩ hstep nofun, hstep⟩
    obtain rfl := Option.some.inj (h.symm.trans hy)
    exact hlocked
  · obtain ⟨t, ht⟩ := exists_exec h hidle fun hgone => hx (.inr hgone)
    refine ⟨.exec g, t, winds_of_step trivial ht fun g' y ha hy => ?_, ht⟩
    obtain rfl := Act.exec.inj ha
    obtain rfl := Option.some.inj (h.symm.trans hy)
    exact hspin

/-- While the lock is true its holder can go on, and otherwise everybody can. -/
theorem exists_step (hs : Sound s) (hsettled : ¬Settled s) :
    ∃ a t, Winds s a ∧ step s a = some t := by
  by_cases hl : s.lock = true
  · have hpos : 0 < tally Guard.weight s.guards := by
      have hone : true.toNat = tally Guard.weight s.guards := hl ▸ hs.lock
      exact hone ▸ Nat.zero_lt_one
    obtain ⟨g, x, hg, hx⟩ := exists_of_tally_pos hpos
    have howns : x.owns = true := by
      rw [← hs.guards x (List.mem_of_getElem? hg)]
      by_contra hne
      rw [Guard.weight, Bool.eq_false_iff.mpr hne] at hx
      exact absurd hx (by decide)
    refine exists_step_of_guard hg ?_ fun hpc => ?_
    · rintro (⟨hpc, hlocked⟩ | hpc) <;> simp [Guard.owns, *] at howns
    · simp [Guard.owns, hpc] at howns
  · have hfree := Bool.eq_false_iff.mpr hl
    have hguard : ¬∀ x ∈ s.guards, x.Rests := fun hall => hsettled ⟨hfree, hall⟩
    obtain ⟨x, hx, hrests⟩ : ∃ x ∈ s.guards, ¬x.Rests := by
      by_contra hnone
      exact hguard fun x hx => by_contra fun hrests => hnone ⟨x, hx, hrests⟩
    obtain ⟨g, hg⟩ := List.getElem?_of_mem hx
    exact exists_step_of_guard hg hrests fun _ => hfree

/-- Every guard comes to rest, whatever the scheduler does as long as it does not stay with
steps that change nothing. -/
theorem inevitable_rests (h : machine.Reachable Machine.anyStep s) :
    machine.Inevitable Winds Settled s := by
  refine Machine.Inevitable.of_measure (I := machine.Reachable Machine.anyStep)
    (WellFounded.prod_lex Nat.lt_wfRel.wf Nat.lt_wfRel.wf) State.work
    (fun h hsettled => exists_step (reachable_sound h) hsettled) ?_ h
  intro s t a h _ hok hs
  exact ⟨h.next trivial hs, less_step hok hs⟩

end Progress

/-! ## Each `Lock` has had the lock -/

/-- The guard is in `Lock` or its constructor and is still to exchange successfully. -/
def Guard.awaits (x : Guard) : Bool :=
  match x.pc with
  | .lockTest => !x.isLocked
  | .exchange | .spin => true
  | _ => false

/-- How many successful exchanges the guard `g` is waiting for. -/
def State.awaiting (s : State) (g : Nat) : Nat := (s.guards[g]?.any Guard.awaits).toNat

/-- The guard whose exchange gets back false. -/
def acquired (s : State) (a : Act) (_ : State) : List Nat :=
  match a with
  | .exec g =>
    if s.guards[g]?.any (fun x => x.pc = .exchange) ∧ s.lock = false then [g] else []
  | _ => []

section Acquired

variable {s t : State} {a : Act} {g k : Nat} {x x' : Guard}

theorem awaiting_self (h : s.guards[g]? = some x) : s.awaiting g = x.awaits.toNat := by
  rw [State.awaiting, h, Option.any_some]

theorem awaiting_ne (ht : t.guards = s.guards.set g x') (hk : k ≠ g) :
    t.awaiting k = s.awaiting k := by
  rw [State.awaiting, ht, List.getElem?_set_ne hk.symm, State.awaiting]

theorem awaiting_set (h : s.guards[g]? = some x) (ht : t.guards = s.guards.set g x') :
    t.awaiting g = x'.awaits.toNat :=
  awaiting_self (by rw [ht, List.getElem?_set_self (List.getElem?_eq_some_iff.mp h).1])

/-- A guard that goes on waiting, or that was not waiting. -/
theorem awaiting_set_of_eq (h : s.guards[g]? = some x) (ht : t.guards = s.guards.set g x')
    (hx : x'.awaits = x.awaits) : t.awaiting k = s.awaiting k := by
  by_cases hk : k = g
  · rw [hk, awaiting_set h ht, awaiting_self h, hx]
  · exact awaiting_ne ht hk

theorem acquired_exec (h : s.guards[g]? = some x) :
    acquired s (.exec g) t = if x.pc = .exchange ∧ s.lock = false then [g] else [] := by
  simp only [acquired, h, Option.any_some, decide_eq_true_eq]

theorem Goto.awaits_eq (h : Goto s x x') : x'.awaits = x.awaits := by
  cases h with
  | spin hpc => by_cases hl : s.lock = true <;> simp [Guard.awaits, hpc, hl]
  | lockLocked hpc hl | lockFree hpc hl | retry hpc hl | unlockLocked hpc hl | unlockFree hpc hl
  | destroyLocked hpc hl | destroyFree hpc hl => simp [Guard.awaits, hpc, hl]
  | set hpc | clear hpc => simp [Guard.awaits, hpc]

/-- A successful exchange is the one step that ends the wait, and no other wait begins. -/
theorem awaiting_step (hok : a.Ends s) (h : Moved s a t) (k : Nat) :
    (acquired s a t).count k + t.awaiting k = s.awaiting k := by
  cases h with
  | construct => exact hok.elim
  | @call g x method h hpc =>
    have hx : Guard.awaits { x with pc := method.entry } = x.awaits := by
      cases method with
      | lock => exact absurd rfl hok.1
      | unlock | destroy => simp [Guard.awaits, Method.entry, hpc]
    show [].count k + _ = _
    rw [List.count_nil, Nat.zero_add]
    exact awaiting_set_of_eq h rfl hx
  | goto h hgo =>
    rw [acquired_exec h, if_neg hgo.not_acquires, List.count_nil, Nat.zero_add]
    exact awaiting_set_of_eq h rfl hgo.awaits_eq
  | @acquire g x h hpc hfree =>
    rw [acquired_exec h, if_pos ⟨hpc, hfree⟩]
    by_cases hk : k = g
    · subst hk
      have hx : x.awaits = true := by rw [Guard.awaits, hpc]
      rw [awaiting_set h rfl, awaiting_self h, hx, List.count_singleton_self]
      rfl
    · rw [awaiting_ne rfl hk, List.count_singleton, if_neg (by simp [Ne.symm hk]), Nat.zero_add]
  | @release g x next h hpc =>
    have hne : ¬(x.pc = .exchange ∧ s.lock = false) := by
      rcases hpc with ⟨hpc, _⟩ | ⟨hpc, _⟩ <;> simp [hpc]
    rw [acquired_exec h, if_neg hne, List.count_nil, Nat.zero_add]
    refine awaiting_set_of_eq h rfl ?_
    rcases hpc with ⟨hpc, rfl⟩ | ⟨hpc, rfl⟩ <;> simp [Guard.awaits, hpc]

theorem Settled.awaiting_eq_zero (h : Settled s) (g : Nat) : s.awaiting g = 0 := by
  rw [State.awaiting, Bool.toNat_eq_zero, Option.any_eq_false]
  intro x hx
  rcases h.2 x (List.mem_of_getElem? hx) with ⟨hpc, _⟩ | hpc <;> simp [Guard.awaits, hpc]

end Acquired

/-- When no new `Lock` is called and locked guards are unlocked or destroyed, each `Lock`
and constructor under way exchanges successfully, once, every call returns and the lock is
free in the end, whatever the scheduler does as long as it does not stay with steps that
change nothing. -/
theorem inevitable_settled {s : State} (h : machine.Reachable Machine.anyStep s) :
    (machine.traced acquired).Inevitable (Machine.lift Winds)
      (fun p => Settled p.1 ∧ ∀ g, p.2.count g = s.awaiting g) (s, []) := by
  have hstart (g : Nat) : [].count g + s.awaiting g = s.awaiting g := by
    rw [List.count_nil, Nat.zero_add]
  have hcounts := (inevitable_rests h).traced acquired
    (I := fun t log => ∀ g, log.count g + t.awaiting g = s.awaiting g)
    (fun hok hs hI g => by
      rw [← hI g, ← awaiting_step hok.1 (moved_of_step hs) g, List.count_append]
      omega) hstart
  exact hcounts.mono fun p hp => ⟨hp.1, fun g => by simpa [hp.1.awaiting_eq_zero] using hp.2 g⟩

/-- Guard 2 is still to get the lock, which guard 1 holds. -/
theorem inevitable_settled_changing :
    (machine.traced acquired).Inevitable (Machine.lift Winds)
      (fun p => Settled p.1 ∧ ∀ g, p.2.count g = changing.awaiting g) (changing, []) :=
  inevitable_settled changing_reachable

end SpinLock
end TryAndLearn
