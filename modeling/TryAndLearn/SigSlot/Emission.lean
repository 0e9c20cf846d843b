import TryAndLearn.SigSlot.Basic

/-!
# One emission

A signal is for handing the same arguments to every slot.  What a slot finds depends on
how often the objects of the caller have been moved from by then: `operator()` forwards
its arguments to every slot, an rvalue stays an rvalue all the way to the parameter that
is made from it, and each call moves from an object as often as it makes parameters
(`takers`).  So slot `k` finds the objects as `leftAfter` says, whatever the orders in
which the parameters were initialised, and within a call the order decides which
parameter comes before which move.

Which slots are called is a matter of exceptions: the first one ends the loop.
-/

namespace TryAndLearn
namespace SigSlot

section Parameters

variable {τ : Type*} {n : Nat} {moved : τ → τ} {types : Fin n → ArgType τ} {args : Fin n → Arg}
  {f : Frame n τ} {i : Fin n} {l pre post : List (Fin n)} {o : Nat}

/-- To initialise parameter `i` moves from object `o`. -/
def takesFrom (types : Fin n → ArgType τ) (args : Fin n → Arg) (o : Nat) (i : Fin n) : Bool :=
  (types i).takes (args i).category && (args i).object == o

/-- How often one call moves from object `o`. -/
def takers (types : Fin n → ArgType τ) (args : Fin n → Arg) (o : Nat) : Nat :=
  (List.finRange n).countP (takesFrom types args o)

theorem takesFrom_own :
    takesFrom types args (args i).object i = (types i).takes (args i).category := by
  simp [takesFrom]

theorem ArgType.make_of_binds {a : ArgType τ} (h : a.binds = true) (v : τ) : a.make v = v := by
  simp only [ArgType.binds, Bool.and_eq_true, Option.isNone_iff_eq_none] at h
  simp [ArgType.make, h.2]

theorem init_objects (moved : τ → τ) (types : Fin n → ArgType τ) (args : Fin n → Arg)
    (f : Frame n τ) (i : Fin n) (o : Nat) :
    (f.init moved types args i).objects o =
      if takesFrom types args o i then moved (f.objects o) else f.objects o := by
  unfold Frame.init takesFrom
  by_cases ho : (args i).object = o
  · subst ho
    by_cases htakes : (types i).takes (args i).category = true <;> simp [htakes]
  · have hother : Function.update f.objects (args i).object (moved (f.objects (args i).object)) o =
        f.objects o := Function.update_of_ne (Ne.symm ho) _ _
    by_cases htakes : (types i).takes (args i).category = true <;> simp [htakes, ho, hother]

/-! ## All parameters of a call -/

theorem foldl_objects (l : List (Fin n)) (f : Frame n τ) (o : Nat) :
    (l.foldl (Frame.init moved types args) f).objects o =
      moved^[l.countP (takesFrom types args o)] (f.objects o) := by
  induction l generalizing f with
  | nil => rfl
  | cons i rest ih =>
    rw [List.foldl_cons, ih, init_objects, List.countP_cons]
    by_cases htakes : takesFrom types args o i = true
    · rw [if_pos htakes, if_pos htakes, Function.iterate_succ_apply]
    · rw [if_neg htakes, if_neg htakes, Nat.add_zero]

theorem foldl_params_of_notMem (h : i ∉ l) :
    (l.foldl (Frame.init moved types args) f).params i = f.params i := by
  induction l generalizing f with
  | nil => rfl
  | cons j rest ih =>
    have hne : i ≠ j := List.ne_of_not_mem_cons h
    rw [List.foldl_cons, ih (fun hi => h (List.mem_cons_of_mem j hi))]
    exact Function.update_of_ne hne _ _

/-- An object of its own is made of what the parameters before have left. -/
theorem seen_of_own (hown : (types i).binds = false) (hi : i ∉ post) :
    ((pre ++ i :: post).foldl (Frame.init moved types args) f).seen i =
      some ((types i).make (moved^[pre.countP (takesFrom types args (args i).object)]
        (f.objects (args i).object))) := by
  rw [Frame.seen, List.foldl_append, List.foldl_cons, foldl_params_of_notMem hi]
  simp only [Frame.init, Function.update_self, hown, Bool.false_eq_true, if_false,
    Option.map_some]
  rw [foldl_objects]

/-- A reference shows what all parameters have left. -/
theorem seen_of_binds (hbinds : (types i).binds = true) (hi : i ∉ post) :
    ((pre ++ i :: post).foldl (Frame.init moved types args) f).seen i =
      some (moved^[(pre ++ i :: post).countP (takesFrom types args (args i).object)]
        (f.objects (args i).object)) := by
  rw [Frame.seen, ← foldl_objects]
  rw [List.foldl_append, List.foldl_cons, foldl_params_of_notMem hi]
  simp only [Frame.init, Function.update_self, hbinds, if_true, Option.map_some]

namespace Order

theorem countP_eq (order : Order n) (p : Fin n → Bool) :
    order.positions.countP p = (List.finRange n).countP p := by
  have hperm : List.Perm order.positions (List.finRange n) :=
    (List.perm_ext_iff_of_nodup order.nodup (List.nodup_finRange n)).mpr fun i =>
      ⟨fun _ => List.mem_finRange i, fun _ => order.mem i⟩
  exact hperm.countP_eq p

theorem split (order : Order n) (i : Fin n) :
    ∃ pre post, order.positions = pre ++ i :: post ∧ i ∉ pre ∧ i ∉ post := by
  obtain ⟨pre, post, heq⟩ := List.append_of_mem (order.mem i)
  have hnodup := order.nodup
  rw [heq, List.nodup_middle, List.nodup_cons, List.mem_append, not_or] at hnodup
  exact ⟨pre, post, heq, hnodup.1⟩

/-- The order that begins with the positions in `l`. -/
def starting (l : List (Fin n)) (h : l.Nodup) : Order n where
  positions := l ++ (List.finRange n).filter (fun i => i ∉ l)
  nodup := by
    refine h.append ((List.nodup_finRange n).filter _) fun i hi hmem => ?_
    simpa [hi] using List.of_mem_filter hmem
  mem i := by
    by_cases hi : i ∈ l
    · exact List.mem_append_left _ hi
    · exact List.mem_append_right _ (List.mem_filter.mpr ⟨List.mem_finRange i, by simpa using hi⟩)

/-- As many positions with `p` before position `i` as there are others. -/
theorem exists_before (p : Fin n → Bool) (i : Fin n) {r : Nat}
    (hr : r + (if p i then 1 else 0) ≤ (List.finRange n).countP p) :
    ∃ (order : Order n) (pre post : List (Fin n)), order.positions = pre ++ i :: post ∧
      i ∉ post ∧ pre.countP p = r := by
  let natural : Order n := .starting [] List.nodup_nil
  obtain ⟨pre, post, heq, hpre, hpost⟩ := natural.split i
  have hnodup := natural.nodup
  rw [← natural.countP_eq, heq, List.countP_append, List.countP_cons] at hr
  rw [heq, List.nodup_middle, List.nodup_cons] at hnodup
  let others := (pre ++ post).filter p
  have hlen : (others.take r).length = r := by
    rw [List.length_take, ← List.countP_eq_length_filter, List.countP_append]
    omega
  have hmem (j : Fin n) (hj : j ∈ others.take r) : j ∈ pre ++ post ∧ p j = true :=
    List.mem_filter.mp (List.mem_of_mem_take hj)
  have hfirst : (others.take r ++ [i]).Nodup := by
    refine List.nodup_append.mpr ⟨(hnodup.2.filter p).sublist (List.take_sublist r _),
      List.nodup_singleton i, fun j hj k hk => ?_⟩
    obtain rfl := List.mem_singleton.mp hk
    exact fun hjk => hnodup.1 (hjk ▸ (hmem j hj).1)
  refine ⟨.starting _ hfirst, others.take r, _, List.append_assoc (others.take r) [i] _,
    fun hi => ?_, ?_⟩
  · simpa using List.of_mem_filter hi
  · exact (List.countP_eq_length.mpr fun j hj => (hmem j hj).2).trans hlen

end Order

/-- The parameters as the callable finds them. -/
def entered (moved : τ → τ) (types : Fin n → ArgType τ) (args : Fin n → Arg) (order : Order n)
    (objects : Nat → τ) : Frame n τ :=
  order.positions.foldl (Frame.init moved types args) { objects := objects }

/-- What the callable is to find in them. -/
def given (types : Fin n → ArgType τ) (args : Fin n → Arg) (objects : Nat → τ) (i : Fin n) :
    Option τ :=
  some ((types i).make (objects (args i).object))

/-- The objects of the caller when `k` slots have been called. -/
def leftAfter (moved : τ → τ) (types : Fin n → ArgType τ) (args : Fin n → Arg)
    (objects : Nat → τ) (k o : Nat) : τ :=
  moved^[k * takers types args o] (objects o)

variable {order : Order n} {objects : Nat → τ} {k m r : Nat}

/-- The order makes no difference to what a call leaves. -/
theorem entered_objects :
    (entered moved types args order (leftAfter moved types args objects k)).objects =
      leftAfter moved types args objects (k + 1) := by
  funext o
  rw [entered, foldl_objects, order.countP_eq]
  show moved^[takers types args o] (moved^[k * takers types args o] (objects o)) = _
  rw [← Function.iterate_add_apply, leftAfter, Nat.add_one_mul, Nat.add_comm]

theorem entered_seen_of_own (hown : (types i).binds = false)
    (horder : order.positions = pre ++ i :: post) (hi : i ∉ post) :
    (entered moved types args order (leftAfter moved types args objects k)).seen i =
      some ((types i).make (moved^[pre.countP (takesFrom types args (args i).object) +
        k * takers types args (args i).object] (objects (args i).object))) := by
  rw [entered, horder, seen_of_own hown hi, Function.iterate_add_apply]
  rfl

theorem entered_seen_of_binds (hbinds : (types i).binds = true) :
    (entered moved types args order (leftAfter moved types args objects k)).seen i =
      some (leftAfter moved types args objects (k + 1) (args i).object) := by
  obtain ⟨pre, post, heq, _, hpost⟩ := order.split i
  rw [← entered_objects, entered, heq, seen_of_binds hbinds hpost,
    foldl_objects]

/-! ## What survives the moves -/

/-- In each of `m` calls parameter `i` comes out as at first.  A reference shows the
object after all moves of the call.  An object of its own is made after any number of
moves, its own one apart. -/
def Survives (moved : τ → τ) (types : Fin n → ArgType τ) (args : Fin n → Arg)
    (objects : Nat → τ) (m : Nat) (i : Fin n) : Prop :=
  let o := (args i).object
  if (types i).binds then ∀ k < m, moved^[(k + 1) * takers types args o] (objects o) = objects o
  else ∀ t, t + (if (types i).takes (args i).category then 1 else 0) ≤ m * takers types args o →
    (types i).make (moved^[t] (objects o)) = (types i).make (objects o)

theorem survives_of_binds (hbinds : (types i).binds = true) :
    Survives moved types args objects m i ↔
      ∀ k < m, ∀ order : Order n,
        (entered moved types args order (leftAfter moved types args objects k)).seen i =
          given types args objects i := by
  simp only [Survives, hbinds, if_true, given, entered_seen_of_binds hbinds, leftAfter,
    ArgType.make_of_binds hbinds, Option.some.injEq]
  exact ⟨fun h k hk _ => h k hk, fun h k hk => h k hk (.starting [] List.nodup_nil)⟩

/-- A number of moves within `m` calls, as calls that are over and moves of the next. -/
theorem exists_call {c d t m : Nat} (hd : d ≤ 1) (hc : 0 < c) (hm : 0 < m) (ht : t + d ≤ m * c) :
    ∃ k r, k < m ∧ r + d ≤ c ∧ t = r + k * c := by
  rcases Nat.lt_or_ge t (m * c) with hlt | hge
  · refine ⟨t / c, t % c, (Nat.div_lt_iff_lt_mul hc).mpr hlt, ?_, ?_⟩
    · have := Nat.mod_lt t hc
      omega
    · have := Nat.mod_add_div t c
      rw [Nat.mul_comm] at this
      omega
  · obtain ⟨m, rfl⟩ := Nat.exists_eq_add_of_lt hm
    refine ⟨m, c, by omega, by omega, ?_⟩
    rw [Nat.zero_add, Nat.add_one_mul] at hge ht
    omega

theorem survives_of_own (hown : (types i).binds = false) :
    Survives moved types args objects m i ↔
      ∀ k < m, ∀ order : Order n,
        (entered moved types args order (leftAfter moved types args objects k)).seen i =
          given types args objects i := by
  simp only [Survives, hown, Bool.false_eq_true, if_false, given]
  constructor
  · intro h k hk order
    obtain ⟨pre, post, heq, _, hpost⟩ := order.split i
    rw [entered_seen_of_own hown heq hpost, h]
    -- the parameter's own move is not among those before it
    have hcount := order.countP_eq (takesFrom types args (args i).object)
    rw [heq, List.countP_append, List.countP_cons, takesFrom_own] at hcount
    have hcalls : (k + 1) * takers types args (args i).object ≤
        m * takers types args (args i).object := Nat.mul_le_mul_right _ hk
    rw [Nat.add_one_mul] at hcalls
    unfold takers at hcalls ⊢
    omega
  · intro h t ht
    rcases Nat.eq_zero_or_pos t with rfl | hpos
    · rfl
    · have hprod : 0 < m * takers types args (args i).object := by omega
      obtain ⟨k, r, hk, hr, rfl⟩ := exists_call (by split <;> omega)
        (Nat.pos_of_mul_pos_left hprod) (Nat.pos_of_mul_pos_right hprod) ht
      rw [← takesFrom_own] at hr
      obtain ⟨order, pre, post, heq, hpost, rfl⟩ := Order.exists_before _ i hr
      have hseen := h k hk order
      rw [entered_seen_of_own hown heq hpost] at hseen
      exact Option.some.inj hseen

/-- All slots find what was given, in every order, if every parameter survives. -/
theorem survives_iff :
    (∀ i, Survives moved types args objects m i) ↔
      ∀ k < m, ∀ order : Order n,
        (entered moved types args order (leftAfter moved types args objects k)).seen =
          given types args objects := by
  have hone (i : Fin n) : Survives moved types args objects m i ↔ ∀ k < m, ∀ order : Order n,
      (entered moved types args order (leftAfter moved types args objects k)).seen i =
        given types args objects i := by
    cases hbinds : (types i).binds with
    | true => exact survives_of_binds hbinds
    | false => exact survives_of_own hbinds
  constructor
  · intro h k hk order
    funext i
    exact (hone i).mp (h i) k hk order
  · intro h i
    exact (hone i).mpr fun k hk order => congrFun (h k hk order) i

end Parameters

/-! ## All slots -/

section Slots

variable {φ τ : Type*} {n : Nat} {moved : τ → τ} {types : Fin n → ArgType τ}
  {args : Fin n → Arg} {orders : Nat → Order n} {throws : Nat → φ → (Fin n → Option τ) → Bool}
  {objects : Nat → τ}

/-- The calls of the slots from slot `k` on, if slot `j` finds `found j`: up to the first
that throws, and an empty `std::function` calls nothing. -/
def callsFrom (throws : Nat → φ → (Fin n → Option τ) → Bool) (found : Nat → Fin n → Option τ) :
    Nat → List (Option φ) → List (φ × (Fin n → Option τ))
  | _, [] => []
  | _, none :: _ => []
  | k, some func :: rest =>
    (func, found k) :: if throws k func (found k) then [] else callsFrom throws found (k + 1) rest

/-- `Run` and `Exec` hand on what they are given. -/
theorem emitLoop_calls (funcs : List (Option φ)) (k : Nat) (calls : List (φ × (Fin n → Option τ))) :
    (emitLoop moved types orders throws (fun i => (args i).deduce) k funcs
      { objects := leftAfter moved types args objects k, calls := calls }).calls =
      calls ++ callsFrom throws (fun j => (entered moved types args (orders j)
        (leftAfter moved types args objects j)).seen) k funcs := by
  induction funcs generalizing k calls with
  | nil => exact (List.append_nil calls).symm
  | cons func rest ih =>
    cases func with
    | none =>
      rw [callsFrom, List.append_nil]
      rfl
    | some func =>
      simp only [emitLoop, run, exec, invoke, Arg.forward_deduce, callsFrom]
      rw [← entered]
      split
      · rfl
      · rename_i hreturns
        rw [Bool.not_eq_true] at hreturns
        rw [hreturns, entered_objects, ih, List.append_assoc]
        rfl

/-- Every slot is called at most once, in the order of `Bind`. -/
theorem callsFrom_prefix (found : Nat → Fin n → Option τ) (funcs : List (Option φ)) (k : Nat) :
    (callsFrom throws found k funcs).map (fun call => some call.1) <+: funcs := by
  induction funcs generalizing k with
  | nil => exact List.prefix_rfl
  | cons func rest ih =>
    cases func with
    | none => exact List.nil_prefix
    | some func =>
      rw [callsFrom, List.map_cons]
      refine List.cons_prefix_cons.mpr ⟨rfl, ?_⟩
      split
      · exact List.nil_prefix
      · exact ih (k + 1)

/-- Every slot was called, in order, and found `g`. -/
def AllFound (g : Fin n → Option τ) (funcs : List (Option φ))
    (calls : List (φ × (Fin n → Option τ))) : Prop :=
  calls.map (fun call => (some call.1, call.2)) = funcs.map fun func => (func, g)

/-- No `std::function` is empty, and none but the last throws. -/
def Callable (throws : Nat → φ → (Fin n → Option τ) → Bool) (g : Fin n → Option τ)
    (funcs : List (Option φ)) (k : Nat) : Prop :=
  ∀ j func, funcs[j]? = some func →
    ∃ f, func = some f ∧ (j + 1 < funcs.length → throws (k + j) f g = false)

theorem callable_cons {g : Fin n → Option τ} {func : φ} {rest : List (Option φ)} {k : Nat} :
    Callable throws g (some func :: rest) k ↔
      (0 < rest.length → throws k func g = false) ∧ Callable throws g rest (k + 1) := by
  unfold Callable
  constructor
  · intro h
    refine ⟨fun hlen => ?_, fun j func' hj => ?_⟩
    · obtain ⟨f, hf, hreturns⟩ := h 0 _ rfl
      obtain rfl := Option.some.inj hf
      exact hreturns (by rw [List.length_cons]; omega)
    · obtain ⟨f, hf, hreturns⟩ := h (j + 1) func' hj
      refine ⟨f, hf, fun hlen => ?_⟩
      rw [Nat.add_right_comm]
      exact hreturns (by rw [List.length_cons]; omega)
  · rintro ⟨hfirst, hrest⟩ j func' hj
    cases j with
    | zero =>
      obtain rfl := Option.some.inj hj
      exact ⟨func, rfl, fun hlen => hfirst (by rw [List.length_cons] at hlen; omega)⟩
    | succ j =>
      obtain ⟨f, hf, hreturns⟩ := hrest j func' hj
      refine ⟨f, hf, fun hlen => ?_⟩
      rw [← Nat.add_assoc, Nat.add_right_comm]
      exact hreturns (by rw [List.length_cons] at hlen; omega)

theorem allFound_iff (found : Nat → Fin n → Option τ) (g : Fin n → Option τ)
    (funcs : List (Option φ)) (k : Nat) :
    AllFound g funcs (callsFrom throws found k funcs) ↔
      Callable throws g funcs k ∧ ∀ j < funcs.length, found (k + j) = g := by
  induction funcs generalizing k with
  | nil => simp [AllFound, Callable, callsFrom]
  | cons func rest ih =>
    have hfound : (∀ j < rest.length + 1, found (k + j) = g) ↔
        found k = g ∧ ∀ j < rest.length, found (k + 1 + j) = g := by
      rw [Nat.forall_lt_succ_left]
      simp only [Nat.add_zero, Nat.add_assoc, Nat.add_comm 1]
    cases func with
    | none =>
      refine iff_of_false (by simp [AllFound, callsFrom]) fun h => ?_
      obtain ⟨f, hf, _⟩ := h.1 0 none rfl
      exact absurd hf (by simp)
    | some func =>
      rw [callable_cons, List.length_cons, hfound, callsFrom, AllFound, List.map_cons,
        List.map_cons, List.cons.injEq, Prod.mk.injEq]
      simp only [true_and]
      by_cases hg : found k = g
      · cases hthrows : throws k func g with
        | true =>
          -- the loop ends here
          cases rest <;> simp [hg, hthrows, Callable]
        | false =>
          have hrest := ih (k + 1)
          rw [AllFound] at hrest
          simp [hg, hthrows, hrest]
      · simp [hg]

theorem emit_calls (funcs : List (Option φ)) :
    ((funcs.foldl Signal.bind {}).emit moved types orders throws args
      { objects := objects }).calls =
      callsFrom throws (fun j => (entered moved types args (orders j)
        (leftAfter moved types args objects j)).seen) 0 funcs := by
  have hstart : leftAfter moved types args objects 0 = objects := by
    funext o
    rw [leftAfter, Nat.zero_mul]
    rfl
  rw [Signal.emit, Signal.slots_bindAll]
  conv_lhs => rw [← hstart]
  exact emitLoop_calls funcs 0 []

/-- Whatever is thrown or moved, one emission calls no slot twice and none out of order. -/
theorem emit_slots (funcs : List (Option φ)) :
    ((funcs.foldl Signal.bind {}).emit moved types orders throws args
      { objects := objects }).calls.map (fun call => some call.1) <+: funcs := by
  rw [emit_calls]
  exact callsFrom_prefix _ funcs 0

end Slots

/-- A `std::unique_ptr` given to two slots that take a `std::shared_ptr` by reference to
const: the temporary of the first takes the object over, and the second finds null. -/
example : ¬ Survives (fun _ => none) (fun _ : Fin 1 => ⟨.constRef, some ⟨id, true⟩⟩)
    (fun _ => ⟨0, .rvalue⟩) (fun _ => some 7) 2 0 :=
  fun h => absurd (h 1 (by decide)) (by decide)

end SigSlot
end TryAndLearn
