/-
Totals over a table of processes.

The table is a list indexed by process number, and `tally w l` adds up the weight
`w` over its entries, in any commutative monoid: numbers for counting processes,
multisets for collecting what they hold.  A step of one process replaces one entry,
so what a step does to a total is `tally_set`, over the numbers an equation `omega`
can use.
-/
import Mathlib.Algebra.BigOperators.Group.List.Basic
import Mathlib.Data.List.Range

namespace TryAndLearn

/-! ## Entries -/

section Entries

variable {α : Type*} {l : List α} {i j : Nat} {a b : α}

theorem getElem?_set_cases (h : (l.set i a)[j]? = some b) :
    (j = i ∧ b = a) ∨ (j ≠ i ∧ l[j]? = some b) := by
  by_cases hij : j = i
  · subst hij
    have hlt : j < l.length := by simpa using (List.getElem?_eq_some_iff.mp h).1
    rw [List.getElem?_set_self hlt] at h
    exact .inl ⟨rfl, (Option.some.inj h).symm⟩
  · rw [List.getElem?_set_ne (Ne.symm hij)] at h
    exact .inr ⟨hij, h⟩

theorem getElem?_set_of_some (h : l[i]? = some a) (b : α) : (l.set i b)[i]? = some b :=
  List.getElem?_set_self (List.getElem?_eq_some_iff.mp h).1

/-- A replaced entry put back. -/
theorem set_set_of_some (h : l[i]? = some a) (b : α) : (l.set i b).set i a = l := by
  obtain ⟨hlt, rfl⟩ := List.getElem?_eq_some_iff.mp h
  rw [List.set_set, List.set_getElem_self]

theorem getElem?_append_cases (h : (l ++ [a])[j]? = some b) :
    (j = l.length ∧ b = a) ∨ l[j]? = some b := by
  rcases Nat.lt_trichotomy j l.length with hlt | rfl | hgt
  · rw [List.getElem?_append_left hlt] at h
    exact .inr h
  · rw [List.getElem?_concat_length] at h
    exact .inl ⟨rfl, (Option.some.inj h).symm⟩
  · rw [List.getElem?_eq_none (by simp; omega)] at h
    exact absurd h (by simp)

theorem forall_mem_set {p : α → Prop} (hl : ∀ b ∈ l, p b) (ha : p a) :
    ∀ b ∈ l.set i a, p b := by
  intro b hb
  rcases List.mem_or_eq_of_mem_set hb with hmem | rfl
  · exact hl b hmem
  · exact ha

theorem mem_set_of_some (h : l[i]? = some a) (b : α) : b ∈ l.set i b :=
  List.mem_of_getElem? (getElem?_set_of_some h b)

/-- Every entry but the replaced one stays. -/
theorem mem_set_of_mem (h : l[i]? = some a) (hb : b ∈ l) (c : α) : b = a ∨ b ∈ l.set i c := by
  obtain ⟨j, hj⟩ := List.getElem?_of_mem hb
  by_cases hij : j = i
  · subst hij
    exact .inl (Option.some.inj (hj.symm.trans h))
  · refine .inr (List.mem_of_getElem? (i := j) ?_)
    rwa [List.getElem?_set_ne (Ne.symm hij)]

end Entries

/-! ## Totals -/

section Totals

variable {α M : Type*} [AddCommMonoid M] {w v : α → M} {l : List α} {i : Nat} {a b : α}

def tally (w : α → M) (l : List α) : M := (l.map w).sum

@[simp] theorem tally_nil (w : α → M) : tally w [] = 0 := rfl

@[simp] theorem tally_cons (w : α → M) (a : α) (l : List α) :
    tally w (a :: l) = w a + tally w l := by
  simp [tally]

@[simp] theorem tally_append (w : α → M) (l k : List α) :
    tally w (l ++ k) = tally w l + tally w k := by
  simp [tally]

theorem tally_map {β : Type*} (w : β → M) (f : α → β) (l : List α) :
    tally w (l.map f) = tally (fun a => w (f a)) l := by
  simp [tally, Function.comp_def]

theorem tally_add (w v : α → M) (l : List α) :
    tally (fun a => w a + v a) l = tally w l + tally v l := by
  induction l with
  | nil => simp
  | cons c l ih => rw [tally_cons, tally_cons, tally_cons, ih, add_add_add_comm]

theorem tally_congr (h : ∀ a ∈ l, w a = v a) : tally w l = tally v l := by
  rw [tally, tally, List.map_congr_left h]

/-- Entries of no weight may be left out. -/
theorem tally_filter {p : α → Bool} (h : ∀ a ∈ l, p a = false → w a = 0) :
    tally w (l.filter p) = tally w l := by
  induction l with
  | nil => rfl
  | cons c l ih =>
    have hrest := ih fun a ha => h a (List.mem_cons_of_mem c ha)
    by_cases hc : p c = true
    · rw [List.filter_cons_of_pos hc, tally_cons, tally_cons, hrest]
    · rw [List.filter_cons_of_neg hc, tally_cons, hrest,
        h c List.mem_cons_self (Bool.eq_false_iff.mpr hc), zero_add]

/-- What replacing entry `i` does to a total. -/
theorem tally_set (h : l[i]? = some a) (w : α → M) (b : α) :
    tally w (l.set i b) + w a = tally w l + w b := by
  induction l generalizing i with
  | nil => simp at h
  | cons c l ih =>
    cases i with
    | zero =>
      obtain rfl : c = a := by simpa using h
      rw [List.set_cons_zero, tally_cons, tally_cons, add_right_comm, add_comm (w b),
        add_right_comm]
    | succ i =>
      have := ih (i := i) (by simpa using h)
      rw [List.set_cons_succ, tally_cons, tally_cons, add_assoc, this, add_assoc]

/-- An entry that keeps its weight may be replaced. -/
theorem tally_set_of_eq (h : l[i]? = some a) (hw : w b = w a) :
    tally w (l.set i b) = tally w l := by
  induction l generalizing i with
  | nil => simp at h
  | cons c l ih =>
    cases i with
    | zero =>
      obtain rfl : c = a := by simpa using h
      rw [List.set_cons_zero, tally_cons, tally_cons, hw]
    | succ i => rw [List.set_cons_succ, tally_cons, tally_cons, ih (by simpa using h)]

end Totals

/-! ## Counts -/

section Counts

variable {α : Type*} {w v : α → Nat} {l : List α} {i j : Nat} {a b : α}

@[simp] theorem tally_replicate (w : α → Nat) (n : Nat) (a : α) :
    tally w (List.replicate n a) = n * w a := by
  simp [tally]

theorem le_tally_of_mem (h : a ∈ l) : w a ≤ tally w l := by
  induction l with
  | nil => simp at h
  | cons c l ih =>
    rw [tally_cons]
    rcases List.mem_cons.mp h with rfl | h
    · omega
    · have := ih h
      omega

theorem le_tally (h : l[i]? = some a) : w a ≤ tally w l :=
  le_tally_of_mem (List.mem_of_getElem? h)

/-- Two entries contribute both their weights. -/
theorem add_le_tally (hij : i ≠ j) (hi : l[i]? = some a) (hj : l[j]? = some b) :
    w a + w b ≤ tally w l := by
  induction l generalizing i j with
  | nil => simp at hi
  | cons c l ih =>
    rw [tally_cons]
    cases i with
    | zero =>
      obtain rfl : c = a := by simpa using hi
      cases j with
      | zero => exact absurd rfl hij
      | succ j =>
        have := le_tally (w := w) (i := j) (a := b) (by simpa using hj)
        omega
    | succ i =>
      cases j with
      | zero =>
        obtain rfl : c = b := by simpa using hj
        have := le_tally (w := w) (i := i) (a := a) (by simpa using hi)
        omega
      | succ j =>
        have := ih (i := i) (j := j) (by omega) (by simpa using hi) (by simpa using hj)
        omega

theorem tally_mono (h : ∀ a ∈ l, w a ≤ v a) : tally w l ≤ tally v l := by
  induction l with
  | nil => simp
  | cons c l ih =>
    have hc := h c List.mem_cons_self
    have := ih fun a ha => h a (List.mem_cons_of_mem c ha)
    simp only [tally_cons]
    omega

theorem tally_eq_zero_iff : tally w l = 0 ↔ ∀ a ∈ l, w a = 0 := by
  constructor
  · intro h a ha
    have := le_tally_of_mem (w := w) ha
    omega
  · intro h
    rw [tally_congr h]
    simp [tally]

theorem exists_of_tally_pos (h : 0 < tally w l) :
    ∃ (i : Nat) (a : α), l[i]? = some a ∧ 0 < w a := by
  by_contra hne
  have hzero : tally w l = 0 := by
    refine tally_eq_zero_iff.mpr fun a ha => ?_
    obtain ⟨i, hi⟩ := List.getElem?_of_mem ha
    by_contra hw
    exact hne ⟨i, a, hi, by omega⟩
  omega

theorem tally_indicator (p : α → Bool) (l : List α) :
    tally (fun a => if p a then 1 else 0) l = l.countP p := by
  induction l with
  | nil => rfl
  | cons a l ih => rw [tally_cons, List.countP_cons, ih, add_comm]

theorem countP_eq_length_range (p : α → Bool) (l : List α) :
    l.countP p = ((List.range l.length).filter fun i => l[i]?.any p).length := by
  induction l using List.reverseRecOn with
  | nil => rfl
  | append_singleton l a ih =>
    have hold : (List.range l.length).filter (fun i => (l ++ [a])[i]?.any p) =
        (List.range l.length).filter fun i => l[i]?.any p := by
      refine List.filter_congr fun i hi => ?_
      rw [List.getElem?_append_left (List.mem_range.mp hi)]
    rw [List.countP_append, ih, List.length_append, List.length_singleton, List.range_succ,
      List.filter_append, hold, List.length_append]
    simp only [List.countP_cons, List.countP_nil, Nat.zero_add, List.filter_cons,
      List.getElem?_concat_length, Option.any_some, List.filter_nil]
    split <;> rfl

/-- A list that names the entries with `p`, each once, is as long as there are such
entries. -/
theorem length_eq_countP {p : α → Bool} {k : List Nat} (hk : k.Nodup)
    (hmem : ∀ i, i ∈ k ↔ ∃ a, l[i]? = some a ∧ p a = true) : k.length = l.countP p := by
  rw [countP_eq_length_range]
  refine List.Perm.length_eq ((List.perm_ext_iff_of_nodup hk (List.nodup_range.filter _)).mpr ?_)
  intro i
  rw [hmem, List.mem_filter, List.mem_range, Option.any_eq_true]
  constructor
  · rintro ⟨a, ha, hp⟩
    exact ⟨(List.getElem?_eq_some_iff.mp ha).1, a, ha, hp⟩
  · rintro ⟨_, a, ha, hp⟩
    exact ⟨a, ha, hp⟩

end Counts

end TryAndLearn
