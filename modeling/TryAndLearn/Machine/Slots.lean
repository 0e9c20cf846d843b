import Mathlib.Logic.Equiv.Basic

/-!
# Slots

Numbered variables, each of which may contain a value.  They begin one after the other,
and each may end; a slot that has ended never begins again.  `content i` is `none` where
no slot is, before it begins and after it has ended.

The last slot may be a temporary: `pop` takes its number back.  Values that are moved by
way of a temporary are where they would be without it.
-/

namespace TryAndLearn

@[ext]
structure Slots (β : Type*) where
  size : Nat := 0
  content : Nat → Option (Option β) := fun _ => none
  bound : ∀ i, size ≤ i → content i = none := by exact fun _ _ => rfl

namespace Slots

variable {β γ : Type*}

def push (c : Slots β) (b : Option β) : Slots β where
  size := c.size + 1
  content := Function.update c.content c.size (some b)
  bound i hi := by
    rw [Function.update_of_ne (by omega)]
    exact c.bound i (by omega)

def pop (c : Slots β) : Slots β where
  size := c.size - 1
  content := Function.update c.content (c.size - 1) none
  bound i hi := by
    by_cases h : i = c.size - 1
    · rw [h, Function.update_self]
    · rw [Function.update_of_ne h]
      exact c.bound i (by omega)

/-- Slot `i` contains `b`, if it is there. -/
def put (c : Slots β) (i : Nat) (b : Option β) : Slots β where
  size := c.size
  content := Function.update c.content i ((c.content i).map fun _ => b)
  bound j hj := by
    by_cases h : j = i
    · rw [h, Function.update_self, c.bound i (by omega)]
      rfl
    · rw [Function.update_of_ne h]
      exact c.bound j hj

def remove (c : Slots β) (i : Nat) : Slots β where
  size := c.size
  content := Function.update c.content i none
  bound j hj := by
    by_cases h : j = i
    · rw [h, Function.update_self]
    · rw [Function.update_of_ne h]
      exact c.bound j hj

/-- What is in slot `src` is in `dest` then. -/
def move (c : Slots β) (src dest : Nat) : Slots β :=
  (c.put dest (c.content src).join).put src none

def exchange (c : Slots β) (i j : Nat) : Slots β :=
  (c.put i (c.content j).join).put j (c.content i).join

def map (f : β → γ) (c : Slots β) : Slots γ where
  size := c.size
  content i := (c.content i).map (Option.map f)
  bound i hi := by
    rw [c.bound i hi]
    rfl

section

variable {c : Slots β} {i j : Nat} {b b' : Option β}

theorem lt_size (h : c.content i = some b) : i < c.size := by
  by_contra hge
  rw [c.bound i (by omega)] at h
  cases h

theorem content_size (c : Slots β) : c.content c.size = none := c.bound _ (Nat.le_refl _)

@[simp] theorem size_push : (c.push b).size = c.size + 1 := rfl

@[simp] theorem size_put : (c.put i b).size = c.size := rfl

@[simp] theorem size_remove : (c.remove i).size = c.size := rfl

@[simp] theorem size_move : (c.move i j).size = c.size := rfl

@[simp] theorem size_exchange : (c.exchange i j).size = c.size := rfl

@[simp] theorem size_pop : c.pop.size = c.size - 1 := rfl

theorem content_push_self : (c.push b).content c.size = some b := Function.update_self _ _ _

theorem content_push (h : c.content i = some b') : (c.push b).content i = some b' := by
  show Function.update c.content c.size (some b) i = some b'
  rw [Function.update_of_ne (Nat.ne_of_lt (lt_size h))]
  exact h

theorem content_put_self (h : c.content i = some b') : (c.put i b).content i = some b := by
  show Function.update c.content i _ i = some b
  rw [Function.update_self, h]
  rfl

theorem content_put_of_ne (h : i ≠ j) : (c.put j b).content i = c.content i :=
  Function.update_of_ne h _ _

/-- To put back what is there. -/
theorem put_content (h : c.content i = some b) : c.put i b = c := by
  refine Slots.ext rfl ?_
  show Function.update c.content i _ = c.content
  rw [h]
  show Function.update c.content i (some b) = c.content
  rw [← h]
  exact Function.update_eq_self _ _

@[simp] theorem put_put (c : Slots β) (i : Nat) (b b' : Option β) :
    (c.put i b).put i b' = c.put i b' := by
  refine Slots.ext rfl (funext fun k => ?_)
  by_cases hk : k = i
  · subst hk
    cases h : c.content k <;> simp [put, h]
  · simp [put, hk]

theorem put_comm (h : i ≠ j) (c : Slots β) (b b' : Option β) :
    (c.put i b).put j b' = (c.put j b').put i b := by
  refine Slots.ext rfl (funext fun k => ?_)
  by_cases hi : k = i
  · subst hi
    simp [put, h, Ne.symm h]
  · by_cases hj : k = j
    · subst hj
      simp [put, h, Ne.symm h]
    · simp [put, hi, hj]

theorem content_move_src (hi : c.content i = some b) (j : Nat) :
    (c.move i j).content i = some none := by
  by_cases hij : i = j
  · subst hij
    exact content_put_self (content_put_self hi)
  · exact content_put_self ((content_put_of_ne hij).trans hi)

theorem content_move_dest (hij : i ≠ j) (hi : c.content i = some b)
    (hj : c.content j = some b') : (c.move i j).content j = some b := by
  rw [move, content_put_of_ne (Ne.symm hij), content_put_self hj, hi]
  rfl

theorem content_move_of_ne {k : Nat} (hi : k ≠ i) (hj : k ≠ j) :
    (c.move i j).content k = c.content k := by
  rw [move, content_put_of_ne hi, content_put_of_ne hj]

theorem content_exchange (hi : c.content i = some b) (hj : c.content j = some b') (k : Nat) :
    (c.exchange i j).content k = c.content (Equiv.swap i j k) := by
  by_cases hjk : k = j
  · subst hjk
    rw [Equiv.swap_apply_right, hi, exchange, hi, hj]
    by_cases hij : k = i
    · subst hij
      simp [put, hi]
    · simp [put, hij, hj]
  · by_cases hik : k = i
    · subst hik
      rw [Equiv.swap_apply_left, hj, exchange, hj]
      simp [put, hjk, hi]
    · simp [exchange, put, hik, hjk, Equiv.swap_apply_of_ne_of_ne hik hjk]

/-- Nothing is moved to where nothing is. -/
theorem move_none (hi : c.content i = some none) (hj : c.content j = some none) :
    c.move i j = c := by
  have hput : c.put j (c.content i).join = c := by
    rw [hi]
    exact put_content hj
  rw [move, hput, put_content hi]

@[simp] theorem pop_push (c : Slots β) (b : Option β) : (c.push b).pop = c := by
  refine Slots.ext (by simp) (funext fun k => ?_)
  by_cases hk : k = c.size
  · subst hk
    simp [pop, content_size]
  · simp [pop, push, hk]

@[simp] theorem push_put_self (c : Slots β) (b b' : Option β) :
    (c.push b).put c.size b' = c.push b' := by
  refine Slots.ext rfl (funext fun k => ?_)
  by_cases hk : k = c.size
  · subst hk
    simp [put, push]
  · simp [put, push, hk]

@[simp] theorem remove_put (c : Slots β) (i : Nat) (b : Option β) :
    (c.put i b).remove i = c.remove i := by
  refine Slots.ext rfl (funext fun k => ?_)
  by_cases hk : k = i
  · subst hk
    simp [remove]
  · simp [put, remove, hk]

theorem pop_remove_put_push (c : Slots β) (b b' : Option β) :
    (((c.push b).put c.size b').remove c.size).pop = c := by
  refine Slots.ext (by simp) (funext fun k => ?_)
  by_cases hk : k = c.size
  · subst hk
    simp [pop, content_size]
  · simp [pop, remove, put, push, hk]

theorem push_put (h : c.content i = some b') (b x : Option β) :
    (c.push x).put i b = (c.put i b).push x := by
  have hne : i ≠ c.size := Nat.ne_of_lt (lt_size h)
  refine Slots.ext rfl (funext fun k => ?_)
  by_cases hi : k = i
  · subst hi
    simp [put, push, hne]
  · by_cases hk : k = c.size <;> simp [put, push, hi, hk, hne, Ne.symm hne]

/-- The temporary has begun with the value of one of the two. -/
theorem push_exchange (hij : i ≠ j) (hi : c.content i = some b) (hj : c.content j = some b') :
    (((c.put j none).push b').put j b).put i b' = (c.exchange i j).push b' := by
  have hi' : (c.put j b).content i = some b := (content_put_of_ne hij).trans hi
  rw [push_put (content_put_self hj), put_put, push_put hi', exchange, hi, hj,
    put_comm (Ne.symm hij)]
  rfl

theorem move_move_push (hij : i ≠ j) (hi : c.content i = some b) (hj : c.content j = some b') :
    (((c.put j none).push b').move i j).move c.size i =
      ((c.exchange i j).push b').put c.size none := by
  have hli := Nat.ne_of_lt (lt_size hi)
  have hlj := Nat.ne_of_lt (lt_size hj)
  have hi₁ : ((c.put j none).push b').content i = some b :=
    content_push ((content_put_of_ne hij).trans hi)
  have hlast : (((c.put j none).push b').move i j).content c.size = some b' :=
    (content_move_of_ne (Ne.symm hli) (Ne.symm hlj)).trans content_push_self
  rw [← push_exchange hij hi hj, move, hlast, move, hi₁, put_put]
  rfl

/-- Two values that are exchanged by way of a temporary. -/
theorem move_move_move (hij : i ≠ j) (hi : c.content i = some b) (hj : c.content j = some b') :
    ((((c.push none).move j c.size).move i j).move c.size i).pop = c.exchange i j := by
  have hli : i ≠ c.size := Nat.ne_of_lt (lt_size hi)
  have hlj : j ≠ c.size := Nat.ne_of_lt (lt_size hj)
  refine Slots.ext (by simp [move, exchange]) (funext fun k => ?_)
  by_cases hki : k = i
  · subst hki
    simp [pop, move, put, push, exchange, hij, hli, hlj, Ne.symm hli, Ne.symm hlj, hi, hj]
  · by_cases hkj : k = j
    · subst hkj
      simp [pop, move, put, push, exchange, hki, hli, hlj, Ne.symm hki, hi, hj]
    · by_cases hk : k = c.size
      · subst hk
        simp [pop, move, put, push, exchange, hki, hkj, content_size]
      · simp [pop, move, put, push, exchange, hki, hkj, hk]

end

/-! ## Every value through a function -/

section Map

variable {f : β → γ} {c : Slots β} {i j : Nat} {b : Option β}

theorem content_map : (c.map f).content i = (c.content i).map (Option.map f) := rfl

@[simp] theorem map_push : (c.push b).map f = (c.map f).push (b.map f) := by
  refine Slots.ext rfl (funext fun k => ?_)
  by_cases hk : k = c.size
  · subst hk
    simp [map, push]
  · simp [map, push, hk]

@[simp] theorem map_put : (c.put i b).map f = (c.map f).put i (b.map f) := by
  refine Slots.ext rfl (funext fun k => ?_)
  by_cases hk : k = i
  · subst hk
    cases h : c.content k <;> simp [map, put, h]
  · simp [map, put, hk]

@[simp] theorem map_remove : (c.remove i).map f = (c.map f).remove i := by
  refine Slots.ext rfl (funext fun k => ?_)
  by_cases hk : k = i
  · subst hk
    simp [map, remove]
  · simp [map, remove, hk]

@[simp] theorem map_pop : c.pop.map f = (c.map f).pop := by
  refine Slots.ext rfl (funext fun k => ?_)
  by_cases hk : k = c.size - 1
  · subst hk
    simp [map, pop]
  · simp [map, pop, hk]

/-- `f` does not tell the two values apart. -/
theorem map_exchange {b' : Option β} (hi : c.content i = some b) (hj : c.content j = some b')
    (h : b.map f = b'.map f) : (c.exchange i j).map f = c.map f := by
  have hi' : (c.map f).content i = some (b'.map f) := by
    rw [content_map, hi, ← h]
    rfl
  have hj' : (c.map f).content j = some (b.map f) := by
    rw [content_map, hj, h]
    rfl
  have hput : (c.map f).put i ((c.content j).join.map f) = c.map f := by
    rw [hj]
    exact put_content hi'
  rw [exchange, map_put, map_put, hput, hi]
  exact put_content hj'

end Map

end Slots
end TryAndLearn
