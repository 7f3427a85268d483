import Mathlib.Data.List.Basic

/-!
# `IrcHub.Lib.Apart`: tables whose rows keep apart

A table in which any two rows are related: no two rows of one name, no two rows of one key. Such a
table is usually said to be `Pairwise` related. Here the relation takes the places of the two
rows, since the programs that write these tables address rows by their place: a row is appended,
or the row at a place is written over. The relation is symmetric in every use, so the order of the
two rows does not count (`apart_iff_pairwise`).

* `Apart.append_iff`: what a new row at the end has to meet
* `Apart.set_iff`: what a row written over another one has to meet. Both are exact, so a writer
  that checks less than this breaks the table for some contents
* `Apart.map`: a change of all rows that keeps the relation
* `countP_eq_one_iff`: the same for one row against the rest, as a count

Nothing is assumed about the rows. The relation may be any one, and where it is decidable so is
the condition of each change.
-/

set_option autoImplicit false

namespace Table

variable {α : Type} {R : α → α → Prop} {l l' : List α} {a b : α} {i : Nat}

/-- Any two rows of the table are related. -/
def Apart (R : α → α → Prop) (l : List α) : Prop :=
  ∀ (i j : Nat) (a b : α), i ≠ j → l[i]? = some a → l[j]? = some b → R a b

/-- Rows that keep apart are apart in list order, and the other way round. -/
theorem apart_iff_pairwise (hsymm : ∀ a b, R a b → R b a) : Apart R l ↔ l.Pairwise R := by
  rw [List.pairwise_iff_getElem]
  constructor
  · intro h i j hi hj hij
    exact h i j _ _ (Nat.ne_of_lt hij) (List.getElem?_eq_getElem hi) (List.getElem?_eq_getElem hj)
  · intro h i j a b hij hi hj
    obtain ⟨hi', rfl⟩ := List.getElem?_eq_some_iff.mp hi
    obtain ⟨hj', rfl⟩ := List.getElem?_eq_some_iff.mp hj
    rcases Nat.lt_or_gt_of_ne hij with hlt | hlt
    · exact h i j hi' hj' hlt
    · exact hsymm _ _ (h j i hj' hi' hlt)

/-- Two different members of the list are apart, wherever they stand in it. -/
theorem Apart.of_mem (h : Apart R l) (ha : a ∈ l) (hb : b ∈ l) (hne : a ≠ b) : R a b := by
  obtain ⟨i, hi⟩ := List.getElem?_of_mem ha
  obtain ⟨j, hj⟩ := List.getElem?_of_mem hb
  refine h i j a b ?_ hi hj
  rintro rfl
  rw [hi] at hj
  exact hne (Option.some.inj hj)

/-- A new row at the end. -/
theorem Apart.append_iff (hsymm : ∀ a b, R a b → R b a) (h : Apart R l) :
    Apart R (l ++ [a]) ↔ ∀ x ∈ l, R x a := by
  rw [apart_iff_pairwise hsymm, List.pairwise_append]
  constructor
  · exact fun hall x hx => hall.2.2 x hx a List.mem_cons_self
  · intro hall
    refine ⟨(apart_iff_pairwise hsymm).mp h, List.pairwise_singleton _ _, fun x hx y hy => ?_⟩
    rw [List.mem_singleton.mp hy]
    exact hall x hx

/-- A row written over another one leaves the rows apart exactly when it keeps apart from every
other row. The row it replaces does not count: nothing relates to it any more. `hsymm` lets the
new row be compared from one side only. -/
theorem Apart.set_iff (hsymm : ∀ a b, R a b → R b a) (h : Apart R l) (hi : i < l.length) :
    Apart R (l.set i a) ↔ ∀ (j : Nat) (x : α), j ≠ i → l[j]? = some x → R x a := by
  have hat : (l.set i a)[i]? = some a := by simp [hi]
  constructor
  · intro hset j x hj hx
    refine hset j i x a hj ?_ hat
    rw [List.getElem?_set_ne (Ne.symm hj)]
    exact hx
  · intro hall j k x y hjk hx hy
    by_cases hj : j = i
    · subst hj
      rw [hat] at hx
      cases hx
      rw [List.getElem?_set_ne hjk] at hy
      exact hsymm _ _ (hall k y (Ne.symm hjk) hy)
    rw [List.getElem?_set_ne (Ne.symm hj)] at hx
    by_cases hk : k = i
    · subst hk
      rw [hat] at hy
      cases hy
      exact hall j x hj hx
    · rw [List.getElem?_set_ne (Ne.symm hk)] at hy
      exact h j k x y hjk hx hy

/-- Rows that no change brings closer. -/
theorem Apart.map {β : Type} {S : β → β → Prop} {f : α → β} (h : Apart R l)
    (hf : ∀ a ∈ l, ∀ b ∈ l, R a b → S (f a) (f b)) : Apart S (l.map f) := by
  intro i j a b hij hi hj
  rw [List.getElem?_map, Option.map_eq_some_iff] at hi hj
  obtain ⟨a', ha, rfl⟩ := hi
  obtain ⟨b', hb, rfl⟩ := hj
  exact hf a' (List.mem_of_getElem? ha) b' (List.mem_of_getElem? hb) (h i j a' b' hij ha hb)

/-- A row that is counted is the only one exactly when no other place has a row that is counted.
The places are compared and not the rows, so an equal copy elsewhere counts as a second row. -/
theorem countP_eq_one_iff {p : α → Bool} (hi : l[i]? = some a) (ha : p a = true) :
    l.countP p = 1 ↔ ∀ j b, j ≠ i → l[j]? = some b → p b = false := by
  obtain ⟨hlt, hget⟩ := List.getElem?_eq_some_iff.mp hi
  have hsplit : l = l.take i ++ a :: l.drop (i + 1) := by
    rw [← hget, ← List.drop_eq_getElem_cons hlt, List.take_append_drop]
  have hcount : l.countP p = (l.take i).countP p + ((l.drop (i + 1)).countP p + 1) := by
    conv_lhs => rw [hsplit, List.countP_append, List.countP_cons_of_pos ha]
  have hone : l.countP p = 1 ↔ (l.take i).countP p = 0 ∧ (l.drop (i + 1)).countP p = 0 := by omega
  rw [hone, List.countP_eq_zero, List.countP_eq_zero]
  constructor
  · rintro ⟨hbefore, hafter⟩ j b hj hb
    rw [← Bool.not_eq_true]
    rcases Nat.lt_or_gt_of_ne hj with hlt' | hgt
    · exact hbefore b (List.mem_of_getElem? (i := j) (by rw [List.getElem?_take_of_lt hlt', hb]))
    · refine hafter b (List.mem_of_getElem? (i := j - (i + 1)) ?_)
      rw [List.getElem?_drop, Nat.add_sub_cancel' hgt, hb]
  · refine fun h => ⟨fun b hb => ?_, fun b hb => ?_⟩
    · obtain ⟨j, hj, rfl⟩ := List.mem_take_iff_getElem.mp hb
      have hj' : j < i ∧ j < l.length := by omega
      rw [Bool.not_eq_true]
      exact h j _ (Nat.ne_of_lt hj'.1) (List.getElem?_eq_getElem hj'.2)
    · obtain ⟨j, hj⟩ := List.mem_iff_getElem?.mp hb
      rw [List.getElem?_drop] at hj
      rw [Bool.not_eq_true]
      exact h (i + 1 + j) b (by omega) hj
end Table
