import Mathlib.Data.List.Basic

/-!
# `IrcHub.Lib.Table`: rewriting and removing rows of a list

A table is a list of rows addressed by position. Rewriting one row in place keeps every search,
count and pairwise relation that cannot tell the new row from the old one:

* `findIdx?_set_of_eq`, `find?_set_of_false`, `find?_set_of_findIdx?`: what a search finds
* `filter_set_of_false`, `map_filter_set_of_eq`: what a selection reads
* `countP_set_add`, `countP_set_of_eq`: how many rows a condition has
* `pairwise_set`: what any two rows are to each other

A new row at the end is found by the searches that found none before (`find?_append_of_none`,
`find?_append_of_false`).

Removing a row by moving the last row into its place (`swapRemove`) is a rearrangement of the
table without it (`swapRemove_perm`). What does not depend on the order of the rows is therefore
as after an ordinary removal.

Searches here are for a condition on rows and not for a key; the tables with a key have a module
of their own that builds on this one.
-/

set_option autoImplicit false

namespace Table

variable {α : Type} {l : List α} {i : Nat} {a a' : α}

/-- What holds of every row at its place can be decided row by row. -/
instance decidableForallRow (P : Nat → α → Prop) [∀ i a, Decidable (P i a)] :
    Decidable (∀ i a, l[i]? = some a → P i a) :=
  decidable_of_iff (∀ p ∈ l.zipIdx, P p.2 p.1)
    ⟨fun h i a ha => h (a, i) (List.mem_zipIdx_iff_getElem?.mpr ha),
      fun h p hp => h p.2 p.1 (List.mem_zipIdx_iff_getElem?.mp hp)⟩

/-- What holds of every row and of what stands before it can be decided row by row. -/
instance decidableForallSplit (P : List α → α → Prop) [∀ before a, Decidable (P before a)] :
    Decidable (∀ before a after, l = before ++ a :: after → P before a) :=
  decidable_of_iff (∀ i : Fin l.length, P (l.take i) (l.get i)) (by
    constructor
    · rintro h before a after rfl
      simpa using h ⟨before.length, by simp⟩
    · intro h i
      exact h _ _ (l.drop (i + 1)) (by
        rw [List.get_eq_getElem, List.getElem_cons_drop, List.take_append_drop]))

/-- Writing a row into its own place changes nothing. -/
theorem set_of_getElem? (hi : l[i]? = some a) : l.set i a = l := by
  obtain ⟨h, rfl⟩ := List.getElem?_eq_some_iff.mp hi
  exact List.set_getElem_self h

/-- A search that treats the new row as the old one finds the same position. -/
theorem findIdx?_set_of_eq {p : α → Bool} (hi : l[i]? = some a) (hp : p a' = p a) :
    (l.set i a').findIdx? p = l.findIdx? p := by
  induction l generalizing i with
  | nil => rfl
  | cons b l ih =>
    cases i with
    | zero =>
      simp only [List.getElem?_cons_zero, Option.some.injEq] at hi
      subst hi
      simp [List.findIdx?_cons, hp]
    | succ i =>
      rw [List.getElem?_cons_succ] at hi
      rw [List.set_cons_succ, List.findIdx?_cons, List.findIdx?_cons, ih hi]

/-- A search that takes neither row finds the same row. -/
theorem find?_set_of_false {p : α → Bool} (hi : l[i]? = some a) (ha : p a = false)
    (ha' : p a' = false) : (l.set i a').find? p = l.find? p := by
  induction l generalizing i with
  | nil => rfl
  | cons b l ih =>
    cases i with
    | zero =>
      simp only [List.getElem?_cons_zero, Option.some.injEq] at hi
      subst hi
      simp [ha, ha']
    | succ i =>
      rw [List.getElem?_cons_succ] at hi
      rw [List.set_cons_succ, List.find?_cons, List.find?_cons, ih hi]

/-- A selection that takes neither row is the same. -/
theorem filter_set_of_false {p : α → Bool} (hi : l[i]? = some a) (ha : p a = false)
    (ha' : p a' = false) : (l.set i a').filter p = l.filter p := by
  induction l generalizing i with
  | nil => rfl
  | cons b l ih =>
    cases i with
    | zero =>
      simp only [List.getElem?_cons_zero, Option.some.injEq] at hi
      subst hi
      simp [ha, ha']
    | succ i =>
      rw [List.getElem?_cons_succ] at hi
      rw [List.set_cons_succ, List.filter_cons, List.filter_cons, ih hi]

/-- Where a selection takes one row only, a row that it takes replaces it. -/
theorem filter_set_of_singleton {p : α → Bool} (hi : l[i]? = some a) (ha : p a = true)
    (ha' : p a' = true) (h : l.filter p = [a]) : (l.set i a').filter p = [a'] := by
  obtain ⟨hlt, hval⟩ := List.getElem?_eq_some_iff.mp hi
  have hsplit : l.take i ++ a :: l.drop (i + 1) = l := by
    rw [← hval, List.getElem_cons_drop, List.take_append_drop]
  rw [← hsplit, List.filter_append, List.filter_cons_of_pos ha] at h
  have hlen := congrArg List.length h
  rw [List.length_append, List.length_cons, List.length_singleton] at hlen
  have htake : (l.take i).filter p = [] := List.length_eq_zero_iff.mp (by omega)
  have hdrop : (l.drop (i + 1)).filter p = [] := List.length_eq_zero_iff.mp (by omega)
  rw [List.set_eq_take_append_cons_drop, if_pos hlt, List.filter_append,
    List.filter_cons_of_pos ha', htake, hdrop]
  rfl

/-- What is read off the rows a selection takes is the same if the rewritten row reads the same.
`hp` says that the selection treats the two rows alike, `hf` that they read alike. -/
theorem map_filter_set_of_eq {β : Type} {p : α → Bool} {f : α → β} (hi : l[i]? = some a)
    (hp : p a' = p a) (hf : f a' = f a) : ((l.set i a').filter p).map f = (l.filter p).map f := by
  induction l generalizing i with
  | nil => rfl
  | cons b l ih =>
    cases i with
    | zero =>
      simp only [List.getElem?_cons_zero, Option.some.injEq] at hi
      subst hi
      rw [List.set_cons_zero, List.filter_cons, List.filter_cons, hp]
      split
      · rw [List.map_cons, List.map_cons, hf]
      · rfl
    | succ i =>
      rw [List.getElem?_cons_succ] at hi
      rw [List.set_cons_succ, List.filter_cons, List.filter_cons]
      split
      · rw [List.map_cons, List.map_cons, ih hi]
      · exact ih hi

/-- The row a search finds, by position and by value. -/
theorem find?_of_findIdx? {p : α → Bool} (hfind : l.findIdx? p = some i) (hi : l[i]? = some a) :
    l.find? p = some a := by
  rw [List.findIdx?_eq_some_iff_getElem] at hfind
  obtain ⟨hlt, hpi, hbefore⟩ := hfind
  rw [List.getElem?_eq_some_iff] at hi
  obtain ⟨-, rfl⟩ := hi
  rw [List.find?_eq_some_iff_getElem]
  refine ⟨hpi, i, hlt, rfl, fun j hj => ?_⟩
  simpa using hbefore j hj

/-- A rewrite of the row a search finds is found, if the search takes it. -/
theorem find?_set_of_findIdx? {p : α → Bool} (hfind : l.findIdx? p = some i) (ha' : p a' = true) :
    (l.set i a').find? p = some a' := by
  have hlt : i < l.length := (List.findIdx?_eq_some_iff_getElem.mp hfind).1
  have hpa := (List.findIdx?_eq_some_iff_getElem.mp hfind).2.1
  refine find?_of_findIdx? (i := i) ?_ (List.getElem?_set_self hlt)
  rw [findIdx?_set_of_eq (List.getElem?_eq_getElem hlt) (by rw [ha', hpa]), hfind]

/-- A new row that a search takes is where an unsuccessful search finds it. -/
theorem findIdx?_append_of_none {p : α → Bool} (hfind : l.findIdx? p = none) (ha : p a = true) :
    (l ++ [a]).findIdx? p = some l.length := by
  rw [List.findIdx?_append, hfind, List.findIdx?_singleton, if_pos ha]
  simp

/-- A new row is what an unsuccessful search finds, if the search takes it. -/
theorem find?_append_of_none {p : α → Bool} (hfind : l.find? p = none) (ha : p a = true) :
    (l ++ [a]).find? p = some a := by
  rw [List.find?_append, hfind]
  simp [ha]

/-- A search that does not take the new row finds what it found. -/
theorem find?_append_of_false {p : α → Bool} (ha : p a = false) :
    (l ++ [a]).find? p = l.find? p := by
  rw [List.find?_append]
  simp [ha]

/-- A count changes by the difference between the two rows. It is stated with both on the side of
a sum, since counts are natural numbers and the difference may be negative. -/
theorem countP_set_add (p : α → Bool) (a' : α) (hi : l[i]? = some a) :
    (l.set i a').countP p + (if p a then 1 else 0) = l.countP p + (if p a' then 1 else 0) := by
  induction l generalizing i with
  | nil => cases hi
  | cons b l ih =>
    cases i with
    | zero =>
      simp only [List.getElem?_cons_zero, Option.some.injEq] at hi
      subst hi
      simp only [List.set_cons_zero, List.countP_cons]
      omega
    | succ i =>
      rw [List.getElem?_cons_succ] at hi
      have := ih hi
      simp only [List.set_cons_succ, List.countP_cons]
      omega

/-- A row that is overwritten by one of its kind leaves the count. -/
theorem countP_set_of_eq {p : α → Bool} (hi : l[i]? = some a) (hp : p a' = p a) :
    (l.set i a').countP p = l.countP p := by
  have := countP_set_add p a' hi
  rw [hp] at this
  omega

/-- A relation between rows survives when the new row has the relations of the old one. It need
not be symmetric, so there is a condition for the rows before and one for the rows after. -/
theorem pairwise_set {R : α → α → Prop} (h : l.Pairwise R) (hi : l[i]? = some a)
    (hleft : ∀ x ∈ l, R x a → R x a') (hright : ∀ x ∈ l, R a x → R a' x) :
    (l.set i a').Pairwise R := by
  induction l generalizing i with
  | nil => exact h
  | cons b l ih =>
    rw [List.pairwise_cons] at h
    cases i with
    | zero =>
      simp only [List.getElem?_cons_zero, Option.some.injEq] at hi
      subst hi
      rw [List.set_cons_zero, List.pairwise_cons]
      exact ⟨fun x hx => hright x (List.mem_cons_of_mem _ hx) (h.1 x hx), h.2⟩
    | succ i =>
      rw [List.getElem?_cons_succ] at hi
      have ha : a ∈ l := List.mem_of_getElem? hi
      rw [List.set_cons_succ, List.pairwise_cons]
      refine ⟨?_, ih h.2 hi (fun x hx => hleft x (List.mem_cons_of_mem _ hx))
        (fun x hx => hright x (List.mem_cons_of_mem _ hx))⟩
      intro x hx
      rcases List.mem_or_eq_of_mem_set hx with hx | rfl
      · exact h.1 x hx
      · exact hleft b List.mem_cons_self (h.1 a ha)

/-- The row at `i` goes and the last row takes its place. -/
def swapRemove (xs : List α) (i : Nat) : List α :=
  match xs.getLast? with
  | some x => (xs.set i x).dropLast
  | none => xs

/-- What is left was there before. -/
theorem mem_of_mem_swapRemove {xs : List α} {i : Nat} {a : α} (h : a ∈ swapRemove xs i) :
    a ∈ xs := by
  unfold swapRemove at h
  split at h
  · rename_i x hx
    rcases List.mem_or_eq_of_mem_set (List.dropLast_subset _ h) with ha | rfl
    · exact ha
    · exact List.mem_of_getLast? hx
  · exact h

/-- One row less, or none if there was none. The place does not matter here: out of range it takes
the last row of the list. -/
theorem length_swapRemove (xs : List α) (i : Nat) : (swapRemove xs i).length = xs.length - 1 := by
  unfold swapRemove
  split
  · simp
  · rename_i hx
    rw [List.getLast?_eq_none_iff.mp hx]
    rfl

/-- The rows that stay are those of the table without row `i`, in another order. -/
theorem swapRemove_perm (xs : List α) {i : Nat} (h : i < xs.length) :
    (swapRemove xs i).Perm (xs.eraseIdx i) := by
  obtain ⟨ys, x, rfl⟩ : ∃ ys x, xs = ys ++ [x] :=
    ⟨xs.dropLast, xs.getLast (by rintro rfl; simp at h), (List.dropLast_append_getLast _).symm⟩
  simp only [swapRemove, List.getLast?_append, List.getLast?_singleton, Option.some_or]
  by_cases hi : i < ys.length
  · rw [List.set_append_left _ _ hi, List.dropLast_append_of_ne_nil (by simp),
      List.dropLast_singleton, List.append_nil, List.eraseIdx_append_of_lt_length hi]
    have hset : ys.set i x = ys.take i ++ x :: ys.drop (i + 1) :=
      List.set_eq_take_append_cons_drop ..
      |>.trans (by simp [hi])
    rw [hset, List.eraseIdx_eq_take_drop_succ, List.append_assoc]
    exact List.Perm.append_left _ (List.perm_append_singleton x _).symm
  · have hlast : i = ys.length := by
      simp only [List.length_append, List.length_singleton] at h
      omega
    subst hlast
    rw [List.eraseIdx_append_of_length_le (Nat.le_refl _)]
    simp

end Table
