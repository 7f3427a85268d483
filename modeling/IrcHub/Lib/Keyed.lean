import Mathlib.Data.List.Nodup
import IrcHub.Lib.Table

/-!
# `IrcHub.Lib.Keyed`: tables with a key

A table whose rows have different keys is a partial map from keys to rows (`row`), wherever the
rows stand. Programs keep such tables as arrays: they append a row, rewrite the row at a place, or
take a row out by moving the last one into its place. Each of these is a change of the map.

* `row_append`: a new row, whose key no row had
* `row_modify`: a row that is rewritten in place and keeps its key
* `row_swapRemove`: a row that goes, while the last row takes its place
* `row_eq_some_iff`, `row_eq_none_iff`: the map and the rows

With them a proof about a program can forget the places. That matters most for the removal: a
caller that kept a place across it finds another row there, and a caller that kept a key does not.

The condition throughout is that the keys have no duplicates, and `nodup_append` and
`nodup_swapRemove` keep it.
-/

set_option autoImplicit false

namespace Table

variable {α κ : Type} {key : α → κ} {l : List α} {a : α} {i : Nat} {k : κ}

/-- A change that keeps the key. -/
theorem map_key_modify {f : α → α} (hf : ∀ b, key (f b) = key b) (l : List α) (i : Nat) :
    (l.modify i f).map key = l.map key := by
  apply List.ext_getElem?
  intro j
  rw [List.getElem?_map, List.getElem?_map, List.getElem?_modify]
  cases l[j]? with
  | none => rfl
  | some b =>
    by_cases hij : i = j
    · simp [hij, hf]
    · simp [hij]

/-- Keys stay apart when a row is taken out. -/
theorem nodup_swapRemove (hkeys : (l.map key).Nodup) (hi : i < l.length) :
    ((swapRemove l i).map key).Nodup :=
  (((swapRemove_perm l hi).map key).nodup_iff).mpr
  (hkeys.sublist ((List.eraseIdx_sublist l i).map key))

/-- What a row was when it goes makes no difference. A program that first rewrites a row and then
takes it out may be read as one that only takes it out. -/
theorem swapRemove_set (l : List α) (i : Nat) (b : α) :
    swapRemove (l.set i b) i = swapRemove l i := by
  unfold swapRemove
  rw [List.getLast?_eq_getElem?, List.getLast?_eq_getElem?, List.length_set]
  by_cases hlast : i = l.length - 1
  · -- the last row takes its own place and goes
    have hdrop : ∀ x, (l.set i x).dropLast = l.dropLast := by
      intro x
      rw [List.dropLast_eq_take, List.dropLast_eq_take, List.length_set, hlast,
        List.take_set_of_le (Nat.le_refl _)]
    cases hl : l[l.length - 1]? with
    | none =>
      have hempty : l.length ≤ l.length - 1 := List.getElem?_eq_none_iff.mp hl
      have hnil : l = [] := List.length_eq_zero_iff.mp (by omega)
      subst hnil
      rfl
    | some x =>
      have hlt : i < l.length := hlast ▸ (List.getElem?_eq_some_iff.mp hl).1
      rw [← hlast, List.getElem?_set_self hlt]
      simp only [List.set_set, hdrop]
  · rw [List.getElem?_set_ne hlast]
    cases hl : l[l.length - 1]? with
    | none =>
      have hempty : l.length ≤ l.length - 1 := List.getElem?_eq_none_iff.mp hl
      have hnil : l = [] := List.length_eq_zero_iff.mp (by omega)
      subst hnil
      rfl
    | some x => simp only [List.set_set]

/-- What was changed on a row is gone with the row. -/
theorem swapRemove_modify (l : List α) (i : Nat) (f : α → α) :
    swapRemove (l.modify i f) i = swapRemove l i := by
  rw [List.modify_eq_set_getElem?]
  cases l[i]? with
  | none => rfl
  | some a => exact swapRemove_set l i (f a)

/-- The rows of a table once the one at `i` was changed, by position. -/
theorem getElem?_modify_ite (l : List α) (i : Nat) (f : α → α) (j : Nat) :
    (l.modify i f)[j]? = if i = j then (l[j]?).map f else l[j]? := by
  by_cases hj : i = j
  · rw [if_pos hj, hj, List.getElem?_modify_eq]
    rfl
  · rw [if_neg hj, List.getElem?_modify_ne _ _ hj]

/-- Two changes of one row are one change. -/
theorem modify_modify (l : List α) (i : Nat) (f g : α → α) :
    (l.modify i f).modify i g = l.modify i fun a => g (f a) := by
  apply List.ext_getElem?
  intro j
  simp only [List.getElem?_modify]
  cases l[j]? with
  | none => rfl
  | some a =>
    by_cases hij : i = j
    · simp [hij]
    · simp [hij]

variable [DecidableEq κ]

/-- The row of a key. -/
def row (key : α → κ) (l : List α) (k : κ) : Option α := l.find? fun a => decide (key a = k)

/-- The row that was found under a key has that key. -/
theorem key_of_row (h : row key l k = some a) : key a = k := by
  have hp := List.find?_some (p := fun a => decide (key a = k)) h
  exact of_decide_eq_true hp

/-- The row that was found is in the table. -/
theorem mem_of_row (h : row key l k = some a) : a ∈ l := List.mem_of_find?_eq_some h

/-- No row is found when no row has the key. -/
theorem row_eq_none_iff : row key l k = none ↔ ∀ a ∈ l, key a ≠ k := by
  rw [row, List.find?_eq_none]
  simp

/-- With different keys every row is the row of its key. -/
theorem row_eq_some_iff (hkeys : (l.map key).Nodup) : row key l k = some a ↔ a ∈ l
    ∧ key a = k := by
  constructor
  · exact fun h => ⟨mem_of_row h, key_of_row h⟩
  · rintro ⟨ha, rfl⟩
    cases hrow : row key l (key a) with
    | none => exact absurd rfl (row_eq_none_iff.mp hrow a ha)
    | some b =>
      have hb := List.inj_on_of_nodup_map hkeys (mem_of_row hrow) ha (key_of_row hrow)
      rw [hb]

/-- Where the keys are apart, a row is the one that is found under its own key: a lookup stops at
the first match and there is no other. -/
theorem row_of_getElem? (hkeys : (l.map key).Nodup) (hi : l[i]? = some a) :
    row key l (key a) = some a :=
  (row_eq_some_iff hkeys).mpr ⟨List.mem_of_getElem? hi, rfl⟩

/-- Where the row of a key stands. -/
theorem getElem?_of_row (h : row key l k = some a) :
    ∃ i, l.findIdx? (fun a => decide (key a = k)) = some i ∧ l[i]? = some a := by
  cases hfind : l.findIdx? fun a => decide (key a = k) with
  | none =>
    have hno := List.findIdx?_eq_none_iff.mp hfind a (mem_of_row h)
    exact absurd (key_of_row h) (of_decide_eq_false hno)
  | some i =>
    obtain ⟨hi, -, -⟩ := List.findIdx?_eq_some_iff_getElem.mp hfind
    have hget := List.getElem?_eq_getElem hi
    have hrow := find?_of_findIdx? hfind hget
    rw [row] at h
    rw [hrow] at h
    cases h
    exact ⟨i, rfl, hget⟩

/-- A new row is found under its key, and nothing changes for the others. Its key must be new. -/
theorem row_append (hnew : row key l (key a) = none) (k : κ) :
    row key (l ++ [a]) k = if key a = k then some a else row key l k := by
  rw [row, List.find?_append]
  by_cases hk : key a = k
  · rw [if_pos hk]
    have hnone : l.find? (fun a => decide (key a = k)) = none := by
      rw [← hk]
      exact hnew
    rw [hnone]
    simp [hk]
  · rw [if_neg hk]
    simp [hk, row]

/-- A row whose key is new keeps the keys apart. -/
theorem nodup_append (hkeys : (l.map key).Nodup) (hnew : row key l (key a) = none) :
    ((l ++ [a]).map key).Nodup := by
  rw [List.map_append, List.map_singleton, List.nodup_append]
  refine ⟨hkeys, List.nodup_singleton _, fun x hx y hy => ?_⟩
  obtain ⟨b, hb, rfl⟩ := List.mem_map.mp hx
  rw [List.mem_singleton.mp hy]
  exact row_eq_none_iff.mp hnew b hb

/-- A change that leaves the key alone is seen under that key and under no other. `hf` is that the
change leaves the key alone, `hi` that the row stands at the place that is rewritten. -/
theorem row_modify (hkeys : (l.map key).Nodup) {f : α → α} (hf : ∀ b, key (f b) = key b)
    (hi : l[i]? = some a) (k : κ) :
    row key (l.modify i f) k = if key a = k then some (f a) else row key l k := by
  have hkeys' : ((l.modify i f).map key).Nodup := by rwa [map_key_modify hf]
  by_cases hk : key a = k
  · rw [if_pos hk, row_eq_some_iff hkeys']
    refine ⟨List.mem_of_getElem? (i := i) ?_, (hf a).trans hk⟩
    rw [List.getElem?_modify, hi]
    simp
  · rw [if_neg hk]
    cases hrow : row key l k with
    | none =>
      rw [row_eq_none_iff] at hrow ⊢
      intro b hb hbk
      have hmem : k ∈ (l.modify i f).map key := List.mem_map.mpr ⟨b, hb, hbk⟩
      rw [map_key_modify hf] at hmem
      obtain ⟨c, hc, hck⟩ := List.mem_map.mp hmem
      exact hrow c hc hck
    | some b =>
      rw [row_eq_some_iff hkeys']
      obtain ⟨j, -, hj⟩ := getElem?_of_row hrow
      have hij : i ≠ j := by
        rintro rfl
        rw [hi] at hj
        cases hj
        exact hk (key_of_row hrow)
      refine ⟨List.mem_of_getElem? (i := j) ?_, key_of_row hrow⟩
      rw [List.getElem?_modify, hj]
      simp [hij]

/-- The row that is taken out is not found any more, and every other is found as before, whatever
place it moved to. -/
theorem row_swapRemove (hkeys : (l.map key).Nodup) (hi : l[i]? = some a) (k : κ) :
    row key (swapRemove l i) k = if key a = k then none else row key l k := by
  obtain ⟨hlt, hget⟩ := List.getElem?_eq_some_iff.mp hi
  have hkeys' := nodup_swapRemove hkeys hlt
  have hmem : ∀ b, b ∈ swapRemove l i ↔ ∃ j, j ≠ i ∧ l[j]? = some b := by
    intro b
    rw [(swapRemove_perm l hlt).mem_iff, List.mem_eraseIdx_iff_getElem?]
  by_cases hk : key a = k
  · rw [if_pos hk, row_eq_none_iff]
    intro b hb hbk
    obtain ⟨j, hj, hjb⟩ := (hmem b).mp hb
    have hba := List.inj_on_of_nodup_map hkeys (List.mem_of_getElem? hjb)
      (List.mem_of_getElem? hi) (hbk.trans hk.symm)
    subst hba
    obtain ⟨hjlt, hjget⟩ := List.getElem?_eq_some_iff.mp hjb
    exact hj ((hkeys.of_map key).getElem_inj_iff.mp (hjget.trans hget.symm))
  · rw [if_neg hk]
    cases hrow : row key l k with
    | none =>
      rw [row_eq_none_iff] at hrow ⊢
      exact fun b hb => hrow b (mem_of_mem_swapRemove hb)
    | some b =>
      rw [row_eq_some_iff hkeys']
      obtain ⟨j, -, hj⟩ := getElem?_of_row hrow
      refine ⟨(hmem b).mpr ⟨j, ?_, hj⟩, key_of_row hrow⟩
      rintro rfl
      rw [hi] at hj
      cases hj
      exact hk (key_of_row hrow)

end Table
