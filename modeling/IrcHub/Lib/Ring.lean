import Mathlib.Data.List.Basic
import Mathlib.Logic.Function.Basic

/-!
# `IrcHub.Lib.Ring`: the last items of a history in a ring of slots

A ring of `n` slots holds the last items of a history. Item `i` of the history goes into slot `(i
+ k) % n`, where `k` is the slot the first item went into.

* `Holds`: each of the last `n` items is in its slot
* `Holds.nil`: the empty history, whatever the slots have in them
* `Holds.append`: the next item takes the place of the oldest one
* `slot_ne`: two of the last `n` items have different slots

The slots are a function on all numbers and only the first `n` are used, so no bound is carried
through the proofs. A program that keeps a start and a count gets the last items back by reading
the slots from the start on, in the order of the history.
-/

set_option autoImplicit false

namespace Ring

variable {α : Type} {n k : Nat}

/-- The slots of a ring hold the last `n` items of a history whose first item has the number
`k`. -/
def Holds (n k : Nat) (slots : Nat → α) (items : List α) : Prop :=
  ∀ i x, items[i]? = some x → items.length ≤ i + n → slots ((i + k) % n) = x

/-- A ring of which nothing is read holds the empty list, whatever is in its slots. -/
theorem Holds.nil (n k : Nat) (slots : Nat → α) : Holds n k slots [] := fun _ _ h => (nomatch h)

/-- Two numbers that are fewer than `n` apart have different slots. -/
theorem slot_ne {i j : Nat} (hlt : i < j) (hnear : j < i + n) : i % n ≠ j % n := by
  intro heq
  have hdvd : n ∣ j - i := Nat.dvd_of_mod_eq_zero (Nat.sub_mod_eq_zero_of_mod_eq heq.symm)
  have hle := Nat.le_of_dvd (by omega) hdvd
  omega

/-- The next item takes the place of the oldest. The other items of the last `n` keep their slots
(`slot_ne`), and the oldest one, whose slot is written, is not among them any more. -/
theorem Holds.append {slots : Nat → α} {items : List α} (h : Holds n k slots items) (x : α) :
    Holds n k (Function.update slots ((items.length + k) % n) x) (items ++ [x]) := by
  intro i y hi hlast
  rw [List.length_append, List.length_singleton] at hlast
  by_cases hend : i < items.length
  · rw [List.getElem?_append_left hend] at hi
    rw [Function.update_of_ne (slot_ne (by omega) (by omega))]
    exact h i y hi (by omega)
  · rw [List.getElem?_append_right (Nat.not_lt.mp hend)] at hi
    obtain ⟨hi, rfl⟩ : i - items.length = 0 ∧ x = y := by
      cases hk : i - items.length with
      | zero =>
        rw [hk] at hi
        exact ⟨rfl, Option.some.inj hi⟩
      | succ m =>
        rw [hk] at hi
        cases hi
    have hi : i = items.length := by omega
    rw [hi, Function.update_self]

end Ring
