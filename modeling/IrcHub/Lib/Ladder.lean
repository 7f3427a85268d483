import Mathlib.Data.List.Basic
import Mathlib.Data.Nat.Basic
import Mathlib.Order.Lattice

/-!
# `IrcHub.Lib.Ladder`: to the top in the fewest steps

A rung can be stepped on from any place below it that is not below its floor: a release that asks
for a least version to upgrade from is such a rung. A climb steps up from rung to rung until it is
at the target.

- `Rung`, `CanStep`, `Climbs`: the rungs, one step, and a whole climb
- `Climbs.from_higher`: who starts higher needs no more steps
- `Climbs.exists_step`: who is below the target and can get there has a step
- `Best`: the highest rung that can be stepped on
- `Best.rest`: after a best step the rest of the climb is no longer than before

So taking the best rung each time is a shortest climb: each of its places is at least as high as
that of any other climb after as many steps. It also gets there whenever any climb does, so a
planner that finds no best step may say that there is no way.

The places may be any linear order. Rungs need not be sorted, and two may stand at one height.
-/

set_option autoImplicit false

namespace Ladder

variable {κ : Type} [LinearOrder κ]

/-- A rung, and how low one may be to step on it: any place, if there is no floor. -/
structure Rung (κ : Type) where
  place : κ
  floor : Option κ

/-- A rung can be stepped on. -/
def CanStep (rungs : List (Rung κ)) (cur v : κ) : Prop :=
  cur < v ∧ ∃ r ∈ rungs, r.place = v ∧ ∀ f ∈ r.floor, f ≤ cur

/-- The steps from a place to the target. -/
def Climbs (rungs : List (Rung κ)) (target : κ) : κ → List κ → Prop
  | cur, [] => cur = target
  | cur, v :: vs => CanStep rungs cur v ∧ Climbs rungs target v vs

/-- The highest rung not above the target that can be stepped on. -/
structure Best (rungs : List (Rung κ)) (target cur v : κ) : Prop where
  can : CanStep rungs cur v
  below : v ≤ target
  top : ∀ w, CanStep rungs cur w → w ≤ target → w ≤ v

variable {rungs : List (Rung κ)} {target cur cur' v : κ} {vs : List κ}

/-- A climb never passes its target. -/
theorem Climbs.le_target (h : Climbs rungs target cur vs) : cur ≤ target := by
  induction vs generalizing cur with
  | nil => exact le_of_eq h
  | cons v vs ih => exact h.1.1.le.trans (ih h.2)

/-- A rung above both places can be stepped on from the higher one as well. -/
theorem CanStep.from_higher (h : CanStep rungs cur v) (hle : cur ≤ cur') (hlt : cur' < v) :
    CanStep rungs cur' v := by
  obtain ⟨-, r, hr, hplace, hfloor⟩ := h
  exact ⟨hlt, r, hr, hplace, fun f hf => (hfloor f hf).trans hle⟩

/-- Who starts higher needs no more steps. A step that the lower start takes is either below the
higher one, and can be left out, or can be taken from there, since a floor that the lower one
meets the higher one meets as well. -/
theorem Climbs.from_higher (h : Climbs rungs target cur vs) (hle : cur ≤ cur')
    (htarget : cur' ≤ target) :
    ∃ ws, Climbs rungs target cur' ws ∧ ws.length ≤ vs.length := by
  induction vs generalizing cur with
  | nil => exact ⟨[], le_antisymm htarget (h ▸ hle), le_rfl⟩
  | cons v vs ih =>
    obtain ⟨hstep, hrest⟩ := h
    rcases le_or_gt v cur' with hv | hv
    · obtain ⟨ws, hws, hlen⟩ := ih hrest hv
      exact ⟨ws, hws, hlen.trans (Nat.le_succ _)⟩
    · exact ⟨v :: vs, ⟨hstep.from_higher hle hv, hrest⟩, le_rfl⟩

/-- Who can get to the target and is not there has a step. -/
theorem Climbs.exists_step (h : Climbs rungs target cur vs) (hlt : cur < target) :
    ∃ v, CanStep rungs cur v ∧ v ≤ target := by
  cases vs with
  | nil => exact absurd h hlt.ne
  | cons v vs => exact ⟨v, h.1, h.2.le_target⟩

/-- After a best step a climb is at least one step shorter than before it. The rung of the other
climb is not above the best one, so `Climbs.from_higher` applies. -/
theorem Best.rest (hbest : Best rungs target cur v) (h : Climbs rungs target cur vs) :
    ∃ ws, Climbs rungs target v ws ∧ ws.length + 1 ≤ vs.length := by
  cases vs with
  | nil => exact absurd h (hbest.can.1.trans_le hbest.below).ne
  | cons w vs =>
    obtain ⟨hstep, hrest⟩ := h
    obtain ⟨ws, hws, hlen⟩ := hrest.from_higher (hbest.top w hstep hrest.le_target) hbest.below
    exact ⟨ws, hws, Nat.succ_le_succ hlen⟩

end Ladder
