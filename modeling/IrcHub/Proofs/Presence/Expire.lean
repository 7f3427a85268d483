import IrcHub.Hub.Presence

/-!
# `IrcHub.Proofs.Presence.Expire`: what nobody refreshes ages out

The roster is expired in place: the last row moves into the place of one that is dropped, and that
place is looked at again.

* `take_swapRemove`, `drop_swapRemove`: what a removal does before its place and from it on
* `expireRows_perm`: what is left from any place on, by induction on the looks that remain
* `rosterExpire_exact`: so no stale row escapes the walk, no fresh one is lost, and a second walk
  finds nothing

The order of the rows is lost by a swap, so the result is up to a permutation. The hubs of the
mesh map are filtered, and keep theirs.
-/

set_option autoImplicit false

namespace IrcHub.Proofs

open IrcHub.Hub

variable {now : Int} {rows : List BotRoster}

/-- A row somebody refreshed within the TTL. -/
def RowFresh (now : Int) (e : BotRoster) : Prop := now - e.reportedAt ≤ botRosterTtl

instance (now : Int) : DecidablePred (RowFresh now) :=
  fun _ => inferInstanceAs (Decidable (_ ≤ _))

/-- The rows in front of a place that is dropped stay where they are. -/
theorem take_swapRemove {i : Nat} (hi : i < rows.length) :
    (Table.swapRemove rows i).take i = rows.take i := by
  obtain ⟨x, hx⟩ : ∃ x, rows.getLast? = some x :=
    ⟨_, List.getLast?_eq_some_getLast (List.ne_nil_of_length_pos (by omega))⟩
  unfold Table.swapRemove
  rw [hx]
  show (rows.set i x).dropLast.take i = _
  rw [List.dropLast_eq_take, List.take_take, List.length_set, Nat.min_eq_left (by omega),
    List.take_set_of_le (Nat.le_refl i)]

/-- The rows behind it are those that were behind it, in another order. -/
theorem drop_swapRemove {i : Nat} (hi : i < rows.length) :
    ((Table.swapRemove rows i).drop i).Perm (rows.drop (i + 1)) := by
  have hperm := Table.swapRemove_perm rows hi
  rw [List.eraseIdx_eq_take_drop_succ, ← List.take_append_drop i (Table.swapRemove rows i),
    take_swapRemove hi] at hperm
  exact (List.perm_append_left_iff _).mp hperm

/-- Behind the end there is nothing to drop. -/
theorem perm_of_length_le {i : Nat} (h : rows.length ≤ i) :
    rows.Perm (rows.take i ++ (rows.drop i).filter fun e => decide (RowFresh now e)) := by
  rw [List.take_of_length_le h, List.drop_eq_nil_of_le h, List.filter_nil, List.append_nil]

/-- A walk from a place on keeps the rows before it and the fresh ones from it on. The fuel is the
number of looks, which is one for each row from the place on. -/
theorem expireRows_perm (fuel i : Nat) (hfuel : rows.length ≤ fuel + i) :
    (expireRows now fuel i rows).Perm (rows.take i ++ (rows.drop i).filter fun e =>
    decide (RowFresh now e)) := by
  induction fuel generalizing i rows with
  | zero =>
    rw [Nat.zero_add] at hfuel
    exact perm_of_length_le hfuel
  | succ fuel ih =>
    rw [expireRows]
    cases hrow : rows[i]? with
    | none => exact perm_of_length_le (List.getElem?_eq_none_iff.mp hrow)
    | some e =>
      obtain ⟨hi, rfl⟩ := List.getElem?_eq_some_iff.mp hrow
      dsimp only
      rw [List.drop_eq_getElem_cons hi]
      by_cases hfresh : RowFresh now rows[i]
      · -- a fresh row is walked past
        have hstay : ¬now - rows[i].reportedAt > botRosterTtl := Int.not_lt.mpr hfresh
        have hnext := @ih rows (i + 1) (by omega)
        have hkeep : decide (RowFresh now rows[i]) = true := decide_eq_true hfresh
        rw [if_neg hstay, List.filter_cons, if_pos hkeep]
        rwa [List.take_succ_eq_append_getElem hi, List.append_assoc, List.singleton_append]
          at hnext
      · -- the last row takes the place of a stale one
        have hgo : now - rows[i].reportedAt > botRosterTtl := Int.not_le.mp hfresh
        have hlen := Table.length_swapRemove rows i
        have hnext := @ih (Table.swapRemove rows i) i (by omega)
        have hdrop : ¬decide (RowFresh now rows[i]) = true :=
          fun h => hfresh (of_decide_eq_true h)
        rw [if_pos hgo, List.filter_cons, if_neg hdrop]
        rw [take_swapRemove hi] at hnext
        exact hnext.trans (((drop_swapRemove hi).filter _).append_left _)

/-- A walk over fresh rows changes nothing. -/
theorem expireRows_fresh (fuel i : Nat) (h : ∀ e ∈ rows, RowFresh now e) :
    expireRows now fuel i rows = rows := by
  induction fuel generalizing i with
  | zero => rfl
  | succ fuel ih =>
    rw [expireRows]
    cases hrow : rows[i]? with
    | none => rfl
    | some e =>
      have hfresh := h e (List.mem_of_getElem? hrow)
      dsimp only
      rw [if_neg (Int.not_lt.mpr hfresh)]
      exact ih (i + 1)

/-- Expiring leaves the fresh rows of the roster, in some order, and the fresh hubs of the mesh
map, in theirs. With the same clock or an earlier one it then finds nothing. -/
theorem rosterExpire_exact (now : Int) (s : Presence) :
    (rosterExpire now s).roster.Perm (s.roster.filter fun e => decide (RowFresh now e))
      ∧ (∀ h, h ∈ (rosterExpire now s).meshHubs ↔ h ∈ s.meshHubs
      ∧ now - h.reportedAt ≤ botRosterTtl)
      ∧ (rosterExpire now s).meshHubs.Sublist s.meshHubs
      ∧ ∀ t ≤ now, rosterExpire t (rosterExpire now s) = rosterExpire now s := by
  have hperm : (rosterExpire now s).roster.Perm
    (s.roster.filter fun e => decide (RowFresh now e)) := by
    have hwalk := @expireRows_perm now s.roster s.roster.length 0 (Nat.le_refl _)
    rwa [List.take_zero, List.nil_append, List.drop_zero] at hwalk
  have hhubs : ∀ h, h ∈ (rosterExpire now s).meshHubs ↔ h ∈ s.meshHubs
    ∧ now - h.reportedAt ≤ botRosterTtl := by
    intro h
    show h ∈ s.meshHubs.filter _ ↔ _
    rw [List.mem_filter, decide_eq_true_eq]
  refine ⟨hperm, hhubs, List.filter_sublist, fun t ht => ?_⟩
  have hrows : ∀ e ∈ (rosterExpire now s).roster, RowFresh t e := by
    intro e he
    have hfresh := of_decide_eq_true (List.mem_filter.mp (hperm.mem_iff.mp he)).2
    unfold RowFresh at hfresh ⊢
    omega
  have hkept : ∀ h ∈ (rosterExpire now s).meshHubs, decide (t - h.reportedAt ≤ botRosterTtl)
    = true := by
    intro h hh
    have hfresh := ((hhubs h).mp hh).2
    rw [decide_eq_true_eq]
    omega
  rw [rosterExpire, expireRows_fresh _ _ hrows, List.filter_eq_self.mpr hkept]

end IrcHub.Proofs
