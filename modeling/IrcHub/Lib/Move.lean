import IrcHub.Lib.Lww

/-!
# `IrcHub.Lib.Move`: rows that go to another key

A table of registers, one row per key, in which the rows of some keys go over to another key: two
entries turn out to be one, and what was noted under the old key is noted under the new one. One
pass looks at every row once. A row that goes takes the new key if no row has it, or is joined
into the row that has it, and its own row is then left behind under a key nobody reads.

- `MoveStep`: what one look at a row may do. It is a relation, so a program that leaves a row
  behind and one that takes it out are both covered
- `MoveStep.waiting`: rows that are still to go are not touched before their turn
- `MoveStep.view`: what one look does to the registers that are not on the move
- `moveRun_take`: the two together, after the first looks of a pass
- `view_moveRun`: a pass joins the register of the old key into that of the new one
- `view_moveRun_of_none`: and leaves a register that nothing moves to alone

No row may move to a key that is itself on the move (`hmv`). Where it may, the result depends on
the order of the rows.
-/

set_option autoImplicit false

namespace Lww

section Move

variable {ρ κ R : Type} [DecidableEq κ] [SemilatticeSup R] (key : ρ → κ) (rank : ρ → R)
variable (sel : κ → Prop) (mv : κ → κ)

/-- What the look at row `i` makes of the rows. A row whose key is in `sel` goes to the key `mv`
names. -/
inductive MoveStep (rows : List ρ) (i : Nat) : List ρ → Prop
  | stay (h : ∀ r, rows[i]? = some r → ¬ sel (key r)) : MoveStep rows i rows
  | rename (r r' : ρ) (hget : rows[i]? = some r) (hsel : sel (key r))
      (hnone : rows.findIdx? (fun x => decide (key x = mv (key r))) = none)
      (hkey : key r' = mv (key r)) (hrank : rank r' = rank r) : MoveStep rows i (rows.set i r')
  | absorb (r a a' : ρ) (d : Nat) (hget : rows[i]? = some r) (hsel : sel (key r))
      (hfind : rows.findIdx? (fun x => decide (key x = mv (key r))) = some d)
      (hdst : rows[d]? = some a) (hkey : key a' = mv (key r))
      (hrank : rank a' = rank a ⊔ rank r) :
      MoveStep rows i (rows.set d a')

variable {key rank sel mv} {rows rows' : List ρ} {i : Nat}

/-- A row that is still to go is not touched before its turn. A look at row `i` writes that row
and the one of the new key, which is not on the move by `hmv`. -/
theorem MoveStep.waiting (h : MoveStep key rank sel mv rows i rows') (hmv : ∀ k, ¬ sel (mv k))
    {j : Nat} (hj : i < j) {r : ρ} (hr : sel (key r)) : rows'[j]? = some r
    ↔ rows[j]? = some r := by
  cases h with
  | stay h => exact Iff.rfl
  | rename x x' hget hsel hnone hkey hrank => rw [List.getElem?_set_ne (by omega)]
  | absorb x a a' d hget hsel hfind hdst hkey hrank =>
    by_cases hd : d = j
    · -- the row that absorbs has a key that does not move, before and after
      subst hd
      have hlt : d < rows.length := (List.getElem?_eq_some_iff.mp hdst).1
      have hold := List.find?_some (Table.find?_of_findIdx? hfind hdst)
      rw [List.getElem?_set_self hlt, hdst, Option.some.injEq, Option.some.injEq]
      constructor
      · rintro rfl
        exact absurd (hkey ▸ hr) (hmv _)
      · rintro rfl
        exact absurd (of_decide_eq_true hold ▸ hr) (hmv _)
    · rw [List.getElem?_set_ne hd]

/-- A key that does not move has what it had, joined with what came to it. The bound `b` states
the join without the assumption that the two rows can be compared by anything but their rank. -/
theorem MoveStep.view (h : MoveStep key rank sel mv rows i rows') {k : κ} (hk : ¬ sel k)
    (b : WithBot R) :
    rowView key rank rows' k ≤ b ↔ rowView key rank rows k ≤ b
      ∧ ∀ r, rows[i]? = some r → sel (key r) → mv (key r) = k → rank r ≤ b := by
  cases h with
  | stay h =>
    exact ⟨fun hle => ⟨hle, fun r hr hsel _ => absurd hsel (h r hr)⟩, fun hle => hle.1⟩
  | rename r r' hget hsel hnone hkey hrank =>
    have hold : decide (key r = k) = false := decide_eq_false fun heq => hk (heq ▸ hsel)
    by_cases hto : mv (key r) = k
    · subst hto
      have hfree : rowView key rank rows (mv (key r)) = ⊥ := by
        refine rowView_of_find_none ?_
        simpa using hnone
      have hnew : (rows.set i r').find? (fun x => decide (key x = mv (key r))) = some r' := by
        have hlt : i < rows.length := (List.getElem?_eq_some_iff.mp hget).1
        rw [List.find?_eq_some_iff_getElem]
        refine ⟨decide_eq_true hkey, i, by simpa using hlt, by simp, fun j hj => ?_⟩
        have hother := List.findIdx?_eq_none_iff.mp hnone rows[j] (List.getElem_mem _)
        rw [List.getElem_set_ne (by omega)]
        simpa using hother
      rw [rowView_of_find hnew, hfree, hrank]
      constructor
      · intro hle
        refine ⟨bot_le, fun x hx _ _ => ?_⟩
        rw [hget] at hx
        cases hx
        exact hle
      · exact fun hle => hle.2 r hget hsel rfl
    · have hnew : decide (key r' = k) = false := decide_eq_false fun heq => hto (hkey ▸ heq)
      rw [rowView, Table.find?_set_of_false (p := fun x => decide (key x = k)) hget hold hnew,
        ← rowView]
      refine ⟨fun hle => ⟨hle, fun x hx _ heq => ?_⟩, fun hle => hle.1⟩
      rw [hget] at hx
      cases hx
      exact absurd heq hto
  | absorb r a a' d hget hsel hfind hdst hkey hrank =>
    rw [rowView_set hkey hfind hdst hrank, Pi.sup_apply, sup_le_iff, single]
    refine and_congr_right fun _ => ⟨fun hle x hx _ heq => ?_, fun hle => ?_⟩
    · rw [hget] at hx
      cases hx
      rwa [if_pos heq.symm] at hle
    · split
      · rename_i heq
        exact hle r hget hsel heq.symm
      · exact bot_le

/-- The register of a key in a table with one row per key is the rank of that row. -/
theorem rowView_le_iff (hkeyed : rows.Pairwise fun a a' => key a ≠ key a') {k : κ}
    {b : WithBot R} :
    rowView key rank rows k ≤ b ↔ ∀ r ∈ rows, key r = k → rank r ≤ b := by
  induction rows with
  | nil => exact ⟨fun _ r hr => (List.not_mem_nil hr).elim, fun _ => bot_le⟩
  | cons r rows ih =>
    obtain ⟨hhead, htail⟩ := List.pairwise_cons.mp hkeyed
    rw [List.forall_mem_cons]
    by_cases hr : key r = k
    · have hview : rowView key rank (r :: rows) k = rank r :=
        rowView_of_find (List.find?_cons_of_pos (decide_eq_true hr))
      rw [hview]
      exact ⟨fun hle => ⟨fun _ => hle, fun x hx heq => absurd (hr.trans heq.symm) (hhead x hx)⟩,
        fun hle => hle.1 hr⟩
    · have hview : rowView key rank (r :: rows) k = rowView key rank rows k := by
        rw [rowView, List.find?_cons_of_neg (by simpa using hr), ← rowView]
      rw [hview, ih htail]
      exact ⟨fun hle => ⟨fun heq => absurd heq hr, hle⟩, fun hle => hle.2⟩

variable {S : Type} {tab : S → List ρ} {step : S → Nat → S}

/-- After the first `n` looks: what waits is as it was, and the other keys have what came so far.
The induction is on `n`; `MoveStep.waiting` gives the first half and `MoveStep.view` the second,
which needs the first for the row it looks at. -/
private theorem moveRun_take (hmv : ∀ k, ¬ sel (mv k))
    (hstep : ∀ s i, MoveStep key rank sel mv (tab s) i (tab (step s i))) (s : S) (n : Nat) :
    (∀ j, n ≤ j → ∀ r, sel (key r) →
        ((tab ((List.range n).foldl step s))[j]? = some r ↔ (tab s)[j]? = some r))
      ∧ ∀ k, ¬ sel k → ∀ b, rowView key rank (tab ((List.range n).foldl step s)) k ≤ b ↔
        rowView key rank (tab s) k ≤ b ∧ ∀ j, j < n → ∀ r, (tab s)[j]? = some r → sel (key r) →
          mv (key r) = k → rank r ≤ b := by
  induction n with
  | zero =>
    refine ⟨fun _ _ _ _ => Iff.rfl, fun k _ b => ?_⟩
    exact ⟨fun hle => ⟨hle, fun j hj => absurd hj (Nat.not_lt_zero j)⟩, fun hle => hle.1⟩
  | succ n ih =>
    obtain ⟨hwait, hview⟩ := ih
    rw [List.range_succ, List.foldl_append, List.foldl_cons, List.foldl_nil]
    have hlook := hstep ((List.range n).foldl step s) n
    refine ⟨fun j hj r hr => ?_, fun k hk b => ?_⟩
    · rw [hlook.waiting hmv (by omega) hr]
      exact hwait j (by omega) r hr
    · rw [hlook.view hk b, hview k hk b, and_assoc]
      refine and_congr_right fun _ => ⟨fun h j hj r hr hsel heq => ?_, fun h => ⟨?_, ?_⟩⟩
      · rcases Nat.lt_succ_iff_lt_or_eq.mp hj with hlt | rfl
        · exact h.1 j hlt r hr hsel heq
        · exact h.2 r ((hwait j le_rfl r hsel).mpr hr) hsel heq
      · exact fun j hj => h j (by omega)
      · intro r hr hsel heq
        exact h n (by omega) r ((hwait n le_rfl r hsel).mp hr) hsel heq

/-- A pass over a table with one row per key joins the register of `k₀` into that of `k`, if `k₀`
is the key that goes to `k`. -/
theorem view_moveRun (hmv : ∀ k, ¬ sel (mv k))
    (hstep : ∀ s i, MoveStep key rank sel mv (tab s) i (tab (step s i))) {s : S}
    (hkeyed : (tab s).Pairwise fun a a' => key a ≠ key a') {k k₀ : κ} (hk : ¬ sel k)
    (hfrom : ∀ k', sel k' ∧ mv k' = k ↔ k' = k₀) :
    rowView key rank (tab ((List.range (tab s).length).foldl step s)) k
      = rowView key rank (tab s) k ⊔ rowView key rank (tab s) k₀ := by
  refine eq_of_forall_ge_iff fun b => ?_
  rw [(moveRun_take hmv hstep s _).2 k hk b, sup_le_iff, rowView_le_iff (k := k₀) hkeyed]
  refine and_congr_right fun _ => ⟨fun h r hr heq => ?_, fun h j hj r hr hsel heq => ?_⟩
  · obtain ⟨j, hj, hget⟩ := List.getElem_of_mem hr
    have hmove := (hfrom (key r)).mpr heq
    exact h j hj r (List.getElem?_eq_some_iff.mpr ⟨hj, hget⟩) hmove.1 hmove.2
  · exact h r (List.mem_of_getElem? hr) ((hfrom (key r)).mp ⟨hsel, heq⟩)

/-- The same pass leaves every key alone that nothing goes to. -/
theorem view_moveRun_of_none (hmv : ∀ k, ¬ sel (mv k))
    (hstep : ∀ s i, MoveStep key rank sel mv (tab s) i (tab (step s i))) {s : S} {k : κ}
    (hk : ¬ sel k) (hfrom : ∀ k', sel k' → mv k' ≠ k) (n : Nat) :
    rowView key rank (tab ((List.range n).foldl step s)) k = rowView key rank (tab s) k := by
  refine eq_of_forall_ge_iff fun b => ?_
  rw [(moveRun_take hmv hstep s n).2 k hk b]
  exact ⟨fun h => h.1, fun h => ⟨h, fun j _ r _ hsel heq => absurd heq (hfrom _ hsel)⟩⟩

end Move

end Lww
