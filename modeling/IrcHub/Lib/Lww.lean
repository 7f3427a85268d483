import IrcHub.Lib.Table
import Mathlib.Data.List.Induction
import Mathlib.Order.Lattice
import Mathlib.Data.Prod.Lex
import Mathlib.Order.WithBot
import Mathlib.Order.Bounds.Basic

/-!
# `IrcHub.Lib.Lww`: last-writer-wins as a join

A replica that keeps the greatest record it was offered computes a join, and a join does not
depend on the order or the number of offers. The module states this for an arbitrary
join-semilattice and for a concrete machine that simulates one:

- `joinAll`: everything offered, joined into the start. `joinAll_congr`: it depends on the set of
  offers only
- `Along`: a condition holds at every step of a run, `AlongM` of one that may stop
- `view_run`: if one step of a machine joins the offer into its view, so does a run
- `view_run_congr`: two runs over the same offers end in the same view
- `view_runM`, `inv_runM`: the same for a machine that a step may stop

The view is a function of the state and need not determine it. A machine that keeps rows in the
order they came converges in its view while its states differ. The condition along the run is what
the machine needs for one step to be a join, such as room for a new row.

`single` is the view of one register among many, each register ordered by rank; what a run leaves
in it is the greatest write (`joinAll_single_eq_coe_iff`). `rowView` is the view of a table with
one row per key.

A register that breaks no ties is not a join: of two writes of one rank it keeps the first. `keep`
is such a register and `keepWith` one with a part that a write may leave alone. They converge
where no two different writes tie for the greatest (`foldl_keep_congr`, `foldl_keepWith_congr`);
ties below it do no harm. Of a list `keep` leaves the first of the greatest (`FirstMax`). `opened`
is a register that comes into being with its first write.
-/

set_option autoImplicit false

namespace Lww

/-! ### Joins -/

section Join

variable {α σ : Type} [SemilatticeSup σ]

/-- Everything offered, joined into the start. -/
def joinAll (f : α → σ) (s : σ) (l : List α) : σ := l.foldl (fun a x => a ⊔ f x) s

/-- A fold of joins is the least upper bound of where it starts and of all that it joins. -/
theorem joinAll_le_iff {f : α → σ} {s b : σ} {l : List α} :
    joinAll f s l ≤ b ↔ s ≤ b ∧ ∀ x ∈ l, f x ≤ b := by
  induction l generalizing s with
  | nil => simp [joinAll]
  | cons x l ih =>
    show joinAll f (s ⊔ f x) l ≤ b ↔ _
    rw [ih, sup_le_iff, List.forall_mem_cons, and_assoc]

/-- The start is joined in like an offer. -/
theorem joinAll_eq_sup [OrderBot σ] (f : α → σ) (s : σ) (l : List α) :
    joinAll f s l = s ⊔ joinAll f ⊥ l := by
  refine eq_of_forall_ge_iff fun b => ?_
  rw [sup_le_iff, joinAll_le_iff, joinAll_le_iff]
  simp

/-- Two batches joined one after the other. -/
theorem joinAll_append (f : α → σ) (s : σ) (l l' : List α) :
    joinAll f s (l ++ l') = joinAll f (joinAll f s l) l' := by
  rw [joinAll, List.foldl_append]
  rfl

/-- A fold of joins depends on the set of offers only. The two lists may differ in order and in
how often each offer comes, and even in their elements, as long as what these offer is the
same. -/
theorem joinAll_congr {f : α → σ} {s : σ} {l l' : List α}
    (h : ∀ y, (∃ x ∈ l, f x = y) ↔ ∃ x ∈ l', f x = y) : joinAll f s l = joinAll f s l' := by
  refine eq_of_forall_ge_iff fun b => ?_
  rw [joinAll_le_iff, joinAll_le_iff]
  refine and_congr_right fun _ => ⟨fun hle x hx => ?_, fun hle x hx => ?_⟩
  · obtain ⟨x', hx', heq⟩ := (h (f x)).mpr ⟨x, hx, rfl⟩
    rw [← heq]
    exact hle x' hx'
  · obtain ⟨x', hx', heq⟩ := (h (f x)).mp ⟨x, hx, rfl⟩
    rw [← heq]
    exact hle x' hx'

end Join

/-! ### Machines whose view is a join -/

section Machine

variable {α σ S : Type} [SemilatticeSup σ]

/-- `ok` holds at every step of a run. -/
def Along (ok : S → α → Prop) (step : S → α → S) : S → List α → Prop
  | _, [] => True
  | s, x :: l => ok s x ∧ Along ok step (step s x) l

/-- A condition along a run holds along its beginnings. -/
theorem Along.take {ok : S → α → Prop} {step : S → α → S} {s : S} {l : List α}
    (h : Along ok step s l) (n : Nat) : Along ok step s (l.take n) := by
  induction l generalizing s n with
  | nil => simpa using h
  | cons x l ih =>
    cases n with
    | zero => trivial
    | succ n => exact ⟨h.1, ih h.2 n⟩

variable {ok : S → α → Prop} {step : S → α → S} {Inv : S → Prop} {view : S → σ} {f : α → σ}

/-- If one step of a machine joins the offer into its view, so does a run of it. The condition
along the run is what a step needs for that. -/
theorem view_run (hinv : ∀ s x, Inv s → ok s x → Inv (step s x))
    (hview : ∀ s x, Inv s → ok s x → view (step s x) = view s ⊔ f x) {s : S} (hs : Inv s)
    {l : List α} (hl : Along ok step s l) : view (l.foldl step s) = joinAll f (view s) l := by
  induction l generalizing s with
  | nil => rfl
  | cons x l ih =>
    obtain ⟨hx, hrest⟩ := hl
    rw [List.foldl_cons, ih (hinv s x hs hx) hrest, hview s x hs hx]
    rfl

/-- Two runs over the same offers end in the same view, whatever the order and the repetitions. -/
theorem view_run_congr (hinv : ∀ s x, Inv s → ok s x → Inv (step s x))
    (hview : ∀ s x, Inv s → ok s x → view (step s x) = view s ⊔ f x) {s : S} (hs : Inv s)
    {l l' : List α} (hl : Along ok step s l) (hl' : Along ok step s l')
    (h : ∀ y, (∃ x ∈ l, f x = y) ↔ ∃ x ∈ l', f x = y) :
    view (l.foldl step s) = view (l'.foldl step s) := by
  rw [view_run hinv hview hs hl, view_run hinv hview hs hl', joinAll_congr h]

/-- A property kept by every step that is `ok` holds at the end of a run. -/
theorem inv_run (hinv : ∀ s x, Inv s → ok s x → Inv (step s x)) {s : S} (hs : Inv s)
    {l : List α} (hl : Along ok step s l) : Inv (l.foldl step s) := by
  induction l generalizing s with
  | nil => exact hs
  | cons x l ih => exact ih (hinv s x hs hl.1) hl.2

/-- If a step keeps `G` exactly when it is `ok`, then `G` holds all along a run exactly when every
step of the run is `ok`. `I` is what such steps keep besides, and what `hgood` may use. It turns
an exact condition on one step into an exact condition on runs. -/
theorem forall_take_iff_along {I G : S → Prop}
    (hinv : ∀ s x, I s → G s → ok s x → I (step s x))
    (hgood : ∀ s x, I s → G s → (G (step s x) ↔ ok s x)) {s : S} (hs : I s) (hg : G s)
    (l : List α) : (∀ n, G ((l.take n).foldl step s)) ↔ Along ok step s l := by
  induction l generalizing s with
  | nil => exact ⟨fun _ => trivial, fun _ n => by simpa using hg⟩
  | cons x l ih =>
    constructor
    · intro h
      have hx : G (step s x) := h 1
      have hok := (hgood s x hs hg).mp hx
      exact ⟨hok, (ih (hinv s x hs hg hok) hx).mp fun n => h (n + 1)⟩
    · rintro ⟨hok, hl⟩ n
      cases n with
      | zero => exact hg
      | succ n => exact (ih (hinv s x hs hg hok) ((hgood s x hs hg).mpr hok)).mpr hl n

end Machine

/-! ### Registers -/

/-- The view of one register: `r` at `k`, nothing elsewhere. -/
def single {κ R : Type} [DecidableEq κ] (k : κ) (r : R) : κ → WithBot R :=
  fun k' => if k' = k then r else ⊥

section Single

variable {α κ R : Type} [DecidableEq κ] [LinearOrder R]

/-- A register that writes were joined into holds the greatest of its start and its own writes. It
is stated as `IsGreatest`, so it says both that the value was written and that nothing written
beats it. The induction is on the writes from the left. -/
theorem joinAll_single_eq_coe_iff (key : α → κ) (rank : α → R) (v : κ → WithBot R) (l : List α)
    (p : κ) (r : R) :
    joinAll (fun x => single (key x) (rank x)) v l p = r ↔
      IsGreatest { r' : R | v p = r' ∨ ∃ x ∈ l, key x = p ∧ rank x = r' } r := by
  induction l generalizing v with
  | nil =>
    simp only [List.not_mem_nil, false_and, exists_false, or_false]
    constructor
    · intro h
      refine ⟨h, fun r' hr' => ?_⟩
      have heq : (r : WithBot R) = r' := h.symm.trans hr'
      exact (WithBot.coe_inj.mp heq).ge
    · exact fun h => h.1
  | cons x l ih =>
    show joinAll (fun x => single (key x) (rank x)) (v ⊔ single (key x) (rank x)) l p = r ↔ _
    rw [ih, Pi.sup_apply, single]
    -- a write of this register
    by_cases hp : p = key x
    · subst hp
      rw [if_pos rfl]
      cases hv : v (key x) with
      | bot => simp [eq_comm]
      | coe r0 =>
        -- the register holds `r0`: joining keeps the greater of the two
        rw [← WithBot.coe_sup]
        simp only [WithBot.coe_inj, List.mem_cons, exists_eq_or_imp, true_and]
        constructor
        · rintro ⟨hmem, hup⟩
          have hle : r0 ⊔ rank x ≤ r := hup (.inl rfl)
          refine ⟨?_, ?_⟩
          · rcases hmem with rfl | hmem
            · rcases le_total r0 (rank x) with h | h
              · exact .inr (.inl (sup_eq_right.mpr h).symm)
              · exact .inl (sup_eq_left.mpr h).symm
            · exact .inr (.inr hmem)
          · rintro r' (rfl | rfl | hr')
            · exact le_sup_left.trans hle
            · exact le_sup_right.trans hle
            · exact hup (.inr hr')
        · rintro ⟨hmem, hup⟩
          have hle : r0 ⊔ rank x ≤ r := sup_le (hup (.inl rfl)) (hup (.inr (.inl rfl)))
          refine ⟨?_, ?_⟩
          · rcases hmem with rfl | rfl | hmem
            · exact .inl (le_antisymm hle le_sup_left)
            · exact .inl (le_antisymm hle le_sup_right)
            · exact .inr hmem
          · rintro r' (rfl | hr')
            · exact hle
            · exact hup (.inr (.inr hr'))
    -- a write of another one
    · have hx : ¬ key x = p := fun h => hp h.symm
      rw [if_neg hp, sup_bot_eq]
      simp only [List.mem_cons, exists_eq_or_imp, hx, false_and, false_or]

end Single

section Rows

variable {ρ κ R : Type} [DecidableEq κ] (key : ρ → κ) (rank : ρ → R)

/-- The registers of a table: the first row of each key. -/
def rowView (rows : List ρ) : κ → WithBot R := fun k =>
  match rows.find? fun r => decide (key r = k) with
  | some r => rank r
  | none => ⊥

variable {key rank} {rows : List ρ}

/-- The view of a key is the rank of its row. -/
theorem rowView_of_find {r : ρ} {k : κ} (h : rows.find? (fun r => decide (key r = k)) = some r) :
    rowView key rank rows k = rank r := by
  rw [rowView, h]

/-- A key without a row is seen as the least rank. -/
theorem rowView_of_find_none {k : κ} (h : rows.find? (fun r => decide (key r = k)) = none) :
    rowView key rank rows k = ⊥ := by
  rw [rowView, h]

/-- Tables with the same registers hold the same rows, as far as the rank decides them. `hface`
says how far that is: what is read off a row is the same for two rows of one rank. -/
theorem find_map_congr {φ : Type} {face : ρ → φ}
    (hface : ∀ r r', rank r = rank r' → face r = face r') {rows' : List ρ}
    (h : rowView key rank rows = rowView key rank rows') (k : κ) :
    (rows.find? fun r => decide (key r = k)).map face
      = (rows'.find? fun r => decide (key r = k)).map face := by
  have hk := congrFun h k
  unfold rowView at hk
  cases hr : rows.find? (fun r => decide (key r = k)) with
  | none =>
    cases hr' : rows'.find? (fun r => decide (key r = k)) with
    | none => rfl
    | some r =>
      rw [hr, hr'] at hk
      cases hk
  | some r =>
    cases hr' : rows'.find? (fun r => decide (key r = k)) with
    | none =>
      rw [hr, hr'] at hk
      cases hk
    | some r' =>
      rw [hr, hr'] at hk
      exact congrArg some (hface r r' (WithBot.coe_inj.mp hk))

variable [SemilatticeSup R]

/-- A row of a new key is joined in at the end of the table. -/
theorem rowView_append {r : ρ} {k : κ} (hk : key r = k)
    (hnone : rows.findIdx? (fun r => decide (key r = k)) = none) :
    rowView key rank (rows ++ [r]) = rowView key rank rows ⊔ single k (rank r) := by
  have hnone' : rows.find? (fun r => decide (key r = k)) = none := by simpa using hnone
  funext k'
  rw [Pi.sup_apply, single]
  by_cases h : k' = k
  · rw [if_pos h, h, rowView_of_find_none hnone', bot_sup_eq]
    exact rowView_of_find (Table.find?_append_of_none hnone' (decide_eq_true hk))
  · have hfalse : decide (key r = k') = false := decide_eq_false fun heq => h (heq.symm.trans hk)
    have hfind := Table.find?_append_of_false (l := rows)
      (p := fun r => decide (key r = k')) hfalse
    rw [if_neg h, sup_bot_eq, rowView, hfind, rowView]

variable {i : Nat} {a : ρ} {k : κ} {r : R}

/-- A rewrite of a row by its join with `r` is joined into the view. `hfind` says that the row is
the first of its key, so it is the one the view shows. -/
theorem rowView_set {a' : ρ} (hk : key a' = k)
    (hfind : rows.findIdx? (fun r => decide (key r = k)) = some i) (hget : rows[i]? = some a)
    (hjoin : rank a' = rank a ⊔ r) :
    rowView key rank (rows.set i a') = rowView key rank rows ⊔ single k r := by
  funext k'
  rw [Pi.sup_apply, single]
  have hold := Table.find?_of_findIdx? hfind hget
  by_cases h : k' = k
  · rw [if_pos h, h, rowView_of_find hold, ← WithBot.coe_sup, ← hjoin]
    exact rowView_of_find (Table.find?_set_of_findIdx? hfind (decide_eq_true hk))
  · have ha : decide (key a = k') = false := by
      have hka := List.find?_some hold
      exact decide_eq_false fun heq => h (heq.symm.trans (of_decide_eq_true hka))
    have ha' : decide (key a' = k') = false := decide_eq_false fun heq => h (heq.symm.trans hk)
    have hsame := Table.find?_set_of_false (p := fun r => decide (key r = k')) hget ha ha'
    rw [if_neg h, sup_bot_eq, rowView, hsame, rowView]

/-- A rank that the row covers is already in. -/
theorem rowView_sup_of_le
    (hfind : rows.findIdx? (fun r => decide (key r = k)) = some i) (hget : rows[i]? = some a)
    (hle : r ≤ rank a) : rowView key rank rows = rowView key rank rows ⊔ single k r := by
  rw [eq_comm, sup_eq_left]
  intro k'
  rw [single]
  split
  · rename_i h
    rw [h, rowView_of_find (Table.find?_of_findIdx? hfind hget), WithBot.coe_le_coe]
    exact hle
  · exact bot_le

/-- The registers of a table with one row per key are the join of its rows. With it a table that
is sent row by row is one run of offers. -/
theorem rowView_eq_joinAll (hnodup : (rows.map key).Nodup) :
    rowView key rank rows = joinAll (fun r => single (key r) (rank r)) ⊥ rows := by
  induction rows using List.reverseRecOn with
  | nil => rfl
  | append_singleton rows r ih =>
    rw [List.map_append, List.nodup_append] at hnodup
    have hnone : rows.findIdx? (fun r' => decide (key r' = key r)) = none := by
      rw [List.findIdx?_eq_none_iff]
      intro r' hr'
      exact decide_eq_false fun heq =>
        hnodup.2.2 (key r') (List.mem_map_of_mem hr') (key r)
          (List.mem_map_of_mem List.mem_cons_self) heq
    rw [rowView_append rfl hnone, ih hnodup.1, joinAll, joinAll, List.foldl_append]
    rfl

end Rows

/-! ### Registers without a tie-break -/

section Keep

variable {φ ρ κ : Type} [LinearOrder ρ] (rank : φ → ρ)

/-- Keep the write of the greater rank, the first one on a tie. -/
def keep (w y : φ) : φ := if rank w < rank y then y else w

/-- What is kept is the start or a greater write, and nothing offered is greater. This holds with
ties as well; they decide only which of the greatest it is. -/
theorem foldl_keep_spec (w : φ) (l : List φ) :
    (l.foldl (keep rank) w = w ∨ l.foldl (keep rank) w ∈ l
    ∧ rank w < rank (l.foldl (keep rank) w))
      ∧ rank w ≤ rank (l.foldl (keep rank) w)
      ∧ ∀ y ∈ l, rank y ≤ rank (l.foldl (keep rank) w) := by
  induction l generalizing w with
  | nil => exact ⟨.inl rfl, le_refl _, fun y hy => (List.not_mem_nil hy).elim⟩
  | cons x l ih =>
    rw [List.foldl_cons]
    obtain ⟨hwin, hge, hall⟩ := ih (keep rank w x)
    have hw : rank w ≤ rank (keep rank w x) ∧ rank x ≤ rank (keep rank w x) := by
      unfold keep
      split
      · rename_i hlt
        exact ⟨hlt.le, le_refl _⟩
      · rename_i hlt
        exact ⟨le_refl _, not_lt.mp hlt⟩
    refine ⟨?_, hw.1.trans hge, ?_⟩
    · rcases hwin with heq | ⟨hmem, hlt⟩
      · rw [heq]
        unfold keep
        split
        · rename_i hlt
          exact .inr ⟨List.mem_cons_self, hlt⟩
        · exact .inl rfl
      · exact .inr ⟨List.mem_cons_of_mem _ hmem, lt_of_le_of_lt hw.1 hlt⟩
    · intro y hy
      rcases List.mem_cons.mp hy with rfl | hy
      · exact hw.2.trans hge
      · exact hall y hy

/-- Two runs over the same writes keep the same one, if no two different writes are the greatest
ones and greater than the start. Ties among smaller writes do no harm, since none of them is
kept. -/
theorem foldl_keep_congr {w : φ} {l l' : List φ} (hsame : ∀ y, y ∈ l ↔ y ∈ l')
    (htie : ∀ x ∈ l, ∀ y ∈ l, rank w < rank x → (∀ z ∈ l, rank z ≤ rank x) →
      rank x = rank y → x = y) :
    l.foldl (keep rank) w = l'.foldl (keep rank) w := by
  obtain ⟨hwin, hge, hall⟩ := foldl_keep_spec rank w l
  obtain ⟨hwin', hge', hall'⟩ := foldl_keep_spec rank w l'
  rcases hwin with heq | ⟨hmem, hlt⟩
  · rcases hwin' with heq' | ⟨hmem', hlt'⟩
    · rw [heq, heq']
    · have hle := hall _ ((hsame _).mpr hmem')
      rw [heq] at hle
      exact absurd hlt' (not_lt.mpr hle)
  · rcases hwin' with heq' | ⟨hmem', hlt'⟩
    · have hle := hall' _ ((hsame _).mp hmem)
      rw [heq'] at hle
      exact absurd hlt (not_lt.mpr hle)
    · have hrank := le_antisymm (hall' _ ((hsame _).mp hmem)) (hall _ ((hsame _).mpr hmem'))
      exact htie _ hmem _ ((hsame _).mpr hmem') hlt hall hrank

/-- The first of the greatest rows of a kind. -/
def FirstMax (own : φ → Prop) (l : List φ) (m : φ) : Prop :=
  ∃ before after, l = before ++ m :: after ∧ own m ∧ (∀ x ∈ before, own x → rank x < rank m)
    ∧ ∀ x ∈ after, own x → rank x ≤ rank m

section FirstMax

variable {rank} {own : φ → Prop} {l : List φ} {m x : φ}

/-- No admitted offer outranks the first of the greatest. -/
theorem FirstMax.le (h : FirstMax rank own l m) (hx : x ∈ l) (hown : own x) :
    rank x ≤ rank m := by
  obtain ⟨before, after, rfl, -, hbefore, hafter⟩ := h
  rcases List.mem_append.mp hx with hx | hx
  · exact (hbefore x hx hown).le
  · rcases List.mem_cons.mp hx with rfl | hx
    · exact le_refl _
    · exact hafter x hx hown

/-- A row of another kind does not count. -/
theorem FirstMax.append_of_not (h : FirstMax rank own l m) (hx : ¬ own x) :
    FirstMax rank own (l ++ [x]) m := by
  obtain ⟨before, after, rfl, hm, hbefore, hafter⟩ := h
  refine ⟨before, after ++ [x], by rw [List.append_assoc]; rfl, hm, hbefore, fun y hy hown => ?_⟩
  rcases List.mem_append.mp hy with hy | hy
  · exact hafter y hy hown
  · exact absurd (List.mem_singleton.mp hy ▸ hown) hx

/-- The first row of a kind is the greatest so far. -/
theorem FirstMax.of_none (hx : own x) (hnone : ∀ y ∈ l, ¬ own y) :
    FirstMax rank own (l ++ [x]) x :=
  ⟨l, [], rfl, hx, fun y hy hown => absurd hown (hnone y hy), fun _ hy =>
   (List.not_mem_nil hy).elim⟩

/-- The next row of a kind takes the place if it is greater. -/
theorem FirstMax.append_keep (h : FirstMax rank own l m) (hx : own x) :
    FirstMax rank own (l ++ [x]) (keep rank m x) := by
  unfold keep
  split
  · rename_i hlt
    refine ⟨l, [], rfl, hx, fun y hy hown => lt_of_le_of_lt (h.le hy hown) hlt, ?_⟩
    exact fun _ hy => (List.not_mem_nil hy).elim
  · rename_i hlt
    obtain ⟨before, after, rfl, hm, hbefore, hafter⟩ := h
    refine ⟨before, after ++ [x], by rw [List.append_assoc]; rfl, hm, hbefore,
      fun y hy hown => ?_⟩
    rcases List.mem_append.mp hy with hy | hy
    · exact hafter y hy hown
    · rw [List.mem_singleton.mp hy]
      exact not_lt.mp hlt

/-- There is one such offer: of two, each would come before the other. -/
theorem FirstMax.unique {m' : φ} (h : FirstMax rank own l m) (h' : FirstMax rank own l m') :
    m = m' := by
  obtain ⟨before, after, heq, hm, hbefore, hafter⟩ := h
  obtain ⟨before', after', heq', hm', hbefore', hafter'⟩ := h'
  rcases List.append_eq_append_iff.mp (heq.symm.trans heq') with ⟨mid, hb, htail⟩
    | ⟨mid, hb, htail⟩
  · cases mid with
    | nil => exact (List.cons.inj htail).1
    | cons y mid =>
      -- the first one stands before the second, so it is less, and yet not less
      obtain ⟨rfl, hrest⟩ := List.cons.inj htail
      have hlt := hbefore' m (hb ▸ List.mem_append_right _ List.mem_cons_self) hm
      have hle := hafter m' (hrest ▸ List.mem_append_right _ List.mem_cons_self) hm'
      exact absurd hlt (not_lt.mpr hle)
  · cases mid with
    | nil => exact (List.cons.inj htail).1.symm
    | cons y mid =>
      obtain ⟨rfl, hrest⟩ := List.cons.inj htail
      have hlt := hbefore m' (hb ▸ List.mem_append_right _ List.mem_cons_self) hm'
      have hle := hafter' m (hrest ▸ List.mem_append_right _ List.mem_cons_self) hm
      exact absurd hlt (not_lt.mpr hle)

end FirstMax

/-- The same with an extra part that a write without one leaves as it is. -/
def keepWith (w y : φ × Option κ) : φ × Option κ :=
  if rank w.1 < rank y.1 then (y.1, y.2.or w.2) else w

/-- Carrying a tag along does not change which offer is kept. -/
theorem foldl_keepWith_fst (w : φ × Option κ) (l : List (φ × Option κ)) :
    (l.foldl (keepWith rank) w).1 = (l.map Prod.fst).foldl (keep rank) w.1 := by
  induction l generalizing w with
  | nil => rfl
  | cons x l ih =>
    rw [List.foldl_cons, ih, List.map_cons, List.foldl_cons]
    congr 1
    unfold keepWith keep
    split <;> rfl

/-- The write that is kept also set the extra part, if it has one. Where it has none the part may
come from any earlier write, which is why it can depend on the order. -/
theorem foldl_keepWith_snd (w : φ × Option κ) (l : List (φ × Option κ)) :
    l.foldl (keepWith rank) w = w ∨ ∃ y ∈ l, rank w.1 < rank y.1
      ∧ (l.foldl (keepWith rank) w).1 = y.1
      ∧ ∀ k, y.2 = some k → (l.foldl (keepWith rank) w).2 = some k := by
  induction l generalizing w with
  | nil => exact .inl rfl
  | cons x l ih =>
    rw [List.foldl_cons]
    by_cases hlt : rank w.1 < rank x.1
    · have hx : keepWith rank w x = (x.1, x.2.or w.2) := if_pos hlt
      rcases ih (keepWith rank w x) with heq | ⟨y, hy, hlt', hfst, hsnd⟩
      · refine .inr ⟨x, List.mem_cons_self, hlt, by rw [heq, hx], ?_⟩
        intro k hk
        rw [heq, hx, hk]
        rfl
      · refine .inr ⟨y, List.mem_cons_of_mem _ hy, ?_, hfst, hsnd⟩
        rw [hx] at hlt'
        exact hlt.trans hlt'
    · have hx : keepWith rank w x = w := if_neg hlt
      rw [hx]
      rcases ih w with heq | ⟨y, hy, hrest⟩
      · exact .inl heq
      · exact .inr ⟨y, List.mem_cons_of_mem _ hy, hrest⟩

/-- Greater writes that agree with the start on the extra part leave it as it is. -/
theorem foldl_keepWith_same {w : φ × Option κ} {l : List (φ × Option κ)}
    (h : ∀ y ∈ l, rank w.1 < rank y.1 → y.2 = none ∨ y.2 = w.2) :
    (l.foldl (keepWith rank) w).2 = w.2 := by
  induction l generalizing w with
  | nil => rfl
  | cons x l ih =>
    rw [List.foldl_cons]
    by_cases hlt : rank w.1 < rank x.1
    · have hx : keepWith rank w x = (x.1, w.2) := by
        unfold keepWith
        rw [if_pos hlt]
        rcases h x List.mem_cons_self hlt with hnone | hsome
        · rw [hnone]
          rfl
        · rw [hsome]
          cases w.2 <;> rfl
      rw [hx]
      refine ih fun y hy hlt' => h y (List.mem_cons_of_mem _ hy) (hlt.trans hlt')
    · have hx : keepWith rank w x = w := if_neg hlt
      rw [hx]
      exact ih fun y hy => h y (List.mem_cons_of_mem _ hy)

/-- The extra part is decided: the greatest writes have one, or every greater write leaves what
the start has. -/
def Decided (w : φ × Option κ) (l : List (φ × Option κ)) : Prop :=
  (∀ y ∈ l, rank w.1 < rank y.1 → (∀ z ∈ l, rank z.1 ≤ rank y.1) → y.2 ≠ none)
    ∨ ∀ y ∈ l, rank w.1 < rank y.1 → y.2 = none ∨ y.2 = w.2

/-- Two runs over the same writes end alike, if no two different writes that are the greatest and
greater than the start tie, and the extra part is decided. `Decided` is about the part only:
either the greatest writes have one, or every write that could leave one behind agrees with the
start. -/
theorem foldl_keepWith_congr {w : φ × Option κ} {l l' : List (φ × Option κ)}
    (hsame : ∀ y, y ∈ l ↔ y ∈ l')
    (htie : ∀ x ∈ l, ∀ y ∈ l, rank w.1 < rank x.1 → (∀ z ∈ l, rank z.1 ≤ rank x.1) →
      rank x.1 = rank y.1 → x = y)
    (hdec : Decided rank w l) :
    l.foldl (keepWith rank) w = l'.foldl (keepWith rank) w := by
  have hfst : (l.foldl (keepWith rank) w).1 = (l'.foldl (keepWith rank) w).1 := by
    rw [foldl_keepWith_fst, foldl_keepWith_fst]
    refine foldl_keep_congr rank ?_ ?_
    · intro y
      simp only [List.mem_map, hsame]
    · intro x hx y hy hlt hmax heq
      obtain ⟨x', hx', rfl⟩ := List.mem_map.mp hx
      obtain ⟨y', hy', rfl⟩ := List.mem_map.mp hy
      rw [htie x' hx' y' hy' hlt (fun z hz => hmax z.1 (List.mem_map_of_mem hz)) heq]
  refine Prod.ext hfst ?_
  -- the write that is kept is among the greatest
  have hmax : ∀ y : φ × Option κ, (l.foldl (keepWith rank) w).1 = y.1 →
      ∀ z ∈ l, rank z.1 ≤ rank y.1 := by
    intro y hy z hz
    rw [← hy, foldl_keepWith_fst]
    exact (foldl_keep_spec rank w.1 (l.map Prod.fst)).2.2 z.1 (List.mem_map_of_mem hz)
  rcases hdec with hnew | hold
  · rcases foldl_keepWith_snd rank w l with heq | ⟨y, hy, hlt, hyf, hyk⟩
    · rcases foldl_keepWith_snd rank w l' with heq' | ⟨y', hy', hlt', hyf', -⟩
      · rw [heq, heq']
      · rw [← hyf', ← hfst, heq] at hlt'
        exact absurd hlt' (lt_irrefl _)
    · rcases foldl_keepWith_snd rank w l' with heq' | ⟨y', hy', hlt', hyf', hyk'⟩
      · rw [← hyf, hfst, heq'] at hlt
        exact absurd hlt (lt_irrefl _)
      · have hyy : y = y' :=
          htie y hy y' ((hsame _).mpr hy') hlt (hmax y hyf) (by rw [← hyf, ← hyf', hfst])
        obtain ⟨k, hk⟩ := Option.ne_none_iff_exists'.mp
          (hnew y hy hlt (hmax y hyf))
        rw [hyk k hk, hyk' k (hyy ▸ hk)]
  · rw [foldl_keepWith_same rank hold,
      foldl_keepWith_same rank fun y hy => hold y ((hsame y).mpr hy)]

end Keep

/-! ### Runs that may stop -/

section Partial

variable {α S : Type}

/-- `ok` holds at every step of a run that a step may stop. -/
def AlongM (ok : S → α → Prop) (step : S → α → Option S) : S → List α → Prop
  | _, [] => True
  | s, x :: l =>
    ok s x ∧ match step s x with
      | some t => AlongM ok step t l
      | none => True

variable {ok ok' : S → α → Prop} {step : S → α → Option S}

/-- The condition along a run can be checked. -/
def AlongM.decide [∀ s x, Decidable (ok s x)] : (s : S) → (l : List α) →
    Decidable (AlongM ok step s l)
  | _, [] => .isTrue trivial
  | s, x :: l =>
    have : Decidable (match step s x with
        | some t => AlongM ok step t l
        | none => True) :=
      match step s x with
      | some t => AlongM.decide t l
      | none => .isTrue trivial
    inferInstanceAs (Decidable (_ ∧ _))

/-- A weaker condition holds along the same run. -/
theorem AlongM.mono (h : ∀ s x, ok s x → ok' s x) {s : S} {l : List α} (hl : AlongM ok step s l) :
    AlongM ok' step s l := by
  induction l generalizing s with
  | nil => trivial
  | cons x l ih =>
    refine ⟨h s x hl.1, ?_⟩
    have hrest := hl.2
    split at hrest
    · exact ih hrest
    · trivial

/-- A condition along a run holds along its beginnings. -/
theorem AlongM.take {s : S} {l : List α} (h : AlongM ok step s l) (n : Nat) :
    AlongM ok step s (l.take n) := by
  induction l generalizing s n with
  | nil =>
    rw [List.take_nil]
    exact h
  | cons x l ih =>
    cases n with
    | zero => trivial
    | succ n =>
      refine ⟨h.1, ?_⟩
      have hrest := h.2
      split at hrest
      · exact ih hrest n
      · trivial

/-- What follows the first part of a run that goes on. -/
theorem AlongM.of_append {s t : S} {l m : List α} (h : AlongM ok step s (l ++ m))
    (hrun : l.foldlM step s = some t) : AlongM ok step t m := by
  induction l generalizing s with
  | nil =>
    cases hrun
    exact h
  | cons x l ih =>
    rw [List.foldlM_cons, Option.bind_eq_bind, Option.bind_eq_some_iff] at hrun
    obtain ⟨u, hu, hrun⟩ := hrun
    have hrest := h.2
    rw [hu] at hrest
    exact ih hrest hrun

/-- A condition that follows from an invariant holds along every run of steps that keep the
invariant. `Q` is what every offer is known to be. -/
theorem alongM_of_inv {I : S → Prop} {Q : α → Prop} (hok : ∀ s x, I s → Q x → ok s x)
    (hinv : ∀ s x t, I s → Q x → step s x = some t → I t) {s : S} (hs : I s) {l : List α}
    (hQ : ∀ x ∈ l, Q x) : AlongM ok step s l := by
  induction l generalizing s with
  | nil => trivial
  | cons x l ih =>
    have hx := hQ x List.mem_cons_self
    refine ⟨hok s x hs hx, ?_⟩
    split
    · rename_i t ht
      exact ih (hinv s x t hs hx ht) fun y hy => hQ y (List.mem_cons_of_mem _ hy)
    · trivial

/-- What holds of every state and offer holds along every run. -/
theorem alongM_of_forall (h : ∀ s x, ok s x) (s : S) (l : List α) : AlongM ok step s l := by
  induction l generalizing s with
  | nil => trivial
  | cons x l ih =>
    refine ⟨h s x, ?_⟩
    split
    · exact ih _
    · trivial

/-- A run that goes on from a state it may have lost. -/
theorem foldl_bind_eq_foldlM (step : S → α → Option S) (s : S) (l : List α) :
    l.foldl (fun o x => o.bind (step · x)) (some s) = l.foldlM step s := by
  have hnone : ∀ l : List α, l.foldl (fun o x => o.bind (step · x)) none = none := by
    intro l
    induction l with
    | nil => rfl
    | cons x l ih => exact ih
  induction l generalizing s with
  | nil => rfl
  | cons x l ih =>
    rw [List.foldl_cons, List.foldlM_cons, Option.bind_some]
    cases step s x with
    | none => exact hnone l
    | some t => exact ih t

/-- A property kept by every step that is `ok` holds at the end of a run that did not stop. `Q` is
what every offer is known to be, `hl` that the steps were `ok`, `hrun` that the run came to its
end. -/
theorem inv_runM {I : S → Prop} {Q : α → Prop}
    (hinv : ∀ s x t, I s → Q x → ok s x → step s x = some t → I t) {s t : S} (hs : I s)
    {l : List α} (hQ : ∀ x ∈ l, Q x) (hl : AlongM ok step s l) (hrun : l.foldlM step s = some t) :
    I t := by
  induction l generalizing s with
  | nil =>
    cases hrun
    exact hs
  | cons x l ih =>
    rw [List.foldlM_cons, Option.bind_eq_bind, Option.bind_eq_some_iff] at hrun
    obtain ⟨u, hu, hrun⟩ := hrun
    have hrest := hl.2
    rw [hu] at hrest
    exact ih (hinv s x u hs (hQ x List.mem_cons_self) hl.1 hu)
      (fun y hy => hQ y (List.mem_cons_of_mem _ hy)) hrest hrun

end Partial

section ViewPartial

variable {α S σ : Type} [SemilatticeSup σ] {ok : S → α → Prop} {step : S → α → Option S}
  {Inv : S → Prop} {view : S → σ} {f : α → σ}

/-- If one step goes on and joins the offer into the view, so does a run. `Q` is what every offer
is known to be. That the run does not stop is part of the result, not a hypothesis. -/
theorem view_runM {Q : α → Prop}
    (hstep : ∀ s x, Inv s → Q x → ok s x →
      ∃ t, step s x = some t ∧ Inv t ∧ view t = view s ⊔ f x)
    {s : S} (hs : Inv s) {l : List α} (hQ : ∀ x ∈ l, Q x) (hl : AlongM ok step s l) :
    ∃ t, l.foldlM step s = some t ∧ Inv t ∧ view t = joinAll f (view s) l := by
  induction l generalizing s with
  | nil => exact ⟨s, rfl, hs, rfl⟩
  | cons x l ih =>
    obtain ⟨u, hu, hinv, hview⟩ := hstep s x hs (hQ x List.mem_cons_self) hl.1
    have hrest := hl.2
    rw [hu] at hrest
    obtain ⟨t, ht, hinvt, hviewt⟩ := ih hinv (fun y hy => hQ y (List.mem_cons_of_mem _ hy)) hrest
    refine ⟨t, ?_, hinvt, ?_⟩
    · rw [List.foldlM_cons, hu]
      exact ht
    · rw [hviewt, hview]
      rfl

end ViewPartial

/-! ### Registers that their first write opens -/

section Opened

variable {σ α β : Type}

/-- A register that is blank before its first write. Some events write nothing to it. -/
def opened (write : σ → α → σ) (blank : σ) (v : Option σ) : Option α → Option σ
  | none => v
  | some y => some (write (v.getD blank) y)

/-- A run of events is a run of the writes among them, from the blank register if there was none.
With no write among them the register is as it was, also if it did not exist. -/
theorem foldl_opened (write : σ → α → σ) (blank : σ) (offer : β → Option α) (l : List β)
    (v : Option σ) :
    l.foldl (fun v x => opened write blank v (offer x)) v
      = if l.filterMap offer = [] then v
        else some ((l.filterMap offer).foldl write (v.getD blank)) := by
  induction l generalizing v with
  | nil => rfl
  | cons x l ih =>
    rw [List.foldl_cons, ih]
    cases hx : offer x with
    | none => rw [List.filterMap_cons_none hx, opened]
    | some y =>
      rw [List.filterMap_cons_some hx, opened, if_neg (List.cons_ne_nil _ _), List.foldl_cons]
      split
      · rename_i hnil
        rw [hnil]
        rfl
      · rfl

end Opened

end Lww
