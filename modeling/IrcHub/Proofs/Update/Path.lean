import IrcHub.Lib.Ladder
import IrcHub.Proofs.Update.Versions

/-!
# `IrcHub.Proofs.Update.Path`: the way to a release

A plan takes the newest release there is at each step. It is a chain of releases that may each be
installed over the one before, and no chain is shorter: whoever is on a newer release has at least
the same choice, so the way on is not longer. That part is the library's (`Climbs`, `Best`), and
`place` puts the versions of a manifest in the order it needs.

* `nextStepIn_picked`: what the scan of a manifest finds
* `best_of_read`, `read_of_canStep`: the step a manifest says is the best one, and it says one
  where there is one
* `planFrom_sound`, `planFrom_complete`: the loop, over the steps it has left
* `planPath_exact`: the plan of a manifest
* `planPath_past_wall`: a way of two steps, because the last release has a floor

Versions are dotted numbers here (`PlainRow`), since the order of others is not total
(`IrcHub.Proofs.Update.Versions`). The rows of a manifest may stand in any order, and a version
may have several.
-/

set_option autoImplicit false

namespace IrcHub.Proofs

open IrcHub.Hub Str
open Ladder (Rung CanStep Climbs Best)

/-! ### Chains of releases -/

/-- A row with a dotted version, and a dotted floor or none. -/
structure PlainRow (r : ManifestRow) : Prop where
  version : Plain r.version
  minFrom : r.minFrom = ['*'] ∨ Plain r.minFrom

instance (r : ManifestRow) : Decidable (PlainRow r) :=
  decidable_of_iff (Plain r.version ∧ (r.minFrom = ['*'] ∨ Plain r.minFrom))
    ⟨fun h => ⟨h.1, h.2⟩, fun h => ⟨h.version, h.minFrom⟩⟩

/-- A newer release with a row whose floor is not above a version. -/
def MayInstall (rows : List ManifestRow) (cur v : Str) : Prop :=
  versionCmp cur v = .lt
    ∧ ∃ r ∈ rows, stripV r.version = stripV v
    ∧ (r.minFrom = ['*'] ∨ versionCmp r.minFrom cur ≠ .gt)

/-- Releases that may each be installed over the one before, up to the target. -/
def UpgradeChain (rows : List ManifestRow) (target : Str) : Str → List Str → Prop
  | cur, [] => stripV cur = stripV target
  | cur, v :: vs => MayInstall rows cur v ∧ UpgradeChain rows target v vs

/-! ### Versions in their order -/

/-- The place of a version in the order, which is linear on dotted versions. -/
def place (v : Str) : Natural.LowText charDigits :=
  if h : Plain v then h.low else ⟨[], fun _ hc => absurd hc List.not_mem_nil⟩

variable {a b cur target v start : Str} {rows : List ManifestRow} {r : ManifestRow}
  {manifest : Str}

/-- The place of a plain version is its text without the letter. -/
theorem place_text (h : Plain v) : (place v).text = stripV v := by
  rw [place, dif_pos h]
  rfl

/-- Two plain versions have one place when they differ in the letter only. -/
theorem place_eq_iff (ha : Plain a) (hb : Plain b) : place a = place b ↔ stripV a = stripV b := by
  rw [Natural.LowText.ext_iff, place_text ha, place_text hb]

/-- Versions compare as their places do. -/
theorem versionCmp_place (ha : Plain a) (hb : Plain b) :
    versionCmp a b = Natural.cmp charDigits (place a).text (place b).text := by
  rw [versionCmp_eq ha.not_mem hb.not_mem, place_text ha, place_text hb]

/-- An older version has a lower place. -/
theorem versionCmp_lt_iff (ha : Plain a) (hb : Plain b) : versionCmp a b = .lt
    ↔ place a < place b := by
  rw [versionCmp_place ha hb, Natural.LowText.lt_iff]

/-- A newer one has a higher place. -/
theorem versionCmp_gt_iff (ha : Plain a) (hb : Plain b) : versionCmp a b = .gt
    ↔ place b < place a := by
  rw [versionCmp_place ha hb, Natural.LowText.lt_iff, Natural.cmp_swap (place a).text]
  cases Natural.cmp charDigits (place a).text (place b).text <;> decide

/-- Versions that differ in the letter only are plain together. -/
theorem Plain.congr (h : Plain b) (heq : stripV a = stripV b) : Plain a :=
  ⟨heq ▸ h.some, heq ▸ h.letters⟩

/-- Taking the letter off twice takes it off once. -/
theorem stripV_stripVersionV (v : Str) : stripV (stripVersionV v) = stripV v := by
  unfold stripVersionV
  split
  · rename_i d rest
    split
    · rename_i hd
      have hlo : 'v' ≠ d ∧ 'V' ≠ d := by
        refine ⟨?_, ?_⟩ <;> rintro rfl <;> exact absurd hd (by decide)
      show stripV (d :: rest) = d :: rest
      unfold stripV
      split
      · rename_i heq
        exact absurd (List.cons.inj heq).1.symm hlo.1
      · rename_i heq
        exact absurd (List.cons.inj heq).1.symm hlo.2
      · rfl
    · rfl
  · rfl

/-- A row as a rung: its version is the place, its floor the floor. -/
def rungOf (r : ManifestRow) : Rung (Natural.LowText charDigits) :=
  { place := place r.version, floor := if r.minFrom = ['*'] then none
    else some (place r.minFrom) }

/-- The floor of a row is not above a version. -/
theorem floor_iff (hr : PlainRow r) (hcur : Plain cur) : (∀ f ∈ (rungOf r).floor, f ≤ place cur)
    ↔ r.minFrom = ['*'] ∨ versionCmp r.minFrom cur ≠ .gt := by
  by_cases hany : r.minFrom = ['*']
  · refine iff_of_true (fun f hf => ?_) (.inl hany)
    rw [rungOf, if_pos hany] at hf
    cases hf
  · have hfloor : (rungOf r).floor = some (place r.minFrom) := if_neg hany
    rw [hfloor, or_iff_right hany, Ne, versionCmp_gt_iff (hr.minFrom.resolve_left hany) hcur,
      not_lt]
    exact ⟨fun h => h _ rfl, fun h f hf => Option.some.inj hf ▸ h⟩

/-- The steps of the ladder are the versions that may be installed. -/
theorem canStep_iff (hrows : ∀ r ∈ rows, PlainRow r) (hcur : Plain cur) (hv : Plain v) :
    CanStep (rows.map rungOf) (place cur) (place v) ↔ MayInstall rows cur v := by
  refine and_congr (versionCmp_lt_iff hcur hv).symm ⟨?_, ?_⟩
  · rintro ⟨rung, hrung, hplace, hfloor⟩
    obtain ⟨r, hr, rfl⟩ := List.mem_map.mp hrung
    exact ⟨r, hr, (place_eq_iff (hrows r hr).version hv).mp hplace,
      (floor_iff (hrows r hr) hcur).mp hfloor⟩
  · rintro ⟨r, hr, hsame, hfloor⟩
    exact ⟨rungOf r, List.mem_map_of_mem hr, (place_eq_iff (hrows r hr).version hv).mpr hsame,
      (floor_iff (hrows r hr) hcur).mpr hfloor⟩

/-- A chain of releases is a climb. -/
theorem UpgradeChain.climbs (hrows : ∀ r ∈ rows, PlainRow r) (hcur : Plain cur)
    (htarget : Plain target) {vs : List Str} (h : UpgradeChain rows target cur vs) :
    Climbs (rows.map rungOf) (place target) (place cur) (vs.map place) := by
  induction vs generalizing cur with
  | nil => exact (place_eq_iff hcur htarget).mpr h
  | cons v vs ih =>
    obtain ⟨hstep, hrest⟩ := h
    obtain ⟨-, r, hr, hsame, -⟩ := id hstep
    have hv : Plain v := (hrows r hr).version.congr hsame.symm
    exact ⟨(canStep_iff hrows hcur hv).mpr hstep, ih hv hrest⟩

/-! ### One step -/

/-- A row that a step may take: newer than what is there, not past the target, with a floor that
is not above what is there. -/
structure Candidate (cur target : Str) (r : ManifestRow) : Prop where
  forward : versionCmp r.version cur = .gt
  within : versionCmp r.version target ≠ .gt
  reachable : r.minFrom = ['*'] ∨ versionCmp cur r.minFrom ≠ .lt

/-- The version of the newest of the candidates, if there is one. -/
def Picked (rows : List ManifestRow) (cur target : Str) (best : Option Str) : Prop :=
  (∀ v ∈ best, ∃ r ∈ rows, Candidate cur target r ∧ r.version = v)
    ∧ ∀ r ∈ rows, Candidate cur target r → ∃ v ∈ best, place r.version ≤ place v

/-- A row that is passed over. -/
theorem Picked.skip {best : Option Str} (h : Picked rows cur target best)
    (hr : Candidate cur target r → ∃ v ∈ best, place r.version ≤ place v) :
    Picked (rows ++ [r]) cur target best := by
  refine ⟨fun v hv => ?_, fun q hq hcand => ?_⟩
  · obtain ⟨q, hq, hcand⟩ := h.1 v hv
    exact ⟨q, List.mem_append_left _ hq, hcand⟩
  · rcases List.mem_append.mp hq with hq | hq
    · exact h.2 q hq hcand
    · cases List.mem_singleton.mp hq
      exact hr hcand

/-- A row that is newer than those before it. -/
theorem Picked.take {best : Option Str} (h : Picked rows cur target best)
    (hr : Candidate cur target r) (hnewer : ∀ v ∈ best, place v ≤ place r.version) :
    Picked (rows ++ [r]) cur target (some r.version) := by
  refine ⟨fun v hv => ?_, fun q hq hcand => ⟨r.version, rfl, ?_⟩⟩
  · cases hv
    exact ⟨r, List.mem_append_right _ (List.mem_singleton_self r), hr, rfl⟩
  · rcases List.mem_append.mp hq with hq | hq
    · obtain ⟨v, hv, hle⟩ := h.2 q hq hcand
      exact hle.trans (hnewer v hv)
    · cases List.mem_singleton.mp hq
      exact le_rfl

/-- The scan of the rows picks the newest candidate. By induction on the rows, with the best so
far. -/
theorem nextStepIn_picked (hrows : ∀ r ∈ rows, PlainRow r) :
    Picked rows cur target (nextStepIn rows cur target) := by
  induction rows using List.reverseRecOn with
  | nil =>
      exact ⟨fun v hv => (Option.not_mem_none v hv).elim, fun r hr => absurd hr List.not_mem_nil⟩
  | append_singleton rows r ih =>
    have h := ih fun q hq => hrows q (List.mem_append_left _ hq)
    have hr := hrows r (List.mem_append_right _ (List.mem_singleton_self r))
    have hbest : ∀ v ∈ nextStepIn rows cur target, Plain v := by
      intro v hv
      obtain ⟨q, hq, -, rfl⟩ := h.1 v hv
      exact (hrows q (List.mem_append_left _ hq)).version
    unfold nextStepIn
    rw [List.foldl_append, List.foldl_cons, List.foldl_nil]
    show Picked _ _ _ (if _ then nextStepIn rows cur target else _)
    split
    · rename_i hno
      exact h.skip fun hcand => absurd hcand.forward (by simpa using hno)
    rename_i hforward
    split
    · rename_i hno
      exact h.skip fun hcand => absurd (by simpa using hno) hcand.within
    rename_i hwithin
    split
    · rename_i hno
      simp only [Bool.and_eq_true, bne_iff_ne, beq_iff_eq] at hno
      exact h.skip fun hcand => absurd hno.2 (hcand.reachable.resolve_left hno.1)
    rename_i hreach
    simp only [Bool.and_eq_true, bne_iff_ne, beq_iff_eq, ne_eq, not_and]
      at hforward hwithin hreach
    have hcand : Candidate cur target r :=
      ⟨not_not.mp hforward, hwithin, (em _).imp_right fun hfloor => hreach hfloor⟩
    split
    · rename_i hnewer
      refine h.take hcand fun v hv => ?_
      have := (Option.all_eq_true _ _).mp hnewer v hv
      exact ((versionCmp_gt_iff hr.version (hbest v hv)).mp (beq_iff_eq.mp this)).le
    · rename_i hnewer
      refine h.skip fun _ => ?_
      obtain ⟨v, hv, hle⟩ : ∃ v ∈ nextStepIn rows cur target, ¬ place v < place r.version := by
        by_contra hall
        push Not at hall
        refine hnewer ((Option.all_eq_true _ _).mpr fun v hv => beq_iff_eq.mpr ?_)
        exact (versionCmp_gt_iff hr.version (hbest v hv)).mpr (hall v hv)
      exact ⟨v, hv, not_lt.mp hle⟩

/-- A candidate is a rung that can be stepped on. -/
theorem candidate_iff (hr : PlainRow r) (hcur : Plain cur) (htarget : Plain target) :
    Candidate cur target r
    ↔ place cur < place r.version ∧ place r.version ≤ place target
      ∧ ∀ f ∈ (rungOf r).floor, f ≤ place cur := by
  have hfloor : (r.minFrom = ['*'] ∨ versionCmp cur r.minFrom ≠ .lt)
      ↔ r.minFrom = ['*'] ∨ versionCmp r.minFrom cur ≠ .gt := by
    refine or_congr_right' fun hany => not_congr ?_
    have hmin := hr.minFrom.resolve_left hany
    rw [versionCmp_lt_iff hcur hmin, versionCmp_gt_iff hmin hcur]
  rw [floor_iff hr hcur, ← hfloor, ← versionCmp_gt_iff hr.version hcur, ← not_lt,
    ← versionCmp_gt_iff hr.version htarget]
  exact ⟨fun h => ⟨h.forward, h.within, h.reachable⟩, fun h => ⟨h.1, h.2.1, h.2.2⟩⟩

/-- The step a manifest says is the best. -/
theorem best_of_read (hrows : ∀ r ∈ manifestRows manifest, PlainRow r) (hcur : Plain cur)
    (htarget : Plain target) (hread : nextStepRead manifest cur target = .ok v) :
    Plain v ∧ Best ((manifestRows manifest).map rungOf) (place target) (place cur) (place v) := by
  unfold nextStepRead at hread
  split at hread
  · cases hread
  split at hread
  · rename_i w hnext
    cases hread
    obtain ⟨hpick, htop⟩ : Picked _ cur target _ := nextStepIn_picked hrows
    obtain ⟨r, hr, hcand, rfl⟩ := hpick v hnext
    obtain ⟨hlt, hle, hfloor⟩ := (candidate_iff (hrows r hr) hcur htarget).mp hcand
    refine ⟨(hrows r hr).version, ⟨hlt, rungOf r, List.mem_map_of_mem hr, rfl, hfloor⟩, hle,
      fun w hw hwithin => ?_⟩
    obtain ⟨hup, rung, hrung, rfl, hopen⟩ := hw
    obtain ⟨q, hq, rfl⟩ := List.mem_map.mp hrung
    obtain ⟨u, hu, hleq⟩ :=
      htop q hq ((candidate_iff (hrows q hq) hcur htarget).mpr ⟨hup, hwithin, hopen⟩)
    rw [hnext] at hu
    cases hu
    exact hleq
  · cases hread

/-- Where there is a step, the manifest says one. -/
theorem read_of_canStep (hrows : ∀ r ∈ manifestRows manifest, PlainRow r) (hcur : Plain cur)
    (htarget : Plain target) {p : Natural.LowText charDigits}
    (hstep : CanStep ((manifestRows manifest).map rungOf) (place cur) p)
    (hwithin : p ≤ place target) : ∃ s, nextStepRead manifest cur target = .ok s := by
  obtain ⟨hup, rung, hrung, rfl, hopen⟩ := hstep
  obtain ⟨q, hq, rfl⟩ := List.mem_map.mp hrung
  obtain ⟨v, hv, -⟩ :=
    (nextStepIn_picked hrows).2 q hq ((candidate_iff (hrows q hq) hcur htarget).mpr
    ⟨hup, hwithin, hopen⟩)
  have hne : target.isEmpty = false := by
    rw [List.isEmpty_eq_false_iff]
    rintro rfl
    exact htarget.some rfl
  unfold nextStepRead
  rw [hne, if_neg Bool.false_ne_true, hv]
  exact ⟨v, rfl⟩

/-! ### The loop -/

/-- The letter does not change the place. -/
theorem place_stripVersionV (hv : Plain v) : Plain (stripVersionV v)
    ∧ place (stripVersionV v) = place v := by
  have hplain := hv.congr (stripV_stripVersionV v)
  exact ⟨hplain, (place_eq_iff hplain hv).mpr (stripV_stripVersionV v)⟩

section Loop

variable {next : Str → Str → Except Str Str} {room : Nat} {path plan : List Str}

/-- At the target the plan ends. -/
theorem planFrom_done (hend : versionCmp cur target ≠ .lt) :
    planFrom next start target room path cur = .ok path := by
  unfold planFrom
  exact if_pos (bne_iff_ne.mpr hend)

/-- Where no step is read the loop has no plan, but for the one step of a plan that has none. -/
theorem planFrom_unread {e : Str} (hlt : versionCmp cur target = .lt)
    (hread : next cur target = .error e) (hpath : path ≠ []) :
    planFrom next start target room path cur ≠ .ok plan := by
  unfold planFrom
  simp only [hlt, hread, bne_self_eq_false, Bool.false_eq_true, if_false,
    List.isEmpty_eq_false_iff.mpr hpath]
  exact fun hno => nomatch hno

variable (hrows : ∀ r ∈ manifestRows manifest, PlainRow r) (hcur : Plain cur)
  (htarget : Plain target)
include hrows hcur htarget

/-- Each step goes up. So the plan ends: it can only climb. -/
theorem step_up (hread : nextStepRead manifest cur target = .ok v) :
    versionCmp (stripVersionV v) cur = .gt := by
  obtain ⟨hv, hbest⟩ := best_of_read hrows hcur htarget hread
  obtain ⟨hstep, hplace⟩ := place_stripVersionV hv
  exact (versionCmp_gt_iff hstep hcur).mpr (hplace ▸ hbest.can.1)

/-- The loop goes on with the step that was read. -/
theorem planFrom_step (hlt : versionCmp cur target = .lt)
    (hread : nextStepRead manifest cur target = .ok v) :
    planFrom (nextStepRead manifest) start target (room + 1) path cur
      = planFrom (nextStepRead manifest) start target room (path ++ [stripVersionV v])
        (stripVersionV v) := by
  conv_lhs => unfold planFrom
  simp only [hlt, hread, step_up hrows hcur htarget hread, bne_self_eq_false,
    Bool.false_eq_true, if_false]

/-- Without room for another step there is no plan. -/
theorem planFrom_full (hlt : versionCmp cur target = .lt)
    (hread : nextStepRead manifest cur target = .ok v) :
    planFrom (nextStepRead manifest) start target 0 path cur ≠ .ok plan := by
  unfold planFrom
  simp only [hlt, hread, step_up hrows hcur htarget hread, bne_self_eq_false,
    Bool.false_eq_true, if_false]
  exact fun hno => nomatch hno

/-- A plan of a loop that is not at its end comes from a step that was read. -/
theorem planFrom_going (hlt : versionCmp cur target = .lt)
    (hfirst : path ≠ [] ∨ ∃ v, nextStepRead manifest cur target = .ok v)
    (hplan : planFrom (nextStepRead manifest) start target room path cur = .ok plan) :
    ∃ v left, room = left + 1 ∧ nextStepRead manifest cur target = .ok v
      ∧ planFrom (nextStepRead manifest) start target left (path ++ [stripVersionV v])
        (stripVersionV v) = .ok plan := by
  cases hread : nextStepRead manifest cur target with
  | error e =>
    refine absurd hplan (planFrom_unread hlt hread (hfirst.resolve_right ?_))
    rintro ⟨v, hv⟩
    rw [hread] at hv
    cases hv
  | ok v =>
    cases room with
    | zero => exact absurd hplan (planFrom_full hrows hcur htarget hlt hread)
    | succ left =>
        exact ⟨v, left, rfl, rfl, (planFrom_step hrows hcur htarget hlt hread).symm.trans hplan⟩

/-- A plan is a chain of releases, where its first step was read. Where it was not the plan is the
target itself, hence `hfirst`. -/
theorem planFrom_sound (hle : place cur ≤ place target)
    (hfirst : path ≠ [] ∨ ∃ v, nextStepRead manifest cur target = .ok v)
    (hplan : planFrom (nextStepRead manifest) start target room path cur = .ok plan) :
    ∃ steps, plan = path ++ steps ∧ UpgradeChain (manifestRows manifest) target cur steps := by
  induction room using Nat.strong_induction_on generalizing path cur with
  | _ room ih =>
    by_cases hlt : versionCmp cur target = .lt
    · obtain ⟨v, left, rfl, hread, hrest⟩ := planFrom_going hrows hcur htarget hlt hfirst hplan
      obtain ⟨hv, hbest⟩ := best_of_read hrows hcur htarget hread
      obtain ⟨hstep, hplace⟩ := place_stripVersionV hv
      obtain ⟨steps, rfl, hchain⟩ := ih left (Nat.lt_succ_self left) hstep (hplace ▸ hbest.below)
        (.inl (by simp)) hrest
      refine ⟨stripVersionV v :: steps, by rw [List.append_assoc]; rfl, ?_, hchain⟩
      exact (canStep_iff hrows hcur hstep).mp (hplace ▸ hbest.can)
    · rw [planFrom_done hlt] at hplan
      cases hplan
      rw [versionCmp_lt_iff hcur htarget] at hlt
      exact ⟨[], (List.append_nil _).symm,
        (place_eq_iff hcur htarget).mp (le_antisymm hle (not_lt.mp hlt))⟩

/-- Where there is a chain that fits, there is a plan, and it is not longer. By induction on the
room: after a best step what is left of the chain is still a chain. -/
theorem planFrom_complete {places : List (Natural.LowText charDigits)}
    (hclimb : Climbs ((manifestRows manifest).map rungOf) (place target) (place cur) places)
    (hroom : places.length ≤ room) :
    ∃ steps, planFrom (nextStepRead manifest) start target room path cur
      = .ok (path ++ steps) ∧ steps.length ≤ places.length := by
  induction room generalizing path cur places with
  | zero =>
    cases List.length_eq_zero_iff.mp (Nat.le_zero.mp hroom)
    refine ⟨[], ?_, le_rfl⟩
    have hno : versionCmp cur target ≠ .lt := by
      rw [Ne, versionCmp_lt_iff hcur htarget]
      exact fun hlt => hlt.ne hclimb
    rw [planFrom_done hno, List.append_nil]
  | succ room ih =>
    by_cases hlt : versionCmp cur target = .lt
    · have hplace := (versionCmp_lt_iff hcur htarget).mp hlt
      obtain ⟨p, hcan, hwithin⟩ := hclimb.exists_step hplace
      obtain ⟨v, hread⟩ := read_of_canStep hrows hcur htarget hcan hwithin
      obtain ⟨hv, hbest⟩ := best_of_read hrows hcur htarget hread
      obtain ⟨hstep, hsame⟩ := place_stripVersionV hv
      obtain ⟨rest, hrest, hlen⟩ := hbest.rest hclimb
      obtain ⟨steps, hplan, hsteps⟩ :=
        @ih (stripVersionV v) (path ++ [stripVersionV v]) hstep rest (hsame ▸ hrest) (by omega)
      refine ⟨stripVersionV v :: steps, ?_, (Nat.succ_le_succ hsteps).trans hlen⟩
      rw [planFrom_step hrows hcur htarget hlt hread, hplan, List.append_assoc]
      rfl
    · exact ⟨[], by rw [planFrom_done hlt, List.append_nil], Nat.zero_le _⟩

end Loop

/-- A plan with a step that was read is a chain of releases up to the target. Where there is a
chain with no more steps than a plan may have, there is such a plan, and no chain is shorter. -/
theorem planPath_exact {manifest start target : Str}
    (hrows : ∀ r ∈ manifestRows manifest, PlainRow r) (hstart : Plain start)
    (htarget : Plain target) (hlt : versionCmp start target = .lt) :
    (∀ plan, planPath (nextStepRead manifest) start target = .ok plan →
        (∃ v, nextStepRead manifest start target = .ok v) →
        UpgradeChain (manifestRows manifest) target start plan)
      ∧ ((∃ steps, UpgradeChain (manifestRows manifest) target start steps
      ∧ steps.length ≤ maxUpgradeSteps) →
        ∃ plan, planPath (nextStepRead manifest) start target = .ok plan
          ∧ UpgradeChain (manifestRows manifest) target start plan
          ∧ ∀ steps, UpgradeChain (manifestRows manifest) target start steps →
            plan.length ≤ steps.length) := by
  have hplace := (versionCmp_lt_iff hstart htarget).mp hlt
  have hne : start.isEmpty = false := by
    rw [List.isEmpty_eq_false_iff]
    rintro rfl
    exact hstart.some rfl
  -- the search starts at the installed version
  have hloop : planPath (nextStepRead manifest) start target
      = planFrom (nextStepRead manifest) start target maxUpgradeSteps [] start := by
    rw [planPath, hne, if_neg Bool.false_ne_true]
  -- every step of the plan is one the reader allows
  have hsound : ∀ plan, planPath (nextStepRead manifest) start target = .ok plan →
      (∃ v, nextStepRead manifest start target = .ok v) →
      UpgradeChain (manifestRows manifest) target start plan := by
    intro plan hplan hread
    rw [hloop] at hplan
    obtain ⟨steps, rfl, hchain⟩ :=
      planFrom_sound hrows hstart htarget hplace.le (.inr hread) hplan
    exact hchain
  refine ⟨hsound, ?_⟩
  rintro ⟨steps, hchain, hlen⟩
  -- a chain climbs in the order of the releases
  have hclimb := hchain.climbs hrows hstart htarget
  have hfits : ∀ {steps : List Str}, UpgradeChain (manifestRows manifest) target start steps →
      steps.length ≤ maxUpgradeSteps →
        ∃ plan, planPath (nextStepRead manifest) start target = .ok plan
        ∧ plan.length ≤ steps.length := by
    intro steps hchain hlen
    have hroom : (steps.map place).length ≤ maxUpgradeSteps :=
      (List.length_map place).trans_le hlen
    obtain ⟨plan, hplan, hle⟩ :=
      planFrom_complete hrows hstart htarget (hchain.climbs hrows hstart htarget) hroom
    exact ⟨plan, hloop.trans hplan, hle.trans_eq (List.length_map place)⟩
  -- so the first step can be read, and the search finds a plan
  obtain ⟨p, hcan, hwithin⟩ := hclimb.exists_step hplace
  have hread := read_of_canStep hrows hstart htarget hcan hwithin
  obtain ⟨plan, hplan, hshort⟩ := hfits hchain hlen
  -- no chain is shorter, for a longer one than allowed is longer than the plan
  refine ⟨plan, hplan, hsound plan hplan hread, fun other hother => ?_⟩
  by_cases hlong : other.length ≤ maxUpgradeSteps
  · obtain ⟨plan', hplan', hle⟩ := hfits hother hlong
    rw [hplan] at hplan'
    cases hplan'
    exact hle
  · omega

/-- Two releases, and a third that may not be installed over the first versions. -/
def wallManifest : Str :=
  ("# version date url sha256 deps kind arch libc min_from\n" ++
    "v1.5.0 2026-01-01 https://github.com/x/a.tar.gz aa none bin any any *\n" ++
    "v2.0.0 2026-02-01 https://github.com/x/b.tar.gz bb none bin any any *\n" ++
    "v3.0.0 2026-03-01 https://github.com/x/c.tar.gz cc none bin any any v2.0.0\n").toList

/-- What is read of the wall. -/
theorem manifestRows_wall : manifestRows wallManifest
    = [⟨"v1.5.0".toList, ['*']⟩, ⟨"v2.0.0".toList, ['*']⟩,
      ⟨"v3.0.0".toList, "v2.0.0".toList⟩] := by
  unfold wallManifest
  simp only [String.toList_append]
  -- the kernel is slow to find the characters of a text by itself
  rw [String.toList_ofList, String.toList_ofList, String.toList_ofList, String.toList_ofList]
  decide +kernel

/-- The way past the wall takes two steps, and no way is shorter. -/
theorem planPath_past_wall : ∃ plan, planPath (nextStepRead wallManifest) "1.0.0".toList
    "3.0.0".toList = .ok plan
    ∧ plan = ["2.0.0".toList, "3.0.0".toList]
    ∧ UpgradeChain (manifestRows wallManifest) "3.0.0".toList "1.0.0".toList plan
    ∧ ∀ steps, UpgradeChain (manifestRows wallManifest) "3.0.0".toList "1.0.0".toList steps →
      2 ≤ steps.length := by
  obtain ⟨hsound, hshort⟩ := @planPath_exact wallManifest "1.0.0".toList "3.0.0".toList
    (by rw [manifestRows_wall]; decide +kernel) (by decide +kernel) (by decide +kernel)
      (by decide +kernel)
  have hplan : planPath (nextStepRead wallManifest) "1.0.0".toList "3.0.0".toList
      = .ok ["2.0.0".toList, "3.0.0".toList] := by
    unfold nextStepRead
    simp only [manifestRows_wall]
    decide +kernel
  have hread : nextStepRead wallManifest "1.0.0".toList "3.0.0".toList = .ok "v2.0.0".toList := by
    unfold nextStepRead
    rw [manifestRows_wall]
    decide +kernel
  have hchain := hsound _ hplan ⟨"v2.0.0".toList, hread⟩
  obtain ⟨plan, hplan', -, hmin⟩ := hshort ⟨_, hchain, by decide⟩
  rw [hplan] at hplan'
  cases hplan'
  exact ⟨_, hplan, rfl, hchain, hmin⟩

end IrcHub.Proofs
