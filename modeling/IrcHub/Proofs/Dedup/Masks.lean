import IrcHub.Proofs.Dedup.Walk

/-!
# `IrcHub.Proofs.Dedup.Masks`: the usermasks of merged users

The usermasks of merged users. A mask goes to the owner the first note about its own names, and of
two equal masks of an owner the one used later stays. `dedupMasks_first` says it of the whole
table: an owner that is there has a mask once, and it is the first of the records used last among
those that went to it.

- `MaskStep`, `dedupMask_step`: what one mask record does to the table
- `goesTo`: whether a mask record of the table goes to this owner and is of this mask
- `MasksOf`: the masks of an owner after some of the records
- `MasksOf.step`: one more record

Which of two equal masks stays goes by the time they were used, and neither by their stamp nor by
whether they are live. That is what the merge does here; what it means for the last writer is
`Proofs/Dedup/Whole.lean`.
-/

set_option autoImplicit false

namespace IrcHub.Proofs

open IrcHub.Hub Str

section Masks

variable {users : List UserRecord} {remap : List (Str × Str)} {masks : List MaskRecord}

/-- The mask record with its owner after the merge. -/
def followed (remap : List (Str × Str)) (m : MaskRecord) : MaskRecord :=
  { m with uuid := remapOwner remap m.uuid }

/-- The rows of a mask of an owner. -/
def isMask (uuid mask : Str) (m : MaskRecord) : Bool := m.uuid == uuid && eqIc m.mask mask

/-- Masks that are one for the lookup are one for every other. -/
theorem isMask_congr {m m' : MaskRecord} (h : isMask m.uuid m.mask m' = true) (uuid mask : Str) :
    isMask uuid mask m' = isMask uuid mask m := by
  rw [isMask, Bool.and_eq_true, beq_iff_eq] at h
  rw [isMask, isMask, h.1, eqIc, eqIc, eqIc_iff.mp h.2]

/-- What one mask record does to the table: it has no owner, it meets a record of the same mask,
or it is new. -/
inductive MaskStep (users : List UserRecord) (remap : List (Str × Str)) (masks : List MaskRecord)
    (m : MaskRecord) : List MaskRecord → Prop
  | orphan (h : ∀ u ∈ users, u.uuid ≠ (followed remap m).uuid) :
      MaskStep users remap masks m masks
  | met (w : MaskRecord) (j : Nat) (hget : masks[j]? = some w)
      (hsame : isMask (followed remap m).uuid m.mask w = true) :
      MaskStep users remap masks m
        (masks.set j (Lww.keep MaskRecord.lastUsed w (followed remap m)))
  | new (hnone : ∀ w ∈ masks, isMask (followed remap m).uuid m.mask w = false) :
      MaskStep users remap masks m (masks ++ [followed remap m])

/-- The cases of `dedupMask` while there is room. -/
theorem dedupMask_step (hroom : masks.length < maxHubUserMasks) (m : MaskRecord) :
    MaskStep users remap masks m (dedupMask users remap masks m) := by
  have hall : (users.any fun u => u.uuid == (followed remap m).uuid) = false →
      MaskStep users remap masks m masks := by
    intro hany
    exact .orphan fun u hu => by simpa using List.any_eq_false.mp hany u hu
  unfold dedupMask
  simp only []
  split
  · rename_i hany
    exact hall (by simpa [followed] using hany)
  split
  · rename_i j hfind
    obtain ⟨hlt, hsame, -⟩ := List.findIdx?_eq_some_iff_getElem.mp hfind
    have hget := List.getElem?_eq_getElem hlt
    rw [hget]
    simp only []
    have hstep : MaskStep users remap masks m
        (masks.set j (Lww.keep MaskRecord.lastUsed masks[j] (followed remap m))) :=
      .met masks[j] j hget hsame
    by_cases hlater : m.lastUsed > masks[j].lastUsed
    · have hkeep : Lww.keep MaskRecord.lastUsed masks[j] (followed remap m) = followed remap m :=
        if_pos hlater
      rw [if_pos hlater]
      rwa [hkeep] at hstep
    · have hkeep : Lww.keep MaskRecord.lastUsed masks[j] (followed remap m) = masks[j] :=
        if_neg hlater
      rw [if_neg hlater]
      rwa [hkeep, Table.set_of_getElem? hget] at hstep
  · rename_i hfind
    exact .new fun w hw => List.findIdx?_eq_none_iff.mp hfind w hw

/-- Whether a mask record of the table goes to this owner and is of this mask. -/
def goesTo (remap : List (Str × Str)) (uuid mask : Str) (m : MaskRecord) : Prop :=
  isMask uuid mask (followed remap m) = true

/-- The masks of an owner after the records `ms`: none, or the first of those used last. -/
def MasksOf (remap : List (Str × Str)) (uuid mask : Str) (ms masks : List MaskRecord) : Prop :=
  (masks.filter (isMask uuid mask) = [] ∧ ∀ m ∈ ms, ¬ goesTo remap uuid mask m)
    ∨ ∃ m, Lww.FirstMax MaskRecord.lastUsed (goesTo remap uuid mask) ms m
      ∧ masks.filter (isMask uuid mask) = [followed remap m]

/-- A record of another mask changes nothing for this one. -/
private theorem MasksOf.append_of_not {uuid mask : Str} {ms masks' : List MaskRecord}
    {m : MaskRecord} (h : MasksOf remap uuid mask ms masks) (hm : ¬ goesTo remap uuid mask m)
    (hsame : masks'.filter (isMask uuid mask) = masks.filter (isMask uuid mask)) :
    MasksOf remap uuid mask (ms ++ [m]) masks' := by
  rw [MasksOf, hsame]
  rcases h with ⟨hnil, hnone⟩ | ⟨x, hx, heq⟩
  · refine .inl ⟨hnil, fun y hy => ?_⟩
    rcases List.mem_append.mp hy with hy | hy
    · exact hnone y hy
    · rw [List.mem_singleton.mp hy]
      exact hm
  · exact .inr ⟨x, hx.append_of_not hm, heq⟩

/-- One mask of the walk: those kept so far are what the walk promises of the masks so far.
`huser` says that the owner is there, so a mask that goes to it is not dropped. -/
private theorem MasksOf.step {uuid mask : Str} {ms masks' : List MaskRecord} {m : MaskRecord}
    (h : MasksOf remap uuid mask ms masks) (huser : ∃ u ∈ users, u.uuid = uuid)
    (hstep : MaskStep users remap masks m masks') :
    MasksOf remap uuid mask (ms ++ [m]) masks' := by
  cases hstep with
  -- nobody owns the mask: it is dropped
  | orphan hno =>
    refine h.append_of_not (fun hgoes => ?_) rfl
    obtain ⟨u, hu, huuid⟩ := huser
    rw [goesTo, isMask, Bool.and_eq_true, beq_iff_eq] at hgoes
    exact hno u hu (huuid.trans hgoes.1.symm)
  -- it meets a mask of the same text and owner: the one used last stays
  | met w j hget hsame =>
    have hcongr : isMask uuid mask w = isMask uuid mask (followed remap m) :=
      isMask_congr hsame uuid mask
    have hkeep : isMask uuid mask (Lww.keep MaskRecord.lastUsed w (followed remap m))
        = isMask uuid mask w := by
      unfold Lww.keep
      split
      · exact hcongr.symm
      · rfl
    cases hw : isMask uuid mask w with
    | false =>
      refine h.append_of_not (fun hgoes => ?_)
        (Table.filter_set_of_false hget hw (hkeep.trans hw))
      rw [goesTo, ← hcongr, hw] at hgoes
      cases hgoes
    | true =>
      -- the mask it meets is the one kept so far
      have hgoes : goesTo remap uuid mask m := hcongr.symm.trans hw
      have hmem : w ∈ masks.filter (isMask uuid mask) :=
        List.mem_filter.mpr ⟨List.mem_of_getElem? hget, hw⟩
      rcases h with ⟨hnil, -⟩ | ⟨x, hx, heq⟩
      · rw [hnil] at hmem
        exact (List.not_mem_nil hmem).elim
      · rw [heq, List.mem_singleton] at hmem
        have hrank : Lww.keep MaskRecord.lastUsed (followed remap x) (followed remap m)
            = followed remap (Lww.keep MaskRecord.lastUsed x m) := by
          unfold Lww.keep
          exact (apply_ite (followed remap) _ _ _).symm
        refine .inr ⟨Lww.keep MaskRecord.lastUsed x m, hx.append_keep hgoes, ?_⟩
        rw [← hrank, ← hmem]
        refine Table.filter_set_of_singleton hget hw (hkeep.trans hw) ?_
        rw [heq, hmem]
  -- it meets none: it is kept
  | new hnone =>
    cases hm : isMask uuid mask (followed remap m) with
    | false =>
      refine h.append_of_not (fun hgoes => ?_) ?_
      · rw [goesTo, hm] at hgoes
        cases hgoes
      · rw [List.filter_append, List.filter_cons_of_neg (by simp [hm])]
        exact List.append_nil _
    | true =>
      -- none that was kept goes to the same owner under the same text
      have hother : ∀ w ∈ masks, isMask uuid mask w = false := by
        intro w hw
        rw [← hnone w hw]
        rw [isMask, Bool.and_eq_true, beq_iff_eq] at hm
        rw [isMask, isMask, hm.1, eqIc, eqIc, ← eqIc_iff.mp hm.2]
        rfl
      have hnil : masks.filter (isMask uuid mask) = [] :=
        List.filter_eq_nil_iff.mpr fun w hw => by simp [hother w hw]
      rcases h with ⟨-, hno⟩ | ⟨x, -, heq⟩
      · refine .inr ⟨m, .of_none hm hno, ?_⟩
        rw [List.filter_append, hnil, List.filter_cons_of_pos hm]
        rfl
      · rw [hnil] at heq
        cases heq

/-- An owner that is there has each mask that went to it once: the first of the records used last.
The induction is on the records, in the order of the table. -/
theorem dedupMasks_first (ms : List MaskRecord) (hroom : ms.length ≤ maxHubUserMasks) {uuid : Str}
    (huser : ∃ u ∈ users, u.uuid = uuid) (mask : Str) :
    MasksOf remap uuid mask ms (ms.foldl (dedupMask users remap) []) := by
  have key : MasksOf remap uuid mask ms (ms.foldl (dedupMask users remap) [])
      ∧ (ms.foldl (dedupMask users remap) []).length ≤ ms.length := by
    induction ms using List.reverseRecOn with
    | nil => exact ⟨.inl ⟨rfl, fun _ h => (List.not_mem_nil h).elim⟩, le_refl _⟩
    | append_singleton ms m ih =>
      rw [List.length_append, List.length_singleton] at hroom
      obtain ⟨hof, hlen⟩ := ih (by omega)
      rw [List.foldl_append, List.foldl_cons, List.foldl_nil]
      have hstep : MaskStep users remap (ms.foldl (dedupMask users remap) []) m
          (dedupMask users remap (ms.foldl (dedupMask users remap) []) m) :=
        dedupMask_step (by omega) m
      refine ⟨hof.step huser hstep, ?_⟩
      rw [List.length_append, List.length_singleton]
      generalize dedupMask users remap (ms.foldl (dedupMask users remap) []) m = masks' at hstep
      cases hstep with
      | orphan _ => omega
      | met w j _ _ => rw [List.length_set]; omega
      | new _ => rw [List.length_append, List.length_singleton]; omega
  exact key.1

end Masks

end IrcHub.Proofs
