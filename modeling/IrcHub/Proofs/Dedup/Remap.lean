import IrcHub.Lib.Move
import IrcHub.Hub.Dedup
import IrcHub.Proofs.Convergence.Access
import IrcHub.Proofs.Purge.Rights
import IrcHub.Proofs.Users.Merge

/-!
# `IrcHub.Proofs.Dedup.Remap`: rights that follow a uuid

Rights that follow a uuid. `remapUuid` looks at every flag record and every binding once. The flag
register of the old uuid is joined into that of the new one (`flagView_remapUuid`), and so is
every binding of it (`bindingView_remapUuid`). What other users hold stays as it is
(`flagView_remapUuid_of_ne`, `bindingView_remapUuid_of_ne`).

- `remapFlag_moves`, `remapChan_moves`: one look at a row is a step of `Lww.MoveStep`
- `flagView_pass`, `bindingView_pass`: the whole pass
- `RightsKeyed.remapUuid`: the tables keep one row per key

While a config is loading no stamp is too far ahead, so no join is refused. On a hub that runs a
record could be, and the uuid of its row would then be given up without its rights.
-/

set_option autoImplicit false

namespace IrcHub.Proofs

open IrcHub.Hub Str
open String (utf8Len)

section Remap

variable {clk : Clock} {old new : Str}

/-- While the hub loads no stamp is ahead of its clock. -/
theorem tsAhead_of_loading (hload : clk.loading = true) (ts : Int) : tsAhead clk ts = false := by
  rw [tsAhead, hload]
  rfl

/-! ### Flags -/

/-- One look at a flag record: it is of another user, it goes, or it is joined into the record of
the new uuid. -/
theorem remapFlag_moves (hload : clk.loading = true) (s : HubState) (i : Nat) :
    Lww.MoveStep UflagRecord.uuid (fun r => flagRank r.timestamp r.flags) (· = old) (fun _ => new)
      s.uflagRecords i (remapFlag clk old new s i).uflagRecords := by
  unfold remapFlag
  split
  · rename_i hget
    exact .stay fun r hr => by rw [hget] at hr; cases hr
  rename_i r hget
  split
  · rename_i hold
    exact .stay fun x hx => by rw [hget] at hx; cases hx; exact hold
  rename_i hold
  rw [not_not] at hold
  split
  · rename_i hfind
    rw [uflagFind_eq] at hfind
    show Lww.MoveStep _ _ _ _ _ _ (s.uflagRecords.modify i fun r => { r with uuid := new })
    rw [List.modify_eq_set_getElem?, hget]
    exact .rename r { r with uuid := new } hget hold hfind rfl rfl
  rename_i d hfind
  obtain ⟨hlt, -, -⟩ := List.findIdx?_eq_some_iff_getElem.mp hfind
  rw [List.getElem?_eq_getElem hlt]
  simp only []
  have hdst := List.getElem?_eq_getElem hlt
  generalize s.uflagRecords[d] = dst at hdst
  have hto : dst.uuid = new := uflagFind_some hfind hdst
  rw [uflagFind_eq] at hfind
  by_cases hacc : flagRank dst.timestamp dst.flags < flagRank r.timestamp r.flags
  · have hyes := (uflagsAccepts_iff (tsAhead_of_loading hload r.timestamp)).mpr hacc
    by_cases hdi : d = i
    · subst hdi
      rw [hget] at hdst
      cases hdst
      exact absurd hacc (lt_irrefl _)
    · rw [if_pos (by rw [hyes]; simpa using hdi)]
      show Lww.MoveStep _ _ _ _ _ _
        (s.uflagRecords.modify d fun x => { x with flags := r.flags, timestamp := r.timestamp })
      rw [List.modify_eq_set_getElem?, hdst]
      exact .absorb r dst { dst with flags := r.flags, timestamp := r.timestamp } d
        hget hold hfind hdst hto (sup_eq_right.mpr hacc.le).symm
  · have hno := mt (uflagsAccepts_iff (tsAhead_of_loading hload r.timestamp)).mp hacc
    rw [if_neg (by simp [Bool.eq_false_iff.mpr hno])]
    -- the record stays behind, and the one found covers it
    have habsorb : Lww.MoveStep UflagRecord.uuid (fun r => flagRank r.timestamp r.flags) (· = old)
        (fun _ => new) s.uflagRecords i (s.uflagRecords.set d dst) :=
      .absorb r dst dst d hget hold hfind hdst hto (sup_eq_left.mpr (not_lt.mp hacc)).symm
    rwa [Table.set_of_getElem? hdst] at habsorb

/-! ### Bindings -/

/-- One look at a binding. The new key keeps the channel, so a binding meets the one of the same
channel. -/
theorem remapChan_moves (hload : clk.loading = true) (s : HubState) (i : Nat) :
    Lww.MoveStep bindingKey (fun r => lwwRank r.timestamp r.isActive) (fun k => k.1 = old)
      (fun k => (new, k.2)) s.uchanRecords i (remapChan clk old new s i).uchanRecords := by
  unfold remapChan
  split
  · rename_i hget
    exact .stay fun r hr => by rw [hget] at hr; cases hr
  rename_i r hget
  split
  · rename_i hold
    exact .stay fun x hx => by rw [hget] at hx; cases hx; exact hold
  rename_i hold
  rw [not_not] at hold
  split
  · rename_i hfind
    rw [uchanFind_eq] at hfind
    show Lww.MoveStep _ _ _ _ _ _ (s.uchanRecords.modify i fun r => { r with uuid := new })
    rw [List.modify_eq_set_getElem?, hget]
    exact .rename r { r with uuid := new } hget hold hfind rfl rfl
  rename_i d hfind
  obtain ⟨hlt, -, -⟩ := List.findIdx?_eq_some_iff_getElem.mp hfind
  rw [List.getElem?_eq_getElem hlt]
  simp only []
  have hdst := List.getElem?_eq_getElem hlt
  generalize s.uchanRecords[d] = dst at hdst
  rw [uchanFind_eq] at hfind
  have hto : bindingKey dst = (new, lower r.chan) := by
    have hhit := List.find?_some (Table.find?_of_findIdx? hfind hdst)
    exact of_decide_eq_true hhit
  by_cases hacc : lwwRank dst.timestamp dst.isActive < lwwRank r.timestamp r.isActive
  · have hyes := (lwwAccepts_iff (tsAhead_of_loading hload r.timestamp)).mpr hacc
    by_cases hdi : d = i
    · subst hdi
      rw [hget] at hdst
      cases hdst
      exact absurd hacc (lt_irrefl _)
    · rw [if_pos (by rw [hyes]; simpa using hdi)]
      show Lww.MoveStep _ _ _ _ _ _ (s.uchanRecords.modify d fun x =>
        { x with isActive := r.isActive, timestamp := r.timestamp })
      rw [List.modify_eq_set_getElem?, hdst]
      exact .absorb r dst { dst with isActive := r.isActive, timestamp := r.timestamp } d hget
        hold hfind hdst hto (sup_eq_right.mpr hacc.le).symm
  · have hno := mt (lwwAccepts_iff (tsAhead_of_loading hload r.timestamp)).mp hacc
    rw [if_neg (by simp [Bool.eq_false_iff.mpr hno])]
    have habsorb : Lww.MoveStep bindingKey (fun r => lwwRank r.timestamp r.isActive)
        (fun k => k.1 = old) (fun k => (new, k.2)) s.uchanRecords i (s.uchanRecords.set d dst) :=
      .absorb r dst dst d hget hold hfind hdst hto (sup_eq_left.mpr (not_lt.mp hacc)).symm
    rwa [Table.set_of_getElem? hdst] at habsorb

/-! ### The whole pass -/

/-- Rights stay keyed when those of a uuid move to another. -/
theorem RightsKeyed.remapUuid {s : HubState} (h : RightsKeyed s) (clk : Clock) (old new : Str) :
    RightsKeyed (remapUuid clk s old new) := by
  have hflags : RightsKeyed
    ((List.range s.uflagRecords.length).foldl (Hub.remapFlag clk old new) s) :=
    List.foldlRecOn (motive := RightsKeyed) _ _ h fun t ht i _ => ht.remapFlag clk old new i
  exact List.foldlRecOn (motive := RightsKeyed) _ _ hflags fun t ht i _ =>
    ht.remapChan clk old new i

/-- Flags are keyed by uuid. -/
theorem RightsKeyed.flags_key {s : HubState} (h : RightsKeyed s) :
    s.uflagRecords.Pairwise fun r r' => UflagRecord.uuid r ≠ UflagRecord.uuid r' := h.flags

/-- Bindings are keyed by uuid and channel. -/
theorem RightsKeyed.binds_key {s : HubState} (h : RightsKeyed s) :
    s.uchanRecords.Pairwise fun r r' => bindingKey r ≠ bindingKey r' := by
  refine h.binds.imp fun hdiff heq => ?_
  rw [bindingKey, bindingKey, Prod.mk.injEq] at heq
  exact hdiff ⟨heq.1, beq_iff_eq.mpr heq.2⟩

/-- Moving flags touches no binding. -/
private theorem uchanRecords_remapFlags (s : HubState) (is : List Nat) :
    (is.foldl (remapFlag clk old new) s).uchanRecords = s.uchanRecords := by
  refine foldl_frame HubState.uchanRecords (fun s i => ?_) is s
  unfold remapFlag
  repeat' split
  all_goals rfl

/-- Moving bindings touches no flags. -/
private theorem uflagRecords_remapChans (s : HubState) (is : List Nat) :
    (is.foldl (remapChan clk old new) s).uflagRecords = s.uflagRecords := by
  refine foldl_frame HubState.uflagRecords (fun s i => ?_) is s
  unfold remapChan
  repeat' split
  all_goals rfl

/-- Of both passes only the first moves flags. -/
private theorem flagView_pass (clk : Clock) (s : HubState) (old new : Str) :
    flagView (remapUuid clk s old new)
      = flagView ((List.range s.uflagRecords.length).foldl (remapFlag clk old new) s) := by
  unfold remapUuid flagView
  simp only []
  rw [uflagRecords_remapChans]

/-- And only the second moves bindings. -/
private theorem bindingView_pass (clk : Clock) (s : HubState) (old new : Str) :
    bindingView (remapUuid clk s old new) = bindingView
      ((List.range ((List.range s.uflagRecords.length).foldl
      (remapFlag clk old new) s).uchanRecords.length).foldl
        (remapChan clk old new)
        ((List.range s.uflagRecords.length).foldl (remapFlag clk old new) s)) := rfl

variable {s : HubState}

/-- The flags of the old uuid are joined into those of the new one. -/
theorem flagView_remapUuid (hload : clk.loading = true) (hkeyed : RightsKeyed s)
    (hne : new ≠ old) :
    flagView (remapUuid clk s old new) new = flagView s new ⊔ flagView s old := by
  rw [flagView_pass]
  refine Lww.view_moveRun ?_ (remapFlag_moves hload) hkeyed.flags_key hne fun k => ?_
  · exact fun _ => hne
  · exact ⟨fun h => h.1, fun h => ⟨h, rfl⟩⟩

/-- What another user holds stays as it is. -/
theorem flagView_remapUuid_of_ne (hload : clk.loading = true) (hne : new ≠ old) {u : Str}
    (hold : u ≠ old) (hnew : u ≠ new) : flagView (remapUuid clk s old new) u = flagView s u := by
  rw [flagView_pass]
  refine Lww.view_moveRun_of_none ?_ (remapFlag_moves hload) hold ?_ _
  · exact fun _ => hne
  · exact fun _ _ => hnew.symm

/-- So are its bindings, channel by channel. -/
theorem bindingView_remapUuid (hload : clk.loading = true) (hkeyed : RightsKeyed s)
    (hne : new ≠ old) (chan : Str) : bindingView (remapUuid clk s old new) (new, chan)
      = bindingView s (new, chan) ⊔ bindingView s (old, chan) := by
  rw [bindingView_pass]
  have hsame : ((List.range s.uflagRecords.length).foldl (remapFlag clk old new) s).uchanRecords
      = s.uchanRecords := uchanRecords_remapFlags s _
  generalize (List.range s.uflagRecords.length).foldl (remapFlag clk old new) s = t at hsame ⊢
  have hview : bindingView t = bindingView s := by rw [bindingView, hsame, bindingView]
  rw [← hview]
  refine Lww.view_moveRun ?_ (remapChan_moves hload) (hsame ▸ hkeyed.binds_key) hne fun k => ?_
  · exact fun _ => hne
  · constructor
    · exact fun h => Prod.ext h.1 (Prod.mk.inj h.2).2
    · rintro rfl
      exact ⟨rfl, rfl⟩

/-- The bindings of anybody else stay. -/
theorem bindingView_remapUuid_of_ne (hload : clk.loading = true) (hne : new ≠ old) {u : Str}
    (hold : u ≠ old) (hnew : u ≠ new) (chan : Str) :
    bindingView (remapUuid clk s old new) (u, chan) = bindingView s (u, chan) := by
  rw [bindingView_pass]
  have hsame : ((List.range s.uflagRecords.length).foldl (remapFlag clk old new) s).uchanRecords
      = s.uchanRecords := uchanRecords_remapFlags s _
  generalize (List.range s.uflagRecords.length).foldl (remapFlag clk old new) s = t at hsame ⊢
  have hview : bindingView t = bindingView s := by rw [bindingView, hsame, bindingView]
  rw [← hview]
  refine Lww.view_moveRun_of_none ?_ (remapChan_moves hload) hold ?_ _
  · exact fun _ => hne
  · exact fun _ _ heq => hnew (Prod.mk.inj heq).1.symm

end Remap

end IrcHub.Proofs
