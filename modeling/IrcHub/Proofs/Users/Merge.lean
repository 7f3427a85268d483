import IrcHub.Hub.Users

/-!
# `IrcHub.Proofs.Users.Merge`: what merging a user or usermask line does

`UserSync` and `MaskSync` list the outcomes of the two merge functions with the checks each one
passed; `userSync` and `maskSync` say that there are no others. The counters of a sync do not
decide anything, so the outcomes are about the hub alone.

* `UserAt`, `userAt_of_userSlot`: the record a user line is compared with: that of its uuid, the
  live one of its name, or a blank one
* `MaskAt`, `maskAt_of_maskSlot`: the same for a mask
* `remapUuid_frame`: a record that takes another uuid takes its flags and bindings along, and
  nothing else changes
-/

set_option autoImplicit false

namespace IrcHub.Proofs

open IrcHub.Hub Str

/-! ### Following a uuid -/

/-- What every step of a walk leaves alone, the walk leaves alone. -/
theorem foldl_frame {α : Type} (f : HubState → α) {step : HubState → Nat → HubState}
    (h : ∀ s i, f (step s i) = f s) (is : List Nat) (s : HubState) :
    f (is.foldl step s) = f s := by
  induction is generalizing s with
  | nil => rfl
  | cons i is ih => rw [List.foldl_cons, ih, h]

/-- Following a uuid touches flags and bindings only. `f` is any part of the state without
these. -/
theorem remapUuid_frame {α : Type} (f : HubState → α)
    (hflags : ∀ s rs, f { s with uflagRecords := rs } = f s)
    (hchans : ∀ s rs, f { s with uchanRecords := rs } = f s) (clk : Clock) (s : HubState)
    (old new : Str) : f (remapUuid clk s old new) = f s := by
  have hflag : ∀ s i, f (remapFlag clk old new s i) = f s := by
    intro s i
    unfold remapFlag
    repeat' split
    all_goals first | rfl | exact hflags s _
  have hchan : ∀ s i, f (remapChan clk old new s i) = f s := by
    intro s i
    unfold remapChan
    repeat' split
    all_goals first | rfl | exact hchans s _
  unfold remapUuid
  simp only []
  rw [foldl_frame f hchan, foldl_frame f hflag]

/-- Rights that move to another uuid leave the users. -/
@[simp] theorem remapUuid_userRecords (clk : Clock) (s : HubState) (old new : Str) :
    (remapUuid clk s old new).userRecords = s.userRecords :=
  remapUuid_frame HubState.userRecords (fun _ _ => rfl) (fun _ _ => rfl) clk s old new

/-- They leave the masks too. -/
@[simp] theorem remapUuid_maskRecords (clk : Clock) (s : HubState) (old new : Str) :
    (remapUuid clk s old new).maskRecords = s.maskRecords :=
  remapUuid_frame HubState.maskRecords (fun _ _ => rfl) (fun _ _ => rfl) clk s old new

/-! ### Users -/

/-- The outcomes of merging a user line. -/
inductive UserSync (clk : Clock) (s : HubState) (key : Char) (vstart : Str) : HubState → Prop
  /-- No record, or nothing to compare it with. -/
  | dropped (h : ∀ inc, parseUserRecord vstart key = some inc → userSlot clk s inc = none) :
      UserSync clk s key vstart s
  /-- Last-writer-wins refuses the record. -/
  | refused (inc : UserRecord) (t : HubState) (i : Nat) (cur : UserRecord)
      (hparse : parseUserRecord vstart key = some inc) (hslot : userSlot clk s inc = some (t, i))
      (hget : t.userRecords[i]? = some cur)
      (hacc : lwwAccepts clk inc.timestamp inc.isActive cur.timestamp cur.isActive = false) :
      UserSync clk s key vstart (raise clk t (.user i) inc.lastSeen)
  | stored (inc : UserRecord) (t : HubState) (i : Nat) (cur : UserRecord)
      (hparse : parseUserRecord vstart key = some inc) (hslot : userSlot clk s inc = some (t, i))
      (hget : t.userRecords[i]? = some cur)
      (hacc : lwwAccepts clk inc.timestamp inc.isActive cur.timestamp cur.isActive = true) :
      UserSync clk s key vstart { t with userRecords := t.userRecords.set i (userWrite inc cur) }

/-- Where a record is compared: at the record of its uuid, at the live record of its name, or at a
blank record. -/
inductive UserAt (clk : Clock) (s : HubState) (inc : UserRecord) : HubState → Nat → Prop
  | held (i : Nat) (hfind : userFind s inc.uuid = some i) : UserAt clk s inc s i
  | named (i : Nat) (ex : UserRecord) (hfind : userFind s inc.uuid = none)
      (hact : inc.isActive = true) (hget : s.userRecords[i]? = some ex)
      (hex : ex.isActive = true ∧ ex.typ = inc.typ ∧ eqIc ex.name inc.name = true)
      (hwins : incomingWins inc ex = true) : UserAt clk s inc (adoptUuid clk s i ex inc) i
  | new (hfind : userFind s inc.uuid = none) (hroom : s.userRecords.length < maxHubUserRecords)
      (hahead : tsAhead clk inc.timestamp = false)
      (hfloor : inc.isActive = true ∨ purgeFloorBlocks clk s inc.timestamp = false) :
      UserAt clk s inc { s with userRecords := s.userRecords ++ [{ uuid := inc.uuid }] }
        s.userRecords.length

/-- A record that was made is where the line is compared. -/
theorem userNew_at {clk : Clock} {s t : HubState} {inc : UserRecord} {i : Nat}
    (hfind : userFind s inc.uuid = none) (h : userNew clk s inc = some (t, i)) :
    UserAt clk s inc t i := by
  unfold userNew at h
  split at h
  · rename_i hok
    simp only [Bool.and_eq_true, decide_eq_true_eq, Bool.not_eq_true', Bool.or_eq_true] at hok
    cases h
    exact .new hfind hok.1.1 hok.1.2 hok.2
  · cases h

/-- The place a user line is compared at: the record of its uuid, that of the live user of its
name, or one made for it. -/
theorem userAt_of_userSlot {clk : Clock} {s t : HubState} {inc : UserRecord} {i : Nat}
    (h : userSlot clk s inc = some (t, i)) : UserAt clk s inc t i := by
  unfold userSlot at h
  cases hfind : userFind s inc.uuid with
  | some j =>
    rw [hfind] at h
    cases h
    exact .held i hfind
  | none =>
    rw [hfind] at h
    simp only [] at h
    split at h
    · rename_i hact
      split at h
      · exact userNew_at hfind h
      · rename_i ni hni
        cases hget : s.userRecords[ni]? with
        | none =>
          rw [hget] at h
          cases h
        | some ex =>
          rw [hget] at h
          simp only [] at h
          split at h
          · rename_i hwins
            cases h
            obtain ⟨hlt, hex, -⟩ := List.findIdx?_eq_some_iff_getElem.mp hni
            rw [(List.getElem?_eq_some_iff.mp hget).2] at hex
            simp only [Bool.and_eq_true, beq_iff_eq] at hex
            exact .named i ex hfind hact hget ⟨hex.1.1, hex.1.2, hex.2⟩ hwins
          · cases h
    · exact userNew_at hfind h

/-- What a user line of a peer comes to, in one lemma: dropped, refused, or written at its
place. -/
theorem userSync (clk : Clock) (s : HubState) (key : Char) (vstart : Str) (cnt : SyncCounters) :
    UserSync clk s key vstart (syncUserRecord clk s key vstart cnt).1 := by
  unfold syncUserRecord
  cases hparse : parseUserRecord vstart key with
  | none =>
    refine .dropped fun inc hinc => ?_
    rw [hparse] at hinc
    cases hinc
  | some inc =>
    simp only []
    cases hslot : userSlot clk s inc with
    | none =>
      refine .dropped fun inc' hinc => ?_
      rw [hparse] at hinc
      cases hinc
      exact hslot
    | some p =>
      obtain ⟨t, i⟩ := p
      have hget : ∃ cur, t.userRecords[i]? = some cur := by
        have hat := userAt_of_userSlot hslot
        cases hat with
        | held _ hfind =>
          exact ⟨_, List.getElem?_eq_getElem (List.findIdx?_eq_some_iff_getElem.mp hfind).1⟩
        | named _ ex _ _ hget _ _ =>
          have hlt := (List.getElem?_eq_some_iff.mp hget).1
          have hlen : (adoptUuid clk s i ex inc).userRecords.length = s.userRecords.length := by
            simp [adoptUuid]
          exact ⟨_, List.getElem?_eq_getElem (by rw [hlen]; exact hlt)⟩
        | new _ _ _ _ => exact ⟨{ uuid := inc.uuid }, by simp⟩
      obtain ⟨cur, hget⟩ := hget
      simp only [hget]
      split
      · rename_i hacc
        exact .refused inc t i cur hparse hslot hget (by simpa using hacc)
      · rename_i hacc
        exact .stored inc t i cur hparse hslot hget (by simpa using hacc)

/-! ### Usermasks -/

/-- The outcomes of merging a usermask line. -/
inductive MaskSync (clk : Clock) (s : HubState) (vstart : Str) : HubState → Prop
  /-- No record, an unknown user, or nothing to compare the record with. -/
  | dropped (h : ∀ inc, parseMaskRecord vstart = some inc →
      userFind s inc.uuid = none ∨ maskSlot clk s inc = none) : MaskSync clk s vstart s
  /-- Last-writer-wins refuses the record. -/
  | refused (inc : MaskRecord) (t : HubState) (i : Nat) (cur : MaskRecord)
      (hparse : parseMaskRecord vstart = some inc) (huser : userFind s inc.uuid ≠ none)
      (hslot : maskSlot clk s inc = some (t, i)) (hget : t.maskRecords[i]? = some cur)
      (hacc : lwwAccepts clk inc.timestamp inc.isActive cur.timestamp cur.isActive = false) :
      MaskSync clk s vstart (raise clk t (.mask i) inc.lastUsed)
  | stored (inc : MaskRecord) (t : HubState) (i : Nat) (cur : MaskRecord)
      (hparse : parseMaskRecord vstart = some inc) (huser : userFind s inc.uuid ≠ none)
      (hslot : maskSlot clk s inc = some (t, i)) (hget : t.maskRecords[i]? = some cur)
      (hacc : lwwAccepts clk inc.timestamp inc.isActive cur.timestamp cur.isActive = true) :
      MaskSync clk s vstart { t with
        maskRecords := t.maskRecords.set i
          { cur with
            isActive := inc.isActive
            lastUsed := max cur.lastUsed inc.lastUsed
            timestamp := inc.timestamp } }

/-- Where a mask is compared: at the stored mask or at a blank record. -/
inductive MaskAt (clk : Clock) (s : HubState) (inc : MaskRecord) : HubState → Nat → Prop
  | held (i : Nat) (hfind : maskFind s inc.uuid inc.mask = some i) : MaskAt clk s inc s i
  | new (hfind : maskFind s inc.uuid inc.mask = none)
      (hroom : s.maskRecords.length < maxHubUserMasks)
      (hahead : tsAhead clk inc.timestamp = false)
      (hfloor : inc.isActive = true ∨ purgeFloorBlocks clk s inc.timestamp = false) :
      MaskAt clk s inc
        { s with maskRecords := s.maskRecords ++ [{ uuid := inc.uuid, mask := inc.mask }] }
        s.maskRecords.length

/-- The place a mask line is compared at. -/
theorem maskAt_of_maskSlot {clk : Clock} {s t : HubState} {inc : MaskRecord} {i : Nat}
    (h : maskSlot clk s inc = some (t, i)) : MaskAt clk s inc t i := by
  unfold maskSlot at h
  cases hfind : maskFind s inc.uuid inc.mask with
  | some j =>
    rw [hfind] at h
    cases h
    exact .held i hfind
  | none =>
    rw [hfind] at h
    simp only [] at h
    split at h
    · rename_i hok
      simp only [Bool.and_eq_true, decide_eq_true_eq, Bool.not_eq_true', Bool.or_eq_true] at hok
      cases h
      exact .new hfind hok.1.1 hok.1.2 hok.2
    · cases h

/-- What a mask line of a peer comes to, with the same three outcomes. -/
theorem maskSync (clk : Clock) (s : HubState) (vstart line : Str) (cnt : SyncCounters) :
    MaskSync clk s vstart (syncMaskRecord clk s vstart line cnt).1 := by
  unfold syncMaskRecord
  cases hparse : parseMaskRecord vstart with
  | none =>
    refine .dropped fun inc hinc => ?_
    rw [hparse] at hinc
    cases hinc
  | some inc =>
    simp only []
    cases huser : userFind s inc.uuid with
    | none =>
      refine .dropped fun inc' hinc => ?_
      rw [hparse] at hinc
      cases hinc
      exact .inl huser
    | some ui =>
      have hknown : userFind s inc.uuid ≠ none := by rw [huser]; exact Option.some_ne_none ui
      simp only [Option.isNone_some, Bool.false_eq_true, if_false]
      cases hslot : maskSlot clk s inc with
      | none =>
        refine .dropped fun inc' hinc => ?_
        rw [hparse] at hinc
        cases hinc
        exact .inr hslot
      | some p =>
        obtain ⟨t, i⟩ := p
        have hget : ∃ cur, t.maskRecords[i]? = some cur := by
          have hat := maskAt_of_maskSlot hslot
          cases hat with
          | held _ hfind =>
            exact ⟨_, List.getElem?_eq_getElem (List.findIdx?_eq_some_iff_getElem.mp hfind).1⟩
          | new _ _ _ _ => exact ⟨{ uuid := inc.uuid, mask := inc.mask }, by simp⟩
        obtain ⟨cur, hget⟩ := hget
        simp only [hget]
        split
        · rename_i hacc
          exact .refused inc t i cur hparse hknown hslot hget (by simpa using hacc)
        · rename_i hacc
          exact .stored inc t i cur hparse hknown hslot hget (by simpa using hacc)

end IrcHub.Proofs
