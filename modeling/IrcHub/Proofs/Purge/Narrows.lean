import IrcHub.Proofs.Purge.Exact

/-!
# `IrcHub.Proofs.Purge.Narrows`: what channel deletes and purges do to rights

A delete of a channel only ends bindings (`Narrows`): a binding that is live afterwards is a
record from before, and every user keeps a record for every channel it had one for. A purge then
drops records, and `migrate` gives every channel to an oper without any. So the `"*"` record of an
oper, live or deleted, is what keeps it from becoming global, and a purge keeps that record of a
live user.

* `PurgeStep`: a channel delete by any of its paths, a purge, a migration
* `FlagsWithin`, `BindsWithin`: the rights of a user in a later state are within those of the
  start
* `rights_kept`: this holds for every sequence of steps, of the flags without a condition on the
  bindings, and of the bindings of a user whose `"*"` record is there
* `rights_widen`: an oper bound to channels only by peers has no such record, and becomes global

The two predicates also say that a live user still has its record, flag or `"*"`. Without that
part they would not survive a migration.
-/

set_option autoImplicit false

namespace IrcHub.Proofs

open IrcHub.Hub Str

/-! ### Steps -/

/-- A channel delete of the console or of a peer, a purge, or the default rights. -/
inductive PurgeStep
  | chanDel (payload : Str)
  /-- The delete of a channel in a frame, as an update and as a raw value. -/
  | delete (value : Str) (ts : Int)
  | deleteRaw (value : Str) (ts : Int)
  | purge (cutoff : Int)
  | migrate

/-- One step. -/
def PurgeStep.run (clk : Clock) (s : HubState) : PurgeStep → HubState
  | .chanDel payload => delChannel clk s payload
  | .delete value ts => (updateGlobalEntry clk s .c value [] "del".toList ts).1
  | .deleteRaw value ts => (storeGlobalEntryRaw clk s .c value ts).1
  | .purge cutoff => executePurge clk s cutoff
  | .migrate => (accessMigrate clk s).1

/-- A sequence of steps, each under its clock. -/
def runPurges (s : HubState) (steps : List (Clock × PurgeStep)) : HubState :=
  steps.foldl (fun s p => p.2.run p.1 s) s

/-! ### Channel deletes -/

/-- Live bindings of `t` are records of `s`, and no key of a binding is lost. Users and flags are
the same. -/
structure Narrows (s t : HubState) : Prop where
  users : t.userRecords = s.userRecords
  flags : t.uflagRecords = s.uflagRecords
  live : ∀ r ∈ t.uchanRecords, r.isActive = true → r ∈ s.uchanRecords
  kept : ∀ r ∈ s.uchanRecords, ∃ r' ∈ t.uchanRecords, r'.uuid = r.uuid ∧ r'.chan = r.chan

section Narrow

variable {s t u : HubState}

/-- A step that leaves the tables of people and rights alone narrows nothing and widens nothing.
-/
theorem Narrows.of_eq (husers : t.userRecords = s.userRecords)
    (hflags : t.uflagRecords = s.uflagRecords) (hbinds : t.uchanRecords = s.uchanRecords) :
    Narrows s t where
  users := husers
  flags := hflags
  live _ hr _ := hbinds ▸ hr
  kept _ hr := ⟨_, hbinds ▸ hr, rfl, rfl⟩

/-- Narrowing steps compose. -/
theorem Narrows.trans (h : Narrows s t) (h' : Narrows t u) : Narrows s u where
  users := h'.users.trans h.users
  flags := h'.flags.trans h.flags
  live r hr hact := h.live r (h'.live r hr hact) hact
  kept r hr := by
    obtain ⟨r', hr', huuid, hchan⟩ := h.kept r hr
    obtain ⟨r'', hr'', huuid', hchan'⟩ := h'.kept r' hr'
    exact ⟨r'', hr'', huuid'.trans huuid, hchan'.trans hchan⟩

/-- A binding is ended: its row stays, and is not live any more. -/
theorem narrows_uchanPut (clk : Clock) (s : HubState) (uuid chan : Str) (ts : Int) :
    Narrows s (uchanPut clk s uuid chan false ts).1 := by
  have hflags := uchanPut_uflagRecords clk s uuid chan false ts
  have hres := uchanPut_result clk s uuid chan false ts
  generalize uchanPut clk s uuid chan false ts = q at hres hflags ⊢
  cases hres with
  | refused => exact .of_eq rfl rfl rfl
  | rewrote i r hshape hname hpos hahead hfind hget hacc =>
    refine ⟨rfl, hflags, ?_, ?_⟩
    · rw [uchanSet_eq hget]
      intro a ha hact
      rcases List.mem_or_eq_of_mem_set ha with ha | rfl
      · exact ha
      · cases hact
    · rw [uchanSet_eq hget]
      intro a ha
      by_cases har : a = r
      · have hi := (List.getElem?_eq_some_iff.mp hget).1
        exact ⟨_, List.mem_set hi _, har ▸ rfl, har ▸ rfl⟩
      · obtain ⟨j, hj⟩ := List.getElem?_of_mem ha
        have hij : i ≠ j := by
          rintro rfl
          rw [hget] at hj
          exact har (Option.some.inj hj).symm
        exact ⟨a, List.mem_of_getElem? (by rw [List.getElem?_set_ne hij]; exact hj), rfl, rfl⟩
  | new hshape hname hpos hahead hfind hroom =>
    refine ⟨rfl, hflags, ?_, fun a ha => ⟨a, List.mem_append_left _ ha, rfl, rfl⟩⟩
    intro a ha hact
    rcases List.mem_append.mp ha with ha | ha
    · exact ha
    · rw [List.mem_singleton.mp ha] at hact
      cases hact

/-- A put of a record touches no user. -/
theorem putRecord_userRecords (clk : Clock) (s : HubState) (k : GlobalKey) (v : Str) (ts : Int) :
    (putRecord clk s k v ts).1.userRecords = s.userRecords := by
  have hoff := congrArg HubState.userRecords (offStore_putRecord clk s k v ts)
  exact hoff

/-- Nor any right. -/
theorem narrows_putRecord (clk : Clock) (s : HubState) (k : GlobalKey) (v : Str) (ts : Int) :
    Narrows s (putRecord clk s k v ts).1 :=
  .of_eq (putRecord_userRecords clk s k v ts) (putRecord_uflagRecords clk s k v ts)
    (putRecord_uchanRecords clk s k v ts)

/-- The cascade ends bindings, by the rule for what survives a cascade. -/
theorem narrows_chanCascadeDel (clk : Clock) (s : HubState) (chan : Str) (ts : Int)
    (announce : Bool) :
    Narrows s (chanCascadeDel clk s chan ts announce).1 := by
  refine chanCascadeDel_induction (P := Narrows s) ?_ ?_ ?_ ?_ (.of_eq rfl rfl rfl)
  · intro t ht
    refine ht.trans (.of_eq ?_ ?_ (learnedDrop_tables t chan).2)
    · unfold learnedDrop
      split
      · rfl
      · rfl
    · unfold learnedDrop
      split
      · rfl
      · rfl
  · exact fun t e ht _ _ _ _ => ht.trans (narrows_putRecord clk t e.key _ ts)
  · exact fun t uuid c ht _ _ => ht.trans (narrows_uchanPut clk t uuid c ts)
  · exact fun t p ht => ht.trans (.of_eq rfl rfl rfl)

/-- Writing over an entry of the older kinds touches neither. -/
theorem narrows_replaceOld (clk : Clock) (s : HubState) (i : Nat) (e : GlobalEntry)
    (w : Str) (ts : Int) (chan : Str) : Narrows s (replaceOld clk s i e w ts chan) := by
  unfold replaceOld
  simp only []
  have hset : Narrows s { s with
      globalEntries := s.globalEntries.set i { e with value := w, timestamp := ts } } :=
        .of_eq rfl rfl rfl
  split
  · exact hset.trans (narrows_chanCascadeDel clk _ chan ts false)
  · exact hset

/-- Nor does adding an entry. -/
theorem narrows_push (s : HubState) (e : GlobalEntry) : Narrows s (globalPush s e) := by
  rw [globalPush_eq]
  exact .of_eq rfl rfl rfl

/-- Nor does a local change. -/
theorem narrows_updateGlobalEntry (clk : Clock) (s : HubState) (k : GlobalKey)
    (value extra op : Str) (ts : Int) :
    Narrows s (updateGlobalEntry clk s k value extra op ts).1 := by
  have hres := updateGlobalEntry_result clk s k value extra op ts
  generalize updateGlobalEntry clk s k value extra op ts = r at hres ⊢
  cases hres with
  | refused => exact .of_eq rfl rfl rfl
  | rewrote i e hk hfind hget hacc => exact narrows_replaceOld clk s i e _ ts _
  | new hk hfind hahead hroom => exact narrows_push s _

/-- Nor does an entry of a peer, for the older kinds. -/
theorem narrows_storeGlobalEntryRaw (clk : Clock) (s : HubState) {k : GlobalKey}
    (hk : keyIsModes k = false) (value : Str) (ts : Int) :
    Narrows s (storeGlobalEntryRaw clk s k value ts).1 := by
  have hres := storeGlobalEntryRaw_result hk clk s value ts
  generalize storeGlobalEntryRaw clk s k value ts = r at hres ⊢
  cases hres with
  | refused => exact .of_eq rfl rfl rfl
  | rewrote i e hfind hget hacc => exact narrows_replaceOld clk s i e _ ts _
  | new hfind hahead hroom => exact narrows_push s _

/-- A channel that is deleted takes its bindings with it. That is the only change of rights, and
it takes away. -/
theorem narrows_delChannel (clk : Clock) (s : HubState) (payload : Str) :
    Narrows s (delChannel clk s payload) := by
  unfold delChannel
  split
  · exact .of_eq rfl rfl rfl
  · have hcascade := narrows_chanCascadeDel clk s payload (chanDelStamp clk s payload) true
    have hentry := hcascade.trans (narrows_updateGlobalEntry clk _ .c payload [] "del".toList
      (chanDelStamp clk s payload))
    exact hentry.trans (.of_eq rfl rfl rfl)

end Narrow

/-! ### Purges -/

/-- What a purge does to rights. It keeps the flags of the users that stay, and the `"*"` record
of every live one. -/
structure PurgeRights (s t : HubState) : Prop where
  users : t.userRecords.Sublist s.userRecords
  flags : t.uflagRecords = s.uflagRecords.filter fun r => t.userRecords.any fun u =>
    u.uuid == r.uuid
  binds : t.uchanRecords.Sublist s.uchanRecords
  star : ∀ r ∈ s.uchanRecords, r.chan = ['*'] →
    (∃ u ∈ t.userRecords, u.isActive = true ∧ u.uuid = r.uuid) → r ∈ t.uchanRecords

section Purging

variable {s t : HubState}

/-- What the purge of the rights takes out: rows of users that are gone, and bindings that are old
and dead or of a channel that is gone. -/
theorem purgeRights_accessPurge (h : RightsKeyed s) (cutoff : Int) :
    PurgeRights s (accessPurge s cutoff) := by
  have hkept : RightsKeyed { s with uchanRecords := s.uchanRecords.filter fun r =>
                                    !bindingGone s cutoff r } :=
    h.of_sublist (List.Sublist.refl _) List.filter_sublist
  unfold accessPurge
  rw [accessPrune_eq hkept]
  refine ⟨List.Sublist.refl _, rfl, List.filter_sublist.trans List.filter_sublist, ?_⟩
  intro r hr hstar huser
  obtain ⟨u, hu, hact, huuid⟩ := huser
  have hlive : ((s.userRecords.filter (·.isActive)).map (·.uuid)).contains r.uuid = true :=
    List.contains_iff_mem.mpr (List.mem_map.mpr ⟨u, List.mem_filter.mpr ⟨hu, hact⟩, huuid⟩)
  have hstays : bindingGone s cutoff r = false := by
    unfold bindingGone
    simp only []
    rw [hlive, hstar]
    simp
  have hknown : (s.userRecords.any fun u => u.uuid == r.uuid) = true :=
    List.any_eq_true.mpr ⟨u, hu, beq_iff_eq.mpr huuid⟩
  exact List.mem_filter.mpr ⟨List.mem_filter.mpr ⟨hr, by rw [hstays]; rfl⟩, hknown⟩

/-- The sweep of orphaned records touches no user. -/
theorem purgeChanOrphans_userRecords (s : HubState) :
    (purgeChanOrphans s).userRecords = s.userRecords := by
  have hoff := congrArg HubState.userRecords (offStore_purgeChanOrphans s)
  exact hoff

/-- A whole purge takes out users and rights and writes none. -/
theorem purgeRights_executePurge (h : RightsKeyed s) (clk : Clock) (cutoff : Int) :
    PurgeRights s (executePurge clk s cutoff) := by
  have hglobals : (purgeGlobals cutoff (purgeFloorSet clk s cutoff)).userRecords = s.userRecords
      ∧ (purgeGlobals cutoff (purgeFloorSet clk s cutoff)).uflagRecords = s.uflagRecords
      ∧ (purgeGlobals cutoff (purgeFloorSet clk s cutoff)).uchanRecords = s.uchanRecords := by
    rw [purgeGlobals_eq]
    exact ⟨rfl, rfl, rfl⟩
  have husers := (purgeChanOrphans_userRecords
    (purgeGlobals cutoff (purgeFloorSet clk s cutoff))).trans hglobals.1
  have hflags := (purgeChanOrphans_uflagRecords
    (purgeGlobals cutoff (purgeFloorSet clk s cutoff))).trans hglobals.2.1
  have hbinds := (purgeChanOrphans_uchanRecords
    (purgeGlobals cutoff (purgeFloorSet clk s cutoff))).trans hglobals.2.2
  unfold executePurge
  simp only []
  generalize purgeChanOrphans (purgeGlobals cutoff (purgeFloorSet clk s cutoff)) = o
    at husers hflags hbinds ⊢
  have hkeyed : RightsKeyed (purgeMasks cutoff (purgeUsers cutoff o)) := h.of_eq hflags hbinds
  have hsub : (purgeMasks cutoff (purgeUsers cutoff o)).userRecords.Sublist s.userRecords := by
    rw [← husers]
    exact (List.take_sublist _ _).trans List.filter_sublist
  have hpurge := purgeRights_accessPurge hkeyed cutoff
  refine ⟨hpurge.users.trans hsub, ?_, ?_, ?_⟩
  · rw [← hflags]
    exact hpurge.flags
  · rw [← hbinds]
    exact hpurge.binds
  · rw [← hbinds]
    exact hpurge.star

end Purging

/-! ### One user -/

/-- The user is live in the state. -/
def LiveUser (s : HubState) (uuid : Str) : Prop := ∃ u ∈ s.userRecords, u.isActive = true
    ∧ u.uuid = uuid

/-- The user is a live oper in the state. -/
def LiveOper (s : HubState) (uuid : Str) : Prop :=
  ∃ u ∈ s.userRecords, u.isActive = true ∧ u.typ = 'o' ∧ u.uuid = uuid

/-- The user has a `"*"` binding, live or deleted. -/
def StarRecord (s : HubState) (uuid : Str) : Prop := ∃ r ∈ s.uchanRecords, r.uuid = uuid
    ∧ r.chan = ['*']

/-- A live oper that can have bindings at all has a `"*"` record. One whose uuid has not the shape
of a uuid can have none, and a migration gives it none. -/
def StarHeld (s : HubState) (uuid : Str) : Prop :=
  uuidShape uuid = true → LiveOper s uuid → StarRecord s uuid

/-- The flags of the user in `t` are those in `s`, and a live user has a record of them. -/
structure FlagsWithin (s : HubState) (uuid : Str) (t : HubState) : Prop where
  within : ∀ r ∈ t.uflagRecords, r.uuid = uuid → r ∈ s.uflagRecords
  held : LiveUser t uuid → ∃ r ∈ t.uflagRecords, r.uuid = uuid

/-- What the user may act on in `t` it may act on in `s`. -/
structure BindsWithin (s : HubState) (uuid : Str) (t : HubState) : Prop where
  within : ∀ r ∈ t.uchanRecords, r.uuid = uuid → r.isActive = true → r ∈ s.uchanRecords
  held : StarHeld t uuid

section User

variable {s t u : HubState} {uuid : Str}

/-- A user that is live after a purge was live before. -/
theorem LiveUser.of_sublist (h : LiveUser u uuid) (hsub : u.userRecords.Sublist t.userRecords) :
    LiveUser t uuid := by
  obtain ⟨x, hx, hrest⟩ := h
  exact ⟨x, hsub.subset hx, hrest⟩

/-- So was an oper. -/
theorem LiveOper.of_sublist (h : LiveOper u uuid) (hsub : u.userRecords.Sublist t.userRecords) :
    LiveOper t uuid := by
  obtain ⟨x, hx, hrest⟩ := h
  exact ⟨x, hsub.subset hx, hrest⟩

/-- A narrowing step leaves a user's flags within what they were. -/
theorem FlagsWithin.narrows (h : FlagsWithin s uuid t) (hn : Narrows t u) :
    FlagsWithin s uuid u := by
  refine ⟨?_, fun hlive => ?_⟩
  · rw [hn.flags]
    exact h.within
  · rw [hn.flags]
    exact h.held (hlive.of_sublist (hn.users ▸ List.Sublist.refl _))

/-- It leaves the bindings within what they were. -/
theorem BindsWithin.narrows (h : BindsWithin s uuid t) (hn : Narrows t u) :
    BindsWithin s uuid u := by
  refine ⟨fun r hr huuid hact => h.within r (hn.live r hr hact) huuid hact,
    fun hshape hoper => ?_⟩
  obtain ⟨r, hr, huuid, hstar⟩ :=
    h.held hshape (hoper.of_sublist (hn.users ▸ List.Sublist.refl _))
  obtain ⟨r', hr', huuid', hchan'⟩ := hn.kept r hr
  exact ⟨r', hr', huuid'.trans huuid, hchan'.trans hstar⟩

/-- A purge takes the flags of a user away with the user, or leaves them. -/
theorem FlagsWithin.purge (h : FlagsWithin s uuid t) (hp : PurgeRights t u) :
    FlagsWithin s uuid u := by
  refine ⟨?_, fun hlive => ?_⟩
  · rw [hp.flags]
    exact fun r hr => h.within r (List.mem_filter.mp hr).1
  · rw [hp.flags]
    obtain ⟨r, hr, huuid⟩ := h.held (hlive.of_sublist hp.users)
    obtain ⟨x, hx, -, hxuuid⟩ := hlive
    exact ⟨r, List.mem_filter.mpr
      ⟨hr, List.any_eq_true.mpr ⟨x, hx, beq_iff_eq.mpr (hxuuid.trans huuid.symm)⟩⟩,
      huuid⟩

/-- It does the same with live bindings. -/
theorem BindsWithin.purge (h : BindsWithin s uuid t) (hp : PurgeRights t u) :
    BindsWithin s uuid u := by
  refine ⟨fun r hr => h.within r (hp.binds.subset hr), fun hshape hoper => ?_⟩
  obtain ⟨r, hr, huuid, hstar⟩ := h.held hshape (hoper.of_sublist hp.users)
  obtain ⟨x, hx, hact, -, hxuuid⟩ := hoper
  exact ⟨r, hp.star r hr hstar ⟨x, hx, hact, hxuuid.trans huuid.symm⟩, huuid, hstar⟩

/-! ### The default rights -/

/-- What the default rights of one user come to: nothing, or the first record of that user. -/
inductive DefaultGiven (t : HubState) (v : Str × Char) : HubState → Prop
  | same : DefaultGiven t v t
  | flag (u : HubState) (r : UflagRecord) (huuid : r.uuid = v.1)
      (hnew : ∀ x ∈ t.uflagRecords, x.uuid ≠ v.1) (husers : u.userRecords = t.userRecords)
      (hbinds : u.uchanRecords = t.uchanRecords)
      (hflags : u.uflagRecords = t.uflagRecords ++ [r]) : DefaultGiven t v u
  | star (u : HubState) (r : UchanRecord) (huuid : r.uuid = v.1) (hshape : uuidShape v.1 = true)
      (hoper : v.2 = 'o') (hnew : ∀ x ∈ t.uchanRecords, x.uuid ≠ v.1)
      (husers : u.userRecords = t.userRecords) (hflags : u.uflagRecords = t.uflagRecords)
      (hbinds : u.uchanRecords = t.uchanRecords ++ [r]) : DefaultGiven t v u

/-- A migration gives a user without rights the default of its type, and touches nobody else. -/
theorem defaultGiven_migrateUser (clk : Clock) (p : HubState × Nat) (v : Str × Char) :
    DefaultGiven p.1 v (migrateUser clk p v).1 := by
  obtain ⟨who, typ⟩ := v
  unfold migrateUser
  simp only []
  split
  · rename_i hcond
    simp only [Bool.and_eq_true, decide_eq_true_eq, Option.isNone_iff_eq_none] at hcond
    have hnew := uflagFind_none hcond.2
    have hres := uflagPut_result clk p.1 who ['a'] userAccessMigrateTs
    generalize uflagPut clk p.1 who ['a'] userAccessMigrateTs = q at hres ⊢
    cases hres with
    | refused => exact .same
    | rewrote canon i r hcanon hshape hpos hahead hfind hget hacc =>
      rw [hcond.2] at hfind
      cases hfind
    | new canon hcanon hshape hpos hahead hfind hroom =>
      exact .flag _ _ rfl hnew (uflagSet_userRecords _ _ _ _ _) (uflagSet_uchanRecords _ _ _ _ _)
        (uflagSet_new p.1 who canon userAccessMigrateTs)
  split
  · rename_i hcond
    simp only [Bool.and_eq_true, decide_eq_true_eq, Bool.not_eq_true', List.any_eq_false,
      beq_iff_eq] at hcond
    have hres := uchanPut_result clk p.1 who ['*'] true userAccessMigrateTs
    generalize uchanPut clk p.1 who ['*'] true userAccessMigrateTs = q at hres ⊢
    cases hres with
    | refused => exact .same
    | rewrote i r hshape hname hpos hahead hfind hget hacc =>
      exact absurd (uchanFind_some hfind hget).1 (hcond.2 r (List.mem_of_getElem? hget))
    | new hshape hname hpos hahead hfind hroom =>
      exact .star _ _ rfl hshape hcond.1 hcond.2 rfl rfl rfl
  · exact .same

/-- It touches no user record. -/
theorem DefaultGiven.users {v : Str × Char} (h : DefaultGiven t v u) :
    u.userRecords = t.userRecords := by
  cases h with
  | same => rfl
  | flag _ r huuid hnew husers hbinds hflags => exact husers
  | star _ r huuid hshape hoper hnew husers hflags hbinds => exact husers

/-- A live user that has flags gets none. -/
theorem FlagsWithin.given {v : Str × Char} (h : FlagsWithin s uuid t) (hg : DefaultGiven t v u)
    (hlive : LiveUser t v.1) : FlagsWithin s uuid u := by
  have hsub : u.userRecords.Sublist t.userRecords := hg.users ▸ List.Sublist.refl _
  cases hg with
  | same => exact h
  | flag _ r huuid hnew husers hbinds hflags =>
    refine ⟨?_, fun hu => ?_⟩
    · rw [hflags]
      intro x hx hxuuid
      rcases List.mem_append.mp hx with hx | hx
      · exact h.within x hx hxuuid
      · rw [List.mem_singleton.mp hx] at hxuuid
        obtain ⟨y, hy, hyuuid⟩ := h.held (by rwa [← hxuuid, huuid])
        exact absurd (hyuuid.trans (hxuuid.symm.trans huuid)) (hnew y hy)
    · obtain ⟨y, hy, hyuuid⟩ := h.held (hu.of_sublist hsub)
      exact ⟨y, hflags ▸ List.mem_append_left _ hy, hyuuid⟩
  | star _ r huuid hshape hoper hnew husers hflags hbinds =>
    refine ⟨hflags ▸ h.within, fun hu => ?_⟩
    rw [hflags]
    exact h.held (hu.of_sublist hsub)

/-- A live oper that has a `"*"` record gets none. -/
theorem BindsWithin.given {v : Str × Char} (h : BindsWithin s uuid t) (hg : DefaultGiven t v u)
    (hlive : v.2 = 'o' → LiveOper t v.1) : BindsWithin s uuid u := by
  have hsub : u.userRecords.Sublist t.userRecords := hg.users ▸ List.Sublist.refl _
  cases hg with
  | same => exact h
  | flag _ r huuid hnew husers hbinds hflags =>
    refine ⟨hbinds ▸ h.within, fun hshape hu => ?_⟩
    obtain ⟨y, hy, hyuuid⟩ := h.held hshape (hu.of_sublist hsub)
    exact ⟨y, hbinds ▸ hy, hyuuid⟩
  | star _ r huuid hshape hoper hnew husers hflags hbinds =>
    refine ⟨?_, fun hshape' hu => ?_⟩
    · rw [hbinds]
      intro x hx hxuuid hact
      rcases List.mem_append.mp hx with hx | hx
      · exact h.within x hx hxuuid hact
      · rw [List.mem_singleton.mp hx] at hxuuid
        have heq : v.1 = uuid := huuid.symm.trans hxuuid
        obtain ⟨y, hy, hyuuid, -⟩ := h.held (heq ▸ hshape) (heq ▸ hlive hoper)
        exact absurd (hyuuid.trans heq.symm) (hnew y hy)
    · obtain ⟨y, hy, hyuuid⟩ := h.held hshape' (hu.of_sublist hsub)
      exact ⟨y, hbinds ▸ List.mem_append_left _ hy, hyuuid⟩

/-- What the default rights of every user keep, a migration keeps. The users it goes through are
those of the state it started in. -/
theorem accessMigrate_induction {P : HubState → Prop} (clk : Clock)
    (hstep : ∀ u w v, u.userRecords = t.userRecords → LiveUser t v.1 →
    (v.2 = 'o' → LiveOper t v.1) →
      DefaultGiven u v w → P u → P w)
    (h : P t) : P (accessMigrate clk t).1 := by
  unfold accessMigrate
  have hlive : ∀ v ∈ (t.userRecords.filter (·.isActive)).map fun u => (u.uuid, u.typ),
      LiveUser t v.1 ∧ (v.2 = 'o' → LiveOper t v.1) := by
    intro v hv
    obtain ⟨u, hu, rfl⟩ := List.mem_map.mp hv
    obtain ⟨hmem, hact⟩ := List.mem_filter.mp hu
    exact ⟨⟨u, hmem, hact, rfl⟩, fun htyp => ⟨u, hmem, hact, htyp, rfl⟩⟩
  have hfold : ((((t.userRecords.filter (·.isActive)).map fun u => (u.uuid, u.typ)).foldl
      (migrateUser clk) (t, 0)).1.userRecords = t.userRecords)
      ∧ P (((t.userRecords.filter (·.isActive)).map fun u => (u.uuid, u.typ)).foldl
        (migrateUser clk) (t, 0)).1 := by
    refine List.foldlRecOn
      (motive := fun p : HubState × Nat => p.1.userRecords = t.userRecords ∧ P p.1)
      _ _ ⟨rfl, h⟩ ?_
    rintro p ⟨husers, hp⟩ v hv
    have hgiven := defaultGiven_migrateUser clk p v
    exact ⟨hgiven.users.trans husers,
      hstep p.1 _ v husers (hlive v hv).1 (hlive v hv).2 hgiven hp⟩
  exact hfold.2

/-- A migration gives no flag to a user who had some, by induction over the users. -/
theorem FlagsWithin.migrate (h : FlagsWithin s uuid t) (clk : Clock) :
    FlagsWithin s uuid (accessMigrate clk t).1 := by
  refine accessMigrate_induction clk (fun u w v husers hlive _ hgiven hu => ?_) h
  exact hu.given hgiven (hlive.of_sublist (husers ▸ List.Sublist.refl _))

/-- It binds no oper that had a binding to every channel, dead or alive, to start with. -/
theorem BindsWithin.migrate (h : BindsWithin s uuid t) (clk : Clock) :
    BindsWithin s uuid (accessMigrate clk t).1 := by
  refine accessMigrate_induction clk (fun u w v husers _ hoper hgiven hu => ?_) h
  exact hu.given hgiven fun htyp => (hoper htyp).of_sublist (husers ▸ List.Sublist.refl _)

/-- One step of a purge run. -/
theorem FlagsWithin.step (h : FlagsWithin s uuid t) (hkeyed : RightsKeyed t) (clk : Clock)
    (op : PurgeStep) :
    FlagsWithin s uuid (op.run clk t) := by
  cases op with
  | chanDel payload => exact h.narrows (narrows_delChannel clk t payload)
  | delete value ts =>
      exact h.narrows (narrows_updateGlobalEntry clk t .c value [] "del".toList ts)
  | deleteRaw value ts => exact h.narrows (narrows_storeGlobalEntryRaw clk t rfl value ts)
  | purge cutoff => exact h.purge (purgeRights_executePurge hkeyed clk cutoff)
  | migrate => exact h.migrate clk

/-- The same for bindings. -/
theorem BindsWithin.step (h : BindsWithin s uuid t) (hkeyed : RightsKeyed t) (clk : Clock)
    (op : PurgeStep) :
    BindsWithin s uuid (op.run clk t) := by
  cases op with
  | chanDel payload => exact h.narrows (narrows_delChannel clk t payload)
  | delete value ts =>
      exact h.narrows (narrows_updateGlobalEntry clk t .c value [] "del".toList ts)
  | deleteRaw value ts => exact h.narrows (narrows_storeGlobalEntryRaw clk t rfl value ts)
  | purge cutoff => exact h.purge (purgeRights_executePurge hkeyed clk cutoff)
  | migrate => exact h.migrate clk

/-- Rights stay keyed through the steps. -/
theorem RightsKeyed.purgeStep (h : RightsKeyed t) (clk : Clock) (op : PurgeStep) :
    RightsKeyed (op.run clk t) := by
  have hkeeps : ∀ u, WriteChain clk t u → RightsKeyed u :=
    fun u hu => hu.keeps (fun _ _ ht hw => ht.write hw) h
  cases op with
  | chanDel payload => exact hkeeps _ ((WriteChain.refl clk t).delChannel payload)
  | delete value ts => exact h.updateGlobalEntry clk .c value [] "del".toList ts
  | deleteRaw value ts => exact h.storeGlobalEntryRaw clk .c value ts
  | purge cutoff => exact h.executePurge clk cutoff
  | migrate => exact hkeeps _ (WriteChain.refl clk t).accessMigrate

/-- What the steps keep, a sequence of them keeps. -/
theorem runPurges_induction {P : HubState → Prop} (hkeyed : RightsKeyed s)
    (hstep : ∀ t clk op, RightsKeyed t → P t → P (PurgeStep.run clk t op)) (h : P s)
    (steps : List (Clock × PurgeStep)) : P (runPurges s steps) := by
  have hfold : RightsKeyed (runPurges s steps) ∧ P (runPurges s steps) := by
    unfold runPurges
    refine List.foldlRecOn (motive := fun t => RightsKeyed t ∧ P t) _ _ ⟨hkeyed, h⟩ ?_
    rintro t ⟨hk, ht⟩ p -
    exact ⟨hk.purgeStep p.1 p.2, hstep t p.1 p.2 hk ht⟩
  exact hfold.2

/-- A flag held in `t` was held in `s`, where a user has one record of flags. -/
theorem FlagsWithin.hasFlag (h : FlagsWithin s uuid t) (hkeyed : RightsKeyed s) {flag : Char}
    (hflag : userHasFlag t uuid flag = true) : userHasFlag s uuid flag = true := by
  unfold userHasFlag userFlags at hflag
  cases hfind : uflagFind t uuid with
  | none =>
    rw [hfind] at hflag
    simp at hflag
  | some i =>
    obtain ⟨hi, -, -⟩ := List.findIdx?_eq_some_iff_getElem.mp hfind
    have hget := List.getElem?_eq_getElem hi
    have huuid := uflagFind_some hfind hget
    have hmem := h.within _ (List.getElem_mem hi) huuid
    rw [hfind] at hflag
    simp only [hget, Option.map_some, Option.getD_some] at hflag
    -- the record is the one of the user in `s`
    obtain ⟨j, hj⟩ := List.getElem?_of_mem hmem
    obtain ⟨hjlt, hjeq⟩ := List.getElem?_eq_some_iff.mp hj
    have hfinds : uflagFind s uuid = some j := by
      refine List.findIdx?_eq_some_iff_getElem.mpr ⟨hjlt, ?_, fun k hk => ?_⟩
      · rw [hjeq]
        exact beq_iff_eq.mpr huuid
      · have hne := List.pairwise_iff_getElem.mp hkeyed.flags k j (Nat.lt_trans hk hjlt) hjlt hk
        rw [hjeq, huuid] at hne
        simpa using hne
    unfold userHasFlag userFlags
    rw [hfinds]
    simp only [hj, Option.map_some, Option.getD_some]
    exact hflag

/-- What the user may act on in `t` it may act on in `s`. -/
theorem BindsWithin.chanOk (h : BindsWithin s uuid t) {chan : Option Str}
    (hok : userChanOk t uuid chan = true) : userChanOk s uuid chan = true := by
  obtain ⟨r, hr, hrest⟩ := List.any_eq_true.mp hok
  have hparts := hrest
  simp only [Bool.and_eq_true, beq_iff_eq] at hparts
  exact List.any_eq_true.mpr ⟨r, h.within r hr hparts.1.2 hparts.1.1, hrest⟩

end User

/-- In every reachable state, no sequence of channel deletes, purges and migrations gives a user
with flags another flag, or a user whose `"*"` record is there another channel. The conditions are
on the state the sequence starts in. -/
theorem rights_kept {es : List HubEvent} {s : HubState} (hrun : runHub es = some s) (uuid : Str)
    (steps : List (Clock × PurgeStep)) :
    ((uflagFind s uuid).isSome = true → ∀ flag, userHasFlag (runPurges s steps) uuid flag = true →
        userHasFlag s uuid flag = true)
      ∧ (StarHeld s uuid → ∀ chan, userChanOk (runPurges s steps) uuid chan = true →
        userChanOk s uuid chan = true) := by
  have hkeyed := rightsKeyed_runHub hrun
  constructor
  · intro hsome flag hflag
    obtain ⟨i, hfind⟩ := Option.isSome_iff_exists.mp hsome
    obtain ⟨hi, heq, -⟩ := List.findIdx?_eq_some_iff_getElem.mp hfind
    have hstart : FlagsWithin s uuid s :=
      ⟨fun _ hr _ => hr, fun _ => ⟨s.uflagRecords[i], List.getElem_mem hi, beq_iff_eq.mp heq⟩⟩
    have hend := runPurges_induction hkeyed (fun t clk op hk ht => FlagsWithin.step ht hk clk op)
      hstart steps
    exact hend.hasFlag hkeyed hflag
  · intro hheld chan hok
    have hstart : BindsWithin s uuid s := ⟨fun _ hr _ _ => hr, hheld⟩
    have hend := runPurges_induction hkeyed (fun t clk op hk ht => BindsWithin.step ht hk clk op)
      hstart steps
    exact hend.chanOk hok

/-- An oper with a binding to one channel and a deleted `"*"`, as the console makes it. -/
def boundOperEvent : HubEvent where
  now := ⟨1700000000, inI64_runTime⟩
  op := .peerSync ("c|#lobby||add|1699999998\n".toList
    ++ "o|0a0a0a0a-0000-4000-8000-000000000001|olga||add|0|1699999998|\n".toList
    ++ "uc|0a0a0a0a-0000-4000-8000-000000000001|#lobby|add|1699999998\n".toList
    ++ "uc|0a0a0a0a-0000-4000-8000-000000000001|*|del|1699999998\n".toList)

/-- The oper of these events. -/
def olga : Str := "0a0a0a0a-0000-4000-8000-000000000001".toList

/-- The channel goes, everything deleted is purged, and the default rights are given. -/
def lobbyGone : List (Clock × PurgeStep) :=
  [({ now := 1700000100 }, .chanDel "#lobby".toList), ({ now := 1700000200 }, .purge 0),
    ({ now := 1700000300 }, .migrate)]

/-- An oper bound to a channel that is deleted, purged and migrated: nothing comes back, because
of the deleted `"*"` record. -/
theorem rights_kept_olga :
    ∃ s, runHub [boundOperEvent] = some s ∧ userChanOk s olga (some "#lobby".toList) = true
      ∧ userChanOk s olga none = false ∧ userChanOk (runPurges s lobbyGone) olga none
        = false := by
  have hrun : ((runHub [boundOperEvent]).any fun s => decide
      (userChanOk s olga (some "#lobby".toList) = true ∧ userChanOk s olga none = false
        ∧ (∃ r ∈ s.uchanRecords, r.uuid = olga ∧ r.chan = ['*']))) = true := by
    decide +kernel
  obtain ⟨s, hs, hall⟩ := (Option.any_eq_true _ _).mp hrun
  obtain ⟨hlobby, hglobal, hstar⟩ := of_decide_eq_true hall
  refine ⟨s, hs, hlobby, hglobal, ?_⟩
  rw [Bool.eq_false_iff]
  intro hwide
  have hbefore := (rights_kept hs olga lobbyGone).2 (fun _ _ => hstar) none hwide
  rw [hglobal] at hbefore
  cases hbefore

/-- An oper a peer bound to one channel, without a `"*"` record. -/
def peerBoundOperEvent : HubEvent where
  now := ⟨1700000000, inI64_runTime⟩
  op := .peerSync ("c|#lobby||add|1699999998\n".toList
    ++ "o|0a0a0a0a-0000-4000-8000-000000000001|olga||add|0|1699999998|\n".toList
    ++ "uc|0a0a0a0a-0000-4000-8000-000000000001|#lobby|add|1699999998\n".toList)

/-- It becomes global when its channel is deleted and purged: the only binding is gone with its
tombstone, and the migration finds an oper without one. -/
theorem rights_widen :
    ∃ s, runHub [peerBoundOperEvent] = some s ∧ userChanOk s olga (some "#lobby".toList) = true
      ∧ userChanOk s olga none = false ∧ userChanOk s olga (some "#vip".toList) = false
      ∧ userChanOk (runPurges s lobbyGone) olga none = true
      ∧ userChanOk (runPurges s lobbyGone) olga (some "#vip".toList) = true := by
  have hrun : ((runHub [peerBoundOperEvent]).any fun s => decide
      (userChanOk s olga (some "#lobby".toList) = true
        ∧ userChanOk s olga none = false ∧ userChanOk s olga (some "#vip".toList) = false
        ∧ userChanOk (runPurges s lobbyGone) olga none = true
        ∧ userChanOk (runPurges s lobbyGone) olga (some "#vip".toList) = true)) = true := by
    decide +kernel
  obtain ⟨s, hs, hall⟩ := (Option.any_eq_true _ _).mp hrun
  exact ⟨s, hs, of_decide_eq_true hall⟩

end IrcHub.Proofs
