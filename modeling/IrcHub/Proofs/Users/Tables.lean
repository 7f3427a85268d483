import IrcHub.Proofs.Global.Frame
import IrcHub.Proofs.Purge.Rights
import IrcHub.Proofs.Users.Refused
import IrcHub.Proofs.Writes.Frames

/-!
# `IrcHub.Proofs.Users.Tables`: what other lines leave of users and usermasks

Only the lines of users and usermasks write these two tables. Every other line of a peer leaves
them as they are, a purge apart, and a purge only drops records (`PeopleWithin`).

* `userTables_accessIngest`, `userTables_storeGlobalEntryRaw`, `userTables_syncBotEntry`: the
  lines that leave both tables
* `peopleWithin_syncTagged`, `peopleWithin_executePurge`: the lines that may purge
* `userTables_userAccess`, `userTables_userAddRights`: the commands that write rights
-/

set_option autoImplicit false

namespace IrcHub.Proofs

open IrcHub.Hub Str

variable {clk : Clock} {s t u : HubState}

/-- The users and masks of `t` are some of those of `s`, in order. -/
structure PeopleWithin (s t : HubState) : Prop where
  users : t.userRecords.Sublist s.userRecords
  masks : t.maskRecords.Sublist s.maskRecords

/-- A state is within itself. -/
theorem PeopleWithin.refl (s : HubState) : PeopleWithin s s := ⟨.refl _, .refl _⟩

/-- Tables that only lose rows compose. -/
theorem PeopleWithin.trans (h : PeopleWithin s t) (h' : PeopleWithin t u) : PeopleWithin s u :=
  ⟨h'.users.trans h.users, h'.masks.trans h.masks⟩

/-- Tables that stay lose nothing. -/
theorem PeopleWithin.of_tables (h : userTables t = userTables s) : PeopleWithin s t := by
  have husers : t.userRecords = s.userRecords := congrArg Prod.fst h
  have hmasks : t.maskRecords = s.maskRecords := congrArg Prod.snd h
  exact ⟨husers ▸ .refl _, hmasks ▸ .refl _⟩

/-- A step elsewhere leaves users and masks. -/
theorem userTables_of_sameRecords (h : SameRecords s t) : userTables t = userTables s := by
  rw [userTables, userTables, h.users, h.masks]

/-- So does a step that only changes the store. -/
theorem userTables_of_offStore (h : offStore t = offStore s) : userTables t = userTables s := by
  have husers : (offStore t).userRecords = (offStore s).userRecords := by rw [h]
  have hmasks : (offStore t).maskRecords = (offStore s).maskRecords := by rw [h]
  exact congrArg₂ Prod.mk husers hmasks

/-- So does a broadcast. -/
theorem userTables_broadcast (s : HubState) (payload : Str) :
    userTables (broadcastSyncToPeers s payload) = userTables s := rfl

/-! ### Writes of rights and of the global table -/

/-- Flags are in a table of their own. -/
theorem userTables_uflagSet (s : HubState) (i : Nat) (uuid canon : Str) (ts : Int) :
    userTables (uflagSet s i uuid canon ts) = userTables s := by
  rw [userTables, uflagSet_userRecords, uflagSet_maskRecords]
  rfl

/-- A put of flags changes that one. -/
theorem userTables_uflagPut (clk : Clock) (s : HubState) (uuid flags : Str) (ts : Int) :
    userTables (uflagPut clk s uuid flags ts).1 = userTables s := by
  have hres := uflagPut_result clk s uuid flags ts
  generalize uflagPut clk s uuid flags ts = q at hres ⊢
  cases hres with
  | refused => rfl
  | rewrote => exact userTables_uflagSet _ _ _ _ _
  | new => exact userTables_uflagSet _ _ _ _ _

/-- So are bindings. -/
theorem userTables_uchanPut (clk : Clock) (s : HubState) (uuid chan : Str) (active : Bool)
    (ts : Int) :
    userTables (uchanPut clk s uuid chan active ts).1 = userTables s :=
  userTables_of_offStore (offStore_uchanPut clk s uuid chan active ts)

/-- A line of flags or of a binding leaves users and masks. -/
theorem userTables_accessIngest (clk : Clock) (s : HubState) (kind : Char) (body : Str)
    (needUser : Bool) :
    userTables (accessIngest clk s kind body needUser).1 = userTables s := by
  unfold Hub.accessIngest
  split
  · rfl
  simp only []
  split
  · rfl
  split
  · split
    · exact userTables_uflagPut _ _ _ _ _
    · rfl
  · split
    · split
      · rfl
      · exact userTables_uchanPut _ _ _ _ _ _
    · rfl

/-- What was learned of a channel. -/
theorem userTables_learnedIngest (clk : Clock) (s : HubState) (body : Str) :
    userTables (learnedIngest clk s body).1 = userTables s := by
  have hput : ∀ chan key modes ts, userTables (learnedPut clk s chan key modes ts).1
    = userTables s := by
    intro chan key modes ts
    unfold learnedPut
    repeat' split
    all_goals rfl
  unfold Hub.learnedIngest
  repeat' split
  · rfl
  · rfl
  · exact hput _ _ _ _
  · rfl

/-- An entry of a peer leaves them too, the cascade of a deleted channel included. -/
theorem userTables_storeGlobalEntryRaw (clk : Clock) (s : HubState) (k : GlobalKey) (value : Str)
    (ts : Int) : userTables (storeGlobalEntryRaw clk s k value ts).1 = userTables s := by
  by_cases hk : keyIsModes k = true
  · unfold storeGlobalEntryRaw
    rw [if_pos hk]
    exact userTables_of_offStore (offStore_putRecord clk s k value ts)
  · rw [Bool.not_eq_true] at hk
    have hres := storeGlobalEntryRaw_result hk clk s value ts
    generalize storeGlobalEntryRaw clk s k value ts = r at hres ⊢
    cases hres with
    | refused => rfl
    | rewrote i e hfind hget hacc =>
        exact userTables_of_offStore (offStore_replaceOld _ _ _ _ _ _ _)
    | new hfind hahead hroom =>
      rw [globalPush_eq]
      rfl

/-- A local change of an entry, with its cascade. -/
theorem userTables_updateGlobalEntry (clk : Clock) (s : HubState) (k : GlobalKey)
    (value extra op : Str) (ts : Int) :
    userTables (updateGlobalEntry clk s k value extra op ts).1 = userTables s :=
  userTables_of_offStore (offStore_updateGlobalEntry clk s k value extra op ts)

/-! ### Lines about bots -/

/-- A line about a bot, whatever its key. -/
theorem userTables_updateEntry {uuid key value extra op : Str} {ts : Int} {p : HubState × Bool}
    (hp : updateEntry clk s uuid key value extra op ts = some p) :
    userTables p.1 = userTables s := by
  have hinner : ∀ q, updateEntryInner clk s uuid key value extra op ts = some q →
      userTables q.1 = userTables s := by
    intro q hq
    unfold Hub.updateEntryInner at hq
    split at hq
    · cases hq
      rfl
    split at hq
    · cases hq
      exact userTables_updateGlobalEntry _ _ _ _ _ _ _
    · cases hq
      exact userTables_updateGlobalEntry _ _ _ _ _ _ _
    · cases hq
      exact userTables_updateGlobalEntry _ _ _ _ _ _ _
    · cases hq
      rfl
    split at hq
    · cases hq
      rfl
    split at hq
    · cases hq
      rfl
    rename_i t hbot
    have hsame : SameRecords s t := by
      unfold getOrCreateBot at hbot
      split at hbot
      · cases hbot
        exact .refl s
      split at hbot
      · cases hbot
        exact ⟨rfl, rfl, rfl, rfl, rfl, rfl, rfl⟩
      · cases hbot
    exact userTables_of_sameRecords (hsame.trans (sameRecords_updateBot hq))
  unfold Hub.updateEntry at hp
  split at hp
  · cases hp
    rfl
  split at hp
  · cases hp
  rename_i t ok hstep
  have ht := hinner _ hstep
  cases hp
  simp only []
  split
  · exact (userTables_of_sameRecords (sameRecords_revokeAfter t uuid key)).trans ht
  · exact ht

/-- The same in a peer's frame. -/
theorem userTables_syncBotEntry {ptr : Str} {cnt : SyncCounters} {q : HubState × SyncCounters}
    (hq : syncBotEntry clk s ptr cnt = some q) : userTables q.1 = userTables s := by
  unfold Hub.syncBotEntry at hq
  split at hq
  · cases hq
    rfl
  split at hq
  · cases hq
    rfl
  simp only [] at hq
  split at hq
  · split at hq
    · cases hq
      rfl
    split at hq
    · cases hq
    · rename_i t stored hupdate
      cases hq
      exact userTables_updateEntry hupdate
  · split at hq
    · cases hq
    · rename_i t stored hupdate
      cases hq
      exact userTables_updateEntry hupdate

/-! ### Tagged lines -/

/-- A purge takes users and masks out. -/
theorem peopleWithin_executePurge (clk : Clock) (s : HubState) (cutoff : Int) :
    PeopleWithin s (executePurge clk s cutoff) := by
  have hglobals : userTables (purgeGlobals cutoff (purgeFloorSet clk s cutoff))
    = userTables s := by
    unfold purgeGlobals
    rw [globalReindex_eq]
    rfl
  have horphans := userTables_of_offStore
    (offStore_purgeChanOrphans (purgeGlobals cutoff (purgeFloorSet clk s cutoff)))
  have hdropped : ∀ t : HubState, PeopleWithin t (purgeMasks cutoff (purgeUsers cutoff t)) := by
    intro t
    refine ⟨?_, ?_⟩
    · exact (List.take_sublist maxHubUserRecords _).trans List.filter_sublist
    · exact (List.take_sublist maxHubUserMasks _).trans List.filter_sublist
  -- rights and bots follow, and neither holds a user
  have hrest : ∀ t : HubState, userTables (purgeBots cutoff (accessPurge t cutoff))
    = userTables t :=
    fun _ => rfl
  have hwithin := (PeopleWithin.of_tables (horphans.trans hglobals)).trans (hdropped _)
  have heq : executePurge clk s cutoff = purgeBots cutoff
    (accessPurge (purgeMasks cutoff (purgeUsers cutoff
      (purgeChanOrphans (purgeGlobals cutoff (purgeFloorSet clk s cutoff))))) cutoff) := rfl
  rw [heq]
  exact hwithin.trans (.of_tables (hrest _))

/-- So does one that a peer asks for. -/
theorem peopleWithin_syncPurge (clk : Clock) (s : HubState) (line body : Str)
    (cnt : SyncCounters) :
    PeopleWithin s (syncPurge clk s line body cnt).1 := by
  unfold Hub.syncPurge
  split
  · exact .refl s
  split
  · exact .refl s
  · rename_i cutoff id _ _
    have hnoted : userTables (recordRecentPurge clk s cutoff id) = userTables s := by
      unfold recordRecentPurge
      simp only []
      split
      · rfl
      · split
        · rfl
        · rfl
    have hpurged := (PeopleWithin.of_tables hnoted).trans (peopleWithin_executePurge clk _ cutoff)
    exact hpurged.trans (.of_tables (userTables_broadcast _ _))

/-- A line that starts with one of the tags: at most a purge. -/
theorem peopleWithin_syncTagged {line : Str} {cnt : SyncCounters} {q : HubState × SyncCounters}
    (hq : syncTagged clk s line cnt = some q) : PeopleWithin s q.1 := by
  unfold Hub.syncTagged at hq
  split at hq
  · cases hq
    exact peopleWithin_syncPurge _ _ _ _ _
  refine .of_tables ?_
  split at hq
  · cases hq
    rfl
  split at hq
  · cases hq
    exact userTables_accessIngest _ _ _ _ _
  split at hq
  · cases hq
    exact userTables_learnedIngest _ _ _
  split at hq
  · cases hq
    unfold syncOpt
    repeat' split
    all_goals rfl
  split at hq
  · cases hq
    exact userTables_of_sameRecords (sameRecords_gsettingIngest s _)
  obtain ⟨body, -, rfl⟩ := Option.map_eq_some_iff.mp hq
  unfold syncRevoke
  split
  · rfl
  rename_i rv _
  have hmerge := userTables_of_sameRecords (sameRecords_revokeMerge s rv)
  simp only []
  split
  · exact hmerge
  · exact hmerge

/-! ### Commands that write rights -/

/-- The rights of a new user, by induction on the channels. -/
theorem userTables_userAddRights (clk : Clock) (s : HubState) (typ : Char) (uuid flags : Str)
    (chans : List Str) : userTables (userAddRights clk s typ uuid flags chans)
    = userTables s := by
  have hall : ∀ (cs : List Str) (t : HubState),
      userTables (cs.foldl (fun s c => (uchanPut clk s uuid c true clk.now).1) t)
        = userTables t := by
    intro cs
    induction cs with
    | nil => exact fun t => rfl
    | cons c cs ih => exact fun t => (ih _).trans (userTables_uchanPut _ _ _ _ _ _)
  unfold userAddRights
  split
  · exact userTables_uflagPut _ _ _ _ _
  dsimp only
  split
  · exact hall _ _
  · exact (userTables_uchanPut _ _ _ _ _ _).trans (hall _ _)

/-- A change to the bindings leaves the users and masks alone. -/
theorem userTables_chanChange (clk : Clock) (s : HubState) (uuid : Str) (add : Bool)
    (chan : Str) :
    userTables (chanChange clk s uuid add chan).1 = userTables s :=
  chanChangeInto_induction (P := fun t => userTables t = userTables s)
    (fun t _ _ ht => (userTables_uchanPut _ t _ _ _ _).trans ht) rfl add chan []

/-- `user access` on flags. -/
theorem userTables_userSetFlags (clk : Clock) (s : HubState) (u : UserRecord) (spec : Str) :
    userTables (userSetFlags clk s u spec) = userTables s := by
  unfold userSetFlags
  split
  · rfl
  split
  · rfl
  rename_i flags _
  split
  · rfl
  have hput := userTables_uflagPut clk s u.uuid flags (accessNextTs clk s u.uuid)
  dsimp only
  split
  · exact hput
  split
  · exact hput
  · exact (userTables_broadcast _ _).trans hput

/-- `user access` on a channel. -/
theorem userTables_userSetChan (clk : Clock) (s : HubState) (u : UserRecord) (add : Bool)
    (chan : Str) :
    userTables (userSetChan clk s u add chan) = userTables s := by
  unfold userSetChan
  split
  · rfl
  have hput := userTables_chanChange clk s u.uuid add chan
  dsimp only
  split
  · exact hput
  split
  · exact hput
  · exact (userTables_broadcast _ _).trans hput

/-- `user access`. -/
theorem userTables_userAccess (clk : Clock) (s : HubState) (payload : Str) :
    userTables (userAccess clk s payload) = userTables s := by
  unfold userAccess
  dsimp only
  split
  · split
    · split
      · exact userTables_userSetFlags _ _ _ _
      · rfl
    split
    · split
      · exact userTables_userSetChan _ _ _ _ _
      · rfl
    · rfl
  · rfl

end IrcHub.Proofs
