import Mathlib.Logic.Relation
import IrcHub.Hub.Ops
import IrcHub.Proofs.Users.Merge

/-!
# `IrcHub.Proofs.Writes.Steps`: the writes the operations of a hub are made of

`Write` lists the single writes to the records of channels, users and rights. Every operation of a
hub is a chain of them (`WriteChain`), so what every write keeps, every operation keeps
(`WriteChain.keeps`). Here are the lines of users and usermasks, the rights and the admin floor;
the frames and the commands follow in `IrcHub.Proofs.Writes.Frames` and
`IrcHub.Proofs.Writes.Runs`.

* `WriteChain.syncUserRecord`, `WriteChain.syncMaskRecord`: the lines of users and masks
* `WriteChain.accessIngest`, `WriteChain.accessMigrate`: the rights
* `WriteChain.adminFloorRestore`: the admin floor
* `StampFrom`: what the stamp of a user record that is written may be

Bots, the revoke list, the settings of the network and what goes out to the peers are not looked
at: a change of these alone is the write `elsewhere`.
-/

set_option autoImplicit false

namespace IrcHub.Proofs

open IrcHub.Hub Str

/-! ### Single writes -/

/-- Both states hold the same records of channels, users and rights. -/
structure SameRecords (s t : HubState) : Prop where
  entries : t.globalEntries = s.globalEntries
  idx : t.globalIdx = s.globalIdx
  learned : t.chanLearned = s.chanLearned
  users : t.userRecords = s.userRecords
  masks : t.maskRecords = s.maskRecords
  flags : t.uflagRecords = s.uflagRecords
  binds : t.uchanRecords = s.uchanRecords

/-- A state has its own records. -/
theorem SameRecords.refl (s : HubState) : SameRecords s s := ⟨rfl, rfl, rfl, rfl, rfl, rfl, rfl⟩

/-- Steps that leave the records alone compose. -/
theorem SameRecords.trans {s t u : HubState} (h : SameRecords s t) (h' : SameRecords t u) :
    SameRecords s u :=
  ⟨h'.entries.trans h.entries, h'.idx.trans h.idx, h'.learned.trans h.learned,
    h'.users.trans h.users, h'.masks.trans h.masks, h'.flags.trans h.flags,
      h'.binds.trans h.binds⟩

/-- A user record is stamped zero, now, or no earlier than a record that was there, up to the
greatest stamp there is. -/
def StampFrom (clk : Clock) (us : List UserRecord) (u : UserRecord) : Prop :=
  u.timestamp = 0 ∨ u.timestamp = clk.now ∨ ∃ v ∈ us, min v.timestamp i64Max ≤ u.timestamp

/-- One write to the records of channels, users and rights. -/
inductive Write (clk : Clock) (s : HubState) : HubState → Prop
  | put (k : GlobalKey) (v : Str) (ts : Int) : Write clk s (putRecord clk s k v ts).1
  | update (k : GlobalKey) (value extra op : Str) (ts : Int) :
      Write clk s (updateGlobalEntry clk s k value extra op ts).1
  | raw (k : GlobalKey) (value : Str) (ts : Int) :
      Write clk s (storeGlobalEntryRaw clk s k value ts).1
  | cascade (chan : Str) (ts : Int) (announce : Bool) :
      Write clk s (chanCascadeDel clk s chan ts announce).1
  | learned (chan key : Str) (modes ts : Int) : Write clk s (learnedPut clk s chan key modes ts).1
  | flag (uuid flags : Str) (ts : Int) : Write clk s (uflagPut clk s uuid flags ts).1
  | bind (uuid chan : Str) (active : Bool) (ts : Int) :
      Write clk s (uchanPut clk s uuid chan active ts).1
  | moveFlag (old new : Str) (i : Nat) : Write clk s (remapFlag clk old new s i)
  | moveBind (old new : Str) (i : Nat) : Write clk s (remapChan clk old new s i)
  | prune : Write clk s (accessPrune s)
  | purge (cutoff : Int) : Write clk s (executePurge clk s cutoff)
  | used (i : Nat) (ts : Int) : Write clk s (raise clk s (.ban i) ts)
  /-- Users and usermasks change. -/
  | people (us : List UserRecord) (ms : List MaskRecord)
      (hstamp : ∀ u ∈ us, StampFrom clk s.userRecords u) :
      Write clk s { s with userRecords := us, maskRecords := ms }
  | elsewhere (t : HubState) (h : SameRecords s t) : Write clk s t

/-- A chain of writes under one clock. -/
def WriteChain (clk : Clock) (s t : HubState) : Prop := Relation.ReflTransGen (Write clk) s t

/-- What every write keeps, a chain of writes keeps. -/
theorem WriteChain.keeps {clk : Clock} {s t : HubState} (h : WriteChain clk s t)
    {P : HubState → Prop} (hstep : ∀ s t, P s → Write clk s t → P t) (hs : P s) : P t := by
  induction h with
  | refl => exact hs
  | tail _ hw ih => exact hstep _ _ ih hw

variable {clk : Clock} {r s t : HubState}

/-- No write at all. -/
theorem WriteChain.refl (clk : Clock) (s : HubState) : WriteChain clk s s :=
  Relation.ReflTransGen.refl

/-- A step elsewhere lengthens no chain. -/
theorem WriteChain.elsewhere (h : WriteChain clk r s) (hsame : SameRecords s t) :
    WriteChain clk r t :=
  h.tail (.elsewhere t hsame)

/-- A broadcast is such a step. -/
theorem WriteChain.broadcast (h : WriteChain clk r s) (payload : Str) :
    WriteChain clk r (broadcastSyncToPeers s payload) :=
  h.elsewhere ⟨rfl, rfl, rfl, rfl, rfl, rfl, rfl⟩

/-- A loop whose body is a chain of writes is one. -/
theorem WriteChain.foldl {α : Type} {f : HubState → α → HubState}
    (hf : ∀ t a, WriteChain clk r t → WriteChain clk r (f t a)) (h : WriteChain clk r s)
    (is : List α) :
    WriteChain clk r (is.foldl f s) := by
  induction is generalizing s with
  | nil => exact h
  | cons i is ih => exact ih (hf s i h)

/-! ### Users and masks -/

/-- A user has a stamp of the table it is in. -/
theorem stampFrom_self {us : List UserRecord} {u : UserRecord} (h : u ∈ us) :
    StampFrom clk us u :=
  .inr (.inr ⟨u, h, Int.min_le_left _ _⟩)

/-- Only the masks change. -/
theorem WriteChain.masks (h : WriteChain clk r s) (ms : List MaskRecord) :
    WriteChain clk r { s with maskRecords := ms } :=
  h.tail (.people s.userRecords ms fun _ hu => stampFrom_self hu)

/-- A new user. -/
theorem WriteChain.newUser (h : WriteChain clk r s) {u : UserRecord}
    (hstamp : u.timestamp = 0 ∨ u.timestamp = clk.now) (ms : List MaskRecord) :
    WriteChain clk r { s with userRecords := s.userRecords ++ [u], maskRecords := ms } := by
  refine h.tail (.people _ ms fun v hv => ?_)
  rcases List.mem_append.mp hv with hv | hv
  · exact stampFrom_self hv
  · rw [List.mem_singleton.mp hv]
    exact hstamp.imp_right .inl

/-- A user changes and gets no older. -/
theorem WriteChain.setUser (h : WriteChain clk r s) {i : Nat} {u v : UserRecord}
    (hget : s.userRecords[i]? = some u) (hle : min u.timestamp i64Max ≤ v.timestamp)
    (ms : List MaskRecord) :
    WriteChain clk r { s with userRecords := s.userRecords.set i v, maskRecords := ms } := by
  refine h.tail (.people _ ms fun w hw => ?_)
  rcases List.mem_or_eq_of_mem_set hw with hw | rfl
  · exact stampFrom_self hw
  · exact .inr (.inr ⟨u, List.mem_of_getElem? hget, hle⟩)

/-- A change that leaves the stamps of the users alone. -/
theorem WriteChain.modifyUser (h : WriteChain clk r s) (i : Nat) {f : UserRecord → UserRecord}
    (hf : ∀ u, (f u).timestamp = u.timestamp) (ms : List MaskRecord) :
    WriteChain clk r { s with userRecords := s.userRecords.modify i f, maskRecords := ms } := by
  refine h.tail (.people _ ms fun v hv => ?_)
  obtain ⟨j, hj, hget⟩ := List.mem_iff_getElem.mp hv
  rw [List.getElem_modify] at hget
  have hj' : j < s.userRecords.length := by simpa using hj
  split at hget
  · subst hget
    refine .inr (.inr ⟨_, List.getElem_mem hj', ?_⟩)
    rw [hf]
    exact Int.min_le_left _ _
  · subst hget
    exact stampFrom_self (List.getElem_mem hj')

/-- The stamp of a record is raised for a restore. -/
theorem WriteChain.raise (h : WriteChain clk r s) (slot : Slot) (ts : Int) :
    WriteChain clk r (raise clk s slot ts) := by
  cases slot with
  | user i =>
    unfold Hub.raise
    split
    · exact h
    · refine h.modifyUser i ?_ s.maskRecords
      exact fun _ => rfl
  | mask i =>
    unfold Hub.raise
    split
    · exact h
    · exact h.masks _
  | ban i => exact h.tail (.used i ts)

/-- The rights of a uuid move to another. -/
theorem WriteChain.remapUuid (h : WriteChain clk r s) (old new : Str) :
    WriteChain clk r (remapUuid clk s old new) := by
  unfold Hub.remapUuid
  refine WriteChain.foldl (fun t i ht => ht.tail (.moveBind old new i)) ?_ _
  exact WriteChain.foldl (fun t i ht => ht.tail (.moveFlag old new i)) h _

/-- A user takes the uuid a peer knows it by. -/
theorem WriteChain.adoptUuid (h : WriteChain clk r s) (ni : Nat) (ex inc : UserRecord) :
    WriteChain clk r (adoptUuid clk s ni ex inc) := by
  refine (h.remapUuid ex.uuid inc.uuid).modifyUser ni ?_ _
  exact fun _ => rfl

/-- An accepted record is stamped no earlier than the one it replaces. -/
theorem le_of_lwwAccepts {ts cur : Int} {act curAct : Bool}
    (h : lwwAccepts clk ts act cur curAct = true) : cur ≤ ts := by
  unfold lwwAccepts at h
  split at h
  · cases h
  simp only [Bool.or_eq_true, Bool.and_eq_true, decide_eq_true_eq] at h
  omega

/-- The record that a user line is compared with. -/
theorem writes_of_userAt {inc : UserRecord} {i : Nat} (h : WriteChain clk r s)
    (hat : UserAt clk s inc t i) :
    WriteChain clk r t := by
  cases hat with
  | held i hfind => exact h
  | named i ex hfind hact hget hex hwins => exact h.adoptUuid _ _ _
  | new hfind hroom hahead hfloor => exact h.newUser (.inl rfl) s.maskRecords

/-- A user line of a peer. -/
theorem WriteChain.syncUserRecord (h : WriteChain clk r s) (key : Char) (vstart : Str)
    (cnt : SyncCounters) :
    WriteChain clk r (syncUserRecord clk s key vstart cnt).1 := by
  have hsync := userSync clk s key vstart cnt
  generalize (Hub.syncUserRecord clk s key vstart cnt).1 = t at hsync ⊢
  cases hsync with
  | dropped hno => exact h
  | refused inc t i cur hparse hslot hget hacc =>
    exact (writes_of_userAt h (userAt_of_userSlot hslot)).raise _ _
  | stored inc t i cur hparse hslot hget hacc =>
    refine (writes_of_userAt h (userAt_of_userSlot hslot)).setUser hget ?_ t.maskRecords
    exact Int.le_trans (Int.min_le_left _ _) (le_of_lwwAccepts hacc)

/-- The record that a mask line is compared with. -/
theorem writes_of_maskSlot {inc : MaskRecord} {p : HubState × Nat} (h : WriteChain clk r s)
    (hslot : maskSlot clk s inc = some p) : WriteChain clk r p.1 := by
  unfold maskSlot at hslot
  split at hslot
  · cases hslot
    exact h
  split at hslot
  · cases hslot
    exact h.masks _
  · cases hslot

/-- A mask line of a peer. -/
theorem WriteChain.syncMaskRecord (h : WriteChain clk r s) (vstart line : Str)
    (cnt : SyncCounters) :
    WriteChain clk r (syncMaskRecord clk s vstart line cnt).1 := by
  unfold Hub.syncMaskRecord
  split
  · exact h
  split
  · exact h
  split
  · exact h
  rename_i t mi hslot
  have ht := writes_of_maskSlot h hslot
  split
  · exact ht
  split
  · exact WriteChain.raise ht (.mask mi) _
  · exact WriteChain.masks ht _

/-! ### Rights and the admin floor -/

/-- A line of flags or of a binding. -/
theorem WriteChain.accessIngest (h : WriteChain clk r s) (kind : Char) (body : Str)
    (needUser : Bool) :
    WriteChain clk r (accessIngest clk s kind body needUser).1 := by
  unfold Hub.accessIngest
  split
  · exact h
  simp only []
  split
  · exact h
  split
  · split
    · exact h.tail (.flag _ _ _)
    · exact h
  · split
    · split
      · exact h
      · exact h.tail (.bind _ _ _ _)
    · exact h

/-- The default rights of a user. -/
private theorem WriteChain.migrateUser {p : HubState × Nat} (h : WriteChain clk r p.1)
    (u : Str × Char) :
    WriteChain clk r (migrateUser clk p u).1 := by
  unfold Hub.migrateUser
  simp only []
  split
  · exact h.tail (.flag _ _ _)
  split
  · exact h.tail (.bind _ _ _ _)
  · exact h

/-- Those of all users, by induction over the table. -/
theorem WriteChain.accessMigrate (h : WriteChain clk r s) :
    WriteChain clk r (accessMigrate clk s).1 := by
  have hall : ∀ (us : List (Str × Char)) (p : HubState × Nat), WriteChain clk r p.1 →
      WriteChain clk r (us.foldl (Hub.migrateUser clk) p).1 := by
    intro us
    induction us with
    | nil => exact fun p hp => hp
    | cons u us ih => exact fun p hp => ih _ (hp.migrateUser u)
  exact hall _ _ h

/-- A user comes back with a stamp of the table. -/
theorem WriteChain.reviveUser (h : WriteChain clk r s) {i : Nat} {u : UserRecord}
    (hget : s.userRecords[i]? = some u) : WriteChain clk r (reviveUser s i u).1 := by
  unfold Hub.reviveUser
  split
  · exact h
  · refine h.setUser hget ?_ _
    show min u.timestamp i64Max ≤ satSucc u.timestamp
    unfold satSucc
    omega

/-- A flag comes back. -/
theorem WriteChain.restoreFlag (h : WriteChain clk r s) (uuid : Str) :
    WriteChain clk r (restoreFlag clk s uuid).1 := by
  unfold Hub.restoreFlag
  split
  · exact h
  split
  · exact h
  split
  · exact h
  simp only []
  split
  · exact h.tail (.flag _ _ _)
  · exact h.tail (.flag _ _ _)

/-- An admin comes back. -/
theorem WriteChain.restoreAdmin {p : HubState × Str} (h : WriteChain clk r p.1) (i : Nat) :
    WriteChain clk r (restoreAdmin clk p i).1 := by
  unfold Hub.restoreAdmin
  split
  · exact h
  · rename_i u hget
    exact (h.reviveUser hget).restoreFlag _

/-- All admins a step took away come back. -/
theorem WriteChain.adminFloorRestore (h : WriteChain clk r s) :
    WriteChain clk r (adminFloorRestore clk s).1 := by
  have hall : ∀ (is : List Nat) (p : HubState × Str), WriteChain clk r p.1 →
      WriteChain clk r (is.foldl (Hub.restoreAdmin clk) p).1 := by
    intro is
    induction is with
    | nil => exact fun p hp => hp
    | cons i is ih => exact fun p hp => ih _ (hp.restoreAdmin i)
  unfold Hub.adminFloorRestore
  simp only []
  split
  · exact h
  split
  · exact h
  · exact hall _ _ h

/-- What the admin floor brings back goes to the peers. -/
theorem WriteChain.floorBroadcast (h : WriteChain clk r s) :
    WriteChain clk r (match (Hub.adminFloorRestore clk s).2 with
      | some lines =>
        if lines.isEmpty then (Hub.adminFloorRestore clk s).1
        else broadcastSyncToPeers (Hub.adminFloorRestore clk s).1 lines
      | none => (Hub.adminFloorRestore clk s).1) := by
  have hfloor := h.adminFloorRestore
  split
  · split
    · exact hfloor
    · exact hfloor.broadcast _
  · exact hfloor

end IrcHub.Proofs
