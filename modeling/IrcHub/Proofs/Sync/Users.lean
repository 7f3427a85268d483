import IrcHub.Proofs.Sync.Store

/-!
# `IrcHub.Proofs.Sync.Users`: the writers of users and usermasks keep the caps

A user line of a peer or a bot is compared with the record the hub holds, or with a blank one it
makes first. A blank record has no type, and a line stamped zero or less never wins against it, so
such a line leaves a record behind whose type is NUL (`makesBlank`). Every other line keeps
`Fits`, and so do usermask lines, the merge of two uuids and the admin floor.

* `fits_parseUserRecord`: the record of a user line
* `SlotFits`: the record a line is compared with, and what is known of a line that will lose
* `Fits.syncUserRecord`, `Fits.syncMaskRecord`: the lines
* `Fits.remapUuid`, `Fits.adoptUuid`: two users that become one
* `Fits.adminFloorRestore`, `Fits.chanChange`: the floor, and a change of a user's channels
-/

set_option autoImplicit false

namespace IrcHub.Proofs

open IrcHub.Hub Str Table
open String (utf8Len)

variable {ok : Char → Prop} {s : HubState} {clk : Clock}

/-! ### Two uuids of one user -/

/-- Flags move to another uuid, or over the row it has. -/
theorem Fits.remapFlag (h : Fits ok s) {old new : Str} (hnew : Fit ok 36 new) (i : Nat) :
    Fits ok (remapFlag clk old new s i) := by
  unfold Hub.remapFlag
  split
  · exact h
  rename_i r hget
  split
  · exact h
  split
  · exact { h with flags := h.flags.modify i fun r hr => ⟨hnew, hr.flags, hr.stamp⟩ }
  split
  · exact h
  split
  · have hr := h.flags.get hget
    exact { h with flags := h.flags.modify _ fun x hx => ⟨hx.uuid, hr.flags, hr.stamp⟩ }
  · exact h

/-- A binding moves to another uuid. -/
theorem Fits.remapChan (h : Fits ok s) {old new : Str} (hnew : Fit ok 36 new) (i : Nat) :
    Fits ok (remapChan clk old new s i) := by
  unfold Hub.remapChan
  split
  · exact h
  rename_i r hget
  split
  · exact h
  split
  · exact { h with binds := h.binds.modify i fun r hr => ⟨hnew, hr.chan, hr.stamp⟩ }
  split
  · exact h
  split
  · have hr := h.binds.get hget
    exact { h with binds := h.binds.modify _ fun x hx => ⟨hx.uuid, hx.chan, hr.stamp⟩ }
  · exact h

/-- A walk over the positions of a table, each step keeping the caps. -/
theorem Fits.foldl {α : Type} {f : HubState → α → HubState}
    (hf : ∀ t a, Fits ok t → Fits ok (f t a)) (h : Fits ok s) (is : List α) :
    Fits ok (is.foldl f s) := by
  induction is generalizing s with
  | nil => exact h
  | cons i is ih => exact ih (hf s i h)

/-- All rights of a uuid move to another, by induction over the tables. -/
theorem Fits.remapUuid (h : Fits ok s) {old new : Str} (hnew : Fit ok 36 new) :
    Fits ok (remapUuid clk s old new) := by
  unfold Hub.remapUuid
  refine Fits.foldl (fun t i ht => ht.remapChan hnew i) ?_ _
  exact Fits.foldl (fun t i ht => ht.remapFlag hnew i) h _

/-- A user takes the uuid a peer knows it by, with its masks and rights. -/
theorem Fits.adoptUuid (h : Fits ok s) (ni : Nat) (ex : UserRecord) {inc : UserRecord}
    (hinc : Fit ok 36 inc.uuid) : Fits ok (adoptUuid clk s ni ex inc) := by
  have hremap : Fits ok (Hub.remapUuid clk s ex.uuid inc.uuid) := h.remapUuid hinc
  unfold Hub.adoptUuid
  refine { hremap with users := ?_, masks := ?_ }
  · exact hremap.users.modify ni fun u hu => ⟨hinc, hu.name, hu.key, hu.typ, hu.seen, hu.stamp⟩
  · refine hremap.masks.map fun m hm => ?_
    split
    · exact ⟨hinc, hm.mask, hm.used, hm.stamp⟩
    · exact hm

/-! ### User lines -/

/-- A key that decodes has the length of a key, since the decoder takes no other. -/
theorem fit_of_pubkey {b64 : Str} (hchars : ∀ c ∈ b64, ok c)
    (h : (pubkeyB64Decode b64).isSome = true) :
    Fit ok combinedKeyB64 b64 := by
  unfold pubkeyB64Decode at h
  split at h
  · cases h
  · rename_i hlen
    exact ⟨Nat.le_of_eq (not_not.mp hlen), hchars⟩

/-- The record of a user line: fields that were cut, and stamps of 64 bits. -/
theorem fits_parseUserRecord (hok : WireOk ok) {data : Str} {typ : Char} {inc : UserRecord}
    (hdata : ∀ c ∈ data, ok c) (htyp : Fit ok 1 [typ]) (h : parseUserRecord data typ = some inc) :
    UserFits ok inc := by
  unfold parseUserRecord at h
  split at h
  · rename_i uuid name pk act seen ts rest hsplit
    have hmem : ∀ f ∈ uuid :: name :: pk :: act :: seen :: ts :: rest, ∀ c ∈ f, ok c := by
      intro f hf c hc
      rw [← hsplit] at hf
      exact hdata c ((mem_splitOn (List.mem_of_mem_take hf)).1.subset hc)
    split at h
    · cases h
    rename_i hshape
    split at h
    · cases h
    rename_i hname
    simp only [Bool.or_eq_true, decide_eq_true_eq, not_or, not_le] at hname
    have huuid : Fit ok 36 uuid := fit_uuidShape hok (by simpa using hshape)
    have hfitName : Fit ok 63 name := ⟨Nat.le_of_lt_succ hname.2, hmem name (by simp)⟩
    simp only [] at h
    split at h
    · cases h
      exact ⟨huuid, hfitName, .nil, htyp, inI64_atoll _, inI64_atoll _⟩
    · obtain ⟨key, hkey, rfl⟩ := Option.map_eq_some_iff.mp h
      unfold fieldPubkey at hkey
      split at hkey
      · cases hkey
      obtain ⟨dec, hdec, rfl⟩ := Option.map_eq_some_iff.mp hkey
      exact ⟨huuid, hfitName, fit_of_pubkey (hmem pk (by simp)) (by rw [hdec]; rfl), htyp,
        inI64_atoll _, inI64_atoll _⟩
  · cases h

/-- A user line stamped zero or less for which the hub makes a record: it stays blank. -/
def makesBlank (clk : Clock) (s : HubState) (inc : UserRecord) : Bool :=
  (userFind s inc.uuid).isNone && (userNew clk s inc).isSome && decide (inc.timestamp ≤ 0)

/-- A live user of the name and type is there under another uuid. A peer's line makes no record
then. -/
def namesLive (s : HubState) (inc : UserRecord) : Bool :=
  inc.isActive && s.userRecords.any fun ex =>
    ex.isActive && ex.typ == inc.typ && eqIc ex.name inc.name

/-- The record a user line is compared with: one that fits, or the blank one just made. `bad` is
what a line that will lose to the blank record is. -/
inductive SlotFits (ok : Char → Prop) (clk : Clock) (s : HubState) (inc : UserRecord)
    (bad : Prop) :
    HubState × Nat → Prop
  | held (t : HubState) (i : Nat) (ht : Fits ok t) : SlotFits ok clk s inc bad (t, i)
  | blank (hroom : s.userRecords.length < maxHubUserRecords)
      (hahead : tsAhead clk inc.timestamp = false) (hzero : inc.timestamp ≤ 0 → bad) :
      SlotFits ok clk s inc bad
        ({ s with userRecords := s.userRecords ++ [{ uuid := inc.uuid }] }, s.userRecords.length)

/-- A record is made for a uuid that is not there. It is blank, with the type to be filled in by
the line. -/
private theorem slotFits_userNew {inc : UserRecord} {bad : Prop} {p : HubState × Nat}
    (hfind : userFind s inc.uuid = none) (hbad : makesBlank clk s inc = true → bad)
    (h : userNew clk s inc = some p) : SlotFits ok clk s inc bad p := by
  have hzero : inc.timestamp ≤ 0 → bad := by
    intro hts
    refine hbad ?_
    simp [makesBlank, hfind, h, hts]
  unfold userNew at h
  split at h
  · rename_i hguard
    cases h
    simp only [Bool.and_eq_true, decide_eq_true_eq, Bool.not_eq_true'] at hguard
    exact .blank hguard.1.1 hguard.1.2 hzero
  · cases h

/-- The record that a peer's line is compared with. -/
theorem slotFits_userSlot (h : Fits ok s) {inc : UserRecord} (hinc : Fit ok 36 inc.uuid)
    {p : HubState × Nat} (hslot : userSlot clk s inc = some p) :
    SlotFits ok clk s inc ((makesBlank clk s inc && !namesLive s inc) = true) p := by
  have hbad : namesLive s inc = false → makesBlank clk s inc = true →
      (makesBlank clk s inc && !namesLive s inc) = true := by
    intro hno hblank
    rw [hblank, hno]
    rfl
  unfold userSlot at hslot
  split at hslot
  · cases hslot
    exact .held _ _ h
  rename_i hfind
  split at hslot
  · split at hslot
    · rename_i hname
      refine slotFits_userNew hfind (hbad ?_) hslot
      rw [namesLive, Bool.and_eq_false_iff]
      right
      rw [List.any_eq_false]
      intro ex hex
      simpa using List.findIdx?_eq_none_iff.mp hname ex hex
    · split at hslot
      · cases hslot
      split at hslot
      · cases hslot
        exact .held _ _ (h.adoptUuid _ _ hinc)
      · cases hslot
  · rename_i hact
    refine slotFits_userNew hfind (hbad ?_) hslot
    simp [namesLive, hact]

/-- The record that a bot's line is compared with. A bot's line never adopts a uuid, so a live
user of the name does not help. -/
theorem slotFits_pushUserSlot (h : Fits ok s) {inc : UserRecord} {p : HubState × Nat}
    (hslot : pushUserSlot clk s inc = some p) :
    SlotFits ok clk s inc (makesBlank clk s inc = true) p := by
  unfold pushUserSlot at hslot
  split at hslot
  · cases hslot
    exact .held _ _ h
  · rename_i hfind
    exact slotFits_userNew hfind id hslot

/-- The record after the incoming one won over a record that fits. -/
theorem fits_userWrite {inc u : UserRecord} (hinc : UserFits ok inc) (huuid : Fit ok 36 u.uuid)
    (hkey : Fit ok combinedKeyB64 u.pubkeyB64) (hseen : InI64 u.lastSeen) :
    UserFits ok (userWrite inc u) := by
  refine ⟨huuid, hinc.name, ?_, hinc.typ, inI64_max hseen hinc.seen, hinc.stamp⟩
  unfold userWrite
  simp only []
  split
  · exact hinc.key
  · exact hkey

/-- A stamp past zero always wins against the blank record. -/
private theorem blank_lost {inc : UserRecord} (hahead : tsAhead clk inc.timestamp = false)
    (hlost : lwwAccepts clk inc.timestamp inc.isActive 0 false = false) : inc.timestamp ≤ 0 := by
  simp only [lwwAccepts, hahead, Bool.false_eq_true, if_false, Bool.and_false, Bool.false_and,
    Bool.or_false, decide_eq_false_iff_not, not_lt] at hlost
  exact hlost

/-- The incoming record wins: it is written, its type with it. -/
theorem SlotFits.write {inc cur : UserRecord} {bad : Prop} {p : HubState × Nat}
    (hslot : SlotFits ok clk s inc bad p) (h : Fits ok s) (hinc : UserFits ok inc)
    (hget : p.1.userRecords[p.2]? = some cur) :
    Fits ok { p.1 with userRecords := p.1.userRecords.set p.2 (userWrite inc cur) } := by
  cases hslot with
  | held t i ht =>
    have hcur := ht.users.get hget
    exact { ht with
      users := ht.users.set i (fits_userWrite hinc hcur.uuid hcur.key hcur.seen) }
  | blank hroom hahead hzero =>
    have hlast : (s.userRecords ++ [({ uuid := inc.uuid } : UserRecord)])[s.userRecords.length]?
        = some { uuid := inc.uuid } := by simp
    rw [show cur = { uuid := inc.uuid } from Option.some.inj (hget.symm.trans hlast)]
    have husers : TableFit maxHubUserRecords (UserFits ok)
        ((s.userRecords ++ [({ uuid := inc.uuid } : UserRecord)]).set s.userRecords.length
          (userWrite inc { uuid := inc.uuid })) := by
      rw [List.set_append_right _ _ (Nat.le_refl _), Nat.sub_self]
      exact h.users.append hroom (fits_userWrite hinc hinc.uuid .nil inI64_zero)
    exact { h with users := husers }

/-- The incoming record loses: only the time the user was seen may rise. -/
theorem SlotFits.lose {inc cur : UserRecord} {bad : Prop} {p : HubState × Nat}
    (hslot : SlotFits ok clk s inc bad p) (h : Fits ok s) (hinc : UserFits ok inc)
    (hget : p.1.userRecords[p.2]? = some cur)
    (hlost : lwwAccepts clk inc.timestamp inc.isActive cur.timestamp cur.isActive = false)
    (hsafe : ok '\x00' ∨ ¬ bad) : Fits ok (raise clk p.1 (.user p.2) inc.lastSeen) := by
  cases hslot with
  | held t i ht => exact ht.raise _ hinc.seen
  | blank hroom hahead hzero =>
    have hlast : (s.userRecords ++ [({ uuid := inc.uuid } : UserRecord)])[s.userRecords.length]?
        = some { uuid := inc.uuid } := by simp
    rw [show cur = { uuid := inc.uuid } from Option.some.inj (hget.symm.trans hlast)] at hlost
    rcases hsafe with hnul | hno
    · have htyp : Fit ok 1 ['\x00'] := ⟨by decide, fun c hc => by rwa [List.mem_singleton.mp hc]⟩
      have hnew : Fits ok { s with userRecords := s.userRecords ++ [{ uuid := inc.uuid }] } :=
        { h with
          users := h.users.append hroom ⟨hinc.uuid, .nil, .nil, htyp, inI64_zero, inI64_zero⟩ }
      exact hnew.raise _ hinc.seen
    · exact absurd (hzero (blank_lost hahead hlost)) hno

/-- A user line of a peer. A line that loses to the record made for it would leave that record
without a type, which is what `hsafe` rules out. -/
theorem Fits.syncUserRecord (h : Fits ok s) (hok : WireOk ok) {key : Char} {vstart : Str}
    {cnt : SyncCounters} (hline : ∀ c ∈ vstart, ok c) (htyp : Fit ok 1 [key])
    (hsafe : ok '\x00' ∨ ∀ inc, parseUserRecord vstart key = some inc →
      (makesBlank clk s inc && !namesLive s inc) = false) :
    Fits ok (syncUserRecord clk s key vstart cnt).1 := by
  unfold Hub.syncUserRecord
  split
  · exact h
  rename_i inc hparse
  have hinc := fits_parseUserRecord hok hline htyp hparse
  split
  · exact h
  rename_i t ui hslot
  have hfits := slotFits_userSlot h hinc.uuid hslot
  split
  · cases hfits with
    | held t i ht => exact ht
    | blank hroom hahead hzero =>
      rename_i hnone
      simp at hnone
  rename_i cur hget
  split
  · rename_i hlost
    refine hfits.lose h hinc hget (by simpa using hlost) (hsafe.imp id fun hno => ?_)
    rw [hno inc hparse]
    exact Bool.false_ne_true
  · exact hfits.write h hinc hget

/-! ### Usermask lines -/

/-- A mask line that parses fits the fields. -/
theorem fits_parseMaskRecord {vstart : Str} {inc : MaskRecord} (hline : ∀ c ∈ vstart, ok c)
    (h : parseMaskRecord vstart = some inc) : MaskFits ok inc := by
  unfold parseMaskRecord at h
  split at h
  · rename_i uuid mask act lastUsed ts hsplit
    cases h
    have hmem : ∀ f ∈ [uuid, mask, act, lastUsed, ts], ∀ c ∈ f, ok c := by
      intro f hf c hc
      rw [← hsplit] at hf
      exact hline c ((mem_splitOn (List.mem_of_mem_take hf)).1.subset hc)
    exact ⟨fit_trunc (hmem uuid (by simp)) 37, fit_trunc (hmem mask (by simp)) maxMaskLen,
      inI64_atoll _, inI64_atoll _⟩
  · cases h

/-- The record that a mask line is compared with. -/
theorem Fits.maskSlot (h : Fits ok s) {inc : MaskRecord} (hinc : MaskFits ok inc)
    {p : HubState × Nat} (hslot : maskSlot clk s inc = some p) : Fits ok p.1 := by
  unfold Hub.maskSlot at hslot
  split at hslot
  · cases hslot
    exact h
  split at hslot
  · rename_i hguard
    cases hslot
    simp only [Bool.and_eq_true, decide_eq_true_eq] at hguard
    exact { h with
      masks := h.masks.append hguard.1.1 ⟨hinc.uuid, hinc.mask, inI64_zero, inI64_zero⟩ }
  · cases hslot

/-- The incoming mask wins: it is written. -/
theorem Fits.writeMask (h : Fits ok s) {inc cur : MaskRecord} {mi : Nat} (hinc : MaskFits ok inc)
    (hget : s.maskRecords[mi]? = some cur) :
    Fits ok { s with
      maskRecords := s.maskRecords.set mi
        { cur with
          isActive := inc.isActive
          lastUsed := max cur.lastUsed inc.lastUsed
          timestamp := inc.timestamp } } := by
  have hcur := h.masks.get hget
  exact { h with
    masks := h.masks.set mi ⟨hcur.uuid, hcur.mask, inI64_max hcur.used hinc.used, hinc.stamp⟩ }

/-- A mask line of a peer. -/
theorem Fits.syncMaskRecord (h : Fits ok s) {vstart line : Str} {cnt : SyncCounters}
    (hline : ∀ c ∈ vstart, ok c) : Fits ok (syncMaskRecord clk s vstart line cnt).1 := by
  unfold Hub.syncMaskRecord
  split
  · exact h
  rename_i inc hparse
  have hinc := fits_parseMaskRecord hline hparse
  split
  · exact h
  split
  · exact h
  rename_i t mi hslot
  have ht : Fits ok t := h.maskSlot hinc hslot
  split
  · exact ht
  rename_i cur hget
  split
  · exact ht.raise (.mask mi) hinc.used
  · exact ht.writeMask hinc hget

/-! ### The admin floor -/

/-- A user comes back above the stamp of its deletion. -/
theorem Fits.reviveUser (h : Fits ok s) {i : Nat} {u : UserRecord} (hu : UserFits ok u) :
    Fits ok (reviveUser s i u).1 := by
  unfold Hub.reviveUser
  split
  · exact h
  · refine { h with users := ?_, masks := ?_ }
    · exact h.users.set i ⟨hu.uuid, hu.name, hu.key, hu.typ, hu.seen, inI64_satSucc hu.stamp⟩
    · refine h.masks.map fun m hm => ?_
      unfold reviveMask
      split
      · exact ⟨hm.uuid, hm.mask, hm.used, inI64_satSucc hm.stamp⟩
      · exact hm

/-- The admin flag of a user comes back, past the stamp that took it. -/
theorem Fits.restoreFlag (h : Fits ok s) (hok : WireOk ok) (uuid : Str) :
    Fits ok (restoreFlag clk s uuid).1 := by
  unfold Hub.restoreFlag
  split
  · exact h
  split
  · exact h
  split
  · exact h
  rename_i r hget
  have hput : Fits ok (Hub.uflagPut clk s uuid ['a'] (satSucc r.timestamp)).1 :=
    h.uflagPut hok uuid ['a'] (inI64_satSucc (h.flags.get hget).stamp)
  simp only []
  split
  · exact hput
  · exact hput

/-- One admin comes back: the user, then its flag. -/
theorem Fits.restoreAdmin {p : HubState × Str} (h : Fits ok p.1) (hok : WireOk ok) (i : Nat) :
    Fits ok (restoreAdmin clk p i).1 := by
  unfold Hub.restoreAdmin
  split
  · exact h
  · rename_i u hget
    exact (h.reviveUser (h.users.get hget)).restoreFlag hok _

/-- All admins that a step took away come back, by induction over the table. -/
theorem Fits.adminFloorRestore (h : Fits ok s) (hok : WireOk ok) :
    Fits ok (adminFloorRestore clk s).1 := by
  have hall : ∀ (is : List Nat) (p : HubState × Str), Fits ok p.1 →
      Fits ok (is.foldl (Hub.restoreAdmin clk) p).1 := by
    intro is
    induction is with
    | nil => exact fun p hp => hp
    | cons i is ih => exact fun p hp => ih _ (hp.restoreAdmin hok i)
  unfold Hub.adminFloorRestore
  simp only []
  split
  · exact h
  split
  · exact h
  · exact hall _ _ h

/-- The last steps of a sync or a push: what the admin floor brings back goes to the peers. -/
theorem Fits.floorBroadcast (h : Fits ok s) (hok : WireOk ok) :
    Fits ok (match (Hub.adminFloorRestore clk s).2 with
      | some lines =>
        if lines.isEmpty then (Hub.adminFloorRestore clk s).1
        else broadcastSyncToPeers (Hub.adminFloorRestore clk s).1 lines
      | none => (Hub.adminFloorRestore clk s).1) := by
  have hfloor : Fits ok (Hub.adminFloorRestore clk s).1 := h.adminFloorRestore hok
  split
  · split
    · exact hfloor
    · exact hfloor.broadcast _
  · exact hfloor

/-! ### Changes to the bindings of an oper -/

/-- The next stamp for the rights of a user: above all it has, and at least the clock. -/
theorem Fits.inI64_accessNextTs (h : Fits ok s) (hclk : InI64 clk.now) (uuid : Str) :
    InI64 (accessNextTs clk s uuid) := by
  have hfold : ∀ (rs : List UchanRecord) (x : Int), InI64 x → (∀ r ∈ rs, InI64 r.timestamp) →
      InI64 (rs.foldl (fun prev r => max prev r.timestamp) x) := by
    intro rs
    induction rs with
    | nil => exact fun x hx _ => hx
    | cons r rs ih =>
      intro x hx hrs
      exact ih _ (inI64_max hx (hrs r List.mem_cons_self))
        fun r hr => hrs r (List.mem_cons_of_mem _ hr)
  unfold accessNextTs
  refine inI64_lwwNextTs hclk (hfold _ _ ?_ ?_)
  · split
    · rename_i i _
      cases hget : s.uflagRecords[i]? with
      | none => exact inI64_zero
      | some r => exact (h.flags.get hget).stamp
    · exact inI64_zero
  · intro r hr
    exact (h.binds.all r (List.mem_filter.mp hr).1).stamp

/-- A change to the bindings writes records that fit. -/
theorem Fits.chanChange (h : Fits ok s) (hok : WireOk ok) (hclk : InI64 clk.now) (uuid : Str)
    (add : Bool) (chan : Str) : Fits ok (chanChange clk s uuid add chan).1 :=
  chanChangeInto_induction
    (fun _ c act ht => ht.uchanPut hok uuid c act (h.inI64_accessNextTs hclk uuid)) h add chan []

end IrcHub.Proofs
