import IrcHub.Hub.Access
import IrcHub.Hub.Activity
import IrcHub.Hub.Cstr

/-!
# `IrcHub.Hub.Users`: users and usermasks from a peer

Users and usermasks from a peer, from `mesh.rs`, and the admin floor of `access.rs`. The text of a
user record, and the two functions that merge a user line or a usermask line of a peer into the
tables.

- `parseUserRecord`, `formatUserRecord`: a record as a line
- `syncUserRecord`: merge one user line. A user the hub does not know by uuid may still be known
  by name: two live records of one name are one user created on two hubs at once, and the record
  that loses takes the other's uuid (`incomingWins`, `adoptUuid`)
- `remapUuid`: flags and bindings follow to the other uuid, each by the rule of its own table
- `syncMaskRecord`: merge one usermask line. Masks of unknown users are refused
- `adminFloorRestore`: when no live admin holds `a`, undo the removals of full admins up to a time
  before the last of them

An incoming record is compared with the one of its uuid, or with a blank one, and wins by its
stamp. The time a user was last seen is merged either way. A line without a key never erases a
stored key.

What a merge reports (the counters and the lines to forward) is `SyncCounters`.
-/

set_option autoImplicit false

namespace IrcHub.Hub

open Str
open String (utf8Len)

/-! ### Text -/

/-- The first `max` fields of a line. -/
def splitFields (s : Str) (max : Nat) : List Str := (s.splitOn '|').take max

/-- The two keys of a combined public key: 88 characters, the one encoding of 64 bytes, neither
half zero. -/
def pubkeyB64Decode (b64 : Str) : Option (List Nat) :=
  if utf8Len b64 ≠ combinedKeyB64 then none
  else if !b64.zipIdx.all fun p =>
      if p.2 ≥ combinedKeyB64 - 2 then p.1 == '='
      else p.1.isAlphanum || p.1 == '+' || p.1 == '/' then none
  else
    match b64Decode false b64 with
    | none => none
    | some dec =>
        if (dec.take 32).all (· == 0) || (dec.drop 32).all (· == 0) then none else some dec

/-- A field that is exactly a valid combined public key. -/
def fieldPubkey (f : Str) : Option Str :=
  if utf8Len f ≠ combinedKeyB64 then none else (pubkeyB64Decode f).map fun _ => f

/-- The record of a line `uuid|name|pubkey|act|seen|ts|`. A key field that is no valid key
refuses the line. -/
def parseUserRecord (data : Str) (typ : Char) : Option UserRecord :=
  match splitFields data 8 with
  | uuid :: name :: pk :: act :: seen :: ts :: _ =>
    if !uuidShape uuid then none
    else if name.isEmpty || utf8Len name ≥ 64 then none
    else
      let out : UserRecord :=
        { uuid := uuid, name := name, typ := typ, isActive := act == "add".toList,
          lastSeen := atoll seen, timestamp := atoll ts }
      if pk.isEmpty then some out
      else (fieldPubkey pk).map fun key => { out with pubkeyB64 := key, hasPubkey := true }
  | _ => none

/-- The op of a record on the wire. -/
def opText (active : Bool) : Str := if active then "add".toList else "del".toList

/-- The line of a user record, with its newline. -/
def formatUserRecord (u : UserRecord) : Str :=
  u.typ :: '|' :: u.uuid ++ '|' :: u.name ++ '|' :: (if u.hasPubkey then u.pubkeyB64 else [])
    ++ '|' :: opText u.isActive ++ '|' :: ofInt u.lastSeen ++ '|' :: ofInt u.timestamp
    ++ "|\n".toList

/-! ### Counters of a sync -/

/-- What the lines of a sync changed: how many records, how many of them the bots need to hear
of, and the lines to forward. -/
structure SyncCounters where
  updates : Nat := 0
  botPushUpdates : Nat := 0
  forward : Str := []
  deriving Repr, DecidableEq

/-- One more update the bots need to hear of. -/
def SyncCounters.push (cnt : SyncCounters) : SyncCounters :=
  { cnt with updates := cnt.updates + 1, botPushUpdates := cnt.botPushUpdates + 1 }

/-- Forward a line that fits. -/
def SyncCounters.send (cnt : SyncCounters) (line : Str) : SyncCounters :=
  if utf8Len cnt.forward + utf8Len line < maxSyncPayload then
    { cnt with forward := cnt.forward ++ line }
  else cnt

/-! ### One user under two uuids -/

/-- The flag record `i` of `old` follows to `new`, or loses to the record that is there. -/
def remapFlag (clk : Clock) (old new : Str) (s : HubState) (i : Nat) : HubState :=
  match s.uflagRecords[i]? with
  | none => s
  | some r =>
    if r.uuid ≠ old then s
    else
      match uflagFind s new with
      -- the new uuid has no flags of its own
      | none =>
        { s with uflagRecords := s.uflagRecords.modify i fun r => { r with uuid := new } }
      | some d =>
        match s.uflagRecords[d]? with
        | none => s
        | some dst =>
          -- it has: the rights rule decides
          if d ≠ i && uflagsAccepts clk r.timestamp r.flags dst.timestamp dst.flags then
            { s with
              uflagRecords := s.uflagRecords.modify d fun x =>
                { x with flags := r.flags, timestamp := r.timestamp } }
          else s

/-- The binding `i` of `old` follows to `new`, or loses to the binding that is there. -/
def remapChan (clk : Clock) (old new : Str) (s : HubState) (i : Nat) : HubState :=
  match s.uchanRecords[i]? with
  | none => s
  | some r =>
    if r.uuid ≠ old then s
    else
      match uchanFind s new r.chan with
      | none =>
        -- the new uuid has no binding of that channel
        { s with uchanRecords := s.uchanRecords.modify i fun r => { r with uuid := new } }
      | some d =>
        match s.uchanRecords[d]? with
        | none => s
        | some dst =>
          -- it has: last-writer-wins decides
          if d ≠ i && lwwAccepts clk r.timestamp r.isActive dst.timestamp dst.isActive then
            { s with
              uchanRecords := s.uchanRecords.modify d fun x =>
                { x with isActive := r.isActive, timestamp := r.timestamp } }
          else s

/-- Flags and bindings of `old` follow to `new`. -/
def remapUuid (clk : Clock) (s : HubState) (old new : Str) : HubState :=
  let s := (List.range s.uflagRecords.length).foldl (remapFlag clk old new) s
  (List.range s.uchanRecords.length).foldl (remapChan clk old new) s

/-- Of two live records of one name: the one seen later wins, then the newer, then the smaller
uuid. -/
def incomingWins (inc ex : UserRecord) : Bool :=
  decide (inc.lastSeen > ex.lastSeen)
    || (decide (inc.lastSeen = ex.lastSeen) && decide (inc.timestamp > ex.timestamp))
    || (decide (inc.lastSeen = ex.lastSeen) && decide (inc.timestamp = ex.timestamp)
      && decide (inc.uuid < ex.uuid))

/-- The record at `ni` takes the uuid of the incoming one, and its masks, flags and bindings
follow. -/
def adoptUuid (clk : Clock) (s : HubState) (ni : Nat) (ex inc : UserRecord) : HubState :=
  let s := remapUuid clk s ex.uuid inc.uuid
  { s with
    maskRecords :=
      s.maskRecords.map fun m => if m.uuid == ex.uuid then { m with uuid := inc.uuid } else m
    userRecords := s.userRecords.modify ni fun u => { u with uuid := inc.uuid } }

/-! ### Users -/

/-- Index of a user. -/
def userFind (s : HubState) (uuid : Str) : Option Nat :=
  s.userRecords.findIdx? (fun u => u.uuid == uuid)

/-- A blank record for a user the hub does not know, if there is room, and if a purge or the
clock does not forbid it. -/
def userNew (clk : Clock) (s : HubState) (inc : UserRecord) : Option (HubState × Nat) :=
  if decide (s.userRecords.length < maxHubUserRecords) && !tsAhead clk inc.timestamp
      && (inc.isActive || !purgeFloorBlocks clk s inc.timestamp) then
    some ({ s with userRecords := s.userRecords ++ [{ uuid := inc.uuid }] }, s.userRecords.length)
  else none

/-- The record an incoming one is compared with: by uuid, for a live one by name, or a blank
one. -/
def userSlot (clk : Clock) (s : HubState) (inc : UserRecord) : Option (HubState × Nat) :=
  match userFind s inc.uuid with
  | some i => some (s, i)
  | none =>
    -- a deleted user is known by its uuid only
    if inc.isActive then
      match s.userRecords.findIdx? fun ex =>
          ex.isActive && ex.typ == inc.typ && eqIc ex.name inc.name with
      | none => userNew clk s inc
      | some ni =>
        match s.userRecords[ni]? with
        | none => none
        -- of two live records of one name the loser's line is dropped
        | some ex => if incomingWins inc ex then some (adoptUuid clk s ni ex inc, ni) else none
    else userNew clk s inc

/-- The stored record after the incoming one won. A keyless line never erases a key. -/
def userWrite (inc u : UserRecord) : UserRecord :=
  { u with
    name := inc.name
    typ := inc.typ
    isActive := inc.isActive
    lastSeen := max u.lastSeen inc.lastSeen
    timestamp := inc.timestamp
    pubkeyB64 := if inc.hasPubkey then inc.pubkeyB64 else u.pubkeyB64
    hasPubkey := inc.hasPubkey || u.hasPubkey }

/-- Merge one user line of a peer. -/
def syncUserRecord (clk : Clock) (s : HubState) (key : Char) (vstart : Str) (cnt : SyncCounters) :
    HubState × SyncCounters :=
  match parseUserRecord vstart key with
  | none => (s, cnt)
  | some inc =>
    match userSlot clk s inc with
    | none => (s, cnt)
    | some (s, ui) =>
      match s.userRecords[ui]? with
      | none => (s, cnt)
      | some cur =>
        -- the line loses: only the time the user was seen may go up
        if !lwwAccepts clk inc.timestamp inc.isActive cur.timestamp cur.isActive then
          (raise clk s (.user ui) inc.lastSeen, cnt)
        else
          let u := userWrite inc cur
          let line := formatUserRecord u
          ({ s with userRecords := s.userRecords.set ui u },
            -- a line that is too long is stored, and not forwarded
            if utf8Len line < userLineMax then cnt.push.send line else cnt.push)

/-! ### Usermasks -/

/-- Index of a usermask. -/
def maskFind (s : HubState) (uuid mask : Str) : Option Nat :=
  s.maskRecords.findIdx? (fun m => m.uuid == uuid && eqIc m.mask mask)

/-- The fields of a line `uuid|mask|add/del|last_used|ts`, the mask record it offers. -/
def parseMaskRecord (vstart : Str) : Option MaskRecord :=
  match splitFields vstart 5 with
  | [uuid, mask, act, lastUsed, ts] =>
    some { uuid := trunc uuid 37, mask := trunc mask maxMaskLen,
           isActive := "add".toList.isPrefixOf (trunc act 8), lastUsed := atoll lastUsed,
           timestamp := atoll ts }
  | _ => none

/-- The record an incoming mask is compared with: the stored one or a blank one. -/
def maskSlot (clk : Clock) (s : HubState) (inc : MaskRecord) : Option (HubState × Nat) :=
  match maskFind s inc.uuid inc.mask with
  | some i => some (s, i)
  | none =>
    if decide (s.maskRecords.length < maxHubUserMasks) && !tsAhead clk inc.timestamp
        && (inc.isActive || !purgeFloorBlocks clk s inc.timestamp) then
      some ({ s with maskRecords := s.maskRecords ++ [{ uuid := inc.uuid, mask := inc.mask }] },
        s.maskRecords.length)
    else none

/-- Merge one usermask line of a peer. Masks of unknown users are refused. -/
def syncMaskRecord (clk : Clock) (s : HubState) (vstart line : Str) (cnt : SyncCounters) :
    HubState × SyncCounters :=
  match parseMaskRecord vstart with
  | none => (s, cnt)
  | some inc =>
    -- a mask of nobody
    if (userFind s inc.uuid).isNone then (s, cnt)
    else
      match maskSlot clk s inc with
      | none => (s, cnt)
      | some (s, mi) =>
        match s.maskRecords[mi]? with
        | none => (s, cnt)
        | some cur =>
          if !lwwAccepts clk inc.timestamp inc.isActive cur.timestamp cur.isActive then
            -- the mask loses: only the time it was used may go up
            (raise clk s (.mask mi) inc.lastUsed, cnt)
          else
            ({ s with
                maskRecords := s.maskRecords.set mi
                  { cur with
                    isActive := inc.isActive
                    lastUsed := max cur.lastUsed inc.lastUsed
                    timestamp := inc.timestamp } },
              cnt.push.send (line ++ ['\n']))

/-! ### The admin floor -/

/-- A drop of flag `a` that is remembered. -/
def adropMatch (s : HubState) (uuid : Str) (ts : Int) : Bool :=
  s.adrop.any fun p => decide (p.2 = ts) && p.1 == uuid

/-- Stamp of the flag record of a user. -/
def uflagTs (s : HubState) (uuid : Str) : Option Int :=
  (uflagFind s uuid).bind fun k => s.uflagRecords[k]?.map (·.timestamp)

/-- When an admin stopped being a full one: it was deleted, or it lost `a`. `none` for an admin
that did not, or not lately enough to be remembered. -/
def floorCandidate (s : HubState) (u : UserRecord) : Option Int :=
  let hasA := (userFlags s u.uuid).contains 'a'
  -- a live user is not gone
  let gone := if u.isActive then 0 else u.timestamp
  match uflagTs s u.uuid with
  | some ft =>
    -- it lost the letter, by a drop that is remembered
    if !hasA && adropMatch s u.uuid ft then some (max gone ft)
    -- it was deleted with the letter
    else if hasA && !u.isActive then some gone
    else none
  | none => if hasA && !u.isActive then some gone else none

/-- The usermask line on the wire. -/
def formatMaskRecord (m : MaskRecord) : Str :=
  "m|".toList ++ m.uuid ++ '|' :: m.mask ++ '|' :: opText m.isActive ++ '|' :: ofInt m.lastUsed
    ++ '|' :: ofInt m.timestamp ++ ['\n']

/-- A mask that was dropped with its user. -/
def droppedWith (u : UserRecord) (m : MaskRecord) : Bool :=
  !m.isActive && m.uuid == u.uuid && decide (u.timestamp - 2 ≤ m.timestamp)
    && decide (m.timestamp ≤ min (u.timestamp + 2) i64Max)

/-- Such a mask comes back just past its delete. -/
def reviveMask (u : UserRecord) (m : MaskRecord) : MaskRecord :=
  if droppedWith u m then { m with isActive := true, timestamp := satSucc m.timestamp } else m

/-- A deleted admin comes back with the masks dropped with it. Also the lines written. -/
def reviveUser (s : HubState) (i : Nat) (u : UserRecord) : HubState × Str :=
  if u.isActive then (s, [])
  else
    let u' := { u with isActive := true, timestamp := satSucc u.timestamp }
    ({ s with
        userRecords := s.userRecords.set i u'
        maskRecords := s.maskRecords.map (reviveMask u) },
      formatUserRecord u'
        ++ (s.maskRecords.filter (droppedWith u)).flatMap fun m =>
          formatMaskRecord (reviveMask u m))

/-- An admin that lost `a` has it again. Also the line written. -/
def restoreFlag (clk : Clock) (s : HubState) (uuid : Str) : HubState × Str :=
  if (userFlags s uuid).contains 'a' then (s, [])
  else
    match uflagFind s uuid with
    | none => (s, [])
    | some k =>
      match s.uflagRecords[k]? with
      | none => (s, [])
      | some r =>
        let q := uflagPut clk s uuid ['a'] (satSucc r.timestamp)
        if !q.2 then (q.1, [])
        else (q.1, ((q.1.uflagRecords[k]?.map formatUflag).getD []))

/-- Undo the removal of one admin. -/
def restoreAdmin (clk : Clock) (p : HubState × Str) (i : Nat) : HubState × Str :=
  match p.1.userRecords[i]? with
  | none => p
  | some u =>
    let q := reviveUser p.1 i u
    let r := restoreFlag clk q.1 u.uuid
    (r.1, p.2 ++ q.2 ++ r.2)

/-- The admins whose removal is undone, by their place in the table: those removed within
`adminFloorWindow` of the last one. -/
def floorWindow (s : HubState) : List Nat :=
  let admins := s.userRecords.zipIdx.filter fun p => p.1.typ == 'a'
  let cand := admins.filterMap fun p => (floorCandidate s p.1).map fun t => (p.2, t)
  let newest := cand.foldl (fun m c => max m c.2) 0
  (cand.filter fun c => decide (newest - adminFloorWindow ≤ c.2)).map (·.1)

/-- How many admins the floor says it restored: one for each of them, whatever was written. -/
def adminFloorRestored (s : HubState) : Nat := (floorWindow s).length

/-- When no live admin holds `a`, undo the removals of full admins up to `adminFloorWindow` before
the last one. `none` when there is a full admin, or none to bring back. -/
def adminFloorRestore (clk : Clock) (s : HubState) : HubState × Option Str :=
  let admins := s.userRecords.zipIdx.filter fun p => p.1.typ == 'a'
  if admins.any (fun p => p.1.isActive && (userFlags s p.1.uuid).contains 'a') then (s, none)
  else
    let cand := admins.filterMap fun p => (floorCandidate s p.1).map fun t => (p.2, t)
    if cand.isEmpty then (s, none)
    else
      let newest := cand.foldl (fun m c => max m c.2) 0
      let r := ((cand.filter fun c => decide (newest - adminFloorWindow ≤ c.2)).map (·.1)).foldl
        (restoreAdmin clk) (s, [])
      (r.1, some r.2)

end IrcHub.Hub
