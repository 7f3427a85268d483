import IrcHub.Hub.Channels

/-!
# `IrcHub.Hub.Purge`: expired bans, orphans and the purge

Expired bans, orphans and the purge, from `modes.rs` and `mesh.rs`.

* `bansSweep` deletes expired bans. The tombstone is one second past the ban's own stamp, so the
  hubs that sweep one ban write one record
* `purgeChanOrphans` removes the live settings, bans and learned keys of a channel without a live
  record
* `executePurge` drops the tombstones of every table below a cutoff (0 is all of them), the
  orphans, and the access records of users that are gone
* `purgeFloorSet`: a purge also sets the floor that keeps an older sync from bringing a purged
  tombstone back

The parts of the purge are in the order of the source, since some read what others left: a
usermask goes when its user is gone, a flag record as well, and a bot by its delete entry.

The tests for one record are `belowCutoff` and `isTombstone`. A delete stamped at the cutoff is
kept, and so is every binding to `"*"` of a live user, whose tombstone says that the user is bound
to channels.

Not modelled: the console's list of what a purge removed, and the push to the bots.
-/

set_option autoImplicit false

namespace IrcHub.Hub

open Str
open String (utf8Len)

/-! ### Expired bans -/

/-- An upgrade run holds the config. -/
def configFrozen (s : HubState) : Bool := s.optFlags.contains 'F'

/-- The tombstone the sweep writes over an expired ban. -/
def sweepTombstone (value : Str) : Str :=
  field value 0 maxChan ++ '|' :: field value 1 (banMaskMax + 1) ++ "|0||||del".toList

/-- Whether the ban in an entry has run out. -/
def banExpired (now : Int) (e : GlobalEntry) : Bool :=
  let expires := atoll (field e.value 2 16)
  decide (e.key = .B) && globalValueActive e.value && decide (0 < expires)
    && decide (expires ≤ now)

/-- Delete entry `i` if it is an expired ban, one second past its own stamp. -/
def sweepEntry (clk : Clock) (c : Cascade) (i : Nat) : Cascade :=
  match c.state.globalEntries[i]? with
  | none => c
  | some e =>
    if !banExpired clk.now e then c
    else
      let value := sweepTombstone e.value
      let ts := satSucc e.timestamp
      let p := putRecord clk c.state .B value ts
      if !p.2 then { c with state := p.1 }
      else c.note p.1 true ("B|".toList ++ value ++ '|' :: ofInt ts ++ ['\n'])

/-- Delete every expired ban, at most once per `banSweepInterval`. -/
def bansSweep (clk : Clock) (s : HubState) : HubState :=
  if s.bansSweptAt ≠ 0 && clk.now - s.bansSweptAt < banSweepInterval then s
  else
    let s := { s with bansSweptAt := clk.now }
    if configFrozen s then s
    else
      let c := (List.range s.globalEntries.length).foldl (sweepEntry clk) { state := s }
      if c.out.isEmpty then c.state else broadcastSyncToPeers c.state c.out

/-! ### Orphans -/

/-- A live setting or ban of a channel without a live record. -/
def isOrphan (s : HubState) (e : GlobalEntry) : Bool :=
  let chan := firstField e.value
  (decide (e.key = .C) || decide (e.key = .B)) && entryActive e
    && !decide (utf8Len chan ≥ maxChan) && !(decide (e.key = .B) && chan == ['*'])
    && (chanLive s chan).isNone

/-- Forget the slots of channels without a live record. The last slot takes the place of a
dropped one, so a position is looked at again after a drop; each look ends a slot or moves
past it, so the number of slots is fuel enough. -/
def learnedSweep : Nat → Nat → HubState → HubState
  | 0, _, s => s
  | fuel + 1, i, s =>
    match s.chanLearned[i]? with
    | none => s
    | some l =>
      if (chanLive s l.chan).isSome then learnedSweep fuel (i + 1) s
      else learnedSweep fuel i (learnedDrop s l.chan)

/-- Remove the orphans of the global table and of the learned keys. -/
def purgeChanOrphans (s : HubState) : HubState :=
  let kept := s.globalEntries.filter fun e => !isOrphan s e
  let s' :=
    if kept.length < s.globalEntries.length then globalReindex { s with globalEntries := kept }
    else s
  learnedSweep s'.chanLearned.length 0 s'

/-! ### Bindings and flags without a user -/

/-- Keep the first record of each kind for which `same` holds, of users that exist. -/
def keepFirst {α : Type} (known : α → Bool) (same : α → α → Bool) (xs : List α) : List α :=
  xs.foldl (fun kept r => if known r && !kept.any (same · r) then kept ++ [r] else kept) []

/-- Drop flags and bindings whose user is gone, and duplicates. -/
def accessPrune (s : HubState) : HubState :=
  let users := s.userRecords.map (·.uuid)
  { s with
    uflagRecords :=
      keepFirst (fun r => users.contains r.uuid) (fun k r => k.uuid == r.uuid) s.uflagRecords
    uchanRecords :=
      keepFirst (fun r => users.contains r.uuid)
        (fun k r => k.uuid == r.uuid && eqIc k.chan r.chan) s.uchanRecords }

/-- A binding the purge removes: a tombstone older than the cutoff (0 is all of them), or a live
binding to a channel no one manages. A `"*"` delete of a live user stays. -/
def bindingGone (s : HubState) (cutoff : Int) (r : UchanRecord) : Bool :=
  let live := (s.userRecords.filter (·.isActive)).map (·.uuid)
  (r.isActive && r.chan != ['*'] && (chanLive s r.chan).isNone)
    || (!r.isActive && (decide (cutoff = 0) || decide (r.timestamp < cutoff))
      && !(live.contains r.uuid && r.chan == ['*']))

/-- Drop the bindings the purge removes, then the records without a user. -/
def accessPurge (s : HubState) (cutoff : Int) : HubState :=
  accessPrune { s with uchanRecords := s.uchanRecords.filter fun r => !bindingGone s cutoff r }

/-! ### The purge -/

/-- A purge holds its cutoff as floor for `purgeFloorHold`. -/
def purgeFloorSet (clk : Clock) (s : HubState) (cutoff : Int) : HubState :=
  let floor := if cutoff > 0 then cutoff else clk.now
  { s with
    purgeFloor := if s.purgeFloorUntil ≤ clk.now || floor > s.purgeFloor then floor
      else s.purgeFloor
    purgeFloorUntil := clk.now + purgeFloorHold }

/-- Whether a record with this stamp is old enough to be purged. -/
def belowCutoff (cutoff ts : Int) : Bool := decide (cutoff = 0) || decide (ts < cutoff)

/-- A deleted entry of the global table. -/
def isTombstone (e : GlobalEntry) : Bool :=
  (match e.key with
    | .c | .m | .o | .C | .B => true
    | _ => false) && !globalValueActive e.value

/-- A bot the purge removes: it has a delete entry below the cutoff. -/
def purgeBot (cutoff : Int) (b : BotConfig) : Bool :=
  match b.entries.find? (fun e => e.key = .d && e.value = ['1']) with
  | some e => decide (cutoff = 0) || (decide (e.timestamp > 0) && decide (e.timestamp < cutoff))
  | none => false

/-- Drop the old tombstones of the global table. -/
def purgeGlobals (cutoff : Int) (s : HubState) : HubState :=
  globalReindex { s with
    globalEntries :=
      s.globalEntries.filter fun e => !(isTombstone e && belowCutoff cutoff e.timestamp) }

/-- A deleted user below the cutoff. -/
def purgeUser (cutoff : Int) (u : UserRecord) : Bool :=
  !u.isActive && belowCutoff cutoff u.timestamp

/-- A deleted mask below the cutoff, or one whose user is gone. -/
def purgeMask (s : HubState) (cutoff : Int) (m : MaskRecord) : Bool :=
  !s.userRecords.any (fun u => u.uuid == m.uuid)
    || (!m.isActive && belowCutoff cutoff m.timestamp)

/-- Drop the old tombstones of the user table. -/
def purgeUsers (cutoff : Int) (s : HubState) : HubState :=
  { s with
    userRecords := (s.userRecords.filter fun u => !purgeUser cutoff u).take maxHubUserRecords }

/-- Drop the old tombstones of the mask table, and the masks whose user is gone. -/
def purgeMasks (cutoff : Int) (s : HubState) : HubState :=
  { s with
    maskRecords := (s.maskRecords.filter fun m => !purgeMask s cutoff m).take maxHubUserMasks }

/-- Drop the deleted bots. -/
def purgeBots (cutoff : Int) (s : HubState) : HubState :=
  { s with bots := (s.bots.filter fun b => !purgeBot cutoff b).take maxBots }

/-- Drop the tombstones older than the cutoff (0 is all of them) and the orphans of every
table. -/
def executePurge (clk : Clock) (s : HubState) (cutoff : Int) : HubState :=
  let s := purgeGlobals cutoff (purgeFloorSet clk s cutoff)
  let s := purgeMasks cutoff (purgeUsers cutoff (purgeChanOrphans s))
  purgeBots cutoff (accessPurge s cutoff)

/-- How many records a purge says it removed. Flags and bindings that went because their user is
gone are not counted. -/
def purgeCount (clk : Clock) (s : HubState) (cutoff : Int) : Nat :=
  let o := purgeChanOrphans (purgeGlobals cutoff (purgeFloorSet clk s cutoff))
  let u := purgeUsers cutoff o
  let m := purgeMasks cutoff u
  (s.globalEntries.length - o.globalEntries.length)
    + (s.chanLearned.length - o.chanLearned.length)
    + o.userRecords.countP (purgeUser cutoff) + u.maskRecords.countP (purgeMask u cutoff)
    + m.uchanRecords.countP (bindingGone m cutoff) + m.bots.countP (purgeBot cutoff)

end IrcHub.Hub
